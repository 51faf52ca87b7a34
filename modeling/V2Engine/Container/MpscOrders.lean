import V2Engine.Container.LockFreeMpscQueue
import V2Engine.Container.PushOrders

/-! `pop` of `LockFreeMpscQueue` with its memory orders. The head is loaded and stored
relaxed, so the one consumer may be another thread than before only if the latest head has
come to it by some other way: here that is a hypothesis on what it knows. -/
namespace LockFreeMpscQueue

open TicketRing LockFreeQueue WeakMemory

variable {π α χ ω : Type*}

/-- `time` as in `WeakPushChoice`. -/
inductive WeakPopChoice where
  | call (maxCount : Nat)
  | go (time : ℕ)

section Program

variable [DecidableEq χ] [DecidableEq ω]

def weakPop (capacity : Nat) (s : Shared π Unit α χ ω) (l : Seeing χ ω (Consumer α))
    (choice : WeakPopChoice) : Option (Shared π Unit α χ ω × Seeing χ ω (Consumer α)) :=
  match l.place.pc, choice with
  | .idle, .call maxCount | .returned, .call maxCount =>
      some (s, { l with place := ⟨maxCount, [], Consumer.next maxCount⟩ })
  | .loadHead, .go time =>
      (s.memory.load .relaxed .head time l.view).map fun (pos, view) =>
        (s, ⟨view, { l.place with pc := .loadSequence pos }⟩)
  | .loadSequence pos, .go time =>
      (s.memory.load .acquire (.sequence (pos % capacity)) time l.view).map fun (seq, view) =>
        let diff : Int := (seq : Int) - (pos + 1 : Int)
        if diff ≠ 0 then (s, ⟨view, { l.place with pc := .returned }⟩)
        else ({ s with ring := s.ring.claim pos () }, ⟨view, { l.place with pc := .take pos }⟩)
  | .take pos, .go _ =>
      let element := s.memory.contents (.storage (pos % capacity))
      let used := s.use (.storage (pos % capacity)) none l.view
      some ({ used.1 with ring := s.ring.take capacity pos },
        ⟨used.2, { l.place with out := l.place.out ++ [element], pc := .storeHead pos element }⟩)
  | .storeHead pos element, .go time =>
      (s.memory.store .relaxed .head (pos + 1) time l.view).map fun (memory, view) =>
        ({ s with memory := memory, ring := { s.ring with head := pos + 1 } },
          ⟨view, { l.place with pc := .release pos element }⟩)
  | .release pos element, .go time =>
      (s.memory.store .release (.sequence (pos % capacity)) (pos + capacity) time l.view).map
        fun (memory, view) =>
          ({ s with memory := memory, ring := s.ring.retire capacity pos ⟨(), pos, element⟩ },
            ⟨view, { l.place with
              remaining := l.place.remaining - 1
              pc := Consumer.next (l.place.remaining - 1) }⟩)
  | _, _ => none

end Program

/-- What the consumer has seen of the slot it reads from. -/
def Finds (capacity : Nat) (s : Shared π Unit α χ ω) (l : Seeing χ ω (Consumer α)) : Prop :=
  match l.place.pc with
  | .take pos | .storeHead pos _ | .release pos _ =>
      Owns s l.view (pos % capacity) ∧ s.sent pos ≤ l.view
  | _ => True

/-- The head is not yet past the ticket that is read. -/
def Passes (ring : State π Unit α) (l : Consumer α) : Prop :=
  match l.pc with
  | .take pos | .storeHead pos _ => ring.head = pos
  | _ => True

/-- Whatever had happened before the tickets read so far were taken has happened before. -/
def Received (s : Shared π Unit α χ ω) (V : View (Atomic χ) (Plain ω)) : Prop :=
  ∀ result ∈ s.ring.popped, s.sent result.ticket ≤ V

section Steps

variable [DecidableEq χ] [DecidableEq ω] {capacity : Nat} {s s' : Shared π Unit α χ ω}
  {l l' : Seeing χ ω (Consumer α)} {choice : WeakPopChoice}

inductive WeakPopEffect (capacity : Nat) (s : Shared π Unit α χ ω)
    (l : Seeing χ ω (Consumer α)) : Shared π Unit α χ ω → Seeing χ ω (Consumer α) → Prop where
  | calls (maxCount : Nat) (hPc : l.place.pc = .idle ∨ l.place.pc = .returned) :
      WeakPopEffect capacity s l s { l with place := ⟨maxCount, [], Consumer.next maxCount⟩ }
  | looks (pos time : ℕ) (V : View (Atomic χ) (Plain ω)) (hPc : l.place.pc = .loadHead)
      (h : s.memory.load .relaxed .head time l.view = some (pos, V)) :
      WeakPopEffect capacity s l s ⟨V, { l.place with pc := .loadSequence pos }⟩
  | misses (pos time seq : ℕ) (V : View (Atomic χ) (Plain ω))
      (hPc : l.place.pc = .loadSequence pos)
      (h : s.memory.load .acquire (.sequence (pos % capacity)) time l.view = some (seq, V)) :
      WeakPopEffect capacity s l s ⟨V, { l.place with pc := .returned }⟩
  | claims (pos time : ℕ) (V : View (Atomic χ) (Plain ω)) (hPc : l.place.pc = .loadSequence pos)
      (h : s.memory.load .acquire (.sequence (pos % capacity)) time l.view =
        some (pos + 1, V)) :
      WeakPopEffect capacity s l { s with ring := s.ring.claim pos () }
        ⟨V, { l.place with pc := .take pos }⟩
  | takes (pos : ℕ) (hPc : l.place.pc = .take pos) :
      WeakPopEffect capacity s l
        { (s.use (.storage (pos % capacity)) none l.view).1 with
          ring := s.ring.take capacity pos }
        ⟨(s.use (.storage (pos % capacity)) none l.view).2,
          { l.place with
            out := l.place.out ++ [s.memory.contents (.storage (pos % capacity))]
            pc := .storeHead pos (s.memory.contents (.storage (pos % capacity))) }⟩
  | advances (pos time : ℕ) (element : Option α)
      (memory : Memory (Atomic χ) (Plain ω) ℕ (Option α)) (V : View (Atomic χ) (Plain ω))
      (hPc : l.place.pc = .storeHead pos element)
      (h : s.memory.store .relaxed .head (pos + 1) time l.view = some (memory, V)) :
      WeakPopEffect capacity s l
        { s with memory := memory, ring := { s.ring with head := pos + 1 } }
        ⟨V, { l.place with pc := .release pos element }⟩
  | retires (pos time : ℕ) (element : Option α)
      (memory : Memory (Atomic χ) (Plain ω) ℕ (Option α))
      (V : View (Atomic χ) (Plain ω)) (hPc : l.place.pc = .release pos element)
      (h : s.memory.store .release (.sequence (pos % capacity)) (pos + capacity) time l.view =
        some (memory, V)) :
      WeakPopEffect capacity s l
        { s with memory := memory, ring := s.ring.retire capacity pos ⟨(), pos, element⟩ }
        ⟨V, { l.place with
          remaining := l.place.remaining - 1
          pc := Consumer.next (l.place.remaining - 1) }⟩

theorem weakPop_effect (h : weakPop capacity s l choice = some (s', l')) :
    WeakPopEffect capacity s l s' l' := by
  obtain ⟨V, remaining, out, pc⟩ := l
  cases pc <;> cases choice <;> simp only [weakPop, reduceCtorEq] at h
  case idle.call maxCount | returned.call maxCount =>
    cases h
    exact .calls _ (by simp)
  case loadHead.go time =>
    obtain ⟨⟨pos, V'⟩, hLoad, hAfter⟩ := Option.map_eq_some_iff.mp h
    cases hAfter
    exact .looks pos time V' rfl hLoad
  case loadSequence.go pos time =>
    obtain ⟨⟨seq, V'⟩, hLoad, hAfter⟩ := Option.map_eq_some_iff.mp h
    simp only at hAfter
    split_ifs at hAfter with hOther <;> cases hAfter
    · exact .misses pos time seq V' rfl hLoad
    · obtain rfl : seq = pos + 1 := by omega
      exact .claims pos time V' rfl hLoad
  case take.go pos time =>
    cases h
    exact .takes pos rfl
  case storeHead.go pos element time =>
    obtain ⟨⟨memory, V'⟩, hStore, hAfter⟩ := Option.map_eq_some_iff.mp h
    cases hAfter
    exact .advances pos time element memory V' rfl hStore
  case release.go pos element time =>
    obtain ⟨⟨memory, V'⟩, hStore, hAfter⟩ := Option.map_eq_some_iff.mp h
    cases hAfter
    exact .retires pos time element memory V' rfl hStore

/-- The next ticket is ready once its sequence number has come past it. -/
theorem published_of_past {ring : State π Unit α} (valid : Valid capacity ring)
    (sequential : Sequential ring) (unclaimed : Unclaimed ring)
    (h : ring.popped.length + 1 ≤ ring.sequence (ring.popped.length % capacity)) :
    ring.stage ring.popped.length = .published := by
  cases hStage : ring.stage ring.popped.length with
  | published => rfl
  | free => have := valid.waiting _ hStage; omega
  | reserved t => have := valid.occupied ring.popped.length 0 (by simp [hStage]); omega
  | claimed reader => exact absurd hStage (unclaimed _)
  | retired => exact absurd ((sequential.retired_iff _).mp hStage) (Nat.lt_irrefl _)

/-- The ring moves as if sequence numbers were never stale, or a pop comes back empty. -/
theorem WeakPopEffect.replayed (effect : WeakPopEffect capacity s l s' l')
    (valid : Valid capacity s.ring) (sequential : Sequential s.ring)
    (coupled : Coupled capacity s) (head : s.memory.Rises .head s.ring.head)
    (current : s.memory.Current l.view .head) (consuming : Consuming capacity s.ring l.place) :
    (∃ choice, pop capacity () s.ring l.place choice = some (s'.ring, l'.place)) ∨
      ∃ pos, l.place.pc = .loadSequence pos ∧ s'.ring = s.ring ∧
        l'.place = { l.place with pc := .returned } := by
  obtain ⟨V, remaining, out, pc⟩ := l
  cases effect with
  | calls maxCount hPc =>
      obtain hPc | hPc := hPc <;> simp only at hPc <;> subst hPc
      · exact .inl ⟨.call maxCount, rfl⟩
      · exact .inl ⟨.call maxCount, rfl⟩
  | looks pos time V' hPc h =>
      simp only at hPc
      subst hPc
      obtain rfl := head.load_current current h
      exact .inl ⟨.go, rfl⟩
  | misses pos time seq V' hPc h => exact .inr ⟨pos, hPc, rfl, rfl⟩
  | claims pos time V' hPc h =>
      simp only at hPc
      subst hPc
      obtain ⟨rfl, _, unclaimed⟩ := consuming
      have hPublished := published_of_past valid sequential unclaimed ((coupled.sequence _).load h)
      have hSequence := valid.occupied s.ring.popped.length 1 (by simp [hPublished])
      exact .inl ⟨.go, by simp [pop, hSequence]⟩
  | takes pos hPc =>
      simp only at hPc
      subst hPc
      exact .inl ⟨.go, by simp [pop, coupled.storage]⟩
  | advances pos time element memory V' hPc h =>
      simp only at hPc
      subst hPc
      exact .inl ⟨.go, rfl⟩
  | retires pos time element memory V' hPc h =>
      simp only at hPc
      subst hPc
      exact .inl ⟨.go, rfl⟩

theorem WeakPopEffect.le (effect : WeakPopEffect capacity s l s' l') : l.view ≤ l'.view := by
  cases effect with
  | calls => exact le_rfl
  | takes pos hPc => exact s.memory.le_access (.storage (pos % capacity)) none l.view
  | looks pos time V hPc h => exact Memory.le_of_load h
  | misses pos time seq V hPc h => exact Memory.le_of_load h
  | claims pos time V hPc h => exact Memory.le_of_load h
  | advances pos time element memory V hPc h | retires pos time element memory V hPc h =>
      obtain ⟨_, _, rfl, _⟩ := Memory.store_eq_some h
      exact le_sup_left

/-- A pop writes the head and sequence numbers, and uses slots. -/
theorem WeakPopEffect.elsewhere (effect : WeakPopEffect capacity s l s' l') :
    (∀ x, x ≠ .head → (∀ i, x ≠ .sequence i) → s'.memory.writes x = s.memory.writes x) ∧
      (∀ w, s'.memory.accesses (.client w) = s.memory.accesses (.client w)) ∧
        s'.sent = s.sent := by
  cases effect with
  | calls | looks | misses | claims => exact ⟨fun _ _ _ => rfl, fun _ => rfl, rfl⟩
  | takes pos hPc => exact ⟨fun _ _ _ => rfl, fun w => by simp [Shared.use, Memory.access], rfl⟩
  | advances pos time element memory V hPc h | retires pos time element memory V hPc h =>
      obtain ⟨_, _, rfl, rfl⟩ := Memory.store_eq_some h
      exact ⟨fun x hHead hSequence => by simp [hHead, hSequence], fun _ => rfl, rfl⟩

/-- The shared part of the invariant. -/
structure Agreeing (capacity : Nat) (s : Shared π Unit α χ ω) : Prop where
  ring : Consistent capacity s.ring
  coupled : Coupled capacity s
  head : s.memory.Rises .head s.ring.head

/-- What the thread knows that pops. -/
structure Consumes (capacity : Nat) (s : Shared π Unit α χ ω)
    (l : Seeing χ ω (Consumer α)) : Prop where
  consuming : Consuming capacity s.ring l.place
  collected : Collected s.ring l.place
  current : s.memory.Current l.view .head
  finds : Finds capacity s l
  passes : Passes s.ring l.place
  received : Received s l.view

theorem WeakPopEffect.effect (effect : WeakPopEffect capacity s l s' l')
    (hCapacity : 2 ≤ capacity) (agreeing : Agreeing capacity s)
    (consumes : Consumes capacity s l) : PopEffect capacity s.ring s'.ring := by
  obtain ⟨⟨valid, _, sequential⟩, coupled, head⟩ := agreeing
  rcases effect.replayed valid sequential coupled head consumes.current consumes.consuming with
    ⟨choice, h⟩ | ⟨_, _, hRing, _⟩
  · exact pop_effect valid hCapacity consumes.consuming h
  · rw [hRing]
    exact .none

theorem WeakPopEffect.agreeing (effect : WeakPopEffect capacity s l s' l')
    (hCapacity : 2 ≤ capacity) (agreeing : Agreeing capacity s)
    (consumes : Consumes capacity s l) : Agreeing capacity s' := by
  have onRing := effect.effect hCapacity agreeing consumes
  obtain ⟨⟨valid, ordered, sequential⟩, coupled, head⟩ := agreeing
  obtain ⟨consuming, _, current, finds, passes, _⟩ := consumes
  have ordered' : Ordered s'.ring := by
    unfold Ordered
    rw [onRing.pushed_eq]
    exact ordered
  refine ⟨⟨onRing.valid valid hCapacity, ordered', onRing.sequential sequential⟩, ?_, ?_⟩
  · obtain ⟨V, remaining, out, pc⟩ := l
    cases effect with
    | calls | looks | misses => exact coupled
    | claims pos time V' hPc h =>
        refine ⟨coupled.tail, coupled.sequence, coupled.storage, fun p hp => ?_, fun p hp => ?_,
          fun p hp => ?_⟩
        · exact coupled.published p (stage_kept hp (by simp)).2
        · exact coupled.vacant p (stage_kept hp (by simp)).2
        · exact coupled.sent p (stage_kept hp (by simp)).2
    | takes pos hPc =>
        simp only at hPc
        subst hPc
        exact coupled.access valid hCapacity consuming.2.1 (by simp) (by simp) none V
    | advances pos time element memory V' hPc h =>
        obtain ⟨_, _, rfl, rfl⟩ := Memory.store_eq_some h
        refine ⟨coupled.tail.congr (by simp), fun i => (coupled.sequence i).congr (by simp),
          coupled.storage, fun p hp t m hWrite => ?_, fun p hp t m hWrite => ?_,
          fun p hp t m hWrite => ?_⟩
        · exact coupled.published p hp t m (by simpa using hWrite)
        · exact coupled.vacant p hp t m (by simpa using hWrite)
        · exact coupled.sent p hp t m (by simpa using hWrite)
    | retires pos time element memory V' hPc h =>
        simp only at hPc
        subst hPc
        obtain ⟨_, _, hReader, _⟩ := consuming
        have hSequence := valid.occupied pos 1 (by simp [hReader])
        exact coupled.store valid hCapacity hReader (by simp) (by simp) (by simp) finds.1 finds.2
          (by omega) (fun hNew => by cases hNew) h rfl rfl rfl rfl
  · cases effect with
    | calls | looks | misses | claims => exact head
    | takes => exact head.congr rfl
    | advances pos time element memory V' hPc h =>
        obtain ⟨V, remaining, out, pc⟩ := l
        simp only at hPc
        subst hPc
        obtain rfl : s.ring.head = pos := passes
        exact head.store current (Nat.lt_succ_self _) h
    | retires pos time element memory V' hPc h =>
        obtain ⟨_, _, rfl, rfl⟩ := Memory.store_eq_some h
        exact head.congr (by simp)

theorem WeakPopEffect.keeps (effect : WeakPopEffect capacity s l s' l')
    (consuming : Consuming capacity s.ring l.place) : Keeps capacity (.claimed ()) s s' := by
  obtain ⟨V, remaining, out, pc⟩ := l
  cases effect with
  | calls | looks | misses | claims =>
      exact ⟨Memory.extends_refl _, fun _ _ => rfl, fun _ _ => rfl, fun _ _ => rfl⟩
  | takes pos hPc =>
      simp only at hPc
      subst hPc
      refine ⟨Memory.extends_refl _, fun _ _ => rfl, fun i hi => ?_, fun _ _ => rfl⟩
      simp [Shared.use, Memory.access, hi pos consuming.2.1]
  | advances pos time element memory V' hPc h =>
      obtain ⟨_, hVacant, rfl, rfl⟩ := Memory.store_eq_some h
      exact ⟨Memory.extends_insert hVacant _, fun i _ => by simp, fun i _ => rfl, fun _ _ => rfl⟩
  | retires pos time element memory V' hPc h =>
      simp only at hPc
      subst hPc
      obtain ⟨_, hVacant, rfl, rfl⟩ := Memory.store_eq_some h
      refine ⟨Memory.extends_insert hVacant _, fun i hi => ?_, fun i _ => rfl, fun _ _ => rfl⟩
      simp [hi pos consuming.2.2.1]

/-- The stepping thread's own facts are re-established. -/
theorem WeakPopEffect.consumes (effect : WeakPopEffect capacity s l s' l')
    (hCapacity : 2 ≤ capacity) (agreeing : Agreeing capacity s)
    (consumes : Consumes capacity s l) : Consumes capacity s' l' := by
  have hLe := effect.le
  obtain ⟨⟨valid, _, sequential⟩, coupled, head⟩ := agreeing
  obtain ⟨consuming, collected, current, finds, passes, received⟩ := consumes
  have onRing : Consuming capacity s'.ring l'.place ∧ Collected s'.ring l'.place := by
    rcases effect.replayed valid sequential coupled head current consuming with
      ⟨choice, h⟩ | ⟨pos, hPc, hRing, hPlace⟩
    · exact ⟨pop_consuming valid hCapacity sequential consuming h, pop_collected collected h⟩
    · rw [hRing, hPlace]
      obtain ⟨V, remaining, out, pc⟩ := l
      simp only at hPc
      subst hPc
      exact ⟨consuming.2, collected⟩
  refine ⟨onRing.1, onRing.2, ?_, ?_, ?_, ?_⟩
  · have hSame : s'.memory.writes .head = s.memory.writes .head →
        s'.memory.Current l'.view .head := fun h time m hWrite =>
      (current time m (by rwa [← h])).trans (hLe _)
    cases effect with
    | calls | looks | misses | claims | takes => exact hSame rfl
    | advances pos time element memory V hPc h => exact Memory.current_of_store current h
    | retires pos time element memory V hPc h =>
        obtain ⟨_, _, rfl, rfl⟩ := Memory.store_eq_some h
        exact hSame (by simp)
  · have hAgain : ∀ (n m : ℕ) (k : List (Option α)) (V : View (Atomic χ) (Plain ω)),
        Finds capacity s' ⟨V, ⟨n, k, Consumer.next m⟩⟩ := by
      intro n m k V
      unfold Consumer.next
      split <;> trivial
    obtain ⟨V, remaining, out, pc⟩ := l
    cases effect with
    | looks | misses => trivial
    | calls | retires => exact hAgain ..
    | claims pos time V' hPc h =>
        simp only at hPc
        subst hPc
        obtain ⟨rfl, _, unclaimed⟩ := consuming
        have hPublished := published_of_past valid sequential unclaimed ((coupled.sequence _).load h)
        have hRises := coupled.sequence (s.ring.popped.length % capacity)
        rw [valid.occupied s.ring.popped.length 1 (by simp [hPublished])] at hRises
        have hAcquires : Order.acquire.acquires = true := rfl
        have acquired := Memory.acquired_of_load hAcquires h
        have hCurrent := hRises.current acquired
        obtain ⟨at', shown, hWrite, hValue, _, hShown⟩ := acquired
        refine ⟨⟨hCurrent, ?_⟩, (coupled.sent _ hPublished at' shown hWrite hValue).trans hShown⟩
        exact (coupled.published _ hPublished at' shown hWrite hValue).trans (hShown _)
    | takes pos hPc =>
        simp only at hPc
        subst hPc
        refine ⟨⟨fun time m hWrite => ?_, Memory.settled_access ..⟩, finds.2.trans hLe⟩
        exact (finds.1.current time m hWrite).trans (hLe _)
    | advances pos time element memory V' hPc h =>
        simp only at hPc
        subst hPc
        obtain ⟨_, hVacant, rfl, rfl⟩ := Memory.store_eq_some h
        refine ⟨⟨fun t m hWrite => ?_, finds.1.settled.trans (hLe _)⟩, finds.2.trans hLe⟩
        exact (finds.1.current t m (by simpa using hWrite)).trans (hLe _)
  · have hAgain : ∀ (n m : ℕ) (k : List (Option α)), Passes s'.ring ⟨n, k, Consumer.next m⟩ := by
      intro n m k
      unfold Consumer.next
      split <;> trivial
    obtain ⟨V, remaining, out, pc⟩ := l
    cases effect with
    | looks | misses | advances => trivial
    | calls | retires => exact hAgain ..
    | claims pos time V' hPc h =>
        simp only at hPc
        subst hPc
        exact consuming.2.1.trans consuming.1.symm
    | takes pos hPc =>
        simp only at hPc
        subst hPc
        exact passes
  · have hSent := effect.elsewhere.2.2
    unfold Received
    rw [hSent]
    obtain ⟨V, remaining, out, pc⟩ := l
    cases effect with
    | calls | looks | misses | claims | takes | advances =>
        exact fun result hMem => (received result hMem).trans hLe
    | retires pos time element memory V' hPc h =>
        simp only at hPc
        subst hPc
        intro result hMem
        rcases List.mem_append.mp hMem with hOld | hNew
        · exact (received result hOld).trans hLe
        · rw [List.mem_singleton] at hNew
          subst hNew
          exact finds.2.trans hLe

end Steps

section Others

variable {capacity : Nat} {s s' : Shared π Unit α χ ω} {l : Seeing χ ω (Consumer α)}

/-- The thread that pops is not disturbed by pushes, whoever makes them. -/
theorem Consumes.of_push {t : π} {m : Producer α} {V : View (Atomic χ) (Plain ω)}
    (consumes : Consumes capacity s l) (hCapacity : 2 ≤ capacity) (agreeing : Agreeing capacity s)
    (effect : PushEffect capacity t s.ring m s'.ring) (keeps : Keeps capacity (.reserved t) s s')
    (hHead : s'.memory.writes .head = s.memory.writes .head) (hView : l.view ≤ V) :
    Consumes capacity s' { l with view := V } := by
  obtain ⟨⟨valid, _, sequential⟩, _, _⟩ := agreeing
  obtain ⟨consuming, collected, current, finds, passes, received⟩ := consumes
  have onRing := push_keeps_consumer effect valid hCapacity consuming collected
  have hMine : ∀ pos, s.ring.stage pos = .claimed () →
      Owns s l.view (pos % capacity) ∧ s.sent pos ≤ l.view →
      Owns s' V (pos % capacity) ∧ s'.sent pos ≤ V := by
    rintro pos hReader ⟨owns, hSent⟩
    refine ⟨(owns.of_keeps keeps fun p hp => ?_).mono hView, ?_⟩
    · exact (valid.slot_ne hCapacity hp (by simp) (p := pos) ⟨by simp [hReader], by simp [hReader]⟩).2
    · rw [keeps.sent pos (valid.lt_tail (by simp [hReader]))]
      exact hSent.trans hView
  refine ⟨onRing.1, onRing.2, fun time m hWrite => ?_, ?_, ?_, fun result hMem => ?_⟩
  · exact (current time m (by rwa [← hHead])).trans (hView _)
  · obtain ⟨W, remaining, out, pc⟩ := l
    cases pc with
    | idle | loadHead | loadSequence | returned => trivial
    | take pos => exact hMine pos consuming.2.1 finds
    | storeHead pos element => exact hMine pos consuming.2.1 finds
    | release pos element => exact hMine pos consuming.2.2.1 finds
  · obtain ⟨W, remaining, out, pc⟩ := l
    cases pc with
    | take | storeHead => exact effect.reads_eq.1.trans passes
    | idle | loadHead | loadSequence | release | returned => trivial
  · rw [effect.reads_eq.2.2] at hMem
    rw [keeps.sent _ (valid.lt_tail (by simp [sequential.retired_of_mem hMem]))]
    exact (received result hMem).trans hView

theorem Agreeing.push [DecidableEq χ] [DecidableEq ω] {t : π} {m m' : Seeing χ ω (Producer α)}
    (agreeing : Agreeing capacity s) (hCapacity : 2 ≤ capacity)
    (effect : WeakPushEffect capacity t s m s' m') (producing : Producing capacity s.ring t m.place)
    (recorded : Recorded s.ring t m.place) (sees : Sees capacity s m) : Agreeing capacity s' := by
  obtain ⟨⟨valid, ordered, sequential⟩, coupled, head⟩ := agreeing
  have onRing := effect.effect valid coupled producing
  refine ⟨⟨onRing.valid valid hCapacity, onRing.ordered ordered recorded,
    sequential_of_push onRing valid hCapacity sequential⟩,
    effect.coupled valid hCapacity coupled producing sees, ?_⟩
  rw [onRing.reads_eq.1]
  exact head.congr (effect.elsewhere .head (by simp) (by simp))

end Others

end LockFreeMpscQueue
