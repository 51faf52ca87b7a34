import V2Engine.Container.LockFreeMpmcQueue
import V2Engine.Container.PushOrders

/-! `LockFreeMpmcQueue` with the memory orders it asks for. The compare-and-swaps on the
positions are relaxed and order nothing; all that is known to have happened before comes
from the sequence numbers. It is enough: no two uses of a slot's storage race, tickets go
as they do when every thread sees the same memory, and whoever pops an element knows
everything its producer had done. -/
namespace LockFreeMpmcQueue

open TicketRing LockFreeQueue WeakMemory Interleaving

variable {π γ α χ ω : Type*}

/-- As in `WeakPushChoice`. -/
inductive WeakPopChoice (α ω : Type*) where
  | call (maxCount : Nat)
  | go (time : ℕ)
  | fail (time : ℕ)
  | use (w : ω) (content : Option α)

section Program

variable [DecidableEq χ] [DecidableEq ω]

def weakPop (capacity : Nat) (r : γ) (s : Shared π γ α χ ω) (l : Seeing χ ω (Consumer α))
    (choice : WeakPopChoice α ω) : Option (Shared π γ α χ ω × Seeing χ ω (Consumer α)) :=
  match l.place.pc, choice with
  | .idle, .call maxCount | .returned, .call maxCount =>
      some (s, { l with place := ⟨maxCount, [], Consumer.next maxCount⟩ })
  | .idle, .use w content | .returned, .use w content =>
      some ((s.use (.client w) content l.view).1,
        { l with view := (s.use (.client w) content l.view).2 })
  | .loadHead, .go time =>
      (s.memory.load .relaxed .head time l.view).map fun (pos, view) =>
        (s, ⟨view, { l.place with pc := .loadSequence pos }⟩)
  | .loadSequence pos, .go time =>
      (s.memory.load .acquire (.sequence (pos % capacity)) time l.view).map fun (seq, view) =>
        let diff : Int := (seq : Int) - (pos + 1 : Int)
        if diff = 0 then (s, ⟨view, { l.place with pc := .casHead pos }⟩)
        else if diff < 0 then (s, ⟨view, { l.place with pc := .returned }⟩)
        else (s, ⟨view, { l.place with pc := .loadHead }⟩)
  | .casHead pos, .go time =>
      (s.memory.compareExchange .relaxed .head pos (pos + 1) time l.view).map
        fun (memory, view) =>
          ({ s with memory := memory, ring := { s.ring.claim pos r with head := pos + 1 } },
            ⟨view, { l.place with pc := .take pos }⟩)
  | .casHead _, .fail time =>
      (s.memory.load .relaxed .head time l.view).map fun (pos, view) =>
        (s, ⟨view, { l.place with pc := .loadSequence pos }⟩)
  | .take pos, .go _ =>
      let element := s.memory.contents (.storage (pos % capacity))
      let used := s.use (.storage (pos % capacity)) none l.view
      some ({ used.1 with ring := s.ring.take capacity pos },
        ⟨used.2, { l.place with out := l.place.out ++ [element], pc := .release pos element }⟩)
  | .release pos element, .go time =>
      (s.memory.store .release (.sequence (pos % capacity)) (pos + capacity) time l.view).map
        fun (memory, view) =>
          ({ s with memory := memory, ring := s.ring.retire capacity pos ⟨r, pos, element⟩ },
            ⟨view, { l.place with
              remaining := l.place.remaining - 1
              pc := Consumer.next (l.place.remaining - 1) }⟩)
  | _, _ => none

end Program

/-- What the stepping consumer has seen of the slot it is after. -/
def Finds (capacity : Nat) (s : Shared π γ α χ ω) (l : Seeing χ ω (Consumer α)) : Prop :=
  match l.place.pc with
  | .casHead pos => s.memory.Acquired l.view (.sequence (pos % capacity)) (pos + 1)
  | .take pos | .release pos _ => Owns s l.view (pos % capacity) ∧ s.sent pos ≤ l.view
  | _ => True

/-- Whatever had happened before an element's ticket was taken has happened before, for the
consumer that popped it. -/
def Received (s : Shared π γ α χ ω) (r : γ) (V : View (Atomic χ) (Plain ω)) : Prop :=
  ∀ result ∈ s.ring.popped, result.consumer = r → s.sent result.ticket ≤ V

section Steps

variable [DecidableEq χ] [DecidableEq ω] {capacity : Nat} {s s' : Shared π γ α χ ω} {r : γ}
  {l l' : Seeing χ ω (Consumer α)} {choice : WeakPopChoice α ω}

inductive WeakPopEffect (capacity : Nat) (r : γ) (s : Shared π γ α χ ω)
    (l : Seeing χ ω (Consumer α)) : Shared π γ α χ ω → Seeing χ ω (Consumer α) → Prop where
  | calls (maxCount : Nat) (hPc : l.place.Quiet) : WeakPopEffect capacity r s l s
      { l with place := ⟨maxCount, [], Consumer.next maxCount⟩ }
  | uses (w : ω) (content : Option α) (hPc : l.place.Quiet) : WeakPopEffect capacity r s l
      (s.use (.client w) content l.view).1 { l with view := (s.use (.client w) content l.view).2 }
  | looks (pos time : ℕ) (V : View (Atomic χ) (Plain ω))
      (hPc : l.place.pc = .loadHead ∨ ∃ before, l.place.pc = .casHead before)
      (h : s.memory.load .relaxed .head time l.view = some (pos, V)) :
      WeakPopEffect capacity r s l s ⟨V, { l.place with pc := .loadSequence pos }⟩
  | finds (pos time seq : ℕ) (V : View (Atomic χ) (Plain ω)) (pc : PopPc α)
      (hPc : l.place.pc = .loadSequence pos)
      (h : s.memory.load .acquire (.sequence (pos % capacity)) time l.view = some (seq, V))
      (hNext : seq = pos + 1 ∧ pc = .casHead pos ∨ pc = .returned ∨ pc = .loadHead) :
      WeakPopEffect capacity r s l s ⟨V, { l.place with pc := pc }⟩
  | claims (pos time : ℕ) (memory : Memory (Atomic χ) (Plain ω) ℕ (Option α))
      (V : View (Atomic χ) (Plain ω)) (hPc : l.place.pc = .casHead pos)
      (h : s.memory.exchange .relaxed .head (pos + 1) time l.view = some (pos, memory, V)) :
      WeakPopEffect capacity r s l
        { s with memory := memory, ring := { s.ring.claim pos r with head := pos + 1 } }
        ⟨V, { l.place with pc := .take pos }⟩
  | takes (pos : ℕ) (hPc : l.place.pc = .take pos) :
      WeakPopEffect capacity r s l
        { (s.use (.storage (pos % capacity)) none l.view).1 with
          ring := s.ring.take capacity pos }
        ⟨(s.use (.storage (pos % capacity)) none l.view).2,
          { l.place with
            out := l.place.out ++ [s.memory.contents (.storage (pos % capacity))]
            pc := .release pos (s.memory.contents (.storage (pos % capacity))) }⟩
  | retires (pos time : ℕ) (element : Option α)
      (memory : Memory (Atomic χ) (Plain ω) ℕ (Option α))
      (V : View (Atomic χ) (Plain ω)) (hPc : l.place.pc = .release pos element)
      (h : s.memory.store .release (.sequence (pos % capacity)) (pos + capacity) time l.view =
        some (memory, V)) :
      WeakPopEffect capacity r s l
        { s with memory := memory, ring := s.ring.retire capacity pos ⟨r, pos, element⟩ }
        ⟨V, { l.place with
          remaining := l.place.remaining - 1
          pc := Consumer.next (l.place.remaining - 1) }⟩

theorem weakPop_effect (h : weakPop capacity r s l choice = some (s', l')) :
    WeakPopEffect capacity r s l s' l' := by
  obtain ⟨V, remaining, out, pc⟩ := l
  cases pc <;> cases choice <;> simp only [weakPop, reduceCtorEq] at h
  case idle.call maxCount | returned.call maxCount =>
    cases h
    exact .calls _ (by simp [Consumer.Quiet])
  case idle.use w content | returned.use w content =>
    cases h
    exact .uses _ _ (by simp [Consumer.Quiet])
  case loadHead.go time =>
    obtain ⟨⟨pos, V'⟩, hLoad, hAfter⟩ := Option.map_eq_some_iff.mp h
    cases hAfter
    exact .looks pos time V' (.inl rfl) hLoad
  case casHead.fail before time =>
    obtain ⟨⟨pos, V'⟩, hLoad, hAfter⟩ := Option.map_eq_some_iff.mp h
    cases hAfter
    exact .looks pos time V' (.inr ⟨before, rfl⟩) hLoad
  case loadSequence.go pos time =>
    obtain ⟨⟨seq, V'⟩, hLoad, hAfter⟩ := Option.map_eq_some_iff.mp h
    simp only at hAfter
    split_ifs at hAfter with hZero hBehind <;> cases hAfter
    · exact .finds pos time seq V' _ rfl hLoad (.inl ⟨by omega, rfl⟩)
    · exact .finds pos time seq V' _ rfl hLoad (.inr (.inl rfl))
    · exact .finds pos time seq V' _ rfl hLoad (.inr (.inr rfl))
  case casHead.go pos time =>
    obtain ⟨⟨memory, V'⟩, hSwap, hAfter⟩ := Option.map_eq_some_iff.mp h
    cases hAfter
    exact .claims pos time memory V' rfl (Memory.compareExchange_eq_some hSwap)
  case take.go pos time =>
    cases h
    exact .takes pos rfl
  case release.go pos element time =>
    obtain ⟨⟨memory, V'⟩, hStore, hAfter⟩ := Option.map_eq_some_iff.mp h
    cases hAfter
    exact .retires pos time element memory V' rfl hStore

omit [DecidableEq χ] [DecidableEq ω] in
theorem collected_iff [DecidableEq γ] {ring : State π γ α} {k : Consumer α}
    (h : k.pc.ticket = none) : Collected ring r k ↔ k.out <:+ ring.poppedBy r := by
  obtain ⟨remaining, out, pc⟩ := k
  cases pc with
  | release => cases h
  | _ => exact Iff.rfl

theorem Consumer.Quiet.ticket {k : Consumer α} (quiet : k.Quiet) : k.pc.ticket = none := by
  obtain h | h := quiet <;> rw [h] <;> rfl

/-- A ticket at the head whose sequence number has come past it is ready. -/
theorem published_of_past {ring : State π γ α} (valid : Valid capacity ring)
    (claimed : Claimed ring) (h : ring.head + 1 ≤ ring.sequence (ring.head % capacity)) :
    ring.stage ring.head = .published := by
  have hPassed := claimed.passed ring.head
  cases hStage : ring.stage ring.head with
  | published => rfl
  | free => have := valid.waiting _ hStage; omega
  | reserved t => have := valid.occupied ring.head 0 (by simp [hStage]); omega
  | claimed reader => simp [hStage] at hPassed
  | retired => simp [hStage] at hPassed

/-- The ring moves as if positions were never stale, or it stays and the thread, which has
no ticket, goes on with what it read. -/
theorem WeakPopEffect.replayed (effect : WeakPopEffect capacity r s l s' l')
    (valid : Valid capacity s.ring) (claimed : Claimed s.ring) (coupled : Coupled capacity s)
    (head : s.memory.Counts .head s.ring.head) (consuming : Consuming capacity s.ring r l.place) :
    (∃ choice, pop capacity r s.ring l.place choice = some (s'.ring, l'.place)) ∨
      s'.ring = s.ring ∧ l.place.pc.ticket = none ∧ l'.place.pc.ticket = none ∧
        l'.place.out = l.place.out ∧ Consuming capacity s.ring r l'.place := by
  obtain ⟨V, remaining, out, pc⟩ := l
  cases effect with
  | calls maxCount hPc =>
      obtain hPc | hPc := hPc <;> simp only at hPc <;> subst hPc
      · exact .inl ⟨.call maxCount, rfl⟩
      · exact .inl ⟨.call maxCount, rfl⟩
  | uses w content hPc => exact .inr ⟨rfl, hPc.ticket, hPc.ticket, rfl, consuming⟩
  | looks pos time V' hPc h =>
      have hHead := head.load h
      obtain hPc | ⟨before, hPc⟩ := hPc <;> simp only at hPc <;> subst hPc
      · exact .inr ⟨rfl, rfl, rfl, rfl, hHead⟩
      · exact .inr ⟨rfl, rfl, rfl, rfl, hHead⟩
  | finds pos time seq V' next hPc h hNext =>
      simp only at hPc
      subst hPc
      obtain ⟨rfl, rfl⟩ | rfl | rfl := hNext
      · refine .inr ⟨rfl, rfl, rfl, rfl, consuming, fun hHead => ?_⟩
        subst hHead
        exact published_of_past valid claimed ((coupled.sequence _).load h)
      · exact .inr ⟨rfl, rfl, rfl, rfl, trivial⟩
      · exact .inr ⟨rfl, rfl, rfl, rfl, trivial⟩
  | claims pos time memory V' hPc h =>
      simp only at hPc
      subst hPc
      have hHead := (head.exchange h).1
      exact .inl ⟨.go, by simp [pop, hHead]⟩
  | takes pos hPc =>
      simp only at hPc
      subst hPc
      exact .inl ⟨.go, by simp [pop, coupled.storage]⟩
  | retires pos time element memory V' hPc h =>
      simp only at hPc
      subst hPc
      exact .inl ⟨.go, rfl⟩

theorem WeakPopEffect.effect (effect : WeakPopEffect capacity r s l s' l')
    (valid : Valid capacity s.ring) (claimed : Claimed s.ring) (coupled : Coupled capacity s)
    (head : s.memory.Counts .head s.ring.head) (consuming : Consuming capacity s.ring r l.place) :
    PopEffect capacity r s.ring s'.ring := by
  rcases effect.replayed valid claimed coupled head consuming with ⟨choice, h⟩ | ⟨hRing, _⟩
  · exact pop_effect consuming h
  · rw [hRing]
    exact .none

/-- The stepping consumer's own facts about the ring. -/
theorem WeakPopEffect.consuming [DecidableEq γ] (effect : WeakPopEffect capacity r s l s' l')
    (hCapacity : 2 ≤ capacity) (valid : Valid capacity s.ring) (claimed : Claimed s.ring)
    (coupled : Coupled capacity s) (head : s.memory.Counts .head s.ring.head)
    (consuming : Consuming capacity s.ring r l.place) (holding : Holding s.ring r l.place)
    (collected : Collected s.ring r l.place) :
    Consuming capacity s'.ring r l'.place ∧ Holding s'.ring r l'.place ∧
      Collected s'.ring r l'.place := by
  rcases effect.replayed valid claimed coupled head consuming with
    ⟨choice, h⟩ | ⟨hRing, hTicket, hTicket', hOut, hConsuming⟩
  · exact ⟨pop_consuming valid hCapacity claimed consuming h, pop_holding consuming holding h,
      pop_collected collected h⟩
  · rw [hRing]
    refine ⟨hConsuming, fun p hp => ?_, (collected_iff hTicket').mpr ?_⟩
    · have := holding p hp
      simp [hTicket] at this
    · rw [hOut]
      exact (collected_iff hTicket).mp collected

theorem WeakPopEffect.le (effect : WeakPopEffect capacity r s l s' l') : l.view ≤ l'.view := by
  cases effect with
  | calls => exact le_rfl
  | uses w content hPc => exact s.memory.le_access (.client w) content l.view
  | takes pos hPc => exact s.memory.le_access (.storage (pos % capacity)) none l.view
  | looks pos time V hPc h => exact Memory.le_of_load h
  | finds pos time seq V pc hPc h hNext => exact Memory.le_of_load h
  | claims pos time memory V hPc h => exact Memory.le_of_exchange h
  | retires pos time element memory V hPc h =>
      obtain ⟨_, _, rfl, _⟩ := Memory.store_eq_some h
      exact le_sup_left

/-- Only claims write the head. -/
theorem WeakPopEffect.head (effect : WeakPopEffect capacity r s l s' l')
    (head : s.memory.Counts .head s.ring.head) : s'.memory.Counts .head s'.ring.head := by
  cases effect with
  | calls | looks | finds => exact head
  | uses | takes => exact head.congr rfl
  | claims pos time memory V hPc h =>
      obtain ⟨rfl, counts⟩ := head.exchange h
      exact counts
  | retires pos time element memory V hPc h =>
      obtain ⟨_, _, rfl, rfl⟩ := Memory.store_eq_some h
      exact head.congr (by simp)

theorem WeakPopEffect.coupled (effect : WeakPopEffect capacity r s l s' l')
    (valid : Valid capacity s.ring) (hCapacity : 2 ≤ capacity) (coupled : Coupled capacity s)
    (consuming : Consuming capacity s.ring r l.place) (finds : Finds capacity s l) :
    Coupled capacity s' := by
  obtain ⟨V, remaining, out, pc⟩ := l
  cases effect with
  | calls | looks | finds => exact coupled
  | uses w content => exact coupled.use_client w content _
  | claims pos time memory V' hPc h =>
      obtain ⟨m, _, _, _, _, rfl⟩ := Memory.exchange_eq_some h
      refine ⟨coupled.tail.congr (by simp), fun i => (coupled.sequence i).congr (by simp),
        coupled.storage, fun p hp t m hWrite => ?_, fun p hp t m hWrite => ?_,
        fun p hp t m hWrite => ?_⟩
      · exact coupled.published p (stage_kept hp (by simp)).2 t m (by simpa using hWrite)
      · exact coupled.vacant p (stage_kept hp (by simp)).2 t m (by simpa using hWrite)
      · exact coupled.sent p (stage_kept hp (by simp)).2 t m (by simpa using hWrite)
  | takes pos hPc =>
      simp only at hPc
      subst hPc
      exact coupled.access valid hCapacity consuming.1 (by simp) (by simp) none V
  | retires pos time element memory V' hPc h =>
      simp only at hPc
      subst hPc
      obtain ⟨hReader, _⟩ := consuming
      have hSequence := valid.occupied pos 1 (by simp [hReader])
      exact coupled.store valid hCapacity hReader (by simp) (by simp) (by simp) finds.1 finds.2
        (by omega) (fun hNew => by cases hNew) h rfl rfl rfl rfl

theorem WeakPopEffect.sees (effect : WeakPopEffect capacity r s l s' l')
    (valid : Valid capacity s.ring) (coupled : Coupled capacity s)
    (head : s.memory.Counts .head s.ring.head) (consuming : Consuming capacity s.ring r l.place)
    (finds : Finds capacity s l) : Finds capacity s' l' := by
  have hLe := effect.le
  have hAgain : ∀ (n m : ℕ) (k : List (Option α)) (V : View (Atomic χ) (Plain ω)),
      Finds capacity s' ⟨V, ⟨n, k, Consumer.next m⟩⟩ := by
    intro n m k V
    unfold Consumer.next
    split <;> trivial
  obtain ⟨V, remaining, out, pc⟩ := l
  cases effect with
  | looks => trivial
  | calls | retires => exact hAgain ..
  | uses w content hPc => obtain hPc | hPc := hPc <;> simp only at hPc <;> subst hPc <;> trivial
  | finds pos time seq V' pc hPc h hNext =>
      obtain ⟨rfl, rfl⟩ | rfl | rfl := hNext
      · exact Memory.acquired_of_load rfl h
      · trivial
      · trivial
  | claims pos time memory V' hPc h =>
      simp only at hPc
      subst hPc
      have hPublished := consuming.2 (head.exchange h).1
      obtain ⟨m, _, _, _, _, rfl⟩ := Memory.exchange_eq_some h
      have acquired : s.memory.Acquired V (.sequence (pos % capacity)) (pos + 1) := finds
      have hRises := coupled.sequence (pos % capacity)
      rw [valid.occupied pos 1 (by simp [hPublished])] at hRises
      have hCurrent := hRises.current acquired
      obtain ⟨at', shown, hWrite, hValue, _, hShown⟩ := acquired
      have hSettled := coupled.published pos hPublished at' shown hWrite hValue
      refine ⟨⟨fun time m' hWrite' => ?_, ?_⟩, ?_⟩
      · exact (hCurrent time m' (by simpa using hWrite')).trans (hLe _)
      · exact hSettled.trans ((hShown _).trans (hLe _))
      · exact (coupled.sent pos hPublished at' shown hWrite hValue).trans (hShown.trans hLe)
  | takes pos hPc =>
      simp only at hPc
      subst hPc
      refine ⟨⟨fun time m hWrite => ?_, Memory.settled_access ..⟩, finds.2.trans hLe⟩
      exact (finds.1.current time m hWrite).trans (hLe _)

theorem WeakPopEffect.keeps (effect : WeakPopEffect capacity r s l s' l')
    (consuming : Consuming capacity s.ring r l.place) : Keeps capacity (.claimed r) s s' := by
  obtain ⟨V, remaining, out, pc⟩ := l
  cases effect with
  | calls | looks | finds => exact .refl _ _ _
  | uses w content hPc => exact keeps_use_client _ _ w content _
  | claims pos time memory V' hPc h =>
      obtain ⟨m, _, _, hVacant, _, rfl⟩ := Memory.exchange_eq_some h
      exact ⟨Memory.extends_insert hVacant _, fun i _ => by simp, fun i _ => rfl, fun _ _ => rfl⟩
  | takes pos hPc =>
      simp only at hPc
      subst hPc
      refine ⟨Memory.extends_refl _, fun _ _ => rfl, fun i hi => ?_, fun _ _ => rfl⟩
      simp [Shared.use, Memory.access, hi pos consuming.1]
  | retires pos time element memory V' hPc h =>
      simp only at hPc
      subst hPc
      obtain ⟨_, hVacant, rfl, rfl⟩ := Memory.store_eq_some h
      refine ⟨Memory.extends_insert hVacant _, fun i hi => ?_, fun i _ => rfl, fun _ _ => rfl⟩
      simp [hi pos consuming.1]

omit [DecidableEq χ] [DecidableEq ω] in
/-- What a consumer has seen stays true while others step. -/
theorem Finds.of_keeps {own : Stage π γ} (finds : Finds capacity s l)
    (keeps : Keeps capacity own s s') (valid : Valid capacity s.ring) (hCapacity : 2 ≤ capacity)
    (consuming : Consuming capacity s.ring r l.place) (hOffset : own.offset ≠ none)
    (hOther : own ≠ .claimed r) : Finds capacity s' l := by
  have hMine : ∀ pos, s.ring.stage pos = .claimed r →
      Owns s l.view (pos % capacity) ∧ s.sent pos ≤ l.view →
      Owns s' l.view (pos % capacity) ∧ s'.sent pos ≤ l.view := by
    rintro pos hReader ⟨owns, hSent⟩
    refine ⟨owns.of_keeps keeps fun p hp => ?_, ?_⟩
    · exact (valid.slot_ne hCapacity hp hOffset (p := pos)
        ⟨by simp [hReader], by rw [hReader]; exact hOther.symm⟩).2
    · rw [keeps.sent pos (valid.lt_tail (by simp [hReader]))]
      exact hSent
  obtain ⟨V, remaining, out, pc⟩ := l
  cases pc with
  | idle | loadHead | loadSequence | returned => trivial
  | casHead pos => exact Memory.Acquired.mono finds keeps.writes le_rfl
  | take pos => exact hMine pos consuming.1 finds
  | release pos element => exact hMine pos consuming.1 finds

omit [DecidableEq χ] [DecidableEq ω] in
theorem Received.of_keeps {own : Stage π γ} {V V' : View (Atomic χ) (Plain ω)}
    (received : Received s r V) (keeps : Keeps capacity own s s') (valid : Valid capacity s.ring)
    (claimed : Claimed s.ring) (hView : V ≤ V')
    (h : ∀ result ∈ s'.ring.popped, result.consumer = r → result ∈ s.ring.popped) :
    Received s' r V' := by
  intro result hMem hMine
  have hBefore := h result hMem hMine
  have hRetired := (claimed.popped_retired result hBefore).1
  rw [keeps.sent _ (valid.lt_tail (by simp [hRetired]))]
  exact (received result hBefore hMine).trans hView

/-- What a consumer has just popped was sent before. -/
theorem WeakPopEffect.received (effect : WeakPopEffect capacity r s l s' l')
    (valid : Valid capacity s.ring) (claimed : Claimed s.ring)
    (consuming : Consuming capacity s.ring r l.place) (finds : Finds capacity s l)
    (received : Received s r l.view) : Received s' r l'.view := by
  have hLe := effect.le
  have keeps := effect.keeps consuming
  obtain ⟨V, remaining, out, pc⟩ := l
  cases effect with
  | retires pos time element memory V' hPc h =>
      simp only at hPc
      subst hPc
      intro result hMem hMine
      rcases List.mem_append.mp hMem with hOld | hNew
      · exact (received result hOld hMine).trans hLe
      · rw [List.mem_singleton] at hNew
        subst hNew
        exact finds.2.trans hLe
  | calls | uses | looks | finds | claims | takes =>
      exact received.of_keeps keeps valid claimed hLe fun result hMem _ => hMem

/-- Others pop for themselves. -/
theorem WeakPopEffect.popped (effect : WeakPopEffect capacity r s l s' l') {u : γ} (hne : u ≠ r) :
    ∀ result ∈ s'.ring.popped, result.consumer = u → result ∈ s.ring.popped := by
  intro result hMem hMine
  cases effect with
  | retires pos time element memory V' hPc h =>
      rcases List.mem_append.mp hMem with hOld | hNew
      · exact hOld
      · rw [List.mem_singleton] at hNew
        subst hNew
        exact absurd hMine hne.symm
  | calls | uses | looks | finds | claims | takes => exact hMem

end Steps

variable [DecidableEq π] [DecidableEq γ] [DecidableEq χ] [DecidableEq ω] {capacity : Nat}
  {c : Config (π ⊕ γ) (Shared π γ α χ ω) (Seeing χ ω (Producer α) ⊕ Seeing χ ω (Consumer α))}

/-- One step of any thread. -/
def weakStep (capacity : Nat) :
    Program (π ⊕ γ) (Shared π γ α χ ω) (Seeing χ ω (Producer α) ⊕ Seeing χ ω (Consumer α))
      (WeakPushChoice α ω ⊕ WeakPopChoice α ω) :=
  Program.either (weakPush capacity) (weakPop capacity)

def weakInitial :
    Config (π ⊕ γ) (Shared π γ α χ ω) (Seeing χ ω (Producer α) ⊕ Seeing χ ω (Consumer α)) :=
  Config.either .initial ⟨⊥, Producer.start⟩ ⟨⊥, Consumer.start⟩

/-- The states the queue can be brought to when loads may return what is no longer latest. -/
def WeaklyReachable (capacity : Nat)
    (c : Config (π ⊕ γ) (Shared π γ α χ ω)
      (Seeing χ ω (Producer α) ⊕ Seeing χ ω (Consumer α))) : Prop :=
  Reach (weakStep capacity) (· = weakInitial) anyStep c

/-- The shared part of the invariant. -/
structure Agreeing (capacity : Nat) (s : Shared π γ α χ ω) : Prop where
  ring : Consistent capacity s.ring
  coupled : Coupled capacity s
  head : s.memory.Counts .head s.ring.head

theorem WeaklyReachable.outlined (hCapacity : 2 ≤ capacity) (reach : WeaklyReachable capacity c) :
    Outlined (Agreeing capacity)
      (fun s t l => (Producing capacity s.ring t l.place ∧ Recorded s.ring t l.place ∧
        Owning s.ring t l.place) ∧ Sees capacity s l)
      (fun s r l => (Consuming capacity s.ring r l.place ∧ Holding s.ring r l.place ∧
        Collected s.ring r l.place) ∧ Finds capacity s l ∧ Received s r l.view) c := by
  refine Reach.outlined ?_ ?_ ?_ reach
  · refine ⟨⟨⟨valid_empty, ordered_empty, claimed_empty⟩, coupled_initial, fun time => ?_⟩,
      fun t => ⟨producer_start capacity t, trivial⟩, fun r => ⟨⟨trivial, fun p hp => ?_,
        List.nil_suffix⟩, trivial, fun result hMem => ?_⟩⟩
    · by_cases h : time = 0 <;> simp [Shared.initial, Memory.initial, State.empty, h]
    · cases hp
    · cases hMem
  · rintro t s l choice s' l' ⟨⟨valid, ordered, claimed⟩, coupled, head⟩
      ⟨⟨producing, recorded, owning⟩, sees⟩ hStep
    have effect := weakPush_effect hStep
    have onRing := effect.effect valid coupled producing
    have keeps := effect.keeps coupled producing
    refine ⟨⟨⟨onRing.valid valid hCapacity, onRing.ordered ordered recorded,
        claimed_of_push onRing valid hCapacity claimed⟩,
        effect.coupled valid hCapacity coupled producing sees, ?_⟩,
      ⟨effect.producing valid coupled producing recorded owning,
        effect.sees coupled valid producing sees⟩, ?_, ?_⟩
    · rw [onRing.reads_eq.1]
      exact head.congr (effect.elsewhere .head (by simp) (by simp))
    · rintro u m hne ⟨⟨hProducing, hRecorded, hOwning⟩, hSees⟩
      exact ⟨onRing.keeps_producer valid hCapacity hne hProducing hRecorded hOwning,
        hSees.of_keeps keeps valid hCapacity hProducing (by simp) (by simpa using hne.symm)⟩
    · rintro r m ⟨⟨hConsuming, hHolding, hCollected⟩, hFinds, hReceived⟩
      obtain ⟨hConsuming', hHolding'⟩ :=
        push_keeps_consumer onRing valid hCapacity hConsuming hHolding
      refine ⟨⟨hConsuming', hHolding', hCollected.of_poppedBy ?_⟩,
        hFinds.of_keeps keeps valid hCapacity hConsuming (by simp) (by simp),
        hReceived.of_keeps keeps valid claimed le_rfl fun result hMem _ => ?_⟩
      · simp only [State.poppedBy, onRing.reads_eq.2.2]
      · rwa [onRing.reads_eq.2.2] at hMem
  · rintro r s l choice s' l' ⟨⟨valid, ordered, claimed⟩, coupled, head⟩
      ⟨⟨consuming, holding, collected⟩, finds, received⟩ hStep
    have effect := weakPop_effect hStep
    have onRing := effect.effect valid claimed coupled head consuming
    have keeps := effect.keeps consuming
    refine ⟨⟨⟨onRing.valid valid hCapacity, ?_, onRing.claimed claimed⟩,
        effect.coupled valid hCapacity coupled consuming finds, effect.head head⟩,
      ⟨effect.consuming hCapacity valid claimed coupled head consuming holding collected,
        effect.sees valid coupled head consuming finds,
        effect.received valid claimed consuming finds received⟩, ?_, ?_⟩
    · unfold Ordered
      rw [onRing.pushed_eq]
      exact ordered
    · rintro u m hne ⟨⟨hConsuming, hHolding, hCollected⟩, hFinds, hReceived⟩
      obtain ⟨hConsuming', hHolding'⟩ :=
        onRing.keeps_consumer valid hCapacity hne hConsuming hHolding
      exact ⟨⟨hConsuming', hHolding', hCollected.of_poppedBy (onRing.poppedBy_ne hne)⟩,
        hFinds.of_keeps keeps valid hCapacity hConsuming (by simp) (by simpa using hne.symm),
        hReceived.of_keeps keeps valid claimed le_rfl (effect.popped hne)⟩
    · rintro t m ⟨⟨hProducing, hRecorded, hOwning⟩, hSees⟩
      exact ⟨onRing.keeps_producer valid hCapacity hProducing hRecorded hOwning,
        hSees.of_keeps keeps valid hCapacity hProducing (by simp) (by simp)⟩

/-- What the orders are there for. -/
structure WeaklyFaithful (capacity : Nat)
    (c : Config (π ⊕ γ) (Shared π γ α χ ω)
      (Seeing χ ω (Producer α) ⊕ Seeing χ ω (Consumer α))) : Prop where
  construct_alone : ∀ t l msg pos, c.here (.inl t) = .inl l → l.place.pc = .construct msg pos →
    c.shared.memory.Settled l.view (.storage (pos % capacity)) ∧
      c.shared.memory.contents (.storage (pos % capacity)) = none
  take_alone : ∀ r l pos, c.here (.inr r) = .inr l → l.place.pc = .take pos →
    c.shared.memory.Settled l.view (.storage (pos % capacity)) ∧
      ∃ entry, c.shared.ring.pushed[pos]? = some entry ∧
        c.shared.memory.contents (.storage (pos % capacity)) = some entry.value
  accepted : ∀ t l msg, c.here (.inl t) = .inl l → l.place.pc = .returned msg true →
    ∃ pos : Nat, c.shared.ring.pushed[pos]? = some (Entry.mk t l.place.calls msg)
  one_ticket : Ordered c.shared.ring
  one_pop : (c.shared.ring.popped.map Popped.ticket).Nodup
  pop_value : ∀ result ∈ c.shared.ring.popped, ∃ entry,
    c.shared.ring.pushed[result.ticket]? = some entry ∧ result.value = some entry.value
  pop_returns : ∀ r l, c.here (.inr r) = .inr l → l.place.pc = .returned →
    l.place.out <:+ c.shared.ring.poppedBy r
  handed_over : ∀ r l, c.here (.inr r) = .inr l → ∀ result ∈ c.shared.ring.popped,
    result.consumer = r → c.shared.sent result.ticket ≤ l.view

/-- Relaxed positions with acquire and release on the sequence numbers are enough. -/
theorem orders_suffice (hCapacity : 2 ≤ capacity) (reach : WeaklyReachable capacity c) :
    WeaklyFaithful capacity c := by
  obtain ⟨⟨⟨_, ordered, claimed⟩, coupled, _⟩, producers, consumers⟩ := reach.outlined hCapacity
  exact {
    construct_alone := fun t l msg pos hHere hPc => by
      obtain ⟨⟨V, k⟩, hPlace, ⟨producing, _⟩, sees⟩ := producers t
      cases hHere.symm.trans hPlace
      obtain ⟨calls, arg, pc⟩ := k
      simp only at hPc
      subst hPc
      exact ⟨sees.1.settled, (coupled.storage _).trans producing.2.2.1⟩
    take_alone := fun r l pos hHere hPc => by
      obtain ⟨⟨V, k⟩, hPlace, ⟨consuming, _⟩, finds, _⟩ := consumers r
      cases hHere.symm.trans hPlace
      obtain ⟨remaining, out, pc⟩ := k
      simp only at hPc
      subst hPc
      obtain ⟨_, entry, hEntry, hStored⟩ := consuming
      exact ⟨finds.1.settled, entry, hEntry, (coupled.storage _).trans hStored⟩
    accepted := fun t l msg hHere hPc => by
      obtain ⟨l', hPlace, ⟨producing, _⟩, _⟩ := producers t
      cases hHere.symm.trans hPlace
      exact producing.accepted hPc
    one_ticket := ordered
    one_pop := claimed.popped_nodup
    pop_value := fun result hMem => (claimed.popped_retired result hMem).2
    pop_returns := fun r l hHere hPc => by
      obtain ⟨l', hPlace, ⟨_, _, collected⟩, _⟩ := consumers r
      cases hHere.symm.trans hPlace
      exact (collected_iff (by rw [hPc]; rfl)).mp collected
    handed_over := fun r l hHere => by
      obtain ⟨l', hPlace, _, _, received⟩ := consumers r
      cases hHere.symm.trans hPlace
      exact received }

abbrev WeakSchedule := List ((Unit ⊕ Fin 2) × (WeakPushChoice Nat Unit ⊕ WeakPopChoice Nat Unit))

/-- The producer writes data of its own and pushes twice, and one consumer pops. The other one
then finds head and sequence number as they were before; its exchange fails, and it goes on
with the second ticket. -/
def staleHead : WeakSchedule :=
  [(.inl (), .inl (.use () (some 3))), (.inl (), .inl (.call 7)), (.inl (), .inl (.go 0)),
    (.inl (), .inl (.go 0)), (.inl (), .inl (.go 0)), (.inl (), .inl (.go 0)),
    (.inl (), .inl (.go 4)), (.inl (), .inl (.call 8)), (.inl (), .inl (.go 1)),
    (.inl (), .inl (.go 0)), (.inl (), .inl (.go 1)), (.inl (), .inl (.go 0)),
    (.inl (), .inl (.go 2)), (.inr 0, .inr (.call 1)), (.inr 0, .inr (.go 0)),
    (.inr 0, .inr (.go 4)), (.inr 0, .inr (.go 0)), (.inr 0, .inr (.go 0)),
    (.inr 0, .inr (.go 9)), (.inr 1, .inr (.call 1)), (.inr 1, .inr (.go 0)),
    (.inr 1, .inr (.go 4)), (.inr 1, .inr (.fail 1)), (.inr 1, .inr (.go 2)),
    (.inr 1, .inr (.go 1)), (.inr 1, .inr (.go 0)), (.inr 1, .inr (.go 5)),
    (.inr 1, .inr (.use () none))]

def afterStaleHead : Config (Unit ⊕ Fin 2) (Shared Unit (Fin 2) Nat Empty Unit)
    (Seeing Empty Unit (Producer Nat) ⊕ Seeing Empty Unit (Consumer Nat)) :=
  ((weakStep 2).replay anyStep weakInitial staleHead).get (by decide +kernel)

theorem orders_suffice_staleHead : WeaklyFaithful 2 afterStaleHead ∧
    afterStaleHead.shared.ring.popped.map Popped.value = [some 7, some 8] :=
  ⟨orders_suffice (Nat.le_refl 2) (Reach.replay (.start rfl) (Option.some_get _).symm),
    by decide +kernel⟩

end LockFreeMpmcQueue
