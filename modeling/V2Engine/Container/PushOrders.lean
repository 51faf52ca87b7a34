import V2Engine.Container.Push
import V2Engine.WeakMemory.Views

/-! `push` of both queues with the memory orders it asks for: relaxed on the positions,
acquire and release on the sequence numbers, and none at all on the storage of a slot.
A load may return any write that is not too old, so positions and sequence numbers can be
stale. What the latest writes amount to is a ring again, and a push moves it as before. -/
namespace LockFreeQueue

open TicketRing WeakMemory

variable {π γ α χ ω : Type*}

/-- The atomics of a queue, and others that the program has. -/
inductive Atomic (χ : Type*) where
  | tail
  | head
  | sequence (slot : Nat)
  | other (x : χ)
  deriving DecidableEq

/-- The storage of the slots, and plain data of the callers. -/
inductive Plain (ω : Type*) where
  | storage (slot : Nat)
  | client (w : ω)
  deriving DecidableEq

/-- `ring` and `sent` are history: the latest writes with what the callers have done, and
what had happened before each ticket was taken. -/
structure Shared (π γ α χ ω : Type*) where
  memory : Memory (Atomic χ) (Plain ω) ℕ (Option α)
  ring : State π γ α
  sent : ℕ → View (Atomic χ) (Plain ω)

/-- A queue as constructed, before any thread uses it. -/
def Shared.initial : Shared π γ α χ ω where
  memory := .initial
    (fun x => match x with | .sequence i => i | _ => 0)
    (fun _ => none)
  ring := .empty
  sent _ := ⊥

/-- A thread with what happened before for it. -/
structure Seeing (χ ω ℓ : Type*) where
  view : View (Atomic χ) (Plain ω)
  place : ℓ

/-- `time` is the write that is read, or the place of the one made. A weak compare and
exchange fails with any value it may have read. Between calls a caller may use its own data. -/
inductive WeakPushChoice (α ω : Type*) where
  | call (msg : α)
  | go (time : ℕ)
  | fail (time : ℕ)
  | use (w : ω) (content : Option α)

section Program

variable [DecidableEq χ] [DecidableEq ω]

def Shared.use (s : Shared π γ α χ ω) (a : Plain ω) (content : Option α)
    (V : View (Atomic χ) (Plain ω)) : Shared π γ α χ ω × View (Atomic χ) (Plain ω) :=
  ({ s with memory := (s.memory.access a content V).1 }, (s.memory.access a content V).2)

def weakPush (capacity : Nat) (t : π) (s : Shared π γ α χ ω) (l : Seeing χ ω (Producer α))
    (choice : WeakPushChoice α ω) : Option (Shared π γ α χ ω × Seeing χ ω (Producer α)) :=
  match l.place.pc, choice with
  | .idle, .call msg | .returned _ _, .call msg =>
      some (s, { l with place := ⟨l.place.calls + 1, some msg, .loadTail msg⟩ })
  | .idle, .use w content | .returned _ _, .use w content =>
      some ((s.use (.client w) content l.view).1,
        { l with view := (s.use (.client w) content l.view).2 })
  | .loadTail msg, .go time =>
      (s.memory.load .relaxed .tail time l.view).map fun (pos, view) =>
        (s, ⟨view, { l.place with pc := .loadSequence msg pos }⟩)
  | .loadSequence msg pos, .go time =>
      (s.memory.load .acquire (.sequence (pos % capacity)) time l.view).map fun (seq, view) =>
        let diff : Int := (seq : Int) - (pos : Int)
        if diff = 0 then (s, ⟨view, { l.place with pc := .casTail msg pos }⟩)
        else if diff < 0 then (s, ⟨view, { l.place with pc := .returned msg false }⟩)
        else (s, ⟨view, { l.place with pc := .loadTail msg }⟩)
  | .casTail msg pos, .go time =>
      (s.memory.compareExchange .relaxed .tail pos (pos + 1) time l.view).map
        fun (memory, view) =>
          (⟨memory, s.ring.reserve ⟨t, l.place.calls, msg⟩, Function.update s.sent pos view⟩,
            ⟨view, { l.place with pc := .construct msg pos }⟩)
  | .casTail msg _, .fail time =>
      (s.memory.load .relaxed .tail time l.view).map fun (pos, view) =>
        (s, ⟨view, { l.place with pc := .loadSequence msg pos }⟩)
  | .construct msg pos, .go _ =>
      let used := s.use (.storage (pos % capacity)) l.place.arg l.view
      some ({ used.1 with ring := s.ring.construct capacity pos l.place.arg },
        ⟨used.2, { l.place with arg := none, pc := .publish msg pos }⟩)
  | .publish msg pos, .go time =>
      (s.memory.store .release (.sequence (pos % capacity)) (pos + 1) time l.view).map
        fun (memory, view) =>
          ({ s with memory := memory, ring := s.ring.publish capacity pos },
            ⟨view, { l.place with pc := .returned msg true }⟩)
  | _, _ => none

end Program

/-- The thread knows everything that was done with the slot. -/
structure Owns (s : Shared π γ α χ ω) (V : View (Atomic χ) (Plain ω)) (slot : Nat) : Prop where
  current : s.memory.Current V (.sequence slot)
  settled : s.memory.Settled V (.storage slot)

/-- What the stepping thread has seen of the slot it is after. -/
def Sees (capacity : Nat) (s : Shared π γ α χ ω) (l : Seeing χ ω (Producer α)) : Prop :=
  match l.place.pc with
  | .casTail _ pos => s.memory.Acquired l.view (.sequence (pos % capacity)) pos
  | .construct _ pos | .publish _ pos => Owns s l.view (pos % capacity) ∧ s.sent pos ≤ l.view
  | _ => True

/-- Who acquires the sequence number `value` of ticket `p`'s slot knows all its accesses. -/
def Hands (capacity : Nat) (s : Shared π γ α χ ω) (p value : Nat) : Prop :=
  ∀ time m, s.memory.writes (.sequence (p % capacity)) time = some m → m.value = value →
    s.memory.Settled m.view (.storage (p % capacity))

/-- The ring is what the latest writes amount to, and a sequence number that lets a thread
at a slot shows it what was done there before. -/
structure Coupled (capacity : Nat) (s : Shared π γ α χ ω) : Prop where
  tail : s.memory.Counts .tail s.ring.tail
  sequence : ∀ i, s.memory.Rises (.sequence i) (s.ring.sequence i)
  storage : ∀ i, s.memory.contents (.storage i) = s.ring.storage i
  published : ∀ p, s.ring.stage p = .published → Hands capacity s p (p + 1)
  vacant : ∀ p, s.ring.stage p = .free → Hands capacity s p p
  sent : ∀ p, s.ring.stage p = .published → ∀ time m,
    s.memory.writes (.sequence (p % capacity)) time = some m → m.value = p + 1 → s.sent p ≤ m.view

/-- What a step leaves alone: every slot but that of its own ticket. -/
structure Keeps (capacity : Nat) (own : Stage π γ) (s s' : Shared π γ α χ ω) : Prop where
  writes : s'.memory.Extends s.memory
  sequence : ∀ i, (∀ p, s.ring.stage p = own → i ≠ p % capacity) →
    s'.memory.writes (.sequence i) = s.memory.writes (.sequence i)
  accesses : ∀ i, (∀ p, s.ring.stage p = own → i ≠ p % capacity) →
    s'.memory.accesses (.storage i) = s.memory.accesses (.storage i)
  sent : ∀ p, p < s.ring.tail → s'.sent p = s.sent p

theorem Keeps.refl (capacity : Nat) (own : Stage π γ) (s : Shared π γ α χ ω) :
    Keeps capacity own s s :=
  ⟨Memory.extends_refl _, fun _ _ => rfl, fun _ _ => rfl, fun _ _ => rfl⟩

theorem Owns.of_keeps {capacity : Nat} {own : Stage π γ} {s s' : Shared π γ α χ ω}
    {V : View (Atomic χ) (Plain ω)} {i : Nat} (owns : Owns s V i) (keeps : Keeps capacity own s s')
    (hSlot : ∀ p, s.ring.stage p = own → i ≠ p % capacity) : Owns s' V i where
  current time m hWrite := owns.current time m (by rwa [← keeps.sequence i hSlot])
  settled := by
    unfold Memory.Settled
    rw [keeps.accesses i hSlot]
    exact owns.settled

theorem Owns.mono {s : Shared π γ α χ ω} {V V' : View (Atomic χ) (Plain ω)} {i : Nat}
    (owns : Owns s V i) (h : V ≤ V') : Owns s V' i :=
  ⟨fun time m hWrite => (owns.current time m hWrite).trans (h _), owns.settled.trans (h _)⟩

section Steps

variable [DecidableEq χ] [DecidableEq ω] {capacity : Nat} {s s' : Shared π γ α χ ω} {t : π}
  {l l' : Seeing χ ω (Producer α)} {choice : WeakPushChoice α ω}

omit [DecidableEq χ] [DecidableEq ω] in
theorem coupled_initial : Coupled capacity (.initial : Shared π γ α χ ω) where
  tail time := by
    by_cases h : time = 0 <;> simp [Shared.initial, Memory.initial, State.empty, h]
  sequence i := by
    refine ⟨⟨0, ⟨i, ⊥⟩, rfl, rfl⟩, fun time m hWrite => ?_, fun time m time' m' h h' hLt => ?_⟩
    · simp only [Shared.initial, Memory.initial, Option.ite_none_right_eq_some] at hWrite
      obtain ⟨_, ⟨⟩⟩ := hWrite
      exact le_rfl
    · simp only [Shared.initial, Memory.initial, Option.ite_none_right_eq_some] at h h'
      omega
  storage i := rfl
  published p h := by simp [Shared.initial, State.empty] at h
  vacant p h time m hWrite hValue := Nat.zero_le _
  sent p h := by simp [Shared.initial, State.empty] at h

/-- A ticket is taken where the tail was last written. -/
theorem Coupled.reserve (coupled : Coupled capacity s) {pos time : ℕ}
    {V V' : View (Atomic χ) (Plain ω)} {memory : Memory (Atomic χ) (Plain ω) ℕ (Option α)}
    (h : s.memory.exchange .relaxed .tail (pos + 1) time V = some (pos, memory, V'))
    (entry : Entry π α) : pos = s.ring.tail ∧
      Coupled capacity ⟨memory, s.ring.reserve entry, Function.update s.sent pos V'⟩ := by
  obtain ⟨hTail, counts⟩ := coupled.tail.exchange h
  obtain ⟨m, _, _, _, _, rfl⟩ := Memory.exchange_eq_some h
  refine ⟨hTail, ⟨counts, fun i => (coupled.sequence i).congr (by simp), coupled.storage, ?_, ?_, ?_⟩⟩
  · intro p hp time m hWrite
    exact coupled.published p (stage_kept hp (by simp)).2 time m (by simpa using hWrite)
  · intro p hp time m hWrite
    exact coupled.vacant p (stage_kept hp (by simp)).2 time m (by simpa using hWrite)
  · intro p hp time m hWrite hValue
    obtain ⟨hne, hOld⟩ := stage_kept hp (by simp)
    simp only [hTail, Function.update_of_ne hne]
    exact coupled.sent p hOld time m (by simpa using hWrite) hValue

/-- An access to the storage of an occupied slot. -/
theorem Coupled.access (coupled : Coupled capacity s) (valid : Valid capacity s.ring)
    (hCapacity : 2 ≤ capacity) {pos : ℕ} {own : Stage π γ} (hOwn : s.ring.stage pos = own)
    (hOffset : own.offset ≠ none) (hHeld : own ≠ .published) (content : Option α)
    (V : View (Atomic χ) (Plain ω)) :
    Coupled capacity { (s.use (.storage (pos % capacity)) content V).1 with
      ring := s.ring.construct capacity pos content } where
  tail := coupled.tail.congr rfl
  sequence i := (coupled.sequence i).congr rfl
  storage i := by
    by_cases hi : i = pos % capacity
    · simp [Shared.use, Memory.access, State.construct, hi]
    · simp [Shared.use, Memory.access, State.construct, hi, coupled.storage i]
  published p hp time m hWrite hValue := by
    have hOccupied : Occupied own (s.ring.stage p) :=
      ⟨by simp only [State.construct] at hp; simp [hp], fun h => hHeld (h.symm.trans hp)⟩
    have hSlot := (valid.slot_ne hCapacity hOwn hOffset hOccupied).2
    have hBefore := coupled.published p hp time m hWrite hValue
    simpa [Memory.Settled, Shared.use, Memory.access, hSlot] using hBefore
  vacant p hp time m hWrite hValue := by
    have hSlot : p % capacity ≠ pos % capacity := fun hSlot => by
      obtain ⟨k, hk⟩ := Option.ne_none_iff_exists'.mp hOffset
      have hTop := (coupled.sequence (p % capacity)).le_top time m hWrite
      have hOccupied := valid.occupied pos k (hOwn ▸ hk)
      have hLt := valid.lt_of_free (p := pos) (fun h => hOffset (by simp [← hOwn, h])) hp
      have := lap_le hSlot.symm hLt
      have := Stage.offset_le_one hk
      rw [hSlot] at hTop
      omega
    have hBefore := coupled.vacant p hp time m hWrite hValue
    simpa [Memory.Settled, Shared.use, Memory.access, hSlot] using hBefore
  sent p hp := coupled.sent p hp

/-- The owner of a slot writes its sequence number, with everything it knows. -/
theorem Coupled.store (coupled : Coupled capacity s) (valid : Valid capacity s.ring)
    (hCapacity : 2 ≤ capacity) {pos ahead time : ℕ} {own new : Stage π γ}
    {V V' : View (Atomic χ) (Plain ω)} {memory : Memory (Atomic χ) (Plain ω) ℕ (Option α)}
    {ring : State π γ α} (hOwn : s.ring.stage pos = own) (hOffset : own.offset ≠ none)
    (hHeld : own ≠ .published) (hNew : new ≠ .free) (owns : Owns s V (pos % capacity))
    (hSent : s.sent pos ≤ V) (hTop : s.ring.sequence (pos % capacity) < ahead)
    (hPublished : new = .published → ahead = pos + 1)
    (h : s.memory.store .release (.sequence (pos % capacity)) ahead time V = some (memory, V'))
    (hTail : ring.tail = s.ring.tail) (hStage : ring.stage = Function.update s.ring.stage pos new)
    (hSequence : ring.sequence = Function.update s.ring.sequence (pos % capacity) ahead)
    (hStorage : ring.storage = s.ring.storage) :
    Coupled capacity { s with memory := memory, ring := ring } := by
  have hRises := (coupled.sequence _).store owns.current hTop h
  obtain ⟨_, _, rfl, rfl⟩ := Memory.store_eq_some h
  have hView : V ≤ V ⊔ View.only (.sequence (pos % capacity)) time := le_sup_left
  have hSettled : s.memory.Settled (V ⊔ View.only (.sequence (pos % capacity)) time)
      (.storage (pos % capacity)) := owns.settled.trans (hView _)
  refine ⟨?_, fun i => ?_, fun i => ?_, fun p hp t m hWrite hValue => ?_,
    fun p hp t m hWrite hValue => ?_, fun p hp t m hWrite hValue => ?_⟩
  · rw [hTail]
    exact coupled.tail.congr (by simp)
  · simp only [hSequence]
    by_cases hi : i = pos % capacity
    · subst hi
      simpa using hRises
    · rw [Function.update_of_ne hi]
      exact (coupled.sequence i).congr (by simp [hi])
  · exact (coupled.storage i).trans (congrFun hStorage.symm i)
  · simp only [hStage] at hp
    rcases Memory.insert_writes_eq_some.mp hWrite with ⟨hSlot, _, rfl⟩ | ⟨_, hOld⟩
    · obtain hSlot : p % capacity = pos % capacity := by simpa using hSlot
      rw [hSlot]
      exact hSettled
    · by_cases hpos : p = pos
      · subst hpos
        have := (coupled.sequence _).le_top t m hOld
        have := hPublished (by simpa using hp)
        omega
      · exact coupled.published p (by simpa [hpos] using hp) t m hOld hValue
  · simp only [hStage] at hp
    have hFree := (stage_kept hp hNew).2
    rcases Memory.insert_writes_eq_some.mp hWrite with ⟨hSlot, _, rfl⟩ | ⟨_, hOld⟩
    · obtain hSlot : p % capacity = pos % capacity := by simpa using hSlot
      rw [hSlot]
      exact hSettled
    · exact coupled.vacant p hFree t m hOld hValue
  · simp only [hStage] at hp
    by_cases hpos : p = pos
    · subst hpos
      rcases Memory.insert_writes_eq_some.mp hWrite with ⟨_, _, rfl⟩ | ⟨_, hOld⟩
      · exact hSent.trans hView
      · have := (coupled.sequence _).le_top t m hOld
        have := hPublished (by simpa using hp)
        omega
    · have hBefore : s.ring.stage p = .published := by simpa [hpos] using hp
      have hOccupied : Occupied own (s.ring.stage p) :=
        ⟨by simp [hBefore], fun h => hHeld (h.symm.trans hBefore)⟩
      have hSlot := (valid.slot_ne hCapacity hOwn hOffset hOccupied).2
      rcases Memory.insert_writes_eq_some.mp hWrite with ⟨hSame, _, _⟩ | ⟨_, hOld⟩
      · exact absurd (by simpa using hSame) hSlot
      · exact coupled.sent p hBefore t m hOld hValue

/-- Data of the callers is not the queue's. -/
theorem Coupled.use_client (coupled : Coupled capacity s) (w : ω) (content : Option α)
    (V : View (Atomic χ) (Plain ω)) : Coupled capacity (s.use (.client w) content V).1 where
  tail := coupled.tail.congr rfl
  sequence i := (coupled.sequence i).congr rfl
  storage i := by simpa [Shared.use, Memory.access] using coupled.storage i
  published p hp time m hWrite hValue := by
    simpa [Memory.Settled, Shared.use, Memory.access] using
      coupled.published p hp time m hWrite hValue
  vacant p hp time m hWrite hValue := by
    simpa [Memory.Settled, Shared.use, Memory.access] using
      coupled.vacant p hp time m hWrite hValue
  sent p hp := coupled.sent p hp

theorem keeps_use_client (own : Stage π γ) (s : Shared π γ α χ ω) (w : ω) (content : Option α)
    (V : View (Atomic χ) (Plain ω)) : Keeps capacity own s (s.use (.client w) content V).1 where
  writes := Memory.extends_refl _
  sequence _ _ := rfl
  accesses i _ := by simp [Shared.use, Memory.access]
  sent _ _ := rfl

/-- The steps of `weakPush` that change the ring, and what becomes of a thread at the others. -/
inductive WeakPushEffect (capacity : Nat) (t : π) (s : Shared π γ α χ ω)
    (l : Seeing χ ω (Producer α)) : Shared π γ α χ ω → Seeing χ ω (Producer α) → Prop where
  | calls (msg : α) (hPc : l.place.Quiet) : WeakPushEffect capacity t s l s
      { l with place := ⟨l.place.calls + 1, some msg, .loadTail msg⟩ }
  | uses (w : ω) (content : Option α) (hPc : l.place.Quiet) : WeakPushEffect capacity t s l
      (s.use (.client w) content l.view).1 { l with view := (s.use (.client w) content l.view).2 }
  | looks (msg : α) (pos time : ℕ) (V : View (Atomic χ) (Plain ω))
      (hPc : l.place.pc = .loadTail msg ∨ ∃ before, l.place.pc = .casTail msg before)
      (h : s.memory.load .relaxed .tail time l.view = some (pos, V)) :
      WeakPushEffect capacity t s l s ⟨V, { l.place with pc := .loadSequence msg pos }⟩
  | finds (msg : α) (pos time seq : ℕ) (V : View (Atomic χ) (Plain ω)) (pc : PushPc α)
      (hPc : l.place.pc = .loadSequence msg pos)
      (h : s.memory.load .acquire (.sequence (pos % capacity)) time l.view = some (seq, V))
      (hNext : seq = pos ∧ pc = .casTail msg pos ∨ pc = .returned msg false ∨ pc = .loadTail msg) :
      WeakPushEffect capacity t s l s ⟨V, { l.place with pc := pc }⟩
  | reserves (msg : α) (pos time : ℕ) (memory : Memory (Atomic χ) (Plain ω) ℕ (Option α))
      (V : View (Atomic χ) (Plain ω)) (hPc : l.place.pc = .casTail msg pos)
      (h : s.memory.exchange .relaxed .tail (pos + 1) time l.view = some (pos, memory, V)) :
      WeakPushEffect capacity t s l
        ⟨memory, s.ring.reserve ⟨t, l.place.calls, msg⟩, Function.update s.sent pos V⟩
        ⟨V, { l.place with pc := .construct msg pos }⟩
  | constructs (msg : α) (pos : ℕ) (hPc : l.place.pc = .construct msg pos) :
      WeakPushEffect capacity t s l
        { (s.use (.storage (pos % capacity)) l.place.arg l.view).1 with
          ring := s.ring.construct capacity pos l.place.arg }
        ⟨(s.use (.storage (pos % capacity)) l.place.arg l.view).2,
          { l.place with arg := none, pc := .publish msg pos }⟩
  | publishes (msg : α) (pos time : ℕ) (memory : Memory (Atomic χ) (Plain ω) ℕ (Option α))
      (V : View (Atomic χ) (Plain ω)) (hPc : l.place.pc = .publish msg pos)
      (h : s.memory.store .release (.sequence (pos % capacity)) (pos + 1) time l.view =
        some (memory, V)) :
      WeakPushEffect capacity t s l
        { s with memory := memory, ring := s.ring.publish capacity pos }
        ⟨V, { l.place with pc := .returned msg true }⟩

theorem weakPush_effect (h : weakPush capacity t s l choice = some (s', l')) :
    WeakPushEffect capacity t s l s' l' := by
  obtain ⟨V, calls, arg, pc⟩ := l
  cases pc <;> cases choice <;> simp only [weakPush, reduceCtorEq] at h
  case idle.call msg | returned.call msg =>
    cases h
    exact .calls _ (by simp [Producer.Quiet])
  case idle.use w content | returned.use w content =>
    cases h
    exact .uses _ _ (by simp [Producer.Quiet])
  case loadTail.go msg time =>
    obtain ⟨⟨pos, V'⟩, hLoad, hAfter⟩ := Option.map_eq_some_iff.mp h
    cases hAfter
    exact .looks msg pos time V' (.inl rfl) hLoad
  case casTail.fail msg before time =>
    obtain ⟨⟨pos, V'⟩, hLoad, hAfter⟩ := Option.map_eq_some_iff.mp h
    cases hAfter
    exact .looks msg pos time V' (.inr ⟨before, rfl⟩) hLoad
  case loadSequence.go msg pos time =>
    obtain ⟨⟨seq, V'⟩, hLoad, hAfter⟩ := Option.map_eq_some_iff.mp h
    simp only at hAfter
    split_ifs at hAfter with hZero hBehind <;> cases hAfter
    · exact .finds msg pos time seq V' _ rfl hLoad (.inl ⟨by omega, rfl⟩)
    · exact .finds msg pos time seq V' _ rfl hLoad (.inr (.inl rfl))
    · exact .finds msg pos time seq V' _ rfl hLoad (.inr (.inr rfl))
  case casTail.go msg pos time =>
    obtain ⟨⟨memory, V'⟩, hSwap, hAfter⟩ := Option.map_eq_some_iff.mp h
    cases hAfter
    exact .reserves msg pos time memory V' rfl (Memory.compareExchange_eq_some hSwap)
  case construct.go msg pos time =>
    cases h
    exact .constructs msg pos rfl
  case publish.go msg pos time =>
    obtain ⟨⟨memory, V'⟩, hStore, hAfter⟩ := Option.map_eq_some_iff.mp h
    cases hAfter
    exact .publishes msg pos time memory V' rfl hStore

/-- The ring moves as if positions were never stale, or it stays and the thread, which has
no ticket, goes on with what it read. -/
theorem WeakPushEffect.replayed (effect : WeakPushEffect capacity t s l s' l')
    (valid : Valid capacity s.ring) (coupled : Coupled capacity s)
    (producing : Producing capacity s.ring t l.place) :
    (∃ choice, push capacity t s.ring l.place choice = some (s'.ring, l'.place)) ∨
      s'.ring = s.ring ∧ l'.place.calls = l.place.calls ∧ l.place.pc.ticket = none ∧
        l'.place.pc.ticket = none ∧ (l'.place.pc.waiting → l.place.pc.waiting) ∧
        Producing capacity s.ring t l'.place := by
  obtain ⟨V, calls, arg, pc⟩ := l
  cases effect with
  | calls msg hPc =>
      obtain hPc | ⟨before, ok, hPc⟩ := hPc <;> simp only at hPc <;> subst hPc
      · exact .inl ⟨.call msg, rfl⟩
      · exact .inl ⟨.call msg, rfl⟩
  | uses w content hPc => exact .inr ⟨rfl, rfl, hPc.ticket, hPc.ticket, id, producing⟩
  | looks msg pos time V' hPc h =>
      have hTail := coupled.tail.load h
      obtain hPc | ⟨before, hPc⟩ := hPc <;> simp only at hPc <;> subst hPc
      · exact .inr ⟨rfl, rfl, rfl, rfl, fun _ => trivial, producing, hTail⟩
      · exact .inr ⟨rfl, rfl, rfl, rfl, fun _ => trivial, producing.1, hTail⟩
  | finds msg pos time seq V' next hPc h hNext =>
      simp only at hPc
      subst hPc
      obtain ⟨hArg, hPos⟩ := producing
      obtain ⟨rfl, rfl⟩ | rfl | rfl := hNext
      · refine .inr ⟨rfl, rfl, rfl, rfl, fun _ => trivial, hArg, hPos, fun hTail => ?_⟩
        have hFree := (valid.free_iff seq).mpr hTail.ge
        exact le_antisymm (valid.waiting seq hFree) ((coupled.sequence _).load h)
      · exact .inr ⟨rfl, rfl, rfl, rfl, False.elim, hArg⟩
      · exact .inr ⟨rfl, rfl, rfl, rfl, fun _ => trivial, hArg⟩
  | reserves msg pos time memory V' hPc h =>
      simp only at hPc
      subst hPc
      have hTail := (coupled.reserve h (Entry.mk t calls msg)).1
      exact .inl ⟨.go, by simp [push, hTail]⟩
  | constructs msg pos hPc | publishes msg pos time memory V' hPc h =>
      simp only at hPc
      subst hPc
      exact .inl ⟨.go, rfl⟩

theorem WeakPushEffect.effect (effect : WeakPushEffect capacity t s l s' l')
    (valid : Valid capacity s.ring) (coupled : Coupled capacity s)
    (producing : Producing capacity s.ring t l.place) :
    PushEffect capacity t s.ring l.place s'.ring := by
  rcases effect.replayed valid coupled producing with ⟨choice, h⟩ | ⟨hRing, _⟩
  · exact push_effect producing h
  · rw [hRing]
    exact .none

/-- The stepping producer's own facts about the ring. -/
theorem WeakPushEffect.producing (effect : WeakPushEffect capacity t s l s' l')
    (valid : Valid capacity s.ring) (coupled : Coupled capacity s)
    (producing : Producing capacity s.ring t l.place) (recorded : Recorded s.ring t l.place)
    (owning : Owning s.ring t l.place) :
    Producing capacity s'.ring t l'.place ∧ Recorded s'.ring t l'.place ∧
      Owning s'.ring t l'.place := by
  rcases effect.replayed valid coupled producing with
    ⟨choice, h⟩ | ⟨hRing, hCalls, hTicket, hTicket', hWaiting, hProducing⟩
  · exact ⟨push_producing valid producing h, push_recorded recorded h, push_owning owning h⟩
  · rw [hRing]
    refine ⟨hProducing, fun entry hMem hSame => ?_, fun p hp => ?_⟩
    · obtain ⟨hLe, hLt⟩ := recorded entry hMem hSame
      rw [hCalls]
      exact ⟨hLe, fun hPc => hLt (hWaiting hPc)⟩
    · have := owning p hp
      simp [hTicket] at this

/-- A thread forgets nothing. -/
theorem WeakPushEffect.le (effect : WeakPushEffect capacity t s l s' l') : l.view ≤ l'.view := by
  cases effect with
  | calls => exact le_rfl
  | uses w content hPc => exact s.memory.le_access (.client w) content l.view
  | constructs msg pos hPc =>
      exact s.memory.le_access (.storage (pos % capacity)) l.place.arg l.view
  | looks msg pos time V hPc h => exact Memory.le_of_load h
  | finds msg pos time seq V pc hPc h hNext => exact Memory.le_of_load h
  | reserves msg pos time memory V hPc h => exact Memory.le_of_exchange h
  | publishes msg pos time memory V hPc h =>
      obtain ⟨_, _, rfl, _⟩ := Memory.store_eq_some h
      exact le_sup_left

/-- A push writes the tail and sequence numbers. -/
theorem WeakPushEffect.elsewhere (effect : WeakPushEffect capacity t s l s' l') (x : Atomic χ)
    (hTail : x ≠ .tail) (hSequence : ∀ i, x ≠ .sequence i) :
    s'.memory.writes x = s.memory.writes x := by
  cases effect with
  | calls | uses | looks | finds | constructs => rfl
  | reserves msg pos time memory V hPc h =>
      obtain ⟨m, _, _, _, _, rfl⟩ := Memory.exchange_eq_some h
      simp [hTail]
  | publishes msg pos time memory V hPc h =>
      obtain ⟨_, _, rfl, rfl⟩ := Memory.store_eq_some h
      simp [hSequence]

theorem WeakPushEffect.coupled (effect : WeakPushEffect capacity t s l s' l')
    (valid : Valid capacity s.ring) (hCapacity : 2 ≤ capacity) (coupled : Coupled capacity s)
    (producing : Producing capacity s.ring t l.place) (sees : Sees capacity s l) :
    Coupled capacity s' := by
  obtain ⟨V, calls, arg, pc⟩ := l
  cases effect with
  | calls | looks | finds => exact coupled
  | uses w content => exact coupled.use_client w content _
  | reserves msg pos time memory V' hPc h => exact (coupled.reserve h _).2
  | constructs msg pos hPc =>
      simp only at hPc
      subst hPc
      exact coupled.access valid hCapacity producing.2.1 (by simp) (by simp) arg V
  | publishes msg pos time memory V' hPc h =>
      simp only at hPc
      subst hPc
      obtain ⟨_, hOwner, _, _⟩ := producing
      have hSequence := valid.occupied pos 0 (by simp [hOwner])
      exact coupled.store valid hCapacity hOwner (by simp) (by simp) (by simp) sees.1 sees.2
        (by omega) (fun _ => rfl) h rfl rfl rfl rfl

theorem WeakPushEffect.sees (effect : WeakPushEffect capacity t s l s' l')
    (coupled : Coupled capacity s) (valid : Valid capacity s.ring)
    (producing : Producing capacity s.ring t l.place) (sees : Sees capacity s l) :
    Sees capacity s' l' := by
  have hLe := effect.le
  obtain ⟨V, calls, arg, pc⟩ := l
  cases effect with
  | calls | looks | publishes => trivial
  | uses w content hPc =>
      obtain hPc | ⟨before, ok, hPc⟩ := hPc <;> simp only at hPc <;> subst hPc <;> trivial
  | finds msg pos time seq V' pc hPc h hNext =>
      obtain ⟨rfl, rfl⟩ | rfl | rfl := hNext
      · exact Memory.acquired_of_load rfl h
      · trivial
      · trivial
  | reserves msg pos time memory V' hPc h =>
      simp only at hPc
      subst hPc
      obtain ⟨hTail, _⟩ := coupled.reserve h (Entry.mk t calls msg)
      have hFree := (valid.free_iff pos).mpr hTail.ge
      have hOpen := producing.2.2 hTail
      obtain ⟨m, _, _, _, _, rfl⟩ := Memory.exchange_eq_some h
      have acquired : s.memory.Acquired V (.sequence (pos % capacity)) pos := sees
      have hRises := coupled.sequence (pos % capacity)
      rw [hOpen] at hRises
      have hCurrent := hRises.current acquired
      obtain ⟨at', shown, hWrite, hValue, _, hShown⟩ := acquired
      have hSettled := coupled.vacant pos hFree at' shown hWrite hValue
      refine ⟨⟨fun time m' hWrite' => ?_, ?_⟩, ?_⟩
      · exact (hCurrent time m' (by simpa using hWrite')).trans (hLe _)
      · exact hSettled.trans ((hShown _).trans (hLe _))
      · simp
  | constructs msg pos hPc =>
      simp only at hPc
      subst hPc
      refine ⟨⟨fun time m hWrite => ?_, Memory.settled_access ..⟩, sees.2.trans hLe⟩
      exact (sees.1.current time m hWrite).trans (hLe _)

theorem WeakPushEffect.keeps (effect : WeakPushEffect capacity t s l s' l')
    (coupled : Coupled capacity s) (producing : Producing capacity s.ring t l.place) :
    Keeps capacity (.reserved t) s s' := by
  obtain ⟨V, calls, arg, pc⟩ := l
  cases effect with
  | calls | looks | finds => exact .refl _ _ _
  | uses w content hPc => exact keeps_use_client _ _ w content _
  | reserves msg pos time memory V' hPc h =>
      have hTail := (coupled.reserve h (Entry.mk t calls msg)).1
      obtain ⟨m, _, _, hVacant, _, rfl⟩ := Memory.exchange_eq_some h
      refine ⟨Memory.extends_insert hVacant _, fun i _ => by simp, fun i _ => rfl, fun p hp => ?_⟩
      exact Function.update_of_ne (by omega) _ _
  | constructs msg pos hPc =>
      simp only at hPc
      subst hPc
      refine ⟨Memory.extends_refl _, fun _ _ => rfl, fun i hi => ?_, fun _ _ => rfl⟩
      simp [Shared.use, Memory.access, hi pos producing.2.1]
  | publishes msg pos time memory V' hPc h =>
      simp only at hPc
      subst hPc
      obtain ⟨_, hVacant, rfl, rfl⟩ := Memory.store_eq_some h
      refine ⟨Memory.extends_insert hVacant _, fun i hi => ?_, fun i _ => rfl, fun _ _ => rfl⟩
      simp [hi pos producing.2.1]

omit [DecidableEq χ] [DecidableEq ω] in
theorem Sees.mono {V V' : View (Atomic χ) (Plain ω)} {k : Producer α} (sees : Sees capacity s ⟨V, k⟩)
    (hView : V ≤ V') : Sees capacity s ⟨V', k⟩ := by
  obtain ⟨calls, arg, pc⟩ := k
  cases pc with
  | idle | loadTail | loadSequence | returned => trivial
  | casTail msg pos => exact Memory.Acquired.mono sees (Memory.extends_refl _) hView
  | construct msg pos | publish msg pos => exact ⟨sees.1.mono hView, sees.2.trans hView⟩

omit [DecidableEq χ] [DecidableEq ω] in
/-- What a producer has seen stays true while others step. -/
theorem Sees.of_keeps {own : Stage π γ} (sees : Sees capacity s l)
    (keeps : Keeps capacity own s s') (valid : Valid capacity s.ring) (hCapacity : 2 ≤ capacity)
    (producing : Producing capacity s.ring t l.place) (hOffset : own.offset ≠ none)
    (hOther : own ≠ .reserved t) : Sees capacity s' l := by
  have hMine : ∀ pos, s.ring.stage pos = .reserved t →
      Owns s l.view (pos % capacity) ∧ s.sent pos ≤ l.view →
      Owns s' l.view (pos % capacity) ∧ s'.sent pos ≤ l.view := by
    rintro pos hOwner ⟨owns, hSent⟩
    refine ⟨owns.of_keeps keeps fun p hp => ?_, ?_⟩
    · exact (valid.slot_ne hCapacity hp hOffset (p := pos)
        ⟨by simp [hOwner], by rw [hOwner]; exact hOther.symm⟩).2
    · rw [keeps.sent pos (valid.lt_tail (by simp [hOwner]))]
      exact hSent
  obtain ⟨V, calls, arg, pc⟩ := l
  cases pc with
  | idle | loadTail | loadSequence | returned => trivial
  | casTail msg pos => exact Memory.Acquired.mono sees keeps.writes le_rfl
  | construct msg pos => exact hMine pos producing.2.1 sees
  | publish msg pos => exact hMine pos producing.2.1 sees

omit [DecidableEq χ] [DecidableEq ω] in
/-- An accepted element was there before, or is the one just pushed. -/
theorem entry_of_push {ring ring' : State π γ α} {k : Producer α}
    (effect : PushEffect capacity t ring k ring') {p : ℕ} {entry : Entry π α}
    (h : ring'.pushed[p]? = some entry) : ring.pushed[p]? = some entry ∨ entry.producer = t := by
  cases effect with
  | none | construct | publish => exact .inl h
  | reserve msg _ _ =>
      simp only [State.reserve, List.getElem?_append] at h
      split at h
      · exact .inl h
      · rw [List.mem_singleton.mp (List.mem_of_getElem? h)]
        exact .inr rfl

/-- An element is accepted together with its ticket. -/
theorem WeakPushEffect.accepted (effect : WeakPushEffect capacity t s l s' l')
    (valid : Valid capacity s.ring) (coupled : Coupled capacity s) {p : ℕ} {entry : Entry π α}
    (h : s'.ring.pushed[p]? = some entry) :
    s.ring.pushed[p]? = some entry ∨ l'.place.pc.ticket = some p := by
  cases effect with
  | calls | uses | looks | finds | constructs | publishes => exact .inl h
  | reserves msg pos time memory V hPc hSwap =>
      have hTail := (coupled.reserve hSwap (Entry.mk t l.place.calls msg)).1
      have hLength := valid.pushed_length
      by_cases hp : p < s.ring.pushed.length
      · exact .inl (by simpa [State.reserve, List.getElem?_append_left hp] using h)
      · have hLt := (List.getElem?_eq_some_iff.mp h).1
        simp only [State.reserve, List.length_append, List.length_singleton] at hLt
        exact .inr (congrArg some (by omega))

/-- A ticket is kept until it is published. -/
theorem WeakPushEffect.ticket (effect : WeakPushEffect capacity t s l s' l') {p : ℕ}
    (h : l.place.pc.ticket = some p) :
    l'.place.pc.ticket = some p ∨ ∃ msg, l.place.pc = .publish msg p := by
  cases effect with
  | calls msg hPc =>
      rw [hPc.ticket] at h
      cases h
  | uses w content hPc => exact .inl h
  | looks msg pos time V hPc hLoad =>
      obtain hPc | ⟨before, hPc⟩ := hPc <;> rw [hPc] at h <;> cases h
  | finds msg pos time seq V pc hPc hLoad hNext =>
      rw [hPc] at h
      cases h
  | reserves msg pos time memory V hPc hSwap =>
      rw [hPc] at h
      cases h
  | constructs msg pos hPc =>
      rw [hPc] at h
      exact .inl h
  | publishes msg pos time memory V hPc hStore =>
      rw [hPc] at h
      obtain rfl : pos = p := Option.some.inj h
      exact .inr ⟨msg, hPc⟩

/-- Data of the callers that the choice does not name is left alone. -/
theorem weakPush_client (h : weakPush capacity t s l choice = some (s', l')) {w : ω}
    (hChoice : ∀ content, choice ≠ .use w content) :
    s'.memory.accesses (.client w) = s.memory.accesses (.client w) := by
  obtain ⟨V, calls, arg, pc⟩ := l
  cases pc <;> cases choice <;> simp only [weakPush, reduceCtorEq] at h
  case idle.use v content | returned.use v content =>
    cases h
    have hne : v ≠ w := fun hEq => hChoice content (by rw [hEq])
    simp [Shared.use, Memory.access, hne.symm]
  case loadTail.go msg time | casTail.fail msg before time =>
    obtain ⟨⟨pos, V'⟩, _, hAfter⟩ := Option.map_eq_some_iff.mp h
    cases hAfter
    rfl
  case loadSequence.go msg pos time =>
    obtain ⟨⟨seq, V'⟩, _, hAfter⟩ := Option.map_eq_some_iff.mp h
    simp only at hAfter
    split_ifs at hAfter <;> cases hAfter <;> rfl
  case casTail.go msg pos time =>
    obtain ⟨⟨memory, V'⟩, hSwap, hAfter⟩ := Option.map_eq_some_iff.mp h
    cases hAfter
    obtain ⟨m, _, _, _, _, rfl⟩ := Memory.exchange_eq_some (Memory.compareExchange_eq_some hSwap)
    rfl
  case publish.go msg pos time =>
    obtain ⟨⟨memory, V'⟩, hStore, hAfter⟩ := Option.map_eq_some_iff.mp h
    cases hAfter
    obtain ⟨_, _, _, rfl⟩ := Memory.store_eq_some hStore
    rfl
  case construct.go msg pos time =>
    cases h
    simp [Shared.use, Memory.access]
  all_goals
    cases h
    rfl

/-- A thread with a ticket knows that the tail is past it. -/
theorem WeakPushEffect.ticket_lt (effect : WeakPushEffect capacity t s l s' l')
    (coupled : Coupled capacity s)
    (h : ∀ pos, l.place.pc.ticket = some pos → pos + 1 ≤ l.view (.inl .tail)) :
    ∀ pos, l'.place.pc.ticket = some pos → pos + 1 ≤ l'.view (.inl .tail) := by
  have hLe := effect.le
  intro pos hPos
  cases effect with
  | calls | looks | publishes => cases hPos
  | uses w content hPc => exact (h pos hPos).trans (hLe _)
  | finds msg ticket time seq V pc hPc hLoad hNext =>
      obtain ⟨_, rfl⟩ | rfl | rfl := hNext <;> cases hPos
  | constructs msg ticket hPc =>
      obtain rfl : ticket = pos := Option.some.inj hPos
      exact (h ticket (by rw [hPc]; rfl)).trans (hLe _)
  | reserves msg ticket time memory V hPc hSwap =>
      obtain rfl : ticket = pos := Option.some.inj hPos
      obtain ⟨m, hWrite, hValue, _, rfl, _⟩ := Memory.exchange_eq_some hSwap
      obtain ⟨hTime, _⟩ := (Memory.counts_iff.mp coupled.tail time).1 m hWrite
      obtain rfl : ticket = time := hValue.symm.trans hTime
      exact View.le_sup_only_self (l.view.reading .relaxed .tail ticket m) .tail (ticket + 1)

end Steps

end LockFreeQueue
