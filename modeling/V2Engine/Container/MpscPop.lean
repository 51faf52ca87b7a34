import V2Engine.Container.Push
import Mathlib.Data.List.Range
import Mathlib.Data.List.Nodup

/-! `pop` and `popBatch` of `LockFreeMpscQueue`, which its one consumer runs without
a compare-and-swap: what one step does, and what the consumer and the producers know
after it. -/
namespace LockFreeMpscQueue

open TicketRing LockFreeQueue

variable {π α : Type*}

/-- Where a call of `pop` stands: the next access it makes. -/
inductive PopPc (α : Type*) where
  | idle
  | loadHead
  | loadSequence (pos : Nat)
  | take (pos : Nat)
  | storeHead (pos : Nat) (element : Option α)
  | release (pos : Nat) (element : Option α)
  | returned

/-- The consuming thread in `popBatch`, of which a single `pop` is the batch of one.
`remaining` is `maxCount - count`, and `out` what the caller's array holds so far. -/
structure Consumer (α : Type*) where
  remaining : Nat
  out : List (Option α)
  pc : PopPc α

def Consumer.start : Consumer α := ⟨0, [], .idle⟩

inductive PopChoice where
  | call (maxCount : Nat)
  | go

/-- The batch loop: another `pop` while there is room, otherwise return the count. -/
def Consumer.next (remaining : Nat) : PopPc α :=
  if remaining = 0 then .returned else .loadHead

def pop (capacity : Nat) (r : Unit) (s : State π Unit α) (l : Consumer α) (choice : PopChoice) :
    Option (State π Unit α × Consumer α) :=
  match l.pc, choice with
  | .idle, .call maxCount => some (s, ⟨maxCount, [], Consumer.next maxCount⟩)
  | .returned, .call maxCount => some (s, ⟨maxCount, [], Consumer.next maxCount⟩)
  | .loadHead, .go => some (s, { l with pc := .loadSequence s.head })
  | .loadSequence pos, .go =>
      let diff : Int := (s.sequence (pos % capacity) : Int) - (pos + 1 : Int)
      if diff ≠ 0 then some (s, { l with pc := .returned })
      else some (s.claim pos r, { l with pc := .take pos })
  | .take pos, .go =>
      let element := s.storage (pos % capacity)
      some (s.take capacity pos, { l with out := l.out ++ [element], pc := .storeHead pos element })
  | .storeHead pos element, .go =>
      some ({ s with head := pos + 1 }, { l with pc := .release pos element })
  | .release pos element, .go =>
      some (s.retire capacity pos ⟨r, pos, element⟩,
        { l with remaining := l.remaining - 1, pc := Consumer.next (l.remaining - 1) })
  | _, _ => none

/-- The consumer reads the tickets one after the other: those below the number of
completed pops are done, and at most the next one is being read. -/
structure Sequential (s : State π Unit α) : Prop where
  tickets_eq : s.popped.map Popped.ticket = List.range s.popped.length
  retired_iff : ∀ p, s.stage p = .retired ↔ p < s.popped.length
  claimed_eq : ∀ p, s.stage p = .claimed () → p = s.popped.length
  values : ∀ result ∈ s.popped, ∃ entry, s.pushed[result.ticket]? = some entry ∧
    result.value = some entry.value

theorem sequential_empty : Sequential (State.empty : State π Unit α) where
  tickets_eq := rfl
  retired_iff p := by simp [State.empty]
  claimed_eq p h := by simp [State.empty] at h
  values := by simp [State.empty]

/-- What was popped was read to the end. -/
theorem Sequential.retired_of_mem {s : State π Unit α} (sequential : Sequential s)
    {result : Popped Unit α} (hMem : result ∈ s.popped) : s.stage result.ticket = .retired := by
  have hTicket : result.ticket ∈ s.popped.map Popped.ticket := List.mem_map.mpr ⟨result, hMem, rfl⟩
  rw [sequential.tickets_eq] at hTicket
  exact (sequential.retired_iff _).mpr (List.mem_range.mp hTicket)

theorem Sequential.entry_of_getElem? {s : State π Unit α} (sequential : Sequential s) {n : Nat}
    {result : Popped Unit α} (h : s.popped[n]? = some result) :
    result.ticket = n ∧
      ∃ entry, s.pushed[n]? = some entry ∧ result.value = some entry.value := by
  have hTicket : (s.popped.map Popped.ticket)[n]? = some result.ticket := by simp [h]
  rw [sequential.tickets_eq, List.getElem?_range (List.getElem?_eq_some_iff.mp h).1] at hTicket
  obtain rfl : n = result.ticket := by simpa using hTicket
  exact ⟨rfl, sequential.values result (List.mem_of_getElem? h)⟩

/-- The elements that were read are the first ones that were accepted. -/
theorem Sequential.in_order {s : State π Unit α} (sequential : Sequential s) :
    s.popped.map Popped.value <+: s.pushed.map fun entry => some entry.value := by
  refine List.prefix_iff_getElem?.mpr fun i hi => ?_
  rw [List.length_map] at hi
  obtain ⟨_, entry, hEntry, hValue⟩ :=
    sequential.entry_of_getElem? (List.getElem?_eq_getElem hi)
  rw [List.getElem?_map, hEntry, List.getElem_map, hValue]
  rfl

/-- No ticket is being read. -/
def Unclaimed (s : State π Unit α) : Prop := ∀ p, s.stage p ≠ .claimed ()

/-- What the consumer knows about the ring at each point of `pop`. -/
def Consuming (capacity : Nat) (s : State π Unit α) (l : Consumer α) : Prop :=
  match l.pc with
  | .idle | .loadHead | .returned => s.head = s.popped.length ∧ Unclaimed s
  | .loadSequence pos => pos = s.popped.length ∧ s.head = s.popped.length ∧ Unclaimed s
  | .take pos => pos = s.popped.length ∧ s.stage pos = .claimed () ∧
      ∃ entry, s.pushed[pos]? = some entry ∧ s.storage (pos % capacity) = some entry.value
  | .storeHead pos element => pos = s.popped.length ∧ s.stage pos = .claimed () ∧
      s.storage (pos % capacity) = none ∧
      ∃ entry, s.pushed[pos]? = some entry ∧ element = some entry.value
  | .release pos element => pos = s.popped.length ∧ s.head = pos + 1 ∧
      s.stage pos = .claimed () ∧ s.storage (pos % capacity) = none ∧
      ∃ entry, s.pushed[pos]? = some entry ∧ element = some entry.value

/-- What the caller's array holds is what the latest pops have returned; the element
just moved out joins them when its slot is released. -/
def Collected (s : State π Unit α) (l : Consumer α) : Prop :=
  match l.pc with
  | .storeHead _ element | .release _ element =>
      ∃ before, l.out = before ++ [element] ∧ before <:+ s.popped.map Popped.value
  | _ => l.out <:+ s.popped.map Popped.value

section Steps

variable {capacity : Nat} {s s' : State π Unit α} {l l' : Consumer α} {choice : PopChoice}

/-- Everything one step of `pop` can do to the shared memory. -/
inductive PopEffect (capacity : Nat) (s : State π Unit α) : State π Unit α → Prop where
  | none : PopEffect capacity s s
  | claim (hNext : s.stage s.popped.length = .published) :
      PopEffect capacity s (s.claim s.popped.length ())
  | take (pos : Nat) (hReader : s.stage pos = .claimed ()) :
      PopEffect capacity s (s.take capacity pos)
  | advance (head : Nat) : PopEffect capacity s { s with head := head }
  | retire (element : Option α) (hReader : s.stage s.popped.length = .claimed ())
      (hTaken : s.storage (s.popped.length % capacity) = Option.none)
      (hElement : ∃ entry, s.pushed[s.popped.length]? = some entry ∧
        element = some entry.value) :
      PopEffect capacity s (s.retire capacity s.popped.length ⟨(), s.popped.length, element⟩)

/-- The consumer starts to read only a ticket whose element is there. -/
theorem published_of_sequence (valid : Valid capacity s) (hCapacity : 2 ≤ capacity)
    (unclaimed : Unclaimed s) {p : Nat} (h : s.sequence (p % capacity) = p + 1) :
    s.stage p = .published := by
  rcases valid.published_or_claimed hCapacity h with hStage | ⟨⟨⟩, hStage⟩
  · exact hStage
  · exact absurd hStage (unclaimed p)

theorem pop_effect (valid : Valid capacity s) (hCapacity : 2 ≤ capacity)
    (consuming : Consuming capacity s l) (h : pop capacity () s l choice = some (s', l')) :
    PopEffect capacity s s' := by
  obtain ⟨remaining, out, pc⟩ := l
  cases pc <;> cases choice <;> simp only [pop, reduceCtorEq] at h
  case loadSequence.go pos =>
    obtain ⟨hPos, _, unclaimed⟩ := consuming
    subst hPos
    split_ifs at h with hOther <;> cases h
    · exact .none
    · exact .claim (published_of_sequence valid hCapacity unclaimed (by omega))
  case take.go pos =>
    obtain ⟨_, hReader, _⟩ := consuming
    cases h
    exact .take pos hReader
  case storeHead.go pos element =>
    cases h
    exact .advance (pos + 1)
  case release.go pos element =>
    obtain ⟨hPos, _, hReader, hTaken, hElement⟩ := consuming
    subst hPos
    cases h
    exact .retire element hReader hTaken hElement
  all_goals
    cases h
    exact .none

theorem PopEffect.valid (valid : Valid capacity s) (hCapacity : 2 ≤ capacity)
    (effect : PopEffect capacity s s') : Valid capacity s' := by
  cases effect with
  | none => exact valid
  | claim hNext => exact valid.claim hNext ()
  | take pos hReader => exact valid.take hCapacity hReader
  | advance head => exact { valid with }
  | retire element hReader hTaken _ => exact valid.retire hCapacity hReader hTaken _

theorem PopEffect.pushed_eq (effect : PopEffect capacity s s') : s'.pushed = s.pushed := by
  cases effect <;> rfl

/-- A pop leaves every stage alone but the one of its own ticket. -/
theorem PopEffect.stage (effect : PopEffect capacity s s') (p : Nat) :
    s'.stage p = s.stage p ∨ s'.stage p = .claimed () ∨ s'.stage p = .retired := by
  cases effect with
  | none | take | advance => exact .inl rfl
  | claim hNext =>
      by_cases hp : p = s.popped.length
      · subst hp
        exact .inr (.inl (by simp [State.claim]))
      · exact .inl (Function.update_of_ne hp _ _)
  | retire element _ _ _ =>
      by_cases hp : p = s.popped.length
      · subst hp
        exact .inr (.inr (by simp [State.retire]))
      · exact .inl (Function.update_of_ne hp _ _)

/-- A pop touches no ticket that a producer holds. -/
theorem PopEffect.frame (valid : Valid capacity s) (hCapacity : 2 ≤ capacity)
    (effect : PopEffect capacity s s') :
    Frame capacity (fun stage => Occupied (.claimed ()) stage ∧ stage ≠ .published) s s' := by
  cases effect with
  | none => exact .refl _ _
  | claim hNext => exact (Valid.frame_claim hNext ()).mono fun stage h => ⟨h.1.1, h.2⟩
  | take pos hReader => exact (valid.frame_take hCapacity hReader).mono fun stage h => h.1
  | advance head =>
      have kept : Frame capacity (fun stage => Occupied (.claimed ()) stage ∧ stage ≠ .published)
          s s := .refl _ _
      exact { kept with }
  | retire element hReader _ _ =>
      exact (valid.frame_retire hCapacity hReader _).mono fun stage h => h.1

/-- A pop removes an element only from the slot of its own ticket. -/
theorem pop_storage (h : pop capacity () s l choice = some (s', l')) {i : Nat} {element : α}
    (hStored : s.storage i = some element) : s'.storage i = some element ∨
      ∃ pos, l.pc = .take pos ∧ pos % capacity = i := by
  obtain ⟨remaining, out, pc⟩ := l
  cases pc <;> cases choice <;> simp only [pop, reduceCtorEq] at h
  case loadSequence.go pos =>
    split_ifs at h <;> cases h <;> exact .inl hStored
  case take.go pos =>
    cases h
    by_cases hSlot : i = pos % capacity
    · exact .inr ⟨pos, rfl, hSlot.symm⟩
    · exact .inl (by simpa [State.take, Function.update_of_ne hSlot] using hStored)
  all_goals
    cases h
    exact .inl hStored

theorem PopEffect.sequential (effect : PopEffect capacity s s') (sequential : Sequential s) :
    Sequential s' := by
  cases effect with
  | none => exact sequential
  | take => exact { sequential with }
  | advance => exact { sequential with }
  | claim hNext =>
      exact { sequential with
        retired_iff := fun p => by
          by_cases hp : p = s.popped.length
          · subst hp
            simp [State.claim]
          · simpa [State.claim, Function.update_of_ne hp] using sequential.retired_iff p
        claimed_eq := fun p hp => by
          by_contra hOther
          have hNe : p ≠ s.popped.length := hOther
          refine hOther (sequential.claimed_eq p ?_)
          simpa [State.claim, Function.update_of_ne hNe] using hp }
  | retire element hReader _ hElement =>
      exact {
        tickets_eq := by
          simp [State.retire, List.range_succ, sequential.tickets_eq]
        retired_iff := fun p => by
          by_cases hp : p = s.popped.length
          · subst hp
            simp [State.retire]
          · simp only [State.retire, Function.update_of_ne hp, List.length_append,
              List.length_singleton, sequential.retired_iff p]
            omega
        claimed_eq := fun p hp => by
          obtain ⟨hOther, hOld⟩ := stage_kept hp (by simp)
          exact absurd (sequential.claimed_eq p hOld) hOther
        values := fun result hMem => by
          rcases List.mem_append.mp hMem with hOld | hNew
          · exact sequential.values result hOld
          · rw [List.mem_singleton] at hNew
            subst hNew
            exact hElement }

/-- A push changes nothing about the tickets read so far. -/
theorem sequential_of_push {t : π} {m : Producer α} (effect : PushEffect capacity t s m s')
    (valid : Valid capacity s) (hCapacity : 2 ≤ capacity) (sequential : Sequential s) :
    Sequential s' := by
  obtain ⟨_, _, hPopped⟩ := effect.reads_eq
  have frame := effect.frame valid hCapacity
  exact {
    tickets_eq := by rw [hPopped]; exact sequential.tickets_eq
    retired_iff := fun p => by
      rw [hPopped, ← sequential.retired_iff p]
      refine ⟨fun h => ?_, effect.retired valid⟩
      rcases effect.stage p with hStage | hStage | hStage <;> rw [hStage] at h
      · exact h
      · cases h
      · cases h
    claimed_eq := fun p h => by
      rw [hPopped]
      refine sequential.claimed_eq p ?_
      rcases effect.stage p with hStage | hStage | hStage <;> rw [hStage] at h
      · exact h
      · cases h
      · cases h
    values := fun result hMem => by
      rw [hPopped] at hMem
      obtain ⟨entry, hEntry, hValue⟩ := sequential.values result hMem
      exact ⟨entry, frame.entry hEntry, hValue⟩ }

theorem consuming_next (remaining remaining' : Nat) (out : List (Option α))
    (hHead : s.head = s.popped.length) (unclaimed : Unclaimed s) :
    Consuming capacity s ⟨remaining, out, Consumer.next remaining'⟩ := by
  unfold Consumer.next
  split <;> exact ⟨hHead, unclaimed⟩

/-- The consumer's own facts are re-established by its step. -/
theorem pop_consuming (valid : Valid capacity s) (hCapacity : 2 ≤ capacity)
    (sequential : Sequential s) (consuming : Consuming capacity s l)
    (h : pop capacity () s l choice = some (s', l')) : Consuming capacity s' l' := by
  obtain ⟨remaining, out, pc⟩ := l
  cases pc <;> cases choice <;> simp only [pop, reduceCtorEq] at h
  case idle.call | returned.call =>
    cases h
    exact consuming_next _ _ _ consuming.1 consuming.2
  case loadHead.go =>
    cases h
    exact ⟨consuming.1, consuming⟩
  case loadSequence.go pos =>
    obtain ⟨hPos, hHead, unclaimed⟩ := consuming
    split_ifs at h with hOther <;> cases h
    · exact ⟨hHead, unclaimed⟩
    · have hStage := published_of_sequence valid hCapacity unclaimed (p := pos) (by omega)
      have hLt : pos < s.pushed.length := by
        rw [valid.pushed_length]
        exact valid.lt_tail (by simp [hStage])
      refine ⟨hPos, by simp [State.claim], s.pushed[pos], List.getElem?_eq_getElem hLt, ?_⟩
      have hElement := valid.readable pos hStage
      rw [List.getElem?_eq_getElem hLt] at hElement
      exact hElement
  case take.go pos =>
    obtain ⟨hPos, hReader, entry, hEntry, hElement⟩ := consuming
    cases h
    exact ⟨hPos, hReader, by simp [State.take], entry, hEntry, hElement⟩
  case storeHead.go pos element =>
    obtain ⟨hPos, hReader, hTaken, hElement⟩ := consuming
    cases h
    exact ⟨hPos, rfl, hReader, hTaken, hElement⟩
  case release.go pos element =>
    obtain ⟨hPos, hHead, _⟩ := consuming
    cases h
    refine consuming_next _ _ _ (by simp [State.retire, hHead, hPos]) fun p hp => ?_
    obtain ⟨hOther, hOld⟩ := stage_kept hp (by simp)
    exact hOther ((sequential.claimed_eq p hOld).trans hPos.symm)

theorem collected_next (remaining remaining' : Nat) {out : List (Option α)}
    (h : out <:+ s.popped.map Popped.value) :
    Collected s ⟨remaining, out, Consumer.next remaining'⟩ := by
  unfold Consumer.next
  split <;> exact h

theorem pop_collected (collected : Collected s l)
    (h : pop capacity () s l choice = some (s', l')) : Collected s' l' := by
  obtain ⟨remaining, out, pc⟩ := l
  cases pc <;> cases choice <;> simp only [pop, reduceCtorEq] at h
  case idle.call | returned.call =>
    cases h
    exact collected_next _ _ List.nil_suffix
  case loadSequence.go pos =>
    split_ifs at h <;> cases h <;> exact collected
  case take.go pos =>
    cases h
    exact ⟨out, rfl, collected⟩
  case release.go pos element =>
    obtain ⟨before, hOut, front, hBefore⟩ := collected
    cases h
    refine collected_next _ _ ⟨front, ?_⟩
    simp only at hOut
    simp [State.retire, ← hBefore, hOut]
  all_goals
    cases h
    exact collected

/-- A push leaves the consumer's facts true. -/
theorem push_keeps_consumer {t : π} {m : Producer α} (effect : PushEffect capacity t s m s')
    (valid : Valid capacity s) (hCapacity : 2 ≤ capacity) (consuming : Consuming capacity s l)
    (collected : Collected s l) : Consuming capacity s' l ∧ Collected s' l := by
  obtain ⟨hHead, _, hPopped⟩ := effect.reads_eq
  have frame := effect.frame valid hCapacity
  have unclaimed : Unclaimed s → Unclaimed s' := fun h p hp => by
    rcases effect.stage p with hStage | hStage | hStage <;> rw [hStage] at hp
    · exact h p hp
    · cases hp
    · cases hp
  have kept : ∀ pos, s.stage pos = .claimed () → s'.stage pos = .claimed () ∧
      s'.storage (pos % capacity) = s.storage (pos % capacity) := fun pos h =>
    ⟨(frame.stage pos (by simp [Occupied, h])).trans h, frame.storage pos (by simp [Occupied, h])⟩
  refine ⟨?_, by unfold Collected; rw [hPopped]; exact collected⟩
  obtain ⟨remaining, out, pc⟩ := l
  cases pc with
  | idle | loadHead | returned =>
      exact ⟨by rw [hHead, hPopped]; exact consuming.1, unclaimed consuming.2⟩
  | loadSequence pos =>
      obtain ⟨hPos, hNext, hFree⟩ := consuming
      exact ⟨by rw [hPopped]; exact hPos, by rw [hHead, hPopped]; exact hNext, unclaimed hFree⟩
  | take pos =>
      obtain ⟨hPos, hReader, entry, hEntry, hElement⟩ := consuming
      obtain ⟨hReader', hStorage⟩ := kept pos hReader
      exact ⟨by rw [hPopped]; exact hPos, hReader', entry, frame.entry hEntry,
        hStorage.trans hElement⟩
  | storeHead pos element =>
      obtain ⟨hPos, hReader, hTaken, entry, hEntry, hElement⟩ := consuming
      obtain ⟨hReader', hStorage⟩ := kept pos hReader
      exact ⟨by rw [hPopped]; exact hPos, hReader', hStorage.trans hTaken, entry,
        frame.entry hEntry, hElement⟩
  | release pos element =>
      obtain ⟨hPos, hNext, hReader, hTaken, entry, hEntry, hElement⟩ := consuming
      obtain ⟨hReader', hStorage⟩ := kept pos hReader
      exact ⟨by rw [hPopped]; exact hPos, by rw [hHead]; exact hNext, hReader',
        hStorage.trans hTaken, entry, frame.entry hEntry, hElement⟩

/-- A pop keeps what every producer knows. -/
theorem PopEffect.keeps_producer {t : π} {m : Producer α} (effect : PopEffect capacity s s')
    (valid : Valid capacity s) (hCapacity : 2 ≤ capacity) (producing : Producing capacity s t m)
    (recorded : Recorded s t m) (owning : Owning s t m) :
    Producing capacity s' t m ∧ Recorded s' t m ∧ Owning s' t m := by
  refine ⟨producing.of_frame (effect.frame valid hCapacity) (by simp [Occupied]),
    recorded.of_entries fun entry hMem => .inl (effect.pushed_eq ▸ hMem),
    owning.of_stage fun p hp => ?_⟩
  rcases effect.stage p with hStage | hStage | hStage <;> rw [hStage] at hp
  · exact hp
  · cases hp
  · cases hp

end Steps

end LockFreeMpscQueue
