import V2Engine.Container.Push
import Mathlib.Data.List.Range
import Mathlib.Data.List.Nodup

/-! `pop` and `popBatch` of `LockFreeMpmcQueue`, where consumers compete for tickets
by a compare-and-swap on the head: what one step does, and what the stepping thread
and all the others know after it. -/
namespace LockFreeMpmcQueue

open TicketRing LockFreeQueue

variable {π γ α : Type*}

/-- Where a call of `pop` stands: the next access it makes. -/
inductive PopPc (α : Type*) where
  | idle
  | loadHead
  | loadSequence (pos : Nat)
  | casHead (pos : Nat)
  | take (pos : Nat)
  | release (pos : Nat) (element : Option α)
  | returned

/-- A consuming thread in `popBatch`, of which a single `pop` is the batch of one.
`remaining` is `maxCount - count`, and `out` what the caller's array holds so far. -/
structure Consumer (α : Type*) where
  remaining : Nat
  out : List (Option α)
  pc : PopPc α

def Consumer.start : Consumer α := ⟨0, [], .idle⟩

inductive PopChoice where
  | call (maxCount : Nat)
  | go
  | spurious

/-- The batch loop: another `pop` while there is room, otherwise return the count. -/
def Consumer.next (remaining : Nat) : PopPc α :=
  if remaining = 0 then .returned else .loadHead

def pop (capacity : Nat) (r : γ) (s : State π γ α) (l : Consumer α) (choice : PopChoice) :
    Option (State π γ α × Consumer α) :=
  match l.pc, choice with
  | .idle, .call maxCount => some (s, ⟨maxCount, [], Consumer.next maxCount⟩)
  | .returned, .call maxCount => some (s, ⟨maxCount, [], Consumer.next maxCount⟩)
  | .loadHead, .go => some (s, { l with pc := .loadSequence s.head })
  | .loadSequence pos, .go =>
      let diff : Int := (s.sequence (pos % capacity) : Int) - (pos + 1 : Int)
      if diff = 0 then some (s, { l with pc := .casHead pos })
      else if diff < 0 then some (s, { l with pc := .returned })
      else some (s, { l with pc := .loadHead })
  | .casHead pos, .go =>
      if s.head = pos then some ({ s.claim pos r with head := pos + 1 }, { l with pc := .take pos })
      else some (s, { l with pc := .loadSequence s.head })
  | .casHead _, .spurious => some (s, { l with pc := .loadSequence s.head })
  | .take pos, .go =>
      let element := s.storage (pos % capacity)
      some (s.take capacity pos, { l with out := l.out ++ [element], pc := .release pos element })
  | .release pos element, .go =>
      some (s.retire capacity pos ⟨r, pos, element⟩,
        { l with remaining := l.remaining - 1, pc := Consumer.next (l.remaining - 1) })
  | _, _ => none

def PopPc.ticket : PopPc α → Option Nat
  | .take pos | .release pos _ => some pos
  | _ => none

/-- The ticket sequence as seen from the head: which tickets were claimed, and what
the completed pops returned. -/
structure Claimed (s : State π γ α) : Prop where
  claims_eq : s.claims = List.range s.head
  passed : ∀ p, p < s.head ↔ (∃ r, s.stage p = .claimed r) ∨ s.stage p = .retired
  popped_nodup : (s.popped.map Popped.ticket).Nodup
  popped_retired : ∀ result ∈ s.popped, s.stage result.ticket = .retired ∧
    ∃ entry, s.pushed[result.ticket]? = some entry ∧ result.value = some entry.value
  retired_popped : ∀ p, s.stage p = .retired → ∃ result ∈ s.popped, result.ticket = p

theorem claimed_empty : Claimed (State.empty : State π γ α) where
  claims_eq := rfl
  passed p := by simp [State.empty]
  popped_nodup := List.nodup_nil
  popped_retired := by simp [State.empty]
  retired_popped p h := by simp [State.empty] at h

/-- What a consuming thread knows about the ring at each point of `pop`. -/
def Consuming (capacity : Nat) (s : State π γ α) (r : γ) (l : Consumer α) : Prop :=
  match l.pc with
  | .idle | .loadHead | .returned => True
  | .loadSequence pos => pos ≤ s.head
  | .casHead pos => pos ≤ s.head ∧ (pos = s.head → s.stage pos = .published)
  | .take pos => s.stage pos = .claimed r ∧
      ∃ entry, s.pushed[pos]? = some entry ∧ s.storage (pos % capacity) = some entry.value
  | .release pos element => s.stage pos = .claimed r ∧ s.storage (pos % capacity) = none ∧
      ∃ entry, s.pushed[pos]? = some entry ∧ element = some entry.value

/-- What the caller's array holds is what this thread's latest pops have returned; the
element just moved out joins them when its slot is released. -/
def Collected [DecidableEq γ] (s : State π γ α) (r : γ) (l : Consumer α) : Prop :=
  match l.pc with
  | .release _ element => ∃ before, l.out = before ++ [element] ∧ before <:+ s.poppedBy r
  | _ => l.out <:+ s.poppedBy r

/-- A ticket claimed by this thread is the one its present call holds. -/
def Holding (s : State π γ α) (r : γ) (l : Consumer α) : Prop :=
  ∀ p, s.stage p = .claimed r → l.pc.ticket = some p

section Steps

variable {capacity : Nat} {s s' : State π γ α} {r : γ} {l l' : Consumer α} {choice : PopChoice}

/-- Everything one step of `pop` can do to the shared memory. -/
inductive PopEffect (capacity : Nat) (r : γ) (s : State π γ α) : State π γ α → Prop where
  | none : PopEffect capacity r s s
  | claim (hPublished : s.stage s.head = .published) :
      PopEffect capacity r s { s.claim s.head r with head := s.head + 1 }
  | take (pos : Nat) (hReader : s.stage pos = .claimed r) :
      PopEffect capacity r s (s.take capacity pos)
  | retire (pos : Nat) (element : Option α) (hReader : s.stage pos = .claimed r)
      (hTaken : s.storage (pos % capacity) = Option.none)
      (hElement : ∃ entry, s.pushed[pos]? = some entry ∧ element = some entry.value) :
      PopEffect capacity r s (s.retire capacity pos ⟨r, pos, element⟩)

theorem pop_effect (consuming : Consuming capacity s r l)
    (h : pop capacity r s l choice = some (s', l')) : PopEffect capacity r s s' := by
  obtain ⟨remaining, out, pc⟩ := l
  cases pc <;> cases choice <;> simp only [pop, reduceCtorEq] at h
  case loadSequence.go pos =>
    split_ifs at h <;> cases h <;> exact .none
  case casHead.go pos =>
    obtain ⟨_, hPublished⟩ := consuming
    split_ifs at h with hHead
    · cases h
      subst hHead
      exact .claim (hPublished rfl)
    · cases h
      exact .none
  case take.go pos =>
    obtain ⟨hReader, _⟩ := consuming
    cases h
    exact .take pos hReader
  case release.go pos element =>
    obtain ⟨hReader, hTaken, hElement⟩ := consuming
    cases h
    exact .retire pos element hReader hTaken hElement
  all_goals
    cases h
    exact .none

theorem PopEffect.valid (valid : Valid capacity s) (hCapacity : 2 ≤ capacity)
    (effect : PopEffect capacity r s s') : Valid capacity s' := by
  cases effect with
  | none => exact valid
  | claim hPublished => exact { valid.claim hPublished r with }
  | take pos hReader => exact valid.take hCapacity hReader
  | retire pos element hReader hTaken _ => exact valid.retire hCapacity hReader hTaken _

theorem PopEffect.pushed_eq (effect : PopEffect capacity r s s') : s'.pushed = s.pushed := by
  cases effect <;> rfl

theorem PopEffect.head_le (effect : PopEffect capacity r s s') : s.head ≤ s'.head := by
  cases effect with
  | claim => exact Nat.le_succ _
  | none | take | retire => exact Nat.le_refl _

/-- A pop leaves every stage alone but the one of its own ticket. -/
theorem PopEffect.stage (effect : PopEffect capacity r s s') (p : Nat) :
    s'.stage p = s.stage p ∨ s'.stage p = .claimed r ∨ s'.stage p = .retired := by
  cases effect with
  | none | take => exact .inl rfl
  | claim hPublished =>
      by_cases hp : p = s.head
      · subst hp
        exact .inr (.inl (by simp [State.claim]))
      · exact .inl (Function.update_of_ne hp _ _)
  | retire pos element _ _ _ =>
      by_cases hp : p = pos
      · subst hp
        exact .inr (.inr (by simp [State.retire]))
      · exact .inl (Function.update_of_ne hp _ _)

/-- A pop touches no ticket that another thread holds, and no published ticket
except the one it claims at the head. -/
theorem PopEffect.frame (valid : Valid capacity s) (hCapacity : 2 ≤ capacity)
    (effect : PopEffect capacity r s s') :
    Frame capacity (fun stage => Occupied (.claimed r) stage ∧ stage ≠ .published) s s' := by
  cases effect with
  | none => exact .refl _ _
  | claim hPublished =>
      have kept : Frame capacity (fun stage => Occupied (.claimed r) stage ∧ stage ≠ .published)
          s (s.claim s.head r) :=
        (Valid.frame_claim hPublished r).mono fun stage h => ⟨h.1.1, h.2⟩
      exact { kept with }
  | take pos hReader =>
      exact (valid.frame_take hCapacity hReader).mono fun stage h => h.1
  | retire pos element hReader _ _ =>
      exact (valid.frame_retire hCapacity hReader _).mono fun stage h => h.1

theorem PopEffect.published (effect : PopEffect capacity r s s') (hHead : s'.head = s.head)
    {p : Nat} (h : s.stage p = .published) : s'.stage p = .published := by
  cases effect with
  | none | take => exact h
  | claim => exact absurd hHead (Nat.succ_ne_self _)
  | retire pos element hReader _ _ =>
      have hp : p ≠ pos := fun hEq => by
        subst hEq
        exact absurd (h.symm.trans hReader) (by simp)
      simpa [State.retire, Function.update_of_ne hp] using h

/-- A pop removes an element only from the slot of the ticket it claimed. -/
theorem pop_storage (h : pop capacity r s l choice = some (s', l')) {i : Nat} {element : α}
    (hStored : s.storage i = some element) : s'.storage i = some element ∨
      ∃ pos, l.pc = .take pos ∧ pos % capacity = i := by
  obtain ⟨remaining, out, pc⟩ := l
  cases pc <;> cases choice <;> simp only [pop, reduceCtorEq] at h
  case loadSequence.go pos =>
    split_ifs at h <;> cases h <;> exact .inl hStored
  case casHead.go pos =>
    split_ifs at h <;> cases h <;> exact .inl hStored
  case take.go pos =>
    cases h
    by_cases hSlot : i = pos % capacity
    · exact .inr ⟨pos, rfl, hSlot.symm⟩
    · exact .inl (by simpa [State.take, Function.update_of_ne hSlot] using hStored)
  all_goals
    cases h
    exact .inl hStored

theorem PopEffect.claimed (effect : PopEffect capacity r s s') (claimed : Claimed s) :
    Claimed s' := by
  cases effect with
  | none => exact claimed
  | claim hPublished =>
      exact {
        claims_eq := by simp [State.claim, claimed.claims_eq, List.range_succ]
        passed := fun p => by
          by_cases hp : p = s.head
          · subst hp
            simp [State.claim]
          · have := claimed.passed p
            simp only [State.claim, Function.update_of_ne hp]
            rw [← this]
            omega
        popped_nodup := claimed.popped_nodup
        popped_retired := fun result hMem => by
          obtain ⟨hRetired, hEntry⟩ := claimed.popped_retired result hMem
          have hp : result.ticket ≠ s.head := fun hEq => by
            rw [hEq] at hRetired
            exact absurd (hPublished.symm.trans hRetired) (by simp)
          exact ⟨by simpa [State.claim, Function.update_of_ne hp] using hRetired, hEntry⟩
        retired_popped := fun p hp => claimed.retired_popped p (stage_kept hp (by simp)).2 }
  | take pos hReader => exact { claimed with }
  | retire pos element hReader _ hElement =>
      have hFresh : ∀ result ∈ s.popped, result.ticket ≠ pos := fun result hMem hEq => by
        have hRetired := (claimed.popped_retired result hMem).1
        rw [hEq] at hRetired
        exact absurd (hReader.symm.trans hRetired) (by simp)
      exact {
        claims_eq := claimed.claims_eq
        passed := fun p => by
          by_cases hp : p = pos
          · subst hp
            simpa [State.retire, hReader] using claimed.passed p
          · simpa [State.retire, Function.update_of_ne hp] using claimed.passed p
        popped_nodup := by
          simp only [State.retire, List.map_append, List.map_cons, List.map_nil]
          refine List.nodup_append.mpr ⟨claimed.popped_nodup, by simp, ?_⟩
          intro p hp q hq hEq
          obtain ⟨result, hMem, rfl⟩ := List.mem_map.mp hp
          rw [List.mem_singleton] at hq
          exact hFresh result hMem (hEq.trans hq)
        popped_retired := fun result hMem => by
          rcases List.mem_append.mp hMem with hOld | hNew
          · obtain ⟨hRetired, hEntry⟩ := claimed.popped_retired result hOld
            refine ⟨?_, hEntry⟩
            simpa [State.retire, Function.update_of_ne (hFresh result hOld)] using hRetired
          · rw [List.mem_singleton] at hNew
            subst hNew
            exact ⟨by simp [State.retire], hElement⟩
        retired_popped := fun p hp => by
          by_cases hEq : p = pos
          · exact ⟨⟨r, pos, element⟩, by simp [State.retire], hEq.symm⟩
          · have hOld : s.stage p = .retired := by
              simpa [State.retire, Function.update_of_ne hEq] using hp
            obtain ⟨result, hMem, hTicket⟩ := claimed.retired_popped p hOld
            exact ⟨result, List.mem_append_left _ hMem, hTicket⟩ }

theorem consuming_next (remaining remaining' : Nat) (out : List (Option α)) :
    Consuming capacity s r ⟨remaining, out, Consumer.next remaining'⟩ := by
  unfold Consumer.next
  split <;> trivial

/-- The stepping consumer's own facts are re-established. -/
theorem pop_consuming (valid : Valid capacity s) (hCapacity : 2 ≤ capacity) (claimed : Claimed s)
    (consuming : Consuming capacity s r l) (h : pop capacity r s l choice = some (s', l')) :
    Consuming capacity s' r l' := by
  obtain ⟨remaining, out, pc⟩ := l
  cases pc <;> cases choice <;> simp only [pop, reduceCtorEq] at h
  case idle.call | returned.call =>
    cases h
    exact consuming_next _ _ _
  case loadHead.go | casHead.spurious =>
    cases h
    exact Nat.le_refl _
  case loadSequence.go pos =>
    split_ifs at h with hZero hBehind <;> cases h
    · refine ⟨consuming, fun hHead => ?_⟩
      rcases valid.published_or_claimed hCapacity (p := pos) (by omega) with hStage | hStage
      · exact hStage
      · have := (claimed.passed pos).mpr (.inl hStage)
        omega
    · trivial
    · trivial
  case casHead.go pos =>
    obtain ⟨_, hPublished⟩ := consuming
    split_ifs at h with hHead <;> cases h
    · have hStage := hPublished hHead.symm
      have hLt : pos < s.pushed.length := by
        rw [valid.pushed_length]
        exact valid.lt_tail (by simp [hStage])
      refine ⟨by simp [State.claim], s.pushed[pos], List.getElem?_eq_getElem hLt, ?_⟩
      have hElement := valid.readable pos hStage
      rw [List.getElem?_eq_getElem hLt] at hElement
      exact hElement
    · exact Nat.le_refl _
  case take.go pos =>
    obtain ⟨hReader, entry, hEntry, hElement⟩ := consuming
    cases h
    exact ⟨hReader, by simp [State.take], entry, hEntry, hElement⟩
  case release.go pos element =>
    cases h
    exact consuming_next _ _ _

theorem pop_holding (consuming : Consuming capacity s r l) (holding : Holding s r l)
    (h : pop capacity r s l choice = some (s', l')) : Holding s' r l' := by
  obtain ⟨remaining, out, pc⟩ := l
  cases pc <;> cases choice <;> simp only [pop, reduceCtorEq] at h
  case idle.call | returned.call =>
    cases h
    exact fun p hp => absurd (holding p hp) (by simp [PopPc.ticket])
  case loadSequence.go pos =>
    split_ifs at h <;> cases h <;> exact fun p hp => absurd (holding p hp) (by simp [PopPc.ticket])
  case casHead.go pos =>
    split_ifs at h with hHead <;> cases h
    · intro p hp
      by_cases hEq : p = pos
      · simp [PopPc.ticket, hEq]
      · have hOld : s.stage p = .claimed r := by
          simpa [State.claim, Function.update_of_ne hEq] using hp
        exact absurd (holding p hOld) (by simp [PopPc.ticket])
    · exact fun p hp => absurd (holding p hp) (by simp [PopPc.ticket])
  case release.go pos element =>
    cases h
    intro p hp
    obtain ⟨hne, hOld⟩ := stage_kept hp (by simp)
    have hTicket : pos = p := by simpa [PopPc.ticket] using holding p hOld
    exact absurd hTicket.symm hne
  all_goals
    cases h
    exact fun p hp => by simpa [PopPc.ticket] using holding p hp

theorem poppedBy_retire [DecidableEq γ] (s : State π γ α) (capacity pos : Nat) (r u : γ)
    (element : Option α) : (s.retire capacity pos ⟨r, pos, element⟩).poppedBy u =
      if u = r then s.poppedBy u ++ [element] else s.poppedBy u := by
  by_cases hu : u = r
  · simp [State.poppedBy, State.retire, List.filter_append, hu]
  · simp [State.poppedBy, State.retire, List.filter_append, hu, Ne.symm hu]

theorem collected_next [DecidableEq γ] (remaining remaining' : Nat) {out : List (Option α)}
    (h : out <:+ s.poppedBy r) : Collected s r ⟨remaining, out, Consumer.next remaining'⟩ := by
  unfold Consumer.next
  split <;> exact h

theorem pop_collected [DecidableEq γ] (collected : Collected s r l)
    (h : pop capacity r s l choice = some (s', l')) : Collected s' r l' := by
  obtain ⟨remaining, out, pc⟩ := l
  cases pc <;> cases choice <;> simp only [pop, reduceCtorEq] at h
  case idle.call | returned.call =>
    cases h
    exact collected_next _ _ List.nil_suffix
  case loadSequence.go pos =>
    split_ifs at h <;> cases h <;> exact collected
  case casHead.go pos =>
    split_ifs at h <;> cases h <;> exact collected
  case take.go pos =>
    cases h
    exact ⟨out, rfl, collected⟩
  case release.go pos element =>
    obtain ⟨before, hOut, front, hBefore⟩ := collected
    cases h
    refine collected_next _ _ ⟨front, ?_⟩
    rw [poppedBy_retire, if_pos rfl, ← hBefore]
    simp only at hOut
    rw [hOut, List.append_assoc]
  all_goals
    cases h
    exact collected

theorem Collected.of_poppedBy [DecidableEq γ] (collected : Collected s r l)
    (h : s'.poppedBy r = s.poppedBy r) : Collected s' r l := by
  unfold Collected
  rw [h]
  exact collected

theorem PopEffect.poppedBy_ne [DecidableEq γ] (effect : PopEffect capacity r s s') {u : γ}
    (hne : u ≠ r) : s'.poppedBy u = s.poppedBy u := by
  cases effect with
  | none | claim | take => rfl
  | retire pos element _ _ _ => rw [poppedBy_retire, if_neg hne]

/-- Another thread's step leaves a consumer's facts true. -/
theorem Consuming.of_frame {kept : Stage π γ → Prop} (consuming : Consuming capacity s r l)
    (frame : Frame capacity kept s s') (hMine : kept (.claimed r)) (hHead : s.head ≤ s'.head)
    (hPublished : s'.head = s.head → s.stage s.head = .published →
      s'.stage s.head = .published) : Consuming capacity s' r l := by
  obtain ⟨remaining, out, pc⟩ := l
  cases pc with
  | idle | loadHead | returned => trivial
  | loadSequence pos => exact Nat.le_trans consuming hHead
  | casHead pos =>
      obtain ⟨hPos, hStage⟩ := consuming
      refine ⟨hPos.trans hHead, fun hEq => ?_⟩
      have hSame : pos = s.head := by omega
      subst hSame
      exact hPublished hEq.symm (hStage rfl)
  | take pos =>
      obtain ⟨hReader, entry, hEntry, hElement⟩ := consuming
      exact ⟨(frame.stage pos (hReader ▸ hMine)).trans hReader, entry, frame.entry hEntry,
        (frame.storage pos (hReader ▸ hMine)).trans hElement⟩
  | release pos element =>
      obtain ⟨hReader, hTaken, entry, hEntry, hElement⟩ := consuming
      exact ⟨(frame.stage pos (hReader ▸ hMine)).trans hReader,
        (frame.storage pos (hReader ▸ hMine)).trans hTaken, entry, frame.entry hEntry, hElement⟩

/-- A push changes nothing about the tickets already claimed. -/
theorem claimed_of_push {t : π} {l : Producer α} (effect : PushEffect capacity t s l s')
    (valid : Valid capacity s) (hCapacity : 2 ≤ capacity) (claimed : Claimed s) :
    Claimed s' := by
  obtain ⟨hHead, hClaims, hPopped⟩ := effect.reads_eq
  have frame := effect.frame valid hCapacity
  have hClaimed : ∀ p r, s'.stage p = .claimed r ↔ s.stage p = .claimed r := by
    intro p r
    refine ⟨fun h => ?_, fun h => (frame.stage p (by simp [Occupied, h])).trans h⟩
    rcases effect.stage p with hStage | hStage | hStage <;> rw [hStage] at h
    · exact h
    · cases h
    · cases h
  have hRetired : ∀ p, s'.stage p = .retired ↔ s.stage p = .retired := by
    intro p
    refine ⟨fun h => ?_, fun h => ?_⟩
    · rcases effect.stage p with hStage | hStage | hStage <;> rw [hStage] at h
      · exact h
      · cases h
      · cases h
    · exact effect.retired valid h
  exact {
    claims_eq := by rw [hClaims, hHead, claimed.claims_eq]
    passed := fun p => by simp only [hHead, claimed.passed p, hClaimed, hRetired]
    popped_nodup := by rw [hPopped]; exact claimed.popped_nodup
    popped_retired := fun result hMem => by
      rw [hPopped] at hMem
      obtain ⟨hStage, entry, hEntry, hValue⟩ := claimed.popped_retired result hMem
      exact ⟨(hRetired _).mpr hStage, entry, frame.entry hEntry, hValue⟩
    retired_popped := fun p hp => by
      rw [hPopped]
      exact claimed.retired_popped p ((hRetired p).mp hp) }

/-- A push by a producer keeps what every consumer knows. -/
theorem push_keeps_consumer {t : π} {m : Producer α} (effect : PushEffect capacity t s m s')
    (valid : Valid capacity s) (hCapacity : 2 ≤ capacity) (consuming : Consuming capacity s r l)
    (holding : Holding s r l) : Consuming capacity s' r l ∧ Holding s' r l := by
  have frame := effect.frame valid hCapacity
  refine ⟨consuming.of_frame frame (by simp [Occupied]) effect.reads_eq.1.ge fun _ h => ?_,
    fun p hp => ?_⟩
  · exact (frame.stage _ (by simp [Occupied, h])).trans h
  · rcases effect.stage p with hStage | hStage | hStage <;> rw [hStage] at hp
    · exact holding p hp
    · cases hp
    · cases hp

/-- A pop by one consumer keeps what every other consumer knows. -/
theorem PopEffect.keeps_consumer {u : γ} {m : Consumer α} (effect : PopEffect capacity r s s')
    (valid : Valid capacity s) (hCapacity : 2 ≤ capacity) (hne : u ≠ r)
    (consuming : Consuming capacity s u m) (holding : Holding s u m) :
    Consuming capacity s' u m ∧ Holding s' u m := by
  refine ⟨consuming.of_frame (effect.frame valid hCapacity) (by simpa [Occupied] using hne)
    effect.head_le fun hHead h => effect.published hHead h, fun p hp => ?_⟩
  rcases effect.stage p with hStage | hStage | hStage <;> rw [hStage] at hp
  · exact holding p hp
  · exact absurd hp (by simpa using hne.symm)
  · cases hp

/-- A pop keeps what every producer knows. -/
theorem PopEffect.keeps_producer {t : π} {m : Producer α} (effect : PopEffect capacity r s s')
    (valid : Valid capacity s) (hCapacity : 2 ≤ capacity) (producing : Producing capacity s t m)
    (recorded : Recorded s t m) (owning : Owning s t m) :
    Producing capacity s' t m ∧ Recorded s' t m ∧ Owning s' t m := by
  refine ⟨producing.of_frame (effect.frame valid hCapacity) (by simp [Occupied]),
    recorded.of_entries fun entry hMem => .inl (effect.pushed_eq ▸ hMem),
    owning.of_stage fun p hp => ?_⟩
  rcases effect.stage p with hStage | hStage | hStage <;> rw [hStage] at hp
  · exact hp
  · cases hp
  · cases hp

end Steps

end LockFreeMpmcQueue
