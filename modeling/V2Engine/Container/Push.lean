import V2Engine.Ring.Frame

/-! `push` of `LockFreeMpscQueue` and of `LockFreeMpmcQueue`, one atomic access to
the shared memory at a time. The two classes have the same text here; they differ
in `pop`. -/
namespace LockFreeQueue

open TicketRing

variable {π γ α : Type*}

/-- Where a call of `push` stands: the next access it makes. -/
inductive PushPc (α : Type*) where
  | idle
  | loadTail (msg : α)
  | loadSequence (msg : α) (pos : Nat)
  | casTail (msg : α) (pos : Nat)
  | construct (msg : α) (pos : Nat)
  | publish (msg : α) (pos : Nat)
  | returned (msg : α) (ok : Bool)

/-- A producing thread. `arg` is the caller's object, `none` once it was moved from,
and `calls` counts the calls this thread has begun. -/
structure Producer (α : Type*) where
  calls : Nat
  arg : Option α
  pc : PushPc α

def Producer.start : Producer α := ⟨0, none, .idle⟩

/-- `spurious` is the failure `compare_exchange_weak` may report although the tail
is still the expected one. -/
inductive PushChoice (α : Type*) where
  | call (msg : α)
  | go
  | spurious

def push (capacity : Nat) (t : π) (s : State π γ α) (l : Producer α) (choice : PushChoice α) :
    Option (State π γ α × Producer α) :=
  match l.pc, choice with
  | .idle, .call msg => some (s, ⟨l.calls + 1, some msg, .loadTail msg⟩)
  | .returned _ _, .call msg => some (s, ⟨l.calls + 1, some msg, .loadTail msg⟩)
  | .loadTail msg, .go => some (s, { l with pc := .loadSequence msg s.tail })
  | .loadSequence msg pos, .go =>
      let diff : Int := (s.sequence (pos % capacity) : Int) - (pos : Int)
      if diff = 0 then some (s, { l with pc := .casTail msg pos })
      else if diff < 0 then some (s, { l with pc := .returned msg false })
      else some (s, { l with pc := .loadTail msg })
  | .casTail msg pos, .go =>
      if s.tail = pos then
        some (s.reserve ⟨t, l.calls, msg⟩, { l with pc := .construct msg pos })
      else some (s, { l with pc := .loadSequence msg s.tail })
  | .casTail msg _, .spurious => some (s, { l with pc := .loadSequence msg s.tail })
  | .construct msg pos, .go =>
      some (s.construct capacity pos l.arg, { l with arg := none, pc := .publish msg pos })
  | .publish msg pos, .go =>
      some (s.publish capacity pos, { l with pc := .returned msg true })
  | _, _ => none

/-- The call has been begun and has no ticket yet. -/
def PushPc.waiting : PushPc α → Prop
  | .loadTail _ | .loadSequence _ _ | .casTail _ _ => True
  | _ => False

/-- The ticket the call holds. -/
def PushPc.ticket : PushPc α → Option Nat
  | .construct _ pos | .publish _ pos => some pos
  | _ => none

/-- What a producing thread knows about the ring at each point of `push`. -/
def Producing (capacity : Nat) (s : State π γ α) (t : π) (l : Producer α) : Prop :=
  match l.pc with
  | .idle => True
  | .loadTail msg => l.arg = some msg
  | .loadSequence msg pos => l.arg = some msg ∧ pos ≤ s.tail
  | .casTail msg pos => l.arg = some msg ∧ pos ≤ s.tail ∧
      (pos = s.tail → s.sequence (pos % capacity) = pos)
  | .construct msg pos => l.arg = some msg ∧ s.stage pos = .reserved t ∧
      s.storage (pos % capacity) = none ∧ s.pushed[pos]? = some (Entry.mk t l.calls msg)
  | .publish msg pos => l.arg = none ∧ s.stage pos = .reserved t ∧
      s.storage (pos % capacity) = some msg ∧ s.pushed[pos]? = some (Entry.mk t l.calls msg)
  | .returned msg true => l.arg = none ∧ ∃ pos : Nat, s.pushed[pos]? = some (Entry.mk t l.calls msg)
  | .returned msg false => l.arg = some msg

/-- Every element this thread had accepted belongs to one of its own calls, and
to an earlier one while the present call has no ticket. -/
def Recorded (s : State π γ α) (t : π) (l : Producer α) : Prop :=
  ∀ entry ∈ s.pushed, entry.producer = t →
    entry.call ≤ l.calls ∧ (l.pc.waiting → entry.call < l.calls)

/-- A ticket reserved for this thread is the one its present call holds. -/
def Owning (s : State π γ α) (t : π) (l : Producer α) : Prop :=
  ∀ p, s.stage p = .reserved t → l.pc.ticket = some p

/-- The list of accepted elements has every producer's elements in call order. -/
def Ordered (s : State π γ α) : Prop :=
  s.pushed.Pairwise fun first second =>
    first.producer = second.producer → first.call < second.call

theorem ordered_empty : Ordered (State.empty : State π γ α) := List.Pairwise.nil

theorem producer_start (capacity : Nat) (t : π) :
    Producing capacity (State.empty : State π γ α) t Producer.start ∧
      Recorded (State.empty : State π γ α) t Producer.start ∧
      Owning (State.empty : State π γ α) t Producer.start := by
  refine ⟨trivial, fun entry hMem => ?_, fun p hp => ?_⟩
  · cases hMem
  · cases hp

/-- The producer is between calls. -/
def Producer.Quiet (l : Producer α) : Prop :=
  l.pc = .idle ∨ ∃ msg ok, l.pc = .returned msg ok

theorem Producer.Quiet.ticket {l : Producer α} (quiet : l.Quiet) : l.pc.ticket = none := by
  obtain h | ⟨msg, ok, h⟩ := quiet <;> simp [h, PushPc.ticket]

section Steps

variable {capacity : Nat} {s s' : State π γ α} {t : π} {l l' : Producer α}
  {choice : PushChoice α}

theorem ordered_reserve (ordered : Ordered s) {entry : Entry π α}
    (h : ∀ before ∈ s.pushed, before.producer = entry.producer → before.call < entry.call) :
    Ordered (s.reserve entry) := by
  refine List.pairwise_append.mpr ⟨ordered, List.pairwise_singleton _ _, ?_⟩
  intro before hMem after hAfter hSame
  rw [List.mem_singleton] at hAfter
  subst hAfter
  exact h before hMem hSame

/-- Everything one step of `push` can do to the shared memory. -/
inductive PushEffect (capacity : Nat) (t : π) (s : State π γ α) (l : Producer α) :
    State π γ α → Prop where
  | none : PushEffect capacity t s l s
  | reserve (msg : α) (hTail : s.sequence (s.tail % capacity) = s.tail)
      (hPc : l.pc.waiting) : PushEffect capacity t s l (s.reserve ⟨t, l.calls, msg⟩)
  | construct (pos : Nat) (hOwner : s.stage pos = .reserved t)
      (hVacant : s.storage (pos % capacity) = Option.none) :
      PushEffect capacity t s l (s.construct capacity pos l.arg)
  | publish (pos : Nat) (hOwner : s.stage pos = .reserved t)
      (hElement : s.storage (pos % capacity) = s.pushed[pos]?.map Entry.value) :
      PushEffect capacity t s l (s.publish capacity pos)

theorem push_effect (producing : Producing capacity s t l)
    (h : push capacity t s l choice = some (s', l')) : PushEffect capacity t s l s' := by
  obtain ⟨calls, arg, pc⟩ := l
  cases pc <;> cases choice <;> simp only [push, reduceCtorEq] at h
  case loadSequence.go msg pos =>
    split_ifs at h <;> cases h <;> exact .none
  case casTail.go msg pos =>
    obtain ⟨_, _, hOpen⟩ := producing
    split_ifs at h with hTail
    · cases h
      subst hTail
      exact .reserve msg (hOpen rfl) trivial
    · cases h
      exact .none
  case construct.go msg pos =>
    obtain ⟨_, hOwner, hVacant, _⟩ := producing
    cases h
    exact .construct pos hOwner hVacant
  case publish.go msg pos =>
    obtain ⟨_, hOwner, hElement, hEntry⟩ := producing
    cases h
    exact .publish pos hOwner (by rw [hElement, hEntry]; rfl)
  all_goals
    cases h
    exact .none

theorem PushEffect.valid (valid : Valid capacity s) (hCapacity : 2 ≤ capacity)
    (effect : PushEffect capacity t s l s') : Valid capacity s' := by
  cases effect with
  | none => exact valid
  | reserve msg hTail _ => exact valid.reserve _ hTail
  | construct pos hOwner _ => exact valid.construct hCapacity hOwner _
  | publish pos hOwner hElement => exact valid.publish hCapacity hOwner hElement

theorem PushEffect.ordered (ordered : Ordered s) (recorded : Recorded s t l)
    (effect : PushEffect capacity t s l s') : Ordered s' := by
  cases effect with
  | none => exact ordered
  | reserve msg _ hPc =>
      exact ordered_reserve ordered fun before hMem hSame => (recorded before hMem hSame).2 hPc
  | construct | publish => exact ordered

/-- A push leaves every stage alone but its own ticket's, which it moves on from
`free` or from its own reservation. -/
theorem PushEffect.stage (effect : PushEffect capacity t s l s') (p : Nat) :
    s'.stage p = s.stage p ∨ s'.stage p = .published ∨ s'.stage p = .reserved t := by
  cases effect with
  | none | construct => exact .inl rfl
  | reserve msg _ _ =>
      by_cases hp : p = s.tail
      · subst hp
        exact .inr (.inr (by simp [State.reserve]))
      · exact .inl (Function.update_of_ne hp _ _)
  | publish pos hOwner _ =>
      by_cases hp : p = pos
      · subst hp
        exact .inr (.inl (by simp [State.publish]))
      · exact .inl (Function.update_of_ne hp _ _)

/-- A ticket that was read to the end stays so. -/
theorem PushEffect.retired (effect : PushEffect capacity t s l s') (valid : Valid capacity s)
    {p : Nat} (h : s.stage p = .retired) : s'.stage p = .retired := by
  cases effect with
  | none | construct => exact h
  | reserve msg _ _ =>
      have hp : p ≠ s.tail := (valid.lt_tail (by simp [h])).ne
      simpa [State.reserve, Function.update_of_ne hp] using h
  | publish pos hOwner _ =>
      have hp : p ≠ pos := fun hEq => by
        subst hEq
        exact absurd (hOwner.symm.trans h) (by simp)
      simpa [State.publish, Function.update_of_ne hp] using h

/-- A push touches no ticket but its own. -/
theorem PushEffect.frame (valid : Valid capacity s) (hCapacity : 2 ≤ capacity)
    (effect : PushEffect capacity t s l s') :
    Frame capacity (Occupied (.reserved t)) s s' := by
  cases effect with
  | none => exact .refl _ _
  | reserve msg _ _ =>
      exact (valid.frame_reserve _).mono fun stage hStage hFree => hStage.1 (by simp [hFree])
  | construct pos hOwner _ => exact valid.frame_construct hCapacity hOwner _
  | publish pos hOwner _ => exact valid.frame_publish hCapacity hOwner

/-- Readers keep what concerns them: the head, the claims and the elements read. -/
theorem PushEffect.reads_eq (effect : PushEffect capacity t s l s') :
    s'.head = s.head ∧ s'.claims = s.claims ∧ s'.popped = s.popped := by
  cases effect <;> exact ⟨rfl, rfl, rfl⟩

/-- A push writes into a slot only while no element is stored there. -/
theorem PushEffect.storage (effect : PushEffect capacity t s l s') {i : Nat} {element : α}
    (h : s.storage i = some element) : s'.storage i = some element := by
  cases effect with
  | construct pos _ hVacant =>
      have hSlot : i ≠ pos % capacity := fun hSlot => by
        rw [hSlot, hVacant] at h
        cases h
      simpa [State.construct, Function.update_of_ne hSlot] using h
  | none | reserve | publish => exact h

theorem PushEffect.entries (effect : PushEffect capacity t s l s') :
    ∀ entry ∈ s'.pushed, entry ∈ s.pushed ∨ entry.producer = t := by
  intro entry hMem
  cases effect with
  | reserve msg _ _ =>
      rcases List.mem_append.mp hMem with hOld | hNew
      · exact .inl hOld
      · rw [List.mem_singleton] at hNew
        exact .inr (by rw [hNew])
  | none | construct | publish => exact .inl hMem

/-- The stepping producer's own facts are re-established. -/
theorem push_producing (valid : Valid capacity s) (producing : Producing capacity s t l)
    (h : push capacity t s l choice = some (s', l')) : Producing capacity s' t l' := by
  obtain ⟨calls, arg, pc⟩ := l
  cases pc <;> cases choice <;> simp only [push, reduceCtorEq] at h
  case loadTail.go msg =>
    cases h
    exact ⟨producing, Nat.le_refl _⟩
  case loadSequence.go msg pos =>
    obtain ⟨hArg, hPos⟩ := producing
    split_ifs at h with hZero hBehind <;> cases h
    · exact ⟨hArg, hPos, fun _ => by omega⟩
    · exact hArg
    · exact hArg
  case casTail.go msg pos =>
    obtain ⟨hArg, _, hOpen⟩ := producing
    split_ifs at h with hTail <;> cases h
    · subst hTail
      have hFree := (valid.free_iff s.tail).mpr (Nat.le_refl _)
      refine ⟨hArg, by simp [State.reserve], valid.vacant s.tail hFree (hOpen rfl), ?_⟩
      simp [State.reserve, ← valid.pushed_length]
    · exact ⟨hArg, Nat.le_refl _⟩
  case casTail.spurious msg pos =>
    cases h
    exact ⟨producing.1, Nat.le_refl _⟩
  case construct.go msg pos =>
    obtain ⟨hArg, hOwner, _, hEntry⟩ := producing
    cases h
    exact ⟨rfl, hOwner, by simpa [State.construct] using hArg, hEntry⟩
  case publish.go msg pos =>
    obtain ⟨hArg, _, _, hEntry⟩ := producing
    cases h
    exact ⟨hArg, pos, hEntry⟩
  all_goals
    cases h
    exact (rfl : some _ = some _)

theorem push_recorded (recorded : Recorded s t l)
    (h : push capacity t s l choice = some (s', l')) : Recorded s' t l' := by
  obtain ⟨calls, arg, pc⟩ := l
  cases pc <;> cases choice <;> simp only [push, reduceCtorEq] at h
  case idle.call | returned.call =>
    cases h
    intro entry hMem hSame
    have := (recorded entry hMem hSame).1
    exact ⟨by simp only at this ⊢; omega, fun _ => by simp only at this ⊢; omega⟩
  case loadSequence.go msg pos =>
    split_ifs at h <;> cases h
    · exact recorded
    · exact fun entry hMem hSame => ⟨(recorded entry hMem hSame).1, False.elim⟩
    · exact recorded
  case casTail.go msg pos =>
    split_ifs at h with hTail <;> cases h
    · intro entry hMem hSame
      refine ⟨?_, False.elim⟩
      rcases List.mem_append.mp hMem with hOld | hNew
      · exact (recorded entry hOld hSame).1
      · rw [List.mem_singleton] at hNew
        subst hNew
        exact Nat.le_refl _
    · exact recorded
  all_goals
    cases h
    exact fun entry hMem hSame =>
      ⟨(recorded entry hMem hSame).1, fun hPc => (recorded entry hMem hSame).2 (by trivial)⟩

theorem push_owning (owning : Owning s t l)
    (h : push capacity t s l choice = some (s', l')) : Owning s' t l' := by
  obtain ⟨calls, arg, pc⟩ := l
  cases pc <;> cases choice <;> simp only [push, reduceCtorEq] at h
  case loadSequence.go msg pos =>
    split_ifs at h <;> cases h <;> exact fun p hp => by simpa [PushPc.ticket] using owning p hp
  case casTail.go msg pos =>
    split_ifs at h with hTail <;> cases h
    · intro p hp
      by_cases hEq : p = s.tail
      · simp [PushPc.ticket, hEq, hTail]
      · have hOld : s.stage p = .reserved t := by
          simpa [State.reserve, Function.update_of_ne hEq] using hp
        simpa [PushPc.ticket] using owning p hOld
    · exact fun p hp => by simpa [PushPc.ticket] using owning p hp
  case publish.go msg pos =>
    cases h
    intro p hp
    obtain ⟨hne, hOld⟩ := stage_kept hp (by simp)
    have hTicket : pos = p := by simpa [PushPc.ticket] using owning p hOld
    exact absurd hTicket.symm hne
  all_goals
    cases h
    exact fun p hp => by simpa [PushPc.ticket] using owning p hp

theorem Producing.stage (producing : Producing capacity s t l) {pos : Nat}
    (h : l.pc.ticket = some pos) : s.stage pos = .reserved t := by
  obtain ⟨calls, arg, pc⟩ := l
  cases pc <;> cases h
  · exact producing.2.1
  · exact producing.2.1

theorem Producing.accepted (producing : Producing capacity s t l) {msg : α}
    (h : l.pc = .returned msg true) : ∃ pos : Nat, s.pushed[pos]? = some (Entry.mk t l.calls msg) := by
  obtain ⟨calls, arg, pc⟩ := l
  simp only at h
  subst h
  exact producing.2

/-- A refused push has not moved from the caller's object. -/
theorem Producing.untouched (producing : Producing capacity s t l) {msg : α}
    (h : l.pc = .returned msg false) : l.arg = some msg := by
  obtain ⟨calls, arg, pc⟩ := l
  simp only at h
  subst h
  exact producing

/-- Another thread's step leaves a producer's facts true. -/
theorem Producing.of_frame {kept : Stage π γ → Prop} (producing : Producing capacity s t l)
    (frame : Frame capacity kept s s') (hMine : kept (.reserved t)) :
    Producing capacity s' t l := by
  have hStage : ∀ pos, s.stage pos = .reserved t →
      s'.stage pos = .reserved t ∧ s'.storage (pos % capacity) = s.storage (pos % capacity) :=
    fun pos h => ⟨(frame.stage pos (h ▸ hMine)).trans h, frame.storage pos (h ▸ hMine)⟩
  have hTail := frame.tail_le
  obtain ⟨calls, arg, pc⟩ := l
  cases pc with
  | idle | loadTail => exact producing
  | loadSequence msg pos => exact ⟨producing.1, producing.2.trans hTail⟩
  | casTail msg pos =>
      obtain ⟨hArg, hPos, hOpen⟩ := producing
      refine ⟨hArg, hPos.trans hTail, fun hEq => ?_⟩
      have hSame : pos = s.tail := by omega
      subst hSame
      exact frame.next hEq.symm (hOpen rfl)
  | construct msg pos =>
      obtain ⟨hArg, hOwner, hVacant, hEntry⟩ := producing
      obtain ⟨hOwner', hStorage⟩ := hStage pos hOwner
      exact ⟨hArg, hOwner', hStorage.trans hVacant, frame.entry hEntry⟩
  | publish msg pos =>
      obtain ⟨hArg, hOwner, hElement, hEntry⟩ := producing
      obtain ⟨hOwner', hStorage⟩ := hStage pos hOwner
      exact ⟨hArg, hOwner', hStorage.trans hElement, frame.entry hEntry⟩
  | returned msg ok =>
      cases ok with
      | false => exact producing
      | true =>
          obtain ⟨hArg, pos, hEntry⟩ := producing
          exact ⟨hArg, pos, frame.entry hEntry⟩

theorem Recorded.of_entries (recorded : Recorded s t l)
    (h : ∀ entry ∈ s'.pushed, entry ∈ s.pushed ∨ entry.producer ≠ t) : Recorded s' t l := by
  intro entry hMem hSame
  rcases h entry hMem with hOld | hOther
  · exact recorded entry hOld hSame
  · exact absurd hSame hOther

/-- Another thread's reservation is somebody else's. -/
theorem Owning.of_stage (owning : Owning s t l)
    (h : ∀ p, s'.stage p = .reserved t → s.stage p = .reserved t) : Owning s' t l :=
  fun p hp => owning p (h p hp)

/-- A push by one thread keeps what every other producer knows. -/
theorem PushEffect.keeps_producer {u : π} {m : Producer α} (effect : PushEffect capacity t s l s')
    (valid : Valid capacity s) (hCapacity : 2 ≤ capacity) (hne : u ≠ t)
    (producing : Producing capacity s u m) (recorded : Recorded s u m) (owning : Owning s u m) :
    Producing capacity s' u m ∧ Recorded s' u m ∧ Owning s' u m := by
  refine ⟨producing.of_frame (effect.frame valid hCapacity) ⟨by simp, by simpa using hne⟩,
    recorded.of_entries fun entry hMem => ?_, owning.of_stage fun p hp => ?_⟩
  · rcases effect.entries entry hMem with hOld | hNew
    · exact .inl hOld
    · exact .inr (by rw [hNew]; exact hne.symm)
  · rcases effect.stage p with hStage | hStage | hStage
    · exact hStage.symm.trans hp
    · exact absurd (hStage.symm.trans hp) (by simp)
    · exact absurd (hStage.symm.trans hp) (by simpa using hne.symm)

/-- A refused push saw its slot behind the ticket it wanted, the next one to be
handed out. -/
theorem push_refused {msg : α} (producing : Producing capacity s t l) (valid : Valid capacity s)
    (h : push capacity t s l choice = some (s', l')) (hRefused : l'.pc = .returned msg false) :
    s.sequence (s.tail % capacity) < s.tail := by
  obtain ⟨calls, arg, pc⟩ := l
  cases pc <;> cases choice <;> simp only [push, reduceCtorEq] at h
  case loadSequence.go other pos =>
    obtain ⟨_, hPos⟩ := producing
    split_ifs at h with hZero hBehind <;> cases h <;> simp at hRefused
    have hSequence : s.sequence (pos % capacity) < pos := by omega
    have hTail := (valid.free_iff pos).mp (valid.free_of_behind hSequence)
    rwa [show pos = s.tail by omega] at hSequence
  case casTail.go other pos =>
    split_ifs at h <;> cases h <;> cases hRefused
  all_goals
    cases h
    cases hRefused

end Steps

end LockFreeQueue
