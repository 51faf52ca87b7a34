import V2Engine.Ring.Contents
import V2Engine.Messages.Mailbox
import V2Engine.Messages.Ownership

/-! What messages are for: letters that are made, copied, handed from one holder to
another and queued in bounded mailboxes. Storage modes, blocks and slots do not occur
here; the calls of the program refine these. -/
namespace Messages

open Lifetime Interleaving TicketRing

variable {ι μ V : Type*} [DecidableEq ι] [DecidableEq μ]

/-- The letters that are somewhere. An object that stands may be empty (`some none`), and a
mailbox is its capacity and the messages in it, oldest first. -/
structure Contents (ι μ V : Type*) where
  objects : ι → Option (Option (Letter V))
  mailboxes : μ → Option (Nat × List (Option (Letter V)))

namespace Contents

def initial : Contents ι μ V := ⟨fun _ => none, fun _ => none⟩

def put (c : Contents ι μ V) (m : ι) (held : Option (Option (Letter V))) : Contents ι μ V :=
  { c with objects := Function.update c.objects m held }

def setMailbox (c : Contents ι μ V) (q : μ) (b : Option (Nat × List (Option (Letter V)))) :
    Contents ι μ V :=
  { c with mailboxes := Function.update c.mailboxes q b }

/-- One call, on letters. -/
def step : Op ι μ V → Contents ι μ V → Option (Contents ι μ V)
  | .default m, c => if c.objects m = none then some (c.put m (some none)) else none
  | .make m T source v faults, c =>
      if c.objects m = none ∧ (source = .rvalue ∨ T.copyable) then
        some (c.put m (if T.failing source faults then none else some (some ⟨T.kId, ⟨T, v⟩⟩)))
      else none
  | .moveConstruct m other, c =>
      if c.objects m = none then
        (c.objects other).map fun carried => (c.put m (some carried)).put other (some none)
      else none
  | .moveAssign m other, c =>
      match c.objects m, c.objects other with
      | some _, some carried =>
          if m = other then some c else some ((c.put m (some carried)).put other (some none))
      | _, _ => none
  | .clone m other faults, c =>
      if c.objects m = none then
        (c.objects other).map fun carried => c.put m (Sound.copied faults carried)
      else none
  | .destroy m, c => (c.objects m).map fun _ => c.put m none
  | .open q capacity, c =>
      if c.mailboxes q = none ∧ capacity ≠ 0 then some (c.setMailbox q (some (capacity, []))) else none
  | .push q other, c =>
      match c.mailboxes q, c.objects other with
      | some (capacity, items), some carried =>
          if items.length < capacity then
            some ((c.setMailbox q (some (capacity, items ++ [carried]))).put other (some none))
          else some c
      | _, _ => none
  | .pop q out, c =>
      match c.mailboxes q, c.objects out with
      | some (_, []), some _ => some c
      | some (capacity, carried :: items), some _ =>
          some ((c.setMailbox q (some (capacity, items))).put out (some carried))
      | _, _ => none
  | .close q, c => (c.mailboxes q).map fun _ => c.setMailbox q none

end Contents

/-- The members of a mailbox with what its slots hold, as a ring at rest. -/
def Mailbox.ring (b : Mailbox) (slots : Nat → Option (Option (Letter V))) :
    TicketRing.State Unit Unit (Option (Letter V)) :=
  { TicketRing.State.empty with head := b.head, tail := b.tail, sequence := b.sequence, storage := slots }

/-- The slots of a mailbox hold its messages and nothing else. -/
def Shelved (slots : Nat → Option (Option (Letter V))) :
    Option Mailbox → Option (Nat × List (Option (Letter V))) → Prop
  | none, none => ∀ i, slots i = none
  | some b, some (capacity, items) => b.capacity = capacity ∧ capacity ≠ 0 ∧
      TicketRing.Holds capacity (b.ring slots) items ∧ ∀ i, capacity ≤ i → slots i = none
  | _, _ => False

/-- The state of the program, with what each message object carries, against the letters. -/
structure Related (held : Owner ι μ → Option (Option (Letter V))) (s : State ι μ V)
    (c : Contents ι μ V) : Prop where
  sound : Sound s.heap s.messages held
  objects : ∀ m, held (.object m) = c.objects m
  mailboxes : ∀ q, Shelved (fun i => held (.slot q i)) (s.mailboxes q) (c.mailboxes q)

namespace Sound

variable {s s' : State ι μ V} {held : Owner ι μ → Option (Option (Letter V))} {m o : Owner ι μ}
  {carried carried' : Option (Letter V)}

omit [DecidableEq ι] [DecidableEq μ] in
theorem absent_iff (sound : Sound s.heap s.messages held) (m : Owner ι μ) :
    s.messages m = none ↔ held m = none := by
  have holds := sound.holds m
  generalize hMsg : s.messages m = x at holds
  generalize hHeld : held m = y at holds
  cases holds <;> simp

omit [DecidableEq ι] [DecidableEq μ] in
theorem message_of_held (sound : Sound s.heap s.messages held) (hHeld : held m = some carried) :
    ∃ msg, s.messages m = some msg := by
  apply Option.ne_none_iff_exists'.mp
  rw [ne_eq, sound.absent_iff, hHeld]
  simp

omit [DecidableEq ι] [DecidableEq μ] in
theorem vacant_of_absent (sound : Sound s.heap s.messages held) (hHeld : held m = none) :
    Vacant (s.messages m) (held m) :=
  (sound.holds m).vacant (.inl hHeld)

/-- Moving into storage where no message stands. -/
theorem moveConstruct (sound : Sound s.heap s.messages held) (hne : m ≠ o) (hHeld : held m = none)
    (hOther : held o = some carried) :
    ∃ s', s.moveConstruct m o = some s' ∧ s'.mailboxes = s.mailboxes ∧ Sound s'.heap s'.messages
      (Function.update (Function.update held m (some carried)) o (some none)) := by
  obtain ⟨other, hMsg⟩ := sound.message_of_held hOther
  refine ⟨s.handOver m o (other.moveConstruct m o s.heap), by simp [State.moveConstruct, hMsg], rfl, ?_⟩
  exact sound.takeOver hne (sound.vacant_of_absent hHeld) hMsg hOther none rfl

/-- Moving over a message, which gives up what it carried. -/
theorem moveAssign (sound : Sound s.heap s.messages held) (hne : m ≠ o) (hHeld : held m = some carried')
    (hOther : held o = some carried) :
    ∃ s', s.moveAssign m o = some s' ∧ s'.mailboxes = s.mailboxes ∧ Sound s'.heap s'.messages
      (Function.update (Function.update held m (some carried)) o (some none)) := by
  obtain ⟨msg, hMsg⟩ := sound.message_of_held hHeld
  obtain ⟨other, hOtherMsg⟩ := sound.message_of_held hOther
  refine ⟨s.handOver m o (msg.moveAssign other m o s.heap),
    by simp [State.moveAssign, hMsg, hOtherMsg, hne], rfl, ?_⟩
  have hDestroyed := sound.destroy hMsg (.absent : Vacant none (none : Option (Option (Letter V))))
  have hTaken := hDestroyed.takeOver hne (by simpa using Vacant.absent)
    (by rwa [Function.update_of_ne hne.symm]) (by rwa [Function.update_of_ne hne.symm]) msg.ptr rfl
  simp only [Function.update_idem] at hTaken
  exact hTaken

theorem destroyed (sound : Sound s.heap s.messages held) (hHeld : held m = some carried) :
    ∃ s', s.destroy m = some s' ∧ s'.mailboxes = s.mailboxes ∧
      Sound s'.heap s'.messages (Function.update held m none) := by
  obtain ⟨msg, hMsg⟩ := sound.message_of_held hHeld
  refine ⟨s.settle m (msg.destroy m s.heap, none), by simp [State.destroy, hMsg], rfl, ?_⟩
  exact sound.destroy hMsg .absent

end Sound

namespace Shelved

variable {slots slots' : Nat → Option (Option (Letter V))} {b : Mailbox} {capacity : Nat}
  {items : List (Option (Letter V))} {carried : Option (Letter V)}

theorem opened (hFree : ∀ i, slots i = none) (hCapacity : capacity ≠ 0) :
    Shelved slots (some ⟨capacity, 0, 0, fun i => i⟩) (some (capacity, [])) := by
  refine ⟨rfl, hCapacity, ?_, fun i _ => hFree i⟩
  have hSlots : slots = fun _ => none := funext hFree
  subst hSlots
  exact holds_empty

/-- A slot of the ring waits for the tail exactly while there is room. -/
theorem sequence_tail (h : Shelved slots (some b) (some (capacity, items)))
    (hRoomy : 2 ≤ b.capacity ∨ b.tail = b.head) :
    (items.length < capacity → b.sequence (b.tail % b.capacity) = b.tail) ∧
      (¬items.length < capacity → b.sequence (b.tail % b.capacity) < b.tail) := by
  obtain ⟨rfl, hPositive, hRing, _⟩ := h
  constructor
  · intro hRoom
    exact hRing.tail_slot hRoom
  · intro hFull
    have hLength := hRing.length_le
    have hTail : b.tail = b.head + items.length := hRing.tail_eq
    have hOldest : b.sequence (b.tail % b.capacity) + b.capacity = b.tail + 1 :=
      hRing.tail_slot_full (by omega) (by omega)
    omega

/-- The slot of the head is ready exactly while a message is in the mailbox. -/
theorem sequence_head (h : Shelved slots (some b) (some (capacity, items))) :
    b.sequence (b.head % b.capacity) = b.head + 1 ↔ items ≠ [] := by
  obtain ⟨rfl, hPositive, hRing, _⟩ := h
  cases items with
  | nil =>
      have hFree : b.sequence (b.head % b.capacity) = b.head := (hRing.free 0 (by simp) (by omega)).1
      simp [hFree]
  | cons first rest =>
      have hStored : b.sequence (b.head % b.capacity) = b.head + 1 := (hRing.stored 0 first rfl).1
      simp [hStored]

theorem slot_tail (h : Shelved slots (some b) (some (capacity, items)))
    (hRoom : items.length < capacity) : slots (b.tail % b.capacity) = none := by
  obtain ⟨rfl, _, hRing, _⟩ := h
  have hTail : b.tail = b.head + items.length := hRing.tail_eq
  rw [hTail]
  exact (hRing.free _ (Nat.le_refl _) hRoom).2

theorem slot_head (h : Shelved slots (some b) (some (capacity, carried :: items))) :
    slots (b.head % b.capacity) = some carried := by
  obtain ⟨rfl, _, hRing, _⟩ := h
  exact (hRing.stored 0 carried rfl).2

theorem pushed (h : Shelved slots (some b) (some (capacity, items))) (hRoom : items.length < capacity)
    (hSlots : slots' = Function.update slots (b.tail % b.capacity) (some carried)) :
    Shelved slots' (some b.pushed) (some (capacity, items ++ [carried])) := by
  obtain ⟨rfl, hPositive, hRing, hOutside⟩ := h
  refine ⟨rfl, hPositive, hRing.push hRoom rfl rfl rfl hSlots, fun i hi => ?_⟩
  have hLt := Nat.mod_lt b.tail (Nat.pos_of_ne_zero hPositive)
  rw [hSlots, Function.update_of_ne (by omega)]
  exact hOutside i hi

theorem popped (h : Shelved slots (some b) (some (capacity, carried :: items)))
    (hSlots : slots' = Function.update slots (b.head % b.capacity) none) :
    Shelved slots' (some b.popped) (some (capacity, items)) := by
  obtain ⟨rfl, hPositive, hRing, hOutside⟩ := h
  refine ⟨rfl, hPositive, hRing.pop rfl rfl rfl hSlots, fun i hi => ?_⟩
  have hLt := Nat.mod_lt b.head (Nat.pos_of_ne_zero hPositive)
  rw [hSlots, Function.update_of_ne (by omega)]
  exact hOutside i hi

end Shelved

/-- The loop of the destructor ends the lifetime of every message that is left. -/
theorem Sound.drained {q : μ} {b : Mailbox} {items : List (Option (Letter V))} {start : Nat}
    {s : State ι μ V} {held : Owner ι μ → Option (Option (Letter V))}
    (sound : Sound s.heap s.messages held) (hLength : items.length ≤ b.capacity)
    (hStored : ∀ k carried, items[k]? = some carried →
      b.sequence ((start + k) % b.capacity) = start + k + 1 ∧
        held (.slot q ((start + k) % b.capacity)) = some carried) :
    ∃ s' held', State.drain q b (List.range' start items.length) s = some s' ∧
      s'.mailboxes = s.mailboxes ∧ Sound s'.heap s'.messages held' ∧
      (∀ k, k < items.length → held' (.slot q ((start + k) % b.capacity)) = none) ∧
      ∀ m, (∀ k, k < items.length → m ≠ .slot q ((start + k) % b.capacity)) → held' m = held m := by
  induction items generalizing start s held with
  | nil => exact ⟨s, held, rfl, rfl, sound, nofun, fun _ _ => rfl⟩
  | cons first rest ih =>
      rw [List.length_cons] at hLength
      obtain ⟨hSequence, hHeld⟩ := hStored 0 first rfl
      rw [Nat.add_zero] at hSequence hHeld
      obtain ⟨middle, hDestroy, hMailboxes, hMiddle⟩ := sound.destroyed hHeld
      have hApart : ∀ k, k < rest.length → (start + 1 + k) % b.capacity ≠ start % b.capacity := by
        intro k hk hSame
        rw [Nat.add_assoc] at hSame
        have := slot_inj (p := start) (j := 1 + k) (k := 0) (by omega) (by omega) hSame
        omega
      obtain ⟨s', held', hDrain, hMailboxes', hSound, hGone, hOther⟩ :=
        @ih (start + 1) middle _ hMiddle (by omega) (by
          intro k carried hElement
          have hk := (List.getElem?_eq_some_iff.mp hElement).1
          obtain ⟨hNext, hHeldNext⟩ := hStored (k + 1) carried (by simpa using hElement)
          rw [show start + (k + 1) = start + 1 + k by omega] at hNext hHeldNext
          refine ⟨hNext, ?_⟩
          rw [Function.update_of_ne (by simpa using hApart k hk)]
          exact hHeldNext)
      refine ⟨s', held', ?_, hMailboxes'.trans hMailboxes, hSound, ?_, ?_⟩
      · rw [List.length_cons, List.range'_succ]
        show (if b.sequence (start % b.capacity) = start + 1 then _ else _) = _
        rw [if_pos hSequence, hDestroy]
        exact hDrain
      · intro k hk
        cases k with
        | zero =>
            rw [Nat.add_zero, hOther, Function.update_self]
            intro k hk hSame
            exact hApart k hk (Owner.slot.inj hSame).2.symm
        | succ k =>
            rw [show start + (k + 1) = start + 1 + k by omega]
            exact hGone k (by simpa using hk)
      · intro m hm
        rw [hOther, Function.update_of_ne (by simpa using hm 0 (by simp))]
        intro k hk
        have := hm (k + 1) (by simpa using hk)
        rwa [show start + (k + 1) = start + 1 + k by omega] at this

namespace Related

variable {held : Owner ι μ → Option (Option (Letter V))} {s s' : State ι μ V} {c : Contents ι μ V}

omit [DecidableEq ι] [DecidableEq μ] in
theorem initial : Related (fun _ => none) (State.initial : State ι μ V) Contents.initial where
  sound := {
    objects := .empty
    blocks := .empty
    strays := rfl
    holds := fun _ => .absent rfl
    apart := fun h => by
      obtain ⟨_, hNone, _⟩ := h
      cases hNone
    ownedObject := nofun
    ownedBlock := nofun }
  objects _ := rfl
  mailboxes _ _ := rfl

omit [DecidableEq ι] [DecidableEq μ] in
theorem absent_iff (related : Related held s c) (m : ι) :
    s.messages (.object m) = none ↔ c.objects m = none := by
  rw [related.sound.absent_iff, related.objects]

omit [DecidableEq ι] [DecidableEq μ] in
theorem message_isSome (related : Related held s c) (m : ι) :
    (∃ msg, s.messages (.object m) = some msg) ↔ ∃ carried, c.objects m = some carried := by
  rw [← Option.ne_none_iff_exists', ← Option.ne_none_iff_exists', ne_eq, ne_eq, related.absent_iff]

/-- A call that changes what one object carries. -/
theorem put (related : Related held s c) (m : ι) {y : Option (Option (Letter V))}
    (hSound : Sound s'.heap s'.messages (Function.update held (.object m) y))
    (hMailboxes : s'.mailboxes = s.mailboxes) :
    Related (Function.update held (.object m) y) s' (c.put m y) where
  sound := hSound
  objects n := by
    by_cases hn : n = m
    · subst hn
      simp [Contents.put]
    · simp [Contents.put, hn, related.objects]
  mailboxes q := by
    rw [hMailboxes]
    simpa [Contents.put] using related.mailboxes q

/-- A call that moves between two objects. -/
theorem move (related : Related held s c) {m o : ι} {y z : Option (Option (Letter V))}
    (hSound : Sound s'.heap s'.messages
      (Function.update (Function.update held (.object m) y) (.object o) z))
    (hMailboxes : s'.mailboxes = s.mailboxes) :
    Related (Function.update (Function.update held (.object m) y) (.object o) z) s'
      ((c.put m y).put o z) where
  sound := hSound
  objects n := by
    by_cases hn : n = o
    · subst hn
      simp [Contents.put]
    · by_cases hm : n = m
      · subst hm
        simp [Contents.put, hn]
      · simp [Contents.put, hn, hm, related.objects]
  mailboxes q := by
    rw [hMailboxes]
    simpa [Contents.put] using related.mailboxes q

/-- A call that changes one mailbox and what one object carries. -/
theorem transfer (related : Related held s c) (q : μ) (o : ι)
    {held' : Owner ι μ → Option (Option (Letter V))} {y : Option (Option (Letter V))}
    {b : Option Mailbox} {items : Option (Nat × List (Option (Letter V)))}
    (hSound : Sound s'.heap s'.messages held')
    (hMailboxes : s'.mailboxes = Function.update s.mailboxes q b)
    (hObject : ∀ n, held' (.object n) = if n = o then y else held (.object n))
    (hOther : ∀ r i, r ≠ q → held' (.slot r i) = held (.slot r i))
    (hShelved : Shelved (fun i => held' (.slot q i)) b items) :
    Related held' s' ((c.setMailbox q items).put o y) where
  sound := hSound
  objects n := by
    rw [hObject]
    by_cases hn : n = o
    · subst hn
      simp [Contents.put]
    · simp [Contents.put, Contents.setMailbox, hn, related.objects]
  mailboxes r := by
    rw [hMailboxes]
    by_cases hr : r = q
    · subst hr
      simpa [Contents.put, Contents.setMailbox] using hShelved
    · have hSlots : (fun i => held' (.slot r i)) = fun i => held (.slot r i) :=
        funext fun i => hOther r i hr
      simpa [Contents.put, Contents.setMailbox, hr, hSlots] using related.mailboxes r

end Related

end Messages
