import V2Engine.Ring.Contents
import V2Engine.Interleaving.Inevitable
import V2Engine.Container.MpmcPop
import V2Engine.Container.MpscPop

/-! `LockFreeMpscQueue` and `LockFreeMpmcQueue` called by one thread, one call at a
time. Positions and sequence numbers are values of `size_t` here. -/
namespace LockFreeQueue

open TicketRing Interleaving

variable {π γ α : Type*}

/-- `static_cast<SignedSize>` of a `size_t`. -/
def signed (k : Nat) : Int := (BitVec.ofNat 64 k).toInt

def wrap (k : Nat) : Nat := k % 2 ^ 64

theorem signed_of_lt {k : Nat} (h : k < 2 ^ 63) : signed k = k := by
  have hMod : k % 2 ^ 64 = k := Nat.mod_eq_of_lt (by omega)
  rw [signed, BitVec.toInt_eq_toNat_of_lt, BitVec.toNat_ofNat, hMod]
  rw [BitVec.toNat_ofNat, hMod]
  omega

theorem wrap_of_lt {k : Nat} (h : k < 2 ^ 63) : wrap k = k := Nat.mod_eq_of_lt (by omega)

/-- The members as `size_t` keeps them. -/
def sizes (capacity : Nat) (s : State π γ α) : State π γ α :=
  { s with
    tail := wrap s.tail
    head := wrap s.head
    sequence := fun i => if i < capacity then wrap (s.sequence i) else s.sequence i }

/-- All members are small enough for `SignedSize`. -/
structure Sized (capacity : Nat) (s : State π γ α) : Prop where
  tail : s.tail < 2 ^ 63
  head : s.head < 2 ^ 63
  sequence : ∀ i < capacity, s.sequence i < 2 ^ 63

theorem sizes_eq {capacity : Nat} {s : State π γ α} (h : Sized capacity s) : sizes capacity s = s := by
  have hSequence : (fun i => if i < capacity then wrap (s.sequence i) else s.sequence i) = s.sequence := by
    funext i
    split
    · rename_i hi
      exact wrap_of_lt (h.sequence i hi)
    · rfl
  simp only [sizes, wrap_of_lt h.tail, wrap_of_lt h.head, hSequence]

/-- Sequence numbers stay small when a small one is written. -/
theorem Sized.update {capacity : Nat} {s : State π γ α} (h : Sized capacity s) {t : State π γ α}
    {i v : Nat} (hTail : t.tail < 2 ^ 63) (hHead : t.head < 2 ^ 63)
    (hSequence : t.sequence = Function.update s.sequence i v) (hv : v < 2 ^ 63) :
    Sized capacity t := by
  refine ⟨hTail, hHead, fun j hj => ?_⟩
  rw [hSequence]
  by_cases hji : j = i
  · rwa [hji, Function.update_self]
  · rw [Function.update_of_ne hji]
    exact h.sequence j hj

/-- `push` over `size_t`. -/
def pushSized (capacity : Nat) (t : π) (s : State π γ α) (l : Producer α) (choice : PushChoice α) :
    Option (State π γ α × Producer α) :=
  match l.pc, choice with
  | .loadSequence msg pos, .go =>
      let diff := signed (s.sequence (pos % capacity)) - signed pos
      if diff = 0 then some (s, { l with pc := .casTail msg pos })
      else if diff < 0 then some (s, { l with pc := .returned msg false })
      else some (s, { l with pc := .loadTail msg })
  | _, _ => (push capacity t s l choice).map fun after => (sizes capacity after.1, after.2)

end LockFreeQueue

namespace LockFreeMpscQueue

open TicketRing LockFreeQueue

/-- `pop` and `popBatch` over `size_t`. -/
def popSized {π α : Type*} (capacity : Nat) (s : State π Unit α) (l : Consumer α) (choice : PopChoice) :
    Option (State π Unit α × Consumer α) :=
  match l.pc, choice with
  | .loadSequence pos, .go =>
      let diff := signed (s.sequence (pos % capacity)) - signed (wrap (pos + 1))
      if diff ≠ 0 then some (s, { l with pc := .returned })
      else some (s.claim pos (), { l with pc := .take pos })
  | _, _ => (pop capacity () s l choice).map fun after => (sizes capacity after.1, after.2)

end LockFreeMpscQueue

namespace LockFreeMpmcQueue

open TicketRing LockFreeQueue

/-- `pop` and `popBatch` over `size_t`. -/
def popSized {π γ α : Type*} (capacity : Nat) (r : γ) (s : State π γ α) (l : Consumer α)
    (choice : PopChoice) : Option (State π γ α × Consumer α) :=
  match l.pc, choice with
  | .loadSequence pos, .go =>
      let diff := signed (s.sequence (pos % capacity)) - signed (wrap (pos + 1))
      if diff = 0 then some (s, { l with pc := .casHead pos })
      else if diff < 0 then some (s, { l with pc := .returned })
      else some (s, { l with pc := .loadHead })
  | _, _ => (pop capacity r s l choice).map fun after => (sizes capacity after.1, after.2)

end LockFreeMpmcQueue

namespace LockFreeQueue

open TicketRing Interleaving

variable {α : Type*} {capacity : Nat} {s s' : State Unit Unit α} {items : List α} {msg : α}

/-- `push` called with nobody else around, and what it comes to: the result, and the
caller's object afterwards. -/
def pushCall (capacity : Nat) (s : State Unit Unit α) (msg : α)
    (post : State Unit Unit α → Bool → Option α → Prop) : Prop :=
  ∀ calls, Ends (pushSized capacity ()) .go (· = .spurious) s ⟨calls, some msg, .loadTail msg⟩
    fun s' l => ∃ ok, l.pc = .returned msg ok ∧ post s' ok l.arg

theorem sized_of_holds (h : Holds capacity s items) (hRange : s.tail + capacity < 2 ^ 63) :
    Sized capacity s := by
  have hTail := h.tail_eq
  refine ⟨by omega, by omega, fun i hi => ?_⟩
  have := h.sequence_le hi
  omega

/-- What `pop` compares: nothing to read in an empty ring. -/
theorem head_diff_nil (h : Holds capacity s []) (hCapacity : 0 < capacity)
    (hRange : s.tail + capacity < 2 ^ 63) :
    signed (s.sequence (s.head % capacity)) - signed (wrap (s.head + 1)) = -1 := by
  have hTail := h.tail_eq
  have hSlot : s.sequence (s.head % capacity) = s.head := (h.free 0 (Nat.le_refl _) hCapacity).1
  rw [List.length_nil] at hTail
  rw [hSlot, wrap_of_lt (by omega), signed_of_lt (by omega), signed_of_lt (by omega)]
  omega

/-- The oldest element is ready. -/
theorem head_diff_cons {element : α} (h : Holds capacity s (element :: items))
    (hRange : s.tail + capacity < 2 ^ 63) :
    signed (s.sequence (s.head % capacity)) - signed (wrap (s.head + 1)) = 0 := by
  have hTail := h.tail_eq
  have hSlot : s.sequence (s.head % capacity) = s.head + 1 := (h.stored 0 element rfl).1
  rw [List.length_cons] at hTail
  rw [hSlot, wrap_of_lt (by omega)]
  omega

/-- Finding its slot waiting, a push comes to its end and has stored its element. -/
theorem push_accepts (hSized : Sized capacity s) (hTail : s.tail + 1 < 2 ^ 63)
    (hSlot : s.sequence (s.tail % capacity) = s.tail) :
    pushCall capacity s msg fun s' ok arg => ok = true ∧ arg = none ∧
      s'.head = s.head ∧ s'.tail = s.tail + 1 ∧
      s'.sequence = Function.update s.sequence (s.tail % capacity) (s.tail + 1) ∧
      s'.storage = Function.update s.storage (s.tail % capacity) (some msg) := by
  intro calls
  have hSame := sizes_eq hSized
  let reserved : State Unit Unit α := s.reserve ⟨(), calls, msg⟩
  have hReserved : sizes capacity reserved = reserved :=
    sizes_eq ⟨hTail, hSized.head, hSized.sequence⟩
  let constructed := reserved.construct capacity s.tail (some msg)
  have hConstructed : sizes capacity constructed = constructed :=
    sizes_eq ⟨hTail, hSized.head, hSized.sequence⟩
  let published := constructed.publish capacity s.tail
  have hPublished : sizes capacity published = published :=
    sizes_eq (hSized.update (t := published) hTail hSized.head rfl hTail)
  -- at the compare-and-swap, which may fail for no reason and be tried again
  have hCas : Ends (pushSized capacity ()) .go (· = .spurious) s ⟨calls, some msg, .casTail msg s.tail⟩
      fun s' l => ∃ ok, l.pc = .returned msg ok ∧ ok = true ∧ l.arg = none ∧
        s'.head = s.head ∧ s'.tail = s.tail + 1 ∧
        s'.sequence = Function.update s.sequence (s.tail % capacity) (s.tail + 1) ∧
        s'.storage = Function.update s.storage (s.tail % capacity) (some msg) := by
    refine Ends.retry (t := reserved) (m := ⟨calls, some msg, .construct msg s.tail⟩)
      (b := ⟨calls, some msg, .loadSequence msg s.tail⟩) ?_ ?_ ?_ ?_ ?_
    · refine Ends.step (t := constructed) (m := ⟨calls, none, .publish msg s.tail⟩) ?_ ?_ ?_
      · refine Ends.step (t := published) (m := ⟨calls, none, .returned msg true⟩) ?_ ?_ ?_
        · exact .done ⟨true, rfl, rfl, rfl, rfl, rfl, rfl, rfl⟩
        · show some (sizes capacity published, _) = _
          rw [hPublished]
        · rintro choice rfl
          rfl
      · show some (sizes capacity constructed, _) = _
        rw [hConstructed]
      · rintro choice rfl
        rfl
    · simp only [pushSized, push, if_true, Option.map_some]
      rw [hReserved]
    · rintro choice rfl
      simp only [pushSized, push, Option.map_some]
      rw [hSame]
    · simp only [pushSized, hSlot, Int.sub_self, if_true]
    · rintro choice rfl
      rfl
  refine Ends.step (t := s) (m := ⟨calls, some msg, .loadSequence msg s.tail⟩) ?_ ?_ ?_
  · refine Ends.step (t := s) (m := ⟨calls, some msg, .casTail msg s.tail⟩) hCas ?_ ?_
    · simp only [pushSized, hSlot, Int.sub_self, if_true]
    · rintro choice rfl
      rfl
  · simp only [pushSized, push, Option.map_some]
    rw [hSame]
  · rintro choice rfl
    rfl

/-- Finding its slot a lap behind, a push comes to its end and has changed nothing. -/
theorem push_refuses (hSized : Sized capacity s)
    (hSlot : s.sequence (s.tail % capacity) < s.tail) (hi : 0 < capacity) :
    pushCall capacity s msg fun s' ok arg => ok = false ∧ s' = s ∧ arg = some msg := by
  intro calls
  have hSame := sizes_eq hSized
  refine Ends.step (t := s) (m := ⟨calls, some msg, .loadSequence msg s.tail⟩) ?_ ?_ ?_
  · refine Ends.step (t := s) (m := ⟨calls, some msg, .returned msg false⟩) ?_ ?_ ?_
    · exact .done ⟨false, rfl, rfl, rfl, rfl⟩
    · have hSigned := signed_of_lt (hSized.sequence _ (Nat.mod_lt s.tail hi))
      simp only [pushSized, hSigned, signed_of_lt hSized.tail]
      rw [if_neg (by omega), if_pos (by omega)]
    · rintro choice rfl
      rfl
  · simp only [pushSized, push, Option.map_some]
    rw [hSame]
  · rintro choice rfl
    rfl

end LockFreeQueue

namespace LockFreeMpscQueue

open TicketRing LockFreeQueue Interleaving

variable {α : Type*} {capacity : Nat} {s : State Unit Unit α} {items : List α}

/-- `popBatch` called with nobody else around, and what it comes to: what the caller's
array then holds. A single `pop` is the batch of one. -/
def popCall (capacity : Nat) (s : State Unit Unit α) (maxCount : Nat)
    (post : State Unit Unit α → List (Option α) → Prop) : Prop :=
  Ends (popSized capacity) .go (fun _ => False) s ⟨maxCount, [], Consumer.next maxCount⟩
    fun s' l => l.pc = .returned ∧ post s' l.out

theorem pop_runs (hCapacity : 0 < capacity) (h : Holds capacity s items)
    (hRange : s.tail + capacity < 2 ^ 63) (m : Nat) (out : List (Option α)) :
    Ends (popSized capacity) .go (fun _ => False) s ⟨m, out, Consumer.next m⟩ fun s' l =>
      l.pc = .returned ∧ l.out = out ++ (items.take m).map some ∧
        Holds capacity s' (items.drop m) ∧ s'.tail = s.tail := by
  induction m generalizing s items out with
  | zero => exact .done ⟨rfl, (List.append_nil _).symm, h, rfl⟩
  | succ m ih =>
      have hSized := sized_of_holds h hRange
      have hSame := sizes_eq hSized
      have hHead : s.head + items.length + capacity < 2 ^ 63 := h.tail_eq ▸ hRange
      refine Ends.step (t := s) (m := ⟨m + 1, out, .loadSequence s.head⟩) ?_ ?_ nofun
      · cases items with
        | nil =>
            refine Ends.step (t := s) (m := ⟨m + 1, out, .returned⟩) ?_ ?_ nofun
            · exact .done ⟨rfl, (List.append_nil _).symm, h, rfl⟩
            · simp only [popSized, head_diff_nil h hCapacity hRange]
              rfl
        | cons element rest =>
            have hElement := (h.stored 0 element rfl).2
            rw [Nat.add_zero] at hElement
            let claimed : State Unit Unit α := s.claim s.head ()
            let taken := claimed.take capacity s.head
            have hTaken : sizes capacity taken = taken :=
              sizes_eq ⟨hSized.tail, hSized.head, hSized.sequence⟩
            let moved : State Unit Unit α := { taken with head := s.head + 1 }
            have hMoved : sizes capacity moved = moved :=
              sizes_eq ⟨hSized.tail, (by show s.head + 1 < 2 ^ 63; omega), hSized.sequence⟩
            let retired := moved.retire capacity s.head ⟨(), s.head, some element⟩
            have hRetired : sizes capacity retired = retired :=
              sizes_eq (hSized.update (t := retired) hSized.tail
                (by show s.head + 1 < 2 ^ 63; omega) rfl (by omega))
            have hRest : Holds capacity retired rest := h.pop rfl rfl rfl rfl
            refine Ends.step (t := claimed) (m := ⟨m + 1, out, .take s.head⟩) ?_ ?_ nofun
            · refine Ends.step (t := taken)
                (m := ⟨m + 1, out ++ [some element], .storeHead s.head (some element)⟩) ?_ ?_ nofun
              · refine Ends.step (t := moved)
                  (m := ⟨m + 1, out ++ [some element], .release s.head (some element)⟩) ?_ ?_ nofun
                · refine Ends.step (t := retired) (m := ⟨m, out ++ [some element], Consumer.next m⟩)
                    ?_ ?_ nofun
                  · refine (ih hRest hRange (out ++ [some element])).mono fun s' l hPost => ?_
                    obtain ⟨hPc, hOut, hHolds, hTail⟩ := hPost
                    exact ⟨hPc, by simp [hOut], hHolds, hTail⟩
                  · show some (sizes capacity retired, _) = _
                    rw [hRetired]
                    rfl
                · show some (sizes capacity moved, _) = _
                  rw [hMoved]
              · show some (sizes capacity taken, _) = _
                rw [hTaken]
                simp only [claimed, State.claim, hElement]
            · simp only [popSized, head_diff_cons h hRange]
              rfl
      · simp only [Consumer.next, popSized, pop, Nat.succ_ne_zero, if_false, Option.map_some]
        rw [hSame]

end LockFreeMpscQueue

namespace LockFreeMpmcQueue

open TicketRing LockFreeQueue Interleaving

variable {α : Type*} {capacity : Nat} {s : State Unit Unit α} {items : List α}

/-- `popBatch` called with nobody else around, and what it comes to: what the caller's
array then holds. A single `pop` is the batch of one. -/
def popCall (capacity : Nat) (s : State Unit Unit α) (maxCount : Nat)
    (post : State Unit Unit α → List (Option α) → Prop) : Prop :=
  Ends (popSized capacity ()) .go (· = .spurious) s ⟨maxCount, [], Consumer.next maxCount⟩
    fun s' l => l.pc = .returned ∧ post s' l.out

theorem pop_runs (hCapacity : 0 < capacity) (h : Holds capacity s items)
    (hRange : s.tail + capacity < 2 ^ 63) (m : Nat) (out : List (Option α)) :
    Ends (popSized capacity ()) .go (· = .spurious) s ⟨m, out, Consumer.next m⟩ fun s' l =>
      l.pc = .returned ∧ l.out = out ++ (items.take m).map some ∧
        Holds capacity s' (items.drop m) ∧ s'.tail = s.tail := by
  induction m generalizing s items out with
  | zero => exact .done ⟨rfl, (List.append_nil _).symm, h, rfl⟩
  | succ m ih =>
      have hSized := sized_of_holds h hRange
      have hSame := sizes_eq hSized
      have hHead : s.head + items.length + capacity < 2 ^ 63 := h.tail_eq ▸ hRange
      refine Ends.step (t := s) (m := ⟨m + 1, out, .loadSequence s.head⟩) ?_ ?_ ?_
      · cases items with
        | nil =>
            refine Ends.step (t := s) (m := ⟨m + 1, out, .returned⟩) ?_ ?_ ?_
            · exact .done ⟨rfl, (List.append_nil _).symm, h, rfl⟩
            · simp only [popSized, head_diff_nil h hCapacity hRange]
              rfl
            · rintro choice rfl
              rfl
        | cons element rest =>
            have hElement := (h.stored 0 element rfl).2
            rw [Nat.add_zero] at hElement
            have hDiff := head_diff_cons h hRange
            let claimed : State Unit Unit α := { s.claim s.head () with head := s.head + 1 }
            have hClaimed : sizes capacity claimed = claimed :=
              sizes_eq ⟨hSized.tail, (by show s.head + 1 < 2 ^ 63; omega), hSized.sequence⟩
            let taken := claimed.take capacity s.head
            have hTaken : sizes capacity taken = taken :=
              sizes_eq ⟨hSized.tail, (by show s.head + 1 < 2 ^ 63; omega), hSized.sequence⟩
            let retired := taken.retire capacity s.head ⟨(), s.head, some element⟩
            have hRetired : sizes capacity retired = retired :=
              sizes_eq (hSized.update (t := retired) hSized.tail
                (by show s.head + 1 < 2 ^ 63; omega) rfl (by omega))
            have hRest : Holds capacity retired rest := h.pop rfl rfl rfl rfl
            refine Ends.step (t := s) (m := ⟨m + 1, out, .casHead s.head⟩) ?_ ?_ ?_
            · refine Ends.retry (t := claimed) (m := ⟨m + 1, out, .take s.head⟩)
                (b := ⟨m + 1, out, .loadSequence s.head⟩) ?_ ?_ ?_ ?_ ?_
              · refine Ends.step (t := taken)
                  (m := ⟨m + 1, out ++ [some element], .release s.head (some element)⟩) ?_ ?_ ?_
                · refine Ends.step (t := retired) (m := ⟨m, out ++ [some element], Consumer.next m⟩)
                    ?_ ?_ ?_
                  · refine (ih hRest hRange (out ++ [some element])).mono fun s' l hPost => ?_
                    obtain ⟨hPc, hOut, hHolds, hTail⟩ := hPost
                    exact ⟨hPc, by simp [hOut], hHolds, hTail⟩
                  · show some (sizes capacity retired, _) = _
                    rw [hRetired]
                    rfl
                  · rintro choice rfl
                    rfl
                · show some (sizes capacity taken, _) = _
                  rw [hTaken]
                  simp only [claimed, State.claim, hElement]
                · rintro choice rfl
                  rfl
              · simp only [popSized, pop, if_true, Option.map_some]
                rw [hClaimed]
              · rintro choice rfl
                simp only [popSized, pop, Option.map_some]
                rw [hSame]
              · simp only [popSized, hDiff, if_true]
              · rintro choice rfl
                rfl
            · simp only [popSized, hDiff, if_true]
            · rintro choice rfl
              rfl
      · simp only [Consumer.next, popSized, pop, Nat.succ_ne_zero, if_false, Option.map_some]
        rw [hSame]
      · rintro choice rfl
        simp only [Consumer.next, popSized, pop, Nat.succ_ne_zero, if_false, Option.map_none]

end LockFreeMpmcQueue

namespace LockFreeQueue

open TicketRing Interleaving

variable {α : Type*}

/-- A call of a member function. -/
inductive Op (α : Type*) where
  | push (msg : α)
  | pop
  | popBatch (maxCount : Nat)
  | empty
  | count

def empty (capacity : Nat) (s : State Unit Unit α) : Bool :=
  s.sequence (s.head % capacity) != wrap (s.head + 1)

def count (capacity : Nat) (s : State Unit Unit α) : Nat :=
  let reserved := wrap (s.tail + (2 ^ 64 - s.head))
  if reserved < capacity then reserved else capacity

/-- One round of the destructor's loop: destroy the element at `pos` if there is one. -/
def destroyAt (capacity : Nat) (after : State Unit Unit α × List (Option α)) (pos : Nat) :
    State Unit Unit α × List (Option α) :=
  if after.1.sequence (pos % capacity) = wrap (pos + 1) then
    (after.1.take capacity pos, after.2 ++ [after.1.storage (pos % capacity)])
  else after

/-- The first rounds of that loop, with the elements destroyed in them. -/
def destroyRounds (capacity : Nat) (s : State Unit Unit α) (rounds : Nat) :
    State Unit Unit α × List (Option α) :=
  ((List.range rounds).map fun i => wrap (s.head + i)).foldl (destroyAt capacity) (s, [])

/-- The destructor, which goes from the head to the tail. -/
def destroy (capacity : Nat) (s : State Unit Unit α) : State Unit Unit α × List (Option α) :=
  destroyRounds capacity s (wrap (s.tail + (2 ^ 64 - s.head)))

/-- The queue behaves as a FIFO of at most `capacity` elements, of which `items` are
stored, under these calls and the destructor after them. -/
def Serves (popCall : State Unit Unit α → Nat → (State Unit Unit α → List (Option α) → Prop) → Prop)
    (capacity : Nat) : List (Op α) → State Unit Unit α → List α → Prop
  | [], s, items => (destroy capacity s).2 = items.map some ∧
      ∀ i < capacity, (destroy capacity s).1.storage i = none
  | .push msg :: ops, s, items => pushCall capacity s msg fun s' ok arg =>
      (ok = true ↔ items.length < capacity) ∧ (ok = false → s' = s ∧ arg = some msg) ∧
        Serves popCall capacity ops s' (if ok then items ++ [msg] else items)
  | .pop :: ops, s, items => popCall s 1 fun s' out =>
      out = items.head?.toList.map some ∧ Serves popCall capacity ops s' items.tail
  | .popBatch maxCount :: ops, s, items => popCall s maxCount fun s' out =>
      out = (items.take maxCount).map some ∧ Serves popCall capacity ops s' (items.drop maxCount)
  | .empty :: ops, s, items => empty capacity s = items.isEmpty ∧ Serves popCall capacity ops s items
  | .count :: ops, s, items => count capacity s = items.length ∧ Serves popCall capacity ops s items

/-- No push comes while `capacity` elements are stored. -/
def Roomy (capacity : Nat) : List (Op α) → List α → Prop
  | [], _ => True
  | .push msg :: ops, items => items.length < capacity ∧ Roomy capacity ops (items ++ [msg])
  | .pop :: ops, items => Roomy capacity ops items.tail
  | .popBatch maxCount :: ops, items => Roomy capacity ops (items.drop maxCount)
  | .empty :: ops, items | .count :: ops, items => Roomy capacity ops items

def pushes : List (Op α) → Nat
  | [] => 0
  | .push _ :: ops => pushes ops + 1
  | _ :: ops => pushes ops

/-- What the two classes' `pop` have in common. -/
structure PopBatch (capacity : Nat)
    (popCall : State Unit Unit α → Nat → (State Unit Unit α → List (Option α) → Prop) → Prop) :
    Prop where
  runs : ∀ {s items}, Holds capacity s items → s.tail + capacity < 2 ^ 63 → ∀ maxCount,
    popCall s maxCount fun s' out => out = (items.take maxCount).map some ∧
      Holds capacity s' (items.drop maxCount) ∧ s'.tail = s.tail
  mono : ∀ {s maxCount post post'}, popCall s maxCount post →
    (∀ s' out, post s' out → post' s' out) → popCall s maxCount post'
  meet : ∀ {s maxCount post post'}, popCall s maxCount post → popCall s maxCount post' →
    ∃ s' out, post s' out ∧ post' s' out

section Serving

variable {capacity : Nat} {s : State Unit Unit α} {items : List α}
  {popCall : State Unit Unit α → Nat → (State Unit Unit α → List (Option α) → Prop) → Prop}

theorem pushCall_mono {msg : α} {post post' : State Unit Unit α → Bool → Option α → Prop}
    (h : pushCall capacity s msg post) (hPost : ∀ s' ok arg, post s' ok arg → post' s' ok arg) :
    pushCall capacity s msg post' := by
  intro calls
  refine (h calls).mono fun s' l hEnd => ?_
  obtain ⟨ok, hPc, hOk⟩ := hEnd
  exact ⟨ok, hPc, hPost _ _ _ hOk⟩

/-- A finished push goes no further. -/
theorem push_finished {msg : α} {ok : Bool} {l : Producer α} {choice : PushChoice α}
    (hPc : l.pc = .returned msg ok) (hChoice : choice = .go ∨ choice = .spurious) :
    pushSized capacity () s l choice = none := by
  obtain ⟨calls, arg, pc⟩ := l
  cases hPc
  rcases hChoice with rfl | rfl <;> rfl

theorem pushCall_meet {msg : α} {post post' : State Unit Unit α → Bool → Option α → Prop}
    (h : pushCall capacity s msg post) (h' : pushCall capacity s msg post') :
    ∃ s' ok arg, post s' ok arg ∧ post' s' ok arg := by
  obtain ⟨s', l, ⟨ok, hPc, hPost⟩, ok', hPc', hPost'⟩ := (h 0).meet (h' 0)
    (fun s l choice hEnd hChoice => by
      obtain ⟨ok, hPc, _⟩ := hEnd
      exact push_finished hPc hChoice)
    (fun s l choice hEnd hChoice => by
      obtain ⟨ok, hPc, _⟩ := hEnd
      exact push_finished hPc hChoice)
  rw [hPc] at hPc'
  cases hPc'
  exact ⟨s', ok, l.arg, hPost, hPost'⟩

/-- With room a push stores its element behind the others. -/
theorem push_holds (h : Holds capacity s items) (hRange : s.tail + 1 + capacity < 2 ^ 63)
    (hRoom : items.length < capacity) {msg : α} :
    pushCall capacity s msg fun s' ok _ => ok = true ∧ Holds capacity s' (items ++ [msg]) ∧
      s'.tail = s.tail + 1 := by
  refine pushCall_mono (push_accepts (sized_of_holds h (by omega)) (by omega) (h.tail_slot hRoom)) ?_
  rintro s' ok arg ⟨hOk, _, hHead, hTail, hSequence, hStorage⟩
  exact ⟨hOk, h.push hRoom hHead hTail hSequence hStorage, hTail⟩

theorem empty_eq (hCapacity : 0 < capacity) (h : Holds capacity s items)
    (hRange : s.tail + capacity < 2 ^ 63) : empty capacity s = items.isEmpty := by
  have hTail := h.tail_eq
  unfold empty
  rw [wrap_of_lt (by omega)]
  cases items with
  | nil =>
      have hSlot : s.sequence (s.head % capacity) = s.head := (h.free 0 (Nat.le_refl _) hCapacity).1
      simp [hSlot]
  | cons element rest =>
      have hSlot : s.sequence (s.head % capacity) = s.head + 1 := (h.stored 0 element rfl).1
      simp [hSlot]

/-- The distance from the head to the tail, as `size_t` arithmetic gives it. -/
theorem reserved_eq (h : Holds capacity s items) (hRange : s.tail + capacity < 2 ^ 63) :
    wrap (s.tail + (2 ^ 64 - s.head)) = items.length := by
  have hTail := h.tail_eq
  have hSum : s.tail + (2 ^ 64 - s.head) = items.length + 2 ^ 64 := by omega
  rw [hSum, wrap, Nat.add_mod_right]
  exact wrap_of_lt (by omega)

theorem count_eq (h : Holds capacity s items) (hRange : s.tail + capacity < 2 ^ 63) :
    count capacity s = items.length := by
  have hLength := h.length_le
  simp only [count, reserved_eq h hRange]
  split
  · rfl
  · omega

/-- After `j` rounds the destructor has destroyed the `j` oldest elements. -/
theorem destroy_rounds (h : Holds capacity s items) (hRange : s.tail + capacity < 2 ^ 63) {j : Nat}
    (hj : j ≤ items.length) :
    (destroyRounds capacity s j).1.sequence = s.sequence ∧
      (destroyRounds capacity s j).2 = (items.take j).map some ∧
      ∀ k < capacity, (destroyRounds capacity s j).1.storage ((s.head + k) % capacity) =
        if k < j then none else s.storage ((s.head + k) % capacity) := by
  have hTail := h.tail_eq
  have hLength := h.length_le
  induction j with
  | zero => exact ⟨rfl, rfl, fun k _ => rfl⟩
  | succ j ih =>
      obtain ⟨hSequence, hGone, hStorage⟩ := ih (by omega)
      obtain ⟨element, hElement⟩ : ∃ element, items[j]? = some element :=
        ⟨_, List.getElem?_eq_getElem (show j < items.length by omega)⟩
      obtain ⟨hSlot, hHere⟩ := h.stored j _ hElement
      have hRound : destroyRounds capacity s (j + 1) =
          destroyAt capacity (destroyRounds capacity s j) (s.head + j) := by
        rw [destroyRounds, List.range_succ, List.map_append, List.foldl_append, List.map_cons,
          List.map_nil, List.foldl_cons, List.foldl_nil, wrap_of_lt (by omega)]
        rfl
      rw [hRound]
      generalize destroyRounds capacity s j = after at hSequence hGone hStorage
      have hNow := hStorage j (by omega)
      rw [if_neg (Nat.lt_irrefl j), hHere] at hNow
      rw [destroyAt, hSequence, hSlot, wrap_of_lt (by omega), if_pos rfl]
      refine ⟨hSequence, ?_, fun k hk => ?_⟩
      · rw [hGone, hNow, List.take_add_one, hElement, Option.toList_some, List.map_append]
        rfl
      · simp only [State.take]
        by_cases hjk : k = j
        · subst hjk
          rw [Function.update_self, if_pos (Nat.lt_succ_self k)]
        · have hOther : (s.head + k) % capacity ≠ (s.head + j) % capacity :=
            fun hSame => hjk (slot_inj hk (by omega) hSame)
          rw [Function.update_of_ne hOther, hStorage k hk]
          by_cases hkj : k < j
          · rw [if_pos hkj, if_pos (by omega)]
          · rw [if_neg hkj, if_neg (by omega)]

/-- The destructor destroys the stored elements, and no slot keeps one. -/
theorem destroy_eq (h : Holds capacity s items) (hRange : s.tail + capacity < 2 ^ 63) :
    (destroy capacity s).2 = items.map some ∧ ∀ i < capacity, (destroy capacity s).1.storage i = none := by
  obtain ⟨_, hGone, hStorage⟩ := destroy_rounds h hRange (Nat.le_refl items.length)
  rw [destroy, reserved_eq h hRange]
  refine ⟨by rw [hGone, List.take_length], fun i hi => ?_⟩
  obtain ⟨k, hk, rfl⟩ := exists_ticket s.head hi
  rw [hStorage k hk]
  split
  · rfl
  · exact (h.free k (by omega) hk).2

/-- As long as a push finds room, or there are slots enough to tell a full ring from one
with room, the queue is a FIFO. -/
theorem serves (hCapacity : 0 < capacity) (hPop : PopBatch capacity (popCall)) (ops : List (Op α))
    (h : Holds capacity s items) (hRange : s.tail + pushes ops + capacity < 2 ^ 63)
    (hRoom : 2 ≤ capacity ∨ Roomy capacity ops items) : Serves popCall capacity ops s items := by
  induction ops generalizing s items with
  | nil => exact destroy_eq h hRange
  | cons op ops ih =>
      have hNow : s.tail + capacity < 2 ^ 63 := by omega
      cases op with
      | push msg =>
          simp only [pushes] at hRange
          by_cases hLength : items.length < capacity
          · refine pushCall_mono (push_holds h (by omega) hLength) ?_
            rintro s' ok arg ⟨rfl, hHolds, hTail⟩
            refine ⟨by simp [hLength], nofun, ?_⟩
            exact ih hHolds (by omega) (hRoom.imp_right And.right)
          · have hTwo : 2 ≤ capacity := hRoom.resolve_right fun hRoomy => hLength hRoomy.1
            have hFull : items.length = capacity :=
              Nat.le_antisymm h.length_le (Nat.le_of_not_lt hLength)
            have hSlot := h.tail_slot_full hCapacity hFull
            refine pushCall_mono (push_refuses (sized_of_holds h hNow) (by omega) hCapacity) ?_
            rintro s' ok arg ⟨rfl, rfl, hArg⟩
            refine ⟨by simp [hLength], fun _ => ⟨rfl, hArg⟩, ?_⟩
            exact ih h (by omega) (.inl hTwo)
      | pop =>
          refine hPop.mono (hPop.runs h hNow 1) ?_
          rintro s' out ⟨hOut, hHolds, hTail⟩
          rw [List.drop_one] at hHolds
          exact ⟨by cases items <;> simp [hOut], ih hHolds (by rw [hTail]; exact hRange) hRoom⟩
      | popBatch maxCount =>
          refine hPop.mono (hPop.runs h hNow maxCount) ?_
          rintro s' out ⟨hOut, hHolds, hTail⟩
          exact ⟨hOut, ih hHolds (by rw [hTail]; exact hRange) hRoom⟩
      | empty => exact ⟨empty_eq hCapacity h hNow, ih h hRange hRoom⟩
      | count => exact ⟨count_eq h hNow, ih h hRange hRoom⟩

/-- With one slot, a push that finds the queue full is accepted all the same. -/
theorem roomy_of_serves (hPop : PopBatch 1 popCall) (ops : List (Op α)) (h : Holds 1 s items)
    (hRange : s.tail + pushes ops + 1 < 2 ^ 63) (hServes : Serves popCall 1 ops s items) :
    Roomy 1 ops items := by
  induction ops generalizing s items with
  | nil => trivial
  | cons op ops ih =>
      cases op with
      | push msg =>
          simp only [pushes] at hRange
          by_cases hLength : items.length < 1
          · obtain ⟨s', ok, arg, ⟨rfl, hHolds, hTail⟩, _, _, hRest⟩ :=
              pushCall_meet (push_holds h (by omega) hLength) hServes
            exact ⟨hLength, ih hHolds (by omega) hRest⟩
          · have hFull : items.length = 1 := Nat.le_antisymm h.length_le (Nat.le_of_not_lt hLength)
            have hSlot := h.tail_slot_full Nat.one_pos hFull
            obtain ⟨s', ok, arg, ⟨rfl, _⟩, hOk, _⟩ :=
              pushCall_meet (push_accepts (sized_of_holds h (by omega)) (by omega) (by omega)) hServes
            exact absurd (hOk.mp rfl) hLength
      | pop =>
          obtain ⟨s', out, ⟨_, hHolds, hTail⟩, _, hRest⟩ := hPop.meet (hPop.runs h (by omega) 1) hServes
          rw [List.drop_one] at hHolds
          exact ih hHolds (by rw [hTail]; exact hRange) hRest
      | popBatch maxCount =>
          obtain ⟨s', out, ⟨_, hHolds, hTail⟩, _, hRest⟩ :=
            hPop.meet (hPop.runs h (by omega) maxCount) hServes
          exact ih hHolds (by rw [hTail]; exact hRange) hRest
      | empty | count => exact ih h hRange hServes.2

/-- The queue is a FIFO exactly if it has two slots or no push finds its one slot full. -/
theorem serves_iff (hCapacity : 0 < capacity) (hPop : PopBatch capacity popCall) (ops : List (Op α))
    (hRange : pushes ops + capacity < 2 ^ 63) :
    Serves popCall capacity ops .empty [] ↔ 2 ≤ capacity ∨ Roomy capacity ops [] := by
  have hTail : (State.empty : State Unit Unit α).tail = 0 := rfl
  constructor
  · intro hServes
    by_cases hTwo : 2 ≤ capacity
    · exact .inl hTwo
    · have hOne : capacity = 1 := by omega
      subst hOne
      exact .inr (roomy_of_serves hPop ops holds_empty (by omega) hServes)
  · intro hRoom
    exact serves hCapacity hPop ops holds_empty (by omega) hRoom

end Serving

end LockFreeQueue

namespace LockFreeMpscQueue

open TicketRing LockFreeQueue Interleaving

theorem popBatch {α : Type*} {capacity : Nat} (hCapacity : 0 < capacity) :
    PopBatch capacity (popCall (α := α) capacity) where
  runs h hRange maxCount := by
    refine (pop_runs hCapacity h hRange maxCount []).mono fun s' l hPost => ?_
    obtain ⟨hPc, hOut, hRest⟩ := hPost
    exact ⟨hPc, hOut, hRest⟩
  mono h hPost := Ends.mono h fun _ _ hEnd => ⟨hEnd.1, hPost _ _ hEnd.2⟩
  meet h h' := by
    have hStop : ∀ (s : State Unit Unit α) (l : Consumer α) (choice : PopChoice), l.pc = .returned →
        choice = .go ∨ False → popSized capacity s l choice = none := by
      rintro s ⟨remaining, out, pc⟩ choice hPc hChoice
      cases hPc
      cases hChoice.resolve_right id
      rfl
    obtain ⟨s', l, hEnd, hEnd'⟩ := Ends.meet h h' (fun s l choice hEnd => hStop s l choice hEnd.1)
      (fun s l choice hEnd => hStop s l choice hEnd.1)
    exact ⟨s', l.out, hEnd.2, hEnd'.2⟩

end LockFreeMpscQueue

namespace LockFreeMpmcQueue

open TicketRing LockFreeQueue Interleaving

theorem popBatch {α : Type*} {capacity : Nat} (hCapacity : 0 < capacity) :
    PopBatch capacity (popCall (α := α) capacity) where
  runs h hRange maxCount := by
    refine (pop_runs hCapacity h hRange maxCount []).mono fun s' l hPost => ?_
    obtain ⟨hPc, hOut, hRest⟩ := hPost
    exact ⟨hPc, hOut, hRest⟩
  mono h hPost := Ends.mono h fun _ _ hEnd => ⟨hEnd.1, hPost _ _ hEnd.2⟩
  meet h h' := by
    have hStop : ∀ (s : State Unit Unit α) (l : Consumer α) (choice : PopChoice), l.pc = .returned →
        choice = .go ∨ choice = .spurious → popSized capacity () s l choice = none := by
      rintro s ⟨remaining, out, pc⟩ choice hPc hChoice
      cases hPc
      rcases hChoice with rfl | rfl <;> rfl
    obtain ⟨s', l, hEnd, hEnd'⟩ := Ends.meet h h' (fun s l choice hEnd => hStop s l choice hEnd.1)
      (fun s l choice hEnd => hStop s l choice hEnd.1)
    exact ⟨s', l.out, hEnd.2, hEnd'.2⟩

end LockFreeMpmcQueue

namespace LockFreeQueue

open TicketRing

/-- The constructors, which throw for no capacity. -/
def construct {α : Type*} (capacity : Nat) : Option (State Unit Unit α) :=
  if capacity = 0 then none else some .empty

/-- For every capacity that the constructors accept, either class is a FIFO of that many
elements under any calls, one at a time, exactly if there are two slots at least or no
push finds the one slot full. -/
theorem bounded_fifo {α : Type*} {capacity : Nat} {s : State Unit Unit α} (ops : List (Op α))
    (hAccepted : construct capacity = some s) (hRange : pushes ops + capacity < 2 ^ 63) :
    (Serves (LockFreeMpscQueue.popCall capacity) capacity ops s [] ↔
      2 ≤ capacity ∨ Roomy capacity ops []) ∧
    (Serves (LockFreeMpmcQueue.popCall capacity) capacity ops s [] ↔
      2 ≤ capacity ∨ Roomy capacity ops []) := by
  unfold construct at hAccepted
  split at hAccepted
  · cases hAccepted
  · rename_i hCapacity
    cases hAccepted
    have hPositive := Nat.pos_of_ne_zero hCapacity
    exact ⟨serves_iff hPositive (LockFreeMpscQueue.popBatch hPositive) ops hRange,
      serves_iff hPositive (LockFreeMpmcQueue.popBatch hPositive) ops hRange⟩

/-- Four pushes into three slots. -/
def pushToFull : List (Op Nat) := [.push 1, .push 2, .push 3, .count, .push 4, .count, .pop]

theorem bounded_fifo_pushToFull :
    Serves (LockFreeMpscQueue.popCall 3) 3 pushToFull (.empty : State Unit Unit Nat) [] ∧
      Serves (LockFreeMpmcQueue.popCall 3) 3 pushToFull (.empty : State Unit Unit Nat) [] := by
  have hBoth := @bounded_fifo Nat 3 .empty pushToFull rfl (by decide)
  exact ⟨hBoth.1.mpr (.inl (by decide)), hBoth.2.mpr (.inl (by decide))⟩

/-- The second push into the one slot is accepted. -/
theorem not_bounded_fifo_one :
    ¬Serves (LockFreeMpscQueue.popCall 1) 1 [.push 1, .push 2] (.empty : State Unit Unit Nat) [] ∧
      ¬Serves (LockFreeMpmcQueue.popCall 1) 1 [.push 1, .push 2] (.empty : State Unit Unit Nat) [] := by
  have hNotRoomy : ¬(2 ≤ 1 ∨ Roomy 1 ([.push 1, .push 2] : List (Op Nat)) []) := by
    simp [Roomy]
  constructor
  · rw [serves_iff Nat.one_pos (LockFreeMpscQueue.popBatch Nat.one_pos) _ (by decide)]
    exact hNotRoomy
  · rw [serves_iff Nat.one_pos (LockFreeMpmcQueue.popBatch Nat.one_pos) _ (by decide)]
    exact hNotRoomy

end LockFreeQueue
