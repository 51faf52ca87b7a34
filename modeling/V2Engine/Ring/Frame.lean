import V2Engine.Ring.Tickets

/-! What one operation on the ring leaves alone. A thread reasons about the tickets
it holds; an operation under another ticket changes neither their stage nor what is
stored in their slots. -/
namespace TicketRing

variable {π γ α : Type*} {capacity : Nat} {s : State π γ α}

/-- Tickets whose stage satisfies `kept` are left alone, the tail and the list of
accepted elements only grow, and the slot of the next ticket stays open until that
ticket is handed out. -/
structure Frame (capacity : Nat) (kept : Stage π γ → Prop) (s s' : State π γ α) : Prop where
  tail_le : s.tail ≤ s'.tail
  pushed : s.pushed <+: s'.pushed
  stage : ∀ p, kept (s.stage p) → s'.stage p = s.stage p
  storage : ∀ p, kept (s.stage p) → s'.storage (p % capacity) = s.storage (p % capacity)
  next : s'.tail = s.tail → s.sequence (s.tail % capacity) = s.tail →
    s'.sequence (s.tail % capacity) = s.tail

theorem Frame.refl (kept : Stage π γ → Prop) (s : State π γ α) : Frame capacity kept s s :=
  ⟨Nat.le_refl _, List.prefix_refl _, fun _ _ => rfl, fun _ _ => rfl, fun _ h => h⟩

theorem Frame.mono {kept kept' : Stage π γ → Prop} {s' : State π γ α}
    (frame : Frame capacity kept s s') (h : ∀ stage, kept' stage → kept stage) :
    Frame capacity kept' s s' :=
  { frame with
    stage := fun p hp => frame.stage p (h _ hp)
    storage := fun p hp => frame.storage p (h _ hp) }

/-- An accepted element keeps its place in the list. -/
theorem Frame.entry {kept : Stage π γ → Prop} {s' : State π γ α}
    (frame : Frame capacity kept s s') {p : Nat} {entry : Entry π α}
    (h : s.pushed[p]? = some entry) : s'.pushed[p]? = some entry := by
  obtain ⟨more, hMore⟩ := frame.pushed
  obtain ⟨hLt, _⟩ := List.getElem?_eq_some_iff.mp h
  rw [← hMore, List.getElem?_append_left hLt]
  exact h

/-- The stages of tickets that occupy a slot on behalf of somebody else. -/
def Occupied (except : Stage π γ) (stage : Stage π γ) : Prop :=
  stage.offset ≠ none ∧ stage ≠ except

namespace Valid

theorem frame_reserve (valid : Valid capacity s) (entry : Entry π α) :
    Frame capacity (· ≠ .free) s (s.reserve entry) where
  tail_le := Nat.le_succ _
  pushed := List.prefix_append _ _
  stage _ hp := Function.update_of_ne (valid.lt_tail hp).ne _ _
  storage _ _ := rfl
  next h _ := absurd h (Nat.succ_ne_self _)

/-- Slots of two different occupied tickets are different slots. -/
theorem slot_ne (valid : Valid capacity s) (hCapacity : 2 ≤ capacity) {p pos : Nat}
    {own : Stage π γ} (hOwn : s.stage pos = own) (hOffset : own.offset ≠ none)
    (hp : Occupied own (s.stage p)) : p ≠ pos ∧ p % capacity ≠ pos % capacity := by
  have hne : p ≠ pos := fun h => hp.2 (h ▸ hOwn)
  obtain ⟨j, hj⟩ := Option.ne_none_iff_exists'.mp hp.1
  obtain ⟨k, hk⟩ := Option.ne_none_iff_exists'.mp hOffset
  exact ⟨hne, fun hSlot => hne (valid.occupied_injective hCapacity hj (hOwn ▸ hk) hSlot)⟩

/-- The slot that is open for the next ticket is nobody's. -/
theorem next_slot_ne (valid : Valid capacity s) (hCapacity : 2 ≤ capacity) {pos k : Nat}
    (hPos : (s.stage pos).offset = some k)
    (hOpen : s.sequence (s.tail % capacity) = s.tail) : s.tail % capacity ≠ pos % capacity := by
  intro hSlot
  have hOcc := valid.occupied pos k hPos
  have hk := Stage.offset_le_one hPos
  have hLt := valid.lt_tail (p := pos) (fun h => by simp [h] at hPos)
  have := lap_le hSlot.symm hLt
  rw [← hSlot] at hOcc
  omega

theorem frame_construct (valid : Valid capacity s) (hCapacity : 2 ≤ capacity) {pos : Nat}
    {owner : π} (hOwner : s.stage pos = .reserved owner) (element : Option α) :
    Frame capacity (Occupied (.reserved owner)) s (s.construct capacity pos element) where
  tail_le := Nat.le_refl _
  pushed := List.prefix_refl _
  stage _ _ := rfl
  storage p hp := Function.update_of_ne (valid.slot_ne hCapacity hOwner (by simp) hp).2 _ _
  next _ h := h

theorem frame_publish (valid : Valid capacity s) (hCapacity : 2 ≤ capacity) {pos : Nat}
    {owner : π} (hOwner : s.stage pos = .reserved owner) :
    Frame capacity (Occupied (.reserved owner)) s (s.publish capacity pos) where
  tail_le := Nat.le_refl _
  pushed := List.prefix_refl _
  stage p hp := Function.update_of_ne (valid.slot_ne hCapacity hOwner (by simp) hp).1 _ _
  storage _ _ := rfl
  next _ h := by
    have hOccupied : (s.stage pos).offset = some 0 := by simp [hOwner]
    have hSlot := valid.next_slot_ne hCapacity hOccupied h
    simpa [State.publish, Function.update_of_ne hSlot] using h

theorem frame_claim {pos : Nat} (hPublished : s.stage pos = .published) (reader : γ) :
    Frame capacity (Occupied .published) s (s.claim pos reader) where
  tail_le := Nat.le_refl _
  pushed := List.prefix_refl _
  stage p hp := Function.update_of_ne (fun h => hp.2 (by rw [h]; exact hPublished)) _ _
  storage _ _ := rfl
  next _ h := h

theorem frame_take (valid : Valid capacity s) (hCapacity : 2 ≤ capacity) {pos : Nat}
    {reader : γ} (hReader : s.stage pos = .claimed reader) :
    Frame capacity (Occupied (.claimed reader)) s (s.take capacity pos) where
  tail_le := Nat.le_refl _
  pushed := List.prefix_refl _
  stage _ _ := rfl
  storage p hp := Function.update_of_ne (valid.slot_ne hCapacity hReader (by simp) hp).2 _ _
  next _ h := h

theorem frame_retire (valid : Valid capacity s) (hCapacity : 2 ≤ capacity) {pos : Nat}
    {reader : γ} (hReader : s.stage pos = .claimed reader) (result : Popped γ α) :
    Frame capacity (Occupied (.claimed reader)) s (s.retire capacity pos result) where
  tail_le := Nat.le_refl _
  pushed := List.prefix_refl _
  stage p hp := Function.update_of_ne (valid.slot_ne hCapacity hReader (by simp) hp).1 _ _
  storage _ _ := rfl
  next _ h := by
    have hOccupied : (s.stage pos).offset = some 1 := by simp [hReader]
    have hSlot := valid.next_slot_ne hCapacity hOccupied h
    simpa [State.retire, Function.update_of_ne hSlot] using h

end Valid

end TicketRing
