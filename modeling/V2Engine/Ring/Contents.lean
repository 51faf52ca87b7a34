import V2Engine.Ring.Tickets

/-! What a ring holds while nobody is writing or reading: the elements of the tickets
from `head` to `tail`, oldest first, and slots that wait for the tickets after them. -/
namespace TicketRing

variable {π γ α : Type*} {capacity : Nat}

/-- Tickets less than a lap apart have slots of their own. -/
theorem slot_inj {p j k : Nat} (hj : j < capacity) (hk : k < capacity)
    (h : (p + j) % capacity = (p + k) % capacity) : j = k := by
  rcases Nat.lt_trichotomy j k with hLt | hEq | hLt
  · have := lap_le h (Nat.add_lt_add_left hLt p)
    omega
  · exact hEq
  · have := lap_le h.symm (Nat.add_lt_add_left hLt p)
    omega

/-- Every slot belongs to a ticket of the lap that begins at `p`. -/
theorem exists_ticket {i : Nat} (p : Nat) (hi : i < capacity) : ∃ k < capacity, (p + k) % capacity = i := by
  have hp := Nat.mod_lt p (Nat.zero_lt_of_lt hi)
  by_cases h : p % capacity ≤ i
  · refine ⟨i - p % capacity, by omega, ?_⟩
    rw [Nat.add_mod, Nat.mod_eq_of_lt (show i - p % capacity < capacity by omega),
      Nat.add_sub_cancel' h, Nat.mod_eq_of_lt hi]
  · refine ⟨i + capacity - p % capacity, by omega, ?_⟩
    rw [Nat.add_mod, Nat.mod_eq_of_lt (show i + capacity - p % capacity < capacity by omega),
      Nat.add_sub_cancel' (by omega), Nat.add_mod_right, Nat.mod_eq_of_lt hi]

/-- A slot waits for ticket `p`. -/
def Waits (capacity : Nat) (s : State π γ α) (p : Nat) : Prop :=
  s.sequence (p % capacity) = p ∧ s.storage (p % capacity) = none

/-- The element of ticket `p` is in its slot. -/
def Keeps (capacity : Nat) (s : State π γ α) (p : Nat) (element : α) : Prop :=
  s.sequence (p % capacity) = p + 1 ∧ s.storage (p % capacity) = some element

structure Holds (capacity : Nat) (s : State π γ α) (items : List α) : Prop where
  tail_eq : s.tail = s.head + items.length
  length_le : items.length ≤ capacity
  stored : ∀ k element, items[k]? = some element → Keeps capacity s (s.head + k) element
  free : ∀ k, items.length ≤ k → k < capacity → Waits capacity s (s.head + k)

theorem holds_empty : Holds capacity (State.empty : State π γ α) [] where
  tail_eq := rfl
  length_le := Nat.zero_le _
  stored _ _ h := by simp at h
  free k _ hk := by simp [Waits, State.empty, Nat.mod_eq_of_lt hk]

variable {s s' : State π γ α} {items : List α} {element msg : α}

/-- Slots other than the one just written are as they were. -/
theorem Keeps.update {p q v : Nat} {x : Option α} (h : Keeps capacity s q element)
    (hSequence : s'.sequence = Function.update s.sequence (p % capacity) v)
    (hStorage : s'.storage = Function.update s.storage (p % capacity) x)
    (hSlot : q % capacity ≠ p % capacity) : Keeps capacity s' q element := by
  simpa only [Keeps, hSequence, hStorage, Function.update_of_ne hSlot] using h

theorem Waits.update {p q v : Nat} {x : Option α} (h : Waits capacity s q)
    (hSequence : s'.sequence = Function.update s.sequence (p % capacity) v)
    (hStorage : s'.storage = Function.update s.storage (p % capacity) x)
    (hSlot : q % capacity ≠ p % capacity) : Waits capacity s' q := by
  simpa only [Waits, hSequence, hStorage, Function.update_of_ne hSlot] using h

/-- A completed push. -/
theorem Holds.push (h : Holds capacity s items) (hRoom : items.length < capacity)
    (hHead : s'.head = s.head) (hTail : s'.tail = s.tail + 1)
    (hSequence : s'.sequence = Function.update s.sequence (s.tail % capacity) (s.tail + 1))
    (hStorage : s'.storage = Function.update s.storage (s.tail % capacity) (some msg)) :
    Holds capacity s' (items ++ [msg]) := by
  have hOther : ∀ k, k < capacity → k ≠ items.length →
      (s.head + k) % capacity ≠ s.tail % capacity := by
    intro k hk hne hSlot
    rw [h.tail_eq] at hSlot
    exact hne (slot_inj hk hRoom hSlot)
  refine ⟨?_, ?_, ?_, ?_⟩
  · rw [hTail, hHead, h.tail_eq, List.length_append, List.length_singleton, Nat.add_assoc]
  · rw [List.length_append, List.length_singleton]
    exact hRoom
  · intro k element hElement
    rw [hHead]
    by_cases hk : k = items.length
    · subst hk
      rw [List.getElem?_concat_length, Option.some.injEq] at hElement
      subst hElement
      rw [← h.tail_eq]
      simp [Keeps, hSequence, hStorage]
    · have hLt : k < items.length := by
        have := (List.getElem?_eq_some_iff.mp hElement).1
        rw [List.length_append, List.length_singleton] at this
        omega
      rw [List.getElem?_append_left hLt] at hElement
      exact (h.stored k element hElement).update hSequence hStorage (hOther k (by omega) hk)
  · intro k hk hLt
    rw [List.length_append, List.length_singleton] at hk
    rw [hHead]
    exact (h.free k (by omega) hLt).update hSequence hStorage (hOther k hLt (by omega))

/-- A completed pop. -/
theorem Holds.pop (h : Holds capacity s (element :: items))
    (hHead : s'.head = s.head + 1) (hTail : s'.tail = s.tail)
    (hSequence : s'.sequence = Function.update s.sequence (s.head % capacity) (s.head + capacity))
    (hStorage : s'.storage = Function.update s.storage (s.head % capacity) none) :
    Holds capacity s' items := by
  have hLength := h.length_le
  rw [List.length_cons] at hLength
  have hOther : ∀ k, k + 1 < capacity → (s.head + (k + 1)) % capacity ≠ s.head % capacity := by
    intro k hk hSlot
    have := slot_inj (p := s.head) (k := 0) hk (by omega) hSlot
    omega
  have hNext : ∀ k, s'.head + k = s.head + (k + 1) := by
    intro k
    rw [hHead]
    omega
  refine ⟨?_, by omega, ?_, ?_⟩
  · rw [hTail, hHead, h.tail_eq, List.length_cons]
    omega
  · intro k x hElement
    have hLt := (List.getElem?_eq_some_iff.mp hElement).1
    rw [hNext]
    refine (h.stored (k + 1) x ?_).update hSequence hStorage (hOther k (by omega))
    rwa [List.getElem?_cons_succ]
  · intro k hk hLt
    rw [hNext]
    by_cases hLast : k + 1 = capacity
    · have hSlot : (s.head + (k + 1)) % capacity = s.head % capacity := by
        rw [hLast, Nat.add_mod_right]
      simp only [Waits, hSlot, hSequence, hStorage, Function.update_self, and_true]
      omega
    · refine (h.free (k + 1) ?_ (by omega)).update hSequence hStorage (hOther k (by omega))
      rw [List.length_cons]
      omega

/-- With room left the next ticket to write finds its slot waiting. -/
theorem Holds.tail_slot (h : Holds capacity s items) (hRoom : items.length < capacity) :
    s.sequence (s.tail % capacity) = s.tail := by
  rw [h.tail_eq]
  exact (h.free _ (Nat.le_refl _) hRoom).1

/-- In a full ring it comes to the slot of the oldest element. -/
theorem Holds.tail_slot_full (h : Holds capacity s items) (hCapacity : 0 < capacity)
    (hFull : items.length = capacity) : s.sequence (s.tail % capacity) + capacity = s.tail + 1 := by
  have hOldest := (h.stored 0 items[0] (List.getElem?_eq_getElem (by omega))).1
  rw [Nat.add_zero] at hOldest
  rw [h.tail_eq, hFull, Nat.add_mod_right, hOldest]
  omega

/-- Sequence numbers stay within a lap of the tail. -/
theorem Holds.sequence_le (h : Holds capacity s items) {i : Nat} (hi : i < capacity) :
    s.sequence i ≤ s.tail + capacity := by
  obtain ⟨k, hk, rfl⟩ := exists_ticket s.head hi
  have hTail := h.tail_eq
  by_cases hStored : k < items.length
  · have := (h.stored k items[k] (List.getElem?_eq_getElem hStored)).1
    omega
  · have := (h.free k (Nat.le_of_not_lt hStored) hk).1
    omega

end TicketRing
