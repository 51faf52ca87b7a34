import Mathlib.Logic.Function.Basic

/-! Arrays of a fixed length whose cells are written before they are read. Every access is
checked: it fails outside of the array, and a read fails where nothing was written. -/
namespace Memory

/-- `none` is a cell that was not written. -/
abbrev StackBuffer (α : Type*) (capacity : Nat) := Fin capacity → Option α

namespace StackBuffer

variable {α : Type*} {capacity : Nat}

def empty : StackBuffer α capacity := fun _ => none

def write (buf : StackBuffer α capacity) (i : Nat) (a : α) : Option (StackBuffer α capacity) :=
  if h : i < capacity then some (Function.update buf ⟨i, h⟩ (some a)) else none

def read (buf : StackBuffer α capacity) (i : Nat) : Option α :=
  if h : i < capacity then buf ⟨i, h⟩ else none

/-- One value after another, from cell `i` on. -/
def fill (buf : StackBuffer α capacity) (i : Nat) : List α → Option (StackBuffer α capacity)
  | [] => some buf
  | a :: rest =>
      match buf.write i a with
      | none => none
      | some buf => fill buf (i + 1) rest

/-- The values of `n` cells, from cell `i` on. -/
def slice (buf : StackBuffer α capacity) (i : Nat) : Nat → Option (List α)
  | 0 => some []
  | n + 1 =>
      match buf.read i, slice buf (i + 1) n with
      | some a, some rest => some (a :: rest)
      | _, _ => none

variable {buf after : StackBuffer α capacity} {i j : Nat} {a : α} {values : List α}

theorem write_eq (buf : StackBuffer α capacity) (a : α) (h : i < capacity) :
    buf.write i a = some (Function.update buf ⟨i, h⟩ (some a)) :=
  dif_pos h

theorem read_write (h : buf.write i a = some after) (j : Nat) :
    after.read j = if j = i then some a else buf.read j := by
  obtain ⟨hInside, h⟩ := Option.dite_none_right_eq_some.mp h
  cases h
  unfold read
  by_cases hj : j < capacity
  · rw [dif_pos hj, dif_pos hj, Function.update_apply]
    simp only [Fin.mk.injEq]
  · rw [dif_neg hj, dif_neg hj, if_neg (by omega)]

/-- Values that fit are written, and nothing else changes. -/
theorem fill_spec (buf : StackBuffer α capacity) (h : i + values.length ≤ capacity) :
    ∃ after, buf.fill i values = some after ∧
    (∀ k (hk : k < values.length), after.read (i + k) = some values[k]) ∧
    ∀ j, j < i → after.read j = buf.read j := by
  induction values generalizing buf i with
  | nil => exact ⟨buf, rfl, fun k hk => absurd hk (Nat.not_lt_zero k), fun j _ => rfl⟩
  | cons a rest ih =>
      rw [List.length_cons] at h
      have hInside : i < capacity := by omega
      have hWrite := write_eq buf a hInside
      obtain ⟨after, hFill, hWritten, hSame⟩ := @ih (i + 1) (Function.update buf ⟨i, hInside⟩ (some a)) (by omega)
      refine ⟨after, by simp only [fill, hWrite, hFill], fun k hk => ?_, fun j hj => ?_⟩
      · cases k with
        | zero =>
            rw [Nat.add_zero, hSame i (Nat.lt_succ_self i), read_write hWrite, if_pos rfl, List.getElem_cons_zero]
        | succ k =>
            have hLater := hWritten k (Nat.lt_of_succ_lt_succ hk)
            rw [show i + 1 + k = i + (k + 1) by omega] at hLater
            rw [hLater, List.getElem_cons_succ]
      · rw [hSame j (by omega), read_write hWrite, if_neg (by omega)]

theorem slice_of_read (h : ∀ k (hk : k < values.length), buf.read (i + k) = some values[k]) :
    buf.slice i values.length = some values := by
  induction values generalizing i with
  | nil => rfl
  | cons a rest ih =>
      have hFirst : buf.read i = some a := h 0 (Nat.succ_pos _)
      have hRest : buf.slice (i + 1) rest.length = some rest := by
        apply ih
        intro k hk
        have hLater := h (k + 1) (Nat.succ_lt_succ hk)
        rw [List.getElem_cons_succ] at hLater
        rw [← hLater]
        congr 1
        omega
      simp only [List.length_cons, slice, hFirst, hRest]

/-- What was written is read again. -/
theorem slice_fill (buf : StackBuffer α capacity) (values : List α) (h : i + values.length ≤ capacity) :
    ∃ after, buf.fill i values = some after ∧ after.slice i values.length = some values := by
  obtain ⟨after, hFill, hWritten, _⟩ := fill_spec buf h
  exact ⟨after, hFill, slice_of_read hWritten⟩

end StackBuffer

end Memory
