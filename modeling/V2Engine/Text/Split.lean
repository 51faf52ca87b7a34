import Mathlib.Data.List.Basic
import Mathlib.Data.List.TakeWhile

/-! Texts cut at a separator. `words` are the pieces between runs of it; lines are ended by
it, and what follows the last one is a line that is not complete yet. -/
namespace Text

/-- A string as the list of its characters. -/
abbrev Str := List Char

variable {α : Type*} [BEq α] [LawfulBEq α] {sep : α} {a b w : List α}

/-- The pieces that are not empty. -/
def words (sep : α) (text : List α) : List (List α) := (text.splitOn sep).filter (!·.isEmpty)

omit [BEq α] [LawfulBEq α] in
/-- What is dropped while a test holds is followed by something that fails it. -/
theorem head_of_dropWhile {p : α → Bool} {text start : List α} {first : α}
    (h : text.dropWhile p = first :: start) : p first = false := by
  have hHead := List.head_dropWhile_not (p := p) (l := text) (by simp [h])
  simpa [h] using hHead

omit [LawfulBEq α] in
@[simp] theorem words_nil : words sep [] = [] := rfl

theorem words_append_cons (a b : List α) : words sep (a ++ sep :: b) = words sep a ++ words sep b := by
  rw [words, List.splitOn_append_cons_self, List.filter_append]
  rfl

theorem words_cons (b : List α) : words sep (sep :: b) = words sep b := words_append_cons [] b

/-- Separators in front of a text do not matter. -/
theorem words_dropWhile (text : List α) : words sep (text.dropWhile (· == sep)) = words sep text := by
  induction text with
  | nil => rfl
  | cons x text ih =>
      by_cases hx : x = sep
      · subst hx
        rw [List.dropWhile_cons_of_pos (by simp), words_cons, ih]
      · rw [List.dropWhile_cons_of_neg (by simpa using hx)]

/-- A text without separators is one word. -/
theorem words_eq_singleton (hFree : sep ∉ w) (hne : w ≠ []) : words sep w = [w] := by
  rw [words, List.splitOn_eq_singleton hFree]
  simp [hne]

/-- Texts that each begin with a separator. -/
theorem words_flatMap {β : Type*} {f : β → List α} (hf : ∀ x, ∃ body, f x = sep :: body) (xs : List β) :
    words sep (xs.flatMap f) = xs.flatMap fun x => words sep (f x) := by
  induction xs with
  | nil => rfl
  | cons x xs ih =>
      rw [List.flatMap_cons, List.flatMap_cons, ← ih]
      cases xs with
      | nil => simp
      | cons y xs =>
          obtain ⟨body, hBody⟩ := hf y
          rw [List.flatMap_cons, hBody, List.cons_append, words_append_cons, words_cons]

theorem not_mem_of_mem_splitOn (h : w ∈ a.splitOn sep) : sep ∉ w := by
  induction a generalizing w with
  | nil =>
      rw [List.splitOn_nil, List.mem_singleton] at h
      subst h
      exact List.not_mem_nil
  | cons x a ih =>
      rw [List.splitOn_cons_eq_if_modifyHead] at h
      split at h
      · rcases List.mem_cons.mp h with rfl | hRest
        · exact List.not_mem_nil
        · exact ih hRest
      · rename_i hx
        cases hSplit : a.splitOn sep with
        | nil => exact absurd hSplit (List.splitOn_ne_nil _ _)
        | cons first rest =>
            rw [hSplit] at h ih
            rcases List.mem_cons.mp h with rfl | hRest
            · rw [List.mem_cons, not_or]
              refine ⟨?_, ih (List.mem_cons_self ..)⟩
              rintro rfl
              exact hx BEq.rfl
            · exact ih (List.mem_cons_of_mem _ hRest)

theorem not_mem_of_mem_words (h : w ∈ words sep a) : sep ∉ w :=
  not_mem_of_mem_splitOn (List.mem_filter.mp h).1

/-- The lines that have been ended. -/
def completeLines (sep : α) (text : List α) : List (List α) := (text.splitOn sep).dropLast

/-- What follows the last separator. -/
def remainder (sep : α) (text : List α) : List α := (text.splitOn sep).getLast (List.splitOn_ne_nil _ _)

theorem completeLines_of_not_mem (h : sep ∉ a) : completeLines sep a = [] := by
  rw [completeLines, List.splitOn_eq_singleton h]
  rfl

theorem remainder_of_not_mem (h : sep ∉ a) : remainder sep a = a := by
  simp only [remainder, List.splitOn_eq_singleton h]
  rfl

theorem completeLines_append_cons (a b : List α) :
    completeLines sep (a ++ sep :: b) = a.splitOn sep ++ completeLines sep b := by
  rw [completeLines, List.splitOn_append_cons_self, List.dropLast_append_of_ne_nil (List.splitOn_ne_nil _ _)]
  rfl

theorem remainder_append_cons (a b : List α) : remainder sep (a ++ sep :: b) = remainder sep b := by
  simp only [remainder, List.splitOn_append_cons_self]
  exact List.getLast_append_of_ne_nil _ (List.splitOn_ne_nil _ _)

/-- The first line, and the lines of the rest. -/
theorem completeLines_cons (h : sep ∉ w) (b : List α) :
    completeLines sep (w ++ sep :: b) = w :: completeLines sep b := by
  rw [completeLines_append_cons, List.splitOn_eq_singleton h, List.singleton_append]

omit [BEq α] [LawfulBEq α] in
/-- A text is cut at its last separator. -/
theorem exists_last (h : sep ∈ a) : ∃ u v, a = u ++ sep :: v ∧ sep ∉ v := by
  obtain ⟨v, u, hSplit, hFree⟩ := List.eq_append_cons_of_mem (List.mem_reverse.mpr h)
  refine ⟨u.reverse, v.reverse, ?_, by simpa using hFree⟩
  rw [← List.reverse_reverse a, hSplit]
  simp

/-- Reading on from what is not complete yet gives the same lines. -/
theorem lines_append (a b : List α) :
    completeLines sep (a ++ b) = completeLines sep a ++ completeLines sep (remainder sep a ++ b) ∧
      remainder sep (a ++ b) = remainder sep (remainder sep a ++ b) := by
  by_cases h : sep ∈ a
  · obtain ⟨u, v, rfl, hFree⟩ := exists_last h
    rw [List.append_assoc, List.cons_append, completeLines_append_cons, completeLines_append_cons,
      remainder_append_cons, remainder_append_cons, completeLines_of_not_mem hFree,
      remainder_of_not_mem hFree, List.append_nil]
    exact ⟨rfl, rfl⟩
  · rw [completeLines_of_not_mem h, remainder_of_not_mem h]
    exact ⟨rfl, rfl⟩

/-- The lines of a text whose lines are all ended. -/
theorem lines_flatMap {lines : List (List α)} (h : ∀ line ∈ lines, sep ∉ line) :
    completeLines sep (lines.flatMap (· ++ [sep])) = lines ∧
      remainder sep (lines.flatMap (· ++ [sep])) = [] := by
  induction lines with
  | nil => exact ⟨rfl, rfl⟩
  | cons line lines ih =>
      obtain ⟨hLines, hRest⟩ := ih fun w hw => h w (List.mem_cons_of_mem _ hw)
      rw [List.flatMap_cons, List.append_assoc, List.singleton_append,
        completeLines_cons (h line (List.mem_cons_self ..)), remainder_append_cons, hLines, hRest]
      exact ⟨rfl, rfl⟩

/-- Every character is on a line, ends one, or is left over. -/
theorem length_lines (a : List α) :
    ((completeLines sep a).flatMap (· ++ [sep])).length + (remainder sep a).length = a.length := by
  induction h : a.length using Nat.strongRecOn generalizing a with
  | ind n ih =>
      by_cases hMem : sep ∈ a
      · obtain ⟨w, b, rfl, hFree⟩ := List.eq_append_cons_of_mem hMem
        have hRest := ih b.length (by rw [← h, List.length_append, List.length_cons]; omega) b rfl
        rw [completeLines_cons hFree, remainder_append_cons, List.flatMap_cons, List.length_append,
          List.length_append, List.length_singleton]
        rw [List.length_append, List.length_cons] at h
        omega
      · rw [completeLines_of_not_mem hMem, remainder_of_not_mem hMem, List.flatMap_nil, List.length_nil]
        omega

theorem not_mem_remainder (a : List α) : sep ∉ remainder sep a :=
  not_mem_of_mem_splitOn (List.getLast_mem _)

end Text
