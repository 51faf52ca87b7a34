import Mathlib.Data.List.Perm.Basic
import Mathlib.Data.List.Count
import Mathlib.Data.List.Flatten

/-! Entries that threads have made, each with the thread it is of. Where the entries
commute, the order in which the threads came to make them does not matter. -/
namespace Interleaving

variable {Θ σ ι : Type*} [DecidableEq Θ]

/-- The entries of one thread, in their order. -/
def ofThread (t : Θ) (entries : List (Θ × ι)) : List ι :=
  (entries.filter fun entry => entry.1 = t).map Prod.snd

@[simp] theorem ofThread_nil (t : Θ) : ofThread t ([] : List (Θ × ι)) = [] := rfl

@[simp] theorem ofThread_append (t : Θ) (xs ys : List (Θ × ι)) :
    ofThread t (xs ++ ys) = ofThread t xs ++ ofThread t ys := by
  simp [ofThread]

@[simp] theorem ofThread_self (t : Θ) (x : ι) : ofThread t [(t, x)] = [x] := by
  simp [ofThread]

theorem ofThread_of_ne {t u : Θ} (hne : u ≠ t) (x : ι) : ofThread t [(u, x)] = [] := by
  simp [ofThread, hne]

theorem ofThread_cons (t u : Θ) (x : ι) (xs : List (Θ × ι)) :
    ofThread t ((u, x) :: xs) = ofThread t [(u, x)] ++ ofThread t xs :=
  ofThread_append t [(u, x)] xs

@[simp] theorem ofThread_map_self (t : Θ) (xs : List ι) : ofThread t (xs.map (t, ·)) = xs := by
  induction xs with
  | nil => rfl
  | cons x xs ih => rw [List.map_cons, ofThread_cons, ofThread_self, ih, List.singleton_append]

theorem ofThread_map_of_ne {t u : Θ} (hne : u ≠ t) (xs : List ι) :
    ofThread t (xs.map (u, ·)) = [] := by
  induction xs with
  | nil => rfl
  | cons x xs ih => rw [List.map_cons, ofThread_cons, ofThread_of_ne hne, ih, List.append_nil]

/-- What the calls of each thread owe, thread by thread. -/
theorem ofThread_flatMap {μ : Type*} (t : Θ) (owes : ι → List μ) (calls : List (Θ × ι)) :
    ofThread t (calls.flatMap fun call => (owes call.2).map (call.1, ·)) =
      (ofThread t calls).flatMap owes := by
  induction calls with
  | nil => rfl
  | cons call calls ih =>
      obtain ⟨u, x⟩ := call
      rw [List.flatMap_cons, ofThread_append, ih, ofThread_cons]
      by_cases hu : u = t
      · subst hu
        rw [ofThread_map_self, ofThread_self, List.singleton_append, List.flatMap_cons]
      · rw [ofThread_map_of_ne hu, ofThread_of_ne hu, List.nil_append, List.nil_append]

theorem count_ofThread [DecidableEq ι] (t : Θ) (x : ι) (entries : List (Θ × ι)) :
    (ofThread t entries).count x = entries.count (t, x) := by
  induction entries with
  | nil => rfl
  | cons entry entries ih =>
      obtain ⟨u, y⟩ := entry
      rw [ofThread_cons, List.count_append, ih, List.count_cons]
      by_cases hu : u = t
      · subst hu
        rw [ofThread_self, List.count_singleton, Nat.add_comm]
        simp
      · rw [ofThread_of_ne hu]
        simp [hu]

/-- The same entries thread by thread are the same entries up to their order. -/
theorem perm_of_ofThread {xs ys : List (Θ × ι)} (h : ∀ t, ofThread t xs = ofThread t ys) :
    xs.Perm ys := by
  classical
  refine List.perm_iff_count.mpr fun entry => ?_
  obtain ⟨t, x⟩ := entry
  rw [← count_ofThread, h, count_ofThread]

/-- Updates that commute come to the same, in whichever order the threads make them. -/
theorem foldl_eq_of_ofThread {apply : σ → ι → σ} [RightCommutative apply]
    {xs ys : List (Θ × ι)} (h : ∀ t, ofThread t xs = ofThread t ys) (s : σ) :
    (xs.map Prod.snd).foldl apply s = (ys.map Prod.snd).foldl apply s :=
  ((perm_of_ofThread h).map Prod.snd).foldl_eq s

end Interleaving
