import V2Engine.Interleaving.Program
import Mathlib.Algebra.BigOperators.Group.Finset.Piecewise
import Mathlib.Algebra.Order.BigOperators.Group.Finset
import Mathlib.Data.Int.Order.Basic

/-! Bookkeeping over all threads at once. A ledger adds a value read off the shared
state to one entry for each thread; a step rewrites the entry of the thread that
takes it and nothing else, so the whole ledger moves by a local difference. -/
namespace Interleaving

variable {Θ σ ℓ κ : Type*} [DecidableEq Θ] [Fintype Θ]

/-- The threads' entries, added up. -/
def entries (w : Θ → ℓ → Int) (here : Θ → ℓ) : Int := ∑ t, w t (here t)

theorem entries_update (w : Θ → ℓ → Int) (here : Θ → ℓ) (t : Θ) (place : ℓ) :
    entries w (Function.update here t place) =
      entries w here + (w t place - w t (here t)) := by
  have hAfter := Finset.add_sum_erase Finset.univ
    (fun u => w u (Function.update here t place u)) (Finset.mem_univ t)
  have hBefore := Finset.add_sum_erase Finset.univ (fun u => w u (here u)) (Finset.mem_univ t)
  have hRest : ∑ u ∈ Finset.univ.erase t, w u (Function.update here t place u) =
      ∑ u ∈ Finset.univ.erase t, w u (here u) := by
    refine Finset.sum_congr rfl fun u hu => ?_
    rw [Function.update_of_ne (Finset.ne_of_mem_erase hu)]
  simp only [Function.update_self] at hAfter
  simp only [entries]
  omega

omit [DecidableEq Θ] in
theorem entries_sub (v w : Θ → ℓ → Int) (here : Θ → ℓ) :
    entries (fun t l => v t l - w t l) here = entries v here - entries w here :=
  Finset.sum_sub_distrib _ _

omit [DecidableEq Θ] in
theorem entries_nonneg {w : Θ → ℓ → Int} {f : Θ → ℓ} (h : ∀ t, 0 ≤ w t (f t)) :
    0 ≤ entries w f :=
  Finset.sum_nonneg fun t _ => h t

omit [DecidableEq Θ] in
/-- One thread's entry is part of the total. -/
theorem le_entries {w : Θ → ℓ → Int} {f : Θ → ℓ} (h : ∀ t, 0 ≤ w t (f t)) (t : Θ) :
    w t (f t) ≤ entries w f :=
  Finset.single_le_sum (f := fun u => w u (f u)) (fun u _ => h u) (Finset.mem_univ t)

/-- Two different threads are both part of the total. -/
theorem add_le_entries {w : Θ → ℓ → Int} {f : Θ → ℓ} (h : ∀ t, 0 ≤ w t (f t))
    {t u : Θ} (hne : t ≠ u) : w t (f t) + w u (f u) ≤ entries w f := by
  have hRest : w u (f u) ≤ ∑ v ∈ Finset.univ.erase t, w v (f v) :=
    Finset.single_le_sum (f := fun v => w v (f v)) (fun v _ => h v)
      (Finset.mem_erase.mpr ⟨hne.symm, Finset.mem_univ u⟩)
  have hTotal := Finset.add_sum_erase Finset.univ (fun v => w v (f v)) (Finset.mem_univ t)
  simp only [entries]
  omega

omit [DecidableEq Θ] in
theorem entries_eq_zero {w : Θ → ℓ → Int} {f : Θ → ℓ} (h : ∀ t, w t (f t) = 0) :
    entries w f = 0 :=
  Finset.sum_eq_zero fun t _ => h t

omit [DecidableEq Θ] in
/-- A nonzero total has a thread behind it. -/
theorem exists_entry_ne_zero {w : Θ → ℓ → Int} {f : Θ → ℓ} (h : entries w f ≠ 0) :
    ∃ t, w t (f t) ≠ 0 := by
  by_contra hAll
  push Not at hAll
  exact h (entries_eq_zero hAll)

/-- One if the condition holds and zero otherwise, for counting in a ledger. -/
def mark (p : Prop) [Decidable p] : Int := if p then 1 else 0

@[simp] theorem mark_of_true {p : Prop} [Decidable p] (h : p) : mark p = 1 := if_pos h

@[simp] theorem mark_of_false {p : Prop} [Decidable p] (h : ¬p) : mark p = 0 := if_neg h

theorem mark_nonneg (p : Prop) [Decidable p] : 0 ≤ mark p := by
  unfold mark
  split <;> decide

theorem mark_le_one (p : Prop) [Decidable p] : mark p ≤ 1 := by
  unfold mark
  split <;> decide

theorem of_mark_ne_zero {p : Prop} [Decidable p] (h : mark p ≠ 0) : p := by
  by_contra hNot
  exact h (mark_of_false hNot)

/-- A shared balance together with the threads' entries. -/
def ledger (Φ : σ → Int) (w : Θ → ℓ → Int) (c : Config Θ σ ℓ) : Int :=
  Φ c.shared + entries w c.here

theorem ledger_step (Φ : σ → Int) (w : Θ → ℓ → Int) (c : Config Θ σ ℓ) (t : Θ)
    (shared : σ) (place : ℓ) :
    ledger Φ w ⟨shared, Function.update c.here t place⟩ =
      ledger Φ w c + ((Φ shared + w t place) - (Φ c.shared + w t (c.here t))) := by
  simp only [ledger, entries_update]
  omega

/-- If no step changes a thread's own side of the ledger, the ledger is constant. -/
theorem Reach.ledger_eq {P : Program Θ σ ℓ κ} {start : Config Θ σ ℓ → Prop}
    {allowed : Config Θ σ ℓ → Θ → κ → Prop} {Φ : σ → Int} {w : Θ → ℓ → Int} {total : Int}
    (hStart : ∀ c, start c → ledger Φ w c = total)
    (hStep : ∀ c t choice shared place, Reach P start allowed c → ledger Φ w c = total →
      allowed c t choice → P t c.shared (c.here t) choice = some (shared, place) →
      Φ shared + w t place = Φ c.shared + w t (c.here t))
    {c : Config Θ σ ℓ} (reach : Reach P start allowed c) : ledger Φ w c = total := by
  refine reach.invariant hStart fun c t choice shared place hReach hInv hAllowed hLocal => ?_
  rw [ledger_step, hStep c t choice shared place hReach hInv hAllowed hLocal, hInv]
  omega

/-- If no step raises a thread's own side, the ledger never exceeds its bound. -/
theorem Reach.ledger_le {P : Program Θ σ ℓ κ} {start : Config Θ σ ℓ → Prop}
    {allowed : Config Θ σ ℓ → Θ → κ → Prop} {Φ : σ → Int} {w : Θ → ℓ → Int} {bound : Int}
    (hStart : ∀ c, start c → ledger Φ w c ≤ bound)
    (hStep : ∀ c t choice shared place, Reach P start allowed c → ledger Φ w c ≤ bound →
      allowed c t choice → P t c.shared (c.here t) choice = some (shared, place) →
      Φ shared + w t place ≤ Φ c.shared + w t (c.here t))
    {c : Config Θ σ ℓ} (reach : Reach P start allowed c) : ledger Φ w c ≤ bound := by
  refine reach.invariant hStart fun c t choice shared place hReach hInv hAllowed hLocal => ?_
  have hLe := hStep c t choice shared place hReach hInv hAllowed hLocal
  rw [ledger_step]
  omega

end Interleaving
