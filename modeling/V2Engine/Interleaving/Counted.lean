import V2Engine.Interleaving.Program
import Mathlib.Data.Int.Order.Basic

/-! Runs that are counted. `Reach` says that a state can be reached, but not how often
something happened on the way; here the steps of one kind are counted along the run. -/
namespace Interleaving

variable {Θ σ ℓ κ : Type*} [DecidableEq Θ]

/-- A run to the state in which exactly the given number of steps are of the kind. -/
inductive Counted (P : Program Θ σ ℓ κ) (start : Config Θ σ ℓ → Prop)
    (allowed : Config Θ σ ℓ → Θ → κ → Prop) (kind : Config Θ σ ℓ → Θ → Config Θ σ ℓ → Prop) :
    Nat → Config Θ σ ℓ → Prop where
  | start {c : Config Θ σ ℓ} (h : start c) : Counted P start allowed kind 0 c
  | hit {k : Nat} {c d : Config Θ σ ℓ} {t : Θ} {choice : κ} (prior : Counted P start allowed kind k c)
      (admitted : allowed c t choice) (last : P.next c t choice = some d) (h : kind c t d) :
      Counted P start allowed kind (k + 1) d
  | miss {k : Nat} {c d : Config Θ σ ℓ} {t : Θ} {choice : κ} (prior : Counted P start allowed kind k c)
      (admitted : allowed c t choice) (last : P.next c t choice = some d) (h : ¬ kind c t d) :
      Counted P start allowed kind k d

/-- The thread that steps is where the step takes it. -/
theorem Config.here_update (shared : σ) (here : Θ → ℓ) (t : Θ) (place : ℓ) :
    (⟨shared, Function.update here t place⟩ : Config Θ σ ℓ).here t = place :=
  Function.update_self ..

/-- The other threads stay where they are. -/
theorem Config.here_update_of_ne (shared : σ) (here : Θ → ℓ) {t u : Θ} (hu : u ≠ t) (place : ℓ) :
    (⟨shared, Function.update here t place⟩ : Config Θ σ ℓ).here u = here u :=
  Function.update_of_ne hu ..

variable {P : Program Θ σ ℓ κ} {start : Config Θ σ ℓ → Prop} {allowed : Config Θ σ ℓ → Θ → κ → Prop}
  {kind : Config Θ σ ℓ → Θ → Config Θ σ ℓ → Prop} {c : Config Θ σ ℓ} {k : Nat}

theorem Counted.reach (run : Counted P start allowed kind k c) : Reach P start allowed c := by
  induction run with
  | start h => exact .start h
  | hit prior admitted last h ih => exact .step ih admitted last
  | miss prior admitted last h ih => exact .step ih admitted last

/-- Every run can be counted. -/
theorem Reach.counted (kind : Config Θ σ ℓ → Θ → Config Θ σ ℓ → Prop)
    (reach : Reach P start allowed c) : ∃ k, Counted P start allowed kind k c := by
  induction reach with
  | start h => exact ⟨0, .start h⟩
  | @step c d t choice prior admitted last ih =>
      obtain ⟨k, run⟩ := ih
      by_cases hKind : kind c t d
      · exact ⟨k + 1, .hit run admitted last hKind⟩
      · exact ⟨k, .miss run admitted last hKind⟩

/-- A meter that goes up by one on the steps of the kind, and stands still on the others,
shows how many there were. -/
theorem Counted.meter {Φ : Config Θ σ ℓ → Int} (hStart : ∀ c, start c → Φ c = 0)
    (hHit : ∀ c d t choice, Reach P start allowed c → P.next c t choice = some d → kind c t d →
      Φ d = Φ c + 1)
    (hMiss : ∀ c d t choice, Reach P start allowed c → P.next c t choice = some d → ¬ kind c t d →
      Φ d = Φ c)
    (run : Counted P start allowed kind k c) : Φ c = k := by
  induction run with
  | start h => exact hStart _ h
  | hit prior admitted last h ih =>
      rw [hHit _ _ _ _ prior.reach last h, ih]
      rfl
  | miss prior admitted last h ih =>
      rw [hMiss _ _ _ _ prior.reach last h, ih]

end Interleaving
