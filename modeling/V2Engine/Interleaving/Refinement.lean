import V2Engine.Interleaving.Program
import Mathlib.Logic.Relation

/-! A system of threads seen as a simpler one. A step of the threads is seen as some
steps of the simpler system, one after the other, or as none. -/
namespace Interleaving

open Relation

variable {Θ σ ℓ κ α : Type*} [DecidableEq Θ]

/-- Forward simulation. What the threads have reached, the simpler system reaches too. -/
theorem Reach.refines {P : Program Θ σ ℓ κ} {start : Config Θ σ ℓ → Prop}
    {allowed : Config Θ σ ℓ → Θ → κ → Prop} {acts : α → α → Prop} {first : α}
    {R : Config Θ σ ℓ → α → Prop} (hStart : ∀ c, start c → R c first)
    (hStep : ∀ c t choice shared place r, Reach P start allowed c →
      Reach P start allowed ⟨shared, Function.update c.here t place⟩ → R c r →
      P t c.shared (c.here t) choice = some (shared, place) →
      ∃ r', ReflTransGen acts r r' ∧ R ⟨shared, Function.update c.here t place⟩ r')
    {c : Config Θ σ ℓ} (reach : Reach P start allowed c) :
    ∃ r, ReflTransGen acts first r ∧ R c r := by
  induction reach with
  | start h => exact ⟨first, .refl, hStart _ h⟩
  | step prior admitted last ih =>
      obtain ⟨r, hRun, hRelated⟩ := ih
      have hAfter := Reach.step prior admitted last
      obtain ⟨shared, place, hLocal, rfl⟩ := Program.next_eq_some.mp last
      obtain ⟨r', hMore, hRelated'⟩ := hStep _ _ _ _ _ r prior hAfter hRelated hLocal
      exact ⟨r', hRun.trans hMore, hRelated'⟩

end Interleaving
