import V2Engine.Interleaving.Program

/-! A program with an observer. The observer sees where a thread stands before and after each
of its steps and keeps notes of it; the program itself does not see the notes. -/
namespace Interleaving

variable {Θ σ ℓ κ ω : Type*}

/-- The notes are part of the shared state, after each step those that `note` makes of it. -/
def Program.watched (P : Program Θ σ ℓ κ) (note : ω → Θ → ℓ → ℓ → ω) : Program Θ (σ × ω) ℓ κ :=
  fun t s l choice => (P t s.1 l choice).map fun after => ((after.1, note s.2 t l after.2), after.2)

def Config.watched (c : Config Θ σ ℓ) (notes : ω) : Config Θ (σ × ω) ℓ := ⟨(c.shared, notes), c.here⟩

/-- The system without its observer. -/
def Config.unwatched (c : Config Θ (σ × ω) ℓ) : Config Θ σ ℓ := ⟨c.shared.1, c.here⟩

variable {P : Program Θ σ ℓ κ} {note : ω → Θ → ℓ → ℓ → ω}

theorem Program.watched_eq_some {t : Θ} {s s' : σ × ω} {l l' : ℓ} {choice : κ} :
    P.watched note t s l choice = some (s', l') ↔
      P t s.1 l choice = some (s'.1, l') ∧ s'.2 = note s.2 t l l' := by
  simp only [Program.watched, Option.map_eq_some_iff, Prod.exists]
  constructor
  · rintro ⟨shared, place, hStep, hAfter⟩
    cases hAfter
    exact ⟨hStep, rfl⟩
  · rintro ⟨hStep, hNotes⟩
    exact ⟨s'.1, l', hStep, by rw [← hNotes]⟩

variable [DecidableEq Θ] {start : Config Θ σ ℓ} {blank : ω}
  {allowed : Config Θ (σ × ω) ℓ → Θ → κ → Prop} {c : Config Θ (σ × ω) ℓ}

/-- The observer sees runs of the system. -/
theorem Reach.unwatched (reach : Reach (P.watched note) (· = start.watched blank) allowed c) :
    Reach P (· = start) anyStep c.unwatched := by
  induction reach with
  | start h =>
      cases h
      exact .start rfl
  | step prior admitted last ih =>
      obtain ⟨shared, place, hLocal, rfl⟩ := Program.next_eq_some.mp last
      obtain ⟨hStep, _⟩ := Program.watched_eq_some.mp hLocal
      exact .step ih trivial (Program.next_eq_some.mpr ⟨_, _, hStep, rfl⟩)

end Interleaving
