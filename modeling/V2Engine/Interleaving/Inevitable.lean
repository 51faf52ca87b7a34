import Mathlib.Order.WellFounded

/-! Ends that no run can miss. A step relation leads inevitably to a goal when every
run that has not come to the goal can go on, and none goes on for ever. -/
namespace Interleaving

variable {α : Type*}

/-- From here every run comes to the goal, whichever steps it takes. -/
inductive Inevitable (next : α → α → Prop) (goal : α → Prop) : α → Prop where
  | done {a : α} (h : goal a) : Inevitable next goal a
  | later {a : α} (can : ∃ b, next a b) (all : ∀ b, next a b → Inevitable next goal b) :
      Inevitable next goal a

/-- What each step brings down in a well-founded order cannot go on for ever. -/
theorem Inevitable.of_measure {next : α → α → Prop} {goal I : α → Prop} {μ : Type*}
    {lt : μ → μ → Prop} (hWellFounded : WellFounded lt) (measure : α → μ)
    (hProgress : ∀ a, I a → goal a ∨ ∃ b, next a b)
    (hStep : ∀ a b, I a → next a b → I b ∧ lt (measure b) (measure a)) {a : α} (h : I a) :
    Inevitable next goal a := by
  induction hm : measure a using hWellFounded.induction generalizing a with
  | h m ih =>
      rcases hProgress a h with hGoal | hCan
      · exact .done hGoal
      · refine .later hCan fun b hNext => ?_
        obtain ⟨hInv, hLess⟩ := hStep a b h hNext
        exact ih (measure b) (hm ▸ hLess) hInv rfl

theorem Inevitable.mono {next : α → α → Prop} {goal goal' : α → Prop} {a : α}
    (h : Inevitable next goal a) (hGoal : ∀ b, goal b → goal' b) : Inevitable next goal' a := by
  induction h with
  | done h => exact .done (hGoal _ h)
  | later can _ ih => exact .later can ih

/-- Steps taken after the goal was met do not matter. -/
theorem Inevitable.of_before {next : α → α → Prop} {goal : α → Prop} {a : α}
    (h : Inevitable (fun b c => ¬goal b ∧ next b c) goal a) : Inevitable next goal a := by
  induction h with
  | done h => exact .done h
  | @later a can _ ih =>
      by_cases hGoal : goal a
      · exact .done hGoal
      · obtain ⟨b, _, hNext⟩ := can
        exact .later ⟨b, hNext⟩ fun c hNext => ih c ⟨hGoal, hNext⟩

/-- Two goals that runs cannot go past are met together. -/
theorem Inevitable.meet {next : α → α → Prop} {goal goal' : α → Prop} {a : α}
    (h : Inevitable next goal a) (h' : Inevitable next goal' a)
    (hEnd : ∀ b c, goal b → ¬next b c) (hEnd' : ∀ b c, goal' b → ¬next b c) :
    ∃ b, goal b ∧ goal' b := by
  induction h with
  | @done a hGoal =>
      cases h' with
      | done hGoal' => exact ⟨a, hGoal, hGoal'⟩
      | later can _ =>
          obtain ⟨b, hNext⟩ := can
          exact absurd hNext (hEnd a b hGoal)
  | @later a can _ ih =>
      obtain ⟨b, hNext⟩ := can
      cases h' with
      | done hGoal' => exact absurd hNext (hEnd' a b hGoal')
      | later _ all => exact ih b hNext (all b hNext)

/-- From here a run comes to the goal by the steps of `go`, of which there is always one,
whichever they are, and whatever steps of `env` come in between. -/
inductive Despite (go env : α → α → Prop) (goal : α → Prop) : α → Prop where
  | done {a : α} (h : goal a) : Despite go env goal a
  | later {a : α} (can : ∃ b, go a b)
      (all : ∀ b, go a b ∨ env a b → Despite go env goal b) : Despite go env goal a

/-- It is enough that every step brings down one measure. -/
theorem Despite.of_measure {go env : α → α → Prop} {goal I : α → Prop} (measure : α → Nat)
    (hProgress : ∀ a, I a → goal a ∨ ∃ b, go a b)
    (hStep : ∀ a b, I a → go a b ∨ env a b → I b ∧ measure b < measure a) {a : α} (h : I a) :
    Despite go env goal a := by
  induction hm : measure a using Nat.strong_induction_on generalizing a with
  | h m ih =>
      rcases hProgress a h with hGoal | hCan
      · exact .done hGoal
      · refine .later hCan fun b hNext => ?_
        obtain ⟨hInv, hLess⟩ := hStep a b h hNext
        exact ih (measure b) (hm ▸ hLess) hInv rfl

/-- Where nothing can go on, only the goal itself will do. -/
theorem Despite.goal_of_stuck {go env : α → α → Prop} {goal : α → Prop} {a : α}
    (h : Despite go env goal a) (hStuck : ∀ b, ¬go a b) : goal a := by
  cases h with
  | done h => exact h
  | later can _ =>
      obtain ⟨b, hNext⟩ := can
      exact absurd hNext (hStuck b)

section Calls

variable {σ ℓ κ : Type*}

/-- A call that runs alone: it takes the step of its code, or one of finitely many
failures that `compare_exchange_weak` may report for no reason. -/
inductive Alone (P : σ → ℓ → κ → Option (σ × ℓ)) (go : κ) (weak : κ → Prop) :
    σ × ℓ × Nat → σ × ℓ × Nat → Prop where
  | go {s s' : σ} {l l' : ℓ} {failures : Nat} (h : P s l go = some (s', l')) :
      Alone P go weak (s, l, failures) (s', l', failures)
  | weak {s s' : σ} {l l' : ℓ} {failures : Nat} {choice : κ} (hWeak : weak choice)
      (h : P s l choice = some (s', l')) : Alone P go weak (s, l, failures + 1) (s', l', failures)

/-- The call comes to an end, and in a way that `post` admits. -/
def Ends (P : σ → ℓ → κ → Option (σ × ℓ)) (go : κ) (weak : κ → Prop) (s : σ) (l : ℓ)
    (post : σ → ℓ → Prop) : Prop :=
  ∀ failures, Inevitable (Alone P go weak) (fun x => post x.1 x.2.1) (s, l, failures)

namespace Ends

variable {P : σ → ℓ → κ → Option (σ × ℓ)} {go : κ} {weak : κ → Prop} {s t : σ} {l m : ℓ}
  {post post' : σ → ℓ → Prop}

theorem done (h : post s l) : Ends P go weak s l post := fun _ => .done h

theorem mono (h : Ends P go weak s l post) (hPost : ∀ s l, post s l → post' s l) :
    Ends P go weak s l post' :=
  fun failures => (h failures).mono fun x => hPost x.1 x.2.1

theorem step (h : Ends P go weak t m post) (hGo : P s l go = some (t, m))
    (hWeak : ∀ choice, weak choice → P s l choice = none) : Ends P go weak s l post := by
  intro failures
  refine .later ⟨_, .go hGo⟩ fun x hNext => ?_
  cases hNext with
  | go hStep =>
      rw [hGo] at hStep
      cases hStep
      exact h failures
  | weak hChoice hStep =>
      rw [hWeak _ hChoice] at hStep
      cases hStep

/-- A compare-and-swap that may fail for no reason, after which the call comes back to it. -/
theorem retry {b : ℓ} (h : Ends P go weak t m post) (hGo : P s l go = some (t, m))
    (hWeak : ∀ choice, weak choice → P s l choice = some (s, b))
    (hBack : P s b go = some (s, l)) (hBackWeak : ∀ choice, weak choice → P s b choice = none) :
    Ends P go weak s l post := by
  intro failures
  induction failures with
  | zero =>
      refine .later ⟨_, .go hGo⟩ fun x hNext => ?_
      cases hNext with
      | go hStep =>
          rw [hGo] at hStep
          cases hStep
          exact h 0
  | succ failures ih =>
      refine .later ⟨_, .go hGo⟩ fun x hNext => ?_
      cases hNext with
      | go hStep =>
          rw [hGo] at hStep
          cases hStep
          exact h (failures + 1)
      | weak hChoice hStep =>
          rw [hWeak _ hChoice] at hStep
          cases hStep
          refine .later ⟨_, .go hBack⟩ fun y hNext => ?_
          cases hNext with
          | go hStep =>
              rw [hBack] at hStep
              cases hStep
              exact ih
          | weak hChoice hStep =>
              rw [hBackWeak _ hChoice] at hStep
              cases hStep

theorem meet (h : Ends P go weak s l post) (h' : Ends P go weak s l post')
    (hEnd : ∀ s l choice, post s l → choice = go ∨ weak choice → P s l choice = none)
    (hEnd' : ∀ s l choice, post' s l → choice = go ∨ weak choice → P s l choice = none) :
    ∃ s l, post s l ∧ post' s l := by
  have hStop : ∀ {post : σ → ℓ → Prop},
      (∀ s l choice, post s l → choice = go ∨ weak choice → P s l choice = none) →
      ∀ x y : σ × ℓ × Nat, post x.1 x.2.1 → ¬Alone P go weak x y := by
    intro post hEnd x y hPost hNext
    cases hNext with
    | go hStep =>
        rw [hEnd _ _ _ hPost (.inl rfl)] at hStep
        cases hStep
    | weak hChoice hStep =>
        rw [hEnd _ _ _ hPost (.inr hChoice)] at hStep
        cases hStep
  obtain ⟨x, hx, hx'⟩ := (h 0).meet (h' 0) (hStop hEnd) (hStop hEnd')
  exact ⟨_, _, hx, hx'⟩

end Ends

end Calls

end Interleaving
