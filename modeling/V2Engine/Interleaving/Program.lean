import Mathlib.Logic.Function.Basic
import Mathlib.Algebra.GroupWithZero.Nat

/-! Threads that take atomic steps over one shared state, in any order. A program
gives the next atomic step of one thread from the shared state and from where that
thread stands; the interleaving is left to the schedule. Nothing here depends on
what the threads compute. -/
namespace Interleaving

/-- The threads of a small system are numbered from zero. -/
scoped instance one_threads : NeZero 1 := ⟨Nat.one_ne_zero⟩

@[inherit_doc one_threads]
scoped instance two_threads : NeZero 2 := ⟨Nat.succ_ne_zero 1⟩

@[inherit_doc one_threads]
scoped instance three_threads : NeZero 3 := ⟨Nat.succ_ne_zero 2⟩

variable {Θ σ ℓ κ : Type*}

/-- What the threads share, and where each of them stands in its own code. -/
structure Config (Θ σ ℓ : Type*) where
  shared : σ
  here : Θ → ℓ

/-- One atomic step of one thread. The last argument resolves whatever the
thread's code leaves open, and `none` means that the thread cannot step that way. -/
abbrev Program (Θ σ ℓ κ : Type*) := Θ → σ → ℓ → κ → Option (σ × ℓ)

variable [DecidableEq Θ]

/-- The whole system moves when one thread does: only that thread changes place. -/
def Program.next (P : Program Θ σ ℓ κ) (c : Config Θ σ ℓ) (t : Θ) (choice : κ) :
    Option (Config Θ σ ℓ) :=
  (P t c.shared (c.here t) choice).map fun after =>
    ⟨after.1, Function.update c.here t after.2⟩

theorem Program.next_eq_some {P : Program Θ σ ℓ κ} {c d : Config Θ σ ℓ} {t : Θ} {choice : κ} :
    P.next c t choice = some d ↔
      ∃ shared place, P t c.shared (c.here t) choice = some (shared, place) ∧
        d = ⟨shared, Function.update c.here t place⟩ := by
  simp only [Program.next, Option.map_eq_some_iff, Prod.exists]
  constructor
  · rintro ⟨shared, place, hStep, rfl⟩
    exact ⟨shared, place, hStep, rfl⟩
  · rintro ⟨shared, place, hStep, rfl⟩
    exact ⟨shared, place, hStep, rfl⟩

/-- States reached by finitely many steps, each of which `allowed` admits in the
state it is taken from. With `allowed` always true this is every interleaving. -/
inductive Reach (P : Program Θ σ ℓ κ) (start : Config Θ σ ℓ → Prop)
    (allowed : Config Θ σ ℓ → Θ → κ → Prop) : Config Θ σ ℓ → Prop where
  | start {c : Config Θ σ ℓ} (h : start c) : Reach P start allowed c
  | step {c d : Config Θ σ ℓ} {t : Θ} {choice : κ} (prior : Reach P start allowed c)
      (admitted : allowed c t choice) (last : P.next c t choice = some d) :
      Reach P start allowed d

/-- No restriction on the schedule. -/
def anyStep : Config Θ σ ℓ → Θ → κ → Prop := fun _ _ _ => True

instance (c : Config Θ σ ℓ) (t : Θ) (choice : κ) : Decidable (anyStep c t choice) :=
  inferInstanceAs (Decidable True)

theorem Reach.mono {P : Program Θ σ ℓ κ} {start : Config Θ σ ℓ → Prop}
    {allowed allowed' : Config Θ σ ℓ → Θ → κ → Prop} {c : Config Θ σ ℓ}
    (h : ∀ c t choice, allowed c t choice → allowed' c t choice)
    (reach : Reach P start allowed c) : Reach P start allowed' c := by
  induction reach with
  | start hStart => exact .start hStart
  | step prior admitted last ih => exact .step ih (h _ _ _ admitted) last

/-- The induction every safety proof uses. Invariants proved earlier are
available in the step through the reachability of the state before it. -/
theorem Reach.invariant {P : Program Θ σ ℓ κ} {start : Config Θ σ ℓ → Prop}
    {allowed : Config Θ σ ℓ → Θ → κ → Prop} {I : Config Θ σ ℓ → Prop}
    (hStart : ∀ c, start c → I c)
    (hStep : ∀ c t choice shared place, Reach P start allowed c → I c → allowed c t choice →
      P t c.shared (c.here t) choice = some (shared, place) →
      I ⟨shared, Function.update c.here t place⟩)
    {c : Config Θ σ ℓ} (reach : Reach P start allowed c) : I c := by
  induction reach with
  | start h => exact hStart _ h
  | step prior admitted last ih =>
      obtain ⟨shared, place, hLocal, rfl⟩ := Program.next_eq_some.mp last
      exact hStep _ _ _ _ _ prior ih admitted hLocal

section Either

variable {Ω m μ : Type*} [DecidableEq Ω]

/-- Two families of threads over the same shared state, each with code of its own. -/
def Program.either (P : Program Θ σ ℓ κ) (Q : Program Ω σ m μ) :
    Program (Θ ⊕ Ω) σ (ℓ ⊕ m) (κ ⊕ μ)
  | .inl t, s, .inl l, .inl choice => (P t s l choice).map fun after => (after.1, .inl after.2)
  | .inr r, s, .inr l, .inr choice => (Q r s l choice).map fun after => (after.1, .inr after.2)
  | _, _, _, _ => none

/-- Every thread of either family stands at its starting place. -/
def Config.either (s : σ) (l : ℓ) (k : m) : Config (Θ ⊕ Ω) σ (ℓ ⊕ m) :=
  ⟨s, Sum.elim (fun _ => .inl l) (fun _ => .inr k)⟩

/-- A proof outline for two families: a fact about the shared state, one for the
threads of each family. -/
structure Outlined (S : σ → Prop) (J : σ → Θ → ℓ → Prop) (K : σ → Ω → m → Prop)
    (c : Config (Θ ⊕ Ω) σ (ℓ ⊕ m)) : Prop where
  shared : S c.shared
  left : ∀ t, ∃ l, c.here (.inl t) = .inl l ∧ J c.shared t l
  right : ∀ r, ∃ k, c.here (.inr r) = .inr k ∧ K c.shared r k

theorem Reach.outlined {P : Program Θ σ ℓ κ} {Q : Program Ω σ m μ} {s₀ : σ} {l₀ : ℓ} {k₀ : m}
    {S : σ → Prop} {J : σ → Θ → ℓ → Prop} {K : σ → Ω → m → Prop}
    (hStart : S s₀ ∧ (∀ t, J s₀ t l₀) ∧ ∀ r, K s₀ r k₀)
    (hLeft : ∀ t s l choice s' l', S s → J s t l → P t s l choice = some (s', l') →
      S s' ∧ J s' t l' ∧ (∀ u k, u ≠ t → J s u k → J s' u k) ∧ ∀ r k, K s r k → K s' r k)
    (hRight : ∀ r s k choice s' k', S s → K s r k → Q r s k choice = some (s', k') →
      S s' ∧ K s' r k' ∧ (∀ u l, u ≠ r → K s u l → K s' u l) ∧ ∀ t l, J s t l → J s' t l)
    {c : Config (Θ ⊕ Ω) σ (ℓ ⊕ m)}
    (reach : Reach (P.either Q) (· = Config.either s₀ l₀ k₀) anyStep c) : Outlined S J K c := by
  refine Reach.invariant (I := Outlined S J K) ?_ ?_ reach
  · rintro c rfl
    exact ⟨hStart.1, fun t => ⟨l₀, rfl, hStart.2.1 t⟩, fun r => ⟨k₀, rfl, hStart.2.2 r⟩⟩
  · intro c thread choice shared place _ outlined _ hLocal
    cases thread with
    | inl t =>
        obtain ⟨l, hHere, hPlace⟩ := outlined.left t
        rw [hHere] at hLocal
        cases choice with
        | inr choice => cases hLocal
        | inl choice =>
            obtain ⟨⟨s', l'⟩, hStep, hAfter⟩ := Option.map_eq_some_iff.mp hLocal
            cases hAfter
            obtain ⟨hShared, hOwn, hSame, hOther⟩ := hLeft t _ _ _ _ _ outlined.shared hPlace hStep
            refine ⟨hShared, fun u => ?_, fun r => ?_⟩
            · by_cases hu : u = t
              · subst hu
                exact ⟨l', Function.update_self .., hOwn⟩
              · obtain ⟨k, hThere, hk⟩ := outlined.left u
                exact ⟨k, by simpa [Function.update_of_ne, hu] using hThere, hSame u k hu hk⟩
            · obtain ⟨k, hThere, hk⟩ := outlined.right r
              exact ⟨k, by simpa using hThere, hOther r k hk⟩
    | inr r =>
        obtain ⟨k, hHere, hPlace⟩ := outlined.right r
        rw [hHere] at hLocal
        cases choice with
        | inl choice => cases hLocal
        | inr choice =>
            obtain ⟨⟨s', k'⟩, hStep, hAfter⟩ := Option.map_eq_some_iff.mp hLocal
            cases hAfter
            obtain ⟨hShared, hOwn, hSame, hOther⟩ := hRight r _ _ _ _ _ outlined.shared hPlace hStep
            refine ⟨hShared, fun t => ?_, fun u => ?_⟩
            · obtain ⟨l, hThere, hl⟩ := outlined.left t
              exact ⟨l, by simpa using hThere, hOther t l hl⟩
            · by_cases hu : u = r
              · subst hu
                exact ⟨k', Function.update_self .., hOwn⟩
              · obtain ⟨l, hThere, hl⟩ := outlined.right u
                exact ⟨l, by simpa [Function.update_of_ne, hu] using hThere, hSame u l hu hl⟩

end Either

/-- Replay a schedule. It fails at the first step that is not allowed or that its
thread cannot take. -/
def Program.replay (P : Program Θ σ ℓ κ) (allowed : Config Θ σ ℓ → Θ → κ → Prop)
    [∀ c t choice, Decidable (allowed c t choice)] (c : Config Θ σ ℓ) :
    List (Θ × κ) → Option (Config Θ σ ℓ)
  | [] => some c
  | (t, choice) :: rest =>
      if allowed c t choice then (P.next c t choice).bind fun d => P.replay allowed d rest
      else none

theorem Reach.replay {P : Program Θ σ ℓ κ} {start : Config Θ σ ℓ → Prop}
    {allowed : Config Θ σ ℓ → Θ → κ → Prop} [∀ c t choice, Decidable (allowed c t choice)]
    {schedule : List (Θ × κ)} {c d : Config Θ σ ℓ} (reach : Reach P start allowed c)
    (h : P.replay allowed c schedule = some d) : Reach P start allowed d := by
  induction schedule generalizing c with
  | nil =>
      cases h
      exact reach
  | cons move rest ih =>
      obtain ⟨t, choice⟩ := move
      unfold Program.replay at h
      split at h
      · obtain ⟨middle, hFirst, hRest⟩ := Option.bind_eq_some_iff.mp h
        exact ih (.step reach (by assumption) hFirst) hRest
      · cases h

end Interleaving
