import Mathlib.Logic.Basic

/-! Calls made one after another on one state. A call may be refused (`none`) where
its caller must not make it; what a run of calls keeps is proved one call at a time. -/
namespace Interleaving

variable {σ ρ κ : Type*}

/-- States reached by finitely many calls, each of which `allowed` admits in the
state it is made in. -/
inductive Calls (step : κ → σ → Option σ) (start : σ → Prop) (allowed : σ → κ → Prop) : σ → Prop where
  | start {s : σ} (h : start s) : Calls step start allowed s
  | call {s s' : σ} {op : κ} (prior : Calls step start allowed s) (admitted : allowed s op)
      (last : step op s = some s') : Calls step start allowed s'

/-- No restriction on the calls. -/
def anyCall : σ → κ → Prop := fun _ _ => True

instance (s : σ) (op : κ) : Decidable (anyCall s op) := inferInstanceAs (Decidable True)

namespace Calls

variable {step : κ → σ → Option σ} {start : σ → Prop} {allowed allowed' : σ → κ → Prop} {s : σ}

theorem mono (h : ∀ s op, allowed s op → allowed' s op) (reach : Calls step start allowed s) :
    Calls step start allowed' s := by
  induction reach with
  | start hStart => exact .start hStart
  | call prior admitted last ih => exact .call ih (h _ _ admitted) last

/-- What holds at the start and is kept by each call holds after every run of calls. -/
theorem invariant {I : σ → Prop} (hStart : ∀ s, start s → I s)
    (hCall : ∀ s op s', Calls step start allowed s → I s → allowed s op → step op s = some s' → I s')
    (reach : Calls step start allowed s) : I s := by
  induction reach with
  | start h => exact hStart _ h
  | call prior admitted last ih => exact hCall _ _ _ prior ih admitted last

/-- Forward simulation. When each call of the first system is matched by the same call
of the second, every run of the first is matched by a run of the second. -/
theorem simulated {spec : κ → ρ → Option ρ} {specStart : ρ → Prop} {R : σ → ρ → Prop}
    (hStart : ∀ s, start s → ∃ r, specStart r ∧ R s r)
    (hCall : ∀ s op s' r, R s r → allowed s op → step op s = some s' →
      ∃ r', spec op r = some r' ∧ R s' r')
    (reach : Calls step start allowed s) : ∃ r, Calls spec specStart anyCall r ∧ R s r := by
  induction reach with
  | start h =>
      obtain ⟨r, hSpec, hRelated⟩ := hStart _ h
      exact ⟨r, .start hSpec, hRelated⟩
  | call prior admitted last ih =>
      obtain ⟨r, hRun, hRelated⟩ := ih
      obtain ⟨r', hSpec, hAfter⟩ := hCall _ _ _ _ hRelated admitted last
      exact ⟨r', .call hRun trivial hSpec, hAfter⟩

/-- Make the calls of a list. It fails at the first call that is not allowed or that
is refused. -/
def replay (step : κ → σ → Option σ) (allowed : σ → κ → Prop) [∀ s op, Decidable (allowed s op)]
    (s : σ) : List κ → Option σ
  | [] => some s
  | op :: rest => if allowed s op then (step op s).bind fun s' => replay step allowed s' rest else none

theorem of_replay [∀ s op, Decidable (allowed s op)] {ops : List κ} {s' : σ}
    (reach : Calls step start allowed s) (h : replay step allowed s ops = some s') :
    Calls step start allowed s' := by
  induction ops generalizing s with
  | nil =>
      cases h
      exact reach
  | cons op rest ih =>
      unfold replay at h
      split at h
      · obtain ⟨middle, hFirst, hRest⟩ := Option.bind_eq_some_iff.mp h
        apply ih _ hRest
        exact .call reach (by assumption) hFirst
      · cases h

end Calls

/-- The states that the calls of a list lead to, the last call first. -/
inductive CallsOf (step : κ → σ → Option σ) (start : σ → Prop) : List κ → σ → Prop where
  | start {s : σ} (h : start s) : CallsOf step start [] s
  | call {ops : List κ} {s s' : σ} {op : κ} (prior : CallsOf step start ops s)
      (last : step op s = some s') : CallsOf step start (op :: ops) s'

namespace CallsOf

variable {step : κ → σ → Option σ} {start : σ → Prop} {ops : List κ} {s : σ}

/-- What holds of the calls made and the state they have led to. -/
theorem invariant {I : List κ → σ → Prop} (hStart : ∀ s, start s → I [] s)
    (hCall : ∀ ops s op s', I ops s → step op s = some s' → I (op :: ops) s')
    (run : CallsOf step start ops s) : I ops s := by
  induction run with
  | start h => exact hStart _ h
  | call prior last ih => exact hCall _ _ _ _ ih last

theorem of_replay {more : List κ} {s' : σ} (run : CallsOf step start ops s)
    (h : Calls.replay step anyCall s more = some s') : CallsOf step start (more.reverse ++ ops) s' := by
  induction more generalizing ops s with
  | nil =>
      cases h
      exact run
  | cons op rest ih =>
      have hAdmitted : anyCall s op := trivial
      rw [Calls.replay, if_pos hAdmitted] at h
      obtain ⟨middle, hFirst, hRest⟩ := Option.bind_eq_some_iff.mp h
      rw [List.reverse_cons, List.append_assoc]
      exact ih (.call run hFirst) hRest

end CallsOf

end Interleaving
