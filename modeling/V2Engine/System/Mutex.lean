import V2Engine.System.Moves
import V2Engine.Interleaving.Ledger

/-! `mutex_`. It is locked exactly while one call of `drainPendedActor` is under way,
so nobody else touches the pended list during such a call. -/
namespace ActorSystem

open Interleaving

variable {n : Nat} {τ ρ β : Type*}

/-- The call is `drainPendedActor`, which holds `mutex_` until it returns. -/
def Errand.drains : Errand n ρ → Bool
  | .draining _ | .reviving _ _ | .revivingSignal _ _ => true
  | _ => false

def Stance.drains (x : Stance n ρ) : Bool := x.errand.any Errand.drains

section Moves

variable {slot : ρ → Nat} {capacity : Nat} {t : Thread n τ} {discards : Prop}
  {d d' : WorkDispatcher n ρ} {needs needs' : ρ → Prop} {x x' : Stance n ρ}

/-- A move locks or unlocks `mutex_` only when its thread enters or leaves a drain. -/
theorem Move.mutex (hLocked : x.drains = true → d.locked = true)
    (move : Move slot capacity t discards d needs x d' needs' x') :
    (x'.drains.toNat : Int) - d'.locked.toNat = x.drains.toNat - d.locked.toNat := by
  cases move
  case lock hFree =>
    rw [hFree]
    rfl
  case unlock g i hEnd =>
    rw [hLocked rfl]
    rfl
  case popOwn g w a ticket queue hOwner hGrip hPop =>
    rcases hGrip with rfl | rfl <;> rfl
  all_goals rfl

/-- What the pended list loses or gains, and who may do it. -/
theorem Move.pended (move : Move slot capacity t discards d needs x d' needs' x')
    (hChange : d'.pendedActorList ≠ d.pendedActorList) : d.locked = false ∨ x.drains = true := by
  cases move
  case park g a source hFree => exact .inl hFree
  case clear hDiscards hFree => exact .inl hFree
  case revive g a q i hEntry hRoom => exact .inr rfl
  all_goals exact absurd rfl hChange

end Moves

section Runs

variable [NeZero n] [DecidableEq ρ] [DecidableEq τ] [Fintype τ] {cfg : Setup ρ β}
  {c : Config (Thread n τ) (Shared n τ ρ β) (Local n τ ρ β)}
  {allowed : Config (Thread n τ) (Shared n τ ρ β) (Local n τ ρ β) → Thread n τ →
    Choice n ρ β → Prop}

/-- The drains under way, less the lock. -/
abbrev mutexLedger (c : Config (Thread n τ) (Shared n τ ρ β) (Local n τ ρ β)) : Int :=
  ledger (fun s => -(s.dispatcher.locked.toNat : Int)) (fun _ l => l.stance.drains.toNat) c

omit [NeZero n] [DecidableEq ρ] [DecidableEq τ] in
theorem drains_le (c : Config (Thread n τ) (Shared n τ ρ β) (Local n τ ρ β)) (t : Thread n τ) :
    ((c.here t).stance.drains.toNat : Int) ≤
      entries (fun _ (l : Local n τ ρ β) => (l.stance.drains.toNat : Int)) c.here :=
  le_entries (w := fun _ (l : Local n τ ρ β) => (l.stance.drains.toNat : Int))
    (fun _ => Int.natCast_nonneg _) t

omit [NeZero n] [DecidableEq ρ] [DecidableEq τ] in
theorem locked_of_ledger (hLedger : mutexLedger c = 0) (t : Thread n τ)
    (hDrains : (c.here t).stance.drains = true) : c.shared.dispatcher.locked = true := by
  have hEntry := drains_le c t
  simp only [ledger] at hLedger
  rw [hDrains] at hEntry
  by_contra hFree
  rw [Bool.not_eq_true] at hFree
  rw [hFree] at hLedger
  simp only [Bool.toNat_true, Bool.toNat_false] at hEntry hLedger
  omega

theorem mutexLedger_eq (reach : RunsTo cfg allowed c) : mutexLedger c = 0 := by
  apply Reach.ledger_eq _ _ reach
  · rintro c rfl
    have hHands : entries (fun (_ : Thread n τ) (l : Local n τ ρ β) => (l.stance.drains.toNat : Int))
        (fun _ => .start) = 0 := entries_eq_zero fun _ => rfl
    simp only [ledger, initial, hHands]
    rfl
  · intro c t choice shared place _ hLedger _ hLocal
    have hMove := (step_moves hLocal).mutex (locked_of_ledger hLedger t)
    omega

/-- Whoever is in `drainPendedActor` has `mutex_`. -/
theorem locked_of_drains (reach : RunsTo cfg allowed c) (t : Thread n τ)
    (hDrains : (c.here t).stance.drains = true) : c.shared.dispatcher.locked = true :=
  locked_of_ledger (mutexLedger_eq reach) t hDrains

/-- Only one thread at a time is in `drainPendedActor`. -/
theorem drains_unique (reach : RunsTo cfg allowed c) {t u : Thread n τ}
    (ht : (c.here t).stance.drains = true) (hu : (c.here u).stance.drains = true) : t = u := by
  by_contra hne
  have hBoth := add_le_entries (w := fun _ (l : Local n τ ρ β) => (l.stance.drains.toNat : Int))
    (f := c.here) (fun _ => Int.natCast_nonneg _) hne
  have hLedger := mutexLedger_eq reach
  have hLocked := Bool.toNat_le c.shared.dispatcher.locked
  simp only [ledger] at hLedger
  simp only [ht, hu, Bool.toNat_true] at hBoth
  omega

/-- While `mutex_` is locked somebody drains. -/
theorem exists_drains (reach : RunsTo cfg allowed c) (hLocked : c.shared.dispatcher.locked = true) :
    ∃ t, (c.here t).stance.drains = true := by
  have hLedger := mutexLedger_eq reach
  simp only [ledger, hLocked, Bool.toNat_true] at hLedger
  obtain ⟨t, ht⟩ := exists_entry_ne_zero
    (w := fun _ (l : Local n τ ρ β) => (l.stance.drains.toNat : Int)) (f := c.here) (by omega)
  apply Exists.intro t
  by_contra hDrains
  rw [Bool.not_eq_true] at hDrains
  exact ht (by rw [hDrains]; rfl)

end Runs

end ActorSystem
