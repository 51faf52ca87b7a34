import V2Engine.System.Tokens

/-! No lost wakeup. While a mailbox holds a message for an actor that is not stopped,
somebody is bound to look after it: a token, a sender on its way to the flag, or a
worker that still has to look at the mailbox again. -/
namespace ActorSystem

open Interleaving

variable {n : Nat} {τ ρ β : Type*}

/-- The thread will look after actor `a` without having its token: it is about to
exchange the actor's flag, or to check the mailbox again after clearing the flag. -/
def Stance.Watches (a : ρ) (x : Stance n ρ) : Prop :=
  x.errand = some (.dispatching a) ∨ x.grip = .watching a

/-- The worker is inside `settleToken` after `releaseInFlight`, with the check of the
mailbox or the claim after it still to come. -/
def WorkerPc.Rechecks {ε : Type*} (a : ρ) (pc : WorkerPc n ρ ε) : Prop :=
  pc = .rechecking a ∨ pc = .recounting a ∨ pc = .reclaiming a

theorem rechecks_of_grip {ε : Type*} {a : ρ} {pc : WorkerPc n ρ ε} (h : pc.grip = .watching a) :
    pc.Rechecks a := by
  cases pc <;> simp only [WorkerPc.grip, reduceCtorEq, Grip.watching.injEq] at h <;> subst h
  · exact .inl rfl
  · exact .inr (.inl rfl)
  · exact .inr (.inr rfl)

section Moves

variable {slot : ρ → Nat} {capacity : Nat} {t : Thread n τ} {discards : Prop}
  {d d' : WorkDispatcher n ρ} {needs needs' : ρ → Prop} {x x' : Stance n ρ}

theorem held_setHeld (hSlot : Function.Injective slot) (a b : ρ) (value : Bool) :
    b = a ∧ (d.setHeld (slot b) value).held (slot a) = value ∨
      b ≠ a ∧ (d.setHeld (slot b) value).held (slot a) = d.held (slot a) := by
  by_cases h : b = a
  · exact .inl ⟨h, h ▸ Function.update_self ..⟩
  · exact .inr ⟨h, Function.update_of_ne (hSlot.ne (Ne.symm h)) ..⟩

/-- After a move an actor in need has its flag set or the moving thread's attention,
unless it was in need before and the move took neither from it. -/
theorem Move.attention (hSlot : Function.Injective slot) (a : ρ)
    (move : Move slot capacity t discards d needs x d' needs' x') (hNeeds : needs' a) :
    d'.held (slot a) = true ∨ x'.Watches a ∨
      (needs a ∧ (d.held (slot a) = true → d'.held (slot a) = true) ∧ ¬x.Watches a) := by
  by_cases hAfter : x'.Watches a
  · exact .inr (.inl hAfter)
  cases move
  case quiet hLess => exact .inr (.inr ⟨hLess a hNeeds, id, hAfter⟩)
  case accept g b hMore =>
    simp only [Stance.Watches, Option.some.injEq, Errand.dispatching.injEq, not_or] at hAfter
    have hOld := (hMore a hNeeds).resolve_right (Ne.symm hAfter.1)
    exact .inr (.inr ⟨hOld, id, by simp [Stance.Watches, hAfter.2]⟩)
  case dedup g b hHeld =>
    by_cases h : b = a
    · exact .inl (h ▸ hHeld)
    · simp only [Stance.Watches, reduceCtorEq, false_or] at hAfter
      exact .inr (.inr ⟨hNeeds, id, by simp [Stance.Watches, h, hAfter]⟩)
  case claim g b _ =>
    rcases held_setHeld (d := d) hSlot a b true with ⟨_, hHeld⟩ | ⟨h, hHeld⟩
    · exact .inl hHeld
    · simp only [Stance.Watches, Option.some.injEq, reduceCtorEq, false_or] at hAfter
      exact .inr (.inr ⟨hNeeds, fun hOld => hHeld.trans hOld, by simp [Stance.Watches, h, hAfter]⟩)
  case unhold b =>
    simp only [Stance.Watches, reduceCtorEq, Grip.watching.injEq, false_or] at hAfter
    rcases held_setHeld (d := d) hSlot a b false with ⟨h, _⟩ | ⟨_, hHeld⟩
    · exact absurd h hAfter
    · exact .inr (.inr ⟨hNeeds, fun hOld => hHeld.trans hOld, by simp [Stance.Watches]⟩)
  case unwatch b hSettled =>
    by_cases h : b = a
    · subst h
      exact .inl (hSettled.resolve_left (not_not_intro hNeeds))
    · exact .inr (.inr ⟨hNeeds, id, by simp [Stance.Watches, h]⟩)
  case reclaim b _ =>
    rcases held_setHeld (d := d) hSlot a b true with ⟨_, hHeld⟩ | ⟨h, hHeld⟩
    · exact .inl hHeld
    · exact .inr (.inr ⟨hNeeds, fun hOld => hHeld.trans hOld, by simp [Stance.Watches, h]⟩)
  case popOwn g w b ticket queue _ hGrip _ =>
    refine .inr (.inr ⟨hNeeds, id, ?_⟩)
    rcases hGrip with rfl | rfl <;> simp [Stance.Watches]
  case lock | popStolen | releaseSlot | repay | wake | miss | retire | enter | leaveLoop |
      leaveDrained | leaveStopped | stay =>
    exact .inr (.inr ⟨hNeeds, id, by simp [Stance.Watches]⟩)
  case alarm | flags | clear => exact .inr (.inr ⟨hNeeds, id, hAfter⟩)
  all_goals
    simp only [Stance.Watches, Option.some.injEq, reduceCtorEq, false_or] at hAfter
    exact .inr (.inr ⟨hNeeds, id, by simp [Stance.Watches, hAfter]⟩)

end Moves

section Runs

variable [NeZero n] [DecidableEq ρ] [DecidableEq τ] {cfg : Setup ρ β}
  {c : Config (Thread n τ) (Shared n τ ρ β) (Local n τ ρ β)}
  {allowed : Config (Thread n τ) (Shared n τ ρ β) (Local n τ ρ β) → Thread n τ →
    Choice n ρ β → Prop}

/-- An actor in need has its flag set or is looked after. -/
theorem attended (reach : RunsTo cfg allowed c) (a : ρ) (hNeeds : c.shared.Needs a) :
    c.shared.dispatcher.held (cfg.slot a) = true ∨ ∃ t, (c.here t).stance.Watches a := by
  revert a
  refine Reach.invariant (I := fun c => ∀ a, c.shared.Needs a →
    c.shared.dispatcher.held (cfg.slot a) = true ∨ ∃ t, (c.here t).stance.Watches a) ?_ ?_ reach
  · rintro c rfl a ⟨_, hMailbox⟩
    exact absurd rfl hMailbox
  · intro c t choice shared place _ hInv _ hLocal a hNeeds
    rcases (step_moves hLocal).attention cfg.slot_injective a hNeeds with
      hHeld | hWatches | ⟨hOld, hKept, hGone⟩
    · exact .inl hHeld
    · exact .inr ⟨t, by simpa using hWatches⟩
    · rcases hInv a hOld with hHeld | ⟨u, hWatches⟩
      · exact .inl (hKept hHeld)
      · have hu : u ≠ t := fun h => hGone (h ▸ hWatches)
        exact .inr ⟨u, by simpa [Function.update_of_ne hu] using hWatches⟩

/-- In every state of a run that discards no token, an actor that is not stopped and
has a message in its mailbox has a token, or a sender is about to exchange its flag,
or a worker is about to check its mailbox again. -/
theorem no_lost_wakeup [Fintype τ] (reach : RunsTo cfg keepsTokens c) (a : ρ)
    (hStopped : (c.shared.runtimes a).stopped = false)
    (hMailbox : (c.shared.runtimes a).mailbox ≠ []) :
    tokens a c = 1 ∨ (∃ t, (c.here t).call = .errand (.dispatching a)) ∨
      ∃ w, (c.here (.worker w)).worker.Rechecks a := by
  rcases attended reach a ⟨hStopped, hMailbox⟩ with hHeld | ⟨t, hErrand | hGrip⟩
  · refine .inl ?_
    rw [tokens_eq reach a, hHeld]
    rfl
  · refine .inr (.inl ⟨t, ?_⟩)
    cases hCall : (c.here t).call <;> simp_all [Local.stance, Call.errand?]
  · have hRechecks := rechecks_of_grip hGrip
    cases t with
    | worker w => exact .inr (.inr ⟨w, hRechecks⟩)
    | client u | control =>
        rw [exited_of_not_worker reach (by simp)] at hRechecks
        simp [WorkerPc.Rechecks] at hRechecks

/-- A sender has pushed its message and not yet gone for the flag. -/
def afterPush : Config (Thread 1 Unit) (Shared 1 Unit (Fin 3) Bool) (Local 1 Unit (Fin 3) Bool) :=
  ((step sample).replay keepsTokens (initial sample)
    [(.control, .start), (.client (), .send 0 false), (.client (), .go)]).get (by decide)

theorem no_lost_wakeup_afterPush : tokens 0 afterPush = 1 ∨
    (∃ t, (afterPush.here t).call = .errand (.dispatching 0)) ∨
      ∃ w, (afterPush.here (.worker w)).worker.Rechecks 0 :=
  no_lost_wakeup (Reach.replay (.start rfl) (Option.some_get _).symm) 0 (by decide) (by decide)

end Runs

end ActorSystem
