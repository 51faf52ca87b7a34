import V2Engine.System.Tokens
import V2Engine.System.Mutex
import V2Engine.System.Overflow
import Mathlib.Algebra.BigOperators.Group.Multiset.Basic
import Mathlib.Algebra.BigOperators.Ring.Finset
import Mathlib.Algebra.Order.BigOperators.Group.Multiset

/-! The count of `pendingWork_`. It counts the tokens in the worker queues and those
that a worker has not retired, as long as no hand-over of a token is refused by its
queue. -/
namespace ActorSystem

open Interleaving

variable {n : Nat} {τ ρ β : Type*}

/-- Tokens that a worker has taken from a queue and not yet retired. -/
def Grip.unretired : Grip n ρ → Multiset ρ
  | .popped a _ _ _ | .owing a _ | .carrying a | .watching a | .retiring a => {a}
  | _ => 0

/-- A token that is being handed over is still unretired. -/
def Errand.unretired : Errand n ρ → Multiset ρ
  | .entering a .redispatch | .parking a .redispatch => {a}
  | _ => 0

def Stance.unretired (x : Stance n ρ) : Multiset ρ :=
  x.grip.unretired + x.errand.elim 0 Errand.unretired

/-- The call has queued a token and not yet counted it. -/
def Errand.uncounted : Errand n ρ → Int
  | .signalling _ .dispatch | .counting | .reviving _ _ => 1
  | _ => 0

/-- What the thread's doings add to the tokens that `pendingWork_` has counted. -/
def Stance.counted (x : Stance n ρ) : Int :=
  x.unretired.card - x.errand.elim 0 Errand.uncounted

/-- Queue entries less what the counter says. -/
def uncounted (d : WorkDispatcher n ρ) : Int :=
  entries (fun _ queue => (queue.items.length : Int)) d.queues - d.pendingWork

section Moves

variable {slot : ρ → Nat} {capacity : Nat} {t : Thread n τ} {discards : Prop}
  {d d' : WorkDispatcher n ρ} {needs needs' : ρ → Prop} {x x' : Stance n ρ}

theorem uncounted_push (a : ρ) (q : Fin n) : uncounted (d.push q a) = uncounted d + 1 := by
  simp only [uncounted, WorkDispatcher.push, WorkDispatcher.setQueue, entries_update,
    WorkQueue.push, List.length_append, List.length_singleton]
  push_cast
  omega

theorem uncounted_pop {a : ρ} {q : Fin n} {ticket : Nat} {queue : WorkQueue ρ}
    (h : (d.queues q).pop = some (a, ticket, queue)) :
    uncounted (d.setQueue q queue) = uncounted d - 1 := by
  simp only [uncounted, WorkDispatcher.setQueue, entries_update, (WorkQueue.pop_eq_some h).1,
    List.length_cons]
  push_cast
  omega

theorem uncounted_release (q : Fin n) (ticket : Nat) :
    uncounted (d.setQueue q ((d.queues q).release ticket)) = uncounted d := by
  simp only [uncounted, WorkDispatcher.setQueue, entries_update, WorkQueue.release]
  omega

/-- A move counts a token where it makes one and takes it from the count where it drops
one. Only parking a token that was being handed over leaves it counted for nothing. -/
theorem Move.accounting (move : Move slot capacity t discards d needs x d' needs' x') :
    uncounted d' + x'.counted = uncounted d + x.counted ∨
      (∃ a, x.errand = some (.parking a .redispatch)) ∧
        uncounted d' + x'.counted = uncounted d + x.counted - 1 := by
  cases move
  case park g a source hFree =>
    cases source
    · exact .inl rfl
    · refine .inr ⟨⟨a, rfl⟩, ?_⟩
      simp [Stance.counted, Stance.unretired, Errand.unretired, Errand.uncounted, uncounted]
      omega
  all_goals refine .inl ?_
  case push g a source q hRoom =>
    rw [uncounted_push]
    cases source
    · simp [Stance.counted, Stance.unretired, Errand.unretired, Errand.uncounted]
    · simp [Stance.counted, Stance.unretired, Errand.unretired, Errand.uncounted]
      omega
  case revive g a q i hEntry hRoom =>
    have hPush := uncounted_push (d := d) a q
    simp [Stance.counted, Stance.unretired, Errand.unretired, Errand.uncounted, uncounted]
      at hPush ⊢
    omega
  case count | reviveCount | retire =>
    simp [Stance.counted, Stance.unretired, Errand.unretired, Errand.uncounted, uncounted,
      Grip.unretired]
    omega
  case popOwn g w a ticket queue hOwner hGrip hPop =>
    rw [uncounted_pop hPop]
    rcases hGrip with rfl | rfl <;>
      simp [Stance.counted, Stance.unretired, Grip.unretired]
  case popStolen q a ticket queue hPop =>
    rw [uncounted_pop hPop]
    simp [Stance.counted, Stance.unretired, Grip.unretired]
  case releaseSlot a q ticket stolen =>
    rw [uncounted_release]
    cases stolen <;> rfl
  case reclaim a hHeld =>
    simp [Stance.counted, Stance.unretired, Grip.unretired, Errand.unretired, Errand.uncounted,
      uncounted]
  case refuse g a source q hFull => cases source <;> rfl
  all_goals rfl

end Moves

section Runs

variable [NeZero n] [DecidableEq ρ] [DecidableEq τ] [Fintype τ] {cfg : Setup ρ β}
  {c : Config (Thread n τ) (Shared n τ ρ β) (Local n τ ρ β)}
  {allowed : Config (Thread n τ) (Shared n τ ρ β) (Local n τ ρ β) → Thread n τ →
    Choice n ρ β → Prop}

/-- Tokens that are in a worker queue, or with a worker that has not retired them. -/
def unretired (c : Config (Thread n τ) (Shared n τ ρ β) (Local n τ ρ β)) : Multiset ρ :=
  (∑ q, ((c.shared.dispatcher.queues q).items : Multiset ρ)) + ∑ t, (c.here t).stance.unretired

/-- Tokens less the counter, with the calls that have not counted theirs yet. -/
abbrev pendingLedger (c : Config (Thread n τ) (Shared n τ ρ β) (Local n τ ρ β)) : Int :=
  ledger (fun s => uncounted s.dispatcher) (fun _ l => l.stance.counted) c

omit [NeZero n] [DecidableEq ρ] [DecidableEq τ] in
theorem pendingLedger_initial :
    pendingLedger (initial cfg : Config (Thread n τ) (Shared n τ ρ β) (Local n τ ρ β)) = 0 := by
  have hHands : entries (fun (_ : Thread n τ) (l : Local n τ ρ β) => l.stance.counted)
      (fun _ => .start) = 0 := entries_eq_zero fun _ => rfl
  have hQueues : uncounted (.constructed : WorkDispatcher n ρ) = 0 :=
    congrArg (· - 0) (entries_eq_zero fun _ => rfl)
  simp only [ledger, initial, Shared.constructed, hHands, hQueues]
  rfl

omit [NeZero n] [DecidableEq ρ] [DecidableEq τ] in
theorem card_unretired (c : Config (Thread n τ) (Shared n τ ρ β) (Local n τ ρ β)) :
    ((unretired c).card : Int) =
      entries (fun _ queue => (queue.items.length : Int)) c.shared.dispatcher.queues +
        entries (fun _ (l : Local n τ ρ β) => (l.stance.unretired.card : Int)) c.here := by
  simp only [unretired, Multiset.card_add, Multiset.card_sum, Multiset.coe_card, entries]
  push_cast
  rfl

omit [NeZero n] [DecidableEq ρ] [DecidableEq τ] in
/-- The ledger once every call has counted its token. -/
theorem pendingLedger_settled
    (hCounted : ∀ t, (c.here t).stance.errand.elim 0 Errand.uncounted = 0) :
    pendingLedger c = (unretired c).card - c.shared.dispatcher.pendingWork := by
  have hHands : entries (fun _ (l : Local n τ ρ β) => l.stance.counted) c.here =
      entries (fun _ (l : Local n τ ρ β) => (l.stance.unretired.card : Int)) c.here := by
    apply Finset.sum_congr rfl
    intro t _
    show _ - _ = _
    rw [hCounted t, Int.sub_zero]
  rw [card_unretired]
  simp only [ledger, uncounted, hHands]
  omega

/-- No push of a `redispatch` is refused. -/
def handsOver (cfg : Setup ρ β) (c : Config (Thread n τ) (Shared n τ ρ β) (Local n τ ρ β))
    (t : Thread n τ) (choice : Choice n ρ β) : Prop :=
  refusedPush cfg c.shared (c.here t).call choice ≠ some .redispatch

instance (c : Config (Thread n τ) (Shared n τ ρ β) (Local n τ ρ β)) (t : Thread n τ)
    (choice : Choice n ρ β) : Decidable (handsOver cfg c t choice) :=
  inferInstanceAs (Decidable (_ ≠ _))

omit [Fintype τ] in
theorem not_parking_redispatch (reach : RunsTo cfg (handsOver cfg) c) (t : Thread n τ) (a : ρ) :
    (c.here t).stance.errand ≠ some (.parking a .redispatch) := by
  refine Reach.invariant
    (I := fun c => (c.here t).stance.errand ≠ some (.parking a .redispatch)) ?_ ?_ reach
  · rintro c rfl
    simp [initial, Local.start, Local.stance, Call.errand?]
  · intro c u choice shared place _ hBefore hAllowed hLocal
    by_cases hu : t = u
    · subst hu
      simp only [Function.update_self]
      intro hAfter
      exact hAllowed (refused_of_parking hLocal hAfter hBefore)
    · simpa only [Function.update_of_ne hu] using hBefore

/-- As long as every hand-over finds room, the ledger balances. -/
theorem pendingLedger_eq (reach : RunsTo cfg (handsOver cfg) c) : pendingLedger c = 0 := by
  apply Reach.ledger_eq _ _ reach
  · rintro c rfl
    exact pendingLedger_initial
  · intro c t choice shared place hReach _ _ hLocal
    rcases (step_moves hLocal).accounting with hSame | ⟨⟨a, hParking⟩, _⟩
    · exact hSame
    · exact absurd hParking (not_parking_redispatch hReach t a)

/-- No call is between the push of a token and the increment that counts it. -/
structure Counted (c : Config (Thread n τ) (Shared n τ ρ β) (Local n τ ρ β)) : Prop where
  signalled : ∀ t q, (c.here t).stance.errand ≠ some (.signalling q .dispatch)
  counted : ∀ t, (c.here t).stance.errand ≠ some .counting
  unlocked : c.shared.dispatcher.locked = false

theorem Counted.uncounted (hCounted : Counted c) (reach : RunsTo cfg allowed c) (t : Thread n τ) :
    (c.here t).stance.errand.elim 0 Errand.uncounted = 0 := by
  have hSignalled := hCounted.signalled t
  have hIncremented := hCounted.counted t
  have hDrains : (c.here t).stance.drains ≠ true := by
    intro hDrains
    have hLocked := locked_of_drains reach t hDrains
    rw [hCounted.unlocked] at hLocked
    cases hLocked
  unfold Stance.drains at hDrains
  cases hErrand : (c.here t).stance.errand with
  | none => rfl
  | some x =>
      rw [hErrand] at hSignalled hIncremented hDrains
      cases x with
      | signalling q source =>
          cases source with
          | dispatch => exact absurd rfl (hSignalled q)
          | redispatch => rfl
      | counting => exact absurd rfl hIncremented
      | reviving q i => exact absurd rfl hDrains
      | dispatching | entering | parking | draining | revivingSignal => rfl

/-- No worker is inside `settleToken` between `releaseInFlight` and `retirePendingWork`. -/
def NoneSettling (c : Config (Thread n τ) (Shared n τ ρ β) (Local n τ ρ β)) : Prop :=
  ∀ t a, (c.here t).stance.grip ≠ .watching a ∧ (c.here t).stance.grip ≠ .retiring a

omit [NeZero n] [DecidableEq τ] [Fintype τ] in
theorem count_unretired_le (a : ρ) {x : Stance n ρ}
    (hSettling : ∀ b, x.grip ≠ .watching b ∧ x.grip ≠ .retiring b) :
    (x.unretired.count a : Int) ≤ x.tokens a := by
  have hSingle : ∀ b, (({b} : Multiset ρ).count a : Int) = mark (b = a) := by
    intro b
    by_cases h : b = a
    · simp [h]
    · simp [h, Ne.symm h]
  have hGrip : (x.grip.unretired.count a : Int) ≤ x.grip.tokens a := by
    cases hGrip : x.grip with
    | watching b => exact absurd hGrip (hSettling b).1
    | retiring b => exact absurd hGrip (hSettling b).2
    | popped b | owing b | carrying b => exact (hSingle b).le
    | gone | free | permitted | leaving => exact Int.le_refl 0
  have hErrand : ((x.errand.elim 0 Errand.unretired).count a : Int) ≤
      x.errand.elim 0 (Errand.tokens a) := by
    cases x.errand with
    | none => exact Int.le_refl 0
    | some e =>
        cases e with
        | entering b source | parking b source =>
            cases source with
            | dispatch => exact mark_nonneg _
            | redispatch => exact (hSingle b).le
        | dispatching | signalling | counting | draining | reviving | revivingSignal =>
            exact Int.le_refl 0
  simp only [Stance.unretired, Stance.tokens, Multiset.count_add]
  omega

/-- Unless a worker is settling, an actor has one unretired token at most. -/
theorem unretired_nodup (reach : RunsTo cfg allowed c) (hSettling : NoneSettling c) :
    (unretired c).Nodup := by
  rw [Multiset.nodup_iff_count_le_one]
  intro a
  have hQueues : (((∑ q, ((c.shared.dispatcher.queues q).items : Multiset ρ)).count a : Nat) : Int) =
      queued a c.shared.dispatcher := by
    rw [Multiset.count_sum']
    simp only [queued, entries, Multiset.coe_count]
    push_cast
    rfl
  have hHands : (((∑ t, (c.here t).stance.unretired).count a : Nat) : Int) ≤ inHand a c := by
    rw [Multiset.count_sum']
    push_cast
    exact Finset.sum_le_sum fun t _ => count_unretired_le a (hSettling t)
  have hOne := tokens_le_one reach a
  simp only [tokens] at hOne
  simp only [unretired, Multiset.count_add]
  omega

/-- What `pendingWork_` says about the tokens. -/
structure Accounted (c : Config (Thread n τ) (Shared n τ ρ β) (Local n τ ρ β)) : Prop where
  tokens : c.shared.dispatcher.pendingWork = (unretired c).card
  actors : NoneSettling c → c.shared.dispatcher.pendingWork = (unretired c).toFinset.card
  nonneg : 0 ≤ c.shared.dispatcher.pendingWork
  spent : unretired c = 0 → c.shared.dispatcher.pendingWork = 0

omit [NeZero n] [DecidableEq ρ] [DecidableEq τ] [Fintype τ] in
theorem Counted.of_idle (hIdle : ∀ t, (c.here t).call.errand?.isNone)
    (hUnlocked : c.shared.dispatcher.locked = false) : Counted c := by
  have hNone : ∀ t, (c.here t).stance.errand = none := fun t => Option.isNone_iff_eq_none.mp (hIdle t)
  refine ⟨fun t q => ?_, fun t => ?_, hUnlocked⟩
  · rw [hNone t]
    simp
  · rw [hNone t]
    simp

def afterSend : Config (Thread 1 Unit) (Shared 1 Unit (Fin 3) Bool) (Local 1 Unit (Fin 3) Bool) :=
  ((step sample).replay (handsOver sample) (initial sample)
    ([(.control, .start)] ++ sendTo 0 4 ++ sendTo 1 4)).get (by decide)

/-- While the worker runs actor 0, a second message for it arrives, and the queue fills
up: the hand-over is refused. Both queued actors are handled, and then `beginDrain` has
cleared `running_` and not yet set `draining_` when the worker looks: `acquire` gives up,
the worker revives actor 0 and handles it. -/
def refusedHandOver : List (Thread 1 Unit × Choice 1 (Fin 3) Bool) :=
  ([(.control, .start)] : Schedule 1) ++ sendTo 0 4 ++
  ([(.control, .launch 0), (.worker 0, .go)] : Schedule 1) ++
  (handleOne 0).take 8 ++ sendTo 0 1 ++ sendTo 1 4 ++ sendTo 2 4 ++
  (List.replicate 5 (.worker 0, .go) : Schedule 1) ++
  (List.replicate 2 (.worker 0, .route fun _ _ => 0) : Schedule 1) ++
  handleOne 0 ++ handleOne 0 ++ ([(.control, .stopSystem), (.control, .go)] : Schedule 1) ++
  (List.replicate 5 (.worker 0, .go) : Schedule 1) ++
  (List.replicate 4 (.worker 0, .route fun _ _ => 0) : Schedule 1) ++
  (List.replicate 2 (.worker 0, .go) : Schedule 1) ++ handleOne 0

def afterRefusedHandOver :
    Config (Thread 1 Unit) (Shared 1 Unit (Fin 3) Bool) (Local 1 Unit (Fin 3) Bool) :=
  ((step sample).replay anyStep (initial sample) refusedHandOver).get (by decide +kernel)

end Runs

end ActorSystem
