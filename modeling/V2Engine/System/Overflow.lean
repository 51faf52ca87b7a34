import V2Engine.System.Moves
import V2Engine.System.Flags

/-! The overflow list. A push that its queue refuses leaves the actor in the pended
list, and a running dispatcher does not look there: workers turn to the list only
when `acquire` gives up. -/
namespace ActorSystem

open Interleaving

variable {n : Nat} {τ ρ β : Type*}

/-- The step is the push of `enqueueEntry` and the queue refuses it: on whose behalf. -/
def refusedPush [NeZero n] (cfg : Setup ρ β) (s : Shared n τ ρ β) :
    Call n τ ρ β → Choice n ρ β → Option Source
  | .errand (.entering a source), .route load =>
      let q := WorkDispatcher.pickWorker cfg.dispatcher.watermark load (cfg.actorId a)
      if (s.dispatcher.queues q).Refuses cfg.dispatcher.queueCapacity then some source else none
  | _, _ => none

/-- The worker is inside the waiting loop of `acquire`. -/
def WorkerPc.Waits {ε : Type*} : WorkerPc n ρ ε → Prop
  | .waitRunning | .waitDraining | .checkDraining | .checkPending | .spinning | .spinPopping
  | .parked | .woken | .stealing _ => True
  | _ => False

instance {ε : Type*} (pc : WorkerPc n ρ ε) : Decidable pc.Waits := by
  cases pc <;> unfold WorkerPc.Waits <;> infer_instance

def Stance.Parking (x : Stance n ρ) : Prop := ∃ a source, x.errand = some (.parking a source)

instance (x : Stance n ρ) : Decidable x.Parking :=
  match h : x.errand with
  | some (.parking a source) => isTrue ⟨a, source, h⟩
  | none | some (.dispatching _) | some (.entering _ _) | some (.signalling _ _) | some .counting
  | some (.draining _) | some (.reviving _ _) | some (.revivingSignal _ _) =>
      isFalse fun ⟨_, _, hParking⟩ => by
        rw [hParking] at h
        cases h

/-- The dispatcher runs and everybody waits, and an actor is left in the pended list. -/
structure Stranded (c : Config (Thread n τ) (Shared n τ ρ β) (Local n τ ρ β)) : Prop where
  running : c.shared.dispatcher.running = true
  queues : ∀ q, (c.shared.dispatcher.queues q).items = []
  workers : ∀ w, (c.here (.worker w)).worker.Waits
  calls : ∀ t, (c.here t).call.errand?.isNone
  pended : c.shared.dispatcher.pendedActorList ≠ []

section Moves

variable {slot : ρ → Nat} {capacity : Nat} {t : Thread n τ} {discards : Prop}
  {d d' : WorkDispatcher n ρ} {needs needs' : ρ → Prop} {x x' : Stance n ρ}

/-- A call comes to park a token only by a push that was refused. -/
theorem Move.parking {a : ρ} {source : Source}
    (move : Move slot capacity t discards d needs x d' needs' x')
    (h : x'.errand = some (.parking a source)) :
    x.errand = some (.parking a source) ∨ x.errand = some (.entering a source) := by
  cases move
  case refuse g b src q hFull =>
    cases h
    exact .inr rfl
  case quiet | alarm | flags | clear => exact .inl h
  all_goals cases h

/-- The pended list grows only by a call that parks its token. -/
theorem Move.pended_of_not_parking (hParking : ¬x.Parking)
    (move : Move slot capacity t discards d needs x d' needs' x')
    (hPended : d.pendedActorList = []) : d'.pendedActorList = [] := by
  cases move
  case park g a source hFree => exact absurd ⟨a, source, rfl⟩ hParking
  case revive g a q i hEntry hRoom =>
    rw [hPended] at hEntry
    cases hEntry
  case clear => rfl
  all_goals exact hPended

end Moves

section Steps

variable [NeZero n] [DecidableEq ρ] [DecidableEq τ] {cfg : Setup ρ β} {t : Thread n τ}
  {s s' : Shared n τ ρ β} {l l' : Local n τ ρ β} {choice : Choice n ρ β}

theorem refused_of_parking (h : step cfg t s l choice = some (s', l')) {a : ρ} {source : Source}
    (hAfter : l'.stance.errand = some (.parking a source))
    (hBefore : l.stance.errand ≠ some (.parking a source)) :
    refusedPush cfg s l.call choice = some source := by
  have hEntering := ((step_moves h).parking hAfter).resolve_left hBefore
  cases hCall : l.call with
  | idle | sending => simp [Local.stance, hCall, Call.errand?] at hEntering
  | errand x =>
      simp only [Local.stance, hCall, Call.errand?, Option.some.injEq] at hEntering
      subst hEntering
      obtain ⟨load, d, x', rfl, hErrand, rfl, rfl⟩ := step_errand h hCall
      simp only [WorkDispatcher.errandStep] at hErrand
      simp only [refusedPush]
      split_ifs at hErrand ⊢
      · rfl
      · cases hErrand
        cases hAfter

end Steps

section Runs

variable [NeZero n] [DecidableEq ρ] [DecidableEq τ] {cfg : Setup ρ β}
  {c : Config (Thread n τ) (Shared n τ ρ β) (Local n τ ρ β)}

/-- No queue refuses a push while the dispatcher runs, and `start` comes when nothing
is in the pended list or on its way there. -/
def fitsQueues (cfg : Setup ρ β) (c : Config (Thread n τ) (Shared n τ ρ β) (Local n τ ρ β))
    (t : Thread n τ) (choice : Choice n ρ β) : Prop :=
  (c.shared.dispatcher.running = true → refusedPush cfg c.shared (c.here t).call choice = none) ∧
  (choice matches .start → c.shared.dispatcher.pendedActorList = [] ∧ ∀ u, ¬(c.here u).stance.Parking)

instance (c : Config (Thread n τ) (Shared n τ ρ β) (Local n τ ρ β)) (t : Thread n τ)
    (choice : Choice n ρ β) [Fintype τ] : Decidable (fitsQueues cfg c t choice) :=
  inferInstanceAs (Decidable (_ ∧ _))

/-- Nothing has overflowed. -/
def NoneParked (c : Config (Thread n τ) (Shared n τ ρ β) (Local n τ ρ β)) : Prop :=
  c.shared.dispatcher.pendedActorList = [] ∧ ∀ t, ¬(c.here t).stance.Parking

theorem noneParked_step {t : Thread n τ} {choice : Choice n ρ β} {shared : Shared n τ ρ β}
    {place : Local n τ ρ β} (hNone : NoneParked c)
    (hFits : refusedPush cfg c.shared (c.here t).call choice = none)
    (hLocal : step cfg t c.shared (c.here t) choice = some (shared, place)) :
    NoneParked ⟨shared, Function.update c.here t place⟩ := by
  apply And.intro ((step_moves hLocal).pended_of_not_parking (hNone.2 t) hNone.1)
  intro u
  by_cases hu : u = t
  · subst hu
    simp only [Function.update_self]
    rintro ⟨a, source, hParking⟩
    have hBefore : (c.here u).stance.errand ≠ some (.parking a source) :=
      fun h => hNone.2 u ⟨a, source, h⟩
    rw [refused_of_parking hLocal hParking hBefore] at hFits
    cases hFits
  · simpa only [Function.update_of_ne hu] using hNone.2 u

/-- While no push is refused, nothing is in the pended list of a running dispatcher. -/
theorem noneParked_of_running (reach : RunsTo cfg (fitsQueues cfg) c)
    (hRunning : c.shared.dispatcher.running = true) : NoneParked c := by
  revert hRunning
  refine Reach.invariant (I := fun c => c.shared.dispatcher.running = true → NoneParked c) ?_ ?_ reach
  · rintro c rfl hRunning
    cases hRunning
  · intro c t choice shared place _ hInv hAllowed hLocal hAfter
    by_cases hBefore : c.shared.dispatcher.running = true
    · exact noneParked_step (hInv hBefore) (hAllowed.1 hBefore) hLocal
    · rw [Bool.not_eq_true] at hBefore
      have hStart := start_of_running hLocal hBefore hAfter
      subst hStart
      apply noneParked_step (hAllowed.2 rfl) _ hLocal
      cases (c.here t).call with
      | idle | sending => rfl
      | errand x => cases x <;> rfl

/-- As long as no queue refuses a push while the dispatcher runs, no actor is left
behind in the pended list. -/
theorem not_stranded (reach : RunsTo cfg (fitsQueues cfg) c) : ¬Stranded c := by
  intro stranded
  exact stranded.pended (noneParked_of_running reach stranded.running).1

/-- Two actors are queued and handled, and the queue takes both. -/
def twoInTurn : List (Thread 1 Unit × Choice 1 (Fin 3) Bool) :=
  ([(.control, .start)] : Schedule 1) ++ sendTo 0 4 ++ sendTo 1 4 ++
  ([(.control, .launch 0), (.worker 0, .go)] : Schedule 1) ++ handleOne 0 ++ handleOne 0

def afterTwoInTurn :
    Config (Thread 1 Unit) (Shared 1 Unit (Fin 3) Bool) (Local 1 Unit (Fin 3) Bool) :=
  ((step sample).replay (fitsQueues sample) (initial sample) twoInTurn).get (by decide)

theorem not_stranded_twoInTurn : ¬Stranded afterTwoInTurn :=
  not_stranded (Reach.replay (.start rfl) (Option.some_get _).symm)

/-- The queue of two slots refuses the third actor. The worker handles the first two and
goes to wait. -/
def threeAtOnce : List (Thread 1 Unit × Choice 1 (Fin 3) Bool) :=
  ([(.control, .start)] : Schedule 1) ++ sendTo 0 4 ++ sendTo 1 4 ++ sendTo 2 3 ++
  ([(.control, .launch 0), (.worker 0, .go)] : Schedule 1) ++ handleOne 0 ++ handleOne 0 ++
  (List.replicate 3 (.worker 0, .go) : Schedule 1)

def afterThreeAtOnce :
    Config (Thread 1 Unit) (Shared 1 Unit (Fin 3) Bool) (Local 1 Unit (Fin 3) Bool) :=
  ((step sample).replay anyStep (initial sample) threeAtOnce).get (by decide)

theorem stranded_threeAtOnce : Reachable sample afterThreeAtOnce ∧ Stranded afterThreeAtOnce :=
  ⟨Reach.replay (.start rfl) (Option.some_get _).symm,
    { running := by decide
      queues := by decide
      workers := by decide
      calls := by decide
      pended := by decide }⟩

end Runs

end ActorSystem
