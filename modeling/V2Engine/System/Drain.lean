import V2Engine.System.Parked
import V2Engine.System.Wakeup
import V2Engine.System.Accounting
import V2Engine.System.Mailboxes

/-! The graceful drain. Once `ActorSystem::stop` has joined the workers, no mailbox of
an actor that is not stopped holds a message, unless the last worker was told to stop
and left while such an actor waited in a queue or in the pended list. -/

/-- A run keeps the order of the messages, those taken out and those still there. -/
theorem runStep_order {ρ β ε : Type*} [DecidableEq ρ] {cfg : ActorSystemConfig ρ β} {body : ε → β}
    {a : ρ} {rt rt' : ActorRuntime ε} {sup sup' : Supervisor ρ} {pc pc' : RunPc ρ ε}
    {choice : RunChoice ρ β} {request : Option (ρ × β)}
    (h : runStep cfg body a rt sup pc choice = some (rt', sup', pc', request))
    (hOrder : rt.accepted = rt.removed ++ rt.mailbox) : rt'.accepted = rt'.removed ++ rt'.mailbox := by
  have hPop : ∀ {msg after}, rt.pop = some (msg, after) →
      after.accepted = after.removed ++ after.mailbox := by
    intro msg after hTaken
    obtain ⟨hMailbox, hRest⟩ := ActorRuntime.pop_eq_some hTaken
    rw [hRest]
    simp [hOrder, hMailbox]
  cases pc <;> cases choice <;> simp only [runStep, reduceCtorEq] at h
  case fetch.go processed =>
    split_ifs at h
    · cases hTaken : rt.pop with
      | none =>
          rw [hTaken] at h
          cases h
          exact hOrder
      | some taken =>
          rw [hTaken] at h
          cases h
          exact hPop hTaken
    · cases h
      exact hOrder
  case draining.go failure frames =>
    cases hTaken : rt.pop with
    | none =>
        rw [hTaken] at h
        cases h
        exact hOrder
    | some taken =>
        rw [hTaken] at h
        cases h
        exact hPop hTaken
  case deciding.go frames =>
    cases h
    cases cfg.strategy a with
    | none => exact hOrder
    | oneForOne | oneForAll =>
        simp only [onActorFailed]
        split <;> exact hOrder
  case broadcasting.go todo restarted frames =>
    cases todo <;> cases h <;> exact hOrder
  case shuttingDown.throws frames state =>
    obtain ⟨restarts, caller⟩ := frames
    cases caller <;> cases h <;> exact hOrder
  case returning.go frames =>
    obtain ⟨restarts, caller⟩ := frames
    cases restarts <;> cases caller <;> cases h <;> exact hOrder
  all_goals
    cases h
    exact hOrder

/-- The actor has no entry in a queue or in the pended list. -/
def WorkDispatcher.Unlisted {n : Nat} {ρ : Type*} (d : WorkDispatcher n ρ) (a : ρ) : Prop :=
  (∀ q, a ∉ (d.queues q).items) ∧ a ∉ d.pendedActorList

namespace ActorSystem

open Interleaving

variable {n : Nat} {τ ρ β : Type*}

/-- The thread neither has nor seeks a token. -/
structure Stance.Done (x : Stance n ρ) : Prop where
  grip : x.grip = .gone ∨ x.grip = .leaving
  errand : x.errand = none

namespace Stance.Done

variable {x : Stance n ρ}

theorem counted (h : x.Done) : x.counted = 0 := by
  obtain ⟨g, e⟩ := x
  obtain ⟨hGrip, hErrand⟩ := h
  cases hErrand
  rcases hGrip with hGrip | hGrip <;> cases hGrip <;> rfl

theorem tokens [DecidableEq ρ] (h : x.Done) (a : ρ) : x.tokens a = 0 := by
  obtain ⟨g, e⟩ := x
  obtain ⟨hGrip, hErrand⟩ := h
  cases hErrand
  rcases hGrip with hGrip | hGrip <;> cases hGrip <;> rfl

theorem not_watches (h : x.Done) (a : ρ) : ¬x.Watches a := by
  obtain ⟨g, e⟩ := x
  obtain ⟨hGrip, hErrand⟩ := h
  cases hErrand
  rcases hGrip with hGrip | hGrip <;> cases hGrip <;> simp [Stance.Watches]

theorem not_begins (h : x.Done) : ¬x.Begins := by
  simp [Stance.Begins, h.errand]

end Stance.Done

/-- `stop` has joined the workers. -/
def ControlPc.Joined (n : Nat) : ControlPc → Prop
  | .stopWorker i => n ≤ i
  | .dispatcherStop | .stopDraining | .stopWake _ | .stopClear => True
  | _ => False

instance (n : Nat) (pc : ControlPc) : Decidable (pc.Joined n) :=
  match pc with
  | .stopWorker i => inferInstanceAs (Decidable (n ≤ i))
  | .dispatcherStop | .stopDraining | .stopWake _ | .stopClear => inferInstanceAs (Decidable True)
  | .idle | .beginDrain | .drainStore | .drainWake _ | .joinWorker _ =>
      inferInstanceAs (Decidable False)

theorem Flags.Fit.joined {flags : Flags n} {pc : ControlPc} (h : flags.Fit pc) (hJoined : pc.Joined n) :
    ∀ w, flags.live w = false := by
  cases pc with
  | idle | beginDrain | drainStore | drainWake | joinWorker => exact hJoined.elim
  | stopWorker i => exact fun w => h.2 w (Nat.lt_of_lt_of_le w.isLt hJoined)
  | dispatcherStop | stopDraining => exact h
  | stopWake | stopClear => exact h.2

/-- The last worker does not leave because it is told to, `if(!running_) break`, while an
actor with messages to handle has an entry in a queue or in the pended list. -/
def leavesNone (c : Config (Thread n τ) (Shared n τ ρ β) (Local n τ ρ β)) (t : Thread n τ)
    (_ : Choice n ρ β) : Prop :=
  ∀ w, t = .worker w → (c.here t).worker matches .exitRunning → c.shared.workerRunning w = false →
    (∀ u, u ≠ w → c.shared.live u = false) → ∀ a, c.shared.Needs a → c.shared.dispatcher.Unlisted a

section Runs

variable [NeZero n] [DecidableEq ρ] [DecidableEq τ] {cfg : Setup ρ β}
  {c : Config (Thread n τ) (Shared n τ ρ β) (Local n τ ρ β)}
  {allowed : Config (Thread n τ) (Shared n τ ρ β) (Local n τ ρ β) → Thread n τ →
    Choice n ρ β → Prop}

/-- The system is started and stopped as a whole, no `stop` throws a token away, and the
last worker leaves nobody behind. -/
def graceful (c : Config (Thread n τ) (Shared n τ ρ β) (Local n τ ρ β)) (t : Thread n τ)
    (choice : Choice n ρ β) : Prop :=
  orderly c t choice ∧ keepsTokens c t choice ∧ leavesNone c t choice

/-- A mailbox holds what was accepted and not taken out. -/
theorem accepted_eq (reach : RunsTo cfg allowed c) (a : ρ) :
    (c.shared.runtimes a).accepted = (c.shared.runtimes a).removed ++ (c.shared.runtimes a).mailbox := by
  refine Reach.invariant (I := fun c => (c.shared.runtimes a).accepted =
    (c.shared.runtimes a).removed ++ (c.shared.runtimes a).mailbox) ?_ ?_ reach
  · rintro c rfl
    rfl
  · intro c t choice shared place _ hOrder _ hLocal
    have hSet : ∀ (b : ρ) (rt : ActorRuntime (Envelope τ ρ β)),
        (b = a → rt.accepted = rt.removed ++ rt.mailbox) →
        ((c.shared.setRuntime b rt).runtimes a).accepted =
          ((c.shared.setRuntime b rt).runtimes a).removed ++
            ((c.shared.setRuntime b rt).runtimes a).mailbox := by
      intro b rt hOwn
      by_cases hb : b = a
      · subst hb
        simpa [Shared.setRuntime] using hOwn rfl
      · simpa [Shared.setRuntime, Function.update_of_ne (Ne.symm hb)] using hOrder
    cases step_mails hLocal with
    | none hRuntimes =>
        rw [hRuntimes]
        exact hOrder
    | post target msg rt _ hPush hShared _ =>
        rw [hShared]
        refine hSet target rt fun hTarget => ?_
        subst hTarget
        rw [(ActorRuntime.push_eq_some hPush).2]
        simp [hOrder]
    | drop _ _ _ _ hShared =>
        rw [hShared]
        exact hOrder
    | run w b pc _ _ rt _ _ _ _ hStep hShared =>
        rw [hShared]
        refine hSet b rt fun hb => ?_
        subst hb
        exact runStep_order hStep hOrder
    | request w b pc _ _ rt _ _ _ _ _ _ hStep hShared =>
        rw [hShared]
        refine hSet b rt fun hb => ?_
        subst hb
        exact runStep_order hStep hOrder
    | clientSend _ _ _ _ _ hShared =>
        rw [hShared]
        exact hOrder

section Counts

variable [Fintype τ]

omit [NeZero n] [DecidableEq τ] in
/-- There is no token of an actor with no entry, once nobody has one in hand. -/
theorem tokens_eq_zero {a : ρ} (hDone : ∀ t, (c.here t).stance.Done)
    (hUnlisted : c.shared.dispatcher.Unlisted a) : tokens a c = 0 := by
  have hQueued : queued a c.shared.dispatcher = 0 := by
    apply entries_eq_zero
    intro q
    rw [List.count_eq_zero.mpr (hUnlisted.1 q)]
    rfl
  have hHands : inHand a c = 0 := entries_eq_zero fun t => (hDone t).tokens a
  simp only [tokens, hQueued, hHands, List.count_eq_zero.mpr hUnlisted.2]
  rfl

/-- An actor with messages to handle has an entry, once nobody has a token in hand. -/
theorem not_needs (reach : RunsTo cfg keepsTokens c) {a : ρ} (hDone : ∀ t, (c.here t).stance.Done)
    (hUnlisted : c.shared.Needs a → c.shared.dispatcher.Unlisted a) : ¬c.shared.Needs a := by
  intro hNeeds
  rcases attended reach a hNeeds with hHeld | ⟨t, hWatches⟩
  · have hTokens := tokens_eq reach a
    rw [tokens_eq_zero hDone (hUnlisted hNeeds), hHeld] at hTokens
    cases hTokens
  · exact (hDone t).not_watches a hWatches

theorem pendingLedger_le (reach : RunsTo cfg allowed c) : pendingLedger c ≤ 0 := by
  refine Reach.ledger_le ?_ ?_ reach
  · rintro c rfl
    exact pendingLedger_initial.le
  · intro c t choice shared place _ _ _ hLocal
    rcases (step_moves hLocal).accounting with hSame | ⟨_, hLess⟩ <;> omega

/-- With nothing pending and nobody at work the queues are empty. -/
theorem items_eq_nil (reach : RunsTo cfg allowed c) (hDone : ∀ t, (c.here t).stance.Done)
    (hPending : c.shared.dispatcher.pendingWork = 0) (q : Fin n) :
    (c.shared.dispatcher.queues q).items = [] := by
  have hLedger := pendingLedger_le reach
  have hHands : entries (fun (_ : Thread n τ) (l : Local n τ ρ β) => l.stance.counted) c.here = 0 :=
    entries_eq_zero fun t => (hDone t).counted
  have hQueue := le_entries (w := fun _ (queue : WorkQueue ρ) => (queue.items.length : Int))
    (f := c.shared.dispatcher.queues) (fun _ => Int.natCast_nonneg _) q
  simp only [ledger, uncounted, hHands, hPending] at hLedger
  apply List.length_eq_zero_iff.mp
  omega

end Counts

/-- When the last worker is on its way out, nobody else is anywhere in the system. -/
theorem all_done (reach : RunsTo cfg orderly c) (hStop : (c.here .control).control ≠ .idle) {w : Fin n}
    (hWorker : (c.here (.worker w)).stance.Done) (hOthers : ∀ u, u ≠ w → c.shared.live u = false)
    (t : Thread n τ) : (c.here t).stance.Done := by
  cases t with
  | worker u =>
      by_cases hu : u = w
      · exact hu ▸ hWorker
      · have hEnded := ended reach (hOthers u hu)
        exact ⟨.inl (by simp only [Local.stance, hEnded.worker, WorkerPc.grip]),
          by simp only [Local.stance, hEnded.call, Call.errand?]⟩
  | client u =>
      have hExited := exited_of_not_worker reach (t := .client u) (by simp)
      exact ⟨.inl (by simp only [Local.stance, hExited, WorkerPc.grip]),
        by simp only [Local.stance, clients_idle reach hStop u, Call.errand?]⟩
  | control =>
      have hExited := exited_of_not_worker reach (t := .control) (by simp)
      exact ⟨.inl (by simp only [Local.stance, hExited, WorkerPc.grip]),
        by simp only [Local.stance, control_idle reach, Call.errand?]⟩

/-- A last worker that finds no work pending finds no entry anywhere. -/
theorem unlisted_of_drained [Fintype τ] (reach : RunsTo cfg orderly c)
    (hCapacity : 0 < cfg.dispatcher.queueCapacity) (hStop : (c.here .control).control ≠ .idle)
    {w : Fin n} (hLeaving : (c.here (.worker w)).stance.grip = .leaving)
    (hDone : ∀ t, (c.here t).stance.Done) (hOthers : ∀ u, u ≠ w → c.shared.live u = false)
    (hPending : c.shared.dispatcher.pendingWork = 0) (a : ρ) : c.shared.dispatcher.Unlisted a := by
  have hItems := items_eq_nil reach hDone hPending
  have hPended : c.shared.dispatcher.pendedActorList = [] := by
    rcases minded reach hCapacity hStop with hEmpty | (⟨q, hQueue⟩ | ⟨u, hLive, hStays⟩) | ⟨t, hBegins⟩
    · exact hEmpty
    · exact absurd (hItems q) hQueue
    · have hu : u = w := by
        by_contra hOther
        rw [hOthers u hOther] at hLive
        cases hLive
      subst hu
      exact absurd hLeaving hStays
    · exact absurd hBegins (hDone t).not_begins
  refine ⟨fun q => ?_, ?_⟩
  · rw [hItems q]
    exact List.not_mem_nil
  · rw [hPended]
    exact List.not_mem_nil

/-- The step by which the last worker thread ends. -/
theorem last_leaves [Fintype τ] (reach : RunsTo cfg graceful c)
    (hCapacity : 0 < cfg.dispatcher.queueCapacity) (hStop : (c.here .control).control ≠ .idle)
    {w : Fin n} {choice : Choice n ρ β} {shared : Shared n τ ρ β} {call' : Call n τ ρ β}
    (hGraceful : graceful c (.worker w) choice) (hIdle : (c.here (.worker w)).call = .idle)
    (hStep : workerStep cfg w c.shared (c.here (.worker w)).worker choice =
      some (shared, .exited, call'))
    (hOthers : ∀ u, u ≠ w → c.shared.live u = false) (a : ρ) : ¬c.shared.Needs a := by
  have hOrderly : RunsTo cfg orderly c := reach.mono fun _ _ _ h => h.1
  have hKeeps : RunsTo cfg keepsTokens c := reach.mono fun _ _ _ h => h.2.1
  have hErrand : (c.here (.worker w)).stance.errand = none := by
    simp only [Local.stance, hIdle, Call.errand?]
  rcases leaves hOrderly hStep with ⟨hPc, hPending⟩ | ⟨hPc, hTold⟩
  · have hLeaving : (c.here (.worker w)).stance.grip = .leaving := by
      simp only [Local.stance, hPc, WorkerPc.grip]
    have hDone := all_done hOrderly hStop ⟨.inr hLeaving, hErrand⟩ hOthers
    exact not_needs hKeeps hDone fun _ =>
      unlisted_of_drained hOrderly hCapacity hStop hLeaving hDone hOthers hPending a
  · have hLeaving : (c.here (.worker w)).stance.grip = .leaving := by
      simp only [Local.stance, hPc, WorkerPc.grip]
    have hDone := all_done hOrderly hStop ⟨.inr hLeaving, hErrand⟩ hOthers
    have hNone := hGraceful.2.2 w rfl (by rw [hPc]) hTold hOthers a
    exact not_needs hKeeps hDone hNone

/-- The controlling thread runs no actor and sends nothing. -/
theorem control_runtimes (reach : RunsTo cfg allowed c) {choice : Choice n ρ β}
    {shared : Shared n τ ρ β} {place : Local n τ ρ β}
    (hLocal : step cfg .control c.shared (c.here .control) choice = some (shared, place)) :
    shared.runtimes = c.shared.runtimes := by
  have hIdle := control_idle reach
  cases step_mails hLocal with
  | none hRuntimes => exact hRuntimes
  | post target msg rt hCall _ _ _ | drop target msg hCall _ _ _ =>
      rw [hIdle] at hCall
      cases hCall
  | run _ _ _ _ _ _ _ hThread | request _ _ _ _ _ _ _ _ _ hThread | clientSend _ _ _ hThread =>
      cases hThread

/-- Once all workers have left, only the controlling thread is there to take steps. -/
theorem control_of_dead (reach : RunsTo cfg orderly c) (hDead : ∀ w, c.shared.live w = false)
    {t : Thread n τ} {choice : Choice n ρ β} {shared : Shared n τ ρ β} {place : Local n τ ρ β}
    (hOrderly : orderly c t choice)
    (hLocal : step cfg t c.shared (c.here t) choice = some (shared, place))
    (hStop : (Function.update c.here t place .control).control ≠ .idle) :
    t = .control ∧ (c.here .control).control ≠ .idle := by
  have hBefore : (c.here .control).control ≠ .idle := by
    intro hIdle
    obtain ⟨rfl, hLive, _⟩ := stops_of_orderly reach hOrderly hLocal hIdle hStop
    rcases step_flags hLocal with ⟨hSame, _⟩ | ⟨w, hThread, _⟩ | ⟨_, _, pc', hStep, rfl⟩
    · have hLive0 := (congrFun (congrArg Flags.live hSame) (0 : Fin n)).symm.trans (hLive 0)
      exact Bool.false_ne_true ((hDead 0).symm.trans hLive0)
    · cases hThread
    · simp only [Function.update_self] at hStop
      rw [hIdle] at hStep
      cases choice <;> simp only [controlStep, reduceCtorEq] at hStep
      case stopSystem =>
        exact Bool.false_ne_true ((hDead 0).symm.trans (hOrderly.1 0))
      case stopDispatcher => exact hOrderly.elim
      case start =>
        cases hStep
        exact hStop rfl
      case launch w =>
        split_ifs at hStep
        cases hStep
        exact hStop rfl
  refine ⟨?_, hBefore⟩
  cases t with
  | control => rfl
  | client u => exact absurd hOrderly hBefore
  | worker w =>
      rw [(ended reach (hDead w)).stuck (hDead w)] at hLocal
      cases hLocal

/-- Once the last worker has left, no actor has messages to handle. -/
theorem nobody_needs [Fintype τ] (reach : RunsTo cfg graceful c)
    (hCapacity : 0 < cfg.dispatcher.queueCapacity) (hStop : (c.here .control).control ≠ .idle)
    (hDead : ∀ w, c.shared.live w = false) (a : ρ) : ¬c.shared.Needs a := by
  revert hStop hDead
  refine Reach.invariant (I := fun c => (c.here .control).control ≠ .idle →
    (∀ w, c.shared.live w = false) → ¬c.shared.Needs a) ?_ ?_ reach
  · rintro c rfl hStop
    exact absurd rfl hStop
  · intro c t choice shared place hReach hInv hGraceful hLocal hStop hDead
    have hOrderly : RunsTo cfg orderly c := hReach.mono fun _ _ _ h => h.1
    by_cases hBefore : ∀ w, c.shared.live w = false
    · obtain ⟨rfl, hStopping⟩ := control_of_dead hOrderly hBefore hGraceful.1 hLocal hStop
      have hSame := control_runtimes hOrderly hLocal
      simpa only [Shared.Needs, hSame] using hInv hStopping hBefore
    · push Not at hBefore
      obtain ⟨u, hLive⟩ := hBefore
      rw [ne_eq, Bool.not_eq_false] at hLive
      obtain ⟨rfl, hIdle, rfl, call', hStep⟩ := exits hLocal hLive (hDead u)
      have hStopping : (c.here .control).control ≠ .idle := by simpa using hStop
      have hOthers : ∀ v, v ≠ u → c.shared.live v = false := by
        intro v hv
        simpa only [Shared.exit, Function.update_of_ne hv] using hDead v
      exact last_leaves hReach hCapacity hStopping hGraceful hIdle hStep hOthers a

/-- What `stop` leaves in the mailbox of an actor that is not stopped. -/
structure Drained (a : ρ) (c : Config (Thread n τ) (Shared n τ ρ β) (Local n τ ρ β)) : Prop where
  mailbox : (c.shared.runtimes a).mailbox = []
  taken : (c.shared.runtimes a).removed = (c.shared.runtimes a).accepted

/-- In a graceful run, once `stop` has joined the workers every message of an actor that
is not stopped has been taken out of its mailbox. -/
theorem joined_drained [Fintype τ] (reach : RunsTo cfg graceful c)
    (hCapacity : 2 ≤ cfg.dispatcher.queueCapacity) (hJoined : (c.here .control).control.Joined n)
    (a : ρ) (hStopped : (c.shared.runtimes a).stopped = false) : Drained a c := by
  have hOrderly : RunsTo cfg orderly c := reach.mono fun _ _ _ h => h.1
  have hDead := (fit hOrderly).joined hJoined
  have hStop : (c.here .control).control ≠ .idle := by
    intro hIdle
    rw [hIdle] at hJoined
    exact hJoined
  have hMailbox : (c.shared.runtimes a).mailbox = [] := by
    by_contra hWaiting
    exact nobody_needs reach (by omega) hStop hDead a ⟨hStopped, hWaiting⟩
  refine ⟨hMailbox, ?_⟩
  rw [accepted_eq reach a, hMailbox, List.append_nil]

instance [Fintype τ] (c : Config (Thread n τ) (Shared n τ ρ β) (Local n τ ρ β)) (t : Thread n τ)
    (choice : Choice n ρ β) : Decidable (orderly c t choice) :=
  match t, choice with
  | .control, .start => inferInstanceAs (Decidable (∀ _, _ = _))
  | .control, .launch _ => inferInstanceAs (Decidable (_ = _))
  | .control, .stopSystem => inferInstanceAs (Decidable ((∀ _, _ = _) ∧ ∀ _, _ = _))
  | .control, .stopDispatcher => inferInstanceAs (Decidable False)
  | .client _, _ => inferInstanceAs (Decidable (_ = _))
  | .control, .go | .control, .tick | .control, .timeout | .control, .route _ | .control, .user _ |
    .control, .send _ _ | .control, .dispatch _ | .worker _, _ => inferInstanceAs (Decidable True)

instance [Fintype ρ] (d : WorkDispatcher n ρ) (a : ρ) : Decidable (d.Unlisted a) :=
  inferInstanceAs (Decidable ((∀ _, _ ∉ _) ∧ _ ∉ _))

instance (s : Shared n τ ρ β) (a : ρ) : Decidable (s.Needs a) :=
  inferInstanceAs (Decidable (_ = _ ∧ ¬_ = []))

instance [Fintype ρ] (c : Config (Thread n τ) (Shared n τ ρ β) (Local n τ ρ β)) (t : Thread n τ)
    (choice : Choice n ρ β) : Decidable (leavesNone c t choice) :=
  inferInstanceAs (Decidable (∀ _, _ → _ → _ → _ → ∀ _, _))

instance [Fintype τ] [Fintype ρ] (c : Config (Thread n τ) (Shared n τ ρ β) (Local n τ ρ β))
    (t : Thread n τ) (choice : Choice n ρ β) : Decidable (graceful c t choice) :=
  inferInstanceAs (Decidable (_ ∧ _ ∧ _))

/-- The worker handles one of two messages before `stop` and one while it drains. -/
def stopWithTwo : List (Thread 1 Unit × Choice 1 (Fin 3) Bool) := List.flatten
  [[(.control, .start)], sendTo 0 4, sendTo 1 4, [(.control, .launch 0), (.worker 0, .go)],
    handleOne 0, [(.control, .stopSystem)], List.replicate 5 (.control, .go),
    [(.worker 0, .go)], handleOne 0, List.replicate 11 (.worker 0, .go),
    [(.worker 0, .route fun _ _ => 0)], List.replicate 2 (.worker 0, .go), [(.control, .go)]]

def afterStopWithTwo :
    Config (Thread 1 Unit) (Shared 1 Unit (Fin 3) Bool) (Local 1 Unit (Fin 3) Bool) :=
  ((step sample).replay graceful (initial sample) stopWithTwo).get (by decide +kernel)

theorem joined_drained_stopWithTwo : Drained 1 afterStopWithTwo ∧
    (afterStopWithTwo.shared.runtimes 1).accepted.length = 1 :=
  ⟨joined_drained (Reach.replay (.start rfl) (Option.some_get _).symm) (by decide) (by decide +kernel) 1
    (by decide +kernel), by decide +kernel⟩

/-- The third actor is parked. The worker handles the other two and looks at the pended
list after `acquire` gave up. It revives the actor there, finds that it was told to stop
meanwhile, and leaves. -/
def stopWithThree : List (Thread 1 Unit × Choice 1 (Fin 3) Bool) := List.flatten
  [[(.control, .start)], sendTo 0 4, sendTo 1 4, sendTo 2 3,
    [(.control, .launch 0), (.worker 0, .go)], handleOne 0, handleOne 0,
    List.replicate 4 (.worker 0, .go), [(.control, .stopSystem)], List.replicate 5 (.control, .go),
    List.replicate 3 (.worker 0, .go), List.replicate 4 (.worker 0, .route fun _ _ => 0),
    List.replicate 3 (.worker 0, .go), [(.control, .go)]]

def afterStopWithThree :
    Config (Thread 1 Unit) (Shared 1 Unit (Fin 3) Bool) (Local 1 Unit (Fin 3) Bool) :=
  ((step sample).replay orderly (initial sample) stopWithThree).get (by decide +kernel)

/-- The workers are joined, the actor is not stopped, and its message is still there. -/
theorem not_drained_stopWithThree : RunsTo sample orderly afterStopWithThree ∧
    (afterStopWithThree.here .control).control.Joined 1 ∧
    (afterStopWithThree.shared.runtimes 2).stopped = false ∧ ¬Drained 2 afterStopWithThree := by
  refine ⟨Reach.replay (.start rfl) (Option.some_get _).symm, by decide +kernel, by decide +kernel, ?_⟩
  intro drained
  have hEmpty : (afterStopWithThree.shared.runtimes 2).mailbox.length = 0 :=
    congrArg List.length drained.mailbox
  have hWaiting : (afterStopWithThree.shared.runtimes 2).mailbox.length = 1 := by decide +kernel
  rw [hWaiting] at hEmpty
  cases hEmpty

end Runs

end ActorSystem
