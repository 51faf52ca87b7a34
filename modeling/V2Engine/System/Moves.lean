import V2Engine.System.Threads
import Mathlib.Tactic.SplitIfs

/-! The token protocol behind the program counters. A thread is reduced to its
stance: what a worker has in its grip, and which call into the dispatcher it is in.
Every step of the system is one of the protocol's moves, and what the dispatcher
keeps true is proved about the moves. -/
namespace ActorSystem

open Interleaving

variable {n : Nat} {τ ρ β : Type*}

/-- What a worker has in its grip. `carrying` lasts up to `releaseInFlight`, `watching`
up to the end of the mailbox check that follows, `retiring` up to `retirePendingWork`.
`leaving` is a worker that has drained the pended list and looks whether to leave. -/
inductive Grip (n : Nat) (ρ : Type*) where
  | gone
  | free
  | permitted
  | popped (a : ρ) (q : Fin n) (ticket : Nat) (stolen : Bool)
  | owing (a : ρ) (q : Fin n)
  | carrying (a : ρ)
  | watching (a : ρ)
  | retiring (a : ρ)
  | leaving

structure Stance (n : Nat) (ρ : Type*) where
  grip : Grip n ρ
  errand : Option (Errand n ρ)

def WorkerPc.grip {ε : Type*} : WorkerPc n ρ ε → Grip n ρ
  | .exited => .gone
  | .woken => .permitted
  | .releasingSlot a q ticket stolen => .popped a q ticket stolen
  | .takingPermit a q => .owing a q
  | .running a _ | .settling a => .carrying a
  | .rechecking a | .recounting a | .reclaiming a => .watching a
  | .retiring a => .retiring a
  | .exitDraining | .exitPending | .exitRunning => .leaving
  | _ => .free

def Call.errand? : Call n τ ρ β → Option (Errand n ρ)
  | .errand x => some x
  | _ => none

def Local.stance (l : Local n τ ρ β) : Stance n ρ := ⟨l.worker.grip, l.call.errand?⟩

/-- The thread's next step is the one by which `WorkDispatcher::stop` clears the list. -/
def Local.Discards (t : Thread n τ) (l : Local n τ ρ β) : Prop :=
  t = .control ∧ l.control = .stopClear

instance [DecidableEq τ] (t : Thread n τ) (l : Local n τ ρ β) : Decidable (l.Discards t) :=
  inferInstanceAs (Decidable (_ ∧ _))

/-- The actor is not stopped and has a message to handle. -/
def Shared.Needs (s : Shared n τ ρ β) (a : ρ) : Prop :=
  (s.runtimes a).stopped = false ∧ (s.runtimes a).mailbox ≠ []

/-- One step of thread `t`, seen as a move of the token protocol. `needs` tells which
actors have messages to handle, `discards` whether the step is the one that clears
the pended list. -/
inductive Move (slot : ρ → Nat) (capacity : Nat) (t : Thread n τ) (discards : Prop) :
    WorkDispatcher n ρ → (ρ → Prop) → Stance n ρ →
      WorkDispatcher n ρ → (ρ → Prop) → Stance n ρ → Prop where
  | quiet {d needs needs' x} (hNeeds : ∀ a, needs' a → needs a) :
      Move slot capacity t discards d needs x d needs' x
  | accept {d needs needs' g} (a : ρ) (hNeeds : ∀ b, needs' b → needs b ∨ b = a) :
      Move slot capacity t discards d needs ⟨g, none⟩ d needs' ⟨g, some (.dispatching a)⟩
  | dedup {d needs g} (a : ρ) (hHeld : d.held (slot a) = true) :
      Move slot capacity t discards d needs ⟨g, some (.dispatching a)⟩ d needs ⟨g, none⟩
  | claim {d needs g} (a : ρ) (hHeld : d.held (slot a) = false) :
      Move slot capacity t discards d needs ⟨g, some (.dispatching a)⟩
        (d.setHeld (slot a) true) needs ⟨g, some (.entering a .dispatch)⟩
  | push {d needs g} (a : ρ) (source : Source) (q : Fin n)
      (hRoom : ¬(d.queues q).Refuses capacity) :
      Move slot capacity t discards d needs ⟨g, some (.entering a source)⟩
        (d.push q a) needs ⟨g, some (.signalling q source)⟩
  | refuse {d needs g} (a : ρ) (source : Source) (q : Fin n)
      (hFull : (d.queues q).Refuses capacity) :
      Move slot capacity t discards d needs ⟨g, some (.entering a source)⟩
        d needs ⟨g, some (.parking a source)⟩
  | park {d needs g} (a : ρ) (source : Source) (hFree : d.locked = false) :
      Move slot capacity t discards d needs ⟨g, some (.parking a source)⟩
        (d.setPended (d.pendedActorList ++ [a])) needs ⟨g, none⟩
  | signalDispatch {d needs g} (q : Fin n) :
      Move slot capacity t discards d needs ⟨g, some (.signalling q .dispatch)⟩
        (d.signal q) needs ⟨g, some .counting⟩
  | signalRedispatch {d needs g} (q : Fin n) :
      Move slot capacity t discards d needs ⟨g, some (.signalling q .redispatch)⟩
        (d.signal q) needs ⟨g, none⟩
  | count {d needs g} :
      Move slot capacity t discards d needs ⟨g, some .counting⟩ (d.addPending 1) needs ⟨g, none⟩
  | lock {d needs} (hFree : d.locked = false) :
      Move slot capacity t discards d needs ⟨.free, none⟩
        (d.setLocked true) needs ⟨.leaving, some (.draining 0)⟩
  | unlock {d needs g} (i : Nat) (hEnd : d.pendedActorList[i]? = none) :
      Move slot capacity t discards d needs ⟨g, some (.draining i)⟩ (d.setLocked false) needs ⟨g, none⟩
  | revive {d needs g} (a : ρ) (q : Fin n) (i : Nat) (hEntry : d.pendedActorList[i]? = some a)
      (hRoom : ¬(d.queues q).Refuses capacity) :
      Move slot capacity t discards d needs ⟨g, some (.draining i)⟩
        ((d.push q a).setPended (d.pendedActorList.eraseIdx i)) needs ⟨g, some (.reviving q i)⟩
  | skip {d needs g} (a : ρ) (q : Fin n) (i : Nat) (hEntry : d.pendedActorList[i]? = some a)
      (hFull : (d.queues q).Refuses capacity) :
      Move slot capacity t discards d needs ⟨g, some (.draining i)⟩ d needs ⟨g, some (.draining (i + 1))⟩
  | reviveCount {d needs g} (q : Fin n) (i : Nat) :
      Move slot capacity t discards d needs ⟨g, some (.reviving q i)⟩
        (d.addPending 1) needs ⟨g, some (.revivingSignal q i)⟩
  | reviveSignal {d needs g} (q : Fin n) (i : Nat) :
      Move slot capacity t discards d needs ⟨g, some (.revivingSignal q i)⟩
        (d.signal q) needs ⟨g, some (.draining i)⟩
  | popOwn {d needs g} (w : Fin n) (a : ρ) (ticket : Nat) (queue : WorkQueue ρ)
      (hOwner : t = .worker w) (hGrip : g = .free ∨ g = .permitted)
      (hPop : (d.queues w).pop = some (a, ticket, queue)) :
      Move slot capacity t discards d needs ⟨g, none⟩
        (d.setQueue w queue) needs ⟨.popped a w ticket false, none⟩
  | popStolen {d needs} (q : Fin n) (a : ρ) (ticket : Nat) (queue : WorkQueue ρ)
      (hPop : (d.queues q).pop = some (a, ticket, queue)) :
      Move slot capacity t discards d needs ⟨.free, none⟩
        (d.setQueue q queue) needs ⟨.popped a q ticket true, none⟩
  | releaseSlot {d needs} (a : ρ) (q : Fin n) (ticket : Nat) (stolen : Bool) :
      Move slot capacity t discards d needs ⟨.popped a q ticket stolen, none⟩
        (d.setQueue q ((d.queues q).release ticket)) needs
        ⟨if stolen then .owing a q else .carrying a, none⟩
  | repay {d needs} (a : ρ) (q : Fin n) :
      Move slot capacity t discards d needs ⟨.owing a q, none⟩ (d.tryAcquire q) needs ⟨.carrying a, none⟩
  | wake {d needs} (w : Fin n) (hOwner : t = .worker w) (hPermit : 0 < d.semas w) :
      Move slot capacity t discards d needs ⟨.free, none⟩ (d.tryAcquire w) needs ⟨.permitted, none⟩
  | miss {d needs} (w : Fin n) (hOwner : t = .worker w) (hEmpty : (d.queues w).items = []) :
      Move slot capacity t discards d needs ⟨.permitted, none⟩ d needs ⟨.free, none⟩
  | unhold {d needs} (a : ρ) :
      Move slot capacity t discards d needs ⟨.carrying a, none⟩
        (d.setHeld (slot a) false) needs ⟨.watching a, none⟩
  | unwatch {d needs} (a : ρ) (hSettled : ¬needs a ∨ d.held (slot a) = true) :
      Move slot capacity t discards d needs ⟨.watching a, none⟩ d needs ⟨.retiring a, none⟩
  | reclaim {d needs} (a : ρ) (hHeld : d.held (slot a) = false) :
      Move slot capacity t discards d needs ⟨.watching a, none⟩
        (d.setHeld (slot a) true) needs ⟨.free, some (.entering a .redispatch)⟩
  | retire {d needs} (a : ρ) :
      Move slot capacity t discards d needs ⟨.retiring a, none⟩ (d.addPending (-1)) needs ⟨.free, none⟩
  | alarm {d needs x} (q : Fin n) : Move slot capacity t discards d needs x (d.signal q) needs x
  | flags {d needs x} (running draining : Bool) :
      Move slot capacity t discards d needs x { d with running := running, draining := draining } needs x
  | clear {d needs x} (hDiscards : discards) (hFree : d.locked = false) :
      Move slot capacity t discards d needs x (d.setPended []) needs x
  | enter {d needs} : Move slot capacity t discards d needs ⟨.gone, none⟩ d needs ⟨.free, none⟩
  | leaveLoop {d needs} (hDraining : d.draining = false) :
      Move slot capacity t discards d needs ⟨.free, none⟩ d needs ⟨.gone, none⟩
  | leaveDrained {d needs} (hPending : d.pendingWork = 0) :
      Move slot capacity t discards d needs ⟨.leaving, none⟩ d needs ⟨.gone, none⟩
  | leaveStopped {d needs} : Move slot capacity t discards d needs ⟨.leaving, none⟩ d needs ⟨.gone, none⟩
  | stay {d needs} : Move slot capacity t discards d needs ⟨.leaving, none⟩ d needs ⟨.free, none⟩

/-- The actor's slot among the `inFlightSlots_`. -/
def Setup.slot (cfg : Setup ρ β) (a : ρ) : Nat := WorkDispatcher.inFlightSlot (cfg.actorId a)

/-- Actors have slots of their own, since their ids are below `kMaxActors`. -/
theorem Setup.slot_injective (cfg : Setup ρ β) : Function.Injective cfg.slot := by
  intro a b h
  simp only [Setup.slot, WorkDispatcher.inFlightSlot, Nat.mod_eq_of_lt (cfg.actorId_lt a),
    Nat.mod_eq_of_lt (cfg.actorId_lt b)] at h
  exact cfg.actorId_injective h

section Steps

variable [NeZero n] [DecidableEq ρ] [DecidableEq τ] {cfg : Setup ρ β} {t : Thread n τ}
  {discards : Prop} {s s' : Shared n τ ρ β} {l l' : Local n τ ρ β} {choice : Choice n ρ β}

/-- The moves of one thread in the system configured by `cfg`. -/
abbrev Moves (cfg : Setup ρ β) (t : Thread n τ) (discards : Prop) (s : Shared n τ ρ β) (x : Stance n ρ)
    (s' : Shared n τ ρ β) (x' : Stance n ρ) : Prop :=
  Move cfg.slot cfg.dispatcher.queueCapacity t discards s.dispatcher s.Needs x s'.dispatcher s'.Needs x'

omit [DecidableEq ρ] [DecidableEq τ] in
theorem errand_moves {d d' : WorkDispatcher n ρ} {load : Nat → Fin n → Nat} {x : Errand n ρ}
    {x' : Option (Errand n ρ)} {needs : ρ → Prop} {g : Grip n ρ}
    (h : d.errandStep cfg.dispatcher cfg.actorId load x = some (d', x')) :
    Move cfg.slot cfg.dispatcher.queueCapacity t discards d needs ⟨g, some x⟩ d' needs ⟨g, x'⟩ := by
  cases x with
  | dispatching a =>
      simp only [WorkDispatcher.errandStep] at h
      split_ifs at h with hHeld <;> cases h
      · exact .dedup a hHeld
      · exact .claim a (eq_false_of_ne_true hHeld)
  | entering a source =>
      simp only [WorkDispatcher.errandStep] at h
      split_ifs at h with hFull <;> cases h
      · exact .refuse a source _ hFull
      · exact .push a source _ hFull
  | parking a source =>
      simp only [WorkDispatcher.errandStep] at h
      split_ifs at h with hLocked
      cases h
      exact .park a source (eq_false_of_ne_true hLocked)
  | signalling q source =>
      cases source <;> cases h
      · exact .signalDispatch q
      · exact .signalRedispatch q
  | counting =>
      cases h
      exact .count
  | draining i =>
      simp only [WorkDispatcher.errandStep] at h
      split at h
      · cases h
        exact .unlock i (by assumption)
      · split_ifs at h with hFull <;> cases h
        · exact .skip _ _ i (by assumption) hFull
        · exact .revive _ _ i (by assumption) hFull
  | reviving q i =>
      cases h
      exact .reviveCount q i
  | revivingSignal q i =>
      cases h
      exact .reviveSignal q i

omit [NeZero n] [DecidableEq τ] in
theorem needs_setRuntime (a : ρ) {rt : ActorRuntime (Envelope τ ρ β)}
    (hCalm : (s.runtimes a).Calm rt) (b : ρ) (h : (s.setRuntime a rt).Needs b) : s.Needs b := by
  by_cases hb : b = a
  · subst hb
    simp only [Shared.Needs, Shared.setRuntime, Function.update_self] at h
    refine ⟨?_, fun hEmpty => h.2 ?_⟩
    · by_contra hStopped
      have := hCalm.stopped (by simpa using hStopped)
      simp [this] at h
    · exact List.suffix_nil.mp (hEmpty ▸ hCalm.mailbox)
  · simpa [Shared.Needs, Shared.setRuntime, Function.update_of_ne hb] using h

omit [DecidableEq τ] in
theorem call_moves {call call' : Call n τ ρ β} {g : Grip n ρ}
    (h : callStep cfg s call choice = some (s', call')) :
    Moves cfg t discards s ⟨g, call.errand?⟩ s' ⟨g, call'.errand?⟩ := by
  cases call with
  | idle => cases h
  | sending target msg =>
      cases choice <;> simp only [callStep, reduceCtorEq] at h
      cases hPush : (s.runtimes target).push (cfg.mailboxSize target) msg with
      | none =>
          rw [hPush] at h
          cases h
          exact .quiet fun _ h => h
      | some rt =>
          rw [hPush] at h
          cases h
          refine .accept target fun b hNeeds => ?_
          by_cases hb : b = target
          · exact .inr hb
          · refine .inl ?_
            simpa [Shared.Needs, Shared.setRuntime, Function.update_of_ne hb] using hNeeds
  | errand x =>
      cases choice <;> simp only [callStep, reduceCtorEq] at h
      obtain ⟨⟨d, x'⟩, hErrand, hAfter⟩ := Option.map_eq_some_iff.mp h
      cases hAfter
      have moves : Move cfg.slot cfg.dispatcher.queueCapacity t discards s.dispatcher s.Needs
          ⟨g, some x⟩ d s.Needs ⟨g, x'⟩ := errand_moves hErrand
      cases x' <;> exact moves

omit [NeZero n] [DecidableEq ρ] [DecidableEq τ] in
theorem popFrom_moves {w : Fin n} {g : Grip n ρ} {otherwise pc' : WorkerPc n ρ (Envelope τ ρ β)}
    (h : popFrom s w false otherwise = (s', pc')) (hGrip : g = .free ∨ g = .permitted)
    (hMiss : (s.dispatcher.queues w).items = [] →
      Moves cfg (.worker w) discards s ⟨g, none⟩ s ⟨otherwise.grip, none⟩) :
    Moves cfg (.worker w) discards s ⟨g, none⟩ s' ⟨pc'.grip, none⟩ := by
  unfold popFrom at h
  split at h
  · cases h
    exact hMiss (WorkQueue.pop_eq_none.mp (by assumption))
  · cases h
    exact .popOwn w _ _ _ rfl hGrip (by assumption)

theorem run_moves {w : Fin n} {a : ρ} {pc : RunPc ρ (Envelope τ ρ β)} {pc' : WorkerPc n ρ _}
    {call' : Call n τ ρ β} {user : RunChoice ρ β}
    (h : workerStep cfg w s (.running a pc) (.user user) = some (s', pc', call')) :
    Moves cfg t discards s ⟨.carrying a, none⟩ s' ⟨pc'.grip, call'.errand?⟩ := by
  simp only [workerStep, Option.map_eq_some_iff, Prod.exists] at h
  obtain ⟨rt, sup, next, request, hRun, hAfter⟩ := h
  have hCalm := needs_setRuntime (s := s) a (runStep_calm hRun)
  cases request with
  | none =>
      cases hAfter
      exact .quiet hCalm
  | some request =>
      cases hAfter
      exact .quiet hCalm

omit [NeZero n] [DecidableEq ρ] [DecidableEq τ] in
theorem grip_spinOrPark : (spinOrPark cfg : WorkerPc n ρ (Envelope τ ρ β)).grip = .free := by
  unfold spinOrPark
  split <;> rfl

/-- What a worker does outside of calls, as a move. -/
theorem worker_moves {w : Fin n} {pc pc' : WorkerPc n ρ (Envelope τ ρ β)} {call' : Call n τ ρ β}
    (h : workerStep cfg w s pc choice = some (s', pc', call')) :
    Moves cfg (.worker w) discards s ⟨pc.grip, none⟩ s' ⟨pc'.grip, call'.errand?⟩ := by
  have hSame : ∀ a, s.Needs a → s.Needs a := fun _ h => h
  rcases workerStep_choice h with rfl | ⟨a, pc, user, rfl, rfl⟩ |
    ⟨rfl, rfl, hWait⟩
  · cases pc
    case running a pc =>
      cases pc <;> cases h
      exact .quiet hSame
    all_goals simp only [workerStep] at h
    case exited =>
      split_ifs at h
      cases h
      exact .enter
    case loopDraining =>
      split_ifs at h with hDraining <;> cases h
      · exact .quiet hSame
      · exact .leaveLoop (eq_false_of_ne_true hDraining)
    case loop | waitRunning | waitDraining | spinning | retired | exitDraining =>
      cases h
      split <;> exact .quiet hSame
    case checkDraining | checkPending =>
      cases h
      split
      · exact .quiet hSame
      · rw [grip_spinOrPark]
        exact .quiet hSame
    case acquire =>
      have hPop : popFrom s w false .waitRunning = (s', pc') := by cases h; rfl
      cases h
      exact popFrom_moves hPop (.inl rfl) fun _ => .quiet hSame
    case spinPopping =>
      have hPop : popFrom s w false .spinPopping = (s', pc') := by cases h; rfl
      cases h
      exact popFrom_moves hPop (.inl rfl) fun _ => .quiet hSame
    case woken =>
      have hPop : popFrom s w false .waitRunning = (s', pc') := by cases h; rfl
      cases h
      exact popFrom_moves hPop (.inr rfl) fun hEmpty => .miss w rfl hEmpty
    case parked =>
      split_ifs at h with hPermit
      cases h
      exact .wake w rfl (Nat.pos_of_ne_zero hPermit)
    case stealing i =>
      split_ifs at h with hMore
      · cases h
        unfold popFrom
        split
        · exact .quiet hSame
        · exact .popStolen _ _ _ _ (by assumption)
      · cases h
        exact .quiet hSame
    case releasingSlot a q ticket stolen =>
      cases h
      cases stolen
      · exact .releaseSlot a q ticket false
      · exact .releaseSlot a q ticket true
    case takingPermit a q =>
      cases h
      exact .repay a q
    case settling a =>
      cases h
      exact .unhold a
    case rechecking a =>
      cases h
      split
      · refine .unwatch a (.inl fun hNeeds => ?_)
        simp_all [Shared.Needs]
      · exact .quiet hSame
    case recounting a =>
      cases h
      split
      · refine .unwatch a (.inl fun hNeeds => hNeeds.2 ?_)
        exact List.isEmpty_iff.mp (by assumption)
      · exact .quiet hSame
    case reclaiming a =>
      split_ifs at h with hHeld <;> cases h
      · exact .unwatch a (.inr hHeld)
      · exact .reclaim a (eq_false_of_ne_true hHeld)
    case retiring a =>
      cases h
      split <;> exact .retire a
    case waking i =>
      split_ifs at h with hMore <;> cases h
      · exact .alarm ⟨i, hMore⟩
      · exact .quiet hSame
    case emptyHanded =>
      split_ifs at h with hLocked
      cases h
      exact .lock (eq_false_of_ne_true hLocked)
    case exitPending =>
      split_ifs at h with hPending <;> cases h
      · exact .leaveDrained hPending
      · exact .quiet hSame
    case exitRunning =>
      split_ifs at h <;> cases h
      · exact .stay
      · exact .leaveStopped
  · exact run_moves h
  · rcases hWait with ⟨rfl, rfl⟩ | ⟨rfl, rfl⟩ | ⟨rfl, rfl⟩ <;> exact .quiet hSame

omit [NeZero n] [DecidableEq ρ] [DecidableEq τ] in
theorem control_moves {pc pc' : ControlPc} {x : Stance n ρ}
    (hClear : pc = .stopClear → discards) (h : controlStep s pc choice = some (s', pc')) :
    Moves cfg t discards s x s' x := by
  cases pc <;> cases choice <;> simp only [controlStep, reduceCtorEq] at h
  case idle.start | beginDrain.go | drainStore.go | dispatcherStop.go | stopDraining.go =>
    cases h
    exact .flags _ _
  case idle.launch w =>
    split_ifs at h
    cases h
    exact .quiet fun _ h => h
  case idle.stopSystem | idle.stopDispatcher =>
    cases h
    exact .quiet fun _ h => h
  case drainWake.go i | stopWake.go i =>
    split_ifs at h with hMore <;> cases h
    · exact .alarm ⟨i, hMore⟩
    · exact .quiet fun _ h => h
  case stopWorker.go i =>
    split_ifs at h <;> cases h <;> exact .quiet fun _ h => h
  case joinWorker.go i =>
    split_ifs at h
    cases h
    exact .quiet fun _ h => h
  case stopClear.go =>
    split_ifs at h with hLocked
    cases h
    exact .clear (hClear rfl) (eq_false_of_ne_true hLocked)

omit [NeZero n] in
theorem client_moves {u : τ} {call' : Call n τ ρ β} {g : Grip n ρ}
    (h : clientStep u s choice = some (s', call')) :
    Moves cfg t discards s ⟨g, none⟩ s' ⟨g, call'.errand?⟩ := by
  cases choice <;> cases h
  · exact .quiet fun _ h => h
  · exact .accept _ fun _ h => .inl h

/-- Every step of the system is a move of the token protocol. -/
theorem step_moves (h : step cfg t s l choice = some (s', l')) :
    Moves cfg t (l.Discards t) s l.stance s' l'.stance := by
  rcases step_cases h with ⟨w, pc', call', rfl, hCall, hStep, rfl⟩ | ⟨u, call', rfl, hCall, hStep, rfl⟩ |
    ⟨pc', rfl, hCall, hStep, rfl⟩ | ⟨call', _, hStep, rfl⟩
  · simpa only [Local.stance, hCall, Call.errand?] using worker_moves hStep
  · simpa only [Local.stance, hCall, Call.errand?] using client_moves hStep
  · exact control_moves (fun hPc => ⟨rfl, hPc⟩) hStep
  · exact call_moves hStep

end Steps

end ActorSystem
