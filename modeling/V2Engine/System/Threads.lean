import V2Engine.Interleaving.Program
import V2Engine.Runtime.ActorRuntime
import Mathlib.Data.Fintype.Sum

/-! The running system: workers in `runLoop`, threads that send messages or call
`dispatch`, and one thread that starts and stops the dispatcher and the workers. A
step is one access to shared memory. What only takes time (`graceSpin`,
`idleBackoff_`, the metrics) is not a step; where the source waits for a while, the
end of the waiting is a choice of the schedule. -/
namespace ActorSystem

open Interleaving

variable {n : Nat} {τ ρ β : Type*}

inductive Thread (n : Nat) (τ : Type*) where
  | worker (w : Fin n)
  | client (t : τ)
  | control
  deriving DecidableEq

instance [Fintype τ] : Fintype (Thread n τ) :=
  Fintype.ofEquiv (Fin n ⊕ τ ⊕ Unit)
    { toFun := Sum.elim .worker (Sum.elim .client fun _ => .control)
      invFun := fun
        | .worker w => .inl w
        | .client t => .inr (.inl t)
        | .control => .inr (.inr ())
      left_inv := by rintro (_ | _ | _) <;> rfl
      right_inv := by rintro (_ | _ | _) <;> rfl }

/-- A call that a thread is in: none, `ActorRuntime::enqueue` before its mailbox push,
or a call into the dispatcher. -/
inductive Call (n : Nat) (τ ρ β : Type*) where
  | idle
  | sending (target : ρ) (msg : Envelope τ ρ β)
  | errand (errand : Errand n ρ)

/-- Where a worker stands in `Worker::runLoop`, `acquire` and `settleToken`. -/
inductive WorkerPc (n : Nat) (ρ ε : Type*) where
  | exited
  | loop
  | loopDraining
  | acquire
  | waitRunning
  | waitDraining
  | checkDraining
  | checkPending
  | spinning
  | spinPopping
  | parked
  | woken
  | stealing (i : Nat)
  | releasingSlot (a : ρ) (q : Fin n) (ticket : Nat) (stolen : Bool)
  | takingPermit (a : ρ) (q : Fin n)
  | running (a : ρ) (pc : RunPc ρ ε)
  | settling (a : ρ)
  | rechecking (a : ρ)
  | recounting (a : ρ)
  | reclaiming (a : ρ)
  | retiring (a : ρ)
  | retired
  | waking (i : Nat)
  | emptyHanded
  | exitDraining
  | exitPending
  | exitRunning

/-- Where the controlling thread stands in `ActorSystem::stop`, of which
`WorkDispatcher::stop` is the end. -/
inductive ControlPc where
  | idle
  | beginDrain
  | drainStore
  | drainWake (i : Nat)
  | stopWorker (i : Nat)
  | joinWorker (i : Nat)
  | dispatcherStop
  | stopDraining
  | stopWake (i : Nat)
  | stopClear
  deriving DecidableEq

/-- A thread's place: the call it is in, if any, and where it goes on afterwards.
Workers use `worker`, the controlling thread uses `control`. -/
structure Local (n : Nat) (τ ρ β : Type*) where
  call : Call n τ ρ β
  worker : WorkerPc n ρ (Envelope τ ρ β)
  control : ControlPc

def Local.start : Local n τ ρ β := ⟨.idle, .exited, .idle⟩

/-- `live w` says that the thread of worker `w` was started and has not ended, and
`workerRunning w` is the worker's own `running_`. `sent` counts what each sender has
sent so far. -/
structure Shared (n : Nat) (τ ρ β : Type*) where
  dispatcher : WorkDispatcher n ρ
  runtimes : ρ → ActorRuntime (Envelope τ ρ β)
  supervisor : Supervisor ρ
  workerRunning : Fin n → Bool
  live : Fin n → Bool
  sent : Sender τ ρ → Nat

/-- What the schedule decides: the outcome of waiting (`tick`, `timeout`), the loads
that a routing call sees, what the actor's own code does, and what the clients and
the controlling thread call next. -/
inductive Choice (n : Nat) (ρ β : Type*) where
  | go
  | tick
  | timeout
  | route (load : Nat → Fin n → Nat)
  | user (choice : RunChoice ρ β)
  | send (target : ρ) (body : β)
  | dispatch (target : ρ)
  | start
  | launch (w : Fin n)
  | stopSystem
  | stopDispatcher

structure Setup (ρ β : Type*) extends ActorSystemConfig ρ β where
  dispatcher : WorkDispatcherConfig

section Steps

variable [DecidableEq ρ] [DecidableEq τ]

def Shared.setRuntime (s : Shared n τ ρ β) (a : ρ) (rt : ActorRuntime (Envelope τ ρ β)) :
    Shared n τ ρ β :=
  { s with runtimes := Function.update s.runtimes a rt }

/-- The message as its sender sends it, and the sender's count moved on. -/
def Shared.stamp (s : Shared n τ ρ β) (sender : Sender τ ρ) (body : β) :
    Envelope τ ρ β × Shared n τ ρ β :=
  (⟨sender, s.sent sender, body⟩,
    { s with sent := Function.update s.sent sender (s.sent sender + 1) })

def enqueue (s : Shared n τ ρ β) (sender : Sender τ ρ) (target : ρ) (body : β) :
    Shared n τ ρ β × Call n τ ρ β :=
  let stamped := s.stamp sender body
  (stamped.2, .sending target stamped.1)

/-- One step of a call, whichever thread is in it. -/
def callStep [NeZero n] (cfg : Setup ρ β) (s : Shared n τ ρ β) :
    Call n τ ρ β → Choice n ρ β → Option (Shared n τ ρ β × Call n τ ρ β)
  | .idle, _ => none
  | .sending target msg, .go =>
      match (s.runtimes target).push (cfg.mailboxSize target) msg with
      | none => some (s, .idle)
      | some rt => some (s.setRuntime target rt, .errand (.dispatching target))
  | .errand errand, .route load =>
      (s.dispatcher.errandStep cfg.dispatcher cfg.actorId load errand).map fun after =>
        ({ s with dispatcher := after.1 }, after.2.elim .idle .errand)
  | _, _ => none

/-- `tryAcquireOwn` or one round of `trySteal`: what the popper goes on with. -/
def popFrom (s : Shared n τ ρ β) (q : Fin n) (stolen : Bool)
    (otherwise : WorkerPc n ρ (Envelope τ ρ β)) :
    Shared n τ ρ β × WorkerPc n ρ (Envelope τ ρ β) :=
  match (s.dispatcher.queues q).pop with
  | none => (s, otherwise)
  | some (a, ticket, queue) =>
      ({ s with dispatcher := s.dispatcher.setQueue q queue }, .releasingSlot a q ticket stolen)

/-- The thread of worker `w` leaves its function. -/
def Shared.exit (s : Shared n τ ρ β) (w : Fin n) : Shared n τ ρ β :=
  { s with live := Function.update s.live w false }

def Shared.setDispatcher (s : Shared n τ ρ β) (d : WorkDispatcher n ρ) : Shared n τ ρ β :=
  { s with dispatcher := d }

/-- After `running_` and `draining_` have been looked at: spin first, or park at once. -/
def spinOrPark (cfg : Setup ρ β) : WorkerPc n ρ (Envelope τ ρ β) :=
  if cfg.dispatcher.parkSpinNs > 0 then .spinning else .parked

/-- One step of worker `w` outside of calls, with the place it comes to and the call
it makes. -/
def workerStep [NeZero n] (cfg : Setup ρ β) (w : Fin n) (s : Shared n τ ρ β) :
    WorkerPc n ρ (Envelope τ ρ β) → Choice n ρ β →
      Option (Shared n τ ρ β × WorkerPc n ρ (Envelope τ ρ β) × Call n τ ρ β)
  -- Worker::runLoop
  | .exited, .go => if s.live w then some (s, .loop, .idle) else none
  | .loop, .go => some (s, if s.workerRunning w then .acquire else .loopDraining, .idle)
  | .loopDraining, .go =>
      if s.dispatcher.draining then some (s, .acquire, .idle) else some (s.exit w, .exited, .idle)
  -- WorkDispatcher::acquire
  | .acquire, .go =>
      let after := popFrom s w false .waitRunning
      some (after.1, after.2, .idle)
  | .waitRunning, .go =>
      some (s, if s.dispatcher.running then .checkDraining else .waitDraining, .idle)
  | .waitDraining, .go =>
      some (s, if s.dispatcher.draining then .checkDraining else .emptyHanded, .idle)
  | .checkDraining, .go =>
      some (s, if s.dispatcher.draining then .checkPending else spinOrPark cfg, .idle)
  | .checkPending, .go =>
      some (s, if s.dispatcher.pendingWork = 0 then .emptyHanded else spinOrPark cfg, .idle)
  | .spinning, .go => some (s, if s.dispatcher.running then .spinPopping else .parked, .idle)
  | .spinPopping, .go =>
      let after := popFrom s w false .spinPopping
      some (after.1, after.2, .idle)
  | .spinPopping, .tick => some (s, .spinning, .idle)
  | .spinPopping, .timeout => some (s, .parked, .idle)
  | .parked, .go =>
      if s.dispatcher.semas w = 0 then none
      else some (s.setDispatcher (s.dispatcher.tryAcquire w), .woken, .idle)
  | .parked, .timeout => some (s, .stealing 1, .idle)
  | .woken, .go =>
      let after := popFrom s w false .waitRunning
      some (after.1, after.2, .idle)
  -- `empty()` before the pop only spares a pop that would fail
  | .stealing i, .go =>
      if i < n then
        let after := popFrom s (Fin.ofNat n (w + i)) true (.stealing (i + 1))
        some (after.1, after.2, .idle)
      else some (s, .waitRunning, .idle)
  | .releasingSlot a q ticket stolen, .go =>
      some (s.setDispatcher (s.dispatcher.setQueue q ((s.dispatcher.queues q).release ticket)),
        if stolen then .takingPermit a q else .running a .begin, .idle)
  | .takingPermit a q, .go =>
      some (s.setDispatcher (s.dispatcher.tryAcquire q), .running a .begin, .idle)
  -- ActorRuntime::run
  | .running a .done, .go => some (s, .settling a, .idle)
  | .running a pc, .user choice =>
      (runStep cfg.toActorSystemConfig Envelope.body a (s.runtimes a) s.supervisor pc choice).map
        fun (rt, sup, pc', request) =>
          let s' := { s.setRuntime a rt with supervisor := sup }
          match request with
          | none => (s', .running a pc', .idle)
          | some (b, body) =>
              let queued := enqueue s' (.actor a) b body
              (queued.1, .running a pc', queued.2)
  -- WorkDispatcher::settleToken
  | .settling a, .go =>
      let slot := WorkDispatcher.inFlightSlot (cfg.actorId a)
      some (s.setDispatcher (s.dispatcher.setHeld slot false), .rechecking a, .idle)
  | .rechecking a, .go =>
      some (s, if (s.runtimes a).stopped then .retiring a else .recounting a, .idle)
  | .recounting a, .go =>
      some (s, if (s.runtimes a).mailbox.isEmpty then .retiring a else .reclaiming a, .idle)
  | .reclaiming a, .go =>
      let slot := WorkDispatcher.inFlightSlot (cfg.actorId a)
      if s.dispatcher.held slot then some (s, .retiring a, .idle)
      else some (s.setDispatcher (s.dispatcher.setHeld slot true), .loop,
        .errand (.entering a .redispatch))
  | .retiring _, .go =>
      some (s.setDispatcher (s.dispatcher.addPending (-1)),
        if s.dispatcher.pendingWork = 1 then .retired else .loop, .idle)
  | .retired, .go => some (s, if s.dispatcher.draining then .waking 0 else .loop, .idle)
  | .waking i, .go =>
      if h : i < n then
        some (s.setDispatcher (s.dispatcher.signal ⟨i, h⟩), .waking (i + 1), .idle)
      else some (s, .loop, .idle)
  -- `acquire` gave nullptr: take `mutex_` for `drainPendedActor`
  | .emptyHanded, .go =>
      if s.dispatcher.locked then none
      else some (s.setDispatcher (s.dispatcher.setLocked true), .exitDraining,
        .errand (.draining 0))
  | .exitDraining, .go =>
      some (s, if s.dispatcher.draining then .exitPending else .exitRunning, .idle)
  | .exitPending, .go =>
      if s.dispatcher.pendingWork = 0 then some (s.exit w, .exited, .idle)
      else some (s, .exitRunning, .idle)
  | .exitRunning, .go =>
      if s.workerRunning w then some (s, .loop, .idle) else some (s.exit w, .exited, .idle)
  | _, _ => none

/-- One step of the controlling thread. -/
def controlStep (s : Shared n τ ρ β) :
    ControlPc → Choice n ρ β → Option (Shared n τ ρ β × ControlPc)
  | .idle, .start => some (s.setDispatcher { s.dispatcher with running := true }, .idle)
  | .idle, .launch w =>
      if s.live w then none
      else some ({ s with
        workerRunning := Function.update s.workerRunning w true
        live := Function.update s.live w true }, .idle)
  | .idle, .stopSystem => some (s, .beginDrain)
  | .idle, .stopDispatcher => some (s, .dispatcherStop)
  | .beginDrain, .go => some (s.setDispatcher { s.dispatcher with running := false }, .drainStore)
  | .drainStore, .go => some (s.setDispatcher { s.dispatcher with draining := true }, .drainWake 0)
  | .drainWake i, .go =>
      if h : i < n then some (s.setDispatcher (s.dispatcher.signal ⟨i, h⟩), .drainWake (i + 1))
      else some (s, .stopWorker 0)
  | .stopWorker i, .go =>
      if h : i < n then
        some ({ s with workerRunning := Function.update s.workerRunning ⟨i, h⟩ false },
          .joinWorker i)
      else some (s, .dispatcherStop)
  | .joinWorker i, .go =>
      if h : i < n then if s.live ⟨i, h⟩ then none else some (s, .stopWorker (i + 1))
      else none
  | .dispatcherStop, .go =>
      some (s.setDispatcher { s.dispatcher with running := false }, .stopDraining)
  | .stopDraining, .go =>
      some (s.setDispatcher { s.dispatcher with draining := false }, .stopWake 0)
  | .stopWake i, .go =>
      if h : i < n then some (s.setDispatcher (s.dispatcher.signal ⟨i, h⟩), .stopWake (i + 1))
      else some (s, .stopClear)
  | .stopClear, .go =>
      if s.dispatcher.locked then none else some (s.setDispatcher (s.dispatcher.setPended []), .idle)
  | _, _ => none

/-- What a client calls next. -/
def clientStep (t : τ) (s : Shared n τ ρ β) :
    Choice n ρ β → Option (Shared n τ ρ β × Call n τ ρ β)
  | .send target body => some (enqueue s (.client t) target body)
  | .dispatch target => some (s, .errand (.dispatching target))
  | _ => none

/-- One atomic step of one thread: of the call it is in, else of its own code. -/
def step [NeZero n] (cfg : Setup ρ β) :
    Program (Thread n τ) (Shared n τ ρ β) (Local n τ ρ β) (Choice n ρ β)
  | thread, s, l, choice =>
    match l.call, thread with
    | .idle, .worker w => (workerStep cfg w s l.worker choice).map fun after =>
        (after.1, { l with worker := after.2.1, call := after.2.2 })
    | .idle, .client t => (clientStep t s choice).map fun after =>
        (after.1, { l with call := after.2 })
    | .idle, .control => (controlStep s l.control choice).map fun after =>
        (after.1, { l with control := after.2 })
    | call, _ => (callStep cfg s call choice).map fun after =>
        (after.1, { l with call := after.2 })

/-- Whose code a step belongs to. -/
theorem step_cases [NeZero n] {cfg : Setup ρ β} {t : Thread n τ} {s s' : Shared n τ ρ β}
    {l l' : Local n τ ρ β} {choice : Choice n ρ β} (h : step cfg t s l choice = some (s', l')) :
    (∃ w pc' call', t = .worker w ∧ l.call = .idle ∧
      workerStep cfg w s l.worker choice = some (s', pc', call') ∧
      l' = { l with worker := pc', call := call' }) ∨
    (∃ u call', t = .client u ∧ l.call = .idle ∧ clientStep u s choice = some (s', call') ∧
      l' = { l with call := call' }) ∨
    (∃ pc', t = .control ∧ l.call = .idle ∧ controlStep s l.control choice = some (s', pc') ∧
      l' = { l with control := pc' }) ∨
    (∃ call', l.call ≠ .idle ∧ callStep cfg s l.call choice = some (s', call') ∧
      l' = { l with call := call' }) := by
  obtain ⟨call, worker, control⟩ := l
  cases call with
  | idle =>
      cases t with
      | worker w =>
          obtain ⟨after, hStep, hAfter⟩ := Option.map_eq_some_iff.mp h
          cases hAfter
          exact .inl ⟨w, _, _, rfl, rfl, hStep, rfl⟩
      | client u =>
          obtain ⟨after, hStep, hAfter⟩ := Option.map_eq_some_iff.mp h
          cases hAfter
          exact .inr (.inl ⟨u, _, rfl, rfl, hStep, rfl⟩)
      | control =>
          obtain ⟨after, hStep, hAfter⟩ := Option.map_eq_some_iff.mp h
          cases hAfter
          exact .inr (.inr (.inl ⟨_, rfl, rfl, hStep, rfl⟩))
  | sending | errand =>
      obtain ⟨after, hStep, hAfter⟩ := Option.map_eq_some_iff.mp h
      cases hAfter
      exact .inr (.inr (.inr ⟨_, by simp, hStep, rfl⟩))

/-- A worker has a choice in the code of an actor and while it waits. -/
theorem workerStep_choice [NeZero n] {cfg : Setup ρ β} {w : Fin n} {s s' : Shared n τ ρ β}
    {pc pc' : WorkerPc n ρ (Envelope τ ρ β)} {choice : Choice n ρ β} {call' : Call n τ ρ β}
    (h : workerStep cfg w s pc choice = some (s', pc', call')) :
    choice = .go ∨ (∃ a run user, pc = .running a run ∧ choice = .user user) ∨
    s' = s ∧ call' = .idle ∧ (pc = .spinPopping ∧ pc' = .spinning ∨
      pc = .spinPopping ∧ pc' = .parked ∨ pc = .parked ∧ pc' = .stealing 1) := by
  cases choice with
  | go => exact .inl rfl
  | user user =>
      cases pc with
      | running a run => exact .inr (.inl ⟨a, run, user, rfl, rfl⟩)
      | _ => cases h
  | tick =>
      cases pc with
      | spinPopping =>
          cases h
          exact .inr (.inr ⟨rfl, rfl, .inl ⟨rfl, rfl⟩⟩)
      | running a run => cases run <;> cases h
      | _ => cases h
  | timeout =>
      cases pc with
      | spinPopping =>
          cases h
          exact .inr (.inr ⟨rfl, rfl, .inr (.inl ⟨rfl, rfl⟩)⟩)
      | parked =>
          cases h
          exact .inr (.inr ⟨rfl, rfl, .inr (.inr ⟨rfl, rfl⟩)⟩)
      | running a run => cases run <;> cases h
      | _ => cases h
  | _ =>
      cases pc with
      | running a run => cases run <;> cases h
      | _ => cases h

/-- A thread that is in the dispatcher goes on there. -/
theorem step_errand [NeZero n] {cfg : Setup ρ β} {t : Thread n τ} {s s' : Shared n τ ρ β}
    {l l' : Local n τ ρ β} {choice : Choice n ρ β} {x : Errand n ρ}
    (h : step cfg t s l choice = some (s', l')) (hCall : l.call = .errand x) :
    ∃ load d x', choice = .route load ∧
      s.dispatcher.errandStep cfg.dispatcher cfg.actorId load x = some (d, x') ∧
      s' = { s with dispatcher := d } ∧ l' = { l with call := x'.elim .idle .errand } := by
  obtain ⟨call, worker, control⟩ := l
  cases hCall
  obtain ⟨⟨s₁, call'⟩, hStep, hPlace⟩ := Option.map_eq_some_iff.mp h
  cases hPlace
  cases choice <;> simp only [callStep, reduceCtorEq] at hStep
  obtain ⟨⟨d, x'⟩, hErrand, hAfter⟩ := Option.map_eq_some_iff.mp hStep
  cases hAfter
  exact ⟨_, d, x', rfl, hErrand, rfl, rfl⟩

/-- The system as constructed, before anything is started. -/
def Shared.constructed (cfg : Setup ρ β) : Shared n τ ρ β where
  dispatcher := .constructed
  runtimes := fun a => .constructed (cfg.startState a)
  supervisor := ⟨0, 0, 0, fun _ => 0⟩
  workerRunning := fun _ => false
  live := fun _ => false
  sent := fun _ => 0

def initial (cfg : Setup ρ β) :
    Config (Thread n τ) (Shared n τ ρ β) (Local n τ ρ β) :=
  ⟨.constructed cfg, fun _ => .start⟩

/-- The states that runs reach in which the schedule takes `allowed` steps only. -/
abbrev RunsTo [NeZero n] (cfg : Setup ρ β)
    (allowed : Config (Thread n τ) (Shared n τ ρ β) (Local n τ ρ β) → Thread n τ →
      Choice n ρ β → Prop)
    (c : Config (Thread n τ) (Shared n τ ρ β) (Local n τ ρ β)) : Prop :=
  Reach (step cfg) (· = initial cfg) allowed c

/-- The states that any interleaving reaches. -/
abbrev Reachable [NeZero n] (cfg : Setup ρ β)
    (c : Config (Thread n τ) (Shared n τ ρ β) (Local n τ ρ β)) : Prop :=
  RunsTo cfg anyStep c

/-- Only workers are ever in a worker's code. -/
theorem exited_of_not_worker [NeZero n] {cfg : Setup ρ β}
    {allowed : Config (Thread n τ) (Shared n τ ρ β) (Local n τ ρ β) → Thread n τ →
      Choice n ρ β → Prop}
    {c : Config (Thread n τ) (Shared n τ ρ β) (Local n τ ρ β)} (reach : RunsTo cfg allowed c)
    {t : Thread n τ} (ht : ∀ w, t ≠ .worker w) : (c.here t).worker = .exited := by
  refine Reach.invariant (I := fun c => (c.here t).worker = .exited) ?_ ?_ reach
  · rintro c rfl
    rfl
  · intro c u choice shared place _ hExited _ hLocal
    by_cases hu : t = u
    · subst hu
      simp only [Function.update_self]
      rcases step_cases hLocal with ⟨w, _, _, rfl, _⟩ | ⟨_, _, _, _, _, rfl⟩ |
        ⟨_, _, _, _, rfl⟩ | ⟨_, _, _, rfl⟩
      · exact absurd rfl (ht w)
      · exact hExited
      · exact hExited
      · exact hExited
    · simpa [Function.update_of_ne hu] using hExited

end Steps

/-- Three actors and queues of two slots, for schedules that are played step by step.
The message `true` asks for a restart. -/
def sample : Setup (Fin 3) Bool where
  actorId a := a
  actorId_lt a := a.isLt.trans (by decide)
  actorId_injective := Fin.val_injective
  mailboxSize _ := 2
  maxBatch := 4
  messageId request := if request then .actorRestartRequest else .other
  restartRequest := true
  restartRequest_id := rfl
  registered := []
  supervised _ := true
  essential _ := false
  strategy _ := .oneForOne
  maxRestarts := 5
  startState _ := .opened
  dispatcher := ⟨2, 0, 0⟩

/-- Steps of the sample's threads, one after the other. -/
abbrev Schedule (n : Nat) := List (Thread n Unit × Choice n (Fin 3) Bool)

/-- A client sends a message to actor `a`, and takes `calls` steps in the dispatcher. -/
def sendTo [NeZero n] (a : Fin 3) (calls : Nat) : List (Thread n Unit × Choice n (Fin 3) Bool) :=
  ([(.client (), .send a false), (.client (), .go)] : Schedule n) ++
    (List.replicate calls (.client (), .route fun _ _ => 0) : Schedule n)

/-- From the head of its loop worker `w` takes an actor of its own queue, handles one
message and finds no second one, up to and including the settling of the token. -/
def handleOne (w : Fin n) : List (Thread n Unit × Choice n (Fin 3) Bool) :=
  (List.replicate 3 (.worker w, .go) : Schedule n) ++
  ([(.worker w, .user .go), (.worker w, .user .go), (.worker w, .user .go),
    (.worker w, .user (.returns .opened)), (.worker w, .user .go)] : Schedule n) ++
  (List.replicate 5 (.worker w, .go) : Schedule n)

end ActorSystem
