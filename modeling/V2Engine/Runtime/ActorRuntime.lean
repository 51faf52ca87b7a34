import V2Engine.Dispatcher.WorkDispatcher
import Mathlib.Tactic.SplitIfs

/-! `ActorRuntime` and the `Supervisor` as one worker runs them: `processBatch` with
its lifecycle messages, failures and restarts, one access to the mailbox or to a
flag at a time. The actor's own code may send messages and may end in an exception
wherever the source calls it. -/

/-- Who sends a message: a thread outside the workers, or an actor whose code, or
whose failure, makes a worker send it. -/
inductive Sender (τ ρ : Type*) where
  | client (t : τ)
  | actor (a : ρ)
  deriving DecidableEq

/-- A `Message` with its sender and the number the sender gave it. -/
structure Envelope (τ ρ β : Type*) where
  sender : Sender τ ρ
  seqNo : Nat
  body : β
  deriving DecidableEq

inductive ActorState where
  | closed
  | closing
  | opening
  | opened
  | inherited
  deriving DecidableEq

inductive RestartStrategy where
  | oneForOne
  | oneForAll
  | none
  deriving DecidableEq

/-- The message ids that `tryConsumeLifecycle` tells apart. -/
inductive MessageId where
  | actorEnableRequest
  | actorDisableRequest
  | actorRestartRequest
  | other
  deriving DecidableEq

/-- What became of a message once it was out of the mailbox. -/
inductive Fate where
  | consumed
  | drained
  deriving DecidableEq

/-- A push to the dead letter queue: by which failure of the actor, and whether the
message is the one that failed or one drained after it. -/
inductive Offer (ε : Type*) where
  | failed (failure : Nat) (msg : Option ε)
  | drained (failure : Nat) (msg : ε)
  deriving DecidableEq

/-- The members of `ActorRuntime` and of its actor. From `accepted` on the fields are
history: messages accepted by the mailbox, taken out of it, and dealt with; messages
whose handling threw; failures counted, and pushes to the dead letter queue. -/
structure ActorRuntime (ε : Type*) where
  mailbox : List ε
  stopped : Bool
  state : ActorState
  restartCount : Int
  accepted : List ε
  removed : List ε
  settled : List (ε × Fate)
  thrown : List ε
  failures : Nat
  offers : List (Offer ε)

/-- The counters of `Supervisor`. -/
structure Supervisor (ρ : Type*) where
  totalFailures : Nat
  totalRestarts : Nat
  oneForAllBroadcasts : Nat
  oneForAllRestartCount : ρ → Int

def Supervisor.broadcast {ρ : Type*} (sup : Supervisor ρ) (restarted : Nat) : Supervisor ρ :=
  { sup with
    oneForAllBroadcasts := sup.oneForAllBroadcasts + 1
    totalRestarts := sup.totalRestarts + restarted }

def Supervisor.chargeOneForAll {ρ : Type*} [DecidableEq ρ] (sup : Supervisor ρ) (a : ρ) :
    Supervisor ρ :=
  { sup with
    oneForAllRestartCount :=
      Function.update sup.oneForAllRestartCount a (sup.oneForAllRestartCount a + 1) }

/-- What the actors, the supervisor and the workers are configured with. `attachActor`
refuses ids from `kMaxActors` on. -/
structure ActorSystemConfig (ρ β : Type*) where
  actorId : ρ → Nat
  actorId_lt : ∀ a, actorId a < WorkDispatcher.kMaxActors
  actorId_injective : Function.Injective actorId
  mailboxSize : ρ → Nat
  maxBatch : Int
  messageId : β → MessageId
  restartRequest : β
  restartRequest_id : messageId restartRequest = .actorRestartRequest
  registered : List ρ
  supervised : ρ → Bool
  essential : ρ → Bool
  strategy : ρ → RestartStrategy
  maxRestarts : Int
  startState : ρ → ActorState

/-- Where the outermost supervisor or restart call was made from. -/
inductive Caller (ε : Type*) where
  | batch
  | lifecycle (msg : ε) (processed : Nat)

/-- The calls under way inside each other: `restarts` calls of `tryRestart`, and the
place in `processBatch` that the outermost one returns to. -/
structure Frames (ε : Type*) where
  restarts : Nat
  caller : Caller ε

/-- Where `processBatch` stands. -/
inductive RunPc (ρ ε : Type*) where
  | begin
  | fetch (processed : Nat)
  | deliver (msg : ε) (processed : Nat)
  | handling (msg : ε) (processed : Nat)
  | failed (msg : Option ε) (frames : Frames ε)
  | draining (failure : Nat) (frames : Frames ε)
  | offering (failure : Nat) (msg : ε) (frames : Frames ε)
  | deciding (frames : Frames ε)
  | closing (frames : Frames ε)
  | opening (frames : Frames ε)
  | broadcasting (todo : List ρ) (restarted : Nat) (frames : Frames ε)
  | shuttingDown (frames : Frames ε)
  | returning (frames : Frames ε)
  | terminated
  | done

/-- What the actor's own code does next; otherwise the step is the source's. -/
inductive RunChoice (ρ β : Type*) where
  | go
  | send (target : ρ) (body : β)
  | returns (state : ActorState)
  | throws (state : ActorState)

namespace ActorRuntime
variable {ρ ε : Type*}

def constructed (state : ActorState) : ActorRuntime ε where
  mailbox := []
  stopped := false
  state := state
  restartCount := 0
  accepted := []
  removed := []
  settled := []
  thrown := []
  failures := 0
  offers := []

/-- `mailbox_->push`, which refuses a message when the mailbox is full. -/
def push (size : Nat) (rt : ActorRuntime ε) (msg : ε) : Option (ActorRuntime ε) :=
  if size ≤ rt.mailbox.length then none
  else some { rt with mailbox := rt.mailbox ++ [msg], accepted := rt.accepted ++ [msg] }

/-- `mailbox_->pop`. -/
def pop (rt : ActorRuntime ε) : Option (ε × ActorRuntime ε) :=
  match rt.mailbox with
  | [] => none
  | msg :: rest => some (msg, { rt with mailbox := rest, removed := rt.removed ++ [msg] })

def settle (rt : ActorRuntime ε) (msg : ε) (fate : Fate) : ActorRuntime ε :=
  { rt with settled := rt.settled ++ [(msg, fate)] }

/-- The failed message goes to the dead letter queue, an empty one if there is none. -/
def fail (rt : ActorRuntime ε) (msg : Option ε) : ActorRuntime ε :=
  { rt with failures := rt.failures + 1, offers := rt.offers ++ [.failed rt.failures msg] }

def drain (rt : ActorRuntime ε) (failure : Nat) (msg : ε) : ActorRuntime ε :=
  { rt.settle msg .drained with offers := rt.offers ++ [.drained failure msg] }

/-- `shutdown` up to its call of the actor's `close`. -/
def shutdown (rt : ActorRuntime ε) : ActorRuntime ε := { rt with stopped := true }

/-- `tryConsumeLifecycle`, or `handle` for a message that it leaves alone, up to the
actor's own code. -/
def tryConsumeLifecycle (rt : ActorRuntime ε) (essential : Bool) (msg : ε) (processed : Nat) :
    MessageId → RunPc ρ ε
  | .actorEnableRequest =>
      if rt.state = .closed then .handling msg processed else .fetch (processed + 1)
  | .actorDisableRequest =>
      if rt.state = .opened ∧ essential = false then .handling msg processed
      else .fetch (processed + 1)
  | .actorRestartRequest =>
      if rt.state = .opened then .closing ⟨0, .lifecycle msg processed⟩
      else .fetch (processed + 1)
  | .other => .handling msg processed

end ActorRuntime

/-- The exception left `processBatch`'s try block: report it, or only log it. -/
def RunPc.threw {ρ ε : Type*} (supervised : Bool) (msg : ε) : RunPc ρ ε :=
  if supervised then .failed (some msg) ⟨0, .batch⟩ else .done

/-- The strategy part of `onActorFailed`. -/
def onActorFailed {ρ ε : Type*} [DecidableEq ρ] (registered : List ρ) (limit : Int) (a : ρ)
    (rt : ActorRuntime ε) (sup : Supervisor ρ) (frames : Frames ε) :
    RestartStrategy → ActorRuntime ε × Supervisor ρ × RunPc ρ ε
  | .oneForOne =>
      if limit ≤ rt.restartCount then (rt.shutdown, sup, .shuttingDown frames)
      else ({ rt with restartCount := rt.restartCount + 1 }, sup,
        .closing { frames with restarts := frames.restarts + 1 })
  | .oneForAll =>
      if limit ≤ sup.oneForAllRestartCount a then (rt.shutdown, sup, .shuttingDown frames)
      else (rt, sup.chargeOneForAll a, .broadcasting registered 0 frames)
  | .none => (rt.shutdown, sup, .shuttingDown frames)

/-- One step of the worker that runs actor `a`. The last component is a message that
the worker now has to enqueue. -/
def runStep {ρ β ε : Type*} [DecidableEq ρ] (cfg : ActorSystemConfig ρ β) (body : ε → β) (a : ρ)
    (rt : ActorRuntime ε) (sup : Supervisor ρ) (pc : RunPc ρ ε) (choice : RunChoice ρ β) :
    Option (ActorRuntime ε × Supervisor ρ × RunPc ρ ε × Option (ρ × β)) :=
  match pc, choice with
  | .begin, .go => some (rt, sup, if rt.stopped then .done else .fetch 0, none)
  | .fetch processed, .go =>
      if cfg.maxBatch < 0 ∨ (processed : Int) < cfg.maxBatch then
        match rt.pop with
        | none => some (rt, sup, .done, none)
        | some (msg, rt') => some (rt', sup, .deliver msg processed, none)
      else some (rt, sup, .done, none)
  | .deliver msg processed, .go =>
      some (rt.settle msg .consumed, sup,
        rt.tryConsumeLifecycle (cfg.essential a) msg processed (cfg.messageId (body msg)), none)
  | .handling msg processed, .send b request =>
      some (rt, sup, .handling msg processed, some (b, request))
  | .handling _ processed, .returns state =>
      some ({ rt with state := state }, sup, .fetch (processed + 1), none)
  | .handling msg _, .throws state =>
      some ({ rt with state := state, thrown := rt.thrown ++ [msg] }, sup,
        .threw (cfg.supervised a) msg, none)
  | .failed msg frames, .go =>
      some (rt.fail msg, { sup with totalFailures := sup.totalFailures + 1 },
        .draining rt.failures frames, none)
  | .draining failure frames, .go =>
      match rt.pop with
      | none => some (rt, sup, .deciding frames, none)
      | some (msg, rt') => some (rt', sup, .offering failure msg frames, none)
  | .offering failure msg frames, .go =>
      some (rt.drain failure msg, sup, .draining failure frames, none)
  | .deciding frames, .go =>
      let after := onActorFailed cfg.registered cfg.maxRestarts a rt sup frames (cfg.strategy a)
      some (after.1, after.2.1, after.2.2, none)
  | .closing frames, .send b request => some (rt, sup, .closing frames, some (b, request))
  | .closing frames, .returns state =>
      some ({ rt with state := state }, sup,
        if state = .closed then .opening frames else .returning frames, none)
  -- `performRestart` swallows the exception and looks at the state all the same
  | .closing frames, .throws state =>
      some ({ rt with state := state }, sup,
        if state = .closed then .opening frames else .returning frames, none)
  | .opening frames, .send b request => some (rt, sup, .opening frames, some (b, request))
  | .opening frames, .returns state => some ({ rt with state := state }, sup, .returning frames, none)
  | .opening frames, .throws state =>
      some ({ rt with state := state }, sup,
        if cfg.supervised a then .failed none frames else .returning frames, none)
  | .broadcasting (b :: todo) restarted frames, .go =>
      some (rt, sup, .broadcasting todo (restarted + 1) frames, some (b, cfg.restartRequest))
  | .broadcasting [] restarted frames, .go =>
      some (rt, sup.broadcast restarted, .returning frames, none)
  | .shuttingDown frames, .send b request =>
      some (rt, sup, .shuttingDown frames, some (b, request))
  | .shuttingDown frames, .returns state =>
      some ({ rt with state := state }, sup, .returning frames, none)
  | .shuttingDown frames, .throws state =>
      match frames.caller with
      -- thrown from a handler of `processBatch`: it leaves the thread's function
      | .batch => some ({ rt with state := state }, sup, .terminated, none)
      | .lifecycle msg _ =>
          some ({ rt with state := state, thrown := rt.thrown ++ [msg] }, sup,
            .threw (cfg.supervised a) msg, none)
  | .returning frames, .go =>
      match frames.restarts with
      | restarts + 1 =>
          some (rt, { sup with totalRestarts := sup.totalRestarts + 1 },
            .returning { frames with restarts := restarts }, none)
      | 0 =>
          match frames.caller with
          | .batch => some (rt, sup, .done, none)
          | .lifecycle _ processed => some (rt, sup, .fetch (processed + 1), none)
  | _, _ => none

section Steps

variable {ρ β ε : Type*} [DecidableEq ρ] {cfg : ActorSystemConfig ρ β} {body : ε → β} {a : ρ}
  {rt rt' : ActorRuntime ε} {sup sup' : Supervisor ρ} {pc pc' : RunPc ρ ε}
  {choice : RunChoice ρ β} {request : Option (ρ × β)}

/-- The worker takes messages out of the mailbox and puts none in, and a stopped actor
stays stopped. -/
structure ActorRuntime.Calm (rt rt' : ActorRuntime ε) : Prop where
  mailbox : rt'.mailbox <:+ rt.mailbox
  accepted : rt'.accepted = rt.accepted
  stopped : rt.stopped = true → rt'.stopped = true

theorem ActorRuntime.Calm.of_eq (hMailbox : rt'.mailbox = rt.mailbox)
    (hAccepted : rt'.accepted = rt.accepted) (hStopped : rt'.stopped = rt.stopped) : rt.Calm rt' :=
  ⟨hMailbox ▸ List.suffix_refl _, hAccepted, fun h => hStopped.trans h⟩

theorem ActorRuntime.push_eq_some {size : Nat} {msg : ε} (h : rt.push size msg = some rt') :
    rt.mailbox.length < size ∧
      rt' = { rt with mailbox := rt.mailbox ++ [msg], accepted := rt.accepted ++ [msg] } := by
  unfold ActorRuntime.push at h
  split_ifs at h with hFull
  cases h
  exact ⟨Nat.lt_of_not_le hFull, rfl⟩

theorem ActorRuntime.pop_eq_some {msg : ε} (h : rt.pop = some (msg, rt')) :
    rt.mailbox = msg :: rt'.mailbox ∧
      rt' = { rt with mailbox := rt'.mailbox, removed := rt.removed ++ [msg] } := by
  unfold ActorRuntime.pop at h
  split at h
  · cases h
  · cases h
    exact ⟨by assumption, rfl⟩

theorem ActorRuntime.calm_pop {msg : ε} (h : rt.pop = some (msg, rt')) : rt.Calm rt' := by
  obtain ⟨hMailbox, hRest⟩ := ActorRuntime.pop_eq_some h
  refine ⟨hMailbox ▸ List.suffix_cons _ _, ?_, fun hStopped => ?_⟩
  · rw [hRest]
  · rw [hRest]
    exact hStopped

theorem onActorFailed_calm (frames : Frames ε) (strategy : RestartStrategy) :
    rt.Calm (onActorFailed cfg.registered cfg.maxRestarts a rt sup frames strategy).1 := by
  have hShutdown : rt.Calm rt.shutdown := ⟨List.suffix_refl _, rfl, fun _ => rfl⟩
  cases strategy with
  | none => exact hShutdown
  | oneForOne | oneForAll =>
      simp only [onActorFailed]
      split
      · exact hShutdown
      · exact .of_eq rfl rfl rfl

theorem runStep_calm (h : runStep cfg body a rt sup pc choice = some (rt', sup', pc', request)) :
    rt.Calm rt' := by
  cases pc <;> cases choice <;> simp only [runStep, reduceCtorEq] at h
  case fetch.go processed =>
    split_ifs at h with hRoom
    · cases hPop : rt.pop with
      | none =>
          rw [hPop] at h
          cases h
          exact .of_eq rfl rfl rfl
      | some taken =>
          rw [hPop] at h
          cases h
          exact ActorRuntime.calm_pop hPop
    · cases h
      exact .of_eq rfl rfl rfl
  case draining.go failure frames =>
    cases hPop : rt.pop with
    | none =>
        rw [hPop] at h
        cases h
        exact .of_eq rfl rfl rfl
    | some taken =>
        rw [hPop] at h
        cases h
        exact ActorRuntime.calm_pop hPop
  case deciding.go frames =>
    cases h
    exact onActorFailed_calm frames _
  case broadcasting.go todo restarted frames =>
    cases todo <;> cases h <;> exact .of_eq rfl rfl rfl
  case shuttingDown.throws frames state =>
    obtain ⟨restarts, caller⟩ := frames
    cases caller <;> cases h <;> exact .of_eq rfl rfl rfl
  case returning.go frames =>
    obtain ⟨restarts, caller⟩ := frames
    cases restarts <;> cases caller <;> cases h <;> exact .of_eq rfl rfl rfl
  all_goals
    cases h
    exact .of_eq rfl rfl rfl

end Steps
