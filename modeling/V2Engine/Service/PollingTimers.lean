import V2Engine.Interleaving.Calls
import V2Engine.Runtime.ActorRuntime
import V2Engine.Timer.Scheduler

/-! The repeating timers of the actors that poll (service/tick, service/system_manager,
service/device_manager), over everything that opens and closes these actors. Each starts its
timer in `open`; only one of them cancels it in `close`. -/
namespace Service

open Interleaving Timer

inductive PollingActor where
  | tick
  | systemManager
  | deviceManager
  deriving DecidableEq

inductive PollMessage where
  | tick
  | sysDataTick
  | pmuDataTick
  /-- What other actors have sent to themselves, or later. -/
  | other
  deriving DecidableEq

def PollingActor.message : PollingActor → PollMessage
  | .tick => .tick
  | .systemManager => .sysDataTick
  | .deviceManager => .pmuDataTick

/-- The intervals from the configuration, and `isEssential`. -/
structure PollingConfig where
  intervalMs : PollingActor → Nat
  essential : PollingActor → Bool

/-- The timers, the targets and messages the scheduler keeps for them, and for each of the actors
its state and the `timerIds_` of its runtime. `ready` are the timers that a pass has collected and
not dealt with. A target is nobody when it is another actor. -/
structure Polling where
  base : TimerBase
  ready : List Nat
  timerCtxs : Nat → Option (TimerCtx (Option PollingActor) PollMessage)
  state : PollingActor → ActorState
  timerIds : PollingActor → List Nat

inductive PollingOp where
  | opens (actor : PollingActor) (now : Nat)
  | closes (actor : PollingActor)
  | enableRequest (actor : PollingActor) (now : Nat)
  | disableRequest (actor : PollingActor)
  | restartRequest (actor : PollingActor) (now : Nat)
  | tryRestart (actor : PollingActor) (now : Nat)
  /-- Another actor starts a timer of its own, or sends a message later. -/
  | addTimer (target : Option PollingActor) (delayMs : Nat) (repeating : Bool) (now : Nat)
  | cancelTimer (id : Nat)
  | collect (now : Nat)
  | reschedule

namespace Polling

/-- The timer sends messages to the actor again and again. -/
def polls (s : Polling) (actor : PollingActor) (id : Nat) : Bool :=
  (s.base.find id).any (·.repeating) && (s.timerCtxs id).any (·.target = some actor)

/-- `Scheduler::addTimer`: the id, and what is left. -/
def addTimer (s : Polling) (ctx : TimerCtx (Option PollingActor) PollMessage) (delayMs : Nat) (repeating : Bool)
    (now : Nat) : Nat × Polling :=
  let timerCtxs := fun id => if s.base.isAlive id then s.timerCtxs id else none
  let add := s.base.add now delayMs repeating
  (add.1, { s with base := add.2.2, timerCtxs := Function.update timerCtxs add.1 (some ctx) })

/-- `Scheduler::cancel`. -/
def cancel (s : Polling) (id : Nat) : Polling :=
  { s with base := s.base.cancel id, timerCtxs := Function.update s.timerCtxs id none }

/-- `startTimer` for a repeating timer of the actor itself. -/
def startTimer (s : Polling) (actor : PollingActor) (delayMs now : Nat) : Polling :=
  let add := s.addTimer ⟨some actor, actor.message⟩ delayMs true now
  { add.2 with timerIds := Function.update add.2.timerIds actor (add.1 :: add.2.timerIds actor) }

def cancelAllTimers (s : Polling) (actor : PollingActor) : Polling :=
  { (s.timerIds actor).foldl cancel s with timerIds := Function.update s.timerIds actor [] }

def setState (s : Polling) (actor : PollingActor) (state : ActorState) : Polling :=
  { s with state := Function.update s.state actor state }

def close (s : Polling) (actor : PollingActor) : Polling :=
  if s.state actor = .closed then s
  else
    match actor with
    | .tick => (s.cancelAllTimers .tick).setState .tick .closed
    | .systemManager => s.setState .systemManager .closed
    | .deviceManager => s.setState .deviceManager .closed

def opens (config : PollingConfig) (s : Polling) (actor : PollingActor) (now : Nat) : Polling :=
  let s := if s.state actor ≠ .closed then s.close actor else s
  (s.startTimer actor (config.intervalMs actor) now).setState actor .opened

def performRestart (config : PollingConfig) (s : Polling) (actor : PollingActor) (now : Nat) : Polling :=
  let s := s.close actor
  if s.state actor = .closed then s.opens config actor now else s

/-- Other actors add repeating timers for themselves only, and cancel what they have added. -/
def step (config : PollingConfig) : PollingOp → Polling → Option Polling
  | .opens actor now, s => some (s.opens config actor now)
  | .closes actor, s => some (s.close actor)
  | .enableRequest actor now, s => some (if s.state actor = .closed then s.opens config actor now else s)
  | .disableRequest actor, s =>
      some (if s.state actor = .opened ∧ config.essential actor = false then s.close actor else s)
  | .restartRequest actor now, s => some (if s.state actor = .opened then s.performRestart config actor now else s)
  | .tryRestart actor now, s => some (s.performRestart config actor now)
  | .addTimer target delayMs repeating now, s =>
      if target = none ∨ repeating = false then some (s.addTimer ⟨target, .other⟩ delayMs repeating now).2 else none
  | .cancelTimer id, s =>
      if s.polls .tick id ∨ s.polls .systemManager id ∨ s.polls .deviceManager id then none else some (s.cancel id)
  | .collect now, s =>
      if s.ready = [] then
        some { s with base := (s.base.collectExpired now).2, ready := (s.base.collectExpired now).1 }
      else none
  | .reschedule, s => some { s with base := s.base.reschedule s.ready, ready := [] }

def constructed : Polling := ⟨.constructed, [], fun _ => none, fun _ => .closed, fun _ => []⟩

/-- An open actor has one repeating timer and a closed one none, so a pass has one poll for it
at most. -/
structure PolledOnce (s : Polling) (actor : PollingActor) : Prop where
  opened : s.state actor = .opened → ∃! id, s.polls actor id = true
  closed : s.state actor = .closed → ∀ id, s.polls actor id = false
  pass : s.ready = [] → ∀ now, ((s.base.collectExpired now).1.filter (s.polls actor)).length ≤ 1

/-- Only the tick actor is closed, or opened or restarted, while it is open. -/
def keepsTimers (config : PollingConfig) (s : Polling) : PollingOp → Prop
  | .opens actor _ | .closes actor | .restartRequest actor _ | .tryRestart actor _ =>
      actor = .tick ∨ s.state actor ≠ .opened
  | .disableRequest actor => actor = .tick ∨ s.state actor ≠ .opened ∨ config.essential actor = true
  | _ => True

instance (config : PollingConfig) (s : Polling) (op : PollingOp) : Decidable (s.keepsTimers config op) := by
  cases op <;> unfold keepsTimers <;> infer_instance

/-- A runtime knows the repeating timers of its actor, and no others. -/
structure Tracked (s : Polling) : Prop where
  sound : s.base.Sound s.ready
  issued : ∀ actor, ∀ id ∈ s.timerIds actor, id < s.base.nextId
  known : ∀ actor id, s.polls actor id = true → id ∈ s.timerIds actor
  own : ∀ actor, ∀ id ∈ s.timerIds actor, ∀ other, s.polls other id = true → other = actor

/-- What every run keeps in which no actor is closed that leaves its timer behind. -/
structure Kept (s : Polling) : Prop extends s.Tracked where
  states : ∀ actor, s.state actor = .opened ∨ s.state actor = .closed
  opened : ∀ actor, s.state actor = .opened → ∃! id, s.polls actor id = true
  closed : ∀ actor, s.state actor = .closed → ∀ id, s.polls actor id = false

section Timers

variable {s : Polling} {actor other : PollingActor} {id : Nat}

theorem polls_addTimer (sound : s.base.Sound s.ready) (ctx : TimerCtx (Option PollingActor) PollMessage)
    (delayMs : Nat) (repeating : Bool) (now : Nat) (actor : PollingActor) (id : Nat) :
    (s.addTimer ctx delayMs repeating now).2.polls actor id =
      if id = s.base.nextId then repeating && decide (ctx.target = some actor) else s.polls actor id := by
  obtain ⟨_, hFind, _⟩ := sound.add now delayMs repeating
  have hId : (s.base.add now delayMs repeating).1 = s.base.nextId := rfl
  unfold polls addTimer
  dsimp only
  rw [hFind, hId]
  by_cases hNew : id = s.base.nextId
  · rw [if_pos hNew, if_pos hNew, hNew, Function.update_self]
    rfl
  · rw [if_neg hNew, if_neg hNew, Function.update_of_ne hNew]
    cases hTimer : s.base.find id with
    | none => rfl
    | some node =>
        have hAlive : s.base.isAlive id = true := by
          rw [sound.isAlive_eq, hTimer]
          rfl
        rw [hAlive]
        rfl

theorem polls_cancel (sound : s.base.Sound s.ready) (cancelled : Nat) (actor : PollingActor) (id : Nat) :
    (s.cancel cancelled).polls actor id = if id = cancelled then false else s.polls actor id := by
  obtain ⟨_, hFind, _⟩ := sound.cancel cancelled
  unfold polls cancel
  dsimp only
  rw [hFind]
  by_cases hSame : id = cancelled
  · rw [if_pos hSame, if_pos hSame]
    rfl
  · rw [if_neg hSame, if_neg hSame, Function.update_of_ne hSame]

theorem lt_of_polls (sound : s.base.Sound s.ready) (h : s.polls actor id = true) : id < s.base.nextId := by
  obtain ⟨hFind, _⟩ := Bool.and_eq_true_iff.mp h
  cases hTimer : s.base.find id with
  | none =>
      rw [hTimer] at hFind
      cases hFind
  | some node => exact sound.lt_of_find hTimer

/-- A timer of another actor, or one that fires once. -/
theorem Tracked.addTimer (tracked : s.Tracked) {target : Option PollingActor} {repeating : Bool}
    (hOther : target = none ∨ repeating = false) (delayMs now : Nat) :
    (s.addTimer ⟨target, .other⟩ delayMs repeating now).2.Tracked ∧
      ∀ actor id, (s.addTimer ⟨target, .other⟩ delayMs repeating now).2.polls actor id = s.polls actor id := by
  obtain ⟨hSound, _, hNext, _⟩ := tracked.sound.add now delayMs repeating
  have hPolls : ∀ actor id, (s.addTimer ⟨target, .other⟩ delayMs repeating now).2.polls actor id = s.polls actor id := by
    intro actor id
    rw [polls_addTimer tracked.sound]
    split
    · rename_i hNew
      have hNone : s.polls actor id = false := by
        cases hPoll : s.polls actor id with
        | false => rfl
        | true => exact absurd (lt_of_polls tracked.sound hPoll) (by omega)
      rw [hNone]
      rcases hOther with rfl | rfl
      · exact Bool.and_false _
      · rfl
    · rfl
  refine ⟨⟨hSound, fun actor id hId => ?_, fun actor id hPoll => ?_, fun actor id hId other hPoll => ?_⟩, hPolls⟩
  · show id < (s.base.add now delayMs repeating).2.2.nextId
    rw [hNext]
    exact Nat.lt_succ_of_lt (tracked.issued actor id hId)
  · rw [hPolls] at hPoll
    exact tracked.known actor id hPoll
  · rw [hPolls] at hPoll
    exact tracked.own actor id hId other hPoll

/-- The timer that `open` starts. -/
theorem Tracked.startTimer (tracked : s.Tracked) (actor : PollingActor) (delayMs now : Nat) :
    (s.startTimer actor delayMs now).Tracked ∧ ∀ other id, (s.startTimer actor delayMs now).polls other id =
      if id = s.base.nextId then decide (actor = other) else s.polls other id := by
  obtain ⟨hSound, _, hNext, _⟩ := tracked.sound.add now delayMs true
  have hPolls : ∀ other id, (s.startTimer actor delayMs now).polls other id =
      if id = s.base.nextId then decide (actor = other) else s.polls other id := by
    intro other id
    refine (polls_addTimer tracked.sound ⟨some actor, actor.message⟩ delayMs true now other id).trans ?_
    simp only [Option.some.injEq, Bool.true_and]
  have hIds : ∀ other, (s.startTimer actor delayMs now).timerIds other =
      if other = actor then s.base.nextId :: s.timerIds actor else s.timerIds other := by
    intro other
    exact Function.update_apply s.timerIds actor _ other
  refine ⟨⟨hSound, fun other id hId => ?_, fun other id hPoll => ?_, fun other id hId third hPoll => ?_⟩, hPolls⟩
  · show id < (s.base.add now delayMs true).2.2.nextId
    rw [hNext]
    rw [hIds] at hId
    split at hId
    · rcases List.mem_cons.mp hId with rfl | hOld
      · exact Nat.lt_succ_self _
      · exact Nat.lt_succ_of_lt (tracked.issued actor id hOld)
    · exact Nat.lt_succ_of_lt (tracked.issued other id hId)
  · rw [hPolls] at hPoll
    rw [hIds]
    split at hPoll
    · rename_i hNew
      rw [if_pos (of_decide_eq_true hPoll).symm, hNew]
      exact List.mem_cons_self ..
    · have hOld := tracked.known other id hPoll
      split
      · rename_i hSame
        exact List.mem_cons_of_mem _ (hSame ▸ hOld)
      · exact hOld
  · rw [hPolls] at hPoll
    rw [hIds] at hId
    by_cases hNew : id = s.base.nextId
    · rw [if_pos hNew] at hPoll
      split at hId
      · rename_i hSame
        exact (of_decide_eq_true hPoll).symm.trans hSame.symm
      · exact absurd (tracked.issued other id hId) (by omega)
    · rw [if_neg hNew] at hPoll
      split at hId
      · rename_i hSame
        subst hSame
        rcases List.mem_cons.mp hId with hSame | hOld
        · exact absurd hSame hNew
        · exact tracked.own other id hOld third hPoll
      · exact tracked.own other id hId third hPoll

/-- The timers of a list are cancelled one after the other. -/
theorem foldl_cancel (ids : List Nat) (s : Polling) (sound : s.base.Sound s.ready) :
    (ids.foldl cancel s).base.Sound (ids.foldl cancel s).ready ∧
      (ids.foldl cancel s).base.nextId = s.base.nextId ∧ (ids.foldl cancel s).state = s.state ∧
      ∀ actor id, (ids.foldl cancel s).polls actor id = if id ∈ ids then false else s.polls actor id := by
  induction ids generalizing s with
  | nil => exact ⟨sound, rfl, rfl, fun actor id => (if_neg List.not_mem_nil).symm⟩
  | cons first rest ih =>
      obtain ⟨hSound, hNext, hState, hPolls⟩ := ih (s.cancel first) (sound.cancel first).1
      refine ⟨hSound, hNext.trans (TimerBase.cancel_nextId s.base first), hState, fun actor id => ?_⟩
      refine (hPolls actor id).trans ?_
      rw [polls_cancel sound]
      by_cases hFirst : id = first
      · simp [hFirst]
      · simp [hFirst]

/-- An actor that cancels all its timers has no repeating timer left, and the others keep theirs. -/
theorem Tracked.cancelAllTimers (tracked : s.Tracked) (actor : PollingActor) :
    (s.cancelAllTimers actor).Tracked ∧ (s.cancelAllTimers actor).state = s.state ∧
      ∀ other id, (s.cancelAllTimers actor).polls other id = if other = actor then false else s.polls other id := by
  obtain ⟨hSound, hNext, hState, hPolls⟩ := foldl_cancel (s.timerIds actor) s tracked.sound
  have hPolls' : ∀ other id, (s.cancelAllTimers actor).polls other id =
      if other = actor then false else s.polls other id := by
    intro other id
    refine (hPolls other id).trans ?_
    by_cases hOther : other = actor
    · subst hOther
      rw [if_pos rfl]
      split
      · rfl
      · rename_i hUnknown
        cases hPoll : s.polls other id with
        | false => rfl
        | true => exact absurd (tracked.known other id hPoll) hUnknown
    · rw [if_neg hOther]
      split
      · rename_i hOwn
        cases hPoll : s.polls other id with
        | false => rfl
        | true => exact absurd (tracked.own actor id hOwn other hPoll) hOther
      · rfl
  have hIds : ∀ other, (s.cancelAllTimers actor).timerIds other = if other = actor then [] else s.timerIds other := by
    intro other
    exact Function.update_apply s.timerIds actor [] other
  refine ⟨⟨hSound, fun other id hId => ?_, fun other id hPoll => ?_, fun other id hId third hPoll => ?_⟩, hState, hPolls'⟩
  · show id < ((s.timerIds actor).foldl cancel s).base.nextId
    rw [hNext]
    rw [hIds] at hId
    split at hId
    · cases hId
    · exact tracked.issued other id hId
  · rw [hPolls'] at hPoll
    rw [hIds]
    split at hPoll
    · cases hPoll
    · rename_i hOther
      rw [if_neg hOther]
      exact tracked.known other id hPoll
  · rw [hPolls'] at hPoll
    rw [hIds] at hId
    split at hPoll
    · cases hPoll
    · split at hId
      · cases hId
      · exact tracked.own other id hId third hPoll

theorem state_setState (s : Polling) (actor : PollingActor) (state : ActorState) :
    (s.setState actor state).state actor = state := Function.update_self ..

/-- Nothing that matters to the timers has changed. -/
theorem Kept.same {s' : Polling} (kept : s.Kept) (tracked : s'.Tracked) (hState : s'.state = s.state)
    (hPolls : ∀ actor id, s'.polls actor id = s.polls actor id) : s'.Kept where
  toTracked := tracked
  states actor := hState ▸ kept.states actor
  opened actor h := by
    obtain ⟨id, hId, hOnly⟩ := kept.opened actor (hState ▸ h)
    refine ⟨id, (hPolls actor id).trans hId, fun other hOther => ?_⟩
    exact hOnly other ((hPolls actor other).symm.trans hOther)
  closed actor h id := (hPolls actor id).trans (kept.closed actor (hState ▸ h) id)

/-- An actor comes to a state, and the others stay where they are. -/
theorem Kept.setState {s' : Polling} (kept : s.Kept) (tracked : s'.Tracked) (hState : s'.state = s.state)
    (hOthers : ∀ other ≠ actor, ∀ id, s'.polls other id = s.polls other id) {state : ActorState}
    (hActor : (state = .opened ∧ ∃! id, s'.polls actor id = true) ∨
      (state = .closed ∧ ∀ id, s'.polls actor id = false)) : (s'.setState actor state).Kept := by
  have hSame : ∀ other ≠ actor, (s'.setState actor state).state other = s.state other := by
    intro other hOther
    exact (Function.update_of_ne hOther _ _).trans (congrFun hState other)
  have hHere := state_setState s' actor state
  refine ⟨⟨tracked.sound, tracked.issued, tracked.known, tracked.own⟩, fun other => ?_, fun other h => ?_,
    fun other h => ?_⟩
  · by_cases hOther : other = actor
    · subst hOther
      rw [hHere]
      exact hActor.imp And.left And.left
    · rw [hSame other hOther]
      exact kept.states other
  · by_cases hOther : other = actor
    · subst hOther
      rw [hHere] at h
      rcases hActor with ⟨_, hOne⟩ | ⟨hClosed, _⟩
      · exact hOne
      · cases h.symm.trans hClosed
    · rw [hSame other hOther] at h
      obtain ⟨id, hId, hOnly⟩ := kept.opened other h
      refine ⟨id, (hOthers other hOther id).trans hId, fun id' hId' => ?_⟩
      exact hOnly id' ((hOthers other hOther id').symm.trans hId')
  · by_cases hOther : other = actor
    · subst hOther
      rw [hHere] at h
      rcases hActor with ⟨hOpened, _⟩ | ⟨_, hNone⟩
      · cases h.symm.trans hOpened
      · exact hNone
    · rw [hSame other hOther] at h
      exact fun id => (hOthers other hOther id).trans (kept.closed other h id)

theorem Kept.opens (kept : s.Kept) (config : PollingConfig) (hClosed : s.state actor = .closed) (now : Nat) :
    (s.opens config actor now).Kept ∧ (s.opens config actor now).state actor = .opened := by
  obtain ⟨hTracked, hPolls⟩ := kept.toTracked.startTimer actor (config.intervalMs actor) now
  have hOpens : s.opens config actor now =
      (s.startTimer actor (config.intervalMs actor) now).setState actor .opened := by
    unfold Polling.opens
    rw [if_neg (not_not.mpr hClosed)]
  rw [hOpens]
  refine ⟨kept.setState hTracked rfl (fun other hOther id => ?_) (.inl ⟨rfl, s.base.nextId, ?_, fun id hId => ?_⟩),
    state_setState ..⟩
  · rw [hPolls]
    split
    · rename_i hNew
      cases hPoll : s.polls other id with
      | false => exact decide_eq_false (Ne.symm hOther)
      | true => exact absurd (lt_of_polls kept.sound hPoll) (by omega)
    · rfl
  · show (s.startTimer actor (config.intervalMs actor) now).polls actor s.base.nextId = true
    rw [hPolls, if_pos rfl]
    exact decide_eq_true rfl
  · dsimp only at hId
    rw [hPolls] at hId
    split at hId
    · assumption
    · rw [kept.closed actor hClosed] at hId
      cases hId

/-- The tick actor takes its timer with it. -/
theorem Kept.closeTick (kept : s.Kept) : (s.close .tick).Kept ∧ (s.close .tick).state .tick = .closed := by
  unfold Polling.close
  split
  · rename_i hClosed
    exact ⟨kept, hClosed⟩
  · obtain ⟨hTracked, hState, hPolls⟩ := kept.toTracked.cancelAllTimers .tick
    show ((s.cancelAllTimers .tick).setState .tick .closed).Kept ∧
      ((s.cancelAllTimers .tick).setState .tick .closed).state .tick = .closed
    refine ⟨kept.setState hTracked hState (fun other hOther id => ?_) (.inr ⟨rfl, fun id => ?_⟩),
      state_setState ..⟩
    · rw [hPolls, if_neg hOther]
    · rw [hPolls, if_pos rfl]

/-- An actor that was closed already, or that cancels its timers. -/
theorem Kept.close (kept : s.Kept) (hKeeps : actor = .tick ∨ s.state actor ≠ .opened) :
    (s.close actor).Kept ∧ (s.close actor).state actor = .closed := by
  rcases hKeeps with rfl | hNot
  · exact kept.closeTick
  · have hClosed : s.state actor = .closed := (kept.states actor).resolve_left hNot
    have hSame : s.close actor = s := if_pos hClosed
    rw [hSame]
    exact ⟨kept, hClosed⟩

theorem Kept.reopens (kept : s.Kept) (config : PollingConfig) (hKeeps : actor = .tick ∨ s.state actor ≠ .opened)
    (now : Nat) : (s.opens config actor now).Kept := by
  by_cases hClosed : s.state actor = .closed
  · exact (kept.opens config hClosed now).1
  · obtain ⟨hKept, hAfter⟩ := kept.close hKeeps
    have hSame : s.opens config actor now = (s.close actor).opens config actor now := by
      unfold Polling.opens
      rw [if_pos hClosed, if_neg (not_not.mpr hAfter)]
    rw [hSame]
    exact (hKept.opens config hAfter now).1

theorem Kept.performRestart (kept : s.Kept) (config : PollingConfig)
    (hKeeps : actor = .tick ∨ s.state actor ≠ .opened) (now : Nat) : (s.performRestart config actor now).Kept := by
  obtain ⟨hKept, hClosed⟩ := kept.close hKeeps
  have hSame : s.performRestart config actor now = (s.close actor).opens config actor now := if_pos hClosed
  rw [hSame]
  exact (hKept.opens config hClosed now).1

/-- A pass keeps the repeating timers. -/
theorem Kept.pass (kept : s.Kept) {base : TimerBase} {ready : List Nat} (hSound : base.Sound ready)
    (hNext : base.nextId = s.base.nextId)
    (hRepeating : ∀ id, (base.find id).any (·.repeating) = (s.base.find id).any (·.repeating)) :
    ({ s with base := base, ready := ready } : Polling).Kept := by
  have hPolls : ∀ actor id, ({ s with base := base, ready := ready } : Polling).polls actor id = s.polls actor id := by
    intro actor id
    unfold polls
    dsimp only
    rw [hRepeating]
  refine kept.same ⟨hSound, fun actor id hId => ?_, fun actor id hPoll => ?_, fun actor id hId other hPoll => ?_⟩
    rfl hPolls
  · exact hNext ▸ kept.issued actor id hId
  · exact kept.known actor id ((hPolls actor id).symm.trans hPoll)
  · exact kept.own actor id hId other ((hPolls other id).symm.trans hPoll)

theorem any_renewed (timer : Option TimerNode) :
    (timer.bind TimerNode.renewed).any (·.repeating) = timer.any (·.repeating) := by
  cases timer with
  | none => rfl
  | some node =>
      cases hRepeating : node.repeating with
      | false => simp [TimerNode.renewed, hRepeating]
      | true => simp [TimerNode.renewed, hRepeating]

theorem Kept.cancel (kept : s.Kept) {cancelled : Nat} (hOther : ∀ actor, s.polls actor cancelled = false) :
    (s.cancel cancelled).Kept := by
  obtain ⟨hSound, _⟩ := kept.sound.cancel cancelled
  have hPolls : ∀ actor id, (s.cancel cancelled).polls actor id = s.polls actor id := by
    intro actor id
    rw [polls_cancel kept.sound]
    split
    · rename_i hSame
      rw [hSame, hOther]
    · rfl
  refine kept.same ⟨hSound, fun actor id hId => ?_, fun actor id hPoll => ?_, fun actor id hId other hPoll => ?_⟩
    rfl hPolls
  · show id < (s.base.cancel cancelled).nextId
    rw [TimerBase.cancel_nextId]
    exact kept.issued actor id hId
  · exact kept.known actor id ((hPolls actor id).symm.trans hPoll)
  · exact kept.own actor id hId other ((hPolls other id).symm.trans hPoll)

theorem Kept.step (kept : s.Kept) {config : PollingConfig} {op : PollingOp} {s' : Polling}
    (hKeeps : s.keepsTimers config op) (hStep : step config op s = some s') : s'.Kept := by
  cases op with
  | opens actor now =>
      cases hStep
      exact kept.reopens config hKeeps now
  | closes actor =>
      cases hStep
      exact (kept.close hKeeps).1
  | enableRequest actor now =>
      cases hStep
      split
      · rename_i hClosed
        exact (kept.opens config hClosed now).1
      · exact kept
  | disableRequest actor =>
      cases hStep
      split
      · rename_i hDisable
        apply (kept.close _).1
        rcases hKeeps with hTick | hState | hEssential
        · exact .inl hTick
        · exact .inr hState
        · cases hDisable.2.symm.trans hEssential
      · exact kept
  | restartRequest actor now =>
      cases hStep
      split
      · exact kept.performRestart config hKeeps now
      · exact kept
  | tryRestart actor now =>
      cases hStep
      exact kept.performRestart config hKeeps now
  | addTimer target delayMs repeating now =>
      obtain ⟨hOther, hAfter⟩ := Option.ite_none_right_eq_some.mp hStep
      cases hAfter
      obtain ⟨hTracked, hPolls⟩ := kept.toTracked.addTimer hOther delayMs now
      exact kept.same hTracked rfl hPolls
  | cancelTimer id =>
      obtain ⟨hOther, hAfter⟩ := Option.ite_none_left_eq_some.mp hStep
      cases hAfter
      apply kept.cancel
      intro actor
      rw [not_or, not_or] at hOther
      cases actor with
      | tick => exact eq_false_of_ne_true hOther.1
      | systemManager => exact eq_false_of_ne_true hOther.2.1
      | deviceManager => exact eq_false_of_ne_true hOther.2.2
  | collect now =>
      obtain ⟨hReady, hAfter⟩ := Option.ite_none_right_eq_some.mp hStep
      cases hAfter
      have sound : s.base.Sound [] := hReady ▸ kept.sound
      obtain ⟨hSound, hFind, hNext, _⟩ := sound.collected now
      exact kept.pass hSound hNext fun id => by rw [hFind]
  | reschedule =>
      cases hStep
      obtain ⟨hSound, hNext, hFind⟩ := TimerBase.reschedule_spec s.ready s.base kept.sound
      apply kept.pass hSound hNext
      intro id
      rw [hFind]
      split
      · exact any_renewed _
      · rfl

theorem kept_constructed : constructed.Kept where
  sound := TimerBase.constructed_sound
  issued := fun _ _ hId => absurd hId List.not_mem_nil
  known := nofun
  own := fun _ _ hId => absurd hId List.not_mem_nil
  states := fun _ => .inr rfl
  opened := nofun
  closed := fun _ _ _ => rfl

/-- A pass meets each repeating timer once at most. -/
theorem Kept.pass_le_one (kept : s.Kept) (hReady : s.ready = []) (now : Nat) :
    ((s.base.collectExpired now).1.filter (s.polls actor)).length ≤ 1 := by
  have sound : s.base.Sound [] := hReady ▸ kept.sound
  have hOnce := (sound.collected now).1.apart
  rcases kept.states actor with hOpened | hClosed
  · obtain ⟨id, _, hOnly⟩ := kept.opened actor hOpened
    have hSubset : (s.base.collectExpired now).1.filter (s.polls actor) ⊆ [id] := by
      intro other hOther
      exact List.mem_singleton.mpr (hOnly other (List.mem_filter.mp hOther).2)
    exact (List.subperm_of_subset (hOnce.filter _) hSubset).length_le
  · have hNone : (s.base.collectExpired now).1.filter (s.polls actor) = [] := by
      apply List.filter_eq_nil_iff.mpr
      intro id _
      rw [kept.closed actor hClosed id]
      exact nofun
    rw [hNone]
    exact Nat.zero_le 1

/-- However often the tick actor is opened, closed, disabled and restarted, and the two managers are
opened and asked to open again: an actor has one repeating timer while it is open and none while it
is closed. -/
theorem polled_once (config : PollingConfig) (reach : Calls (step config) (· = constructed) (keepsTimers config) s)
    (actor : PollingActor) : s.PolledOnce actor := by
  have kept : s.Kept := by
    apply reach.invariant (I := Kept)
    · rintro s rfl
      exact kept_constructed
    · intro s op s' _ kept hKeeps hStep
      exact kept.step hKeeps hStep
  exact ⟨kept.opened actor, kept.closed actor, kept.pass_le_one⟩

end Timers

/-- The managers are essential, and the tick actor is not. -/
def defaults : PollingConfig := ⟨fun _ => 500, fun actor => actor ≠ .tick⟩

/-- The tick actor fails, is disabled and is enabled again; a manager is not disabled. -/
def afterRestarts : Polling :=
  (Calls.replay (step defaults) (keepsTimers defaults) constructed
    [.opens .systemManager 0, .opens .deviceManager 0, .opens .tick 0, .tryRestart .tick 100,
      .addTimer none 30 true 150, .collect 500000000, .disableRequest .tick, .reschedule,
      .disableRequest .deviceManager, .cancelTimer 5, .enableRequest .tick 600]).get (by decide +kernel)

theorem polled_once_afterRestarts : afterRestarts.PolledOnce .tick :=
  polled_once defaults (Calls.of_replay (.start rfl) (Option.some_get _).symm) .tick

/-- Both managers throw once and are restarted. -/
def afterFailures : Polling :=
  (Calls.replay (step defaults) anyCall constructed
    [.opens .systemManager 0, .opens .deviceManager 0, .tryRestart .systemManager 100,
      .tryRestart .deviceManager 200]).get (by decide +kernel)

/-- Each restart leaves one more timer. -/
theorem not_polled_once : Calls (step defaults) (· = constructed) anyCall afterFailures ∧
    ¬ afterFailures.PolledOnce .systemManager ∧ ¬ afterFailures.PolledOnce .deviceManager := by
  refine ⟨Calls.of_replay (.start rfl) (Option.some_get _).symm, fun hOnce => ?_, fun hOnce => ?_⟩
  · have hTwo : afterFailures.state .systemManager = .opened ∧ afterFailures.polls .systemManager 1 = true ∧
        afterFailures.polls .systemManager 3 = true := by decide +kernel
    exact absurd ((hOnce.opened hTwo.1).unique hTwo.2.1 hTwo.2.2) (by decide)
  · have hTwo : afterFailures.state .deviceManager = .opened ∧ afterFailures.polls .deviceManager 2 = true ∧
        afterFailures.polls .deviceManager 4 = true := by decide +kernel
    exact absurd ((hOnce.opened hTwo.1).unique hTwo.2.1 hTwo.2.2) (by decide)

end Polling

end Service
