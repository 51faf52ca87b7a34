import V2Engine.Runtime.ActorRuntime
import Mathlib.Logic.Relation

/-! What `performRestart` leaves behind, by the way in which `close` and `open` come to
their ends. -/

variable {ρ β ε : Type*}

/-- How a call of `close` or of `open` ends. `performRestart` does not look at the code that
is returned. -/
inductive Ending where
  | returns (code : Int) (state : ActorState)
  | throws (state : ActorState)
  deriving DecidableEq

namespace Ending

def state : Ending → ActorState
  | .returns _ state | .throws state => state

def isThrow : Ending → Bool
  | .returns _ _ => false
  | .throws _ => true

def choice : Ending → RunChoice ρ β
  | .returns _ state => .returns state
  | .throws state => .throws state

end Ending

/-- `performRestart` goes on: `close` or `open` sends a message or ends, or a message
arrives. Other actors' failures change the supervisor's counters at any time. -/
inductive Restarting [DecidableEq ρ] (cfg : ActorSystemConfig ρ β) (body : ε → β) (a : ρ)
    (closed opened : Ending) : ActorRuntime ε × RunPc ρ ε → ActorRuntime ε × RunPc ρ ε → Prop where
  | send {rt rt' : ActorRuntime ε} {sup sup' : Supervisor ρ} {pc pc' : RunPc ρ ε} {b : ρ}
      {request : β} {out : Option (ρ × β)}
      (h : runStep cfg body a rt sup pc (.send b request) = some (rt', sup', pc', out)) :
      Restarting cfg body a closed opened (rt, pc) (rt', pc')
  | close {rt rt' : ActorRuntime ε} {sup sup' : Supervisor ρ} {pc' : RunPc ρ ε}
      {frames : Frames ε} {out : Option (ρ × β)}
      (h : runStep cfg body a rt sup (.closing frames) closed.choice = some (rt', sup', pc', out)) :
      Restarting cfg body a closed opened (rt, .closing frames) (rt', pc')
  | open {rt rt' : ActorRuntime ε} {sup sup' : Supervisor ρ} {pc' : RunPc ρ ε}
      {frames : Frames ε} {out : Option (ρ × β)}
      (h : runStep cfg body a rt sup (.opening frames) opened.choice = some (rt', sup', pc', out)) :
      Restarting cfg body a closed opened (rt, .opening frames) (rt', pc')
  | arrive {rt rt' : ActorRuntime ε} {pc : RunPc ρ ε} {size : Nat} {msg : ε}
      (h : rt.push size msg = some rt') : Restarting cfg body a closed opened (rt, pc) (rt', pc)

/-- The actor's code is still in `close` or in `open`. -/
def RunPc.restarting : RunPc ρ ε → Bool
  | .closing _ | .opening _ => true
  | _ => false

/-- After a restart the actor runs, or it is shut down, or the supervisor is being told. -/
def Noticed (rt : ActorRuntime ε) (pc : RunPc ρ ε) : Prop :=
  rt.state = .opened ∨ (∃ frames, pc = .failed none frames) ∨ rt.stopped = true

/-- The restarts of which `performRestart` does not lose sight. -/
def NoticedWhen (supervised stopped : Bool) (closed opened : Ending) : Prop :=
  stopped = true ∨ closed.state = .opened ∨
    closed.state = .closed ∧ (opened.state = .opened ∨ opened.isThrow = true ∧ supervised = true)

section Restarts

variable [DecidableEq ρ] {cfg : ActorSystemConfig ρ β} {body : ε → β} {a : ρ}
  {closed opened : Ending} {rt rt' : ActorRuntime ε} {pc pc' : RunPc ρ ε} {frames : Frames ε}

/-- How far the restart has come, and in what state the actor is. -/
inductive Restarted (cfg : ActorSystemConfig ρ β) (a : ρ) (closed opened : Ending)
    (frames : Frames ε) (state : ActorState) : RunPc ρ ε → Prop where
  | closing : Restarted cfg a closed opened frames state (.closing frames)
  | unclosed (h : closed.state ≠ .closed) (hState : state = closed.state) :
      Restarted cfg a closed opened frames state (.returning frames)
  | opening (h : closed.state = .closed) :
      Restarted cfg a closed opened frames state (.opening frames)
  | failed (h : closed.state = .closed) (hThrow : opened.isThrow = true)
      (hSupervised : cfg.supervised a = true) :
      Restarted cfg a closed opened frames state (.failed none frames)
  | returned (h : closed.state = .closed)
      (hUntold : ¬ (opened.isThrow = true ∧ cfg.supervised a = true))
      (hState : state = opened.state) :
      Restarted cfg a closed opened frames state (.returning frames)

omit [DecidableEq ρ] in
theorem Restarted.close (frames : Frames ε) :
    Restarted cfg a closed opened frames closed.state
      (if closed.state = .closed then .opening frames else .returning frames) := by
  split
  · exact .opening ‹_›
  · exact .unclosed ‹_› rfl

theorem Restarting.restarted (step : Restarting cfg body a closed opened (rt, pc) (rt', pc'))
    (h : Restarted cfg a closed opened frames rt.state pc) :
    Restarted cfg a closed opened frames rt'.state pc' ∧ rt'.stopped = rt.stopped := by
  cases step with
  | arrive hPush =>
      obtain ⟨_, rfl⟩ := ActorRuntime.push_eq_some hPush
      exact ⟨h, rfl⟩
  | send hStep =>
      cases h with
      | closing =>
          cases hStep
          exact ⟨.closing, rfl⟩
      | opening hClosed =>
          cases hStep
          exact ⟨.opening hClosed, rfl⟩
      | _ => cases hStep
  | close hStep =>
      cases h
      cases closed <;> cases hStep <;> exact ⟨Restarted.close frames, rfl⟩
  | «open» hStep =>
      cases h with
      | opening hClosed =>
          cases opened with
          | returns code state =>
              cases hStep
              exact ⟨.returned hClosed nofun rfl, rfl⟩
          | throws state =>
              cases hStep
              refine ⟨?_, rfl⟩
              split
              · exact .failed hClosed rfl ‹_›
              · exact .returned hClosed (fun h => absurd h.2 ‹_›) rfl

theorem restarted_of_run (run : Relation.ReflTransGen (Restarting cfg body a closed opened)
      (rt, .closing frames) (rt', pc')) :
    Restarted cfg a closed opened frames rt'.state pc' ∧ rt'.stopped = rt.stopped := by
  generalize hAfter : (rt', pc') = after at run
  induction run generalizing rt' pc' with
  | refl =>
      cases hAfter
      exact ⟨.closing, rfl⟩
  | @tail middle _ _ last ih =>
      subst hAfter
      obtain ⟨hSoFar, hStopped⟩ := @ih middle.1 middle.2 rfl
      obtain ⟨hNow, hSame⟩ := last.restarted hSoFar
      exact ⟨hNow, hSame.trans hStopped⟩

/-- A restart goes unnoticed exactly if `close` leaves the actor neither closed nor opened, or
if `open` leaves it in another state than opened and the supervisor hears of no exception. -/
theorem noticed_iff (run : Relation.ReflTransGen (Restarting cfg body a closed opened)
      (rt, .closing frames) (rt', pc')) (hOver : pc'.restarting = false) :
    Noticed rt' pc' ↔ NoticedWhen (cfg.supervised a) rt.stopped closed opened := by
  obtain ⟨hEnd, hStopped⟩ := restarted_of_run run
  unfold Noticed NoticedWhen
  rw [hStopped]
  cases hEnd with
  | closing => cases hOver
  | opening => cases hOver
  | unclosed hClosed hState =>
      rw [hState]
      simp only [reduceCtorEq, exists_false, false_or, hClosed, false_and, or_false]
      exact or_comm
  | failed hClosed hThrow hSupervised =>
      simp [hClosed, hThrow, hSupervised]
  | returned hClosed hUntold hState =>
      rw [hState]
      simp only [reduceCtorEq, exists_false, false_or, hClosed, true_and, hUntold, or_false]
      exact or_comm

/-- An actor whose `open` may fail, in a system with a supervisor. -/
def socketServer : ActorSystemConfig Unit Bool where
  actorId _ := 0
  actorId_lt _ := by decide
  actorId_injective _ _ _ := rfl
  mailboxSize _ := 2
  maxBatch := 4
  messageId request := if request then .actorRestartRequest else .other
  restartRequest := true
  restartRequest_id := if_pos rfl
  registered := [()]
  supervised _ := true
  essential _ := false
  strategy _ := .oneForOne
  maxRestarts := 5
  startState _ := .opened

/-- `tryRestart`, called for a message whose handler has thrown. -/
def inTryRestart : Frames Bool := ⟨1, .batch⟩

def beforeRestart : ActorRuntime Bool := { ActorRuntime.constructed .opened with restartCount := 1 }

def afterClose : ActorRuntime Bool := { beforeRestart with state := .closed }

def oneFailure : Supervisor Unit := ⟨1, 0, 0, fun _ => 0⟩

theorem closesSocket (opened : Ending) :
    Restarting socketServer id () (.returns 0 .closed) opened (beforeRestart, .closing inTryRestart)
      (afterClose, .opening inTryRestart) := by
  have hStep : runStep socketServer id () beforeRestart oneFailure (.closing inTryRestart)
      (.returns .closed) = some (afterClose, oneFailure, .opening inTryRestart, none) := rfl
  exact .close hStep

theorem noticed_iff_throwingOpen :
    Noticed afterClose (.failed none inTryRestart : RunPc Unit Bool) ↔
      NoticedWhen true false (.returns 0 .closed) (.throws .closed) := by
  have hOpen : runStep socketServer id () afterClose oneFailure (.opening inTryRestart)
      (.throws .closed) = some (afterClose, oneFailure, .failed none inTryRestart, none) := rfl
  exact noticed_iff (Relation.ReflTransGen.single (closesSocket _) |>.tail (.open hOpen)) rfl

/-- `IpcServerActor::open` returns `Fail` when the socket cannot be listened on: the actor stays
closed, the restart is counted, and nobody is told. -/
theorem unnoticed_failedOpen :
    Relation.ReflTransGen (Restarting socketServer id () (.returns 0 .closed) (.returns (-1) .closed))
        (beforeRestart, .closing inTryRestart) (afterClose, .returning inTryRestart) ∧
      ¬ Noticed afterClose (.returning inTryRestart : RunPc Unit Bool) ∧
      runStep socketServer id () afterClose oneFailure (.returning inTryRestart) .go =
        some (afterClose, ⟨1, 1, 0, fun _ => 0⟩, .returning ⟨0, .batch⟩, none) := by
  have hOpen : runStep socketServer id () afterClose oneFailure (.opening inTryRestart)
      (.returns .closed) = some (afterClose, oneFailure, .returning inTryRestart, none) := rfl
  refine ⟨Relation.ReflTransGen.single (closesSocket _) |>.tail (.open hOpen), ?_, rfl⟩
  rintro (hOpened | ⟨_, hFailed⟩ | hStopped)
  · cases hOpened
  · cases hFailed
  · cases hStopped

end Restarts
