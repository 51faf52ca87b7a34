import V2Engine.Interleaving.Program
import V2Engine.Timer.TimerBase
import Mathlib.Data.List.AList

/-! `Scheduler`: messages sent by timers. Callers of `addTimer` and `cancel` take `mutex_` for
the whole call; the timer's own mutex they, and the expiry passes, hold for a moment only.
Messages are copyable, so that `clone` does not throw. -/
namespace Timer

open Interleaving

variable {τ ρ α : Type*}

structure TimerCtx (ρ α : Type*) where
  target : ρ
  msg : α

/-- The arguments of `addTimer`. -/
structure Request (ρ α : Type*) where
  ctx : TimerCtx ρ α
  delayMs : Nat
  repeating : Bool

/-- A timer that was added: when it is due first, and how many passes came before it. -/
structure Added (ρ α : Type*) where
  id : Nat
  ctx : TimerCtx ρ α
  expiry : Nat
  repeating : Bool
  since : Nat

/-- A message that was enqueued, for a timer and in a pass. -/
structure Sent (ρ α : Type*) where
  id : Nat
  ctx : TimerCtx ρ α
  pass : Nat

/-- `holder` has `mutex_`, and `storing` is the id it got from `timer_->add` and has not put in
`timerCtxs_`. The rest is a record: pass `k` read the clock at `clock k` and found the timers
`collected k` ready; of the timers that were `added`, a `cancel` began for `cancels` and has
returned for `cancelled`. -/
structure Scheduler (τ ρ α : Type*) where
  timer : TimerBase
  timerCtxs : AList fun _ : Nat => TimerCtx ρ α
  holder : Option τ
  storing : Option Nat
  passes : Nat
  clock : Nat → Nat
  collected : Nat → List Nat
  added : List (Added ρ α)
  cancels : List Nat
  cancelled : List Nat
  sent : List (Sent ρ α)

namespace Scheduler

def start : Scheduler τ ρ α where
  timer := .constructed
  timerCtxs := ∅
  holder := none
  storing := none
  passes := 0
  clock := fun _ => 0
  collected := fun _ => []
  added := []
  cancels := []
  cancelled := []
  sent := []

variable (s : Scheduler τ ρ α)

/-- `timerCallback`, with `mutex_`. -/
def timerCallback (id : Nat) : Scheduler τ ρ α :=
  match s.timerCtxs.lookup id with
  | none => s
  | some ctx => { s with sent := ⟨id, ctx, s.passes - 1⟩ :: s.sent }

/-- What `cleanupTimerCtxs` does with one of the entries. -/
def cleanup (id : Nat) : Scheduler τ ρ α :=
  if s.timer.isAlive id then s else { s with timerCtxs := s.timerCtxs.erase id }

/-- `timer_->add` in `addTimer`. -/
def register (request : Request ρ α) (now : Nat) : Scheduler τ ρ α :=
  let add := s.timer.add now request.delayMs request.repeating
  { s with
    timer := add.2.2
    storing := some add.1
    added :=
      ⟨add.1, request.ctx, now + TimerBase.nsOfMs request.delayMs, request.repeating, s.passes⟩
        :: s.added }

/-- The end of `addTimer`. -/
def store (id : Nat) (ctx : TimerCtx ρ α) : Scheduler τ ρ α :=
  { s with timerCtxs := s.timerCtxs.insert id ctx, storing := none, holder := none }

/-- `timer_->cancel` in `cancel`. -/
def cancelTimer (caller : τ) (id : Nat) : Scheduler τ ρ α :=
  { s with
    timer := s.timer.cancel id
    holder := some caller
    cancels := if id < s.timer.nextId then id :: s.cancels else s.cancels }

/-- The end of `cancel`. -/
def eraseCtx (id : Nat) : Scheduler τ ρ α :=
  { s with
    timerCtxs := s.timerCtxs.erase id
    holder := none
    cancelled := if id ∈ s.cancels then id :: s.cancelled else s.cancelled }

/-- The first half of `executeExpiredTimers`. -/
def collect (now : Nat) : Scheduler τ ρ α :=
  { s with
    timer := (s.timer.collectExpired now).2
    passes := s.passes + 1
    clock := Function.update s.clock s.passes now
    collected := Function.update s.collected s.passes (s.timer.collectExpired now).1 }

end Scheduler

/-- Where the thread with the expiry passes stands. -/
inductive PassPc where
  | idle
  | expired (now : Nat)
  | calling (todo ready : List Nat)
  deriving DecidableEq

/-- The clock shows `now` at the beginning of a pass. -/
inductive PassChoice where
  | wake (now : Nat)
  | go

def passStep (s : Scheduler τ ρ α) : PassPc → PassChoice → Option (Scheduler τ ρ α × PassPc)
  | .idle, .wake now => some (s, .expired now)
  | .expired now, .go =>
      some (s.collect now, .calling (s.timer.collectExpired now).1 (s.timer.collectExpired now).1)
  | .calling (id :: todo) ready, .go =>
      if s.holder.isNone then some (s.timerCallback id, .calling todo ready) else none
  | .calling [] ready, .go => some ({ s with timer := s.timer.reschedule ready }, .idle)
  | _, _ => none

/-- Where a caller stands in `addTimer` or `cancel`. -/
inductive CallerPc (ρ α : Type*) where
  | idle
  | cleaning (entries : List Nat) (request : Request ρ α)
  | registering (request : Request ρ α) (now : Nat)
  | storing (id : Nat) (ctx : TimerCtx ρ α)
  | erasing (id : Nat)

inductive CallerChoice (ρ α : Type*) where
  | addTimer (request : Request ρ α)
  | clock (now : Nat)
  | cancel (id : Nat)
  | go

def callerStep (caller : τ) (s : Scheduler τ ρ α) :
    CallerPc ρ α → CallerChoice ρ α → Option (Scheduler τ ρ α × CallerPc ρ α)
  | .idle, .addTimer request =>
      if s.holder.isNone then
        some ({ s with holder := some caller }, .cleaning s.timerCtxs.keys request)
      else none
  | .cleaning (id :: entries) request, .go => some (s.cleanup id, .cleaning entries request)
  | .cleaning [] request, .clock now => some (s, .registering request now)
  | .registering request now, .go =>
      some (s.register request now, .storing s.timer.nextId request.ctx)
  | .storing id ctx, .go => some (s.store id ctx, .idle)
  | .idle, .cancel id =>
      if s.holder.isNone then some (s.cancelTimer caller id, .erasing id) else none
  | .erasing id, .go => some (s.eraseCtx id, .idle)
  | _, _ => none

/-- The thread with the expiry passes, and any callers. -/
def schedulerProgram : Program (Unit ⊕ τ) (Scheduler τ ρ α) (PassPc ⊕ CallerPc ρ α)
    (PassChoice ⊕ CallerChoice ρ α) :=
  Program.either (fun _ => passStep) callerStep

def schedulerStart : Config (Unit ⊕ τ) (Scheduler τ ρ α) (PassPc ⊕ CallerPc ρ α) :=
  Config.either .start .idle .idle

/-- The timers of the pass in progress whose callbacks are yet to come. -/
def PassPc.todo : PassPc → List Nat
  | .calling todo _ => todo
  | _ => []

/-- What the pass in progress has found ready. -/
def PassPc.ready : PassPc → List Nat
  | .calling _ ready => ready
  | _ => []

namespace Scheduler

variable (s : Scheduler τ ρ α)

/-- How many messages were enqueued for a timer in a pass. -/
def copies (id pass : Nat) : Nat := s.sent.countP fun x => x.id = id ∧ x.pass = pass

/-- Pass `k` has found the timer ready. -/
def Collected (id k : Nat) : Prop := k < s.passes ∧ id ∈ s.collected k

/-- Pass `k` has found the timer ready, and its callback was made. -/
def Called (todo : List Nat) (id k : Nat) : Prop :=
  s.Collected id k ∧ ¬(s.passes = k + 1 ∧ id ∈ todo)

instance (todo : List Nat) (id k : Nat) : Decidable (s.Called todo id k) :=
  inferInstanceAs (Decidable ((_ ∧ _) ∧ ¬_))

/-- What timed delivery promises, when the callbacks of `todo` are yet to come. -/
structure Timely (todo : List Nat) : Prop where
  /-- Each message is a timer's own, for its target, in a pass that came when it was due. -/
  own : ∀ x ∈ s.sent, ∃ a ∈ s.added, x.id = a.id ∧ x.ctx = a.ctx ∧ x.pass < s.passes ∧
    a.expiry ≤ s.clock x.pass
  /-- A timer that is not cancelled has one copy from each pass that collected it. -/
  each : ∀ a ∈ s.added, a.id ∉ s.cancels → ∀ k,
    s.copies a.id k = if s.Called todo a.id k then 1 else 0
  /-- A one-shot timer has one message at most, -/
  most : ∀ a ∈ s.added, a.repeating = false → a.id ∉ s.cancels →
    (s.sent.countP fun x => x.id = a.id) ≤ 1
  /-- and it has it as soon as a pass that came when it was due has made its callback. -/
  least : ∀ a ∈ s.added, a.repeating = false → a.id ∉ s.cancels → a.id ∉ todo →
    ∀ k < s.passes, a.since ≤ k → a.expiry ≤ s.clock k →
      (s.sent.countP fun x => x.id = a.id) = 1
  /-- A timer with a delivery to come has its context, once `addTimer` has stored it. -/
  kept : ∀ a ∈ s.added, a.id ∉ s.cancels → s.storing ≠ some a.id →
    s.timer.isAlive a.id ∨ a.id ∈ todo → s.timerCtxs.lookup a.id = some a.ctx

end Scheduler

end Timer
