import V2Engine.Interleaving.Program
import Mathlib.Tactic.SplitIfs

/-! `EventLoopEpoll` and the descriptors of the process. One thread runs the loop; other
threads subscribe and unsubscribe descriptors through the queue of pending operations,
which only the loop takes from. A step is one access to the handlers (under their lock),
to the queue, or to the kernel. Handlers run in the loop's thread: what they call is one
of the loop's own calls here. -/
namespace EventLoopEpoll

open Interleaving

def kPendingOpsCapacity : Nat := 128

/-- An operation in the queue. The lambdas of `subscribe` and `unsubscribe` know the
number of the descriptor only. -/
inductive Op (φ : Type*) where
  | add (fd : φ)
  | remove (fd : φ)
  | other
  deriving DecidableEq

/-- Whether `run` has set `threadId_`, and whether it has returned. -/
inductive Phase where
  | before
  | inside
  | returned
  deriving DecidableEq

inductive Thread (τ : Type*) where
  | loop
  | other (t : τ)
  deriving DecidableEq

/-- Where a thread stands: in `post`, before `EPOLL_CTL_ADD`, after that has failed, in an
`unsubscribe` taken from the queue, or before `EPOLL_CTL_DEL`. -/
inductive Place (φ : Type*) where
  | idle
  | posting (op : Op φ)
  | adding (fd : φ)
  | failing (fd : φ)
  | erasing (fd : φ)
  | deleting (fd : φ)
  deriving DecidableEq

/-- The members of `EventLoopEpoll`, the kernel's epoll set and open descriptors, and for
each descriptor the handler of its last `subscribe`, unless it was unsubscribed since or
`EPOLL_CTL_ADD` has failed. -/
structure State (φ η : Type*) where
  running : Bool
  phase : Phase
  handlers : φ → Option η
  pendingOps : List (Op φ)
  epoll : φ → Bool
  opened : φ → Bool
  subscribed : φ → Option η

/-- What a thread calls next, or how the call it is in goes on. -/
inductive Choice (φ η : Type*) where
  | go
  | fail
  | subscribe (fd : φ) (handler : η)
  | unsubscribe (fd : φ)
  | post
  | drain
  | start
  | run
  | stop
  | leave
  | waitFails
  | openFd (fd : φ)
  | closeFd (fd : φ)

variable {φ η τ : Type*} [DecidableEq φ]

def State.constructed : State φ η where
  running := false
  phase := .before
  handlers := fun _ => none
  pendingOps := []
  epoll := fun _ => false
  opened := fun _ => false
  subscribed := fun _ => none

/-- `subscribe` up to the end of its lock. -/
def State.subscribe (s : State φ η) (onLoop : Bool) (fd : φ) (handler : η) :
    State φ η × Place φ :=
  if (s.handlers fd).isSome then (s, .idle)
  else
    ({ s with
        handlers := Function.update s.handlers fd (some handler)
        subscribed := Function.update s.subscribed fd (some handler) },
      if onLoop then .adding fd else .posting (.add fd))

/-- `unsubscribe` up to the end of its lock. -/
def State.unsubscribe (s : State φ η) (onLoop : Bool) (fd : φ) : State φ η × Place φ :=
  ({ s with
      handlers := Function.update s.handlers fd none
      subscribed := Function.update s.subscribed fd none },
    if onLoop then .deleting fd else .posting (.remove fd))

/-- A call goes on. `post` tries again while the queue is full; the kernel refuses what is
not open or is in the set already, and may refuse for reasons of its own. -/
def callStep (s : State φ η) : Place φ → Choice φ η → Option (State φ η × Place φ)
  | .posting op, .go =>
      if s.pendingOps.length < kPendingOpsCapacity then
        some ({ s with pendingOps := s.pendingOps ++ [op] }, .idle)
      else none
  | .adding fd, .go =>
      if s.opened fd ∧ s.epoll fd = false then
        some ({ s with epoll := Function.update s.epoll fd true }, .idle)
      else some (s, .failing fd)
  | .adding fd, .fail => some (s, .failing fd)
  | .failing fd, .go =>
      some ({ s with
        handlers := Function.update s.handlers fd none
        subscribed := Function.update s.subscribed fd none }, .idle)
  | .erasing fd, .go =>
      some ({ s with handlers := Function.update s.handlers fd none }, .deleting fd)
  | .deleting fd, .go => some ({ s with epoll := Function.update s.epoll fd false }, .idle)
  | _, _ => none

/-- What an operation does once it is out of the queue. -/
def Op.place : Op φ → Place φ
  | .add fd => .adding fd
  | .remove fd => .erasing fd
  | .other => .idle

/-- What the loop's thread does between the calls it makes. -/
def runStep (s : State φ η) : Choice φ η → Option (State φ η × Place φ)
  | .run => if s.phase = .before then some ({ s with phase := .inside }, .idle) else none
  | .drain =>
      if s.phase = .inside then
        match s.pendingOps with
        | [] => none
        | op :: rest => some ({ s with pendingOps := rest }, op.place)
      else none
  | .leave =>
      if s.phase = .inside ∧ s.running = false then some ({ s with phase := .returned }, .idle)
      else none
  | .waitFails => if s.phase = .inside then some ({ s with phase := .returned }, .idle) else none
  | _ => none

/-- What any thread may call. The descriptors are opened and closed by their users. -/
def beginStep (s : State φ η) (onLoop : Bool) : Choice φ η → Option (State φ η × Place φ)
  | .subscribe fd handler => some (s.subscribe onLoop fd handler)
  | .unsubscribe fd => some (s.unsubscribe onLoop fd)
  | .post => if onLoop then none else some (s, .posting .other)
  | .start => some ({ s with running := true }, .idle)
  | .stop => some ({ s with running := false }, .idle)
  | .openFd fd =>
      if s.opened fd then none
      else some ({ s with opened := Function.update s.opened fd true }, .idle)
  | .closeFd fd =>
      if s.opened fd then
        some ({ s with
          opened := Function.update s.opened fd false
          epoll := Function.update s.epoll fd false }, .idle)
      else none
  | _ => none

/-- `isLoopThread`. -/
def Thread.isLoop : Thread τ → Bool
  | .loop => true
  | .other _ => false

/-- A step of a thread that is in no call. The loop's thread is not known as such before
`run`. -/
def idleStep (s : State φ η) (onLoop : Bool) (choice : Choice φ η) :
    Option (State φ η × Place φ) :=
  if onLoop then
    (runStep s choice).or (if s.phase = .before then none else beginStep s true choice)
  else beginStep s false choice

/-- One step of one thread. -/
def step : Program (Thread τ) (State φ η) (Place φ) (Choice φ η)
  | thread, s, .idle, choice => idleStep s thread.isLoop choice
  | _, s, place, choice => callStep s place choice

/-- Whose code a step belongs to. -/
theorem step_cases {thread : Thread τ} {s s' : State φ η} {place place' : Place φ}
    {choice : Choice φ η} (h : step thread s place choice = some (s', place')) :
    (place = .idle ∧ thread = .loop ∧ runStep s choice = some (s', place')) ∨
    (place = .idle ∧ (thread = .loop → s.phase ≠ .before) ∧
      beginStep s thread.isLoop choice = some (s', place')) ∨
    (place ≠ .idle ∧ callStep s place choice = some (s', place')) := by
  cases place with
  | idle =>
      cases thread with
      | loop =>
          rcases Option.or_eq_some_iff.mp h with hRun | ⟨_, hBegin⟩
          · exact .inl ⟨rfl, rfl, hRun⟩
          · split_ifs at hBegin with hPhase
            exact .inr (.inl ⟨rfl, fun _ => hPhase, hBegin⟩)
      | other t => exact .inr (.inl ⟨rfl, nofun, h⟩)
  | posting | adding | failing | erasing | deleting => exact .inr (.inr ⟨nofun, h⟩)

def initial : Config (Thread τ) (State φ η) (Place φ) := ⟨.constructed, fun _ => .idle⟩

/-- The states that runs reach in which the schedule takes `allowed` steps only. -/
abbrev RunsTo [DecidableEq τ] (allowed : Config (Thread τ) (State φ η) (Place φ) → Thread τ →
    Choice φ η → Prop) (c : Config (Thread τ) (State φ η) (Place φ)) : Prop :=
  Reach step (· = initial) allowed c

end EventLoopEpoll
