import V2Engine.Container.LockFreeMpscQueue
import V2Engine.EventLoop.EventLoopEpoll

/-! How the loop is woken. `post` and `stop` write to the eventfd `stopFd_`, which the
loop's epoll set watches level-triggered. The queue of pending operations is the lock-free
one, with each of its atomic accesses a step here as well. -/
namespace EventLoopEpoll.WakingUp

open TicketRing LockFreeQueue LockFreeMpscQueue Interleaving

variable {π ω : Type*}

/-- The largest value of an eventfd. A write that would take it further fails with `EAGAIN`. -/
def kEventFdMax : Nat := 2 ^ 64 - 2

/-- The queue of pending operations, `running_`, and the counter behind `stopFd_`. -/
structure Shared (π ω : Type*) where
  queue : TicketRing.State π Unit ω
  running : Bool
  stopFd : Nat

/-- After `start`. -/
def Shared.started : Shared π ω := ⟨.empty, true, 0⟩

/-- `::write(stopFd_, &one, sizeof(one))`, whose result is ignored. -/
def Shared.write (s : Shared π ω) : Shared π ω :=
  { s with stopFd := if s.stopFd < kEventFdMax then s.stopFd + 1 else s.stopFd }

/-- `::read(stopFd_, &val, sizeof(val))`, which takes the counter back to zero. -/
def Shared.read (s : Shared π ω) : Shared π ω := { s with stopFd := 0 }

/-- Where a thread other than the loop's stands: outside, in the `push` loop of `post`,
before the write of `post`, or before the write of `stop`. -/
inductive PosterPc (ω : Type*) where
  | idle
  | pushing (op : ω)
  | writing
  | stopping

structure Poster (ω : Type*) where
  producer : Producer ω
  pc : PosterPc ω

def Poster.start : Poster ω := ⟨.start, .idle⟩

/-- `again` is another round of the `while` loop, after a `push` that was refused. -/
inductive PosterChoice (ω : Type*) where
  | post (op : ω)
  | go
  | spurious
  | again
  | stop

/-- The loop is left when `push` has returned true. -/
def PosterPc.after (op : ω) : PushPc ω → PosterPc ω
  | .returned _ true => .writing
  | _ => .pushing op

/-- One access of `push` as a step of `post`. -/
def Poster.push (t : π) (s : Shared π ω) (producer : Producer ω) (op : ω)
    (choice : PushChoice ω) : Option (Shared π ω × Poster ω) :=
  (LockFreeQueue.push kPendingOpsCapacity t s.queue producer choice).map fun after =>
    ({ s with queue := after.1 }, ⟨after.2, .after op after.2.pc⟩)

/-- `post` and `stop`, called from a thread other than the loop's. -/
def post (t : π) (s : Shared π ω) (p : Poster ω) : PosterChoice ω → Option (Shared π ω × Poster ω)
  | .post op =>
      match p.pc with
      | .idle => Poster.push t s p.producer op (.call op)
      | _ => none
  | .again =>
      match p.pc with
      | .pushing op => Poster.push t s p.producer op (.call op)
      | _ => none
  | .spurious =>
      match p.pc with
      | .pushing op => Poster.push t s p.producer op .spurious
      | _ => none
  | .stop =>
      match p.pc with
      | .idle => some ({ s with running := false }, { p with pc := .stopping })
      | _ => none
  | .go =>
      match p.pc with
      | .pushing op => Poster.push t s p.producer op .go
      | .writing | .stopping => some (s.write, { p with pc := .idle })
      | .idle => none

/-- A ready descriptor: `stopFd_`, or one that was subscribed. -/
inductive Event where
  | stopFd
  | watched
  deriving DecidableEq

/-- Where the loop's thread stands: before it reads `running_`, in a `pop`, in an operation
taken from the queue, in `epoll_wait`, with a batch of ready descriptors, or, called from
an operation or a handler, in `stop` before its write. -/
inductive LoopPc where
  | head
  | draining
  | calling
  | waiting
  | events (batch : List Event)
  | stopping (back : Option (List Event))
  | returned
  deriving DecidableEq

structure Loop (ω : Type*) where
  consumer : Consumer ω
  pc : LoopPc

def Loop.start : Loop ω := ⟨.start, .head⟩

/-- `wake` is the return of `epoll_wait` with a batch, empty after the timeout. -/
inductive LoopChoice where
  | go
  | stop
  | wake (batch : List Event)
  | interrupted
  | waitFails

/-- `pop` has returned when its pc says so; it has filled `op` if it returned true. -/
def LoopPc.after (l : Consumer ω) : LoopPc :=
  match l.pc with
  | .returned => if l.out.isEmpty then .waiting else .calling
  | _ => .draining

/-- One access of `pop` as a step of `drainPendingOps`. -/
def Loop.pop (s : Shared π ω) (consumer : Consumer ω) (choice : PopChoice) :
    Option (Shared π ω × Loop ω) :=
  (LockFreeMpscQueue.pop kPendingOpsCapacity () s.queue consumer choice).map fun after =>
    ({ s with queue := after.1 }, ⟨after.2, .after after.2⟩)

/-- Where the loop goes on after a `stop` that an operation or a handler has called. -/
def LoopPc.resume : Option (List Event) → LoopPc
  | none => .calling
  | some batch => .events batch

/-- `run`. The kernel reports `stopFd_` only while its counter is not zero. -/
def run (_ : Unit) (s : Shared π ω) (l : Loop ω) : LoopChoice → Option (Shared π ω × Loop ω)
  | .go =>
      match l.pc with
      | .head =>
          if s.running then Loop.pop s l.consumer (.call 1) else some (s, { l with pc := .returned })
      | .draining => Loop.pop s l.consumer .go
      | .calling => Loop.pop s l.consumer (.call 1)
      | .events [] => some (s, { l with pc := .head })
      | .events (.stopFd :: rest) => some (s.read, { l with pc := .events rest })
      | .events (.watched :: rest) => some (s, { l with pc := .events rest })
      | .stopping back => some (s.write, { l with pc := .resume back })
      | .waiting | .returned => none
  | .stop =>
      match l.pc with
      | .calling => some ({ s with running := false }, { l with pc := .stopping none })
      | .events (.watched :: rest) =>
          some ({ s with running := false }, { l with pc := .stopping (some (.watched :: rest)) })
      | _ => none
  | .wake batch =>
      match l.pc with
      | .waiting =>
          if .stopFd ∈ batch → 0 < s.stopFd then some (s, { l with pc := .events batch }) else none
      | _ => none
  | .interrupted =>
      match l.pc with
      | .waiting => some (s, { l with pc := .head })
      | _ => none
  | .waitFails =>
      match l.pc with
      | .waiting => some (s, { l with pc := .returned })
      | _ => none

variable [DecidableEq π]

/-- One step of any thread. -/
def step : Program (π ⊕ Unit) (Shared π ω) (Poster ω ⊕ Loop ω) (PosterChoice ω ⊕ LoopChoice) :=
  Program.either post run

def initial : Config (π ⊕ Unit) (Shared π ω) (Poster ω ⊕ Loop ω) :=
  Config.either .started .start .start

/-- The states that the loop and the threads `π` come to. -/
def Reachable (c : Config (π ⊕ Unit) (Shared π ω) (Poster ω ⊕ Loop ω)) : Prop :=
  Reach step (· = initial) anyStep c

/-- What a posting thread knows. Outside the loop of `post` it is in no `push`. -/
def Posting (queue : TicketRing.State π Unit ω) (t : π) (p : Poster ω) : Prop :=
  (Producing kPendingOpsCapacity queue t p.producer ∧ Recorded queue t p.producer ∧
    Owning queue t p.producer) ∧ ((∃ op, p.pc = .pushing op) ∨ p.producer.Quiet)

/-- The consumer is between calls of `pop`. -/
def Resting (consumer : Consumer ω) : Prop := consumer.pc = .idle ∨ consumer.pc = .returned

/-- A single `pop` is the batch of one. -/
def Single (consumer : Consumer ω) : Prop :=
  match consumer.pc with
  | .idle | .returned => True
  | .loadHead | .loadSequence _ | .take _ => consumer.remaining = 1 ∧ consumer.out = []
  | .storeHead .. | .release .. => consumer.remaining = 1

/-- What the loop's thread knows. It is in a `pop` in `drainPendingOps` and nowhere else. -/
structure Looping (queue : TicketRing.State π Unit ω) (l : Loop ω) : Prop where
  consuming : Consuming kPendingOpsCapacity queue l.consumer
  collected : Collected queue l.consumer
  single : Single l.consumer
  draining_iff : l.pc = .draining ↔ ¬Resting l.consumer

@[simp] theorem resume_ne_draining (back : Option (List Event)) :
    LoopPc.resume back ≠ .draining := by
  cases back <;> nofun

@[simp] theorem draining_ne_resume (back : Option (List Event)) :
    LoopPc.draining ≠ .resume back :=
  (resume_ne_draining back).symm

/-- Everything a step of `post` or `stop` does. -/
inductive PostEffect (t : π) (s : Shared π ω) (p : Poster ω) : Shared π ω → Poster ω → Prop where
  | push (op : ω) {choice : PushChoice ω} {queue : TicketRing.State π Unit ω}
      {producer : Producer ω} (hPc : p.pc = .idle ∨ p.pc = .pushing op)
      (h : LockFreeQueue.push kPendingOpsCapacity t s.queue p.producer choice =
        some (queue, producer)) :
      PostEffect t s p { s with queue := queue } ⟨producer, .after op producer.pc⟩
  | stop (hPc : p.pc = .idle) :
      PostEffect t s p { s with running := false } { p with pc := .stopping }
  | write (hPc : p.pc = .writing ∨ p.pc = .stopping) :
      PostEffect t s p s.write { p with pc := .idle }

/-- Everything a step of the loop's thread does. -/
inductive RunEffect (s : Shared π ω) (l : Loop ω) : Shared π ω → Loop ω → Prop where
  | pop {choice : PopChoice} {queue : TicketRing.State π Unit ω} {consumer : Consumer ω}
      (hPc : l.pc = .draining ∧ choice = .go ∨
        (l.pc = .calling ∨ l.pc = .head ∧ s.running = true) ∧ choice = .call 1)
      (h : LockFreeMpscQueue.pop kPendingOpsCapacity () s.queue l.consumer choice =
        some (queue, consumer)) :
      RunEffect s l { s with queue := queue } ⟨consumer, .after consumer⟩
  | leave (hPc : l.pc = .head ∨ l.pc = .waiting) : RunEffect s l s { l with pc := .returned }
  | wake (batch : List Event) (hPc : l.pc = .waiting) :
      RunEffect s l s { l with pc := .events batch }
  | handled (rest : List Event) (hPc : l.pc = .events (.watched :: rest)) :
      RunEffect s l s { l with pc := .events rest }
  | passed (hPc : l.pc = .events [] ∨ l.pc = .waiting) : RunEffect s l s { l with pc := .head }
  | read (rest : List Event) (hPc : l.pc = .events (.stopFd :: rest)) :
      RunEffect s l s.read { l with pc := .events rest }
  | stop (back : Option (List Event)) (hPc : l.pc = .resume back) :
      RunEffect s l { s with running := false } { l with pc := .stopping back }
  | write (back : Option (List Event)) (hPc : l.pc = .stopping back) :
      RunEffect s l s.write { l with pc := .resume back }

section Effects

variable {t : π} {s s' : Shared π ω} {p p' : Poster ω} {l l' : Loop ω}

omit [DecidableEq π] in
theorem Poster.push_effect {op : ω} {choice : PushChoice ω}
    (hPc : p.pc = .idle ∨ p.pc = .pushing op)
    (h : Poster.push t s p.producer op choice = some (s', p')) : PostEffect t s p s' p' := by
  obtain ⟨⟨queue, producer⟩, hPush, hAfter⟩ := Option.map_eq_some_iff.mp h
  cases hAfter
  exact .push op hPc hPush

omit [DecidableEq π] in
theorem post_effect {choice : PosterChoice ω} (h : post t s p choice = some (s', p')) :
    PostEffect t s p s' p' := by
  cases choice with
  | post op =>
      simp only [post] at h
      split at h
      · exact Poster.push_effect (.inl ‹_›) h
      · cases h
  | again | spurious =>
      simp only [post] at h
      split at h
      · exact Poster.push_effect (.inr ‹_›) h
      · cases h
  | stop =>
      simp only [post] at h
      split at h <;> cases h
      exact .stop ‹_›
  | go =>
      simp only [post] at h
      split at h
      · exact Poster.push_effect (.inr ‹_›) h
      · cases h
        exact .write (.inl ‹_›)
      · cases h
        exact .write (.inr ‹_›)
      · cases h

omit [DecidableEq π] in
theorem Loop.pop_effect {choice : PopChoice}
    (hPc : l.pc = .draining ∧ choice = .go ∨
      (l.pc = .calling ∨ l.pc = .head ∧ s.running = true) ∧ choice = .call 1)
    (h : Loop.pop s l.consumer choice = some (s', l')) : RunEffect s l s' l' := by
  obtain ⟨⟨queue, consumer⟩, hPop, hAfter⟩ := Option.map_eq_some_iff.mp h
  cases hAfter
  exact .pop hPc hPop

omit [DecidableEq π] in
theorem run_effect {choice : LoopChoice} (h : run () s l choice = some (s', l')) :
    RunEffect s l s' l' := by
  cases choice with
  | go =>
      simp only [run] at h
      split at h
      · split at h
        · exact Loop.pop_effect (.inr ⟨.inr ⟨‹_›, ‹_›⟩, rfl⟩) h
        · cases h
          exact .leave (.inl ‹_›)
      · exact Loop.pop_effect (.inl ⟨‹_›, rfl⟩) h
      · exact Loop.pop_effect (.inr ⟨.inl ‹_›, rfl⟩) h
      · cases h
        exact .passed (.inl ‹_›)
      · cases h
        exact .read _ ‹_›
      · cases h
        exact .handled _ ‹_›
      · cases h
        exact .write _ ‹_›
      · cases h
      · cases h
  | stop =>
      simp only [run] at h
      split at h
      · cases h
        exact .stop none ‹_›
      · cases h
        exact .stop (some _) ‹_›
      · cases h
  | wake batch =>
      simp only [run] at h
      split at h
      · split at h <;> cases h
        exact .wake batch ‹_›
      · cases h
  | interrupted =>
      simp only [run] at h
      split at h <;> cases h
      exact .passed (.inr ‹_›)
  | waitFails =>
      simp only [run] at h
      split at h <;> cases h
      exact .leave (.inr ‹_›)

/-- `push` returns between calls. -/
theorem quiet_after {op : ω} {producer : Producer ω} :
    (∃ op', PosterPc.after op producer.pc = .pushing op') ∨ producer.Quiet := by
  unfold PosterPc.after
  split
  · exact .inr (.inr ⟨_, _, ‹_›⟩)
  · exact .inl ⟨op, rfl⟩

theorem next_ne_idle (remaining : Nat) : (Consumer.next remaining : PopPc ω) ≠ .idle := by
  unfold Consumer.next
  split <;> nofun

omit [DecidableEq π] in
theorem pop_single {queue queue' : TicketRing.State π Unit ω} {consumer consumer' : Consumer ω}
    {choice : PopChoice} (single : Single consumer) (hChoice : choice = .go ∨ choice = .call 1)
    (h : LockFreeMpscQueue.pop kPendingOpsCapacity () queue consumer choice =
      some (queue', consumer')) : Single consumer' := by
  obtain ⟨remaining, out, pc⟩ := consumer
  cases pc <;> cases choice <;> simp only [LockFreeMpscQueue.pop, reduceCtorEq] at h
  case idle.call count | returned.call count =>
    obtain rfl : count = 1 := by simpa using hChoice
    cases h
    exact ⟨rfl, rfl⟩
  case loadSequence.go pos =>
    split_ifs at h <;> cases h
    · trivial
    · exact single
  case take.go pos =>
    cases h
    exact single.1
  case release.go pos element =>
    obtain rfl : remaining = 1 := single
    cases h
    trivial
  all_goals
    cases h
    exact single

omit [DecidableEq π] in
theorem draining_after {queue queue' : TicketRing.State π Unit ω} {consumer consumer' : Consumer ω}
    {choice : PopChoice} (h : LockFreeMpscQueue.pop kPendingOpsCapacity () queue consumer choice =
      some (queue', consumer')) : LoopPc.after consumer' = .draining ↔ ¬Resting consumer' := by
  have hNotIdle : consumer'.pc ≠ .idle := by
    obtain ⟨remaining, out, pc⟩ := consumer
    cases pc <;> cases choice <;> simp only [LockFreeMpscQueue.pop, reduceCtorEq] at h
    case loadSequence.go pos =>
      split_ifs at h <;> cases h <;> simp
    all_goals
      cases h
      simp [next_ne_idle]
  unfold LoopPc.after Resting
  split
  · rename_i hReturned
    simp only [hReturned, or_true, not_true_eq_false, iff_false]
    split <;> simp
  · rename_i hOther
    simpa [hNotIdle] using hOther

end Effects

theorem two_le_capacity : 2 ≤ kPendingOpsCapacity := by decide

variable {c : Config (π ⊕ Unit) (Shared π ω) (Poster ω ⊕ Loop ω)}

/-- The invariants of the queue hold where the queue is part of the event loop. -/
theorem Reachable.outlined (reach : Reachable c) :
    Outlined (fun s => Consistent kPendingOpsCapacity s.queue) (fun s t p => Posting s.queue t p)
      (fun s _ l => Looping s.queue l) c := by
  refine Reach.outlined ?_ ?_ ?_ reach
  · refine ⟨⟨valid_empty, ordered_empty, sequential_empty⟩, fun t => ?_, fun _ => ?_⟩
    · exact ⟨producer_start kPendingOpsCapacity t, .inr (.inl rfl)⟩
    · refine ⟨⟨rfl, fun p hp => ?_⟩, List.nil_suffix, trivial, nofun, fun h => (h (.inl rfl)).elim⟩
      cases hp
  · rintro t s p choice s' p' ⟨valid, ordered, sequential⟩ ⟨⟨producing, recorded, owning⟩, quiet⟩ hStep
    cases post_effect hStep with
    | push op hPc hPush =>
        have effect := push_effect producing hPush
        refine ⟨⟨effect.valid valid two_le_capacity, effect.ordered ordered recorded,
          sequential_of_push effect valid two_le_capacity sequential⟩,
          ⟨⟨push_producing valid producing hPush, push_recorded recorded hPush,
            push_owning owning hPush⟩, quiet_after⟩, ?_, ?_⟩
        · rintro u m hne ⟨⟨hProducing, hRecorded, hOwning⟩, hQuiet⟩
          exact ⟨effect.keeps_producer valid two_le_capacity hne hProducing hRecorded hOwning, hQuiet⟩
        · rintro _ m ⟨consuming, collected, single, hDraining⟩
          obtain ⟨hConsuming, hCollected⟩ :=
            push_keeps_consumer effect valid two_le_capacity consuming collected
          exact ⟨hConsuming, hCollected, single, hDraining⟩
    | stop hPc =>
        refine ⟨⟨valid, ordered, sequential⟩, ⟨⟨producing, recorded, owning⟩, .inr ?_⟩,
          fun _ _ _ h => h, fun _ _ h => h⟩
        rcases quiet with ⟨op, hPushing⟩ | hQuiet
        · exact absurd (hPc.symm.trans hPushing) nofun
        · exact hQuiet
    | write hPc =>
        refine ⟨⟨valid, ordered, sequential⟩, ⟨⟨producing, recorded, owning⟩, .inr ?_⟩,
          fun _ _ _ h => h, fun _ _ h => h⟩
        rcases quiet with ⟨op, hPushing⟩ | hQuiet
        · rw [hPushing] at hPc
          exact absurd hPc (by simp)
        · exact hQuiet
  · rintro r s l choice s' l' ⟨valid, ordered, sequential⟩ ⟨consuming, collected, single, hDraining⟩ hStep
    cases run_effect hStep with
    | pop hPc hPop =>
        have effect := pop_effect valid two_le_capacity consuming hPop
        refine ⟨⟨effect.valid valid two_le_capacity, ?_, effect.sequential sequential⟩,
          ⟨pop_consuming valid two_le_capacity sequential consuming hPop, pop_collected collected hPop,
            pop_single single (hPc.imp And.right And.right) hPop, draining_after hPop⟩,
          fun u m hne => absurd rfl hne, ?_⟩
        · unfold Ordered
          rw [effect.pushed_eq]
          exact ordered
        · rintro t m ⟨⟨producing, recorded, owning⟩, hQuiet⟩
          exact ⟨effect.keeps_producer valid two_le_capacity producing recorded owning, hQuiet⟩
    | leave hPc | wake _ hPc | handled _ hPc | passed hPc | read _ hPc | stop _ hPc | write _ hPc =>
        have hResting : Resting l.consumer := by
          by_contra hBusy
          simp [hDraining.mpr hBusy] at hPc
        exact ⟨⟨valid, ordered, sequential⟩,
          ⟨consuming, collected, single, by simp, fun hBusy => absurd hResting hBusy⟩,
          fun _ _ _ h => h, fun _ _ h => h⟩

section Asleep

variable {s s' : TicketRing.State π Unit ω}

omit [DecidableEq π] in
/-- An element becomes readable in the step with which its `push` returns. -/
theorem push_published {t : π} {l l' : Producer ω} {choice : PushChoice ω}
    (h : LockFreeQueue.push kPendingOpsCapacity t s l choice = some (s', l')) {p : Nat}
    (hStage : s'.stage p = .published) :
    s.stage p = .published ∨ ∃ msg, l'.pc = .returned msg true := by
  obtain ⟨calls, arg, pc⟩ := l
  cases pc <;> cases choice <;> simp only [LockFreeQueue.push, reduceCtorEq] at h
  case loadSequence.go msg pos =>
    split_ifs at h <;> cases h <;> exact .inl hStage
  case casTail.go msg pos =>
    split_ifs at h <;> cases h
    · exact .inl (stage_kept hStage (by simp)).2
    · exact .inl hStage
  case publish.go msg pos =>
    cases h
    exact .inr ⟨msg, rfl⟩
  all_goals
    cases h
    exact .inl hStage

omit [DecidableEq π] in
/-- A `pop` that returns false has found the oldest element not to be readable. -/
theorem pop_refused {l l' : Consumer ω} {choice : PopChoice}
    (consistent : Consistent kPendingOpsCapacity s)
    (consuming : Consuming kPendingOpsCapacity s l) (collected : Collected s l)
    (h : LockFreeMpscQueue.pop kPendingOpsCapacity () s l choice = some (s', l'))
    (hChoice : choice = .go ∨ choice = .call 1) (hReturned : l'.pc = .returned)
    (hOut : l'.out = []) : s'.stage s'.popped.length ≠ .published := by
  obtain ⟨remaining, out, pc⟩ := l
  cases pc <;> cases choice <;> simp only [LockFreeMpscQueue.pop, reduceCtorEq] at h
  case idle.call count | returned.call count =>
    obtain rfl : count = 1 := by simpa using hChoice
    cases h
    cases hReturned
  case loadSequence.go pos =>
    obtain ⟨hPos, _, _⟩ := consuming
    subst hPos
    split_ifs at h with hOther <;> cases h
    · intro hPublished
      have := consistent.valid.occupied _ 1 (congrArg Stage.offset hPublished)
      omega
    · cases hReturned
  case release.go pos element =>
    obtain ⟨before, hBefore, _⟩ := collected
    cases h
    simp only at hBefore hOut
    rw [hBefore] at hOut
    exact absurd hOut (by simp)
  all_goals
    cases h
    cases hReturned

end Asleep

/-- Some thread other than the loop's stands at `pc`. -/
def Stands (c : Config (π ⊕ Unit) (Shared π ω) (Poster ω ⊕ Loop ω)) (pc : PosterPc ω) : Prop :=
  ∃ t p, c.here (.inl t) = .inl p ∧ p.pc = pc

/-- The loop's thread stands at `pc`. -/
def LoopAt (c : Config (π ⊕ Unit) (Shared π ω) (Poster ω ⊕ Loop ω)) (pc : LoopPc) : Prop :=
  ∃ l, c.here (.inr ()) = .inr l ∧ l.pc = pc

/-- Nothing but a descriptor of a user or the timeout wakes the loop. -/
def Asleep (c : Config (π ⊕ Unit) (Shared π ω) (Poster ω ⊕ Loop ω)) : Prop :=
  LoopAt c .waiting ∧ c.shared.stopFd = 0

omit [DecidableEq π] in
theorem Shared.write_pos (s : Shared π ω) : 0 < s.write.stopFd := by
  simp only [Shared.write]
  split
  · exact Nat.succ_pos _
  · have : 0 < kEventFdMax := by decide
    omega

section Step

variable {shared : Shared π ω} {place : Poster ω ⊕ Loop ω}

/-- A thread that has not moved stands where it did. -/
theorem Stands.other {pc : PosterPc ω} {t : π} {p : Poster ω} (h : Stands c pc)
    (hHere : c.here (.inl t) = .inl p) (hPc : p.pc ≠ pc) :
    Stands ⟨shared, Function.update c.here (.inl t) place⟩ pc := by
  obtain ⟨u, q, hThere, hq⟩ := h
  have hne : u ≠ t := by
    rintro rfl
    cases hHere.symm.trans hThere
    exact hPc hq
  exact ⟨u, q, by simpa [Function.update_of_ne, hne] using hThere, hq⟩

theorem Stands.loop {pc : PosterPc ω} (h : Stands c pc) :
    Stands ⟨shared, Function.update c.here (.inr ()) place⟩ pc := by
  obtain ⟨u, q, hThere, hq⟩ := h
  exact ⟨u, q, by simpa using hThere, hq⟩

theorem Stands.self {t : π} {p : Poster ω} :
    Stands ⟨shared, Function.update c.here (.inl t) (.inl p)⟩ p.pc :=
  ⟨t, p, Function.update_self .., rfl⟩

end Step

omit [DecidableEq π] in
/-- Whose step it was, and what it did. -/
theorem step_cases {thread : π ⊕ Unit} {s s' : Shared π ω} {place place' : Poster ω ⊕ Loop ω}
    {choice : PosterChoice ω ⊕ LoopChoice} (h : step thread s place choice = some (s', place')) :
    (∃ t p p', thread = .inl t ∧ place = .inl p ∧ place' = .inl p' ∧ PostEffect t s p s' p') ∨
    (∃ l l', thread = .inr () ∧ place = .inr l ∧ place' = .inr l' ∧ RunEffect s l s' l') := by
  cases thread <;> cases place <;> cases choice <;> simp only [step, Program.either, reduceCtorEq] at h
  case inl.inl.inl t p choice =>
    obtain ⟨⟨_, p'⟩, hStep, hAfter⟩ := Option.map_eq_some_iff.mp h
    cases hAfter
    exact .inl ⟨t, p, p', rfl, rfl, rfl, post_effect hStep⟩
  case inr.inr.inr r l choice =>
    obtain ⟨⟨_, l'⟩, hStep, hAfter⟩ := Option.map_eq_some_iff.mp h
    cases hAfter
    exact .inr ⟨l, l', rfl, rfl, rfl, run_effect hStep⟩

section Kept

variable {t : π} {p p' : Poster ω} {shared : Shared π ω} {pc : LoopPc}

theorem LoopAt.before {place : Poster ω ⊕ Loop ω}
    (h : LoopAt ⟨shared, Function.update c.here (.inl t) place⟩ pc) : LoopAt c pc := by
  obtain ⟨l, hHere, hPc⟩ := h
  exact ⟨l, by simpa using hHere, hPc⟩

theorem LoopAt.after {l : Loop ω}
    (h : LoopAt ⟨shared, Function.update c.here (.inr ()) (.inr l)⟩ pc) : l.pc = pc := by
  obtain ⟨l', hHere, hPc⟩ := h
  cases (Function.update_self (Sum.inr ()) (Sum.inr l) c.here).symm.trans hHere
  exact hPc

end Kept

theorem after_cases (consumer : Consumer ω) : LoopPc.after consumer = .draining ∨
    LoopPc.after consumer = .calling ∨ LoopPc.after consumer = .waiting := by
  unfold LoopPc.after
  split
  · split
    · exact .inr (.inr rfl)
    · exact .inr (.inl rfl)
  · exact .inl rfl

theorem after_eq_waiting {consumer : Consumer ω} :
    LoopPc.after consumer = .waiting ↔ consumer.pc = .returned ∧ consumer.out = [] := by
  unfold LoopPc.after
  split
  · simp_all
  · simp_all

@[simp] theorem resume_ne_waiting (back : Option (List Event)) :
    LoopPc.resume back ≠ .waiting := by
  cases back <;> nofun

/-- While the loop sleeps the oldest element is not readable, unless the thread that has
just made it so is about to write. -/
theorem Reachable.noticed (reach : Reachable c) (hAsleep : Asleep c)
    (hStage : c.shared.queue.stage c.shared.queue.popped.length = .published) :
    Stands c .writing := by
  revert hAsleep hStage
  refine Reach.invariant (I := fun c => Asleep c →
    c.shared.queue.stage c.shared.queue.popped.length = .published → Stands c .writing) ?_ ?_ reach
  · rintro c rfl ⟨⟨l, hHere, hPc⟩, _⟩
    cases hHere
    cases hPc
  · intro c thread choice shared place hReach ih _ hLocal hAsleep hStage
    obtain ⟨⟨valid, ordered, sequential⟩, producers, consumers⟩ := Reachable.outlined hReach
    rcases step_cases hLocal with ⟨t, p, p', rfl, hHere, rfl, effect⟩ | ⟨l, l', rfl, hHere, rfl, effect⟩
    · have hLoop := hAsleep.1.before
      cases effect with
      | push op hPc hPush =>
          rcases push_published hPush hStage with hBefore | ⟨msg, hReturned⟩
          · obtain ⟨p₀, hPlace, ⟨producing, _⟩, _⟩ := producers t
            cases hHere.symm.trans hPlace
            have hPopped := (push_effect producing hPush).reads_eq.2.2
            refine (ih ⟨hLoop, hAsleep.2⟩ (by rw [← hPopped]; exact hBefore)).other hHere ?_
            rcases hPc with h | h <;> rw [h] <;> nofun
          · refine ⟨t, _, Function.update_self .., ?_⟩
            simp [PosterPc.after, hReturned]
      | stop hPc => exact (ih ⟨hLoop, hAsleep.2⟩ hStage).other hHere (by rw [hPc]; nofun)
      | write hPc => exact absurd hAsleep.2 (Shared.write_pos _).ne'
    · have hAt := hAsleep.1.after
      cases effect with
      | pop hPc hPop =>
          obtain ⟨l₀, hPlace, consuming, collected, _⟩ := consumers ()
          cases hHere.symm.trans hPlace
          obtain ⟨hReturned, hOut⟩ := after_eq_waiting.mp hAt
          exact absurd hStage (pop_refused ⟨valid, ordered, sequential⟩ consuming collected hPop
            (hPc.imp And.right And.right) hReturned hOut)
      | leave | wake | handled | passed | read | stop => cases hAt
      | write back hPc => exact absurd hAt (resume_ne_waiting back)

/-- Where the loop has read `running_` as true, and has not been woken since. -/
def LoopPc.entered : LoopPc → Prop
  | .draining | .calling | .waiting => True
  | _ => False

/-- A loop that went on although it is to stop will find `stopFd_` readable, unless the
thread that stops it is still about to write. -/
theorem Reachable.stoppable (reach : Reachable c) {pc : LoopPc} (hLoop : LoopAt c pc)
    (hEntered : pc.entered) (hRunning : c.shared.running = false) :
    0 < c.shared.stopFd ∨ Stands c .stopping := by
  revert pc hRunning
  refine Reach.invariant (I := fun c => ∀ {pc}, LoopAt c pc → pc.entered →
    c.shared.running = false → 0 < c.shared.stopFd ∨ Stands c .stopping) ?_ ?_ reach
  · rintro c rfl pc _ _ hRunning
    cases hRunning
  · intro c thread choice shared place hReach ih _ hLocal pc hLoop hEntered hRunning
    rcases step_cases hLocal with ⟨t, p, p', rfl, hHere, rfl, effect⟩ | ⟨l, l', rfl, hHere, rfl, effect⟩
    · have hBefore := hLoop.before
      cases effect with
      | push op hPc hPush =>
          refine (ih hBefore hEntered hRunning).imp_right fun h => h.other hHere ?_
          rcases hPc with h | h <;> rw [h] <;> nofun
      | stop hPc => exact .inr Stands.self
      | write hPc => exact .inl (Shared.write_pos _)
    · obtain rfl := hLoop.after
      cases effect with
      | pop hPc hPop =>
          rcases hPc with ⟨h, _⟩ | ⟨h | ⟨_, h⟩, _⟩
          · exact (ih ⟨l, hHere, h⟩ trivial hRunning).imp_right Stands.loop
          · exact (ih ⟨l, hHere, h⟩ trivial hRunning).imp_right Stands.loop
          · exact absurd (h.symm.trans hRunning) nofun
      | leave | wake | handled | passed | read | stop => cases hEntered
      | write back hPc => exact .inl (Shared.write_pos _)

/-- No thread but the loop's is inside `post`. -/
def Posted (c : Config (π ⊕ Unit) (Shared π ω) (Poster ω ⊕ Loop ω)) : Prop :=
  ¬Stands c .writing ∧ ∀ op, ¬Stands c (.pushing op)

/-- An operation whose turn it is, while the loop is in no `pop`, is readable, or a thread
is in the middle of the `push` of it. -/
theorem Reachable.next_op (reach : Reachable c) {pc : LoopPc} (hLoop : LoopAt c pc)
    (hPc : pc ≠ .draining) (hLess : c.shared.queue.popped.length < c.shared.queue.pushed.length) :
    c.shared.queue.stage c.shared.queue.popped.length = .published ∨
      ∃ op, Stands c (.pushing op) := by
  obtain ⟨⟨valid, _, sequential⟩, producers, consumers⟩ := reach.outlined
  obtain ⟨l, hPlace, consuming, _, _, hDraining⟩ := consumers ()
  obtain ⟨l₀, hHere, rfl⟩ := hLoop
  cases hHere.symm.trans hPlace
  have hQuiet : Resting l.consumer := by
    by_contra hBusy
    exact hPc (hDraining.mpr hBusy)
  cases hStage : c.shared.queue.stage c.shared.queue.popped.length with
  | free =>
      have := (valid.free_iff _).mp hStage
      rw [valid.pushed_length] at hLess
      omega
  | retired => exact absurd ((sequential.retired_iff _).mp hStage) (Nat.lt_irrefl _)
  | published => exact .inl rfl
  | claimed r =>
      cases r
      have hUnclaimed : Unclaimed c.shared.queue := by
        unfold Consuming at consuming
        rcases hQuiet with h | h <;> rw [h] at consuming <;> exact consuming.2
      exact absurd hStage (hUnclaimed _)
  | reserved t =>
      obtain ⟨p, hThere, ⟨_, _, owning⟩, hPushing⟩ := producers t
      rcases hPushing with ⟨op, hOp⟩ | hQuiet
      · exact .inr ⟨op, t, p, hThere, hOp⟩
      · have hTicket := owning _ hStage
        rw [hQuiet.ticket] at hTicket
        cases hTicket

/-- All operations that were accepted have been run, in the order in which they were. -/
def Drained (c : Config (π ⊕ Unit) (Shared π ω) (Poster ω ⊕ Loop ω)) : Prop :=
  c.shared.queue.popped.map Popped.value = c.shared.queue.pushed.map fun entry => some entry.value

theorem Reachable.pending_of_undrained (reach : Reachable c) (h : ¬Drained c) :
    c.shared.queue.popped.length < c.shared.queue.pushed.length := by
  have hOrder := reach.outlined.shared.sequential.in_order
  by_contra hLess
  refine h (hOrder.eq_of_length_le ?_)
  rw [List.length_map, List.length_map]
  exact Nat.le_of_not_lt hLess

/-- A loop that sleeps over an operation is about to be woken. -/
theorem Reachable.woken (reach : Reachable c) (hAsleep : Asleep c) (h : ¬Drained c) :
    Stands c .writing ∨ ∃ op, Stands c (.pushing op) := by
  rcases reach.next_op hAsleep.1 nofun (reach.pending_of_undrained h) with hStage | hPushing
  · exact .inl (reach.noticed hAsleep hStage)
  · exact .inr hPushing

/-- So is one that sleeps although it is to stop. -/
theorem Reachable.stop_noticed (reach : Reachable c) (hAsleep : Asleep c)
    (hRunning : c.shared.running = false) : Stands c .stopping :=
  (reach.stoppable hAsleep.1 trivial hRunning).resolve_left (by simp [hAsleep.2])

/-- What the users of the loop are promised in one state of a run. -/
structure Awake (c : Config (π ⊕ Unit) (Shared π ω) (Poster ω ⊕ Loop ω)) : Prop where
  in_order : c.shared.queue.popped.map Popped.value <+:
    c.shared.queue.pushed.map fun entry => some entry.value
  woken : Asleep c → ¬Drained c → Stands c .writing ∨ ∃ op, Stands c (.pushing op)
  stopping : Asleep c → c.shared.running = false → Stands c .stopping

abbrev Schedule := List ((Unit ⊕ Unit) × (PosterChoice Nat ⊕ LoopChoice))

/-- The loop finds the queue empty and goes to sleep. -/
def goToSleep : List ((Unit ⊕ Unit) × (PosterChoice Nat ⊕ LoopChoice)) :=
  List.replicate 3 (.inr (), .inr .go)

/-- An operation is posted then. -/
def postAsleep : List ((Unit ⊕ Unit) × (PosterChoice Nat ⊕ LoopChoice)) :=
  goToSleep ++ ((.inl (), .inl (.post 7)) :: List.replicate 5 (.inl (), .inl .go) : Schedule)

/-- `post` is about to write. -/
def beforeWrite : Config (Unit ⊕ Unit) (Shared Unit Nat) (Poster Nat ⊕ Loop Nat) :=
  (step.replay anyStep initial postAsleep).get (by decide)

end EventLoopEpoll.WakingUp
