import V2Engine.Interleaving.Inevitable
import V2Engine.Interleaving.Ledger
import V2Engine.Runtime.ActorRuntime
import Mathlib.Data.Prod.Lex

/-! The strategy `OneForOne` at the grain of its atomics: `onActorFailed`, `tryRestart`,
`performRestart` and `shutdown` call each other on the stack of one thread, and any number of
threads may report failures of the same actor. -/
namespace Supervision

open Interleaving

/-- The members of the actor's runtime and of its supervisor. `shutdowns` is a record: the calls
of `shutdown`. -/
structure SupervisedActor where
  mailbox : Nat
  stopped : Bool
  state : ActorState
  restartCount : Int
  totalFailures : Nat
  totalRestarts : Nat
  shutdowns : Nat
  deriving DecidableEq

/-- Where a thread stands, with the number of calls of `performRestart` that it is in. -/
inductive FailurePc where
  | idle
  | failed (restarts : Nat)
  | draining (restarts : Nat)
  | loading (restarts : Nat)
  | comparing (restarts : Nat) (prev : Int)
  | closing (restarts : Nat)
  | checking (restarts : Nat)
  | opening (restarts : Nat)
  | shuttingDown (restarts : Nat)
  | stopping (restarts : Nat)
  | returning (restarts : Nat)
  deriving DecidableEq

/-- `sent` is how many messages `open` or `close` has put into the actor's own mailbox. -/
inductive FailureChoice where
  | go
  | weak
  | report
  | send
  | returns (state : ActorState) (sent : Nat)
  | throws (state : ActorState) (sent : Nat)
  deriving DecidableEq

def SupervisedActor.left (s : SupervisedActor) (state : ActorState) (sent : Nat) : SupervisedActor :=
  { s with state := state, mailbox := s.mailbox + sent }

/-- One step of a thread. `close` does not throw. -/
def onActorFailedStep (maxRestarts : Int) (s : SupervisedActor) :
    FailurePc → FailureChoice → Option (SupervisedActor × FailurePc)
  | .idle, .report => some (s, .failed 0)
  | .idle, .send => some ({ s with mailbox := s.mailbox + 1 }, .idle)
  -- Supervisor::onActorFailed
  | .failed restarts, .go =>
      some ({ s with totalFailures := s.totalFailures + 1 }, .draining restarts)
  | .draining restarts, .go =>
      match s.mailbox with
      | 0 => some (s, .loading restarts)
      | rest + 1 => some ({ s with mailbox := rest }, .draining restarts)
  -- ActorRuntime::tryRestart
  | .loading restarts, .go => some (s, .comparing restarts s.restartCount)
  | .comparing restarts prev, .go =>
      if maxRestarts ≤ prev then some (s, .shuttingDown restarts)
      else if s.restartCount = prev then
        some ({ s with restartCount := prev + 1 }, .closing (restarts + 1))
      else some (s, .comparing restarts s.restartCount)
  | .comparing restarts prev, .weak =>
      if maxRestarts ≤ prev then none else some (s, .comparing restarts s.restartCount)
  -- ActorRuntime::performRestart
  | .closing restarts, .returns state sent => some (s.left state sent, .checking restarts)
  | .checking restarts, .go =>
      some (s, if s.state = .closed then .opening restarts else .returning restarts)
  | .opening restarts, .returns state sent => some (s.left state sent, .returning restarts)
  | .opening restarts, .throws state sent => some (s.left state sent, .failed restarts)
  -- ActorRuntime::shutdown
  | .shuttingDown restarts, .go =>
      some ({ s with stopped := true, shutdowns := s.shutdowns + 1 }, .stopping restarts)
  | .stopping restarts, .returns state sent => some (s.left state sent, .returning restarts)
  -- `performRestart` has returned to `tryRestart`, and that to `onActorFailed`
  | .returning (restarts + 1), .go =>
      some ({ s with totalRestarts := s.totalRestarts + 1 }, .returning restarts)
  | .returning 0, .go => some (s, .idle)
  | _, _ => none

def program (Θ : Type*) (maxRestarts : Int) : Program Θ SupervisedActor FailurePc FailureChoice :=
  fun _ => onActorFailedStep maxRestarts

/-- Restarts that `totalRestarts` does not count yet. -/
def FailurePc.restarts : FailurePc → Nat
  | .idle => 0
  | .failed restarts | .draining restarts | .loading restarts | .comparing restarts _ |
    .closing restarts | .checking restarts | .opening restarts | .shuttingDown restarts |
    .stopping restarts | .returning restarts => restarts

/-- A thread that calls `onActorFailed` while nobody else does. `compare_exchange_weak` may fail
for no reason finitely often. -/
inductive Solo (maxRestarts : Int) :
    SupervisedActor × FailurePc × Nat → SupervisedActor × FailurePc × Nat → Prop where
  | own {s s' : SupervisedActor} {pc pc' : FailurePc} {failures : Nat} {choice : FailureChoice}
      (hCalled : pc ≠ .idle) (hStrong : choice ≠ .weak)
      (h : onActorFailedStep maxRestarts s pc choice = some (s', pc')) :
      Solo maxRestarts (s, pc, failures) (s', pc', failures)
  | weak {s s' : SupervisedActor} {pc pc' : FailurePc} {failures : Nat}
      (h : onActorFailedStep maxRestarts s pc .weak = some (s', pc')) :
      Solo maxRestarts (s, pc, failures + 1) (s', pc', failures)

/-- What a call of `onActorFailed` leaves behind: the restarts are within the budget and are all
counted, and the actor is shut down, once, if it failed more often than the budget allows. -/
structure Returned (maxRestarts : Int) (before after : SupervisedActor) : Prop where
  within : after.restartCount ≤ max maxRestarts before.restartCount
  counted : (after.totalRestarts : Int) - before.totalRestarts =
    after.restartCount - before.restartCount
  shutdowns : after.shutdowns = before.shutdowns +
    if (maxRestarts - before.restartCount).toNat < after.totalFailures - before.totalFailures then 1 else 0

section Alone

/-- The books of a call under way: `failing` failures without a restart, and `shutdowns` calls of
`shutdown`. -/
structure Books (maxRestarts : Int) (before s : SupervisedActor) (restarts failing shutdowns : Nat) :
    Prop where
  within : s.restartCount ≤ max maxRestarts before.restartCount
  grown : before.restartCount ≤ s.restartCount
  counted : s.restartCount - before.restartCount = s.totalRestarts - before.totalRestarts + restarts
  failures : (s.totalFailures : Int) - before.totalFailures =
    s.restartCount - before.restartCount + failing
  shutdowns : s.shutdowns = before.shutdowns + shutdowns

/-- The budget has run out. -/
def Refused (maxRestarts : Int) (before s : SupervisedActor) (restarts shutdowns : Nat) : Prop :=
  Books maxRestarts before s restarts 1 shutdowns ∧ maxRestarts ≤ s.restartCount

/-- The books at every place of the call. -/
def Kept (maxRestarts : Int) (before s : SupervisedActor) : FailurePc → Prop
  | .failed restarts | .closing restarts | .checking restarts | .opening restarts =>
      Books maxRestarts before s restarts 0 0
  | .draining restarts | .loading restarts => Books maxRestarts before s restarts 1 0
  | .comparing restarts prev => Books maxRestarts before s restarts 1 0 ∧ prev = s.restartCount
  | .shuttingDown restarts => Refused maxRestarts before s restarts 0
  | .stopping restarts => Refused maxRestarts before s restarts 1
  | .returning restarts =>
      Books maxRestarts before s restarts 0 0 ∨ Refused maxRestarts before s restarts 1
  | .idle => Books maxRestarts before s 0 0 0 ∨ Refused maxRestarts before s 0 1

variable {maxRestarts : Int} {before s s' : SupervisedActor} {pc pc' : FailurePc}
  {choice : FailureChoice} {restarts failing shutdowns : Nat}

theorem Books.left (books : Books maxRestarts before s restarts failing shutdowns) (state : ActorState)
    (sent : Nat) : Books maxRestarts before (s.left state sent) restarts failing shutdowns :=
  ⟨books.within, books.grown, books.counted, books.failures, books.shutdowns⟩

theorem Books.start (maxRestarts : Int) (before : SupervisedActor) :
    Books maxRestarts before before 0 0 0 where
  within := Int.le_max_right _ _
  grown := Int.le_refl _
  counted := by omega
  failures := by omega
  shutdowns := rfl

/-- `onActorFailed` counts the failure. -/
theorem Books.fail (books : Books maxRestarts before s restarts 0 0) :
    Books maxRestarts before { s with totalFailures := s.totalFailures + 1 } restarts 1 0 := by
  refine ⟨books.within, books.grown, books.counted, ?_, books.shutdowns⟩
  have hFailures := books.failures
  dsimp only
  omega

/-- `tryRestart` takes a restart out of the budget. -/
theorem Books.charge (books : Books maxRestarts before s restarts 1 0)
    (hBudget : s.restartCount < maxRestarts) :
    Books maxRestarts before { s with restartCount := s.restartCount + 1 } (restarts + 1) 0 0 := by
  obtain ⟨hWithin, hGrown, hCounted, hFailures, hShutdowns⟩ := books
  refine ⟨?_, ?_, ?_, ?_, hShutdowns⟩ <;> dsimp only
  · omega
  · omega
  · omega
  · omega

/-- `onActorFailed` counts the restart. -/
theorem Books.count (books : Books maxRestarts before s (restarts + 1) failing shutdowns) :
    Books maxRestarts before { s with totalRestarts := s.totalRestarts + 1 } restarts failing
      shutdowns := by
  refine ⟨books.within, books.grown, ?_, books.failures, books.shutdowns⟩
  have hCounted := books.counted
  dsimp only
  omega

theorem Kept.step (kept : Kept maxRestarts before s pc) (hCalled : pc ≠ .idle)
    (h : onActorFailedStep maxRestarts s pc choice = some (s', pc')) :
    Kept maxRestarts before s' pc' := by
  cases pc <;> cases choice <;> simp only [onActorFailedStep, reduceCtorEq] at h
  case idle.report | idle.send => exact absurd rfl hCalled
  case failed.go =>
    cases h
    exact Books.fail kept
  case draining.go =>
    split at h <;> cases h
    · exact kept
    · exact ⟨kept.within, kept.grown, kept.counted, kept.failures, kept.shutdowns⟩
  case loading.go =>
    cases h
    exact ⟨kept, rfl⟩
  case comparing.go restarts prev =>
    obtain ⟨books, rfl⟩ := kept
    split at h
    · cases h
      exact ⟨books, ‹_›⟩
    · rw [if_pos rfl] at h
      cases h
      exact books.charge (Int.lt_of_not_ge ‹_›)
  case comparing.weak restarts prev =>
    split at h <;> cases h
    exact ⟨kept.1, rfl⟩
  case closing.returns | opening.throws =>
    cases h
    exact Books.left kept _ _
  case checking.go =>
    cases h
    split
    · exact kept
    · exact .inl kept
  case opening.returns =>
    cases h
    exact .inl (Books.left kept _ _)
  case shuttingDown.go =>
    cases h
    obtain ⟨⟨hWithin, hGrown, hCounted, hFailures, hShutdowns⟩, hRefused⟩ := kept
    exact ⟨⟨hWithin, hGrown, hCounted, hFailures, congrArg (· + 1) hShutdowns⟩, hRefused⟩
  case stopping.returns =>
    cases h
    exact .inr ⟨kept.1.left _ _, kept.2⟩
  case returning.go restarts =>
    cases restarts with
    | zero =>
        cases h
        exact kept
    | succ restarts =>
        cases h
        rcases kept with books | ⟨books, hRefused⟩
        · exact .inl books.count
        · exact .inr ⟨books.count, hRefused⟩

theorem Kept.returned (kept : Kept maxRestarts before s .idle) : Returned maxRestarts before s := by
  rcases kept with ⟨hWithin, hGrown, hCounted, hFailures, hShutdowns⟩ |
    ⟨⟨hWithin, hGrown, hCounted, hFailures, hShutdowns⟩, hRefused⟩
  · refine ⟨hWithin, by omega, ?_⟩
    rw [hShutdowns, if_neg (by omega)]
  · refine ⟨hWithin, by omega, ?_⟩
    rw [hShutdowns, if_pos (by omega)]

/-- How far it is to the end of the call if no further restart is charged. -/
def FailurePc.rank : FailurePc → Nat
  | .closing _ => 10
  | .checking _ => 9
  | .opening _ => 8
  | .failed _ => 7
  | .draining _ => 6
  | .loading _ => 5
  | .comparing _ _ => 4
  | .shuttingDown _ => 3
  | .stopping _ => 2
  | .returning _ => 1
  | .idle => 0

/-- Rounds of the loops that stay in their places. -/
def FailurePc.rounds (s : SupervisedActor) : FailurePc → Nat
  | .draining _ => s.mailbox
  | .returning restarts => restarts
  | _ => 0

/-- Restarts in the budget, failures of `compare_exchange_weak`, and the way to the end. -/
def measure (maxRestarts : Int) (x : SupervisedActor × FailurePc × Nat) : Nat ×ₗ Nat ×ₗ Nat ×ₗ Nat :=
  toLex ((maxRestarts - x.1.restartCount).toNat,
    toLex (x.2.2, toLex (x.2.1.rank, x.2.1.rounds x.1)))

theorem measure_of_rank {failures : Nat} (hBudget : s'.restartCount = s.restartCount)
    (h : pc'.rank < pc.rank ∨ pc'.rank = pc.rank ∧ pc'.rounds s' < pc.rounds s) :
    measure maxRestarts (s', pc', failures) < measure maxRestarts (s, pc, failures) := by
  simp only [measure, Prod.Lex.toLex_lt_toLex, hBudget, Nat.lt_irrefl, true_and, false_or]
  omega

theorem measure_of_budget {failures : Nat} (hLess : s.restartCount < s'.restartCount)
    (hBudget : s.restartCount < maxRestarts) :
    measure maxRestarts (s', pc', failures) < measure maxRestarts (s, pc, failures) := by
  simp only [measure, Prod.Lex.toLex_lt_toLex]
  omega

/-- A step of the call gets it further, unless `compare_exchange_weak` fails for no reason. -/
theorem Kept.measure (kept : Kept maxRestarts before s pc) (hCalled : pc ≠ .idle) (failures : Nat)
    (hStrong : choice ≠ .weak) (h : onActorFailedStep maxRestarts s pc choice = some (s', pc')) :
    measure maxRestarts (s', pc', failures) < measure maxRestarts (s, pc, failures) := by
  cases pc <;> cases choice <;> simp only [onActorFailedStep, reduceCtorEq] at h
  case idle.report | idle.send => exact absurd rfl hCalled
  case comparing.weak => exact absurd rfl hStrong
  case draining.go =>
    cases hMailbox : s.mailbox with
    | zero =>
        rw [hMailbox] at h
        cases h
        exact measure_of_rank rfl (.inl (by simp [FailurePc.rank]))
    | succ rest =>
        rw [hMailbox] at h
        cases h
        refine measure_of_rank rfl (.inr ⟨rfl, ?_⟩)
        simp [FailurePc.rounds, hMailbox]
  case comparing.go restarts prev =>
    obtain ⟨books, rfl⟩ := kept
    split at h
    · cases h
      exact measure_of_rank rfl (.inl (by simp [FailurePc.rank]))
    · rw [if_pos rfl] at h
      cases h
      exact measure_of_budget (Int.lt_succ _) (Int.lt_of_not_ge ‹_›)
  case checking.go =>
    cases h
    split <;> exact measure_of_rank rfl (.inl (by simp [FailurePc.rank]))
  case returning.go restarts =>
    cases restarts <;> cases h
    · exact measure_of_rank rfl (.inl (by simp [FailurePc.rank]))
    · exact measure_of_rank rfl (.inr ⟨rfl, Nat.lt_succ_self _⟩)
  all_goals
    cases h
    exact measure_of_rank rfl (.inl (by simp [FailurePc.rank]))

theorem progress (maxRestarts : Int) (s : SupervisedActor) (hCalled : pc ≠ .idle) : ∃ choice, choice ≠ .weak ∧
    (onActorFailedStep maxRestarts s pc choice).isSome := by
  cases pc with
  | idle => exact absurd rfl hCalled
  | closing | opening | stopping => exact ⟨.returns .closed 0, nofun, rfl⟩
  | draining restarts =>
      refine ⟨.go, nofun, ?_⟩
      simp only [onActorFailedStep]
      split <;> rfl
  | comparing restarts prev =>
      refine ⟨.go, nofun, ?_⟩
      simp only [onActorFailedStep]
      split
      · rfl
      · split <;> rfl
  | returning restarts => cases restarts <;> exact ⟨.go, nofun, rfl⟩
  | failed | loading | checking | shuttingDown => exact ⟨.go, nofun, rfl⟩

/-- A call that runs alone comes to its end, however its calls of `open` end. -/
theorem onActorFailed_returns (maxRestarts : Int) (before : SupervisedActor) (failures : Nat) :
    Inevitable (Solo maxRestarts) (fun x => x.2.1 = .idle ∧ Returned maxRestarts before x.1)
      (before, .failed 0, failures) := by
  have hWellFounded : WellFounded (α := Nat ×ₗ Nat ×ₗ Nat ×ₗ Nat) (· < ·) := wellFounded_lt
  refine Inevitable.of_measure (I := fun x => Kept maxRestarts before x.1 x.2.1) hWellFounded
    (Supervision.measure maxRestarts) ?_ ?_ ?_
  · rintro ⟨s, pc, failures⟩ kept
    by_cases hCalled : pc = .idle
    · subst hCalled
      exact .inl ⟨rfl, Kept.returned kept⟩
    · obtain ⟨choice, hStrong, hSome⟩ := progress maxRestarts s hCalled
      obtain ⟨⟨s', pc'⟩, hStep⟩ := Option.isSome_iff_exists.mp hSome
      exact .inr ⟨(s', pc', failures), .own hCalled hStrong hStep⟩
  · rintro ⟨s, pc, failures⟩ ⟨s', pc', failures'⟩ kept hNext
    cases hNext with
    | own hCalled hStrong hStep => exact ⟨Kept.step kept hCalled hStep, Kept.measure kept hCalled _ hStrong hStep⟩
    | weak hStep =>
        have hCalled : pc ≠ .idle := by
          rintro rfl
          cases hStep
        refine ⟨Kept.step kept hCalled hStep, ?_⟩
        cases pc <;> simp only [onActorFailedStep, reduceCtorEq] at hStep
        split at hStep <;> cases hStep
        simp only [Supervision.measure, Prod.Lex.toLex_lt_toLex, Nat.lt_irrefl, false_or, true_and,
          Nat.lt_succ_self, true_or]
  · exact Books.start maxRestarts before

end Alone

section Together

variable {Θ : Type*} [DecidableEq Θ] {maxRestarts : Int} {before : SupervisedActor}
  {c : Config Θ SupervisedActor FailurePc}

/-- No step takes a restart out of a budget that has none, and each restart is known to a thread
until it is counted. -/
theorem onActorFailedStep_counts {s s' : SupervisedActor} {pc pc' : FailurePc} {choice : FailureChoice}
    (h : onActorFailedStep maxRestarts s pc choice = some (s', pc')) :
    (s'.restartCount = s.restartCount ∨ s'.restartCount ≤ maxRestarts) ∧
      s'.restartCount - s'.totalRestarts - pc'.restarts = s.restartCount - s.totalRestarts - pc.restarts := by
  cases pc <;> cases choice <;> simp only [onActorFailedStep, reduceCtorEq] at h
  case draining.go =>
    split at h <;> cases h <;> exact ⟨.inl rfl, rfl⟩
  case comparing.go restarts prev =>
    split at h
    · cases h
      exact ⟨.inl rfl, rfl⟩
    · split at h
      · cases h
        subst_vars
        refine ⟨.inr (Int.add_one_le_of_lt (Int.lt_of_not_ge ‹_›)), ?_⟩
        simp only [FailurePc.restarts]
        omega
      · cases h
        exact ⟨.inl rfl, rfl⟩
  case comparing.weak =>
    split at h <;> cases h
    exact ⟨.inl rfl, rfl⟩
  case checking.go =>
    cases h
    split <;> exact ⟨.inl rfl, rfl⟩
  case returning.go restarts =>
    cases restarts <;> cases h
    · exact ⟨.inl rfl, rfl⟩
    · refine ⟨.inl rfl, ?_⟩
      simp only [FailurePc.restarts]
      omega
  all_goals
    cases h
    exact ⟨.inl rfl, rfl⟩

theorem restartCount_le (reach : Reach (program Θ maxRestarts) (· = ⟨before, fun _ => .idle⟩) anyStep c) :
    c.shared.restartCount ≤ max maxRestarts before.restartCount := by
  apply reach.invariant (I := fun c => c.shared.restartCount ≤ max maxRestarts before.restartCount)
  · rintro c rfl
    exact Int.le_max_right _ _
  · intro c t choice shared place _ hWithin _ hLocal
    rcases (onActorFailedStep_counts hLocal).1 with hSame | hBudget
    · exact hSame ▸ hWithin
    · exact Int.le_trans hBudget (Int.le_max_left _ _)

theorem restarts_counted [Fintype Θ]
    (reach : Reach (program Θ maxRestarts) (· = ⟨before, fun _ => .idle⟩) anyStep c) :
    c.shared.restartCount - before.restartCount =
      c.shared.totalRestarts - before.totalRestarts + ∑ t, ((c.here t).restarts : Int) := by
  have hBalance : ledger (fun s : SupervisedActor => s.restartCount - s.totalRestarts)
      (fun _ pc => -(pc.restarts : Int)) c = before.restartCount - before.totalRestarts := by
    apply reach.ledger_eq
    · rintro c rfl
      simp [ledger, entries, FailurePc.restarts]
    · intro c t choice shared place _ _ _ hLocal
      have hSame := (onActorFailedStep_counts hLocal).2
      omega
  simp only [ledger, entries, Finset.sum_neg_distrib] at hBalance
  omega

/-- A call of `onActorFailed` that runs alone comes to its end within the budget, and shuts the
actor down once if the budget has run out. Whatever number of threads report failures, the budget
is kept, and `totalRestarts` lacks no more than the restarts that the threads are still in. -/
theorem restart_budget (Θ : Type*) [DecidableEq Θ] [Fintype Θ] (maxRestarts : Int)
    (before : SupervisedActor) :
    (∀ failures, Inevitable (Solo maxRestarts) (fun x => x.2.1 = .idle ∧ Returned maxRestarts before x.1)
      (before, .failed 0, failures)) ∧
    ∀ c, Reach (program Θ maxRestarts) (· = ⟨before, fun _ => .idle⟩) anyStep c →
      c.shared.restartCount ≤ max maxRestarts before.restartCount ∧
      c.shared.restartCount - before.restartCount =
        c.shared.totalRestarts - before.totalRestarts + ∑ t, ((c.here t).restarts : Int) :=
  ⟨onActorFailed_returns maxRestarts before, fun _ reach => ⟨restartCount_le reach, restarts_counted reach⟩⟩

end Together

/-- A failure has come to `onActorFailed` for the first time. -/
def fresh : SupervisedActor := ⟨0, false, .opened, 0, 0, 0, 0⟩

/-- Two threads read the counter at the same time, and only one of them takes the last restart;
the other one shuts the actor down. -/
def lastRestart : List (Bool × FailureChoice) :=
  [(false, .report), (true, .report), (false, .go), (true, .go), (false, .go), (true, .go),
    (false, .go), (true, .go), (false, .go), (true, .go), (true, .go), (true, .go),
    (true, .returns .closed 0), (false, .returns .closed 0), (false, .go),
    (false, .returns .opened 0), (false, .go)]

def afterLastRestart : Config Bool SupervisedActor FailurePc :=
  ((program Bool 1).replay anyStep ⟨fresh, fun _ => .idle⟩ lastRestart).get (by decide +kernel)

theorem restart_budget_afterLastRestart :
    afterLastRestart.shared.restartCount ≤ 1 ∧ afterLastRestart.shared.totalRestarts = 1 ∧
      afterLastRestart.shared.shutdowns = 1 := by
  refine ⟨?_, by decide +kernel, by decide +kernel⟩
  exact ((restart_budget Bool 1 fresh).2 afterLastRestart
    (Reach.replay (.start rfl) (Option.some_get _).symm)).1

section Decision

variable {ρ ε : Type*} [DecidableEq ρ]

/-- A thread that has just read the counter decides as `onActorFailed` does in one step. -/
theorem comparing_eq_onActorFailed (registered : List ρ) (maxRestarts : Int) (a : ρ)
    (rt : ActorRuntime ε) (sup : Supervisor ρ) (frames : Frames ε) (s : SupervisedActor)
    (h : s.restartCount = rt.restartCount) :
    onActorFailedStep maxRestarts s (.comparing frames.restarts s.restartCount) .go =
      match onActorFailed registered maxRestarts a rt sup frames .oneForOne with
      | (rt', _, .closing frames') =>
          some ({ s with restartCount := rt'.restartCount }, .closing frames'.restarts)
      | _ => some (s, .shuttingDown frames.restarts) := by
  simp only [onActorFailedStep, onActorFailed, h]
  by_cases hLimit : maxRestarts ≤ rt.restartCount
  · simp [hLimit]
  · simp [hLimit]

end Decision

end Supervision
