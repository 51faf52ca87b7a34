import V2Engine.System.Threads
import Mathlib.Tactic.SplitIfs

/-! The flags that start and stop the dispatcher and the workers. The controlling thread
sets them; a worker only says that it has ended. -/
namespace ActorSystem

open Interleaving

variable {n : Nat} {τ ρ β : Type*}

/-- `running_` and `draining_` of the dispatcher, `running_` of each worker, and which
worker threads there are. -/
structure Flags (n : Nat) where
  running : Bool
  draining : Bool
  workerRunning : Fin n → Bool
  live : Fin n → Bool

def Shared.flags (s : Shared n τ ρ β) : Flags n :=
  ⟨s.dispatcher.running, s.dispatcher.draining, s.workerRunning, s.live⟩

def Flags.exit (flags : Flags n) (w : Fin n) : Flags n :=
  { flags with live := Function.update flags.live w false }

section Steps

variable [NeZero n] [DecidableEq ρ] [DecidableEq τ] {cfg : Setup ρ β} {t : Thread n τ}
  {s s' : Shared n τ ρ β} {l l' : Local n τ ρ β} {choice : Choice n ρ β}

omit [DecidableEq ρ] in
theorem errand_flags {d d' : WorkDispatcher n ρ} {load : Nat → Fin n → Nat} {x : Errand n ρ}
    {x' : Option (Errand n ρ)} (h : d.errandStep cfg.dispatcher cfg.actorId load x = some (d', x')) :
    d'.running = d.running ∧ d'.draining = d.draining := by
  cases x with
  | dispatching | entering | parking =>
      simp only [WorkDispatcher.errandStep] at h
      split_ifs at h <;> cases h <;> exact ⟨rfl, rfl⟩
  | signalling q source =>
      cases source <;> cases h <;> exact ⟨rfl, rfl⟩
  | draining i =>
      simp only [WorkDispatcher.errandStep] at h
      split at h
      · cases h
        exact ⟨rfl, rfl⟩
      · split_ifs at h <;> cases h <;> exact ⟨rfl, rfl⟩
  | counting | reviving | revivingSignal =>
      cases h
      exact ⟨rfl, rfl⟩

omit [DecidableEq τ] in
theorem call_flags {call call' : Call n τ ρ β} (h : callStep cfg s call choice = some (s', call')) :
    s'.flags = s.flags := by
  cases call with
  | idle => cases h
  | sending target msg =>
      cases choice <;> simp only [callStep, reduceCtorEq] at h
      split at h <;> cases h <;> rfl
  | errand x =>
      cases choice <;> simp only [callStep, reduceCtorEq] at h
      obtain ⟨⟨d, x'⟩, hErrand, hAfter⟩ := Option.map_eq_some_iff.mp h
      cases hAfter
      obtain ⟨hRunning, hDraining⟩ := errand_flags hErrand
      simp only [Shared.flags, hRunning, hDraining]

omit [NeZero n] [DecidableEq ρ] [DecidableEq τ] in
theorem popFrom_flags (s : Shared n τ ρ β) (q : Fin n) (stolen : Bool)
    (otherwise : WorkerPc n ρ (Envelope τ ρ β)) : (popFrom s q stolen otherwise).1.flags = s.flags := by
  unfold popFrom
  split <;> rfl

/-- A worker changes no flag until it leaves its loop for good. -/
theorem worker_flags {w : Fin n} {pc pc' : WorkerPc n ρ (Envelope τ ρ β)} {call' : Call n τ ρ β}
    (h : workerStep cfg w s pc choice = some (s', pc', call')) :
    s'.flags = s.flags ∨ pc' = .exited ∧ call' = .idle ∧ s' = s.exit w := by
  rcases workerStep_choice h with rfl | ⟨a, pc, user, rfl, rfl⟩ |
    ⟨rfl, -⟩
  · cases pc
    case running a pc =>
      cases pc <;> cases h
      exact .inl rfl
    all_goals simp only [workerStep] at h
    case acquire | spinPopping | woken =>
      cases h
      exact .inl (popFrom_flags ..)
    case stealing i =>
      split_ifs at h <;> cases h
      · exact .inl (popFrom_flags ..)
      · exact .inl rfl
    case exited | parked | reclaiming | waking | emptyHanded =>
      split_ifs at h <;> cases h <;> exact .inl rfl
    case loopDraining =>
      split_ifs at h <;> cases h
      · exact .inl rfl
      · exact .inr ⟨rfl, rfl, rfl⟩
    case exitPending =>
      split_ifs at h <;> cases h
      · exact .inr ⟨rfl, rfl, rfl⟩
      · exact .inl rfl
    case exitRunning =>
      split_ifs at h <;> cases h
      · exact .inl rfl
      · exact .inr ⟨rfl, rfl, rfl⟩
    all_goals
      cases h
      exact .inl rfl
  · simp only [workerStep, Option.map_eq_some_iff, Prod.exists] at h
    obtain ⟨rt, sup, next, request, _, hAfter⟩ := h
    cases request <;> cases hAfter <;> exact .inl rfl
  · exact .inl rfl

/-- Flags change by the controlling thread, or by a worker that ends. -/
theorem step_flags (h : step cfg t s l choice = some (s', l')) :
    s'.flags = s.flags ∧ l'.control = l.control ∨
    (∃ w, t = .worker w ∧ l.call = .idle ∧ l' = { l with worker := .exited } ∧ s' = s.exit w) ∨
    (t = .control ∧ l.call = .idle ∧ ∃ pc', controlStep s l.control choice = some (s', pc') ∧
      l' = { l with control := pc' }) := by
  rcases step_cases h with ⟨w, pc', call', rfl, hCall, hStep, rfl⟩ | ⟨u, call', rfl, hCall, hStep, rfl⟩ |
    ⟨pc', rfl, hCall, hStep, rfl⟩ | ⟨call', _, hStep, rfl⟩
  · rcases worker_flags hStep with hSame | ⟨rfl, rfl, hExit⟩
    · exact .inl ⟨hSame, rfl⟩
    · exact .inr (.inl ⟨w, rfl, hCall, by rw [← hCall], hExit⟩)
  · cases choice <;> cases hStep <;> exact .inl ⟨rfl, rfl⟩
  · exact .inr (.inr ⟨rfl, hCall, pc', hStep, rfl⟩)
  · exact .inl ⟨call_flags hStep, rfl⟩

omit [NeZero n] [DecidableEq ρ] [DecidableEq τ] in
theorem control_running {pc pc' : ControlPc} (h : controlStep s pc choice = some (s', pc'))
    (hAfter : s'.dispatcher.running = true) :
    s.dispatcher.running = true ∨ pc = .idle ∧ choice = .start := by
  cases pc <;> cases choice <;> simp only [controlStep, reduceCtorEq] at h
  case idle.start => exact .inr ⟨rfl, rfl⟩
  case beginDrain.go | dispatcherStop.go =>
    cases h
    cases hAfter
  case idle.launch | drainWake.go | stopWorker.go | joinWorker.go | stopWake.go | stopClear.go =>
    split_ifs at h <;> cases h <;> exact .inl hAfter
  all_goals
    cases h
    exact .inl hAfter

/-- Only `start` sets `running_`. -/
theorem start_of_running (h : step cfg t s l choice = some (s', l'))
    (hBefore : s.dispatcher.running = false) (hAfter : s'.dispatcher.running = true) :
    choice = .start := by
  rcases step_flags h with ⟨hSame, _⟩ | ⟨w, rfl, _, _, rfl⟩ | ⟨rfl, _, pc', hStep, _⟩
  · have hRunning := congrArg Flags.running hSame
    simp [Shared.flags, hBefore, hAfter] at hRunning
  · simp [Shared.exit, hBefore] at hAfter
  · rcases control_running hStep hAfter with hRunning | ⟨_, hStart⟩
    · simp [hBefore] at hRunning
    · exact hStart

end Steps

end ActorSystem
