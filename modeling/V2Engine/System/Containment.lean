import V2Engine.Runtime.Returning
import V2Engine.System.Mailboxes

/-! An actor's failure stays within its run: `ActorRuntime::run` comes back to the
worker's loop, and settles the actor's token once, as long as no `close` that `shutdown`
calls from a handler of `processBatch` throws. -/
namespace ActorSystem

open Interleaving

variable {n : Nat} {τ ρ β : Type*}

/-- The actor whose `run` the worker is in. -/
def WorkerPc.runs? {ε : Type*} : WorkerPc n ρ ε → Option ρ
  | .running a _ => some a
  | _ => none

/-- The actor whose token the worker starts to settle. -/
def WorkerPc.settles? {ε : Type*} : WorkerPc n ρ ε → Option ρ
  | .settling a => some a
  | _ => none

/-- The actor whose exception has left the worker's thread. -/
def WorkerPc.terminated? {ε : Type*} : WorkerPc n ρ ε → Option ρ
  | .running a .terminated => some a
  | _ => none

theorem terminated_of_terminated? {ε : Type*} {pc : WorkerPc n ρ ε} {a : ρ}
    (h : pc.terminated? = some a) : pc = .running a .terminated := by
  cases pc with
  | running b run =>
      cases run <;> cases h
      rfl
  | _ => cases h

/-- The step is the one by which an exception leaves `processBatch`. -/
def WorkerPc.escapes {ε : Type*} : WorkerPc n ρ ε → Choice n ρ β → Bool
  | .running _ pc, .user user => pc.escapes user
  | _, _ => false

/-- No `close` that `shutdown` calls from a handler of `processBatch` throws. -/
def closesQuietly (c : Config (Thread n τ) (Shared n τ ρ β) (Local n τ ρ β)) (t : Thread n τ)
    (choice : Choice n ρ β) : Prop :=
  (c.here t).worker.escapes choice = false

instance (c : Config (Thread n τ) (Shared n τ ρ β) (Local n τ ρ β)) (t : Thread n τ)
    (choice : Choice n ρ β) : Decidable (closesQuietly c t choice) :=
  inferInstanceAs (Decidable (_ = _))

section Steps

variable [NeZero n] [DecidableEq ρ] [DecidableEq τ] {cfg : Setup ρ β} {t : Thread n τ}
  {s s' : Shared n τ ρ β} {l l' : Local n τ ρ β} {choice : Choice n ρ β}

omit [NeZero n] [DecidableEq ρ] [DecidableEq τ] in
theorem popFrom_settles (s : Shared n τ ρ β) (q : Fin n) (stolen : Bool)
    {otherwise : WorkerPc n ρ (Envelope τ ρ β)} (h : otherwise.settles? = none) :
    (popFrom s q stolen otherwise).2.settles? = none := by
  unfold popFrom
  split
  · exact h
  · rfl

/-- `settleToken` is called at the end of `run`, and nowhere else. -/
theorem worker_settles {w : Fin n} {pc pc' : WorkerPc n ρ (Envelope τ ρ β)} {call' : Call n τ ρ β}
    (h : workerStep cfg w s pc choice = some (s', pc', call')) :
    pc'.settles? = none ∨ ∃ a, pc = .running a .done ∧ pc' = .settling a := by
  rcases workerStep_choice h with rfl | ⟨a, pc, user, rfl, rfl⟩ |
    ⟨rfl, rfl, hWait⟩
  · cases pc
    case running a pc =>
      cases pc <;> cases h
      exact .inr ⟨a, rfl, rfl⟩
    all_goals simp only [workerStep] at h
    all_goals refine .inl ?_
    case acquire | spinPopping | woken =>
      cases h
      exact popFrom_settles _ _ _ rfl
    case stealing i =>
      split_ifs at h <;> cases h
      · exact popFrom_settles _ _ _ rfl
      · rfl
    case exited | loopDraining | parked | reclaiming | waking | emptyHanded |
        exitPending | exitRunning =>
      split_ifs at h <;> cases h <;> rfl
    case checkDraining | checkPending =>
      cases h
      unfold spinOrPark
      split_ifs <;> rfl
    case loop | waitRunning | waitDraining | spinning | releasingSlot | rechecking |
        recounting | retiring | retired | exitDraining =>
      cases h
      split <;> rfl
    all_goals
      cases h
      rfl
  · simp only [workerStep, Option.map_eq_some_iff, Prod.exists] at h
    obtain ⟨rt, sup, next, request, _, hAfter⟩ := h
    cases request <;> cases hAfter <;> exact .inl rfl
  · rcases hWait with ⟨rfl, rfl⟩ | ⟨rfl, rfl⟩ | ⟨rfl, rfl⟩ <;> exact .inl rfl

/-- The worker leaves a finished run for `settleToken`. -/
theorem settles_of_done {w : Fin n} {a : ρ} {pc' : WorkerPc n ρ (Envelope τ ρ β)} {call' : Call n τ ρ β}
    (h : workerStep cfg w s (.running a .done) choice = some (s', pc', call')) : pc' = .settling a := by
  cases choice with
  | go =>
      cases h
      rfl
  | user user => cases user <;> cases h
  | _ => cases h

omit [NeZero n] [DecidableEq ρ] [DecidableEq τ] in
theorem running_of_runs? {pc : WorkerPc n ρ (Envelope τ ρ β)} {a : ρ} (h : pc.runs? = some a) :
    ∃ run, pc = .running a run := by
  cases pc <;> cases h
  exact ⟨_, rfl⟩

/-- A worker comes to a terminated run only by an exception out of `shutdown`. -/
theorem escapes_of_terminated {w : Fin n} {pc : WorkerPc n ρ (Envelope τ ρ β)} {a : ρ}
    {call' : Call n τ ρ β}
    (h : workerStep cfg w s pc choice = some (s', .running a .terminated, call')) :
    ∃ b run user, pc = .running b run ∧ choice = .user user ∧ run.escapes user = true := by
  by_cases hRuns : ∃ b run, pc = .running b run
  · obtain ⟨b, run, rfl⟩ := hRuns
    cases choice with
    | user user =>
        refine ⟨b, run, user, rfl, rfl, ?_⟩
        by_contra hContained
        rw [Bool.not_eq_true] at hContained
        simp only [workerStep, Option.map_eq_some_iff, Prod.exists] at h
        obtain ⟨rt, sup, next, request, hRun, hAfter⟩ := h
        apply runStep_survives hRun hContained
        cases request <;> cases hAfter <;> rfl
    | _ => cases run <;> cases h
  · have hOutside : ∀ b run, pc = .running b run → run = .done := fun b run hPc => absurd ⟨b, run, hPc⟩ hRuns
    have hBegin := (worker_keeps hOutside h).2.2 a .terminated rfl
    cases hBegin

/-- How a step of a thread brackets the runs of actor `a`: it enters the run of `a`, stays
in it, or leaves it for `settleToken`. -/
inductive Bracket (a : ρ) (pc pc' : WorkerPc n ρ (Envelope τ ρ β)) : Prop where
  | outside (hRun : pc.runs? ≠ some a) (hRun' : pc'.runs? ≠ some a) (hSettle' : pc'.settles? ≠ some a)
  | same (h : pc' = pc)
  | enters (hRun : pc.runs? ≠ some a) (h : pc' = .running a .begin)
  | inside (hRun : pc.runs? = some a) (hRun' : pc'.runs? = some a)
  | settles (h : pc = .running a .done) (h' : pc' = .settling a)

theorem step_brackets (h : step cfg t s l choice = some (s', l')) (a : ρ) :
    Bracket a l.worker l'.worker := by
  cases step_mails h with
  | post _ _ _ _ _ _ hAfter | drop _ _ _ _ _ hAfter | clientSend _ _ _ _ _ _ hAfter =>
      rw [hAfter]
      exact .same rfl
  | run w b pc pc' _ _ _ _ _ hPc _ _ hAfter | request w b pc pc' _ _ _ _ _ _ _ hPc _ _ hAfter =>
      rw [hPc, hAfter]
      by_cases hb : b = a
      · exact .inside (congrArg some hb) (congrArg some hb)
      · have hOther : (some b : Option ρ) ≠ some a := fun h => hb (Option.some.inj h)
        exact .outside hOther hOther nofun
  | none _ _ _ _ hKept =>
      rcases step_cases h with ⟨w, pc', call', rfl, _, hStep, rfl⟩ | ⟨_, _, _, _, _, rfl⟩ |
        ⟨_, _, _, _, rfl⟩ | ⟨_, _, _, rfl⟩
      · rcases worker_settles hStep with hNone | ⟨b, hPc, rfl⟩
        · by_cases hRun : l.worker.runs? = some a
          · obtain ⟨run, hPc⟩ := running_of_runs? hRun
            rcases hKept.left a run hPc with hSame | rfl
            · exact .inside hRun (congrArg WorkerPc.runs? hSame)
            · rw [hPc] at hStep
              rw [settles_of_done hStep] at hNone
              cases hNone
          · by_cases hRun' : pc'.runs? = some a
            · obtain ⟨run', hPc'⟩ := running_of_runs? hRun'
              rcases hKept.entered a run' hPc' with hSame | rfl
              · exact absurd (congrArg WorkerPc.runs? hSame) hRun
              · exact .enters hRun hPc'
            · refine .outside hRun hRun' fun hSettles => ?_
              rw [hNone] at hSettles
              cases hSettles
        · by_cases hb : b = a
          · subst hb
            exact .settles hPc rfl
          · have hOther : (some b : Option ρ) ≠ some a := fun h => hb (Option.some.inj h)
            rw [hPc]
            exact .outside hOther nofun hOther
      · exact .same rfl
      · exact .same rfl
      · exact .same rfl

end Steps

section Runs

variable [NeZero n] [DecidableEq ρ] [DecidableEq τ] {cfg : Setup ρ β}
  {c : Config (Thread n τ) (Shared n τ ρ β) (Local n τ ρ β)}
  {allowed : Config (Thread n τ) (Shared n τ ρ β) (Local n τ ρ β) → Thread n τ →
    Choice n ρ β → Prop} {w : Fin n} {a : ρ}

/-- A run of the system together with what worker `w` has done in it for actor `a`:
calls of `run`, and calls of `settleToken`. -/
inductive Tally (cfg : Setup ρ β) (allowed : Config (Thread n τ) (Shared n τ ρ β) (Local n τ ρ β) →
    Thread n τ → Choice n ρ β → Prop) (w : Fin n) (a : ρ) :
    Config (Thread n τ) (Shared n τ ρ β) (Local n τ ρ β) → Nat → Nat → Prop where
  | start : Tally cfg allowed w a (initial cfg) 0 0
  | step {c d : Config (Thread n τ) (Shared n τ ρ β) (Local n τ ρ β)} {t : Thread n τ}
      {choice : Choice n ρ β} {runs settles : Nat} (prior : Tally cfg allowed w a c runs settles)
      (admitted : allowed c t choice) (last : (step cfg).next c t choice = some d) :
      Tally cfg allowed w a d
        (runs + if (c.here (.worker w)).worker.runs? ≠ some a ∧
          (d.here (.worker w)).worker.runs? = some a then 1 else 0)
        (settles + if (c.here (.worker w)).worker.settles? ≠ some a ∧
          (d.here (.worker w)).worker.settles? = some a then 1 else 0)

theorem Tally.reach {runs settles : Nat} (tally : Tally cfg allowed w a c runs settles) :
    RunsTo cfg allowed c := by
  induction tally with
  | start => exact .start rfl
  | step prior admitted last ih => exact .step ih admitted last

theorem exists_tally (reach : RunsTo cfg allowed c) (w : Fin n) (a : ρ) :
    ∃ runs settles, Tally cfg allowed w a c runs settles := by
  induction reach with
  | start h =>
      subst h
      exact ⟨0, 0, .start⟩
  | step prior admitted last ih =>
      obtain ⟨runs, settles, tally⟩ := ih
      exact ⟨_, _, .step tally admitted last⟩

omit [NeZero n] [DecidableEq τ] in
theorem Bracket.balance {pc pc' : WorkerPc n ρ (Envelope τ ρ β)} (bracket : Bracket a pc pc')
    {runs settles : Nat} (hBalance : runs = settles + if pc.runs? = some a then 1 else 0) :
    (runs + if pc.runs? ≠ some a ∧ pc'.runs? = some a then 1 else 0) =
      (settles + if pc.settles? ≠ some a ∧ pc'.settles? = some a then 1 else 0) +
        if pc'.runs? = some a then 1 else 0 := by
  cases bracket with
  | outside hRun hRun' hSettle' => simp [hBalance, hRun, hRun', hSettle']
  | same h => simp [hBalance, h]
  | enters hRun h =>
      have hRun' : pc'.runs? = some a := congrArg WorkerPc.runs? h
      have hSettle' : pc'.settles? = none := congrArg WorkerPc.settles? h
      simp [hBalance, hRun, hRun', hSettle']
  | inside hRun hRun' =>
      obtain ⟨run, rfl⟩ := running_of_runs? hRun
      obtain ⟨run', rfl⟩ := running_of_runs? hRun'
      simp [hBalance, WorkerPc.runs?, WorkerPc.settles?]
  | settles h h' => simp [hBalance, h, h', WorkerPc.runs?, WorkerPc.settles?]

theorem Tally.balance {runs settles : Nat} (tally : Tally cfg allowed w a c runs settles) :
    runs = settles + if (c.here (.worker w)).worker.runs? = some a then 1 else 0 := by
  induction tally with
  | start => rfl
  | @step c d t choice runs settles prior admitted last ih =>
      obtain ⟨shared, place, hLocal, rfl⟩ := Program.next_eq_some.mp last
      refine Bracket.balance ?_ ih
      by_cases ht : .worker w = t
      · subst ht
        simpa using step_brackets hLocal a
      · simp only [Function.update_of_ne ht]
        exact .same rfl

theorem survives (reach : RunsTo cfg closesQuietly c) (t : Thread n τ) (a : ρ) :
    (c.here t).worker ≠ .running a .terminated := by
  refine Reach.invariant (I := fun c => (c.here t).worker ≠ .running a .terminated) ?_ ?_ reach
  · rintro c rfl
    nofun
  · intro c u choice shared place _ hInv hQuiet hLocal
    by_cases hu : t = u
    · subst hu
      simp only [Function.update_self]
      rcases step_cases hLocal with ⟨w, pc', call', rfl, _, hStep, rfl⟩ | ⟨_, _, _, _, _, rfl⟩ |
        ⟨_, _, _, _, rfl⟩ | ⟨_, _, _, rfl⟩
      · rintro rfl
        obtain ⟨b, run, user, hPc, rfl, hEscapes⟩ := escapes_of_terminated hStep
        simp only [closesQuietly, hPc, WorkerPc.escapes, hEscapes, Bool.true_eq_false] at hQuiet
      · exact hInv
      · exact hInv
      · exact hInv
    · simpa only [Function.update_of_ne hu] using hInv

/-- The run of actor `a` by worker `w`, and the settling of its token. -/
structure Contained (cfg : Setup ρ β) (w : Fin n) (a : ρ) (runs settles : Nat)
    (c : Config (Thread n τ) (Shared n τ ρ β) (Local n τ ρ β)) : Prop where
  survives : (c.here (.worker w)).worker ≠ .running a .terminated
  returns : ∀ pc arriving, (c.here (.worker w)).worker = .running a pc →
    Inevitable (RunView.Move cfg.toActorSystemConfig Envelope.body a) (fun v => v.pc = .done)
      ⟨c.shared.runtimes a, pc, arriving⟩
  settled : runs = settles + if (c.here (.worker w)).worker.runs? = some a then 1 else 0

/-- As long as no `close` throws out of `shutdown` in a handler, each call of `run`
comes back to the worker's loop and settles the actor's token once. -/
theorem failures_contained {runs settles : Nat} (tally : Tally cfg closesQuietly w a c runs settles) :
    Contained cfg w a runs settles c where
  survives := survives tally.reach _ a
  returns _ _ hPc := run_returns _ fun hTerminated =>
    survives tally.reach (.worker w) a (hPc.trans (congrArg (WorkerPc.running a) hTerminated))
  settled := tally.balance

/-- The worker takes actor 0 and its handling of the message throws. -/
def throwing : List (Thread 1 Unit × Choice 1 (Fin 3) Bool) := List.flatten
  [[(.control, .start)], sendTo 0 4, [(.control, .launch 0)], List.replicate 4 (.worker 0, .go),
    List.replicate 3 (.worker 0, .user .go), [(.worker 0, .user (.throws .opened))],
    List.replicate 3 (.worker 0, .user .go)]

/-- The actor is restarted, and the run comes to its end. -/
def restarting : List (Thread 1 Unit × Choice 1 (Fin 3) Bool) := List.flatten
  [throwing, [(.worker 0, .user (.returns .closed)), (.worker 0, .user (.returns .opened))],
    List.replicate 2 (.worker 0, .user .go), List.replicate 5 (.worker 0, .go)]

def afterRestarting : Config (Thread 1 Unit) (Shared 1 Unit (Fin 3) Bool) (Local 1 Unit (Fin 3) Bool) :=
  ((step sample).replay closesQuietly (initial sample) restarting).get (by decide +kernel)

theorem failures_contained_restarting :
    ∃ runs settles, Contained sample 0 0 runs settles afterRestarting := by
  have reach : RunsTo sample closesQuietly afterRestarting :=
    Reach.replay (.start rfl) (Option.some_get _).symm
  obtain ⟨runs, settles, tally⟩ := exists_tally reach 0 0
  exact ⟨runs, settles, failures_contained tally⟩

/-- No restarts: a failure shuts the actor down. -/
def brittle : Setup (Fin 3) Bool := { sample with strategy := fun _ => .none }

def afterCloseThrows : Config (Thread 1 Unit) (Shared 1 Unit (Fin 3) Bool) (Local 1 Unit (Fin 3) Bool) :=
  ((step brittle).replay anyStep (initial brittle) (throwing ++ [(.worker 0, .user (.throws .opened))])).get
    (by decide +kernel)

/-- The exception of `close` has left the worker's thread. -/
theorem not_contained_afterCloseThrows : Reachable brittle afterCloseThrows ∧
    ∀ runs settles, ¬Contained brittle 0 0 runs settles afterCloseThrows := by
  refine ⟨Reach.replay (.start rfl) (Option.some_get _).symm, fun runs settles contained => ?_⟩
  have hTerminated : (afterCloseThrows.here (.worker 0)).worker.terminated? = some 0 := by
    decide +kernel
  exact contained.survives (terminated_of_terminated? hTerminated)

end Runs

end ActorSystem
