import V2Engine.System.Threads
import Mathlib.Tactic.SplitIfs

/-! The way of a message: who sends it, who pushes it into a mailbox, and who changes
the runtime of an actor. Every step of the system is one of six kinds here. -/
namespace ActorSystem

open Interleaving

section Kinds

variable {n : Nat} {τ ρ β : Type*} [DecidableEq ρ] [DecidableEq τ]

/-- The call is not a message on its way into a mailbox. -/
def Call.Silent (call : Call n τ ρ β) : Prop := ∀ target msg, call ≠ .sending target msg

/-- The worker enters or leaves the run of an actor only at its first or last place. -/
structure RunKept {ε : Type*} (pc pc' : WorkerPc n ρ ε) : Prop where
  entered : ∀ a run', pc' = .running a run' → pc = .running a run' ∨ run' = .begin
  left : ∀ a run, pc = .running a run → pc' = .running a run ∨ run = .done

omit [DecidableEq ρ] in
theorem RunKept.refl {ε : Type*} (pc : WorkerPc n ρ ε) : RunKept pc pc :=
  ⟨fun _ _ h => .inl h, fun _ _ h => .inl h⟩

/-- What one step of thread `t` does to the mailboxes, the runtimes and the senders'
counts, and where in its code it does it. -/
inductive MailMove (cfg : Setup ρ β) (t : Thread n τ) (s : Shared n τ ρ β) (l : Local n τ ρ β)
    (s' : Shared n τ ρ β) (l' : Local n τ ρ β) : Prop where
  | none (hRuntimes : s'.runtimes = s.runtimes) (hSent : s'.sent = s.sent)
      (hBefore : l.call.Silent) (hAfter : l'.call.Silent) (hRun : RunKept l.worker l'.worker)
  | post (target : ρ) (msg : Envelope τ ρ β) (rt : ActorRuntime (Envelope τ ρ β))
      (hCall : l.call = .sending target msg)
      (hPush : (s.runtimes target).push (cfg.mailboxSize target) msg = some rt)
      (hShared : s' = s.setRuntime target rt)
      (hAfter : l' = { l with call := .errand (.dispatching target) })
  | drop (target : ρ) (msg : Envelope τ ρ β) (hCall : l.call = .sending target msg)
      (hFull : (s.runtimes target).push (cfg.mailboxSize target) msg = none)
      (hShared : s' = s) (hAfter : l' = { l with call := .idle })
  | run (w : Fin n) (a : ρ) (pc pc' : RunPc ρ (Envelope τ ρ β)) (user : RunChoice ρ β)
      (rt : ActorRuntime (Envelope τ ρ β)) (sup : Supervisor ρ)
      (hThread : t = .worker w) (hCall : l.call = .idle) (hPc : l.worker = .running a pc)
      (hStep : runStep cfg.toActorSystemConfig Envelope.body a (s.runtimes a) s.supervisor pc user =
        some (rt, sup, pc', Option.none))
      (hShared : s' = { s.setRuntime a rt with supervisor := sup })
      (hAfter : l' = { l with worker := .running a pc' })
  | request (w : Fin n) (a : ρ) (pc pc' : RunPc ρ (Envelope τ ρ β)) (user : RunChoice ρ β)
      (rt : ActorRuntime (Envelope τ ρ β)) (sup : Supervisor ρ) (target : ρ) (body : β)
      (hThread : t = .worker w) (hCall : l.call = .idle) (hPc : l.worker = .running a pc)
      (hStep : runStep cfg.toActorSystemConfig Envelope.body a (s.runtimes a) s.supervisor pc user =
        some (rt, sup, pc', some (target, body)))
      (hShared : s' = (({ s.setRuntime a rt with supervisor := sup } : Shared n τ ρ β).stamp
        (.actor a) body).2)
      (hAfter : l' = ⟨.sending target ⟨.actor a, s.sent (.actor a), body⟩, .running a pc', l.control⟩)
  | clientSend (u : τ) (target : ρ) (body : β) (hThread : t = .client u) (hCall : l.call = .idle)
      (hShared : s' = (s.stamp (.client u) body).2)
      (hAfter : l' = { l with call := .sending target ⟨.client u, s.sent (.client u), body⟩ })

end Kinds

section Steps

variable {n : Nat} [NeZero n] {τ ρ β : Type*} [DecidableEq ρ] [DecidableEq τ]
  {cfg : Setup ρ β} {t : Thread n τ} {s s' : Shared n τ ρ β} {l l' : Local n τ ρ β}
  {choice : Choice n ρ β}

omit [NeZero n] [DecidableEq ρ] [DecidableEq τ] in
theorem silent_idle : (.idle : Call n τ ρ β).Silent := fun _ _ h => by cases h

omit [NeZero n] [DecidableEq ρ] [DecidableEq τ] in
theorem silent_errand (x : Errand n ρ) : (.errand x : Call n τ ρ β).Silent :=
  fun _ _ h => by cases h

theorem call_mails (hBusy : l.call ≠ .idle) {call' : Call n τ ρ β}
    (h : callStep cfg s l.call choice = some (s', call')) :
    MailMove cfg t s l s' { l with call := call' } := by
  obtain ⟨call, worker, control⟩ := l
  cases call with
  | idle => exact absurd rfl hBusy
  | sending target msg =>
      cases choice <;> simp only [callStep, reduceCtorEq] at h
      cases hPush : (s.runtimes target).push (cfg.mailboxSize target) msg with
      | none =>
          rw [hPush] at h
          cases h
          exact .drop target msg rfl hPush rfl rfl
      | some rt =>
          rw [hPush] at h
          cases h
          exact .post target msg rt rfl hPush rfl rfl
  | errand x =>
      cases choice <;> simp only [callStep, reduceCtorEq] at h
      obtain ⟨⟨d, x'⟩, _, hAfter⟩ := Option.map_eq_some_iff.mp h
      cases hAfter
      refine .none rfl rfl (silent_errand x) ?_ (.refl _)
      cases x' with
      | none => exact silent_idle
      | some x' => exact silent_errand x'

theorem run_mails {w : Fin n} {a : ρ} {pc : RunPc ρ (Envelope τ ρ β)}
    {pc' : WorkerPc n ρ (Envelope τ ρ β)} {call' : Call n τ ρ β} {user : RunChoice ρ β}
    (hCall : l.call = .idle) (hPc : l.worker = .running a pc)
    (h : workerStep cfg w s (.running a pc) (.user user) = some (s', pc', call')) :
    MailMove cfg (.worker w) s l s' { l with worker := pc', call := call' } := by
  simp only [workerStep, Option.map_eq_some_iff, Prod.exists] at h
  obtain ⟨rt, sup, next, request, hRun, hAfter⟩ := h
  cases request with
  | none =>
      cases hAfter
      obtain ⟨call, worker, control⟩ := l
      cases hCall
      exact .run w a pc next user rt sup rfl rfl hPc hRun rfl rfl
  | some request =>
      obtain ⟨target, body⟩ := request
      cases hAfter
      exact .request w a pc next user rt sup target body rfl hCall hPc hRun rfl rfl

/-- The step leaves the actors, the supervisor and the senders' counts alone. -/
structure Shared.Aside (s s' : Shared n τ ρ β) : Prop where
  runtimes : s'.runtimes = s.runtimes
  sent : s'.sent = s.sent
  supervisor : s'.supervisor = s.supervisor

omit [NeZero n] [DecidableEq ρ] [DecidableEq τ] in
theorem popFrom_keeps (s : Shared n τ ρ β) (q : Fin n) (stolen : Bool)
    (otherwise : WorkerPc n ρ (Envelope τ ρ β)) :
    s.Aside (popFrom s q stolen otherwise).1 ∧
      ∀ a run', (popFrom s q stolen otherwise).2 = .running a run' → otherwise = .running a run' := by
  unfold popFrom
  split
  · exact ⟨⟨rfl, rfl, rfl⟩, fun _ _ h => h⟩
  · exact ⟨⟨rfl, rfl, rfl⟩, fun _ _ h => by cases h⟩

/-- Outside of a run the worker leaves the mailboxes, the supervisor and the senders' counts
alone. -/
theorem worker_keeps {w : Fin n} {pc pc' : WorkerPc n ρ (Envelope τ ρ β)} {call' : Call n τ ρ β}
    (hPc : ∀ a run, pc = .running a run → run = .done)
    (h : workerStep cfg w s pc choice = some (s', pc', call')) :
    s.Aside s' ∧ call'.Silent ∧ ∀ a run', pc' = .running a run' → run' = .begin := by
  rcases workerStep_choice h with rfl | ⟨a, pc, user, rfl, rfl⟩ |
    ⟨rfl, rfl, hWait⟩
  · cases pc
    case running a pc =>
      cases hPc a pc rfl
      cases h
      exact ⟨⟨rfl, rfl, rfl⟩, silent_idle, fun _ _ h => by cases h⟩
    all_goals simp only [workerStep] at h
    case acquire | spinPopping | woken =>
      cases h
      obtain ⟨hAside, hRun⟩ := popFrom_keeps s w false _
      refine ⟨hAside, silent_idle, fun a run' hPc' => ?_⟩
      cases hRun a run' hPc'
    case stealing i =>
      split_ifs at h
      · cases h
        obtain ⟨hAside, hRun⟩ := popFrom_keeps s (Fin.ofNat n (w + i)) true (.stealing (i + 1))
        refine ⟨hAside, silent_idle, fun a run' hPc' => ?_⟩
        cases hRun a run' hPc'
      · cases h
        exact ⟨⟨rfl, rfl, rfl⟩, silent_idle, fun _ _ h => by cases h⟩
    case releasingSlot a q ticket stolen =>
      cases h
      refine ⟨⟨rfl, rfl, rfl⟩, silent_idle, fun b run' h => ?_⟩
      cases stolen <;> cases h
      rfl
    case takingPermit a q =>
      cases h
      refine ⟨⟨rfl, rfl, rfl⟩, silent_idle, fun b run' h => ?_⟩
      cases h
      rfl
    case exited | loopDraining | parked | waking | exitPending | exitRunning =>
      split_ifs at h <;> cases h <;>
        exact ⟨⟨rfl, rfl, rfl⟩, silent_idle, fun _ _ h => by cases h⟩
    case reclaiming a =>
      split_ifs at h <;> cases h
      · exact ⟨⟨rfl, rfl, rfl⟩, silent_idle, fun _ _ h => by cases h⟩
      · exact ⟨⟨rfl, rfl, rfl⟩, silent_errand _, fun _ _ h => by cases h⟩
    case emptyHanded =>
      split_ifs at h
      cases h
      exact ⟨⟨rfl, rfl, rfl⟩, silent_errand _, fun _ _ h => by cases h⟩
    case checkDraining | checkPending =>
      cases h
      refine ⟨⟨rfl, rfl, rfl⟩, silent_idle, fun _ _ h => ?_⟩
      unfold spinOrPark at h
      split_ifs at h
    case settling =>
      cases h
      exact ⟨⟨rfl, rfl, rfl⟩, silent_idle, fun _ _ h => by cases h⟩
    all_goals
      cases h
      refine ⟨⟨rfl, rfl, rfl⟩, silent_idle, fun _ _ h => ?_⟩
      split_ifs at h
  · cases hPc a pc rfl
    cases user <;> cases h
  · rcases hWait with ⟨rfl, rfl⟩ | ⟨rfl, rfl⟩ | ⟨rfl, rfl⟩ <;>
      exact ⟨⟨rfl, rfl, rfl⟩, silent_idle, fun _ _ h => by cases h⟩

/-- A worker in a run takes a step of it. -/
theorem worker_runs {w : Fin n} {a : ρ} {run : RunPc ρ (Envelope τ ρ β)}
    {pc' : WorkerPc n ρ (Envelope τ ρ β)} {call' : Call n τ ρ β} (hDone : run ≠ .done)
    (h : workerStep cfg w s (.running a run) choice = some (s', pc', call')) :
    ∃ user rt run' request, choice = .user user ∧ pc' = .running a run' ∧
      runStep cfg.toActorSystemConfig Envelope.body a (s.runtimes a) s.supervisor run user =
        some (rt, s'.supervisor, run', request) ∧ s'.runtimes a = rt := by
  cases choice with
  | user user =>
      simp only [workerStep, Option.map_eq_some_iff, Prod.exists] at h
      obtain ⟨rt, sup, next, request, hRun, hAfter⟩ := h
      cases request <;> cases hAfter <;>
        exact ⟨user, rt, next, _, rfl, rfl, hRun, Function.update_self ..⟩
  | go => cases run <;> first | exact absurd rfl hDone | cases h
  | _ => cases run <;> cases h

theorem worker_mails {w : Fin n} {pc' : WorkerPc n ρ (Envelope τ ρ β)} {call' : Call n τ ρ β}
    (hCall : l.call = .idle) (h : workerStep cfg w s l.worker choice = some (s', pc', call')) :
    MailMove cfg (.worker w) s l s' { l with worker := pc', call := call' } := by
  by_cases hRun : ∃ a run, l.worker = .running a run ∧ run ≠ .done
  · obtain ⟨a, run, hPc, hDone⟩ := hRun
    rw [hPc] at h
    cases choice with
    | user user => exact run_mails hCall hPc h
    | go => cases run <;> first | exact absurd rfl hDone | cases h
    | _ => cases run <;> cases h
  · have hOutside : ∀ a run, l.worker = .running a run → run = .done := by
      intro a run hPc
      by_contra hDone
      exact hRun ⟨a, run, hPc, hDone⟩
    obtain ⟨hAside, hSilent, hBegin⟩ := worker_keeps hOutside h
    refine .none hAside.runtimes hAside.sent (hCall ▸ silent_idle) hSilent ⟨fun a run' hPc' => ?_, ?_⟩
    · exact .inr (hBegin a run' hPc')
    · exact fun a run hPc => .inr (hOutside a run hPc)

omit [NeZero n] [DecidableEq ρ] [DecidableEq τ] in
theorem control_keeps {pc pc' : ControlPc} (h : controlStep s pc choice = some (s', pc')) :
    s.Aside s' := by
  cases pc <;> cases choice <;> simp only [controlStep, reduceCtorEq] at h
  case idle.launch | drainWake.go | stopWorker.go | joinWorker.go | stopWake.go | stopClear.go =>
    split_ifs at h <;> cases h <;> exact ⟨rfl, rfl, rfl⟩
  all_goals
    cases h
    exact ⟨rfl, rfl, rfl⟩

/-- Every step of the system is of one of the six kinds. -/
theorem step_mails (h : step cfg t s l choice = some (s', l')) : MailMove cfg t s l s' l' := by
  rcases step_cases h with ⟨w, pc', call', rfl, hCall, hStep, rfl⟩ | ⟨u, call', rfl, hCall, hStep, rfl⟩ |
    ⟨pc', rfl, hCall, hStep, rfl⟩ | ⟨call', hBusy, hStep, rfl⟩
  · exact worker_mails hCall hStep
  · cases choice <;> cases hStep
    · exact .clientSend u _ _ rfl hCall rfl rfl
    · exact .none rfl rfl (hCall ▸ silent_idle) (silent_errand _) (.refl _)
  · have hAside := control_keeps hStep
    exact .none hAside.runtimes hAside.sent (hCall ▸ silent_idle) (hCall ▸ silent_idle) (.refl _)
  · exact call_mails hBusy hStep

/-- The supervisor only hears of what happens in the runs. -/
theorem step_supervises (h : step cfg t s l choice = some (s', l')) :
    (∃ a run run' user rt request, l.worker = .running a run ∧ l'.worker = .running a run' ∧
      runStep cfg.toActorSystemConfig Envelope.body a (s.runtimes a) s.supervisor run user =
        some (rt, s'.supervisor, run', request) ∧ s'.runtimes a = rt) ∨
    (s'.supervisor = s.supervisor ∧ RunKept l.worker l'.worker) := by
  rcases step_cases h with ⟨w, pc', call', rfl, _, hStep, rfl⟩ | ⟨u, call', rfl, _, hStep, rfl⟩ |
    ⟨pc', rfl, _, hStep, rfl⟩ | ⟨call', _, hStep, rfl⟩
  · by_cases hRun : ∃ a run, l.worker = .running a run ∧ run ≠ .done
    · obtain ⟨a, run, hPc, hDone⟩ := hRun
      rw [hPc] at hStep
      obtain ⟨user, rt, run', request, _, rfl, hStep, hRuntime⟩ := worker_runs hDone hStep
      exact .inl ⟨a, run, run', user, rt, request, hPc, rfl, hStep, hRuntime⟩
    · have hOutside : ∀ a run, l.worker = .running a run → run = .done := by
        intro a run hPc
        by_contra hDone
        exact hRun ⟨a, run, hPc, hDone⟩
      obtain ⟨hAside, _, hBegin⟩ := worker_keeps hOutside hStep
      exact .inr ⟨hAside.supervisor, fun a run' hPc' => .inr (hBegin a run' hPc'),
        fun a run hPc => .inr (hOutside a run hPc)⟩
  · refine .inr ⟨?_, .refl _⟩
    cases choice <;> cases hStep <;> rfl
  · exact .inr ⟨(control_keeps hStep).supervisor, .refl _⟩
  · refine .inr ⟨?_, .refl _⟩
    generalize l.call = call at hStep
    cases call <;> cases choice <;> simp only [callStep, reduceCtorEq] at hStep
    · split at hStep <;> cases hStep <;> rfl
    · obtain ⟨after, _, hAfter⟩ := Option.map_eq_some_iff.mp hStep
      cases hAfter
      rfl

end Steps

end ActorSystem
