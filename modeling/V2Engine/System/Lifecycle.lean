import V2Engine.System.Flags
import V2Engine.System.Mutex

/-! Starting and stopping the system: which workers there are, and what the flags say,
at each place of `ActorSystem::start` and `ActorSystem::stop`. -/
namespace ActorSystem

open Interleaving

variable {n : Nat} {τ ρ β : Type*}

/-- The worker has found the dispatcher stopped or drained and is about to give up. -/
def WorkerPc.GivesUp {ε : Type*} : WorkerPc n ρ ε → Prop
  | .waitDraining | .checkPending | .emptyHanded | .exitDraining | .exitPending | .exitRunning => True
  | _ => False

/-- The calls that a worker makes, and where it makes them. -/
inductive Calling {ε : Type*} : WorkerPc n ρ ε → Call n τ ρ β → Prop where
  | idle (pc : WorkerPc n ρ ε) : Calling pc .idle
  | sending (a : ρ) (pc : RunPc ρ ε) (target : ρ) (msg : Envelope τ ρ β) :
      Calling (.running a pc) (.sending target msg)
  | dispatch (a : ρ) (pc : RunPc ρ ε) (x : Errand n ρ) (h : Errand.drains x = false) :
      Calling (.running a pc) (.errand x)
  | redispatch (x : Errand n ρ) (h : Errand.drains x = false) : Calling .loop (.errand x)
  | drain (x : Errand n ρ) (h : Errand.drains x = true) : Calling .exitDraining (.errand x)

/-- What the flags are at each place of the controlling thread. -/
def Flags.Fit (flags : Flags n) : ControlPc → Prop
  | .idle => flags.draining = false ∧
      ∀ w, flags.live w = true → flags.running = true ∧ flags.workerRunning w = true
  | .beginDrain => flags.draining = false ∧
      ∀ w, flags.live w = true → flags.running = true ∧ flags.workerRunning w = true
  | .drainStore => flags.draining = false ∧ ∀ w, flags.live w = true → flags.workerRunning w = true
  | .drainWake _ => flags.draining = true
  | .stopWorker i | .joinWorker i => flags.draining = true ∧ ∀ w : Fin n, w < i → flags.live w = false
  | .dispatcherStop | .stopDraining => ∀ w, flags.live w = false
  | .stopWake _ | .stopClear => flags.draining = false ∧ ∀ w, flags.live w = false

theorem Flags.Fit.exit {flags : Flags n} {pc : ControlPc} (h : flags.Fit pc) (w : Fin n) :
    (flags.exit w).Fit pc := by
  have hLess : ∀ u, (flags.exit w).live u = true → flags.live u = true := by
    intro u hLive
    by_cases hu : u = w
    · subst hu
      simp [Flags.exit] at hLive
    · simpa [Flags.exit, Function.update_of_ne hu] using hLive
  have hMore : ∀ u, flags.live u = false → (flags.exit w).live u = false := by
    intro u hDead
    by_contra hLive
    rw [hLess u (by simpa using hLive)] at hDead
    cases hDead
  cases pc with
  | idle | beginDrain | drainStore => exact ⟨h.1, fun u hLive => h.2 u (hLess u hLive)⟩
  | drainWake => exact h
  | stopWorker | joinWorker => exact ⟨h.1, fun u hu => hMore u (h.2 u hu)⟩
  | dispatcherStop | stopDraining => exact fun u => hMore u (h u)
  | stopWake | stopClear => exact ⟨h.1, fun u => hMore u (h.2 u)⟩

/-- A worker that is told to stop while there are workers finds the dispatcher draining. -/
theorem Flags.Fit.draining {flags : Flags n} {pc : ControlPc} (h : flags.Fit pc) {w : Fin n}
    (hLive : flags.live w = true) (hStopped : flags.workerRunning w = false) :
    flags.draining = true := by
  cases pc with
  | idle | beginDrain =>
      rw [(h.2 w hLive).2] at hStopped
      cases hStopped
  | drainStore =>
      rw [h.2 w hLive] at hStopped
      cases hStopped
  | drainWake => exact h
  | stopWorker | joinWorker => exact h.1
  | dispatcherStop | stopDraining =>
      rw [h w] at hLive
      cases hLive
  | stopWake | stopClear =>
      rw [h.2 w] at hLive
      cases hLive

section Steps

variable [NeZero n] [DecidableEq ρ] [DecidableEq τ] {cfg : Setup ρ β} {t : Thread n τ}
  {s s' : Shared n τ ρ β} {l l' : Local n τ ρ β} {choice : Choice n ρ β}

omit [NeZero n] [DecidableEq ρ] [DecidableEq τ] in
theorem popFrom_worker {q : Fin n} {stolen : Bool} {otherwise : WorkerPc n ρ (Envelope τ ρ β)}
    (P : WorkerPc n ρ (Envelope τ ρ β) → Prop) (hPopped : ∀ a ticket, P (.releasingSlot a q ticket stolen))
    (hOtherwise : P otherwise) : P (popFrom s q stolen otherwise).2 := by
  unfold popFrom
  split
  · exact hOtherwise
  · exact hPopped _ _

/-- While the dispatcher runs and does not drain, no worker comes to give up. -/
theorem worker_patient {w : Fin n} {pc pc' : WorkerPc n ρ (Envelope τ ρ β)} {call' : Call n τ ρ β}
    (h : workerStep cfg w s pc choice = some (s', pc', call')) (hRunning : s.dispatcher.running = true)
    (hDraining : s.dispatcher.draining = false) (hPatient : ¬pc.GivesUp) : ¬pc'.GivesUp := by
  rcases workerStep_choice h with rfl | ⟨a, pc, user, rfl, rfl⟩ |
    ⟨rfl, rfl, hWait⟩
  · cases pc
    case running a pc =>
      cases pc <;> cases h
      exact id
    all_goals simp only [workerStep, hRunning, hDraining, if_true, Bool.false_eq_true,
      if_false] at h
    case waitDraining | checkPending | emptyHanded | exitDraining | exitPending |
        exitRunning => exact absurd trivial hPatient
    case acquire | spinPopping | woken =>
      cases h
      exact popFrom_worker (fun pc => ¬pc.GivesUp) (fun _ _ => id) id
    case stealing i =>
      split_ifs at h <;> cases h
      · exact popFrom_worker (fun pc => ¬pc.GivesUp) (fun _ _ => id) id
      · exact id
    case checkDraining =>
      cases h
      unfold spinOrPark
      split <;> exact id
    case exited | parked | reclaiming | waking =>
      split_ifs at h <;> cases h <;> exact id
    case loop | releasingSlot | rechecking | recounting | retiring =>
      cases h
      split <;> exact id
    all_goals
      cases h
      exact id
  · simp only [workerStep, Option.map_eq_some_iff, Prod.exists] at h
    obtain ⟨rt, sup, next, request, _, hAfter⟩ := h
    cases request <;> cases hAfter <;> exact id
  · rcases hWait with ⟨rfl, rfl⟩ | ⟨rfl, rfl⟩ | ⟨rfl, rfl⟩ <;> exact id

/-- The worker is told to stop or has stopped. -/
def WorkerPc.leaves {ε : Type*} : WorkerPc n ρ ε → Bool
  | .loopDraining | .exited => true
  | _ => false

/-- What a worker has seen where it looks at `draining_` in its loop's condition and
where it leaves the loop, and which call it makes. -/
structure Sees (w : Fin n) (s : Shared n τ ρ β) (pc pc' : WorkerPc n ρ (Envelope τ ρ β))
    (call' : Call n τ ρ β) : Prop where
  told : pc' = .loopDraining → s.workerRunning w = false
  left : pc' = .exited → pc = .loopDraining ∧ s.dispatcher.draining = false ∨
    pc = .exitPending ∧ s.dispatcher.pendingWork = 0 ∨ pc = .exitRunning ∧ s.workerRunning w = false
  calling : Calling pc' call'

omit [NeZero n] [DecidableEq ρ] [DecidableEq τ] in
theorem Sees.elsewhere {w : Fin n} {pc pc' : WorkerPc n ρ (Envelope τ ρ β)} {call' : Call n τ ρ β}
    (hPc' : pc'.leaves = false) (hCall : Calling pc' call') : Sees w s pc pc' call' := by
  constructor
  · rintro rfl
    cases hPc'
  · rintro rfl
    cases hPc'
  · exact hCall

theorem worker_sees {w : Fin n} {pc pc' : WorkerPc n ρ (Envelope τ ρ β)} {call' : Call n τ ρ β}
    (h : workerStep cfg w s pc choice = some (s', pc', call')) : Sees w s pc pc' call' := by
  rcases workerStep_choice h with rfl | ⟨a, pc, user, rfl, rfl⟩ |
    ⟨rfl, rfl, hWait⟩
  · cases pc
    case running a pc =>
      cases pc <;> cases h
      exact .elsewhere rfl (.idle _)
    all_goals simp only [workerStep] at h
    case loop =>
      cases h
      split
      · exact .elsewhere rfl (.idle _)
      · exact ⟨fun _ => eq_false_of_ne_true (by assumption), by simp, .idle _⟩
    case loopDraining =>
      split_ifs at h with hDraining <;> cases h
      · exact .elsewhere rfl (.idle _)
      · exact ⟨by simp, fun _ => .inl ⟨rfl, eq_false_of_ne_true hDraining⟩, .idle _⟩
    case exitPending =>
      split_ifs at h with hPending <;> cases h
      · exact ⟨by simp, fun _ => .inr (.inl ⟨rfl, hPending⟩), .idle _⟩
      · exact .elsewhere rfl (.idle _)
    case exitRunning =>
      split_ifs at h with hRunning <;> cases h
      · exact .elsewhere rfl (.idle _)
      · exact ⟨by simp, fun _ => .inr (.inr ⟨rfl, eq_false_of_ne_true hRunning⟩), .idle _⟩
    case acquire | spinPopping | woken =>
      cases h
      exact popFrom_worker (fun pc' => Sees w s _ pc' .idle) (fun _ _ => .elsewhere rfl (.idle _))
        (.elsewhere rfl (.idle _))
    case stealing i =>
      split_ifs at h <;> cases h
      · exact popFrom_worker (fun pc' => Sees w s _ pc' .idle) (fun _ _ => .elsewhere rfl (.idle _))
          (.elsewhere rfl (.idle _))
      · exact .elsewhere rfl (.idle _)
    case checkDraining | checkPending =>
      cases h
      unfold spinOrPark
      split_ifs <;> exact .elsewhere rfl (.idle _)
    case reclaiming =>
      split_ifs at h <;> cases h
      · exact .elsewhere rfl (.idle _)
      · exact .elsewhere rfl (.redispatch _ rfl)
    case emptyHanded =>
      split_ifs at h
      cases h
      exact .elsewhere rfl (.drain _ rfl)
    case exited | parked | waking =>
      split_ifs at h <;> cases h <;> exact .elsewhere rfl (.idle _)
    case releasingSlot | waitRunning | waitDraining | spinning | rechecking |
        recounting | retiring | retired | exitDraining =>
      cases h
      split <;> exact .elsewhere rfl (.idle _)
    all_goals
      cases h
      exact .elsewhere rfl (.idle _)
  · simp only [workerStep, Option.map_eq_some_iff, Prod.exists] at h
    obtain ⟨rt, sup, next, request, _, hAfter⟩ := h
    cases request <;> cases hAfter
    · exact .elsewhere rfl (.idle _)
    · exact .elsewhere rfl (.sending ..)
  · rcases hWait with ⟨rfl, rfl⟩ | ⟨rfl, rfl⟩ | ⟨rfl, rfl⟩ <;> exact .elsewhere rfl (.idle _)

omit [DecidableEq ρ] [DecidableEq τ] in
theorem errand_drains {d d' : WorkDispatcher n ρ} {load : Nat → Fin n → Nat} {x x' : Errand n ρ}
    (h : d.errandStep cfg.dispatcher cfg.actorId load x = some (d', some x')) :
    Errand.drains x' = Errand.drains x := by
  cases x with
  | dispatching | entering | parking =>
      simp only [WorkDispatcher.errandStep] at h
      split_ifs at h <;> cases h <;> rfl
  | signalling q source =>
      cases source <;> cases h
      rfl
  | draining i =>
      simp only [WorkDispatcher.errandStep] at h
      split at h
      · cases h
      · split_ifs at h <;> cases h <;> rfl
  | counting => cases h
  | reviving | revivingSignal =>
      cases h
      rfl

omit [DecidableEq τ] in
/-- A call stays where it was made. -/
theorem Calling.step {pc : WorkerPc n ρ (Envelope τ ρ β)} {call call' : Call n τ ρ β}
    (hCalling : Calling pc call) (h : callStep cfg s call choice = some (s', call')) :
    Calling pc call' := by
  cases hCalling with
  | idle => cases h
  | sending a run target msg =>
      cases choice <;> simp only [callStep, reduceCtorEq] at h
      split at h <;> cases h
      · exact .idle _
      · exact .dispatch a run _ rfl
  | dispatch _ _ x hDrains | redispatch x hDrains | drain x hDrains =>
      cases choice <;> simp only [callStep, reduceCtorEq] at h
      obtain ⟨⟨d, x'⟩, hErrand, hAfter⟩ := Option.map_eq_some_iff.mp h
      cases hAfter
      cases x' with
      | none => exact .idle _
      | some x' =>
          have hSame := (errand_drains hErrand).trans hDrains
          constructor
          exact hSame

omit [NeZero n] [DecidableEq ρ] [DecidableEq τ] in
/-- Threads of workers end by themselves, the controlling thread only starts them. -/
theorem control_live {pc pc' : ControlPc} (h : controlStep s pc choice = some (s', pc')) (w : Fin n)
    (hLive : s.live w = true) : s'.live w = true := by
  cases pc <;> cases choice <;> simp only [controlStep, reduceCtorEq] at h
  case idle.launch u =>
    split_ifs at h with hDead
    cases h
    by_cases hw : w = u
    · subst hw
      simp
    · simpa [Function.update_of_ne hw] using hLive
  case drainWake.go | stopWorker.go | joinWorker.go | stopWake.go | stopClear.go =>
    split_ifs at h <;> cases h <;> exact hLive
  all_goals
    cases h
    exact hLive

omit [NeZero n] [DecidableEq ρ] [DecidableEq τ] in
/-- A worker that is told to stop is not told otherwise while its thread is there. -/
theorem control_told {pc pc' : ControlPc} (h : controlStep s pc choice = some (s', pc')) {w : Fin n}
    (hLive : s.live w = true) (hTold : s.workerRunning w = false) : s'.workerRunning w = false := by
  cases pc <;> cases choice <;> simp only [controlStep, reduceCtorEq] at h
  case idle.launch u =>
    split_ifs at h with hDead
    cases h
    have hw : w ≠ u := by
      rintro rfl
      exact hDead hLive
    simpa [Function.update_of_ne hw] using hTold
  case stopWorker.go i =>
    split_ifs at h with hMore <;> cases h
    · by_cases hw : w = ⟨i, hMore⟩
      · subst hw
        simp
      · simpa [Function.update_of_ne hw] using hTold
    · exact hTold
  case drainWake.go | joinWorker.go | stopWake.go | stopClear.go =>
    split_ifs at h <;> cases h <;> exact hTold
  all_goals
    cases h
    exact hTold

end Steps

section Runs

variable [NeZero n] [DecidableEq ρ] [DecidableEq τ] {cfg : Setup ρ β}
  {c : Config (Thread n τ) (Shared n τ ρ β) (Local n τ ρ β)}
  {allowed : Config (Thread n τ) (Shared n τ ρ β) (Local n τ ρ β) → Thread n τ →
    Choice n ρ β → Prop}

/-- The controlling thread is in no call. -/
theorem control_idle (reach : RunsTo cfg allowed c) : (c.here .control).call = .idle := by
  refine Reach.invariant (I := fun c => (c.here .control).call = .idle) ?_ ?_ reach
  · rintro c rfl
    rfl
  · intro c t choice shared place _ hIdle _ hLocal
    by_cases ht : t = .control
    · subst ht
      simp only [Function.update_self]
      rcases step_cases hLocal with ⟨w, _, _, hThread, _⟩ | ⟨_, _, hThread, _⟩ |
        ⟨_, _, _, _, rfl⟩ | ⟨_, hBusy, _⟩
      · cases hThread
      · cases hThread
      · exact hIdle
      · exact absurd hIdle hBusy
    · simpa only [Function.update_of_ne (Ne.symm ht)] using hIdle

/-- A worker that has no thread is nowhere in its code. -/
structure Ended (l : Local n τ ρ β) : Prop where
  worker : l.worker = .exited
  call : l.call = .idle

omit [NeZero n] in
/-- Nor does such a worker take a step. -/
theorem Ended.stuck [NeZero n] {w : Fin n} {s : Shared n τ ρ β} {l : Local n τ ρ β}
    (hEnded : Ended l) (hDead : s.live w = false) (choice : Choice n ρ β) :
    step cfg (.worker w) s l choice = none := by
  obtain ⟨call, worker, control⟩ := l
  cases hEnded.worker
  cases hEnded.call
  cases choice <;> simp [step, workerStep, hDead]

theorem ended (reach : RunsTo cfg allowed c) {w : Fin n} (hDead : c.shared.live w = false) :
    Ended (c.here (.worker w)) := by
  revert hDead
  refine Reach.invariant
    (I := fun c => c.shared.live w = false → Ended (c.here (.worker w))) ?_ ?_ reach
  · rintro c rfl _
    exact ⟨rfl, rfl⟩
  · intro c t choice shared place _ hInv _ hLocal hDead
    rcases step_flags hLocal with ⟨hSame, _⟩ | ⟨u, rfl, hIdle, rfl, rfl⟩ | ⟨rfl, _, _, hStep, _⟩
    · have hBefore : c.shared.live w = false := (congrFun (congrArg Flags.live hSame) w).symm.trans hDead
      have hOther : (.worker w : Thread n τ) ≠ t := by
        rintro rfl
        rw [(hInv hBefore).stuck hBefore] at hLocal
        cases hLocal
      simpa only [Function.update_of_ne hOther] using hInv hBefore
    · by_cases hu : u = w
      · subst hu
        simp only [Function.update_self]
        exact ⟨rfl, hIdle⟩
      · have hOther : (.worker w : Thread n τ) ≠ .worker u := fun h => hu (by cases h; rfl)
        simp only [Function.update_of_ne hOther]
        exact hInv (by simpa [Shared.exit, Function.update_of_ne (Ne.symm hu)] using hDead)
    · have hBefore : c.shared.live w = false := by
        by_contra hLive
        rw [Bool.not_eq_false] at hLive
        rw [control_live hStep w hLive] at hDead
        cases hDead
      simpa using hInv hBefore

theorem calling (reach : RunsTo cfg allowed c) (w : Fin n) :
    Calling (c.here (.worker w)).worker (c.here (.worker w)).call := by
  refine Reach.invariant
    (I := fun c => Calling (c.here (.worker w)).worker (c.here (.worker w)).call) ?_ ?_ reach
  · rintro c rfl
    exact .idle _
  · intro c t choice shared place _ hInv _ hLocal
    by_cases ht : .worker w = t
    · subst ht
      simp only [Function.update_self]
      rcases step_cases hLocal with ⟨u, pc', call', _, _, hStep, rfl⟩ | ⟨_, _, hThread, _⟩ |
        ⟨_, hThread, _⟩ | ⟨call', _, hStep, rfl⟩
      · exact (worker_sees hStep).calling
      · cases hThread
      · cases hThread
      · exact hInv.step hStep
    · simpa only [Function.update_of_ne ht] using hInv

/-- A worker that is somewhere in its code has a thread. -/
theorem live_of_worker (reach : RunsTo cfg allowed c) {w : Fin n}
    (hPc : (c.here (.worker w)).worker ≠ .exited) : c.shared.live w = true := by
  by_contra hDead
  rw [Bool.not_eq_true] at hDead
  exact hPc (ended reach hDead).worker

theorem told (reach : RunsTo cfg allowed c) {w : Fin n}
    (hPc : (c.here (.worker w)).worker = .loopDraining) : c.shared.workerRunning w = false := by
  revert hPc
  refine Reach.invariant (I := fun c => (c.here (.worker w)).worker = .loopDraining →
    c.shared.workerRunning w = false) ?_ ?_ reach
  · rintro c rfl hPc
    cases hPc
  · intro c t choice shared place hReach hInv _ hLocal hPc
    by_cases ht : t = .worker w
    · subst ht
      simp only [Function.update_self] at hPc
      rcases step_cases hLocal with ⟨u, pc', call', hThread, _, hStep, rfl⟩ | ⟨_, _, hThread, _⟩ |
        ⟨_, hThread, _⟩ | ⟨call', _, hStep, rfl⟩
      · cases hThread
        cases hPc
        have hTold := (worker_sees hStep).told rfl
        rcases worker_flags hStep with hSame | ⟨hExit, _⟩
        · exact (congrFun (congrArg Flags.workerRunning hSame) w).trans hTold
        · cases hExit
      · cases hThread
      · cases hThread
      · exact (congrFun (congrArg Flags.workerRunning (call_flags hStep)) w).trans (hInv hPc)
    · simp only [Function.update_of_ne (Ne.symm ht)] at hPc
      have hTold := hInv hPc
      rcases step_flags hLocal with ⟨hSame, _⟩ | ⟨u, rfl, _, _, rfl⟩ | ⟨rfl, _, _, hStep, _⟩
      · exact (congrFun (congrArg Flags.workerRunning hSame) w).trans hTold
      · exact hTold
      · exact control_told hStep (live_of_worker hReach (by rw [hPc]; nofun)) hTold

/-- The system is started and stopped as a whole: the dispatcher starts before there are
workers, `stop` comes when all of them are there, and from then on no client sends. -/
def orderly (c : Config (Thread n τ) (Shared n τ ρ β) (Local n τ ρ β)) (t : Thread n τ)
    (choice : Choice n ρ β) : Prop :=
  match t, choice with
  | .control, .start => ∀ w, c.shared.live w = false
  | .control, .launch _ => c.shared.dispatcher.running = true
  | .control, .stopSystem => (∀ w, c.shared.live w = true) ∧ ∀ u, ((c.here (.client u)).call matches .idle)
  | .control, .stopDispatcher => False
  | .client _, _ => (c.here .control).control = .idle
  | _, _ => True

omit [NeZero n] [DecidableEq ρ] [DecidableEq τ] in
theorem fit_control {choice : Choice n ρ β} {s' : Shared n τ ρ β} {pc' : ControlPc}
    (hFit : c.shared.flags.Fit (c.here .control).control) (hOrderly : orderly c .control choice)
    (h : controlStep c.shared (c.here .control).control choice = some (s', pc')) : s'.flags.Fit pc' := by
  generalize (c.here .control).control = pc at hFit h
  cases pc <;> cases choice <;> simp only [controlStep, reduceCtorEq] at h
  case idle.start =>
    cases h
    exact ⟨hFit.1, fun w hLive => absurd ((hOrderly w).symm.trans hLive) Bool.false_ne_true⟩
  case idle.launch w =>
    split_ifs at h
    cases h
    refine ⟨hFit.1, fun u hLive => ⟨hOrderly, ?_⟩⟩
    by_cases hu : u = w
    · subst hu
      simp [Shared.flags]
    · simp only [Shared.flags, Function.update_of_ne hu] at hLive ⊢
      exact (hFit.2 u hLive).2
  case idle.stopSystem =>
    cases h
    exact hFit
  case idle.stopDispatcher => exact hOrderly.elim
  case beginDrain.go =>
    cases h
    exact ⟨hFit.1, fun w hLive => (hFit.2 w hLive).2⟩
  case drainStore.go =>
    cases h
    rfl
  case drainWake.go i =>
    split_ifs at h <;> cases h
    · exact hFit
    · exact ⟨hFit, fun w hw => absurd hw (Nat.not_lt_zero _)⟩
  case stopWorker.go i =>
    split_ifs at h with hMore <;> cases h
    · exact hFit
    · exact fun w => hFit.2 w (Nat.lt_of_lt_of_le w.isLt (Nat.le_of_not_lt hMore))
  case joinWorker.go i =>
    split_ifs at h with hMore hLive
    cases h
    refine ⟨hFit.1, fun w hw => ?_⟩
    rcases Nat.lt_succ_iff_lt_or_eq.mp hw with hBefore | hLast
    · exact hFit.2 w hBefore
    · have hw : w = ⟨i, hMore⟩ := Fin.ext hLast
      subst hw
      exact eq_false_of_ne_true hLive
  case dispatcherStop.go =>
    cases h
    exact hFit
  case stopDraining.go =>
    cases h
    exact ⟨rfl, hFit⟩
  case stopWake.go i =>
    split_ifs at h <;> cases h <;> exact hFit
  case stopClear.go =>
    split_ifs at h
    cases h
    exact ⟨hFit.1, fun w hLive => absurd ((hFit.2 w).symm.trans hLive) Bool.false_ne_true⟩

omit [NeZero n] [DecidableEq ρ] in
/-- A step that moves nobody in the code of `start` and `stop`. -/
theorem control_update {here : Thread n τ → Local n τ ρ β} {t : Thread n τ} {place : Local n τ ρ β}
    (hKept : place.control = (here t).control) (u : Thread n τ) :
    (Function.update here t place u).control = (here u).control := by
  by_cases hu : u = t
  · subst hu
    rw [Function.update_self, hKept]
  · rw [Function.update_of_ne hu]

/-- In an orderly run the flags fit the place of the controlling thread. -/
theorem fit (reach : RunsTo cfg orderly c) : c.shared.flags.Fit (c.here .control).control := by
  refine Reach.invariant (I := fun c => c.shared.flags.Fit (c.here .control).control) ?_ ?_ reach
  · rintro c rfl
    exact ⟨rfl, nofun⟩
  · intro c t choice shared place _ hFit hOrderly hLocal
    rcases step_flags hLocal with ⟨hSame, hKept⟩ | ⟨w, rfl, _, rfl, rfl⟩ | ⟨rfl, _, pc', hStep, rfl⟩
    · simpa only [control_update hKept, hSame] using hFit
    · have hExit : (c.shared.exit w).flags.Fit (c.here .control).control := hFit.exit w
      simpa using hExit
    · simp only [Function.update_self]
      exact fit_control hFit hOrderly hStep

/-- A worker that takes a step outside of calls has a thread. -/
theorem live_of_step (reach : RunsTo cfg allowed c) {w : Fin n} {choice : Choice n ρ β}
    {shared : Shared n τ ρ β} {place : Local n τ ρ β}
    (h : step cfg (.worker w) c.shared (c.here (.worker w)) choice = some (shared, place)) :
    c.shared.live w = true := by
  by_contra hDead
  rw [Bool.not_eq_true] at hDead
  rw [(ended reach hDead).stuck hDead] at h
  cases h

/-- The controlling thread is outside of `stop`, or about to clear the first flag. -/
def ControlPc.Up (pc : ControlPc) : Prop := pc = .idle ∨ pc = .beginDrain

omit [NeZero n] in
theorem Flags.Fit.up {flags : Flags n} {pc : ControlPc} (h : flags.Fit pc) (hUp : pc.Up) :
    flags.draining = false ∧ ∀ w, flags.live w = true → flags.running = true := by
  rcases hUp with rfl | rfl
  · exact ⟨h.1, fun w hLive => (h.2 w hLive).1⟩
  · exact ⟨h.1, fun w hLive => (h.2 w hLive).1⟩

omit [NeZero n] [DecidableEq ρ] [DecidableEq τ] in
theorem control_up {s s' : Shared n τ ρ β} {pc pc' : ControlPc} {choice : Choice n ρ β}
    (h : controlStep s pc choice = some (s', pc')) (hUp : pc'.Up) : pc.Up ∨ pc = .stopClear := by
  cases pc <;> cases choice <;> simp only [controlStep, reduceCtorEq] at h
  case idle.start | idle.launch | idle.stopSystem | idle.stopDispatcher => exact .inl (.inl rfl)
  case stopClear.go => exact .inr rfl
  case drainWake.go | stopWorker.go | joinWorker.go | stopWake.go =>
    split_ifs at h <;> cases h <;> rcases hUp with hUp | hUp <;> cases hUp
  all_goals
    cases h
    rcases hUp with hUp | hUp <;> cases hUp

/-- Until `stop` clears the first flag no worker gives up. -/
theorem patient (reach : RunsTo cfg orderly c) (hUp : (c.here .control).control.Up) (w : Fin n) :
    ¬(c.here (.worker w)).worker.GivesUp := by
  revert hUp
  refine Reach.invariant (I := fun c => (c.here .control).control.Up →
    ¬(c.here (.worker w)).worker.GivesUp) ?_ ?_ reach
  · rintro c rfl _
    exact id
  · intro c t choice shared place hReach hInv hOrderly hLocal hUp
    rcases step_cases hLocal with ⟨u, pc', call', rfl, _, hStep, rfl⟩ | ⟨u, call', rfl, _, _, rfl⟩ |
      ⟨pc', rfl, _, hStep, rfl⟩ | ⟨call', _, hStep, rfl⟩
    · have hBefore : (c.here .control).control.Up := by simpa using hUp
      by_cases hu : u = w
      · subst hu
        obtain ⟨hDraining, hRunning⟩ := (fit hReach).up hBefore
        simp only [Function.update_self]
        exact worker_patient hStep (hRunning u (live_of_step hReach hLocal)) hDraining (hInv hBefore)
      · have hOther : (.worker w : Thread n τ) ≠ .worker u := fun h => hu (by cases h; rfl)
        simpa only [Function.update_of_ne hOther] using hInv hBefore
    · simpa using hInv (by simpa using hUp)
    · simp only [Function.update_self] at hUp
      rcases control_up hStep hUp with hBefore | hClear
      · simpa using hInv hBefore
      · have hFit := fit hReach
        rw [hClear] at hFit
        simp [(ended hReach (hFit.2 w)).worker, WorkerPc.GivesUp]
    · have hKept : (Function.update c.here t { c.here t with call := call' } .control).control =
          (c.here .control).control := by
        apply control_update
        rfl
      replace hUp : (c.here .control).control.Up := hKept ▸ hUp
      by_cases ht : .worker w = t
      · subst ht
        simpa only [Function.update_self] using hInv hUp
      · simpa only [Function.update_of_ne ht] using hInv hUp

/-- In an orderly run a worker leaves its loop after `acquire` has given up: it finds no
work pending, or it is told to stop. -/
theorem leaves (reach : RunsTo cfg orderly c) {w : Fin n} {choice : Choice n ρ β}
    {s' : Shared n τ ρ β} {call' : Call n τ ρ β}
    (h : workerStep cfg w c.shared (c.here (.worker w)).worker choice = some (s', .exited, call')) :
    (c.here (.worker w)).worker = .exitPending ∧ c.shared.dispatcher.pendingWork = 0 ∨
      (c.here (.worker w)).worker = .exitRunning ∧ c.shared.workerRunning w = false := by
  apply ((worker_sees h).left rfl).resolve_left
  rintro ⟨hPc, hDraining⟩
  have hLive := live_of_worker reach (w := w) (by rw [hPc]; nofun)
  have hStill := (fit reach).draining hLive (told reach hPc)
  exact absurd (hDraining.symm.trans hStill) Bool.false_ne_true

end Runs

end ActorSystem
