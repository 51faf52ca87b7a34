import V2Engine.System.Containment
import V2Engine.System.Tokens

/-! An actor that was shut down stays shut down, as long as the loop of `processBatch`
comes to its end when `shutdown` was called inside `tryConsumeLifecycle`. -/

section Runs

variable {ρ β ε : Type*}

/-- `tryConsumeLifecycle` does nothing about the message that would open or restart the
actor, and does not leave it to `handle`. -/
def ActorRuntime.Ignores (rt : ActorRuntime ε) : MessageId → Prop
  | .actorEnableRequest => rt.state ≠ .closed
  | .actorDisableRequest => True
  | .actorRestartRequest => rt.state ≠ .opened
  | .other => False

instance (rt : ActorRuntime ε) : DecidablePred rt.Ignores
  | .actorEnableRequest => inferInstanceAs (Decidable (_ ≠ _))
  | .actorDisableRequest => inferInstanceAs (Decidable True)
  | .actorRestartRequest => inferInstanceAs (Decidable (_ ≠ _))
  | .other => inferInstanceAs (Decidable False)

/-- The strategy allows the actor no further restart. -/
def Exhausted (cfg : ActorSystemConfig ρ β) (a : ρ) (rt : ActorRuntime ε) (sup : Supervisor ρ) :
    RestartStrategy → Prop
  | .oneForOne => cfg.maxRestarts ≤ rt.restartCount
  | .oneForAll => cfg.maxRestarts ≤ sup.oneForAllRestartCount a
  | .none => True

/-- The worker is in the actor's `handle` or in its `open`. -/
def RunPc.Engages (cfg : ActorSystemConfig ρ β) (body : ε → β) : RunPc ρ ε → Prop
  | .handling msg _ => cfg.messageId (body msg) ≠ .actorDisableRequest
  | .opening _ => True
  | _ => False

instance (cfg : ActorSystemConfig ρ β) (body : ε → β) :
    DecidablePred (RunPc.Engages cfg body : RunPc ρ ε → Prop)
  | .handling .. => inferInstanceAs (Decidable (_ ≠ _))
  | .opening _ => inferInstanceAs (Decidable True)
  | .begin | .fetch _ | .deliver .. | .failed .. | .draining .. | .offering .. | .deciding _
  | .closing _ | .broadcasting .. | .shuttingDown _ | .returning _ | .terminated | .done =>
      inferInstanceAs (Decidable False)

/-- The run of a stopped actor does not lead to its `handle` or its `open`. -/
def RunPc.Rests (cfg : ActorSystemConfig ρ β) (body : ε → β) (rt : ActorRuntime ε) :
    RunPc ρ ε → Prop
  | .deliver msg _ => rt.Ignores (cfg.messageId (body msg))
  | .handling msg _ => cfg.messageId (body msg) = .actorDisableRequest
  | .closing _ | .opening _ => False
  | _ => True

/-- The loop goes on with a message, and the message is not one that it ignores. -/
def RunPc.Resumes (cfg : ActorSystemConfig ρ β) (body : ε → β) (rt : ActorRuntime ε) :
    RunPc ρ ε → Prop
  | .fetch processed => (cfg.maxBatch < 0 ∨ (processed : Int) < cfg.maxBatch) ∧
      ∃ msg ∈ rt.mailbox.head?, ¬rt.Ignores (cfg.messageId (body msg))
  | _ => False

instance (cfg : ActorSystemConfig ρ β) (body : ε → β) (rt : ActorRuntime ε) :
    DecidablePred (RunPc.Resumes cfg body rt)
  | .fetch _ => inferInstanceAs (Decidable (_ ∧ _))
  | .begin | .deliver .. | .handling .. | .failed .. | .draining .. | .offering .. | .deciding _
  | .closing _ | .opening _ | .broadcasting .. | .shuttingDown _ | .returning _ | .terminated
  | .done => inferInstanceAs (Decidable False)

/-- A stopped actor has no restart left, and its run, if there is one, rests. -/
structure Dormant (cfg : ActorSystemConfig ρ β) (body : ε → β) (a : ρ) (rt : ActorRuntime ε)
    (sup : Supervisor ρ) (pc : RunPc ρ ε) : Prop where
  exhausted : rt.stopped = true → Exhausted cfg a rt sup (cfg.strategy a)
  rests : rt.stopped = true → pc.Rests cfg body rt

section Steps

variable {cfg : ActorSystemConfig ρ β} {body : ε → β} {a : ρ} {rt rt' : ActorRuntime ε}
  {sup sup' : Supervisor ρ} {pc pc' : RunPc ρ ε} {choice : RunChoice ρ β}
  {request : Option (ρ × β)}

theorem RunPc.Rests.not_engages (h : pc.Rests cfg body rt) : ¬pc.Engages cfg body := by
  cases pc with
  | handling msg processed => exact fun hEngages => hEngages h
  | opening frames => exact absurd h id
  | _ => exact id

theorem Exhausted.mono {strategy : RestartStrategy} (h : Exhausted cfg a rt sup strategy)
    (hCount : rt.restartCount ≤ rt'.restartCount)
    (hCharged : sup.oneForAllRestartCount a ≤ sup'.oneForAllRestartCount a) :
    Exhausted cfg a rt' sup' strategy := by
  cases strategy with
  | none => trivial
  | oneForOne => exact le_trans h hCount
  | oneForAll => exact le_trans h hCharged

/-- What `tryConsumeLifecycle` ignores, the loop puts behind it. -/
theorem ActorRuntime.Ignores.rests {msg : ε} {processed : Nat} {essential : Bool}
    (h : rt.Ignores (cfg.messageId (body msg))) :
    (rt.tryConsumeLifecycle essential msg processed (cfg.messageId (body msg))).Rests cfg body rt' := by
  cases hId : cfg.messageId (body msg) with
  | other =>
      rw [hId] at h
      exact absurd h id
  | actorEnableRequest =>
      rw [hId] at h
      simp only [ActorRuntime.tryConsumeLifecycle, if_neg (show rt.state ≠ .closed from h)]
      trivial
  | actorRestartRequest =>
      rw [hId] at h
      simp only [ActorRuntime.tryConsumeLifecycle, if_neg (show rt.state ≠ .opened from h)]
      trivial
  | actorDisableRequest =>
      simp only [ActorRuntime.tryConsumeLifecycle]
      split
      · exact hId
      · trivial

variable [DecidableEq ρ]

/-- The flag, the count and the actor's state are as they were. -/
structure ActorRuntime.Unmoved (rt rt' : ActorRuntime ε) : Prop where
  stopped : rt'.stopped = rt.stopped
  count : rt'.restartCount = rt.restartCount
  state : rt'.state = rt.state

omit [DecidableEq ρ] in
theorem ActorRuntime.Unmoved.refl (rt : ActorRuntime ε) : rt.Unmoved rt := ⟨rfl, rfl, rfl⟩

omit [DecidableEq ρ] in
theorem RunPc.Rests.unmoved (h : pc.Rests cfg body rt) (hSame : rt.Unmoved rt') :
    pc.Rests cfg body rt' := by
  cases pc with
  | deliver msg processed =>
      show rt'.Ignores _
      have hIgnored : rt.Ignores (cfg.messageId (body msg)) := h
      revert hIgnored
      cases cfg.messageId (body msg) <;> simp only [ActorRuntime.Ignores, hSame.state, imp_self]
  | _ => exact h

/-- A step that keeps the flag and the counters of restarts. -/
structure Steady (rt rt' : ActorRuntime ε) (sup sup' : Supervisor ρ) : Prop where
  stopped : rt'.stopped = rt.stopped
  count : rt'.restartCount = rt.restartCount
  charged : sup'.oneForAllRestartCount = sup.oneForAllRestartCount

omit [DecidableEq ρ] in
theorem Steady.pop {msg : ε} (h : rt.pop = some (msg, rt')) : Steady rt rt' sup sup := by
  rw [(ActorRuntime.pop_eq_some h).2]
  exact ⟨rfl, rfl, rfl⟩

/-- Only the decision about a failure stops the actor or charges it with a restart. -/
theorem runStep_steady (h : runStep cfg body a rt sup pc choice = some (rt', sup', pc', request))
    (hPc : ∀ frames, pc ≠ .deciding frames) : Steady rt rt' sup sup' := by
  cases pc <;> cases choice <;> simp only [runStep, reduceCtorEq] at h
  case deciding.go frames => exact absurd rfl (hPc frames)
  case fetch.go processed =>
    split_ifs at h
    · cases hPop : rt.pop with
      | none =>
          rw [hPop] at h
          cases h
          exact ⟨rfl, rfl, rfl⟩
      | some taken =>
          rw [hPop] at h
          cases h
          exact .pop hPop
    · cases h
      exact ⟨rfl, rfl, rfl⟩
  case draining.go failure frames =>
    cases hPop : rt.pop with
    | none =>
        rw [hPop] at h
        cases h
        exact ⟨rfl, rfl, rfl⟩
    | some taken =>
        rw [hPop] at h
        cases h
        exact .pop hPop
  case broadcasting.go todo restarted frames =>
    cases todo <;> cases h <;> exact ⟨rfl, rfl, rfl⟩
  case shuttingDown.throws frames state =>
    obtain ⟨restarts, caller⟩ := frames
    cases caller <;> cases h <;> exact ⟨rfl, rfl, rfl⟩
  case returning.go frames =>
    obtain ⟨restarts, caller⟩ := frames
    cases restarts <;> cases caller <;> cases h <;> exact ⟨rfl, rfl, rfl⟩
  all_goals
    cases h
    exact ⟨rfl, rfl, rfl⟩

/-- The decision: without a restart left the actor is shut down, else it is charged with
one. -/
theorem onActorFailed_cases (cfg : ActorSystemConfig ρ β) (a : ρ) (rt : ActorRuntime ε)
    (sup : Supervisor ρ) (frames : Frames ε) :
    (Exhausted cfg a rt sup (cfg.strategy a) ∧
      onActorFailed cfg.registered cfg.maxRestarts a rt sup frames (cfg.strategy a) =
        (rt.shutdown, sup, .shuttingDown frames)) ∨
    (¬Exhausted cfg a rt sup (cfg.strategy a) ∧ ∃ rt' sup' pc',
      onActorFailed cfg.registered cfg.maxRestarts a rt sup frames (cfg.strategy a) =
        (rt', sup', pc') ∧
        rt'.stopped = rt.stopped ∧ rt.restartCount ≤ rt'.restartCount ∧
        ∀ b, sup.oneForAllRestartCount b ≤ sup'.oneForAllRestartCount b) := by
  cases cfg.strategy a with
  | none => exact .inl ⟨trivial, rfl⟩
  | oneForOne =>
      by_cases hLimit : cfg.maxRestarts ≤ rt.restartCount
      · exact .inl ⟨hLimit, if_pos hLimit⟩
      · exact .inr ⟨hLimit, _, _, _, if_neg hLimit, rfl, by simp, fun _ => le_rfl⟩
  | oneForAll =>
      by_cases hLimit : cfg.maxRestarts ≤ sup.oneForAllRestartCount a
      · exact .inl ⟨hLimit, if_pos hLimit⟩
      · refine .inr ⟨hLimit, _, _, _, if_neg hLimit, rfl, le_rfl, fun b => ?_⟩
        simp only [Supervisor.chargeOneForAll, Function.update_apply]
        split
        · rename_i hb
          subst hb
          omega
        · exact le_rfl

/-- No restart is ever taken back. -/
theorem runStep_counts (h : runStep cfg body a rt sup pc choice = some (rt', sup', pc', request)) :
    rt.restartCount ≤ rt'.restartCount ∧
      ∀ b, sup.oneForAllRestartCount b ≤ sup'.oneForAllRestartCount b := by
  by_cases hPc : ∃ frames, pc = .deciding frames
  · obtain ⟨frames, rfl⟩ := hPc
    cases choice <;> cases h
    rcases onActorFailed_cases cfg a rt sup frames with
      ⟨_, hAfter⟩ | ⟨_, rt', sup', pc', hAfter, _, hCount, hCharged⟩
    · rw [hAfter]
      exact ⟨le_rfl, fun _ => le_rfl⟩
    · rw [hAfter]
      exact ⟨hCount, hCharged⟩
  · have hSteady := runStep_steady h fun frames hDeciding => hPc ⟨frames, hDeciding⟩
    exact ⟨hSteady.count.ge, fun b => (congrFun hSteady.charged b).ge⟩

/-- The actor is stopped only where the strategy allows no further restart. -/
theorem runStep_stops (h : runStep cfg body a rt sup pc choice = some (rt', sup', pc', request))
    (hStopped : rt.stopped = false) (hStopped' : rt'.stopped = true) :
    Exhausted cfg a rt sup (cfg.strategy a) ∧ ∃ frames, pc' = .shuttingDown frames := by
  by_cases hPc : ∃ frames, pc = .deciding frames
  · obtain ⟨frames, rfl⟩ := hPc
    cases choice <;> cases h
    rcases onActorFailed_cases cfg a rt sup frames with
      ⟨hExhausted, hAfter⟩ | ⟨_, rt', sup', pc', hAfter, hKept, _⟩
    · rw [hAfter]
      exact ⟨hExhausted, frames, rfl⟩
    · rw [hAfter, hKept, hStopped] at hStopped'
      cases hStopped'
  · have hSteady := runStep_steady h fun frames hDeciding => hPc ⟨frames, hDeciding⟩
    rw [hSteady.stopped, hStopped] at hStopped'
    cases hStopped'

/-- The run of a stopped actor goes on to rest. -/
theorem runStep_rests (h : runStep cfg body a rt sup pc choice = some (rt', sup', pc', request))
    (hExhausted : Exhausted cfg a rt sup (cfg.strategy a)) (hRests : pc.Rests cfg body rt)
    (hLeft : ¬pc.Resumes cfg body rt) : pc'.Rests cfg body rt' := by
  cases pc <;> cases choice <;> simp only [runStep, reduceCtorEq] at h
  case begin.go =>
    cases h
    split <;> trivial
  case fetch.go processed =>
    split_ifs at h with hRoom
    · cases hPop : rt.pop with
      | none =>
          rw [hPop] at h
          cases h
          trivial
      | some taken =>
          rw [hPop] at h
          cases h
          obtain ⟨hMailbox, hTaken⟩ := ActorRuntime.pop_eq_some hPop
          by_contra hEngaged
          refine hLeft ⟨hRoom, taken.1, by rw [hMailbox]; rfl, fun hIgnored => hEngaged ?_⟩
          show taken.2.Ignores _
          rw [hTaken]
          exact hIgnored
    · cases h
      trivial
  case deliver.go msg processed =>
    cases h
    exact ActorRuntime.Ignores.rests hRests
  case handling.send msg processed b sent =>
    cases h
    exact hRests
  case handling.throws msg processed state =>
    cases h
    unfold RunPc.threw
    split <;> trivial
  case draining.go failure frames =>
    cases hPop : rt.pop <;> rw [hPop] at h <;> cases h <;> trivial
  case deciding.go frames =>
    rcases onActorFailed_cases cfg a rt sup frames with
      ⟨_, hAfter⟩ | ⟨hMore, _⟩
    · rw [hAfter] at h
      cases h
      trivial
    · exact absurd hExhausted hMore
  case closing.send | closing.returns | closing.throws | opening.send | opening.returns |
      opening.throws => exact absurd hRests id
  case broadcasting.go todo restarted frames =>
    cases todo <;> cases h <;> trivial
  case shuttingDown.throws frames state =>
    obtain ⟨restarts, caller⟩ := frames
    cases caller <;> cases h
    · trivial
    · unfold RunPc.threw
      split <;> trivial
  case returning.go frames =>
    obtain ⟨restarts, caller⟩ := frames
    cases restarts <;> cases caller <;> cases h <;> trivial
  all_goals
    cases h
    trivial

theorem Dormant.runStep (hDormant : Dormant cfg body a rt sup pc)
    (h : runStep cfg body a rt sup pc choice = some (rt', sup', pc', request))
    (hLeft : rt.stopped = true → ¬pc.Resumes cfg body rt) : Dormant cfg body a rt' sup' pc' := by
  obtain ⟨hCount, hCharged⟩ := runStep_counts h
  cases hStopped : rt.stopped with
  | true =>
      have hExhausted := hDormant.exhausted hStopped
      exact ⟨fun _ => hExhausted.mono hCount (hCharged a),
        fun _ => runStep_rests h hExhausted (hDormant.rests hStopped) (hLeft hStopped)⟩
  | false =>
      refine ⟨fun hStopped' => ?_, fun hStopped' => ?_⟩
      · exact (runStep_stops h hStopped hStopped').1.mono hCount (hCharged a)
      · obtain ⟨_, frames, rfl⟩ := runStep_stops h hStopped hStopped'
        trivial

end Steps

end Runs

namespace ActorSystem

open Interleaving

variable {n : Nat} {τ ρ β : Type*}

/-- The actor that the worker runs, and where its run stands. -/
def WorkerPc.run? {ε : Type*} : WorkerPc n ρ ε → Option (ρ × RunPc ρ ε)
  | .running a pc => some (a, pc)
  | _ => none

theorem running_of_run? {ε : Type*} {pc : WorkerPc n ρ ε} {a : ρ} {run : RunPc ρ ε}
    (h : pc.run? = some (a, run)) : pc = .running a run := by
  cases pc <;> cases h
  rfl

/-- A worker goes on with a message although its actor is stopped. -/
def WorkerPc.Resumes (cfg : Setup ρ β) (s : Shared n τ ρ β)
    (pc : WorkerPc n ρ (Envelope τ ρ β)) : Prop :=
  ∃ run ∈ pc.run?, (s.runtimes run.1).stopped = true ∧
    run.2.Resumes cfg.toActorSystemConfig Envelope.body (s.runtimes run.1)

/-- The loop of `processBatch` takes no message that matters to a stopped actor. -/
def leavesStopped (cfg : Setup ρ β) (c : Config (Thread n τ) (Shared n τ ρ β) (Local n τ ρ β))
    (t : Thread n τ) (_ : Choice n ρ β) : Prop :=
  ¬(c.here t).worker.Resumes cfg c.shared

instance (cfg : Setup ρ β) (c : Config (Thread n τ) (Shared n τ ρ β) (Local n τ ρ β))
    (t : Thread n τ) (choice : Choice n ρ β) : Decidable (leavesStopped cfg c t choice) :=
  inferInstanceAs (Decidable ¬∃ run ∈ (c.here t).worker.run?, _ ∧ _)

section Steps

variable [NeZero n] [DecidableEq ρ] [DecidableEq τ] {cfg : Setup ρ β} {t : Thread n τ}
  {s s' : Shared n τ ρ β} {l l' : Local n τ ρ β} {choice : Choice n ρ β}

/-- No step of the system takes back a restart that the supervisor has charged. -/
theorem step_charges (h : step cfg t s l choice = some (s', l')) (a : ρ) :
    s.supervisor.oneForAllRestartCount a ≤ s'.supervisor.oneForAllRestartCount a := by
  rcases step_supervises h with ⟨b, run, run', user, rt, request, _, _, hStep, _⟩ | ⟨hSame, _⟩
  · exact (runStep_counts hStep).2 a
  · rw [hSame]

end Steps

section Runs

variable [NeZero n] [DecidableEq ρ] [DecidableEq τ] [Fintype τ] {cfg : Setup ρ β}
  {c : Config (Thread n τ) (Shared n τ ρ β) (Local n τ ρ β)} {t : Thread n τ}
  {shared : Shared n τ ρ β} {place : Local n τ ρ β} {a : ρ}

/-- A stopped actor has no restart left, and no run of it leads to its `handle` or its
`open`. -/
structure DormantAt (cfg : Setup ρ β) (a : ρ)
    (c : Config (Thread n τ) (Shared n τ ρ β) (Local n τ ρ β)) : Prop where
  exhausted : (c.shared.runtimes a).stopped = true →
    Exhausted cfg.toActorSystemConfig a (c.shared.runtimes a) c.shared.supervisor (cfg.strategy a)
  rests : (c.shared.runtimes a).stopped = true → ∀ t pc, (c.here t).worker = .running a pc →
    pc.Rests cfg.toActorSystemConfig Envelope.body (c.shared.runtimes a)

omit [NeZero n] [DecidableEq ρ] [Fintype τ] in
/-- A step outside of the actor's run. -/
theorem DormantAt.outside (h : DormantAt cfg a c)
    (hSame : (c.shared.runtimes a).Unmoved (shared.runtimes a))
    (hCharged : c.shared.supervisor.oneForAllRestartCount a ≤
      shared.supervisor.oneForAllRestartCount a)
    (hEntered : ∀ pc, place.worker = .running a pc →
      (c.here t).worker = .running a pc ∨ pc = .begin) :
    DormantAt cfg a ⟨shared, Function.update c.here t place⟩ := by
  refine ⟨fun hStopped => ?_, fun hStopped u pc hPc => ?_⟩
  · exact (h.exhausted (hSame.stopped ▸ hStopped)).mono hSame.count.ge hCharged
  · have hRests := h.rests (hSame.stopped ▸ hStopped)
    by_cases hu : u = t
    · subst hu
      simp only [Function.update_self] at hPc
      rcases hEntered pc hPc with hBefore | rfl
      · exact (hRests u pc hBefore).unmoved hSame
      · trivial
    · simp only [Function.update_of_ne hu] at hPc
      exact (hRests u pc hPc).unmoved hSame

omit [NeZero n] [Fintype τ] in
/-- A step of the worker that runs actor `b`. -/
theorem DormantAt.inside (h : DormantAt cfg a c) {b : ρ} {run run' : RunPc ρ (Envelope τ ρ β)}
    {user : RunChoice ρ β} {rt : ActorRuntime (Envelope τ ρ β)} {sup : Supervisor ρ}
    {request : Option (ρ × β)} (hLeft : ¬(c.here t).worker.Resumes cfg c.shared)
    (hBefore : (c.here t).worker = .running b run) (hPlace : place.worker = .running b run')
    (hStep : runStep cfg.toActorSystemConfig Envelope.body b (c.shared.runtimes b)
      c.shared.supervisor run user = some (rt, sup, run', request))
    (hRuntimes : shared.runtimes = Function.update c.shared.runtimes b rt)
    (hSupervisor : shared.supervisor = sup)
    (hOne : ∀ u pc, (c.here u).worker = .running a pc → a = b → u = t) :
    DormantAt cfg a ⟨shared, Function.update c.here t place⟩ := by
  by_cases hab : a = b
  · subst hab
    have hDormant : Dormant cfg.toActorSystemConfig Envelope.body a (c.shared.runtimes a)
        c.shared.supervisor run :=
      ⟨h.exhausted, fun hStopped => h.rests hStopped t run hBefore⟩
    have hAfter := hDormant.runStep hStep fun hStopped hResumes =>
      hLeft ⟨(a, run), by rw [hBefore]; rfl, hStopped, hResumes⟩
    have hRt : shared.runtimes a = rt := by rw [hRuntimes, Function.update_self]
    refine ⟨fun hStopped => ?_, fun hStopped u pc hPc => ?_⟩
    · show Exhausted _ a (shared.runtimes a) shared.supervisor _
      rw [hRt, hSupervisor]
      exact hAfter.exhausted (hRt ▸ hStopped)
    · show pc.Rests _ _ (shared.runtimes a)
      rw [hRt]
      by_cases hu : u = t
      · subst hu
        simp only [Function.update_self, hPlace] at hPc
        cases hPc
        exact hAfter.rests (hRt ▸ hStopped)
      · simp only [Function.update_of_ne hu] at hPc
        exact absurd (hOne u pc hPc rfl) hu
  · apply h.outside
    · rw [hRuntimes, Function.update_of_ne hab]
      exact ⟨rfl, rfl, rfl⟩
    · rw [hSupervisor]
      exact (runStep_counts hStep).2 a
    · intro pc hPc
      rw [hPlace] at hPc
      cases hPc
      exact absurd rfl hab

theorem dormantAt (reach : RunsTo cfg (leavesStopped cfg) c) (a : ρ) : DormantAt cfg a c := by
  refine Reach.invariant (I := DormantAt cfg a) ?_ ?_ reach
  · rintro c rfl
    refine ⟨fun hStopped => ?_, fun hStopped => ?_⟩ <;> cases hStopped
  · intro c t choice shared place hReach hInv hLeft hLocal
    have hCharged := step_charges hLocal a
    -- the worker stays where it is in its own code
    have hStays : place.worker = (c.here t).worker → ∀ pc, place.worker = .running a pc →
        (c.here t).worker = .running a pc ∨ pc = .begin := fun hPlace pc hPc => .inl (hPlace ▸ hPc)
    cases step_mails hLocal with
    | none hRuntimes _ _ _ hRun =>
        exact hInv.outside (by rw [hRuntimes]; exact .refl _) hCharged (hRun.entered a)
    | post target msg rt _ hPush hShared hPlace =>
        apply hInv.outside _ hCharged (hStays (by rw [hPlace]))
        rw [hShared]
        by_cases hTarget : a = target
        · subst hTarget
          simp only [Shared.setRuntime, Function.update_self]
          rw [(ActorRuntime.push_eq_some hPush).2]
          exact ⟨rfl, rfl, rfl⟩
        · simp only [Shared.setRuntime, Function.update_of_ne hTarget]
          exact .refl _
    | drop _ _ _ _ hShared hPlace =>
        exact hInv.outside (by rw [hShared]; exact .refl _) hCharged (hStays (by rw [hPlace]))
    | run w b run run' user rt sup _ _ hPc hStep hShared hPlace =>
        exact hInv.inside hLeft hPc (by rw [hPlace]) hStep (by rw [hShared]; rfl) (by rw [hShared])
          fun u pc hu hab => running_unique hReach hu (hab ▸ hPc)
    | request w b run run' user rt sup _ _ _ _ hPc hStep hShared hPlace =>
        exact hInv.inside hLeft hPc (by rw [hPlace]) hStep (by rw [hShared]; rfl)
          (by rw [hShared]; rfl) fun u pc hu hab => running_unique hReach hu (hab ▸ hPc)
    | clientSend u _ _ _ _ hShared hPlace =>
        exact hInv.outside (by rw [hShared]; exact .refl _) hCharged (hStays (by rw [hPlace]))

omit [Fintype τ] in
/-- No step takes a `shutdown` back. -/
theorem stays_stopped {s s' : Shared n τ ρ β} {l l' : Local n τ ρ β} {choice : Choice n ρ β}
    (h : step cfg t s l choice = some (s', l')) (hStopped : (s.runtimes a).stopped = true) :
    (s'.runtimes a).stopped = true := by
  have hSet : ∀ b rt, ((s.runtimes b).stopped = true → rt.stopped = true) →
      ((s.setRuntime b rt).runtimes a).stopped = true := by
    intro b rt hKept
    by_cases hab : a = b
    · subst hab
      simpa only [Shared.setRuntime, Function.update_self] using hKept hStopped
    · simpa only [Shared.setRuntime, Function.update_of_ne hab] using hStopped
  cases step_mails h with
  | none hRuntimes =>
      rw [hRuntimes]
      exact hStopped
  | post target msg rt _ hPush hShared =>
      rw [hShared]
      apply hSet
      rw [(ActorRuntime.push_eq_some hPush).2]
      exact id
  | run _ b _ _ _ rt _ _ _ _ hStep hShared | request _ b _ _ _ rt _ _ _ _ _ _ hStep hShared =>
      rw [hShared]
      exact hSet b rt (runStep_calm hStep).stopped
  | drop _ _ _ _ hShared | clientSend _ _ _ _ _ hShared =>
      rw [hShared]
      exact hStopped

/-- A worker is in the `handle` or in the `open` of actor `a`. -/
def WorkerPc.Engages (cfg : Setup ρ β) (a : ρ) (pc : WorkerPc n ρ (Envelope τ ρ β)) : Prop :=
  ∃ run ∈ pc.run?, run.1 = a ∧ run.2.Engages cfg.toActorSystemConfig Envelope.body

instance (cfg : Setup ρ β) (a : ρ) :
    DecidablePred (WorkerPc.Engages (n := n) (τ := τ) cfg a) :=
  fun pc => inferInstanceAs (Decidable (∃ run ∈ pc.run?, _ ∧ _))

/-- The actor was shut down for good: it stays stopped whatever step is taken next, and no
worker is in its `handle` or its `open`. -/
structure ShutDown (cfg : Setup ρ β) (a : ρ)
    (c : Config (Thread n τ) (Shared n τ ρ β) (Local n τ ρ β)) : Prop where
  permanent : ∀ t choice d, (step cfg).next c t choice = some d → (d.shared.runtimes a).stopped = true
  unengaged : ∀ t, ¬(c.here t).worker.Engages cfg a

/-- As long as the loop of `processBatch` takes no further message of an actor that was
shut down inside it, the actor stays shut down. -/
theorem shutdown_permanent (reach : RunsTo cfg (leavesStopped cfg) c)
    (hStopped : (c.shared.runtimes a).stopped = true) : ShutDown cfg a c where
  permanent t choice d hNext := by
    obtain ⟨shared, place, hLocal, rfl⟩ := Program.next_eq_some.mp hNext
    exact stays_stopped hLocal hStopped
  unengaged t hEngages := by
    obtain ⟨⟨b, pc⟩, hRun, rfl, hEngages⟩ := hEngages
    have hPc := running_of_run? hRun
    exact ((dormantAt reach b).rests hStopped t pc hPc).not_engages hEngages

end Runs

/-- The actor failed and is shut down; a second message finds it stopped. -/
def shuttingDown : List (Thread 1 Unit × Choice 1 (Fin 3) Bool) := List.flatten
  [throwing, [(.worker 0, .user (.returns .closed)), (.worker 0, .user .go)],
    List.replicate 5 (.worker 0, .go), sendTo 0 4, List.replicate 3 (.worker 0, .go),
    [(.worker 0, .user .go)]]

def afterShutdown : Config (Thread 1 Unit) (Shared 1 Unit (Fin 3) Bool) (Local 1 Unit (Fin 3) Bool) :=
  ((step brittle).replay (leavesStopped brittle) (initial brittle) shuttingDown).get (by decide +kernel)

theorem shutdown_permanent_afterShutdown : ShutDown brittle 0 afterShutdown :=
  shutdown_permanent (Reach.replay (.start rfl) (Option.some_get _).symm) (by decide +kernel)

/-- The restart that actor 0 is asked for ends in its `open`, which throws. A client sends
another message before the actor is shut down. -/
def failingRestart : List (Thread 1 Unit × Choice 1 (Fin 3) Bool) := List.flatten
  [[(.control, .start), (.client (), .send 0 true), (.client (), .go)],
    List.replicate 4 (.client (), .route fun _ _ => 0), [(.control, .launch 0)],
    List.replicate 4 (.worker 0, .go), List.replicate 3 (.worker 0, .user .go),
    [(.worker 0, .user (.returns .closed)), (.worker 0, .user (.throws .closed))],
    List.replicate 2 (.worker 0, .user .go), sendTo 0 1, [(.worker 0, .user .go)],
    [(.worker 0, .user (.returns .closed))], List.replicate 3 (.worker 0, .user .go)]

def afterFailingRestart :
    Config (Thread 1 Unit) (Shared 1 Unit (Fin 3) Bool) (Local 1 Unit (Fin 3) Bool) :=
  ((step brittle).replay anyStep (initial brittle) failingRestart).get (by decide +kernel)

/-- The loop goes on after `shutdown`, and hands the actor the next message. -/
theorem not_shutDown_afterFailingRestart : Reachable brittle afterFailingRestart ∧
    (afterFailingRestart.shared.runtimes 0).stopped = true ∧
    ¬ShutDown brittle 0 afterFailingRestart := by
  refine ⟨Reach.replay (.start rfl) (Option.some_get _).symm, by decide +kernel, fun shutDown => ?_⟩
  have hEngages : (afterFailingRestart.here (.worker 0)).worker.Engages brittle 0 := by
    decide +kernel
  exact shutDown.unengaged _ hEngages

end ActorSystem
