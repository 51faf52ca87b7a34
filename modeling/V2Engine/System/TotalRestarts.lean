import V2Engine.Interleaving.Watched
import V2Engine.System.Storms

/-! `Supervisor::totalRestarts()` and the restarts that the supervisor causes. `tryRestart` is
counted when it returns, after its restart; a broadcast is counted by its requests, before any
of them has come to an actor. -/

section Runs

variable {τ ρ β : Type*}

def Envelope.key (msg : Envelope τ ρ β) : Sender τ ρ × Nat := (msg.sender, msg.seqNo)

/-- Nothing of a failure is left to do, and no message that was taken out waits for its delivery. -/
def RunPc.Settled {ε : Type*} : RunPc ρ ε → Prop
  | .begin | .fetch _ | .handling _ _ | .terminated | .done => True
  | .closing frames | .opening frames | .returning frames => frames.restarts = 0
  | .deliver _ _ | .failed _ _ | .draining _ _ | .offering _ _ _ | .deciding _ | .broadcasting _ _ _
  | .shuttingDown _ => False

/-- The restarts that `totalRestarts` will count when the calls under way return. -/
def RunPc.uncounted {ε : Type*} : RunPc ρ ε → Nat
  | .failed _ frames | .draining _ frames | .offering _ _ frames | .deciding frames | .closing frames
  | .opening frames | .shuttingDown frames | .returning frames => frames.restarts
  | .broadcasting _ restarted frames => restarted + frames.restarts
  | .begin | .fetch _ | .deliver _ _ | .handling _ _ | .terminated | .done => 0

theorem RunPc.Settled.uncounted {ε : Type*} {pc : RunPc ρ ε} (h : pc.Settled) : pc.uncounted = 0 := by
  cases pc <;> first | rfl | exact h | exact h.elim

variable (rt : ActorRuntime (Envelope τ ρ β)) (requests : List (Sender τ ρ × Nat))

/-- A request of a broadcast finds the actor opened, and is not drained to the dead letters. -/
def RunPc.Heeds : RunPc ρ (Envelope τ ρ β) → Prop
  | .deliver msg _ => msg.key ∈ requests → rt.state = .opened
  | .draining _ _ => ∀ msg ∈ rt.mailbox.head?, msg.key ∉ requests
  | _ => True

instance [DecidableEq τ] [DecidableEq ρ] :
    DecidablePred (RunPc.Heeds rt requests : RunPc ρ (Envelope τ ρ β) → Prop)
  | .deliver .. => inferInstanceAs (Decidable (_ → _))
  | .draining .. => inferInstanceAs (Decidable (∀ msg ∈ rt.mailbox.head?, msg.key ∉ requests))
  | .begin | .fetch _ | .handling .. | .failed .. | .offering .. | .deciding _ | .closing _ | .opening _
  | .broadcasting .. | .shuttingDown _ | .returning _ | .terminated | .done =>
      inferInstanceAs (Decidable True)

/-- An exception of `close` leaves `tryRestart`. -/
def RunPc.interrupts {ε : Type*} : RunPc ρ ε → RunChoice ρ β → Bool
  | .shuttingDown frames, .throws _ => frames.restarts != 0
  | _, _ => false

end Runs

namespace ActorSystem

open Interleaving

variable {n : Nat} {τ ρ β : Type*}

/-- The requests of broadcasts that have led to no restart so far, and how many executions of
`performRestart` the supervisor has caused. -/
structure RestartLog (τ ρ : Type*) where
  requests : List (Sender τ ρ × Nat)
  performed : Nat

section Notes

variable [DecidableEq ρ] [DecidableEq τ]

/-- What a step of a worker adds to the log. -/
def RestartLog.note (log : RestartLog τ ρ) (l l' : Local n τ ρ β) : RestartLog τ ρ :=
  match l.worker, l'.worker, l'.call with
  -- tryRestart
  | .running _ (.deciding _), .running _ (.closing _), _ => { log with performed := log.performed + 1 }
  -- tryConsumeLifecycle
  | .running _ (.deliver msg _), .running _ (.closing _), _ =>
      if msg.key ∈ log.requests then ⟨log.requests.erase msg.key, log.performed + 1⟩ else log
  -- restartAll_
  | .running _ (.broadcasting _ _ _), _, .sending _ msg => { log with requests := msg.key :: log.requests }
  | _, _, _ => log

/-- The running system with its log. -/
abbrev loggedStep [NeZero n] (cfg : Setup ρ β) :
    Program (Thread n τ) (Shared n τ ρ β × RestartLog τ ρ) (Local n τ ρ β) (Choice n ρ β) :=
  (step cfg).watched fun log _ => log.note

abbrev LoggedTo [NeZero n] (cfg : Setup ρ β)
    (allowed : Config (Thread n τ) (Shared n τ ρ β × RestartLog τ ρ) (Local n τ ρ β) → Thread n τ →
      Choice n ρ β → Prop)
    (c : Config (Thread n τ) (Shared n τ ρ β × RestartLog τ ρ) (Local n τ ρ β)) : Prop :=
  Reach (loggedStep cfg) (· = (initial cfg).watched ⟨[], 0⟩) allowed c

end Notes

/-- All mailboxes are drained, and no failure is being processed. -/
structure Quiet (c : Config (Thread n τ) (Shared n τ ρ β) (Local n τ ρ β)) : Prop where
  drained : ∀ a, (c.shared.runtimes a).mailbox = []
  settled : ∀ t a pc, (c.here t).worker = .running a pc → pc.Settled

/-- Whenever the system is quiet, the supervisor has caused as many restarts as it says. -/
def Accurate (c : Config (Thread n τ) (Shared n τ ρ β × RestartLog τ ρ) (Local n τ ρ β)) : Prop :=
  Quiet c.unwatched → c.shared.1.supervisor.totalRestarts = c.shared.2.performed

def WorkerPc.interrupts {ε : Type*} : WorkerPc n ρ ε → Choice n ρ β → Bool
  | .running _ pc, .user user => pc.interrupts user
  | _, _ => false

section Conditions

variable (cfg : Setup ρ β) (s : Shared n τ ρ β × RestartLog τ ρ)

/-- A request of a broadcast finds room in the mailbox. -/
def Call.Fits : Call n τ ρ β → Prop
  | .sending target msg =>
      msg.key ∈ s.2.requests → (s.1.runtimes target).mailbox.length < cfg.mailboxSize target
  | .idle | .errand _ => True

instance [DecidableEq ρ] [DecidableEq τ] : DecidablePred (Call.Fits cfg s)
  | .sending .. => inferInstanceAs (Decidable (_ → _))
  | .idle | .errand _ => inferInstanceAs (Decidable True)

/-- Every restart that a broadcast asks for takes place, and every one of `tryRestart` is counted. -/
def performs (c : Config (Thread n τ) (Shared n τ ρ β × RestartLog τ ρ) (Local n τ ρ β))
    (t : Thread n τ) (choice : Choice n ρ β) : Prop :=
  (c.here t).call.Fits cfg c.shared ∧
    (∀ run ∈ (c.here t).worker.run?, run.2.Heeds (c.shared.1.runtimes run.1) c.shared.2.requests) ∧
    (c.here t).worker.interrupts choice = false

instance [DecidableEq ρ] [DecidableEq τ]
    (c : Config (Thread n τ) (Shared n τ ρ β × RestartLog τ ρ) (Local n τ ρ β)) (t : Thread n τ)
    (choice : Choice n ρ β) : Decidable (performs cfg c t choice) :=
  inferInstanceAs (Decidable (_ ∧ (∀ run ∈ (c.here t).worker.run?, _) ∧ _))

end Conditions

def WorkerPc.uncounted {ε : Type*} : WorkerPc n ρ ε → Nat
  | .running _ pc => pc.uncounted
  | _ => 0

theorem RunKept.uncounted {ε : Type*} {pc pc' : WorkerPc n ρ ε} (kept : RunKept pc pc') :
    pc'.uncounted = pc.uncounted := by
  have hNone : ∀ pc : WorkerPc n ρ ε, (∀ a run, pc = .running a run → run.uncounted = 0) →
      pc.uncounted = 0 := by
    intro pc h
    cases pc with
    | running a run => exact h a run rfl
    | _ => rfl
  by_cases hSame : pc' = pc
  · rw [hSame]
  · rw [hNone pc, hNone pc']
    · intro a run hPc
      rcases kept.entered a run hPc with hBefore | rfl
      · exact absurd (hPc.trans hBefore.symm) hSame
      · rfl
    · intro a run hPc
      rcases kept.left a run hPc with hAfter | rfl
      · exact absurd (hAfter.trans hPc.symm) hSame
      · rfl

/-- The call that a step of a run leaves the worker in. -/
def Call.Sends (call : Call n τ ρ β) : Option (ρ × β) → Prop
  | none => call = .idle
  | some (b, _) => ∃ msg, call = .sending b msg

section Steps

variable [DecidableEq ρ] [DecidableEq τ] {cfg : Setup ρ β} {s s' : Shared n τ ρ β}
  {l l' : Local n τ ρ β} {log : RestartLog τ ρ} {t : Thread n τ} {choice : Choice n ρ β}

/-- Nothing is written down where the worker stays out of the runs or at its place. -/
theorem note_of_kept (kept : RunKept l.worker l'.worker)
    (hCall : l.worker.broadcasts?.isSome = true → l'.call.Silent) : log.note l l' = log := by
  unfold RestartLog.note
  split
  · rename_i hPc hPc'
    rcases kept.left _ _ hPc with hSame | hDone
    · cases hSame.symm.trans hPc'
    · cases hDone
  · rename_i hPc hPc'
    rcases kept.left _ _ hPc with hSame | hDone
    · cases hSame.symm.trans hPc'
    · cases hDone
  · rename_i hPc hSending
    exact absurd hSending (hCall (by rw [hPc]; rfl) _ _)
  · rfl

variable {a : ρ} {rt rt' : ActorRuntime (Envelope τ ρ β)} {sup sup' : Supervisor ρ}
  {run run' : RunPc ρ (Envelope τ ρ β)} {user : RunChoice ρ β} {request : Option (ρ × β)}

omit [DecidableEq ρ] [DecidableEq τ] in
theorem balance_of_same {log' : RestartLog τ ρ} (hLog : log' = log)
    (hTotal : sup'.totalRestarts = sup.totalRestarts) (hUncounted : run'.uncounted = run.uncounted) :
    (log'.performed + log'.requests.length : Int) - sup'.totalRestarts - run'.uncounted =
      log.performed + log.requests.length - sup.totalRestarts - run.uncounted := by
  rw [hLog, hTotal, hUncounted]

/-- What is noted and what is counted by the supervisor, now or later, are as far apart as before. -/
theorem runStep_balance
    (h : runStep cfg.toActorSystemConfig Envelope.body a rt sup run user = some (rt', sup', run', request))
    (hPc : l.worker = .running a run) (hPc' : l'.worker = .running a run')
    (hCall : l'.call.Sends request)
    (heeds : run.Heeds rt log.requests) (hReturns : run.interrupts user = false)
    (hBodies : ∀ msg processed, run = .deliver msg processed → msg.key ∈ log.requests →
      cfg.messageId msg.body = .actorRestartRequest) :
    ((log.note l l').performed + (log.note l l').requests.length : Int) - sup'.totalRestarts -
        run'.uncounted =
      log.performed + log.requests.length - sup.totalRestarts - run.uncounted := by
  obtain ⟨call, worker, control⟩ := l
  obtain ⟨call', worker', control'⟩ := l'
  cases hPc
  cases hPc'
  cases run <;> cases user <;> simp only [runStep, reduceCtorEq] at h
  case begin.go =>
    cases h
    refine balance_of_same rfl rfl ?_
    split <;> rfl
  case fetch.go processed =>
    split_ifs at h
    · split at h <;> cases h <;> exact balance_of_same rfl rfl rfl
    · cases h
      exact balance_of_same rfl rfl rfl
  case deliver.go msg processed =>
    cases h
    by_cases hAsked : msg.key ∈ log.requests
    · have hOpened : rt.state = .opened := heeds hAsked
      have hPositive := List.length_pos_of_mem hAsked
      rw [hBodies msg processed rfl hAsked]
      simp only [ActorRuntime.tryConsumeLifecycle, if_pos hOpened, RestartLog.note, if_pos hAsked,
        List.length_erase_of_mem hAsked, RunPc.uncounted]
      omega
    · unfold ActorRuntime.tryConsumeLifecycle
      split
      · split <;> exact balance_of_same rfl rfl rfl
      · split <;> exact balance_of_same rfl rfl rfl
      · split
        · exact balance_of_same (if_neg hAsked) rfl rfl
        · exact balance_of_same rfl rfl rfl
      · exact balance_of_same rfl rfl rfl
  case draining.go failure frames => split at h <;> cases h <;> exact balance_of_same rfl rfl rfl
  case deciding.go frames =>
    cases h
    cases cfg.strategy a with
    | none => exact balance_of_same rfl rfl rfl
    | oneForOne =>
        simp only [onActorFailed]
        split
        · exact balance_of_same rfl rfl rfl
        · simp only [RestartLog.note, RunPc.uncounted]
          omega
    | oneForAll =>
        simp only [onActorFailed]
        split
        · exact balance_of_same rfl rfl rfl
        · exact balance_of_same rfl rfl (Nat.zero_add _)
  case broadcasting.go todo restarted frames =>
    cases todo with
    | nil =>
        cases h
        cases hCall
        simp only [RestartLog.note, RunPc.uncounted, Supervisor.broadcast]
        omega
    | cons b todo =>
        cases h
        obtain ⟨msg, rfl⟩ := hCall
        simp only [RestartLog.note, RunPc.uncounted, List.length_cons]
        omega
  case handling.throws msg processed state =>
    cases h
    refine balance_of_same rfl rfl ?_
    unfold RunPc.threw
    split <;> rfl
  case closing.returns | closing.throws | opening.throws =>
    cases h
    refine balance_of_same rfl rfl ?_
    split <;> rfl
  case shuttingDown.throws frames state =>
    obtain ⟨restarts, caller⟩ := frames
    have hOutside : restarts = 0 := bne_eq_false_iff_eq.mp hReturns
    subst hOutside
    cases caller with
    | batch =>
        cases h
        exact balance_of_same rfl rfl rfl
    | lifecycle msg processed =>
        cases h
        refine balance_of_same rfl rfl ?_
        unfold RunPc.threw
        split <;> rfl
  case returning.go frames =>
    obtain ⟨restarts, caller⟩ := frames
    cases restarts with
    | zero => cases caller <;> cases h <;> exact balance_of_same rfl rfl rfl
    | succ restarts =>
        cases h
        simp only [RestartLog.note, RunPc.uncounted]
        omega
  all_goals
    cases h
    exact balance_of_same rfl rfl rfl

omit [DecidableEq τ] in
/-- A worker sends in the actor's own code, or in a broadcast. -/
theorem runStep_sends {b : ρ} {body : β}
    (h : runStep cfg.toActorSystemConfig Envelope.body a rt sup run user =
      some (rt', sup', run', some (b, body))) :
    rt' = rt ∧ (run' = run ∧ RunPc.broadcasts run = false ∨
      ∃ todo restarted frames, run = .broadcasting (b :: todo) restarted frames ∧
        run' = .broadcasting todo (restarted + 1) frames ∧ body = cfg.restartRequest) := by
  cases run <;> cases user <;> simp only [runStep, reduceCtorEq] at h
  case fetch.go processed =>
    split_ifs at h
    · split at h <;> cases h
    · cases h
  case draining.go failure frames => split at h <;> cases h
  case broadcasting.go todo restarted frames =>
    cases todo with
    | nil => cases h
    | cons b todo =>
        cases h
        exact ⟨rfl, .inr ⟨todo, restarted, frames, rfl, rfl, rfl⟩⟩
  case shuttingDown.throws frames state =>
    obtain ⟨restarts, caller⟩ := frames
    cases caller <;> cases h
  case returning.go frames =>
    obtain ⟨restarts, caller⟩ := frames
    cases restarts <;> cases caller <;> cases h
  case handling.send | closing.send | opening.send | shuttingDown.send =>
    cases h
    exact ⟨rfl, .inl ⟨rfl, rfl⟩⟩
  all_goals cases h

omit [DecidableEq τ] in
/-- A message is taken out to be delivered, or to be drained. -/
theorem runStep_takes
    (h : runStep cfg.toActorSystemConfig Envelope.body a rt sup run user = some (rt', sup', run', none)) :
    (rt'.mailbox = rt.mailbox ∧ ∀ msg processed, run' ≠ .deliver msg processed) ∨
    (∃ msg k processed, rt.mailbox = msg :: rt'.mailbox ∧ run = .fetch k ∧ run' = .deliver msg processed) ∨
    ∃ msg failure frames, rt.mailbox = msg :: rt'.mailbox ∧ run = .draining failure frames ∧
      run' = .offering failure msg frames := by
  cases run <;> cases user <;> simp only [runStep, reduceCtorEq] at h
  case fetch.go processed =>
    split_ifs at h
    · cases hPop : rt.pop with
      | none =>
          rw [hPop] at h
          cases h
          exact .inl ⟨rfl, by simp⟩
      | some taken =>
          rw [hPop] at h
          cases h
          exact .inr (.inl ⟨_, _, _, (ActorRuntime.pop_eq_some hPop).1, rfl, rfl⟩)
    · cases h
      exact .inl ⟨rfl, by simp⟩
  case draining.go failure frames =>
    cases hPop : rt.pop with
    | none =>
        rw [hPop] at h
        cases h
        exact .inl ⟨rfl, by simp⟩
    | some taken =>
        rw [hPop] at h
        cases h
        exact .inr (.inr ⟨_, _, _, (ActorRuntime.pop_eq_some hPop).1, rfl, rfl⟩)
  case deliver.go msg processed =>
    cases h
    refine .inl ⟨rfl, ?_⟩
    unfold ActorRuntime.tryConsumeLifecycle
    split <;> try split
    all_goals simp
  case deciding.go frames =>
    cases h
    left
    cases cfg.strategy a <;> simp only [onActorFailed]
    · split <;> exact ⟨rfl, by simp⟩
    · split <;> exact ⟨rfl, by simp⟩
    · exact ⟨rfl, by simp⟩
  case broadcasting.go todo restarted frames =>
    cases todo <;> cases h
    exact .inl ⟨rfl, by simp⟩
  case handling.throws msg processed state =>
    cases h
    refine .inl ⟨rfl, ?_⟩
    unfold RunPc.threw
    split <;> simp
  case begin.go | closing.returns | closing.throws | opening.throws =>
    cases h
    refine .inl ⟨rfl, ?_⟩
    split <;> simp
  case shuttingDown.throws frames state =>
    obtain ⟨restarts, caller⟩ := frames
    cases caller <;> cases h
    · exact .inl ⟨rfl, by simp⟩
    · refine .inl ⟨rfl, ?_⟩
      unfold RunPc.threw
      split <;> simp
  case returning.go frames =>
    obtain ⟨restarts, caller⟩ := frames
    cases restarts <;> cases caller <;> cases h <;> exact .inl ⟨rfl, by simp⟩
  case handling.send | closing.send | opening.send | shuttingDown.send => cases h
  all_goals
    cases h
    exact .inl ⟨rfl, by simp⟩

theorem note_requests_of_idle (hCall : l'.call = .idle) :
    (log.note l l').requests.Sublist log.requests := by
  unfold RestartLog.note
  split
  · exact List.Sublist.refl _
  · split
    · exact List.erase_sublist
    · exact List.Sublist.refl _
  · rename_i hSending
    cases hCall.symm.trans hSending
  · exact List.Sublist.refl _

/-- The request that a restart answers is no longer an open one. -/
theorem note_of_asked {msg : Envelope τ ρ β} {processed : Nat} {frames : Frames (Envelope τ ρ β)}
    (hPc : l.worker = .running a (.deliver msg processed)) (hPc' : l'.worker = .running a (.closing frames))
    (hAsked : msg.key ∈ log.requests) : (log.note l l').requests = log.requests.erase msg.key := by
  obtain ⟨call, worker, control⟩ := l
  obtain ⟨call', worker', control'⟩ := l'
  cases hPc
  cases hPc'
  simp only [RestartLog.note, if_pos hAsked]

end Steps

/-- The message is in a mailbox. -/
def Shared.Stores (s : Shared n τ ρ β) (msg : Envelope τ ρ β) : Prop := ∃ a, msg ∈ (s.runtimes a).mailbox

/-- The thread is about to put the message into a mailbox or to deliver it. -/
inductive Local.Carries (l : Local n τ ρ β) (msg : Envelope τ ρ β) : Prop where
  | sending (target : ρ) (h : l.call = .sending target msg)
  | deliver (a : ρ) (processed : Nat) (h : l.worker = .running a (.deliver msg processed))

/-- The message is on its way from its sender to its delivery. -/
def Carried (c : Config (Thread n τ) (Shared n τ ρ β × RestartLog τ ρ) (Local n τ ρ β))
    (msg : Envelope τ ρ β) : Prop :=
  c.shared.1.Stores msg ∨ ∃ t, (c.here t).Carries msg

/-- The requests that have led to no restart are on their way, and their keys are theirs alone. -/
structure Requested (cfg : Setup ρ β)
    (c : Config (Thread n τ) (Shared n τ ρ β × RestartLog τ ρ) (Local n τ ρ β)) : Prop where
  distinct : c.shared.2.requests.Nodup
  fresh : ∀ msg, Carried c msg → msg.seqNo < c.shared.1.sent msg.sender
  bodies : ∀ msg, Carried c msg → msg.key ∈ c.shared.2.requests → msg.body = cfg.restartRequest
  carried : ∀ key ∈ c.shared.2.requests, ∃ msg, Carried c msg ∧ msg.key = key
  sending : ∀ t target msg, (c.here t).call = .sending target msg → msg.key ∈ c.shared.2.requests →
    (c.here t).worker.broadcasts?.isSome = true

section Requests

variable [DecidableEq ρ] [DecidableEq τ] {cfg : Setup ρ β}
  {c : Config (Thread n τ) (Shared n τ ρ β × RestartLog τ ρ) (Local n τ ρ β)} {t : Thread n τ}
  {s' : Shared n τ ρ β} {log' : RestartLog τ ρ} {l' : Local n τ ρ β} {msg : Envelope τ ρ β}

omit [DecidableEq ρ] in
/-- On its way after a step: where the step was taken, or as before. -/
theorem carried_update :
    Carried ⟨(s', log'), Function.update c.here t l'⟩ msg ↔
      (s'.Stores msg ∨ l'.Carries msg) ∨ ∃ u ≠ t, (c.here u).Carries msg := by
  constructor
  · rintro (h | ⟨u, h⟩)
    · exact .inl (.inl h)
    · by_cases hu : u = t
      · subst hu
        rw [Config.here_update] at h
        exact .inl (.inr h)
      · rw [Config.here_update_of_ne _ _ hu] at h
        exact .inr ⟨u, hu, h⟩
  · rintro ((h | h) | ⟨u, hu, h⟩)
    · exact .inl h
    · exact .inr ⟨t, by rwa [Config.here_update]⟩
    · exact .inr ⟨u, by rwa [Config.here_update_of_ne _ _ hu]⟩

omit [DecidableEq ρ] in
theorem Carried.cases (h : Carried c msg) (t : Thread n τ) :
    (c.shared.1.Stores msg ∨ (c.here t).Carries msg) ∨ ∃ u ≠ t, (c.here u).Carries msg := by
  rcases h with h | ⟨u, h⟩
  · exact .inl (.inl h)
  · by_cases hu : u = t
    · exact .inl (.inr (hu ▸ h))
    · exact .inr ⟨u, hu, h⟩

omit [DecidableEq ρ] [DecidableEq τ] in
theorem carried_here (h : c.shared.1.Stores msg ∨ (c.here t).Carries msg) : Carried c msg :=
  h.imp_right fun h => ⟨t, h⟩

omit [DecidableEq ρ] in
/-- No message is sent, and of those on their way only such that are no requests come to an end. -/
theorem Requested.pass (requested : Requested cfg c) (hLog : log'.requests.Sublist c.shared.2.requests)
    (hSent : s'.sent = c.shared.1.sent) (hSilent : l'.call.Silent)
    (hBack : ∀ msg, s'.Stores msg ∨ l'.Carries msg → c.shared.1.Stores msg ∨ (c.here t).Carries msg)
    (hOn : ∀ msg, msg.key ∈ log'.requests → c.shared.1.Stores msg ∨ (c.here t).Carries msg →
      s'.Stores msg ∨ l'.Carries msg) :
    Requested cfg ⟨(s', log'), Function.update c.here t l'⟩ := by
  have hCarried : ∀ msg, Carried ⟨(s', log'), Function.update c.here t l'⟩ msg → Carried c msg := by
    intro msg h
    rcases carried_update.mp h with h | ⟨u, _, h⟩
    · exact carried_here (hBack msg h)
    · exact .inr ⟨u, h⟩
  refine ⟨requested.distinct.sublist hLog, fun msg h => ?_, fun msg h hKey => ?_, fun key hKey => ?_,
    fun u target msg h hKey => ?_⟩
  · show msg.seqNo < s'.sent msg.sender
    rw [hSent]
    exact requested.fresh msg (hCarried msg h)
  · exact requested.bodies msg (hCarried msg h) (hLog.subset hKey)
  · obtain ⟨msg, h, rfl⟩ := requested.carried key (hLog.subset hKey)
    exact ⟨msg, carried_update.mpr ((h.cases t).imp_left (hOn msg hKey)), rfl⟩
  · by_cases hu : u = t
    · subst hu
      rw [Config.here_update] at h
      exact absurd h (hSilent target msg)
    · rw [Config.here_update_of_ne _ _ hu] at h ⊢
      exact requested.sending u target msg h (hLog.subset hKey)

omit [DecidableEq ρ] [DecidableEq τ] in
/-- The number of the next message of a sender is that of no message on its way. -/
theorem Requested.key_ne (requested : Requested cfg c) (hNumber : msg.seqNo = c.shared.1.sent msg.sender)
    {old : Envelope τ ρ β} (h : Carried c old) : old.key ≠ msg.key := by
  intro hKey
  obtain ⟨hSender, hSeqNo⟩ := Prod.mk.inj hKey
  have hFresh := requested.fresh old h
  rw [hSender, hSeqNo, hNumber] at hFresh
  exact Nat.lt_irrefl _ hFresh

/-- A message is sent, by a broadcast or not. -/
theorem Requested.send (requested : Requested cfg c) (msg : Envelope τ ρ β) {target : ρ}
    (hNumber : msg.seqNo = c.shared.1.sent msg.sender)
    (hSent : s'.sent = Function.update c.shared.1.sent msg.sender (c.shared.1.sent msg.sender + 1))
    (hIdle : (c.here t).call = .idle) (hCall : l'.call = .sending target msg)
    (hStores : ∀ msg, s'.Stores msg ↔ c.shared.1.Stores msg)
    (hDeliver : ∀ msg a processed, l'.worker = .running a (.deliver msg processed) ↔
      (c.here t).worker = .running a (.deliver msg processed))
    (hLog : log'.requests = c.shared.2.requests ∨ log'.requests = msg.key :: c.shared.2.requests ∧
      msg.body = cfg.restartRequest ∧ l'.worker.broadcasts?.isSome = true) :
    Requested cfg ⟨(s', log'), Function.update c.here t l'⟩ := by
  have hOld : ∀ old, Carried c old → Carried ⟨(s', log'), Function.update c.here t l'⟩ old := by
    intro old h
    refine carried_update.mpr ((h.cases t).imp_left fun h => ?_)
    rcases h with h | ⟨_, h⟩ | ⟨_, _, h⟩
    · exact .inl ((hStores old).mpr h)
    · cases hIdle.symm.trans h
    · exact .inr (.deliver _ _ ((hDeliver old _ _).mpr h))
  have hCarried : ∀ old, Carried ⟨(s', log'), Function.update c.here t l'⟩ old → Carried c old ∨ old = msg := by
    intro old h
    rcases carried_update.mp h with (h | ⟨_, h⟩ | ⟨_, _, h⟩) | ⟨u, _, h⟩
    · exact .inl (.inl ((hStores old).mp h))
    · cases hCall.symm.trans h
      exact .inr rfl
    · exact .inl (.inr ⟨t, .deliver _ _ ((hDeliver old _ _).mp h)⟩)
    · exact .inl (.inr ⟨u, h⟩)
  have hNew : Carried ⟨(s', log'), Function.update c.here t l'⟩ msg :=
    carried_update.mpr (.inl (.inr (.sending target hCall)))
  have hFresh : msg.key ∉ c.shared.2.requests := by
    intro hKey
    obtain ⟨old, h, hSame⟩ := requested.carried _ hKey
    exact requested.key_ne hNumber h hSame
  -- only the new message can be the new request
  have hBefore : ∀ old, Carried c old → old.key ∈ log'.requests → old.key ∈ c.shared.2.requests := by
    intro old h hKey
    rcases hLog with hLog | ⟨hLog, _⟩
    · exact hLog ▸ hKey
    · rw [hLog] at hKey
      exact (List.mem_cons.mp hKey).resolve_left (requested.key_ne hNumber h)
  have hAsked : msg.key ∈ log'.requests → msg.body = cfg.restartRequest ∧ l'.worker.broadcasts?.isSome = true := by
    intro hKey
    rcases hLog with hLog | ⟨_, hAfter⟩
    · exact absurd (hLog ▸ hKey) hFresh
    · exact hAfter
  refine ⟨?_, fun old h => ?_, fun old h hKey => ?_, fun key hKey => ?_, fun u goal old h hKey => ?_⟩
  · rcases hLog with hLog | ⟨hLog, _⟩
    · exact hLog ▸ requested.distinct
    · exact hLog ▸ List.nodup_cons.mpr ⟨hFresh, requested.distinct⟩
  · show old.seqNo < s'.sent old.sender
    rw [hSent, Function.update_apply]
    rcases hCarried old h with h | rfl
    · have hLess := requested.fresh old h
      split
      · rename_i hSender
        rw [hSender] at hLess
        exact Nat.lt_succ_of_lt hLess
      · exact hLess
    · rw [if_pos rfl, hNumber]
      exact Nat.lt_succ_self _
  · rcases hCarried old h with h | rfl
    · exact requested.bodies old h (hBefore old h hKey)
    · exact (hAsked hKey).1
  · by_cases hSame : key = msg.key
    · exact ⟨msg, hNew, hSame.symm⟩
    · have hOlder : key ∈ c.shared.2.requests := by
        rcases hLog with hLog | ⟨hLog, _⟩
        · exact hLog ▸ hKey
        · rw [hLog] at hKey
          exact (List.mem_cons.mp hKey).resolve_left hSame
      obtain ⟨old, h, rfl⟩ := requested.carried key hOlder
      exact ⟨old, hOld old h, rfl⟩
  · by_cases hu : u = t
    · subst hu
      rw [Config.here_update] at h ⊢
      cases hCall.symm.trans h
      exact (hAsked hKey).2
    · rw [Config.here_update_of_ne _ _ hu] at h ⊢
      exact requested.sending u goal old h (hBefore old (.inr ⟨u, .sending goal h⟩) hKey)

variable {s : Shared n τ ρ β} {a : ρ} {rt : ActorRuntime (Envelope τ ρ β)}

omit [DecidableEq τ] in
theorem stores_update (h : s'.runtimes = Function.update s.runtimes a rt) :
    s'.Stores msg ↔ msg ∈ rt.mailbox ∨ ∃ b ≠ a, msg ∈ (s.runtimes b).mailbox := by
  unfold Shared.Stores
  rw [h]
  constructor
  · rintro ⟨b, hMsg⟩
    by_cases hb : b = a
    · subst hb
      rw [Function.update_self] at hMsg
      exact .inl hMsg
    · rw [Function.update_of_ne hb] at hMsg
      exact .inr ⟨b, hb, hMsg⟩
  · rintro (hMsg | ⟨b, hb, hMsg⟩)
    · exact ⟨a, by rwa [Function.update_self]⟩
    · exact ⟨b, by rwa [Function.update_of_ne hb]⟩

omit [DecidableEq ρ] [DecidableEq τ] in
theorem Shared.Stores.cases (h : s.Stores msg) (a : ρ) :
    msg ∈ (s.runtimes a).mailbox ∨ ∃ b ≠ a, msg ∈ (s.runtimes b).mailbox := by
  obtain ⟨b, hMsg⟩ := h
  by_cases hb : b = a
  · exact .inl (hb ▸ hMsg)
  · exact .inr ⟨b, hb, hMsg⟩

/-- A message comes into a mailbox. -/
theorem Requested.post (requested : Requested cfg c) {target : ρ}
    (hCall : (c.here t).call = .sending target msg)
    (hPush : (c.shared.1.runtimes target).push (cfg.mailboxSize target) msg = some rt)
    (hShared : s' = c.shared.1.setRuntime target rt)
    (hPlace : l' = { c.here t with call := .errand (.dispatching target) }) :
    Requested cfg ⟨(s', c.shared.2), Function.update c.here t l'⟩ := by
  have hMailbox : rt.mailbox = (c.shared.1.runtimes target).mailbox ++ [msg] := by
    rw [(ActorRuntime.push_eq_some hPush).2]
  have hRuntimes : s'.runtimes = Function.update c.shared.1.runtimes target rt := by
    rw [hShared]
    rfl
  have hSilent : l'.call.Silent := by
    rw [hPlace]
    exact silent_errand _
  apply requested.pass (List.Sublist.refl _) (by rw [hShared]; rfl) hSilent
  · rintro other (h | ⟨goal, h⟩ | ⟨a, processed, h⟩)
    · rcases (stores_update hRuntimes).mp h with h | ⟨b, _, h⟩
      · rw [hMailbox, List.mem_append, List.mem_singleton] at h
        rcases h with h | rfl
        · exact .inl ⟨target, h⟩
        · exact .inr (.sending target hCall)
      · exact .inl ⟨b, h⟩
    · exact absurd h (hSilent goal other)
    · rw [hPlace] at h
      exact .inr (.deliver a processed h)
  · rintro other _ (h | ⟨goal, h⟩ | ⟨a, processed, h⟩)
    · refine .inl ((stores_update hRuntimes).mpr ((h.cases target).imp_left fun h => ?_))
      rw [hMailbox]
      exact List.mem_append_left _ h
    · cases hCall.symm.trans h
      refine .inl ((stores_update hRuntimes).mpr (.inl ?_))
      rw [hMailbox]
      exact List.mem_append_right _ (List.mem_singleton_self _)
    · exact .inr (.deliver a processed (by rw [hPlace]; exact h))

omit [DecidableEq ρ] in
/-- A full mailbox drops a message, which is no request. -/
theorem Requested.drop (requested : Requested cfg c) {target : ρ}
    (hCall : (c.here t).call = .sending target msg) (hFits : (c.here t).call.Fits cfg c.shared)
    (hFull : (c.shared.1.runtimes target).push (cfg.mailboxSize target) msg = none)
    (hPlace : l' = { c.here t with call := .idle }) :
    Requested cfg ⟨(c.shared.1, c.shared.2), Function.update c.here t l'⟩ := by
  have hSilent : l'.call.Silent := by
    rw [hPlace]
    exact silent_idle
  apply requested.pass (List.Sublist.refl _) rfl hSilent
  · rintro other (h | ⟨goal, h⟩ | ⟨a, processed, h⟩)
    · exact .inl h
    · exact absurd h (hSilent goal other)
    · rw [hPlace] at h
      exact .inr (.deliver a processed h)
  · rintro other hKey (h | ⟨goal, h⟩ | ⟨a, processed, h⟩)
    · exact .inl h
    · cases hCall.symm.trans h
      rw [hCall] at hFits
      rw [ActorRuntime.push, if_neg (Nat.not_le_of_lt (hFits hKey))] at hFull
      cases hFull
    · exact .inr (.deliver a processed (by rw [hPlace]; exact h))

omit [DecidableEq ρ] in
/-- A step that is not one of a run, and moves no message. -/
theorem Requested.aside (requested : Requested cfg c) (hRuntimes : s'.runtimes = c.shared.1.runtimes)
    (hSent : s'.sent = c.shared.1.sent) (hBefore : (c.here t).call.Silent) (hAfter : l'.call.Silent)
    (hRun : RunKept (c.here t).worker l'.worker) :
    Requested cfg ⟨(s', c.shared.2), Function.update c.here t l'⟩ := by
  have hStores : ∀ msg, s'.Stores msg ↔ c.shared.1.Stores msg := by
    intro msg
    unfold Shared.Stores
    rw [hRuntimes]
  apply requested.pass (List.Sublist.refl _) hSent hAfter
  · rintro msg (h | ⟨target, h⟩ | ⟨a, processed, h⟩)
    · exact .inl ((hStores msg).mp h)
    · exact absurd h (hAfter target msg)
    · rcases hRun.entered _ _ h with h | h
      · exact .inr (.deliver a processed h)
      · cases h
  · rintro msg _ (h | ⟨target, h⟩ | ⟨a, processed, h⟩)
    · exact .inl ((hStores msg).mpr h)
    · exact absurd h (hBefore target msg)
    · rcases hRun.left _ _ h with h | h
      · exact .inr (.deliver a processed h)
      · cases h

/-- A worker sends a message. -/
theorem Requested.request (requested : Requested cfg c) {run run' : RunPc ρ (Envelope τ ρ β)}
    {user : RunChoice ρ β} {sup : Supervisor ρ} {target : ρ} {body : β}
    (hCall : (c.here t).call = .idle) (hPc : (c.here t).worker = .running a run)
    (hStep : runStep cfg.toActorSystemConfig Envelope.body a (c.shared.1.runtimes a)
      c.shared.1.supervisor run user = some (rt, sup, run', some (target, body)))
    (hShared : s' = (({ c.shared.1.setRuntime a rt with supervisor := sup } : Shared n τ ρ β).stamp
      (.actor a) body).2)
    (hPlace : l' = ⟨.sending target ⟨.actor a, c.shared.1.sent (.actor a), body⟩, .running a run',
      (c.here t).control⟩) :
    Requested cfg ⟨(s', c.shared.2.note (c.here t) l'), Function.update c.here t l'⟩ := by
  obtain ⟨hRuntime, hCases⟩ := runStep_sends hStep
  have hPc' : l'.worker = .running a run' := by rw [hPlace]
  have hStores : ∀ msg, s'.Stores msg ↔ c.shared.1.Stores msg := by
    intro msg
    have hSame : s'.runtimes = c.shared.1.runtimes := by
      rw [hShared, hRuntime]
      exact Function.update_eq_self ..
    unfold Shared.Stores
    rw [hSame]
  apply requested.send ⟨.actor a, c.shared.1.sent (.actor a), body⟩ rfl
    (by rw [hShared]; rfl) hCall (by rw [hPlace]) hStores
  · intro msg b processed
    rw [hPc, hPc']
    rcases hCases with ⟨rfl, _⟩ | ⟨todo, restarted, frames, rfl, rfl, _⟩
    · rfl
    · constructor <;> intro h <;> cases h
  · rcases hCases with ⟨rfl, hOutside⟩ | ⟨todo, restarted, frames, rfl, rfl, rfl⟩
    · left
      rw [note_of_kept]
      · rw [hPc, hPc']
        exact .refl _
      · intro hBroadcasts
        rw [hPc, broadcasts?_running, hOutside] at hBroadcasts
        cases hBroadcasts
    · refine .inr ⟨?_, rfl, by rw [hPc']; rfl⟩
      rw [hPlace, RestartLog.note, hPc]

/-- What one step of a run does to the messages on their way. -/
theorem Requested.run (requested : Requested cfg c) {run run' : RunPc ρ (Envelope τ ρ β)}
    {user : RunChoice ρ β} {sup : Supervisor ρ} (hCall : (c.here t).call = .idle)
    (hPc : (c.here t).worker = .running a run)
    (hStep : runStep cfg.toActorSystemConfig Envelope.body a (c.shared.1.runtimes a)
      c.shared.1.supervisor run user = some (rt, sup, run', none))
    (heeds : run.Heeds (c.shared.1.runtimes a) c.shared.2.requests)
    (hRuntimes : s'.runtimes = Function.update c.shared.1.runtimes a rt) (hSent : s'.sent = c.shared.1.sent)
    (hPlace : l' = { c.here t with worker := .running a run' })
    (hNote : log' = c.shared.2.note (c.here t) l') :
    Requested cfg ⟨(s', log'), Function.update c.here t l'⟩ := by
  have hIdle : l'.call = .idle := by rw [hPlace, hCall]
  have hPc' : l'.worker = .running a run' := by rw [hPlace]
  have hLog : log'.requests.Sublist c.shared.2.requests := hNote ▸ note_requests_of_idle hIdle
  have hTakes := runStep_takes hStep
  apply requested.pass hLog hSent (hIdle ▸ silent_idle)
  · rintro msg (h | ⟨_, h⟩ | ⟨b, processed, h⟩)
    · rcases (stores_update hRuntimes).mp h with h | ⟨b, _, h⟩
      · exact .inl ⟨a, (runStep_calm hStep).mailbox.subset h⟩
      · exact .inl ⟨b, h⟩
    · cases hIdle.symm.trans h
    · cases hPc'.symm.trans h
      rcases hTakes with ⟨_, hNone⟩ | ⟨_, _, _, hMailbox, _, hTaken⟩ | ⟨_, _, _, _, _, hTaken⟩
      · exact absurd rfl (hNone msg processed)
      · cases hTaken
        exact .inl ⟨a, hMailbox ▸ List.mem_cons_self⟩
      · cases hTaken
  · rintro msg hKey (h | ⟨_, h⟩ | ⟨b, processed, h⟩)
    · rcases h.cases a with h | ⟨b, hb, h⟩
      · rcases hTakes with ⟨hMailbox, _⟩ | ⟨first, _, processed, hMailbox, _, hTaken⟩ |
          ⟨first, failure, frames, hMailbox, rfl, _⟩
        · exact .inl ((stores_update hRuntimes).mpr (.inl (hMailbox ▸ h)))
        · rw [hMailbox] at h
          rcases List.mem_cons.mp h with rfl | h
          · exact .inr (.deliver a processed (hTaken ▸ hPc'))
          · exact .inl ((stores_update hRuntimes).mpr (.inl h))
        · rw [hMailbox] at h
          rcases List.mem_cons.mp h with rfl | h
          · have hDrained := heeds msg (by rw [hMailbox]; rfl)
            exact absurd (hLog.subset hKey) hDrained
          · exact .inl ((stores_update hRuntimes).mpr (.inl h))
      · exact .inl ((stores_update hRuntimes).mpr (.inr ⟨b, hb, h⟩))
    · cases hCall.symm.trans h
    -- a request that is delivered leads to a restart
    · cases hPc.symm.trans h
      have hAsked := hLog.subset hKey
      have hOpened : (c.shared.1.runtimes a).state = .opened := heeds hAsked
      have hBody := requested.bodies msg (.inr ⟨t, .deliver a processed hPc⟩) hAsked
      cases user <;> simp only [runStep, reduceCtorEq] at hStep
      rw [hBody, cfg.restartRequest_id] at hStep
      simp only [ActorRuntime.tryConsumeLifecycle, if_pos hOpened] at hStep
      cases hStep
      rw [hNote, note_of_asked hPc hPc' hAsked] at hKey
      exact absurd hKey requested.distinct.not_mem_erase

end Requests

section Reached

variable [NeZero n] [DecidableEq ρ] [DecidableEq τ] {cfg : Setup ρ β}
  {c : Config (Thread n τ) (Shared n τ ρ β × RestartLog τ ρ) (Local n τ ρ β)}

theorem exited_of_logged {allowed : Config (Thread n τ) (Shared n τ ρ β × RestartLog τ ρ) (Local n τ ρ β) →
    Thread n τ → Choice n ρ β → Prop} (reach : LoggedTo cfg allowed c) (u : τ) :
    (c.here (.client u)).worker = .exited :=
  exited_of_not_worker reach.unwatched fun _ h => by cases h

theorem requested (reach : LoggedTo cfg (performs cfg) c) : Requested cfg c := by
  apply reach.invariant
  · rintro c rfl
    have hNone : ∀ msg, ¬Carried ((initial cfg).watched ⟨[], 0⟩ :
        Config (Thread n τ) (Shared n τ ρ β × RestartLog τ ρ) (Local n τ ρ β)) msg := by
      rintro msg (⟨a, h⟩ | ⟨t, ⟨_, h⟩ | ⟨_, _, h⟩⟩) <;> cases h
    exact ⟨List.nodup_nil, fun msg h => absurd h (hNone msg), fun msg h => absurd h (hNone msg),
      fun key h => absurd h List.not_mem_nil, fun t target msg h => by cases h⟩
  · rintro c t choice ⟨s', log'⟩ place hReach requested ⟨hFits, heeds, _⟩ hLocal
    obtain ⟨hStep, hNote⟩ := Program.watched_eq_some.mp hLocal
    replace hStep : step cfg t c.shared.1 (c.here t) choice = some (s', place) := hStep
    replace hNote : log' = c.shared.2.note (c.here t) place := hNote
    subst hNote
    cases step_mails hStep with
    | none hRuntimes hSent hBefore hAfter hRun =>
        rw [note_of_kept hRun fun _ => hAfter]
        exact requested.aside hRuntimes hSent hBefore hAfter hRun
    | post target msg rt hCall hPush hShared hPlace =>
        rw [note_of_kept (by rw [hPlace]; exact .refl _) fun _ => by rw [hPlace]; exact silent_errand _]
        exact requested.post hCall hPush hShared hPlace
    | drop target msg hCall hFull hShared hPlace =>
        rw [note_of_kept (by rw [hPlace]; exact .refl _) fun _ => by rw [hPlace]; exact silent_idle, hShared]
        exact requested.drop hCall hFits hFull hPlace
    | run w a run run' user rt sup hThread hCall hPc hRun hShared hPlace =>
        have hHeeds := heeds (a, run) (by rw [hPc]; rfl)
        exact requested.run hCall hPc hRun hHeeds (by rw [hShared]; rfl) (by rw [hShared]; rfl) hPlace rfl
    | request w a run run' user rt sup target body hThread hCall hPc hRun hShared hPlace =>
        exact requested.request hCall hPc hRun hShared hPlace
    | clientSend u target body hThread hCall hShared hPlace =>
        subst hThread
        have hExited := exited_of_logged hReach u
        rw [note_of_kept (by rw [hPlace]; exact .refl _) fun h => by rw [hExited] at h; cases h]
        apply requested.send ⟨.client u, c.shared.1.sent (.client u), body⟩ rfl
          (by rw [hShared]; rfl) hCall (by rw [hPlace])
        · intro msg
          rw [hShared]
          rfl
        · intro msg a processed
          rw [hPlace]
        · exact .inl rfl

/-- A step of a run is noted and may be heard of by the supervisor, any other one is not. -/
theorem step_notes {s s' : Shared n τ ρ β} {l l' : Local n τ ρ β} {t : Thread n τ} {choice : Choice n ρ β}
    (log : RestartLog τ ρ) (h : step cfg t s l choice = some (s', l'))
    (hExited : ∀ u, t = .client u → l.worker = .exited) :
    (∃ a run run' user rt request, choice = .user user ∧ l.worker = .running a run ∧
      l'.worker = .running a run' ∧
      runStep cfg.toActorSystemConfig Envelope.body a (s.runtimes a) s.supervisor run user =
        some (rt, s'.supervisor, run', request) ∧ l'.call.Sends request) ∨
    (s'.supervisor = s.supervisor ∧ RunKept l.worker l'.worker ∧ log.note l l' = log) := by
  rcases step_cases h with ⟨w, pc', call', rfl, hCall, hStep, rfl⟩ | ⟨u, call', rfl, hCall, hStep, rfl⟩ |
    ⟨pc', rfl, hCall, hStep, rfl⟩ | ⟨call', hBusy, hStep, rfl⟩
  · by_cases hRun : ∃ a run, l.worker = .running a run ∧ run ≠ .done
    · obtain ⟨a, run, hPc, hDone⟩ := hRun
      rw [hPc] at hStep
      obtain ⟨user, _, _, _, rfl, _⟩ := worker_runs hDone hStep
      simp only [workerStep, Option.map_eq_some_iff, Prod.exists] at hStep
      obtain ⟨rt, sup, run', request, hStep, hAfter⟩ := hStep
      left
      cases request with
      | none =>
          cases hAfter
          exact ⟨a, run, run', user, rt, none, rfl, hPc, rfl, hStep, rfl⟩
      | some request =>
          cases hAfter
          exact ⟨a, run, run', user, rt, some request, rfl, hPc, rfl, hStep, _, rfl⟩
    · have hOutside : ∀ a run, l.worker = .running a run → run = .done := by
        intro a run hPc
        by_contra hDone
        exact hRun ⟨a, run, hPc, hDone⟩
      obtain ⟨hAside, hSilent, hBegin⟩ := worker_keeps hOutside hStep
      have hKept : RunKept l.worker pc' :=
        ⟨fun a run' hPc' => .inr (hBegin a run' hPc'), fun a run hPc => .inr (hOutside a run hPc)⟩
      exact .inr ⟨hAside.supervisor, hKept, note_of_kept hKept fun _ => hSilent⟩
  · refine .inr ⟨?_, .refl _, note_of_kept (.refl _) fun hBroadcasts => ?_⟩
    · cases choice <;> cases hStep <;> rfl
    · rw [hExited u rfl] at hBroadcasts
      cases hBroadcasts
  · exact .inr ⟨(control_keeps hStep).supervisor, .refl _, note_of_kept (.refl _) fun _ => hCall ▸ silent_idle⟩
  · have hAfter : s'.supervisor = s.supervisor ∧ call'.Silent := by
      generalize l.call = call at hStep
      cases call <;> cases choice <;> simp only [callStep, reduceCtorEq] at hStep
      · split at hStep
        · cases hStep
          exact ⟨rfl, silent_idle⟩
        · cases hStep
          exact ⟨rfl, silent_errand _⟩
      · obtain ⟨⟨d, x'⟩, _, hAfter⟩ := Option.map_eq_some_iff.mp hStep
        cases hAfter
        refine ⟨rfl, ?_⟩
        cases x' with
        | none => exact silent_idle
        | some x' => exact silent_errand x'
    exact .inr ⟨hAfter.1, .refl _, note_of_kept (.refl _) fun _ => hAfter.2⟩

/-- Performed restarts and open requests are what the supervisor has counted and what it will
count when the calls under way return. -/
theorem balanced [Fintype τ] (reach : LoggedTo cfg (performs cfg) c) :
    ledger (fun s => (s.2.performed + s.2.requests.length : Int) - s.1.supervisor.totalRestarts)
      (fun _ l => -(l.worker.uncounted : Int)) c = 0 := by
  apply reach.ledger_eq
  · rintro c rfl
    have hEntries : entries (fun (_ : Thread n τ) (l : Local n τ ρ β) => -(l.worker.uncounted : Int))
        (initial cfg : Config (Thread n τ) (Shared n τ ρ β) _).here = 0 := entries_eq_zero fun _ => rfl
    exact congrArg _ hEntries
  · rintro c t choice ⟨s', log'⟩ place hReach _ ⟨_, heeds, hReturns⟩ hLocal
    obtain ⟨hStep, hNote⟩ := Program.watched_eq_some.mp hLocal
    replace hNote : log' = c.shared.2.note (c.here t) place := hNote
    rcases step_notes c.shared.2 hStep fun u h => h ▸ exited_of_logged hReach u with
      ⟨a, run, run', user, rt, request, rfl, hPc, hPc', hRun, hCall⟩ | ⟨hSame, hKept, hNothing⟩
    · have hHeeds := heeds (a, run) (by rw [hPc]; rfl)
      rw [hPc] at hReturns
      have hBalance := runStep_balance hRun hPc hPc' hCall hHeeds hReturns fun msg processed hDeliver hAsked => by
        rw [hDeliver] at hPc
        rw [(requested hReach).bodies msg (.inr ⟨t, .deliver a processed hPc⟩) hAsked, cfg.restartRequest_id]
      rw [← hNote] at hBalance
      show (log'.performed + log'.requests.length : Int) - s'.supervisor.totalRestarts + -(place.worker.uncounted : Int) = _
      rw [hPc, hPc']
      exact hBalance
    · show (log'.performed + log'.requests.length : Int) - s'.supervisor.totalRestarts + -(place.worker.uncounted : Int) = _
      have hLog : log' = c.shared.2 := hNote.trans hNothing
      replace hSame : s'.supervisor = c.shared.1.supervisor := hSame
      rw [hLog, hSame, hKept.uncounted]

omit [NeZero n] [DecidableEq ρ] [DecidableEq τ] in
/-- In a quiet system no request is on its way. -/
theorem Requested.none_open (requested : Requested cfg c) (quiet : Quiet c.unwatched) :
    c.shared.2.requests = [] := by
  rw [List.eq_nil_iff_forall_not_mem]
  intro key hKey
  obtain ⟨msg, ⟨a, h⟩ | ⟨t, ⟨target, h⟩ | ⟨a, processed, h⟩⟩, rfl⟩ := requested.carried key hKey
  · have hDrained : (c.shared.1.runtimes a).mailbox = [] := quiet.drained a
    rw [hDrained] at h
    cases h
  · obtain ⟨a, hBroadcasts⟩ := Option.isSome_iff_exists.mp (requested.sending t target msg h hKey)
    obtain ⟨todo, restarted, frames, hPc⟩ := running_of_broadcasts? hBroadcasts
    exact quiet.settled t a _ hPc
  · exact quiet.settled t a _ h

/-- As long as every request of a broadcast comes to an actor that is opened, and no exception of
`close` leaves `tryRestart`, the supervisor's count is right. -/
theorem accurate_of_performs [Fintype τ] (reach : LoggedTo cfg (performs cfg) c) : Accurate c := by
  intro quiet
  have hRequests := (requested reach).none_open quiet
  have hUncounted : entries (fun _ l => -(l.worker.uncounted : Int)) c.here = 0 := by
    apply entries_eq_zero
    intro t
    have hSettled := quiet.settled t
    change ∀ a pc, (c.here t).worker = .running a pc → pc.Settled at hSettled
    cases hPc : (c.here t).worker with
    | running a pc =>
        show -(pc.uncounted : Int) = 0
        rw [(hSettled a pc hPc).uncounted]
        rfl
    | _ => rfl
  have hBalance := balanced reach
  simp only [ledger, hUncounted, hRequests, List.length_nil] at hBalance
  omega

end Reached

theorem quiet_of_out {c : Config (Thread n τ) (Shared n τ ρ β) (Local n τ ρ β)}
    (hDrained : ∀ a, (c.shared.runtimes a).mailbox = [])
    (hOut : ∀ t, (c.here t).worker.run?.isSome = false) : Quiet c := by
  refine ⟨hDrained, fun t a pc hPc => ?_⟩
  have hNone := hOut t
  rw [hPc] at hNone
  cases hNone

/-- A failure of any actor restarts actor 1. -/
def linked : Setup (Fin 3) Bool := { stormy with registered := [1] }

/-- Actor 0 fails, and actor 1 is restarted. -/
def restartingOther : List (Thread 1 Unit × Choice 1 (Fin 3) Bool) := List.flatten
  [throwing, [(.worker 0, .user .go), (.worker 0, .go)], List.replicate 4 (.worker 0, .route fun _ _ => 0),
    List.replicate 2 (.worker 0, .user .go), List.replicate 8 (.worker 0, .go),
    List.replicate 3 (.worker 0, .user .go),
    [(.worker 0, .user (.returns .closed)), (.worker 0, .user (.returns .opened))],
    List.replicate 2 (.worker 0, .user .go), [(.worker 0, .go)]]

def afterRestartingOther :
    Config (Thread 1 Unit) (Shared 1 Unit (Fin 3) Bool × RestartLog Unit (Fin 3))
      (Local 1 Unit (Fin 3) Bool) :=
  ((loggedStep linked).replay (performs linked) ((initial linked).watched ⟨[], 0⟩) restartingOther).get
    (by decide +kernel)

theorem accurate_afterRestartingOther : Accurate afterRestartingOther ∧ Quiet afterRestartingOther.unwatched ∧
    afterRestartingOther.shared.2.performed = 1 := by
  refine ⟨?_, ?_, by decide +kernel⟩
  · apply accurate_of_performs
    exact Reach.replay (.start rfl) (Option.some_get _).symm
  · exact quiet_of_out (by decide +kernel) (by decide +kernel)

/-- Actor 0 fails when the mailbox of actor 1 is full. Actor 1 handles both of its messages. -/
def droppingRequest : List (Thread 1 Unit × Choice 1 (Fin 3) Bool) := List.flatten
  [[(.control, .start)], sendTo 0 4, sendTo 1 4, sendTo 1 1, [(.control, .launch 0)],
    List.replicate 4 (.worker 0, .go), List.replicate 3 (.worker 0, .user .go),
    [(.worker 0, .user (.throws .opened))], List.replicate 4 (.worker 0, .user .go), [(.worker 0, .go)],
    List.replicate 2 (.worker 0, .user .go), List.replicate 8 (.worker 0, .go),
    List.replicate 3 (.worker 0, .user .go), [(.worker 0, .user (.returns .opened))],
    List.replicate 2 (.worker 0, .user .go), [(.worker 0, .user (.returns .opened))],
    [(.worker 0, .user .go), (.worker 0, .go)]]

def afterDroppingRequest :
    Config (Thread 1 Unit) (Shared 1 Unit (Fin 3) Bool × RestartLog Unit (Fin 3))
      (Local 1 Unit (Fin 3) Bool) :=
  ((loggedStep linked).replay anyStep ((initial linked).watched ⟨[], 0⟩) droppingRequest).get
    (by decide +kernel)

/-- The request was counted, and nobody was restarted. -/
theorem not_accurate_afterDroppingRequest :
    LoggedTo linked anyStep afterDroppingRequest ∧ ¬Accurate afterDroppingRequest := by
  refine ⟨Reach.replay (.start rfl) (Option.some_get _).symm, fun accurate => ?_⟩
  have hQuiet : Quiet afterDroppingRequest.unwatched := quiet_of_out (by decide +kernel) (by decide +kernel)
  have hDiffer : afterDroppingRequest.shared.1.supervisor.totalRestarts ≠
      afterDroppingRequest.shared.2.performed := by
    decide +kernel
  exact hDiffer (accurate hQuiet)

end ActorSystem
