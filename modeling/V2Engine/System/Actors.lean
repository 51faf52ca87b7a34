import V2Engine.System.Delivery
import V2Engine.Interleaving.Refinement

/-! What the runtime is for: actors, each of which goes through its own code, one step
after the other, and senders that hand them messages. There are no workers here, no
queues of actors, no tokens and nothing to wake, and a system of threads is seen to do
nothing else, whatever its dispatcher does. -/
namespace ActorSystem

open Interleaving Relation

variable {n : Nat} {τ ρ β : Type*}

/-- `activity` says where the run of an actor stands, if there is one, and `handing` has
the message that a sender is about to put into a mailbox. -/
structure Actors (τ ρ β : Type*) where
  runtimes : ρ → ActorRuntime (Envelope τ ρ β)
  supervisor : Supervisor ρ
  activity : ρ → Option (RunPc ρ (Envelope τ ρ β))
  handing : Sender τ ρ → Option (ρ × Envelope τ ρ β)
  sent : Sender τ ρ → Nat

namespace Actors

def initial (cfg : ActorSystemConfig ρ β) : Actors τ ρ β where
  runtimes a := .constructed (cfg.startState a)
  supervisor := ⟨0, 0, 0, fun _ => 0⟩
  activity _ := none
  handing _ := none
  sent _ := 0

variable [DecidableEq ρ] [DecidableEq τ]

/-- A sender makes its next message. -/
def hand (s : Actors τ ρ β) (sender : Sender τ ρ) (target : ρ) (body : β) : Actors τ ρ β :=
  { s with
    handing := Function.update s.handing sender (some (target, ⟨sender, s.sent sender, body⟩))
    sent := Function.update s.sent sender (s.sent sender + 1) }

/-- An actor has come to `pc`. -/
def come (s : Actors τ ρ β) (a : ρ) (rt : ActorRuntime (Envelope τ ρ β)) (sup : Supervisor ρ)
    (pc : RunPc ρ (Envelope τ ρ β)) : Actors τ ρ β :=
  { s with
    runtimes := Function.update s.runtimes a rt
    supervisor := sup
    activity := Function.update s.activity a (some pc) }

end Actors

variable [DecidableEq ρ] [DecidableEq τ]

/-- An actor begins or ends a run, or takes a step of one; it waits while a message of its
own is handed over. A client sends when it likes. A message comes into the mailbox or,
when that is full, is dropped. -/
inductive Acts (cfg : ActorSystemConfig ρ β) (s : Actors τ ρ β) : Actors τ ρ β → Prop where
  | begins (a : ρ) (hPc : s.activity a = none) :
      Acts cfg s { s with activity := Function.update s.activity a (some .begin) }
  | ends (a : ρ) (hPc : s.activity a = some .done) (hFree : s.handing (.actor a) = none) :
      Acts cfg s { s with activity := Function.update s.activity a none }
  | runs (a : ρ) {pc pc' : RunPc ρ (Envelope τ ρ β)} {user : RunChoice ρ β}
      {rt : ActorRuntime (Envelope τ ρ β)} {sup : Supervisor ρ} (hPc : s.activity a = some pc)
      (hFree : s.handing (.actor a) = none)
      (hStep : runStep cfg Envelope.body a (s.runtimes a) s.supervisor pc user =
        some (rt, sup, pc', none)) : Acts cfg s (s.come a rt sup pc')
  | requests (a : ρ) {pc pc' : RunPc ρ (Envelope τ ρ β)} {user : RunChoice ρ β}
      {rt : ActorRuntime (Envelope τ ρ β)} {sup : Supervisor ρ} {target : ρ} {body : β}
      (hPc : s.activity a = some pc) (hFree : s.handing (.actor a) = none)
      (hStep : runStep cfg Envelope.body a (s.runtimes a) s.supervisor pc user =
        some (rt, sup, pc', some (target, body))) :
      Acts cfg s ((s.come a rt sup pc').hand (.actor a) target body)
  | sends (t : τ) (target : ρ) (body : β) (hFree : s.handing (.client t) = none) :
      Acts cfg s (s.hand (.client t) target body)
  | arrives (sender : Sender τ ρ) {target : ρ} {msg : Envelope τ ρ β}
      {rt : ActorRuntime (Envelope τ ρ β)} (hHanding : s.handing sender = some (target, msg))
      (hPush : (s.runtimes target).push (cfg.mailboxSize target) msg = some rt) :
      Acts cfg s { s with
        runtimes := Function.update s.runtimes target rt
        handing := Function.update s.handing sender none }
  | refused (sender : Sender τ ρ) {target : ρ} {msg : Envelope τ ρ β}
      (hHanding : s.handing sender = some (target, msg))
      (hFull : (s.runtimes target).push (cfg.mailboxSize target) msg = none) :
      Acts cfg s { s with handing := Function.update s.handing sender none }

/-- The actors as the state of the threads shows them. -/
structure Shows (c : Config (Thread n τ) (Shared n τ ρ β) (Local n τ ρ β)) (s : Actors τ ρ β) :
    Prop where
  runtimes : s.runtimes = c.shared.runtimes
  supervisor : s.supervisor = c.shared.supervisor
  sent : s.sent = c.shared.sent
  activity : ∀ a pc, s.activity a = some pc ↔ ∃ t, (c.here t).worker = .running a pc
  handing : ∀ sender target msg, s.handing sender = some (target, msg) ↔
    msg.sender = sender ∧ ∃ t, (c.here t).call = .sending target msg

/-- A run that stands where it stood has not called the supervisor. -/
theorem supervisor_of_standing {ε : Type*} {cfg : ActorSystemConfig ρ β} {body : ε → β} {a : ρ}
    {rt rt' : ActorRuntime ε} {sup sup' : Supervisor ρ} {pc : RunPc ρ ε} {user : RunChoice ρ β}
    {request : Option (ρ × β)}
    (h : runStep cfg body a rt sup pc user = some (rt', sup', pc, request)) : sup' = sup := by
  cases pc <;> cases user <;> simp only [runStep, reduceCtorEq] at h
  case fetch.go processed =>
    split at h
    · split at h <;> cases h
    · cases h
  case draining.go => split at h <;> cases h
  case deciding.go frames =>
    generalize cfg.strategy a = strategy at h
    cases strategy <;> simp only [onActorFailed] at h
    · split at h <;> cases h
    · split at h <;> cases h
    · cases h
  case failed.go => cases h
  case broadcasting.go todo restarted frames => cases todo <;> cases h
  case shuttingDown.throws frames state =>
    obtain ⟨restarts, caller⟩ := frames
    cases caller <;> simp only [Option.some.injEq, Prod.mk.injEq] at h <;> exact h.2.1.symm
  case returning.go frames =>
    obtain ⟨restarts, caller⟩ := frames
    cases restarts <;> cases caller <;> cases h
  all_goals
    simp only [Option.some.injEq, Prod.mk.injEq] at h
    exact h.2.1.symm

section Threads

variable {c : Config (Thread n τ) (Shared n τ ρ β) (Local n τ ρ β)} {s : Actors τ ρ β}
  {t : Thread n τ} {shared : Shared n τ ρ β} {place : Local n τ ρ β}

omit [DecidableEq ρ] in
/-- Some thread stands at `p` after a step of thread `t`. -/
theorem exists_update (p : Local n τ ρ β → Prop) :
    (∃ u, p (Function.update c.here t place u)) ↔ p place ∨ ∃ u, u ≠ t ∧ p (c.here u) := by
  constructor
  · rintro ⟨u, hu⟩
    by_cases h : u = t
    · subst h
      exact .inl (by simpa only [Function.update_self] using hu)
    · exact .inr ⟨u, h, by simpa only [Function.update_of_ne h] using hu⟩
  · rintro (h | ⟨u, hne, hu⟩)
    · exact ⟨t, by simpa only [Function.update_self] using h⟩
    · exact ⟨u, by simpa only [Function.update_of_ne hne] using hu⟩

omit [DecidableEq ρ] in
theorem exists_update_of_iff {p : Local n τ ρ β → Prop} (h : p place ↔ p (c.here t)) :
    (∃ u, p (Function.update c.here t place u)) ↔ ∃ u, p (c.here u) := by
  rw [exists_update, h]
  constructor
  · rintro (h | ⟨u, -, hu⟩)
    · exact ⟨t, h⟩
    · exact ⟨u, hu⟩
  · rintro ⟨u, hu⟩
    by_cases h : u = t
    · exact .inl (h ▸ hu)
    · exact .inr ⟨u, h, hu⟩

end Threads

section Runs

variable [NeZero n] [Fintype τ] {cfg : Setup ρ β}
  {c : Config (Thread n τ) (Shared n τ ρ β) (Local n τ ρ β)} {s : Actors τ ρ β}
  {t : Thread n τ} {shared : Shared n τ ρ β} {place : Local n τ ρ β}
  {allowed : Config (Thread n τ) (Shared n τ ρ β) (Local n τ ρ β) → Thread n τ →
    Choice n ρ β → Prop}

/-- A sender hands nothing over while its thread has no message under way. -/
theorem Shows.handing_none (h : Shows c s) (reach : RunsTo cfg allowed c) {sender : Sender τ ρ}
    (hSends : Sends t (c.here t) sender) (hSilent : (c.here t).call.Silent) :
    s.handing sender = none := by
  cases hHanding : s.handing sender with
  | none => rfl
  | some pair =>
      obtain ⟨target, msg⟩ := pair
      obtain ⟨rfl, u, hCall⟩ := (h.handing _ _ _).mp hHanding
      have hSame : t = u := sends_unique reach hSends ((numbered reach).owner u target msg hCall)
      subst hSame
      exact absurd hCall (hSilent target msg)

omit [NeZero n] [Fintype τ] [DecidableEq ρ] in
theorem Shows.handing_kept (h : Shows c s) (hBefore : (c.here t).call.Silent)
    (hAfter : place.call.Silent) (sender : Sender τ ρ) (target : ρ) (msg : Envelope τ ρ β) :
    s.handing sender = some (target, msg) ↔
      msg.sender = sender ∧ ∃ u, (Function.update c.here t place u).call = .sending target msg := by
  rw [h.handing, exists_update_of_iff (p := fun l => l.call = .sending target msg)
    (iff_of_false (hAfter target msg) (hBefore target msg))]

omit [NeZero n] [Fintype τ] [DecidableEq ρ] in
theorem Shows.activity_kept (h : Shows c s) (hWorker : place.worker = (c.here t).worker) (a : ρ)
    (pc : RunPc ρ (Envelope τ ρ β)) :
    s.activity a = some pc ↔
      ∃ u, (Function.update c.here t place u).worker = .running a pc := by
  rw [h.activity, exists_update_of_iff (p := fun l => l.worker = .running a pc) (by rw [hWorker])]

/-- A thread that is in no actor's code, or has come to the end of it, leaves it. -/
theorem Shows.leaves (h : Shows c s) (reach : RunsTo cfg allowed c)
    (hSilent : (c.here t).call.Silent)
    (hOver : ∀ a pc, (c.here t).worker = .running a pc → pc = .done) :
    ∃ activity, ReflTransGen (Acts cfg.toActorSystemConfig) s { s with activity := activity } ∧
      ∀ b pc, activity b = some pc ↔ ∃ u, u ≠ t ∧ (c.here u).worker = .running b pc := by
  by_cases hRun : ∃ a pc, (c.here t).worker = .running a pc
  · obtain ⟨a, pc, hPc⟩ := hRun
    obtain rfl := hOver a pc hPc
    have hEnds : Acts cfg.toActorSystemConfig s
        { s with activity := Function.update s.activity a none } :=
      .ends a ((h.activity a .done).mpr ⟨t, hPc⟩) (h.handing_none reach ⟨.done, hPc⟩ hSilent)
    refine ⟨_, .single hEnds, fun b pc => ?_⟩
    by_cases hb : b = a
    · subst hb
      rw [Function.update_self]
      refine iff_of_false nofun ?_
      rintro ⟨u, hne, hu⟩
      exact hne (running_unique reach hu hPc)
    · rw [Function.update_of_ne hb, h.activity]
      refine exists_congr fun u => (and_iff_right_of_imp ?_).symm
      rintro hu rfl
      cases hu.symm.trans hPc
      exact hb rfl
  · push Not at hRun
    refine ⟨s.activity, .refl, fun b pc => ?_⟩
    rw [h.activity]
    refine exists_congr fun u => (and_iff_right_of_imp ?_).symm
    rintro hu rfl
    exact hRun b pc hu

/-- A thread comes into no actor's code, or to the beginning of it. -/
theorem enters {activity : ρ → Option (RunPc ρ (Envelope τ ρ β))}
    (hActivity : ∀ b pc, activity b = some pc ↔ ∃ u, u ≠ t ∧ (c.here u).worker = .running b pc)
    (hAfter : RunsTo cfg allowed ⟨shared, Function.update c.here t place⟩)
    (hFresh : ∀ a pc, place.worker = .running a pc → pc = .begin) :
    ∃ activity', ReflTransGen (Acts cfg.toActorSystemConfig) { s with activity := activity }
        { s with activity := activity' } ∧
      ∀ b pc, activity' b = some pc ↔
        ∃ u, (Function.update c.here t place u).worker = .running b pc := by
  by_cases hRun : ∃ a pc, place.worker = .running a pc
  · obtain ⟨a, pc, hPc⟩ := hRun
    obtain rfl := hFresh a pc hPc
    have hIdle : activity a = none := by
      cases hBusy : activity a with
      | none => rfl
      | some pc =>
          obtain ⟨u, hne, hu⟩ := (hActivity a pc).mp hBusy
          have hOther : (Function.update c.here t place u).worker = .running a pc := by
            rwa [Function.update_of_ne hne]
          have hSelf : (Function.update c.here t place t).worker = .running a .begin := by
            rwa [Function.update_self]
          exact absurd (running_unique hAfter hOther hSelf) hne
    refine ⟨_, .single (.begins a hIdle), fun b pc => ?_⟩
    rw [exists_update (fun l => l.worker = .running b pc), hPc]
    by_cases hb : b = a
    · subst hb
      simp only [Function.update_self, Option.some.injEq, WorkerPc.running.injEq, true_and]
      constructor
      · exact .inl
      · rintro (rfl | hOther)
        · rfl
        · rw [(hActivity b pc).mpr hOther] at hIdle
          cases hIdle
    · rw [Function.update_of_ne hb, hActivity]
      constructor
      · exact .inr
      · rintro (hSame | hOther)
        · cases hSame
          exact absurd rfl hb
        · exact hOther
  · push Not at hRun
    refine ⟨activity, .refl, fun b pc => ?_⟩
    rw [exists_update (fun l => l.worker = .running b pc), hActivity]
    exact (or_iff_right (hRun b pc)).symm

/-- A step outside of the actors' code. -/
theorem Shows.quiet (h : Shows c s) (reach : RunsTo cfg allowed c)
    (hAfter : RunsTo cfg allowed ⟨shared, Function.update c.here t place⟩)
    (hRuntimes : shared.runtimes = c.shared.runtimes)
    (hSupervisor : shared.supervisor = c.shared.supervisor) (hSent : shared.sent = c.shared.sent)
    (hBefore : (c.here t).call.Silent) (hSilent : place.call.Silent)
    (hRun : RunKept (c.here t).worker place.worker) :
    ∃ s', ReflTransGen (Acts cfg.toActorSystemConfig) s s' ∧
      Shows ⟨shared, Function.update c.here t place⟩ s' := by
  by_cases hWorker : place.worker = (c.here t).worker
  · exact ⟨s, .refl, h.runtimes.trans hRuntimes.symm, h.supervisor.trans hSupervisor.symm,
      h.sent.trans hSent.symm, h.activity_kept hWorker, h.handing_kept hBefore hSilent⟩
  · have hOver : ∀ a pc, (c.here t).worker = .running a pc → pc = .done := fun a pc hPc =>
      (hRun.left a pc hPc).resolve_left fun hKept => hWorker (hKept.trans hPc.symm)
    have hFresh : ∀ a pc, place.worker = .running a pc → pc = .begin := fun a pc hPc =>
      (hRun.entered a pc hPc).resolve_left fun hKept => hWorker (hPc.trans hKept.symm)
    obtain ⟨activity, hLeaves, hActivity⟩ := h.leaves reach hBefore hOver
    obtain ⟨activity', hEnters, hActivity'⟩ := enters (s := s) hActivity hAfter hFresh
    exact ⟨_, hLeaves.trans hEnters, h.runtimes.trans hRuntimes.symm,
      h.supervisor.trans hSupervisor.symm, h.sent.trans hSent.symm, hActivity',
      h.handing_kept hBefore hSilent⟩

/-- The message under way has been put into a mailbox, or dropped. -/
theorem Shows.handed (h : Shows c s) (reach : RunsTo cfg allowed c) {target : ρ}
    {msg : Envelope τ ρ β} (hCall : (c.here t).call = .sending target msg)
    (hSilent : place.call.Silent) (sender : Sender τ ρ) (target' : ρ) (msg' : Envelope τ ρ β) :
    Function.update s.handing msg.sender none sender = some (target', msg') ↔
      msg'.sender = sender ∧
        ∃ u, (Function.update c.here t place u).call = .sending target' msg' := by
  rw [exists_update (fun l => l.call = .sending target' msg'), or_iff_right (hSilent target' msg')]
  by_cases hSender : sender = msg.sender
  · subst hSender
    rw [Function.update_self]
    refine iff_of_false nofun ?_
    rintro ⟨hSame, u, hne, hu⟩
    have hOwner := (numbered reach).owner t target msg hCall
    exact hne (sends_unique reach (hSame ▸ (numbered reach).owner u target' msg' hu) hOwner)
  · rw [Function.update_of_ne hSender, h.handing]
    refine and_congr_right fun hSame => exists_congr fun u => (and_iff_right_of_imp ?_).symm
    rintro hu rfl
    cases hu.symm.trans hCall
    exact hSender hSame.symm

omit [NeZero n] [Fintype τ] [DecidableEq ρ] in
/-- A sender has made its next message. -/
theorem Shows.made (h : Shows c s) {sender : Sender τ ρ} (hFree : s.handing sender = none)
    (hBefore : (c.here t).call.Silent) {target : ρ} {msg : Envelope τ ρ β}
    (hMsg : msg.sender = sender) (hCall : place.call = .sending target msg) [DecidableEq ρ]
    (sender' : Sender τ ρ) (target' : ρ) (msg' : Envelope τ ρ β) :
    Function.update s.handing sender (some (target, msg)) sender' = some (target', msg') ↔
      msg'.sender = sender' ∧
        ∃ u, (Function.update c.here t place u).call = .sending target' msg' := by
  have hOther : (∃ u, u ≠ t ∧ (c.here u).call = .sending target' msg') ↔
      ∃ u, (c.here u).call = .sending target' msg' := by
    refine exists_congr fun u => and_iff_right_of_imp ?_
    rintro hu rfl
    exact hBefore _ _ hu
  rw [exists_update (fun l => l.call = .sending target' msg'), hCall, hOther]
  by_cases hSender : sender' = sender
  · subst hSender
    rw [Function.update_self]
    constructor
    · intro hSame
      cases hSame
      exact ⟨hMsg, .inl rfl⟩
    · rintro ⟨hSame, hNew | hOld⟩
      · cases hNew
        rfl
      · rw [(h.handing _ _ _).mpr ⟨hSame, hOld⟩] at hFree
        cases hFree
  · rw [Function.update_of_ne hSender, h.handing]
    refine and_congr_right fun hSame => (or_iff_right ?_).symm
    intro hNew
    cases hNew
    exact hSender (hSame.symm.trans hMsg)

/-- The thread has taken a step in the code of actor `a`. -/
theorem Shows.came (h : Shows c s) (reach : RunsTo cfg allowed c) {a : ρ}
    {pc pc' : RunPc ρ (Envelope τ ρ β)} (hPc : (c.here t).worker = .running a pc)
    (hPlace : place.worker = .running a pc') (b : ρ) (run : RunPc ρ (Envelope τ ρ β)) :
    Function.update s.activity a (some pc') b = some run ↔
      ∃ u, (Function.update c.here t place u).worker = .running b run := by
  rw [exists_update (fun l => l.worker = .running b run), hPlace]
  by_cases hb : b = a
  · subst hb
    simp only [Function.update_self, Option.some.injEq, WorkerPc.running.injEq, true_and]
    refine (or_iff_left ?_).symm
    rintro ⟨u, hne, hu⟩
    exact hne (running_unique reach hu hPc)
  · rw [Function.update_of_ne hb, h.activity]
    constructor
    · rintro ⟨u, hu⟩
      refine .inr ⟨u, ?_, hu⟩
      rintro rfl
      cases hu.symm.trans hPc
      exact hb rfl
    · rintro (hSame | ⟨u, -, hu⟩)
      · cases hSame
        exact absurd rfl hb
      · exact ⟨u, hu⟩

/-- Every step of a thread is one of the actors and their senders, or none of theirs. -/
theorem Shows.step (h : Shows c s) (reach : RunsTo cfg allowed c)
    (hAfter : RunsTo cfg allowed ⟨shared, Function.update c.here t place⟩) {choice : Choice n ρ β}
    (hLocal : ActorSystem.step cfg t c.shared (c.here t) choice = some (shared, place)) :
    ∃ s', ReflTransGen (Acts cfg.toActorSystemConfig) s s' ∧
      Shows ⟨shared, Function.update c.here t place⟩ s' := by
  cases step_mails hLocal with
  | none hRuntimes hSent hBefore hSilent hRun =>
      refine h.quiet reach hAfter hRuntimes ?_ hSent hBefore hSilent hRun
      rcases step_supervises hLocal with ⟨a, run, run', user, rt, request, hPc, hPc', hStep, _⟩ |
        ⟨hSame, _⟩
      · rcases hRun.left a run hPc with hKept | rfl
        · cases hPc'.symm.trans hKept
          exact supervisor_of_standing hStep
        · cases user <;> cases hStep
      · exact hSame
  | post target msg rt hCall hPush hShared hPlace =>
      subst hShared hPlace
      have hHanding : s.handing msg.sender = some (target, msg) :=
        (h.handing _ _ _).mpr ⟨rfl, t, hCall⟩
      refine ⟨_, .single (.arrives msg.sender hHanding (h.runtimes ▸ hPush)), ?_⟩
      exact ⟨by rw [h.runtimes]; rfl, h.supervisor, h.sent, h.activity_kept rfl,
        h.handed reach hCall (silent_errand _)⟩
  | drop target msg hCall hFull hShared hPlace =>
      subst hShared hPlace
      have hHanding : s.handing msg.sender = some (target, msg) :=
        (h.handing _ _ _).mpr ⟨rfl, t, hCall⟩
      refine ⟨_, .single (.refused msg.sender hHanding (h.runtimes ▸ hFull)), ?_⟩
      exact ⟨h.runtimes, h.supervisor, h.sent, h.activity_kept rfl,
        h.handed reach hCall silent_idle⟩
  | run w a pc pc' user rt sup hThread hCall hPc hStep hShared hPlace =>
      subst hShared hPlace
      have hSilent : (c.here t).call.Silent := hCall ▸ silent_idle
      have hFree : s.handing (.actor a) = none := h.handing_none reach ⟨pc, hPc⟩ hSilent
      rw [← h.runtimes, ← h.supervisor] at hStep
      refine ⟨_, .single (.runs a ((h.activity a pc).mpr ⟨t, hPc⟩) hFree hStep), ?_⟩
      exact ⟨by simp only [Actors.come, h.runtimes, Shared.setRuntime], rfl, h.sent,
        h.came reach hPc rfl, h.handing_kept hSilent hSilent⟩
  | request w a pc pc' user rt sup target body hThread hCall hPc hStep hShared hPlace =>
      subst hShared hPlace
      have hSilent : (c.here t).call.Silent := hCall ▸ silent_idle
      have hFree : s.handing (.actor a) = none := h.handing_none reach ⟨pc, hPc⟩ hSilent
      rw [← h.runtimes, ← h.supervisor] at hStep
      refine ⟨_, .single (.requests a ((h.activity a pc).mpr ⟨t, hPc⟩) hFree hStep), ?_⟩
      refine ⟨by simp only [Actors.hand, Actors.come, h.runtimes, Shared.setRuntime]; rfl, rfl, ?_,
        h.came reach hPc rfl, ?_⟩
      · simp only [Actors.hand, Actors.come, h.sent]
        rfl
      · have hSent : s.sent = c.shared.sent := h.sent
        exact h.made hFree hSilent rfl (by simp only [Actors.come, hSent])
  | clientSend u target body hThread hCall hShared hPlace =>
      subst hShared hPlace
      have hSilent : (c.here t).call.Silent := hCall ▸ silent_idle
      have hFree : s.handing (.client u) = none := h.handing_none reach hThread hSilent
      refine ⟨_, .single (.sends u target body hFree), ?_⟩
      refine ⟨h.runtimes, h.supervisor, ?_, h.activity_kept rfl, ?_⟩
      · simp only [Actors.hand, h.sent]
        rfl
      · exact h.made hFree hSilent rfl (by simp only [h.sent])

/-- Whatever the workers, their queues and the senders do, the actors go from one state
to the next as if there were nothing but them. -/
theorem threads_act (reach : Reachable cfg c) :
    ∃ s, ReflTransGen (Acts cfg.toActorSystemConfig) (.initial cfg.toActorSystemConfig) s ∧
      Shows c s := by
  refine Reach.refines (R := Shows) ?_ ?_ reach
  · rintro c rfl
    refine ⟨rfl, rfl, rfl, fun a pc => iff_of_false nofun ?_, fun sender target msg =>
      iff_of_false nofun ?_⟩
    · rintro ⟨t, hPc⟩
      cases hPc
    · rintro ⟨_, t, hCall⟩
      cases hCall
  · intro c t choice shared place s hReach hAfter hShows hLocal
    exact hShows.step hReach hAfter hLocal

theorem threads_act_sendAndRun :
    ∃ s, ReflTransGen (Acts sample.toActorSystemConfig) (.initial sample.toActorSystemConfig) s ∧
      Shows afterSendAndRun s :=
  threads_act (Reach.replay (.start rfl) (Option.some_get _).symm)

end Runs

end ActorSystem
