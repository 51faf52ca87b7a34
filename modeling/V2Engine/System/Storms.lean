import V2Engine.Interleaving.Counted
import V2Engine.Interleaving.Ledger
import V2Engine.System.Shutdown
import Mathlib.Algebra.Group.Int.Defs

/-! Broadcast restarts: an actor whose failure restarts all actors is charged with it, and the
charges bound the number of broadcasts over a whole run. -/
namespace ActorSystem

open Interleaving

variable {n : Nat} {τ ρ β : Type*}

/-- The worker is in `restartAll_`. -/
def RunPc.broadcasts {ρ ε : Type*} : RunPc ρ ε → Bool
  | .broadcasting _ _ _ => true
  | _ => false

/-- The actor whose failure the worker broadcasts. -/
def WorkerPc.broadcasts? {ε : Type*} : WorkerPc n ρ ε → Option ρ
  | .running a (.broadcasting _ _ _) => some a
  | _ => none

section Runs

variable {ε : Type*} [DecidableEq ρ] {cfg : ActorSystemConfig ρ β} {body : ε → β} {a : ρ}
  {rt rt' : ActorRuntime ε} {sup sup' : Supervisor ρ} {pc pc' : RunPc ρ ε}
  {choice : RunChoice ρ β} {request : Option (ρ × β)}

omit [DecidableEq ρ] in
theorem broadcasts_threw (supervised : Bool) (msg : ε) :
    RunPc.broadcasts (RunPc.threw supervised msg : RunPc ρ ε) = false := by
  unfold RunPc.threw
  split <;> rfl

omit [DecidableEq ρ] in
theorem broadcasts_tryConsumeLifecycle (essential : Bool) (msg : ε) (processed : Nat) (id : MessageId) :
    RunPc.broadcasts (rt.tryConsumeLifecycle essential msg processed id : RunPc ρ ε) = false := by
  unfold ActorRuntime.tryConsumeLifecycle
  split <;> try split
  all_goals rfl

/-- A broadcast that comes to its end is counted, and only the decision about a failure leads
to one. -/
theorem runStep_broadcasts (h : runStep cfg body a rt sup pc choice = some (rt', sup', pc', request))
    (hPc : ∀ frames, pc ≠ .deciding frames) :
    (sup'.oneForAllBroadcasts + mark (RunPc.broadcasts pc' = true) : Int) =
        sup.oneForAllBroadcasts + mark (RunPc.broadcasts pc = true) ∧
      (RunPc.broadcasts pc' = true → RunPc.broadcasts pc = true) := by
  have hOutside : RunPc.broadcasts pc = false → RunPc.broadcasts pc' = false →
      sup'.oneForAllBroadcasts = sup.oneForAllBroadcasts →
      (sup'.oneForAllBroadcasts + mark (RunPc.broadcasts pc' = true) : Int) =
          sup.oneForAllBroadcasts + mark (RunPc.broadcasts pc = true) ∧
        (RunPc.broadcasts pc' = true → RunPc.broadcasts pc = true) := by
    intro hBefore hAfter hCount
    rw [hBefore, hAfter, hCount]
    exact ⟨rfl, id⟩
  cases pc <;> cases choice <;> simp only [runStep, reduceCtorEq] at h
  case deciding.go frames => exact absurd rfl (hPc frames)
  case broadcasting.go todo restarted frames =>
    cases todo <;> cases h
    · simp [RunPc.broadcasts, Supervisor.broadcast]
    · exact ⟨rfl, id⟩
  case fetch.go processed =>
    split_ifs at h
    · split at h <;> cases h <;> exact hOutside rfl rfl rfl
    · cases h
      exact hOutside rfl rfl rfl
  case draining.go failure frames => split at h <;> cases h <;> exact hOutside rfl rfl rfl
  case deliver.go msg processed =>
    cases h
    exact hOutside rfl (broadcasts_tryConsumeLifecycle _ _ _ _) rfl
  case handling.throws msg processed state =>
    cases h
    exact hOutside rfl (broadcasts_threw _ _) rfl
  case begin.go | closing.returns | closing.throws | opening.throws =>
    cases h
    refine hOutside rfl ?_ rfl
    split <;> rfl
  case shuttingDown.throws frames state =>
    obtain ⟨restarts, caller⟩ := frames
    cases caller <;> cases h
    · exact hOutside rfl rfl rfl
    · exact hOutside rfl (broadcasts_threw _ _) rfl
  case returning.go frames =>
    obtain ⟨restarts, caller⟩ := frames
    cases restarts <;> cases caller <;> cases h <;> exact hOutside rfl rfl rfl
  all_goals
    cases h
    exact hOutside rfl rfl rfl

/-- The decision for an actor whose failures restart all actors. -/
theorem runStep_deciding {frames : Frames ε} (hAll : cfg.strategy a = .oneForAll)
    (h : runStep cfg body a rt sup (.deciding frames) choice = some (rt', sup', pc', request)) :
    (sup.oneForAllRestartCount a < cfg.maxRestarts ∧ sup' = sup.chargeOneForAll a ∧
      pc' = .broadcasting cfg.registered 0 frames) ∨
    (cfg.maxRestarts ≤ sup.oneForAllRestartCount a ∧ sup' = sup ∧ rt' = rt.shutdown ∧
      pc' = .shuttingDown frames) := by
  cases choice <;> simp only [runStep, reduceCtorEq] at h
  rw [hAll] at h
  simp only [onActorFailed] at h
  split_ifs at h with hLimit
  · cases h
    exact .inr ⟨hLimit, rfl, rfl, rfl⟩
  · cases h
    exact .inl ⟨Int.lt_of_not_ge hLimit, rfl, rfl⟩

end Runs

section Steps

variable [NeZero n] [DecidableEq ρ] [DecidableEq τ] {cfg : Setup ρ β} {t : Thread n τ}
  {s s' : Shared n τ ρ β} {l l' : Local n τ ρ β} {choice : Choice n ρ β}

omit [NeZero n] [DecidableEq ρ] [DecidableEq τ] in
theorem broadcasts?_running (a : ρ) (pc : RunPc ρ (Envelope τ ρ β)) :
    (.running a pc : WorkerPc n ρ (Envelope τ ρ β)).broadcasts? =
      if RunPc.broadcasts pc = true then some a else none := by
  cases pc <;> rfl

omit [NeZero n] [DecidableEq ρ] [DecidableEq τ] in
theorem running_of_broadcasts? {pc : WorkerPc n ρ (Envelope τ ρ β)} {a : ρ} (h : pc.broadcasts? = some a) :
    ∃ todo restarted frames, pc = .running a (.broadcasting todo restarted frames) := by
  cases pc with
  | running b run =>
      cases run <;> cases h
      exact ⟨_, _, _, rfl⟩
  | _ => cases h

omit [NeZero n] [DecidableEq ρ] [DecidableEq τ] in
theorem RunKept.broadcasts {pc pc' : WorkerPc n ρ (Envelope τ ρ β)} (kept : RunKept pc pc') :
    pc'.broadcasts? = pc.broadcasts? := by
  apply Option.ext
  intro a
  constructor
  · intro h
    obtain ⟨todo, restarted, frames, rfl⟩ := running_of_broadcasts? h
    rcases kept.entered _ _ rfl with hSame | hBegin
    · rw [hSame]
      rfl
    · cases hBegin
  · intro h
    obtain ⟨todo, restarted, frames, rfl⟩ := running_of_broadcasts? h
    rcases kept.left _ _ rfl with hSame | hDone
    · rw [hSame]
      rfl
    · cases hDone

/-- A worker comes to a broadcast by a failure of an actor that has a restart left, which is
charged with it; a broadcast is counted at its end. -/
theorem step_broadcasts (hAll : ∀ a, cfg.strategy a = .oneForAll)
    (h : step cfg t s l choice = some (s', l')) :
    (∃ a, l.worker.broadcasts? = none ∧ l'.worker.broadcasts? = some a ∧
      s.supervisor.oneForAllRestartCount a < cfg.maxRestarts ∧
      s'.supervisor = s.supervisor.chargeOneForAll a) ∨
    (s'.supervisor.oneForAllRestartCount = s.supervisor.oneForAllRestartCount ∧
      (s'.supervisor.oneForAllBroadcasts + mark (l'.worker.broadcasts?.isSome = true) : Int) =
        s.supervisor.oneForAllBroadcasts + mark (l.worker.broadcasts?.isSome = true) ∧
      ∀ a, l'.worker.broadcasts? = some a → l.worker.broadcasts? = some a) := by
  rcases step_supervises h with ⟨a, run, run', user, rt, request, hBefore, hAfter, hStep, _⟩ | ⟨hSame, hKept⟩
  · rw [hBefore, hAfter, broadcasts?_running, broadcasts?_running]
    by_cases hDeciding : ∃ frames, run = .deciding frames
    · obtain ⟨frames, rfl⟩ := hDeciding
      rcases runStep_deciding (hAll a) hStep with ⟨hLimit, hCharged, rfl⟩ | ⟨_, hSame, _, rfl⟩
      · exact .inl ⟨a, rfl, rfl, hLimit, hCharged⟩
      · rw [hSame]
        exact .inr ⟨rfl, rfl, fun _ => id⟩
    · have hPc : ∀ frames, run ≠ .deciding frames := fun frames h => hDeciding ⟨frames, h⟩
      obtain ⟨hCount, hInside⟩ := runStep_broadcasts hStep hPc
      refine .inr ⟨(runStep_steady hStep hPc).charged, ?_, fun b => ?_⟩
      · have hMark : ∀ run : RunPc ρ (Envelope τ ρ β),
            mark ((if RunPc.broadcasts run = true then some a else none).isSome = true) =
              mark (RunPc.broadcasts run = true) := by
          intro run
          cases RunPc.broadcasts run <;> rfl
        rw [hMark, hMark]
        exact hCount
      · intro hStarted
        split at hStarted
        · rw [if_pos (hInside ‹_›)]
          exact hStarted
        · cases hStarted
  · rw [hSame, hKept.broadcasts]
    exact .inr ⟨rfl, rfl, fun _ => id⟩

end Steps

section Reached

variable [NeZero n] [DecidableEq ρ] [DecidableEq τ] {cfg : Setup ρ β}
  {c : Config (Thread n τ) (Shared n τ ρ β) (Local n τ ρ β)}

/-- The worker starts to broadcast a failure of actor `a`. -/
def startsBroadcast (a : ρ) (c : Config (Thread n τ) (Shared n τ ρ β) (Local n τ ρ β)) (t : Thread n τ)
    (d : Config (Thread n τ) (Shared n τ ρ β) (Local n τ ρ β)) : Prop :=
  (c.here t).worker.broadcasts? ≠ some a ∧ (d.here t).worker.broadcasts? = some a

/-- A failure of actor `a` that is decided about now shuts the actor down. -/
def ShutsDown (cfg : Setup ρ β) (a : ρ) (c : Config (Thread n τ) (Shared n τ ρ β) (Local n τ ρ β)) :
    Prop :=
  ∀ t frames choice d, (c.here t).worker = .running a (.deciding frames) →
    (step cfg).next c t choice = some d → (d.here t).worker ≠ (c.here t).worker →
    (d.here t).worker = .running a (.shuttingDown frames) ∧ (d.shared.runtimes a).stopped = true

omit [NeZero n] [DecidableEq τ] in
theorem Supervisor.charged (sup : Supervisor ρ) (a b : ρ) :
    (sup.chargeOneForAll a).oneForAllRestartCount b =
      sup.oneForAllRestartCount b + mark (b = a) := by
  unfold Supervisor.chargeOneForAll
  by_cases h : b = a
  · subst h
    simp
  · simp [h]

/-- The broadcasts that actor `a` has started are those it was charged with. -/
theorem charged_eq (hAll : ∀ a, cfg.strategy a = .oneForAll) {a : ρ} {k : Nat}
    (run : Interleaving.Counted (step cfg) (· = initial cfg) anyStep (startsBroadcast a) k c) :
    c.shared.supervisor.oneForAllRestartCount a = k := by
  apply run.meter (Φ := fun c => c.shared.supervisor.oneForAllRestartCount a)
  · rintro c rfl
    rfl
  · intro c d t choice _ hNext ⟨hBefore, hAfter⟩
    obtain ⟨shared, place, hLocal, rfl⟩ := Program.next_eq_some.mp hNext
    rw [Config.here_update] at hAfter
    rcases step_broadcasts hAll hLocal with ⟨b, _, hStarted, _, hCharged⟩ | ⟨_, _, hKept⟩
    · have hSame : a = b := Option.some.inj (hAfter.symm.trans hStarted)
      rw [hCharged, Supervisor.charged, mark_of_true hSame]
    · exact absurd (hKept a hAfter) hBefore
  · intro c d t choice _ hNext hMiss
    obtain ⟨shared, place, hLocal, rfl⟩ := Program.next_eq_some.mp hNext
    rcases step_broadcasts hAll hLocal with ⟨b, hBefore, hStarted, _, hCharged⟩ | ⟨hCount, _⟩
    · have hOther : a ≠ b := by
        rintro rfl
        apply hMiss
        refine ⟨by simp [hBefore], ?_⟩
        rw [Config.here_update]
        exact hStarted
      rw [hCharged, Supervisor.charged, mark_of_false hOther, Int.add_zero]
    · rw [hCount]

theorem charged_le (hAll : ∀ a, cfg.strategy a = .oneForAll) (hLimit : 0 ≤ cfg.maxRestarts)
    (reach : Reachable cfg c) (a : ρ) :
    c.shared.supervisor.oneForAllRestartCount a ≤ cfg.maxRestarts := by
  apply reach.invariant (I := fun c => c.shared.supervisor.oneForAllRestartCount a ≤ cfg.maxRestarts)
  · rintro c rfl
    exact hLimit
  · intro c t choice shared place _ hBound _ hLocal
    rcases step_broadcasts hAll hLocal with ⟨b, _, _, hBudget, hCharged⟩ | ⟨hCount, _⟩
    · show shared.supervisor.oneForAllRestartCount a ≤ cfg.maxRestarts
      rw [hCharged, Supervisor.charged]
      by_cases hSame : a = b
      · subst hSame
        rw [mark_of_true rfl]
        exact hBudget
      · rw [mark_of_false hSame, Int.add_zero]
        exact hBound
    · show shared.supervisor.oneForAllRestartCount a ≤ cfg.maxRestarts
      rw [hCount]
      exact hBound

variable [Fintype ρ] [Fintype τ]

/-- The broadcasts that are over and those that are not are all charged to some actor. -/
theorem broadcasts_balance (hAll : ∀ a, cfg.strategy a = .oneForAll) (reach : Reachable cfg c) :
    ledger (fun s => (s.supervisor.oneForAllBroadcasts : Int) - ∑ a, s.supervisor.oneForAllRestartCount a)
      (fun _ l => mark (l.worker.broadcasts?.isSome = true)) c = 0 := by
  apply reach.ledger_eq
  · rintro c rfl
    have hEntries : entries (fun (_ : Thread n τ) l => mark (l.worker.broadcasts?.isSome = true))
        (initial cfg : Config (Thread n τ) (Shared n τ ρ β) _).here = 0 := entries_eq_zero fun _ => rfl
    rw [ledger, hEntries]
    simp [initial, Shared.constructed]
  · intro c t choice shared place _ _ _ hLocal
    rcases step_broadcasts hAll hLocal with ⟨a, hBefore, hStarted, _, hCharged⟩ | ⟨hCount, hBalance, _⟩
    · have hSum : ∑ b, shared.supervisor.oneForAllRestartCount b =
          ∑ b, c.shared.supervisor.oneForAllRestartCount b + 1 := by
        rw [hCharged]
        simp only [Supervisor.charged, Finset.sum_add_distrib]
        simp [mark]
      have hBroadcasts : shared.supervisor.oneForAllBroadcasts = c.shared.supervisor.oneForAllBroadcasts := by
        rw [hCharged]
        rfl
      rw [hBefore, hStarted, hSum, hBroadcasts, mark_of_true (by rfl), mark_of_false (by simp)]
      omega
    · rw [hCount]
      omega

/-- No actor broadcasts more failures than its budget allows, a failure beyond the budget shuts
the actor down, and all actors together stay within their budgets. -/
theorem storms_end (hAll : ∀ a, cfg.strategy a = .oneForAll) (hLimit : 0 ≤ cfg.maxRestarts) :
    (∀ a k c, Interleaving.Counted (step cfg) (· = initial cfg) anyStep (startsBroadcast a) k c →
      (k : Int) ≤ cfg.maxRestarts ∧ ((k : Int) = cfg.maxRestarts → ShutsDown (n := n) (τ := τ) cfg a c)) ∧
    ∀ c : Config (Thread n τ) (Shared n τ ρ β) (Local n τ ρ β), Reachable cfg c →
      (c.shared.supervisor.oneForAllBroadcasts : Int) ≤ Fintype.card ρ * cfg.maxRestarts := by
  constructor
  · intro a k c run
    have hCharged := charged_eq hAll run
    refine ⟨hCharged ▸ charged_le hAll hLimit run.reach a, fun hSpent => ?_⟩
    intro t frames choice d hPlace hNext hMoved
    obtain ⟨shared, place, hLocal, rfl⟩ := Program.next_eq_some.mp hNext
    rw [Config.here_update] at hMoved ⊢
    rcases step_supervises hLocal with ⟨b, run, run', user, rt, request, hBefore, hAfter, hStep, hRuntime⟩ |
      ⟨_, hKept⟩
    · rw [hPlace] at hBefore
      cases hBefore
      rcases runStep_deciding (hAll a) hStep with ⟨hBudget, _⟩ | ⟨_, _, rfl, rfl⟩
      · rw [hCharged, hSpent] at hBudget
        exact absurd hBudget (lt_irrefl _)
      · refine ⟨hAfter, ?_⟩
        show (shared.runtimes a).stopped = true
        rw [hRuntime]
        rfl
    · rcases hKept.left _ _ hPlace with hSame | hDone
      · exact absurd (hSame.trans hPlace.symm) hMoved
      · cases hDone
  · intro c reach
    have hBalance := broadcasts_balance hAll reach
    have hUnfinished := entries_nonneg (w := fun _ l => mark (l.worker.broadcasts?.isSome = true))
      (f := c.here) fun _ => mark_nonneg _
    have hSum : ∑ a, c.shared.supervisor.oneForAllRestartCount a ≤ ∑ _a : ρ, cfg.maxRestarts :=
      Finset.sum_le_sum fun a _ => charged_le hAll hLimit reach a
    rw [Finset.sum_const, Finset.card_univ, Int.nsmul_eq_mul] at hSum
    simp only [ledger] at hBalance
    omega

end Reached

/-- One restart of all actors for each actor; actors 0 and 1 are registered. -/
def stormy : Setup (Fin 3) Bool :=
  { brittle with strategy := fun _ => .oneForAll, registered := [0, 1], maxRestarts := 1 }

/-- Actor 0 fails. It is running, so its own request only goes to its mailbox; actor 1 is queued. -/
def storming : List (Thread 1 Unit × Choice 1 (Fin 3) Bool) := List.flatten
  [throwing, [(.worker 0, .user .go), (.worker 0, .go)],
    List.replicate 1 (.worker 0, .route fun _ _ => 0), [(.worker 0, .user .go), (.worker 0, .go)],
    List.replicate 4 (.worker 0, .route fun _ _ => 0), [(.worker 0, .user .go)]]

def afterStorm : Config (Thread 1 Unit) (Shared 1 Unit (Fin 3) Bool) (Local 1 Unit (Fin 3) Bool) :=
  ((step stormy).replay anyStep (initial stormy) storming).get (by decide +kernel)

theorem storms_end_afterStorm :
    (∃ k : Nat,
      Interleaving.Counted (step stormy) (· = initial stormy) anyStep (startsBroadcast 0) k afterStorm ∧
      (k : Int) ≤ 1) ∧
    (afterStorm.shared.supervisor.oneForAllBroadcasts : Int) ≤ 3 ∧
    afterStorm.shared.supervisor.oneForAllBroadcasts = 1 := by
  have reach : Reachable stormy afterStorm := Reach.replay (.start rfl) (Option.some_get _).symm
  have hStrategy : ∀ a, stormy.strategy a = .oneForAll := fun _ => rfl
  obtain ⟨hEach, hAll⟩ := storms_end (n := 1) (τ := Unit) hStrategy (by decide)
  obtain ⟨k, run⟩ := reach.counted (startsBroadcast 0)
  exact ⟨⟨k, run, (hEach 0 k afterStorm run).1⟩, hAll afterStorm reach, by decide +kernel⟩

end ActorSystem
