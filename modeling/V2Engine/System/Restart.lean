import V2Engine.System.Tokens

/-! Stopping and starting the dispatcher again. The flag of an actor and its token stay
together across a `stop` that finds the pended list empty. A `stop` that throws parked
tokens away leaves their flags set, and `dispatch` then reports success for actors that
nobody will run. -/
namespace ActorSystem

open Interleaving

variable {n : Nat} {τ ρ β : Type*} [DecidableEq ρ]

/-- The actor whose token the call is about to park. -/
def Call.parked? : Call n τ ρ β → Option ρ
  | .errand (.parking a _) => some a
  | _ => none

section States

variable (a : ρ) (c : Config (Thread n τ) (Shared n τ ρ β) (Local n τ ρ β))

/-- The actor's token is in the pended list, or a call is about to put it there. -/
def Parked : Prop :=
  a ∈ c.shared.dispatcher.pendedActorList ∨ ∃ t, (c.here t).call.parked? = some a

/-- The actor's token is in a worker queue, with a worker, or with a call of
`enqueueEntry` that has yet to push it. -/
def Scheduled : Prop :=
  0 < queued a c.shared.dispatcher ∨ (∃ t, 0 < (c.here t).worker.grip.tokens a) ∨
    ∃ t source, (c.here t).call = .errand (.entering a source)

/-- The step by which a call `dispatch(a)` of thread `t` comes to return true: it finds
the flag set, or its push succeeds. -/
def Granted (t : Thread n τ) (d : Config (Thread n τ) (Shared n τ ρ β) (Local n τ ρ β)) : Prop :=
  (c.here t).call = .errand (.dispatching a) ∧ (d.here t).call = .idle ∨
    (c.here t).call = .errand (.entering a .dispatch) ∧
      ∃ q, (d.here t).call = .errand (.signalling q .dispatch)

end States

section Runs

variable [NeZero n] [DecidableEq τ] [Fintype τ] {cfg : Setup ρ β}
  {c d : Config (Thread n τ) (Shared n τ ρ β) (Local n τ ρ β)}

omit [NeZero n] [DecidableEq τ] in
/-- A token that is not parked is where a worker will come across it. -/
theorem scheduled_of_tokens {a : ρ} (hTokens : tokens a c = 1) (hParked : ¬Parked a c) :
    Scheduled a c := by
  have hList : c.shared.dispatcher.pendedActorList.count a = 0 :=
    List.count_eq_zero.mpr fun hMem => hParked (.inl hMem)
  by_cases hQueued : 0 < queued a c.shared.dispatcher
  · exact .inl hQueued
  have hHand : inHand a c ≠ 0 := by
    simp only [tokens] at hTokens
    omega
  obtain ⟨t, ht⟩ := exists_entry_ne_zero hHand
  by_cases hGrip : 0 < (c.here t).worker.grip.tokens a
  · exact .inr (.inl ⟨t, hGrip⟩)
  refine .inr (.inr ⟨t, ?_⟩)
  have hFree : (c.here t).worker.grip.tokens a = 0 :=
    Int.le_antisymm (Int.not_lt.mp hGrip) (Grip.tokens_nonneg a _)
  have hNotParked : (c.here t).call.parked? ≠ some a := fun h => hParked (.inr ⟨t, h⟩)
  have hErrand : (c.here t).call.errand?.elim 0 (Errand.tokens a) ≠ 0 := by
    simpa only [Local.stance, Stance.tokens, hFree, Int.zero_add] using ht
  cases hCall : (c.here t).call with
  | idle | sending =>
      rw [hCall] at hErrand
      exact absurd rfl hErrand
  | errand x =>
      rw [hCall] at hErrand hNotParked
      cases x with
      | entering b source =>
          have hb : b = a := of_mark_ne_zero hErrand
          exact ⟨source, by rw [hb]⟩
      | parking b source =>
          have hb : b = a := of_mark_ne_zero hErrand
          exact absurd (by rw [hb]; rfl) hNotParked
      | dispatching | signalling | counting | draining | reviving | revivingSignal =>
          exact absurd rfl hErrand

/-- What a flag, and a call `dispatch(a)` that returns true for an actor that is not
parked, say about the actor. -/
structure Dispatchable (cfg : Setup ρ β) (a : ρ)
    (c : Config (Thread n τ) (Shared n τ ρ β) (Local n τ ρ β)) : Prop where
  flag : c.shared.dispatcher.held (cfg.slot a) = true → tokens a c = 1
  granted : ∀ t choice d, (step cfg).next c t choice = some d → Granted a c t d →
    ¬Parked a c → Scheduled a d

omit [NeZero n] [Fintype τ] in
/-- Leaving the dispatcher moves no token. -/
theorem Scheduled.of_return {a : ρ} {t : Thread n τ}
    (hCall : (c.here t).call = .errand (.dispatching a)) (hScheduled : Scheduled a c) :
    Scheduled a ⟨c.shared, Function.update c.here t { c.here t with call := .idle }⟩ := by
  rcases hScheduled with hQueued | ⟨u, hGrip⟩ | ⟨u, source, hEntering⟩
  · exact .inl hQueued
  · refine .inr (.inl ⟨u, ?_⟩)
    by_cases hu : u = t
    · subst hu
      simpa only [Function.update_self] using hGrip
    · simpa only [Function.update_of_ne hu] using hGrip
  · refine .inr (.inr ⟨u, source, ?_⟩)
    have hu : u ≠ t := by
      rintro rfl
      rw [hCall] at hEntering
      cases hEntering
    simpa only [Function.update_of_ne hu] using hEntering

theorem scheduled_of_granted {t : Thread n τ} {choice : Choice n ρ β} {a : ρ}
    (hFlag : c.shared.dispatcher.held (cfg.slot a) = true → tokens a c = 1)
    (hNext : (step cfg).next c t choice = some d) (hGranted : Granted a c t d)
    (hParked : ¬Parked a c) : Scheduled a d := by
  obtain ⟨shared, place, hLocal, rfl⟩ := Program.next_eq_some.mp hNext
  rcases hGranted with ⟨hCall, hReturn⟩ | ⟨hCall, q, hPushed⟩
  · obtain ⟨load, d, x', rfl, hErrand, rfl, rfl⟩ := step_errand hLocal hCall
    simp only [WorkDispatcher.errandStep] at hErrand
    split_ifs at hErrand with hHeld <;> cases hErrand
    · exact (scheduled_of_tokens (hFlag hHeld) hParked).of_return hCall
    · simp at hReturn
  · obtain ⟨load, d, x', rfl, hErrand, rfl, rfl⟩ := step_errand hLocal hCall
    simp only [WorkDispatcher.errandStep] at hErrand
    split_ifs at hErrand <;> cases hErrand
    · simp at hPushed
    · have hQueued := queued_nonneg a c.shared.dispatcher
      have hPush := queued_push a a (WorkDispatcher.pickWorker cfg.dispatcher.watermark load
        (cfg.actorId a)) c.shared.dispatcher
      rw [mark_of_true rfl] at hPush
      apply Or.inl
      show 0 < queued a (c.shared.dispatcher.push _ a)
      omega

/-- Through any number of restarts that each find the pended list empty, a flag stands
for a token, and `dispatch` returns true only when a worker will come across one. -/
theorem reachable_dispatchable (reach : RunsTo cfg keepsTokens c) (a : ρ) :
    Dispatchable cfg a c := by
  have hFlag : c.shared.dispatcher.held (cfg.slot a) = true → tokens a c = 1 := by
    intro hHeld
    rw [tokens_eq reach a, hHeld]
    rfl
  exact ⟨hFlag, fun t choice d hNext => scheduled_of_granted hFlag hNext⟩

/-- The dispatcher is stopped and started with an actor in its queue. -/
def stopAndStart : List (Thread 1 Unit × Choice 1 (Fin 3) Bool) :=
  ([(.control, .stopDispatcher)] : Schedule 1) ++ (List.replicate 5 (.control, .go) : Schedule 1) ++
    ([(.control, .start)] : Schedule 1)

def afterRestart : Config (Thread 1 Unit) (Shared 1 Unit (Fin 3) Bool) (Local 1 Unit (Fin 3) Bool) :=
  ((step sample).replay keepsTokens (initial sample)
    (([(.control, .start)] : Schedule 1) ++ sendTo 0 4 ++ stopAndStart ++
      ([(.client (), .dispatch 0)] : Schedule 1))).get
    (by decide)

theorem reachable_dispatchable_afterRestart : Dispatchable sample 0 afterRestart ∧
    afterRestart.shared.dispatcher.held (sample.slot 0) = true :=
  ⟨reachable_dispatchable (Reach.replay (.start rfl) (Option.some_get _).symm) 0, by decide⟩

/-- The third actor does not fit into the queue, and the dispatcher is restarted. -/
def afterLostToken :
    Config (Thread 1 Unit) (Shared 1 Unit (Fin 3) Bool) (Local 1 Unit (Fin 3) Bool) :=
  ((step sample).replay anyStep (initial sample)
    (([(.control, .start)] : Schedule 1) ++ sendTo 0 4 ++ sendTo 1 4 ++ sendTo 2 3 ++ stopAndStart ++
      ([(.client (), .dispatch 2)] : Schedule 1))).get (by decide)

/-- The actor's flag is set and it has no token, yet a call of `dispatch` for it, which
is the client's next step, returns true. -/
theorem not_dispatchable_afterLostToken : Reachable sample afterLostToken ∧
    afterLostToken.shared.dispatcher.running = true ∧
    afterLostToken.shared.dispatcher.held (sample.slot 2) = true ∧ tokens 2 afterLostToken = 0 ∧
    ∃ d, (step sample).next afterLostToken (.client ()) (.route fun _ _ => 0) = some d ∧
      Granted 2 afterLostToken (.client ()) d ∧ tokens 2 d = 0 :=
  ⟨Reach.replay (.start rfl) (Option.some_get _).symm, by decide, by decide, by decide,
    _, rfl, .inl ⟨rfl, rfl⟩, by decide⟩

end Runs

end ActorSystem
