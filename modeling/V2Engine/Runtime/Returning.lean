import V2Engine.Runtime.ActorRuntime
import V2Engine.Interleaving.Inevitable
import Mathlib.Data.Prod.Lex

/-! `ActorRuntime::run` comes to its end. Whatever the actor's code does, the run
handles or drains what is in the mailbox and restarts the actor as often as its budget
allows, and then it returns; only an exception that `close` throws out of `shutdown`,
called from a handler of `processBatch`, gets past it. -/

variable {ρ β ε : Type*}

/-- The step by which an exception leaves `processBatch`. -/
def RunPc.escapes : RunPc ρ ε → RunChoice ρ β → Bool
  | .shuttingDown ⟨_, .batch⟩, .throws _ => true
  | _, _ => false

/-- The actor's code goes on and sends a message, instead of coming to its end. -/
def RunChoice.isSend : RunChoice ρ β → Bool
  | .send _ _ => true
  | _ => false

/-- A run under way: the runtime, the place in the code, and how many messages are still
to arrive before it is over. -/
structure RunView (ρ ε : Type*) where
  rt : ActorRuntime ε
  pc : RunPc ρ ε
  arriving : Nat

namespace RunView

section Moves

variable [DecidableEq ρ]

/-- The run goes on, or a message arrives. Other actors' failures change the supervisor's
counters at any time. -/
inductive Move (cfg : ActorSystemConfig ρ β) (body : ε → β) (a : ρ) : RunView ρ ε → RunView ρ ε → Prop where
  | own {rt rt' : ActorRuntime ε} {sup sup' : Supervisor ρ} {pc pc' : RunPc ρ ε} {arriving : Nat}
      {request : Option (ρ × β)} (choice : RunChoice ρ β) (hEnds : choice.isSend = false)
      (hContained : pc.escapes choice = false)
      (hStep : runStep cfg body a rt sup pc choice = some (rt', sup', pc', request)) :
      Move cfg body a ⟨rt, pc, arriving⟩ ⟨rt', pc', arriving⟩
  | arrive {rt rt' : ActorRuntime ε} {pc : RunPc ρ ε} {arriving size : Nat} (msg : ε)
      (hPush : rt.push size msg = some rt') : Move cfg body a ⟨rt, pc, arriving + 1⟩ ⟨rt', pc, arriving⟩

end Moves

end RunView

/-- The lifecycle message that is being handled, if any. -/
def Caller.unfinished : Caller ε → Nat
  | .batch => 0
  | .lifecycle _ _ => 1

/-- Messages that were taken out and are still being dealt with. -/
def RunPc.unfinished : RunPc ρ ε → Nat
  | .deliver _ _ | .handling _ _ => 1
  | .offering _ _ frames => frames.caller.unfinished + 1
  | .failed _ frames | .draining _ frames | .deciding frames | .closing frames | .opening frames |
    .broadcasting _ _ frames | .shuttingDown frames | .returning frames => frames.caller.unfinished
  | _ => 0

/-- How far it is to the end of a round: places come in this order unless a message is
done with or a restart is charged. -/
def RunPc.rank : RunPc ρ ε → Nat
  | .begin => 12
  | .fetch _ => 11
  | .deliver _ _ => 10
  | .handling _ _ => 9
  | .closing _ => 8
  | .opening _ => 7
  | .failed _ _ => 6
  | .draining _ _ => 5
  | .offering _ _ _ => 4
  | .deciding _ => 3
  | .broadcasting _ _ _ => 2
  | .shuttingDown _ => 2
  | .returning _ => 1
  | .terminated => 0
  | .done => 0

/-- Rounds of the loops that do not change the place. -/
def RunPc.rounds : RunPc ρ ε → Nat
  | .broadcasting todo _ _ => todo.length
  | .returning frames => frames.restarts
  | _ => 0

/-- Messages to deal with, restarts in the budget, messages to arrive, and the way to the
end of the round. -/
def RunView.measure (limit : Int) (v : RunView ρ ε) : Nat ×ₗ Nat ×ₗ Nat ×ₗ Nat ×ₗ Nat :=
  toLex (v.arriving + v.rt.mailbox.length + v.pc.unfinished,
    toLex ((limit - v.rt.restartCount).toNat, toLex (v.arriving, toLex (v.pc.rank, v.pc.rounds))))

open Interleaving

namespace RunView

variable {limit : Int} {v v' : RunView ρ ε}

/-- Messages that the run has yet to deal with, as far as they are known. -/
def messages (v : RunView ρ ε) : Nat := v.rt.mailbox.length + v.pc.unfinished

/-- A message is done with. -/
theorem lt_of_messages (hArriving : v'.arriving = v.arriving) (h : v'.messages < v.messages) :
    v'.measure limit < v.measure limit := by
  simp only [messages] at h
  simp only [measure, Prod.Lex.toLex_lt_toLex]
  omega

/-- A restart is charged. -/
theorem lt_of_budget (hArriving : v'.arriving = v.arriving) (hMessages : v'.messages = v.messages)
    (hCount : v.rt.restartCount < v'.rt.restartCount) (hBudget : v.rt.restartCount < limit) :
    v'.measure limit < v.measure limit := by
  simp only [messages] at hMessages
  simp only [measure, Prod.Lex.toLex_lt_toLex]
  omega

/-- The run gets further in its round. -/
theorem lt_of_place (hArriving : v'.arriving = v.arriving) (hMessages : v'.messages = v.messages)
    (hCount : v'.rt.restartCount = v.rt.restartCount)
    (hPlace : v'.pc.rank < v.pc.rank ∨ v'.pc.rank = v.pc.rank ∧ v'.pc.rounds < v.pc.rounds) :
    v'.measure limit < v.measure limit := by
  simp only [messages] at hMessages
  simp only [measure, Prod.Lex.toLex_lt_toLex, hCount, Nat.lt_irrefl, true_and, false_or]
  omega

/-- A message arrives. -/
theorem lt_of_arrival (hArriving : v'.arriving + 1 = v.arriving) (hMessages : v'.messages = v.messages + 1)
    (hCount : v'.rt.restartCount = v.rt.restartCount) : v'.measure limit < v.measure limit := by
  simp only [messages] at hMessages
  simp only [measure, Prod.Lex.toLex_lt_toLex, hCount, Nat.lt_irrefl, true_and, false_or]
  omega

end RunView

section Steps

variable [DecidableEq ρ] {cfg : ActorSystemConfig ρ β} {body : ε → β} {a : ρ}
  {rt rt' : ActorRuntime ε} {sup sup' : Supervisor ρ} {pc pc' : RunPc ρ ε}
  {choice : RunChoice ρ β} {request : Option (ρ × β)}

omit [DecidableEq ρ] in
/-- The exception that a handler of `processBatch` catches ends the message. -/
theorem threw_messages (supervised : Bool) (msg : ε) :
    (RunPc.threw supervised msg : RunPc ρ ε).unfinished = 0 := by
  unfold RunPc.threw
  split <;> rfl

/-- Every step of the run that is not a message sent by the actor's code gets it further. -/
theorem runStep_measure (h : runStep cfg body a rt sup pc choice = some (rt', sup', pc', request))
    (hEnds : choice.isSend = false) (arriving : Nat) :
    RunView.measure cfg.maxRestarts ⟨rt', pc', arriving⟩ <
      RunView.measure cfg.maxRestarts ⟨rt, pc, arriving⟩ := by
  cases pc <;> cases choice <;> simp only [runStep, reduceCtorEq] at h <;> cases hEnds
  case begin.go =>
    cases h
    split <;> exact RunView.lt_of_place rfl rfl rfl (.inl (by simp [RunPc.rank]))
  case fetch.go processed =>
    split_ifs at h
    · cases hPop : rt.pop with
      | none =>
          rw [hPop] at h
          cases h
          exact RunView.lt_of_place rfl rfl rfl (.inl (by simp [RunPc.rank]))
      | some taken =>
          rw [hPop] at h
          cases h
          obtain ⟨hMailbox, hRest⟩ := ActorRuntime.pop_eq_some hPop
          have hCount := congrArg ActorRuntime.restartCount hRest
          refine RunView.lt_of_place rfl ?_ ?_ ?_
          · simp [RunView.messages, hMailbox, RunPc.unfinished]
          · exact hCount
          · exact .inl (by simp [RunPc.rank])
    · cases h
      exact RunView.lt_of_place rfl rfl rfl (.inl (by simp [RunPc.rank]))
  case deliver.go msg processed =>
    cases h
    unfold ActorRuntime.tryConsumeLifecycle
    split <;> try split
    all_goals first
      | exact RunView.lt_of_messages rfl (Nat.lt_succ_self _)
      | exact RunView.lt_of_place rfl rfl rfl (.inl (by simp [RunPc.rank]))
  case handling.returns msg processed state =>
    cases h
    exact RunView.lt_of_messages rfl (Nat.lt_succ_self _)
  case handling.throws msg processed state =>
    cases h
    refine RunView.lt_of_messages rfl ?_
    show _ + (RunPc.threw _ _).unfinished < _
    rw [threw_messages]
    exact Nat.lt_succ_self _
  case failed.go msg frames =>
    cases h
    exact RunView.lt_of_place rfl rfl rfl (.inl (by simp [RunPc.rank]))
  case draining.go failure frames =>
    cases hPop : rt.pop with
    | none =>
        rw [hPop] at h
        cases h
        exact RunView.lt_of_place rfl rfl rfl (.inl (by simp [RunPc.rank]))
    | some taken =>
        rw [hPop] at h
        cases h
        obtain ⟨hMailbox, hRest⟩ := ActorRuntime.pop_eq_some hPop
        have hCount := congrArg ActorRuntime.restartCount hRest
        refine RunView.lt_of_place rfl ?_ ?_ ?_
        · simp only [RunView.messages, hMailbox, RunPc.unfinished, List.length_cons]
          omega
        · exact hCount
        · exact .inl (by simp [RunPc.rank])
  case offering.go failure msg frames =>
    cases h
    exact RunView.lt_of_messages rfl (Nat.lt_succ_self _)
  case deciding.go frames =>
    cases h
    cases cfg.strategy a with
    | none =>
        simp only [onActorFailed]
        exact RunView.lt_of_place rfl rfl rfl (.inl (by simp [RunPc.rank]))
    | oneForOne =>
        simp only [onActorFailed]
        split
        · exact RunView.lt_of_place rfl rfl rfl (.inl (by simp [RunPc.rank]))
        · rename_i hBudget
          exact RunView.lt_of_budget rfl rfl (Int.lt_succ _) (Int.lt_of_not_ge hBudget)
    | oneForAll =>
        simp only [onActorFailed]
        split <;> exact RunView.lt_of_place rfl rfl rfl (.inl (by simp [RunPc.rank]))
  case closing.returns frames state | closing.throws frames state =>
    cases h
    split <;> exact RunView.lt_of_place rfl rfl rfl (.inl (by simp [RunPc.rank]))
  case opening.throws frames state =>
    cases h
    split <;> exact RunView.lt_of_place rfl rfl rfl (.inl (by simp [RunPc.rank]))
  case opening.returns frames state | shuttingDown.returns frames state =>
    cases h
    exact RunView.lt_of_place rfl rfl rfl (.inl (by simp [RunPc.rank]))
  case broadcasting.go todo restarted frames =>
    cases todo <;> cases h
    · exact RunView.lt_of_place rfl rfl rfl (.inl (by simp [RunPc.rank]))
    · exact RunView.lt_of_place rfl rfl rfl (.inr ⟨rfl, Nat.lt_succ_self _⟩)
  case shuttingDown.throws frames state =>
    obtain ⟨restarts, caller⟩ := frames
    cases caller <;> cases h
    · exact RunView.lt_of_place rfl rfl rfl (.inl (by simp [RunPc.rank]))
    · refine RunView.lt_of_messages rfl ?_
      show _ + (RunPc.threw _ _).unfinished < _
      rw [threw_messages]
      exact Nat.lt_succ_self _
  case returning.go frames =>
    obtain ⟨restarts, caller⟩ := frames
    cases restarts with
    | succ restarts =>
        cases h
        exact RunView.lt_of_place rfl rfl rfl (.inr ⟨rfl, Nat.lt_succ_self _⟩)
    | zero =>
        cases caller <;> cases h
        · exact RunView.lt_of_place rfl rfl rfl (.inl (by simp [RunPc.rank]))
        · exact RunView.lt_of_messages rfl (Nat.lt_succ_self _)

omit [DecidableEq ρ] in
theorem threw_ne_terminated (supervised : Bool) (msg : ε) :
    (RunPc.threw supervised msg : RunPc ρ ε) ≠ .terminated := by
  unfold RunPc.threw
  split <;> simp

omit [DecidableEq ρ] in
theorem tryConsumeLifecycle_ne_terminated (essential : Bool) (msg : ε) (processed : Nat) (id : MessageId) :
    (rt.tryConsumeLifecycle essential msg processed id : RunPc ρ ε) ≠ .terminated := by
  unfold ActorRuntime.tryConsumeLifecycle
  split <;> try split
  all_goals simp

theorem onActorFailed_ne_terminated (frames : Frames ε) (strategy : RestartStrategy) :
    (onActorFailed cfg.registered cfg.maxRestarts a rt sup frames strategy).2.2 ≠ .terminated := by
  cases strategy with
  | none => simp [onActorFailed]
  | oneForOne | oneForAll =>
      simp only [onActorFailed]
      split <;> simp

/-- Only an exception out of `shutdown` gets past `processBatch`. -/
theorem runStep_survives (h : runStep cfg body a rt sup pc choice = some (rt', sup', pc', request))
    (hContained : pc.escapes choice = false) : pc' ≠ .terminated := by
  cases pc <;> cases choice <;> simp only [runStep, reduceCtorEq] at h
  case fetch.go processed =>
    split_ifs at h
    · split at h <;> cases h <;> simp
    · cases h
      simp
  case draining.go failure frames => split at h <;> cases h <;> simp
  case deliver.go msg processed =>
    cases h
    exact tryConsumeLifecycle_ne_terminated _ _ _ _
  case handling.throws msg processed state =>
    cases h
    exact threw_ne_terminated _ _
  case deciding.go frames =>
    cases h
    exact onActorFailed_ne_terminated _ _
  case begin.go | closing.returns | closing.throws | opening.throws =>
    cases h
    split <;> simp
  case broadcasting.go todo restarted frames => cases todo <;> cases h <;> simp
  case shuttingDown.throws frames state =>
    obtain ⟨restarts, caller⟩ := frames
    cases caller <;> cases h
    · cases hContained
    · exact threw_ne_terminated _ _
  case returning.go frames =>
    obtain ⟨restarts, caller⟩ := frames
    cases restarts <;> cases caller <;> cases h <;> simp
  all_goals
    cases h
    simp

/-- A run that is not over goes on without an exception out of `shutdown`. -/
theorem runStep_progress (rt : ActorRuntime ε) (sup : Supervisor ρ) (hOver : pc ≠ .done)
    (hAlive : pc ≠ .terminated) : ∃ choice : RunChoice ρ β, choice.isSend = false ∧
      pc.escapes choice = false ∧ (runStep cfg body a rt sup pc choice).isSome := by
  cases pc with
  | done => exact absurd rfl hOver
  | terminated => exact absurd rfl hAlive
  | handling | closing | opening => exact ⟨.returns .opened, rfl, rfl, rfl⟩
  | shuttingDown frames =>
      obtain ⟨restarts, caller⟩ := frames
      cases caller <;> exact ⟨.returns .opened, rfl, rfl, rfl⟩
  | fetch processed =>
      refine ⟨.go, rfl, rfl, ?_⟩
      simp only [runStep]
      split
      · split <;> rfl
      · rfl
  | draining failure frames =>
      refine ⟨.go, rfl, rfl, ?_⟩
      simp only [runStep]
      split <;> rfl
  | broadcasting todo restarted frames => cases todo <;> exact ⟨.go, rfl, rfl, rfl⟩
  | returning frames =>
      obtain ⟨restarts, caller⟩ := frames
      cases restarts <;> cases caller <;> exact ⟨.go, rfl, rfl, rfl⟩
  | begin | deliver | failed | offering | deciding => exact ⟨.go, rfl, rfl, rfl⟩

/-- A run comes to its end, however its actor's `handle`, `open` and `close` end and
however many messages still arrive, unless `close` throws out of `shutdown`. -/
theorem run_returns (v : RunView ρ ε) (hAlive : v.pc ≠ .terminated) :
    Inevitable (RunView.Move cfg body a) (fun v => v.pc = .done) v := by
  have hWellFounded : WellFounded (α := Nat ×ₗ Nat ×ₗ Nat ×ₗ Nat ×ₗ Nat) (· < ·) := wellFounded_lt
  refine Inevitable.of_measure (I := fun v => v.pc ≠ .terminated) hWellFounded
    (RunView.measure cfg.maxRestarts) ?_ ?_ hAlive
  · intro v hAlive
    by_cases hOver : v.pc = .done
    · exact .inl hOver
    · let sup : Supervisor ρ := ⟨0, 0, 0, fun _ => 0⟩
      obtain ⟨choice, hEnds, hContained, hSome⟩ := runStep_progress v.rt sup hOver hAlive
      obtain ⟨⟨rt', sup', pc', request⟩, hStep⟩ := Option.isSome_iff_exists.mp hSome
      exact .inr ⟨⟨rt', pc', v.arriving⟩, .own choice hEnds hContained hStep⟩
  · intro v v' hAlive move
    cases move with
    | own choice hEnds hContained hStep =>
        exact ⟨runStep_survives hStep hContained, runStep_measure hStep hEnds _⟩
    | arrive msg hPush =>
        have hRest := (ActorRuntime.push_eq_some hPush).2
        refine ⟨hAlive, RunView.lt_of_arrival rfl ?_ ?_⟩
        · simp only [RunView.messages, hRest, List.length_append, List.length_singleton]
          omega
        · rw [hRest]

end Steps
