import V2Engine.EventLoop.WakingUp
import V2Engine.Interleaving.Inevitable
import Mathlib.Data.Prod.Lex

/-! What a woken loop comes to. Its thread needs neither the timeout of `epoll_wait` nor a
user's descriptor to take what was posted, or to return once it is to stop. -/
namespace EventLoopEpoll.WakingUp

open TicketRing LockFreeQueue LockFreeMpscQueue Interleaving

variable {π ω : Type*} [DecidableEq π]
  {c : Config (π ⊕ Unit) (Shared π ω) (Poster ω ⊕ Loop ω)}

/-- A step of the loop's thread that needs neither the timeout nor a user's descriptor:
`epoll_wait` returns because `stopFd_` is readable. -/
def Prompt (s : Shared π ω) : LoopChoice → Prop
  | .go => True
  | .wake _ => 0 < s.stopFd
  | _ => False

/-- The loop goes on promptly, in operations and handlers that call no `stop`. -/
def GoesOn (c d : Config (π ⊕ Unit) (Shared π ω) (Poster ω ⊕ Loop ω)) : Prop :=
  ∃ choice, Prompt c.shared choice ∧ step.next c (.inr ()) (.inr choice) = some d

/-- The accesses a `pop` has left. -/
def rank : PopPc ω → Nat
  | .idle | .returned => 0
  | .release .. => 1
  | .storeHead .. => 2
  | .take _ => 3
  | .loadSequence _ => 4
  | .loadHead => 5

omit [DecidableEq π] in
/-- A `pop` is begun. -/
theorem pop_call {queue queue' : TicketRing.State π Unit ω} {consumer consumer' : Consumer ω}
    (h : LockFreeMpscQueue.pop kPendingOpsCapacity () queue consumer (.call 1) =
      some (queue', consumer')) : queue' = queue ∧ consumer' = ⟨1, [], .loadHead⟩ := by
  obtain ⟨remaining, out, pc⟩ := consumer
  cases pc <;> cases h <;> exact ⟨rfl, rfl⟩

theorem rank_le (pc : PopPc ω) : rank pc ≤ 5 := by
  cases pc <;> simp [rank]

/-- The operations that were accepted and are still to be taken from the queue. -/
def pending (s : Shared π ω) : Nat := s.queue.pushed.length - s.queue.popped.length

/-- What is left until the loop returns, `running_` being false. -/
def toReturn (s : Shared π ω) (l : Loop ω) : Nat × Nat :=
  match l.pc with
  | .returned => (0, 0)
  | .head => (0, 1)
  | .events batch => (0, 2 + batch.length)
  | .stopping (some batch) => (0, 3 + batch.length)
  | .waiting => (1, 0)
  | .draining => (2, 8 * pending s + rank l.consumer.pc)
  | .calling => (2, 8 * pending s + 6)
  | .stopping none => (3, 0)

/-- What is left until the queue is empty. -/
def toDrained (s : Shared π ω) (l : Loop ω) : Nat × Nat × Nat :=
  match l.pc with
  | .returned => (pending s, 0, 0)
  | .draining => (pending s, 0, rank l.consumer.pc)
  | .head | .calling => (pending s, 1, 0)
  | .events batch => (pending s, 2, batch.length)
  | .stopping (some batch) => (pending s, 2, batch.length + 1)
  | .stopping none => (pending s, 2, 0)
  | .waiting => (pending s, 3, 0)

section Promptly

variable {s s' : Shared π ω} {l l' : Loop ω} {choice : LoopChoice}

omit [DecidableEq π] in
theorem Loop.pop_not_stopping {consumer : Consumer ω} {choice : PopChoice}
    (h : Loop.pop s consumer choice = some (s', l')) (back : Option (List Event)) :
    l'.pc ≠ .stopping back := by
  obtain ⟨_, _, hAfter⟩ := Option.map_eq_some_iff.mp h
  cases hAfter
  simp only [LoopPc.after]
  split
  · split <;> nofun
  · nofun

omit [DecidableEq π] in
/-- Only a call of `stop` leads to its write. -/
theorem not_stopping (prompt : Prompt s choice) (h : run () s l choice = some (s', l'))
    (back : Option (List Event)) : l'.pc ≠ .stopping back := by
  cases choice with
  | go =>
      simp only [run] at h
      split at h
      · split at h
        · exact Loop.pop_not_stopping h back
        · cases h
          simp
      · exact Loop.pop_not_stopping h back
      · exact Loop.pop_not_stopping h back
      · cases h
        simp
      · cases h
        simp
      · cases h
        simp
      · rename_i back' _
        cases h
        cases back' <;> simp [LoopPc.resume]
      · cases h
      · cases h
  | wake batch =>
      simp only [run] at h
      split at h
      · split at h <;> cases h
        simp
      · cases h
  | stop | interrupted | waitFails => cases prompt

omit [DecidableEq π] in
theorem pop_rank {queue queue' : TicketRing.State π Unit ω} {consumer consumer' : Consumer ω}
    (valid : Valid kPendingOpsCapacity queue)
    (consuming : Consuming kPendingOpsCapacity queue consumer) (single : Single consumer)
    (h : LockFreeMpscQueue.pop kPendingOpsCapacity () queue consumer .go = some (queue', consumer')) :
    queue'.pushed.length - queue'.popped.length < queue.pushed.length - queue.popped.length ∨
      queue'.pushed.length = queue.pushed.length ∧ queue'.popped.length = queue.popped.length ∧
        rank consumer'.pc < rank consumer.pc ∧
        (LoopPc.after consumer' = .draining ∨ LoopPc.after consumer' = .waiting) := by
  obtain ⟨remaining, out, pc⟩ := consumer
  cases pc <;> simp only [LockFreeMpscQueue.pop, reduceCtorEq] at h
  case release pos element =>
    obtain ⟨hPos, _, hReader, _⟩ := consuming
    have hLess := valid.lt_tail (p := pos) (by simp [hReader])
    rw [← valid.pushed_length] at hLess
    cases h
    refine .inl ?_
    simp only [TicketRing.State.retire, List.length_append, List.length_singleton]
    omega
  case loadSequence pos =>
    obtain ⟨_, rfl⟩ : remaining = 1 ∧ out = [] := single
    split_ifs at h <;> cases h <;> exact .inr ⟨rfl, rfl, by simp [rank], by simp [LoopPc.after]⟩
  all_goals
    cases h
    exact .inr ⟨rfl, rfl, by simp [rank], .inl rfl⟩

omit [DecidableEq π] in
/-- A step with `running_` false takes the loop closer to its return. -/
theorem toReturn_lt (valid : Valid kPendingOpsCapacity s.queue)
    (looping : Looping s.queue l) (hRunning : s.running = false) (prompt : Prompt s choice)
    (h : run () s l choice = some (s', l')) :
    toLex (toReturn s' l') < toLex (toReturn s l) := by
  have hStopping := not_stopping prompt h
  rw [Prod.Lex.toLex_lt_toLex]
  cases run_effect h with
  | @pop _ _ consumer hPc hPop =>
      rcases hPc with ⟨hPc, rfl⟩ | ⟨hPc | ⟨_, hOther⟩, rfl⟩
      · have hRank := rank_le consumer.pc
        rcases pop_rank valid looping.consuming looping.single hPop with
          hLess | ⟨hPushed, hPopped, hRank, hAfter⟩
        · rcases after_cases consumer with h | h | h <;> simp [toReturn, hPc, h, pending] <;> omega
        · rcases hAfter with h | h <;> simp [toReturn, hPc, h, pending, hPushed, hPopped, hRank]
      · obtain ⟨rfl, rfl⟩ := pop_call hPop
        simp [toReturn, hPc, LoopPc.after, pending, rank]
      · exact absurd (hOther.symm.trans hRunning) (by simp)
  | leave hPc =>
      rcases hPc with hPc | hPc <;> simp [toReturn, hPc]
  | wake batch hPc => simp [toReturn, hPc]
  | handled rest hPc => simp [toReturn, hPc]
  | passed hPc =>
      rcases hPc with hPc | hPc <;> simp [toReturn, hPc]
  | read rest hPc => simp [toReturn, hPc]
  | stop back hPc => exact absurd rfl (hStopping back)
  | write back hPc =>
      cases back <;> simp [toReturn, hPc, LoopPc.resume]

omit [DecidableEq π] in
/-- A step takes the loop closer to the end of the queue, given that no `pop` is refused
while there are operations left. -/
theorem toDrained_lt (valid : Valid kPendingOpsCapacity s.queue) (looping : Looping s.queue l)
    (hRefused : l'.pc = .waiting → pending s' < pending s) (prompt : Prompt s choice)
    (h : run () s l choice = some (s', l')) :
    toLex ((toDrained s' l').1, toLex (toDrained s' l').2) <
      toLex ((toDrained s l).1, toLex (toDrained s l).2) := by
  have hStopping := not_stopping prompt h
  rw [Prod.Lex.toLex_lt_toLex, Prod.Lex.toLex_lt_toLex]
  cases run_effect h with
  | @pop _ _ consumer hPc hPop =>
      rcases hPc with ⟨hPc, rfl⟩ | ⟨hPc | ⟨hPc, _⟩, rfl⟩
      · rcases pop_rank valid looping.consuming looping.single hPop with
          hLess | ⟨hPushed, hPopped, hRank, hAfter⟩
        · rcases after_cases consumer with h | h | h <;> simp [toDrained, hPc, h, pending, hLess]
        · rcases hAfter with h | h
          · simp [toDrained, hPc, h, pending, hPushed, hPopped, hRank]
          · have := hRefused h
            simp only [pending, hPushed, hPopped] at this
            omega
      · obtain ⟨rfl, rfl⟩ := pop_call hPop
        simp [toDrained, hPc, LoopPc.after, pending]
      · obtain ⟨rfl, rfl⟩ := pop_call hPop
        simp [toDrained, hPc, LoopPc.after, pending]
  | leave hPc =>
      rcases hPc with hPc | hPc <;> simp [toDrained, hPc]
  | wake batch hPc => simp [toDrained, hPc]
  | handled rest hPc => simp [toDrained, hPc]
  | passed hPc =>
      rcases hPc with hPc | hPc <;> simp [toDrained, hPc]
  | read rest hPc => simp [toDrained, hPc, pending, Shared.read]
  | stop back hPc => exact absurd rfl (hStopping back)
  | write back hPc =>
      cases back <;> simp [toDrained, hPc, LoopPc.resume, pending, Shared.write]

omit [DecidableEq π] in
theorem pop_begins {consumer : Consumer ω} (hResting : Resting consumer) :
    (Loop.pop s consumer (.call 1)).isSome := by
  obtain ⟨remaining, out, pc⟩ := consumer
  rcases hResting with h | h <;> cases h <;> rfl

omit [DecidableEq π] in
theorem pop_goes_on {consumer : Consumer ω} (hBusy : ¬Resting consumer) :
    (Loop.pop s consumer .go).isSome := by
  obtain ⟨remaining, out, pc⟩ := consumer
  cases pc with
  | idle => exact absurd (.inl rfl) hBusy
  | returned => exact absurd (.inr rfl) hBusy
  | loadSequence pos =>
      simp only [Loop.pop, Option.isSome_map, LockFreeMpscQueue.pop]
      split <;> rfl
  | loadHead | take | storeHead | release => rfl

omit [DecidableEq π] in
/-- Where the loop's thread can go on without the timeout and without a user's descriptor. -/
theorem prompt_step (looping : Looping s.queue l) (hReturned : l.pc ≠ .returned)
    (hWaiting : l.pc = .waiting → 0 < s.stopFd) :
    ∃ choice, Prompt s choice ∧ (run () s l choice).isSome := by
  obtain ⟨consumer, pc⟩ := l
  have hResting : pc ≠ .draining → Resting consumer := fun hPc => by
    by_contra hBusy
    exact hPc (looping.draining_iff.mpr hBusy)
  cases pc with
  | head =>
      refine ⟨.go, trivial, ?_⟩
      simp only [run]
      split
      · exact pop_begins (hResting (by simp))
      · rfl
  | draining => exact ⟨.go, trivial, pop_goes_on (looping.draining_iff.mp rfl)⟩
  | calling => exact ⟨.go, trivial, pop_begins (hResting (by simp))⟩
  | waiting =>
      refine ⟨.wake [.stopFd], hWaiting rfl, ?_⟩
      simp only [run, List.mem_singleton, forall_const, if_pos (hWaiting rfl)]
      rfl
  | events batch =>
      refine ⟨.go, trivial, ?_⟩
      obtain _ | ⟨_ | _, rest⟩ := batch <;> rfl
  | stopping back => exact ⟨.go, trivial, rfl⟩
  | returned => exact absurd rfl hReturned

end Promptly

/-- The loop's place in its code. -/
def loopOf (c : Config (π ⊕ Unit) (Shared π ω) (Poster ω ⊕ Loop ω)) : Loop ω :=
  match c.here (.inr ()) with
  | .inr l => l
  | .inl _ => .start

omit [DecidableEq π] in
theorem LoopAt.of_loopOf {l : Loop ω} (hHere : c.here (.inr ()) = .inr l) : loopOf c = l := by
  rw [loopOf, hHere]

section Steps

variable {d : Config (π ⊕ Unit) (Shared π ω) (Poster ω ⊕ Loop ω)}

/-- What a step of the loop's thread has done to the whole. -/
theorem GoesOn.cases (h : GoesOn c d) :
    ∃ choice, Prompt c.shared choice ∧ c.here (.inr ()) = .inr (loopOf c) ∧
      d.here = Function.update c.here (.inr ()) (.inr (loopOf d)) ∧
      run () c.shared (loopOf c) choice = some (d.shared, loopOf d) := by
  obtain ⟨choice, prompt, hNext⟩ := h
  obtain ⟨shared, place, hLocal, rfl⟩ := Program.next_eq_some.mp hNext
  cases hHere : c.here (.inr ()) with
  | inl p =>
      rw [hHere] at hLocal
      cases hLocal
  | inr l =>
      rw [hHere] at hLocal
      obtain ⟨⟨_, l'⟩, hStep, hAfter⟩ := Option.map_eq_some_iff.mp hLocal
      cases hAfter
      refine ⟨choice, prompt, ?_⟩
      simpa [loopOf, hHere] using hStep

/-- The other threads stand where they did. -/
theorem GoesOn.stands (h : GoesOn c d) {pc : PosterPc ω} : Stands d pc → Stands c pc := by
  obtain ⟨_, _, _, hThere, _⟩ := h.cases
  rintro ⟨t, p, hHere, hPc⟩
  exact ⟨t, p, by simpa [hThere] using hHere, hPc⟩

theorem GoesOn.reachable (h : GoesOn c d) (reach : Reachable c) : Reachable d := by
  obtain ⟨choice, _, hNext⟩ := h
  exact .step reach trivial hNext

omit [DecidableEq π] in
theorem RunEffect.running {s s' : Shared π ω} {l l' : Loop ω} (effect : RunEffect s l s' l')
    (h : s.running = false) : s'.running = false := by
  cases effect with
  | stop => rfl
  | pop | leave | wake | handled | passed | read | write => exact h

theorem Reachable.looping (reach : Reachable c) {l : Loop ω} (hHere : c.here (.inr ()) = .inr l) :
    Looping c.shared.queue l := by
  obtain ⟨l', hPlace, looping⟩ := reach.outlined.right ()
  cases hHere.symm.trans hPlace
  exact looping

/-- The loop goes on promptly unless it has returned, or nothing has woken it. -/
theorem Reachable.goesOn (reach : Reachable c) (hAwake : ¬Asleep c) :
    LoopAt c .returned ∨ ∃ d, GoesOn c d := by
  obtain ⟨l, hHere, looping⟩ := reach.outlined.right ()
  by_cases hReturned : l.pc = .returned
  · exact .inl ⟨l, hHere, hReturned⟩
  · obtain ⟨choice, prompt, hSome⟩ := prompt_step looping hReturned fun hPc =>
      Nat.pos_of_ne_zero fun hZero => hAwake ⟨⟨l, hHere, hPc⟩, hZero⟩
    obtain ⟨⟨s', l'⟩, hStep⟩ := Option.isSome_iff_exists.mp hSome
    refine .inr ⟨⟨s', Function.update c.here (.inr ()) (.inr l')⟩, choice, prompt, ?_⟩
    refine Program.next_eq_some.mpr ⟨s', .inr l', ?_, rfl⟩
    rw [hHere]
    exact Option.map_eq_some_iff.mpr ⟨(s', l'), hStep, rfl⟩

end Steps

/-- A `pop` that is refused while operations are left has met one that is being posted. -/
theorem Reachable.unrefused (reach : Reachable c)
    {d : Config (π ⊕ Unit) (Shared π ω) (Poster ω ⊕ Loop ω)}
    (hNext : GoesOn c d) (hPosted : Posted d) (hDrained : ¬Drained c)
    (hWaiting : (loopOf d).pc = .waiting) :
    pending d.shared < pending c.shared := by
  obtain ⟨choice, prompt, hHere, hThere, hStep⟩ := hNext.cases
  have looping := reach.looping hHere
  have hLoop : LoopAt d .waiting := ⟨loopOf d, by rw [hThere, Function.update_self], hWaiting⟩
  by_contra hSame
  have hBefore := reach.pending_of_undrained hDrained
  have hLess : d.shared.queue.popped.length < d.shared.queue.pushed.length := by
    unfold pending at hSame
    omega
  have hStage := ((hNext.reachable reach).next_op hLoop nofun hLess).resolve_right
    fun ⟨op, h⟩ => hPosted.2 op h
  generalize loopOf d = l' at hStep hWaiting
  generalize d.shared = s' at hStep hStage
  cases run_effect hStep with
  | pop hPop hRefused =>
      obtain ⟨hReturned, hOut⟩ := after_eq_waiting.mp hWaiting
      exact pop_refused reach.outlined.shared looping.consuming looping.collected hRefused
        (hPop.imp And.right And.right) hReturned hOut hStage
  | leave | wake | handled | passed | read | stop => cases hWaiting
  | write back => exact resume_ne_waiting back hWaiting

/-- The loop sleeps when `stop` is called. -/
def afterStop : Config (Unit ⊕ Unit) (Shared Unit Nat) (Poster Nat ⊕ Loop Nat) :=
  (step.replay anyStep initial (goToSleep ++ [(.inl (), .inl .stop), (.inl (), .inl .go)])).get
    (by decide)

/-- The operation is posted. -/
def afterWrite : Config (Unit ⊕ Unit) (Shared Unit Nat) (Poster Nat ⊕ Loop Nat) :=
  (step.replay anyStep initial (postAsleep ++ [(.inl (), .inl .go)])).get (by decide)

end EventLoopEpoll.WakingUp
