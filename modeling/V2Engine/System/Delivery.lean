import V2Engine.System.Tokens
import V2Engine.Runtime.Conservation

/-! Messages on their way through the system. Since no two workers run an actor at the
same time, the history of each actor is that of one run after another, and since a
sender sends one message at a time, its messages come into a mailbox in order. -/
namespace ActorSystem

open Interleaving

variable {n : Nat} {τ ρ β : Type*}

/-- Where the run of actor `a` stands; it is done while no worker runs the actor. -/
def Stands (a : ρ) (c : Config (Thread n τ) (Shared n τ ρ β) (Local n τ ρ β))
    (pc : RunPc ρ (Envelope τ ρ β)) : Prop :=
  (∃ t, (c.here t).worker = .running a pc) ∨
    pc = .done ∧ ∀ t pc', (c.here t).worker ≠ .running a pc'

/-- Thread `t` is in the code of the sender. -/
def Sends (t : Thread n τ) (l : Local n τ ρ β) : Sender τ ρ → Prop
  | .client u => t = .client u
  | .actor a => ∃ pc, l.worker = .running a pc

/-- Of two messages of one sender the earlier one comes first. -/
def InOrder (msg later : Envelope τ ρ β) : Prop := msg.sender = later.sender → msg.seqNo < later.seqNo

section Stands

variable [DecidableEq τ] {c : Config (Thread n τ) (Shared n τ ρ β) (Local n τ ρ β)} {a : ρ}
  {t : Thread n τ} {shared : Shared n τ ρ β} {place : Local n τ ρ β}
  {pc : RunPc ρ (Envelope τ ρ β)}

omit [DecidableEq τ] in
theorem exists_stands (a : ρ) (c : Config (Thread n τ) (Shared n τ ρ β) (Local n τ ρ β)) :
    ∃ pc, Stands a c pc := by
  by_cases hRun : ∃ t pc, (c.here t).worker = .running a pc
  · obtain ⟨t, pc, hPc⟩ := hRun
    exact ⟨pc, .inl ⟨t, hPc⟩⟩
  · push Not at hRun
    exact ⟨.done, .inr ⟨rfl, hRun⟩⟩

/-- A step that enters the actor's run only at its beginning and leaves it only at its
end: the run stands where it stood, or begins after it was done. -/
theorem Stands.of_kept (hEntered : ∀ pc, place.worker = .running a pc →
      (c.here t).worker = .running a pc ∨ pc = .begin)
    (hLeft : ∀ pc, (c.here t).worker = .running a pc → place.worker = .running a pc ∨ pc = .done)
    (hOne : ∀ u v pc pc', (Function.update c.here t place u).worker = .running a pc →
      (Function.update c.here t place v).worker = .running a pc' → u = v)
    (hStands : Stands a ⟨shared, Function.update c.here t place⟩ pc) :
    Stands a c pc ∨ pc = .begin ∧ Stands a c .done := by
  have hOther : ∀ {u pc}, u ≠ t → (c.here u).worker = .running a pc →
      (Function.update c.here t place u).worker = .running a pc := by
    intro u pc hu hPc
    rwa [Function.update_of_ne hu]
  rcases hStands with ⟨u, hu⟩ | ⟨rfl, hNone⟩
  · by_cases hSame : u = t
    · subst hSame
      have hPlace : place.worker = .running a pc := by simpa only [Function.update_self] using hu
      rcases hEntered pc hPlace with hBefore | rfl
      · exact .inl (.inl ⟨u, hBefore⟩)
      · by_cases hRun : ∃ v pc', (c.here v).worker = .running a pc'
        · obtain ⟨v, pc', hv⟩ := hRun
          have hvu : v = u := by
            by_contra hne
            exact hne (hOne v u _ _ (hOther hne hv) hu)
          subst hvu
          rcases hLeft pc' hv with hKept | rfl
          · rw [hPlace] at hKept
            cases hKept
            exact .inl (.inl ⟨v, hv⟩)
          · exact .inr ⟨rfl, .inl ⟨v, hv⟩⟩
        · push Not at hRun
          exact .inr ⟨rfl, .inr ⟨rfl, hRun⟩⟩
    · exact .inl (.inl ⟨u, by simpa only [Function.update_of_ne hSame] using hu⟩)
  · apply Or.inl
    by_cases hRun : ∃ v pc', (c.here v).worker = .running a pc'
    · obtain ⟨v, pc', hv⟩ := hRun
      by_cases hvt : v = t
      · subst hvt
        rcases hLeft pc' hv with hKept | rfl
        · exact absurd (by simpa only [Function.update_self] using hKept) (hNone v pc')
        · exact .inl ⟨v, hv⟩
      · exact absurd (hOther hvt hv) (hNone v pc')
    · push Not at hRun
      exact .inr ⟨rfl, hRun⟩

end Stands

section Runs

variable [NeZero n] [DecidableEq ρ] [DecidableEq τ] [Fintype τ] {cfg : Setup ρ β}
  {c : Config (Thread n τ) (Shared n τ ρ β) (Local n τ ρ β)} {a : ρ} {t : Thread n τ}
  {shared : Shared n τ ρ β} {place : Local n τ ρ β} {pc : RunPc ρ (Envelope τ ρ β)}
  {allowed : Config (Thread n τ) (Shared n τ ρ β) (Local n τ ρ β) → Thread n τ →
    Choice n ρ β → Prop}

/-- Where the runs of the actor stand, its messages are all accounted for. -/
def ConservedAt (a : ρ) (c : Config (Thread n τ) (Shared n τ ρ β) (Local n τ ρ β)) : Prop :=
  ∀ pc, Stands a c pc → Conserved (c.shared.runtimes a) pc

omit [NeZero n] [DecidableEq ρ] [Fintype τ] in
/-- A step outside of the actor's run. -/
theorem ConservedAt.outside (h : ConservedAt a c)
    (hEntered : ∀ pc, place.worker = .running a pc →
      (c.here t).worker = .running a pc ∨ pc = .begin)
    (hLeft : ∀ pc, (c.here t).worker = .running a pc → place.worker = .running a pc ∨ pc = .done)
    (hOne : ∀ u v pc pc', (Function.update c.here t place u).worker = .running a pc →
      (Function.update c.here t place v).worker = .running a pc' → u = v)
    (hStands : Stands a ⟨shared, Function.update c.here t place⟩ pc) :
    Conserved (c.shared.runtimes a) pc := by
  rcases hStands.of_kept hEntered hLeft hOne with hBefore | ⟨rfl, hDone⟩
  · exact h pc hBefore
  · exact (h .done hDone).moved rfl rfl (List.Sublist.refl _) (fun _ hNone => by cases hNone)

omit [NeZero n] [Fintype τ] in
/-- A step of the worker that runs actor `b`. -/
theorem ConservedAt.inside (h : ConservedAt a c) (hSupervised : cfg.supervised a = true) {b : ρ}
    {run run' : RunPc ρ (Envelope τ ρ β)} {user : RunChoice ρ β}
    {rt : ActorRuntime (Envelope τ ρ β)} {sup : Supervisor ρ} {request : Option (ρ × β)}
    (hBefore : (c.here t).worker = .running b run) (hPlace : place.worker = .running b run')
    (hStep : runStep cfg.toActorSystemConfig Envelope.body b (c.shared.runtimes b)
      c.shared.supervisor run user = some (rt, sup, run', request))
    (hRuntimes : shared.runtimes = Function.update c.shared.runtimes b rt)
    (hOne : ∀ u v pc pc', (Function.update c.here t place u).worker = .running a pc →
      (Function.update c.here t place v).worker = .running a pc' → u = v)
    (hStands : Stands a ⟨shared, Function.update c.here t place⟩ pc) :
    Conserved (shared.runtimes a) pc := by
  have hHere : (Function.update c.here t place t).worker = .running b run' := by
    rw [Function.update_self, hPlace]
  by_cases hab : a = b
  · subst hab
    have hPc : pc = run' := by
      rcases hStands with ⟨u, hu⟩ | ⟨_, hNone⟩
      · rw [hOne u t pc run' hu hHere, hHere] at hu
        cases hu
        rfl
      · exact absurd hHere (hNone t run')
    rw [hRuntimes, Function.update_self, hPc]
    exact runStep_conserved hSupervised (h run (.inl ⟨t, hBefore⟩)) hStep
  · rw [hRuntimes, Function.update_of_ne hab]
    apply h.outside _ _ hOne hStands
    · intro pc hPc
      rw [hPlace] at hPc
      cases hPc
      exact absurd rfl hab
    · intro pc hPc
      rw [hBefore] at hPc
      cases hPc
      exact absurd rfl hab

/-- The messages of a supervised actor, wherever its run stands. -/
theorem conservedAt (reach : RunsTo cfg allowed c) (hSupervised : cfg.supervised a = true) :
    ConservedAt a c := by
  refine Reach.invariant (I := ConservedAt a) ?_ ?_ reach
  · rintro c rfl pc hStands
    rcases hStands with ⟨t, ht⟩ | ⟨rfl, _⟩
    · cases ht
    · exact .constructed _
  · intro c t choice shared place hReach hInv hAllowed hLocal pc hStands
    have hAfter : RunsTo cfg allowed ⟨shared, Function.update c.here t place⟩ :=
      .step hReach hAllowed (Program.next_eq_some.mpr ⟨shared, place, hLocal, rfl⟩)
    have hOne : ∀ u v pc pc', (Function.update c.here t place u).worker = .running a pc →
        (Function.update c.here t place v).worker = .running a pc' → u = v :=
      fun u v pc pc' hu hv => running_unique hAfter hu hv
    -- the worker stays where it is in its own code
    have hStays : place.worker = (c.here t).worker → Conserved (c.shared.runtimes a) pc :=
      fun hPlace => hInv.outside (fun pc h => .inl (hPlace ▸ h)) (fun pc h => .inl (hPlace ▸ h))
        hOne hStands
    cases step_mails hLocal with
    | none hRuntimes hSent hBefore hAfter hRun =>
        rw [hRuntimes]
        exact hInv.outside (hRun.entered a) (hRun.left a) hOne hStands
    | post target msg rt hCall hPush hShared hPlace =>
        have hSame := hStays (by rw [hPlace])
        rw [hShared]
        by_cases hTarget : a = target
        · subst hTarget
          simp only [Shared.setRuntime, Function.update_self]
          exact hSame.push hPush
        · simpa only [Shared.setRuntime, Function.update_of_ne hTarget] using hSame
    | drop target msg hCall hFull hShared hPlace =>
        rw [hShared]
        exact hStays (by rw [hPlace])
    | run w b run run' user rt sup hThread hCall hPc hStep hShared hPlace =>
        exact hInv.inside hSupervised hPc (by rw [hPlace]) hStep (by rw [hShared]; rfl) hOne hStands
    | request w b run run' user rt sup target body hThread hCall hPc hStep hShared hPlace =>
        exact hInv.inside hSupervised hPc (by rw [hPlace]) hStep (by rw [hShared]; rfl) hOne hStands
    | clientSend u target body hThread hCall hShared hPlace =>
        rw [hShared]
        exact hStays (by rw [hPlace])

/-- The numbers that senders give their messages. A message on its way is the latest of
its sender, and it is later than all accepted ones. -/
structure Numbered (c : Config (Thread n τ) (Shared n τ ρ β) (Local n τ ρ β)) : Prop where
  owner : ∀ t target msg, (c.here t).call = .sending target msg → Sends t (c.here t) msg.sender
  latest : ∀ t target msg, (c.here t).call = .sending target msg →
    msg.seqNo < c.shared.sent msg.sender
  newer : ∀ t target msg, (c.here t).call = .sending target msg →
    ∀ b, ∀ old ∈ (c.shared.runtimes b).accepted, InOrder old msg
  accepted : ∀ b, ∀ msg ∈ (c.shared.runtimes b).accepted, msg.seqNo < c.shared.sent msg.sender
  ordered : ∀ b, (c.shared.runtimes b).accepted.Pairwise InOrder

/-- A sender is in one thread's code only. -/
theorem sends_unique (reach : RunsTo cfg allowed c) {sender : Sender τ ρ} {t u : Thread n τ}
    (ht : Sends t (c.here t) sender) (hu : Sends u (c.here u) sender) : t = u := by
  cases sender with
  | client x => exact ht.trans hu.symm
  | actor b =>
      obtain ⟨pc, hPc⟩ := ht
      obtain ⟨pc', hPc'⟩ := hu
      exact running_unique reach hPc hPc'

omit [NeZero n] [DecidableEq ρ] [Fintype τ] in
/-- A step that sends and accepts nothing. -/
theorem Numbered.quiet (h : Numbered c)
    (hAccepted : ∀ b, (shared.runtimes b).accepted = (c.shared.runtimes b).accepted)
    (hSent : shared.sent = c.shared.sent) (hSilent : place.call.Silent) :
    Numbered ⟨shared, Function.update c.here t place⟩ := by
  have hCalls : ∀ u target msg, (Function.update c.here t place u).call = .sending target msg →
      u ≠ t ∧ Function.update c.here t place u = c.here u := by
    intro u target msg hCall
    by_cases hu : u = t
    · subst hu
      rw [Function.update_self] at hCall
      exact absurd hCall (hSilent target msg)
    · exact ⟨hu, Function.update_of_ne hu ..⟩
  refine ⟨?_, ?_, ?_, ?_, ?_⟩
  · intro u target msg hCall
    obtain ⟨_, hSame⟩ := hCalls u target msg hCall
    simp only [hSame] at hCall ⊢
    exact h.owner u target msg hCall
  · intro u target msg hCall
    obtain ⟨_, hSame⟩ := hCalls u target msg hCall
    simp only [hSame, hSent] at hCall ⊢
    exact h.latest u target msg hCall
  · intro u target msg hCall b
    obtain ⟨_, hSame⟩ := hCalls u target msg hCall
    simp only [hSame, hAccepted] at hCall ⊢
    exact h.newer u target msg hCall b
  · intro b
    simp only [hAccepted, hSent]
    exact h.accepted b
  · intro b
    simp only [hAccepted]
    exact h.ordered b

omit [NeZero n] [Fintype τ] in
/-- A sender starts to send a message. -/
theorem Numbered.send (h : Numbered c) (sender : Sender τ ρ) (target : ρ) (body : β)
    (hAccepted : ∀ b, (shared.runtimes b).accepted = (c.shared.runtimes b).accepted)
    (hSent : shared.sent = Function.update c.shared.sent sender (c.shared.sent sender + 1))
    (hSends : Sends t place sender)
    (hCall : place.call = .sending target ⟨sender, c.shared.sent sender, body⟩) :
    Numbered ⟨shared, Function.update c.here t place⟩ := by
  have hMore : ∀ other, c.shared.sent other ≤ shared.sent other := by
    intro other
    rw [hSent]
    by_cases hOther : other = sender
    · subst hOther
      simp
    · rw [Function.update_of_ne hOther]
  have hCalls : ∀ u goal msg, (Function.update c.here t place u).call = .sending goal msg →
      u = t ∧ msg = ⟨sender, c.shared.sent sender, body⟩ ∨
        u ≠ t ∧ Function.update c.here t place u = c.here u := by
    intro u goal msg hBusy
    by_cases hu : u = t
    · subst hu
      rw [Function.update_self, hCall] at hBusy
      cases hBusy
      exact .inl ⟨rfl, rfl⟩
    · exact .inr ⟨hu, Function.update_of_ne hu ..⟩
  refine ⟨?_, ?_, ?_, ?_, ?_⟩
  · intro u goal msg hBusy
    rcases hCalls u goal msg hBusy with ⟨rfl, rfl⟩ | ⟨_, hSame⟩
    · simpa only [Function.update_self] using hSends
    · simp only [hSame] at hBusy ⊢
      exact h.owner u goal msg hBusy
  · intro u goal msg hBusy
    rcases hCalls u goal msg hBusy with ⟨rfl, rfl⟩ | ⟨_, hSame⟩
    · simp only [hSent, Function.update_self]
      exact Nat.lt_succ_self _
    · simp only [hSame] at hBusy
      exact Nat.lt_of_lt_of_le (h.latest u goal msg hBusy) (hMore _)
  · intro u goal msg hBusy b
    simp only [hAccepted]
    rcases hCalls u goal msg hBusy with ⟨rfl, rfl⟩ | ⟨_, hSame⟩
    · intro old hOld hSender
      have hBefore := h.accepted b old hOld
      rwa [hSender] at hBefore
    · simp only [hSame] at hBusy
      exact h.newer u goal msg hBusy b
  · intro b msg hMsg
    simp only [hAccepted] at hMsg
    exact Nat.lt_of_lt_of_le (h.accepted b msg hMsg) (hMore _)
  · intro b
    simp only [hAccepted]
    exact h.ordered b

/-- A message comes into a mailbox. -/
theorem Numbered.post (h : Numbered c) (reach : RunsTo cfg allowed c) {target : ρ}
    {msg : Envelope τ ρ β} {rt : ActorRuntime (Envelope τ ρ β)} {size : Nat}
    (hCall : (c.here t).call = .sending target msg)
    (hPush : (c.shared.runtimes target).push size msg = some rt)
    (hPlace : place = { c.here t with call := .errand (.dispatching target) }) :
    Numbered ⟨c.shared.setRuntime target rt, Function.update c.here t place⟩ := by
  have hAccepted : ∀ b, ((c.shared.setRuntime target rt).runtimes b).accepted =
      (c.shared.runtimes b).accepted ++ if b = target then [msg] else [] := by
    intro b
    by_cases hb : b = target
    · subst hb
      simp only [Shared.setRuntime, Function.update_self, if_true]
      rw [(ActorRuntime.push_eq_some hPush).2]
    · simp only [Shared.setRuntime, Function.update_of_ne hb, if_neg hb, List.append_nil]
  have hMem : ∀ b old, old ∈ ((c.shared.setRuntime target rt).runtimes b).accepted →
      old ∈ (c.shared.runtimes b).accepted ∨ old = msg := by
    intro b old hOld
    rw [hAccepted, List.mem_append] at hOld
    refine hOld.imp_right fun hNew => ?_
    split at hNew
    · exact List.mem_singleton.mp hNew
    · cases hNew
  have hCalls : ∀ u goal other, (Function.update c.here t place u).call = .sending goal other →
      u ≠ t ∧ Function.update c.here t place u = c.here u := by
    intro u goal other hBusy
    by_cases hu : u = t
    · subst hu
      rw [Function.update_self, hPlace] at hBusy
      cases hBusy
    · exact ⟨hu, Function.update_of_ne hu ..⟩
  refine ⟨?_, ?_, ?_, ?_, ?_⟩
  · intro u goal other hBusy
    obtain ⟨_, hSame⟩ := hCalls u goal other hBusy
    simp only [hSame] at hBusy ⊢
    exact h.owner u goal other hBusy
  · intro u goal other hBusy
    obtain ⟨_, hSame⟩ := hCalls u goal other hBusy
    simp only [hSame] at hBusy
    exact h.latest u goal other hBusy
  · intro u goal other hBusy b old hOld
    obtain ⟨hu, hSame⟩ := hCalls u goal other hBusy
    simp only [hSame] at hBusy
    rcases hMem b old hOld with hBefore | rfl
    · exact h.newer u goal other hBusy b old hBefore
    · intro hSender
      have hOwner := h.owner u goal other hBusy
      rw [← hSender] at hOwner
      exact absurd (sends_unique reach hOwner (h.owner t target old hCall)) hu
  · intro b old hOld
    rcases hMem b old hOld with hBefore | rfl
    · exact h.accepted b old hBefore
    · exact h.latest t target old hCall
  · intro b
    rw [hAccepted, List.pairwise_append]
    refine ⟨h.ordered b, ?_, ?_⟩
    · split <;> simp
    · intro old hOld new hNew
      split at hNew
      · rw [List.mem_singleton.mp hNew]
        exact h.newer t target msg hCall b old hOld
      · cases hNew

omit [NeZero n] [DecidableEq τ] [Fintype τ] in
theorem accepted_setRuntime {s : Shared n τ ρ β} {b : ρ} {rt : ActorRuntime (Envelope τ ρ β)}
    (hAccepted : rt.accepted = (s.runtimes b).accepted) (d : ρ) :
    ((s.setRuntime b rt).runtimes d).accepted = (s.runtimes d).accepted := by
  by_cases hd : d = b
  · subst hd
    simpa only [Shared.setRuntime, Function.update_self] using hAccepted
  · simp only [Shared.setRuntime, Function.update_of_ne hd]

theorem numbered (reach : RunsTo cfg allowed c) : Numbered c := by
  refine Reach.invariant (I := Numbered) ?_ ?_ reach
  · rintro c rfl
    have hNone : ∀ t target msg, ((initial cfg : Config (Thread n τ) (Shared n τ ρ β)
        (Local n τ ρ β)).here t).call ≠ .sending target msg := by
      intro t target msg hCall
      cases hCall
    exact ⟨fun t target msg h => absurd h (hNone t target msg),
      fun t target msg h => absurd h (hNone t target msg),
      fun t target msg h => absurd h (hNone t target msg),
      fun b msg hMsg => absurd hMsg List.not_mem_nil, fun b => List.Pairwise.nil⟩
  · intro c t choice shared place hReach hInv hAllowed hLocal
    cases step_mails hLocal with
    | none hRuntimes hSent hBefore hAfter hRun =>
        exact hInv.quiet (fun b => by rw [hRuntimes]) hSent hAfter
    | post target msg rt hCall hPush hShared hPlace =>
        rw [hShared]
        exact hInv.post hReach hCall hPush hPlace
    | drop target msg hCall hFull hShared hPlace =>
        exact hInv.quiet (fun b => by rw [hShared]) (by rw [hShared]) (hPlace ▸ silent_idle)
    | run w b run run' user rt sup hThread hCall hPc hStep hShared hPlace =>
        apply hInv.quiet
        · rw [hShared]
          exact accepted_setRuntime (runStep_calm hStep).accepted
        · rw [hShared]
          rfl
        · rw [hPlace]
          exact hCall ▸ silent_idle
    | request w b run run' user rt sup target body hThread hCall hPc hStep hShared hPlace =>
        apply hInv.send (.actor b) target body
        · rw [hShared]
          exact accepted_setRuntime (runStep_calm hStep).accepted
        · rw [hShared]
          rfl
        · exact ⟨run', by rw [hPlace]⟩
        · rw [hPlace]
    | clientSend u target body hThread hCall hShared hPlace =>
        apply hInv.send (.client u) target body
        · rw [hShared]
          exact fun _ => rfl
        · rw [hShared]
          rfl
        · exact hThread
        · rw [hPlace]

/-- What becomes of the messages that actor `a` has accepted. -/
structure Delivered (a : ρ) (c : Config (Thread n τ) (Shared n τ ρ β) (Local n τ ρ β)) : Prop where
  conserved : ∃ pc, Stands a c pc ∧ Conserved (c.shared.runtimes a) pc
  distinct : (c.shared.runtimes a).accepted.Nodup
  ordered : (c.shared.runtimes a).removed.Pairwise InOrder

/-- In every reachable state the messages of a supervised actor are conserved, and those
of one sender are taken out in the order in which it sent them. -/
theorem messages_delivered (reach : Reachable cfg c) (hSupervised : cfg.supervised a = true) :
    Delivered a c := by
  obtain ⟨pc, hStands⟩ := exists_stands a c
  have hConserved := conservedAt reach hSupervised pc hStands
  have hOrdered := (numbered reach).ordered a
  refine ⟨⟨pc, hStands, hConserved⟩, ?_, ?_⟩
  · apply hOrdered.imp
    rintro msg later hLater rfl
    exact Nat.lt_irrefl _ (hLater rfl)
  · rw [hConserved.order] at hOrdered
    exact (List.pairwise_append.mp hOrdered).1

/-- Actor 0 throws on the first of two messages: both go to the dead letter queue. -/
def throwOnFirst : List (Thread 1 Unit × Choice 1 (Fin 3) Bool) :=
  ([(.control, .start)] : Schedule 1) ++ sendTo 0 4 ++ sendTo 0 1 ++ ([(.control, .launch 0)] : Schedule 1) ++
  (List.replicate 4 (.worker 0, .go) : Schedule 1) ++
  ([(.worker 0, .user .go), (.worker 0, .user .go), (.worker 0, .user .go),
    (.worker 0, .user (.throws .opened))] : Schedule 1) ++
  (List.replicate 4 (.worker 0, .user .go) : Schedule 1)

def afterThrowOnFirst :
    Config (Thread 1 Unit) (Shared 1 Unit (Fin 3) Bool) (Local 1 Unit (Fin 3) Bool) :=
  ((step sample).replay anyStep (initial sample) throwOnFirst).get (by decide)

theorem messages_delivered_throwOnFirst : Delivered 0 afterThrowOnFirst ∧
    (afterThrowOnFirst.shared.runtimes 0).offers =
      [.failed 0 (some ⟨.client (), 0, false⟩), .drained 0 ⟨.client (), 1, false⟩] :=
  ⟨messages_delivered (Reach.replay (.start rfl) (Option.some_get _).symm) rfl, by decide⟩

end Runs

end ActorSystem
