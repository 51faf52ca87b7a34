import V2Engine.System.Lifecycle
import V2Engine.System.Tokens

/-! The pended list while the system stops. An actor stays there only as long as some
queue has an entry, or some worker has yet to go through the list before it leaves. -/
namespace ActorSystem

open Interleaving

variable {n : Nat} {τ ρ β : Type*}

/-- The worker has claimed this ticket of queue `q` and not yet released its slot. -/
def Grip.popping (q : Fin n) (ticket : Nat) : Grip n ρ → Int
  | .popped _ p k _ => mark (p = q ∧ k = ticket)
  | _ => 0

/-- The entry of the pended list that `drainPendedActor` has come to. -/
def Errand.drainIndex : Errand n ρ → Option Nat
  | .draining i | .reviving _ i | .revivingSignal _ i => some i
  | _ => none

/-- The thread goes through the pended list and has passed over no entry yet. -/
def Stance.Begins (x : Stance n ρ) : Prop := x.errand.bind Errand.drainIndex = some 0

/-- The worker is in its code and has not been through the pended list on its way out. -/
def Stance.Active (x : Stance n ρ) : Prop := x.grip ≠ .gone ∧ x.grip ≠ .leaving

section Moves

variable {slot : ρ → Nat} {capacity : Nat} {t : Thread n τ} {discards : Prop}
  {d d' : WorkDispatcher n ρ} {needs needs' : ρ → Prop} {x x' : Stance n ρ}

/-- Slots claimed with ticket `ticket` and not released, as the queue has it. -/
def claimed (q : Fin n) (ticket : Nat) (d : WorkDispatcher n ρ) : Int :=
  (d.queues q).busy.count ticket

theorem claimed_setQueue (q p : Fin n) (ticket : Nat) (queue : WorkQueue ρ) :
    claimed q ticket (d.setQueue p queue) =
      if p = q then (queue.busy.count ticket : Int) else claimed q ticket d := by
  by_cases h : p = q
  · subst h
    simp [claimed]
  · simp [claimed, h, Function.update_of_ne (Ne.symm h)]

theorem claimed_push (q p : Fin n) (ticket : Nat) (a : ρ) :
    claimed q ticket (d.push p a) = claimed q ticket d := by
  rw [WorkDispatcher.push, claimed_setQueue]
  split
  · subst p
    rfl
  · rfl

theorem claimed_pop (q p : Fin n) (ticket : Nat) {a : ρ} {k : Nat} {queue : WorkQueue ρ}
    (h : (d.queues p).pop = some (a, k, queue)) :
    claimed q ticket (d.setQueue p queue) = claimed q ticket d + mark (p = q ∧ k = ticket) := by
  rw [claimed_setQueue]
  split
  · subst p
    rw [(WorkQueue.pop_eq_some h).2.2, count_cons_eq]
    simp only [claimed, true_and]
  · rename_i hq
    rw [mark_of_false fun h => hq h.1, Int.add_zero]

theorem claimed_release (q p : Fin n) (ticket k : Nat)
    (hClaimed : p = q ∧ k = ticket → ticket ∈ (d.queues q).busy) :
    claimed q ticket (d.setQueue p ((d.queues p).release k)) =
      claimed q ticket d - mark (p = q ∧ k = ticket) := by
  rw [claimed_setQueue]
  split
  · subst p
    by_cases hk : k = ticket
    · subst hk
      have hOne := List.count_pos_iff.mpr (hClaimed ⟨rfl, rfl⟩)
      simp only [WorkQueue.release, List.count_erase_self, claimed, and_self, mark_of_true]
      omega
    · rw [WorkQueue.release, List.count_erase_of_ne (Ne.symm hk), mark_of_false fun h => hk h.2]
      exact (Int.sub_zero _).symm
  · rename_i hq
    rw [mark_of_false fun h => hq h.1, Int.sub_zero]

/-- A slot is claimed by a pop and released by the worker that popped. -/
theorem Move.slots (q : Fin n) (ticket : Nat)
    (hClaimed : 0 < x.grip.popping q ticket → ticket ∈ (d.queues q).busy)
    (move : Move slot capacity t discards d needs x d' needs' x') :
    x'.grip.popping q ticket - claimed q ticket d' = x.grip.popping q ticket - claimed q ticket d := by
  cases move
  case push g a source p hRoom =>
    rw [claimed_push]
  case revive g a p i hEntry hRoom =>
    have hPush := claimed_push (d := d) q p ticket a
    simp only [claimed, WorkDispatcher.push, WorkDispatcher.setQueue, WorkDispatcher.setPended] at hPush ⊢
    rw [hPush]
  case popOwn g w a k queue hOwner hGrip hPop =>
    rw [claimed_pop q w ticket hPop]
    rcases hGrip with rfl | rfl
    · simp only [Grip.popping]
      omega
    · simp only [Grip.popping]
      omega
  case popStolen p a k queue hPop =>
    rw [claimed_pop q p ticket hPop]
    simp only [Grip.popping]
    omega
  case releaseSlot a p k stolen =>
    rw [claimed_release q p ticket k fun h => hClaimed (by simp [Grip.popping, h])]
    cases stolen
    · simp only [Grip.popping, Bool.false_eq_true, if_false]
      omega
    · simp only [Grip.popping, if_true]
      omega
  all_goals rfl

/-- What a move does to the pended list and to those who look after it: the list is
empty, or a queue has an entry, or the thread is active or begins to go through the
list, or it found a queue that refused an entry, or it ended in the middle of its loop,
or nothing of this changed. -/
inductive Minds (capacity : Nat) (d : WorkDispatcher n ρ) (x : Stance n ρ)
    (d' : WorkDispatcher n ρ) (x' : Stance n ρ) : Prop where
  | emptied (h : d'.pendedActorList = [])
  | queued (q : Fin n) (h : (d'.queues q).items ≠ [])
  | active (h : x'.Active)
  | begins (h : x'.Begins)
  | refused (q : Fin n) (hSame : d' = d) (hGrip : x'.grip = x.grip)
      (h : (d.queues q).Refuses capacity)
  | gone (hBefore : x.grip = .free) (hAfter : x'.grip = .gone)
  | kept (hPended : d'.pendedActorList = d.pendedActorList)
      (hQueues : ∀ q, (d'.queues q).items = (d.queues q).items)
      (hGrip : x'.grip = x.grip ∨ x.grip = .leaving) (hBegins : x.Begins → x'.Begins)

/-- A call that parks a token has to belong to an active worker. -/
theorem Move.minds (hParking : ∀ a source, x.errand = some (.parking a source) → x.Active)
    (move : Move slot capacity t discards d needs x d' needs' x') : Minds capacity d x d' x' := by
  cases move
  case push g a source q hRoom => exact .queued q (by simp [WorkQueue.push])
  case revive g a q i hEntry hRoom => exact .queued q (by simp [WorkQueue.push])
  case park g a source hFree => exact .active (hParking a source rfl)
  case lock hFree => exact .begins rfl
  case unlock g i hEnd =>
    cases i with
    | zero =>
        apply Minds.emptied
        show d.pendedActorList = []
        rw [List.getElem?_eq_none_iff] at hEnd
        exact List.length_eq_zero_iff.mp (Nat.le_zero.mp hEnd)
    | succ i => exact .kept rfl (fun _ => rfl) (.inl rfl) (fun h => by cases h)
  case skip g a q i hEntry hFull => exact .refused q rfl rfl hFull
  case clear => exact .emptied rfl
  case leaveLoop => exact .gone rfl rfl
  case leaveDrained | leaveStopped => exact .kept rfl (fun _ => rfl) (.inr rfl) (fun h => by cases h)
  case popOwn | popStolen | repay | wake | miss | unhold | unwatch | reclaim | retire | enter | stay =>
    exact .active (by simp [Stance.Active])
  case releaseSlot a q ticket stolen => cases stolen <;> exact .active (by simp [Stance.Active])
  case quiet | reviveCount | reviveSignal | alarm | flags =>
    exact .kept rfl (fun _ => rfl) (.inl rfl) (fun h => h)
  all_goals exact .kept rfl (fun _ => rfl) (.inl rfl) (fun h => by cases h)

end Moves

section Runs

variable [NeZero n] [DecidableEq ρ] [DecidableEq τ] {cfg : Setup ρ β}
  {c : Config (Thread n τ) (Shared n τ ρ β) (Local n τ ρ β)}
  {allowed : Config (Thread n τ) (Shared n τ ρ β) (Local n τ ρ β) → Thread n τ →
    Choice n ρ β → Prop}

section Slots

variable [Fintype τ]

/-- Workers that have claimed the slot, less the queue's own count. -/
abbrev slotLedger (q : Fin n) (ticket : Nat)
    (c : Config (Thread n τ) (Shared n τ ρ β) (Local n τ ρ β)) : Int :=
  ledger (fun s => -claimed q ticket s.dispatcher) (fun _ l => l.stance.grip.popping q ticket) c

omit [NeZero n] [DecidableEq ρ] [DecidableEq τ] in
theorem claimed_of_popping {q : Fin n} {ticket : Nat} (hLedger : slotLedger q ticket c = 0)
    (t : Thread n τ) (hPopping : 0 < (c.here t).stance.grip.popping q ticket) :
    ticket ∈ (c.shared.dispatcher.queues q).busy := by
  have hEntry := le_entries (w := fun _ (l : Local n τ ρ β) => l.stance.grip.popping q ticket)
    (f := c.here) (fun u => by cases (c.here u).stance.grip <;> simp [Grip.popping, mark_nonneg]) t
  simp only [ledger, claimed] at hLedger
  apply List.count_pos_iff.mp
  omega

theorem slotLedger_eq (reach : RunsTo cfg allowed c) (q : Fin n) (ticket : Nat) :
    slotLedger q ticket c = 0 := by
  apply Reach.ledger_eq _ _ reach
  · rintro c rfl
    have hHands : entries (fun (_ : Thread n τ) (l : Local n τ ρ β) => l.stance.grip.popping q ticket)
        (fun _ => .start) = 0 := entries_eq_zero fun _ => rfl
    simp only [ledger, initial, hHands]
    rfl
  · intro c t choice shared place _ hLedger _ hLocal
    have hMove := (step_moves hLocal).slots q ticket (claimed_of_popping hLedger t)
    omega

/-- A slot that is not released belongs to a worker in the middle of its pop. -/
theorem exists_active_of_busy (reach : RunsTo cfg allowed c) {q : Fin n}
    (hBusy : (c.shared.dispatcher.queues q).busy ≠ []) : ∃ t, (c.here t).stance.Active := by
  obtain ⟨ticket, hTicket⟩ := List.exists_mem_of_ne_nil _ hBusy
  have hCount := List.count_pos_iff.mpr hTicket
  have hLedger := slotLedger_eq reach q ticket
  simp only [ledger, claimed] at hLedger
  obtain ⟨t, ht⟩ := exists_entry_ne_zero
    (w := fun _ (l : Local n τ ρ β) => l.stance.grip.popping q ticket) (f := c.here) (by omega)
  refine ⟨t, fun hGone => ht ?_, fun hLeaving => ht ?_⟩
  · simp only [hGone, Grip.popping]
  · simp only [hLeaving, Grip.popping]

end Slots

/-- Only a worker with a thread is active. -/
theorem live_of_active (reach : RunsTo cfg allowed c) {t : Thread n τ}
    (hActive : (c.here t).stance.Active) : ∃ w, t = .worker w ∧ c.shared.live w = true := by
  have hPc : (c.here t).worker ≠ .exited := by
    intro hExited
    apply hActive.1
    simp only [Local.stance, hExited, WorkerPc.grip]
  cases t with
  | worker w => exact ⟨w, rfl, live_of_worker reach hPc⟩
  | client u | control => exact absurd (exited_of_not_worker reach (by simp)) hPc

/-- A step into `stop` is the one by which it is called. -/
theorem stops_of_orderly (reach : RunsTo cfg orderly c) {t : Thread n τ} {choice : Choice n ρ β}
    {shared : Shared n τ ρ β} {place : Local n τ ρ β} (hOrderly : orderly c t choice)
    (hLocal : step cfg t c.shared (c.here t) choice = some (shared, place))
    (hBefore : (c.here .control).control = .idle)
    (hAfter : (Function.update c.here t place .control).control ≠ .idle) :
    t = .control ∧ (∀ w, shared.live w = true) ∧ (∀ u, (c.here (.client u)).call = .idle) := by
  have ht : t = .control := by
    by_contra hOther
    rw [Function.update_of_ne (Ne.symm hOther)] at hAfter
    exact hAfter hBefore
  subst ht
  rcases step_cases hLocal with ⟨w, _, _, hThread, _⟩ | ⟨_, _, hThread, _⟩ |
    ⟨pc', _, _, hStep, rfl⟩ | ⟨_, hBusy, _⟩
  · cases hThread
  · cases hThread
  · simp only [Function.update_self] at hAfter
    rw [hBefore] at hStep
    cases choice <;> simp only [controlStep, reduceCtorEq] at hStep
    case stopSystem =>
      cases hStep
      refine ⟨rfl, hOrderly.1, fun u => ?_⟩
      have hIdle := hOrderly.2 u
      split at hIdle
      · assumption
      · cases hIdle
    case stopDispatcher => exact hOrderly.elim
    case start =>
      cases hStep
      exact absurd rfl hAfter
    case launch w =>
      split_ifs at hStep
      cases hStep
      exact absurd rfl hAfter
  · exact absurd (control_idle reach) hBusy

/-- From the beginning of `stop` on no client is in a call. -/
theorem clients_idle (reach : RunsTo cfg orderly c) (hStop : (c.here .control).control ≠ .idle) (u : τ) :
    (c.here (.client u)).call = .idle := by
  revert hStop
  refine Reach.invariant (I := fun c => (c.here .control).control ≠ .idle →
    (c.here (.client u)).call = .idle) ?_ ?_ reach
  · rintro c rfl _
    rfl
  · intro c t choice shared place hReach hInv hOrderly hLocal hStop
    by_cases hBefore : (c.here .control).control = .idle
    · obtain ⟨rfl, _, hIdle⟩ := stops_of_orderly hReach hOrderly hLocal hBefore hStop
      simpa using hIdle u
    · cases t with
      | client v => exact absurd hOrderly hBefore
      | worker w | control => simpa using hInv hBefore

/-- While the system stops, only active workers park tokens. -/
theorem active_of_parking (reach : RunsTo cfg orderly c) (hStop : (c.here .control).control ≠ .idle)
    (t : Thread n τ) (a : ρ) (source : Source)
    (hParking : (c.here t).stance.errand = some (.parking a source)) : (c.here t).stance.Active := by
  cases t with
  | client u => simp [Local.stance, clients_idle reach hStop u, Call.errand?] at hParking
  | control => simp [Local.stance, control_idle reach, Call.errand?] at hParking
  | worker w =>
      have hCalling := calling reach w
      simp only [Local.stance] at hParking
      generalize (c.here (.worker w)).call = call at hParking hCalling
      simp only [Stance.Active, Local.stance]
      generalize (c.here (.worker w)).worker = pc at hCalling
      cases hCalling with
      | idle | sending => cases hParking
      | dispatch | redispatch => simp [WorkerPc.grip]
      | drain x hDrains =>
          cases hParking
          cases hDrains

/-- Some queue has an entry, or some worker is not on its way out. -/
def Hopeful (c : Config (Thread n τ) (Shared n τ ρ β) (Local n τ ρ β)) : Prop :=
  (∃ q, (c.shared.dispatcher.queues q).items ≠ []) ∨
    ∃ w, c.shared.live w = true ∧ (c.here (.worker w)).stance.grip ≠ .leaving

/-- The pended list is empty or looked after. -/
def Minded (c : Config (Thread n τ) (Shared n τ ρ β) (Local n τ ρ β)) : Prop :=
  c.shared.dispatcher.pendedActorList = [] ∨ Hopeful c ∨ ∃ t, (c.here t).stance.Begins

theorem hopeful_of_active (reach : RunsTo cfg allowed c) {t : Thread n τ}
    (hActive : (c.here t).stance.Active) : Hopeful c := by
  obtain ⟨w, rfl, hLive⟩ := live_of_active reach hActive
  exact .inr ⟨w, hLive, hActive.2⟩

omit [NeZero n] [DecidableEq ρ] in
theorem exited_of_grip {ε : Type*} {pc : WorkerPc n ρ ε} (h : pc.grip = .gone) : pc = .exited := by
  cases pc <;> cases h
  rfl

/-- In an orderly run no worker ends in the middle of its loop. -/
theorem not_gone_of_free (reach : RunsTo cfg orderly c) {t : Thread n τ} {choice : Choice n ρ β}
    {shared : Shared n τ ρ β} {place : Local n τ ρ β}
    (hLocal : step cfg t c.shared (c.here t) choice = some (shared, place))
    (hBefore : (c.here t).stance.grip = .free) : place.stance.grip ≠ .gone := by
  intro hAfter
  have hKept : ∀ place : Local n τ ρ β, place.worker = (c.here t).worker → place.stance.grip ≠ .gone := by
    intro place hWorker hGone
    simp only [Local.stance] at hBefore hGone
    rw [hWorker, hBefore] at hGone
    cases hGone
  rcases step_cases hLocal with ⟨w, pc', call', rfl, _, hStep, rfl⟩ | ⟨_, _, _, _, _, rfl⟩ |
    ⟨_, _, _, _, rfl⟩ | ⟨_, _, _, rfl⟩
  · have hExited : pc' = .exited := exited_of_grip hAfter
    subst hExited
    rcases leaves reach hStep with ⟨hPc, _⟩ | ⟨hPc, _⟩
    · simp [Local.stance, hPc, WorkerPc.grip] at hBefore
    · simp [Local.stance, hPc, WorkerPc.grip] at hBefore
  · exact hKept _ rfl hAfter
  · exact hKept _ rfl hAfter
  · exact hKept _ rfl hAfter

/-- A worker's thread ends by a step of its own. -/
theorem exits {t : Thread n τ} {s s' : Shared n τ ρ β} {l l' : Local n τ ρ β}
    {choice : Choice n ρ β} (h : step cfg t s l choice = some (s', l')) {w : Fin n}
    (hLive : s.live w = true) (hDead : s'.live w = false) :
    t = .worker w ∧ l.call = .idle ∧ s' = s.exit w ∧
      ∃ call', workerStep cfg w s l.worker choice = some (s', .exited, call') := by
  have hChanged : s'.live w ≠ s.live w := by
    rw [hLive, hDead]
    exact Bool.false_ne_true
  rcases step_cases h with ⟨u, pc', call', rfl, hIdle, hStep, rfl⟩ | ⟨u, call', rfl, _, hStep, _⟩ |
    ⟨pc', rfl, _, hStep, _⟩ | ⟨call', _, hStep, _⟩
  · rcases worker_flags hStep with hSame | ⟨rfl, rfl, rfl⟩
    · exact absurd (congrFun (congrArg Flags.live hSame) w) hChanged
    · have hu : w = u := by
        by_contra hOther
        exact hChanged (by simp only [Shared.exit, Function.update_of_ne hOther])
      subst hu
      exact ⟨rfl, hIdle, rfl, .idle, hStep⟩
  · refine absurd ?_ hChanged
    cases choice <;> cases hStep <;> rfl
  · rw [control_live hStep w hLive] at hDead
    cases hDead
  · exact absurd (congrFun (congrArg Flags.live (call_flags hStep)) w) hChanged

/-- A worker that has not given up keeps its thread. -/
theorem live_kept (reach : RunsTo cfg orderly c) {t : Thread n τ} {choice : Choice n ρ β}
    {shared : Shared n τ ρ β} {place : Local n τ ρ β}
    (hLocal : step cfg t c.shared (c.here t) choice = some (shared, place)) {w : Fin n}
    (hLive : c.shared.live w = true) (hGrip : (c.here (.worker w)).stance.grip ≠ .leaving) :
    shared.live w = true := by
  by_contra hDead
  rw [Bool.not_eq_true] at hDead
  obtain ⟨rfl, _, _, call', hStep⟩ := exits hLocal hLive hDead
  apply hGrip
  rcases leaves reach hStep with ⟨hPc, _⟩ | ⟨hPc, _⟩
  · simp only [Local.stance, hPc, WorkerPc.grip]
  · simp only [Local.stance, hPc, WorkerPc.grip]

/-- While the system stops, the pended list is empty or looked after. -/
theorem minded [Fintype τ] (reach : RunsTo cfg orderly c)
    (hCapacity : 0 < cfg.dispatcher.queueCapacity) (hStop : (c.here .control).control ≠ .idle) :
    Minded c := by
  revert hStop
  refine Reach.invariant (I := fun c => (c.here .control).control ≠ .idle → Minded c) ?_ ?_ reach
  · rintro c rfl hStop
    exact absurd rfl hStop
  · intro c t choice shared place hReach hInv hOrderly hLocal hStop
    have hAfter : RunsTo cfg orderly ⟨shared, Function.update c.here t place⟩ :=
      .step hReach hOrderly (Program.next_eq_some.mpr ⟨shared, place, hLocal, rfl⟩)
    by_cases hBefore : (c.here .control).control = .idle
    · -- `stop` is called: no worker has given up yet
      obtain ⟨rfl, hLive, _⟩ := stops_of_orderly hReach hOrderly hLocal hBefore hStop
      refine .inr (.inl (.inr ⟨0, hLive 0, ?_⟩))
      have hPatient := patient hReach (.inl hBefore) (0 : Fin n)
      intro hLeaving
      apply hPatient
      simp only [Local.stance] at hLeaving
      cases hPc : (c.here (.worker 0)).worker <;> simp_all [WorkerPc.grip, WorkerPc.GivesUp]
    · have hMove := (step_moves hLocal).minds (active_of_parking hReach hBefore t)
      cases hMove with
      | emptied h => exact .inl h
      | queued q h => exact .inr (.inl (.inl ⟨q, h⟩))
      | active h => exact .inr (.inl (hopeful_of_active hAfter (t := t) (by simpa using h)))
      | begins h => exact .inr (.inr ⟨t, by simpa using h⟩)
      | refused q hSame hGrip hFull =>
          rcases hFull.nonempty hCapacity with hItems | hBusy
          · exact .inr (.inl (.inl ⟨q, by rwa [hSame]⟩))
          · obtain ⟨u, hActive⟩ := exists_active_of_busy hReach hBusy
            refine .inr (.inl (hopeful_of_active hAfter (t := u) ?_))
            by_cases hu : u = t
            · subst hu
              simp only [Function.update_self, Stance.Active, hGrip]
              exact hActive
            · simpa only [Function.update_of_ne hu] using hActive
      | gone hFree hGone => exact absurd hGone (not_gone_of_free hReach hLocal hFree)
      | kept hPended hQueues hGrip hBegins =>
          rcases hInv hBefore with hEmpty | (⟨q, hItems⟩ | ⟨w, hLive, hStays⟩) | ⟨u, hu⟩
          · exact .inl (hPended.trans hEmpty)
          · exact .inr (.inl (.inl ⟨q, by rwa [hQueues]⟩))
          · refine .inr (.inl (.inr ⟨w, live_kept hReach hLocal hLive hStays, ?_⟩))
            by_cases ht : .worker w = t
            · subst ht
              simp only [Function.update_self]
              rw [hGrip.resolve_right hStays]
              exact hStays
            · simpa only [Function.update_of_ne ht] using hStays
          · refine .inr (.inr ⟨u, ?_⟩)
            by_cases hut : u = t
            · subst hut
              simpa only [Function.update_self] using hBegins hu
            · simpa only [Function.update_of_ne hut] using hu

end Runs

end ActorSystem
