import V2Engine.Timer.ExpiryPass
import V2Engine.Timer.Scheduler

/-! The records that three layers keep of one timer: `timerIds_` of the runtime that has started it,
`timerCtxs_` of the scheduler, and the timers of `TimerBase`. A runtime may start timers for others,
and be destroyed before them. -/
namespace Timer

open Interleaving

/-- `timerIds_`, and whether the destructor is between its two blocks. -/
structure TimerOwner where
  timerIds : List Nat
  leaving : Bool
deriving DecidableEq

/-- The runtimes are numbered as they are created; `creator` is the one that has started a timer. -/
structure Runtimes (α : Type) where
  timers : Timers
  timerCtxs : Nat → Option (TimerCtx Nat α)
  owners : Nat → Option TimerOwner
  born : Nat
  creator : Nat → Nat
  /-- How often a callback enqueued on a runtime that was destroyed. -/
  strays : Nat

namespace Runtimes

variable {α : Type}

def constructed : Runtimes α := ⟨.constructed, fun _ => none, fun _ => none, 0, fun _ => 0, 0⟩

variable (s : Runtimes α)

def setOwner (k : Nat) (owner : TimerOwner) : Runtimes α :=
  { s with owners := Function.update s.owners k (some owner) }

def create : Runtimes α := { s.setOwner s.born ⟨[], false⟩ with born := s.born + 1 }

/-- `Scheduler::addTimer`, with `cleanupTimerCtxs`, for the id that `TimerBase::add` gives. -/
def schedule (k : Nat) (ctx : TimerCtx Nat α) (delayMs : Nat) (repeating : Bool) (now : Nat) : Runtimes α :=
  let timerCtxs := fun id => if s.timers.base.isAlive id then s.timerCtxs id else none
  { s with
    timers := s.timers.add now delayMs repeating
    timerCtxs := Function.update timerCtxs s.timers.base.nextId (some ctx)
    creator := Function.update s.creator s.timers.base.nextId k }

/-- `Scheduler::cancel`. -/
def cancel (id : Nat) : Runtimes α :=
  { s with timers := s.timers.cancel id, timerCtxs := Function.update s.timerCtxs id none }

/-- `ActorRuntime::addTimer` for a target with a runtime. -/
def addTimer (k : Nat) (owner : TimerOwner) (ctx : TimerCtx Nat α) (delayMs : Nat) (repeating : Bool) (now : Nat) :
    Runtimes α :=
  (s.schedule k ctx delayMs repeating now).setOwner k
    { owner with timerIds := owner.timerIds.insert s.timers.base.nextId }

def cancelTimer (k : Nat) (owner : TimerOwner) (id : Nat) : Runtimes α :=
  (s.cancel id).setOwner k { owner with timerIds := owner.timerIds.erase id }

def cancelAllTimers (k : Nat) (owner : TimerOwner) : Runtimes α :=
  (owner.timerIds.foldl cancel s).setOwner k { owner with timerIds := [] }

/-- `Scheduler::timerCallback`. -/
def timerCallback (id : Nat) : Runtimes α :=
  match s.timerCtxs id with
  | none => s
  | some ctx => if (s.owners ctx.target).isSome then s else { s with strays := s.strays + 1 }

inductive Event (α : Type) where
  | create
  | startTimer (k : Nat) (msg : α) (delayMs : Nat) (repeating : Bool) (now : Nat)
  /-- `found` is what the registry has for the name or id of the target. -/
  | sendMsgAfter (k : Nat) (found : Option Nat) (msg : α) (delayMs now : Nat)
  | cancelTimer (k id : Nat)
  | cancelAllTimers (k : Nat)
  /-- The destructor of a runtime up to where it leaves the registry. -/
  | destroy (k : Nat)
  /-- The rest of the destructor. -/
  | remove (k : Nat)
  | collect (now : Nat)
  | call
  | reschedule

def step : Event α → Runtimes α → Option (Runtimes α)
  | .create, s => some s.create
  | .startTimer k msg delayMs repeating now, s =>
      (s.owners k).map fun owner => s.addTimer k owner ⟨k, msg⟩ delayMs repeating now
  | .sendMsgAfter k found msg delayMs now, s => match s.owners k, found with
    | none, _ => none
    | some _, none => some s
    | some owner, some target =>
        -- the registry has runtimes that are not removed
        if (s.owners target).isSome then some (s.addTimer k owner ⟨target, msg⟩ delayMs false now) else none
  | .cancelTimer k id, s => (s.owners k).map fun owner => s.cancelTimer k owner id
  | .cancelAllTimers k, s => (s.owners k).map fun owner => s.cancelAllTimers k owner
  | .destroy k, s => match s.owners k with
    | some ⟨timerIds, false⟩ => some (s.cancelAllTimers k ⟨timerIds, true⟩)
    | _ => none
  | .remove k, s => match s.owners k with
    | some ⟨_, true⟩ => some { s with owners := Function.update s.owners k none }
    | _ => none
  | .collect now, s => (s.timers.step (.collect now)).map fun timers => { s with timers := timers }
  | .call, s => match s.timers.pass with
    | some ⟨id :: _, _⟩ => (s.timers.step .call).map fun timers => { s with timers := timers }.timerCallback id
    | _ => none
  | .reschedule, s => (s.timers.step .reschedule).map fun timers => { s with timers := timers }

/-- The timer was started by the runtime, is not cancelled and, if it fires once, has not fired. -/
def Pending (k id : Nat) : Prop := s.creator id = k ∧ (s.timers.live id).isSome = true

instance (k id : Nat) : Decidable (s.Pending k id) := inferInstanceAs (Decidable (_ ∧ _))

variable {s s' : Runtimes α} {k id : Nat} {owner : TimerOwner} {ctx : TimerCtx Nat α}

theorem owners_setOwner (s : Runtimes α) (k : Nat) (owner : TimerOwner) (j : Nat) :
    (s.setOwner k owner).owners j = if j = k then some owner else s.owners j := Function.update_apply ..

theorem owners_create (s : Runtimes α) (j : Nat) :
    s.create.owners j = if j = s.born then some ⟨[], false⟩ else s.owners j := Function.update_apply ..

/-- What is left when the timers of a list are cancelled one after the other. -/
structure Cancels (ids : List Nat) (s s' : Runtimes α) : Prop where
  inv : s'.timers.Inv
  live : ∀ id, s'.timers.live id = if id ∈ ids then none else s.timers.live id
  ctxs : ∀ id, s'.timerCtxs id = if id ∈ ids then none else s.timerCtxs id
  nextId : s'.timers.base.nextId = s.timers.base.nextId
  pass : s'.timers.pass = s.timers.pass
  owners : s'.owners = s.owners
  born : s'.born = s.born
  creator : s'.creator = s.creator
  strays : s'.strays = s.strays

theorem cancels_cancel (inv : s.timers.Inv) (id : Nat) : Cancels [id] s (s.cancel id) where
  inv := inv.cancel id
  live id' := by
    simp only [List.mem_singleton]
    exact Function.update_apply ..
  ctxs id' := by
    simp only [List.mem_singleton]
    exact Function.update_apply ..
  nextId := TimerBase.cancel_nextId _ _
  pass := rfl
  owners := rfl
  born := rfl
  creator := rfl
  strays := rfl

theorem cancels_foldl (ids : List Nat) (inv : s.timers.Inv) : Cancels ids s (ids.foldl cancel s) := by
  induction ids generalizing s with
  | nil =>
      exact ⟨inv, fun id => (if_neg List.not_mem_nil).symm, fun id => (if_neg List.not_mem_nil).symm, rfl, rfl, rfl, rfl,
        rfl, rfl⟩
  | cons first rest ih =>
      have one := cancels_cancel inv first
      have more := ih one.inv
      refine ⟨more.inv, fun id => ?_, fun id => ?_, more.nextId.trans one.nextId, more.pass.trans one.pass,
        more.owners.trans one.owners, more.born.trans one.born, more.creator.trans one.creator,
        more.strays.trans one.strays⟩
      · refine (more.live id).trans ?_
        rw [one.live]
        by_cases hFirst : id = first
        · simp [hFirst]
        · simp [hFirst]
      · refine (more.ctxs id).trans ?_
        rw [one.ctxs]
        by_cases hFirst : id = first
        · simp [hFirst]
        · simp [hFirst]

theorem step_call (h : step .call s = some s') : ∃ id timers, s.timers.step .call = some timers ∧
    s' = ({ s with timers := timers } : Runtimes α).timerCallback id := by
  simp only [step] at h
  split at h
  · obtain ⟨timers, hStep, hAfter⟩ := Option.map_eq_some_iff.mp h
    exact ⟨_, timers, hStep, hAfter.symm⟩
  · cases h

/-- A callback changes no record of a timer. -/
theorem timerCallback_same (s : Runtimes α) (id : Nat) : ∃ strays, s.timerCallback id = { s with strays := strays } ∧
    (strays = s.strays ∨ ∃ ctx, s.timerCtxs id = some ctx ∧ s.owners ctx.target = none) := by
  unfold timerCallback
  split
  · exact ⟨s.strays, rfl, .inl rfl⟩
  · rename_i ctx hCtx
    split
    · exact ⟨s.strays, rfl, .inl rfl⟩
    · rename_i hNone
      exact ⟨s.strays + 1, rfl, .inr ⟨ctx, hCtx, Option.not_isSome_iff_eq_none.mp hNone⟩⟩

/-- The timers that are pending after a step that starts one. -/
theorem pending_schedule (ctx : TimerCtx Nat α) (delayMs : Nat) (repeating : Bool) (now : Nat) (j id : Nat) :
    (s.schedule k ctx delayMs repeating now).Pending j id ↔
      if id = s.timers.base.nextId then k = j else s.Pending j id := by
  unfold Pending schedule Timers.add
  dsimp only
  by_cases hNew : id = s.timers.base.nextId
  · simp [hNew]
  · simp [hNew]

theorem Cancels.pending {ids : List Nat} (cancels : Cancels ids s s') (j id : Nat) :
    s'.Pending j id ↔ id ∉ ids ∧ s.Pending j id := by
  unfold Pending
  rw [cancels.live, cancels.creator]
  by_cases hid : id ∈ ids
  · simp [hid]
  · simp [hid]

/-- A runtime knows its pending timers, and no others. -/
structure Agreed (s : Runtimes α) : Prop where
  timers : s.timers.Inv
  nodup : ∀ k owner, s.owners k = some owner → owner.timerIds.Nodup
  ids : ∀ k owner, s.owners k = some owner → ∀ id, id ∈ owner.timerIds ↔ s.Pending k id
  known : ∀ k id, s.Pending k id → k < s.born
  born : ∀ k owner, s.owners k = some owner → k < s.born

/-- No pass ends a one-shot timer whose runtime is there, and no runtime cancels a timer of another
one. -/
def KeepsIds (s : Runtimes α) : Event α → Prop
  | .cancelTimer k id => s.Pending (s.creator id) id → s.creator id = k ∨ s.owners (s.creator id) = none
  | .reschedule => ∀ id ∈ s.timers.ready, ∀ node ∈ s.timers.live id, node.repeating = false →
      s.owners (s.creator id) = none
  | _ => True

instance (s : Runtimes α) : DecidablePred s.KeepsIds
  | .cancelTimer .. => inferInstanceAs (Decidable (_ → _))
  | .reschedule => inferInstanceAs (Decidable (∀ id ∈ _, ∀ node ∈ _, _ → _))
  | .create | .startTimer .. | .sendMsgAfter .. | .cancelAllTimers _ | .destroy _ | .remove _ | .collect _
  | .call => inferInstanceAs (Decidable True)

theorem Agreed.constructed : Agreed (constructed : Runtimes α) where
  timers := .constructed
  nodup _ _ h := by cases h
  ids _ _ h := by cases h
  known _ _ h := by cases h.2
  born _ _ h := by cases h

theorem Agreed.lt_nextId (agreed : s.Agreed) (h : s.Pending k id) : id < s.timers.base.nextId := by
  obtain ⟨node, hNode⟩ := Option.isSome_iff_exists.mp h.2
  exact agreed.timers.lt_of_live hNode

theorem Agreed.create (agreed : s.Agreed) : s.create.Agreed := by
  refine ⟨agreed.timers, fun j owner h => ?_, fun j owner h id => ?_,
    fun j id h => Nat.lt_succ_of_lt (agreed.known j id h), fun j owner h => ?_⟩
  · rw [owners_create] at h
    split at h
    · cases h
      exact .nil
    · exact agreed.nodup j owner h
  · rw [owners_create] at h
    split at h
    · rename_i hNew
      cases h
      refine iff_of_false List.not_mem_nil fun hPending => ?_
      exact Nat.lt_irrefl _ (hNew ▸ agreed.known j id hPending)
    · exact agreed.ids j owner h id
  · rw [owners_create] at h
    split at h
    · rename_i hNew
      exact hNew ▸ Nat.lt_succ_self _
    · exact Nat.lt_succ_of_lt (agreed.born j owner h)

/-- The records of one runtime change with what is pending for it, and those of the others stay. -/
theorem Agreed.setOwner {owner' : TimerOwner} (agreed : s.Agreed) (s' : Runtimes α)
    (hOwner : s.owners k = some owner) (inv : s'.timers.Inv) (hOwners : s'.owners = s.owners)
    (hBorn : s'.born = s.born) (hNodup : owner'.timerIds.Nodup)
    (hIds : ∀ id, id ∈ owner'.timerIds ↔ s'.Pending k id)
    (hOthers : ∀ j ≠ k, s.owners j ≠ none → ∀ id, s'.Pending j id ↔ s.Pending j id)
    (hKnown : ∀ j id, s'.Pending j id → j < s.born) : (s'.setOwner k owner').Agreed := by
  refine ⟨inv, fun j o h => ?_, fun j o h id => ?_, fun j id h => ?_, fun j o h => ?_⟩
  · rw [owners_setOwner, hOwners] at h
    split at h
    · cases h
      exact hNodup
    · exact agreed.nodup j o h
  · rw [owners_setOwner, hOwners] at h
    split at h
    · rename_i hSame
      cases h
      rw [hSame]
      exact hIds id
    · rename_i hOther
      exact (agreed.ids j o h id).trans (hOthers j hOther (by rw [h]; simp) id).symm
  · show j < s'.born
    rw [hBorn]
    exact hKnown j id h
  · show j < s'.born
    rw [owners_setOwner, hOwners] at h
    rw [hBorn]
    split at h
    · rename_i hSame
      rw [hSame]
      exact agreed.born k owner hOwner
    · exact agreed.born j o h

theorem Agreed.addTimer (agreed : s.Agreed) (hOwner : s.owners k = some owner) (ctx : TimerCtx Nat α) (delayMs : Nat)
    (repeating : Bool) (now : Nat) : (s.addTimer k owner ctx delayMs repeating now).Agreed := by
  have hPending := fun j id => pending_schedule (s := s) (k := k) ctx delayMs repeating now j id
  have hFresh : s.timers.base.nextId ∉ owner.timerIds := fun h =>
    Nat.lt_irrefl _ (agreed.lt_nextId ((agreed.ids k owner hOwner _).mp h))
  apply agreed.setOwner (s.schedule k ctx delayMs repeating now) hOwner
  case inv => exact agreed.timers.add now delayMs repeating
  case hOwners => rfl
  case hBorn => rfl
  case hNodup => exact (agreed.nodup k owner hOwner).insert
  case hIds =>
    intro id
    rw [hPending, List.mem_insert_iff, agreed.ids k owner hOwner]
    by_cases hNew : id = s.timers.base.nextId
    · simp [hNew]
    · simp [hNew]
  case hOthers =>
    intro j hj _ id
    rw [hPending]
    split
    · rename_i hNew
      refine iff_of_false (fun h => hj h.symm) fun h => ?_
      exact Nat.lt_irrefl _ (hNew ▸ agreed.lt_nextId h)
    · rfl
  case hKnown =>
    intro j id h
    rw [hPending] at h
    split at h
    · exact h ▸ agreed.born k owner hOwner
    · exact agreed.known j id h

theorem Agreed.cancelTimer (agreed : s.Agreed) (hOwner : s.owners k = some owner)
    (keeps : s.KeepsIds (.cancelTimer k id)) : (s.cancelTimer k owner id).Agreed := by
  have hPending := (cancels_cancel agreed.timers id).pending
  apply agreed.setOwner (s.cancel id) hOwner
  case inv => exact agreed.timers.cancel id
  case hOwners => rfl
  case hBorn => rfl
  case hNodup => exact (agreed.nodup k owner hOwner).erase id
  case hIds =>
    intro id'
    rw [hPending, (agreed.nodup k owner hOwner).mem_erase_iff, List.mem_singleton, agreed.ids k owner hOwner]
  case hOthers =>
    intro j hj hThere id'
    rw [hPending, List.mem_singleton]
    refine and_iff_right_of_imp fun h => ?_
    rintro rfl
    obtain ⟨rfl, hLive⟩ := h
    exact (keeps ⟨rfl, hLive⟩).elim hj hThere
  case hKnown =>
    intro j id' h
    exact agreed.known j id' ((hPending j id').mp h).2

theorem Agreed.cancelAllTimers (agreed : s.Agreed) {leaving : Bool} (hOwner : s.owners k = some owner) :
    (s.cancelAllTimers k ⟨owner.timerIds, leaving⟩).Agreed := by
  have cancels := cancels_foldl owner.timerIds agreed.timers
  apply agreed.setOwner (owner.timerIds.foldl cancel s) hOwner
  case inv => exact cancels.inv
  case hOwners => exact cancels.owners
  case hBorn => exact cancels.born
  case hNodup => exact .nil
  case hIds =>
    intro id
    rw [cancels.pending, ← agreed.ids k owner hOwner]
    exact iff_of_false List.not_mem_nil fun h => h.1 h.2
  case hOthers =>
    intro j hj _ id
    rw [cancels.pending]
    refine and_iff_right_of_imp fun h hMem => ?_
    exact hj (h.1.symm.trans ((agreed.ids k owner hOwner id).mp hMem).1)
  case hKnown =>
    intro j id h
    exact agreed.known j id ((cancels.pending j id).mp h).2

/-- A pass that leaves every timer pending that its runtime knows. -/
theorem Agreed.pass (agreed : s.Agreed) {timers : Timers} (inv : timers.Inv)
    (hLive : ∀ id, s.owners (s.creator id) ≠ none → (timers.live id).isSome = (s.timers.live id).isSome)
    (hGone : ∀ id, (timers.live id).isSome → (s.timers.live id).isSome) :
    ({ s with timers := timers } : Runtimes α).Agreed := by
  refine ⟨inv, agreed.nodup, fun k owner hOwner id => ?_, fun k id h => ?_, agreed.born⟩
  · refine (agreed.ids k owner hOwner id).trans (and_congr_right fun hCreator => ?_)
    rw [hLive id (by rw [hCreator, hOwner]; simp)]
  · exact agreed.known k id ⟨h.1, hGone id h.2⟩

theorem Agreed.strays (agreed : s.Agreed) (strays : Nat) : ({ s with strays := strays } : Runtimes α).Agreed :=
  ⟨agreed.timers, agreed.nodup, agreed.ids, agreed.known, agreed.born⟩

theorem Agreed.reschedule (agreed : s.Agreed) (keeps : s.KeepsIds .reschedule) {timers : Timers}
    (hStep : s.timers.step .reschedule = some timers) : ({ s with timers := timers } : Runtimes α).Agreed := by
  have inv := agreed.timers.step hStep
  obtain ⟨ready, hPass, rfl⟩ := Timers.step_reschedule hStep
  have hReady : s.timers.ready = ready := by rw [Timers.ready, hPass]; rfl
  have hLive : ∀ id, (s.timers.reschedule ready).live id =
      if id ∈ ready then (s.timers.live id).bind TimerNode.renewed else s.timers.live id := fun _ => rfl
  apply agreed.pass inv
  · intro id hThere
    rw [hLive]
    split
    · rename_i hMem
      cases hNode : s.timers.live id with
      | none => rfl
      | some node =>
          rw [Option.bind_some, TimerNode.renewed]
          split
          · rfl
          · rename_i hOnce
            exact absurd (keeps id (hReady ▸ hMem) node hNode (Bool.eq_false_iff.mpr hOnce)) hThere
    · rfl
  · intro id h
    rw [hLive] at h
    split at h
    · cases hNode : s.timers.live id with
      | none => rw [hNode] at h; cases h
      | some node => rfl
    · exact h

theorem Agreed.step {event : Event α} (agreed : s.Agreed) (keeps : s.KeepsIds event) (h : step event s = some s') :
    s'.Agreed := by
  cases event with
  | create =>
      cases h
      exact agreed.create
  | startTimer k msg delayMs repeating now =>
      obtain ⟨owner, hOwner, rfl⟩ := Option.map_eq_some_iff.mp h
      exact agreed.addTimer hOwner _ delayMs repeating now
  | sendMsgAfter k found msg delayMs now =>
      cases hOwner : s.owners k with
      | none => simp [Runtimes.step, hOwner] at h
      | some owner =>
          cases found with
          | none =>
              simp only [Runtimes.step, hOwner, Option.some.injEq] at h
              exact h ▸ agreed
          | some target =>
              simp only [Runtimes.step, hOwner] at h
              obtain ⟨_, hAfter⟩ := Option.ite_none_right_eq_some.mp h
              cases hAfter
              exact agreed.addTimer hOwner _ delayMs false now
  | cancelTimer k id =>
      obtain ⟨owner, hOwner, rfl⟩ := Option.map_eq_some_iff.mp h
      exact agreed.cancelTimer hOwner keeps
  | cancelAllTimers k =>
      obtain ⟨owner, hOwner, rfl⟩ := Option.map_eq_some_iff.mp h
      exact agreed.cancelAllTimers hOwner
  | destroy k =>
      simp only [Runtimes.step] at h
      split at h
      · rename_i timerIds hOwner
        cases h
        exact agreed.cancelAllTimers hOwner
      · cases h
  | remove k =>
      simp only [Runtimes.step] at h
      split at h
      · cases h
        have hOld : ∀ j owner, Function.update s.owners k none j = some owner → s.owners j = some owner := by
          intro j owner hOwner
          by_cases hj : j = k
          · rw [hj, Function.update_self] at hOwner
            cases hOwner
          · rw [Function.update_of_ne hj] at hOwner
            exact hOwner
        exact ⟨agreed.timers, fun j owner hOwner => agreed.nodup j owner (hOld j owner hOwner),
          fun j owner hOwner => agreed.ids j owner (hOld j owner hOwner), agreed.known,
          fun j owner hOwner => agreed.born j owner (hOld j owner hOwner)⟩
      · cases h
  | collect now =>
      obtain ⟨timers, hStep, rfl⟩ := Option.map_eq_some_iff.mp h
      have inv := agreed.timers.step hStep
      obtain ⟨_, rfl⟩ := Timers.step_collect hStep
      exact agreed.pass inv (fun _ _ => rfl) fun _ h => h
  | call =>
      obtain ⟨id, timers, hStep, rfl⟩ := step_call h
      have inv := agreed.timers.step hStep
      obtain ⟨_, _, _, _, rfl⟩ := Timers.step_call hStep
      obtain ⟨strays, hSame, _⟩ := timerCallback_same ({ s with timers := _ } : Runtimes α) id
      rw [hSame]
      exact (agreed.pass inv (fun _ _ => rfl) fun _ h => h).strays strays
  | reschedule =>
      obtain ⟨timers, hStep, rfl⟩ := Option.map_eq_some_iff.mp h
      exact agreed.reschedule keeps hStep

/-- `timerIds_` has the timers of the runtime that are pending, as many as `timerCount` says. -/
structure Counts (s : Runtimes α) (k : Nat) (owner : TimerOwner) : Prop where
  ids : ∀ id, id ∈ owner.timerIds ↔ s.Pending k id
  timerCount : owner.timerIds.length = ((List.range s.timers.base.nextId).filter fun id => s.Pending k id).length

theorem Agreed.counts (agreed : s.Agreed) (hOwner : s.owners k = some owner) : s.Counts k owner := by
  refine ⟨agreed.ids k owner hOwner, List.Perm.length_eq ?_⟩
  apply (List.perm_ext_iff_of_nodup (agreed.nodup k owner hOwner) (List.nodup_range.filter _)).mpr
  intro id
  rw [agreed.ids k owner hOwner, List.mem_filter, List.mem_range, decide_eq_true_iff]
  exact ⟨fun h => ⟨agreed.lt_nextId h, h⟩, And.right⟩

/-- As long as no one-shot timer fires for a runtime that is there, and no runtime cancels what
another one has started, each runtime knows its pending timers. -/
theorem counts_of_keepsIds (reach : Calls Runtimes.step (· = constructed) KeepsIds s) (hOwner : s.owners k = some owner) :
    s.Counts k owner := by
  have agreed : s.Agreed := by
    apply reach.invariant
    · rintro _ rfl
      exact .constructed
    · intro s event s' _ agreed keeps h
      exact agreed.step keeps h
  exact agreed.counts hOwner

section Runs

/-- A repeating timer fires, a one-shot timer is cancelled before it is due, another runtime leaves
with its own. -/
def afterCancels : Runtimes Unit :=
  (Calls.replay Runtimes.step KeepsIds constructed
    [.create, .create, .startTimer 0 () 2 true 0, .sendMsgAfter 0 (some 1) () 9 0, .startTimer 1 () 1 true 0,
      .collect 2000000, .call, .call, .reschedule, .cancelTimer 0 2, .destroy 1, .remove 1]).get (by decide +kernel)

theorem counts_afterCancels : afterCancels.Counts 0 ⟨[1], false⟩ :=
  counts_of_keepsIds (.of_replay (.start rfl) (Option.some_get _).symm) (by decide +kernel)

/-- A one-shot timer fires. -/
def afterOneShot : Runtimes Unit :=
  (Calls.replay Runtimes.step anyCall constructed
    [.create, .startTimer 0 () 1 false 0, .collect 1000000, .call, .reschedule]).get (by decide +kernel)

theorem not_counts_afterOneShot : Calls Runtimes.step (· = constructed) anyCall afterOneShot ∧
    afterOneShot.timers.pass = none ∧ afterOneShot.owners 0 = some ⟨[1], false⟩ ∧
      ¬afterOneShot.Counts 0 ⟨[1], false⟩ := by
  refine ⟨.of_replay (.start rfl) (Option.some_get _).symm, by decide +kernel, by decide +kernel, fun counts => ?_⟩
  exact absurd ((counts.ids 1).mp List.mem_cons_self) (by decide +kernel)

end Runs

end Runtimes

end Timer
