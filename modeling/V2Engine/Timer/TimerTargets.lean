import V2Engine.Timer.RuntimeTimers

/-! The runtimes for which the scheduler has messages. The destructor of a runtime cancels the timers
that the runtime has started, and not those that others have started for it. -/
namespace Timer

open Interleaving

namespace Runtimes

variable {α : Type} {s s' : Runtimes α} {k id : Nat} {owner : TimerOwner}

/-- When the destructor of a runtime ends, the timers for it that are left are its own, and meanwhile
it starts none for itself. -/
def KeepsTargets (s : Runtimes α) : Event α → Prop
  | .startTimer k .. => ∀ owner ∈ s.owners k, owner.leaving = false
  | .sendMsgAfter k found .. => found = some k → ∀ owner ∈ s.owners k, owner.leaving = false
  | .remove k => ∀ id < s.timers.base.nextId, ∀ ctx ∈ s.timerCtxs id, ctx.target = k → s.creator id = k
  | _ => True

instance (s : Runtimes α) : DecidablePred s.KeepsTargets
  | .startTimer k .. => inferInstanceAs (Decidable (∀ owner ∈ s.owners k, _))
  | .sendMsgAfter k .. => inferInstanceAs (Decidable (_ → ∀ owner ∈ s.owners k, _))
  | .remove _ => inferInstanceAs (Decidable (∀ id < _, ∀ ctx ∈ s.timerCtxs id, _ → _))
  | .create | .cancelTimer .. | .cancelAllTimers _ | .destroy _ | .collect _ | .call | .reschedule =>
      inferInstanceAs (Decidable True)

/-- Every message of the scheduler is for a runtime that is there, and every one that was enqueued
was. -/
structure Targets (s : Runtimes α) : Prop where
  there : ∀ id ctx, s.timerCtxs id = some ctx → s.owners ctx.target ≠ none
  strays : s.strays = 0

structure Kept (s : Runtimes α) : Prop extends s.Targets where
  timers : s.timers.Inv
  issued : ∀ id ctx, s.timerCtxs id = some ctx → id < s.timers.base.nextId
  /-- A runtime knows the timers it has started that the scheduler has a message for. -/
  own : ∀ id ctx, s.timerCtxs id = some ctx → ∀ owner, s.owners (s.creator id) = some owner → id ∈ owner.timerIds
  known : ∀ id ctx, s.timerCtxs id = some ctx → s.creator id < s.born
  born : ∀ j owner, s.owners j = some owner → j < s.born
  /-- What is left for a runtime that has cancelled its timers was started by others. -/
  leaving : ∀ j owner, s.owners j = some owner → owner.leaving = true → ∀ id ctx, s.timerCtxs id = some ctx →
    ctx.target = j → s.creator id ≠ j

theorem Kept.constructed : Kept (constructed : Runtimes α) where
  there _ _ h := by cases h
  strays := rfl
  timers := .constructed
  issued _ _ h := by cases h
  own _ _ h := by cases h
  known _ _ h := by cases h
  born _ _ h := by cases h
  leaving _ _ h := by cases h

/-- Messages go, and runtimes forget only what is gone. -/
theorem Kept.setOwner {owner' : TimerOwner} (kept : s.Kept) (hOwner : s.owners k = some owner)
    (inv : s'.timers.Inv) (hNext : s'.timers.base.nextId = s.timers.base.nextId) (hOwners : s'.owners = s.owners)
    (hBorn : s'.born = s.born) (hCreator : s'.creator = s.creator) (hStrays : s'.strays = s.strays)
    (hCtxs : ∀ id ctx, s'.timerCtxs id = some ctx → s.timerCtxs id = some ctx)
    (hIds : ∀ id ctx, s'.timerCtxs id = some ctx → s.creator id = k → id ∈ owner'.timerIds)
    (hLeaving : owner'.leaving = true → owner.leaving = true ∨ ∀ id ctx, s'.timerCtxs id = some ctx → s.creator id ≠ k) :
    (s'.setOwner k owner').Kept := by
  have hAt : ∀ j, (s'.setOwner k owner').owners j = if j = k then some owner' else s.owners j := by
    intro j
    rw [owners_setOwner, hOwners]
  refine ⟨⟨fun id ctx h => ?_, hStrays.trans kept.strays⟩, inv, fun id ctx h => ?_, fun id ctx h o ho => ?_,
    fun id ctx h => ?_, fun j o ho => ?_, fun j o ho hLeaves id ctx h hTarget => ?_⟩
  · rw [hAt]
    split
    · simp
    · exact kept.there id ctx (hCtxs id ctx h)
  · show id < s'.timers.base.nextId
    rw [hNext]
    exact kept.issued id ctx (hCtxs id ctx h)
  · replace ho : (s'.setOwner k owner').owners (s'.creator id) = some o := ho
    rw [hCreator, hAt] at ho
    split at ho
    · rename_i hSame
      cases ho
      exact hIds id ctx h hSame
    · exact kept.own id ctx (hCtxs id ctx h) o ho
  · show s'.creator id < s'.born
    rw [hCreator, hBorn]
    exact kept.known id ctx (hCtxs id ctx h)
  · show j < s'.born
    rw [hBorn]
    rw [hAt] at ho
    split at ho
    · rename_i hSame
      rw [hSame]
      exact kept.born k owner hOwner
    · exact kept.born j o ho
  · show s'.creator id ≠ j
    rw [hCreator]
    rw [hAt] at ho
    split at ho
    · rename_i hSame
      cases ho
      rw [hSame]
      rcases hLeaving hLeaves with hBefore | hNone
      · exact kept.leaving k owner hOwner hBefore id ctx (hCtxs id ctx h) (hTarget.trans hSame)
      · exact hNone id ctx h
    · exact kept.leaving j o ho hLeaves id ctx (hCtxs id ctx h) hTarget

theorem Kept.addTimer (kept : s.Kept) (hOwner : s.owners k = some owner) {target : Nat} (msg : α)
    (hTarget : s.owners target ≠ none) (hStays : target = k → owner.leaving = false) (delayMs : Nat)
    (repeating : Bool) (now : Nat) : (s.addTimer k owner ⟨target, msg⟩ delayMs repeating now).Kept := by
  have hAt : ∀ j, (s.addTimer k owner ⟨target, msg⟩ delayMs repeating now).owners j =
      if j = k then some { owner with timerIds := owner.timerIds.insert s.timers.base.nextId } else s.owners j :=
    fun j => owners_setOwner ..
  have hCreator : ∀ id, (s.addTimer k owner ⟨target, msg⟩ delayMs repeating now).creator id =
      if id = s.timers.base.nextId then k else s.creator id := fun id => Function.update_apply ..
  have hCtx : ∀ id ctx, (s.addTimer k owner ⟨target, msg⟩ delayMs repeating now).timerCtxs id = some ctx →
      (id = s.timers.base.nextId ∧ ctx = ⟨target, msg⟩) ∨ (id ≠ s.timers.base.nextId ∧ s.timerCtxs id = some ctx) := by
    intro id ctx h
    replace h : Function.update (fun id => if s.timers.base.isAlive id then s.timerCtxs id else none)
      s.timers.base.nextId (some ⟨target, msg⟩) id = some ctx := h
    rw [Function.update_apply] at h
    split at h
    · rename_i hNew
      exact .inl ⟨hNew, (Option.some.inj h).symm⟩
    · rename_i hOld
      right
      split at h
      · exact ⟨hOld, h⟩
      · cases h
  have hStep : Timers.step (.add now delayMs repeating) s.timers = some (s.timers.add now delayMs repeating) := rfl
  have hNext := kept.timers.nextId_le hStep
  obtain ⟨_, _, hSucc, _⟩ := kept.timers.sound.add now delayMs repeating
  refine ⟨⟨fun id ctx h => ?_, kept.strays⟩, kept.timers.add now delayMs repeating, fun id ctx h => ?_,
    fun id ctx h o ho => ?_, fun id ctx h => ?_, fun j o ho => ?_, fun j o ho hLeaves id ctx h hFor => ?_⟩
  · rw [hAt]
    split
    · simp
    · rcases hCtx id ctx h with ⟨_, rfl⟩ | ⟨_, hOld⟩
      · exact hTarget
      · exact kept.there id ctx hOld
  · show id < (s.timers.base.add now delayMs repeating).2.2.nextId
    rw [hSucc]
    rcases hCtx id ctx h with ⟨rfl, _⟩ | ⟨_, hOld⟩
    · exact Nat.lt_succ_self _
    · exact Nat.lt_succ_of_lt (kept.issued id ctx hOld)
  · rw [hCreator, hAt] at ho
    rcases hCtx id ctx h with ⟨rfl, _⟩ | ⟨hNew, hOld⟩
    · rw [if_pos rfl, if_pos rfl] at ho
      cases ho
      exact List.mem_insert_self ..
    · rw [if_neg hNew] at ho
      split at ho
      · rename_i hSame
        cases ho
        exact List.mem_insert_of_mem (kept.own id ctx hOld owner (hSame ▸ hOwner))
      · exact kept.own id ctx hOld o ho
  · show _ < s.born
    rw [hCreator]
    rcases hCtx id ctx h with ⟨rfl, _⟩ | ⟨hNew, hOld⟩
    · rw [if_pos rfl]
      exact kept.born k owner hOwner
    · rw [if_neg hNew]
      exact kept.known id ctx hOld
  · rw [hAt] at ho
    split at ho
    · rename_i hSame
      rw [hSame]
      exact kept.born k owner hOwner
    · exact kept.born j o ho
  · rw [hCreator]
    have hOldOwner : ∃ o', s.owners j = some o' ∧ o'.leaving = true := by
      rw [hAt] at ho
      split at ho
      · rename_i hSame
        cases ho
        exact ⟨owner, hSame ▸ hOwner, hLeaves⟩
      · exact ⟨o, ho, hLeaves⟩
    obtain ⟨o', ho', hLeaves'⟩ := hOldOwner
    rcases hCtx id ctx h with ⟨rfl, rfl⟩ | ⟨hNew, hOld⟩
    · rw [if_pos rfl]
      rintro rfl
      have hStill := hStays hFor
      cases hOwner.symm.trans ho'
      rw [hStill] at hLeaves'
      cases hLeaves'
    · rw [if_neg hNew]
      exact kept.leaving j o' ho' hLeaves' id ctx hOld hFor

theorem Kept.cancelAllTimers (kept : s.Kept) {leaving : Bool} (hOwner : s.owners k = some owner) :
    (s.cancelAllTimers k ⟨owner.timerIds, leaving⟩).Kept := by
  have cancels := cancels_foldl owner.timerIds kept.timers
  have hCtxs : ∀ id ctx, (owner.timerIds.foldl cancel s).timerCtxs id = some ctx →
      id ∉ owner.timerIds ∧ s.timerCtxs id = some ctx := by
    intro id ctx h
    rw [cancels.ctxs] at h
    split at h
    · cases h
    · exact ⟨by assumption, h⟩
  have hNone : ∀ id ctx, (owner.timerIds.foldl cancel s).timerCtxs id = some ctx → s.creator id ≠ k := by
    intro id ctx h hSame
    obtain ⟨hUnknown, hOld⟩ := hCtxs id ctx h
    exact hUnknown (kept.own id ctx hOld owner (hSame ▸ hOwner))
  exact kept.setOwner hOwner cancels.inv cancels.nextId cancels.owners cancels.born cancels.creator cancels.strays
    (fun id ctx h => (hCtxs id ctx h).2) (fun id ctx h hSame => absurd hSame (hNone id ctx h)) fun _ => .inr hNone

theorem Kept.cancelTimer (kept : s.Kept) (hOwner : s.owners k = some owner) (id : Nat) :
    (s.cancelTimer k owner id).Kept := by
  have cancels := cancels_cancel kept.timers id
  have hCtxs : ∀ id' ctx, (s.cancel id).timerCtxs id' = some ctx → id' ≠ id ∧ s.timerCtxs id' = some ctx := by
    intro id' ctx h
    rw [cancels.ctxs] at h
    split at h
    · cases h
    · rename_i hOther
      exact ⟨fun hSame => hOther (List.mem_singleton.mpr hSame), h⟩
  apply kept.setOwner hOwner cancels.inv cancels.nextId cancels.owners cancels.born cancels.creator cancels.strays
  · exact fun id' ctx h => (hCtxs id' ctx h).2
  · intro id' ctx h hSame
    obtain ⟨hOther, hOld⟩ := hCtxs id' ctx h
    exact (List.mem_erase_of_ne hOther).mpr (kept.own id' ctx hOld owner (hSame ▸ hOwner))
  · exact .inl

theorem Kept.pass (kept : s.Kept) {timers : Timers} {event : Timers.Event} (hStep : s.timers.step event = some timers) :
    ({ s with timers := timers } : Runtimes α).Kept where
  there := kept.there
  strays := kept.strays
  timers := kept.timers.step hStep
  issued id ctx h := Nat.lt_of_lt_of_le (kept.issued id ctx h) (kept.timers.nextId_le hStep)
  own := kept.own
  known := kept.known
  born := kept.born
  leaving := kept.leaving

theorem Kept.create (kept : s.Kept) : s.create.Kept := by
  refine ⟨⟨fun id ctx h => ?_, kept.strays⟩, kept.timers, kept.issued, fun id ctx h o ho => ?_,
    fun id ctx h => Nat.lt_succ_of_lt (kept.known id ctx h), fun j o ho => ?_, fun j o ho hLeaves => ?_⟩
  · rw [owners_create]
    split
    · simp
    · exact kept.there id ctx h
  · have hOld : s.creator id ≠ s.born := Nat.ne_of_lt (kept.known id ctx h)
    rw [owners_create] at ho
    exact kept.own id ctx h o ((if_neg hOld).symm.trans ho)
  · rw [owners_create] at ho
    split at ho
    · rename_i hNew
      exact hNew ▸ Nat.lt_succ_self _
    · exact Nat.lt_succ_of_lt (kept.born j o ho)
  · rw [owners_create] at ho
    split at ho
    · cases ho
      cases hLeaves
    · exact kept.leaving j o ho hLeaves

theorem Kept.remove (kept : s.Kept) {timerIds : List Nat} (hOwner : s.owners k = some ⟨timerIds, true⟩)
    (keeps : s.KeepsTargets (.remove k)) : ({ s with owners := Function.update s.owners k none } : Runtimes α).Kept := by
  have hOld : ∀ j owner, Function.update s.owners k none j = some owner → s.owners j = some owner := by
    intro j owner hOwner
    by_cases hj : j = k
    · rw [hj, Function.update_self] at hOwner
      cases hOwner
    · rw [Function.update_of_ne hj] at hOwner
      exact hOwner
  refine ⟨⟨fun id ctx h => ?_, kept.strays⟩, kept.timers, kept.issued, fun id ctx h o ho => kept.own id ctx h o (hOld _ o ho),
    kept.known, fun j o ho => kept.born j o (hOld j o ho), fun j o ho => kept.leaving j o (hOld j o ho)⟩
  have hOther : ctx.target ≠ k := by
    intro hTarget
    exact kept.leaving k _ hOwner rfl id ctx h hTarget (keeps id (kept.issued id ctx h) ctx h hTarget)
  show Function.update s.owners k none ctx.target ≠ none
  rw [Function.update_of_ne hOther]
  exact kept.there id ctx h

theorem Kept.step {event : Event α} (kept : s.Kept) (keeps : s.KeepsTargets event) (h : step event s = some s') :
    s'.Kept := by
  cases event with
  | create =>
      cases h
      exact kept.create
  | startTimer k msg delayMs repeating now =>
      obtain ⟨owner, hOwner, rfl⟩ := Option.map_eq_some_iff.mp h
      exact kept.addTimer hOwner msg (by rw [hOwner]; simp) (fun _ => keeps owner hOwner) delayMs repeating now
  | sendMsgAfter k found msg delayMs now =>
      cases hOwner : s.owners k with
      | none => simp [Runtimes.step, hOwner] at h
      | some owner =>
          cases found with
          | none =>
              simp only [Runtimes.step, hOwner, Option.some.injEq] at h
              exact h ▸ kept
          | some target =>
              simp only [Runtimes.step, hOwner] at h
              obtain ⟨hThere, hAfter⟩ := Option.ite_none_right_eq_some.mp h
              cases hAfter
              exact kept.addTimer hOwner msg (Option.isSome_iff_ne_none.mp hThere)
                (fun hSame => keeps (congrArg some hSame) owner hOwner) delayMs false now
  | cancelTimer k id =>
      obtain ⟨owner, hOwner, rfl⟩ := Option.map_eq_some_iff.mp h
      exact kept.cancelTimer hOwner id
  | cancelAllTimers k =>
      obtain ⟨owner, hOwner, rfl⟩ := Option.map_eq_some_iff.mp h
      exact kept.cancelAllTimers hOwner
  | destroy k =>
      simp only [Runtimes.step] at h
      split at h
      · rename_i timerIds hOwner
        cases h
        exact kept.cancelAllTimers hOwner
      · cases h
  | remove k =>
      simp only [Runtimes.step] at h
      split at h
      · rename_i timerIds hOwner
        cases h
        exact kept.remove hOwner keeps
      · cases h
  | collect now =>
      obtain ⟨timers, hStep, rfl⟩ := Option.map_eq_some_iff.mp h
      exact kept.pass hStep
  | call =>
      obtain ⟨id, timers, hStep, rfl⟩ := step_call h
      have passed := kept.pass hStep
      obtain ⟨strays, hSame, hCases⟩ := timerCallback_same ({ s with timers := timers } : Runtimes α) id
      rcases hCases with rfl | ⟨ctx, hCtx, hGone⟩
      · rw [hSame]
        exact passed
      · exact absurd hGone (kept.there id ctx hCtx)
  | reschedule =>
      obtain ⟨timers, hStep, rfl⟩ := Option.map_eq_some_iff.mp h
      exact kept.pass hStep

section Runs

/-- Two runtimes have timers for themselves and one for the other, which is cancelled first. -/
def afterRemoval : Runtimes Unit :=
  (Calls.replay Runtimes.step KeepsTargets constructed
    [.create, .create, .startTimer 0 () 2 true 0, .startTimer 1 () 1 false 0, .sendMsgAfter 0 (some 1) () 9 0,
      .collect 2000000, .call, .call, .reschedule, .cancelTimer 0 3, .destroy 1, .remove 1, .collect 4000000,
      .call, .reschedule]).get (by decide +kernel)

/-- The target of a message that is to be sent later is destroyed before it is sent. -/
def afterTargetGone : Runtimes Unit :=
  (Calls.replay Runtimes.step anyCall constructed
    [.create, .create, .sendMsgAfter 0 (some 1) () 9 0, .destroy 1, .remove 1, .collect 9000000, .call]).get
      (by decide +kernel)

end Runs

end Runtimes

end Timer
