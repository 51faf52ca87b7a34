import V2Engine.Runtime.ActorRuntime
import Mathlib.Data.List.Range
import Mathlib.Data.List.Infix

/-! What `processBatch` and the supervisor do with the messages of one actor. Each is
taken out in mailbox order and goes to the actor's code or to the dead letter queue, and
a message whose handling threw goes there ahead of those drained because of it. -/

variable {ρ β ε : Type*}

/-- The message of a lifecycle request that is still being served. -/
def Frames.handled (frames : Frames ε) : List ε :=
  match frames.caller with
  | .batch => []
  | .lifecycle msg _ => [msg]

namespace RunPc

/-- The message that is out of the mailbox and has not been dealt with. -/
def holding : RunPc ρ ε → List ε
  | .deliver msg _ | .offering _ msg _ => [msg]
  | _ => []

/-- The message whose handling threw and which has not been offered yet. -/
def failing : RunPc ρ ε → List ε
  | .failed msg _ => msg.toList
  | _ => []

/-- The message whose handling may still throw. -/
def handled : RunPc ρ ε → List ε
  | .handling msg _ => [msg]
  | .failed _ frames | .draining _ frames | .offering _ _ frames | .deciding frames
  | .closing frames | .opening frames | .broadcasting _ _ frames | .shuttingDown frames
  | .returning frames => frames.handled
  | _ => []

/-- The failure that the mailbox is being drained for. -/
def failure? : RunPc ρ ε → Option Nat
  | .draining failure _ | .offering failure _ _ => some failure
  | _ => none

end RunPc

namespace Offer

def failure? : Offer ε → Option Nat
  | .failed failure _ => some failure
  | .drained _ _ => none

def failedMsg? : Offer ε → Option ε
  | .failed _ msg => msg
  | .drained _ _ => none

def drainedMsg? : Offer ε → Option ε
  | .failed _ _ => none
  | .drained _ msg => some msg

end Offer

/-- The messages that met with a fate, in order. -/
def ActorRuntime.fated (rt : ActorRuntime ε) (fate : Fate) : List ε :=
  rt.settled.filterMap fun entry => if entry.2 = fate then some entry.1 else none

/-- The history of an actor whose run stands at `pc`. -/
structure Conserved (rt : ActorRuntime ε) (pc : RunPc ρ ε) : Prop where
  order : rt.accepted = rt.removed ++ rt.mailbox
  handed : rt.removed = rt.settled.map Prod.fst ++ pc.holding
  drained : rt.offers.filterMap Offer.drainedMsg? = rt.fated .drained
  thrown : rt.thrown = rt.offers.filterMap Offer.failedMsg? ++ pc.failing
  handled : (rt.thrown ++ pc.handled).Sublist (rt.fated .consumed)
  failures : rt.offers.filterMap Offer.failure? = List.range rt.failures
  before : ∀ earlier failure msg, earlier ++ [.drained failure msg] <+: rt.offers →
    ∃ failed, .failed failure failed ∈ earlier
  current : ∀ failure, pc.failure? = some failure → ∃ failed, .failed failure failed ∈ rt.offers

namespace Conserved

variable {rt rt' : ActorRuntime ε} {pc pc' : RunPc ρ ε}

theorem constructed (state : ActorState) : Conserved (.constructed state : ActorRuntime ε)
    (.done : RunPc ρ ε) where
  order := rfl
  handed := rfl
  drained := rfl
  thrown := rfl
  handled := List.Sublist.refl _
  failures := rfl
  before := by
    intro earlier failure msg hPrefix
    exact absurd (List.prefix_nil.mp hPrefix) (by simp)
  current := by
    intro failure hCurrent
    cases hCurrent

/-- A step that handles no message and offers none. -/
theorem moved (h : Conserved rt pc) {stopped : Bool} {state : ActorState} {restartCount : Int}
    (hHolding : pc'.holding = pc.holding) (hFailing : pc'.failing = pc.failing)
    (hHandled : pc'.handled.Sublist pc.handled)
    (hFailure : ∀ failure, pc'.failure? = some failure → pc.failure? = some failure) :
    Conserved { rt with stopped := stopped, state := state, restartCount := restartCount } pc' where
  order := h.order
  handed := hHolding ▸ h.handed
  drained := h.drained
  thrown := hFailing ▸ h.thrown
  handled := ((List.Sublist.refl _).append hHandled).trans h.handled
  failures := h.failures
  before := h.before
  current failure hCurrent := h.current failure (hFailure failure hCurrent)

/-- A message comes into the mailbox. -/
theorem push {size : Nat} {msg : ε} (h : Conserved rt pc) (hPush : rt.push size msg = some rt') :
    Conserved rt' pc := by
  obtain ⟨_, rfl⟩ := ActorRuntime.push_eq_some hPush
  exact { h with order := by rw [h.order, List.append_assoc] }

/-- The oldest message is taken out of the mailbox. -/
theorem pop {msg : ε} (h : Conserved rt pc) (hPop : rt.pop = some (msg, rt'))
    (hHolding : pc.holding = []) (hHeld : pc'.holding = [msg])
    (hFailing : pc'.failing = pc.failing) (hHandled : pc'.handled.Sublist pc.handled)
    (hFailure : ∀ failure, pc'.failure? = some failure → pc.failure? = some failure) :
    Conserved rt' pc' := by
  obtain ⟨hMailbox, hRest⟩ := ActorRuntime.pop_eq_some hPop
  rw [hRest]
  have hHanded := h.handed
  rw [hHolding, List.append_nil] at hHanded
  exact {
    order := by rw [h.order, hMailbox, List.append_assoc]; rfl
    handed := by rw [hHeld, ← hHanded]
    drained := h.drained
    thrown := hFailing ▸ h.thrown
    handled := ((List.Sublist.refl _).append hHandled).trans h.handled
    failures := h.failures
    before := h.before
    current := fun failure hCurrent => h.current failure (hFailure failure hCurrent) }

/-- The message taken out is handed to `tryConsumeLifecycle`. -/
theorem settle {msg : ε} (h : Conserved rt pc) (hHolding : pc.holding = [msg])
    (hFailing : pc.failing = []) (hHandled : pc.handled = []) (hNext : pc'.holding = [])
    (hNextFailing : pc'.failing = []) (hNextHandled : pc'.handled.Sublist [msg])
    (hNextFailure : pc'.failure? = none) : Conserved (rt.settle msg .consumed) pc' where
  order := h.order
  handed := by
    rw [hNext, List.append_nil, show (rt.settle msg .consumed).removed = rt.removed from rfl, h.handed,
      hHolding]
    simp [ActorRuntime.settle]
  drained := by simpa [ActorRuntime.fated, ActorRuntime.settle] using h.drained
  thrown := by rw [hNextFailing, ← hFailing]; exact h.thrown
  handled := by
    have hConsumed := h.handled
    rw [hHandled, List.append_nil] at hConsumed
    simpa [ActorRuntime.fated, ActorRuntime.settle] using hConsumed.append hNextHandled
  failures := h.failures
  before := h.before
  current failure hCurrent := by rw [hNextFailure] at hCurrent; cases hCurrent

/-- The actor's code throws while it handles a message. -/
theorem throw {msg : ε} {state : ActorState} (h : Conserved rt pc) (hHolding : pc.holding = [])
    (hFailing : pc.failing = []) (hHandled : pc.handled = [msg]) :
    Conserved { rt with state := state, thrown := rt.thrown ++ [msg] }
      (.failed (some msg) ⟨0, .batch⟩ : RunPc ρ ε) where
  order := h.order
  handed := by rw [h.handed, hHolding]; rfl
  drained := h.drained
  thrown := by rw [h.thrown, hFailing, List.append_nil]; rfl
  handled := by
    have hConsumed := h.handled
    rw [hHandled] at hConsumed
    show (rt.thrown ++ [msg] ++ []).Sublist (rt.fated .consumed)
    rwa [List.append_nil]
  failures := h.failures
  before := h.before
  current failure hCurrent := by cases hCurrent

/-- The failure is counted and its message offered to the dead letter queue. -/
theorem fail {msg : Option ε} {frames : Frames ε} (h : Conserved rt (.failed msg frames : RunPc ρ ε)) :
    Conserved (rt.fail msg) (.draining rt.failures frames : RunPc ρ ε) where
  order := h.order
  handed := h.handed
  drained := by
    show (rt.offers ++ [Offer.failed rt.failures msg]).filterMap Offer.drainedMsg? = rt.fated .drained
    rw [List.filterMap_append, h.drained]
    exact List.append_nil _
  thrown := by
    rw [show (rt.fail msg).thrown = rt.thrown from rfl, h.thrown]
    cases msg <;> simp [ActorRuntime.fail, Offer.failedMsg?, RunPc.failing]
  handled := h.handled
  failures := by
    simp [ActorRuntime.fail, Offer.failure?, h.failures, List.range_succ]
  before earlier failure drained hPrefix := by
    rcases List.prefix_concat_iff.mp hPrefix with hLast | hEarlier
    · cases (List.append_inj' hLast rfl).2
    · exact h.before earlier failure drained hEarlier
  current failure hCurrent := by
    cases hCurrent
    exact ⟨msg, by simp [ActorRuntime.fail]⟩

/-- A message drained by the failure is offered to the dead letter queue. -/
theorem drain {failure : Nat} {msg : ε} {frames : Frames ε}
    (h : Conserved rt (.offering failure msg frames : RunPc ρ ε)) :
    Conserved (rt.drain failure msg) (.draining failure frames : RunPc ρ ε) where
  order := h.order
  handed := by
    rw [show (rt.drain failure msg).removed = rt.removed from rfl, h.handed]
    simp [ActorRuntime.drain, ActorRuntime.settle, RunPc.holding]
  drained := by
    simpa [ActorRuntime.drain, ActorRuntime.settle, ActorRuntime.fated, Offer.drainedMsg?] using h.drained
  thrown := by
    rw [show (rt.drain failure msg).thrown = rt.thrown from rfl, h.thrown]
    simp [ActorRuntime.drain, Offer.failedMsg?, RunPc.failing]
  handled := by
    simpa [ActorRuntime.drain, ActorRuntime.settle, ActorRuntime.fated, RunPc.handled] using h.handled
  failures := by
    show (rt.offers ++ [Offer.drained failure msg]).filterMap Offer.failure? = List.range rt.failures
    rw [List.filterMap_append, h.failures]
    exact List.append_nil _
  before earlier other drained hPrefix := by
    rcases List.prefix_concat_iff.mp hPrefix with hLast | hEarlier
    · obtain ⟨hSame, hDrained⟩ := List.append_inj' hLast rfl
      cases hDrained
      rw [hSame]
      exact h.current failure rfl
    · exact h.before earlier other drained hEarlier
  current other hCurrent := by
    cases hCurrent
    obtain ⟨failed, hFailed⟩ := h.current failure rfl
    exact ⟨failed, List.mem_append_left _ hFailed⟩

/-- The actor's code handles the message, or it goes through the restart of a request. -/
theorem deliver {msg : ε} {processed : Nat} {essential : Bool} {id : MessageId}
    (h : Conserved rt (.deliver msg processed : RunPc ρ ε)) :
    Conserved (rt.settle msg .consumed)
      (rt.tryConsumeLifecycle essential msg processed id : RunPc ρ ε) := by
  have hFetch : Conserved (rt.settle msg .consumed) (.fetch (processed + 1) : RunPc ρ ε) :=
    h.settle rfl rfl rfl rfl rfl (List.nil_sublist _) rfl
  have hHandling : Conserved (rt.settle msg .consumed) (.handling msg processed : RunPc ρ ε) :=
    h.settle rfl rfl rfl rfl rfl (List.Sublist.refl _) rfl
  cases id with
  | other => exact hHandling
  | actorEnableRequest | actorDisableRequest =>
      simp only [ActorRuntime.tryConsumeLifecycle]
      split
      · exact hHandling
      · exact hFetch
  | actorRestartRequest =>
      simp only [ActorRuntime.tryConsumeLifecycle]
      split
      · exact h.settle rfl rfl rfl rfl rfl (List.Sublist.refl _) rfl
      · exact hFetch

/-- The strategy of the supervisor moves no message. -/
theorem decide [DecidableEq ρ] {registered : List ρ} {limit : Int} {a : ρ} {sup : Supervisor ρ}
    {frames : Frames ε} (h : Conserved rt (.deciding frames : RunPc ρ ε)) (strategy : RestartStrategy) :
    Conserved (onActorFailed registered limit a rt sup frames strategy).1
      (onActorFailed registered limit a rt sup frames strategy).2.2 := by
  have hShutdown : Conserved rt.shutdown (.shuttingDown frames : RunPc ρ ε) :=
    h.moved rfl rfl (List.Sublist.refl _) (fun _ hNone => hNone)
  cases strategy with
  | none => exact hShutdown
  | oneForOne | oneForAll =>
      simp only [onActorFailed]
      split
      · exact hShutdown
      · exact h.moved rfl rfl (List.Sublist.refl _) (fun _ hNone => hNone)

end Conserved

section Steps

variable [DecidableEq ρ] {cfg : ActorSystemConfig ρ β} {body : ε → β} {a : ρ}
  {rt rt' : ActorRuntime ε} {sup sup' : Supervisor ρ} {pc pc' : RunPc ρ ε}
  {choice : RunChoice ρ β} {request : Option (ρ × β)}

/-- Every step of a run keeps the messages of a supervised actor together. -/
theorem runStep_conserved (hSupervised : cfg.supervised a = true) (h : Conserved rt pc)
    (hStep : runStep cfg body a rt sup pc choice = some (rt', sup', pc', request)) :
    Conserved rt' pc' := by
  have hSame : ∀ failure, (Option.none : Option Nat) = some failure → pc.failure? = some failure := by
    intro failure hNone
    cases hNone
  cases pc <;> cases choice <;> simp only [runStep, reduceCtorEq] at hStep
  case begin.go =>
    cases hStep
    split <;> exact h.moved rfl rfl (List.Sublist.refl _) hSame
  case fetch.go processed =>
    split_ifs at hStep with hRoom
    · cases hPop : rt.pop with
      | none =>
          rw [hPop] at hStep
          cases hStep
          exact h.moved rfl rfl (List.Sublist.refl _) hSame
      | some taken =>
          rw [hPop] at hStep
          cases hStep
          exact h.pop hPop rfl rfl rfl (List.Sublist.refl _) hSame
    · cases hStep
      exact h.moved rfl rfl (List.Sublist.refl _) hSame
  case deliver.go msg processed =>
    cases hStep
    exact h.deliver
  case handling.throws msg processed state =>
    cases hStep
    rw [RunPc.threw, if_pos hSupervised]
    exact h.throw rfl rfl rfl
  case failed.go msg frames =>
    cases hStep
    exact h.fail
  case draining.go failure frames =>
    cases hPop : rt.pop with
    | none =>
        rw [hPop] at hStep
        cases hStep
        exact h.moved rfl rfl (List.Sublist.refl _) hSame
    | some taken =>
        rw [hPop] at hStep
        cases hStep
        exact h.pop hPop rfl rfl rfl (List.Sublist.refl _) (fun _ hFailure => hFailure)
  case offering.go failure msg frames =>
    cases hStep
    exact h.drain
  case deciding.go frames =>
    cases hStep
    exact h.decide _
  case closing.returns frames state | closing.throws frames state =>
    cases hStep
    split <;> exact h.moved rfl rfl (List.Sublist.refl _) hSame
  case opening.throws frames state =>
    cases hStep
    rw [if_pos hSupervised]
    exact h.moved rfl rfl (List.Sublist.refl _) hSame
  case broadcasting.go todo restarted frames =>
    cases todo <;> cases hStep <;> exact h.moved rfl rfl (List.Sublist.refl _) hSame
  case shuttingDown.throws frames state =>
    obtain ⟨restarts, caller⟩ := frames
    cases caller with
    | batch =>
        cases hStep
        exact h.moved rfl rfl (List.Sublist.refl _) hSame
    | lifecycle msg processed =>
        cases hStep
        rw [RunPc.threw, if_pos hSupervised]
        exact h.throw rfl rfl rfl
  case returning.go frames =>
    obtain ⟨restarts, caller⟩ := frames
    cases restarts <;> cases caller <;> cases hStep <;>
      exact h.moved rfl rfl (by first | exact List.Sublist.refl _ | exact List.nil_sublist _) hSame
  all_goals
    cases hStep
    exact h.moved rfl rfl (by first | exact List.Sublist.refl _ | exact List.nil_sublist _) hSame

end Steps
