import V2Engine.Interleaving.Program

/-! `DbusServerHandler`: method calls come in on threads of the D-Bus connection, are parked
under a `callId`, and are answered by the actor's thread when a result comes back. A call is
named by its number in the order of arrival, a result by its `callId`. -/
namespace Service

open Interleaving

variable {τ : Type*}

/-- What has become of an incoming call: a thread has given it its id, it is parked, a result
was found for it, or it is finished. -/
inductive CallStage (τ : Type*) where
  | unseen
  | taken (thread : τ)
  | parked
  | answering
  | finished
  deriving DecidableEq

/-- A reply to a call, with the `callId` of the result that it carries; there is none when the
arguments of the call could not be read. -/
structure Reply where
  call : Nat
  result : Option Nat
  deriving DecidableEq

/-- `registered` are the names in the actor registry. From `calls` on the fields are a record;
`dropped` are the calls whose message found no owner. -/
structure DbusServerHandler (τ : Type*) where
  methods : String → Option String
  nextCallId : Nat
  pendingMethodCalls : Nat → Option Nat
  registered : String → Bool
  calls : Nat
  callId : Nat → Option Nat
  stage : Nat → CallStage τ
  replies : List Reply
  dropped : List Nat

namespace DbusServerHandler

def constructed : DbusServerHandler τ where
  methods := fun _ => none
  nextCallId := 0
  pendingMethodCalls := fun _ => none
  registered := fun _ => false
  calls := 0
  callId := fun _ => none
  stage := fun _ => .unseen
  replies := []
  dropped := []

/-- Where a thread of the connection stands in the handler of a method. -/
inductive CallPc where
  | idle
  | storing (call callId : Nat) (owner : String)
  | sending (call : Nat) (owner : String)
  deriving DecidableEq

inductive CallChoice where
  | incoming (key : String) (readable : Bool)
  | go

/-- A method of the vtable is called, and its handler sends it to the owner. -/
def incomingStep [DecidableEq τ] (thread : τ) (s : DbusServerHandler τ) :
    CallPc → CallChoice → Option (DbusServerHandler τ × CallPc)
  | .idle, .incoming key readable =>
      match s.methods key with
      | none => none
      | some owner =>
          if readable then
            some ({ s with
              nextCallId := s.nextCallId + 1
              calls := s.calls + 1
              callId := Function.update s.callId s.calls (some s.nextCallId)
              stage := Function.update s.stage s.calls (.taken thread) },
              .storing s.calls s.nextCallId owner)
          else
            some ({ s with
              calls := s.calls + 1
              stage := Function.update s.stage s.calls .finished
              replies := ⟨s.calls, none⟩ :: s.replies }, .idle)
  | .storing call callId owner, .go =>
      some ({ s with
        pendingMethodCalls := Function.update s.pendingMethodCalls callId (some call)
        stage := Function.update s.stage call .parked }, .sending call owner)
  -- `Actor::sendMsg` drops a message for a name that is not registered
  | .sending call owner, .go =>
      some (if s.registered owner then s else { s with dropped := call :: s.dropped }, .idle)
  | _, _ => none

/-- Where the actor's thread stands. -/
inductive ActorPc where
  | idle
  | clearing
  | answering (call callId : Nat)
  deriving DecidableEq

/-- `created` is whether sdbus makes the object, and `sent` whether it sends the reply. -/
inductive ActorChoice where
  | registerMethod (key owner : String) (created : Bool)
  | unregisterMethod (key : String)
  | methodCallResult (callId : Nat)
  | close
  | reply (sent : Bool)
  | go
  | registry (name : String) (present : Bool)

def handleMethodCallResult (s : DbusServerHandler τ) (callId : Nat) :
    DbusServerHandler τ × ActorPc :=
  match s.pendingMethodCalls callId with
  | none => (s, .idle)
  | some call =>
      ({ s with
        pendingMethodCalls := Function.update s.pendingMethodCalls callId none
        stage := Function.update s.stage call .answering }, .answering call callId)

/-- A message is handled, or `close` is called. Actors come and go at any time. -/
def actorStep (s : DbusServerHandler τ) : ActorPc → ActorChoice → Option (DbusServerHandler τ × ActorPc)
  | .idle, .registerMethod key owner created =>
      some (if (s.methods key).isSome ∨ created = false then s
        else { s with methods := Function.update s.methods key (some owner) }, .idle)
  | .idle, .unregisterMethod key =>
      some ({ s with methods := Function.update s.methods key none }, .idle)
  | .idle, .methodCallResult callId => some (s.handleMethodCallResult callId)
  | .idle, .close => some ({ s with methods := fun _ => none }, .clearing)
  | .clearing, .go =>
      some ({ s with
        pendingMethodCalls := fun _ => none
        stage := fun call => match s.stage call with
          | .parked => .finished
          | stage => stage }, .idle)
  | .answering call callId, .reply sent =>
      some ({ s with
        stage := Function.update s.stage call .finished
        replies := if sent then ⟨call, some callId⟩ :: s.replies else s.replies }, .idle)
  | pc, .registry name present =>
      some ({ s with registered := Function.update s.registered name present }, pc)
  | _, _ => none

/-- The threads of the connection, and the one that runs the actor. -/
def program [DecidableEq τ] :
    Program (τ ⊕ Unit) (DbusServerHandler τ) (CallPc ⊕ ActorPc) (CallChoice ⊕ ActorChoice) :=
  Program.either incomingStep fun _ => actorStep

def start : Config (τ ⊕ Unit) (DbusServerHandler τ) (CallPc ⊕ ActorPc) :=
  Config.either .constructed .idle .idle

/-- The call is no longer in the table, and will not come back. -/
def Settled (s : DbusServerHandler τ) (call : Nat) : Prop :=
  s.stage call = .answering ∨ s.stage call = .finished

instance [DecidableEq τ] (s : DbusServerHandler τ) (call : Nat) : Decidable (s.Settled call) := by
  unfold Settled
  infer_instance

/-- The owner of a method is registered when a call is sent to it, unless the call has been
answered or cleared before. -/
def keepsOwners (c : Config (τ ⊕ Unit) (DbusServerHandler τ) (CallPc ⊕ ActorPc)) (thread : τ ⊕ Unit)
    (_ : CallChoice ⊕ ActorChoice) : Prop :=
  match c.here thread with
  | .inl (.sending call owner) => c.shared.registered owner = true ∨ c.shared.Settled call
  | _ => True

instance [DecidableEq τ] (c : Config (τ ⊕ Unit) (DbusServerHandler τ) (CallPc ⊕ ActorPc))
    (thread : τ ⊕ Unit) (choice : CallChoice ⊕ ActorChoice) :
    Decidable (keepsOwners c thread choice) := by
  unfold keepsOwners
  split <;> infer_instance

/-- What is promised to the callers. -/
structure Answered (s : DbusServerHandler τ) : Prop where
  once : ∀ call, (s.replies.countP fun reply => reply.call = call) ≤ 1
  own : ∀ reply ∈ s.replies, ∀ callId, reply.result = some callId →
    s.callId reply.call = some callId
  /-- A result changes nothing if no call has its id, or the call was taken out already. -/
  stale : ∀ callId, (∀ call, s.callId call = some callId → s.Settled call) →
    s.handleMethodCallResult callId = (s, .idle)
  forgotten : ∀ call ∈ s.dropped, ∀ callId, s.pendingMethodCalls callId ≠ some call

section Steps

/-- The stages of the calls say where they are. -/
structure Inv (s : DbusServerHandler τ) : Prop where
  unseen : ∀ call, s.calls ≤ call → s.stage call = .unseen ∧ s.callId call = none
  drawn : ∀ call callId, s.callId call = some callId → callId < s.nextCallId
  distinct : ∀ call call' callId, s.callId call = some callId → s.callId call' = some callId →
    call = call'
  parked : ∀ callId call, s.pendingMethodCalls callId = some call →
    s.stage call = .parked ∧ s.callId call = some callId
  replied : ∀ reply ∈ s.replies, s.stage reply.call = .finished ∧
    ∀ callId, reply.result = some callId → s.callId reply.call = some callId
  once : ∀ call, (s.replies.countP fun reply => reply.call = call) ≤ 1

/-- A thread has a call that no other one has. -/
def Takes (s : DbusServerHandler τ) (thread : τ) : CallPc → Prop
  | .storing call callId _ => s.stage call = .taken thread ∧ s.callId call = some callId
  | _ => True

def Answers (s : DbusServerHandler τ) : ActorPc → Prop
  | .answering call callId => s.stage call = .answering ∧ s.callId call = some callId
  | _ => True

variable {s s' : DbusServerHandler τ}

theorem inv_constructed : (constructed : DbusServerHandler τ).Inv where
  unseen _ _ := ⟨rfl, rfl⟩
  drawn := nofun
  distinct := nofun
  parked := nofun
  replied := nofun
  once _ := Nat.zero_le 1

theorem Inv.unanswered (inv : s.Inv) {call : Nat} (hStage : s.stage call ≠ .finished) :
    (s.replies.countP fun reply => reply.call = call) = 0 := by
  rw [List.countP_eq_zero]
  intro reply hReply hCall
  apply hStage
  rw [← of_decide_eq_true hCall]
  exact (inv.replied reply hReply).1

/-- The next call has not been seen anywhere. -/
theorem Inv.next (inv : s.Inv) : s.stage s.calls = .unseen ∧ s.callId s.calls = none :=
  inv.unseen s.calls (Nat.le_refl _)

/-- A call that is neither parked nor finished goes on to another stage. -/
theorem Inv.moves (inv : s.Inv) (call : Nat) (stage : CallStage τ)
    (hStage : s.stage call ≠ .finished) (hParked : s.stage call ≠ .parked) (hSeen : call < s.calls) :
    ({ s with stage := Function.update s.stage call stage } : DbusServerHandler τ).Inv := by
  have hOther : ∀ {call'}, s.stage call' = .finished ∨ s.stage call' = .parked ∨ s.calls ≤ call' →
      Function.update s.stage call stage call' = s.stage call' := by
    intro call' h
    apply Function.update_of_ne
    rintro rfl
    rcases h with hFinished | hPark | hLate
    · exact hStage hFinished
    · exact hParked hPark
    · exact Nat.not_le_of_lt hSeen hLate
  refine { inv with
    unseen := fun call' h => ?_
    parked := fun callId call' h => ?_
    replied := fun reply h => ?_ }
  · obtain ⟨hUnseen, hId⟩ := inv.unseen call' h
    exact ⟨(hOther (.inr (.inr h))).trans hUnseen, hId⟩
  · obtain ⟨hPark, hId⟩ := inv.parked callId call' h
    exact ⟨(hOther (.inr (.inl hPark))).trans hPark, hId⟩
  · obtain ⟨hFinished, hOwn⟩ := inv.replied reply h
    exact ⟨(hOther (.inl hFinished)).trans hFinished, hOwn⟩

/-- A call that is finished, and was not answered, may be answered once. -/
theorem Inv.reply (inv : s.Inv) {call : Nat} {result : Option Nat} (hStage : s.stage call = .finished)
    (hNone : (s.replies.countP fun reply => reply.call = call) = 0)
    (hResult : ∀ callId, result = some callId → s.callId call = some callId) :
    ({ s with replies := ⟨call, result⟩ :: s.replies } : DbusServerHandler τ).Inv := by
  refine { inv with
    replied := fun reply h => ?_
    once := fun call' => ?_ }
  · rcases List.mem_cons.mp h with rfl | hOld
    · exact ⟨hStage, hResult⟩
    · exact inv.replied reply hOld
  · show List.countP _ (_ :: s.replies) ≤ 1
    rw [List.countP_cons]
    by_cases hSame : call = call'
    · subst hSame
      rw [hNone]
      simp
    · simpa [hSame] using inv.once call'

theorem Inv.seen (inv : s.Inv) {call : Nat} (hStage : s.stage call ≠ .unseen) : call < s.calls := by
  by_contra h
  exact hStage (inv.unseen call (Nat.le_of_not_lt h)).1

theorem Takes.same {thread : τ} {pc : CallPc} (takes : s.Takes thread pc)
    (hStage : ∀ call, s.stage call = .taken thread → s'.stage call = .taken thread)
    (hId : ∀ call callId, s.callId call = some callId → s'.callId call = some callId) :
    s'.Takes thread pc := by
  cases pc with
  | storing call callId owner => exact ⟨hStage call takes.1, hId call callId takes.2⟩
  | _ => trivial

theorem Answers.same {pc : ActorPc} (answers : s.Answers pc)
    (hStage : ∀ call, s.stage call = .answering → s'.stage call = .answering)
    (hId : ∀ call callId, s.callId call = some callId → s'.callId call = some callId) :
    s'.Answers pc := by
  cases pc with
  | answering call callId => exact ⟨hStage call answers.1, hId call callId answers.2⟩
  | _ => trivial

/-- A call that comes in is the next one, and gets the next id. -/
theorem Inv.draw (inv : s.Inv) (thread : τ) :
    ({ s with
      nextCallId := s.nextCallId + 1
      calls := s.calls + 1
      callId := Function.update s.callId s.calls (some s.nextCallId)
      stage := Function.update s.stage s.calls (.taken thread) } : DbusServerHandler τ).Inv := by
  obtain ⟨hUnseen, hNone⟩ := inv.next
  have hStage : ∀ {call}, s.stage call ≠ .unseen →
      Function.update s.stage s.calls (.taken thread) call = s.stage call := by
    intro call h
    apply Function.update_of_ne
    rintro rfl
    exact h hUnseen
  have hDrawn : ∀ call callId, Function.update s.callId s.calls (some s.nextCallId) call = some callId →
      (call = s.calls ∧ callId = s.nextCallId) ∨ s.callId call = some callId := by
    intro call callId h
    by_cases hCall : call = s.calls
    · subst hCall
      rw [Function.update_self] at h
      exact .inl ⟨rfl, (Option.some.inj h).symm⟩
    · rw [Function.update_of_ne hCall] at h
      exact .inr h
  have hKeep : ∀ {call callId}, s.callId call = some callId →
      Function.update s.callId s.calls (some s.nextCallId) call = some callId := by
    intro call callId h
    rw [Function.update_of_ne, h]
    rintro rfl
    rw [hNone] at h
    cases h
  constructor
  case unseen =>
    intro call h
    have hne : call ≠ s.calls := Nat.ne_of_gt h
    obtain ⟨hOld, hOldId⟩ := inv.unseen call (Nat.le_of_succ_le h)
    exact ⟨(Function.update_of_ne hne ..).trans hOld, (Function.update_of_ne hne ..).trans hOldId⟩
  case drawn =>
    intro call callId h
    rcases hDrawn call callId h with ⟨_, rfl⟩ | hOld
    · exact Nat.lt_succ_self _
    · exact Nat.lt_succ_of_lt (inv.drawn call callId hOld)
  case distinct =>
    intro call call' callId h h'
    rcases hDrawn call callId h with ⟨rfl, rfl⟩ | hOld <;>
      rcases hDrawn call' _ h' with ⟨rfl, hSame⟩ | hOld'
    · rfl
    · exact absurd (inv.drawn call' _ hOld') (Nat.lt_irrefl _)
    · rw [hSame] at hOld
      exact absurd (inv.drawn call _ hOld) (Nat.lt_irrefl _)
    · exact inv.distinct call call' callId hOld hOld'
  case parked =>
    intro callId call h
    obtain ⟨hPark, hId⟩ := inv.parked callId call h
    exact ⟨(hStage (by simp [hPark])).trans hPark, hKeep hId⟩
  case replied =>
    intro reply h
    obtain ⟨hFinished, hOwn⟩ := inv.replied reply h
    exact ⟨(hStage (by simp [hFinished])).trans hFinished, fun callId hResult => hKeep (hOwn callId hResult)⟩
  case once => exact inv.once

/-- A call whose arguments cannot be read gets no id, and an error for a reply. -/
theorem Inv.unreadable (inv : s.Inv) :
    ({ s with
      calls := s.calls + 1
      stage := Function.update s.stage s.calls .finished
      replies := ⟨s.calls, none⟩ :: s.replies } : DbusServerHandler τ).Inv := by
  obtain ⟨hUnseen, hNone⟩ := inv.next
  have counted : ({ s with calls := s.calls + 1 } : DbusServerHandler τ).Inv :=
    { inv with unseen := fun call h => inv.unseen call (Nat.le_of_succ_le h) }
  have moved := counted.moves s.calls .finished (by simp [hUnseen]) (by simp [hUnseen])
    (Nat.lt_succ_self _)
  exact moved.reply (Function.update_self ..) (inv.unanswered (by simp [hUnseen])) nofun

theorem Inv.park (inv : s.Inv) {thread : τ} {call callId : Nat} (hStage : s.stage call = .taken thread)
    (hId : s.callId call = some callId) :
    ({ s with
      pendingMethodCalls := Function.update s.pendingMethodCalls callId (some call)
      stage := Function.update s.stage call .parked } : DbusServerHandler τ).Inv := by
  have moved := inv.moves call .parked (by simp [hStage]) (by simp [hStage])
    (inv.seen (by simp [hStage]))
  refine { moved with parked := fun callId' call' h => ?_ }
  by_cases hSame : callId' = callId
  · subst hSame
    replace h : Function.update s.pendingMethodCalls callId' (some call) callId' = some call' := h
    rw [Function.update_self] at h
    cases h
    exact ⟨Function.update_self .., hId⟩
  · exact moved.parked callId' call' ((Function.update_of_ne hSame ..).symm.trans h)

/-- A thread of the connection moves no call but its own, and the one that it gets. -/
theorem incomingStep_kept [DecidableEq τ] {thread : τ} {pc pc' : CallPc} {choice : CallChoice}
    (inv : s.Inv) (takes : s.Takes thread pc)
    (h : incomingStep thread s pc choice = some (s', pc')) :
    (∀ call, s.stage call ≠ .unseen → s.stage call ≠ .taken thread → s'.stage call = s.stage call) ∧
      ∀ call callId, s.callId call = some callId → s'.callId call = some callId := by
  obtain ⟨hUnseen, hNone⟩ := inv.next
  have hNew : ∀ {call stage}, s.stage call ≠ .unseen →
      Function.update s.stage s.calls stage call = s.stage call := by
    intro call stage hSeen
    apply Function.update_of_ne
    rintro rfl
    exact hSeen hUnseen
  cases pc <;> cases choice <;> simp only [incomingStep, reduceCtorEq] at h
  case idle.incoming key readable =>
    cases hMethod : s.methods key with
    | none =>
        rw [hMethod] at h
        cases h
    | some owner =>
        rw [hMethod] at h
        cases readable with
        | true =>
            cases h
            refine ⟨fun call hSeen _ => hNew hSeen, fun call callId hId => ?_⟩
            refine (Function.update_of_ne ?_ ..).trans hId
            rintro rfl
            rw [hNone] at hId
            cases hId
        | false =>
            cases h
            exact ⟨fun call hSeen _ => hNew hSeen, fun _ _ => id⟩
  case storing.go own callId owner =>
    cases h
    refine ⟨fun call _ hOwn => Function.update_of_ne ?_ .., fun _ _ => id⟩
    rintro rfl
    exact hOwn takes.1
  case sending.go own owner =>
    cases h
    split
    · exact ⟨fun _ _ _ => rfl, fun _ _ => id⟩
    · exact ⟨fun _ _ _ => rfl, fun _ _ => id⟩

/-- A thread of the connection takes a step. -/
theorem incomingStep_inv [DecidableEq τ] {thread : τ} {pc pc' : CallPc} {choice : CallChoice}
    (inv : s.Inv) (takes : s.Takes thread pc)
    (h : incomingStep thread s pc choice = some (s', pc')) :
    s'.Inv ∧ s'.Takes thread pc' ∧
      (∀ other there, other ≠ thread → s.Takes other there → s'.Takes other there) ∧
        ∀ there, s.Answers there → s'.Answers there := by
  obtain ⟨hStage, hId⟩ := incomingStep_kept inv takes h
  have hTakes : ∀ other there, other ≠ thread → s.Takes other there → s'.Takes other there := by
    intro other there hOther hThere
    apply hThere.same _ hId
    intro call hCall
    exact (hStage call (by simp [hCall]) (by simp [hCall, hOther])).trans hCall
  have hAnswers : ∀ there, s.Answers there → s'.Answers there := by
    intro there hThere
    apply hThere.same _ hId
    intro call hCall
    exact (hStage call (by simp [hCall]) (by simp [hCall])).trans hCall
  suffices hOwn : s'.Inv ∧ s'.Takes thread pc' from ⟨hOwn.1, hOwn.2, hTakes, hAnswers⟩
  cases pc <;> cases choice <;> simp only [incomingStep, reduceCtorEq] at h
  case idle.incoming key readable =>
    cases hMethod : s.methods key with
    | none =>
        rw [hMethod] at h
        cases h
    | some owner =>
        rw [hMethod] at h
        cases readable with
        | true =>
            cases h
            exact ⟨inv.draw thread, Function.update_self .., Function.update_self ..⟩
        | false =>
            cases h
            exact ⟨inv.unreadable, trivial⟩
  case storing.go call callId owner =>
    cases h
    exact ⟨inv.park takes.1 takes.2, trivial⟩
  case sending.go call owner =>
    cases h
    split
    · exact ⟨inv, trivial⟩
    · exact ⟨{ inv with }, trivial⟩

theorem incomingStep_dropped [DecidableEq τ] {thread : τ} {pc pc' : CallPc} {choice : CallChoice}
    (h : incomingStep thread s pc choice = some (s', pc')) :
    s'.dropped = s.dropped ∨ ∃ call owner, pc = .sending call owner ∧ s.registered owner = false ∧
      s'.dropped = call :: s.dropped := by
  cases pc <;> cases choice <;> simp only [incomingStep, reduceCtorEq] at h
  case idle.incoming key readable =>
    cases hMethod : s.methods key with
    | none =>
        rw [hMethod] at h
        cases h
    | some owner =>
        rw [hMethod] at h
        cases readable <;> cases h <;> exact .inl rfl
  case storing.go call callId owner =>
    cases h
    exact .inl rfl
  case sending.go call owner =>
    cases h
    cases hOwner : s.registered owner with
    | true => exact .inl (by simp)
    | false => exact .inr ⟨call, owner, rfl, hOwner, by simp⟩

/-- A call that is parked is taken out. -/
theorem Inv.take (inv : s.Inv) {call callId : Nat} (hPending : s.pendingMethodCalls callId = some call) :
    ({ s with
      pendingMethodCalls := Function.update s.pendingMethodCalls callId none
      stage := Function.update s.stage call .answering } : DbusServerHandler τ).Inv := by
  obtain ⟨hPark, hId⟩ := inv.parked callId call hPending
  have hOther : ∀ {call'}, call' ≠ call →
      Function.update s.stage call .answering call' = s.stage call' :=
    fun hne => Function.update_of_ne hne _ _
  refine { inv with
    unseen := fun call' h => ?_
    parked := fun callId' call' h => ?_
    replied := fun reply h => ?_ }
  · obtain ⟨hUnseen, hNone⟩ := inv.unseen call' h
    refine ⟨(hOther ?_).trans hUnseen, hNone⟩
    rintro rfl
    rw [hPark] at hUnseen
    cases hUnseen
  · have hne : callId' ≠ callId := by
      rintro rfl
      replace h : Function.update s.pendingMethodCalls callId' none callId' = some call' := h
      rw [Function.update_self] at h
      cases h
    obtain ⟨hPark', hId'⟩ := inv.parked callId' call' ((Function.update_of_ne hne ..).symm.trans h)
    refine ⟨(hOther ?_).trans hPark', hId'⟩
    rintro rfl
    exact hne (Option.some.inj (hId'.symm.trans hId))
  · obtain ⟨hFinished, hOwn⟩ := inv.replied reply h
    refine ⟨(hOther ?_).trans hFinished, hOwn⟩
    intro hSame
    rw [hSame, hPark] at hFinished
    cases hFinished

/-- The table is cleared, and the calls in it are given up. -/
theorem Inv.clear (inv : s.Inv) :
    ({ s with
      pendingMethodCalls := fun _ => none
      stage := fun call => match s.stage call with
        | .parked => .finished
        | stage => stage } : DbusServerHandler τ).Inv := by
  refine { inv with
    unseen := fun call h => ?_
    parked := nofun
    replied := fun reply h => ?_ }
  · obtain ⟨hUnseen, hNone⟩ := inv.unseen call h
    exact ⟨by simp [hUnseen], hNone⟩
  · obtain ⟨hFinished, hOwn⟩ := inv.replied reply h
    exact ⟨by simp [hFinished], hOwn⟩

/-- The actor's thread only moves calls that are parked, or that it answers. -/
structure Kept (s s' : DbusServerHandler τ) : Prop where
  stage : ∀ call, s.stage call ≠ .parked → s.stage call ≠ .answering → s'.stage call = s.stage call
  settled : ∀ call, s.Settled call → s'.Settled call
  callId : s'.callId = s.callId
  dropped : s'.dropped = s.dropped

theorem Kept.of_eq (hStage : s'.stage = s.stage) (hId : s'.callId = s.callId)
    (hDropped : s'.dropped = s.dropped) : Kept s s' where
  stage call _ _ := congrFun hStage call
  settled call h := by
    unfold Settled
    rw [hStage]
    exact h
  callId := hId
  dropped := hDropped

/-- The actor's thread takes a step. -/
theorem actorStep_inv {pc pc' : ActorPc} {choice : ActorChoice} (inv : s.Inv) (answers : s.Answers pc)
    (h : actorStep s pc choice = some (s', pc')) : s'.Inv ∧ s'.Answers pc' ∧ Kept s s' := by
  cases choice with
  | registry name present =>
      have hAfter : s' = { s with registered := Function.update s.registered name present } ∧ pc' = pc := by
        cases pc <;> simp only [actorStep, Option.some.injEq, Prod.mk.injEq] at h <;>
          exact ⟨h.1.symm, h.2.symm⟩
      obtain ⟨rfl, rfl⟩ := hAfter
      exact ⟨{ inv with }, answers.same (fun _ => id) fun _ _ => id, .of_eq rfl rfl rfl⟩
  | registerMethod key owner created =>
      cases pc <;> simp only [actorStep, reduceCtorEq] at h
      cases h
      split
      · exact ⟨inv, trivial, .of_eq rfl rfl rfl⟩
      · exact ⟨{ inv with }, trivial, .of_eq rfl rfl rfl⟩
  | unregisterMethod key =>
      cases pc <;> simp only [actorStep, reduceCtorEq] at h
      cases h
      exact ⟨{ inv with }, trivial, .of_eq rfl rfl rfl⟩
  | close =>
      cases pc <;> simp only [actorStep, reduceCtorEq] at h
      cases h
      exact ⟨{ inv with }, trivial, .of_eq rfl rfl rfl⟩
  | methodCallResult callId =>
      cases pc <;> simp only [actorStep, handleMethodCallResult, reduceCtorEq] at h
      cases hPending : s.pendingMethodCalls callId with
      | none =>
          rw [hPending] at h
          cases h
          exact ⟨inv, trivial, .of_eq rfl rfl rfl⟩
      | some call =>
          rw [hPending] at h
          cases h
          obtain ⟨hPark, hId⟩ := inv.parked callId call hPending
          refine ⟨inv.take hPending, ⟨Function.update_self .., hId⟩, ?_, ?_, rfl, rfl⟩
          · intro call' hNot _
            apply Function.update_of_ne
            rintro rfl
            exact hNot hPark
          · intro call' hSettled
            by_cases hSame : call' = call
            · subst hSame
              exact .inl (Function.update_self ..)
            · simpa [Settled, Function.update_of_ne hSame] using hSettled
  | go =>
      cases pc <;> simp only [actorStep, reduceCtorEq] at h
      cases h
      refine ⟨inv.clear, trivial, ?_, ?_, rfl, rfl⟩
      · intro call hNot _
        show (match s.stage call with | .parked => CallStage.finished | stage => stage) = _
        split
        · contradiction
        · rfl
      · intro call hSettled
        rcases hSettled with hStage | hStage
        · exact .inl (by simp [hStage])
        · exact .inr (by simp [hStage])
  | reply sent =>
      cases pc <;> simp only [actorStep, reduceCtorEq] at h
      case answering call callId =>
        cases h
        obtain ⟨hStage, hId⟩ := answers
        have moved := inv.moves call .finished (by simp [hStage]) (by simp [hStage])
          (inv.seen (by simp [hStage]))
        refine ⟨?_, trivial, ?_, ?_, rfl, rfl⟩
        · cases sent with
          | false => exact moved
          | true =>
              apply moved.reply (Function.update_self ..) (inv.unanswered (by simp [hStage]))
              intro callId' hResult
              cases hResult
              exact hId
        · intro call' _ hNot
          apply Function.update_of_ne
          rintro rfl
          exact hNot hStage
        · intro call' hSettled
          by_cases hSame : call' = call
          · subst hSame
            exact .inr (Function.update_self ..)
          · simpa [Settled, Function.update_of_ne hSame] using hSettled

end Steps

section Runs

variable [DecidableEq τ] {c : Config (τ ⊕ Unit) (DbusServerHandler τ) (CallPc ⊕ ActorPc)}

theorem outlined (reach : Reach program (· = start) anyStep c) :
    Outlined Inv Takes (fun s (_ : Unit) pc => s.Answers pc) c := by
  refine Reach.outlined ⟨inv_constructed, fun _ => trivial, fun _ => trivial⟩ ?_ ?_ reach
  · intro thread s pc choice s' pc' inv takes hStep
    obtain ⟨hInv, hOwn, hTakes, hAnswers⟩ := incomingStep_inv inv takes hStep
    exact ⟨hInv, hOwn, hTakes, fun _ => hAnswers⟩
  · intro _ s pc choice s' pc' inv answers hStep
    obtain ⟨hInv, hOwn, kept⟩ := actorStep_inv inv answers hStep
    refine ⟨hInv, hOwn, fun _ _ hOther => absurd (Subsingleton.elim ..) hOther,
      fun thread there hThere => hThere.same (fun call hCall => ?_) fun call callId hId => ?_⟩
    · exact (kept.stage call (by simp [hCall]) (by simp [hCall])).trans hCall
    · rw [kept.callId]
      exact hId

/-- A call whose message was dropped is no longer in the table. -/
theorem dropped_settled (reach : Reach program (· = start) keepsOwners c) :
    ∀ call ∈ c.shared.dropped, c.shared.Settled call := by
  apply Reach.invariant (I := fun c => ∀ call ∈ c.shared.dropped, c.shared.Settled call) _ _ reach
  · rintro c rfl
    exact nofun
  · intro c thread choice shared place prior settled owners hLocal
    have outline := outlined (prior.mono fun _ _ _ _ => trivial)
    cases thread with
    | inl thread =>
        obtain ⟨pc, hHere, takes⟩ := outline.left thread
        unfold keepsOwners at owners
        rw [hHere] at hLocal owners
        cases choice with
        | inr choice => cases hLocal
        | inl choice =>
            obtain ⟨⟨s', pc'⟩, hStep, hAfter⟩ := Option.map_eq_some_iff.mp hLocal
            cases hAfter
            have hKept : ∀ call, c.shared.Settled call → s'.Settled call := by
              intro call hCall
              have hSame := (incomingStep_kept outline.shared takes hStep).1 call
                (by rcases hCall with h | h <;> simp [h]) (by rcases hCall with h | h <;> simp [h])
              unfold Settled
              rw [hSame]
              exact hCall
            rcases incomingStep_dropped hStep with hDropped | ⟨call, owner, rfl, hOwner, hDropped⟩
            · intro call hCall
              exact hKept call (settled call (hDropped ▸ hCall))
            · intro call' hCall
              rw [hDropped] at hCall
              rcases List.mem_cons.mp hCall with rfl | hOld
              · rcases owners with hRegistered | hSettled
                · rw [hOwner] at hRegistered
                  cases hRegistered
                · exact hKept call' hSettled
              · exact hKept call' (settled call' hOld)
    | inr actor =>
        obtain ⟨pc, hHere, answers⟩ := outline.right actor
        rw [hHere] at hLocal
        cases choice with
        | inl choice => cases hLocal
        | inr choice =>
            obtain ⟨⟨s', pc'⟩, hStep, hAfter⟩ := Option.map_eq_some_iff.mp hLocal
            cases hAfter
            obtain ⟨_, _, kept⟩ := actorStep_inv outline.shared answers hStep
            intro call hCall
            exact kept.settled call (settled call (kept.dropped ▸ hCall))

/-- Every call is answered at most once, with a result of its own, and none is left in the table
without anybody who knows of it. -/
theorem answered (reach : Reach program (· = start) keepsOwners c) : c.shared.Answered := by
  have inv := (outlined (reach.mono fun _ _ _ _ => trivial)).shared
  have hParked : ∀ callId call, c.shared.pendingMethodCalls callId = some call →
      ¬ c.shared.Settled call := by
    intro callId call hPending hSettled
    have hStage := (inv.parked callId call hPending).1
    rcases hSettled with h | h
    · rw [hStage] at h
      cases h
    · rw [hStage] at h
      cases h
  constructor
  case once => exact inv.once
  case own =>
    intro reply hReply
    exact (inv.replied reply hReply).2
  case stale =>
    intro callId hStale
    unfold handleMethodCallResult
    cases hPending : c.shared.pendingMethodCalls callId with
    | none => rfl
    | some call =>
        exact absurd (hStale call (inv.parked callId call hPending).2) (hParked callId call hPending)
  case forgotten =>
    intro call hDropped callId hPending
    exact hParked callId call hPending (dropped_settled reach call hDropped)

/-- A call is taken in and answered, and the result comes once more. -/
def afterAnswer : Config (Unit ⊕ Unit) (DbusServerHandler Unit) (CallPc ⊕ ActorPc) :=
  (program.replay keepsOwners start
    [(.inr (), .inr (.registry "cmd" true)), (.inr (), .inr (.registerMethod "Engine.Run" "cmd" true)),
      (.inl (), .inl (.incoming "Engine.Run" true)), (.inl (), .inl .go), (.inl (), .inl .go),
      (.inr (), .inr (.methodCallResult 0)), (.inr (), .inr (.reply true)),
      (.inr (), .inr (.methodCallResult 0))]).get (by decide +kernel)

theorem answered_afterAnswer : afterAnswer.shared.Answered ∧ afterAnswer.shared.replies = [⟨0, some 0⟩] :=
  ⟨answered (Reach.replay (.start rfl) (Option.some_get _).symm), by decide +kernel⟩

/-- A method stays registered when its owner leaves the registry. -/
def afterOwnerLeft : Config (Unit ⊕ Unit) (DbusServerHandler Unit) (CallPc ⊕ ActorPc) :=
  (program.replay anyStep start
    [(.inr (), .inr (.registerMethod "Engine.Run" "cmd" true)),
      (.inl (), .inl (.incoming "Engine.Run" true)), (.inl (), .inl .go), (.inl (), .inl .go)]).get
    (by decide +kernel)

theorem unanswered_afterOwnerLeft : Reach program (· = start) anyStep afterOwnerLeft ∧
    ¬ afterOwnerLeft.shared.Answered := by
  refine ⟨Reach.replay (.start rfl) (Option.some_get _).symm, fun answered => ?_⟩
  have hDropped : (0 : Nat) ∈ afterOwnerLeft.shared.dropped := by decide +kernel
  have hPending : afterOwnerLeft.shared.pendingMethodCalls 0 = some 0 := by decide +kernel
  exact answered.forgotten 0 hDropped 0 hPending

end Runs

end DbusServerHandler

end Service
