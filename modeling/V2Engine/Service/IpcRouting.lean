import V2Engine.Interleaving.Calls
import V2Engine.Service.IpcServerActor
import V2Engine.Service.CmdAnswers
import Mathlib.Logic.Function.Basic

/-! Clients, descriptor numbers and answers. A message names a connection by its descriptor
number alone, and the kernel gives the number of a closed connection to a later one. -/
namespace Service

open Interleaving Text

namespace CmdActor

/-- The responses among what the actor sends. -/
def responses : List Output → List CmdResponse :=
  List.filterMap fun
    | .toIpcServer m _ => some m
    | _ => none

variable {m : CmdRequest} {reply : Handler → List Str → Str} {s : State}

/-- A command is answered on its own connection, and if a reading is awaited afterwards it is
awaited for this connection: because of this command, or because one was awaited before. -/
theorem handleCmdRequest_spec (m : CmdRequest) (reply : Handler → List Str → Str) (s : State) :
    (∀ r ∈ responses (handleCmdRequest m reply s).1, r.conn = m.conn) ∧
      ((handleCmdRequest m reply s).2.pmuStatusPending = true →
        (handleCmdRequest m reply s).2.pendingConn = m.conn ∧
          (.pmuDataSubscribe ∉ (handleCmdRequest m reply s).1 → s.pmuStatusPending = true)) := by
  by_cases h : IsStatus m.cmd
  · rw [handleCmdRequest_of_isStatus h]
    simp [responses]
  · obtain ⟨response, hHandled⟩ := handleCmdRequest_of_not_isStatus reply s h
    rw [hHandled]
    cases hPending : s.pmuStatusPending <;> simp [responses, hPending]

theorem handlePmuDataUpdate_spec (body : Str) (s : State) :
    (∀ r ∈ responses (handlePmuDataUpdate body s).1, s.pmuStatusPending = true ∧ r.conn = s.pendingConn) ∧
      (handlePmuDataUpdate body s).2.pmuStatusPending = false := by
  rw [handlePmuDataUpdate]
  split
  · simp [responses, *]
  · simp [responses, *]

end CmdActor

namespace IpcServerActor

/-- What was true of a connection when the actor closed it. -/
structure Closing where
  read : Bool
  answered : Bool
  hungUp : Bool
deriving DecidableEq

/-- Every open connection has a number of its own in `fds`, and no two connections are ever
the same. Requests, responses and handlers remember for whose command they are, responses
in the tag of their message. -/
structure Exchange where
  fds : ConnHandle → Option Nat
  next : Nat
  /-- Descriptors that other parts of the process have opened. -/
  foreign : Nat → Bool
  hungUp : Nat → Bool
  read : Nat → Bool
  answered : Nat → Bool
  handlers : ConnHandle → Bool
  calling : Option ConnHandle
  mailbox : List (IpcMessage Nat)
  work : List Action
  workConn : ConnHandle
  workOrigin : Nat
  cmdMailbox : List (CmdRequest × Nat)
  cmd : CmdActor.State
  readingFor : Nat
  /-- For whose command a result was made, and where it went. -/
  sent : List (Nat × Nat)
  closes : List Closing

namespace Exchange

def initial : Exchange where
  fds := fun _ => none
  next := 0
  foreign := fun _ => false
  hungUp := fun _ => false
  read := fun _ => false
  answered := fun _ => false
  handlers := fun _ => false
  calling := none
  mailbox := []
  work := []
  workConn := 0
  workOrigin := 0
  cmdMailbox := []
  cmd := .initial
  readingFor := 0
  sent := []
  closes := []

/-- Wherever a message may be dropped because the mailbox is full, `accepted` says whether it
is kept. -/
inductive Event where
  | accept (conn : ConnHandle) (accepted : Bool)
  | openElsewhere (conn : ConnHandle)
  | closeElsewhere (conn : ConnHandle)
  | hangUp (client : Nat)
  /-- The loop thread takes the handler of a connection that is ready. -/
  | poll (conn : ConnHandle)
  | enqueue (accepted : Bool)
  | handle (found : Recv)
  | act (accepted : Bool)
  | cmdHandleRequest (reply : CmdActor.Handler → List Str → Str) (accepted : Bool)
  | cmdHandleUpdate (body : Str) (accepted : Bool)

/-- The end of the stream is there only when the client has closed its side. -/
def Finds (s : Exchange) (conn : ConnHandle) : Recv → Prop
  | .data bytes => (s.fds conn).isSome ∧ bytes ≠ []
  | .endOfStream => ∃ c ∈ s.fds conn, s.hungUp c
  | .error => True

instance (s : Exchange) (conn : ConnHandle) (found : Recv) : Decidable (s.Finds conn found) := by
  cases found <;> unfold Finds <;> infer_instance

def handleData (s : Exchange) (conn : ConnHandle) (found : Recv) : Exchange :=
  { s with
    work := handleDataReceived found
    workConn := conn
    workOrigin := (s.fds conn).getD 0
    read := match found, s.fds conn with
      | .data _, some c => Function.update s.read c true
      | _, _ => s.read }

def perform (s : Exchange) (accepted : Bool) : Action → Exchange
  | .sendCmdRequest cmd =>
      if accepted then { s with cmdMailbox := s.cmdMailbox ++ [(⟨s.workConn, cmd⟩, s.workOrigin)] } else s
  | .send _ => match s.fds s.workConn with
    | none => s
    | some c =>
        { s with
          sent := s.sent ++ [(s.workOrigin, c)]
          -- the result is sent to be followed by the closing
          answered := if .closeClient ∈ s.work then Function.update s.answered c true else s.answered }
  | .unsubscribe => { s with handlers := Function.update s.handlers s.workConn false }
  | .closeClient => match s.fds s.workConn with
    | none => s
    | some c =>
        { s with
          fds := Function.update s.fds s.workConn none
          closes := s.closes ++ [⟨s.read c, s.answered c, s.hungUp c⟩] }
  | .erase => s

def give (s : Exchange) (conn : ConnHandle) (foreign : Bool) : Exchange :=
  { s with
    fds := Function.update s.fds conn (some s.next)
    next := s.next + 1
    foreign := Function.update s.foreign s.next foreign }

def receive (s : Exchange) (accepted : Bool) (messages : List (IpcMessage Nat)) : Exchange :=
  if accepted then { s with mailbox := s.mailbox ++ messages } else s

def step : Event → Exchange → Option Exchange
  | .accept conn accepted, s =>
      if s.fds conn = none then some ((s.give conn false).receive accepted [.newConnection conn]) else none
  | .openElsewhere conn, s => if s.fds conn = none then some (s.give conn true) else none
  | .closeElsewhere conn, s =>
      if ∃ c ∈ s.fds conn, s.foreign c then some { s with fds := Function.update s.fds conn none } else none
  | .hangUp client, s => some { s with hungUp := Function.update s.hungUp client true }
  | .poll conn, s =>
      if s.handlers conn ∧ (s.fds conn).isSome ∧ s.calling = none then some { s with calling := some conn } else none
  | .enqueue accepted, s => match s.calling with
    | none => none
    | some conn => some (({ s with calling := none } : Exchange).receive accepted [.dataReceived conn])
  | .handle found, s => match s.work, s.mailbox with
    | [], .newConnection conn :: rest =>
        some { s with mailbox := rest, handlers := Function.update s.handlers conn true }
    | [], .dataReceived conn :: rest =>
        if s.Finds conn found then some (({ s with mailbox := rest } : Exchange).handleData conn found) else none
    | [], .cmdResponse m origin :: rest =>
        some { s with mailbox := rest, work := handleCmdResponse m, workConn := m.conn, workOrigin := origin }
    | _, _ => none
  | .act accepted, s => match s.work with
    | [] => none
    | action :: rest => some (({ s with work := rest } : Exchange).perform accepted action)
  | .cmdHandleRequest reply accepted, s => match s.cmdMailbox with
    | [] => none
    | (m, origin) :: rest =>
        let (outputs, cmd) := CmdActor.handleCmdRequest m reply s.cmd
        some (({ s with
          cmdMailbox := rest
          cmd := cmd
          readingFor := if .pmuDataSubscribe ∈ outputs then origin else s.readingFor } : Exchange).receive accepted
            ((CmdActor.responses outputs).map (.cmdResponse · origin)))
  | .cmdHandleUpdate body accepted, s =>
      let (outputs, cmd) := CmdActor.handlePmuDataUpdate body s.cmd
      some (({ s with cmd := cmd } : Exchange).receive accepted
        ((CmdActor.responses outputs).map (.cmdResponse · s.readingFor)))

/-- A request, a response, a handler or a reading that is still awaited will use the number. -/
def Named (s : Exchange) (conn : ConnHandle) : Prop :=
  (∃ p ∈ s.cmdMailbox, p.1.conn = conn) ∨
    (∃ message ∈ s.mailbox, match message with
      | .cmdResponse m _ => m.conn = conn
      | _ => False) ∨
    (s.work ≠ [] ∧ s.workConn = conn) ∨ (s.cmd.pmuStatusPending = true ∧ s.cmd.pendingConn = conn)

instance (s : Exchange) (conn : ConnHandle) : Decidable (s.Named conn) := by
  unfold Named
  have : ∀ message : IpcMessage Nat, Decidable (match message with
      | .cmdResponse m _ => m.conn = conn
      | _ => False) := by
    intro message
    cases message <;> infer_instance
  infer_instance

/-- The number of a new descriptor is not one that is still to be used for another connection,
and no command is handled while a reading is awaited for another connection. -/
def Apart (s : Exchange) : Event → Prop
  | .accept conn _ => ¬s.Named conn
  | .openElsewhere conn => ¬s.Named conn
  | .cmdHandleRequest _ _ => s.cmd.pmuStatusPending = true → ∀ p ∈ s.cmdMailbox.head?, p.1.conn = s.cmd.pendingConn
  | _ => True

instance (s : Exchange) (event : Event) : Decidable (s.Apart event) := by
  cases event <;> unfold Apart <;> infer_instance

/-- Results go to the connections for whose commands they were made, and a connection that gave
a command is closed after its result, or because the client is gone. -/
structure Routed (s : Exchange) : Prop where
  own : ∀ p ∈ s.sent, p.1 = p.2
  patient : ∀ c ∈ s.closes, c.read = true → c.answered = true ∨ c.hungUp = true

section Routing

/-- The number is that of the connection, or of nothing any more. -/
def Traces (fds : ConnHandle → Option Nat) (conn : ConnHandle) (origin : Nat) : Prop :=
  ∀ c, fds conn = some c → c = origin

variable {fds : ConnHandle → Option Nat} {conn other : ConnHandle} {origin : Nat}

theorem Traces.give (traces : Traces fds conn origin) (hne : other ≠ conn) (c : Nat) :
    Traces (Function.update fds other (some c)) conn origin := by
  intro d hd
  rw [Function.update_of_ne (Ne.symm hne)] at hd
  exact traces d hd

/-- What has a number after a descriptor was closed had it before. -/
theorem of_update_none {c : Nat} (h : Function.update fds other none conn = some c) : fds conn = some c := by
  by_cases hSame : conn = other
  · rw [hSame, Function.update_self] at h
    cases h
  · rwa [Function.update_of_ne hSame] at h

theorem Traces.close (traces : Traces fds conn origin) : Traces (Function.update fds other none) conn origin :=
  fun d hd => traces d (of_update_none hd)

/-- All that is under way names its connection or nothing, and a handler that is going to close
has answered, is going to, or found the client gone. -/
structure Inv (s : Exchange) : Prop where
  requests : ∀ p ∈ s.cmdMailbox, Traces s.fds p.1.conn p.2
  responses : ∀ m origin, .cmdResponse m origin ∈ s.mailbox → Traces s.fds m.conn origin
  working : s.work ≠ [] → Traces s.fds s.workConn s.workOrigin
  reading : s.cmd.pmuStatusPending = true → Traces s.fds s.cmd.pendingConn s.readingFor
  leaving : .closeClient ∈ s.work → (∃ result rest, s.work = .send result :: rest) ∨
    ∀ c, s.fds s.workConn = some c → s.answered c = true ∨ s.hungUp c = true
  own : ∀ p ∈ s.sent, p.1 = p.2
  patient : ∀ c ∈ s.closes, c.read = true → c.answered = true ∨ c.hungUp = true

theorem Inv.initial : Exchange.initial.Inv where
  requests := nofun
  responses := nofun
  working := fun h => absurd rfl h
  reading := nofun
  leaving := nofun
  own := nofun
  patient := nofun

variable {s s' : Exchange}

/-- A new descriptor is given a number that nothing under way names. -/
theorem Inv.give (inv : s.Inv) (hFree : ¬s.Named conn) (foreign : Bool) : (s.give conn foreign).Inv where
  requests p hp := (inv.requests p hp).give (fun h => hFree (.inl ⟨p, hp, h.symm⟩)) _
  responses m origin hm := (inv.responses m origin hm).give (fun h => hFree (.inr (.inl ⟨_, hm, h.symm⟩))) _
  working h := (inv.working h).give (fun h' => hFree (.inr (.inr (.inl ⟨h, h'.symm⟩)))) _
  reading h := (inv.reading h).give (fun h' => hFree (.inr (.inr (.inr ⟨h, h'.symm⟩)))) _
  leaving hClose := by
    rcases inv.leaving hClose with hSend | hDone
    · exact .inl hSend
    · refine .inr fun c hc => hDone c ?_
      have hBusy : s.work ≠ [] := List.ne_nil_of_mem hClose
      have hne : s.workConn ≠ conn := fun h => hFree (.inr (.inr (.inl ⟨hBusy, h⟩)))
      rw [← hc]
      exact (Function.update_of_ne hne _ _).symm
  own := inv.own
  patient := inv.patient

/-- Closing a descriptor takes nobody's number. -/
theorem Inv.close (inv : s.Inv) (conn : ConnHandle) :
    ({ s with fds := Function.update s.fds conn none } : Exchange).Inv where
  requests p hp := (inv.requests p hp).close
  responses m origin hm := (inv.responses m origin hm).close
  working h := (inv.working h).close
  reading h := (inv.reading h).close
  leaving hClose := by
    rcases inv.leaving hClose with hSend | hDone
    · exact .inl hSend
    · exact .inr fun c hc => hDone c (of_update_none hc)
  own := inv.own
  patient := inv.patient

theorem Inv.receive (inv : s.Inv) {accepted : Bool} {messages : List (IpcMessage Nat)}
    (hTraces : ∀ m origin, .cmdResponse m origin ∈ messages → Traces s.fds m.conn origin) :
    (s.receive accepted messages).Inv := by
  rw [Exchange.receive]
  split
  · refine ⟨inv.requests, fun m origin hm => ?_, inv.working, inv.reading, inv.leaving, inv.own, inv.patient⟩
    rcases List.mem_append.mp hm with h | h
    · exact inv.responses m origin h
    · exact hTraces m origin h
  · exact inv

/-- The handler of a readiness message works for the connection that has the number. -/
theorem Inv.handleData (inv : s.Inv) {found : Recv} (hFinds : s.Finds conn found) :
    (s.handleData conn found).Inv := by
  have hOwn : Traces s.fds conn ((s.fds conn).getD 0) := by
    intro c hc
    rw [hc]
    rfl
  refine ⟨inv.requests, inv.responses, fun _ => hOwn, inv.reading, ?_, inv.own, inv.patient⟩
  intro hClose
  cases found with
  | error => cases hClose
  | endOfStream =>
      refine .inr fun c hc => ?_
      obtain ⟨d, hd, hGone⟩ := hFinds
      cases hc.symm.trans hd
      exact .inr hGone
  | data bytes => simp [Exchange.handleData, handleDataReceived] at hClose

/-- An action other than sending leaves what follows it as it was. -/
theorem Inv.tail (inv : s.Inv) {action : Action} {rest : List Action} (hWork : s.work = action :: rest)
    (hNotSend : ∀ result, action ≠ .send result) : ({ s with work := rest } : Exchange).Inv where
  requests := inv.requests
  responses := inv.responses
  working := fun _ => inv.working (by rw [hWork]; exact List.cons_ne_nil _ _)
  reading := inv.reading
  leaving := by
    intro hRest
    have hAll := inv.leaving
    rw [hWork] at hAll
    rcases hAll (List.mem_cons_of_mem _ hRest) with ⟨result, more, hSame⟩ | hDone
    · cases hSame
      exact absurd rfl (hNotSend result)
    · exact .inr hDone
  own := inv.own
  patient := inv.patient

theorem Inv.send (inv : s.Inv) {result : Str} {rest : List Action} (hWork : s.work = .send result :: rest)
    (accepted : Bool) : (({ s with work := rest } : Exchange).perform accepted (.send result)).Inv := by
  have hOwn : Traces s.fds s.workConn s.workOrigin := inv.working (by rw [hWork]; exact List.cons_ne_nil _ _)
  cases hConn : s.fds s.workConn with
  | none =>
      simp only [Exchange.perform, hConn]
      refine ⟨inv.requests, inv.responses, fun _ => hOwn, inv.reading, fun _ => .inr ?_, inv.own, inv.patient⟩
      intro c hc
      cases hConn.symm.trans hc
  | some c =>
      simp only [Exchange.perform, hConn]
      refine ⟨inv.requests, inv.responses, fun _ => hOwn, inv.reading, fun hClose => .inr ?_, ?_, inv.patient⟩
      · intro d hd
        cases hConn.symm.trans hd
        rw [if_pos hClose]
        exact .inl (Function.update_self ..)
      · intro p hp
        rcases List.mem_append.mp hp with h | h
        · exact inv.own p h
        · cases List.mem_singleton.mp h
          exact (hOwn c hConn).symm

theorem Inv.perform (inv : s.Inv) {action : Action} {rest : List Action} (hWork : s.work = action :: rest)
    (accepted : Bool) : (({ s with work := rest } : Exchange).perform accepted action).Inv := by
  have hOwn : Traces s.fds s.workConn s.workOrigin := inv.working (by rw [hWork]; exact List.cons_ne_nil _ _)
  cases action with
  | sendCmdRequest cmd =>
      have tail := inv.tail hWork nofun
      rw [Exchange.perform]
      split
      · refine ⟨?_, tail.responses, tail.working, tail.reading, tail.leaving, tail.own, tail.patient⟩
        intro p hp
        rcases List.mem_append.mp hp with h | h
        · exact inv.requests p h
        · cases List.mem_singleton.mp h
          exact hOwn
      · exact tail
  | send result => exact inv.send hWork accepted
  | unsubscribe =>
      have tail := inv.tail hWork nofun
      exact ⟨tail.requests, tail.responses, tail.working, tail.reading, tail.leaving, tail.own, tail.patient⟩
  | closeClient =>
      cases hConn : s.fds s.workConn with
      | none =>
          simp only [Exchange.perform, hConn]
          exact inv.tail hWork nofun
      | some c =>
          have closed := (inv.tail hWork nofun).close s.workConn
          simp only [Exchange.perform, hConn]
          refine ⟨closed.requests, closed.responses, closed.working, closed.reading, closed.leaving, closed.own, ?_⟩
          intro closing hMem hRead
          rcases List.mem_append.mp hMem with h | h
          · exact inv.patient closing h hRead
          · cases List.mem_singleton.mp h
            rcases inv.leaving (by rw [hWork]; exact List.mem_cons_self) with ⟨result, more, hSame⟩ | hDone
            · cases hWork.symm.trans hSame
            · exact hDone c hConn
  | erase => exact inv.tail hWork nofun

theorem Inv.cmdHandleRequest (inv : s.Inv) {reply : CmdActor.Handler → List Str → Str} {accepted : Bool}
    (apart : s.Apart (.cmdHandleRequest reply accepted))
    (hStep : Exchange.step (.cmdHandleRequest reply accepted) s = some s') : s'.Inv := by
  cases hMailbox : s.cmdMailbox with
  | nil => simp [Exchange.step, hMailbox] at hStep
  | cons p rest =>
      obtain ⟨m, origin⟩ := p
      simp only [Exchange.step, hMailbox, Option.some.injEq] at hStep
      subst hStep
      obtain ⟨hResponses, hReading⟩ := CmdActor.handleCmdRequest_spec m reply s.cmd
      have hOwn : Traces s.fds m.conn origin := inv.requests (m, origin) (by rw [hMailbox]; exact List.mem_cons_self)
      apply Inv.receive
      · refine ⟨fun p hp => ?_, inv.responses, inv.working, fun hPending => ?_, inv.leaving, inv.own, inv.patient⟩
        · exact inv.requests p (by rw [hMailbox]; exact List.mem_cons_of_mem _ hp)
        · obtain ⟨hConn, hBefore⟩ := hReading hPending
          simp only [hConn]
          split
          · exact hOwn
          · have hAwaited := hBefore (by assumption)
            have hSame : m.conn = s.cmd.pendingConn := apart hAwaited (m, origin) (by rw [hMailbox]; rfl)
            rw [hSame]
            exact inv.reading hAwaited
      · intro r o hMem
        obtain ⟨r', hr', hSame⟩ := List.mem_map.mp hMem
        cases hSame
        rw [hResponses r hr']
        exact hOwn

theorem Inv.cmdHandleUpdate (inv : s.Inv) {body : Str} {accepted : Bool}
    (hStep : Exchange.step (.cmdHandleUpdate body accepted) s = some s') : s'.Inv := by
  cases hStep
  obtain ⟨hResponses, hDone⟩ := CmdActor.handlePmuDataUpdate_spec body s.cmd
  apply Inv.receive
  · refine ⟨inv.requests, inv.responses, inv.working, fun hPending => ?_, inv.leaving, inv.own, inv.patient⟩
    cases hDone.symm.trans hPending
  · intro r origin hMem
    obtain ⟨r', hr', hSame⟩ := List.mem_map.mp hMem
    cases hSame
    obtain ⟨hAwaited, hConn⟩ := hResponses r hr'
    rw [hConn]
    exact inv.reading hAwaited

theorem Inv.handle (inv : s.Inv) {found : Recv} (hStep : Exchange.step (.handle found) s = some s') : s'.Inv := by
  cases hWork : s.work with
  | cons action rest => simp [Exchange.step, hWork] at hStep
  | nil =>
      cases hMailbox : s.mailbox with
      | nil => simp [Exchange.step, hWork, hMailbox] at hStep
      | cons message rest =>
          have hRest : ∀ m origin, .cmdResponse m origin ∈ rest → Traces s.fds m.conn origin := by
            intro m origin hm
            apply inv.responses
            rw [hMailbox]
            exact List.mem_cons_of_mem _ hm
          have inv' : ({ s with mailbox := rest } : Exchange).Inv :=
            ⟨inv.requests, hRest, inv.working, inv.reading, inv.leaving, inv.own, inv.patient⟩
          cases message with
          | newConnection conn =>
              simp only [Exchange.step, hWork, hMailbox, Option.some.injEq] at hStep
              subst hStep
              refine ⟨inv.requests, hRest, fun h => absurd rfl h, inv.reading, nofun, inv.own, inv.patient⟩
          | dataReceived conn =>
              simp only [Exchange.step, hWork, hMailbox] at hStep
              obtain ⟨hFinds, hAfter⟩ := Option.ite_none_right_eq_some.mp hStep
              cases hAfter
              rw [hWork] at inv'
              exact inv'.handleData hFinds
          | cmdResponse m origin =>
              simp only [Exchange.step, hWork, hMailbox, Option.some.injEq] at hStep
              subst hStep
              have hOwn : Traces s.fds m.conn origin :=
                inv.responses m origin (by rw [hMailbox]; exact List.mem_cons_self)
              exact ⟨inv.requests, hRest, fun _ => hOwn, inv.reading, fun _ => .inl ⟨_, _, rfl⟩, inv.own, inv.patient⟩

theorem Inv.step {event : Event} (inv : s.Inv) (apart : s.Apart event) (hStep : Exchange.step event s = some s') :
    s'.Inv := by
  cases event with
  | accept conn accepted =>
      obtain ⟨_, hAfter⟩ := Option.ite_none_right_eq_some.mp hStep
      cases hAfter
      exact (inv.give apart false).receive (by simp)
  | openElsewhere conn =>
      obtain ⟨_, hAfter⟩ := Option.ite_none_right_eq_some.mp hStep
      cases hAfter
      exact inv.give apart true
  | closeElsewhere conn =>
      obtain ⟨_, hAfter⟩ := Option.ite_none_right_eq_some.mp hStep
      cases hAfter
      exact inv.close conn
  | hangUp client =>
      cases hStep
      refine ⟨inv.requests, inv.responses, inv.working, inv.reading, fun hClose => ?_, inv.own, inv.patient⟩
      rcases inv.leaving hClose with hSend | hDone
      · exact .inl hSend
      · refine .inr fun c hc => (hDone c hc).imp_right fun hGone => ?_
        by_cases hSame : c = client
        · rw [hSame]
          exact Function.update_self ..
        · rw [← hGone]
          exact Function.update_of_ne hSame _ _
  | poll conn =>
      obtain ⟨_, hAfter⟩ := Option.ite_none_right_eq_some.mp hStep
      cases hAfter
      exact ⟨inv.requests, inv.responses, inv.working, inv.reading, inv.leaving, inv.own, inv.patient⟩
  | enqueue accepted =>
      cases hCalling : s.calling with
      | none => simp [Exchange.step, hCalling] at hStep
      | some conn =>
          simp only [Exchange.step, hCalling, Option.some.injEq] at hStep
          subst hStep
          apply Inv.receive
          · exact ⟨inv.requests, inv.responses, inv.working, inv.reading, inv.leaving, inv.own, inv.patient⟩
          · simp
  | handle found => exact inv.handle hStep
  | act accepted =>
      cases hWork : s.work with
      | nil => simp [Exchange.step, hWork] at hStep
      | cons action rest =>
          simp only [Exchange.step, hWork, Option.some.injEq] at hStep
          subst hStep
          exact inv.perform hWork accepted
  | cmdHandleRequest reply accepted => exact inv.cmdHandleRequest apart hStep
  | cmdHandleUpdate body accepted => exact inv.cmdHandleUpdate hStep

/-- In every run in which no number is given away while it is still to be used, and the
reading of one connection is not overtaken by a command of another, results arrive where they
belong and no connection is closed before its result. -/
theorem routed (run : Calls Exchange.step (· = .initial) Apart s) : s.Routed := by
  have inv : s.Inv := by
    refine Calls.invariant ?_ ?_ run
    · rintro s rfl
      exact Inv.initial
    · intro s event s' _ inv apart hStep
      exact inv.step apart hStep
  exact ⟨inv.own, inv.patient⟩

end Routing

section Runs

/-- A client connects and sends a command that nobody knows. -/
def requested : List Event :=
  [.accept 5 true, .handle .error, .poll 5, .enqueue true, .poll 5, .enqueue true, .handle (.data "x\n".toList),
    .act true, .act true]

/-- It is answered and its connection is closed. -/
def afterAnswer : Exchange :=
  (Calls.replay Exchange.step Apart .initial
    (requested ++ ([.handle .error, .cmdHandleRequest (fun _ _ => []) true, .handle .error, .act true, .act true,
      .act true, .act true] : List Event))).get (by decide +kernel)

theorem routed_afterAnswer : afterAnswer.Routed ∧ afterAnswer.sent = [(0, 0)] :=
  ⟨routed (.of_replay (.start rfl) (Option.some_get _).symm), by decide +kernel⟩

/-- It goes away before it is answered, which the second readiness message finds out, and the
next client gets its number. -/
def afterReuse : Exchange :=
  (Calls.replay Exchange.step anyCall .initial
    (requested ++ ([.hangUp 0, .handle .endOfStream, .act true, .act true, .act true, .accept 5 true,
      .cmdHandleRequest (fun _ _ => []) true, .handle .error, .handle .error, .act true] : List Event))).get (by decide +kernel)

theorem not_routed_afterReuse :
    Calls Exchange.step (· = .initial) anyCall afterReuse ∧ ¬afterReuse.Routed := by
  refine ⟨.of_replay (.start rfl) (Option.some_get _).symm, fun routed => ?_⟩
  have hSent : (0, 1) ∈ afterReuse.sent := by decide +kernel
  cases routed.own _ hSent

end Runs

end Exchange

end IpcServerActor

end Service
