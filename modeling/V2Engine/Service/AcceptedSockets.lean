import V2Engine.Interleaving.Calls
import V2Engine.Service.Acceptor

/-! Who closes an accepted connection. `IpcServerActor` keeps it in its set from the loop thread
on; for `MonitorBridgeActor` it travels in a message first. -/
namespace Service

open Interleaving

namespace IpcServerActor

/-- The set keeps every connection; a message carries none. -/
def carries : IpcMessage Unit → Option ConnHandle := fun _ => none

inductive SocketEvent where
  | shared (event : Acceptor.Event)
  /-- The loop thread inserts the connection and announces it. -/
  | insert (accepted : Bool)
  /-- Readiness of any number, whether or not it is still the one that was watched, and any response. -/
  | arrive (message : IpcMessage Unit)
  | handle (found : Recv)
  | act

/-- A number without a descriptor is not valid. -/
def Finds (s : Acceptor (IpcMessage Unit)) (conn : ConnHandle) (found : Recv) : Prop :=
  found = .error ∨ ¬s.Free conn

instance (s : Acceptor (IpcMessage Unit)) (conn : ConnHandle) (found : Recv) : Decidable (Finds s conn found) :=
  inferInstanceAs (Decidable (_ ∨ _))

def socketStep : SocketEvent → Acceptor (IpcMessage Unit) → Option (Acceptor (IpcMessage Unit))
  | .shared event, s => Acceptor.step event s
  | .insert accepted, s => match s.holding with
    | none => none
    | some conn =>
        some { s with
          holding := none
          connections := insert conn s.connections
          mailbox := if accepted then s.mailbox ++ [.newConnection conn] else s.mailbox }
  | .arrive message, s => some { s with mailbox := s.mailbox ++ [message] }
  | .handle found, s =>
      if s.phase = .opened ∧ s.work = [] then
        match s.mailbox with
        | [] => none
        | .newConnection _ :: rest => some { s with mailbox := rest }
        | .dataReceived conn :: rest =>
            if Finds s conn found then
              some { s with mailbox := rest, work := handleDataReceived found, workConn := conn }
            else none
        | .cmdResponse m _ :: rest =>
            some { s with mailbox := rest, work := handleCmdResponse m, workConn := m.conn }
      else none
  | .act, s => s.act

/-- The number for which a handler is going to close is one that the actor keeps. -/
def Careful (s : Acceptor (IpcMessage Unit)) : SocketEvent → Prop
  | .shared event => s.Careful carries event
  | .handle found => ∀ message ∈ s.mailbox.head?, match message with
    | .newConnection _ => True
    | .dataReceived conn => found = .endOfStream → conn ∈ s.connections
    | .cmdResponse m _ => m.closeOnSend = true → m.conn ∈ s.connections
  | _ => True

instance (s : Acceptor (IpcMessage Unit)) (event : SocketEvent) : Decidable (Careful s event) := by
  cases event with
  | handle found =>
      have : ∀ message : IpcMessage Unit, Decidable (match message with
          | .newConnection _ => True
          | .dataReceived conn => found = .endOfStream → conn ∈ s.connections
          | .cmdResponse m _ => m.closeOnSend = true → m.conn ∈ s.connections) := by
        intro message
        cases message <;> infer_instance
      unfold Careful
      infer_instance
  | shared event => exact inferInstanceAs (Decidable (s.Careful carries event))
  | insert accepted => exact instDecidableTrue
  | arrive message => exact instDecidableTrue
  | act => exact instDecidableTrue

abbrev SocketRuns (allowed : Acceptor (IpcMessage Unit) → SocketEvent → Prop) :
    Acceptor (IpcMessage Unit) → Prop :=
  Calls socketStep (· = .initial) allowed

variable {s s' : Acceptor (IpcMessage Unit)}

theorem carried_eq_nil (messages : List (IpcMessage Unit)) : messages.filterMap carries = [] :=
  List.filterMap_eq_nil_iff.mpr fun _ _ => rfl

/-- What is in the mailbox makes no difference to the claims. -/
theorem inv_mailbox (inv : s.Inv carries) (messages : List (IpcMessage Unit)) :
    ({ s with mailbox := messages } : Acceptor (IpcMessage Unit)).Inv carries := by
  have hSame : messages.filterMap carries = s.mailbox.filterMap carries := by
    rw [carried_eq_nil, carried_eq_nil]
  refine ⟨inv.claimed.congr fun l => ?_, fun h => ?_, inv.forgotten, inv.stale, inv.server, inv.kept, inv.plan,
    inv.apart⟩
  · rw [Acceptor.claims, hSame]
    rfl
  · rw [hSame]
    exact inv.quiet h

theorem inv_handle {found : Recv} (inv : s.Inv carries) (careful : Careful s (.handle found))
    (hStep : socketStep (.handle found) s = some s') : s'.Inv carries := by
  obtain ⟨⟨hOpened, hIdle⟩, hAfter⟩ := Option.ite_none_right_eq_some.mp hStep
  cases hMailbox : s.mailbox with
  | nil => simp [hMailbox] at hAfter
  | cons message rest =>
      have hHead := careful message (by rw [hMailbox]; rfl)
      rw [hMailbox] at hAfter
      have inv' := inv_mailbox inv rest
      cases message with
      | newConnection conn =>
          cases hAfter
          exact inv'
      | dataReceived conn =>
          obtain ⟨_, hSome⟩ := Option.ite_none_right_eq_some.mp hAfter
          cases hSome
          cases found with
          | data bytes => exact inv'.handle hOpened hIdle List.mem_cons_self (by simp [handleDataReceived])
          | endOfStream =>
              exact inv'.handle hOpened hIdle (List.mem_cons_of_mem _ List.mem_cons_self) fun _ => hHead rfl
          | error => exact inv'.handle hOpened hIdle List.mem_cons_self (by simp [handleDataReceived])
      | cmdResponse m tag =>
          cases hAfter
          cases hClose : m.closeOnSend with
          | false =>
              refine inv'.handle hOpened hIdle ?_ ?_
              · simp [handleCmdResponse, hClose]
              · simp [handleCmdResponse, hClose]
          | true =>
              refine inv'.handle hOpened hIdle ?_ fun _ => hHead hClose
              simp [handleCmdResponse, hClose]

theorem inv_step {event : SocketEvent} (inv : s.Inv carries) (careful : Careful s event)
    (hStep : socketStep event s = some s') : s'.Inv carries := by
  cases event with
  | shared event => exact inv.step careful hStep
  | insert accepted =>
      cases hHolding : s.holding with
      | none => simp [socketStep, hHolding] at hStep
      | some conn =>
          simp only [socketStep, hHolding, Option.some.injEq] at hStep
          subst hStep
          exact inv_mailbox (inv.keep hHolding) _
  | arrive message =>
      cases hStep
      exact inv_mailbox inv _
  | handle found => exact inv_handle inv careful hStep
  | act => exact inv.act hStep

end IpcServerActor

namespace MonitorBridgeActor

inductive MonitorMessage where
  | newConnection (conn : ConnHandle)
  | clientDisconnected (conn : ConnHandle)
deriving DecidableEq

/-- A new connection belongs to whoever handles the message. -/
def carries : MonitorMessage → Option ConnHandle
  | .newConnection conn => some conn
  | .clientDisconnected _ => none

inductive SocketEvent where
  | shared (event : Acceptor.Event)
  /-- The loop thread announces the connection, which a full mailbox drops. -/
  | enqueue (accepted : Bool)
  /-- The end of a connection, or of an earlier one with its number. -/
  | disconnected (conn : ConnHandle)
  | handle
  | act

def socketStep : SocketEvent → Acceptor MonitorMessage → Option (Acceptor MonitorMessage)
  | .shared event, s => Acceptor.step event s
  | .enqueue accepted, s => match s.holding with
    | none => none
    | some conn =>
        some { s with
          holding := none
          mailbox := if accepted then s.mailbox ++ [.newConnection conn] else s.mailbox }
  | .disconnected conn, s => some { s with mailbox := s.mailbox ++ [.clientDisconnected conn] }
  | .handle, s =>
      if s.phase = .opened ∧ s.work = [] then
        match s.mailbox with
        | [] => none
        | .newConnection conn :: rest => some { s with mailbox := rest, connections := insert conn s.connections }
        | .clientDisconnected conn :: rest =>
            if conn ∈ s.connections then
              some { s with
                mailbox := rest
                connections := s.connections.erase conn
                work := [.unsubscribe, .closeClient]
                workConn := conn }
            else some { s with mailbox := rest }
      else none
  | .act, s => s.act

/-- No connection is dropped on its way. -/
def Careful (s : Acceptor MonitorMessage) : SocketEvent → Prop
  | .shared event => s.Careful carries event
  | .enqueue accepted => accepted = true
  | _ => True

instance (s : Acceptor MonitorMessage) (event : SocketEvent) : Decidable (Careful s event) := by
  cases event <;> unfold Careful <;> infer_instance

abbrev SocketRuns (allowed : Acceptor MonitorMessage → SocketEvent → Prop) : Acceptor MonitorMessage → Prop :=
  Calls socketStep (· = .initial) allowed

variable {s s' : Acceptor MonitorMessage} {conn : ConnHandle} {rest : List MonitorMessage}

/-- From the loop thread into a message. -/
theorem inv_enqueue (inv : s.Inv carries) (hHolding : s.holding = some conn) :
    ({ s with holding := none, mailbox := s.mailbox ++ [.newConnection conn] } : Acceptor MonitorMessage).Inv
      carries := by
  have hOpened : s.phase = .opened := by
    by_contra h
    rw [(inv.quiet h).1] at hHolding
    cases hHolding
  refine ⟨inv.claimed.congr fun l => ?_, fun h => absurd hOpened h, inv.forgotten, inv.stale, inv.server, inv.kept,
    inv.plan, nofun⟩
  refine (Acceptor.claims_of_opened (by exact hOpened) l).trans ?_
  rw [Acceptor.claims_of_opened hOpened, List.filterMap_append,
    show [MonitorMessage.newConnection conn].filterMap carries = [conn] from rfl]
  by_cases hl : l = conn
  · subst hl
    simp [Acceptor.claimsOf, hHolding, Acceptor.plan]
    omega
  · simp [Acceptor.claimsOf, hHolding, Acceptor.plan, Ne.symm hl]

/-- From a message into the set. -/
theorem inv_newConnection (inv : s.Inv carries) (hOpened : s.phase = .opened) (hIdle : s.work = [])
    (hMailbox : s.mailbox = .newConnection conn :: rest) :
    ({ s with mailbox := rest, connections := insert conn s.connections } : Acceptor MonitorMessage).Inv
      carries := by
  have hPlan : s.plan = [] := by rw [Acceptor.plan, hIdle, List.filter_nil]
  have hCarried : s.mailbox.filterMap carries = conn :: rest.filterMap carries := by
    rw [hMailbox]
    rfl
  have hNew : conn ∉ s.connections := by
    intro hMem
    have hClaim := inv.claimed.le_one conn
    rw [Acceptor.claims_of_opened hOpened, hCarried] at hClaim
    simp [Acceptor.claimsOf, hMem, hPlan] at hClaim
    omega
  refine ⟨inv.claimed.congr fun l => ?_, fun h => absurd hOpened h, ?_, inv.stale, inv.server,
    fun h => Finset.mem_insert_of_mem (inv.kept h), inv.plan, inv.apart⟩
  · have hPlan' : ({ s with mailbox := rest, connections := insert conn s.connections } : Acceptor MonitorMessage).plan
        = [] := hPlan
    refine (Acceptor.claims_of_opened (by exact hOpened) l).trans ?_
    rw [Acceptor.claims_of_opened hOpened, hCarried, hPlan, hPlan']
    by_cases hl : l = conn
    · subst hl
      simp [Acceptor.claimsOf, hNew]
      omega
    · simp [Acceptor.claimsOf, hl, Ne.symm hl]
  · rintro (h | h) <;> cases hOpened.symm.trans h

/-- From the set to the handler that closes it. -/
theorem inv_clientDisconnected (inv : s.Inv carries) (hOpened : s.phase = .opened) (hIdle : s.work = [])
    (hMailbox : s.mailbox = .clientDisconnected conn :: rest) (hMem : conn ∈ s.connections) :
    ({ s with
        mailbox := rest
        connections := s.connections.erase conn
        work := [.unsubscribe, .closeClient]
        workConn := conn } : Acceptor MonitorMessage).Inv carries := by
  have hPlan : s.plan = [] := by rw [Acceptor.plan, hIdle, List.filter_nil]
  have hCarried : s.mailbox.filterMap carries = rest.filterMap carries := by
    rw [hMailbox]
    rfl
  refine ⟨inv.claimed.congr fun l => ?_, fun h => absurd hOpened h, ?_, inv.stale, inv.server,
    by simp, by simp [Acceptor.plan], by simp [Acceptor.plan]⟩
  · have hPlan' : ({ s with
        mailbox := rest
        connections := s.connections.erase conn
        work := [.unsubscribe, .closeClient]
        workConn := conn } : Acceptor MonitorMessage).plan = [.closeClient] := rfl
    refine (Acceptor.claims_of_opened (by exact hOpened) l).trans ?_
    rw [Acceptor.claims_of_opened hOpened, hCarried, hPlan, hPlan']
    by_cases hl : l = conn
    · subst hl
      simp [Acceptor.claimsOf, hMem]
    · simp [Acceptor.claimsOf, hl, Ne.symm hl]
  · rintro (h | h) <;> cases hOpened.symm.trans h

theorem inv_step {event : SocketEvent} (inv : s.Inv carries) (careful : Careful s event)
    (hStep : socketStep event s = some s') : s'.Inv carries := by
  cases event with
  | shared event => exact inv.step careful hStep
  | enqueue accepted =>
      cases hHolding : s.holding with
      | none => simp [socketStep, hHolding] at hStep
      | some conn =>
          have hAccepted : accepted = true := careful
          simp only [socketStep, hHolding, hAccepted, if_true, Option.some.injEq] at hStep
          subst hStep
          exact inv_enqueue inv hHolding
  | disconnected conn =>
      cases hStep
      have hSame : (s.mailbox ++ [MonitorMessage.clientDisconnected conn]).filterMap carries = s.mailbox.filterMap carries := by
        rw [List.filterMap_append]
        exact List.append_nil _
      refine ⟨inv.claimed.congr fun l => ?_, fun h => ?_, inv.forgotten, inv.stale, inv.server, inv.kept, inv.plan,
        inv.apart⟩
      · rw [Acceptor.claims, hSame]
        rfl
      · rw [hSame]
        exact inv.quiet h
  | handle =>
      obtain ⟨⟨hOpened, hIdle⟩, hAfter⟩ := Option.ite_none_right_eq_some.mp hStep
      cases hMailbox : s.mailbox with
      | nil => simp [hMailbox] at hAfter
      | cons message rest =>
          rw [hMailbox] at hAfter
          cases message with
          | newConnection conn =>
              cases hAfter
              exact inv_newConnection inv hOpened hIdle hMailbox
          | clientDisconnected conn =>
              by_cases hMem : conn ∈ s.connections
              · simp only [if_pos hMem, Option.some.injEq] at hAfter
                subst hAfter
                exact inv_clientDisconnected inv hOpened hIdle hMailbox hMem
              · -- a second message for the same connection, or for one that was closed before
                simp only [if_neg hMem, Option.some.injEq] at hAfter
                subst hAfter
                have hSame : rest.filterMap carries = s.mailbox.filterMap carries := by
                  rw [hMailbox]
                  rfl
                refine ⟨inv.claimed.congr fun l => ?_, fun h => absurd hOpened h, inv.forgotten, inv.stale,
                  inv.server, inv.kept, inv.plan, inv.apart⟩
                rw [Acceptor.claims, hSame]
                rfl
  | act => exact inv.act hStep

end MonitorBridgeActor

/-- In every run that keeps to what is said of both actors, every descriptor that accept returned
is closed by the actor once, at the latest when the actor is closed, and no other descriptor is. -/
theorem closedOnce {clients : Acceptor (IpcServerActor.IpcMessage Unit)}
    {monitors : Acceptor MonitorBridgeActor.MonitorMessage}
    (run : IpcServerActor.SocketRuns IpcServerActor.Careful clients)
    (run' : MonitorBridgeActor.SocketRuns MonitorBridgeActor.Careful monitors) :
    clients.ClosedOnce ∧ monitors.ClosedOnce := by
  constructor
  · have inv : clients.Inv IpcServerActor.carries := by
      refine Calls.invariant ?_ (fun s event s' _ inv careful hStep => IpcServerActor.inv_step inv careful hStep) run
      rintro s rfl
      exact Acceptor.Inv.initial
    exact inv.ends_once
  · have inv : monitors.Inv MonitorBridgeActor.carries := by
      refine Calls.invariant ?_ (fun s event s' _ inv careful hStep => MonitorBridgeActor.inv_step inv careful hStep)
        run'
      rintro s rfl
      exact Acceptor.Inv.initial
    exact inv.ends_once

section Runs

/-- A client of `ipc_server` goes away, another one is answered, and the actor is closed while
a third one is there. -/
def afterClients : Acceptor (IpcServerActor.IpcMessage Unit) :=
  (Calls.replay IpcServerActor.socketStep IpcServerActor.Careful .initial
    [.shared (.start 4), .shared (.accept 5), .insert true, .handle .error, .arrive (.dataReceived 5),
      .handle .endOfStream, .act, .act, .act, .shared (.accept 5), .insert true, .handle .error,
      .arrive (.cmdResponse ⟨5, [], true⟩ ()), .handle .error, .act, .act, .act, .act, .shared (.accept 5),
      .insert false, .shared .close, .shared (.closeNext 5), .shared .clear, .shared .shutdown]).get
        (by decide +kernel)

/-- A client of `monitor_bridge` goes away twice, and the actor is closed and opened again. -/
def afterMonitors : Acceptor MonitorBridgeActor.MonitorMessage :=
  (Calls.replay MonitorBridgeActor.socketStep MonitorBridgeActor.Careful .initial
    [.shared (.start 4), .shared (.accept 5), .enqueue true, .handle, .disconnected 5, .disconnected 5, .handle,
      .act, .act, .handle, .shared (.accept 6), .enqueue true, .handle, .shared .close, .shared (.closeNext 6),
      .shared .clear, .shared .shutdown, .shared (.start 4)]).get (by decide +kernel)

theorem closedOnce_afterClients : afterClients.ClosedOnce ∧ afterMonitors.ClosedOnce :=
  closedOnce (.of_replay (.start rfl) (Option.some_get _).symm)
    (.of_replay (.start rfl) (Option.some_get _).symm)

/-- The mailbox of `monitor_bridge` is full when a client connects. -/
def afterDropped : Acceptor MonitorBridgeActor.MonitorMessage :=
  (Calls.replay MonitorBridgeActor.socketStep anyCall .initial
    [.shared (.start 4), .shared (.accept 5), .enqueue false, .shared .close, .shared .clear,
      .shared .shutdown]).get (by decide +kernel)

/-- The connection of a response is closed already. -/
def afterTwoResponses : Acceptor (IpcServerActor.IpcMessage Unit) :=
  (Calls.replay IpcServerActor.socketStep anyCall .initial
    [.shared (.start 4), .shared (.accept 5), .insert true, .handle .error, .arrive (.cmdResponse ⟨5, [], true⟩ ()),
      .arrive (.cmdResponse ⟨5, [], true⟩ ()), .handle .error, .act, .act, .act, .act, .handle .error, .act, .act,
      .act, .act]).get (by decide +kernel)

theorem not_closedOnce_afterDropped :
    (MonitorBridgeActor.SocketRuns anyCall afterDropped ∧ ¬afterDropped.ClosedOnce) ∧
      IpcServerActor.SocketRuns anyCall afterTwoResponses ∧ ¬afterTwoResponses.ClosedOnce := by
  refine ⟨⟨.of_replay (.start rfl) (Option.some_get _).symm, fun closed => ?_⟩,
    .of_replay (.start rfl) (Option.some_get _).symm, fun closed => ?_⟩
  · have hOnce := closed.atLatest (by decide +kernel) 1 (by decide +kernel)
    have hNever : afterDropped.own.ended.count 1 = 0 := by decide +kernel
    omega
  · have hStray : afterTwoResponses.own.strays = 1 := by decide +kernel
    have hNone := closed.own
    omega

end Runs

end Service
