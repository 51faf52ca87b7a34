import V2Engine.Lifetime.Claims
import V2Engine.Service.IpcServerActor
import Mathlib.Data.Finset.Basic

/-! What the two actors with a listening socket have in common: the accept on the loop thread,
`open`, `close` and the destructor (ipc_server_actor.cpp, monitor_bridge_actor.cpp and
infra/transport/uds/uds_server.cpp). `β` are the messages of the actor. -/
namespace Service

open Lifetime

/-- `close` and the destructor close one connection after the other, then the listener. -/
inductive Phase where
  | opened
  | closing
  | shutting
  | closed
deriving DecidableEq, Repr

structure Acceptor (β : Type) where
  /-- The descriptors that this actor opened, by number. -/
  own : Registry ConnHandle Unit
  /-- The numbers of descriptors that belong to others in the process. -/
  elsewhere : ConnHandle → Bool
  phase : Phase
  /-- `serverFd_`, which a failed `start` leaves on a number that it has closed (`stale`). -/
  server : Option ConnHandle
  stale : Bool
  /-- The loop thread has accepted a connection and done nothing with it yet. -/
  holding : Option ConnHandle
  /-- `connections_`. -/
  connections : Finset ConnHandle
  /-- Those that the loop of `unsubscribeAll` has not come to. -/
  leaving : Finset ConnHandle
  mailbox : List β
  work : List IpcServerActor.Action
  workConn : ConnHandle

namespace Acceptor

variable {β : Type}

def initial : Acceptor β where
  own := .empty
  elsewhere := fun _ => false
  phase := .closed
  server := none
  stale := false
  holding := none
  connections := ∅
  leaving := ∅
  mailbox := []
  work := []
  workConn := 0

/-- The kernel gives out the number of no open descriptor. -/
def Free (s : Acceptor β) (conn : ConnHandle) : Prop := s.own.find conn = none ∧ s.elsewhere conn = false

instance (s : Acceptor β) (conn : ConnHandle) : Decidable (s.Free conn) := inferInstanceAs (Decidable (_ ∧ _))

/-- `::close` on a number, whoever the descriptor belongs to. -/
def closeFd (s : Acceptor β) (conn : ConnHandle) : Acceptor β :=
  { s with own := s.own.ends (fun _ => true) conn, elsewhere := Function.update s.elsewhere conn false }

inductive Event where
  | accept (conn : ConnHandle)
  | openElsewhere (conn : ConnHandle)
  | closeElsewhere (conn : ConnHandle)
  /-- `open`, when `start` has a socket with this number. -/
  | start (conn : ConnHandle)
  /-- `start` gets no socket, or cannot bind it or listen on it. -/
  | startFails (conn : Option ConnHandle)
  | close
  | closeNext (conn : ConnHandle)
  | clear
  | shutdown
  | destroy
  /-- A message is drained to the dead letters, or comes while the actor is not open. -/
  | discard

def step : Event → Acceptor β → Option (Acceptor β)
  | .accept conn, s =>
      if s.server.isSome ∧ s.stale = false ∧ s.holding = none ∧ s.Free conn then
        some { s with own := s.own.begins conn (), holding := some conn }
      else none
  | .openElsewhere conn, s =>
      if s.Free conn then some { s with elsewhere := Function.update s.elsewhere conn true } else none
  | .closeElsewhere conn, s =>
      if s.elsewhere conn then some { s with elsewhere := Function.update s.elsewhere conn false } else none
  | .start conn, s =>
      if s.phase = .closed ∧ s.Free conn then
        some { s with own := s.own.begins conn (), server := some conn, stale := false, phase := .opened }
      else none
  | .startFails none, s =>
      if s.phase = .closed then some { s with server := none, stale := false } else none
  | .startFails (some conn), s =>
      if s.phase = .closed ∧ s.Free conn then
        some { s with own := (s.own.begins conn ()).ends (fun _ => true) conn, server := some conn, stale := true }
      else none
  | .close, s =>
      if s.phase = .opened ∧ s.work = [] then some { s with phase := .closing, leaving := s.connections } else none
  | .closeNext conn, s =>
      if s.phase = .closing ∧ conn ∈ s.leaving then some (({ s with leaving := s.leaving.erase conn }).closeFd conn)
      else none
  | .clear, s =>
      if s.phase = .closing ∧ s.leaving = ∅ then some { s with connections := ∅, phase := .shutting } else none
  | .shutdown, s =>
      if s.phase = .shutting then
        match s.server with
        | none => some { s with phase := .closed }
        | some conn => some (({ s with server := none, stale := false, phase := .closed }).closeFd conn)
      else none
  | .destroy, s =>
      -- the destructor does not look at the state
      if s.work = [] ∧ (s.phase = .opened ∨ s.phase = .closed) then
        some { s with phase := .closing, leaving := s.connections }
      else none
  | .discard, s => match s.mailbox with
    | [] => none
    | _ :: rest => some { s with mailbox := rest }

/-- The next action of the handler that is running. -/
def perform (s : Acceptor β) : IpcServerActor.Action → Acceptor β
  | .sendCmdRequest _ => s
  | .send _ => s
  | .unsubscribe => s
  | .closeClient => s.closeFd s.workConn
  | .erase => { s with connections := s.connections.erase s.workConn }

def act (s : Acceptor β) : Option (Acceptor β) :=
  match s.work with
  | [] => none
  | action :: rest => some (({ s with work := rest }).perform action)

/-- All that the actor opened is closed by it once, at the latest when the actor is closed, and
it closes nothing else. -/
structure ClosedOnce (s : Acceptor β) : Prop where
  own : s.own.strays = 0
  once : ∀ n < s.own.born, s.own.ended.count n ≤ 1
  atLatest : s.phase = .closed → ∀ n < s.own.born, s.own.ended.count n = 1

section Claims

variable (carries : β → Option ConnHandle)

/-- What is left of the handler that closes or forgets a connection. -/
def plan (s : Acceptor β) : List IpcServerActor.Action :=
  s.work.filter fun action => action = .closeClient ∨ action = .erase

/-- The connections that `close` is going to close. -/
def pool (s : Acceptor β) : Finset ConnHandle :=
  match s.phase with
  | .opened => s.connections
  | .closing => s.leaving
  | .shutting => ∅
  | .closed => ∅

/-- How often a number is going to be closed: as a connection that is kept (and not one that is
only forgotten any more), by the handler that is running, as the listener, or because of what
the loop thread and the messages carry. -/
def claimsOf (kept : Finset ConnHandle) (plan : List IpcServerActor.Action) (workConn : ConnHandle)
    (server : Option ConnHandle) (stale : Bool) (holding : Option ConnHandle) (carried : List ConnHandle)
    (conn : ConnHandle) : Nat :=
  (if conn ∈ kept ∧ ¬(plan = [.erase] ∧ workConn = conn) then 1 else 0)
    + (if plan = [.closeClient] ∧ workConn = conn then 1 else 0)
    + (if server = some conn ∧ stale = false then 1 else 0)
    + (if holding = some conn then 1 else 0)
    + carried.count conn

def claims (s : Acceptor β) : ConnHandle → Nat :=
  claimsOf s.pool s.plan s.workConn s.server s.stale s.holding (s.mailbox.filterMap carries)

structure Inv (s : Acceptor β) : Prop where
  claimed : s.own.Claimed (s.claims carries)
  /-- Nothing new comes, and no handler runs, while the actor is not open. -/
  quiet : s.phase ≠ .opened → s.holding = none ∧ s.work = [] ∧ s.mailbox.filterMap carries = []
  forgotten : s.phase = .shutting ∨ s.phase = .closed → s.connections = ∅
  stale : s.stale = true → s.phase = .closed
  server : s.phase = .closed → s.stale = false → s.server = none
  /-- A connection that a handler forgets is kept until then. -/
  kept : .erase ∈ s.work → s.workConn ∈ s.connections
  plan : s.plan ∈ [[], [.closeClient, .erase], [.erase], [.erase, .closeClient], [.closeClient]]
  /-- The number of a connection that is only to be forgotten is not that of a new one. -/
  apart : s.plan = [.erase] → s.holding ≠ some s.workConn

/-- No connection is accepted but while the actor is open, nor as one that a handler is about
to forget; the actor is closed when nothing is carried, and nothing that is carried gets lost. -/
def Careful (s : Acceptor β) : Event → Prop
  | .accept conn => s.phase = .opened ∧ ¬(s.plan = [.erase] ∧ s.workConn = conn)
  | .close => s.holding = none ∧ s.mailbox.filterMap carries = []
  | .destroy => s.holding = none ∧ s.mailbox.filterMap carries = [] ∧ s.stale = false
  | .discard => ∀ message ∈ s.mailbox.head?, carries message = none
  | _ => True

instance (s : Acceptor β) (event : Event) : Decidable (s.Careful carries event) := by
  cases event <;> unfold Careful <;> infer_instance

variable {carries} {s s' : Acceptor β} {conn : ConnHandle} {action : IpcServerActor.Action}
  {rest : List IpcServerActor.Action}

theorem Inv.initial : (Acceptor.initial : Acceptor β).Inv carries where
  claimed := Registry.Claimed.empty.congr fun _ => rfl
  quiet := fun _ => ⟨rfl, rfl, rfl⟩
  forgotten := fun _ => rfl
  stale := nofun
  server := fun _ _ => rfl
  kept := nofun
  plan := List.mem_cons_self
  apart := nofun

/-- A number that the kernel gives out is claimed by nobody. -/
theorem Inv.unclaimed (inv : s.Inv carries) (hFree : s.Free conn) : s.claims carries conn = 0 :=
  inv.claimed.eq_zero hFree.1

theorem Inv.accept (inv : s.Inv carries) (careful : s.Careful carries (.accept conn))
    (hStep : Acceptor.step (.accept conn) s = some s') : s'.Inv carries := by
  obtain ⟨⟨hServer, hFresh, hHolding, hFree⟩, hAfter⟩ := Option.ite_none_right_eq_some.mp hStep
  cases hAfter
  refine ⟨?_, fun h => absurd careful.1 h, inv.forgotten, inv.stale, inv.server, inv.kept, inv.plan, ?_⟩
  · refine inv.claimed.begins hFree.1 fun l => ?_
    simp only [claims, claimsOf, hHolding, pool, Acceptor.plan, Option.some.injEq, eq_comm (a := conn)]
    simp
    omega
  · intro hPlan hSame
    exact careful.2 ⟨hPlan, (Option.some.inj hSame).symm⟩

theorem Inv.openElsewhere (inv : s.Inv carries) (elsewhere : ConnHandle → Bool) :
    ({ s with elsewhere := elsewhere } : Acceptor β).Inv carries :=
  ⟨inv.claimed, inv.quiet, inv.forgotten, inv.stale, inv.server, inv.kept, inv.plan, inv.apart⟩

/-- While the actor is closed nothing is claimed but through a listener that is still there. -/
theorem Inv.claims_of_closed (inv : s.Inv carries) (hClosed : s.phase = .closed) (l : ConnHandle) :
    s.claims carries l = 0 := by
  obtain ⟨hHolding, hIdle, hNone⟩ := inv.quiet (by simp [hClosed])
  have hServer : ¬(s.server = some l ∧ s.stale = false) := by
    rintro ⟨hSome, hFresh⟩
    rw [inv.server hClosed hFresh] at hSome
    cases hSome
  simp [claims, claimsOf, hHolding, pool, Acceptor.plan, hIdle, hClosed, hServer, hNone]

theorem Inv.start (inv : s.Inv carries) (hStep : Acceptor.step (.start conn) s = some s') : s'.Inv carries := by
  obtain ⟨⟨hClosed, hFree⟩, hAfter⟩ := Option.ite_none_right_eq_some.mp hStep
  cases hAfter
  obtain ⟨hHolding, hIdle, hNone⟩ := inv.quiet (by simp [hClosed])
  have hForgotten := inv.forgotten (.inr hClosed)
  refine ⟨?_, fun h => absurd rfl h, ?_, nofun, nofun, inv.kept, inv.plan, inv.apart⟩
  · refine inv.claimed.begins hFree.1 fun l => ?_
    rw [inv.claims_of_closed hClosed l]
    simp only [claims, claimsOf, hHolding, pool, Acceptor.plan, hIdle, hForgotten, hNone, Option.some.injEq,
      eq_comm (a := conn)]
    simp
  · rintro (h | h) <;> cases h

theorem Inv.startFails {failed : Option ConnHandle} (inv : s.Inv carries)
    (hStep : Acceptor.step (.startFails failed) s = some s') : s'.Inv carries := by
  cases failed with
  | none =>
      obtain ⟨hClosed, hAfter⟩ := Option.ite_none_right_eq_some.mp hStep
      cases hAfter
      refine ⟨inv.claimed.congr fun l => ?_, inv.quiet, inv.forgotten, nofun, fun _ _ => rfl, inv.kept, inv.plan,
        inv.apart⟩
      obtain ⟨hHolding, hIdle, hNone⟩ := inv.quiet (by simp [hClosed])
      rw [inv.claims_of_closed hClosed l]
      simp [claims, claimsOf, hHolding, pool, Acceptor.plan, hIdle, hClosed, hNone]
  | some conn =>
      obtain ⟨⟨hClosed, hFree⟩, hAfter⟩ := Option.ite_none_right_eq_some.mp hStep
      cases hAfter
      obtain ⟨hHolding, hIdle, hNone⟩ := inv.quiet (by simp [hClosed])
      refine ⟨?_, inv.quiet, inv.forgotten, fun _ => hClosed, nofun, inv.kept, inv.plan, inv.apart⟩
      -- the socket is claimed by `start` for as long as it takes to close it
      have begun : (s.own.begins conn ()).Claimed fun l => s.claims carries l + if l = conn then 1 else 0 :=
        inv.claimed.begins hFree.1 fun _ => rfl
      refine begun.ends (by simp) fun l => ?_
      rw [inv.claims_of_closed hClosed l]
      simp [claims, claimsOf, hHolding, pool, Acceptor.plan, hIdle, hClosed, hNone]

theorem Inv.close (inv : s.Inv carries) (hIdle : s.work = []) (hHolding : s.holding = none)
    (hNone : s.mailbox.filterMap carries = []) (hFresh : s.stale = false)
    (hPhase : s.phase = .opened ∨ s.phase = .closed) :
    ({ s with phase := .closing, leaving := s.connections } : Acceptor β).Inv carries := by
  refine ⟨inv.claimed.congr fun l => ?_, fun _ => ⟨hHolding, hIdle, hNone⟩, ?_, ?_, nofun, inv.kept, inv.plan, inv.apart⟩
  · have hPool : s.pool = s.connections := by
      rcases hPhase with h | h
      · rw [pool, h]
      · rw [pool, h, inv.forgotten (.inr h)]
    simp only [claims, claimsOf, hPool]
    rfl
  · rintro (h | h) <;> cases h
  · intro h
    cases hFresh.symm.trans h

theorem Inv.closeNext (inv : s.Inv carries) (hStep : Acceptor.step (.closeNext conn) s = some s') :
    s'.Inv carries := by
  obtain ⟨⟨hClosing, hMem⟩, hAfter⟩ := Option.ite_none_right_eq_some.mp hStep
  cases hAfter
  obtain ⟨hHolding, hIdle, hNone⟩ := inv.quiet (by simp [hClosing])
  refine ⟨?_, inv.quiet, inv.forgotten, inv.stale, inv.server, inv.kept, inv.plan, inv.apart⟩
  refine inv.claimed.ends ?_ fun l => ?_
  · apply Nat.pos_of_ne_zero
    simp [claims, claimsOf, pool, hClosing, hMem, Acceptor.plan, hIdle]
  · by_cases hl : l = conn
    · subst hl
      simp [claims, claimsOf, pool, hClosing, hMem, Acceptor.plan, hIdle, closeFd]
      omega
    · simp [claims, claimsOf, pool, hClosing, Acceptor.plan, hIdle, closeFd, hl]

theorem Inv.clear (inv : s.Inv carries) (hStep : Acceptor.step .clear s = some s') : s'.Inv carries := by
  obtain ⟨⟨hClosing, hAll⟩, hAfter⟩ := Option.ite_none_right_eq_some.mp hStep
  cases hAfter
  obtain ⟨hHolding, hIdle, hNone⟩ := inv.quiet (by simp [hClosing])
  refine ⟨inv.claimed.congr fun l => ?_, fun _ => ⟨hHolding, hIdle, hNone⟩, fun _ => rfl, ?_, nofun, ?_, inv.plan,
    inv.apart⟩
  · simp [claims, claimsOf, pool, hClosing, hAll, Acceptor.plan]
  · intro h
    cases hClosing.symm.trans (inv.stale h)
  · intro h
    rw [hIdle] at h
    cases h

theorem Inv.shutdown (inv : s.Inv carries) (hStep : Acceptor.step .shutdown s = some s') : s'.Inv carries := by
  obtain ⟨hShutting, hAfter⟩ := Option.ite_none_right_eq_some.mp hStep
  obtain ⟨hHolding, hIdle, hNone⟩ := inv.quiet (by simp [hShutting])
  have hFresh : s.stale = false := by
    by_contra h
    cases hShutting.symm.trans (inv.stale (by simpa using h))
  cases hServer : s.server with
  | none =>
      rw [hServer] at hAfter
      cases hAfter
      refine ⟨inv.claimed.congr fun l => ?_, fun _ => ⟨hHolding, hIdle, hNone⟩, fun _ => inv.forgotten (.inl hShutting),
        fun _ => rfl, fun _ _ => rfl, inv.kept, inv.plan, inv.apart⟩
      simp [claims, claimsOf, pool, hShutting, Acceptor.plan, hServer]
  | some conn =>
      rw [hServer] at hAfter
      cases hAfter
      refine ⟨?_, fun _ => ⟨hHolding, hIdle, hNone⟩, fun _ => inv.forgotten (.inl hShutting), fun _ => rfl,
        fun _ _ => rfl, inv.kept, inv.plan, inv.apart⟩
      refine inv.claimed.ends ?_ fun l => ?_
      · apply Nat.pos_of_ne_zero
        simp [claims, claimsOf, hServer, hFresh]
      · by_cases hl : l = conn
        · subst hl
          simp [claims, claimsOf, pool, hShutting, Acceptor.plan, hIdle, closeFd, hServer, hFresh, hHolding, hNone]
        · simp [claims, claimsOf, pool, hShutting, Acceptor.plan, hIdle, closeFd, hServer, hFresh, hl, Ne.symm hl]

theorem Inv.discard (inv : s.Inv carries) (careful : s.Careful carries .discard)
    (hStep : Acceptor.step .discard s = some s') : s'.Inv carries := by
  cases hMailbox : s.mailbox with
  | nil => simp [Acceptor.step, hMailbox] at hStep
  | cons message rest =>
      simp only [Acceptor.step, hMailbox, Option.some.injEq] at hStep
      subst hStep
      have hCarries : carries message = none := careful message (by rw [hMailbox]; rfl)
      have hSame : s.mailbox.filterMap carries = rest.filterMap carries := by
        rw [hMailbox, List.filterMap_cons_none hCarries]
      refine ⟨inv.claimed.congr fun l => ?_, fun h => ?_, inv.forgotten, inv.stale, inv.server, inv.kept, inv.plan,
        inv.apart⟩
      · simp only [claims, claimsOf, hSame]
        rfl
      · rw [← hSame]
        exact inv.quiet h

/-- The shared part of both actors keeps the claims, when it is used with care. -/
theorem Inv.step {event : Event} (inv : s.Inv carries) (careful : s.Careful carries event)
    (hStep : Acceptor.step event s = some s') : s'.Inv carries := by
  cases event with
  | accept conn => exact inv.accept careful hStep
  | openElsewhere conn =>
      obtain ⟨_, hAfter⟩ := Option.ite_none_right_eq_some.mp hStep
      cases hAfter
      exact inv.openElsewhere _
  | closeElsewhere conn =>
      obtain ⟨_, hAfter⟩ := Option.ite_none_right_eq_some.mp hStep
      cases hAfter
      exact inv.openElsewhere _
  | start conn => exact inv.start hStep
  | startFails failed => exact inv.startFails hStep
  | close =>
      obtain ⟨⟨hOpened, hIdle⟩, hAfter⟩ := Option.ite_none_right_eq_some.mp hStep
      cases hAfter
      have hFresh : s.stale = false := by
        by_contra h
        cases hOpened.symm.trans (inv.stale (by simpa using h))
      exact inv.close hIdle careful.1 careful.2 hFresh (.inl hOpened)
  | closeNext conn => exact inv.closeNext hStep
  | clear => exact inv.clear hStep
  | shutdown => exact inv.shutdown hStep
  | destroy =>
      obtain ⟨⟨hIdle, hPhase⟩, hAfter⟩ := Option.ite_none_right_eq_some.mp hStep
      cases hAfter
      exact inv.close hIdle careful.1 careful.2.1 careful.2.2 hPhase
  | discard => exact inv.discard careful hStep

/-- Only an open actor runs a handler. -/
theorem Inv.opened_of_work (inv : s.Inv carries) (hWork : s.work ≠ []) : s.phase = .opened := by
  by_contra h
  exact hWork (inv.quiet h).2.1

theorem plan_cons (hWork : s.work = action :: rest) : s.plan =
    (if action = .closeClient ∨ action = .erase then [action] else [])
      ++ ({ s with work := rest } : Acceptor β).plan := by
  rw [Acceptor.plan, hWork, List.filter_cons, Acceptor.plan]
  split <;> simp_all

/-- What a handler still has to do is left to it when another of its actions is done. -/
theorem Inv.tail (inv : s.Inv carries) (hWork : s.work = action :: rest)
    (hOther : ¬(action = .closeClient ∨ action = .erase)) : ({ s with work := rest } : Acceptor β).Inv carries := by
  have hPlan : s.plan = ({ s with work := rest } : Acceptor β).plan := by
    rw [plan_cons hWork, if_neg hOther, List.nil_append]
  have hOpened : s.phase = .opened := inv.opened_of_work (by rw [hWork]; exact List.cons_ne_nil _ _)
  refine ⟨inv.claimed.congr fun l => ?_, fun h => absurd hOpened h, inv.forgotten, inv.stale, inv.server, ?_, ?_, ?_⟩
  · simp only [claims, claimsOf, ← hPlan]
    rfl
  · intro h
    exact inv.kept (by rw [hWork]; exact List.mem_cons_of_mem _ h)
  · rw [← hPlan]
    exact inv.plan
  · rw [← hPlan]
    exact inv.apart

theorem mem_work_of_mem_plan (h : action ∈ s.plan) : action ∈ s.work := (List.mem_filter.mp h).1

theorem Inv.closeClient (inv : s.Inv carries) (hWork : s.work = .closeClient :: rest) :
    (({ s with work := rest } : Acceptor β).closeFd s.workConn).Inv carries := by
  have hPlan : s.plan = .closeClient :: ({ s with work := rest } : Acceptor β).plan := plan_cons hWork
  have hOpened : s.phase = .opened := inv.opened_of_work (by rw [hWork]; exact List.cons_ne_nil _ _)
  have hPool : s.pool = s.connections := by rw [pool, hOpened]
  have hKept : .erase ∈ rest → s.workConn ∈ s.connections :=
    fun h => inv.kept (by rw [hWork]; exact List.mem_cons_of_mem _ h)
  have hShape := inv.plan
  simp only [hPlan, List.mem_cons, List.cons.injEq, reduceCtorEq, true_and, false_and, or_false, false_or,
    List.not_mem_nil] at hShape
  have hRest : ({ s with work := rest } : Acceptor β).plan ∈ [[], [IpcServerActor.Action.closeClient, .erase],
      [.erase], [.erase, .closeClient], [.closeClient]] := by
    rcases hShape with h | h <;> simp [h]
  have hClaim := inv.claimed.le_one s.workConn
  have hBefore : ∀ plan, s.plan = plan → ∀ l, s.claims carries l = claimsOf s.connections plan s.workConn s.server
      s.stale s.holding (s.mailbox.filterMap carries) l := by
    rintro plan rfl l
    rw [claims, hPool]
  have hAfter : ∀ plan, ({ s with work := rest } : Acceptor β).plan = plan → ∀ l,
      (({ s with work := rest } : Acceptor β).closeFd s.workConn).claims carries l = claimsOf s.connections plan
        s.workConn s.server s.stale s.holding (s.mailbox.filterMap carries) l := by
    rintro plan rfl l
    have hSame : (({ s with work := rest } : Acceptor β).closeFd s.workConn).pool = s.connections := hPool
    rw [claims, hSame]
    rfl
  rcases hShape with hErase | hNil
  · -- the end of the stream: the connection is only to be forgotten now
    have hMem : s.workConn ∈ s.connections :=
      hKept (mem_work_of_mem_plan (s := { s with work := rest }) (by rw [hErase]; exact List.mem_singleton_self _))
    rw [hErase] at hPlan
    rw [hBefore _ hPlan] at hClaim
    refine ⟨inv.claimed.ends ?_ fun l => ?_, fun h => absurd hOpened h, inv.forgotten, inv.stale, inv.server, hKept,
      hRest, fun _ hSame => ?_⟩
    · rw [hBefore _ hPlan]
      apply Nat.pos_of_ne_zero
      simp [claimsOf, hMem]
    · rw [hBefore _ hPlan, hAfter _ hErase]
      by_cases hl : l = s.workConn
      · subst hl
        simp [claimsOf, hMem]
        omega
      · simp [claimsOf, hl, Ne.symm hl]
    · have hHolding : s.holding = some s.workConn := hSame
      simp [claimsOf, hMem, hHolding] at hClaim
      omega
  · rw [hNil] at hPlan
    refine ⟨inv.claimed.ends ?_ fun l => ?_, fun h => absurd hOpened h, inv.forgotten, inv.stale, inv.server, hKept,
      hRest, fun h => ?_⟩
    · rw [hBefore _ hPlan]
      apply Nat.pos_of_ne_zero
      simp [claimsOf]
    · rw [hBefore _ hPlan, hAfter _ hNil]
      by_cases hl : l = s.workConn
      · subst hl
        simp [claimsOf]
        omega
      · simp [claimsOf, hl, Ne.symm hl]
    · cases hNil.symm.trans h

theorem Inv.erase (inv : s.Inv carries) (hWork : s.work = .erase :: rest) :
    ({ s with work := rest, connections := s.connections.erase s.workConn } : Acceptor β).Inv carries := by
  have hPlan : s.plan = .erase :: ({ s with work := rest } : Acceptor β).plan := plan_cons hWork
  have hOpened : s.phase = .opened := inv.opened_of_work (by rw [hWork]; exact List.cons_ne_nil _ _)
  have hMem : s.workConn ∈ s.connections := inv.kept (by rw [hWork]; exact List.mem_cons_self)
  have hShape := inv.plan
  simp only [hPlan, List.mem_cons, List.cons.injEq, reduceCtorEq, true_and, false_and, or_false, false_or,
    List.not_mem_nil] at hShape
  have hRest : ({ s with work := rest } : Acceptor β).plan ∈ [[], [IpcServerActor.Action.closeClient, .erase],
      [.erase], [.erase, .closeClient], [.closeClient]] := by
    rcases hShape with h | h <;> simp [h]
  have hDone : .erase ∉ rest := by
    intro h
    have hIn : .erase ∈ ({ s with work := rest } : Acceptor β).plan := List.mem_filter.mpr ⟨h, by simp⟩
    rcases hShape with h | h <;> simp [h] at hIn
  refine ⟨inv.claimed.congr fun l => ?_, fun h => absurd hOpened h, ?_, inv.stale, inv.server,
    fun h => absurd h hDone, hRest, ?_⟩
  · have hBefore : s.claims carries l = claimsOf s.connections s.plan s.workConn s.server s.stale s.holding
        (s.mailbox.filterMap carries) l := by
      rw [claims, pool, hOpened]
    have hAfter : ({ s with work := rest, connections := s.connections.erase s.workConn } : Acceptor β).claims carries l
        = claimsOf (s.connections.erase s.workConn) ({ s with work := rest } : Acceptor β).plan s.workConn s.server
          s.stale s.holding (s.mailbox.filterMap carries) l := by
      rw [claims, pool, hOpened]
      rfl
    rw [hBefore, hAfter, hPlan]
    by_cases hl : l = s.workConn
    · subst hl
      rcases hShape with h | h <;> simp [claimsOf, h, hMem]
    · rcases hShape with h | h <;> simp [claimsOf, h, hl, Ne.symm hl]
  · rintro (h | h) <;> cases hOpened.symm.trans h
  · intro h
    have hIn : .erase ∈ ({ s with work := rest } : Acceptor β).plan := by
      have hSame : ({ s with work := rest } : Acceptor β).plan = [.erase] := h
      rw [hSame]
      exact List.mem_singleton_self _
    exact absurd (mem_work_of_mem_plan hIn) hDone

theorem Inv.act (inv : s.Inv carries) (hStep : s.act = some s') : s'.Inv carries := by
  cases hWork : s.work with
  | nil => simp [Acceptor.act, hWork] at hStep
  | cons action rest =>
      simp only [Acceptor.act, hWork, Option.some.injEq] at hStep
      subst hStep
      cases action with
      | sendCmdRequest cmd => exact inv.tail hWork (by simp)
      | send result => exact inv.tail hWork (by simp)
      | unsubscribe => exact inv.tail hWork (by simp)
      | closeClient => exact inv.closeClient hWork
      | erase => exact inv.erase hWork

theorem claims_of_opened (hOpened : s.phase = .opened) (l : ConnHandle) :
    s.claims carries l = claimsOf s.connections s.plan s.workConn s.server s.stale s.holding
      (s.mailbox.filterMap carries) l := by
  rw [claims, pool, hOpened]

/-- A handler that closes and forgets a connection begins with one that is kept. -/
theorem Inv.handle {work : List IpcServerActor.Action} (inv : s.Inv carries) (hOpened : s.phase = .opened)
    (hIdle : s.work = [])
    (hPlan : (work.filter fun action => action = .closeClient ∨ action = .erase) ∈
      [[], [IpcServerActor.Action.closeClient, .erase], [.erase, .closeClient]])
    (hKept : .erase ∈ work → conn ∈ s.connections) :
    ({ s with work := work, workConn := conn } : Acceptor β).Inv carries := by
  have hNone : s.plan = [] := by rw [Acceptor.plan, hIdle, List.filter_nil]
  have hPlan' : ({ s with work := work, workConn := conn } : Acceptor β).plan ∈
      [[], [IpcServerActor.Action.closeClient, .erase], [.erase, .closeClient]] := hPlan
  refine ⟨inv.claimed.congr fun l => ?_, fun h => absurd hOpened h, inv.forgotten, inv.stale, inv.server, hKept,
    ?_, ?_⟩
  · have hAfter : ({ s with work := work, workConn := conn } : Acceptor β).claims carries l
        = claimsOf s.connections ({ s with work := work, workConn := conn } : Acceptor β).plan conn s.server s.stale
          s.holding (s.mailbox.filterMap carries) l := by
      rw [claims, pool, hOpened]
    rw [hAfter, claims_of_opened hOpened, hNone]
    simp only [List.mem_cons, List.not_mem_nil, or_false] at hPlan'
    rcases hPlan' with h | h | h <;> simp [claimsOf, h]
  · simp only [List.mem_cons, List.not_mem_nil, or_false] at hPlan'
    rcases hPlan' with h | h | h <;> simp [h]
  · intro h
    rw [h] at hPlan'
    simp at hPlan'

/-- The loop thread's connection goes into the set. -/
theorem Inv.keep (inv : s.Inv carries) (hHolding : s.holding = some conn) :
    ({ s with holding := none, connections := insert conn s.connections } : Acceptor β).Inv carries := by
  have hOpened : s.phase = .opened := by
    by_contra h
    rw [(inv.quiet h).1] at hHolding
    cases hHolding
  have hApart : ¬(s.plan = [.erase] ∧ s.workConn = conn) := by
    rintro ⟨h, rfl⟩
    exact inv.apart h hHolding
  have hNew : conn ∉ s.connections := by
    intro hMem
    have hClaim := inv.claimed.le_one conn
    rw [claims_of_opened hOpened] at hClaim
    simp [claimsOf, hMem, hApart, hHolding] at hClaim
    omega
  refine ⟨inv.claimed.congr fun l => ?_, fun h => absurd hOpened h, ?_, inv.stale, inv.server,
    fun h => Finset.mem_insert_of_mem (inv.kept h), inv.plan, nofun⟩
  · have hAfter : ({ s with holding := none, connections := insert conn s.connections } : Acceptor β).claims carries l
        = claimsOf (insert conn s.connections) s.plan s.workConn s.server s.stale none
          (s.mailbox.filterMap carries) l := by
      rw [claims, pool, hOpened]
      rfl
    rw [hAfter, claims_of_opened hOpened, hHolding]
    by_cases hl : l = conn
    · subst hl
      simp [claimsOf, hNew, hApart]
      omega
    · simp [claimsOf, hl, Ne.symm hl]
  · rintro (h | h) <;> cases hOpened.symm.trans h

theorem Inv.ends_once (inv : s.Inv carries) : s.ClosedOnce where
  own := inv.claimed.strays
  once := by
    intro n hn
    rcases inv.claimed.kept.exactly_once hn with ⟨hNever, _⟩ | ⟨hOnce, _⟩
    · omega
    · omega
  atLatest := fun hClosed _ hn => inv.claimed.ended_once (inv.claims_of_closed hClosed) hn

end Claims

end Acceptor

end Service
