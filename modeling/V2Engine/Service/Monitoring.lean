import V2Engine.Interleaving.Calls
import V2Engine.Interleaving.Channels
import V2Engine.Runtime.ActorRuntime
import V2Engine.Service.CmdActor
import V2Engine.Service.MonitorData
import Mathlib.Data.Finset.Card
import Mathlib.Data.Fintype.Defs

/-! The actors behind the monitor's sockets (service/monitor, service/system_manager and
service/device_manager), and the messages between them. Data is collected while somebody asks
for it: the first client of the bridge makes it subscribe to the monitor, and the monitor's
first subscriber makes it subscribe to the two managers. -/
namespace Service

open Interleaving

/-- The actors by their names, and the threads outside that send them messages. -/
inductive Party where
  | monitorBridge
  | monitor
  | systemManager
  | deviceManager
  | cmd
  | eventLoop
  | timer
  deriving DecidableEq

def Party.all : List Party := [.monitorBridge, .monitor, .systemManager, .deviceManager, .cmd, .eventLoop, .timer]

instance : Fintype Party := ⟨⟨Party.all, by decide⟩, fun party => by cases party <;> decide⟩

inductive PipelineMessage (F : Type) where
  | monitorNewConnection (conn : ConnHandle)
  | monitorClientDisconnected (conn : ConnHandle)
  | monitorSubscribe (subscriber : Party)
  | monitorUnsubscribe (subscriber : Party)
  | monitorSnapshotUpdate (snapshot : MonitorSnapshot F)
  | sysDataTick
  | sysDataSubscribe (subscriber : Party)
  | sysDataUnsubscribe (subscriber : Party)
  | sysDataUpdate (data : SystemResources F)
  | pmuDataTick
  | pmuDataSubscribe (subscriber : Party)
  | pmuDataUnsubscribe (subscriber : Party)
  | pmuDataUpdate (data : PmuData F)
  deriving DecidableEq

/-- The messages that a handler sends, in their order. -/
abbrev Sent (F : Type) := List (Party × PipelineMessage F)

/-- What a handler reads: the clock, the actors in the registry, and what the hardware answers,
if it does. -/
structure Reading (F : Type) where
  nowMs : UInt64
  actors : List ActorInfo
  sys : Option (SystemResources F)
  pmu : Option (PmuData F)

/-- A loop over an unordered set of names. -/
def forEach {F : Type} (subscribers : Finset Party) (message : PipelineMessage F) : Sent F :=
  (Party.all.filter (· ∈ subscribers)).map fun subscriber => (subscriber, message)

section Empty

variable {F : Type} [Zero F]

def SystemResources.empty : SystemResources F := ⟨0, 0, 0, 0, 0, 0, 0, 0, 0, 0, 0, 0, 0⟩

def PmuData.empty : PmuData F := ⟨0, 0, 0, 0, 0, 0, 0, 0, 0⟩

end Empty

structure MonitorBridgeActor where
  state : ActorState
  connections : Finset ConnHandle

structure MonitorActor (F : Type) where
  state : ActorState
  subscribers : Finset Party
  dataSubscribed : Bool
  sysResCache : SystemResources F
  pmuDataCache : PmuData F

/-- A manager, which hands out what it has collected last. -/
structure ManagerActor (D : Type) where
  state : ActorState
  subscribers : Finset Party
  latest : D

/-- What the managers have handlers for. -/
inductive ManagerMessage where
  | tick
  | subscribe (subscriber : Party)
  | unsubscribe (subscriber : Party)
  | unknown

variable {F : Type} [Zero F]

namespace MonitorBridgeActor

def handleNewConnection (actor : MonitorBridgeActor) (conn : ConnHandle) : MonitorBridgeActor × Sent F :=
  let connections := insert conn actor.connections
  ({ actor with connections := connections },
    if connections.card = 1 then [(.monitor, .monitorSubscribe .monitorBridge)] else [])

def handleClientDisconnected (actor : MonitorBridgeActor) (conn : ConnHandle) : MonitorBridgeActor × Sent F :=
  if conn ∈ actor.connections then
    let connections := actor.connections.erase conn
    ({ actor with connections := connections },
      if connections = ∅ then [(.monitor, .monitorUnsubscribe .monitorBridge)] else [])
  else (actor, [])

/-- A snapshot goes to the sockets of the clients. -/
def handle (actor : MonitorBridgeActor) (message : PipelineMessage F) : MonitorBridgeActor × Sent F :=
  if actor.state = .opened then
    match message with
    | .monitorNewConnection conn => actor.handleNewConnection conn
    | .monitorClientDisconnected conn => actor.handleClientDisconnected conn
    | _ => (actor, [])
  else (actor, [])

/-- `open`, in which the server may fail to `start`. -/
def opens (actor : MonitorBridgeActor) (started : Bool) : MonitorBridgeActor :=
  { actor with state := if started then .opened else .closed }

def close (actor : MonitorBridgeActor) : MonitorBridgeActor :=
  if actor.state = .closed then actor else ⟨.closed, ∅⟩

end MonitorBridgeActor

namespace MonitorActor

def subscribeToData (actor : MonitorActor F) : MonitorActor F × Sent F :=
  ({ actor with dataSubscribed := true },
    [(.systemManager, .sysDataSubscribe .monitor), (.deviceManager, .pmuDataSubscribe .monitor)])

def unsubscribeFromData (actor : MonitorActor F) : MonitorActor F × Sent F :=
  ({ actor with dataSubscribed := false, sysResCache := .empty, pmuDataCache := .empty },
    [(.systemManager, .sysDataUnsubscribe .monitor), (.deviceManager, .pmuDataUnsubscribe .monitor)])

def tryPublish (actor : MonitorActor F) (reading : Reading F) : MonitorActor F × Sent F :=
  (actor, forEach actor.subscribers
    (.monitorSnapshotUpdate ⟨reading.nowMs, 0, reading.actors, actor.sysResCache, actor.pmuDataCache⟩))

def handleSubscribe (actor : MonitorActor F) (subscriber : Party) : MonitorActor F × Sent F :=
  let actor := { actor with subscribers := insert subscriber actor.subscribers }
  if actor.dataSubscribed = false then actor.subscribeToData else (actor, [])

def handleUnsubscribe (actor : MonitorActor F) (subscriber : Party) : MonitorActor F × Sent F :=
  let actor := { actor with subscribers := actor.subscribers.erase subscriber }
  if actor.subscribers = ∅ ∧ actor.dataSubscribed = true then actor.unsubscribeFromData else (actor, [])

def handle (actor : MonitorActor F) (reading : Reading F) (message : PipelineMessage F) : MonitorActor F × Sent F :=
  if actor.state = .opened then
    match message with
    | .monitorSubscribe subscriber => actor.handleSubscribe subscriber
    | .monitorUnsubscribe subscriber => actor.handleUnsubscribe subscriber
    | .sysDataUpdate data => ({ actor with sysResCache := data }).tryPublish reading
    | .pmuDataUpdate data => ({ actor with pmuDataCache := data }).tryPublish reading
    | _ => (actor, [])
  else (actor, [])

def opens (actor : MonitorActor F) : MonitorActor F := { actor with state := .opened }

def close (actor : MonitorActor F) : MonitorActor F :=
  if actor.state = .closed then actor else ⟨.closed, ∅, false, .empty, .empty⟩

end MonitorActor

namespace ManagerActor

variable {D : Type}

omit [Zero F] in
def pumpIfNeeded (actor : ManagerActor D) (update : D → PipelineMessage F) (collected : Option D) :
    ManagerActor D × Sent F :=
  match collected with
  | none => (actor, [])
  | some data => ({ actor with latest := data }, forEach actor.subscribers (update data))

omit [Zero F] in
def handle (actor : ManagerActor D) (update : D → PipelineMessage F) (collected : Option D) (empty : D)
    (message : ManagerMessage) : ManagerActor D × Sent F :=
  if actor.state = .opened then
    match message with
    | .tick => if actor.subscribers ≠ ∅ then actor.pumpIfNeeded update collected else (actor, [])
    | .subscribe subscriber =>
        ({ actor with subscribers := insert subscriber actor.subscribers }).pumpIfNeeded update collected
    | .unsubscribe subscriber =>
        let subscribers := actor.subscribers.erase subscriber
        ({ actor with
          subscribers := subscribers
          latest := if subscribers = ∅ then empty else actor.latest }, [])
    | .unknown => (actor, [])
  else (actor, [])

end ManagerActor

abbrev SystemManagerActor (F : Type) := ManagerActor (SystemResources F)

abbrev DeviceManagerActor (F : Type) := ManagerActor (PmuData F)

namespace PipelineMessage

omit [Zero F] in
def toSystemManager : PipelineMessage F → ManagerMessage
  | .sysDataTick => .tick
  | .sysDataSubscribe subscriber => .subscribe subscriber
  | .sysDataUnsubscribe subscriber => .unsubscribe subscriber
  | _ => .unknown

omit [Zero F] in
def toDeviceManager : PipelineMessage F → ManagerMessage
  | .pmuDataTick => .tick
  | .pmuDataSubscribe subscriber => .subscribe subscriber
  | .pmuDataUnsubscribe subscriber => .unsubscribe subscriber
  | _ => .unknown

end PipelineMessage

def SystemManagerActor.handle (actor : SystemManagerActor F) (reading : Reading F) (message : PipelineMessage F) :
    SystemManagerActor F × Sent F :=
  ManagerActor.handle actor .sysDataUpdate reading.sys .empty message.toSystemManager

def DeviceManagerActor.handle (actor : DeviceManagerActor F) (reading : Reading F) (message : PipelineMessage F) :
    DeviceManagerActor F × Sent F :=
  ManagerActor.handle actor .pmuDataUpdate reading.pmu .empty message.toDeviceManager

/-- The four actors, and what is on its way to them. `failed` are those whose handler has thrown
and whose supervisor has not dealt with it yet. -/
structure Pipeline (F : Type) where
  bridge : MonitorBridgeActor
  monitor : MonitorActor F
  systemManager : SystemManagerActor F
  deviceManager : DeviceManagerActor F
  channels : Channels Party (PipelineMessage F)
  failed : Finset Party

/-- Connections come and end, and their end may be announced more than once; timers fire; a
client asks for the state of the hardware; and an actor handles the next message of a sender. -/
inductive FlowChoice (F : Type) where
  | connect (conn : ConnHandle)
  | disconnect (conn : ConnHandle)
  | sysTick
  | pmuTick
  | pmuStatus
  | deliver (sender receiver : Party) (reading : Reading F)

/-- A handler throws before it has done anything, or after as many sends; the supervisor moves
messages that have `arrived` to the dead letters and, unless it restarts all actors later on,
restarts the actor; or a message asks an actor to restart or to open. -/
inductive PipelineChoice (F : Type) where
  | flow (choice : FlowChoice F)
  | fail (sender receiver : Party) (reading : Reading F) (sent : Option Nat)
  | recover (receiver : Party) (arrived : Party → Nat) (restarts started : Bool)
  | restart (receiver : Party) (started : Bool)
  | enable (receiver : Party) (started : Bool)

namespace Pipeline

/-- An actor handles a message. -/
def handle (p : Pipeline F) (receiver : Party) (reading : Reading F) (message : PipelineMessage F) :
    Pipeline F × Sent F :=
  match receiver with
  | .monitorBridge => ({ p with bridge := (p.bridge.handle message).1 }, (p.bridge.handle message).2)
  | .monitor => ({ p with monitor := (p.monitor.handle reading message).1 }, (p.monitor.handle reading message).2)
  | .systemManager =>
      ({ p with systemManager := (SystemManagerActor.handle p.systemManager reading message).1 },
        (SystemManagerActor.handle p.systemManager reading message).2)
  | .deviceManager =>
      ({ p with deviceManager := (DeviceManagerActor.handle p.deviceManager reading message).1 },
        (DeviceManagerActor.handle p.deviceManager reading message).2)
  | .cmd | .eventLoop | .timer => (p, [])

def send (p : Pipeline F) (sender : Party) (sent : Sent F) : Pipeline F :=
  { p with channels := p.channels.send sender sent }

def receive (p : Pipeline F) (sender receiver : Party) : Pipeline F :=
  { p with channels := p.channels.receive sender receiver }

def drain (p : Pipeline F) (receiver : Party) (arrived : Party → Nat) : Pipeline F :=
  { p with channels := p.channels.drain receiver arrived, failed := p.failed.erase receiver }

def opens (p : Pipeline F) (receiver : Party) (started : Bool) : Pipeline F :=
  match receiver with
  | .monitorBridge => { p with bridge := p.bridge.opens started }
  | .monitor => { p with monitor := p.monitor.opens }
  | _ => p

def close (p : Pipeline F) (receiver : Party) : Pipeline F :=
  match receiver with
  | .monitorBridge => { p with bridge := p.bridge.close }
  | .monitor => { p with monitor := p.monitor.close }
  | _ => p

/-- `performRestart`. -/
def restart (p : Pipeline F) (receiver : Party) (started : Bool) : Pipeline F := (p.close receiver).opens receiver started

/-- The actor is at work and in this state. Only the bridge and the monitor fail or are restarted. -/
def Stands (p : Pipeline F) (receiver : Party) (state : ActorState) : Prop :=
  receiver ∉ p.failed ∧ match receiver with
    | .monitorBridge => p.bridge.state = state
    | .monitor => p.monitor.state = state
    | _ => False

instance (p : Pipeline F) (receiver : Party) (state : ActorState) : Decidable (p.Stands receiver state) := by
  cases receiver <;> unfold Stands <;> infer_instance

def flow : FlowChoice F → Pipeline F → Option (Pipeline F)
  | .connect conn, p => some (p.send .eventLoop [(.monitorBridge, .monitorNewConnection conn)])
  | .disconnect conn, p => some (p.send .eventLoop [(.monitorBridge, .monitorClientDisconnected conn)])
  | .sysTick, p => some (p.send .timer [(.systemManager, .sysDataTick)])
  | .pmuTick, p => some (p.send .timer [(.deviceManager, .pmuDataTick)])
  | .pmuStatus, p => some (p.send .cmd [(.deviceManager, .pmuDataSubscribe .cmd)])
  | .deliver sender receiver reading, p =>
      if receiver ∈ p.failed then none
      else
        match p.channels sender receiver with
        | [] => none
        | message :: _ =>
            let after := (p.receive sender receiver).handle receiver reading message
            some (after.1.send receiver after.2)

def step : PipelineChoice F → Pipeline F → Option (Pipeline F)
  | .flow choice, p => p.flow choice
  | .fail sender receiver reading sent, p =>
      if p.Stands receiver .opened then
        match p.channels sender receiver, sent with
        | [], _ => none
        | _ :: _, none => some { p.receive sender receiver with failed := insert receiver p.failed }
        | message :: _, some n =>
            let after := (p.receive sender receiver).handle receiver reading message
            some { after.1.send receiver (after.2.take n) with failed := insert receiver p.failed }
      else none
  | .recover receiver arrived restarts started, p =>
      if receiver ∈ p.failed then
        some (if restarts then (p.drain receiver arrived).restart receiver started else p.drain receiver arrived)
      else none
  | .restart receiver started, p => if p.Stands receiver .opened then some (p.restart receiver started) else none
  | .enable receiver started, p => if p.Stands receiver .closed then some (p.opens receiver started) else none

/-- All actors are open, and nothing has happened yet. -/
def opened : Pipeline F :=
  ⟨⟨.opened, ∅⟩, ⟨.opened, ∅, false, .empty, .empty⟩, ⟨.opened, ∅, .empty⟩, ⟨.opened, ∅, .empty⟩, fun _ _ => [], ∅⟩

end Pipeline

end Service
