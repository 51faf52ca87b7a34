import V2Engine.Interleaving.Calls
import V2Engine.Runtime.ActorRuntime
import V2Engine.Service.WifiHandler

/-! The actor of the wireless device (service/network_manager/network_manager_actor.cpp), over
any run: what it is asked for, what the bus answers, restarts, and signals of the device in
between. -/
namespace Service

open Interleaving Text WifiHandler

structure WifiStatusResult where
  connected : Bool
  ssid : Str
  ipAddress : Str
  state : WifiState
  interfaceName : Str
  signalStrength : Int
  autoReconnect : Bool
  deriving DecidableEq

inductive NetworkMessage where
  | tick
  | wifiScanRequest
  | wifiConnectRequest (ssid password : Str)
  | wifiDisconnectRequest
  | wifiAutoReconnectRequest (enable : Bool)
  | nmStatusRequest
  | unknown

/-- A call on the bus, or a message to the actor `cmd`. -/
inductive NetworkOutput where
  | call (call : BusCall)
  | wifiScanResult (accessPoints : List WifiApInfo)
  | wifiConnectResult (result : Bool) (errorMsg : Str)
  | wifiDisconnectResult (result : Bool)
  | wifiStatusResult (status : WifiStatusResult)
  deriving DecidableEq

structure NetworkManagerActor where
  state : ActorState
  connection : Bool
  nmProxy : Bool
  wifi : WifiHandler

namespace NetworkManagerActor

def initial : NetworkManagerActor := ⟨.closed, false, false, .initial⟩

/-- Up to four attempts, each of which asks the bus anew. -/
def tryOpen (bus : Nat → Bus) : Nat → WifiHandler → Option WifiHandler
  | 0, wifi => some wifi
  | attempts + 1, wifi => do
      let found ← wifi.open (bus attempts)
      if found.1 then some found.2 else tryOpen bus attempts found.2

def close (actor : NetworkManagerActor) : NetworkManagerActor :=
  if actor.state = .closed then actor
  else ⟨.closed, false, false, actor.wifi.close⟩

/-- `dbus` says whether there is an opened D-Bus actor. -/
def «open» (dbus : Bool) (bus : Nat → Bus) (actor : NetworkManagerActor) :
    Option NetworkManagerActor :=
  let actor := if actor.state ≠ .closed then actor.close else actor
  if dbus then
    (tryOpen bus 4 actor.wifi).map fun wifi => ⟨.opened, true, true, wifi⟩
  else some { actor with state := .closed, connection := false, nmProxy := false }

variable (bus : Bus) (actor : NetworkManagerActor)

/-- The status of the device, as far as there is one and it answers. -/
def status (wifi : WifiHandler) : Option WifiStatusResult :=
  let r : WifiStatusResult :=
    ⟨wifi.state = .connected, [], [], wifi.state, [], 0, wifi.enabled⟩
  if wifi.deviceFound then
    let r := { r with interfaceName := wifi.readInterfaceName bus }
    if r.connected then do
      let apPath := wifi.getActiveApPath bus
      let r ← match bus.activeAccessPoint with
        | none => some r
        | some path =>
            if apPath = [] then some r
            else (wifi.readApInfo bus path).map fun apInfo =>
              { r with ssid := apInfo.ssid, signalStrength := apInfo.signalStrength }
      let ipAddress ← wifi.readIp4Address bus
      return { r with ipAddress := ipAddress }
    else some r
  else some r

def reportStatus : Option (List NetworkOutput) :=
  (status bus actor.wifi).map fun r => [.wifiStatusResult r]

/-- The access points are read again if a signal has asked for it. -/
def refreshIfPending (wifi : WifiHandler) : Option (WifiHandler × List NetworkOutput) :=
  let consumed := wifi.consumeScanRefreshPending
  if consumed.1 then
    (consumed.2.refreshAps bus).map fun wifi => (wifi, [.wifiScanResult wifi.results])
  else some (consumed.2, [])

/-- The bus is asked at four places, and may answer differently at each. -/
def handleTick (bus : Fin 4 → Bus) (actor : NetworkManagerActor) :
    Option (NetworkManagerActor × List NetworkOutput) := do
  let (refreshed, scanned) ← refreshIfPending (bus 1) (actor.wifi.syncDeviceState (bus 0))
  let (reconnected, calls) ← refreshed.autoReconnect (bus 2)
  let actor := { actor with wifi := reconnected }
  let reported ← actor.reportStatus (bus 3)
  return (actor, scanned ++ calls.map .call ++ reported)

def handleConnect (ssid password : Str) : Option (NetworkManagerActor × List NetworkOutput) :=
  (actor.wifi.addAndActivateConnection bus ssid password).map fun (ok, wifi, calls) =>
    ({ actor with wifi := wifi }, calls.map .call ++
      [.wifiConnectResult ok (if ok then [] else "Invalid state or device".toList)])

def handleDisconnect : NetworkManagerActor × List NetworkOutput :=
  let (ok, wifi, calls) := actor.wifi.disconnectDevice bus
  ({ actor with wifi := wifi }, calls.map .call ++ [.wifiDisconnectResult ok])

def handleScan : NetworkManagerActor × List NetworkOutput :=
  let (wifi, calls) := actor.wifi.requestScan bus
  ({ actor with wifi := wifi }, calls.map .call)

def handle (bus : Fin 4 → Bus) (actor : NetworkManagerActor) (m : NetworkMessage) :
    Option (NetworkManagerActor × List NetworkOutput) :=
  if actor.state ≠ .opened then some (actor, [])
  else
    match m with
    | .tick => handleTick bus actor
    | .wifiScanRequest => some (handleScan (bus 0) actor)
    | .wifiConnectRequest ssid password => handleConnect (bus 0) actor ssid password
    | .wifiDisconnectRequest => some (handleDisconnect (bus 0) actor)
    | .wifiAutoReconnectRequest enable =>
        some ({ actor with wifi := actor.wifi.setAutoReconnect enable }, [])
    | .nmStatusRequest => (reportStatus (bus 0) actor).map fun sent => (actor, sent)
    | .unknown => some (actor, [])

end NetworkManagerActor

/-- The D-Bus thread delivers signals of the device between any two messages. -/
inductive NetworkEvent where
  | open (dbus : Bool) (bus : Nat → Bus)
  | close
  | message (m : NetworkMessage) (bus : Fin 4 → Bus)
  | signal

namespace NetworkManagerActor

def act (actor : NetworkManagerActor) :
    NetworkEvent → Option (NetworkManagerActor × List NetworkOutput)
  | .open dbus bus => (actor.open dbus bus).map fun actor => (actor, [])
  | .close => some (actor.close, [])
  | .message m bus => handle bus actor m
  | .signal => some ({ actor with wifi := { actor.wifi with refreshPending := true } }, [])

/-- The actor, and all it has sent so far. -/
structure Run where
  actor : NetworkManagerActor
  sent : List NetworkOutput

def step (event : NetworkEvent) (run : Run) : Option Run :=
  (run.actor.act event).map fun after => ⟨after.1, run.sent ++ after.2⟩

def Reachable (run : Run) : Prop := Calls step (· = ⟨.initial, []⟩) anyCall run

/-- The settings of the connections that NetworkManager has accepted. -/
def accepted (sent : List NetworkOutput) : List (List (String × Section)) :=
  sent.filterMap fun
    | .call (.addAndActivateConnection settings _ true) => some settings
    | _ => none

def isCall : NetworkOutput → Bool
  | .call _ => true
  | _ => false

/-- What is remembered is what was accepted last. -/
def Remembered (run : Run) : Prop :=
  match (accepted run.sent).getLast? with
  | none => run.actor.wifi.lastSsid = [] ∧ run.actor.wifi.lastPassword = []
  | some settings =>
      settings = connectionSettings run.actor.wifi.lastSsid run.actor.wifi.lastPassword

/-- A tick has to connect again, with these settings. -/
structure Due (run : Run) (bus : Fin 4 → Bus) (settings : List (String × Section)) : Prop where
  enabled : run.actor.wifi.enabled = true
  disconnected : (bus 0).state = some 30
  named : run.actor.wifi.lastSsid ≠ []
  last : (accepted run.sent).getLast? = some settings

/-- Nothing is asked of NetworkManager that was not asked for, or is due. -/
def Justified (run : Run) (event : NetworkEvent) : BusCall → Prop
  | .requestScan device => device = run.actor.wifi.devicePath ∧
      run.actor.wifi.Ready ∧ ∃ bus, event = .message .wifiScanRequest bus
  | .disconnect device => device = run.actor.wifi.devicePath ∧
      (run.actor.wifi.state = .connected ∨ run.actor.wifi.state = .connecting) ∧
        ∃ bus, event = .message .wifiDisconnectRequest bus
  | .addAndActivateConnection settings device _ => device = run.actor.wifi.devicePath ∧
      ((run.actor.wifi.Ready ∧ ∃ ssid password bus,
          event = .message (.wifiConnectRequest ssid password) bus ∧
            settings = connectionSettings ssid password) ∨
        ∃ bus, event = .message .tick bus ∧ Due run bus settings)

/-- How an event is dealt with: no call without a reason, one at a time, a connection that
was lost is asked for again, and an attempt is answered by how it ended. -/
structure Answers (run : Run) (event : NetworkEvent) (sent : List NetworkOutput) : Prop where
  justified : ∀ call, .call call ∈ sent → Justified run event call
  once : sent.countP isCall ≤ 1
  reconnects : ∀ bus settings, event = .message .tick bus → run.actor.state = .opened →
    run.actor.wifi.devicePath ≠ [] → Due run bus settings →
      ∃ ok, .call (.addAndActivateConnection settings run.actor.wifi.devicePath ok) ∈ sent
  answered : ∀ ssid password bus, event = .message (.wifiConnectRequest ssid password) bus →
    run.actor.state = .opened → ∃ (calls : List BusCall) (ok : Bool) (errorMsg : Str),
      sent = calls.map .call ++ [.wifiConnectResult ok errorMsg] ∧ (ok = true ↔ accepted sent ≠ [])

section Steps

variable {run : Run} {event : NetworkEvent} {sent more : List NetworkOutput}
  {actor : NetworkManagerActor} {ssid password : Str}

theorem accepted_append (sent more : List NetworkOutput) :
    accepted (sent ++ more) = accepted sent ++ accepted more :=
  List.filterMap_append

/-- An event that nothing is sent for. -/
theorem Answers.silent (hEvent : ∀ bus, event ≠ .message .tick bus)
    (hConnect : ∀ ssid password bus, event ≠ .message (.wifiConnectRequest ssid password) bus) :
    Answers run event [] where
  justified _ hCall := absurd hCall List.not_mem_nil
  once := Nat.zero_le _
  reconnects bus _ hTick := absurd hTick (hEvent bus)
  answered ssid password bus hAsked := absurd hAsked (hConnect ssid password bus)

/-- A closed actor does nothing. -/
theorem Answers.closed (hClosed : run.actor.state ≠ .opened) : Answers run event [] where
  justified _ hCall := absurd hCall List.not_mem_nil
  once := Nat.zero_le _
  reconnects _ _ _ hOpened := absurd hOpened hClosed
  answered _ _ _ _ hOpened := absurd hOpened hClosed

theorem Remembered.kept (h : Remembered run) (hSsid : actor.wifi.lastSsid = run.actor.wifi.lastSsid)
    (hPassword : actor.wifi.lastPassword = run.actor.wifi.lastPassword)
    (hAccepted : accepted more = []) : Remembered ⟨actor, run.sent ++ more⟩ := by
  unfold Remembered at h ⊢
  rw [accepted_append, hAccepted, List.append_nil]
  dsimp only
  rw [hSsid, hPassword]
  exact h

theorem remembered_accepted (hAccepted : accepted more =
    [connectionSettings actor.wifi.lastSsid actor.wifi.lastPassword]) :
    Remembered ⟨actor, run.sent ++ more⟩ := by
  unfold Remembered
  dsimp only
  rw [accepted_append, hAccepted, List.getLast?_concat]

/-- What is due is what is remembered. -/
theorem Remembered.due (h : Remembered run) {bus : Fin 4 → Bus} {settings : List (String × Section)}
    (due : Due run bus settings) :
    settings = connectionSettings run.actor.wifi.lastSsid run.actor.wifi.lastPassword := by
  unfold Remembered at h
  rw [due.last] at h
  exact h

theorem Remembered.last (h : Remembered run) (hNamed : run.actor.wifi.lastSsid ≠ []) :
    (accepted run.sent).getLast? =
      some (connectionSettings run.actor.wifi.lastSsid run.actor.wifi.lastPassword) := by
  unfold Remembered at h
  split at h
  · exact absurd h.1 hNamed
  · rename_i hLast
    rw [hLast, h]

theorem exists_status (bus : Bus) {wifi : WifiHandler} (linked : wifi.Linked) :
    ∃ r, status bus wifi = some r := by
  unfold status
  dsimp only
  split
  · rename_i hFound
    split
    · obtain ⟨address, hAddress⟩ := exists_readIp4Address bus linked
      have hConnection : wifi.connection = true :=
        linked.proxy (linked.device (by simpa [deviceFound] using hFound)).1
      rw [hAddress]
      cases bus.activeAccessPoint with
      | none => exact ⟨_, rfl⟩
      | some path =>
          dsimp only
          split
          · exact ⟨_, rfl⟩
          · rw [readApInfo_eq hConnection]
            exact ⟨_, rfl⟩
    · exact ⟨_, rfl⟩
  · exact ⟨_, rfl⟩

/-- Neither the answers to `cmd` nor its news are calls. -/
def Quiet (sent : List NetworkOutput) : Prop := ∀ output ∈ sent, isCall output = false

theorem quiet_nil : Quiet [] := fun _ hMem => absurd hMem List.not_mem_nil

theorem quiet_singleton {output : NetworkOutput} (h : isCall output = false) : Quiet [output] :=
  fun _ hMem => List.mem_singleton.mp hMem ▸ h

theorem Quiet.append (h : Quiet sent) (h' : Quiet more) : Quiet (sent ++ more) := fun output hMem =>
  (List.mem_append.mp hMem).elim (h output) (h' output)

theorem Quiet.accepted_eq (h : Quiet sent) : accepted sent = [] := by
  refine List.filterMap_eq_nil_iff.mpr fun output hMem => ?_
  have hCall := h output hMem
  cases output with
  | call => cases hCall
  | _ => rfl

theorem Quiet.not_mem (h : Quiet sent) (call : BusCall) : .call call ∉ sent := fun hMem =>
  absurd (h _ hMem) (by simp [isCall])

theorem Quiet.countP_eq (h : Quiet sent) : sent.countP isCall = 0 :=
  List.countP_eq_zero.mpr fun output hMem => by simp [h output hMem]

theorem countP_map_call (calls : List BusCall) :
    (calls.map NetworkOutput.call).countP isCall = calls.length := by
  rw [List.countP_map]
  exact List.countP_eq_length.mpr fun _ _ => rfl

/-- The accepted connections among some calls. -/
theorem accepted_of_connects {wifi wifi' : WifiHandler} {ok : Bool} {calls : List BusCall}
    (h : Connects wifi ssid password ok wifi' calls) :
    accepted (calls.map .call) = (if ok then [connectionSettings ssid password] else []) ∧
      calls.length ≤ 1 := by
  cases h with
  | refused => exact ⟨rfl, Nat.zero_le _⟩
  | failed | accepted => exact ⟨rfl, Nat.le_refl _⟩

/-- After an attempt to connect the connection that was accepted last is still remembered. -/
theorem Remembered.connects (h : Remembered run) {wifi wifi' : WifiHandler} {ok : Bool}
    {calls : List BusCall} (kept : run.actor.wifi.Kept wifi)
    (connects : Connects wifi ssid password ok wifi' calls) (hWifi : actor.wifi = wifi')
    {before after : List NetworkOutput} (hBefore : Quiet before) (hAfter : Quiet after) :
    Remembered ⟨actor, run.sent ++ (before ++ calls.map .call ++ after)⟩ := by
  have hAccepted : accepted (before ++ calls.map .call ++ after) =
      if ok then [connectionSettings ssid password] else [] := by
    rw [accepted_append, accepted_append, hBefore.accepted_eq, hAfter.accepted_eq,
      (accepted_of_connects connects).1]
    simp
  cases connects with
  | refused => exact h.kept (hWifi ▸ kept.lastSsid) (hWifi ▸ kept.lastPassword) hAccepted
  | failed =>
      exact h.kept (by rw [hWifi]; exact kept.lastSsid) (by rw [hWifi]; exact kept.lastPassword)
        hAccepted
  | accepted => exact remembered_accepted (by rw [hWifi]; exact hAccepted)

theorem exists_refreshIfPending (bus : Bus) {wifi : WifiHandler} (linked : wifi.Linked) :
    ∃ refreshed scanned, refreshIfPending bus wifi = some (refreshed, scanned) ∧
      wifi.Kept refreshed ∧ refreshed.state = wifi.state ∧ Quiet scanned := by
  have hConsumed := kept_consumeScanRefreshPending wifi
  unfold refreshIfPending
  dsimp only
  split
  · obtain ⟨refreshed, hRefreshed, kept, hState⟩ := exists_refreshAps bus (hConsumed.linked linked)
    exact ⟨refreshed, [.wifiScanResult refreshed.results], by rw [hRefreshed]; rfl,
      hConsumed.trans kept, hState, quiet_singleton rfl⟩
  · exact ⟨_, [], rfl, hConsumed, rfl, quiet_nil⟩

/-- A tick looks at the device first and then connects, if that is due. -/
theorem exists_handleTick (bus : Fin 4 → Bus) (linked : actor.wifi.Linked) :
    ∃ refreshed wifi calls before after,
      handleTick bus actor =
        some ({ actor with wifi := wifi }, before ++ calls.map .call ++ after) ∧
      actor.wifi.Kept refreshed ∧
      refreshed.state = mapDeviceState (actor.wifi.getDeviceState (bus 0)) ∧
      (¬(refreshed.enabled = true ∧ refreshed.state = .disconnected ∧ refreshed.lastSsid ≠ []) ∧
          wifi = refreshed ∧ calls = [] ∨
        (refreshed.enabled = true ∧ refreshed.state = .disconnected ∧ refreshed.lastSsid ≠ []) ∧
          ∃ ok, Connects refreshed refreshed.lastSsid refreshed.lastPassword ok wifi calls) ∧
      Quiet before ∧ Quiet after := by
  obtain ⟨refreshed, scanned, hRefreshed, hKept, hState, hScanned⟩ :=
    exists_refreshIfPending (bus 1) ((kept_syncDeviceState (bus 0) actor.wifi).linked linked)
  have kept := (kept_syncDeviceState (bus 0) actor.wifi).trans hKept
  obtain ⟨wifi, calls, hReconnects, reconnects⟩ :=
    exists_autoReconnect (bus 2) (kept.linked linked)
  have hLinked : wifi.Linked := by
    rcases reconnects with ⟨-, rfl, -⟩ | ⟨-, ok, connects⟩
    · exact kept.linked linked
    · exact connects.linked (kept.linked linked)
  obtain ⟨r, hStatus⟩ := exists_status (bus 3) hLinked
  refine ⟨refreshed, wifi, calls, scanned, [.wifiStatusResult r], ?_, kept, hState, reconnects,
    hScanned, quiet_singleton rfl⟩
  simp [handleTick, hRefreshed, hReconnects, reportStatus, hStatus]

theorem exists_tryOpen (bus : Nat → Bus) (attempts : Nat) {wifi : WifiHandler}
    (linked : wifi.Linked) :
    ∃ wifi', tryOpen bus attempts wifi = some wifi' ∧ wifi'.Linked ∧
      wifi'.lastSsid = wifi.lastSsid ∧ wifi'.lastPassword = wifi.lastPassword := by
  induction attempts generalizing wifi with
  | zero => exact ⟨wifi, rfl, linked, rfl, rfl⟩
  | succ attempts ih =>
      obtain ⟨⟨found, tried⟩, hOpen, hTried, -, hSsid, hPassword⟩ :=
        exists_open (bus attempts) linked
      simp only [tryOpen, hOpen, Option.bind_eq_bind, Option.bind_some]
      cases found with
      | true => exact ⟨tried, rfl, hTried, hSsid, hPassword⟩
      | false =>
          obtain ⟨wifi', hMore, hLinked, hSsid', hPassword'⟩ := ih hTried
          exact ⟨wifi', hMore, hLinked, hSsid'.trans hSsid, hPassword'.trans hPassword⟩

/-- Closing forgets the device and remembers the connection. -/
theorem close_spec (actor : NetworkManagerActor) (linked : actor.wifi.Linked) :
    actor.close.wifi.Linked ∧ actor.close.wifi.lastSsid = actor.wifi.lastSsid ∧
      actor.close.wifi.lastPassword = actor.wifi.lastPassword := by
  unfold NetworkManagerActor.close
  split
  · exact ⟨linked, rfl, rfl⟩
  · exact ⟨linked_close _, rfl, rfl⟩

theorem exists_open_actor (dbus : Bool) (bus : Nat → Bus) (actor : NetworkManagerActor)
    (linked : actor.wifi.Linked) :
    ∃ actor', actor.open dbus bus = some actor' ∧ actor'.wifi.Linked ∧
      actor'.wifi.lastSsid = actor.wifi.lastSsid ∧
        actor'.wifi.lastPassword = actor.wifi.lastPassword := by
  obtain ⟨hLinked, hSsid, hPassword⟩ :
      let before := if actor.state ≠ .closed then actor.close else actor
      before.wifi.Linked ∧ before.wifi.lastSsid = actor.wifi.lastSsid ∧
        before.wifi.lastPassword = actor.wifi.lastPassword := by
    dsimp only
    split
    · exact close_spec actor linked
    · exact ⟨linked, rfl, rfl⟩
  unfold NetworkManagerActor.open
  dsimp only
  split
  · obtain ⟨wifi, hTried, hTriedLinked, hTriedSsid, hTriedPassword⟩ := exists_tryOpen bus 4 hLinked
    rw [hTried]
    exact ⟨_, rfl, hTriedLinked, hTriedSsid.trans hSsid, hTriedPassword.trans hPassword⟩
  · exact ⟨_, rfl, hLinked, hSsid, hPassword⟩

theorem mem_sandwich {before after : List NetworkOutput} {calls : List BusCall} {call : BusCall}
    (hBefore : Quiet before) (hAfter : Quiet after) :
    .call call ∈ before ++ calls.map .call ++ after ↔ call ∈ calls := by
  rw [List.mem_append, List.mem_append, or_iff_left (hAfter.not_mem call),
    or_iff_right (hBefore.not_mem call)]
  exact List.mem_map_of_injective fun _ _ h => NetworkOutput.call.inj h

theorem countP_sandwich {before after : List NetworkOutput} (calls : List BusCall)
    (hBefore : Quiet before) (hAfter : Quiet after) :
    List.countP isCall (before ++ calls.map .call ++ after) = calls.length := by
  rw [List.countP_append, List.countP_append, hBefore.countP_eq, hAfter.countP_eq,
    countP_map_call, Nat.zero_add, Nat.add_zero]

/-- What is called when a device is asked to connect. -/
theorem justified_connects {wifi wifi' : WifiHandler} {ok : Bool} {calls : List BusCall}
    (connects : Connects wifi ssid password ok wifi' calls)
    (hDevice : wifi.devicePath = run.actor.wifi.devicePath)
    (hReason : wifi.Ready → (run.actor.wifi.Ready ∧ ∃ ssid' password' bus,
        event = .message (.wifiConnectRequest ssid' password') bus ∧
          connectionSettings ssid password = connectionSettings ssid' password') ∨
      ∃ bus, event = .message .tick bus ∧ Due run bus (connectionSettings ssid password))
    (call : BusCall) (hCall : call ∈ calls) : Justified run event call := by
  cases connects with
  | refused => cases hCall
  | failed hFound hReady | accepted hFound hReady =>
      obtain rfl := List.mem_singleton.mp hCall
      exact ⟨hDevice, hReason hReady⟩

/-- A tick of an open actor. -/
theorem exists_tick (linked : run.actor.wifi.Linked) (remembered : Remembered run)
    (bus : Fin 4 → Bus) :
    ∃ actor sent, handleTick bus run.actor = some (actor, sent) ∧ actor.wifi.Linked ∧
      Remembered ⟨actor, run.sent ++ sent⟩ ∧ Answers run (.message .tick bus) sent := by
  obtain ⟨refreshed, wifi, calls, before, after, hTick, kept, hState, reconnects, hBefore, hAfter⟩ :=
    exists_handleTick bus linked
  have hNoConnect : ∀ ssid password bus', NetworkEvent.message .tick bus ≠
      .message (.wifiConnectRequest ssid password) bus' := fun _ _ _ h => by cases h
  have hDisconnected : refreshed.state = .disconnected ↔
      run.actor.wifi.deviceProxy = true ∧ (bus 0).state = some 30 := by
    rw [hState, mapDeviceState_eq_disconnected, getDeviceState_eq_disconnected]
  refine ⟨_, _, hTick, ?_⟩
  rcases reconnects with ⟨hNot, rfl, rfl⟩ | ⟨⟨hEnabled, hDown, hNamed⟩, ok, connects⟩
  · refine ⟨kept.linked linked, remembered.kept kept.lastSsid kept.lastPassword ?_, ?_, ?_, ?_, ?_⟩
    · exact (hBefore.append hAfter).accepted_eq ▸ by simp
    · intro call hCall
      rw [mem_sandwich hBefore hAfter] at hCall
      cases hCall
    · rw [countP_sandwich [] hBefore hAfter]
      exact Nat.zero_le _
    · rintro _ settings h hOpened hDevice due
      cases h
      exact absurd ⟨kept.enabled.trans due.enabled,
        hDisconnected.mpr ⟨(linked.device hDevice).1, due.disconnected⟩,
        kept.lastSsid ▸ due.named⟩ hNot
    · intro ssid password bus' h
      exact absurd h (hNoConnect ssid password bus')
  · refine ⟨connects.linked (kept.linked linked),
      remembered.connects kept connects rfl hBefore hAfter, ?_, ?_, ?_, ?_⟩
    · intro call hCall
      rw [mem_sandwich hBefore hAfter] at hCall
      refine justified_connects connects kept.devicePath (fun _ => .inr ⟨bus, rfl, ?_⟩) call hCall
      rw [kept.lastSsid, kept.lastPassword]
      rw [kept.lastSsid] at hNamed
      exact ⟨kept.enabled.symm.trans hEnabled, (hDisconnected.mp hDown).2, hNamed,
        remembered.last hNamed⟩
    · rw [countP_sandwich calls hBefore hAfter]
      exact (accepted_of_connects connects).2
    · rintro _ settings h hOpened hDevice due
      cases h
      obtain rfl := remembered.due due
      simp only [mem_sandwich hBefore hAfter]
      rw [← kept.lastSsid, ← kept.lastPassword, ← kept.devicePath]
      cases connects with
      | refused hRefused =>
          rcases hRefused with hNone | hBusy
          · exact absurd (kept.devicePath.symm.trans hNone) hDevice
          · exact absurd (.inl hDown) hBusy
      | failed => exact ⟨false, List.mem_singleton_self _⟩
      | accepted => exact ⟨true, List.mem_singleton_self _⟩
    · intro ssid password bus' h
      exact absurd h (hNoConnect ssid password bus')

theorem exists_connect (linked : run.actor.wifi.Linked) (remembered : Remembered run)
    (bus : Fin 4 → Bus) (ssid password : Str) :
    ∃ actor sent, handleConnect (bus 0) run.actor ssid password = some (actor, sent) ∧
      actor.wifi.Linked ∧ Remembered ⟨actor, run.sent ++ sent⟩ ∧
        Answers run (.message (.wifiConnectRequest ssid password) bus) sent := by
  obtain ⟨ok, wifi, calls, hConnects, connects⟩ :=
    exists_addAndActivateConnection (bus 0) linked ssid password
  have hBefore : Quiet [] := quiet_nil
  have hAfter : Quiet
      [.wifiConnectResult ok (if ok then [] else "Invalid state or device".toList)] :=
    quiet_singleton rfl
  refine ⟨_, _, by rw [handleConnect, hConnects]; rfl, connects.linked linked,
    remembered.connects (.refl _) connects rfl hBefore hAfter, ?_, ?_, ?_, ?_⟩
  · intro call hCall
    rw [mem_sandwich hBefore hAfter] at hCall
    exact justified_connects connects rfl (fun hReady => .inl ⟨hReady, ssid, password, bus, rfl, rfl⟩)
      call hCall
  · rw [countP_sandwich calls hBefore hAfter]
    exact (accepted_of_connects connects).2
  · intro bus' settings h
    cases h
  · rintro _ _ _ h hOpened
    cases h
    refine ⟨calls, ok, _, rfl, ?_⟩
    rw [accepted_append, hAfter.accepted_eq, List.append_nil, List.nil_append,
      (accepted_of_connects connects).1]
    cases ok <;> simp

/-- A request that makes at most the call it is for. -/
theorem exists_request (m : NetworkMessage) (bus : Fin 4 → Bus) (call : BusCall)
    {wifi : WifiHandler} {calls : List BusCall} {after : List NetworkOutput}
    (remembered : Remembered run) (linked : run.actor.wifi.Linked)
    (kept : run.actor.wifi.Kept wifi) (hTick : m ≠ .tick)
    (hConnect : ∀ ssid password, m ≠ .wifiConnectRequest ssid password)
    (hCalls : calls = [] ∨ Justified run (.message m bus) call ∧ calls = [call])
    (hNotAccepted : accepted [.call call] = []) (hAfter : Quiet after) :
    wifi.Linked ∧ Remembered ⟨{ run.actor with wifi := wifi },
        run.sent ++ (calls.map .call ++ after)⟩ ∧
      Answers run (.message m bus) (calls.map .call ++ after) := by
  have hBefore : Quiet [] := quiet_nil
  have hAccepted : accepted (calls.map .call ++ after) = [] := by
    rw [accepted_append, hAfter.accepted_eq, List.append_nil]
    rcases hCalls with rfl | ⟨_, rfl⟩
    · rfl
    · exact hNotAccepted
  refine ⟨kept.linked linked, remembered.kept kept.lastSsid kept.lastPassword hAccepted,
    ?_, ?_, ?_, ?_⟩
  · intro call' hCall
    rw [← List.nil_append (calls.map NetworkOutput.call), mem_sandwich hBefore hAfter] at hCall
    rcases hCalls with rfl | ⟨hJustified, rfl⟩
    · cases hCall
    · rw [List.mem_singleton.mp hCall]
      exact hJustified
  · rw [← List.nil_append (calls.map NetworkOutput.call), countP_sandwich calls hBefore hAfter]
    rcases hCalls with rfl | ⟨_, rfl⟩
    · exact Nat.zero_le _
    · exact Nat.le_refl _
  · intro bus' settings h
    cases h
    exact absurd rfl hTick
  · intro ssid password bus' h
    cases h
    exact absurd rfl (hConnect ssid password)

/-- Every event can be dealt with, and what is dealt with keeps the actor as it should be. -/
theorem exists_act (linked : run.actor.wifi.Linked) (remembered : Remembered run)
    (event : NetworkEvent) :
    ∃ actor sent, run.actor.act event = some (actor, sent) ∧ actor.wifi.Linked ∧
      Remembered ⟨actor, run.sent ++ sent⟩ ∧ Answers run event sent := by
  cases event with
  | «open» dbus bus =>
      obtain ⟨actor, hOpen, hLinked, hSsid, hPassword⟩ := exists_open_actor dbus bus run.actor linked
      exact ⟨actor, [], by simp [act, hOpen], hLinked, remembered.kept hSsid hPassword rfl,
        .silent nofun nofun⟩
  | close =>
      obtain ⟨hLinked, hSsid, hPassword⟩ := close_spec run.actor linked
      exact ⟨_, [], rfl, hLinked, remembered.kept hSsid hPassword rfl, .silent nofun nofun⟩
  | signal =>
      exact ⟨_, [], rfl, ⟨linked.device, linked.proxy⟩, remembered.kept rfl rfl rfl,
        .silent nofun nofun⟩
  | message m bus =>
      have hKept : Remembered ⟨run.actor, run.sent ++ []⟩ := remembered.kept rfl rfl rfl
      by_cases hOpened : run.actor.state = .opened
      · cases m with
        | tick =>
            obtain ⟨actor, sent, hTick, hSpec⟩ := exists_tick linked remembered bus
            exact ⟨actor, sent, by simp [act, handle, hOpened, hTick], hSpec⟩
        | wifiConnectRequest ssid password =>
            obtain ⟨actor, sent, hConnect, hSpec⟩ :=
              exists_connect linked remembered bus ssid password
            exact ⟨actor, sent, by simp [act, handle, hOpened, hConnect], hSpec⟩
        | wifiScanRequest =>
            obtain ⟨hLinked, hRemembered, hAnswers⟩ := exists_request .wifiScanRequest bus
              (.requestScan run.actor.wifi.devicePath) remembered linked
              (kept_requestScan (bus 0) run.actor.wifi) nofun nofun
              ((requestScan_calls (bus 0) run.actor.wifi).imp_right fun h =>
                ⟨⟨rfl, h.1, bus, rfl⟩, h.2⟩) rfl quiet_nil
            rw [List.append_nil] at hRemembered hAnswers
            exact ⟨_, _, by simp [act, handle, hOpened, handleScan], hLinked, hRemembered, hAnswers⟩
        | wifiDisconnectRequest =>
            have hQuiet : Quiet [.wifiDisconnectResult (run.actor.wifi.disconnectDevice (bus 0)).1] :=
              quiet_singleton rfl
            obtain ⟨hLinked, hRemembered, hAnswers⟩ := exists_request .wifiDisconnectRequest bus
              (.disconnect run.actor.wifi.devicePath) remembered linked
              (kept_disconnectDevice (bus 0) run.actor.wifi) nofun nofun
              ((disconnectDevice_calls (bus 0) run.actor.wifi).imp_right fun h =>
                ⟨⟨rfl, h.1, bus, rfl⟩, h.2⟩) rfl hQuiet
            exact ⟨_, _, by simp [act, handle, hOpened, handleDisconnect], hLinked, hRemembered,
              hAnswers⟩
        | wifiAutoReconnectRequest enable =>
            exact ⟨{ run.actor with wifi := run.actor.wifi.setAutoReconnect enable }, [],
              if_neg (not_not.mpr hOpened), ⟨linked.device, linked.proxy⟩,
              remembered.kept rfl rfl rfl, .silent nofun nofun⟩
        | nmStatusRequest =>
            obtain ⟨r, hStatus⟩ := exists_status (bus 0) linked
            have hQuiet : Quiet [.wifiStatusResult r] := quiet_singleton rfl
            obtain ⟨hLinked, hRemembered, hAnswers⟩ := exists_request .nmStatusRequest bus
              (.requestScan []) remembered linked (.refl _) nofun nofun (.inl rfl) rfl hQuiet
            exact ⟨run.actor, [.wifiStatusResult r],
              by simp [act, handle, hOpened, reportStatus, hStatus], hLinked, hRemembered, hAnswers⟩
        | unknown =>
            exact ⟨run.actor, [], by simp [act, handle, hOpened], linked, hKept, .silent nofun nofun⟩
      · exact ⟨run.actor, [], by simp [act, handle, hOpened], linked, hKept, .closed hOpened⟩

end Steps

theorem linked_remembered {run : Run} (reach : Reachable run) :
    run.actor.wifi.Linked ∧ Remembered run := by
  refine Calls.invariant (I := fun run => run.actor.wifi.Linked ∧ Remembered run) ?_ ?_ reach
  · rintro run rfl
    exact ⟨linked_initial, rfl, rfl⟩
  · intro run event run' _ inv _ hStep
    obtain ⟨actor, sent, hAct, hLinked, hRemembered, _⟩ := exists_act inv.1 inv.2 event
    rw [step, hAct] at hStep
    cases hStep
    exact ⟨hLinked, hRemembered⟩

/-- Whatever the actor has been through, it deals with the event that comes next, and asks
NetworkManager only for what it was asked for or for the connection it remembers. -/
theorem events_answered {run : Run} (reach : Reachable run) (event : NetworkEvent) :
    Remembered run ∧
      ∃ actor sent, run.actor.act event = some (actor, sent) ∧ Answers run event sent := by
  obtain ⟨linked, remembered⟩ := linked_remembered reach
  obtain ⟨actor, sent, hAct, _, _, hAnswers⟩ := exists_act linked remembered event
  exact ⟨remembered, actor, sent, hAct, hAnswers⟩

/-- One wireless device, which every call succeeds on, and its state. -/
def oneDevice (nmState : UInt32) : Bus where
  getAllDevices := some [(⟨"/eth".toList, rfl⟩, some 1), (⟨"/wlan".toList, rfl⟩, some 2)]
  state := some nmState
  requestScan := some ()
  accessPoints := some []
  activeAccessPoint := none
  accessPoint _ := ⟨none, none, none, none, none, none, none, none⟩
  addAndActivateConnection := some ⟨"/active".toList, rfl⟩
  disconnect := some ()
  interface := some "wlan0".toList
  ip4Config := none
  addressData _ := none

/-- The actor connects to a network and is restarted. -/
def connected : Run :=
  (Calls.replay step anyCall ⟨.initial, []⟩
    [.open true fun _ => oneDevice 30,
      .message (.wifiConnectRequest "home".toList "secret".toList) fun _ => oneDevice 30,
      .close, .open true fun _ => oneDevice 100]).get (by decide)

theorem events_answered_connected : Remembered connected ∧
    (accepted connected.sent).length = 1 ∧ Due connected (fun _ => oneDevice 30)
      (connectionSettings "home".toList "secret".toList) ∧
    ∃ actor sent, connected.actor.act (.message .tick fun _ => oneDevice 30) = some (actor, sent) ∧
      Answers connected (.message .tick fun _ => oneDevice 30) sent := by
  obtain ⟨hRemembered, hAnswered⟩ := events_answered
    (Calls.of_replay (.start rfl) (Option.some_get _).symm : Reachable connected)
    (.message .tick fun _ => oneDevice 30)
  exact ⟨hRemembered, by decide, ⟨by decide, rfl, by decide, by decide⟩, hAnswered⟩

end NetworkManagerActor

end Service
