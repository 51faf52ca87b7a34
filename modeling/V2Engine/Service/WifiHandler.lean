import V2Engine.Text.Split
import Mathlib.Data.UInt
import Mathlib.Tactic.SplitIfs
import Mathlib.Tactic.ByContra

/-! The wireless device as NetworkManager lets it be handled over D-Bus
(service/network_manager/wifi_handler.cpp). What the bus answers is an argument of every
operation, the calls that change something are part of its result, and `none` is a pointer
that is followed although it is null. -/
namespace Service

open Text

inductive WifiState where
  | disconnected
  | scanning
  | connecting
  | connected
  | disconnecting
  | error
  deriving DecidableEq

structure WifiApInfo where
  connected : Bool
  frequency : UInt16
  maxBitrate : UInt32
  signalStrength : Int
  ssid : Str
  bssid : Str
  security : Str
  mode : Str
  objectPath : Str
  deriving DecidableEq

/-- An object path of D-Bus begins with a slash. -/
structure ObjectPath where
  text : Str
  absolute : text.head? = some '/'
  deriving DecidableEq

theorem ObjectPath.text_ne_nil (path : ObjectPath) : path.text ≠ [] := by
  intro hNil
  have hHead := path.absolute
  rw [hNil] at hHead
  cases hHead

/-- What `Get` answers for the properties of an access point, unless it fails or the value
is not of the type that is asked for. -/
structure AccessPoint where
  ssid : Option (List UInt8)
  hwAddress : Option Str
  frequency : Option UInt32
  maxBitrate : Option UInt32
  strength : Option UInt8
  mode : Option UInt32
  wpaFlags : Option UInt32
  rsnFlags : Option UInt32

/-- What the bus answers, and `none` where the call throws. A device is given with the
answer for its `DeviceType`, an address with that for its text. -/
structure Bus where
  getAllDevices : Option (List (ObjectPath × Option UInt32))
  state : Option UInt32
  requestScan : Option Unit
  accessPoints : Option (List ObjectPath)
  activeAccessPoint : Option ObjectPath
  accessPoint : ObjectPath → AccessPoint
  addAndActivateConnection : Option ObjectPath
  disconnect : Option Unit
  interface : Option Str
  ip4Config : Option ObjectPath
  addressData : ObjectPath → Option (List (Option Str))

inductive Variant where
  | string (value : Str)
  | bytes (value : List UInt8)
  deriving DecidableEq

abbrev Section := List (String × Variant)

/-- The calls that change something, with the credentials they are made for. -/
inductive BusCall where
  | requestScan (device : Str)
  | addAndActivateConnection (settings : List (String × Section)) (device : Str) (accepted : Bool)
  | disconnect (device : Str)
  deriving DecidableEq

/-- The members of `dbus_`, `conn_`, `reconnect_` and `scan_`. A pointer is there or is null. -/
structure WifiHandler where
  connection : Bool
  nmProxy : Bool
  deviceProxy : Bool
  devicePath : Str
  state : WifiState
  activePath : Str
  enabled : Bool
  lastSsid : Str
  lastPassword : Str
  results : List WifiApInfo
  refreshPending : Bool

namespace WifiHandler

def initial : WifiHandler :=
  ⟨false, false, false, [], .disconnected, [], true, [], [], [], false⟩

def ssidBytesToString (ssid : List UInt8) : Str := ssid.map fun byte => Char.ofNat byte.toNat

def flagsToSecurity (wpaFlags rsnFlags : UInt32) : Str :=
  let hasWpa := wpaFlags &&& 0x10 ≠ 0
  let hasRsn := rsnFlags &&& 0x20 ≠ 0
  let hasSae := rsnFlags &&& 0x20000000 ≠ 0
  if hasSae then "WPA3".toList
  else if hasWpa ∧ hasRsn then "WPA2/WPA3".toList
  else if hasRsn then "WPA2".toList
  else if hasWpa then "WPA".toList
  else "OPEN".toList

def mapDeviceState (nmState : UInt32) : WifiState :=
  if nmState = 10 ∨ nmState = 20 then .error
  else if nmState = 30 then .disconnected
  else if nmState ∈ [40, 50, 60, 70, 80, 90] then .connecting
  else if nmState = 100 then .connected
  else if nmState = 110 then .disconnecting
  else .error

/-- A property that cannot be read leaves its field as it was constructed. -/
def apInfo (path : ObjectPath) (answers : AccessPoint) : WifiApInfo where
  connected := false
  frequency := (answers.frequency.map UInt32.toUInt16).getD 0
  maxBitrate := answers.maxBitrate.getD 0
  signalStrength := (answers.strength.map fun strength => (strength.toNat : Int) - 100).getD 0
  ssid := (answers.ssid.map ssidBytesToString).getD []
  bssid := answers.hwAddress.getD []
  security := ((answers.wpaFlags.bind fun wpa => answers.rsnFlags.map (flagsToSecurity wpa))).getD []
  mode := (answers.mode.map fun mode =>
    if mode = 0 then "infrastructure".toList else "adhoc".toList).getD []
  objectPath := path.text

variable (bus : Bus) (w : WifiHandler)

def readApInfo (path : ObjectPath) : Option WifiApInfo :=
  if w.connection then some (apInfo path (bus.accessPoint path)) else none

def getDeviceState : UInt32 := if w.deviceProxy then bus.state.getD 0 else 0

def getActiveApPath : Str :=
  if w.deviceProxy then (bus.activeAccessPoint.map ObjectPath.text).getD [] else []

def readInterfaceName : Str := if w.deviceProxy then bus.interface.getD [] else []

/-- The first address, if the device has any. -/
def readIp4Address : Option Str :=
  if w.deviceProxy then
    match bus.ip4Config with
    | none => some []
    | some path =>
        if path.text = "/".toList then some []
        else if w.connection then
          match bus.addressData path with
          | some (some address :: _) => some address
          | _ => some []
        else none
  else some []

def syncDeviceState : WifiHandler := { w with state := mapDeviceState (w.getDeviceState bus) }

/-- The loop over the devices, which ends at the first wireless one and at the first answer
that is an exception. -/
def firstWireless : List (ObjectPath × Option UInt32) → Option ObjectPath
  | [] => none
  | (_, none) :: _ => none
  | (device, some devType) :: rest => if devType = 2 then some device else firstWireless rest

def findWirelessDevice : Option (Bool × WifiHandler) :=
  if w.nmProxy then
    match bus.getAllDevices with
    | none | some [] => some (false, w)
    | some devices =>
        if w.connection then
          match firstWireless devices with
          | none => some (false, w)
          | some device => some (true, { w with devicePath := device.text, deviceProxy := true })
        else none
  else none

/-- The handlers of the device's signals only set `refreshPending`. -/
def «open» : Option (Bool × WifiHandler) :=
  (findWirelessDevice bus { w with connection := true, nmProxy := true }).map fun found =>
    if found.1 then (true, found.2.syncDeviceState bus) else (false, found.2)

def close : WifiHandler :=
  { w with
    refreshPending := false
    activePath := []
    devicePath := []
    deviceProxy := false
    connection := false
    nmProxy := false
    state := .disconnected }

def requestScan : WifiHandler × List BusCall :=
  if w.devicePath = [] then (w, [])
  else if w.state ≠ .disconnected ∧ w.state ≠ .connected then (w, [])
  else if w.deviceProxy then
    match bus.requestScan with
    | none => (w, [.requestScan w.devicePath])
    | some _ => ({ w with state := .scanning }, [.requestScan w.devicePath])
  else (w, [])

/-- The loop over the access points. -/
def readAps (active : Str) : List ObjectPath → Option (List WifiApInfo)
  | [] => some []
  | path :: rest => do
      let info ← w.readApInfo bus path
      let infos ← readAps active rest
      return (if path.text = active then { info with connected := true } else info) :: infos

def refreshAps : Option WifiHandler :=
  if w.devicePath = [] then some w
  else if w.deviceProxy then
    match bus.accessPoints with
    | none => some w
    | some paths =>
        (readAps bus w (w.getActiveApPath bus) paths).map fun results => { w with results := results }
  else some w

/-- The sections of a connection, in the order of their names. -/
def connectionSettings (ssid password : Str) : List (String × Section) :=
  ("802-11-wireless", [("mode", .string "infrastructure".toList),
      ("ssid", .bytes (ssid.map fun c => UInt8.ofNat c.toNat))]) ::
  (if password = [] then []
    else [("802-11-wireless-security", [("key-mgmt", .string "wpa-psk".toList),
      ("psk", .string password)])]) ++
  [("connection", [("id", .string ssid), ("type", .string "802-11-wireless".toList)])]

def addAndActivateConnection (ssid password : Str) : Option (Bool × WifiHandler × List BusCall) :=
  if w.devicePath = [] then some (false, w, [])
  else if w.state ≠ .disconnected ∧ w.state ≠ .connected then some (false, w, [])
  else if w.nmProxy then
    let call := BusCall.addAndActivateConnection (connectionSettings ssid password) w.devicePath
    match bus.addAndActivateConnection with
    | none => some (false, { w with state := .disconnected }, [call false])
    | some path =>
        some (true, { w with
          activePath := path.text
          lastSsid := ssid
          lastPassword := password
          state := .connected }, [call true])
  else none

def disconnectDevice : Bool × WifiHandler × List BusCall :=
  if w.state ≠ .connected ∧ w.state ≠ .connecting then (false, w, [])
  else if w.deviceProxy then
    match bus.disconnect with
    | none => (false, { w with state := .connected }, [.disconnect w.devicePath])
    | some _ =>
        (true, { w with activePath := [], state := .disconnected }, [.disconnect w.devicePath])
  else (false, { w with state := .disconnecting }, [])

def autoReconnect : Option (WifiHandler × List BusCall) :=
  if w.enabled = true ∧ w.state = .disconnected ∧ w.lastSsid ≠ [] then
    (addAndActivateConnection bus w w.lastSsid w.lastPassword).map Prod.snd
  else some (w, [])

def setAutoReconnect (enable : Bool) : WifiHandler := { w with enabled := enable }

/-- The flag is taken back as it is read. -/
def consumeScanRefreshPending : Bool × WifiHandler :=
  (w.refreshPending, { w with refreshPending := false })

def deviceFound : Bool := w.devicePath ≠ []

section Effects

variable {bus : Bus} {w w' : WifiHandler} {ssid password : Str}

/-- Whoever finds a device or a proxy set finds set what it needs besides. -/
structure Linked (w : WifiHandler) : Prop where
  device : w.devicePath ≠ [] → w.deviceProxy = true ∧ w.nmProxy = true
  proxy : w.deviceProxy = true → w.connection = true

theorem linked_initial : initial.Linked := ⟨fun h => absurd rfl h, nofun⟩

theorem linked_close (w : WifiHandler) : w.close.Linked := ⟨fun h => absurd rfl h, nofun⟩

/-- Neither the device nor what is remembered of the connections has changed. -/
structure Kept (w w' : WifiHandler) : Prop where
  linked : w.Linked → w'.Linked
  devicePath : w'.devicePath = w.devicePath
  enabled : w'.enabled = w.enabled
  lastSsid : w'.lastSsid = w.lastSsid
  lastPassword : w'.lastPassword = w.lastPassword

theorem Kept.refl (w : WifiHandler) : w.Kept w := ⟨id, rfl, rfl, rfl, rfl⟩

theorem Kept.trans {w'' : WifiHandler} (h : w.Kept w') (h' : w'.Kept w'') : w.Kept w'' :=
  ⟨fun linked => h'.linked (h.linked linked), h'.devicePath.trans h.devicePath,
    h'.enabled.trans h.enabled, h'.lastSsid.trans h.lastSsid, h'.lastPassword.trans h.lastPassword⟩

theorem kept_syncDeviceState (bus : Bus) (w : WifiHandler) : w.Kept (w.syncDeviceState bus) :=
  ⟨fun linked => ⟨linked.device, linked.proxy⟩, rfl, rfl, rfl, rfl⟩

theorem kept_consumeScanRefreshPending (w : WifiHandler) : w.Kept w.consumeScanRefreshPending.2 :=
  ⟨fun linked => ⟨linked.device, linked.proxy⟩, rfl, rfl, rfl, rfl⟩

theorem readApInfo_eq (hConnection : w.connection = true) (path : ObjectPath) :
    w.readApInfo bus path = some (apInfo path (bus.accessPoint path)) := if_pos hConnection

theorem exists_readAps (bus : Bus) (hConnection : w.connection = true) (active : Str)
    (paths : List ObjectPath) :
    ∃ infos, readAps bus w active paths = some infos := by
  induction paths with
  | nil => exact ⟨[], rfl⟩
  | cons path rest ih =>
      obtain ⟨infos, hInfos⟩ := ih
      rw [readAps, readApInfo_eq hConnection, hInfos]
      exact ⟨_, rfl⟩

theorem exists_refreshAps (bus : Bus) (linked : w.Linked) :
    ∃ w', w.refreshAps bus = some w' ∧ w.Kept w' ∧ w'.state = w.state := by
  unfold refreshAps
  split
  · exact ⟨w, rfl, .refl w, rfl⟩
  · split
    · rename_i hProxy
      split
      · exact ⟨w, rfl, .refl w, rfl⟩
      · obtain ⟨infos, hInfos⟩ := exists_readAps bus (linked.proxy hProxy)
          (w.getActiveApPath bus) _
        rw [hInfos]
        exact ⟨_, rfl, ⟨fun linked => ⟨linked.device, linked.proxy⟩, rfl, rfl, rfl, rfl⟩, rfl⟩
    · exact ⟨w, rfl, .refl w, rfl⟩

theorem exists_readIp4Address (bus : Bus) (linked : w.Linked) :
    ∃ address, w.readIp4Address bus = some address := by
  unfold readIp4Address
  split
  · rename_i hProxy
    simp only [linked.proxy hProxy, if_true]
    split
    · exact ⟨_, rfl⟩
    · split
      · exact ⟨_, rfl⟩
      · split <;> exact ⟨_, rfl⟩
  · exact ⟨_, rfl⟩

theorem mapDeviceState_eq_disconnected {nmState : UInt32} :
    mapDeviceState nmState = .disconnected ↔ nmState = 30 := by
  unfold mapDeviceState
  constructor
  · intro h
    split_ifs at h
    assumption
  · rintro rfl
    decide

theorem getDeviceState_eq_disconnected {bus : Bus} {w : WifiHandler} :
    w.getDeviceState bus = 30 ↔ w.deviceProxy = true ∧ bus.state = some 30 := by
  unfold getDeviceState
  split
  · rename_i hProxy
    cases bus.state with
    | none => simp
    | some state => simp [hProxy]
  · rename_i hProxy
    simp [hProxy]

/-- In these states NetworkManager may be asked to scan or to connect. -/
def Ready (w : WifiHandler) : Prop := w.state = .disconnected ∨ w.state = .connected

/-- What comes of an attempt to connect. -/
inductive Connects (w : WifiHandler) (ssid password : Str) :
    Bool → WifiHandler → List BusCall → Prop where
  | refused (h : w.devicePath = [] ∨ ¬w.Ready) : Connects w ssid password false w []
  | failed (hDevice : w.devicePath ≠ []) (hReady : w.Ready) :
      Connects w ssid password false { w with state := .disconnected }
        [.addAndActivateConnection (connectionSettings ssid password) w.devicePath false]
  | accepted (hDevice : w.devicePath ≠ []) (hReady : w.Ready) (path : ObjectPath) :
      Connects w ssid password true
        { w with
          activePath := path.text
          lastSsid := ssid
          lastPassword := password
          state := .connected }
        [.addAndActivateConnection (connectionSettings ssid password) w.devicePath true]

theorem exists_addAndActivateConnection (bus : Bus) (linked : w.Linked) (ssid password : Str) :
    ∃ ok w' calls, w.addAndActivateConnection bus ssid password = some (ok, w', calls) ∧
      Connects w ssid password ok w' calls := by
  unfold addAndActivateConnection
  split
  · exact ⟨_, _, _, rfl, .refused (.inl ‹_›)⟩
  · rename_i hDevice
    split
    · rename_i hState
      exact ⟨_, _, _, rfl, .refused (.inr (not_or.mpr hState))⟩
    · rename_i hState
      have hReady : w.Ready := by
        unfold Ready
        by_contra hNot
        exact hState (not_or.mp hNot)
      rw [if_pos (linked.device hDevice).2]
      split
      · exact ⟨_, _, _, rfl, .failed hDevice hReady⟩
      · exact ⟨_, _, _, rfl, .accepted hDevice hReady _⟩

theorem Connects.linked {ok : Bool} {calls : List BusCall} (h : Connects w ssid password ok w' calls)
    (linked : w.Linked) : w'.Linked := by
  cases h with
  | refused => exact linked
  | failed | accepted => exact ⟨linked.device, linked.proxy⟩

theorem exists_autoReconnect (bus : Bus) (linked : w.Linked) :
    ∃ w' calls, w.autoReconnect bus = some (w', calls) ∧
      (¬(w.enabled = true ∧ w.state = .disconnected ∧ w.lastSsid ≠ []) ∧ w' = w ∧ calls = [] ∨
        (w.enabled = true ∧ w.state = .disconnected ∧ w.lastSsid ≠ []) ∧
          ∃ ok, Connects w w.lastSsid w.lastPassword ok w' calls) := by
  unfold autoReconnect
  split
  · rename_i hDue
    obtain ⟨ok, w', calls, hConnects, connects⟩ :=
      exists_addAndActivateConnection bus linked w.lastSsid w.lastPassword
    rw [hConnects]
    exact ⟨w', calls, rfl, .inr ⟨hDue, ok, connects⟩⟩
  · rename_i hNotDue
    exact ⟨w, [], rfl, .inl ⟨hNotDue, rfl, rfl⟩⟩

theorem kept_requestScan (bus : Bus) (w : WifiHandler) : w.Kept (w.requestScan bus).1 := by
  unfold requestScan
  split_ifs
  · exact .refl w
  · exact .refl w
  · split
    · exact .refl w
    · exact ⟨fun linked => ⟨linked.device, linked.proxy⟩, rfl, rfl, rfl, rfl⟩
  · exact .refl w

/-- NetworkManager is asked to scan once, if at all. -/
theorem requestScan_calls (bus : Bus) (w : WifiHandler) :
    (w.requestScan bus).2 = [] ∨ w.Ready ∧ (w.requestScan bus).2 = [.requestScan w.devicePath] := by
  unfold requestScan
  split_ifs with hDevice hState hProxy
  · exact .inl rfl
  · exact .inl rfl
  · have hReady : w.Ready := by
      unfold Ready
      by_contra hNot
      exact hState (not_or.mp hNot)
    split <;> exact .inr ⟨hReady, rfl⟩
  · exact .inl rfl

theorem kept_disconnectDevice (bus : Bus) (w : WifiHandler) : w.Kept (w.disconnectDevice bus).2.1 := by
  unfold disconnectDevice
  split_ifs
  · exact .refl w
  · split <;> exact ⟨fun linked => ⟨linked.device, linked.proxy⟩, rfl, rfl, rfl, rfl⟩
  · exact ⟨fun linked => ⟨linked.device, linked.proxy⟩, rfl, rfl, rfl, rfl⟩

theorem disconnectDevice_calls (bus : Bus) (w : WifiHandler) :
    (w.disconnectDevice bus).2.2 = [] ∨ (w.state = .connected ∨ w.state = .connecting) ∧
      (w.disconnectDevice bus).2.2 = [.disconnect w.devicePath] := by
  unfold disconnectDevice
  split_ifs with hState hProxy
  · exact .inl rfl
  · have hConnected : w.state = .connected ∨ w.state = .connecting := by
      by_contra hNot
      exact hState (not_or.mp hNot)
    split <;> exact .inr ⟨hConnected, rfl⟩
  · exact .inl rfl

/-- A device is found or not, and nothing is forgotten. -/
theorem exists_open (bus : Bus) (linked : w.Linked) :
    ∃ found, w.open bus = some found ∧ found.2.Linked ∧ found.2.enabled = w.enabled ∧
      found.2.lastSsid = w.lastSsid ∧ found.2.lastPassword = w.lastPassword := by
  have hUnfound : ({ w with connection := true, nmProxy := true } : WifiHandler).Linked :=
    ⟨fun hDevice => ⟨(linked.device hDevice).1, rfl⟩, fun _ => rfl⟩
  unfold WifiHandler.open findWirelessDevice
  dsimp only
  rw [if_pos rfl]
  split
  · exact ⟨_, rfl, hUnfound, rfl, rfl, rfl⟩
  · exact ⟨_, rfl, hUnfound, rfl, rfl, rfl⟩
  · rw [if_pos rfl]
    split
    · exact ⟨_, rfl, hUnfound, rfl, rfl, rfl⟩
    · exact ⟨_, rfl, ⟨fun _ => ⟨rfl, rfl⟩, fun _ => rfl⟩, rfl, rfl, rfl⟩

end Effects

end WifiHandler

end Service
