import V2Engine.Text.Json

/-! What the daemon measures and how it travels to the clients (service/monitor/monitor_data.hpp,
infra/hal/pmu/pmu_data.hpp, infra/hal/sys/system_data.hpp). `F` is the type `float`. -/
namespace Service

open Text

structure SystemResources (F : Type) where
  memoryRssKb : UInt64
  memoryTotalKb : UInt64
  cpuPercent : F
  uptimeMs : UInt64
  threadCount : UInt64
  vmPeakKb : UInt64
  vmHwmKb : UInt64
  vmSwapKb : UInt64
  loadAvg1 : F
  loadAvg5 : F
  loadAvg15 : F
  sysMemTotalKb : UInt64
  sysMemAvailKb : UInt64
deriving DecidableEq

structure PmuData (F : Type) where
  clockArmHz : UInt64
  clockCoreHz : UInt64
  clockV3dHz : UInt64
  memArmMb : UInt64
  memGpuMb : UInt64
  throttled : UInt64
  tempCelsius : F
  voltCore : F
  currentVddCoreA : F
deriving DecidableEq

structure ActorInfo where
  name : String
  id : UInt64
  mailboxCount : UInt64
  mailboxCapacity : UInt64
  state : Int32
  essential : Bool
deriving DecidableEq

structure MonitorSnapshot (F : Type) where
  timestampMs : UInt64
  clientCount : Int32
  actors : List ActorInfo
  sysResources : SystemResources F
  pmuData : PmuData F
deriving DecidableEq

/-- The value of an `int` assigned to a 64-bit unsigned field. -/
def asUnsigned (x : Int32) : UInt64 := UInt64.ofInt x.toInt

variable {F D : Type}

section ToJson

variable (floats : Floats F D)

/-- A 64-bit unsigned field as a json number. -/
def unsigned (x : UInt64) : Json D := .number x.toNat

def measured (x : F) : Json D := .float (floats.widen x)

def SystemResources.members (r : SystemResources F) : List (String × Json D) :=
  [("memoryRssKb", unsigned r.memoryRssKb),
   ("memoryTotalKb", unsigned r.memoryTotalKb),
   ("cpuPercent", measured floats r.cpuPercent),
   ("uptimeMs", unsigned r.uptimeMs),
   ("threadCount", unsigned r.threadCount),
   ("vmPeakKb", unsigned r.vmPeakKb),
   ("vmHwmKb", unsigned r.vmHwmKb),
   ("vmSwapKb", unsigned r.vmSwapKb),
   ("loadAvg1", measured floats r.loadAvg1),
   ("loadAvg5", measured floats r.loadAvg5),
   ("loadAvg15", measured floats r.loadAvg15),
   ("sysMemTotalKb", unsigned r.sysMemTotalKb),
   ("sysMemAvailKb", unsigned r.sysMemAvailKb)]

def SystemResources.toJson (r : SystemResources F) : Json D := .ofPairs (r.members floats)

def PmuData.members (p : PmuData F) : List (String × Json D) :=
  [("clockArmHz", unsigned p.clockArmHz),
   ("clockCoreHz", unsigned p.clockCoreHz),
   ("clockV3dHz", unsigned p.clockV3dHz),
   ("memArmMb", unsigned p.memArmMb),
   ("memGpuMb", unsigned p.memGpuMb),
   ("throttled", unsigned p.throttled),
   ("tempCelsius", measured floats p.tempCelsius),
   ("voltCore", measured floats p.voltCore),
   ("currentVddCoreA", measured floats p.currentVddCoreA)]

def PmuData.toJson (p : PmuData F) : Json D := .ofPairs (p.members floats)

def ActorInfo.members (a : ActorInfo) : List (String × Json D) :=
  [("name", .string a.name),
   ("id", unsigned a.id),
   ("mailboxCount", unsigned a.mailboxCount),
   ("mailboxCapacity", unsigned a.mailboxCapacity),
   ("state", .number a.state.toInt),
   ("essential", .boolean a.essential)]

def ActorInfo.toJson (a : ActorInfo) : Json D := .ofPairs a.members

def MonitorSnapshot.members (s : MonitorSnapshot F) : List (String × Json D) :=
  [("timestampMs", unsigned s.timestampMs),
   ("clientCount", .number s.clientCount.toInt),
   ("actors", .array (s.actors.map ActorInfo.toJson)),
   ("resources", s.sysResources.toJson floats),
   ("pmu", s.pmuData.toJson floats)]

def MonitorSnapshot.toJson (s : MonitorSnapshot F) : Json D := .ofPairs (s.members floats)

end ToJson

section FromJson

variable (floats : Floats F D) (j : Json D)

/-- `j.value(key, 0)` in a 64-bit unsigned field: the literal makes it a reading of an `int`. -/
def unsignedValue (key : String) : Option UInt64 := (j.value (Json.getInt floats) key 0).map asUnsigned

/-- `j.value(key, 0.0f)`. -/
def floatValue (key : String) : Option F := j.value (Json.getFloat floats) key (floats.ofInt 0)

def SystemResources.fromJson : Option (SystemResources F) := do
  let memoryRssKb ← unsignedValue floats j "memoryRssKb"
  let memoryTotalKb ← unsignedValue floats j "memoryTotalKb"
  let cpuPercent ← floatValue floats j "cpuPercent"
  let uptimeMs ← unsignedValue floats j "uptimeMs"
  let threadCount ← unsignedValue floats j "threadCount"
  let vmPeakKb ← unsignedValue floats j "vmPeakKb"
  let vmHwmKb ← unsignedValue floats j "vmHwmKb"
  let vmSwapKb ← unsignedValue floats j "vmSwapKb"
  let loadAvg1 ← floatValue floats j "loadAvg1"
  let loadAvg5 ← floatValue floats j "loadAvg5"
  let loadAvg15 ← floatValue floats j "loadAvg15"
  let sysMemTotalKb ← unsignedValue floats j "sysMemTotalKb"
  let sysMemAvailKb ← unsignedValue floats j "sysMemAvailKb"
  return { memoryRssKb, memoryTotalKb, cpuPercent, uptimeMs, threadCount, vmPeakKb, vmHwmKb, vmSwapKb,
           loadAvg1, loadAvg5, loadAvg15, sysMemTotalKb, sysMemAvailKb }

def PmuData.fromJson : Option (PmuData F) := do
  let clockArmHz ← unsignedValue floats j "clockArmHz"
  let clockCoreHz ← unsignedValue floats j "clockCoreHz"
  let clockV3dHz ← unsignedValue floats j "clockV3dHz"
  let memArmMb ← unsignedValue floats j "memArmMb"
  let memGpuMb ← unsignedValue floats j "memGpuMb"
  let throttled ← unsignedValue floats j "throttled"
  let tempCelsius ← floatValue floats j "tempCelsius"
  let voltCore ← floatValue floats j "voltCore"
  let currentVddCoreA ← floatValue floats j "currentVddCoreA"
  return { clockArmHz, clockCoreHz, clockV3dHz, memArmMb, memGpuMb, throttled,
           tempCelsius, voltCore, currentVddCoreA }

def ActorInfo.fromJson : Option ActorInfo := do
  let name ← j.value Json.getString "name" ""
  let id ← unsignedValue floats j "id"
  let mailboxCount ← unsignedValue floats j "mailboxCount"
  let mailboxCapacity ← unsignedValue floats j "mailboxCapacity"
  let state ← j.value (Json.getInt floats) "state" 0
  let essential ← j.value Json.getBool "essential" false
  return { name, id, mailboxCount, mailboxCapacity, state, essential }

def MonitorSnapshot.fromJson : Option (MonitorSnapshot F) := do
  let timestampMs ← unsignedValue floats j "timestampMs"
  let clientCount ← j.value (Json.getInt floats) "clientCount" 0
  let actors ← j.memberAt (Json.getArray (ActorInfo.fromJson floats)) "actors"
  let sysResources ← j.memberAt (SystemResources.fromJson floats) "resources"
  let pmuData ← j.memberAt (PmuData.fromJson floats) "pmu"
  return { timestampMs, clientCount, actors, sysResources, pmuData }

end FromJson

section Fields

variable {G : Type} (onUnsigned : UInt64 → UInt64) (onFloat : F → G)

/-- Every 64-bit unsigned and every floating field changed, the others kept. -/
def SystemResources.mapFields (r : SystemResources F) : SystemResources G where
  memoryRssKb := onUnsigned r.memoryRssKb
  memoryTotalKb := onUnsigned r.memoryTotalKb
  cpuPercent := onFloat r.cpuPercent
  uptimeMs := onUnsigned r.uptimeMs
  threadCount := onUnsigned r.threadCount
  vmPeakKb := onUnsigned r.vmPeakKb
  vmHwmKb := onUnsigned r.vmHwmKb
  vmSwapKb := onUnsigned r.vmSwapKb
  loadAvg1 := onFloat r.loadAvg1
  loadAvg5 := onFloat r.loadAvg5
  loadAvg15 := onFloat r.loadAvg15
  sysMemTotalKb := onUnsigned r.sysMemTotalKb
  sysMemAvailKb := onUnsigned r.sysMemAvailKb

def PmuData.mapFields (p : PmuData F) : PmuData G where
  clockArmHz := onUnsigned p.clockArmHz
  clockCoreHz := onUnsigned p.clockCoreHz
  clockV3dHz := onUnsigned p.clockV3dHz
  memArmMb := onUnsigned p.memArmMb
  memGpuMb := onUnsigned p.memGpuMb
  throttled := onUnsigned p.throttled
  tempCelsius := onFloat p.tempCelsius
  voltCore := onFloat p.voltCore
  currentVddCoreA := onFloat p.currentVddCoreA

def ActorInfo.mapFields (a : ActorInfo) : ActorInfo :=
  { a with
    id := onUnsigned a.id
    mailboxCount := onUnsigned a.mailboxCount
    mailboxCapacity := onUnsigned a.mailboxCapacity }

def MonitorSnapshot.mapFields (s : MonitorSnapshot F) : MonitorSnapshot G where
  timestampMs := onUnsigned s.timestampMs
  clientCount := s.clientCount
  actors := s.actors.map (ActorInfo.mapFields onUnsigned)
  sysResources := s.sysResources.mapFields onUnsigned onFloat
  pmuData := s.pmuData.mapFields onUnsigned onFloat

/-- The integer, boolean and string fields alone. -/
def MonitorSnapshot.discrete (s : MonitorSnapshot F) : MonitorSnapshot Unit := s.mapFields (fun x => x) fun _ => ()

end Fields

/-- The floating fields. -/
def SystemResources.measurements (r : SystemResources F) : List F :=
  [r.cpuPercent, r.loadAvg1, r.loadAvg5, r.loadAvg15]

def PmuData.measurements (p : PmuData F) : List F := [p.tempCelsius, p.voltCore, p.currentVddCoreA]

def MonitorSnapshot.measurements (s : MonitorSnapshot F) : List F :=
  s.sysResources.measurements ++ s.pmuData.measurements

/-- The 64-bit unsigned fields. -/
def SystemResources.counters (r : SystemResources F) : List UInt64 :=
  [r.memoryRssKb, r.memoryTotalKb, r.uptimeMs, r.threadCount, r.vmPeakKb, r.vmHwmKb, r.vmSwapKb,
   r.sysMemTotalKb, r.sysMemAvailKb]

def PmuData.counters (p : PmuData F) : List UInt64 :=
  [p.clockArmHz, p.clockCoreHz, p.clockV3dHz, p.memArmMb, p.memGpuMb, p.throttled]

def ActorInfo.counters (a : ActorInfo) : List UInt64 := [a.id, a.mailboxCount, a.mailboxCapacity]

def MonitorSnapshot.counters (s : MonitorSnapshot F) : List UInt64 :=
  s.timestampMs :: s.actors.flatMap ActorInfo.counters ++ s.sysResources.counters ++ s.pmuData.counters

end Service
