import V2Engine.Text.Json
import Mathlib.Logic.Function.Basic
import Mathlib.Data.List.Nodup
import Mathlib.Data.List.TakeWhile

/-! `RuntimeConfig` and `RuntimeConfig::loadFromFile` (core/common/config/runtime_config.h and
infra/config/json_config_loader.cpp) on Linux. The parser is a parameter. -/
namespace Infra

open Text

/-- The members of `RuntimeConfig`. -/
inductive Field where
  | logLevel
  | workerCount
  | workerMaxBatch
  | mainLoopSleepMs
  | busyStealIntervalUs
  | idleStealIntervalUs
  | parkSpinNs
  | tokenGraceNs
  | defaultMailboxSize
  | dispatcherQueueCapacity
  | dispatcherHighWatermark
  | supervisorMaxRestarts
  | supervisorDefaultStrategy
  | deadLetterQueueCapacity
  | logFlushBufferSize
  | memorySlabSize
  | memoryMaxPoolAllocSize
  | memoryMaxPools
  | memoryTlsBatchSize
  | messageInlineBufferSize
  | enableTick
  | tickIntervalMs
  | enableMonitor
  | monitorSocketPath
  | monitorPollIntervalMs
  | monitorRecvBufferSize
  | monitorBacklog
  | enableDeviceManager
  | enableMetrics
  | epollMaxEvents
  | epollWaitTimeoutMs
  | enableIpcServer
  | ipcSocketPath
  | ipcRecvBufferSize
  | udsBacklog
  | enableDbus
  | dbusBusName
  | dbusObjectPath
  | dbusInterfaceName
  | enableNetworkManager
deriving DecidableEq

namespace Field

inductive Kind where
  | int
  | bool
  | string

def Kind.Value : Kind → Type
  | .int => Int32
  | .bool => Bool
  | .string => String

/-- What a member is declared as. -/
def kind : Field → Kind
  | .enableTick | .enableMonitor | .enableDeviceManager | .enableMetrics | .enableIpcServer | .enableDbus
  | .enableNetworkManager => .bool
  | .monitorSocketPath | .ipcSocketPath | .dbusBusName | .dbusObjectPath | .dbusInterfaceName => .string
  | _ => .int

/-- The key that the loader reads a member from. -/
def key : Field → String
  | .logLevel => "log_level"
  | .workerCount => "worker_count"
  | .workerMaxBatch => "worker_max_batch"
  | .mainLoopSleepMs => "mainloop_sleep_ms"
  | .busyStealIntervalUs => "busy_steal_interval_us"
  | .idleStealIntervalUs => "idle_steal_interval_us"
  | .parkSpinNs => "park_spin_ns"
  | .tokenGraceNs => "token_grace_ns"
  | .defaultMailboxSize => "default_mailbox_size"
  | .dispatcherQueueCapacity => "dispatcher_queue_capacity"
  | .dispatcherHighWatermark => "dispatcher_high_watermark"
  | .supervisorMaxRestarts => "supervisor_max_restarts"
  | .supervisorDefaultStrategy => "supervisor_default_strategy"
  | .deadLetterQueueCapacity => "dead_letter_queue_capacity"
  | .logFlushBufferSize => "log_flush_buffer_size"
  | .memorySlabSize => "memory_slab_size"
  | .memoryMaxPoolAllocSize => "memory_max_pool_alloc_size"
  | .memoryMaxPools => "memory_max_pools"
  | .memoryTlsBatchSize => "memory_tls_batch_size"
  | .messageInlineBufferSize => "message_inline_buffer_size"
  | .enableTick => "enable_tick"
  | .tickIntervalMs => "tick_interval_ms"
  | .enableMonitor => "enable_monitor"
  | .monitorSocketPath => "monitor_socket_path"
  | .monitorPollIntervalMs => "monitor_poll_interval_ms"
  | .monitorRecvBufferSize => "monitor_recv_buffer_size"
  | .monitorBacklog => "monitor_backlog"
  | .enableDeviceManager => "enable_device_manager"
  | .enableMetrics => "enable_metrics"
  | .epollMaxEvents => "epoll_max_events"
  | .epollWaitTimeoutMs => "epoll_wait_timeout_ms"
  | .enableIpcServer => "enable_ipc_server"
  | .ipcSocketPath => "ipc_socket_path"
  | .ipcRecvBufferSize => "ipc_recv_buffer_size"
  | .udsBacklog => "uds_backlog"
  | .enableDbus => "enable_dbus"
  | .dbusBusName => "dbus_bus_name"
  | .dbusObjectPath => "dbus_object_path"
  | .dbusInterfaceName => "dbus_interface_name"
  | .enableNetworkManager => "enable_network_manager"

end Field

def RuntimeConfig : Type := (field : Field) → field.kind.Value

/-- The default member initializers; the one of `logLevel` is set by the build. -/
def RuntimeConfig.initial (logLevel : Int32) : RuntimeConfig
  | .logLevel => logLevel
  | .workerCount => (4 : Int32)
  | .workerMaxBatch => (32 : Int32)
  | .mainLoopSleepMs => (1000 : Int32)
  | .busyStealIntervalUs => (200 : Int32)
  | .idleStealIntervalUs => (2000 : Int32)
  | .parkSpinNs => (3000 : Int32)
  | .tokenGraceNs => (5000 : Int32)
  | .defaultMailboxSize => (512 : Int32)
  | .dispatcherQueueCapacity => (1024 : Int32)
  | .dispatcherHighWatermark => (0 : Int32)
  | .supervisorMaxRestarts => (5 : Int32)
  | .supervisorDefaultStrategy => (0 : Int32)
  | .deadLetterQueueCapacity => (128 : Int32)
  | .logFlushBufferSize => (512 : Int32)
  | .memorySlabSize => (4096 : Int32)
  | .memoryMaxPoolAllocSize => (2048 : Int32)
  | .memoryMaxPools => (16 : Int32)
  | .memoryTlsBatchSize => (64 : Int32)
  | .messageInlineBufferSize => (64 : Int32)
  | .enableTick => false
  | .tickIntervalMs => (100 : Int32)
  | .enableMonitor => false
  | .monitorSocketPath => "/tmp/v2_monitor.sock"
  | .monitorPollIntervalMs => (500 : Int32)
  | .monitorRecvBufferSize => (4096 : Int32)
  | .monitorBacklog => (5 : Int32)
  | .enableDeviceManager => false
  | .enableMetrics => false
  | .epollMaxEvents => (64 : Int32)
  | .epollWaitTimeoutMs => (1000 : Int32)
  | .enableIpcServer => false
  | .ipcSocketPath => "/tmp/v2_ipc.sock"
  | .ipcRecvBufferSize => (4096 : Int32)
  | .udsBacklog => (5 : Int32)
  | .enableDbus => false
  | .dbusBusName => "com.v2.engine"
  | .dbusObjectPath => "/com/v2/engine"
  | .dbusInterfaceName => "com.v2.engine"
  | .enableNetworkManager => false

/-- The assignments of `loadFromFile` from the first to the last. -/
def assignments : List Field :=
  [.logLevel, .workerCount, .workerMaxBatch, .mainLoopSleepMs, .busyStealIntervalUs, .idleStealIntervalUs,
   .parkSpinNs, .tokenGraceNs, .defaultMailboxSize, .dispatcherQueueCapacity, .dispatcherHighWatermark,
   .supervisorMaxRestarts, .supervisorDefaultStrategy, .deadLetterQueueCapacity, .logFlushBufferSize,
   .memorySlabSize, .memoryMaxPoolAllocSize, .memoryMaxPools, .memoryTlsBatchSize, .messageInlineBufferSize,
   .enableTick, .tickIntervalMs, .enableMonitor, .monitorSocketPath, .monitorPollIntervalMs,
   .monitorRecvBufferSize, .monitorBacklog, .enableDeviceManager, .enableMetrics, .epollMaxEvents,
   .epollWaitTimeoutMs, .enableIpcServer, .ipcSocketPath, .ipcRecvBufferSize, .udsBacklog, .enableDbus,
   .dbusBusName, .dbusObjectPath, .dbusInterfaceName, .enableNetworkManager]

variable {F D Str : Type} {floats : Floats F D} {j : Json D} {field : Field} {fields : List Field} {cfg : RuntimeConfig}

/-- The implicit conversion to the type of a member; none where it throws. -/
def Field.convert (floats : Floats F D) : (kind : Kind) → Json D → Option kind.Value
  | .int, j => j.getInt floats
  | .bool, j => j.getBool
  | .string, j => j.getString

/-- `contains` and `operator[]`: only an object has keys. -/
def Field.lookup (j : Json D) (field : Field) : Option (Json D) :=
  match j with
  | .object members => members.lookup field.key
  | _ => none

def RuntimeConfig.set (cfg : RuntimeConfig) (field : Field) (found : field.kind.Value) : RuntimeConfig :=
  Function.update cfg field found

theorem RuntimeConfig.set_self (cfg : RuntimeConfig) (field : Field) (found : field.kind.Value) :
    cfg.set field found field = found := Function.update_self ..

theorem RuntimeConfig.set_of_ne (cfg : RuntimeConfig) {field other : Field} (h : other ≠ field) (found : field.kind.Value) :
    cfg.set field found other = cfg other := Function.update_of_ne h ..

/-- The assignments in turn, until one of them throws. -/
def assignAll (floats : Floats F D) (j : Json D) : List Field → RuntimeConfig → RuntimeConfig
  | [], cfg => cfg
  | field :: rest, cfg => match field.lookup j with
    | none => assignAll floats j rest cfg
    | some item => match Field.convert floats field.kind item with
      | none => cfg
      | some found => assignAll floats j rest (cfg.set field found)

/-- `content` is none when the file cannot be opened, `parse` when the text is not json. -/
def RuntimeConfig.loadFromFile (floats : Floats F D) (parse : Str → Option (Json D)) (logLevel : Int32)
    (content : Option Str) : RuntimeConfig :=
  match content >>= parse with
  | none => .initial logLevel
  | some j => assignAll floats j assignments (.initial logLevel)

/-- The key of the member is there with a value of another type. -/
def Field.fails (floats : Floats F D) (j : Json D) (field : Field) : Bool :=
  match field.lookup j with
  | none => false
  | some item => (Field.convert floats field.kind item).isNone

/-- The member holds what its key says, or stays as it was. -/
def Field.Follows (floats : Floats F D) (j : Json D) (before after : RuntimeConfig) (field : Field) : Prop :=
  (field.lookup j = none → after field = before field) ∧
    ∀ item ∈ field.lookup j, Field.convert floats field.kind item = some (after field)

/-- The configuration is that of the file, or the default one if the file has a fault anywhere. -/
structure AllOrDefaults (floats : Floats F D) (read : Option (Json D)) (initial found : RuntimeConfig) : Prop where
  unreadable : read = none → found = initial
  faulty : ∀ j ∈ read, (∃ field : Field, field.fails floats j = true) → found = initial
  followed : ∀ j ∈ read, (∀ field : Field, field.fails floats j = false) →
    ∀ field : Field, field.Follows floats j initial found

/-- The keys before the first one that fails are not there, or say what is the default anyway. -/
def Harmless (floats : Floats F D) (initial : RuntimeConfig) (j : Json D) : Prop :=
  (∃ field : Field, field.fails floats j = true) →
    ∀ field ∈ assignments.takeWhile fun field => !field.fails floats j, field.Follows floats j initial initial

theorem nodup_assignments : assignments.Nodup := by decide

theorem mem_assignments (field : Field) : field ∈ assignments := by cases field <;> decide

/-- Each member has a key of its own. -/
theorem Field.key_injective : Function.Injective Field.key := by
  have hNodup : (assignments.map Field.key).Nodup := by decide +kernel
  intro field other h
  exact List.inj_on_of_nodup_map hNodup (mem_assignments field) (mem_assignments other) h

theorem Field.Follows.eq_of_follows {before after after' : RuntimeConfig} (h : field.Follows floats j before after)
    (h' : field.Follows floats j before after') : after field = after' field := by
  cases hLookup : field.lookup j with
  | none => rw [h.1 hLookup, h'.1 hLookup]
  | some item => exact Option.some.inj ((h.2 item hLookup).symm.trans (h'.2 item hLookup))

theorem Field.convert_of_not_fails {item : Json D} (hFine : field.fails floats j = false) (hLookup : field.lookup j = some item) :
    ∃ found, Field.convert floats field.kind item = some found := by
  rw [Field.fails, hLookup] at hFine
  exact Option.isSome_iff_exists.mp (Option.isNone_eq_false_iff.mp hFine)

/-- The members up to the first failing one follow their keys, the others stay as they were. -/
theorem follows_assignAll (floats : Floats F D) (j : Json D) (hNodup : fields.Nodup) : ∀ cfg : RuntimeConfig,
    (∀ field ∈ fields.takeWhile fun field => !field.fails floats j,
      field.Follows floats j cfg (assignAll floats j fields cfg)) ∧
    ∀ field ∉ fields.takeWhile fun field => !field.fails floats j,
      assignAll floats j fields cfg field = cfg field := by
  induction fields with
  | nil => exact fun cfg => ⟨fun _ h => (List.not_mem_nil h).elim, fun _ _ => rfl⟩
  | cons field fields ih =>
      intro cfg
      obtain ⟨hNew, hRest⟩ := List.nodup_cons.mp hNodup
      cases hFails : field.fails floats j with
      | true =>
          have hAssign : assignAll floats j (field :: fields) cfg = cfg := by
            unfold Field.fails at hFails
            split at hFails
            · cases hFails
            · rename_i item hLookup
              simp only [assignAll, hLookup, Option.isNone_iff_eq_none.mp hFails]
          rw [List.takeWhile_cons_of_neg (by simp [hFails])]
          refine ⟨fun _ h => (List.not_mem_nil h).elim, fun f _ => ?_⟩
          rw [hAssign]
      | false =>
          rw [List.takeWhile_cons_of_pos (by simp [hFails])]
          have hLater : field ∉ fields.takeWhile fun field => !field.fails floats j := fun h =>
            hNew (List.takeWhile_subset _ h)
          -- what the rest does to a configuration in which this member has got its value
          have hCases : ∃ cfg', assignAll floats j (field :: fields) cfg = assignAll floats j fields cfg' ∧
              field.Follows floats j cfg cfg' ∧ ∀ other ≠ field, cfg' other = cfg other := by
            cases hLookup : field.lookup j with
            | none =>
                refine ⟨cfg, by simp only [assignAll, hLookup], ⟨fun _ => rfl, fun item h => ?_⟩, fun _ _ => rfl⟩
                cases hLookup.symm.trans h
            | some item =>
                obtain ⟨found, hConvert⟩ := Field.convert_of_not_fails hFails hLookup
                refine ⟨cfg.set field found, by simp only [assignAll, hLookup, hConvert], ⟨fun h => ?_, fun _ h => ?_⟩,
                  fun other hOther => cfg.set_of_ne hOther found⟩
                · cases hLookup.symm.trans h
                · cases hLookup.symm.trans h
                  rw [hConvert, cfg.set_self]
          obtain ⟨cfg', hAssign, hFollows, hSame⟩ := hCases
          obtain ⟨hBefore, hElse⟩ := ih hRest cfg'
          rw [hAssign]
          constructor
          · intro f hf
            rcases List.mem_cons.mp hf with rfl | hf
            · unfold Field.Follows
              rw [hElse f hLater]
              exact hFollows
            · obtain ⟨hAbsent, hPresent⟩ := hBefore f hf
              refine ⟨fun h => ?_, hPresent⟩
              rw [hAbsent h, hSame f fun h => hLater (h ▸ hf)]
          · intro f hf
            rw [hElse f fun h => hf (List.mem_cons_of_mem _ h)]
            exact hSame f fun h => hf (h ▸ List.mem_cons_self)

/-- The loader keeps to all or nothing exactly for the files that are unreadable or have no value
before the first fault that differs from its default. -/
theorem allOrDefaults_iff (floats : Floats F D) (parse : Str → Option (Json D)) (logLevel : Int32)
    (content : Option Str) :
    AllOrDefaults floats (content >>= parse) (.initial logLevel) (.loadFromFile floats parse logLevel content) ↔
      ∀ j ∈ content >>= parse, Harmless floats (.initial logLevel) j := by
  unfold RuntimeConfig.loadFromFile
  cases content >>= parse with
  | none =>
      refine iff_of_true ⟨fun _ => rfl, fun j h => ?_, fun j h => ?_⟩ fun j h => ?_ <;> cases h
  | some j =>
      obtain ⟨hBefore, hElse⟩ := follows_assignAll floats j nodup_assignments (.initial logLevel)
      by_cases hFault : ∃ field : Field, field.fails floats j = true
      · constructor
        · intro found j' hj' _ field hField
          cases hj'
          have hDefault := found.faulty j rfl hFault
          replace hDefault : assignAll floats j assignments (.initial logLevel) = .initial logLevel := hDefault
          rw [hDefault] at hBefore
          exact hBefore field hField
        · intro hHarmless
          have hDefault : assignAll floats j assignments (.initial logLevel) = .initial logLevel := by
            funext field
            by_cases hField : field ∈ assignments.takeWhile fun field => !field.fails floats j
            · exact (hBefore field hField).eq_of_follows (hHarmless j rfl hFault field hField)
            · exact hElse field hField
          refine ⟨fun _ => hDefault, fun _ _ _ => hDefault, fun j' hj' hFine => ?_⟩
          cases hj'
          obtain ⟨field, hField⟩ := hFault
          cases (hFine field).symm.trans hField
      · have hFine : ∀ field : Field, field.fails floats j = false := fun field =>
          Bool.eq_false_iff.mpr fun h => hFault ⟨field, h⟩
        have hAll : (assignments.takeWhile fun field => !field.fails floats j) = assignments :=
          List.takeWhile_eq_self_iff.mpr fun field _ => by simp [hFine]
        refine iff_of_true ⟨fun h => (by cases h), fun j' hj' h => ?_, fun j' hj' _ field => ?_⟩ fun j' hj' h => ?_
        · cases hj'
          exact absurd h hFault
        · cases hj'
          apply hBefore
          rw [hAll]
          exact mem_assignments field
        · cases hj'
          exact absurd h hFault

section HalfGood

/-- A file with a worker count and a mailbox size that is not a number. -/
def halfGood : Json Int := .object [("default_mailbox_size", .string "large"), ("worker_count", .number 8)]

def noFloats : Floats Int Int := ⟨id, id, fun _ => true, id, Int32.ofInt⟩

/-- The worker count is that of the file, the mailbox size and all that comes after it are defaults. -/
theorem not_allOrDefaults_halfGood :
    ¬AllOrDefaults noFloats (some halfGood) (.initial 4) (.loadFromFile noFloats (fun _ : String => some halfGood) 4 (some "")) := by
  intro found
  have hDefault := found.faulty halfGood rfl ⟨.defaultMailboxSize, by decide +kernel⟩
  have hWorkers := congrFun hDefault .workerCount
  exact absurd (show (8 : Int32) = 4 from hWorkers) (by decide)

end HalfGood

end Infra
