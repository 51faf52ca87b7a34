import V2Engine.Interleaving.Program
import V2Engine.Interleaving.Ledger
import V2Engine.Interleaving.Inevitable
import V2Engine.Interleaving.Calls
import V2Engine.Interleaving.Counted
import V2Engine.Interleaving.Watched
import V2Engine.Interleaving.Channels
import V2Engine.Interleaving.Commuting
import V2Engine.Interleaving.Refinement
import V2Engine.WeakMemory.Views
import V2Engine.Ring.Tickets
import V2Engine.Ring.Frame
import V2Engine.Ring.Contents
import V2Engine.Container.Push
import V2Engine.Container.LockFreeMpmcQueue
import V2Engine.Container.LockFreeMpscQueue
import V2Engine.Container.BoundedFifo
import V2Engine.Container.RingBuffer
import V2Engine.Container.PushOrders
import V2Engine.Container.MpmcOrders
import V2Engine.Container.MpscOrders
import V2Engine.Dispatcher.WorkDispatcher
import V2Engine.Dispatcher.LeastLoaded
import V2Engine.Runtime.ActorRuntime
import V2Engine.Runtime.Conservation
import V2Engine.Runtime.Returning
import V2Engine.Runtime.Restarting
import V2Engine.Runtime.RestartBudget
import V2Engine.System.Threads
import V2Engine.System.Moves
import V2Engine.System.Flags
import V2Engine.System.Mailboxes
import V2Engine.System.Tokens
import V2Engine.System.Wakeup
import V2Engine.System.Mutex
import V2Engine.System.Overflow
import V2Engine.System.Accounting
import V2Engine.System.Restart
import V2Engine.System.Permits
import V2Engine.System.Delivery
import V2Engine.System.Lifecycle
import V2Engine.System.Parked
import V2Engine.System.Drain
import V2Engine.System.Containment
import V2Engine.System.Shutdown
import V2Engine.System.Storms
import V2Engine.System.TotalRestarts
import V2Engine.System.Actors
import V2Engine.System.TokenOrders
import V2Engine.Actor.ActorRegistry
import V2Engine.Actor.RegistryIndex
import V2Engine.Lifetime.Registry
import V2Engine.Lifetime.Claims
import V2Engine.Messages.Letters
import V2Engine.Messages.Lifetime
import V2Engine.Messages.Faults
import V2Engine.Memory.SlabBound
import V2Engine.Memory.Census
import V2Engine.Memory.PoolBalance
import V2Engine.Memory.PoolOwnership
import V2Engine.Memory.PoolAlignment
import V2Engine.Memory.PoolSupply
import V2Engine.Memory.PoolLifetimes
import V2Engine.Memory.Bookkeeping
import V2Engine.Memory.StackBuffer
import V2Engine.Memory.BufferedCache
import V2Engine.Memory.CacheBounds
import V2Engine.Memory.ByteMemory
import V2Engine.Memory.ThreadedLists
import V2Engine.Heap.BinaryHeap
import V2Engine.Timer.TimerBase
import V2Engine.Timer.ExpiryPass
import V2Engine.Timer.SlotAccounting
import V2Engine.Timer.LinuxTimer
import V2Engine.Timer.TimerThread
import V2Engine.Timer.Scheduler
import V2Engine.Timer.TimedDelivery
import V2Engine.Timer.RuntimeTimers
import V2Engine.Timer.TimerTargets
import V2Engine.EventLoop.EventLoopEpoll
import V2Engine.EventLoop.Posting
import V2Engine.EventLoop.Registration
import V2Engine.EventLoop.WakingUp
import V2Engine.EventLoop.WakingInTime
import V2Engine.Text.Split
import V2Engine.Text.Json
import V2Engine.Numbers.FloatFormat
import V2Engine.Numbers.Numerals
import V2Engine.Service.MonitorData
import V2Engine.Service.SnapshotText
import V2Engine.Service.CmdActor
import V2Engine.Service.CmdAnswers
import V2Engine.Service.IpcServerActor
import V2Engine.Service.IpcFraming
import V2Engine.Service.IpcRouting
import V2Engine.Service.Acceptor
import V2Engine.Service.AcceptedSockets
import V2Engine.Service.DbusServerHandler
import V2Engine.Service.Monitoring
import V2Engine.Service.MonitorDemand
import V2Engine.Service.MonitorRestarts
import V2Engine.Service.PollingTimers
import V2Engine.Service.DeviceManager
import V2Engine.Service.WifiHandler
import V2Engine.Service.NetworkManager
import V2Engine.Infra.UdsServer
import V2Engine.Infra.JsonConfigLoader
import V2Engine.Infra.SysLinux
import V2Engine.Infra.PmuRsp5
import V2Engine.App.CommandLine
import V2Engine.App.CliApp
import V2Engine.App.TuiApp
import V2Engine.App.DaemonResponse
import V2Engine.Perf.Metrics
import V2Engine.Log.Logger
