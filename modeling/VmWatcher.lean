import VmWatcher.Misc.Mealy
import VmWatcher.Misc.TracedArith
import VmWatcher.Misc.Reservoir
import VmWatcher.Misc.VirtualSchedule
import VmWatcher.Misc.OpProg
import VmWatcher.Misc.OpEnv
import VmWatcher.Misc.Table
import VmWatcher.Misc.RingLog
import VmWatcher.Misc.ExceptRules
import VmWatcher.Misc.BitPrefix
import VmWatcher.Misc.Cadence
import VmWatcher.Misc.Streak
import VmWatcher.Misc.Exposition
import VmWatcher.Misc.Tickets
import VmWatcher.Misc.Trace
import VmWatcher.Misc.Calendar
import VmWatcher.Common
import VmWatcher.Core.Text
import VmWatcher.Core.Units
import VmWatcher.Core.ConfigFile
import VmWatcher.Core.IpRange
import VmWatcher.Core.Policy
import VmWatcher.Core.Window
import VmWatcher.Core.Config
import VmWatcher.Core.Limiter
import VmWatcher.Core.Swl
import VmWatcher.Ebpf.Policers
import VmWatcher.Ebpf.Maps
import VmWatcher.Ebpf.Trie
import VmWatcher.Ebpf.Counters
import VmWatcher.Ebpf.Classifier
import VmWatcher.Daemon.Collector
import VmWatcher.Daemon.Metrics
import VmWatcher.Daemon.TxMaps
import VmWatcher.Daemon.Apply
import VmWatcher.Daemon.Shape
import VmWatcher.Daemon.TxRules
import VmWatcher.Daemon.Capacity
import VmWatcher.Daemon.System
import VmWatcher.Daemon.Timers
import VmWatcher.Daemon.Loop
import VmWatcher.Ui.State
import VmWatcher.Ui.Loop
import VmWatcher.Daemon.Proofs.Stages
import VmWatcher.Daemon.Proofs.HardInvariant
import VmWatcher.Daemon.Proofs.Rollback
import VmWatcher.Ebpf.Proofs.WindowExact
import VmWatcher.Ebpf.Proofs.BucketExact
import VmWatcher.Ebpf.Proofs.Buckets
import VmWatcher.Ebpf.Proofs.Gcra
import VmWatcher.Core.Proofs.Accepted
import VmWatcher.Core.Proofs.Tick
import VmWatcher.Core.Proofs.Reload
import VmWatcher.Core.Proofs.Recovery
import VmWatcher.Core.Proofs.Ranges
import VmWatcher.Core.Proofs.Emitted
import VmWatcher.Core.Proofs.Reconcile
import VmWatcher.Core.Proofs.Enforced
import VmWatcher.Core.Proofs.WindowLog
import VmWatcher.Core.Proofs.WindowSpec
import VmWatcher.Core.Proofs.Measured
import VmWatcher.Core.Proofs.Resolution
import VmWatcher.Core.Proofs.Prefixes
import VmWatcher.Core.Proofs.Minimal
import VmWatcher.Daemon.Proofs.Frame
import VmWatcher.Daemon.Proofs.Agreement
import VmWatcher.Daemon.Proofs.Room
import VmWatcher.Daemon.Proofs.Isolation
import VmWatcher.Daemon.Proofs.Ordering
import VmWatcher.Daemon.Proofs.Whitelist
import VmWatcher.Daemon.Proofs.Metering
import VmWatcher.Ebpf.Proofs.SwlLog
import VmWatcher.Ebpf.Proofs.Artifacts
import VmWatcher.Ebpf.Proofs.NoWrap
import VmWatcher.Ebpf.Proofs.Admission
import VmWatcher.Ebpf.Proofs.Idle
import VmWatcher.Ebpf.Proofs.WindowBurst
import VmWatcher.Ebpf.Proofs.Classifier
import VmWatcher.Daemon.Proofs.Counted
import VmWatcher.Daemon.Proofs.Clock
import VmWatcher.Daemon.Proofs.RealTime
import VmWatcher.Daemon.Proofs.IdleKeys
import VmWatcher.Daemon.Proofs.Memory
import VmWatcher.Daemon.Proofs.Deadlines
import VmWatcher.Daemon.Proofs.Attach
import VmWatcher.Daemon.Proofs.Rescan
import VmWatcher.Daemon.Proofs.Metrics
import VmWatcher.Core.Proofs.Units
import VmWatcher.Ui.Proofs.Selection
import VmWatcher.Daemon.Proofs.Oversized
import VmWatcher.Daemon.Proofs.Pairing
import VmWatcher.Core.Ipc
import VmWatcher.Core.TimeFmt
import VmWatcher.Core.Proofs.TimeFmt
import VmWatcher.Daemon.Connection
import VmWatcher.Daemon.Engine
import VmWatcher.Daemon.Proofs.Accounting
import VmWatcher.Daemon.Proofs.Blame
import VmWatcher.Daemon.Proofs.Connection
import VmWatcher.Daemon.Proofs.Push
import VmWatcher.Daemon.Proofs.Replies
import VmWatcher.Daemon.Proofs.Watch
import VmWatcher.Ui.Client
import VmWatcher.Ui.Proofs.Client
