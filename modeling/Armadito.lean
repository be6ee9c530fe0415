import Armadito.Base
import Armadito.Os.Dir
import Armadito.Os.DirContract
import Armadito.Core.Report
import Armadito.Core.ScanConf
import Armadito.Core.ScanCtx
import Armadito.Core.OnDemand
import Armadito.Core.Traversal
import Armadito.Core.WhiteList
import Armadito.Core.Verdict
import Armadito.Core.Greatest
import Armadito.Core.Decider
import Armadito.Lib.Run
import Armadito.OnAccess.FaMonitor
import Armadito.OnAccess.Protocol
import Armadito.OnAccess.Answers
import Armadito.OnAccess.Notify
import Armadito.Core.Event
import Armadito.Jrpc.Json
import Armadito.Jrpc.Marshall
import Armadito.Rpc.RpcBe
import Armadito.Rpc.ScanRequest
import Armadito.Rpc.Listeners
import Armadito.Conf.Entries
import Armadito.Conf.Scanner
import Armadito.Conf.Parser
import Armadito.Conf.Grammar
import Armadito.Conf.Accept
import Armadito.Conf.Sections
import Armadito.Conf.Parse
import Armadito.Conf.Load
import Armadito.Conf.Order
import Armadito.Conf.Save
import Armadito.Conf.Lex
import Armadito.Conf.RoundTrip
import Armadito.Jrpc.KeyedHash
import Armadito.Lib.ProbeTable
import Armadito.Jrpc.KeyedTable
import Armadito.Jrpc.KeyedMap
import Armadito.Jrpc.IntTable
import Armadito.Jrpc.Connection
import Armadito.Jrpc.Dispatch
import Armadito.Jrpc.Calls
import Armadito.Jrpc.Requests
import Armadito.Jrpc.Outcomes
import Armadito.Jrpc.Mapper
import Armadito.Lib.Framing
import Armadito.Jrpc.Framing
import Armadito.Jrpc.Schema
import Armadito.Jrpc.SchemaTypes
import Armadito.Jrpc.SchemaMarshall
import Armadito.Jrpc.SchemaRoundTrip
import Armadito.Core.EventNew
import Armadito.Rpc.RpcDefs
import Armadito.Rpc.EventWire
import Armadito.Core.Producers
import Armadito.Core.DetectionText
import Armadito.Rpc.Routing
import Armadito.Rpc.RoutingRuns
import Armadito.Conf.Api
import Armadito.Conf.OrderedMap
import Armadito.Conf.FinalNewline
import Armadito.Core.Info
import Armadito.Core.ModuleManager
import Armadito.Lib.DirTree
import Armadito.Lib.DoublyLinked
import Armadito.OnAccess.Queue
import Armadito.Lib.Tally
import Armadito.Core.Pool
import Armadito.Core.Counting
import Armadito.Core.Counters
import Armadito.Core.ScanFile
import Armadito.Lib.InOrder
import Armadito.Core.Progress
import Armadito.Lib.Memo
import Armadito.Core.MimeCache
import Armadito.Core.Selectable
import Armadito.Core.PoolRuns
import Armadito.Core.FileReport
import Armadito.Core.FixedFiles
import Armadito.Core.Races
import Armadito.Core.Threaded
import Armadito.OnAccess.Watchdog
import Armadito.OnAccess.WatchdogAnswers
import Armadito.OnAccess.WatchdogRuns
import Armadito.OnAccess.WatchdogVerdicts
import Armadito.OnAccess.Monitor
import Armadito.Lib.InverseTables
import Armadito.OnAccess.MonitorMarks
import Armadito.OnAccess.MonitorTables
import Armadito.Conf.Scanned
import Armadito.Conf.Loaded
import Armadito.Conf.Written
import Armadito.Conf.Survival
import Armadito.Conf.Integers
import Armadito.Jrpc.KeyedCalls
import Armadito.Jrpc.Occupancy
import Armadito.Jrpc.SchemaComplete
import Armadito.Rpc.Dropped
import Armadito.Rpc.InfoWire
import Armadito.Jrpc.ErrorCodes
import Armadito.Core.Journal
import Armadito.Jrpc.Buffer
import Armadito.Lib.SlotPool
import Armadito.OnDemand.ScanPool
import Armadito.OnDemand.PoolRuns
import Armadito.OnAccess.Stamp
import Armadito.Jrpc.ProbeChains
import Armadito.Conf.Termination
import Armadito.Os.WindowsDir
import Armadito.OnAccess.DevicePath
import Armadito.Conf.Registry
import Armadito.Os.OptionNames
import Armadito.OnAccess.ScanPort
import Armadito.OnAccess.ScanPortRuns
import Armadito.Quarantine.Callback
import Armadito.Quarantine.Linux
import Armadito.Lib.LastCut
import Armadito.Quarantine.LinuxRuns
import Armadito.Quarantine.Windows
import Armadito.Quarantine.WindowsRuns
import Armadito.Conf.RegistryTree
import Armadito.Conf.RegistryRoundTrip
import Armadito.Conf.ConfDir
import Armadito.Core.ScanTrace
import Armadito.Tools.ArmaditoScan
import Armadito.Tools.ScanSession
import Armadito.Rpc.InfoDelivery
import Armadito.Rpc.StatusMethod
import Armadito.Tools.ArmaditoInfo
import Armadito.Tools.InfoSession
import Armadito.Lib.Bytes
import Armadito.OnAccess.EventBuffer
import Armadito.OnAccess.InotifyBuffer
import Armadito.Lib.Overlay
import Armadito.OnAccess.Mounts
import Armadito.OnAccess.MountRuns
import Armadito.Daemon.Settings
import Armadito.Daemon.Protection
