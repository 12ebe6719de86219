import NanoSensor.Foundation.Bytes
import NanoSensor.Foundation.Framing
import NanoSensor.Foundation.SegmentedQueue
import NanoSensor.Spool.Frame
import NanoSensor.Spool.Disk
import NanoSensor.Spool.Model
import NanoSensor.Spool.Layout
import NanoSensor.Spool.Open
import NanoSensor.Spool.Commit
import NanoSensor.Spool.Evict
import NanoSensor.Spool.Append
import NanoSensor.Spool.Runs
import NanoSensor.Spool.Queue
import NanoSensor.Spool.Torn
import NanoSensor.Spool.Crash
import NanoSensor.Report.Drain
import NanoSensor.Foundation.ThreeWay
import NanoSensor.Version.Compare
import NanoSensor.Foundation.JsonText
import NanoSensor.Json.Writer
import NanoSensor.Inventory.Record
import NanoSensor.Cve.Index
import NanoSensor.Cve.Builder
import NanoSensor.Foundation.Walk
import NanoSensor.Spool.Sites
import NanoSensor.Spool.Stale
import NanoSensor.Agent.Requests
import NanoSensor.Json.Tree
import NanoSensor.Agent.Locks
import NanoSensor.Ipc.Server
import NanoSensor.Cve.Aliases
import NanoSensor.Cve.Scan
import NanoSensor.Foundation.Runs
import NanoSensor.Version.Laws
import NanoSensor.Cve.Match
import NanoSensor.Cve.Fallback
import NanoSensor.Spool.Budget
import NanoSensor.Db.Server
import NanoSensor.Db.Record
import NanoSensor.Db.History
import NanoSensor.Db.Queries
import NanoSensor.Db.Write
import NanoSensor.Report.Watchdog
import NanoSensor.Foundation.Numerals
import NanoSensor.Ipc.Client
import NanoSensor.Platform.ProcNet
import NanoSensor.Foundation.Checksum
import NanoSensor.Spool.Codec
import NanoSensor.Spool.Buffered
import NanoSensor.Spool.Failure
import NanoSensor.Version.Growth
import NanoSensor.Transport.Url
import NanoSensor.Transport.Response
import NanoSensor.Foundation.Calls
import NanoSensor.Transport.OpenSsl
import NanoSensor.Transport.WinHttp
import NanoSensor.Foundation.Argv
import NanoSensor.Service.CommandLine
import NanoSensor.Spool.Kill
import NanoSensor.Report.Records
import NanoSensor.Report.Cloud
import NanoSensor.Report.Delivery
import NanoSensor.Agent.Watchdog
import NanoSensor.Ipc.Serve
import NanoSensor.Ipc.Exchange
import NanoSensor.Ipc.Shutdown
import NanoSensor.Transport.Wire
import NanoSensor.Service.Options
import NanoSensor.Cve.Vuln
import NanoSensor.Agent.Control
import NanoSensor.Agent.Answers
import NanoSensor.Service.Status
import NanoSensor.Platform.Procfs
import NanoSensor.Platform.Exposure
