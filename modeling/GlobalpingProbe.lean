import GlobalpingProbe.Util.OutputLimit
import GlobalpingProbe.Util.LogsTransport
import GlobalpingProbe.Util.EmbeddedIpv4
import GlobalpingProbe.Util.ProgressBuffer
import GlobalpingProbe.Command.NumericAlias
import GlobalpingProbe.Command.Arguments
import GlobalpingProbe.Command.Http.TruncateSafety
import GlobalpingProbe.Command.Http.HeaderLimit
import GlobalpingProbe.Command.Http.HeaderDump
import GlobalpingProbe.Command.Http.LeastLoss
import GlobalpingProbe.Command.Http.CurlArgs
import GlobalpingProbe.Command.Http.HeaderGroups
import GlobalpingProbe.Command.Http.Timings
import GlobalpingProbe.Command.Http.TlsInfo
import GlobalpingProbe.Command.Http.Guarded
import GlobalpingProbe.Command.Http.Served
import GlobalpingProbe.Command.Traceroute.Arguments
import GlobalpingProbe.Command.Traceroute.Gateway
import GlobalpingProbe.Command.Traceroute.Transcript
import GlobalpingProbe.Command.Ping.Statistics
import GlobalpingProbe.Command.Ping.Hostname
import GlobalpingProbe.Command.Streaming
import GlobalpingProbe.Command.Mtr.PrivateTarget
import GlobalpingProbe.Command.Mtr.Duplicates
import GlobalpingProbe.Command.Mtr.Accounting
import GlobalpingProbe.Command.Mtr.Hostnames
import GlobalpingProbe.Command.Mtr.StatsOrder
import GlobalpingProbe.Command.Mtr.ShownHops
import GlobalpingProbe.Command.Mtr.Interleaving
import GlobalpingProbe.Command.Mtr.Lookups
import GlobalpingProbe.Command.Dns.DigLayout
import GlobalpingProbe.Command.Dns.RoundTrip
import GlobalpingProbe.Command.Dns.Disclosure
import GlobalpingProbe.Command.Dns.TraceLayout
import GlobalpingProbe.Probe.DnsServers
import GlobalpingProbe.Probe.OutputCap
import GlobalpingProbe.Probe.ProgressOrder
import GlobalpingProbe.Probe.ConcurrencyCap
import GlobalpingProbe.Probe.GracefulShutdown
import GlobalpingProbe.Probe.StatsSnapshot
import GlobalpingProbe.Probe.StatsReport
import GlobalpingProbe.Probe.LogsReport
import GlobalpingProbe.Probe.Readiness
import GlobalpingProbe.Probe.ChildLifetime
import GlobalpingProbe.Probe.TruncatedFlag
import GlobalpingProbe.Probe.Reconnect
import GlobalpingProbe.Probe.OutcomeSignal
import GlobalpingProbe.Probe.SignalTermination
import GlobalpingProbe.Probe.Uuid
import GlobalpingProbe.Probe.StatusLoop
import GlobalpingProbe.Status.ClientVerdict
import GlobalpingProbe.Status.ManagerCalls
import GlobalpingProbe.Status.DisconnectPenalty
