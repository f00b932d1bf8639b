import GlobalpingProbe.Command.Mtr.Output
import GlobalpingProbe.Command.Ping.Parse
import GlobalpingProbe.Foundation.Join
import GlobalpingProbe.Net.IpLiteral
import GlobalpingProbe.Status.StatusManager

/-! # What the health checks measure

The ping test repeats a ping of the API for each IP version; the ICMP against TCP test pings a few
hosts while it connects to them. Both measure for the two versions at once. How results of floating
point are rounded is left open here.
-/
namespace GlobalpingProbe.Status
open Foundation Net Command Mtr

/-- How a ping ends, within its time or not. -/
inductive PingRun where
  | exited (stdout : Text)
  | spawnFailed (error : Text)
  | timedOut
  deriving DecidableEq, Repr

/-- What a round of the status loop asks of the system, of the manager and of the socket. -/
inductive HealthAsk where
  | ping (args : List Text) (timeoutSecs : ℕ)
  | connect (addr : IpAddr) (port timeoutMs : ℕ)
  | sleep (ms : ℕ)
  | setPingTestFailed (failed : Bool)
  /-- The disconnects are counted again before the status is read. -/
  | setIcmpTcpTestFailed (failed : Bool)
  | resolvConf
  | emit (event : Text) (payload : Json)

/-- A connection that is made in time has the milliseconds that it took. -/
abbrev HealthAsk.Answer : HealthAsk → Type
  | .ping .. => PingRun
  | .connect .. => Option Foundation.F64
  | .sleep _ => Unit
  | .setPingTestFailed _ => Unit
  | .setIcmpTcpTestFailed _ => ProbeStatus
  | .resolvConf => Option Text
  | .emit .. => Bool

abbrev HealthProgram (R : Type) := Program HealthAsk.Answer R

/-- The operations of floating point that round. -/
structure FloatOps where
  add : Foundation.F64 → Foundation.F64 → Foundation.F64
  sub : Foundation.F64 → Foundation.F64 → Foundation.F64
  mul : Foundation.F64 → Foundation.F64 → Foundation.F64
  div : Foundation.F64 → Foundation.F64 → Foundation.F64
  sqrt : Foundation.F64 → Foundation.F64

/-! ## The ping test -/

def packets : ℕ := 3
def trialCount : ℕ := 3
def requiredPasses : ℕ := 2
def pingTimeoutSecs : ℕ := 15

def pingArgs (ipVersion packets : ℕ) (interval target : Text) : List Text :=
  ['-' :: decimal ipVersion, "-c".toList, decimal packets, "-i".toList, interval, "-w".toList,
    "10".toList, target]

inductive TrialOutcome where
  | pass
  | fail (loss : Option Foundation.F64) (raw : Text)
  deriving DecidableEq, Repr

def trialOutcome (classes : UnicodeClasses) : PingRun → TrialOutcome
  | .exited stdout =>
    let loss := (Ping.parse classes stdout).stats.loss
    if loss = some .zero then .pass else .fail loss (trim stdout)
  | .spawnFailed error => .fail none error
  | .timedOut => .fail none []

abbrev trialPing (target : Text) (ipVersion : ℕ) : HealthAsk :=
  .ping (pingArgs ipVersion packets "1".toList target) pingTimeoutSecs

def countPass (passes : ℕ) : TrialOutcome → ℕ
  | .pass => passes + 1
  | .fail .. => passes

def pingOnce (classes : UnicodeClasses) (target : Text) (ipVersion : ℕ) :
    HealthProgram TrialOutcome :=
  .ask (trialPing target ipVersion) (fun run => .done (trialOutcome classes run))

/-- The loop, with the trials that are left and the passes so far. -/
def trials (classes : UnicodeClasses) (target : Text) (ipVersion : ℕ) :
    ℕ → ℕ → HealthProgram ℕ
  | 0, passes => .done passes
  | left + 1, passes => (pingOnce classes target ipVersion).bind (fun outcome =>
      trials classes target ipVersion left (countPass passes outcome))

def runTrialsForVersion (classes : UnicodeClasses) (target : Text) (ipVersion : ℕ) :
    HealthProgram Bool :=
  (trials classes target ipVersion trialCount 0).bind (fun passes =>
    .done (passes ≥ requiredPasses))

def runPingTest (classes : UnicodeClasses) (sched : Schedule) (target : Text) :
    HealthProgram (Bool × Bool) :=
  (runTrialsForVersion classes target 4).join sched (runTrialsForVersion classes target 6)

/-! ## The ICMP against TCP test -/

def tcpPort : ℕ := 443
def icmpPackets : ℕ := 3
def tcpPackets : ℕ := 3
def tcpTimeoutMs : ℕ := 10000
def tcpIntervalMs : ℕ := 500
def icmpTimeoutSecs : ℕ := 20

/-- Without a time, the connection failed or was not made in time. -/
structure TcpPingProbe where
  rttMs : Option Foundation.F64
  deriving DecidableEq, Repr

structure TcpPingStats where
  min : Option Foundation.F64
  avg : Option Foundation.F64
  max : Option Foundation.F64
  mdev : Option Foundation.F64
  total : ℕ
  rcv : ℕ
  drop : ℕ
  loss : Foundation.F64
  deriving DecidableEq, Repr

def tcpPingSingle (addr : Text) (port timeoutMs : ℕ) : HealthProgram TcpPingProbe :=
  match parseIpAddr addr with
  | some ip => .ask (.connect ip port timeoutMs) (fun rtt => .done ⟨rtt⟩)
  | none => .done ⟨none⟩

/-- The probes from the `i`-th on, with how many are left. -/
def tcpProbes (addr : Text) (port timeoutMs intervalMs : ℕ) :
    ℕ → ℕ → HealthProgram (List TcpPingProbe)
  | 0, _ => .done []
  | left + 1, i =>
    let probe := (tcpPingSingle addr port timeoutMs).bind (fun p =>
      (tcpProbes addr port timeoutMs intervalMs left (i + 1)).bind (fun ps => .done (p :: ps)))
    if i > 0 then .ask (.sleep intervalMs) (fun _ => probe) else probe

namespace FloatOps
variable (ops : FloatOps)

def sum (xs : List Foundation.F64) : Foundation.F64 := xs.foldl ops.add .zero

def mean (xs : List Foundation.F64) : Foundation.F64 := ops.div (ops.sum xs) (.finite xs.length)

def mdev (xs : List Foundation.F64) : Foundation.F64 :=
  let tsum2 := ops.sum (xs.map (fun r => ops.mul r r))
  let avg := ops.mean xs
  ops.sqrt ((ops.sub (ops.div tsum2 (.finite xs.length)) (ops.mul avg avg)).max .zero)

def computeTcpStats (probes : List TcpPingProbe) (total : ℕ) : TcpPingStats :=
  let rtts := probes.filterMap (·.rttMs)
  let rcv := rtts.length
  let drop := total - rcv
  let loss := if total > 0 then ops.mul (ops.div (.finite drop) (.finite total)) (.finite 100)
    else .zero
  if rtts.isEmpty then ⟨none, none, none, none, total, rcv, drop, loss⟩
  else ⟨some (rtts.foldl .min (.inf false)), some (ops.mean rtts),
    some (rtts.foldl .max (.inf true)), some (ops.mdev rtts), total, rcv, drop, loss⟩

def tcpPing (addr : Text) (port packets timeoutMs intervalMs : ℕ) : HealthProgram TcpPingStats :=
  (tcpProbes addr port timeoutMs intervalMs packets 0).bind (fun probes =>
    .done (ops.computeTcpStats probes packets))

end FloatOps

/-- The average of a ping that ended in time, if it has one. -/
def icmpAvg (classes : UnicodeClasses) : PingRun → Option Foundation.F64
  | .exited stdout => (Ping.parse classes stdout).stats.avg
  | _ => none

abbrev icmpPing (target : Text) (ipVersion : ℕ) : HealthAsk :=
  .ping (pingArgs ipVersion icmpPackets "0.5".toList target) icmpTimeoutSecs

def measureDiff (classes : UnicodeClasses) (ops : FloatOps) (sched : Schedule) (ipVersion : ℕ)
    (target : Text) : HealthProgram (Option Foundation.F64) :=
  (Program.join (.ask (icmpPing target ipVersion) (fun run => .done run)) sched
      (ops.tcpPing target tcpPort tcpPackets tcpTimeoutMs tcpIntervalMs)).bind (fun r =>
    .done ((icmpAvg classes r.1).bind (fun icmp => r.2.avg.map (fun tcp => ops.sub icmp tcp))))

/-- The order in which the answers of a test come: those of one host, of its hosts, and of the two
versions. -/
structure TestSchedule where
  host : ℕ → Text → Schedule
  hosts : ℕ → ℕ → Schedule
  versions : Schedule

def measureAll (classes : UnicodeClasses) (ops : FloatOps) (sched : TestSchedule)
    (targets : List Text) (ipVersion : ℕ) : HealthProgram (List (Option Foundation.F64)) :=
  .joinAll (sched.hosts ipVersion)
    (targets.map (fun t => measureDiff classes ops (sched.host ipVersion t) ipVersion t))

/-- A difference as far as comparisons go. -/
def comparedDiff : Foundation.F64 → F64
  | .finite q => .finite q
  | .inf negative => if negative then .negInf else .posInf
  | .nan => .nan

def comparedDiffs (diffs : List (Option Foundation.F64)) : Diffs :=
  diffs.map (fun d => d.map comparedDiff)

def runIcmpTcpTest (classes : UnicodeClasses) (ops : FloatOps) (sched : TestSchedule)
    (targets : List Text) : HealthProgram Bool :=
  ((measureAll classes ops sched targets 4).join sched.versions
      (measureAll classes ops sched targets 6)).bind (fun r =>
    .done (IcmpTcpTest.new.runOnce (comparedDiffs r.1) (comparedDiffs r.2)).failed)

end GlobalpingProbe.Status
