import GlobalpingProbe.Command.Ping.Statistics
import GlobalpingProbe.Probe.DnsServers
import GlobalpingProbe.Status.HealthChecks

/-! # A round of the status loop

The loop measures, tells the manager and the API what came of it, and sleeps. What is told is a
function of the answers in the log of the round, whatever the order in which they came.
-/
namespace GlobalpingProbe.Probe
open Foundation Net Command Mtr Status

/-! ## The source -/

def icmpTargets : List Text := ["1.1.1.1".toList, "8.8.8.8".toList, "9.9.9.9".toList]

/-- An unreadable file is an empty one. -/
def dnsServers (localIps : List IpAddr) (resolvConf : Option Text) : List Text :=
  parseResolvConf localIps (resolvConf.getD [])

structure RoundSchedule where
  pingTest : Schedule
  icmpTcpTest : TestSchedule

section Source
variable (classes : UnicodeClasses) (ops : FloatOps) (localIps : List IpAddr)
  (sched : RoundSchedule) (pingTarget : Text)

def statusRound : HealthProgram Unit :=
  (runPingTest classes sched.pingTest pingTarget).bind fun supported =>
    .ask (.setPingTestFailed (!supported.1 && !supported.2)) fun _ =>
    .ask (.emit "probe:isIPv4Supported:update".toList (.bool supported.1)) fun _ =>
    .ask (.emit "probe:isIPv6Supported:update".toList (.bool supported.2)) fun _ =>
    (runIcmpTcpTest classes ops sched.icmpTcpTest icmpTargets).bind fun vpn =>
      .ask (.setIcmpTcpTestFailed vpn) fun status =>
      .ask (.emit "probe:status:update".toList (.str status.toText)) fun _ =>
      .ask .resolvConf fun content =>
      .ask (.emit "probe:dns:update".toList
        (.arr ((dnsServers localIps content).map .str))) fun _ =>
      .ask (.sleep (10 * 60 * 1000)) fun _ => .done ()

end Source

/-! ## The ping test -/

/-- One of the trials for an IP version. -/
def isTrial (target : Text) (ipVersion : ℕ) (x : Asked HealthAsk.Answer) : Bool :=
  match x with
  | ⟨.ping args secs, _⟩ =>
    args = pingArgs ipVersion packets "1".toList target && secs = pingTimeoutSecs
  | _ => false

/-- The ping lost nothing. -/
def lossless (classes : UnicodeClasses) (x : Asked HealthAsk.Answer) : Bool :=
  match x with
  | ⟨.ping .., some (.exited stdout)⟩ => (Ping.parse classes stdout).stats.loss = some .zero
  | _ => false

def isPassed (classes : UnicodeClasses) (target : Text) (ipVersion : ℕ)
    (x : Asked HealthAsk.Answer) : Bool := isTrial target ipVersion x && lossless classes x

section PingTest
variable {classes : UnicodeClasses} {target : Text} {ipVersion : ℕ}
  {log : List (Asked HealthAsk.Answer)}

theorem isTrial_trialPing (target : Text) (ipVersion : ℕ) (run : Option PingRun) :
    isTrial target ipVersion ⟨trialPing target ipVersion, run⟩ = true := by
  simp [isTrial]

theorem countPass_trialOutcome (passes : ℕ) (run : PingRun) :
    countPass passes (trialOutcome classes run) =
      passes + if lossless classes ⟨trialPing target ipVersion, some run⟩ then 1 else 0 := by
  cases run with
  | exited stdout =>
    simp only [trialOutcome, lossless, decide_eq_true_eq]
    split_ifs <;> rfl
  | spawnFailed | timedOut => rfl

theorem runs_trials {left passes total : ℕ}
    (h : (trials classes target ipVersion left passes).Runs log (some total)) :
    log.length = left ∧ (∀ x ∈ log, ∃ run, x = ⟨trialPing target ipVersion, run⟩) ∧
      total = passes + log.countP (lossless classes) := by
  induction left generalizing passes log with
  | zero =>
    cases h
    exact ⟨rfl, List.forall_mem_nil _, rfl⟩
  | succ left ih =>
    cases h with
    | answered run h =>
      obtain ⟨hlen, hasks, htotal⟩ := ih h
      refine ⟨by rw [List.length_cons, hlen], List.forall_mem_cons.mpr ⟨⟨some run, rfl⟩, hasks⟩, ?_⟩
      rw [htotal, countPass_trialOutcome, List.countP_cons]
      omega

/-- The trials of one version: as many as there are, and passed with enough of them lossless. -/
theorem runs_trialsForVersion {passed : Bool}
    (h : (runTrialsForVersion classes target ipVersion).Runs log (some passed)) :
    log.length = trialCount ∧ (∀ x ∈ log, ∃ run, x = ⟨trialPing target ipVersion, run⟩) ∧
      passed = decide (requiredPasses ≤ log.countP (lossless classes)) := by
  obtain ⟨total, htrials, rfl⟩ := Program.runs_bind_done h
  obtain ⟨hlen, hasks, rfl⟩ := runs_trials htrials
  exact ⟨hlen, hasks, by rw [Nat.zero_add]⟩

/-- What the trials of a version count, in their own log. -/
theorem countP_own (classes : UnicodeClasses)
    (hasks : ∀ x ∈ log, ∃ run, x = ⟨trialPing target ipVersion, run⟩) :
    log.countP (isTrial target ipVersion) = log.length ∧
      log.countP (isPassed classes target ipVersion) = log.countP (lossless classes) := by
  constructor
  · rw [List.countP_eq_length]
    intro x hx
    obtain ⟨run, rfl⟩ := hasks x hx
    exact isTrial_trialPing target ipVersion run
  · apply List.countP_congr
    intro x hx
    obtain ⟨run, rfl⟩ := hasks x hx
    rw [isPassed, isTrial_trialPing, Bool.true_and]

/-- Nothing that is no trial of the version counts. -/
theorem countP_other (classes : UnicodeClasses)
    (h : ∀ x ∈ log, isTrial target ipVersion x = false) :
    log.countP (isTrial target ipVersion) = 0 ∧
      log.countP (isPassed classes target ipVersion) = 0 := by
  constructor
  · rw [List.countP_eq_zero]
    intro x hx
    simp [h x hx]
  · rw [List.countP_eq_zero]
    intro x hx
    simp [isPassed, h x hx]

theorem isTrial_other_version {v v' : ℕ} (hv : decimal v ≠ decimal v') (run : Option PingRun) :
    isTrial target v ⟨trialPing target v', run⟩ = false := by
  simp [isTrial, pingArgs, hv.symm]

/-- Enough trials of the version passed. -/
def supports (classes : UnicodeClasses) (target : Text) (ipVersion : ℕ)
    (log : List (Asked HealthAsk.Answer)) : Bool :=
  requiredPasses ≤ log.countP (isPassed classes target ipVersion)

/-- However the trials of the two versions overlap, each version is judged by its own. -/
theorem runs_pingTest {sched : Schedule} {supported : Bool × Bool}
    (h : (runPingTest classes sched target).Runs log (some supported)) :
    supported = (supports classes target 4 log, supports classes target 6 log) ∧
    (∀ v ∈ [4, 6], log.countP (isTrial target v) = trialCount) ∧
    ∀ x ∈ log, ∃ v ∈ [4, 6], ∃ run, x = ⟨trialPing target v, run⟩ := by
  obtain ⟨l, l', h4, h6, hlog⟩ := Program.runs_join h
  obtain ⟨hlen4, hasks4, hok4⟩ := runs_trialsForVersion h4
  obtain ⟨hlen6, hasks6, hok6⟩ := runs_trialsForVersion h6
  have hother4 : ∀ x ∈ l', isTrial target 4 x = false := by
    intro x hx
    obtain ⟨run, rfl⟩ := hasks6 x hx
    exact isTrial_other_version (by decide) run
  have hother6 : ∀ x ∈ l, isTrial target 6 x = false := by
    intro x hx
    obtain ⟨run, rfl⟩ := hasks4 x hx
    exact isTrial_other_version (by decide) run
  obtain ⟨htrial4, hpassed4⟩ := countP_own classes hasks4
  obtain ⟨htrial6, hpassed6⟩ := countP_own classes hasks6
  obtain ⟨hnone4, hnopass4⟩ := countP_other classes hother4
  obtain ⟨hnone6, hnopass6⟩ := countP_other classes hother6
  refine ⟨?_, ?_, fun x hx => ?_⟩
  · rw [supports, supports, hlog.countP_eq, hlog.countP_eq, hpassed4, hpassed6, hnopass4, hnopass6,
      Nat.add_zero, Nat.zero_add, ← hok4, ← hok6]
  · simp only [List.forall_mem_cons, hlog.countP_eq, htrial4, htrial6, hnone4, hnone6, hlen4, hlen6,
      Nat.add_zero, Nat.zero_add, true_and]
    exact List.forall_mem_nil _
  · rcases hlog.mem_iff.mp hx with hx | hx
    · exact ⟨4, by simp, hasks4 x hx⟩
    · exact ⟨6, by simp, hasks6 x hx⟩

end PingTest

/-! ## The ICMP against TCP test -/

/-- The average that a ping of the log printed. -/
def avgOf (classes : UnicodeClasses) (x : Asked HealthAsk.Answer) : Option Foundation.F64 :=
  match x with
  | ⟨.ping .., some run⟩ => icmpAvg classes run
  | _ => none

/-- The time that a connection of the log took. -/
def connectTime (x : Asked HealthAsk.Answer) : Option Foundation.F64 :=
  match x with
  | ⟨.connect .., some rtt⟩ => rtt
  | _ => none

/-- The difference that a log tells of: the average of the ping, less the mean of the times in
which connections were made. -/
def diffIn (classes : UnicodeClasses) (ops : FloatOps) (log : List (Asked HealthAsk.Answer)) :
    Option Foundation.F64 :=
  let times := log.filterMap connectTime
  if times.isEmpty then none
  else (log.filterMap (avgOf classes)).head?.map (fun avg => ops.sub avg (ops.mean times))

/-- What is asked for a host. -/
def MeasuresHost (target : Text) (ipVersion : ℕ) (e : HealthAsk) : Prop :=
  e = icmpPing target ipVersion ∨ e = .sleep tcpIntervalMs ∨
    ∃ ip, parseIpAddr target = some ip ∧ e = .connect ip tcpPort tcpTimeoutMs

/-- What the test asks, next to the trials and to the round itself. -/
def isMeasured (x : Asked HealthAsk.Answer) : Bool :=
  match x.ask with
  | .ping _ secs => secs = icmpTimeoutSecs
  | .connect .. => true
  | .sleep ms => ms = tcpIntervalMs
  | _ => false

def isPing (x : Asked HealthAsk.Answer) : Bool :=
  match x.ask with
  | .ping .. => true
  | _ => false

def isConnected (x : Asked HealthAsk.Answer) : Bool :=
  match x with
  | ⟨.connect .., some _⟩ => true
  | _ => false

/-- All that is asked for a host over an IP version: a ping that is waited for, and as many
connections as there are probes. -/
structure HostLog (target : Text) (ipVersion : ℕ) (log : List (Asked HealthAsk.Answer)) :
    Prop where
  mine : ∀ x ∈ log, MeasuresHost target ipVersion x.ask
  pinged : ∃ run, log.filter isPing = [⟨icmpPing target ipVersion, some run⟩]
  connected : log.countP isConnected = if (parseIpAddr target).isSome then tcpPackets else 0

/-- A log of a host, with the difference that is made of it. -/
abbrev HostPart := List (Asked HealthAsk.Answer) × Option Foundation.F64

/-- Each host has the difference that the log of all its asks tells of. -/
def Measured (classes : UnicodeClasses) (ops : FloatOps) (ipVersion : ℕ)
    (parts : List HostPart) : Prop :=
  List.Forall₂ (fun host part => HostLog host ipVersion part.1 ∧ part.2 = diffIn classes ops part.1)
    icmpTargets parts

section Diffs
variable {classes : UnicodeClasses} {ops : FloatOps} {target : Text} {ipVersion : ℕ}
  {log : List (Asked HealthAsk.Answer)}

/-- The connections of a host: their times, and nothing of a ping. -/
def IsTcpLog (target : Text) (log : List (Asked HealthAsk.Answer)) : Prop :=
  ∀ x ∈ log, x.ask = .sleep tcpIntervalMs ∨
    ∃ ip, parseIpAddr target = some ip ∧ x.ask = .connect ip tcpPort tcpTimeoutMs

theorem avgOf_tcp (h : IsTcpLog target log) : ∀ x ∈ log, avgOf classes x = none := by
  rintro ⟨e, a⟩ hx
  rcases h _ hx with he | ⟨ip, -, he⟩
  · cases he
    rfl
  · cases he
    rfl

theorem filter_isPing_tcp (h : IsTcpLog target log) : ∀ x ∈ log, isPing x = false := by
  rintro ⟨e, a⟩ hx
  rcases h _ hx with he | ⟨ip, -, he⟩
  · cases he
    rfl
  · cases he
    rfl

theorem runs_single {p : TcpPingProbe}
    (h : (tcpPingSingle target tcpPort tcpTimeoutMs).Runs log (some p)) :
    IsTcpLog target log ∧ log.filterMap connectTime = [p].filterMap (·.rttMs) ∧
      log.countP isConnected = if (parseIpAddr target).isSome then 1 else 0 := by
  unfold tcpPingSingle at h
  split at h
  · next ip hip =>
    cases h with
    | answered rtt h =>
      cases h
      rw [hip]
      exact ⟨List.forall_mem_singleton.mpr (.inr ⟨ip, hip, rfl⟩), rfl, rfl⟩
  · next hip =>
    cases h
    rw [hip]
    exact ⟨List.forall_mem_nil _, rfl, rfl⟩

theorem runs_tcpProbes {left i : ℕ} {probes : List TcpPingProbe}
    (h : (tcpProbes target tcpPort tcpTimeoutMs tcpIntervalMs left i).Runs log (some probes)) :
    IsTcpLog target log ∧ log.filterMap connectTime = probes.filterMap (·.rttMs) ∧
      probes.length = left ∧
      log.countP isConnected = if (parseIpAddr target).isSome then left else 0 := by
  induction left generalizing i log probes with
  | zero =>
    cases h
    exact ⟨List.forall_mem_nil _, rfl, rfl, by rw [ite_self]; rfl⟩
  | succ left ih =>
    have hprobe : ∀ log, ((tcpPingSingle target tcpPort tcpTimeoutMs).bind (fun p =>
        (tcpProbes target tcpPort tcpTimeoutMs tcpIntervalMs left (i + 1)).bind (fun ps =>
          .done (p :: ps)))).Runs log (some probes) →
        IsTcpLog target log ∧ log.filterMap connectTime = probes.filterMap (·.rttMs) ∧
          probes.length = left + 1 ∧
          log.countP isConnected = if (parseIpAddr target).isSome then left + 1 else 0 := by
      intro log hrun
      obtain ⟨l, l', p, hp, hrest, rfl⟩ := Program.runs_bind hrun
      obtain ⟨ps, hps, rfl⟩ := Program.runs_bind_done hrest
      obtain ⟨htcp, htimes, hcount⟩ := runs_single hp
      obtain ⟨htcp', htimes', hlen, hcount'⟩ := ih hps
      refine ⟨List.forall_mem_append.mpr ⟨htcp, htcp'⟩, ?_, by rw [List.length_cons, hlen], ?_⟩
      · rw [List.filterMap_append, htimes, htimes', ← List.filterMap_append]
        rfl
      · rw [List.countP_append, hcount, hcount']
        split_ifs <;> omega
    unfold tcpProbes at h
    dsimp only at h
    split_ifs at h
    · cases h with
      | answered a h =>
        obtain ⟨htcp, htimes, hlen, hcount⟩ := hprobe _ h
        exact ⟨List.forall_mem_cons.mpr ⟨.inl rfl, htcp⟩, htimes, hlen, hcount⟩
    · exact hprobe _ h

/-- The subtraction of the statistics never goes below zero. -/
theorem runs_tcpPing {stats : TcpPingStats}
    (h : (ops.tcpPing target tcpPort tcpPackets tcpTimeoutMs tcpIntervalMs).Runs log (some stats)) :
    IsTcpLog target log ∧ stats.rcv + stats.drop = stats.total ∧
      (stats.avg = if (log.filterMap connectTime).isEmpty then none
        else some (ops.mean (log.filterMap connectTime))) ∧
      log.countP isConnected = if (parseIpAddr target).isSome then tcpPackets else 0 := by
  obtain ⟨probes, hprobes, rfl⟩ := Program.runs_bind_done h
  obtain ⟨htcp, htimes, hlen, hcount⟩ := runs_tcpProbes hprobes
  have hle : (probes.filterMap (·.rttMs)).length ≤ tcpPackets :=
    hlen ▸ List.length_filterMap_le _ _
  rw [htimes]
  refine ⟨htcp, ?_, ?_, hcount⟩
  · unfold FloatOps.computeTcpStats
    dsimp only
    split_ifs
    all_goals exact Nat.add_sub_cancel' hle
  · unfold FloatOps.computeTcpStats
    dsimp only
    split_ifs <;> rfl

/-- The difference of a host is that of what was asked for it. -/
theorem runs_measureDiff {sched : Schedule} {d : Option Foundation.F64}
    (h : (measureDiff classes ops sched ipVersion target).Runs log (some d)) :
    HostLog target ipVersion log ∧ d = diffIn classes ops log := by
  obtain ⟨⟨run, stats⟩, hjoin, rfl⟩ := Program.runs_bind_done h
  obtain ⟨l, l', hping, htcp, hlog⟩ := Program.runs_join hjoin
  obtain ⟨htcplog, -, havg, hcount⟩ := runs_tcpPing htcp
  have hl : l = [⟨icmpPing target ipVersion, some run⟩] := by
    cases hping with
    | answered a h =>
      cases h
      rfl
  subst hl
  have htimes : log.filterMap connectTime = l'.filterMap connectTime :=
    hlog.filterMap_right (List.forall_mem_singleton.mpr rfl)
  have hping : log.filterMap (avgOf classes) =
      [⟨icmpPing target ipVersion, some run⟩].filterMap (avgOf classes) :=
    hlog.filterMap_left (avgOf_tcp htcplog)
  have hhead : (log.filterMap (avgOf classes)).head? = icmpAvg classes run := by
    rw [hping, List.filterMap_cons, List.filterMap_nil]
    dsimp only [avgOf]
    cases icmpAvg classes run <;> rfl
  refine ⟨⟨fun x hx => ?_, ⟨run, ?_⟩, ?_⟩, ?_⟩
  · rcases hlog.mem_iff.mp hx with hx | hx
    · rw [List.mem_singleton.mp hx]
      exact .inl rfl
    · exact .inr (htcplog x hx)
  · exact hlog.filter_left (filter_isPing_tcp htcplog)
  · rw [hlog.countP_eq, hcount]
    exact Nat.zero_add _
  · rw [diffIn, htimes, hhead]
    dsimp only
    rw [havg]
    split_ifs
    · cases icmpAvg classes run <;> rfl
    · cases icmpAvg classes run <;> rfl

theorem runs_measureAll {sched : TestSchedule} {diffs : List (Option Foundation.F64)}
    (h : (measureAll classes ops sched icmpTargets ipVersion).Runs log (some diffs)) :
    ∃ parts : List HostPart, diffs = parts.map Prod.snd ∧ Measured classes ops ipVersion parts ∧
      ShuffleAll (parts.map Prod.fst) log := by
  obtain ⟨parts, hdiffs, hlog, hparts⟩ := Program.runs_joinAll h
  refine ⟨parts, hdiffs, (List.forall₂_map_left_iff.mp hparts).imp ?_, hlog⟩
  exact fun host part hpart => runs_measureDiff hpart.1

/-- Every part is the log of a host. -/
theorem Measured.hostLog {parts : List HostPart} (h : Measured classes ops ipVersion parts) :
    ∀ part ∈ parts, ∃ host, HostLog host ipVersion part.1 := by
  unfold Measured at h
  generalize icmpTargets = targets at h
  induction h with
  | nil => exact List.forall_mem_nil _
  | cons hpart _ ih => exact List.forall_mem_cons.mpr ⟨⟨_, hpart.1⟩, ih⟩

theorem runs_icmpTcpTest {sched : TestSchedule} {vpn : Bool}
    (h : (runIcmpTcpTest classes ops sched icmpTargets).Runs log (some vpn)) :
    ∃ partsV4 partsV6, Measured classes ops 4 partsV4 ∧ Measured classes ops 6 partsV6 ∧
      ShuffleAll ((partsV4 ++ partsV6).map Prod.fst) log ∧
      vpn = vpnVerdict (comparedDiffs (partsV4.map Prod.snd))
        (comparedDiffs (partsV6.map Prod.snd)) none ∧
      ∀ x ∈ log, ∃ host v, MeasuresHost host v x.ask := by
  obtain ⟨⟨diffsV4, diffsV6⟩, hjoin, rfl⟩ := Program.runs_bind_done h
  obtain ⟨l, l', h4, h6, hlog⟩ := Program.runs_join hjoin
  obtain ⟨partsV4, rfl, hd4, hall4⟩ := runs_measureAll h4
  obtain ⟨partsV6, rfl, hd6, hall6⟩ := runs_measureAll h6
  have hall : ShuffleAll ((partsV4 ++ partsV6).map Prod.fst) log := by
    rw [List.map_append]
    exact hall4.append hlog hall6
  refine ⟨partsV4, partsV6, hd4, hd6, hall, rfl, fun x hx => ?_⟩
  obtain ⟨l, hl, hx⟩ := hall.mem_iff.mp hx
  obtain ⟨part, hpart, rfl⟩ := List.mem_map.mp hl
  rcases List.mem_append.mp hpart with hpart | hpart
  · obtain ⟨host, hhost⟩ := hd4.hostLog part hpart
    exact ⟨host, 4, hhost.mine x hx⟩
  · obtain ⟨host, hhost⟩ := hd6.hostLog part hpart
    exact ⟨host, 6, hhost.mine x hx⟩

end Diffs

/-! ## The round -/

/-- What is told to the manager or to the API. -/
def isTold : HealthAsk → Bool
  | .setPingTestFailed _ | .setIcmpTcpTestFailed _ | .emit .. => true
  | _ => false

/-- What a round says of the answers in its log: each version by its trials, each host by all that
was asked for it, and the status and the resolvers as they were found. What the test asked is the
logs of the hosts over both versions, in some order. -/
structure RoundReport (classes : UnicodeClasses) (ops : FloatOps) (localIps : List IpAddr)
    (target : Text) (log : List (Asked HealthAsk.Answer)) : Prop where
  trials : ∀ v ∈ [4, 6], log.countP (isTrial target v) = trialCount
  told : ∃ (partsV4 partsV6 : List HostPart) (status : ProbeStatus) (content : Option Text),
    Measured classes ops 4 partsV4 ∧ Measured classes ops 6 partsV6 ∧
    ShuffleAll ((partsV4 ++ partsV6).map Prod.fst) (log.filter isMeasured) ∧
    let ipv4 := supports classes target 4 log
    let ipv6 := supports classes target 6 log
    let vpn := vpnVerdict (comparedDiffs (partsV4.map Prod.snd))
      (comparedDiffs (partsV6.map Prod.snd)) none
    ⟨.setIcmpTcpTestFailed vpn, some status⟩ ∈ log ∧ ⟨.resolvConf, some content⟩ ∈ log ∧
    (log.map (·.ask)).filter isTold =
      [.setPingTestFailed (!ipv4 && !ipv6),
        .emit "probe:isIPv4Supported:update".toList (.bool ipv4),
        .emit "probe:isIPv6Supported:update".toList (.bool ipv6),
        .setIcmpTcpTestFailed vpn,
        .emit "probe:status:update".toList (.str status.toText),
        .emit "probe:dns:update".toList (.arr ((dnsServers localIps content).map .str))]

section Round
variable {classes : UnicodeClasses} {ops : FloatOps} {localIps : List IpAddr} {target : Text}
  {log : List (Asked HealthAsk.Answer)}

theorem isTrial_of_measuresHost {host : Text} {v w : ℕ} {x : Asked HealthAsk.Answer}
    (h : MeasuresHost host v x.ask) : isTrial target w x = false := by
  obtain ⟨e, a⟩ := x
  rcases h with h | h | ⟨ip, -, h⟩
  · cases h
    simp [isTrial, icmpTimeoutSecs, pingTimeoutSecs]
  · cases h
    rfl
  · cases h
    rfl

theorem isTold_of_measuresHost {host : Text} {v : ℕ} {e : HealthAsk} (h : MeasuresHost host v e) :
    isTold e = false := by
  rcases h with rfl | rfl | ⟨ip, -, rfl⟩ <;> rfl

theorem isMeasured_of_measuresHost {host : Text} {v : ℕ} {x : Asked HealthAsk.Answer}
    (h : MeasuresHost host v x.ask) : isMeasured x = true := by
  obtain ⟨e, a⟩ := x
  rcases h with h | h | ⟨ip, -, h⟩
  · cases h
    simp [isMeasured]
  · cases h
    simp [isMeasured]
  · cases h
    rfl

theorem filter_isTold_eq_nil (h : ∀ x ∈ log, isTold x.ask = false) :
    (log.map (·.ask)).filter isTold = [] := by
  rw [List.filter_eq_nil_iff]
  intro e he
  obtain ⟨x, hx, rfl⟩ := List.mem_map.mp he
  simp [h x hx]

/-- The statistics of what ping printed. -/
theorem parsed_stats (classes : UnicodeClasses) (t : Ping.Transcript) :
    (Ping.parse classes t.text).stats = t.stats := by
  obtain ⟨m, hm, -⟩ := Ping.captures_header t.header
  have hlines : lines t.text = t.header.text :: t.lines.tail := Ping.lines_text t
  unfold Ping.parse
  simp only [hlines, hm]
  exact Ping.parseStats_lines t

theorem supports_append {v : ℕ} {later : List (Asked HealthAsk.Answer)}
    (h : later.countP (isPassed classes target v) = 0) :
    supports classes target v (log ++ later) = supports classes target v log := by
  rw [supports, supports, List.countP_append, h, Nat.add_zero]

theorem runs_statusRound {sched : RoundSchedule}
    (h : (statusRound classes ops localIps sched target).Runs log (some ())) :
    RoundReport classes ops localIps target log := by
  obtain ⟨lp, later, supported, hping, hlater, rfl⟩ := Program.runs_bind h
  obtain ⟨hsupported, htrials, hpings⟩ := runs_pingTest hping
  cases hlater with | answered _ hlater =>
  cases hlater with | answered emitted4 hlater =>
  cases hlater with | answered emitted6 hlater =>
  obtain ⟨li, last, vpn, hicmp, hlast, rfl⟩ := Program.runs_bind hlater
  obtain ⟨partsV4, partsV6, hd4, hd6, hall, hvpn, hmine⟩ := runs_icmpTcpTest hicmp
  cases hlast with | answered status hlast =>
  cases hlast with | answered emittedStatus hlast =>
  cases hlast with | answered content hlast =>
  cases hlast with | answered emittedDns hlast =>
  cases hlast with | answered slept hlast =>
  cases hlast
  have hicmpTrials : ∀ v, ∀ x ∈ li, isTrial target v x = false := by
    intro v x hx
    obtain ⟨host, w, hhost⟩ := hmine x hx
    exact isTrial_of_measuresHost hhost
  have hicmpTold : (li.map (·.ask)).filter isTold = [] := by
    refine filter_isTold_eq_nil (fun x hx => ?_)
    obtain ⟨host, w, hhost⟩ := hmine x hx
    exact isTold_of_measuresHost hhost
  have hicmpMeasured : li.filter isMeasured = li := by
    refine List.filter_eq_self.mpr (fun x hx => ?_)
    obtain ⟨host, w, hhost⟩ := hmine x hx
    exact isMeasured_of_measuresHost hhost
  have hpingMeasured : lp.filter isMeasured = [] := by
    refine List.filter_eq_nil_iff.mpr (fun x hx => ?_)
    obtain ⟨v, -, run, rfl⟩ := hpings x hx
    simp [isMeasured, pingTimeoutSecs, icmpTimeoutSecs]
  have hpingTold : (lp.map (·.ask)).filter isTold = [] := by
    refine filter_isTold_eq_nil (fun x hx => ?_)
    obtain ⟨v, -, run, rfl⟩ := hpings x hx
    rfl
  have hnone : ∀ v, li.countP (isTrial target v) = 0 ∧ li.countP (isPassed classes target v) = 0 :=
    fun v => countP_other classes (hicmpTrials v)
  constructor
  · intro v hv
    simp [isTrial, (hnone v).1, htrials v hv]
  · refine ⟨partsV4, partsV6, status, content, hd4, hd6, ?_, ?_⟩
    · simpa [List.filter_cons, hpingMeasured, hicmpMeasured, isMeasured, tcpIntervalMs] using hall
    subst hsupported hvpn
    dsimp only
    rw [supports_append (v := 4) (by simp [isPassed, isTrial, (hnone 4).2]),
      supports_append (v := 6) (by simp [isPassed, isTrial, (hnone 6).2])]
    refine ⟨by simp, by simp, ?_⟩
    simp only [List.map_append, List.map_cons, List.filter_append, List.filter_cons, hpingTold,
      hicmpTold]
    rfl

/-- A round reports its log, whatever the order of the answers: an IP version is supported if two
of its three trials lost nothing, and the verdict on a VPN is that on the differences measured.
What ping printed says which trials lost nothing, and what the average was. -/
theorem statusRound_reports (classes : UnicodeClasses) (ops : FloatOps) (localIps : List IpAddr)
    (sched : RoundSchedule) (target : Text) :
    (statusRound classes ops localIps sched target).All (fun log out =>
      out = some () → RoundReport classes ops localIps target log) ∧
    ∀ (t : Ping.Transcript) args secs,
      lossless classes ⟨.ping args secs, some (.exited t.text)⟩ =
        decide (t.summary.loss.value = 0) ∧
      avgOf classes ⟨.ping args secs, some (.exited t.text)⟩ =
        t.rtt.map (fun r => .finite r.avg.value) := by
  constructor
  · refine Program.all_iff.mpr (fun log out hrun hout => ?_)
    subst hout
    exact runs_statusRound hrun
  · intro t args secs
    have hstats := parsed_stats classes t
    refine ⟨?_, ?_⟩
    · simp [lossless, hstats, Ping.Transcript.stats, Foundation.F64.zero]
    · simp [avgOf, icmpAvg, hstats, Ping.Transcript.stats]

end Round
end GlobalpingProbe.Probe
