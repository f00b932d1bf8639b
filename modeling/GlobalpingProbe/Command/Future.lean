import GlobalpingProbe.Foundation.Subprocess
import GlobalpingProbe.Command.Mtr.Run
import GlobalpingProbe.Command.Ping.Parse

/-! # The futures of the commands

What each command waits for, await by await, with its child processes. The text that a child
prints decides what is awaited next; what else the commands make of it is modelled with their
parsers, so that a future ends here with its error only.
-/
namespace GlobalpingProbe.Command
open Foundation Regex Net

abbrev CommandAwait := Await Text Text

/-! ## ping, traceroute and dig: a child whose output is read line by line -/

/-- What has been read is of type `α`. -/
inductive LineCommand (α : Type) where
  | spawning (read : α)
  | reading (child : ℕ) (read : α)
  | killing (child : ℕ) (read : α)
  | waiting (child : ℕ) (read : α)
  | ended (result : Except Text α)

/-- `readLine` adds a line to what has been read and says whether the child is to be killed. -/
def LineCommand.awaits {α : Type} (readLine : α → Text → α × Bool) :
    LineCommand α → List (CommandAwait (LineCommand α))
  | spawning read => [.spawn (fun
      | .ok child => reading child read
      | .error e => ended (.error e))]
  | reading child read => [.nextLine child (fun
      | .ok (some line) =>
        match readLine read line with
        | (next, true) => killing child next
        | (next, false) => reading child next
      | .ok none => waiting child read
      | .error e => ended (.error e))]
  | killing child read => [.kill child (waiting child read)]
  | waiting child read => [.wait child (ended (.ok read))]
  | ended _ => []

/-- A command starts with its checks, and ends with the error of one that fails. -/
def LineCommand.begin {α : Type} (checks : Except Text Unit) (read : α) : LineCommand α :=
  match checks with
  | .ok () => spawning read
  | .error e => ended (.error e)

def LineCommand.error {α : Type} : LineCommand α → Option Text
  | ended (.error e) => some e
  | _ => none

theorem LineCommand.tidy {α : Type} (readLine : α → Text → α × Bool) :
    ∀ s, TidyAt (awaits readLine) s
  | spawning read => tidyAt_singleton rfl ⟨fun _ => rfl, fun _ => rfl⟩
  | reading child read => tidyAt_singleton rfl ⟨fun l => by
      cases l with
      | none => rfl
      | some line =>
        dsimp only
        split <;> rfl, fun _ => rfl⟩
  | killing child read => tidyAt_singleton rfl (Eq.refl [child])
  | waiting child read => tidyAt_singleton rfl (Eq.refl [])
  | ended result => tidyAt_nil rfl

namespace Ping

structure PingReading where
  rawOutput : Text
  resolvedAddress : Option Text
  isPrivate : Bool

/-- The address is checked once, as soon as it is known. -/
def readLine (localIps : List IpAddr) (reading : PingReading) (line : Text) : PingReading × Bool :=
  let reading := { reading with rawOutput := reading.rawOutput ++ line ++ ['\n'] }
  match reading.resolvedAddress, resolvedAddress reading.rawOutput with
  | none, some addr =>
    if (parseIpAddr addr).any (isIpPrivate localIps) then
      ({ reading with isPrivate := true }, true)
    else ({ reading with resolvedAddress := some addr }, false)
  | _, _ => (reading, false)

def runIcmp (localIps : List IpAddr) (opts : PingOptions) : LineCommand PingReading :=
  .begin (opts.validate localIps) ⟨[], none, false⟩

end Ping

namespace Traceroute

def readLine (rawLines : List Text) (line : Text) : List Text × Bool := (rawLines ++ [line], false)

def runFuture (table : CaseTable) (localIps : List IpAddr) (opts : TracerouteOptions) :
    LineCommand (List Text) :=
  .begin (opts.validate table localIps) []

end Traceroute

namespace Dns

def readLine (raw line : Text) : Text × Bool := (raw ++ line ++ ['\n'], false)

def runDig (localIps : List IpAddr) (opts : DnsOptions) : LineCommand Text :=
  .begin (opts.validate localIps) []

end Dns

/-! ## mtr: a child in a minute, then a lookup for each address in parallel -/

namespace Mtr

inductive AsnLookup where
  | spawning
  | digging (child : ℕ)
  | found (asns : List ℕ)

def AsnLookup.await : AsnLookup → Option (CommandAwait AsnLookup)
  | spawning => some (.spawn (fun
      | .ok child => digging child
      | .error _ => found []))
  | digging child => some (.output child (fun
      | .ok (stdout, _) => found (asnNumbers stdout)
      | .error _ => found []) (found []))
  | found _ => none

/-- Only a public IPv4 address is looked up. -/
def AsnLookup.begin (localIps : List IpAddr) (addr : Option Text) : AsnLookup :=
  match addr.bind parseIpAddr with
  | some (.v4 a) => if isIpPrivate localIps (.v4 a) then found [] else spawning
  | some (.v6 _) | none => found []

inductive MtrFuture where
  | spawning
  | running (child : ℕ)
  | lookingUp (lookups : List AsnLookup)
  | ended (error : Option Text)

def afterOutput (localIps : List IpAddr) (stdout : Text) : MtrFuture :=
  if (trim stdout).isEmpty then .ended none
  else if targetPrivate localIps (parseRaw stdout true) then .ended none
  else .lookingUp ((parseRaw stdout true).map (fun h => .begin localIps h.resolvedAddress))

/-- The lookups are awaited together, whichever comes first. -/
def MtrFuture.awaits (localIps : List IpAddr) : MtrFuture → List (CommandAwait MtrFuture)
  | spawning => [.spawn (fun
      | .ok child => running child
      | .error e => ended (some ("failed to spawn mtr: ".toList ++ e)))]
  | running child => [.output child (fun
      | .ok (stdout, _) => afterOutput localIps stdout
      | .error e => ended (some ("failed to spawn mtr: ".toList ++ e)))
      (ended (some "mtr command timed out".toList))]
  | lookingUp lookups => parallel AsnLookup.await lookingUp lookups
  | ended _ => []

def MtrFuture.error : MtrFuture → Option Text
  | ended error => error
  | _ => none

theorem AsnLookup.leads (lookup : AsnLookup) (w : CommandAwait AsnLookup)
    (h : lookup.await = some w) :
    w.Leads (fun l => ((await l).bind Await.child).toList) := by
  cases lookup with
  | spawning =>
    cases h
    exact ⟨fun _ => rfl, fun _ => rfl⟩
  | digging child =>
    cases h
    exact ⟨fun r => by cases r <;> rfl, rfl⟩
  | found asns => cases h

theorem awaits_lookingUp (localIps : List IpAddr) (lookups : List AsnLookup) :
    MtrFuture.awaits localIps (.lookingUp lookups) =
      parallel AsnLookup.await .lookingUp lookups := rfl

theorem afterOutput_waits (localIps : List IpAddr) (stdout : Text) :
    waitedFor (MtrFuture.awaits localIps) (afterOutput localIps stdout) = [] := by
  unfold afterOutput
  split_ifs
  · rfl
  · rfl
  · rw [waitedFor_parallel (awaits_lookingUp localIps), List.filterMap_map, List.filterMap_eq_nil_iff]
    intro h _
    rw [Function.comp_apply, AsnLookup.begin]
    repeat' split
    all_goals rfl

theorem MtrFuture.tidy (localIps : List IpAddr) : ∀ s, TidyAt (awaits localIps) s
  | spawning => tidyAt_singleton rfl ⟨fun _ => rfl, fun _ => rfl⟩
  | running child => tidyAt_singleton rfl ⟨fun r => by
      cases r with
      | ok out => exact afterOutput_waits localIps out.1
      | error e => rfl, rfl⟩
  | lookingUp lookups => tidyAt_parallel (awaits_lookingUp localIps) AsnLookup.leads lookups
  | ended error => tidyAt_nil rfl

def runFuture (table : CaseTable) (localIps : List IpAddr) (opts : MtrOptions) : MtrFuture :=
  match opts.validate table localIps with
  | .ok () => .spawning
  | .error e => .ended (some e)

end Mtr

/-! ## http: dig for the address, curl, and openssl twice for the certificate -/

namespace Http

/-- Of what curl reports, the part that decides how the run goes on. -/
structure CurlStats where
  remoteIp : Text
  responseCode : ℕ
  deriving DecidableEq, Repr

inductive HttpFuture where
  | digSpawning
  | digging (child : ℕ)
  | curlSpawning (resolvedIp : Text)
  | curling (child : ℕ) (resolvedIp : Text)
  | clientSpawning
  | clientFeeding (child : ℕ)
  | clientCollecting (child : ℕ)
  | x509Spawning
  | x509Feeding (child : ℕ)
  | x509Collecting (child : ℕ)
  | ended (error : Option Text)

/-- The first line of dig's output that is an address. -/
def resolvedIp (stdout : Text) : Option Text :=
  ((lines stdout).map trim).find? (fun l =>
    !l.isEmpty && l.head? ≠ some ';' && (parseIpAddr l).isSome)

def afterDig (localIps : List IpAddr) (target stdout : Text) : HttpFuture :=
  match resolvedIp stdout with
  | none => .ended (some ("DNS resolution returned no results for ".toList ++ target))
  | some ip =>
    if (parseIpAddr ip).any (isIpPrivate localIps) then
      .ended (some "Private IP ranges are not allowed".toList)
    else .curlSpawning ip

/-- Whether the verbose output of curl tells of a TLS connection. -/
def showsTls (verbose : Text) : Bool :=
  (lines verbose).any (fun line =>
    "* ".toList.isPrefixOf (trim line) &&
      "SSL connection using ".toList.isPrefixOf (trim ((trim line).dropWhile (· = '*'))))

def afterCurl (curlStats : Text → Option CurlStats) (localIps : List IpAddr) (isHttps : Bool)
    (resolvedIp stdout stderr : Text) : HttpFuture :=
  match curlStats (trim stdout) with
  | none => .ended none
  | some stats =>
    let finalResolvedIp := if stats.remoteIp.isEmpty then resolvedIp else stats.remoteIp
    if stats.responseCode = 0 then .ended none
    else if (parseIpAddr finalResolvedIp).any (isIpPrivate localIps) then .ended none
    else if isHttps && showsTls stderr then .clientSpawning
    else .ended none

def extractPem (s : Text) : Option Text :=
  ((lit "-----BEGIN CERTIFICATE-----".toList).find s).bind (fun start =>
    ((lit "-----END CERTIFICATE-----".toList).find (start.2.text ++ start.2.rest)).map
      (fun stop => stop.1 ++ stop.2.text))

/-- `run_capturing` ignores what goes wrong, and so does `enrich_tls`. -/
def HttpFuture.awaits (curlStats : Text → Option CurlStats) (localIps : List IpAddr)
    (target : Text) (isHttps : Bool) : HttpFuture → List (CommandAwait HttpFuture)
  | digSpawning => [.spawn (fun
      | .ok child => digging child
      | .error e => ended (some e))]
  | digging child => [.output child (fun
      | .ok (stdout, _) => afterDig localIps target stdout
      | .error e => ended (some e))
      (ended (some ("DNS resolution timed out for ".toList ++ target)))]
  | curlSpawning ip => [.spawn (fun
      | .ok child => curling child ip
      | .error e => ended (some ("curl failed to spawn: ".toList ++ e)))]
  | curling child ip => [.output child (fun
      | .ok (stdout, stderr) => afterCurl curlStats localIps isHttps ip stdout stderr
      | .error e => ended (some ("curl failed to spawn: ".toList ++ e)))
      (ended (some "curl timed out".toList))]
  | clientSpawning => [.spawn (fun
      | .ok child => clientFeeding child
      | .error _ => ended none)]
  | clientFeeding child => [.feed child (clientCollecting child)]
  | clientCollecting child => [.output child (fun
      | .ok (stdout, _) => if (extractPem stdout).isSome then x509Spawning else ended none
      | .error _ => ended none) (ended none)]
  | x509Spawning => [.spawn (fun
      | .ok child => x509Feeding child
      | .error _ => ended none)]
  | x509Feeding child => [.feed child (x509Collecting child)]
  | x509Collecting child => [.output child (fun _ => ended none) (ended none)]
  | ended _ => []

def HttpFuture.error : HttpFuture → Option Text
  | ended error => error
  | _ => none

section Tidy
variable (curlStats : Text → Option CurlStats) (localIps : List IpAddr) (target : Text)
  (isHttps : Bool)

theorem afterDig_waits (stdout : Text) :
    waitedFor (HttpFuture.awaits curlStats localIps target isHttps)
      (afterDig localIps target stdout) = [] := by
  unfold afterDig
  split
  · rfl
  · split_ifs <;> rfl

theorem afterCurl_waits (ip stdout stderr : Text) :
    waitedFor (HttpFuture.awaits curlStats localIps target isHttps)
      (afterCurl curlStats localIps isHttps ip stdout stderr) = [] := by
  unfold afterCurl
  split
  · rfl
  · dsimp only
    split_ifs <;> rfl

theorem HttpFuture.tidy : ∀ s, TidyAt (awaits curlStats localIps target isHttps) s
  | digSpawning | curlSpawning _ | clientSpawning | x509Spawning =>
    tidyAt_singleton rfl ⟨fun _ => rfl, fun _ => rfl⟩
  | clientFeeding child | x509Feeding child => tidyAt_singleton rfl (Eq.refl [child])
  | digging child => tidyAt_singleton rfl ⟨fun r => by
      cases r with
      | ok out => exact afterDig_waits curlStats localIps target isHttps out.1
      | error e => rfl, rfl⟩
  | curling child ip => tidyAt_singleton rfl ⟨fun r => by
      cases r with
      | ok out => exact afterCurl_waits curlStats localIps target isHttps ip out.1 out.2
      | error e => rfl, rfl⟩
  | clientCollecting child => tidyAt_singleton rfl ⟨fun r => by
      cases r with
      | ok out =>
        dsimp only
        split_ifs <;> rfl
      | error e => rfl, rfl⟩
  | x509Collecting child => tidyAt_singleton rfl ⟨fun _ => rfl, rfl⟩
  | ended error => tidyAt_nil rfl

end Tidy

/-- A target that is an address needs no dig. -/
def runHttp (table : CaseTable) (localIps : List IpAddr) (opts : HttpOptions) : HttpFuture :=
  match opts.validate table localIps with
  | .ok () => if (parseIpAddr opts.target).isSome then .curlSpawning opts.target else .digSpawning
  | .error e => .ended (some e)

end Http
end GlobalpingProbe.Command
