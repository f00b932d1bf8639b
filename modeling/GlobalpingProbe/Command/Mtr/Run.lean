import GlobalpingProbe.Command.Mtr.Output
import GlobalpingProbe.Command.Validate

/-! # Running mtr

The whole output is read when the process has ended. The last hop with an address is taken
for the target; the systems of the hops are looked up with dig, which is a parameter here.
-/
namespace GlobalpingProbe.Command.Mtr
open Foundation Net

/-- How the process ends, within its minute or not. -/
inductive MtrProcess where
  | timedOut
  | spawnFailed (error : Text)
  | exited (stdout stderr : Text)

/-- The name under which the system of an address is found, its octets in reverse. -/
def originName (a : Ipv4Addr) : Text :=
  ['.'].intercalate ([0, 1, 2, 3].map (fun i => decimal (a.extractLsb' (8 * i) 8).toNat)) ++
    ".origin.asn.cymru.com".toList

/-- The numbers in front of the first bar of the first line that has any there. -/
def asnNumbers (stdout : Text) : List ℕ :=
  ((lines stdout).findSome? (fun line =>
    let asnPart := (trimMatches (· = '\"') (trim line)).takeWhile (· ≠ '|')
    let nums := (splitWhitespace asnPart).filterMap (parseUnsigned 32)
    if nums.isEmpty then none else some nums)).getD []

/-- `dig` gives the output of a lookup that ends in time. -/
def lookupAsn (localIps : List IpAddr) (dig : Text → Option Text) (addr : Text) : List ℕ :=
  match parseIpAddr addr with
  | some (.v4 a) =>
    if isIpPrivate localIps (.v4 a) then [] else ((dig (originName a)).map asnNumbers).getD []
  | some (.v6 _) | none => []

def lastReal (hops : List MtrHop) : Option MtrHop :=
  hops.reverse.find? (·.resolvedAddress.isSome)

def rejection : ParsedMtr :=
  ⟨.failed, "Private IP ranges are not allowed.".toList, none, none, []⟩

/-- The address of the last real hop is that of the target, it is assumed. -/
def targetPrivate (localIps : List IpAddr) (hops : List MtrHop) : Bool :=
  (((lastReal hops).bind (·.resolvedAddress)).bind parseIpAddr).any (isIpPrivate localIps)

def finishedResult (localIps : List IpAddr) (dig : Text → Option Text) (hops : List MtrHop) :
    ParsedMtr :=
  let hops := hops.map (fun h =>
    { h with asn := (h.resolvedAddress.map (lookupAsn localIps dig)).getD [] })
  { status := .finished
    rawOutput := buildOutput hops
    resolvedAddress := (lastReal hops).bind (·.resolvedAddress)
    resolvedHostname := (lastReal hops).bind (·.resolvedHostname)
    hops := hops }

def mtrResult (localIps : List IpAddr) (dig : Text → Option Text) (stdout stderr : Text) :
    ParsedMtr :=
  if (trim stdout).isEmpty then
    ⟨.failed, if (trim stderr).isEmpty then "Test failed. Please try again.".toList else stderr,
      none, none, []⟩
  else if targetPrivate localIps (parseRaw stdout true) then rejection
  else finishedResult localIps dig (parseRaw stdout true)

def runMtr (table : CaseTable) (localIps : List IpAddr) (dig : Text → Option Text)
    (opts : MtrOptions) (process : MtrProcess) : Except Text ParsedMtr := do
  opts.validate table localIps
  match process with
  | .timedOut => .error "mtr command timed out".toList
  | .spawnFailed error => .error ("failed to spawn mtr: ".toList ++ error)
  | .exited stdout stderr => return mtrResult localIps dig stdout stderr

end GlobalpingProbe.Command.Mtr
