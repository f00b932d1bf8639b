import GlobalpingProbe.Command.Traceroute.Parse
import GlobalpingProbe.Command.Validate

/-! # Running traceroute

The output of the process is read line by line. With a progress channel every hop line sends
what is parsed so far; the address of the target is checked when the process has ended.
-/
namespace GlobalpingProbe.Command.Traceroute
open Foundation Regex Net

abbrev StdoutLine := {s : Text // '\n' ∉ s}

/-- `^\s*\d+\s`. -/
def isHopLine (classes : UnicodeClasses) (line : Text) : Bool :=
  (concat [star true (chr isWhitespace), plus true (chr classes.digit),
    chr isWhitespace]).isPrefixMatch line

def optionToJson (s : Option Text) : Json := (s.map Json.str).getD .null

def TracerouteHop.toJson (hop : TracerouteHop) : Json :=
  .obj [("resolvedAddress".toList, optionToJson hop.resolvedAddress),
    ("resolvedHostname".toList, optionToJson hop.resolvedHostname),
    ("timings".toList, .arr (hop.timings.map (fun t => .obj [("rtt".toList, .num t.rtt)])))]

def progressMessage (accumulated : Text) (parsed : ParsedTraceroute) : Json :=
  .obj [("status".toList, .str "in-progress".toList), ("rawOutput".toList, .str accumulated),
    ("resolvedAddress".toList, optionToJson parsed.resolvedAddress),
    ("resolvedHostname".toList, optionToJson parsed.resolvedHostname),
    ("hops".toList, .arr (parsed.hops.map TracerouteHop.toJson))]

def TracerouteStatus.toText : TracerouteStatus → Text
  | finished => "finished".toList
  | failed => "failed".toList

def ParsedTraceroute.toJson (parsed : ParsedTraceroute) : Json :=
  .obj [("status".toList, .str parsed.status.toText), ("rawOutput".toList, .str parsed.rawOutput),
    ("resolvedAddress".toList, optionToJson parsed.resolvedAddress),
    ("resolvedHostname".toList, optionToJson parsed.resolvedHostname),
    ("hops".toList, .arr (parsed.hops.map TracerouteHop.toJson))]

/-- What a hop line sends, given all lines up to it. -/
def hopProgress (classes : UnicodeClasses) (rawLines : List Text) : List Json :=
  let accumulated := joinLines rawLines
  let parsed := parse classes accumulated
  if parsed.hops.isEmpty then [] else [progressMessage accumulated parsed]

structure Reading where
  rawLines : List Text
  messages : List Json

def Reading.readLine (classes : UnicodeClasses) (progress : Bool) (reading : Reading)
    (line : StdoutLine) : Reading :=
  let rawLines := reading.rawLines ++ [line.val]
  { rawLines := rawLines
    messages := reading.messages ++
      if progress && isHopLine classes line then hopProgress classes rawLines else [] }

def readLines (classes : UnicodeClasses) (progress : Bool) (stdout : List StdoutLine) : Reading :=
  stdout.foldl (Reading.readLine classes progress) ⟨[], []⟩

def rejectPrivate (localIps : List IpAddr) (parsed : ParsedTraceroute) : ParsedTraceroute :=
  match parsed.resolvedAddress.bind parseIpAddr with
  | some ip =>
    if isIpPrivate localIps ip then
      { parsed with
        status := .failed
        rawOutput := "Private IP ranges are not allowed.".toList
        hops := [] }
    else parsed
  | none => parsed

def finalResult (classes : UnicodeClasses) (localIps : List IpAddr) (raw : Text) :
    ParsedTraceroute :=
  if (trim raw).isEmpty then ⟨.failed, [], none, none, []⟩
  else rejectPrivate localIps (parse classes raw)

structure Outcome where
  messages : List Json
  result : ParsedTraceroute

/-- A run on a given output of the process, with or without a progress channel. -/
def runTraceroute (classes : UnicodeClasses) (table : CaseTable) (localIps : List IpAddr)
    (opts : TracerouteOptions) (progress : Bool) (stdout : List StdoutLine) :
    Except Text Outcome := do
  opts.validate table localIps
  let reading := readLines classes progress stdout
  return ⟨reading.messages, finalResult classes localIps (joinLines reading.rawLines)⟩

end GlobalpingProbe.Command.Traceroute
