import GlobalpingProbe.Command.Future
import GlobalpingProbe.Command.Traceroute.Run
import GlobalpingProbe.Foundation.Lines

/-! # Running ping

The output of the process is read line by line. The address of the target is checked as soon
as it is known, and a private one ends the reading. With a progress channel every reply line
sends what is parsed so far.
-/
namespace GlobalpingProbe.Command.Ping
open Foundation Regex Net
open Traceroute (StdoutLine optionToJson)

/-- `bytes from .* time=`. -/
def packetLineRe : Regex Char :=
  concat [lit "bytes from ".toList, star true anyChar, lit " time=".toList]

def isPacketLine (line : Text) : Bool := (packetLineRe.captures line).isSome

/-- A number that is not finite has no place in JSON. -/
def numToJson : F64 → Json
  | .finite q => .num q
  | .inf _ | .nan => .null

def PingTiming.toJson (timing : PingTiming) : Json :=
  .obj [("rtt".toList, numToJson timing.rtt), ("ttl".toList, .num timing.ttl)]

def PingStats.toJson (stats : PingStats) : Json :=
  let decimal (x : Option F64) : Json := (x.map numToJson).getD .null
  let count (n : Option ℕ) : Json := (n.map (fun n => Json.num n)).getD .null
  .obj [("min".toList, decimal stats.min), ("max".toList, decimal stats.max),
    ("avg".toList, decimal stats.avg), ("total".toList, count stats.total),
    ("loss".toList, decimal stats.loss), ("rcv".toList, count stats.rcv),
    ("drop".toList, count stats.drop)]

def PingStatus.toText : PingStatus → Text
  | finished => "finished".toList
  | failed => "failed".toList

/-- What a message and the result have in common. -/
def measurementJson (status rawOutput : Text) (parsed : ParsedPing) : Json :=
  .obj [("status".toList, .str status), ("rawOutput".toList, .str rawOutput),
    ("resolvedAddress".toList, optionToJson parsed.resolvedAddress),
    ("resolvedHostname".toList, optionToJson parsed.resolvedHostname),
    ("timings".toList, .arr (parsed.timings.map PingTiming.toJson)),
    ("stats".toList, parsed.stats.toJson)]

def ParsedPing.toJson (parsed : ParsedPing) : Json :=
  measurementJson parsed.status.toText parsed.rawOutput parsed

def progressMessage (rawOutput : Text) (parsed : ParsedPing) : Json :=
  measurementJson "in-progress".toList rawOutput parsed

/-- What a reply line sends, given all output up to it. -/
def packetProgress (classes : UnicodeClasses) (rawOutput : Text) : List Json :=
  let parsed := parse classes rawOutput
  if parsed.timings.isEmpty then [] else [progressMessage rawOutput parsed]

structure IcmpRun where
  reading : PingReading
  messages : List Json

/-- The run after a line, and whether the child is killed. -/
def IcmpRun.readLine (classes : UnicodeClasses) (localIps : List IpAddr) (progress : Bool)
    (run : IcmpRun) (line : Text) : IcmpRun × Bool :=
  match Ping.readLine localIps run.reading line with
  | (reading, true) => ({ run with reading := reading }, true)
  | (reading, false) =>
    ({ reading := reading
       messages := run.messages ++
        if progress && isPacketLine line then packetProgress classes reading.rawOutput else [] },
      false)

def IcmpRun.readLines (classes : UnicodeClasses) (localIps : List IpAddr) (progress : Bool)
    (run : IcmpRun) : List StdoutLine → IcmpRun
  | [] => run
  | line :: later =>
    match run.readLine classes localIps progress line.val with
    | (next, true) => next
    | (next, false) => next.readLines classes localIps progress later

def privateTarget : ParsedPing :=
  ⟨.failed, "Private IP ranges are not allowed.".toList, none, none, [], {}⟩

structure Outcome where
  messages : List Json
  result : ParsedPing

/-- A run on a given output of the process, with or without a progress channel. -/
def runIcmpOn (classes : UnicodeClasses) (localIps : List IpAddr) (progress : Bool)
    (stdout : List StdoutLine) : Outcome :=
  let run := IcmpRun.readLines classes localIps progress ⟨⟨[], none, false⟩, []⟩ stdout
  ⟨run.messages,
    if run.reading.isPrivate then privateTarget else parse classes run.reading.rawOutput⟩

end GlobalpingProbe.Command.Ping
