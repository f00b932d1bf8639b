import GlobalpingProbe.Foundation.Regex
import GlobalpingProbe.Foundation.Strings
import GlobalpingProbe.Util.Data
import Mathlib.Data.Rat.Lemmas

/-! # Parsing the output of traceroute

The first line names the target with its address, each later line a hop. A round-trip time
is the number that its decimal text stands for.
-/
namespace GlobalpingProbe.Command.Traceroute
open Foundation Regex

inductive TracerouteStatus where
  | finished
  | failed
  deriving DecidableEq, Repr

structure HopTiming where
  rtt : ℚ
  deriving DecidableEq, Repr

structure TracerouteHop where
  resolvedAddress : Option Text
  resolvedHostname : Option Text
  timings : List HopTiming
  deriving DecidableEq, Repr

structure ParsedTraceroute where
  status : TracerouteStatus
  rawOutput : Text
  resolvedAddress : Option Text
  resolvedHostname : Option Text
  hops : List TracerouteHop
  deriving DecidableEq, Repr

/-- `[\da-fA-F:]`. -/
def isIpv6Char (classes : UnicodeClasses) (c : Char) : Bool :=
  classes.digit c || ('a' ≤ c && c ≤ 'f') || ('A' ≤ c && c ≤ 'F') || c = ':'

/-- `(?:%\w+)?`. -/
def scopeId (classes : UnicodeClasses) : Regex Char :=
  opt (concat [chr (· = '%'), plus true (chr classes.word)])

/-- `(\S+?)(?:%\w+)?(\s+)\(((?:\d+\.){3}\d+|[\da-fA-F:]+)(?:%\w+)?\)`. -/
def hostRe (classes : UnicodeClasses) : Regex Char :=
  let number := plus true (chr classes.digit)
  let dotted := concat [number, chr (· = '.')]
  concat [group 1 (plus false (chr (!isWhitespace ·))), scopeId classes,
    group 2 (plus true (chr isWhitespace)), chr (· = '('),
    group 3 (alt (concat [dotted, dotted, dotted, number])
      (plus true (chr (isIpv6Char classes)))),
    scopeId classes, chr (· = ')')]

/-- `(\d+(?:\.\d+)?)\s+ms`. -/
def rttRe (classes : UnicodeClasses) : Regex Char :=
  let number := plus true (chr classes.digit)
  concat [group 1 (concat [number, opt (concat [chr (· = '.'), number])]),
    plus true (chr isWhitespace), lit "ms".toList]

/-- A decimal number in figures of ASCII, with or without a fraction. -/
def parseDecimal (s : Text) : Option ℚ :=
  match s.splitOn '.' with
  | [whole] => if whole.all (isDigitOf 10) then some (numeralValue 10 whole) else none
  | [whole, fraction] =>
    if (whole ++ fraction).all (isDigitOf 10) then
      some (mkRat (numeralValue 10 (whole ++ fraction)) (10 ^ fraction.length))
    else none
  | _ => none

def parseHopLine (classes : UnicodeClasses) (line : Text) : TracerouteHop :=
  let hostCaps := (hostRe classes).captures line
  { resolvedAddress := hostCaps.map (·.group 3)
    resolvedHostname := hostCaps.map (·.group 1)
    timings := ((rttRe classes).capturesIter line).map
      (fun c => ⟨(parseDecimal (c.group 1)).getD 0⟩) }

/-- The name of the first hop is hidden. -/
def hideGateway (classes : UnicodeClasses) (line : Text) : Text :=
  (hostRe classes).replace
    (fun caps => "_gateway".toList ++ caps.group 2 ++ ['('] ++ caps.group 3 ++ [')']) line

def parse (classes : UnicodeClasses) (rawOutput : Text) : ParsedTraceroute :=
  let failed : ParsedTraceroute := ⟨.failed, rawOutput, none, none, []⟩
  match lines rawOutput with
  | [] => failed
  | header :: hopLines =>
    match (hostRe classes).captures header with
    | none => failed
    | some headerCaps =>
      let hopLines := hopLines.modifyHead (hideGateway classes)
      let hops := hopLines.map (parseHopLine classes)
      { status := .finished
        rawOutput := joinLines (header :: hopLines)
        resolvedAddress := headerCaps.get 3
        resolvedHostname := hops.reverse.findSome? (·.resolvedHostname)
        hops := hops }

end GlobalpingProbe.Command.Traceroute
