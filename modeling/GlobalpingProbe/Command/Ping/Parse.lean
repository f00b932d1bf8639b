import GlobalpingProbe.Foundation.ExactFloat
import GlobalpingProbe.Foundation.Strings
import GlobalpingProbe.Foundation.Unambiguous
import GlobalpingProbe.Util.Data

/-! # Parsing the output of ping

The first line of the output names the target with the address that it resolved to. Later
lines report on the packets one by one, and a summary follows the header of the statistics.
-/
namespace GlobalpingProbe.Command.Ping
open Foundation Regex

/-- `[^()\s]`. -/
def isNameChar (c : Char) : Bool := c ≠ '(' && c ≠ ')' && !isWhitespace c

/-- `^PING\s([^()\s]*?)\s?\((?:[^()\s]+\s?\()?([^()\s]+?)\)`. -/
def headerRe : Regex Char :=
  concat [lit "PING".toList, chr isWhitespace, group 1 (star false (chr isNameChar)),
    opt (chr isWhitespace), chr (· = '('),
    opt (concat [plus true (chr isNameChar), opt (chr isWhitespace), chr (· = '(')]),
    group 2 (plus false (chr isNameChar)), chr (· = ')')]

/-- The resolved address in what `parse` makes of the output. -/
def resolvedAddress (rawOutput : Text) : Option Text :=
  (lines rawOutput).head?.bind (fun header => (headerRe.exec header).head?.bind (·.get 2))

inductive PingStatus where
  | finished
  | failed
  deriving DecidableEq, Repr

structure PingTiming where
  rtt : F64
  ttl : ℕ
  deriving DecidableEq, Repr

structure PingStats where
  min : Option F64 := none
  max : Option F64 := none
  avg : Option F64 := none
  total : Option ℕ := none
  loss : Option F64 := none
  rcv : Option ℕ := none
  drop : Option ℕ := none
  deriving DecidableEq, Repr

structure ParsedPing where
  status : PingStatus
  rawOutput : Text
  resolvedAddress : Option Text
  resolvedHostname : Option Text
  timings : List PingTiming
  stats : PingStats
  deriving DecidableEq, Repr

/-! ## The expressions -/

/-- `.`. -/
def anyChar : Regex Char := chr (· ≠ '\n')

/-- `\d+`. -/
def digits (classes : UnicodeClasses) : Regex Char := plus true (chr classes.digit)

/-- `\d*(?:\.\d+)?`. -/
def decimalRe (classes : UnicodeClasses) : Regex Char :=
  seq (star true (chr classes.digit)) (opt (seq (chr (· = '.')) (digits classes)))

/-- `^\d+ bytes from (.*?)(?:\s\([^)]*\))?: (?:icmp_)?seq=\d+ ttl=(\d+) time=(\d*(?:\.\d+)?) ms`. -/
def packetRe (classes : UnicodeClasses) : Regex Char :=
  concat [digits classes, lit " bytes from ".toList, group 1 (star false anyChar),
    opt (concat [chr isWhitespace, chr (· = '('), star true (chr (· ≠ ')')), chr (· = ')')]),
    lit ": ".toList, opt (lit "icmp_".toList), lit "seq=".toList, digits classes,
    lit " ttl=".toList, group 2 (digits classes), lit " time=".toList,
    group 3 (decimalRe classes), lit " ms".toList]

/-- `from\s(.*?)(?:\s\(|:\s)`. -/
def hostnameRe : Regex Char :=
  concat [lit "from".toList, chr isWhitespace, group 1 (star false anyChar),
    alt (concat [chr isWhitespace, chr (· = '(')]) (concat [chr (· = ':'), chr isWhitespace])]

/-- `^---\s.*\sstatistics ---`. -/
def statsHeaderRe : Regex Char :=
  concat [lit "---".toList, chr isWhitespace, star true anyChar, chr isWhitespace,
    lit "statistics ---".toList]

/-- `^(?:round-trip|rtt)\s.*\s=\s(\d*(?:\.\d+)?)\/(\d*(?:\.\d+)?)\/(\d*(?:\.\d+)?)`. -/
def rttRe (classes : UnicodeClasses) : Regex Char :=
  concat [alt (lit "round-trip".toList) (lit "rtt".toList), chr isWhitespace, star true anyChar,
    chr isWhitespace, chr (· = '='), chr isWhitespace, group 1 (decimalRe classes), chr (· = '/'),
    group 2 (decimalRe classes), chr (· = '/'), group 3 (decimalRe classes)]

/-- `(\d+)\spackets\stransmitted`. -/
def transmittedRe (classes : UnicodeClasses) : Regex Char :=
  concat [group 1 (digits classes), chr isWhitespace, lit "packets".toList, chr isWhitespace,
    lit "transmitted".toList]

/-- `(\d+)\s(?:received|packets received)`. -/
def rcvRe (classes : UnicodeClasses) : Regex Char :=
  concat [group 1 (digits classes), chr isWhitespace,
    alt (lit "received".toList) (lit "packets received".toList)]

/-- `(\d*(?:\.\d+)?)%\spacket\sloss`. -/
def lossRe (classes : UnicodeClasses) : Regex Char :=
  concat [group 1 (decimalRe classes), chr (· = '%'), chr isWhitespace, lit "packet".toList,
    chr isWhitespace, lit "loss".toList]

/-! ## The parser -/

def parsePacketLine (classes : UnicodeClasses) (line : Text) : Option PingTiming := do
  let caps ← ((packetRe classes).exec line).head?
  let ttl ← (caps.get 2).bind (parseUnsigned 32)
  let rtt ← (caps.get 3).bind F64.parse
  return ⟨rtt, ttl⟩

/-- What the first group of an expression with `\b` in front captures. -/
def wordCapture (classes : UnicodeClasses) (r : Regex Char) (line : Text) : Option Text :=
  (r.capturesAtBoundary classes.word none line).bind (·.get 1)

def parsePacketsLine (classes : UnicodeClasses) (packetsLine : Text) : PingStats :=
  let total := (wordCapture classes (transmittedRe classes) packetsLine).bind (parseUnsigned 32)
  let rcv := (wordCapture classes (rcvRe classes) packetsLine).bind (parseUnsigned 32)
  { total := total
    rcv := rcv
    loss := (wordCapture classes (lossRe classes) packetsLine).bind F64.parse
    drop :=
      match total, rcv with
      | some t, some r => some (t - r)
      | _, _ => none }

/-- The order in the line is min, avg, max. -/
def parseRttLine (classes : UnicodeClasses) (stats : PingStats) (rttLine : Text) : PingStats :=
  match ((rttRe classes).exec rttLine).head? with
  | some caps =>
    { stats with
      min := (caps.get 1).bind F64.parse
      avg := (caps.get 2).bind F64.parse
      max := (caps.get 3).bind F64.parse }
  | none => stats

def parseSummary (classes : UnicodeClasses) : List Text → PingStats
  | [] => {}
  | [packetsLine] => parsePacketsLine classes packetsLine
  | packetsLine :: rttLine :: _ =>
    parseRttLine classes (parsePacketsLine classes packetsLine) rttLine

def parseStats (classes : UnicodeClasses) (ls : List Text) : PingStats :=
  match ls.findIdx? statsHeaderRe.isPrefixMatch with
  | some i => parseSummary classes (ls.drop (i + 1))
  | none => {}

/-- The host name is that of the first reply line, not that of the header. -/
def replyHostname (replies : List Text) : Text :=
  (replies.head?.bind (fun l => (hostnameRe.captures l).bind (·.get 1))).getD []

def parse (classes : UnicodeClasses) (rawOutput : Text) : ParsedPing :=
  let failed : ParsedPing := ⟨.failed, rawOutput, none, none, [], {}⟩
  match lines rawOutput with
  | [] => failed
  | header :: replies =>
    match (headerRe.exec header).head? with
    | none => failed
    | some headerCaps =>
      { status := .finished
        rawOutput := rawOutput.rdropWhile (· = '\n')
        resolvedAddress := headerCaps.get 2
        resolvedHostname := some (replyHostname replies)
        timings := replies.filterMap (parsePacketLine classes)
        stats := parseStats classes (header :: replies) }

end GlobalpingProbe.Command.Ping
