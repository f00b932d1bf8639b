import GlobalpingProbe.Foundation.Regex
import GlobalpingProbe.Foundation.Strings
import GlobalpingProbe.Util.CaseTable
import GlobalpingProbe.Util.PrivateIp

/-! # Parsing the output of dig

The metadata is looked for in every line and the last match stays; the section that the lines
are in only decides which of them are answers.
-/
namespace GlobalpingProbe.Command.Dns
open Foundation Regex Net

inductive DnsStatus where
  | finished
  | failed
  deriving DecidableEq, Repr

structure DnsAnswer where
  name : Text
  recordType : Text
  ttl : ℕ
  recordClass : Text
  value : Text
  deriving DecidableEq, Repr

structure DnsTimings where
  total : ℕ
  deriving DecidableEq, Repr

structure ClassicResult where
  status : DnsStatus
  statusCodeName : Option Text
  statusCode : Option ℕ
  answers : List DnsAnswer
  timings : DnsTimings
  resolver : Option Text
  rawOutput : Text
  deriving DecidableEq, Repr

/-- `.`. -/
def anyChar : Regex Char := chr (· ≠ '\n')

/-- `(;; )(\S+)( SECTION:)`. -/
def sectionRe : Regex Char :=
  concat [group 1 (lit ";; ".toList), group 2 (plus true (chr (!isWhitespace ·))),
    group 3 (lit " SECTION:".toList)]

/-- `Query\s+time:\s+(\d+)`. -/
def queryTimeRe (classes : UnicodeClasses) : Regex Char :=
  concat [lit "Query".toList, plus true (chr isWhitespace), lit "time:".toList,
    plus true (chr isWhitespace), group 1 (plus true (chr classes.digit))]

/-- `SERVER:.*?\((.*?)\)`. -/
def resolverRe : Regex Char :=
  concat [lit "SERVER:".toList, star false anyChar, chr (· = '('), group 1 (star false anyChar),
    chr (· = ')')]

/-- `status:\s*([A-Z]+)`. -/
def statusCodeRe : Regex Char :=
  concat [lit "status:".toList, star true (chr isWhitespace),
    group 1 (plus true (chr (fun c => 'A' ≤ c && c ≤ 'Z')))]

/-- `SERVER:\s*([^\s#]+)`. -/
def ipInServerRe : Regex Char :=
  concat [lit "SERVER:".toList, star true (chr isWhitespace),
    group 1 (plus true (chr (fun c => !isWhitespace c && c ≠ '#')))]

def statusMap : List (Text × ℕ) :=
  [("noerror".toList, 0), ("formerr".toList, 1), ("servfail".toList, 2), ("nxdomain".toList, 3),
    ("notimp".toList, 4), ("refused".toList, 5), ("yxdomain".toList, 6), ("yxrrset".toList, 7),
    ("nxrrset".toList, 8), ("notauth".toList, 9), ("notzone".toList, 10), ("dsotypeni".toList, 11),
    ("badvers".toList, 16), ("badsig".toList, 16), ("badkey".toList, 17), ("badtime".toList, 18),
    ("badmode".toList, 19), ("badname".toList, 20), ("badalg".toList, 21), ("badtrunc".toList, 22),
    ("badcookie".toList, 23)]

/-- The code of a status that is written in capital letters of ASCII. -/
def statusCodeOf (name : Text) : Option ℕ := statusMap.lookup (name.map Char.toLower)

/-! ## The private resolver -/

/-- A private address in the line of the server is hidden wherever the line has it. -/
def rewriteLine (localIps : List IpAddr) (line : Text) : Text :=
  if contains "SERVER:".toList line then
    match ipInServerRe.captures line with
    | some caps =>
      match parseIpAddr (caps.group 1) with
      | some ip =>
        if isIpPrivate localIps ip then replaceAll (caps.group 1) "x.x.x.x".toList line else line
      | none => line
    | none => line
  else line

def rewriteClassic (localIps : List IpAddr) (raw : Text) : Text :=
  joinLines ((raw.splitOn '\n').map (rewriteLine localIps))

/-! ## The lines -/

/-- `name  TTL  class  type  value...`, separated by white space. -/
def parseAnswerLine (line : Text) : Option DnsAnswer :=
  match splitWhitespace line with
  | name :: ttl :: recordClass :: recordType :: value :: values =>
    (parseUnsigned 32 ttl).map (fun ttl =>
      { name, recordType, ttl, recordClass, value := [' '].intercalate (value :: values) })
  | _ => none

inductive DigSection where
  | header
  | answer
  | question
  | authority
  | additional
  | other
  | blank
  deriving DecidableEq, Repr

def sectionNamed (s : Text) : DigSection :=
  if eqIgnoreAsciiCase s "ANSWER".toList then .answer
  else if eqIgnoreAsciiCase s "QUESTION".toList then .question
  else if eqIgnoreAsciiCase s "AUTHORITY".toList then .authority
  else if eqIgnoreAsciiCase s "ADDITIONAL".toList then .additional
  else .other

/-- The query time that a line shows; one that is no number of 32 bits counts as zero. -/
def queryTimeOf (classes : UnicodeClasses) (line : Text) : Option ℕ :=
  ((queryTimeRe classes).captures line).map (fun caps => (parseUnsigned 32 (caps.group 1)).getD 0)

def statusNameOf (line : Text) : Option Text := (statusCodeRe.captures line).map (·.group 1)

def resolverOf (line : Text) : Option Text :=
  (resolverRe.captures line).map (fun caps =>
    if caps.group 1 = "x.x.x.x".toList then "private".toList else caps.group 1)

structure Reading where
  answers : List DnsAnswer
  timings : DnsTimings
  resolver : Option Text
  statusCodeName : Option Text
  statusCode : Option ℕ
  currentSection : DigSection

/-- The section after a line, and whether the line has switched it. -/
def nextSection (line : Text) (current : DigSection) : DigSection × Bool :=
  if line.isEmpty then (.blank, false)
  else
    match sectionRe.captures line with
    | some caps => (sectionNamed (caps.group 2), true)
    | none => (current, false)

def Reading.readLine (classes : UnicodeClasses) (reading : Reading) (line : Text) : Reading :=
  let (currentSection, sectionChanged) := nextSection line reading.currentSection
  let isAnswer := currentSection = .answer && !sectionChanged && !(";".toList.isPrefixOf line)
  { answers := reading.answers ++ if isAnswer then (parseAnswerLine line).toList else []
    timings := ⟨(queryTimeOf classes line).getD reading.timings.total⟩
    resolver := (resolverOf line).or reading.resolver
    statusCodeName := (statusNameOf line).or reading.statusCodeName
    statusCode := ((statusNameOf line).map statusCodeOf).getD reading.statusCode
    currentSection }

def readLines (classes : UnicodeClasses) (ls : List Text) : Reading :=
  ls.foldl (Reading.readLine classes) ⟨[], ⟨0⟩, none, none, none, .header⟩

def parseClassic (classes : UnicodeClasses) (localIps : List IpAddr) (raw : Text) :
    ClassicResult :=
  let rewritten := rewriteClassic localIps raw
  let ls := rewritten.splitOn '\n'
  if ls.length < 6 || (ls.head?.map (";; Got bad packet:".toList.isPrefixOf ·)).getD false then
    ⟨.failed, none, none, [], ⟨0⟩, none, rewritten⟩
  else
    let reading := readLines classes ls
    { status := .finished
      statusCodeName := reading.statusCodeName
      statusCode := reading.statusCode
      answers := reading.answers
      timings := reading.timings
      resolver := reading.resolver
      rawOutput := rewritten }

end GlobalpingProbe.Command.Dns
