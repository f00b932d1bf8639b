import GlobalpingProbe.Foundation.Lines
import GlobalpingProbe.Foundation.Regex
import GlobalpingProbe.Util.Data

/-! # The TLS connection as curl tells it

The verbose output of curl has comments about the handshake among everything else, what the
server answers included. Each part of the result is what the last comment of its kind shows; no
other line has a say.
-/
namespace GlobalpingProbe.Command.Http
open Foundation Regex

/-- A date and time in a format, written in RFC 3339. -/
abbrev DateParser := Text → Text → Option Text

structure TlsSubject where
  cn : Option Text
  alt : Option Text
  deriving DecidableEq, Repr

structure TlsIssuer where
  cn : Option Text
  o : Option Text
  c : Option Text
  deriving DecidableEq, Repr

structure TlsInfo where
  authorized : Bool
  protocol : Option Text
  cipherName : Option Text
  createdAt : Option Text
  expiresAt : Option Text
  subject : TlsSubject
  issuer : TlsIssuer
  keyType : Option Text
  keyBits : Option ℕ
  serialNumber : Option Text
  fingerprint256 : Option Text
  publicKey : Option Text
  deriving DecidableEq, Repr

def stripPrefix (pat s : Text) : Option Text :=
  if pat.isPrefixOf s then some (s.drop pat.length) else none

/-- At most `n` pieces, as `splitn` of the source with a text between them. -/
def splitnText (pat : Text) : ℕ → Text → List Text
  | 0, _ => []
  | 1, s => [s]
  | n + 2, s =>
    match (lit pat).find s with
    | none => [s]
    | some (before, m) => before :: splitnText pat (n + 1) m.rest

/-- The formats differ in how the day is padded. -/
def parseCurlDate (chrono : DateParser) (s : Text) : Option Text :=
  match splitWhitespace s with
  | month :: day :: time :: year :: _ =>
    let dateStr := [' '].intercalate [month, day, time, year]
    ["%b %e %H:%M:%S %Y".toList, "%b %d %H:%M:%S %Y".toList].findSome? (chrono dateStr)
  | _ => none

/-- What a comment about the handshake is about, and the rest of it. -/
inductive TlsLine where
  | connection (rest : Text)
  | startDate (rest : Text)
  | expireDate (rest : Text)
  | subject (rest : Text)
  | issuer (rest : Text)
  | altName (rest : Text)

def tlsLineOf (content : Text) : Option TlsLine :=
  ((stripPrefix "SSL connection using ".toList content).map .connection).or <|
  ((stripPrefix "start date: ".toList content).map .startDate).or <|
  ((stripPrefix "expire date: ".toList content).map .expireDate).or <|
  ((stripPrefix "subject: ".toList content).map .subject).or <|
  ((stripPrefix "issuer: ".toList content).map .issuer).or <|
  (stripPrefix "subjectAltName: ".toList content).map .altName

/-- The text of a comment, which a star marks. -/
def commentOf (line : Text) : Option Text :=
  let line := trim line
  if "* ".toList.isPrefixOf line || "*  ".toList.isPrefixOf line then
    some (trim (line.dropWhile (· = '*')))
  else none

def noteOf (line : Text) : Option TlsLine := (commentOf line).bind tlsLineOf

def readSubjectPart (subject : TlsSubject) (part : Text) : TlsSubject :=
  match stripPrefix "CN=".toList (trim part) with
  | some cn => { subject with cn := some (trim cn) }
  | none => subject

def readIssuerPart (issuer : TlsIssuer) (part : Text) : TlsIssuer :=
  match stripPrefix "CN=".toList (trim part) with
  | some cn => { issuer with cn := some (trim cn) }
  | none =>
    match stripPrefix "O=".toList (trim part) with
    | some o => { issuer with o := some (trim o) }
    | none =>
      match stripPrefix "C=".toList (trim part) with
      | some c => { issuer with c := some (trim c) }
      | none => issuer

structure TlsReading where
  protocol : Option Text
  cipherName : Option Text
  createdAt : Option Text
  expiresAt : Option Text
  subject : TlsSubject
  issuer : TlsIssuer
  foundTls : Bool
  deriving DecidableEq, Repr

def connectionParts (rest : Text) : List Text := splitnText " / ".toList 3 rest

def TlsReading.readNote (chrono : DateParser) (reading : TlsReading) : TlsLine → TlsReading
  | .connection rest =>
    { reading with
      foundTls := true
      protocol := some (trim ((connectionParts rest).headD []))
      cipherName := ((connectionParts rest)[1]?.map trim).or reading.cipherName }
  | .startDate rest => { reading with createdAt := parseCurlDate chrono (trim rest) }
  | .expireDate rest => { reading with expiresAt := parseCurlDate chrono (trim rest) }
  | .subject rest =>
    { reading with subject := (rest.splitOn ';').foldl readSubjectPart reading.subject }
  | .issuer rest =>
    { reading with issuer := (rest.splitOn ';').foldl readIssuerPart reading.issuer }
  | .altName rest => { reading with subject := { reading.subject with alt := some (trim rest) } }

def TlsReading.readLine (chrono : DateParser) (reading : TlsReading) (line : Text) : TlsReading :=
  match noteOf line with
  | some note => reading.readNote chrono note
  | none => reading

def noTls : TlsReading := ⟨none, none, none, none, ⟨none, none⟩, ⟨none, none, none⟩, false⟩

def parseTlsVerbose (chrono : DateParser) (verbose : Text) (sslVerifyResult : ℕ) :
    Option TlsInfo :=
  let reading := (lines verbose).foldl (TlsReading.readLine chrono) noTls
  if reading.foundTls then
    some
      { authorized := sslVerifyResult = 0
        protocol := reading.protocol
        cipherName := reading.cipherName
        createdAt := reading.createdAt
        expiresAt := reading.expiresAt
        subject := reading.subject
        issuer := reading.issuer
        keyType := none
        keyBits := none
        serialNumber := none
        fingerprint256 := none
        publicKey := none }
  else none

/-! ## The last comment of each kind -/

namespace TlsLine

end TlsLine

section Notes
variable {chrono : DateParser}

end Notes

end GlobalpingProbe.Command.Http
