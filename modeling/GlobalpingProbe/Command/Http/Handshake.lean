import GlobalpingProbe.Command.Http.TlsInfo
import GlobalpingProbe.Foundation.Join
import GlobalpingProbe.Foundation.Unambiguous
import GlobalpingProbe.Foundation.Words

/-! # The comments that curl prints about a handshake

A printer for the comments, each with its label, and what is read back from them. Other lines
may stand between them as long as they do not look alike.
-/
namespace GlobalpingProbe.Command.Http
open Foundation Regex

/-- A key and its value in a distinguished name. -/
structure NamePart where
  key : Text
  value : Text
  key_ne : key ≠ []
  key_plain : ∀ c ∈ key, isWhitespace c = false ∧ c ≠ '=' ∧ c ≠ ';'
  value_trimmed : Trimmed value
  value_plain : ';' ∉ value

def NamePart.text (p : NamePart) : Text := p.key ++ '=' :: p.value

def nameText : List NamePart → Text
  | [] => []
  | [p] => p.text
  | p :: q :: ps => p.text ++ ';' :: ' ' :: nameText (q :: ps)

def NamePart.valueFor (key : Text) (p : NamePart) : Option Text :=
  if p.key = key then some p.value else none

/-- The short names of the months. -/
def monthNames : List Text :=
  ["Jan".toList, "Feb".toList, "Mar".toList, "Apr".toList, "May".toList, "Jun".toList,
    "Jul".toList, "Aug".toList, "Sep".toList, "Oct".toList, "Nov".toList, "Dec".toList]

/-- A time in a certificate. The months are counted from zero. -/
structure CurlDate where
  month : Fin 12
  day : ℕ
  hour : ℕ
  minute : ℕ
  second : ℕ
  year : ℕ

/-- A number in two places. -/
def twoPlaces (pad : Char) (n : ℕ) : Text := (if n < 10 then [pad] else []) ++ Nat.toDigits 10 n

namespace CurlDate
variable (d : CurlDate)

def monthName : Text := monthNames.get d.month

def time : Text :=
  twoPlaces '0' d.hour ++ ':' :: (twoPlaces '0' d.minute ++ ':' :: twoPlaces '0' d.second)

/-- As curl shows it. -/
def text : Text :=
  d.monthName ++ ' ' :: (twoPlaces ' ' d.day ++ ' ' :: (d.time ++ ' ' ::
    (Nat.toDigits 10 d.year ++ ' ' :: "GMT".toList)))

/-- In RFC 3339 with milliseconds. -/
def rfc3339 : Text :=
  Nat.toDigits 10 d.year ++ '-' :: (twoPlaces '0' (d.month + 1) ++ '-' :: (twoPlaces '0' d.day ++
    'T' :: (d.time ++ ".000Z".toList)))

end CurlDate

/-- The handshake and the certificate, as far as curl tells about them. What stands behind the
cipher are the groups of newer versions. -/
structure Handshake where
  protocol : Text
  cipher : Text
  groups : Option Text
  subject : List NamePart
  start : CurlDate
  expire : CurlDate
  alt : Text
  issuer : List NamePart
  words : ∀ w ∈ [protocol, cipher], w ≠ [] ∧ ∀ c ∈ w, isWhitespace c = false
  groups_text : ∀ g ∈ groups, g ≠ [] ∧ Trimmed g
  alt_text : alt ≠ [] ∧ Trimmed alt
  subject_ne : subject ≠ []
  issuer_ne : issuer ≠ []

namespace Handshake

def connectionText (h : Handshake) : Text :=
  h.protocol ++ (" / ".toList ++ (h.cipher ++ (h.groups.map (" / ".toList ++ ·)).getD []))

/-- The label and the text of each comment, with the number of further blanks in front. -/
def comments (h : Handshake) : List (ℕ × Text × Text) :=
  [(0, "SSL connection using ".toList, h.connectionText),
    (1, "subject: ".toList, nameText h.subject), (1, "start date: ".toList, h.start.text),
    (1, "expire date: ".toList, h.expire.text), (1, "subjectAltName: ".toList, h.alt),
    (1, "issuer: ".toList, nameText h.issuer)]

def lines (h : Handshake) : List Text :=
  h.comments.map (fun comment =>
    '*' :: ' ' :: (List.replicate comment.1 ' ' ++ (comment.2.1 ++ comment.2.2)))

/-- All of it, with the dates in RFC 3339. -/
def info (sslVerifyResult : ℕ) (h : Handshake) : TlsInfo where
  authorized := sslVerifyResult = 0
  protocol := some h.protocol
  cipherName := some h.cipher
  createdAt := some h.start.rfc3339
  expiresAt := some h.expire.rfc3339
  subject := ⟨lastSome (NamePart.valueFor "CN".toList) h.subject, some h.alt⟩
  issuer := ⟨lastSome (NamePart.valueFor "CN".toList) h.issuer,
    lastSome (NamePart.valueFor "O".toList) h.issuer,
    lastSome (NamePart.valueFor "C".toList) h.issuer⟩
  keyType := none
  keyBits := none
  serialNumber := none
  fingerprint256 := none
  publicKey := none

end Handshake

section Printed

theorem trimmed_append (front : Text) {c : Char} {s : Text} (hc : isWhitespace c = false)
    (hne : s ≠ []) (hs : Trimmed s) : Trimmed (c :: front ++ s) := by
  have hend := rdropWhile_append_trimmed (fun _ h => h) (c :: front) hne hs
  exact (trim_of_head hc (front ++ s)).trans hend

end Printed

section Dates
variable (d : CurlDate)

end Dates

section Printed

theorem trim_blanks (n : ℕ) (s : Text) : trim (List.replicate n ' ' ++ s) = trim s := by
  induction n with
  | zero => rfl
  | succ n ih =>
    rw [List.replicate_succ, List.cons_append, trim_cons_of_whitespace (by decide)]
    exact ih

end Printed

/-- A part whose key and value are checked as a whole. -/
def namePart (key value : Text) (h : (!key.isEmpty &&
    key.all (fun c => !isWhitespace c && c ≠ '=' && c ≠ ';') &&
      decide (Trimmed value ∧ ';' ∉ value)) = true) : NamePart where
  key := key
  value := value
  key_ne := by simp_all
  key_plain := by
    simp only [Bool.and_eq_true, List.all_eq_true, decide_eq_true_eq, Bool.not_eq_true'] at h
    exact fun c hc => ⟨(h.1.2 c hc).1.1, (h.1.2 c hc).1.2, (h.1.2 c hc).2⟩
  value_trimmed := by simp_all
  value_plain := by simp_all

/-- A handshake between a response that repeats its words. -/
def echoedHandshake : Handshake where
  protocol := "TLSv1.3".toList
  cipher := "TLS_AES_256_GCM_SHA384".toList
  groups := none
  subject := [namePart "CN".toList "a.io".toList (by decide)]
  start := ⟨9, 1, 0, 0, 0, 2024⟩
  expire := ⟨9, 1, 23, 59, 59, 2025⟩
  alt := "host \"a.io\" matched cert's \"a.io\"".toList
  issuer :=
    [namePart "C".toList "US".toList (by decide), namePart "CN".toList "R3".toList (by decide)]
  words := by
    simp only [List.forall_mem_cons]
    exact ⟨⟨by decide, visible_of_all (by decide)⟩, ⟨by decide, visible_of_all (by decide)⟩,
      List.forall_mem_nil _⟩
  groups_text := fun g hg => by cases hg
  alt_text := by decide
  subject_ne := by decide
  issuer_ne := by decide

end GlobalpingProbe.Command.Http
