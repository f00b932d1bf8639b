import GlobalpingProbe.Command.Http.Handshake
import GlobalpingProbe.Util.CaseTable

/-! # The certificate as openssl prints it

`enrich_tls` takes from the text of a certificate what curl does not tell. Each line is known by
how it starts, but for the alternative names, which are whatever stands on the line behind their
heading.
-/
namespace GlobalpingProbe.Command.Http
open Foundation Regex

inductive CertLine where
  | fingerprint (rest : Text)
  | serial (hex : Text)
  | keyAlgorithm (line : Text)
  | keySize (rest : Text)
  | altHeading
  | other (line : Text)

def keyAlgorithmOf (line : Text) : Option CertLine :=
  if "Public Key Algorithm:".toList.isPrefixOf line then some (.keyAlgorithm line) else none

def altHeadingOf (line : Text) : Option CertLine :=
  if "X509v3 Subject Alternative Name".toList.isPrefixOf line then some .altHeading else none

/-- Older versions print the name of the hash in capitals. -/
def certLineOf (line : Text) : CertLine :=
  ((((((stripPrefix "sha256 Fingerprint=".toList line).or
    (stripPrefix "SHA256 Fingerprint=".toList line)).map CertLine.fingerprint).or <|
  (stripPrefix "serial=".toList line).map .serial).or <|
  keyAlgorithmOf line).or <|
  (stripPrefix "Public-Key: (".toList line).map .keySize).or (altHeadingOf line) |>.getD
  (.other line)

def containsText (pat s : Text) : Bool := ((lit pat).find s).isSome

def keyTypeOf (line : Text) : Option Text :=
  if containsText "ecPublicKey".toList line || containsText "id-ec".toList line then
    some "EC".toList
  else if containsText "rsaEncryption".toList line then some "RSA".toList
  else none

def stripSuffix (pat s : Text) : Option Text :=
  if pat.isSuffixOf s then some (s.take (s.length - pat.length)) else none

def keyBitsOf (rest : Text) : Option ℕ :=
  (stripSuffix " bit)".toList rest).bind (parseUnsigned 32)

/-- `chunks(2)`. -/
def chunkPairs : Text → List Text
  | [] => []
  | [c] => [[c]]
  | c :: d :: s => [c, d] :: chunkPairs s

/-- "AABB..." with colons, "AA:BB:...". -/
def serialNumberOf (table : CaseTable) (hex : Text) : Option Text :=
  let fmt := chunkPairs (table.toUppercase (trim hex))
  if fmt.isEmpty then none else some ([':'].intercalate fmt)

structure CertReading where
  tls : TlsInfo
  nextIsSan : Bool

namespace CertReading

def readNote (table : CaseTable) (r : CertReading) : CertLine → CertReading
  | .fingerprint fp => { r with tls := { r.tls with fingerprint256 := some (trim fp) } }
  | .serial hex =>
    { r with tls := { r.tls with
        serialNumber := (serialNumberOf table hex).or r.tls.serialNumber } }
  | .keyAlgorithm line =>
    { r with tls := { r.tls with keyType := (keyTypeOf line).or r.tls.keyType } }
  | .keySize rest => { r with tls := { r.tls with keyBits := (keyBitsOf rest).or r.tls.keyBits } }
  | .altHeading => { r with nextIsSan := true }
  | .other line =>
    if r.nextIsSan && !line.isEmpty then
      ⟨{ r.tls with subject := { r.tls.subject with alt := some line } }, false⟩
    else r

def readLine (table : CaseTable) (r : CertReading) (line : Text) : CertReading :=
  r.readNote table (certLineOf (trim line))

end CertReading

/-- What `enrich_tls` makes of the output of `openssl x509`. -/
def readCertificate (table : CaseTable) (tls : TlsInfo) (text : Text) : TlsInfo :=
  ((lines text).foldl (CertReading.readLine table) ⟨tls, false⟩).tls

/-! ## The serial number in pairs -/

section Pairs
variable {s : Text}

theorem flatten_chunkPairs : ∀ s : Text, (chunkPairs s).flatten = s
  | [] => rfl
  | [_] => rfl
  | c :: d :: s => congrArg (fun t => c :: d :: t) (flatten_chunkPairs s)

theorem chunkPairs_ne_nil (h : s ≠ []) : chunkPairs s ≠ [] := by
  intro hnil
  have hflat := flatten_chunkPairs s
  rw [hnil] at hflat
  exact h hflat.symm

theorem length_of_mem_chunkPairs : ∀ s : Text, 2 ∣ s.length → ∀ p ∈ chunkPairs s, p.length = 2
  | [], _ => List.forall_mem_nil _
  | [_], h => by
    rw [List.length_singleton] at h
    omega
  | _ :: _ :: s, h => List.forall_mem_cons.mpr ⟨rfl, length_of_mem_chunkPairs s (by
      rw [List.length_cons, List.length_cons] at h
      omega)⟩

theorem mem_of_mem_chunkPairs {p : Text} {c : Char} (hp : p ∈ chunkPairs s) (hc : c ∈ p) :
    c ∈ s := by
  rw [← flatten_chunkPairs s]
  exact List.mem_flatten_of_mem hp hc

end Pairs

/-! ## What openssl prints -/

def isHexDigit (c : Char) : Bool := "0123456789ABCDEFabcdef".toList.contains c

theorem hexDigit_plain {c : Char} (h : isHexDigit c = true) :
    c.toNat < 128 ∧ isWhitespace c = false ∧ c.toUpper ≠ ':' := by
  have hall : "0123456789ABCDEFabcdef".toList.all (fun c =>
      decide (c.toNat < 128) && !isWhitespace c && decide (c.toUpper ≠ ':')) = true := by decide
  have hc := List.all_eq_true.mp hall c (List.contains_iff_mem.mp h)
  simpa [and_assoc] using hc

/-- What the lines start with that are read. -/
def certLabels : List Text :=
  ["sha256 Fingerprint=".toList, "SHA256 Fingerprint=".toList, "serial=".toList,
    "Public Key Algorithm:".toList, "Public-Key: (".toList,
    "X509v3 Subject Alternative Name".toList]

/-- The line starts with none of them, up to white space. -/
def PlainLine (line : Text) : Prop := ∀ label ∈ certLabels, ¬ label <+: trim line

instance (line : Text) : Decidable (PlainLine line) := List.decidableBAll _ certLabels

/-- Keys of the two common kinds, and others under the name that openssl has for them. -/
inductive KeyAlgorithm where
  | ec
  | rsa
  | other (name : Text)

namespace KeyAlgorithm

def name : KeyAlgorithm → Text
  | ec => "id-ecPublicKey".toList
  | rsa => "rsaEncryption".toList
  | other name => name

/-- The kind that is reported. -/
def kind : KeyAlgorithm → Option Text
  | ec => some "EC".toList
  | rsa => some "RSA".toList
  | other _ => none

/-- Another name is none of the common ones, nor has one in it. -/
def WellNamed : KeyAlgorithm → Prop
  | ec | rsa => True
  | other name => name ≠ [] ∧ Trimmed name ∧
      ∀ pat ∈ ["ecPublicKey".toList, "id-ec".toList, "rsaEncryption".toList], ¬ pat <:+: name

end KeyAlgorithm

/-- A certificate with the lines that stand around what is read. -/
structure Certificate where
  capitals : Bool
  fingerprint : Text
  serial : Text
  algorithm : KeyAlgorithm
  bits : Option ℕ
  critical : Bool
  alt : Option Text
  head : List Text
  keyLines : List Text
  tail : List Text
  fingerprint_text : fingerprint ≠ [] ∧ Trimmed fingerprint
  serial_hex : serial ≠ [] ∧ ∀ c ∈ serial, isHexDigit c = true
  algorithm_named : algorithm.WellNamed
  bits_fit : ∀ n ∈ bits, n < 2 ^ 32
  alt_text : ∀ t ∈ alt, t ≠ [] ∧ Trimmed t ∧ PlainLine t
  plain : ∀ l ∈ head ++ keyLines ++ tail, PlainLine l
  one_line : ∀ t ∈ [fingerprint, algorithm.name] ++ alt.toList ++ (head ++ keyLines ++ tail),
    '\n' ∉ t ∧ '\r' ∉ t

namespace Certificate

def fingerprintLine (c : Certificate) : Text :=
  (if c.capitals then "SHA256 Fingerprint=".toList else "sha256 Fingerprint=".toList) ++
    c.fingerprint

def serialLine (c : Certificate) : Text := "serial=".toList ++ c.serial

def algorithmLine (c : Certificate) : Text :=
  List.replicate 12 ' ' ++ ("Public Key Algorithm: ".toList ++ c.algorithm.name)

def sizeLine (n : ℕ) : Text :=
  List.replicate 16 ' ' ++ ("Public-Key: (".toList ++ (Nat.toDigits 10 n ++ " bit)".toList))

def headingLine (c : Certificate) : Text :=
  List.replicate 12 ' ' ++ (if c.critical then "X509v3 Subject Alternative Name: critical".toList
    else "X509v3 Subject Alternative Name: ".toList)

def altLines (c : Certificate) : List Text :=
  match c.alt with
  | none => []
  | some alt => [c.headingLine, List.replicate 16 ' ' ++ alt]

def lines (c : Certificate) : List Text :=
  [c.fingerprintLine, c.serialLine] ++ c.head ++ [c.algorithmLine] ++ c.bits.toList.map sizeLine ++
    c.keyLines ++ c.altLines ++ c.tail

def text (c : Certificate) : Text := c.lines.flatMap endLf

/-- What is known with the certificate. -/
def added (c : Certificate) (tls : TlsInfo) : TlsInfo :=
  { tls with
    fingerprint256 := some c.fingerprint
    serialNumber := some ([':'].intercalate (chunkPairs (c.serial.map Char.toUpper)))
    keyType := c.algorithm.kind.or tls.keyType
    keyBits := c.bits.or tls.keyBits
    subject := { tls.subject with alt := c.alt.or tls.subject.alt } }

end Certificate

section Lines
variable {table : CaseTable} {r : CertReading} {l : Text}

theorem certLineOf_other {line : Text} (h : ∀ label ∈ certLabels, ¬ label <+: line) :
    certLineOf line = .other line := by
  simp only [certLabels, List.forall_mem_cons] at h
  obtain ⟨hlower, hupper, hserial, halgorithm, hsize, hheading, -⟩ := h
  simp only [certLineOf, keyAlgorithmOf, altHeadingOf, stripPrefix, List.isPrefixOf_iff_prefix,
    if_neg hlower, if_neg hupper, if_neg hserial, if_neg halgorithm, if_neg hsize, if_neg hheading,
    Option.or_none, Option.map_none, Option.getD_none]

theorem readLine_plain (h : PlainLine l) (hsan : r.nextIsSan = false) : r.readLine table l = r := by
  rw [CertReading.readLine, certLineOf_other h, CertReading.readNote, hsan]
  rfl

theorem foldl_plain {ls : List Text} (h : ∀ l ∈ ls, PlainLine l) (hsan : r.nextIsSan = false) :
    ls.foldl (CertReading.readLine table) r = r := by
  induction ls with
  | nil => rfl
  | cons l ls ih =>
    rw [List.foldl_cons, readLine_plain (h l List.mem_cons_self) hsan,
      ih (fun l hl => h l (List.mem_cons_of_mem _ hl))]

theorem trim_indented (n : ℕ) {c : Char} (front : Text) {rest : Text}
    (hc : isWhitespace c = false) (hne : rest ≠ []) (hrest : Trimmed rest) :
    trim (List.replicate n ' ' ++ (c :: front ++ rest)) = c :: front ++ rest :=
  (trim_blanks n _).trans (trimmed_append front hc hne hrest)

theorem readLine_fingerprint (c : Certificate) : r.readLine table c.fingerprintLine =
    { r with tls := { r.tls with fingerprint256 := some c.fingerprint } } := by
  obtain ⟨hne, htrim⟩ := c.fingerprint_text
  have hline : certLineOf (trim c.fingerprintLine) = .fingerprint c.fingerprint := by
    unfold Certificate.fingerprintLine
    split
    · have htext : trim ("SHA256 Fingerprint=".toList ++ c.fingerprint) =
          "SHA256 Fingerprint=".toList ++ c.fingerprint := trimmed_append _ (by decide) hne htrim
      rw [htext]
      rfl
    · have htext : trim ("sha256 Fingerprint=".toList ++ c.fingerprint) =
          "sha256 Fingerprint=".toList ++ c.fingerprint := trimmed_append _ (by decide) hne htrim
      rw [htext]
      rfl
  rw [CertReading.readLine, hline, CertReading.readNote, htrim]

theorem serial_visible (c : Certificate) : ∀ d ∈ c.serial, isWhitespace d = false :=
  fun d hd => (hexDigit_plain (c.serial_hex.2 d hd)).2.1

theorem readLine_serial (c : Certificate) : r.readLine table c.serialLine =
    { r with tls := { r.tls with
      serialNumber := some ([':'].intercalate (chunkPairs (c.serial.map Char.toUpper))) } } := by
  obtain ⟨hne, hhex⟩ := c.serial_hex
  have htrim : Trimmed c.serial := trimmed_of_no_whitespace (serial_visible c)
  have htext : trim c.serialLine = "serial=".toList ++ c.serial :=
    trimmed_append _ (by decide) hne htrim
  have hline : certLineOf (trim c.serialLine) = .serial c.serial := by
    rw [htext]
    rfl
  have hupper : table.toUppercase (trim c.serial) = c.serial.map Char.toUpper := by
    rw [htrim, table.toUppercase_ascii (fun d hd => (hexDigit_plain (hhex d hd)).1)]
  have hpairs : (chunkPairs (c.serial.map Char.toUpper)).isEmpty = false :=
    List.isEmpty_eq_false_iff.mpr (chunkPairs_ne_nil (List.map_eq_nil_iff.not.mpr hne))
  have hshown : serialNumberOf table c.serial =
      some ([':'].intercalate (chunkPairs (c.serial.map Char.toUpper))) := by
    unfold serialNumberOf
    dsimp only
    rw [hupper, hpairs]
    rfl
  rw [CertReading.readLine, hline, CertReading.readNote, hshown, Option.some_or]

theorem containsText_iff {pat s : Text} : containsText pat s = true ↔ pat <:+: s := by
  constructor
  · intro h
    obtain ⟨⟨before, m⟩, hfind⟩ := Option.isSome_iff_exists.mp h
    obtain ⟨hs, hlang⟩ := find_sound hfind
    rw [eq_of_mem_lang_lit hlang] at hs
    exact ⟨before, m.rest, hs⟩
  · rintro ⟨before, rest, rfl⟩
    exact find_isSome (mem_lang_lit pat) before rest

/-- What stands in the line stands in the name: the label ends in a blank. -/
theorem infix_algorithm {pat name : Text} (hspace : ' ' ∉ pat)
    (hlabel : ¬ pat <:+: "Public Key Algorithm: ".toList)
    (h : pat <:+: "Public Key Algorithm: ".toList ++ name) : pat <:+: name := by
  rcases List.infix_append_iff.mp h with hpre | hname | ⟨front, back, rfl, hfront, hback⟩
  · exact absurd hpre hlabel
  · exact hname
  · cases front using List.reverseRecOn with
    | nil => exact hback.isInfix
    | append_singleton front c =>
      obtain ⟨before, hbefore⟩ := hfront
      have hlast := congrArg List.getLast? hbefore
      rw [← List.append_assoc, List.getLast?_concat] at hlast
      obtain rfl : c = ' ' := Option.some.inj hlast
      exact absurd (by simp) hspace

/-- The kind of a key is told from its name. -/
theorem keyTypeOf_name {algorithm : KeyAlgorithm} (h : algorithm.WellNamed) :
    keyTypeOf ("Public Key Algorithm: ".toList ++ algorithm.name) = algorithm.kind := by
  simp only [keyTypeOf, Bool.or_eq_true, containsText_iff]
  cases algorithm with
  | ec => exact if_pos (.inl ⟨"Public Key Algorithm: id-".toList, [], rfl⟩)
  | rsa =>
    have hec : ¬ ("ecPublicKey".toList <:+: "Public Key Algorithm: rsaEncryption".toList ∨
        "id-ec".toList <:+: "Public Key Algorithm: rsaEncryption".toList) := by decide +kernel
    have hrsa : "rsaEncryption".toList <:+: "Public Key Algorithm: rsaEncryption".toList := by
      decide +kernel
    have htext : "Public Key Algorithm: ".toList ++ KeyAlgorithm.rsa.name =
        "Public Key Algorithm: rsaEncryption".toList := by decide
    rw [htext, if_neg hec, if_pos hrsa]
    rfl
  | other name =>
    have hnone : ∀ pat ∈ ["ecPublicKey".toList, "id-ec".toList, "rsaEncryption".toList],
        ¬ pat <:+: name := h.2.2
    have hec := hnone "ecPublicKey".toList (by simp)
    have hid := hnone "id-ec".toList (by simp)
    have hrsa := hnone "rsaEncryption".toList (by simp)
    have hnot : ∀ pat : Text, ' ' ∉ pat → ¬ pat <:+: "Public Key Algorithm: ".toList →
        ¬ pat <:+: name → ¬ pat <:+: "Public Key Algorithm: ".toList ++ name :=
      fun pat hspace hlabel => mt (infix_algorithm hspace hlabel)
    have hec' := hnot _ (by decide) (by decide +kernel) hec
    have hid' := hnot _ (by decide) (by decide +kernel) hid
    have hrsa' := hnot _ (by decide) (by decide +kernel) hrsa
    exact (if_neg (not_or.mpr ⟨hec', hid'⟩)).trans (if_neg hrsa')

theorem readLine_algorithm (c : Certificate) : r.readLine table c.algorithmLine =
    { r with tls := { r.tls with keyType := c.algorithm.kind.or r.tls.keyType } } := by
  obtain ⟨hne, htrim⟩ : c.algorithm.name ≠ [] ∧ Trimmed c.algorithm.name := by
    have hnamed := c.algorithm_named
    cases halgorithm : c.algorithm with
    | ec => exact ⟨by decide, by decide⟩
    | rsa => exact ⟨by decide, by decide⟩
    | other name =>
      rw [halgorithm] at hnamed
      exact ⟨hnamed.1, hnamed.2.1⟩
  have htext : trim c.algorithmLine = "Public Key Algorithm: ".toList ++ c.algorithm.name :=
    trim_indented 12 _ (by decide) hne htrim
  have hline : certLineOf (trim c.algorithmLine) =
      .keyAlgorithm ("Public Key Algorithm: ".toList ++ c.algorithm.name) := by
    rw [htext]
    rfl
  rw [CertReading.readLine, hline, CertReading.readNote, keyTypeOf_name c.algorithm_named]

theorem readLine_size {n : ℕ} (hn : n < 2 ^ 32) : r.readLine table (Certificate.sizeLine n) =
    { r with tls := { r.tls with keyBits := some n } } := by
  have hsplit : "Public-Key: (".toList ++ (Nat.toDigits 10 n ++ " bit)".toList) =
      ('P' :: ("ublic-Key: (".toList ++ Nat.toDigits 10 n ++ " bit".toList)) ++ [')'] := by simp
  have htext : trim (Certificate.sizeLine n) =
      "Public-Key: (".toList ++ (Nat.toDigits 10 n ++ " bit)".toList) := by
    rw [Certificate.sizeLine, hsplit]
    exact trim_indented 16 _ (by decide) (List.cons_ne_nil _ _) (by decide)
  have hline : certLineOf (trim (Certificate.sizeLine n)) =
      .keySize (Nat.toDigits 10 n ++ " bit)".toList) := by
    rw [htext]
    rfl
  have hbits : keyBitsOf (Nat.toDigits 10 n ++ " bit)".toList) = some n := by
    have hsuffix : " bit)".toList.isSuffixOf (Nat.toDigits 10 n ++ " bit)".toList) = true :=
      List.isSuffixOf_iff_suffix.mpr (List.suffix_append _ _)
    rw [keyBitsOf, stripSuffix, if_pos hsuffix, List.length_append, Nat.add_sub_cancel,
      List.take_left, Option.bind_some, parseUnsigned_toDigits hn]
  rw [CertReading.readLine, hline, CertReading.readNote, hbits, Option.some_or]

theorem readLine_heading (c : Certificate) :
    r.readLine table c.headingLine = { r with nextIsSan := true } := by
  have hline : certLineOf (trim c.headingLine) = .altHeading := by
    unfold Certificate.headingLine
    rw [trim_blanks]
    split <;> rfl
  rw [CertReading.readLine, hline, CertReading.readNote]

theorem readLine_alt {alt : Text} (hne : alt ≠ []) (htrim : Trimmed alt) (hplain : PlainLine alt)
    (hsan : r.nextIsSan = true) : r.readLine table (List.replicate 16 ' ' ++ alt) =
      ⟨{ r.tls with subject := { r.tls.subject with alt := some alt } }, false⟩ := by
  have hline : certLineOf (trim (List.replicate 16 ' ' ++ alt)) = .other alt := by
    rw [trim_blanks, certLineOf_other hplain, htrim]
  rw [CertReading.readLine, hline, CertReading.readNote, hsan, List.isEmpty_eq_false_iff.mpr hne]
  rfl

/-- The names are what stands behind their heading. -/
theorem foldl_altLines (c : Certificate) (hsan : r.nextIsSan = false) :
    c.altLines.foldl (CertReading.readLine table) r =
      { r with tls := { r.tls with subject :=
        { r.tls.subject with alt := c.alt.or r.tls.subject.alt } } } := by
  unfold Certificate.altLines
  cases halt : c.alt with
  | none => rfl
  | some alt =>
    obtain ⟨hne, htrim, hplain⟩ := c.alt_text alt halt
    rw [List.foldl_cons, List.foldl_cons, List.foldl_nil, readLine_heading,
      readLine_alt hne htrim hplain rfl, Option.some_or, ← hsan]

end Lines

section Whole
variable (c : Certificate)

/-- White space that is no blank stands in no line that has none in its parts. -/
theorem Certificate.notMem_lines {d : Char} (hspace : isWhitespace d = true) (hne : d ≠ ' ')
    (hparts : ∀ t ∈ [c.fingerprint, c.algorithm.name] ++ c.alt.toList ++
      (c.head ++ c.keyLines ++ c.tail), d ∉ t) : ∀ l ∈ c.lines, d ∉ l := by
  have hlabel : ∀ t : Text, t.all (fun e => e = ' ' || !isWhitespace e) = true → d ∉ t := by
    intro t ht hmem
    have hd := List.all_eq_true.mp ht d hmem
    rw [hspace, decide_eq_false hne] at hd
    cases hd
  have hmargin : ∀ n, d ∉ List.replicate n ' ' := fun n hmem => hne (List.eq_of_mem_replicate hmem)
  have hvisible : ∀ t : Text, (∀ e ∈ t, isWhitespace e = false) → d ∉ t := by
    intro t ht hmem
    rw [ht d hmem] at hspace
    cases hspace
  obtain ⟨hfields, hlines⟩ := List.forall_mem_append.mp hparts
  obtain ⟨htexts, halt⟩ := List.forall_mem_append.mp hfields
  obtain ⟨hlines, htail⟩ := List.forall_mem_append.mp hlines
  obtain ⟨hhead, hkey⟩ := List.forall_mem_append.mp hlines
  obtain ⟨hfingerprint, halgorithm⟩ := List.forall_mem_cons.mp htexts
  have hsize : ∀ n, d ∉ Certificate.sizeLine n := by
    intro n
    simp only [Certificate.sizeLine, List.mem_append, not_or]
    exact ⟨hmargin 16, hlabel _ (by decide), hvisible _ (fun _ hc => toDigits_noSpace hc),
      hlabel _ (by decide)⟩
  have haltLines : ∀ l ∈ c.altLines, d ∉ l := by
    unfold Certificate.altLines
    split
    · exact List.forall_mem_nil _
    · next alt heq =>
      refine List.forall_mem_cons.mpr ⟨?_, List.forall_mem_singleton.mpr ?_⟩
      · unfold Certificate.headingLine
        rw [List.mem_append, not_or]
        exact ⟨hmargin 12, by split <;> exact hlabel _ (by decide)⟩
      · rw [List.mem_append, not_or]
        exact ⟨hmargin 16, halt alt (by simp [heq])⟩
  unfold Certificate.lines
  simp only [List.forall_mem_append, List.forall_mem_cons]
  refine ⟨⟨⟨⟨⟨⟨⟨?first, ?serial, List.forall_mem_nil _⟩, hhead⟩, ?algorithm, List.forall_mem_nil _⟩,
    ?bits⟩, hkey⟩, haltLines⟩, htail⟩
  case first =>
    unfold Certificate.fingerprintLine
    rw [List.mem_append, not_or]
    exact ⟨by split <;> exact hlabel _ (by decide), hfingerprint⟩
  case serial =>
    unfold Certificate.serialLine
    rw [List.mem_append, not_or]
    exact ⟨hlabel _ (by decide), hvisible _ (serial_visible c)⟩
  case algorithm =>
    simp only [Certificate.algorithmLine, List.mem_append, not_or]
    exact ⟨hmargin 12, hlabel _ (by decide), halgorithm _ (List.mem_singleton_self _)⟩
  case bits =>
    intro l hl
    obtain ⟨n, -, rfl⟩ := List.mem_map.mp hl
    exact hsize n

theorem Certificate.lines_plain : ∀ l ∈ c.lines, '\n' ∉ l ∧ '\r' ∉ l := fun l hl =>
  ⟨c.notMem_lines rfl (by decide) (fun t ht => (c.one_line t ht).1) l hl,
    c.notMem_lines rfl (by decide) (fun t ht => (c.one_line t ht).2) l hl⟩

theorem Certificate.lines_text : Foundation.lines c.text = c.lines := by
  have hplain := c.lines_plain
  rw [Certificate.text, lines_flatMap_endLf (fun l hl => (hplain l hl).1)]
  calc c.lines.map stripCr
      = c.lines.map id := List.map_congr_left (fun l hl => stripCr_of_notMem (hplain l hl).2)
    _ = c.lines := List.map_id c.lines

theorem readCertificate_text (table : CaseTable) (tls : TlsInfo) :
    readCertificate table tls c.text = c.added tls := by
  obtain ⟨hlines, htail⟩ := List.forall_mem_append.mp c.plain
  obtain ⟨hhead, hkey⟩ := List.forall_mem_append.mp hlines
  have hsize : ∀ r : CertReading,
      (c.bits.toList.map Certificate.sizeLine).foldl (CertReading.readLine table) r =
        { r with tls := { r.tls with keyBits := c.bits.or r.tls.keyBits } } := by
    intro r
    cases hbits : c.bits with
    | none => rfl
    | some n => exact readLine_size (c.bits_fit n hbits)
  rw [readCertificate, c.lines_text, Certificate.lines]
  simp only [List.foldl_append, List.foldl_cons, List.foldl_nil]
  rw [readLine_fingerprint, readLine_serial, foldl_plain hhead rfl, readLine_algorithm, hsize,
    foldl_plain hkey rfl, foldl_altLines c rfl, foldl_plain htail rfl]
  rfl

/-- The pairs of the serial number can be told apart, and are its digits. -/
theorem splitOn_serial : ([':'].intercalate (chunkPairs (c.serial.map Char.toUpper))).splitOn ':' =
    chunkPairs (c.serial.map Char.toUpper) := by
  obtain ⟨hne, hhex⟩ := c.serial_hex
  refine List.splitOn_intercalate ':' (fun p hp hcolon => ?_)
    (chunkPairs_ne_nil (List.map_eq_nil_iff.not.mpr hne))
  obtain ⟨d, hd, hupper⟩ := List.mem_map.mp (mem_of_mem_chunkPairs hp hcolon)
  exact (hexDigit_plain (hhex d hd)).2.2 hupper

/-- The fingerprint, the serial number, the key and the names are reported, whatever else is
printed around them. The pairs of the serial number give back its digits, two in each where their
number is even. -/
theorem certificate_reported (table : CaseTable) (tls : TlsInfo) (c : Certificate) :
    readCertificate table tls c.text = c.added tls ∧
    ∃ shown, (c.added tls).serialNumber = some shown ∧
      (shown.splitOn ':').flatten = c.serial.map Char.toUpper ∧
      (2 ∣ c.serial.length → ∀ p ∈ shown.splitOn ':', p.length = 2) := by
  refine ⟨readCertificate_text c table tls, _, rfl, ?_, fun heven => ?_⟩
  · rw [splitOn_serial, flatten_chunkPairs]
  · rw [splitOn_serial]
    exact length_of_mem_chunkPairs _ (by rwa [List.length_map])

end Whole

/-- The certificate of a server with an elliptic key and two names, the start of its dates and
of its key among the lines that are not read. -/
def namedCertificate : Certificate where
  capitals := false
  fingerprint := "0A:1B:2C".toList
  serial := "04f3a1".toList
  algorithm := .ec
  bits := some 256
  critical := false
  alt := some "DNS:a.io, DNS:b.io".toList
  head := ["    Not Before: Oct  1 00:00:00 2024 GMT".toList]
  keyLines := ["    pub:".toList, "        04:d2:7c".toList]
  tail := []
  fingerprint_text := by decide
  serial_hex := ⟨by decide, List.all_eq_true.mp (by decide)⟩
  algorithm_named := trivial
  bits_fit := by decide
  alt_text := fun t ht => by
    obtain rfl := Option.some.inj ht
    decide
  plain := by decide
  one_line := by decide

/-- The certificate of a connection that curl told about. -/
theorem namedCertificate_reported :
    readCertificate .ascii (echoedHandshake.info 0) namedCertificate.text =
      namedCertificate.added (echoedHandshake.info 0) :=
  (certificate_reported .ascii (echoedHandshake.info 0) namedCertificate).1

end GlobalpingProbe.Command.Http
