import GlobalpingProbe.Command.Dns.RoundTrip
import GlobalpingProbe.Command.Dns.Trace
import GlobalpingProbe.Command.Future
import GlobalpingProbe.Foundation.Lines

/-! # Transcripts of traced queries

dig prints the records that each server answered with, behind comments on what went wrong and in
front of where they came from. The command reads its output line by line, and finds all hops and
all records in it again, up to the white space inside the data of a record.
-/
namespace GlobalpingProbe.Command.Dns
open Foundation Regex

/-- What dig puts between two columns. -/
abbrev Gap := {s : Text // s ≠ [] ∧ ∀ c ∈ s, c = ' ' ∨ c = '\t'}

/-- A record in columns. -/
structure ColumnRecord where
  answer : DnsAnswer
  beforeTtl : Gap
  beforeClass : Gap
  beforeType : Gap
  beforeValue : Gap
  printable : Printable answer
  name_ne : answer.name ≠ []
  class_ne : answer.recordClass ≠ []
  type_ne : answer.recordType ≠ []

def ColumnRecord.line (r : ColumnRecord) : Text :=
  r.answer.name ++ (r.beforeTtl.val ++ (Nat.toDigits 10 r.answer.ttl ++ (r.beforeClass.val ++
    (r.answer.recordClass ++ (r.beforeType.val ++ (r.answer.recordType ++
      (r.beforeValue.val ++ r.answer.value)))))))

/-- A text that can stand in front of a parenthesis or inside a pair of them. -/
abbrev Word := {s : Text // s ≠ [] ∧ ∀ c ∈ s, isWhitespace c = false ∧ c ≠ '(' ∧ c ≠ ')'}

/-- A comment that says nothing of where an answer came from. -/
abbrev Warning :=
  {s : Text // ";;".toList <+: s ∧ '\n' ∉ s ∧ '\r' ∉ s ∧ ¬ "from".toList <:+: s}

/-- The records of one server, with its address and name and the milliseconds it took. -/
structure PrintedHop where
  warnings : List Warning
  records : List ColumnRecord
  bytes : ℕ
  server : Word
  name : Word
  time : ℕ
  time_lt : time < 2 ^ 32

namespace PrintedHop

def bytesText (h : PrintedHop) : Text :=
  ";; Received ".toList ++ (Nat.toDigits 10 h.bytes ++ " bytes ".toList)

def serverText (h : PrintedHop) : Text :=
  "from".toList ++ (' ' :: (h.server.val ++ '(' :: (h.name.val ++ ')' :: ' ' ::
    ("in".toList ++ (' ' :: (Nat.toDigits 10 h.time ++ ' ' :: "ms".toList))))))

def receivedLine (h : PrintedHop) : Text := h.bytesText ++ h.serverText

def lines (h : PrintedHop) : List Text :=
  h.warnings.map Subtype.val ++ h.records.map ColumnRecord.line ++ [h.receivedLine]

end PrintedHop

/-- The arguments of dig as it repeats them, and the hops. -/
structure TraceTranscript where
  banner : Text
  hops : List PrintedHop
  banner_line : '\n' ∉ banner ∧ '\r' ∉ banner

namespace TraceTranscript

def bannerLine (t : TraceTranscript) : Text := "; <<>> DiG ".toList ++ t.banner

def optionsLine : Text := ";; global options: +cmd".toList

def lines (t : TraceTranscript) : List Text :=
  [[], t.bannerLine, optionsLine] ++ t.hops.flatMap (fun h => h.lines ++ [[]])

def text (t : TraceTranscript) : Text := t.lines.flatMap endLf

end TraceTranscript

/-- What the child has printed, as the command puts it together again. -/
def readStdout (stdout : Text) : Text :=
  (Foundation.lines stdout).foldl (fun raw line => (readLine raw line).1) []

theorem readStdout_eq (stdout : Text) :
    readStdout stdout = (Foundation.lines stdout).flatMap endLf := by
  have hfold : ∀ (ls : List Text) (raw : Text),
      ls.foldl (fun raw line => (readLine raw line).1) raw = raw ++ ls.flatMap endLf := by
    intro ls
    induction ls with
    | nil => simp
    | cons l ls ih =>
      intro raw
      rw [List.foldl_cons, ih]
      simp only [readLine, endLf, List.flatMap_cons, List.append_assoc]
  exact (hfold _ []).trans (List.nil_append _)

/-! ## The line of a record -/

/-- One space for each white space between words. -/
def squeeze (s : Text) : Text := [' '].intercalate (splitWhitespace s)

def ColumnRecord.shown (r : ColumnRecord) : DnsAnswer :=
  { r.answer with value := squeeze r.answer.value }

theorem splitWhitespace_skip {gap : Text} (h : ∀ c ∈ gap, isWhitespace c = true) (s : Text) :
    splitWhitespace (gap ++ s) = splitWhitespace s := by
  induction gap with
  | nil => rfl
  | cons c gap ih =>
    have hhere := splitWhitespace_append_cons (h c List.mem_cons_self) [] (gap ++ s)
    have hnil : splitWhitespace [] = [] := rfl
    rw [hnil, List.nil_append, List.nil_append] at hhere
    rw [List.cons_append, hhere]
    exact ih (fun d hd => h d (List.mem_cons_of_mem c hd))

theorem splitWhitespace_column {w : Text} (hne : w ≠ []) (hw : ∀ c ∈ w, isWhitespace c = false)
    (gap : Gap) (s : Text) : splitWhitespace (w ++ (gap.val ++ s)) = w :: splitWhitespace s := by
  obtain ⟨gap, hgap, hall⟩ := gap
  have hwhite : ∀ c ∈ gap, isWhitespace c = true := by
    intro c hc
    rcases hall c hc with rfl | rfl
    · decide
    · decide
  obtain ⟨c, gap, rfl⟩ := List.exists_cons_of_ne_nil hgap
  rw [List.cons_append, splitWhitespace_word_cons hne hw (hwhite c List.mem_cons_self),
    splitWhitespace_skip (fun d hd => hwhite d (List.mem_cons_of_mem c hd))]

/-- A text that starts with a visible character has a word. -/
theorem splitWhitespace_ne_nil {s : Text} (hne : s ≠ []) (htrim : trim s = s) :
    splitWhitespace s ≠ [] := by
  obtain ⟨c, s, rfl⟩ := List.exists_cons_of_ne_nil hne
  have hc := head_of_trimmed htrim
  intro he
  have hflat := flatten_splitWhitespace (c :: s)
  rw [he, List.flatten_nil, List.filter_cons_of_pos (by simp [hc])] at hflat
  cases hflat

theorem parseAnswerLine_line (r : ColumnRecord) : parseAnswerLine r.line = some r.shown := by
  have hp := r.printable
  have hwords : splitWhitespace r.line = r.shown.name :: Nat.toDigits 10 r.answer.ttl ::
      r.shown.recordClass :: r.shown.recordType :: splitWhitespace r.answer.value := by
    rw [ColumnRecord.line, splitWhitespace_column r.name_ne hp.name,
      splitWhitespace_column Nat.toDigits_ne_nil (fun c hc => toDigits_noSpace hc),
      splitWhitespace_column r.class_ne hp.recordClass,
      splitWhitespace_column r.type_ne hp.recordType]
    rfl
  exact parseAnswerLine_of_words hwords (parseUnsigned_toDigits hp.ttl)
    (splitWhitespace_ne_nil hp.value_ne hp.trimmed) rfl

theorem isComment_line (r : ColumnRecord) : isComment r.line = false := by
  obtain ⟨c, name, hname⟩ := List.exists_cons_of_ne_nil r.name_ne
  have hc : c ≠ ';' := by
    rintro rfl
    exact r.printable.noComment (by rw [hname]; rfl)
  rw [ColumnRecord.line, hname]
  simp [isComment, List.isPrefixOf, hc.symm]

theorem line_ne_nil (r : ColumnRecord) : r.line.isEmpty = false := by
  obtain ⟨c, name, hname⟩ := List.exists_cons_of_ne_nil r.name_ne
  rw [ColumnRecord.line, hname]
  rfl

/-! ## The line behind the records -/

section Received
variable {classes : UnicodeClasses} {s w : Text}

theorem head?_exec_blank (hs : ∀ c ∈ s.head?, isWhitespace c = false) :
    ((plus true (chr isWhitespace)).exec (' ' :: s)).head? = some ⟨[' '], [], s⟩ := by
  have hspace : ((chr isWhitespace).exec (' ' :: s)).head? = some ⟨[' '], [], s⟩ := rfl
  have hrest : ((star true (chr isWhitespace)).exec s).head? = some (.stop s) := by
    rw [head?_exec_greedy]
    cases s with
    | nil => rfl
    | cons c s =>
      have hc : ¬ isWhitespace c = true := by simp [hs c rfl]
      rw [List.takeWhile_cons_of_neg hc, List.dropWhile_cons_of_neg hc]
      rfl
  exact head?_exec_seq_first hspace hrest

theorem captures_blank {q : Regex Char} {caps : List (ℕ × Text)}
    (hs : ∀ c ∈ s.head?, isWhitespace c = false) (hq : Captures q s caps) :
    Captures (Regex.seq (plus true (chr isWhitespace)) q) (' ' :: s) caps :=
  captures_first (head?_exec_blank hs) hq

/-- The address ends where the only opening parenthesis in front of a space stands. -/
theorem server_unique {q : Regex Char} (server name : Word) :
    ∀ v u, v ++ u = server.val ++ '(' :: (name.val ++ ')' :: ' ' :: s) →
      v ∈ (plus true (chr (!isWhitespace ·))).lang →
      (Regex.seq (chr (· = '(')) q).exec u ≠ [] → u = '(' :: (name.val ++ ')' :: ' ' :: s) := by
  intro v u heq hv hu
  obtain ⟨c, u, rfl, hc, -⟩ := of_exec_chr_ne_nil hu
  obtain rfl : c = '(' := of_decide_eq_true hc
  have hspace : ' ' ∉ v := by
    intro hmem
    exact absurd ((of_mem_lang_plus_chr hv).2 ' ' hmem) (by decide)
  rcases List.append_eq_append_iff.mp heq with ⟨x, hx, htail⟩ | ⟨x, rfl, htail⟩
  · cases x with
    | nil => exact htail
    | cons d x =>
      obtain ⟨rfl, -⟩ := List.cons.inj htail
      have hmem : '(' ∈ server.val := by simp [hx]
      exact absurd rfl (server.property.2 _ hmem).2.1
  · cases x with
    | nil => exact htail.symm
    | cons d x =>
      -- A longer text would have to reach past the space for another parenthesis.
      obtain ⟨rfl, hbehind⟩ := List.cons.inj htail
      have hfront : name.val ++ [')'] ++ ' ' :: s = x ++ '(' :: u := by
        rw [List.append_assoc]
        exact hbehind
      have hparen : '(' ∉ name.val ++ [')'] := by
        simp only [List.mem_append, List.mem_singleton, not_or]
        exact ⟨fun h => (name.property.2 _ h).2.1 rfl, by decide⟩
      rcases List.append_eq_append_iff.mp hfront with ⟨y, rfl, hy⟩ | ⟨y, hy, htail⟩
      · cases y with
        | nil => cases hy
        | cons e y =>
          obtain ⟨rfl, -⟩ := List.cons.inj hy
          exact absurd (by simp) hspace
      · cases y with
        | nil => cases htail
        | cons e y =>
          obtain ⟨rfl, -⟩ := List.cons.inj htail
          exact absurd (by rw [hy]; simp) hparen

theorem head_visible (hw : ∀ c ∈ w, isWhitespace c = false) (hne : w ≠ []) :
    ∀ c ∈ (w ++ s).head?, isWhitespace c = false := by
  intro c hc
  rw [List.head?_append_of_ne_nil _ hne] at hc
  exact hw c (List.mem_of_head? hc)

/-- Where the expression matches it finds the name and the time. -/
theorem captures_serverText (classes : UnicodeClasses) (h : PrintedHop) :
    Captures (traceReceivedRe classes) h.serverText
      [(1, h.name.val), (2, Nat.toDigits 10 h.time)] := by
  have hserver : h.server.val ∈ (plus true (chr (!isWhitespace ·))).lang :=
    mem_lang_plus_chr h.server.property.1 (fun c hc => by simp [(h.server.property.2 c hc).1])
  have hdigit : ∀ c ∈ Nat.toDigits 10 h.time, classes.digit c = true := fun c hc =>
    classes.digit_of_isDigit (Nat.isDigit_of_mem_toDigits (by decide) (by decide) hc)
  have hms : ∀ c ∈ "ms".toList.head?, isWhitespace c = false := by
    rintro c ⟨⟩
    rfl
  have hin : ∀ c ∈ ("in".toList ++ (' ' :: (Nat.toDigits 10 h.time ++ ' ' :: "ms".toList))).head?,
      isWhitespace c = false := by
    rintro c ⟨⟩
    rfl
  refine captures_lit (captures_blank
    (head_visible (fun c hc => (h.server.property.2 c hc).1) h.server.property.1) ?_)
  refine captures_plain ⟨trivial, trivial⟩ hserver (server_unique h.server h.name) ?_
  refine captures_chr (by rfl) ?_
  refine captures_group (head?_exec_run_plus h.name.property.1
    (fun c hc => by simp [(h.name.property.2 c hc).2.2]) (by rfl)) rfl ?_
  refine captures_chr (by rfl) (captures_blank hin (captures_lit ?_))
  refine captures_blank
    (head_visible (fun c hc => toDigits_noSpace hc) Nat.toDigits_ne_nil) ?_
  refine captures_group (head?_exec_run_plus Nat.toDigits_ne_nil hdigit
    (classes.digit_eq_false (by decide) (by decide))) rfl ?_
  refine captures_blank hms ?_
  have hlast := captures_lit (w := "ms".toList) (captures_empty [])
  rwa [List.append_nil] at hlast

/-- No match starts in a text without the first letter of the expression. -/
theorem skips_no_from (hw : 'f' ∉ w) (s : Text) : (traceReceivedRe classes).Skips w s := by
  induction w with
  | nil => trivial
  | cons c w ih =>
    obtain ⟨hc, hw⟩ := not_or.mp (List.mem_cons.not.mp hw)
    refine ⟨?_, ih hw⟩
    by_contra hne
    obtain ⟨u, hu, -⟩ := of_exec_lit_ne_nil hne
    exact hc (List.cons.inj hu).1.symm

theorem captures_receivedLine (classes : UnicodeClasses) (h : PrintedHop) :
    ∃ m, (traceReceivedRe classes).captures h.receivedLine = some m ∧
      m.caps = [(1, h.name.val), (2, Nat.toDigits 10 h.time)] := by
  obtain ⟨m, hm, hcaps⟩ := captures_serverText classes h
  have hfront : 'f' ∉ h.bytesText := by
    intro hmem
    rcases List.mem_append.mp hmem with hmem | hmem
    · exact absurd hmem (by decide)
    · rcases List.mem_append.mp hmem with hmem | hmem
      · exact absurd (isDigitOf_toDigits hmem) (by decide)
      · exact absurd hmem (by decide)
  have hskip : (traceReceivedRe classes).Skips h.bytesText h.serverText := skips_no_from hfront _
  have hfind : (traceReceivedRe classes).find h.receivedLine =
      some (h.bytesText ++ [], m) := by
    have hhere := find_of_skips hskip
    have hthere := find_of_head? hm
    rw [hthere] at hhere
    exact hhere
  refine ⟨m, ?_, hcaps⟩
  rw [captures, hfind, Option.map_some]

theorem receivedOf_receivedLine (classes : UnicodeClasses) (h : PrintedHop) :
    receivedOf classes h.receivedLine = some (h.name.val, h.time) := by
  obtain ⟨m, hm, hcaps⟩ := captures_receivedLine classes h
  have hone : m.group 1 = h.name.val := by simp [Match.group, Match.get, hcaps, List.lookup_cons]
  have htwo : m.group 2 = Nat.toDigits 10 h.time := by simp [Match.group, Match.get, hcaps]
  have hcomment : isComment h.receivedLine = true := rfl
  rw [receivedOf, hcomment, if_pos rfl, hm, Option.map_some, hone, htwo,
    parseUnsigned_toDigits h.time_lt, Option.getD_some]

end Received

/-! ## The ends of the lines -/

/-- A line that is found again when it has been ended. -/
def EndsPlain (l : Text) : Prop := '\n' ∉ l ∧ l.getLast? ≠ some '\r'

theorem endsPlain_of_notMem {l : Text} (hlf : '\n' ∉ l) (hcr : '\r' ∉ l) : EndsPlain l :=
  ⟨hlf, fun h => hcr (List.mem_of_getLast? h)⟩

theorem notMem_of_visible {w : Text} {c : Char} (hw : ∀ d ∈ w, isWhitespace d = false)
    (hc : isWhitespace c = true) : c ∉ w := by
  intro hmem
  rw [hw c hmem] at hc
  cases hc

theorem endsPlain_line (r : ColumnRecord) : EndsPlain r.line := by
  have hp := r.printable
  have hgap : ∀ g : Gap, '\n' ∉ g.val := by
    intro g hmem
    rcases g.property.2 _ hmem with h | h
    · exact absurd h (by decide)
    · exact absurd h (by decide)
  have hlf : isWhitespace '\n' = true := by decide
  refine ⟨?_, ?_⟩
  · simp only [ColumnRecord.line, List.mem_append, not_or]
    exact ⟨notMem_of_visible hp.name hlf, hgap _,
      notMem_of_visible (fun c hc => toDigits_noSpace hc) hlf, hgap _,
      notMem_of_visible hp.recordClass hlf, hgap _, notMem_of_visible hp.recordType hlf, hgap _,
      hp.singleLine⟩
  · simp only [ColumnRecord.line, ← List.append_assoc]
    rw [List.getLast?_append_of_ne_nil _ hp.value_ne]
    intro hlast
    obtain ⟨value, hvalue⟩ := List.getLast?_eq_some_iff.mp hlast
    have hcr : isWhitespace '\r' = false := last_of_trimmed (hvalue ▸ hp.trimmed)
    exact absurd hcr (by decide)

/-- A space is the only white space in the line. -/
theorem all_receivedLine (h : PrintedHop) :
    h.receivedLine.all (fun c => !isWhitespace c || c = ' ') = true := by
  have hvisible : ∀ w : Text, (∀ c ∈ w, isWhitespace c = false) →
      w.all (fun c => !isWhitespace c || c = ' ') = true := by
    intro w hw
    exact List.all_eq_true.mpr (fun c hc => by simp [hw c hc])
  have hword : ∀ w : Word, w.val.all (fun c => !isWhitespace c || c = ' ') = true :=
    fun w => hvisible w.val (fun c hc => (w.property.2 c hc).1)
  have hdigits : ∀ n : ℕ, (Nat.toDigits 10 n).all (fun c => !isWhitespace c || c = ' ') = true :=
    fun n => hvisible _ (fun c hc => toDigits_noSpace hc)
  have hbytes : h.bytesText.all (fun c => !isWhitespace c || c = ' ') = true := by
    unfold PrintedHop.bytesText
    rw [List.all_append, List.all_append, hdigits]
    decide
  have hserver : h.serverText.all (fun c => !isWhitespace c || c = ' ') = true := by
    unfold PrintedHop.serverText
    rw [List.all_append, List.all_cons, List.all_append, hword, List.all_cons, List.all_append,
      hword, List.all_cons, List.all_cons, List.all_append, List.all_cons, List.all_append, hdigits]
    decide
  rw [PrintedHop.receivedLine, List.all_append, hbytes, hserver]
  rfl

theorem endsPlain_receivedLine (h : PrintedHop) : EndsPlain h.receivedLine := by
  have hnone : ∀ c, isWhitespace c = true → c ≠ ' ' → c ∉ h.receivedLine := by
    intro c hc hne hmem
    have hall := List.all_eq_true.mp (all_receivedLine h) c hmem
    simp [hc, hne] at hall
  exact endsPlain_of_notMem (hnone _ (by decide) (by decide)) (hnone _ (by decide) (by decide))

/-! ## The hops of a transcript -/

/-- The hop that a server's lines are read as. -/
def PrintedHop.hop (h : PrintedHop) : TraceHop :=
  ⟨h.records.map ColumnRecord.shown, ⟨h.time⟩, some h.name.val⟩

section Hops
variable {classes : UnicodeClasses}

theorem isComment_warning (w : Warning) : isComment w.val = true :=
  List.isPrefixOf_iff_prefix.mpr w.property.1

/-- Without the first word of the expression nothing is captured. -/
theorem receivedOf_warning (w : Warning) : receivedOf classes w.val = none := by
  have hfind : (traceReceivedRe classes).find w.val = none := by
    cases hfind : (traceReceivedRe classes).find w.val with
    | none => rfl
    | some found =>
      obtain ⟨before, m⟩ := found
      obtain ⟨hsplit, hlang⟩ := find_sound hfind
      obtain ⟨u, hu, v, -, htext⟩ := mem_lang_concat_cons.mp hlang
      rw [eq_of_mem_lang_lit hu] at htext
      refine absurd ⟨before, v ++ m.rest, ?_⟩ w.property.2.2.2
      rw [← hsplit, ← htext]
      simp
  rw [receivedOf, isComment_warning, if_pos rfl, captures, hfind]
  rfl

theorem hopOf_lines (h : PrintedHop) : hopOf classes h.lines = h.hop := by
  have hrecords : answersOf (h.records.map ColumnRecord.line) =
      h.records.map ColumnRecord.shown := by
    induction h.records with
    | nil => rfl
    | cons r records ih =>
      unfold answersOf at ih ⊢
      rw [List.map_cons, List.filter_cons_of_pos (by simp [isComment_line]),
        List.filterMap_cons_some (parseAnswerLine_line r), ih, List.map_cons]
  have hwarnings : (h.warnings.map Subtype.val).filter (!isComment ·) = [] := by
    rw [List.filter_eq_nil_iff]
    intro l hl
    obtain ⟨w, -, rfl⟩ := List.mem_map.mp hl
    simp [isComment_warning]
  have hanswers : answersOf (h.warnings.map Subtype.val ++ h.records.map ColumnRecord.line) =
      h.records.map ColumnRecord.shown := by
    rw [answersOf, List.filter_append, hwarnings, List.nil_append]
    exact hrecords
  have hreceived : (h.warnings.map Subtype.val ++ h.records.map ColumnRecord.line).filterMap
      (receivedOf classes) = [] := by
    rw [List.filterMap_eq_nil_iff]
    intro l hl
    rcases List.mem_append.mp hl with hl | hl
    · obtain ⟨w, -, rfl⟩ := List.mem_map.mp hl
      exact receivedOf_warning w
    · obtain ⟨r, -, rfl⟩ := List.mem_map.mp hl
      rw [receivedOf, isComment_line, if_neg Bool.false_ne_true]
  have hcomment : isComment h.receivedLine = true := rfl
  unfold hopOf PrintedHop.lines
  rw [answersOf_append, hanswers, hcomment, if_pos rfl, List.append_nil, List.filterMap_append,
    hreceived, List.nil_append, List.filterMap_cons_some (receivedOf_receivedLine classes h)]
  rfl

/-- Lines that are not empty become part of the block one by one. -/
theorem foldl_block {ls : List Text} (h : ∀ l ∈ ls, l.isEmpty = false) (hops : List TraceHop)
    (block : List Text) : ls.foldl (TraceReading.readLine classes) (readingOf classes hops block) =
      readingOf classes hops (block ++ ls) := by
  induction ls generalizing block with
  | nil => simp
  | cons l ls ih =>
    rw [List.foldl_cons, readLine_readingOf (h l List.mem_cons_self),
      ih (fun m hm => h m (List.mem_cons_of_mem l hm)), List.append_assoc]
    rfl

/-- Nothing but the resolver line is needed for a hop to be kept. -/
theorem foldl_hop (h : PrintedHop) (hops : List TraceHop) :
    (h.lines ++ [[]]).foldl (TraceReading.readLine classes) (readingOf classes hops []) =
      readingOf classes (hops ++ [h.hop]) [] := by
  have hlines : ∀ l ∈ h.lines, l.isEmpty = false := by
    intro l hl
    simp only [PrintedHop.lines, List.mem_append, List.mem_map, List.mem_singleton] at hl
    rcases hl with (⟨w, -, rfl⟩ | ⟨r, -, rfl⟩) | rfl
    · obtain ⟨t, ht⟩ := w.property.1
      rw [← ht]
      rfl
    · exact line_ne_nil r
    · rfl
  have hkept : h.hop.isKept = true := by simp [TraceHop.isKept, PrintedHop.hop]
  have hempty : ∀ reading : TraceReading, reading.readLine classes [] = reading.pushHop :=
    fun _ => rfl
  rw [List.foldl_concat, foldl_block hlines, List.nil_append, hempty, pushHop_readingOf,
    hopOf_lines, List.filter_cons_of_pos hkept, List.filter_nil]

theorem foldl_hops (printed : List PrintedHop) (hops : List TraceHop) :
    (printed.flatMap (fun h => h.lines ++ [[]])).foldl (TraceReading.readLine classes)
      (readingOf classes hops []) = readingOf classes (hops ++ printed.map PrintedHop.hop) [] := by
  induction printed generalizing hops with
  | nil => simp
  | cons h printed ih =>
    rw [List.flatMap_cons, List.foldl_append, foldl_hop, ih, List.map_cons, List.append_assoc]
    rfl

end Hops

namespace TraceTranscript
variable {classes : UnicodeClasses}

/-- The second word of the banner is no time to live. -/
theorem parseAnswerLine_bannerLine (t : TraceTranscript) : parseAnswerLine t.bannerLine = none := by
  have hwords : splitWhitespace t.bannerLine =
      ";".toList :: "<<>>".toList :: splitWhitespace ("DiG ".toList ++ t.banner) := by
    have hfirst := splitWhitespace_word_cons (w := ";".toList) (c := ' ') (by decide)
      (visible_of_all (by decide)) (by decide) ("<<>> DiG ".toList ++ t.banner)
    have hsecond := splitWhitespace_word_cons (w := "<<>>".toList) (c := ' ') (by decide)
      (visible_of_all (by decide)) (by decide) ("DiG ".toList ++ t.banner)
    exact hfirst.trans (congrArg _ hsecond)
  have hnumber : parseUnsigned 32 "<<>>".toList = none := by decide
  unfold parseAnswerLine
  rw [hwords]
  split
  · next heq =>
    simp only [List.cons.injEq] at heq
    rw [← heq.2.1, hnumber, Option.map_none]
  · rfl

/-- Nothing is read before the first hop. -/
theorem foldl_intro (t : TraceTranscript) :
    [[], t.bannerLine, optionsLine].foldl (TraceReading.readLine classes)
      (readingOf classes [] []) = readingOf classes [] [] := by
  have hbanner : (readingOf classes [] []).readLine classes t.bannerLine =
      readingOf classes [] [] := by
    have hcomment : isComment t.bannerLine = false := rfl
    have hne : t.bannerLine.isEmpty = false := rfl
    unfold TraceReading.readLine
    rw [hne, if_neg Bool.false_ne_true, hcomment, if_neg Bool.false_ne_true,
      parseAnswerLine_bannerLine]
  have hcaps : (traceReceivedRe classes).captures optionsLine = none := by
    have hskip : (traceReceivedRe classes).Skips optionsLine [] := skips_no_from (by decide) []
    have hnil : (traceReceivedRe classes).exec [] = [] := by
      by_contra hne
      obtain ⟨u, hu, -⟩ := of_exec_lit_ne_nil hne
      cases hu
    have hfind := find_eq_none hskip hnil
    rw [captures, hfind, Option.map_none]
  have hoptions : (readingOf classes [] []).readLine classes optionsLine =
      readingOf classes [] [] := by
    have hcomment : isComment optionsLine = true := rfl
    have hne : optionsLine.isEmpty = false := rfl
    unfold TraceReading.readLine
    rw [hne, if_neg Bool.false_ne_true, hcomment, if_pos rfl, hcaps]
  rw [List.foldl_cons, List.foldl_cons, List.foldl_cons, List.foldl_nil]
  have hblank : (readingOf classes [] []).readLine classes [] = readingOf classes [] [] := rfl
  rw [hblank, hbanner, hoptions]

/-- Every line is found again as it was printed. -/
theorem endsPlain_lines (t : TraceTranscript) : ∀ l ∈ t.lines, EndsPlain l := by
  intro l hl
  simp only [lines, List.mem_append, List.mem_cons, List.not_mem_nil, or_false,
    List.mem_flatMap] at hl
  rcases hl with (rfl | rfl | rfl) | ⟨h, -, hl | rfl⟩
  · exact endsPlain_of_notMem List.not_mem_nil List.not_mem_nil
  · refine endsPlain_of_notMem ?_ ?_
    · exact fun hmem => (List.mem_append.mp hmem).elim (by decide) t.banner_line.1
    · exact fun hmem => (List.mem_append.mp hmem).elim (by decide) t.banner_line.2
  · exact endsPlain_of_notMem (by decide) (by decide)
  · simp only [PrintedHop.lines, List.mem_append, List.mem_map, List.mem_singleton] at hl
    rcases hl with (⟨w, -, rfl⟩ | ⟨r, -, rfl⟩) | rfl
    · exact endsPlain_of_notMem w.property.2.1 w.property.2.2.1
    · exact endsPlain_line r
    · exact endsPlain_receivedLine h
  · exact endsPlain_of_notMem List.not_mem_nil List.not_mem_nil

theorem readStdout_text (t : TraceTranscript) : readStdout t.text = t.text := by
  have hlines := endsPlain_lines t
  have hstrip : t.lines.map stripCr = t.lines :=
    List.map_congr_left (fun l hl => if_neg (hlines l hl).2) |>.trans (List.map_id _)
  rw [readStdout_eq, text, lines_flatMap_endLf (fun l hl => (hlines l hl).1), hstrip]

/-- What dig prints is what the command hands on, and each server's lines are read as one hop with
all its records, its name and its time. -/
theorem parseTrace_readStdout (classes : UnicodeClasses) (t : TraceTranscript) :
    readStdout t.text = t.text ∧
    parseTrace classes (readStdout t.text) =
      ⟨.finished, t.hops.map PrintedHop.hop, t.text⟩ := by
  refine ⟨readStdout_text t, ?_⟩
  have hsplit : t.text.splitOn '\n' = t.lines ++ [[]] :=
    splitOn_flatMap_endLf (fun l hl => (endsPlain_lines t l hl).1)
  have hfail : ((t.lines ++ [[]]).length < 3 ||
      ((t.lines ++ [[]]).head?.map (";; Got bad packet:".toList.isPrefixOf ·)).getD false) =
        false := by
    have hlen : ¬ (t.lines ++ [[]]).length < 3 := by simp [lines]
    rw [decide_eq_false hlen]
    rfl
  have hpass : (t.lines ++ [[]]).foldl (TraceReading.readLine classes) (readingOf classes [] []) =
      readingOf classes (t.hops.map PrintedHop.hop) [] := by
    rw [List.foldl_concat, lines, List.foldl_append, foldl_intro, foldl_hops, List.nil_append]
    rfl
  have hhops : parseTraceHops classes (t.lines ++ [[]]) = t.hops.map PrintedHop.hop := by
    unfold parseTraceHops
    exact congrArg (fun reading => reading.pushHop.hops) hpass
  rw [readStdout_text, parseTrace, hsplit, hhops]
  exact if_neg (by rw [hfail]; exact Bool.false_ne_true)

end TraceTranscript

def tabGap : Gap := ⟨['\t'], List.cons_ne_nil _ _, List.forall_mem_singleton.mpr (.inr rfl)⟩

def blankGap : Gap := ⟨[' '], List.cons_ne_nil _ _, List.forall_mem_singleton.mpr (.inl rfl)⟩

/-- A word that is checked as a whole. -/
def plainWord (s : Text)
    (h : (!s.isEmpty && s.all (fun c => !isWhitespace c && c ≠ '(' && c ≠ ')')) = true) : Word :=
  ⟨s, by
    rw [Bool.and_eq_true, Bool.not_eq_true', List.isEmpty_eq_false_iff, List.all_eq_true] at h
    exact ⟨h.1, fun c hc => by simpa [and_assoc] using h.2 c hc⟩⟩

/-- A record with tabs between its columns and two blanks in its data. -/
def spacedRecord : ColumnRecord where
  answer := ⟨"a.io.".toList, "TXT".toList, 300, "IN".toList, "\"x  y\"".toList⟩
  beforeTtl := tabGap
  beforeClass := tabGap
  beforeType := tabGap
  beforeValue := blankGap
  printable :=
    { name := visible_of_all (by decide)
      recordClass := visible_of_all (by decide)
      recordType := visible_of_all (by decide)
      noComment := by decide
      ttl := by decide
      value_ne := by decide
      singleLine := by decide
      trimmed := by decide }
  name_ne := by decide
  class_ne := by decide
  type_ne := by decide

/-- The first server was reached at the second attempt. -/
def retriedTranscript : TraceTranscript where
  banner := "9.18 <<>> +trace a.io TXT".toList
  hops :=
    [{ warnings := [⟨";; communications error to 192.0.2.1#53: timed out".toList, by decide⟩]
       records := [spacedRecord]
       bytes := 79
       server := plainWord "192.0.2.1#53".toList (by decide)
       name := plainWord "ns.io".toList (by decide)
       time := 4
       time_lt := by decide }]
  banner_line := by decide

theorem retriedTranscript_read : parseTrace .ascii (readStdout retriedTranscript.text) =
    ⟨.finished, [⟨[⟨"a.io.".toList, "TXT".toList, 300, "IN".toList, "\"x y\"".toList⟩], ⟨4⟩,
      some "ns.io".toList⟩], retriedTranscript.text⟩ :=
  (retriedTranscript.parseTrace_readStdout .ascii).2

end GlobalpingProbe.Command.Dns
