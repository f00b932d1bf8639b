import GlobalpingProbe.Command.Http.TruncateHeaders
import GlobalpingProbe.Foundation.Lines

/-! # The header dump of curl

Two functions read the dump: one takes the status text from its first line, the other the
pairs from every later line. The dump of a request has a block for each interim response
before the one of the final response, whose code curl reports.
-/
namespace GlobalpingProbe.Command.Http
open Foundation

/-- One line of the dump, split at its first colon. -/
def parseHeaderLine (line : Text) : Option Header :=
  let line := trim (line.rdropWhile (· = '\r'))
  if line.isEmpty then none
  else if ':' ∈ line then
    some (trim (line.takeWhile (· ≠ ':')), trim (line.dropWhile (· ≠ ':')).tail)
  else none

def parseHeaderFile (raw : Text) : List Header :=
  (lines raw).zipIdx.filterMap (fun e => if e.2 = 0 then none else parseHeaderLine e.1)

def parseStatusText (raw : Text) : Option Text :=
  match lines raw with
  | [] => none
  | first :: _ => (splitn ' ' 3 (first.rdropWhile (· = '\r')))[2]?.map trim

/-- A header as a server sends it: a trimmed name without a colon and a trimmed value, on
one line. -/
def plainHeader (h : Header) : Bool :=
  Trimmed h.1 && Trimmed h.2 && !h.1.contains ':' && !h.1.contains '\n' && !h.2.contains '\n'

structure ResponseBlock where
  version : Text
  code : Text
  reason : Text
  headers : List Header
  version_plain : version.all (fun c => !isWhitespace c && c ≠ ':') = true
  code_digits : code.all Char.isDigit = true
  reason_trimmed : Trimmed reason
  reason_line : '\n' ∉ reason
  headers_plain : headers.all plainHeader = true

namespace ResponseBlock

def statusLine (b : ResponseBlock) : Text := b.version ++ ' ' :: (b.code ++ ' ' :: b.reason)

/-- The lines of a block; the blank one ends it. -/
def toLines (b : ResponseBlock) : List Text := b.statusLine :: (b.headers.map headerLine ++ [[]])

end ResponseBlock

def headerDump (blocks : List ResponseBlock) : Text :=
  (blocks.flatMap ResponseBlock.toLines).flatMap endCrLf

/-- Status text and headers are those of the last block. -/
def FromFinalResponse (blocks : List ResponseBlock) : Prop :=
  ∀ final, blocks.getLast? = some final →
    parseStatusText (headerDump blocks) = some final.reason ∧
      parseHeaderFile (headerDump blocks) = final.headers

/-- The blocks before the last have no headers, no reason phrase after the first has a colon,
and the first phrase is the last one. -/
def FinalShowsAlone (blocks : List ResponseBlock) : Prop :=
  (∀ b ∈ blocks.dropLast, b.headers = []) ∧ (∀ b ∈ blocks.tail, ':' ∉ b.reason) ∧
    blocks.head?.map ResponseBlock.reason = blocks.getLast?.map ResponseBlock.reason

section Lines

theorem isWhitespace_space : isWhitespace ' ' = true := rfl
theorem isWhitespace_newline : isWhitespace '\n' = true := rfl
theorem isWhitespace_colon : isWhitespace ':' = false := rfl

theorem plainHeader_spec {h : Header} (hp : plainHeader h = true) :
    Trimmed h.1 ∧ Trimmed h.2 ∧ ':' ∉ h.1 ∧ '\n' ∉ h.1 ∧ '\n' ∉ h.2 := by
  simpa [plainHeader, and_assoc] using hp

theorem newline_notMem_headerLine {h : Header} (hp : plainHeader h = true) :
    '\n' ∉ headerLine h := by
  obtain ⟨-, -, -, hname, hvalue⟩ := plainHeader_spec hp
  simp [headerLine, hname, hvalue]

/-- The blank behind the colon goes with the value, or with the end of the line. -/
theorem trim_headerLine {h : Header} (hp : plainHeader h = true) :
    trim ((headerLine h).rdropWhile (· = '\r')) =
      h.1 ++ ':' :: (if h.2 = [] then [] else ' ' :: h.2) := by
  obtain ⟨hname, hvalue, -⟩ := plainHeader_spec hp
  obtain ⟨name, value⟩ := h
  have hline : headerLine (name, value) = name ++ ':' :: ' ' :: value := by simp [headerLine]
  have htrim : ∀ s, trim (name ++ ':' :: s) = (name ++ ':' :: s).rdropWhile isWhitespace := by
    intro s
    cases name with
    | nil => exact trim_of_head isWhitespace_colon s
    | cons c name => exact trim_of_head (head_of_trimmed hname) _
  rw [hline]
  by_cases hnil : value = []
  · subst hnil
    have hcr : (name ++ [':', ' ']).rdropWhile (· = '\r') = name ++ [':', ' '] := by
      rw [show name ++ [':', ' '] = name ++ [':'] ++ [' '] by simp]
      exact List.rdropWhile_concat_neg _ _ _ (by decide)
    rw [hcr, htrim, if_pos rfl, show name ++ [':', ' '] = name ++ [':'] ++ [' '] by simp,
      List.rdropWhile_concat_pos _ _ _ (by decide), List.rdropWhile_concat_neg _ _ _ (by decide)]
  · have happ : name ++ ':' :: ' ' :: value = (name ++ [':', ' ']) ++ value := by simp
    rw [if_neg hnil, happ, rdropWhile_append_trimmed isWhitespace_of_cr _ hnil hvalue, ← happ,
      htrim, happ, rdropWhile_append_trimmed (fun _ h => h) _ hnil hvalue, ← happ]

theorem parseHeaderLine_headerLine {h : Header} (hp : plainHeader h = true) :
    parseHeaderLine (headerLine h) = some h := by
  obtain ⟨hname, hvalue, hcolon, -⟩ := plainHeader_spec hp
  have hbefore : ∀ c ∈ h.1, decide (c ≠ ':') = true := by
    intro c hc
    exact decide_eq_true (fun heq => hcolon (heq ▸ hc))
  have hrest : trim (if h.2 = [] then [] else ' ' :: h.2) = h.2 := by
    by_cases hnil : h.2 = []
    · rw [if_pos hnil, hnil]
      rfl
    · rw [if_neg hnil, trim_cons_of_whitespace isWhitespace_space]
      exact hvalue
  simp only [parseHeaderLine]
  rw [trim_headerLine hp, if_neg (by simp), if_pos (by simp), List.takeWhile_append_of_pos hbefore,
    List.dropWhile_append_of_pos hbefore, List.takeWhile_cons_of_neg (by simp),
    List.dropWhile_cons_of_neg (by simp), List.append_nil, List.tail_cons, hrest, hname]

theorem parseHeaderLine_of_no_colon {line : Text} (h : ':' ∉ line) :
    parseHeaderLine line = none := by
  have hsub : ':' ∉ trim (line.rdropWhile (· = '\r')) := by
    intro hmem
    apply h
    apply (List.rdropWhile_prefix _ _).subset
    exact (List.dropWhile_suffix _).subset ((List.rdropWhile_prefix _ _).subset hmem)
  simp [parseHeaderLine, hsub]

theorem parseHeaderLine_isSome {line : Text} (h : ':' ∈ line) :
    (parseHeaderLine line).isSome = true := by
  have hmem : ':' ∈ trim (line.rdropWhile (· = '\r')) :=
    mem_trim (mem_rdropWhile h (by decide)) isWhitespace_colon
  simp [parseHeaderLine, hmem, List.ne_nil_of_mem hmem]

end Lines

section Block
variable (b : ResponseBlock)

theorem notMem_version {c : Char} (h : isWhitespace c = true ∨ c = ':') : c ∉ b.version := by
  intro hc
  have hplain := List.all_eq_true.mp b.version_plain c hc
  rcases h with h | rfl
  · simp [h] at hplain
  · simp at hplain

theorem notMem_code {c : Char} (h : c.isDigit = false) : c ∉ b.code := by
  intro hc
  rw [List.all_eq_true.mp b.code_digits c hc] at h
  cases h

theorem newline_notMem_toLines {l : Text} (h : l ∈ b.toLines) : '\n' ∉ l := by
  simp only [ResponseBlock.toLines, List.mem_cons, List.mem_append, List.mem_map,
    List.not_mem_nil, or_false] at h
  rcases h with rfl | ⟨p, hp, rfl⟩ | rfl
  · simp [ResponseBlock.statusLine, b.reason_line, notMem_version b (.inl isWhitespace_newline),
      notMem_code b (c := '\n') rfl]
  · exact newline_notMem_headerLine (List.all_eq_true.mp b.headers_plain p hp)
  · exact List.not_mem_nil

/-- A status line is taken for a header exactly when its reason phrase has a colon. -/
theorem parseHeaderLine_statusLine :
    parseHeaderLine b.statusLine = none ↔ ':' ∉ b.reason := by
  constructor
  · intro h hmem
    have hline : ':' ∈ b.statusLine := by simp [ResponseBlock.statusLine, hmem]
    have hsome := parseHeaderLine_isSome hline
    rw [h] at hsome
    cases hsome
  · intro h
    apply parseHeaderLine_of_no_colon
    simp [ResponseBlock.statusLine, h, notMem_version b (.inr rfl), notMem_code b (c := ':') rfl]

theorem filterMap_headerLines :
    (b.headers.map headerLine ++ [[]]).filterMap parseHeaderLine = b.headers := by
  have hmap : (b.headers.map headerLine).filterMap parseHeaderLine = b.headers := by
    rw [List.filterMap_map]
    calc b.headers.filterMap (parseHeaderLine ∘ headerLine)
        = b.headers.filterMap some := List.filterMap_congr
          (fun p hp => parseHeaderLine_headerLine (List.all_eq_true.mp b.headers_plain p hp))
      _ = b.headers := List.filterMap_some
  rw [List.filterMap_append, hmap]
  exact List.append_nil _

/-- What a later block adds to the pairs. -/
def laterPairs : List Header := (parseHeaderLine b.statusLine).toList ++ b.headers

theorem filterMap_toLines : b.toLines.filterMap parseHeaderLine = laterPairs b := by
  rw [ResponseBlock.toLines, List.filterMap_cons, filterMap_headerLines, laterPairs]
  cases parseHeaderLine b.statusLine <;> rfl

theorem parseStatusText_statusLine (later : List Text) {raw : Text}
    (h : lines raw = b.statusLine :: later) : parseStatusText raw = some b.reason := by
  have hcr : b.statusLine.rdropWhile (· = '\r') = b.statusLine := by
    by_cases hnil : b.reason = []
    · have hline : b.statusLine = (b.version ++ ' ' :: b.code) ++ [' '] := by
        simp [ResponseBlock.statusLine, hnil]
      rw [hline]
      exact List.rdropWhile_concat_neg _ _ _ (by decide)
    · have hline : b.statusLine = (b.version ++ ' ' :: (b.code ++ [' '])) ++ b.reason := by
        simp [ResponseBlock.statusLine]
      rw [hline]
      exact rdropWhile_append_trimmed isWhitespace_of_cr _ hnil b.reason_trimmed
  simp only [parseStatusText, h, hcr]
  rw [ResponseBlock.statusLine, splitn_three (notMem_version b (.inl isWhitespace_space))
    (notMem_code b rfl)]
  exact congrArg some b.reason_trimmed

end Block

theorem lines_headerDump (blocks : List ResponseBlock) :
    lines (headerDump blocks) = blocks.flatMap ResponseBlock.toLines := by
  apply lines_flatMap_endCrLf
  intro l hl
  obtain ⟨b, -, hb⟩ := List.mem_flatMap.mp hl
  exact newline_notMem_toLines b hb

/-- Only the first line is left out. -/
theorem filterMap_zipIdx_skip_first {α β : Type} (f : α → Option β) (a : α) (as : List α) :
    (a :: as).zipIdx.filterMap (fun e => if e.2 = 0 then none else f e.1) = as.filterMap f := by
  have key : ∀ (l : List α) (k : ℕ),
      (l.zipIdx (k + 1)).filterMap (fun e => if e.2 = 0 then none else f e.1) = l.filterMap f := by
    intro l
    induction l with
    | nil => exact fun _ => rfl
    | cons b l ih =>
      intro k
      simp only [List.zipIdx_cons, List.filterMap_cons, Nat.succ_ne_zero, if_false, ih (k + 1)]
  rw [List.zipIdx_cons, List.filterMap_cons, if_pos rfl]
  exact key as 0

/-- The pairs of a dump: those of the first block, then what every later block adds. -/
theorem parseHeaderFile_dump (first : ResponseBlock) (rest : List ResponseBlock) :
    parseHeaderFile (headerDump (first :: rest)) = first.headers ++ rest.flatMap laterPairs := by
  rw [parseHeaderFile, lines_headerDump, List.flatMap_cons, ResponseBlock.toLines, List.cons_append,
    filterMap_zipIdx_skip_first, List.filterMap_append, filterMap_headerLines,
    List.filterMap_flatMap]
  simp only [filterMap_toLines]

theorem parseStatusText_dump (first : ResponseBlock) (rest : List ResponseBlock) :
    parseStatusText (headerDump (first :: rest)) = some first.reason := by
  apply parseStatusText_statusLine first
  rw [lines_headerDump, List.flatMap_cons, ResponseBlock.toLines, List.cons_append]

theorem laterPairs_eq_nil_iff (b : ResponseBlock) :
    laterPairs b = [] ↔ ':' ∉ b.reason ∧ b.headers = [] := by
  rw [laterPairs, List.append_eq_nil_iff, Option.toList_eq_nil_iff, parseHeaderLine_statusLine]

/-- Nothing stands in front of the pairs of the last block exactly when no line before them
makes a pair. -/
theorem pairs_eq_final_iff (first final : ResponseBlock) (mid : List ResponseBlock) :
    first.headers ++ (mid ++ [final]).flatMap laterPairs = final.headers ↔
      (∀ b ∈ first :: mid, b.headers = []) ∧ ∀ b ∈ mid ++ [final], ':' ∉ b.reason := by
  have hsplit : first.headers ++ (mid ++ [final]).flatMap laterPairs =
      (first.headers ++ (mid.flatMap laterPairs ++ (parseHeaderLine final.statusLine).toList)) ++
        final.headers := by
    simp [laterPairs]
  rw [hsplit, List.append_left_eq_self, List.append_eq_nil_iff, List.append_eq_nil_iff,
    Option.toList_eq_nil_iff, parseHeaderLine_statusLine, List.flatMap_eq_nil_iff,
    List.forall_mem_cons, List.forall_mem_append, List.forall_mem_singleton]
  simp only [laterPairs_eq_nil_iff]
  constructor
  · rintro ⟨hfirst, hmid, hfinal⟩
    exact ⟨⟨hfirst, fun b hb => (hmid b hb).2⟩, fun b hb => (hmid b hb).1, hfinal⟩
  · rintro ⟨⟨hfirst, hheaders⟩, hreason, hfinal⟩
    exact ⟨hfirst, fun b hb => ⟨hreason b hb, hheaders b hb⟩, hfinal⟩

/-- Status text and headers come from the final response exactly when nothing of the blocks
before it shows: the first reason phrase is its own, and no line adds a pair. -/
theorem fromFinalResponse_iff (blocks : List ResponseBlock) :
    FromFinalResponse blocks ↔ FinalShowsAlone blocks := by
  cases blocks with
  | nil => simp [FromFinalResponse, FinalShowsAlone]
  | cons first rest =>
    unfold FromFinalResponse FinalShowsAlone
    rw [parseStatusText_dump, parseHeaderFile_dump]
    cases rest using List.reverseRecOn with
    | nil => simp
    | append_singleton mid final =>
      rw [← List.cons_append, List.getLast?_concat, List.dropLast_concat, List.cons_append,
        List.tail_cons, List.head?_cons]
      have hpairs := pairs_eq_final_iff first final mid
      constructor
      · intro h
        obtain ⟨hreason, hheaders⟩ := h final rfl
        obtain ⟨hbefore, hcolon⟩ := hpairs.mp hheaders
        exact ⟨hbefore, hcolon, hreason⟩
      · rintro ⟨hbefore, hcolon, hreason⟩ final' hfinal
        cases hfinal
        exact ⟨hreason, hpairs.mpr ⟨hbefore, hcolon⟩⟩

/-- An interim response that asks for a style sheet to be loaded early. -/
def earlyHints : ResponseBlock :=
  ⟨"HTTP/1.1".toList, "103".toList, "Early Hints".toList,
    [("Link".toList, "</style.css>".toList)], by decide, by decide, by decide, by decide, by decide⟩

def finalOk : ResponseBlock :=
  ⟨"HTTP/1.1".toList, "200".toList, "OK".toList,
    [("Server".toList, "nginx".toList)], by decide, by decide, by decide, by decide, by decide⟩

/-- The phrase of the interim response is reported, and its header among those of the final. -/
theorem earlyHints_shown : ¬ FromFinalResponse [earlyHints, finalOk] := by
  intro h
  have hfinal := (h finalOk rfl).1
  rw [parseStatusText_dump] at hfinal
  exact absurd hfinal (by decide)

end GlobalpingProbe.Command.Http
