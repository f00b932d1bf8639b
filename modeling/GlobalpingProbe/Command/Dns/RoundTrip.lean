import GlobalpingProbe.Command.Dns.DigLayout
import GlobalpingProbe.Command.Dns.Rewrite
import GlobalpingProbe.Foundation.Words

/-! # The round trip of answer records

A transcript in the layout of dig prints one record a line. Each line gives at most one answer,
so all records come back exactly when each of them does.
-/
namespace GlobalpingProbe.Command.Dns
open Foundation Regex Net

variable {classes : UnicodeClasses} {localIps : List IpAddr}

def recordHead (r : DnsAnswer) : Text :=
  r.name ++ '\t' :: (Nat.toDigits 10 r.ttl ++ '\t' ::
    (r.recordClass ++ '\t' :: (r.recordType ++ ['\t'])))

def recordLine (r : DnsAnswer) : Text := recordHead r ++ r.value

/-- What a record is printed from. -/
structure Printable (r : DnsAnswer) : Prop where
  name : ∀ c ∈ r.name, isWhitespace c = false
  recordClass : ∀ c ∈ r.recordClass, isWhitespace c = false
  recordType : ∀ c ∈ r.recordType, isWhitespace c = false
  noComment : r.name.head? ≠ some ';'
  ttl : r.ttl < 2 ^ 32
  value_ne : r.value ≠ []
  singleLine : '\n' ∉ r.value
  trimmed : trim r.value = r.value

/-- The line has `;; `, a word and ` SECTION:` in it. -/
def ShowsSection (line : Text) : Prop :=
  ∃ before word after, word ≠ [] ∧ (∀ c ∈ word, isWhitespace c = false) ∧
    line = before ++ (";; ".toList ++ (word ++ (" SECTION:".toList ++ after)))

/-- A record that comes back: no part is empty, the data is single spaced, and the line has
neither a section heading nor the label of a server with a private address. -/
structure Recoverable (localIps : List IpAddr) (r : DnsAnswer) : Prop where
  name_ne : r.name ≠ []
  class_ne : r.recordClass ≠ []
  type_ne : r.recordType ≠ []
  spaced : SingleSpaced r.value
  noSection : ¬ ShowsSection (recordLine r)
  noServer : hiddenAddress localIps (recordLine r) = none

/-! ## Lines that are read in the answer section -/

theorem sectionRe_isSome {line : Text} :
    (sectionRe.captures line).isSome = true ↔ ShowsSection line := by
  constructor
  · intro h
    obtain ⟨m, hm⟩ := Option.isSome_iff_exists.mp h
    obtain ⟨before, hline, hlang⟩ := captures_sound hm
    obtain ⟨u, hu, v, hv, huv⟩ := mem_lang_concat_cons.mp hlang
    obtain ⟨word, hword, w, hw, rfl⟩ := mem_lang_concat_cons.mp hv
    obtain ⟨z, hz, e, rfl, rfl⟩ := mem_lang_concat_cons.mp hw
    obtain ⟨hne, hspace⟩ := of_mem_lang_plus_chr hword
    refine ⟨before, word, m.rest, hne, fun c hc => by simpa using hspace c hc, ?_⟩
    rw [← hline, ← huv, eq_of_mem_lang_lit hu, eq_of_mem_lang_lit hz]
    simp
  · rintro ⟨before, word, after, hne, hspace, rfl⟩
    have hword : word ∈ (group 2 (plus true (chr (!isWhitespace ·)))).lang :=
      mem_lang_plus_chr hne (fun c hc => by simp [hspace c hc])
    have hlang : ";; ".toList ++ (word ++ (" SECTION:".toList ++ [])) ∈ sectionRe.lang :=
      Language.append_mem_mul (mem_lang_lit _) (Language.append_mem_mul hword
        (Language.append_mem_mul (mem_lang_lit _) rfl))
    simpa using captures_isSome hlang before after

/-- In the answer section the line is read as this record, and nothing else happens. -/
structure Yields (line : Text) (r : DnsAnswer) : Prop where
  noSection : sectionRe.captures line = none
  noComment : line.head? ≠ some ';'
  parsed : parseAnswerLine line = some r

theorem ne_nil_of_parseAnswerLine {line : Text} {r : DnsAnswer}
    (h : parseAnswerLine line = some r) : line ≠ [] := by
  rintro rfl
  cases h

theorem semicolon_prefix {line : Text} : [';'] <+: line ↔ line.head? = some ';' := by
  rw [List.head?_eq_some_iff]
  exact ⟨fun ⟨later, h⟩ => ⟨later, h.symm⟩, fun ⟨later, h⟩ => ⟨later, h.symm⟩⟩

section Reading
variable (classes)

theorem readLine_yields {reading : Reading} {line : Text} {r : DnsAnswer}
    (hsec : reading.currentSection = .answer) (h : Yields line r) :
    (reading.readLine classes line).answers = reading.answers ++ [r] ∧
      (reading.readLine classes line).currentSection = .answer := by
  have hne : line.isEmpty = false := by simp [ne_nil_of_parseAnswerLine h.parsed]
  have hnext : nextSection line reading.currentSection = (.answer, false) := by
    simp [nextSection, hne, h.noSection, hsec]
  have hplain : ¬ [';'] <+: line := semicolon_prefix.not.mpr h.noComment
  simp [Reading.readLine, hnext, hplain, h.parsed]

theorem readLine_answers (reading : Reading) (line : Text) :
    (reading.readLine classes line).answers = reading.answers ++
      if (nextSection line reading.currentSection).1 = .answer ∧
        (nextSection line reading.currentSection).2 = false ∧ ¬ [';'] <+: line then
          (parseAnswerLine line).toList else [] := by
  have hplain : [';'].isPrefixOf line = false ↔ ¬ [';'] <+: line := by
    rw [← Bool.not_eq_true, List.isPrefixOf_iff_prefix]
  simp [Reading.readLine, and_assoc, hplain]

/-- What a line adds to the answers. -/
theorem readLine_adds (reading : Reading) (line : Text) :
    ∃ added, (reading.readLine classes line).answers = reading.answers ++ added ∧
      added.length ≤ 1 ∧ ∀ r, added = [r] → Yields line r := by
  refine ⟨_, readLine_answers classes reading line, ?_, fun r hr => ?_⟩
  · split_ifs
    · cases parseAnswerLine line <;> simp
    · simp
  · split_ifs at hr with hanswer
    obtain ⟨-, hchanged, hplain⟩ := hanswer
    have hparsed : parseAnswerLine line = some r := by
      cases hp : parseAnswerLine line with
      | none => simp [hp] at hr
      | some a => simpa [hp] using hr
    have hne : line.isEmpty = false := by simp [ne_nil_of_parseAnswerLine hparsed]
    refine ⟨?_, semicolon_prefix.not.mp hplain, hparsed⟩
    cases hcaps : sectionRe.captures line with
    | none => rfl
    | some caps => simp [nextSection, hne, hcaps] at hchanged

theorem readLine_comment {line : Text} (h : line = [] ∨ line.head? = some ';')
    (reading : Reading) : (reading.readLine classes line).answers = reading.answers := by
  obtain ⟨added, hadded, hlen, hyields⟩ := readLine_adds classes reading line
  cases added with
  | nil => simpa using hadded
  | cons r more =>
    obtain rfl : more = [] := List.eq_nil_of_length_eq_zero (by simpa using hlen)
    have hline := hyields r rfl
    rcases h with rfl | h
    · cases hline.parsed
    · exact absurd h hline.noComment

theorem readLines_comments {ls : List Text} (h : ∀ l ∈ ls, l = [] ∨ l.head? = some ';')
    (reading : Reading) :
    (ls.foldl (Reading.readLine classes) reading).answers = reading.answers := by
  induction ls generalizing reading with
  | nil => rfl
  | cons l ls ih =>
    rw [List.foldl_cons, ih (fun m hm => h m (by simp [hm])),
      readLine_comment classes (h l (by simp))]

theorem readLines_adds (ls : List Text) (reading : Reading) :
    ∃ added, (ls.foldl (Reading.readLine classes) reading).answers = reading.answers ++ added ∧
      added.length ≤ ls.length := by
  induction ls generalizing reading with
  | nil => exact ⟨[], by simp, le_rfl⟩
  | cons l ls ih =>
    obtain ⟨first, hfirst, hlen, -⟩ := readLine_adds classes reading l
    obtain ⟨added, hadded, hle⟩ := ih (reading.readLine classes l)
    refine ⟨first ++ added, ?_, ?_⟩
    · rw [List.foldl_cons, hadded, hfirst, List.append_assoc]
    · rw [List.length_append, List.length_cons]
      omega

/-- No line can make up for another one that gives no answer or a wrong one. -/
theorem readLines_records_iff (print : DnsAnswer → Text) (records : List DnsAnswer)
    {reading : Reading} (hsec : reading.currentSection = .answer) :
    ((records.map print).foldl (Reading.readLine classes) reading).answers =
      reading.answers ++ records ↔ ∀ r ∈ records, Yields (print r) r := by
  induction records generalizing reading with
  | nil => simp
  | cons r records ih =>
    rw [List.map_cons, List.foldl_cons, List.forall_mem_cons]
    by_cases hr : Yields (print r) r
    · obtain ⟨hanswers, hsec'⟩ := readLine_yields classes hsec hr
      rw [and_iff_right hr, ← ih hsec', hanswers, List.append_assoc]
      rfl
    · refine iff_of_false (fun h => hr ?_) (fun h => hr h.1)
      obtain ⟨first, hfirst, hlen, hyields⟩ :=
        readLine_adds classes reading (print r)
      obtain ⟨added, hadded, hle⟩ := readLines_adds classes (records.map print)
        (reading.readLine classes (print r))
      rw [hadded, hfirst, List.append_assoc, List.append_cancel_left_eq] at h
      have htotal := congrArg List.length h
      rw [List.length_map] at hle
      rw [List.length_append, List.length_cons] at htotal
      obtain ⟨a, rfl⟩ : ∃ a, first = [a] := List.length_eq_one_iff.mp (by omega)
      obtain ⟨rfl, -⟩ := List.cons.inj h
      exact hyields a rfl

end Reading

/-! ## The line of one record -/

theorem words_of_parseAnswerLine {line : Text} {r : DnsAnswer}
    (h : parseAnswerLine line = some r) : ∃ ttl values,
      splitWhitespace line = r.name :: ttl :: r.recordClass :: r.recordType :: values ∧
        parseUnsigned 32 ttl = some r.ttl ∧ [' '].intercalate values = r.value := by
  unfold parseAnswerLine at h
  split at h
  · next name ttl recordClass recordType value values hwords =>
    obtain ⟨n, hn, rfl⟩ := Option.map_eq_some_iff.mp h
    exact ⟨ttl, value :: values, hwords, hn, rfl⟩
  · cases h

theorem parseAnswerLine_of_words {line ttl : Text} {r : DnsAnswer} {values : List Text}
    (hwords : splitWhitespace line = r.name :: ttl :: r.recordClass :: r.recordType :: values)
    (httl : parseUnsigned 32 ttl = some r.ttl) (hne : values ≠ [])
    (hvalue : [' '].intercalate values = r.value) : parseAnswerLine line = some r := by
  cases values with
  | nil => exact absurd rfl hne
  | cons value values => simp [parseAnswerLine, hwords, httl, hvalue]

section Record
variable {r : DnsAnswer}

theorem recordLine_eq (r : DnsAnswer) : recordLine r = r.name ++ '\t' ::
    (Nat.toDigits 10 r.ttl ++ '\t' ::
      (r.recordClass ++ '\t' :: (r.recordType ++ '\t' :: r.value))) := by
  simp [recordLine, recordHead]

theorem splitWhitespace_recordLine (h : Printable r) (hname : r.name ≠ [])
    (hclass : r.recordClass ≠ []) (htype : r.recordType ≠ []) :
    splitWhitespace (recordLine r) = r.name :: Nat.toDigits 10 r.ttl :: r.recordClass ::
      r.recordType :: splitWhitespace r.value := by
  have htab : isWhitespace '\t' = true := by decide
  rw [recordLine_eq, splitWhitespace_word_cons hname h.name htab,
    splitWhitespace_word_cons Nat.toDigits_ne_nil (fun c hc => toDigits_noSpace hc) htab,
    splitWhitespace_word_cons hclass h.recordClass htab,
    splitWhitespace_word_cons htype h.recordType htab]

/-- The letter of the mask is counted in the fields of the record only. -/
theorem count_recordLine (r : DnsAnswer) : (recordLine r).count 'x' =
    r.name.count 'x' + r.recordClass.count 'x' + r.recordType.count 'x' + r.value.count 'x' := by
  have httl : (Nat.toDigits 10 r.ttl).count 'x' = 0 := by
    apply List.count_eq_zero.mpr
    intro hx
    exact absurd (isDigitOf_toDigits hx) (by decide)
  simp only [recordLine_eq, List.count_append, List.count_cons, httl]
  simp
  omega

theorem count_of_parseAnswerLine {line : Text} (h : parseAnswerLine line = some r) :
    line.count 'x' = r.name.count 'x' + r.recordClass.count 'x' + r.recordType.count 'x' +
      r.value.count 'x' := by
  obtain ⟨ttl, values, hwords, httl, hvalue⟩ := words_of_parseAnswerLine h
  have hnone : ttl.count 'x' = 0 :=
    List.count_eq_zero.mpr (notMem_of_parseUnsigned httl (by decide) (by decide))
  rw [count_splitWhitespace (by decide), hwords, ← hvalue, count_intercalate (by decide)]
  simp only [List.flatten_cons, List.count_append, hnone]
  omega

/-- A record with a hidden address in its line does not come back. -/
theorem hiddenAddress_of_yields (h : Yields (rewriteLine localIps (recordLine r)) r) :
    hiddenAddress localIps (recordLine r) = none := by
  cases hh : hiddenAddress localIps (recordLine r) with
  | none => rfl
  | some addr =>
    have hhidden := hidden_of_hiddenAddress hh
    have hmore := count_lt_replaceAll (hhidden.notMem (c := 'x') (by decide))
      (by decide : 'x' ∈ mask) hhidden.ne_nil hhidden.part
    have hparsed := count_of_parseAnswerLine h.parsed
    rw [rewriteLine_of_some hh] at hparsed
    rw [hparsed, count_recordLine] at hmore
    exact absurd hmore (lt_irrefl _)

theorem yields_iff (hr : Printable r) :
    Yields (rewriteLine localIps (recordLine r)) r ↔ Recoverable localIps r := by
  constructor
  · intro h
    have hnone := hiddenAddress_of_yields h
    rw [rewriteLine_of_none hnone] at h
    obtain ⟨ttl, values, hwords, -, hvalue⟩ := words_of_parseAnswerLine h.parsed
    have hword : ∀ w ∈ [r.name, r.recordClass, r.recordType], w ≠ [] := by
      intro w hw
      refine (mem_splitWhitespace (s := recordLine r) ?_).1
      rw [hwords]
      simp only [List.mem_cons, List.not_mem_nil, or_false] at hw ⊢
      tauto
    have hname := hword r.name (by simp)
    have hclass := hword r.recordClass (by simp)
    have htype := hword r.recordType (by simp)
    refine ⟨hname, hclass, htype, ?_, ?_, hnone⟩
    · rw [splitWhitespace_recordLine hr hname hclass htype] at hwords
      simp only [List.cons.injEq, true_and] at hwords
      rw [← intercalate_splitWhitespace hr.value_ne, hwords.2]
      exact hvalue
    · rw [← sectionRe_isSome, h.noSection]
      exact Bool.false_ne_true
  · intro h
    rw [rewriteLine_of_none h.noServer]
    have hwords := splitWhitespace_recordLine hr h.name_ne h.class_ne h.type_ne
    have hvalue := (intercalate_splitWhitespace hr.value_ne).mpr h.spaced
    refine ⟨?_, ?_, parseAnswerLine_of_words hwords (parseUnsigned_toDigits hr.ttl) ?_ hvalue⟩
    · rw [← Option.not_isSome_iff_eq_none, sectionRe_isSome]
      exact h.noSection
    · rw [recordLine_eq, List.head?_append_of_ne_nil _ h.name_ne]
      exact hr.noComment
    · intro he
      rw [he] at hvalue
      exact hr.value_ne hvalue.symm

end Record
/-! ## The whole transcript -/

def badPacket : Text := ";; Got bad packet:".toList

def answerHeading : Text := ";; ANSWER SECTION:".toList

theorem nextSection_answerHeading (current : DigSection) :
    nextSection (rewriteLine localIps answerHeading) current = (.answer, true) := by
  have hplain : rewriteLine localIps answerHeading = answerHeading :=
    if_neg (by decide)
  have hcaps : (sectionRe.captures answerHeading).map (fun caps => sectionNamed (caps.group 2)) =
      some .answer := by decide +kernel
  obtain ⟨caps, hcaptured, hnamed⟩ := Option.map_eq_some_iff.mp hcaps
  have hne : answerHeading.isEmpty = false := rfl
  simp [hplain, nextSection, hne, hcaptured, hnamed]

namespace DigLayout
variable {L : DigLayout} {data : L.RecordData} {records : List DnsAnswer}

/-- The layout prints these records. -/
structure Prints (L : DigLayout) (data : L.RecordData) (records : List DnsAnswer) : Prop where
  heads : L.heads = records.map recordHead
  values : data.val = records.map (·.value)
  printable : ∀ r ∈ records, Printable r
  noBadPacket : ∀ first, L.headerLines.head? = some first → ¬ badPacket <+: first

theorem Prints.recordLines (h : L.Prints data records) :
    L.recordLines data = records.map recordLine := by
  have hzip := congrArg₂ (List.zipWith (· ++ ·)) h.heads h.values
  rw [List.zipWith_map, List.zipWith_self] at hzip
  exact hzip

theorem comment_headerLines : ∀ l ∈ L.headerLines, l = [] ∨ l.head? = some ';' := by
  have hcomment : ∀ l ∈ L.banner ++ L.flags ++ L.question ++ L.trailer,
      l = [] ∨ l.head? = some ';' := fun l hl => (L.comments l hl).2
  intro l hl
  simp only [headerLines, List.mem_append, List.mem_cons, List.not_mem_nil, or_false] at hl
  rcases hl with (((((h | rfl) | h) | rfl) | h) | (rfl | rfl))
  · exact hcomment l (by simp [h])
  · exact .inr rfl
  · exact hcomment l (by simp [h])
  · exact .inr rfl
  · exact hcomment l (by simp [h])
  · exact .inl rfl
  · exact .inr rfl

theorem comment_footerLines : ∀ l ∈ L.footerLines, l = [] ∨ l.head? = some ';' := by
  intro l hl
  simp only [footerLines, List.mem_append, List.mem_cons, List.not_mem_nil, or_false] at hl
  rcases hl with ((rfl | rfl | rfl) | h)
  · exact .inl rfl
  · exact .inr rfl
  · exact .inr rfl
  · exact (L.comments l (by simp [h])).2

section Rewritten
variable (classes localIps)

theorem comments_rewritten {ls : List Text} (h : ∀ l ∈ ls, l = [] ∨ l.head? = some ';') :
    ∀ l ∈ ls.map (rewriteLine localIps), l = [] ∨ l.head? = some ';' := by
  intro l hl
  obtain ⟨m, hm, rfl⟩ := List.mem_map.mp hl
  exact rewriteLine_comment (h m hm)

/-- After the header, nothing is read and the answers begin. -/
theorem readLines_header (L : DigLayout) :
    (readLines classes (L.headerLines.map (rewriteLine localIps))).answers = [] ∧
      (readLines classes (L.headerLines.map (rewriteLine localIps))).currentSection = .answer := by
  refine ⟨readLines_comments classes (comments_rewritten localIps comment_headerLines) _, ?_⟩
  have hlast : L.headerLines = L.banner ++ [L.statusLine] ++ L.flags ++
      [";; QUESTION SECTION:".toList] ++ L.question ++ [[]] ++ [answerHeading] :=
    (List.append_assoc _ [[]] [answerHeading]).symm
  rw [hlast, List.map_append, List.map_singleton, readLines, List.foldl_concat]
  simp only [Reading.readLine, nextSection_answerHeading]

/-- A transcript in the layout is not taken for a failure. -/
theorem parseClassic_transcript (h : L.Prints data records) :
    (parseClassic classes localIps (L.transcript data)).status = .finished ∧
      (parseClassic classes localIps (L.transcript data)).answers =
        (readLines classes ((L.lines data).map (rewriteLine localIps))).answers := by
  have hshown : (rewriteClassic localIps (L.transcript data)).splitOn '\n' =
      (L.lines data).map (rewriteLine localIps) :=
    splitOn_rewriteClassic (lines_ne_nil data) (newline_lines data)
  have hlen : ¬ ((L.lines data).map (rewriteLine localIps)).length < 6 := by
    simp [DigLayout.lines, headerLines, footerLines]
    omega
  have hgood : ((((L.lines data).map (rewriteLine localIps)).head?).map
      (badPacket.isPrefixOf ·)).getD false = false := by
    obtain ⟨first, rest, hfirst⟩ := List.exists_cons_of_ne_nil (lines_ne_nil data)
    have hhead : L.headerLines.head? = some first := by
      have hne : L.headerLines ≠ [] := by simp [headerLines]
      have hlines : L.lines data = L.headerLines ++ (L.recordLines data ++ L.footerLines) :=
        List.append_assoc ..
      rw [← List.head?_append_of_ne_nil _ hne, ← hlines, hfirst, List.head?_cons]
    rw [hfirst, List.map_cons, List.head?_cons, Option.map_some, Option.getD_some,
      ← Bool.not_eq_true, List.isPrefixOf_iff_prefix]
    exact fun hpre => h.noBadPacket first hhead (prefix_of_rewriteLine (by decide) hpre)
  have hcond : (decide (((L.lines data).map (rewriteLine localIps)).length < 6) ||
      ((((L.lines data).map (rewriteLine localIps)).head?).map
        (";; Got bad packet:".toList.isPrefixOf ·)).getD false) = false := by
    rw [decide_eq_false hlen, Bool.false_or]
    exact hgood
  unfold parseClassic
  dsimp only
  rw [hshown, hcond]
  exact ⟨rfl, rfl⟩

end Rewritten

/-- Parsing a printed transcript gives back its records exactly when every single one of them
is recoverable. -/
theorem records_roundtrip_iff (h : L.Prints data records) :
    ((parseClassic classes localIps (L.transcript data)).status = .finished ∧
      (parseClassic classes localIps (L.transcript data)).answers = records) ↔
        ∀ r ∈ records, Recoverable localIps r := by
  obtain ⟨hstatus, hanswers⟩ := parseClassic_transcript classes localIps h
  obtain ⟨hnone, hsec⟩ := readLines_header classes localIps L
  have hrecords := readLines_records_iff classes (fun r => rewriteLine localIps (recordLine r)) records hsec
  have hfooter := readLines_comments classes
    (comments_rewritten localIps (comment_footerLines (L := L)))
  have hlines : ((L.lines data).map (rewriteLine localIps)).foldl (Reading.readLine classes)
      ⟨[], ⟨0⟩, none, none, none, .header⟩ =
      (L.footerLines.map (rewriteLine localIps)).foldl (Reading.readLine classes)
        ((records.map (fun r => rewriteLine localIps (recordLine r))).foldl
          (Reading.readLine classes) (readLines classes (L.headerLines.map (rewriteLine localIps)))) := by
    rw [DigLayout.lines, h.recordLines, List.map_append, List.map_append, List.map_map,
      List.foldl_append, List.foldl_append]
    rfl
  rw [hnone, List.nil_append] at hrecords
  rw [and_iff_right hstatus, hanswers, readLines, hlines, hfooter, hrecords]
  exact forall₂_congr (fun r hr => yields_iff (h.printable r hr))

def textRecord (value : Text) : DnsAnswer := ⟨"a.io.".toList, "TXT".toList, 300, "IN".toList, value⟩

/-- The layout of the text query, with the head of the record printed with tabs. -/
def printedQuery : DigLayout :=
  { textQuery with
    heads := [recordHead (textRecord [])]
    singleLine := by decide }

def printed (value : Text) (h : '\n' ∉ value) : printedQuery.RecordData :=
  ⟨[value], rfl, by simpa using h⟩

theorem printed_prints {value : Text} (h : '\n' ∉ value) (hne : value ≠ [])
    (htrim : trim value = value) : printedQuery.Prints (printed value h) [textRecord value] := by
  have hwords : ["a.io.".toList, "IN".toList, "TXT".toList].all
      (fun w => w.all (!isWhitespace ·)) = true := by decide
  have hplain : ∀ w ∈ ["a.io.".toList, "IN".toList, "TXT".toList],
      ∀ c ∈ w, isWhitespace c = false := by
    simpa only [List.all_eq_true, Bool.not_eq_true'] using hwords
  have hhead : "a.io.".toList.head? ≠ some ';' := by decide
  have httl : 300 < 2 ^ 32 := by decide
  refine ⟨rfl, rfl, fun r hr => ?_, fun first hfirst => ?_⟩
  · rw [List.mem_singleton.mp hr]
    exact ⟨hplain _ (.head _), hplain _ (.tail _ (.head _)), hplain _ (.tail _ (.tail _ (.head _))),
      hhead, httl, hne, h, htrim⟩
  · cases hfirst
    decide

/-- Two spaces inside a quoted text come back as one. -/
theorem doubleSpace_not_roundtrip :
    printedQuery.Prints (printed "\"a  b\"".toList (by decide)) [textRecord "\"a  b\"".toList] ∧
    (parseClassic .ascii [] (printedQuery.transcript
      (printed "\"a  b\"".toList (by decide)))).answers = [textRecord "\"a b\"".toList] ∧
    ¬ ((parseClassic .ascii [] (printedQuery.transcript
        (printed "\"a  b\"".toList (by decide)))).status = .finished ∧
      (parseClassic .ascii [] (printedQuery.transcript
        (printed "\"a  b\"".toList (by decide)))).answers = [textRecord "\"a  b\"".toList]) := by
  have hanswers : (parseClassic .ascii [] (printedQuery.transcript
      (printed "\"a  b\"".toList (by decide)))).answers = [textRecord "\"a b\"".toList] := by
    decide +kernel
  refine ⟨printed_prints _ (by decide) (by decide), hanswers, fun h => ?_⟩
  exact absurd (hanswers.symm.trans h.2) (by decide)

theorem policy_roundtrip :
    (parseClassic .ascii [] (printedQuery.transcript
        (printed "\"v=spf1 -all\"".toList (by decide)))).status = .finished ∧
      (parseClassic .ascii [] (printedQuery.transcript
        (printed "\"v=spf1 -all\"".toList (by decide)))).answers =
          [textRecord "\"v=spf1 -all\"".toList] := by
  apply (records_roundtrip_iff (printed_prints _ (by decide) (by decide))).mpr
  intro r hr
  rw [List.mem_singleton.mp hr]
  refine ⟨by decide, by decide, by decide, by decide, ?_, by decide +kernel⟩
  rw [← sectionRe_isSome]
  decide +kernel

end DigLayout
end GlobalpingProbe.Command.Dns
