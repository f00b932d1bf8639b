import GlobalpingProbe.Command.Ping.Parse
import GlobalpingProbe.Foundation.Decimal
import GlobalpingProbe.Foundation.Lines

/-! # The transcripts of ping

The format in which ping prints on Linux, from its parts: a header, a line for each packet,
and after a blank line the statistics. What the parser makes of the header and of the lines of
the packets is what they were printed from.
-/
namespace GlobalpingProbe.Command.Ping
open Foundation Regex

/-- A host or an address, free of white space and parentheses. -/
abbrev Host := {s : Text // ∀ c ∈ s, isNameChar c = true}

/-- What may stand in a line. -/
abbrev LineText := {s : Text // '\r' ∉ s ∧ '\n' ∉ s}

def printed (n : ℕ) : Text := Nat.toDigits 10 n

/-- The host as it was asked for, the name that its address has if there is one, the address, and
what is told about the packets. -/
structure Header where
  host : Host
  name : Option Host
  addr : Host
  rest : LineText
  name_ne_nil : ∀ n ∈ name, n.val ≠ []
  addr_ne_nil : addr.val ≠ []

def Header.text (h : Header) : Text :=
  match h.name with
  | none => "PING ".toList ++ h.host.val ++ " (".toList ++ h.addr.val ++ ")".toList ++ h.rest.val
  | some name =>
    "PING ".toList ++ h.host.val ++ "(".toList ++ name.val ++ " (".toList ++ h.addr.val ++
      "))".toList ++ h.rest.val

structure Reply where
  bytes : ℕ
  host : Host
  addr : Option Host
  seq : ℕ
  ttl : ℕ
  time : Decimal
  duplicate : Bool
  ttl_lt : ttl < 2 ^ 32

def Reply.source (r : Reply) : Text :=
  match r.addr with
  | none => r.host.val
  | some addr => r.host.val ++ " (".toList ++ addr.val ++ ")".toList

def Reply.text (r : Reply) : Text :=
  printed r.bytes ++ " bytes from ".toList ++ r.source ++ ": icmp_seq=".toList ++ printed r.seq ++
    " ttl=".toList ++ printed r.ttl ++ " time=".toList ++ r.time.text ++ " ms".toList ++
    if r.duplicate then " (DUP!)".toList else []

inductive PacketLine where
  | reply (r : Reply)
  | noAnswer (seq : ℕ)
  | error (message : LineText)

def PacketLine.text : PacketLine → Text
  | reply r => r.text
  | noAnswer n => "no answer yet for icmp_seq=".toList ++ printed n
  | error message => "From ".toList ++ message.val

structure Summary where
  transmitted : ℕ
  received : ℕ
  duplicates : Option ℕ
  errors : Option ℕ
  loss : Decimal
  time : ℕ
  transmitted_lt : transmitted < 2 ^ 32
  received_le : received ≤ transmitted

def extraCount (n : Option ℕ) (what : Text) : Text :=
  match n with
  | none => []
  | some n => ", +".toList ++ printed n ++ what

def Summary.text (s : Summary) : Text :=
  printed s.transmitted ++ " packets transmitted, ".toList ++ printed s.received ++
    " received".toList ++ extraCount s.duplicates " duplicates".toList ++
    extraCount s.errors " errors".toList ++ ", ".toList ++ s.loss.text ++
    "% packet loss, time ".toList ++ printed s.time ++ "ms".toList

structure RttLine where
  min : Decimal
  avg : Decimal
  max : Decimal
  mdev : Decimal

def RttLine.text (r : RttLine) : Text :=
  "rtt min/avg/max/mdev = ".toList ++ r.min.text ++ "/".toList ++ r.avg.text ++ "/".toList ++
    r.max.text ++ "/".toList ++ r.mdev.text ++ " ms".toList

structure Transcript where
  header : Header
  packets : List PacketLine
  summary : Summary
  rtt : Option RttLine

def Header.statsText (h : Header) : Text :=
  "--- ".toList ++ h.host.val ++ " ping statistics ---".toList

def Transcript.lines (t : Transcript) : List Text :=
  t.header.text :: t.packets.map PacketLine.text ++
    [] :: t.header.statsText :: t.summary.text :: (t.rtt.map RttLine.text).toList

def Transcript.text (t : Transcript) : Text := t.lines.flatMap endLf

/-! ## What the transcript tells -/

def PacketLine.timing : PacketLine → Option PingTiming
  | reply r => some ⟨.finite r.time.value, r.ttl⟩
  | noAnswer _ | error _ => none

def Transcript.timings (t : Transcript) : List PingTiming := t.packets.filterMap PacketLine.timing

def Transcript.stats (t : Transcript) : PingStats where
  min := t.rtt.map (fun r => .finite r.min.value)
  max := t.rtt.map (fun r => .finite r.max.value)
  avg := t.rtt.map (fun r => .finite r.avg.value)
  total := some t.summary.transmitted
  loss := some (.finite t.summary.loss.value)
  rcv := some t.summary.received
  drop := some (t.summary.transmitted - t.summary.received)

/-! ## Figures -/

section Figures
variable {classes : UnicodeClasses} {c : Char} {q : Regex Char} {s t w : Text} {i : ℕ}
  {caps : List (ℕ × Text)}

theorem not_digit (h : c.toNat < 128) (hd : c.isDigit = false) : ¬ classes.digit c = true := by
  simp [classes.digit_eq_false h hd]

theorem isDigit_printed {n : ℕ} (h : c ∈ printed n) : c.isDigit = true :=
  Nat.isDigit_of_mem_toDigits (by decide) (by decide) h

theorem printed_ne_nil (n : ℕ) : printed n ≠ [] := Nat.toDigits_ne_nil

theorem digit_printed (classes : UnicodeClasses) (n : ℕ) :
    ∀ c ∈ printed n, classes.digit c = true :=
  fun _ hc => classes.digit_of_isDigit (isDigit_printed hc)

/-- No number goes on here. -/
def EndsNumber (classes : UnicodeClasses) (t : Text) : Prop :=
  ∃ c t', t = c :: t' ∧ classes.digit c = false ∧ c ≠ '.'

theorem endsNumber_cons (h : c.toNat < 128 ∧ c.isDigit = false ∧ c ≠ '.') (t : Text) :
    EndsNumber classes (c :: t) :=
  ⟨c, t, rfl, classes.digit_eq_false h.1 h.2.1, h.2.2⟩

theorem head?_exec_digits (n : ℕ) (ht : EndsNumber classes t) :
    ((digits classes).exec (printed n ++ t)).head? = some ⟨printed n, [], t⟩ := by
  obtain ⟨c, t', rfl, hc, -⟩ := ht
  exact head?_exec_run_plus (printed_ne_nil n) (digit_printed classes n) hc

theorem captures_digits (n : ℕ) (ht : EndsNumber classes t) (hq : Captures q t caps) :
    Captures (Regex.seq (group i (digits classes)) q) (printed n ++ t) ((i, printed n) :: caps) :=
  captures_group (head?_exec_digits n ht) rfl hq

theorem captures_skip_digits (n : ℕ) (ht : EndsNumber classes t) (hq : Captures q t caps) :
    Captures (Regex.seq (digits classes) q) (printed n ++ t) caps :=
  captures_first (head?_exec_digits n ht) hq

theorem head?_exec_decimalRe (d : Decimal) (ht : EndsNumber classes t) :
    ((decimalRe classes).exec (d.text ++ t)).head? = some ⟨d.text, [], t⟩ := by
  obtain ⟨c, s, rfl, hc, hpoint⟩ := ht
  have hdigit : ∀ ds : Text, (∀ x ∈ ds, x.isDigit = true) → ∀ x ∈ ds, classes.digit x = true :=
    fun ds h x hx => classes.digit_of_isDigit (h x hx)
  have hdot : classes.digit '.' = false := classes.digit_eq_false (by decide) (by decide)
  unfold decimalRe Decimal.text
  split_ifs with hnone
  · have hrun := head?_exec_run (s := s) (hdigit d.whole d.isDigit_whole) hc
    have hopt : ((opt (Regex.seq (chr (· = '.')) (digits classes))).exec (c :: s)).head? =
        some ⟨[], [], c :: s⟩ := by
      simp [opt, exec, hpoint, Match.stop]
    simpa [Match.append] using head?_exec_seq_first hrun hopt
  · have hrun := head?_exec_run (s := d.fraction ++ c :: s) (hdigit d.whole d.isDigit_whole) hdot
    have hfraction := head?_exec_run_plus (s := s) hnone (hdigit d.fraction d.isDigit_fraction) hc
    have hpart : ((Regex.seq (chr (· = '.')) (digits classes)).exec
        ('.' :: (d.fraction ++ c :: s))).head? = some ⟨'.' :: d.fraction, [], c :: s⟩ := by
      have hchr : ((chr (fun x => decide (x = '.'))).exec ('.' :: (d.fraction ++ c :: s))).head? =
          some ⟨['.'], [], d.fraction ++ c :: s⟩ := by simp [exec]
      exact head?_exec_seq_first hchr hfraction
    have hopt : ((opt (Regex.seq (chr (· = '.')) (digits classes))).exec
        ('.' :: (d.fraction ++ c :: s))).head? = some ⟨'.' :: d.fraction, [], c :: s⟩ := by
      rw [opt, exec, List.head?_append, hpart, Option.some_or]
    simpa [Match.append] using head?_exec_seq_first hrun hopt

theorem captures_decimal (d : Decimal) (ht : EndsNumber classes t) (hq : Captures q t caps) :
    Captures (Regex.seq (group i (decimalRe classes)) q) (d.text ++ t) ((i, d.text) :: caps) :=
  captures_group (head?_exec_decimalRe d ht) rfl hq

end Figures

/-! ## The header -/

section HeaderLine

/-- A text of name characters ends where another character stands. -/
theorem nameChar_separates {r q : Regex Char} {w t : Text}
    (hr : ∀ v ∈ r.lang, ∀ c ∈ v, isNameChar c = true) (hw : w ∈ r.lang)
    (hq : ∀ u, q.exec u ≠ [] → ∃ c u', u = c :: u' ∧ isNameChar c = false)
    (ht : ∃ c t', t = c :: t' ∧ isNameChar c = false) :
    ∀ v u, v ++ u = w ++ t → v ∈ r.lang → q.exec u ≠ [] → u = t := by
  apply unique_of_separator (p := fun c => !isNameChar c)
  · intro v hv c hc
    simp [hr v hv c hc]
  · exact hw
  · simpa using hq
  · simpa using ht

theorem starts_space_paren {q : Regex Char} (u : Text)
    (h : (Regex.seq (opt (chr isWhitespace)) (Regex.seq (chr (· = '(')) q)).exec u ≠ []) :
    ∃ c u', u = c :: u' ∧ (isWhitespace c = true ∨ c = '(') := by
  obtain ⟨v, u', rfl, hv, hq⟩ := of_exec_seq_ne_nil h
  rcases hv with ⟨c, hc, rfl⟩ | rfl
  · exact ⟨c, u', rfl, .inl hc⟩
  · obtain ⟨c, u'', rfl, hc, -⟩ := of_exec_chr_ne_nil hq
    exact ⟨c, u'', rfl, .inr (of_decide_eq_true hc)⟩

theorem isNameChar_of_space_paren {c : Char} (h : isWhitespace c = true ∨ c = '(') :
    isNameChar c = false := by
  rcases h with h | rfl
  · simp [isNameChar, h]
  · rfl

theorem starts_no_nameChar {q : Regex Char} (u : Text)
    (h : (Regex.seq (opt (chr isWhitespace)) (Regex.seq (chr (· = '(')) q)).exec u ≠ []) :
    ∃ c u', u = c :: u' ∧ isNameChar c = false := by
  obtain ⟨c, u', rfl, hc⟩ := starts_space_paren u h
  exact ⟨c, u', rfl, isNameChar_of_space_paren hc⟩

theorem captures_opt_space {q : Regex Char} {s : Text} {caps : List (ℕ × Text)}
    (hq : Captures q s caps) : Captures (Regex.seq (opt (chr isWhitespace)) q) (' ' :: s) caps := by
  have hfirst : ((opt (chr isWhitespace)).exec (' ' :: s)).head? = some ⟨[' '], [], s⟩ := rfl
  exact captures_first hfirst hq

theorem captures_opt_no_space {q : Regex Char} {s : Text} {caps : List (ℕ × Text)}
    (hq : Captures q ('(' :: s) caps) :
    Captures (Regex.seq (opt (chr isWhitespace)) q) ('(' :: s) caps := by
  have hfirst : ((opt (chr isWhitespace)).exec ('(' :: s)).head? = some ⟨[], [], '(' :: s⟩ := rfl
  exact captures_first hfirst hq

/-- The host up to the first parenthesis. -/
theorem captures_host {q : Regex Char} (host : Host) {t : Text} {caps : List (ℕ × Text)}
    (ht : ∃ c t', t = c :: t' ∧ isNameChar c = false)
    (hq : Captures (Regex.seq (opt (chr isWhitespace)) (Regex.seq (chr (· = '(')) q)) t caps) :
    Captures (Regex.seq (group 1 (star false (chr isNameChar)))
      (Regex.seq (opt (chr isWhitespace)) (Regex.seq (chr (· = '(')) q))) (host.val ++ t)
      ((1, host.val) :: caps) := by
  have hmem : host.val ∈ (star false (chr isNameChar)).lang := mem_lang_star_chr host.property
  exact captures_group_unique trivial hmem
    (nameChar_separates (fun v hv => of_mem_lang_star_chr hv) hmem starts_no_nameChar ht) hq

/-- The address up to the closing parenthesis. -/
theorem captures_addr (h : Header) (s : Text) :
    Captures (concat [group 2 (plus false (chr isNameChar)), chr (· = ')')])
      (h.addr.val ++ ')' :: s) [(2, h.addr.val)] := by
  have hmem : h.addr.val ∈ (plus false (chr isNameChar)).lang :=
    mem_lang_plus_chr h.addr_ne_nil h.addr.property
  refine captures_group_unique ⟨trivial, trivial⟩ hmem ?_ ?_
  · refine nameChar_separates (fun v hv => (of_mem_lang_plus_chr hv).2) hmem ?_
      ⟨')', s, rfl, rfl⟩
    apply starts_chr
    intro c hc
    simp [isNameChar, of_decide_eq_true hc]
  · exact captures_chr rfl (captures_empty s)

/-- `(?:[^()\s]+\s?\()?`. -/
abbrev innerNameRe : Regex Char :=
  opt (concat [plus true (chr isNameChar), opt (chr isWhitespace), chr (· = '(')])

/-- No name stands before the closing parenthesis. -/
theorem head?_exec_no_name {addr : Host} (hne : addr.val ≠ []) (s : Text) :
    (innerNameRe.exec (addr.val ++ ')' :: s)).head? = some ⟨[], [], addr.val ++ ')' :: s⟩ := by
  have hmem : addr.val ∈ (plus true (chr isNameChar)).lang := mem_lang_plus_chr hne addr.property
  have hnone : (concat [plus true (chr isNameChar), opt (chr isWhitespace),
      chr (· = '(')]).exec (addr.val ++ ')' :: s) = [] := by
    by_contra hmatch
    obtain ⟨v, u, heq, hv, hu⟩ := of_exec_seq_ne_nil hmatch
    obtain rfl : u = ')' :: s :=
      nameChar_separates (fun v hv => (of_mem_lang_plus_chr hv).2) hmem starts_no_nameChar
        ⟨')', s, rfl, rfl⟩ v u heq hv hu
    obtain ⟨c, u', hcons, hc⟩ := starts_space_paren _ hu
    obtain ⟨rfl, -⟩ := List.cons.inj hcons
    exact absurd hc (by decide)
  rw [innerNameRe, opt, exec, hnone]
  rfl

theorem head?_exec_name {name : Host} (hne : name.val ≠ []) (s : Text) :
    (innerNameRe.exec (name.val ++ ' ' :: '(' :: s)).head? =
      some ⟨name.val ++ [' ', '('], [], s⟩ := by
  have hrun := head?_exec_run_plus (c := ' ') (s := '(' :: s) hne name.property rfl
  have hparen : ((concat [opt (chr isWhitespace), chr (· = '(')]).exec (' ' :: '(' :: s)).head? =
      some ⟨[' ', '('], [], s⟩ := rfl
  rw [innerNameRe, opt, exec, List.head?_append]
  have hall := head?_exec_seq_first hrun hparen
  rw [concat, hall]
  rfl

theorem captures_header (h : Header) :
    Captures headerRe h.text [(1, h.host.val), (2, h.addr.val)] := by
  unfold Header.text
  cases hname : h.name with
  | none =>
    have htext : "PING ".toList ++ h.host.val ++ " (".toList ++ h.addr.val ++ ")".toList ++
        h.rest.val = "PING".toList ++ ' ' :: (h.host.val ++ ' ' :: '(' ::
          (h.addr.val ++ ')' :: h.rest.val)) := by simp
    simp only [htext]
    refine captures_lit (captures_chr rfl (captures_host h.host ⟨' ', _, rfl, rfl⟩ ?_))
    refine captures_opt_space (captures_chr rfl ?_)
    exact captures_first (head?_exec_no_name h.addr_ne_nil h.rest.val) (captures_addr h h.rest.val)
  | some name =>
    have htext : "PING ".toList ++ h.host.val ++ "(".toList ++ name.val ++ " (".toList ++
        h.addr.val ++ "))".toList ++ h.rest.val = "PING".toList ++ ' ' :: (h.host.val ++ '(' ::
          (name.val ++ ' ' :: '(' :: (h.addr.val ++ ')' :: ')' :: h.rest.val))) := by simp
    simp only [htext]
    refine captures_lit (captures_chr rfl (captures_host h.host ⟨'(', _, rfl, rfl⟩ ?_))
    refine captures_opt_no_space (captures_chr rfl ?_)
    exact captures_first (head?_exec_name (h.name_ne_nil name hname) _)
      (captures_addr h (')' :: h.rest.val))

end HeaderLine

/-! ## The lines of the packets -/

section PacketLines
variable {classes : UnicodeClasses}

/-- A colon before a space and a letter, where only one stands. -/
theorem colon_split {u v w rest : Text} {c : Char} (hc : c ≠ ':')
    (hw : ∀ x y, w ≠ x ++ ':' :: ' ' :: c :: y) (hrest : ':' ∉ rest)
    (h : v ++ ':' :: ' ' :: c :: u = w ++ ':' :: ' ' :: rest) :
    ':' :: ' ' :: c :: u = ':' :: ' ' :: rest := by
  rcases List.append_eq_append_iff.mp h with ⟨x, rfl, hx⟩ | ⟨y, rfl, hy⟩
  · match x, hx with
    | [], hx => exact hx
    | [a], hx => simp at hx
    | [a, b], hx =>
      simp only [List.cons_append, List.nil_append, List.cons.injEq] at hx
      exact absurd hx.2.2.1 hc
    | a :: b :: d :: x, hx =>
      simp only [List.cons_append, List.cons.injEq] at hx
      obtain ⟨rfl, rfl, rfl, -⟩ := hx
      exact absurd rfl (hw v x)
  · cases y with
    | nil => exact hy.symm
    | cons a y =>
      have hmem : ':' ∈ ' ' :: rest := by
        rw [(List.cons.inj hy).2]
        simp
      simp [hrest] at hmem

theorem notMem_printed {c : Char} (n : ℕ) (h : c.isDigit = false) : c ∉ printed n := by
  intro hc
  rw [isDigit_printed hc] at h
  cases h

theorem notMem_decimal {c : Char} (d : Decimal) (h : c.isDigit = false) (hpoint : c ≠ '.') :
    c ∉ d.text := by
  intro hc
  rcases Decimal.mem_text hc with hd | rfl
  · rw [hd] at h
    cases h
  · exact hpoint rfl

theorem notMem_host {c : Char} (host : Host) (h : isNameChar c = false) : c ∉ host.val := by
  intro hc
  rw [host.property c hc] at h
  cases h

/-- `(.*?)(?:\s\([^)]*\))?`. -/
abbrev sourceRe : Regex Char :=
  Regex.seq (group 1 (star false anyChar))
    (opt (concat [chr isWhitespace, chr (· = '('), star true (chr (· ≠ ')')), chr (· = ')')]))

theorem host_mem_lang (host : Host) : host.val ∈ (group 1 (star false anyChar)).lang := by
  have hline : ∀ c ∈ host.val, decide (c ≠ '\n') = true := by
    intro c hc
    apply decide_eq_true
    rintro rfl
    exact notMem_host host rfl hc
  have hlang : host.val ∈ (star false anyChar).lang := mem_lang_star_chr hline
  exact hlang

theorem source_mem_lang (r : Reply) : r.source ∈ sourceRe.lang := by
  unfold Reply.source
  cases r.addr with
  | none =>
    rw [← List.append_nil r.host.val]
    exact Language.append_mem_mul (host_mem_lang r.host) (Or.inr rfl)
  | some addr =>
    have haddr : ∀ c ∈ addr.val, decide (c ≠ ')') = true := by
      intro c hc
      apply decide_eq_true
      rintro rfl
      exact notMem_host addr rfl hc
    have hparen : " (".toList ++ addr.val ++ ")".toList ∈
        (concat [chr isWhitespace, chr (· = '('), star true (chr (· ≠ ')')), chr (· = ')')]).lang := by
      refine mem_lang_concat_cons.mpr ⟨[' '], ⟨' ', rfl, rfl⟩, '(' :: addr.val ++ [')'], ?_, by simp⟩
      refine mem_lang_concat_cons.mpr ⟨['('], ⟨'(', rfl, rfl⟩, addr.val ++ [')'], ?_, by simp⟩
      refine mem_lang_concat_cons.mpr ⟨addr.val, mem_lang_star_chr haddr, [')'], ?_, rfl⟩
      exact mem_lang_concat_cons.mpr ⟨[')'], ⟨')', rfl, rfl⟩, [], rfl, rfl⟩
    simp only [List.append_assoc] at hparen ⊢
    exact Language.append_mem_mul (host_mem_lang r.host) (Or.inl hparen)

/-- A colon and a space in the source stand before a parenthesis. -/
theorem source_colon (r : Reply) {x y : Text} {c : Char} (hc : c ≠ '(') :
    r.source ≠ x ++ ':' :: ' ' :: c :: y := by
  unfold Reply.source
  have hspace : ∀ host : Host, ' ' ∉ host.val := fun host => notMem_host host rfl
  cases r.addr with
  | none =>
    intro h
    apply hspace r.host
    simp only at h
    simp [h]
  | some addr =>
    intro h
    have hsplit : r.host.val ++ ' ' :: ('(' :: (addr.val ++ [')'])) =
        (x ++ [':']) ++ ' ' :: (c :: y) := by simpa using h
    have hback : ' ' ∉ '(' :: (addr.val ++ [')']) := by simp [hspace addr]
    obtain ⟨-, -, htail⟩ := (List.append_cons_inj_of_notMem (hspace r.host) hback).mp hsplit
    exact hc (List.cons.inj htail).1.symm

/-- What follows the source in `packetRe`. -/
abbrev afterSource (classes : UnicodeClasses) : Regex Char :=
  concat [lit ": ".toList, opt (lit "icmp_".toList), lit "seq=".toList, digits classes,
    lit " ttl=".toList, group 2 (digits classes), lit " time=".toList,
    group 3 (decimalRe classes), lit " ms".toList]

theorem starts_afterSource {u : Text} (h : (afterSource classes).exec u ≠ []) :
    ∃ c u', u = ':' :: ' ' :: c :: u' ∧ (c = 'i' ∨ c = 's') := by
  obtain ⟨u₁, rfl, h₁⟩ := of_exec_lit_ne_nil h
  obtain ⟨v, u₂, rfl, hv, h₂⟩ := of_exec_seq_ne_nil h₁
  rcases hv with hv | rfl
  · rw [eq_of_mem_lang_lit hv]
    exact ⟨'i', _, rfl, .inl rfl⟩
  · obtain ⟨u₃, rfl, -⟩ := of_exec_lit_ne_nil h₂
    exact ⟨'s', _, rfl, .inr rfl⟩

def Reply.afterSource (r : Reply) : Text :=
  "icmp_".toList ++ ("seq=".toList ++ (printed r.seq ++ (" ttl=".toList ++ (printed r.ttl ++
    (" time=".toList ++ (r.time.text ++ (" ms".toList ++
      if r.duplicate then " (DUP!)".toList else [])))))))

theorem Reply.text_eq (r : Reply) : r.text = printed r.bytes ++ (" bytes from ".toList ++
    (r.source ++ (": ".toList ++ r.afterSource))) := by
  have hseq : ": icmp_seq=".toList = ": ".toList ++ "icmp_".toList ++ "seq=".toList := rfl
  unfold Reply.text Reply.afterSource
  simp only [hseq, List.append_assoc]

theorem colon_notMem_afterSource (r : Reply) : ':' ∉ r.afterSource := by
  have hflag : ':' ∉ if r.duplicate then " (DUP!)".toList else [] := by
    cases r.duplicate <;> decide
  have hseq := notMem_printed (c := ':') r.seq rfl
  have httl := notMem_printed (c := ':') r.ttl rfl
  have htime := notMem_decimal (c := ':') r.time rfl (by decide)
  unfold Reply.afterSource
  simp only [List.mem_append, hseq, httl, htime, hflag]
  decide

theorem captures_afterSource (r : Reply) :
    Captures (afterSource classes) (": ".toList ++ r.afterSource)
      [(2, printed r.ttl), (3, r.time.text)] := by
  have hopt : ∀ s, ((opt (lit "icmp_".toList)).exec ("icmp_".toList ++ s)).head? =
      some ⟨"icmp_".toList, [], s⟩ := by
    intro s
    rw [opt, exec, exec_lit, if_pos (List.prefix_append _ _), List.drop_left]
    rfl
  refine captures_lit (captures_first (hopt _) (captures_lit ?_))
  refine captures_skip_digits r.seq (endsNumber_cons (by decide) _) (captures_lit ?_)
  refine captures_digits r.ttl (endsNumber_cons (by decide) _) (captures_lit ?_)
  refine captures_decimal r.time (endsNumber_cons (by decide) _) (captures_lit ?_)
  exact captures_empty _

/-- The source is the text before the only colon that a sequence number follows. -/
theorem captures_source (r : Reply) : ∃ caps,
    Captures (Regex.seq sourceRe (afterSource classes)) (r.source ++ (": ".toList ++ r.afterSource))
      (caps ++ [(2, printed r.ttl), (3, r.time.text)]) := by
  have hunique : ∀ v u, v ++ u = r.source ++ (": ".toList ++ r.afterSource) →
      v ∈ sourceRe.lang → (afterSource classes).exec u ≠ [] → u = ": ".toList ++ r.afterSource := by
    intro v u heq _ hu
    obtain ⟨c, u', rfl, hc⟩ := starts_afterSource hu
    have hletter : c ≠ ':' ∧ c ≠ '(' := by rcases hc with rfl | rfl <;> decide
    exact colon_split hletter.1 (fun x y => source_colon r hletter.2)
      (colon_notMem_afterSource r) heq
  obtain ⟨m, -, -, hcaps⟩ :=
    captures_unique (source_mem_lang r) hunique (captures_afterSource r)
  exact ⟨m.caps, hcaps⟩

theorem parsePacketLine_reply (r : Reply) :
    parsePacketLine classes r.text = some ⟨.finite r.time.value, r.ttl⟩ := by
  obtain ⟨caps, hsource⟩ : ∃ caps, Captures (Regex.seq sourceRe (afterSource classes))
      (r.source ++ (": ".toList ++ r.afterSource))
      (caps ++ [(2, printed r.ttl), (3, r.time.text)]) := captures_source r
  have hall : Captures (packetRe classes) r.text
      (caps ++ [(2, printed r.ttl), (3, r.time.text)]) := by
    rw [r.text_eq]
    refine captures_skip_digits r.bytes (endsNumber_cons (by decide) _) (captures_lit ?_)
    exact captures_assoc hsource
  obtain ⟨m, hm, hmcaps⟩ := hall
  have httl : m.get 2 = some (printed r.ttl) := by simp [Match.get, hmcaps, List.lookup_cons]
  have htime : m.get 3 = some r.time.text := by simp [Match.get, hmcaps]
  have hparse : parseUnsigned 32 (printed r.ttl) = some r.ttl := parseUnsigned_toDigits r.ttl_lt
  simp [parsePacketLine, hm, httl, htime, hparse, Decimal.parse_text]

/-- A line that does not start with a figure reports no packet. -/
theorem parsePacketLine_of_head {line : Text} (h : ∀ c ∈ line.head?, classes.digit c = false) :
    parsePacketLine classes line = none := by
  have hnone : (packetRe classes).exec line = [] := by
    apply exec_eq_nil_of_start (P := fun c => classes.digit c = true)
    · exact starts_seq fun _ hv => of_mem_lang_plus_chr hv
    · intro c hc
      simp [h c hc]
  simp [parsePacketLine, hnone]

theorem parsePacketLine_text (p : PacketLine) : parsePacketLine classes p.text = p.timing := by
  cases p with
  | reply r => exact parsePacketLine_reply r
  | noAnswer n =>
    apply parsePacketLine_of_head
    intro c hc
    obtain rfl : 'n' = c := Option.some.inj hc
    exact classes.digit_eq_false (by decide) rfl
  | error message =>
    apply parsePacketLine_of_head
    intro c hc
    obtain rfl : 'F' = c := Option.some.inj hc
    exact classes.digit_eq_false (by decide) rfl

end PacketLines

end GlobalpingProbe.Command.Ping
