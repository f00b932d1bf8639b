import GlobalpingProbe.Command.Traceroute.Parse
import GlobalpingProbe.Foundation.Decimal
import GlobalpingProbe.Foundation.Unambiguous
import GlobalpingProbe.Net.DottedQuad
import GlobalpingProbe.Net.IpLiteral

/-! # The line of a hop

A hop line lists the hosts that answered with their addresses, the times with their marks and the
probes without an answer. The search for a host finds the first one whose address it can read.
-/
namespace GlobalpingProbe.Command.Traceroute
open Foundation Regex Net

def isResponderChar (c : Char) : Bool := c ≠ '(' && c ≠ ')' && !isWhitespace c

/-- A host that answered, with its address and the zone of the address if it has one. -/
structure Responder where
  host : Text
  ip : Text
  zone : Option Text
  host_ne_nil : host ≠ []
  isResponderChar_host : ∀ c ∈ host, isResponderChar c = true
  ip_parses : ∃ addr, parseIpAddr ip = some addr
  zone_ne_nil : ∀ z ∈ zone, z ≠ []
  isResponderChar_zone : ∀ z ∈ zone, ∀ c ∈ z, isResponderChar c = true

def zoneText : Option Text → Text
  | none => []
  | some z => '%' :: z

/-- `(ip)`. -/
def Responder.address (r : Responder) : Text := '(' :: (r.ip ++ (zoneText r.zone ++ [')']))

/-- `host (ip)`. -/
def Responder.text (r : Responder) : Text := r.host ++ ' ' :: r.address

/-- A mark behind a time, such as `!H`, that does not end in a number. -/
structure Flag where
  front : Text
  last : Char
  visible : ∀ c ∈ '!' :: front ++ [last], isWhitespace c = false
  last_plain : last.toNat < 128 ∧ last.isDigit = false ∧ last ≠ '.'

def Flag.text (f : Flag) : Text := '!' :: f.front ++ [f.last]

inductive HopPart where
  | star
  | flag (mark : Flag)
  | rtt (time : Decimal)
  | responder (r : Responder)

def HopPart.text : HopPart → Text
  | star => ['*']
  | flag mark => mark.text
  | rtt time => time.text ++ ' ' :: "ms".toList
  | responder r => r.text

/-- A part of a hop line, behind a gap of one space and more. -/
structure HopItem where
  gap : ℕ
  part : HopPart

def HopItem.text (item : HopItem) : Text := List.replicate (item.gap + 1) ' ' ++ item.part.text

def itemsText (items : List HopItem) : Text := items.flatMap HopItem.text

/-- The line of the first hop. -/
def firstHopLine (items : List HopItem) : Text := ' ' :: '1' :: itemsText items

/-- The address is not an IPv6 address with an IPv4 address at its end, and the zone is a word. -/
def Responder.Readable (classes : UnicodeClasses) (r : Responder) : Prop :=
  ('.' ∉ r.ip ∨ ':' ∉ r.ip) ∧ ∀ z ∈ r.zone, ∀ c ∈ z, classes.word c = true

instance (classes : UnicodeClasses) (r : Responder) : Decidable (r.Readable classes) :=
  inferInstanceAs (Decidable (_ ∧ _))

def responders (items : List HopItem) : List Responder :=
  items.filterMap (fun item => match item.part with
    | .responder r => some r
    | .star | .flag _ | .rtt _ => none)

/-! ## The address of a responder -/

section Address
variable {classes : UnicodeClasses} {c : Char} {s t : Text}

/-- `((?:\d+\.){3}\d+|[\da-fA-F:]+)`. -/
abbrev addressRe (classes : UnicodeClasses) : Regex Char :=
  let number := plus true (chr classes.digit)
  let dotted := concat [number, chr (· = '.')]
  alt (concat [dotted, dotted, dotted, number]) (plus true (chr (isIpv6Char classes)))

/-- What stands behind the parenthesis. -/
abbrev inParens (classes : UnicodeClasses) : Regex Char :=
  concat [group 3 (addressRe classes), scopeId classes, chr (· = ')')]

/-- What stands behind the host. -/
abbrev behindHost (classes : UnicodeClasses) : Regex Char :=
  Regex.seq (group 2 (plus true (chr isWhitespace))) (Regex.seq (chr (· = '(')) (inParens classes))

theorem isIpv6Char_eq_false (h : c.toNat < 128)
    (hc : (c.isDigit || ('a' ≤ c && c ≤ 'f') || ('A' ≤ c && c ≤ 'F') || c = ':') = false) :
    isIpv6Char classes c = false := by
  rw [isIpv6Char, classes.digit_ascii c h, hc]

theorem isDigit_of_isDigitOf (h : isDigitOf 10 c = true) : c.isDigit = true := by
  obtain ⟨d, hd⟩ := Option.isSome_iff_exists.mp h
  obtain ⟨hcode, hlt⟩ := Option.filter_eq_some_iff.mp hd
  have hlt : d < 10 := of_decide_eq_true hlt
  unfold digitCode at hcode
  split_ifs at hcode with hdigit
  · exact hdigit
  · have hd := Option.some.inj hcode
    omega
  · have hd := Option.some.inj hcode
    omega

theorem isIpv6Char_of_isDigitOf (h : isDigitOf 16 c = true) : isIpv6Char classes c = true := by
  obtain ⟨d, hd⟩ := Option.isSome_iff_exists.mp h
  obtain ⟨hcode, hlt⟩ := Option.filter_eq_some_iff.mp hd
  have hlt : d < 16 := of_decide_eq_true hlt
  have hnat : c.toNat = c.val.toNat := rfl
  unfold digitCode at hcode
  unfold isIpv6Char
  split_ifs at hcode with hdigit hlower hupper
  · simp [classes.digit_of_isDigit hdigit]
  · have hd := Option.some.inj hcode
    have ha : 'a'.toNat = 97 := rfl
    have hlow : 'a' ≤ c := of_decide_eq_true (Bool.and_eq_true_iff.mp hlower).1
    have hhigh : c ≤ 'f' := by
      rw [Char.le_def, UInt32.le_iff_toNat_le, ← hnat]
      have hf : 'f'.val.toNat = 102 := rfl
      omega
    simp [hlow, hhigh]
  · have hd := Option.some.inj hcode
    have hA : 'A'.toNat = 65 := rfl
    have hlow : 'A' ≤ c := (of_decide_eq_true hupper).1
    have hhigh : c ≤ 'F' := by
      rw [Char.le_def, UInt32.le_iff_toNat_le, ← hnat]
      have hF : 'F'.val.toNat = 70 := rfl
      omega
    simp [hlow, hhigh]

theorem mem_lang_addressRe {r : Responder} (h : '.' ∉ r.ip ∨ ':' ∉ r.ip) :
    r.ip ∈ (addressRe classes).lang := by
  obtain ⟨addr, haddr⟩ := r.ip_parses
  by_cases hcolon : ':' ∈ r.ip
  · have hchars : ∀ c ∈ r.ip, isIpv6Char classes c = true := by
      intro c hc
      have hliteral := isLiteralChar_of_parseIpAddr haddr c hc
      simp only [isLiteralChar, Bool.or_eq_true, decide_eq_true_eq] at hliteral
      rcases hliteral with (hhex | rfl) | rfl
      · exact isIpv6Char_of_isDigitOf hhex
      · simp [isIpv6Char]
      · exact absurd hc (h.resolve_right (not_not_intro hcolon))
    exact .inr (mem_lang_plus_chr (ne_nil_of_parseIpAddr haddr) hchars)
  · have hnumber : ∀ {n}, IsNumber n → n ∈ (plus true (chr classes.digit)).lang :=
      fun hn => mem_lang_plus_chr hn.1
        (fun c hc => classes.digit_of_isDigit (isDigit_of_isDigitOf (hn.2 c hc)))
    have hdotted : ∀ {n}, IsNumber n →
        n ++ ['.'] ∈ (concat [plus true (chr classes.digit), chr (· = '.')]).lang :=
      fun hn => mem_lang_concat_cons.mpr ⟨_, hnumber hn, ['.'],
        mem_lang_concat_cons.mpr ⟨['.'], ⟨'.', rfl, rfl⟩, [], rfl, rfl⟩, rfl⟩
    obtain ⟨a, b, c, d, hip, ha, hb, hc, hd⟩ := dottedQuad_of_parseIpAddr hcolon haddr
    refine .inl (mem_lang_concat_cons.mpr ⟨_, hdotted ha, _, mem_lang_concat_cons.mpr
      ⟨_, hdotted hb, _, mem_lang_concat_cons.mpr ⟨_, hdotted hc, _,
        mem_lang_concat_cons.mpr ⟨_, hnumber hd, [], rfl, rfl⟩, rfl⟩, rfl⟩, ?_⟩)
    simp [hip]

/-- The characters of an IPv4 address or those of an IPv6 address. -/
theorem chars_of_addressRe {v : Text} (h : v ∈ (addressRe classes).lang) :
    (∀ c ∈ v, c = '.' ∨ classes.digit c = true) ∨ ∀ c ∈ v, isIpv6Char classes c = true := by
  rcases h with h | h
  · have hdigit : ∀ c, classes.digit c = true → c = '.' ∨ classes.digit c = true :=
      fun c hc => .inr hc
    have hdotted : (concat [plus true (chr classes.digit), chr (· = '.')]).Over
        (fun c => c = '.' ∨ classes.digit c = true) :=
      ⟨⟨hdigit, hdigit⟩, fun c hc => .inl (of_decide_eq_true hc), trivial⟩
    have hquad : (concat [concat [plus true (chr classes.digit), chr (· = '.')],
        concat [plus true (chr classes.digit), chr (· = '.')],
        concat [plus true (chr classes.digit), chr (· = '.')],
        plus true (chr classes.digit)]).Over (fun c => c = '.' ∨ classes.digit c = true) :=
      ⟨hdotted, hdotted, hdotted, ⟨hdigit, hdigit⟩, trivial⟩
    exact .inl (of_mem_lang hquad v h)
  · have hchars : (plus true (chr (isIpv6Char classes))).Over
        (fun c => isIpv6Char classes c = true) := ⟨fun c hc => hc, fun c hc => hc⟩
    exact .inr (of_mem_lang hchars v h)

theorem notMem_of_addressRe {v : Text} (h : v ∈ (addressRe classes).lang) (hc : c.toNat < 128)
    (hother : (c.isDigit || ('a' ≤ c && c ≤ 'f') || ('A' ≤ c && c ≤ 'F') || c = ':') = false)
    (hdot : c ≠ '.') : c ∉ v := by
  intro hmem
  rcases chars_of_addressRe h with hchars | hchars
  · have hdigit : classes.digit c = false := by
      apply classes.digit_eq_false hc
      simp only [Bool.or_eq_false_iff] at hother
      exact hother.1.1.1
    rcases hchars c hmem with heq | htrue
    · exact hdot heq
    · rw [hdigit] at htrue
      cases htrue
  · have htrue := hchars c hmem
    rw [isIpv6Char_eq_false hc hother] at htrue
    cases htrue

theorem unmixed_of_addressRe {v : Text} (h : v ∈ (addressRe classes).lang) :
    '.' ∉ v ∨ ':' ∉ v := by
  rcases chars_of_addressRe h with hchars | hchars
  · right
    intro hmem
    rcases hchars ':' hmem with heq | htrue
    · cases heq
    · rw [classes.digit_eq_false (by decide) (by decide)] at htrue
      cases htrue
  · left
    intro hmem
    have htrue := hchars '.' hmem
    rw [isIpv6Char_eq_false (by decide) (by decide)] at htrue
    cases htrue

/-! ## The text in the parentheses -/

/-- What stands behind the address in the expression. -/
abbrev zoneRe (classes : UnicodeClasses) : Regex Char := concat [scopeId classes, chr (· = ')')]

theorem of_mem_lang_scopeId {v : Text} (h : v ∈ (scopeId classes).lang) :
    v = [] ∨ ∃ z, v = '%' :: z ∧ ∀ c ∈ z, classes.word c = true := by
  rcases h with h | h
  · obtain ⟨x, ⟨d, hd, rfl⟩, y, hy, rfl⟩ := mem_lang_concat_cons.mp h
    obtain ⟨z, hz, e, rfl, rfl⟩ := mem_lang_concat_cons.mp hy
    rw [of_decide_eq_true hd, List.append_nil]
    exact .inr ⟨z, rfl, (of_mem_lang_plus_chr hz).2⟩
  · exact .inl h

theorem starts_zoneRe (u : Text) (h : (zoneRe classes).exec u ≠ []) :
    ∃ c u', u = c :: u' ∧ (c = '%' ∨ c = ')') := by
  obtain ⟨v, u', rfl, hv, hq⟩ := of_exec_seq_ne_nil h
  rcases of_mem_lang_scopeId hv with rfl | ⟨z, rfl, -⟩
  · obtain ⟨c, u'', rfl, hc, -⟩ := of_exec_chr_ne_nil hq
    exact ⟨c, u'', rfl, .inr (of_decide_eq_true hc)⟩
  · exact ⟨'%', z ++ u', rfl, .inl rfl⟩

theorem head?_exec_zoneRe {zone : Option Text} (hne : ∀ z ∈ zone, z ≠ [])
    (hword : ∀ z ∈ zone, ∀ c ∈ z, classes.word c = true) (s : Text) :
    ((zoneRe classes).exec (zoneText zone ++ ')' :: s)).head? =
      some ⟨zoneText zone ++ [')'], [], s⟩ := by
  have hclose : ((concat [chr (fun c => decide (c = ')'))]).exec (')' :: s)).head? =
      some ⟨[')'], [], s⟩ := by simp [concat, exec, Match.append, Match.stop]
  cases zone with
  | none =>
    have hscope : ((scopeId classes).exec (')' :: s)).head? = some ⟨[], [], ')' :: s⟩ := by
      simp [scopeId, opt, concat, exec, Match.stop]
    exact head?_exec_seq_first hscope hclose
  | some z =>
    have hparen : classes.word ')' = false := classes.word_eq_false (by decide) (by decide)
    have hrun := head?_exec_run_plus (s := s) (hne z rfl) (hword z rfl) hparen
    have hstop : ((concat []).exec (')' :: s)).head? =
        some (Match.stop (')' :: s)) := rfl
    have hpercent : ((chr (fun c => decide (c = '%'))).exec ('%' :: (z ++ ')' :: s))).head? =
        some ⟨['%'], [], z ++ ')' :: s⟩ := by simp [exec]
    have hscope : ((scopeId classes).exec ('%' :: (z ++ ')' :: s))).head? =
        some ⟨'%' :: z, [], ')' :: s⟩ := by
      have hzone := head?_exec_seq_first hpercent (head?_exec_seq_first hrun hstop)
      rw [scopeId, opt, exec, List.head?_append]
      simp only [concat] at hzone ⊢
      rw [hzone]
      simp [Match.append, Match.stop]
    exact head?_exec_seq_first hscope hclose

/-- A zone that the expression takes is a word. -/
theorem word_of_exec_zoneRe {zone : Option Text} (hzone : ∀ z ∈ zone, ')' ∉ z) {s : Text}
    (h : (zoneRe classes).exec (zoneText zone ++ ')' :: s) ≠ []) :
    ∀ z ∈ zone, ∀ c ∈ z, classes.word c = true := by
  rintro z rfl
  obtain ⟨v, u, heq, hv, hq⟩ := of_exec_seq_ne_nil h
  obtain ⟨d, u', rfl, hd, -⟩ := of_exec_chr_ne_nil hq
  obtain rfl : d = ')' := of_decide_eq_true hd
  rcases of_mem_lang_scopeId hv with rfl | ⟨w, rfl, hw⟩
  · obtain ⟨hparen, -⟩ := List.cons.inj heq
    cases hparen
  · have hparen : ')' ∉ w := by
      intro hmem
      have hword := hw ')' hmem
      rw [classes.word_eq_false (by decide) (by decide)] at hword
      cases hword
    have hrest : w ++ ')' :: u' = z ++ ')' :: s := (List.cons.inj heq).2
    have hsame : w = z := by
      rw [← takeWhile_ne ')' w u' hparen, hrest, takeWhile_ne ')' z s (hzone z rfl)]
    rwa [← hsame]

variable {r : Responder}

theorem paren_notMem_zone (r : Responder) : ∀ z ∈ r.zone, ')' ∉ z :=
  fun z hz hmem => absurd (r.isResponderChar_zone z hz ')' hmem) (by decide)

/-- The address ends where the zone or the parenthesis starts. -/
theorem address_unique (r : Responder) (s : Text) : ∀ v u,
    v ++ u = r.ip ++ (zoneText r.zone ++ ')' :: s) → v ∈ (addressRe classes).lang →
      (zoneRe classes).exec u ≠ [] → u = zoneText r.zone ++ ')' :: s := by
  obtain ⟨addr, haddr⟩ := r.ip_parses
  apply unique_of_head
  · intro v hv c hc
    cases hzone : r.zone with
    | none =>
      obtain rfl : ')' = c := by simpa [hzone, zoneText] using hc
      exact notMem_of_addressRe hv (by decide) (by decide) (by decide)
    | some z =>
      obtain rfl : '%' = c := by simpa [hzone, zoneText] using hc
      exact notMem_of_addressRe hv (by decide) (by decide) (by decide)
  · intro u hu
    obtain ⟨c, u', rfl, hc⟩ := starts_zoneRe u hu
    refine ⟨c, u', rfl, notMem_of_parseIpAddr haddr ?_⟩
    rcases hc with rfl | rfl <;> decide

theorem head?_exec_inParens (hr : r.Readable classes) (s : Text) :
    ((inParens classes).exec (r.ip ++ (zoneText r.zone ++ ')' :: s))).head? =
      some ⟨r.ip ++ (zoneText r.zone ++ [')']), [(3, r.ip)], s⟩ := by
  have hplain : (addressRe classes).Plain := by simp [concat, plus, Plain]
  have hzone := head?_exec_zoneRe r.zone_ne_nil hr.2 s
  have hgroup := head?_exec_group (i := 3) hplain (mem_lang_addressRe hr.1) (address_unique r s)
  rw [hzone] at hgroup
  exact hgroup

theorem exec_inParens (hr : ¬ r.Readable classes) (s : Text) :
    (inParens classes).exec (r.ip ++ (zoneText r.zone ++ ')' :: s)) = [] := by
  by_contra h
  obtain ⟨v, u, heq, hv, hq⟩ := of_exec_seq_ne_nil h
  obtain rfl := address_unique r s v u heq hv hq
  obtain rfl : v = r.ip := List.append_cancel_right heq
  exact hr ⟨unmixed_of_addressRe hv, word_of_exec_zoneRe (paren_notMem_zone r) hq⟩

end Address

/-! ## The host in front of the parentheses -/

section Host
variable {classes : UnicodeClasses} {r : Responder}

theorem starts_behindHost (u : Text) (h : (behindHost classes).exec u ≠ []) :
    ∃ c u', u = c :: u' ∧ isWhitespace c = true :=
  starts_seq (r := group 2 (plus true (chr isWhitespace)))
    (fun _ hv => of_mem_lang_plus_chr hv) u h

theorem of_exec_behindHost {s : Text} (h : (behindHost classes).exec s ≠ []) :
    ∃ u, s.dropWhile isWhitespace = '(' :: u ∧ (inParens classes).exec u ≠ [] := by
  obtain ⟨v, t, rfl, hv, ht⟩ := of_exec_seq_ne_nil h
  obtain ⟨c, u, rfl, hc, hu⟩ := of_exec_chr_ne_nil ht
  obtain rfl : c = '(' := of_decide_eq_true hc
  refine ⟨u, ?_, hu⟩
  rw [List.dropWhile_append_of_pos (of_mem_lang_plus_chr hv).2]
  exact List.dropWhile_cons_of_neg (by decide)

theorem address_append (r : Responder) (s : Text) :
    r.address ++ s = '(' :: (r.ip ++ (zoneText r.zone ++ ')' :: s)) := by
  simp [Responder.address]

theorem head?_exec_behindHost (hr : r.Readable classes) (s : Text) :
    ((behindHost classes).exec (' ' :: (r.address ++ s))).head? =
      some ⟨' ' :: r.address, [(2, [' ']), (3, r.ip)], s⟩ := by
  have hspace : ∀ c ∈ [' '], isWhitespace c = true := fun c hc => by
    rw [List.mem_singleton.mp hc]
    rfl
  have hrun := head?_exec_run_plus (s := r.ip ++ (zoneText r.zone ++ ')' :: s))
    (List.cons_ne_nil ' ' []) hspace (c := '(') (by decide)
  have hgroup : ((group 2 (plus true (chr isWhitespace))).exec
      (' ' :: '(' :: (r.ip ++ (zoneText r.zone ++ ')' :: s)))).head? =
        some ⟨[' '], [(2, [' '])], '(' :: (r.ip ++ (zoneText r.zone ++ ')' :: s))⟩ := by
    rw [exec, List.head?_map]
    exact congrArg _ hrun
  have hparen : ((chr (fun c => decide (c = '('))).exec
      ('(' :: (r.ip ++ (zoneText r.zone ++ ')' :: s)))).head? =
        some ⟨['('], [], r.ip ++ (zoneText r.zone ++ ')' :: s)⟩ := by simp [exec]
  have hinner := head?_exec_seq_first hparen (head?_exec_inParens hr s)
  rw [address_append]
  exact head?_exec_seq_first hgroup hinner

theorem exec_behindHost (hr : ¬ r.Readable classes) (s : Text) :
    (behindHost classes).exec (' ' :: (r.address ++ s)) = [] := by
  by_contra h
  obtain ⟨u, hu, hne⟩ := of_exec_behindHost h
  rw [address_append, List.dropWhile_cons_of_pos (by decide),
    List.dropWhile_cons_of_neg (by decide)] at hu
  obtain ⟨-, rfl⟩ := List.cons.inj hu
  exact hne (exec_inParens hr s)

end Host
end GlobalpingProbe.Command.Traceroute
