import GlobalpingProbe.Command.Traceroute.Gateway
import GlobalpingProbe.Command.Traceroute.PrivateTarget
import GlobalpingProbe.Foundation.EveryMatch
import GlobalpingProbe.Foundation.Lines

/-! # What traceroute prints is what is reported

The output of traceroute is a header and a line for each hop, with the routers that answered,
their times and marks, and a star for each answer that is missing. Parsed, it gives the hops
again: the first router of each, all times in their order, and no name for the router of the
first hop.
-/
namespace GlobalpingProbe.Command.Traceroute
open Foundation Regex

/-! ## The times of a line -/

section Times
variable {classes : UnicodeClasses} {w s : Text}

/-- `(\d+(?:\.\d+)?)`. -/
abbrev timeRe (classes : UnicodeClasses) : Regex Char :=
  let number := plus true (chr classes.digit)
  concat [number, opt (concat [chr (· = '.'), number])]

/-- `\s+ms`. -/
abbrev unitRe : Regex Char := concat [plus true (chr isWhitespace), lit "ms".toList]

theorem timeRe_over : (timeRe classes).Over (fun c => classes.digit c = true ∨ c = '.') := by
  have hdigit : ∀ c, classes.digit c = true → classes.digit c = true ∨ c = '.' :=
    fun c hc => .inl hc
  have hpoint : ∀ c, decide (c = '.') = true → classes.digit c = true ∨ c = '.' :=
    fun c hc => .inr (of_decide_eq_true hc)
  exact ⟨⟨hdigit, hdigit⟩, ⟨⟨hpoint, ⟨hdigit, hdigit⟩, trivial⟩, trivial⟩, trivial⟩

/-- A time has figures and a point and nothing else of ASCII. -/
theorem notMem_timeRe {c : Char} (hc : c.toNat < 128) (hdigit : c.isDigit = false)
    (hpoint : c ≠ '.') : ∀ v ∈ (timeRe classes).lang, c ∉ v := by
  intro v hv hmem
  rcases of_mem_lang timeRe_over v hv c hmem with h | h
  · rw [classes.digit_eq_false hc hdigit] at h
    cases h
  · exact hpoint h

theorem nil_notMem_timeRe : [] ∉ (timeRe classes).lang := by
  intro h
  obtain ⟨u, hu, v, -, huv⟩ := mem_lang_concat_cons.mp h
  exact (of_mem_lang_plus_chr hu).1 (List.append_eq_nil_iff.mp huv).1

theorem nil_notMem_rttRe : [] ∉ (rttRe classes).lang := by
  intro h
  obtain ⟨u, hu, v, -, huv⟩ := mem_lang_concat_cons.mp h
  rw [(List.append_eq_nil_iff.mp huv).1] at hu
  exact nil_notMem_timeRe hu

theorem number_mem_timeRe (hne : w ≠ []) (h : ∀ c ∈ w, c.isDigit = true) :
    w ∈ (timeRe classes).lang := by
  have hnumber : w ∈ (plus true (chr classes.digit)).lang :=
    mem_lang_plus_chr hne (fun c hc => classes.digit_of_isDigit (h c hc))
  exact mem_lang_concat_cons.mpr ⟨w, hnumber, [],
    mem_lang_concat_cons.mpr ⟨[], Or.inr rfl, [], rfl, rfl⟩, List.append_nil w⟩

theorem decimal_mem_timeRe (d : Decimal) : d.text ∈ (timeRe classes).lang := by
  have hdigits : ∀ {u : Text}, u ≠ [] → (∀ c ∈ u, c.isDigit = true) →
      u ∈ (plus true (chr classes.digit)).lang :=
    fun hne h => mem_lang_plus_chr hne (fun c hc => classes.digit_of_isDigit (h c hc))
  unfold Decimal.text
  split_ifs with hfraction
  · exact number_mem_timeRe d.whole_ne_nil d.isDigit_whole
  · have hpoint : '.' :: d.fraction ∈
        (concat [chr (· = '.'), plus true (chr classes.digit)]).lang :=
      Language.append_mem_mul (a := ['.']) ⟨'.', by simp, rfl⟩
        (mem_lang_concat_cons.mpr ⟨_, hdigits hfraction d.isDigit_fraction, [], rfl, by simp⟩)
    exact mem_lang_concat_cons.mpr ⟨d.whole, hdigits d.whole_ne_nil d.isDigit_whole,
      '.' :: d.fraction, mem_lang_concat_cons.mpr ⟨_, .inl hpoint, [], rfl, by simp⟩, rfl⟩

/-- The unit stands behind white space. -/
theorem of_exec_unitRe (h : unitRe.exec s ≠ []) :
    ∃ u, s.dropWhile isWhitespace = "ms".toList ++ u := by
  obtain ⟨v, t, rfl, hv, ht⟩ := of_exec_seq_ne_nil h
  obtain ⟨u, rfl, -⟩ := of_exec_lit_ne_nil ht
  refine ⟨u, ?_⟩
  rw [List.dropWhile_append_of_pos (of_mem_lang_plus_chr hv).2]
  rfl

theorem cutAt_rttRe : CutAt isWhitespace ' ' (group 1 (timeRe classes)) unitRe where
  front := notMem_timeRe (by decide) rfl (by decide)
  rest u hu := starts_seq (r := plus true (chr isWhitespace))
    (fun _ hv => of_mem_lang_plus_chr hv) u hu

/-- The match at a number with the unit behind it. -/
theorem head?_exec_rttRe (hw : w ∈ (timeRe classes).lang)
    (hvisible : ∀ c ∈ w, isWhitespace c = false) (gap : ℕ) (s : Text) :
    ∃ m, ((rttRe classes).exec (w ++ (List.replicate (gap + 1) ' ' ++ ("ms".toList ++ s)))).head? =
      some m ∧ m.rest = s ∧ m.group 1 = w := by
  have hplain : (timeRe classes).Plain :=
    ⟨⟨trivial, trivial⟩, ⟨⟨trivial, ⟨trivial, trivial⟩, trivial⟩, trivial⟩, trivial⟩
  have hgap : ∀ c ∈ List.replicate (gap + 1) ' ', isWhitespace c = true :=
    fun _ => isWhitespace_of_mem_blanks
  have hspaces : ((plus true (chr isWhitespace)).exec
      (List.replicate (gap + 1) ' ' ++ 'm' :: ('s' :: s))).head? =
        some ⟨List.replicate (gap + 1) ' ', [], "ms".toList ++ s⟩ :=
    head?_exec_run_plus (by simp) hgap (by decide)
  have hunit : ((concat [lit "ms".toList]).exec ("ms".toList ++ s)).head? =
      some ⟨"ms".toList, [], s⟩ := by
    rw [concat, concat, exec_seq_empty, exec_lit, if_pos (List.prefix_append _ _), List.drop_left]
    rfl
  have hrest := head?_exec_seq_first hspaces hunit
  have hhead := head?_exec_group (i := 1) hplain hw
    (cutAt_rttRe.unique hvisible (s := List.replicate (gap + 1) ' ' ++ ("ms".toList ++ s))
      (by simp [List.replicate_succ]))
  refine ⟨_, hhead.trans (congrArg _ hrest), rfl, ?_⟩
  simp [Match.append, Match.group, Match.get]

end Times

/-! ## The line of a hop -/

/-- The line of a hop, its number behind a margin. -/
structure HopRow where
  margin : ℕ
  number : ℕ
  items : List HopItem

namespace HopRow

def text (row : HopRow) : Text :=
  List.replicate row.margin ' ' ++ (Nat.toDigits 10 row.number ++ itemsText row.items)

/-- Where the name behind the number starts like the unit, the number is taken for a time. -/
def falseTime (row : HopRow) : Option ℕ :=
  match row.items with
  | ⟨_, .responder r⟩ :: _ => if "ms".toList <+: r.host then some row.number else none
  | _ => none

end HopRow

def HopPart.time? : HopPart → Option Decimal
  | .rtt time => some time
  | .star | .flag _ | .responder _ => none

def times (items : List HopItem) : List Decimal := items.filterMap (fun item => item.part.time?)

/-- The first router of a line whose address can be read. -/
def firstResponder (classes : UnicodeClasses) (items : List HopItem) : Option Responder :=
  (responders items).find? (fun r => r.Readable classes)

/-- What is reported of a hop. -/
def HopRow.hop (classes : UnicodeClasses) (row : HopRow) : TracerouteHop where
  resolvedAddress := (firstResponder classes row.items).map (fun r => r.ip)
  resolvedHostname := (firstResponder classes row.items).map (fun r => r.host)
  timings := row.falseTime.toList.map (fun n => ⟨n⟩) ++ (times row.items).map (fun d => ⟨d.value⟩)

section Numbers

theorem parseDecimal_number (n : ℕ) : parseDecimal (Nat.toDigits 10 n) = some (n : ℚ) := by
  have hpoint : ∀ c ∈ Nat.toDigits 10 n, (c == '.') = false := by
    intro c hc
    apply beq_eq_false_iff_ne.mpr
    rintro rfl
    exact absurd (isDigitOf_toDigits hc) (by decide)
  have hall : (Nat.toDigits 10 n).all (isDigitOf 10) = true :=
    List.all_eq_true.mpr (fun c hc => isDigitOf_toDigits hc)
  have hsplit : (Nat.toDigits 10 n).splitOn '.' = [Nat.toDigits 10 n] :=
    List.splitOnP_eq_singleton hpoint
  rw [parseDecimal, hsplit]
  simp only [hall, if_true, numeralValue_toDigits]

theorem parseDecimal_text (d : Decimal) : parseDecimal d.text = some d.value := by
  have hpoint : ∀ {u : Text}, (∀ c ∈ u, c.isDigit = true) → ∀ c ∈ u, (c == '.') = false := by
    intro u hu c hc
    apply beq_eq_false_iff_ne.mpr
    rintro rfl
    exact absurd (hu '.' hc) (by decide)
  have hdigits : ∀ {u : Text}, (∀ c ∈ u, c.isDigit = true) → u.all (isDigitOf 10) = true :=
    fun hu => List.all_eq_true.mpr (fun c hc => isDigitOf_of_isDigit (hu c hc))
  unfold Decimal.text Decimal.value
  split_ifs with hfraction
  · have hsplit : d.whole.splitOn '.' = [d.whole] :=
      List.splitOnP_eq_singleton (hpoint d.isDigit_whole)
    rw [parseDecimal, hsplit]
    simp [hdigits d.isDigit_whole, hfraction, numeralValue]
  · have hsplit : (d.whole ++ '.' :: d.fraction).splitOn '.' = [d.whole, d.fraction] := by
      rw [List.splitOn, List.splitOnP_append_cons _ _ (by simp),
        List.splitOnP_eq_singleton (hpoint d.isDigit_whole),
        List.splitOnP_eq_singleton (hpoint d.isDigit_fraction)]
      rfl
    have hall : (d.whole ++ d.fraction).all (isDigitOf 10) = true := by
      rw [List.all_append, hdigits d.isDigit_whole, hdigits d.isDigit_fraction]
      rfl
    have hpow : (10 : ℚ) ^ d.fraction.length ≠ 0 := pow_ne_zero _ (by norm_num)
    rw [parseDecimal, hsplit]
    simp only [hall, if_true, numeralValue_append, Rat.mkRat_eq_div]
    push_cast
    rw [add_div, mul_div_cancel_right₀ _ hpow]

end Numbers

section Words
variable {classes : UnicodeClasses} {items : List HopItem} {w s : Text}

/-- A host is followed by a parenthesis, not by the unit. -/
theorem exec_unitRe_address (r : Responder) (s : Text) :
    unitRe.exec (' ' :: (r.address ++ s)) = [] := by
  by_contra h
  obtain ⟨u, hu⟩ := of_exec_unitRe h
  rw [List.dropWhile_cons_of_pos (by decide), address_append,
    List.dropWhile_cons_of_neg (by decide)] at hu
  exact absurd (List.cons.inj hu).1 (by decide)

/-- The name of a router, or the end of one, and its address hold no time. -/
theorem capturesIter_router (r : Responder) (hw : ∀ c ∈ w, isWhitespace c = false) :
    (rttRe classes).capturesIter (w ++ ' ' :: (r.address ++ itemsText items)) =
      (rttRe classes).capturesIter (itemsText items) := by
  have haddress : r.address = ('(' :: (r.ip ++ zoneText r.zone)) ++ [')'] := by
    simp [Responder.address]
  have hclose : ∀ v ∈ (group 1 (timeRe classes)).lang, ')' ∉ v :=
    notMem_timeRe (by decide) rfl (by decide)
  have hvisible := visible_address r
  rw [haddress] at hvisible
  have hhost : (rttRe classes).Skips w (' ' :: (r.address ++ itemsText items)) :=
    cutAt_rttRe.skips_of_rest hw (by simp) (exec_unitRe_address r _)
  have hgap : (rttRe classes).Skips (List.replicate 1 ' ') (r.address ++ itemsText items) :=
    cutAt_rttRe.skips_gap nil_notMem_timeRe 1 _
  have hparens : (rttRe classes).Skips r.address (itemsText items) := by
    rw [haddress]
    exact cutAt_rttRe.skips_of_last hvisible head_itemsText hclose
  rw [capturesIter_of_skips nil_notMem_rttRe hhost]
  exact (capturesIter_of_skips nil_notMem_rttRe hgap).trans
    (capturesIter_of_skips nil_notMem_rttRe hparens)

theorem visible_time (d : Decimal) : ∀ c ∈ d.text, isWhitespace c = false := by
  intro c hc
  rcases Decimal.mem_text hc with hdigit | rfl
  · exact (visible_of_isDigit hdigit).1
  · decide

/-- The times of the parts are found one after the other. -/
theorem capturesIter_items (classes : UnicodeClasses) (items : List HopItem) :
    ((rttRe classes).capturesIter (itemsText items)).map (fun m => m.group 1) =
      (times items).map Decimal.text := by
  induction items with
  | nil => rfl
  | cons item items ih =>
    have hgap : (rttRe classes).Skips (List.replicate (item.gap + 1) ' ')
        (item.part.text ++ itemsText items) :=
      cutAt_rttRe.skips_gap nil_notMem_timeRe (item.gap + 1) _
    rw [itemsText_cons, HopItem.text, List.append_assoc,
      capturesIter_of_skips nil_notMem_rttRe hgap]
    cases hpart : item.part with
    | star =>
      have hstar : (rttRe classes).Skips ([] ++ ['*']) (itemsText items) :=
        cutAt_rttRe.skips_of_last (List.forall_mem_singleton.mpr (by decide)) head_itemsText
          (notMem_timeRe (by decide) rfl (by decide))
      have htimes : times (item :: items) = times items := by simp [times, hpart, HopPart.time?]
      rw [htimes, ← ih]
      exact congrArg _ (capturesIter_of_skips nil_notMem_rttRe hstar)
    | flag mark =>
      have hflag : (rttRe classes).Skips ('!' :: mark.front ++ [mark.last]) (itemsText items) :=
        cutAt_rttRe.skips_of_last mark.visible head_itemsText
          (notMem_timeRe mark.last_plain.1 mark.last_plain.2.1 mark.last_plain.2.2)
      have htimes : times (item :: items) = times items := by simp [times, hpart, HopPart.time?]
      rw [htimes, ← ih]
      exact congrArg _ (capturesIter_of_skips nil_notMem_rttRe hflag)
    | rtt d =>
      have hlang : d.text ∈ (timeRe classes).lang := decimal_mem_timeRe d
      obtain ⟨m, hm, hrest, hgroup⟩ := head?_exec_rttRe hlang (visible_time d) 0 (itemsText items)
      have htimes : times (item :: items) = d :: times items := by
        simp [times, hpart, HopPart.time?]
      have htext : (HopPart.rtt d).text ++ itemsText items =
          d.text ++ (List.replicate (0 + 1) ' ' ++ ("ms".toList ++ itemsText items)) := by
        simp [HopPart.text]
      rw [htext, capturesIter_of_head? nil_notMem_rttRe hm, List.map_cons, hrest, hgroup, ih,
        htimes, List.map_cons]
    | responder r =>
      have htimes : times (item :: items) = times items := by simp [times, hpart, HopPart.time?]
      have htext : (HopPart.responder r).text ++ itemsText items =
          r.host ++ ' ' :: (r.address ++ itemsText items) := by simp [HopPart.text, Responder.text]
      rw [htext, capturesIter_router r (visible_host r), ih, htimes]

/-- The unit stands at the front only as the start of a name. -/
theorem exec_unitRe_items (h : ∀ gap r later, items = ⟨gap, .responder r⟩ :: later →
    ¬ "ms".toList <+: r.host) : unitRe.exec (itemsText items) = [] := by
  by_contra hexec
  obtain ⟨u, hu⟩ := of_exec_unitRe hexec
  cases items with
  | nil => cases hu
  | cons item items =>
    rw [dropWhile_itemsText] at hu
    obtain ⟨gap, part⟩ := item
    cases part with
    | star => exact absurd (List.cons.inj hu).1 (by decide)
    | flag mark => exact absurd (List.cons.inj hu).1 (by decide)
    | rtt d =>
      obtain ⟨d₀, w', hd, hdigit⟩ := d.text_eq_cons
      rw [HopPart.text, hd] at hu
      obtain rfl : d₀ = 'm' := (List.cons.inj hu).1
      exact absurd hdigit (by decide)
    | responder r =>
      have hprefix : "ms".toList <+: r.host ++ ' ' :: (r.address ++ itemsText items) :=
        ⟨u, by rw [← hu]; simp [HopPart.text, Responder.text]⟩
      exact h gap r items rfl ((prefix_append_cons (by decide)).mp hprefix)

theorem visible_number (n : ℕ) : ∀ c ∈ Nat.toDigits 10 n, isWhitespace c = false :=
  fun _ hc => toDigits_noSpace hc

/-- All matches in the line of a hop. -/
theorem capturesIter_row (classes : UnicodeClasses) (row : HopRow) :
    ((rttRe classes).capturesIter row.text).map (fun m => m.group 1) =
      row.falseTime.toList.map (Nat.toDigits 10) ++ (times row.items).map Decimal.text := by
  obtain ⟨margin, number, items⟩ := row
  have hmargin : (rttRe classes).Skips (List.replicate margin ' ')
      (Nat.toDigits 10 number ++ itemsText items) :=
    cutAt_rttRe.skips_gap nil_notMem_timeRe margin _
  rw [HopRow.text, capturesIter_of_skips nil_notMem_rttRe hmargin]
  by_cases hfalse : ∃ gap r later, items = ⟨gap, .responder r⟩ :: later ∧ "ms".toList <+: r.host
  · obtain ⟨gap, r, later, rfl, name, hname⟩ := hfalse
    have hnumber : Nat.toDigits 10 number ∈ (timeRe classes).lang :=
      number_mem_timeRe Nat.toDigits_ne_nil
        (fun _ hc => Nat.isDigit_of_mem_toDigits (by decide) (by decide) hc)
    have hvisible : ∀ c ∈ name, isWhitespace c = false :=
      fun c hc => visible_host r c (hname ▸ List.mem_append_right _ hc)
    obtain ⟨m, hm, hrest, hgroup⟩ := head?_exec_rttRe hnumber (visible_number number) gap
      (name ++ ' ' :: (r.address ++ itemsText later))
    have htext : itemsText (⟨gap, .responder r⟩ :: later) = List.replicate (gap + 1) ' ' ++
        ("ms".toList ++ (name ++ ' ' :: (r.address ++ itemsText later))) := by
      rw [itemsText_cons, HopItem.text, HopPart.text, Responder.text, ← hname]
      simp
    have htimes : times (⟨gap, .responder r⟩ :: later) = times later := rfl
    have hstarts : "ms".toList <+: r.host := ⟨name, hname⟩
    rw [htext, capturesIter_of_head? nil_notMem_rttRe hm, List.map_cons, hrest, hgroup,
      capturesIter_router r hvisible, capturesIter_items, htimes, HopRow.falseTime]
    simp only [if_pos hstarts, Option.toList_some, List.map_cons, List.map_nil,
      List.singleton_append]
  · have hnone : HopRow.falseTime ⟨margin, number, items⟩ = none := by
      unfold HopRow.falseTime
      split
      · next gap r later heq => exact if_neg (fun h => hfalse ⟨gap, r, later, heq, h⟩)
      · rfl
    have hnumber : (rttRe classes).Skips (Nat.toDigits 10 number) (itemsText items) :=
      cutAt_rttRe.skips_of_rest (visible_number number) head_itemsText
        (exec_unitRe_items (fun gap r later heq h => hfalse ⟨gap, r, later, heq, h⟩))
    rw [capturesIter_of_skips nil_notMem_rttRe hnumber, capturesIter_items, hnone]
    rfl

end Words

section Rows
variable {classes : UnicodeClasses}

/-- The search passes over the front of a line. -/
theorem skips_row (margin number : ℕ) {front : List HopItem}
    (h : ∀ item ∈ front, item.Passed classes) (back : List HopItem) :
    (hostRe classes).Skips (HopRow.text ⟨margin, number, front⟩) (itemsText back) := by
  have hnumber : (hostRe classes).Skips (Nat.toDigits 10 number) (itemsText (front ++ back)) :=
    skips_last_word (visible_number number)
  rw [itemsText_append] at hnumber
  exact skips_append.mpr ⟨skips_spaces margin _, skips_append.mpr ⟨hnumber, skips_items h back⟩⟩

theorem captures_row_none {margin number : ℕ} {items : List HopItem}
    (h : ∀ item ∈ items, item.Passed classes) :
    (hostRe classes).captures (HopRow.text ⟨margin, number, items⟩) = none := by
  have hnil : (hostRe classes).exec ([] ++ itemsText []) = [] :=
    exec_hostRe_word (by simp) head_itemsText exec_behindHost_itemsText
  rw [captures, find_eq_none (skips_row margin number h []) hnil, Option.map_none]

theorem captures_row (margin number gap : ℕ) {front : List HopItem} (back : List HopItem)
    {r : Responder} (h : ∀ item ∈ front, item.Passed classes) (hr : r.Readable classes) : ∃ m,
    (hostRe classes).captures (HopRow.text ⟨margin, number, front ++ ⟨gap, .responder r⟩ :: back⟩) =
      some m ∧ m.group 3 = r.ip ∧ ('%' ∉ r.host → m.group 1 = r.host) := by
  obtain ⟨m, hm, -, -, hip, hname⟩ := head?_exec_hostRe hr (itemsText back)
  have htext : HopRow.text ⟨margin, number, front ++ ⟨gap, .responder r⟩ :: back⟩ =
      HopRow.text ⟨margin, number, front⟩ ++
        (List.replicate (gap + 1) ' ' ++ (r.text ++ itemsText back)) := by
    simp [HopRow.text, itemsText_append, itemsText_cons, HopItem.text, HopPart.text]
  have hfront := skips_row margin number h (⟨gap, .responder r⟩ :: back)
  rw [itemsText_cons, HopItem.text, HopPart.text, List.append_assoc] at hfront
  refine ⟨m, ?_, hip, hname⟩
  rw [captures, htext, find_of_skips hfront, find_of_skips (skips_spaces (gap + 1) _),
    find_of_head? hm]
  rfl

/-- The first router with an address that can be read, in the middle of a line. -/
theorem firstResponder_eq {front back : List HopItem} {gap : ℕ} {r : Responder}
    (h : ∀ item ∈ front, item.Passed classes) (hr : r.Readable classes) :
    firstResponder classes (front ++ ⟨gap, .responder r⟩ :: back) = some r := by
  have hfront : (responders front).find? (fun r => r.Readable classes) = none :=
    List.find?_eq_none.mpr (fun other hother => by simpa using unreadable_of_passed h other hother)
  rw [firstResponder, responders_append, List.find?_append, hfront, responders_cons,
    List.find?_append]
  simp [responders, hr]

theorem firstResponder_none {items : List HopItem} (h : ∀ item ∈ items, item.Passed classes) :
    firstResponder classes items = none :=
  List.find?_eq_none.mpr (fun other hother => by simpa using unreadable_of_passed h other hother)

/-- The names in a line have no zone behind them. -/
def PlainNames (items : List HopItem) : Prop := ∀ r ∈ responders items, '%' ∉ r.host

instance (items : List HopItem) : Decidable (PlainNames items) :=
  List.decidableBAll _ (responders items)

/-- A line gives its hop. -/
theorem parseHopLine_row {row : HopRow} (hplain : PlainNames row.items) :
    parseHopLine classes row.text = row.hop classes := by
  have htimings : ((rttRe classes).capturesIter row.text).map
      (fun c => (⟨(parseDecimal (c.group 1)).getD 0⟩ : HopTiming)) =
        row.falseTime.toList.map (fun n => ⟨n⟩) ++ (times row.items).map (fun d => ⟨d.value⟩) := by
    have hcomp : (fun c : Match Char => (⟨(parseDecimal (c.group 1)).getD 0⟩ : HopTiming)) =
        (fun t => ⟨(parseDecimal t).getD 0⟩) ∘ (fun m => m.group 1) := rfl
    rw [hcomp, ← List.map_map, capturesIter_row, List.map_append, List.map_map, List.map_map]
    congr 1
    · exact List.map_congr_left (fun n _ => by simp [parseDecimal_number])
    · exact List.map_congr_left (fun d _ => by simp [parseDecimal_text])
  obtain ⟨margin, number, items⟩ := row
  unfold parseHopLine HopRow.hop
  rw [htimings]
  rcases first_readable classes items with hall | ⟨front, gap, r, back, rfl, hfront, hr⟩
  · rw [captures_row_none hall, firstResponder_none hall]
    rfl
  · have hhost : '%' ∉ r.host := hplain r (by simp [responders])
    obtain ⟨m, hm, hip, hname⟩ := captures_row margin number gap back hfront hr
    rw [hm, firstResponder_eq hfront hr]
    simp only [Option.map_some, hip, hname hhost]

end Rows

/-! ## The whole output -/

/-- The first router of a line whose address can be read goes without its name. -/
def hideFirst (classes : UnicodeClasses) : List HopItem → List HopItem
  | [] => []
  | item :: items =>
    match item.part with
    | .responder r =>
      if r.Readable classes then ⟨item.gap, .responder r.hidden⟩ :: items
      else item :: hideFirst classes items
    | .star | .flag _ | .rtt _ => item :: hideFirst classes items

/-- An output of traceroute: the target with its address and the limits behind it, the first hop
and the later ones, each with an answer or a star and without zones in the names. -/
structure Transcript (classes : UnicodeClasses) where
  target : Responder
  limits : Text
  first : List HopItem
  later : List HopRow
  readable : target.Readable classes
  limits_line : '\n' ∉ limits ∧ '\r' ∉ limits
  plain_first : PlainNames first
  plain_later : ∀ row ∈ later, PlainNames row.items
  probed_first : first ≠ []
  probed_later : ∀ row ∈ later, row.items ≠ []

namespace Transcript
variable {classes : UnicodeClasses} (t : Transcript classes)

def header : Text := "traceroute to ".toList ++ (t.target.text ++ t.limits)

def stdout : Text := joinLines (t.header :: firstHopLine t.first :: t.later.map HopRow.text)

/-- The hops, without the name in the first one. -/
def rows : List HopRow := ⟨1, 1, hideFirst classes t.first⟩ :: t.later

def report : ParsedTraceroute where
  status := .finished
  rawOutput := joinLines (t.header :: t.rows.map HopRow.text)
  resolvedAddress := some t.target.ip
  resolvedHostname := lastSome (fun row => (row.hop classes).resolvedHostname) t.rows
  hops := t.rows.map (HopRow.hop classes)

end Transcript

section Hidden
variable {classes : UnicodeClasses}

theorem hideFirst_none {items : List HopItem} (h : ∀ item ∈ items, item.Passed classes) :
    hideFirst classes items = items := by
  induction items with
  | nil => rfl
  | cons item items ih =>
    have hlater := ih (fun other hother => h other (List.mem_cons_of_mem item hother))
    unfold hideFirst
    split
    · next r hpart => rw [if_neg (h item List.mem_cons_self r hpart), hlater]
    · rw [hlater]
    · rw [hlater]
    · rw [hlater]

theorem hideFirst_append {front back : List HopItem} {gap : ℕ} {r : Responder}
    (h : ∀ item ∈ front, item.Passed classes) (hr : r.Readable classes) :
    hideFirst classes (front ++ ⟨gap, .responder r⟩ :: back) =
      front ++ ⟨gap, .responder r.hidden⟩ :: back := by
  induction front with
  | nil => exact if_pos hr
  | cons item front ih =>
    have hlater := ih (fun other hother => h other (List.mem_cons_of_mem item hother))
    rw [List.cons_append]
    unfold hideFirst
    split
    · next r hpart => rw [if_neg (h item List.mem_cons_self r hpart), hlater, List.cons_append]
    · rw [hlater, List.cons_append]
    · rw [hlater, List.cons_append]
    · rw [hlater, List.cons_append]

theorem hideGateway_line (items : List HopItem) :
    hideGateway classes (firstHopLine items) = firstHopLine (hideFirst classes items) := by
  rcases first_readable classes items with hall | ⟨front, gap, r, back, rfl, hfront, hr⟩
  · rw [hideGateway_none hall, hideFirst_none hall]
  · rw [hideGateway_first hfront hr, hideFirst_append hfront hr]

theorem plainNames_hideFirst {items : List HopItem} (h : PlainNames items) :
    PlainNames (hideFirst classes items) := by
  rcases first_readable classes items with hall | ⟨front, gap, r, back, rfl, hfront, hr⟩
  · rwa [hideFirst_none hall]
  · rw [hideFirst_append hfront hr]
    unfold PlainNames at h ⊢
    rw [responders_append, responders_cons] at h ⊢
    intro other hother
    rcases List.mem_append.mp hother with hmem | hmem
    · exact h other (List.mem_append_left _ hmem)
    · rcases List.mem_append.mp hmem with hmem | hmem
      · obtain rfl : other = r.hidden := by simpa [responders] using hmem
        show '%' ∉ gatewayName
        decide
      · exact h other (List.mem_append_right _ (List.mem_append_right _ hmem))

end Hidden

section Lines
variable {classes : UnicodeClasses}

theorem mem_itemsText {items : List HopItem} {c : Char} (h : c ∈ itemsText items) :
    c = ' ' ∨ isWhitespace c = false := by
  obtain ⟨item, -, hc⟩ := List.mem_flatMap.mp h
  rcases List.mem_append.mp hc with hc | hc
  · exact .inl (List.eq_of_mem_replicate hc)
  · cases hpart : item.part with
    | star =>
      rw [hpart] at hc
      rw [List.mem_singleton.mp hc]
      exact .inr rfl
    | flag mark =>
      rw [hpart] at hc
      exact .inr (mark.visible c hc)
    | rtt d =>
      rw [hpart, HopPart.text, List.mem_append, List.mem_cons] at hc
      rcases hc with hc | rfl | hc
      · exact .inr (visible_time d c hc)
      · exact .inl rfl
      · exact .inr (visible_of_all (by decide) c hc)
    | responder r =>
      rw [hpart, HopPart.text, Responder.text, List.mem_append, List.mem_cons] at hc
      rcases hc with hc | rfl | hc
      · exact .inr (visible_host r c hc)
      · exact .inl rfl
      · exact .inr (visible_address r c hc)

theorem mem_row {row : HopRow} {c : Char} (h : c ∈ row.text) :
    c = ' ' ∨ isWhitespace c = false := by
  rcases List.mem_append.mp h with hc | hc
  · exact .inl (List.eq_of_mem_replicate hc)
  · rcases List.mem_append.mp hc with hc | hc
    · exact .inr (visible_number row.number c hc)
    · exact mem_itemsText hc

theorem row_plain (row : HopRow) : row.text ≠ [] ∧ '\n' ∉ row.text ∧ '\r' ∉ row.text := by
  have hother : ∀ c, isWhitespace c = true → c ≠ ' ' → c ∉ row.text := by
    intro c hspace hne hc
    rcases mem_row hc with rfl | hvisible
    · exact hne rfl
    · rw [hspace] at hvisible
      cases hvisible
  refine ⟨?_, hother '\n' rfl (by decide), hother '\r' rfl (by decide)⟩
  rw [HopRow.text]
  exact List.append_ne_nil_of_right_ne_nil _
    (List.append_ne_nil_of_left_ne_nil Nat.toDigits_ne_nil _)

theorem firstHopLine_eq (items : List HopItem) :
    firstHopLine items = HopRow.text ⟨1, 1, items⟩ := by
  have hone : Nat.toDigits 10 1 = ['1'] := by decide
  rw [HopRow.text, hone]
  rfl

end Lines

section Parsed
variable {classes : UnicodeClasses} (t : Transcript classes)

theorem stdout_eq : t.stdout =
    joinLines (t.header :: (⟨1, 1, t.first⟩ :: t.later).map HopRow.text) := by
  rw [Transcript.stdout, firstHopLine_eq]
  rfl

/-- The header tells the address of the target. -/
theorem captures_transcript_header :
    ∃ m, (hostRe classes).captures t.header = some m ∧ m.get 3 = some t.target.ip := by
  obtain ⟨c, w, htarget, hvisible, hparen⟩ := part_starts (.responder t.target)
  obtain ⟨m, hm, -, -, hip, -⟩ := head?_exec_hostRe t.readable t.limits
  have hword : ∀ (c : Char) (w : Text), isWhitespace c = false → c ≠ '(' →
      (behindHost classes).exec (' ' :: (c :: w)) = [] := by
    intro c w hspace hne
    by_contra hexec
    obtain ⟨u, hu, -⟩ := of_exec_behindHost hexec
    rw [List.dropWhile_cons_of_pos (by decide), List.dropWhile_cons_of_neg (by simp [hspace])] at hu
    exact hne (List.cons.inj hu).1
  have hto : (hostRe classes).Skips "to".toList
      (List.replicate 1 ' ' ++ (t.target.text ++ t.limits)) := by
    refine skips_word (visible_of_all (by decide)) (by simp) ?_
    change (behindHost classes).exec (' ' :: (t.target.text ++ t.limits)) = []
    rw [show t.target.text = c :: w from htarget]
    exact hword c (w ++ t.limits) hvisible hparen
  have hprogram : (hostRe classes).Skips "traceroute".toList (List.replicate 1 ' ' ++
      ("to".toList ++ (List.replicate 1 ' ' ++ (t.target.text ++ t.limits)))) :=
    skips_word (visible_of_all (by decide)) (by simp) (hword 't' _ (by decide) (by decide))
  have hheader : t.header = "traceroute".toList ++ (List.replicate 1 ' ' ++
      ("to".toList ++ (List.replicate 1 ' ' ++ (t.target.text ++ t.limits)))) := rfl
  refine ⟨m, ?_, ?_⟩
  · rw [captures, hheader, find_of_skips hprogram, find_of_skips (skips_spaces 1 _),
      find_of_skips hto, find_of_skips (skips_spaces 1 _), find_of_head? hm]
    rfl
  · obtain ⟨addr, haddr⟩ := t.target.ip_parses
    have hne : t.target.ip ≠ [] := by
      intro hnil
      rw [hnil] at haddr
      cases haddr
    rw [Match.group] at hip
    cases hget : m.get 3 with
    | none => exact absurd (by rw [← hip, hget]; rfl) hne
    | some ip => rw [← hip, hget]; rfl

theorem header_plain : t.header ≠ [] ∧ '\n' ∉ t.header ∧ '\r' ∉ t.header := by
  have htarget : ∀ c ∈ t.target.text, c = ' ' ∨ isWhitespace c = false := by
    intro c hc
    rcases List.mem_append.mp hc with hc | hc
    · exact .inr (visible_host t.target c hc)
    · rcases List.mem_cons.mp hc with rfl | hc
      · exact .inl rfl
      · exact .inr (visible_address t.target c hc)
  have hother : ∀ c, isWhitespace c = true → c ≠ ' ' → c ∉ "traceroute to ".toList →
      c ∉ t.limits → c ∉ t.header := by
    intro c hspace hne hname hlimits hc
    rcases List.mem_append.mp hc with hc | hc
    · exact hname hc
    · rcases List.mem_append.mp hc with hc | hc
      · rcases htarget c hc with heq | hvisible
        · exact hne heq
        · rw [hspace] at hvisible
          cases hvisible
      · exact hlimits hc
  exact ⟨List.cons_ne_nil _ _, hother '\n' rfl (by decide) (by decide) t.limits_line.1,
    hother '\r' rfl (by decide) (by decide) t.limits_line.2⟩

theorem lines_stdout :
    lines t.stdout = t.header :: (⟨1, 1, t.first⟩ :: t.later).map HopRow.text := by
  rw [stdout_eq]
  apply lines_joinLines_of_plain
  intro l hl
  rcases List.mem_cons.mp hl with rfl | hl
  · exact header_plain t
  · obtain ⟨row, -, rfl⟩ := List.mem_map.mp hl
    exact row_plain row

theorem parse_stdout : parse classes t.stdout = t.report := by
  obtain ⟨m, hm, hip⟩ := captures_transcript_header t
  have hrows : ((⟨1, 1, t.first⟩ :: t.later).map HopRow.text).modifyHead (hideGateway classes) =
      t.rows.map HopRow.text := by
    rw [List.map_cons, List.modifyHead_cons, ← firstHopLine_eq, hideGateway_line, firstHopLine_eq]
    rfl
  have hhops : (t.rows.map HopRow.text).map (parseHopLine classes) =
      t.rows.map (HopRow.hop classes) := by
    rw [List.map_map]
    refine List.map_congr_left (fun row hrow => parseHopLine_row ?_)
    rcases List.mem_cons.mp hrow with rfl | hrow
    · exact plainNames_hideFirst t.plain_first
    · exact t.plain_later row hrow
  have hlast : (t.rows.map (HopRow.hop classes)).reverse.findSome? (fun h => h.resolvedHostname) =
      lastSome (fun row => (row.hop classes).resolvedHostname) t.rows := by
    rw [lastSome, ← List.map_reverse, List.findSome?_map]
    rfl
  unfold parse
  rw [lines_stdout]
  simp only [hm, hrows, hhops, hip, hlast]
  rfl

end Parsed

/-! ## A run of traceroute -/

section Runs
variable {classes : UnicodeClasses} (t : Transcript classes)

/-- What has been printed up to a later hop. -/
def Transcript.upTo (n : ℕ) : Transcript classes :=
  { t with
    later := t.later.take n
    plain_later := fun row hrow => t.plain_later row (List.mem_of_mem_take hrow)
    probed_later := fun row hrow => t.probed_later row (List.mem_of_mem_take hrow) }

def HopRow.line (row : HopRow) : StdoutLine := ⟨row.text, (row_plain row).2.1⟩

def Transcript.stdoutLines : List StdoutLine :=
  ⟨t.header, (header_plain t).2.1⟩ :: (⟨1, 1, t.first⟩ :: t.later).map HopRow.line

theorem rawText_stdoutLines : rawText t.stdoutLines = t.stdout := by
  rw [stdout_eq, rawText, Transcript.stdoutLines, List.map_cons, List.map_map]
  rfl

/-- A line with an answer, or a star for one, is taken for a hop. -/
theorem isHopLine_row {row : HopRow} (h : row.items ≠ []) :
    isHopLine classes row.text = true := by
  obtain ⟨margin, number, items⟩ := row
  obtain ⟨item, items, rfl⟩ := List.exists_cons_of_ne_nil h
  have hmargin : List.replicate margin ' ' ∈ (star true (chr isWhitespace)).lang :=
    mem_lang_star_chr (fun _ => isWhitespace_of_mem_blanks)
  have hnumber : Nat.toDigits 10 number ∈ (plus true (chr classes.digit)).lang :=
    mem_lang_plus_chr Nat.toDigits_ne_nil (fun c hc =>
      classes.digit_of_isDigit (Nat.isDigit_of_mem_toDigits (by decide) (by decide) hc))
  have hspace : [' '] ∈ (concat [chr isWhitespace]).lang :=
    mem_lang_concat_cons.mpr ⟨[' '], ⟨' ', rfl, rfl⟩, [], rfl, rfl⟩
  have hlang := mem_lang_concat_cons.mpr
    ⟨_, hmargin, _, mem_lang_concat_cons.mpr ⟨_, hnumber, _, hspace, rfl⟩, rfl⟩
  have htext : HopRow.text ⟨margin, number, item :: items⟩ =
      (List.replicate margin ' ' ++ (Nat.toDigits 10 number ++ [' '])) ++
        (List.replicate item.gap ' ' ++ (item.part.text ++ itemsText items)) := by
    simp [HopRow.text, itemsText_cons, HopItem.text, List.replicate_succ]
  obtain ⟨m, hm, -⟩ := exec_complete _ _ hlang
    (List.replicate item.gap ' ' ++ (item.part.text ++ itemsText items))
  rw [isHopLine, isPrefixMatch, htext, List.isEmpty_eq_false_iff.mpr (List.ne_nil_of_mem hm)]
  rfl

/-- A run sends what has been parsed at each hop. -/
theorem hopProgress_stdoutLines : hopProgress classes (t.stdoutLines.map (·.val)) =
    [progressMessage t.stdout t.report] := by
  have hraw : joinLines (t.stdoutLines.map (·.val)) = t.stdout := rawText_stdoutLines t
  have hhops : t.report.hops.isEmpty = false := rfl
  rw [hopProgress, hraw, parse_stdout]
  simp [hhops]

theorem stdoutLines_succ {n : ℕ} (hn : n < t.later.length) :
    (t.upTo (n + 1)).stdoutLines = (t.upTo n).stdoutLines ++ [t.later[n].line] := by
  have htake : t.later.take (n + 1) = t.later.take n ++ [t.later[n]] :=
    List.take_succ_eq_append_getElem hn
  change _ :: (⟨1, 1, t.first⟩ :: t.later.take (n + 1)).map HopRow.line = _
  rw [htake, ← List.cons_append, List.map_append, ← List.cons_append]
  rfl

/-- Reading one more hop line. -/
theorem messages_concat {front : List StdoutLine} {row : HopRow} (h : row.items ≠ [])
    (hlines : t.stdoutLines = front ++ [row.line]) :
    (readLines classes true t.stdoutLines).messages =
      (readLines classes true front).messages ++ [progressMessage t.stdout t.report] := by
  have hrow : isHopLine classes row.line.val = true := isHopLine_row h
  have hprogress := hopProgress_stdoutLines t
  rw [hlines, List.map_append] at hprogress
  rw [hlines, readLines_concat, Reading.readLine, readLines_rawLines]
  simp only [hrow, Bool.and_self, if_true]
  rw [← hprogress]
  rfl

theorem messages_upTo {n : ℕ} (hn : n ≤ t.later.length) :
    (readLines classes true (t.upTo n).stdoutLines).messages =
      (List.range (n + 1)).map
        (fun k => progressMessage (t.upTo k).stdout (t.upTo k).report) := by
  induction n with
  | zero =>
    have hheader : (readLines classes true [⟨t.header, (header_plain t).2.1⟩]).messages = [] := by
      simp [readLines, Reading.readLine, hopProgress_header ⟨t.header, (header_plain t).2.1⟩]
    have hlines : (t.upTo 0).stdoutLines =
        [⟨t.header, (header_plain t).2.1⟩] ++ [HopRow.line ⟨1, 1, t.first⟩] := rfl
    rw [messages_concat (t.upTo 0) t.probed_first hlines, hheader]
    rfl
  | succ n ih =>
    rw [messages_concat (t.upTo (n + 1)) (t.probed_later _ (List.getElem_mem _))
      (stdoutLines_succ t hn), ih (Nat.le_of_succ_le hn), List.range_succ (n := n + 1),
      List.map_append, List.map_singleton]

/-- A run on what traceroute prints: each hop sends the hops up to it, and in the end all of
them are returned. Those of a private target are sent as well, and only then kept back. -/
theorem runTraceroute_transcript (classes : UnicodeClasses) (table : CaseTable)
    (localIps : List Net.IpAddr) (opts : TracerouteOptions) (t : Transcript classes) :
    runTraceroute classes table localIps opts true t.stdoutLines =
      (opts.validate table localIps).map (fun _ =>
        ⟨(List.range (t.later.length + 1)).map
            (fun k => progressMessage (t.upTo k).stdout (t.upTo k).report),
          rejectPrivate localIps t.report⟩) := by
  have hall : t.upTo t.later.length = t := by
    simp [Transcript.upTo]
  have hmessages := messages_upTo t le_rfl
  rw [hall] at hmessages
  have hfull : (trim t.stdout).isEmpty = false :=
    List.isEmpty_eq_false_iff.mpr
      (trim_ne_nil (c := 't') (List.mem_cons_self) (by decide))
  have hresult : finalResult classes localIps (joinLines (t.stdoutLines.map (·.val))) =
      rejectPrivate localIps t.report := by
    rw [← rawText, rawText_stdoutLines, finalResult, hfull, parse_stdout]
    rfl
  have hrun : runTraceroute classes table localIps opts true t.stdoutLines =
      (opts.validate table localIps).map (fun _ =>
        ⟨(readLines classes true t.stdoutLines).messages, finalResult classes localIps
          (joinLines (readLines classes true t.stdoutLines).rawLines)⟩) := by
    rw [runTraceroute]
    cases opts.validate table localIps with
    | error e => rfl
    | ok u => rfl
  rw [hrun, hmessages, readLines_rawLines, hresult]

end Runs

/-! ## A target that cannot be reached -/

def unreachedTarget : Responder :=
  { routerAttic with
    host := "one.io".toList
    ip := "1.1.1.1".toList
    host_ne_nil := by decide
    isResponderChar_host := List.all_eq_true.mp (by decide)
    ip_parses := ⟨.v4 (.ofOctets 1 1 1 1), rfl⟩ }

/-- `!H`. -/
def hostUnreachable : Flag where
  front := []
  last := 'H'
  visible := List.forall_mem_cons.mpr ⟨by decide, List.forall_mem_singleton.mpr (by decide)⟩
  last_plain := by decide

/-- The second hop does not answer, and the third one says that it is the last. -/
def flaggedTranscript : Transcript .ascii where
  target := unreachedTarget
  limits := ", 20 hops max, 60 byte packets".toList
  first := oneRouter
  later :=
    [⟨1, 2, [⟨1, .star⟩, ⟨0, .star⟩]⟩,
      ⟨1, 3, [⟨1, .responder routerAttic⟩, ⟨1, .rtt firstTime⟩, ⟨0, .flag hostUnreachable⟩,
        ⟨1, .rtt firstTime⟩, ⟨0, .flag hostUnreachable⟩]⟩]
  readable := by decide
  limits_line := by decide
  plain_first := by decide
  plain_later := by decide
  probed_first := by decide
  probed_later := by decide

def unreachedOptions : TracerouteOptions := ⟨"one.io".toList, "ICMP".toList, 80, 4⟩

theorem flaggedTranscript_run :
    runTraceroute .ascii .ascii [] unreachedOptions true flaggedTranscript.stdoutLines =
      .ok ⟨(List.range 3).map (fun k => progressMessage (flaggedTranscript.upTo k).stdout
          (flaggedTranscript.upTo k).report),
        flaggedTranscript.report⟩ := by
  have haccepted : unreachedOptions.validate .ascii [] = .ok () := rfl
  have hpublic : rejectPrivate [] flaggedTranscript.report = flaggedTranscript.report := rfl
  rw [runTraceroute_transcript, haccepted, hpublic]
  rfl

end GlobalpingProbe.Command.Traceroute
