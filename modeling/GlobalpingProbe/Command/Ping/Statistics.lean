import GlobalpingProbe.Command.Ping.Transcript

/-! # The statistics of a transcript

The packet summary is searched for each number with the word behind it, and the line of the
round-trip times is read from its start. With the lines of the packets this decodes every
transcript.
-/
namespace GlobalpingProbe.Command.Ping
open Foundation Regex

/-! ## The packet summary -/

section SummaryLine
variable {classes : UnicodeClasses}

/-- A number behind something else than a word character starts a word. -/
theorem isBoundary_figure {c : Char} (hc : c.isDigit = true) {before : Option Char}
    (hb : ∀ d ∈ before, classes.word d = false) (s : Text) :
    isBoundary classes.word before (c :: s) = true := by
  have hword : classes.word c = true := by
    have hascii : c.toNat < 128 := by
      simp only [Char.isDigit, Bool.and_eq_true, decide_eq_true_eq] at hc
      have hle : c.toNat ≤ '9'.toNat := hc.2
      exact hle.trans_lt (by decide)
    rw [classes.word_ascii c hascii]
    simp [Char.isAlphanum, hc]
  cases before with
  | none => simp [isBoundary, hword]
  | some d => simp [isBoundary, hword, hb d rfl]

theorem word_space : classes.word ' ' = false := by
  rw [classes.word_ascii ' ' (by decide)]
  rfl

theorem isBoundary_printed (n : ℕ) {before : Option Char}
    (hb : ∀ d ∈ before, classes.word d = false) (s : Text) :
    isBoundary classes.word before (printed n ++ s) = true := by
  obtain ⟨c, rest, hcons⟩ := List.exists_cons_of_ne_nil (printed_ne_nil n)
  have hc : c ∈ printed n := by simp [hcons]
  rw [hcons]
  exact isBoundary_figure (isDigit_printed hc) hb _

theorem isBoundary_decimal (d : Decimal) {before : Option Char}
    (hb : ∀ e ∈ before, classes.word e = false) (s : Text) :
    isBoundary classes.word before (d.text ++ s) = true := by
  obtain ⟨c, rest, hcons, hc⟩ := d.text_eq_cons
  rw [hcons]
  exact isBoundary_figure hc hb _

theorem wordCapture_eq {r : Regex Char} {front s text : Text}
    (hskip : ∀ v c u, front = v ++ c :: u → r.exec (c :: u ++ s) = [])
    (hb : isBoundary classes.word front.getLast? s = true) (h : Captures r s [(1, text)]) :
    wordCapture classes r (front ++ s) = some text := by
  have hb' : isBoundary classes.word (front.getLast?.or none) s = true := by rwa [Option.or_none]
  obtain ⟨m, hm, hcaps⟩ := capturesAtBoundary_eq hb' h
  rw [wordCapture, capturesAtBoundary_append hskip, hm]
  simp [Match.get, hcaps]

def Summary.extras (s : Summary) : Text :=
  extraCount s.duplicates " duplicates".toList ++ extraCount s.errors " errors".toList

def Summary.afterLoss (s : Summary) : Text :=
  "% packet loss, time ".toList ++ (printed s.time ++ "ms".toList)

def Summary.afterReceived (s : Summary) : Text :=
  " received".toList ++ (s.extras ++ (", ".toList ++ (s.loss.text ++ s.afterLoss)))

theorem Summary.text_eq (s : Summary) : s.text = printed s.transmitted ++
    (" packets transmitted, ".toList ++ (printed s.received ++ s.afterReceived)) := by
  unfold Summary.text Summary.afterReceived Summary.extras Summary.afterLoss
  simp only [List.append_assoc]

theorem wordCapture_transmitted (s : Summary) :
    wordCapture classes (transmittedRe classes) s.text = some (printed s.transmitted) := by
  have hsplit : " packets transmitted, ".toList =
      ' ' :: ("packets".toList ++ (' ' :: ("transmitted".toList ++ ", ".toList))) := rfl
  rw [s.text_eq, ← List.nil_append (printed s.transmitted ++ _)]
  refine wordCapture_eq ?_ (isBoundary_printed _ (by simp) _) ?_
  · intro v c u h
    simp at h
  · simp only [hsplit, List.append_assoc, List.cons_append]
    refine captures_digits _ (endsNumber_cons (by decide) _) (captures_chr rfl ?_)
    exact captures_lit (captures_chr rfl (captures_lit (captures_empty _)))

/-- White space behind figures is the first character that is none. -/
theorem space_after_digits {d w u t : Text} (hd : ∀ c ∈ d, classes.digit c = true)
    (hw : ∀ c ∈ w, c.isDigit = true) (hu : ∃ c u', u = c :: u' ∧ isWhitespace c = true)
    (h : d ++ u = w ++ ' ' :: t) : u = ' ' :: t := by
  rcases List.append_eq_append_iff.mp h with ⟨x, rfl, hx⟩ | ⟨x, rfl, hx⟩
  · cases x with
    | nil => exact hx
    | cons c x =>
      obtain ⟨c', u', rfl, hspace⟩ := hu
      obtain ⟨rfl, -⟩ := List.cons.inj hx
      have halnum : c'.isAlphanum = true := by simp [Char.isAlphanum, hw c' (by simp)]
      rw [isWhitespace_of_isAlphanum halnum] at hspace
      cases hspace
  · cases x with
    | nil => exact hx.symm
    | cons c x =>
      obtain ⟨rfl, -⟩ := List.cons.inj hx
      exact absurd (hd ' ' (by simp)) (not_digit (by decide) rfl)

/-- The word behind the number of transmitted packets is not the one behind those received. -/
theorem not_received {v u t : Text} (hv : v = "received".toList ∨ v = "packets received".toList) :
    v ++ u ≠ "packets transmitted, ".toList ++ t := by
  intro h
  rcases hv with rfl | rfl
  · have hfirst := congrArg (List.take 1) h
    change "r".toList = "p".toList at hfirst
    exact absurd hfirst (by decide)
  · have hninth := congrArg (List.take 9) h
    change "packets r".toList = "packets t".toList at hninth
    exact absurd hninth (by decide)

/-- No figures before those of the received packets are followed by their word. -/
theorem exec_rcvRe_figures {x t : Text} (hx : ∀ c ∈ x, c.isDigit = true) :
    (rcvRe classes).exec (x ++ (" packets transmitted, ".toList ++ t)) = [] := by
  by_contra hmatch
  obtain ⟨d, u, heq, hd, hu⟩ := of_exec_seq_ne_nil hmatch
  have hall := (of_mem_lang_plus_chr hd).2
  obtain rfl : u = ' ' :: ("packets transmitted, ".toList ++ t) :=
    space_after_digits hall hx (starts_chr (fun _ h => h) u hu) heq
  obtain ⟨c, u', hcons, -, hword⟩ := of_exec_chr_ne_nil hu
  obtain ⟨-, rfl⟩ := List.cons.inj hcons
  obtain ⟨v, u'', heq', hv, -⟩ := of_exec_seq_ne_nil hword
  refine not_received ?_ heq'
  exact hv.imp eq_of_mem_lang_lit eq_of_mem_lang_lit

theorem exec_rcvRe_of_head {s : Text} (h : ∀ c ∈ s.head?, classes.digit c = false) :
    (rcvRe classes).exec s = [] := by
  apply exec_eq_nil_of_start (P := fun c => classes.digit c = true)
  · exact starts_seq fun _ hv => of_mem_lang_plus_chr hv
  · intro c hc
    simp [h c hc]

/-- The texts before the number of the received packets have no figures, but for those of the
transmitted ones. -/
theorem exec_rcvRe_before (s : Summary) (v u : Text) (c : Char)
    (h : printed s.transmitted ++ " packets transmitted, ".toList = v ++ c :: u) (t : Text) :
    (rcvRe classes).exec (c :: u ++ t) = [] := by
  have hlit : c ∈ " packets transmitted, ".toList → classes.digit c = false := by
    intro hmem
    have hascii : " packets transmitted, ".toList.all
        (fun c => decide (c.toNat < 128) && !c.isDigit) = true := by decide
    have hc := List.all_eq_true.mp hascii c hmem
    simp only [Bool.and_eq_true, decide_eq_true_eq, Bool.not_eq_true'] at hc
    exact classes.digit_eq_false hc.1 hc.2
  rcases List.append_eq_append_iff.mp h with ⟨x, -, hx⟩ | ⟨x, hx, hcons⟩
  · apply exec_rcvRe_of_head
    rintro d hd
    obtain rfl : c = d := Option.some.inj hd
    exact hlit (by simp [hx])
  · rw [hcons, List.append_assoc]
    apply exec_rcvRe_figures
    intro d hd
    exact isDigit_printed (n := s.transmitted) (by simp [hx, hd])

theorem wordCapture_rcv (s : Summary) :
    wordCapture classes (rcvRe classes) s.text = some (printed s.received) := by
  have hlast : (printed s.transmitted ++ " packets transmitted, ".toList).getLast? = some ' ' := by
    rw [List.getLast?_append_of_ne_nil _ (by decide)]
    rfl
  have htext : s.text = (printed s.transmitted ++ " packets transmitted, ".toList) ++
      (printed s.received ++ s.afterReceived) := by rw [s.text_eq, List.append_assoc]
  have hskip : ∀ v c u, printed s.transmitted ++ " packets transmitted, ".toList = v ++ c :: u →
      (rcvRe classes).exec (c :: u ++ (printed s.received ++ s.afterReceived)) = [] :=
    fun v c u h => exec_rcvRe_before s v u c h _
  rw [htext]
  refine wordCapture_eq hskip ?_ ?_
  · apply isBoundary_printed
    rw [hlast]
    simpa using word_space
  · have hsplit : " received".toList = ' ' :: "received".toList := rfl
    unfold Summary.afterReceived
    simp only [hsplit, List.cons_append]
    refine captures_digits _ (endsNumber_cons (by decide) _) (captures_chr rfl ?_)
    have hword : ∀ t, ((alt (lit "received".toList) (lit "packets received".toList)).exec
        ("received".toList ++ t)).head? = some ⟨"received".toList, [], t⟩ := by
      intro t
      rw [exec, exec_lit, if_pos (List.prefix_append _ _), List.drop_left]
      rfl
    exact captures_first (hword _) (captures_empty _)

/-! ### The loss -/

def Summary.beforeLoss (s : Summary) : Text :=
  printed s.transmitted ++ " packets transmitted, ".toList ++ printed s.received ++
    " received".toList ++ s.extras ++ ", ".toList

theorem Summary.text_eq_loss (s : Summary) : s.text = s.beforeLoss ++ (s.loss.text ++ s.afterLoss) := by
  unfold Summary.text Summary.beforeLoss Summary.extras Summary.afterLoss
  simp only [List.append_assoc]

theorem getLast?_beforeLoss (s : Summary) : s.beforeLoss.getLast? = some ' ' := by
  unfold Summary.beforeLoss
  rw [List.getLast?_append_of_ne_nil _ (by decide)]
  rfl

theorem notMem_extraCount {c : Char} (n : Option ℕ) {what : Text} (hdigit : c.isDigit = false)
    (hfront : c ∉ ", +".toList) (hwhat : c ∉ what) : c ∉ extraCount n what := by
  cases n with
  | none => exact List.not_mem_nil
  | some n =>
    unfold extraCount
    simp only [List.mem_append, hfront, notMem_printed n hdigit, hwhat, or_false, not_false_eq_true]

theorem percent_notMem_beforeLoss (s : Summary) : '%' ∉ s.beforeLoss := by
  have hprinted : ∀ n, '%' ∉ printed n := fun n => notMem_printed n rfl
  have hdup : '%' ∉ extraCount s.duplicates " duplicates".toList :=
    notMem_extraCount s.duplicates rfl (by decide) (by decide)
  have herr : '%' ∉ extraCount s.errors " errors".toList :=
    notMem_extraCount s.errors rfl (by decide) (by decide)
  unfold Summary.beforeLoss Summary.extras
  simp only [List.mem_append, hprinted, hdup, herr, or_false, false_or]
  decide

theorem mem_decimalRe {v : Text} (hv : v ∈ (decimalRe classes).lang) :
    ∀ c ∈ v, classes.digit c = true ∨ c = '.' := by
  obtain ⟨w, hw, x, hx, rfl⟩ := Language.mem_mul.mp hv
  intro c hc
  rcases List.mem_append.mp hc with hc | hc
  · exact .inl (of_mem_lang_star_chr hw c hc)
  · rcases hx with hx | rfl
    · obtain ⟨y, ⟨d, hd, rfl⟩, z, hz, rfl⟩ := Language.mem_mul.mp hx
      rcases List.mem_cons.mp hc with rfl | hc
      · exact .inr (of_decide_eq_true hd)
      · exact .inl ((of_mem_lang_plus_chr hz).2 c hc)
    · exact absurd hc List.not_mem_nil

/-- A match that starts before the loss takes a space, which no number has. -/
theorem exec_lossRe_before (s : Summary) (v : Text) (c : Char) (u : Text)
    (h : s.beforeLoss = v ++ c :: u) :
    (lossRe classes).exec (c :: u ++ (s.loss.text ++ s.afterLoss)) = [] := by
  by_contra hmatch
  obtain ⟨d, u₁, heq, hd, h₁⟩ := of_exec_seq_ne_nil hmatch
  obtain ⟨p, u₂, rfl, hp, -⟩ := of_exec_chr_ne_nil h₁
  obtain rfl : p = '%' := of_decide_eq_true hp
  have hnumber := mem_decimalRe hd
  have hpercent : '%' ∉ d := by
    intro hmem
    rcases hnumber '%' hmem with hdigit | hpoint
    · exact not_digit (by decide) rfl hdigit
    · exact absurd hpoint (by decide)
  have hfront : '%' ∉ c :: u ++ s.loss.text := by
    have hbefore := percent_notMem_beforeLoss s
    rw [h] at hbefore
    have hloss := notMem_decimal (c := '%') s.loss rfl (by decide)
    simp only [List.mem_append, not_or] at hbefore ⊢
    exact ⟨hbefore.2, hloss⟩
  have hsplit : c :: u ++ (s.loss.text ++ s.afterLoss) = (c :: u ++ s.loss.text) ++ '%' ::
      (" packet loss, time ".toList ++ (printed s.time ++ "ms".toList)) := by
    rw [List.append_assoc]
    rfl
  rw [hsplit] at heq
  obtain rfl : d = c :: u ++ s.loss.text := by
    have htake : ∀ {x y : Text}, '%' ∉ x → (x ++ '%' :: y).takeWhile (· ≠ '%') = x :=
      fun {x y} hx => takeWhile_ne '%' x y hx
    rw [← htake (y := u₂) hpercent, heq, htake hfront]
  have hspace : ' ' ∈ c :: u := by
    have hlast : s.beforeLoss.getLast? = some ' ' := getLast?_beforeLoss s
    rw [h, List.getLast?_append_of_ne_nil _ (List.cons_ne_nil c u)] at hlast
    exact List.mem_of_getLast? hlast
  rcases hnumber ' ' (List.mem_append_left _ hspace) with hdigit | hpoint
  · exact not_digit (by decide) rfl hdigit
  · exact absurd hpoint (by decide)

theorem wordCapture_loss (s : Summary) :
    wordCapture classes (lossRe classes) s.text = some s.loss.text := by
  rw [s.text_eq_loss]
  refine wordCapture_eq (exec_lossRe_before s) ?_ ?_
  · apply isBoundary_decimal
    rw [getLast?_beforeLoss]
    simpa using word_space
  · have hsplit : "% packet loss, time ".toList =
        '%' :: ' ' :: ("packet".toList ++ ' ' :: ("loss".toList ++ ", time ".toList)) := rfl
    unfold Summary.afterLoss
    simp only [hsplit, List.cons_append, List.append_assoc]
    refine captures_decimal s.loss (endsNumber_cons (by decide) _) (captures_chr rfl ?_)
    exact captures_chr rfl (captures_lit (captures_chr rfl (captures_lit (captures_empty _))))

theorem parsePacketsLine_text (s : Summary) : parsePacketsLine classes s.text =
    { total := some s.transmitted
      rcv := some s.received
      loss := some (.finite s.loss.value)
      drop := some (s.transmitted - s.received) } := by
  have htotal : parseUnsigned 32 (printed s.transmitted) = some s.transmitted :=
    parseUnsigned_toDigits s.transmitted_lt
  have hrcv : parseUnsigned 32 (printed s.received) = some s.received :=
    parseUnsigned_toDigits (s.received_le.trans_lt s.transmitted_lt)
  simp [parsePacketsLine, wordCapture_transmitted, wordCapture_rcv, wordCapture_loss, htotal, hrcv,
    Decimal.parse_text]

/-- The line starts with figures as a reply does, but goes on otherwise. -/
theorem parsePacketLine_summary (s : Summary) : parsePacketLine classes s.text = none := by
  have hnone : (packetRe classes).exec s.text = [] := by
    by_contra hmatch
    obtain ⟨d, u, heq, hd, hu⟩ := of_exec_seq_ne_nil hmatch
    obtain ⟨u', rfl, -⟩ := of_exec_lit_ne_nil hu
    rw [s.text_eq] at heq
    have hspace := space_after_digits (of_mem_lang_plus_chr hd).2
      (fun c hc => isDigit_printed (n := s.transmitted) hc) ⟨' ', _, rfl, rfl⟩ heq
    have hsecond := congrArg (List.take 2) hspace
    change " b".toList = " p".toList at hsecond
    exact absurd hsecond (by decide)
  simp [parsePacketLine, hnone]

end SummaryLine

/-! ## The round-trip times -/

section RttLine
variable {classes : UnicodeClasses}

def RttLine.numbers (r : RttLine) : Text :=
  r.min.text ++ ('/' :: (r.avg.text ++ ('/' :: (r.max.text ++ ('/' ::
    (r.mdev.text ++ " ms".toList))))))

theorem RttLine.text_eq (r : RttLine) : r.text = "rtt".toList ++ (' ' ::
    ("min/avg/max/mdev".toList ++ (' ' :: ('=' :: (' ' :: r.numbers))))) := by
  have hfront : "rtt min/avg/max/mdev = ".toList = "rtt".toList ++ (' ' ::
      ("min/avg/max/mdev".toList ++ [' ', '=', ' '])) := rfl
  have hslash : "/".toList = ['/'] := rfl
  unfold RttLine.text RttLine.numbers
  simp only [hfront, hslash, List.append_assoc, List.cons_append, List.nil_append]

theorem equals_notMem_numbers (r : RttLine) : '=' ∉ r.numbers := by
  have hdecimal : ∀ d : Decimal, '=' ∉ d.text := fun d => notMem_decimal d rfl (by decide)
  unfold RttLine.numbers
  simp only [List.mem_append, List.mem_cons, hdecimal, false_or]
  decide

theorem captures_numbers (r : RttLine) :
    Captures (concat [group 1 (decimalRe classes), chr (· = '/'), group 2 (decimalRe classes),
      chr (· = '/'), group 3 (decimalRe classes)]) r.numbers
      [(1, r.min.text), (2, r.avg.text), (3, r.max.text)] := by
  unfold RttLine.numbers
  refine captures_decimal r.min (endsNumber_cons (by decide) _) (captures_chr rfl ?_)
  refine captures_decimal r.avg (endsNumber_cons (by decide) _) (captures_chr rfl ?_)
  exact captures_decimal r.max (endsNumber_cons (by decide) _) (captures_empty _)

/-- The only equals sign of the line ends what stands before the numbers. -/
theorem captures_rtt (r : RttLine) : Captures (rttRe classes) r.text
    [(1, r.min.text), (2, r.avg.text), (3, r.max.text)] := by
  have hword : ∀ t, ((alt (lit "round-trip".toList) (lit "rtt".toList)).exec
      ("rtt".toList ++ t)).head? = some ⟨"rtt".toList, [], t⟩ := by
    intro t
    have hother : ¬ "round-trip".toList <+: "rtt".toList ++ t := by
      rintro ⟨x, hx⟩
      have hsecond := congrArg (List.take 2) hx
      change "ro".toList = "rt".toList at hsecond
      exact absurd hsecond (by decide)
    rw [exec, exec_lit, if_neg hother, exec_lit, if_pos (List.prefix_append _ _), List.drop_left]
    rfl
  have hnames : "min/avg/max/mdev".toList ∈ (Regex.star true anyChar).lang := by
    apply mem_lang_star_chr
    exact List.all_eq_true.mp (by decide)
  rw [r.text_eq]
  refine captures_first (hword _) (captures_chr rfl ?_)
  refine captures_plain trivial hnames ?_ (captures_chr rfl (captures_chr rfl
    (captures_chr rfl (captures_numbers r))))
  intro v u heq _ hu
  obtain ⟨c, u₁, rfl, -, h₁⟩ := of_exec_chr_ne_nil hu
  obtain ⟨e, u₂, rfl, he, -⟩ := of_exec_chr_ne_nil h₁
  obtain rfl : e = '=' := of_decide_eq_true he
  have hsplit : ("min/avg/max/mdev".toList ++ [' ']) ++ '=' :: (' ' :: r.numbers) =
      (v ++ [c]) ++ '=' :: u₂ := by
    rw [List.append_assoc, List.append_assoc]
    exact heq.symm
  have hnumbers : '=' ∉ ' ' :: r.numbers := by simp [equals_notMem_numbers r]
  obtain ⟨hfront, -, rfl⟩ := (List.append_cons_inj_of_notMem (by decide) hnumbers).mp hsplit
  obtain ⟨-, hlast⟩ := List.append_inj' hfront rfl
  rw [List.cons.inj hlast |>.1]

theorem parseRttLine_text (stats : PingStats) (r : RttLine) :
    parseRttLine classes stats r.text =
      { stats with
        min := some (.finite r.min.value)
        avg := some (.finite r.avg.value)
        max := some (.finite r.max.value) } := by
  obtain ⟨m, hm, hcaps⟩ : Captures (rttRe classes) r.text
      [(1, r.min.text), (2, r.avg.text), (3, r.max.text)] := captures_rtt r
  have hmin : m.get 1 = some r.min.text := by simp [Match.get, hcaps, List.lookup_cons]
  have havg : m.get 2 = some r.avg.text := by simp [Match.get, hcaps, List.lookup_cons]
  have hmax : m.get 3 = some r.max.text := by simp [Match.get, hcaps]
  simp [parseRttLine, hm, hmin, havg, hmax, Decimal.parse_text]

end RttLine

/-! ## The header of the statistics -/

section StatsHeader
variable {classes : UnicodeClasses}

theorem isPrefixMatch_of_mem_lang {r : Regex Char} {w : Text} (hw : w ∈ r.lang) (t : Text) :
    r.isPrefixMatch (w ++ t) = true := by
  obtain ⟨m, hm, -⟩ := r.exec_complete w hw t
  simp [isPrefixMatch, List.ne_nil_of_mem hm]

theorem statsHeader_matches (h : Header) : statsHeaderRe.isPrefixMatch h.statsText = true := by
  have hping : ∀ c ∈ h.host.val ++ " ping".toList, decide (c ≠ '\n') = true := by
    intro c hc
    apply decide_eq_true
    rintro rfl
    rcases List.mem_append.mp hc with hc | hc
    · exact notMem_host h.host rfl hc
    · exact absurd hc (by decide)
  have hlang : h.statsText ∈ statsHeaderRe.lang := by
    refine mem_lang_concat_cons.mpr ⟨_, mem_lang_lit _, ' ' :: (h.host.val ++ " ping".toList) ++
      ' ' :: "statistics ---".toList, ?_, ?_⟩
    · refine mem_lang_concat_cons.mpr ⟨[' '], ⟨' ', rfl, rfl⟩, (h.host.val ++ " ping".toList) ++
        ' ' :: "statistics ---".toList, ?_, rfl⟩
      refine mem_lang_concat_cons.mpr ⟨_, mem_lang_star_chr hping,
        ' ' :: "statistics ---".toList, ?_, rfl⟩
      refine mem_lang_concat_cons.mpr ⟨[' '], ⟨' ', rfl, rfl⟩, "statistics ---".toList, ?_, rfl⟩
      exact mem_lang_concat_cons.mpr ⟨_, mem_lang_lit _, [], rfl, List.append_nil _⟩
    · have hfront : "--- ".toList = "---".toList ++ [' '] := rfl
      have hback : " ping statistics ---".toList =
          " ping".toList ++ (' ' :: "statistics ---".toList) := rfl
      unfold Header.statsText
      simp only [hfront, hback, List.append_assoc, List.cons_append, List.nil_append]
  rw [← List.append_nil h.statsText]
  exact isPrefixMatch_of_mem_lang hlang []

theorem statsHeader_of_head {line : Text} (h : line.head? ≠ some '-') :
    statsHeaderRe.isPrefixMatch line = false := by
  have hnone : statsHeaderRe.exec line = [] := by
    apply exec_eq_nil_of_start (P := fun c => c = '-')
    · exact starts_lit (w := "--".toList) rfl
    · rintro c hc rfl
      exact h hc
  simp [isPrefixMatch, hnone]

theorem head?_header (h : Header) : h.text.head? = some 'P' := by
  unfold Header.text
  cases h.name <;> rfl

theorem Reply.text_eq_cons (r : Reply) : ∃ c rest, r.text = c :: rest ∧ c.isDigit = true := by
  obtain ⟨c, rest, hcons⟩ := List.exists_cons_of_ne_nil (printed_ne_nil r.bytes)
  have hc : c ∈ printed r.bytes := by simp [hcons]
  rw [r.text_eq, hcons]
  exact ⟨c, _, rfl, isDigit_printed hc⟩

theorem statsHeader_packet (p : PacketLine) : statsHeaderRe.isPrefixMatch p.text = false := by
  apply statsHeader_of_head
  cases p with
  | reply r =>
    change r.text.head? ≠ some '-'
    obtain ⟨c, rest, hcons, hdigit⟩ := r.text_eq_cons
    rw [hcons]
    intro h
    obtain rfl : c = '-' := Option.some.inj h
    exact absurd hdigit (by decide)
  | noAnswer n =>
    intro h
    have hfirst : 'n' = '-' := Option.some.inj h
    exact absurd hfirst (by decide)
  | error message =>
    intro h
    have hfirst : 'F' = '-' := Option.some.inj h
    exact absurd hfirst (by decide)

theorem findIdx?_append_cons {α : Type} {p : α → Bool} {front later : List α} {a : α}
    (hfront : ∀ b ∈ front, p b = false) (ha : p a = true) :
    (front ++ a :: later).findIdx? p = some front.length := by
  have hnone : front.findIdx? p = none := List.findIdx?_eq_none_iff.mpr hfront
  simp [List.findIdx?_append, hnone, List.findIdx?_cons, ha]

theorem parseStats_lines (t : Transcript) : parseStats classes t.lines = t.stats := by
  have hlines : t.lines = (t.header.text :: t.packets.map PacketLine.text ++ [[]]) ++
      t.header.statsText :: t.summary.text :: (t.rtt.map RttLine.text).toList := by
    simp [Transcript.lines]
  have hfront : ∀ l ∈ t.header.text :: t.packets.map PacketLine.text ++ [[]],
      statsHeaderRe.isPrefixMatch l = false := by
    intro l hl
    simp only [List.cons_append, List.mem_cons, List.mem_append, List.mem_map, List.not_mem_nil,
      or_false] at hl
    rcases hl with rfl | ⟨p, -, rfl⟩ | rfl
    · apply statsHeader_of_head
      rw [head?_header]
      decide
    · exact statsHeader_packet p
    · exact statsHeader_of_head (by simp)
  rw [hlines, parseStats, findIdx?_append_cons hfront (statsHeader_matches t.header)]
  have hdrop : ∀ (front later : List Text) a, (front ++ a :: later).drop (front.length + 1) =
      later := by
    intro front later a
    rw [← List.drop_drop, List.drop_left, List.drop_one, List.tail_cons]
  simp only [hdrop]
  cases hrtt : t.rtt with
  | none =>
    rw [Option.map_none, Option.toList_none, parseSummary, parsePacketsLine_text]
    simp [Transcript.stats, hrtt]
  | some r =>
    rw [Option.map_some, Option.toList_some, parseSummary, parsePacketsLine_text,
      parseRttLine_text]
    simp [Transcript.stats, hrtt]

end StatsHeader

/-! ## The whole transcript -/

section Whole
variable {classes : UnicodeClasses}

/-- A carriage return or a line feed. -/
def IsLineEnd (c : Char) : Prop := c = '\r' ∨ c = '\n'

section LineEnds
variable {c : Char}

theorem IsLineEnd.isDigit_eq_false (hc : IsLineEnd c) : c.isDigit = false := by
  rcases hc with rfl | rfl <;> rfl

theorem IsLineEnd.notMem_printed (hc : IsLineEnd c) (n : ℕ) : c ∉ printed n :=
  Ping.notMem_printed n hc.isDigit_eq_false

theorem IsLineEnd.notMem_decimal (hc : IsLineEnd c) (d : Decimal) : c ∉ d.text := by
  apply Ping.notMem_decimal d hc.isDigit_eq_false
  rcases hc with rfl | rfl <;> decide

theorem IsLineEnd.notMem_host (hc : IsLineEnd c) (h : Host) : c ∉ h.val := by
  apply Ping.notMem_host h
  rcases hc with rfl | rfl <;> rfl

theorem IsLineEnd.notMem_line (hc : IsLineEnd c) (l : LineText) : c ∉ l.val := by
  rcases hc with rfl | rfl
  · exact l.property.1
  · exact l.property.2

theorem IsLineEnd.notMem_header (hc : IsLineEnd c) (h : Header) : c ∉ h.text := by
  unfold Header.text
  split <;> simp only [List.mem_append, hc.notMem_host, hc.notMem_line, or_false] <;>
    rcases hc with rfl | rfl <;> decide

theorem IsLineEnd.notMem_statsText (hc : IsLineEnd c) (h : Header) : c ∉ h.statsText := by
  unfold Header.statsText
  simp only [List.mem_append, hc.notMem_host, or_false]
  rcases hc with rfl | rfl <;> decide

theorem IsLineEnd.notMem_reply (hc : IsLineEnd c) (r : Reply) : c ∉ r.text := by
  have hsource : c ∉ r.source := by
    unfold Reply.source
    split <;> simp only [List.mem_append, hc.notMem_host, or_false, not_false_eq_true]
    rcases hc with rfl | rfl <;> decide
  have hflag : c ∉ if r.duplicate then " (DUP!)".toList else [] := by
    rcases hc with rfl | rfl <;> cases r.duplicate <;> decide
  unfold Reply.text
  simp only [List.mem_append, hc.notMem_printed, hsource, hc.notMem_decimal, hflag, or_false,
    false_or]
  rcases hc with rfl | rfl <;> decide

theorem IsLineEnd.notMem_packet (hc : IsLineEnd c) (p : PacketLine) : c ∉ p.text := by
  cases p with
  | reply r => exact hc.notMem_reply r
  | noAnswer n =>
    change c ∉ "no answer yet for icmp_seq=".toList ++ printed n
    simp only [List.mem_append, hc.notMem_printed, or_false]
    rcases hc with rfl | rfl <;> decide
  | error message =>
    change c ∉ "From ".toList ++ message.val
    simp only [List.mem_append, hc.notMem_line, or_false]
    rcases hc with rfl | rfl <;> decide

theorem IsLineEnd.notMem_summary (hc : IsLineEnd c) (s : Summary) : c ∉ s.text := by
  have hextra : ∀ n what, c ∉ what → c ∉ extraCount n what := by
    intro n what hwhat
    apply notMem_extraCount n hc.isDigit_eq_false _ hwhat
    rcases hc with rfl | rfl <;> decide
  have hdup : c ∉ extraCount s.duplicates " duplicates".toList :=
    hextra _ _ (by rcases hc with rfl | rfl <;> decide)
  have herr : c ∉ extraCount s.errors " errors".toList :=
    hextra _ _ (by rcases hc with rfl | rfl <;> decide)
  unfold Summary.text
  simp only [List.mem_append, hc.notMem_printed, hc.notMem_decimal, hdup, herr, or_false, false_or]
  rcases hc with rfl | rfl <;> decide

theorem IsLineEnd.notMem_rtt (hc : IsLineEnd c) (r : RttLine) : c ∉ r.text := by
  unfold RttLine.text
  simp only [List.mem_append, hc.notMem_decimal, or_false]
  rcases hc with rfl | rfl <;> decide

theorem IsLineEnd.notMem_lines (hc : IsLineEnd c) (t : Transcript) : ∀ l ∈ t.lines, c ∉ l := by
  intro l hl
  simp only [Transcript.lines, List.mem_append, List.mem_cons, List.mem_map, Option.mem_toList,
    Option.map_eq_some_iff] at hl
  rcases hl with (rfl | ⟨p, -, rfl⟩) | rfl | rfl | rfl | ⟨r, -, rfl⟩
  · exact hc.notMem_header t.header
  · exact hc.notMem_packet p
  · exact List.not_mem_nil
  · exact hc.notMem_statsText t.header
  · exact hc.notMem_summary t.summary
  · exact hc.notMem_rtt r

end LineEnds

theorem lines_text (t : Transcript) : Foundation.lines t.text = t.lines := by
  rw [Transcript.text, lines_flatMap_endLf (IsLineEnd.notMem_lines (.inr rfl) t)]
  have hstrip : ∀ l ∈ t.lines, stripCr l = l :=
    fun l hl => stripCr_of_notMem (IsLineEnd.notMem_lines (.inl rfl) t l hl)
  rw [List.map_congr_left hstrip, List.map_id']

/-- Only the lines of the packets tell of packets. -/
theorem timings_lines (t : Transcript) :
    t.lines.tail.filterMap (parsePacketLine classes) = t.timings := by
  have hhead : ∀ {line : Text} {c : Char}, line.head? = some c → c.toNat < 128 →
      c.isDigit = false → parsePacketLine classes line = none := by
    intro line c hline hascii hdigit
    apply parsePacketLine_of_head
    intro d hd
    obtain rfl : c = d := Option.some.inj (hline.symm.trans hd)
    exact classes.digit_eq_false hascii hdigit
  have hempty : parsePacketLine classes [] = none := parsePacketLine_of_head (by simp)
  have hstats : parsePacketLine classes t.header.statsText = none :=
    hhead (c := '-') rfl (by decide) rfl
  have hrtt : ∀ r : RttLine, parsePacketLine classes r.text = none :=
    fun r => hhead (c := 'r') rfl (by decide) rfl
  have hpackets : (t.packets.map PacketLine.text).filterMap (parsePacketLine classes) =
      t.timings := by
    rw [List.filterMap_map]
    apply List.filterMap_congr
    intro p _
    exact parsePacketLine_text p
  have hlines : t.lines.tail = t.packets.map PacketLine.text ++
      [] :: t.header.statsText :: t.summary.text :: (t.rtt.map RttLine.text).toList := rfl
  have hback : ((t.rtt.map RttLine.text).toList).filterMap (parsePacketLine classes) = [] := by
    cases t.rtt with
    | none => rfl
    | some r => simp [hrtt r]
  rw [hlines, List.filterMap_append, hpackets]
  simp [hempty, hstats, parsePacketLine_summary, hback]

/-- Parsing a transcript gives back what it tells. -/
theorem parse_transcript (classes : UnicodeClasses) (t : Transcript) :
    (parse classes t.text).status = .finished ∧
    (parse classes t.text).resolvedAddress = some t.header.addr.val ∧
    (parse classes t.text).timings = t.timings ∧ (parse classes t.text).stats = t.stats := by
  obtain ⟨m, hm, hcaps⟩ := captures_header t.header
  have haddr : m.get 2 = some t.header.addr.val := by simp [Match.get, hcaps]
  have hlines : Foundation.lines t.text = t.header.text :: t.lines.tail := lines_text t
  have hwhole : t.header.text :: t.lines.tail = t.lines := rfl
  unfold parse
  simp only [hlines, hm]
  exact ⟨trivial, haddr, timings_lines t, by rw [hwhole, parseStats_lines]⟩

end Whole

end GlobalpingProbe.Command.Ping
