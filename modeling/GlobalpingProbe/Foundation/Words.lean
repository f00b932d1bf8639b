import GlobalpingProbe.Foundation.Strings

/-! # The words of a text

Joining the words of a text with one space each gives the text back exactly when it is single
spaced. A number in decimal is one word, which reads as that number.
-/
namespace Foundation

/-- A word that white space or the end of the text follows. -/
theorem splitWhitespace_word_cons {w : List Char} {c : Char} (hne : w ≠ [])
    (hw : ∀ d ∈ w, isWhitespace d = false) (hc : isWhitespace c = true) (s : List Char) :
    splitWhitespace (w ++ c :: s) = w :: splitWhitespace s := by
  rw [splitWhitespace_append_cons hc, splitWhitespace_word hne hw]
  rfl

theorem flatten_splitOnP {α : Type} (p : α → Bool) (s : List α) :
    (s.splitOnP p).flatten = s.filter (!p ·) := by
  induction s with
  | nil => rfl
  | cons c s ih =>
    rw [List.splitOnP_cons_eq_if_modifyHead]
    split_ifs with hc
    · simp [hc, ih]
    · cases hs : s.splitOnP p with
      | nil => exact absurd hs (List.splitOnP_ne_nil p s)
      | cons w ws =>
        rw [hs] at ih
        simp [hc, ← ih]

theorem mem_of_mem_lines {s line : List Char} {c : Char} (hc : c ∈ line) (h : line ∈ lines s) :
    c ∈ s := by
  obtain ⟨l, hl, hmem⟩ := mem_of_mem_endLines hc h
  have hflat : c ∈ (s.splitOn '\n').flatten := List.mem_flatten.mpr ⟨l, hl, hmem⟩
  rw [List.splitOn_eq_splitOnP, flatten_splitOnP] at hflat
  exact (List.mem_filter.mp hflat).1

theorem mem_stripCr {line : List Char} {c : Char} (hc : c ∈ line) (h : c ≠ '\r') :
    c ∈ stripCr line := by
  unfold stripCr
  split_ifs with hlast
  · obtain ⟨front, rfl⟩ := List.getLast?_eq_some_iff.mp hlast
    rw [List.dropLast_concat]
    simpa [h] using hc
  · exact hc

theorem exists_endLine_of_mem {ls : List (List Char)} {l : List Char} {c : Char} (hl : l ∈ ls)
    (hc : c ∈ l) (h : c ≠ '\r') : ∃ line ∈ endLines ls, c ∈ line := by
  induction ls with
  | nil => exact absurd hl List.not_mem_nil
  | cons first later ih =>
    by_cases hlater : later = []
    · subst hlater
      obtain rfl := List.mem_singleton.mp hl
      have hne : l.isEmpty = false := by
        rw [List.isEmpty_eq_false_iff]
        exact List.ne_nil_of_mem hc
      exact ⟨l, by simp [endLines, hne], hc⟩
    · rw [endLines_cons hlater]
      rcases List.mem_cons.mp hl with rfl | hl
      · exact ⟨stripCr l, List.mem_cons_self, mem_stripCr hc h⟩
      · obtain ⟨line, hline, hmem⟩ := ih hl
        exact ⟨line, List.mem_cons_of_mem _ hline, hmem⟩

theorem exists_line_of_mem {s : List Char} {c : Char} (hc : c ∈ s) (hlf : c ≠ '\n')
    (hcr : c ≠ '\r') : ∃ line ∈ lines s, c ∈ line := by
  have hflat : c ∈ (s.splitOn '\n').flatten := by
    rw [List.splitOn_eq_splitOnP, flatten_splitOnP]
    simp [hc, hlf]
  obtain ⟨l, hl, hmem⟩ := List.mem_flatten.mp hflat
  exact exists_endLine_of_mem hl hmem hcr

/-- Only white space is trimmed to nothing, which the lines of a text tell. -/
theorem trim_isEmpty_iff {s : List Char} : (trim s).isEmpty = true ↔
    ∀ line ∈ lines s, ∀ c ∈ line, isWhitespace c = true := by
  rw [List.isEmpty_iff]
  constructor
  · intro h line hline c hc
    by_contra hw
    exact trim_ne_nil (mem_of_mem_lines hc hline) (by simpa using hw) h
  · intro h
    have hall : ∀ c ∈ s, isWhitespace c = true := by
      intro c hc
      by_cases hlf : c = '\n'
      · rw [hlf]
        decide
      by_cases hcr : c = '\r'
      · rw [hcr]
        decide
      obtain ⟨line, hline, hmem⟩ := exists_line_of_mem hc hlf hcr
      exact h line hline c hmem
    rw [trim, List.dropWhile_eq_nil_iff.mpr hall]
    rfl

theorem flatten_splitWhitespace (s : List Char) :
    (splitWhitespace s).flatten = s.filter (!isWhitespace ·) := by
  rw [← flatten_splitOnP, splitWhitespace]
  induction s.splitOnP isWhitespace with
  | nil => rfl
  | cons w ws ih =>
    cases w with
    | nil => simpa using ih
    | cons c w => simpa using ih

theorem mem_splitWhitespace {s w : List Char} (h : w ∈ splitWhitespace s) :
    w ≠ [] ∧ ∀ c ∈ w, isWhitespace c = false := by
  refine ⟨fun he => by simp [splitWhitespace, he] at h, fun c hc => ?_⟩
  have hmem : c ∈ (splitWhitespace s).flatten := List.mem_flatten.mpr ⟨w, h, hc⟩
  rw [flatten_splitWhitespace] at hmem
  simpa using (List.mem_filter.mp hmem).2

/-- White space is single spaces between words. -/
def SingleSpaced (s : List Char) : Prop :=
  (∀ c ∈ s, isWhitespace c = true → c = ' ') ∧ [] ∉ s.splitOn ' '

instance (s : List Char) : Decidable (SingleSpaced s) :=
  @instDecidableAnd _ _ (List.decidableBAll _ s) inferInstance

theorem splitOnP_congr {p q : Char → Bool} {s : List Char} (h : ∀ c ∈ s, p c = q c) :
    s.splitOnP p = s.splitOnP q := by
  induction s with
  | nil => rfl
  | cons c s ih =>
    rw [List.splitOnP_cons_eq_if_modifyHead, List.splitOnP_cons_eq_if_modifyHead,
      h c (by simp), ih (fun d hd => h d (by simp [hd]))]

theorem mem_intercalate {x c : Char} {ls : List (List Char)} (h : c ∈ [x].intercalate ls) :
    c = x ∨ ∃ l ∈ ls, c ∈ l := by
  induction ls with
  | nil => simp [List.intercalate] at h
  | cons l ls ih =>
    cases ls with
    | nil => exact .inr ⟨l, by simp, by simpa [List.intercalate] using h⟩
    | cons m ls =>
      rw [List.intercalate_cons_cons, List.mem_append, List.mem_append, List.mem_singleton] at h
      rcases h with (h | h) | h
      · exact .inr ⟨l, by simp, h⟩
      · exact .inl h
      · exact (ih h).imp_right (fun ⟨k, hk, hc⟩ => ⟨k, List.mem_cons_of_mem _ hk, hc⟩)

theorem intercalate_splitWhitespace {s : List Char} (hne : s ≠ []) :
    [' '].intercalate (splitWhitespace s) = s ↔ SingleSpaced s := by
  constructor
  · intro h
    have hwords : splitWhitespace s ≠ [] := by
      intro he
      rw [he] at h
      exact hne h.symm
    have hspace : ∀ w ∈ splitWhitespace s, ' ' ∉ w := by
      intro w hw hmem
      exact absurd ((mem_splitWhitespace hw).2 ' ' hmem) (by decide)
    refine ⟨fun c hc hws => ?_, fun hmem => ?_⟩
    · rw [← h] at hc
      rcases mem_intercalate hc with rfl | ⟨w, hw, hcw⟩
      · rfl
      · rw [(mem_splitWhitespace hw).2 c hcw] at hws
        cases hws
    · rw [← h, List.splitOn_intercalate ' ' hspace hwords] at hmem
      exact (mem_splitWhitespace hmem).1 rfl
  · rintro ⟨hspaces, hpieces⟩
    have hsame : s.splitOnP isWhitespace = s.splitOn ' ' := by
      rw [List.splitOn_eq_splitOnP]
      apply splitOnP_congr
      intro c hc
      cases hws : isWhitespace c with
      | true =>
        rw [hspaces c hc hws]
        rfl
      | false =>
        have hcne : c ≠ ' ' := by
          rintro rfl
          cases hws
        exact (beq_eq_false_iff_ne.mpr hcne).symm
    have hall : splitWhitespace s = s.splitOn ' ' := by
      rw [splitWhitespace, hsame, List.filter_eq_self]
      intro w hw
      cases w with
      | nil => exact absurd hw hpieces
      | cons => rfl
    rw [hall, List.intercalate_splitOn]

theorem count_intercalate {x c : Char} (h : c ≠ x) (ls : List (List Char)) :
    ([x].intercalate ls).count c = ls.flatten.count c := by
  induction ls with
  | nil => rfl
  | cons l ls ih =>
    cases ls with
    | nil => simp [List.intercalate]
    | cons m ls =>
      rw [List.intercalate_cons_cons, List.count_append, List.count_append, ih,
        List.flatten_cons, List.count_append, List.count_singleton]
      simp [h.symm]

/-- What is not white space is counted word by word. -/
theorem count_splitWhitespace {c : Char} (h : isWhitespace c = false) (s : List Char) :
    s.count c = (splitWhitespace s).flatten.count c := by
  rw [flatten_splitWhitespace, List.count_filter (by simp [h])]

/-! ## Numbers in decimal -/

theorem toDigit_digitChar {d : ℕ} (h : d < 10) : toDigit 10 d.digitChar = some d := by
  have hall : (List.range 10).all (fun d => toDigit 10 d.digitChar = some d) = true := by decide
  exact of_decide_eq_true (List.all_eq_true.mp hall d (List.mem_range.mpr h))

theorem numeralValue_toDigits (n : ℕ) : numeralValue 10 (Nat.toDigits 10 n) = n := by
  induction n using Nat.strongRecOn with
  | ind n ih =>
    rw [Nat.toDigits_eq_if (by decide)]
    split_ifs with hn
    · simp [numeralValue, toDigit_digitChar hn]
    · have hdiv := ih (n / 10) (Nat.div_lt_self (by omega) (by decide))
      unfold numeralValue at hdiv ⊢
      rw [List.foldl_append, hdiv]
      simp only [List.foldl_cons, List.foldl_nil, toDigit_digitChar (Nat.mod_lt n (by decide)),
        Option.getD_some]
      omega

theorem isDigitOf_of_isDigit {c : Char} (h : c.isDigit = true) : isDigitOf 10 c = true := by
  have hbounds : '0'.toNat ≤ c.toNat ∧ c.toNat ≤ '9'.toNat := by
    simpa [Char.isDigit, UInt32.le_iff_toNat_le] using h
  have hlt : c.toNat - '0'.toNat < 10 := by
    have h0 : '0'.toNat = 48 := rfl
    have h9 : '9'.toNat = 57 := rfl
    omega
  simpa [isDigitOf, toDigit, digitCode, h, Option.filter] using hlt

theorem isDigitOf_toDigits {n : ℕ} {c : Char} (h : c ∈ Nat.toDigits 10 n) :
    isDigitOf 10 c = true :=
  isDigitOf_of_isDigit (Nat.isDigit_of_mem_toDigits (by decide) (by decide) h)

theorem notMem_of_parseUnsigned {bits n : ℕ} {s : List Char} {c : Char}
    (h : parseUnsigned bits s = some n) (hdigit : isDigitOf 10 c = false) (hplus : c ≠ '+') :
    c ∉ s := by
  have hall : ∀ d ∈ (if s.head? = some '+' then s.tail else s), isDigitOf 10 d = true := by
    simp only [parseUnsigned, Option.ite_none_left_eq_some, not_or, Bool.not_eq_false,
      List.all_eq_true] at h
    exact h.1.2.1
  intro hc
  split_ifs at hall with hhead
  · obtain ⟨rest, rfl⟩ := List.head?_eq_some_iff.mp hhead
    rcases List.mem_cons.mp hc with rfl | hc
    · exact hplus rfl
    · rw [hall c hc] at hdigit
      cases hdigit
  · rw [hall c hc] at hdigit
    cases hdigit

/-- A number reads as itself when it is printed. -/
theorem parseUnsigned_toDigits {bits n : ℕ} (h : n < 2 ^ bits) :
    parseUnsigned bits (Nat.toDigits 10 n) = some n := by
  have hplus : (Nat.toDigits 10 n).head? ≠ some '+' := by
    intro he
    exact absurd (isDigitOf_toDigits (List.mem_of_head? he)) (by decide)
  have hall : (Nat.toDigits 10 n).all (isDigitOf 10) = true :=
    List.all_eq_true.mpr (fun c hc => isDigitOf_toDigits hc)
  simp [parseUnsigned, hplus, hall, numeralValue_toDigits, h]

theorem toDigits_noSpace {n : ℕ} {c : Char} (h : c ∈ Nat.toDigits 10 n) : isWhitespace c = false :=
  isWhitespace_of_isAlphanum (isAlphanum_of_isDigitOf (isDigitOf_toDigits h))

theorem head?_trim (s : List Char) : ∀ c ∈ (trim s).head?, isWhitespace c = false := by
  intro c hc
  obtain ⟨rest, hrest⟩ : trim s <+: s.dropWhile isWhitespace := List.rdropWhile_prefix _ _
  have hhead : (s.dropWhile isWhitespace).head? = some c := by
    rw [← hrest, List.head?_append, Option.mem_def.mp hc]
    rfl
  have hnot := List.head?_dropWhile_not isWhitespace s
  rwa [hhead] at hnot

end Foundation
