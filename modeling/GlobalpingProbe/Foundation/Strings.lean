import GlobalpingProbe.Foundation.Numeral
import Mathlib.Algebra.Ring.Nat
import Mathlib.Data.List.Basic
import Mathlib.Data.List.DropRight
import Mathlib.Data.List.Infix

/-! # Operations on texts

Splitting, trimming, searching and replacing, as string libraries have them. White space is
a property of Unicode with few members; of the larger classes of digits and word characters
only what they hold inside ASCII is assumed.
-/
namespace Foundation

/-- The property `White_Space`. -/
def isWhitespace (c : Char) : Bool :=
  let n := c.toNat
  (9 ≤ n && n ≤ 13) || n = 0x20 || n = 0x85 || n = 0xA0 || n = 0x1680 ||
    (0x2000 ≤ n && n ≤ 0x200A) || n = 0x2028 || n = 0x2029 || n = 0x202F || n = 0x205F || n = 0x3000

theorem toNat_of_isAlphanum {c : Char} (h : c.isAlphanum = true) :
    (48 ≤ c.toNat ∧ c.toNat ≤ 57) ∨ (65 ≤ c.toNat ∧ c.toNat ≤ 90) ∨
      (97 ≤ c.toNat ∧ c.toNat ≤ 122) := by
  have hnat : c.toNat = c.val.toNat := rfl
  have hclass : (decide (c.val ≥ 'A'.val ∧ c.val ≤ 'Z'.val) ||
      (decide (c.val ≥ 'a'.val) && decide (c.val ≤ 'z'.val)) ||
      (decide (c.val ≥ '0'.val) && decide (c.val ≤ '9'.val))) = true := h
  have hA : 'A'.val.toNat = 65 := rfl
  have hZ : 'Z'.val.toNat = 90 := rfl
  have ha : 'a'.val.toNat = 97 := rfl
  have hz : 'z'.val.toNat = 122 := rfl
  have h0 : '0'.val.toNat = 48 := rfl
  have h9 : '9'.val.toNat = 57 := rfl
  simp only [Bool.or_eq_true, Bool.and_eq_true, decide_eq_true_eq, ge_iff_le,
    UInt32.le_iff_toNat_le, ← hnat] at hclass
  omega

theorem isWhitespace_of_isAlphanum {c : Char} (h : c.isAlphanum = true) :
    isWhitespace c = false := by
  have hrange := toNat_of_isAlphanum h
  simp only [isWhitespace, Bool.or_eq_false_iff, Bool.and_eq_false_iff, decide_eq_false_iff_not]
  omega

/-- A text that is checked for white space as a whole. -/
theorem isWhitespace_of_mem_blanks {n : ℕ} {c : Char} (h : c ∈ List.replicate n ' ') :
    isWhitespace c = true := by
  rw [List.eq_of_mem_replicate h]
  rfl

theorem visible_of_all {s : List Char} (h : s.all (!isWhitespace ·) = true) :
    ∀ c ∈ s, isWhitespace c = false := fun c hc => by simpa using List.all_eq_true.mp h c hc

/-- The classes of decimal digits and of word characters. -/
structure UnicodeClasses where
  digit : Char → Bool
  word : Char → Bool
  digit_ascii : ∀ c, c.toNat < 128 → digit c = c.isDigit
  word_ascii : ∀ c, c.toNat < 128 → word c = (c.isAlphanum || c = '_')

def UnicodeClasses.ascii : UnicodeClasses where
  digit c := c.isDigit
  word c := c.isAlphanum || c = '_'
  digit_ascii _ _ := rfl
  word_ascii _ _ := rfl

theorem UnicodeClasses.digit_of_isDigit (classes : UnicodeClasses) {c : Char}
    (h : c.isDigit = true) : classes.digit c = true := by
  rw [classes.digit_ascii c ?_, h]
  have hle : c.toNat ≤ '9'.toNat := by
    simp only [Char.isDigit, Bool.and_eq_true, decide_eq_true_eq] at h
    exact h.2
  exact hle.trans_lt (by decide)

theorem UnicodeClasses.digit_eq_false (classes : UnicodeClasses) {c : Char} (h : c.toNat < 128)
    (hd : c.isDigit = false) : classes.digit c = false := by
  rw [classes.digit_ascii c h, hd]

theorem UnicodeClasses.word_eq_false (classes : UnicodeClasses) {c : Char} (h : c.toNat < 128)
    (hw : (c.isAlphanum || c = '_') = false) : classes.word c = false := by
  rw [classes.word_ascii c h, hw]

/-- A number in decimal with at most `bits` bits, which may have a plus sign in front. -/
def parseUnsigned (bits : ℕ) (s : List Char) : Option ℕ :=
  let ds := if s.head? = some '+' then s.tail else s
  if ds.isEmpty ∨ ds.all (isDigitOf 10) = false ∨ 2 ^ bits ≤ numeralValue 10 ds then none
  else some (numeralValue 10 ds)

section Split

def splitWhitespace (s : List Char) : List (List Char) :=
  (s.splitOnP isWhitespace).filter (!·.isEmpty)

def trimMatches (p : Char → Bool) (s : List Char) : List Char := (s.dropWhile p).rdropWhile p

def trim (s : List Char) : List Char := (s.dropWhile isWhitespace).rdropWhile isWhitespace

/-- At most `n` pieces; the last one is all that is left. -/
def splitn (sep : Char) : ℕ → List Char → List (List Char)
  | 0, _ => []
  | 1, s => [s]
  | n + 2, s =>
    match s.dropWhile (· ≠ sep) with
    | [] => [s]
    | _ :: rest => s.takeWhile (· ≠ sep) :: splitn sep (n + 1) rest

theorem splitWhitespace_append_cons {c : Char} (hc : isWhitespace c = true) (s t : List Char) :
    splitWhitespace (s ++ c :: t) = splitWhitespace s ++ splitWhitespace t := by
  rw [splitWhitespace, List.splitOnP_append_cons s t hc, List.filter_append]
  rfl

theorem splitWhitespace_word {s : List Char} (hne : s ≠ [])
    (h : ∀ c ∈ s, isWhitespace c = false) : splitWhitespace s = [s] := by
  rw [splitWhitespace, List.splitOnP_eq_singleton h]
  simp [hne]

/-- A carriage return before the end of the line belongs to it. -/
def stripCr (line : List Char) : List Char :=
  if line.getLast? = some '\r' then line.dropLast else line

/-- The lines that a text is split into: the last one ended only if nothing follows. -/
def endLines : List (List Char) → List (List Char)
  | [] => []
  | [last] => if last.isEmpty then [] else [last]
  | line :: later => stripCr line :: endLines later

/-- The lines of a text without what ends them. -/
def lines (s : List Char) : List (List Char) := endLines (s.splitOn '\n')

def joinLines (ls : List (List Char)) : List Char := ['\n'].intercalate ls

theorem splitOn_joinLines {ls : List (List Char)} (hne : ls ≠ []) (h : ∀ l ∈ ls, '\n' ∉ l) :
    (joinLines ls).splitOn '\n' = ls := List.splitOn_intercalate '\n' h hne

theorem notMem_of_mem_splitOn {c : Char} {s l : List Char} (h : l ∈ s.splitOn c) : c ∉ l := by
  induction s generalizing l with
  | nil =>
    obtain rfl : l = [] := by simpa [List.splitOn_nil] using h
    exact List.not_mem_nil
  | cons d s ih =>
    rw [List.splitOn_cons_eq_if_modifyHead] at h
    split_ifs at h with hd
    · rcases List.mem_cons.mp h with rfl | h
      · exact List.not_mem_nil
      · exact ih h
    · cases hs : s.splitOn c with
      | nil => exact absurd hs (List.splitOn_ne_nil c s)
      | cons front later =>
        rw [hs, List.modifyHead_cons] at h
        rcases List.mem_cons.mp h with rfl | h
        · simp only [List.mem_cons, not_or]
          exact ⟨fun heq => hd (by simp [heq]), ih (by simp [hs])⟩
        · exact ih (by simp [hs, h])

/-- Lines that are joined are found again, up to what ends them. -/
theorem lines_joinLines {ls : List (List Char)} (hne : ls ≠ []) (h : ∀ l ∈ ls, '\n' ∉ l) :
    lines (joinLines ls) = endLines ls := by
  rw [lines, splitOn_joinLines hne h]

theorem endLines_cons {line : List Char} {later : List (List Char)} (h : later ≠ []) :
    endLines (line :: later) = stripCr line :: endLines later := by
  cases later with
  | nil => exact absurd rfl h
  | cons => rfl

theorem endLines_concat_ne_nil {ls : List (List Char)} {last : List Char} (h : last ≠ []) :
    endLines (ls ++ [last]) ≠ [] := by
  cases ls with
  | nil => simp [endLines, h]
  | cons line ls => simp [endLines_cons]

theorem length_endLines_le (ls : List (List Char)) : (endLines ls).length ≤ ls.length := by
  induction ls with
  | nil => exact Nat.le_refl 0
  | cons line later ih =>
    by_cases hlater : later = []
    · subst hlater
      rw [endLines]
      split <;> simp
    · rw [endLines_cons hlater]
      simpa using ih

/-- Lines up to one with a text are kept whatever follows. -/
theorem prefix_endLines {front later : List (List Char)} {last : List Char} (hlast : last ≠ [])
    (hfront : ∀ l ∈ front, stripCr l = l) (hstrip : stripCr last = last)
    (h : front ++ [last] <+: later) : front ++ [last] <+: endLines later := by
  obtain ⟨rest, rfl⟩ := h
  induction front with
  | nil =>
    cases rest with
    | nil => simp [endLines, hlast]
    | cons line rest => simp [endLines_cons, hstrip]
  | cons line front ih =>
    have hlater : endLines (line :: (front ++ [last] ++ rest)) =
        line :: endLines (front ++ [last] ++ rest) := by
      rw [endLines_cons (by simp), hfront line List.mem_cons_self]
    simp only [List.cons_append, hlater, List.cons_prefix_cons, true_and]
    exact ih (fun l hl => hfront l (List.mem_cons_of_mem line hl))

theorem mem_of_mem_stripCr {line : List Char} {c : Char} (h : c ∈ stripCr line) : c ∈ line := by
  unfold stripCr at h
  split at h
  · exact List.mem_of_mem_dropLast h
  · exact h

theorem mem_of_mem_endLines {ls : List (List Char)} {line : List Char} {c : Char}
    (hc : c ∈ line) (h : line ∈ endLines ls) : ∃ l ∈ ls, c ∈ l := by
  induction ls with
  | nil => exact absurd h List.not_mem_nil
  | cons first later ih =>
    by_cases hlater : later = []
    · subst hlater
      rw [endLines] at h
      split at h
      · exact absurd h List.not_mem_nil
      · exact ⟨first, by simp, by rwa [← List.mem_singleton.mp h]⟩
    · rw [endLines_cons hlater] at h
      rcases List.mem_cons.mp h with rfl | h
      · exact ⟨first, by simp, mem_of_mem_stripCr hc⟩
      · obtain ⟨l, hl, hmem⟩ := ih h
        exact ⟨l, List.mem_cons_of_mem first hl, hmem⟩

section Kept
variable {p : Char → Bool} {c : Char} {s : List Char}

theorem mem_dropWhile (hc : c ∈ s) (h : p c = false) : c ∈ s.dropWhile p := by
  rw [← List.takeWhile_append_dropWhile (p := p) (l := s), List.mem_append] at hc
  rcases hc with hc | hc
  · rw [List.mem_takeWhile_imp hc] at h
    cases h
  · exact hc

theorem mem_rdropWhile (hc : c ∈ s) (h : p c = false) : c ∈ s.rdropWhile p := by
  rw [List.rdropWhile, List.mem_reverse]
  exact mem_dropWhile (List.mem_reverse.mpr hc) h

/-- Trimming takes off white space only. -/
theorem mem_trim (hc : c ∈ s) (h : isWhitespace c = false) : c ∈ trim s :=
  mem_rdropWhile (mem_dropWhile hc h) h

theorem trim_ne_nil (hc : c ∈ s) (h : isWhitespace c = false) : trim s ≠ [] :=
  List.ne_nil_of_mem (mem_trim hc h)

end Kept

end Split

section Last
variable {α β : Type}

/-- What the last item that shows something shows. -/
def lastSome (f : α → Option β) (ls : List α) : Option β := ls.reverse.findSome? f

theorem lastSome_append (f : α → Option β) (ls later : List α) :
    lastSome f (ls ++ later) = (lastSome f later).or (lastSome f ls) := by
  simp [lastSome, List.findSome?_append]

theorem lastSome_concat (f : α → Option β) (ls : List α) (a : α) :
    lastSome f (ls ++ [a]) = (f a).or (lastSome f ls) := by
  rw [lastSome_append]
  simp [lastSome]

/-- It stands behind its last source, and nothing later shows anything. -/
theorem lastSome_eq_some {f : α → Option β} {ls : List α} {b : β} : lastSome f ls = some b ↔
    ∃ before a after, ls = before ++ a :: after ∧ f a = some b ∧ ∀ c ∈ after, f c = none := by
  rw [lastSome, List.findSome?_eq_some_iff]
  constructor
  · rintro ⟨after, a, before, hls, ha, hnone⟩
    refine ⟨before.reverse, a, after.reverse, ?_, ha, fun c hc => hnone c (List.mem_reverse.mp hc)⟩
    rw [← List.reverse_reverse ls, hls]
    simp
  · rintro ⟨before, a, after, rfl, ha, hnone⟩
    exact ⟨after.reverse, a, before.reverse, by simp, ha,
      fun c hc => hnone c (List.mem_reverse.mp hc)⟩

theorem lastSome_isSome {f : α → Option β} {ls : List α} {a : α} (ha : a ∈ ls)
    (h : (f a).isSome = true) : (lastSome f ls).isSome = true := by
  rw [lastSome, List.findSome?_isSome_iff]
  exact ⟨a, List.mem_reverse.mpr ha, h⟩

theorem lastSome_append_of_isSome {f : α → Option β} {later : List α}
    (h : (lastSome f later).isSome = true) (ls : List α) :
    lastSome f (ls ++ later) = lastSome f later := by
  obtain ⟨b, hb⟩ := Option.isSome_iff_exists.mp h
  rw [lastSome_append, hb, Option.some_or]

end Last

section Replace
variable {α : Type} [DecidableEq α]

def contains (pat s : List α) : Bool := s.tails.any (pat.isPrefixOf ·)

/-- Replaces the occurrences of `pat` from left to right, after `skip` items that belong to
an occurrence. -/
def replaceFrom (pat new : List α) : ℕ → List α → List α
  | _, [] => []
  | 0, c :: s =>
    if pat.isPrefixOf (c :: s) then new ++ replaceFrom pat new (pat.length - 1) s
    else c :: replaceFrom pat new 0 s
  | skip + 1, _ :: s => replaceFrom pat new skip s

/-- `str::replace` with a pattern that is not empty. -/
def replaceAll (pat new s : List α) : List α := replaceFrom pat new 0 s

variable {pat new : List α}

theorem mem_of_contains {c : α} {s : List α} (h : contains (c :: pat) s = true) : c ∈ s := by
  obtain ⟨t, ht, hprefix⟩ := List.any_eq_true.mp h
  have hsub := (List.isPrefixOf_iff_prefix.mp hprefix).subset
  exact (((List.mem_tails _ _).mp ht).subset) (hsub (by simp))

theorem mem_replaceFrom {c : α} {skip : ℕ} {s : List α} (h : c ∈ replaceFrom pat new skip s) :
    c ∈ new ∨ c ∈ s := by
  induction s generalizing skip with
  | nil => simp [replaceFrom] at h
  | cons d s ih =>
    cases skip with
    | succ skip => exact (ih h).imp id (List.mem_cons_of_mem d)
    | zero =>
      rw [replaceFrom] at h
      split at h
      · rcases List.mem_append.mp h with h | h
        · exact Or.inl h
        · exact (ih h).imp id (List.mem_cons_of_mem d)
      · rcases List.mem_cons.mp h with rfl | h
        · exact Or.inr (by simp)
        · exact (ih h).imp id (List.mem_cons_of_mem d)

omit [DecidableEq α] in
/-- No occurrence goes across an item that the pattern does not have. -/
theorem prefix_append_cons {c : α} (hc : c ∉ pat) {s t : List α} :
    pat <+: s ++ c :: t ↔ pat <+: s := by
  constructor
  · rintro ⟨u, hu⟩
    rcases List.append_eq_append_iff.mp hu with ⟨later, hs, -⟩ | ⟨later, hpat, hlater⟩
    · exact ⟨later, hs.symm⟩
    · cases later with
      | nil => simp [hpat]
      | cons d later =>
        obtain ⟨rfl, -⟩ := List.cons.inj hlater
        exact absurd (by simp [hpat]) hc
  · exact fun h => h.trans (List.prefix_append s _)

theorem replaceFrom_append_cons {c : α} (hc : c ∉ pat) (hne : pat ≠ []) {skip : ℕ} {s t : List α}
    (hskip : skip ≤ s.length) :
    replaceFrom pat new skip (s ++ c :: t) =
      replaceFrom pat new skip s ++ c :: replaceFrom pat new 0 t := by
  induction s generalizing skip with
  | nil =>
    obtain rfl : skip = 0 := by simpa using hskip
    have hno : ¬ pat <+: c :: t := by
      intro h
      exact hne (List.prefix_nil.mp ((prefix_append_cons (s := []) hc).mp h))
    simp [replaceFrom, hno]
  | cons d s ih =>
    cases skip with
    | succ skip => exact ih (by simpa using hskip)
    | zero =>
      have hiff : pat <+: d :: (s ++ c :: t) ↔ pat <+: d :: s := prefix_append_cons (s := d :: s) hc
      by_cases h : pat <+: d :: s
      · have hlen : pat.length - 1 ≤ s.length := by simpa using h.length_le
        simp [replaceFrom, h, hiff.mpr h, ih hlen]
      · have hno : ¬ pat <+: d :: (s ++ c :: t) := mt hiff.mp h
        simp [replaceFrom, h, hno, ih (Nat.zero_le _)]

/-- An item that the pattern does not have stays, and separates what is replaced. -/
theorem replaceAll_append_cons {c : α} (hc : c ∉ pat) (hne : pat ≠ []) (s t : List α) :
    replaceAll pat new (s ++ c :: t) = replaceAll pat new s ++ c :: replaceAll pat new t :=
  replaceFrom_append_cons hc hne (Nat.zero_le _)

theorem replaceAll_cons {c : α} (hc : c ∉ pat) (hne : pat ≠ []) (s : List α) :
    replaceAll pat new (c :: s) = c :: replaceAll pat new s :=
  replaceAll_append_cons hc hne [] s

/-- A front part of items that the pattern does not have stays. -/
theorem replaceAll_front {u : List α} (hu : ∀ c ∈ u, c ∉ pat) (hne : pat ≠ []) (s : List α) :
    replaceAll pat new (u ++ s) = u ++ replaceAll pat new s := by
  induction u with
  | nil => rfl
  | cons c u ih =>
    rw [List.cons_append, replaceAll_cons (hu c (by simp)) hne, ih (fun d hd => hu d (by simp [hd])),
      List.cons_append]

theorem replaceAll_singleton {c : α} (hne : pat ≠ []) (hc : pat ≠ [c]) :
    replaceAll pat new [c] = [c] := by
  have hno : ¬ pat <+: [c] := by
    rintro ⟨u, hu⟩
    cases pat with
    | nil => exact hne rfl
    | cons e pat => simp_all
  simp [replaceAll, replaceFrom, hno]

/-- An item stands alone when the pattern does not have the next one. -/
theorem replaceAll_cons_cons {c d : α} (hd : d ∉ pat) (hne : pat ≠ []) (hc : pat ≠ [c])
    (s : List α) : replaceAll pat new (c :: d :: s) = c :: d :: replaceAll pat new s := by
  rw [← List.singleton_append, replaceAll_append_cons hd hne, replaceAll_singleton hne hc,
    List.singleton_append]

/-! ### Induction along the occurrences -/

theorem replaceFrom_skip (pat new : List α) (u t : List α) :
    replaceFrom pat new u.length (u ++ t) = replaceAll pat new t := by
  induction u with
  | nil => rfl
  | cons c u ih => exact ih

theorem replaceAll_occurrence (hne : pat ≠ []) (new t : List α) :
    replaceAll pat new (pat ++ t) = new ++ replaceAll pat new t := by
  cases pat with
  | nil => exact absurd rfl hne
  | cons c pat =>
    have hprefix : c :: pat <+: c :: (pat ++ t) := List.prefix_append (c :: pat) t
    simp only [replaceAll, List.cons_append, replaceFrom, List.isPrefixOf_iff_prefix, hprefix,
      if_true, List.length_cons, Nat.add_sub_cancel]
    rw [replaceFrom_skip]
    rfl

theorem replaceAll_other {c : α} {s : List α} (h : ¬ pat <+: c :: s) :
    replaceAll pat new (c :: s) = c :: replaceAll pat new s := by
  simp [replaceAll, replaceFrom, h]

omit [DecidableEq α] in
/-- A text is empty, starts with an occurrence, or starts with an item outside all of them. -/
theorem occurrence_induction {motive : List α → Prop} (hne : pat ≠ []) (nil : motive [])
    (occurrence : ∀ t, motive t → motive (pat ++ t))
    (other : ∀ c s, ¬ pat <+: c :: s → motive s → motive (c :: s)) (s : List α) : motive s := by
  induction hn : s.length using Nat.strongRecOn generalizing s with
  | ind n ih =>
    cases s with
    | nil => exact nil
    | cons c s =>
      by_cases h : pat <+: c :: s
      · obtain ⟨t, ht⟩ := h
        have hlen := congrArg List.length ht
        have hpos := List.length_pos_of_ne_nil hne
        rw [List.length_append] at hlen
        rw [← ht]
        exact occurrence t (ih t.length (by omega) t rfl)
      · exact other c s h (ih s.length (by simp [← hn]) s rfl)

theorem count_le_replaceAll {c : α} (hc : c ∉ pat) (hne : pat ≠ []) (new s : List α) :
    s.count c ≤ (replaceAll pat new s).count c := by
  induction s using occurrence_induction hne with
  | nil => exact Nat.zero_le _
  | occurrence t ih =>
    rw [replaceAll_occurrence hne, List.count_append, List.count_append, List.count_eq_zero.mpr hc]
    omega
  | other d s h ih =>
    rw [replaceAll_other h, List.count_cons, List.count_cons]
    omega

/-- An item that only the new text has becomes more frequent. -/
theorem count_lt_replaceAll {c : α} (hc : c ∉ pat) (hnew : c ∈ new) (hne : pat ≠ []) {s : List α}
    (h : pat <:+: s) : s.count c < (replaceAll pat new s).count c := by
  induction s using occurrence_induction hne with
  | nil => exact absurd (List.infix_nil.mp h) hne
  | occurrence t _ =>
    have hpos := List.count_pos_iff.mpr hnew
    have hle := count_le_replaceAll hc hne new t
    rw [replaceAll_occurrence hne, List.count_append, List.count_append, List.count_eq_zero.mpr hc]
    omega
  | other d s hno ih =>
    have hlater : pat <:+: s := (List.infix_cons_iff.mp h).resolve_left hno
    have hlt := ih hlater
    rw [replaceAll_other hno, List.count_cons, List.count_cons]
    omega

/-- A front part that has no item of a new text was there before. -/
theorem prefix_of_replaceAll {c : α} {q : List α} (hc : c ∉ q) (hne : pat ≠ []) {s : List α}
    (h : q <+: replaceAll pat (c :: new) s) : q <+: s := by
  induction s using occurrence_induction hne generalizing q with
  | nil => exact h
  | occurrence t _ =>
    rw [replaceAll_occurrence hne, List.cons_append] at h
    cases q with
    | nil => exact List.nil_prefix
    | cons d q =>
      obtain ⟨rfl, -⟩ := List.cons_prefix_cons.mp h
      exact absurd (by simp) hc
  | other d s hno ih =>
    rw [replaceAll_other hno] at h
    cases q with
    | nil => exact List.nil_prefix
    | cons e q =>
      obtain ⟨rfl, hq⟩ := List.cons_prefix_cons.mp h
      exact List.cons_prefix_cons.mpr ⟨rfl, ih (fun hm => hc (by simp [hm])) hq⟩

end Replace
end Foundation
