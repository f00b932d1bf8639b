import GlobalpingProbe.Foundation.ExactFloat
import GlobalpingProbe.Foundation.Words

/-! # Printed decimals

A decimal is printed as its whole part and, if it has one, a point and its fraction. The text
reads as the number that it stands for.
-/
namespace Foundation

/-- The figures of a number, with at least one before the point. -/
structure Decimal where
  whole : List Char
  fraction : List Char
  whole_ne_nil : whole ≠ []
  isDigit_whole : ∀ c ∈ whole, c.isDigit = true
  isDigit_fraction : ∀ c ∈ fraction, c.isDigit = true

namespace Decimal

def text (d : Decimal) : List Char :=
  if d.fraction = [] then d.whole else d.whole ++ '.' :: d.fraction

def value (d : Decimal) : ℚ :=
  numeralValue 10 d.whole + numeralValue 10 d.fraction / 10 ^ d.fraction.length

end Decimal

theorem numeralValue_append (radix : ℕ) (s t : List Char) : numeralValue radix (s ++ t) =
    numeralValue radix s * radix ^ t.length + numeralValue radix t := by
  induction t using List.reverseRecOn with
  | nil => simp [numeralValue]
  | append_singleton t c ih =>
    have hconcat : ∀ u, numeralValue radix (u ++ [c]) =
        numeralValue radix u * radix + (toDigit radix c).getD 0 := by
      intro u
      simp [numeralValue]
    rw [← List.append_assoc, hconcat, hconcat, ih, List.length_append, List.length_singleton]
    ring

theorem toLower_of_isDigit {c : Char} (h : c.isDigit = true) : c.toLower = c := by
  have hle : c.val ≤ '9'.val := by
    simp only [Char.isDigit, Bool.and_eq_true, decide_eq_true_eq] at h
    exact h.2
  have hupper : ¬ ('A'.val ≤ c.val ∧ c.val ≤ 'Z'.val) := by
    rintro ⟨hA, -⟩
    have hAle : 'A'.val ≤ '9'.val := UInt32.le_trans hA hle
    exact absurd hAle (by decide)
  exact dif_neg hupper

namespace Decimal
variable {d : Decimal} {c : Char}

theorem mem_text (h : c ∈ d.text) : c.isDigit = true ∨ c = '.' := by
  unfold text at h
  split_ifs at h
  · exact .inl (d.isDigit_whole c h)
  · rcases List.mem_append.mp h with h | h
    · exact .inl (d.isDigit_whole c h)
    · rcases List.mem_cons.mp h with rfl | h
      · exact .inr rfl
      · exact .inl (d.isDigit_fraction c h)

theorem text_eq_cons (d : Decimal) : ∃ c rest, d.text = c :: rest ∧ c.isDigit = true := by
  obtain ⟨c, whole, hwhole⟩ := List.exists_cons_of_ne_nil d.whole_ne_nil
  have hc : c.isDigit = true := d.isDigit_whole c (by simp [hwhole])
  unfold text
  split_ifs
  · exact ⟨c, whole, hwhole, hc⟩
  · exact ⟨c, whole ++ '.' :: d.fraction, by simp [hwhole], hc⟩

theorem parseMantissa_text (d : Decimal) : F64.parseMantissa d.text = some d.value := by
  have hwhole : ∀ c ∈ d.whole, (c == '.') = false := by
    intro c hc
    apply beq_eq_false_iff_ne.mpr
    rintro rfl
    exact absurd (d.isDigit_whole '.' hc) (by decide)
  have hfraction : ∀ c ∈ d.fraction, (c == '.') = false := by
    intro c hc
    apply beq_eq_false_iff_ne.mpr
    rintro rfl
    exact absurd (d.isDigit_fraction '.' hc) (by decide)
  have hdigits : ∀ c ∈ d.whole ++ d.fraction, isDigitOf 10 c = true := by
    intro c hc
    rcases List.mem_append.mp hc with hc | hc
    · exact isDigitOf_of_isDigit (d.isDigit_whole c hc)
    · exact isDigitOf_of_isDigit (d.isDigit_fraction c hc)
  have hall : d.whole ++ d.fraction ≠ [] ∧ (d.whole ++ d.fraction).all (isDigitOf 10) = true :=
    ⟨by simp [d.whole_ne_nil], List.all_eq_true.mpr hdigits⟩
  have hvalue : mkRat (numeralValue 10 (d.whole ++ d.fraction)) (10 ^ d.fraction.length) =
      d.value := by
    have hpow : (10 : ℚ) ^ d.fraction.length ≠ 0 := pow_ne_zero _ (by norm_num)
    rw [numeralValue_append, Rat.mkRat_eq_div, value]
    push_cast
    field_simp
  unfold F64.parseMantissa text
  split_ifs with hnone
  · rw [List.splitOn_eq_splitOnP, List.splitOnP_eq_singleton hwhole]
    rw [hnone] at hall hvalue
    simp only [if_pos hall]
    rw [← hvalue]
  · have hsplit : (d.whole ++ '.' :: d.fraction).splitOn '.' = [d.whole, d.fraction] := by
      rw [List.splitOn_eq_splitOnP, List.splitOnP_append_cons _ _ (by rfl),
        List.splitOnP_eq_singleton hwhole, List.splitOnP_eq_singleton hfraction]
      rfl
    rw [hsplit]
    simp only [if_pos hall]
    rw [hvalue]

/-- A printed decimal reads as its value. -/
theorem parse_text (d : Decimal) : F64.parse d.text = some (.finite d.value) := by
  obtain ⟨c, rest, htext, hc⟩ := d.text_eq_cons
  have hsign : F64.spanSign d.text = (false, d.text) := by
    rw [htext]
    unfold F64.spanSign
    split
    · next heq =>
      obtain ⟨rfl, -⟩ := List.cons.inj heq
      exact absurd hc (by decide)
    · next heq =>
      obtain ⟨rfl, -⟩ := List.cons.inj heq
      exact absurd hc (by decide)
    · rfl
  have hword : ∀ d' w, d'.isDigit = false → d.text.map Char.toLower ≠ d' :: w := by
    intro d' w hd' heq
    rw [htext, List.map_cons, toLower_of_isDigit hc] at heq
    obtain ⟨rfl, -⟩ := List.cons.inj heq
    rw [hc] at hd'
    cases hd'
  have hletter : ∀ e ∈ d.text, (!(decide (e = 'e') || decide (e = 'E'))) = true := by
    intro e he
    have hne : e ≠ 'e' ∧ e ≠ 'E' := by
      constructor <;> rintro rfl <;> rcases mem_text he with h | h <;> revert h <;> decide
    simp [hne]
  have hinf : ¬ (d.text.map Char.toLower = "inf".toList ∨
      d.text.map Char.toLower = "infinity".toList) := by
    rintro (h | h)
    · exact hword 'i' _ (by decide) h
    · exact hword 'i' _ (by decide) h
  have hnan : ¬ d.text.map Char.toLower = "nan".toList := hword 'n' _ (by decide)
  unfold F64.parse
  simp only [hsign, if_neg hinf, if_neg hnan, List.takeWhile_eq_self_iff.mpr hletter,
    List.dropWhile_eq_nil_iff.mpr hletter, parseMantissa_text]
  simp [F64.parseExponent]

end Decimal
end Foundation
