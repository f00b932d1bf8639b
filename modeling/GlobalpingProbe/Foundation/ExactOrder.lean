import GlobalpingProbe.Foundation.ExactFloat
import Mathlib.Algebra.BigOperators.Group.List.Basic
import Mathlib.Algebra.Order.BigOperators.Group.List
import Mathlib.Tactic.Linarith

/-! # The order of exact values

On finite values the operations are those of the rationals, rounding keeps the order, and the
mean of a list lies between its extrema.
-/
namespace Foundation

/-- The values between which a list of rationals lies. -/
def Within (low high : ℚ) (xs : List ℚ) : Prop := ∀ x ∈ xs, low ≤ x ∧ x ≤ high

theorem mean_within {low high : ℚ} {xs : List ℚ} (hne : xs ≠ []) (h : Within low high xs) :
    low ≤ xs.sum / xs.length ∧ xs.sum / xs.length ≤ high := by
  have hpos : (0 : ℚ) < xs.length := by
    exact_mod_cast List.length_pos_iff.mpr hne
  have hlow : xs.length • low ≤ xs.sum := List.card_nsmul_le_sum xs low (fun x hx => (h x hx).1)
  have hhigh : xs.sum ≤ xs.length • high := List.sum_le_card_nsmul xs high (fun x hx => (h x hx).2)
  rw [nsmul_eq_mul] at hlow hhigh
  constructor
  · rw [le_div_iff₀ hpos]
    linarith
  · rw [div_le_iff₀ hpos]
    linarith

theorem foldl_min_le (xs : List ℚ) (q : ℚ) :
    xs.foldl min q ≤ q ∧ ∀ x ∈ xs, xs.foldl min q ≤ x := by
  induction xs generalizing q with
  | nil => exact ⟨le_rfl, by simp⟩
  | cons y xs ih =>
    obtain ⟨hq, hxs⟩ := ih (min q y)
    refine ⟨hq.trans (min_le_left q y), ?_⟩
    intro x hx
    rcases List.mem_cons.mp hx with rfl | hx
    · exact hq.trans (min_le_right q x)
    · exact hxs x hx

theorem le_foldl_max (xs : List ℚ) (q : ℚ) :
    q ≤ xs.foldl max q ∧ ∀ x ∈ xs, x ≤ xs.foldl max q := by
  induction xs generalizing q with
  | nil => exact ⟨le_rfl, by simp⟩
  | cons y xs ih =>
    obtain ⟨hq, hxs⟩ := ih (max q y)
    refine ⟨(le_max_left q y).trans hq, ?_⟩
    intro x hx
    rcases List.mem_cons.mp hx with rfl | hx
    · exact (le_max_right q x).trans hq
    · exact hxs x hx

namespace F64

/-- The comparison of floating-point values: a nan compares with nothing. -/
def le : F64 → F64 → Bool
  | finite a, finite b => a ≤ b
  | nan, _ | _, nan => false
  | inf true, _ | _, inf false => true
  | inf false, _ | _, inf true => false

@[simp] theorem le_finite (a b : ℚ) : (finite a).le (finite b) = true ↔ a ≤ b := by simp [le]

theorem roundAway_mono {a b : ℚ} (h : a ≤ b) : roundAway a ≤ roundAway b := by
  unfold roundAway
  by_cases ha : 0 ≤ a
  · rw [if_pos ha, if_pos (ha.trans h)]
    exact Int.floor_mono (by linarith)
  · rw [if_neg ha]
    have hflip : 0 ≤ ⌊-a + 1 / 2⌋ := Int.floor_nonneg.mpr (by linarith)
    by_cases hb : 0 ≤ b
    · rw [if_pos hb]
      have hpos : 0 ≤ ⌊b + 1 / 2⌋ := Int.floor_nonneg.mpr (by linarith)
      omega
    · rw [if_neg hb]
      exact neg_le_neg (Int.floor_mono (by linarith))

/-- The error of rounding is at most a half, and a half only upwards. -/
theorem roundAway_error {q : ℚ} (h : 0 ≤ q) : -(1 / 2) < roundAway q - q ∧ roundAway q - q ≤ 1 / 2 := by
  rw [roundAway, if_pos h]
  have hle := Int.floor_le (q + 1 / 2)
  have hlt := Int.lt_floor_add_one (q + 1 / 2)
  constructor <;> linarith

theorem roundAway_nonneg {q : ℚ} (h : 0 ≤ q) : 0 ≤ roundAway q := by
  rw [roundAway, if_pos h]
  exact Int.floor_nonneg.mpr (by linarith)

theorem sum_roundAway_error {xs : List ℚ} (h : ∀ x ∈ xs, 0 ≤ x) :
    (xs.map roundAway).sum - xs.sum ≤ (xs.length : ℚ) / 2 ∧
      (xs ≠ [] → -((xs.length : ℚ) / 2) < (xs.map roundAway).sum - xs.sum) := by
  induction xs with
  | nil => simp
  | cons x xs ih =>
    obtain ⟨hlow, hhigh⟩ := roundAway_error (h x List.mem_cons_self)
    obtain ⟨ihhigh, ihlow⟩ := ih (fun y hy => h y (List.mem_cons_of_mem x hy))
    simp only [List.map_cons, List.sum_cons, List.length_cons, Nat.cast_add, Nat.cast_one,
      Int.cast_add]
    refine ⟨by linarith, fun _ => ?_⟩
    cases xs with
    | nil =>
      simp only [List.map_nil, List.sum_nil, List.length_nil, Int.cast_zero, Nat.cast_zero]
      linarith
    | cons y ys =>
      have hrest := ihlow (List.cons_ne_nil y ys)
      linarith

/-- Parts rounded one by one add up to their rounded sum, up to half of one for each part and
one half for the sum. -/
theorem roundAway_sum_close {xs : List ℚ} (h : ∀ x ∈ xs, 0 ≤ x) :
    |(roundAway xs.sum : ℚ) - (xs.map roundAway).sum| < (xs.length + 1) / 2 := by
  obtain ⟨hlow, hhigh⟩ := roundAway_error (List.sum_nonneg h)
  obtain ⟨hparts, hparts'⟩ := sum_roundAway_error h
  rw [abs_lt]
  cases xs with
  | nil =>
    have hround : roundAway 0 = 0 := by decide +kernel
    simp [hround]
  | cons x xs =>
    have hstrict := hparts' (List.cons_ne_nil x xs)
    constructor <;> linarith

theorem r1_mono {a b : ℚ} (h : a ≤ b) : (finite a).r1.le (finite b).r1 = true := by
  have hround : (roundAway (a * 10) : ℚ) ≤ roundAway (b * 10) := by
    exact_mod_cast roundAway_mono (by linarith)
  rw [r1, r1, le_finite]
  linarith

@[simp] theorem r1_zero : zero.r1 = zero := by
  have hround : roundAway 0 = 0 := by decide +kernel
  simp [r1, zero, hround]

theorem sum_map_finite (xs : List ℚ) : sum (xs.map finite) = finite xs.sum := by
  have hfold : ∀ q : ℚ, (xs.map finite).foldl add (finite q) = finite (q + xs.sum) := by
    induction xs with
    | nil => simp
    | cons x xs ih =>
      intro q
      rw [List.map_cons, List.foldl_cons, add, ih, List.sum_cons, add_assoc]
  rw [sum, zero, hfold, zero_add]

theorem foldl_min_finite (x : ℚ) (xs : List ℚ) :
    ((x :: xs).map finite).foldl min (inf false) = finite (xs.foldl Min.min x) := by
  have hfold : ∀ q : ℚ, (xs.map finite).foldl min (finite q) = finite (xs.foldl Min.min q) := by
    induction xs with
    | nil => exact fun q => rfl
    | cons y xs ih => exact fun q => ih (Min.min q y)
  exact hfold x

theorem foldl_max_finite (x : ℚ) (xs : List ℚ) :
    ((x :: xs).map finite).foldl max (inf true) = finite (xs.foldl Max.max x) := by
  have hfold : ∀ q : ℚ, (xs.map finite).foldl max (finite q) = finite (xs.foldl Max.max q) := by
    induction xs with
    | nil => exact fun q => rfl
    | cons y xs ih => exact fun q => ih (Max.max q y)
  exact hfold x

end F64
end Foundation
