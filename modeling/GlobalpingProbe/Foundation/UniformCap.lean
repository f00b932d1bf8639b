import Mathlib.Algebra.BigOperators.Group.List.Basic
import Mathlib.Data.List.Sort
import Mathlib.Tactic.Linarith

/-! # The largest uniform cap within a budget

A list of lengths is cut down to a common cap. The capped total is monotone in the cap, so a
budget below the total has one largest cap, and between two neighbours of the sorted list the
capped total is linear in it.
-/
namespace Foundation

def cappedSum (c : ℕ) (l : List ℕ) : ℕ := (l.map (fun a => min a c)).sum

/-- The cap `c` keeps to the budget and the next one does not. -/
def LargestCap (budget : ℕ) (l : List ℕ) (c : ℕ) : Prop :=
  cappedSum c l ≤ budget ∧ budget < cappedSum (c + 1) l

@[simp] theorem cappedSum_nil (c : ℕ) : cappedSum c [] = 0 := rfl

@[simp] theorem cappedSum_cons (c a : ℕ) (l : List ℕ) :
    cappedSum c (a :: l) = min a c + cappedSum c l := rfl

@[simp] theorem cappedSum_append (c : ℕ) (l m : List ℕ) :
    cappedSum c (l ++ m) = cappedSum c l + cappedSum c m := by
  simp [cappedSum]

@[simp] theorem cappedSum_zero (l : List ℕ) : cappedSum 0 l = 0 := by simp [cappedSum]

theorem cappedSum_perm {l m : List ℕ} (h : l.Perm m) (c : ℕ) : cappedSum c l = cappedSum c m :=
  (h.map _).sum_eq

theorem cappedSum_mono {c d : ℕ} (h : c ≤ d) (l : List ℕ) : cappedSum c l ≤ cappedSum d l := by
  induction l with
  | nil => exact le_rfl
  | cons a l ih =>
    rw [cappedSum_cons, cappedSum_cons]
    exact Nat.add_le_add (min_le_min le_rfl h) ih

theorem cappedSum_le_sum (c : ℕ) (l : List ℕ) : cappedSum c l ≤ l.sum := by
  induction l with
  | nil => exact le_rfl
  | cons a l ih =>
    rw [cappedSum_cons, List.sum_cons]
    exact Nat.add_le_add (min_le_left a c) ih

theorem cappedSum_of_le {c : ℕ} {l : List ℕ} (h : ∀ a ∈ l, a ≤ c) : cappedSum c l = l.sum := by
  induction l with
  | nil => rfl
  | cons a l ih =>
    rw [cappedSum_cons, List.sum_cons, min_eq_left (h a List.mem_cons_self),
      ih (fun b hb => h b (List.mem_cons_of_mem a hb))]

theorem cappedSum_of_ge {c : ℕ} {l : List ℕ} (h : ∀ a ∈ l, c ≤ a) :
    cappedSum c l = l.length * c := by
  induction l with
  | nil => simp
  | cons a l ih =>
    rw [cappedSum_cons, min_eq_right (h a List.mem_cons_self),
      ih (fun b hb => h b (List.mem_cons_of_mem a hb)), List.length_cons, Nat.succ_mul, Nat.add_comm]

theorem LargestCap.perm {budget c : ℕ} {l m : List ℕ} (h : l.Perm m) :
    LargestCap budget l c ↔ LargestCap budget m c := by
  rw [LargestCap, LargestCap, cappedSum_perm h, cappedSum_perm h]

theorem LargestCap.unique {budget c d : ℕ} {l : List ℕ} (hc : LargestCap budget l c)
    (hd : LargestCap budget l d) : c = d := by
  by_contra hne
  rcases Nat.lt_or_gt_of_ne hne with h | h
  · exact absurd hd.1 (not_le.mpr (lt_of_lt_of_le hc.2 (cappedSum_mono h l)))
  · exact absurd hc.1 (not_le.mpr (lt_of_lt_of_le hd.2 (cappedSum_mono h l)))

theorem LargestCap.le {budget c d : ℕ} {l : List ℕ} (hc : LargestCap budget l c)
    (hd : cappedSum d l ≤ budget) : d ≤ c := by
  by_contra h
  exact absurd hd (not_le.mpr (lt_of_lt_of_le hc.2 (cappedSum_mono (not_le.mp h) l)))

/-- Between two neighbours of a sorted list every unit of the cap counts once for each of the
longer ones. -/
theorem cappedSum_between {c len : ℕ} {longer shorter : List ℕ} (hl : ∀ a ∈ longer, len ≤ a)
    (hs : ∀ a ∈ shorter, a ≤ c) (hc : c ≤ len) :
    cappedSum c (longer ++ shorter) + longer.length * (len - c) =
      cappedSum len (longer ++ shorter) := by
  rw [cappedSum_append, cappedSum_append, cappedSum_of_ge hl,
    cappedSum_of_ge (fun a ha => hc.trans (hl a ha)), cappedSum_of_le hs,
    cappedSum_of_le (fun a ha => (hs a ha).trans hc), add_right_comm, ← Nat.mul_add,
    Nat.add_sub_cancel' hc]

/-- The cap that a linear stretch calls for: the excess over the budget, split evenly among
the longer lengths and rounded up. -/
theorem largestCap_between {budget len next : ℕ} {longer shorter : List ℕ} (hne : longer ≠ [])
    (hl : ∀ a ∈ longer, len ≤ a) (hs : ∀ a ∈ shorter, a ≤ next) (hle : next ≤ len)
    (hover : budget < cappedSum len (longer ++ shorter))
    (hfits : cappedSum next (longer ++ shorter) ≤ budget) :
    LargestCap budget (longer ++ shorter)
      (len - (cappedSum len (longer ++ shorter) - budget + longer.length - 1) / longer.length) := by
  have hn : 0 < longer.length := List.length_pos_iff.mpr hne
  set total := cappedSum len (longer ++ shorter) with htotal
  set cut := (total - budget + longer.length - 1) / longer.length with hcut
  have hnext := cappedSum_between hl hs hle
  rw [← htotal] at hnext
  have hround : total - budget ≤ longer.length * cut ∧
      longer.length * cut < total - budget + longer.length := by
    have hmod := Nat.div_add_mod (total - budget + longer.length - 1) longer.length
    have hlt := Nat.mod_lt (total - budget + longer.length - 1) hn
    rw [← hcut] at hmod
    omega
  have hpos : 0 < cut := by
    by_contra hz
    rw [Nat.eq_zero_of_not_pos hz] at hround
    omega
  have hcutle : cut ≤ len - next := by
    by_contra hgt
    have hm := Nat.mul_le_mul_left longer.length (not_le.mp hgt)
    rw [Nat.mul_succ] at hm
    omega
  have hcap := cappedSum_between hl (c := len - cut) (fun a ha => (hs a ha).trans (by omega))
    (by omega)
  have hcap' := cappedSum_between hl (c := len - cut + 1) (fun a ha => (hs a ha).trans (by omega))
    (by omega)
  rw [← htotal, show len - (len - cut) = cut by omega] at hcap
  rw [← htotal, show len - (len - cut + 1) = cut - 1 by omega, Nat.mul_sub_one] at hcap'
  have hmul := Nat.le_mul_of_pos_right longer.length hpos
  constructor <;> omega

end Foundation
