import Mathlib.Algebra.BigOperators.Group.List.Basic
import Mathlib.Data.List.Sort
import Mathlib.Order.Bounds.Basic
import Mathlib.Tactic.Linarith

/-! # Dropping the heaviest items first

Items in the order of decreasing weight are dropped from the front until the rest keeps to a
budget. By exchange no other choice of as many items weighs less than the end of the list, so
no choice drops fewer.
-/
namespace Foundation
variable {α : Type*} (weight : α → ℕ)

def totalWeight (l : List α) : ℕ := (l.map weight).sum

@[simp] theorem totalWeight_cons (a : α) (l : List α) :
    totalWeight weight (a :: l) = weight a + totalWeight weight l := rfl

theorem totalWeight_perm {l m : List α} (h : l.Perm m) :
    totalWeight weight l = totalWeight weight m := (h.map weight).sum_eq

/-- The longest end of the list within the budget. -/
def longestEnd (budget : ℕ) : List α → List α
  | [] => []
  | a :: l => if totalWeight weight (a :: l) ≤ budget then a :: l else longestEnd budget l

variable {weight}

theorem longestEnd_longest {budget : ℕ} {l s : List α} (hs : s <:+ l)
    (hfits : totalWeight weight s ≤ budget) : s.length ≤ (longestEnd weight budget l).length := by
  induction l with
  | nil => simp [List.suffix_nil.mp hs]
  | cons a l ih =>
    unfold longestEnd
    split
    · exact hs.length_le
    · next hover =>
      rcases List.suffix_cons_iff.mp hs with rfl | hs
      · exact absurd hfits hover
      · exact ih hs

/-- Among the choices of as many items, the end of a sorted list weighs least. -/
theorem totalWeight_drop_le {l s : List α} (hl : l.Pairwise (fun a b => weight b ≤ weight a))
    (hs : s.Sublist l) :
    totalWeight weight (l.drop (l.length - s.length)) ≤ totalWeight weight s := by
  induction hs with
  | slnil => exact le_rfl
  | @cons s l a hs ih =>
    have hskip : (a :: l).length - s.length = l.length - s.length + 1 := by
      have hle := hs.length_le
      rw [List.length_cons]
      omega
    rw [hskip, List.drop_succ_cons]
    exact ih (List.pairwise_cons.mp hl).2
  | @cons_cons s l a hs ih =>
    obtain ⟨ha, hl⟩ := List.pairwise_cons.mp hl
    have hrest := ih hl
    have hle := hs.length_le
    rw [List.length_cons, List.length_cons, Nat.add_sub_add_right, totalWeight_cons]
    cases hk : l.length - s.length with
    | zero =>
      rw [hk, List.drop_zero] at hrest
      rw [List.drop_zero, totalWeight_cons]
      exact Nat.add_le_add_left hrest _
    | succ k =>
      have hlt : k < l.length := by omega
      have hfirst : weight l[k] ≤ weight a := ha l[k] (List.getElem_mem hlt)
      rw [hk] at hrest
      rw [List.drop_succ_cons, List.drop_eq_getElem_cons hlt, totalWeight_cons]
      exact Nat.add_le_add hfirst hrest

/-- No choice within the budget keeps more items than the longest end does. -/
theorem length_le_longestEnd {budget : ℕ} {l order s : List α} (hperm : order.Perm l)
    (hsorted : order.Pairwise (fun a b => weight b ≤ weight a)) (hs : s.Sublist l)
    (hfits : totalWeight weight s ≤ budget) :
    s.length ≤ (longestEnd weight budget order).length := by
  obtain ⟨t, ht, hsub⟩ : s.Subperm order := hs.subperm.trans hperm.symm.subperm
  have hend := totalWeight_drop_le hsorted hsub
  rw [totalWeight_perm weight ht] at hend
  have hlength : (order.drop (order.length - t.length)).length = s.length := by
    rw [List.length_drop, ht.length_eq, ← ht.length_eq]
    have hle := hsub.length_le
    omega
  rw [← hlength]
  exact longestEnd_longest (List.drop_suffix _ _) (hend.trans hfits)

end Foundation
