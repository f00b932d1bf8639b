import Mathlib.Data.List.Basic
import Mathlib.Data.List.Induction

/-! # Interleaved sequences

Two sequences of the same elements in which those of each key come in the same order. What a
fold says about one key can be computed from the elements of that key alone, when the others
leave it as it is.
-/
namespace Foundation

variable {α β σ κ : Type} [DecidableEq κ]

/-- The elements of one key, in their order. -/
def ofKey (key : α → Option κ) (k : κ) (xs : List α) : List α := xs.filter (fun a => key a = some k)

structure Interleaved (key : α → Option κ) (xs ys : List α) : Prop where
  perm : xs.Perm ys
  sameOrder : ∀ k, ofKey key k xs = ofKey key k ys

theorem Interleaved.swap {key : α → Option κ} {a b : α} (h : key a ≠ key b) (front rest : List α) :
    Interleaved key (front ++ a :: b :: rest) (front ++ b :: a :: rest) := by
  refine ⟨(List.Perm.swap b a rest).append_left front, fun k => ?_⟩
  simp only [ofKey, List.filter_append, List.filter_cons]
  by_cases ha : key a = some k
  · have hb : key b ≠ some k := fun hb => h (ha.trans hb.symm)
    simp [ha, hb]
  · simp [ha]

/-- A view that only the elements of one key change is the fold of these. -/
theorem view_foldl (step : σ → α → σ) (key : α → Option κ) (k : κ) (view : σ → β)
    (own : β → α → β) (s : σ) (xs : List α)
    (hown : ∀ before a, before ++ [a] <+: xs → key a = some k →
      view (step (before.foldl step s) a) = own (view (before.foldl step s)) a)
    (hother : ∀ before a, before ++ [a] <+: xs → key a ≠ some k →
      view (step (before.foldl step s) a) = view (before.foldl step s)) :
    view (xs.foldl step s) = (ofKey key k xs).foldl own (view s) := by
  induction xs using List.reverseRecOn with
  | nil => rfl
  | append_singleton xs a ih =>
    have hfront : ∀ before b, before ++ [b] <+: xs → before ++ [b] <+: xs ++ [a] :=
      fun before b h => h.trans (List.prefix_append xs [a])
    have ih := ih (fun before b h => hown before b (hfront before b h))
      (fun before b h => hother before b (hfront before b h))
    rw [List.foldl_concat, ofKey, List.filter_append]
    by_cases hk : key a = some k
    · rw [hown xs a List.prefix_rfl hk, ih, List.filter_singleton, ofKey]
      simp [hk]
    · rw [hother xs a List.prefix_rfl hk, ih, List.filter_singleton, ofKey]
      simp [hk]

end Foundation
