import Mathlib.Data.List.Infix
import Mathlib.Data.List.TakeWhile

/-! # Snapshots of what has been read

A reader that goes through a list may send something after each item, made from all that it
has read so far. What it has sent is then given by the prefixes of the list, and what holds
between a prefix and a longer one holds between what is sent for them.
-/
namespace Foundation
variable {α β : Type} {emit : List α → List β} {xs : List α}

/-! ## Prefixes -/

theorem prefix_cons {p q : List α} (h : p <+: q) (hne : p ≠ []) :
    ∃ a p' q', p = a :: p' ∧ q = a :: q' ∧ p' <+: q' := by
  cases p with
  | nil => exact absurd rfl hne
  | cons a p' =>
    cases q with
    | nil => exact absurd (List.prefix_nil.mp h) hne
    | cons b q' =>
      obtain ⟨rfl, hpq⟩ := List.cons_prefix_cons.mp h
      exact ⟨a, p', q', rfl, rfl, hpq⟩

theorem prefix_head? {p q : List α} (h : p <+: q) (hne : p ≠ []) :
    p.head? = q.head? := by
  obtain ⟨a, p', q', rfl, rfl, -⟩ := prefix_cons h hne
  rfl

theorem prefix_modifyHead {p q : List α} (f : α → α) (h : p <+: q) :
    p.modifyHead f <+: q.modifyHead f := by
  by_cases hne : p = []
  · simp [hne]
  · obtain ⟨a, p', q', rfl, rfl, hpq⟩ := prefix_cons h hne
    simpa using hpq

theorem inits_concat (xs : List α) (x : α) : (xs ++ [x]).inits = xs.inits ++ [xs ++ [x]] := by
  simp [List.inits_append]

theorem pairwise_inits (xs : List α) : xs.inits.Pairwise (· <+: ·) := by
  induction xs using List.reverseRecOn with
  | nil => simp
  | append_singleton xs x ih =>
    rw [inits_concat, List.pairwise_append]
    refine ⟨ih, List.pairwise_singleton _ _, ?_⟩
    simp only [List.mem_inits, List.mem_singleton]
    rintro p hp q rfl
    exact hp.trans (List.prefix_append xs [x])

/-! ## What is sent -/

/-- What is sent for the prefixes of a list, the shorter ones first. -/
def snapshots (emit : List α → List β) (xs : List α) : List β := xs.inits.flatMap emit

theorem snapshots_nil (emit : List α → List β) : snapshots emit [] = emit [] := by
  simp [snapshots]

theorem snapshots_concat (emit : List α → List β) (xs : List α) (x : α) :
    snapshots emit (xs ++ [x]) = snapshots emit xs ++ emit (xs ++ [x]) := by
  rw [snapshots, inits_concat, List.flatMap_append, List.flatMap_singleton, snapshots]

theorem mem_snapshots {b : β} : b ∈ snapshots emit xs ↔ ∃ p, p <+: xs ∧ b ∈ emit p := by
  simp [snapshots]

/-- A relation from each prefix to the longer ones goes over to what is sent. -/
theorem pairwise_snapshots {R : β → β → Prop} (hone : ∀ p, p <+: xs → (emit p).Pairwise R)
    (h : ∀ p q, p <+: q → q <+: xs → ∀ a ∈ emit p, ∀ b ∈ emit q, R a b) :
    (snapshots emit xs).Pairwise R := by
  refine List.pairwise_flatMap.mpr ⟨fun p hp => hone p ((List.mem_inits p xs).mp hp), ?_⟩
  refine (pairwise_inits xs).imp_of_mem ?_
  intro p q _ hq hpq
  exact h p q hpq ((List.mem_inits q xs).mp hq)

end Foundation
