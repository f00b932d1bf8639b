import Mathlib.Algebra.BigOperators.Group.List.Basic
import Mathlib.Algebra.Ring.Nat
import Mathlib.Data.List.Flatten

/-! # A queue that loses items at its front

Items come in at the back. Some at the front may be lost, which is counted, and a flush hands
out all that are there with the count of the lost ones. The account of a history says where
each item is: lost before some batch, in it, lost since, or still queued.
-/
namespace Foundation
universe u
variable {α : Type u}

structure LossyQueue (α : Type u) where
  items : List α
  lost : ℕ
  deriving DecidableEq, Repr

structure Batch (α : Type u) where
  items : List α
  lost : ℕ
  deriving DecidableEq, Repr

namespace LossyQueue

def empty : LossyQueue α := ⟨[], 0⟩

def enqueue (q : LossyQueue α) (a : α) : LossyQueue α := { q with items := q.items ++ [a] }

def lose (q : LossyQueue α) (n : ℕ) : LossyQueue α :=
  ⟨q.items.drop n, q.lost + (q.items.take n).length⟩

def flush (q : LossyQueue α) : Batch α := ⟨q.items, q.lost⟩

/-- The items of batches, each with those that were lost for it in front. -/
def woven (losses : List (List α)) (batches : List (Batch α)) : List α :=
  (List.zipWith (fun gone b => gone ++ b.items) losses batches).flatten

/-- The items of a history: before each batch those that were lost for it, then those lost
since the last one and those in the queue. -/
def Accounts (pushed : List α) (batches : List (Batch α)) (q : LossyQueue α) : Prop :=
  ∃ (losses : List (List α)) (lost : List α),
    losses.map List.length = batches.map Batch.lost ∧ lost.length = q.lost ∧
      pushed = woven losses batches ++ lost ++ q.items

theorem woven_concat {losses : List (List α)} {batches : List (Batch α)}
    (h : losses.map List.length = batches.map Batch.lost) (gone : List α) (b : Batch α) :
    woven (losses ++ [gone]) (batches ++ [b]) = woven losses batches ++ (gone ++ b.items) := by
  have hlen : losses.length = batches.length := by simpa using congrArg List.length h
  simp [woven, List.zipWith_append hlen]

theorem woven_length {losses : List (List α)} {batches : List (Batch α)}
    (h : losses.map List.length = batches.map Batch.lost) :
    (woven losses batches).length =
      (batches.map (fun b => b.items.length)).sum + (batches.map Batch.lost).sum := by
  induction losses generalizing batches with
  | nil =>
    rw [List.map_eq_nil_iff.mp h.symm]
    rfl
  | cons gone losses ih =>
    cases batches with
    | nil => cases h
    | cons b batches =>
      obtain ⟨hgone, hrest⟩ := List.cons.inj h
      have hlater := ih hrest
      simp only [woven, List.zipWith_cons_cons, List.flatten_cons, List.length_append,
        List.map_cons, List.sum_cons] at hlater ⊢
      omega

theorem sublist_woven {losses : List (List α)} {batches : List (Batch α)}
    (h : losses.map List.length = batches.map Batch.lost) :
    (batches.flatMap Batch.items).Sublist (woven losses batches) := by
  induction losses generalizing batches with
  | nil =>
    rw [List.map_eq_nil_iff.mp h.symm]
    exact List.Sublist.refl _
  | cons gone losses ih =>
    cases batches with
    | nil => cases h
    | cons b batches =>
      have hlater := ih (List.cons.inj h).2
      exact (List.sublist_append_right gone b.items).append hlater

variable {pushed : List α} {batches : List (Batch α)} {q : LossyQueue α}

theorem accounts_empty : Accounts [] [] (empty : LossyQueue α) := ⟨[], [], rfl, rfl, rfl⟩

theorem Accounts.enqueue (h : Accounts pushed batches q) (a : α) :
    Accounts (pushed ++ [a]) batches (q.enqueue a) := by
  obtain ⟨losses, lost, hlosses, hlost, rfl⟩ := h
  exact ⟨losses, lost, hlosses, hlost, by simp [LossyQueue.enqueue]⟩

theorem Accounts.lose (h : Accounts pushed batches q) (n : ℕ) :
    Accounts pushed batches (q.lose n) := by
  obtain ⟨losses, lost, hlosses, hlost, rfl⟩ := h
  refine ⟨losses, lost ++ q.items.take n, hlosses, ?_, ?_⟩
  · rw [List.length_append, hlost]
    rfl
  · simp [LossyQueue.lose]

theorem Accounts.flush (h : Accounts pushed batches q) :
    Accounts pushed (batches ++ [q.flush]) empty := by
  obtain ⟨losses, lost, hlosses, hlost, rfl⟩ := h
  refine ⟨losses ++ [lost], [], ?_, rfl, ?_⟩
  · simp [hlosses, hlost, LossyQueue.flush]
  · simp [woven_concat hlosses, LossyQueue.flush, empty]

/-- Nothing is counted twice and nothing is missing. -/
theorem Accounts.length_eq (h : Accounts pushed batches q) :
    pushed.length = (batches.map (fun b => b.items.length)).sum + (batches.map Batch.lost).sum +
      q.items.length + q.lost := by
  obtain ⟨losses, lost, hlosses, hlost, rfl⟩ := h
  simp only [List.length_append, woven_length hlosses, hlost]
  omega

/-- What was handed out and what is queued are in the order of their arrival. -/
theorem Accounts.sublist (h : Accounts pushed batches q) :
    (batches.flatMap Batch.items ++ q.items).Sublist pushed := by
  obtain ⟨losses, lost, hlosses, -, rfl⟩ := h
  have hout := (sublist_woven hlosses).trans (List.sublist_append_left _ lost)
  exact hout.append (List.Sublist.refl q.items)

end LossyQueue
end Foundation
