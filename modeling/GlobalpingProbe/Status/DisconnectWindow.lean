import GlobalpingProbe.Status.StatusManager
import Mathlib.Data.List.Induction

/-! # The window of the disconnect tracker

Both operations of the tracker throw away what has expired when they are called, so its
entries are only part of its history. At instants that never go back the part is always the
one that the window of the latest call selects.
-/
namespace GlobalpingProbe.Status

inductive TrackerCall where
  | record
  | count
  deriving DecidableEq, Repr

/-- What a call at an instant leaves behind. -/
def DisconnectTracker.call (t : DisconnectTracker) : TrackerCall × ℕ → DisconnectTracker
  | (.record, now) => (t.record now).2
  | (.count, now) => (t.count now).2

def trackerAfter (calls : List (TrackerCall × ℕ)) : DisconnectTracker :=
  calls.foldl DisconnectTracker.call .new

/-- The instants of the `record` calls. -/
def recorded (calls : List (TrackerCall × ℕ)) : List ℕ :=
  (calls.filter (fun c => c.1 = .record)).map Prod.snd

def recordedWithin (calls : List (TrackerCall × ℕ)) (now : ℕ) : ℕ :=
  (recorded calls).countP (fun at_ => now - at_ < disconnectTtl)

/-- What a later window keeps of an earlier one it keeps of the whole history. -/
theorem evictExpired_entries {t : DisconnectTracker} {disconnects : List ℕ} {counted now : ℕ}
    (h : t.entries = disconnects.filter (fun at_ => counted - at_ < disconnectTtl))
    (hle : counted ≤ now) :
    (t.evictExpired now).entries =
      disconnects.filter (fun at_ => now - at_ < disconnectTtl) := by
  rw [DisconnectTracker.evictExpired, h, List.filter_filter]
  apply List.filter_congr
  intro at_ _
  by_cases hnow : now - at_ < disconnectTtl
  · have : counted - at_ < disconnectTtl := by omega
    simp [hnow, this]
  · simp [hnow]

/-- An entry lies within the window of its own instant. -/
theorem record_entries {t : DisconnectTracker} {disconnects : List ℕ} {now : ℕ}
    (h : (t.evictExpired now).entries =
      disconnects.filter (fun at_ => now - at_ < disconnectTtl)) :
    (t.record now).2.entries =
      (now :: disconnects).filter (fun at_ => now - at_ < disconnectTtl) := by
  have hself : now - now < disconnectTtl := by
    rw [Nat.sub_self]
    decide
  rw [List.filter_cons_of_pos (by simpa using hself), ← h]
  rfl

section Window
variable {calls : List (TrackerCall × ℕ)} {now : ℕ}

/-- Any call at a later instant finds the records of its own window. -/
theorem evictExpired_trackerAfter (h : (calls.map Prod.snd ++ [now]).Pairwise (· ≤ ·)) :
    ((trackerAfter calls).evictExpired now).entries =
      (recorded calls).reverse.filter (fun at_ => now - at_ < disconnectTtl) := by
  induction calls using List.reverseRecOn generalizing now with
  | nil => rfl
  | append_singleton calls c ih =>
    obtain ⟨call, at_⟩ := c
    rw [List.map_append, List.map_singleton, List.pairwise_append] at h
    have hle : at_ ≤ now := h.2.2 at_ (by simp) now (List.mem_singleton_self now)
    have hevict := ih h.1
    rw [trackerAfter, List.foldl_concat, ← trackerAfter]
    cases call with
    | record =>
      have hrecorded : recorded (calls ++ [(.record, at_)]) = recorded calls ++ [at_] := by
        simp [recorded]
      rw [hrecorded, List.reverse_concat]
      exact evictExpired_entries (record_entries hevict) hle
    | count =>
      have hrecorded : recorded (calls ++ [(.count, at_)]) = recorded calls := by simp [recorded]
      rw [hrecorded]
      exact evictExpired_entries hevict hle

/-- Whatever the calls before it evicted, a call at an instant no earlier than theirs answers
for all the records of its window. -/
theorem tracker_answers_window (calls : List (TrackerCall × ℕ)) (now : ℕ)
    (h : (calls.map Prod.snd ++ [now]).Pairwise (· ≤ ·)) :
    ((trackerAfter calls).count now).1 = recordedWithin calls now ∧
      (((trackerAfter calls).record now).1 = true ↔
        maxDisconnects ≤ recordedWithin calls now + 1) := by
  have hevict := evictExpired_trackerAfter h
  have hlength : ((trackerAfter calls).evictExpired now).entries.length =
      recordedWithin calls now := by
    rw [hevict, ← List.countP_eq_length_filter, List.countP_reverse, recordedWithin]
  refine ⟨hlength, ?_⟩
  rw [← hlength]
  exact decide_eq_true_iff

end Window

/-- Two records close together and one after the first has expired. -/
theorem tracker_answers_expired :
    ((trackerAfter [(.record, 0), (.record, fromSecs 200), (.count, fromSecs 299)]).count
        (fromSecs 300)).1 = 1 ∧
      ¬ ((trackerAfter [(.record, 0), (.record, fromSecs 200), (.count, fromSecs 299)]).record
        (fromSecs 300)).1 = true := by
  obtain ⟨hcount, hrecord⟩ := tracker_answers_window
    [(.record, 0), (.record, fromSecs 200), (.count, fromSecs 299)] (fromSecs 300) (by decide)
  exact ⟨hcount.trans (by decide), fun htrue => absurd (hrecord.mp htrue) (by decide)⟩

end GlobalpingProbe.Status
