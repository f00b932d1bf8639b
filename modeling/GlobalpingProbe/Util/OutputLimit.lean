import GlobalpingProbe.Util.Data
import GlobalpingProbe.Foundation.Utf8Decode

/-! # The size limit on raw output -/
namespace GlobalpingProbe
open Foundation.Utf8

def maxRawOutputBytes : ℕ := 10240
def truncationMarker : Text := "\n[...truncated]".toList

/-- The walk back from `n` to the nearest character boundary. -/
def cutPoint (s : Text) : ℕ → ℕ
  | 0 => 0
  | n + 1 => if isCharBoundary s (n + 1) then n + 1 else cutPoint s n

theorem isCharBoundary_cutPoint (s : Text) (n : ℕ) : isCharBoundary s (cutPoint s n) = true := by
  induction n with
  | zero => cases s <;> rfl
  | succ n ih =>
    unfold cutPoint
    split
    · assumption
    · exact ih

/-- The cut is always at a boundary, so the slice of the source is always present. -/
def truncateOutput (s : Text) (maxBytes : ℕ) : Text :=
  if byteLen s ≤ maxBytes then s
  else (sliceTo s (cutPoint s maxBytes)).get
    (by rw [sliceTo_isSome]; exact isCharBoundary_cutPoint s maxBytes) ++ truncationMarker

def limitRawOutput (result : Json) : Json :=
  match (result.get "rawOutput".toList).bind Json.asStr with
  | none => result
  | some raw =>
    if byteLen raw > maxRawOutputBytes then
      result.replace "rawOutput".toList (.str (truncateOutput raw maxRawOutputBytes))
    else result

/-! ## The limit with the marker -/

theorem cutPoint_le (s : Text) (n : ℕ) : cutPoint s n ≤ n := by
  induction n with
  | zero => exact le_rfl
  | succ n ih =>
    unfold cutPoint
    split
    · exact le_rfl
    · exact ih.trans (Nat.le_succ n)

theorem byteLen_truncateOutput_le (s : Text) (maxBytes : ℕ) :
    byteLen (truncateOutput s maxBytes) ≤ maxBytes + byteLen truncationMarker := by
  unfold truncateOutput
  split
  · next hle => exact hle.trans (Nat.le_add_right _ _)
  · have hcut : ∀ h, byteLen ((sliceTo s (cutPoint s maxBytes)).get h) = cutPoint s maxBytes :=
      fun h => byteLen_of_sliceTo (Option.some_get h).symm
    rw [byteLen_append, hcut]
    exact Nat.add_le_add_right (cutPoint_le s maxBytes) _

theorem cutPoint_of_isCharBoundary {s : Text} {n : ℕ} (h : isCharBoundary s n = true) :
    cutPoint s n = n := by
  cases n with
  | zero => rfl
  | succ n => exact if_pos h

/-- Every byte of the marker starts a character. -/
theorem isCharBoundary_marker (t : Text) {k : ℕ} (hk : k ≤ truncationMarker.length) :
    isCharBoundary (t ++ truncationMarker) (byteLen t + k) = true := by
  have hascii : ∀ c ∈ truncationMarker.take k, c.toNat < 128 := by
    intro c hc
    have hall : truncationMarker.all (fun c => decide (c.toNat < 128)) = true := by decide
    exact of_decide_eq_true (List.all_eq_true.mp hall c (List.mem_of_mem_take hc))
  have hsplit : t ++ truncationMarker =
      (t ++ truncationMarker.take k) ++ truncationMarker.drop k := by
    rw [List.append_assoc, List.take_append_drop]
  have hlen : byteLen t + k = byteLen (t ++ truncationMarker.take k) := by
    rw [byteLen_append, byteLen_ascii hascii, List.length_take, min_eq_left hk]
  rw [hlen, hsplit, ← sliceTo_isSome, sliceTo_append]
  rfl

/-- The output comes out unchanged when it fits, or when the marker already stands where it is
cut. -/
theorem truncateOutput_eq_self_iff {s : Text} {maxBytes : ℕ} :
    truncateOutput s maxBytes = s ↔
      byteLen s ≤ maxBytes ∨ ∃ t, byteLen t = maxBytes ∧ s = t ++ truncationMarker := by
  unfold truncateOutput
  split
  · next hle => simp [hle]
  · next hover =>
    simp only [hover, false_or]
    constructor
    · intro hsame
      generalize hslice : Option.get (sliceTo s (cutPoint s maxBytes)) _ = t at hsame
      have hlen : byteLen t = cutPoint s maxBytes :=
        byteLen_of_sliceTo (by rw [← hslice, Option.some_get])
      have hmarker : byteLen truncationMarker = truncationMarker.length := rfl
      have hle := cutPoint_le s maxBytes
      have htotal : byteLen s = byteLen t + byteLen truncationMarker := by
        rw [← byteLen_append, hsame]
      -- a limit inside the marker would be a boundary, and the cut would be there
      have hboundary := isCharBoundary_marker t (k := maxBytes - byteLen t) (by omega)
      rw [hsame, Nat.add_sub_cancel' (by omega)] at hboundary
      rw [cutPoint_of_isCharBoundary hboundary] at hlen
      exact ⟨t, hlen, hsame.symm⟩
    · rintro ⟨t, rfl, rfl⟩
      have hboundary := isCharBoundary_marker t (Nat.zero_le _)
      rw [Nat.add_zero] at hboundary
      simp only [cutPoint_of_isCharBoundary hboundary, sliceTo_append, Option.get_some]

section Limit
variable {result : Json}

/-- The limit changes nothing but the raw output. -/
theorem limitRawOutput_get_of_ne {key : Text} (h : key ≠ "rawOutput".toList) :
    (limitRawOutput result).get key = result.get key := by
  unfold limitRawOutput
  split
  · rfl
  · split
    · exact Json.get_replace_of_ne result _ h
    · rfl

theorem limitRawOutput_get_str {raw : Text} (h : result.get "rawOutput".toList = some (.str raw)) :
    (limitRawOutput result).get "rawOutput".toList =
      some (.str (truncateOutput raw maxRawOutputBytes)) := by
  have hstr : (result.get "rawOutput".toList).bind Json.asStr = some raw := by rw [h]; rfl
  simp only [limitRawOutput, hstr]
  by_cases hover : byteLen raw > maxRawOutputBytes
  · rw [if_pos hover, Json.get_replace _ h]
  · rw [if_neg hover, h, truncateOutput, if_pos (not_lt.mp hover)]

theorem limitRawOutput_of_none (h : (result.get "rawOutput".toList).bind Json.asStr = none) :
    limitRawOutput result = result := by
  simp only [limitRawOutput, h]

theorem limitRawOutput_of_null (h : result.get "rawOutput".toList = some .null) :
    limitRawOutput result = result :=
  limitRawOutput_of_none (by rw [h]; rfl)

end Limit

/-- A raw output that is a string stays within the limit, the marker not counted. -/
def Json.RawOutputCapped (result : Json) : Prop :=
  ∀ raw, (result.get "rawOutput".toList).bind Json.asStr = some raw →
    byteLen raw ≤ maxRawOutputBytes + byteLen truncationMarker

theorem limitRawOutput_capped (result : Json) : (limitRawOutput result).RawOutputCapped := by
  intro raw hraw
  unfold limitRawOutput at hraw
  split at hraw
  · next hnone =>
    rw [hnone] at hraw
    cases hraw
  · next long hlong =>
    split at hraw
    · obtain ⟨value, hvalue, -⟩ := Option.bind_eq_some_iff.mp hlong
      rw [Json.get_replace _ hvalue, Option.bind_some] at hraw
      cases hraw
      exact byteLen_truncateOutput_le long maxRawOutputBytes
    · next hshort =>
      rw [hlong] at hraw
      cases hraw
      exact (not_lt.mp hshort).trans (Nat.le_add_right _ _)

/-! ## The longest front part that fits -/

theorem le_cutPoint {s : Text} {k n : ℕ} (hk : isCharBoundary s k = true) (hle : k ≤ n) :
    k ≤ cutPoint s n := by
  induction n with
  | zero => exact hle
  | succ n ih =>
    unfold cutPoint
    split
    · exact hle
    · next hinside =>
      -- the limit is no boundary, so `k` is not the limit
      have hne : k ≠ n + 1 := by rintro rfl; exact hinside hk
      exact ih (by omega)

/-- At most three bytes below the limit are given up. -/
theorem le_cutPoint_add_three {s : Text} {n : ℕ} (hn : n ≤ byteLen s) : n ≤ cutPoint s n + 3 := by
  cases hb : isCharBoundary s n with
  | true => exact (le_cutPoint hb le_rfl).trans (Nat.le_add_right _ _)
  | false =>
    obtain ⟨k, hk, hlt, hnear⟩ := (isTail_of_not_boundary hn hb).2
    have hcut := le_cutPoint hk hlt.le
    omega

/-- `p` is the longest front part of `s` that ends at a character boundary and fits into `n`
bytes; the bytes between its end and the limit continue a character. -/
structure LongestWithin (s : Text) (n : ℕ) (p : Text) : Prop where
  front : p <+: s
  boundary : isCharBoundary s (byteLen p) = true
  fits : byteLen p ≤ n
  longest : ∀ q, q <+: s → byteLen q ≤ n → q <+: p
  near : n ≤ byteLen p + 3
  rest : ∀ k, byteLen p < k → k ≤ n → ∃ b, (encode s)[k]? = some b ∧ isTail b = true

theorem longestWithin_of_sliceTo {s p : Text} {n : ℕ} (hn : n ≤ byteLen s)
    (h : sliceTo s (cutPoint s n) = some p) : LongestWithin s n p := by
  have hfront := prefix_of_sliceTo h
  have hlen : byteLen p = cutPoint s n := byteLen_of_sliceTo h
  constructor
  · exact hfront
  · rw [hlen]
    exact isCharBoundary_cutPoint s n
  · rw [hlen]
    exact cutPoint_le s n
  · intro q hq hfits
    have hcut := le_cutPoint (isCharBoundary_iff_isPrefix.mpr ⟨q, hq, rfl⟩) hfits
    exact prefix_of_byteLen_le hfront hq (hlen ▸ hcut)
  · rw [hlen]
    exact le_cutPoint_add_three hn
  · intro k hk hle
    have hinside : isCharBoundary s k = false := by
      by_contra hb
      have hcut := le_cutPoint (Bool.not_eq_false _ ▸ hb) hle
      omega
    exact (isTail_of_not_boundary (hle.trans hn) hinside).1

theorem truncateOutput_of_le {s : Text} {maxBytes : ℕ} (h : byteLen s ≤ maxBytes) :
    truncateOutput s maxBytes = s := if_pos h

theorem truncateOutput_of_lt {s : Text} {maxBytes : ℕ} (h : maxBytes < byteLen s) :
    ∃ p, LongestWithin s maxBytes p ∧ truncateOutput s maxBytes = p ++ truncationMarker := by
  have hsome : (sliceTo s (cutPoint s maxBytes)).isSome = true := by
    rw [sliceTo_isSome]
    exact isCharBoundary_cutPoint s maxBytes
  exact ⟨_, longestWithin_of_sliceTo h.le (Option.some_get hsome).symm, if_neg (not_le.mpr h)⟩

/-- What the limit makes of the raw output: a string too long is cut, all else stays. -/
def capped : Json → Json
  | .str raw => .str (truncateOutput raw maxRawOutputBytes)
  | value => value

theorem limitRawOutput_keys (result : Json) : (limitRawOutput result).keys = result.keys := by
  unfold limitRawOutput
  split
  · rfl
  · split
    · exact Json.keys_replace result _ _
    · rfl

theorem limitRawOutput_get (result : Json) :
    (limitRawOutput result).get "rawOutput".toList =
      (result.get "rawOutput".toList).map capped := by
  cases hget : result.get "rawOutput".toList with
  | none =>
    rw [limitRawOutput_of_none (by rw [hget]; rfl), hget]
    rfl
  | some value =>
    cases value with
    | str raw => exact limitRawOutput_get_str hget
    | null | bool | num | arr | obj =>
      rw [limitRawOutput_of_none (by rw [hget]; rfl), hget]
      rfl

theorem limitRawOutput_of_le {result : Json}
    (h : ∀ raw, result.get "rawOutput".toList = some (.str raw) → byteLen raw ≤ maxRawOutputBytes) :
    limitRawOutput result = result := by
  unfold limitRawOutput
  split
  · rfl
  · next raw hraw =>
    obtain ⟨value, hvalue, hstr⟩ := Option.bind_eq_some_iff.mp hraw
    cases value with
    | str t =>
      cases hstr
      rw [if_neg (not_lt.mpr (h _ hvalue))]
    | null | bool | num | arr | obj => cases hstr

/-- A text that fits comes out as it is, and any other as its longest front part that fits with
the marker behind it. The limit on a result touches nothing but a raw output that is too long. -/
theorem truncation_keeps_longest :
    (∀ (s : Text) (maxBytes : ℕ),
      if byteLen s ≤ maxBytes then truncateOutput s maxBytes = s
      else ∃ p, LongestWithin s maxBytes p ∧ truncateOutput s maxBytes = p ++ truncationMarker) ∧
    (∀ result : Json,
      (limitRawOutput result).keys = result.keys ∧
      (∀ key ≠ "rawOutput".toList, (limitRawOutput result).get key = result.get key) ∧
      (limitRawOutput result).get "rawOutput".toList =
        (result.get "rawOutput".toList).map capped ∧
      ((∀ raw, result.get "rawOutput".toList = some (.str raw) →
        byteLen raw ≤ maxRawOutputBytes) → limitRawOutput result = result)) := by
  constructor
  · intro s maxBytes
    split
    · next hle => exact truncateOutput_of_le hle
    · next hover => exact truncateOutput_of_lt (not_le.mp hover)
  · intro result
    exact ⟨limitRawOutput_keys result, fun key => limitRawOutput_get_of_ne,
      limitRawOutput_get result, limitRawOutput_of_le⟩

/-- The second byte of `é` is the one given up. -/
example : truncateOutput "aé".toList 2 = 'a' :: truncationMarker := by decide

end GlobalpingProbe
