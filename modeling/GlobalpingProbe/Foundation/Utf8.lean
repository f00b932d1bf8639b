import Mathlib.Data.List.Basic
import Mathlib.Algebra.BigOperators.Group.List.Basic
import Mathlib.Tactic.Linarith

/-! # UTF-8 lengths and character boundaries of texts

A text is its list of scalar values. Byte offsets are kept as numbers, and slicing at
an offset is partial: it succeeds exactly at the offsets where an encoded character
starts, which is what a string slice of a byte-indexed language checks at run time.
-/
namespace Foundation.Utf8

def byteLen : List Char → ℕ
  | [] => 0
  | c :: cs => c.utf8Size + byteLen cs

@[simp] theorem byteLen_nil : byteLen [] = 0 := rfl
@[simp] theorem byteLen_cons (c : Char) (cs : List Char) :
    byteLen (c :: cs) = c.utf8Size + byteLen cs := rfl

@[simp] theorem byteLen_append (s t : List Char) : byteLen (s ++ t) = byteLen s + byteLen t := by
  induction s with
  | nil => simp
  | cons c s ih => simp [ih, Nat.add_assoc]

@[simp] theorem byteLen_replicate (n : ℕ) (c : Char) :
    byteLen (List.replicate n c) = n * c.utf8Size := by
  induction n with
  | zero => simp
  | succ n ih => simp [List.replicate_succ, ih, Nat.succ_mul, Nat.add_comm]

/-- Whether an encoded character starts, or the text ends, at byte `n`. -/
def isCharBoundary : List Char → ℕ → Bool
  | _, 0 => true
  | [], _ + 1 => false
  | c :: cs, n + 1 => c.utf8Size ≤ n + 1 && isCharBoundary cs (n + 1 - c.utf8Size)

/-- The slice up to byte `n`, present only when `n` is a character boundary. -/
def sliceTo : List Char → ℕ → Option (List Char)
  | _, 0 => some []
  | [], _ + 1 => none
  | c :: cs, n + 1 =>
    if c.utf8Size ≤ n + 1 then (sliceTo cs (n + 1 - c.utf8Size)).map (c :: ·) else none

theorem sliceTo_isSome (s : List Char) (n : ℕ) : (sliceTo s n).isSome = isCharBoundary s n := by
  induction s generalizing n with
  | nil => cases n <;> rfl
  | cons c s ih =>
    cases n with
    | zero => rfl
    | succ n =>
      by_cases h : c.utf8Size ≤ n + 1
      · simp [sliceTo, isCharBoundary, h, ih]
      · simp [sliceTo, isCharBoundary, h]

theorem byteLen_of_sliceTo {s t : List Char} {n : ℕ} (h : sliceTo s n = some t) :
    byteLen t = n := by
  induction s generalizing n t with
  | nil =>
    cases n with
    | zero => cases h; rfl
    | succ n => cases h
  | cons c s ih =>
    cases n with
    | zero => cases h; rfl
    | succ n =>
      unfold sliceTo at h
      split at h
      · next hle =>
        obtain ⟨u, hu, rfl⟩ := Option.map_eq_some_iff.mp h
        rw [byteLen_cons, ih hu]
        omega
      · cases h

theorem sliceTo_append (t u : List Char) : sliceTo (t ++ u) (byteLen t) = some t := by
  induction t with
  | nil => cases u <;> rfl
  | cons c t ih =>
    have hpos := c.utf8Size_pos
    obtain ⟨n, hn⟩ := Nat.exists_eq_succ_of_ne_zero (show c.utf8Size + byteLen t ≠ 0 by omega)
    have hrest : n + 1 - c.utf8Size = byteLen t := by omega
    rw [List.cons_append, byteLen_cons, hn, sliceTo, if_pos (by omega), hrest, ih]
    rfl

/-- The slice from byte `n` on, present only when `n` is a character boundary. -/
def sliceFrom : List Char → ℕ → Option (List Char)
  | s, 0 => some s
  | [], _ + 1 => none
  | c :: cs, n + 1 => if c.utf8Size ≤ n + 1 then sliceFrom cs (n + 1 - c.utf8Size) else none

@[simp] theorem sliceFrom_zero (s : List Char) : sliceFrom s 0 = some s := by
  cases s <;> rfl

theorem sliceFrom_isSome (s : List Char) (n : ℕ) : (sliceFrom s n).isSome = isCharBoundary s n := by
  induction s generalizing n with
  | nil => cases n <;> rfl
  | cons c s ih =>
    cases n with
    | zero => rfl
    | succ n =>
      by_cases h : c.utf8Size ≤ n + 1
      · simp [sliceFrom, isCharBoundary, h, ih]
      · simp [sliceFrom, isCharBoundary, h]

theorem sliceFrom_append (t u : List Char) : sliceFrom (t ++ u) (byteLen t) = some u := by
  induction t with
  | nil => exact sliceFrom_zero u
  | cons c t ih =>
    have hpos := c.utf8Size_pos
    obtain ⟨n, hn⟩ := Nat.exists_eq_succ_of_ne_zero (show c.utf8Size + byteLen t ≠ 0 by omega)
    have hrest : n + 1 - c.utf8Size = byteLen t := by omega
    rw [List.cons_append, byteLen_cons, hn, sliceFrom, if_pos (by omega), hrest, ih]

section Ascii
variable {s : List Char}

theorem utf8Size_ascii {c : Char} (h : c.toNat < 128) : c.utf8Size = 1 := by
  have hle : c.val.toNat ≤ 127 := Nat.lt_succ_iff.mp h
  rw [Char.utf8Size, if_pos (UInt32.le_iff_toNat_le.mpr hle)]

/-- Inside ASCII every character is one byte. -/
theorem byteLen_ascii (h : ∀ c ∈ s, c.toNat < 128) : byteLen s = s.length := by
  induction s with
  | nil => rfl
  | cons c s ih =>
    have hc := utf8Size_ascii (h c List.mem_cons_self)
    rw [byteLen_cons, hc, ih (fun d hd => h d (List.mem_cons_of_mem c hd)), List.length_cons,
      Nat.add_comm]

theorem sliceTo_ascii (h : ∀ c ∈ s, c.toNat < 128) {n : ℕ} (hn : n ≤ s.length) :
    sliceTo s n = some (s.take n) := by
  induction s generalizing n with
  | nil =>
    obtain rfl : n = 0 := Nat.le_zero.mp hn
    rfl
  | cons c s ih =>
    cases n with
    | zero => rfl
    | succ n =>
      have hc := utf8Size_ascii (h c List.mem_cons_self)
      have hrest := ih (fun d hd => h d (List.mem_cons_of_mem c hd)) (Nat.le_of_succ_le_succ hn)
      simp [sliceTo, hc, hrest]

end Ascii

/-- In a run of one character the boundaries are the multiples of its size. -/
theorem isCharBoundary_replicate (c : Char) (k n : ℕ) (hn : n ≤ k * c.utf8Size) :
    isCharBoundary (List.replicate k c) n = true ↔ c.utf8Size ∣ n := by
  induction k generalizing n with
  | zero =>
    obtain rfl : n = 0 := by simpa using hn
    simp [isCharBoundary]
  | succ k ih =>
    cases n with
    | zero => simp [isCharBoundary]
    | succ n =>
      simp only [List.replicate_succ, isCharBoundary, Bool.and_eq_true, decide_eq_true_eq]
      rw [Nat.succ_mul] at hn
      constructor
      · rintro ⟨hle, hb⟩
        exact (Nat.dvd_sub_iff_left hle dvd_rfl).mp ((ih _ (by omega)).mp hb)
      · intro hd
        have hle := Nat.le_of_dvd (Nat.succ_pos n) hd
        exact ⟨hle, (ih _ (by omega)).mpr ((Nat.dvd_sub_iff_left hle dvd_rfl).mpr hd)⟩

/-! ## Front parts of a text -/

section Prefix
variable {s p q : List Char} {n : ℕ}

theorem prefix_of_sliceTo (h : sliceTo s n = some p) : p <+: s := by
  induction s generalizing n p with
  | nil =>
    cases n with
    | zero => cases h; exact List.nil_prefix
    | succ n => cases h
  | cons c s ih =>
    cases n with
    | zero => cases h; exact List.nil_prefix
    | succ n =>
      unfold sliceTo at h
      split at h
      · obtain ⟨u, hu, rfl⟩ := Option.map_eq_some_iff.mp h
        exact List.cons_prefix_cons.mpr ⟨rfl, ih hu⟩
      · cases h

/-- The boundaries are the ends of the front parts. -/
theorem isCharBoundary_iff_isPrefix : isCharBoundary s n = true ↔ ∃ t, t <+: s ∧ byteLen t = n := by
  rw [← sliceTo_isSome, Option.isSome_iff_exists]
  constructor
  · rintro ⟨t, ht⟩
    exact ⟨t, prefix_of_sliceTo ht, byteLen_of_sliceTo ht⟩
  · rintro ⟨t, ⟨u, rfl⟩, rfl⟩
    exact ⟨t, sliceTo_append t u⟩

theorem eq_nil_of_byteLen (h : byteLen s = 0) : s = [] := by
  cases s with
  | nil => rfl
  | cons c s =>
    have hpos := c.utf8Size_pos
    rw [byteLen_cons] at h
    omega

/-- Of two front parts of one text the one with fewer bytes is a front part of the other. -/
theorem prefix_of_byteLen_le (hp : p <+: s) (hq : q <+: s) (h : byteLen q ≤ byteLen p) :
    q <+: p := by
  rcases List.prefix_or_prefix_of_prefix hp hq with hpq | hqp
  · obtain ⟨t, rfl⟩ := hpq
    rw [byteLen_append] at h
    obtain rfl := eq_nil_of_byteLen (s := t) (by omega)
    exact ⟨[], by rw [List.append_nil, List.append_nil]⟩
  · exact hqp

end Prefix

end Foundation.Utf8
