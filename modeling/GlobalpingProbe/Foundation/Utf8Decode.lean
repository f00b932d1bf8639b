import GlobalpingProbe.Foundation.Utf8
import Mathlib.Data.List.TakeWhile

/-! # UTF-8 bytes and their lossy decoding

A byte is its number. The decoder takes the bytes of one character at a time; bytes that begin
a character but do not complete it are taken together, and become one replacement character.
-/
namespace Foundation.Utf8

def encodeChar (c : Char) : List ℕ :=
  let n := c.toNat
  if n < 0x80 then [n]
  else if n < 0x800 then [0xC0 + n / 64, 0x80 + n % 64]
  else if n < 0x10000 then [0xE0 + n / 4096, 0x80 + n / 64 % 64, 0x80 + n % 64]
  else [0xF0 + n / 262144, 0x80 + n / 4096 % 64, 0x80 + n / 64 % 64, 0x80 + n % 64]

def encode (s : List Char) : List ℕ := s.flatMap encodeChar

/-- How many bytes a lead byte announces, itself included; none where it leads nothing. -/
def width (b : ℕ) : ℕ :=
  if b < 0x80 then 1
  else if 0xC2 ≤ b ∧ b ≤ 0xDF then 2
  else if 0xE0 ≤ b ∧ b ≤ 0xEF then 3
  else if 0xF0 ≤ b ∧ b ≤ 0xF4 then 4
  else 0

def isTail (b : ℕ) : Bool := 0x80 ≤ b && b ≤ 0xBF

/-- Some lead bytes leave less choice for the second byte: no overlong forms, no surrogates and
nothing beyond the last scalar value. -/
def isSecond (lead b : ℕ) : Bool :=
  if lead = 0xE0 then 0xA0 ≤ b && b ≤ 0xBF
  else if lead = 0xED then 0x80 ≤ b && b ≤ 0x9F
  else if lead = 0xF0 then 0x90 ≤ b && b ≤ 0xBF
  else if lead = 0xF4 then 0x80 ≤ b && b ≤ 0x8F
  else isTail b

/-- How many bytes can belong to the character of the lead byte. -/
def continued (lead : ℕ) : List ℕ → ℕ
  | [] => 0
  | b :: bytes => if isSecond lead b then 1 + (bytes.takeWhile isTail).length else 0

def scalar (lead : ℕ) (tails : List ℕ) : ℕ :=
  let bits := if lead < 0x80 then lead else if lead < 0xE0 then lead - 0xC0
    else if lead < 0xF0 then lead - 0xE0 else lead - 0xF0
  tails.foldl (fun n b => n * 64 + (b - 0x80)) bits

def replacement : Char := Char.ofNat 0xFFFD

/-- `String::from_utf8_lossy`. -/
def decodeLossy (bytes : List ℕ) : List Char :=
  go bytes.length bytes
where
  go : ℕ → List ℕ → List Char
    | 0, _ => []
    | _ + 1, [] => []
    | fuel + 1, lead :: bytes =>
      let n := min (continued lead bytes) (width lead - 1)
      (if n + 1 = width lead then Char.ofNat (scalar lead (bytes.take n)) else replacement) ::
        go fuel (bytes.drop n)

@[simp] theorem encode_nil : encode [] = [] := rfl

@[simp] theorem encode_cons (c : Char) (s : List Char) :
    encode (c :: s) = encodeChar c ++ encode s := rfl

theorem encode_append (s t : List Char) : encode (s ++ t) = encode s ++ encode t :=
  List.flatMap_append

theorem length_encodeChar (c : Char) : (encodeChar c).length = c.utf8Size := by
  have hle : ∀ n : UInt32, c.val ≤ n ↔ c.toNat ≤ n.toNat := fun n => UInt32.le_iff_toNat_le
  unfold encodeChar Char.utf8Size
  simp only [hle]
  change _ = if c.toNat ≤ 127 then 1 else if c.toNat ≤ 2047 then 2
    else if c.toNat ≤ 65535 then 3 else 4
  split_ifs <;> first | rfl | omega

@[simp] theorem length_encode (s : List Char) : (encode s).length = byteLen s := by
  induction s with
  | nil => rfl
  | cons c s ih => rw [encode_cons, List.length_append, length_encodeChar, ih, byteLen_cons]

/-- The bytes after the lead byte are those that it announces, and each may stand there. -/
structure Sequence (lead : ℕ) (tails : List ℕ) : Prop where
  length : tails.length + 1 = width lead
  second : ∀ b ∈ tails.head?, isSecond lead b = true
  later : ∀ b ∈ tails.tail, isTail b = true

theorem isTail_of_isSecond {lead b : ℕ} (h : isSecond lead b = true) : isTail b = true := by
  unfold isSecond at h
  split_ifs at h <;> simp only [isTail, Bool.and_eq_true, decide_eq_true_eq] at h ⊢ <;> omega

theorem Sequence.isTail_of_mem {lead : ℕ} {tails : List ℕ} (h : Sequence lead tails) {b : ℕ}
    (hb : b ∈ tails) : isTail b = true := by
  cases tails with
  | nil => cases hb
  | cons d tails =>
    rcases List.mem_cons.mp hb with rfl | hb
    · exact isTail_of_isSecond (h.second b rfl)
    · exact h.later b hb

theorem isTail_bits (n : ℕ) : isTail (0x80 + n % 64) = true := by
  simp only [isTail, Bool.and_eq_true, decide_eq_true_eq]
  omega

theorem encodeChar_sequence (c : Char) : ∃ lead tails, encodeChar c = lead :: tails ∧
    Sequence lead tails ∧ scalar lead tails = c.toNat := by
  have hvalid : c.toNat < 0xD800 ∨ 0xDFFF < c.toNat ∧ c.toNat < 0x110000 := c.valid
  unfold encodeChar
  generalize c.toNat = n at hvalid
  dsimp only
  split_ifs with h₁ h₂ h₃
  · refine ⟨n, [], rfl, ⟨?_, by simp, by simp⟩, ?_⟩
    · simp [width, h₁]
    · simp [scalar, h₁]
  · refine ⟨_, _, rfl, ⟨?_, ?_, by simp⟩, ?_⟩
    · unfold width
      split_ifs <;> first | rfl | omega
    · simp only [List.head?_cons, Option.mem_some_iff, forall_eq']
      unfold isSecond isTail
      split_ifs <;> simp <;> omega
    · unfold scalar
      simp only [List.foldl_cons, List.foldl_nil]
      split_ifs <;> omega
  · refine ⟨_, _, rfl, ⟨?_, ?_, ?_⟩, ?_⟩
    · unfold width
      split_ifs <;> first | rfl | omega
    · simp only [List.head?_cons, Option.mem_some_iff, forall_eq']
      unfold isSecond isTail
      split_ifs <;> simp <;> omega
    · simp [isTail_bits]
    · unfold scalar
      simp only [List.foldl_cons, List.foldl_nil]
      split_ifs <;> omega
  · refine ⟨_, _, rfl, ⟨?_, ?_, ?_⟩, ?_⟩
    · unfold width
      split_ifs <;> first | rfl | omega
    · simp only [List.head?_cons, Option.mem_some_iff, forall_eq']
      unfold isSecond isTail
      split_ifs <;> simp <;> omega
    · simp [isTail_bits]
    · unfold scalar
      simp only [List.foldl_cons, List.foldl_nil]
      split_ifs <;> omega

/-! ## Decoding what was encoded -/

theorem continued_take {lead : ℕ} {tails : List ℕ} (h : Sequence lead tails) (k : ℕ) :
    continued lead (tails.take k) = (tails.take k).length := by
  cases tails with
  | nil => simp [continued]
  | cons b tails =>
    cases k with
    | zero => rfl
    | succ k =>
      have hsecond : isSecond lead b = true := h.second b rfl
      have hlater : (tails.take k).takeWhile isTail = tails.take k :=
        List.takeWhile_eq_self_iff.mpr (fun b hb => h.later b (List.mem_of_mem_take hb))
      simp only [List.take_succ_cons, continued, hsecond, if_true, hlater, List.length_cons]
      omega

theorem le_continued {lead : ℕ} {tails : List ℕ} (h : Sequence lead tails) (rest : List ℕ) :
    tails.length ≤ continued lead (tails ++ rest) := by
  cases tails with
  | nil => exact Nat.zero_le _
  | cons b tails =>
    have hsecond : isSecond lead b = true := h.second b rfl
    have hlater : (tails ++ rest).takeWhile isTail = tails ++ rest.takeWhile isTail :=
      List.takeWhile_append_of_pos h.later
    simp only [List.cons_append, continued, hsecond, if_true, hlater, List.length_cons,
      List.length_append]
    omega

theorem go_encodeChar (c : Char) (fuel : ℕ) (rest : List ℕ) :
    decodeLossy.go (fuel + 1) (encodeChar c ++ rest) = c :: decodeLossy.go fuel rest := by
  obtain ⟨lead, tails, hcons, hseq, hscalar⟩ := encodeChar_sequence c
  have hall : min (continued lead (tails ++ rest)) (width lead - 1) = tails.length := by
    have hle := le_continued hseq rest
    have hlength := hseq.length
    omega
  rw [hcons, List.cons_append, decodeLossy.go]
  simp only [hall, hseq.length, if_true, List.take_left, List.drop_left, hscalar, Char.ofNat_toNat]

/-- The first bytes of a character become one replacement character. -/
theorem go_incomplete (c : Char) {k : ℕ} (hpos : 0 < k) (hlt : k < c.utf8Size) (fuel : ℕ) :
    decodeLossy.go (fuel + 1) ((encodeChar c).take k) = [replacement] := by
  obtain ⟨lead, tails, hcons, hseq, -⟩ := encodeChar_sequence c
  obtain ⟨k, rfl⟩ := Nat.exists_eq_succ_of_ne_zero hpos.ne'
  rw [← length_encodeChar, hcons, List.length_cons] at hlt
  have hlength : (tails.take k).length = k := by
    rw [List.length_take]
    omega
  have hpart : min (continued lead (tails.take k)) (width lead - 1) = k := by
    rw [continued_take hseq, hlength, ← hseq.length]
    omega
  have hshort : k + 1 ≠ width lead := by
    rw [← hseq.length]
    omega
  have hnone : (tails.take k).drop k = [] := by simp
  rw [hcons, List.take_succ_cons, decodeLossy.go]
  simp only [hpart, if_neg hshort, hnone]
  cases fuel <;> rfl

theorem go_encode (s : List Char) {fuel : ℕ} (hfuel : byteLen s ≤ fuel) (rest : List ℕ) :
    ∃ left, fuel - byteLen s ≤ left ∧
      decodeLossy.go fuel (encode s ++ rest) = s ++ decodeLossy.go left rest := by
  induction s generalizing fuel with
  | nil => exact ⟨fuel, Nat.sub_le _ _, rfl⟩
  | cons c s ih =>
    rw [byteLen_cons] at hfuel
    have hpos := c.utf8Size_pos
    obtain ⟨fuel, rfl⟩ := Nat.exists_eq_succ_of_ne_zero (show fuel ≠ 0 by omega)
    have hrest : byteLen s ≤ fuel := by omega
    obtain ⟨left, hleft, hgo⟩ := ih hrest
    refine ⟨left, ?_, ?_⟩
    · rw [byteLen_cons]
      omega
    · rw [encode_cons, List.append_assoc, go_encodeChar, hgo]
      rfl

theorem decodeLossy_encode (s : List Char) : decodeLossy (encode s) = s := by
  obtain ⟨left, -, hgo⟩ := go_encode s (le_refl (byteLen s)) []
  have hend : decodeLossy.go left [] = [] := by cases left <;> rfl
  rw [List.append_nil, hend, List.append_nil] at hgo
  rw [decodeLossy, length_encode]
  exact hgo

/-- The text whose encoding the bytes are. -/
def decode (bytes : List ℕ) : Option (List Char) :=
  if encode (decodeLossy bytes) = bytes then some (decodeLossy bytes) else none

theorem decode_eq_some_iff {bytes : List ℕ} {s : List Char} :
    decode bytes = some s ↔ bytes = encode s := by
  unfold decode
  constructor
  · intro h
    split_ifs at h with hvalid
    rw [← Option.some.inj h]
    exact hvalid.symm
  · rintro rfl
    rw [decodeLossy_encode, if_pos rfl]

theorem decode_eq_none_iff {bytes : List ℕ} : decode bytes = none ↔ ∀ s, bytes ≠ encode s := by
  rw [Option.eq_none_iff_forall_ne_some]
  exact forall_congr' (fun s => not_congr decode_eq_some_iff)

/-! ## Texts cut at a byte -/

/-- A cut inside the text falls between two characters or inside one. -/
theorem take_encode (s : List Char) {n : ℕ} (hn : n ≤ byteLen s) :
    (isCharBoundary s n = true ∧ ∃ t, t <+: s ∧ byteLen t = n ∧ (encode s).take n = encode t) ∨
    (isCharBoundary s n = false ∧ ∃ t c rest k, s = t ++ c :: rest ∧ 0 < k ∧ k < c.utf8Size ∧
      byteLen t + k = n ∧ (encode s).take n = encode t ++ (encodeChar c).take k) := by
  induction s generalizing n with
  | nil =>
    obtain rfl : n = 0 := Nat.le_zero.mp hn
    exact .inl ⟨rfl, [], List.nil_prefix, rfl, rfl⟩
  | cons c s ih =>
    rcases Nat.eq_zero_or_pos n with rfl | hpos
    · exact .inl ⟨rfl, [], List.nil_prefix, rfl, rfl⟩
    · obtain ⟨m, rfl⟩ := Nat.exists_eq_succ_of_ne_zero hpos.ne'
      rw [byteLen_cons] at hn
      have hlength := length_encodeChar c
      by_cases hle : c.utf8Size ≤ m + 1
      · have hboundary : isCharBoundary (c :: s) (m + 1) = isCharBoundary s (m + 1 - c.utf8Size) := by
          simp [isCharBoundary, hle]
        have htake : (encode (c :: s)).take (m + 1) =
            encodeChar c ++ (encode s).take (m + 1 - c.utf8Size) := by
          rw [encode_cons, List.take_append, hlength, List.take_of_length_le (by omega)]
        rw [hboundary, htake]
        rcases ih (n := m + 1 - c.utf8Size) (by omega) with
          ⟨hb, t, hfront, hlen, ht⟩ | ⟨hb, t, d, rest, k, rfl, hk, hk', hlen, ht⟩
        · refine .inl ⟨hb, c :: t, List.cons_prefix_cons.mpr ⟨rfl, hfront⟩, ?_, ?_⟩
          · rw [byteLen_cons]
            omega
          · rw [ht, encode_cons]
        · refine .inr ⟨hb, c :: t, d, rest, k, rfl, hk, hk', ?_, ?_⟩
          · rw [byteLen_cons]
            omega
          · rw [ht, encode_cons, List.append_assoc]
      · have hboundary : isCharBoundary (c :: s) (m + 1) = false := by
          simp [isCharBoundary, hle]
        refine .inr ⟨hboundary, [], c, s, m + 1, rfl, hpos, not_le.mp hle, Nat.zero_add _, ?_⟩
        rw [encode_cons, List.take_append_of_le_length (by omega)]
        rfl

/-- A position in the text that is no boundary holds a continuation byte, and one of the three
positions before it is a boundary. -/
theorem isTail_of_not_boundary {s : List Char} {n : ℕ} (hn : n ≤ byteLen s)
    (hinside : isCharBoundary s n = false) :
    (∃ b, (encode s)[n]? = some b ∧ isTail b = true) ∧
      ∃ k, isCharBoundary s k = true ∧ k < n ∧ n ≤ k + 3 := by
  rcases take_encode s hn with ⟨hb, -⟩ | ⟨-, t, c, rest, k, rfl, hk, hk', rfl, -⟩
  · rw [hinside] at hb
    cases hb
  · constructor
    · obtain ⟨lead, tails, hc, hseq, -⟩ := encodeChar_sequence c
      have hlength := length_encodeChar c
      obtain ⟨j, rfl⟩ := Nat.exists_eq_succ_of_ne_zero hk.ne'
      rw [hc, List.length_cons] at hlength
      have hj : j < tails.length := by omega
      refine ⟨tails[j], ?_, hseq.isTail_of_mem (List.getElem_mem hj)⟩
      have hsplit : encode (t ++ c :: rest) = encode t ++ (lead :: tails ++ encode rest) := by
        rw [encode_append, encode_cons, hc]
      rw [hsplit, List.getElem?_append_right (by rw [length_encode]; omega), length_encode,
        Nat.add_sub_cancel_left, List.cons_append, List.getElem?_cons_succ,
        List.getElem?_append_left hj, List.getElem?_eq_getElem hj]
    · have hwidth := c.utf8Size_le_four
      exact ⟨byteLen t, isCharBoundary_iff_isPrefix.mpr ⟨t, List.prefix_append t _, rfl⟩,
        by omega, by omega⟩

/-- Cut between two characters the text is decoded as it is; cut inside one, the decoded text
ends with the replacement character in its place. -/
theorem decodeLossy_take (s : List Char) {n : ℕ} (hn : n ≤ byteLen s) :
    (isCharBoundary s n = true ∧ ∃ t, t <+: s ∧ byteLen t = n ∧
      decodeLossy ((encode s).take n) = t) ∨
    (isCharBoundary s n = false ∧ ∃ t c rest k, s = t ++ c :: rest ∧ 0 < k ∧ k < c.utf8Size ∧
      byteLen t + k = n ∧ decodeLossy ((encode s).take n) = t ++ [replacement]) := by
  rcases take_encode s hn with ⟨hb, t, hfront, hlen, ht⟩ | ⟨hb, t, c, rest, k, hs, hk, hk', hlen, ht⟩
  · refine .inl ⟨hb, t, hfront, hlen, ?_⟩
    rw [ht, decodeLossy_encode]
  · refine .inr ⟨hb, t, c, rest, k, hs, hk, hk', hlen, ?_⟩
    have hbytes : (encode t ++ (encodeChar c).take k).length = byteLen t + k := by
      rw [List.length_append, length_encode, List.length_take, length_encodeChar, min_eq_left hk'.le]
    obtain ⟨left, hleft, hgo⟩ := go_encode t (Nat.le_add_right (byteLen t) k) ((encodeChar c).take k)
    obtain ⟨left, rfl⟩ := Nat.exists_eq_succ_of_ne_zero (show left ≠ 0 by omega)
    rw [ht, decodeLossy, hbytes, hgo, go_incomplete c hk hk']

/-- A surrogate is no character, and none of its bytes belong together. -/
example : decodeLossy [0xED, 0xA0, 0x80, 0x41] = [replacement, replacement, replacement, 'A'] := by
  decide

end Foundation.Utf8
