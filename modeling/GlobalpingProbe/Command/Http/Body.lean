import GlobalpingProbe.Foundation.Utf8Decode
import GlobalpingProbe.Util.Data

/-! # The files of a response

Of the body at most one byte more than the limit is read, and the bytes within the limit are
decoded. The cut falls at a byte, so it can leave the first bytes of a character. The headers are
read whole, if they can be read as a text at all.
-/
namespace GlobalpingProbe.Command.Http
open Foundation.Utf8

def bodyLimit : ℕ := 10000

/-- `read_to_string(..).unwrap_or_default()`: a file that is no UTF-8 reads as an empty one. -/
def readToString (file : List ℕ) : Text := (decode file).getD []

/-- The extra byte tells that there is more. -/
def readCapped (file : List ℕ) (cap : ℕ) : List ℕ := file.take (cap + 1)

/-- `raw_body` and `body_truncated` of `run_http`. -/
def rawBody (file : List ℕ) : Text × Bool :=
  let rawBodyBytes := readCapped file bodyLimit
  if rawBodyBytes.length > bodyLimit then (decodeLossy (rawBodyBytes.take bodyLimit), true)
  else (decodeLossy rawBodyBytes, false)

/-- The body is cut to a part of itself within the limit, and the flag tells whether it is. -/
structure BodyCapped (body : Text) : Prop where
  front : (rawBody (encode body)).1 <+: body
  within : byteLen (rawBody (encode body)).1 ≤ bodyLimit
  flag : byteLen (rawBody (encode body)).1 < byteLen body ↔ (rawBody (encode body)).2 = true

@[simp] theorem readToString_encode (s : Text) : readToString (encode s) = s := by
  rw [readToString, decode_eq_some_iff.mpr rfl, Option.getD_some]

theorem rawBody_of_fits {file : List ℕ} (h : file.length ≤ bodyLimit) :
    rawBody file = (decodeLossy file, false) := by
  have hall : readCapped file bodyLimit = file := List.take_of_length_le (Nat.le_succ_of_le h)
  simp only [rawBody, hall]
  rw [if_neg (not_lt.mpr h)]

theorem rawBody_of_over {file : List ℕ} (h : bodyLimit < file.length) :
    rawBody file = (decodeLossy (file.take bodyLimit), true) := by
  have hread : (readCapped file bodyLimit).length = bodyLimit + 1 := by
    rw [readCapped, List.length_take]
    omega
  have hcut : (readCapped file bodyLimit).take bodyLimit = file.take bodyLimit := by
    rw [readCapped, List.take_take, min_eq_left (Nat.le_succ bodyLimit)]
  simp only [rawBody, hread, hcut]
  rw [if_pos (Nat.lt_succ_self bodyLimit)]

/-- A cut inside a character leaves a text that is longer than the limit or no part of the body. -/
theorem not_bodyCapped {body : Text} (hover : bodyLimit < byteLen body)
    (hinside : isCharBoundary body bodyLimit = false) : ¬ BodyCapped body := by
  rintro ⟨hfront, hwithin, -⟩
  rw [rawBody_of_over (by rwa [length_encode])] at hfront hwithin
  rcases decodeLossy_take body hover.le with ⟨hb, -⟩ | ⟨-, t, c, rest, k, rfl, hk, hk', hlen, ht⟩
  · rw [hinside] at hb
    cases hb
  · simp only [ht] at hfront hwithin
    -- the character that was cut would have to be the replacement character itself
    rw [List.prefix_append_right_inj] at hfront
    obtain rfl : replacement = c := (List.cons_prefix_cons.mp hfront).1
    have hthree : replacement.utf8Size = 3 := rfl
    simp only [byteLen_append, byteLen_cons, byteLen_nil, hthree] at hwithin hk'
    omega

theorem bodyCapped_of {body text : Text} {truncated : Bool}
    (hraw : rawBody (encode body) = (text, truncated)) (hfront : text <+: body)
    (hwithin : byteLen text ≤ bodyLimit)
    (hflag : byteLen text < byteLen body ↔ truncated = true) : BodyCapped body where
  front := by simpa only [hraw] using hfront
  within := by simpa only [hraw] using hwithin
  flag := by simpa only [hraw] using hflag

/-- The body is capped as promised exactly when it is within the limit or a character starts at
the limit. -/
theorem bodyCapped_iff (body : Text) :
    BodyCapped body ↔ (bodyLimit < byteLen body → isCharBoundary body bodyLimit = true) := by
  constructor
  · intro hcapped hover
    by_contra hinside
    exact not_bodyCapped hover (Bool.eq_false_iff.mpr hinside) hcapped
  · intro hboundary
    by_cases hover : bodyLimit < byteLen body
    · have hlong : bodyLimit < (encode body).length := by rwa [length_encode]
      have hraw := rawBody_of_over hlong
      rcases decodeLossy_take body hover.le with ⟨-, t, hfront, hlen, ht⟩ | ⟨hb, -⟩
      · rw [ht] at hraw
        exact bodyCapped_of hraw hfront hlen.le (iff_of_true (hlen ▸ hover) rfl)
      · rw [hboundary hover] at hb
        cases hb
    · have hfits : byteLen body ≤ bodyLimit := not_lt.mp hover
      have hshort : (encode body).length ≤ bodyLimit := by rwa [length_encode]
      have hraw := rawBody_of_fits hshort
      rw [decodeLossy_encode] at hraw
      exact bodyCapped_of hraw (List.prefix_refl body) hfits (iff_of_false (lt_irrefl _) (by simp))

/-- One letter and then two-byte characters, so that the limit falls inside one. -/
def accentedBody : Text := 'a' :: List.replicate 5000 'é'

theorem isCharBoundary_letter (s : Text) (n : ℕ) :
    isCharBoundary ('a' :: s) (n + 1) = isCharBoundary s n := by
  have hone : 'a'.utf8Size = 1 := rfl
  simp [isCharBoundary, hone]

theorem accentedBody_not_capped : ¬ BodyCapped accentedBody := by
  have hlen : byteLen accentedBody = 10001 := by
    rw [accentedBody, byteLen_cons, byteLen_replicate]
    rfl
  have hinside : isCharBoundary accentedBody bodyLimit = false := by
    have hiff := isCharBoundary_replicate 'é' 5000 9999 (by decide)
    have hodd : isCharBoundary (List.replicate 5000 'é') 9999 = false :=
      Bool.eq_false_iff.mpr (fun h => absurd (hiff.mp h) (by decide))
    exact (isCharBoundary_letter _ 9999).trans hodd
  exact not_bodyCapped (by rw [hlen]; decide) hinside

end GlobalpingProbe.Command.Http
