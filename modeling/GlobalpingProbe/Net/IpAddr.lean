import GlobalpingProbe.Foundation.Numeral
import GlobalpingProbe.Util.Data

/-! # IP addresses and the strict parser of the standard library

Addresses are their 32 or 128 bits. The parser reads from the front of a text and hands the
rest on; an address literal is a text it reads to the end.
-/
namespace GlobalpingProbe.Net
open Foundation

abbrev Ipv4Addr := BitVec 32
abbrev Ipv6Addr := BitVec 128

inductive IpAddr where
  | v4 (a : Ipv4Addr)
  | v6 (a : Ipv6Addr)
  deriving DecidableEq, Repr

def Ipv4Addr.ofOctets (a b c d : ℕ) : Ipv4Addr :=
  BitVec.ofNat 32 (((a * 256 + b) * 256 + c) * 256 + d)

def Ipv6Addr.ofSegments (segments : List ℕ) : Ipv6Addr :=
  BitVec.ofNat 128 (segments.foldl (fun value s => value * 65536 + s) 0)

/-- A number of at most `maxDigits` digits and at most `bound`. -/
def readNumber (radix maxDigits bound : ℕ) (allowZeroPrefix : Bool) (p : Text) :
    Option (ℕ × Text) :=
  let (ds, rest) := spanDigits radix p
  let value := numeralValue radix ds
  if ds.length = 0 ∨ maxDigits < ds.length then none
  else if !allowZeroPrefix ∧ ds.head? = some '0' ∧ 1 < ds.length then none
  else if bound < value then none
  else some (value, rest)

def readGivenChar (c : Char) : Text → Option Text
  | [] => none
  | d :: p => if d = c then some p else none

/-- The separator stands before every item but the first. -/
def readSeparator {α : Type} (sep : Char) (index : ℕ) (inner : Text → Option (α × Text))
    (p : Text) : Option (α × Text) :=
  if 0 < index then (readGivenChar sep p).bind inner else inner p

def readOctet (index : ℕ) : Text → Option (ℕ × Text) :=
  readSeparator '.' index (readNumber 10 3 255 false)

/-- The four octets of an address; leading zeros are not allowed in any of them. -/
def readIpv4Octets (p : Text) : Option ((ℕ × ℕ × ℕ × ℕ) × Text) := do
  let (a, p) ← readOctet 0 p
  let (b, p) ← readOctet 1 p
  let (c, p) ← readOctet 2 p
  let (d, p) ← readOctet 3 p
  return ((a, b, c, d), p)

def readIpv4Addr (p : Text) : Option (Ipv4Addr × Text) :=
  (readIpv4Octets p).map (fun r => (.ofOctets r.1.1 r.1.2.1 r.1.2.2.1 r.1.2.2.2, r.2))

/-- A run of groups, at most `left` of them, of which the last two may be written as an IPv4
address: the segments, whether they end so, and the rest. -/
def readGroups : ℕ → ℕ → Text → List ℕ × Bool × Text
  | 0, _, p => ([], false, p)
  | left + 1, index, p =>
    match if 0 < left then readSeparator ':' index readIpv4Octets p else none with
    | some ((a, b, c, d), p) => ([a * 256 + b, c * 256 + d], true, p)
    | none =>
      match readSeparator ':' index (readNumber 16 4 65535 true) p with
      | some (group, p) =>
        let later := readGroups left (index + 1) p
        (group :: later.1, later.2)
      | none => ([], false, p)

def readIpv6Addr (p : Text) : Option (Ipv6Addr × Text) :=
  let (head, headIpv4, p) := readGroups 8 0 p
  if head.length = 8 then some (.ofSegments head, p)
  else if headIpv4 then none
  else do
    let p ← readGivenChar ':' p
    let p ← readGivenChar ':' p
    let (tail, _, p) := readGroups (8 - (head.length + 1)) 0 p
    let zeros := List.replicate (8 - head.length - tail.length) 0
    return (.ofSegments (head ++ zeros ++ tail), p)

def readIpAddr (p : Text) : Option (IpAddr × Text) :=
  ((readIpv4Addr p).map (fun r => (IpAddr.v4 r.1, r.2))).or
    ((readIpv6Addr p).map (fun r => (IpAddr.v6 r.1, r.2)))

/-- `str::parse::<IpAddr>`. -/
def parseIpAddr (s : Text) : Option IpAddr :=
  match readIpAddr s with
  | some (ip, []) => some ip
  | _ => none

theorem readNumber_eq_some {radix maxDigits bound value : ℕ} {zeros : Bool} {p rest : Text}
    (h : readNumber radix maxDigits bound zeros p = some (value, rest)) :
    ∃ ds, p = ds ++ rest ∧ ds ≠ [] ∧ (∀ c ∈ ds, isDigitOf radix c = true) ∧
      numeralValue radix ds = value ∧ value ≤ bound ∧
      (zeros = false → ds.head? = some '0' → ds.length ≤ 1) := by
  unfold readNumber at h
  dsimp only at h
  split at h
  · cases h
  · next hlen =>
    split at h
    · cases h
    · next hzero =>
      split at h
      · cases h
      · next hbound =>
        obtain ⟨rfl, rfl⟩ := Prod.mk.inj (Option.some.inj h)
        refine ⟨(spanDigits radix p).1, (spanDigits_append radix p).symm, ?_,
          fun c hc => spanDigits_digits hc, rfl, not_lt.mp hbound, ?_⟩
        · intro hnil
          exact hlen (.inl (by rw [hnil]; rfl))
        · intro hz hhead
          by_contra hlong
          exact hzero ⟨by simp [hz], hhead, not_le.mp hlong⟩

theorem readGivenChar_eq_some {c : Char} {p rest : Text} (h : readGivenChar c p = some rest) :
    p = c :: rest := by
  cases p with
  | nil => cases h
  | cons d p =>
    obtain ⟨rfl, hp⟩ : d = c ∧ p = rest := by simpa [readGivenChar] using h
    rw [hp]

end GlobalpingProbe.Net
