import GlobalpingProbe.Util.PrivateIp
import Mathlib.Data.BitVec

/-! # IPv6 addresses that embed an IPv4 address

The segments, the octets and the prefix masks of an address are read off its number, where they
are quotients by powers of two.
-/
namespace GlobalpingProbe
open Net

/-- `::ffff:a`. -/
def mappedAddr (a : Ipv4Addr) : Ipv6Addr :=
  .ofSegments [0, 0, 0, 0, 0, 0xffff, a.toNat / 65536, a.toNat % 65536]

/-- `64:ff9b::a`. -/
def nat64Addr (a : Ipv4Addr) : Ipv6Addr :=
  .ofSegments [0x64, 0xff9b, 0, 0, 0, 0, a.toNat / 65536, a.toNat % 65536]

section Bits
variable {a : Ipv6Addr} {i n : ℕ}

theorem segment_eq_iff {v : BitVec 16} :
    segment a i = v ↔ a.toNat / 2 ^ (112 - 16 * i) % 65536 = v.toNat := by
  rw [← BitVec.toNat_inj, segment, BitVec.extractLsb'_toNat, Nat.shiftRight_eq_div_pow]

theorem lowIpv4_toNat : (lowIpv4 a).toNat = a.toNat % 2 ^ 32 := by
  rw [lowIpv4, BitVec.extractLsb'_toNat, Nat.shiftRight_zero]

/-- An address is in a network when both have the same number in front of the last bits. -/
theorem contains_v6_iff {net : Ipv6Addr} :
    (IpNet.v6 net n).contains (.v6 a) = true ↔
      net.toNat / 2 ^ (128 - n) = a.toNat / 2 ^ (128 - n) := by
  rw [IpNet.contains, decide_eq_true_iff, ← BitVec.toNat_inj, BitVec.toNat_ushiftRight,
    BitVec.toNat_ushiftRight, Nat.shiftRight_eq_div_pow, Nat.shiftRight_eq_div_pow]

end Bits

theorem toIpv4Mapped_eq (a : Ipv6Addr) :
    toIpv4Mapped a = if a.toNat / 2 ^ 32 = 0xffff then some (lowIpv4 a) else none := by
  have hlt := a.isLt
  have hcond : ((List.range 5).all (fun i => segment a i = 0) = true ∧ segment a 5 = 0xffff) ↔
      a.toNat / 2 ^ 32 = 0xffff := by
    simp only [List.range, List.range.loop, List.all_cons, List.all_nil, segment_eq_iff,
      Bool.and_eq_true, decide_eq_true_eq, and_true, BitVec.reduceToNat, Nat.reduceMul, Nat.reduceSub]
    omega
  simp only [toIpv4Mapped, hcond]

/-- What is left of an address is decided by its first 96 bits. -/
theorem canonicalize_v6 (a : Ipv6Addr) :
    canonicalize (.v6 a) =
      if a.toNat / 2 ^ 32 = 0xffff ∨ a.toNat / 2 ^ 32 = 0x64ff9b0000000000000000 then
        .v4 (lowIpv4 a)
      else .v6 a := by
  have hlt := a.isLt
  have hcond : (segment a 0 = 0x0064 ∧ segment a 1 = 0xff9b ∧
      [2, 3, 4, 5].all (fun i => segment a i = 0) = true) ↔
      a.toNat / 2 ^ 32 = 0x64ff9b0000000000000000 := by
    simp only [List.all_cons, List.all_nil, segment_eq_iff, Bool.and_eq_true, decide_eq_true_eq,
      and_true, BitVec.reduceToNat, Nat.reduceMul, Nat.reduceSub]
    omega
  simp only [canonicalize, toIpv4Mapped_eq, hcond]
  by_cases hmapped : a.toNat / 2 ^ 32 = 0xffff
  · simp only [hmapped, if_true, true_or]
  · simp only [hmapped, if_false, false_or]

theorem toNat_ofSegments {segments : List ℕ} {n : ℕ}
    (hvalue : segments.foldl (fun value s => value * 65536 + s) 0 = n) (hlt : n < 2 ^ 128) :
    (Ipv6Addr.ofSegments segments).toNat = n := by
  rw [Ipv6Addr.ofSegments, BitVec.toNat_ofNat, hvalue, Nat.mod_eq_of_lt hlt]

theorem mappedAddr_toNat (a : Ipv4Addr) : (mappedAddr a).toNat = 0xffff * 2 ^ 32 + a.toNat := by
  have hlt := a.isLt
  apply toNat_ofSegments
  · simp only [List.foldl_cons, List.foldl_nil]
    omega
  · omega

theorem nat64Addr_toNat (a : Ipv4Addr) :
    (nat64Addr a).toNat = 0x64ff9b0000000000000000 * 2 ^ 32 + a.toNat := by
  have hlt := a.isLt
  apply toNat_ofSegments
  · simp only [List.foldl_cons, List.foldl_nil]
    omega
  · omega

/-- Behind one of the two prefixes the last 32 bits are the address. -/
theorem canonicalize_of_embedding {a : Ipv4Addr} {b : Ipv6Addr} {high : ℕ}
    (hhigh : high = 0xffff ∨ high = 0x64ff9b0000000000000000)
    (hb : b.toNat = high * 2 ^ 32 + a.toNat) : canonicalize (.v6 b) = .v4 a := by
  have hlt := a.isLt
  have hfront : b.toNat / 2 ^ 32 = high := by omega
  have hlow : lowIpv4 b = a := by
    apply BitVec.eq_of_toNat_eq
    rw [lowIpv4_toNat]
    omega
  rw [canonicalize_v6, hfront, if_pos hhigh, hlow]

theorem canonicalize_mappedAddr (a : Ipv4Addr) : canonicalize (.v6 (mappedAddr a)) = .v4 a :=
  canonicalize_of_embedding (.inl rfl) (mappedAddr_toNat a)

theorem canonicalize_nat64Addr (a : Ipv4Addr) : canonicalize (.v6 (nat64Addr a)) = .v4 a :=
  canonicalize_of_embedding (.inr rfl) (nat64Addr_toNat a)

theorem canonicalize_idem (ip : IpAddr) : canonicalize (canonicalize ip) = canonicalize ip := by
  cases ip with
  | v4 a => rfl
  | v6 a =>
    by_cases hembeds : a.toNat / 2 ^ 32 = 0xffff ∨ a.toNat / 2 ^ 32 = 0x64ff9b0000000000000000
    · rw [canonicalize_v6, if_pos hembeds]
      rfl
    · have hself : canonicalize (.v6 a) = .v6 a := by rw [canonicalize_v6, if_neg hembeds]
      rw [hself, hself]

section Private
variable (localIps : List IpAddr)

theorem isIpPrivate_congr {ip other : IpAddr} (h : canonicalize ip = canonicalize other) :
    isIpPrivate localIps ip = isIpPrivate localIps other := by
  unfold isIpPrivate
  rw [h]

/-- An address that embeds none by its prefix and is in one of the networks is private. -/
theorem isIpPrivate_of_contains {a : Ipv6Addr} (net : Ipv6Addr) (n : ℕ)
    (hplain : ¬ (a.toNat / 2 ^ 32 = 0xffff ∨ a.toNat / 2 ^ 32 = 0x64ff9b0000000000000000))
    (hnet : IpNet.v6 net n ∈ privateRanges)
    (hfront : net.toNat / 2 ^ (128 - n) = a.toNat / 2 ^ (128 - n)) :
    isIpPrivate localIps (.v6 a) = true := by
  have hany : privateRanges.any (fun net => net.contains (.v6 a)) = true :=
    List.any_eq_true.mpr ⟨_, hnet, contains_v6_iff.mpr hfront⟩
  simp only [isIpPrivate, canonicalize_v6, if_neg hplain, hany, Bool.or_true]

/-- `2002::/16`. -/
def Is6to4 (a : Ipv6Addr) : Prop := segment a 0 = 0x2002

/-- `2001::/32`. -/
def IsTeredo (a : Ipv6Addr) : Prop := segment a 0 = 0x2001 ∧ segment a 1 = 0

/-- `64:ff9b:1::/48`. -/
def IsLocalNat64 (a : Ipv6Addr) : Prop :=
  segment a 0 = 0x64 ∧ segment a 1 = 0xff9b ∧ segment a 2 = 1

theorem isIpPrivate_of_6to4 {a : Ipv6Addr} (h : Is6to4 a) :
    isIpPrivate localIps (.v6 a) = true := by
  have hlt := a.isLt
  simp only [Is6to4, segment_eq_iff, BitVec.reduceToNat, Nat.reduceMul, Nat.reduceSub] at h
  refine isIpPrivate_of_contains localIps (.ofSegments [0x2002, 0, 0, 0, 0, 0, 0, 0]) 16
    ?_ (by decide) ?_
  · omega
  · change 0x2002 = a.toNat / 2 ^ 112
    omega

theorem isIpPrivate_of_teredo {a : Ipv6Addr} (h : IsTeredo a) :
    isIpPrivate localIps (.v6 a) = true := by
  have hlt := a.isLt
  simp only [IsTeredo, segment_eq_iff, BitVec.reduceToNat, Nat.reduceMul, Nat.reduceSub] at h
  refine isIpPrivate_of_contains localIps (.ofSegments [0x2001, 0, 0, 0, 0, 0, 0, 0]) 32
    ?_ (by decide) ?_
  · omega
  · change 0x20010000 = a.toNat / 2 ^ 96
    omega

theorem isIpPrivate_of_localNat64 {a : Ipv6Addr} (h : IsLocalNat64 a) :
    isIpPrivate localIps (.v6 a) = true := by
  have hlt := a.isLt
  simp only [IsLocalNat64, segment_eq_iff, BitVec.reduceToNat, Nat.reduceMul, Nat.reduceSub] at h
  refine isIpPrivate_of_contains localIps (.ofSegments [0x64, 0xff9b, 1, 0, 0, 0, 0, 0]) 48
    ?_ (by decide) ?_
  · omega
  · change 0x64ff9b0001 = a.toNat / 2 ^ 80
    omega

end Private

/-- The two prefixes that stand for an IPv4 address are judged like it, only the canonical form
counts, and the prefixes of tunnels are private whatever they embed. -/
theorem embedded_judged_alike (localIps : List IpAddr) :
    (∀ a : Ipv4Addr,
      isIpPrivate localIps (.v6 (mappedAddr a)) = isIpPrivate localIps (.v4 a) ∧
      isIpPrivate localIps (.v6 (nat64Addr a)) = isIpPrivate localIps (.v4 a)) ∧
    (∀ ip other, canonicalize ip = canonicalize other →
      isIpPrivate localIps ip = isIpPrivate localIps other) ∧
    (∀ ip, canonicalize (canonicalize ip) = canonicalize ip) ∧
    ∀ a, Is6to4 a ∨ IsTeredo a ∨ IsLocalNat64 a → isIpPrivate localIps (.v6 a) = true := by
  refine ⟨fun a => ⟨?_, ?_⟩, fun ip other => isIpPrivate_congr localIps, canonicalize_idem, ?_⟩
  · exact isIpPrivate_congr localIps (canonicalize_mappedAddr a)
  · exact isIpPrivate_congr localIps (canonicalize_nat64Addr a)
  · rintro a (h | h | h)
    · exact isIpPrivate_of_6to4 localIps h
    · exact isIpPrivate_of_teredo localIps h
    · exact isIpPrivate_of_localNat64 localIps h

end GlobalpingProbe
