import GlobalpingProbe.Net.IpAddr

/-! # Address literals without a colon

They are four numbers in decimal with dots between them: the parser reads an IPv6 address only
where it finds a colon.
-/
namespace GlobalpingProbe.Net
open Foundation

def IsNumber (ds : Text) : Prop := ds ≠ [] ∧ ∀ c ∈ ds, isDigitOf 10 c = true

/-- Four numbers in decimal with dots between them. -/
def DottedQuad (s : Text) : Prop :=
  ∃ a b c d, s = a ++ '.' :: (b ++ '.' :: (c ++ '.' :: d)) ∧
    IsNumber a ∧ IsNumber b ∧ IsNumber c ∧ IsNumber d

/-- Every item but the first has the separator in front. -/
theorem readSeparator_later {α : Type} {sep : Char} {index : ℕ}
    {inner : Text → Option (α × Text)} {r : α × Text} {p : Text} (hi : 0 < index)
    (h : readSeparator sep index inner p = some r) : ∃ q, p = sep :: q ∧ inner q = some r := by
  rw [readSeparator, if_pos hi] at h
  obtain ⟨q, hq, h⟩ := Option.bind_eq_some_iff.mp h
  exact ⟨q, readGivenChar_eq_some hq, h⟩

theorem isNumber_of_readNumber {value : ℕ} {p rest : Text}
    (h : readNumber 10 3 255 false p = some (value, rest)) :
    ∃ ds, p = ds ++ rest ∧ IsNumber ds := by
  obtain ⟨ds, hp, hne, hdigits, -⟩ := readNumber_eq_some h
  exact ⟨ds, hp, hne, hdigits⟩

theorem dottedQuad_of_readIpv4Octets {octets : ℕ × ℕ × ℕ × ℕ} {p : Text}
    (h : readIpv4Octets p = some (octets, [])) : DottedQuad p := by
  simp only [readIpv4Octets, bind, pure, Option.bind_eq_some_iff, Prod.exists, Option.some.injEq,
    Prod.mk.injEq] at h
  obtain ⟨_, p₁, h₁, _, p₂, h₂, _, p₃, h₃, _, p₄, h₄, -, rfl⟩ := h
  obtain ⟨a, rfl, ha⟩ := isNumber_of_readNumber h₁
  obtain ⟨q₁, rfl, h₂⟩ := readSeparator_later Nat.one_pos h₂
  obtain ⟨b, rfl, hb⟩ := isNumber_of_readNumber h₂
  obtain ⟨q₂, rfl, h₃⟩ := readSeparator_later Nat.two_pos h₃
  obtain ⟨c, rfl, hc⟩ := isNumber_of_readNumber h₃
  obtain ⟨q₃, rfl, h₄⟩ := readSeparator_later (Nat.succ_pos 2) h₄
  obtain ⟨d, rfl, hd⟩ := isNumber_of_readNumber h₄
  exact ⟨a, b, c, d, by rw [List.append_nil], ha, hb, hc, hd⟩

theorem readGivenChar_of_notMem {c : Char} {p : Text} (h : c ∉ p) : readGivenChar c p = none := by
  cases p with
  | nil => rfl
  | cons d p =>
    refine if_neg ?_
    rintro rfl
    exact h List.mem_cons_self

theorem readIpv6Addr_of_colon_notMem {p : Text} (hp : ':' ∉ p) (h4 : readIpv4Octets p = none) :
    readIpv6Addr p = none := by
  have hfirst : ∃ head rest, readGroups 8 0 p = (head, false, rest) ∧ head.length ≤ 1 ∧
      ':' ∉ rest := by
    cases hn : readNumber 16 4 65535 true p with
    | none => exact ⟨[], p, by simp [readGroups, readSeparator, h4, hn], Nat.zero_le 1, hp⟩
    | some r =>
      obtain ⟨group, rest⟩ := r
      obtain ⟨ds, rfl, -⟩ := readNumber_eq_some hn
      have hrest : ':' ∉ rest := fun h => hp (List.mem_append_right ds h)
      refine ⟨[group], rest, ?_, le_rfl, hrest⟩
      simp [readGroups, readSeparator, h4, hn, readGivenChar_of_notMem hrest]
  obtain ⟨head, rest, hread, hlen, hrest⟩ := hfirst
  rw [readIpv6Addr, hread]
  dsimp only
  rw [if_neg (by omega), readGivenChar_of_notMem hrest]
  rfl

theorem readIpv4Addr_of_parseIpAddr {s : Text} {ip : IpAddr} (hs : ':' ∉ s)
    (h : parseIpAddr s = some ip) :
    ∃ addr, ip = .v4 addr ∧ readIpv4Addr s = some (addr, []) := by
  unfold parseIpAddr at h
  split at h
  · next ip' hread =>
    cases h
    unfold readIpAddr at hread
    cases h4 : readIpv4Octets s with
    | none =>
      have hnone : readIpv4Addr s = none := by rw [readIpv4Addr, h4]; rfl
      rw [hnone, readIpv6Addr_of_colon_notMem hs h4] at hread
      cases hread
    | some r =>
      obtain ⟨octets, rest⟩ := r
      have hsome : readIpv4Addr s = some (.ofOctets octets.1 octets.2.1 octets.2.2.1 octets.2.2.2,
          rest) := by rw [readIpv4Addr, h4]; rfl
      rw [hsome] at hread
      obtain ⟨rfl, rfl⟩ := Prod.mk.inj (Option.some.inj hread)
      exact ⟨_, rfl, hsome⟩
  · cases h

theorem dottedQuad_of_parseIpAddr {s : Text} {ip : IpAddr} (hs : ':' ∉ s)
    (h : parseIpAddr s = some ip) : DottedQuad s := by
  obtain ⟨addr, -, hread⟩ := readIpv4Addr_of_parseIpAddr hs h
  obtain ⟨⟨octets, rest⟩, hoctets, heq⟩ := Option.map_eq_some_iff.mp hread
  obtain rfl : rest = [] := (Prod.mk.inj heq).2
  exact dottedQuad_of_readIpv4Octets hoctets

end GlobalpingProbe.Net
