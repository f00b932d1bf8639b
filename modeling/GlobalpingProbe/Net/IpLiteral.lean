import GlobalpingProbe.Foundation.Strings
import GlobalpingProbe.Net.IpAddr

/-! # The characters of address literals

Every part of the strict parser takes digits, colons and dots only, so an address literal has
no other characters.
-/
namespace GlobalpingProbe.Net
open Foundation

def isLiteralChar (c : Char) : Bool := isDigitOf 16 c || c = ':' || c = '.'

/-- What is in front of the rest is made of characters of literals. -/
def TakesLiteral (p rest : Text) : Prop :=
  ∃ taken, p = taken ++ rest ∧ ∀ c ∈ taken, isLiteralChar c = true

theorem TakesLiteral.refl (p : Text) : TakesLiteral p p := ⟨[], rfl, by simp⟩

theorem TakesLiteral.trans {p q rest : Text} (h₁ : TakesLiteral p q) (h₂ : TakesLiteral q rest) :
    TakesLiteral p rest := by
  obtain ⟨front, rfl, hfront⟩ := h₁
  obtain ⟨back, rfl, hback⟩ := h₂
  refine ⟨front ++ back, by simp, fun c hc => ?_⟩
  rcases List.mem_append.mp hc with hc | hc
  · exact hfront c hc
  · exact hback c hc

theorem readNumber_takes {radix maxDigits bound value : ℕ} {zeros : Bool} {p rest : Text}
    (hradix : radix ≤ 16) (h : readNumber radix maxDigits bound zeros p = some (value, rest)) :
    TakesLiteral p rest := by
  obtain ⟨ds, hp, -, hd, -⟩ := readNumber_eq_some h
  exact ⟨ds, hp, fun c hc => by simp [isLiteralChar, isDigitOf_mono hradix (hd c hc)]⟩

theorem readGivenChar_takes {c : Char} {p rest : Text} (hc : isLiteralChar c = true)
    (h : readGivenChar c p = some rest) : TakesLiteral p rest :=
  ⟨[c], readGivenChar_eq_some h, by simpa using hc⟩

theorem readSeparator_takes {α : Type} {sep : Char} {index : ℕ}
    {inner : Text → Option (α × Text)} {a : α} {p rest : Text} (hsep : isLiteralChar sep = true)
    (hinner : ∀ p a rest, inner p = some (a, rest) → TakesLiteral p rest)
    (h : readSeparator sep index inner p = some (a, rest)) : TakesLiteral p rest := by
  unfold readSeparator at h
  split at h
  · obtain ⟨q, hq, h⟩ := Option.bind_eq_some_iff.mp h
    exact (readGivenChar_takes hsep hq).trans (hinner q a rest h)
  · exact hinner p a rest h

theorem readOctet_takes {index value : ℕ} {p rest : Text}
    (h : readOctet index p = some (value, rest)) : TakesLiteral p rest :=
  readSeparator_takes (by decide) (fun _ _ _ => readNumber_takes (by decide)) h

theorem readIpv4Octets_takes {octets : ℕ × ℕ × ℕ × ℕ} {p rest : Text}
    (h : readIpv4Octets p = some (octets, rest)) : TakesLiteral p rest := by
  simp only [readIpv4Octets, bind, pure, Option.bind_eq_some_iff, Prod.exists, Option.some.injEq,
    Prod.mk.injEq] at h
  obtain ⟨a, p₁, h₁, b, p₂, h₂, c, p₃, h₃, d, p₄, h₄, -, rfl⟩ := h
  exact (((readOctet_takes h₁).trans (readOctet_takes h₂)).trans (readOctet_takes h₃)).trans
    (readOctet_takes h₄)

theorem readGroups_takes (left index : ℕ) (p : Text) :
    TakesLiteral p (readGroups left index p).2.2 := by
  induction left generalizing index p with
  | zero => exact .refl p
  | succ left ih =>
    unfold readGroups
    split
    · next h =>
      split at h
      · exact readSeparator_takes (by decide) (fun _ _ _ => readIpv4Octets_takes) h
      · cases h
    · split
      · next group q h =>
        exact (readSeparator_takes (by decide) (fun _ _ _ => readNumber_takes le_rfl) h).trans
          (ih (index + 1) q)
      · exact .refl p

theorem readIpv6Addr_takes {addr : Ipv6Addr} {p rest : Text}
    (h : readIpv6Addr p = some (addr, rest)) : TakesLiteral p rest := by
  have hhead := readGroups_takes 8 0 p
  unfold readIpv6Addr at h
  dsimp only at h
  split at h
  · obtain ⟨-, rfl⟩ := Prod.mk.inj (Option.some.inj h)
    exact hhead
  · split at h
    · cases h
    · obtain ⟨p₁, h₁, h⟩ := Option.bind_eq_some_iff.mp h
      obtain ⟨p₂, h₂, h⟩ := Option.bind_eq_some_iff.mp h
      obtain ⟨-, rfl⟩ := Prod.mk.inj (Option.some.inj h)
      exact ((hhead.trans (readGivenChar_takes (by decide) h₁)).trans
        (readGivenChar_takes (by decide) h₂)).trans (readGroups_takes _ 0 p₂)

theorem readIpAddr_takes {ip : IpAddr} {p rest : Text} (h : readIpAddr p = some (ip, rest)) :
    TakesLiteral p rest := by
  rcases Option.or_eq_some_iff.mp h with h | ⟨-, h⟩
  · obtain ⟨v4, hv4, heq⟩ := Option.map_eq_some_iff.mp h
    obtain ⟨octets, hoctets, rfl⟩ := Option.map_eq_some_iff.mp hv4
    cases heq
    exact readIpv4Octets_takes hoctets
  · obtain ⟨v6, hv6, heq⟩ := Option.map_eq_some_iff.mp h
    cases heq
    exact readIpv6Addr_takes hv6

theorem isLiteralChar_of_parseIpAddr {s : Text} {ip : IpAddr} (h : parseIpAddr s = some ip) :
    ∀ c ∈ s, isLiteralChar c = true := by
  unfold parseIpAddr at h
  split at h
  · next hread =>
    obtain ⟨taken, rfl, htaken⟩ := readIpAddr_takes hread
    simpa using htaken
  · cases h

/-- An address as the system writes it, without the zone that may follow. -/
def withoutZone (s : Text) : Text := s.takeWhile (· ≠ '%')

theorem ne_nil_of_parseIpAddr {s : Text} {ip : IpAddr} (h : parseIpAddr s = some ip) :
    s ≠ [] := by
  rintro rfl
  cases h

theorem ne_singleton_of_parseIpAddr {s : Text} {ip : IpAddr} (h : parseIpAddr s = some ip)
    {c : Char} (hc : parseIpAddr [c] = none) : s ≠ [c] := by
  rintro rfl
  rw [hc] at h
  cases h

theorem notMem_of_parseIpAddr {s : Text} {ip : IpAddr} (h : parseIpAddr s = some ip) {c : Char}
    (hc : isLiteralChar c = false) : c ∉ s := by
  intro hmem
  rw [isLiteralChar_of_parseIpAddr h c hmem] at hc
  cases hc

theorem withoutZone_of_notMem {s : Text} (h : '%' ∉ s) : withoutZone s = s := by
  apply List.takeWhile_eq_self_iff.mpr
  intro c hc
  have hne : c ≠ '%' := fun heq => h (heq ▸ hc)
  simpa using hne

theorem isWhitespace_of_isLiteralChar {c : Char} (h : isLiteralChar c = true) :
    isWhitespace c = false := by
  unfold isLiteralChar at h
  simp only [Bool.or_eq_true, decide_eq_true_eq] at h
  rcases h with (h | rfl) | rfl
  · exact isWhitespace_of_isAlphanum (isAlphanum_of_isDigitOf h)
  · decide
  · decide

end GlobalpingProbe.Net
