import GlobalpingProbe.Net.DottedQuad

/-! # Numeric IPv4 hosts as the system resolver reads them

The looser grammar of the tools: one to four parts, each in decimal, octal or hexadecimal,
where the last part fills the remaining bytes. Where the strict parser reads an address at
all, both read the same one.
-/
namespace GlobalpingProbe.Net
open Foundation

def numeral (radix : ℕ) (s : Text) : Option ℕ :=
  if s ≠ [] ∧ s.all (isDigitOf radix) then some (numeralValue radix s) else none

/-- One part: `0x` announces hexadecimal and a further leading zero octal. -/
def atonPart : Text → Option ℕ
  | '0' :: 'x' :: s => numeral 16 s
  | '0' :: 'X' :: s => numeral 16 s
  | '0' :: c :: s => numeral 8 (c :: s)
  | s => numeral 10 s

/-- The parts as an address: all but the last are single bytes. -/
def atonAddr : List ℕ → Option Ipv4Addr
  | [d] => if d < 2 ^ 32 then some (BitVec.ofNat 32 d) else none
  | [a, d] => if a < 256 ∧ d < 2 ^ 24 then some (BitVec.ofNat 32 (a * 2 ^ 24 + d)) else none
  | [a, b, d] =>
    if a < 256 ∧ b < 256 ∧ d < 2 ^ 16 then some (BitVec.ofNat 32 ((a * 256 + b) * 2 ^ 16 + d))
    else none
  | [a, b, c, d] =>
    if a < 256 ∧ b < 256 ∧ c < 256 ∧ d < 256 then some (.ofOctets a b c d) else none
  | _ => none

/-- The address a numeric host denotes, `none` for a text that is not a numeric host. -/
def inetAton (s : Text) : Option Ipv4Addr := ((s.splitOn '.').mapM atonPart).bind atonAddr

theorem atonPart_of_decimal {ds : Text} (hne : ds ≠ []) (hd : ∀ c ∈ ds, isDigitOf 10 c = true)
    (hz : ds.head? = some '0' → ds.length ≤ 1) : atonPart ds = some (numeralValue 10 ds) := by
  have hnum : numeral 10 ds = some (numeralValue 10 ds) :=
    if_pos ⟨hne, List.all_eq_true.mpr hd⟩
  unfold atonPart
  split
  · exact absurd (hz rfl) (by simp)
  · exact absurd (hz rfl) (by simp)
  · exact absurd (hz rfl) (by simp)
  · exact hnum

theorem dot_notMem {radix : ℕ} {ds : Text} (hd : ∀ c ∈ ds, isDigitOf radix c = true) :
    '.' ∉ ds := fun h => ne_of_isDigitOf (hd '.' h) (by decide) rfl

/-- A text that both grammars read as the same byte. -/
structure IsOctet (t : Text) (value : ℕ) : Prop where
  undotted : '.' ∉ t
  part : atonPart t = some value
  byte : value ≤ 255

theorem readNumber_octet {p rest : Text} {value : ℕ}
    (h : readNumber 10 3 255 false p = some (value, rest)) :
    ∃ t, p = t ++ rest ∧ IsOctet t value := by
  obtain ⟨ds, hp, hne, hd, rfl, hb, hz⟩ := readNumber_eq_some h
  exact ⟨ds, hp, dot_notMem hd, atonPart_of_decimal hne hd (hz rfl), hb⟩

theorem readOctet_later {index value : ℕ} {p rest : Text} (hi : 0 < index)
    (h : readOctet index p = some (value, rest)) :
    ∃ t, p = '.' :: (t ++ rest) ∧ IsOctet t value := by
  obtain ⟨q, rfl, hq⟩ := readSeparator_later hi h
  obtain ⟨t, rfl, ht⟩ := readNumber_octet hq
  exact ⟨t, rfl, ht⟩

theorem readIpv4Octets_eq_some {a b c d : ℕ} {p rest : Text}
    (h : readIpv4Octets p = some ((a, b, c, d), rest)) :
    ∃ ta tb tc td, p = ta ++ '.' :: (tb ++ '.' :: (tc ++ '.' :: (td ++ rest))) ∧
      IsOctet ta a ∧ IsOctet tb b ∧ IsOctet tc c ∧ IsOctet td d := by
  simp only [readIpv4Octets, bind, pure, Option.bind_eq_some_iff, Prod.exists, Option.some.injEq,
    Prod.mk.injEq] at h
  obtain ⟨a', p₁, h₁, b', p₂, h₂, c', p₃, h₃, d', p₄, h₄, ⟨rfl, rfl, rfl, rfl⟩, rfl⟩ := h
  obtain ⟨ta, rfl, ha⟩ := readNumber_octet h₁
  obtain ⟨tb, rfl, hb⟩ := readOctet_later Nat.one_pos h₂
  obtain ⟨tc, rfl, hc⟩ := readOctet_later Nat.two_pos h₃
  obtain ⟨td, rfl, hd⟩ := readOctet_later (Nat.succ_pos 2) h₄
  exact ⟨ta, tb, tc, td, rfl, ha, hb, hc, hd⟩

/-- A strict address literal is the numeric host of the same address. -/
theorem inetAton_of_readIpv4Addr {s : Text} {addr : Ipv4Addr}
    (h : readIpv4Addr s = some (addr, [])) : inetAton s = some addr := by
  obtain ⟨⟨⟨a, b, c, d⟩, rest⟩, hread, heq⟩ := Option.map_eq_some_iff.mp h
  obtain ⟨rfl, rfl⟩ := Prod.mk.inj heq
  obtain ⟨ta, tb, tc, td, rfl, ha, hb, hc, hd⟩ := readIpv4Octets_eq_some hread
  have hsplit : (ta ++ '.' :: (tb ++ '.' :: (tc ++ '.' :: (td ++ [])))).splitOn '.' =
      [ta, tb, tc, td] := by
    simp [List.splitOn_append_cons_self, List.splitOn_eq_singleton, ha.undotted, hb.undotted,
      hc.undotted, hd.undotted]
  have hparts : [ta, tb, tc, td].mapM atonPart = some [a, b, c, d] := by
    simp [ha.part, hb.part, hc.part, hd.part]
  have hbytes : a < 256 ∧ b < 256 ∧ c < 256 ∧ d < 256 :=
    ⟨Nat.lt_succ_of_le ha.byte, Nat.lt_succ_of_le hb.byte, Nat.lt_succ_of_le hc.byte,
      Nat.lt_succ_of_le hd.byte⟩
  rw [inetAton, hsplit, hparts, Option.bind_some, atonAddr, if_pos hbytes]

/-- What a numeric host and an address literal have in common is the address. -/
theorem inetAton_of_parseIpAddr {s : Text} {ip : IpAddr} (hs : ':' ∉ s)
    (h : parseIpAddr s = some ip) : ∃ addr, ip = .v4 addr ∧ inetAton s = some addr := by
  obtain ⟨addr, rfl, hread⟩ := readIpv4Addr_of_parseIpAddr hs h
  exact ⟨addr, rfl, inetAton_of_readIpv4Addr hread⟩

theorem numeral_eq_some {radix value : ℕ} {s : Text} (h : numeral radix s = some value) :
    s ≠ [] ∧ ∀ c ∈ s, isDigitOf radix c = true := by
  unfold numeral at h
  split at h
  · next hs => exact ⟨hs.1, List.all_eq_true.mp hs.2⟩
  · cases h

theorem atonPart_alphanum {t : Text} {value : ℕ} (h : atonPart t = some value) :
    ∀ c ∈ t, c.isAlphanum = true := by
  have hdigits : ∀ {radix : ℕ} {s : Text}, numeral radix s = some value →
      ∀ c ∈ s, c.isAlphanum = true :=
    fun hn c hc => isAlphanum_of_isDigitOf ((numeral_eq_some hn).2 c hc)
  unfold atonPart at h
  split at h
  · exact List.forall_mem_cons.mpr ⟨by decide, List.forall_mem_cons.mpr ⟨by decide, hdigits h⟩⟩
  · exact List.forall_mem_cons.mpr ⟨by decide, List.forall_mem_cons.mpr ⟨by decide, hdigits h⟩⟩
  · exact List.forall_mem_cons.mpr ⟨by decide, hdigits h⟩
  · exact hdigits h

theorem atonPart_head {t : Text} {value : ℕ} (h : atonPart t = some value) :
    ∃ c rest, t = c :: rest ∧ isDigitOf 10 c = true := by
  unfold atonPart at h
  split at h
  · exact ⟨_, _, rfl, by decide⟩
  · exact ⟨_, _, rfl, by decide⟩
  · exact ⟨_, _, rfl, by decide⟩
  · obtain ⟨hne, hd⟩ := numeral_eq_some h
    obtain ⟨c, rest, rfl⟩ := List.exists_cons_of_ne_nil hne
    exact ⟨c, rest, rfl, hd c List.mem_cons_self⟩

theorem mem_of_mapM_eq_some {α β : Type} {f : α → Option β} {l : List α} {r : List β}
    (h : l.mapM f = some r) : ∀ a ∈ l, ∃ b, f a = some b := by
  induction l generalizing r with
  | nil => nofun
  | cons a l ih =>
    simp only [List.mapM_cons, bind, pure, Option.bind_eq_some_iff] at h
    obtain ⟨b, hb, bs, hbs, -⟩ := h
    exact List.forall_mem_cons.mpr ⟨⟨b, hb⟩, ih hbs⟩

theorem inetAton_parts {s : Text} {addr : Ipv4Addr} (h : inetAton s = some addr) :
    ∀ t ∈ s.splitOn '.', ∃ value, atonPart t = some value := by
  obtain ⟨parts, hparts, -⟩ := Option.bind_eq_some_iff.mp h
  exact mem_of_mapM_eq_some hparts

theorem mem_splitOn {α : Type} [DecidableEq α] {a c : α} {s : List α} (h : c ∈ s) :
    c = a ∨ ∃ t ∈ s.splitOn a, c ∈ t := by
  induction s with
  | nil => cases h
  | cons x s ih =>
    obtain ⟨t, ts, hsplit⟩ := List.exists_cons_of_ne_nil (List.splitOn_ne_nil a s)
    rw [List.splitOn_cons_eq_if_modifyHead, hsplit]
    by_cases hx : x = a
    · rcases List.mem_cons.mp h with rfl | h
      · exact .inl hx
      · refine (ih h).imp_right (fun ⟨u, hu, hc⟩ => ⟨u, ?_, hc⟩)
        simpa [hx, ← hsplit] using .inr hu
    · rcases List.mem_cons.mp h with rfl | h
      · exact .inr ⟨c :: t, by simp [hx], List.mem_cons_self⟩
      · refine (ih h).imp_right (fun ⟨u, hu, hc⟩ => ?_)
        rw [hsplit] at hu
        rcases List.mem_cons.mp hu with rfl | hu
        · exact ⟨x :: u, by simp [hx], List.mem_cons_of_mem x hc⟩
        · exact ⟨u, by simp [hx, hu], hc⟩

theorem inetAton_alphanum {s : Text} {addr : Ipv4Addr} (h : inetAton s = some addr) :
    ∀ c ∈ s, c.isAlphanum = true ∨ c = '.' := by
  intro c hc
  rcases mem_splitOn (a := '.') hc with hdot | ⟨t, ht, hct⟩
  · exact .inr hdot
  · obtain ⟨value, hv⟩ := inetAton_parts h t ht
    exact .inl (atonPart_alphanum hv c hct)

theorem inetAton_head {s : Text} {addr : Ipv4Addr} (h : inetAton s = some addr) :
    ∃ c rest, s = c :: rest ∧ isDigitOf 10 c = true := by
  obtain ⟨t, ts, hsplit⟩ := List.exists_cons_of_ne_nil (List.splitOn_ne_nil '.' s)
  obtain ⟨value, hv⟩ := inetAton_parts h t (by rw [hsplit]; exact List.mem_cons_self)
  obtain ⟨c, rest, rfl, hc⟩ := atonPart_head hv
  cases s with
  | nil => cases hsplit
  | cons x s =>
    obtain ⟨u, us, hu⟩ := List.exists_cons_of_ne_nil (List.splitOn_ne_nil '.' s)
    rw [List.splitOn_cons_eq_if_modifyHead, hu] at hsplit
    split at hsplit
    · cases hsplit
    · cases hsplit
      exact ⟨_, s, rfl, hc⟩

end GlobalpingProbe.Net
