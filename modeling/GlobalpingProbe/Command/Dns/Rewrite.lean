import GlobalpingProbe.Command.Dns.Parse
import GlobalpingProbe.Net.IpLiteral

/-! # What the rewriting of a line leaves alone

Only a private address behind the label of the server is hidden, and with it all other places
where the line has the same text. White space, comment marks and section headings stay.
-/
namespace GlobalpingProbe.Command.Dns
open Foundation Regex Net

variable {localIps : List IpAddr}

def mask : Text := "x.x.x.x".toList

/-- The text of the private address that the rewriting hides in a line. -/
def hiddenAddress (localIps : List IpAddr) (line : Text) : Option Text :=
  if contains "SERVER:".toList line then
    (ipInServerRe.captures line).bind (fun caps =>
      if (parseIpAddr (caps.group 1)).any (isIpPrivate localIps) then some (caps.group 1) else none)
  else none

theorem rewriteLine_eq (localIps : List IpAddr) (line : Text) : rewriteLine localIps line =
    ((hiddenAddress localIps line).map (fun addr => replaceAll addr mask line)).getD line := by
  unfold rewriteLine hiddenAddress
  split_ifs with hlabel
  · cases ipInServerRe.captures line with
    | none => rfl
    | some caps =>
      dsimp only [Option.bind_some]
      cases hip : parseIpAddr (caps.group 1) with
      | none => rfl
      | some ip =>
        dsimp only
        rw [Option.any_some]
        by_cases hp : isIpPrivate localIps ip = true
        · rw [if_pos hp, if_pos hp]
          rfl
        · rw [if_neg hp, if_neg hp]
          rfl
  · rfl

/-- A private address, written as a part of the line. -/
structure Hidden (localIps : List IpAddr) (line addr : Text) : Prop where
  literal : ∃ ip, parseIpAddr addr = some ip ∧ isIpPrivate localIps ip = true
  part : addr <:+: line

theorem hidden_of_hiddenAddress {line addr : Text} (h : hiddenAddress localIps line = some addr) :
    Hidden localIps line addr := by
  unfold hiddenAddress at h
  split_ifs at h
  obtain ⟨caps, hcaps, h⟩ := Option.bind_eq_some_iff.mp h
  split_ifs at h with hp
  cases h
  obtain ⟨ip, hip, hprivate⟩ := (Option.any_eq_true _ _).mp hp
  exact ⟨⟨ip, hip, hprivate⟩, group_infix hcaps 1⟩

theorem Hidden.notMem {line addr : Text} (h : Hidden localIps line addr) {c : Char}
    (hc : isLiteralChar c = false) : c ∉ addr := by
  obtain ⟨ip, hip, -⟩ := h.literal
  exact notMem_of_parseIpAddr hip hc

theorem Hidden.ne_nil {line addr : Text} (h : Hidden localIps line addr) : addr ≠ [] := by
  obtain ⟨ip, hip, -⟩ := h.literal
  exact ne_nil_of_parseIpAddr hip

theorem rewriteLine_of_none {line : Text} (h : hiddenAddress localIps line = none) :
    rewriteLine localIps line = line := by
  rw [rewriteLine_eq, h]
  rfl

theorem rewriteLine_of_some {line addr : Text} (h : hiddenAddress localIps line = some addr) :
    rewriteLine localIps line = replaceAll addr mask line := by
  rw [rewriteLine_eq, h]
  rfl

/-- A front part without the letter of the mask comes from the line itself. -/
theorem prefix_of_rewriteLine {line q : Text} (hq : 'x' ∉ q)
    (h : q <+: rewriteLine localIps line) : q <+: line := by
  cases hh : hiddenAddress localIps line with
  | none => rwa [rewriteLine_of_none hh] at h
  | some addr =>
    rw [rewriteLine_of_some hh] at h
    exact prefix_of_replaceAll hq (hidden_of_hiddenAddress hh).ne_nil h

/-- A front part without literal characters and the letter of the mask stays. -/
theorem front_rewriteLine {line q : Text} (hx : 'x' ∉ q) (hq : q.any isLiteralChar = false) :
    q <+: rewriteLine localIps line ↔ q <+: line := by
  constructor
  · exact prefix_of_rewriteLine hx
  · rintro ⟨rest, rfl⟩
    cases hh : hiddenAddress localIps (q ++ rest) with
    | none => exact ⟨rest, (rewriteLine_of_none hh).symm⟩
    | some addr =>
      have hhidden := hidden_of_hiddenAddress hh
      have hno : ∀ c ∈ q, c ∉ addr := fun c hc =>
        hhidden.notMem (eq_false_of_ne_true (List.any_eq_false.mp hq c hc))
      rw [rewriteLine_of_some hh, replaceAll_front hno hhidden.ne_nil]
      exact List.prefix_append q _

theorem head?_eq_some_iff_front {s : Text} {c : Char} : s.head? = some c ↔ [c] <+: s := by
  rw [List.head?_eq_some_iff]
  constructor
  · rintro ⟨t, rfl⟩
    exact ⟨t, rfl⟩
  · rintro ⟨t, rfl⟩
    exact ⟨t, rfl⟩

/-- A comment stays one, and no other line becomes one. -/
theorem head?_rewriteLine (localIps : List IpAddr) (line : Text) :
    (rewriteLine localIps line).head? = some ';' ↔ line.head? = some ';' := by
  rw [head?_eq_some_iff_front, head?_eq_some_iff_front]
  exact front_rewriteLine (by decide) (by decide)

theorem rewriteLine_of_notMem {line : Text} (h : 'S' ∉ line) : rewriteLine localIps line = line :=
  if_neg (fun hc => h (mem_of_contains hc))

theorem rewriteLine_nil : rewriteLine localIps [] = [] := rewriteLine_of_notMem (by simp)

theorem newline_rewriteLine {line : Text} (h : '\n' ∉ line) :
    '\n' ∉ rewriteLine localIps line := by
  cases hh : hiddenAddress localIps line with
  | none => rwa [rewriteLine_of_none hh]
  | some addr =>
    rw [rewriteLine_of_some hh]
    intro hmem
    exact (mem_replaceFrom hmem).elim (by decide) h

theorem rewriteLine_comment {line : Text} (h : line = [] ∨ line.head? = some ';') :
    rewriteLine localIps line = [] ∨ (rewriteLine localIps line).head? = some ';' := by
  rcases h with rfl | h
  · exact .inl rewriteLine_nil
  · exact .inr ((head?_rewriteLine localIps line).mpr h)

end GlobalpingProbe.Command.Dns
