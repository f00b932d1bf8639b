import GlobalpingProbe.Foundation.Search
import GlobalpingProbe.Net.IpLiteral

/-! # The addresses that a text shows

A text shows an address where a part of it is an address literal that does not go on to the
left or to the right.
-/
namespace GlobalpingProbe.Net
open Foundation

def ShowsLiteral (s : Text) (ip : IpAddr) : Prop :=
  ∃ before w after, s = before ++ w ++ after ∧ parseIpAddr w = some ip ∧
    ∀ u v, u <:+ before → v <+: after → (parseIpAddr (u ++ w ++ v)).isSome = true →
      u = [] ∧ v = []

variable {ip : IpAddr} {c : Char}

theorem showsLiteral_of_parseIpAddr {w : Text} (h : parseIpAddr w = some ip) :
    ShowsLiteral w ip := by
  refine ⟨[], w, [], by simp, h, fun u v hu hv _ => ?_⟩
  exact ⟨List.suffix_nil.mp hu, List.prefix_nil.mp hv⟩

/-- A character that no literal has separates the literals on its two sides. -/
theorem showsLiteral_append_cons (hc : isLiteralChar c = false) (s t : Text) :
    ShowsLiteral (s ++ c :: t) ip ↔ ShowsLiteral s ip ∨ ShowsLiteral t ip := by
  have hnot : ∀ {u w v : Text}, (parseIpAddr (u ++ w ++ v)).isSome = true → c ∉ u ∧ c ∉ v := by
    intro u w v h
    obtain ⟨ip, hip⟩ := Option.isSome_iff_exists.mp h
    have hmem := notMem_of_parseIpAddr hip hc
    simp only [List.mem_append, not_or] at hmem
    exact ⟨hmem.1.1, hmem.2⟩
  constructor
  · rintro ⟨before, w, after, hs, hw, hmax⟩
    rcases append_cons_eq_append (notMem_of_parseIpAddr hw hc) hs with ⟨x, rfl, rfl⟩ | ⟨x, rfl, rfl⟩
    · refine .inl ⟨before, w, x, rfl, hw, fun u v hu hv h => ?_⟩
      exact hmax u v hu (hv.trans (List.prefix_append x _)) h
    · refine .inr ⟨x, w, after, rfl, hw, fun u v hu hv h => ?_⟩
      exact hmax u v ((suffix_append_cons (hnot h).1).mpr hu) hv h
  · rintro (⟨before, w, after, rfl, hw, hmax⟩ | ⟨before, w, after, rfl, hw, hmax⟩)
    · refine ⟨before, w, after ++ c :: t, by simp, hw, fun u v hu hv h => ?_⟩
      exact hmax u v hu ((prefix_append_cons (hnot h).2).mp hv) h
    · refine ⟨s ++ c :: before, w, after, by simp, hw, fun u v hu hv h => ?_⟩
      exact hmax u v ((suffix_append_cons (hnot h).1).mp hu) hv h

/-- A literal between two such characters is shown. -/
theorem showsLiteral_between {d : Char} {w : Text} (hc : isLiteralChar c = false)
    (hd : isLiteralChar d = false) (hw : parseIpAddr w = some ip) (s t : Text) :
    ShowsLiteral (s ++ c :: (w ++ d :: t)) ip :=
  (showsLiteral_append_cons hc s _).mpr
    (.inr ((showsLiteral_append_cons hd w t).mpr (.inl (showsLiteral_of_parseIpAddr hw))))

/-- A text that is no literal in any part shows none. -/
theorem not_showsLiteral {s : Text} (h : ∀ w, w <:+: s → parseIpAddr w = none) :
    ¬ ShowsLiteral s ip := by
  rintro ⟨before, w, after, rfl, hw, -⟩
  rw [h w ⟨before, after, rfl⟩] at hw
  cases hw

end GlobalpingProbe.Net
