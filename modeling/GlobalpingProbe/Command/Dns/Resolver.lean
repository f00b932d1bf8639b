import GlobalpingProbe.Command.Dns.Metadata
import GlobalpingProbe.Foundation.FirstMatch

/-! # The resolver that a rewritten line shows

The name in parentheses behind a label of the server is the resolver. Hiding an address keeps
the labels, except one whose colon starts an occurrence of the address, and it keeps the
parentheses; so the resolver is known before the line is rewritten.
-/
namespace GlobalpingProbe.Command.Dns
open Foundation Regex Net

variable {localIps : List IpAddr}

def serverLabel : Text := "SERVER:".toList

/-- The name that a line shows is the first one in parentheses behind a label. -/
theorem captures_resolverRe {line : Text} (h : '\n' ∉ line) :
    (resolverRe.captures line).map (·.group 1) =
      (followers serverLabel line).findSome? (between '(' ')') := by
  refine captures_lit_betweenRe 'S' "ERVER:".toList (fun c hc => ?_) '(' ')'
  simpa using fun heq : c = '\n' => h (heq ▸ hc)

section Label
variable {addr : Text} {ip : IpAddr}

theorem replaceAll_label (haddr : parseIpAddr addr = some ip) (t : Text) :
    replaceAll addr mask (serverLabel ++ t) =
      "SERVER".toList ++ replaceAll addr mask (':' :: t) := by
  have hne := ne_nil_of_parseIpAddr haddr
  have hnot : ∀ c, isLiteralChar c = false → c ∉ addr := fun c => notMem_of_parseIpAddr haddr
  have hE : addr ≠ ['E'] := ne_singleton_of_parseIpAddr haddr (by decide)
  have htext : serverLabel = ['S', 'E', 'R', 'V', 'E', 'R', ':'] := rfl
  simp only [htext, List.cons_append, List.nil_append]
  rw [replaceAll_cons (hnot 'S' (by decide)) hne, replaceAll_cons_cons (hnot 'R' (by decide)) hne hE,
    replaceAll_cons (hnot 'V' (by decide)) hne, replaceAll_cons_cons (hnot 'R' (by decide)) hne hE]
  rfl

/-- A label stays unless its colon starts an occurrence of the address. -/
theorem label_prefix_replaceAll (haddr : parseIpAddr addr = some ip) {s : Text} :
    serverLabel <+: replaceAll addr mask s ↔ ∃ t, s = serverLabel ++ t ∧ ¬ addr <+: ':' :: t := by
  have hne := ne_nil_of_parseIpAddr haddr
  constructor
  · intro h
    obtain ⟨t, rfl⟩ := prefix_of_replaceAll (c := 'x') (by decide) hne h
    refine ⟨t, rfl, ?_⟩
    rintro ⟨u, hu⟩
    rw [replaceAll_label haddr, ← hu, replaceAll_occurrence hne] at h
    have hlabel : serverLabel = "SERVER".toList ++ [':'] := rfl
    rw [hlabel, List.prefix_append_right_inj] at h
    exact absurd (List.cons_prefix_cons.mp h).1 (by decide)
  · rintro ⟨t, rfl, hno⟩
    rw [replaceAll_label haddr, replaceAll_other hno]
    exact ⟨_, rfl⟩

theorem replaceAll_keptLabel (haddr : parseIpAddr addr = some ip) {t : Text}
    (h : ¬ addr <+: ':' :: t) :
    replaceAll addr mask (serverLabel ++ t) = serverLabel ++ replaceAll addr mask t := by
  rw [replaceAll_label haddr, replaceAll_other h]
  rfl

/-- What follows the labels of a line in which an address is hidden. -/
theorem followers_replaceAll (haddr : parseIpAddr addr = some ip) (s : Text) :
    followers serverLabel (replaceAll addr mask s) =
      ((followers serverLabel s).filter (fun t => ¬ addr <+: ':' :: t)).map
        (replaceAll addr mask) := by
  have hne := ne_nil_of_parseIpAddr haddr
  have hS : 'S' ∉ addr := notMem_of_parseIpAddr haddr (by decide)
  have hlabel : serverLabel = 'S' :: "ERVER:".toList := rfl
  induction s using occurrence_induction hne with
  | nil => rfl
  | occurrence t ih =>
    rw [replaceAll_occurrence hne, hlabel, followers_append_of_notMem (by decide),
      followers_append_of_notMem hS, ← hlabel, ih]
  | other c s h ih =>
    by_cases hprefix : serverLabel <+: replaceAll addr mask (c :: s)
    · obtain ⟨t, ht, hno⟩ := (label_prefix_replaceAll haddr).mp hprefix
      have hkept := replaceAll_keptLabel haddr hno
      rw [← ht, replaceAll_other h] at hkept
      rw [replaceAll_other h, followers_cons_append hkept, followers_cons_append ht, ih]
      simp [hno]
    · have hrest : ∀ t, c :: s = serverLabel ++ t → addr <+: ':' :: t := by
        intro t ht
        by_contra hno
        exact hprefix ((label_prefix_replaceAll haddr).mpr ⟨t, ht, hno⟩)
      rw [replaceAll_other h] at hprefix ⊢
      rw [followers_cons_of_not hprefix, ih]
      by_cases hhere : serverLabel <+: c :: s
      · obtain ⟨t, ht⟩ := hhere
        rw [followers_cons_append ht.symm]
        simp [hrest t ht.symm]
      · rw [followers_cons_of_not hhere]

/-- Of all names, the hidden address and the mask are masked to the mask. -/
theorem replaceAll_eq_mask (haddr : parseIpAddr addr = some ip) {name : Text} :
    replaceAll addr mask name = mask ↔ addr = name ∨ name = mask := by
  have hne := ne_nil_of_parseIpAddr haddr
  constructor
  · intro h
    exact (replaceAll_eq_new hne (by decide) h).imp Eq.symm id
  · rintro (rfl | rfl)
    · have hocc := replaceAll_occurrence hne mask []
      rwa [List.append_nil] at hocc
    · have hx := notMem_of_parseIpAddr haddr (c := 'x') (by decide)
      have hdot : addr ≠ ['.'] := ne_singleton_of_parseIpAddr haddr (by decide)
      have htext : mask = ['x', '.', 'x', '.', 'x', '.', 'x'] := rfl
      simp only [htext]
      rw [replaceAll_cons hx hne, replaceAll_cons_cons hx hne hdot,
        replaceAll_cons_cons hx hne hdot, replaceAll_cons_cons hx hne hdot]
      rfl

theorem replaceAll_eq_private (haddr : parseIpAddr addr = some ip) {name : Text} :
    replaceAll addr mask name = "private".toList ↔ name = "private".toList := by
  have hne := ne_nil_of_parseIpAddr haddr
  constructor
  · intro h
    rw [replaceAll_eq_intercalate hne] at h
    have hself := replaceAll_self hne name
    rw [replaceAll_eq_intercalate hne] at hself
    obtain ⟨p, ps, hps⟩ := exists_pieces hne name
    rw [hps] at h hself
    cases ps with
    | nil =>
      rw [List.intercalate_singleton] at h hself
      exact hself.symm.trans h
    | cons q ps =>
      have hmask : 'x' ∈ mask := by decide
      have hx : 'x' ∈ mask.intercalate (p :: q :: ps) := by
        rw [List.intercalate_cons_cons]
        simp [hmask]
      rw [h] at hx
      exact absurd hx (by decide)
  · rintro rfl
    have hnot : ∀ c, isLiteralChar c = false → c ∉ addr := fun c => notMem_of_parseIpAddr haddr
    have ha : addr ≠ ['a'] := ne_singleton_of_parseIpAddr haddr (by decide)
    have he : addr ≠ ['e'] := ne_singleton_of_parseIpAddr haddr (by decide)
    have htext : "private".toList = ['p', 'r', 'i', 'v', 'a', 't', 'e'] := rfl
    simp only [htext]
    rw [replaceAll_cons (hnot 'p' (by decide)) hne, replaceAll_cons (hnot 'r' (by decide)) hne,
      replaceAll_cons (hnot 'i' (by decide)) hne, replaceAll_cons (hnot 'v' (by decide)) hne,
      replaceAll_cons_cons (hnot 't' (by decide)) hne ha, replaceAll_singleton hne he]

end Label

/-! ## The name that stays behind a label -/

/-- The first name in parentheses behind a label of the server that hiding the private address
of the line keeps. -/
def shownName (localIps : List IpAddr) (line : Text) : Option Text :=
  ((followers serverLabel line).filter
    (fun t => ∀ addr ∈ hiddenAddress localIps line, ¬ addr <+: ':' :: t)).findSome?
      (between '(' ')')

def resolverNamed (name : Text) : Text := if name = mask then "private".toList else name

theorem resolverOf_eq {line : Text} (h : '\n' ∉ line) : resolverOf line =
    ((followers serverLabel line).findSome? (between '(' ')')).map resolverNamed := by
  rw [← captures_resolverRe h, Option.map_map]
  rfl

/-- The resolver that a rewritten line shows is the name of the line, with its private address
hidden in it. -/
theorem resolverOf_rewriteLine {line : Text} (h : '\n' ∉ line) :
    resolverOf (rewriteLine localIps line) = (shownName localIps line).map (fun name =>
      resolverNamed ((hiddenAddress localIps line).elim name (replaceAll · mask name))) := by
  rw [resolverOf_eq (newline_rewriteLine h), shownName]
  cases hh : hiddenAddress localIps line with
  | none => simp [rewriteLine_of_none hh]
  | some addr =>
    obtain ⟨ip, hip, -⟩ := (hidden_of_hiddenAddress hh).literal
    have hne := ne_nil_of_parseIpAddr hip
    have hbetween : (between '(' ')' ∘ replaceAll addr mask : Text → Option Text) =
        Option.map (replaceAll addr mask) ∘ between '(' ')' := by
      funext t
      exact between_replaceAll hne ⟨notMem_of_parseIpAddr hip (by decide), by decide⟩
        ⟨notMem_of_parseIpAddr hip (by decide), by decide⟩ t
    rw [rewriteLine_of_some hh, followers_replaceAll hip, List.findSome?_map, hbetween,
      ← List.map_findSome?, Option.map_map]
    simp [Function.comp_def]

theorem resolverNamed_eq_private {name : Text} :
    resolverNamed name = "private".toList ↔ name = mask ∨ name = "private".toList := by
  unfold resolverNamed
  split_ifs with h <;> simp [h]

/-- The resolver is `private` for the hidden address, the mask and the word itself. -/
theorem resolverOf_rewriteLine_private {line : Text} (h : '\n' ∉ line) :
    resolverOf (rewriteLine localIps line) = some "private".toList ↔
      ∃ name, shownName localIps line = some name ∧
        (hiddenAddress localIps line = some name ∨ name = mask ∨ name = "private".toList) := by
  rw [resolverOf_rewriteLine h, Option.map_eq_some_iff]
  refine exists_congr (fun name => and_congr_right (fun _ => ?_))
  rw [resolverNamed_eq_private]
  cases hh : hiddenAddress localIps line with
  | none => simp
  | some addr =>
    obtain ⟨ip, hip, -⟩ := (hidden_of_hiddenAddress hh).literal
    rw [Option.elim_some, replaceAll_eq_mask hip, replaceAll_eq_private hip, Option.some_inj,
      or_assoc]

end GlobalpingProbe.Command.Dns
