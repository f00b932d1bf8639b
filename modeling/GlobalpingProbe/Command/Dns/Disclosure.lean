import GlobalpingProbe.Command.Dns.Resolver
import GlobalpingProbe.Net.ShownLiteral

/-! # What a classic result says about a private resolver

A line announces a server by a label and an address. What a rewritten line still shows of an
address is what the pieces around the hidden text show, and the resolver of a transcript is the
name on the last line that keeps one.
-/
namespace GlobalpingProbe.Command.Dns
open Foundation Regex Net

variable {classes : UnicodeClasses} {localIps : List IpAddr}

/-! ## The announced server -/

/-- What stands behind a label up to `#`, without the white space in front. -/
def serverToken (t : Text) : Text :=
  (t.dropWhile isWhitespace).takeWhile (fun c => !isWhitespace c && c ≠ '#')

/-- A label of the line has an address behind it, a zone not counted. -/
def Announces (line : Text) (ip : IpAddr) : Prop :=
  ∃ t ∈ followers serverLabel line, parseIpAddr (withoutZone (serverToken t)) = some ip

/-- A property of every private server that a transcript announces and of the lines after it. -/
def ForPrivateServers (localIps : List IpAddr) (raw : Text) (P : IpAddr → List Text → Prop) :
    Prop :=
  ∀ before line after ip, raw.splitOn '\n' = before ++ line :: after → Announces line ip →
    isIpPrivate localIps ip = true → P ip after

theorem ForPrivateServers.congr {raw : Text} {P Q : IpAddr → List Text → Prop}
    (h : ∀ ip after, P ip after ↔ Q ip after) :
    ForPrivateServers localIps raw P ↔ ForPrivateServers localIps raw Q := by
  simp only [ForPrivateServers, h]

/-- No comment shows a private server, and the last one is reported as private. -/
def Undisclosed (classes : UnicodeClasses) (localIps : List IpAddr) (raw : Text) : Prop :=
  ForPrivateServers localIps raw (fun ip after =>
    (∀ comment ∈ (parseClassic classes localIps raw).rawOutput.splitOn '\n',
      ";;".toList <+: comment → ¬ ShowsLiteral comment ip) ∧
    ((∀ line ∈ after, contains serverLabel line = false) →
      (parseClassic classes localIps raw).status = .finished →
        (parseClassic classes localIps raw).resolver = some "private".toList))

/-! ## The pieces of a rewritten line -/

/-- The parts of a line that stay, in front of, between and after the hidden texts. -/
def unmasked (localIps : List IpAddr) (line : Text) : List Text :=
  (hiddenAddress localIps line).elim [line] (fun addr => pieces addr line)

theorem exists_unmasked (localIps : List IpAddr) (line : Text) :
    ∃ front later, unmasked localIps line = front :: later := by
  unfold unmasked
  cases hh : hiddenAddress localIps line with
  | none => exact ⟨line, [], rfl⟩
  | some addr => exact exists_pieces (hidden_of_hiddenAddress hh).ne_nil line

theorem rewriteLine_eq_intercalate (localIps : List IpAddr) (line : Text) :
    rewriteLine localIps line = mask.intercalate (unmasked localIps line) := by
  unfold unmasked
  cases hh : hiddenAddress localIps line with
  | none => simp [rewriteLine_of_none hh]
  | some addr =>
    rw [rewriteLine_of_some hh, replaceAll_eq_intercalate (hidden_of_hiddenAddress hh).ne_nil]
    rfl

/-- A front part without the letter of the mask is one of the first piece. -/
theorem prefix_rewriteLine {line front q : Text} {later : List Text} (hq : 'x' ∉ q)
    (h : unmasked localIps line = front :: later) :
    q <+: rewriteLine localIps line ↔ q <+: front := by
  rw [rewriteLine_eq_intercalate, h]
  cases later with
  | nil => rw [List.intercalate_singleton]
  | cons second later =>
    have hmask : mask = 'x' :: ".x.x.x".toList := rfl
    rw [List.intercalate_cons_cons, List.append_assoc, hmask, List.cons_append,
      prefix_append_cons hq]

theorem comment_rewriteLine (localIps : List IpAddr) (line : Text) :
    ";;".toList <+: rewriteLine localIps line ↔ ";;".toList <+: line :=
  front_rewriteLine (by decide) (by decide)

/-- The mask joins texts without joining literals. -/
theorem showsLiteral_mask {ip : IpAddr} (ps : List Text) :
    ShowsLiteral (mask.intercalate ps) ip ↔ ∃ p ∈ ps, ShowsLiteral p ip := by
  have hx : isLiteralChar 'x' = false := by decide
  have hnil : ¬ ShowsLiteral [] ip := by
    apply not_showsLiteral
    intro w hw
    rw [List.infix_nil.mp hw]
    rfl
  have hdot : ¬ ShowsLiteral ['.'] ip := by
    apply not_showsLiteral
    intro w hw
    rcases List.sublist_singleton.mp hw.sublist with rfl | rfl <;> decide
  induction ps with
  | nil => simpa using hnil
  | cons p ps ih =>
    cases ps with
    | nil => simp
    | cons q ps =>
      have htext : mask ++ mask.intercalate (q :: ps) =
          'x' :: (['.'] ++ 'x' :: (['.'] ++ 'x' :: (['.'] ++ 'x' ::
            mask.intercalate (q :: ps)))) := rfl
      rw [List.intercalate_cons_cons, List.append_assoc, htext]
      simp only [showsLiteral_append_cons hx, hdot, false_or, ih, List.mem_cons, exists_eq_or_imp]

theorem showsLiteral_rewriteLine {line : Text} {ip : IpAddr} :
    ShowsLiteral (rewriteLine localIps line) ip ↔
      ∃ piece ∈ unmasked localIps line, ShowsLiteral piece ip := by
  rw [rewriteLine_eq_intercalate, showsLiteral_mask]

/-! ## The result as a whole -/

theorem rewriteClassic_lines (localIps : List IpAddr) (raw : Text) :
    (rewriteClassic localIps raw).splitOn '\n' =
      (raw.splitOn '\n').map (rewriteLine localIps) := by
  have hraw : joinLines (raw.splitOn '\n') = raw := List.intercalate_splitOn '\n'
  have hlines : (rewriteClassic localIps (joinLines (raw.splitOn '\n'))).splitOn '\n' =
      (raw.splitOn '\n').map (rewriteLine localIps) :=
    splitOn_rewriteClassic (List.splitOn_ne_nil '\n' raw) (fun l hl => notMem_of_mem_splitOn hl)
  rwa [hraw] at hlines

theorem parseClassic_rawOutput (raw : Text) :
    (parseClassic classes localIps raw).rawOutput = rewriteClassic localIps raw := by
  unfold parseClassic
  dsimp only
  split <;> rfl

/-- Whether a transcript is long enough and does not start with the report of a bad packet. -/
def IsRead (localIps : List IpAddr) (raw : Text) : Prop :=
  6 ≤ (raw.splitOn '\n').length ∧ ∀ line ∈ (raw.splitOn '\n').head?,
    ∀ front ∈ (unmasked localIps line).head?, ¬ ";; Got bad packet:".toList <+: front

theorem parseClassic_finished (classes : UnicodeClasses) (localIps : List IpAddr) (raw : Text) :
    (parseClassic classes localIps raw).status = .finished ↔ IsRead localIps raw := by
  have hlines := rewriteClassic_lines localIps raw
  obtain ⟨first, later, hraw⟩ := List.exists_cons_of_ne_nil (List.splitOn_ne_nil '\n' raw)
  obtain ⟨front, ps, hfront⟩ := exists_unmasked localIps first
  have hbad := prefix_rewriteLine (q := ";; Got bad packet:".toList) (by decide) hfront
  rw [hraw] at hlines
  unfold parseClassic IsRead
  simp only [hlines, hraw, hfront, List.map_cons, List.head?_cons, List.length_cons,
    List.length_map, Option.map_some, Option.getD_some, Option.mem_def, Option.some.injEq,
    forall_eq']
  rw [← hbad]
  split_ifs with h <;> simp only [Bool.or_eq_true, decide_eq_true_eq, List.isPrefixOf_iff_prefix]
    at h
  · refine ⟨False.elim, fun ⟨hlen, hno⟩ => ?_⟩
    rcases h with h | h
    · exact absurd hlen (not_le.mpr h)
    · exact hno h
  · rw [not_or, not_lt] at h
    exact ⟨fun _ => h, fun _ => rfl⟩

theorem parseClassic_resolver {raw : Text}
    (h : (parseClassic classes localIps raw).status = .finished) :
    (parseClassic classes localIps raw).resolver =
      lastSome (fun line => resolverOf (rewriteLine localIps line)) (raw.splitOn '\n') := by
  have hmeta := congrArg Metadata.resolver (parseClassic_metadata h)
  rw [rewriteClassic_lines] at hmeta
  refine hmeta.trans ?_
  simp only [lastShown, lastSome, ← List.map_reverse, List.findSome?_map]
  rfl

/-- The last line that keeps a name has the hidden address, the mask or the word `private`. -/
def ResolverCovered (localIps : List IpAddr) (raw : Text) : Prop :=
  ∃ before line after name, raw.splitOn '\n' = before ++ line :: after ∧
    shownName localIps line = some name ∧ (∀ later ∈ after, shownName localIps later = none) ∧
    (hiddenAddress localIps line = some name ∨ name = mask ∨ name = "private".toList)

theorem lastSome_resolverOf (raw : Text) :
    lastSome (fun line => resolverOf (rewriteLine localIps line)) (raw.splitOn '\n') =
      some "private".toList ↔ ResolverCovered localIps raw := by
  have hplain : ∀ {before line after}, raw.splitOn '\n' = before ++ line :: after →
      '\n' ∉ line ∧ ∀ later ∈ after, '\n' ∉ later := by
    intro before line after hraw
    refine ⟨notMem_of_mem_splitOn (s := raw) (by simp [hraw]), fun later hl => ?_⟩
    exact notMem_of_mem_splitOn (s := raw) (by simp [hraw, hl])
  have hnone : ∀ {line}, '\n' ∉ line →
      (resolverOf (rewriteLine localIps line) = none ↔ shownName localIps line = none) := by
    intro line hline
    rw [resolverOf_rewriteLine hline, Option.map_eq_none_iff]
  rw [lastSome_eq_some]
  constructor
  · rintro ⟨before, line, after, hraw, hline, hafter⟩
    obtain ⟨hl, hlater⟩ := hplain hraw
    obtain ⟨name, hname, hcovered⟩ := (resolverOf_rewriteLine_private hl).mp hline
    exact ⟨before, line, after, name, hraw, hname,
      fun later hm => (hnone (hlater later hm)).mp (hafter later hm), hcovered⟩
  · rintro ⟨before, line, after, name, hraw, hname, hafter, hcovered⟩
    obtain ⟨hl, hlater⟩ := hplain hraw
    have hline := (resolverOf_rewriteLine_private hl).mpr ⟨name, hname, hcovered⟩
    exact ⟨before, line, after, hraw, hline,
      fun later hm => (hnone (hlater later hm)).mpr (hafter later hm)⟩

/-- A private server stays undisclosed exactly if no comment shows it beside its own hidden
text and the last name in parentheses is hidden as well. -/
theorem undisclosed_iff (classes : UnicodeClasses) (localIps : List IpAddr) (raw : Text) :
    Undisclosed classes localIps raw ↔ ForPrivateServers localIps raw (fun ip after =>
      (∀ comment ∈ raw.splitOn '\n', ";;".toList <+: comment →
        ∀ piece ∈ unmasked localIps comment, ¬ ShowsLiteral piece ip) ∧
      ((∀ line ∈ after, contains serverLabel line = false) → IsRead localIps raw →
        ResolverCovered localIps raw)) := by
  refine ForPrivateServers.congr (fun ip after => and_congr ?_ (forall_congr' (fun _ => ?_)))
  · rw [parseClassic_rawOutput, rewriteClassic_lines]
    simp only [List.forall_mem_map, comment_rewriteLine, showsLiteral_rewriteLine, not_exists,
      not_and]
  · rw [← parseClassic_finished classes]
    apply forall_congr'
    intro hfinished
    rw [parseClassic_resolver hfinished, lastSome_resolverOf]

/-- A query over a link-local server, which dig writes with its zone. -/
def zonedServer : List Text :=
  ["; <<>> DiG 9.18.28 <<>> example.com".toList, ";; Got answer:".toList,
    ";; ->>HEADER<<- opcode: QUERY, status: NOERROR, id: 1".toList, [],
    ";; Query time: 4 msec".toList, ";; SERVER: fe80::1%2#53(fe80::1%2)".toList]

theorem zonedServer_disclosed : ¬ Undisclosed .ascii [] (joinLines zonedServer) := by
  have hplain : ∀ l ∈ zonedServer, '\n' ∉ l := by decide
  have hraw : (joinLines zonedServer).splitOn '\n' = zonedServer :=
    splitOn_joinLines (by decide) hplain
  have hip : parseIpAddr "fe80::1".toList =
      some (.v6 (.ofSegments [0xfe80, 0, 0, 0, 0, 0, 0, 1])) := by decide
  have hstays : rewriteLine [] ";; SERVER: fe80::1%2#53(fe80::1%2)".toList =
      ";; SERVER: fe80::1%2#53(fe80::1%2)".toList := by decide
  have hannounces : Announces ";; SERVER: fe80::1%2#53(fe80::1%2)".toList
      (.v6 (.ofSegments [0xfe80, 0, 0, 0, 0, 0, 0, 1])) :=
    ⟨" fe80::1%2#53(fe80::1%2)".toList, by decide, hip⟩
  have hshown : ShowsLiteral ";; SERVER: fe80::1%2#53(fe80::1%2)".toList
      (.v6 (.ofSegments [0xfe80, 0, 0, 0, 0, 0, 0, 1])) :=
    showsLiteral_between (c := ' ') (d := '%') (by decide) (by decide) hip ";; SERVER:".toList
      "2#53(fe80::1%2)".toList
  intro h
  have hno := (h (zonedServer.take 5) _ [] _ hraw hannounces (by decide)).1
  rw [parseClassic_rawOutput, rewriteClassic_lines, hraw] at hno
  refine hno _ (List.mem_map.mpr ⟨_, ?_, hstays⟩) (by decide) hshown
  decide

end GlobalpingProbe.Command.Dns
