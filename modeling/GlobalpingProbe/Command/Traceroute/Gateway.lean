import GlobalpingProbe.Command.Traceroute.HostSearch
import GlobalpingProbe.Command.Traceroute.PrivateTarget

/-! # The name of the gateway

The name of the first responder whose address can be read is replaced in the line of the first
hop. Every other responder of that line keeps its name.
-/
namespace GlobalpingProbe.Command.Traceroute
open Foundation Regex

def gatewayName : Text := "_gateway".toList

/-- Hosts may have other names, and the zone of an address may be gone. -/
inductive HopPart.Renamed : HopPart → HopPart → Prop
  | star : Renamed .star .star
  | flag (mark : Flag) : Renamed (.flag mark) (.flag mark)
  | rtt (time : Decimal) : Renamed (.rtt time) (.rtt time)
  | responder {r r' : Responder} (hip : r'.ip = r.ip) (hzone : r'.zone = r.zone ∨ r'.zone = none) :
      Renamed (.responder r) (.responder r')

def HopItem.Renamed (item item' : HopItem) : Prop :=
  item'.gap = item.gap ∧ item.part.Renamed item'.part

/-- Nothing of the output is changed but names of the first hop, and none of these is left. -/
structure GatewayHidden (header : Text) (items : List HopItem) (later : List Text)
    (parsed : ParsedTraceroute) : Prop where
  rawOutput : ∃ items', List.Forall₂ HopItem.Renamed items items' ∧
    (∀ r ∈ responders items', r.host = gatewayName) ∧
      parsed.rawOutput = joinLines (header :: firstHopLine items' :: later)
  hop : ∃ hop hops, parsed.hops = hop :: hops ∧ ∀ name ∈ hop.resolvedHostname, name = gatewayName

/-- Every responder but the first with a readable address has the name of a gateway already. -/
def OthersNamedGateway (classes : UnicodeClasses) (items : List HopItem) : Prop :=
  ∀ r ∈ (responders items).eraseP (fun r => r.Readable classes), r.host = gatewayName

instance (classes : UnicodeClasses) (items : List HopItem) :
    Decidable (OthersNamedGateway classes items) :=
  List.decidableBAll _ _

/-! ## Names in a line -/

section Names
variable {item item' : HopItem} {items new other : List HopItem}

theorem HopPart.Renamed.refl (part : HopPart) : part.Renamed part := by
  cases part with
  | star => exact .star
  | flag mark => exact .flag mark
  | rtt time => exact .rtt time
  | responder r => exact .responder rfl (.inl rfl)

theorem HopItem.Renamed.refl (item : HopItem) : item.Renamed item := ⟨rfl, .refl item.part⟩

theorem responders_append (front back : List HopItem) :
    responders (front ++ back) = responders front ++ responders back := List.filterMap_append

theorem responders_cons (item : HopItem) (items : List HopItem) :
    responders (item :: items) = responders [item] ++ responders items :=
  responders_append [item] items

theorem renamed_refl (items : List HopItem) : List.Forall₂ HopItem.Renamed items items :=
  List.forall₂_same.mpr (fun item _ => .refl item)

theorem space_notMem_host (r : Responder) : ' ' ∉ r.host :=
  fun hmem => absurd (r.isResponderChar_host ' ' hmem) (by decide)

theorem paren_notMem_address (r : Responder) : ')' ∉ '(' :: (r.ip ++ zoneText r.zone) := by
  obtain ⟨addr, haddr⟩ := r.ip_parses
  have hip : ')' ∉ r.ip := Net.notMem_of_parseIpAddr haddr (by decide)
  have hzone : ')' ∉ zoneText r.zone := by
    cases hz : r.zone with
    | none => simp [zoneText]
    | some z => simpa [zoneText] using paren_notMem_zone r z hz
  simp [hip, hzone]

/-- A line tells the name of its first responder. -/
theorem responder_text_append {r r' : Responder} {s s' : Text}
    (h : r.text ++ s = r'.text ++ s') : r.host = r'.host ∧ s = s' := by
  have htext : ∀ (r : Responder) (s : Text), r.text ++ s =
      r.host ++ ' ' :: ('(' :: (r.ip ++ zoneText r.zone) ++ ')' :: s) := by
    intro r s
    simp [Responder.text, Responder.address]
  rw [htext, htext] at h
  have hhost : r.host = r'.host := by
    rw [← takeWhile_ne ' ' r.host _ (space_notMem_host r), h,
      takeWhile_ne ' ' r'.host _ (space_notMem_host r')]
  rw [hhost] at h
  have haddress := (List.cons.inj (List.append_cancel_left h)).2
  have hrest := congrArg (List.dropWhile (· ≠ ')')) haddress
  rw [dropWhile_ne ')' _ s (paren_notMem_address r),
    dropWhile_ne ')' _ s' (paren_notMem_address r')] at hrest
  exact ⟨hhost, (List.cons.inj hrest).2⟩

theorem item_text_append {item₁ item₂ : HopItem} {s s' : Text} (h₁ : item.Renamed item₁)
    (h₂ : item.Renamed item₂) (h : item₁.text ++ s = item₂.text ++ s') :
    (responders [item₁]).map (·.host) = (responders [item₂]).map (·.host) ∧ s = s' := by
  obtain ⟨gap, part⟩ := item
  obtain ⟨gap₁, part₁⟩ := item₁
  obtain ⟨gap₂, part₂⟩ := item₂
  obtain ⟨rfl, hpart₁⟩ := h₁
  obtain ⟨rfl, hpart₂⟩ := h₂
  rw [HopItem.text, HopItem.text, List.append_assoc, List.append_assoc] at h
  have hparts : part₁.text ++ s = part₂.text ++ s' := List.append_cancel_left h
  cases hpart₁ with
  | star =>
    cases hpart₂
    exact ⟨rfl, List.append_cancel_left hparts⟩
  | flag mark =>
    cases hpart₂
    exact ⟨rfl, List.append_cancel_left hparts⟩
  | rtt time =>
    cases hpart₂
    exact ⟨rfl, List.append_cancel_left hparts⟩
  | responder =>
    cases hpart₂
    obtain ⟨hhost, hrest⟩ := responder_text_append hparts
    exact ⟨congrArg (fun name => [name]) hhost, hrest⟩

/-- A line tells the names of its responders, once its shape is known. -/
theorem hosts_of_itemsText (h : List.Forall₂ HopItem.Renamed items new)
    (h' : List.Forall₂ HopItem.Renamed items other) (heq : itemsText new = itemsText other) :
    (responders new).map (·.host) = (responders other).map (·.host) := by
  induction h generalizing other with
  | nil =>
    cases h'
    rfl
  | @cons item item₁ items new hitem _ ih =>
    cases h' with
    | @cons _ item₂ _ other hitem' hrest' =>
      rw [itemsText_cons, itemsText_cons] at heq
      obtain ⟨hfirst, hlater⟩ := item_text_append hitem hitem' heq
      rw [responders_cons item₁ new, responders_cons item₂ other, List.map_append,
        List.map_append, hfirst, ih hrest' hlater]

theorem joinLines_second (header : Text) (later : List Text) :
    ∃ back, ∀ line', joinLines (header :: line' :: later) = header ++ '\n' :: (line' ++ back) := by
  cases later with
  | nil => exact ⟨[], fun line' => by simp [joinLines, List.intercalate_cons_cons]⟩
  | cons next later =>
    refine ⟨'\n' :: joinLines (next :: later), fun line' => ?_⟩
    simp [joinLines, List.intercalate_cons_cons]

end Names

/-! ## What is replaced -/

section Replaced
variable {classes : UnicodeClasses} {items front back : List HopItem} {gap : ℕ} {r : Responder}

/-- The responder as the line shows it afterwards. -/
def Responder.hidden (r : Responder) : Responder where
  host := gatewayName
  ip := r.ip
  zone := none
  host_ne_nil := by decide
  isResponderChar_host := List.all_eq_true.mp (by decide)
  ip_parses := r.ip_parses
  zone_ne_nil := by simp
  isResponderChar_zone := by simp

theorem readable_hidden (h : r.Readable classes) : r.hidden.Readable classes :=
  ⟨h.1, by simp [Responder.hidden]⟩

/-- Either no address of the line can be read, or there is a first one that can. -/
theorem first_readable (classes : UnicodeClasses) (items : List HopItem) :
    (∀ item ∈ items, item.Passed classes) ∨ ∃ front gap r back,
      items = front ++ ⟨gap, .responder r⟩ :: back ∧ (∀ item ∈ front, item.Passed classes) ∧
        r.Readable classes := by
  induction items with
  | nil => exact .inl (by simp)
  | cons item items ih =>
    by_cases hitem : item.Passed classes
    · rcases ih with hall | ⟨front, gap, r, back, rfl, hfront, hr⟩
      · exact .inl (List.forall_mem_cons.mpr ⟨hitem, hall⟩)
      · exact .inr ⟨item :: front, gap, r, back, rfl,
          List.forall_mem_cons.mpr ⟨hitem, hfront⟩, hr⟩
    · simp only [HopItem.Passed, not_forall, not_not] at hitem
      obtain ⟨r, hpart, hr⟩ := hitem
      exact .inr ⟨[], item.gap, r, items, by rw [← hpart]; rfl, by simp, hr⟩

theorem hideGateway_none (h : ∀ item ∈ items, item.Passed classes) :
    hideGateway classes (firstHopLine items) = firstHopLine items := by
  rw [hideGateway, Regex.replace, find_hopLine_none h]

/-- The first responder with a readable address is hidden, and no other. -/
theorem hideGateway_first (h : ∀ item ∈ front, item.Passed classes) (hr : r.Readable classes) :
    hideGateway classes (firstHopLine (front ++ ⟨gap, .responder r⟩ :: back)) =
      firstHopLine (front ++ ⟨gap, .responder r.hidden⟩ :: back) := by
  obtain ⟨m, hm, hrest, hspace, hip, -⟩ := find_hopLine gap back h hr
  rw [hideGateway, Regex.replace, hm]
  change firstHopLine front ++ List.replicate (gap + 1) ' ' ++
    (gatewayName ++ m.group 2 ++ ['('] ++ m.group 3 ++ [')']) ++ m.rest = _
  rw [hrest, hspace, hip, firstHopLine_append, itemsText_cons, HopItem.text, HopPart.text,
    Responder.text, Responder.address]
  simp [Responder.hidden, zoneText]

theorem resolvedHostname_none (h : ∀ item ∈ items, item.Passed classes) :
    (parseHopLine classes (firstHopLine items)).resolvedHostname = none := by
  rw [parseHopLine, captures, find_hopLine_none h]
  rfl

theorem resolvedHostname_hidden (h : ∀ item ∈ front, item.Passed classes)
    (hr : r.Readable classes) :
    (parseHopLine classes (firstHopLine
      (front ++ ⟨gap, .responder r.hidden⟩ :: back))).resolvedHostname = some gatewayName := by
  obtain ⟨m, hm, -, -, -, hname⟩ := find_hopLine gap back h (readable_hidden hr)
  have hpercent : '%' ∉ gatewayName := by decide
  have hgateway : m.group 1 = gatewayName := hname hpercent
  simp only [parseHopLine, captures, hm, Option.map_some, hgateway]

end Replaced

/-! ## The line of the first hop -/

section Whole
variable {classes : UnicodeClasses} {raw header : Text} {items new : List HopItem}
  {later : List Text}

theorem rawOutput_of_header {caps : Match Char} {line : Text}
    (hlines : lines raw = header :: line :: later)
    (hheader : (hostRe classes).captures header = some caps) :
    (parse classes raw).rawOutput =
      joinLines (header :: hideGateway classes line :: later) := by
  simp [parse, hlines, hheader]

/-- The names that the new line shows decide. -/
theorem gatewayHidden_of_line (hlines : lines raw = header :: firstHopLine items :: later)
    (hheader : ((hostRe classes).captures header).isSome = true)
    (hline : hideGateway classes (firstHopLine items) = firstHopLine new)
    (hrenamed : List.Forall₂ HopItem.Renamed items new)
    (hname : ∀ name ∈ (parseHopLine classes (firstHopLine new)).resolvedHostname,
      name = gatewayName) :
    GatewayHidden header items later (parse classes raw) ↔
      ∀ r ∈ responders new, r.host = gatewayName := by
  obtain ⟨caps, hcaps⟩ := Option.isSome_iff_exists.mp hheader
  have hraw := rawOutput_of_header hlines hcaps
  have hhops := (parse_of_header hlines hcaps).2
  rw [hline] at hraw
  rw [List.modifyHead_cons, List.map_cons, hline] at hhops
  constructor
  · rintro ⟨⟨other, hother, hnamed, hsame⟩, -⟩
    obtain ⟨back, hback⟩ := joinLines_second header later
    rw [hraw, hback, hback] at hsame
    have htexts := List.append_cancel_right (List.cons.inj (List.append_cancel_left hsame)).2
    have hitems : itemsText new = itemsText other :=
      (List.cons.inj (List.cons.inj htexts).2).2
    have hhosts := hosts_of_itemsText hrenamed hother hitems
    intro r hr
    have hmem : r.host ∈ (responders other).map (·.host) := by
      rw [← hhosts]
      exact List.mem_map_of_mem hr
    obtain ⟨r', hr', heq⟩ := List.mem_map.mp hmem
    rw [← heq, hnamed r' hr']
  · intro hnamed
    exact ⟨⟨new, hrenamed, hnamed, hraw⟩, _, _, hhops, hname⟩

theorem unreadable_of_passed {front : List HopItem}
    (h : ∀ item ∈ front, item.Passed classes) : ∀ r ∈ responders front, ¬ r.Readable classes := by
  intro r hr
  obtain ⟨item, hitem, hpart⟩ := List.mem_filterMap.mp hr
  apply h item hitem
  cases hp : item.part with
  | star => simp [hp] at hpart
  | flag mark => simp [hp] at hpart
  | rtt time => simp [hp] at hpart
  | responder r' =>
    simp only [hp, Option.some.injEq] at hpart
    rw [hpart]

theorem gatewayHidden_first {front back : List HopItem} {gap : ℕ} {r : Responder}
    (hlines : lines raw = header :: firstHopLine (front ++ ⟨gap, .responder r⟩ :: back) :: later)
    (hheader : ((hostRe classes).captures header).isSome = true)
    (hfront : ∀ item ∈ front, item.Passed classes) (hr : r.Readable classes) :
    GatewayHidden header (front ++ ⟨gap, .responder r⟩ :: back) later (parse classes raw) ↔
      ∀ other ∈ responders front ++ responders back, other.host = gatewayName := by
  have hrenamed : List.Forall₂ HopItem.Renamed (front ++ ⟨gap, .responder r⟩ :: back)
      (front ++ ⟨gap, .responder r.hidden⟩ :: back) :=
    List.rel_append (renamed_refl front)
      (.cons ⟨rfl, .responder rfl (.inr rfl)⟩ (renamed_refl back))
  rw [gatewayHidden_of_line hlines hheader (hideGateway_first hfront hr) hrenamed
    (by simp [resolvedHostname_hidden hfront hr]), responders_append, responders_cons]
  simp [responders, Responder.hidden, or_imp, forall_and]

/-- The names of the first hop are hidden exactly when every responder but the first with a
readable address has the name of a gateway already. -/
theorem gatewayHidden_iff (hlines : lines raw = header :: firstHopLine items :: later)
    (hheader : ((hostRe classes).captures header).isSome = true) :
    GatewayHidden header items later (parse classes raw) ↔ OthersNamedGateway classes items := by
  rcases first_readable classes items with hall | ⟨front, gap, r, back, rfl, hfront, hr⟩
  · rw [gatewayHidden_of_line hlines hheader (hideGateway_none hall) (renamed_refl items)
      (by simp [resolvedHostname_none hall]), OthersNamedGateway, List.eraseP_of_forall_not]
    simpa using unreadable_of_passed hall
  · have hothers : (responders (front ++ ⟨gap, .responder r⟩ :: back)).eraseP
        (fun r => r.Readable classes) = responders front ++ responders back := by
      rw [responders_append, List.eraseP_append_right _ (by simpa using unreadable_of_passed hfront),
        responders_cons]
      simp [responders, hr]
    rw [gatewayHidden_first hlines hheader hfront hr, OthersNamedGateway, hothers]

end Whole

/-! ## One router and two -/

def routerHome : Responder where
  host := "router.home".toList
  ip := "192.168.1.1".toList
  zone := none
  host_ne_nil := by decide
  isResponderChar_host := List.all_eq_true.mp (by decide)
  ip_parses := ⟨.v4 (.ofOctets 192 168 1 1), rfl⟩
  zone_ne_nil := by simp
  isResponderChar_zone := by simp

def routerAttic : Responder where
  host := "attic.home".toList
  ip := "192.168.1.2".toList
  zone := none
  host_ne_nil := by decide
  isResponderChar_host := List.all_eq_true.mp (by decide)
  ip_parses := ⟨.v4 (.ofOctets 192 168 1 2), rfl⟩
  zone_ne_nil := by simp
  isResponderChar_zone := by simp

def firstTime : Decimal :=
  ⟨"1".toList, "0".toList, by decide, List.all_eq_true.mp (by decide),
    List.all_eq_true.mp (by decide)⟩

def headerLine : Text := "traceroute to 1.1.1.1 (1.1.1.1), 20 hops max, 60 byte packets".toList

def targetLine : Text := " 2  1.1.1.1 (1.1.1.1)  8.0 ms  8.1 ms".toList

/-- Both probes of the first hop have reached the same router. -/
def oneRouter : List HopItem :=
  [⟨1, .responder routerHome⟩, ⟨1, .rtt firstTime⟩, ⟨1, .rtt firstTime⟩]

/-- The second probe of the first hop has reached another router. -/
def twoRouters : List HopItem :=
  [⟨1, .responder routerHome⟩, ⟨1, .rtt firstTime⟩, ⟨0, .responder routerAttic⟩,
    ⟨1, .rtt firstTime⟩]

theorem oneRouter_hidden : GatewayHidden headerLine oneRouter [targetLine]
    (parse .ascii (joinLines [headerLine, firstHopLine oneRouter, targetLine])) :=
  (gatewayHidden_iff (by decide) (by decide)).mpr (by decide)

/-- The name of the second router stays. -/
theorem twoRouters_not_hidden :
    lines (joinLines [headerLine, firstHopLine twoRouters, targetLine]) =
      [headerLine, firstHopLine twoRouters, targetLine] ∧
    ¬ GatewayHidden headerLine twoRouters [targetLine]
      (parse .ascii (joinLines [headerLine, firstHopLine twoRouters, targetLine])) := by
  have hlines : lines (joinLines [headerLine, firstHopLine twoRouters, targetLine]) =
      [headerLine, firstHopLine twoRouters, targetLine] := by decide
  have hheader : ((hostRe .ascii).captures headerLine).isSome = true := by decide
  have hfront : ∀ item ∈ ([] : List HopItem), item.Passed .ascii := by simp
  have hreadable : routerHome.Readable .ascii := by decide
  have hnamed := gatewayHidden_first hlines hheader hfront hreadable
  refine ⟨hlines, fun h => ?_⟩
  exact absurd (hnamed.mp h routerAttic (by simp [responders])) (by decide)

end GlobalpingProbe.Command.Traceroute
