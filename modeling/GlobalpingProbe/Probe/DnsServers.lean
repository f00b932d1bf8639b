import GlobalpingProbe.Net.IpLiteral
import GlobalpingProbe.Util.PrivateIp

/-! # The resolvers of the system

Each `nameserver` line of `/etc/resolv.conf` is stripped of what may stand around an address.
What is left is hidden if it is the literal of a private address, and reported as it is if it is
no literal at all.
-/
namespace GlobalpingProbe.Probe
open Foundation Net

/-- The text of a `nameserver` line up to a bracket or a port. -/
def nameserverText (line : Text) : Option Text :=
  ("nameserver".toList.isPrefixOf? (trim line)).bind (fun ip =>
    let ip := trim (((trim ip).dropWhile (· = '[')).takeWhile (fun c => c ≠ ']' && c ≠ '#'))
    if ip.isEmpty then none else some ip)

def reportedServer (localIps : List IpAddr) (ip : Text) : Text :=
  match parseIpAddr ip with
  | some addr => if isIpPrivate localIps addr then "private".toList else ip
  | none => ip

def parseResolvConf (localIps : List IpAddr) (content : Text) : List Text :=
  (lines content).filterMap (fun line => (nameserverText line).map (reportedServer localIps))

/-! ## What a resolver library takes for the address -/

/-- The address that the first word of a text names, its zone aside. -/
def firstAddress (s : Text) : Option IpAddr :=
  (splitWhitespace s).head?.bind (fun word => parseIpAddr (withoutZone word))

def NamesPrivate (localIps : List IpAddr) (s : Text) : Prop :=
  ∃ ip, firstAddress s = some ip ∧ isIpPrivate localIps ip = true

/-- A text is one word without a zone. -/
def StandsAlone (s : Text) : Prop := ∀ c ∈ s, isWhitespace c = false ∧ c ≠ '%'

theorem standsAlone_of_parseIpAddr {s : Text} {ip : IpAddr} (h : parseIpAddr s = some ip) :
    StandsAlone s := by
  intro c hc
  refine ⟨isWhitespace_of_isLiteralChar (isLiteralChar_of_parseIpAddr h c hc), ?_⟩
  rintro rfl
  exact notMem_of_parseIpAddr h (by decide) hc

theorem firstAddress_of_standsAlone {s : Text} (h : StandsAlone s) :
    firstAddress s = parseIpAddr s := by
  by_cases hnil : s = []
  · rw [hnil]
    rfl
  · have hzone : '%' ∉ s := fun hc => (h '%' hc).2 rfl
    rw [firstAddress, splitWhitespace_word hnil (fun c hc => (h c hc).1), List.head?_cons,
      Option.bind_some, withoutZone_of_notMem hzone]

/-- A text that names a private address is hidden exactly when nothing else is in it. -/
theorem namesPrivate_reportedServer {localIps : List IpAddr} (ip : Text) :
    NamesPrivate localIps (reportedServer localIps ip) ↔
      NamesPrivate localIps ip ∧ ¬ StandsAlone ip := by
  unfold reportedServer
  cases hparse : parseIpAddr ip with
  | none =>
    refine ⟨fun hnames => ⟨hnames, fun halone => ?_⟩, And.left⟩
    obtain ⟨addr, haddr, -⟩ := hnames
    rw [firstAddress_of_standsAlone halone, hparse] at haddr
    cases haddr
  | some addr =>
    have halone := standsAlone_of_parseIpAddr hparse
    have hfirst := (firstAddress_of_standsAlone halone).trans hparse
    refine ⟨fun hnames => absurd hnames ?_, fun h => absurd halone h.2⟩
    rintro ⟨found, hfound, hprivate⟩
    cases hp : isIpPrivate localIps addr with
    | true =>
      simp only [hp, if_true] at hfound
      cases hfound
    | false =>
      simp only [hp, Bool.false_eq_true, if_false, hfirst] at hfound
      obtain rfl := Option.some.inj hfound
      rw [hp] at hprivate
      cases hprivate

/-- No private resolver is reported exactly when every line that names one has its address
alone: no zone behind it and no further word. -/
theorem reported_not_private_iff (localIps : List IpAddr) (content : Text) :
    (∀ s ∈ parseResolvConf localIps content, ¬ NamesPrivate localIps s) ↔
      ∀ line ∈ lines content, ∀ text, nameserverText line = some text →
        NamesPrivate localIps text → StandsAlone text := by
  have hmem : ∀ s, s ∈ parseResolvConf localIps content ↔ ∃ line ∈ lines content, ∃ text,
      nameserverText line = some text ∧ reportedServer localIps text = s := by
    intro s
    simp only [parseResolvConf, List.mem_filterMap, Option.map_eq_some_iff]
  constructor
  · intro h line hline text htext hnames
    by_contra halone
    exact h _ ((hmem _).mpr ⟨line, hline, text, htext, rfl⟩)
      ((namesPrivate_reportedServer text).mpr ⟨hnames, halone⟩)
  · intro h s hs hnames
    obtain ⟨line, hline, text, htext, rfl⟩ := (hmem s).mp hs
    obtain ⟨hprivate, halone⟩ := (namesPrivate_reportedServer text).mp hnames
    exact halone (h line hline text htext hprivate)

/-- A private resolver with a zone, and one with a comment behind it. -/
theorem zone_and_comment_reported :
    parseResolvConf [] "nameserver fe80::1%eth0\nnameserver 10.0.0.1 ; lan".toList =
      ["fe80::1%eth0".toList, "10.0.0.1 ; lan".toList] ∧
    ∀ s ∈ parseResolvConf [] "nameserver fe80::1%eth0\nnameserver 10.0.0.1 ; lan".toList,
      NamesPrivate [] s := by
  have hreported : parseResolvConf [] "nameserver fe80::1%eth0\nnameserver 10.0.0.1 ; lan".toList =
      ["fe80::1%eth0".toList, "10.0.0.1 ; lan".toList] := by decide +kernel
  refine ⟨hreported, ?_⟩
  rw [hreported]
  intro s hs
  rcases List.mem_cons.mp hs with rfl | hs
  · exact ⟨.v6 (.ofSegments [0xfe80, 0, 0, 0, 0, 0, 0, 1]), by decide +kernel, by decide +kernel⟩
  · obtain rfl := List.mem_singleton.mp hs
    exact ⟨.v4 (.ofOctets 10 0 0 1), by decide +kernel, by decide +kernel⟩

end GlobalpingProbe.Probe
