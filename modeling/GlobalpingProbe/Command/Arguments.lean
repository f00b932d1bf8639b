import GlobalpingProbe.Command.Mtr.Output
import GlobalpingProbe.Command.Validate
import GlobalpingProbe.Net.IpLiteral

/-! # The arguments that the commands are started with

Each builder writes its own options around the texts of a job. An accepted host cannot be
read as an option by the program that gets it, and it fills one place of the list only.
-/
namespace GlobalpingProbe.Command
open Foundation Foundation.Utf8 Net Mtr

def versionFlag (ipVersion : UInt8) : Text := '-' :: decimal ipVersion.toNat

def PingOptions.buildArgs (opts : PingOptions) : List Text :=
  [versionFlag opts.ipVersion, "-O".toList, "-c".toList, decimal opts.packets.toNat,
    "-i".toList, "0.5".toList, "-w".toList, "10".toList, opts.target]

def MtrOptions.buildArgs (table : CaseTable) (opts : MtrOptions) : List Text :=
  let proto := table.toUppercase opts.protocol
  [versionFlag opts.ipVersion, "--interval".toList, "1.0".toList, "--gracetime".toList, "3".toList,
    "--max-ttl".toList, "30".toList, "--timeout".toList, "15".toList] ++
  (if proto = "TCP".toList then ["--tcp".toList]
    else if proto = "UDP".toList then ["--udp".toList] else []) ++
  ["-c".toList, decimal opts.packets.toNat, "--raw".toList, "-P".toList, decimal opts.port.toNat,
    opts.target]

def resolverArg (resolver : Option Text) : List Text := (resolver.map ('@' :: ·)).toList

def DnsOptions.buildArgs (opts : DnsOptions) : List Text :=
  (if opts.query.recordType = "PTR".toList then ["-x".toList]
    else ["-t".toList, opts.query.recordType]) ++
  [opts.target] ++ resolverArg opts.resolver ++
  ["-p".toList, decimal opts.port.toNat, versionFlag opts.ipVersion, "+timeout=3".toList,
    "+tries=2".toList, "+nocookie".toList, "+nosplit".toList, "+nsid".toList] ++
  (if opts.trace then ["+trace".toList] else []) ++
  (if eqIgnoreAsciiCase opts.protocol "tcp".toList then ["+tcp".toList] else [])

/-- The arguments of `dig` in `resolve_target`. -/
def digArgs (target : Text) (resolver : Option Text) (ipVersion : UInt8) : List Text :=
  let queryType := if ipVersion = 6 then "AAAA".toList else "A".toList
  resolverArg resolver ++
    [target, queryType, "+short".toList, "+time=2".toList, "+tries=1".toList]

/-- What `run_http` starts `dig` with, if it does: an address needs no resolution. -/
def HttpOptions.resolveArgs (opts : HttpOptions) : Option (List Text) :=
  if (parseIpAddr opts.target).isSome then none
  else some (digArgs opts.target opts.resolver opts.ipVersion)

def PingOptions.ownOptions : List Text :=
  ["-4".toList, "-6".toList, "-O".toList, "-c".toList, "-i".toList, "-w".toList]

def MtrOptions.ownOptions : List Text :=
  ["-4".toList, "-6".toList, "--interval".toList, "--gracetime".toList, "--max-ttl".toList,
    "--timeout".toList, "--tcp".toList, "--udp".toList, "-c".toList, "--raw".toList, "-P".toList]

def DnsOptions.ownOptions : List Text :=
  ["-4".toList, "-6".toList, "-x".toList, "-t".toList, "-p".toList, "+timeout=3".toList,
    "+tries=2".toList, "+nocookie".toList, "+nosplit".toList, "+nsid".toList, "+trace".toList,
    "+tcp".toList]

def HttpOptions.ownOptions : List Text :=
  ["+short".toList, "+time=2".toList, "+tries=1".toList]

/-! ## What an argument list must keep to -/

def isSign (c : Char) : Bool := c = '-' || c = '+'

/-- Control characters of Unicode. -/
def isControl (c : Char) : Bool := c.toNat < 32 || (127 ≤ c.toNat && c.toNat < 160)

def shellMeta : Text := "|&;<>()[]\x7b\x7d$`\\\"'*?#~=%!^".toList

/-- An argument that no program reads as an option and no shell as anything but text. -/
structure PlainArgument (s : Text) : Prop where
  visible : s ≠ []
  no_sign : s.head?.all (!isSign ·) = true
  plain : ∀ c ∈ s, isWhitespace c = false ∧ isControl c = false ∧ c ∉ shellMeta

/-- One element of an argument list: text of the builder's own, or the place of a host. -/
inductive Slot where
  | own (text : Text)
  | target
  | resolver
  deriving DecidableEq, Repr

def Slot.fill (target : Text) (resolver : Option Text) : Slot → Text
  | .own text => text
  | .target => target
  | .resolver => '@' :: resolver.getD []

/-- The target and the resolver, if there is one, fill one slot each, and what the other slots
hold does not depend on them. -/
def FixedLayout (build : Text → Option Text → List Text) (resolver : Option Text) : Prop :=
  ∃ slots : List Slot, slots.count .target = 1 ∧
    slots.count .resolver = (if resolver.isSome then 1 else 0) ∧
    ∀ t r, r.isSome = resolver.isSome → build t r = slots.map (Slot.fill t r)

def OwnIfOption (own : List Text) (arg : Text) : Prop := arg.head?.any isSign = true → arg ∈ own

instance (own : List Text) (arg : Text) : Decidable (OwnIfOption own arg) :=
  inferInstanceAs (Decidable (_ → _))

/-- Every element that looks like an option is one of the builder's own, and the hosts are
plain arguments in a place of their own. -/
structure NoInjection (own : List Text) (build : Text → Option Text → List Text) (target : Text)
    (resolver : Option Text) : Prop where
  options : ∀ arg ∈ build target resolver, OwnIfOption own arg
  plain_target : PlainArgument target
  plain_resolver : ∀ r, resolver = some r → PlainArgument ('@' :: r)
  layout : FixedLayout build resolver

/-! ## The hosts that validation accepts -/

def isHostChar (c : Char) : Bool := c.isAlphanum || c = '.' || c = '-' || c = '_' || c = ':'

theorem toNat_of_isHostChar {c : Char} (h : isHostChar c = true) : 45 ≤ c.toNat ∧ c.toNat ≤ 122 := by
  simp only [isHostChar, Bool.or_eq_true, decide_eq_true_eq] at h
  rcases h with (((h | rfl) | rfl) | rfl) | rfl
  · have hrange := toNat_of_isAlphanum h
    omega
  · decide
  · decide
  · decide
  · decide

theorem notMem_shellMeta {c : Char} (h : isHostChar c = true) : c ∉ shellMeta := by
  have hall : shellMeta.all (fun c => !isHostChar c) = true := by decide
  intro hmem
  have hno := List.all_eq_true.mp hall c hmem
  rw [h] at hno
  cases hno

theorem plain_of_isHostChar {c : Char} (h : isHostChar c = true) :
    isWhitespace c = false ∧ isControl c = false ∧ c ∉ shellMeta := by
  have hrange := toNat_of_isHostChar h
  refine ⟨?_, ?_, notMem_shellMeta h⟩
  · simp only [isWhitespace, Bool.or_eq_false_iff, Bool.and_eq_false_iff, decide_eq_false_iff_not]
    omega
  · simp only [isControl, Bool.or_eq_false_iff, Bool.and_eq_false_iff, decide_eq_false_iff_not]
    omega

theorem isHostChar_of_isLiteralChar {c : Char} (h : isLiteralChar c = true) :
    isHostChar c = true := by
  simp only [isLiteralChar, Bool.or_eq_true, decide_eq_true_eq] at h
  rcases h with (h | rfl) | rfl
  · simp [isHostChar, isAlphanum_of_isDigitOf h]
  · rfl
  · rfl

/-- Literals pass without the check of characters, but have only such characters. -/
theorem isHostChar_of_isSafeHost {s : Text} (h : isSafeHost s = true) :
    ∀ c ∈ s, isHostChar c = true := by
  intro c hc
  cases s with
  | nil => exact absurd hc List.not_mem_nil
  | cons first rest =>
    simp only [isSafeHost] at h
    split_ifs at h with hlen hlit hfirst
    · obtain ⟨ip, hip⟩ := Option.isSome_iff_exists.mp hlit
      exact isHostChar_of_isLiteralChar (isLiteralChar_of_parseIpAddr hip c hc)
    · have hchar := List.all_eq_true.mp h c hc
      rw [isHostChar, hchar, Bool.true_or]

theorem head_of_isSafeHost {s : Text} (h : isSafeHost s = true) :
    s ≠ [] ∧ s.head?.all (!isSign ·) = true := by
  have hchars := isHostChar_of_isSafeHost h
  cases s with
  | nil => cases h
  | cons first rest =>
    refine ⟨List.cons_ne_nil _ _, ?_⟩
    have hplus : first ≠ '+' := by
      rintro rfl
      exact absurd (hchars '+' List.mem_cons_self) (by decide)
    have hminus : first ≠ '-' := by
      rintro rfl
      simp only [isSafeHost] at h
      split_ifs at h with hlen hlit
      · obtain ⟨ip, hip⟩ := Option.isSome_iff_exists.mp hlit
        exact absurd (isLiteralChar_of_parseIpAddr hip '-' List.mem_cons_self) (by decide)
      · next hfirst => exact absurd (.inl trivial) hfirst
    simp [isSign, hplus, hminus]

theorem plainArgument_of_isSafeHost {s : Text} (h : isSafeHost s = true) : PlainArgument s := by
  obtain ⟨hne, hsign⟩ := head_of_isSafeHost h
  exact ⟨hne, hsign, fun c hc => plain_of_isHostChar (isHostChar_of_isSafeHost h c hc)⟩

/-- In the element of a resolver the host stands behind an at sign. -/
theorem plainArgument_resolver {s : Text} (h : isSafeHost s = true) :
    PlainArgument ('@' :: s) := by
  refine ⟨List.cons_ne_nil _ _, rfl, ?_⟩
  intro c hc
  rcases List.mem_cons.mp hc with rfl | hc
  · exact ⟨by decide, by decide, by decide⟩
  · exact plain_of_isHostChar (isHostChar_of_isSafeHost h c hc)

/-! ## The four builders -/

section Layout
variable {build : Text → Option Text → List Text} {resolver : Option Text}

theorem count_own {slot : Slot} (h : ∀ text, slot ≠ .own text) (l : List Text) :
    (l.map Slot.own).count slot = 0 := by
  apply List.count_eq_zero.mpr
  intro hmem
  obtain ⟨text, -, heq⟩ := List.mem_map.mp hmem
  exact h text heq.symm

theorem map_fill_own (t : Text) (r : Option Text) (l : List Text) :
    (l.map Slot.own).map (Slot.fill t r) = l := by
  rw [List.map_map]
  exact List.map_id l

def resolverSlot (resolver : Option Text) : List Slot := if resolver.isSome then [.resolver] else []

theorem map_fill_resolverSlot {r : Option Text} (h : r.isSome = resolver.isSome) (t : Text) :
    (resolverSlot resolver).map (Slot.fill t r) = resolverArg r := by
  unfold resolverSlot
  cases r with
  | none => rw [← h]; rfl
  | some r => rw [← h]; rfl

theorem fixedLayout_target_first (before after : List Text)
    (h : ∀ t r, r.isSome = resolver.isSome → build t r = before ++ t :: (resolverArg r ++ after)) :
    FixedLayout build resolver := by
  refine ⟨before.map .own ++ .target :: (resolverSlot resolver ++ after.map .own), ?_, ?_, ?_⟩
  · rw [List.count_append, List.count_cons_self, List.count_append, count_own (by simp),
      count_own (by simp), resolverSlot]
    split_ifs <;> rfl
  · rw [List.count_append, List.count_cons_of_ne (by simp), List.count_append, count_own (by simp),
      count_own (by simp), resolverSlot]
    split_ifs <;> rfl
  · intro t r hr
    rw [h t r hr, List.map_append, List.map_cons, List.map_append, map_fill_own, map_fill_own,
      map_fill_resolverSlot hr]
    rfl

theorem fixedLayout_resolver_first (after : List Text)
    (h : ∀ t r, r.isSome = resolver.isSome → build t r = resolverArg r ++ t :: after) :
    FixedLayout build resolver := by
  refine ⟨resolverSlot resolver ++ .target :: after.map .own, ?_, ?_, ?_⟩
  · rw [List.count_append, List.count_cons_self, count_own (by simp), resolverSlot]
    split_ifs <;> rfl
  · rw [List.count_append, List.count_cons_of_ne (by simp), count_own (by simp), resolverSlot]
    split_ifs <;> rfl
  · intro t r hr
    rw [h t r hr, List.map_append, List.map_cons, map_fill_own, map_fill_resolverSlot hr]
    rfl

end Layout

section Elements
variable {own : List Text}

theorem ownIfOption_of_plain {s : Text} (h : PlainArgument s) : OwnIfOption own s := by
  intro hsign
  have hno := h.no_sign
  cases s with
  | nil => cases hsign
  | cons c s =>
    simp only [List.head?_cons, Option.any_some, Option.all_some, Bool.not_eq_true'] at hsign hno
    rw [hsign] at hno
    cases hno

theorem ownIfOption_decimal (n : ℕ) : OwnIfOption own (decimal n) := by
  intro hsign
  cases hd : decimal n with
  | nil =>
    rw [hd] at hsign
    cases hsign
  | cons c s =>
    have hmem : c ∈ decimal n := by
      rw [hd]
      exact List.mem_cons_self
    have hdigit := isDigit_of_mem_decimal hmem
    rw [hd, List.head?_cons, Option.any_some] at hsign
    simp only [isSign, Bool.or_eq_true, decide_eq_true_eq] at hsign
    rcases hsign with rfl | rfl
    · exact absurd hdigit (by decide)
    · exact absurd hdigit (by decide)

theorem versionFlag_mem {ipVersion : UInt8} (hv : ipVersion = 4 ∨ ipVersion = 6)
    (h4 : "-4".toList ∈ own) (h6 : "-6".toList ∈ own) : versionFlag ipVersion ∈ own := by
  rcases hv with rfl | rfl
  · exact h4
  · exact h6

theorem ownIfOption_resolverArg {resolver : Option Text} :
    ∀ arg ∈ resolverArg resolver, OwnIfOption own arg := by
  intro arg harg hsign
  cases resolver with
  | none => exact absurd harg List.not_mem_nil
  | some r =>
    rw [List.mem_singleton.mp harg] at hsign
    cases hsign

end Elements

section Builders
variable {table : CaseTable} {localIps : List IpAddr}

theorem PingOptions.noInjection {opts : PingOptions} (h : opts.validate localIps = .ok ()) :
    NoInjection ownOptions (fun t _ => { opts with target := t }.buildArgs) opts.target none := by
  simp only [validate, bind_eq_ok, bailIf_eq_ok, Bool.not_eq_false', Bool.and_eq_false_iff,
    decide_eq_false_iff_not, not_not] at h
  obtain ⟨hsafe, -, hversion, -⟩ := h
  have htarget := plainArgument_of_isSafeHost hsafe
  constructor
  case options =>
    simp only [buildArgs, List.forall_mem_cons]
    have hflag : versionFlag opts.ipVersion ∈ ownOptions :=
      versionFlag_mem hversion (by decide) (by decide)
    exact ⟨fun _ => hflag, by decide, by decide, ownIfOption_decimal _, by decide, by decide,
      by decide, by decide, ownIfOption_of_plain htarget, List.forall_mem_nil _⟩
  case plain_target => exact htarget
  case plain_resolver =>
    intro r hr
    cases hr
  case layout =>
    apply fixedLayout_target_first [versionFlag opts.ipVersion, "-O".toList, "-c".toList,
      decimal opts.packets.toNat, "-i".toList, "0.5".toList, "-w".toList, "10".toList] []
    intro t r hr
    rw [Option.isSome_none, Option.isSome_eq_false_iff, Option.isNone_iff_eq_none] at hr
    rw [hr]
    rfl

theorem MtrOptions.noInjection {opts : MtrOptions} (h : opts.validate table localIps = .ok ()) :
    NoInjection ownOptions (fun t _ => { opts with target := t }.buildArgs table) opts.target
      none := by
  simp only [validate, bind_eq_ok, bailIf_eq_ok, Bool.not_eq_false', Bool.and_eq_false_iff,
    decide_eq_false_iff_not, not_not] at h
  obtain ⟨hsafe, hversion, -⟩ := h
  have htarget := plainArgument_of_isSafeHost hsafe
  have hflag : versionFlag opts.ipVersion ∈ ownOptions :=
    versionFlag_mem hversion (by decide) (by decide)
  constructor
  case options =>
    simp only [buildArgs, List.forall_mem_append, List.forall_mem_cons]
    refine ⟨⟨⟨fun _ => hflag, by decide, by decide, by decide, by decide, by decide, by decide,
      by decide, by decide, List.forall_mem_nil _⟩, ?_⟩, by decide, ownIfOption_decimal _,
      by decide, by decide, ownIfOption_decimal _, ownIfOption_of_plain htarget,
      List.forall_mem_nil _⟩
    split_ifs
    · exact List.forall_mem_singleton.mpr (by decide)
    · exact List.forall_mem_singleton.mpr (by decide)
    · exact List.forall_mem_nil _
  case plain_target => exact htarget
  case plain_resolver =>
    intro r hr
    cases hr
  case layout =>
    apply fixedLayout_target_first (([versionFlag opts.ipVersion, "--interval".toList,
      "1.0".toList, "--gracetime".toList, "3".toList, "--max-ttl".toList, "30".toList,
      "--timeout".toList, "15".toList] ++
      (if table.toUppercase opts.protocol = "TCP".toList then ["--tcp".toList]
        else if table.toUppercase opts.protocol = "UDP".toList then ["--udp".toList] else [])) ++
      ["-c".toList, decimal opts.packets.toNat, "--raw".toList, "-P".toList,
        decimal opts.port.toNat]) []
    intro t r hr
    rw [Option.isSome_none, Option.isSome_eq_false_iff, Option.isNone_iff_eq_none] at hr
    rw [hr, List.append_assoc]
    rfl

theorem DnsOptions.noInjection {opts : DnsOptions} (h : opts.validate localIps = .ok ()) :
    NoInjection ownOptions (fun t r => { opts with target := t, resolver := r }.buildArgs)
      opts.target opts.resolver := by
  simp only [validate, bind_eq_ok, bailIf_eq_ok, Bool.not_eq_false', Bool.and_eq_false_iff,
    decide_eq_false_iff_not, not_not] at h
  obtain ⟨htype, -, hversion, hsafe, hresolver⟩ := h
  have htarget := plainArgument_of_isSafeHost hsafe
  have hflag : versionFlag opts.ipVersion ∈ ownOptions :=
    versionFlag_mem hversion (by decide) (by decide)
  have hrecord : OwnIfOption ownOptions opts.query.recordType := by
    have hall : allowedTypes.all (fun t => !t.head?.any isSign) = true := by decide
    have hno := List.all_eq_true.mp hall _ (List.contains_iff_mem.mp htype)
    intro hsign
    rw [hsign] at hno
    cases hno
  constructor
  case options =>
    simp only [buildArgs, List.forall_mem_append, List.forall_mem_cons]
    refine ⟨⟨⟨⟨⟨?_, ownIfOption_of_plain htarget, List.forall_mem_nil _⟩,
      ownIfOption_resolverArg⟩, by decide, ownIfOption_decimal _, fun _ => hflag, by decide,
      by decide, by decide, by decide, by decide, List.forall_mem_nil _⟩, ?_⟩, ?_⟩
    · split_ifs
      · exact List.forall_mem_singleton.mpr (by decide)
      · exact List.forall_mem_cons.mpr ⟨by decide, List.forall_mem_singleton.mpr hrecord⟩
    · split_ifs
      · exact List.forall_mem_singleton.mpr (by decide)
      · exact List.forall_mem_nil _
    · split_ifs
      · exact List.forall_mem_singleton.mpr (by decide)
      · exact List.forall_mem_nil _
  case plain_target => exact htarget
  case plain_resolver =>
    intro r hr
    rw [hr, validateResolver_some] at hresolver
    exact plainArgument_resolver hresolver.1
  case layout =>
    apply fixedLayout_target_first
      (if opts.query.recordType = "PTR".toList then ["-x".toList]
        else ["-t".toList, opts.query.recordType])
      (["-p".toList, decimal opts.port.toNat, versionFlag opts.ipVersion,
        "+timeout=3".toList, "+tries=2".toList, "+nocookie".toList, "+nosplit".toList,
        "+nsid".toList] ++ ((if opts.trace then ["+trace".toList] else []) ++
        (if eqIgnoreAsciiCase opts.protocol "tcp".toList then ["+tcp".toList] else [])))
    intro t r _
    rw [buildArgs, List.append_assoc, List.append_assoc, List.append_assoc, List.append_assoc]
    rfl

theorem HttpOptions.noInjection {opts : HttpOptions}
    (h : opts.validate table localIps = .ok ()) :
    NoInjection ownOptions (fun t r => digArgs t r opts.ipVersion) opts.target opts.resolver := by
  simp only [validate, bind_eq_ok, bailIf_eq_ok, Bool.not_eq_false', Bool.and_eq_false_iff,
    decide_eq_false_iff_not, not_not] at h
  obtain ⟨hsafe, -, -, -, hresolver, -⟩ := h
  have htarget := plainArgument_of_isSafeHost hsafe
  constructor
  case options =>
    simp only [digArgs, List.forall_mem_append, List.forall_mem_cons]
    refine ⟨ownIfOption_resolverArg, ownIfOption_of_plain htarget, ?_, by decide, by decide,
      by decide, List.forall_mem_nil _⟩
    split_ifs <;> decide
  case plain_target => exact htarget
  case plain_resolver =>
    intro r hr
    rw [hr, validateResolver_some] at hresolver
    exact plainArgument_resolver hresolver.1
  case layout => exact fixedLayout_resolver_first _ (fun _ _ _ => rfl)

end Builders

/-- No accepted options value of ping, mtr or dns smuggles an option into the arguments, and
none of http into those of its resolution, if it has one. -/
theorem no_option_injection (table : CaseTable) (localIps : List IpAddr) :
    (∀ opts : PingOptions, opts.validate localIps = .ok () →
      NoInjection PingOptions.ownOptions (fun t _ => { opts with target := t }.buildArgs)
        opts.target none) ∧
    (∀ opts : MtrOptions, opts.validate table localIps = .ok () →
      NoInjection MtrOptions.ownOptions (fun t _ => { opts with target := t }.buildArgs table)
        opts.target none) ∧
    (∀ opts : DnsOptions, opts.validate localIps = .ok () →
      NoInjection DnsOptions.ownOptions
        (fun t r => { opts with target := t, resolver := r }.buildArgs) opts.target opts.resolver) ∧
    ∀ opts : HttpOptions, opts.validate table localIps = .ok () →
      NoInjection HttpOptions.ownOptions (fun t r => digArgs t r opts.ipVersion) opts.target
        opts.resolver ∧
      ∀ args, opts.resolveArgs = some args → args = digArgs opts.target opts.resolver opts.ipVersion := by
  refine ⟨fun _ h => PingOptions.noInjection h, fun _ h => MtrOptions.noInjection h,
    fun _ h => DnsOptions.noInjection h, fun _ h => ⟨HttpOptions.noInjection h, ?_⟩⟩
  intro args hargs
  unfold HttpOptions.resolveArgs at hargs
  split_ifs at hargs
  exact (Option.some.inj hargs).symm

def pingExample : PingOptions := ⟨"example.com".toList, 3, 4⟩
def mtrExample : MtrOptions := ⟨"_dmarc.example.com".toList, "udp".toList, 80, 3, 6⟩

def dnsExample : DnsOptions :=
  ⟨"example.com".toList, "TCP".toList, 53, some "dns.example".toList, true, ⟨"AAAA".toList⟩, 4⟩

def httpExample : HttpOptions :=
  ⟨"example.com".toList, none, "HTTPS".toList, none, 4, ⟨"GET".toList, none, [], [], []⟩⟩

/-- Accepted values of the four commands. -/
theorem no_option_injection_examples :
    NoInjection PingOptions.ownOptions (fun t _ => { pingExample with target := t }.buildArgs)
        "example.com".toList none ∧
      NoInjection MtrOptions.ownOptions
        (fun t _ => { mtrExample with target := t }.buildArgs .ascii)
        "_dmarc.example.com".toList none ∧
      NoInjection DnsOptions.ownOptions
        (fun t r => { dnsExample with target := t, resolver := r }.buildArgs)
        "example.com".toList (some "dns.example".toList) ∧
      NoInjection HttpOptions.ownOptions (fun t r => digArgs t r 4) "example.com".toList none := by
  obtain ⟨hping, hmtr, hdns, hhttp⟩ := no_option_injection .ascii []
  exact ⟨hping pingExample rfl, hmtr mtrExample rfl, hdns dnsExample rfl,
    (hhttp httpExample rfl).1⟩

end GlobalpingProbe.Command
