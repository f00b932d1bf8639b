import GlobalpingProbe.Command.Validate
import GlobalpingProbe.Net.InetAton
import Mathlib.Tactic.Tauto

/-! # Numeric aliases of private addresses

The validators check the addresses that the strict parser can read. A numeric host that only
the tools can read passes as a host name, whatever address it stands for.
-/
namespace GlobalpingProbe.Command
open Net Foundation Foundation.Utf8

def NoPrivateAlias (localIps : List IpAddr) (s : Text) : Prop :=
  ∀ addr, inetAton s = some addr → isIpPrivate localIps (.v4 addr) = false

/-- A numeric host of a private address is a strict literal, or too long for any host. -/
def AliasesStrict (localIps : List IpAddr) (s : Text) : Prop :=
  ∀ addr, inetAton s = some addr → isIpPrivate localIps (.v4 addr) = true →
    (parseIpAddr s).isSome = true ∨ maxHostLen < byteLen s

theorem isSafeHost_of_numeric {s : Text} {addr : Ipv4Addr} (h : inetAton s = some addr) :
    isSafeHost s = true ↔ byteLen s ≤ maxHostLen := by
  obtain ⟨c, rest, rfl, hc⟩ := inetAton_head h
  have hall : (c :: rest).all (fun c => c.isAlphanum || c = '.' || c = '-' || c = '_') = true := by
    apply List.all_eq_true.mpr
    intro d hd
    rcases inetAton_alphanum h d hd with hd | rfl
    · simp [hd]
    · rfl
  have hdash : c ≠ '-' := ne_of_isDigitOf hc (by decide)
  have hdot : c ≠ '.' := ne_of_isDigitOf hc (by decide)
  unfold isSafeHost
  dsimp only
  split
  · next hlen => simpa using hlen
  · next hlen =>
    rw [if_neg (not_or.mpr ⟨hdash, hdot⟩), hall, ite_self]
    simpa using hlen

/-- Every numeric host passes unless it is too long or the literal of a private address. -/
theorem hostAccepted_numeric {localIps : List IpAddr} {s : Text} {addr : Ipv4Addr}
    (h : inetAton s = some addr) : HostAccepted localIps s ↔ byteLen s ≤ maxHostLen ∧
      ((parseIpAddr s).isSome = true → isIpPrivate localIps (.v4 addr) = false) := by
  rw [HostAccepted, isSafeHost_of_numeric h]
  have hcolon : ':' ∉ s := by
    intro hm
    rcases inetAton_alphanum h ':' hm with hc | hc
    · exact absurd hc (by decide)
    · exact absurd hc (by decide)
  apply and_congr_right
  intro _
  cases hp : parseIpAddr s with
  | none => simp
  | some ip =>
    obtain ⟨addr', rfl, hsame⟩ := inetAton_of_parseIpAddr hcolon hp
    obtain rfl : addr = addr' := Option.some.inj (h.symm.trans hsame)
    simp

/-- The host check keeps private aliases out exactly when they are strict or too long. -/
theorem hostAccepted_noPrivateAlias {localIps : List IpAddr} {s : Text} :
    (HostAccepted localIps s → NoPrivateAlias localIps s) ↔ AliasesStrict localIps s := by
  constructor
  · intro hno addr haddr hpriv
    by_contra hloose
    obtain ⟨hparse, hlen⟩ := not_or.mp hloose
    have haccepted : HostAccepted localIps s := (hostAccepted_numeric haddr).mpr
      ⟨not_lt.mp hlen, fun hs => absurd hs hparse⟩
    rw [hno haccepted addr haddr] at hpriv
    cases hpriv
  · intro hstrict haccepted addr haddr
    obtain ⟨hlen, hliteral⟩ := (hostAccepted_numeric haddr).mp haccepted
    cases hpriv : isIpPrivate localIps (.v4 addr) with
    | false => rfl
    | true =>
      rcases hstrict addr haddr hpriv with hs | hs
      · rw [hliteral hs] at hpriv
        cases hpriv
      · omega

theorem field_noPrivateAlias {localIps : List IpAddr} {s : Text} {accepted others : Prop}
    (h : accepted ↔ HostAccepted localIps s ∧ others) :
    (accepted → NoPrivateAlias localIps s) ↔ (others → AliasesStrict localIps s) := by
  rw [h, ← hostAccepted_noPrivateAlias]
  tauto

/-- For each command and field: what is accepted is no alias of a private address exactly when
such an alias is a strict literal or too long, or the other fields are refused. -/
theorem accepted_noPrivateAlias_iff (table : CaseTable) (localIps : List IpAddr) :
    (∀ opts : PingOptions,
      (opts.validate localIps = .ok () → NoPrivateAlias localIps opts.target) ↔
        ({ opts with target := ['a'] }.validate localIps = .ok () →
          AliasesStrict localIps opts.target)) ∧
    (∀ opts : TracerouteOptions,
      (opts.validate table localIps = .ok () → NoPrivateAlias localIps opts.target) ↔
        ({ opts with target := ['a'] }.validate table localIps = .ok () →
          AliasesStrict localIps opts.target)) ∧
    (∀ opts : MtrOptions,
      (opts.validate table localIps = .ok () → NoPrivateAlias localIps opts.target) ↔
        ({ opts with target := ['a'] }.validate table localIps = .ok () →
          AliasesStrict localIps opts.target)) ∧
    (∀ opts : HttpOptions,
      (opts.validate table localIps = .ok () → NoPrivateAlias localIps opts.target) ↔
        ({ opts with target := ['a'] }.validate table localIps = .ok () →
          AliasesStrict localIps opts.target)) ∧
    (∀ (opts : DnsOptions) (s : Text),
      ({ opts with resolver := some s }.validate localIps = .ok () → NoPrivateAlias localIps s) ↔
        ({ opts with resolver := none }.validate localIps = .ok () → AliasesStrict localIps s)) ∧
    (∀ (opts : HttpOptions) (s : Text),
      ({ opts with resolver := some s }.validate table localIps = .ok () →
        NoPrivateAlias localIps s) ↔
        ({ opts with resolver := none }.validate table localIps = .ok () →
          AliasesStrict localIps s)) :=
  ⟨fun opts => field_noPrivateAlias opts.validate_target,
    fun opts => field_noPrivateAlias opts.validate_target,
    fun opts => field_noPrivateAlias opts.validate_target,
    fun opts => field_noPrivateAlias opts.validate_target,
    fun opts s => field_noPrivateAlias (opts.validate_resolver s),
    fun opts s => field_noPrivateAlias (opts.validate_resolver s)⟩

/-- A ping target and a resolver that the tools take for the loopback address. -/
theorem loopback_aliases_accepted :
    (PingOptions.mk "127.1".toList 3 4).validate [] = .ok () ∧
      ¬ NoPrivateAlias [] "127.1".toList ∧
    (DnsOptions.mk "example.com".toList "UDP".toList 53 (some "2130706433".toList) false
      ⟨"A".toList⟩ 4).validate [] = .ok () ∧
      ¬ NoPrivateAlias [] "2130706433".toList := by
  refine ⟨rfl, fun h => ?_, rfl, fun h => ?_⟩
  · exact absurd (h (.ofOctets 127 0 0 1) (by decide)) (by decide)
  · exact absurd (h (.ofOctets 127 0 0 1) (by decide)) (by decide)

end GlobalpingProbe.Command
