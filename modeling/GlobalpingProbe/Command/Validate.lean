import GlobalpingProbe.Util.CaseTable
import GlobalpingProbe.Util.Validate

/-! # The options of the commands and their validation

Each command checks its own options, in its own order and with its own messages; the lemmas
read off what an accepted value has passed.
-/
namespace GlobalpingProbe.Command
open Net

structure PingOptions where
  target : Text
  packets : UInt8
  ipVersion : UInt8

def PingOptions.validate (localIps : List IpAddr) (opts : PingOptions) : Except Text Unit := do
  bailIf (!isSafeHost opts.target) "Invalid target.".toList
  bailIf (opts.packets < 1 || opts.packets > 16) "packets must be 1–16".toList
  bailIf (opts.ipVersion ≠ 4 && opts.ipVersion ≠ 6) "ipVersion must be 4 or 6".toList
  bailIfPrivate localIps opts.target "Private IP ranges are not allowed.".toList

structure TracerouteOptions where
  target : Text
  protocol : Text
  port : UInt16
  ipVersion : UInt8

def TracerouteOptions.validate (table : CaseTable) (localIps : List IpAddr)
    (opts : TracerouteOptions) : Except Text Unit := do
  bailIf (!isSafeHost opts.target) "Invalid target.".toList
  bailIf (opts.ipVersion ≠ 4 && opts.ipVersion ≠ 6) "ipVersion must be 4 or 6".toList
  let proto := table.toUppercase opts.protocol
  bailIf (proto ≠ "ICMP".toList && proto ≠ "TCP".toList && proto ≠ "UDP".toList)
    "protocol must be ICMP, TCP, or UDP".toList
  bailIfPrivate localIps opts.target "Private IP ranges are not allowed".toList

structure MtrOptions where
  target : Text
  protocol : Text
  port : UInt16
  packets : UInt8
  ipVersion : UInt8

def MtrOptions.validate (table : CaseTable) (localIps : List IpAddr) (opts : MtrOptions) :
    Except Text Unit := do
  bailIf (!isSafeHost opts.target) "Invalid target.".toList
  bailIf (opts.ipVersion ≠ 4 && opts.ipVersion ≠ 6) "ipVersion must be 4 or 6".toList
  let proto := table.toUppercase opts.protocol
  bailIf (proto ≠ "ICMP".toList && proto ≠ "TCP".toList && proto ≠ "UDP".toList)
    "protocol must be ICMP, TCP, or UDP".toList
  bailIf (opts.packets = 0 || opts.packets > 16) "packets must be between 1 and 16".toList
  bailIfPrivate localIps opts.target "Private IP ranges are not allowed".toList

structure QueryOptions where
  recordType : Text

structure DnsOptions where
  target : Text
  protocol : Text
  port : UInt16
  resolver : Option Text
  trace : Bool
  query : QueryOptions
  ipVersion : UInt8

def allowedTypes : List Text :=
  ["A".toList, "AAAA".toList, "ANY".toList, "CNAME".toList, "DNSKEY".toList, "DS".toList,
    "HTTPS".toList, "MX".toList, "NS".toList, "NSEC".toList, "PTR".toList, "RRSIG".toList,
    "SOA".toList, "TXT".toList, "SRV".toList, "SVCB".toList]

def allowedProtocols : List Text := ["UDP".toList, "TCP".toList]

/-- A custom resolver is a host too, and its address must not be private. -/
def validateResolver (localIps : List IpAddr) : Option Text → Except Text Unit
  | none => .ok ()
  | some resolver => do
    bailIf (!isSafeHost resolver) "Invalid resolver.".toList
    bailIfPrivate localIps resolver "Private IP ranges are not allowed.".toList

def DnsOptions.validate (localIps : List IpAddr) (opts : DnsOptions) : Except Text Unit := do
  bailIf (!allowedTypes.contains opts.query.recordType)
    ("unsupported query type: ".toList ++ opts.query.recordType)
  bailIf (!allowedProtocols.any (fun p => eqIgnoreAsciiCase p opts.protocol))
    "protocol must be UDP or TCP".toList
  bailIf (opts.ipVersion ≠ 4 && opts.ipVersion ≠ 6) "ipVersion must be 4 or 6".toList
  bailIf (!isSafeHost opts.target) "Invalid target.".toList
  validateResolver localIps opts.resolver

structure HttpRequestOptions where
  method : Text
  host : Option Text
  path : Text
  query : Text
  headers : List (Text × Text)

structure HttpOptions where
  target : Text
  resolver : Option Text
  protocol : Text
  port : Option UInt16
  ipVersion : UInt8
  request : HttpRequestOptions

def HttpOptions.validate (table : CaseTable) (localIps : List IpAddr) (opts : HttpOptions) :
    Except Text Unit := do
  bailIf (!isSafeHost opts.target) "Invalid target.".toList
  bailIf (opts.ipVersion ≠ 4 && opts.ipVersion ≠ 6) "ipVersion must be 4 or 6".toList
  let proto := table.toUppercase opts.protocol
  bailIf (proto ≠ "HTTP".toList && proto ≠ "HTTPS".toList && proto ≠ "HTTP2".toList)
    "protocol must be HTTP, HTTPS, or HTTP2".toList
  let method := table.toUppercase opts.request.method
  bailIf (method ≠ "GET".toList && method ≠ "HEAD".toList && method ≠ "OPTIONS".toList)
    "method must be GET, HEAD, or OPTIONS".toList
  validateResolver localIps opts.resolver
  bailIf (opts.request.host.any (fun host => !isSafeHost host)) "Invalid host header.".toList
  bailIf (!isSafeUrlComponent opts.request.path) "Invalid request path.".toList
  bailIf (!isSafeUrlComponent opts.request.query) "Invalid request query.".toList
  bailIf (opts.request.headers.any (fun h => (h.1 ++ h.2).any isAsciiControl))
    "Invalid request header.".toList
  bailIfPrivate localIps opts.target "Private IP ranges are not allowed".toList

/-- What every command asks of a host: safe, and not the literal of a private address. -/
def HostAccepted (localIps : List IpAddr) (s : Text) : Prop :=
  isSafeHost s = true ∧ ∀ ip, parseIpAddr s = some ip → isIpPrivate localIps ip = false

theorem hostAccepted_plain (localIps : List IpAddr) : HostAccepted localIps ['a'] :=
  ⟨by decide, fun ip h => by
    have hnone : parseIpAddr ['a'] = none := by decide
    rw [hnone] at h
    cases h⟩

section Accepted
variable {table : CaseTable} {localIps : List IpAddr}

theorem PingOptions.validate_target (opts : PingOptions) : opts.validate localIps = .ok () ↔
    HostAccepted localIps opts.target ∧
      { opts with target := ['a'] }.validate localIps = .ok () := by
  have ha := hostAccepted_plain localIps
  unfold HostAccepted at ha ⊢
  simp only [validate, bind_eq_ok, bailIf_eq_ok, bailIfPrivate_eq_ok, Bool.not_eq_false']
  tauto

theorem TracerouteOptions.validate_target (opts : TracerouteOptions) :
    opts.validate table localIps = .ok () ↔ HostAccepted localIps opts.target ∧
      { opts with target := ['a'] }.validate table localIps = .ok () := by
  have ha := hostAccepted_plain localIps
  unfold HostAccepted at ha ⊢
  simp only [validate, bind_eq_ok, bailIf_eq_ok, bailIfPrivate_eq_ok, Bool.not_eq_false']
  tauto

theorem MtrOptions.validate_target (opts : MtrOptions) :
    opts.validate table localIps = .ok () ↔ HostAccepted localIps opts.target ∧
      { opts with target := ['a'] }.validate table localIps = .ok () := by
  have ha := hostAccepted_plain localIps
  unfold HostAccepted at ha ⊢
  simp only [validate, bind_eq_ok, bailIf_eq_ok, bailIfPrivate_eq_ok, Bool.not_eq_false']
  tauto

theorem HttpOptions.validate_target (opts : HttpOptions) :
    opts.validate table localIps = .ok () ↔ HostAccepted localIps opts.target ∧
      { opts with target := ['a'] }.validate table localIps = .ok () := by
  have ha := hostAccepted_plain localIps
  unfold HostAccepted at ha ⊢
  simp only [validate, bind_eq_ok, bailIf_eq_ok, bailIfPrivate_eq_ok, Bool.not_eq_false']
  tauto

theorem validateResolver_some {s : Text} :
    validateResolver localIps (some s) = .ok () ↔ HostAccepted localIps s := by
  simp [validateResolver, HostAccepted]

theorem DnsOptions.validate_resolver (opts : DnsOptions) (s : Text) :
    { opts with resolver := some s }.validate localIps = .ok () ↔ HostAccepted localIps s ∧
      { opts with resolver := none }.validate localIps = .ok () := by
  have hnone : validateResolver localIps none = .ok () := rfl
  simp only [validate, bind_eq_ok, validateResolver_some, hnone]
  tauto

theorem HttpOptions.validate_resolver (opts : HttpOptions) (s : Text) :
    { opts with resolver := some s }.validate table localIps = .ok () ↔ HostAccepted localIps s ∧
      { opts with resolver := none }.validate table localIps = .ok () := by
  have hnone : validateResolver localIps none = .ok () := rfl
  simp only [validate, bind_eq_ok, validateResolver_some, hnone]
  tauto

end Accepted
end GlobalpingProbe.Command
