import GlobalpingProbe.Command.Future
import GlobalpingProbe.Command.Http.CurlArgs
import GlobalpingProbe.Foundation.Lines
import GlobalpingProbe.Foundation.Uri
import GlobalpingProbe.Foundation.Words

/-! # The endpoint that the arguments of curl name

The URL and the option for the resolved address are put together independently. Both are read
back here by their own grammar, and name the validated target and the same port.
-/
namespace GlobalpingProbe.Command.Http
open Foundation Mtr Net

/-- The host, the port and the address of a `--resolve` entry. -/
def resolveEntry (entry : Text) : List Text := splitn ':' 3 entry

section Characters
variable {c : Char}

/-- The characters of a target are none that the grammar of URIs gives a meaning. -/
theorem isHostChar_uri (h : isHostChar c = true) :
    Uri.isAuthorityEnd c = false ∧ c ≠ '@' ∧ c ≠ '[' ∧ c ≠ ']' := by
  have hall : "/?#@[]".toList.all (fun c => !isHostChar c) = true := by decide
  have hne : ∀ d ∈ "/?#@[]".toList, c ≠ d := by
    rintro d hd rfl
    have hno := List.all_eq_true.mp hall c hd
    rw [h] at hno
    cases hno
  refine ⟨?_, hne '@' (by decide), hne '[' (by decide), hne ']' (by decide)⟩
  simp [Uri.isAuthorityEnd, hne '/' (by decide), hne '?' (by decide), hne '#' (by decide)]

theorem isHostChar_decimal (n : ℕ) (h : c ∈ decimal n) : isHostChar c = true ∧ c ≠ ':' := by
  have hdigit := isDigit_of_mem_decimal h
  refine ⟨by simp [isHostChar, Char.isAlphanum, hdigit], ?_⟩
  rintro rfl
  exact absurd hdigit (by decide)

/-- What is in the authority besides brackets. -/
theorem authority_plain {target : Text} (h : ∀ c ∈ target, isHostChar c = true) (n : ℕ) :
    ∀ c ∈ bracketHost target ++ ':' :: decimal n, Uri.isAuthorityEnd c = false ∧ c ≠ '@' := by
  have htarget : ∀ c ∈ target, Uri.isAuthorityEnd c = false ∧ c ≠ '@' := fun c hc =>
    ⟨(isHostChar_uri (h c hc)).1, (isHostChar_uri (h c hc)).2.1⟩
  refine List.forall_mem_append.mpr ⟨?_, List.forall_mem_cons.mpr ⟨by decide, fun c hc => ?_⟩⟩
  · unfold bracketHost
    split
    · exact List.forall_mem_cons.mpr ⟨by decide, List.forall_mem_append.mpr
        ⟨htarget, List.forall_mem_singleton.mpr (by decide)⟩⟩
    · exact htarget
  · have hdigit := isHostChar_uri (isHostChar_decimal n hc).1
    exact ⟨hdigit.1, hdigit.2.1⟩

/-- The authority is read back as the host, in brackets if it has a colon, and the port. -/
theorem splitHost_authority {target : Text} (h : ∀ c ∈ target, isHostChar c = true) (n : ℕ) :
    Uri.splitHost (bracketHost target ++ ':' :: decimal n) =
      (bracketHost target, ':' :: decimal n) := by
  unfold bracketHost
  split
  · have hclose : ']' ∉ target := fun hmem => (isHostChar_uri (h _ hmem)).2.2.2 rfl
    rw [List.cons_append, List.append_assoc, List.singleton_append]
    exact Uri.splitHost_brackets hclose _
  · next hcolon =>
    have hopen : '[' ∉ target := fun hmem => (isHostChar_uri (h _ hmem)).2.2.1 rfl
    exact Uri.splitHost_colon hcolon hopen _

end Characters

section Accepted
variable {table : CaseTable} {localIps : List IpAddr} {opts : HttpOptions}

/-- The scheme goes by the protocol alone. -/
def schemeOf (table : CaseTable) (opts : HttpOptions) : Text :=
  if table.toUppercase opts.protocol = "HTTP".toList then "http".toList else "https".toList

/-- The authority ends in front of the path, whatever the path and the query are. -/
theorem parse_buildUrl (htarget : ∀ c ∈ opts.target, isHostChar c = true) (port : UInt16) :
    ∃ rest, Uri.parse (opts.buildUrl table port) = some
      { scheme := schemeOf table opts
        userInfo := none
        host := bracketHost opts.target
        port := some (decimal port.toNat)
        rest := '/' :: rest } := by
  let query :=
    if opts.request.query.isEmpty then [] else '?' :: opts.request.query.dropWhile (· = '?')
  let rest := opts.request.path.dropWhile (· = '/') ++ query
  have hscheme : ':' ∉ schemeOf table opts := by
    unfold schemeOf
    split <;> decide
  have hplain := authority_plain htarget port.toNat
  have hurl : opts.buildUrl table port = schemeOf table opts ++ "://".toList ++
      ((bracketHost opts.target ++ ':' :: decimal port.toNat) ++ '/' :: rest) := by
    simp only [HttpOptions.buildUrl, schemeOf, rest, query, List.append_assoc, List.cons_append]
  refine ⟨rest, ?_⟩
  rw [hurl, Uri.parse_append hscheme (fun huser => (hplain _ huser).2 rfl)
    (fun c hc => (hplain c hc).1) (fun c hc => by cases hc; rfl), splitHost_authority htarget]
  rfl

theorem notMem_colon_of_hostname (h : isSafeHost opts.target = true)
    (hname : parseIpAddr opts.target = none) : ':' ∉ opts.target := by
  intro hmem
  cases htarget : opts.target with
  | nil =>
    rw [htarget] at hmem
    cases hmem
  | cons first rest =>
    rw [htarget] at h hname hmem
    simp only [isSafeHost, hname, Option.isSome_none, Bool.false_eq_true, if_false] at h
    split_ifs at h
    exact absurd (List.all_eq_true.mp h ':' hmem) (by decide)

/-- The entry stands in front of the URL. -/
theorem buildCurlArgs_of_hostname (h : isSafeHost opts.target = true)
    (hname : parseIpAddr opts.target = none) (url : Text) (port : UInt16)
    (ip headersPath bodyPath : Text) : ∃ front entry,
      opts.buildCurlArgs table url port ip headersPath bodyPath =
        front ++ ["--resolve".toList, entry, url] ∧
      resolveEntry entry = [opts.target, decimal port.toNat, bracketHost ip] := by
  have hport : ':' ∉ decimal port.toNat := fun hmem => (isHostChar_decimal _ hmem).2 rfl
  have hoption : opts.resolveOption port ip = ["--resolve".toList,
      opts.target ++ ':' :: (decimal port.toNat ++ ':' :: bracketHost ip)] := by
    rw [HttpOptions.resolveOption, hname]
    rfl
  obtain ⟨front, hfront⟩ : ∃ front, opts.buildCurlArgs table url port ip headersPath bodyPath =
      front ++ (opts.resolveOption port ip ++ [url]) := ⟨_, List.append_assoc _ _ _⟩
  refine ⟨front, opts.target ++ ':' :: (decimal port.toNat ++ ':' :: bracketHost ip), ?_,
    splitn_three (notMem_colon_of_hostname h hname) hport _⟩
  rw [hfront, hoption]
  rfl

/-- An address goes on to curl only when it is a literal that is not private. -/
theorem vetted_of_afterDig {target stdout ip : Text}
    (h : afterDig localIps target stdout = .curlSpawning ip) :
    ∃ addr, parseIpAddr ip = some addr ∧ isIpPrivate localIps addr = false := by
  unfold afterDig at h
  split at h
  · cases h
  · next found hfound =>
    split_ifs at h with hprivate
    cases h
    unfold resolvedIp at hfound
    have hchosen := List.find?_some hfound
    rw [Bool.and_eq_true] at hchosen
    obtain ⟨addr, haddr⟩ := Option.isSome_iff_exists.mp hchosen.2
    rw [haddr, Option.any_some] at hprivate
    exact ⟨addr, haddr, (Bool.not_eq_true _).mp hprivate⟩

/-- For accepted options and every port, the URL names the target and the port whatever the path
and the query are, and for a host name the option for the resolved address names the same two,
with the address that was vetted. -/
theorem endpoint_is_target (h : opts.validate table localIps = .ok ()) (port : UInt16) :
    (∃ rest, Uri.parse (opts.buildUrl table port) = some
      { scheme :=
          if table.toUppercase opts.protocol = "HTTP".toList then "http".toList else "https".toList
        userInfo := none
        host := if ':' ∈ opts.target then '[' :: (opts.target ++ [']']) else opts.target
        port := some (decimal port.toNat)
        rest := '/' :: rest }) ∧
    parseUnsigned 16 (decimal port.toNat) = some port.toNat ∧
    (parseIpAddr opts.target = none → ∀ stdout ip,
      afterDig localIps opts.target stdout = .curlSpawning ip →
      (∃ addr, parseIpAddr ip = some addr ∧ isIpPrivate localIps addr = false) ∧
      ∀ headersPath bodyPath, ∃ front entry,
        opts.buildCurlArgs table (opts.buildUrl table port) port ip headersPath bodyPath =
          front ++ ["--resolve".toList, entry, opts.buildUrl table port] ∧
        resolveEntry entry = [opts.target, decimal port.toNat, bracketHost ip]) := by
  have htarget := (validate_curl h).1
  have hsafe : isSafeHost opts.target = true := by
    simp only [HttpOptions.validate, bind_eq_ok, bailIf_eq_ok, Bool.not_eq_false'] at h
    exact h.1
  refine ⟨parse_buildUrl htarget port, ?_, fun hname stdout ip hdig => ?_⟩
  · rw [decimal, Nat.toList_repr]
    exact parseUnsigned_toDigits port.toNat_lt
  · exact ⟨vetted_of_afterDig hdig, buildCurlArgs_of_hostname hsafe hname _ port ip⟩

end Accepted

/-- A path that looks like another authority. -/
def authorityPathOptions : HttpOptions :=
  { httpExample with
    request := { httpExample.request with path := "//user@10.0.0.1:22/".toList, query := "?#@".toList } }

theorem authorityPathOptions_endpoint :
    ∃ rest, Uri.parse (authorityPathOptions.buildUrl .ascii 8443) = some
      ⟨"https".toList, none, "example.com".toList, some "8443".toList, '/' :: rest⟩ :=
  (endpoint_is_target (show authorityPathOptions.validate .ascii [] = .ok () from rfl) 8443).1

end GlobalpingProbe.Command.Http
