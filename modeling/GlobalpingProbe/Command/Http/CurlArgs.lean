import GlobalpingProbe.Command.Arguments

/-! # The request of curl

The URL is put together from texts that were checked for control characters and blanks only.
What curl makes of the argument is more than a URL: unless it is told not to, it reads lists
in braces and ranges in brackets, and makes a transfer of each URL they stand for.
-/
namespace GlobalpingProbe.Command
open Mtr Net

/-- The port of `run_http`. -/
def HttpOptions.effectivePort (table : CaseTable) (opts : HttpOptions) : UInt16 :=
  opts.port.getD (if table.toUppercase opts.protocol = "HTTP".toList then 80 else 443)

/-- An IPv6 address needs brackets. -/
def bracketHost (host : Text) : Text := if ':' ∈ host then '[' :: (host ++ [']']) else host

def HttpOptions.buildUrl (table : CaseTable) (opts : HttpOptions) (port : UInt16) : Text :=
  let scheme :=
    if table.toUppercase opts.protocol = "HTTP".toList then "http".toList else "https".toList
  let path := '/' :: opts.request.path.dropWhile (· = '/')
  let query :=
    if opts.request.query.isEmpty then [] else '?' :: opts.request.query.dropWhile (· = '?')
  scheme ++ "://".toList ++ bracketHost opts.target ++ ':' :: (decimal port.toNat ++ path ++ query)

def curlWriteFmt : Text :=
  "\x7b\"remote_ip\":\"%\x7bremote_ip\x7d\",\"time_namelookup\":%\x7btime_namelookup\x7d,".toList ++
  "\"time_connect\":%\x7btime_connect\x7d,\"time_appconnect\":%\x7btime_appconnect\x7d,".toList ++
  "\"time_starttransfer\":%\x7btime_starttransfer\x7d,\"time_total\":%\x7btime_total\x7d,".toList ++
  "\"http_version\":\"%\x7bhttp_version\x7d\",\"response_code\":%\x7bresponse_code\x7d,".toList ++
  "\"ssl_verify_result\":%\x7bssl_verify_result\x7d\x7d".toList

def headerArgs (header : Text × Text) : List Text :=
  ["-H".toList, header.1 ++ ": ".toList ++ header.2]

/-- The connection is forced to the address that was resolved, if one had to be. -/
def HttpOptions.resolveOption (opts : HttpOptions) (port : UInt16) (resolvedIp : Text) :
    List Text :=
  if (parseIpAddr opts.target).isSome then []
  else ["--resolve".toList,
    opts.target ++ ':' :: (decimal port.toNat ++ ':' :: bracketHost resolvedIp)]

def HttpOptions.buildCurlArgs (table : CaseTable) (opts : HttpOptions) (url : Text)
    (port : UInt16) (resolvedIp headersPath bodyPath : Text) : List Text :=
  let proto := table.toUppercase opts.protocol
  let method := table.toUppercase opts.request.method
  let hostHeader := opts.request.host.getD opts.target
  ["-sS".toList, "-k".toList, "-v".toList, "--compressed".toList, "--max-time".toList,
    "10".toList, "-X".toList, method, versionFlag opts.ipVersion, "-D".toList, headersPath,
    "-o".toList, bodyPath, "--write-out".toList, curlWriteFmt,
    "-H".toList, "Host: ".toList ++ hostHeader,
    "-H".toList, "User-Agent: globalping probe (https://github.com/jsdelivr/globalping)".toList,
    "-H".toList, "Connection: close".toList,
    "-H".toList, "Accept-Encoding: gzip, deflate, br".toList] ++
  opts.request.headers.flatMap headerArgs ++
  (if proto = "HTTP2".toList then ["--http2".toList]
    else if proto = "HTTP".toList then ["--http1.1".toList] else []) ++
  opts.resolveOption port resolvedIp ++ [url]

/-- The arguments that `run_http` starts curl with; the files are named by a fresh id. -/
def HttpOptions.curlArgs (table : CaseTable) (opts : HttpOptions) (resolvedIp id : Text) :
    List Text :=
  let port := opts.effectivePort table
  opts.buildCurlArgs table (opts.buildUrl table port) port resolvedIp
    ("/tmp/gp_hdr_".toList ++ id ++ ".txt".toList) ("/tmp/gp_body_".toList ++ id ++ ".txt".toList)

namespace Http

def isGlob (c : Char) : Bool := "\x7b\x7d[]".toList.contains c

/-- The options of curl that take a URL as it is. -/
def isGlobOff (arg : Text) : Bool := arg = "-g".toList || arg = "--globoff".toList

/-- No character of the URL asks for more than one transfer; the brackets of an address do not. -/
def PlainUrl (target url : Text) : Prop :=
  ∃ before after, url = before ++ bracketHost target ++ after ∧
    ∀ c ∈ before ++ target ++ after, isGlob c = false

def OneTransfer (target : Text) (args : List Text) : Prop :=
  args.any isGlobOff = true ∨ ∃ url, args.getLast? = some url ∧ PlainUrl target url

theorem isGlob_of_isHostChar {c : Char} (h : isHostChar c = true) : isGlob c = false := by
  have hall : "\x7b\x7d[]".toList.all (fun c => !isHostChar c) = true := by decide
  by_contra hglob
  have hmem := List.contains_iff_mem.mp ((Bool.not_eq_false _).mp hglob)
  have hno := List.all_eq_true.mp hall c hmem
  rw [h] at hno
  cases hno

theorem isGlob_decimal (n : ℕ) : ∀ c ∈ decimal n, isGlob c = false := by
  intro c hc
  have hdigit := isDigit_of_mem_decimal hc
  exact isGlob_of_isHostChar (by simp [isHostChar, Char.isAlphanum, hdigit])

/-! ## The URL of an accepted value -/

theorem filter_isGlob_eq_nil {s : Text} (h : ∀ c ∈ s, isGlob c = false) : s.filter isGlob = [] :=
  List.filter_eq_nil_iff.mpr (fun c hc => by rw [h c hc]; exact Bool.false_ne_true)

theorem filter_isGlob_dropWhile (d : Char) (hd : isGlob d = false) (s : Text) :
    (s.dropWhile (· = d)).filter isGlob = s.filter isGlob := by
  have htaken : (s.takeWhile (· = d)).filter isGlob = [] := by
    apply filter_isGlob_eq_nil
    intro c hc
    have heq := List.mem_takeWhile_imp hc
    rw [of_decide_eq_true heq, hd]
  conv_rhs => rw [← List.takeWhile_append_dropWhile (p := (· = d)) (l := s), List.filter_append,
    htaken, List.nil_append]

section Url
variable (table : CaseTable) (opts : HttpOptions)

theorem buildUrl_split (port : UInt16) : ∃ before after,
    opts.buildUrl table port = before ++ bracketHost opts.target ++ after ∧
      (∀ c ∈ before, isGlob c = false) ∧
      after.filter isGlob = opts.request.path.filter isGlob ++ opts.request.query.filter isGlob := by
  let scheme :=
    if table.toUppercase opts.protocol = "HTTP".toList then "http".toList else "https".toList
  refine ⟨scheme ++ "://".toList, _, rfl, ?_, ?_⟩
  · intro c hc
    have hall : (scheme ++ "://".toList).all (!isGlob ·) = true := by
      dsimp only [scheme]
      split <;> decide
    simpa using List.all_eq_true.mp hall c hc
  · have hquery : (if opts.request.query.isEmpty then [] else
        '?' :: opts.request.query.dropWhile (· = '?')).filter isGlob =
          opts.request.query.filter isGlob := by
      split
      · next hempty => rw [List.isEmpty_iff.mp hempty]
      · exact filter_isGlob_dropWhile '?' (by decide) _
    have hpath : ('/' :: opts.request.path.dropWhile (· = '/')).filter isGlob =
        opts.request.path.filter isGlob := filter_isGlob_dropWhile '/' (by decide) _
    rw [List.filter_cons_of_neg (by decide), List.filter_append, List.filter_append,
      filter_isGlob_eq_nil (isGlob_decimal _), hpath, hquery, List.nil_append]

variable {table opts}

/-- The URL is plain exactly when the path and the query are. -/
theorem plainUrl_iff (htarget : ∀ c ∈ opts.target, isGlob c = false) (port : UInt16) :
    PlainUrl opts.target (opts.buildUrl table port) ↔
      ∀ c ∈ opts.request.path ++ opts.request.query, isGlob c = false := by
  obtain ⟨before, after, hurl, hbefore, hafter⟩ := buildUrl_split table opts port
  constructor
  · rintro ⟨before', after', hurl', hplain⟩
    rw [List.forall_mem_append, List.forall_mem_append] at hplain
    have hglobs := congrArg (List.filter isGlob) (hurl.symm.trans hurl')
    simp only [List.filter_append, filter_isGlob_eq_nil hbefore, filter_isGlob_eq_nil hplain.1.1,
      filter_isGlob_eq_nil hplain.2, List.nil_append, List.append_nil, hafter] at hglobs
    rw [List.append_right_eq_self, ← List.filter_append] at hglobs
    intro c hc
    exact Bool.eq_false_iff.mpr (List.filter_eq_nil_iff.mp hglobs c hc)
  · intro hplain
    refine ⟨before, after, hurl, ?_⟩
    have hnone : after.filter isGlob = [] := by
      rw [hafter, ← List.filter_append]
      exact filter_isGlob_eq_nil hplain
    rw [List.forall_mem_append, List.forall_mem_append]
    exact ⟨⟨hbefore, htarget⟩,
      fun c hc => Bool.eq_false_iff.mpr (List.filter_eq_nil_iff.mp hnone c hc)⟩

end Url

section Accepted
variable {table : CaseTable} {localIps : List IpAddr} {opts : HttpOptions}

theorem not_isGlobOff_of_head {c : Char} {arg : Text} (h : c ≠ '-') :
    isGlobOff (c :: arg) = false := by
  simp only [isGlobOff, Bool.or_eq_false_iff, decide_eq_false_iff_not]
  constructor
  · intro heq
    exact h (List.cons.inj heq).1
  · intro heq
    exact h (List.cons.inj heq).1

theorem not_isGlobOff_of_colon {arg : Text} (h : ':' ∈ arg) : isGlobOff arg = false := by
  simp only [isGlobOff, Bool.or_eq_false_iff, decide_eq_false_iff_not]
  constructor
  · rintro rfl
    exact absurd h (by decide)
  · rintro rfl
    exact absurd h (by decide)

theorem curlArgs_getLast (resolvedIp id : Text) :
    (opts.curlArgs table resolvedIp id).getLast? =
      some (opts.buildUrl table (opts.effectivePort table)) := List.getLast?_concat

theorem validate_curl (h : opts.validate table localIps = .ok ()) :
    (∀ c ∈ opts.target, isHostChar c = true) ∧ (opts.ipVersion = 4 ∨ opts.ipVersion = 6) ∧
      table.toUppercase opts.request.method ∈ ["GET".toList, "HEAD".toList, "OPTIONS".toList] := by
  simp only [HttpOptions.validate, bind_eq_ok, bailIf_eq_ok, Bool.not_eq_false',
    Bool.and_eq_false_iff, decide_eq_false_iff_not, not_not] at h
  obtain ⟨hsafe, hversion, -, hmethod, -⟩ := h
  refine ⟨isHostChar_of_isSafeHost hsafe, hversion, ?_⟩
  simpa [or_assoc] using hmethod

/-- The arguments never tell curl to take the URL as it is. -/
theorem curlArgs_glob_on (h : opts.validate table localIps = .ok ()) (resolvedIp id : Text) :
    ∀ arg ∈ opts.curlArgs table resolvedIp id, isGlobOff arg = false := by
  obtain ⟨-, hversion, hmethod⟩ := validate_curl h
  have hflag : isGlobOff (versionFlag opts.ipVersion) = false := by
    rcases hversion with hv | hv
    · rw [hv]
      decide
    · rw [hv]
      decide
  have hverb : isGlobOff (table.toUppercase opts.request.method) = false := by
    simp only [List.mem_cons, List.not_mem_nil, or_false] at hmethod
    rcases hmethod with hm | hm | hm
    · rw [hm]
      decide
    · rw [hm]
      decide
    · rw [hm]
      decide
  have hurl : ':' ∈ opts.buildUrl table (opts.effectivePort table) :=
    List.mem_append_right _ List.mem_cons_self
  unfold HttpOptions.curlArgs HttpOptions.buildCurlArgs
  refine List.forall_mem_append.mpr ⟨List.forall_mem_append.mpr ⟨List.forall_mem_append.mpr
    ⟨List.forall_mem_append.mpr ⟨?fixed, ?headers⟩, ?protocol⟩, ?resolve⟩, ?url⟩
  case fixed =>
    simp only [List.forall_mem_cons]
    exact ⟨by decide, by decide, by decide, by decide, by decide, by decide, by decide, hverb,
      hflag, by decide, not_isGlobOff_of_head (c := '/') (by decide), by decide,
      not_isGlobOff_of_head (c := '/') (by decide), by decide,
      not_isGlobOff_of_head (c := '\x7b') (by decide), by decide,
      not_isGlobOff_of_head (c := 'H') (by decide), by decide, by decide, by decide, by decide,
      by decide, by decide, List.forall_mem_nil _⟩
  case headers =>
    intro arg harg
    obtain ⟨header, -, hmem⟩ := List.mem_flatMap.mp harg
    simp only [headerArgs, List.mem_cons, List.not_mem_nil, or_false] at hmem
    rcases hmem with rfl | rfl
    · decide
    · exact not_isGlobOff_of_colon (by simp)
  case protocol =>
    split_ifs
    · exact List.forall_mem_singleton.mpr (by decide)
    · exact List.forall_mem_singleton.mpr (by decide)
    · exact List.forall_mem_nil _
  case resolve =>
    unfold HttpOptions.resolveOption
    split_ifs
    · exact List.forall_mem_nil _
    · exact List.forall_mem_cons.mpr ⟨by decide,
        List.forall_mem_singleton.mpr (not_isGlobOff_of_colon (by simp))⟩
  case url => exact List.forall_mem_singleton.mpr (not_isGlobOff_of_colon hurl)

theorem oneTransfer_iff_plainUrl (h : opts.validate table localIps = .ok ())
    (resolvedIp id : Text) : OneTransfer opts.target (opts.curlArgs table resolvedIp id) ↔
      PlainUrl opts.target (opts.buildUrl table (opts.effectivePort table)) := by
  have hon : (opts.curlArgs table resolvedIp id).any isGlobOff ≠ true := by
    intro hoff
    obtain ⟨arg, harg, hglob⟩ := List.any_eq_true.mp hoff
    rw [curlArgs_glob_on h resolvedIp id arg harg] at hglob
    cases hglob
  simp [OneTransfer, hon, curlArgs_getLast]

/-- An accepted value makes one transfer exactly when neither its path nor its query has a brace
or a bracket. -/
theorem oneTransfer_iff (h : opts.validate table localIps = .ok ()) (resolvedIp id : Text) :
    OneTransfer opts.target (opts.curlArgs table resolvedIp id) ↔
      ∀ c ∈ opts.request.path ++ opts.request.query, isGlob c = false := by
  rw [oneTransfer_iff_plainUrl h]
  exact plainUrl_iff (fun c hc => isGlob_of_isHostChar ((validate_curl h).1 c hc)) _

end Accepted

theorem oneTransfer_example : OneTransfer httpExample.target
    (httpExample.curlArgs .ascii "192.0.2.1".toList ['1']) := by
  have haccepted : httpExample.validate .ascii [] = .ok () := rfl
  have hplain : (httpExample.request.path ++ httpExample.request.query).all (!isGlob ·) = true := by
    decide
  exact (oneTransfer_iff haccepted _ _).mpr
    (fun c hc => by simpa using List.all_eq_true.mp hplain c hc)

/-- A path that stands for two URLs. -/
def braceOptions : HttpOptions :=
  { httpExample with request := { httpExample.request with path := "/\x7ba,b\x7d".toList } }

theorem braceOptions_two_transfers : braceOptions.validate .ascii [] = .ok () ∧
    ¬ OneTransfer braceOptions.target
      (braceOptions.curlArgs .ascii "192.0.2.1".toList ['1']) := by
  have haccepted : braceOptions.validate .ascii [] = .ok () := rfl
  have hhost : ∀ c ∈ braceOptions.target, isGlob c = false :=
    fun c hc => isGlob_of_isHostChar ((validate_curl haccepted).1 c hc)
  refine ⟨haccepted, fun hone => ?_⟩
  have hplain := (plainUrl_iff hhost _).mp ((oneTransfer_iff_plainUrl haccepted _ _).mp hone)
  exact absurd (hplain '\x7b' (by decide)) (by decide)

end Http
end GlobalpingProbe.Command
