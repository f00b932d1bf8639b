import GlobalpingProbe.Command.Http.Body
import GlobalpingProbe.Command.Http.HeaderDump
import GlobalpingProbe.Command.Http.HeaderLimit
import GlobalpingProbe.Command.Traceroute.Run
import GlobalpingProbe.Foundation.Words
import GlobalpingProbe.Util.CaseTable

/-! # The result of a finished request

What `run_http` makes of a response: the headers and the body, each within its own limit, and
the raw output put together from both. The flag tells whether one of the two was cut.
-/
namespace GlobalpingProbe.Command.Http
open Foundation Foundation.Utf8
open Traceroute (optionToJson)

inductive HttpStatus where
  | finished
  | failed
  deriving DecidableEq, Repr

def HttpStatus.toText : HttpStatus → Text
  | finished => "finished".toList
  | failed => "failed".toList

/-- `tls` and `timings` are what the rest of `run_http` makes of the report of curl. -/
structure ParsedHttp where
  status : HttpStatus
  statusCode : Option ℕ
  statusCodeName : Option Text
  resolvedAddress : Option Text
  httpVersion : Option Text
  headers : List (Text × Json)
  rawHeaders : Option Text
  rawBody : Option Text
  truncated : Bool
  tls : Json
  timings : Json
  rawOutput : Option Text

/-- The version is not part of the result. -/
def ParsedHttp.toJson (parsed : ParsedHttp) : Json :=
  .obj [("status".toList, .str parsed.status.toText),
    ("statusCode".toList, (parsed.statusCode.map (fun n => Json.num n)).getD .null),
    ("statusCodeName".toList, optionToJson parsed.statusCodeName),
    ("resolvedAddress".toList, optionToJson parsed.resolvedAddress),
    ("headers".toList, .obj parsed.headers),
    ("rawHeaders".toList, optionToJson parsed.rawHeaders),
    ("rawBody".toList, optionToJson parsed.rawBody),
    ("truncated".toList, .bool parsed.truncated),
    ("tls".toList, parsed.tls),
    ("timings".toList, parsed.timings),
    ("rawOutput".toList, optionToJson parsed.rawOutput)]

/-- A later value of a name makes a list with the earlier ones. The order of the members is
left open by the source. -/
def insertHeader (tables : CaseTables) (map : List (Text × Json)) (p : Header) :
    List (Text × Json) :=
  let lk := tables.toLowercase p.1
  let set (item : Json) := map.map (fun m => if m.1 = lk then (lk, item) else m)
  match map.lookup lk with
  | some (.arr items) => set (.arr (items ++ [.str p.2]))
  | some (.str prev) => set (.arr [.str prev, .str p.2])
  | some _ => set (.str p.2)
  | none => map ++ [(lk, .str p.2)]

def dedupHeaders (tables : CaseTables) (pairs : List Header) : List (Text × Json) :=
  pairs.foldl (insertHeader tables) []

def buildRawOutput (httpVersion : Option Text) (statusCode : Option ℕ)
    (rawHeaders rawBody : Option Text) (method : Text) : Option Text := do
  let version ← httpVersion
  let code ← statusCode
  let headers := rawHeaders.getD []
  let base := "HTTP/".toList ++ version ++ ' ' :: (Nat.repr code).toList ++ '\n' :: headers
  if method = "HEAD".toList ∨ rawBody.all (·.isEmpty) then return base
  else return base ++ "\n\n".toList ++ rawBody.getD []

/-- The raw output has the headers in one place. -/
theorem buildRawOutput_around (version : Text) (code : ℕ) (body : Option Text) (method : Text) :
    ∃ front back : Text, (back = [] ∨ back.head? = some '\n') ∧
      ∀ headers, buildRawOutput (some version) (some code) (some headers) body method =
        some (front ++ (headers ++ back)) := by
  by_cases hbare : method = "HEAD".toList ∨ body.all (·.isEmpty) = true
  · refine ⟨"HTTP/".toList ++ version ++ ' ' :: (Nat.repr code).toList ++ ['\n'], [], .inl rfl,
      fun headers => ?_⟩
    refine (if_pos hbare).trans (congrArg some ?_)
    simp
  · refine ⟨"HTTP/".toList ++ version ++ ' ' :: (Nat.repr code).toList ++ ['\n'],
      "\n\n".toList ++ body.getD [], .inr rfl, fun headers => ?_⟩
    refine (if_neg hbare).trans (congrArg some ?_)
    simp

/-- Headers start with a name, and every name is followed by a colon. -/
theorem rawHeadersStr_parsed (dump : Text) : rawHeadersStr (parseHeaderFile dump) = [] ∨
    ':' ∈ rawHeadersStr (parseHeaderFile dump) ∧
      (rawHeadersStr (parseHeaderFile dump)).head? ≠ some '\n' := by
  have hnames : ∀ p ∈ parseHeaderFile dump, ∃ s, p.1 = trim s := by
    intro p hp
    obtain ⟨e, -, he⟩ := List.mem_filterMap.mp hp
    split_ifs at he
    unfold parseHeaderLine at he
    dsimp only at he
    split_ifs at he
    exact ⟨_, congrArg Prod.fst (Option.some.inj he).symm⟩
  cases hpairs : parseHeaderFile dump with
  | nil => exact .inl rfl
  | cons p ps =>
    obtain ⟨later, hlater⟩ : ∃ later, rawHeadersStr (p :: ps) = headerLine p ++ later := by
      cases ps with
      | nil => exact ⟨[], by simp [rawHeadersStr]⟩
      | cons q qs =>
        exact ⟨_, by rw [rawHeadersStr, List.map_cons, List.map_cons,
          List.intercalate_cons_cons, List.append_assoc]⟩
    obtain ⟨s, hs⟩ := hnames p (by rw [hpairs]; exact List.mem_cons_self)
    refine .inr ⟨by simp [hlater, headerLine], fun hhead => ?_⟩
    rw [hlater, headerLine] at hhead
    cases hname : p.1 with
    | nil =>
      rw [hname] at hhead
      cases hhead
    | cons c name =>
      rw [hname] at hhead hs
      obtain rfl : c = '\n' := Option.some.inj hhead
      exact absurd (head?_trim s '\n' (by rw [← hs]; rfl)) (by decide)

/-- A response as curl leaves it behind: its version and code in the report, the dump of its
headers and the file with its body. -/
structure CurlResponse where
  httpVersion : Text
  responseCode : ℕ
  remoteIp : Text
  headersFile : List ℕ
  bodyFile : List ℕ
  deriving DecidableEq, Repr

namespace CurlResponse

def shownVersion (response : CurlResponse) : Option Text :=
  if response.httpVersion = "2".toList ∨ response.httpVersion = "2.0".toList then some "2".toList
  else if response.httpVersion.isEmpty then none
  else some response.httpVersion

/-- The value that `run_http` ends with, given what the truncation made of the headers. -/
def finished (tables : CaseTables) (method resolvedIp : Text) (response : CurlResponse)
    (tls timings : Json) (truncateRes : TruncateResult) : ParsedHttp :=
  let rawHeaders := rawHeadersStr truncateRes.headers
  let body := rawBody response.bodyFile
  let bodyOpt := if body.1.isEmpty then none else some body.1
  { status := .finished
    statusCode := some response.responseCode
    statusCodeName := parseStatusText (readToString response.headersFile)
    resolvedAddress := some (if response.remoteIp.isEmpty then resolvedIp else response.remoteIp)
    httpVersion := response.shownVersion
    headers := dedupHeaders tables truncateRes.headers
    rawHeaders := if rawHeaders.isEmpty then none else some rawHeaders
    rawBody := bodyOpt
    truncated := truncateRes.truncated || body.2
    tls := tls
    timings := timings
    rawOutput := buildRawOutput response.shownVersion (some response.responseCode)
      (some rawHeaders) bodyOpt method }

/-! ## The response without any limit -/

def completeHeaders (response : CurlResponse) : Text :=
  rawHeadersStr (parseHeaderFile (decodeLossy response.headersFile))

def completeBody (response : CurlResponse) : Text := decodeLossy response.bodyFile

def completeOutput (response : CurlResponse) (method : Text) : Option Text :=
  buildRawOutput response.shownVersion (some response.responseCode)
    (some response.completeHeaders)
    (if response.completeBody.isEmpty then none else some response.completeBody) method

theorem completeOutput_of_body {response : CurlResponse} {method version : Text}
    (hversion : response.shownVersion = some version) (hmethod : method ≠ "HEAD".toList)
    (hbody : response.completeBody ≠ []) :
    response.completeOutput method = some ("HTTP/".toList ++ version ++
      ' ' :: (Nat.repr response.responseCode).toList ++ '\n' :: response.completeHeaders ++
        "\n\n".toList ++ response.completeBody) := by
  have hnonempty : response.completeBody.isEmpty = false := List.isEmpty_eq_false_iff.mpr hbody
  have hsome : ¬ (method = "HEAD".toList ∨
      (some response.completeBody).all (fun b => b.isEmpty) = true) := by
    rintro (hm | hb)
    · exact hmethod hm
    · rw [Option.all_some, hnonempty] at hb
      cases hb
  rw [completeOutput, hversion, hnonempty, if_neg Bool.false_ne_true]
  exact if_neg hsome

/-- Neither headers that can be read nor the body are over their own limit. -/
def PartsFit (response : CurlResponse) : Prop :=
  (∀ dump, response.headersFile = encode dump →
    byteLen (rawHeadersStr (parseHeaderFile dump)) ≤ headersSizeLimit) ∧
  response.bodyFile.length ≤ bodyLimit

/-- If there are headers, the dump of them is a text. -/
def HeadersRead (response : CurlResponse) : Prop :=
  response.completeHeaders ≠ [] → ∃ dump, response.headersFile = encode dump

theorem completeHeaders_of_text {response : CurlResponse} {dump : Text}
    (h : response.headersFile = encode dump) :
    response.completeHeaders = rawHeadersStr (parseHeaderFile dump) := by
  rw [completeHeaders, h, decodeLossy_encode]

/-- What is read is a text in the file, or nothing. -/
theorem readToString_cases (file : List ℕ) :
    (∃ dump, file = encode dump ∧ readToString file = dump) ∨
      ((∀ dump, file ≠ encode dump) ∧ readToString file = []) := by
  cases h : decode file with
  | some dump =>
    exact .inl ⟨dump, decode_eq_some_iff.mp h, by rw [readToString, h, Option.getD_some]⟩
  | none => exact .inr ⟨decode_eq_none_iff.mp h, by rw [readToString, h, Option.getD_none]⟩

section Flag
variable {srt : SortUnstable} {tables : CaseTables} {method resolvedIp : Text} {tls timings : Json}
  {response : CurlResponse} {truncateRes : TruncateResult}

/-- Where both parts fit, nothing is cut, and the flag is not set. -/
theorem finished_of_partsFit (hfit : response.PartsFit)
    (h : truncateHeaders srt (parseHeaderFile (readToString response.headersFile)) =
      .ok truncateRes) :
    truncateRes = ⟨false, parseHeaderFile (readToString response.headersFile)⟩ ∧
      rawBody response.bodyFile = (response.completeBody, false) := by
  refine ⟨?_, rawBody_of_fits hfit.2⟩
  have hheaders : byteLen (rawHeadersStr (parseHeaderFile (readToString response.headersFile))) ≤
      headersSizeLimit := by
    rcases readToString_cases response.headersFile with ⟨dump, hdump, hread⟩ | ⟨-, hread⟩
    · rw [hread]
      exact hfit.1 dump hdump
    · rw [hread]
      exact Nat.zero_le _
  exact Except.ok.inj
    (h.symm.trans (untruncated_of_fits ((rawHeadersStr_fits_iff _).mp hheaders)))

/-- The flag is set as soon as one of the two parts is over its limit. -/
theorem partsFit_of_untruncated
    (h : truncateHeaders srt (parseHeaderFile (readToString response.headersFile)) =
      .ok truncateRes)
    (hflag : (response.finished tables method resolvedIp tls timings truncateRes).truncated =
      false) : response.PartsFit := by
  have hparts : truncateRes.truncated = false ∧ (rawBody response.bodyFile).2 = false :=
    Bool.or_eq_false_iff.mp hflag
  constructor
  · intro dump hdump
    rw [hdump, readToString_encode] at h
    by_contra hover
    have hset := (truncateHeaders_over (mt (rawHeadersStr_fits_iff _).mpr hover) h).1
    rw [hparts.1] at hset
    cases hset
  · by_contra hover
    rw [rawBody_of_over (not_le.mp hover)] at hparts
    cases hparts.2

end Flag

end CurlResponse
end GlobalpingProbe.Command.Http
