import GlobalpingProbe.Command.Http.Exchange
import GlobalpingProbe.Command.Http.Run

/-! # What a served request reports

The processes of a request may answer it with a response: curl with its own report, the two
files with headers and body. Then the result tells all of it: the response, where it came from
and how long each phase took.
-/
namespace GlobalpingProbe.Command.Http
open Foundation Foundation.Utf8 Foundation.F64 Net

/-- A time in milliseconds, rounded. -/
def TellsTime (timings : Json) (name : String) (exact bound : ℚ) : Prop :=
  ∃ n : ℕ, timings.get name.toList = some (.num n) ∧ |(n : ℚ) - exact| ≤ bound

/-- The phases are told one by one. The lookup by curl itself is part of the connection, and both
are rounded. -/
structure TellsTimes (isHttps : Bool) (dnsMs : Option ℕ) (times : CurlTimes) (timings : Json) :
    Prop where
  dns : timings.get "dns".toList = some (numToJson dnsMs)
  tcp : TellsTime timings "tcp" (times.timeConnect * 1000) 1
  tls : isHttps = true →
    TellsTime timings "tls" ((times.timeAppconnect - times.timeConnect) * 1000) (1 / 2)
  plain : isHttps = false → timings.get "tls".toList = some .null
  firstByte : TellsTime timings "firstByte"
    ((times.timeStarttransfer - times.appConnect isHttps) * 1000) (1 / 2)
  download : TellsTime timings "download"
    ((times.timeTotal - times.timeStarttransfer) * 1000) (1 / 2)
  total : TellsTime timings "total" (dnsMs.getD 0 + times.timeTotal * 1000) (1 / 2)

/-- Answers with which a request is served: the target is found and curl gets the response, from an
address that is not private. -/
structure Served (env : HttpSetting) (opts : HttpOptions) (id : Text) (x : Exchange) where
  answer : (e : HttpAsk) → e.Answer
  ip : Text
  dnsMs : Option ℕ
  stdout : Text
  verbose : Text
  report : CurlReport
  accepted : opts.validate env.tables.toCaseTable env.localIps = .ok ()
  resolves : (resolveTarget env.localIps opts).eval answer = .ok (ip, dnsMs)
  curls : (answer (.curl (opts.curlArgs env.tables.toCaseTable ip id)) : Captured) =
    .output stdout verbose
  reports : env.curlReport (trim stdout) = some report
  version : report.httpVersion = x.version
  code : report.responseCode = x.code
  code_ne : x.code ≠ 0
  address : report.remoteIp = x.remoteIp
  headers : (answer (.readText (headersPath id)) : List ℕ) = encode (headerDump [x.block])
  body : (answer (.readBytes (bodyPath id)) : List ℕ) = x.body
  elsewhere : (parseIpAddr (report.finalResolvedIp ip)).any (isIpPrivate env.localIps) = false
  ordered : report.toCurlTimes.Ordered (isHttps env.tables.toCaseTable opts)

section Times
variable {seconds : ℚ}

theorem toMs_close (h : 0 ≤ seconds) : |(toMs seconds : ℚ) - seconds * 1000| ≤ 1 / 2 := by
  have hround : ((toMs seconds : ℕ) : ℚ) = roundAway (seconds * 1000) := by
    rw [← toMs_eq h]
    rfl
  obtain ⟨hlow, hhigh⟩ := roundAway_error (mul_nonneg h (by norm_num : (0 : ℚ) ≤ 1000))
  rw [hround, abs_le]
  exact ⟨hlow.le, hhigh⟩

/-- The timings of a request are those of the report, each rounded on its own. -/
theorem tellsTimes_httpTimings {table : CaseTable} {opts : HttpOptions} (dnsMs : Option ℕ)
    {times : CurlTimes} (h : times.Ordered (isHttps table opts)) :
    TellsTimes (isHttps table opts) dnsMs times (httpTimings table opts dnsMs times).toJson := by
  have hlookup := toMs_close h.lookup
  have hconnect := toMs_close (sub_nonneg.mpr h.connect)
  have htotal := toMs_close h.total_nonneg
  constructor
  case dns => rfl
  case tcp =>
    refine ⟨_, rfl, ?_⟩
    push_cast
    rw [abs_le] at hlookup hconnect ⊢
    constructor <;> linarith
  case tls =>
    intro hhttps
    have hready := h.appConnect
    rw [CurlTimes.appConnect, hhttps, if_pos rfl] at hready
    refine ⟨_, ?_, toMs_close (sub_nonneg.mpr hready)⟩
    simp only [httpTimings, hhttps, if_true]
    rfl
  case plain =>
    intro hplain
    simp only [httpTimings, hplain, Bool.false_eq_true, if_false]
    rfl
  case firstByte => exact ⟨_, rfl, toMs_close (sub_nonneg.mpr h.startTransfer)⟩
  case download => exact ⟨_, rfl, toMs_close (sub_nonneg.mpr h.total)⟩
  case total =>
    refine ⟨_, rfl, ?_⟩
    push_cast
    rwa [add_sub_add_left_eq_sub]

end Times

section Reported
variable {env : HttpSetting} {opts : HttpOptions} {id : Text} {x : Exchange}

theorem eval_finishHttp (s : Served env opts id x) : ∃ tls,
    (isHttps env.tables.toCaseTable opts = false → tls = .null) ∧
    (finishHttp env opts s.ip s.dnsMs (encode (headerDump [x.block])) x.body s.stdout
      s.verbose).eval s.answer = .ok (x.response.finished env.tables opts.request.method s.ip tls
        (httpTimings env.tables.toCaseTable opts s.dnsMs s.report.toCurlTimes).toJson
        ⟨false, x.block.headers⟩) := by
  refine ⟨(tlsOf env opts s.report (s.report.finalResolvedIp s.ip) s.verbose).eval s.answer, ?_, ?_⟩
  · intro hplain
    rw [tlsOf, hplain]
    rfl
  · have hcode : ¬ s.report.responseCode = 0 := s.code ▸ s.code_ne
    have htruncated : truncateHeaders env.srt (parseHeaderFile (readToString
        (encode (headerDump [x.block])))) = .ok ⟨false, x.block.headers⟩ := x.truncated env.srt
    unfold finishHttp
    rw [s.reports]
    dsimp only
    rw [if_neg hcode, s.elsewhere, if_neg Bool.false_ne_true, htruncated]
    dsimp only
    rw [Program.eval_bind, s.version, s.code, s.address]
    rfl

theorem eval_runRequest (s : Served env opts id x) :
    (runRequest env opts id).eval s.answer = (finishHttp env opts s.ip s.dnsMs
      (encode (headerDump [x.block])) x.body s.stdout s.verbose).eval s.answer := by
  unfold runRequest
  rw [s.accepted]
  dsimp only
  rw [Program.eval_bind, s.resolves]
  dsimp only [Program.eval]
  rw [s.curls]
  dsimp only [Program.eval, removeFiles]
  rw [s.headers, s.body]

/-- What a request was answered with is reported: the response, the address that it came from, or
else the one that was told, and the time of each phase. -/
theorem request_reports (s : Served env opts id x) : ∃ parsed,
    (runRequest env opts id).eval s.answer = .ok parsed ∧
    Reports env.tables opts.request.method x parsed ∧
    (x.remoteIp ≠ [] → parsed.resolvedAddress = some x.remoteIp) ∧
    (x.remoteIp = [] → parsed.resolvedAddress = some s.ip) ∧
    TellsTimes (isHttps env.tables.toCaseTable opts) s.dnsMs s.report.toCurlTimes
      parsed.timings ∧
    (isHttps env.tables.toCaseTable opts = false → parsed.tls = .null) := by
  obtain ⟨tls, hplain, hfinish⟩ := eval_finishHttp s
  refine ⟨_, (eval_runRequest s).trans hfinish, reports_finished x env.tables _ s.ip tls _, ?_, ?_,
    tellsTimes_httpTimings s.dnsMs s.ordered, hplain⟩
  · intro hremote
    have hsome : x.response.remoteIp.isEmpty = false := List.isEmpty_eq_false_iff.mpr hremote
    exact congrArg some (if_neg (by simp [hsome]))
  · intro hremote
    have hnone : x.response.remoteIp.isEmpty = true := List.isEmpty_iff.mpr hremote
    exact congrArg some (if_pos hnone)

end Reported

/-! ## A page at an address -/

/-- The target is an address, so nothing is resolved. -/
def pageOptions : HttpOptions :=
  ⟨"1.1.1.1".toList, none, "HTTP".toList, none, 4, ⟨"GET".toList, none, [], [], []⟩⟩

def pageWriteOut : Text :=
  '\x7b' :: (("\"remote_ip\":\"1.1.1.1\",\"time_namelookup\":0.00002,\"time_connect\":0.012," ++
    "\"time_appconnect\":0,\"time_starttransfer\":0.025,\"time_total\":0.031," ++
    "\"http_version\":\"1.1\",\"response_code\":200,\"ssl_verify_result\":0").toList ++ ['\x7d'])

def pageReport : CurlReport :=
  { remoteIp := "1.1.1.1".toList
    responseCode := 200
    timeNamelookup := 2 / 100000
    timeConnect := 12 / 1000
    timeAppconnect := 0
    timeStarttransfer := 25 / 1000
    timeTotal := 31 / 1000
    httpVersion := "1.1".toList
    sslVerifyResult := 0 }

def pageSetting : HttpSetting :=
  { tables := .ascii
    localIps := []
    srt := mergeSortDesc
    chrono := fun _ _ => none
    curlReport := fun s => if s = pageWriteOut then some pageReport else none }

theorem pageWriteOut_reported : pageSetting.curlReport (trim pageWriteOut) =
    some pageReport := by
  have htrim : trim pageWriteOut = pageWriteOut := by
    rw [pageWriteOut, trim_of_head (by decide), ← List.cons_append]
    exact List.rdropWhile_concat_neg _ _ _ (by decide)
  simp only [pageSetting, htrim, if_true]


/-- One header, and a body whose last byte is no text. -/
def greeting : Exchange :=
  { version := "1.1".toList
    code := 200
    block := finalOk
    body := [104, 105, 255]
    remoteIp := "1.1.1.1".toList
    version_ne := by decide
    version_word := by decide
    code_fits := by decide
    headers_fit := by decide }

def greetingAnswer : (e : HttpAsk) → e.Answer
  | .dig _ => (Captured.elapsed, 0)
  | .curl _ => Captured.output pageWriteOut []
  | .readText _ => encode (headerDump [finalOk])
  | .readBytes _ => [104, 105, 255]
  | .remove _ => ()
  | .openssl _ _ => none

def greetingServed : Served pageSetting pageOptions ['1'] greeting :=
  { answer := greetingAnswer
    ip := "1.1.1.1".toList
    dnsMs := none
    stdout := pageWriteOut
    verbose := []
    report := pageReport
    accepted := rfl
    resolves := by
      rw [resolveTarget, if_pos (by decide)]
      rfl
    curls := rfl
    reports := pageWriteOut_reported
    version := rfl
    code := rfl
    code_ne := by decide
    address := rfl
    headers := rfl
    body := rfl
    elsewhere := by decide
    ordered := by constructor <;> decide +kernel }

theorem greeting_reported : ∃ parsed,
    (runRequest pageSetting pageOptions ['1']).eval greetingServed.answer = .ok parsed ∧
      Reports pageSetting.tables pageOptions.request.method greeting parsed ∧
      parsed.resolvedAddress = some "1.1.1.1".toList ∧
      TellsTimes false none pageReport.toCurlTimes parsed.timings := by
  obtain ⟨parsed, hrun, hreports, haddress, -, htimes, -⟩ := request_reports greetingServed
  exact ⟨parsed, hrun, hreports, haddress (by decide), htimes⟩

end GlobalpingProbe.Command.Http
