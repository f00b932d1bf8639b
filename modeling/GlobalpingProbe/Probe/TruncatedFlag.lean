import GlobalpingProbe.Command.Http.Response
import GlobalpingProbe.Command.Http.Served
import GlobalpingProbe.Probe.Answers

/-! # The flag of a finished request, after the limit of `dispatch`

`run_http` sets the flag when it cuts the headers or the body. The raw output is put together
from both, and `dispatch` cuts it once more at a limit of its own.
-/
namespace GlobalpingProbe.Probe
open Foundation Status Foundation.Utf8
open Command.Http
open Command.Traceroute (optionToJson)

/-- What a call has emitted since its command ended. -/
def StageEmits (req : MeasurementRequest) (outcome : RunOutcome) : Stage → List CallEvent → Prop
  | .ended o, t => o = outcome ∧ t = [.ack, .recordStart]
  | .counted v, t => v = limitRawOutput outcome.toJson ∧ t = [.ack, .recordStart, .recordFinish]
  | .leaving .answered, t | .returned .answered, t =>
    t = [.ack, .recordStart, .recordFinish,
      .result req.testId req.measurementId (limitRawOutput outcome.toJson)]
  | _, _ => False

def Call.Emits (req : MeasurementRequest) (outcome : RunOutcome) (c : Call) : Prop :=
  c.req = req ∧ StageEmits req outcome c.stage c.core

/-- A connection can emit the result for a call whose command ended with the outcome. -/
def Emitted (outcome : RunOutcome) (result : Json) : Prop :=
  ∃ (limiter : MeasurementLimiter) (stats : MeasurementStats) (status : StatusManager)
    (before after : List ConnectionLabel) (p q : Pool Shared Call) (i : ℕ) (c c' : Call),
    run connectionStep (connectionStart limiter stats status) before = some p ∧
      p.tasks[i]? = some c ∧ c.stage = .ended outcome ∧
      run connectionStep p after = some q ∧ q.tasks[i]? = some c' ∧
      .result c.req.testId c.req.measurementId result ∈ c'.trace

theorem step_emits {req : MeasurementRequest} {outcome : RunOutcome} {sh sh' : Shared}
    {c c' : Call} {a : CallStep} (hc : c.Emits req outcome)
    (h : c.step sh a = some (sh', c')) : c'.Emits req outcome := by
  obtain ⟨rfl, hstage⟩ := hc
  refine ⟨step_req h, ?_⟩
  cases Call.step_move h with
  | acquired hs | refused hs | notReady hs | ready hs | acked hs | ackFailed hs | known hs
  | unknown hs | answeredUnknown hs | started hs | sent hs | ended hs =>
    rw [hs] at hstage
    exact hstage.elim
  | finished hs =>
    rw [hs] at hstage
    obtain ⟨rfl, hcore⟩ := hstage
    simp [StageEmits, hcore]
  | answered hs =>
    rw [hs] at hstage
    obtain ⟨rfl, hcore⟩ := hstage
    simp [StageEmits, hcore]
  | @dropped exit hs =>
    rw [hs] at hstage
    cases exit with
    | answered => exact hstage
    | noSlot | notReady | ackFailed | unknownType => exact hstage.elim
  | received => exact hstage
  | forwarded => simpa using hstage

theorem StageEmits.result_mem {req : MeasurementRequest} {outcome : RunOutcome} {s : Stage}
    {t : List CallEvent} (h : StageEmits req outcome s t) {tid mid : Text} {result : Json}
    (hmem : .result tid mid result ∈ t) : result = limitRawOutput outcome.toJson := by
  cases s with
  | created | slotHeld | statusReady | acked | unknownType | starting | running => exact h.elim
  | ended | counted =>
    rw [h.2] at hmem
    simp at hmem
  | leaving exit | returned exit =>
    cases exit with
    | answered =>
      obtain ⟨-, -, hresult⟩ : tid = req.testId ∧ mid = req.measurementId ∧ _ := by
        rw [show t = _ from h] at hmem
        simpa using hmem
      exact hresult
    | noSlot | notReady | ackFailed | unknownType => exact h.elim

/-- One call that is accepted, starts its command and comes to the end of it. -/
def endedLabels (outcome : RunOutcome) : List ConnectionLabel :=
  [.spawn (request ['1'] [("type".toList, .str "http".toList)]), .act 0 .tryAcquire,
    .act 0 .readStatus, .act 0 (.emitAck true), .act 0 .lookupType, .act 0 .recordStart,
    .act 0 (.finish outcome)]

theorem emitted_limited (outcome : RunOutcome) :
    Emitted outcome (limitRawOutput outcome.toJson) :=
  ⟨.new, .new, readyManager, endedLabels outcome, [.act 0 .recordFinish, .act 0 .emitResult],
    _, _, 0, _, _, rfl, rfl, rfl, rfl, rfl, by simp [Call.new, request]⟩

theorem emitted_iff {outcome : RunOutcome} {result : Json} :
    Emitted outcome result ↔ result = limitRawOutput outcome.toJson := by
  constructor
  · rintro ⟨limiter, stats, status, before, after, p, q, i, c, c', hp, hi, hs, hq, hi', hmem⟩
    have hcore := run_tracks hp c (List.mem_of_getElem? hi)
    have hstart : c.Emits c.req outcome := by
      refine ⟨rfl, ?_⟩
      rw [Call.Tracks, hs] at hcore
      rw [hs]
      exact ⟨rfl, hcore.1⟩
    obtain ⟨t, ht, -, hend⟩ := run_getElem (fun _ _ _ _ _ => step_emits) ⟨c, hi, hstart⟩ hq
    obtain rfl : t = c' := Option.some.inj (ht.symm.trans hi')
    exact hend.result_mem (List.mem_filter.mpr ⟨hmem, rfl⟩)
  · rintro rfl
    exact emitted_limited outcome

/-! ## What a raw output without its headers comes to -/

section Inserted
variable {raw front back headers : Text}

/-- A text is not found again in a longer one by cutting it and adding the marker, which has no
colon. -/
theorem truncateOutput_ne_insert (hcolon : ':' ∈ headers) (hfirst : headers.head? ≠ some '\n')
    (hback : back = [] ∨ back.head? = some '\n') :
    truncateOutput (front ++ back) maxRawOutputBytes ≠ front ++ (headers ++ back) := by
  have hmark : ':' ∉ truncationMarker := by decide
  intro heq
  rcases le_or_gt (byteLen (front ++ back)) maxRawOutputBytes with hle | hlt
  · rw [truncateOutput_of_le hle, List.append_cancel_left_eq] at heq
    have hlen := congrArg List.length heq
    rw [List.length_append] at hlen
    have hnil : headers = [] := List.eq_nil_of_length_eq_zero (by omega)
    rw [hnil] at hcolon
    cases hcolon
  · obtain ⟨cut, hcut, htext⟩ := truncateOutput_of_lt hlt
    rw [htext] at heq
    rcases List.append_eq_append_iff.mp heq with ⟨more, rfl, hmarker⟩ | ⟨more, rfl, hrest⟩
    · exact hmark (by rw [hmarker]; simp [hcolon])
    · cases more with
      | nil => exact hmark (by rw [← List.nil_append truncationMarker, ← hrest]; simp [hcolon])
      | cons c more =>
        -- The text is cut behind the place of the headers, so that both go on alike.
        have hpre : c :: more <+: back := by
          rw [← List.prefix_append_right_inj front]
          exact hcut.front
        obtain ⟨tail, rfl⟩ := hpre
        have hc : c = '\n' := by simpa using hback
        obtain ⟨d, headers, rfl⟩ := List.exists_cons_of_ne_nil (List.ne_nil_of_mem hcolon)
        obtain ⟨rfl, -⟩ := List.cons.inj hrest
        exact hfirst (by rw [hc]; rfl)

end Inserted

/-! ## The flag -/

section Flag
variable {response : CurlResponse} {method : Text} {parsed : ParsedHttp}

/-- A result without the flag carries the raw output of the complete response. -/
def FlagTruthful (response : CurlResponse) (method : Text) (result : Json) : Prop :=
  result.get "truncated".toList = some (.bool false) →
    result.get "rawOutput".toList = some (optionToJson (response.completeOutput method))

/-- If both parts are within their own limits, the complete raw output is absent, or the headers in
it could be read and the limit of `dispatch` leaves it as it is. -/
def OutputKept (response : CurlResponse) (method : Text) : Prop :=
  response.PartsFit → ∀ raw, response.completeOutput method = some raw →
    response.HeadersRead ∧ (byteLen raw ≤ maxRawOutputBytes ∨
      ∃ t, byteLen t = maxRawOutputBytes ∧ raw = t ++ truncationMarker)

theorem parsedHttp_truncated (parsed : ParsedHttp) :
    (limitRawOutput parsed.toJson).get "truncated".toList = some (.bool parsed.truncated) := by
  rw [limitRawOutput_get_of_ne (by decide)]
  rfl

theorem parsedHttp_rawOutput (parsed : ParsedHttp) :
    (limitRawOutput parsed.toJson).get "rawOutput".toList = some (optionToJson
      (parsed.rawOutput.map (fun raw => truncateOutput raw maxRawOutputBytes))) := by
  have hget : parsed.toJson.get "rawOutput".toList = some (optionToJson parsed.rawOutput) := rfl
  cases hraw : parsed.rawOutput with
  | none =>
    rw [hraw] at hget
    rw [limitRawOutput_of_null hget, hget]
    rfl
  | some raw =>
    rw [hraw] at hget
    exact limitRawOutput_get_str hget

theorem optionToJson_injective {a b : Option Text} (h : optionToJson a = optionToJson b) :
    a = b := by
  cases a <;> cases b <;> first | rfl | cases h
  rfl

section Finished
variable {srt : SortUnstable} {tables : CaseTables} {resolvedIp : Text} {tls timings : Json}
  {truncateRes : TruncateResult}

/-- Headers that can be read are those of the response. -/
theorem readHeaders_eq (h : response.HeadersRead) :
    rawHeadersStr (parseHeaderFile (readToString response.headersFile)) =
      response.completeHeaders := by
  rcases CurlResponse.readToString_cases response.headersFile with
    ⟨dump, hdump, hread⟩ | ⟨hno, hread⟩
  · rw [hread, CurlResponse.completeHeaders_of_text hdump]
  · have hnone : response.completeHeaders = [] := by
      by_contra hne
      obtain ⟨dump, hdump⟩ := h hne
      exact hno dump hdump
    rw [hread, hnone]
    rfl

/-- With both parts within their limits the raw output has the body whole, and the headers that
could be read. -/
theorem rawOutput_of_partsFit (tables : CaseTables) (method resolvedIp : Text) (tls timings : Json)
    (hfit : response.PartsFit)
    (htruncate : truncateHeaders srt (parseHeaderFile (readToString response.headersFile)) =
      .ok truncateRes) :
    (response.finished tables method resolvedIp tls timings truncateRes).rawOutput =
      buildRawOutput response.shownVersion (some response.responseCode)
        (some (rawHeadersStr (parseHeaderFile (readToString response.headersFile))))
        (if response.completeBody.isEmpty then none else some response.completeBody) method := by
  obtain ⟨rfl, hbody⟩ := response.finished_of_partsFit hfit htruncate
  simp only [CurlResponse.finished, hbody]

/-- Without the flag both parts are complete, so the headers have to be read and the limit of
`dispatch` to leave them. -/
theorem outputKept_of_truthful
    (htruncate : truncateHeaders srt (parseHeaderFile (readToString response.headersFile)) =
      .ok truncateRes)
    (h : FlagTruthful response method (limitRawOutput
      (response.finished tables method resolvedIp tls timings truncateRes).toJson)) :
    OutputKept response method := by
  intro hfit raw hraw
  have houtput := rawOutput_of_partsFit tables method resolvedIp tls timings hfit htruncate
  have hunset : (response.finished tables method resolvedIp tls timings truncateRes).truncated =
      false := by
    obtain ⟨rfl, hbody⟩ := response.finished_of_partsFit hfit htruncate
    simp only [CurlResponse.finished, hbody, Bool.or_self]
  have hshown := h ((parsedHttp_truncated _).trans (by rw [hunset]))
  rw [parsedHttp_rawOutput, houtput, hraw] at hshown
  have hsame := optionToJson_injective (Option.some.inj hshown)
  by_cases hread : response.HeadersRead
  · refine ⟨hread, ?_⟩
    rw [readHeaders_eq hread, show buildRawOutput _ _ _ _ _ = _ from hraw, Option.map_some] at hsame
    exact truncateOutput_eq_self_iff.mp (Option.some.inj hsame)
  · exfalso
    obtain ⟨hne, hno⟩ := Classical.not_imp.mp hread
    have hnone : readToString response.headersFile = [] := by
      rcases CurlResponse.readToString_cases response.headersFile with ⟨dump, hdump, -⟩ | ⟨-, hnone⟩
      · exact absurd ⟨dump, hdump⟩ hno
      · exact hnone
    unfold CurlResponse.completeOutput at hraw
    cases hversion : response.shownVersion with
    | none =>
      rw [hversion] at hraw
      cases hraw
    | some version =>
      obtain ⟨front, back, hback, haround⟩ := buildRawOutput_around version response.responseCode
        (if response.completeBody.isEmpty then none else some response.completeBody) method
      rw [hversion, haround] at hraw hsame
      rw [← Option.some.inj hraw, hnone, Option.map_some] at hsame
      obtain ⟨hcolon, hfirst⟩ := (rawHeadersStr_parsed _).resolve_left hne
      exact truncateOutput_ne_insert hcolon hfirst hback (Option.some.inj hsame)

theorem truthful_of_outputKept
    (htruncate : truncateHeaders srt (parseHeaderFile (readToString response.headersFile)) =
      .ok truncateRes) (h : OutputKept response method) :
    FlagTruthful response method (limitRawOutput
      (response.finished tables method resolvedIp tls timings truncateRes).toJson) := by
  intro hunset
  have hflag : (response.finished tables method resolvedIp tls timings truncateRes).truncated =
      false := Json.bool.inj (Option.some.inj ((parsedHttp_truncated _).symm.trans hunset))
  have hfit := response.partsFit_of_untruncated htruncate hflag
  rw [parsedHttp_rawOutput,
    rawOutput_of_partsFit tables method resolvedIp tls timings hfit htruncate]
  cases hraw : response.completeOutput method with
  | none =>
    have hversion : response.shownVersion = none := by
      cases hversion : response.shownVersion with
      | none => rfl
      | some version =>
        obtain ⟨front, back, -, haround⟩ := buildRawOutput_around version response.responseCode
          (if response.completeBody.isEmpty then none else some response.completeBody) method
        rw [CurlResponse.completeOutput, hversion, haround] at hraw
        cases hraw
    rw [hversion]
    rfl
  | some raw =>
    obtain ⟨hread, hfits⟩ := h hfit raw hraw
    rw [readHeaders_eq hread, show buildRawOutput _ _ _ _ _ = _ from hraw, Option.map_some,
      truncateOutput_eq_self_iff.mpr hfits]

end Finished

/-- The flag of every result emitted for a finished request is truthful exactly when one of the two
parts is over its own limit, or the complete output passes the limit of `dispatch` and its headers
could be read. -/
theorem truncatedFlag_iff (env : HttpSetting) (opts : Command.HttpOptions) (id : Text) :
    (runRequest env opts id).All (fun log out =>
      ∀ parsed, out = some (.ok parsed) → parsed.status = .finished →
        ∃ response, responseOf log env = some response ∧
          ((∀ result, Emitted (.value parsed.toJson) result →
            FlagTruthful response opts.request.method result) ↔
              OutputKept response opts.request.method)) := by
  refine Program.all_iff.mpr (fun log out hrun parsed hout hfinished => ?_)
  subst hout
  obtain ⟨response, ip, tls, timings, truncateRes, hresponse, htruncate, rfl⟩ :=
    runs_runRequest_finished hrun hfinished
  refine ⟨response, hresponse, fun h => ?_, fun h result hresult => ?_⟩
  · exact outputKept_of_truthful htruncate (h _ (emitted_iff.mpr rfl))
  · rw [emitted_iff.mp hresult]
    exact truthful_of_outputKept htruncate h

end Flag

/-! ## A page just within the limit of the body -/

theorem plainHeader_letters (n : ℕ) : plainHeader (['a'], List.replicate n 'x') = true := by
  have hletters : ∀ d ∈ List.replicate n 'x', d = 'x' := fun d => List.eq_of_mem_replicate
  have htrimmed : Trimmed (List.replicate n 'x') :=
    trimmed_of_no_whitespace (fun d hd => by rw [hletters d hd]; rfl)
  have hline : '\n' ∉ List.replicate n 'x' := fun hmem => by cases hletters _ hmem
  have hname : Trimmed ['a'] := by decide
  simp [plainHeader, htrimmed, hname, hline]

theorem byteLen_letters (n : ℕ) : byteLen (List.replicate n 'x') = n := by
  have hone : 'x'.utf8Size = 1 := rfl
  rw [byteLen_replicate, hone, Nat.mul_one]

/-- One header and a body of letters. -/
def letterBlock (n : ℕ) : ResponseBlock :=
  { version := "HTTP/1.1".toList
    code := "200".toList
    reason := "OK".toList
    headers := [(['a'], List.replicate n 'x')]
    version_plain := finalOk.version_plain
    code_digits := finalOk.code_digits
    reason_trimmed := finalOk.reason_trimmed
    reason_line := finalOk.reason_line
    headers_plain := by rw [List.all_cons, plainHeader_letters n]; rfl }

def letterPage (n m : ℕ) : CurlResponse :=
  { httpVersion := "1.1".toList
    responseCode := 200
    remoteIp := "1.1.1.1".toList
    headersFile := encode (headerDump [letterBlock n])
    bodyFile := encode (List.replicate m 'x') }

section LetterPage
variable (n m : ℕ)

theorem letterPage_headers : (letterPage n m).completeHeaders =
    rawHeadersStr [(['a'], List.replicate n 'x')] := by
  rw [CurlResponse.completeHeaders_of_text rfl, parseHeaderFile_dump]
  rfl

theorem fullTotal_letters : fullTotal [(['a'], List.replicate n 'x')] = n + 4 := by
  have hname : byteLen ['a'] = 1 := rfl
  rw [fullTotal, List.map_singleton, List.sum_singleton, pairSize, byteLen_letters, hname]
  omega

theorem letterPage_output : (letterPage n (m + 1)).completeOutput "GET".toList =
    some ("HTTP/".toList ++ "1.1".toList ++ ' ' :: (Nat.repr 200).toList ++
      '\n' :: (letterPage n (m + 1)).completeHeaders ++ "\n\n".toList ++
        List.replicate (m + 1) 'x') := by
  have hbody : (letterPage n (m + 1)).completeBody = List.replicate (m + 1) 'x' :=
    decodeLossy_encode _
  have hsome : (letterPage n (m + 1)).completeBody ≠ [] := by
    rw [hbody]
    exact List.cons_ne_nil _ _
  have hversion : (letterPage n (m + 1)).shownVersion = some "1.1".toList := rfl
  rw [CurlResponse.completeOutput_of_body hversion (by decide) hsome, hbody]
  rfl

variable {n m}

/-- A page over the limit of `dispatch` is cut there: the marker ends in a bracket, the page in
a letter. -/
theorem letterPage_over (hfits : (letterPage n m).PartsFit) (hm : m ≠ 0)
    (hover : maxRawOutputBytes < n + m + 18) : ¬ OutputKept (letterPage n m) "GET".toList := by
  obtain ⟨m, rfl⟩ := Nat.exists_eq_succ_of_ne_zero hm
  intro hkept
  rcases (hkept hfits _ (letterPage_output n m)).2 with hle | ⟨t, -, hmarker⟩
  · have hfirst : byteLen "HTTP/".toList = 5 ∧ byteLen "1.1".toList = 3 ∧
        byteLen (' ' :: (Nat.repr 200).toList) = 4 := ⟨rfl, rfl, rfl⟩
    have hgap : byteLen "\n\n".toList = 2 ∧ '\n'.utf8Size = 1 := ⟨rfl, rfl⟩
    simp only [byteLen_append, hfirst, hgap] at hle
    rw [byteLen_cons, byteLen_letters, letterPage_headers, byteLen_rawHeadersStr,
      fullTotal_letters, hgap.2] at hle
    omega
  · have hbracket : (t ++ truncationMarker).getLast? = some ']' := by
      have hlast : truncationMarker.getLast? = some ']' := by decide
      rw [List.getLast?_append, hlast]
      rfl
    rw [← hmarker, List.replicate_succ', ← List.append_assoc, List.getLast?_concat] at hbracket
    exact absurd hbracket (by decide)

theorem letterPage_fits (hn : n + 3 ≤ headersSizeLimit) (hm : m ≤ bodyLimit) :
    (letterPage n m).PartsFit := by
  refine ⟨fun dump hdump => ?_, ?_⟩
  · rw [← CurlResponse.completeHeaders_of_text hdump, letterPage_headers, byteLen_rawHeadersStr,
      fullTotal_letters]
    omega
  · exact ((length_encode _).trans (byteLen_letters m)).le.trans hm

theorem letterPage_truncateHeaders (hn : n + 3 ≤ headersSizeLimit) :
    truncateHeaders pageSetting.srt
        (parseHeaderFile (readToString (letterPage n m).headersFile)) =
      .ok ⟨false, [(['a'], List.replicate n 'x')]⟩ := by
  have hread : readToString (letterPage n m).headersFile = headerDump [letterBlock n] :=
    readToString_encode _
  rw [hread, parseHeaderFile_dump]
  apply untruncated_of_fits
  rw [List.flatMap_nil, List.append_nil]
  exact (fullTotal_letters n).le.trans (Nat.succ_le_succ hn)

variable (n m)

/-- The request for the page, with the answer of curl and without a call of openssl. -/
def letterLog : List (Asked HttpAsk.Answer) :=
  curlLog (pageOptions.curlArgs CaseTable.ascii "1.1.1.1".toList ['1']) ['1'] pageWriteOut []
    (letterPage n m).headersFile (letterPage n m).bodyFile

theorem letterLog_response : responseOf (letterLog n m) pageSetting = some (letterPage n m) := by
  have h : responseOf ([] ++ letterLog n m ++ []) pageSetting = some (letterPage n m) :=
    responseOf_log (List.forall_mem_nil _) pageWriteOut_reported
  rwa [List.nil_append, List.append_nil] at h

variable {n m}

theorem letterLog_runs (hn : n + 3 ≤ headersSizeLimit) :
    ∃ parsed, parsed.status = .finished ∧
      (runRequest pageSetting pageOptions ['1']).Runs (letterLog n m) (some (.ok parsed)) := by
  have hvalid : pageOptions.validate pageSetting.tables.toCaseTable pageSetting.localIps =
      .ok () := rfl
  have hresolved : resolveTarget pageSetting.localIps pageOptions =
      .done (.ok ("1.1.1.1".toList, none)) := if_pos (by decide)
  have hcode : ¬ pageReport.responseCode = 0 := by decide
  have hpublic : ¬ (Net.parseIpAddr (pageReport.finalResolvedIp "1.1.1.1".toList)).any
      (isIpPrivate pageSetting.localIps) = true := by decide
  have htls : tlsOf pageSetting pageOptions pageReport
      (pageReport.finalResolvedIp "1.1.1.1".toList) [] = .done .null := rfl
  have hfinish : ∃ parsed, parsed.status = .finished ∧
      finishHttp pageSetting pageOptions "1.1.1.1".toList none (letterPage n m).headersFile
        (letterPage n m).bodyFile pageWriteOut [] = .done (.ok parsed) := by
    unfold finishHttp
    simp only [pageWriteOut_reported, if_neg hcode]
    rw [if_neg hpublic, letterPage_truncateHeaders hn, htls]
    exact ⟨_, rfl, rfl⟩
  obtain ⟨parsed, hfinished, hdone⟩ := hfinish
  refine ⟨parsed, hfinished, ?_⟩
  have hlast : (finishHttp pageSetting pageOptions "1.1.1.1".toList none
      (letterPage n m).headersFile (letterPage n m).bodyFile pageWriteOut []).Runs []
        (some (.ok parsed)) := by
    rw [hdone]
    exact .done _
  unfold runRequest letterLog curlLog
  simp only [hvalid, hresolved, Program.bind]
  refine .answered (A := HttpAsk.Answer) (e := .curl _) (Captured.output pageWriteOut []) ?_
  refine .answered (A := HttpAsk.Answer) (e := .readText _) (letterPage n m).headersFile ?_
  refine .answered (A := HttpAsk.Answer) (e := .readBytes _) (letterPage n m).bodyFile ?_
  refine .answered (A := HttpAsk.Answer) (e := .remove _) () ?_
  exact .answered (A := HttpAsk.Answer) (e := .remove _) () hlast

end LetterPage

/-- The page is cut by `dispatch` and its flag says that it is not. -/
theorem letterPage_not_truthful :
    ¬ (runRequest pageSetting pageOptions ['1']).All (fun log out =>
      ∀ parsed, out = some (.ok parsed) → parsed.status = .finished →
        ∃ response, responseOf log pageSetting = some response ∧
          ∀ result, Emitted (.value parsed.toJson) result →
            FlagTruthful response pageOptions.request.method result) := by
  intro h
  have hn : 300 + 3 ≤ headersSizeLimit := by decide
  obtain ⟨parsed, hfinished, hrun⟩ := letterLog_runs (n := 300) (m := 10000) hn
  obtain ⟨response, hresponse, htruthful⟩ :=
    Program.all_iff.mp h _ _ hrun parsed rfl hfinished
  obtain rfl : letterPage 300 10000 = response :=
    Option.some.inj ((letterLog_response 300 10000).symm.trans hresponse)
  obtain ⟨response, ip, tls, timings, truncateRes, hanswer, htruncate, rfl⟩ :=
    runs_runRequest_finished hrun hfinished
  obtain rfl : letterPage 300 10000 = response :=
    Option.some.inj (hresponse.symm.trans hanswer)
  exact letterPage_over (letterPage_fits hn (by decide)) (by decide) (by decide)
    (outputKept_of_truthful htruncate (htruthful _ (emitted_iff.mpr rfl)))

end GlobalpingProbe.Probe
