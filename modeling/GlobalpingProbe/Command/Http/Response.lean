import GlobalpingProbe.Command.Http.Guarded
import GlobalpingProbe.Foundation.Join

/-! # The response that a request was answered with

A request that ends with a finished result was answered by curl with a report, and by the two
files with bytes. All three are in its log, and the result is what is made of them.
-/
namespace GlobalpingProbe.Command.Http
open Foundation

def Captured.stdout? : Captured → Option Text
  | output stdout _ => some stdout
  | failed _ | elapsed => none

section Log
variable (log : List (Asked HttpAsk.Answer))

/-- What curl wrote to its standard output, in the log of a request. -/
def curlStdout : Option Text :=
  log.findSome? (fun x => match x with
    | ⟨.curl _, some answer⟩ => Captured.stdout? answer
    | _ => none)

def headersFileIn : Option (List ℕ) :=
  log.findSome? (fun x => match x with
    | ⟨.readText _, answer⟩ => answer
    | _ => none)

def bodyFileIn : Option (List ℕ) :=
  log.findSome? (fun x => match x with
    | ⟨.readBytes _, answer⟩ => answer
    | _ => none)

/-- The response that the report of curl and the two files tell of. -/
def responseOf (env : HttpSetting) : Option CurlResponse := do
  let stdout ← curlStdout log
  let report ← env.curlReport (trim stdout)
  let headersFile ← headersFileIn log
  let bodyFile ← bodyFileIn log
  return ⟨report.httpVersion, report.responseCode, report.remoteIp, headersFile, bodyFile⟩

end Log

section Finished
variable {env : HttpSetting} {opts : HttpOptions} {id : Text} {parsed : ParsedHttp}
  {log : List (Asked HttpAsk.Answer)}

/-- What curl has done before anything is made of it. -/
def curlLog (args : List Text) (id stdout verbose : Text) (headersFile bodyFile : List ℕ) :
    List (Asked HttpAsk.Answer) :=
  [⟨.curl args, some (.output stdout verbose)⟩, ⟨.readText (headersPath id), some headersFile⟩,
    ⟨.readBytes (bodyPath id), some bodyFile⟩, ⟨.remove (headersPath id), some ()⟩,
    ⟨.remove (bodyPath id), some ()⟩]

/-- A run with a result went past curl. -/
theorem runs_runRequest_ok (h : (runRequest env opts id).Runs log (some (.ok parsed))) :
    ∃ (front later : List (Asked HttpAsk.Answer)) (args : List Text) (ip : Text)
      (dnsMs : Option ℕ) (stdout verbose : Text) (headersFile bodyFile : List ℕ),
      log = front ++ curlLog args id stdout verbose headersFile bodyFile ++ later ∧
      (∀ x ∈ front, x.ask.kind = .dig) ∧
      (finishHttp env opts ip dnsMs headersFile bodyFile stdout verbose).Runs later
        (some (.ok parsed)) := by
  unfold runRequest at h
  split at h
  · cases h
  · obtain ⟨front, rest, resolved, hresolve, hrest, rfl⟩ := Program.runs_bind h
    have hfront : ∀ x ∈ front, x.ask.kind = .dig := by
      intro x hx
      have horder := Program.all_iff.mp (resolveTarget_inOrder env.localIps opts) _ _ hresolve
      simpa using horder.subset (List.mem_map_of_mem hx)
    obtain e | ⟨ip, dnsMs⟩ := resolved
    · cases hrest
    · cases hrest with | answered answer hrest =>
      obtain ⟨stdout, verbose⟩ | e | _ := answer
      · cases hrest with | answered headersFile hrest =>
        cases hrest with | answered bodyFile hrest =>
        cases hrest with | answered _ hrest =>
        cases hrest with | @answered _ _ later _ _ hrest =>
        refine ⟨front, later, opts.curlArgs env.tables.toCaseTable ip id, ip, dnsMs, stdout,
          verbose, headersFile, bodyFile, ?_, hfront, hrest⟩
        rw [List.append_assoc]
        rfl
      · cases hrest with | answered _ hrest =>
        cases hrest with | answered _ hrest =>
        cases hrest
      · cases hrest with | answered _ hrest =>
        cases hrest with | answered _ hrest =>
        cases hrest

/-- Only the last way out of a request gives a finished result. -/
theorem runs_finishHttp_finished {ip stdout verbose : Text} {dnsMs : Option ℕ}
    {headersFile bodyFile : List ℕ}
    (h : (finishHttp env opts ip dnsMs headersFile bodyFile stdout verbose).Runs log
      (some (.ok parsed))) (hfinished : parsed.status = .finished) :
    ∃ report tls timings truncateRes, env.curlReport (trim stdout) = some report ∧
      truncateHeaders env.srt (parseHeaderFile (readToString headersFile)) = .ok truncateRes ∧
      parsed = CurlResponse.finished env.tables opts.request.method ip
        ⟨report.httpVersion, report.responseCode, report.remoteIp, headersFile, bodyFile⟩
        tls timings truncateRes := by
  unfold finishHttp at h
  split at h
  · cases h
    cases hfinished
  · next report hreport =>
    split_ifs at h
    · cases h
      cases hfinished
    · cases h
      cases hfinished
    · split at h
      · cases h
      · next truncateRes htruncate =>
        obtain ⟨l, l', tls, -, hlast, rfl⟩ := Program.runs_bind h
        cases hlast
        exact ⟨report, tls, _, truncateRes, hreport, htruncate, rfl⟩

/-- What dig was asked tells nothing of the response. -/
theorem responseOf_log {front later : List (Asked HttpAsk.Answer)} {args : List Text}
    {stdout verbose : Text} {headersFile bodyFile : List ℕ} {report : CurlReport}
    (hfront : ∀ x ∈ front, x.ask.kind = .dig)
    (hreport : env.curlReport (trim stdout) = some report) :
    responseOf (front ++ curlLog args id stdout verbose headersFile bodyFile ++ later) env =
      some ⟨report.httpVersion, report.responseCode, report.remoteIp, headersFile, bodyFile⟩ := by
  have hdig : ∀ x ∈ front, ∃ args answer, x = ⟨.dig args, answer⟩ := by
    rintro ⟨e, answer⟩ hx
    cases e with
    | dig args => exact ⟨args, answer, rfl⟩
    | curl | readText | readBytes | remove | openssl => exact nomatch hfront _ hx
  have hskip : ∀ {α : Type} (f : Asked HttpAsk.Answer → Option α),
      (∀ args answer, f ⟨.dig args, answer⟩ = none) → front.findSome? f = none := by
    intro α f hf
    rw [List.findSome?_eq_none_iff]
    intro x hx
    obtain ⟨args, answer, rfl⟩ := hdig x hx
    exact hf args answer
  have hstdout :
      curlStdout (front ++ curlLog args id stdout verbose headersFile bodyFile ++ later) =
        some stdout := by
    rw [curlStdout, List.append_assoc, List.findSome?_append, hskip _ (fun _ _ => rfl)]
    rfl
  have hheaders : headersFileIn
      (front ++ curlLog args id stdout verbose headersFile bodyFile ++ later) =
        some headersFile := by
    rw [headersFileIn, List.append_assoc, List.findSome?_append, hskip _ (fun _ _ => rfl)]
    rfl
  have hbody : bodyFileIn (front ++ curlLog args id stdout verbose headersFile bodyFile ++ later) =
      some bodyFile := by
    rw [bodyFileIn, List.append_assoc, List.findSome?_append, hskip _ (fun _ _ => rfl)]
    rfl
  simp only [responseOf, hstdout, hheaders, hbody, Option.bind_eq_bind, Option.bind_some, hreport]
  rfl

/-- A finished result is made of the response in the log, with its headers as far as they are
kept. -/
theorem runs_runRequest_finished (h : (runRequest env opts id).Runs log (some (.ok parsed)))
    (hfinished : parsed.status = .finished) :
    ∃ response ip tls timings truncateRes, responseOf log env = some response ∧
      truncateHeaders env.srt (parseHeaderFile (readToString response.headersFile)) =
        .ok truncateRes ∧
      parsed = response.finished env.tables opts.request.method ip tls timings truncateRes := by
  obtain ⟨front, later, args, ip, dnsMs, stdout, verbose, headersFile, bodyFile, rfl, hfront,
    hlater⟩ := runs_runRequest_ok h
  obtain ⟨report, tls, timings, truncateRes, hreport, htruncate, rfl⟩ :=
    runs_finishHttp_finished hlater hfinished
  exact ⟨_, ip, tls, timings, truncateRes, responseOf_log hfront hreport, htruncate, rfl⟩

end Finished
end GlobalpingProbe.Command.Http
