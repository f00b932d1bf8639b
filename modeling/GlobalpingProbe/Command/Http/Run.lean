import GlobalpingProbe.Command.Http.Certificate
import GlobalpingProbe.Command.Http.Endpoint
import GlobalpingProbe.Command.Http.RawOutput
import GlobalpingProbe.Command.Http.Timings
import GlobalpingProbe.Foundation.Interaction

/-! # A whole request

`run_http` with everything that it asks of the system: up to four child processes and two files.
What each process is told, and what becomes of the files, does not depend on good answers: dig,
curl and openssl may say whatever they like, and the request may be dropped while it waits.
-/
namespace GlobalpingProbe.Command.Http
open Foundation Mtr Net
open Traceroute (optionToJson)

/-- How a process ended whose output was collected under a time limit. -/
inductive Captured where
  | output (stdout stderr : Text)
  | failed (e : Text)
  | elapsed

/-- `openssl` is fed a text; its failures all look alike. -/
inductive HttpAsk where
  | dig (args : List Text)
  | curl (args : List Text)
  | readText (path : Text)
  | readBytes (path : Text)
  | remove (path : Text)
  | openssl (args : List Text) (stdin : Text)

/-- dig is timed. A file that is not there has nothing in it. -/
def HttpAsk.Answer : HttpAsk → Type
  | dig _ => Captured × ℕ
  | curl _ => Captured
  | readText _ => List ℕ
  | readBytes _ => List ℕ
  | remove _ => Unit
  | openssl _ _ => Option Text

abbrev HttpProgram (R : Type) := Program HttpAsk.Answer R

/-- The report of curl in full. -/
structure CurlReport extends CurlStats, CurlTimes where
  httpVersion : Text
  sslVerifyResult : ℕ

/-- The address that curl was connected to. -/
def CurlReport.finalResolvedIp (report : CurlReport) (resolvedIp : Text) : Text :=
  if report.remoteIp.isEmpty then resolvedIp else report.remoteIp

/-- What a request takes from elsewhere, besides the system. -/
structure HttpSetting where
  tables : CaseTables
  localIps : List IpAddr
  srt : SortUnstable
  chrono : DateParser
  curlReport : Text → Option CurlReport

inductive HttpError where
  | failed (message : Text)
  | panic (p : Panic)

/-! ## The result as JSON -/

def numToJson (n : Option ℕ) : Json := (n.map (fun n => Json.num n)).getD .null

/-- A member that is left out where there is nothing to say. -/
def member? (key : Text) (value : Option Text) : List (Text × Json) :=
  (value.map (fun s => (key, Json.str s))).toList

def TlsInfo.toJson (tls : TlsInfo) : Json :=
  .obj [("authorized".toList, .bool tls.authorized), ("protocol".toList, optionToJson tls.protocol),
    ("cipherName".toList, optionToJson tls.cipherName),
    ("createdAt".toList, optionToJson tls.createdAt),
    ("expiresAt".toList, optionToJson tls.expiresAt),
    ("subject".toList, .obj (member? "CN".toList tls.subject.cn ++
      member? "alt".toList tls.subject.alt)),
    ("issuer".toList, .obj (member? "CN".toList tls.issuer.cn ++
      (member? "O".toList tls.issuer.o ++ member? "C".toList tls.issuer.c))),
    ("keyType".toList, optionToJson tls.keyType), ("keyBits".toList, numToJson tls.keyBits),
    ("serialNumber".toList, optionToJson tls.serialNumber),
    ("fingerprint256".toList, optionToJson tls.fingerprint256),
    ("publicKey".toList, optionToJson tls.publicKey)]

def HttpTimings.toJson (timings : HttpTimings) : Json :=
  .obj [("total".toList, numToJson timings.total), ("dns".toList, numToJson timings.dns),
    ("tcp".toList, numToJson timings.tcp), ("tls".toList, numToJson timings.tls),
    ("firstByte".toList, numToJson timings.firstByte),
    ("download".toList, numToJson timings.download)]

def noTimings : HttpTimings := ⟨none, none, none, none, none, none⟩

def failedResult (message : Text) : ParsedHttp where
  status := .failed
  statusCode := none
  statusCodeName := none
  resolvedAddress := none
  httpVersion := none
  headers := []
  rawHeaders := none
  rawBody := none
  truncated := false
  tls := .null
  timings := noTimings.toJson
  rawOutput := some message

/-! ## The errors in the verbose output of curl -/

/-- `trim_start_matches("* ")`. -/
def trimStars : Text → Text
  | '*' :: ' ' :: s => trimStars s
  | s => s

def shownError (line : Option Text) : Text :=
  (line.map (fun l => trim (trimStars l))).getD "HTTP request failed".toList

/-- Without a report, the first line that looks like an error. -/
def firstError (verbose : Text) : Text :=
  shownError ((lines verbose).find? (fun l =>
    containsText "curl:".toList l || containsText "error".toList l || "* ".toList.isPrefixOf l))

/-- Without a response, the last one. -/
def lastError (verbose : Text) : Text :=
  shownError ((lines verbose).filter (fun l =>
    "* ".toList.isPrefixOf l || containsText "error".toList l)).getLast?

/-! ## The parts of the run -/

def headersPath (id : Text) : Text := "/tmp/gp_hdr_".toList ++ id ++ ".txt".toList

def bodyPath (id : Text) : Text := "/tmp/gp_body_".toList ++ id ++ ".txt".toList

def connectAddr (ip : Text) (port : UInt16) : Text := bracketHost ip ++ ':' :: decimal port.toNat

/-- The arguments of `openssl s_client` in `enrich_tls`: an address is not sent as a name. -/
def clientArgs (ip : Text) (port : UInt16) (servername : Text) : List Text :=
  ["s_client".toList, "-connect".toList, connectAddr ip port] ++
    if (parseIpAddr servername).isSome then ["-noservername".toList]
    else ["-servername".toList, servername]

def resolveTarget (localIps : List IpAddr) (opts : HttpOptions) :
    HttpProgram (Except Text (Text × Option ℕ)) :=
  if (parseIpAddr opts.target).isSome then .done (.ok (opts.target, none))
  else .ask (.dig (digArgs opts.target opts.resolver opts.ipVersion)) fun (answer : Captured × ℕ) =>
    match answer with
    | (.elapsed, _) => .done (.error ("DNS resolution timed out for ".toList ++ opts.target))
    | (.failed e, _) => .done (.error e)
    | (.output stdout _, dnsMs) =>
      match resolvedIp stdout with
      | none =>
        .done (.error ("DNS resolution returned no results for ".toList ++ opts.target))
      | some ip =>
        if (parseIpAddr ip).any (isIpPrivate localIps) then
          .done (.error "Private IP ranges are not allowed".toList)
        else .done (.ok (ip, some dnsMs))

def x509Args : List Text :=
  ["x509".toList, "-noout".toList, "-fingerprint".toList, "-sha256".toList, "-serial".toList,
    "-text".toList]

/-- The verdict of `s_client` is in the first line that has one. -/
def readVerdict (tls : TlsInfo) (fullText : Text) : TlsInfo :=
  match (lines fullText).find? (containsText "Verify return code:".toList) with
  | some line => { tls with authorized := containsText "Verify return code: 0 (ok)".toList line }
  | none => tls

def enrichTls (table : CaseTable) (tls : TlsInfo) (ip : Text) (port : UInt16)
    (servername : Text) : HttpProgram TlsInfo :=
  .ask (.openssl (clientArgs ip port servername) ['\n']) fun (answer : Option Text) =>
    match answer with
    | none => .done tls
    | some fullText =>
      match extractPem fullText with
      | none => .done (readVerdict tls fullText)
      | some pem => .ask (.openssl x509Args pem) fun (answer : Option Text) =>
        match answer with
        | none => .done (readVerdict tls fullText)
        | some text => .done (readCertificate table (readVerdict tls fullText) text)

section Run
variable (env : HttpSetting) (opts : HttpOptions)

/-- Without TLS there is nothing to tell about it. -/
def tlsOf (report : CurlReport) (ip verbose : Text) : HttpProgram Json :=
  match if isHttps env.tables.toCaseTable opts then
      parseTlsVerbose env.chrono verbose report.sslVerifyResult else none with
  | none => .done .null
  | some tls =>
    (enrichTls env.tables.toCaseTable tls ip (opts.effectivePort env.tables.toCaseTable)
      (opts.request.host.getD opts.target)).bind (fun tls => .done tls.toJson)

/-- What follows when curl has ended and its files are read. -/
def finishHttp (resolvedIp : Text) (dnsMs : Option ℕ) (headersFile bodyFile : List ℕ)
    (stdout verbose : Text) : HttpProgram (Except HttpError ParsedHttp) :=
  match env.curlReport (trim stdout) with
  | none => .done (.ok (failedResult (firstError verbose)))
  | some report =>
    if report.responseCode = 0 then .done (.ok (failedResult (lastError verbose)))
    else if (parseIpAddr (report.finalResolvedIp resolvedIp)).any (isIpPrivate env.localIps) then
      .done (.ok (failedResult "Private IP ranges are not allowed.".toList))
    else
      match truncateHeaders env.srt (parseHeaderFile (readToString headersFile)) with
      | .error p => .done (.error (.panic p))
      | .ok truncateRes =>
        (tlsOf env opts report (report.finalResolvedIp resolvedIp) verbose).bind fun tls =>
          let response : CurlResponse :=
            { httpVersion := report.httpVersion
              responseCode := report.responseCode
              remoteIp := report.remoteIp
              headersFile := headersFile
              bodyFile := bodyFile }
          let timings := httpTimings env.tables.toCaseTable opts dnsMs report.toCurlTimes
          .done (.ok (response.finished env.tables opts.request.method resolvedIp tls
            timings.toJson truncateRes))

/-- The files are removed before anything is made of the output of curl. -/
def removeFiles {R : Type} (id : Text) (next : HttpProgram R) : HttpProgram R :=
  .ask (.remove (headersPath id)) fun _ => .ask (.remove (bodyPath id)) fun _ => next

/-- `run_http`; the files are named by a fresh id. -/
def runRequest (id : Text) : HttpProgram (Except HttpError ParsedHttp) :=
  match opts.validate env.tables.toCaseTable env.localIps with
  | .error e => .done (.error (.failed e))
  | .ok () => (resolveTarget env.localIps opts).bind fun resolved =>
    match resolved with
    | .error e => .done (.error (.failed e))
    | .ok (resolvedIp, dnsMs) =>
      .ask (.curl (opts.curlArgs env.tables.toCaseTable resolvedIp id)) fun (answer : Captured) =>
        match answer with
        | .failed e =>
          removeFiles id (.done (.error (.failed ("curl failed to spawn: ".toList ++ e))))
        | .elapsed => removeFiles id (.done (.error (.failed "curl timed out".toList)))
        | .output stdout verbose =>
          .ask (.readText (headersPath id)) fun headersFile =>
            .ask (.readBytes (bodyPath id)) fun bodyFile =>
              removeFiles id (finishHttp env opts resolvedIp dnsMs headersFile bodyFile stdout
                verbose)

end Run
end GlobalpingProbe.Command.Http
