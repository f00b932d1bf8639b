import GlobalpingProbe.Command.Http.HeaderGroups
import GlobalpingProbe.Foundation.Search
import GlobalpingProbe.Foundation.Words

/-! # A response that is reported whole

A response whose headers and body are within their limits comes out of `run_http` as it was
sent. Its raw output is one text, from which version, code, headers and body can be read again.
-/
namespace GlobalpingProbe.Command.Http
open Foundation Foundation.Utf8

/-- A response within the limits, as curl writes it down. -/
structure Exchange where
  version : Text
  code : ℕ
  block : ResponseBlock
  body : List ℕ
  remoteIp : Text
  version_ne : version ≠ []
  version_word : version.all (fun c => !isWhitespace c) = true
  code_fits : code < 2 ^ 16
  headers_fit : byteLen (rawHeadersStr block.headers) ≤ headersSizeLimit

def Exchange.response (x : Exchange) : CurlResponse :=
  ⟨x.version, x.code, x.remoteIp, encode (headerDump [x.block]), x.body⟩

/-- The front of the body as a text. -/
def Exchange.bodyText (x : Exchange) : Text := decodeLossy (x.body.take bodyLimit)

/-- The one version that is written in another way. -/
def Exchange.versionText (x : Exchange) : Text :=
  if x.version = "2.0".toList then "2".toList else x.version

/-- What a reader makes of a raw output. -/
structure ShownResponse where
  version : Text
  code : ℕ
  headers : List Header
  body : Text

def readHeader (line : Text) : Header :=
  (line.takeWhile (· ≠ ':'), (line.dropWhile (· ≠ ':')).drop 2)

/-- The headers end at a blank line; where there are none, their place is blank as well. -/
def readRawOutput (output : Text) : Option ShownResponse :=
  match output.splitOn '\n' with
  | [] => none
  | first :: rest =>
    let status := first.drop "HTTP/".toList.length
    let headers := rest.takeWhile (fun line => !line.isEmpty)
    let body := rest.drop (headers.length + if headers.isEmpty then 2 else 1)
    (parseUnsigned 16 (status.dropWhile (· ≠ ' ')).tail).map (fun code =>
      ⟨status.takeWhile (· ≠ ' '), code, headers.map readHeader, joinLines body⟩)

def shownBody (method body : Text) : Text := if method = "HEAD".toList then [] else body

/-- The result says everything about the response; of a long body it has the front, and says so. -/
structure Reports (tables : CaseTables) (method : Text) (x : Exchange) (parsed : ParsedHttp) :
    Prop where
  status : parsed.status = .finished
  code : parsed.statusCode = some x.code
  reason : parsed.statusCodeName = some x.block.reason
  version : parsed.httpVersion = some x.versionText
  headers : ∀ name, parsed.headers.lookup name = grouped (valuesOf tables x.block.headers name)
  rawHeaders : (parsed.rawHeaders.map (·.splitOn '\n')).getD [] = x.block.headers.map headerLine
  body : parsed.rawBody.getD [] = x.bodyText
  truncated : parsed.truncated = decide (bodyLimit < x.body.length)
  text : ∀ t, x.body = encode t → byteLen t ≤ bodyLimit → parsed.rawBody.getD [] = t
  shown : parsed.rawOutput.bind readRawOutput =
    some ⟨x.versionText, x.code, x.block.headers, shownBody method x.bodyText⟩

section RawOutput
variable {version : Text} {code : ℕ} {headers : List Header} {body : Text}

/-- The lines that the headers take up: without any, a blank one. -/
def headerLines (headers : List Header) : List Text :=
  if headers.isEmpty then [[]] else headers.map headerLine

/-- The lines behind the headers. -/
def bodyLines (body : Text) : List Text := if body.isEmpty then [] else [] :: body.splitOn '\n'

def statusOf (version : Text) (code : ℕ) : Text :=
  "HTTP/".toList ++ (version ++ ' ' :: Nat.toDigits 10 code)

theorem joinLines_headerLines : joinLines (headerLines headers) = rawHeadersStr headers := by
  unfold headerLines
  cases headers <;> rfl

theorem joinLines_cons {l : Text} {ls : List Text} (h : ls ≠ []) :
    joinLines (l :: ls) = l ++ '\n' :: joinLines ls := by
  rw [joinLines, List.intercalate_cons_of_ne_nil h, List.append_assoc, List.singleton_append]
  rfl

theorem joinLines_append {ls later : List Text} (hls : ls ≠ []) (hlater : later ≠ []) :
    joinLines (ls ++ later) = joinLines ls ++ '\n' :: joinLines later := by
  induction ls with
  | nil => exact absurd rfl hls
  | cons l ls ih =>
    by_cases hnil : ls = []
    · subst hnil
      rw [List.singleton_append, joinLines_cons hlater, joinLines, joinLines,
        List.intercalate_singleton]
    · rw [List.cons_append, joinLines_cons (List.append_ne_nil_of_left_ne_nil hnil _), ih hnil,
        joinLines_cons hnil, List.append_assoc, List.cons_append]

theorem headerLines_ne_nil : headerLines headers ≠ [] := by
  unfold headerLines
  cases headers <;> exact List.cons_ne_nil _ _

theorem joinLines_splitOn (s : Text) : joinLines (s.splitOn '\n') = s :=
  List.intercalate_splitOn '\n'

/-- The lines of the raw output: the status, the headers and, behind a blank line, the body. -/
theorem buildRawOutput_eq (method : Text) :
    buildRawOutput (some version) (some code) (some (rawHeadersStr headers))
        (if body.isEmpty then none else some body) method =
      some (joinLines (statusOf version code :: (headerLines headers ++
        bodyLines (shownBody method body)))) := by
  have hbase : "HTTP/".toList ++ version ++ ' ' :: (Nat.repr code).toList ++
      '\n' :: rawHeadersStr headers = statusOf version code ++ '\n' :: rawHeadersStr headers := by
    simp [statusOf, Nat.repr]
  rw [joinLines_cons (List.append_ne_nil_of_left_ne_nil headerLines_ne_nil _)]
  by_cases hshown : method = "HEAD".toList ∨ body = []
  · have hlines : bodyLines (shownBody method body) = [] := by
      rcases hshown with rfl | rfl
      · rw [shownBody, if_pos rfl]
        rfl
      · rw [shownBody, ite_self]
        rfl
    have hbare : method = "HEAD".toList ∨
        ((if body.isEmpty then none else some body).all (fun b => b.isEmpty)) = true := by
      rcases hshown with hhead | rfl
      · exact .inl hhead
      · exact .inr rfl
    rw [hlines, List.append_nil, joinLines_headerLines, ← hbase]
    exact if_pos hbare
  · obtain ⟨hmethod, hbody⟩ := not_or.mp hshown
    have hnonempty : body.isEmpty = false := List.isEmpty_eq_false_iff.mpr hbody
    have hfull : ¬ (method = "HEAD".toList ∨
        ((some body).all (fun b => b.isEmpty)) = true) := by
      rw [Option.all_some, hnonempty]
      exact not_or.mpr ⟨hmethod, Bool.false_ne_true⟩
    rw [shownBody, if_neg hmethod, bodyLines, hnonempty, if_neg Bool.false_ne_true,
      if_neg Bool.false_ne_true, joinLines_append headerLines_ne_nil (List.cons_ne_nil _ _),
      joinLines_cons (List.splitOn_ne_nil _ _), joinLines_splitOn, joinLines_headerLines]
    refine (if_neg hfull).trans ?_
    rw [← List.cons_append, ← List.append_assoc, ← hbase]
    simp

theorem readHeader_headerLine {h : Header} (hp : plainHeader h = true) :
    readHeader (headerLine h) = h := by
  have hcolon := (plainHeader_spec hp).2.2.1
  have hline : headerLine h = h.1 ++ ':' :: ' ' :: h.2 := by simp [headerLine]
  rw [readHeader, hline, takeWhile_ne _ _ _ hcolon, dropWhile_ne _ _ _ hcolon]
  rfl

theorem headerLine_isEmpty (h : Header) : (headerLine h).isEmpty = false := by
  simp [headerLine]

theorem takeWhile_headerLines (later : List Text) :
    (headers.map headerLine ++ [] :: later).takeWhile (fun line => !line.isEmpty) =
      headers.map headerLine := by
  rw [List.takeWhile_append_of_pos, List.takeWhile_cons_of_neg (by simp), List.append_nil]
  intro line hline
  obtain ⟨h, -, rfl⟩ := List.mem_map.mp hline
  rw [headerLine_isEmpty]
  rfl

theorem takeWhile_headerLines_end :
    (headers.map headerLine).takeWhile (fun line => !line.isEmpty) = headers.map headerLine := by
  refine List.takeWhile_eq_self_iff.mpr (fun line hline => ?_)
  obtain ⟨h, -, rfl⟩ := List.mem_map.mp hline
  rw [headerLine_isEmpty]
  rfl

theorem bodyLines_of_ne_nil (h : body ≠ []) : bodyLines body = [] :: body.splitOn '\n' := by
  rw [bodyLines, List.isEmpty_eq_false_iff.mpr h, if_neg Bool.false_ne_true]

/-- The header lines end where they should, and what is left is the body. -/
theorem cut_headerLines (headers : List Header) (body : Text) :
    (headerLines headers ++ bodyLines body).takeWhile (fun line => !line.isEmpty) =
        headers.map headerLine ∧
      joinLines ((headerLines headers ++ bodyLines body).drop ((headers.map headerLine).length +
        if (headers.map headerLine).isEmpty then 2 else 1)) = body := by
  by_cases hbody : body = []
  · subst hbody
    have hlines : bodyLines [] = [] := rfl
    rw [hlines, List.append_nil]
    cases headers with
    | nil => exact ⟨rfl, rfl⟩
    | cons h headers =>
      refine ⟨takeWhile_headerLines_end, ?_⟩
      rw [headerLines, List.isEmpty_cons, if_neg Bool.false_ne_true, List.map_cons,
        List.isEmpty_cons, if_neg Bool.false_ne_true,
        List.drop_eq_nil_of_le (Nat.le_succ _)]
      rfl
  · rw [bodyLines_of_ne_nil hbody]
    cases headers with
    | nil => exact ⟨rfl, joinLines_splitOn body⟩
    | cons h headers =>
      rw [headerLines, List.isEmpty_cons, if_neg Bool.false_ne_true]
      refine ⟨takeWhile_headerLines _, ?_⟩
      rw [List.map_cons, List.isEmpty_cons, if_neg Bool.false_ne_true, List.drop_append,
        List.drop_eq_nil_of_le (Nat.le_succ _), Nat.add_sub_cancel_left]
      exact joinLines_splitOn body

theorem newline_notMem_lines (hheaders : headers.all plainHeader = true) :
    ∀ l ∈ headerLines headers ++ bodyLines body, '\n' ∉ l := by
  intro l hl
  rcases List.mem_append.mp hl with hl | hl
  · unfold headerLines at hl
    split at hl
    · rw [List.mem_singleton.mp hl]
      exact List.not_mem_nil
    · obtain ⟨h, hh, rfl⟩ := List.mem_map.mp hl
      exact newline_notMem_headerLine (List.all_eq_true.mp hheaders h hh)
  · unfold bodyLines at hl
    split at hl
    · cases hl
    · rcases List.mem_cons.mp hl with rfl | hl
      · exact List.not_mem_nil
      · exact notMem_of_mem_splitOn hl

/-- The lines of a raw output, read again. -/
theorem readRawOutput_joinLines (hversion : version.all (fun c => !isWhitespace c) = true)
    (hcode : code < 2 ^ 16) (hheaders : headers.all plainHeader = true) :
    readRawOutput (joinLines (statusOf version code :: (headerLines headers ++ bodyLines body))) =
      some ⟨version, code, headers, body⟩ := by
  have hvisible := visible_of_all hversion
  have hspace : ' ' ∉ version :=
    fun hmem => absurd (hvisible ' ' hmem) (by simp [isWhitespace_space])
  have hstatus : '\n' ∉ statusOf version code := by
    intro hmem
    simp only [statusOf, List.mem_append, List.mem_cons] at hmem
    rcases hmem with hmem | hmem | hmem | hmem
    · exact absurd hmem (by decide)
    · exact absurd (hvisible '\n' hmem) (by simp [isWhitespace_newline])
    · cases hmem
    · exact absurd (toDigits_noSpace hmem) (by simp [isWhitespace_newline])
  have hsplit : (joinLines (statusOf version code :: (headerLines headers ++
      bodyLines body))).splitOn '\n' = statusOf version code :: (headerLines headers ++
        bodyLines body) :=
    splitOn_joinLines (List.cons_ne_nil _ _)
      (List.forall_mem_cons.mpr ⟨hstatus, newline_notMem_lines hheaders⟩)
  have hdrop : (statusOf version code).drop "HTTP/".toList.length =
      version ++ ' ' :: Nat.toDigits 10 code := rfl
  obtain ⟨htake, hbody⟩ := cut_headerLines headers body
  have hread : (headers.map headerLine).map readHeader = headers := by
    rw [List.map_map]
    calc headers.map (readHeader ∘ headerLine)
        = headers.map id := List.map_congr_left
          (fun h hh => readHeader_headerLine (List.all_eq_true.mp hheaders h hh))
      _ = headers := List.map_id headers
  unfold readRawOutput
  rw [hsplit]
  simp only [hdrop, takeWhile_ne _ _ _ hspace, dropWhile_ne _ _ _ hspace, List.tail_cons,
    parseUnsigned_toDigits hcode, Option.map_some, htake, hbody, hread]

end RawOutput

section Report
variable (x : Exchange) {headers : List Header}

theorem Exchange.pairs :
    parseHeaderFile (readToString x.response.headersFile) = x.block.headers := by
  rw [response, readToString_encode, parseHeaderFile_dump, List.flatMap_nil, List.append_nil]

theorem Exchange.decoded :
    rawBody x.body = (x.bodyText, decide (bodyLimit < x.body.length)) := by
  unfold bodyText
  by_cases hfits : x.body.length ≤ bodyLimit
  · rw [rawBody_of_fits hfits, List.take_of_length_le hfits,
      decide_eq_false (not_lt.mpr hfits)]
  · rw [rawBody_of_over (not_le.mp hfits), decide_eq_true (not_le.mp hfits)]

theorem Exchange.shownVersion : x.response.shownVersion = some x.versionText := by
  have hne : x.version.isEmpty = false := List.isEmpty_eq_false_iff.mpr x.version_ne
  unfold CurlResponse.shownVersion versionText
  rw [show x.response.httpVersion = x.version from rfl, hne, if_neg Bool.false_ne_true]
  by_cases htwo : x.version = "2".toList
  · rw [if_pos (.inl htwo), htwo]
    rfl
  · by_cases hpoint : x.version = "2.0".toList
    · rw [if_pos (.inr hpoint), if_pos hpoint]
    · rw [if_neg (not_or.mpr ⟨htwo, hpoint⟩), if_neg hpoint]

theorem Exchange.versionText_word : x.versionText.all (fun c => !isWhitespace c) = true := by
  unfold versionText
  split_ifs
  · decide
  · exact x.version_word

theorem optionOf_getD (s : Text) : (if s.isEmpty then none else some s).getD [] = s := by
  cases s <;> rfl

theorem Exchange.truncated (srt : SortUnstable) :
    truncateHeaders srt (parseHeaderFile (readToString x.response.headersFile)) =
      .ok ⟨false, x.block.headers⟩ := by
  rw [x.pairs]
  exact untruncated_of_fits ((rawHeadersStr_fits_iff _).mp x.headers_fit)

/-- The lines of the headers are found again. -/
theorem splitOn_rawHeaders (hheaders : headers.all plainHeader = true) :
    ((if (rawHeadersStr headers).isEmpty then none else some (rawHeadersStr headers)).map
      (·.splitOn '\n')).getD [] = headers.map headerLine := by
  cases headers with
  | nil => rfl
  | cons h headers =>
    have hlines : ∀ l ∈ (h :: headers).map headerLine, '\n' ∉ l := by
      intro l hl
      obtain ⟨header, hmem, rfl⟩ := List.mem_map.mp hl
      exact newline_notMem_headerLine (List.all_eq_true.mp hheaders header hmem)
    have hsplit : (rawHeadersStr (h :: headers)).splitOn '\n' = (h :: headers).map headerLine :=
      splitOn_joinLines (List.cons_ne_nil _ _) hlines
    have hne : (rawHeadersStr (h :: headers)).isEmpty = false := by
      refine List.isEmpty_eq_false_iff.mpr (fun hnil => ?_)
      rw [hnil] at hsplit
      have hfirst := (List.cons.inj hsplit).1
      exact List.isEmpty_eq_false_iff.mp (headerLine_isEmpty h) hfirst.symm
    rw [hne, if_neg Bool.false_ne_true, Option.map_some, Option.getD_some, hsplit]

/-- A response whose headers are within their limit is reported whole, up to the limit of the body,
and its raw output can be read back. -/
theorem reports_finished (tables : CaseTables) (method resolvedIp : Text) (tls timings : Json) :
    Reports tables method x (x.response.finished tables method resolvedIp tls timings
      ⟨false, x.block.headers⟩) := by
  have hbody : rawBody x.response.bodyFile = (x.bodyText, decide (bodyLimit < x.body.length)) :=
    x.decoded
  have hraw : ((x.response.finished tables method resolvedIp tls timings
      ⟨false, x.block.headers⟩).rawBody).getD [] = x.bodyText := by
    simp only [CurlResponse.finished, hbody]
    exact optionOf_getD x.bodyText
  constructor
  case status => rfl
  case code => rfl
  case reason =>
    simp only [CurlResponse.finished, Exchange.response, readToString_encode]
    exact parseStatusText_dump x.block []
  case version => exact x.shownVersion
  case headers => exact (groups_dedupHeaders tables x.block.headers).lookup
  case rawHeaders => exact splitOn_rawHeaders x.block.headers_plain
  case body => exact hraw
  case truncated => simp only [CurlResponse.finished, hbody, Bool.false_or]
  case text =>
    intro t ht hfits
    have hlength : x.body.length ≤ bodyLimit := by rw [ht, length_encode]; exact hfits
    rw [hraw, Exchange.bodyText, List.take_of_length_le hlength, ht, decodeLossy_encode]
  case shown =>
    simp only [CurlResponse.finished, hbody, x.shownVersion]
    rw [show x.response.responseCode = x.code from rfl, buildRawOutput_eq, Option.bind_some]
    exact readRawOutput_joinLines x.versionText_word x.code_fits x.block.headers_plain

end Report

end GlobalpingProbe.Command.Http
