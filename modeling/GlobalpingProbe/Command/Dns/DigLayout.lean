import GlobalpingProbe.Command.Dns.Metadata

/-! # Transcripts in the layout of dig

Two transcripts of one layout differ in the data of their answer records only. Their query time
and resolver are those of the common footer; their status is the same exactly when their records
show the same one.
-/
namespace GlobalpingProbe.Command.Dns
open Foundation Regex Net

def IsComment (line : Text) : Prop := '\n' ∉ line ∧ (line = [] ∨ line.head? = some ';')

instance (line : Text) : Decidable (IsComment line) :=
  inferInstanceAs (Decidable (_ ∧ _))

/-- Everything in a transcript but the data of the answer records. A record is its owner name,
time to live, class and type, followed by the data. -/
structure DigLayout where
  banner : List Text
  status : Text
  id : Text
  flags : List Text
  question : List Text
  heads : List Text
  queryTime : Text
  server : Text
  serverName : Text
  transport : Text
  trailer : List Text
  comments : ∀ l ∈ banner ++ flags ++ question ++ trailer, IsComment l
  singleLine : ∀ s ∈ [status, id, server, serverName, transport] ++ heads, '\n' ∉ s
  queryTime_ne : queryTime ≠ []
  queryTime_digits : queryTime.all Char.isDigit = true

namespace DigLayout

/-- Single-line data for each answer record. -/
abbrev RecordData (L : DigLayout) : Type :=
  {data : List Text // data.length = L.heads.length ∧ ∀ t ∈ data, '\n' ∉ t}

def statusLine (L : DigLayout) : Text :=
  ";; ->>HEADER<<- opcode: QUERY, status: ".toList ++ L.status ++ ", id: ".toList ++ L.id

def headerLines (L : DigLayout) : List Text :=
  L.banner ++ [L.statusLine] ++ L.flags ++ [";; QUESTION SECTION:".toList] ++ L.question ++
    [[], ";; ANSWER SECTION:".toList]

def recordLines (L : DigLayout) (data : L.RecordData) : List Text :=
  List.zipWith (· ++ ·) L.heads data.val

def queryTimeLine (L : DigLayout) : Text :=
  ";; Query time: ".toList ++ L.queryTime ++ " msec".toList

def serverLine (L : DigLayout) : Text :=
  ";; SERVER: ".toList ++ (L.server ++ '(' :: (L.serverName ++ ')' :: L.transport))

def footerLines (L : DigLayout) : List Text :=
  [[], L.queryTimeLine, L.serverLine] ++ L.trailer

def lines (L : DigLayout) (data : L.RecordData) : List Text :=
  L.headerLines ++ L.recordLines data ++ L.footerLines

def transcript (L : DigLayout) (data : L.RecordData) : Text := joinLines (L.lines data)

variable {L : DigLayout} {classes : UnicodeClasses} {localIps : List IpAddr}

theorem lines_ne_nil (data : L.RecordData) : L.lines data ≠ [] := by
  simp [lines, footerLines]

theorem newline_headerLines : ∀ l ∈ L.headerLines, '\n' ∉ l := by
  have hcomment : ∀ l ∈ L.banner ++ L.flags ++ L.question ++ L.trailer, '\n' ∉ l :=
    fun l hl => (L.comments l hl).1
  have hstatus : '\n' ∉ L.statusLine := by
    have hs : '\n' ∉ L.status := L.singleLine _ (by simp)
    have hid : '\n' ∉ L.id := L.singleLine _ (by simp)
    unfold statusLine
    simp only [List.mem_append, not_or]
    exact ⟨⟨⟨by decide, hs⟩, by decide⟩, hid⟩
  intro l hl
  simp only [headerLines, List.mem_append, List.mem_cons, List.not_mem_nil, or_false] at hl
  rcases hl with (((((h | rfl) | h) | rfl) | h) | (rfl | rfl))
  · exact hcomment l (by simp [h])
  · exact hstatus
  · exact hcomment l (by simp [h])
  · decide
  · exact hcomment l (by simp [h])
  · decide
  · decide

theorem newline_recordLines (data : L.RecordData) : ∀ l ∈ L.recordLines data, '\n' ∉ l := by
  intro l hl
  obtain ⟨i, hi, rfl⟩ := List.mem_iff_getElem.mp hl
  simp only [recordLines, List.length_zipWith] at hi
  have hhead : '\n' ∉ L.heads[i] := L.singleLine _ (by simp)
  have hdata : '\n' ∉ data.val[i] := data.property.2 _ (by simp)
  simp [recordLines, hhead, hdata]

theorem newline_footerLines : ∀ l ∈ L.footerLines, '\n' ∉ l := by
  have hquery : '\n' ∉ L.queryTimeLine := by
    have hdigits : '\n' ∉ L.queryTime := fun h =>
      absurd (List.all_eq_true.mp L.queryTime_digits _ h) (by decide)
    unfold queryTimeLine
    simp only [List.mem_append, not_or]
    exact ⟨⟨by decide, hdigits⟩, by decide⟩
  have hserver : '\n' ∉ L.serverLine := by
    have hs : '\n' ∉ L.server := L.singleLine _ (by simp)
    have hname : '\n' ∉ L.serverName := L.singleLine _ (by simp)
    have htransport : '\n' ∉ L.transport := L.singleLine _ (by simp)
    unfold serverLine
    simp only [List.mem_append, List.mem_cons, not_or]
    exact ⟨by decide, hs, by decide, hname, by decide, htransport⟩
  intro l hl
  simp only [footerLines, List.mem_append, List.mem_cons, List.not_mem_nil, or_false] at hl
  rcases hl with ((rfl | rfl | rfl) | h)
  · decide
  · exact hquery
  · exact hserver
  · exact (L.comments l (by simp [h])).1

theorem newline_lines (data : L.RecordData) : ∀ l ∈ L.lines data, '\n' ∉ l := by
  intro l hl
  rcases List.mem_append.mp hl with hl | hl
  · rcases List.mem_append.mp hl with hl | hl
    · exact newline_headerLines l hl
    · exact newline_recordLines data l hl
  · exact newline_footerLines l hl

/-! ## The footer has the last word on time and resolver -/

theorem footer_queryTime :
    (lastSome (queryTimeOf classes) (L.footerLines.map (rewriteLine localIps))).isSome = true := by
  have hline : L.queryTimeLine ∈ L.footerLines := by simp [footerLines]
  exact lastSome_isSome (List.mem_map_of_mem hline)
    (queryTimeOf_isSome L.queryTime_ne (List.all_eq_true.mp L.queryTime_digits))

theorem footer_resolver :
    (lastSome resolverOf (L.footerLines.map (rewriteLine localIps))).isSome = true := by
  have hserver : '\n' ∉ L.server := L.singleLine _ (by simp)
  have hname : '\n' ∉ L.serverName := L.singleLine _ (by simp)
  have hline : L.serverLine ∈ L.footerLines := by simp [footerLines]
  refine lastSome_isSome (List.mem_map_of_mem hline) ?_
  cases hh : hiddenAddress localIps L.serverLine with
  | none =>
    rw [rewriteLine_of_none hh]
    exact resolverOf_isSome hserver hname
  | some addr =>
    obtain ⟨ip, hip, -⟩ := (hidden_of_hiddenAddress hh).literal
    rw [rewriteLine_of_some hh]
    unfold serverLine
    rw [replaceAll_serverLine hip]
    have hkeep : ∀ s : Text, '\n' ∉ s → '\n' ∉ replaceAll addr mask s := by
      intro s hs hmem
      exact (mem_replaceFrom hmem).elim (by decide) hs
    exact resolverOf_isSome (hkeep _ hserver) (hkeep _ hname)

/-! ## The records have a word on the status -/

def headerStatus (L : DigLayout) (localIps : List IpAddr) : Option Text :=
  lastSome statusNameOf (L.headerLines.map (rewriteLine localIps))

/-- The status that the last of the records with one shows. -/
def recordStatus (L : DigLayout) (localIps : List IpAddr) (data : L.RecordData) : Option Text :=
  lastSome statusNameOf ((L.recordLines data).map (rewriteLine localIps))

def footerStatus (L : DigLayout) (localIps : List IpAddr) : Option Text :=
  lastSome statusNameOf (L.footerLines.map (rewriteLine localIps))

def shownStatus (L : DigLayout) (localIps : List IpAddr) (data : L.RecordData) : Option Text :=
  (L.footerStatus localIps).or ((L.recordStatus localIps data).or (L.headerStatus localIps))

theorem metadata_of_transcript {data : L.RecordData}
    (h : (parseClassic classes localIps (L.transcript data)).status = .finished) :
    (parseClassic classes localIps (L.transcript data)).metadata =
      { lastShown classes (L.footerLines.map (rewriteLine localIps)) with
        statusCodeName := L.shownStatus localIps data
        statusCode := (L.shownStatus localIps data).bind statusCodeOf } := by
  have hshown : (rewriteClassic localIps (L.transcript data)).splitOn '\n' =
      (L.lines data).map (rewriteLine localIps) :=
    splitOn_rewriteClassic (lines_ne_nil data) (newline_lines data)
  have hstatus : lastSome statusNameOf ((L.lines data).map (rewriteLine localIps)) =
      L.shownStatus localIps data := by
    simp only [lines, List.map_append, lastSome_append]
    rfl
  rw [parseClassic_metadata h, hshown, lastShown, hstatus]
  simp only [lines, List.map_append, lastSome_append_of_isSome footer_queryTime,
    lastSome_append_of_isSome footer_resolver, lastShown]

structure SameMetadata (r r' : ClassicResult) : Prop where
  status : r.status = r'.status
  statusCodeName : r.statusCodeName = r'.statusCodeName
  statusCode : r.statusCode = r'.statusCode
  resolver : r.resolver = r'.resolver
  timings : r.timings = r'.timings

/-- The data of the records leaves the metadata alone exactly when it shows no other status, or
the footer shows one itself; query time and resolver it always leaves alone. -/
theorem sameMetadata_iff_same_status (classes : UnicodeClasses) (localIps : List IpAddr)
    (L : DigLayout) (data data' : L.RecordData)
    (h : (parseClassic classes localIps (L.transcript data)).status = .finished)
    (h' : (parseClassic classes localIps (L.transcript data')).status = .finished) :
    (SameMetadata (parseClassic classes localIps (L.transcript data))
        (parseClassic classes localIps (L.transcript data')) ↔
      (L.footerStatus localIps).isSome = true ∨
        (L.recordStatus localIps data).or (L.headerStatus localIps) =
          (L.recordStatus localIps data').or (L.headerStatus localIps)) ∧
    (parseClassic classes localIps (L.transcript data)).resolver =
      (parseClassic classes localIps (L.transcript data')).resolver ∧
    (parseClassic classes localIps (L.transcript data)).timings =
      (parseClassic classes localIps (L.transcript data')).timings := by
  obtain ⟨htime, hresolver, hname, hcode⟩ := Metadata.mk.inj (metadata_of_transcript h)
  obtain ⟨htime', hresolver', hname', hcode'⟩ := Metadata.mk.inj (metadata_of_transcript h')
  have hresolver := hresolver.trans hresolver'.symm
  have htime := htime.trans htime'.symm
  have hiff : L.shownStatus localIps data = L.shownStatus localIps data' ↔
      (L.footerStatus localIps).isSome = true ∨
        (L.recordStatus localIps data).or (L.headerStatus localIps) =
          (L.recordStatus localIps data').or (L.headerStatus localIps) := by
    unfold shownStatus
    cases L.footerStatus localIps with
    | none => simp
    | some s => simp
  refine ⟨?_, hresolver, htime⟩
  rw [← hiff]
  constructor
  · intro hsame
    rw [← hname, ← hname']
    exact hsame.statusCodeName
  · intro heq
    exact ⟨h.trans h'.symm, by rw [hname, hname', heq], by rw [hcode, hcode', heq], hresolver, htime⟩

/-- The answer to a query for one text record. -/
def textQuery : DigLayout where
  banner := ["; <<>> DiG 9.16 <<>> a.io".toList, ";; Got answer:".toList]
  status := "NOERROR".toList
  id := "1".toList
  flags := [";; flags: qr rd ra;".toList, []]
  question := [";a.io. IN TXT".toList]
  heads := ["a.io. 300 IN TXT ".toList]
  queryTime := "5".toList
  server := "8.8.8.8#53".toList
  serverName := "8.8.8.8".toList
  transport := []
  trailer := [";; MSG SIZE rcvd: 55".toList, []]
  comments := by decide
  singleLine := by decide
  queryTime_ne := by decide
  queryTime_digits := by decide

def policyRecord : textQuery.RecordData := ⟨["\"v=spf1 -all\"".toList], by decide⟩

def plainRecord : textQuery.RecordData := ⟨["\"status: ok\"".toList], by decide⟩

def statusRecord : textQuery.RecordData := ⟨["\"status: NXDOMAIN\"".toList], by decide⟩

theorem plainRecord_sameMetadata :
    SameMetadata (parseClassic .ascii [] (textQuery.transcript policyRecord))
      (parseClassic .ascii [] (textQuery.transcript plainRecord)) :=
  (sameMetadata_iff_same_status .ascii [] textQuery policyRecord plainRecord (by decide +kernel)
    (by decide +kernel)).1.mpr (Or.inr (by decide +kernel))

/-- A text record with a status in it replaces the status of the answer. -/
theorem statusRecord_not_sameMetadata :
    (parseClassic .ascii [] (textQuery.transcript policyRecord)).status = .finished ∧
    (parseClassic .ascii [] (textQuery.transcript statusRecord)).status = .finished ∧
    (parseClassic .ascii [] (textQuery.transcript policyRecord)).statusCode = some 0 ∧
    (parseClassic .ascii [] (textQuery.transcript statusRecord)).statusCode = some 3 ∧
    ¬ SameMetadata (parseClassic .ascii [] (textQuery.transcript policyRecord))
      (parseClassic .ascii [] (textQuery.transcript statusRecord)) := by
  obtain ⟨hpolicy, hnoerror⟩ :
      (parseClassic .ascii [] (textQuery.transcript policyRecord)).status = .finished ∧
      (parseClassic .ascii [] (textQuery.transcript policyRecord)).statusCode = some 0 := by
    decide +kernel
  obtain ⟨hstatus, hnxdomain⟩ :
      (parseClassic .ascii [] (textQuery.transcript statusRecord)).status = .finished ∧
      (parseClassic .ascii [] (textQuery.transcript statusRecord)).statusCode = some 3 := by
    decide +kernel
  refine ⟨hpolicy, hstatus, hnoerror, hnxdomain, fun hsame => ?_⟩
  have hcode := hsame.statusCode
  rw [hnoerror, hnxdomain] at hcode
  cases hcode

end DigLayout
end GlobalpingProbe.Command.Dns
