import GlobalpingProbe.Command.Traceroute.Run

/-! # Private targets of traceroute

The address in the header is checked when the process has ended. By then the hop lines have
been sent, and the rejection keeps the address and the host name that were parsed.
-/
namespace GlobalpingProbe.Command.Traceroute
open Foundation Regex Net

variable {classes : UnicodeClasses} {localIps : List IpAddr}

def rawText (stdout : List StdoutLine) : Text := joinLines (stdout.map (·.val))

def HeaderPrivate (classes : UnicodeClasses) (localIps : List IpAddr)
    (stdout : List StdoutLine) : Prop :=
  ∃ addr ip, (parse classes (rawText stdout)).resolvedAddress = some addr ∧
    parseIpAddr addr = some ip ∧ isIpPrivate localIps ip = true

instance (stdout : List StdoutLine) : Decidable (HeaderPrivate classes localIps stdout) :=
  decidable_of_iff (((parse classes (rawText stdout)).resolvedAddress.bind parseIpAddr).any
      (isIpPrivate localIps) = true) <| by
    simp only [HeaderPrivate, Option.any_eq_true, Option.bind_eq_some_iff]
    constructor
    · rintro ⟨ip, ⟨addr, haddr, hip⟩, hprivate⟩
      exact ⟨addr, ip, haddr, hip, hprivate⟩
    · rintro ⟨addr, ip, haddr, hip, hprivate⟩
      exact ⟨ip, ⟨addr, haddr, hip⟩, hprivate⟩

def rejection : Outcome :=
  ⟨[], ⟨.failed, "Private IP ranges are not allowed.".toList, none, none, []⟩⟩

/-! ## The header -/

/-- The hops of an output that goes on after its header. -/
theorem parse_of_header {raw header : Text} {hopLines : List Text} {caps : Match Char}
    (hlines : lines raw = header :: hopLines)
    (hcaps : (hostRe classes).captures header = some caps) :
    (parse classes raw).resolvedAddress = caps.get 3 ∧ (parse classes raw).hops =
      (hopLines.modifyHead (hideGateway classes)).map (parseHopLine classes) := by
  simp [parse, hlines, hcaps]

theorem header_of_parse {raw addr : Text} (h : (parse classes raw).resolvedAddress = some addr) :
    ∃ header hopLines caps, lines raw = header :: hopLines ∧
      (hostRe classes).captures header = some caps := by
  unfold parse at h
  split at h
  · cases h
  · next header hopLines hlines =>
    split at h
    · cases h
    · next caps hcaps => exact ⟨header, hopLines, caps, hlines, hcaps⟩

theorem lines_rawText {stdout : List StdoutLine} (hne : stdout ≠ []) :
    lines (rawText stdout) = endLines (stdout.map (·.val)) := by
  apply lines_joinLines (List.map_eq_nil_iff.not.mpr hne)
  intro l hl
  obtain ⟨m, -, rfl⟩ := List.mem_map.mp hl
  exact m.property

theorem mem_paren_of_hostRe {w : Text} (h : w ∈ (hostRe classes).lang) : '(' ∈ w := by
  obtain ⟨name, -, w₁, h₁, rfl⟩ := mem_lang_concat_cons.mp h
  obtain ⟨scope, -, w₂, h₂, rfl⟩ := mem_lang_concat_cons.mp h₁
  obtain ⟨space, -, w₃, h₃, rfl⟩ := mem_lang_concat_cons.mp h₂
  obtain ⟨paren, ⟨c, hc, rfl⟩, w₄, -, rfl⟩ := mem_lang_concat_cons.mp h₃
  simp [of_decide_eq_true hc]

theorem mem_paren_of_header {header : Text} {caps : Match Char}
    (h : (hostRe classes).captures header = some caps) : '(' ∈ header := by
  obtain ⟨before, hheader, hlang⟩ := captures_sound h
  rw [← hheader]
  simp [mem_paren_of_hostRe hlang]

/-! ## The progress messages -/

theorem ne_nil_of_isHopLine {line : Text} (h : isHopLine classes line = true) : line ≠ [] := by
  rintro rfl
  simp [isHopLine, isPrefixMatch, concat, exec, plus, iterate, Match.stop] at h

theorem hopProgress_header (header : StdoutLine) : hopProgress classes [header.val] = [] := by
  have hlines : lines (joinLines [header.val]) = endLines [header.val] :=
    lines_rawText (List.cons_ne_nil header [])
  have hhops : (parse classes (joinLines [header.val])).hops = [] := by
    unfold parse
    rw [hlines]
    cases hempty : header.val.isEmpty with
    | true => simp [endLines, hempty]
    | false => cases hc : (hostRe classes).captures header.val <;> simp [endLines, hempty, hc]
  simp [hopProgress, hhops]

/-- Any later hop line sends a message, once the header has been understood. -/
theorem hopProgress_later {header line : StdoutLine} {between : List StdoutLine}
    {caps : Match Char} (hcaps : (hostRe classes).captures (stripCr header.val) = some caps)
    (hline : isHopLine classes line = true) :
    hopProgress classes ((header :: between ++ [line]).map (·.val)) ≠ [] := by
  have hlines : lines (rawText (header :: between ++ [line])) =
      stripCr header.val :: endLines (between.map (·.val) ++ [line.val]) := by
    rw [lines_rawText (by simp)]
    simp [endLines_cons]
  have hlater : endLines (between.map (·.val) ++ [line.val]) ≠ [] :=
    endLines_concat_ne_nil (ne_nil_of_isHopLine hline)
  have hhops : (parse classes (rawText (header :: between ++ [line]))).hops ≠ [] := by
    rw [(parse_of_header hlines hcaps).2]
    simpa using hlater
  have hsent : hopProgress classes ((header :: between ++ [line]).map (·.val)) =
      [progressMessage (rawText (header :: between ++ [line]))
        (parse classes (rawText (header :: between ++ [line])))] :=
    if_neg (mt List.isEmpty_iff.mp hhops)
  rw [hsent]
  exact List.cons_ne_nil _ _

theorem readLines_concat (progress : Bool) (stdout : List StdoutLine) (line : StdoutLine) :
    readLines classes progress (stdout ++ [line]) =
      (readLines classes progress stdout).readLine classes progress line := by
  simp [readLines]

theorem readLines_rawLines (progress : Bool) (stdout : List StdoutLine) :
    (readLines classes progress stdout).rawLines = stdout.map (·.val) := by
  induction stdout using List.reverseRecOn with
  | nil => rfl
  | append_singleton stdout line ih => simp [readLines_concat, Reading.readLine, ih]

/-- Over a whole run: nothing is sent exactly without a channel or without a hop line after the
header. -/
theorem messages_eq_nil_iff {header : StdoutLine} {hopLines : List StdoutLine} (progress : Bool)
    (hheader : hopLines ≠ [] → ∃ caps, (hostRe classes).captures (stripCr header.val) = some caps) :
    (readLines classes progress (header :: hopLines)).messages = [] ↔
      progress = false ∨ ∀ line ∈ hopLines, isHopLine classes line = false := by
  induction hopLines using List.reverseRecOn with
  | nil =>
    have hnone : (readLines classes progress [header]).messages = [] := by
      simp [readLines, Reading.readLine, hopProgress_header]
    simp [hnone]
  | append_singleton hopLines line ih =>
    have hstep : (readLines classes progress (header :: (hopLines ++ [line]))).messages =
        (readLines classes progress (header :: hopLines)).messages ++
          if progress && isHopLine classes line then
            hopProgress classes ((header :: hopLines ++ [line]).map (·.val)) else [] := by
      rw [← List.cons_append, readLines_concat, Reading.readLine, readLines_rawLines]
      simp
    obtain ⟨caps, hcaps⟩ := hheader (by simp)
    rw [hstep, List.append_eq_nil_iff, ih (fun _ => ⟨caps, hcaps⟩)]
    cases progress with
    | false => simp
    | true =>
      cases hline : isHopLine classes line with
      | false => simp [or_imp, forall_and, hline]
      | true =>
        have hsent : hopProgress classes ((header :: hopLines ++ [line]).map (·.val)) ≠ [] :=
          hopProgress_later hcaps hline
        constructor
        · exact fun h => absurd h.2 hsent
        · rintro (h | h)
          · cases h
          · rw [h line (by simp)] at hline
            cases hline

/-! ## The rejection -/

theorem header_of_private {stdout : List StdoutLine} (h : HeaderPrivate classes localIps stdout) :
    ∃ header hopLines, stdout = header :: hopLines ∧ '(' ∈ header.val ∧
      (hopLines ≠ [] → ∃ caps, (hostRe classes).captures (stripCr header.val) = some caps) := by
  obtain ⟨addr, ip, haddr, -, -⟩ := h
  obtain ⟨first, later, caps, hlines, hcaps⟩ := header_of_parse haddr
  have hparen := mem_paren_of_header hcaps
  cases stdout with
  | nil => cases hlines
  | cons header hopLines =>
    rw [lines_rawText (by simp), List.map_cons] at hlines
    refine ⟨header, hopLines, rfl, ?_⟩
    cases hopLines with
    | nil =>
      cases hempty : header.val.isEmpty with
      | true => simp [endLines, hempty] at hlines
      | false =>
        obtain ⟨rfl, -⟩ : header.val = first ∧ [] = later := by
          simpa [endLines, hempty] using hlines
        exact ⟨hparen, fun hne => absurd rfl hne⟩
    | cons hop hopLines =>
      obtain ⟨rfl, -⟩ := List.cons.inj ((endLines_cons (by simp)).symm.trans hlines)
      exact ⟨mem_of_mem_stripCr hparen, fun _ => ⟨caps, hcaps⟩⟩

theorem finalResult_of_private {stdout : List StdoutLine}
    (h : HeaderPrivate classes localIps stdout) :
    finalResult classes localIps (rawText stdout) =
      { parse classes (rawText stdout) with
        status := .failed
        rawOutput := "Private IP ranges are not allowed.".toList
        hops := [] } := by
  obtain ⟨header, hopLines, rfl, hparen, -⟩ := header_of_private h
  obtain ⟨addr, ip, haddr, hip, hprivate⟩ := h
  have hmem : '(' ∈ rawText (header :: hopLines) := by
    cases hopLines <;> simp [rawText, joinLines, List.intercalate_cons_cons, hparen]
  have hfull : (trim (rawText (header :: hopLines))).isEmpty = false := by
    simpa using trim_ne_nil hmem (by decide)
  simp [finalResult, rejectPrivate, hfull, haddr, hip, hprivate]

theorem runTraceroute_eq_ok {table : CaseTable} {opts : TracerouteOptions} {progress : Bool}
    {stdout : List StdoutLine} {out : Outcome} :
    runTraceroute classes table localIps opts progress stdout = .ok out ↔
      opts.validate table localIps = .ok () ∧
        out = ⟨(readLines classes progress stdout).messages,
          finalResult classes localIps (rawText stdout)⟩ := by
  rw [runTraceroute]
  cases opts.validate table localIps with
  | error e => simp [bind, Except.bind]
  | ok u => simp [bind, Except.bind, pure, Except.pure, readLines_rawLines, rawText, eq_comm]

/-- What a run for a private target lets out. The status, the text and the hops are those of
the rejection; the parsed address and host name stay, and every hop line after the header has
been sent. -/
structure LeaksTarget (classes : UnicodeClasses) (progress : Bool) (stdout : List StdoutLine)
    (out : Outcome) : Prop where
  result : out.result = { parse classes (rawText stdout) with
    status := .failed
    rawOutput := "Private IP ranges are not allowed.".toList
    hops := [] }
  resolvedAddress : out.result.resolvedAddress ≠ none
  messages : out.messages = [] ↔
    progress = false ∨ ∀ line ∈ stdout.tail, isHopLine classes line = false

theorem leaksTarget_of_private {table : CaseTable} {opts : TracerouteOptions} {progress : Bool}
    {stdout : List StdoutLine} {out : Outcome}
    (hrun : runTraceroute classes table localIps opts progress stdout = .ok out)
    (hprivate : HeaderPrivate classes localIps stdout) :
    LeaksTarget classes progress stdout out := by
  obtain ⟨-, rfl⟩ := runTraceroute_eq_ok.mp hrun
  have hresult := finalResult_of_private hprivate
  obtain ⟨addr, ip, haddr, -, -⟩ := id hprivate
  obtain ⟨header, hopLines, rfl, -, hheader⟩ := header_of_private hprivate
  exact ⟨hresult, by simp [hresult, haddr], messages_eq_nil_iff progress hheader⟩

/-- A run that is let through answers a private target with the rejection only if the target is
not private at all. -/
theorem rejected_iff_header_not_private (classes : UnicodeClasses) (table : CaseTable)
    (localIps : List IpAddr) (opts : TracerouteOptions) (progress : Bool)
    (stdout : List StdoutLine) :
    ((∀ out, runTraceroute classes table localIps opts progress stdout = .ok out →
        HeaderPrivate classes localIps stdout → out = rejection) ↔
      (opts.validate table localIps = .ok () → ¬ HeaderPrivate classes localIps stdout)) ∧
    ∀ out, runTraceroute classes table localIps opts progress stdout = .ok out →
      HeaderPrivate classes localIps stdout → LeaksTarget classes progress stdout out := by
  refine ⟨⟨?_, ?_⟩, fun out => leaksTarget_of_private⟩
  · intro h hvalid hprivate
    obtain ⟨out, hrun⟩ : ∃ out,
        runTraceroute classes table localIps opts progress stdout = .ok out :=
      ⟨_, runTraceroute_eq_ok.mpr ⟨hvalid, rfl⟩⟩
    have haddr := (leaksTarget_of_private hrun hprivate).resolvedAddress
    rw [h out hrun hprivate] at haddr
    exact haddr rfl
  · intro h out hrun hprivate
    exact absurd hprivate (h (runTraceroute_eq_ok.mp hrun).1)

/-- The header of a host with a private address, and the line of its only hop. -/
def privateTranscript : List StdoutLine :=
  [⟨"traceroute to a.io (10.0.0.1), 20 hops max, 60 byte packets".toList, by decide⟩,
    ⟨" 1  nas.lan (10.0.0.1)  0.1 ms  0.1 ms".toList, by decide⟩]

/-- The hop is sent before the check, and the address and a host name stay after it. -/
theorem privateTranscript_not_rejected :
    HeaderPrivate .ascii [] privateTranscript ∧
    ∃ out, runTraceroute .ascii .ascii [] ⟨"a.io".toList, "ICMP".toList, 80, 4⟩ true
        privateTranscript = .ok out ∧
      out.messages.length = 1 ∧ out.result.resolvedAddress = some "10.0.0.1".toList ∧
      out.result.resolvedHostname = some "_gateway".toList ∧ out ≠ rejection := by
  refine ⟨⟨"10.0.0.1".toList, .v4 (.ofOctets 10 0 0 1), rfl, rfl, rfl⟩, _, rfl, rfl, rfl, rfl, ?_⟩
  intro h
  exact absurd (congrArg (·.messages.length) h) (by decide)

end GlobalpingProbe.Command.Traceroute
