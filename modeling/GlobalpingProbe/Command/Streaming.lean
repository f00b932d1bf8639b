import GlobalpingProbe.Command.Ping.PrivateTarget
import GlobalpingProbe.Command.Traceroute.PrivateTarget
import GlobalpingProbe.Foundation.Words

/-! # Progress messages and the result

Every message is parsed from all that has been read so far, so that what it lists is listed
again by each later message and by the result.
-/
namespace GlobalpingProbe.Command
open Foundation Regex Net
open Traceroute (StdoutLine)

/-- The list that a message has under a key. -/
def itemsAt (key : Text) (message : Json) : List Json :=
  match message.get key with
  | some (.arr items) => items
  | _ => []

/-- The messages list more and more items, up to those of the result, and agree with it on the
fixed fields. -/
structure StreamsInto (key : Text) (fields : List Text) (messages : List Json) (result : Json) :
    Prop where
  nonempty : ∀ m ∈ messages, itemsAt key m ≠ []
  grows : (messages ++ [result]).Pairwise (fun m n => itemsAt key m <+: itemsAt key n)
  fixed : ∀ m ∈ messages, ∀ field ∈ fields,
    ∃ value, m.get field = some value ∧ result.get field = some value

/-- Messages that are snapshots of what has been read. -/
theorem streamsInto_snapshots {α : Type} {emit : List α → List Json} {key : Text}
    {fields : List Text} {xs : List α} {result : Json} (hone : ∀ p, (emit p).length ≤ 1)
    (hne : ∀ p, p <+: xs → ∀ m ∈ emit p, itemsAt key m ≠ [])
    (hgrow : ∀ p q, p <+: q → q <+: xs → ∀ m ∈ emit p, ∀ n ∈ emit q, itemsAt key m <+: itemsAt key n)
    (hlast : ∀ p, p <+: xs → ∀ m ∈ emit p, itemsAt key m <+: itemsAt key result)
    (hfixed : ∀ p, p <+: xs → ∀ m ∈ emit p, ∀ field ∈ fields,
      ∃ value, m.get field = some value ∧ result.get field = some value) :
    StreamsInto key fields (snapshots emit xs) result where
  nonempty := by
    intro m hm
    obtain ⟨p, hp, hmem⟩ := mem_snapshots.mp hm
    exact hne p hp m hmem
  grows := by
    refine List.pairwise_append.mpr ⟨?_, List.pairwise_singleton _ _, ?_⟩
    · refine pairwise_snapshots (fun p _ => ?_) hgrow
      match he : emit p, hone p with
      | [], _ => exact List.Pairwise.nil
      | [m], _ => exact List.pairwise_singleton _ _
    · intro m hm n hn
      obtain ⟨p, hp, hmem⟩ := mem_snapshots.mp hm
      rw [List.mem_singleton.mp hn]
      exact hlast p hp m hmem
  fixed := by
    intro m hm
    obtain ⟨p, hp, hmem⟩ := mem_snapshots.mp hm
    exact hfixed p hp m hmem

/-! ## ping -/

namespace Ping
variable {classes : UnicodeClasses} {localIps : List IpAddr} {p q : List StdoutLine}

/-- What a shorter output has told, a longer one tells as well. -/
theorem parse_grows (h : p <+: q) (hne : (parse classes (rawText p)).timings ≠ []) :
    (parse classes (rawText p)).timings <+: (parse classes (rawText q)).timings ∧
      (parse classes (rawText p)).resolvedAddress = (parse classes (rawText q)).resolvedAddress ∧
      (parse classes (rawText p)).resolvedHostname =
        (parse classes (rawText q)).resolvedHostname := by
  have hread : p ≠ [] := by
    rintro rfl
    exact hne rfl
  obtain ⟨header, p', q', rfl, rfl, hpq⟩ := prefix_cons h hread
  unfold parse at hne ⊢
  simp only [lines_rawText, List.map_cons] at hne ⊢
  cases hcaps : (headerRe.exec (stripCr header.val)).head? with
  | none => simp [hcaps] at hne
  | some caps =>
    simp only [hcaps] at hne ⊢
    have hlines : p'.map (fun l => stripCr l.val) <+: q'.map (fun l => stripCr l.val) := hpq.map _
    have hreplies : p'.map (fun l => stripCr l.val) ≠ [] := by
      intro he
      rw [he] at hne
      exact hne rfl
    refine ⟨hlines.filterMap _, trivial, ?_⟩
    rw [replyHostname, replyHostname, prefix_head? hlines hreplies]

theorem mem_packetSnapshot {progress : Bool} {m : Json}
    (h : m ∈ packetSnapshot classes progress p) : (parse classes (rawText p)).timings ≠ [] ∧
      m = progressMessage (rawText p) (parse classes (rawText p)) := by
  simp only [packetSnapshot, packetProgress] at h
  split_ifs at h with hsent hempty
  · exact absurd h List.not_mem_nil
  · exact ⟨fun he => hempty (by simp [he]), List.mem_singleton.mp h⟩
  · exact absurd h List.not_mem_nil

theorem length_packetSnapshot (progress : Bool) (p : List StdoutLine) :
    (packetSnapshot classes progress p).length ≤ 1 := by
  simp only [packetSnapshot, packetProgress]
  split_ifs <;> simp

theorem itemsAt_measurementJson (status raw : Text) (parsed : ParsedPing) :
    itemsAt "timings".toList (measurementJson status raw parsed) =
      parsed.timings.map PingTiming.toJson := rfl

theorem streamsInto_runIcmpOn (progress : Bool) {stdout : List StdoutLine}
    (h : ¬ HeaderPrivate classes localIps stdout) :
    StreamsInto "timings".toList ["resolvedAddress".toList, "resolvedHostname".toList]
      (runIcmpOn classes localIps progress stdout).messages
      (runIcmpOn classes localIps progress stdout).result.toJson := by
  rw [runIcmpOn_of_not_private progress h]
  refine streamsInto_snapshots (length_packetSnapshot progress) ?_ ?_ ?_ ?_
  · intro p _ m hm
    obtain ⟨hne, rfl⟩ := mem_packetSnapshot hm
    rw [progressMessage, itemsAt_measurementJson]
    exact fun he => hne (List.map_eq_nil_iff.mp he)
  · intro p q hpq _ m hm n hn
    obtain ⟨hne, rfl⟩ := mem_packetSnapshot hm
    obtain ⟨-, rfl⟩ := mem_packetSnapshot hn
    exact (parse_grows hpq hne).1.map _
  · intro p hp m hm
    obtain ⟨hne, rfl⟩ := mem_packetSnapshot hm
    exact (parse_grows hp hne).1.map _
  · intro p hp m hm field hfield
    obtain ⟨hne, rfl⟩ := mem_packetSnapshot hm
    obtain ⟨-, haddr, hname⟩ := parse_grows hp hne
    rcases List.mem_cons.mp hfield with rfl | hfield
    · exact ⟨_, rfl, by rw [haddr]; rfl⟩
    · rw [List.mem_singleton.mp hfield]
      exact ⟨_, rfl, by rw [hname]; rfl⟩

end Ping

/-! ## traceroute -/

namespace Traceroute
variable {classes : UnicodeClasses} {localIps : List IpAddr} {p q stdout : List StdoutLine}

/-- What a hop line sends, given all lines up to it. -/
def hopSnapshot (classes : UnicodeClasses) (progress : Bool) (read : List StdoutLine) :
    List Json :=
  if progress && read.getLast?.any (fun line => isHopLine classes line.val) then
    hopProgress classes (read.map (·.val)) else []

theorem readLines_messages (progress : Bool) (stdout : List StdoutLine) :
    (readLines classes progress stdout).messages =
      snapshots (hopSnapshot classes progress) stdout := by
  induction stdout using List.reverseRecOn with
  | nil => simp [readLines, snapshots_nil, hopSnapshot]
  | append_singleton stdout line ih =>
    rw [readLines_concat, Reading.readLine, readLines_rawLines, ih, snapshots_concat]
    simp [hopSnapshot]

theorem mem_hopSnapshot {progress : Bool} {m : Json} (h : m ∈ hopSnapshot classes progress p) :
    (∃ front line, p = front ++ [line] ∧ isHopLine classes line.val = true) ∧
      (parse classes (rawText p)).hops ≠ [] ∧
      m = progressMessage (rawText p) (parse classes (rawText p)) := by
  simp only [hopSnapshot, hopProgress] at h
  split_ifs at h with hsent hempty
  · exact absurd h List.not_mem_nil
  · refine ⟨?_, fun he => hempty (by rw [← rawText, he]; rfl), List.mem_singleton.mp h⟩
    obtain ⟨-, hany⟩ := Bool.and_eq_true_iff.mp hsent
    obtain ⟨line, hline, hhop⟩ := (Option.any_eq_true _ _).mp hany
    obtain ⟨front, rfl⟩ := List.getLast?_eq_some_iff.mp hline
    exact ⟨front, line, rfl, hhop⟩
  · exact absurd h List.not_mem_nil

theorem length_hopSnapshot (progress : Bool) (p : List StdoutLine) :
    (hopSnapshot classes progress p).length ≤ 1 := by
  simp only [hopSnapshot, hopProgress]
  split_ifs <;> simp

/-- What has been sent after a hop line is found in every longer output. -/
theorem parse_grows {front : List StdoutLine} {line : StdoutLine}
    (hline : isHopLine classes line.val = true) (h : front ++ [line] <+: q)
    (hcr : ∀ l ∈ q, '\r' ∉ l.val)
    (hne : (parse classes (rawText (front ++ [line]))).hops ≠ []) :
    (∃ header caps, (lines (rawText q)).head? = some header ∧
      (hostRe classes).captures header = some caps) ∧
    (parse classes (rawText (front ++ [line]))).hops <+: (parse classes (rawText q)).hops ∧
      (parse classes (rawText (front ++ [line]))).resolvedAddress =
        (parse classes (rawText q)).resolvedAddress := by
  have hstrip : ∀ l ∈ front ++ [line], stripCr l.val = l.val := fun l hl =>
    stripCr_of_notMem (hcr l (h.subset hl))
  have hkept : ∀ r, front ++ [line] <+: r →
      front.map (·.val) ++ [line.val] <+: lines (rawText r) := by
    intro r hr
    have hrne : r ≠ [] := by
      rintro rfl
      simp at hr
    rw [lines_rawText hrne]
    refine prefix_endLines (ne_nil_of_isHopLine hline) ?_ (hstrip line (by simp)) ?_
    · intro l hl
      obtain ⟨k, hk, rfl⟩ := List.mem_map.mp hl
      exact hstrip k (by simp [hk])
    · simpa using hr.map (·.val)
  have hself : lines (rawText (front ++ [line])) = front.map (·.val) ++ [line.val] := by
    have hle : (lines (rawText (front ++ [line]))).length ≤
        (front.map (·.val) ++ [line.val]).length := by
      rw [lines_rawText (by simp), List.map_append]
      exact length_endLines_le _
    exact ((hkept _ List.prefix_rfl).eq_of_length_le hle).symm
  obtain ⟨header, hops, hops', hfront, hlines, hprefix⟩ :=
    prefix_cons (hkept q h) (by simp)
  rw [hfront] at hself
  cases hcaps : (hostRe classes).captures header with
  | none => simp [parse, hself, hcaps] at hne
  | some caps =>
    obtain ⟨haddr, hhops⟩ := parse_of_header hself hcaps
    obtain ⟨haddr', hhops'⟩ := parse_of_header hlines hcaps
    refine ⟨⟨header, caps, by simp [hlines], hcaps⟩, ?_, haddr.trans haddr'.symm⟩
    rw [hhops, hhops']
    exact (prefix_modifyHead _ hprefix).map _

/-- With a header that is understood and an address that is not private, the output is parsed. -/
theorem finalResult_of_not_private {header : Text} {caps : Match Char}
    (hheader : (lines (rawText stdout)).head? = some header)
    (hcaps : (hostRe classes).captures header = some caps)
    (h : ¬ HeaderPrivate classes localIps stdout) :
    finalResult classes localIps (rawText stdout) = parse classes (rawText stdout) := by
  have hparen : '(' ∈ rawText stdout :=
    mem_of_mem_lines (mem_paren_of_header hcaps) (List.mem_of_head? hheader)
  have hfull : (trim (rawText stdout)).isEmpty = false := by
    simpa using trim_ne_nil hparen (by decide)
  rw [finalResult, hfull, if_neg (by simp), rejectPrivate]
  cases hip : (parse classes (rawText stdout)).resolvedAddress.bind parseIpAddr with
  | none => rfl
  | some ip =>
    obtain ⟨addr, haddr, hparse⟩ := Option.bind_eq_some_iff.mp hip
    exact if_neg (fun hprivate => h ⟨addr, ip, haddr, hparse, hprivate⟩)

theorem itemsAt_progressMessage (raw : Text) (parsed : ParsedTraceroute) :
    itemsAt "hops".toList (progressMessage raw parsed) = parsed.hops.map TracerouteHop.toJson := rfl

theorem streamsInto_finalResult (progress : Bool) (hcr : ∀ l ∈ stdout, '\r' ∉ l.val)
    (h : ¬ HeaderPrivate classes localIps stdout) :
    StreamsInto "hops".toList ["resolvedAddress".toList]
      (readLines classes progress stdout).messages
      (finalResult classes localIps (rawText stdout)).toJson := by
  rw [readLines_messages]
  refine streamsInto_snapshots (length_hopSnapshot progress) ?_ ?_ ?_ ?_
  · intro p _ m hm
    obtain ⟨-, hne, rfl⟩ := mem_hopSnapshot hm
    rw [itemsAt_progressMessage]
    exact fun he => hne (List.map_eq_nil_iff.mp he)
  · intro p q hpq hq m hm n hn
    obtain ⟨⟨front, line, rfl, hline⟩, hne, rfl⟩ := mem_hopSnapshot hm
    obtain ⟨-, -, rfl⟩ := mem_hopSnapshot hn
    have hcrq : ∀ l ∈ q, '\r' ∉ l.val := fun l hl => hcr l (hq.subset hl)
    exact (parse_grows hline hpq hcrq hne).2.1.map _
  · intro p hp m hm
    obtain ⟨⟨front, line, rfl, hline⟩, hne, rfl⟩ := mem_hopSnapshot hm
    obtain ⟨⟨header, caps, hheader, hcaps⟩, hhops, -⟩ := parse_grows hline hp hcr hne
    rw [finalResult_of_not_private hheader hcaps h]
    exact hhops.map _
  · intro p hp m hm field hfield
    obtain ⟨⟨front, line, rfl, hline⟩, hne, rfl⟩ := mem_hopSnapshot hm
    obtain ⟨⟨header, caps, hheader, hcaps⟩, -, haddr⟩ := parse_grows hline hp hcr hne
    rw [finalResult_of_not_private hheader hcaps h, List.mem_singleton.mp hfield]
    exact ⟨_, rfl, by rw [haddr]; rfl⟩

end Traceroute

/-- For a target that is not private, what ping and traceroute send grows into the result. -/
theorem streaming_is_monotone (classes : UnicodeClasses) (table : CaseTable)
    (localIps : List IpAddr) (progress : Bool) (stdout : List StdoutLine)
    (hcr : ∀ line ∈ stdout, '\r' ∉ line.val) :
    (¬ Ping.HeaderPrivate classes localIps stdout →
      StreamsInto "timings".toList ["resolvedAddress".toList, "resolvedHostname".toList]
        (Ping.runIcmpOn classes localIps progress stdout).messages
        (Ping.runIcmpOn classes localIps progress stdout).result.toJson) ∧
    (¬ Traceroute.HeaderPrivate classes localIps stdout → ∀ opts out,
      Traceroute.runTraceroute classes table localIps opts progress stdout = .ok out →
      StreamsInto "hops".toList ["resolvedAddress".toList] out.messages out.result.toJson) := by
  refine ⟨Ping.streamsInto_runIcmpOn progress, ?_⟩
  intro h opts out hrun
  obtain ⟨-, rfl⟩ := Traceroute.runTraceroute_eq_ok.mp hrun
  exact Traceroute.streamsInto_finalResult progress hcr h

def publicTranscript : List StdoutLine :=
  [⟨"traceroute to a.io (1.1.1.1), 20 hops max, 60 byte packets".toList, by decide⟩,
    ⟨" 1  gw.lan (10.0.0.1)  0.2 ms  0.2 ms".toList, by decide⟩,
    ⟨" 2  a.io (1.1.1.1)  0.4 ms  0.5 ms".toList, by decide⟩]

/-- A message of ping, and the two messages of traceroute on its way to a host. -/
theorem streaming_is_monotone_examples :
    StreamsInto "timings".toList ["resolvedAddress".toList, "resolvedHostname".toList]
      (Ping.runIcmpOn .ascii [] true (Ping.exampleOutput "1.1.1.1".toList (by decide))).messages
      (Ping.runIcmpOn .ascii [] true
        (Ping.exampleOutput "1.1.1.1".toList (by decide))).result.toJson ∧
    ∃ out, Traceroute.runTraceroute .ascii .ascii [] ⟨"a.io".toList, "ICMP".toList, 80, 4⟩ true
        publicTranscript = .ok out ∧ out.messages.length = 2 ∧
      StreamsInto "hops".toList ["resolvedAddress".toList] out.messages out.result.toJson :=
  ⟨(streaming_is_monotone .ascii .ascii [] true _ (by decide)).1 (by decide), _, rfl, rfl,
    (streaming_is_monotone .ascii .ascii [] true publicTranscript (by decide)).2 (by decide)
      ⟨"a.io".toList, "ICMP".toList, 80, 4⟩ _ rfl⟩

end GlobalpingProbe.Command
