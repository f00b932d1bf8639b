import GlobalpingProbe.Command.Ping.Run
import GlobalpingProbe.Foundation.Snapshots

/-! # Private targets of ping

The header alone decides the address, so that the first line settles whether the target is
private. If it is, the run ends there; if it is not, no later line can end it.
-/
namespace GlobalpingProbe.Command.Ping
open Foundation Regex Net
open Traceroute (StdoutLine)

variable {classes : UnicodeClasses} {localIps : List IpAddr} {header line : StdoutLine}
  {stdout later : List StdoutLine}

def rawText (stdout : List StdoutLine) : Text := (stdout.map (·.val)).flatMap endLf

/-- The address in what `parse` makes of the first line is private. -/
def HeaderPrivate (classes : UnicodeClasses) (localIps : List IpAddr)
    (stdout : List StdoutLine) : Prop :=
  ∃ line addr ip, stdout.head? = some line ∧
    (parse classes (rawText [line])).resolvedAddress = some addr ∧
    parseIpAddr addr = some ip ∧ isIpPrivate localIps ip = true

instance : Decidable (HeaderPrivate classes localIps stdout) :=
  decidable_of_iff (∃ line ∈ stdout.head?,
      ((parse classes (rawText [line])).resolvedAddress.bind parseIpAddr).any
        (isIpPrivate localIps) = true) <| by
    simp only [HeaderPrivate, Option.mem_def, Option.any_eq_true, Option.bind_eq_some_iff]
    constructor
    · rintro ⟨line, hline, ip, ⟨addr, haddr, hip⟩, hprivate⟩
      exact ⟨line, addr, ip, hline, haddr, hip, hprivate⟩
    · rintro ⟨line, addr, ip, hline, haddr, hip, hprivate⟩
      exact ⟨line, hline, ip, ⟨addr, haddr, hip⟩, hprivate⟩

/-! ## The header -/

theorem parse_resolvedAddress (classes : UnicodeClasses) (raw : Text) :
    (parse classes raw).resolvedAddress = resolvedAddress raw := by
  unfold parse resolvedAddress
  cases lines raw with
  | nil => rfl
  | cons header replies =>
    cases hcaps : (headerRe.exec header).head? with
    | none => simp [hcaps]
    | some caps => simp [hcaps]

theorem rawText_concat (stdout : List StdoutLine) (line : StdoutLine) :
    rawText (stdout ++ [line]) = rawText stdout ++ line.val ++ ['\n'] := by
  simp [rawText, endLf]

theorem lines_rawText (stdout : List StdoutLine) :
    lines (rawText stdout) = stdout.map (fun l => stripCr l.val) := by
  rw [rawText, lines_flatMap_endLf, List.map_map]
  · rfl
  · intro l hl
    obtain ⟨k, -, rfl⟩ := List.mem_map.mp hl
    exact k.property

/-- Later lines do not change the address. -/
theorem resolvedAddress_rawText (header : StdoutLine) (later : List StdoutLine) :
    resolvedAddress (rawText (header :: later)) = resolvedAddress (rawText [header]) := by
  simp [resolvedAddress, lines_rawText]

theorem headerPrivate_cons : HeaderPrivate classes localIps (header :: later) ↔
    ∃ addr, resolvedAddress (rawText [header]) = some addr ∧
      (parseIpAddr addr).any (isIpPrivate localIps) = true := by
  simp only [HeaderPrivate, parse_resolvedAddress, List.head?_cons, Option.some.injEq,
    Option.any_eq_true]
  constructor
  · rintro ⟨line, addr, ip, rfl, haddr, hip, hprivate⟩
    exact ⟨addr, haddr, ip, hip, hprivate⟩
  · rintro ⟨addr, haddr, ip, hip, hprivate⟩
    exact ⟨header, addr, ip, rfl, haddr, hip, hprivate⟩

/-! ## The loop -/

/-- What a reply line sends, given all lines up to it. -/
def packetSnapshot (classes : UnicodeClasses) (progress : Bool) (read : List StdoutLine) :
    List Json :=
  if progress && read.getLast?.any (fun line => isPacketLine line.val) then
    packetProgress classes (rawText read) else []

theorem packetSnapshot_concat (progress : Bool) (read : List StdoutLine) (line : StdoutLine) :
    packetSnapshot classes progress (read ++ [line]) =
      if progress && isPacketLine line.val then
        packetProgress classes (rawText (read ++ [line])) else [] := by
  simp [packetSnapshot]

/-- The state of a run that has read these lines and goes on. -/
def settled (classes : UnicodeClasses) (progress : Bool) (read : List StdoutLine) : IcmpRun :=
  ⟨⟨rawText read, resolvedAddress (rawText read), false⟩,
    snapshots (packetSnapshot classes progress) read⟩

theorem readLine_later (progress : Bool) (header line : StdoutLine) (read : List StdoutLine) :
    (settled classes progress (header :: read)).readLine classes localIps progress line.val =
      (settled classes progress (header :: read ++ [line]), false) := by
  have hsame : resolvedAddress (rawText (header :: read ++ [line])) =
      resolvedAddress (rawText (header :: read)) := by
    rw [List.cons_append, resolvedAddress_rawText header (read ++ [line]),
      resolvedAddress_rawText header read]
  have hread : Ping.readLine localIps (settled classes progress (header :: read)).reading line.val =
      (⟨rawText (header :: read ++ [line]), resolvedAddress (rawText (header :: read ++ [line])),
        false⟩, false) := by
    unfold Ping.readLine settled
    simp only [← rawText_concat, hsame]
    cases resolvedAddress (rawText (header :: read)) <;> rfl
  simp only [IcmpRun.readLine, hread]
  rw [settled, settled, snapshots_concat, packetSnapshot_concat]

theorem readLines_later (progress : Bool) (header : StdoutLine) (read later : List StdoutLine) :
    (settled classes progress (header :: read)).readLines classes localIps progress later =
      settled classes progress (header :: read ++ later) := by
  induction later generalizing read with
  | nil => rw [List.append_nil, IcmpRun.readLines]
  | cons line later ih =>
    rw [IcmpRun.readLines, readLine_later]
    change (settled classes progress (header :: (read ++ [line]))).readLines _ _ _ _ = _
    rw [ih (read ++ [line])]
    simp

theorem readLine_first (progress : Bool) (header : StdoutLine) :
    (IcmpRun.mk ⟨[], none, false⟩ []).readLine classes localIps progress header.val =
      if ∃ addr, resolvedAddress (rawText [header]) = some addr ∧
          (parseIpAddr addr).any (isIpPrivate localIps) = true then
        (⟨⟨rawText [header], none, true⟩, []⟩, true)
      else (settled classes progress [header], false) := by
  have hraw : [] ++ header.val ++ ['\n'] = rawText [header] := by simp [rawText, endLf]
  have hnone : snapshots (packetSnapshot classes progress) [header] =
      packetSnapshot classes progress [header] := by
    rw [← List.nil_append [header], snapshots_concat, snapshots_nil]
    simp [packetSnapshot]
  unfold IcmpRun.readLine Ping.readLine settled
  rw [hnone]
  simp only [hraw]
  cases haddr : resolvedAddress (rawText [header]) with
  | none => simp [packetSnapshot]
  | some addr =>
    by_cases hprivate : (parseIpAddr addr).any (isIpPrivate localIps) = true
    · simp [hprivate]
    · simp [hprivate, packetSnapshot]

/-- Without a private address, the messages are the snapshots of what has been read. -/
theorem runIcmpOn_of_not_private (progress : Bool) (h : ¬ HeaderPrivate classes localIps stdout) :
    runIcmpOn classes localIps progress stdout =
      ⟨snapshots (packetSnapshot classes progress) stdout, parse classes (rawText stdout)⟩ := by
  cases stdout with
  | nil => simp [runIcmpOn, IcmpRun.readLines, snapshots_nil, packetSnapshot, rawText]
  | cons header later =>
    have hfirst : (IcmpRun.mk ⟨[], none, false⟩ []).readLine classes localIps progress header.val =
        (settled classes progress [header], false) := by
      rw [readLine_first, if_neg (fun hp => h (headerPrivate_cons.mpr hp))]
    rw [runIcmpOn, IcmpRun.readLines, hfirst]
    simp only [readLines_later]
    rw [settled]
    simp

def exampleOutput (addr : Text) (h : '\n' ∉ addr) : List StdoutLine :=
  [⟨"PING a.io (".toList ++ addr ++ ") 56(84) bytes of data.".toList, by simp [h]⟩,
    ⟨"64 bytes from a.io: icmp_seq=1 ttl=64 time=0.12 ms".toList, by decide⟩]

end GlobalpingProbe.Command.Ping
