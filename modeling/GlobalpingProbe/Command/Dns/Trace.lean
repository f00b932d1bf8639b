import GlobalpingProbe.Command.Dns.Parse
import GlobalpingProbe.Foundation.Words

/-! # The hops of a traced query

The lines are read in one pass, and what belongs to the current hop is carried along until an
empty line ends it. What is carried is at every line the reading of the block so far.
-/
namespace GlobalpingProbe.Command.Dns
open Foundation Regex

structure TraceHop where
  answers : List DnsAnswer
  timings : DnsTimings
  resolver : Option Text
  deriving DecidableEq, Repr

structure TraceResult where
  status : DnsStatus
  hops : List TraceHop
  rawOutput : Text
  deriving DecidableEq, Repr

/-- `from\s+\S+\(([^)]+)\)\s+in\s+(\d+)\s+ms`. -/
def traceReceivedRe (classes : UnicodeClasses) : Regex Char :=
  concat [lit "from".toList, plus true (chr isWhitespace), plus true (chr (!isWhitespace ·)),
    chr (· = '('), group 1 (plus true (chr (· ≠ ')'))), chr (· = ')'), plus true (chr isWhitespace),
    lit "in".toList, plus true (chr isWhitespace), group 2 (plus true (chr classes.digit)),
    plus true (chr isWhitespace), lit "ms".toList]

def isComment (line : Text) : Bool := ";;".toList.isPrefixOf line

/-- The hops so far and what was read of the current one. -/
structure TraceReading where
  hops : List TraceHop
  currentAnswers : List DnsAnswer
  currentTimings : DnsTimings
  currentResolver : Option Text

namespace TraceReading

def pushHop (reading : TraceReading) : TraceReading :=
  if !reading.currentAnswers.isEmpty || reading.currentResolver.isSome then
    { hops := reading.hops ++
        [⟨reading.currentAnswers, reading.currentTimings, reading.currentResolver⟩]
      currentAnswers := []
      currentTimings := ⟨0⟩
      currentResolver := none }
  else reading

def readLine (classes : UnicodeClasses) (reading : TraceReading) (line : Text) : TraceReading :=
  if line.isEmpty then reading.pushHop
  else if isComment line then
    match (traceReceivedRe classes).captures line with
    | some caps =>
      { reading with
        currentResolver := some (caps.group 1)
        currentTimings := ⟨(parseUnsigned 32 (caps.group 2)).getD 0⟩ }
    | none => reading
  else
    match parseAnswerLine line with
    | some answer => { reading with currentAnswers := reading.currentAnswers ++ [answer] }
    | none => reading

end TraceReading

def parseTraceHops (classes : UnicodeClasses) (ls : List Text) : List TraceHop :=
  (ls.foldl (TraceReading.readLine classes) ⟨[], [], ⟨0⟩, none⟩).pushHop.hops

def parseTrace (classes : UnicodeClasses) (raw : Text) : TraceResult :=
  let ls := raw.splitOn '\n'
  if ls.length < 3 || (ls.head?.map (";; Got bad packet:".toList.isPrefixOf ·)).getD false then
    ⟨.failed, [], raw⟩
  else ⟨.finished, parseTraceHops classes ls, raw⟩

/-! ## The blocks between the empty lines -/

section Block
variable (classes : UnicodeClasses)

/-- The resolver and the time of a comment that tells where an answer was received from. -/
def receivedOf (line : Text) : Option (Text × ℕ) :=
  if isComment line then
    ((traceReceivedRe classes).captures line).map
      (fun caps => (caps.group 1, (parseUnsigned 32 (caps.group 2)).getD 0))
  else none

def answersOf (block : List Text) : List DnsAnswer :=
  (block.filter (!isComment ·)).filterMap parseAnswerLine

/-- The hop of a block, with the resolver and the time of the last line that has them. -/
def hopOf (block : List Text) : TraceHop :=
  let received := (block.filterMap (receivedOf classes)).getLast?
  { answers := answersOf block
    timings := ⟨(received.map Prod.snd).getD 0⟩
    resolver := received.map Prod.fst }

def TraceHop.isKept (hop : TraceHop) : Bool := !hop.answers.isEmpty || hop.resolver.isSome

/-- The reading in front of the rest of a block. -/
def readingOf (hops : List TraceHop) (block : List Text) : TraceReading :=
  ⟨hops, (hopOf classes block).answers, (hopOf classes block).timings,
    (hopOf classes block).resolver⟩

example : receivedOf .ascii ";; Received 79 bytes from 192.0.2.1#53(ns.io) in 4 ms".toList =
    some ("ns.io".toList, 4) := by decide +kernel

end Block

section Pass
variable {classes : UnicodeClasses} {hops : List TraceHop} {block : List Text}

/-- A block that leaves no hop behind leaves nothing for the next one either. -/
theorem hopOf_of_not_kept (h : (hopOf classes block).isKept = false) :
    hopOf classes block = ⟨[], ⟨0⟩, none⟩ := by
  obtain ⟨hanswers, hresolver⟩ := Bool.or_eq_false_iff.mp h
  have hreceived : (block.filterMap (receivedOf classes)).getLast? = none := by
    simpa [hopOf] using hresolver
  have hempty : answersOf block = [] := by
    simpa [hopOf] using hanswers
  simp only [hopOf, hreceived, hempty, Option.map_none, Option.getD_none]

theorem pushHop_readingOf : (readingOf classes hops block).pushHop =
    readingOf classes (hops ++ [hopOf classes block].filter TraceHop.isKept) [] := by
  unfold TraceReading.pushHop
  by_cases hkept : (hopOf classes block).isKept = true
  · rw [List.filter_cons_of_pos hkept]
    exact if_pos hkept
  · have hnone := hopOf_of_not_kept ((Bool.not_eq_true _).mp hkept)
    rw [List.filter_cons_of_neg hkept, List.filter_nil, List.append_nil]
    refine (if_neg hkept).trans ?_
    unfold readingOf
    rw [hnone]
    rfl

theorem answersOf_append (block : List Text) (line : Text) :
    answersOf (block ++ [line]) =
      answersOf block ++ if isComment line then [] else (parseAnswerLine line).toList := by
  cases hcomment : isComment line with
  | true => simp [answersOf, hcomment]
  | false => cases hparse : parseAnswerLine line <;> simp [answersOf, hcomment, hparse]

/-- A comment leaves the answers alone, and may have a resolver and a time. -/
theorem hopOf_append_comment {line : Text} (hcomment : isComment line = true) :
    hopOf classes (block ++ [line]) =
      match (traceReceivedRe classes).captures line with
      | some caps =>
        { hopOf classes block with
          timings := ⟨(parseUnsigned 32 (caps.group 2)).getD 0⟩, resolver := some (caps.group 1) }
      | none => hopOf classes block := by
  have hanswers := answersOf_append block line
  rw [hcomment, if_pos rfl, List.append_nil] at hanswers
  cases hcaps : (traceReceivedRe classes).captures line with
  | none =>
    have hreceived : receivedOf classes line = none := by simp [receivedOf, hcaps]
    simp only [hopOf, hanswers, List.filterMap_append, List.filterMap_cons, List.filterMap_nil,
      hreceived, List.append_nil]
  | some caps =>
    have hreceived : receivedOf classes line =
        some (caps.group 1, (parseUnsigned 32 (caps.group 2)).getD 0) := by
      simp [receivedOf, hcomment, hcaps]
    simp only [hopOf, hanswers, List.filterMap_append, List.filterMap_cons, List.filterMap_nil,
      hreceived, List.getLast?_concat, Option.map_some, Option.getD_some]

/-- Any other line may have one more answer. -/
theorem hopOf_append_record {line : Text} (hcomment : isComment line = false) :
    hopOf classes (block ++ [line]) =
      { hopOf classes block with
        answers := (hopOf classes block).answers ++ (parseAnswerLine line).toList } := by
  have hanswers := answersOf_append block line
  rw [hcomment, if_neg Bool.false_ne_true] at hanswers
  have hreceived : receivedOf classes line = none := by simp [receivedOf, hcomment]
  simp only [hopOf, hanswers, List.filterMap_append, List.filterMap_cons, List.filterMap_nil,
    hreceived, List.append_nil]

/-- A line that is not empty becomes part of the block. -/
theorem readLine_readingOf {line : Text} (hline : line.isEmpty = false) :
    (readingOf classes hops block).readLine classes line =
      readingOf classes hops (block ++ [line]) := by
  unfold TraceReading.readLine readingOf
  rw [if_neg (by rw [hline]; exact Bool.false_ne_true)]
  cases hcomment : isComment line with
  | true =>
    rw [if_pos rfl, hopOf_append_comment hcomment]
    cases (traceReceivedRe classes).captures line <;> rfl
  | false =>
    rw [if_neg Bool.false_ne_true, hopOf_append_record hcomment]
    cases parseAnswerLine line with
    | none => simp only [Option.toList_none, List.append_nil]
    | some answer => rfl

/-- The pass from the middle of a block: the lines up to the next empty one belong to it. -/
theorem foldl_readLine (classes : UnicodeClasses) (ls : List Text) (hops : List TraceHop)
    (block : List Text) :
    (ls.foldl (TraceReading.readLine classes) (readingOf classes hops block)).pushHop.hops =
      hops ++ (((ls.splitOnP List.isEmpty).modifyHead (block ++ ·)).map (hopOf classes)).filter
        TraceHop.isKept := by
  induction ls generalizing hops block with
  | nil =>
    rw [List.foldl_nil, pushHop_readingOf]
    simp [readingOf]
  | cons line ls ih =>
    rw [List.foldl_cons, List.splitOnP_cons_eq_if_modifyHead]
    cases hline : line.isEmpty with
    | true =>
      have hstep : (readingOf classes hops block).readLine classes line =
          readingOf classes (hops ++ [hopOf classes block].filter TraceHop.isKept) [] := by
        rw [← pushHop_readingOf]
        exact if_pos hline
      rw [hstep, ih, if_pos rfl, List.modifyHead_cons, List.map_cons, List.append_nil,
        List.append_assoc, ← List.filter_append]
      cases ls.splitOnP List.isEmpty <;> rfl
    | false =>
      rw [readLine_readingOf hline, ih, if_neg Bool.false_ne_true]
      cases hsplit : ls.splitOnP List.isEmpty with
      | nil => rfl
      | cons first rest =>
        simp only [List.modifyHead_cons, List.append_assoc, List.singleton_append]

/-- An empty line has no answer. -/
theorem answersOf_filter_isEmpty (ls : List Text) :
    answersOf (ls.filter (fun line => !line.isEmpty)) = answersOf ls := by
  induction ls with
  | nil => rfl
  | cons line ls ih =>
    cases line with
    | nil => exact ih
    | cons c line =>
      rw [List.filter_cons_of_pos rfl]
      unfold answersOf at ih ⊢
      cases hcomment : isComment (c :: line) with
      | true => simpa [hcomment] using ih
      | false =>
        simp only [List.filter_cons, hcomment, Bool.not_false, if_true, List.filterMap_cons, ih]

/-- The answers of the lines are those of the blocks, one after the other. -/
theorem flatMap_answersOf_blocks (ls : List Text) :
    (ls.splitOnP List.isEmpty).flatMap answersOf = answersOf ls := by
  have hblocks : (ls.splitOnP List.isEmpty).flatMap answersOf =
      answersOf (ls.splitOnP List.isEmpty).flatten := by
    simp only [answersOf, List.filter_flatten, List.filterMap_flatten, List.flatMap_def,
      List.map_map]
    rfl
  rw [hblocks, flatten_splitOnP, answersOf_filter_isEmpty]

/-- The answers of the hops that are kept are all the answers. -/
theorem flatMap_answers_filter (blocks : List (List Text)) :
    ((blocks.map (hopOf classes)).filter TraceHop.isKept).flatMap TraceHop.answers =
      blocks.flatMap answersOf := by
  induction blocks with
  | nil => rfl
  | cons block blocks ih =>
    rw [List.map_cons, List.flatMap_cons]
    by_cases hkept : (hopOf classes block).isKept = true
    · rw [List.filter_cons_of_pos hkept, List.flatMap_cons, ih]
      rfl
    · have hnone := hopOf_of_not_kept ((Bool.not_eq_true _).mp hkept)
      have hempty : answersOf block = [] := congrArg TraceHop.answers hnone
      rw [List.filter_cons_of_neg hkept, hempty, ih]
      rfl

end Pass

/-- The hops are the blocks between the empty lines, without those that say nothing; every answer
of the lines is in one of them, in the order of the lines. -/
theorem parseTraceHops_eq_blocks (classes : UnicodeClasses) (ls : List Text) :
    parseTraceHops classes ls =
      ((ls.splitOnP List.isEmpty).map (hopOf classes)).filter TraceHop.isKept ∧
    (parseTraceHops classes ls).flatMap TraceHop.answers = answersOf ls := by
  have hblocks : parseTraceHops classes ls =
      ((ls.splitOnP List.isEmpty).map (hopOf classes)).filter TraceHop.isKept := by
    have hpass := foldl_readLine classes ls [] []
    rw [List.nil_append] at hpass
    refine hpass.trans ?_
    cases ls.splitOnP List.isEmpty <;> rfl
  refine ⟨hblocks, ?_⟩
  rw [hblocks, flatMap_answers_filter, flatMap_answersOf_blocks]

end GlobalpingProbe.Command.Dns
