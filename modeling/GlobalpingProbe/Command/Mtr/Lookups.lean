import GlobalpingProbe.Command.Arguments
import GlobalpingProbe.Command.Mtr.Run
import GlobalpingProbe.Foundation.Join
import GlobalpingProbe.Foundation.Lines
import GlobalpingProbe.Foundation.Search
import GlobalpingProbe.Foundation.Words

/-! # The lookups of a run of mtr

When mtr has ended, dig is asked for the systems of all hops at once. Only public IPv4 addresses
leave the probe this way, and each hop is shown the numbers that its own address was answered
with, in whatever order the answers come.
-/
namespace GlobalpingProbe.Command.Mtr
open Foundation Net

inductive MtrAsk where
  | mtr (args : List Text)
  | dig (args : List Text)
  deriving DecidableEq, Repr

/-- Without an output, dig did not start or end in time. -/
abbrev MtrAsk.Answer : MtrAsk → Type
  | .mtr _ => MtrProcess
  | .dig _ => Option Text

/-! ## The source -/

def asnArgs (a : Ipv4Addr) : List Text := ["+short".toList, originName a, "TXT".toList]

def askAsn (localIps : List IpAddr) (addr : Option Text) : Program MtrAsk.Answer (List ℕ) :=
  match addr.bind parseIpAddr with
  | none => .done []
  | some ip =>
    if isIpPrivate localIps ip then .done []
    else match ip with
      | .v6 _ => .done []
      | .v4 a => .ask (.dig (asnArgs a)) (fun out => .done ((out.map asnNumbers).getD []))

def askAsns (localIps : List IpAddr) (scheds : ℕ → Schedule) (hops : List MtrHop) :
    Program MtrAsk.Answer (List (List ℕ)) :=
  .joinAll scheds (hops.map (fun h => askAsn localIps h.resolvedAddress))

def withAsns (hops : List MtrHop) (asns : List (List ℕ)) : List MtrHop :=
  List.zipWith (fun h asn => { h with asn := asn }) hops asns

def report (hops : List MtrHop) : ParsedMtr where
  status := .finished
  rawOutput := buildOutput hops
  resolvedAddress := (lastReal hops).bind (·.resolvedAddress)
  resolvedHostname := (lastReal hops).bind (·.resolvedHostname)
  hops := hops

def reportOutput (localIps : List IpAddr) (scheds : ℕ → Schedule) (stdout stderr : Text) :
    Program MtrAsk.Answer ParsedMtr :=
  if (trim stdout).isEmpty then
    .done ⟨.failed,
      if (trim stderr).isEmpty then "Test failed. Please try again.".toList else stderr,
      none, none, []⟩
  else if targetPrivate localIps (parseRaw stdout true) then .done rejection
  else (askAsns localIps scheds (parseRaw stdout true)).bind (fun asns =>
    .done (report (withAsns (parseRaw stdout true) asns)))

def afterMtr (localIps : List IpAddr) (scheds : ℕ → Schedule) :
    MtrProcess → Program MtrAsk.Answer (Except Text ParsedMtr)
  | .timedOut => .done (.error "mtr command timed out".toList)
  | .spawnFailed error => .done (.error ("failed to spawn mtr: ".toList ++ error))
  | .exited stdout stderr =>
    (reportOutput localIps scheds stdout stderr).bind (fun parsed => .done (.ok parsed))

def askMtr (table : CaseTable) (localIps : List IpAddr) (scheds : ℕ → Schedule)
    (opts : MtrOptions) : Program MtrAsk.Answer (Except Text ParsedMtr) :=
  match opts.validate table localIps with
  | .error e => .done (.error e)
  | .ok () => .ask (.mtr (opts.buildArgs table)) (afterMtr localIps scheds)

/-! ## What an answer says -/

/-- The numbers of a record, each behind the one before it, and what stands behind them. -/
def originRecord (asns : List ℕ) (rest : Text) : Text :=
  asns.flatMap (fun n => Nat.toDigits 10 n ++ [' ']) ++ '|' :: rest

theorem splitWhitespace_numbers (asns : List ℕ) :
    splitWhitespace (asns.flatMap (fun n => Nat.toDigits 10 n ++ [' '])) =
      asns.map (Nat.toDigits 10) := by
  induction asns with
  | nil => rfl
  | cons n asns ih =>
    rw [List.flatMap_cons, List.append_assoc, List.singleton_append,
      splitWhitespace_word_cons Nat.toDigits_ne_nil (fun c hc => toDigits_noSpace hc) (by decide),
      ih, List.map_cons]

/-- The end is not cut past an item that stays. -/
theorem rdropWhile_append_cons {p : Char → Bool} {c : Char} (hc : p c = false) (u v : Text) :
    ∃ w, (u ++ c :: v).rdropWhile p = u ++ c :: w := by
  induction v using List.reverseRecOn with
  | nil => exact ⟨[], List.rdropWhile_concat_neg _ _ _ (by simp [hc])⟩
  | append_singleton v d ih =>
    rw [← List.cons_append, ← List.append_assoc]
    by_cases hd : p d = true
    · rw [List.rdropWhile_concat_pos _ _ _ hd]
      exact ih
    · rw [List.rdropWhile_concat_neg _ _ _ hd]
      exact ⟨v ++ [d], by simp⟩

theorem mem_numbers {asns : List ℕ} {c : Char}
    (h : c ∈ asns.flatMap (fun n => Nat.toDigits 10 n ++ [' '])) :
    c = ' ' ∨ isDigitOf 10 c = true := by
  obtain ⟨n, -, hc⟩ := List.mem_flatMap.mp h
  rcases List.mem_append.mp hc with hc | hc
  · exact .inr (isDigitOf_toDigits hc)
  · exact .inl (List.mem_singleton.mp hc)

/-- The quotes around a record are no part of it, nor is what stands behind the bar. -/
theorem takeWhile_quoted {numbers : Text} (hquote : '\"' ∉ numbers) (hbar : '|' ∉ numbers)
    (rest : Text) :
    (trimMatches (· = '\"') ('\"' :: (numbers ++ '|' :: rest))).takeWhile (· ≠ '|') =
      numbers := by
  have hfront : ('\"' :: (numbers ++ '|' :: rest)).dropWhile (· = '\"') =
      numbers ++ '|' :: rest := by
    rw [List.dropWhile_cons_of_pos (by decide)]
    cases numbers with
    | nil => exact List.dropWhile_cons_of_neg (by decide)
    | cons c numbers =>
      have hc : ¬ decide (c = '\"') = true := by
        rw [decide_eq_true_eq]
        rintro rfl
        exact hquote List.mem_cons_self
      exact List.dropWhile_cons_of_neg hc
  obtain ⟨back, hback⟩ := rdropWhile_append_cons (p := fun c => decide (c = '\"')) (c := '|')
    (by decide) numbers rest
  rw [trimMatches, hfront, hback]
  exact takeWhile_ne '|' numbers back hbar

/-- The first record gives its numbers. -/
theorem asnNumbers_record {asns : List ℕ} (hne : asns ≠ []) (hfit : ∀ n ∈ asns, n < 2 ^ 32)
    {rest : Text} (hrest : '\n' ∉ rest) (later : Text) :
    asnNumbers ('\"' :: (originRecord asns rest ++ '\"' :: '\n' :: later)) = asns := by
  let numbers : Text := asns.flatMap (fun n => Nat.toDigits 10 n ++ [' '])
  let line : Text := '\"' :: (numbers ++ '|' :: (rest ++ ['\"']))
  have hend : line = ('\"' :: (numbers ++ '|' :: rest)) ++ ['\"'] := by simp [line]
  have hnone : ∀ c ∈ line, (c == '\n') = false := by
    intro c hc
    apply beq_eq_false_iff_ne.mpr
    rintro rfl
    simp only [line, List.mem_cons, List.mem_append, List.not_mem_nil, or_false] at hc
    rcases hc with hc | hc | hc | hc | hc
    · exact absurd hc (by decide)
    · exact absurd (mem_numbers hc) (by decide)
    · exact absurd hc (by decide)
    · exact hrest hc
    · exact absurd hc (by decide)
  have hlines : lines (line ++ '\n' :: later) = line :: endLines (later.splitOn '\n') := by
    have hcr : stripCr line = line := if_neg (by rw [hend, List.getLast?_concat]; decide)
    rw [lines, List.splitOn, List.splitOnP_append_cons _ _ (by rfl),
      List.splitOnP_eq_singleton hnone, List.singleton_append,
      endLines_cons (List.splitOnP_ne_nil _ _), hcr]
    rfl
  have htrim : trim line = line := by
    rw [show trim line = line.rdropWhile isWhitespace from trim_of_head (by decide) _, hend]
    exact List.rdropWhile_concat_neg _ _ _ (by decide)
  have hpart : (trimMatches (· = '\"') line).takeWhile (· ≠ '|') = numbers :=
    takeWhile_quoted (fun h => absurd (mem_numbers h) (by decide))
      (fun h => absurd (mem_numbers h) (by decide)) _
  have hnums : (splitWhitespace numbers).filterMap (parseUnsigned 32) = asns := by
    rw [splitWhitespace_numbers, List.filterMap_map]
    calc asns.filterMap (parseUnsigned 32 ∘ Nat.toDigits 10)
        = asns.filterMap some :=
          List.filterMap_congr (fun n hn => parseUnsigned_toDigits (hfit n hn))
      _ = asns := List.filterMap_some
  have hsome : asns.isEmpty = false := List.isEmpty_eq_false_iff.mpr hne
  have hout : '\"' :: (originRecord asns rest ++ '\"' :: '\n' :: later) =
      line ++ '\n' :: later := by
    simp [line, originRecord, numbers]
  rw [hout, asnNumbers, hlines, List.findSome?_cons]
  simp only [htrim, hpart, hnums, hsome]
  rfl

/-! ## The lookups one by one -/

section Lookup
variable {localIps : List IpAddr} (answer : (e : MtrAsk) → e.Answer)

/-- What dig answers for a name. -/
def digFor (name : Text) : Option Text := answer (.dig ["+short".toList, name, "TXT".toList])

theorem eval_askAsn (addr : Option Text) : (askAsn localIps addr).eval answer =
    (addr.map (lookupAsn localIps (digFor answer))).getD [] := by
  cases addr with
  | none => rfl
  | some addr =>
    rw [askAsn, Option.bind_some, Option.map_some, Option.getD_some, lookupAsn]
    cases parseIpAddr addr with
    | none => rfl
    | some ip =>
      cases ip with
      | v4 a =>
        dsimp only
        split_ifs <;> rfl
      | v6 a =>
        dsimp only
        split_ifs <;> rfl

theorem withAsns_map (hops : List MtrHop) (f : MtrHop → List ℕ) :
    withAsns hops (hops.map f) = hops.map (fun h => { h with asn := f h }) := by
  rw [withAsns, List.zipWith_map_right, List.zipWith_self]

theorem eval_reportOutput (scheds : ℕ → Schedule) (stdout stderr : Text) :
    (reportOutput localIps scheds stdout stderr).eval answer =
      mtrResult localIps (digFor answer) stdout stderr := by
  rw [reportOutput, mtrResult]
  split_ifs
  · rfl
  · rfl
  · rfl
  · rw [Program.eval_bind, askAsns, Program.eval_joinAll, List.map_map, Function.comp_def]
    simp only [eval_askAsn, withAsns_map]
    rfl

/-- With an answer for each ask, the run gives the result of the lookups made one by one. -/
theorem eval_askMtr (table : CaseTable) (scheds : ℕ → Schedule) (opts : MtrOptions) :
    (askMtr table localIps scheds opts).eval answer =
      runMtr table localIps (digFor answer) opts (answer (.mtr (opts.buildArgs table))) := by
  unfold askMtr runMtr
  cases opts.validate table localIps with
  | error e => rfl
  | ok _ =>
    dsimp only [Program.eval]
    cases answer (.mtr (opts.buildArgs table)) with
    | timedOut => rfl
    | spawnFailed error => rfl
    | exited stdout stderr =>
      rw [afterMtr, Program.eval_bind, eval_reportOutput]
      rfl

end Lookup

/-! ## What is asked, and what is shown -/

/-- dig is asked for the address of one of the hops, a public one. -/
def AsksFor (localIps : List IpAddr) (hops : List MtrHop) (e : MtrAsk) : Prop :=
  ∃ hop ∈ hops, ∃ a, hop.resolvedAddress.bind parseIpAddr = some (.v4 a) ∧
    isIpPrivate localIps (.v4 a) = false ∧ e = .dig (asnArgs a)

/-- The hop has the numbers that its address was answered with. -/
def ShowsAnswer (localIps : List IpAddr) (log : List (Asked MtrAsk.Answer)) (hop : MtrHop) :
    Prop :=
  match hop.resolvedAddress.bind parseIpAddr with
  | some (.v4 a) =>
    if isIpPrivate localIps (.v4 a) then hop.asn = []
    else ∃ out, ⟨.dig (asnArgs a), some out⟩ ∈ log ∧ hop.asn = (out.map asnNumbers).getD []
  | _ => hop.asn = []

section Guarded
variable {localIps : List IpAddr} {hops : List MtrHop} {log : List (Asked MtrAsk.Answer)}

theorem asks_askAsn {hop : MtrHop} (h : hop ∈ hops) :
    (askAsn localIps hop.resolvedAddress).Asks (AsksFor localIps hops) (fun _ => True) := by
  unfold askAsn
  split
  · exact Program.asks_done trivial
  · next ip hip =>
    split_ifs with hprivate
    · exact Program.asks_done trivial
    · split
      · exact Program.asks_done trivial
      · next a =>
        refine Program.asks_ask ⟨hop, h, a, hip, ?_, rfl⟩ (fun out => Program.asks_done trivial)
        simpa using hprivate

/-- The hop after its lookup. -/
theorem shows_of_runs {hop : MtrHop} {l : List (Asked MtrAsk.Answer)} {asn : List ℕ}
    (h : (askAsn localIps hop.resolvedAddress).Runs l (some asn)) (hl : l.Sublist log) :
    ShowsAnswer localIps log { hop with asn := asn } := by
  unfold ShowsAnswer
  unfold askAsn at h
  dsimp only
  cases hip : hop.resolvedAddress.bind parseIpAddr with
  | none =>
    rw [hip] at h
    cases h
    rfl
  | some ip =>
    rw [hip] at h
    cases ip with
    | v6 a =>
      dsimp only at h ⊢
      split_ifs at h <;> cases h <;> rfl
    | v4 a =>
      dsimp only at h ⊢
      split_ifs at h ⊢ with hprivate
      · cases h
        rfl
      · cases h with
        | answered out h =>
          cases h
          exact ⟨out, hl.subset List.mem_cons_self, rfl⟩

theorem shows_withAsns {asns : List (List ℕ)}
    (h : List.Forall₂ (fun p asn => ∃ l, p.Runs l (some asn) ∧ l.Sublist log)
      (hops.map (fun h => askAsn localIps h.resolvedAddress)) asns) :
    ∀ hop ∈ withAsns hops asns, ShowsAnswer localIps log hop := by
  induction hops generalizing asns with
  | nil =>
    intro shown hshown
    rw [withAsns, List.zipWith_nil_left] at hshown
    exact absurd hshown List.not_mem_nil
  | cons hop hops ih =>
    rw [List.map_cons, List.forall₂_cons_left_iff] at h
    obtain ⟨asn, later, ⟨l, hrun, hl⟩, hlater, rfl⟩ := h
    intro shown hshown
    rw [withAsns, List.zipWith_cons_cons] at hshown
    rcases List.mem_cons.mp hshown with rfl | hshown
    · exact shows_of_runs hrun hl
    · exact ih hlater shown hshown

theorem ShowsAnswer.mono {log' : List (Asked MtrAsk.Answer)} {hop : MtrHop}
    (h : ShowsAnswer localIps log hop) (hle : ∀ x ∈ log, x ∈ log') :
    ShowsAnswer localIps log' hop := by
  unfold ShowsAnswer at h ⊢
  split
  · next a hip =>
    rw [hip] at h
    dsimp only at h
    split_ifs at h ⊢
    · exact h
    · obtain ⟨out, hmem, hasn⟩ := h
      exact ⟨out, hle _ hmem, hasn⟩
  · next hip =>
    split at h
    · next a ha => exact absurd ha (hip a)
    · exact h

/-- A result without hops is given without any lookup. -/
theorem unanswered_all {parsed : ParsedMtr} (h : parsed.hops = []) :
    (Program.done parsed : Program MtrAsk.Answer ParsedMtr).All (fun log out =>
      (∀ x ∈ log, AsksFor localIps hops x.ask) ∧
      ∀ parsed, out = some parsed → ∀ hop ∈ parsed.hops, ShowsAnswer localIps log hop) := by
  refine ⟨List.forall_mem_nil _, fun other hout hop hmem => ?_⟩
  rw [← Option.some.inj hout, h] at hmem
  exact absurd hmem List.not_mem_nil

/-- The lookups after mtr has ended. -/
theorem reportOutput_all (scheds : ℕ → Schedule) (stdout stderr : Text) :
    (reportOutput localIps scheds stdout stderr).All (fun log out =>
      (∀ x ∈ log, AsksFor localIps (parseRaw stdout true) x.ask) ∧
      ∀ parsed, out = some parsed → ∀ hop ∈ parsed.hops, ShowsAnswer localIps log hop) := by
  unfold reportOutput
  split_ifs with hblank hprivate
  · exact unanswered_all rfl
  · exact unanswered_all rfl
  · exact unanswered_all rfl
  · have hlookups : ∀ p ∈ (parseRaw stdout true).map (fun h => askAsn localIps h.resolvedAddress),
        p.Asks (AsksFor localIps (parseRaw stdout true)) (fun _ => True) := by
      intro p hp
      obtain ⟨hop, hhop, rfl⟩ := List.mem_map.mp hp
      exact asks_askAsn hhop
    have hasks := Program.asks_joinAll scheds hlookups
    refine Program.all_bind.mpr (Program.all_iff.mpr (fun log out hrun => ?_))
    have hlog := (Program.all_iff.mp hasks log out hrun).1
    cases out with
    | none => exact ⟨hlog, nofun⟩
    | some asns =>
      refine ⟨by simpa using hlog, fun parsed hout => ?_⟩
      obtain ⟨parts, rfl, -, hparts⟩ := Program.runs_joinAll hrun
      rw [← Option.some.inj hout, List.append_nil]
      refine shows_withAsns (List.forall₂_map_right_iff.mpr (hparts.imp ?_))
      exact fun _ part hpart => ⟨part.1, hpart⟩

/-- What a run may ask: mtr first, and dig for the hops that mtr printed. -/
def Guarded (localIps : List IpAddr) (args : List Text) (log : List (Asked MtrAsk.Answer))
    (e : MtrAsk) : Prop :=
  e = .mtr args ∨ ∃ stdout stderr, ⟨.mtr args, some (.exited stdout stderr)⟩ ∈ log ∧
    AsksFor localIps (parseRaw stdout true) e

theorem afterMtr_all (scheds : ℕ → Schedule) (args : List Text) (process : MtrProcess) :
    (afterMtr localIps scheds process).All (fun log out =>
      let whole : List (Asked MtrAsk.Answer) := ⟨.mtr args, some process⟩ :: log
      (∀ x ∈ log, Guarded localIps args whole x.ask) ∧
      ∀ parsed, out = some (.ok parsed) → ∀ hop ∈ parsed.hops, ShowsAnswer localIps whole hop) := by
  cases process with
  | timedOut => exact ⟨List.forall_mem_nil _, nofun⟩
  | spawnFailed error => exact ⟨List.forall_mem_nil _, nofun⟩
  | exited stdout stderr =>
    refine Program.all_bind.mpr ((reportOutput_all scheds stdout stderr).imp ?_)
    rintro log out ⟨hlog, hout⟩
    have hguarded : ∀ x ∈ log, Guarded localIps args
        (⟨.mtr args, some (.exited stdout stderr)⟩ :: log) x.ask :=
      fun x hx => .inr ⟨stdout, stderr, List.mem_cons_self, hlog x hx⟩
    cases out with
    | none => exact ⟨hguarded, nofun⟩
    | some parsed =>
      refine ⟨by simpa using hguarded, fun other heq hop hhop => ?_⟩
      cases heq
      have hshown := (hout parsed rfl hop hhop).mono
        (fun x hx => List.mem_cons_of_mem ⟨.mtr args, some (.exited stdout stderr)⟩ hx)
      simpa using hshown

end Guarded

/-! ## The name of an address -/

theorem decimal_injective {m n : ℕ} (hm : m < 2 ^ 8) (hn : n < 2 ^ 8) (h : decimal m = decimal n) :
    m = n := by
  rw [decimal, decimal, Nat.toList_repr, Nat.toList_repr] at h
  have hread := congrArg (parseUnsigned 8) h
  rw [parseUnsigned_toDigits hm, parseUnsigned_toDigits hn] at hread
  exact Option.some.inj hread

/-- The octets of an address, the last one first. -/
def octetTexts (a : Ipv4Addr) : List Text :=
  [0, 1, 2, 3].map (fun i => decimal (a.extractLsb' (8 * i) 8).toNat)

theorem splitOn_originName (a : Ipv4Addr) : (originName a).splitOn '.' =
    octetTexts a ++ ("origin.asn.cymru.com".toList).splitOn '.' := by
  have hdots : ∀ w ∈ octetTexts a, '.' ∉ w := by
    intro w hw hmem
    obtain ⟨i, -, rfl⟩ := List.mem_map.mp hw
    exact absurd (isDigit_of_mem_decimal hmem) (by decide)
  have hname : originName a = ['.'].intercalate (octetTexts a) ++
      '.' :: "origin.asn.cymru.com".toList := rfl
  rw [hname, List.splitOn_append_cons_self,
    List.splitOn_intercalate '.' hdots (by simp [octetTexts])]

/-- Two addresses are looked up under two names. -/
theorem originName_injective {a b : Ipv4Addr} (h : originName a = originName b) : a = b := by
  have hsplit := congrArg (List.splitOn '.') h
  rw [splitOn_originName, splitOn_originName, List.append_left_inj] at hsplit
  have hoctet : ∀ i ∈ [0, 1, 2, 3],
      (a.extractLsb' (8 * i) 8).toNat = (b.extractLsb' (8 * i) 8).toNat := by
    intro i hi
    have htext := List.map_inj_left.mp hsplit i hi
    exact decimal_injective (BitVec.isLt _) (BitVec.isLt _) htext
  have h0 := hoctet 0 (by decide)
  have h1 := hoctet 1 (by decide)
  have h2 := hoctet 2 (by decide)
  have h3 := hoctet 3 (by decide)
  simp only [BitVec.extractLsb'_toNat, Nat.shiftRight_eq_div_pow] at h0 h1 h2 h3
  have ha := a.isLt
  have hb := b.isLt
  apply BitVec.eq_of_toNat_eq
  omega

/-- Only the public addresses among the hops of mtr are looked up, each under a name of its own,
and every hop is shown with the numbers that its address was answered with. With an answer for
each ask, the order of the answers makes no difference. -/
theorem askMtr_guarded (table : CaseTable) (localIps : List IpAddr) (scheds : ℕ → Schedule)
    (opts : MtrOptions) :
    (askMtr table localIps scheds opts).All (fun log out =>
      (∀ x ∈ log, Guarded localIps (opts.buildArgs table) log x.ask) ∧
      ∀ parsed, out = some (.ok parsed) → ∀ hop ∈ parsed.hops, ShowsAnswer localIps log hop) ∧
    (∀ a b, asnArgs a = asnArgs b → a = b) ∧
    ∀ answer, (askMtr table localIps scheds opts).eval answer =
      runMtr table localIps (digFor answer) opts (answer (.mtr (opts.buildArgs table))) := by
  refine ⟨?_, fun a b h => ?_, fun answer => eval_askMtr answer table scheds opts⟩
  · unfold askMtr
    cases opts.validate table localIps with
    | error e => exact ⟨List.forall_mem_nil _, nofun⟩
    | ok _ =>
      refine ⟨⟨List.forall_mem_singleton.mpr (.inl rfl), nofun⟩, fun process => ?_⟩
      refine (afterMtr_all scheds (opts.buildArgs table) process).imp ?_
      rintro log out ⟨hlog, hout⟩
      exact ⟨List.forall_mem_cons.mpr ⟨.inl rfl, hlog⟩, hout⟩
  · simp only [asnArgs, List.cons.injEq, and_true, true_and] at h
    exact originName_injective h

end GlobalpingProbe.Command.Mtr
