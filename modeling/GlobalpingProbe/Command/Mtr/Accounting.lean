import GlobalpingProbe.Command.Mtr.Duplicates

/-! # The probes of a hop and what is counted of them

What a hop counts is decided by the `x` and `p` lines of its own index: a probe is a
sequence token sent, in the order of first sending, and its answer is the last reply with
that token after it was sent. Lines of other indices and other kinds change nothing.
-/
namespace GlobalpingProbe.Command.Mtr
open Foundation

/-- The index that a line is about. -/
def lineIndex (line : Text) : Option ℕ :=
  match splitn ' ' 4 line with
  | _ :: number :: _ :: _ => parseUnsigned 64 number
  | _ => none

def linesOf (data : Text) (i : ℕ) : List Text :=
  (lines data).filter (fun line => lineIndex line = some i)

inductive ProbeEvent where
  /-- `x i s` -/
  | sent (seq : Text)
  /-- `p i r s`, in microseconds. -/
  | reply (rttUs : F64) (seq : Text)
  deriving DecidableEq, Repr

def probeEvent (line : Text) : Option ProbeEvent :=
  match splitn ' ' 4 line with
  | action :: _ :: arg :: rest =>
    if action = ['x'] then some (.sent arg)
    else if action = ['p'] then
      match rest, F64.parse arg with
      | seq :: _, some rttUs => some (.reply rttUs (trim seq))
      | _, _ => none
    else none
  | _ => none

namespace ProbeEvent

def sentSeq : ProbeEvent → Option Text
  | .sent seq => some seq
  | .reply .. => none

/-- The time that a reply to this token reports. -/
def replyTo (seq : Text) : ProbeEvent → Option F64
  | .sent _ => none
  | .reply rttUs s => if s = seq then some rttUs else none

end ProbeEvent

/-- The distinct tokens that were sent, in the order of their first sending. -/
def sequences (es : List ProbeEvent) : List Text := (es.filterMap ProbeEvent.sentSeq).eraseDups

/-- The last reply to a token after it was first sent. -/
def lastReply (es : List ProbeEvent) (seq : Text) : Option F64 :=
  lastSome (ProbeEvent.replyTo seq) (es.dropWhile (· ≠ .sent seq))

/-- The counts and the timings of a hop are those of the probes in the lines of its index. -/
def AccountsFor (ls : List Text) (hop : MtrHop) : Prop :=
  let es := ls.filterMap probeEvent
  let answered := (sequences es).filterMap (lastReply es)
  hop.stats.total = (sequences es).length ∧
    hop.stats.rcv = (sequences es).countP (fun seq => (lastReply es seq).isSome) ∧
    hop.stats.rcv ≤ hop.stats.total ∧ hop.stats.drop = hop.stats.total - hop.stats.rcv ∧
    hop.timings = answered.map (fun rttUs => ⟨some (rttUs.divNat 1000)⟩) ∧
    hop.timings.length = hop.stats.rcv

/-! ## The timings that the probes of an index build up -/

def pushSent (seq : Text) (timings : List (Text × Option F64)) : List (Text × Option F64) :=
  if timings.any (·.1 = seq) then timings else timings ++ [(seq, none)]

def stepTimings (timings : List (Text × Option F64)) : ProbeEvent → List (Text × Option F64)
  | .sent seq => pushSent seq timings
  | .reply rttUs seq => answer seq (rttUs.divNat 1000) timings

/-- What a probe has come to. -/
def probeTiming (es : List ProbeEvent) (seq : Text) : Text × Option F64 :=
  (seq, (lastReply es seq).map (·.divNat 1000))

theorem eraseDups_concat {α : Type} [BEq α] [LawfulBEq α] [DecidableEq α] (l : List α) (a : α) :
    (l ++ [a]).eraseDups = if a ∈ l then l.eraseDups else l.eraseDups ++ [a] := by
  rw [List.eraseDups_append]
  by_cases h : a ∈ l
  · have hnone : [a].removeAll l = [] := by simp [List.removeAll, h]
    rw [if_pos h, hnone, List.eraseDups_nil, List.append_nil]
  · have hone : [a].removeAll l = [a] := by simp [List.removeAll, h]
    rw [if_neg h, hone]
    rfl

theorem nodup_eraseDups {α : Type} [BEq α] [LawfulBEq α] [DecidableEq α] (l : List α) :
    l.eraseDups.Nodup := by
  induction l using List.reverseRecOn with
  | nil => exact List.nodup_nil
  | append_singleton l a ih =>
    rw [eraseDups_concat]
    by_cases h : a ∈ l
    · rwa [if_pos h]
    · rw [if_neg h, List.nodup_append]
      refine ⟨ih, by simp, ?_⟩
      intro b hb c hc heq
      rw [List.mem_singleton.mp hc] at heq
      exact h (List.mem_eraseDups.mp (heq ▸ hb))

section Probes
variable (es : List ProbeEvent)

theorem mem_sequences {seq : Text} : seq ∈ sequences es ↔ ProbeEvent.sent seq ∈ es := by
  rw [sequences, List.mem_eraseDups, List.mem_filterMap]
  constructor
  · rintro ⟨e, he, hs⟩
    cases e with
    | sent s =>
      cases hs
      exact he
    | reply => cases hs
  · intro h
    exact ⟨.sent seq, h, rfl⟩

theorem sequences_nodup : (sequences es).Nodup := nodup_eraseDups _

theorem sequences_concat_reply (rttUs : F64) (seq : Text) :
    sequences (es ++ [.reply rttUs seq]) = sequences es := by
  rw [sequences, List.filterMap_append]
  exact congrArg List.eraseDups (List.append_nil _)

theorem sequences_concat_sent (seq : Text) : sequences (es ++ [.sent seq]) =
    if seq ∈ sequences es then sequences es else sequences es ++ [seq] := by
  have hmap : (es ++ [ProbeEvent.sent seq]).filterMap ProbeEvent.sentSeq =
      es.filterMap ProbeEvent.sentSeq ++ [seq] := List.filterMap_append
  rw [sequences, hmap, eraseDups_concat]
  simp only [sequences, List.mem_eraseDups]

theorem dropWhile_concat_of_mem {seq : Text} (h : ProbeEvent.sent seq ∈ es) (e : ProbeEvent) :
    (es ++ [e]).dropWhile (· ≠ .sent seq) = es.dropWhile (· ≠ .sent seq) ++ [e] := by
  rw [List.dropWhile_append, if_neg]
  rw [List.isEmpty_iff, List.dropWhile_eq_nil_iff]
  intro hall
  simpa using hall _ h

theorem lastReply_concat {seq : Text} (h : seq ∈ sequences es) (e : ProbeEvent) :
    lastReply (es ++ [e]) seq = (e.replyTo seq).or (lastReply es seq) := by
  rw [lastReply, dropWhile_concat_of_mem es ((mem_sequences es).mp h), lastSome_concat, lastReply]

/-- A token that was not sent before has no reply that counts. -/
theorem lastReply_concat_new {seq : Text} (h : seq ∉ sequences es) :
    lastReply (es ++ [.sent seq]) seq = none := by
  have hnone : ∀ e ∈ es, decide (e ≠ .sent seq) = true := by
    intro e he
    exact decide_eq_true (fun heq => h ((mem_sequences es).mpr (heq ▸ he)))
  rw [lastReply, List.dropWhile_append_of_pos hnone]
  simp [lastSome, ProbeEvent.replyTo]

/-- With distinct tokens, the answer goes to the probe with the token and to no other. -/
theorem answer_map {seqs : List Text} (hnodup : seqs.Nodup) (f : Text → Option F64) (seq : Text)
    (rtt : F64) : answer seq rtt (seqs.map (fun s => (s, f s))) =
      seqs.map (fun s => (s, if s = seq then some rtt else f s)) := by
  induction seqs with
  | nil => rfl
  | cons s seqs ih =>
    obtain ⟨hs, hnodup⟩ := List.nodup_cons.mp hnodup
    rw [List.map_cons, List.map_cons, answer]
    by_cases heq : s = seq
    · rw [if_pos heq, if_pos heq]
      congr 1
      apply List.map_congr_left
      intro t ht
      rw [if_neg]
      rintro rfl
      exact hs (heq ▸ ht)
    · rw [if_neg heq, if_neg heq, ih hnodup]

theorem stepTimings_probes (e : ProbeEvent) :
    stepTimings ((sequences es).map (probeTiming es)) e =
      (sequences (es ++ [e])).map (probeTiming (es ++ [e])) := by
  cases e with
  | sent seq =>
    have hold : ∀ s ∈ sequences es, probeTiming (es ++ [.sent seq]) s = probeTiming es s := by
      intro s hs
      rw [probeTiming, lastReply_concat es hs]
      rfl
    have hany : ((sequences es).map (probeTiming es)).any (·.1 = seq) = true ↔
        seq ∈ sequences es := by
      rw [List.any_map, List.any_eq_true]
      constructor
      · rintro ⟨s, hs, heq⟩
        exact of_decide_eq_true heq ▸ hs
      · intro hs
        exact ⟨seq, hs, decide_eq_true rfl⟩
    rw [stepTimings, pushSent, sequences_concat_sent]
    by_cases h : seq ∈ sequences es
    · rw [if_pos (hany.mpr h), if_pos h]
      exact (List.map_congr_left hold).symm
    · rw [if_neg (fun hp => h (hany.mp hp)), if_neg h, List.map_append, List.map_congr_left hold]
      simp [probeTiming, lastReply_concat_new es h]
  | reply rttUs seq =>
    rw [stepTimings, sequences_concat_reply]
    refine (answer_map (sequences_nodup es) _ seq _).trans (List.map_congr_left ?_)
    intro s hs
    rw [probeTiming, lastReply_concat es hs, ProbeEvent.replyTo]
    by_cases h : s = seq
    · simp [h]
    · simp [h, Ne.symm h]

/-- The timings after any sends and replies: one for every token, with its last reply. -/
theorem foldl_stepTimings :
    es.foldl stepTimings [] = (sequences es).map (probeTiming es) := by
  induction es using List.reverseRecOn with
  | nil => rfl
  | append_singleton es e ih => rw [List.foldl_concat, ih, stepTimings_probes]

end Probes

/-! ## What a line does to the timings of an index -/

namespace RawReading

def timings (r : RawReading) (i : ℕ) : List (Text × Option F64) :=
  ((r.entry i).map (·.timings)).getD []

theorem timings_grow (r : RawReading) (idx i : ℕ) : (r.grow idx).timings i = r.timings i := by
  rw [timings, grow_entry]
  rfl

theorem getOrInsert_timings (r : RawReading) (idx : ℕ) :
    (r.getOrInsert idx).timings = r.timings idx := by
  unfold getOrInsert timings
  cases r.entry idx <;> rfl

theorem timings_setEntry {r : RawReading} {idx : ℕ} (h : idx < r.builders.length)
    (b : HopBuilder) (i : ℕ) :
    (r.setEntry idx b).timings i = if idx = i then b.timings else r.timings i := by
  rw [timings, setEntry_entry h]
  split_ifs <;> rfl

/-- An entry that keeps its timings. -/
theorem timings_setEntry_same {r : RawReading} {idx : ℕ} (h : idx < r.builders.length)
    {b : HopBuilder} (hb : b.timings = r.timings idx) (i : ℕ) :
    (r.setEntry idx b).timings i = r.timings i := by
  rw [timings_setEntry h]
  split_ifs with hi
  · rw [hb, hi]
  · rfl

section Line
variable {r : RawReading} {idx : ℕ}

theorem timings_readHost (h : idx < r.builders.length) (addr : Text) (i : ℕ) :
    (r.readHost idx addr).timings i = r.timings i :=
  timings_setEntry_same h (by exact getOrInsert_timings r idx) i

theorem timings_readName (h : idx < r.builders.length) (hn : Text) (i : ℕ) :
    (r.readName idx hn).timings i = r.timings i := by
  have hset := timings_setEntry_same (b := { r.getOrInsert idx with resolvedHostname := some hn }) h
    (by exact getOrInsert_timings r idx) i
  unfold readName
  dsimp only
  split
  · exact hset
  · exact hset

theorem timings_readSent (h : idx < r.builders.length) (seq : Text) (i : ℕ) :
    (r.readSent idx seq).timings i =
      if idx = i then stepTimings (r.timings i) (.sent seq) else r.timings i := by
  rw [readSent, timings_setEntry h]
  by_cases hi : idx = i
  · subst hi
    rw [if_pos rfl, if_pos rfl, stepTimings, pushSent, getOrInsert_timings]
    split_ifs
    · exact getOrInsert_timings r idx
    · rfl
  · rw [if_neg hi, if_neg hi]

theorem timings_readReply (h : idx < r.builders.length) (rttUs : F64) (seq : Text) (i : ℕ) :
    (r.readReply idx rttUs seq).timings i =
      if idx = i then stepTimings (r.timings i) (.reply rttUs seq) else r.timings i := by
  unfold readReply
  cases he : r.entry idx with
  | none =>
    -- without an entry there is no probe that the reply could answer
    by_cases hi : idx = i
    · subst hi
      rw [if_pos rfl, timings, he]
      rfl
    · rw [if_neg hi]
  | some entry =>
    rw [timings_setEntry h]
    by_cases hi : idx = i
    · subst hi
      rw [if_pos rfl, if_pos rfl, timings, he]
      rfl
    · rw [if_neg hi, if_neg hi]

/-- A line is a step of the timings of its own index, if it is one at all. -/
theorem timings_readLine (r : RawReading) (line : Text) (i : ℕ) :
    (r.readLine line).timings i =
      if lineIndex line = some i then (probeEvent line).elim (r.timings i) (stepTimings (r.timings i))
      else r.timings i := by
  unfold readLine lineIndex probeEvent
  rcases splitn ' ' 4 line with _ | ⟨action, _ | ⟨number, _ | ⟨arg, rest⟩⟩⟩
  · simp
  · simp
  · simp
  · simp only
    cases hidx : parseUnsigned 64 number with
    | none => simp
    | some idx =>
      have hlt := r.lt_length_grow idx
      simp only [Option.some.injEq]
      by_cases hh : action = ['h']
      · simp [hh, timings_readHost hlt, timings_grow]
      by_cases hd : action = ['d']
      · simp [hd, timings_readName hlt, timings_grow]
      by_cases hx : action = ['x']
      · simp [hx, timings_readSent hlt, timings_grow]
      by_cases hp : action = ['p']
      · simp only [hp, List.cons.injEq, Char.reduceEq, and_true, if_false, if_true]
        cases rest with
        | nil => simp [timings_grow]
        | cons seq rest =>
          cases F64.parse arg with
          | none => simp [timings_grow]
          | some rttUs => simp [timings_readReply hlt, timings_grow]
      · simp [hh, hd, hx, hp, timings_grow]

end Line
end RawReading

theorem readLines_timings (ls : List Text) (i : ℕ) :
    (ls.foldl RawReading.readLine .new).timings i =
      ((ls.filter (fun line => lineIndex line = some i)).filterMap probeEvent).foldl
        stepTimings [] := by
  induction ls using List.reverseRecOn with
  | nil => rfl
  | append_singleton ls line ih =>
    rw [List.foldl_concat, RawReading.timings_readLine, List.filter_append]
    by_cases h : lineIndex line = some i
    · have hline : [line].filter (fun line => lineIndex line = some i) = [line] := by simp [h]
      rw [if_pos h, hline, List.filterMap_append, ih]
      cases he : probeEvent line <;> simp [he]
    · have hline : [line].filter (fun line => lineIndex line = some i) = [] := by simp [h]
      rw [if_neg h, hline, List.append_nil, ih]

/-- The timings of an index: one for every token sent in its lines, with its last reply. -/
theorem readRaw_timings (data : Text) (i : ℕ) :
    let es := (linesOf data i).filterMap probeEvent
    (readRaw data).timings i = (sequences es).map (probeTiming es) :=
  (readLines_timings (lines data) i).trans (foldl_stepTimings _)

/-! ## The hops that are returned -/

theorem propagate_timings (names : List (Text × Text)) (b : HopBuilder) :
    (b.propagate names).timings = b.timings := by
  unfold HopBuilder.propagate
  split_ifs
  · split <;> rfl
  · rfl

theorem computeStats_total (timings : List HopTiming) (isFinal : Bool) :
    (computeStats timings isFinal).total = timings.length := by
  unfold computeStats
  cases timings <;> rfl

/-- In the final output every probe counts, as received or as dropped. -/
theorem computeStats_rcv (timings : List HopTiming) :
    (computeStats timings true).rcv = timings.countP (·.rtt.isSome) := by
  unfold computeStats
  cases timings <;> rfl

theorem computeStats_drop (timings : List HopTiming) :
    (computeStats timings true).drop = timings.countP (·.rtt.isNone) := by
  unfold computeStats
  cases timings <;> rfl

/-- The returned hops come from the entries of the kept indices. -/
theorem forall₂_keptIndices (data : Text) (isFinal : Bool) :
    List.Forall₂ (fun i hop => hopAt data isFinal i = some hop) (keptIndices data)
      (parseRaw data isFinal) := by
  have h := parseRaw_kept data isFinal
  rw [← List.forall₂_eq_eq_eq, List.forall₂_map_left_iff, List.forall₂_map_right_iff] at h
  exact h.flip.imp (fun _ _ he => he.symm)

section Counts
variable (es : List ProbeEvent)

/-- The timings that the statistics are computed from. -/
def hopTimings : List HopTiming := (sequences es).map (fun seq => ⟨(probeTiming es seq).2⟩)

theorem countP_isSome : (hopTimings es).countP (·.rtt.isSome) =
    (sequences es).countP (fun seq => (lastReply es seq).isSome) := by
  rw [hopTimings, List.countP_map]
  simp [probeTiming, Function.comp_def]

theorem countP_isNone : (hopTimings es).countP (·.rtt.isNone) =
    (sequences es).length - (sequences es).countP (fun seq => (lastReply es seq).isSome) := by
  have hsum := List.length_eq_countP_add_countP (fun t : HopTiming => t.rtt.isSome)
    (l := hopTimings es)
  have hlen : (hopTimings es).length = (sequences es).length := List.length_map _
  simp only [Bool.not_eq_true, Option.isSome_eq_false_iff, Bool.decide_eq_true] at hsum
  rw [countP_isSome, hlen] at hsum
  omega

/-- Without the lost ones, the timings are the answers in order. -/
theorem filter_hopTimings : (hopTimings es).filter (·.rtt.isSome) =
    ((sequences es).filterMap (lastReply es)).map (fun rttUs => ⟨some (rttUs.divNat 1000)⟩) := by
  unfold hopTimings
  induction sequences es with
  | nil => rfl
  | cons seq seqs ih =>
    cases h : lastReply es seq <;> simp [probeTiming, h] at ih ⊢ <;> exact ih

theorem length_filterMap_lastReply : ((sequences es).filterMap (lastReply es)).length =
    (sequences es).countP (fun seq => (lastReply es seq).isSome) := by
  rw [List.length_filterMap_eq_countP]

end Counts

theorem accountsFor_of_hopAt {data : Text} {i : ℕ} {hop : MtrHop}
    (h : hopAt data true i = some hop) : AccountsFor (linesOf data i) hop := by
  obtain ⟨b, hb, rfl⟩ := Option.map_eq_some_iff.mp h
  have htimings : b.timings = (readRaw data).timings i := by
    rw [RawReading.timings, hb]
    rfl
  rw [readRaw_timings] at htimings
  have hmap : (b.propagate (readRaw data).addrToHostname).timings.map (fun t => ⟨t.2⟩) =
      hopTimings ((linesOf data i).filterMap probeEvent) := by
    rw [propagate_timings, htimings, List.map_map]
    rfl
  unfold AccountsFor HopBuilder.toHop
  dsimp only
  rw [hmap, computeStats_total, computeStats_rcv, computeStats_drop, countP_isSome, countP_isNone,
    filter_hopTimings, hopTimings, List.length_map, List.length_map, length_filterMap_lastReply]
  exact ⟨rfl, rfl, List.countP_le_length, rfl, rfl, rfl⟩

/-- Every returned hop counts the probes in the lines of its own index. -/
theorem parseRaw_accounts (data : Text) :
    List.Forall₂ (fun i hop => AccountsFor (linesOf data i) hop) (keptIndices data)
      (parseRaw data true) :=
  (forall₂_keptIndices data true).imp (fun _ _ h => accountsFor_of_hopAt h)

end GlobalpingProbe.Command.Mtr
