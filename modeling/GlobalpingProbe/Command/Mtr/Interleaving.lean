import GlobalpingProbe.Command.Mtr.Accounting
import GlobalpingProbe.Command.Mtr.Hostnames
import GlobalpingProbe.Command.Mtr.PrivateTarget
import GlobalpingProbe.Foundation.Interleaving
import GlobalpingProbe.Foundation.Words

/-! # Outputs of mtr that differ in how their hops are interleaved

The replies of different hops arrive in any order. What a hop holds, apart from its mark as a
duplicate, comes from its own lines; the name that an address is given too, when the address is
given to one hop only.
-/
namespace GlobalpingProbe.Command.Mtr
open Foundation Net

/-- What a line of its own does to the builder of a hop, but for the mark. -/
def readOwn (b : Option HopBuilder) (line : Text) : Option HopBuilder :=
  match splitn ' ' 4 line with
  | action :: _ :: arg :: rest =>
    if action = ['h'] then some { b.getD .fresh with resolvedAddress := some arg }
    else if action = ['d'] then some { b.getD .fresh with resolvedHostname := some arg }
    else if action = ['x'] then
      some (if (b.getD .fresh).timings.any (·.1 = arg) then b.getD .fresh
        else { b.getD .fresh with timings := (b.getD .fresh).timings ++ [(arg, none)] })
    else if action = ['p'] then
      match rest, F64.parse arg with
      | seq :: _, some rttUs =>
        b.map (fun b => { b with timings := answer (trim seq) (rttUs.divNat 1000) b.timings })
      | _, _ => b
    else b
  | _ => b

/-- The name that a line of its own gives to an address, if the hop has it. -/
def readName (addr : Text) (s : Option HopBuilder × Option Text) (line : Text) :
    Option HopBuilder × Option Text :=
  (readOwn s.1 line,
    match nameLine line with
    | some (_, hn) => if s.1.bind (·.resolvedAddress) = some addr then some hn else s.2
    | none => s.2)

def HopBuilder.unmarked (b : HopBuilder) : HopBuilder := { b with duplicate := false }

namespace RawReading

/-- The builder of an index, but for its mark. -/
def apart (r : RawReading) (i : ℕ) : Option HopBuilder := (r.entry i).map HopBuilder.unmarked

theorem apart_grow (r : RawReading) (idx i : ℕ) : (r.grow idx).apart i = r.apart i := by
  rw [apart, grow_entry, apart]

theorem apart_address (r : RawReading) (i : ℕ) :
    (r.apart i).bind (·.resolvedAddress) = r.address i := by
  rw [apart, Option.bind_map]
  rfl

theorem getOrInsert_unmarked (r : RawReading) (idx : ℕ) :
    (r.getOrInsert idx).unmarked = (r.apart idx).getD .fresh := by
  unfold getOrInsert apart
  cases r.entry idx <;> rfl

section Line
variable {r : RawReading} {idx : ℕ}

theorem apart_setEntry (h : idx < r.builders.length) (b : HopBuilder) (i : ℕ) :
    (r.setEntry idx b).apart i = if idx = i then some b.unmarked else r.apart i := by
  rw [apart, setEntry_entry h]
  split_ifs <;> rfl

theorem apart_readName (h : idx < r.builders.length) (hn : Text) (i : ℕ) :
    (r.readName idx hn).apart i =
      if idx = i then some { (r.apart i).getD .fresh with resolvedHostname := some hn }
      else r.apart i := by
  have hset := apart_setEntry h { r.getOrInsert idx with resolvedHostname := some hn } i
  have hentry : (r.readName idx hn).apart i =
      (r.setEntry idx { r.getOrInsert idx with resolvedHostname := some hn }).apart i := by
    unfold readName
    dsimp only
    split <;> rfl
  rw [hentry, hset]
  split_ifs with hi
  · rw [← hi, ← getOrInsert_unmarked]
    rfl
  · rfl

theorem apart_readReply (h : idx < r.builders.length) (rttUs : F64) (seq : Text) (i : ℕ) :
    (r.readReply idx rttUs seq).apart i =
      if idx = i then (r.apart i).map (fun b =>
        { b with timings := answer seq (rttUs.divNat 1000) b.timings })
      else r.apart i := by
  unfold readReply
  split
  · next entry he =>
    rw [apart_setEntry h]
    split_ifs with hi
    · subst hi
      rw [apart, he]
      rfl
    · rfl
  · next he =>
    split_ifs with hi
    · subst hi
      rw [apart, he]
      rfl
    · rfl

theorem apart_readSent (h : idx < r.builders.length) (seq : Text) (i : ℕ) :
    (r.readSent idx seq).apart i =
      if idx = i then some (if ((r.apart i).getD .fresh).timings.any (·.1 = seq)
        then (r.apart i).getD .fresh
        else { (r.apart i).getD .fresh with
          timings := ((r.apart i).getD .fresh).timings ++ [(seq, none)] })
      else r.apart i := by
  rw [readSent, apart_setEntry h]
  split_ifs with hi hany hseq hseq
  · rw [← hi, getOrInsert_unmarked]
  · rw [← hi, ← getOrInsert_unmarked] at hseq
    exact absurd hany hseq
  · rw [← hi, ← getOrInsert_unmarked] at hseq
    exact absurd hseq hany
  · rw [← hi, ← getOrInsert_unmarked]
    rfl
  · rfl

/-- A line changes the hop of its index, as its own lines do. -/
theorem apart_readLine (r : RawReading) (line : Text) (i : ℕ) :
    (r.readLine line).apart i =
      if lineIndex line = some i then readOwn (r.apart i) line else r.apart i := by
  unfold readLine lineIndex readOwn
  rcases splitn ' ' 4 line with _ | ⟨action, _ | ⟨number, _ | ⟨arg, rest⟩⟩⟩
  · simp
  · simp
  · simp
  · simp only
    cases hidx : parseUnsigned 64 number with
    | none => simp
    | some idx =>
      have hlt := r.lt_length_grow idx
      simp only [Option.some.injEq]
      by_cases hh : action = ['h']
      · rw [if_pos hh, if_pos hh, readHost, apart_setEntry hlt, apart_grow]
        split_ifs with hi
        · rw [← hi, ← apart_grow r idx idx, ← getOrInsert_unmarked]
          rfl
        · rfl
      rw [if_neg hh, if_neg hh]
      by_cases hd : action = ['d']
      · rw [if_pos hd, if_pos hd, apart_readName hlt, apart_grow]
      rw [if_neg hd, if_neg hd]
      by_cases hx : action = ['x']
      · rw [if_pos hx, if_pos hx, apart_readSent hlt, apart_grow]
      rw [if_neg hx, if_neg hx]
      by_cases hp : action = ['p']
      · rw [if_pos hp, if_pos hp]
        cases rest with
        | nil => simp [apart_grow]
        | cons seq rest =>
          cases F64.parse arg with
          | none => simp [apart_grow]
          | some rttUs =>
            dsimp only
            rw [apart_readReply hlt, apart_grow]
      · rw [if_neg hp, if_neg hp, apart_grow, ite_self]
end Line
end RawReading

/-- What an index holds comes from its own lines. -/
theorem readRaw_apart (data : Text) (i : ℕ) :
    (readRaw data).apart i = (linesOf data i).foldl readOwn none := by
  refine view_foldl RawReading.readLine lineIndex i (fun r => r.apart i) readOwn .new
    (lines data) ?_ ?_
  · intro before line _ hi
    rw [RawReading.apart_readLine, if_pos hi]
  · intro before line _ hi
    rw [RawReading.apart_readLine, if_neg hi]

/-! ## The names of addresses -/

/-- No address is given to two indices. -/
def OneIndexEach (hs : List (ℕ × Text)) : Prop := ∀ p ∈ hs, ∀ q ∈ hs, p.2 = q.2 → p.1 = q.1

theorem lineIndex_of_nameLine {line hn : Text} {idx : ℕ} (h : nameLine line = some (idx, hn)) :
    lineIndex line = some idx := by
  have hline : letterLine ['d'] line = some (idx, hn) := h
  obtain ⟨number, rest, hparts, hidx⟩ := parts_of_letterLine hline
  simp [lineIndex, hparts, hidx]

theorem mem_of_finalAddress {hs : List (ℕ × Text)} {i : ℕ} {a : Text}
    (h : finalAddress hs i = some a) : (i, a) ∈ hs := by
  obtain ⟨before, after, rfl, -⟩ := finalAddress_eq_some.mp h
  simp

theorem readLine_lookup (r : RawReading) (addr line : Text) :
    (r.readLine line).addrToHostname.lookup addr =
      match nameLine line with
      | some (idx, hn) =>
        if r.address idx = some addr then some hn else r.addrToHostname.lookup addr
      | none => r.addrToHostname.lookup addr := by
  cases hline : nameLine line with
  | none => rw [(RawReading.readLine_no_name hline).names]
  | some d =>
    obtain ⟨idx, hn⟩ := d
    rw [RawReading.readLine_name hline, RawReading.readName_names, (r.grow_marks idx).address,
      (r.grow_names idx).names]
    dsimp only
    by_cases ha : r.address idx = some addr
    · simp [ha]
    · rw [if_neg ha]
      cases hcurrent : r.address idx with
      | none => rfl
      | some current =>
        have hne : (addr == current) = false := by
          rw [beq_eq_false_iff_ne]
          rintro rfl
          exact ha hcurrent
        simp [List.lookup_cons, hne]

/-- The name given to an address comes from the lines of the index that has the address. -/
theorem readRaw_lookup {data : Text} {i : ℕ} {addr : Text}
    (hone : ∀ p ∈ hostLines data, p.2 = addr → p.1 = i) :
    ((readRaw data).apart i, (readRaw data).addrToHostname.lookup addr) =
      (linesOf data i).foldl (readName addr) (none, none) := by
  refine view_foldl RawReading.readLine lineIndex i
    (fun r => (r.apart i, r.addrToHostname.lookup addr)) (readName addr) .new (lines data) ?_ ?_
  · intro before line hfront hi
    rw [RawReading.apart_readLine, if_pos hi, readLine_lookup, readName, RawReading.apart_address]
    cases hline : nameLine line with
    | none => rfl
    | some d =>
      have hidx := lineIndex_of_nameLine hline
      rw [hi] at hidx
      obtain rfl := Option.some.inj hidx
      rfl
  · intro before line hfront hi
    rw [RawReading.apart_readLine, if_neg hi, readLine_lookup]
    cases hline : nameLine line with
    | none => rfl
    | some d =>
      -- the line names a hop that never has this address
      have hne : (before.foldl RawReading.readLine .new).address d.1 ≠ some addr := by
        intro haddr
        rw [(readLines_marks before).1] at haddr
        have hmem := mem_of_finalAddress haddr
        have hsub : before.filterMap hostLine <+: hostLines data :=
          ((List.prefix_append _ _).trans hfront).filterMap hostLine
        have hd := hone _ (hsub.subset hmem) rfl
        exact hi (hd ▸ lineIndex_of_nameLine hline)
      dsimp only
      rw [if_neg hne]

/-! ## The hops that are returned -/

/-- A hop but for its name. -/
def MtrHop.unnamed (hop : MtrHop) : MtrHop := { hop with resolvedHostname := none }

theorem hopAt_apart (data : Text) (isFinal : Bool) (i : ℕ) : hopAt data isFinal i =
    ((readRaw data).apart i).map
      (fun b => (b.propagate (readRaw data).addrToHostname).toHop isFinal) := by
  rw [hopAt, RawReading.apart, Option.map_map]
  congr 1
  funext b
  simp only [HopBuilder.toHop, Function.comp_apply, propagate_address, propagate_timings,
    propagate_hostname, HopBuilder.unmarked]
  rfl

theorem hopAt_unnamed (data : Text) (isFinal : Bool) (i : ℕ) :
    (hopAt data isFinal i).map MtrHop.unnamed =
      ((linesOf data i).foldl readOwn none).map (fun b => (b.toHop isFinal).unnamed) := by
  rw [hopAt_apart, ← readRaw_apart, Option.map_map]
  congr 1
  funext b
  simp only [MtrHop.unnamed, HopBuilder.toHop, Function.comp_apply, propagate_address,
    propagate_timings]

theorem propagate_congr {names names' : List (Text × Text)} {b : HopBuilder}
    (h : ∀ addr, b.resolvedAddress = some addr → names.lookup addr = names'.lookup addr) :
    b.propagate names = b.propagate names' := by
  unfold HopBuilder.propagate
  cases ha : b.resolvedAddress with
  | none => rfl
  | some addr => rw [Option.bind_some, Option.bind_some, h addr ha]

theorem not_marked {hs : List (ℕ × Text)} (h : OneIndexEach hs) (i : ℕ) : ¬ Marked hs i := by
  rintro ⟨before, a, after, rfl, -, j, hj, ha⟩
  have hlow : (j, a) ∈ before ++ (i, a) :: after :=
    List.mem_append_left _ (mem_of_finalAddress ha)
  have heq : j = i := h (j, a) hlow (i, a) (by simp) rfl
  omega

section Interleaved
variable {data data' : Text}

theorem hostLines_perm (h : Interleaved lineIndex (lines data) (lines data')) :
    (hostLines data).Perm (hostLines data') := h.perm.filterMap hostLine

theorem linesOf_eq (h : Interleaved lineIndex (lines data) (lines data')) (i : ℕ) :
    linesOf data i = linesOf data' i := h.sameOrder i

theorem hopAt_eq (h : Interleaved lineIndex (lines data) (lines data'))
    (hone : OneIndexEach (hostLines data)) (isFinal : Bool) (i : ℕ) :
    hopAt data isFinal i = hopAt data' isFinal i := by
  have hone' : ∀ p ∈ hostLines data', ∀ q ∈ hostLines data', p.2 = q.2 → p.1 = q.1 := by
    intro p hp q hq
    exact hone p ((hostLines_perm h).mem_iff.mpr hp) q ((hostLines_perm h).mem_iff.mpr hq)
  have happ : (readRaw data).apart i = (readRaw data').apart i := by
    rw [readRaw_apart, readRaw_apart, linesOf_eq h]
  rw [hopAt_apart, hopAt_apart, ← happ]
  cases hb : (readRaw data).apart i with
  | none => rfl
  | some b =>
    have hlookup : ∀ addr, b.resolvedAddress = some addr →
        (readRaw data).addrToHostname.lookup addr = (readRaw data').addrToHostname.lookup addr := by
      intro addr ha
      have haddr : finalAddress (hostLines data) i = some addr := by
        have hmarks : (readRaw data).address i = finalAddress (hostLines data) i :=
          (readLines_marks (lines data)).1 i
        rw [← hmarks, ← RawReading.apart_address, hb, Option.bind_some, ha]
      have hmem := mem_of_finalAddress haddr
      have hmem' := (hostLines_perm h).mem_iff.mp hmem
      have hleft := readRaw_lookup (fun p hp hpa => hone p hp (i, addr) hmem hpa)
      have hright := readRaw_lookup (fun p hp hpa => hone' p hp (i, addr) hmem' hpa)
      rw [← linesOf_eq h i] at hright
      exact congrArg Prod.snd (hleft.trans hright.symm)
    rw [Option.map_some, Option.map_some, propagate_congr hlookup]

theorem mem_keptIndices_one (hone : OneIndexEach (hostLines data)) {i : ℕ} :
    i ∈ keptIndices data ↔ ((linesOf data i).foldl readOwn none).isSome = true := by
  rw [mem_keptIndices, marked_eq_false, and_iff_left (not_marked hone i), ← readRaw_apart,
    RawReading.apart, Option.isSome_map]

theorem keptIndices_eq (h : Interleaved lineIndex (lines data) (lines data'))
    (hone : OneIndexEach (hostLines data)) : keptIndices data = keptIndices data' := by
  have hone' : OneIndexEach (hostLines data') := by
    intro p hp q hq
    exact hone p ((hostLines_perm h).mem_iff.mpr hp) q ((hostLines_perm h).mem_iff.mpr hq)
  have hmem : ∀ i, i ∈ keptIndices data ↔ i ∈ keptIndices data' := by
    intro i
    rw [mem_keptIndices_one hone, mem_keptIndices_one hone', linesOf_eq h]
  have hperm : (keptIndices data).Perm (keptIndices data') :=
    (List.perm_ext_iff_of_nodup ((keptIndices_increasing data).imp Nat.ne_of_lt)
      ((keptIndices_increasing data').imp Nat.ne_of_lt)).mpr hmem
  exact hperm.eq_of_pairwise (fun _ _ _ _ hab hba => absurd hba hab.asymm)
    (keptIndices_increasing data) (keptIndices_increasing data')

theorem parseRaw_eq (h : Interleaved lineIndex (lines data) (lines data'))
    (hone : OneIndexEach (hostLines data)) (isFinal : Bool) :
    parseRaw data isFinal = parseRaw data' isFinal := by
  apply List.map_injective_iff.mpr (Option.some_injective MtrHop)
  rw [parseRaw_kept, parseRaw_kept, keptIndices_eq h hone]
  exact List.map_congr_left (fun i _ => hopAt_eq h hone isFinal i)

theorem trim_isEmpty_eq (h : (lines data).Perm (lines data')) :
    (trim data).isEmpty = (trim data').isEmpty := by
  rw [Bool.eq_iff_iff, trim_isEmpty_iff, trim_isEmpty_iff]
  exact forall_congr' (fun line => imp_congr_left h.mem_iff)

end Interleaved

section Run
variable (table : CaseTable) (localIps : List IpAddr) (dig : Text → Option Text)
  (opts : MtrOptions) (stderr : Text)

/-- Outputs whose lines are interleaved in another way give every hop the same address and the
same measurements, and the run the same result unless an address is given to two hops. -/
theorem runMtr_interleaved {stdout stdout' : Text}
    (h : Interleaved lineIndex (lines stdout) (lines stdout')) :
    (∀ i, (hopAt stdout true i).map MtrHop.unnamed = (hopAt stdout' true i).map MtrHop.unnamed) ∧
    (OneIndexEach (hostLines stdout) →
      runMtr table localIps dig opts (.exited stdout stderr) =
        runMtr table localIps dig opts (.exited stdout' stderr)) := by
  refine ⟨fun i => ?_, fun hone => ?_⟩
  · rw [hopAt_unnamed, hopAt_unnamed, linesOf_eq h]
  · have hresult : mtrResult localIps dig stdout stderr = mtrResult localIps dig stdout' stderr := by
      rw [mtrResult, mtrResult, trim_isEmpty_eq h.perm, parseRaw_eq h hone]
    rw [runMtr, runMtr, hresult]

end Run

/-- The second hop answers before the name of the first is known, or after. -/
def lateName : Text := "x 0 33000\nh 0 10.0.0.1\np 0 512 33000\nh 1 8.8.8.8\nd 0 gw.example\n".toList
def earlyName : Text := "x 0 33000\nh 0 10.0.0.1\np 0 512 33000\nd 0 gw.example\nh 1 8.8.8.8\n".toList

theorem lateName_same_run :
    runMtr .ascii [] (fun _ => none) publicTarget (.exited lateName []) =
      runMtr .ascii [] (fun _ => none) publicTarget (.exited earlyName []) := by
  have hlate : lines lateName = ["x 0 33000".toList, "h 0 10.0.0.1".toList,
      "p 0 512 33000".toList] ++ "h 1 8.8.8.8".toList :: "d 0 gw.example".toList :: [] := by decide
  have hearly : lines earlyName = ["x 0 33000".toList, "h 0 10.0.0.1".toList,
      "p 0 512 33000".toList] ++ "d 0 gw.example".toList :: "h 1 8.8.8.8".toList :: [] := by decide
  have hhosts : hostLines lateName = [(0, "10.0.0.1".toList), (1, "8.8.8.8".toList)] := by decide
  have hswap : Interleaved lineIndex (lines lateName) (lines earlyName) := by
    rw [hlate, hearly]
    exact Interleaved.swap (by decide) _ _
  refine (runMtr_interleaved .ascii [] (fun _ => none) publicTarget [] hswap).2 ?_
  rw [hhosts]
  simp [OneIndexEach]

end GlobalpingProbe.Command.Mtr
