import GlobalpingProbe.Command.Mtr.Parse
import Mathlib.Data.List.Induction

/-! # Duplicate hops in the raw output of mtr

Whether a hop is a duplicate is decided when its address arrives, by the addresses that the
hops below it have at that moment. Only the `h` lines matter for it.
-/
namespace GlobalpingProbe.Command.Mtr
open Foundation

def hostLine (line : Text) : Option (ℕ × Text) :=
  match splitn ' ' 4 line with
  | action :: number :: addr :: _ =>
    if action = ['h'] then (parseUnsigned 64 number).map (fun idx => (idx, addr)) else none
  | _ => none

def nameLine (line : Text) : Option (ℕ × Text) :=
  match splitn ' ' 4 line with
  | action :: number :: hn :: _ =>
    if action = ['d'] then (parseUnsigned 64 number).map (fun idx => (idx, hn)) else none
  | _ => none

/-- A line with the letter in front, and what it says of its index. -/
def letterLine (letter line : Text) : Option (ℕ × Text) :=
  match splitn ' ' 4 line with
  | action :: number :: arg :: _ =>
    if action = letter then (parseUnsigned 64 number).map (fun idx => (idx, arg)) else none
  | _ => none

theorem parts_of_letterLine {letter line arg : Text} {idx : ℕ}
    (h : letterLine letter line = some (idx, arg)) :
    ∃ number rest, splitn ' ' 4 line = letter :: number :: arg :: rest ∧
      parseUnsigned 64 number = some idx := by
  unfold letterLine at h
  split at h
  · next action number arg rest hparts =>
    split_ifs at h with ha
    obtain ⟨n, hidx, he⟩ := Option.map_eq_some_iff.mp h
    cases he
    exact ⟨number, rest, ha ▸ hparts, hidx⟩
  · cases h

def hostLines (data : Text) : List (ℕ × Text) := (lines data).filterMap hostLine

/-- The address in the last line of an index. -/
def finalAddress (hs : List (ℕ × Text)) (i : ℕ) : Option Text :=
  lastSome (fun h => if h.1 = i then some h.2 else none) hs

/-- When the last line of the index came, an index below it had the same address. -/
def Marked (hs : List (ℕ × Text)) (i : ℕ) : Prop :=
  ∃ before a after, hs = before ++ (i, a) :: after ∧ (∀ h ∈ after, h.1 ≠ i) ∧
    ∃ j < i, finalAddress before j = some a

/-- After the last line of an index, the indices below it do not come to hold its address, nor
do they all give it up. -/
def Settled (hs : List (ℕ × Text)) : Prop :=
  ∀ before i a after, hs = before ++ (i, a) :: after → (∀ h ∈ after, h.1 ≠ i) →
    ((∃ j < i, finalAddress before j = some a) ↔ ∃ j < i, finalAddress hs j = some a)

/-! ## The last line of an index -/

theorem finalAddress_concat (hs : List (ℕ × Text)) (k : ℕ) (a : Text) (i : ℕ) :
    finalAddress (hs ++ [(k, a)]) i = if k = i then some a else finalAddress hs i := by
  rw [finalAddress, lastSome_concat]
  split_ifs <;> rfl

theorem finalAddress_eq_some {hs : List (ℕ × Text)} {i : ℕ} {a : Text} :
    finalAddress hs i = some a ↔
      ∃ before after, hs = before ++ (i, a) :: after ∧ ∀ l ∈ after, l.1 ≠ i := by
  rw [finalAddress, lastSome_eq_some]
  constructor
  · rintro ⟨before, ⟨k, b⟩, after, rfl, hshown, hnone⟩
    split_ifs at hshown with hk
    obtain rfl : k = i := hk
    cases hshown
    refine ⟨before, after, rfl, ?_⟩
    intro l hl heq
    have hl := hnone l hl
    rw [if_pos heq] at hl
    cases hl
  · rintro ⟨before, after, rfl, hlast⟩
    exact ⟨before, (i, a), after, rfl, if_pos rfl, fun l hl => if_neg (hlast l hl)⟩

/-- The last line of an index decides whether it is marked. -/
theorem marked_split (before : List (ℕ × Text)) {after : List (ℕ × Text)} {i : ℕ} (a : Text)
    (h : ∀ l ∈ after, l.1 ≠ i) : Marked (before ++ (i, a) :: after) i ↔
      ∃ j < i, finalAddress before j = some a := by
  refine ⟨?_, fun hj => ⟨before, a, after, rfl, h, hj⟩⟩
  rintro ⟨before', a', after', heq, hlast, hj⟩
  rcases List.append_eq_append_iff.mp heq with ⟨mid, hmid, hrest⟩ | ⟨mid, hmid, hrest⟩
  · cases mid with
    | nil => simp_all
    | cons m mid =>
      obtain ⟨-, rfl⟩ := List.cons.inj hrest
      exact absurd rfl (h (i, a') (by simp))
  · cases mid with
    | nil => simp_all
    | cons m mid =>
      obtain ⟨-, rfl⟩ := List.cons.inj hrest
      exact absurd rfl (hlast (i, a) (by simp))

theorem marked_concat (hs : List (ℕ × Text)) (k : ℕ) (a : Text) (i : ℕ) :
    Marked (hs ++ [(k, a)]) i ↔
      if k = i then ∃ j < i, finalAddress hs j = some a else Marked hs i := by
  split_ifs with hk
  · subst hk
    exact marked_split hs a nofun
  · constructor
    · rintro ⟨before, b, after, heq, hlast, hj⟩
      induction after using List.reverseRecOn with
      | nil =>
        obtain ⟨-, hb⟩ := List.append_inj' heq rfl
        simp only [List.cons.injEq, Prod.mk.injEq] at hb
        exact absurd hb.1.1 hk
      | append_singleton after l _ =>
        rw [← List.cons_append, ← List.append_assoc] at heq
        obtain ⟨rfl, hb⟩ := List.append_inj' heq rfl
        exact ⟨before, b, after, rfl, fun m hm => hlast m (List.mem_append_left _ hm), hj⟩
    · rintro ⟨before, b, after, rfl, hlast, hj⟩
      refine ⟨before, b, after ++ [(k, a)], by simp, fun m hm => ?_, hj⟩
      rcases List.mem_append.mp hm with hm | hm
      · exact hlast m hm
      · rw [List.mem_singleton.mp hm]
        exact hk

/-! ## What the builders hold -/

namespace RawReading

def address (r : RawReading) (i : ℕ) : Option Text := (r.entry i).bind (·.resolvedAddress)

def marked (r : RawReading) (i : ℕ) : Bool := (r.entry i).any (·.duplicate)

/-- The same addresses and marks. -/
structure SameMarks (r s : RawReading) : Prop where
  address : ∀ i, s.address i = r.address i
  marked : ∀ i, s.marked i = r.marked i

theorem grow_entry (r : RawReading) (idx i : ℕ) : (r.grow idx).entry i = r.entry i := by
  unfold grow entry
  rw [List.getElem?_append]
  split_ifs with h
  · rfl
  · rw [List.getElem?_eq_none (Nat.le_of_not_lt h), List.getElem?_replicate]
    split_ifs <;> rfl

theorem lt_length_grow (r : RawReading) (idx : ℕ) : idx < (r.grow idx).builders.length := by
  simp only [grow, List.length_append, List.length_replicate]
  omega

theorem setEntry_entry {r : RawReading} {idx : ℕ} (h : idx < r.builders.length) (b : HopBuilder)
    (i : ℕ) : (r.setEntry idx b).entry i = if idx = i then some b else r.entry i := by
  unfold setEntry entry
  rw [List.getElem?_set]
  split_ifs <;> rfl

theorem getOrInsert_address (r : RawReading) (idx : ℕ) :
    (r.getOrInsert idx).resolvedAddress = r.address idx := by
  unfold getOrInsert address
  cases r.entry idx <;> rfl

theorem getOrInsert_duplicate (r : RawReading) (idx : ℕ) :
    (r.getOrInsert idx).duplicate = r.marked idx := by
  unfold getOrInsert marked
  cases r.entry idx <;> rfl

theorem setEntry_marks {r : RawReading} {idx : ℕ} (h : idx < r.builders.length) {b : HopBuilder}
    (ha : b.resolvedAddress = r.address idx) (hd : b.duplicate = r.marked idx) :
    SameMarks r (r.setEntry idx b) := by
  refine ⟨fun i => ?_, fun i => ?_⟩
  · rw [address, setEntry_entry h]
    split_ifs with hi
    · exact hi ▸ ha
    · rfl
  · rw [marked, setEntry_entry h]
    split_ifs with hi
    · exact hi ▸ hd
    · rfl

theorem readName_marks {r : RawReading} {idx : ℕ} (h : idx < r.builders.length) (hn : Text) :
    SameMarks r (r.readName idx hn) := by
  have hset := setEntry_marks (b := { r.getOrInsert idx with resolvedHostname := some hn }) h
    (r.getOrInsert_address idx) (r.getOrInsert_duplicate idx)
  unfold readName
  dsimp only
  split
  · exact ⟨hset.address, hset.marked⟩
  · exact hset

theorem readSent_marks {r : RawReading} {idx : ℕ} (h : idx < r.builders.length) (seq : Text) :
    SameMarks r (r.readSent idx seq) := by
  refine setEntry_marks h ?_ ?_
  · split_ifs <;> exact r.getOrInsert_address idx
  · split_ifs <;> exact r.getOrInsert_duplicate idx

theorem readReply_marks {r : RawReading} {idx : ℕ} (h : idx < r.builders.length) (rttUs : F64)
    (seq : Text) : SameMarks r (r.readReply idx rttUs seq) := by
  unfold readReply
  split
  · next entry he => exact setEntry_marks h (by simp [address, he]) (by simp [marked, he])
  · exact ⟨fun _ => rfl, fun _ => rfl⟩

theorem entry_eq_some {r : RawReading} {i : ℕ} {b : HopBuilder} :
    r.entry i = some b ↔ r.builders[i]? = some (some b) := by
  unfold entry
  cases r.builders[i]? <;> simp

theorem any_take {r : RawReading} {idx : ℕ} {addr : Text} :
    (r.builders.take idx).any (fun b => b.any (fun b => b.resolvedAddress = some addr)) = true ↔
      ∃ j < idx, r.address j = some addr := by
  rw [List.any_eq_true]
  constructor
  · rintro ⟨e, he, ha⟩
    obtain ⟨b, rfl, ha⟩ := (Option.any_eq_true _ e).mp ha
    obtain ⟨j, hj, hb⟩ := List.mem_take_iff_getElem.mp he
    have hentry : r.entry j = some b := entry_eq_some.mpr (List.getElem?_eq_some_iff.mpr ⟨_, hb⟩)
    exact ⟨j, by omega, Option.bind_eq_some_iff.mpr ⟨b, hentry, of_decide_eq_true ha⟩⟩
  · rintro ⟨j, hj, ha⟩
    obtain ⟨b, hb, ha⟩ := Option.bind_eq_some_iff.mp ha
    obtain ⟨hlt, hb⟩ := List.getElem?_eq_some_iff.mp (entry_eq_some.mp hb)
    refine ⟨some b, List.mem_take_iff_getElem.mpr ⟨j, by omega, hb⟩, ?_⟩
    exact (Option.any_eq_true _ _).mpr ⟨b, rfl, decide_eq_true ha⟩

theorem readHost_address {r : RawReading} {idx : ℕ} (h : idx < r.builders.length) (addr : Text)
    (i : ℕ) : (r.readHost idx addr).address i = if idx = i then some addr else r.address i := by
  rw [address, readHost, setEntry_entry h]
  split_ifs <;> rfl

theorem readHost_marked {r : RawReading} {idx : ℕ} (h : idx < r.builders.length) (addr : Text)
    (i : ℕ) : (r.readHost idx addr).marked i = true ↔
      if idx = i then ∃ j < i, r.address j = some addr else r.marked i = true := by
  rw [marked, readHost, setEntry_entry h]
  split_ifs with hi
  · subst hi
    exact any_take
  · rfl

theorem grow_marks (r : RawReading) (idx : ℕ) : SameMarks r (r.grow idx) :=
  ⟨fun i => by rw [address, grow_entry]; rfl, fun i => by rw [marked, grow_entry]; rfl⟩

theorem SameMarks.trans {r s t : RawReading} (hs : SameMarks r s) (ht : SameMarks s t) :
    SameMarks r t :=
  ⟨fun i => (ht.address i).trans (hs.address i), fun i => (ht.marked i).trans (hs.marked i)⟩

theorem readLine_host {line : Text} {idx : ℕ} {addr : Text} (h : hostLine line = some (idx, addr))
    (r : RawReading) : r.readLine line = (r.grow idx).readHost idx addr := by
  have hline : letterLine ['h'] line = some (idx, addr) := h
  obtain ⟨number, rest, hparts, hidx⟩ := parts_of_letterLine hline
  simp [readLine, hparts, hidx]

/-- All that a line can do: nothing, or to make room for its index and then what its letter
says. -/
theorem readLine_cases (r : RawReading) (line : Text) :
    r.readLine line = r ∨ ∃ idx, r.readLine line = r.grow idx ∨
      (∃ addr, hostLine line = some (idx, addr) ∧
        r.readLine line = (r.grow idx).readHost idx addr) ∨
      (∃ hn, nameLine line = some (idx, hn) ∧
        r.readLine line = (r.grow idx).readName idx hn) ∨
      (∃ seq, r.readLine line = (r.grow idx).readSent idx seq) ∨
      ∃ rttUs seq, r.readLine line = (r.grow idx).readReply idx rttUs seq := by
  unfold readLine
  split
  · next action number arg rest hparts =>
    cases hidx : parseUnsigned 64 number with
    | none => exact .inl rfl
    | some idx =>
      refine .inr ⟨idx, ?_⟩
      dsimp only
      split_ifs with hh hd hx hp
      · exact .inr (.inl ⟨arg, by simp [hostLine, hparts, hidx, hh], rfl⟩)
      · exact .inr (.inr (.inl ⟨arg, by simp [nameLine, hparts, hidx, hd], rfl⟩))
      · exact .inr (.inr (.inr (.inl ⟨arg, rfl⟩)))
      · split
        · exact .inr (.inr (.inr (.inr ⟨_, _, rfl⟩)))
        · exact .inl rfl
      · exact .inl rfl
  · exact .inl rfl

theorem readLine_other {line : Text} (h : hostLine line = none) (r : RawReading) :
    SameMarks r (r.readLine line) := by
  rcases r.readLine_cases line with heq | ⟨idx, heq | ⟨addr, hhost, -⟩ | ⟨hn, -, heq⟩ |
    ⟨seq, heq⟩ | ⟨rttUs, seq, heq⟩⟩
  · rw [heq]
    exact ⟨fun _ => rfl, fun _ => rfl⟩
  · rw [heq]
    exact r.grow_marks idx
  · rw [h] at hhost
    cases hhost
  · rw [heq]
    exact (r.grow_marks idx).trans (readName_marks (r.lt_length_grow idx) hn)
  · rw [heq]
    exact (r.grow_marks idx).trans (readSent_marks (r.lt_length_grow idx) seq)
  · rw [heq]
    exact (r.grow_marks idx).trans (readReply_marks (r.lt_length_grow idx) rttUs seq)

end RawReading

/-- What the builders hold after any lines is what the `h` lines among them say. -/
theorem readLines_marks (ls : List Text) :
    let r := ls.foldl RawReading.readLine .new
    let hs := ls.filterMap hostLine
    (∀ i, r.address i = finalAddress hs i) ∧ ∀ i, r.marked i = true ↔ Marked hs i := by
  induction ls using List.reverseRecOn with
  | nil =>
    refine ⟨fun i => rfl, fun i => iff_of_false Bool.false_ne_true ?_⟩
    rintro ⟨before, a, after, h, -⟩
    exact List.append_ne_nil_of_right_ne_nil before (List.cons_ne_nil _ _) h.symm
  | append_singleton ls line ih =>
    obtain ⟨haddr, hmark⟩ := ih
    rw [List.foldl_concat, List.filterMap_append]
    dsimp only
    cases hline : hostLine line with
    | none =>
      have hsame := RawReading.readLine_other hline (ls.foldl RawReading.readLine .new)
      simp only [List.filterMap_cons, hline, List.filterMap_nil, List.append_nil]
      exact ⟨fun i => (hsame.address i).trans (haddr i),
        fun i => by rw [hsame.marked i]; exact hmark i⟩
    | some h =>
      obtain ⟨idx, addr⟩ := h
      have hgrow := (ls.foldl RawReading.readLine .new).grow_marks idx
      have hlt := (ls.foldl RawReading.readLine .new).lt_length_grow idx
      rw [RawReading.readLine_host hline]
      simp only [List.filterMap_cons, hline, List.filterMap_nil]
      refine ⟨fun i => ?_, fun i => ?_⟩
      · rw [RawReading.readHost_address hlt, finalAddress_concat, hgrow.address, haddr]
      · rw [RawReading.readHost_marked hlt, marked_concat, hgrow.marked, hmark]
        simp only [hgrow.address, haddr]

/-! ## The hops that are returned -/

/-- The indices of the returned hops, in order. -/
def keptIndices (data : Text) : List ℕ :=
  (List.range (readRaw data).builders.length).filter
    (fun i => ((readRaw data).entry i).any (!·.duplicate))

/-- The hop that an index with an entry gives. -/
def hopAt (data : Text) (isFinal : Bool) (i : ℕ) : Option MtrHop :=
  ((readRaw data).entry i).map
    (fun b => (b.propagate (readRaw data).addrToHostname).toHop isFinal)

theorem propagate_duplicate (names : List (Text × Text)) (b : HopBuilder) :
    (b.propagate names).duplicate = b.duplicate := by
  unfold HopBuilder.propagate
  split_ifs
  · split <;> rfl
  · rfl

theorem propagate_address (names : List (Text × Text)) (b : HopBuilder) :
    (b.propagate names).resolvedAddress = b.resolvedAddress := by
  unfold HopBuilder.propagate
  split_ifs
  · split <;> rfl
  · rfl

theorem map_filter_entries (names : List (Text × Text)) (isFinal : Bool)
    (es : List (Option HopBuilder)) :
    (((es.filterMap (fun e => e.map (HopBuilder.propagate names))).filter (!·.duplicate)).map
      (HopBuilder.toHop isFinal)).map some =
    (es.filter (fun e => e.any (!·.duplicate))).map
      (fun e => e.map (fun b => (b.propagate names).toHop isFinal)) := by
  induction es with
  | nil => rfl
  | cons e es ih =>
    cases e with
    | none => simpa using ih
    | some b =>
      cases hd : b.duplicate <;> simpa [propagate_duplicate, hd] using ih

theorem map_entry_range (r : RawReading) :
    (List.range r.builders.length).map r.entry = r.builders := by
  apply List.ext_getElem (by simp)
  intro i _ h
  simp [RawReading.entry, h]

theorem map_entry_keptIndices (data : Text) : (keptIndices data).map (readRaw data).entry =
    (readRaw data).builders.filter (fun e => e.any (!·.duplicate)) := by
  conv_rhs => rw [← map_entry_range (readRaw data)]
  rw [List.filter_map]
  rfl

/-- The returned hops are those of the kept indices, in this order. -/
theorem parseRaw_kept (data : Text) (isFinal : Bool) :
    (parseRaw data isFinal).map some = (keptIndices data).map (hopAt data isFinal) := by
  unfold parseRaw
  dsimp only
  rw [map_filter_entries, ← map_entry_keptIndices, List.map_map]
  rfl

/-- The returned hops are the entries of the kept indices. -/
theorem mem_parseRaw {data : Text} {isFinal : Bool} {hop : MtrHop} :
    hop ∈ parseRaw data isFinal ↔ ∃ i ∈ keptIndices data, hopAt data isFinal i = some hop := by
  rw [← List.mem_map_of_injective (Option.some_injective MtrHop), parseRaw_kept, List.mem_map]

theorem mem_keptIndices {data : Text} {i : ℕ} : i ∈ keptIndices data ↔
    ((readRaw data).entry i).isSome = true ∧ (readRaw data).marked i = false := by
  have hlt : ((readRaw data).entry i).isSome = true → i < (readRaw data).builders.length := by
    intro h
    obtain ⟨b, hb⟩ := Option.isSome_iff_exists.mp h
    exact (List.getElem?_eq_some_iff.mp (RawReading.entry_eq_some.mp hb)).1
  simp only [keptIndices, List.mem_filter, List.mem_range, RawReading.marked]
  cases he : (readRaw data).entry i with
  | none => simp
  | some b => simpa using fun _ => hlt (by simp [he])

theorem hopAt_address {data : Text} {isFinal : Bool} {i : ℕ} :
    (hopAt data isFinal i).bind (·.resolvedAddress) = finalAddress (hostLines data) i := by
  refine Eq.trans ?_ ((readLines_marks (lines data)).1 i)
  rw [hopAt, RawReading.address, Option.bind_map]
  apply Option.bind_congr
  intro b _
  simp only [Function.comp_apply, HopBuilder.toHop, propagate_address]

/-- What is claimed of the duplicates: an index is dropped for the address of a lower one, so
that every address is returned once, with the hop of its lowest index. The hops returned are
those of the kept indices. -/
structure DuplicatesRemoved (data : Text) (isFinal : Bool) : Prop where
  returned : (parseRaw data isFinal).map some = (keptIndices data).map (hopAt data isFinal)
  kept : ∀ i, ((readRaw data).entry i).isSome = true → (i ∈ keptIndices data ↔
    finalAddress (hostLines data) i = none ∨
      ∀ j < i, finalAddress (hostLines data) j ≠ finalAddress (hostLines data) i)
  distinct : ((parseRaw data isFinal).filterMap (·.resolvedAddress)).Nodup
  lowest : ∀ i a, finalAddress (hostLines data) i = some a →
    ∃ j ≤ i, (∀ k < j, finalAddress (hostLines data) k ≠ some a) ∧
      finalAddress (hostLines data) j = some a ∧ j ∈ keptIndices data ∧
      ∃ hop ∈ parseRaw data isFinal, hopAt data isFinal j = some hop ∧
        hop.resolvedAddress = some a

theorem parseRaw_addresses (data : Text) (isFinal : Bool) :
    (parseRaw data isFinal).filterMap (·.resolvedAddress) =
      (keptIndices data).filterMap (finalAddress (hostLines data)) := by
  have hsome : ∀ hops : List MtrHop, hops.filterMap (·.resolvedAddress) =
      (hops.map some).filterMap (fun hop => hop.bind (·.resolvedAddress)) := by
    intro hops
    rw [List.filterMap_map]
    rfl
  rw [hsome, parseRaw_kept, List.filterMap_map]
  exact List.filterMap_congr (fun i _ => hopAt_address)

theorem keptIndices_increasing (data : Text) : (keptIndices data).Pairwise (· < ·) :=
  List.pairwise_lt_range.filter _

theorem entry_isSome_of_address {data : Text} {i : ℕ} {a : Text}
    (h : finalAddress (hostLines data) i = some a) : ((readRaw data).entry i).isSome = true := by
  have haddr := ((readLines_marks (lines data)).1 i).trans h
  obtain ⟨b, hb, -⟩ := Option.bind_eq_some_iff.mp haddr
  exact Option.isSome_iff_exists.mpr ⟨b, hb⟩

/-- An index with an address has a hop with it. -/
theorem hop_of_address {data : Text} (isFinal : Bool) {i : ℕ} {a : Text}
    (h : finalAddress (hostLines data) i = some a) :
    ∃ hop, hopAt data isFinal i = some hop ∧ hop.resolvedAddress = some a :=
  Option.bind_eq_some_iff.mp (hopAt_address.trans h)

theorem marked_eq_false {data : Text} {i : ℕ} :
    (readRaw data).marked i = false ↔ ¬ Marked (hostLines data) i := by
  rw [← Bool.not_eq_true]
  exact not_congr ((readLines_marks (lines data)).2 i)

/-- At the end, a lower index has the address of this one. -/
theorem not_first_iff {hs : List (ℕ × Text)} {i : ℕ} {a : Text} (h : finalAddress hs i = some a) :
    (finalAddress hs i = none ∨ ∀ j < i, finalAddress hs j ≠ finalAddress hs i) ↔
      ¬ ∃ j < i, finalAddress hs j = some a := by
  simp [h]

theorem kept_of_settled {data : Text} (h : Settled (hostLines data)) {i : ℕ}
    (hi : ((readRaw data).entry i).isSome = true) : i ∈ keptIndices data ↔
      finalAddress (hostLines data) i = none ∨
        ∀ j < i, finalAddress (hostLines data) j ≠ finalAddress (hostLines data) i := by
  rw [mem_keptIndices, marked_eq_false, and_iff_right hi]
  cases ha : finalAddress (hostLines data) i with
  | none =>
    refine iff_of_true ?_ (.inl rfl)
    rintro ⟨before, a, after, heq, hlast, -⟩
    rw [finalAddress_eq_some.mpr ⟨before, after, heq, hlast⟩] at ha
    cases ha
  | some a =>
    obtain ⟨before, after, heq, hlast⟩ := finalAddress_eq_some.mp ha
    have hmarked := marked_split before a hlast
    rw [← heq, h before i a after heq hlast] at hmarked
    rw [hmarked, ← not_first_iff ha, ha]

theorem settled_of_kept {data : Text} (h : ∀ i, ((readRaw data).entry i).isSome = true →
    (i ∈ keptIndices data ↔ finalAddress (hostLines data) i = none ∨
      ∀ j < i, finalAddress (hostLines data) j ≠ finalAddress (hostLines data) i)) :
    Settled (hostLines data) := by
  intro before i a after heq hlast
  have ha := finalAddress_eq_some.mpr ⟨before, after, heq, hlast⟩
  have hentry := entry_isSome_of_address ha
  have hkept := h i hentry
  rw [mem_keptIndices, marked_eq_false, and_iff_right hentry, not_first_iff ha, not_iff_not,
    heq, marked_split before a hlast, ← heq] at hkept
  exact hkept

/-- Duplicates are removed as claimed exactly from the outputs in which, for every index, a
lower one has its address when its last line comes if and only if one has it at the end. -/
theorem duplicatesRemoved_iff (data : Text) (isFinal : Bool) :
    DuplicatesRemoved data isFinal ↔ Settled (hostLines data) := by
  refine ⟨fun h => settled_of_kept h.kept, fun h => ?_⟩
  have hkept := fun i => kept_of_settled (i := i) h
  refine ⟨parseRaw_kept data isFinal, hkept, ?_, fun i a ha => ?_⟩
  · rw [parseRaw_addresses]
    refine List.pairwise_filterMap.mpr ((keptIndices_increasing data).imp_of_mem ?_)
    intro i j _ hj hlt a ha b hb hab
    have hfinal : finalAddress (hostLines data) j = some b := hb
    have hmem := (hkept j (entry_isSome_of_address hfinal)).mp hj
    exact (not_first_iff hfinal).mp hmem ⟨i, hlt, hab ▸ ha⟩
  · have hex : ∃ j, finalAddress (hostLines data) j = some a := ⟨i, ha⟩
    have hfirst : ∀ k < Nat.find hex, finalAddress (hostLines data) k ≠ some a :=
      fun k hk => Nat.find_min hex hk
    have hspec := Nat.find_spec hex
    have hmem : Nat.find hex ∈ keptIndices data := by
      refine (hkept _ (entry_isSome_of_address hspec)).mpr ((not_first_iff hspec).mpr ?_)
      rintro ⟨k, hk, hka⟩
      exact hfirst k hk hka
    obtain ⟨hop, hhop, haddress⟩ := hop_of_address isFinal hspec
    exact ⟨Nat.find hex, Nat.find_min' hex ha, hfirst, hspec, hmem, hop,
      mem_parseRaw.mpr ⟨_, hmem, hhop⟩, hhop, haddress⟩

/-- Two hops have the address, and the nearer one answers last. -/
def lateReply : Text := "h 1 8.8.8.8\nh 0 8.8.8.8\n".toList

theorem lateReply_duplicated :
    (parseRaw lateReply true).filterMap (·.resolvedAddress) =
      ["8.8.8.8".toList, "8.8.8.8".toList] ∧ ¬ DuplicatesRemoved lateReply true := by
  have hrun : (parseRaw lateReply true).filterMap (·.resolvedAddress) =
      ["8.8.8.8".toList, "8.8.8.8".toList] := by decide
  refine ⟨hrun, fun h => ?_⟩
  have hdistinct := h.distinct
  rw [hrun] at hdistinct
  exact absurd hdistinct (by decide)

end GlobalpingProbe.Command.Mtr
