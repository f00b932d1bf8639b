import GlobalpingProbe.Command.Mtr.Duplicates

/-! # Whose hostname a hop shows

A `d` line names an index, and with it the address that the index has at that moment. The
hop keeps the name for the rest of the run, the map keeps it for the address.
-/
namespace GlobalpingProbe.Command.Mtr
open Foundation

/-- The name that a line gives to an index. -/
def nameFor (i : ℕ) (line : Text) : Option Text :=
  (nameLine line).bind (fun d => if d.1 = i then some d.2 else none)

/-- The name in the last `d` line of an index. -/
def finalName (ls : List Text) (i : ℕ) : Option Text := lastSome (nameFor i) ls

/-- A `d` line gives the name at an index whose address at that moment is this one. -/
def NamedAt (ls : List Text) (name addr : Text) : Prop :=
  ∃ before line after idx, ls = before ++ line :: after ∧ nameLine line = some (idx, name) ∧
    finalAddress (before.filterMap hostLine) idx = some addr

/-- A returned hop with an address and a name has a name that was given for this address. -/
def HostnamesBelong (data : Text) (isFinal : Bool) : Prop :=
  ∀ hop ∈ parseRaw data isFinal, ∀ addr name, hop.resolvedAddress = some addr →
    hop.resolvedHostname = some name → NamedAt (lines data) name addr

/-- For every index that is no duplicate: the name in its last `d` line was given for its last
address too, or it is that address itself and some name was given for it. -/
def NamesFollowAddresses (data : Text) : Prop :=
  ∀ i addr name, ¬ Marked (hostLines data) i → finalAddress (hostLines data) i = some addr →
    finalName (lines data) i = some name →
    ∃ given, NamedAt (lines data) given addr ∧ (given = name ∨ name = addr)

theorem namedAt_concat {ls : List Text} {line name addr : Text} :
    NamedAt (ls ++ [line]) name addr ↔ NamedAt ls name addr ∨
      ∃ idx, nameLine line = some (idx, name) ∧
        finalAddress (ls.filterMap hostLine) idx = some addr := by
  constructor
  · rintro ⟨before, l, after, idx, heq, hname, haddr⟩
    cases after using List.reverseRecOn with
    | nil =>
      obtain ⟨rfl, hl⟩ := List.append_inj' heq rfl
      cases hl
      exact .inr ⟨idx, hname, haddr⟩
    | append_singleton after k =>
      rw [← List.cons_append, ← List.append_assoc] at heq
      obtain ⟨rfl, -⟩ := List.append_inj' heq rfl
      exact .inl ⟨before, l, after, idx, rfl, hname, haddr⟩
  · rintro (⟨before, l, after, idx, rfl, hname, haddr⟩ | ⟨idx, hname, haddr⟩)
    · exact ⟨before, l, after ++ [line], idx, by simp, hname, haddr⟩
    · exact ⟨ls, line, [], idx, rfl, hname, haddr⟩

namespace RawReading

def hostname (r : RawReading) (i : ℕ) : Option Text := (r.entry i).bind (·.resolvedHostname)

/-- The same names, of the hops and of the addresses. -/
structure SameNames (r s : RawReading) : Prop where
  hostname : ∀ i, s.hostname i = r.hostname i
  names : s.addrToHostname = r.addrToHostname

theorem SameNames.trans {r s t : RawReading} (hs : SameNames r s) (ht : SameNames s t) :
    SameNames r t :=
  ⟨fun i => (ht.hostname i).trans (hs.hostname i), ht.names.trans hs.names⟩

theorem grow_names (r : RawReading) (idx : ℕ) : SameNames r (r.grow idx) := by
  constructor
  · intro i
    rw [hostname, grow_entry]
    rfl
  · rfl

theorem getOrInsert_hostname (r : RawReading) (idx : ℕ) :
    (r.getOrInsert idx).resolvedHostname = r.hostname idx := by
  unfold getOrInsert hostname
  cases r.entry idx <;> rfl

section Line
variable {r : RawReading} {idx : ℕ}

theorem hostname_setEntry (h : idx < r.builders.length) (b : HopBuilder) (i : ℕ) :
    (r.setEntry idx b).hostname i = if idx = i then b.resolvedHostname else r.hostname i := by
  rw [hostname, setEntry_entry h]
  split_ifs <;> rfl

theorem setEntry_names (h : idx < r.builders.length) {b : HopBuilder}
    (hb : b.resolvedHostname = r.hostname idx) : SameNames r (r.setEntry idx b) := by
  constructor
  · intro i
    rw [hostname_setEntry h]
    split_ifs with hi
    · rw [hb, hi]
    · rfl
  · rfl

theorem readHost_names (h : idx < r.builders.length) (addr : Text) :
    SameNames r (r.readHost idx addr) := by
  apply setEntry_names h
  exact getOrInsert_hostname r idx

theorem readSent_names (h : idx < r.builders.length) (seq : Text) :
    SameNames r (r.readSent idx seq) := by
  apply setEntry_names h
  split_ifs <;> exact getOrInsert_hostname r idx

theorem readReply_names (h : idx < r.builders.length) (rttUs : F64) (seq : Text) :
    SameNames r (r.readReply idx rttUs seq) := by
  unfold readReply
  split
  · next entry he =>
    apply setEntry_names h
    simp [hostname, he]
  · exact ⟨fun _ => rfl, rfl⟩

/-- A name goes to the hop, and to the address that the hop has. -/
theorem readName_hostname (h : idx < r.builders.length) (hn : Text) (i : ℕ) :
    (r.readName idx hn).hostname i = if idx = i then some hn else r.hostname i := by
  have hset := hostname_setEntry h { r.getOrInsert idx with resolvedHostname := some hn } i
  unfold readName
  dsimp only
  split
  · exact hset
  · exact hset

theorem readName_names (hn : Text) : (r.readName idx hn).addrToHostname =
    ((r.address idx).map (fun addr => (addr, hn))).toList ++ r.addrToHostname := by
  unfold readName
  dsimp only
  rw [getOrInsert_address]
  cases r.address idx <;> rfl

theorem readLine_name {line hn : Text} (h : nameLine line = some (idx, hn)) :
    r.readLine line = (r.grow idx).readName idx hn := by
  have hline : letterLine ['d'] line = some (idx, hn) := h
  obtain ⟨number, rest, hparts, hidx⟩ := parts_of_letterLine hline
  simp [readLine, hparts, hidx]

theorem readLine_no_name {line : Text} (h : nameLine line = none) :
    SameNames r (r.readLine line) := by
  rcases r.readLine_cases line with heq | ⟨idx, heq | ⟨addr, -, heq⟩ | ⟨hn, hname, -⟩ |
    ⟨seq, heq⟩ | ⟨rttUs, seq, heq⟩⟩
  · rw [heq]
    exact ⟨fun _ => rfl, rfl⟩
  · rw [heq]
    exact r.grow_names idx
  · rw [heq]
    exact (r.grow_names idx).trans (readHost_names (r.lt_length_grow idx) addr)
  · rw [h] at hname
    cases hname
  · rw [heq]
    exact (r.grow_names idx).trans (readSent_names (r.lt_length_grow idx) seq)
  · rw [heq]
    exact (r.grow_names idx).trans (readReply_names (r.lt_length_grow idx) rttUs seq)

end Line
end RawReading

/-- The names after any lines: of a hop the last one it was given, of an address one that was
given to a hop with this address, if there is any. -/
structure NamesAsGiven (ls : List Text) (r : RawReading) : Prop where
  hostname : ∀ i, r.hostname i = finalName ls i
  sound : ∀ addr name, r.addrToHostname.lookup addr = some name → NamedAt ls name addr
  complete : ∀ addr name, NamedAt ls name addr → (r.addrToHostname.lookup addr).isSome = true

theorem finalName_concat (ls : List Text) (line : Text) (i : ℕ) :
    finalName (ls ++ [line]) i = (nameFor i line).or (finalName ls i) := lastSome_concat _ _ _

theorem namesAsGiven_step {ls : List Text} {r : RawReading} (line : Text)
    (haddr : ∀ i, r.address i = finalAddress (ls.filterMap hostLine) i)
    (h : NamesAsGiven ls r) : NamesAsGiven (ls ++ [line]) (r.readLine line) := by
  cases hline : nameLine line with
  | none =>
    have hsame := RawReading.readLine_no_name (r := r) hline
    have hconcat : ∀ name addr, NamedAt (ls ++ [line]) name addr ↔ NamedAt ls name addr := by
      intro name addr
      rw [namedAt_concat]
      simp [hline]
    constructor
    · intro i
      rw [hsame.hostname, finalName_concat, nameFor, hline]
      exact h.hostname i
    · intro addr name hl
      rw [hsame.names] at hl
      exact (hconcat name addr).mpr (h.sound addr name hl)
    · intro addr name hn
      rw [hsame.names]
      exact h.complete addr name ((hconcat name addr).mp hn)
  | some d =>
    obtain ⟨idx, hn⟩ := d
    have hlt := r.lt_length_grow idx
    have hgrow := r.grow_names idx
    have hnames : (r.readLine line).addrToHostname =
        ((r.address idx).map (fun addr => (addr, hn))).toList ++ r.addrToHostname := by
      rw [RawReading.readLine_name hline, RawReading.readName_names, (r.grow_marks idx).address,
        hgrow.names]
    constructor
    · intro i
      rw [RawReading.readLine_name hline, RawReading.readName_hostname hlt, finalName_concat,
        nameFor, hline, hgrow.hostname, h.hostname]
      by_cases hi : idx = i <;> simp [hi]
    · intro addr name hl
      rw [hnames, haddr] at hl
      rw [namedAt_concat, hline]
      cases ha : finalAddress (ls.filterMap hostLine) idx with
      | none =>
        rw [ha] at hl
        exact .inl (h.sound addr name hl)
      | some current =>
        rw [ha] at hl
        by_cases heq : addr = current
        · subst heq
          simp only [Option.map_some, Option.toList_some, List.singleton_append,
            List.lookup_cons_self, Option.some.injEq] at hl
          exact .inr ⟨idx, by rw [hl], ha⟩
        · have hne : (addr == current) = false := beq_eq_false_iff_ne.mpr heq
          simp only [Option.map_some, Option.toList_some, List.singleton_append,
            List.lookup_cons, hne] at hl
          exact .inl (h.sound addr name hl)
    · intro addr name hn'
      rw [hnames, haddr]
      rw [namedAt_concat, hline] at hn'
      cases ha : finalAddress (ls.filterMap hostLine) idx with
      | none =>
        rcases hn' with hn' | ⟨k, hk, hka⟩
        · exact h.complete addr name hn'
        · cases hk
          rw [ha] at hka
          cases hka
      | some current =>
        by_cases heq : addr = current
        · simp [heq]
        · have hne : (addr == current) = false := beq_eq_false_iff_ne.mpr heq
          simp only [Option.map_some, Option.toList_some, List.singleton_append,
            List.lookup_cons, hne]
          rcases hn' with hn' | ⟨k, hk, hka⟩
          · exact h.complete addr name hn'
          · cases hk
            rw [ha] at hka
            exact absurd (Option.some.inj hka).symm heq

theorem readRaw_names (data : Text) : NamesAsGiven (lines data) (readRaw data) := by
  unfold readRaw
  induction lines data using List.reverseRecOn with
  | nil =>
    refine ⟨fun _ => rfl, nofun, ?_⟩
    rintro addr name ⟨before, line, after, idx, h, -⟩
    exact absurd h.symm (List.append_ne_nil_of_right_ne_nil before (List.cons_ne_nil _ _))
  | append_singleton ls line ih =>
    rw [List.foldl_concat]
    exact namesAsGiven_step line (readLines_marks ls).1 ih

/-! ## The name of a returned hop -/

theorem propagate_hostname (names : List (Text × Text)) (b : HopBuilder) :
    (b.propagate names).resolvedHostname =
      if b.resolvedHostname.isNone ∨ b.resolvedHostname = b.resolvedAddress then
        (b.resolvedAddress.bind (fun addr => names.lookup addr)).or b.resolvedHostname
      else b.resolvedHostname := by
  unfold HopBuilder.propagate
  by_cases h : b.resolvedHostname.isNone ∨ b.resolvedHostname = b.resolvedAddress
  · rw [if_pos h, if_pos h]
    cases b.resolvedAddress.bind (fun addr => names.lookup addr) <;> rfl
  · rw [if_neg h, if_neg h]

/-- The name that a hop with this address shows: its own, unless it has none or only its
address. -/
def shownName (names : List (Text × Text)) (addr : Text) (own : Option Text) : Option Text :=
  if own.isNone ∨ own = some addr then (names.lookup addr).or own else own

theorem hopAt_name {data : Text} {isFinal : Bool} {i : ℕ} {hop : MtrHop} {addr : Text}
    (h : hopAt data isFinal i = some hop) (ha : finalAddress (hostLines data) i = some addr) :
    hop.resolvedAddress = some addr ∧ hop.resolvedHostname =
      shownName (readRaw data).addrToHostname addr (finalName (lines data) i) := by
  obtain ⟨b, hb, rfl⟩ := Option.map_eq_some_iff.mp h
  have haddr : b.resolvedAddress = some addr := by
    have hentry : (readRaw data).address i = b.resolvedAddress :=
      congrArg (·.bind HopBuilder.resolvedAddress) hb
    exact hentry.symm.trans (((readLines_marks (lines data)).1 i).trans ha)
  have hname : b.resolvedHostname = finalName (lines data) i := by
    rw [← (readRaw_names data).hostname i]
    exact (congrArg (·.bind HopBuilder.resolvedHostname) hb).symm
  have hshown := propagate_hostname (readRaw data).addrToHostname b
  rw [haddr, hname, Option.bind_some] at hshown
  exact ⟨(propagate_address _ b).trans haddr, hshown⟩

theorem hopAt_address_eq {data : Text} {isFinal : Bool} {i : ℕ} {hop : MtrHop}
    (h : hopAt data isFinal i = some hop) :
    finalAddress (hostLines data) i = hop.resolvedAddress := by
  have haddr : (hopAt data isFinal i).bind (·.resolvedAddress) = _ := hopAt_address
  rw [h, Option.bind_some] at haddr
  exact haddr.symm

/-- The shown name belongs to the address exactly when the own name does. -/
theorem shownName_belongs_iff (data : Text) (addr : Text) (own : Option Text) :
    (∀ name, shownName (readRaw data).addrToHostname addr own = some name →
        NamedAt (lines data) name addr) ↔
      ∀ name, own = some name →
        ∃ given, NamedAt (lines data) given addr ∧ (given = name ∨ name = addr) := by
  have hnames := readRaw_names data
  cases own with
  | none =>
    simp only [shownName, Option.isNone_none, true_or, if_true, Option.or_none, reduceCtorEq,
      false_implies, implies_true, iff_true]
    exact hnames.sound addr
  | some own =>
    by_cases hown : own = addr
    · subst hown
      rw [shownName, if_pos (.inr rfl)]
      cases hl : (readRaw data).addrToHostname.lookup own with
      | some hn =>
        have hgiven := hnames.sound own hn hl
        constructor
        · intro _ name hname
          cases hname
          exact ⟨hn, hgiven, .inr rfl⟩
        · intro _ name hname
          cases hname
          exact hgiven
      | none =>
        have hno : ∀ given, ¬ NamedAt (lines data) given own := by
          intro given hgiven
          have hsome := hnames.complete own given hgiven
          rw [hl] at hsome
          cases hsome
        constructor
        · intro h
          exact absurd (h own rfl) (hno own)
        · intro h
          obtain ⟨given, hgiven, -⟩ := h own rfl
          exact absurd hgiven (hno given)
    · rw [shownName, if_neg (by simp [hown])]
      constructor
      · intro h name hname
        cases hname
        exact ⟨own, h own rfl, .inl rfl⟩
      · intro h name hname
        cases hname
        obtain ⟨given, hgiven, rfl | heq⟩ := h own rfl
        · exact hgiven
        · exact absurd heq hown

/-- Hostnames belong to their addresses exactly in the outputs in which the last name of each
returned index was given for the address that the index ends with. -/
theorem hostnamesBelong_iff (data : Text) (isFinal : Bool) :
    HostnamesBelong data isFinal ↔ NamesFollowAddresses data := by
  constructor
  · intro h i addr name hmark haddr
    have hentry := entry_isSome_of_address haddr
    have hkept : i ∈ keptIndices data := mem_keptIndices.mpr ⟨hentry, marked_eq_false.mpr hmark⟩
    obtain ⟨b, hb⟩ := Option.isSome_iff_exists.mp hentry
    have hhop : hopAt data isFinal i =
        some ((b.propagate (readRaw data).addrToHostname).toHop isFinal) := by
      rw [hopAt, hb]
      rfl
    obtain ⟨ha, hn⟩ := hopAt_name hhop haddr
    have hbelongs := h _ (mem_parseRaw.mpr ⟨i, hkept, hhop⟩) addr
    rw [hn] at hbelongs
    exact (shownName_belongs_iff data addr _).mp (fun name => hbelongs name ha) name
  · intro h hop hmem addr name ha hn
    obtain ⟨i, hkept, hhop⟩ := mem_parseRaw.mp hmem
    have haddr := (hopAt_address_eq hhop).trans ha
    rw [(hopAt_name hhop haddr).2] at hn
    have hmark := marked_eq_false.mp (mem_keptIndices.mp hkept).2
    exact (shownName_belongs_iff data addr _).mpr (fun name => h i addr name hmark haddr) name hn

/-- The route of hop 0 changes after its first router was named. -/
def routeChange : Text := "h 0 203.0.113.1
d 0 core1.isp.example
h 0 198.51.100.7
".toList

/-- The second router is shown under the name of the first. -/
theorem routeChange_keeps_name :
    (parseRaw routeChange true).map (fun hop => (hop.resolvedAddress, hop.resolvedHostname)) =
      [(some "198.51.100.7".toList, some "core1.isp.example".toList)] ∧
    ¬ HostnamesBelong routeChange true := by
  have hrun : (parseRaw routeChange true).map
      (fun hop => (hop.resolvedAddress, hop.resolvedHostname)) =
      [(some "198.51.100.7".toList, some "core1.isp.example".toList)] := by decide
  refine ⟨hrun, ?_⟩
  intro h
  obtain ⟨hop, hone, hshown⟩ := List.map_eq_singleton_iff.mp hrun
  obtain ⟨haddr, hname⟩ := Prod.mk.inj hshown
  have hnamed := h hop (by simp [hone]) _ _ haddr hname
  have hlookup := (readRaw_names routeChange).complete _ _ hnamed
  exact absurd hlookup (by decide)

end GlobalpingProbe.Command.Mtr
