import GlobalpingProbe.Command.Http.TruncateHeaders

/-! # When the truncation of headers returns

The three running sums of the source are the sizes of what is left, each less one. The drop
phase is safe as long as one header fits, the cap it leaves room for is the largest one within
the limit, and what remains is the place of the cut in each value.
-/
namespace GlobalpingProbe.Command.Http
open Foundation Foundation.Utf8

def fullTotal (l : List Header) : ℕ := (l.map pairSize).sum
def minTotal (l : List Header) : ℕ := (l.map pairMinSize).sum

/-- The bytes that no truncation of values saves. -/
def nameTotal (l : List Header) : ℕ := (l.map (fun p => byteLen p.1 + 3)).sum

def valueLengths (l : List Header) : List ℕ := l.map (fun p => byteLen p.2)

def droppingOrder (srt : SortUnstable) (pairs : List Header) : List Header :=
  (srt.sort (indexed pairs)).filterMap (fun e => pairs[e.1]?)

/-- What is left once the headers at the front are dropped, as long as the minimal sizes of
the remaining ones exceed the limit. -/
def survivors : List Header → List Header
  | [] => []
  | p :: ps => if minTotal (p :: ps) ≤ headersSizeLimit + 1 then p :: ps else survivors ps

/-- The largest cap on the values with which the headers stay within the limit. -/
def LargestFit (l : List Header) (c : ℕ) : Prop :=
  nameTotal l + cappedSum c (valueLengths l) ≤ headersSizeLimit + 1 ∧
    headersSizeLimit + 1 < nameTotal l + cappedSum (c + 1) (valueLengths l)

/-- Every value over the largest cap has a character boundary where the mark is to start. -/
def CutsAtBoundaries (l : List Header) : Prop :=
  ∀ c, LargestFit l c → ∀ p ∈ l, c < byteLen p.2 →
    isCharBoundary p.2 (c - byteLen truncationMark) = true

@[simp] theorem ok_bind {α β : Type} (a : α) (f : α → Except Panic β) :
    ((Except.ok a : Except Panic α) >>= f) = f a := rfl

@[simp] theorem error_bind {α β : Type} (e : Panic) (f : α → Except Panic β) :
    ((Except.error e : Except Panic α) >>= f) = .error e := rfl

theorem checkedSub_of_le {a b : ℕ} (h : b ≤ a) : checkedSub a b = .ok (a - b) := if_pos h

theorem checkedSub_of_lt {a b : ℕ} (h : a < b) : checkedSub a b = .error .subtractOverflow :=
  if_neg (not_le.mpr h)

theorem fullTotal_eq (l : List Header) : fullTotal l = nameTotal l + (valueLengths l).sum := by
  induction l with
  | nil => rfl
  | cons p l ih =>
    simp only [fullTotal, nameTotal, valueLengths, List.map_cons, List.sum_cons, pairSize] at ih ⊢
    omega

theorem minTotal_eq (l : List Header) :
    minTotal l = nameTotal l + cappedSum (byteLen truncationMark) (valueLengths l) := by
  induction l with
  | nil => rfl
  | cons p l ih =>
    simp only [minTotal, nameTotal, valueLengths, List.map_cons, List.sum_cons, pairMinSize,
      cappedSum_cons] at ih ⊢
    omega

section Permutations
variable {l m : List Header}

theorem fullTotal_perm (h : l.Perm m) : fullTotal l = fullTotal m := (h.map _).sum_eq
theorem minTotal_perm (h : l.Perm m) : minTotal l = minTotal m := (h.map _).sum_eq
theorem nameTotal_perm (h : l.Perm m) : nameTotal l = nameTotal m := (h.map _).sum_eq

theorem cutsAtBoundaries_perm (h : l.Perm m) : CutsAtBoundaries l ↔ CutsAtBoundaries m := by
  have hcap := fun c => cappedSum_perm (h.map (fun p => byteLen p.2)) c
  unfold CutsAtBoundaries LargestFit valueLengths
  simp only [nameTotal_perm h, hcap, h.mem_iff]

end Permutations

section DropPhase

theorem survivors_fit (l : List Header) : minTotal (survivors l) ≤ headersSizeLimit + 1 := by
  induction l with
  | nil => exact Nat.zero_le _
  | cons p l ih =>
    unfold survivors
    split
    · assumption
    · exact ih

/-- Something survives exactly when one of the headers fits by itself. -/
theorem survivors_ne_nil {l : List Header}
    (hsorted : l.Pairwise (fun p q => pairMinSize q ≤ pairMinSize p)) :
    survivors l ≠ [] ↔ ∃ p ∈ l, pairMinSize p ≤ headersSizeLimit + 1 := by
  induction l with
  | nil => simp [survivors]
  | cons p l ih =>
    obtain ⟨hp, hl⟩ := List.pairwise_cons.mp hsorted
    unfold survivors
    split
    · next h =>
      simp only [minTotal, List.map_cons, List.sum_cons] at h
      simp only [ne_eq, reduceCtorEq, not_false_eq_true, true_iff]
      exact ⟨p, List.mem_cons_self, by omega⟩
    · next h =>
      rw [ih hl]
      constructor
      · rintro ⟨q, hq, hle⟩
        exact ⟨q, List.mem_cons_of_mem p hq, hle⟩
      · rintro ⟨q, hq, hle⟩
        rcases List.mem_cons.mp hq with rfl | hq
        · cases l with
          | nil => simp [minTotal] at h; omega
          | cons r l =>
            exact ⟨r, List.mem_cons_self, (hp r List.mem_cons_self).trans hle⟩
        · exact ⟨q, hq, hle⟩

theorem pairSize_pos (p : Header) : 0 < pairSize p := Nat.succ_pos _
theorem pairMinSize_pos (p : Header) : 0 < pairMinSize p := Nat.succ_pos _

theorem fullTotal_pos {l : List Header} (h : l ≠ []) : 0 < fullTotal l := by
  cases l with
  | nil => exact absurd rfl h
  | cons p l =>
    have hp := pairSize_pos p
    simp only [fullTotal, List.map_cons, List.sum_cons]
    omega

theorem minTotal_pos {l : List Header} (h : l ≠ []) : 0 < minTotal l := by
  cases l with
  | nil => exact absurd rfl h
  | cons p l =>
    have hp := pairMinSize_pos p
    simp only [minTotal, List.map_cons, List.sum_cons]
    omega

/-- The entries of the dropping order name headers and carry their minimal sizes. -/
def EntriesOf (pairs : List Header) (entries : List (ℕ × ℕ)) : Prop :=
  ∀ e ∈ entries, ∃ p, pairs[e.1]? = some p ∧ e.2 = pairMinSize p

def named (pairs : List Header) (entries : List (ℕ × ℕ)) : List Header :=
  entries.filterMap (fun e => pairs[e.1]?)

section DropStep
variable {pairs : List Header} {i : ℕ} {p : Header} {rest : List (ℕ × ℕ)} {later : List Header}
  {dropped : List ℕ}

/-- Dropping the largest header takes its sizes off both totals. -/
theorem dropLoop_next (hp : pairs[i]? = some p) (hlater : later ≠ [])
    (hover : ¬ minTotal (p :: later) - 1 ≤ headersSizeLimit) :
    dropLoop pairs ((i, pairMinSize p) :: rest) (fullTotal (p :: later) - 1)
        (minTotal (p :: later) - 1) dropped =
      dropLoop pairs rest (fullTotal later - 1) (minTotal later - 1) (i :: dropped) := by
  have hfull : fullTotal (p :: later) = pairSize p + fullTotal later := rfl
  have hmin : minTotal (p :: later) = pairMinSize p + minTotal later := rfl
  have hf := fullTotal_pos hlater
  have hm := minTotal_pos hlater
  have hfrest : fullTotal (p :: later) - 1 - pairSize p = fullTotal later - 1 := by omega
  have hmrest : minTotal (p :: later) - 1 - pairMinSize p = minTotal later - 1 := by omega
  simp only [dropLoop, hp]
  rw [if_neg hover, checkedSub_of_le (by omega), ok_bind, checkedSub_of_le (by omega), ok_bind,
    hfrest, hmrest]

/-- The total of a single header is one less than its size, so the header cannot be dropped. -/
theorem dropLoop_last (hp : pairs[i]? = some p)
    (hover : ¬ minTotal [p] - 1 ≤ headersSizeLimit) :
    dropLoop pairs ((i, pairMinSize p) :: rest) (fullTotal [p] - 1) (minTotal [p] - 1) dropped =
      .error .subtractOverflow := by
  have hfull : fullTotal [p] = pairSize p := List.sum_singleton
  have hpos := pairSize_pos p
  simp only [dropLoop, hp]
  rw [if_neg hover, checkedSub_of_lt (by omega)]
  rfl

end DropStep

/-- The drop loop keeps the books of what is left, and fails only by dropping everything. -/
theorem dropLoop_spec (pairs : List Header) (entries : List (ℕ × ℕ)) (dropped : List ℕ)
    (he : EntriesOf pairs entries) (hne : entries ≠ []) :
    let left := named pairs entries
    let outcome := dropLoop pairs entries (fullTotal left - 1) (minTotal left - 1) dropped
    (survivors left = [] ∧ outcome = .error .subtractOverflow) ∨
      (survivors left ≠ [] ∧ ∃ pre suf, entries = pre ++ suf ∧ named pairs suf = survivors left ∧
        outcome = .ok (fullTotal (survivors left) - 1, (pre.map Prod.fst).reverse ++ dropped)) := by
  induction entries generalizing dropped with
  | nil => exact absurd rfl hne
  | cons e rest ih =>
    obtain ⟨i, min⟩ := e
    obtain ⟨p, hp, rfl⟩ := he (i, min) List.mem_cons_self
    have hrest : EntriesOf pairs rest := fun e h => he e (List.mem_cons_of_mem _ h)
    have hleft : named pairs ((i, pairMinSize p) :: rest) = p :: named pairs rest := by
      simp [named, hp]
    have hpos := minTotal_pos (List.cons_ne_nil p (named pairs rest))
    simp only [hleft, survivors]
    split
    · next hfit =>
      refine .inr ⟨List.cons_ne_nil _ _, [], (i, pairMinSize p) :: rest, rfl, hleft, ?_⟩
      simp only [dropLoop]
      rw [if_pos (by omega)]
      rfl
    · next hlarge =>
      have hover : ¬ minTotal (p :: named pairs rest) - 1 ≤ headersSizeLimit := by omega
      cases rest with
      | nil => exact .inl ⟨rfl, dropLoop_last hp hover⟩
      | cons e rest =>
        obtain ⟨q, hq, -⟩ := hrest e List.mem_cons_self
        have hlater : named pairs (e :: rest) ≠ [] := by simp [named, hq]
        rw [dropLoop_next hp hlater hover]
        rcases ih (i :: dropped) hrest (List.cons_ne_nil _ _) with
          ⟨hs, ho⟩ | ⟨hs, pre, suf, hsplit, hn, ho⟩
        · exact .inl ⟨hs, ho⟩
        · refine .inr ⟨hs, (i, pairMinSize p) :: pre, suf, by rw [hsplit]; rfl, hn, ?_⟩
          rw [ho]
          simp

theorem zipIdx_getElem? {pairs : List Header} {e : Header × ℕ} (h : e ∈ pairs.zipIdx) :
    pairs[e.2]? = some e.1 := List.mem_zipIdx_iff_getElem?.mp h

theorem entriesOf_indexed (pairs : List Header) : EntriesOf pairs (indexed pairs) := by
  intro e he
  obtain ⟨x, hx, rfl⟩ := List.mem_map.mp he
  exact ⟨x.1, zipIdx_getElem? hx, rfl⟩

theorem indices_indexed (pairs : List Header) :
    (indexed pairs).map Prod.fst = List.range' 0 pairs.length := by
  rw [indexed, List.map_map]
  exact List.zipIdx_map_snd 0 pairs

theorem named_filter_indexed (pairs : List Header) (q : ℕ → Bool) :
    named pairs ((indexed pairs).filter (fun e => q e.1)) =
      (pairs.zipIdx.filter (fun e => q e.2)).map Prod.fst := by
  rw [named, indexed, List.filter_map, List.filterMap_map, ← List.filterMap_eq_map]
  apply List.filterMap_congr
  intro e he
  exact zipIdx_getElem? (List.mem_of_mem_filter he)

variable (srt : SortUnstable) (pairs : List Header)

theorem droppingOrder_perm : (droppingOrder srt pairs).Perm pairs := by
  have hall := named_filter_indexed pairs (fun _ => true)
  rw [List.filter_eq_self.mpr (fun _ _ => rfl), List.filter_eq_self.mpr (fun _ _ => rfl),
    List.zipIdx_map_fst] at hall
  exact ((srt.perm (indexed pairs)).filterMap _).trans (List.Perm.of_eq hall)

theorem droppingOrder_sorted :
    (droppingOrder srt pairs).Pairwise (fun p q => pairMinSize q ≤ pairMinSize p) := by
  refine List.Pairwise.filterMap _ ?_ ((srt.sorted (indexed pairs)).imp_of_mem
    (S := fun a b => b.2 ≤ a.2 ∧ a ∈ indexed pairs ∧ b ∈ indexed pairs)
    (fun ha hb h => ⟨h, (srt.perm _).mem_iff.mp ha, (srt.perm _).mem_iff.mp hb⟩))
  rintro a b ⟨hle, ha, hb⟩ p hp q hq
  obtain ⟨p', hp', hpe⟩ := entriesOf_indexed pairs a ha
  obtain ⟨q', hq', hqe⟩ := entriesOf_indexed pairs b hb
  obtain rfl : p = p' := Option.some.inj (hp.symm.trans hp')
  obtain rfl : q = q' := Option.some.inj (hq.symm.trans hq')
  rw [← hpe, ← hqe]
  exact hle

theorem kept_perm {pre suf : List (ℕ × ℕ)} (h : srt.sort (indexed pairs) = pre ++ suf) :
    ((pairs.zipIdx.filter (fun e => e.2 ∉ (pre.map Prod.fst).reverse)).map Prod.fst).Perm
      (named pairs suf) := by
  have hnd : ((pre ++ suf).map Prod.fst).Nodup := by
    rw [← h, ((srt.perm _).map _).nodup_iff, indices_indexed]
    exact List.nodup_range'
  rw [List.map_append, List.nodup_append] at hnd
  have hsuf : (pre ++ suf).filter (fun e => e.1 ∉ (pre.map Prod.fst).reverse) = suf := by
    rw [List.filter_append, List.filter_eq_nil_iff.mpr, List.filter_eq_self.mpr, List.nil_append]
    · intro e he
      have hd := hnd.2.2
      simp only [List.mem_reverse, decide_eq_true_eq]
      exact fun hm => hd _ hm _ (List.mem_map_of_mem he) rfl
    · intro e he
      simp only [List.mem_reverse, decide_eq_true_eq, not_not]
      exact List.mem_map_of_mem he
  have hperm := ((srt.perm (indexed pairs)).filter
    (fun e => e.1 ∉ (pre.map Prod.fst).reverse)).filterMap (fun e => pairs[e.1]?)
  rw [h, hsuf] at hperm
  exact (hperm.trans (List.Perm.of_eq (named_filter_indexed pairs
    (fun i => i ∉ (pre.map Prod.fst).reverse)))).symm

/-- The drop phase leaves the survivors, or fails because there are none. -/
theorem dropHeaders_spec (hne : pairs ≠ []) :
    let left := survivors (droppingOrder srt pairs)
    let outcome := dropHeaders srt pairs (fullTotal pairs - 1) (minTotal pairs - 1)
    (left = [] ∧ outcome = .error .subtractOverflow) ∨
      (left ≠ [] ∧ ∃ kept, outcome = .ok (fullTotal left - 1, kept) ∧ kept.Perm left) := by
  have hperm := droppingOrder_perm srt pairs
  have hmin := minTotal_perm hperm
  rw [← fullTotal_perm hperm, ← hmin]
  have hone : droppingOrder srt pairs ≠ [] := fun h => hne (List.nil_perm.mp (h ▸ hperm))
  dsimp only [dropHeaders]
  split
  · have hentries : srt.sort (indexed pairs) ≠ [] := by
      intro h
      exact hone (by rw [droppingOrder, h]; rfl)
    have hof : EntriesOf pairs (srt.sort (indexed pairs)) :=
      fun e he => entriesOf_indexed pairs e ((srt.perm _).mem_iff.mp he)
    rcases dropLoop_spec pairs _ [] hof hentries with ⟨hs, ho⟩ | ⟨hs, pre, suf, hsplit, hn, ho⟩
    · exact .inl ⟨hs, by rw [droppingOrder]; exact congrArg (· >>= _) ho⟩
    · refine .inr ⟨hs, _, congrArg (· >>= _) ho, ?_⟩
      rw [List.append_nil]
      exact hn ▸ kept_perm srt pairs hsplit
  · next hle =>
    have hall : survivors (droppingOrder srt pairs) = droppingOrder srt pairs := by
      cases ho : droppingOrder srt pairs with
      | nil => rfl
      | cons p l =>
        rw [ho] at hle
        exact if_pos (by omega)
    rw [hall]
    exact .inr ⟨hone, pairs, rfl, hperm.symm⟩

end DropPhase

section ShrinkPhase

theorem capSearch_cons {budget n total len : ℕ} {rest : List ℕ} (h : rest.headD 0 ≤ len) :
    capSearch budget n total (len :: rest) =
      if total - n * (len - rest.headD 0) ≤ budget then
        .ok (len - (total - budget + n - 1) / n)
      else capSearch budget (n + 1) (total - n * (len - rest.headD 0)) rest := by
  rw [capSearch, checkedSub_of_le h]
  rfl

/-- The search ends at the largest cap within the budget. -/
theorem capSearch_spec {budget len : ℕ} {longer rest : List ℕ}
    (hsorted : (longer ++ len :: rest).Pairwise (fun a b => b ≤ a))
    (hover : budget < cappedSum len (longer ++ len :: rest)) :
    ∃ c, capSearch budget (longer.length + 1) (cappedSum len (longer ++ len :: rest)) (len :: rest) =
      .ok c ∧ LargestCap budget (longer ++ len :: rest) c := by
  induction rest generalizing longer len with
  | nil =>
    have hl : ∀ a ∈ longer ++ [len], len ≤ a := by
      intro a ha
      rcases List.mem_append.mp ha with ha | ha
      · exact (List.pairwise_append.mp hsorted).2.2 a ha len List.mem_cons_self
      · exact (List.mem_singleton.mp ha).ge
    have hne : longer ++ [len] ≠ [] := by simp
    have hnone : ∀ a ∈ ([] : List ℕ), a ≤ 0 := nofun
    have hbetween := cappedSum_between hl hnone (Nat.zero_le len)
    have hcap := largestCap_between hne hl hnone (Nat.zero_le len) (by simpa using hover) (by simp)
    simp only [List.append_nil, List.length_append, List.length_singleton, cappedSum_zero]
      at hbetween hcap
    refine ⟨_, ?_, hcap⟩
    rw [capSearch_cons (Nat.zero_le _), if_pos]
    simp only [List.headD_nil]
    omega
  | cons next rest ih =>
    have hpair := List.pairwise_append.mp hsorted
    have htail := List.pairwise_cons.mp hpair.2.1
    have hl : ∀ a ∈ longer ++ [len], len ≤ a := by
      intro a ha
      rcases List.mem_append.mp ha with ha | ha
      · exact hpair.2.2 a ha len List.mem_cons_self
      · exact (List.mem_singleton.mp ha).ge
    have hs : ∀ a ∈ next :: rest, a ≤ next := by
      intro a ha
      rcases List.mem_cons.mp ha with rfl | ha
      · exact le_rfl
      · exact (List.pairwise_cons.mp htail.2).1 a ha
    have hle : next ≤ len := htail.1 next List.mem_cons_self
    have happ : longer ++ len :: next :: rest = longer ++ [len] ++ next :: rest := by simp
    have hbetween := cappedSum_between hl hs hle
    rw [happ] at hsorted hover ⊢
    rw [List.length_append, List.length_singleton] at hbetween
    rw [capSearch_cons (by exact hle), List.headD_cons,
      show cappedSum len (longer ++ [len] ++ next :: rest) - (longer.length + 1) * (len - next) =
        cappedSum next (longer ++ [len] ++ next :: rest) by omega]
    split
    · next hfits =>
      exact ⟨_, rfl, by simpa using largestCap_between (by simp) hl hs hle hover hfits⟩
    · next hfits =>
      simpa using ih hsorted (not_le.mp hfits)

theorem mapM_ok_iff {α β : Type} (f : α → Except Panic β) (l : List α) :
    (∃ r, l.mapM f = .ok r) ↔ ∀ a ∈ l, ∃ b, f a = .ok b := by
  induction l with
  | nil => simp [pure, Except.pure]
  | cons a l ih =>
    rw [List.mapM_cons, List.forall_mem_cons, ← ih]
    cases f a with
    | error e => simp
    | ok b =>
      cases l.mapM f with
      | error e => simp
      | ok r => simp [pure, Except.pure]

theorem cutValue_ok_iff {cap : ℕ} (hcap : byteLen truncationMark ≤ cap) (p : Header) :
    (∃ q, cutValue cap p = .ok q) ↔
      (cap < byteLen p.2 → isCharBoundary p.2 (cap - byteLen truncationMark) = true) := by
  unfold cutValue
  split
  · next hover =>
    rw [checkedSub_of_le hcap, ok_bind, ← sliceTo_isSome]
    cases sliceTo p.2 (cap - byteLen truncationMark) with
    | none => simp [hover]
    | some s => simp
  · next hunder => simp [hunder]

theorem mergeSort_desc {α : Type} (f : α → ℕ) (l : List α) :
    (l.mergeSort (fun a b => f b ≤ f a)).Pairwise (fun a b => f b ≤ f a) := by
  refine (List.pairwise_mergeSort ?_ ?_ l).imp (fun h => by simpa using h)
  · intro a b c hab hbc
    simp only [decide_eq_true_eq] at hab hbc ⊢
    omega
  · intro a b
    simp only [Bool.or_eq_true, decide_eq_true_eq]
    omega

theorem shrinkValues_spec {kept : List Header} (hmin : minTotal kept ≤ headersSizeLimit + 1)
    (hfull : headersSizeLimit + 1 < fullTotal kept) :
    ∃ c, shrinkValues kept (fullTotal kept - 1) = kept.mapM (cutValue c) ∧ LargestFit kept c ∧
      byteLen truncationMark ≤ c := by
  have hf := fullTotal_eq kept
  have hm := minTotal_eq kept
  unfold shrinkValues
  have hperm : ((valueLengths kept).mergeSort (fun a b => b ≤ a)).Perm (valueLengths kept) :=
    List.mergeSort_perm _ _
  have hsorted := mergeSort_desc id (valueLengths kept)
  simp only [id_eq] at hsorted
  rw [show (kept.map (fun p => byteLen p.2)) = valueLengths kept from rfl]
  generalize (valueLengths kept).mergeSort (fun a b => b ≤ a) = lengths at hperm hsorted ⊢
  have hsum : lengths.sum = (valueLengths kept).sum := hperm.sum_eq
  dsimp only
  rw [hsum, checkedSub_of_le (by omega), ok_bind,
    show headersSizeLimit + (valueLengths kept).sum - (fullTotal kept - 1) =
      headersSizeLimit + 1 - nameTotal kept by omega]
  cases lengths with
  | nil =>
    rw [List.sum_nil] at hsum
    omega
  | cons len rest =>
    have htop : ∀ a ∈ len :: rest, a ≤ len := by
      intro a ha
      rcases List.mem_cons.mp ha with rfl | ha
      · exact le_rfl
      · exact (List.pairwise_cons.mp hsorted).1 a ha
    have htotal := cappedSum_of_le htop
    have hbudget : headersSizeLimit + 1 - nameTotal kept < cappedSum len ([] ++ len :: rest) := by
      rw [List.nil_append]
      omega
    have hsearch := capSearch_spec (by simpa using hsorted) hbudget
    simp only [List.nil_append, List.length_nil, zero_add] at hsearch
    obtain ⟨c, hc, hcap⟩ := hsearch
    rw [htotal, hsum] at hc
    rw [hc, ok_bind]
    rw [LargestCap.perm hperm] at hcap
    have hmark : byteLen truncationMark ≤ c := hcap.le (by omega)
    obtain ⟨hle, hlt⟩ := hcap
    exact ⟨c, by rw [max_eq_left hmark], ⟨by omega, by omega⟩, hmark⟩

end ShrinkPhase

theorem LargestFit.unique {l : List Header} {c d : ℕ} (hc : LargestFit l c) (hd : LargestFit l d) :
    c = d := by
  have hcap : ∀ n, LargestFit l n →
      LargestCap (headersSizeLimit + 1 - nameTotal l) (valueLengths l) n := by
    rintro n ⟨hle, hlt⟩
    exact ⟨by omega, by omega⟩
  exact LargestCap.unique (hcap c hc) (hcap d hd)

/-- There is only one largest cap, so the boundaries are those that the cuts are made at. -/
theorem cutsAtBoundaries_iff {l : List Header} {c : ℕ} (hc : LargestFit l c)
    (hmark : byteLen truncationMark ≤ c) :
    CutsAtBoundaries l ↔ ∀ p ∈ l, ∃ q, cutValue c p = .ok q := by
  simp only [cutValue_ok_iff hmark, CutsAtBoundaries]
  constructor
  · intro h p hp
    exact h c hc p hp
  · intro h d hd p hp hlt
    obtain rfl := hc.unique hd
    exact h p hp hlt

/-- Headers that fit with their full values are not cut at all. -/
theorem cutsAtBoundaries_of_fits {l : List Header} (h : fullTotal l ≤ headersSizeLimit + 1) :
    CutsAtBoundaries l := by
  intro c hc
  have hle := cappedSum_le_sum (c + 1) (valueLengths l)
  have hf := fullTotal_eq l
  have hlt := hc.2
  omega

theorem survivors_of_fits {l : List Header} (h : minTotal l ≤ headersSizeLimit + 1) :
    survivors l = l := by
  cases l with
  | nil => rfl
  | cons p l => exact if_pos h

/-- `truncate_headers` returns exactly when there is nothing to truncate, or a header that
fits by itself remains and every value over the largest common cap has a character boundary
where its mark starts. -/
theorem truncateHeaders_returns_iff (srt : SortUnstable) (pairs : List Header) :
    (∃ r, truncateHeaders srt pairs = .ok r) ↔ pairs = [] ∨
      ((∃ p ∈ pairs, pairMinSize p ≤ headersSizeLimit + 1) ∧
        CutsAtBoundaries (survivors (droppingOrder srt pairs))) := by
  have hperm := droppingOrder_perm srt pairs
  have hsome : (∃ p ∈ pairs, pairMinSize p ≤ headersSizeLimit + 1) ↔
      survivors (droppingOrder srt pairs) ≠ [] := by
    rw [survivors_ne_nil (droppingOrder_sorted srt pairs)]
    simp only [hperm.mem_iff]
  unfold truncateHeaders
  cases hp : pairs with
  | nil => simp
  | cons p ps =>
    rw [← hp, hsome, if_neg (by simp [hp])]
    have hne : pairs ≠ [] := by simp [hp]
    have hmin : minTotal pairs ≤ fullTotal pairs := by
      have hle := cappedSum_le_sum (byteLen truncationMark) (valueLengths pairs)
      rw [minTotal_eq, fullTotal_eq]
      omega
    change (∃ r, (if fullTotal pairs - 1 ≤ headersSizeLimit then _ else
      dropHeaders srt pairs (fullTotal pairs - 1) (minTotal pairs - 1) >>= _) = Except.ok r) ↔ _
    split
    · next hfits =>
      have hfull := fullTotal_perm hperm
      have hminOrder := minTotal_perm hperm
      rw [survivors_of_fits (by omega)]
      have hone : droppingOrder srt pairs ≠ [] := fun h => hne (List.nil_perm.mp (h ▸ hperm))
      simp [hone, hne, cutsAtBoundaries_of_fits (l := droppingOrder srt pairs) (by omega)]
    · rcases dropHeaders_spec srt pairs hne with ⟨hnil, ho⟩ | ⟨hleft, kept, ho, hkept⟩
      · rw [ho, error_bind]
        simp [hnil, hne]
      · rw [ho, ok_bind]
        have hfull := fullTotal_perm hkept
        have hminKept := minTotal_perm hkept
        have hfit := survivors_fit (droppingOrder srt pairs)
        simp only [hleft, hne, false_or, ne_eq, not_false_eq_true, true_and]
        rw [← cutsAtBoundaries_perm hkept, ← hfull]
        split
        · next hdone => simp [cutsAtBoundaries_of_fits (l := kept) (by omega)]
        · next hover =>
          have hsmall : minTotal kept ≤ headersSizeLimit + 1 := by omega
          obtain ⟨c, hshrink, hc, hmark⟩ := shrinkValues_spec hsmall (by omega)
          rw [cutsAtBoundaries_iff hc hmark, ← mapM_ok_iff, hshrink]
          cases kept.mapM (cutValue c) with
          | error e => simp
          | ok headers => simp

def mergeSortDesc : SortUnstable where
  sort l := l.mergeSort (fun a b => b.2 ≤ a.2)
  perm l := List.mergeSort_perm l _
  sorted l := mergeSort_desc Prod.snd l

/-- A value of two-byte characters whose cut falls inside one of them. -/
def accentedHeader : Header := (['a'], List.replicate 5000 'é')

/-- A name that leaves no room for any value. -/
def longNameHeader : Header := (List.replicate 10000 'x', [])

theorem accentedHeader_sizes :
    pairSize accentedHeader = 10004 ∧ pairMinSize accentedHeader = 18 := by
  have hv : byteLen accentedHeader.2 = 10000 := byteLen_replicate 5000 'é'
  have hk : byteLen accentedHeader.1 = 1 := rfl
  have hm : byteLen truncationMark = 14 := rfl
  simp [pairSize, pairMinSize, hv, hk, hm]

theorem longNameHeader_sizes :
    pairSize longNameHeader = 10003 ∧ pairMinSize longNameHeader = 10003 := by
  have hk : byteLen longNameHeader.1 = 10000 := byteLen_replicate 10000 'x'
  have hv : byteLen longNameHeader.2 = 0 := rfl
  simp [pairSize, pairMinSize, hk, hv]

theorem truncateHeaders_single (srt : SortUnstable) {p : Header}
    (hmin : pairMinSize p ≤ headersSizeLimit + 1) (hfull : headersSizeLimit + 1 < pairSize p) :
    ∃ c, LargestFit [p] c ∧ byteLen truncationMark ≤ c ∧
      truncateHeaders srt [p] = (do return ⟨true, ← [p].mapM (cutValue c)⟩) := by
  have hf : fullTotal [p] = pairSize p := List.sum_singleton
  have hm : minTotal [p] = pairMinSize p := List.sum_singleton
  have hsmall : minTotal [p] ≤ headersSizeLimit + 1 := by omega
  obtain ⟨c, hshrink, hc, hmark⟩ := shrinkValues_spec hsmall (by omega)
  refine ⟨c, hc, hmark, ?_⟩
  rw [hf] at hshrink
  have hdrop : dropHeaders srt [p] (pairSize p - 1) (pairMinSize p - 1) =
      .ok (pairSize p - 1, [p]) := if_neg (by omega)
  simp only [truncateHeaders, List.isEmpty_cons, Bool.false_eq_true, if_false, List.map_cons,
    List.map_nil, List.sum_singleton, hdrop, ok_bind, hshrink]
  rw [if_neg (by omega), if_neg (by omega)]
  rfl

theorem truncateHeaders_single_long {srt : SortUnstable} {p : Header}
    (hmin : headersSizeLimit + 1 < pairMinSize p) :
    truncateHeaders srt [p] = .error .subtractOverflow := by
  have hm : minTotal [p] = pairMinSize p := List.sum_singleton
  have hle : pairMinSize p ≤ pairSize p := by
    unfold pairMinSize pairSize
    omega
  have horder : droppingOrder srt [p] = [p] := List.perm_singleton.mp (droppingOrder_perm srt [p])
  have hnone : survivors (droppingOrder srt [p]) = [] := by
    rw [horder, survivors, if_neg (by omega), survivors]
  rcases dropHeaders_spec srt [p] (List.cons_ne_nil _ _) with ⟨-, ho⟩ | ⟨hleft, -⟩
  · simp only [fullTotal, minTotal, List.map_cons, List.map_nil, List.sum_singleton] at ho
    simp only [truncateHeaders, List.isEmpty_cons, Bool.false_eq_true, if_false, List.map_cons,
      List.map_nil, List.sum_singleton, ho, error_bind]
    rw [if_neg (by omega)]
  · exact absurd hnone hleft

theorem cutValue_panics {cap : ℕ} {p : Header} (hcap : byteLen truncationMark ≤ cap)
    (hover : cap < byteLen p.2)
    (hb : isCharBoundary p.2 (cap - byteLen truncationMark) = false) :
    cutValue cap p = .error .charBoundary := by
  rw [← sliceTo_isSome, Option.isSome_eq_false_iff, Option.isNone_iff_eq_none] at hb
  rw [cutValue, if_pos hover, checkedSub_of_le hcap, ok_bind, hb]

/-- One header with a long accented value panics in the slice, one with an over-long name in
the subtraction. -/
theorem truncateHeaders_panics :
    truncateHeaders mergeSortDesc [accentedHeader] = .error .charBoundary ∧
      truncateHeaders mergeSortDesc [longNameHeader] = .error .subtractOverflow := by
  have hlimit : headersSizeLimit = 10000 := rfl
  have hmark : byteLen truncationMark = 14 := rfl
  constructor
  · obtain ⟨hs, hm⟩ := accentedHeader_sizes
    have hv : byteLen accentedHeader.2 = 10000 := byteLen_replicate 5000 'é'
    obtain ⟨c, ⟨hle, hlt⟩, hc, hcut⟩ := truncateHeaders_single mergeSortDesc
      (p := accentedHeader) (by omega) (by omega)
    have hn : nameTotal [accentedHeader] = 4 := rfl
    simp only [valueLengths, List.map_cons, List.map_nil, hv, hn, cappedSum_cons, cappedSum_nil,
      hlimit] at hle hlt
    obtain rfl : c = 9997 := by omega
    have hb : isCharBoundary accentedHeader.2 (9997 - byteLen truncationMark) = false := by
      have hiff := isCharBoundary_replicate 'é' 5000 9983 (by decide)
      exact Bool.eq_false_iff.mpr (fun h => absurd (hiff.mp h) (by decide))
    rw [hcut, List.mapM_cons, cutValue_panics hc (by omega) hb]
    rfl
  · obtain ⟨-, hm⟩ := longNameHeader_sizes
    exact truncateHeaders_single_long (by omega)

end GlobalpingProbe.Command.Http
