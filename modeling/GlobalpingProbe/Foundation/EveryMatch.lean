import GlobalpingProbe.Foundation.Unambiguous

/-! # All matches, one after the other

An expression that takes at least one item at every match is tried again behind the last match
until there is no further one. What stands in front of a match is passed over, and a word that
does not end as a match goes on is passed over whole.
-/
namespace Foundation.Regex
variable {α : Type} {r p q : Regex α} {s w : List α}

section Fuel

theorem rest_length_lt (hr : [] ∉ r.lang) {m : Match α} (h : r.captures s = some m) :
    m.rest.length < s.length := by
  obtain ⟨⟨before, n⟩, hf, rfl⟩ := Option.map_eq_some_iff.mp h
  obtain ⟨hs, hlang⟩ := find_sound hf
  have hne : n.text ≠ [] := fun he => hr (he ▸ hlang)
  have hpos := List.length_pos_iff.mpr hne
  change n.rest.length < s.length
  rw [← hs, List.length_append, List.length_append]
  omega

theorem capturesIter_go_nil (hr : [] ∉ r.lang) (fuel : ℕ) : capturesIter.go r fuel [] = [] := by
  cases fuel with
  | zero => rfl
  | succ fuel =>
    rw [capturesIter.go]
    cases hc : r.captures [] with
    | none => rfl
    | some m => exact absurd (rest_length_lt hr hc) (Nat.not_lt_zero _)

/-- More steps than items change nothing. -/
theorem capturesIter_go_congr (hr : [] ∉ r.lang) {fuel fuel' : ℕ} (h : s.length ≤ fuel)
    (h' : s.length ≤ fuel') : capturesIter.go r fuel s = capturesIter.go r fuel' s := by
  induction fuel generalizing fuel' s with
  | zero =>
    obtain rfl : s = [] := List.length_eq_zero_iff.mp (Nat.le_zero.mp h)
    rw [capturesIter_go_nil hr, capturesIter_go_nil hr]
  | succ fuel ih =>
    cases fuel' with
    | zero =>
      obtain rfl : s = [] := List.length_eq_zero_iff.mp (Nat.le_zero.mp h')
      rw [capturesIter_go_nil hr, capturesIter_go_nil hr]
    | succ fuel' =>
      rw [capturesIter.go, capturesIter.go]
      cases hc : r.captures s with
      | none => rfl
      | some m =>
        have hlt := rest_length_lt hr hc
        exact congrArg (m :: ·) (ih (by omega) (by omega))

/-- The first match, and then those of the text behind it. -/
theorem capturesIter_eq (hr : [] ∉ r.lang) (s : List α) : r.capturesIter s =
    match r.captures s with
    | some m => m :: r.capturesIter m.rest
    | none => [] := by
  have hgo : r.capturesIter s = capturesIter.go r (s.length + 1) s :=
    capturesIter_go_congr hr le_rfl (Nat.le_succ _)
  rw [hgo, capturesIter.go]
  cases hc : r.captures s with
  | none => rfl
  | some m => exact congrArg (m :: ·) (capturesIter_go_congr hr (rest_length_lt hr hc).le le_rfl)

end Fuel

section Search

theorem capturesIter_of_head? (hr : [] ∉ r.lang) {m : Match α} (h : (r.exec s).head? = some m) :
    r.capturesIter s = m :: r.capturesIter m.rest := by
  rw [capturesIter_eq hr, captures, find_of_head? h]
  rfl

theorem capturesIter_of_skips (hr : [] ∉ r.lang) (h : r.Skips w s) :
    r.capturesIter (w ++ s) = r.capturesIter s := by
  have hsame : r.captures (w ++ s) = r.captures s := by
    rw [captures, captures, find_of_skips h, Option.map_map]
    rfl
  rw [capturesIter_eq hr, hsame, ← capturesIter_eq hr]

end Search

section Words
variable {sep : α → Bool} {stop : α}

/-- The front part of a match never has the item that ends a word, and the rest of a match
starts with a separator. -/
structure CutAt (sep : α → Bool) (stop : α) (p q : Regex α) : Prop where
  front : ∀ v ∈ p.lang, stop ∉ v
  rest : ∀ u, q.exec u ≠ [] → ∃ c u', u = c :: u' ∧ sep c = true

/-- What starts in a word is cut where the word ends. -/
theorem CutAt.unique (h : CutAt sep stop p q) (hw : ∀ c ∈ w, sep c = false)
    (hs : ∀ c ∈ s.head?, c = stop) :
    ∀ v u, v ++ u = w ++ s → v ∈ p.lang → q.exec u ≠ [] → u = s := by
  apply unique_of_head
  · intro v hv c hc
    rw [hs c hc]
    exact h.front v hv
  · intro u hu
    obtain ⟨c, u', rfl, hc⟩ := h.rest u hu
    refine ⟨c, u', rfl, fun hmem => ?_⟩
    rw [hw c hmem] at hc
    cases hc

theorem CutAt.of_exec (h : CutAt sep stop p q) (hw : ∀ c ∈ w, sep c = false)
    (hs : ∀ c ∈ s.head?, c = stop) (hexec : (seq p q).exec (w ++ s) ≠ []) :
    w ∈ p.lang ∧ q.exec s ≠ [] := by
  obtain ⟨v, u, heq, hv, hu⟩ := of_exec_seq_ne_nil hexec
  obtain rfl := h.unique hw hs v u heq hv hu
  exact ⟨List.append_cancel_right heq ▸ hv, hu⟩

/-- A word is passed over where no match can go on behind it. -/
theorem CutAt.skips_of_rest (h : CutAt sep stop p q) (hw : ∀ c ∈ w, sep c = false)
    (hs : ∀ c ∈ s.head?, c = stop) (hrest : q.exec s = []) : (seq p q).Skips w s := by
  induction w with
  | nil => trivial
  | cons c w ih =>
    refine ⟨?_, ih (fun d hd => hw d (List.mem_cons_of_mem c hd))⟩
    by_contra hexec
    exact (h.of_exec hw hs hexec).2 hrest

/-- A word is passed over that ends with an item which the front part of a match never has. -/
theorem CutAt.skips_of_last (h : CutAt sep stop p q) {last : α}
    (hw : ∀ c ∈ w ++ [last], sep c = false) (hs : ∀ c ∈ s.head?, c = stop)
    (hlast : ∀ v ∈ p.lang, last ∉ v) : (seq p q).Skips (w ++ [last]) s := by
  induction w with
  | nil =>
    refine ⟨?_, trivial⟩
    by_contra hexec
    exact hlast [last] (h.of_exec hw hs hexec).1 (by simp)
  | cons c w ih =>
    refine ⟨?_, ih (fun d hd => hw d (List.mem_cons_of_mem c hd))⟩
    by_contra hexec
    exact hlast _ (h.of_exec hw hs hexec).1 (by simp)

/-- No match starts between two words. -/
theorem CutAt.skips_gap (h : CutAt sep stop p q) (hp : [] ∉ p.lang) (n : ℕ) (s : List α) :
    (seq p q).Skips (List.replicate n stop) s := by
  induction n with
  | zero => trivial
  | succ n ih =>
    refine ⟨?_, ih⟩
    by_contra hexec
    obtain ⟨v, u, heq, hv, -⟩ := of_exec_seq_ne_nil hexec
    cases v with
    | nil => exact hp hv
    | cons d v =>
      obtain ⟨rfl, -⟩ := List.cons.inj heq
      exact h.front _ hv List.mem_cons_self

end Words

end Foundation.Regex
