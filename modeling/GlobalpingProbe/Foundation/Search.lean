import GlobalpingProbe.Foundation.Strings
import Mathlib.Data.List.Infix
import Mathlib.Data.List.TakeWhile

/-! # Searching texts

What follows the occurrences of a pattern, the text between two delimiters, and the pieces
between the occurrences that a replacement takes.
-/
namespace Foundation
variable {α : Type}

section Occurrences

/-- A suffix without an item stands behind the last place of the item. -/
theorem suffix_append_cons {c : α} {u s t : List α} (hc : c ∉ u) :
    u <:+ s ++ c :: t ↔ u <:+ t := by
  constructor
  · rintro ⟨w, hw⟩
    rcases List.append_eq_append_iff.mp hw with ⟨x, -, rfl⟩ | ⟨x, -, ht⟩
    · exact absurd (by simp) hc
    · cases x with
      | nil =>
        obtain rfl : u = c :: t := by simpa using ht.symm
        exact absurd (by simp) hc
      | cons d x =>
        obtain ⟨-, rfl⟩ := List.cons.inj ht
        exact ⟨x, rfl⟩
  · exact fun h => (h.trans (List.suffix_cons c t)).trans (List.suffix_append s _)

/-- A part without an item stands on one side of it. -/
theorem append_cons_eq_append {c : α} {s t before w after : List α} (hc : c ∉ w)
    (h : s ++ c :: t = before ++ w ++ after) :
    (∃ x, s = before ++ w ++ x ∧ after = x ++ c :: t) ∨
      ∃ x, before = s ++ c :: x ∧ t = x ++ w ++ after := by
  rw [List.append_assoc] at h
  rcases List.append_eq_append_iff.mp h with ⟨x, rfl, hx⟩ | ⟨x, rfl, hx⟩
  · cases x with
    | nil =>
      cases w with
      | nil => exact .inl ⟨[], by simp, by simpa using hx.symm⟩
      | cons d w =>
        obtain ⟨rfl, -⟩ := List.cons.inj hx
        exact absurd (by simp) hc
    | cons d x =>
      obtain ⟨rfl, rfl⟩ := List.cons.inj hx
      exact .inr ⟨x, rfl, by simp⟩
  · rcases List.append_eq_append_iff.mp hx with ⟨y, rfl, rfl⟩ | ⟨y, rfl, hy⟩
    · exact .inl ⟨y, by simp, rfl⟩
    · cases y with
      | nil => exact .inl ⟨[], by simp, by simpa using hy.symm⟩
      | cons d y =>
        obtain ⟨rfl, -⟩ := List.cons.inj hy
        exact absurd (by simp) hc

variable [DecidableEq α]

/-- What follows each occurrence of a pattern. -/
def followers (pat : List α) : List α → List (List α)
  | [] => []
  | c :: s =>
    if pat.isPrefixOf (c :: s) then (c :: s).drop pat.length :: followers pat s
    else followers pat s

variable {pat : List α}

theorem followers_cons_append {c : α} {s t : List α} (h : c :: s = pat ++ t) :
    followers pat (c :: s) = t :: followers pat s := by
  have hprefix : pat <+: c :: s := ⟨t, h.symm⟩
  rw [followers, if_pos (List.isPrefixOf_iff_prefix.mpr hprefix), h, List.drop_left]

theorem followers_cons_of_not {c : α} {s : List α} (h : ¬ pat <+: c :: s) :
    followers pat (c :: s) = followers pat s := by
  rw [followers, if_neg (fun hp => h (List.isPrefixOf_iff_prefix.mp hp))]

theorem suffix_of_mem_followers {s t : List α} (h : t ∈ followers pat s) : t <:+ s := by
  induction s with
  | nil => simp [followers] at h
  | cons c s ih =>
    rw [followers] at h
    split at h
    · rcases List.mem_cons.mp h with rfl | h
      · exact List.drop_suffix _ _
      · exact (ih h).trans (List.suffix_cons c s)
    · exact (ih h).trans (List.suffix_cons c s)

/-- No occurrence starts in a text without the first item of the pattern. -/
theorem followers_append_of_notMem {c : α} {u : List α} (hc : c ∉ u) (s : List α) :
    followers (c :: pat) (u ++ s) = followers (c :: pat) s := by
  induction u with
  | nil => rfl
  | cons d u ih =>
    have hno : ¬ c :: pat <+: d :: (u ++ s) := by
      intro h
      exact hc (by simp [(List.cons_prefix_cons.mp h).1])
    rw [List.cons_append, followers_cons_of_not hno]
    exact ih (fun hm => hc (by simp [hm]))

/-- The first occurrence with a value behind it decides. -/
theorem findSome?_followers {β : Type} {f : List α → Option β} {b : β} (hne : pat ≠ [])
    {s : List α} : (followers pat s).findSome? f = some b ↔
      ∃ before t, s = before ++ (pat ++ t) ∧ f t = some b ∧
        ∀ u w, s = u ++ (pat ++ w) → u.length < before.length → f w = none := by
  induction s with
  | nil =>
    refine iff_of_false (by simp [followers]) ?_
    rintro ⟨before, t, hs, -⟩
    simp [hne] at hs
  | cons c s ih =>
    have hlater : (∀ w, c :: s = pat ++ w → f w = none) →
        ((followers pat s).findSome? f = some b ↔
          ∃ before t, c :: s = before ++ (pat ++ t) ∧ f t = some b ∧
            ∀ u w, c :: s = u ++ (pat ++ w) → u.length < before.length → f w = none) := by
      intro hhere
      rw [ih]
      constructor
      · rintro ⟨before, t, rfl, ht, hfirst⟩
        refine ⟨c :: before, t, rfl, ht, fun u w hu hlen => ?_⟩
        cases u with
        | nil => exact hhere w hu
        | cons d u =>
          obtain ⟨-, hu⟩ := List.cons.inj hu
          exact hfirst u w hu (Nat.lt_of_succ_lt_succ hlen)
      · rintro ⟨before, t, hs, ht, hfirst⟩
        cases before with
        | nil =>
          rw [hhere t hs] at ht
          cases ht
        | cons d before =>
          obtain ⟨rfl, rfl⟩ := List.cons.inj hs
          exact ⟨before, t, rfl, ht,
            fun u w hu hlen => hfirst (c :: u) w (by rw [hu]; rfl) (Nat.succ_lt_succ hlen)⟩
    by_cases h : pat <+: c :: s
    · obtain ⟨t, ht⟩ := h
      rw [followers_cons_append ht.symm, List.findSome?_cons]
      cases hb : f t with
      | none =>
        refine hlater (fun w hw => ?_)
        rwa [← List.append_cancel_left (ht.trans hw)]
      | some b' =>
        rw [Option.some.injEq]
        constructor
        · rintro rfl
          exact ⟨[], t, ht.symm, hb, fun u w _ hlen => absurd hlen (Nat.not_lt_zero _)⟩
        · rintro ⟨before, t', hs, ht', hfirst⟩
          cases before with
          | nil =>
            rw [← List.append_cancel_left (ht.trans hs), hb] at ht'
            exact Option.some.inj ht'
          | cons d before =>
            rw [hfirst [] t ht.symm (Nat.succ_pos _)] at hb
            cases hb
    · rw [followers_cons_of_not h]
      exact hlater (fun w hw => absurd ⟨w, hw.symm⟩ h)

end Occurrences

/-! ## The text up to a stop -/

section Until
variable {stops : List α → Bool}

/-- The shortest front part behind which the text stops. -/
def textUntil (stops : List α → Bool) : List α → Option (List α)
  | [] => if stops [] then some [] else none
  | c :: s => if stops (c :: s) then some [] else (textUntil stops s).map (c :: ·)

theorem textUntil_of_stop {s : List α} (h : stops s = true) : textUntil stops s = some [] := by
  cases s <;> exact if_pos h

theorem textUntil_append {u t : List α}
    (hu : ∀ v c w, u = v ++ c :: w → stops (c :: (w ++ t)) = false) (ht : stops t = true) :
    textUntil stops (u ++ t) = some u := by
  induction u with
  | nil => exact textUntil_of_stop ht
  | cons c u ih =>
    have hhere : stops (c :: (u ++ t)) = false := hu [] c u rfl
    have hlater := ih (fun v d w huw => hu (c :: v) d w (by rw [huw]; rfl))
    rw [List.cons_append, textUntil, hhere, hlater]
    rfl

theorem textUntil_eq_some {s n : List α} : textUntil stops s = some n ↔
    ∃ t, s = n ++ t ∧ stops t = true ∧
      ∀ v c w, n = v ++ c :: w → stops (c :: (w ++ t)) = false := by
  constructor
  · intro h
    induction s generalizing n with
    | nil =>
      by_cases hstop : stops [] = true
      · rw [textUntil_of_stop hstop] at h
        obtain rfl := Option.some.inj h
        exact ⟨[], rfl, hstop, by simp⟩
      · rw [textUntil, if_neg hstop] at h
        cases h
    | cons c s ih =>
      by_cases hstop : stops (c :: s) = true
      · rw [textUntil_of_stop hstop] at h
        obtain rfl := Option.some.inj h
        exact ⟨c :: s, rfl, hstop, by simp⟩
      · rw [textUntil, if_neg hstop] at h
        obtain ⟨m, hm, rfl⟩ := Option.map_eq_some_iff.mp h
        obtain ⟨t, rfl, ht, hfirst⟩ := ih hm
        refine ⟨t, rfl, ht, fun v d w hsplit => ?_⟩
        cases v with
        | nil =>
          obtain ⟨rfl, rfl⟩ := List.cons.inj hsplit
          exact Bool.not_eq_true _ ▸ hstop
        | cons e v => exact hfirst v d w (List.cons.inj hsplit).2
  · rintro ⟨t, rfl, ht, hfirst⟩
    exact textUntil_append hfirst ht

theorem textUntil_isSome {s t : List α} (h : t <:+ s) (ht : stops t = true) :
    (textUntil stops s).isSome = true := by
  obtain ⟨front, rfl⟩ := h
  induction front with
  | nil =>
    rw [List.nil_append, textUntil_of_stop ht]
    rfl
  | cons c front ih =>
    rw [List.cons_append, textUntil]
    split
    · rfl
    · rwa [Option.isSome_map]

end Until

/-! ## The text between two delimiters -/

section Between
variable [DecidableEq α] {o c : α} {s n : List α}

/-- The text from the first `o` to the next `c`. -/
def between (o c : α) (s : List α) : Option (List α) :=
  match s.dropWhile (· ≠ o) with
  | [] => none
  | _ :: t => if c ∈ t then some (t.takeWhile (· ≠ c)) else none

theorem dropWhile_ne (o : α) (u t : List α) (hu : o ∉ u) :
    (u ++ o :: t).dropWhile (· ≠ o) = o :: t := by
  rw [List.dropWhile_append_of_pos (fun d hd => by simpa using fun he : d = o => hu (he ▸ hd))]
  simp

theorem takeWhile_ne (c : α) (u t : List α) (hu : c ∉ u) :
    (u ++ c :: t).takeWhile (· ≠ c) = u := by
  rw [List.takeWhile_append_of_pos (fun d hd => by simpa using fun he : d = c => hu (he ▸ hd))]
  simp

theorem between_of_notMem (ho : o ∉ s) : between o c s = none := by
  have hnil : s.dropWhile (· ≠ o) = [] := by
    rw [List.dropWhile_eq_nil_iff]
    exact fun d hd => by simpa using fun he : d = o => ho (he ▸ hd)
  rw [between, hnil]

theorem between_append_cons {u t : List α} (hu : o ∉ u) : between o c (u ++ o :: t) =
    if c ∈ t then some (t.takeWhile (· ≠ c)) else none := by
  rw [between, dropWhile_ne o u t hu]

theorem between_eq_some : between o c s = some n ↔
    ∃ u w, s = u ++ o :: (n ++ c :: w) ∧ o ∉ u ∧ c ∉ n := by
  constructor
  · intro h
    by_cases ho : o ∈ s
    · obtain ⟨u, t, rfl, hu⟩ := List.eq_append_cons_of_mem ho
      rw [between_append_cons hu] at h
      split_ifs at h with hc
      obtain ⟨a, w, rfl, ha⟩ := List.eq_append_cons_of_mem hc
      rw [takeWhile_ne c a w ha] at h
      cases h
      exact ⟨u, w, rfl, hu, ha⟩
    · rw [between_of_notMem ho] at h
      cases h
  · rintro ⟨u, w, rfl, hu, hn⟩
    simp only [between_append_cons hu, List.mem_append, List.mem_cons, true_or, or_true, if_true,
      takeWhile_ne c n w hn]

theorem between_isSome {u v w : List α} : (between o c (u ++ o :: (v ++ c :: w))).isSome = true := by
  obtain ⟨u', t, heq, hu'⟩ : ∃ u' t, u ++ o :: (v ++ c :: w) = u' ++ o :: t ∧ o ∉ u' :=
    List.eq_append_cons_of_mem (by simp)
  have hc : c ∈ t := by
    rcases List.append_eq_append_iff.mp heq with ⟨x, rfl, hx⟩ | ⟨x, rfl, hx⟩
    · cases x with
      | nil =>
        obtain ⟨-, rfl⟩ := List.cons.inj hx
        simp
      | cons d x =>
        obtain ⟨rfl, -⟩ := List.cons.inj hx
        exact absurd (by simp) hu'
    · cases x with
      | nil =>
        obtain ⟨-, rfl⟩ := List.cons.inj hx
        simp
      | cons d x =>
        obtain ⟨-, rfl⟩ := List.cons.inj hx
        simp
  rw [heq, between_append_cons hu']
  simp [hc]

/-- A replacement that knows neither delimiter goes on between them. -/
theorem between_replaceAll {pat new : List α} (hne : pat ≠ []) (ho : o ∉ pat ∧ o ∉ new)
    (hc : c ∉ pat ∧ c ∉ new) (s : List α) :
    between o c (replaceAll pat new s) = (between o c s).map (replaceAll pat new) := by
  have hmem : ∀ {d t}, d ∉ new → d ∈ replaceAll pat new t → d ∈ t :=
    fun hd hm => (mem_replaceFrom hm).resolve_left hd
  by_cases hs : o ∈ s
  · obtain ⟨u, t, rfl, hu⟩ := List.eq_append_cons_of_mem hs
    rw [replaceAll_append_cons ho.1 hne, between_append_cons (fun hm => hu (hmem ho.2 hm)),
      between_append_cons hu]
    by_cases ht : c ∈ t
    · obtain ⟨n, w, rfl, hn⟩ := List.eq_append_cons_of_mem ht
      rw [replaceAll_append_cons hc.1 hne, takeWhile_ne c _ _ (fun hm => hn (hmem hc.2 hm)),
        takeWhile_ne c n w hn]
      simp
    · rw [if_neg (fun hm => ht (hmem hc.2 hm)), if_neg ht]
      rfl
  · rw [between_of_notMem hs, between_of_notMem (fun hm => hs (hmem ho.2 hm))]
    rfl

end Between

/-! ## The pieces between occurrences -/

section Pieces
variable [DecidableEq α] {pat : List α}

def piecesFrom (pat : List α) : ℕ → List α → List (List α)
  | _, [] => [[]]
  | 0, c :: s =>
    if pat.isPrefixOf (c :: s) then [] :: piecesFrom pat (pat.length - 1) s
    else (piecesFrom pat 0 s).modifyHead (c :: ·)
  | skip + 1, _ :: s => piecesFrom pat skip s

/-- `str::split` with a pattern that is not empty. -/
def pieces (pat s : List α) : List (List α) := piecesFrom pat 0 s

theorem piecesFrom_skip (pat u t : List α) :
    piecesFrom pat u.length (u ++ t) = pieces pat t := by
  induction u with
  | nil => rfl
  | cons c u ih => exact ih

theorem pieces_occurrence (hne : pat ≠ []) (t : List α) :
    pieces pat (pat ++ t) = [] :: pieces pat t := by
  cases pat with
  | nil => exact absurd rfl hne
  | cons c pat =>
    have hprefix : c :: pat <+: c :: (pat ++ t) := List.prefix_append (c :: pat) t
    simp only [pieces, List.cons_append, piecesFrom, List.isPrefixOf_iff_prefix, hprefix,
      if_true, List.length_cons, Nat.add_sub_cancel]
    rw [piecesFrom_skip]
    rfl

theorem pieces_other {c : α} {s : List α} (h : ¬ pat <+: c :: s) :
    pieces pat (c :: s) = (pieces pat s).modifyHead (c :: ·) := by
  simp [pieces, piecesFrom, h]

theorem exists_pieces (hne : pat ≠ []) (s : List α) : ∃ p ps, pieces pat s = p :: ps := by
  induction s using occurrence_induction hne with
  | nil => exact ⟨[], [], rfl⟩
  | occurrence t ih => exact ⟨[], _, pieces_occurrence hne t⟩
  | other c s h ih =>
    obtain ⟨p, ps, hps⟩ := ih
    exact ⟨c :: p, ps, by rw [pieces_other h, hps]; rfl⟩

/-- A replacement joins the pieces with the new text. -/
theorem replaceAll_eq_intercalate (hne : pat ≠ []) (new s : List α) :
    replaceAll pat new s = new.intercalate (pieces pat s) := by
  induction s using occurrence_induction hne with
  | nil => simp [replaceAll, replaceFrom, pieces, piecesFrom]
  | occurrence t ih =>
    obtain ⟨p, ps, hps⟩ := exists_pieces hne t
    rw [replaceAll_occurrence hne, pieces_occurrence hne, ih, hps, List.intercalate_cons_cons]
    rfl
  | other c s h ih =>
    obtain ⟨p, ps, hps⟩ := exists_pieces hne s
    rw [replaceAll_other h, pieces_other h, ih, hps, List.modifyHead_cons,
      List.intercalate_cons_cons_left]

theorem replaceAll_self (hne : pat ≠ []) (s : List α) : replaceAll pat pat s = s := by
  induction s using occurrence_induction hne with
  | nil => rfl
  | occurrence t ih => rw [replaceAll_occurrence hne, ih]
  | other c s h ih => rw [replaceAll_other h, ih]

/-- Only the pattern turns into the new text. -/
theorem replaceAll_eq_new {new s : List α} (hne : pat ≠ []) (hnew : new ≠ [])
    (h : replaceAll pat new s = new) : s = pat ∨ s = new := by
  have hpos := List.length_pos_of_ne_nil hnew
  have hself := replaceAll_self hne s
  rw [replaceAll_eq_intercalate hne] at h hself
  obtain ⟨p, ps, hps⟩ := exists_pieces hne s
  rw [hps] at h hself
  have hlen := congrArg List.length h
  match ps with
  | [] =>
    rw [List.intercalate_singleton] at h hself
    exact .inr (hself.symm.trans h)
  | [q] =>
    simp only [List.intercalate_cons_cons, List.intercalate_singleton, List.length_append] at hlen
    obtain rfl : p = [] := List.eq_nil_of_length_eq_zero (by omega)
    obtain rfl : q = [] := List.eq_nil_of_length_eq_zero (by omega)
    exact .inl (by simpa using hself.symm)
  | q :: r :: ps =>
    simp only [List.intercalate_cons_cons, List.length_append] at hlen
    omega

end Pieces
end Foundation
