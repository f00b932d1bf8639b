import GlobalpingProbe.Foundation.Strings

/-! # Trimmed texts and lines that are ended one by one

A trimmed text neither starts nor ends with white space. Texts without a newline that are
each ended by LF or by CR LF are the lines of what they make up together.
-/
namespace Foundation

def Trimmed (s : List Char) : Prop := trim s = s

instance (s : List Char) : Decidable (Trimmed s) := inferInstanceAs (Decidable (trim s = s))

section Trimmed
variable {s : List Char}

theorem dropWhile_eq_self_of_trimmed (h : Trimmed s) : s.dropWhile isWhitespace = s := by
  have hpre : trim s <+: s.dropWhile isWhitespace := List.rdropWhile_prefix _ _
  rw [h] at hpre
  exact (hpre.eq_of_length_le (List.dropWhile_suffix _).length_le).symm

theorem rdropWhile_eq_self_of_trimmed (h : Trimmed s) : s.rdropWhile isWhitespace = s := by
  have htrim : (s.dropWhile isWhitespace).rdropWhile isWhitespace = s := h
  rwa [dropWhile_eq_self_of_trimmed h] at htrim

theorem head_of_trimmed {c : Char} (h : Trimmed (c :: s)) : isWhitespace c = false := by
  have hd := dropWhile_eq_self_of_trimmed h
  by_contra hc
  rw [Bool.not_eq_false] at hc
  rw [List.dropWhile_cons_of_pos hc] at hd
  have hlen := (List.dropWhile_suffix isWhitespace (l := s)).length_le
  rw [hd, List.length_cons] at hlen
  omega

theorem last_of_trimmed {c : Char} (h : Trimmed (s ++ [c])) : isWhitespace c = false := by
  have hd := rdropWhile_eq_self_of_trimmed h
  by_contra hc
  rw [Bool.not_eq_false] at hc
  rw [List.rdropWhile_concat_pos _ _ _ hc] at hd
  have hlen := (List.rdropWhile_prefix isWhitespace (l := s)).length_le
  rw [hd, List.length_append, List.length_singleton] at hlen
  omega

theorem trim_cons_of_whitespace {c : Char} (hc : isWhitespace c = true) (s : List Char) :
    trim (c :: s) = trim s := by
  rw [trim, List.dropWhile_cons_of_pos hc, trim]

/-- Only what stands behind can be trimmed off a text with a visible start. -/
theorem trim_of_head {c : Char} (hc : isWhitespace c = false) (s : List Char) :
    trim (c :: s) = (c :: s).rdropWhile isWhitespace := by
  rw [trim, List.dropWhile_cons_of_neg (by simp [hc])]

/-- The end of a trimmed text protects what stands before it. -/
theorem rdropWhile_append_trimmed {p : Char → Bool} (hp : ∀ c, p c = true → isWhitespace c = true)
    (front : List Char) (hne : s ≠ []) (h : Trimmed s) :
    (front ++ s).rdropWhile p = front ++ s := by
  obtain ⟨init, c, rfl⟩ : ∃ init c, s = init ++ [c] :=
    ⟨s.dropLast, s.getLast hne, (List.dropLast_append_getLast hne).symm⟩
  have hc := last_of_trimmed h
  rw [← List.append_assoc]
  apply List.rdropWhile_concat_neg
  intro hpc
  rw [hp c hpc] at hc
  cases hc

theorem trimmed_of_no_whitespace (h : ∀ c ∈ s, isWhitespace c = false) : Trimmed s := by
  have hall : ∀ c ∈ s, ¬ isWhitespace c = true := fun c hc => by simp [h c hc]
  have hfront : s.dropWhile isWhitespace = s := by
    cases s with
    | nil => rfl
    | cons c s => exact List.dropWhile_cons_of_neg (hall c List.mem_cons_self)
  rw [Trimmed, trim, hfront]
  cases s using List.reverseRecOn with
  | nil => rfl
  | append_singleton s c => exact List.rdropWhile_concat_neg _ _ _ (hall c (by simp))

end Trimmed

theorem isWhitespace_of_cr (c : Char) (h : decide (c = '\r') = true) : isWhitespace c = true := by
  rw [of_decide_eq_true h]
  rfl

def endLf (line : List Char) : List Char := line ++ ['\n']

def endCrLf (line : List Char) : List Char := line ++ ['\r', '\n']

theorem splitOn_flatMap_endLf {ls : List (List Char)} (h : ∀ l ∈ ls, '\n' ∉ l) :
    (ls.flatMap endLf).splitOn '\n' = ls ++ [[]] := by
  induction ls with
  | nil => rfl
  | cons l ls ih =>
    have hnone : ∀ c ∈ l, (c == '\n') = false := by
      intro c hc
      exact beq_eq_false_iff_ne.mpr (fun heq => h l List.mem_cons_self (heq ▸ hc))
    have happ : (l :: ls).flatMap endLf = l ++ '\n' :: ls.flatMap endLf := by simp [endLf]
    rw [happ, List.splitOn, List.splitOnP_append_cons _ _ (by rfl),
      List.splitOnP_eq_singleton hnone]
    exact congrArg (l :: ·) (ih (fun k hk => h k (List.mem_cons_of_mem l hk)))

/-- Lines that are ended one by one are found again, up to a carriage return at the end. -/
theorem lines_flatMap_endLf {ls : List (List Char)} (h : ∀ l ∈ ls, '\n' ∉ l) :
    lines (ls.flatMap endLf) = ls.map stripCr := by
  unfold lines
  induction ls with
  | nil => rfl
  | cons l ls ih =>
    have hnone : ∀ c ∈ l, (c == '\n') = false := by
      intro c hc
      exact beq_eq_false_iff_ne.mpr (fun heq => h l List.mem_cons_self (heq ▸ hc))
    have hsplit : ((l :: ls).flatMap endLf).splitOn '\n' =
        l :: (ls.flatMap endLf).splitOn '\n' := by
      have happ : (l :: ls).flatMap endLf = l ++ '\n' :: ls.flatMap endLf := by simp [endLf]
      rw [happ, List.splitOn, List.splitOnP_append_cons _ _ (by rfl),
        List.splitOnP_eq_singleton hnone]
      rfl
    rw [hsplit, endLines_cons (List.splitOn_ne_nil _ _),
      ih (fun k hk => h k (List.mem_cons_of_mem l hk)), List.map_cons]

theorem stripCr_concat_cr (line : List Char) : stripCr (line ++ ['\r']) = line := by
  simp [stripCr]

theorem stripCr_of_notMem {line : List Char} (h : '\r' ∉ line) : stripCr line = line := by
  have hlast : line.getLast? ≠ some '\r' := fun he => h (List.mem_of_getLast? he)
  rw [stripCr, if_neg hlast]

/-- Lines with a text that are joined are found again as they were. -/
theorem lines_joinLines_of_plain {ls : List (List Char)}
    (h : ∀ l ∈ ls, l ≠ [] ∧ '\n' ∉ l ∧ '\r' ∉ l) : lines (joinLines ls) = ls := by
  cases ls with
  | nil => rfl
  | cons first ls =>
    rw [lines_joinLines (List.cons_ne_nil _ _) (fun l hl => (h l hl).2.1)]
    induction ls generalizing first with
    | nil =>
      have hne : first.isEmpty = false :=
        List.isEmpty_eq_false_iff.mpr (h first (List.mem_singleton_self first)).1
      rw [endLines, hne]
      rfl
    | cons second ls ih =>
      have hcr := stripCr_of_notMem (h first List.mem_cons_self).2.2
      rw [endLines_cons (List.cons_ne_nil _ _), hcr,
        ih second (fun l hl => h l (List.mem_cons_of_mem first hl))]

/-- Lines that are ended by CR LF are found again as they were. -/
theorem lines_flatMap_endCrLf {ls : List (List Char)} (h : ∀ l ∈ ls, '\n' ∉ l) :
    lines (ls.flatMap endCrLf) = ls := by
  have hcr : ls.flatMap endCrLf = (ls.map (· ++ ['\r'])).flatMap endLf := by
    rw [List.flatMap_map]
    congr 1
    funext l
    simp [endLf, endCrLf]
  have hlf : ∀ l ∈ ls.map (· ++ ['\r']), '\n' ∉ l := by
    intro l hl
    obtain ⟨k, hk, rfl⟩ := List.mem_map.mp hl
    have hfirst := h k hk
    simp [hfirst]
  rw [hcr, lines_flatMap_endLf hlf, List.map_map]
  simp [Function.comp_def, stripCr_concat_cr]

/-- Three pieces around the first two separators. -/
theorem splitn_three {sep : Char} {a b : List Char} (ha : sep ∉ a) (hb : sep ∉ b)
    (c : List Char) : splitn sep 3 (a ++ sep :: (b ++ sep :: c)) = [a, b, c] := by
  have key : ∀ {s : List Char}, sep ∉ s → ∀ rest,
      (s ++ sep :: rest).dropWhile (· ≠ sep) = sep :: rest ∧
        (s ++ sep :: rest).takeWhile (· ≠ sep) = s := by
    intro s hs rest
    have hall : ∀ x ∈ s, decide (x ≠ sep) = true := by
      intro x hx
      simp only [ne_eq, decide_not, Bool.not_eq_true', decide_eq_false_iff_not]
      rintro rfl
      exact hs hx
    constructor
    · rw [List.dropWhile_append_of_pos hall, List.dropWhile_cons_of_neg (by simp)]
    · rw [List.takeWhile_append_of_pos hall, List.takeWhile_cons_of_neg (by simp), List.append_nil]
  obtain ⟨hda, hta⟩ := key ha (b ++ sep :: c)
  obtain ⟨hdb, htb⟩ := key hb c
  simp only [splitn, hda, hta, hdb, htb]

end Foundation
