import GlobalpingProbe.Util.Data

/-! # Upper and lower case

The case mappings of the standard library cover all of Unicode and may turn one
character into several; inside ASCII it is the usual one.
-/
namespace GlobalpingProbe

structure CaseTable where
  upper : Char → Text
  upper_ascii : ∀ c, c.toNat < 128 → upper c = [c.toUpper]

/-- The mapping that leaves everything outside ASCII alone. -/
def CaseTable.ascii : CaseTable := ⟨fun c => [c.toUpper], fun _ _ => rfl⟩

def CaseTable.toUppercase (table : CaseTable) (s : Text) : Text := s.flatMap table.upper

/-- With the lower-case mapping, which may look at the text around a character. A character
outside ASCII whose upper case lies inside is a lower-case letter. -/
structure CaseTables extends CaseTable where
  lower : Text → Char → Text → Text
  lower_ascii : ∀ before c after, c.toNat < 128 → lower before c after = [c.toLower]
  lower_of_upper_ascii : ∀ before c after, 128 ≤ c.toNat → (∀ d ∈ upper c, d.toNat < 128) →
    lower before c after = [c]

theorem toUpper_of_not_ascii {c : Char} (h : 128 ≤ c.toNat) : c.toUpper = c := by
  have hcase : ¬ (c.val ≥ 'a'.val ∧ c.val ≤ 'z'.val) := by
    rintro ⟨-, hle⟩
    have hz : c.val.toNat ≤ 122 := UInt32.le_iff_toNat_le.mp hle
    exact absurd (h.trans hz) (by decide)
  exact dif_neg hcase

/-- The mappings that leave everything outside ASCII alone. -/
def CaseTables.ascii : CaseTables :=
  { CaseTable.ascii with
    lower := fun _ c _ => [c.toLower]
    lower_ascii := fun _ _ _ _ => rfl
    lower_of_upper_ascii := by
      intro before c after hc hupper
      have hsmall := hupper c (by simp [CaseTable.ascii, toUpper_of_not_ascii hc])
      omega }

def CaseTables.toLowercase (tables : CaseTables) (s : Text) : Text :=
  go [] s
where
  go (before : Text) : Text → Text
    | [] => []
    | c :: after => tables.lower before c after ++ go (before ++ [c]) after

section Ascii
variable (tables : CaseTables) {s : Text}

theorem CaseTable.toUppercase_ascii (table : CaseTable) (h : ∀ c ∈ s, c.toNat < 128) :
    table.toUppercase s = s.map Char.toUpper := by
  induction s with
  | nil => rfl
  | cons c s ih =>
    have hc := table.upper_ascii c (h c List.mem_cons_self)
    have hs := ih (fun d hd => h d (List.mem_cons_of_mem c hd))
    rw [toUppercase] at hs
    rw [toUppercase, List.flatMap_cons, hc, hs]
    rfl

theorem CaseTables.toLowercase_ascii (h : ∀ c ∈ s, c.toNat < 128) :
    tables.toLowercase s = s.map Char.toLower := by
  have hgo : ∀ before, toLowercase.go tables before s = s.map Char.toLower := by
    induction s with
    | nil => exact fun _ => rfl
    | cons c s ih =>
      intro before
      have hc := tables.lower_ascii before c s (h c List.mem_cons_self)
      have hs := ih (fun d hd => h d (List.mem_cons_of_mem c hd)) (before ++ [c])
      rw [toLowercase.go, hc, hs]
      rfl
  exact hgo []

theorem toLower_toUpper {c : Char} (h : c.toNat < 128) : c.toUpper.toLower = c.toLower := by
  have hall : ∀ n : Fin 128, (Char.ofNat n).toUpper.toLower = (Char.ofNat n).toLower := by decide
  have hc := hall ⟨c.toNat, h⟩
  rwa [Char.ofNat_toNat] at hc

/-- Inside ASCII the lower case of a text is that of its upper case. -/
theorem CaseTables.toLowercase_eq_of_ascii (h : ∀ c ∈ s, c.toNat < 128) :
    tables.toLowercase s = (tables.toUppercase s).map Char.toLower := by
  rw [tables.toLowercase_ascii h, tables.toUppercase_ascii h, List.map_map]
  apply List.map_congr_left
  intro c hc
  exact (toLower_toUpper (h c hc)).symm

/-- A character outside ASCII stays in the lower case of a text whose upper case is ASCII. -/
theorem CaseTables.mem_toLowercase {c : Char} (hupper : ∀ d ∈ tables.toUppercase s, d.toNat < 128)
    (hc : c ∈ s) (hout : 128 ≤ c.toNat) : c ∈ tables.toLowercase s := by
  have hgo : ∀ before, c ∈ toLowercase.go tables before s := by
    induction s with
    | nil => cases hc
    | cons e s ih =>
      intro before
      rw [CaseTable.toUppercase, List.flatMap_cons, List.forall_mem_append] at hupper
      rw [toLowercase.go, List.mem_append]
      rcases List.mem_cons.mp hc with rfl | hmem
      · rw [tables.lower_of_upper_ascii before c s hout hupper.1]
        exact .inl (List.mem_singleton_self c)
      · exact .inr (ih hupper.2 hmem (before ++ [e]))
  exact hgo []

end Ascii

def eqIgnoreAsciiCase (s t : Text) : Bool := s.map Char.toLower = t.map Char.toLower

end GlobalpingProbe
