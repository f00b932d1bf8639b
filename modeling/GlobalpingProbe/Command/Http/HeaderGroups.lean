import GlobalpingProbe.Command.Http.RawOutput

/-! # The map of the response headers

Each key of the map goes from absent to a single string and from there to an array. What it
holds after any number of pairs is the list of the values that came under the name so far.
-/
namespace GlobalpingProbe.Command.Http

variable (tables : CaseTables)

/-- The values that stand under a lower-cased name, in the order of the pairs. -/
def valuesOf (pairs : List Header) (name : Text) : List Text :=
  (pairs.filter (fun p => tables.toLowercase p.1 = name)).map (fun p => p.2)

/-- A single value is a string, several are an array of strings. -/
def grouped : List Text → Option Json
  | [] => none
  | [value] => some (.str value)
  | values => some (.arr (values.map Json.str))

theorem grouped_eq_none_iff {values : List Text} : grouped values = none ↔ values = [] := by
  match values with
  | [] => simp [grouped]
  | [value] => simp [grouped]
  | first :: second :: rest => simp [grouped]

@[simp] theorem valuesOf_append (pairs : List Header) (p : Header) (name : Text) :
    valuesOf tables (pairs ++ [p]) name =
      valuesOf tables pairs name ++ if tables.toLowercase p.1 = name then [p.2] else [] := by
  unfold valuesOf
  rw [List.filter_append, List.map_append]
  by_cases h : tables.toLowercase p.1 = name
  · rw [List.filter_cons_of_pos (by simp [h]), if_pos h]
    rfl
  · rw [List.filter_cons_of_neg (by simp [h]), if_neg h]
    rfl

theorem valuesOf_eq_nil_iff {pairs : List Header} {name : Text} :
    valuesOf tables pairs name = [] ↔ name ∉ pairs.map (fun p => tables.toLowercase p.1) := by
  simp [valuesOf, List.filter_eq_nil_iff]

theorem mem_keys_iff {map : List (Text × Json)} {name : Text} :
    name ∈ map.map Prod.fst ↔ map.lookup name ≠ none := by
  rw [← Option.isSome_iff_ne_none, List.lookup_isSome_iff, List.mem_map]
  simp only [beq_iff_eq]
  exact exists_congr fun m => and_congr_right fun _ => eq_comm

/-- The map has one member for each name of the pairs, with the values under that name. -/
structure Groups (pairs : List Header) (map : List (Text × Json)) : Prop where
  nodup : (map.map Prod.fst).Nodup
  lookup : ∀ name, map.lookup name = grouped (valuesOf tables pairs name)

section Insert
variable {tables} {pairs : List Header} {map : List (Text × Json)}

/-- Writing to a key that is present leaves the keys and every other value. -/
theorem Groups.of_set (h : Groups tables pairs map) {p : Header} {old item : Json}
    (hold : map.lookup (tables.toLowercase p.1) = some old)
    (hitem : grouped (valuesOf tables (pairs ++ [p]) (tables.toLowercase p.1)) = some item) :
    Groups tables (pairs ++ [p])
      (map.map (fun m => if m.1 = tables.toLowercase p.1 then (tables.toLowercase p.1, item) else m)) := by
  constructor
  · have hkeys := Json.keys_replace (.obj map) (tables.toLowercase p.1) item
    exact (congrArg List.Nodup hkeys).mpr h.nodup
  · intro name
    by_cases hname : name = tables.toLowercase p.1
    · subst hname
      rw [hitem]
      exact Json.get_replace (v := .obj map) item hold
    · rw [valuesOf_append, if_neg (Ne.symm hname), List.append_nil, ← h.lookup name]
      exact Json.get_replace_of_ne (.obj map) item hname

/-- A name that is new comes with a member of its own. -/
theorem Groups.of_append (h : Groups tables pairs map) {p : Header}
    (hnew : valuesOf tables pairs (tables.toLowercase p.1) = []) :
    Groups tables (pairs ++ [p]) (map ++ [(tables.toLowercase p.1, .str p.2)]) := by
  have hnone : map.lookup (tables.toLowercase p.1) = none := by
    rw [h.lookup, hnew]
    rfl
  have hfresh : tables.toLowercase p.1 ∉ map.map Prod.fst :=
    fun hmem => mem_keys_iff.mp hmem hnone
  constructor
  · rw [List.map_append]
    exact List.Nodup.append h.nodup (List.nodup_singleton _)
      (List.disjoint_singleton.mpr hfresh)
  · intro name
    rw [List.lookup_append, valuesOf_append, h.lookup name]
    by_cases hname : tables.toLowercase p.1 = name
    · subst hname
      rw [hnew, if_pos rfl, List.lookup_cons_self]
      rfl
    · have hne : (name == tables.toLowercase p.1) = false := beq_eq_false_iff_ne.mpr (Ne.symm hname)
      rw [if_neg hname, List.append_nil, List.lookup_cons, hne]
      exact Option.or_none

theorem Groups.insertHeader (h : Groups tables pairs map) (p : Header) :
    Groups tables (pairs ++ [p]) (insertHeader tables map p) := by
  have hold := h.lookup (tables.toLowercase p.1)
  have hnext := valuesOf_append tables pairs p (tables.toLowercase p.1)
  rw [if_pos rfl] at hnext
  unfold Http.insertHeader
  match hvalues : valuesOf tables pairs (tables.toLowercase p.1) with
  | [] =>
    rw [hvalues] at hold
    simp only [hold, grouped]
    exact h.of_append hvalues
  | [value] =>
    rw [hvalues] at hold hnext
    simp only [hold, grouped]
    exact h.of_set hold (by rw [hnext]; rfl)
  | first :: second :: rest =>
    rw [hvalues] at hold hnext
    simp only [hold, grouped]
    have hitems : (first :: second :: rest).map Json.str ++ [.str p.2] =
        (first :: second :: rest ++ [p.2]).map Json.str := by simp
    refine h.of_set hold ?_
    rw [hnext, hitems]
    rfl

end Insert

theorem groups_dedupHeaders (pairs : List Header) :
    Groups tables pairs (dedupHeaders tables pairs) := by
  induction pairs using List.reverseRecOn with
  | nil => exact ⟨List.nodup_nil, fun _ => rfl⟩
  | append_singleton pairs p ih =>
    rw [dedupHeaders, List.foldl_append]
    exact ih.insertHeader p

/-- Grouping loses nothing: the keys are the lower-cased names, each once, and under each stand
the values of its pairs in their order. -/
theorem dedupHeaders_groups (pairs : List Header) :
    ((dedupHeaders tables pairs).map Prod.fst).Nodup ∧
    (∀ name, name ∈ (dedupHeaders tables pairs).map Prod.fst ↔
      ∃ p ∈ pairs, tables.toLowercase p.1 = name) ∧
    ∀ name, (dedupHeaders tables pairs).lookup name = grouped (valuesOf tables pairs name) := by
  have hgroups := groups_dedupHeaders tables pairs
  refine ⟨hgroups.nodup, fun name => ?_, hgroups.lookup⟩
  rw [mem_keys_iff, hgroups.lookup, ne_eq, grouped_eq_none_iff, valuesOf_eq_nil_iff, not_not,
    List.mem_map]

/-- Two spellings of one name, with another name between them. -/
example : dedupHeaders .ascii [("Vary".toList, ['a']), ("Age".toList, ['1']), ("vary".toList, ['b'])] =
    [("vary".toList, .arr [.str ['a'], .str ['b']]), ("age".toList, .str ['1'])] := by rfl

end GlobalpingProbe.Command.Http
