import GlobalpingProbe.Foundation.Utf8
import Mathlib.Data.Rat.Defs

/-! # Data shared by the modules of the probe

Texts are lists of scalar values, durations and instants are nanosecond counts, and a
JSON value is the tree that the message handlers and the commands exchange.
-/
namespace GlobalpingProbe

abbrev Text := List Char

def fromSecs (n : ℕ) : ℕ := n * 1000000000

inductive Json where
  | null
  | bool (b : Bool)
  | num (q : ℚ)
  | str (s : Text)
  | arr (items : List Json)
  | obj (members : List (Text × Json))

namespace Json

def get (key : Text) : Json → Option Json
  | obj members => members.lookup key
  | _ => none

def asStr : Json → Option Text
  | str s => some s
  | _ => none

def asBool : Json → Option Bool
  | bool b => some b
  | _ => none

/-- `value[key] = item` on an object that already has the key. -/
def replace (value : Json) (key : Text) (item : Json) : Json :=
  match value with
  | obj members => obj (members.map (fun m => if m.1 = key then (key, item) else m))
  | value => value

theorem get_replace {key : Text} {v value : Json} (item : Json) (h : v.get key = some value) :
    (v.replace key item).get key = some item := by
  cases v with
  | obj members =>
    simp only [get] at h
    simp only [replace, get]
    induction members with
    | nil => cases h
    | cons m members ih =>
      by_cases hm : m.1 = key
      · simp [hm]
      · have hne : (key == m.1) = false := beq_eq_false_iff_ne.mpr (Ne.symm hm)
        rw [List.lookup_cons, hne] at h
        rw [List.map_cons, if_neg hm, List.lookup_cons, hne]
        exact ih h
  | null | bool | num | str | arr => cases h

theorem get_replace_of_ne {key other : Text} (v item : Json) (h : other ≠ key) :
    (v.replace key item).get other = v.get other := by
  cases v with
  | obj members =>
    simp only [replace, get]
    induction members with
    | nil => rfl
    | cons m members ih =>
      by_cases hm : m.1 = key
      · have hne : (other == m.1) = false := beq_eq_false_iff_ne.mpr (hm ▸ h)
        have hkey : (other == key) = false := beq_eq_false_iff_ne.mpr h
        rw [List.map_cons, if_pos hm, List.lookup_cons, List.lookup_cons, hne, hkey]
        exact ih
      · rw [List.map_cons, if_neg hm, List.lookup_cons, List.lookup_cons]
        split
        · rfl
        · exact ih
  | null | bool | num | str | arr => rfl

/-- The keys of a value, in their order. -/
def keys : Json → List Text
  | .obj members => members.map Prod.fst
  | _ => []

theorem keys_replace (v : Json) (key : Text) (item : Json) :
    (v.replace key item).keys = v.keys := by
  cases v with
  | obj members =>
    simp only [replace, keys, List.map_map]
    apply List.map_congr_left
    intro m _
    by_cases hm : m.1 = key
    · simp [hm]
    · simp [hm]
  | null | bool | num | str | arr => rfl

end Json
end GlobalpingProbe
