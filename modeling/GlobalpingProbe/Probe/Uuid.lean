import GlobalpingProbe.Foundation.Lines
import GlobalpingProbe.Foundation.Utf8
import GlobalpingProbe.Util.Data
import Mathlib.Logic.Function.Basic

/-! # The id of the probe

Each start of the program takes its id from a file, or generates one and writes it there. Of
what can go wrong with a file, the start says what did; the paths depend on the environment.
-/
namespace GlobalpingProbe.Probe
open Foundation Foundation.Utf8

def uuidPath : Text := "/.globalping-probe-uuid".toList

inductive StoredFile where
  | missing
  | text (content : Text)
  /-- Bytes that are no UTF-8. -/
  | garbled
  deriving DecidableEq, Repr

/-- Lower-case hexadecimal digits and hyphens. -/
def isUuidChar (c : Char) : Bool := c.isDigit || (97 ≤ c.toNat && c.toNat ≤ 102) || c = '-'

/-- How a UUID is printed. -/
structure Uuid where
  text : Text
  length : text.length = 36
  chars : text.all isUuidChar = true

/-- A write that fails may have emptied the file, and written some bytes. -/
inductive WriteOutcome where
  | refused
  | cut (written : Fin 36)
  | complete
  deriving DecidableEq, Repr

/-- The environment of one start, and the UUID that it generates if it does. -/
structure Start where
  gpUuidPath : Option Text
  home : Option Text
  /-- The file in the root directory can be opened for writing. -/
  rootOpens : Bool
  readable : Bool
  uuid : Uuid
  write : WriteOutcome

/-! ## The source -/

namespace StoredFile

/-- Opening the file creates it. -/
def opened : StoredFile → StoredFile
  | .missing => .text []
  | f => f

def readToString (f : StoredFile) (readable : Bool) : Option Text :=
  match f with
  | .text content => if readable then some content else none
  | _ => none

end StoredFile

namespace Start
variable (s : Start)

def resolveUuidPath : Text :=
  if s.rootOpens then uuidPath else s.home.getD "/tmp".toList ++ "/.globalping-probe-uuid".toList

def path : Text := s.gpUuidPath.getD s.resolveUuidPath

def generate (f : StoredFile) : Text × StoredFile :=
  (s.uuid.text, match s.write with
    | .refused => f
    | .cut n => .text (s.uuid.text.take n)
    | .complete => .text s.uuid.text)

def loadOrCreate (f : StoredFile) : Text × StoredFile :=
  match f.readToString s.readable with
  | some content =>
    let id := trim content
    if !id.isEmpty then (id, f) else s.generate f
  | none => s.generate f

/-- The file that the path names, after the path was resolved. -/
def resolved (f : StoredFile) : StoredFile :=
  if s.gpUuidPath.isNone && s.rootOpens then f.opened else f

/-- The id of the start, and the files after it. -/
def main (files : Text → StoredFile) : Text × (Text → StoredFile) :=
  let r := s.loadOrCreate (s.resolved (files s.path))
  (r.1, Function.update files s.path r.2)

end Start

/-- The part of the id that `run` logs first; a panic where the cut is inside a character. -/
def announced (id : Text) : Option Text := sliceTo id (min (byteLen id) 8)

/-- The path and the id of each start, one after the other. -/
def identities (files : Text → StoredFile) : List Start → List (Text × Text)
  | [] => []
  | s :: starts => (s.path, (s.main files).1) :: identities (s.main files).2 starts

/-- The ids that are used with a path. -/
def idsAt (path : Text) (files : Text → StoredFile) (starts : List Start) : List Text :=
  ((identities files starts).filter (fun p => p.1 = path)).map (·.2)

/-! ## One file -/

/-- The id that a file holds. -/
def StoredFile.name : StoredFile → Option Text
  | .text content => if (trim content).isEmpty then none else some (trim content)
  | _ => none

theorem StoredFile.name_opened (f : StoredFile) : f.opened.name = f.name := by
  cases f <;> rfl

namespace Start
variable (s : Start)

/-- The id that the start finds. -/
def found (name : Option Text) : Option Text := if s.readable then name else none

/-- The id that the file holds after the start. -/
def kept (name : Option Text) : Option Text :=
  if (s.found name).isSome then name
  else match s.write with
    | .refused => name
    | .cut n => if n.val = 0 then none else some (s.uuid.text.take n)
    | .complete => some s.uuid.text

def id (name : Option Text) : Text := (s.found name).getD s.uuid.text

end Start

theorem toNat_of_isUuidChar {c : Char} (h : isUuidChar c = true) :
    45 ≤ c.toNat ∧ c.toNat ≤ 102 := by
  simp only [isUuidChar, Bool.or_eq_true, Bool.and_eq_true, decide_eq_true_eq] at h
  rcases h with (h | h) | rfl
  · have halnum : c.isAlphanum = true := by simp [Char.isAlphanum, h]
    have hdigit : c.toNat ≤ 57 := by
      have hd : (decide (c.val ≥ '0'.val) && decide (c.val ≤ '9'.val)) = true := h
      exact of_decide_eq_true (Bool.and_eq_true_iff.mp hd).2
    have hrange := toNat_of_isAlphanum halnum
    omega
  · omega
  · decide

section Uuid
variable (u : Uuid) {n : ℕ}

theorem toNat_of_mem_take {c : Char} (h : c ∈ u.text.take n) : 45 ≤ c.toNat ∧ c.toNat ≤ 102 :=
  toNat_of_isUuidChar (List.all_eq_true.mp u.chars c (List.mem_of_mem_take h))

/-- A part of an id is read back as it was written. -/
theorem trim_take : trim (u.text.take n) = u.text.take n := by
  refine trimmed_of_no_whitespace (fun c hc => ?_)
  have hrange := toNat_of_mem_take u hc
  simp only [isWhitespace, Bool.or_eq_false_iff, Bool.and_eq_false_iff, decide_eq_false_iff_not]
  omega

theorem take_length : u.text.take 36 = u.text := List.take_of_length_le (Nat.le_of_eq u.length)

theorem announced_take : (announced (u.text.take n)).isSome = true := by
  have hascii : ∀ c ∈ u.text.take n, c.toNat < 128 := by
    intro c hc
    have hrange := toNat_of_mem_take u hc
    omega
  rw [announced, byteLen_ascii hascii, sliceTo_ascii hascii (Nat.min_le_left _ _)]
  rfl

theorem name_take : (StoredFile.text (u.text.take n)).name =
    if n = 0 then none else some (u.text.take n) := by
  have hlen : (u.text.take n).length = min n 36 := by rw [List.length_take, u.length]
  have hempty : (u.text.take n).isEmpty = decide (n = 0) := by
    rw [Bool.eq_iff_iff, List.isEmpty_iff_length_eq_zero, hlen, decide_eq_true_eq]
    omega
  rw [StoredFile.name, trim_take, hempty]
  by_cases hn : n = 0 <;> simp [hn]

theorem name_uuid : (StoredFile.text u.text).name = some u.text := by
  have h := name_take u (n := 36)
  rwa [take_length, if_neg (by decide)] at h

end Uuid

theorem generate_name (s : Start) {f : StoredFile} (h : s.found f.name = none) :
    (s.generate f).1 = s.id f.name ∧ (s.generate f).2.name = s.kept f.name := by
  rw [Start.id, Start.kept, h, Start.generate]
  refine ⟨rfl, ?_⟩
  cases s.write with
  | refused => rfl
  | cut n => exact name_take s.uuid
  | complete => exact name_uuid s.uuid

/-- The start by the id that the file holds. -/
theorem loadOrCreate_name (s : Start) (f : StoredFile) :
    (s.loadOrCreate f).1 = s.id f.name ∧ (s.loadOrCreate f).2.name = s.kept f.name := by
  have hunnamed : f.name = none → s.found f.name = none := by
    intro h
    rw [h, Start.found, ite_self]
  cases f with
  | missing => exact generate_name s (hunnamed rfl)
  | garbled => exact generate_name s (hunnamed rfl)
  | text content =>
    cases hread : s.readable with
    | false =>
      have hfound : s.found (StoredFile.text content).name = none := by simp [Start.found, hread]
      simpa [Start.loadOrCreate, StoredFile.readToString, hread] using generate_name s hfound
    | true =>
      by_cases hempty : (trim content).isEmpty = true
      · have hname : (StoredFile.text content).name = none := by simp [StoredFile.name, hempty]
        simpa [Start.loadOrCreate, StoredFile.readToString, hread, hempty] using
          generate_name s (hunnamed hname)
      · have hname : (StoredFile.text content).name = some (trim content) := by
          rw [StoredFile.name, if_neg hempty]
        simp [Start.loadOrCreate, StoredFile.readToString, hread, hempty, hname, Start.id,
          Start.kept, Start.found]

/-! ## The starts that use a path -/

/-- The ids of starts with one file, by the id that it holds first. -/
def idsFrom (name : Option Text) : List Start → List Text
  | [] => []
  | s :: starts => s.id name :: idsFrom (s.kept name) starts

theorem resolved_name (s : Start) (f : StoredFile) : (s.resolved f).name = f.name := by
  rw [Start.resolved]
  split_ifs
  · exact f.name_opened
  · rfl

theorem idsAt_eq (path : Text) (files : Text → StoredFile) (starts : List Start) :
    idsAt path files starts = idsFrom (files path).name (starts.filter (fun s => s.path = path)) := by
  unfold idsAt
  induction starts generalizing files with
  | nil => rfl
  | cons s starts ih =>
    obtain ⟨hid, hkept⟩ := loadOrCreate_name s (s.resolved (files s.path))
    rw [resolved_name] at hid hkept
    by_cases hp : s.path = path
    · subst hp
      simp only [identities, List.filter_cons, decide_true, if_true, List.map_cons, ih, idsFrom]
      rw [Start.main]
      dsimp only
      rw [Function.update_self, hid, hkept]
    · have hother : (s.main files).2 path = files path :=
        Function.update_of_ne (fun h => hp h.symm) _ _
      simp only [identities, List.filter_cons, hp, decide_false, Bool.false_eq_true, if_false, ih,
        hother]

/-- Later starts can read the file, and the first one found an id in it or left its own. -/
def KeepsId (name : Option Text) : List Start → Prop
  | [] => True
  | first :: later => later = [] ∨
      (∀ s ∈ later, s.readable = true) ∧
        ((first.found name).isSome = true ∨ first.write = .complete)

section Starts
variable {name : Option Text} {starts : List Start}

theorem idsFrom_some {x : Text} (h : ∀ s ∈ starts, s.readable = true) :
    ∀ y ∈ idsFrom (some x) starts, y = x := by
  induction starts with
  | nil => nofun
  | cons s starts ih =>
    have hfound : s.found (some x) = some x := by simp [Start.found, h s List.mem_cons_self]
    have hkept : s.kept (some x) = some x := by simp [Start.kept, hfound]
    intro y hy
    rw [idsFrom, hkept, Start.id, hfound] at hy
    rcases List.mem_cons.mp hy with rfl | hy
    · rfl
    · exact ih (fun t ht => h t (List.mem_cons_of_mem s ht)) y hy

theorem uuid_mem_idsFrom {s : Start} (hs : s ∈ starts) (h : s.readable = false) :
    s.uuid.text ∈ idsFrom name starts := by
  induction starts generalizing name with
  | nil => exact absurd hs List.not_mem_nil
  | cons t starts ih =>
    rcases List.mem_cons.mp hs with rfl | hs
    · simp [idsFrom, Start.id, Start.found, h]
    · exact List.mem_cons_of_mem _ (ih hs)

/-- A start that leaves an id other than its own has the next one take another. -/
theorem next_id_ne {first next : Start} (hnone : first.found name = none)
    (hwrite : first.write ≠ .complete) (hread : next.readable = true)
    (hname : ∀ x ∈ name, x ≠ first.uuid.text) (hnext : next.uuid.text ≠ first.uuid.text) :
    next.id (first.kept name) ≠ first.uuid.text := by
  have hid : ∀ kept : Option Text, (∀ x ∈ kept, x ≠ first.uuid.text) →
      next.id kept ≠ first.uuid.text := by
    intro kept hkept
    rw [Start.id, Start.found, if_pos hread]
    cases kept with
    | none => exact hnext
    | some x => exact hkept x rfl
  apply hid
  rw [Start.kept, hnone]
  cases hw : first.write with
  | refused => exact hname
  | complete => exact absurd hw hwrite
  | cut n =>
    intro x hx heq
    by_cases hn : n.val = 0
    · simp [hn] at hx
    · have hlen := congrArg List.length heq
      simp only [Option.isSome_none, Bool.false_eq_true, if_false, hn, Option.mem_def,
        Option.some.injEq] at hx
      rw [← hx, List.length_take, first.uuid.length] at hlen
      omega

theorem ids_equal_iff (hfresh : (name.toList ++ starts.map (fun s => s.uuid.text)).Nodup) :
    (∀ x ∈ idsFrom name starts, ∀ y ∈ idsFrom name starts, x = y) ↔ KeepsId name starts := by
  cases starts with
  | nil => exact iff_of_true (by simp [idsFrom]) trivial
  | cons first later =>
    obtain ⟨hnew, huuids, hapart⟩ := List.nodup_append.mp hfresh
    rw [List.map_cons, List.nodup_cons] at huuids
    have hname : ∀ s ∈ first :: later, ∀ x ∈ name, x ≠ s.uuid.text := by
      intro s hs x hx
      exact hapart x (by simpa using hx) s.uuid.text (List.mem_map.mpr ⟨s, hs, rfl⟩)
    have hlater : ∀ s ∈ later, s.uuid.text ≠ first.uuid.text := by
      intro s hs heq
      exact huuids.1 (List.mem_map.mpr ⟨s, hs, heq⟩)
    constructor
    · intro h
      cases later with
      | nil => exact .inl rfl
      | cons next rest =>
        have hfirst : ∀ y ∈ idsFrom (first.kept name) (next :: rest), y = first.id name :=
          fun y hy => h y (List.mem_cons_of_mem _ hy) _ List.mem_cons_self
        have hread : ∀ s ∈ next :: rest, s.readable = true := by
          intro s hs
          by_contra hr
          have hid := hfirst _ (uuid_mem_idsFrom hs (by simpa using hr))
          cases hfound : first.found name with
          | none =>
            rw [Start.id, hfound] at hid
            exact hlater s hs hid
          | some x =>
            rw [Start.id, hfound] at hid
            have hx : x ∈ name := by
              unfold Start.found at hfound
              split at hfound
              · exact hfound
              · cases hfound
            exact hname s (List.mem_cons_of_mem _ hs) x hx hid.symm
        refine .inr ⟨hread, ?_⟩
        by_contra hneither
        obtain ⟨hnone, hwrite⟩ := not_or.mp hneither
        have hnone : first.found name = none := by simpa using hnone
        refine next_id_ne hnone hwrite (hread next List.mem_cons_self)
          (hname first List.mem_cons_self) (hlater next List.mem_cons_self) ?_
        rw [hfirst _ List.mem_cons_self, Start.id, hnone]
        rfl
    · rintro (rfl | ⟨hread, hkeeps⟩)
      · simp [idsFrom]
      · have hkept : first.kept name = some (first.id name) := by
          rw [Start.kept, Start.id]
          cases hfound : first.found name with
          | none =>
            rw [hfound] at hkeeps
            simp [hkeeps.resolve_left (by simp)]
          | some x =>
            unfold Start.found at hfound
            split at hfound
            · exact hfound
            · cases hfound
        have hall : ∀ y ∈ idsFrom name (first :: later), y = first.id name := by
          intro y hy
          rw [idsFrom, hkept] at hy
          rcases List.mem_cons.mp hy with rfl | hy
          · rfl
          · exact idsFrom_some hread y hy
        exact fun x hx y hy => (hall x hx).trans (hall y hy).symm

/-- A part of the id of one of the starts, cut where a write failed. -/
def StemsFrom (all : List Start) (x : Text) : Prop :=
  ∃ s ∈ all, ∃ n, n ≠ 0 ∧ x = s.uuid.text.take n

theorem stemsFrom_kept {all : List Start} {s : Start} (hs : s ∈ all)
    (h : ∀ x ∈ name, StemsFrom all x) : ∀ x ∈ s.kept name, StemsFrom all x := by
  intro x hx
  rw [Start.kept] at hx
  split_ifs at hx with hfound
  · exact h x hx
  · cases hw : s.write with
    | refused =>
      rw [hw] at hx
      exact h x hx
    | cut n =>
      rw [hw] at hx
      dsimp only at hx
      split_ifs at hx with hn
      · cases hx
      · exact ⟨s, hs, n, hn, (Option.some.inj hx).symm⟩
    | complete =>
      rw [hw] at hx
      exact ⟨s, hs, 36, by decide, (Option.some.inj hx).symm.trans (take_length s.uuid).symm⟩

theorem stemsFrom_id {all : List Start} {s : Start} (hs : s ∈ all)
    (h : ∀ x ∈ name, StemsFrom all x) : StemsFrom all (s.id name) := by
  rw [Start.id, Start.found]
  split_ifs
  · cases name with
    | none => exact ⟨s, hs, 36, by decide, (take_length s.uuid).symm⟩
    | some x => exact h x rfl
  · exact ⟨s, hs, 36, by decide, (take_length s.uuid).symm⟩

theorem stemsFrom_ids {all : List Start} (hsub : ∀ s ∈ starts, s ∈ all)
    (h : ∀ x ∈ name, StemsFrom all x) : ∀ x ∈ idsFrom name starts, StemsFrom all x := by
  induction starts generalizing name with
  | nil => nofun
  | cons s starts ih =>
    intro x hx
    have hs := hsub s List.mem_cons_self
    rcases List.mem_cons.mp hx with rfl | hx
    · exact stemsFrom_id hs h
    · exact ih (fun t ht => hsub t (List.mem_cons_of_mem s ht)) (stemsFrom_kept hs h) x hx

end Starts

/-- The starts that use a path have one id exactly if all but the first can read the file, and
the first found an id there or wrote its own to the end. Without an id there at first, each is
the id of one of them, or a front part of it, and is logged without a panic. -/
theorem identity_kept_iff (path : Text) (files : Text → StoredFile) (starts : List Start)
    (hfresh : ((files path).name.toList ++ starts.map (fun s => s.uuid.text)).Nodup) :
    ((∀ x ∈ idsAt path files starts, ∀ y ∈ idsAt path files starts, x = y) ↔
      KeepsId (files path).name (starts.filter (fun s => s.path = path))) ∧
    ((files path).name = none → ∀ x ∈ idsAt path files starts,
      (∃ s ∈ starts, s.path = path ∧ x <+: s.uuid.text) ∧ x ≠ [] ∧
        (announced x).isSome = true) := by
  rw [idsAt_eq]
  constructor
  · refine ids_equal_iff (hfresh.sublist ?_)
    exact (List.Sublist.refl _).append (List.filter_sublist.map _)
  · intro hname x hx
    rw [hname] at hx
    obtain ⟨s, hs, n, hn, rfl⟩ := stemsFrom_ids (fun s hs => hs) (by simp) x hx
    obtain ⟨hmem, hpath⟩ := List.mem_filter.mp hs
    refine ⟨⟨s, hmem, of_decide_eq_true hpath, List.take_prefix n _⟩, ?_, announced_take s.uuid⟩
    intro hnil
    have hlen := congrArg List.length hnil
    rw [List.length_take, s.uuid.length, List.length_nil] at hlen
    omega

def firstUuid : Uuid := ⟨"550e8400-e29b-41d4-a716-446655440000".toList, by decide, by decide⟩
def secondUuid : Uuid := ⟨"7c9e6679-7425-40de-944b-e07fc1f90ae7".toList, by decide, by decide⟩

/-- The disk is full at the first start, so that the file is left empty. -/
def fullDisk : List Start :=
  [⟨none, none, true, true, firstUuid, .cut 0⟩, ⟨none, none, true, true, secondUuid, .complete⟩]

theorem fullDisk_changes_id :
    ¬ ∀ x ∈ idsAt uuidPath (fun _ => .missing) fullDisk,
      ∀ y ∈ idsAt uuidPath (fun _ => .missing) fullDisk, x = y := by
  have hiff := (identity_kept_iff uuidPath (fun _ => .missing) fullDisk (by decide)).1
  have hall : fullDisk.filter (fun s => s.path = uuidPath) = fullDisk := rfl
  rw [hiff, hall]
  simp [KeepsId, fullDisk, StoredFile.name, Start.found]

end GlobalpingProbe.Probe
