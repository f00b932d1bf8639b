import GlobalpingProbe.Foundation.Transition
import GlobalpingProbe.Util.Data
import Mathlib.Data.List.AList
import Mathlib.Data.List.Chain
import Mathlib.Data.List.Induction

/-! # The buffer of partial results

In the mode for differences the buffer keeps the last value of each field, and how long the
value was when it was last taken. Each take cuts that many bytes off the front of the value
that is there by then.
-/
namespace GlobalpingProbe
open Foundation Foundation.Utf8

inductive BufferMode where
  | append
  | diff
  | overwrite
  deriving DecidableEq, Repr

abbrev Fields (α : Type) := AList (fun _ : Text => α)

structure ProgressBuffer where
  buffer : Fields Text
  offset : Fields ℕ
  mode : BufferMode

namespace ProgressBuffer

def new (mode : BufferMode) : ProgressBuffer := ⟨∅, ∅, mode⟩

def push (b : ProgressBuffer) (field value : Text) : ProgressBuffer :=
  match b.mode with
  | .append =>
    match b.buffer.lookup field with
    | some v => { b with buffer := b.buffer.insert field (v ++ value) }
    | none => { b with buffer := b.buffer.insert field value }
  | _ => { b with buffer := b.buffer.insert field value }

/-- One field of the loop, with the differences and the offsets so far; the slice panics unless
the offset is a character boundary of the value. -/
def diffField (found : Fields Text × Fields ℕ) (entry : (_ : Text) × Text) :
    Option (Fields Text × Fields ℕ) :=
  (sliceFrom entry.2 ((found.2.lookup entry.1).getD 0)).map (fun piece =>
    (found.1.insert entry.1 piece, found.2.insert entry.1 (byteLen entry.2)))

/-- What is taken, with the buffer after it. The map is visited in an order that the source
leaves open; no order makes a difference. -/
def takeProgress (b : ProgressBuffer) : Option (Fields Text × ProgressBuffer) :=
  match b.mode with
  | .diff =>
    (b.buffer.entries.foldlM diffField (∅, b.offset)).map (fun found =>
      (found.1, { b with offset := found.2 }))
  | _ => some (b.buffer, { b with buffer := ∅ })

end ProgressBuffer

inductive ProgressOp where
  | push (field value : Text)
  | take
  deriving DecidableEq, Repr

/-- The buffer with what was taken from it so far. -/
structure ProgressRun where
  buffer : ProgressBuffer
  taken : List (Fields Text)

namespace ProgressRun

/-- A panic ends the run. -/
def step (r : ProgressRun) : ProgressOp → Option ProgressRun
  | .push field value => some { r with buffer := r.buffer.push field value }
  | .take => r.buffer.takeProgress.map (fun t => ⟨t.2, r.taken ++ [t.1]⟩)

def after (mode : BufferMode) (ops : List ProgressOp) : Option ProgressRun :=
  Foundation.run step ⟨.new mode, []⟩ ops

/-- All that was taken for a field, put together. -/
def replay (r : ProgressRun) (field : Text) : Text :=
  (r.taken.filterMap (fun fields => fields.lookup field)).flatten

end ProgressRun

/-! ## What the operations say -/

/-- The values pushed for a field. -/
def pushedFor (ops : List ProgressOp) (field : Text) : List Text :=
  ops.filterMap (fun op => match op with
    | .push name value => if name = field then some value else none
    | .take => none)

/-- The value of a field after the operations. -/
def lastPushed (ops : List ProgressOp) (field : Text) : Option Text :=
  (pushedFor ops field).getLast?

/-- The operations before the last take, none when nothing was taken. -/
def beforeLastTake (ops : List ProgressOp) : List ProgressOp :=
  (ops.reverse.dropWhile (· ≠ .take)).tail.reverse

/-- At each take, the value of every field has a character boundary where its value at the take
before ended. -/
def SliceSafe (ops : List ProgressOp) : Prop :=
  ∀ front, front ++ [.take] <+: ops → ∀ field before value,
    lastPushed (beforeLastTake front) field = some before → lastPushed front field = some value →
      isCharBoundary value (byteLen before) = true

/-- Each value pushed for the field extends the one before. -/
def Extends (ops : List ProgressOp) (field : Text) : Prop :=
  (pushedFor ops field).IsChain (· <+: ·)

section Operations
variable {ops : List ProgressOp} {field : Text}

@[simp] theorem pushedFor_take : pushedFor (ops ++ [.take]) field = pushedFor ops field := by
  simp [pushedFor]

@[simp] theorem lastPushed_take : lastPushed (ops ++ [.take]) field = lastPushed ops field := by
  rw [lastPushed, pushedFor_take, lastPushed]

@[simp] theorem lastPushed_push (name value : Text) :
    lastPushed (ops ++ [.push name value]) field =
      if name = field then some value else lastPushed ops field := by
  by_cases h : name = field
  · simp [lastPushed, pushedFor, h]
  · simp [lastPushed, pushedFor, h]

@[simp] theorem beforeLastTake_take : beforeLastTake (ops ++ [.take]) = ops := by
  simp [beforeLastTake]

@[simp] theorem beforeLastTake_push (name value : Text) :
    beforeLastTake (ops ++ [.push name value]) = beforeLastTake ops := by
  simp [beforeLastTake]

theorem beforeLastTake_isPrefix (ops : List ProgressOp) : beforeLastTake ops <+: ops := by
  rw [← List.reverse_suffix, beforeLastTake, List.reverse_reverse]
  exact (List.tail_suffix _).trans (List.dropWhile_suffix _)

theorem pushedFor_isPrefix {front : List ProgressOp} (h : front <+: ops) :
    pushedFor front field <+: pushedFor ops field := h.filterMap _

theorem lastPushed_eq_none_of_isPrefix {front : List ProgressOp} (h : front <+: ops)
    (hnone : lastPushed ops field = none) : lastPushed front field = none := by
  rw [lastPushed, List.getLast?_eq_none_iff] at hnone ⊢
  exact List.prefix_nil.mp (hnone ▸ pushedFor_isPrefix h)

theorem Extends.of_isPrefix {front : List ProgressOp} (h : Extends ops field) (hfront : front <+: ops) :
    Extends front field := by
  obtain ⟨rest, rfl⟩ := hfront
  rw [Extends, pushedFor, List.filterMap_append] at h
  exact h.left_of_append

/-- The last value extends the value at the last take. -/
theorem Extends.lastPushed_isPrefix (h : Extends ops field) {before value : Text}
    (hbefore : lastPushed (beforeLastTake ops) field = some before)
    (hvalue : lastPushed ops field = some value) : before <+: value := by
  obtain ⟨rest, hrest⟩ := beforeLastTake_isPrefix ops
  have hsplit : pushedFor ops field = pushedFor (beforeLastTake ops) field ++ pushedFor rest field := by
    conv_lhs => rw [← hrest]
    exact List.filterMap_append
  have : Trans (α := Text) (· <+: ·) (· <+: ·) (· <+: ·) := ⟨List.IsPrefix.trans⟩
  have hpairs : (pushedFor ops field).Pairwise (· <+: ·) := List.isChain_iff_pairwise.mp h
  have hmem : before ∈ pushedFor (beforeLastTake ops) field := List.mem_of_getLast? hbefore
  rw [lastPushed, hsplit, List.getLast?_append] at hvalue
  rw [hsplit, List.pairwise_append] at hpairs
  cases hlast : (pushedFor rest field).getLast? with
  | none =>
    rw [hlast, Option.none_or] at hvalue
    obtain rfl := Option.some.inj (hbefore.symm.trans hvalue)
    exact List.prefix_rfl
  | some v =>
    rw [hlast, Option.some_or] at hvalue
    obtain rfl := Option.some.inj hvalue
    exact hpairs.2.2 before hmem v (List.mem_of_getLast? hlast)

end Operations

/-! ## The loop over the fields -/

section Loop
variable {l : List ((_ : Text) × Text)} {found found' : Fields Text × Fields ℕ}

theorem diffField_isSome (entry : (_ : Text) × Text) :
    (ProgressBuffer.diffField found entry).isSome =
      isCharBoundary entry.2 ((found.2.lookup entry.1).getD 0) := by
  rw [ProgressBuffer.diffField, Option.isSome_map, sliceFrom_isSome]

theorem diffField_eq_some {entry : (_ : Text) × Text}
    (h : ProgressBuffer.diffField found entry = some found') :
    ∃ piece, sliceFrom entry.2 ((found.2.lookup entry.1).getD 0) = some piece ∧
      found' = (found.1.insert entry.1 piece, found.2.insert entry.1 (byteLen entry.2)) := by
  obtain ⟨piece, hpiece, rfl⟩ := Option.map_eq_some_iff.mp h
  exact ⟨piece, hpiece, rfl⟩

/-- The loop ends when every offset it starts with is a boundary of its value. -/
theorem diffLoop_isSome_iff (hl : l.NodupKeys) :
    (l.foldlM ProgressBuffer.diffField found).isSome = true ↔
      ∀ entry ∈ l, isCharBoundary entry.2 ((found.2.lookup entry.1).getD 0) = true := by
  induction l generalizing found with
  | nil => simp
  | cons entry l ih =>
    obtain ⟨hfresh, hrest⟩ := List.nodupKeys_cons.mp hl
    rw [List.foldlM_cons, List.forall_mem_cons, ← diffField_isSome]
    cases hfield : ProgressBuffer.diffField found entry with
    | none => simp
    | some found' =>
      obtain ⟨piece, -, rfl⟩ := diffField_eq_some hfield
      simp only [Option.bind_eq_bind, Option.bind_some, ih hrest, Option.isSome_some, true_and]
      -- the offsets of the other fields are still those from before
      refine forall₂_congr fun other hother => ?_
      have hne : other.1 ≠ entry.1 := fun heq => hfresh (heq ▸ List.mem_keys_of_mem hother)
      rw [AList.lookup_insert_ne hne]

/-- What the loop finds for each field, and which offset it leaves. -/
theorem diffLoop_lookup (hl : l.NodupKeys)
    (h : l.foldlM ProgressBuffer.diffField found = some found') (field : Text) :
    match l.dlookup field with
    | some value =>
      ∃ piece, sliceFrom value ((found.2.lookup field).getD 0) = some piece ∧
        found'.1.lookup field = some piece ∧ found'.2.lookup field = some (byteLen value)
    | none => found'.1.lookup field = found.1.lookup field ∧
        found'.2.lookup field = found.2.lookup field := by
  induction l generalizing found with
  | nil =>
    cases h
    exact ⟨rfl, rfl⟩
  | cons entry l ih =>
    obtain ⟨name, value⟩ := entry
    obtain ⟨hfresh, hrest⟩ := List.nodupKeys_cons.mp hl
    rw [List.foldlM_cons, Option.bind_eq_bind, Option.bind_eq_some_iff] at h
    obtain ⟨next, hfield, hloop⟩ := h
    obtain ⟨piece, hpiece, rfl⟩ := diffField_eq_some hfield
    have hlater := ih hrest hloop
    by_cases hname : field = name
    · subst hname
      have hnone : l.dlookup field = none := List.dlookup_eq_none.mpr hfresh
      rw [hnone] at hlater
      rw [List.dlookup_cons_eq]
      exact ⟨piece, hpiece, hlater.1.trans (AList.lookup_insert _),
        hlater.2.trans (AList.lookup_insert _)⟩
    · rw [List.dlookup_cons_ne l ⟨name, value⟩ hname]
      simpa only [AList.lookup_insert_ne hname] using hlater

end Loop

/-! ## Runs in the mode for differences -/

/-- What the buffer knows after the operations. -/
structure Tracks (ops : List ProgressOp) (r : ProgressRun) : Prop where
  mode : r.buffer.mode = .diff
  value : ∀ field, r.buffer.buffer.lookup field = lastPushed ops field
  offset : ∀ field, r.buffer.offset.lookup field = (lastPushed (beforeLastTake ops) field).map byteLen
  replay : ∀ field, Extends ops field →
    r.replay field = (lastPushed (beforeLastTake ops) field).getD []

section Run
variable {ops : List ProgressOp} {r r' : ProgressRun}

theorem tracks_nil : Tracks [] ⟨.new .diff, []⟩ :=
  ⟨rfl, fun _ => rfl, fun _ => rfl, fun _ _ => rfl⟩

theorem Tracks.push (h : Tracks ops r) (name value : Text) :
    Tracks (ops ++ [.push name value]) { r with buffer := r.buffer.push name value } := by
  have hpush : r.buffer.push name value =
      { r.buffer with buffer := r.buffer.buffer.insert name value } := by
    simp only [ProgressBuffer.push, h.mode]
  rw [hpush]
  constructor
  · exact h.mode
  · intro field
    rw [lastPushed_push]
    by_cases hname : name = field
    · subst hname
      rw [if_pos rfl]
      exact AList.lookup_insert _
    · rw [if_neg hname, ← h.value field]
      exact AList.lookup_insert_ne (Ne.symm hname)
  · intro field
    rw [beforeLastTake_push]
    exact h.offset field
  · intro field hext
    rw [beforeLastTake_push]
    exact h.replay field (hext.of_isPrefix (List.prefix_append _ _))

theorem takeProgress_diff {b : ProgressBuffer} (h : b.mode = .diff) :
    b.takeProgress = (b.buffer.entries.foldlM ProgressBuffer.diffField (∅, b.offset)).map
      (fun found => (found.1, { b with offset := found.2 })) := by
  simp only [ProgressBuffer.takeProgress, h]

/-- A take returns exactly when every value has a boundary where it ended at the last take. -/
theorem Tracks.take_isSome_iff (h : Tracks ops r) :
    (r.step .take).isSome = true ↔ ∀ field before value,
      lastPushed (beforeLastTake ops) field = some before → lastPushed ops field = some value →
        isCharBoundary value (byteLen before) = true := by
  rw [ProgressRun.step, takeProgress_diff h.mode, Option.isSome_map, Option.isSome_map,
    diffLoop_isSome_iff r.buffer.buffer.nodupKeys]
  constructor
  · intro hall field before value hbefore hvalue
    have hentry : (⟨field, value⟩ : (_ : Text) × Text) ∈ r.buffer.buffer.entries :=
      AList.mem_lookup_iff.mp ((h.value field).trans hvalue)
    have hboundary := hall _ hentry
    rw [h.offset, hbefore] at hboundary
    exact hboundary
  · rintro hall ⟨field, value⟩ hentry
    have hvalue : lastPushed ops field = some value :=
      (h.value field).symm.trans (AList.mem_lookup_iff.mpr hentry)
    rw [h.offset]
    cases hbefore : lastPushed (beforeLastTake ops) field with
    | none => cases value <;> rfl
    | some before => exact hall field before value hbefore hvalue

/-- What a take finds: of each value the part behind the value at the last take. -/
theorem Tracks.take_eq_some (h : Tracks ops r) (hstep : r.step .take = some r') :
    ∃ diff offset, r' = ⟨{ r.buffer with offset := offset }, r.taken ++ [diff]⟩ ∧ ∀ field,
      match lastPushed ops field with
      | some value =>
        ∃ piece, sliceFrom value (byteLen ((lastPushed (beforeLastTake ops) field).getD [])) =
            some piece ∧
          diff.lookup field = some piece ∧ offset.lookup field = some (byteLen value)
      | none => diff.lookup field = none ∧ offset.lookup field = none := by
  rw [ProgressRun.step, takeProgress_diff h.mode, Option.map_map] at hstep
  obtain ⟨found, hloop, rfl⟩ := Option.map_eq_some_iff.mp hstep
  refine ⟨found.1, found.2, rfl, fun field => ?_⟩
  have hfound := diffLoop_lookup r.buffer.buffer.nodupKeys hloop field
  have hvalue : r.buffer.buffer.entries.dlookup field = lastPushed ops field := h.value field
  have hend : (r.buffer.offset.lookup field).getD 0 =
      byteLen ((lastPushed (beforeLastTake ops) field).getD []) := by
    rw [h.offset]
    cases lastPushed (beforeLastTake ops) field <;> rfl
  rw [hvalue, hend] at hfound
  cases hlast : lastPushed ops field with
  | some value =>
    rw [hlast] at hfound
    exact hfound
  | none =>
    rw [hlast] at hfound
    refine ⟨hfound.1, ?_⟩
    rw [hfound.2, h.offset, lastPushed_eq_none_of_isPrefix (beforeLastTake_isPrefix ops) hlast]
    rfl

theorem Tracks.take (h : Tracks ops r) (hstep : r.step .take = some r') :
    Tracks (ops ++ [.take]) r' := by
  obtain ⟨diff, offset, rfl, hfields⟩ := h.take_eq_some hstep
  constructor
  case mode => exact h.mode
  case value =>
    intro field
    rw [lastPushed_take]
    exact h.value field
  case offset =>
    intro field
    have hfield := hfields field
    rw [beforeLastTake_take]
    cases hlast : lastPushed ops field with
    | some value =>
      rw [hlast] at hfield
      obtain ⟨-, -, -, hoffset⟩ := hfield
      exact hoffset
    | none =>
      rw [hlast] at hfield
      exact hfield.2
  case replay =>
    intro field hext
    have hextends : Extends ops field := hext.of_isPrefix (List.prefix_append _ _)
    have hbefore := h.replay field hextends
    have hfield := hfields field
    have happend : ProgressRun.replay ⟨{ r.buffer with offset := offset }, r.taken ++ [diff]⟩ field =
        r.replay field ++ (diff.lookup field).getD [] := by
      simp only [ProgressRun.replay, List.filterMap_append, List.flatten_append]
      cases hdiff : diff.lookup field <;> simp [hdiff]
    rw [beforeLastTake_take, happend, hbefore]
    cases hlast : lastPushed ops field with
    | none =>
      rw [hlast] at hfield
      rw [hfield.1, lastPushed_eq_none_of_isPrefix (beforeLastTake_isPrefix ops) hlast]
      rfl
    | some value =>
      rw [hlast] at hfield
      obtain ⟨piece, hpiece, hdiff, -⟩ := hfield
      -- the value at the last take is a front part of this one, so the slice is the rest
      have hfront : (lastPushed (beforeLastTake ops) field).getD [] <+: value := by
        cases hprev : lastPushed (beforeLastTake ops) field with
        | none => exact List.nil_prefix
        | some before => exact hextends.lastPushed_isPrefix hprev hlast
      obtain ⟨rest, rfl⟩ := hfront
      rw [sliceFrom_append] at hpiece
      rw [hdiff, ← Option.some.inj hpiece]
      rfl

theorem ProgressRun.after_append (mode : BufferMode) (ops : List ProgressOp) (op : ProgressOp) :
    ProgressRun.after mode (ops ++ [op]) = (ProgressRun.after mode ops).bind (·.step op) :=
  run_concat _ _ _ _

theorem Tracks.step (h : Tracks ops r) (op : ProgressOp) (hstep : r.step op = some r') :
    Tracks (ops ++ [op]) r' := by
  cases op with
  | push name value =>
    cases hstep
    exact h.push name value
  | take => exact h.take hstep

theorem tracks_after (h : ProgressRun.after .diff ops = some r) : Tracks ops r :=
  run_invariant_of_history tracks_nil (fun _ op _ _ htracks => htracks.step op) h

/-- Along operations that meet the condition every state is reached. -/
theorem after_isSome (h : SliceSafe ops) : (ProgressRun.after .diff ops).isSome = true := by
  induction ops using List.reverseRecOn with
  | nil => rfl
  | append_singleton ops op ih =>
    have hbefore := ih (fun front hfront => h front (hfront.trans (List.prefix_append _ _)))
    obtain ⟨r, hr⟩ := Option.isSome_iff_exists.mp hbefore
    rw [ProgressRun.after_append, hr, Option.bind_some]
    cases op with
    | push name value => rfl
    | take => exact (tracks_after hr).take_isSome_iff.mpr (h ops List.prefix_rfl)

/-- Every take returns, and puts together with the ones before it the last value of each field
whose values extend each other. -/
def Replayable (ops : List ProgressOp) : Prop :=
  ∀ front, front ++ [.take] <+: ops → ∃ r, ProgressRun.after .diff (front ++ [.take]) = some r ∧
    ∀ field, Extends front field → r.replay field = (lastPushed front field).getD []

/-- The mode for differences is total and can be replayed exactly when every value has a
character boundary where the value at the take before ended. -/
theorem replayable_iff_sliceSafe (ops : List ProgressOp) : Replayable ops ↔ SliceSafe ops := by
  constructor
  · intro hreplay front hfront
    obtain ⟨r, hr, -⟩ := hreplay front hfront
    rw [ProgressRun.after_append, Option.bind_eq_some_iff] at hr
    obtain ⟨s, hs, hstep⟩ := hr
    exact (tracks_after hs).take_isSome_iff.mp (Option.isSome_iff_exists.mpr ⟨r, hstep⟩)
  · intro hsafe front hfront
    have hsome := after_isSome (fun before hbefore => hsafe before (hbefore.trans hfront))
    obtain ⟨r, hr⟩ := Option.isSome_iff_exists.mp hsome
    refine ⟨r, hr, fun field hext => ?_⟩
    have htake : Extends (front ++ [.take]) field := by
      rw [Extends, pushedFor_take]
      exact hext
    rw [(tracks_after hr).replay field htake, beforeLastTake_take]

end Run

def shrunkOps : List ProgressOp :=
  [.push "rawOutput".toList "line1\n".toList, .take, .push "rawOutput".toList ['x'], .take]

def splitOps : List ProgressOp :=
  [.push "rawOutput".toList ['a'], .take, .push "rawOutput".toList ['é'], .take]

/-- A value that is shorter than the one before, and one with a character across its end. -/
theorem replaced_values_panic : ProgressRun.after .diff shrunkOps = none ∧
    ProgressRun.after .diff splitOps = none ∧ ¬ Replayable shrunkOps ∧ ¬ Replayable splitOps := by
  have hshrunk : ProgressRun.after .diff shrunkOps = none := rfl
  have hsplit : ProgressRun.after .diff splitOps = none := rfl
  refine ⟨hshrunk, hsplit, fun h => ?_, fun h => ?_⟩
  · obtain ⟨r, hr, -⟩ := h (shrunkOps.take 3) List.prefix_rfl
    cases hr.symm.trans hshrunk
  · obtain ⟨r, hr, -⟩ := h (splitOps.take 3) List.prefix_rfl
    cases hr.symm.trans hsplit

end GlobalpingProbe
