import GlobalpingProbe.Foundation.UniformCap
import GlobalpingProbe.Foundation.Utf8
import GlobalpingProbe.Util.Data
import Mathlib.Data.List.Perm.Basic

/-! # Truncation of the response headers

The headers are cut down to the size limit in two phases: the largest ones are dropped until
the rest can fit with truncated values, then the longest values are cut to a common cap. Every
subtraction of the source is checked here, and a slice inside a character is a panic.
-/
namespace GlobalpingProbe.Command.Http
open Foundation Foundation.Utf8

inductive Panic where
  | subtractOverflow
  | indexOutOfBounds
  | charBoundary
  deriving DecidableEq, Repr

def checkedSub (a b : ℕ) : Except Panic ℕ :=
  if b ≤ a then .ok (a - b) else .error .subtractOverflow

abbrev Header := Text × Text

def headerLine (p : Header) : Text := p.1 ++ ": ".toList ++ p.2

def headersSizeLimit : ℕ := 10000
def truncationMark : Text := "...[truncated]".toList

structure TruncateResult where
  truncated : Bool
  headers : List Header
  deriving DecidableEq, Repr

def pairSize (p : Header) : ℕ := byteLen p.1 + byteLen p.2 + 3

def pairMinSize (p : Header) : ℕ := byteLen p.1 + min (byteLen p.2) (byteLen truncationMark) + 3

/-- `sort_unstable_by` on the second component, larger ones first; the order of equal ones is
whatever the library makes of it. -/
structure SortUnstable where
  sort : List (ℕ × ℕ) → List (ℕ × ℕ)
  perm : ∀ l, (sort l).Perm l
  sorted : ∀ l, (sort l).Pairwise (fun a b => b.2 ≤ a.2)

/-- The loop that drops headers until the minimal sizes fit: the remaining size and the
indices dropped. -/
def dropLoop (kept : List Header) : List (ℕ × ℕ) → ℕ → ℕ → List ℕ → Except Panic (ℕ × List ℕ)
  | [], currentSize, _, dropped => .ok (currentSize, dropped)
  | (i, min) :: rest, currentSize, currentMin, dropped =>
    if currentMin ≤ headersSizeLimit then .ok (currentSize, dropped)
    else
      match kept[i]? with
      | none => .error .indexOutOfBounds
      | some p => do
        let currentSize ← checkedSub currentSize (pairSize p)
        let currentMin ← checkedSub currentMin min
        dropLoop kept rest currentSize currentMin (i :: dropped)

def indexed (pairs : List Header) : List (ℕ × ℕ) :=
  pairs.zipIdx.map (fun e => (e.2, pairMinSize e.1))

/-- The drop phase: the remaining size and the headers kept, in their own order. -/
def dropHeaders (srt : SortUnstable) (pairs : List Header) (size minSize : ℕ) :
    Except Panic (ℕ × List Header) :=
  if minSize > headersSizeLimit then do
    let (currentSize, dropped) ← dropLoop pairs (srt.sort (indexed pairs)) size minSize []
    .ok (currentSize, (pairs.zipIdx.filter (fun e => e.2 ∉ dropped)).map Prod.fst)
  else .ok (size, pairs)

/-- The search for the uniform cap over the lengths in decreasing order; `n` counts the
lengths up to the current one. -/
def capSearch (valueBudget : ℕ) : ℕ → ℕ → List ℕ → Except Panic ℕ
  | _, _, [] => .ok 0
  | n, total, len :: rest => do
    let step ← checkedSub len (rest.headD 0)
    let reduction := n * step
    if total - reduction ≤ valueBudget then
      let diff := total - valueBudget
      .ok (len - (diff + n - 1) / n)
    else capSearch valueBudget (n + 1) (total - reduction) rest

def cutValue (cap : ℕ) (p : Header) : Except Panic Header :=
  if byteLen p.2 > cap then do
    let cut ← checkedSub cap (byteLen truncationMark)
    match sliceTo p.2 cut with
    | some s => .ok (p.1, s ++ truncationMark)
    | none => .error .charBoundary
  else .ok p

def shrinkValues (kept : List Header) (currentSize : ℕ) : Except Panic (List Header) := do
  let sortedLengths := (kept.map (fun p => byteLen p.2)).mergeSort (fun a b => b ≤ a)
  let valuesSize := sortedLengths.sum
  let valueBudget ← checkedSub (headersSizeLimit + valuesSize) currentSize
  let cap ← capSearch valueBudget 1 valuesSize sortedLengths
  let cap := max cap (byteLen truncationMark)
  kept.mapM (cutValue cap)

def truncateHeaders (srt : SortUnstable) (pairs : List Header) : Except Panic TruncateResult :=
  if pairs.isEmpty then .ok ⟨false, pairs⟩
  else
    let size := (pairs.map pairSize).sum - 1
    let minSize := (pairs.map pairMinSize).sum - 1
    if size ≤ headersSizeLimit then .ok ⟨false, pairs⟩
    else do
      let (currentSize, kept) ← dropHeaders srt pairs size minSize
      if currentSize ≤ headersSizeLimit then .ok ⟨true, kept⟩
      else do
        let headers ← shrinkValues kept currentSize
        .ok ⟨true, headers⟩

end GlobalpingProbe.Command.Http
