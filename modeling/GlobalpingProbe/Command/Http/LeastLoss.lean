import GlobalpingProbe.Command.Http.HeaderLimit
import GlobalpingProbe.Foundation.HeaviestFirst

/-! # What the truncation of headers leaves

The drop phase takes the headers with the largest minimal sizes first, so that no choice of
headers to drop is smaller, and the cap of the shrink phase is the largest that fits. For
headers in ASCII every cut falls between characters, and both phases can be read off the result.
-/
namespace GlobalpingProbe.Command.Http
open Foundation Foundation.Utf8

/-- The size of the text in which every value longer than the mark is cut down to it. -/
def minTextSize (headers : List Header) : ℕ := minTotal headers - 1

/-- How many headers can be dropped so that the rest can fit with its values cut. -/
def SufficientDrops (pairs : List Header) : Set ℕ :=
  {n | ∃ rest, rest.Sublist pairs ∧ minTextSize rest ≤ headersSizeLimit ∧
    n = pairs.length - rest.length}

/-- A value over the cap loses what does not fit before the mark. -/
def shortened (cap : ℕ) (p : Header) : Header :=
  if byteLen p.2 ≤ cap then p
  else (p.1, p.2.take (cap - byteLen truncationMark) ++ truncationMark)

/-- As few headers as possible are dropped, and the others keep their order, their names and,
up to the largest common cap that fits, their values. -/
structure LosesLeast (pairs result : List Header) (kept : List Header) : Prop where
  sublist : kept.Sublist pairs
  names : result.map Prod.fst = kept.map Prod.fst
  drops : IsLeast (SufficientDrops pairs) (pairs.length - kept.length)
  values : (byteLen (rawHeadersStr kept) ≤ headersSizeLimit ∧ result = kept) ∨
    ∃ cap, byteLen truncationMark ≤ cap ∧ result = kept.map (shortened cap) ∧
      headersSizeLimit < byteLen (rawHeadersStr (kept.map (shortened (cap + 1))))

def IsAscii (headers : List Header) : Prop :=
  ∀ p ∈ headers, ∀ c ∈ p.1 ++ p.2, c.toNat < 128

theorem survivors_eq_longestEnd (l : List Header) :
    survivors l = longestEnd pairMinSize (headersSizeLimit + 1) l := by
  induction l with
  | nil => rfl
  | cons p l ih =>
    unfold survivors longestEnd
    rw [ih]
    rfl

/-- What survives the drop phase is a choice with as few drops as possible. -/
theorem survivors_isLeast (srt : SortUnstable) {pairs kept : List Header}
    (hsub : kept.Sublist pairs) (hkept : kept.Perm (survivors (droppingOrder srt pairs))) :
    IsLeast (SufficientDrops pairs) (pairs.length - kept.length) := by
  have hfit := survivors_fit (droppingOrder srt pairs)
  rw [← minTotal_perm hkept] at hfit
  have hsize : minTextSize kept ≤ headersSizeLimit := by
    unfold minTextSize
    omega
  refine ⟨⟨kept, hsub, hsize, rfl⟩, ?_⟩
  rintro n ⟨rest, hrest, hle, rfl⟩
  have hbudget : totalWeight pairMinSize rest ≤ headersSizeLimit + 1 := by
    unfold minTextSize at hle
    change minTotal rest ≤ _
    omega
  have hlength := length_le_longestEnd (droppingOrder_perm srt pairs)
    (droppingOrder_sorted srt pairs) hrest hbudget
  rw [← survivors_eq_longestEnd, ← hkept.length_eq] at hlength
  exact Nat.sub_le_sub_left hlength pairs.length

section Ascii
variable {cap : ℕ}

theorem cutValue_ascii (hcap : byteLen truncationMark ≤ cap) {p : Header}
    (h : ∀ c ∈ p.2, c.toNat < 128) : cutValue cap p = .ok (shortened cap p) := by
  unfold cutValue shortened
  by_cases hle : byteLen p.2 ≤ cap
  · rw [if_neg (not_lt.mpr hle), if_pos hle]
  · have hcut : cap - byteLen truncationMark ≤ p.2.length := by
      rw [← byteLen_ascii h]
      omega
    rw [if_pos (not_le.mp hle), if_neg hle, checkedSub_of_le hcap, ok_bind, sliceTo_ascii h hcut]

theorem mapM_cutValue_ascii (hcap : byteLen truncationMark ≤ cap) {kept : List Header}
    (h : IsAscii kept) : kept.mapM (cutValue cap) = .ok (kept.map (shortened cap)) := by
  induction kept with
  | nil => rfl
  | cons p kept ih =>
    have hp := cutValue_ascii hcap (p := p)
      (fun c hc => h p List.mem_cons_self c (List.mem_append_right _ hc))
    rw [List.mapM_cons, hp, ok_bind, ih (fun q hq => h q (List.mem_cons_of_mem p hq)), ok_bind]
    rfl

theorem names_shortened (cap : ℕ) (kept : List Header) :
    (kept.map (shortened cap)).map Prod.fst = kept.map Prod.fst := by
  rw [List.map_map]
  apply List.map_congr_left
  intro p _
  unfold shortened
  simp only [Function.comp_apply]
  split <;> rfl

end Ascii

/-- Headers over the limit lose no more than they have to. -/
theorem truncateHeaders_loses_least (srt : SortUnstable) (pairs : List Header)
    (r : TruncateResult) (hascii : IsAscii pairs)
    (hover : headersSizeLimit < byteLen (rawHeadersStr pairs))
    (h : truncateHeaders srt pairs = .ok r) : ∃ kept, LosesLeast pairs r.headers kept := by
  have hlarge : ¬ fullTotal pairs ≤ headersSizeLimit + 1 := by
    rw [← rawHeadersStr_fits_iff]
    omega
  obtain ⟨-, kept, hsub, hkept, hshrunk⟩ := truncateHeaders_over hlarge h
  have hleast := survivors_isLeast srt hsub hkept
  rcases hshrunk with ⟨hfits, hsame⟩ | ⟨cap, hcap, hmark, hcut⟩
  · have hfitsText : byteLen (rawHeadersStr kept) ≤ headersSizeLimit :=
      (rawHeadersStr_fits_iff kept).mpr hfits
    exact ⟨kept, hsub, by rw [hsame], hleast, .inl ⟨hfitsText, hsame⟩⟩
  · have hkeptAscii : IsAscii kept := fun p hp => hascii p (hsub.subset hp)
    have hheaders : r.headers = kept.map (shortened cap) :=
      Except.ok.inj (hcut.symm.trans (mapM_cutValue_ascii hmark hkeptAscii))
    have hmark' : byteLen truncationMark ≤ cap + 1 := by omega
    have hnext := mapM_cutValue_ascii hmark' hkeptAscii
    have hexceeds : ¬ byteLen (rawHeadersStr (kept.map (shortened (cap + 1)))) ≤
        headersSizeLimit := by
      rw [rawHeadersStr_fits_iff, mapM_cutValue_total hmark' hnext]
      exact not_le.mpr hcap.2
    refine ⟨kept, hsub, ?_, hleast, .inr ⟨cap, hmark, hheaders, not_le.mp hexceeds⟩⟩
    rw [hheaders, names_shortened]

/-- One header with a value of ten thousand letters. -/
theorem truncateHeaders_loses_least_long :
    ∃ r, truncateHeaders mergeSortDesc [longValueHeader] = .ok r ∧
      ∃ kept, LosesLeast [longValueHeader] r.headers kept := by
  obtain ⟨q, hr⟩ := truncateHeaders_longValue
  have hascii : IsAscii [longValueHeader] := by
    intro p hp c hc
    obtain rfl := List.mem_singleton.mp hp
    rcases List.mem_append.mp hc with hc | hc
    · obtain rfl : c = 'a' := List.mem_singleton.mp hc
      decide
    · obtain rfl : c = 'x' := List.eq_of_mem_replicate hc
      decide
  have hover : headersSizeLimit < byteLen (rawHeadersStr [longValueHeader]) := by
    have hlimit : headersSizeLimit = 10000 := rfl
    have htotal : fullTotal [longValueHeader] = 10004 := by
      rw [fullTotal, List.map_singleton, List.sum_singleton, longValueHeader_sizes.1]
    rw [byteLen_rawHeadersStr, htotal]
    omega
  exact ⟨⟨true, [q]⟩, hr, truncateHeaders_loses_least mergeSortDesc _ _ hascii hover hr⟩

end GlobalpingProbe.Command.Http
