import GlobalpingProbe.Command.Http.TruncateSafety

/-! # The size of the header text

`run_http` writes the headers that the truncation returns as one text. The totals that the
truncation keeps count a newline after every header, the text has one between two of them.
-/
namespace GlobalpingProbe.Command.Http
open Foundation Foundation.Utf8

/-- `raw_headers_str` of `run_http`. -/
def rawHeadersStr (headers : List Header) : Text := ['\n'].intercalate (headers.map headerLine)

theorem byteLen_headerLine (p : Header) : byteLen (headerLine p) + 1 = pairSize p := by
  have hsep : byteLen ": ".toList = 2 := rfl
  simp only [headerLine, byteLen_append, hsep, pairSize]
  omega

theorem byteLen_rawHeadersStr (headers : List Header) :
    byteLen (rawHeadersStr headers) = fullTotal headers - 1 := by
  cases headers with
  | nil => rfl
  | cons p l =>
    have key : byteLen (rawHeadersStr (p :: l)) + 1 = fullTotal (p :: l) := by
      induction l generalizing p with
      | nil => simpa [rawHeadersStr, fullTotal] using byteLen_headerLine p
      | cons q l ih =>
        have hp := byteLen_headerLine p
        have hl := ih q
        have hnewline : byteLen ['\n'] = 1 := rfl
        simp only [rawHeadersStr, fullTotal, List.map_cons, List.sum_cons,
          List.intercalate_cons_cons, byteLen_append] at hl ⊢
        omega
    omega

/-- The text is within the limit exactly when the total is at most one above it. -/
theorem rawHeadersStr_fits_iff (headers : List Header) :
    byteLen (rawHeadersStr headers) ≤ headersSizeLimit ↔
      fullTotal headers ≤ headersSizeLimit + 1 := by
  rw [byteLen_rawHeadersStr]
  omega

section Cut
variable {c : ℕ}

/-- A value over the cap becomes as long as the cap, any other stays. -/
theorem cutValue_size (hmark : byteLen truncationMark ≤ c) {p q : Header}
    (h : cutValue c p = .ok q) : pairSize q = byteLen p.1 + 3 + min (byteLen p.2) c := by
  unfold cutValue at h
  by_cases hover : byteLen p.2 > c
  · rw [if_pos hover, checkedSub_of_le hmark, ok_bind] at h
    cases hs : sliceTo p.2 (c - byteLen truncationMark) with
    | none =>
      rw [hs] at h
      cases h
    | some s =>
      rw [hs] at h
      cases h
      have hlen := byteLen_of_sliceTo hs
      simp only [pairSize, byteLen_append]
      omega
  · rw [if_neg hover] at h
    cases h
    unfold pairSize
    omega

theorem mapM_cutValue_total (hmark : byteLen truncationMark ≤ c) {kept cut : List Header}
    (h : kept.mapM (cutValue c) = .ok cut) :
    fullTotal cut = nameTotal kept + cappedSum c (valueLengths kept) := by
  induction kept generalizing cut with
  | nil =>
    cases h
    rfl
  | cons p kept ih =>
    rw [List.mapM_cons] at h
    cases hp : cutValue c p with
    | error e =>
      rw [hp] at h
      cases h
    | ok q =>
      rw [hp, ok_bind] at h
      cases hk : kept.mapM (cutValue c) with
      | error e =>
        rw [hk] at h
        cases h
      | ok rest =>
        rw [hk] at h
        cases h
        have hsize := cutValue_size hmark hp
        have hrest := ih hk
        simp only [fullTotal, nameTotal, valueLengths, List.map_cons, List.sum_cons,
          cappedSum_cons] at hrest ⊢
        omega

end Cut

theorem dropHeaders_sublist {srt : SortUnstable} {pairs kept : List Header}
    {size minSize left : ℕ} (h : dropHeaders srt pairs size minSize = .ok (left, kept)) :
    kept.Sublist pairs := by
  unfold dropHeaders at h
  split at h
  · cases hloop : dropLoop pairs (srt.sort (indexed pairs)) size minSize [] with
    | error e =>
      rw [hloop] at h
      cases h
    | ok outcome =>
      rw [hloop] at h
      cases h
      have hsub := (List.filter_sublist (p := fun e => e.2 ∉ outcome.2)
        (l := pairs.zipIdx)).map Prod.fst
      rwa [List.zipIdx_map_fst] at hsub
  · cases h
    exact List.Sublist.refl pairs

/-- The headers kept fit as they are, or they are cut to the largest cap that fits. -/
def Shrunk (kept headers : List Header) : Prop :=
  (fullTotal kept ≤ headersSizeLimit + 1 ∧ headers = kept) ∨
    ∃ cap, LargestFit kept cap ∧ byteLen truncationMark ≤ cap ∧
      kept.mapM (cutValue cap) = .ok headers

/-- What the two phases return for headers that do not fit. -/
theorem truncateHeaders_over {srt : SortUnstable} {pairs : List Header} {r : TruncateResult}
    (hover : ¬ fullTotal pairs ≤ headersSizeLimit + 1) (h : truncateHeaders srt pairs = .ok r) :
    r.truncated = true ∧ ∃ kept, kept.Sublist pairs ∧
      kept.Perm (survivors (droppingOrder srt pairs)) ∧ Shrunk kept r.headers := by
  have hne : pairs ≠ [] := by
    rintro rfl
    exact hover (Nat.zero_le _)
  unfold truncateHeaders at h
  rw [if_neg (by simpa using hne)] at h
  change (if fullTotal pairs - 1 ≤ headersSizeLimit then _ else
    dropHeaders srt pairs (fullTotal pairs - 1) (minTotal pairs - 1) >>= _) = Except.ok r at h
  rw [if_neg (by omega)] at h
  rcases dropHeaders_spec srt pairs hne with ⟨-, ho⟩ | ⟨-, kept, ho, hkept⟩
  · rw [ho, error_bind] at h
    cases h
  · have hsub := dropHeaders_sublist ho
    have hfit := survivors_fit (droppingOrder srt pairs)
    rw [← minTotal_perm hkept] at hfit
    rw [ho, ok_bind, ← fullTotal_perm hkept] at h
    by_cases hdone : fullTotal kept - 1 ≤ headersSizeLimit
    · simp only [if_pos hdone] at h
      cases h
      exact ⟨rfl, kept, hsub, hkept, .inl ⟨by omega, rfl⟩⟩
    · simp only [if_neg hdone] at h
      obtain ⟨cap, hshrink, hcap, hmark⟩ := shrinkValues_spec hfit (by omega)
      rw [hshrink] at h
      cases hcut : kept.mapM (cutValue cap) with
      | error e =>
        rw [hcut] at h
        cases h
      | ok cut =>
        rw [hcut] at h
        cases h
        exact ⟨rfl, kept, hsub, hkept, .inr ⟨cap, hcap, hmark, hcut⟩⟩

theorem Shrunk.fits {kept headers : List Header} (h : Shrunk kept headers) :
    fullTotal headers ≤ headersSizeLimit + 1 := by
  rcases h with ⟨hfits, rfl⟩ | ⟨cap, hcap, hmark, hcut⟩
  · exact hfits
  · rw [mapM_cutValue_total hmark hcut]
    exact hcap.1

theorem untruncated_of_fits {srt : SortUnstable} {pairs : List Header}
    (hfits : fullTotal pairs ≤ headersSizeLimit + 1) :
    truncateHeaders srt pairs = .ok ⟨false, pairs⟩ := by
  unfold truncateHeaders
  by_cases hnil : pairs.isEmpty = true
  · rw [if_pos hnil]
  · rw [if_neg hnil]
    exact if_pos (show fullTotal pairs - 1 ≤ headersSizeLimit by omega)

/-- Whatever the truncation returns is written within the limit, and it leaves headers alone
exactly when their text already is. -/
theorem truncateHeaders_fits (srt : SortUnstable) (pairs : List Header) (r : TruncateResult)
    (h : truncateHeaders srt pairs = .ok r) :
    byteLen (rawHeadersStr r.headers) ≤ headersSizeLimit ∧
      (r.truncated = false ↔ byteLen (rawHeadersStr pairs) ≤ headersSizeLimit) ∧
      (r.truncated = false → r.headers = pairs) := by
  rw [rawHeadersStr_fits_iff, rawHeadersStr_fits_iff]
  by_cases hfits : fullTotal pairs ≤ headersSizeLimit + 1
  · rw [untruncated_of_fits hfits] at h
    cases h
    exact ⟨hfits, iff_of_true rfl hfits, fun _ => rfl⟩
  · obtain ⟨htrunc, kept, -, -, hshrunk⟩ := truncateHeaders_over hfits h
    simp [htrunc, hshrunk.fits, hfits]

/-- A value of ten thousand letters. -/
def longValueHeader : Header := (['a'], List.replicate 10000 'x')

theorem longValueHeader_sizes :
    pairSize longValueHeader = 10004 ∧ pairMinSize longValueHeader = 18 := by
  have hv : byteLen longValueHeader.2 = 10000 := byteLen_replicate 10000 'x'
  have hk : byteLen longValueHeader.1 = 1 := rfl
  have hm : byteLen truncationMark = 14 := rfl
  simp [pairSize, pairMinSize, hv, hk, hm]

theorem truncateHeaders_longValue :
    ∃ q, truncateHeaders mergeSortDesc [longValueHeader] = .ok ⟨true, [q]⟩ := by
  obtain ⟨hfull, hmin⟩ := longValueHeader_sizes
  have hlimit : headersSizeLimit = 10000 := rfl
  have hv : byteLen longValueHeader.2 = 10000 := byteLen_replicate 10000 'x'
  obtain ⟨c, hc, hcm, hcut⟩ := truncateHeaders_single mergeSortDesc
    (p := longValueHeader) (by omega) (by omega)
  have hboundary : c < byteLen longValueHeader.2 →
      isCharBoundary longValueHeader.2 (c - byteLen truncationMark) = true := by
    intro hlt
    rw [hv] at hlt
    have hone : 'x'.utf8Size = 1 := rfl
    exact (isCharBoundary_replicate 'x' 10000 _ (by omega)).mpr (one_dvd _)
  obtain ⟨q, hq⟩ := (cutValue_ok_iff hcm longValueHeader).mpr hboundary
  refine ⟨q, ?_⟩
  rw [hcut, List.mapM_cons, hq]
  rfl

/-- The long value is cut, and the text then fits. -/
theorem truncateHeaders_fits_long :
    ∃ r, truncateHeaders mergeSortDesc [(['a'], List.replicate 10000 'x')] = .ok r ∧
      r.truncated = true ∧ byteLen (rawHeadersStr r.headers) ≤ headersSizeLimit := by
  obtain ⟨q, hr⟩ := truncateHeaders_longValue
  exact ⟨⟨true, [q]⟩, hr, rfl, (truncateHeaders_fits mergeSortDesc _ _ hr).1⟩

end GlobalpingProbe.Command.Http
