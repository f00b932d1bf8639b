import GlobalpingProbe.Command.Mtr.Output

/-! # The hops that the table shows

A hop without an address is left out when the rest of the path, the hop before it included,
has none. What remains is the path up to the last hop with an address and the next one, so
the number of a row is the place of its hop.
-/
namespace GlobalpingProbe.Command.Mtr
open Foundation

/-- The largest index of a hop with an address. -/
def lastReplying (hops : List MtrHop) : Option ℕ :=
  ((hops.zipIdx.filter (·.1.resolvedAddress.isSome)).map Prod.snd).max?

def PaddedLeft (entry cell : Text) : Prop := ∃ n, cell = List.replicate n ' ' ++ entry
def PaddedRight (entry cell : Text) : Prop := ∃ n, cell = entry ++ List.replicate n ' '

/-- The row with this number tells of the hop: its number, its autonomous systems, and its host
with the figures, or that no reply has come. -/
def DescribesHop (w : Columns) (number : ℕ) (hop : MtrHop) (row : Text) : Prop :=
  ∃ sindex sasn shost figures,
    row = sindex ++ ". ".toList ++ sasn ++ " ".toList ++ shost ++ figures ++ "\n".toList ∧
    PaddedLeft (decimal number) sindex ∧ PaddedRight (asnStr hop) sasn ∧
    match hop.resolvedAddress with
    | some addr =>
      PaddedRight (displayHost (number - 1) hop ++ " (".toList ++ addr ++ ")".toList) shost ∧
        figures = statsCells w hop.stats
    | none => PaddedRight "(waiting for reply)".toList shost ∧ figures = []

/-- The rows of the table describe these hops one by one, numbered from one. -/
def RowsDescribe (hops : List MtrHop) (out : Text) : Prop :=
  ∃ (w : Columns) (rows : List Text), out = headerRow w ++ rows.flatten ∧ rows.length = hops.length ∧
    ∀ k row hop, rows[k]? = some row → hops[k]? = some hop → DescribesHop w (k + 1) hop row

theorem paddedLeft_padLeft (width : ℕ) (entry : Text) : PaddedLeft entry (padLeft width entry) :=
  ⟨_, rfl⟩

theorem paddedRight_padRight (width : ℕ) (entry : Text) :
    PaddedRight entry (padRight width entry) := ⟨_, rfl⟩

theorem dataRow_describes (w : Columns) (displayI : ℕ) (hop : MtrHop) :
    DescribesHop w (displayI + 1) hop (dataRow w displayI hop) := by
  have hnumber := paddedLeft_padLeft w.idx (decimal (displayI + 1))
  have hasn := paddedRight_padRight w.asn (asnStr hop)
  unfold DescribesHop dataRow
  cases haddr : hop.resolvedAddress with
  | none =>
    refine ⟨_, _, _, [], ?_, hnumber, hasn, paddedRight_padRight w.host _, rfl⟩
    simp
  | some addr =>
    refine ⟨_, _, _, _, ?_, hnumber, hasn, paddedRight_padRight w.host _, rfl⟩
    simp

theorem buildOutput_describes {hops : List MtrHop} (h : shownHops hops ≠ []) :
    RowsDescribe (shownHops hops) (buildOutput hops) := by
  have hne : (shownHops hops).isEmpty = false := List.isEmpty_eq_false_iff.mpr h
  refine ⟨columns (shownHops hops), (shownHops hops).zipIdx.map
    (fun p => dataRow (columns (shownHops hops)) p.2 p.1), ?_, by simp, ?_⟩
  · simp [buildOutput, hne]
  · intro k row hop hrow hhop
    have heq : dataRow (columns (shownHops hops)) k hop = row := by
      simpa [List.getElem?_map, List.getElem?_zipIdx, hhop] using hrow
    rw [← heq]
    exact dataRow_describes _ k hop

theorem mem_replying {hops : List MtrHop} {i : ℕ} :
    i ∈ (hops.zipIdx.filter (·.1.resolvedAddress.isSome)).map Prod.snd ↔
      ∃ h, hops[i]? = some h ∧ h.resolvedAddress.isSome = true := by
  simp only [List.mem_map, List.mem_filter, List.mem_zipIdx_iff_getElem?, Prod.exists]
  constructor
  · rintro ⟨h, j, ⟨hj, haddr⟩, rfl⟩
    exact ⟨h, hj, haddr⟩
  · rintro ⟨h, hi, haddr⟩
    exact ⟨h, i, ⟨hi, haddr⟩, rfl⟩

theorem lastReplying_eq_none {hops : List MtrHop} :
    lastReplying hops = none ↔ ∀ h ∈ hops, h.resolvedAddress = none := by
  rw [lastReplying, List.max?_eq_none_iff, List.eq_nil_iff_forall_not_mem]
  simp only [mem_replying, not_exists, not_and, Bool.not_eq_true, Option.isSome_eq_false_iff,
    Option.isNone_iff_eq_none]
  constructor
  · intro hnone h hmem
    obtain ⟨i, hi⟩ := List.mem_iff_getElem?.mp hmem
    exact hnone i h hi
  · intro hnone i h hi
    exact hnone h (List.mem_of_getElem? hi)

theorem lastReplying_eq_some {hops : List MtrHop} {last : ℕ} :
    lastReplying hops = some last ↔
      (∃ h, hops[last]? = some h ∧ h.resolvedAddress.isSome = true) ∧
      ∀ j h, hops[j]? = some h → h.resolvedAddress.isSome = true → j ≤ last := by
  rw [lastReplying, List.max?_eq_some_iff]
  simp only [mem_replying]
  constructor
  · rintro ⟨hlast, hmax⟩
    exact ⟨hlast, fun j h hj haddr => hmax j ⟨h, hj, haddr⟩⟩
  · rintro ⟨hlast, hmax⟩
    exact ⟨hlast, fun j ⟨h, hj, haddr⟩ => hmax j h hj haddr⟩

/-- From the hop before `i` on, no hop has an address exactly when the last one with an address
is further back. -/
theorem silentFrom_iff {hops : List MtrHop} {last : ℕ} (h : lastReplying hops = some last)
    (i : ℕ) : silentFrom hops i = true ↔ last < i - 1 := by
  obtain ⟨⟨hop, hhop, haddr⟩, hmax⟩ := lastReplying_eq_some.mp h
  simp only [silentFrom, List.all_eq_true, Option.isNone_iff_eq_none]
  constructor
  · intro hsilent
    by_contra hle
    have hmem : hop ∈ hops.drop (i - 1) := by
      apply List.mem_of_getElem? (i := last - (i - 1))
      rw [List.getElem?_drop, Nat.add_sub_cancel' (not_lt.mp hle)]
      exact hhop
    rw [hsilent hop hmem] at haddr
    cases haddr
  · intro hlt later hlater
    obtain ⟨j, hj⟩ := List.mem_iff_getElem?.mp hlater
    rw [List.getElem?_drop] at hj
    by_contra hsome
    have hle := hmax _ later hj (Option.isSome_iff_ne_none.mpr hsome)
    omega

theorem zipIdx_filter_lt {α : Type} (l : List α) (m : ℕ) :
    (l.zipIdx.filter (fun p => p.2 < m)).map Prod.fst = l.take m := by
  induction l using List.reverseRecOn with
  | nil => simp
  | append_singleton l a ih =>
    rw [List.zipIdx_append, List.filter_append, List.map_append, ih]
    by_cases hlt : l.length < m
    · have hwhole : (l ++ [a]).take m = l ++ [a] := List.take_of_length_le (by rw [List.length_append]; exact hlt)
      simp [hlt, hwhole, List.take_of_length_le hlt.le]
    · simp [hlt, List.take_append_of_le_length (not_lt.mp hlt)]

theorem shownHops_eq_take {hops : List MtrHop} {last : ℕ} (h : lastReplying hops = some last) :
    shownHops hops = hops.take (last + 2) := by
  have hkept : ∀ p ∈ hops.zipIdx,
      (!(p.1.resolvedAddress.isNone && silentFrom hops p.2)) = decide (p.2 < last + 2) := by
    rintro ⟨hop, i⟩ hp
    have hi : hops[i]? = some hop := List.mem_zipIdx_iff_getElem?.mp hp
    have hmax := (lastReplying_eq_some.mp h).2 i hop hi
    have hsilent := silentFrom_iff h i
    cases haddr : hop.resolvedAddress with
    | none =>
      by_cases hfar : last < i - 1
      · simp [hsilent.mpr hfar]
        omega
      · have hnot : silentFrom hops i = false := Bool.eq_false_iff.mpr (mt hsilent.mp hfar)
        simp [hnot]
        omega
    | some addr =>
      have hle : i ≤ last := hmax (by simp [haddr])
      simp
      omega
  rw [shownHops, List.filter_congr hkept, zipIdx_filter_lt]

theorem shownHops_eq_nil {hops : List MtrHop} (h : lastReplying hops = none) :
    shownHops hops = [] := by
  have hnone := lastReplying_eq_none.mp h
  rw [shownHops, List.map_eq_nil_iff, List.filter_eq_nil_iff]
  rintro ⟨hop, i⟩ hp
  have hmem : hop ∈ hops := List.mem_of_getElem? (List.mem_zipIdx_iff_getElem?.mp hp)
  have hsilent : silentFrom hops i = true :=
    List.all_eq_true.mpr (fun later hlater => by simp [hnone later (List.mem_of_mem_drop hlater)])
  simp [hnone hop hmem, hsilent]

/-- The rows describe the path up to the last hop with an address and the next one, if there is
one; without any address nothing is printed. -/
theorem buildOutput_rows (hops : List MtrHop) :
    match lastReplying hops with
    | some last => RowsDescribe (hops.take (last + 2)) (buildOutput hops) ∧
        (hops.take (last + 2)).length = min hops.length (last + 2)
    | none => buildOutput hops = [] := by
  cases hlast : lastReplying hops with
  | none => simp [buildOutput, shownHops_eq_nil hlast]
  | some last =>
    have hshown := shownHops_eq_take hlast
    obtain ⟨⟨hop, hhop, -⟩, -⟩ := lastReplying_eq_some.mp hlast
    have hne : shownHops hops ≠ [] := by
      rw [hshown]
      intro hnil
      rcases List.take_eq_nil_iff.mp hnil with hzero | hnil
      · omega
      · simp [hnil] at hhop
    refine ⟨?_, by rw [List.length_take, min_comm]⟩
    rw [← hshown]
    exact buildOutput_describes hne

end GlobalpingProbe.Command.Mtr
