import GlobalpingProbe.Command.Mtr.Parse
import GlobalpingProbe.Foundation.ExactOrder

/-! # The order of the statistics of a hop

The means and all jitter values are rounded to one decimal, the extrema of the times are not.
Rounding keeps the order, so the mean lies between the rounded extrema; between the exact ones
it need not lie.
-/
namespace GlobalpingProbe.Command.Mtr
open Foundation

/-- The timings of probes whose times are exact; those without a time were lost. -/
def exactTimings (rtts : List (Option ℚ)) : List HopTiming := rtts.map (fun q => ⟨q.map .finite⟩)

/-- Every value that is reported as least, mean and greatest is in that order. -/
def HopStats.Ordered (s : HopStats) : Prop :=
  (s.min.le s.avg ∧ s.avg.le s.max) ∧ s.jMin.le s.jAvg ∧ s.jAvg.le s.jMax

/-- The same of the values rounded to one decimal. -/
def HopStats.OrderedRounded (s : HopStats) : Prop :=
  (s.min.r1.le s.avg ∧ s.avg.le s.max.r1) ∧ s.jMin.le s.jAvg ∧ s.jAvg.le s.jMax

theorem jitter_finite (xs : List ℚ) : ∃ ys : List ℚ, jitter (xs.map .finite) = ys.map .finite := by
  induction xs using List.twoStepInduction with
  | nil => exact ⟨[], rfl⟩
  | singleton x => exact ⟨[], rfl⟩
  | cons_cons x y xs ih _ =>
    obtain ⟨ys, hys⟩ := ih
    have hsub : F64.abs (F64.sub (.finite x) (.finite y)) = .finite |x - y| := by
      rw [sub_eq_add_neg]
      rfl
    refine ⟨|x - y| :: ys, ?_⟩
    rw [List.map_cons, List.map_cons, List.map_cons, jitter, hys, hsub]

/-- The mean of exact values, rounded, lies between the rounded extrema. -/
theorem mean_between {xs : List ℚ} (hne : xs ≠ []) :
    (minOf (xs.map .finite)).r1.le (meanOf (xs.map .finite)).r1 ∧
      (meanOf (xs.map .finite)).r1.le (maxOf (xs.map .finite)).r1 := by
  obtain ⟨x, rest, rfl⟩ := List.exists_cons_of_ne_nil hne
  have hmean : meanOf ((x :: rest).map .finite) =
      .finite ((x :: rest).sum / (x :: rest).length) := by
    rw [meanOf, F64.sum_map_finite, List.length_map]
    rfl
  have hmin : minOf ((x :: rest).map .finite) = .finite (rest.foldl min x) :=
    F64.foldl_min_finite x rest
  have hmax : maxOf ((x :: rest).map .finite) = .finite (rest.foldl max x) :=
    F64.foldl_max_finite x rest
  have hwithin : Within (rest.foldl min x) (rest.foldl max x) (x :: rest) := by
    intro y hy
    obtain ⟨hx, hrest⟩ := foldl_min_le rest x
    obtain ⟨hx', hrest'⟩ := le_foldl_max rest x
    rcases List.mem_cons.mp hy with rfl | hy
    · exact ⟨hx, hx'⟩
    · exact ⟨hrest y hy, hrest' y hy⟩
  obtain ⟨hlow, hhigh⟩ := mean_within (List.cons_ne_nil x rest) hwithin
  rw [hmean, hmin, hmax]
  exact ⟨F64.r1_mono hlow, F64.r1_mono hhigh⟩

theorem received_exactTimings (rtts : List (Option ℚ)) :
    (exactTimings rtts).filterMap (·.rtt) = (rtts.filterMap id).map .finite := by
  rw [exactTimings, List.filterMap_map, List.map_filterMap]
  rfl

/-- The mean lies between the extrema, all three rounded alike. -/
theorem computeStats_ordered (rtts : List (Option ℚ)) (isFinal : Bool) :
    (computeStats (exactTimings rtts) isFinal).OrderedRounded := by
  have hzero : F64.le .zero .zero = true := (F64.le_finite 0 0).mpr le_rfl
  unfold computeStats
  split
  · simp [HopStats.OrderedRounded, hzero]
  · have hreceived := received_exactTimings rtts
    generalize rtts.filterMap id = xs at hreceived
    obtain ⟨ys, hys⟩ := jitter_finite xs
    simp only [HopStats.OrderedRounded, hreceived, hys, List.isEmpty_map]
    constructor
    · cases xs with
      | nil => simp [hzero]
      | cons x xs => exact mean_between (List.cons_ne_nil x xs)
    · cases ys with
      | nil => simp [hzero]
      | cons y ys => exact mean_between (List.cons_ne_nil y ys)

/-- One answer after 40 microseconds: the mean is reported as zero. -/
theorem shortAnswer_not_ordered :
    ¬ (computeStats (exactTimings [some (1 / 25)]) true).Ordered := by
  have hmin : (computeStats (exactTimings [some (1 / 25)]) true).min = .finite (1 / 25) := by
    decide +kernel
  have havg : (computeStats (exactTimings [some (1 / 25)]) true).avg = .finite 0 := by
    decide +kernel
  rintro ⟨⟨h, -⟩, -⟩
  rw [hmin, havg, F64.le_finite] at h
  exact absurd h (by norm_num)

end GlobalpingProbe.Command.Mtr
