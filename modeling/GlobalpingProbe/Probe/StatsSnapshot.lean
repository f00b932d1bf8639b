import GlobalpingProbe.Foundation.TaskPool
import GlobalpingProbe.Probe.Limiter

/-! # Snapshots of the counters under concurrent measurements

Measurements count their start and their finish, while one reporter takes a snapshot after the
other with two swaps. What was started, or finished, is in the snapshots, in the hand of the
reporter or still in the counter.
-/
namespace GlobalpingProbe.Probe
open Foundation

inductive MeasurementPhase where
  | waiting
  | running
  | done
  deriving DecidableEq, Repr

inductive MeasurementStep where
  | recordStart
  | recordFinish
  deriving DecidableEq, Repr

/-- The counters, the first half of a snapshot under way, and the snapshots taken. -/
structure Reporting where
  stats : MeasurementStats
  swapped : Option ℕ
  snapshots : List (ℕ × ℕ)
  deriving DecidableEq, Repr

def measurementStep (r : Reporting) : MeasurementPhase → MeasurementStep →
    Option (Reporting × MeasurementPhase)
  | .waiting, .recordStart => some ({ r with stats := r.stats.recordStart }, .running)
  | .running, .recordFinish => some ({ r with stats := r.stats.recordFinish }, .done)
  | _, _ => none

/-- The next of the two swaps of `take`. -/
def takeStep (r : Reporting) : Reporting :=
  match r.swapped with
  | none => { r with stats := r.stats.swapStarted.2, swapped := some r.stats.swapStarted.1 }
  | some started =>
    { stats := r.stats.swapFinished.2
      swapped := none
      snapshots := r.snapshots ++ [(started, r.stats.swapFinished.1)] }

abbrev SnapshotLabel := PoolLabel Unit MeasurementStep Unit

def snapshotStep : Pool Reporting MeasurementPhase → SnapshotLabel →
    Option (Pool Reporting MeasurementPhase) :=
  stepPool (fun _ => .waiting) measurementStep (fun r _ => takeStep r)

def snapshotStart : Pool Reporting MeasurementPhase := ⟨⟨.new, none, []⟩, []⟩

namespace Reporting

def startedTaken (r : Reporting) : ℕ := (r.snapshots.map Prod.fst).sum
def finishedTaken (r : Reporting) : ℕ := (r.snapshots.map Prod.snd).sum

def Consistent (r : Reporting) : Prop := r.finishedTaken ≤ r.startedTaken

instance (r : Reporting) : Decidable r.Consistent :=
  inferInstanceAs (Decidable (r.finishedTaken ≤ r.startedTaken))

end Reporting

def runningCount (p : Pool Reporting MeasurementPhase) : ℕ := p.tasks.count .running

/-- At the second swap no more measurements have started since the first one than are running,
so none of those has finished that was not running at the first swap. -/
def FinishesWereRunning (p : Pool Reporting MeasurementPhase) : SnapshotLabel → Prop
  | .env _ => p.shared.swapped.isSome → p.shared.stats.started ≤ runningCount p
  | _ => True

/-! ## What is started and not finished is running -/

/-- The counts of starts, less those of finishes, wherever they are. -/
def Reporting.unfinished (r : Reporting) : ℤ :=
  r.startedTaken + r.swapped.getD 0 + r.stats.started - (r.finishedTaken + r.stats.finished)

def MeasurementPhase.side (t : MeasurementPhase) : ℤ := if t = .running then -1 else 0

theorem sum_side (tasks : List MeasurementPhase) :
    (tasks.map MeasurementPhase.side).sum = -(tasks.count .running : ℤ) := by
  induction tasks with
  | nil => rfl
  | cons t tasks ih =>
    rw [List.map_cons, List.sum_cons, ih, List.count_cons]
    cases t <;> simp [MeasurementPhase.side]

theorem measurementStep_balance {r r' : Reporting} {t t' : MeasurementPhase} {a : MeasurementStep}
    (h : measurementStep r t a = some (r', t')) : r'.unfinished + t'.side = r.unfinished + t.side := by
  cases t <;> cases a <;> cases h <;>
    simp [Reporting.unfinished, Reporting.startedTaken, Reporting.finishedTaken,
      MeasurementPhase.side, MeasurementStats.recordStart, MeasurementStats.recordFinish] <;>
    omega

theorem takeStep_none {r : Reporting} (h : r.swapped = none) : takeStep r =
    { r with stats := r.stats.swapStarted.2, swapped := some r.stats.swapStarted.1 } := by
  simp only [takeStep, h]

theorem takeStep_some {r : Reporting} {started : ℕ} (h : r.swapped = some started) :
    takeStep r = ⟨r.stats.swapFinished.2, none,
      r.snapshots ++ [(started, r.stats.swapFinished.1)]⟩ := by
  simp only [takeStep, h]

theorem takeStep_unfinished (r : Reporting) : (takeStep r).unfinished = r.unfinished := by
  cases hs : r.swapped with
  | none =>
    rw [takeStep_none hs]
    simp [Reporting.unfinished, Reporting.startedTaken, Reporting.finishedTaken, hs,
      MeasurementStats.swapStarted]
  | some started =>
    rw [takeStep_some hs]
    simp [Reporting.unfinished, Reporting.startedTaken, Reporting.finishedTaken, hs,
      MeasurementStats.swapFinished]

theorem measurementStep_snapshots {r r' : Reporting} {t t' : MeasurementPhase}
    {a : MeasurementStep} (h : measurementStep r t a = some (r', t')) :
    r'.snapshots = r.snapshots := by
  cases t <;> cases a <;> cases h <;> rfl

def Balanced (p : Pool Reporting MeasurementPhase) : Prop :=
  p.shared.unfinished = runningCount p

theorem snapshotStep_balanced {p q : Pool Reporting MeasurementPhase} {label : SnapshotLabel}
    (hp : Balanced p) (h : snapshotStep p label = some q) : Balanced q := by
  have hb := stepPool_balance (f := Reporting.unfinished) (g := MeasurementPhase.side)
    (fun _ _ _ _ _ => measurementStep_balance) (fun r _ => takeStep_unfinished r)
    (fun _ => rfl) h
  simp only [balance, sum_side] at hb
  unfold Balanced runningCount at hp ⊢
  omega

/-- One more step leaves the snapshots consistent exactly when it meets the condition. -/
theorem snapshotStep_consistent {p q : Pool Reporting MeasurementPhase} {label : SnapshotLabel}
    (hp : Balanced p) (hc : p.shared.Consistent) (h : snapshotStep p label = some q) :
    FinishesWereRunning p label ↔ q.shared.Consistent := by
  cases label with
  | spawn k =>
    cases h
    exact iff_of_true trivial hc
  | act i a =>
    obtain ⟨t, t', -, ha, -⟩ := stepTask_eq_some.mp h
    have hsame : q.shared.snapshots = p.shared.snapshots := measurementStep_snapshots ha
    refine iff_of_true trivial ?_
    simpa only [Reporting.Consistent, Reporting.startedTaken, Reporting.finishedTaken, hsame] using hc
  | env e =>
    cases h
    change (p.shared.swapped.isSome → _) ↔ (takeStep p.shared).Consistent
    cases hs : p.shared.swapped with
    | none =>
      rw [takeStep_none hs]
      exact iff_of_true (fun h => absurd h (by simp)) hc
    | some started =>
      rw [takeStep_some hs]
      unfold Balanced Reporting.unfinished at hp
      rw [hs, Option.getD_some] at hp
      simp only [Option.isSome_some, forall_const, Reporting.Consistent, Reporting.finishedTaken,
        Reporting.startedTaken, List.map_append, List.map_cons, List.map_nil, List.sum_append,
        List.sum_cons, List.sum_nil, MeasurementStats.swapFinished] at hp ⊢
      omega

/-- The snapshots of a run are consistent after each `take` exactly when at every second swap
the measurements started since the first one are no more than those running. -/
theorem snapshots_consistent_iff {labels : List SnapshotLabel} {p : Pool Reporting MeasurementPhase}
    (h : run snapshotStep snapshotStart labels = some p) :
    (∀ front q, front <+: labels → run snapshotStep snapshotStart front = some q →
      q.shared.Consistent) ↔ Along snapshotStep FinishesWereRunning snapshotStart labels :=
  (along_iff_states_good (fun _ _ _ => snapshotStep_balanced)
    (fun _ _ _ => snapshotStep_consistent) (by rfl : Balanced snapshotStart) le_rfl h).symm

/-- A measurement that starts and finishes between the two swaps is only counted as finished. -/
def tornLabels : List SnapshotLabel :=
  [.spawn (), .env (), .act 0 .recordStart, .act 0 .recordFinish, .env ()]

theorem tornLabels_not_consistent : ∃ p, run snapshotStep snapshotStart tornLabels = some p ∧
    p.shared.snapshots = [(0, 1)] ∧ ¬ p.shared.Consistent :=
  ⟨_, rfl, rfl, by decide⟩

instance (p : Pool Reporting MeasurementPhase) : ∀ label, Decidable (FinishesWereRunning p label)
  | .env _ => inferInstanceAs (Decidable (_ → _))
  | .spawn _ | .act .. => isTrue trivial

/-- One measurement runs during the first snapshot, and another one starts meanwhile. -/
def overlappingLabels : List SnapshotLabel :=
  [.spawn (), .spawn (), .act 0 .recordStart, .env (), .act 1 .recordStart, .act 0 .recordFinish,
    .env (), .act 1 .recordFinish, .env (), .env ()]

theorem overlappingLabels_consistent : ∃ p,
    run snapshotStep snapshotStart overlappingLabels = some p ∧
      p.shared.snapshots = [(1, 1), (1, 1)] ∧ p.shared.Consistent := by
  obtain ⟨p, hp⟩ : ∃ p, run snapshotStep snapshotStart overlappingLabels = some p := ⟨_, rfl⟩
  refine ⟨p, hp, ?_, ?_⟩
  · cases hp
    rfl
  · exact (snapshots_consistent_iff hp).mpr (by decide) _ p (List.prefix_refl _) hp

end GlobalpingProbe.Probe
