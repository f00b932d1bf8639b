import Mathlib.Data.List.Basic
import Mathlib.Data.List.Induction
import Mathlib.Data.Option.Basic

/-! # Runs of input-driven transition functions

A system is a partial step function: the label carries every choice the environment
and the scheduler make, and `none` says the label is not enabled. A run folds the
step over a finite list of labels, so each run can be evaluated as well as reasoned
about, and an invariant is proved once for one step and then holds along every run.
-/
namespace Foundation
universe u v
variable {σ : Type u} {α : Type v} (step : σ → α → Option σ)

/-- The state after a list of labels, `none` as soon as one of them is not enabled. -/
def run (s : σ) (as : List α) : Option σ := as.foldlM step s

@[simp] theorem run_nil (s : σ) : run step s [] = some s := rfl

@[simp] theorem run_cons (s : σ) (a : α) (as : List α) :
    run step s (a :: as) = (step s a).bind (fun t => run step t as) := rfl

theorem run_append (s : σ) (as bs : List α) :
    run step s (as ++ bs) = (run step s as).bind (fun t => run step t bs) := by
  induction as generalizing s with
  | nil => rfl
  | cons a as ih =>
    simp only [List.cons_append, run_cons]
    cases step s a with
    | none => rfl
    | some t => exact ih t

theorem run_append_eq_some {s u : σ} {as bs : List α} :
    run step s (as ++ bs) = some u ↔ ∃ t, run step s as = some t ∧ run step t bs = some u := by
  rw [run_append, Option.bind_eq_some_iff]

theorem run_concat (s : σ) (as : List α) (a : α) :
    run step s (as ++ [a]) = (run step s as).bind (step · a) := by
  rw [run_append]
  apply Option.bind_congr
  intro t _
  rw [run_cons]
  cases step t a <;> rfl

/-- Every step of a run from `s` meets the condition in the state it is taken in. -/
def Along (cond : σ → α → Prop) : σ → List α → Prop
  | _, [] => True
  | s, a :: as => cond s a ∧ ∀ t, step s a = some t → Along cond t as

instance decidableAlong {cond : σ → α → Prop} [∀ s a, Decidable (cond s a)] :
    ∀ (s : σ) (as : List α), Decidable (Along step cond s as)
  | _, [] => isTrue trivial
  | s, a :: as =>
    have : ∀ t, Decidable (Along step cond t as) := fun t => decidableAlong t as
    inferInstanceAs (Decidable (cond s a ∧ ∀ t ∈ step s a, Along step cond t as))

theorem along_true (s : σ) (as : List α) : Along step (fun _ _ => True) s as := by
  induction as generalizing s with
  | nil => exact trivial
  | cons a as ih => exact ⟨trivial, fun t _ => ih t⟩

variable {step}

theorem Along.invariant {cond : σ → α → Prop} {I : σ → Prop}
    (hstep : ∀ s a t, I s → cond s a → step s a = some t → I t)
    {s t : σ} {as : List α} (hc : Along step cond s as) (hs : I s)
    (hr : run step s as = some t) : I t := by
  induction as generalizing s with
  | nil =>
    cases hr
    exact hs
  | cons a as ih =>
    rw [run_cons, Option.bind_eq_some_iff] at hr
    obtain ⟨u, hu, hr⟩ := hr
    exact ih (hc.2 u hu) (hstep s a u hs hc.1 hu) hr

/-- Where the condition on a step says whether it leads from a good state to a good one, the
condition along a run says that every state of the run is good. -/
theorem along_iff_states_good {cond : σ → α → Prop} {I Good : σ → Prop}
    (hstep : ∀ s a t, I s → step s a = some t → I t)
    (hgood : ∀ s a t, I s → Good s → step s a = some t → (cond s a ↔ Good t))
    {s t : σ} {as : List α} (hs : I s) (hg : Good s) (hr : run step s as = some t) :
    Along step cond s as ↔ ∀ front u, front <+: as → run step s front = some u → Good u := by
  induction as generalizing s with
  | nil =>
    refine ⟨fun _ front u hfront hu => ?_, fun _ => trivial⟩
    rw [List.prefix_nil.mp hfront] at hu
    cases hu
    exact hg
  | cons a as ih =>
    rw [run_cons, Option.bind_eq_some_iff] at hr
    obtain ⟨v, hv, hr⟩ := hr
    have hiff := hgood s a v hs hg hv
    constructor
    · intro h front u hfront hu
      cases front with
      | nil =>
        cases hu
        exact hg
      | cons b front =>
        obtain ⟨rfl, hrest⟩ := List.cons_prefix_cons.mp hfront
        rw [run_cons, hv] at hu
        exact (ih (hstep s b v hs hv) (hiff.mp h.1) hr).mp (h.2 v hv) front u hrest hu
    · intro h
      have hsingle : run step s [a] = some v := by simp [hv]
      have hv' := h [a] v (by simp) hsingle
      refine ⟨hiff.mpr hv', fun w hw => ?_⟩
      obtain rfl : v = w := Option.some.inj (hv.symm.trans hw)
      apply (ih (hstep s a v hs hv) hv' hr).mpr
      intro front u hfront hu
      refine h (a :: front) u (List.cons_prefix_cons.mpr ⟨rfl, hfront⟩) ?_
      rw [run_cons, hv]
      exact hu

/-- What one step preserves, every run preserves. -/
theorem run_invariant {I : σ → Prop} (hstep : ∀ s a t, I s → step s a = some t → I t)
    {s t : σ} {as : List α} (hs : I s) (hr : run step s as = some t) : I t :=
  Along.invariant (fun s a t h _ => hstep s a t h) (along_true step s as) hs hr

/-- An invariant that only some labels keep holds along the runs of these labels. -/
theorem run_invariant_of_labels {I : σ → Prop} {P : α → Prop}
    (hstep : ∀ s a t, P a → I s → step s a = some t → I t) {s t : σ} {as : List α}
    (ha : ∀ a ∈ as, P a) (hs : I s) (hr : run step s as = some t) : I t := by
  induction as generalizing s with
  | nil =>
    cases hr
    exact hs
  | cons a as ih =>
    rw [run_cons, Option.bind_eq_some_iff] at hr
    obtain ⟨u, hu, hr⟩ := hr
    exact ih (fun b hb => ha b (by simp [hb])) (hstep s a u (ha a (by simp)) hs hu) hr

/-- An invariant may also speak of the labels so far. -/
theorem run_invariant_of_history {I : List α → σ → Prop} {s t : σ} {as : List α} (hs : I [] s)
    (hstep : ∀ as a t u, I as t → step t a = some u → I (as ++ [a]) u)
    (hr : run step s as = some t) : I as t := by
  induction as using List.reverseRecOn generalizing t with
  | nil =>
    cases hr
    exact hs
  | append_singleton as a ih =>
    rw [run_concat, Option.bind_eq_some_iff] at hr
    obtain ⟨u, hu, hlast⟩ := hr
    exact hstep as a u t (ih hu) hlast

end Foundation
