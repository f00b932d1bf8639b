import GlobalpingProbe.Foundation.Transition
import Mathlib.Algebra.BigOperators.Group.List.Basic
import Mathlib.Algebra.Order.Ring.Int
import Mathlib.Tactic.Abel
import Mathlib.Tactic.Linarith

/-! # Interleavings of tasks over a shared state

A pool holds a shared state and a growing list of tasks. One label lets one task make one
atomic step, starts a task, or lets the environment change the shared state; every
schedule is a list of labels. Two rules cover most invariants of such a pool: a property
of single tasks, and a balance between the shared state and the sum over the tasks.
-/
namespace Foundation
universe u v w x y

structure Pool (σ : Type u) (τ : Type v) where
  shared : σ
  tasks : List τ

inductive PoolLabel (κ : Type y) (α : Type w) (ε : Type x) where
  | spawn (k : κ)
  | act (i : ℕ) (a : α)
  | env (e : ε)
  deriving DecidableEq, Repr

variable {σ : Type u} {τ : Type v} {κ : Type y} {α : Type w} {ε : Type x}

/-- One task, given by its place in the list, makes one step. -/
def stepTask (act : σ → τ → α → Option (σ × τ)) (p : Pool σ τ) (i : ℕ) (a : α) :
    Option (Pool σ τ) :=
  p.tasks[i]?.bind (fun t => (act p.shared t a).map (fun r => ⟨r.1, p.tasks.set i r.2⟩))

/-- One label of a pool whose tasks start from the data they are given. -/
def stepPool (start : κ → τ) (act : σ → τ → α → Option (σ × τ)) (env : σ → ε → σ)
    (p : Pool σ τ) : PoolLabel κ α ε → Option (Pool σ τ)
  | .spawn k => some { p with tasks := p.tasks ++ [start k] }
  | .act i a => stepTask act p i a
  | .env e => some { p with shared := env p.shared e }

/-- Everything a task step can do: one task and the shared state change, nothing else. -/
theorem stepTask_eq_some {act : σ → τ → α → Option (σ × τ)} {p q : Pool σ τ} {i : ℕ} {a : α} :
    stepTask act p i a = some q ↔ ∃ t t', p.tasks[i]? = some t ∧
      act p.shared t a = some (q.shared, t') ∧ q.tasks = p.tasks.set i t' := by
  simp only [stepTask, Option.bind_eq_some_iff, Option.map_eq_some_iff]
  constructor
  · rintro ⟨t, ht, ⟨s', t'⟩, ha, rfl⟩
    exact ⟨t, t', ht, ha, rfl⟩
  · rintro ⟨t, t', ht, ha, hq⟩
    exact ⟨t, ht, (q.shared, t'), ha, by rw [← hq]⟩

/-- Replacing one member of a list moves a sum by the difference of the two terms. -/
theorem sum_map_set {M : Type*} [AddCommGroup M] (f : τ → M) {l : List τ} {i : ℕ} {t : τ}
    (h : l[i]? = some t) (t' : τ) :
    ((l.set i t').map f).sum = (l.map f).sum - f t + f t' := by
  induction l generalizing i with
  | nil => simp at h
  | cons a l ih =>
    cases i with
    | zero =>
      obtain rfl : a = t := by simpa using h
      simp only [List.set_cons_zero, List.map_cons, List.sum_cons]
      abel
    | succ i =>
      simp only [List.set_cons_succ, List.map_cons, List.sum_cons, ih (by simpa using h)]
      abel

theorem forall_mem_set {J : τ → Prop} {l : List τ} (h : ∀ t ∈ l, J t) {i : ℕ} {t' : τ}
    (ht' : J t') : ∀ t ∈ l.set i t', J t := by
  intro t ht
  rcases List.mem_or_eq_of_mem_set ht with ht | rfl
  · exact h t ht
  · exact ht'

/-- What every step of a task preserves of that task holds of all tasks. -/
theorem stepTask_forall {act : σ → τ → α → Option (σ × τ)} {J : τ → Prop}
    (hact : ∀ s t a s' t', J t → act s t a = some (s', t') → J t')
    {p q : Pool σ τ} {i : ℕ} {a : α} (hp : ∀ t ∈ p.tasks, J t)
    (h : stepTask act p i a = some q) : ∀ t ∈ q.tasks, J t := by
  obtain ⟨t, t', ht, ha, hq⟩ := stepTask_eq_some.mp h
  rw [hq]
  exact forall_mem_set hp (hact _ _ _ _ _ (hp t (List.mem_of_getElem? ht)) ha)

/-- The balance of a pool: a measure of the shared state plus the sum over the tasks. -/
def balance (f : σ → ℤ) (g : τ → ℤ) (p : Pool σ τ) : ℤ := f p.shared + (p.tasks.map g).sum

theorem stepTask_balance {act : σ → τ → α → Option (σ × τ)} {f : σ → ℤ} {g : τ → ℤ}
    (hact : ∀ s t a s' t', act s t a = some (s', t') → f s' + g t' = f s + g t)
    {p q : Pool σ τ} {i : ℕ} {a : α} (h : stepTask act p i a = some q) :
    balance f g q = balance f g p := by
  obtain ⟨t, t', ht, ha, hq⟩ := stepTask_eq_some.mp h
  have hb := hact _ _ _ _ _ ha
  have hs := sum_map_set g ht t'
  unfold balance
  rw [hq, hs]
  linarith

section Runs
variable {start : κ → τ} {act : σ → τ → α → Option (σ × τ)} {env : σ → ε → σ}

theorem stepPool_balance {f : σ → ℤ} {g : τ → ℤ}
    (hact : ∀ s t a s' t', act s t a = some (s', t') → f s' + g t' = f s + g t)
    (henv : ∀ s e, f (env s e) = f s) (hstart : ∀ k, g (start k) = 0)
    {p q : Pool σ τ} {label : PoolLabel κ α ε} (h : stepPool start act env p label = some q) :
    balance f g q = balance f g p := by
  cases label with
  | spawn k =>
    cases h
    simp [balance, hstart k]
  | act i a => exact stepTask_balance hact h
  | env e =>
    cases h
    simp [balance, henv]

/-- A balance that no task moves and the environment leaves alone is the same after every
run, given that a task starts with nothing on its side of it. -/
theorem run_balance {f : σ → ℤ} {g : τ → ℤ}
    (hact : ∀ s t a s' t', act s t a = some (s', t') → f s' + g t' = f s + g t)
    (henv : ∀ s e, f (env s e) = f s) (hstart : ∀ k, g (start k) = 0)
    {p q : Pool σ τ} {as : List (PoolLabel κ α ε)}
    (h : run (stepPool start act env) p as = some q) : balance f g q = balance f g p := by
  refine run_invariant (I := fun r => balance f g r = balance f g p) ?_ rfl h
  intro r a s hr hs
  rw [← hr]
  exact stepPool_balance hact henv hstart hs

/-- A property of single tasks that new tasks have and steps preserve holds throughout. -/
theorem run_forall {J : τ → Prop}
    (hact : ∀ s t a s' t', J t → act s t a = some (s', t') → J t')
    (hstart : ∀ k, J (start k)) {p q : Pool σ τ} {as : List (PoolLabel κ α ε)}
    (hp : ∀ t ∈ p.tasks, J t) (h : run (stepPool start act env) p as = some q) :
    ∀ t ∈ q.tasks, J t := by
  refine run_invariant (I := fun r => ∀ t ∈ r.tasks, J t) ?_ hp h
  intro r a s hr hs
  cases a with
  | spawn k =>
    cases hs
    intro t ht
    rcases List.mem_append.mp ht with ht | ht
    · exact hr t ht
    · rw [List.mem_singleton.mp ht]
      exact hstart k
  | act i a => exact stepTask_forall hact hr hs
  | env e =>
    cases hs
    exact hr

/-- What every step preserves of a task holds of the task at one place throughout. -/
theorem run_getElem {J : τ → Prop}
    (hact : ∀ s t a s' t', J t → act s t a = some (s', t') → J t') {p q : Pool σ τ}
    {as : List (PoolLabel κ α ε)} {i : ℕ} (hp : ∃ t, p.tasks[i]? = some t ∧ J t)
    (h : run (stepPool start act env) p as = some q) : ∃ t, q.tasks[i]? = some t ∧ J t := by
  refine run_invariant (I := fun r => ∃ t, r.tasks[i]? = some t ∧ J t) ?_ hp h
  rintro r a s ⟨t, hi, ht⟩ hs
  cases a with
  | spawn k =>
    cases hs
    exact ⟨t, (List.getElem?_append_left (List.getElem?_eq_some_iff.mp hi).1).trans hi, ht⟩
  | act j a =>
    obtain ⟨u, u', hj, ha, hq⟩ := stepTask_eq_some.mp hs
    rw [hq]
    by_cases hij : j = i
    · subst hij
      obtain rfl : u = t := Option.some.inj (hj.symm.trans hi)
      exact ⟨u', List.getElem?_set_self (List.getElem?_eq_some_iff.mp hi).1, hact _ _ _ _ _ ht ha⟩
    · exact ⟨t, (List.getElem?_set_ne hij).trans hi, ht⟩
  | env e =>
    cases hs
    exact ⟨t, hi, ht⟩

end Runs
end Foundation
