import Mathlib.Algebra.BigOperators.Group.List.Basic
import Mathlib.Algebra.Ring.Nat
import Mathlib.Data.List.Basic

/-! # A counting semaphore with a queue of batch requests

Single permits are taken without waiting. A batch request takes what is available at once
and queues for the rest; permits that are given back go to the queue first, in order, and
become available only when every queued request is satisfied.
-/
namespace Foundation

/-- A queued batch request: the permits it asks for and those it has been granted. -/
structure Waiter where
  needed : ℕ
  granted : ℕ
  deriving DecidableEq, Repr

structure Semaphore where
  available : ℕ
  waiters : List Waiter
  deriving DecidableEq, Repr

namespace Semaphore

def new (permits : ℕ) : Semaphore := ⟨permits, []⟩

def tryAcquire (s : Semaphore) : Option Semaphore :=
  if 0 < s.available then some { s with available := s.available - 1 } else none

/-- Hand `permits` to the queue, first request first; what is left over comes back. -/
def assign : ℕ → List Waiter → ℕ × List Waiter
  | permits, [] => (permits, [])
  | permits, w :: ws =>
    let given := min permits (w.needed - w.granted)
    let later := assign (permits - given) ws
    (later.1, { w with granted := w.granted + given } :: later.2)

def release (permits : ℕ) (s : Semaphore) : Semaphore :=
  let assigned := assign permits s.waiters
  ⟨s.available + assigned.1, assigned.2⟩

/-- Queue a request for `permits`, with what is available now already granted. -/
def enqueue (permits : ℕ) (s : Semaphore) : Semaphore :=
  let given := min s.available permits
  ⟨s.available - given, s.waiters ++ [⟨permits, given⟩]⟩

/-- The first request leaves the queue with its permits once it is satisfied. -/
def finish (s : Semaphore) : Option Semaphore :=
  match s.waiters with
  | [] => none
  | w :: ws => if w.granted = w.needed then some { s with waiters := ws } else none

/-- The first request is dropped and what it was granted is given back. -/
def cancel (s : Semaphore) : Semaphore :=
  match s.waiters with
  | [] => s
  | w :: ws => release w.granted { s with waiters := ws }

/-- The permits nobody holds: those available and those granted to queued requests. -/
def unheld (s : Semaphore) : ℕ := s.available + (s.waiters.map Waiter.granted).sum

@[simp] theorem unheld_new (permits : ℕ) : (new permits).unheld = permits := rfl

theorem assign_total (permits : ℕ) (ws : List Waiter) :
    (assign permits ws).1 + ((assign permits ws).2.map Waiter.granted).sum =
      permits + (ws.map Waiter.granted).sum := by
  induction ws generalizing permits with
  | nil => simp [assign]
  | cons w ws ih =>
    have hl := ih (permits - min permits (w.needed - w.granted))
    simp only [assign, List.map_cons, List.sum_cons]
    omega

theorem assign_needed (permits : ℕ) (ws : List Waiter) :
    (assign permits ws).2.map Waiter.needed = ws.map Waiter.needed := by
  induction ws generalizing permits with
  | nil => rfl
  | cons w ws ih => simp [assign, ih]

@[simp] theorem unheld_release (permits : ℕ) (s : Semaphore) :
    (release permits s).unheld = s.unheld + permits := by
  have h := assign_total permits s.waiters
  simp only [unheld, release]
  omega

@[simp] theorem release_needed (permits : ℕ) (s : Semaphore) :
    (release permits s).waiters.map Waiter.needed = s.waiters.map Waiter.needed :=
  assign_needed permits s.waiters

theorem unheld_tryAcquire {s t : Semaphore} (h : s.tryAcquire = some t) :
    t.unheld + 1 = s.unheld ∧ t.waiters = s.waiters := by
  unfold tryAcquire at h
  split at h
  · next ha =>
    cases h
    refine ⟨?_, rfl⟩
    simp only [unheld]
    omega
  · cases h

theorem tryAcquire_isSome {s : Semaphore} : s.tryAcquire.isSome = true ↔ 0 < s.available := by
  unfold tryAcquire
  split <;> simp_all

@[simp] theorem unheld_enqueue (permits : ℕ) (s : Semaphore) :
    (enqueue permits s).unheld = s.unheld := by
  simp only [unheld, enqueue, List.map_append, List.sum_append, List.map_cons, List.map_nil,
    List.sum_cons, List.sum_nil]
  omega

@[simp] theorem unheld_cancel (s : Semaphore) : s.cancel.unheld = s.unheld := by
  unfold cancel
  split
  · rfl
  · next w ws h =>
    rw [unheld_release]
    simp only [unheld, h, List.map_cons, List.sum_cons]
    omega

theorem cancel_waiters_length (s : Semaphore) : s.cancel.waiters.length = s.waiters.length - 1 := by
  unfold cancel
  split
  · next h => simp [h]
  · next w ws h =>
    have hn := congrArg List.length (release_needed w.granted { s with waiters := ws })
    rw [List.length_map, List.length_map] at hn
    rw [hn, h, List.length_cons, Nat.add_sub_cancel]

/-- A satisfied request is worth as many permits that nobody else holds. -/
theorem unheld_finish {s t : Semaphore} (h : s.finish = some t) :
    ∃ w ws, s.waiters = w :: ws ∧ t.waiters = ws ∧ t.unheld + w.needed = s.unheld := by
  unfold finish at h
  split at h
  · cases h
  · next w ws hw =>
    split at h
    · next hg =>
      cases h
      refine ⟨w, ws, hw, rfl, ?_⟩
      simp only [unheld, hw, List.map_cons, List.sum_cons]
      omega
    · cases h

end Semaphore
end Foundation
