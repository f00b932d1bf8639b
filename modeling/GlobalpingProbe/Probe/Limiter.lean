import GlobalpingProbe.Foundation.Semaphore

/-! # The measurement limiter and the measurement counters

The limiter is the semaphore with its capacity; a slot is one permit. The counters are
unbounded here: one increment for each measurement never wraps a 64-bit count.
-/
namespace GlobalpingProbe.Probe
open Foundation

def maxConcurrent : ℕ := 3

structure MeasurementLimiter where
  semaphore : Semaphore
  capacity : ℕ
  deriving DecidableEq, Repr

namespace MeasurementLimiter

def withCapacity (n : ℕ) : MeasurementLimiter := ⟨.new n, n⟩
def new : MeasurementLimiter := withCapacity maxConcurrent

def tryAcquire (l : MeasurementLimiter) : Option MeasurementLimiter :=
  l.semaphore.tryAcquire.map (fun s => { l with semaphore := s })

def dropSlot (l : MeasurementLimiter) : MeasurementLimiter :=
  { l with semaphore := l.semaphore.release 1 }

def inFlight (l : MeasurementLimiter) : ℕ := l.capacity - l.semaphore.available

/-- `wait_idle` asks for all permits at once and queues for those that are missing. -/
def beginWaitIdle (l : MeasurementLimiter) : MeasurementLimiter :=
  { l with semaphore := l.semaphore.enqueue l.capacity }

/-- `wait_idle` returns once its request is satisfied, and the permits go straight back. -/
def endWaitIdle (l : MeasurementLimiter) : Option MeasurementLimiter :=
  l.semaphore.finish.map (fun s => { l with semaphore := s.release l.capacity })

/-- The timeout around `wait_idle` drops its request. -/
def cancelWaitIdle (l : MeasurementLimiter) : MeasurementLimiter :=
  { l with semaphore := l.semaphore.cancel }

def unheld (l : MeasurementLimiter) : ℕ := l.semaphore.unheld

@[simp] theorem unheld_new : new.unheld = maxConcurrent := rfl
@[simp] theorem unheld_withCapacity (n : ℕ) : (withCapacity n).unheld = n := rfl
@[simp] theorem capacity_new : new.capacity = maxConcurrent := rfl
@[simp] theorem capacity_withCapacity (n : ℕ) : (withCapacity n).capacity = n := rfl

@[simp] theorem unheld_dropSlot (l : MeasurementLimiter) : l.dropSlot.unheld = l.unheld + 1 :=
  Semaphore.unheld_release 1 l.semaphore

@[simp] theorem capacity_dropSlot (l : MeasurementLimiter) : l.dropSlot.capacity = l.capacity := rfl

theorem tryAcquire_spec {l l' : MeasurementLimiter} (h : l.tryAcquire = some l') :
    l'.unheld + 1 = l.unheld ∧ l'.capacity = l.capacity ∧
      l'.semaphore.waiters = l.semaphore.waiters := by
  obtain ⟨s, hs, rfl⟩ := Option.map_eq_some_iff.mp h
  obtain ⟨hu, hw⟩ := Semaphore.unheld_tryAcquire hs
  exact ⟨hu, rfl, hw⟩

/-- With no request queued, the slots nobody holds are the available ones. -/
theorem unheld_eq_available {l : MeasurementLimiter} (h : l.semaphore.waiters = []) :
    l.unheld = l.semaphore.available := by
  simp [unheld, Semaphore.unheld, h]

end MeasurementLimiter

structure MeasurementStats where
  started : ℕ
  finished : ℕ
  deriving DecidableEq, Repr

namespace MeasurementStats

def new : MeasurementStats := ⟨0, 0⟩
def recordStart (s : MeasurementStats) : MeasurementStats := { s with started := s.started + 1 }
def recordFinish (s : MeasurementStats) : MeasurementStats := { s with finished := s.finished + 1 }
def swapStarted (s : MeasurementStats) : ℕ × MeasurementStats := (s.started, { s with started := 0 })
def swapFinished (s : MeasurementStats) : ℕ × MeasurementStats :=
  (s.finished, { s with finished := 0 })

/-- The two swaps with nothing between them; each of them is atomic, not both together. -/
def take (s : MeasurementStats) : (ℕ × ℕ) × MeasurementStats :=
  ((s.swapStarted.1, s.swapStarted.2.swapFinished.1), s.swapStarted.2.swapFinished.2)

end MeasurementStats
end GlobalpingProbe.Probe
