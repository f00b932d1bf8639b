import GlobalpingProbe.Probe.OutcomeSignal
import Mathlib.Algebra.BigOperators.Group.Finset.Basic
import Mathlib.Algebra.Order.BigOperators.Group.Finset

/-! # The end of a connection is always noticed

However the steps of the calls are ordered, there are only finitely many of them, and when none
is left the waiter has returned. Each step uses up some of what the calls have left to do.
-/
namespace GlobalpingProbe.Probe
open Foundation Reconnect

/-- The label is a step of the waiter or of one of the first `n` calls. -/
def SignalLabel.Below (n : ℕ) : SignalLabel → Prop
  | .lock i | .test i | .store i | .notifyOne i | .unlock i => i < n
  | .notified | .waiterLock | .read => True

/-- The steps that a call of `signal` has left at most. -/
def SignalStage.remaining : SignalStage → ℕ
  | .calling => 5
  | .locked => 4
  | .unset => 3
  | .stored => 2
  | .finishing => 1
  | .returned => 0

/-- A parked waiter needs no step of its own to be woken. -/
def WaitStage.remaining : WaitStage → ℕ
  | .polling => 3
  | .parked | .woken => 2
  | .locked => 1
  | .returned _ => 0

def OutcomeSignal.remaining (n : ℕ) (s : OutcomeSignal) : ℕ :=
  ∑ i ∈ Finset.range n, (s.calls i).remaining + s.waiter.remaining

/-- A waiter is only woken for a value, and never parked beside a permit. -/
structure Poised (s : OutcomeSignal) : Prop where
  permit : s.permit = true → s.value ≠ none ∧ s.waiter ≠ .parked
  woken : s.waiter = .woken ∨ s.waiter = .locked → s.value ≠ none

section Step
variable {args : ℕ → ConnectOutcome} {s : OutcomeSignal} {l : SignalLabel} {n i : ℕ}
  {ls : List SignalLabel} {stage : SignalStage}

theorem Poised.next (hr : Recorded args (firstLock ls) s) (h : Poised s) (hl : s.Enabled l) :
    Poised (s.next args l) := by
  cases l with
  | lock i => exact ⟨h.permit, h.woken⟩
  | test i => exact ⟨h.permit, h.woken⟩
  | store i =>
    exact ⟨fun hp => ⟨Option.some_ne_none _, (h.permit hp).2⟩, fun _ => Option.some_ne_none _⟩
  | notifyOne i =>
    have hcall := hr.calls i
    rw [show s.calls i = .stored from hl] at hcall
    unfold OutcomeSignal.next OutcomeSignal.notify
    dsimp only
    split
    · next hparked => exact ⟨fun hp => absurd hparked (h.permit hp).2, fun _ => hcall.1⟩
    · next hparked => exact ⟨fun _ => ⟨hcall.1, hparked⟩, h.woken⟩
  | unlock i => exact ⟨h.permit, h.woken⟩
  | notified =>
    unfold OutcomeSignal.next
    dsimp only
    split
    · next hp => exact ⟨fun hno => absurd hno Bool.false_ne_true, fun _ => (h.permit hp).1⟩
    · next hp => exact ⟨fun hno => absurd hno hp, fun hw => by simp at hw⟩
  | waiterLock =>
    have hvalue := h.woken (.inl hl.1)
    exact ⟨fun _ => ⟨hvalue, by simp [OutcomeSignal.next]⟩, fun _ => hvalue⟩
  | read =>
    have hvalue := h.woken (.inr hl)
    unfold OutcomeSignal.next
    cases ho : s.value with
    | none => exact absurd ho hvalue
    | some outcome =>
      exact ⟨fun _ => ⟨Option.some_ne_none _, by simp⟩, fun _ => Option.some_ne_none _⟩

/-- A call that moves on changes its own share alone. -/
theorem remaining_setCall (hi : i < n) :
    ∑ j ∈ Finset.range n, ((s.setCall i stage).calls j).remaining + (s.calls i).remaining =
      ∑ j ∈ Finset.range n, (s.calls j).remaining + stage.remaining := by
  have hmem : i ∈ Finset.range n := Finset.mem_range.mpr hi
  have hown : (s.setCall i stage).calls i = stage := by simp
  have hothers : ∑ j ∈ (Finset.range n).erase i, ((s.setCall i stage).calls j).remaining =
      ∑ j ∈ (Finset.range n).erase i, (s.calls j).remaining := by
    apply Finset.sum_congr rfl
    intro j hj
    rw [OutcomeSignal.setCall_calls, if_neg (Finset.ne_of_mem_erase hj)]
  rw [← Finset.add_sum_erase _ _ hmem, ← Finset.add_sum_erase _ (fun j => (s.calls j).remaining) hmem,
    hown, hothers]
  omega

theorem remaining_setCall_lt (hi : i < n) (hstage : stage.remaining < (s.calls i).remaining) :
    (s.setCall i stage).remaining n < s.remaining n := by
  have hsum : ∑ j ∈ Finset.range n, ((s.setCall i stage).calls j).remaining +
      (s.calls i).remaining = ∑ j ∈ Finset.range n, (s.calls j).remaining + stage.remaining :=
    remaining_setCall hi
  unfold OutcomeSignal.remaining
  rw [OutcomeSignal.setCall_waiter]
  omega

theorem remaining_lt_of_waiter {t : OutcomeSignal} (hcalls : t.calls = s.calls)
    (h : t.waiter.remaining < s.waiter.remaining) : t.remaining n < s.remaining n := by
  unfold OutcomeSignal.remaining
  rw [hcalls]
  exact Nat.add_lt_add_left h _

/-- Every step that can be taken brings the end nearer. -/
theorem next_remaining (h : Poised s) (hl : s.Enabled l) (hn : l.Below n) :
    (s.next args l).remaining n < s.remaining n := by
  cases l with
  | lock i =>
    have hlt : SignalStage.locked.remaining < (s.calls i).remaining := by
      rw [hl.1]
      decide
    exact remaining_setCall_lt hn hlt
  | test i =>
    refine remaining_setCall_lt hn ?_
    rw [show s.calls i = .locked from hl]
    split <;> decide
  | store i =>
    have hlt : SignalStage.stored.remaining < (s.calls i).remaining := by
      rw [show s.calls i = .unset from hl]
      decide
    exact remaining_setCall_lt hn hlt
  | notifyOne i =>
    have hlt : SignalStage.finishing.remaining < (s.calls i).remaining := by
      rw [show s.calls i = .stored from hl]
      decide
    have hmoved := remaining_setCall_lt hn hlt
    refine lt_of_eq_of_lt ?_ hmoved
    unfold OutcomeSignal.remaining OutcomeSignal.next
    rw [OutcomeSignal.notify_calls, OutcomeSignal.notify_waiter]
    split
    · next hparked => rw [hparked]; rfl
    · rfl
  | unlock i =>
    have hlt : SignalStage.returned.remaining < (s.calls i).remaining := by
      rw [show s.calls i = .finishing from hl]
      decide
    exact remaining_setCall_lt hn hlt
  | notified =>
    have hwoken : WaitStage.woken.remaining < s.waiter.remaining := by
      rw [show s.waiter = .polling from hl]
      decide
    unfold OutcomeSignal.next
    dsimp only
    split
    · exact remaining_lt_of_waiter rfl hwoken
    · exact remaining_lt_of_waiter rfl hwoken
  | waiterLock =>
    have hlocked : WaitStage.locked.remaining < s.waiter.remaining := by
      rw [hl.1]
      decide
    exact remaining_lt_of_waiter rfl hlocked
  | read =>
    have hvalue := h.woken (.inr hl)
    have hreturned : 0 < s.waiter.remaining := by
      rw [show s.waiter = .locked from hl]
      decide
    unfold OutcomeSignal.next
    cases ho : s.value with
    | none => exact absurd ho hvalue
    | some outcome => exact remaining_lt_of_waiter rfl hreturned

theorem next_calls_beyond (hn : l.Below n) (hi : n ≤ i) (hcall : s.calls i = .calling) :
    (s.next args l).calls i = .calling := by
  cases l with
  | lock j | test j | store j | unlock j =>
    refine (OutcomeSignal.setCall_calls s j _ i).trans ?_
    rw [if_neg (ne_of_gt (lt_of_lt_of_le hn hi))]
    exact hcall
  | notifyOne j =>
    refine (congrFun (OutcomeSignal.notify_calls _) i).trans ?_
    rw [OutcomeSignal.setCall_calls, if_neg (ne_of_gt (lt_of_lt_of_le hn hi))]
    exact hcall
  | notified =>
    unfold OutcomeSignal.next
    dsimp only
    split
    · exact hcall
    · exact hcall
  | waiterLock => exact hcall
  | read => exact hcall

end Step

/-- What holds in a state that is reached with steps of the first `n` calls alone. -/
structure Terminating (args : ℕ → ConnectOutcome) (n : ℕ) (ls : List SignalLabel)
    (s : OutcomeSignal) : Prop where
  inv : SignalInv args ls s
  poised : Poised s
  budget : ls.length + s.remaining n ≤ 5 * n + 3
  beyond : ∀ i, n ≤ i → s.calls i = .calling

theorem terminating_run {args : ℕ → ConnectOutcome} {n : ℕ} {ls : List SignalLabel}
    {s : OutcomeSignal} (hn : ∀ l ∈ ls, l.Below n)
    (h : run (OutcomeSignal.step args) .new ls = some s) : Terminating args n ls s := by
  refine run_invariant_of_history (I := fun ls s => (∀ l ∈ ls, l.Below n) → Terminating args n ls s)
    ?_ ?_ h hn
  · intro _
    refine ⟨signalInv_new args, ⟨nofun, by simp [OutcomeSignal.new]⟩, ?_, fun _ _ => rfl⟩
    simp [OutcomeSignal.remaining, OutcomeSignal.new, SignalStage.remaining, WaitStage.remaining]
    omega
  · intro ls l s t ih hstep hls
    have hall := List.forall_mem_append.mp hls
    have hbelow : l.Below n := hall.2 l (List.mem_singleton_self l)
    obtain ⟨hinv, hpoised, hbudget, hbeyond⟩ := ih hall.1
    obtain ⟨hl, rfl⟩ := OutcomeSignal.step_eq_some.mp hstep
    have hless : (s.next args l).remaining n < s.remaining n :=
      next_remaining hpoised hl hbelow
    refine ⟨hinv.step hstep, hpoised.next hinv.recorded hl, ?_,
      fun i hi => next_calls_beyond hbelow hi (hbeyond i hi)⟩
    rw [List.length_append, List.length_singleton]
    omega

section Stuck
variable {args : ℕ → ConnectOutcome} {n : ℕ} {ls : List SignalLabel} {s : OutcomeSignal}

/-- Where no step is left, nobody has the mutex any more. -/
theorem Terminating.mutex_free (h : Terminating args n ls s)
    (hstuck : ∀ l : SignalLabel, l.Below n → ¬ s.Enabled l) : s.mutex = none := by
  cases hm : s.mutex with
  | none => rfl
  | some holder =>
    cases holder with
    | waiter => exact absurd (h.inv.exclusive.waiter.mpr hm) (hstuck .read trivial)
    | signal i =>
      have hholds := (h.inv.exclusive.signal i).mpr hm
      have hi : i < n := by
        by_contra hout
        rw [h.beyond i (not_lt.mp hout)] at hholds
        cases hholds
      cases hstage : s.calls i with
      | calling | returned => rw [hstage] at hholds; cases hholds
      | locked => exact absurd hstage (hstuck (.test i) hi)
      | unset => exact absurd hstage (hstuck (.store i) hi)
      | stored => exact absurd hstage (hstuck (.notifyOne i) hi)
      | finishing => exact absurd hstage (hstuck (.unlock i) hi)

theorem Terminating.calls_returned (h : Terminating args n ls s)
    (hstuck : ∀ l : SignalLabel, l.Below n → ¬ s.Enabled l) {i : ℕ} (hi : i < n) :
    s.calls i = .returned := by
  have hfree := h.mutex_free hstuck
  have hnot : ¬ (s.calls i).holds = true := by
    rw [h.inv.exclusive.signal i, hfree]
    simp
  cases hstage : s.calls i with
  | calling => exact absurd ⟨hstage, hfree⟩ (hstuck (.lock i) hi)
  | locked | unset | stored | finishing => rw [hstage] at hnot; exact absurd rfl hnot
  | returned => rfl

theorem Terminating.waiter_returned (h : Terminating args n ls s)
    (hstuck : ∀ l : SignalLabel, l.Below n → ¬ s.Enabled l) (hn : 0 < n) :
    ∃ i, firstLock ls = some i ∧ s.waiter = .returned (args i) := by
  have hfree := h.mutex_free hstuck
  have hvalue : s.value ≠ none := by
    have hcall := h.inv.recorded.calls 0
    rwa [h.calls_returned hstuck hn] at hcall
  rcases h.inv.awake.wakeup hvalue with ⟨outcome, hreturned⟩ | hpermit | ⟨i, -, hstored⟩ | hw | hw
  · obtain ⟨i, hi, rfl⟩ := h.inv.recorded.value outcome (h.inv.awake.returned outcome hreturned)
    exact ⟨i, hi, hreturned⟩
  · -- a permit is there for a waiter that is neither parked nor on its way to the value
    have hnot := (h.poised.permit hpermit).2
    cases hw : s.waiter with
    | polling => exact absurd hw (hstuck .notified trivial)
    | parked => exact absurd hw hnot
    | woken => exact absurd ⟨hw, hfree⟩ (hstuck .waiterLock trivial)
    | locked => exact absurd hw (hstuck .read trivial)
    | returned outcome =>
      obtain ⟨i, hi, rfl⟩ := h.inv.recorded.value outcome (h.inv.awake.returned outcome hw)
      exact ⟨i, hi, rfl⟩
  · exfalso
    by_cases hi : i < n
    · rw [h.calls_returned hstuck hi] at hstored
      cases hstored
    · rw [h.beyond i (not_lt.mp hi)] at hstored
      cases hstored
  · exact absurd ⟨hw, hfree⟩ (hstuck .waiterLock trivial)
  · exact absurd hw (hstuck .read trivial)

end Stuck

/-- However `n` calls of `signal` and the call of `wait` are scheduled, they take at most `5n + 3`
steps, and where none of them can take a step all have returned, `wait` with the outcome of the
call that took the mutex first. -/
theorem signals_terminate {args : ℕ → ConnectOutcome} {n : ℕ} {ls : List SignalLabel}
    {s : OutcomeSignal} (hn : ∀ l ∈ ls, l.Below n)
    (h : run (OutcomeSignal.step args) .new ls = some s) :
    ls.length ≤ 5 * n + 3 ∧
    ((∀ l : SignalLabel, l.Below n → ¬ s.Enabled l) → 0 < n →
      (∀ i < n, s.calls i = .returned) ∧
        ∃ i, firstLock ls = some i ∧ s.waiter = .returned (args i)) := by
  have hrun := terminating_run hn h
  refine ⟨(Nat.le_add_right _ _).trans hrun.budget, fun hstuck hpos => ⟨?_, ?_⟩⟩
  · exact fun i hi => hrun.calls_returned hstuck hi
  · exact hrun.waiter_returned hstuck hpos

/-- Nothing is left to do after these steps of two calls. -/
theorem contendedSignals_terminate : ∃ s,
    run (OutcomeSignal.step contendedArgs) .new contendedSignals = some s ∧
      (∀ i < 2, s.calls i = .returned) ∧
      ∃ i, firstLock contendedSignals = some i ∧ s.waiter = .returned (contendedArgs i) := by
  have hbelow : ∀ l ∈ contendedSignals, l.Below 2 := by
    simp [contendedSignals, SignalLabel.Below]
  obtain ⟨s, hs⟩ : ∃ s, run (OutcomeSignal.step contendedArgs) .new contendedSignals = some s :=
    ⟨_, rfl⟩
  refine ⟨s, hs, (signals_terminate hbelow hs).2 ?_ (by decide)⟩
  intro l hl
  cases hs
  cases l with
  | lock i | test i | store i | notifyOne i | unlock i =>
    have hi : i = 0 ∨ i = 1 := by
      have hlt : i < 2 := hl
      omega
    rcases hi with rfl | rfl
    · exact (by decide)
    · exact (by decide)
  | notified | waiterLock | read => exact (by decide)

end GlobalpingProbe.Probe
