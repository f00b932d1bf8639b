import GlobalpingProbe.Foundation.Transition
import GlobalpingProbe.Probe.Reconnect
import Mathlib.Logic.Function.Basic

/-! # The signal that ends a connection

The handlers of the events and the loop that waits for the end of the connection share a value
behind a mutex and a notification. Any number of handlers signal, and one call waits; each label
lets one of them make one step.
-/
namespace GlobalpingProbe.Probe
open Foundation Reconnect

/-- How far a call of `signal` has come. -/
inductive SignalStage where
  | calling
  | locked
  | unset
  | stored
  | finishing
  | returned
  deriving DecidableEq, Repr

/-- How far the call of `wait` has come. -/
inductive WaitStage where
  | polling
  | parked
  | woken
  | locked
  | returned (outcome : ConnectOutcome)
  deriving DecidableEq, Repr

inductive Holder where
  | signal (i : ℕ)
  | waiter
  deriving DecidableEq, Repr

/-- The shared value and notification, with the stages of the calls. -/
structure OutcomeSignal where
  value : Option ConnectOutcome
  mutex : Option Holder
  permit : Bool
  calls : ℕ → SignalStage
  waiter : WaitStage

inductive SignalLabel where
  | lock (i : ℕ)
  | test (i : ℕ)
  | store (i : ℕ)
  | notifyOne (i : ℕ)
  | unlock (i : ℕ)
  | notified
  | waiterLock
  | read
  deriving DecidableEq, Repr

namespace OutcomeSignal

def new : OutcomeSignal := ⟨none, none, false, fun _ => .calling, .polling⟩

def setCall (s : OutcomeSignal) (i : ℕ) (stage : SignalStage) : OutcomeSignal :=
  { s with calls := Function.update s.calls i stage }

/-- The waiter that is parked is woken; without one, a single permit is kept. -/
def notify (s : OutcomeSignal) : OutcomeSignal :=
  if s.waiter = .parked then { s with waiter := .woken } else { s with permit := true }

/-- Whether a step can be taken: where its call stands, and whether the mutex is free. -/
def Enabled (s : OutcomeSignal) : SignalLabel → Prop
  | .lock i => s.calls i = .calling ∧ s.mutex = none
  | .test i => s.calls i = .locked
  | .store i => s.calls i = .unset
  | .notifyOne i => s.calls i = .stored
  | .unlock i => s.calls i = .finishing
  | .notified => s.waiter = .polling
  | .waiterLock => s.waiter = .woken ∧ s.mutex = none
  | .read => s.waiter = .locked

instance (s : OutcomeSignal) : DecidablePred s.Enabled
  | .lock i => inferInstanceAs (Decidable (s.calls i = .calling ∧ s.mutex = none))
  | .test i => inferInstanceAs (Decidable (s.calls i = .locked))
  | .store i => inferInstanceAs (Decidable (s.calls i = .unset))
  | .notifyOne i => inferInstanceAs (Decidable (s.calls i = .stored))
  | .unlock i => inferInstanceAs (Decidable (s.calls i = .finishing))
  | .notified => inferInstanceAs (Decidable (s.waiter = .polling))
  | .waiterLock => inferInstanceAs (Decidable (s.waiter = .woken ∧ s.mutex = none))
  | .read => inferInstanceAs (Decidable (s.waiter = .locked))

/-- What a step does; `args` are the outcomes that `signal` is called with. -/
def next (args : ℕ → ConnectOutcome) (s : OutcomeSignal) : SignalLabel → OutcomeSignal
  | .lock i => { s.setCall i .locked with mutex := some (.signal i) }
  | .test i => s.setCall i (if s.value.isNone then .unset else .finishing)
  | .store i => { s.setCall i .stored with value := some (args i) }
  | .notifyOne i => (s.setCall i .finishing).notify
  | .unlock i => { s.setCall i .returned with mutex := none }
  | .notified =>
    if s.permit then { s with permit := false, waiter := .woken } else { s with waiter := .parked }
  | .waiterLock => { s with mutex := some .waiter, waiter := .locked }
  | .read =>
    { s with
      mutex := none
      waiter := match s.value with
        | some outcome => .returned outcome
        | none => .polling }

def step (args : ℕ → ConnectOutcome) (s : OutcomeSignal) (l : SignalLabel) :
    Option OutcomeSignal :=
  if s.Enabled l then some (s.next args l) else none

theorem step_eq_some {args : ℕ → ConnectOutcome} {s t : OutcomeSignal} {l : SignalLabel} :
    s.step args l = some t ↔ s.Enabled l ∧ s.next args l = t := by
  rw [step, Option.ite_none_right_eq_some, Option.some_inj]

section Steps
variable (s : OutcomeSignal) (i : ℕ) (stage : SignalStage)

@[simp] theorem setCall_value : (s.setCall i stage).value = s.value := rfl
@[simp] theorem setCall_mutex : (s.setCall i stage).mutex = s.mutex := rfl
@[simp] theorem setCall_permit : (s.setCall i stage).permit = s.permit := rfl
@[simp] theorem setCall_waiter : (s.setCall i stage).waiter = s.waiter := rfl
@[simp] theorem setCall_calls (j : ℕ) :
    (s.setCall i stage).calls j = if j = i then stage else s.calls j :=
  Function.update_apply _ _ _ _

@[simp] theorem notify_value : s.notify.value = s.value := by
  unfold notify
  split <;> rfl

@[simp] theorem notify_mutex : s.notify.mutex = s.mutex := by
  unfold notify
  split <;> rfl

@[simp] theorem notify_calls : s.notify.calls = s.calls := by
  unfold notify
  split <;> rfl

theorem notify_waiter : s.notify.waiter = if s.waiter = .parked then .woken else s.waiter := by
  unfold notify
  split <;> rfl

end Steps

end OutcomeSignal

/-- The call of `signal` that took the mutex first. -/
def firstLock (ls : List SignalLabel) : Option ℕ :=
  ls.findSome? (fun l => match l with
    | .lock i => some i
    | _ => none)

/-- The stages of a call that has the mutex. -/
def SignalStage.holds : SignalStage → Bool
  | .locked | .unset | .stored | .finishing => true
  | .calling | .returned => false

/-- Who has the mutex is between its lock and its unlock. -/
structure Exclusive (s : OutcomeSignal) : Prop where
  signal : ∀ i, (s.calls i).holds = true ↔ s.mutex = some (.signal i)
  waiter : s.waiter = .locked ↔ s.mutex = some .waiter

/-- What the stage of a call says about the value and about the call that was first. -/
def SignalStage.Agrees (first : Option ℕ) (value : Option ConnectOutcome) (i : ℕ) :
    SignalStage → Prop
  | .calling => True
  | .locked => first ≠ none
  | .unset => value = none ∧ first = some i
  | .stored => value ≠ none ∧ first = some i
  | .finishing | .returned => value ≠ none

/-- The value is that of the first call, which keeps the mutex until the value is there. -/
structure Recorded (args : ℕ → ConnectOutcome) (first : Option ℕ) (s : OutcomeSignal) : Prop where
  calls : ∀ i, (s.calls i).Agrees first s.value i
  pending : ∀ i, first = some i → s.value = none → s.mutex = some (.signal i)
  value : ∀ outcome, s.value = some outcome → ∃ i, first = some i ∧ outcome = args i

/-- A permit is there, the call that stored the value has not notified yet, or the waiter was
woken and has not read the value yet. -/
def WakeupPending (first : Option ℕ) (s : OutcomeSignal) : Prop :=
  s.permit = true ∨ (∃ i, first = some i ∧ s.calls i = .stored) ∨ s.waiter = .woken ∨
    s.waiter = .locked

structure Awake (first : Option ℕ) (s : OutcomeSignal) : Prop where
  returned : ∀ outcome, s.waiter = .returned outcome → s.value = some outcome
  wakeup : s.value ≠ none → (∃ outcome, s.waiter = .returned outcome) ∨ WakeupPending first s

section Mutex
variable {args : ℕ → ConnectOutcome} {s : OutcomeSignal} {l : SignalLabel} {i : ℕ}
  {stage : SignalStage} {mutex : Option Holder}

/-- One call moves on and the mutex with it. -/
theorem holds_setCall (h : ∀ j, (s.calls j).holds = true ↔ s.mutex = some (.signal j))
    (hi : stage.holds = true ↔ mutex = some (.signal i))
    (hj : ∀ j, j ≠ i → (s.mutex = some (.signal j) ↔ mutex = some (.signal j))) (j : ℕ) :
    ((s.setCall i stage).calls j).holds = true ↔ mutex = some (.signal j) := by
  rw [OutcomeSignal.setCall_calls]
  by_cases hij : j = i
  · subst hij
    rw [if_pos rfl]
    exact hi
  · rw [if_neg hij, h j]
    exact hj j hij

/-- A call that has the mutex goes on without giving it back. -/
theorem Exclusive.setCall (h : Exclusive s) (hcall : (s.calls i).holds = true)
    (hstage : stage.holds = true) : Exclusive (s.setCall i stage) := by
  constructor
  · exact holds_setCall h.signal (iff_of_true hstage ((h.signal i).mp hcall)) (fun _ _ => Iff.rfl)
  · exact h.waiter

theorem Exclusive.next (h : Exclusive s) (hl : s.Enabled l) : Exclusive (s.next args l) := by
  cases l with
  | lock i =>
    obtain ⟨-, hfree⟩ := hl
    constructor
    · refine holds_setCall h.signal (iff_of_true rfl rfl) (fun j hj => ?_)
      rw [hfree]
      simp [OutcomeSignal.next, Ne.symm hj]
    · refine iff_of_false (fun hw => ?_) (by simp [OutcomeSignal.next])
      cases hfree.symm.trans (h.waiter.mp hw)
  | test i =>
    have hcall : (s.calls i).holds = true := by rw [show s.calls i = .locked from hl]; rfl
    exact h.setCall hcall (by split <;> rfl)
  | store i =>
    have hcall : (s.calls i).holds = true := by rw [show s.calls i = .unset from hl]; rfl
    have hset : Exclusive (s.setCall i .stored) := h.setCall hcall rfl
    exact ⟨hset.signal, hset.waiter⟩
  | notifyOne i =>
    have hcall : (s.calls i).holds = true := by rw [show s.calls i = .stored from hl]; rfl
    have hset : Exclusive (s.setCall i .finishing) := h.setCall hcall rfl
    constructor
    · intro j
      simp only [OutcomeSignal.next, OutcomeSignal.notify_calls, OutcomeSignal.notify_mutex]
      exact hset.signal j
    · simp only [OutcomeSignal.next, OutcomeSignal.notify_waiter, OutcomeSignal.notify_mutex]
      rw [← hset.waiter]
      split
      · next hparked => exact iff_of_false (by simp) (by rw [hparked]; simp)
      · rfl
  | unlock i =>
    have hcall : (s.calls i).holds = true := by rw [show s.calls i = .finishing from hl]; rfl
    have hmutex := (h.signal i).mp hcall
    constructor
    · refine holds_setCall h.signal (by simp [SignalStage.holds, OutcomeSignal.next])
        (fun j hj => ?_)
      rw [hmutex]
      simp [OutcomeSignal.next, Ne.symm hj]
    · refine iff_of_false (fun hw => ?_) (by simp [OutcomeSignal.next])
      cases hmutex.symm.trans (h.waiter.mp hw)
  | notified =>
    have hnone : s.mutex ≠ some .waiter := by
      intro hm
      cases (show s.waiter = .polling from hl).symm.trans (h.waiter.mpr hm)
    unfold OutcomeSignal.next
    dsimp only
    split
    · exact ⟨h.signal, iff_of_false (by simp) hnone⟩
    · exact ⟨h.signal, iff_of_false (by simp) hnone⟩
  | waiterLock =>
    obtain ⟨-, hfree⟩ := hl
    refine ⟨fun j => ?_, iff_of_true rfl rfl⟩
    refine (h.signal j).trans ?_
    rw [hfree]
    simp [OutcomeSignal.next]
  | read =>
    have hmutex := h.waiter.mp hl
    constructor
    · intro j
      refine (h.signal j).trans ?_
      rw [hmutex]
      simp [OutcomeSignal.next]
    · refine iff_of_false ?_ (by simp [OutcomeSignal.next])
      unfold OutcomeSignal.next
      cases s.value <;> simp

end Mutex

section Value
variable {args : ℕ → ConnectOutcome} {first : Option ℕ} {s : OutcomeSignal} {l : SignalLabel}
  {i : ℕ} {stage : SignalStage}

@[simp] theorem firstLock_nil : firstLock [] = none := rfl

theorem firstLock_append (ls : List SignalLabel) (l : SignalLabel) :
    firstLock (ls ++ [l]) = (firstLock ls).or (firstLock [l]) := List.findSome?_append

/-- Only a `lock` can be the first one. -/
theorem or_firstLock (hl : ∀ i, l ≠ .lock i) : first.or (firstLock [l]) = first := by
  cases l with
  | lock i => exact absurd rfl (hl i)
  | _ => exact Option.or_none

/-- A call that moves on, with its own stage justified. -/
theorem agrees_setCall (h : ∀ j, (s.calls j).Agrees first s.value j)
    (hi : stage.Agrees first s.value i) (j : ℕ) :
    ((s.setCall i stage).calls j).Agrees first s.value j := by
  rw [OutcomeSignal.setCall_calls]
  by_cases hij : j = i
  · subst hij
    rw [if_pos rfl]
    exact hi
  · rw [if_neg hij]
    exact h j

/-- What a stage says stays true when another call takes the mutex first. -/
theorem agrees_or {value : Option ConnectOutcome} {other : Option ℕ} (h : stage.Agrees first value i) :
    stage.Agrees (first.or other) value i := by
  cases first with
  | some k => exact h
  | none =>
    cases stage with
    | calling => trivial
    | locked => exact absurd rfl h
    | unset | stored => cases h.2
    | finishing | returned => exact h

/-- The first call stores; no other call was told that there is no value. -/
theorem agrees_store (h : ∀ j, (s.calls j).Agrees first s.value j) (hi : s.calls i = .unset)
    (outcome : ConnectOutcome) (j : ℕ) :
    ((s.setCall i .stored).calls j).Agrees first (some outcome) j := by
  have hstorer := h i
  rw [hi] at hstorer
  rw [OutcomeSignal.setCall_calls]
  by_cases hij : j = i
  · subst hij
    rw [if_pos rfl]
    exact ⟨Option.some_ne_none _, hstorer.2⟩
  · rw [if_neg hij]
    have hj := h j
    cases hstage : s.calls j with
    | calling => trivial
    | locked => rw [hstage] at hj; exact hj
    | unset =>
      rw [hstage] at hj
      exact absurd (Option.some.inj (hj.2.symm.trans hstorer.2)) hij
    | stored => rw [hstage] at hj; exact absurd hstorer.1 hj.1
    | finishing | returned => rw [hstage] at hj; exact absurd hstorer.1 hj

theorem Recorded.next (hx : Exclusive s) (h : Recorded args first s) (hl : s.Enabled l) :
    Recorded args (first.or (firstLock [l])) (s.next args l) := by
  cases l with
  | lock i =>
    obtain ⟨-, hfree⟩ := hl
    constructor
    · have hlocked : SignalStage.locked.Agrees (first.or (some i)) s.value i := by
        cases first <;> exact Option.some_ne_none _
      exact agrees_setCall (fun j => agrees_or (h.calls j)) hlocked
    · intro j hj hvalue
      cases hfirst : first with
      | none =>
        rw [hfirst] at hj
        cases hj
        rfl
      | some k => cases hfree.symm.trans (h.pending k hfirst hvalue)
    · intro outcome houtcome
      obtain ⟨k, hk, ho⟩ := h.value outcome houtcome
      exact ⟨k, by rw [hk]; rfl, ho⟩
  | test i =>
    have hcall := h.calls i
    rw [show s.calls i = .locked from hl] at hcall
    have hmutex : s.mutex = some (.signal i) :=
      (hx.signal i).mp (by rw [show s.calls i = .locked from hl]; rfl)
    rw [or_firstLock (l := .test i) nofun]
    refine ⟨agrees_setCall h.calls ?_, h.pending, h.value⟩
    cases hvalue : s.value with
    | none =>
      obtain ⟨k, hk⟩ := Option.ne_none_iff_exists'.mp hcall
      have hholder := (h.pending k hk hvalue).symm.trans hmutex
      cases hholder
      exact ⟨rfl, hk⟩
    | some outcome => exact Option.some_ne_none outcome
  | store i =>
    have hcall := h.calls i
    rw [show s.calls i = .unset from hl] at hcall
    rw [or_firstLock (l := .store i) nofun]
    refine ⟨agrees_store h.calls hl (args i), fun _ _ hnone => (by cases hnone), ?_⟩
    intro outcome houtcome
    exact ⟨i, hcall.2, (Option.some.inj houtcome).symm⟩
  | notifyOne i =>
    have hcall := h.calls i
    rw [show s.calls i = .stored from hl] at hcall
    rw [or_firstLock (l := .notifyOne i) nofun]
    have hmoved : ∀ j, ((s.setCall i .finishing).calls j).Agrees first s.value j :=
      agrees_setCall h.calls hcall.1
    constructor
    · intro j
      simp only [OutcomeSignal.next, OutcomeSignal.notify_calls, OutcomeSignal.notify_value]
      exact hmoved j
    · simp only [OutcomeSignal.next, OutcomeSignal.notify_value, OutcomeSignal.notify_mutex]
      exact h.pending
    · simp only [OutcomeSignal.next, OutcomeSignal.notify_value]
      exact h.value
  | unlock i =>
    have hcall := h.calls i
    rw [show s.calls i = .finishing from hl] at hcall
    rw [or_firstLock (l := .unlock i) nofun]
    exact ⟨agrees_setCall h.calls hcall, fun _ _ hnone => absurd hnone hcall, h.value⟩
  | notified =>
    rw [or_firstLock (l := .notified) nofun]
    unfold OutcomeSignal.next
    dsimp only
    split
    · exact ⟨h.calls, h.pending, h.value⟩
    · exact ⟨h.calls, h.pending, h.value⟩
  | waiterLock =>
    obtain ⟨-, hfree⟩ := hl
    rw [or_firstLock (l := .waiterLock) nofun]
    refine ⟨h.calls, fun i hi hnone => ?_, h.value⟩
    cases hfree.symm.trans (h.pending i hi hnone)
  | read =>
    have hmutex := hx.waiter.mp hl
    rw [or_firstLock (l := .read) nofun]
    refine ⟨h.calls, fun i hi hnone => ?_, h.value⟩
    cases hmutex.symm.trans (h.pending i hi hnone)

end Value

section Wakeup
variable {args : ℕ → ConnectOutcome} {first : Option ℕ} {s : OutcomeSignal} {l : SignalLabel}
  {i : ℕ} {stage : SignalStage}

/-- A call that has nothing to notify moves on. -/
theorem WakeupPending.setCall (h : WakeupPending first s) (hi : s.calls i ≠ .stored) :
    WakeupPending first (s.setCall i stage) := by
  rcases h with hpermit | ⟨j, hj, hstored⟩ | hwaiter
  · exact .inl hpermit
  · refine .inr (.inl ⟨j, hj, ?_⟩)
    rw [OutcomeSignal.setCall_calls, if_neg (by rintro rfl; exact hi hstored)]
    exact hstored
  · exact .inr (.inr hwaiter)

/-- Every step but a store keeps a wake-up on its way, until the waiter has returned. -/
theorem Awake.next (hr : Recorded args first s) (h : Awake first s) (hl : s.Enabled l) :
    Awake (first.or (firstLock [l])) (s.next args l) := by
  cases l with
  | lock i =>
    have hkept : ∀ k, first = some k → first.or (firstLock [.lock i]) = some k := by
      rintro k rfl
      rfl
    refine ⟨h.returned, fun hvalue => (h.wakeup hvalue).imp_right fun hpending => ?_⟩
    have hmoved : WakeupPending first (s.setCall i .locked) :=
      hpending.setCall (by rw [hl.1]; simp)
    exact hmoved.imp_right (Or.imp_left fun ⟨k, hk, hstored⟩ => ⟨k, hkept k hk, hstored⟩)
  | test i =>
    rw [or_firstLock (l := .test i) nofun]
    refine ⟨h.returned, fun hvalue => (h.wakeup hvalue).imp_right fun hpending => ?_⟩
    exact hpending.setCall (by rw [show s.calls i = .locked from hl]; simp)
  | store i =>
    have hcall := hr.calls i
    rw [show s.calls i = .unset from hl] at hcall
    rw [or_firstLock (l := .store i) nofun]
    constructor
    · intro outcome hreturned
      cases hcall.1.symm.trans (h.returned outcome hreturned)
    · intro _
      refine .inr (.inr (.inl ⟨i, hcall.2, ?_⟩))
      exact (OutcomeSignal.setCall_calls s i .stored i).trans (if_pos rfl)
  | notifyOne i =>
    rw [or_firstLock (l := .notifyOne i) nofun]
    unfold OutcomeSignal.next OutcomeSignal.notify
    dsimp only
    split
    · exact ⟨fun _ hreturned => (by cases hreturned), fun _ => .inr (.inr (.inr (.inl rfl)))⟩
    · exact ⟨h.returned, fun _ => .inr (.inl rfl)⟩
  | unlock i =>
    rw [or_firstLock (l := .unlock i) nofun]
    refine ⟨h.returned, fun hvalue => (h.wakeup hvalue).imp_right fun hpending => ?_⟩
    have hmoved : WakeupPending first (s.setCall i .returned) :=
      hpending.setCall (by rw [show s.calls i = .finishing from hl]; simp)
    exact hmoved
  | notified =>
    have hpoll : s.waiter = .polling := hl
    rw [or_firstLock (l := .notified) nofun]
    unfold OutcomeSignal.next
    dsimp only
    split
    · exact ⟨fun _ hreturned => (by cases hreturned), fun _ => .inr (.inr (.inr (.inl rfl)))⟩
    · next hpermit =>
      refine ⟨fun _ hreturned => (by cases hreturned), fun hvalue => .inr (.inr (.inl ?_))⟩
      -- without a permit, what was on its way is the notification of the call that stored
      rcases h.wakeup hvalue with ⟨outcome, hw⟩ | hp | hstored | hw | hw
      · cases hpoll.symm.trans hw
      · exact absurd hp hpermit
      · exact hstored
      · cases hpoll.symm.trans hw
      · cases hpoll.symm.trans hw
  | waiterLock =>
    rw [or_firstLock (l := .waiterLock) nofun]
    exact ⟨fun _ hreturned => (by cases hreturned), fun _ => .inr (.inr (.inr (.inr rfl)))⟩
  | read =>
    rw [or_firstLock (l := .read) nofun]
    unfold OutcomeSignal.next
    cases hvalue : s.value with
    | none => exact ⟨fun _ hreturned => (by cases hreturned), fun hne => absurd rfl hne⟩
    | some outcome =>
      refine ⟨fun other hreturned => ?_, fun _ => .inl ⟨outcome, rfl⟩⟩
      cases hreturned
      rfl

end Wakeup

/-- What holds in every state that is reached by the labels. -/
structure SignalInv (args : ℕ → ConnectOutcome) (ls : List SignalLabel) (s : OutcomeSignal) :
    Prop where
  exclusive : Exclusive s
  recorded : Recorded args (firstLock ls) s
  awake : Awake (firstLock ls) s

theorem signalInv_new (args : ℕ → ConnectOutcome) : SignalInv args [] .new where
  exclusive := ⟨fun _ => iff_of_false (by simp [OutcomeSignal.new, SignalStage.holds])
    (by simp [OutcomeSignal.new]), iff_of_false (by simp [OutcomeSignal.new])
    (by simp [OutcomeSignal.new])⟩
  recorded := ⟨fun _ => trivial, fun _ hfirst => (by cases hfirst), fun _ hvalue => (by cases hvalue)⟩
  awake := ⟨fun _ hreturned => (by cases hreturned), fun hvalue => absurd rfl hvalue⟩

theorem SignalInv.step {args : ℕ → ConnectOutcome} {ls : List SignalLabel} {s t : OutcomeSignal}
    {l : SignalLabel} (h : SignalInv args ls s) (hstep : s.step args l = some t) :
    SignalInv args (ls ++ [l]) t := by
  obtain ⟨hl, rfl⟩ := OutcomeSignal.step_eq_some.mp hstep
  have hexclusive : Exclusive (s.next args l) := h.exclusive.next hl
  have hrecorded := h.recorded.next h.exclusive hl
  have hawake := h.awake.next h.recorded hl
  rw [← firstLock_append] at hrecorded hawake
  exact ⟨hexclusive, hrecorded, hawake⟩

theorem signalInv_run {args : ℕ → ConnectOutcome} {ls : List SignalLabel} {s : OutcomeSignal}
    (h : run (OutcomeSignal.step args) .new ls = some s) : SignalInv args ls s :=
  run_invariant_of_history (signalInv_new args) (fun _ _ _ _ hinv => hinv.step) h

/-- In every order of the steps, `wait` returns the outcome of the call that took the mutex first,
and as soon as there is a value a wake-up is on its way until `wait` has returned. -/
theorem wait_first_outcome {args : ℕ → ConnectOutcome} {ls : List SignalLabel} {s : OutcomeSignal}
    (h : run (OutcomeSignal.step args) .new ls = some s) :
    (∀ outcome, s.waiter = .returned outcome →
      ∃ i, firstLock ls = some i ∧ outcome = args i) ∧
    (s.value ≠ none → (∀ outcome, s.waiter ≠ .returned outcome) →
      s.permit = true ∨ (∃ i, firstLock ls = some i ∧ s.calls i = .stored) ∨
        s.waiter = .woken ∨ s.waiter = .locked) := by
  have hinv := signalInv_run h
  constructor
  · intro outcome hreturned
    exact hinv.recorded.value outcome (hinv.awake.returned outcome hreturned)
  · intro hvalue hwaiting
    rcases hinv.awake.wakeup hvalue with ⟨outcome, hreturned⟩ | hpending
    · exact absurd hreturned (hwaiting outcome)
    · exact hpending

/-- The waiter is parked first, and a second call finds the value of the first. -/
def contendedSignals : List SignalLabel :=
  [.notified, .lock 1, .test 1, .store 1, .notifyOne 1, .unlock 1, .lock 0, .test 0, .unlock 0,
    .waiterLock, .read]

def contendedArgs (i : ℕ) : ConnectOutcome := if i = 1 then .ipLimitOrVpn else .transient

theorem contendedSignals_first :
    ∃ s, run (OutcomeSignal.step contendedArgs) .new contendedSignals = some s ∧
      s.waiter = .returned .ipLimitOrVpn ∧
      ∃ i, firstLock contendedSignals = some i ∧ .ipLimitOrVpn = contendedArgs i :=
  ⟨_, rfl, rfl, (wait_first_outcome rfl).1 _ rfl⟩

end GlobalpingProbe.Probe
