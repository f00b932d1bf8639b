import GlobalpingProbe.Probe.Dispatch

/-! # Every accepted job is answered once

The calls of one connection share a limiter, the counters and the status manager, which
other tasks may replace at any moment. What a call has emitted is a function of its stage,
and the limiter and the counters balance against the stages of all calls together.
-/
namespace GlobalpingProbe.Probe
open Foundation Status

abbrev ConnectionLabel := PoolLabel MeasurementRequest CallStep StatusManager

/-- Requests arrive, calls make their steps in any order, and the status changes at will. -/
def connectionStep : Pool Shared Call → ConnectionLabel → Option (Pool Shared Call) :=
  stepPool Call.new Call.step (fun sh status => { sh with status := status })

def connectionStart (limiter : MeasurementLimiter) (stats : MeasurementStats)
    (status : StatusManager) : Pool Shared Call := ⟨⟨limiter, stats, status⟩, []⟩

namespace CallEvent

def isCore : CallEvent → Bool
  | .sent _ | .progress .. => false
  | _ => true

def isAck : CallEvent → Bool
  | .ack => true
  | _ => false

def isStart : CallEvent → Bool
  | .recordStart => true
  | _ => false

def isFinish : CallEvent → Bool
  | .recordFinish => true
  | _ => false

def isResult : CallEvent → Bool
  | .result .. => true
  | _ => false

end CallEvent

namespace Stage

def isReturned : Stage → Bool
  | .returned _ => true
  | _ => false

def holdsSlot : Stage → Bool
  | .created | .returned _ => false
  | _ => true

/-- The steps `dispatch` has left, not counting what its command sends. -/
def remaining : Stage → ℕ
  | .created => 10
  | .slotHeld => 9
  | .statusReady => 8
  | .acked => 7
  | .starting _ => 6
  | .running _ => 5
  | .ended _ => 4
  | .counted _ => 3
  | .unknownType => 2
  | .leaving _ => 1
  | .returned _ => 0

end Stage

namespace Call

/-- The events of `dispatch` itself, without those of the channel. -/
def core (c : Call) : List CallEvent := c.trace.filter CallEvent.isCore

def count (c : Call) (kind : CallEvent → Bool) : ℕ := c.trace.countP kind

def acked (c : Call) : Prop := 0 < c.count CallEvent.isAck

def isReturned (c : Call) : Bool := c.stage.isReturned

def heldSlots (c : Call) : ℤ := if c.stage.holdsSlot then 1 else 0

end Call

/-- What `dispatch` has emitted by the time a call stands at a stage. -/
def StageTrace (req : MeasurementRequest) : Stage → List CallEvent → Prop
  | .created, t | .slotHeld, t | .statusReady, t => t = []
  | .acked, t => t = [.ack]
  | .unknownType, t => t = [.ack] ∧ req.command = none
  | .starting _, t => t = [.ack] ∧ req.command.isSome
  | .running _, t | .ended _, t => t = [.ack, .recordStart] ∧ req.command.isSome
  | .counted _, t => t = [.ack, .recordStart, .recordFinish] ∧ req.command.isSome
  | .leaving exit, t | .returned exit, t =>
    match exit with
    | .noSlot | .notReady | .ackFailed => t = []
    | .unknownType => (∃ v, t = [.ack, .result req.testId req.measurementId v]) ∧ req.command = none
    | .answered => (∃ v, t = [.ack, .recordStart, .recordFinish,
        .result req.testId req.measurementId v]) ∧ req.command.isSome

def Call.Tracks (c : Call) : Prop := StageTrace c.req c.stage c.core

section Core
variable (c : Call)

@[simp] theorem core_goto (s : Stage) : (c.goto s).core = c.core := rfl

@[simp] theorem core_setChannel (ch : Option Channel) : (c.setChannel ch).core = c.core := rfl

theorem core_log (e : CallEvent) :
    (c.log e).core = if e.isCore then c.core ++ [e] else c.core := by
  unfold Call.core
  split <;> simp_all

@[simp] theorem core_log_ack : (c.log .ack).core = c.core ++ [.ack] := core_log c _
@[simp] theorem core_log_recordStart : (c.log .recordStart).core = c.core ++ [.recordStart] :=
  core_log c _
@[simp] theorem core_log_recordFinish : (c.log .recordFinish).core = c.core ++ [.recordFinish] :=
  core_log c _
@[simp] theorem core_log_result (tid mid : Text) (v : Json) :
    (c.log (.result tid mid v)).core = c.core ++ [.result tid mid v] := core_log c _
@[simp] theorem core_log_sent (item : Json) : (c.log (.sent item)).core = c.core := core_log c _
@[simp] theorem core_log_progress (tid mid : Text) (v : Json) :
    (c.log (.progress tid mid v)).core = c.core := core_log c _

theorem count_eq_core (kind : CallEvent → Bool) (hk : ∀ e, kind e = true → e.isCore = true) :
    c.count kind = c.core.countP kind := by
  rw [Call.count, Call.core, List.countP_filter]
  congr 1
  funext e
  cases he : kind e with
  | false => rfl
  | true => exact (Bool.true_and _).symm.trans (by rw [hk e he])

end Core

/-- Each step of a call emits what its new stage calls for. -/
theorem step_tracks {sh sh' : Shared} {c c' : Call} {a : CallStep} (hc : c.Tracks)
    (h : c.step sh a = some (sh', c')) : c'.Tracks := by
  unfold Call.Tracks at hc ⊢
  cases Call.step_move h with
  | acquired hs | refused hs | notReady hs | ready hs | ackFailed hs | ended hs | dropped hs =>
    simpa [hs, StageTrace] using hc
  | known hs hk | unknown hs hk => simpa [hs, StageTrace, hk] using hc
  | acked hs =>
    have hn : c.core = [] := by simpa [hs, StageTrace] using hc
    simp [StageTrace, hn]
  | started hs | finished hs =>
    simp only [hs, StageTrace] at hc
    simp [StageTrace, hc]
  | answeredUnknown hs | answered hs =>
    simp only [hs, StageTrace] at hc
    simp [StageTrace, hc]
  | sent hs => simpa [hs, StageTrace] using hc
  | received => simpa using hc
  | forwarded => simpa using hc

/-- What the protocol promises about one call, at every moment of its life. -/
structure AnswersOnce (c : Call) : Prop where
  atMostOne : c.count CallEvent.isResult ≤ 1
  tagged : ∀ e ∈ c.trace, e.isResult = true → ∃ v, e = .result c.req.testId c.req.measurementId v
  answered : c.acked → c.isReturned = true → c.count CallEvent.isResult = 1
  unacked : ¬ c.acked → c.count CallEvent.isResult = 0
  exits : ∀ exit, c.stage = .returned exit →
    (¬ c.acked ↔ exit = .noSlot ∨ exit = .notReady ∨ exit = .ackFailed)
  counted : c.acked → c.req.command.isSome → c.isReturned = true →
    c.count CallEvent.isStart = 1 ∧ c.count CallEvent.isFinish = 1
  countedOnce : c.count CallEvent.isStart ≤ 1 ∧
    c.count CallEvent.isFinish ≤ c.count CallEvent.isStart
  uncounted : ¬ (c.acked ∧ c.req.command.isSome) →
    c.count CallEvent.isStart = 0 ∧ c.count CallEvent.isFinish = 0

/-- How many acks, starts, finishes and results a stage has behind it. -/
def Stage.tally : Stage → ℕ × ℕ × ℕ × ℕ
  | .created | .slotHeld | .statusReady => (0, 0, 0, 0)
  | .acked | .unknownType | .starting _ => (1, 0, 0, 0)
  | .running _ | .ended _ => (1, 1, 0, 0)
  | .counted _ => (1, 1, 1, 0)
  | .leaving exit | .returned exit =>
    match exit with
    | .noSlot | .notReady | .ackFailed => (0, 0, 0, 0)
    | .unknownType => (1, 0, 0, 1)
    | .answered => (1, 1, 1, 1)

/-- The type of an acked request is known exactly when the call does not exit as unknown. -/
def Stage.KnownAs (req : MeasurementRequest) : Stage → Prop
  | .unknownType => req.command = none
  | .starting _ | .running _ | .ended _ | .counted _ => req.command.isSome
  | .leaving exit | .returned exit =>
    (exit = .unknownType → req.command = none) ∧ (exit = .answered → req.command.isSome)
  | _ => True

theorem StageTrace.tally {req : MeasurementRequest} {s : Stage} {t : List CallEvent}
    (h : StageTrace req s t) :
    (t.countP CallEvent.isAck, t.countP CallEvent.isStart, t.countP CallEvent.isFinish,
      t.countP CallEvent.isResult) = s.tally := by
  cases s with
  | created | slotHeld | statusReady | acked => rw [show t = _ from h]; rfl
  | unknownType | starting | running | ended | counted => rw [show t = _ from h.1]; rfl
  | leaving exit | returned exit =>
    cases exit with
    | noSlot | notReady | ackFailed => rw [show t = _ from h]; rfl
    | unknownType | answered =>
      obtain ⟨⟨v, rfl⟩, -⟩ := h
      rfl

theorem StageTrace.knownAs {req : MeasurementRequest} {s : Stage} {t : List CallEvent}
    (h : StageTrace req s t) : s.KnownAs req := by
  cases s with
  | created | slotHeld | statusReady | acked => exact trivial
  | unknownType | starting | running | ended | counted => exact h.2
  | leaving exit | returned exit =>
    cases exit with
    | noSlot | notReady | ackFailed => exact ⟨nofun, nofun⟩
    | unknownType => exact ⟨fun _ => h.2, nofun⟩
    | answered => exact ⟨nofun, fun _ => h.2⟩

theorem StageTrace.tagged {req : MeasurementRequest} {s : Stage} {t : List CallEvent}
    (h : StageTrace req s t) {e : CallEvent} (he : e ∈ t) (hr : e.isResult = true) :
    ∃ v, e = .result req.testId req.measurementId v := by
  have hone : ∃ v, t ⊆ [.ack, .recordStart, .recordFinish,
      .result req.testId req.measurementId v] := by
    cases s with
    | created | slotHeld | statusReady | acked => exact ⟨.null, by rw [show t = _ from h]; simp⟩
    | unknownType | starting | running | ended | counted =>
      exact ⟨.null, by rw [show t = _ from h.1]; simp⟩
    | leaving exit | returned exit =>
      cases exit with
      | noSlot | notReady | ackFailed => exact ⟨.null, by rw [show t = _ from h]; simp⟩
      | unknownType | answered =>
        obtain ⟨⟨v, rfl⟩, -⟩ := h
        exact ⟨v, by simp⟩
  obtain ⟨v, hv⟩ := hone
  have hm := hv he
  simp only [List.mem_cons, List.not_mem_nil, or_false] at hm
  rcases hm with rfl | rfl | rfl | rfl
  · cases hr
  · cases hr
  · cases hr
  · exact ⟨v, rfl⟩

theorem Call.Tracks.tally {c : Call} (h : c.Tracks) :
    (c.count CallEvent.isAck, c.count CallEvent.isStart, c.count CallEvent.isFinish,
      c.count CallEvent.isResult) = c.stage.tally := by
  rw [← StageTrace.tally h, count_eq_core c CallEvent.isAck,
    count_eq_core c CallEvent.isStart, count_eq_core c CallEvent.isFinish,
    count_eq_core c CallEvent.isResult] <;>
    · intro e he
      cases e <;> first | rfl | cases he

theorem Call.Tracks.returned_counts {c : Call} (h : c.Tracks) (hr : c.isReturned = true) :
    c.count CallEvent.isStart = c.count CallEvent.isFinish := by
  have ht := h.tally
  unfold Call.isReturned at hr
  cases hs : c.stage with
  | returned exit => cases exit <;> simp_all [Stage.tally]
  | _ => simp [hs, Stage.isReturned] at hr

theorem heldSlots_of_returned {c : Call} (h : c.isReturned = true) : c.heldSlots = 0 := by
  unfold Call.isReturned at h
  unfold Call.heldSlots
  cases hs : c.stage with
  | returned exit => rfl
  | _ => simp [hs, Stage.isReturned] at h

theorem Call.Tracks.answersOnce {c : Call} (h : c.Tracks) : AnswersOnce c := by
  have ht := h.tally
  have hk := StageTrace.knownAs h
  have htag : ∀ e ∈ c.trace, e.isResult = true →
      ∃ v, e = .result c.req.testId c.req.measurementId v := by
    intro e he hr
    refine StageTrace.tagged h (List.mem_filter.mpr ⟨he, ?_⟩) hr
    cases e <;> first | rfl | cases hr
  cases hs : c.stage with
  | created | slotHeld | statusReady | acked | starting | unknownType | running | ended | counted =>
    simp only [hs, Stage.tally, Stage.KnownAs, Prod.mk.injEq] at ht hk
    obtain ⟨ha, hb, hf, hr⟩ := ht
    constructor <;> simp_all [Call.acked, Call.isReturned, Stage.isReturned]
  | leaving exit | returned exit =>
    simp only [hs, Stage.tally, Stage.KnownAs] at ht hk
    cases exit <;> simp only [Prod.mk.injEq] at ht <;> obtain ⟨ha, hb, hf, hr⟩ := ht <;>
      constructor <;> simp_all [Call.acked, Call.isReturned, Stage.isReturned]

section Balances
variable {sh sh' : Shared} {c c' : Call} {a : CallStep}

theorem step_slots (h : c.step sh a = some (sh', c')) :
    (sh'.limiter.unheld : ℤ) + c'.heldSlots = sh.limiter.unheld + c.heldSlots := by
  cases Call.step_move h with
  | acquired hs hl =>
    have hu := (MeasurementLimiter.tryAcquire_spec hl).1
    have hb : c.heldSlots = 0 := by rw [Call.heldSlots, hs]; rfl
    have ha : (c.goto .slotHeld).heldSlots = 1 := rfl
    simp only [hb, ha]
    omega
  | dropped hs => simp [Call.heldSlots, Stage.holdsSlot, hs]
  | received | forwarded => rfl
  | refused hs | notReady hs | ready hs | acked hs | ackFailed hs | known hs | unknown hs
  | answeredUnknown hs | started hs | sent hs | ended hs | finished hs | answered hs =>
    simp [Call.heldSlots, Stage.holdsSlot, hs]

theorem step_starts (h : c.step sh a = some (sh', c')) :
    -(sh'.stats.started : ℤ) + c'.count CallEvent.isStart =
      -(sh.stats.started : ℤ) + c.count CallEvent.isStart := by
  cases Call.step_move h with
  | started =>
    simp [Call.count, CallEvent.isStart, MeasurementStats.recordStart]
    omega
  | _ => simp [Call.count, CallEvent.isStart, MeasurementStats.recordFinish]

theorem step_finishes (h : c.step sh a = some (sh', c')) :
    -(sh'.stats.finished : ℤ) + c'.count CallEvent.isFinish =
      -(sh.stats.finished : ℤ) + c.count CallEvent.isFinish := by
  cases Call.step_move h with
  | finished =>
    simp [Call.count, CallEvent.isFinish, MeasurementStats.recordFinish]
    omega
  | _ => simp [Call.count, CallEvent.isFinish, MeasurementStats.recordStart]

theorem step_limiter (h : c.step sh a = some (sh', c')) :
    sh'.limiter.capacity = sh.limiter.capacity ∧
      sh'.limiter.semaphore.waiters.map Waiter.needed =
        sh.limiter.semaphore.waiters.map Waiter.needed := by
  cases Call.step_move h with
  | acquired hs hl =>
    obtain ⟨-, hc, hw⟩ := MeasurementLimiter.tryAcquire_spec hl
    exact ⟨hc, congrArg _ hw⟩
  | dropped hs => exact ⟨rfl, Semaphore.release_needed 1 _⟩
  | refused | notReady | ready | acked | ackFailed | known | unknown | answeredUnknown | started
  | sent | ended | finished | answered | received | forwarded => exact ⟨rfl, rfl⟩

theorem step_remaining (h : c.step sh a = some (sh', c')) :
    c'.stage.remaining ≤ c.stage.remaining := by
  cases Call.step_move h with
  | received | forwarded => exact le_rfl
  | acquired hs | refused hs | notReady hs | ready hs | acked hs | ackFailed hs | known hs
  | unknown hs | answeredUnknown hs | started hs | sent hs | ended hs | finished hs | answered hs
  | dropped hs => simp [Stage.remaining, hs]

end Balances

/-- Whatever the others do, a call that has not returned can take a step towards it. -/
theorem step_enabled (sh : Shared) {c : Call} (h : c.isReturned = false) :
    ∃ a sh' c', c.step sh a = some (sh', c') ∧ c'.stage.remaining < c.stage.remaining := by
  cases hs : c.stage with
  | created =>
    cases hl : sh.limiter.tryAcquire with
    | none => exact ⟨.tryAcquire, sh, c.goto (.returned .noSlot), by
        simp [Call.step, hs, hl], by simp [Stage.remaining]⟩
    | some l => exact ⟨.tryAcquire, { sh with limiter := l }, c.goto .slotHeld, by
        simp [Call.step, hs, hl], by simp [Stage.remaining]⟩
  | slotHeld =>
    by_cases hr : sh.status.getStatus.toText = "ready".toList
    · exact ⟨.readStatus, sh, c.goto .statusReady, by
        simp only [Call.step, hs, hr, ne_eq, not_true, if_false], by simp [Stage.remaining]⟩
    · exact ⟨.readStatus, sh, c.goto (.leaving .notReady), by
        simp only [Call.step, hs, hr, ne_eq, not_false_eq_true, if_true],
        by simp [Stage.remaining]⟩
  | statusReady => exact ⟨.emitAck true, sh, (c.log .ack).goto .acked, by
      simp [Call.step, hs], by simp [Stage.remaining]⟩
  | acked =>
    cases hc : c.req.command with
    | none => exact ⟨.lookupType, sh, c.goto .unknownType, by
        simp [Call.step, hs, hc], by simp [Stage.remaining]⟩
    | some k => exact ⟨.lookupType, sh, c.goto (.starting k), by
        simp [Call.step, hs, hc], by simp [Stage.remaining]⟩
  | unknownType => exact ⟨.emitResult, sh, _, by simp only [Call.step, hs]; rfl, by
      simp [Stage.remaining]⟩
  | starting k => exact ⟨.recordStart, _, _, by simp only [Call.step, hs]; rfl, by
      simp [Stage.remaining]⟩
  | running k => exact ⟨.finish .timeout, sh, _, by simp only [Call.step, hs]; rfl, by
      simp [Stage.remaining]⟩
  | ended o => exact ⟨.recordFinish, _, _, by simp only [Call.step, hs]; rfl, by
      simp [Stage.remaining]⟩
  | counted v => exact ⟨.emitResult, sh, _, by simp only [Call.step, hs]; rfl, by
      simp [Stage.remaining]⟩
  | leaving e => exact ⟨.dropSlot, _, _, by simp only [Call.step, hs]; rfl, by
      simp [Stage.remaining]⟩
  | returned e => simp [Call.isReturned, Stage.isReturned, hs] at h

theorem connection_act {p : Pool Shared Call} {i : ℕ} {c c' : Call} {a : CallStep} {sh' : Shared}
    (hi : p.tasks[i]? = some c) (ha : c.step p.shared a = some (sh', c')) :
    ∃ q, connectionStep p (.act i a) = some q ∧ q.tasks[i]? = some c' := by
  refine ⟨⟨sh', p.tasks.set i c'⟩, stepTask_eq_some.mpr ⟨c, c', hi, ha, rfl⟩, ?_⟩
  exact List.getElem?_set_self (List.getElem?_eq_some_iff.mp hi).1

theorem connection_balance {f : Shared → ℤ} {g : Call → ℤ} {p q : Pool Shared Call}
    {labels : List ConnectionLabel}
    (hact : ∀ sh c a sh' c', Call.step sh c a = some (sh', c') → f sh' + g c' = f sh + g c)
    (henv : ∀ sh status, f { sh with status := status } = f sh)
    (hnew : ∀ req, g (.new req) = 0) (h : run connectionStep p labels = some q) :
    balance f g q = balance f g p := run_balance hact henv hnew h

theorem connection_forall {J : Call → Prop} {p q : Pool Shared Call}
    {labels : List ConnectionLabel}
    (hact : ∀ sh c a sh' c', J c → Call.step sh c a = some (sh', c') → J c')
    (hnew : ∀ req, J (.new req)) (hp : ∀ c ∈ p.tasks, J c)
    (h : run connectionStep p labels = some q) : ∀ c ∈ q.tasks, J c := run_forall hact hnew hp h

section Runs
variable {n : ℕ} {stats : MeasurementStats} {status : StatusManager} {p : Pool Shared Call}
  {labels : List ConnectionLabel}

/-- The limiter of a connection through all its runs: nothing waits, nothing is lost. -/
theorem run_limiter
    (h : run connectionStep (connectionStart (.withCapacity n) stats status) labels = some p) :
    p.shared.limiter.capacity = n ∧ p.shared.limiter.semaphore.waiters = [] ∧
      (p.shared.limiter.semaphore.available : ℤ) + (p.tasks.map Call.heldSlots).sum = n := by
  have hb := connection_balance (f := fun sh : Shared => (sh.limiter.unheld : ℤ))
    (g := Call.heldSlots) (fun _ _ _ _ _ hs => step_slots hs) (fun _ _ => rfl) (fun _ => rfl) h
  have hl := run_invariant (I := fun q : Pool Shared Call =>
    q.shared.limiter.capacity = n ∧ q.shared.limiter.semaphore.waiters = []) ?_ ⟨rfl, rfl⟩ h
  · refine ⟨hl.1, hl.2, ?_⟩
    simpa [balance, connectionStart, MeasurementLimiter.unheld_eq_available hl.2] using hb
  · intro q a r hq hr
    cases a with
    | spawn req => cases hr; exact hq
    | env status => cases hr; exact hq
    | act i a =>
      obtain ⟨c, c', -, ha, -⟩ := stepTask_eq_some.mp hr
      obtain ⟨hc, hw⟩ := step_limiter ha
      rw [hq.2] at hw
      exact ⟨hc.trans hq.1, List.map_eq_nil_iff.mp hw⟩

/-- The counters of a connection have grown by what its calls recorded. -/
theorem run_stats {limiter : MeasurementLimiter}
    (h : run connectionStep (connectionStart limiter stats status) labels = some p) :
    (p.shared.stats.started : ℤ) = stats.started +
        (p.tasks.map (fun c => (c.count CallEvent.isStart : ℤ))).sum ∧
      (p.shared.stats.finished : ℤ) = stats.finished +
        (p.tasks.map (fun c => (c.count CallEvent.isFinish : ℤ))).sum := by
  have hs := connection_balance (f := fun sh : Shared => -(sh.stats.started : ℤ))
    (g := fun c => (c.count CallEvent.isStart : ℤ))
    (fun _ _ _ _ _ hs => step_starts hs) (fun _ _ => rfl) (fun _ => rfl) h
  have hf := connection_balance (f := fun sh : Shared => -(sh.stats.finished : ℤ))
    (g := fun c => (c.count CallEvent.isFinish : ℤ))
    (fun _ _ _ _ _ hs => step_finishes hs) (fun _ _ => rfl) (fun _ => rfl) h
  simp only [balance, connectionStart, List.map_nil, List.sum_nil, add_zero] at hs hf
  constructor <;> linarith

theorem run_tracks {limiter : MeasurementLimiter}
    (h : run connectionStep (connectionStart limiter stats status) labels = some p) :
    ∀ c ∈ p.tasks, c.Tracks :=
  connection_forall (fun _ _ _ _ _ => step_tracks) (fun _ => rfl) (by simp [connectionStart]) h

/-- Through every schedule each call answers as its ack says, none is ever stuck, and once
all have returned the counters have grown alike and no slot is taken. -/
theorem calls_answer_once
    (h : run connectionStep (connectionStart (.withCapacity n) stats status) labels = some p) :
    (∀ c ∈ p.tasks, AnswersOnce c) ∧
    (∀ i c, p.tasks[i]? = some c → c.isReturned = false → ∃ a q c',
      connectionStep p (.act i a) = some q ∧ q.tasks[i]? = some c' ∧
        c'.stage.remaining < c.stage.remaining) ∧
    (∀ c sh a sh' c', Call.step sh c a = some (sh', c') →
      c'.stage.remaining ≤ c.stage.remaining) ∧
    ((∀ c ∈ p.tasks, c.isReturned = true) →
      p.shared.stats.started + stats.finished = p.shared.stats.finished + stats.started ∧
        p.shared.limiter.inFlight = 0) := by
  have htracks := run_tracks h
  refine ⟨fun c hc => (htracks c hc).answersOnce, ?_, fun c sh a sh' c' => step_remaining, ?_⟩
  · intro i c hi hr
    obtain ⟨a, sh', c', ha, hlt⟩ := step_enabled p.shared hr
    obtain ⟨q, hq, hi'⟩ := connection_act hi ha
    exact ⟨a, q, c', hq, hi', hlt⟩
  · intro hall
    obtain ⟨hs, hf⟩ := run_stats h
    obtain ⟨hcap, -, hheld⟩ := run_limiter h
    have hcounts : p.tasks.map (fun c => (c.count CallEvent.isStart : ℤ)) =
        p.tasks.map (fun c => (c.count CallEvent.isFinish : ℤ)) := by
      apply List.map_congr_left
      intro c hc
      exact_mod_cast (htracks c hc).returned_counts (hall c hc)
    have hnone : (p.tasks.map Call.heldSlots).sum = 0 := by
      apply List.sum_eq_zero
      intro x hx
      obtain ⟨c, hc, rfl⟩ := List.mem_map.mp hx
      exact heldSlots_of_returned (hall c hc)
    rw [hcounts] at hs
    unfold MeasurementLimiter.inFlight
    omega

end Runs

def readyManager : StatusManager :=
  ((StatusManager.withApiHost "api".toList).runPingTest true false).runIcmpTcpTest [] []

def request (testId : Text) (fields : List (Text × Json)) : MeasurementRequest :=
  ⟨"m".toList, testId, .obj fields⟩

/-- Three requests on two slots: one is refused, one is of no known type, one is answered. -/
def contendedLabels : List ConnectionLabel :=
  [.spawn (request ['1'] [("type".toList, .str "ping".toList)]), .spawn (request ['2'] []),
    .spawn (request ['3'] []), .act 0 .tryAcquire, .act 1 .tryAcquire, .act 2 .tryAcquire,
    .act 0 .readStatus, .act 1 .readStatus, .act 0 (.emitAck true), .act 1 (.emitAck true),
    .act 1 .lookupType, .act 0 .lookupType, .act 1 .emitResult, .act 0 .recordStart,
    .env readyManager.setSigterm, .act 1 .dropSlot, .act 0 (.finish .timeout),
    .act 0 .recordFinish, .act 0 .emitResult, .act 0 .dropSlot]

theorem contendedLabels_answer_once : ∃ p, run connectionStep
    (connectionStart (.withCapacity 2) .new readyManager) contendedLabels = some p ∧
      (∀ c ∈ p.tasks, c.isReturned = true) ∧ (∀ c ∈ p.tasks, AnswersOnce c) ∧
      p.shared.limiter.inFlight = 0 := by
  have hrun : (run connectionStep (connectionStart (.withCapacity 2) .new readyManager)
    contendedLabels).map (fun p => p.tasks.all Call.isReturned) = some true := rfl
  obtain ⟨p, hp, hall⟩ := Option.map_eq_some_iff.mp hrun
  obtain ⟨hcalls, -, -, hdone⟩ := calls_answer_once hp
  have hret : ∀ c ∈ p.tasks, c.isReturned = true := List.all_eq_true.mp hall
  exact ⟨p, hp, hret, hcalls, (hdone hret).2⟩

end GlobalpingProbe.Probe
