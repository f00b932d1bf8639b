import GlobalpingProbe.Probe.Answers

/-! # Progress and the final result

The forwarder is a task of its own that `dispatch` never waits for. The channel keeps its
items in order, but only a channel that is drained when the result is emitted keeps them
ahead of the result.
-/
namespace GlobalpingProbe.Probe
open Foundation Status

namespace CallEvent

def isProgress : CallEvent → Bool
  | .progress .. => true
  | _ => false

def sentItem : CallEvent → Option Json
  | .sent item => some item
  | _ => none

def progressItem : CallEvent → Option Json
  | .progress _ _ item => some item
  | _ => none

end CallEvent

namespace Channel

/-- What the forwarder has still to emit, in order. -/
def pending (ch : Channel) : List Json := ch.taken.toList ++ ch.queue.map limitRawOutput

end Channel

namespace Call

def pending (c : Call) : List Json := (c.channel.map Channel.pending).getD []

def sentItems (c : Call) : List Json := c.trace.filterMap CallEvent.sentItem
def progressItems (c : Call) : List Json := c.trace.filterMap CallEvent.progressItem

/-- What has been emitted and what is pending make up what was sent, in the order of sending. -/
def Accounts (c : Call) : Prop := c.sentItems.map limitRawOutput = c.progressItems ++ c.pending

def ProgressBeforeResult (c : Call) : Prop :=
  c.trace.Pairwise (fun earlier later => earlier.isResult = true → later.isProgress = false)

/-- Progress that was emitted is the first part of what was sent, capped item by item. -/
def ProgressInOrder (c : Call) : Prop := c.progressItems <+: c.sentItems.map limitRawOutput

def hasAnswered (c : Call) : Bool := c.trace.any CallEvent.isResult

end Call

/-- The accounts of a call; its channel does not exist before the measurement starts. -/
structure Call.Streams (c : Call) : Prop where
  accounts : c.Accounts
  unopened : 6 ≤ c.stage.remaining → c.channel = none

/-- A call whose result is the last thing it has emitted, with nothing left to forward. -/
structure Call.ResultLast (c : Call) : Prop where
  ordered : c.ProgressBeforeResult
  closed : c.hasAnswered = true → c.pending = [] ∧ c.stage.remaining ≤ 1

section Fields
variable (c : Call)

@[simp] theorem pending_goto (s : Stage) : (c.goto s).pending = c.pending := rfl
@[simp] theorem pending_log (e : CallEvent) : (c.log e).pending = c.pending := rfl
@[simp] theorem pending_setChannel (ch : Option Channel) :
    (c.setChannel ch).pending = (ch.map Channel.pending).getD [] := rfl

theorem pending_of_channel {c : Call} {ch : Channel} (h : c.channel = some ch) :
    c.pending = ch.pending := by simp [Call.pending, h]

@[simp] theorem sentItems_goto (s : Stage) : (c.goto s).sentItems = c.sentItems := rfl
@[simp] theorem sentItems_setChannel (ch : Option Channel) :
    (c.setChannel ch).sentItems = c.sentItems := rfl
@[simp] theorem sentItems_log (e : CallEvent) :
    (c.log e).sentItems = c.sentItems ++ e.sentItem.toList := by
  unfold Call.sentItems
  cases e <;> exact List.filterMap_append

@[simp] theorem progressItems_goto (s : Stage) : (c.goto s).progressItems = c.progressItems := rfl
@[simp] theorem progressItems_setChannel (ch : Option Channel) :
    (c.setChannel ch).progressItems = c.progressItems := rfl
@[simp] theorem progressItems_log (e : CallEvent) :
    (c.log e).progressItems = c.progressItems ++ e.progressItem.toList := by
  unfold Call.progressItems
  cases e <;> exact List.filterMap_append

@[simp] theorem hasAnswered_goto (s : Stage) : (c.goto s).hasAnswered = c.hasAnswered := rfl
@[simp] theorem hasAnswered_setChannel (ch : Option Channel) :
    (c.setChannel ch).hasAnswered = c.hasAnswered := rfl
@[simp] theorem hasAnswered_log (e : CallEvent) :
    (c.log e).hasAnswered = (c.hasAnswered || e.isResult) := by
  simp [Call.hasAnswered]

theorem progressBeforeResult_log (e : CallEvent) : (c.log e).ProgressBeforeResult ↔
    c.ProgressBeforeResult ∧ (c.hasAnswered = true → e.isProgress = false) := by
  simp only [Call.ProgressBeforeResult, Call.log, List.pairwise_append, List.pairwise_singleton,
    List.mem_singleton, forall_eq, true_and, Call.hasAnswered, List.any_eq_true]
  exact and_congr_right fun _ => ⟨fun h ⟨x, hx, hr⟩ => h x hx hr, fun h x hx hr => h ⟨x, hx, hr⟩⟩

end Fields

section Steps
variable {sh sh' : Shared} {c c' : Call} {a : CallStep}

theorem step_streams (hc : c.Streams) (h : c.step sh a = some (sh', c')) : c'.Streams := by
  obtain ⟨hac, hun⟩ := hc
  unfold Call.Accounts at hac
  cases Call.step_move h with
  | started hs =>
    have hn : c.pending = [] := by rw [Call.pending, hun (by simp [hs, Stage.remaining])]; rfl
    rw [hn] at hac
    refine ⟨?_, by simp [Stage.remaining]⟩
    unfold Call.Accounts
    split_ifs <;> simpa [CallEvent.sentItem, CallEvent.progressItem, Channel.pending, Channel.new]
      using hac
  | sent hs hch =>
    rw [pending_of_channel hch] at hac
    refine ⟨?_, by simp [Stage.remaining, hs]⟩
    simp [Call.Accounts, CallEvent.sentItem, CallEvent.progressItem, Channel.pending, hac]
  | received hch =>
    rw [pending_of_channel hch] at hac
    exact ⟨hac, fun h => absurd (hun h) (by simp [hch])⟩
  | forwarded hch =>
    rw [pending_of_channel hch] at hac
    refine ⟨?_, fun h => absurd (hun h) (by simp [hch])⟩
    simp [Call.Accounts, CallEvent.sentItem, CallEvent.progressItem, Channel.pending, hac]
  | acquired hs | refused hs | notReady hs | ready hs | ackFailed hs | known hs
  | unknown hs | ended hs | acked hs | answeredUnknown hs | finished hs | answered hs
  | dropped hs =>
    refine ⟨?_, by simp_all [Stage.remaining]⟩
    simpa [Call.Accounts, CallEvent.sentItem, CallEvent.progressItem] using hac

/-- One step keeps the result last, given that it is emitted over a drained channel. -/
theorem step_resultLast (hc : c.ResultLast) (hd : a = .emitResult → c.pending = [])
    (h : c.step sh a = some (sh', c')) : c'.ResultLast := by
  obtain ⟨hord, hclosed⟩ := hc
  have hopen : 1 < c.stage.remaining ∨ c.pending ≠ [] → c.hasAnswered = false := by
    intro h
    cases ha : c.hasAnswered with
    | false => rfl
    | true =>
      obtain ⟨hp, hr⟩ := hclosed ha
      rcases h with h | h
      · omega
      · exact absurd hp h
  have hrem := step_remaining h
  cases Call.step_move h with
  | started hs | sent hs =>
    have hn := hopen (.inl (by simp [hs, Stage.remaining]))
    refine ⟨(progressBeforeResult_log c _).mpr ⟨hord, fun _ => rfl⟩, ?_⟩
    simp [hn, CallEvent.isResult]
  | received hch =>
    refine ⟨hord, fun ha => ?_⟩
    have hp := hclosed ha
    rw [pending_of_channel hch] at hp
    simp [Channel.pending] at hp
  | forwarded hch =>
    have hn := hopen (.inr (by simp [pending_of_channel hch, Channel.pending]))
    exact ⟨(progressBeforeResult_log _ _).mpr ⟨hord, by simp [hn]⟩, by simp [hn, CallEvent.isResult]⟩
  | answered hs | answeredUnknown hs =>
    exact ⟨(progressBeforeResult_log c _).mpr ⟨hord, fun _ => rfl⟩, by
      simp [hd rfl, Stage.remaining]⟩
  | acked hs | finished hs =>
    refine ⟨(progressBeforeResult_log c _).mpr ⟨hord, fun _ => rfl⟩, ?_⟩
    simp [hopen (.inl (by simp [hs, Stage.remaining])), CallEvent.isResult]
  | acquired hs | refused hs | notReady hs | ready hs | ackFailed hs | known hs | unknown hs
  | ended hs | dropped hs =>
    exact ⟨hord, fun ha => ⟨(hclosed ha).1, hrem.trans (hclosed ha).2⟩⟩

end Steps

/-- When a call emits its result, its forwarder has emitted everything that was sent. -/
def DrainedAtResult (p : Pool Shared Call) : ConnectionLabel → Prop
  | .act i .emitResult => ∀ c, p.tasks[i]? = some c → c.pending = []
  | _ => True

instance (p : Pool Shared Call) : ∀ label, Decidable (DrainedAtResult p label)
  | .act i .emitResult => inferInstanceAs (Decidable (∀ c ∈ p.tasks[i]?, c.pending = []))
  | .spawn _ | .env _ | .act _ .tryAcquire | .act _ .readStatus | .act _ (.emitAck _)
  | .act _ .lookupType | .act _ .recordStart | .act _ (.send _) | .act _ (.finish _)
  | .act _ .recordFinish | .act _ .dropSlot | .act _ .recv | .act _ .emitProgress => isTrue trivial

theorem along_resultLast {p q : Pool Shared Call} {labels : List ConnectionLabel}
    (hd : Along connectionStep DrainedAtResult p labels) (hp : ∀ c ∈ p.tasks, c.ResultLast)
    (h : run connectionStep p labels = some q) : ∀ c ∈ q.tasks, c.ResultLast := by
  refine Along.invariant (I := fun r => ∀ c ∈ r.tasks, c.ResultLast) ?_ hd hp h
  intro r a t hr hc ht
  cases a with
  | spawn req =>
    cases ht
    intro c hm
    rcases List.mem_append.mp hm with hm | hm
    · exact hr c hm
    · rw [List.mem_singleton.mp hm]
      exact ⟨List.Pairwise.nil, nofun⟩
  | env status => cases ht; exact hr
  | act i a =>
    obtain ⟨c, c', hi, ha, hq⟩ := stepTask_eq_some.mp ht
    rw [hq]
    refine forall_mem_set hr (step_resultLast (hr c (List.mem_of_getElem? hi)) ?_ ha)
    rintro rfl
    exact hc c hi

theorem step_emitProgress {sh : Shared} {c : Call} {exit : Exit} {queue : List Json} {item : Json}
    (hs : c.stage = .leaving exit) (hc : c.channel = some ⟨queue, some item⟩) :
    c.step sh .emitProgress = some (sh, (c.setChannel (some ⟨queue, none⟩)).log
      (.progress c.req.testId c.req.measurementId item)) := by
  simp only [Call.step, hs, Call.forwardStep, hc, Option.map_some]

theorem step_recv {sh : Shared} {c : Call} {exit : Exit} {queue : List Json} {item : Json}
    (hs : c.stage = .leaving exit) (hc : c.channel = some ⟨item :: queue, none⟩) :
    c.step sh .recv = some (sh, c.setChannel (some ⟨queue, some (limitRawOutput item)⟩)) := by
  simp only [Call.step, hs, Call.forwardStep, hc, Option.map_some]

theorem emits_after_result {p : Pool Shared Call} {i : ℕ} {c : Call} {exit : Exit}
    {queue : List Json} {item : Json} (hi : p.tasks[i]? = some c) (hs : c.stage = .leaving exit)
    (ha : c.hasAnswered = true) (hc : c.channel = some ⟨queue, some item⟩) :
    ∃ q c', connectionStep p (.act i .emitProgress) = some q ∧ q.tasks[i]? = some c' ∧
      ¬ c'.ProgressBeforeResult := by
  obtain ⟨q, hq, hqi⟩ := connection_act hi (step_emitProgress hs hc)
  refine ⟨q, _, hq, hqi, fun hord => ?_⟩
  have hlate := ((progressBeforeResult_log _ _).mp hord).2 ha
  cases hlate

/-- Once the result is out, the forwarder can still emit what it has pending. -/
theorem forwards_after_result {p : Pool Shared Call} {i : ℕ} {c : Call} {exit : Exit}
    (hi : p.tasks[i]? = some c) (hs : c.stage = .leaving exit) (ha : c.hasAnswered = true)
    (hp : c.pending ≠ []) : ∃ labels q c', run connectionStep p labels = some q ∧
      q.tasks[i]? = some c' ∧ ¬ c'.ProgressBeforeResult := by
  cases hc : c.channel with
  | none => exact absurd (by simp [Call.pending, hc]) hp
  | some ch =>
    rcases ch with ⟨queue, _ | item⟩
    · cases queue with
      | nil => exact absurd (by simp [Call.pending, Channel.pending, hc]) hp
      | cons item queue =>
        obtain ⟨r, hr, hri⟩ := connection_act hi (step_recv hs hc)
        obtain ⟨q, c', hq, hv⟩ := emits_after_result hri hs ha rfl
        exact ⟨[.act i .recv, .act i .emitProgress], q, c', by simp [hr, hq], hv⟩
    · obtain ⟨q, c', hq, hv⟩ := emits_after_result hi hs ha hc
      exact ⟨[.act i .emitProgress], q, c', by simp [hq], hv⟩

/-- Emitted progress always follows the order of sending. It stays ahead of the results in
every run that drains the channel before each result, and a result that is emitted over a
channel with something pending can be overtaken. -/
theorem progress_precedes_drained_result {limiter : MeasurementLimiter} {stats : MeasurementStats}
    {status : StatusManager} {labels : List ConnectionLabel} {p : Pool Shared Call}
    (h : run connectionStep (connectionStart limiter stats status) labels = some p) :
    (∀ c ∈ p.tasks, c.ProgressInOrder) ∧
    (Along connectionStep DrainedAtResult (connectionStart limiter stats status) labels →
      ∀ c ∈ p.tasks, c.ProgressBeforeResult) ∧
    (∀ i q, connectionStep p (.act i .emitResult) = some q →
      ¬ DrainedAtResult p (.act i .emitResult) → ∃ more r c, run connectionStep q more = some r ∧
        r.tasks[i]? = some c ∧ ¬ c.ProgressBeforeResult) := by
  refine ⟨fun c hc => ?_, fun hd c hc => ?_, fun i q hq hnd => ?_⟩
  · have hs := connection_forall (J := Call.Streams) (fun _ _ _ _ _ => step_streams)
      (fun _ => ⟨rfl, fun _ => rfl⟩) (by simp [connectionStart]) h c hc
    exact ⟨c.pending, hs.accounts.symm⟩
  · exact (along_resultLast hd (by simp [connectionStart]) h c hc).ordered
  · obtain ⟨c, c', hi, ha, hset⟩ := stepTask_eq_some.mp hq
    have hp : c.pending ≠ [] := fun hn => hnd (fun d hd => by
      obtain rfl : c = d := Option.some.inj (hi.symm.trans hd)
      exact hn)
    have hqi : q.tasks[i]? = some c' := by
      rw [hset]
      exact List.getElem?_set_self (List.getElem?_eq_some_iff.mp hi).1
    have hans : ∃ exit, c'.stage = .leaving exit ∧ c'.hasAnswered = true ∧
        c'.pending = c.pending := by
      generalize hsh : q.shared = sh' at ha
      cases Call.step_move ha with
      | answered hs | answeredUnknown hs => exact ⟨_, rfl, by simp [CallEvent.isResult], rfl⟩
    obtain ⟨exit, hs, hans, hpend⟩ := hans
    exact forwards_after_result hqi hs hans (by rw [hpend]; exact hp)

/-- A ping that has sent one partial result when it ends; the forwarder runs last. -/
def overtakenLabels : List ConnectionLabel :=
  [.spawn (request ['1'] [("type".toList, .str "ping".toList),
      ("inProgressUpdates".toList, .bool true)]),
    .act 0 .tryAcquire, .act 0 .readStatus, .act 0 (.emitAck true), .act 0 .lookupType,
    .act 0 .recordStart, .act 0 (.send .null), .act 0 (.finish (.value .null)),
    .act 0 .recordFinish, .act 0 .emitResult, .act 0 .recv, .act 0 .emitProgress]

theorem overtakenLabels_progress_last : ∃ p c, run connectionStep
    (connectionStart .new .new readyManager) overtakenLabels = some p ∧ c ∈ p.tasks ∧
      c.req.inProgress = true ∧ c.trace = [.ack, .recordStart, .sent .null, .recordFinish,
        .result ['1'] ['m'] .null, .progress ['1'] ['m'] .null] ∧ ¬ c.ProgressBeforeResult := by
  have hrun : (run connectionStep (connectionStart .new .new readyManager)
    overtakenLabels).bind (fun p => p.tasks[0]?.map
      (fun c => (c.req.inProgress, c.trace))) = some (true, [.ack, .recordStart, .sent .null,
        .recordFinish, .result ['1'] ['m'] .null, .progress ['1'] ['m'] .null]) := rfl
  obtain ⟨p, hp, hmap⟩ := Option.bind_eq_some_iff.mp hrun
  obtain ⟨c, hc, heq⟩ := Option.map_eq_some_iff.mp hmap
  obtain ⟨hin, htr⟩ := Prod.mk.inj heq
  refine ⟨p, c, hp, List.mem_of_getElem? hc, hin, htr, ?_⟩
  rw [Call.ProgressBeforeResult, htr]
  simp [CallEvent.isResult, CallEvent.isProgress]

/-- The same ping with a forwarder that keeps up. -/
def drainedLabels : List ConnectionLabel :=
  [.spawn (request ['1'] [("type".toList, .str "ping".toList),
      ("inProgressUpdates".toList, .bool true)]),
    .act 0 .tryAcquire, .act 0 .readStatus, .act 0 (.emitAck true), .act 0 .lookupType,
    .act 0 .recordStart, .act 0 (.send .null), .act 0 (.finish (.value .null)), .act 0 .recv,
    .act 0 .emitProgress, .act 0 .recordFinish, .act 0 .emitResult]

theorem drainedLabels_progress_first : ∃ p, run connectionStep
    (connectionStart .new .new readyManager) drainedLabels = some p ∧
      p.tasks.map (fun c => c.progressItems) = [[.null]] ∧
      ∀ c ∈ p.tasks, c.ProgressBeforeResult := by
  have hrun : (run connectionStep (connectionStart .new .new readyManager)
    drainedLabels).map (fun p => p.tasks.map (fun c => c.progressItems)) = some [[.null]] := rfl
  obtain ⟨p, hp, hitems⟩ := Option.map_eq_some_iff.mp hrun
  refine ⟨p, hp, hitems, (progress_precedes_drained_result hp).2.1 (by decide)⟩

end GlobalpingProbe.Probe
