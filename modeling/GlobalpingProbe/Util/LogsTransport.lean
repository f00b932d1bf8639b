import GlobalpingProbe.Foundation.LossyQueue
import GlobalpingProbe.Util.Data
import Mathlib.Data.List.Induction

/-! # The buffer of log entries for the API

Entries are pushed from anywhere, the API changes the settings, and a loop takes what is there.
The oldest entries go when there are too many; how many went is sent with the next batch.
-/
namespace GlobalpingProbe
open Foundation

structure LogEntry where
  message : Text
  level : Text
  timestamp : Text
  scope : Text
  deriving DecidableEq, Repr

structure LogSettings where
  isActive : Bool
  sendIntervalMs : ℕ
  maxBufferSize : ℕ
  deriving DecidableEq, Repr

def LogSettings.default : LogSettings := ⟨false, 10000, 100⟩

/-- What `take` sends: the object with the fields `logs` and `skipped`. -/
structure LogsPayload where
  logs : List LogEntry
  skipped : ℕ
  deriving DecidableEq, Repr

structure ApiLogsBuffer where
  entries : List LogEntry
  dropped : ℕ
  settings : LogSettings
  deriving DecidableEq, Repr

namespace ApiLogsBuffer

def new : ApiLogsBuffer := ⟨[], 0, .default⟩

def push (g : ApiLogsBuffer) (entry : LogEntry) : ApiLogsBuffer :=
  let entries := g.entries ++ [entry]
  let overflow := entries.length - g.settings.maxBufferSize
  if overflow > 0 then { g with entries := entries.drop overflow, dropped := g.dropped + overflow }
  else { g with entries := entries }

def update (g : ApiLogsBuffer) (isActive : Option Bool) (sendIntervalMs maxBufferSize : Option ℕ) :
    ApiLogsBuffer :=
  { g with settings :=
    { isActive := isActive.getD g.settings.isActive
      sendIntervalMs := sendIntervalMs.getD g.settings.sendIntervalMs
      maxBufferSize := maxBufferSize.getD g.settings.maxBufferSize } }

def take (g : ApiLogsBuffer) : Option LogsPayload × ApiLogsBuffer :=
  if !g.settings.isActive || g.entries.isEmpty then (none, g)
  else (some ⟨g.entries, g.dropped⟩, { g with entries := [], dropped := 0 })

end ApiLogsBuffer

inductive LogOp where
  | push (entry : LogEntry)
  | update (isActive : Option Bool) (sendIntervalMs maxBufferSize : Option ℕ)
  | take
  deriving DecidableEq, Repr

/-- The buffer with the payloads taken from it so far. -/
structure LogRun where
  buffer : ApiLogsBuffer
  payloads : List LogsPayload
  deriving DecidableEq, Repr

namespace LogRun

def step (r : LogRun) : LogOp → LogRun
  | .push entry => { r with buffer := r.buffer.push entry }
  | .update isActive sendIntervalMs maxBufferSize =>
    { r with buffer := r.buffer.update isActive sendIntervalMs maxBufferSize }
  | .take => ⟨r.buffer.take.2, r.payloads ++ r.buffer.take.1.toList⟩

def after (ops : List LogOp) : LogRun := ops.foldl step ⟨.new, []⟩

end LogRun

def pushedEntries (ops : List LogOp) : List LogEntry :=
  ops.filterMap (fun op => match op with
    | .push entry => some entry
    | _ => none)

/-! ## The buffer is a queue that loses its oldest entries -/

def ApiLogsBuffer.queue (g : ApiLogsBuffer) : LossyQueue LogEntry := ⟨g.entries, g.dropped⟩

def LogsPayload.batch (p : LogsPayload) : Batch LogEntry := ⟨p.logs, p.skipped⟩

/-- A push may lose entries, also the new one when the buffer has no room at all. -/
theorem queue_push (g : ApiLogsBuffer) (entry : LogEntry) :
    ∃ n, (g.push entry).queue = (g.queue.enqueue entry).lose n := by
  refine ⟨(g.entries ++ [entry]).length - g.settings.maxBufferSize, ?_⟩
  unfold ApiLogsBuffer.push
  dsimp only
  split
  · simp [ApiLogsBuffer.queue, LossyQueue.lose, LossyQueue.enqueue]
  · next hroom =>
    rw [Nat.eq_zero_of_not_pos hroom]
    simp [ApiLogsBuffer.queue, LossyQueue.lose, LossyQueue.enqueue]

/-- What is pushed and what is taken by one more operation keep the account. -/
theorem accounts_step {pushed : List LogEntry} {r : LogRun}
    (h : LossyQueue.Accounts pushed (r.payloads.map LogsPayload.batch) r.buffer.queue) (op : LogOp) :
    LossyQueue.Accounts (pushed ++ pushedEntries [op])
      ((r.step op).payloads.map LogsPayload.batch) (r.step op).buffer.queue := by
  cases op with
  | push entry =>
    obtain ⟨n, hn⟩ := queue_push r.buffer entry
    simpa [LogRun.step, pushedEntries, hn] using (h.enqueue entry).lose n
  | update =>
    rw [pushedEntries, List.filterMap_cons, List.filterMap_nil, List.append_nil]
    exact h
  | take =>
    rw [pushedEntries, List.filterMap_cons, List.filterMap_nil, List.append_nil]
    simp only [LogRun.step, ApiLogsBuffer.take]
    split
    · simpa using h
    · rw [Option.toList_some, List.map_append]
      exact h.flush

theorem accounts_after (ops : List LogOp) :
    LossyQueue.Accounts (pushedEntries ops) ((LogRun.after ops).payloads.map LogsPayload.batch)
      (LogRun.after ops).buffer.queue := by
  induction ops using List.reverseRecOn with
  | nil => exact LossyQueue.accounts_empty
  | append_singleton ops op ih =>
    have hpushed : pushedEntries (ops ++ [op]) = pushedEntries ops ++ pushedEntries [op] :=
      List.filterMap_append
    rw [hpushed, LogRun.after, List.foldl_append]
    exact accounts_step ih op

/-- Every entry pushed is accounted for: sent, skipped, buffered or dropped. They are sent in
order, and each payload skips exactly the entries lost between the one before and its own. -/
theorem logs_conserved (ops : List LogOp) :
    let payloads := (LogRun.after ops).payloads
    let buffer := (LogRun.after ops).buffer
    (pushedEntries ops).length = (payloads.map (fun p => p.logs.length)).sum +
      (payloads.map LogsPayload.skipped).sum + buffer.entries.length + buffer.dropped ∧
    (payloads.flatMap LogsPayload.logs ++ buffer.entries).Sublist (pushedEntries ops) ∧
    ∃ (losses : List (List LogEntry)) (lost : List LogEntry),
      losses.map List.length = payloads.map LogsPayload.skipped ∧ lost.length = buffer.dropped ∧
        pushedEntries ops = (List.zipWith (fun gone p => gone ++ p.logs) losses payloads).flatten ++
          lost ++ buffer.entries := by
  have haccounts := accounts_after ops
  have hlength := haccounts.length_eq
  have hsublist := haccounts.sublist
  obtain ⟨losses, lost, hlosses, hlost, hpushed⟩ := haccounts
  simp only [List.map_map] at hlength hlosses
  refine ⟨hlength, ?_, losses, lost, hlosses, hlost, ?_⟩
  · simpa [List.flatMap_map, ApiLogsBuffer.queue, LogsPayload.batch] using hsublist
  · simpa [LossyQueue.woven, List.zipWith_map_right, ApiLogsBuffer.queue, LogsPayload.batch]
      using hpushed

/-! ## The size of the buffer -/

def ApiLogsBuffer.Bounded (g : ApiLogsBuffer) : Prop :=
  g.entries.length ≤ g.settings.maxBufferSize

/-- What `take` sends has no more entries than the limit in force. -/
def ApiLogsBuffer.PayloadBounded (g : ApiLogsBuffer) : Prop :=
  ∀ p ∈ g.take.1, p.logs.length ≤ g.settings.maxBufferSize

/-- A new limit is not below what is buffered. -/
def LogOp.KeepsRoom (g : ApiLogsBuffer) : LogOp → Prop
  | .update _ _ (some limit) => g.entries.length ≤ limit
  | _ => True

section Size
variable {g : ApiLogsBuffer}

/-- A push brings the buffer within the limit, whatever it was before. -/
theorem push_bounded (g : ApiLogsBuffer) (entry : LogEntry) : (g.push entry).Bounded := by
  unfold ApiLogsBuffer.push ApiLogsBuffer.Bounded
  dsimp only
  split
  · dsimp only
    rw [List.length_drop]
    omega
  · dsimp only
    omega

theorem take_bounded (h : g.Bounded) : g.take.2.Bounded := by
  unfold ApiLogsBuffer.take
  split
  · exact h
  · exact Nat.zero_le _

theorem payloadBounded_of_bounded (h : g.Bounded) : g.PayloadBounded := by
  intro p hp
  unfold ApiLogsBuffer.take at hp
  split at hp
  · cases hp
  · cases hp
    exact h

theorem step_bounded_iff {r : LogRun} (h : r.buffer.Bounded) (op : LogOp) :
    (r.step op).buffer.Bounded ↔ op.KeepsRoom r.buffer := by
  cases op with
  | push entry => exact iff_of_true (push_bounded r.buffer entry) trivial
  | update isActive sendIntervalMs maxBufferSize =>
    cases maxBufferSize with
    | none => exact iff_of_true h trivial
    | some limit => exact Iff.rfl
  | take => exact iff_of_true (take_bounded h) trivial

end Size

theorem LogRun.after_append (ops : List LogOp) (op : LogOp) :
    LogRun.after (ops ++ [op]) = (LogRun.after ops).step op :=
  List.foldl_append

/-- Every change of the limit along the operations leaves room for what is buffered. -/
def KeepsRoomAlong (ops : List LogOp) : Prop :=
  ∀ front op, front ++ [op] <+: ops → op.KeepsRoom (LogRun.after front).buffer

/-- The buffer keeps to its limit in every state, and so does every payload, exactly when no
change of the settings puts the limit below what is buffered. -/
theorem bounded_iff_keepsRoom (ops : List LogOp) :
    (∀ front, front <+: ops →
      (LogRun.after front).buffer.Bounded ∧ (LogRun.after front).buffer.PayloadBounded) ↔
    KeepsRoomAlong ops := by
  constructor
  · intro hall front op hfront
    have hbefore := (hall front ((List.prefix_append front [op]).trans hfront)).1
    have hnext := (hall _ hfront).1
    rw [LogRun.after_append] at hnext
    exact (step_bounded_iff hbefore op).mp hnext
  · intro hroom front hfront
    have hbounded : (LogRun.after front).buffer.Bounded := by
      induction front using List.reverseRecOn with
      | nil => exact Nat.zero_le _
      | append_singleton front op ih =>
        rw [LogRun.after_append]
        exact (step_bounded_iff (ih ((List.prefix_append front [op]).trans hfront)) op).mpr
          (hroom front op hfront)
    exact ⟨hbounded, payloadBounded_of_bounded hbounded⟩

def startupEntry : LogEntry := ⟨"up".toList, "info".toList, "0".toList, "general".toList⟩

/-- Two entries are buffered when the API lowers the limit to one. -/
def loweredLimitOps : List LogOp :=
  [.update (some true) none none, .push startupEntry, .push startupEntry,
    .update none none (some 1)]

theorem loweredLimit_exceeded :
    ¬ (LogRun.after loweredLimitOps).buffer.Bounded ∧
      ¬ (LogRun.after loweredLimitOps).buffer.PayloadBounded := by
  constructor
  · unfold ApiLogsBuffer.Bounded
    decide
  · intro h
    exact absurd (h ⟨[startupEntry, startupEntry], 0⟩ rfl) (by decide)

end GlobalpingProbe
