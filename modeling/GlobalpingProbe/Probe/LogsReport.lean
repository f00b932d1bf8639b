import GlobalpingProbe.Foundation.Strings
import GlobalpingProbe.Probe.StatsReport
import GlobalpingProbe.Util.LogsTransport

/-! # What the log payloads of all sessions add up to

There is one buffer for the whole process, and a loop beside each session that takes what is in
it and emits it. A payload that the loop has taken is out of the buffer before it is emitted, so
it is lost with a failed emit or with the session.
-/
namespace GlobalpingProbe.Probe
open Foundation Status Reconnect

inductive LogLevel where
  | error
  | warn
  | info
  | debug
  | trace
  deriving DecidableEq, Repr

/-- The name of the level in lower case. -/
def LogLevel.toText : LogLevel → Text
  | .error => "error".toList
  | .warn => "warn".toList
  | .info => "info".toList
  | .debug => "debug".toList
  | .trace => "trace".toList

structure LogEvent where
  target : Text
  level : LogLevel
  message : Text
  timestamp : Text
  deriving DecidableEq, Repr

/-- What the layer pushes for an event; those that come from the bridge of the `log` crate are
left out. -/
def onEvent (event : LogEvent) : Option LogEntry :=
  if event.target = "log".toList then none
  else some
    { message := event.message
      level := event.level.toText
      timestamp := event.timestamp
      scope := if contains "::".toList event.target then "general".toList else event.target }

/-- Where the loop stands: asleep, or with a payload before its emit. -/
inductive LogsLoop where
  | sleeping
  | sending (payload : LogsPayload)
  deriving DecidableEq, Repr

def LogsLoop.inHand : LogsLoop → List LogsPayload
  | .sleeping => []
  | .sending payload => [payload]

/-- The client with the buffer, the loop of the session, and what became of the payloads taken. -/
structure LogSender where
  world : World
  buffer : ApiLogsBuffer
  loop : LogsLoop
  sent : List (LogsPayload × Bool)

inductive LogLabel where
  | client (label : ClientLabel)
  | event (event : LogEvent)
  | configure (isActive : Option Bool) (sendIntervalMs maxBufferSize : Option ℕ)
  | take
  | emit (ok : Bool)

/-- The logs loop lives as long as the stats loop of its session. -/
def logStep (s : LogSender) : LogLabel → Option LogSender
  | .client label => (clientStep s.world label).map (fun w =>
      if w.stage.statsLoop = s.world.stage.statsLoop then { s with world := w }
      else { s with
        world := w, loop := .sleeping, sent := s.sent ++ s.loop.inHand.map (fun p => (p, false)) })
  | .event event =>
    match onEvent event with
    | some entry => some { s with buffer := s.buffer.push entry }
    | none => some s
  | .configure isActive sendIntervalMs maxBufferSize =>
    some { s with buffer := s.buffer.update isActive sendIntervalMs maxBufferSize }
  | .take =>
    match s.world.stage.statsLoop, s.loop with
    | some _, .sleeping => some { s with
        buffer := s.buffer.take.2
        loop := (s.buffer.take.1.map LogsLoop.sending).getD .sleeping }
    | _, _ => none
  | .emit ok =>
    match s.loop with
    | .sending payload => some { s with loop := .sleeping, sent := s.sent ++ [(payload, ok)] }
    | .sleeping => none

def logStart (host : Text) : LogSender := ⟨clientStart host, .new, .sleeping, []⟩

/-- The entries that the labels push. -/
def entriesOf (labels : List LogLabel) : List LogEntry :=
  labels.filterMap (fun label => match label with
    | .event event => onEvent event
    | _ => none)

/-- All that a payload speaks of: its entries and those that were dropped before it. -/
def LogsPayload.size (p : LogsPayload) : ℕ := p.logs.length + p.skipped

namespace LogSender

def delivered (s : LogSender) : List LogsPayload := (s.sent.filter (fun p => p.2)).map Prod.fst

def lost (s : LogSender) : List LogsPayload := (s.sent.filter (fun p => !p.2)).map Prod.fst

/-- The entries that the API got or was told to be dropped. -/
def told (s : LogSender) : ℕ := (s.delivered.map LogsPayload.size).sum

/-- The entries that a later payload will bring or tell of. -/
def held (s : LogSender) : ℕ :=
  (s.loop.inHand.map LogsPayload.size).sum + s.buffer.entries.length + s.buffer.dropped

/-- The payloads that one step loses. -/
def losses (s : LogSender) : LogLabel → List LogsPayload
  | .emit ok => if ok then [] else s.loop.inHand
  | .client (.main a) => if a.endsSession then s.loop.inHand else []
  | _ => []

/-- The buffer with all that was taken from it, whatever became of it. -/
def logRun (s : LogSender) : LogRun := ⟨s.buffer, s.sent.map Prod.fst ++ s.loop.inHand⟩

/-- The loop is only busy while its session lasts, and what it takes is never empty. -/
structure Sound (s : LogSender) : Prop where
  alive : s.world.stage.statsLoop = none → s.loop = .sleeping
  full : ∀ p ∈ s.logRun.payloads, p.logs ≠ []

end LogSender

/-- No emit fails, and no session ends with a payload in the hand of its loop. -/
def KeepsLogs (s : LogSender) (label : LogLabel) : Prop := s.losses label = []

instance (s : LogSender) (label : LogLabel) : Decidable (KeepsLogs s label) :=
  inferInstanceAs (Decidable (s.losses label = []))

section Step
variable {s t : LogSender} {label : LogLabel}

/-- A step pushes the entry of its label, takes a payload, or leaves the buffer alone. -/
theorem logStep_logRun (h : logStep s label = some t) :
    ∃ ops, pushedEntries ops = entriesOf [label] ∧ t.logRun = ops.foldl LogRun.step s.logRun := by
  cases label with
  | client label =>
    obtain ⟨w, -, rfl⟩ := Option.map_eq_some_iff.mp h
    refine ⟨[], rfl, ?_⟩
    split_ifs
    · rfl
    · simp [LogSender.logRun, LogsLoop.inHand, Function.comp_def]
  | event event =>
    simp only [logStep] at h
    cases hentry : onEvent event with
    | none =>
      rw [hentry] at h
      cases h
      exact ⟨[], by simp [entriesOf, pushedEntries, hentry], rfl⟩
    | some entry =>
      rw [hentry] at h
      cases h
      exact ⟨[.push entry], by simp [entriesOf, pushedEntries, hentry], rfl⟩
  | configure isActive sendIntervalMs maxBufferSize =>
    cases h
    exact ⟨[.update isActive sendIntervalMs maxBufferSize], rfl, rfl⟩
  | take =>
    simp only [logStep] at h
    split at h
    · next hloop =>
      cases h
      refine ⟨[.take], rfl, ?_⟩
      simp only [LogSender.logRun, hloop, LogsLoop.inHand, List.append_nil, List.foldl_cons,
        List.foldl_nil, LogRun.step]
      cases s.buffer.take.1 <;> rfl
    · cases h
  | emit ok =>
    simp only [logStep] at h
    split at h
    · next payload hloop =>
      cases h
      exact ⟨[], rfl, by simp [LogSender.logRun, hloop, LogsLoop.inHand]⟩
    · cases h

theorem take_logs_ne_nil {g : ApiLogsBuffer} {p : LogsPayload} (h : g.take.1 = some p) :
    p.logs ≠ [] := by
  unfold ApiLogsBuffer.take at h
  split at h
  · cases h
  · next hfull =>
    cases h
    rw [Bool.or_eq_true, not_or, List.isEmpty_iff] at hfull
    exact hfull.2

theorem step_payloads_full {r : LogRun} (h : ∀ p ∈ r.payloads, p.logs ≠ []) (op : LogOp) :
    ∀ p ∈ (r.step op).payloads, p.logs ≠ [] := by
  cases op with
  | push | update => exact h
  | take =>
    refine List.forall_mem_append.mpr ⟨h, fun p hp => ?_⟩
    exact take_logs_ne_nil (Option.mem_toList.mp hp)

theorem logStep_full (hs : ∀ p ∈ s.logRun.payloads, p.logs ≠ []) (h : logStep s label = some t) :
    ∀ p ∈ t.logRun.payloads, p.logs ≠ [] := by
  obtain ⟨ops, -, hops⟩ := logStep_logRun h
  rw [hops]
  clear hops
  induction ops using List.reverseRecOn with
  | nil => exact hs
  | append_singleton ops op ih =>
    rw [List.foldl_append]
    exact step_payloads_full ih op

/-- A step of the client that is none of the main task leaves the session as it is. -/
theorem clientStep_statsLoop {w w' : World} {label : ClientLabel}
    (h : clientStep w label = some w') : w'.stage.statsLoop = w.stage.statsLoop ∨
      ∃ a, label = .main a ∧ w.mainStep a = some w' := by
  cases label with
  | main a => exact .inr ⟨a, rfl, h⟩
  | request k req => exact .inl (congrArg _ (update_stage h))
  | call k i a => exact .inl (congrArg _ (update_stage h))
  | status e =>
    cases h
    exact .inl rfl

/-- What the step of a client loses is what the loop had in hand at the end of the session. -/
theorem losses_client (hs : s.world.stage.statsLoop = none → s.loop = .sleeping)
    {label : ClientLabel} {w : World} (h : clientStep s.world label = some w) :
    s.losses (.client label) =
      if w.stage.statsLoop = s.world.stage.statsLoop then [] else s.loop.inHand := by
  have hhand : s.world.stage.statsLoop = none → s.loop.inHand = [] := by
    intro hn
    rw [hs hn]
    rfl
  rcases clientStep_statsLoop h with hsame | ⟨a, rfl, hmain⟩
  · rw [if_pos hsame]
    cases label with
    | request | call | status => rfl
    | main a =>
      simp only [LogSender.losses]
      rcases mainStep_statsLoop h with ⟨hends, hn⟩ | ⟨hends, -⟩
      · rw [if_pos hends]
        exact hhand (hsame.symm.trans hn)
      · rw [hends]
        rfl
  · simp only [LogSender.losses]
    rcases mainStep_statsLoop hmain with ⟨hends, hn⟩ | ⟨hends, hsame | hn⟩
    · rw [if_pos hends]
      split_ifs with hsame
      · exact hhand (hsame.symm.trans hn)
      · rfl
    · rw [hends, if_pos hsame]
      rfl
    · rw [hends, hhand hn, ite_self, ite_self]

theorem lost_append (sent : List (LogsPayload × Bool)) (hand : List LogsPayload) :
    ((sent ++ hand.map (fun p => (p, false))).filter (fun p => !p.2)).map Prod.fst =
      (sent.filter (fun p => !p.2)).map Prod.fst ++ hand := by
  simp [List.filter_append, List.filter_map, Function.comp_def]

theorem logStep_lost (hs : s.Sound) (h : logStep s label = some t) :
    t.lost = s.lost ++ s.losses label := by
  cases label with
  | client label =>
    obtain ⟨w, hw, rfl⟩ := Option.map_eq_some_iff.mp h
    rw [losses_client hs.alive hw]
    split_ifs
    · rw [List.append_nil]
      rfl
    · exact lost_append s.sent s.loop.inHand
  | event event =>
    simp only [logStep] at h
    split at h
    · cases h
      exact (List.append_nil _).symm
    · cases h
      exact (List.append_nil _).symm
  | configure =>
    cases h
    exact (List.append_nil _).symm
  | take =>
    simp only [logStep] at h
    split at h
    · cases h
      exact (List.append_nil _).symm
    · cases h
  | emit ok =>
    simp only [logStep] at h
    split at h
    · next payload hloop =>
      cases h
      cases ok with
      | true => simp [LogSender.lost, LogSender.losses]
      | false => simp [LogSender.lost, LogSender.losses, hloop, LogsLoop.inHand]
    · cases h

theorem logStep_alive (hs : s.world.stage.statsLoop = none → s.loop = .sleeping)
    (h : logStep s label = some t) : t.world.stage.statsLoop = none → t.loop = .sleeping := by
  cases label with
  | client label =>
    obtain ⟨w, -, rfl⟩ := Option.map_eq_some_iff.mp h
    split_ifs with hsame
    · exact fun hn => hs (hsame.symm.trans hn)
    · exact fun _ => rfl
  | event event =>
    simp only [logStep] at h
    split at h
    · cases h
      exact hs
    · cases h
      exact hs
  | configure =>
    cases h
    exact hs
  | take =>
    simp only [logStep] at h
    split at h
    · next k hk hloop =>
      cases h
      exact fun hn => absurd (hk.symm.trans hn) nofun
    · cases h
  | emit ok =>
    simp only [logStep] at h
    split at h
    · cases h
      exact fun _ => rfl
    · cases h

theorem logStep_sound (hs : s.Sound) (h : logStep s label = some t) : t.Sound :=
  ⟨logStep_alive hs.alive h, logStep_full hs.full h⟩

end Step

section Run
variable {host : Text} {labels : List LogLabel} {s : LogSender}

theorem logStart_sound (host : Text) : (logStart host).Sound := ⟨fun _ => rfl, nofun⟩

/-- The sender is the buffer under some operations that push the same entries. -/
theorem logRun_after (h : run logStep (logStart host) labels = some s) :
    ∃ ops, pushedEntries ops = entriesOf labels ∧ s.logRun = LogRun.after ops := by
  refine run_invariant_of_history (I := fun labels s => ∃ ops, pushedEntries ops =
    entriesOf labels ∧ s.logRun = LogRun.after ops) ⟨[], rfl, rfl⟩ ?_ h
  rintro labels label t u ⟨ops, hpushed, hrun⟩ hstep
  obtain ⟨later, hlater, hnext⟩ := logStep_logRun hstep
  refine ⟨ops ++ later, ?_, ?_⟩
  · rw [pushedEntries, List.filterMap_append, ← pushedEntries, ← pushedEntries, hpushed, hlater]
    exact List.filterMap_append.symm
  · rw [hnext, hrun]
    exact List.foldl_append.symm

theorem accounts_logSender (h : run logStep (logStart host) labels = some s) :
    LossyQueue.Accounts (entriesOf labels) (s.logRun.payloads.map LogsPayload.batch)
      s.buffer.queue := by
  obtain ⟨ops, hpushed, hrun⟩ := logRun_after h
  have haccounts := accounts_after ops
  rw [hpushed, ← hrun] at haccounts
  exact haccounts

theorem sent_size (sent : List (LogsPayload × Bool)) :
    ((sent.map Prod.fst).map LogsPayload.size).sum =
      (((sent.filter (fun p => p.2)).map Prod.fst).map LogsPayload.size).sum +
        (((sent.filter (fun p => !p.2)).map Prod.fst).map LogsPayload.size).sum := by
  induction sent with
  | nil => rfl
  | cons p sent ih =>
    obtain ⟨payload, ok⟩ := p
    cases ok with
    | true =>
      simp only [List.map_cons, List.sum_cons, ih, List.filter_cons, Bool.not_true, if_true,
        Bool.false_eq_true, if_false]
      omega
    | false =>
      simp only [List.map_cons, List.sum_cons, ih, List.filter_cons, Bool.not_false, if_true,
        Bool.false_eq_true, if_false]
      omega

theorem sum_size (payloads : List LogsPayload) : (payloads.map LogsPayload.size).sum =
    (payloads.map (fun p => p.logs.length)).sum + (payloads.map (fun p => p.skipped)).sum := by
  induction payloads with
  | nil => rfl
  | cons p payloads ih =>
    simp only [List.map_cons, List.sum_cons, ih, LogsPayload.size]
    omega

/-- Every entry was delivered or told of, was lost with its payload, or is still held. -/
theorem entries_accounted (h : run logStep (logStart host) labels = some s) :
    (entriesOf labels).length = s.told + (s.lost.map LogsPayload.size).sum + s.held := by
  have hlength := (accounts_logSender h).length_eq
  simp only [List.map_map, Function.comp_def, LogsPayload.batch, ApiLogsBuffer.queue] at hlength
  have hsize := sum_size s.logRun.payloads
  have hsent := sent_size s.sent
  have hsplit : (s.logRun.payloads.map LogsPayload.size).sum =
      ((s.sent.map Prod.fst).map LogsPayload.size).sum +
        (s.loop.inHand.map LogsPayload.size).sum := by
    rw [LogSender.logRun, List.map_append, List.sum_append]
  unfold LogSender.told LogSender.held LogSender.lost LogSender.delivered
  omega

/-- What was delivered and what is still there came in this order, and none of it twice. -/
theorem delivered_sublist (h : run logStep (logStart host) labels = some s) :
    ((s.delivered ++ s.loop.inHand).flatMap LogsPayload.logs ++ s.buffer.entries).Sublist
      (entriesOf labels) := by
  have hsublist := (accounts_logSender h).sublist
  rw [List.flatMap_map] at hsublist
  refine List.Sublist.trans (List.Sublist.append_right ?_ _) hsublist
  have hdelivered : (s.delivered ++ s.loop.inHand).Sublist s.logRun.payloads :=
    (List.filter_sublist.map Prod.fst).append_right _
  exact hdelivered.flatMap _

theorem lost_size_eq_zero (hs : s.Sound) : (s.lost.map LogsPayload.size).sum = 0 ↔ s.lost = [] := by
  constructor
  · intro hzero
    rw [List.sum_eq_zero_iff_forall_eq_nat] at hzero
    refine List.eq_nil_iff_forall_not_mem.mpr fun p hp => ?_
    have hmem : p ∈ s.logRun.payloads :=
      List.mem_append_left _ ((List.filter_sublist.map Prod.fst).subset hp)
    have hsize := hzero _ (List.mem_map_of_mem hp)
    have hpos := List.length_pos_iff.mpr (hs.full p hmem)
    unfold LogsPayload.size at hsize
    omega
  · intro hnil
    rw [hnil]
    rfl

/-- Over all sessions, the payloads that arrive bring entries in the order they were pushed and
none twice; with the lost payloads and what is still held they account for every entry. The API
can account for every entry itself, at every moment, exactly as long as no payload is lost. -/
theorem logs_accounted (h : run logStep (logStart host) labels = some s) :
    ((s.delivered ++ s.loop.inHand).flatMap LogsPayload.logs ++ s.buffer.entries).Sublist
      (entriesOf labels) ∧
    (entriesOf labels).length = s.told + (s.lost.map LogsPayload.size).sum + s.held ∧
    ((∀ front t, front <+: labels → run logStep (logStart host) front = some t →
      (entriesOf front).length = t.told + t.held) ↔
        Along logStep KeepsLogs (logStart host) labels) := by
  refine ⟨delivered_sublist h, entries_accounted h, ?_⟩
  have hkeeps : ∀ s label t, LogSender.Sound s → s.lost = [] → logStep s label = some t →
      (KeepsLogs s label ↔ t.lost = []) := by
    intro s label t hs hgood ht
    rw [logStep_lost hs ht, hgood, List.nil_append]
    exact Iff.rfl
  rw [along_iff_states_good (fun _ _ _ => logStep_sound) hkeeps (logStart_sound host) rfl h]
  refine forall₄_congr fun front t hfront ht => ?_
  have hsound := run_invariant (fun _ _ _ => logStep_sound) (logStart_sound host) ht
  have haccounted := entries_accounted ht
  rw [← lost_size_eq_zero hsound]
  omega

end Run

/-- An entry from before the connection arrives; the next one is taken when the session ends. -/
def interruptedLabels : List LogLabel :=
  [.event ⟨"status-manager".toList, .info, "up".toList, "0".toList⟩, .client (.main .connect),
    .configure (some true) none none, .take, .emit true,
    .event ⟨"probe::client".toList, .debug, "on".toList, "1".toList⟩,
    .event ⟨"log".toList, .debug, "tls".toList, "2".toList⟩, .take,
    .client (.main (.signalled .transient))]

theorem interruptedLabels_accounted : ∃ s, run logStep (logStart []) interruptedLabels = some s ∧
    s.lost.map LogsPayload.size = [1] ∧
      (entriesOf interruptedLabels).length =
        s.told + (s.lost.map LogsPayload.size).sum + s.held := by
  obtain ⟨s, hs⟩ : ∃ s, run logStep (logStart []) interruptedLabels = some s := ⟨_, rfl⟩
  refine ⟨s, hs, ?_, (logs_accounted hs).2.1⟩
  cases hs
  rfl

end GlobalpingProbe.Probe
