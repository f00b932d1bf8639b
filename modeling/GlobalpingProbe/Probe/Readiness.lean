import GlobalpingProbe.Probe.GracefulShutdown
import GlobalpingProbe.Status.DisconnectWindow

/-! # What an accepted job was checked against

The status manager is written by the status loop, two socket handlers and the shutdown, and read
by every call between its slot and its ack. What it holds is read off the history of the run, and
a call is acked only on a history that makes it ready.
-/
namespace GlobalpingProbe.Probe
open Foundation Status

namespace ClientLabel

/-- The IP versions over which a round of the ping test got through. -/
def pingRound? : ClientLabel → Option (Bool × Bool)
  | .status (.pingRound ipv4 ipv6) => some (ipv4, ipv6)
  | _ => none

def verdict? : ClientLabel → Option VerdictEvent
  | .status (.verdict e) => some e
  | _ => none

/-- A round of the VPN test ends with a recheck of the disconnects. -/
def trackerCall? : ClientLabel → Option (TrackerCall × ℕ)
  | .status (.reportDisconnect now) => some (.record, now)
  | .status (.verdict (.round _ _ now)) => some (.count, now)
  | _ => none

end ClientLabel

section History
variable (labels : List ClientLabel)

def latestPingRound : Option (Bool × Bool) := (labels.filterMap ClientLabel.pingRound?).getLast?

def verdictEvents : List VerdictEvent := labels.filterMap ClientLabel.verdict?

def trackerCalls : List (TrackerCall × ℕ) := labels.filterMap ClientLabel.trackerCall?

end History

/-- The fields of the manager, as the labels so far have written them. -/
structure Reflects (host : Text) (labels : List ClientLabel) (m : StatusManager) : Prop where
  ping : m.pingTestFailed = (latestPingRound labels).map (fun r => !r.1 && !r.2)
  verdict : m.icmpTcpTestFailed = (managerAfter host (verdictEvents labels)).icmpTcpTestFailed
  test : m.icmpTcpTest = (managerAfter host (verdictEvents labels)).icmpTcpTest
  tracker : m.disconnectTracker = trackerAfter (trackerCalls labels)
  tooMany : m.tooManyDisconnects =
    decide (maxDisconnects ≤ (trackerAfter (trackerCalls labels)).entries.length)
  sigterm : m.sigterm = true ↔ .main .setSigterm ∈ labels

/-- A history on which the status is `ready`: the host was reached over some IP version, the
latest word on a VPN is that there is none, few connections broke in the window of the latest
count, and nobody asked to stop. -/
structure ReadyAfter (labels : List ClientLabel) : Prop where
  reachable : ∃ ipv4 ipv6, latestPingRound labels = some (ipv4, ipv6) ∧ (ipv4 || ipv6) = true
  measured : (latestDiffs (verdictEvents labels)).isSome
  direct : ∀ front diffsV4 diffsV6 now,
    verdictEvents labels = front ++ [.round diffsV4 diffsV6 now] →
      vpnVerdict diffsV4 diffsV6 none = false
  steady : ∀ front c now, trackerCalls labels = front ++ [(c, now)] →
    recordedWithin (trackerCalls labels) now < maxDisconnects
  running : .main .setSigterm ∉ labels

section Concat
variable {labels : List ClientLabel} {label : ClientLabel}

theorem latestPingRound_concat : latestPingRound (labels ++ [label]) =
    label.pingRound?.or (latestPingRound labels) := by
  unfold latestPingRound
  cases h : label.pingRound? <;> simp [List.filterMap_append, h]

theorem verdictEvents_concat : verdictEvents (labels ++ [label]) =
    verdictEvents labels ++ label.verdict?.toList := by
  rw [verdictEvents, List.filterMap_append, ← verdictEvents]
  cases h : label.verdict? <;> simp [h]

theorem trackerCalls_concat : trackerCalls (labels ++ [label]) =
    trackerCalls labels ++ label.trackerCall?.toList := by
  rw [trackerCalls, List.filterMap_append, ← trackerCalls]
  cases h : label.trackerCall? <;> simp [h]

end Concat

/-- What an event makes of the verdict rests on the verdict and the test object alone. -/
theorem handleVerdictEvent_congr {m m' : StatusManager} (e : VerdictEvent)
    (hverdict : m.icmpTcpTestFailed = m'.icmpTcpTestFailed)
    (htest : m.icmpTcpTest = m'.icmpTcpTest) :
    (handleVerdictEvent m e).icmpTcpTestFailed = (handleVerdictEvent m' e).icmpTcpTestFailed ∧
      (handleVerdictEvent m e).icmpTcpTest = (handleVerdictEvent m' e).icmpTcpTest := by
  cases e with
  | round diffsV4 diffsV6 now => exact ⟨rfl, htest⟩
  | isProxy payload =>
    simp only [handleVerdictEvent, isProxyHandler, onProxyStatus_failed, onProxyStatus_test,
      hverdict, htest, and_self]

section Steps
variable {host : Text} {labels : List ClientLabel} {label : ClientLabel} {m m' : StatusManager}

/-- The fields after one more label, each of them as the label leaves it. -/
theorem Reflects.concat (h : Reflects host labels m)
    (hping : m'.pingTestFailed =
      (label.pingRound?.map (fun r => !r.1 && !r.2)).or m.pingTestFailed)
    (hverdict : m'.icmpTcpTestFailed =
      (label.verdict?.toList.foldl handleVerdictEvent m).icmpTcpTestFailed)
    (htest : m'.icmpTcpTest = (label.verdict?.toList.foldl handleVerdictEvent m).icmpTcpTest)
    (htracker : m'.disconnectTracker =
      label.trackerCall?.toList.foldl DisconnectTracker.call m.disconnectTracker)
    (htooMany : m'.tooManyDisconnects = (label.trackerCall?.map (fun c =>
      decide (maxDisconnects ≤ (m.disconnectTracker.call c).entries.length))).getD
        m.tooManyDisconnects)
    (hsigterm : m'.sigterm = true ↔ m.sigterm = true ∨ label = .main .setSigterm) :
    Reflects host (labels ++ [label]) m' := by
  constructor
  case ping => rw [hping, latestPingRound_concat, h.ping, Option.map_or]
  case verdict =>
    rw [hverdict, verdictEvents_concat]
    cases label.verdict? with
    | none => simpa using h.verdict
    | some e =>
      rw [Option.toList_some, managerAfter_concat]
      exact (handleVerdictEvent_congr e h.verdict h.test).1
  case test =>
    rw [htest, verdictEvents_concat]
    cases label.verdict? with
    | none => simpa using h.test
    | some e =>
      rw [Option.toList_some, managerAfter_concat]
      exact (handleVerdictEvent_congr e h.verdict h.test).2
  case tracker => rw [htracker, trackerCalls_concat, trackerAfter, List.foldl_append, h.tracker]; rfl
  case tooMany =>
    rw [htooMany, trackerCalls_concat]
    cases label.trackerCall? with
    | none => simpa using h.tooMany
    | some c =>
      rw [Option.toList_some, trackerAfter, List.foldl_concat, ← trackerAfter, ← h.tracker]
      rfl
  case sigterm => rw [hsigterm, h.sigterm, List.mem_append, List.mem_singleton, eq_comm (a := label)]

/-- A label that leaves the manager alone. -/
theorem Reflects.other (h : Reflects host labels m) (hstatus : ∀ e, label ≠ .status e)
    (hsigterm : label ≠ .main .setSigterm) : Reflects host (labels ++ [label]) m := by
  cases label with
  | status e => exact absurd rfl (hstatus e)
  | main | request | call => exact h.concat rfl rfl rfl rfl rfl (by simp [hsigterm])

theorem Reflects.status (h : Reflects host labels m) (e : StatusChange) :
    Reflects host (labels ++ [.status e]) (handleStatusChange m e) := by
  have hsigterm : (handleStatusChange m e).sigterm = true ↔
      m.sigterm = true ∨ ClientLabel.status e = .main .setSigterm := by simp
  cases e with
  | pingRound | reportDisconnect => exact h.concat rfl rfl rfl rfl rfl hsigterm
  | verdict e =>
    cases e with
    | round => exact h.concat rfl rfl rfl rfl rfl hsigterm
    | isProxy payload =>
      obtain ⟨htracker, htooMany⟩ := onProxyStatus_tracker m (proxyFlag payload)
      exact h.concat (onProxyStatus_ping m _) rfl rfl htracker htooMany hsigterm

end Steps

theorem clientStep_reflects {host : Text} {labels : List ClientLabel} {label : ClientLabel}
    {w w' : World} (hw : Reflects host labels w.status) (h : clientStep w label = some w') :
    Reflects host (labels ++ [label]) w'.status := by
  cases label with
  | status e => cases h; exact hw.status e
  | request | call =>
    obtain ⟨c, c', -, -, rfl⟩ := update_eq_some.mp h
    exact hw.other nofun nofun
  | main a =>
    cases World.mainStep_move h with
    | sigterm => exact hw.concat rfl rfl rfl rfl rfl (by simp [StatusManager.setSigterm])
    | connected | failed | stopped | shutdown | signalled | busy | free | begun | drained | timedOut
    | disconnected => exact hw.other nofun nofun

theorem run_reflects {host : Text} {labels : List ClientLabel} {w : World}
    (h : run clientStep (clientStart host) labels = some w) : Reflects host labels w.status := by
  have hstart : Reflects host [] (clientStart host).status :=
    ⟨rfl, rfl, rfl, rfl, rfl, by simp [clientStart, StatusManager.withApiHost]⟩
  exact run_invariant_of_history (I := fun labels w => Reflects host labels w.status) hstart
    (fun _ _ _ _ => clientStep_reflects) h

theorem getStatus_eq_ready_iff {m : StatusManager} : m.getStatus = .ready ↔
    m.sigterm = false ∧ m.pingTestFailed = some false ∧ m.icmpTcpTestFailed = some false ∧
      m.tooManyDisconnects = false := by
  unfold StatusManager.getStatus
  cases m.sigterm <;> cases hp : m.pingTestFailed <;> cases hv : m.icmpTcpTestFailed <;>
    cases m.tooManyDisconnects <;> simp <;> split_ifs <;> simp_all

/-- The latest word on a VPN clears the host exactly when there has been a round, and a round
that came last shows no detour. -/
theorem verdict_eq_some_false_iff (host : Text) (events : List VerdictEvent) :
    (managerAfter host events).icmpTcpTestFailed = some false ↔
      (latestDiffs events).isSome ∧ ∀ front diffsV4 diffsV6 now,
        events = front ++ [.round diffsV4 diffsV6 now] → vpnVerdict diffsV4 diffsV6 none = false := by
  have hsome := (managerAfter_invariant host events).2.2
  constructor
  · intro h
    rw [h] at hsome
    refine ⟨hsome.symm, ?_⟩
    rintro front diffsV4 diffsV6 now rfl
    rw [verdict_after_round] at h
    exact Option.some.inj h
  · rintro ⟨hmeasured, hdirect⟩
    cases events using List.reverseRecOn with
    | nil => simp [latestDiffs] at hmeasured
    | append_singleton front e =>
      cases e with
      | round diffsV4 diffsV6 now =>
        rw [verdict_after_round, hdirect front diffsV4 diffsV6 now rfl]
      | isProxy payload =>
        rw [latestDiffs_concat_isProxy] at hmeasured
        exact verdict_after_isProxy host front payload hmeasured

/-- A call on the tracker leaves nothing that has expired at its own instant. -/
theorem evictExpired_call (t : DisconnectTracker) (c : TrackerCall) (now : ℕ) :
    (t.call (c, now)).evictExpired now = t.call (c, now) := by
  cases c with
  | record =>
    have hself : 0 < disconnectTtl := by decide
    simp [DisconnectTracker.call, DisconnectTracker.record, DisconnectTracker.evictExpired, hself]
  | count => simp [DisconnectTracker.call, DisconnectTracker.count, DisconnectTracker.evictExpired]

/-- So it leaves the records of its window. -/
theorem trackerAfter_entries_length {calls : List (TrackerCall × ℕ)} {c : TrackerCall} {now : ℕ}
    (h : ((calls ++ [(c, now)]).map Prod.snd).Pairwise (· ≤ ·)) :
    (trackerAfter (calls ++ [(c, now)])).entries.length =
      recordedWithin (calls ++ [(c, now)]) now := by
  have hagain : ((calls ++ [(c, now)]).map Prod.snd ++ [now]).Pairwise (· ≤ ·) := by
    refine List.pairwise_append.mpr ⟨h, List.pairwise_singleton _ _, ?_⟩
    rw [List.map_append, List.map_singleton, List.pairwise_append] at h
    simp only [List.map_append, List.map_singleton, List.mem_append, List.mem_singleton]
    rintro a (ha | rfl) b rfl
    · exact h.2.2 a ha b (List.mem_singleton_self b)
    · exact le_rfl
  have hkept : (trackerAfter (calls ++ [(c, now)])).evictExpired now =
      trackerAfter (calls ++ [(c, now)]) := by
    rw [trackerAfter, List.foldl_concat]
    exact evictExpired_call _ c now
  rw [← hkept, evictExpired_trackerAfter hagain, ← List.countP_eq_length_filter,
    List.countP_reverse, recordedWithin]

theorem tooMany_eq_false_iff {calls : List (TrackerCall × ℕ)}
    (h : (calls.map Prod.snd).Pairwise (· ≤ ·)) :
    decide (maxDisconnects ≤ (trackerAfter calls).entries.length) = false ↔
      ∀ front c now, calls = front ++ [(c, now)] → recordedWithin calls now < maxDisconnects := by
  rw [decide_eq_false_iff_not, Nat.not_le]
  constructor
  · rintro hfew front c now rfl
    rwa [trackerAfter_entries_length h] at hfew
  · intro hfew
    cases calls using List.reverseRecOn with
    | nil => decide
    | append_singleton front c =>
      rw [trackerAfter_entries_length h]
      exact hfew front c.1 c.2 rfl

theorem Reflects.ready_iff {host : Text} {labels : List ClientLabel} {m : StatusManager}
    (h : Reflects host labels m) (hclock : ((trackerCalls labels).map Prod.snd).Pairwise (· ≤ ·)) :
    m.getStatus = .ready ↔ ReadyAfter labels := by
  have hping : m.pingTestFailed = some false ↔
      ∃ ipv4 ipv6, latestPingRound labels = some (ipv4, ipv6) ∧ (ipv4 || ipv6) = true := by
    rw [h.ping, Option.map_eq_some_iff]
    constructor
    · rintro ⟨⟨ipv4, ipv6⟩, hlatest, hround⟩
      exact ⟨ipv4, ipv6, hlatest, by simpa only [← Bool.not_or, Bool.not_eq_false'] using hround⟩
    · rintro ⟨ipv4, ipv6, hlatest, hround⟩
      exact ⟨(ipv4, ipv6), hlatest, by simpa only [← Bool.not_or, Bool.not_eq_false'] using hround⟩
  have hsigterm : m.sigterm = false ↔ .main .setSigterm ∉ labels := by
    rw [← Bool.not_eq_true, h.sigterm]
  rw [getStatus_eq_ready_iff, hsigterm, hping, h.verdict, verdict_eq_some_false_iff, h.tooMany,
    tooMany_eq_false_iff hclock]
  constructor
  · rintro ⟨hrunning, hreachable, ⟨hmeasured, hdirect⟩, hsteady⟩
    exact ⟨hreachable, hmeasured, hdirect, hsteady, hrunning⟩
  · rintro ⟨hreachable, hmeasured, hdirect, hsteady, hrunning⟩
    exact ⟨hrunning, hreachable, ⟨hmeasured, hdirect⟩, hsteady⟩

/-- A call that has its check behind it and was not turned away. -/
def Stage.passedCheck : Stage → Bool
  | .created | .slotHeld => false
  | .leaving .noSlot | .leaving .notReady | .returned .noSlot | .returned .notReady => false
  | _ => true

theorem passedCheck_of_acked {c : Call} (ht : c.Tracks) (ha : c.acked) :
    c.stage.passedCheck = true := by
  have htally := ht.tally
  unfold Call.acked at ha
  cases hs : c.stage with
  | created | slotHeld => simp_all [Stage.tally]
  | leaving exit | returned exit => cases exit <;> simp_all [Stage.tally, Stage.passedCheck]
  | _ => rfl

theorem passedCheck_not_turnedAway {s : Stage} (h : s.passedCheck = true) :
    s.turnedAway = false := by
  cases s with
  | leaving exit | returned exit => cases exit <;> first | rfl | cases h
  | _ => rfl

/-- Only the check itself brings a call past the check, and only under a status that is ready. -/
theorem passedCheck_step {sh sh' : Shared} {c c' : Call} {a : CallStep}
    (h : c.step sh a = some (sh', c')) : c'.stage.passedCheck = true ↔
      c.stage.passedCheck = true ∨ (a = .readStatus ∧ sh.status.getStatus = .ready) := by
  cases Call.step_move h with
  | notReady hs hr => simp [hs, hr, Stage.passedCheck]
  | ready hs hr => simp [hr, Stage.passedCheck]
  | acquired hs | refused hs | acked hs | ackFailed hs | known hs | unknown hs | answeredUnknown hs
  | started hs | sent hs | ended hs | finished hs | answered hs => simp [hs, Stage.passedCheck]
  | @dropped exit hs => cases exit <;> simp [hs, Stage.passedCheck]
  | received | forwarded => simp

theorem call_of_set {w : World} {k j i : ℕ} {c' : Connection} {s : MainStage} {call : Call}
    (h : World.call ⟨w.status, w.connections.set k c', s⟩ j i = some call) :
    (j = k ∧ c'.calls[i]? = some call) ∨ w.call j i = some call := by
  obtain ⟨d, hd, hcall⟩ := call_eq_some.mp h
  rcases getElem?_set_cases hd with ⟨rfl, rfl⟩ | ⟨-, hd⟩
  · exact .inl ⟨rfl, hcall⟩
  · exact .inr (call_eq_some.mpr ⟨d, hd, hcall⟩)

/-- A call that is seen after a step was there before it, or is new. -/
theorem clientStep_call_back {w w' : World} {label : ClientLabel}
    (h : clientStep w label = some w') {k i : ℕ} {call : Call} (hcall : w'.call k i = some call) :
    (∃ old, w.call k i = some old) ∨ call.stage = .created := by
  cases label with
  | status e => cases h; exact .inl ⟨call, hcall⟩
  | main a =>
    left
    cases World.mainStep_move h with
    | failed | stopped | shutdown | signalled | sigterm | busy | free => exact ⟨call, hcall⟩
    | connected =>
      obtain ⟨d, hd, hi⟩ := call_eq_some.mp hcall
      rcases getElem?_concat_cases hd with hd | ⟨-, rfl⟩
      · exact ⟨call, call_eq_some.mpr ⟨d, hd, hi⟩⟩
      · cases hi
    | begun _ hk | drained _ hk | timedOut _ hk | disconnected _ hk =>
      rcases call_of_set hcall with ⟨rfl, hi⟩ | hold
      · exact ⟨call, call_eq_some.mpr ⟨_, hk, hi⟩⟩
      · exact ⟨call, hold⟩
  | request j req =>
    obtain ⟨c, c', hk, hr, rfl⟩ := update_eq_some.mp h
    rcases call_of_set hcall with ⟨rfl, hi⟩ | hold
    · unfold Connection.request at hr
      split at hr <;> cases hr
      rcases getElem?_concat_cases hi with hi | ⟨-, rfl⟩
      · exact .inl ⟨call, call_eq_some.mpr ⟨c, hk, hi⟩⟩
      · exact .inr rfl
    · exact .inl ⟨call, hold⟩
  | call j l a =>
    obtain ⟨c, c', hk, hr, rfl⟩ := update_eq_some.mp h
    left
    rcases call_of_set hcall with ⟨rfl, hi⟩ | hold
    · obtain ⟨p, hp, rfl⟩ := callStep_eq_some.mp hr
      obtain ⟨t, t', ht, -, hq⟩ := stepTask_eq_some.mp hp
      dsimp only at hi
      rw [hq] at hi
      rcases getElem?_set_cases hi with ⟨rfl, -⟩ | ⟨-, hi⟩
      · exact ⟨t, call_eq_some.mpr ⟨c, hk, ht⟩⟩
      · exact ⟨call, call_eq_some.mpr ⟨c, hk, hi⟩⟩
    · exact ⟨call, hold⟩

/-- A call that is past its check made it at some point of the run, under a ready status. -/
def CheckedBy (host : Text) (labels : List ClientLabel) (w : World) : Prop :=
  ∀ k i call, w.call k i = some call → call.stage.passedCheck = true →
    ∃ before after u, labels = before ++ .call k i .readStatus :: after ∧
      run clientStep (clientStart host) before = some u ∧ u.status.getStatus = .ready

theorem clientStep_checkedBy {host : Text} {labels : List ClientLabel} {label : ClientLabel}
    {w w' : World} (hrun : run clientStep (clientStart host) labels = some w)
    (hw : CheckedBy host labels w) (h : clientStep w label = some w') :
    CheckedBy host (labels ++ [label]) w' := by
  intro k i call hcall hpassed
  rcases clientStep_call_back h hcall with ⟨old, hold⟩ | hnew
  · have hearlier : old.stage.passedCheck = true → ∃ before after u,
        labels ++ [label] = before ++ .call k i .readStatus :: after ∧
          run clientStep (clientStart host) before = some u ∧ u.status.getStatus = .ready := by
      intro hpast
      obtain ⟨before, after, u, rfl, hu, hready⟩ := hw k i old hold hpast
      exact ⟨before, after ++ [label], u, by simp, hu, hready⟩
    rcases clientStep_call h hold with hsame | ⟨a, sh, sh', call', rfl, hsh, hstep, hafter⟩
    · obtain rfl : old = call := Option.some.inj (hsame.symm.trans hcall)
      exact hearlier hpassed
    · obtain rfl : call' = call := Option.some.inj (hafter.symm.trans hcall)
      rcases (passedCheck_step hstep).mp hpassed with hpast | ⟨rfl, hready⟩
      · exact hearlier hpast
      · exact ⟨labels, [], w, rfl, hrun, hsh ▸ hready⟩
  · rw [hnew] at hpassed
    cases hpassed

theorem run_checkedBy {host : Text} {labels : List ClientLabel} {w : World}
    (h : run clientStep (clientStart host) labels = some w) : CheckedBy host labels w := by
  have hboth : run clientStep (clientStart host) labels = some w ∧ CheckedBy host labels w := by
    refine run_invariant_of_history (I := fun labels w =>
      run clientStep (clientStart host) labels = some w ∧ CheckedBy host labels w) ?_ ?_ h
    · exact ⟨rfl, nofun⟩
    · rintro labels label w w' ⟨hrun, hw⟩ hstep
      refine ⟨?_, clientStep_checkedBy hrun hw hstep⟩
      rw [run_concat, hrun]
      exact hstep
  exact hboth.2

theorem run_passedCheck {w v : World} {labels : List ClientLabel} {k i : ℕ} {call : Call}
    (hcall : w.call k i = some call) (hs : call.stage.passedCheck = true)
    (h : run clientStep w labels = some v) :
    ∃ call, v.call k i = some call ∧ call.stage.passedCheck = true := by
  refine run_invariant (I := fun u : World => ∃ call, u.call k i = some call ∧
    call.stage.passedCheck = true) ?_ ⟨call, hcall, hs⟩ h
  rintro u a t ⟨c, hc, hst⟩ ht
  rcases clientStep_call ht hc with hsame | ⟨b, sh, sh', c', -, -, hstep, hnew⟩
  · exact ⟨c, hsame, hst⟩
  · exact ⟨c', hnew, (passedCheck_step hstep).mpr (.inl hst)⟩

/-- The check, once made, decides for the rest of the run. -/
theorem readStatus_decides {host : Text} {before after : List ClientLabel} {u w : World} {k i : ℕ}
    {call : Call} (hu : run clientStep (clientStart host) before = some u)
    (h : run clientStep (clientStart host) (before ++ .call k i .readStatus :: after) = some w)
    (hcall : w.call k i = some call) :
    (u.status.getStatus = .ready ∧ call.stage.passedCheck = true) ∨
      (u.status.getStatus ≠ .ready ∧ call.stage.turnedAway = true) := by
  rw [run_append, hu, Option.bind_some, run_cons] at h
  obtain ⟨u', hread, hrest⟩ := Option.bind_eq_some_iff.mp h
  obtain ⟨sh, sh', c, c', hsh, -, hstep, hc'⟩ := callLabel_step hread
  rw [← hsh]
  cases Call.step_move hstep with
  | ready hs hr =>
    obtain ⟨d, hd, hst⟩ := run_passedCheck hc' rfl hrest
    obtain rfl : d = call := Option.some.inj (hd.symm.trans hcall)
    exact .inl ⟨hr, hst⟩
  | notReady hs hr =>
    obtain ⟨d, hd, hst⟩ := run_turnedAway hc' rfl hrest
    obtain rfl : d = call := Option.some.inj (hd.symm.trans hcall)
    exact .inr ⟨hr, hst⟩

/-- The clock readings that count disconnects never go back. -/
def ClockForward (labels : List ClientLabel) : Prop :=
  ((trackerCalls labels).map Prod.snd).Pairwise (· ≤ ·)

theorem ClockForward.before {before after : List ClientLabel} (h : ClockForward (before ++ after)) :
    ClockForward before := by
  unfold ClockForward at h ⊢
  rw [trackerCalls, List.filterMap_append, List.map_append, List.pairwise_append] at h
  exact h.1

/-- Every acked call read the status once the host was known to be reachable, free of a VPN and,
at the latest count, steadily connected, with nobody asking to stop; and on exactly the other
histories a call that reads the status is turned away. -/
theorem accepted_when_ready {host : Text} {labels : List ClientLabel} {w : World}
    (hclock : ClockForward labels) (h : run clientStep (clientStart host) labels = some w) :
    (∀ k i call, w.call k i = some call → call.acked → ∃ before after,
      labels = before ++ .call k i .readStatus :: after ∧ ReadyAfter before) ∧
    ∀ before after k i call, labels = before ++ .call k i .readStatus :: after →
      w.call k i = some call → (call.stage.turnedAway = true ↔ ¬ ReadyAfter before) := by
  constructor
  · intro k i call hcall ha
    obtain ⟨c, hk, hi⟩ := call_eq_some.mp hcall
    have htracks := ((run_sound h).books k c hk).tracks call (List.mem_of_getElem? hi)
    obtain ⟨before, after, u, rfl, hu, hready⟩ :=
      run_checkedBy h k i call hcall (passedCheck_of_acked htracks ha)
    exact ⟨before, after, rfl, ((run_reflects hu).ready_iff hclock.before).mp hready⟩
  · rintro before after k i call rfl hcall
    obtain ⟨u, hu, -⟩ := (run_append_eq_some clientStep).mp h
    have hready := (run_reflects hu).ready_iff hclock.before
    rcases readStatus_decides hu h hcall with ⟨hr, hpassed⟩ | ⟨hr, haway⟩
    · rw [passedCheck_not_turnedAway hpassed]
      exact iff_of_false nofun (fun hnot => hnot (hready.mp hr))
    · exact iff_of_true haway (fun hafter => hr (hready.mpr hafter))

/-- One call reads the status after a round that got through over IPv6, another one after a
round that got through over neither version. -/
def unreachableLabels : List ClientLabel :=
  [.status (.pingRound false true), .status (.verdict (.round [] [] 7)), .main .connect,
    .status (.reportDisconnect 9), .request 0 (request ['1'] []), .call 0 0 .tryAcquire,
    .call 0 0 .readStatus, .call 0 0 (.emitAck true), .status (.pingRound false false),
    .request 0 (request ['2'] []), .call 0 1 .tryAcquire, .call 0 1 .readStatus]

theorem unreachableLabels_accepted :
    (∃ before after, unreachableLabels = before ++ .call 0 0 .readStatus :: after ∧
      ReadyAfter before) ∧ ¬ ReadyAfter (unreachableLabels.take 11) := by
  have hrun : (run clientStep (clientStart []) unreachableLabels).map (fun w =>
      ((w.call 0 0).map (fun c => c.count CallEvent.isAck),
        (w.call 0 1).map (fun c => c.stage.turnedAway))) = some (some 1, some true) := rfl
  obtain ⟨w, hw, hseen⟩ := Option.map_eq_some_iff.mp hrun
  simp only [Prod.mk.injEq, Option.map_eq_some_iff] at hseen
  obtain ⟨⟨call, hcall, hack⟩, late, hlate, haway⟩ := hseen
  have hclock : ClockForward unreachableLabels := by
    unfold ClockForward
    decide
  obtain ⟨haccepted, hturned⟩ := accepted_when_ready hclock hw
  have hacked : call.acked := by
    rw [Call.acked, hack]
    exact Nat.one_pos
  exact ⟨haccepted 0 0 call hcall hacked,
    (hturned (unreachableLabels.take 11) [] 0 1 late rfl hlate).mp haway⟩

end GlobalpingProbe.Probe
