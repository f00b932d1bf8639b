import GlobalpingProbe.Status.ClientVerdict
import GlobalpingProbe.Status.DisconnectWindow

/-! # The disconnect penalty of the running client

The flag that `get_status` reads is a copy of a count that changes as time passes. Two
places refresh it, the `close` handler and the status loop, and three more read it: the
`open` and `isProxy` handlers and the readiness check of a job.
-/
namespace GlobalpingProbe.Status

/-- `extract_first_string` of a `close` payload, empty where there is none. -/
def closeReason (payload : Option Json) : Text := ((payload.bind Json.asStr).getD [])

/-- The reasons that count: a normal restart of the server is no network problem. -/
def isProblematic (reason : Text) : Bool :=
  reason = "ping timeout".toList || reason = "transport error".toList

inductive ClientEvent where
  /-- Time passes. -/
  | wait (d : ℕ)
  /-- An attempt of the reconnect loop sets up the handlers of a new connection. -/
  | connect
  | opened (k : ℕ)
  | closed (payload : Option Json)
  | isProxy (payload : Option Json)
  | pingRound (ipv4 ipv6 : Bool)
  | icmpTcpRound (diffsV4 diffsV6 : Diffs)
  /-- The readiness check of `dispatch`. -/
  | dispatch
  | sigterm

/-- The manager all handlers share, the clock, and whether a connection had its open event. -/
structure ClientState where
  manager : StatusManager
  now : ℕ
  alreadyConnected : List Bool

namespace ClientState

def start (host : Text) : ClientState := ⟨.withApiHost host, 0, []⟩

/-- A second open event of a connection hands over to the reconnect loop without a reading. -/
def openHandler (s : ClientState) (k : ℕ) : Option ProbeStatus × ClientState :=
  match s.alreadyConnected[k]? with
  | some false =>
    (some s.manager.getStatus, { s with alreadyConnected := s.alreadyConnected.set k true })
  | _ => (none, s)

def closeHandler (s : ClientState) (payload : Option Json) : Option ProbeStatus × ClientState :=
  if isProblematic (closeReason payload) then
    let m := (s.manager.reportDisconnect s.now).2
    (some m.getStatus, { s with manager := m })
  else (none, s)

def proxyHandler (s : ClientState) (payload : Option Json) : Option ProbeStatus × ClientState :=
  match payload with
  | some v =>
    let m := isProxyHandler s.manager v
    (some m.getStatus, { s with manager := m })
  | none => (none, s)

/-- One event, with the status that its handler consulted. -/
def step (s : ClientState) : ClientEvent → Option ProbeStatus × ClientState
  | .wait d => (none, { s with now := s.now + d })
  | .connect => (none, { s with alreadyConnected := s.alreadyConnected ++ [false] })
  | .opened k => s.openHandler k
  | .closed payload => s.closeHandler payload
  | .isProxy payload => s.proxyHandler payload
  | .pingRound ipv4 ipv6 =>
    (none, { s with manager := { s.manager with pingTestFailed := some (!ipv4 && !ipv6) } })
  | .icmpTcpRound diffsV4 diffsV6 =>
    let m := statusLoopRound s.manager diffsV4 diffsV6 s.now
    (some m.getStatus, { s with manager := m })
  | .dispatch => (some s.manager.getStatus, s)
  | .sigterm => (none, { s with manager := s.manager.setSigterm })

end ClientState

def clientAfter (host : Text) (events : List ClientEvent) : ClientState :=
  events.foldl (fun s e => (s.step e).2) (.start host)

/-- What a run has done to the window: the clock, the recorded disconnects with the latest
one in front, and the latest instant at which the client counted them. -/
structure Timeline where
  now : ℕ
  disconnects : List ℕ
  counted : ℕ
  deriving DecidableEq, Repr

namespace Timeline

def add (l : Timeline) : ClientEvent → Timeline
  | .wait d => { l with now := l.now + d }
  | .closed payload => if isProblematic (closeReason payload) then
      ⟨l.now, l.now :: l.disconnects, l.now⟩ else l
  | .icmpTcpRound .. => { l with counted := l.now }
  | _ => l

def of (events : List ClientEvent) : Timeline := events.foldl add ⟨0, [], 0⟩

/-- How many disconnects were recorded within the five minutes before an instant. -/
def recent (l : Timeline) (at_ : ℕ) : ℕ :=
  l.disconnects.countP (fun t => at_ - t < disconnectTtl)

end Timeline

def TestsPassed (m : StatusManager) : Prop :=
  m.pingTestFailed = some false ∧ m.icmpTcpTestFailed = some false ∧ m.sigterm = false

/-- The event consults the status, in a state where only the disconnects can speak against
the probe. -/
def ReadsPenalty (s : ClientState) (e : ClientEvent) (status : ProbeStatus) : Prop :=
  (s.step e).1 = some status ∧ TestsPassed (s.step e).2.manager

/-- Whoever consults the status is told of too many disconnects exactly when three of them lie
within the window at that instant. -/
def PenaltyLastsItsWindow (host : Text) (events : List ClientEvent) : Prop :=
  ∀ before e after status, events = before ++ e :: after →
    ReadsPenalty (clientAfter host before) e status →
    let l := Timeline.of (before ++ [e])
    status = if 3 ≤ l.recent l.now then .tooManyDisconnects else .ready

/-- A penalty that was due at the latest count is still due when the status is consulted. -/
def NoPenaltyOutlived (host : Text) (events : List ClientEvent) : Prop :=
  ∀ before e after status, events = before ++ e :: after →
    ReadsPenalty (clientAfter host before) e status →
    let l := Timeline.of (before ++ [e])
    3 ≤ l.recent l.counted → 3 ≤ l.recent l.now

theorem clientAfter_concat (host : Text) (events : List ClientEvent) (e : ClientEvent) :
    clientAfter host (events ++ [e]) = ((clientAfter host events).step e).2 := by
  simp [clientAfter]

theorem timeline_concat (events : List ClientEvent) (e : ClientEvent) :
    Timeline.of (events ++ [e]) = (Timeline.of events).add e := by
  simp [Timeline.of]

/-- The window only loses disconnects while none is recorded. -/
theorem recent_antitone (l : Timeline) {a b : ℕ} (h : a ≤ b) : l.recent b ≤ l.recent a := by
  apply List.countP_mono_left
  intro t _ ht
  simp only [decide_eq_true_eq] at ht ⊢
  omega

/-- The client's copy: the tracker holds what lay within the window at the latest count, and
the flag says whether that was too much. -/
structure CountedAt (l : Timeline) (s : ClientState) : Prop where
  clock : s.now = l.now
  past : l.counted ≤ l.now
  entries : s.manager.disconnectTracker.entries =
    l.disconnects.filter (fun at_ => l.counted - at_ < disconnectTtl)
  flag : s.manager.tooManyDisconnects = decide (3 ≤ l.recent l.counted)

section Steps
variable {l : Timeline} {s : ClientState}

/-- Handlers that leave the tracker, its flag and the clock alone. -/
theorem CountedAt.of_same {s' : ClientState} (h : CountedAt l s) (hn : s'.now = s.now)
    (ht : s'.manager.disconnectTracker = s.manager.disconnectTracker ∧
      s'.manager.tooManyDisconnects = s.manager.tooManyDisconnects) : CountedAt l s' :=
  ⟨hn.trans h.clock, h.past, ht.1 ▸ h.entries, ht.2.trans h.flag⟩

theorem CountedAt.reportDisconnect (h : CountedAt l s) :
    CountedAt ⟨l.now, l.now :: l.disconnects, l.now⟩
      { s with manager := (s.manager.reportDisconnect s.now).2 } := by
  have hentries := evictExpired_entries h.entries (h.clock ▸ h.past)
  have hrecord : (s.manager.disconnectTracker.record s.now).2.entries =
      (l.now :: l.disconnects).filter (fun at_ => l.now - at_ < disconnectTtl) := by
    rw [← h.clock]
    exact record_entries hentries
  refine ⟨h.clock, le_rfl, hrecord, ?_⟩
  rw [Timeline.recent, List.countP_eq_length_filter, ← hrecord]
  rfl

theorem CountedAt.recheck (h : CountedAt l s) {m : StatusManager}
    (hm : m.disconnectTracker = s.manager.disconnectTracker) :
    CountedAt { l with counted := l.now }
      { s with manager := m.recheckDisconnectStatus s.now } := by
  have hentries := evictExpired_entries h.entries (h.clock ▸ h.past)
  rw [← hm, h.clock] at hentries
  refine ⟨h.clock, le_rfl, ?_, ?_⟩
  · rw [h.clock]
    exact hentries
  · rw [Timeline.recent, List.countP_eq_length_filter, ← hentries, h.clock]
    rfl

theorem CountedAt.step (h : CountedAt l s) (e : ClientEvent) :
    CountedAt (l.add e) (s.step e).2 := by
  cases e with
  | wait d =>
    refine ⟨?_, h.past.trans (Nat.le_add_right _ _), h.entries, h.flag⟩
    exact congrArg (· + d) h.clock
  | connect | pingRound | dispatch | sigterm => exact h.of_same rfl ⟨rfl, rfl⟩
  | opened k =>
    simp only [ClientState.step, ClientState.openHandler, Timeline.add]
    split <;> exact h.of_same rfl ⟨rfl, rfl⟩
  | closed payload =>
    simp only [ClientState.step, ClientState.closeHandler, Timeline.add]
    by_cases hp : isProblematic (closeReason payload) = true
    · rw [if_pos hp, if_pos hp]
      exact h.reportDisconnect
    · rw [if_neg hp, if_neg hp]
      exact h
  | isProxy payload =>
    cases payload with
    | none => exact h
    | some v => exact h.of_same rfl (onProxyStatus_tracker _ _)
  | icmpTcpRound diffsV4 diffsV6 => exact h.recheck rfl

end Steps

theorem clientAfter_countedAt (host : Text) (events : List ClientEvent) :
    CountedAt (Timeline.of events) (clientAfter host events) := by
  induction events using List.reverseRecOn with
  | nil => exact ⟨rfl, le_rfl, rfl, rfl⟩
  | append_singleton events e ih =>
    rw [clientAfter_concat, timeline_concat]
    exact ih.step e

/-- Every reading is one of the manager as the handler leaves it. -/
theorem reading_eq_getStatus {s : ClientState} {e : ClientEvent} {status : ProbeStatus}
    (h : (s.step e).1 = some status) : status = (s.step e).2.manager.getStatus := by
  cases e with
  | wait | connect | pingRound | sigterm => cases h
  | opened k =>
    simp only [ClientState.step, ClientState.openHandler] at h ⊢
    split at h
    · exact (Option.some.inj h).symm
    · cases h
  | closed payload =>
    simp only [ClientState.step, ClientState.closeHandler] at h ⊢
    by_cases hp : isProblematic (closeReason payload) = true
    · rw [if_pos hp] at h ⊢
      exact (Option.some.inj h).symm
    · rw [if_neg hp] at h
      cases h
  | isProxy payload =>
    cases payload with
    | none => cases h
    | some v => exact (Option.some.inj h).symm
  | icmpTcpRound | dispatch => exact (Option.some.inj h).symm

theorem getStatus_of_testsPassed {m : StatusManager} (h : TestsPassed m) :
    m.getStatus = if m.tooManyDisconnects then .tooManyDisconnects else .ready := by
  simp [StatusManager.getStatus, h.1, h.2.1, h.2.2]

/-- A reading tells of the window as it was at the latest count. -/
theorem reading_eq (host : Text) {before : List ClientEvent} {e : ClientEvent}
    {status : ProbeStatus} (h : ReadsPenalty (clientAfter host before) e status) :
    let l := Timeline.of (before ++ [e])
    status = if 3 ≤ l.recent l.counted then .tooManyDisconnects else .ready := by
  have hflag := (clientAfter_countedAt host (before ++ [e])).flag
  rw [clientAfter_concat] at hflag
  rw [reading_eq_getStatus h.1, getStatus_of_testsPassed h.2, hflag]
  simp only [decide_eq_true_eq]

/-- The penalty ends with its window exactly when no reading falls between the expiry of a
disconnect that the penalty needs and the next count. -/
theorem penaltyLastsItsWindow_iff (host : Text) (events : List ClientEvent) :
    PenaltyLastsItsWindow host events ↔ NoPenaltyOutlived host events := by
  have key : ∀ before e status, ReadsPenalty (clientAfter host before) e status →
      let l := Timeline.of (before ++ [e])
      (status = (if 3 ≤ l.recent l.now then .tooManyDisconnects else .ready) ↔
        (3 ≤ l.recent l.counted → 3 ≤ l.recent l.now)) := by
    intro before e status hreads l
    have hmono : l.recent l.now ≤ l.recent l.counted :=
      recent_antitone l (clientAfter_countedAt host (before ++ [e])).past
    rw [reading_eq host hreads]
    by_cases hnow : 3 ≤ l.recent l.now
    · have hcounted : 3 ≤ l.recent l.counted := hnow.trans hmono
      simp [hnow, hcounted, l]
    · by_cases hcounted : 3 ≤ l.recent l.counted <;> simp [hnow, hcounted, l]
  constructor
  · intro h before e after status he hreads
    exact (key before e status hreads).mp (h before e after status he hreads)
  · intro h before e after status he hreads
    exact (key before e status hreads).mpr (h before e after status he hreads)

/-- Both tests pass, the transport breaks three times, and a job arrives six minutes later,
before the status loop comes round again. -/
def penaltyOutlived : List ClientEvent :=
  [.pingRound true true, .icmpTcpRound [] [],
    .closed (some (.str "transport error".toList)), .wait (fromSecs 1),
    .closed (some (.str "transport error".toList)), .wait (fromSecs 2),
    .closed (some (.str "transport error".toList)), .wait (fromSecs 360), .dispatch]

/-- The job is turned away although no disconnect lies within the window any more. -/
theorem penaltyOutlived_not_window :
    ¬ PenaltyLastsItsWindow "api.globalping.io".toList penaltyOutlived := by
  intro h
  have hstatus := h (penaltyOutlived.take 8) .dispatch [] .tooManyDisconnects rfl
    ⟨by decide, by decide, by decide, by decide⟩
  exact absurd hstatus (by decide)

end GlobalpingProbe.Status
