import GlobalpingProbe.Status.StatusManager
import Mathlib.Data.List.Induction

/-! # The VPN verdict of the running client

Two code paths of the client write the verdict: the status loop, which measures with a
test object of its own and stores only the outcome, and the `isProxy` handler, which
asks the manager's test object. The latter has never measured anything.
-/
namespace GlobalpingProbe.Status

/-- The flag of an `api:connect:isProxy` payload; anything but a boolean counts as off. -/
def proxyFlag (payload : Json) : Bool :=
  ((payload.get "isProxy".toList).bind Json.asBool).getD false

inductive VerdictEvent where
  /-- A round of the status loop that measured these differences. -/
  | round (diffsV4 diffsV6 : Diffs) (now : ℕ)
  /-- An `api:connect:isProxy` event with this payload. -/
  | isProxy (payload : Json)

/-- The second half of a status-loop round: a fresh test, then the disconnect recheck. -/
def statusLoopRound (m : StatusManager) (diffsV4 diffsV6 : Diffs) (now : ℕ) : StatusManager :=
  let vpn := (IcmpTcpTest.new.runOnce diffsV4 diffsV6).failed
  { m with icmpTcpTestFailed := some vpn }.recheckDisconnectStatus now

def isProxyHandler (m : StatusManager) (payload : Json) : StatusManager :=
  m.onProxyStatus (proxyFlag payload)

def handleVerdictEvent (m : StatusManager) : VerdictEvent → StatusManager
  | .round diffsV4 diffsV6 now => statusLoopRound m diffsV4 diffsV6 now
  | .isProxy payload => isProxyHandler m payload

/-- The manager after a sequence of events, from the one `run` creates. -/
def managerAfter (host : Text) (events : List VerdictEvent) : StatusManager :=
  events.foldl handleVerdictEvent (.withApiHost host)

def latestDiffs (events : List VerdictEvent) : Option (Diffs × Diffs) :=
  events.foldl (fun seen e => match e with
    | .round diffsV4 diffsV6 _ => some (diffsV4, diffsV6)
    | .isProxy _ => seen) none

def latestFlag (events : List VerdictEvent) : Option Bool :=
  events.foldl (fun seen e => match e with
    | .round .. => seen
    | .isProxy payload => some (proxyFlag payload)) none

/-- In every state with a round behind it the verdict is that of the latest differences
under the latest flag. -/
def VerdictAsMeasured (host : Text) (events : List VerdictEvent) : Prop :=
  ∀ before after diffsV4 diffsV6, events = before ++ after →
    latestDiffs before = some (diffsV4, diffsV6) →
    (managerAfter host before).icmpTcpTestFailed =
      some (vpnVerdict diffsV4 diffsV6 (latestFlag before))

/-- The event leaves the detection alone: a round whose differences a known proxy flag does
not turn into a detection, or a flag under which the latest differences show no VPN. -/
def FlagIrrelevant (before : List VerdictEvent) : VerdictEvent → Prop
  | .round diffsV4 diffsV6 _ => latestFlag before = some true →
      vpnVerdict diffsV4 diffsV6 (some true) = vpnVerdict diffsV4 diffsV6 none
  | .isProxy payload => ∀ diffsV4 diffsV6, latestDiffs before = some (diffsV4, diffsV6) →
      vpnVerdict diffsV4 diffsV6 (some (proxyFlag payload)) = false

section Steps
variable (host : Text) (before : List VerdictEvent)

theorem managerAfter_concat (e : VerdictEvent) :
    managerAfter host (before ++ [e]) = handleVerdictEvent (managerAfter host before) e := by
  simp [managerAfter]

@[simp] theorem latestDiffs_concat_round (diffsV4 diffsV6 : Diffs) (now : ℕ) :
    latestDiffs (before ++ [.round diffsV4 diffsV6 now]) = some (diffsV4, diffsV6) := by
  simp [latestDiffs]

@[simp] theorem latestDiffs_concat_isProxy (payload : Json) :
    latestDiffs (before ++ [.isProxy payload]) = latestDiffs before := by
  simp [latestDiffs]

@[simp] theorem latestFlag_concat_round (diffsV4 diffsV6 : Diffs) (now : ℕ) :
    latestFlag (before ++ [.round diffsV4 diffsV6 now]) = latestFlag before := by
  simp [latestFlag]

@[simp] theorem latestFlag_concat_isProxy (payload : Json) :
    latestFlag (before ++ [.isProxy payload]) = some (proxyFlag payload) := by
  simp [latestFlag]

@[simp] theorem statusLoopRound_failed (m : StatusManager) (diffsV4 diffsV6 : Diffs) (now : ℕ) :
    (statusLoopRound m diffsV4 diffsV6 now).icmpTcpTestFailed =
      some (vpnVerdict diffsV4 diffsV6 none) := rfl

@[simp] theorem statusLoopRound_test (m : StatusManager) (diffsV4 diffsV6 : Diffs) (now : ℕ) :
    (statusLoopRound m diffsV4 diffsV6 now).icmpTcpTest = m.icmpTcpTest := rfl

/-- What no event changes: the manager's own test holds no measurement, and a verdict is
present exactly when a round has been. -/
theorem managerAfter_invariant :
    (managerAfter host before).icmpTcpTest.diffsV4 = [] ∧
      (managerAfter host before).icmpTcpTest.diffsV6 = [] ∧
      (managerAfter host before).icmpTcpTestFailed.isSome = (latestDiffs before).isSome := by
  induction before using List.reverseRecOn with
  | nil => exact ⟨rfl, rfl, rfl⟩
  | append_singleton before e ih =>
    obtain ⟨h4, h6, hs⟩ := ih
    rw [managerAfter_concat]
    cases e with
    | round diffsV4 diffsV6 now => exact ⟨h4, h6, by simp [handleVerdictEvent]⟩
    | isProxy payload =>
      simp only [handleVerdictEvent, isProxyHandler, onProxyStatus_test, onProxyStatus_failed,
        latestDiffs_concat_isProxy, Option.isSome_map]
      exact ⟨h4, h6, hs⟩

/-- A round stores the verdict of its differences without any flag. -/
theorem verdict_after_round (diffsV4 diffsV6 : Diffs) (now : ℕ) :
    (managerAfter host (before ++ [.round diffsV4 diffsV6 now])).icmpTcpTestFailed =
      some (vpnVerdict diffsV4 diffsV6 none) := by
  simp [managerAfter_concat, handleVerdictEvent]

/-- A flag after a round stores that no VPN was detected, whatever was measured. -/
theorem verdict_after_isProxy (payload : Json) (h : (latestDiffs before).isSome) :
    (managerAfter host (before ++ [.isProxy payload])).icmpTcpTestFailed = some false := by
  obtain ⟨h4, h6, hs⟩ := managerAfter_invariant host before
  obtain ⟨v, hv⟩ := Option.isSome_iff_exists.mp (hs.trans h)
  simp [managerAfter_concat, handleVerdictEvent, isProxyHandler, onProxyStatus_failed, hv,
    vpnVerdict, h4, h6]

/-- The state after one more event is as measured exactly when the event is harmless. -/
theorem verdict_concat_iff (e : VerdictEvent) (diffsV4 diffsV6 : Diffs)
    (h : latestDiffs (before ++ [e]) = some (diffsV4, diffsV6)) :
    (managerAfter host (before ++ [e])).icmpTcpTestFailed =
        some (vpnVerdict diffsV4 diffsV6 (latestFlag (before ++ [e]))) ↔
      FlagIrrelevant before e := by
  cases e with
  | round d4 d6 now =>
    obtain ⟨rfl, rfl⟩ : d4 = diffsV4 ∧ d6 = diffsV6 := by simpa using h
    rw [verdict_after_round, latestFlag_concat_round, FlagIrrelevant, Option.some.injEq]
    match latestFlag before with
    | none => simp
    | some false => simp [vpnVerdict_some_false]
    | some true => exact ⟨fun h _ => h.symm, fun h => (h rfl).symm⟩
  | isProxy payload =>
    rw [latestDiffs_concat_isProxy] at h
    rw [verdict_after_isProxy host before payload (by simp [h]), latestFlag_concat_isProxy,
      FlagIrrelevant, Option.some.injEq]
    refine ⟨fun hv d4 d6 hd => ?_, fun hv => (hv diffsV4 diffsV6 h).symm⟩
    obtain ⟨rfl, rfl⟩ : diffsV4 = d4 ∧ diffsV6 = d6 := by simpa [h] using hd
    exact hv.symm

end Steps

theorem flagIrrelevant_isProxy_of_no_round {before : List VerdictEvent} (payload : Json)
    (h : latestDiffs before = none) : FlagIrrelevant before (.isProxy payload) := by
  intro diffsV4 diffsV6 hd
  simp [h] at hd

/-- Along every sequence of events the verdict is as measured exactly when every event is
harmless for the detection at its point of the sequence. -/
theorem verdictAsMeasured_iff (host : Text) (events : List VerdictEvent) :
    VerdictAsMeasured host events ↔
      ∀ before e after, events = before ++ e :: after → FlagIrrelevant before e := by
  constructor
  · intro h before e after he
    cases hd : latestDiffs (before ++ [e]) with
    | none =>
      cases e with
      | round => simp at hd
      | isProxy payload => exact flagIrrelevant_isProxy_of_no_round payload (by simpa using hd)
    | some d =>
      refine (verdict_concat_iff host before e d.1 d.2 hd).mp ?_
      exact h (before ++ [e]) after d.1 d.2 (by simpa using he) hd
  · intro h before after diffsV4 diffsV6 he hd
    cases before using List.reverseRecOn with
    | nil => simp [latestDiffs] at hd
    | append_singleton before e =>
      exact (verdict_concat_iff host before e diffsV4 diffsV6 hd).mpr
        (h before e after (by simpa using he))

/-- A round that measures 120 ms, then the flag of a host that is no proxy. -/
def clearedDetection : List VerdictEvent :=
  [.round [some (.finite 120)] [] 0, .isProxy (.obj [("isProxy".toList, .bool false)])]

/-- The flag clears a detection that the measured difference alone justifies. -/
theorem clearedDetection_not_as_measured :
    ¬ VerdictAsMeasured "api.globalping.io".toList clearedDetection := by
  intro h
  have hv := h clearedDetection [] [some (.finite 120)] [] (by simp) rfl
  exact absurd hv (by decide)

end GlobalpingProbe.Status
