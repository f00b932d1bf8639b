import GlobalpingProbe.Status.StatusManager
import Mathlib.Data.List.Induction

/-! # One status manager under any sequence of calls

The VPN verdict stands in the manager and in its test object, and two methods write it:
a measurement reads the flag the test object holds, and a flag reads the differences it
holds. Each call that reads the clock carries the instant it reads.
-/
namespace GlobalpingProbe.Status

inductive ManagerCall where
  | runPingTest (ipv4 ipv6 : Bool)
  | runIcmpTcpTest (diffsV4 diffsV6 : Diffs)
  | onProxyStatus (isProxy : Bool)
  | reportDisconnect (now : ℕ)
  | recheckDisconnectStatus (now : ℕ)
  | setSigterm
  deriving DecidableEq, Repr

namespace ManagerCall

def apply (m : StatusManager) : ManagerCall → StatusManager
  | .runPingTest ipv4 ipv6 => m.runPingTest ipv4 ipv6
  | .runIcmpTcpTest diffsV4 diffsV6 => m.runIcmpTcpTest diffsV4 diffsV6
  | .onProxyStatus isProxy => m.onProxyStatus isProxy
  | .reportDisconnect now => (m.reportDisconnect now).2
  | .recheckDisconnectStatus now => m.recheckDisconnectStatus now
  | .setSigterm => m.setSigterm

def pingFailure? : ManagerCall → Option Bool
  | .runPingTest ipv4 ipv6 => some (!ipv4 && !ipv6)
  | _ => none

def diffs? : ManagerCall → Option (Diffs × Diffs)
  | .runIcmpTcpTest diffsV4 diffsV6 => some (diffsV4, diffsV6)
  | _ => none

def flag? : ManagerCall → Option Bool
  | .onProxyStatus isProxy => some isProxy
  | _ => none

def isSigterm : ManagerCall → Bool
  | .setSigterm => true
  | _ => false

/-- The calls on the disconnect tracker, with the instants they read. -/
def isDisconnectOp : ManagerCall → Bool
  | .reportDisconnect _ | .recheckDisconnectStatus _ => true
  | _ => false

end ManagerCall

open ManagerCall

def afterCalls (host : Text) (calls : List ManagerCall) : StatusManager :=
  calls.foldl apply (.withApiHost host)

/-- The latest value that some call of the sequence brought. -/
def latest {α : Type} (f : ManagerCall → Option α) (calls : List ManagerCall) : Option α :=
  (calls.filterMap f).getLast?

def IcmpTcpTest.diffs (t : IcmpTcpTest) : Diffs × Diffs := (t.diffsV4, t.diffsV6)

/-- The calls bring the same latest values and the same timed disconnect operations. -/
structure SameLatest (calls calls' : List ManagerCall) : Prop where
  ping : latest pingFailure? calls = latest pingFailure? calls'
  diffs : latest diffs? calls = latest diffs? calls'
  flag : latest flag? calls = latest flag? calls'
  sigterm : calls.any isSigterm = calls'.any isSigterm
  disconnects : calls.filter isDisconnectOp = calls'.filter isDisconnectOp

section Fold
variable (host : Text) (calls : List ManagerCall) (c : ManagerCall)

theorem afterCalls_concat : afterCalls host (calls ++ [c]) = c.apply (afterCalls host calls) := by
  simp [afterCalls]

@[simp] theorem latest_nil {α : Type} (f : ManagerCall → Option α) : latest f [] = none := rfl

theorem latest_concat {α : Type} (f : ManagerCall → Option α) :
    latest f (calls ++ [c]) = (f c).or (latest f calls) := by
  unfold latest
  cases h : f c <;> simp [List.filterMap_append, h]

theorem latest_eq_none_iff {α : Type} (f : ManagerCall → Option α) :
    latest f calls = none ↔ ∀ c ∈ calls, f c = none := by
  rw [latest, List.getLast?_eq_none_iff, List.filterMap_eq_nil_iff]

end Fold

/-- What the fields hold after a sequence of calls. The test object knows the latest flag and
the latest differences, so whichever of the two arrives last, the verdict is theirs. -/
structure HoldsLatest (host : Text) (calls : List ManagerCall) (m : StatusManager) : Prop where
  ping : m.pingTestFailed = latest pingFailure? calls
  flag : m.icmpTcpTest.isProxy = latest flag? calls
  diffs : m.icmpTcpTest.diffs = (latest diffs? calls).getD ([], [])
  verdict : m.icmpTcpTestFailed =
    (latest diffs? calls).map (fun d => vpnVerdict d.1 d.2 (latest flag? calls))
  sigterm : m.sigterm = calls.any isSigterm
  tracker : m.disconnectTracker =
    (afterCalls host (calls.filter isDisconnectOp)).disconnectTracker
  tooMany : m.tooManyDisconnects =
    (afterCalls host (calls.filter isDisconnectOp)).tooManyDisconnects

section Disconnects
variable {host : Text} {calls : List ManagerCall} {c : ManagerCall}

theorem disconnectOps_concat_of_not (h : c.isDisconnectOp = false) :
    (calls ++ [c]).filter isDisconnectOp = calls.filter isDisconnectOp := by
  simp [List.filter_append, h]

/-- Calls of the other kinds leave the tracker and its flag alone. -/
theorem apply_tracker_of_not (m : StatusManager) (h : c.isDisconnectOp = false) :
    (c.apply m).disconnectTracker = m.disconnectTracker ∧
      (c.apply m).tooManyDisconnects = m.tooManyDisconnects := by
  cases c with
  | runPingTest | runIcmpTcpTest | setSigterm => exact ⟨rfl, rfl⟩
  | onProxyStatus isProxy => exact onProxyStatus_tracker m isProxy
  | reportDisconnect | recheckDisconnectStatus => simp [isDisconnectOp] at h

/-- A disconnect operation reads and writes nothing but the tracker and its flag. -/
theorem apply_tracker_congr {m m' : StatusManager} (hc : c.isDisconnectOp = true)
    (h : m.disconnectTracker = m'.disconnectTracker) :
    (c.apply m).disconnectTracker = (c.apply m').disconnectTracker ∧
      (c.apply m).tooManyDisconnects = (c.apply m').tooManyDisconnects := by
  cases c with
  | reportDisconnect now =>
    simp [apply, StatusManager.reportDisconnect, h]
  | recheckDisconnectStatus now =>
    simp [apply, StatusManager.recheckDisconnectStatus, h]
  | runPingTest | runIcmpTcpTest | setSigterm | onProxyStatus => simp [isDisconnectOp] at hc

theorem HoldsLatest.tracker_concat {m : StatusManager} (h : HoldsLatest host calls m) :
    (c.apply m).disconnectTracker =
        (afterCalls host ((calls ++ [c]).filter isDisconnectOp)).disconnectTracker ∧
      (c.apply m).tooManyDisconnects =
        (afterCalls host ((calls ++ [c]).filter isDisconnectOp)).tooManyDisconnects := by
  by_cases hc : c.isDisconnectOp = true
  · have hops : (calls ++ [c]).filter isDisconnectOp = calls.filter isDisconnectOp ++ [c] := by
      simp [List.filter_append, hc]
    rw [hops, afterCalls_concat]
    exact apply_tracker_congr hc h.tracker
  · rw [Bool.not_eq_true] at hc
    obtain ⟨htracker, hflag⟩ := apply_tracker_of_not m hc
    rw [disconnectOps_concat_of_not hc, htracker, hflag]
    exact ⟨h.tracker, h.tooMany⟩

end Disconnects

section Fields
variable (m : StatusManager) (c : ManagerCall)

theorem apply_ping : (c.apply m).pingTestFailed = c.pingFailure?.or m.pingTestFailed := by
  cases c with
  | onProxyStatus => exact onProxyStatus_ping m _
  | _ => rfl

theorem apply_flag : (c.apply m).icmpTcpTest.isProxy = c.flag?.or m.icmpTcpTest.isProxy := by
  cases c with
  | onProxyStatus => exact congrArg IcmpTcpTest.isProxy (onProxyStatus_test m _)
  | _ => rfl

theorem apply_diffs : (c.apply m).icmpTcpTest.diffs = c.diffs?.getD m.icmpTcpTest.diffs := by
  cases c with
  | onProxyStatus isProxy =>
    rw [apply, onProxyStatus_test]
    rfl
  | _ => rfl

theorem apply_sigterm : (c.apply m).sigterm = (m.sigterm || c.isSigterm) := by
  cases c with
  | onProxyStatus => simp [apply, isSigterm]
  | setSigterm => simp [apply, isSigterm, StatusManager.setSigterm]
  | _ => exact (Bool.or_false m.sigterm).symm

/-- A measurement stores its verdict under the flag of the test object, a flag the verdict of
the stored differences once there is one, and no other call touches it. -/
theorem apply_verdict : (c.apply m).icmpTcpTestFailed =
    match c with
    | .runIcmpTcpTest diffsV4 diffsV6 => some (vpnVerdict diffsV4 diffsV6 m.icmpTcpTest.isProxy)
    | .onProxyStatus isProxy => m.icmpTcpTestFailed.map (fun _ =>
        vpnVerdict m.icmpTcpTest.diffsV4 m.icmpTcpTest.diffsV6 (some isProxy))
    | _ => m.icmpTcpTestFailed := by
  cases c with
  | onProxyStatus isProxy => exact onProxyStatus_failed m isProxy
  | _ => rfl

end Fields

theorem holdsLatest_step {host : Text} {calls : List ManagerCall} {m : StatusManager}
    (c : ManagerCall) (h : HoldsLatest host calls m) :
    HoldsLatest host (calls ++ [c]) (c.apply m) := by
  obtain ⟨htracker, htooMany⟩ := h.tracker_concat (c := c)
  constructor
  case ping => rw [apply_ping, h.ping, latest_concat]
  case flag => rw [apply_flag, h.flag, latest_concat]
  case diffs => rw [apply_diffs, h.diffs, latest_concat, Option.getD_or]
  case sigterm => simp [apply_sigterm, h.sigterm]
  case tracker => exact htracker
  case tooMany => exact htooMany
  case verdict =>
    rw [apply_verdict, latest_concat, latest_concat]
    cases c with
    | runIcmpTcpTest diffsV4 diffsV6 => simp [diffs?, flag?, h.flag]
    | onProxyStatus isProxy =>
      have hd := h.diffs
      simp only [diffs?, flag?, Option.none_or, Option.some_or, h.verdict, Option.map_map]
      cases hl : latest diffs? calls with
      | none => rfl
      | some d =>
        rw [hl, Option.getD_some] at hd
        obtain ⟨rfl⟩ := hd
        rfl
    | runPingTest | reportDisconnect | recheckDisconnectStatus | setSigterm => exact h.verdict

theorem afterCalls_holdsLatest (host : Text) (calls : List ManagerCall) :
    HoldsLatest host calls (afterCalls host calls) := by
  induction calls using List.reverseRecOn with
  | nil => exact ⟨rfl, rfl, rfl, rfl, rfl, rfl, rfl⟩
  | append_singleton calls c ih =>
    rw [afterCalls_concat]
    exact holdsLatest_step c ih

theorem getStatus_congr {m m' : StatusManager} (hs : m.sigterm = m'.sigterm)
    (hp : m.pingTestFailed = m'.pingTestFailed)
    (hv : m.icmpTcpTestFailed = m'.icmpTcpTestFailed)
    (hd : m.tooManyDisconnects = m'.tooManyDisconnects) : m.getStatus = m'.getStatus := by
  unfold StatusManager.getStatus
  rw [hs, hp, hv, hd]

/-- The order in which equal latest values arrived cannot be seen in the status. -/
theorem getStatus_of_sameLatest {host : Text} {calls calls' : List ManagerCall}
    (h : SameLatest calls calls') :
    (afterCalls host calls).getStatus = (afterCalls host calls').getStatus := by
  have hm := afterCalls_holdsLatest host calls
  have hm' := afterCalls_holdsLatest host calls'
  apply getStatus_congr
  · rw [hm.sigterm, hm'.sigterm, h.sigterm]
  · rw [hm.ping, hm'.ping, h.ping]
  · rw [hm.verdict, hm'.verdict, h.diffs, h.flag]
  · rw [hm.tooMany, hm'.tooMany, h.disconnects]

theorem verdict_eq_none_iff (host : Text) (calls : List ManagerCall) :
    (afterCalls host calls).icmpTcpTestFailed = none ↔
      ∀ diffsV4 diffsV6, .runIcmpTcpTest diffsV4 diffsV6 ∉ calls := by
  rw [(afterCalls_holdsLatest host calls).verdict, Option.map_eq_none_iff, latest_eq_none_iff]
  constructor
  · intro h diffsV4 diffsV6 hmem
    simpa [diffs?] using h _ hmem
  · intro h c hc
    cases c with
    | runIcmpTcpTest diffsV4 diffsV6 => exact absurd hc (h diffsV4 diffsV6)
    | _ => rfl

/-- Whatever was called in whatever order, the verdict is that of the latest differences under
the latest flag, and the status is one of the latest values only. -/
theorem verdict_order_independent (host : Text) (calls : List ManagerCall) :
    ((afterCalls host calls).icmpTcpTestFailed = none ↔
        ∀ diffsV4 diffsV6, .runIcmpTcpTest diffsV4 diffsV6 ∉ calls) ∧
      (∀ diffsV4 diffsV6, latest diffs? calls = some (diffsV4, diffsV6) →
        (afterCalls host calls).icmpTcpTestFailed =
          some (isVpn diffsV4 (latest flag? calls) || isVpn diffsV6 (latest flag? calls))) ∧
      ∀ calls', SameLatest calls calls' →
        (afterCalls host calls).getStatus = (afterCalls host calls').getStatus := by
  refine ⟨verdict_eq_none_iff host calls, ?_, ?_⟩
  · intro diffsV4 diffsV6 h
    rw [(afterCalls_holdsLatest host calls).verdict, h]
    rfl
  · intro calls' h
    exact getStatus_of_sameLatest h

/-- 70 ms over one address only count against a known proxy, and the flag may come first. -/
theorem verdict_order_independent_medium :
    (afterCalls [] [.runPingTest true true, .runIcmpTcpTest [some (.finite 70)] [],
        .onProxyStatus true]).icmpTcpTestFailed = some true ∧
      (afterCalls [] [.runPingTest true true, .runIcmpTcpTest [some (.finite 70)] [],
          .onProxyStatus true]).getStatus =
        (afterCalls [] [.onProxyStatus false, .onProxyStatus true,
          .runIcmpTcpTest [some (.finite 70)] [], .runPingTest false true]).getStatus := by
  obtain ⟨-, hverdict, hstatus⟩ := verdict_order_independent []
    [.runPingTest true true, .runIcmpTcpTest [some (.finite 70)] [], .onProxyStatus true]
  refine ⟨?_, hstatus _ ⟨rfl, rfl, rfl, rfl, rfl⟩⟩
  rw [hverdict [some (.finite 70)] [] rfl]
  decide

end GlobalpingProbe.Status
