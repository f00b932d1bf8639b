import GlobalpingProbe.Status.IcmpTcpTest

/-! # The disconnect window and the status manager

Clock readings are arguments: each call that reads the clock takes the instant it reads.
The ids of recorded disconnects are fresh, so the tracker is the list of its instants.
-/
namespace GlobalpingProbe.Status

def maxDisconnects : ℕ := 3
def disconnectTtl : ℕ := fromSecs (5 * 60)

structure DisconnectTracker where
  entries : List ℕ
  deriving DecidableEq, Repr

namespace DisconnectTracker

def new : DisconnectTracker := ⟨[]⟩

def evictExpired (t : DisconnectTracker) (now : ℕ) : DisconnectTracker :=
  ⟨t.entries.filter (fun at_ => now - at_ < disconnectTtl)⟩

def record (t : DisconnectTracker) (now : ℕ) : Bool × DisconnectTracker :=
  let t := t.evictExpired now
  let t : DisconnectTracker := ⟨now :: t.entries⟩
  (t.entries.length ≥ maxDisconnects, t)

def count (t : DisconnectTracker) (now : ℕ) : ℕ × DisconnectTracker :=
  let t := t.evictExpired now
  (t.entries.length, t)

end DisconnectTracker

inductive ProbeStatus where
  | initializing
  | ready
  | pingTestFailed
  | icmpTcpTestFailed
  | tooManyDisconnects
  | sigterm
  deriving DecidableEq, Repr

/-- The string of a status in events and in the readiness check of a job. -/
def ProbeStatus.toText : ProbeStatus → Text
  | .initializing => "initializing".toList
  | .ready => "ready".toList
  | .pingTestFailed => "ping-test-failed".toList
  | .icmpTcpTestFailed => "icmp-tcp-test-failed".toList
  | .tooManyDisconnects => "too-many-disconnects".toList
  | .sigterm => "sigterm".toList

theorem toText_eq_ready {s : ProbeStatus} : s.toText = "ready".toList ↔ s = .ready := by
  cases s <;> decide

structure PingTest where
  failed : Bool
  deriving DecidableEq, Repr

structure StatusManager where
  pingTestFailed : Option Bool
  icmpTcpTestFailed : Option Bool
  tooManyDisconnects : Bool
  sigterm : Bool
  pingTest : PingTest
  icmpTcpTest : IcmpTcpTest
  disconnectTracker : DisconnectTracker
  apiHost : Text
  deriving DecidableEq, Repr

namespace StatusManager

def withApiHost (host : Text) : StatusManager :=
  ⟨none, none, false, false, ⟨false⟩, .new, .new, host⟩

/-- Priority, highest first: sigterm, initializing, the two tests, disconnects, ready. -/
def getStatus (m : StatusManager) : ProbeStatus :=
  if m.sigterm then .sigterm
  else if m.pingTestFailed.isNone ∨ m.icmpTcpTestFailed.isNone then .initializing
  else if m.pingTestFailed = some true then .pingTestFailed
  else if m.icmpTcpTestFailed = some true then .icmpTcpTestFailed
  else if m.tooManyDisconnects then .tooManyDisconnects
  else .ready

def runPingTest (m : StatusManager) (ipv4 ipv6 : Bool) : StatusManager :=
  let failed := !ipv4 && !ipv6
  { m with pingTest := ⟨failed⟩, pingTestFailed := some failed }

def runIcmpTcpTest (m : StatusManager) (diffsV4 diffsV6 : Diffs) : StatusManager :=
  let test := m.icmpTcpTest.runOnce diffsV4 diffsV6
  { m with icmpTcpTest := test, icmpTcpTestFailed := some test.failed }

/-- The flag re-evaluates the test object of the manager itself. -/
def onProxyStatus (m : StatusManager) (isProxy : Bool) : StatusManager :=
  let test := m.icmpTcpTest.setProxyAndEvaluate isProxy
  let m := { m with icmpTcpTest := test }
  if m.icmpTcpTestFailed.isSome then { m with icmpTcpTestFailed := some test.failed } else m

def reportDisconnect (m : StatusManager) (now : ℕ) : Bool × StatusManager :=
  let r := m.disconnectTracker.record now
  (r.1, { m with disconnectTracker := r.2, tooManyDisconnects := r.1 })

def recheckDisconnectStatus (m : StatusManager) (now : ℕ) : StatusManager :=
  let r := m.disconnectTracker.count now
  { m with disconnectTracker := r.2, tooManyDisconnects := decide (r.1 ≥ 3) }

def setSigterm (m : StatusManager) : StatusManager := { m with sigterm := true }

end StatusManager

/-- After `set_sigterm` every reader sees `sigterm`, whatever the tests say. -/
theorem getStatus_of_sigterm {m : StatusManager} (h : m.sigterm = true) :
    m.getStatus = .sigterm := by
  simp [StatusManager.getStatus, h]

theorem sigterm_of_getStatus_ready {m : StatusManager} (h : m.getStatus = .ready) :
    m.sigterm = false := by
  cases hs : m.sigterm with
  | false => rfl
  | true => simp [getStatus_of_sigterm hs] at h

@[simp] theorem onProxyStatus_sigterm (m : StatusManager) (p : Bool) :
    (m.onProxyStatus p).sigterm = m.sigterm := by
  unfold StatusManager.onProxyStatus
  dsimp only
  split <;> rfl

@[simp] theorem onProxyStatus_test (m : StatusManager) (p : Bool) :
    (m.onProxyStatus p).icmpTcpTest = m.icmpTcpTest.setProxyAndEvaluate p := by
  unfold StatusManager.onProxyStatus
  dsimp only
  split <;> rfl

@[simp] theorem onProxyStatus_ping (m : StatusManager) (p : Bool) :
    (m.onProxyStatus p).pingTestFailed = m.pingTestFailed := by
  unfold StatusManager.onProxyStatus
  dsimp only
  split <;> rfl

/-- A flag leaves the disconnect tracker and what was last read from it alone. -/
theorem onProxyStatus_tracker (m : StatusManager) (p : Bool) :
    (m.onProxyStatus p).disconnectTracker = m.disconnectTracker ∧
      (m.onProxyStatus p).tooManyDisconnects = m.tooManyDisconnects := by
  unfold StatusManager.onProxyStatus
  dsimp only
  split <;> exact ⟨rfl, rfl⟩

theorem onProxyStatus_failed (m : StatusManager) (p : Bool) :
    (m.onProxyStatus p).icmpTcpTestFailed =
      m.icmpTcpTestFailed.map (fun _ => (m.icmpTcpTest.setProxyAndEvaluate p).failed) := by
  unfold StatusManager.onProxyStatus
  cases m.icmpTcpTestFailed <;> simp

end GlobalpingProbe.Status
