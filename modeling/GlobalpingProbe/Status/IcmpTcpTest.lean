import GlobalpingProbe.Util.Data
import Mathlib.Algebra.Order.Ring.Rat

/-! # ICMP against TCP round trips: the VPN test

A measured difference is a 64-bit float that is only ever compared with the two
thresholds, so its model is the extended rational line with the unordered NaN.
-/
namespace GlobalpingProbe.Status

/-- The values of a 64-bit float as far as comparisons can tell them apart. -/
inductive F64 where
  | nan
  | negInf
  | finite (q : ℚ)
  | posInf
  deriving DecidableEq, Repr

/-- `x >= bound` for a finite bound; every comparison with NaN is false. -/
def F64.ge (x : F64) (bound : ℚ) : Bool :=
  match x with
  | .nan => false
  | .negInf => false
  | .finite q => decide (bound ≤ q)
  | .posInf => true

def vpnDiffHigh : ℚ := 100
def vpnDiffMed : ℚ := 60

abbrev Diffs := List (Option F64)

/-- One hit over the high threshold, two over the middle one, or one with a known proxy. -/
def isVpn (diffs : Diffs) (isProxy : Option Bool) : Bool :=
  let numeric := diffs.filterMap id
  let overHigh := numeric.countP (fun d => d.ge vpnDiffHigh)
  let overMed := numeric.countP (fun d => d.ge vpnDiffMed)
  if overHigh ≥ 1 then true
  else if overMed ≥ 2 then true
  else if overMed ≥ 1 ∧ isProxy = some true then true
  else false

structure IcmpTcpTest where
  failed : Bool
  isProxy : Option Bool
  diffsV4 : Diffs
  diffsV6 : Diffs
  deriving DecidableEq, Repr

namespace IcmpTcpTest

def new : IcmpTcpTest := ⟨false, none, [], []⟩

def isVpnDetected (t : IcmpTcpTest) : Bool := isVpn t.diffsV4 t.isProxy || isVpn t.diffsV6 t.isProxy

/-- The flag from the API, evaluated against the differences this object holds. -/
def setProxyAndEvaluate (t : IcmpTcpTest) (isProxy : Bool) : IcmpTcpTest :=
  let t := { t with isProxy := some isProxy }
  { t with failed := t.isVpnDetected }

/-- A round that measured the differences for the two IP versions. -/
def runOnce (t : IcmpTcpTest) (diffsV4 diffsV6 : Diffs) : IcmpTcpTest :=
  let t := { t with diffsV4 := diffsV4, diffsV6 := diffsV6 }
  { t with failed := t.isVpnDetected }

end IcmpTcpTest

def vpnVerdict (diffsV4 diffsV6 : Diffs) (isProxy : Option Bool) : Bool :=
  isVpn diffsV4 isProxy || isVpn diffsV6 isProxy

@[simp] theorem isVpn_nil (isProxy : Option Bool) : isVpn [] isProxy = false := by
  simp [isVpn]

/-- Only a known proxy changes the verdict: a flag that is off counts as none at all. -/
theorem isVpn_some_false (diffs : Diffs) : isVpn diffs (some false) = isVpn diffs none := by
  simp [isVpn]

theorem vpnVerdict_some_false (diffsV4 diffsV6 : Diffs) :
    vpnVerdict diffsV4 diffsV6 (some false) = vpnVerdict diffsV4 diffsV6 none := by
  simp [vpnVerdict, isVpn_some_false]

@[simp] theorem runOnce_failed (t : IcmpTcpTest) (diffsV4 diffsV6 : Diffs) :
    (t.runOnce diffsV4 diffsV6).failed = vpnVerdict diffsV4 diffsV6 t.isProxy := rfl

@[simp] theorem setProxyAndEvaluate_failed (t : IcmpTcpTest) (isProxy : Bool) :
    (t.setProxyAndEvaluate isProxy).failed = vpnVerdict t.diffsV4 t.diffsV6 (some isProxy) := rfl

end GlobalpingProbe.Status
