import GlobalpingProbe.Foundation.Utf8
import GlobalpingProbe.Net.IpAddr
import GlobalpingProbe.Util.PrivateIp

/-! # Validation of untrusted text fields

The tests of the source run over bytes; a character outside ASCII has only bytes that fail
them, so they run over characters here.
-/
namespace GlobalpingProbe
open Foundation.Utf8 Net

def maxHostLen : ℕ := 253

/-- An address literal, or a host name that cannot be read as a flag. -/
def isSafeHost (s : Text) : Bool :=
  match s with
  | [] => false
  | first :: _ =>
    if byteLen s > maxHostLen then false
    else if (parseIpAddr s).isSome then true
    else if first = '-' ∨ first = '.' then false
    else s.all (fun c => c.isAlphanum || c = '.' || c = '-' || c = '_')

def isAsciiControl (c : Char) : Bool := c.toNat < 32 || c.toNat = 127

def isSafeUrlComponent (s : Text) : Bool := !s.any (fun c => isAsciiControl c || c = ' ')

/-- `bail!` under a condition. -/
def bailIf (condition : Bool) (message : Text) : Except Text Unit :=
  if condition then .error message else .ok ()

/-- The check of a field that may be an address literal. -/
def bailIfPrivate (localIps : List IpAddr) (s : Text) (message : Text) : Except Text Unit :=
  match parseIpAddr s with
  | some ip => bailIf (isIpPrivate localIps ip) message
  | none => .ok ()

@[simp] theorem bailIf_eq_ok {condition : Bool} {message : Text} {u : Unit} :
    bailIf condition message = .ok u ↔ condition = false := by
  cases condition <;> simp [bailIf]

@[simp] theorem bailIfPrivate_eq_ok {localIps : List IpAddr} {s : Text} {message : Text}
    {u : Unit} : bailIfPrivate localIps s message = .ok u ↔
      ∀ ip, parseIpAddr s = some ip → isIpPrivate localIps ip = false := by
  unfold bailIfPrivate
  cases parseIpAddr s <;> simp

/-- A validation passes exactly when each of its checks does. -/
@[simp] theorem bind_eq_ok {check rest : Except Text Unit} {u : Unit} :
    (check >>= fun _ => rest) = .ok u ↔ check = .ok () ∧ rest = .ok u := by
  cases check <;> simp [bind, Except.bind]

end GlobalpingProbe
