import GlobalpingProbe.Command.Arguments

/-! # The arguments of traceroute

The check of the protocol compares its upper case with three words, the flag is made of its
lower case.
-/
namespace GlobalpingProbe.Command
open Mtr

def TracerouteOptions.buildArgs (tables : CaseTables) (opts : TracerouteOptions) : List Text :=
  [versionFlag opts.ipVersion, "-m".toList, "20".toList, "-w".toList, "2".toList, "-q".toList,
    "2".toList, "-N".toList, "20".toList, "--".toList ++ tables.toLowercase opts.protocol] ++
  (if tables.toUppercase opts.protocol = "TCP".toList then
    ["-p".toList, decimal opts.port.toNat] else []) ++ [opts.target]

namespace Traceroute

def protocolFlags : List Text := ["--icmp".toList, "--tcp".toList, "--udp".toList]

/-- The fixed options, one flag for the protocol, the port where it is the one of TCP, and the
target. -/
structure WellFormedArgs (opts : TracerouteOptions) (args : List Text) : Prop where
  version : versionFlag opts.ipVersion = "-4".toList ∨ versionFlag opts.ipVersion = "-6".toList
  layout : ∃ flag ∈ protocolFlags, args =
    [versionFlag opts.ipVersion, "-m".toList, "20".toList, "-w".toList, "2".toList, "-q".toList,
      "2".toList, "-N".toList, "20".toList, flag] ++
    (if flag = "--tcp".toList then ["-p".toList, decimal opts.port.toNat] else []) ++ [opts.target]

section Accepted
variable {tables : CaseTables} {localIps : List Net.IpAddr} {opts : TracerouteOptions}

theorem validate_protocol (h : opts.validate tables.toCaseTable localIps = .ok ()) :
    (opts.ipVersion = 4 ∨ opts.ipVersion = 6) ∧
      tables.toUppercase opts.protocol ∈ ["ICMP".toList, "TCP".toList, "UDP".toList] := by
  simp only [TracerouteOptions.validate, bind_eq_ok, bailIf_eq_ok, Bool.and_eq_false_iff,
    decide_eq_false_iff_not, not_not] at h
  obtain ⟨-, hversion, hproto, -⟩ := h
  refine ⟨hversion, ?_⟩
  rcases hproto with (hicmp | htcp) | hudp
  · rw [hicmp]
    exact List.mem_cons_self
  · rw [htcp]
    exact List.mem_cons_of_mem _ List.mem_cons_self
  · rw [hudp]
    exact List.mem_cons_of_mem _ (List.mem_cons_of_mem _ List.mem_cons_self)

theorem ascii_of_all {words : List Text}
    (hall : words.all (fun word => word.all (fun c => decide (c.toNat < 128))) = true) {word : Text}
    (h : word ∈ words) : ∀ c ∈ word, c.toNat < 128 :=
  fun c hc => of_decide_eq_true (List.all_eq_true.mp (List.all_eq_true.mp hall word h) c hc)

/-- A character outside ASCII comes into the flag as it is. -/
theorem not_wellFormedArgs (h : opts.validate tables.toCaseTable localIps = .ok ()) {c : Char}
    (hc : c ∈ opts.protocol) (hout : 128 ≤ c.toNat) :
    ¬ WellFormedArgs opts (opts.buildArgs tables) := by
  rintro ⟨-, flag, hflag, hargs⟩
  have hplace := congrArg (fun args => args[9]?) hargs
  have heq : "--".toList ++ tables.toLowercase opts.protocol = flag := Option.some.inj hplace
  have hkept := tables.mem_toLowercase (ascii_of_all (by decide) (validate_protocol h).2) hc hout
  have hsmall := ascii_of_all (by decide) hflag c (heq ▸ List.mem_append_right _ hkept)
  omega

/-- Each protocol has its own flag, and only that of TCP is the flag of TCP. -/
theorem flag_of_protocol {proto : Text}
    (h : proto ∈ ["ICMP".toList, "TCP".toList, "UDP".toList]) :
    "--".toList ++ proto.map Char.toLower ∈ protocolFlags ∧
      ("--".toList ++ proto.map Char.toLower = "--tcp".toList ↔ proto = "TCP".toList) := by
  simp only [List.mem_cons, List.not_mem_nil, or_false] at h
  rcases h with rfl | rfl | rfl
  · decide
  · decide
  · decide

theorem wellFormedArgs_of_ascii (h : opts.validate tables.toCaseTable localIps = .ok ())
    (hascii : ∀ c ∈ opts.protocol, c.toNat < 128) :
    WellFormedArgs opts (opts.buildArgs tables) := by
  obtain ⟨hversion, hproto⟩ := validate_protocol h
  obtain ⟨hflag, htcp⟩ := flag_of_protocol hproto
  rw [← tables.toLowercase_eq_of_ascii hascii] at hflag htcp
  constructor
  case version =>
    rcases hversion with hv | hv
    · exact .inl (by rw [hv]; rfl)
    · exact .inr (by rw [hv]; rfl)
  case layout =>
    refine ⟨"--".toList ++ tables.toLowercase opts.protocol, hflag, ?_⟩
    -- the flag is the one of TCP exactly when the upper case is
    simp only [htcp]
    rfl

/-- The arguments of an accepted value are the intended ones exactly when its protocol is ASCII. -/
theorem wellFormedArgs_iff (h : opts.validate tables.toCaseTable localIps = .ok ()) :
    WellFormedArgs opts (opts.buildArgs tables) ↔ ∀ c ∈ opts.protocol, c.toNat < 128 := by
  constructor
  · intro hargs c hc
    by_contra hout
    exact not_wellFormedArgs h hc (not_lt.mp hout) hargs
  · exact wellFormedArgs_of_ascii h

end Accepted

def tracerouteExample : TracerouteOptions := ⟨"example.com".toList, "Tcp".toList, 443, 4⟩

theorem wellFormedArgs_example :
    WellFormedArgs tracerouteExample (tracerouteExample.buildArgs .ascii) := by
  have haccepted : tracerouteExample.validate CaseTables.ascii.toCaseTable [] = .ok () := rfl
  have hascii : tracerouteExample.protocol.all (fun c => decide (c.toNat < 128)) = true := by decide
  exact (wellFormedArgs_iff haccepted).mpr
    (fun c hc => of_decide_eq_true (List.all_eq_true.mp hascii c hc))

/-- The dotless i, whose upper case is the letter I. -/
def dotlessI : Char := Char.ofNat 305

def dotlessUpper (c : Char) : Text := if c = dotlessI then ['I'] else [c.toUpper]

theorem dotlessUpper_ascii (c : Char) (hc : c.toNat < 128) : dotlessUpper c = [c.toUpper] := by
  have hne : c ≠ dotlessI := by
    rintro rfl
    exact absurd hc (by decide)
  exact if_neg hne

theorem toLower_of_dotlessUpper (c : Char) (hc : 128 ≤ c.toNat)
    (hupper : ∀ d ∈ dotlessUpper c, d.toNat < 128) : [c.toLower] = [c] := by
  by_cases hi : c = dotlessI
  · rw [hi]
    decide
  · rw [dotlessUpper, if_neg hi, toUpper_of_not_ascii hc] at hupper
    have hsmall := hupper c (List.mem_singleton_self c)
    omega

def dotlessTables : CaseTables where
  upper := dotlessUpper
  upper_ascii := dotlessUpper_ascii
  lower := CaseTables.ascii.lower
  lower_ascii := CaseTables.ascii.lower_ascii
  lower_of_upper_ascii := fun _ c _ => toLower_of_dotlessUpper c

def dotlessOptions : TracerouteOptions :=
  ⟨"example.com".toList, dotlessI :: "cmp".toList, 80, 4⟩

/-- Traceroute is given an option that it does not have. -/
theorem dotlessOptions_not_wellFormed :
    dotlessOptions.validate dotlessTables.toCaseTable [] = .ok () ∧
      ¬ WellFormedArgs dotlessOptions (dotlessOptions.buildArgs dotlessTables) := by
  have haccepted : dotlessOptions.validate dotlessTables.toCaseTable [] = .ok () := rfl
  exact ⟨haccepted, not_wellFormedArgs haccepted List.mem_cons_self (by decide)⟩

end Traceroute
end GlobalpingProbe.Command
