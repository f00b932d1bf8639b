import GlobalpingProbe.Command.Http.CurlArgs
import GlobalpingProbe.Foundation.ExactOrder
import Mathlib.Algebra.BigOperators.Ring.Finset
import Mathlib.Tactic.Ring

/-! # The phases of a request

The report of curl has the seconds from the start to the end of each phase; the result has the
milliseconds that each phase took. The time of the name lookup is part of the connection, and
what the resolution before curl took is on top of the total.
-/
namespace GlobalpingProbe.Command.Http
open Foundation Foundation.F64

/-- The times in the report of curl, as exact numbers of seconds. -/
structure CurlTimes where
  timeNamelookup : ℚ
  timeConnect : ℚ
  timeAppconnect : ℚ
  timeStarttransfer : ℚ
  timeTotal : ℚ
  deriving DecidableEq, Repr

structure HttpTimings where
  total : Option ℕ
  dns : Option ℕ
  tcp : Option ℕ
  tls : Option ℕ
  firstByte : Option ℕ
  download : Option ℕ
  deriving DecidableEq, Repr

def isHttps (table : CaseTable) (opts : HttpOptions) : Bool :=
  table.toUppercase opts.protocol ≠ "HTTP".toList

/-- Rounded milliseconds. The conversion to an unsigned number stops at zero; its upper end is
out of reach, since curl counts microseconds in as many bits. -/
def toMs (seconds : ℚ) : ℕ := (roundAway (seconds * 1000)).toNat

/-- When the connection was ready for the request. -/
def CurlTimes.appConnect (stats : CurlTimes) (isHttps : Bool) : ℚ :=
  if isHttps then stats.timeAppconnect else stats.timeConnect

/-- The timings of `run_http`. -/
def httpTimings (table : CaseTable) (opts : HttpOptions) (dnsMs : Option ℕ) (stats : CurlTimes) :
    HttpTimings :=
  let isHttps := isHttps table opts
  let tLookup := toMs stats.timeNamelookup
  let tTcp := toMs (stats.timeConnect - stats.timeNamelookup)
  let tTls := if isHttps then some (toMs (stats.timeAppconnect - stats.timeConnect)) else none
  let tFirst := toMs (stats.timeStarttransfer - stats.appConnect isHttps)
  let tDownload := toMs (stats.timeTotal - stats.timeStarttransfer)
  { total := some (dnsMs.getD 0 + toMs stats.timeTotal)
    dns := dnsMs
    tcp := some (tTcp + tLookup)
    tls := tTls
    firstByte := some tFirst
    download := some tDownload }

/-- The sum of the phases, an absent one counted as zero. -/
def HttpTimings.phases (timings : HttpTimings) : ℕ :=
  timings.dns.getD 0 + timings.tcp.getD 0 + timings.tls.getD 0 + timings.firstByte.getD 0 +
    timings.download.getD 0

/-- Only the times of the name lookup and of TLS may be absent. -/
def HttpTimings.AddUp (timings : HttpTimings) : Prop :=
  ∃ total tcp firstByte download, timings.total = some total ∧ timings.tcp = some tcp ∧
    timings.firstByte = some firstByte ∧ timings.download = some download ∧
    |(total : ℤ) - (timings.dns.getD 0 + tcp + timings.tls.getD 0 + firstByte + download : ℕ)| < 3

/-- Each phase ends no earlier than the one before it. -/
structure CurlTimes.Ordered (stats : CurlTimes) (isHttps : Bool) : Prop where
  lookup : 0 ≤ stats.timeNamelookup
  connect : stats.timeNamelookup ≤ stats.timeConnect
  appConnect : stats.timeConnect ≤ stats.appConnect isHttps
  startTransfer : stats.appConnect isHttps ≤ stats.timeStarttransfer
  total : stats.timeStarttransfer ≤ stats.timeTotal

theorem toMs_eq {seconds : ℚ} (h : 0 ≤ seconds) :
    ((toMs seconds : ℕ) : ℤ) = roundAway (seconds * 1000) :=
  Int.toNat_of_nonneg (roundAway_nonneg (by linarith))

@[simp] theorem toMs_zero : toMs 0 = 0 := by
  have hround : roundAway 0 = 0 := by decide +kernel
  rw [toMs, zero_mul, hround]
  rfl

section Phases
variable {table : CaseTable} {opts : HttpOptions} {stats : CurlTimes}

/-- The seconds that each phase took; over plain HTTP the third is none. -/
def CurlTimes.steps (stats : CurlTimes) (isHttps : Bool) : List ℚ :=
  [stats.timeNamelookup, stats.timeConnect - stats.timeNamelookup,
    stats.appConnect isHttps - stats.timeConnect,
    stats.timeStarttransfer - stats.appConnect isHttps,
    stats.timeTotal - stats.timeStarttransfer]

theorem steps_sum (stats : CurlTimes) (isHttps : Bool) :
    (stats.steps isHttps).sum = stats.timeTotal := by
  simp only [CurlTimes.steps, List.sum_cons, List.sum_nil]
  ring

theorem CurlTimes.Ordered.steps_nonneg {isHttps : Bool} (h : stats.Ordered isHttps) :
    ∀ x ∈ stats.steps isHttps, 0 ≤ x := by
  simp only [CurlTimes.steps, List.forall_mem_cons, sub_nonneg]
  exact ⟨h.lookup, h.connect, h.appConnect, h.startTransfer, h.total, List.forall_mem_nil _⟩

theorem CurlTimes.Ordered.total_nonneg {isHttps : Bool} (h : stats.Ordered isHttps) :
    0 ≤ stats.timeTotal := by
  rw [← steps_sum stats isHttps]
  exact List.sum_nonneg h.steps_nonneg

/-- No step is dropped and none is counted twice. -/
theorem phases_httpTimings (table : CaseTable) (opts : HttpOptions) (dnsMs : Option ℕ)
    (stats : CurlTimes) : (httpTimings table opts dnsMs stats).phases =
      dnsMs.getD 0 + ((stats.steps (isHttps table opts)).map toMs).sum := by
  cases hproto : isHttps table opts with
  | true =>
    simp only [httpTimings, HttpTimings.phases, CurlTimes.steps, CurlTimes.appConnect, hproto,
      if_true, Option.getD_some, List.map_cons, List.map_nil, List.sum_cons, List.sum_nil]
    ring
  | false =>
    simp only [httpTimings, HttpTimings.phases, CurlTimes.steps, CurlTimes.appConnect, hproto,
      Bool.false_eq_true, if_false, Option.getD_some, Option.getD_none, List.map_cons,
      List.map_nil, List.sum_cons, List.sum_nil, sub_self, toMs_zero]
    ring

/-- The total and all phases but those of the name and of TLS are reported, and the phases add up
to the total, short of three milliseconds. -/
theorem total_close_to_phases (table : CaseTable) (opts : HttpOptions) (dnsMs : Option ℕ)
    {stats : CurlTimes} (h : stats.Ordered (isHttps table opts)) :
    (httpTimings table opts dnsMs stats).AddUp := by
  have hsteps := h.steps_nonneg
  have hscaled : ∀ x ∈ (stats.steps (isHttps table opts)).map (· * 1000), 0 ≤ x := by
    intro x hx
    obtain ⟨y, hy, rfl⟩ := List.mem_map.mp hx
    exact mul_nonneg (hsteps y hy) (by norm_num)
  have hclose := roundAway_sum_close hscaled
  have hsum : ((stats.steps (isHttps table opts)).map (· * 1000)).sum = stats.timeTotal * 1000 := by
    rw [List.sum_map_mul_right, List.map_id', steps_sum]
  have htotal := h.total_nonneg
  have hparts : ((((stats.steps (isHttps table opts)).map toMs).sum : ℕ) : ℤ) =
      (((stats.steps (isHttps table opts)).map (· * 1000)).map roundAway).sum := by
    rw [Nat.cast_list_sum, List.map_map, List.map_map]
    exact congrArg List.sum (List.map_congr_left (fun x hx => toMs_eq (hsteps x hx)))
  rw [hsum, ← hparts, ← toMs_eq htotal] at hclose
  have hbound : ((((stats.steps (isHttps table opts)).map (· * 1000)).length : ℚ) + 1) / 2 =
      ((3 : ℤ) : ℚ) := by
    rw [List.length_map]
    norm_num [CurlTimes.steps]
  rw [hbound, ← Int.cast_sub, ← Int.cast_abs, Int.cast_lt] at hclose
  have hphases := phases_httpTimings table opts dnsMs stats
  refine ⟨_, _, _, _, rfl, rfl, rfl, rfl, ?_⟩
  change |((dnsMs.getD 0 + toMs stats.timeTotal : ℕ) : ℤ) -
    ((httpTimings table opts dnsMs stats).phases : ℕ)| < 3
  have hdiff : ((dnsMs.getD 0 + toMs stats.timeTotal : ℕ) : ℤ) -
      ((httpTimings table opts dnsMs stats).phases : ℕ) =
        (toMs stats.timeTotal : ℤ) - (((stats.steps (isHttps table opts)).map toMs).sum : ℕ) := by
    rw [hphases]
    push_cast
    ring
  rw [hdiff]
  exact hclose

end Phases

/-- Five phases of half a millisecond. -/
def halfTimes : CurlTimes := ⟨1 / 2000, 2 / 2000, 3 / 2000, 4 / 2000, 5 / 2000⟩

theorem halfTimes_close : (httpTimings .ascii httpExample (some 7) halfTimes).AddUp := by
  have hordered : halfTimes.Ordered (isHttps .ascii httpExample) := by
    constructor <;> decide +kernel
  exact total_close_to_phases .ascii httpExample (some 7) hordered

end GlobalpingProbe.Command.Http
