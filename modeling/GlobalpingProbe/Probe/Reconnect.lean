import GlobalpingProbe.Util.Data
import Mathlib.Order.Lattice
import Mathlib.Tactic.Ring

/-! # Reconnect policy and the loop of `client::run`

Each pass of the loop makes one connection attempt, asks the policy for a delay, resets
the backoff when the outcome or the session calls for it, and then sleeps. The order of
the last two steps against the first is what the delay after a session depends on.
-/
namespace GlobalpingProbe.Reconnect

inductive ConnectOutcome where
  | cleanShutdown
  | ipLimitOrVpn
  | metadataError
  | invalidVersion
  | serverTerminating
  | transient
  deriving DecidableEq, Repr

structure ExponentialBackoff where
  current : ℕ
  min : ℕ
  max : ℕ
  deriving DecidableEq, Repr

namespace ExponentialBackoff

def new (min max : ℕ) : ExponentialBackoff := ⟨min, min, max⟩

/-- The current delay, and the backoff with the delay doubled for next time. -/
def next (b : ExponentialBackoff) : ℕ × ExponentialBackoff :=
  (b.current, { b with current := Min.min (b.current * 2) b.max })

def reset (b : ExponentialBackoff) : ExponentialBackoff := { b with current := b.min }

end ExponentialBackoff

/-- How long to wait before the next attempt; `none` ends the loop. -/
def reconnectDelay (outcome : ConnectOutcome) (backoff : ExponentialBackoff) :
    Option ℕ × ExponentialBackoff :=
  match outcome with
  | .cleanShutdown => (none, backoff)
  | .invalidVersion => (none, backoff)
  | .ipLimitOrVpn => (some (fromSecs (60 * 60)), backoff)
  | .metadataError => (some (fromSecs 60), backoff)
  | .serverTerminating => (some 0, backoff)
  | .transient => (some backoff.next.1, backoff.next.2)

/-- What one pass of the loop observes: the shutdown flag at its head, the pair returned
by `connect_once`, and whether shutdown arrives during the sleep. -/
structure Attempt where
  shutdownSeen : Bool
  outcome : ConnectOutcome
  wasConnected : Bool
  shutdownInSleep : Bool
  deriving DecidableEq, Repr

structure Pass where
  attempt : Attempt
  delay : ℕ
  deriving DecidableEq, Repr

inductive LoopEnd where
  | looping
  | closed
  | exited (code : ℕ)
  deriving DecidableEq, Repr

/-- The loop of `client::run` over the attempts it makes. -/
def runLoop (backoff : ExponentialBackoff) : List Attempt → List Pass × LoopEnd
  | [] => ([], .looping)
  | a :: rest =>
    if a.shutdownSeen then ([], .closed)
    else
      match reconnectDelay a.outcome backoff with
      | (none, _) => ([], if a.outcome = .invalidVersion then .exited 1 else .closed)
      | (some delay, backoff) =>
        let backoff :=
          if a.outcome ≠ .transient ∨ a.wasConnected then backoff.reset else backoff
        if delay ≠ 0 ∧ a.shutdownInSleep then ([⟨a, delay⟩], .closed)
        else
          let later := runLoop backoff rest
          (⟨a, delay⟩ :: later.1, later.2)

/-- The loop as `run` starts it: the delay grows from one second to five minutes. -/
def clientRun (attempts : List Attempt) : List Pass × LoopEnd :=
  runLoop (.new (fromSecs 1) (fromSecs 300)) attempts

/-- A transient outcome of an attempt whose connect event never fired. -/
def Attempt.isFailure (a : Attempt) : Bool := a.outcome = .transient && !a.wasConnected

/-- Transient outcomes without a session since the latest real session or policy outcome. -/
def failuresSince (history : List Attempt) : ℕ :=
  (history.reverse.takeWhile Attempt.isFailure).length

/-- The delay the history calls for after a transient outcome. -/
def expectedDelay (history : List Attempt) (a : Attempt) : ℕ :=
  if a.wasConnected then fromSecs 1
  else min (2 ^ failuresSince history * fromSecs 1) (fromSecs 300)

/-- Every transient pass sleeps the delay that its own history calls for. -/
def DelaysFollowHistory (passes : List Pass) : Prop :=
  ∀ before p after, passes = before ++ p :: after → p.attempt.outcome = .transient →
    p.delay = expectedDelay (before.map Pass.attempt) p.attempt

/-- No real session ends in a transient outcome while earlier failures are outstanding. -/
def SessionsStartFresh (passes : List Pass) : Prop :=
  ∀ before p after, passes = before ++ p :: after → p.attempt.outcome = .transient →
    p.attempt.wasConnected → failuresSince (before.map Pass.attempt) = 0

theorem failuresSince_concat (history : List Attempt) (a : Attempt) :
    failuresSince (history ++ [a]) = if a.isFailure then failuresSince history + 1 else 0 := by
  unfold failuresSince
  rw [List.reverse_concat, List.takeWhile_cons]
  split <;> simp

/-- The invariant of the loop: the backoff stands where the failures outstanding put it. -/
structure BackoffFollows (history : List Attempt) (b : ExponentialBackoff) : Prop where
  current : b.current = min (2 ^ failuresSince history * fromSecs 1) (fromSecs 300)
  min : b.min = fromSecs 1
  max : b.max = fromSecs 300

theorem backoffFollows_new : BackoffFollows [] (.new (fromSecs 1) (fromSecs 300)) :=
  ⟨by decide, rfl, rfl⟩

theorem min_double (d m : ℕ) : min (min d m * 2) m = min (d * 2) m := by omega

theorem BackoffFollows.reset {history : List Attempt} {b : ExponentialBackoff}
    (h : BackoffFollows history b) {a : Attempt} (ha : a.isFailure = false) :
    BackoffFollows (history ++ [a]) b.reset := by
  refine ⟨?_, h.min, h.max⟩
  have hk : failuresSince (history ++ [a]) = 0 := by simp [failuresSince_concat, ha]
  simp only [hk, ExponentialBackoff.reset, h.min]
  decide

theorem BackoffFollows.next {history : List Attempt} {b : ExponentialBackoff}
    (h : BackoffFollows history b) {a : Attempt} (ha : a.isFailure = true) :
    BackoffFollows (history ++ [a]) b.next.2 := by
  refine ⟨?_, h.min, h.max⟩
  have hk : failuresSince (history ++ [a]) = failuresSince history + 1 := by
    simp [failuresSince_concat, ha]
  have hd : 2 ^ (failuresSince history + 1) * fromSecs 1 =
      2 ^ failuresSince history * fromSecs 1 * 2 := by ring
  simp only [ExponentialBackoff.next, h.current, h.max, hk, hd]
  exact min_double _ _

/-- One pass that sleeps: a transient delay is the current one, and the backoff advances
exactly when the attempt failed without a session. -/
theorem reconnectDelay_spec {b b' : ExponentialBackoff} {a : Attempt} {delay : ℕ}
    (h : reconnectDelay a.outcome b = (some delay, b')) :
    (a.outcome = .transient → delay = b.current) ∧
      (if a.outcome ≠ .transient ∨ a.wasConnected then b'.reset else b') =
        (if a.isFailure then b.next.2 else b.reset) := by
  cases ho : a.outcome with
  | cleanShutdown | invalidVersion => simp [reconnectDelay, ho] at h
  | ipLimitOrVpn | metadataError | serverTerminating =>
    simp only [reconnectDelay, ho, Prod.mk.injEq] at h
    obtain ⟨-, rfl⟩ := h
    simp [Attempt.isFailure, ho]
  | transient =>
    simp only [reconnectDelay, ho, Prod.mk.injEq, Option.some.injEq] at h
    obtain ⟨rfl, rfl⟩ := h
    cases hc : a.wasConnected <;>
      simp [Attempt.isFailure, ho, hc, ExponentialBackoff.next, ExponentialBackoff.reset]

theorem runLoop_nil (b : ExponentialBackoff) : (runLoop b []).1 = [] := rfl

/-- A pass of the loop either ends it without sleeping, or sleeps and goes on from the
backoff that follows the pass (unless the shutdown cuts the sleep). -/
theorem runLoop_cons (b : ExponentialBackoff) (a : Attempt) (rest : List Attempt) :
    (runLoop b (a :: rest)).1 = [] ∨
      ∃ delay later, (runLoop b (a :: rest)).1 = ⟨a, delay⟩ :: later ∧
        (a.outcome = .transient → delay = b.current) ∧
        (later = [] ∨
          later = (runLoop (if a.isFailure then b.next.2 else b.reset) rest).1) := by
  rw [runLoop]
  split
  · exact Or.inl rfl
  · split
    · exact Or.inl rfl
    · next delay b' h =>
      obtain ⟨hd, hb⟩ := reconnectDelay_spec h
      right
      dsimp only
      rw [hb]
      split
      · exact ⟨delay, [], rfl, hd, Or.inl rfl⟩
      · exact ⟨delay, _, rfl, hd, Or.inr rfl⟩

/-- Every transient pass of a run sleeps what the failures before it add up to, whether
or not its own session was real. -/
theorem runLoop_delay {history : List Attempt} {b : ExponentialBackoff}
    (hb : BackoffFollows history b) (attempts : List Attempt) {before after : List Pass} {p : Pass}
    (h : (runLoop b attempts).1 = before ++ p :: after) (hp : p.attempt.outcome = .transient) :
    p.delay = min (2 ^ failuresSince (history ++ before.map Pass.attempt) * fromSecs 1)
      (fromSecs 300) := by
  induction attempts generalizing history b before with
  | nil => simp [runLoop_nil] at h
  | cons a rest ih =>
    rcases runLoop_cons b a rest with hn | ⟨delay, later, hl, hd, hlater⟩
    · simp [hn] at h
    · rw [hl] at h
      cases before with
      | nil =>
        obtain ⟨rfl, -⟩ := List.cons.inj h
        simpa [hb.current] using hd hp
      | cons q before =>
        obtain ⟨rfl, htail⟩ := List.cons.inj h
        rcases hlater with rfl | rfl
        · simp at htail
        · have hnext : BackoffFollows (history ++ [a])
              (if a.isFailure then b.next.2 else b.reset) := by
            split
            · next ha => exact hb.next ha
            · next ha => exact hb.reset (by simpa using ha)
          simpa using ih hnext htail

/-- One second is what outstanding failures add up to exactly when there are none. -/
theorem backoffDelay_eq_second (k : ℕ) :
    min (2 ^ k * fromSecs 1) (fromSecs 300) = fromSecs 1 ↔ k = 0 := by
  cases k with
  | zero => decide
  | succ k =>
    have hk : 1 ≤ 2 ^ k := Nat.one_le_two_pow
    simp only [fromSecs, pow_succ, Nat.add_eq_zero_iff, one_ne_zero, and_false, iff_false]
    omega

/-- Over every run of the loop the delays follow the history exactly when no real session
ends in a transient outcome while failures before it are outstanding. -/
theorem clientRun_delays_iff (attempts : List Attempt) :
    DelaysFollowHistory (clientRun attempts).1 ↔ SessionsStartFresh (clientRun attempts).1 := by
  have hdelay : ∀ before p after, (clientRun attempts).1 = before ++ p :: after →
      p.attempt.outcome = .transient →
      p.delay = min (2 ^ failuresSince (before.map Pass.attempt) * fromSecs 1) (fromSecs 300) :=
    fun before p after h hp => runLoop_delay backoffFollows_new attempts h hp
  constructor
  · intro hfollow before p after h hp hc
    have he := hfollow before p after h hp
    rw [hdelay before p after h hp, expectedDelay, if_pos hc] at he
    exact (backoffDelay_eq_second _).mp he
  · intro hfresh before p after h hp
    rw [hdelay before p after h hp, expectedDelay]
    split
    · next hc =>
      exact (backoffDelay_eq_second _).mpr (hfresh before p after h hp hc)
    · rfl

/-- One failed attempt, then a real session that ends in a transient outcome. -/
def staleFailureRun : List Attempt :=
  [⟨false, .transient, false, false⟩, ⟨false, .transient, true, false⟩]

/-- The session of `staleFailureRun` is followed by a two second sleep. -/
theorem staleFailureRun_lengthens_delay :
    (clientRun staleFailureRun).1.map Pass.delay = [fromSecs 1, fromSecs 2] ∧
      ¬ DelaysFollowHistory (clientRun staleFailureRun).1 := by
  refine ⟨by decide, fun h => ?_⟩
  have hd := h [⟨⟨false, .transient, false, false⟩, fromSecs 1⟩]
    ⟨⟨false, .transient, true, false⟩, fromSecs 2⟩ [] (by decide) rfl
  exact absurd hd (by decide)

end GlobalpingProbe.Reconnect
