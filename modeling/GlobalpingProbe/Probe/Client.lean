import GlobalpingProbe.Probe.Answers
import GlobalpingProbe.Probe.Reconnect
import GlobalpingProbe.Status.ClientVerdict

/-! # The client as a whole: connections, calls and the shutdown sequence

One task runs `run` and `connect_once`; the calls that a connection spawned are tasks of
their own and go on when the connection is gone. Each connection has its own limiter and
counters, and all of them share the status manager.
-/
namespace GlobalpingProbe.Probe
open Foundation Status Reconnect

/-- What the tasks and handlers of the client do to the status manager, sigterm apart. -/
inductive StatusChange where
  | pingRound (ipv4 ipv6 : Bool)
  | verdict (e : VerdictEvent)
  | reportDisconnect (now : ℕ)

def handleStatusChange (m : StatusManager) : StatusChange → StatusManager
  | .pingRound ipv4 ipv6 => { m with pingTestFailed := some (!ipv4 && !ipv6) }
  | .verdict e => handleVerdictEvent m e
  | .reportDisconnect now => (m.reportDisconnect now).2

@[simp] theorem handleStatusChange_sigterm (m : StatusManager) (e : StatusChange) :
    (handleStatusChange m e).sigterm = m.sigterm := by
  cases e with
  | pingRound | reportDisconnect => rfl
  | verdict e =>
    cases e with
    | round => rfl
    | isProxy => exact onProxyStatus_sigterm m _

/-- What `connect_once` builds for one connection, with the calls it has spawned. -/
structure Connection where
  limiter : MeasurementLimiter
  stats : MeasurementStats
  calls : List Call
  socketOpen : Bool

namespace Connection

def fresh : Connection := ⟨.new, .new, [], true⟩

/-- The handler of `probe:measurement:request` spawns a call. -/
def request (c : Connection) (req : MeasurementRequest) : Option Connection :=
  if c.socketOpen then some { c with calls := c.calls ++ [.new req] } else none

def pool (c : Connection) (status : StatusManager) : Pool Shared Call :=
  ⟨⟨c.limiter, c.stats, status⟩, c.calls⟩

def callStep (c : Connection) (status : StatusManager) (i : ℕ) (a : CallStep) :
    Option Connection :=
  (stepTask Call.step (c.pool status) i a).map (fun p =>
    { c with limiter := p.shared.limiter, stats := p.shared.stats, calls := p.tasks })

def heldSlots (c : Connection) : ℕ := c.calls.countP (fun call => call.stage.holdsSlot)

end Connection

/-- How `connect_once` came to its `disconnect`. -/
inductive SessionEnd where
  | signalled (outcome : ConnectOutcome)
  | idle
  | drained
  | timedOut
  deriving DecidableEq, Repr

/-- Where the main task stands; the number is that of its connection. -/
inductive MainStage where
  | idle
  | connected (k : ℕ)
  | shuttingDown (k : ℕ)
  | sigtermSet (k : ℕ)
  | waiting (k : ℕ)
  | draining (k : ℕ)
  | leaving (k : ℕ) (e : SessionEnd)
  | stopped
  deriving DecidableEq, Repr

inductive MainStep where
  | connect
  | connectFailed
  | stop
  | shutdown
  | signalled (outcome : ConnectOutcome)
  | setSigterm
  | readInFlight
  | beginDrain
  | endDrain
  | drainTimeout
  | disconnect
  deriving DecidableEq, Repr

inductive ClientLabel where
  | main (a : MainStep)
  | request (k : ℕ) (req : MeasurementRequest)
  | call (k i : ℕ) (a : CallStep)
  | status (e : StatusChange)

structure World where
  status : StatusManager
  connections : List Connection
  stage : MainStage

/-- The loop goes on after an outcome for which the policy has a delay. -/
def SessionEnd.next : SessionEnd → MainStage
  | .signalled outcome => if (reconnectDelay outcome (.new 0 0)).1.isSome then .idle else .stopped
  | .idle | .drained | .timedOut => .stopped

namespace World

def goto (w : World) (s : MainStage) : World := { w with stage := s }

def update (w : World) (k : ℕ) (f : Connection → Option Connection) : Option World :=
  w.connections[k]?.bind (fun c => (f c).map (fun c =>
    { w with connections := w.connections.set k c }))

def mainStep (w : World) (a : MainStep) : Option World :=
  match w.stage, a with
  | .idle, .connect => some { w with
      connections := w.connections ++ [.fresh], stage := .connected w.connections.length }
  | .idle, .connectFailed => some w
  | .idle, .stop => some (w.goto .stopped)
  | .connected k, .shutdown => some (w.goto (.shuttingDown k))
  | .connected k, .signalled outcome => some (w.goto
      (if outcome = .cleanShutdown then .shuttingDown k else .leaving k (.signalled outcome)))
  | .shuttingDown k, .setSigterm =>
    some { w with status := w.status.setSigterm, stage := .sigtermSet k }
  | .sigtermSet k, .readInFlight => w.connections[k]?.map (fun c => w.goto
      (if c.limiter.inFlight > 0 then .waiting k else .leaving k .idle))
  | .waiting k, .beginDrain =>
    (w.update k (fun c => some { c with limiter := c.limiter.beginWaitIdle })).map
      (fun w => w.goto (.draining k))
  | .draining k, .endDrain =>
    (w.update k (fun c => c.limiter.endWaitIdle.map (fun l => { c with limiter := l }))).map
      (fun w => w.goto (.leaving k .drained))
  | .draining k, .drainTimeout =>
    (w.update k (fun c => some { c with limiter := c.limiter.cancelWaitIdle })).map
      (fun w => w.goto (.leaving k .timedOut))
  | .leaving k e, .disconnect =>
    (w.update k (fun c => some { c with socketOpen := false })).map (fun w => w.goto e.next)
  | _, _ => none

end World

/-- One step of the client: of the main task, of a call, or of what surrounds them. -/
def clientStep (w : World) : ClientLabel → Option World
  | .main a => w.mainStep a
  | .request k req => w.update k (fun c => c.request req)
  | .call k i a => w.update k (fun c => c.callStep w.status i a)
  | .status e => some { w with status := handleStatusChange w.status e }

def clientStart (host : Text) : World := ⟨.withApiHost host, [], .idle⟩

/-- All dispatch calls that have a slot, over all connections of the run. -/
def World.heldSlots (w : World) : ℕ := (w.connections.map Connection.heldSlots).sum

theorem update_eq_some {w w' : World} {k : ℕ} {f : Connection → Option Connection} :
    w.update k f = some w' ↔ ∃ c c', w.connections[k]? = some c ∧ f c = some c' ∧
      { w with connections := w.connections.set k c' } = w' := by
  simp only [World.update, Option.bind_eq_some_iff, Option.map_eq_some_iff]
  constructor
  · rintro ⟨c, hc, c', hf, he⟩
    exact ⟨c, c', hc, hf, he⟩
  · rintro ⟨c, c', hc, hf, he⟩
    exact ⟨c, hc, c', hf, he⟩

theorem callStep_eq_some {c c' : Connection} {status : StatusManager} {i : ℕ} {a : CallStep} :
    c.callStep status i a = some c' ↔ ∃ p, stepTask Call.step (c.pool status) i a = some p ∧
      { c with limiter := p.shared.limiter, stats := p.shared.stats, calls := p.tasks } = c' := by
  simp [Connection.callStep, Option.map_eq_some_iff]

/-- Everything a step of the main task can do. -/
inductive MainMove (w : World) : MainStep → World → Prop where
  | connected (hs : w.stage = .idle) : MainMove w .connect { w with
      connections := w.connections ++ [.fresh], stage := .connected w.connections.length }
  | failed (hs : w.stage = .idle) : MainMove w .connectFailed w
  | stopped (hs : w.stage = .idle) : MainMove w .stop (w.goto .stopped)
  | shutdown {k} (hs : w.stage = .connected k) : MainMove w .shutdown (w.goto (.shuttingDown k))
  | signalled {k outcome} (hs : w.stage = .connected k) : MainMove w (.signalled outcome) (w.goto
      (if outcome = .cleanShutdown then .shuttingDown k else .leaving k (.signalled outcome)))
  | sigterm {k} (hs : w.stage = .shuttingDown k) : MainMove w .setSigterm
      { w with status := w.status.setSigterm, stage := .sigtermSet k }
  | busy {k c} (hs : w.stage = .sigtermSet k) (hc : w.connections[k]? = some c)
      (hf : 0 < c.limiter.inFlight) : MainMove w .readInFlight (w.goto (.waiting k))
  | free {k c} (hs : w.stage = .sigtermSet k) (hc : w.connections[k]? = some c)
      (hf : c.limiter.inFlight = 0) : MainMove w .readInFlight (w.goto (.leaving k .idle))
  | begun {k c} (hs : w.stage = .waiting k) (hc : w.connections[k]? = some c) :
      MainMove w .beginDrain { w with
        connections := w.connections.set k { c with limiter := c.limiter.beginWaitIdle }
        stage := .draining k }
  | drained {k c l} (hs : w.stage = .draining k) (hc : w.connections[k]? = some c)
      (hl : c.limiter.endWaitIdle = some l) : MainMove w .endDrain { w with
        connections := w.connections.set k { c with limiter := l }
        stage := .leaving k .drained }
  | timedOut {k c} (hs : w.stage = .draining k) (hc : w.connections[k]? = some c) :
      MainMove w .drainTimeout { w with
        connections := w.connections.set k { c with limiter := c.limiter.cancelWaitIdle }
        stage := .leaving k .timedOut }
  | disconnected {k e c} (hs : w.stage = .leaving k e) (hc : w.connections[k]? = some c) :
      MainMove w .disconnect { w with
        connections := w.connections.set k { c with socketOpen := false }, stage := e.next }

theorem World.mainStep_move {w w' : World} {a : MainStep} (h : w.mainStep a = some w') :
    MainMove w a w' := by
  unfold World.mainStep at h
  split at h
  case h_1 hs => cases h; exact .connected hs
  case h_2 hs => cases h; exact .failed hs
  case h_3 hs => cases h; exact .stopped hs
  case h_4 hs => cases h; exact .shutdown hs
  case h_5 hs => cases h; exact .signalled hs
  case h_6 hs => cases h; exact .sigterm hs
  case h_7 hs =>
    obtain ⟨c, hc, rfl⟩ := Option.map_eq_some_iff.mp h
    split
    · next hf => exact .busy hs hc hf
    · next hf => exact .free hs hc (Nat.eq_zero_of_not_pos hf)
  case h_8 hs =>
    obtain ⟨v, hv, rfl⟩ := Option.map_eq_some_iff.mp h
    obtain ⟨c, c', hc, hf, rfl⟩ := update_eq_some.mp hv
    cases hf
    exact .begun hs hc
  case h_9 hs =>
    obtain ⟨v, hv, rfl⟩ := Option.map_eq_some_iff.mp h
    obtain ⟨c, c', hc, hf, rfl⟩ := update_eq_some.mp hv
    obtain ⟨l, hl, rfl⟩ := Option.map_eq_some_iff.mp hf
    exact .drained hs hc hl
  case h_10 hs =>
    obtain ⟨v, hv, rfl⟩ := Option.map_eq_some_iff.mp h
    obtain ⟨c, c', hc, hf, rfl⟩ := update_eq_some.mp hv
    cases hf
    exact .timedOut hs hc
  case h_11 hs =>
    obtain ⟨v, hv, rfl⟩ := Option.map_eq_some_iff.mp h
    obtain ⟨c, c', hc, hf, rfl⟩ := update_eq_some.mp hv
    cases hf
    exact .disconnected hs hc
  case h_12 => cases h

end GlobalpingProbe.Probe
