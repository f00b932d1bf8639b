import GlobalpingProbe.Foundation.TaskPool
import GlobalpingProbe.Util.OutputLimit
import GlobalpingProbe.Status.StatusManager
import GlobalpingProbe.Probe.Limiter

/-! # One `dispatch` call and its progress forwarder, step by step

A call moves through the awaits of `dispatch`; each step is one action on the state it
shares with other calls or one event on the socket. Labels carry what the code does not
decide: whether an emit succeeds, what the command sends, and how its future ends.
-/
namespace GlobalpingProbe.Probe
open Foundation Status

structure MeasurementRequest where
  measurementId : Text
  testId : Text
  measurement : Json

inductive MeasurementCommand where
  | ping
  | dns
  | traceroute
  | mtr
  | http
  deriving DecidableEq, Repr

def makeCommand (mtype : Text) : Option MeasurementCommand :=
  if mtype = "ping".toList then some .ping
  else if mtype = "dns".toList then some .dns
  else if mtype = "traceroute".toList then some .traceroute
  else if mtype = "mtr".toList then some .mtr
  else if mtype = "http".toList then some .http
  else none

namespace MeasurementRequest

def mtype (r : MeasurementRequest) : Text :=
  ((r.measurement.get "type".toList).bind Json.asStr).getD []

def inProgress (r : MeasurementRequest) : Bool :=
  ((r.measurement.get "inProgressUpdates".toList).bind Json.asBool).getD false

def command (r : MeasurementRequest) : Option MeasurementCommand := makeCommand r.mtype

end MeasurementRequest

/-- How the command's future ends under the timeout of `dispatch`. -/
inductive RunOutcome where
  | value (v : Json)
  | error (message : Text)
  | timeout

def failedResult (rawOutput : Text) : Json :=
  .obj [("status".toList, .str "failed".toList), ("rawOutput".toList, .str rawOutput)]

def RunOutcome.toJson : RunOutcome → Json
  | .value v => v
  | .error message => failedResult message
  | .timeout => failedResult "Measurement timed out.".toList

def unknownTypeResult (mtype : Text) : Json :=
  failedResult ("Unknown measurement type: ".toList ++ mtype)

/-- What one call has done to the outside. -/
inductive CallEvent where
  | ack
  | recordStart
  | recordFinish
  | sent (item : Json)
  | progress (testId measurementId : Text) (result : Json)
  | result (testId measurementId : Text) (result : Json)

/-- The way a call comes to its return. -/
inductive Exit where
  | noSlot
  | notReady
  | ackFailed
  | unknownType
  | answered
  deriving DecidableEq, Repr

/-- Where in `dispatch` a call stands; from `slotHeld` to `leaving` it holds its slot. -/
inductive Stage where
  | created
  | slotHeld
  | statusReady
  | acked
  | unknownType
  | starting (command : MeasurementCommand)
  | running (command : MeasurementCommand)
  | ended (outcome : RunOutcome)
  | counted (result : Json)
  | leaving (exit : Exit)
  | returned (exit : Exit)

/-- The unbounded channel to the forwarder task, and the item the forwarder has taken. -/
structure Channel where
  queue : List Json
  taken : Option Json

def Channel.new : Channel := ⟨[], none⟩

structure Call where
  req : MeasurementRequest
  stage : Stage
  channel : Option Channel
  trace : List CallEvent

def Call.new (req : MeasurementRequest) : Call := ⟨req, .created, none, []⟩

/-- What the calls of one connection share. -/
structure Shared where
  limiter : MeasurementLimiter
  stats : MeasurementStats
  status : StatusManager

inductive CallStep where
  | tryAcquire
  | readStatus
  | emitAck (ok : Bool)
  | lookupType
  | recordStart
  | send (item : Json)
  | finish (outcome : RunOutcome)
  | recordFinish
  | emitResult
  | dropSlot
  | recv
  | emitProgress

namespace Call

def log (c : Call) (e : CallEvent) : Call := { c with trace := c.trace ++ [e] }

def goto (c : Call) (s : Stage) : Call := { c with stage := s }

def setChannel (c : Call) (ch : Option Channel) : Call := { c with channel := ch }

/-- The steps of the forwarder: take the next item and cap it, then emit what was taken. -/
def forwardStep (c : Call) : CallStep → Option Call
  | .recv =>
    match c.channel with
    | some ⟨item :: queue, none⟩ =>
      some (c.setChannel (some ⟨queue, some (limitRawOutput item)⟩))
    | _ => none
  | .emitProgress =>
    match c.channel with
    | some ⟨queue, some item⟩ =>
      some ((c.setChannel (some ⟨queue, none⟩)).log
        (.progress c.req.testId c.req.measurementId item))
    | _ => none
  | _ => none

/-- One step of a call. A dropped or finished command sends nothing more, so the end of the
channel needs no flag: the forwarder drains the queue whatever `dispatch` does meanwhile. -/
def step (sh : Shared) (c : Call) (a : CallStep) : Option (Shared × Call) :=
  match c.stage, a with
  | .created, .tryAcquire =>
    match sh.limiter.tryAcquire with
    | some limiter => some ({ sh with limiter := limiter }, c.goto .slotHeld)
    | none => some (sh, c.goto (.returned .noSlot))
  | .slotHeld, .readStatus =>
    if sh.status.getStatus.toText ≠ "ready".toList then some (sh, c.goto (.leaving .notReady))
    else some (sh, c.goto .statusReady)
  | .statusReady, .emitAck ok =>
    if ok then some (sh, (c.log .ack).goto .acked) else some (sh, c.goto (.leaving .ackFailed))
  | .acked, .lookupType =>
    match c.req.command with
    | some command => some (sh, c.goto (.starting command))
    | none => some (sh, c.goto .unknownType)
  | .unknownType, .emitResult =>
    some (sh, (c.log (.result c.req.testId c.req.measurementId
      (unknownTypeResult c.req.mtype))).goto (.leaving .unknownType))
  | .starting command, .recordStart =>
    some ({ sh with stats := sh.stats.recordStart },
      ((c.log .recordStart).goto (.running command)).setChannel
        (if c.req.inProgress then some .new else none))
  | .running _, .send item =>
    match c.channel with
    | some ch => some (sh, (c.log (.sent item)).setChannel
        (some { ch with queue := ch.queue ++ [item] }))
    | none => none
  | .running _, .finish outcome => some (sh, c.goto (.ended outcome))
  | .ended outcome, .recordFinish =>
    some ({ sh with stats := sh.stats.recordFinish },
      (c.log .recordFinish).goto (.counted (limitRawOutput outcome.toJson)))
  | .counted result, .emitResult =>
    some (sh, (c.log (.result c.req.testId c.req.measurementId result)).goto (.leaving .answered))
  | .leaving exit, .dropSlot =>
    some ({ sh with limiter := sh.limiter.dropSlot }, c.goto (.returned exit))
  | _, a => (c.forwardStep a).map (fun c => (sh, c))

@[simp] theorem goto_stage (c : Call) (s : Stage) : (c.goto s).stage = s := rfl
@[simp] theorem goto_req (c : Call) (s : Stage) : (c.goto s).req = c.req := rfl
@[simp] theorem goto_channel (c : Call) (s : Stage) : (c.goto s).channel = c.channel := rfl
@[simp] theorem goto_trace (c : Call) (s : Stage) : (c.goto s).trace = c.trace := rfl
@[simp] theorem log_stage (c : Call) (e : CallEvent) : (c.log e).stage = c.stage := rfl
@[simp] theorem log_req (c : Call) (e : CallEvent) : (c.log e).req = c.req := rfl
@[simp] theorem log_channel (c : Call) (e : CallEvent) : (c.log e).channel = c.channel := rfl
@[simp] theorem log_trace (c : Call) (e : CallEvent) : (c.log e).trace = c.trace ++ [e] := rfl
@[simp] theorem setChannel_stage (c : Call) (ch : Option Channel) :
    (c.setChannel ch).stage = c.stage := rfl
@[simp] theorem setChannel_req (c : Call) (ch : Option Channel) :
    (c.setChannel ch).req = c.req := rfl
@[simp] theorem setChannel_channel (c : Call) (ch : Option Channel) :
    (c.setChannel ch).channel = ch := rfl
@[simp] theorem setChannel_trace (c : Call) (ch : Option Channel) :
    (c.setChannel ch).trace = c.trace := rfl

end Call

/-- Everything a step of a call can do, one constructor for each branch. -/
inductive CallMove (sh : Shared) (c : Call) : CallStep → Shared → Call → Prop where
  | acquired {limiter} (hs : c.stage = .created) (hl : sh.limiter.tryAcquire = some limiter) :
      CallMove sh c .tryAcquire { sh with limiter := limiter } (c.goto .slotHeld)
  | refused (hs : c.stage = .created) (hl : sh.limiter.tryAcquire = none) :
      CallMove sh c .tryAcquire sh (c.goto (.returned .noSlot))
  | notReady (hs : c.stage = .slotHeld) (hr : sh.status.getStatus ≠ .ready) :
      CallMove sh c .readStatus sh (c.goto (.leaving .notReady))
  | ready (hs : c.stage = .slotHeld) (hr : sh.status.getStatus = .ready) :
      CallMove sh c .readStatus sh (c.goto .statusReady)
  | acked (hs : c.stage = .statusReady) :
      CallMove sh c (.emitAck true) sh ((c.log .ack).goto .acked)
  | ackFailed (hs : c.stage = .statusReady) :
      CallMove sh c (.emitAck false) sh (c.goto (.leaving .ackFailed))
  | known {command} (hs : c.stage = .acked) (hc : c.req.command = some command) :
      CallMove sh c .lookupType sh (c.goto (.starting command))
  | unknown (hs : c.stage = .acked) (hc : c.req.command = none) :
      CallMove sh c .lookupType sh (c.goto .unknownType)
  | answeredUnknown (hs : c.stage = .unknownType) :
      CallMove sh c .emitResult sh ((c.log (.result c.req.testId c.req.measurementId
        (unknownTypeResult c.req.mtype))).goto (.leaving .unknownType))
  | started {command} (hs : c.stage = .starting command) :
      CallMove sh c .recordStart { sh with stats := sh.stats.recordStart }
        (((c.log .recordStart).goto (.running command)).setChannel
          (if c.req.inProgress then some .new else none))
  | sent {command ch item} (hs : c.stage = .running command) (hc : c.channel = some ch) :
      CallMove sh c (.send item) sh ((c.log (.sent item)).setChannel
        (some { ch with queue := ch.queue ++ [item] }))
  | ended {command outcome} (hs : c.stage = .running command) :
      CallMove sh c (.finish outcome) sh (c.goto (.ended outcome))
  | finished {outcome} (hs : c.stage = .ended outcome) :
      CallMove sh c .recordFinish { sh with stats := sh.stats.recordFinish }
        ((c.log .recordFinish).goto (.counted (limitRawOutput outcome.toJson)))
  | answered {result} (hs : c.stage = .counted result) :
      CallMove sh c .emitResult sh
        ((c.log (.result c.req.testId c.req.measurementId result)).goto (.leaving .answered))
  | dropped {exit} (hs : c.stage = .leaving exit) :
      CallMove sh c .dropSlot { sh with limiter := sh.limiter.dropSlot } (c.goto (.returned exit))
  | received {item queue} (hc : c.channel = some ⟨item :: queue, none⟩) :
      CallMove sh c .recv sh (c.setChannel (some ⟨queue, some (limitRawOutput item)⟩))
  | forwarded {item queue} (hc : c.channel = some ⟨queue, some item⟩) :
      CallMove sh c .emitProgress sh ((c.setChannel (some ⟨queue, none⟩)).log
        (.progress c.req.testId c.req.measurementId item))

theorem Call.forwardStep_move {sh : Shared} {c c' : Call} {a : CallStep}
    (h : c.forwardStep a = some c') : CallMove sh c a sh c' := by
  unfold Call.forwardStep at h
  split at h
  · split at h
    · next hc => cases h; exact .received hc
    · cases h
  · split at h
    · next hc => cases h; exact .forwarded hc
    · cases h
  · cases h

theorem Call.step_move {sh sh' : Shared} {c c' : Call} {a : CallStep}
    (h : c.step sh a = some (sh', c')) : CallMove sh c a sh' c' := by
  unfold Call.step at h
  split at h
  case h_1 hs =>
    split at h
    · next hl => cases h; exact .acquired hs hl
    · next hl => cases h; exact .refused hs hl
  case h_2 hs =>
    split at h
    · next hr => cases h; exact .notReady hs (fun he => hr (toText_eq_ready.mpr he))
    · next hr => cases h; exact .ready hs (toText_eq_ready.mp (not_not.mp hr))
  case h_3 ok hs =>
    cases ok with
    | true => cases h; exact .acked hs
    | false => cases h; exact .ackFailed hs
  case h_4 hs =>
    split at h
    · next hc => cases h; exact .known hs hc
    · next hc => cases h; exact .unknown hs hc
  case h_5 hs => cases h; exact .answeredUnknown hs
  case h_6 hs => cases h; exact .started hs
  case h_7 hs =>
    split at h
    · next hc => cases h; exact .sent hs hc
    · cases h
  case h_8 hs => cases h; exact .ended hs
  case h_9 hs => cases h; exact .finished hs
  case h_10 hs => cases h; exact .answered hs
  case h_11 hs => cases h; exact .dropped hs
  case h_12 =>
    obtain ⟨c'', hc, he⟩ := Option.map_eq_some_iff.mp h
    cases he
    exact Call.forwardStep_move hc

theorem step_req {sh sh' : Shared} {c c' : Call} {a : CallStep}
    (h : c.step sh a = some (sh', c')) : c'.req = c.req := by
  cases Call.step_move h <;> rfl

end GlobalpingProbe.Probe
