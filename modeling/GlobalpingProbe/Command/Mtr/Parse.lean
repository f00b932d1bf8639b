import GlobalpingProbe.Foundation.ExactFloat
import GlobalpingProbe.Foundation.Strings
import GlobalpingProbe.Util.Data

/-! # Parsing the raw output of mtr

Each line names an event, the index of a hop and an argument; the hops are built up in a
growing vector. Names given for an address are also kept by address, and go to the other hops
with that address in the end.
-/
namespace GlobalpingProbe.Command.Mtr
open Foundation

inductive MtrStatus where
  | finished
  | failed
  deriving DecidableEq, Repr

/-- The time is in milliseconds; without one, the probe was lost. -/
structure HopTiming where
  rtt : Option F64
  deriving DecidableEq, Repr

structure HopStats where
  min : F64
  max : F64
  avg : F64
  total : ℕ
  loss : F64
  rcv : ℕ
  drop : ℕ
  stDev : F64
  jMin : F64
  jMax : F64
  jAvg : F64
  deriving DecidableEq, Repr

structure MtrHop where
  resolvedAddress : Option Text
  resolvedHostname : Option Text
  asn : List ℕ
  stats : HopStats
  timings : List HopTiming
  deriving DecidableEq, Repr

structure ParsedMtr where
  status : MtrStatus
  rawOutput : Text
  resolvedAddress : Option Text
  resolvedHostname : Option Text
  hops : List MtrHop
  deriving DecidableEq, Repr

/-- A timing has the sequence number of its probe. -/
structure HopBuilder where
  resolvedAddress : Option Text
  resolvedHostname : Option Text
  timings : List (Text × Option F64)
  duplicate : Bool
  deriving DecidableEq, Repr

def HopBuilder.fresh : HopBuilder := ⟨none, none, [], false⟩

/-- The two variables of the loop; a later name of an address is in front. -/
structure RawReading where
  builders : List (Option HopBuilder)
  addrToHostname : List (Text × Text)
  deriving DecidableEq, Repr

namespace RawReading

def new : RawReading := ⟨[], []⟩

/-- `while builders.len() <= idx`. -/
def grow (r : RawReading) (idx : ℕ) : RawReading :=
  { r with builders := r.builders ++ List.replicate (idx + 1 - r.builders.length) none }

def entry (r : RawReading) (idx : ℕ) : Option HopBuilder := r.builders[idx]?.getD none

def getOrInsert (r : RawReading) (idx : ℕ) : HopBuilder := (r.entry idx).getD .fresh

def setEntry (r : RawReading) (idx : ℕ) (b : HopBuilder) : RawReading :=
  { r with builders := r.builders.set idx (some b) }

def readHost (r : RawReading) (idx : ℕ) (addr : Text) : RawReading :=
  let isDup := (r.builders.take idx).any (fun b => b.any (fun b => b.resolvedAddress = some addr))
  r.setEntry idx { r.getOrInsert idx with resolvedAddress := some addr, duplicate := isDup }

def readName (r : RawReading) (idx : ℕ) (hn : Text) : RawReading :=
  let entry := { r.getOrInsert idx with resolvedHostname := some hn }
  let r := r.setEntry idx entry
  match entry.resolvedAddress with
  | some addr => { r with addrToHostname := (addr, hn) :: r.addrToHostname }
  | none => r

def readSent (r : RawReading) (idx : ℕ) (seq : Text) : RawReading :=
  let entry := r.getOrInsert idx
  r.setEntry idx (if entry.timings.any (·.1 = seq) then entry
    else { entry with timings := entry.timings ++ [(seq, none)] })

end RawReading

/-- The first timing with the sequence number gets the time. -/
def answer (seq : Text) (rtt : F64) : List (Text × Option F64) → List (Text × Option F64)
  | [] => []
  | (s, old) :: timings =>
    if s = seq then (s, some rtt) :: timings else (s, old) :: answer seq rtt timings

namespace RawReading

def readReply (r : RawReading) (idx : ℕ) (rttUs : F64) (seq : Text) : RawReading :=
  match r.entry idx with
  | some entry => r.setEntry idx { entry with timings := answer seq (rttUs.divNat 1000) entry.timings }
  | none => r

def readLine (r : RawReading) (line : Text) : RawReading :=
  match splitn ' ' 4 line with
  | action :: number :: arg :: rest =>
    match parseUnsigned 64 number with
    | none => r
    | some idx =>
      let r := r.grow idx
      if action = ['h'] then r.readHost idx arg
      else if action = ['d'] then r.readName idx arg
      else if action = ['x'] then r.readSent idx arg
      else if action = ['p'] then
        match rest, F64.parse arg with
        | seq :: _, some rttUs => r.readReply idx rttUs (trim seq)
        | _, _ => r
      else r
  | _ => r

end RawReading

def readRaw (data : Text) : RawReading := (lines data).foldl RawReading.readLine .new

namespace HopBuilder

/-- A hop without a name of its own takes the one that its address was given. -/
def propagate (names : List (Text × Text)) (b : HopBuilder) : HopBuilder :=
  if b.resolvedHostname.isNone ∨ b.resolvedHostname = b.resolvedAddress then
    match b.resolvedAddress.bind (fun addr => names.lookup addr) with
    | some hn => { b with resolvedHostname := some hn }
    | none => b
  else b

end HopBuilder

/-- The differences within consecutive pairs. -/
def jitter : List F64 → List F64
  | a :: b :: rtts => (a.sub b).abs :: jitter rtts
  | _ => []

def meanOf (xs : List F64) : F64 := (F64.sum xs).divNat xs.length
def minOf (xs : List F64) : F64 := xs.foldl F64.min (.inf false)
def maxOf (xs : List F64) : F64 := xs.foldl F64.max (.inf true)

/-- Unless the output is final, the last probe may still be under way and is not counted. -/
def countable (timings : List HopTiming) (isFinal : Bool) : List HopTiming :=
  if isFinal then timings else timings.dropLast

def computeStats (timings : List HopTiming) (isFinal : Bool) : HopStats :=
  if timings.isEmpty then ⟨.zero, .zero, .zero, 0, .zero, 0, 0, .zero, .zero, .zero, .zero⟩
  else
    let total := timings.length
    let rtts := timings.filterMap (·.rtt)
    let avg := (meanOf rtts).r1
    let var := meanOf (rtts.map (fun x => (x.sub avg).sq))
    let rcv := (countable timings isFinal).countP (·.rtt.isSome)
    let drop := (countable timings isFinal).countP (·.rtt.isNone)
    let jv := jitter rtts
    { min := if rtts.isEmpty then .zero else minOf rtts
      max := if rtts.isEmpty then .zero else maxOf rtts
      avg := if rtts.isEmpty then .zero else avg
      total := total
      loss := F64.r1 (.finite (drop / total * 100))
      rcv := rcv
      drop := drop
      stDev := if rtts.isEmpty then .zero else var.r1Sqrt
      jMin := if jv.isEmpty then .zero else (minOf jv).r1
      jMax := if jv.isEmpty then .zero else (maxOf jv).r1
      jAvg := if jv.isEmpty then .zero else (meanOf jv).r1 }

/-- The counts are those of all probes, the timings only those with an answer. -/
def HopBuilder.toHop (isFinal : Bool) (b : HopBuilder) : MtrHop :=
  let timings := b.timings.map (fun t => ⟨t.2⟩)
  { resolvedAddress := b.resolvedAddress
    resolvedHostname := b.resolvedHostname
    asn := []
    stats := computeStats timings isFinal
    timings := timings.filter (·.rtt.isSome) }

def parseRaw (data : Text) (isFinal : Bool) : List MtrHop :=
  let r := readRaw data
  let builders := r.builders.filterMap (fun b => b.map (HopBuilder.propagate r.addrToHostname))
  (builders.filter (!·.duplicate)).map (HopBuilder.toHop isFinal)

end GlobalpingProbe.Command.Mtr
