import GlobalpingProbe.Probe.ClientInvariant

/-! # What the reports of all sessions add up to

`run_stats_loop` runs beside the client: it lives as long as the session of its connection,
and takes the counters before it emits them. A count is reported, still in the counters that
a live loop will take, in the hand of that loop, or lost.
-/
namespace GlobalpingProbe.Probe
open Foundation Status Reconnect

inductive Counter where
  | started
  | finished
  deriving DecidableEq, Repr

def MeasurementStats.count (s : MeasurementStats) : Counter → ℕ
  | .started => s.started
  | .finished => s.finished

/-- The payload of `probe:stats:report`. -/
structure StatsReport where
  measurementsStarted : ℕ
  measurementsFinished : ℕ
  deriving DecidableEq, Repr

def StatsReport.count (r : StatsReport) : Counter → ℕ
  | .started => r.measurementsStarted
  | .finished => r.measurementsFinished

/-- Where the loop stands: asleep, between the two swaps of `take`, or before the emit. -/
inductive StatsLoop where
  | sleeping
  | swapped (started : ℕ)
  | taken (report : StatsReport)
  deriving DecidableEq, Repr

def StatsLoop.inHand : StatsLoop → Counter → ℕ
  | .sleeping, _ => 0
  | .swapped started, .started => started
  | .swapped _, .finished => 0
  | .taken report, counter => report.count counter

/-- The connection whose stats loop is alive; `connect_once` aborts it before anything else. -/
def MainStage.statsLoop : MainStage → Option ℕ
  | .connected k => some k
  | _ => none

structure Reporter where
  world : World
  loop : StatsLoop
  emitted : List StatsReport

inductive ReportLabel where
  | client (label : ClientLabel)
  | swapStarted
  | swapFinished
  | emit (ok : Bool)

def World.setStats (w : World) (k : ℕ) (c : Connection) (stats : MeasurementStats) : World :=
  { w with connections := w.connections.set k { c with stats := stats } }

def reportStep (s : Reporter) : ReportLabel → Option Reporter
  | .client label => (clientStep s.world label).map (fun w => { s with
      world := w
      loop := if w.stage.statsLoop = s.world.stage.statsLoop then s.loop else .sleeping })
  | .swapStarted =>
    match s.world.stage.statsLoop, s.loop with
    | some k, .sleeping => s.world.connections[k]?.map (fun c => { s with
        world := s.world.setStats k c c.stats.swapStarted.2
        loop := .swapped c.stats.swapStarted.1 })
    | _, _ => none
  | .swapFinished =>
    match s.world.stage.statsLoop, s.loop with
    | some k, .swapped started => s.world.connections[k]?.map (fun c => { s with
        world := s.world.setStats k c c.stats.swapFinished.2
        loop := .taken ⟨started, c.stats.swapFinished.1⟩ })
    | _, _ => none
  | .emit ok =>
    match s.loop with
    | .taken report => some { s with
        loop := .sleeping, emitted := if ok then s.emitted ++ [report] else s.emitted }
    | _ => none

def reportStart (host : Text) : Reporter := ⟨clientStart host, .sleeping, []⟩

def CallEvent.counts : CallEvent → Counter → Bool
  | .recordStart, .started => true
  | .recordFinish, .finished => true
  | _, _ => false

/-- How often the calls of the run so far have counted. -/
def Call.recorded (counter : Counter) (c : Call) : ℕ := c.trace.countP (fun e => e.counts counter)

def Connection.recorded (counter : Counter) (c : Connection) : ℕ :=
  (c.calls.map (Call.recorded counter)).sum

def World.recorded (counter : Counter) (w : World) : ℕ :=
  (w.connections.map (Connection.recorded counter)).sum

/-- What the counters hold that a live loop will take; those of a past session are gone. -/
def World.held (counter : Counter) (w : World) : ℕ :=
  ((w.stage.statsLoop.bind (fun k => w.connections[k]?)).map (fun c => c.stats.count counter)).getD 0

namespace Reporter

def reported (counter : Counter) (s : Reporter) : ℕ :=
  (s.emitted.map (fun r => r.count counter)).sum

/-- No count is lost. -/
def Accounted (s : Reporter) : Prop := ∀ counter,
  s.reported counter + s.world.held counter + s.loop.inHand counter = s.world.recorded counter

/-- A loop is only busy while its session lasts. -/
def LoopAlive (s : Reporter) : Prop := s.world.stage.statsLoop = none → s.loop = .sleeping

end Reporter

def MainStep.endsSession : MainStep → Bool
  | .shutdown | .signalled _ => true
  | _ => false

def CallStep.records : CallStep → Counter → ℕ
  | .recordStart, .started => 1
  | .recordFinish, .finished => 1
  | _, _ => 0

/-- A failed emit has nothing to report, a session ends with nothing left to report, and a
call only counts while the session of its connection lasts. -/
def KeepsCounts (s : Reporter) : ReportLabel → Prop
  | .emit ok => ok = true ∨ ∀ counter, s.loop.inHand counter = 0
  | .client (.main a) => a.endsSession = true →
      ∀ counter, s.world.held counter = 0 ∧ s.loop.inHand counter = 0
  | .client (.call k _ a) =>
    s.world.stage.statsLoop = some k ∨ ∀ counter, a.records counter = 0
  | _ => True

/-! ## What one step adds to each side -/

theorem step_recorded {sh sh' : Shared} {c c' : Call} {a : CallStep}
    (h : c.step sh a = some (sh', c')) (counter : Counter) :
    c'.recorded counter = c.recorded counter + a.records counter ∧
      sh'.stats.count counter = sh.stats.count counter + a.records counter := by
  cases Call.step_move h <;> cases counter <;>
    simp [Call.recorded, CallStep.records, CallEvent.counts, MeasurementStats.count,
      MeasurementStats.recordStart, MeasurementStats.recordFinish]

theorem sum_set_add {α : Type*} (f : α → ℕ) {l : List α} {i : ℕ} {a : α} (h : l[i]? = some a)
    (b : α) : ((l.set i b).map f).sum + f a = (l.map f).sum + f b := by
  have hs := sum_map_set (fun x => (f x : ℤ)) h b
  have hcast : ∀ l : List α, (l.map (fun x => (f x : ℤ))).sum = ((l.map f).sum : ℕ) := by
    intro l
    induction l with
    | nil => rfl
    | cons x l ih => simp [ih]
  rw [hcast, hcast] at hs
  omega

theorem callStep_recorded {c c' : Connection} {status : StatusManager} {i : ℕ} {a : CallStep}
    (h : c.callStep status i a = some c') (counter : Counter) :
    c'.recorded counter = c.recorded counter + a.records counter ∧
      c'.stats.count counter = c.stats.count counter + a.records counter := by
  obtain ⟨p, hp, rfl⟩ := callStep_eq_some.mp h
  obtain ⟨t, t', ht, ha, hq⟩ := stepTask_eq_some.mp hp
  obtain ⟨hr, hc⟩ := step_recorded ha counter
  refine ⟨?_, hc⟩
  have hs := sum_set_add (Call.recorded counter) ht t'
  rw [← hq] at hs
  change (p.tasks.map _).sum = _
  change _ = (c.calls.map (Call.recorded counter)).sum + _ at hs
  unfold Connection.recorded
  omega

theorem request_recorded {c c' : Connection} {req : MeasurementRequest}
    (h : c.request req = some c') (counter : Counter) :
    c'.recorded counter = c.recorded counter ∧ c'.stats = c.stats := by
  unfold Connection.request at h
  split at h <;> cases h
  simp [Connection.recorded, Call.recorded, Call.new]

namespace World

theorem held_connected {w : World} {k : ℕ} {c : Connection} (hs : w.stage.statsLoop = some k)
    (hc : w.connections[k]? = some c) (counter : Counter) :
    w.held counter = c.stats.count counter := by
  simp [held, hs, hc]

theorem held_none {w : World} (h : w.stage.statsLoop = none) (counter : Counter) :
    w.held counter = 0 := by
  simp [held, h]

theorem held_dead {w w' : World} (h : w.stage.statsLoop = none) (h' : w'.stage.statsLoop = none)
    (counter : Counter) : w'.held counter = w.held counter :=
  (held_none h' counter).trans (held_none h counter).symm

theorem held_fresh {m : StatusManager} {old : List Connection} (counter : Counter) :
    held counter ⟨m, old ++ [.fresh], .connected old.length⟩ = 0 := by
  cases counter <;>
    simp [held, MainStage.statsLoop, Connection.fresh, MeasurementStats.new, MeasurementStats.count]

theorem recorded_set {w : World} {k : ℕ} {c : Connection} (hc : w.connections[k]? = some c)
    (c' : Connection) (s : MainStage) (counter : Counter) :
    recorded counter { w with connections := w.connections.set k c', stage := s } +
      c.recorded counter = w.recorded counter + c'.recorded counter :=
  sum_set_add (Connection.recorded counter) hc c'

/-- The counters of the connection at work move with its entry, those of any other do not. -/
theorem held_set {w : World} {k : ℕ} {c : Connection} (hc : w.connections[k]? = some c)
    (c' : Connection) (counter : Counter) : held counter { w with connections := w.connections.set k c' } =
      if w.stage.statsLoop = some k then c'.stats.count counter else w.held counter := by
  split_ifs with hs
  · have hset : (w.connections.set k c')[k]? = some c' :=
      List.getElem?_set_self (List.getElem?_eq_some_iff.mp hc).1
    exact held_connected (w := { w with connections := w.connections.set k c' }) hs hset counter
  · unfold held
    cases hl : w.stage.statsLoop with
    | none => rfl
    | some j =>
      have hne : k ≠ j := fun he => hs (he ▸ hl)
      simp [List.getElem?_set_ne hne]

end World

/-- A step of the main task records nothing; the counters are out of reach once it ends the
session. -/
theorem mainStep_held {w w' : World} {a : MainStep} (h : w.mainStep a = some w')
    (counter : Counter) : w'.recorded counter = w.recorded counter ∧
      w'.held counter = if a.endsSession then 0 else w.held counter := by
  have hset : ∀ {k : ℕ} {c c' : Connection} {s : MainStage}, w.connections[k]? = some c →
      c'.recorded counter = c.recorded counter →
      World.recorded counter { w with connections := w.connections.set k c', stage := s } =
        w.recorded counter := by
    intro k c c' s hc hsame
    have hr := World.recorded_set hc c' s counter
    omega
  cases World.mainStep_move h with
  | connected hs =>
    refine ⟨by simp [World.recorded, Connection.recorded, Connection.fresh], ?_⟩
    refine (World.held_fresh counter).trans (World.held_none ?_ counter).symm
    rw [hs]
    rfl
  | failed => exact ⟨rfl, rfl⟩
  | stopped hs =>
    exact ⟨rfl, World.held_dead (by rw [hs]; rfl) rfl counter⟩
  | shutdown => exact ⟨rfl, World.held_none rfl counter⟩
  | signalled =>
    refine ⟨rfl, World.held_none ?_ counter⟩
    simp only [World.goto]
    split <;> rfl
  | sigterm hs | busy hs | free hs =>
    exact ⟨rfl, World.held_dead (by rw [hs]; rfl) rfl counter⟩
  | begun hs hc | drained hs hc | timedOut hs hc =>
    exact ⟨hset hc rfl, World.held_dead (by rw [hs]; rfl) rfl counter⟩
  | @disconnected k e c hs hc =>
    refine ⟨hset hc rfl, World.held_dead (by rw [hs]; rfl) ?_ counter⟩
    rcases e.next_cases with hn | hn <;> rw [hn] <;> rfl

/-- The loop of a session that goes on is the same; only `connect` starts another one. -/
theorem mainStep_statsLoop {w w' : World} {a : MainStep} (h : w.mainStep a = some w') :
    (a.endsSession = true ∧ w'.stage.statsLoop = none) ∨
      (a.endsSession = false ∧ (w'.stage.statsLoop = w.stage.statsLoop ∨
        w.stage.statsLoop = none)) := by
  cases World.mainStep_move h with
  | shutdown => exact .inl ⟨rfl, rfl⟩
  | signalled =>
    refine .inl ⟨rfl, ?_⟩
    simp only [World.goto]
    split <;> rfl
  | failed => exact .inr ⟨rfl, .inl rfl⟩
  | connected hs | stopped hs | sigterm hs | busy hs | free hs | begun hs | drained hs
  | timedOut hs | disconnected hs => exact .inr ⟨rfl, .inr (by rw [hs]; rfl)⟩

theorem update_stage {w w' : World} {k : ℕ} {f : Connection → Option Connection}
    (h : w.update k f = some w') : w'.stage = w.stage := by
  obtain ⟨c, c', -, -, rfl⟩ := update_eq_some.mp h
  rfl

namespace Reporter

/-- All that is still to be found of what the calls recorded. -/
def kept (counter : Counter) (s : Reporter) : ℕ :=
  s.reported counter + s.world.held counter + s.loop.inHand counter

/-- What one step loses. -/
def lost (counter : Counter) (s : Reporter) : ReportLabel → ℕ
  | .emit ok => if ok then 0 else s.loop.inHand counter
  | .client (.main a) =>
    if a.endsSession then s.world.held counter + s.loop.inHand counter else 0
  | .client (.call k _ a) => if s.world.stage.statsLoop = some k then 0 else a.records counter
  | _ => 0

theorem keepsCounts_iff {s : Reporter} {label : ReportLabel} :
    KeepsCounts s label ↔ ∀ counter, s.lost counter label = 0 := by
  unfold KeepsCounts lost
  split
  · next ok => cases ok <;> simp
  · next a => cases a.endsSession <;> simp
  · next k i a => by_cases hs : s.world.stage.statsLoop = some k <;> simp [hs]
  · simp

end Reporter

theorem reportStep_loopAlive {s t : Reporter} {label : ReportLabel} (hs : s.LoopAlive)
    (h : reportStep s label = some t) : t.LoopAlive := by
  intro hn
  cases label with
  | client label =>
    obtain ⟨w, hw, rfl⟩ := Option.map_eq_some_iff.mp h
    dsimp only at hn ⊢
    split_ifs with hsame
    · exact hs (hsame ▸ hn)
    · rfl
  | swapStarted | swapFinished =>
    simp only [reportStep] at h
    split at h
    · next k hk hl =>
      obtain ⟨c, -, rfl⟩ := Option.map_eq_some_iff.mp h
      exact absurd (hk.symm.trans hn) nofun
    · cases h
  | emit ok =>
    simp only [reportStep] at h
    split at h
    · cases h
      rfl
    · cases h

theorem client_lost {s t : Reporter} {label : ClientLabel} (hs : s.LoopAlive)
    (h : reportStep s (.client label) = some t) (counter : Counter) :
    t.world.recorded counter + s.kept counter =
      s.world.recorded counter + t.kept counter + s.lost counter (.client label) := by
  obtain ⟨w, hw, rfl⟩ := Option.map_eq_some_iff.mp h
  have hloop : w.stage.statsLoop = s.world.stage.statsLoop →
      (if w.stage.statsLoop = s.world.stage.statsLoop then s.loop else .sleeping) = s.loop :=
    fun he => if_pos he
  cases label with
  | status e =>
    cases hw
    simp [Reporter.kept, Reporter.reported, Reporter.lost, World.held, World.recorded]
  | request k req =>
    rw [hloop (congrArg _ (update_stage hw))]
    obtain ⟨c, c', hc, hr, rfl⟩ := update_eq_some.mp hw
    obtain ⟨hrec, hst⟩ := request_recorded hr counter
    have hset := World.recorded_set hc c' s.world.stage counter
    have hheld := World.held_set hc c' counter
    have hsame : s.world.held counter = World.held counter
        { s.world with connections := s.world.connections.set k c' } := by
      rw [hheld]
      split_ifs with hk
      · rw [World.held_connected hk hc, hst]
      · rfl
    simp only [Reporter.kept, Reporter.reported, Reporter.lost] at *
    omega
  | call k i a =>
    rw [hloop (congrArg _ (update_stage hw))]
    obtain ⟨c, c', hc, hr, rfl⟩ := update_eq_some.mp hw
    obtain ⟨hrec, hst⟩ := callStep_recorded hr counter
    have hset := World.recorded_set hc c' s.world.stage counter
    have hheld := World.held_set hc c' counter
    simp only [Reporter.kept, Reporter.reported, Reporter.lost] at *
    split_ifs at hheld ⊢ with hk
    · have := World.held_connected hk hc counter
      omega
    · omega
  | main a =>
    obtain ⟨hrec, hheld⟩ := mainStep_held hw counter
    rcases mainStep_statsLoop hw with ⟨he, hn⟩ | ⟨he, hsame | hn⟩
    · have hsleep := reportStep_loopAlive hs h hn
      dsimp only at hsleep
      simp only [he, if_true] at hheld
      simp only [Reporter.kept, Reporter.reported, Reporter.lost, he, hsleep, hheld, if_true,
        StatsLoop.inHand]
      omega
    · rw [hloop hsame]
      simp only [he, Bool.false_eq_true, if_false] at hheld
      simp only [Reporter.kept, Reporter.reported, Reporter.lost, he, hheld, Bool.false_eq_true,
        if_false]
      omega
    · have hsleep := hs hn
      simp only [he, Bool.false_eq_true, if_false] at hheld
      simp only [Reporter.kept, Reporter.reported, Reporter.lost, he, hheld, hsleep, ite_self,
        Bool.false_eq_true, if_false]
      omega

theorem setStats_recorded {w : World} {k : ℕ} {c : Connection} (hc : w.connections[k]? = some c)
    (stats : MeasurementStats) (counter : Counter) :
    (w.setStats k c stats).recorded counter = w.recorded counter := by
  have hset := World.recorded_set hc { c with stats := stats } w.stage counter
  have hsame : Connection.recorded counter { c with stats := stats } = c.recorded counter := rfl
  rw [hsame] at hset
  exact Nat.add_right_cancel hset

theorem setStats_held {w : World} {k : ℕ} {c : Connection} (hk : w.stage.statsLoop = some k)
    (hc : w.connections[k]? = some c) (stats : MeasurementStats) (counter : Counter) :
    (w.setStats k c stats).held counter = stats.count counter := by
  have hheld := World.held_set hc { c with stats := stats } counter
  rwa [if_pos hk] at hheld

/-- What was recorded by a step and is not to be found after it is what the step lost. -/
theorem reportStep_lost {s t : Reporter} {label : ReportLabel} (hs : s.LoopAlive)
    (h : reportStep s label = some t) (counter : Counter) :
    t.world.recorded counter + s.kept counter =
      s.world.recorded counter + t.kept counter + s.lost counter label := by
  cases label with
  | client label => exact client_lost hs h counter
  | swapStarted =>
    simp only [reportStep] at h
    split at h
    · next k hk hl =>
      obtain ⟨c, hc, rfl⟩ := Option.map_eq_some_iff.mp h
      have hheld := World.held_connected hk hc counter
      cases counter <;>
        simp [Reporter.kept, Reporter.reported, Reporter.lost, setStats_recorded hc,
          setStats_held hk hc, hheld, hl, StatsLoop.inHand, MeasurementStats.count,
          MeasurementStats.swapStarted]
    · cases h
  | swapFinished =>
    simp only [reportStep] at h
    split at h
    · next k started hk hl =>
      obtain ⟨c, hc, rfl⟩ := Option.map_eq_some_iff.mp h
      have hheld := World.held_connected hk hc counter
      cases counter <;>
        simp [Reporter.kept, Reporter.reported, Reporter.lost, setStats_recorded hc,
          setStats_held hk hc, hheld, hl, StatsLoop.inHand, MeasurementStats.count,
          MeasurementStats.swapFinished, StatsReport.count]
    · cases h
  | emit ok =>
    simp only [reportStep] at h
    split at h
    · next report hl =>
      cases h
      cases ok with
      | true =>
        simp [Reporter.kept, Reporter.reported, Reporter.lost, hl, StatsLoop.inHand]
        omega
      | false =>
        simp [Reporter.kept, Reporter.reported, Reporter.lost, hl, StatsLoop.inHand]
        omega
    · cases h

/-- Every count of a run is reported or on its way exactly as long as no step drops any. -/
theorem counts_accounted_iff {host : Text} {labels : List ReportLabel} {s : Reporter}
    (h : run reportStep (reportStart host) labels = some s) :
    (∀ front t, front <+: labels → run reportStep (reportStart host) front = some t →
      t.Accounted) ↔ Along reportStep KeepsCounts (reportStart host) labels := by
  refine (along_iff_states_good (fun _ _ _ => reportStep_loopAlive) ?_ (fun _ => rfl)
    (fun _ => rfl) h).symm
  intro s label t hs hgood ht
  rw [Reporter.keepsCounts_iff]
  apply forall_congr'
  intro counter
  have hlost := reportStep_lost hs ht counter
  have hbefore := hgood counter
  unfold Reporter.kept at hlost
  omega

/-- One measurement is started and one report is due; `ok` says whether its emit succeeds. -/
def reportLabels (ok : Bool) : List ReportLabel :=
  [.client (.status (.pingRound true true)), .client (.status (.verdict (.round [] [] 0))),
    .client (.main .connect),
    .client (.request 0 (request [] [("type".toList, .str "ping".toList)])),
    .client (.call 0 0 .tryAcquire), .client (.call 0 0 .readStatus),
    .client (.call 0 0 (.emitAck true)), .client (.call 0 0 .lookupType),
    .client (.call 0 0 .recordStart), .swapStarted, .swapFinished, .emit ok]

theorem failedEmit_loses_count : ∃ s,
    run reportStep (reportStart []) (reportLabels false) = some s ∧ s.loop = .sleeping ∧
      s.emitted = [] ∧ s.world.held .started = 0 ∧ s.world.recorded .started = 1 ∧
      ¬ s.Accounted := by
  refine ⟨_, rfl, rfl, rfl, rfl, rfl, fun h => ?_⟩
  exact absurd (h .started) (by decide)

theorem Counter.forall_iff {p : Counter → Prop} : (∀ c, p c) ↔ p .started ∧ p .finished :=
  ⟨fun h => ⟨h .started, h .finished⟩, fun h c => by cases c; exacts [h.1, h.2]⟩

instance (s : Reporter) (label : ReportLabel) : Decidable (KeepsCounts s label) :=
  decidable_of_iff _ (Counter.forall_iff.symm.trans Reporter.keepsCounts_iff.symm)

/-- The same measurement, both of whose counts are reported before the session ends. -/
def reportedLabels : List ReportLabel :=
  reportLabels true ++ [.client (.call 0 0 (.finish .timeout)), .client (.call 0 0 .recordFinish),
    .swapStarted, .swapFinished, .emit true, .client (.main (.signalled .transient)),
    .client (.main .disconnect), .client (.main .connect)]

theorem reportedLabels_accounted : ∃ s,
    run reportStep (reportStart []) reportedLabels = some s ∧ s.emitted = [⟨1, 0⟩, ⟨0, 1⟩] ∧
      s.Accounted := by
  obtain ⟨s, hs⟩ : ∃ s, run reportStep (reportStart []) reportedLabels = some s := ⟨_, rfl⟩
  refine ⟨s, hs, ?_, ?_⟩
  · cases hs
    rfl
  · exact (counts_accounted_iff hs).mpr (by decide) _ s (List.prefix_refl _) hs

end GlobalpingProbe.Probe
