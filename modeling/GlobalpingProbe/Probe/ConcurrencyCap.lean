import GlobalpingProbe.Probe.ClientInvariant
import Mathlib.Algebra.Order.BigOperators.Group.List

/-! # The concurrency cap over a whole run

One limiter caps one connection. Over a run with reconnects the cap holds exactly as long
as no connection is opened while a call of an earlier one is still at work.
-/
namespace GlobalpingProbe.Probe
open Foundation Status Reconnect

def World.CallsReturned (w : World) : Prop :=
  ∀ c ∈ w.connections, ∀ call ∈ c.calls, call.isReturned = true

/-- A connection is only opened when every call of the earlier ones has returned. -/
def ReturnedAtConnect (w : World) : ClientLabel → Prop
  | .main .connect => w.CallsReturned
  | _ => True

/-- The calls of every connection but the newest have returned. -/
def World.OthersReturned (w : World) : Prop :=
  ∀ k c, w.connections[k]? = some c → k + 1 < w.connections.length →
    ∀ call ∈ c.calls, call.isReturned = true

theorem isReturned_iff (c : Call) : c.isReturned = true ↔ c.stage.remaining = 0 := by
  unfold Call.isReturned
  cases c.stage <;> simp [Stage.isReturned, Stage.remaining]

theorem returned_step {sh sh' : Shared} {c c' : Call} {a : CallStep} (hc : c.isReturned = true)
    (h : c.step sh a = some (sh', c')) : c'.isReturned = true := by
  rw [isReturned_iff] at hc ⊢
  have hle := step_remaining h
  omega

theorem World.OthersReturned.set {w : World} (hw : w.OthersReturned) {k : ℕ} {c' : Connection}
    {s : MainStage} (hc : k + 1 < w.connections.length → ∀ call ∈ c'.calls, call.isReturned = true) :
    OthersReturned { w with connections := w.connections.set k c', stage := s } := by
  intro j d hj hlt
  rw [List.length_set] at hlt
  rcases getElem?_set_cases hj with ⟨rfl, rfl⟩ | ⟨-, hd⟩
  · exact hc hlt
  · exact hw j d hd hlt

theorem clientStep_others {w w' : World} {label : ClientLabel} (hs : w.Sound)
    (hw : w.OthersReturned) (hc : ReturnedAtConnect w label) (h : clientStep w label = some w') :
    w'.OthersReturned := by
  cases label with
  | status e => cases h; exact hw
  | request k req =>
    obtain ⟨c, c', hk, hr, rfl⟩ := update_eq_some.mp h
    apply hw.set
    intro hlt
    have hopen : c.socketOpen = true := by
      unfold Connection.request at hr
      split at hr
      · assumption
      · cases hr
    have hn := hs.newest k (hs.closed k c hk hopen)
    omega
  | call k i a =>
    obtain ⟨c, c', hk, hr, rfl⟩ := update_eq_some.mp h
    apply hw.set
    intro hlt
    obtain ⟨p, hp, rfl⟩ := callStep_eq_some.mp hr
    exact stepTask_forall (J := fun call : Call => call.isReturned = true)
      (fun _ _ _ _ _ => returned_step) (hw k c hk hlt) hp
  | main a =>
    cases World.mainStep_move h with
    | connected =>
      intro j d hj hlt
      rcases getElem?_concat_cases hj with hd | ⟨rfl, rfl⟩
      · exact hc d (List.mem_of_getElem? hd)
      · exact nofun
    | failed | stopped | shutdown | signalled | sigterm | busy | free => exact hw
    | begun _ hk | drained _ hk | timedOut _ hk | disconnected _ hk =>
      have ho := hw _ _ hk
      exact hw.set ho

theorem heldSlots_of_callsReturned {c : Connection}
    (h : ∀ call ∈ c.calls, call.isReturned = true) : c.heldSlots = 0 := by
  rw [Connection.heldSlots, List.countP_eq_zero]
  intro call hm
  have hr := h call hm
  unfold Call.isReturned at hr
  cases hs : call.stage with
  | returned => simp [Stage.holdsSlot]
  | _ => simp [hs, Stage.isReturned] at hr

theorem World.OthersReturned.heldSlots_le {w : World} (hs : w.Sound) (hw : w.OthersReturned) :
    w.heldSlots ≤ maxConcurrent := by
  rcases List.eq_nil_or_concat' w.connections with hnil | ⟨old, last, hlast⟩
  · simp [World.heldSlots, hnil]
  · have hold : (old.map Connection.heldSlots).sum = 0 := by
      apply List.sum_eq_zero
      intro n hn
      obtain ⟨c, hc, rfl⟩ := List.mem_map.mp hn
      obtain ⟨k, hk, rfl⟩ := List.getElem_of_mem hc
      refine heldSlots_of_callsReturned (hw k _ ?_ ?_)
      · rw [hlast, List.getElem?_append_left hk, List.getElem?_eq_getElem hk]
      · simp [hlast, hk]
    have hbook := hs.books old.length last (by simp [hlast])
    have hslots := hbook.slots
    rw [World.heldSlots, hlast, List.map_append, List.sum_append, hold]
    simp only [List.map_cons, List.map_nil, List.sum_cons, List.sum_nil]
    omega

theorem update_newest {w : World} {old : List Connection} {c c' : Connection}
    {f : Connection → Option Connection} (hw : w.connections = old ++ [c]) (hf : f c = some c') :
    w.update old.length f = some { w with connections := old ++ [c'] } := by
  refine update_eq_some.mpr ⟨c, c', by simp [hw], hf, ?_⟩
  simp [hw]

theorem request_newest {w : World} {old : List Connection} {c : Connection}
    {req : MeasurementRequest} (hw : w.connections = old ++ [c]) (ho : c.socketOpen = true) :
    clientStep w (.request old.length req) =
      some { w with connections := old ++ [{ c with calls := c.calls ++ [.new req] }] } :=
  update_newest hw (by simp [Connection.request, ho])

theorem call_newest {w : World} {old : List Connection} {c c' : Connection} {i : ℕ} {a : CallStep}
    (hw : w.connections = old ++ [c]) (ha : c.callStep w.status i a = some c') :
    clientStep w (.call old.length i a) = some { w with connections := old ++ [c'] } :=
  update_newest hw ha

/-- Three requests that each take a slot. -/
def fillLabels (k : ℕ) : List ClientLabel :=
  [.request k (request [] []), .request k (request [] []), .request k (request [] []),
    .call k 0 .tryAcquire, .call k 1 .tryAcquire, .call k 2 .tryAcquire]

/-- A connection with a call on each of its slots. -/
def Connection.full : Connection :=
  ⟨⟨⟨0, []⟩, maxConcurrent⟩, .new,
    List.replicate 3 ((Call.new (Probe.request [] [])).goto .slotHeld), true⟩

/-- A fresh connection grants all its slots, whatever the earlier ones still hold. -/
theorem fresh_fills {w : World} {old : List Connection} (hw : w.connections = old ++ [.fresh]) :
    run clientStep w (fillLabels old.length) = some { w with connections := old ++ [.full] } := by
  simp only [fillLabels, run_cons]
  rw [request_newest hw rfl, Option.bind_some, request_newest rfl rfl, Option.bind_some,
    request_newest rfl rfl, Option.bind_some, call_newest rfl rfl, Option.bind_some,
    call_newest rfl rfl, Option.bind_some, call_newest rfl rfl]
  rfl

/-- A call that has neither returned nor taken a slot can take one when all are free. -/
theorem call_acquires {c : Connection} (hc : c.Sound false) (hfree : c.heldSlots = 0)
    (status : StatusManager) {call : Call} (hm : call ∈ c.calls) (hr : call.isReturned = false) :
    ∃ i c', c.callStep status i .tryAcquire = some c' ∧ 0 < c'.heldSlots := by
  have hnil : c.limiter.semaphore.waiters = [] := by simpa using hc.queued
  have hslots := hc.slots
  rw [MeasurementLimiter.unheld_eq_available hnil, hfree] at hslots
  have havailable : 0 < c.limiter.semaphore.available := by
    rw [← Nat.add_zero c.limiter.semaphore.available, hslots]
    decide
  obtain ⟨s, hs⟩ := Option.isSome_iff_exists.mp (Semaphore.tryAcquire_isSome.mpr havailable)
  have hl : c.limiter.tryAcquire = some { c.limiter with semaphore := s } := by
    rw [MeasurementLimiter.tryAcquire, hs]
    rfl
  have hcreated : call.stage = .created := by
    have hnot := List.countP_eq_zero.mp hfree call hm
    unfold Call.isReturned at hr
    cases hst : call.stage with
    | created => rfl
    | returned => simp [hst, Stage.isReturned] at hr
    | _ => simp [hst, Stage.holdsSlot] at hnot
  obtain ⟨i, hi, rfl⟩ := List.getElem_of_mem hm
  refine ⟨i, { c with
    limiter := { c.limiter with semaphore := s }
    calls := c.calls.set i (c.calls[i].goto .slotHeld) }, ?_, ?_⟩
  · refine callStep_eq_some.mpr ⟨⟨⟨{ c.limiter with semaphore := s }, c.stats, status⟩,
      c.calls.set i (c.calls[i].goto .slotHeld)⟩, stepTask_eq_some.mpr ⟨c.calls[i],
        c.calls[i].goto .slotHeld, List.getElem?_eq_getElem hi, ?_, rfl⟩, rfl⟩
    simp [Call.step, hcreated, Connection.pool, hl]
  · refine List.countP_pos_iff.mpr ⟨c.calls[i].goto .slotHeld, ?_, rfl⟩
    exact List.mem_set hi _

theorem heldSlots_le_sum {l : List Connection} {c : Connection} (h : c ∈ l) :
    c.heldSlots ≤ (l.map Connection.heldSlots).sum :=
  List.le_sum_of_mem (List.mem_map_of_mem h)

/-- A connection opened next to a call at work takes the client over its cap. -/
theorem exceeds_after_connect {w w' : World} (hw : w.Sound)
    (h : clientStep w (.main .connect) = some w') (hn : ¬ w.CallsReturned) :
    ∃ more v, run clientStep w' more = some v ∧ maxConcurrent < v.heldSlots := by
  have hfill : ∀ (v : World) (old : List Connection), v.connections = old ++ [.fresh] →
      0 < (old.map Connection.heldSlots).sum →
      ∃ u, run clientStep v (fillLabels old.length) = some u ∧ maxConcurrent < u.heldSlots := by
    intro v old hv hpos
    refine ⟨_, fresh_fills hv, ?_⟩
    have hfull : Connection.full.heldSlots = maxConcurrent := rfl
    simp only [World.heldSlots, List.map_append, List.sum_append, List.map_cons, List.map_nil,
      List.sum_cons, List.sum_nil, hfull]
    omega
  cases World.mainStep_move h with
  | connected hs =>
    by_cases hz : w.heldSlots = 0
    · obtain ⟨c, hc, call, hm, hr⟩ : ∃ c ∈ w.connections, ∃ call ∈ c.calls,
          call.isReturned = false := by
        simpa [World.CallsReturned] using hn
      obtain ⟨k, hk, rfl⟩ := List.getElem_of_mem hc
      have hbook := hw.books k _ (List.getElem?_eq_getElem hk)
      simp only [hs, reduceCtorEq, decide_false] at hbook
      have hfree : w.connections[k].heldSlots = 0 :=
        Nat.le_zero.mp (le_of_le_of_eq (heldSlots_le_sum hc) hz)
      obtain ⟨i, c', hc', hpos⟩ := call_acquires hbook hfree w.status hm hr
      have hstep : clientStep
          ⟨w.status, w.connections ++ [.fresh], .connected w.connections.length⟩
          (.call k i .tryAcquire) = some ⟨w.status, w.connections.set k c' ++ [.fresh],
            .connected w.connections.length⟩ := by
        refine update_eq_some.mpr ⟨w.connections[k], c', ?_, hc', ?_⟩
        · simp [List.getElem?_append_left hk]
        · simp [List.set_append_left _ _ hk]
      obtain ⟨u, hu, hlt⟩ := hfill ⟨w.status, _, .connected w.connections.length⟩
        (w.connections.set k c') rfl (lt_of_lt_of_le hpos (heldSlots_le_sum (List.mem_set hk _)))
      exact ⟨.call k i .tryAcquire :: _, u, by rw [run_cons, hstep]; exact hu, hlt⟩
    · obtain ⟨u, hu, hlt⟩ := hfill ⟨w.status, _, .connected w.connections.length⟩ w.connections rfl
        (Nat.pos_of_ne_zero hz)
      exact ⟨_, u, hu, hlt⟩

/-- The cap over a whole run. It holds in every state of the runs that open each connection
after the calls of the earlier ones have returned, and a connection that is opened while one
of them has not can be followed by a state that exceeds it. -/
theorem cap_iff_returned_at_connect {host : Text} {labels : List ClientLabel} {w : World}
    (h : run clientStep (clientStart host) labels = some w) :
    (Along clientStep ReturnedAtConnect (clientStart host) labels →
      w.heldSlots ≤ maxConcurrent) ∧
    (∀ w', clientStep w (.main .connect) = some w' → ¬ ReturnedAtConnect w (.main .connect) →
      ∃ more v, run clientStep w' more = some v ∧ maxConcurrent < v.heldSlots) := by
  refine ⟨fun hc => ?_, fun w' hw' hn => exceeds_after_connect (run_sound h) hw' hn⟩
  have hinv := Along.invariant (I := fun v => v.Sound ∧ v.OthersReturned)
    (fun v a u hv hcond hu => ⟨clientStep_sound hv.1 hu, clientStep_others hv.1 hv.2 hcond hu⟩)
    hc ⟨clientStart_sound host, nofun⟩ h
  exact hinv.2.heldSlots_le hinv.1

/-- Three calls are at work when the session ends; the next connection grants a fourth slot. -/
def reconnectLabels : List ClientLabel :=
  .main .connect :: fillLabels 0 ++ [.main (.signalled .transient), .main .disconnect,
    .main .connect, .request 1 (request [] []), .call 1 0 .tryAcquire]

theorem reconnectLabels_exceed_cap : ∃ w, run clientStep (clientStart []) reconnectLabels = some w ∧
    ¬ w.heldSlots ≤ maxConcurrent := by
  have hrun : (run clientStep (clientStart []) reconnectLabels).map World.heldSlots = some 4 := rfl
  obtain ⟨w, hw, hheld⟩ := Option.map_eq_some_iff.mp hrun
  exact ⟨w, hw, by rw [hheld]; decide⟩

/-- The same session, whose calls have returned before the client connects again. -/
def settledLabels : List ClientLabel :=
  [.main .connect, .request 0 (request [] []), .call 0 0 .tryAcquire, .call 0 0 .readStatus,
    .call 0 0 .dropSlot, .main (.signalled .transient), .main .disconnect, .main .connect] ++
  fillLabels 1

instance (w : World) : ∀ label, Decidable (ReturnedAtConnect w label)
  | .main .connect => inferInstanceAs (Decidable (∀ c ∈ w.connections, ∀ call ∈ c.calls,
      call.isReturned = true))
  | .main .connectFailed | .main .stop | .main .shutdown | .main (.signalled _)
  | .main .setSigterm | .main .readInFlight | .main .beginDrain | .main .endDrain
  | .main .drainTimeout | .main .disconnect | .request .. | .call .. | .status _ => isTrue trivial

theorem settledLabels_keep_cap : ∃ w, run clientStep (clientStart []) settledLabels = some w ∧
    w.heldSlots = 3 ∧ w.heldSlots ≤ maxConcurrent := by
  have hrun : (run clientStep (clientStart []) settledLabels).map World.heldSlots = some 3 := rfl
  obtain ⟨w, hw, hheld⟩ := Option.map_eq_some_iff.mp hrun
  exact ⟨w, hw, hheld, (cap_iff_returned_at_connect hw).1 (by decide)⟩

end GlobalpingProbe.Probe
