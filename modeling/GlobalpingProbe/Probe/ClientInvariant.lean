import GlobalpingProbe.Probe.Client

/-! # What holds in every state of the client

The books of each connection balance, only the newest connection can have its socket open,
and at most its limiter has a request queued, while the main task waits for the drain.
-/
namespace GlobalpingProbe.Probe
open Foundation Status Reconnect

namespace Connection

/-- The books of one connection; a drain has one request for all slots in the queue. -/
structure Sound (draining : Bool) (c : Connection) : Prop where
  capacity : c.limiter.capacity = maxConcurrent
  slots : c.limiter.unheld + c.heldSlots = maxConcurrent
  queued : c.limiter.semaphore.waiters.map Waiter.needed =
    if draining then [maxConcurrent] else []
  tracks : ∀ call ∈ c.calls, call.Tracks

theorem heldSlots_eq_sum (c : Connection) :
    (c.heldSlots : ℤ) = (c.calls.map Call.heldSlots).sum := by
  unfold heldSlots
  induction c.calls with
  | nil => rfl
  | cons call calls ih =>
    rw [List.countP_cons, List.map_cons, List.sum_cons, ← ih, Call.heldSlots]
    cases call.stage.holdsSlot <;> simp [add_comm]

theorem Sound.close {draining : Bool} {c : Connection} (hc : c.Sound draining) :
    Sound draining { c with socketOpen := false } := ⟨hc.capacity, hc.slots, hc.queued, hc.tracks⟩

theorem request_socketOpen {c c' : Connection} {req : MeasurementRequest}
    (h : c.request req = some c') : c'.socketOpen = c.socketOpen := by
  unfold request at h
  split at h <;> cases h
  rfl

theorem callStep_socketOpen {c c' : Connection} {status : StatusManager} {i : ℕ} {a : CallStep}
    (h : c.callStep status i a = some c') : c'.socketOpen = c.socketOpen := by
  obtain ⟨p, -, rfl⟩ := callStep_eq_some.mp h
  rfl

theorem fresh_sound : fresh.Sound false := ⟨rfl, rfl, rfl, nofun⟩

theorem Sound.request_sound {draining : Bool} {c c' : Connection} {req : MeasurementRequest}
    (hc : c.Sound draining) (h : c.request req = some c') : c'.Sound draining := by
  unfold request at h
  split at h
  · cases h
    refine ⟨hc.capacity, ?_, hc.queued, ?_⟩
    · simpa [heldSlots, Call.new, Stage.holdsSlot] using hc.slots
    · intro call hm
      rcases List.mem_append.mp hm with hm | hm
      · exact hc.tracks call hm
      · rw [List.mem_singleton.mp hm]
        rfl
  · cases h

theorem Sound.callStep_sound {draining : Bool} {c c' : Connection} {status : StatusManager} {i : ℕ}
    {a : CallStep} (hc : c.Sound draining) (h : c.callStep status i a = some c') :
    c'.Sound draining := by
  obtain ⟨p, hp, rfl⟩ := callStep_eq_some.mp h
  have hb := stepTask_balance (f := fun sh : Shared => (sh.limiter.unheld : ℤ))
    (g := Call.heldSlots) (fun _ _ _ _ _ hs => step_slots hs) hp
  have ht := stepTask_forall (J := Call.Tracks) (fun _ _ _ _ _ => step_tracks) hc.tracks hp
  obtain ⟨call, call', -, ha, -⟩ := stepTask_eq_some.mp hp
  obtain ⟨hcap, hq⟩ := step_limiter ha
  refine ⟨hcap.trans hc.capacity, ?_, hq.trans hc.queued, ht⟩
  have hs := hc.slots
  have hbefore := c.heldSlots_eq_sum
  have hafter := heldSlots_eq_sum
    ⟨p.shared.limiter, p.shared.stats, p.tasks, c.socketOpen⟩
  simp only [balance, pool] at hb
  dsimp only at hafter ⊢
  omega

theorem Sound.beginWaitIdle_sound {c : Connection} (hc : c.Sound false) :
    Sound true { c with limiter := c.limiter.beginWaitIdle } := by
  have hnil : c.limiter.semaphore.waiters = [] := by simpa using hc.queued
  refine ⟨hc.capacity, ?_, ?_, hc.tracks⟩
  · have hs := hc.slots
    simpa [MeasurementLimiter.unheld, MeasurementLimiter.beginWaitIdle, heldSlots] using hs
  · simp [MeasurementLimiter.beginWaitIdle, Semaphore.enqueue, hnil, hc.capacity]

theorem Sound.cancelWaitIdle_sound {c : Connection} (hc : c.Sound true) :
    Sound false { c with limiter := c.limiter.cancelWaitIdle } := by
  refine ⟨hc.capacity, ?_, ?_, hc.tracks⟩
  · have hs := hc.slots
    simpa [MeasurementLimiter.unheld, MeasurementLimiter.cancelWaitIdle, heldSlots] using hs
  · have hl := Semaphore.cancel_waiters_length c.limiter.semaphore
    have hq := congrArg List.length hc.queued
    simp only [List.length_map, if_true, List.length_singleton] at hq
    simpa [MeasurementLimiter.cancelWaitIdle, hq] using hl

/-- The drain ends only when no call holds a slot. -/
theorem Sound.endWaitIdle_sound {c : Connection} {l : MeasurementLimiter} (hc : c.Sound true)
    (h : c.limiter.endWaitIdle = some l) :
    Sound false { c with limiter := l } ∧ c.heldSlots = 0 := by
  obtain ⟨s, hs, rfl⟩ := Option.map_eq_some_iff.mp h
  obtain ⟨w, ws, hw, hws, hu⟩ := Semaphore.unheld_finish hs
  have hq := hc.queued
  simp only [hw, List.map_cons, if_true, List.cons.injEq, List.map_eq_nil_iff] at hq
  obtain ⟨hneed, rfl⟩ := hq
  have hslots := hc.slots
  have hcap := hc.capacity
  have hrel := Semaphore.unheld_release c.limiter.capacity s
  have hzero : c.heldSlots = 0 := by
    unfold MeasurementLimiter.unheld at hslots
    omega
  refine ⟨⟨hcap, ?_, by simp [hws], hc.tracks⟩, hzero⟩
  change (s.release c.limiter.capacity).unheld + c.heldSlots = maxConcurrent
  unfold MeasurementLimiter.unheld at hslots
  omega

/-- With nothing queued, a reading of zero means that no call holds a slot. -/
theorem heldSlots_of_inFlight {c : Connection} (hc : c.Sound false)
    (h : c.limiter.inFlight = 0) : c.heldSlots = 0 := by
  have hnil : c.limiter.semaphore.waiters = [] := by simpa using hc.queued
  have hs := hc.slots
  rw [MeasurementLimiter.unheld_eq_available hnil] at hs
  have hcap := hc.capacity
  unfold MeasurementLimiter.inFlight at h
  omega

end Connection
/-- The connection the main task is busy with. -/
def MainStage.current : MainStage → Option ℕ
  | .idle | .stopped => none
  | .connected k | .shuttingDown k | .sigtermSet k | .waiting k | .draining k | .leaving k _ => some k

structure World.Sound (w : World) : Prop where
  books : ∀ k (c : Connection), w.connections[k]? = some c → c.Sound (w.stage = .draining k)
  newest : ∀ k, w.stage.current = some k → k + 1 = w.connections.length
  closed : ∀ k c, w.connections[k]? = some c → c.socketOpen = true → w.stage.current = some k

theorem getElem?_set_cases {α : Type*} {l : List α} {k j : ℕ} {a b : α}
    (h : (l.set k a)[j]? = some b) : (j = k ∧ b = a) ∨ (j ≠ k ∧ l[j]? = some b) := by
  rw [List.getElem?_set] at h
  split_ifs at h with hk hl
  · exact .inl ⟨hk.symm, (Option.some.inj h).symm⟩
  · exact .inr ⟨fun he => hk he.symm, h⟩

theorem getElem?_concat_cases {α : Type*} {l : List α} {j : ℕ} {a b : α}
    (h : (l ++ [a])[j]? = some b) : l[j]? = some b ∨ (j = l.length ∧ b = a) := by
  rw [List.getElem?_append] at h
  split_ifs at h with hj
  · exact .inl h
  · obtain ⟨hlt, he⟩ := List.getElem?_eq_some_iff.mp h
    simp only [List.length_singleton] at hlt
    have hz : j - l.length = 0 := by omega
    exact .inr ⟨by omega, by simpa [hz] using he.symm⟩

theorem SessionEnd.next_cases (e : SessionEnd) : e.next = .idle ∨ e.next = .stopped := by
  cases e with
  | signalled outcome =>
    simp only [SessionEnd.next]
    split
    · exact .inl rfl
    · exact .inr rfl
  | idle | drained | timedOut => exact .inr rfl

theorem SessionEnd.next_current (e : SessionEnd) : e.next.current = none := by
  rcases e.next_cases with h | h <;> rw [h] <;> rfl

theorem SessionEnd.next_ne_draining (e : SessionEnd) (k : ℕ) : e.next ≠ .draining k := by
  rcases e.next_cases with h | h <;> rw [h] <;> exact nofun

theorem World.Sound.set {w : World} (hw : w.Sound) {k : ℕ} {c c' : Connection} {s : MainStage}
    (hc : w.connections[k]? = some c) (hs : c'.Sound (s = .draining k))
    (hother : ∀ j, j ≠ k → ((s = .draining j) ↔ w.stage = .draining j))
    (hopen : c'.socketOpen = true → s.current = some k)
    (hcur : s.current = w.stage.current ∨ (w.stage.current = some k ∧ s.current = none)) :
    World.Sound { w with connections := w.connections.set k c', stage := s } := by
  refine ⟨fun j d hj => ?_, fun j hj => ?_, fun j d hj ho => ?_⟩
  · rcases getElem?_set_cases hj with ⟨rfl, rfl⟩ | ⟨hne, hd⟩
    · exact hs
    · simpa only [hother j hne] using hw.books j d hd
  · rcases hcur with hcur | ⟨-, hcur⟩
    · simpa using hw.newest j (hcur ▸ hj)
    · exact absurd (hcur.symm.trans hj) (by simp)
  · rcases getElem?_set_cases hj with ⟨rfl, rfl⟩ | ⟨hne, hd⟩
    · exact hopen ho
    · have hk := hw.closed j d hd ho
      rcases hcur with hcur | ⟨hcur, -⟩
      · exact hcur.trans hk
      · exact absurd (Option.some.inj (hk.symm.trans hcur)) hne

theorem World.Sound.goto {w : World} (hw : w.Sound) {s : MainStage}
    (hdrain : ∀ j, s = .draining j ↔ w.stage = .draining j)
    (hcur : s.current = w.stage.current) : (w.goto s).Sound := by
  refine ⟨fun j d hj => ?_, fun j hj => ?_, fun j d hj ho => ?_⟩
  · simpa only [World.goto, hdrain j] using hw.books j d hj
  · exact hw.newest j (hcur ▸ hj)
  · exact hcur.trans (hw.closed j d hj ho)

theorem World.Sound.connect {w : World} (hw : w.Sound) (hs : w.stage = .idle) :
    World.Sound { w with
      connections := w.connections ++ [.fresh], stage := .connected w.connections.length } := by
  refine ⟨fun j d hj => ?_, fun j hj => ?_, fun j d hj ho => ?_⟩
  · rcases getElem?_concat_cases hj with hd | ⟨rfl, rfl⟩
    · simpa [hs] using hw.books j d hd
    · exact Connection.fresh_sound
  · simpa [MainStage.current] using hj.symm
  · rcases getElem?_concat_cases hj with hd | ⟨rfl, rfl⟩
    · have hk := hw.closed j d hd ho
      simp [hs, MainStage.current] at hk
    · rfl

theorem mainStep_sound {w w' : World} {a : MainStep} (hw : w.Sound) (h : w.mainStep a = some w') :
    w'.Sound := by
  cases World.mainStep_move h with
  | connected hs => exact hw.connect hs
  | failed hs => exact hw
  | stopped hs | shutdown hs => exact hw.goto (by simp [hs]) (by simp [hs, MainStage.current])
  | signalled hs =>
    split
    · exact hw.goto (by simp [hs]) (by simp [hs, MainStage.current])
    · exact hw.goto (by simp [hs]) (by simp [hs, MainStage.current])
  | busy hs | free hs => exact hw.goto (by simp [hs]) (by simp [hs, MainStage.current])
  | sigterm hs =>
    have hg := hw.goto (s := .sigtermSet _) (by simp [hs]) (by rw [hs]; rfl)
    exact ⟨hg.books, hg.newest, hg.closed⟩
  | begun hs hc =>
    have hb := hw.books _ _ hc
    simp only [hs, reduceCtorEq, decide_false] at hb
    refine hw.set hc (by simpa using hb.beginWaitIdle_sound) ?_ (fun _ => rfl) ?_
    · intro j hj
      simp [hs, hj.symm]
    · simp [hs, MainStage.current]
  | drained hs hc hl =>
    have hb := hw.books _ _ hc
    simp only [hs, decide_true] at hb
    refine hw.set hc (by simpa using (hb.endWaitIdle_sound hl).1) ?_ (fun _ => rfl) ?_
    · intro j hj
      simp [hs, hj.symm]
    · simp [hs, MainStage.current]
  | timedOut hs hc =>
    have hb := hw.books _ _ hc
    simp only [hs, decide_true] at hb
    refine hw.set hc (by simpa using hb.cancelWaitIdle_sound) ?_ (fun _ => rfl) ?_
    · intro j hj
      simp [hs, hj.symm]
    · simp [hs, MainStage.current]
  | disconnected hs hc =>
    have hb := hw.books _ _ hc
    simp only [hs, reduceCtorEq, decide_false] at hb
    refine hw.set hc ?_ ?_ nofun (.inr ⟨by simp [hs, MainStage.current], SessionEnd.next_current _⟩)
    · simpa [SessionEnd.next_ne_draining] using hb.close
    · intro j hj
      simp [hs, SessionEnd.next_ne_draining]

theorem clientStep_sound {w w' : World} {label : ClientLabel} (hw : w.Sound)
    (h : clientStep w label = some w') : w'.Sound := by
  cases label with
  | main a => exact mainStep_sound hw h
  | status e => cases h; exact ⟨hw.books, hw.newest, hw.closed⟩
  | request k req =>
    obtain ⟨c, c', hc, hr, rfl⟩ := update_eq_some.mp h
    exact hw.set hc ((hw.books k c hc).request_sound hr) (fun _ _ => Iff.rfl)
      (fun ho => hw.closed k c hc (Connection.request_socketOpen hr ▸ ho)) (.inl rfl)
  | call k i a =>
    obtain ⟨c, c', hc, hr, rfl⟩ := update_eq_some.mp h
    exact hw.set hc ((hw.books k c hc).callStep_sound hr) (fun _ _ => Iff.rfl)
      (fun ho => hw.closed k c hc (Connection.callStep_socketOpen hr ▸ ho)) (.inl rfl)

theorem clientStart_sound (host : Text) : (clientStart host).Sound := ⟨nofun, nofun, nofun⟩

theorem run_sound {host : Text} {labels : List ClientLabel} {w : World}
    (h : run clientStep (clientStart host) labels = some w) : w.Sound :=
  run_invariant (fun _ _ _ => clientStep_sound) (clientStart_sound host) h

def World.call (w : World) (k i : ℕ) : Option Call := w.connections[k]?.bind (fun c => c.calls[i]?)

theorem call_eq_some {w : World} {k i : ℕ} {call : Call} :
    w.call k i = some call ↔ ∃ c, w.connections[k]? = some c ∧ c.calls[i]? = some call :=
  Option.bind_eq_some_iff

theorem call_set {w : World} {k j i : ℕ} {c c' : Connection} {s : MainStage} {call : Call}
    (hk : w.connections[k]? = some c)
    (hc : ∀ call, c.calls[i]? = some call → c'.calls[i]? = some call)
    (h : w.call j i = some call) :
    World.call ⟨w.status, w.connections.set k c', s⟩ j i = some call := by
  obtain ⟨d, hd, hcall⟩ := call_eq_some.mp h
  by_cases hj : k = j
  · obtain rfl := hj
    obtain rfl : c = d := Option.some.inj (hk.symm.trans hd)
    have hset : (w.connections.set k c')[k]? = some c' :=
      List.getElem?_set_self (List.getElem?_eq_some_iff.mp hk).1
    exact call_eq_some.mpr ⟨c', hset, hc _ hcall⟩
  · exact call_eq_some.mpr ⟨d, by simpa [List.getElem?_set_ne hj] using hd, hcall⟩

theorem callLabel_step {w w' : World} {k i : ℕ} {a : CallStep}
    (h : clientStep w (.call k i a) = some w') : ∃ (sh sh' : Shared) (call call' : Call),
      sh.status = w.status ∧ w.call k i = some call ∧ call.step sh a = some (sh', call') ∧
        w'.call k i = some call' := by
  obtain ⟨c, c', hk, hr, rfl⟩ := update_eq_some.mp h
  obtain ⟨p, hp, rfl⟩ := callStep_eq_some.mp hr
  obtain ⟨t, t', ht, ha, hq⟩ := stepTask_eq_some.mp hp
  refine ⟨_, _, t, t', rfl, call_eq_some.mpr ⟨c, hk, ht⟩, ha, call_eq_some.mpr ⟨_,
    List.getElem?_set_self (List.getElem?_eq_some_iff.mp hk).1, ?_⟩⟩
  rw [hq]
  exact List.getElem?_set_self (List.getElem?_eq_some_iff.mp ht).1

/-- A step that a call can make under any shared state is a step of the client. -/
theorem call_enabled {w : World} {k i : ℕ} {call call' : Call} {a : CallStep}
    (hcall : w.call k i = some call) (h : ∀ sh, ∃ sh', call.step sh a = some (sh', call')) :
    ∃ w', clientStep w (.call k i a) = some w' ∧ w'.call k i = some call' := by
  obtain ⟨c, hk, hi⟩ := call_eq_some.mp hcall
  obtain ⟨sh', hstep⟩ := h (c.pool w.status).shared
  have hpool : stepTask Call.step (c.pool w.status) i a = some ⟨sh', c.calls.set i call'⟩ :=
    stepTask_eq_some.mpr ⟨call, call', hi, hstep, rfl⟩
  refine ⟨_, update_eq_some.mpr ⟨c, _, hk, callStep_eq_some.mpr ⟨_, hpool, rfl⟩, rfl⟩,
    call_eq_some.mpr ⟨_, List.getElem?_set_self (List.getElem?_eq_some_iff.mp hk).1, ?_⟩⟩
  exact List.getElem?_set_self (List.getElem?_eq_some_iff.mp hi).1

/-- What a step of the client can do to a call: nothing, or let it make one of its steps
under the status of the moment. -/
theorem clientStep_call {w w' : World} {label : ClientLabel} (h : clientStep w label = some w')
    {k i : ℕ} {call : Call} (hcall : w.call k i = some call) :
    w'.call k i = some call ∨ ∃ a sh sh' call', label = .call k i a ∧ sh.status = w.status ∧
      call.step sh a = some (sh', call') ∧ w'.call k i = some call' := by
  cases label with
  | status e => cases h; exact .inl hcall
  | main a =>
    refine .inl ?_
    cases World.mainStep_move h with
    | connected =>
      obtain ⟨c, hc, hi⟩ := call_eq_some.mp hcall
      have hlt := (List.getElem?_eq_some_iff.mp hc).1
      exact call_eq_some.mpr ⟨c, by simpa [List.getElem?_append_left hlt] using hc, hi⟩
    | failed | stopped | shutdown | signalled | sigterm | busy | free => exact hcall
    | begun _ hk | drained _ hk | timedOut _ hk | disconnected _ hk =>
      exact call_set hk (fun _ => id) hcall
  | request j req =>
    obtain ⟨c, c', hk, hr, rfl⟩ := update_eq_some.mp h
    refine .inl (call_set hk (fun call hi => ?_) hcall)
    unfold Connection.request at hr
    split at hr <;> cases hr
    exact (List.getElem?_append_left (List.getElem?_eq_some_iff.mp hi).1).trans hi
  | call j l a =>
    obtain ⟨c, c', hk, hr, rfl⟩ := update_eq_some.mp h
    obtain ⟨p, hp, rfl⟩ := callStep_eq_some.mp hr
    obtain ⟨t, t', ht, ha, hq⟩ := stepTask_eq_some.mp hp
    by_cases hj : j = k ∧ l = i
    · obtain ⟨rfl, rfl⟩ := hj
      obtain ⟨d, hd, hi⟩ := call_eq_some.mp hcall
      obtain rfl : c = d := Option.some.inj (hk.symm.trans hd)
      obtain rfl : t = call := Option.some.inj (ht.symm.trans hi)
      refine .inr ⟨a, _, _, t', rfl, rfl, ha, call_eq_some.mpr ⟨_,
        List.getElem?_set_self (List.getElem?_eq_some_iff.mp hk).1, ?_⟩⟩
      rw [hq]
      exact List.getElem?_set_self (List.getElem?_eq_some_iff.mp hi).1
    · left
      obtain ⟨d, hd, hi⟩ := call_eq_some.mp hcall
      by_cases hjk : j = k
      · obtain rfl := hjk
        obtain rfl : c = d := Option.some.inj (hk.symm.trans hd)
        refine call_eq_some.mpr ⟨_,
          List.getElem?_set_self (List.getElem?_eq_some_iff.mp hk).1, ?_⟩
        rw [hq, ← hi]
        exact List.getElem?_set_ne (fun he => hj ⟨rfl, he⟩)
      · exact call_eq_some.mpr ⟨d, by simpa [List.getElem?_set_ne hjk] using hd, hi⟩

end GlobalpingProbe.Probe
