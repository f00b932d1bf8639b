import GlobalpingProbe.Probe.ClientInvariant

/-! # Shutdown waits for every accepted job

Once sigterm is set, no call gets from the status check to the ack any more, so the calls
without a slot at the end of the drain are settled: they have answered or never will ack.
-/
namespace GlobalpingProbe.Probe
open Foundation Status Reconnect

/-- A call that has its answer behind it, or the status check still before it. -/
def Stage.settled : Stage → Bool
  | .created | .slotHeld | .leaving _ | .returned _ => true
  | _ => false

def SessionEnd.isClean : SessionEnd → Bool
  | .idle | .drained => true
  | .signalled _ | .timedOut => false

def MainStage.afterSigterm : MainStage → Bool
  | .sigtermSet _ | .waiting _ | .draining _ => true
  | .leaving _ e => e.isClean
  | _ => false

structure World.Quiesces (w : World) : Prop where
  sigterm : w.stage.afterSigterm = true → w.status.sigterm = true
  settled : ∀ k e c, w.stage = .leaving k e → e.isClean = true → w.connections[k]? = some c →
    ∀ call ∈ c.calls, call.stage.settled = true

theorem settled_of_heldSlots {c : Connection} (h : c.heldSlots = 0) :
    ∀ call ∈ c.calls, call.stage.settled = true := by
  intro call hm
  have hnot := List.countP_eq_zero.mp h call hm
  cases hs : call.stage with
  | created | returned => rfl
  | _ => simp [hs, Stage.holdsSlot] at hnot

theorem settled_step {sh sh' : Shared} {c c' : Call} {a : CallStep}
    (hst : sh.status.sigterm = true) (hc : c.stage.settled = true)
    (h : c.step sh a = some (sh', c')) : c'.stage.settled = true := by
  cases Call.step_move h with
  | ready _ hr =>
    have hs := sigterm_of_getStatus_ready hr
    rw [hst] at hs
    cases hs
  | acquired | refused | notReady | ackFailed | answeredUnknown | answered | dropped => rfl
  | received | forwarded => exact hc
  | acked hs | known hs | unknown hs | started hs | sent hs | ended hs | finished hs =>
    simp [hs, Stage.settled] at hc

theorem settled_answered {c : Call} (ht : c.Tracks) (hs : c.stage.settled = true)
    (ha : c.acked) : c.count CallEvent.isResult = 1 := by
  have htally := ht.tally
  unfold Call.acked at ha
  cases hst : c.stage with
  | leaving exit | returned exit => cases exit <;> simp_all [Stage.tally]
  | created | slotHeld => simp_all [Stage.tally]
  | _ => simp [hst, Stage.settled] at hs

theorem World.Quiesces.set {w : World} (hw : w.Quiesces) {k : ℕ} {c c' : Connection}
    (hk : w.connections[k]? = some c)
    (hc : ∀ e, w.stage = .leaving k e → e.isClean = true →
      (∀ call ∈ c.calls, call.stage.settled = true) → ∀ call ∈ c'.calls, call.stage.settled = true) :
    Quiesces { w with connections := w.connections.set k c' } := by
  refine ⟨hw.sigterm, fun j e d hs he hd => ?_⟩
  rcases getElem?_set_cases hd with ⟨rfl, rfl⟩ | ⟨-, hd⟩
  · exact hc e hs he (hw.settled j e c hs he hk)
  · exact hw.settled j e d hs he hd

theorem mainStep_quiesces {w w' : World} {a : MainStep} (hs : w.Sound) (hw : w.Quiesces)
    (h : w.mainStep a = some w') : w'.Quiesces := by
  cases World.mainStep_move h with
  | connected | stopped | shutdown => exact ⟨nofun, nofun⟩
  | failed => exact hw
  | signalled =>
    split
    · exact ⟨nofun, nofun⟩
    · refine ⟨nofun, fun j e d hse he => ?_⟩
      cases hse
      cases he
  | sigterm => exact ⟨fun _ => rfl, nofun⟩
  | busy hst => exact ⟨fun _ => hw.sigterm (by rw [hst]; rfl), nofun⟩
  | free hst hc hf =>
    have hbook := hs.books _ _ hc
    simp only [hst, reduceCtorEq, decide_false] at hbook
    refine ⟨fun _ => hw.sigterm (by rw [hst]; rfl), fun j e d hse he hd => ?_⟩
    cases hse
    obtain rfl : _ = d := Option.some.inj (hc.symm.trans hd)
    exact settled_of_heldSlots (Connection.heldSlots_of_inFlight hbook hf)
  | begun hst => exact ⟨fun _ => hw.sigterm (by rw [hst]; rfl), nofun⟩
  | drained hst hc hl =>
    have hbook := hs.books _ _ hc
    simp only [hst, decide_true] at hbook
    refine ⟨fun _ => hw.sigterm (by rw [hst]; rfl), fun j e d hse he hd => ?_⟩
    cases hse
    rcases getElem?_set_cases hd with ⟨-, rfl⟩ | ⟨hne, -⟩
    · exact settled_of_heldSlots (c := _) (hbook.endWaitIdle_sound hl).2
    · exact absurd rfl hne
  | timedOut =>
    refine ⟨nofun, fun j e d hse he => ?_⟩
    cases hse
    cases he
  | disconnected =>
    refine ⟨fun ha => ?_, fun j e d hse => ?_⟩
    · dsimp only at ha
      rcases SessionEnd.next_cases _ with hn | hn <;> rw [hn] at ha <;> cases ha
    · rcases SessionEnd.next_cases _ with hn | hn <;> exact absurd (hn.symm.trans hse) nofun

theorem clientStep_quiesces {w w' : World} {label : ClientLabel} (hs : w.Sound) (hw : w.Quiesces)
    (h : clientStep w label = some w') : w'.Quiesces := by
  cases label with
  | main a => exact mainStep_quiesces hs hw h
  | status e =>
    cases h
    exact ⟨fun ha => by simpa using hw.sigterm ha, hw.settled⟩
  | request k req =>
    obtain ⟨c, c', hk, hr, rfl⟩ := update_eq_some.mp h
    apply hw.set hk
    intro e _ _ hall
    unfold Connection.request at hr
    split at hr <;> cases hr
    intro call hm
    rcases List.mem_append.mp hm with hm | hm
    · exact hall call hm
    · rw [List.mem_singleton.mp hm]
      rfl
  | call k i a =>
    obtain ⟨c, c', hk, hr, rfl⟩ := update_eq_some.mp h
    apply hw.set hk
    intro e hst he hall
    obtain ⟨p, hp, rfl⟩ := callStep_eq_some.mp hr
    obtain ⟨t, t', ht, ha, hq⟩ := stepTask_eq_some.mp hp
    have hsig : w.status.sigterm = true := hw.sigterm (by rw [hst]; exact he)
    dsimp only
    rw [hq]
    exact forall_mem_set hall (settled_step hsig (hall t (List.mem_of_getElem? ht)) ha)

theorem run_quiesces {host : Text} {labels : List ClientLabel} {w : World}
    (h : run clientStep (clientStart host) labels = some w) : w.Sound ∧ w.Quiesces :=
  run_invariant (I := fun v => v.Sound ∧ v.Quiesces)
    (fun _ _ _ hv hu => ⟨clientStep_sound hv.1 hu, clientStep_quiesces hv.1 hv.2 hu⟩)
    ⟨clientStart_sound host, nofun, nofun⟩ h

/-- Nothing takes sigterm back. -/
theorem clientStep_sigterm {w w' : World} {label : ClientLabel} (hw : w.status.sigterm = true)
    (h : clientStep w label = some w') : w'.status.sigterm = true := by
  cases label with
  | main a =>
    cases World.mainStep_move h with
    | sigterm => rfl
    | _ => exact hw
  | status e => cases h; simpa using hw
  | request | call =>
    obtain ⟨c, c', -, -, rfl⟩ := update_eq_some.mp h
    exact hw

def Stage.turnedAway : Stage → Bool
  | .leaving .notReady | .returned .notReady => true
  | _ => false

theorem turnedAway_step {sh sh' : Shared} {c c' : Call} {a : CallStep}
    (hc : c.stage.turnedAway = true) (h : c.step sh a = some (sh', c')) :
    c'.stage.turnedAway = true := by
  cases Call.step_move h with
  | received | forwarded => exact hc
  | @dropped exit hs => cases exit <;> simp_all [Stage.turnedAway]
  | acquired hs | refused hs | notReady hs | ready hs | ackFailed hs | answeredUnknown hs
  | answered hs | acked hs | known hs | unknown hs | started hs | sent hs | ended hs
  | finished hs => simp [hs, Stage.turnedAway] at hc

theorem turnedAway_unacked {c : Call} (ht : c.Tracks) (hs : c.stage.turnedAway = true) :
    ¬ c.acked := by
  have htally := ht.tally
  unfold Call.acked
  cases hst : c.stage with
  | leaving exit | returned exit => cases exit <;> simp_all [Stage.tally, Stage.turnedAway]
  | _ => simp [hst, Stage.turnedAway] at hs

/-- A status read under sigterm turns the call away. -/
theorem readStatus_turnedAway {sh sh' : Shared} {c c' : Call} (hst : sh.status.sigterm = true)
    (h : c.step sh .readStatus = some (sh', c')) : c'.stage.turnedAway = true := by
  cases Call.step_move h with
  | notReady => rfl
  | ready _ hr =>
    have hs := sigterm_of_getStatus_ready hr
    rw [hst] at hs
    cases hs

theorem run_turnedAway {w v : World} {labels : List ClientLabel} {k i : ℕ} {call : Call}
    (hcall : w.call k i = some call) (hs : call.stage.turnedAway = true)
    (h : run clientStep w labels = some v) :
    ∃ call, v.call k i = some call ∧ call.stage.turnedAway = true := by
  refine run_invariant (I := fun u : World => ∃ call, u.call k i = some call ∧
    call.stage.turnedAway = true) ?_ ⟨call, hcall, hs⟩ h
  rintro u a t ⟨c, hc, hst⟩ ht
  rcases clientStep_call ht hc with hsame | ⟨b, sh, sh', c', -, -, hstep, hnew⟩
  · exact ⟨c, hsame, hst⟩
  · exact ⟨c', hnew, turnedAway_step hst hstep⟩

/-- A call that reads the status after `set_sigterm` is never acked. -/
theorem late_reader_unacked {host : Text} {before mid after : List ClientLabel} {w : World}
    {k i : ℕ} {call : Call} (h : run clientStep (clientStart host)
      (before ++ .main .setSigterm :: (mid ++ .call k i .readStatus :: after)) = some w)
    (hcall : w.call k i = some call) : ¬ call.acked := by
  have hsound := run_sound h
  obtain ⟨u, -, h⟩ := (run_append_eq_some clientStep).mp h
  obtain ⟨u₁, hset, h⟩ := Option.bind_eq_some_iff.mp ((run_cons clientStep u _ _).symm.trans h)
  obtain ⟨u₂, hmid, h⟩ := (run_append_eq_some clientStep).mp h
  obtain ⟨u₃, hread, h⟩ := Option.bind_eq_some_iff.mp ((run_cons clientStep u₂ _ _).symm.trans h)
  have h₁ : u₁.status.sigterm = true := by
    cases World.mainStep_move hset with
    | sigterm => rfl
  have h₂ : u₂.status.sigterm = true := run_invariant (I := fun v : World => v.status.sigterm = true)
    (fun _ _ _ => clientStep_sigterm) h₁ hmid
  obtain ⟨sh, sh', c, c', hsh, -, hstep, hc'⟩ := callLabel_step hread
  have haway := readStatus_turnedAway (by rw [hsh, h₂]) hstep
  obtain ⟨d, hd, hst⟩ := run_turnedAway hc' haway h
  obtain rfl : d = call := Option.some.inj (hd.symm.trans hcall)
  obtain ⟨conn, hk, hi⟩ := call_eq_some.mp hd
  exact turnedAway_unacked ((hsound.books k conn hk).tracks d (List.mem_of_getElem? hi)) hst

/-- When the socket is closed after a drain that ended in time, or that nothing called for,
every acked call of the connection has emitted its result; and a call that reads the status
after `set_sigterm` is never acked. -/
theorem shutdown_answers_acked {host : Text} {labels : List ClientLabel} {w : World}
    (h : run clientStep (clientStart host) labels = some w) :
    (∀ k e c w', w.stage = .leaving k e → e = .idle ∨ e = .drained →
      clientStep w (.main .disconnect) = some w' → w.connections[k]? = some c →
      ∀ call ∈ c.calls, call.acked → call.count CallEvent.isResult = 1) ∧
    (∀ before mid after k i call,
      labels = before ++ .main .setSigterm :: (mid ++ .call k i .readStatus :: after) →
      w.call k i = some call → ¬ call.acked) := by
  obtain ⟨hsound, hquiet⟩ := run_quiesces h
  refine ⟨fun k e c w' hs he _ hc call hm ha => ?_, ?_⟩
  · have hclean : e.isClean = true := by rcases he with rfl | rfl <;> rfl
    exact settled_answered ((hsound.books k c hc).tracks call hm)
      (hquiet.settled k e c hs hclean hc call hm) ha
  · rintro before mid after k i call rfl hcall
    exact late_reader_unacked h hcall

/-- Sigterm finds one call between its status check and its ack; another one comes late. -/
def shutdownLabels : List ClientLabel :=
  [.status (.pingRound true true), .status (.verdict (.round [] [] 0)), .main .connect,
    .request 0 (request ['1'] []), .call 0 0 .tryAcquire, .call 0 0 .readStatus, .main .shutdown,
    .main .setSigterm, .main .readInFlight, .request 0 (request ['2'] []), .call 0 1 .tryAcquire,
    .main .beginDrain, .call 0 1 .readStatus, .call 0 0 (.emitAck true), .call 0 0 .lookupType,
    .call 0 0 .emitResult, .call 0 1 .dropSlot, .call 0 0 .dropSlot, .main .endDrain]

theorem shutdownLabels_answer : ∃ w, run clientStep (clientStart []) shutdownLabels = some w ∧
    w.stage = .leaving 0 .drained ∧ (∃ call, w.call 0 0 = some call ∧ call.acked ∧
      call.count CallEvent.isResult = 1) ∧ ∃ call, w.call 0 1 = some call ∧ ¬ call.acked := by
  have hrun : (run clientStep (clientStart []) shutdownLabels).map (fun w => (w.stage,
    (w.call 0 0).map (fun c => c.count CallEvent.isAck), (w.call 0 1).isSome,
    (clientStep w (.main .disconnect)).isSome)) =
    some (.leaving 0 .drained, some 1, true, true) := rfl
  obtain ⟨w, hw, hseen⟩ := Option.map_eq_some_iff.mp hrun
  simp only [Prod.mk.injEq, Option.map_eq_some_iff] at hseen
  obtain ⟨hs, ⟨call, hcall, hack⟩, hlate, hdis⟩ := hseen
  obtain ⟨late, hlate⟩ := Option.isSome_iff_exists.mp hlate
  obtain ⟨w', hw'⟩ := Option.isSome_iff_exists.mp hdis
  obtain ⟨c, hc, hi⟩ := call_eq_some.mp hcall
  obtain ⟨hanswered, hnever⟩ := shutdown_answers_acked hw
  have hacked : call.acked := by
    rw [Call.acked, hack]
    exact Nat.one_pos
  refine ⟨w, hw, hs, ⟨call, hcall, hacked, ?_⟩, late, hlate, ?_⟩
  · exact hanswered 0 .drained c w' hs (.inr rfl) hw' hc call (List.mem_of_getElem? hi) hacked
  · exact hnever (shutdownLabels.take 7) [.main .readInFlight, .request 0 (request ['2'] []),
      .call 0 1 .tryAcquire, .main .beginDrain] (shutdownLabels.drop 13) 0 1 late rfl hlate

end GlobalpingProbe.Probe
