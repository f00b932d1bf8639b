import GlobalpingProbe.Probe.Answers

/-! # The size of the raw output in every event

The result of a command and each partial result pass the limit before they are emitted; the
answer to a request of no known type quotes the type and does not.
-/
namespace GlobalpingProbe.Probe
open Foundation Status Foundation.Utf8

def CallEvent.Capped : CallEvent → Prop
  | .progress _ _ value | .result _ _ value => value.RawOutputCapped
  | .ack | .recordStart | .recordFinish | .sent _ => True

/-- The type of a request is known, or the text that quotes it stays within the limit. -/
def MeasurementRequest.TypeFits (req : MeasurementRequest) : Prop :=
  req.command ≠ none ∨ byteLen ("Unknown measurement type: ".toList ++ req.mtype) ≤
    maxRawOutputBytes + byteLen truncationMarker

/-- What a call has emitted and what it is about to emit. -/
structure Call.Capped (c : Call) : Prop where
  trace : ∀ e ∈ c.trace, e.Capped
  taken : ∀ queue item, c.channel = some ⟨queue, some item⟩ → item.RawOutputCapped
  counted : ∀ result, c.stage = .counted result → result.RawOutputCapped
  unknown : c.stage = .unknownType → c.req.command = none

theorem failedResult_rawOutput (s : Text) :
    ((failedResult s).get "rawOutput".toList).bind Json.asStr = some s := rfl

theorem unknownTypeResult_capped {req : MeasurementRequest} (hfits : req.TypeFits)
    (hnone : req.command = none) : (unknownTypeResult req.mtype).RawOutputCapped := by
  intro raw hraw
  obtain rfl := Option.some.inj ((failedResult_rawOutput _).symm.trans hraw)
  exact hfits.resolve_left (not_not.mpr hnone)

theorem Call.Capped.log {c : Call} (hc : c.Capped) {e : CallEvent} (he : e.Capped) :
    (c.log e).Capped where
  trace := by simpa [or_imp, forall_and] using ⟨hc.trace, he⟩
  taken := hc.taken
  counted := hc.counted
  unknown := hc.unknown

theorem Call.Capped.goto {c : Call} (hc : c.Capped) {s : Stage}
    (hcounted : ∀ result, s = .counted result → result.RawOutputCapped)
    (hunknown : s = .unknownType → c.req.command = none) : (c.goto s).Capped :=
  ⟨hc.trace, hc.taken, hcounted, hunknown⟩

theorem Call.Capped.setChannel {c : Call} (hc : c.Capped) {ch : Option Channel}
    (htaken : ∀ queue item, ch = some ⟨queue, some item⟩ → item.RawOutputCapped) :
    (c.setChannel ch).Capped := ⟨hc.trace, htaken, hc.counted, hc.unknown⟩

theorem new_capped (req : MeasurementRequest) : (Call.new req).Capped where
  trace := by simp [Call.new]
  taken := by simp [Call.new]
  counted := by simp [Call.new]
  unknown := by simp [Call.new]

theorem step_capped {sh sh' : Shared} {c c' : Call} {a : CallStep} (hfits : c.req.TypeFits)
    (hc : c.Capped) (h : c.step sh a = some (sh', c')) : c'.Capped := by
  cases Call.step_move h with
  | acquired | refused | notReady | ready | ackFailed | known | ended | dropped =>
    exact hc.goto nofun nofun
  | unknown _ hnone => exact hc.goto nofun (fun _ => hnone)
  | acked => exact (hc.log (e := .ack) trivial).goto nofun nofun
  | answeredUnknown hs =>
    have hresult := unknownTypeResult_capped hfits (hc.unknown hs)
    exact (hc.log (e := .result _ _ (unknownTypeResult c.req.mtype)) hresult).goto nofun nofun
  | started =>
    have hlogged := hc.log (e := .recordStart) trivial
    refine (hlogged.goto (s := .running _) nofun nofun).setChannel ?_
    intro queue item hnew
    split at hnew <;> cases hnew
  | sent hs hch =>
    refine (hc.log (e := .sent _) trivial).setChannel ?_
    intro queue item hnew
    obtain ⟨rfl, htaken⟩ := Channel.mk.inj (Option.some.inj hnew)
    exact hc.taken _ item (by rw [hch, ← htaken])
  | finished =>
    refine (hc.log (e := .recordFinish) trivial).goto ?_ nofun
    intro result hresult
    cases hresult
    exact limitRawOutput_capped _
  | @answered result hs =>
    have hresult := hc.counted result hs
    exact (hc.log (e := .result _ _ result) hresult).goto nofun nofun
  | received =>
    refine hc.setChannel ?_
    intro queue item hnew
    cases hnew
    exact limitRawOutput_capped _
  | @forwarded item queue hch =>
    have hitem := hc.taken queue item hch
    exact (hc.setChannel (by simp)).log (e := .progress _ _ item) hitem

theorem run_capped {limiter : MeasurementLimiter} {stats : MeasurementStats}
    {status : StatusManager} {labels : List ConnectionLabel} {p : Pool Shared Call}
    (h : run connectionStep (connectionStart limiter stats status) labels = some p) :
    ∀ c ∈ p.tasks, c.req.TypeFits → c.Capped := by
  refine connection_forall (J := fun c => c.req.TypeFits → c.Capped) ?_ (fun req _ => new_capped req)
    (by simp [connectionStart]) h
  intro sh c a sh' c' hc hstep hfits
  rw [step_req hstep] at hfits
  exact step_capped hfits (hc hfits) hstep

/-- A request of no known type that finds a slot and a ready probe. -/
def unknownLabels (req : MeasurementRequest) : List ConnectionLabel :=
  [.spawn req, .act 0 .tryAcquire, .act 0 .readStatus, .act 0 (.emitAck true),
    .act 0 .lookupType, .act 0 .emitResult]

theorem unknownLabels_answer {req : MeasurementRequest} (hnone : req.command = none) :
    ∃ p, run connectionStep (connectionStart .new .new readyManager) (unknownLabels req) = some p ∧
      ∃ c ∈ p.tasks, c.req = req ∧
        .result req.testId req.measurementId (unknownTypeResult req.mtype) ∈ c.trace := by
  let acked : Call := ⟨req, .acked, none, [.ack]⟩
  let shared : Shared := ⟨⟨⟨2, []⟩, 3⟩, .new, readyManager⟩
  have hacked : run connectionStep (connectionStart .new .new readyManager)
      [.spawn req, .act 0 .tryAcquire, .act 0 .readStatus, .act 0 (.emitAck true)] =
        some ⟨shared, [acked]⟩ := rfl
  have hlookup : acked.step shared .lookupType = some (shared, acked.goto .unknownType) := by
    simp [Call.step, acked, hnone]
  obtain ⟨q, hq, hi⟩ := connection_act (i := 0) (p := ⟨shared, [acked]⟩) rfl hlookup
  obtain ⟨r, hr, hj⟩ := connection_act (a := .emitResult) hi rfl
  have hlabels : unknownLabels req = [.spawn req, .act 0 .tryAcquire, .act 0 .readStatus,
    .act 0 (.emitAck true)] ++ [.act 0 .lookupType, .act 0 .emitResult] := rfl
  refine ⟨r, ?_, _, List.mem_of_getElem? hj, rfl, ?_⟩
  · rw [hlabels]
    exact (run_append_eq_some connectionStep).mpr ⟨_, hacked, by simp [hq, hr]⟩
  · simp [acked]

/-- Every event of every call for a request carries a raw output within the limit exactly when
its type is known or short enough to be quoted. -/
theorem output_capped_iff (req : MeasurementRequest) :
    (∀ limiter stats status labels p,
      run connectionStep (connectionStart limiter stats status) labels = some p →
        ∀ c ∈ p.tasks, c.req = req → ∀ e ∈ c.trace, e.Capped) ↔ req.TypeFits := by
  constructor
  · intro h
    by_contra hfits
    unfold MeasurementRequest.TypeFits at hfits
    push Not at hfits
    obtain ⟨hnone, hlong⟩ := hfits
    obtain ⟨p, hp, c, hc, hreq, he⟩ := unknownLabels_answer hnone
    have hcapped := h _ _ _ _ p hp c hc hreq _ he _ (failedResult_rawOutput _)
    exact absurd hcapped (not_le.mpr hlong)
  · intro hfits limiter stats status labels p hp c hc hreq
    exact (run_capped hp c hc (hreq ▸ hfits)).trace

def longTypeRequest : MeasurementRequest :=
  request ['1'] [("type".toList, .str (List.replicate 20000 'x'))]

theorem longTypeRequest_uncapped : ∃ p,
    run connectionStep (connectionStart .new .new readyManager) (unknownLabels longTypeRequest) =
      some p ∧ ∃ c ∈ p.tasks, ∃ e ∈ c.trace, ¬ e.Capped := by
  have hnone : longTypeRequest.command = none := rfl
  have htype : longTypeRequest.mtype = List.replicate 20000 'x' := rfl
  have hquoted : byteLen ("Unknown measurement type: ".toList ++ longTypeRequest.mtype) = 20026 := by
    rw [htype, byteLen_append, byteLen_replicate]
    decide
  obtain ⟨p, hp, c, hc, -, he⟩ := unknownLabels_answer hnone
  refine ⟨p, hp, c, hc, _, he, fun hcapped => ?_⟩
  have hle := hcapped _ (failedResult_rawOutput _)
  rw [hquoted] at hle
  exact absurd hle (by decide)

end GlobalpingProbe.Probe
