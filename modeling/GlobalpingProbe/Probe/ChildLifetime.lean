import GlobalpingProbe.Command.Future
import GlobalpingProbe.Probe.ClientInvariant

/-! # Slots and child processes

A call polls the future of its command while it runs, and drops it when its timeout fires.
No child has `kill_on_drop`: what the future does not wait for any more goes on running, with
the slot or without it.
-/
namespace GlobalpingProbe.Probe
open Foundation Net Status Command

/-- What the commands read their options and the report of curl with. -/
structure Deserializers where
  pingOptions : Json → Except Text PingOptions
  dnsOptions : Json → Except Text DnsOptions
  tracerouteOptions : Json → Except Text TracerouteOptions
  mtrOptions : Json → Except Text MtrOptions
  httpOptions : Json → Except Text HttpOptions
  curlStats : Text → Option Http.CurlStats

structure Setting where
  serde : Deserializers
  table : CaseTable
  localIps : List IpAddr

inductive CommandFuture where
  | ping (future : LineCommand Ping.PingReading)
  | dns (future : LineCommand Text)
  | traceroute (future : LineCommand (List Text))
  | mtr (future : Mtr.MtrFuture)
  | http (target : Text) (isHttps : Bool) (future : Http.HttpFuture)

namespace CommandFuture

def awaits (env : Setting) : CommandFuture → List (CommandAwait CommandFuture)
  | ping f => (LineCommand.awaits (Ping.readLine env.localIps) f).map (.map ping)
  | dns f => (LineCommand.awaits Dns.readLine f).map (.map dns)
  | traceroute f => (LineCommand.awaits Traceroute.readLine f).map (.map traceroute)
  | mtr f => (Mtr.MtrFuture.awaits env.localIps f).map (.map mtr)
  | http target isHttps f =>
    (Http.HttpFuture.awaits env.serde.curlStats env.localIps target isHttps f).map
      (.map (http target isHttps))

def error : CommandFuture → Option Text
  | ping f => f.error
  | dns f => f.error
  | traceroute f => f.error
  | mtr f => f.error
  | http _ _ f => f.error

/-- Whether the future ends in the given way, or is dropped before it ends. -/
def endsIn (env : Setting) (f : CommandFuture) : RunOutcome → Bool
  | .value _ => (f.awaits env).isEmpty && f.error.isNone
  | .error message => (f.awaits env).isEmpty && f.error = some message
  | .timeout => true

theorem tidy (env : Setting) : ∀ f, TidyAt (awaits env) f
  | ping f => (LineCommand.tidy (Ping.readLine env.localIps) f).map (awaits env) ping (fun _ => rfl)
  | dns f => (LineCommand.tidy Dns.readLine f).map (awaits env) dns (fun _ => rfl)
  | traceroute f =>
    (LineCommand.tidy Traceroute.readLine f).map (awaits env) traceroute (fun _ => rfl)
  | mtr f => (Mtr.MtrFuture.tidy env.localIps f).map (awaits env) mtr (fun _ => rfl)
  | http target isHttps f =>
    (Http.HttpFuture.tidy env.serde.curlStats env.localIps target isHttps f).map (awaits env)
      (http target isHttps) (fun _ => rfl)

end CommandFuture

/-- `run` and `run_with_progress` of the commands, before their first await. -/
def MeasurementCommand.future (env : Setting) (options : Json) : MeasurementCommand → CommandFuture
  | .ping =>
    match env.serde.pingOptions options with
    | .ok opts => .ping (Ping.runIcmp env.localIps opts)
    | .error e => .ping (.ended (.error e))
  | .dns =>
    match env.serde.dnsOptions options with
    | .ok opts => .dns (Dns.runDig env.localIps opts)
    | .error e => .dns (.ended (.error e))
  | .traceroute =>
    match env.serde.tracerouteOptions options with
    | .ok opts => .traceroute (Traceroute.runFuture env.table env.localIps opts)
    | .error e => .traceroute (.ended (.error e))
  | .mtr =>
    match env.serde.mtrOptions options with
    | .ok opts => .mtr (Mtr.runFuture env.table env.localIps opts)
    | .error e => .mtr (.ended (some e))
  | .http =>
    match env.serde.httpOptions options with
    | .ok opts => .http opts.target (env.table.toUppercase opts.protocol ≠ "HTTP".toList)
        (Http.runHttp env.table env.localIps opts)
    | .error e => .http [] false (.ended (some e))

/-- The client with the future and the children of each call that has started its command. -/
structure Host where
  world : World
  commands : ℕ → ℕ → Option (Parent CommandFuture)

inductive HostLabel where
  | client (label : ClientLabel)
  | answer (k i j : ℕ) (a : Answer Text Text)
  | exits (k i child : ℕ)

namespace Host

def setCommand (s : Host) (k i : ℕ) (t : Option (Parent CommandFuture)) : Host :=
  { s with commands := fun k' i' => if k' = k ∧ i' = i then t else s.commands k' i' }

/-- A call ends its command in a way that the future has. -/
def permits (env : Setting) (s : Host) : ClientLabel → Bool
  | .call k i (.finish outcome) => (s.commands k i).any (fun t => t.future.endsIn env outcome)
  | _ => true

/-- The command of a call starts where its start is recorded. -/
def launch (env : Setting) (s : Host) : ClientLabel → Host
  | .call k i .recordStart => s.setCommand k i ((s.world.call k i).bind (fun call =>
      match call.stage with
      | .starting command => some (.start (command.future env call.req.measurement))
      | _ => none))
  | _ => s

end Host

def Stage.isRunning : Stage → Bool
  | .running _ => true
  | _ => false

def hostStep (env : Setting) (s : Host) : HostLabel → Option Host
  | .client label =>
    if s.permits env label then
      (clientStep s.world label).map (fun w => { s.launch env label with world := w })
    else none
  | .answer k i j a =>
    if ((s.world.call k i).map Call.stage).any Stage.isRunning then
      (s.commands k i).bind (fun t =>
        (t.poll (CommandFuture.awaits env) j a).map (fun t => s.setCommand k i (some t)))
    else none
  | .exits k i child =>
    (s.commands k i).bind (fun t => (t.exits child).map (fun t => s.setCommand k i (some t)))

def hostStart (host : Text) : Host := ⟨clientStart host, fun _ _ => none⟩

namespace Host

def ChildRunning (s : Host) (k i c : ℕ) : Prop := ∃ t, s.commands k i = some t ∧ t.Running c

def hasChildren (s : Host) (k i : ℕ) : Bool := (s.commands k i).any (fun t => t.children.contains true)

/-- The measurements of a connection that have a running child. -/
def withChildren (s : Host) (k : ℕ) : ℕ :=
  (((s.world.connections[k]?.map Connection.calls).getD []).zipIdx).countP
    (fun call => s.hasChildren k call.2)

end Host

/-- Output is only given up when its child is dead, and the timeout of `dispatch` only drops a
future without running children. -/
def KeepsChildren (env : Setting) (s : Host) : HostLabel → Prop
  | .answer k i j a => ∀ t, s.commands k i = some t →
      ∀ c, t.givesUp (CommandFuture.awaits env) j a = some c → ¬ t.Running c
  | .client (.call k i (.finish .timeout)) => ∀ c, ¬ s.ChildRunning k i c
  | _ => True

/-! ## The stages of a call whose command has started -/

def Stage.isLaunched : Stage → Bool
  | .running _ | .ended _ | .counted _ | .leaving _ | .returned _ => true
  | _ => false

/-- A launched call does not start its command again, and only ends it with `finish`. -/
theorem launched_step {sh sh' : Shared} {c c' : Call} {a : CallStep}
    (hc : c.stage.isLaunched = true) (h : c.step sh a = some (sh', c')) :
    c'.stage.isLaunched = true ∧ a ≠ .recordStart ∧
      (c'.stage.isRunning = c.stage.isRunning ∨
        c'.stage.isRunning = false ∧ ∃ outcome, a = .finish outcome) := by
  cases Call.step_move h with
  | acquired hs | refused hs | notReady hs | ready hs | acked hs | ackFailed hs | known hs
  | unknown hs | answeredUnknown hs | started hs => simp [hs, Stage.isLaunched] at hc
  | ended hs => exact ⟨rfl, nofun, .inr ⟨rfl, _, rfl⟩⟩
  | sent hs | received | forwarded => exact ⟨hc, nofun, .inl rfl⟩
  | finished hs | answered hs | dropped hs => exact ⟨rfl, nofun, .inl (by rw [hs]; rfl)⟩

theorem isLaunched_of_isRunning {s : Stage} (h : s.isRunning = true) : s.isLaunched = true := by
  cases s with
  | running => rfl
  | _ => cases h

theorem holdsSlot_of_isRunning {s : Stage} (h : s.isRunning = true) : s.holdsSlot = true := by
  cases s with
  | running => rfl
  | _ => cases h

section Invariants
variable {env : Setting} {s s' : Host} {k i : ℕ} {t : Parent CommandFuture}

/-- No command waits for a child before its first await. -/
theorem future_waits (env : Setting) (options : Json) (command : MeasurementCommand) :
    waitedFor (CommandFuture.awaits env) (command.future env options) = [] := by
  cases command with
  | ping | dns | traceroute | mtr =>
    dsimp only [MeasurementCommand.future, Ping.runIcmp, Dns.runDig, Traceroute.runFuture,
      LineCommand.begin, Mtr.runFuture]
    split
    · split <;> rfl
    · rfl
  | http =>
    dsimp only [MeasurementCommand.future, Http.runHttp]
    split
    · split
      · split_ifs <;> rfl
      · rfl
    · rfl

namespace Host

/-- The commands that are there belong to launched calls, and wait properly. -/
def Placed (env : Setting) (s : Host) : Prop := ∀ k i t, s.commands k i = some t →
  t.Proper (CommandFuture.awaits env) ∧
    ∃ call, s.world.call k i = some call ∧ call.stage.isLaunched = true

/-- While a command runs its future waits for all running children, and later there are none. -/
def Tended (env : Setting) (s : Host) : Prop := ∀ k i t call, s.commands k i = some t →
  s.world.call k i = some call →
    t.InSight (CommandFuture.awaits env) ∧ (call.stage.isRunning = false → ∀ c, ¬ t.Running c)

/-- A running child that no await of its command gets to any more. -/
def Orphan (env : Setting) (s : Host) (k i c : ℕ) : Prop := ∃ t call, s.commands k i = some t ∧
  s.world.call k i = some call ∧ t.Running c ∧
    (call.stage.isRunning = true → c ∉ waitedFor (CommandFuture.awaits env) t.future)

theorem commands_setCommand {k' i' : ℕ} {o : Option (Parent CommandFuture)}
    (h : (s.setCommand k i o).commands k' i' = some t) :
    (k' = k ∧ i' = i ∧ o = some t) ∨ (¬ (k' = k ∧ i' = i) ∧ s.commands k' i' = some t) := by
  unfold setCommand at h
  dsimp only at h
  split_ifs at h with he
  · exact .inl ⟨he.1, he.2, h⟩
  · exact .inr ⟨he, h⟩

/-- What a step can do to a command: start it, leave it as it is under the call it had, end
it, or move its future or its children. -/
inductive CommandMove (env : Setting) (s s' : Host) (k i : ℕ) (t : Parent CommandFuture) :
    HostLabel → Prop where
  | launched {call} (label : ClientLabel) (hfresh : s.commands k i = none) (hnew : t.children = [])
      (hwaits : waitedFor (CommandFuture.awaits env) t.future = [])
      (hcall : s'.world.call k i = some call) (hrun : call.stage.isRunning = true) :
      CommandMove env s s' k i t (.client label)
  | kept {call call'} (label : HostLabel) (ht : s.commands k i = some t)
      (hcall : s.world.call k i = some call) (hcall' : s'.world.call k i = some call')
      (hl : call'.stage.isLaunched = true) (hrun : call'.stage.isRunning = call.stage.isRunning) :
      CommandMove env s s' k i t label
  | ended {call call'} (outcome : RunOutcome) (ht : s.commands k i = some t)
      (hcall : s.world.call k i = some call) (hcall' : s'.world.call k i = some call')
      (hl : call'.stage.isLaunched = true) (hrun : call'.stage.isRunning = false)
      (hends : t.future.endsIn env outcome = true) :
      CommandMove env s s' k i t (.client (.call k i (.finish outcome)))
  | answered {u call} (j : ℕ) (a : Answer Text Text) (hu : s.commands k i = some u)
      (hcall : s.world.call k i = some call) (hcall' : s'.world.call k i = some call)
      (hrun : call.stage.isRunning = true)
      (hpoll : u.poll (CommandFuture.awaits env) j a = some t) :
      CommandMove env s s' k i t (.answer k i j a)
  | exited {u call} (c : ℕ) (hu : s.commands k i = some u) (hcall : s.world.call k i = some call)
      (hcall' : s'.world.call k i = some call) (hexits : u.exits c = some t) :
      CommandMove env s s' k i t (.exits k i c)

theorem call_kept {label : HostLabel} (hp : s.Placed env) (hw : s'.world = s.world)
    (ht : s.commands k i = some t) : CommandMove env s s' k i t label := by
  obtain ⟨-, call, hcall, hl⟩ := hp k i t ht
  exact .kept label ht hcall (hw ▸ hcall) hl rfl

theorem client_move {label : ClientLabel} (hp : s.Placed env)
    (h : hostStep env s (.client label) = some s') (ht : s'.commands k i = some t) :
    CommandMove env s s' k i t (.client label) := by
  simp only [hostStep, Option.ite_none_right_eq_some] at h
  obtain ⟨hpermits, h⟩ := h
  obtain ⟨w, hw, rfl⟩ := Option.map_eq_some_iff.mp h
  have hsame : s.commands k i = some t →
      CommandMove env s { s.launch env label with world := w } k i t (.client label) := by
    intro hbefore
    obtain ⟨-, call, hcall, hl⟩ := hp k i t hbefore
    rcases clientStep_call hw hcall with hc | ⟨a, sh, sh', call', rfl, -, hstep, hc⟩
    · exact .kept _ hbefore hcall hc hl rfl
    · obtain ⟨hl', -, hrun | ⟨hrun, outcome, rfl⟩⟩ := launched_step hl hstep
      · exact .kept _ hbefore hcall hc hl' hrun
      · exact .ended outcome hbefore hcall hc hl' hrun
          (by simpa [permits, hbefore] using hpermits)
  unfold launch at ht
  split at ht
  · next k' i' =>
    rcases commands_setCommand ht with ⟨rfl, rfl, he⟩ | ⟨-, ht⟩
    · obtain ⟨call, hcall, he⟩ := Option.bind_eq_some_iff.mp he
      split at he
      · next command hstage =>
        cases he
        obtain ⟨sh, sh', c, c', -, hc, hstep, hc'⟩ := callLabel_step hw
        have hfresh : s.commands k i = none := by
          by_contra hsome
          obtain ⟨u, hu⟩ := Option.ne_none_iff_exists'.mp hsome
          obtain ⟨-, d, hd, hl⟩ := hp k i u hu
          obtain rfl := Option.some.inj (hc.symm.trans hd)
          exact (launched_step hl hstep).2.1 rfl
        refine .launched _ hfresh rfl (future_waits env _ command) hc' ?_
        cases Call.step_move hstep with
        | started hs => rfl
      · cases he
    · exact hsame ht
  · exact hsame ht

theorem hostStep_move {label : HostLabel} (hp : s.Placed env) (h : hostStep env s label = some s')
    (ht : s'.commands k i = some t) : CommandMove env s s' k i t label := by
  cases label with
  | client label => exact client_move hp h ht
  | answer k' i' j a =>
    simp only [hostStep, Option.ite_none_right_eq_some] at h
    obtain ⟨hrun, h⟩ := h
    obtain ⟨u, hu, h⟩ := Option.bind_eq_some_iff.mp h
    obtain ⟨u', hpoll, rfl⟩ := Option.map_eq_some_iff.mp h
    rcases commands_setCommand ht with ⟨rfl, rfl, he⟩ | ⟨-, ht⟩
    · cases he
      obtain ⟨-, call, hcall, -⟩ := hp k i u hu
      refine .answered j a hu hcall hcall ?_ hpoll
      simpa [hcall] using hrun
    · exact call_kept hp rfl ht
  | exits k' i' c =>
    obtain ⟨u, hu, h⟩ := Option.bind_eq_some_iff.mp h
    obtain ⟨u', hexits, rfl⟩ := Option.map_eq_some_iff.mp h
    rcases commands_setCommand ht with ⟨rfl, rfl, he⟩ | ⟨-, ht⟩
    · cases he
      obtain ⟨-, call, hcall, -⟩ := hp k i u hu
      exact .exited c hu hcall hcall hexits
    · exact call_kept hp rfl ht

theorem Placed.step {label : HostLabel} (hp : s.Placed env) (h : hostStep env s label = some s') :
    s'.Placed env := by
  intro k i t ht
  cases hostStep_move hp h ht with
  | launched _ hfresh hnew hwaits hcall hrun =>
    refine ⟨⟨?_, ?_⟩, _, hcall, isLaunched_of_isRunning hrun⟩
    · rw [hwaits]
      exact List.nodup_nil
    · rw [hwaits]
      exact nofun
  | kept _ ht hcall hcall' hl | ended _ ht hcall hcall' hl =>
    exact ⟨(hp k i t ht).1, _, hcall', hl⟩
  | answered j a hu hcall hcall' hrun hpoll =>
    obtain ⟨hproper, call, hc, hl⟩ := hp k i _ hu
    obtain rfl := Option.some.inj (hcall.symm.trans hc)
    exact ⟨hproper.poll (CommandFuture.tidy env) hpoll, _, hcall', hl⟩
  | exited c hu hcall hcall' hexits =>
    obtain ⟨hproper, call, hc, hl⟩ := hp k i _ hu
    obtain rfl := Option.some.inj (hcall.symm.trans hc)
    exact ⟨hproper.exits hexits, _, hcall', hl⟩

theorem Tended.step {label : HostLabel} (hp : s.Placed env) (hs : s.Tended env)
    (hk : KeepsChildren env s label) (h : hostStep env s label = some s') : s'.Tended env := by
  intro k i t call ht hc
  cases hostStep_move hp h ht with
  | launched _ hfresh hnew hwaits hcall hrun =>
    have hnone : ∀ c, ¬ t.Running c := by simp [Parent.Running, hnew]
    exact ⟨fun c hr => absurd hr (hnone c), fun _ => hnone⟩
  | kept _ ht hcall hcall' hl hrun =>
    obtain rfl := Option.some.inj (hcall'.symm.trans hc)
    obtain ⟨hsight, hgone⟩ := hs k i t _ ht hcall
    exact ⟨hsight, fun hr => hgone (hrun ▸ hr)⟩
  | ended outcome ht hcall hcall' hl hrun hends =>
    obtain ⟨hsight, -⟩ := hs k i t _ ht hcall
    refine ⟨hsight, fun _ => ?_⟩
    have hend : outcome ≠ .timeout → t.future.awaits env = [] := by
      intro hne
      cases outcome with
      | value | error => simp_all [CommandFuture.endsIn]
      | timeout => exact absurd rfl hne
    cases outcome with
    | value | error => exact hsight.ended (hend (by simp))
    | timeout => exact fun c hc => hk c ⟨t, ht, hc⟩
  | answered j a hu hcall hcall' hrun hpoll =>
    obtain rfl := Option.some.inj (hcall'.symm.trans hc)
    obtain ⟨hsight, -⟩ := hs k i _ _ hu hcall
    refine ⟨hsight.poll (CommandFuture.tidy env) (hk _ hu) hpoll, fun hr => ?_⟩
    rw [hrun] at hr
    cases hr
  | exited c hu hcall hcall' hexits =>
    obtain rfl := Option.some.inj (hcall'.symm.trans hc)
    obtain ⟨hsight, hgone⟩ := hs k i _ _ hu hcall
    refine ⟨hsight.exits hexits, fun hr d hd => ?_⟩
    obtain ⟨-, rfl⟩ := Parent.exits_eq_some.mp hexits
    exact hgone hr d (Parent.running_set.mp hd).2

theorem commands_persist {label : HostLabel} (hp : s.Placed env)
    (h : hostStep env s label = some s') (ht : s.commands k i = some t) :
    ∃ t', s'.commands k i = some t' := by
  have hset : ∀ {k' i' : ℕ} {u : Parent CommandFuture},
      ∃ t', (s.setCommand k' i' (some u)).commands k i = some t' := by
    intro k' i' u
    unfold setCommand
    dsimp only
    split_ifs
    · exact ⟨u, rfl⟩
    · exact ⟨t, ht⟩
  cases label with
  | client label =>
    simp only [hostStep, Option.ite_none_right_eq_some] at h
    obtain ⟨w, hw, rfl⟩ := Option.map_eq_some_iff.mp h.2
    unfold launch
    split
    · next k' i' =>
      by_cases he : k = k' ∧ i = i'
      · obtain ⟨rfl, rfl⟩ := he
        obtain ⟨-, call, hcall, hl⟩ := hp k i t ht
        obtain ⟨sh, sh', c, c', -, hc, hstep, -⟩ := callLabel_step hw
        obtain rfl := Option.some.inj (hcall.symm.trans hc)
        exact absurd rfl (launched_step hl hstep).2.1
      · exact ⟨t, by simp [setCommand, he, ht]⟩
    · exact ⟨t, ht⟩
  | answer k' i' j a =>
    simp only [hostStep, Option.ite_none_right_eq_some] at h
    obtain ⟨u, -, h⟩ := Option.bind_eq_some_iff.mp h.2
    obtain ⟨u', -, rfl⟩ := Option.map_eq_some_iff.mp h
    exact hset
  | exits k' i' c =>
    obtain ⟨u, -, h⟩ := Option.bind_eq_some_iff.mp h
    obtain ⟨u', -, rfl⟩ := Option.map_eq_some_iff.mp h
    exact hset

theorem Orphan.step {label : HostLabel} {c : ℕ} (hp : s.Placed env) (ho : s.Orphan env k i c)
    (hne : label ≠ .exits k i c) (h : hostStep env s label = some s') : s'.Orphan env k i c := by
  obtain ⟨t, call, ht, hcall, hrunning, hforgotten⟩ := ho
  obtain ⟨t', ht'⟩ := commands_persist hp h ht
  cases hostStep_move hp h ht' with
  | launched _ hfresh hnew hwaits hcall hrun => simp [ht] at hfresh
  | kept _ hu hc hc' hl hrun =>
    obtain rfl := Option.some.inj (ht.symm.trans hu)
    obtain rfl := Option.some.inj (hcall.symm.trans hc)
    exact ⟨t, _, ht', hc', hrunning, fun hr => hforgotten (hrun ▸ hr)⟩
  | ended outcome hu hc hc' hl hrun hends =>
    obtain rfl := Option.some.inj (ht.symm.trans hu)
    refine ⟨t, _, ht', hc', hrunning, fun hr => ?_⟩
    rw [hrun] at hr
    cases hr
  | answered j a hu hc hc' hrun hpoll =>
    obtain rfl := Option.some.inj (ht.symm.trans hu)
    obtain rfl := Option.some.inj (hcall.symm.trans hc)
    have hf := Parent.Forgotten.poll (CommandFuture.tidy env) ⟨hrunning, hforgotten hrun⟩ hpoll
    exact ⟨t', call, ht', hc', hf.running, fun _ => hf.notWaited⟩
  | exited d hu hc hc' hexits =>
    obtain rfl := Option.some.inj (ht.symm.trans hu)
    obtain rfl := Option.some.inj (hcall.symm.trans hc)
    have hcd : c ≠ d := fun he => hne (he ▸ rfl)
    obtain ⟨-, rfl⟩ := Parent.exits_eq_some.mp hexits
    exact ⟨_, call, ht', hc', Parent.running_set.mpr ⟨hcd, hrunning⟩, hforgotten⟩

theorem start_placed (host : Text) : (hostStart host).Placed env := fun _ _ _ h => by cases h

theorem start_tended (host : Text) : (hostStart host).Tended env := fun _ _ _ _ h => by cases h

theorem run_placed {host : Text} {labels : List HostLabel}
    (h : run (hostStep env) (hostStart host) labels = some s) : s.Placed env :=
  run_invariant (I := Placed env) (fun _ _ _ hp ht => hp.step ht) (start_placed host) h

theorem run_tended {host : Text} {labels : List HostLabel}
    (hcond : Along (hostStep env) (KeepsChildren env) (hostStart host) labels)
    (h : run (hostStep env) (hostStart host) labels = some s) : s.Tended env :=
  (Along.invariant (I := fun v : Host => v.Placed env ∧ v.Tended env)
    (fun _ _ _ hv hk hu => ⟨hv.1.step hu, hv.2.step hv.1 hk hu⟩) hcond
    ⟨start_placed host, start_tended host⟩ h).2

/-- An orphan runs until it ends by itself. -/
theorem Orphan.run {more : List HostLabel} {c : ℕ} (hp : s.Placed env) (ho : s.Orphan env k i c)
    (hmore : .exits k i c ∉ more) (h : run (hostStep env) s more = some s') :
    s'.ChildRunning k i c := by
  have hall : ∀ label ∈ more, label ≠ .exits k i c := fun label hm he => hmore (he ▸ hm)
  have hstep : ∀ (v : Host) (label : HostLabel) (u : Host), label ≠ .exits k i c →
      v.Placed env ∧ v.Orphan env k i c → hostStep env v label = some u →
        u.Placed env ∧ u.Orphan env k i c :=
    fun v label u hne hv hu => ⟨hv.1.step hu, hv.2.step hv.1 hne hu⟩
  obtain ⟨-, t, call, ht, -, hrunning, -⟩ := run_invariant_of_labels hstep hall ⟨hp, ho⟩ h
  exact ⟨t, ht, hrunning⟩

/-- A step that does not meet the condition leaves a child that nobody waits for. -/
theorem orphan_of_not_keepsChildren {label : HostLabel} (hp : s.Placed env)
    (h : hostStep env s label = some s') (hk : ¬ KeepsChildren env s label) :
    ∃ k i c, s'.Orphan env k i c := by
  cases label with
  | exits => exact absurd trivial hk
  | answer k i j a =>
    unfold KeepsChildren at hk
    push Not at hk
    obtain ⟨t, ht, c, hgives, hrunning⟩ := hk
    obtain ⟨hproper, call, hcall, -⟩ := hp k i t ht
    simp only [hostStep, Option.ite_none_right_eq_some] at h
    obtain ⟨u, hu, h⟩ := Option.bind_eq_some_iff.mp h.2
    obtain rfl := Option.some.inj (ht.symm.trans hu)
    obtain ⟨t', hpoll, rfl⟩ := Option.map_eq_some_iff.mp h
    have hf := hproper.forgets (CommandFuture.tidy env) hgives hrunning hpoll
    exact ⟨k, i, c, t', call, by simp [setCommand], hcall, hf.running, fun _ => hf.notWaited⟩
  | client label =>
    simp only [hostStep, Option.ite_none_right_eq_some] at h
    obtain ⟨w, hw, rfl⟩ := Option.map_eq_some_iff.mp h.2
    unfold KeepsChildren at hk
    split at hk
    · next he => cases he
    · next k i he =>
      cases he
      push Not at hk
      obtain ⟨c, t, ht, hrunning⟩ := hk
      obtain ⟨sh, sh', call, call', -, -, hstep, hcall'⟩ := callLabel_step hw
      refine ⟨k, i, c, t, call', ht, hcall', hrunning, fun hr => ?_⟩
      cases Call.step_move hstep with
      | ended => cases hr
    · exact absurd trivial hk

end Host

/-- What is left for a launched call to do can always be done; its timeout can fire. -/
theorem launched_enabled {c : Call} (hl : c.stage.isLaunched = true) (hr : c.isReturned = false) :
    ∃ a c', (∀ sh : Shared, ∃ sh', c.step sh a = some (sh', c')) ∧
      c'.stage.remaining < c.stage.remaining ∧ c'.stage.isLaunched = true ∧ a ≠ .recordStart ∧
        ∀ outcome, a = .finish outcome → outcome = .timeout := by
  cases hs : c.stage with
  | running command => exact ⟨.finish .timeout, c.goto (.ended .timeout), fun sh => ⟨sh, by
      simp [Call.step, hs]⟩, by simp [Stage.remaining], rfl, by simp, by simp⟩
  | ended outcome => exact ⟨.recordFinish, _, fun sh => ⟨_, by simp only [Call.step, hs]; rfl⟩, by
      simp [Stage.remaining], rfl, by simp, by simp⟩
  | counted result => exact ⟨.emitResult, _, fun sh => ⟨sh, by simp only [Call.step, hs]; rfl⟩, by
      simp [Stage.remaining], rfl, by simp, by simp⟩
  | leaving exit => exact ⟨.dropSlot, c.goto (.returned exit), fun sh => ⟨_, by
      simp only [Call.step, hs]; rfl⟩, by simp [Stage.remaining], rfl, by simp, by simp⟩
  | returned => simp [Call.isReturned, Stage.isReturned, hs] at hr
  | created | slotHeld | statusReady | acked | unknownType | starting =>
    simp [hs, Stage.isLaunched] at hl

/-- A launched call can return, its command ended or not. -/
theorem launched_returns {c : Call} (hcall : s.world.call k i = some c)
    (hl : c.stage.isLaunched = true) (ht : s.commands k i = some t) :
    ∃ more u d, run (hostStep env) s more = some u ∧ (∀ label ∈ more, ∃ l, label = .client l) ∧
      u.world.call k i = some d ∧ d.isReturned = true := by
  induction hn : c.stage.remaining using Nat.strong_induction_on generalizing s c with
  | _ n ih =>
  cases hr : c.isReturned with
  | true => exact ⟨[], s, c, rfl, nofun, hcall, hr⟩
  | false =>
    obtain ⟨a, c', hstep, hlt, hl', hstart, hfinish⟩ := launched_enabled hl hr
    obtain ⟨w, hw, hc'⟩ := call_enabled hcall hstep
    have hlaunch : s.launch env (.call k i a) = s := by
      cases a with
      | recordStart => exact absurd rfl hstart
      | _ => rfl
    have hpermits : s.permits env (.call k i a) = true := by
      cases a with
      | finish outcome =>
        obtain rfl := hfinish outcome rfl
        simp [Host.permits, ht, CommandFuture.endsIn]
      | _ => rfl
    have hnext : hostStep env s (.client (.call k i a)) = some { s with world := w } := by
      simp [hostStep, hpermits, hw, hlaunch]
    obtain ⟨more, u, d, hrun, hclient, hd, hret⟩ :=
      ih _ (hn ▸ hlt) (s := { s with world := w }) hc' hl' ht rfl
    refine ⟨_ :: more, u, d, by rw [run_cons, hnext]; exact hrun, ?_, hd, hret⟩
    rintro label (_ | ⟨_, hm⟩)
    · exact ⟨_, rfl⟩
    · exact hclient label hm

/-- Under the condition only calls that hold a slot have running children. -/
theorem Host.Tended.withChildren_le (hs : s.Tended env) (hw : s.world.Sound) (k : ℕ) :
    s.withChildren k ≤ maxConcurrent := by
  unfold Host.withChildren
  cases hk : s.world.connections[k]? with
  | none => exact Nat.zero_le _
  | some c =>
    have hslots : c.calls.zipIdx.countP (fun call => call.1.stage.holdsSlot) = c.heldSlots := by
      rw [Connection.heldSlots, ← List.zipIdx_map_fst 0 c.calls, List.countP_map, List.zipIdx_map_fst]
      rfl
    have hle : c.heldSlots ≤ maxConcurrent := by
      have := (hw.books k c hk).slots
      omega
    refine le_trans (List.countP_mono_left (fun call hm hchild => ?_)) (hslots.trans_le hle)
    have hcall := List.mem_zipIdx_iff_getElem?.mp hm
    obtain ⟨t, ht, hany⟩ := (Option.any_eq_true _ _).mp hchild
    have hworld : s.world.call k call.2 = some call.1 := call_eq_some.mpr ⟨c, hk, hcall⟩
    obtain ⟨j, hj⟩ := List.mem_iff_getElem?.mp (List.contains_iff_mem.mp hany)
    obtain ⟨-, hgone⟩ := hs k call.2 t call.1 ht hworld
    cases hrun : call.1.stage.isRunning with
    | true => exact holdsSlot_of_isRunning hrun
    | false => exact absurd hj (hgone hrun j)

theorem hostStep_sound {label : HostLabel} (hw : s.world.Sound)
    (h : hostStep env s label = some s') : s'.world.Sound := by
  cases label with
  | client label =>
    simp only [hostStep, Option.ite_none_right_eq_some] at h
    obtain ⟨w, hstep, rfl⟩ := Option.map_eq_some_iff.mp h.2
    exact clientStep_sound hw hstep
  | answer k' i' j a =>
    simp only [hostStep, Option.ite_none_right_eq_some] at h
    obtain ⟨u, -, h⟩ := Option.bind_eq_some_iff.mp h.2
    obtain ⟨u', -, rfl⟩ := Option.map_eq_some_iff.mp h
    exact hw
  | exits k' i' c =>
    obtain ⟨u, -, h⟩ := Option.bind_eq_some_iff.mp h
    obtain ⟨u', -, rfl⟩ := Option.map_eq_some_iff.mp h
    exact hw

end Invariants

/-- Slots and children over a whole run. Where every step meets the condition, a call that has
returned has no running child, and no more measurements than a limiter has slots have one. A
step that does not meet it leaves a child that runs until it ends by itself, and the call can
return before. -/
theorem slot_outlives_children {env : Setting} {host : Text} {labels : List HostLabel} {s : Host}
    (h : run (hostStep env) (hostStart host) labels = some s) :
    (Along (hostStep env) (KeepsChildren env) (hostStart host) labels →
      (∀ k i c call, s.world.call k i = some call → call.isReturned = true →
        ¬ s.ChildRunning k i c) ∧
      ∀ k, s.withChildren k ≤ maxConcurrent) ∧
    (∀ label t, hostStep env s label = some t → ¬ KeepsChildren env s label →
      ∃ k i c, (∀ more u, .exits k i c ∉ more → run (hostStep env) t more = some u →
          u.ChildRunning k i c) ∧
        ∃ more u call, .exits k i c ∉ more ∧ run (hostStep env) t more = some u ∧
          u.world.call k i = some call ∧ call.isReturned = true) := by
  have hplaced := Host.run_placed h
  have hsound : s.world.Sound := run_invariant (I := fun v : Host => v.world.Sound)
    (fun _ _ _ hv hu => hostStep_sound hv hu) (clientStart_sound host) h
  refine ⟨fun hcond => ?_, fun label t ht hk => ?_⟩
  · have htended := Host.run_tended hcond h
    refine ⟨?_, htended.withChildren_le hsound⟩
    rintro k i c call hcall hret ⟨t, ht, hrunning⟩
    have hstage : call.stage.isRunning = false := by
      unfold Call.isReturned at hret
      cases hs : call.stage with
      | running => simp [hs, Stage.isReturned] at hret
      | _ => rfl
    exact (htended k i t call ht hcall).2 hstage c hrunning
  · have ht' := hplaced.step ht
    obtain ⟨k, i, c, horphan⟩ := Host.orphan_of_not_keepsChildren hplaced ht hk
    refine ⟨k, i, c, fun more u hmore hu => horphan.run ht' hmore hu, ?_⟩
    obtain ⟨v, call, hv, hcall, -, -⟩ := horphan
    obtain ⟨-, call', hcall', hl⟩ := ht' k i v hv
    obtain ⟨more, u, d, hrun, hclient, hd, hret⟩ := launched_returns hcall' hl hv
    refine ⟨more, u, d, fun hm => ?_, hrun, hd, hret⟩
    obtain ⟨l, hl⟩ := hclient _ hm
    cases hl

/-- Only errors of reading and timeouts can break the condition. -/
def HostLabel.isPlain : HostLabel → Bool
  | .answer _ _ _ (.readFailed _) | .answer _ _ _ (.outputFailed _) | .answer _ _ _ .elapsed => false
  | .client (.call _ _ (.finish .timeout)) => false
  | _ => true

theorem keepsChildren_of_isPlain {env : Setting} (s : Host) {label : HostLabel}
    (h : label.isPlain = true) : KeepsChildren env s label := by
  unfold KeepsChildren
  split
  · next k i j a =>
    intro t _ c hgives
    obtain ⟨w, -, hw⟩ := Option.bind_eq_some_iff.mp hgives
    cases a <;> cases w <;> simp_all [HostLabel.isPlain, Await.givesUp]
  · cases h
  · trivial

theorem along_of_isPlain {env : Setting} {labels : List HostLabel}
    (h : ∀ label ∈ labels, label.isPlain = true) (s : Host) :
    Along (hostStep env) (KeepsChildren env) s labels := by
  induction labels generalizing s with
  | nil => exact trivial
  | cons label labels ih =>
    exact ⟨keepsChildren_of_isPlain s (h label (by simp)), fun t _ =>
      ih (fun l hl => h l (by simp [hl])) t⟩

/-- Every measurement is read as a query for the address of `a.io`. -/
def querySetting : Setting where
  serde :=
    { pingOptions := fun _ => .error []
      dnsOptions := fun _ => .ok ⟨"a.io".toList, "UDP".toList, 53, none, false, ⟨['A']⟩, 4⟩
      tracerouteOptions := fun _ => .error []
      mtrOptions := fun _ => .error []
      httpOptions := fun _ => .error []
      curlStats := fun _ => none }
  table := .ascii
  localIps := []

/-- A query is accepted and dig has printed its first line. -/
def queryLabels : List HostLabel :=
  [.client (.status (.pingRound true true)), .client (.status (.verdict (.round [] [] 0))),
    .client (.main .connect), .client (.request 0 (request ['1']
      [("type".toList, .str "dns".toList), ("target".toList, .str "a.io".toList),
        ("query".toList, .obj [("type".toList, .str ['A'])])])),
    .client (.call 0 0 .tryAcquire), .client (.call 0 0 .readStatus),
    .client (.call 0 0 (.emitAck true)), .client (.call 0 0 .lookupType),
    .client (.call 0 0 .recordStart), .answer 0 0 0 .spawned, .answer 0 0 0 (.line [])]

def returnLabels (outcome : RunOutcome) : List HostLabel :=
  [.client (.call 0 0 (.finish outcome)), .client (.call 0 0 .recordFinish),
    .client (.call 0 0 .emitResult), .client (.call 0 0 .dropSlot)]

/-- The next line of dig cannot be decoded. -/
theorem undecodableLine_leaves_child : ∃ s, run (hostStep querySetting) (hostStart [])
    (queryLabels ++ .answer 0 0 0 (.readFailed "invalid UTF-8".toList) ::
      returnLabels (.error "invalid UTF-8".toList)) = some s ∧
    (∃ call, s.world.call 0 0 = some call ∧ call.isReturned = true) ∧ s.ChildRunning 0 0 0 := by
  have hrun : (run (hostStep querySetting) (hostStart []) (queryLabels ++
    .answer 0 0 0 (.readFailed "invalid UTF-8".toList) ::
      returnLabels (.error "invalid UTF-8".toList))).map (fun s =>
        ((s.world.call 0 0).map Call.isReturned, (s.commands 0 0).map Parent.children)) =
          some (some true, some [true]) := rfl
  obtain ⟨s, hs, hseen⟩ := Option.map_eq_some_iff.mp hrun
  simp only [Prod.mk.injEq, Option.map_eq_some_iff] at hseen
  obtain ⟨hcall, t, ht, hchildren⟩ := hseen
  exact ⟨s, hs, hcall, t, ht, by rw [Parent.Running, hchildren]; rfl⟩

/-- The output of dig ends, dig does, and the result is parsed. -/
def answeredLabels : List HostLabel :=
  queryLabels ++ [.answer 0 0 0 .endOfFile, .exits 0 0 0, .answer 0 0 0 .waited] ++
    returnLabels (.value (.obj []))

theorem answeredLabels_leave_none : ∃ s, run (hostStep querySetting) (hostStart [])
    answeredLabels = some s ∧ ∃ call, s.world.call 0 0 = some call ∧ call.isReturned = true ∧
      (∀ c, ¬ s.ChildRunning 0 0 c) ∧ s.withChildren 0 ≤ maxConcurrent := by
  have hrun : (run (hostStep querySetting) (hostStart []) answeredLabels).map (fun s =>
    (s.world.call 0 0).map Call.isReturned) = some (some true) := rfl
  obtain ⟨s, hs, hseen⟩ := Option.map_eq_some_iff.mp hrun
  obtain ⟨call, hcall, hret⟩ := Option.map_eq_some_iff.mp hseen
  have hplain : ∀ label ∈ answeredLabels, label.isPlain = true := by
    simp [answeredLabels, queryLabels, returnLabels, HostLabel.isPlain]
  obtain ⟨hgone, hcount⟩ := (slot_outlives_children hs).1 (along_of_isPlain hplain _)
  exact ⟨s, hs, call, hcall, hret, fun c => hgone 0 0 c call hcall hret, hcount 0⟩

end GlobalpingProbe.Probe
