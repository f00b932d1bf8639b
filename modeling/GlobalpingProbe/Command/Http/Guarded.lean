import GlobalpingProbe.Command.Http.Run

/-! # What a request asks for

Nothing is asked of the processes and files of a request in good faith. Along every run curl and
openssl are told addresses that were checked, in a fixed order, and the removal of the files that
curl is told to write is asked behind it.
-/
namespace GlobalpingProbe.Command.Http
open Foundation Mtr Net

/-- What curl may be told to connect to: the target if it is an address, else one that was found
for it, and in both cases none that is private. -/
def Vetted (localIps : List IpAddr) (target ip : Text) : Prop :=
  (∃ addr, parseIpAddr ip = some addr ∧ isIpPrivate localIps addr = false) ∧
    ((parseIpAddr target).isSome → ip = target)

/-- The address of a host name is told next to the URL, for this name and port. -/
def NamesAddress (target url ip : Text) (port : UInt16) (args : List Text) : Prop :=
  parseIpAddr target = none → ∃ front entry,
    args = front ++ ["--resolve".toList, entry, url] ∧
      resolveEntry entry = [target, decimal port.toNat, bracketHost ip]

/-! ## What is asked -/

inductive HttpKind where
  | dig
  | curl
  | read
  | remove
  | openssl
  deriving DecidableEq, Repr

def HttpAsk.kind : HttpAsk → HttpKind
  | dig _ => .dig
  | curl _ => .curl
  | readText _ | readBytes _ => .read
  | remove _ => .remove
  | openssl _ _ => .openssl

/-- What may be asked: dig about a name only, curl for the job with an address that was checked,
openssl about one that is not private, and nothing of files but the two of the request. -/
def HttpAsk.Guarded (env : HttpSetting) (opts : HttpOptions) (id : Text) : HttpAsk → Prop
  | dig args => parseIpAddr opts.target = none ∧
      args = digArgs opts.target opts.resolver opts.ipVersion
  | curl args => ∃ ip, Vetted env.localIps opts.target ip ∧
      args = opts.curlArgs env.tables.toCaseTable ip id ∧
      NamesAddress opts.target (opts.buildUrl env.tables.toCaseTable
        (opts.effectivePort env.tables.toCaseTable)) ip
        (opts.effectivePort env.tables.toCaseTable) args
  | readText path => path = headersPath id
  | readBytes path => path = bodyPath id
  | remove path => path = headersPath id ∨ path = bodyPath id
  | openssl args stdin => args = x509Args ∨ stdin = ['\n'] ∧ ∃ ip,
      args = clientArgs ip (opts.effectivePort env.tables.toCaseTable)
        (opts.request.host.getD opts.target) ∧
      ∀ addr, parseIpAddr ip = some addr → isIpPrivate env.localIps addr = false

/-- What a result may say about the address. -/
def ReportsPublic (localIps : List IpAddr) (result : Except HttpError ParsedHttp) : Prop :=
  ∀ parsed, result = .ok parsed → ∀ ip, parsed.resolvedAddress = some ip →
    ∀ addr, parseIpAddr ip = some addr → isIpPrivate localIps addr = false

section Guarded
variable {env : HttpSetting} {opts : HttpOptions} {id ip : Text}

theorem reportsPublic_error (e : HttpError) : ReportsPublic env.localIps (.error e) := nofun

theorem reportsPublic_failed (message : Text) :
    ReportsPublic env.localIps (.ok (failedResult message)) := by
  intro parsed heq ip hip
  obtain rfl := Except.ok.inj heq
  cases hip

theorem resolveTarget_asks {localIps : List IpAddr} {opts : HttpOptions}
    (hpublic : ∀ addr, parseIpAddr opts.target = some addr → isIpPrivate localIps addr = false) :
    (resolveTarget localIps opts).Asks
      (fun e => parseIpAddr opts.target = none ∧
        e = .dig (digArgs opts.target opts.resolver opts.ipVersion))
      (fun resolved =>
        ∀ ip dnsMs, resolved = .ok (ip, dnsMs) → Vetted localIps opts.target ip) := by
  unfold resolveTarget
  cases hliteral : parseIpAddr opts.target with
  | some addr =>
    refine Program.asks_done (fun ip dnsMs heq => ?_)
    cases heq
    exact ⟨⟨addr, hliteral, hpublic addr hliteral⟩, fun _ => rfl⟩
  | none =>
    refine Program.asks_ask ⟨rfl, rfl⟩ (fun answer => ?_)
    obtain ⟨⟨stdout, stderr⟩ | e | _, dnsMs⟩ := answer
    · dsimp only
      cases hfound : resolvedIp stdout with
      | none => exact Program.asks_done nofun
      | some ip =>
        dsimp only
        split_ifs with hprivate
        · exact Program.asks_done nofun
        · refine Program.asks_done (fun ip' dnsMs' heq => ?_)
          cases heq
          have hafter : afterDig localIps opts.target stdout = .curlSpawning ip := by
            simp only [afterDig, hfound, if_neg hprivate]
          refine ⟨vetted_of_afterDig hafter, fun hsome => ?_⟩
          rw [hliteral] at hsome
          cases hsome
    · exact Program.asks_done nofun
    · exact Program.asks_done nofun

/-- For accepted options the address of a host name is told next to the URL. -/
theorem namesAddress_curlArgs
    (h : opts.validate env.tables.toCaseTable env.localIps = .ok ()) (ip : Text) :
    NamesAddress opts.target (opts.buildUrl env.tables.toCaseTable
      (opts.effectivePort env.tables.toCaseTable)) ip (opts.effectivePort env.tables.toCaseTable)
      (opts.curlArgs env.tables.toCaseTable ip id) :=
  fun hname => buildCurlArgs_of_hostname (opts.validate_target.mp h).1.1 hname _ _ ip _ _

/-- The address is that of the check after curl. -/
theorem enrichTls_asks (table : CaseTable) (tls : TlsInfo) (ip : Text) (port : UInt16)
    (servername : Text) : (enrichTls table tls ip port servername).Asks
      (fun e => ∃ args stdin, e = .openssl args stdin ∧
        (args = x509Args ∨ stdin = ['\n'] ∧ args = clientArgs ip port servername))
      (fun _ => True) := by
  unfold enrichTls
  refine Program.asks_ask ⟨_, _, rfl, .inr ⟨rfl, rfl⟩⟩ (fun answer => ?_)
  cases answer with
  | none => exact Program.asks_done trivial
  | some fullText =>
    dsimp only
    cases extractPem fullText with
    | none => exact Program.asks_done trivial
    | some pem =>
      refine Program.asks_ask ⟨_, _, rfl, .inl rfl⟩ (fun answer => ?_)
      cases answer with
      | none => exact Program.asks_done trivial
      | some text => exact Program.asks_done trivial

theorem tlsOf_asks (report : CurlReport) (verbose : Text)
    (hip : ∀ addr, parseIpAddr ip = some addr → isIpPrivate env.localIps addr = false) :
    (tlsOf env opts report ip verbose).Asks (HttpAsk.Guarded env opts id) (fun _ => True) := by
  unfold tlsOf
  split
  · exact Program.asks_done trivial
  · refine Program.asks_bind ((enrichTls_asks _ _ _ _ _).imp ?_ (fun _ h => h))
      (fun _ _ => Program.asks_done trivial)
    rintro e ⟨args, stdin, rfl, hx509 | ⟨hstdin, hclient⟩⟩
    · exact .inl hx509
    · exact .inr ⟨hstdin, ip, hclient, hip⟩

theorem not_private_of_any {localIps : List IpAddr}
    (h : ¬ (parseIpAddr ip).any (isIpPrivate localIps) = true) :
    ∀ addr, parseIpAddr ip = some addr → isIpPrivate localIps addr = false := by
  intro addr haddr
  rw [haddr, Option.any_some] at h
  exact (Bool.not_eq_true _).mp h

theorem finishHttp_asks (resolvedIp : Text) (dnsMs : Option ℕ) (headersFile bodyFile : List ℕ)
    (stdout verbose : Text) :
    (finishHttp env opts resolvedIp dnsMs headersFile bodyFile stdout verbose).Asks
      (HttpAsk.Guarded env opts id) (ReportsPublic env.localIps) := by
  unfold finishHttp
  split
  · exact Program.asks_done (reportsPublic_failed _)
  · next report hreport =>
    split_ifs with hcode hprivate
    · exact Program.asks_done (reportsPublic_failed _)
    · exact Program.asks_done (reportsPublic_failed _)
    · have hpublic := not_private_of_any hprivate
      split
      · exact Program.asks_done (reportsPublic_error _)
      · refine Program.asks_bind (tlsOf_asks report verbose hpublic) (fun tls _ =>
          Program.asks_done ?_)
        rintro parsed heq shown hshown
        cases heq
        obtain rfl := Option.some.inj hshown
        exact hpublic

theorem removeFiles_asks {R : Type} {Q : R → Prop} {next : HttpProgram R}
    (h : next.Asks (HttpAsk.Guarded env opts id) Q) :
    (removeFiles id next).Asks (HttpAsk.Guarded env opts id) Q :=
  Program.asks_ask (.inl rfl) (fun _ => Program.asks_ask (.inr rfl) (fun _ => h))

theorem runRequest_asks (env : HttpSetting) (opts : HttpOptions) (id : Text) :
    (runRequest env opts id).Asks (HttpAsk.Guarded env opts id) (ReportsPublic env.localIps) := by
  unfold runRequest
  split
  · exact Program.asks_done (reportsPublic_error _)
  · next haccepted =>
    have hpublic := (opts.validate_target.mp haccepted).1.2
    refine Program.asks_bind ((resolveTarget_asks hpublic).imp ?_ (fun _ h => h)) ?_
    · rintro e ⟨hname, rfl⟩
      exact ⟨hname, rfl⟩
    · rintro (e | ⟨ip, dnsMs⟩) hvetted
      · exact Program.asks_done (reportsPublic_error _)
      · refine Program.asks_ask ⟨ip, hvetted ip dnsMs rfl, rfl, namesAddress_curlArgs haccepted ip⟩
          (fun answer => ?_)
        obtain ⟨stdout, verbose⟩ | e | _ := answer
        · exact Program.asks_ask rfl (fun headersFile => Program.asks_ask rfl (fun bodyFile =>
            removeFiles_asks (finishHttp_asks _ _ _ _ _ _)))
        · exact removeFiles_asks (Program.asks_done (reportsPublic_error _))
        · exact removeFiles_asks (Program.asks_done (reportsPublic_error _))

end Guarded

/-! ## The order -/

section Order
variable {env : HttpSetting} {opts : HttpOptions} {id : Text}

theorem resolveTarget_inOrder (localIps : List IpAddr) (opts : HttpOptions) :
    (resolveTarget localIps opts).InOrder HttpAsk.kind [.dig] := by
  unfold resolveTarget
  split_ifs
  · exact Program.inOrder_done _
  · refine Program.inOrder_ask (fun answer => ?_)
    obtain ⟨⟨stdout, stderr⟩ | e | _, dnsMs⟩ := answer
    · dsimp only
      split
      · exact Program.inOrder_done _
      · split_ifs <;> exact Program.inOrder_done _
    · exact Program.inOrder_done _
    · exact Program.inOrder_done _

theorem enrichTls_inOrder (table : CaseTable) (tls : TlsInfo) (ip : Text) (port : UInt16)
    (servername : Text) :
    (enrichTls table tls ip port servername).InOrder HttpAsk.kind [.openssl, .openssl] := by
  unfold enrichTls
  refine Program.inOrder_ask (fun answer => ?_)
  cases answer with
  | none => exact Program.inOrder_done _
  | some fullText =>
    dsimp only
    cases extractPem fullText with
    | none => exact Program.inOrder_done _
    | some pem => exact Program.inOrder_ask (fun answer => by
        cases answer <;> exact Program.inOrder_done _)

theorem finishHttp_inOrder (resolvedIp : Text) (dnsMs : Option ℕ) (headersFile bodyFile : List ℕ)
    (stdout verbose : Text) :
    (finishHttp env opts resolvedIp dnsMs headersFile bodyFile stdout verbose).InOrder
      HttpAsk.kind [.openssl, .openssl] := by
  have htls : ∀ (report : CurlReport) (ip : Text),
      (tlsOf env opts report ip verbose).InOrder HttpAsk.kind [.openssl, .openssl] := by
    intro report ip
    unfold tlsOf
    split
    · exact Program.inOrder_done _
    · exact (Program.inOrder_bind (enrichTls_inOrder _ _ _ _ _)
        (fun _ => Program.inOrder_done _)).mono (List.Sublist.refl _)
  unfold finishHttp
  split
  · exact Program.inOrder_done _
  · split_ifs
    · exact Program.inOrder_done _
    · exact Program.inOrder_done _
    · split
      · exact Program.inOrder_done _
      · exact (Program.inOrder_bind (htls _ _) (fun _ => Program.inOrder_done _)).mono
          (List.Sublist.refl _)

end Order

/-! ## The files -/

def HttpKind.touchesFiles : HttpKind → Bool
  | curl | read | remove => true
  | dig | openssl => false

/-- Behind curl, and when nothing is read any more, the file is removed. -/
def RemovedBehindCurl (log : List (Asked HttpAsk.Answer)) (path : Text) : Prop :=
  ∃ front back, log = front ++ ⟨.remove path, some ()⟩ :: back ∧ (∃ x ∈ front, x.ask.kind = .curl) ∧
    ∀ x ∈ back, x.ask.kind ≠ .curl ∧ x.ask.kind ≠ .read

/-- Once curl was started, the removals can be missing only where the request was dropped while it
waited for curl or over the files. -/
def FilesRemoved {R : Type} (id : Text) (log : List (Asked HttpAsk.Answer)) (out : Option R) :
    Prop :=
  (∃ x ∈ log, x.ask.kind = .curl) →
    (∀ path ∈ [headersPath id, bodyPath id], RemovedBehindCurl log path) ∨
      out = none ∧ ∃ x, log.getLast? = some x ∧ x.answer = none ∧ x.ask.kind.touchesFiles = true

section Files
variable {env : HttpSetting} {opts : HttpOptions} {id : Text} {R : Type}

/-- Files are removed along all runs of a program that goes on from a log. -/
def RemovesAfter (id : Text) (front : List (Asked HttpAsk.Answer)) (p : HttpProgram R) : Prop :=
  p.All (fun log out => FilesRemoved id (front ++ log) out)

variable {front : List (Asked HttpAsk.Answer)}

/-- An ask over files may be the last one of a run that is dropped. -/
theorem removesAfter_ask {e : HttpAsk} {next : e.Answer → HttpProgram R}
    (he : e.kind.touchesFiles = true)
    (h : ∀ a, RemovesAfter id (front ++ [⟨e, some a⟩]) (next a)) :
    RemovesAfter id front (.ask e next) := by
  refine ⟨fun _ => .inr ⟨rfl, ⟨e, none⟩, List.getLast?_concat, rfl, he⟩, fun a => (h a).imp ?_⟩
  intro log out hlog
  rwa [List.append_assoc, List.singleton_append] at hlog

/-- Without curl there is nothing to remove. -/
theorem removesAfter_done (hfront : ∀ x ∈ front, x.ask.kind ≠ .curl) (r : R) :
    RemovesAfter id front (.done r) := by
  rintro ⟨x, hx, hcurl⟩
  rw [List.append_nil] at hx
  exact absurd hcurl (hfront x hx)

theorem kind_of_openssl {log : List (Asked HttpAsk.Answer)}
    (h : (log.map (fun x => x.ask.kind)).Sublist [.openssl, .openssl]) :
    ∀ x ∈ log, x.ask.kind = .openssl := by
  intro x hx
  have hkind := h.subset (List.mem_map_of_mem hx)
  simpa using hkind

/-- What is asked behind the removals is no matter of files. -/
theorem removesAfter_removeFiles {next : HttpProgram R}
    (hnext : next.InOrder HttpAsk.kind [.openssl, .openssl])
    (hfront : ∃ x ∈ front, x.ask.kind = .curl) : RemovesAfter id front (removeFiles id next) := by
  refine removesAfter_ask rfl (fun _ => removesAfter_ask rfl (fun _ => ?_))
  refine Program.All.imp hnext (fun log out horder _ => .inl ?_)
  have hlog : ∀ x ∈ log, x.ask.kind ≠ .curl ∧ x.ask.kind ≠ .read := by
    intro x hx
    rw [kind_of_openssl horder x hx]
    exact ⟨nofun, nofun⟩
  obtain ⟨x, hx, hcurl⟩ := hfront
  refine List.forall_mem_cons.mpr ⟨?_, List.forall_mem_singleton.mpr ?_⟩
  · refine ⟨front, ⟨.remove (bodyPath id), some ()⟩ :: log, ?_, ⟨x, hx, hcurl⟩,
      List.forall_mem_cons.mpr ⟨⟨nofun, nofun⟩, hlog⟩⟩
    rw [List.append_assoc, List.append_assoc]
    rfl
  · refine ⟨front ++ [⟨.remove (headersPath id), some ()⟩], log, ?_,
      ⟨x, List.mem_append_left _ hx, hcurl⟩, hlog⟩
    rw [List.append_assoc]
    rfl

/-- The files that curl is told to write stand behind the options for them. -/
theorem files_in_curlArgs (table : CaseTable) (opts : HttpOptions) (ip id : Text) :
    ["-D".toList, headersPath id, "-o".toList, bodyPath id] <:+: opts.curlArgs table ip id := by
  unfold HttpOptions.curlArgs HttpOptions.buildCurlArgs
  simp only [List.append_assoc]
  refine List.IsInfix.trans ?_ (List.prefix_append _ _).isInfix
  exact ⟨["-sS".toList, "-k".toList, "-v".toList, "--compressed".toList, "--max-time".toList,
    "10".toList, "-X".toList, table.toUppercase opts.request.method, versionFlag opts.ipVersion],
    _, rfl⟩

theorem runRequest_removes (env : HttpSetting) (opts : HttpOptions) (id : Text) :
    RemovesAfter id [] (runRequest env opts id) := by
  unfold runRequest
  split
  · exact removesAfter_done (List.forall_mem_nil _) _
  · next haccepted =>
    have hpublic := (opts.validate_target.mp haccepted).1.2
    refine Program.all_bind.mpr (Program.All.imp (resolveTarget_asks hpublic) ?_)
    rintro log out ⟨hasks, -⟩
    have hlog : ∀ x ∈ log, x.ask.kind ≠ .curl := by
      intro x hx
      rw [(hasks x hx).2]
      exact nofun
    match out with
    | none =>
      rintro ⟨x, hx, hcurl⟩
      exact absurd hcurl (hlog x hx)
    | some (.error e) => exact removesAfter_done hlog _
    | some (.ok (ip, dnsMs)) =>
      refine removesAfter_ask rfl (fun answer => ?_)
      obtain ⟨stdout, verbose⟩ | e | _ := answer
      · refine removesAfter_ask rfl (fun headersFile => removesAfter_ask rfl (fun bodyFile =>
          removesAfter_removeFiles (finishHttp_inOrder _ _ _ _ _ _) ?_))
        exact ⟨_, List.mem_append_left _ (List.mem_append_left _ List.mem_concat_self), rfl⟩
      · exact removesAfter_removeFiles (Program.inOrder_done _) ⟨_, List.mem_concat_self, rfl⟩
      · exact removesAfter_removeFiles (Program.inOrder_done _) ⟨_, List.mem_concat_self, rfl⟩

/-- The removal of the two files that curl is told to write is asked behind it before a request
ends, whatever it comes to; only one that is dropped while it waits for curl or over the files can
leave that out. A curl whose time is up may still run then. -/
theorem request_removesFiles (env : HttpSetting) (opts : HttpOptions) (id : Text) :
    (runRequest env opts id).All (fun log out =>
      (∀ args answer, ⟨.curl args, answer⟩ ∈ log →
        ["-D".toList, headersPath id, "-o".toList, bodyPath id] <:+: args) ∧
      FilesRemoved id log out) := by
  refine ((runRequest_asks env opts id).and (runRequest_removes env opts id)).imp ?_
  rintro log out ⟨⟨hasks, -⟩, hremoved⟩
  refine ⟨fun args answer hmem => ?_, hremoved⟩
  obtain ⟨ip, -, rfl, -⟩ := hasks _ hmem
  exact files_in_curlArgs _ opts ip id

end Files

end GlobalpingProbe.Command.Http
