import Volto.Tunnel.Served

/-!
# The Targets of a Connection's Requests

Which addresses are dialled for a request, and what its refusal says of them. The addresses of a
target come from the resolver, and the policy and the host's own addresses leave some of them out;
what is left is dialled in the order of preference until one answers. A refusal carries its cause in
`Proxy-Status`, and a peer that reads the field as its grammar says gets the cause back.

## Main results

* `targets_dialled_in_order`: what is dialled for a request, and in which order.
* `refusals_say_why`: what a refusal says, and that nothing else would have been written like it.
-/

namespace Volto

namespace Tunnel

open Policy

namespace Handler

variable {ctx : Context} {facts : Facts} {target : Target}

/-! ### What is dialled -/

namespace Facts

/-- The addresses of a target as they were found: its own, or those that its lookup gave. -/
def resolved (facts : Facts) (target : Target) : List SocketAddr :=
  match literal target.host target.port with
  | some address => [address]
  | none =>
      match facts.found with
      | some (some (.ok addresses)) => addresses
      | _ => []

/-- They are tried in the order of preference. -/
theorem addresses_eq (ctx : Context) (facts : Facts) (target : Target) :
    facts.addresses ctx target =
      preferFamily (facts.resolved target) ctx.ipFamilyPreference := by
  have hnil : preferFamily [] ctx.ipFamilyPreference = [] := preferFamily_eq_nil.mpr rfl
  rw [addresses, resolved]
  cases literal target.host target.port with
  | some address => exact (preferFamily_singleton address _).symm
  | none =>
      rcases facts.found with _ | _ | error | addresses
      · exact hnil.symm
      · exact hnil.symm
      · exact hnil.symm
      · rfl

/-- The request was read, and this is its target, on a port that the policy allows. -/
def Targets (ctx : Context) (facts : Facts) (target : Target) : Prop :=
  (∃ req, facts.Read req ∧ targetOf ctx.percent req = .ok target) ∧
    ctx.policy.allowsPort target.port = true

end Facts

/-- **What has been dialled for a request**: addresses of its target in the order of preference,
none of which the policy or this host bars, and all but the last one have failed. -/
structure Dialled (ctx : Context) (facts : Facts) : Prop where
  clear : ∀ dial ∈ facts.dialled, facts.Clear ctx dial.1
  target : facts.dialled ≠ [] → ∃ target, facts.Targets ctx target ∧
    (facts.dialled.map Prod.fst).Sublist (facts.addresses ctx target)
  failed : ∀ dial ∈ facts.dialled.dropLast, ∃ error, dial.2 = some (.error error)

/-- Nothing has been dialled for a new request. -/
theorem dialled_new (ctx : Context) : Dialled ctx .new :=
  ⟨by rintro dial ⟨⟩, fun hne => absurd rfl hne, by rintro dial ⟨⟩⟩

/-- One more address, that may be dialled. -/
theorem Dialled.dial (h : Dialled ctx facts) {kind : Kind} {address : SocketAddr}
    (hdialable : facts.Dialable ctx kind address) (outcome : Option (Except IoError Unit)) :
    Dialled ctx { facts with dialled := facts.dialled ++ [(address, outcome)] } := by
  obtain ⟨target, ⟨⟨req, ⟨-, -, username, hread, -⟩, htarget⟩, hport⟩, -, hclear, hsublist,
    hfailed⟩ := hdialable
  refine ⟨fun dial hmem => ?_, fun _ => ⟨target, ⟨⟨req, hread, htarget⟩, hport⟩, ?_⟩, ?_⟩
  · rcases List.mem_append.mp hmem with hold | hnew
    · exact h.clear dial hold
    · rw [List.mem_singleton.mp hnew]
      exact hclear
  · rw [List.map_append]
    exact hsublist
  · rw [List.dropLast_concat]
    exact hfailed

/-- **The rule keeps what was dialled in order**: a lookup comes before the first dial, and a
request is read before that. -/
theorem dialled_note (h : Dialled ctx facts) {question : Question} (hmay : May ctx facts question)
    (reply : question.Reply) : Dialled ctx (facts.note question reply) := by
  cases question with
  | readRequest deadline =>
      refine ⟨h.clear, fun hne => ?_, h.failed⟩
      obtain ⟨target, ⟨⟨req, hread, -⟩, -⟩, -⟩ := h.target hne
      rw [Facts.Read, hmay.1] at hread
      cases hread
  | lookup host port deadline =>
      refine ⟨h.clear, fun hne => ?_, h.failed⟩
      obtain ⟨target, htargets, hsublist⟩ := h.target hne
      refine ⟨target, htargets, ?_⟩
      change (facts.dialled.map Prod.fst).Sublist _
      rw [Facts.addresses, hmay.1] at hsublist
      rw [Facts.addresses]
      cases hliteral : literal target.host target.port with
      | some address => simpa only [hliteral] using hsublist
      | none =>
          -- without a lookup there was nothing to dial
          rw [hliteral] at hsublist
          exact absurd (List.map_eq_nil_iff.mp (List.sublist_nil.mp hsublist)) hne
  | holdsAddress ip =>
      refine ⟨fun dial hmem => ?_, h.target, h.failed⟩
      obtain ⟨hallowed, hown⟩ := h.clear dial hmem
      exact ⟨hallowed, hown.imp id (List.mem_append_left _)⟩
  | connect address deadline => exact h.dial hmay reply
  | bind address => exact h.dial hmay (some reply)
  | now | stopReceiving _ | reset _ | finish | fail _ | respond _ _ | recordAuthFailure _ | close _
  | mark | admitConfiguredStreams | clearFailures _ | acquire | countTunnel | claimDatagrams
  | abortTarget | relay _ | dropReceiver _ | dropSlot | dropPending | announce =>
      exact ⟨h.clear, h.target, h.failed⟩

/-- Nothing is dialled for a name that the resolver has blackholed. -/
theorem Dialled.not_blackhole (h : Dialled ctx facts) (hne : facts.dialled ≠ [])
    (hsublist : (facts.dialled.map Prod.fst).Sublist (facts.addresses ctx target)) :
    isDnsBlackhole (facts.resolved target) = false := by
  rw [← Bool.not_eq_true]
  intro hblackhole
  obtain ⟨dial, hmem⟩ := List.exists_mem_of_ne_nil _ hne
  have hin : dial.1 ∈ facts.resolved target := by
    rw [Facts.addresses_eq] at hsublist
    exact (perm_preferFamily _ _).mem_iff.mp (hsublist.subset (List.mem_map_of_mem hmem))
  have hallowed : dial.1 ∈ ctx.policy.allowedAddresses (facts.resolved target) :=
    List.mem_filter.mpr ⟨hin, (h.clear dial hmem).1⟩
  rw [allowedAddresses_of_blackhole ctx.policy hblackhole] at hallowed
  exact List.not_mem_nil hallowed

/-! ### What a refusal says -/

/-- **Why a request is refused with an error**, by what is known of it, and the address that the
refusal is about. -/
inductive Explains (ctx : Context) (facts : Facts) : ProxyError → Option SocketAddr → Prop
  | limited (hslot : facts.slot = .refused) : Explains ctx facts .connectionLimitReached none
  | port {req : Request} {target : Target} (hread : facts.Read req)
      (htarget : targetOf ctx.percent req = .ok target)
      (hport : ctx.policy.allowsPort target.port = false) :
      Explains ctx facts .httpRequestDenied none
  | unresolved {found : Option (Except IoError (List SocketAddr))} {failure : ResolveFailure}
      (hfound : facts.found = some found) (hfailure : resolveFailureOf found = some failure) :
      Explains ctx facts failure.proxyError none
  | prohibited {target : Target} (htargets : facts.Targets ctx target)
      (hbarred : ∀ address ∈ facts.addresses ctx target, facts.Barred ctx address) :
      Explains ctx facts .destinationIpProhibited none
  /-- The last address that was dialled has failed. -/
  | unreachable {address : SocketAddr} {outcome : Option (Except IoError Unit)}
      {failure : Unreachable} (hlast : facts.dialled.getLast? = some (address, outcome))
      (hfailure : failureOf address outcome = some failure) :
      Explains ctx facts (.fromConnectError failure.error) (some address)

/-- A request that is being served was read, and has a target. -/
theorem Facts.Serving.targets (h : facts.Serving ctx target) : facts.Targets ctx target := by
  obtain ⟨⟨req, ⟨-, -, username, hread, -⟩, htarget⟩, hport⟩ := h
  exact ⟨⟨req, hread, htarget⟩, hport⟩

/-- What a failed attempt says names its address. -/
theorem nextHop_of_failureOf {address : SocketAddr} {outcome : Option (Except IoError Unit)}
    {failure : Unreachable} (h : failureOf address outcome = some failure) :
    failure.nextHop = some address := by
  match outcome with
  | none =>
      obtain rfl := Option.some.inj h
      rfl
  | some (.error error) =>
      obtain rfl := Option.some.inj h
      rfl

/-- **An answer with a cause is explained by it**; every other answer has no `Proxy-Status`. -/
theorem Due.explained {answer : Answer} (h : Due ctx facts answer) :
    answer.fields.get proxyStatus = none ∨ ∃ error nextHop, Explains ctx facts error nextHop ∧
      answer = ⟨error.recommendedStatus, error.fieldsWithNextHop nextHop⟩ := by
  have hbecause : ∀ error, Explains ctx facts error none →
      ∃ error' nextHop, Explains ctx facts error' nextHop ∧
        Answer.because error = ⟨error'.recommendedStatus, error'.fieldsWithNextHop nextHop⟩ :=
    fun error hexplains => ⟨error, none, hexplains, rfl⟩
  cases h with
  | tooLarge _ _ _ | malformed _ _ | notATarget _ _ | taken _ _ _ _ => exact .inl rfl
  | denied _ _ _ _ => exact .inl (by decide)
  | @blackhole target _ _ _ | @accepted target _ _ _ =>
      left
      cases target.kind <;> decide
  | limited _ hslot => exact .inr (hbecause _ (.limited hslot))
  | port hopen htarget hport =>
      obtain ⟨-, -, username, hread, -⟩ := hopen
      exact .inr (hbecause _ (.port hread htarget hport))
  | unresolved _ _ hfound hfailure => exact .inr (hbecause _ (.unresolved hfound hfailure))
  | prohibited hserving hbarred _ _ =>
      exact .inr (hbecause _ (.prohibited hserving.targets hbarred))
  | @unreachable target address outcome failure _ hlast hfailure _ =>
      refine .inr ⟨_, _, .unreachable hlast hfailure, ?_⟩
      rw [Answer.unreachable, nextHop_of_failureOf hfailure]

end Handler

namespace Serving

open Asking Handler

variable {tokio : Sync} {cfg : Config} {s : Server tokio}

/-- What was dialled for a request of a connection is in order. -/
theorem Tasks.dialled (h : Tasks cfg s) {task : Task} (hmem : task ∈ s.tasks) :
    Dialled cfg.ctx task.facts :=
  (h task hmem).invariant (dialled_new cfg.ctx) fun _ _ reply hdialled hmay =>
    dialled_note hdialled hmay reply

/-- **Targets are dialled in order**, whatever is interleaved. Every address that is dialled for a
request is one that its target was resolved to, that the policy allows, and that this host was not
found to hold; they are tried in the configured order of preference, each after the ones before it
have failed; and nothing is dialled for a name that the resolver has blackholed. -/
theorem targets_dialled_in_order (tokio : Sync) (cfg : Config) (dropped : UInt64)
    (events : List Event) :
    ∀ task ∈ ((Server.new tokio cfg dropped).run cfg events).tasks, task.facts.dialled ≠ [] →
      (∃ target, task.facts.Targets cfg.ctx target ∧
        Preferred cfg.ctx.ipFamilyPreference (task.facts.resolved target)
          (task.facts.dialled.map Prod.fst) ∧
        isDnsBlackhole (task.facts.resolved target) = false) ∧
      (∀ dial ∈ task.facts.dialled, task.facts.Clear cfg.ctx dial.1) ∧
      ∀ dial ∈ task.facts.dialled.dropLast, ∃ error, dial.2 = some (.error error) := by
  intro task hmem hne
  have hdialled := (Tasks.run tokio cfg dropped events).dialled hmem
  obtain ⟨target, htargets, hsublist⟩ := hdialled.target hne
  refine ⟨⟨target, htargets, ?_, hdialled.not_blackhole hne hsublist⟩, hdialled.clear,
    hdialled.failed⟩
  rw [Facts.addresses_eq] at hsublist
  exact preferred_of_sublist hsublist

/-- What comes of a question when the target's name has a private address and one of each family
that may be dialled, and none takes a connection. -/
def refusing (req : Request) : (question : Question) → question.Reply
  | .lookup _ port _ => some (.ok
      [.v4 (.new 10 0 0 1) port,
        .v6 ⟨#v[0x20, 0x01, 0x48, 0x60, 0, 0, 0, 0, 0, 0, 0, 0, 0, 0, 0x88, 0x88]⟩ port 0 0,
        .v4 (.new 8 8 8 8) port])
  | .connect _ _ => some (.error ⟨.connectionRefused, none⟩)
  | question => sending req question

/-- The private address is left out, and the other two are dialled as the resolver gave them. -/
theorem targets_dialled_in_order_refused :
    let cfg : Config := ⟨⟨⟨[]⟩, ⟨false, []⟩, 30, none, .system, percentDecodeStr⟩, 1, 1⟩
    let req : Request := ⟨.connect, none, some (ascii "dns.test:53"), none, none, none, []⟩
    let s := (Server.new .reference cfg 0).run cfg
      ([.arrive, .loop .select, .loop .next, .loop .next, .loop .next] ++
        List.replicate 22 (.task 0 (refusing req)))
    ∃ task, s.tasks = [task] ∧
      (task.facts.dialled.map fun dial => isIpv6 dial.1) = [true, false] ∧
      ∃ target, task.facts.Targets cfg.ctx target ∧
        (task.facts.dialled.map Prod.fst).Sublist (task.facts.resolved target) := by
  intro cfg req s
  have hlength : s.tasks.length = 1 := by decide +kernel
  obtain ⟨task, htask⟩ := List.length_eq_one_iff.mp hlength
  have hfamilies : s.tasks.map (fun task => task.facts.dialled.map fun dial => isIpv6 dial.1) =
      [[true, false]] := by
    decide +kernel
  rw [htask, List.map_singleton, List.singleton_inj] at hfamilies
  have hne : task.facts.dialled ≠ [] := by
    rintro hnil
    rw [hnil] at hfamilies
    cases hfamilies
  obtain ⟨⟨target, htargets, hpreferred, -⟩, -, -⟩ := targets_dialled_in_order .reference cfg 0 _
    task (htask ▸ List.mem_singleton_self task) hne
  exact ⟨task, htask, hfamilies, target, htargets, hpreferred⟩

/-- **A refusal says why**, whatever is interleaved. A response with a `Proxy-Status` field has the
status of an error that what was then known of the request explains. A peer that reads the value of
the field gets that error's token, and the address that was dialled last when the error is about it;
and what is written is written for no other error, and for no other address. -/
theorem refusals_say_why (tokio : Sync) (cfg : Config) (dropped : UInt64) (events : List Event) :
    ∀ task ∈ ((Server.new tokio cfg dropped).run cfg events).tasks,
      ∀ front answer deadline taken back,
        task.progress.asked = front ++ ⟨.respond answer deadline, taken⟩ :: back →
        ∀ value, answer.fields.get proxyStatus = some value →
          ∃ error nextHop, Explains cfg.ctx (knownAfter front) error nextHop ∧
            answer.status = error.recommendedStatus ∧
            readProxyStatus value.bytes = some (error.token,
              (nextHop.filter fun _ => error.disclosesNextHop).map SocketAddr.display) ∧
            ∀ error' nextHop', answer.fields = error'.fieldsWithNextHop nextHop' →
              error' = error ∧ (error.disclosesNextHop = true →
                nextHop'.map (fun address => (address.ip, address.port, address.scopeId)) =
                  nextHop.map fun address => (address.ip, address.port, address.scopeId)) := by
  intro task hmem front answer deadline taken back heq value hvalue
  have hsound := Tasks.run tokio cfg dropped events task hmem
  have hdue := (hsound.allowed front (.respond answer deadline) taken back heq).2
  rcases hdue.explained with hnone | ⟨error, nextHop, hexplains, rfl⟩
  · rw [hnone] at hvalue
    cases hvalue
  · obtain ⟨written, hfields, hread⟩ := error.readProxyStatus_fieldsWithNextHop nextHop
    have hsame : written = value := by
      rw [hfields] at hvalue
      exact Option.some.inj hvalue
    rw [hsame] at hread
    refine ⟨error, nextHop, hexplains, rfl, hread, fun error' nextHop' hfields' => ?_⟩
    obtain ⟨rfl, hhop⟩ := ProxyError.fieldsWithNextHop_inj hfields'
    exact ⟨rfl, fun hdiscloses => (hhop hdiscloses).symm⟩

/-- The refusal of a request of which two addresses refused a connection names the second. -/
theorem refusals_say_why_refused :
    let cfg : Config := ⟨⟨⟨[]⟩, ⟨false, []⟩, 30, none, .system, percentDecodeStr⟩, 1, 1⟩
    let req : Request := ⟨.connect, none, some (ascii "dns.test:53"), none, none, none, []⟩
    let s := (Server.new .reference cfg 0).run cfg
      ([.arrive, .loop .select, .loop .next, .loop .next, .loop .next] ++
        List.replicate 22 (.task 0 (refusing req)))
    ∃ task ∈ s.tasks, ∃ front error nextHop, front <+: task.progress.asked ∧
      Explains cfg.ctx (knownAfter front) error nextHop ∧
      error.token = ascii "connection_refused" ∧
      nextHop.map SocketAddr.display = some (ascii "8.8.8.8:53") := by
  intro cfg req s
  have hnamed : s.tasks.any (fun task => task.progress.asked.any fun entry =>
      (response entry).any fun answered => (answered.1.fields.get proxyStatus).any fun value =>
        decide (readProxyStatus value.bytes =
          some (ascii "connection_refused", some (ascii "8.8.8.8:53")))) = true := by
    decide +kernel
  obtain ⟨task, hmem, hentries⟩ := List.any_eq_true.mp hnamed
  obtain ⟨entry, hentry, hsome⟩ := List.any_eq_true.mp hentries
  obtain ⟨⟨answer, taken⟩, hresponse, hfield⟩ := (Option.any_eq_true _ _).mp hsome
  obtain ⟨value, hvalue, hread⟩ := (Option.any_eq_true _ _).mp hfield
  obtain ⟨deadline, rfl⟩ := response_eq_some hresponse
  obtain ⟨front, back, heq⟩ := List.append_of_mem hentry
  obtain ⟨error, nextHop, hexplains, -, hsays, -⟩ := refusals_say_why .reference cfg 0 _ task hmem
    front answer deadline taken back heq value hvalue
  rw [of_decide_eq_true hread, Option.some.injEq, Prod.mk.injEq] at hsays
  obtain ⟨address, hfilter, hdisplay⟩ := Option.map_eq_some_iff.mp hsays.2.symm
  rw [(Option.filter_eq_some_iff.mp hfilter).1] at hexplains
  exact ⟨task, hmem, front, error, some address, ⟨_, heq.symm⟩, hexplains, hsays.1.symm,
    congrArg some hdisplay⟩

end Serving

end Tunnel

end Volto
