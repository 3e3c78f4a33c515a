import Volto.Tunnel.Handler

/-!
# What a Request May Cause

The rule that the handling of a request keeps, stated over what is known of the request at each
point: when a credential may be charged and when a slot may be taken, what may be looked up and
dialled, and which answer is due. The rule names no order of events of its own; the order is what
the conditions on the known facts leave possible.

## Main results

* `keeps_serve`: the task of a request stream keeps the rule, whatever it is answered.
* `guarded_note`: under the rule, a request that has given back its guard stays over.
-/

namespace Volto

namespace Tunnel

open Policy Asking

namespace Handler

/-! ### What is known -/

/-- How a request stands to its slot. -/
inductive Holding
  | untaken
  | refused
  | held
  | dropped
deriving DecidableEq, Repr

/-- What is known of a request. -/
structure Facts where
  /-- What reading it came to. -/
  read : Option (Option (Except (ReadError Unit) Request))
  /-- The failures that were charged, each with whether it was one too many. -/
  charged : List (Option String × Bool)
  /-- Whether it found the gate closed, once it has opened it. -/
  marked : Option Bool
  raised : Bool
  /-- The users as whom failures were cleared. -/
  cleared : List (Option String)
  closed : Bool
  slot : Holding
  /-- What claiming the datagrams came to. -/
  claimed : Option (Option ℕ)
  /-- The receiver that is held. -/
  receiver : Option ℕ
  found : Option (Option (Except IoError (List SocketAddr)))
  /-- The addresses this host was asked about, each with whether it holds it. -/
  judged : List (IpAddr × Bool)
  /-- The addresses that were dialled, each with what came of it. -/
  dialled : List (SocketAddr × Option (Except IoError Unit))
  /-- The response, with what became of it. -/
  answered : Option (Answer × Option (Except Unit Unit))
  pending : Bool
  /-- Whether a guard has been given back and not been announced. -/
  announcing : Bool

namespace Facts

/-- A request stream that has just been accepted. -/
def new : Facts where
  read := none
  charged := []
  marked := none
  raised := false
  cleared := []
  closed := false
  slot := .untaken
  claimed := none
  receiver := none
  found := none
  judged := []
  dialled := []
  answered := none
  pending := true
  announcing := false

/-- What a question adds with its answer. -/
def note (facts : Facts) : (question : Question) → question.Reply → Facts
  | .readRequest _, read => { facts with read := some read }
  | .recordAuthFailure claim, spent => { facts with charged := facts.charged ++ [(claim, spent)] }
  | .mark, first => { facts with marked := some first }
  | .admitConfiguredStreams, _ => { facts with raised := true }
  | .clearFailures username, _ => { facts with cleared := facts.cleared ++ [username] }
  | .close _, _ => { facts with closed := true }
  | .acquire, taken => { facts with slot := if taken then .held else .refused }
  | .claimDatagrams, claimed => { facts with claimed := some claimed, receiver := claimed }
  | .lookup _ _ _, found => { facts with found := some found }
  | .holdsAddress ip, held => { facts with judged := facts.judged ++ [(ip, held)] }
  | .connect address _, outcome => { facts with dialled := facts.dialled ++ [(address, outcome)] }
  | .bind address, outcome => { facts with dialled := facts.dialled ++ [(address, some outcome)] }
  | .respond answer _, taken => { facts with answered := some (answer, taken) }
  | .dropReceiver _, _ => { facts with receiver := none }
  | .dropSlot, _ => { facts with slot := .dropped, announcing := true }
  | .dropPending, _ => { facts with pending := false, announcing := true }
  | .announce, _ => { facts with announcing := false }
  | _, _ => facts

/-- The slots a request holds: one or none. -/
def slots (facts : Facts) : ℕ :=
  match facts.slot with
  | .held => 1
  | .untaken | .refused | .dropped => 0

/-- Its guards against the end of a drain. -/
def pendings (facts : Facts) : ℕ :=
  facts.pending.toNat

/-- What it has given back and not announced. -/
def releasing (facts : Facts) : ℕ :=
  facts.announcing.toNat

/-- The request that was read. -/
def Read (facts : Facts) (req : Request) : Prop :=
  facts.read = some (some (.ok req))

end Facts

/-- What every request has to be, whoever sends it. -/
def Screened (req : Request) : Prop :=
  connectionSpecificField req = none ∧ credentialValues req.fields ≤ maxCredentialValues

/-- **A request that is let in** carries the credential of a configured user, or there are none. -/
def Admitted (auth : Authenticator) (req : Request) : Option String → Prop
  | none => auth.users = []
  | some name => ∃ user ∈ auth.users, user.username = name ∧
      ∃ value ∈ credentials req.fields, Admits value user

variable (ctx : Context)

namespace Facts

/-- The request was let in. -/
def LetIn (facts : Facts) (req : Request) (username : Option String) : Prop :=
  facts.Read req ∧ Screened req ∧ Admitted ctx.auth req username

/-- The request was let in, holds a slot, and has not been answered. -/
def Open (facts : Facts) (req : Request) : Prop :=
  facts.slot = .held ∧ facts.answered = none ∧ ∃ username, facts.LetIn ctx req username

/-- The request is being served, on a target that its port does not rule out. -/
def Serving (facts : Facts) (target : Target) : Prop :=
  (∃ req, facts.Open ctx req ∧ targetOf ctx.percent req = .ok target) ∧
    ctx.policy.allowsPort target.port = true

/-- The addresses of a target: its own, or those that its lookup found. -/
def addresses (facts : Facts) (target : Target) : List SocketAddr :=
  match literal target.host target.port with
  | some address => [address]
  | none =>
      match facts.found with
      | some (some (.ok addresses)) => preferFamily addresses ctx.ipFamilyPreference
      | _ => []

/-- The policy allows the address, and this host was not found to hold it. -/
def Clear (facts : Facts) (address : SocketAddr) : Prop :=
  ctx.policy.allowsAddress address.ip = true ∧
    (isLoopback (canonical address.ip) = true ∨ (canonical address.ip, false) ∈ facts.judged)

/-- The policy does not allow the address, or this host was found to hold it. -/
def Barred (facts : Facts) (address : SocketAddr) : Prop :=
  ctx.policy.allowsAddress address.ip = false ∨ (canonical address.ip, true) ∈ facts.judged

/-- **An address that may be dialled** for a target: one of its own that nothing bars, after those
that came before it have failed. -/
def Dialable (facts : Facts) (kind : Kind) (address : SocketAddr) : Prop :=
  ∃ target, facts.Serving ctx target ∧ target.kind = kind ∧ facts.Clear ctx address ∧
    (facts.dialled.map Prod.fst ++ [address]).Sublist (facts.addresses ctx target) ∧
    ∀ dial ∈ facts.dialled, ∃ error, dial.2 = some (.error error)

end Facts

/-- What an attempt that did not succeed says about its address. -/
def failureOf (address : SocketAddr) : Option (Except IoError Unit) → Option Unreachable
  | none => some ⟨some address, ⟨.timedOut, none⟩⟩
  | some (.error error) => some ⟨some address, error⟩
  | some (.ok ()) => none

/-- What a lookup that gave nothing says. -/
def resolveFailureOf : Option (Except IoError (List SocketAddr)) → Option ResolveFailure
  | none => some .timedOut
  | some (.error error) => some (.failed error)
  | some (.ok []) => some (.failed ⟨.other, none⟩)
  | some (.ok (_ :: _)) => none

/-- **The answer that is due**, by what is known. -/
inductive Due (facts : Facts) : Answer → Prop
  | tooLarge {violation : Violation}
      (hread : facts.read = some (some (.error (.violation violation))))
      (hlarge : violation.isFieldSectionTooLarge = true)
      (hstream : violation.isConnectionError = false) :
      Due facts (.plain .requestHeaderFieldsTooLarge)
  | malformed {req : Request} (hread : facts.Read req) (hscreen : ¬Screened req) :
      Due facts (.plain .badRequest)
  | denied {req : Request} {denials : Denials} (hread : facts.Read req) (hscreen : Screened req)
      (hdenied : ctx.auth.authenticate req.fields = .error denials)
      (hcharged : facts.charged = denials.claims.map fun claim => (claim, false)) :
      Due facts ⟨.proxyAuthenticationRequired, challengeFields⟩
  | limited {req : Request} {username : Option String} (hin : facts.LetIn ctx req username)
      (hslot : facts.slot = .refused) : Due facts (.because .connectionLimitReached)
  | notATarget {req : Request} {status : Status} (hopen : facts.Open ctx req)
      (htarget : targetOf ctx.percent req = .error status) : Due facts (.plain status)
  | taken {req : Request} {target : Target} (hopen : facts.Open ctx req)
      (htarget : targetOf ctx.percent req = .ok target) (hkind : target.kind = .udp)
      (hclaimed : facts.claimed = some none) : Due facts (.plain .internalServerError)
  | port {req : Request} {target : Target} (hopen : facts.Open ctx req)
      (htarget : targetOf ctx.percent req = .ok target)
      (hport : ctx.policy.allowsPort target.port = false) :
      Due facts (.because .httpRequestDenied)
  | unresolved {target : Target} {found : Option (Except IoError (List SocketAddr))}
      {failure : ResolveFailure} (hserving : facts.Serving ctx target)
      (hliteral : literal target.host target.port = none) (hfound : facts.found = some found)
      (hfailure : resolveFailureOf found = some failure) :
      Due facts (.because failure.proxyError)
  | blackhole {target : Target} (hserving : facts.Serving ctx target)
      (hbarred : ∀ address ∈ facts.addresses ctx target, facts.Barred ctx address)
      (hblackhole : isDnsBlackhole (facts.addresses ctx target) = true) :
      Due facts ⟨.ok, target.kind.acceptedFields⟩
  | prohibited {target : Target} (hserving : facts.Serving ctx target)
      (hbarred : ∀ address ∈ facts.addresses ctx target, facts.Barred ctx address)
      (hnone : facts.addresses ctx target ≠ [])
      (hblackhole : isDnsBlackhole (facts.addresses ctx target) = false) :
      Due facts (.because .destinationIpProhibited)
  | unreachable {target : Target} {address : SocketAddr}
      {outcome : Option (Except IoError Unit)} {failure : Unreachable}
      (hserving : facts.Serving ctx target)
      (hlast : facts.dialled.getLast? = some (address, outcome))
      (hfailure : failureOf address outcome = some failure)
      (hall : outcome = none ∨ ∀ address ∈ facts.addresses ctx target,
        facts.Barred ctx address ∨ address ∈ facts.dialled.map Prod.fst) :
      Due facts (.unreachable failure)
  | accepted {target : Target} {address : SocketAddr} (hserving : facts.Serving ctx target)
      (hlast : facts.dialled.getLast? = some (address, some (.ok ()))) :
      Due facts ⟨.ok, target.kind.acceptedFields⟩

namespace Facts

/-- **A request that is over** but for its guard: it was answered, unless it was never read or its
connection was closed for it, and it holds nothing any more. -/
structure Rested (facts : Facts) : Prop where
  answered : facts.answered.isSome = true ∨ facts.closed = true ∨ ∀ req, ¬facts.Read req
  slot : facts.slot ≠ .held
  receiver : facts.receiver = none
  pending : facts.pending = true
  announcing : facts.announcing = false

end Facts

/-- **The rule**: what a request may cause, by what is known of it. -/
def May (facts : Facts) : Question → Prop
  | .readRequest _ => facts.read = none ∧ facts.pending = true
  | .respond answer _ => facts.answered = none ∧ Due ctx facts answer
  | .recordAuthFailure claim => facts.answered = none ∧ ∃ req denials, facts.Read req ∧
      Screened req ∧ ctx.auth.authenticate req.fields = .error denials ∧
      facts.charged.map Prod.fst ++ [claim] <+: denials.claims
  | .close code => code = authFailureLimitCode ∧ facts.answered = none ∧
      ∃ req denials, facts.Read req ∧ ctx.auth.authenticate req.fields = .error denials ∧
        facts.charged.map Prod.fst = denials.claims ∧ ∃ charge ∈ facts.charged, charge.2 = true
  | .mark => facts.marked = none ∧ ∃ req username, facts.LetIn ctx req username
  | .admitConfiguredStreams => facts.marked = some true ∧ facts.raised = false
  | .clearFailures username => facts.cleared = [] ∧ facts.marked.isSome = true ∧
      ∃ req, facts.LetIn ctx req username
  | .acquire => facts.slot = .untaken ∧ facts.answered = none ∧
      ∃ req username, facts.LetIn ctx req username ∧ facts.cleared = [username]
  | .countTunnel => facts.slot = .held
  | .claimDatagrams => facts.claimed = none ∧ ∃ req target, facts.Open ctx req ∧
      targetOf ctx.percent req = .ok target ∧ target.kind = .udp
  | .lookup host port _ => facts.found = none ∧ ∃ kind, facts.Serving ctx ⟨kind, host, port⟩
  | .connect address _ => facts.Dialable ctx .tcp address
  | .bind address => facts.Dialable ctx .udp address
  | .relay kind => facts.slot = .held ∧
      facts.answered = some (⟨.ok, kind.acceptedFields⟩, some (.ok ())) ∧
      ∃ address, facts.dialled.getLast? = some (address, some (.ok ()))
  | .dropReceiver i => facts.receiver = some i
  | .dropSlot => facts.slot = .held ∧ facts.receiver = none ∧ facts.announcing = false ∧
      facts.answered.isSome = true
  | .dropPending => facts.Rested
  | .announce => facts.announcing = true
  | _ => True

/-- A task that is over: its request was, and its guard has been given back. -/
structure Settled (facts : Facts) : Prop where
  answered : facts.answered.isSome = true ∨ facts.closed = true ∨ ∀ req, ¬facts.Read req
  slot : facts.slot ≠ .held
  receiver : facts.receiver = none
  pending : facts.pending = false
  announcing : facts.announcing = false

variable {ctx} {facts : Facts} {α : Type}

/-! ### Answers -/

/-- Programs of a request task that keep the rule. -/
abbrev Keeping (ctx : Context) (post : Facts → α → Prop) : Facts → Handling α → Prop :=
  Keeps Facts.note (May ctx) post

/-- A due answer to an unanswered request keeps the rule. -/
theorem keeps_respond {answer : Answer} {post : Facts → Responded → Prop}
    (hnone : facts.answered = none) (hdue : Due ctx facts answer)
    (hpost : ∀ taken responded, (responded = .sent → taken = some (.ok ())) →
      post { facts with answered := some (answer, taken) } responded) :
    Keeping ctx post facts (respond ctx answer) := by
  rw [respond, Keeping, keeps_question_bind]
  refine ⟨trivial, fun now => ?_⟩
  rw [keeps_question_bind]
  refine ⟨⟨hnone, hdue⟩, fun taken => ?_⟩
  match taken with
  | some (.ok ()) => exact hpost _ _ fun _ => rfl
  | some (.error ()) => exact hpost _ _ fun hsent => by cases hsent
  | none =>
      rw [keeps_question_bind]
      exact ⟨trivial, fun _ => hpost _ _ fun hsent => by cases hsent⟩

/-- A due answer that ends the request keeps the rule. -/
theorem keeps_answerAndClose {answer : Answer} {post : Facts → Unit → Prop}
    (hnone : facts.answered = none) (hdue : Due ctx facts answer)
    (hpost : ∀ taken, post { facts with answered := some (answer, taken) } ()) :
    Keeping ctx post facts (answerAndClose ctx answer) := by
  rw [answerAndClose, Keeping, keeps_question_bind]
  refine ⟨trivial, fun _ => keeps_bind.mpr (keeps_respond hnone hdue fun taken responded _ => ?_)⟩
  cases responded with
  | sent => exact ⟨trivial, fun _ => hpost taken⟩
  | failed | expired => exact hpost taken

/-! ### Lookups -/

/-- Reading the clock keeps the rule. -/
theorem keeps_deadlineAfter {budget : Option ℕ} {post : Facts → Option ℕ → Prop}
    (hpost : ∀ deadline, post facts deadline) :
    Keeping ctx post facts (deadlineAfter budget) := by
  cases budget with
  | none => exact hpost none
  | some budget => exact ⟨trivial, fun now => hpost (some (now + budget))⟩

/-- A lookup that is asked for once, of the named host, keeps the rule. -/
theorem keeps_resolveWithin {kind : Kind} {host : List UInt8} {port : UInt16}
    {post : Facts → Except ResolveFailure (List SocketAddr) → Prop}
    (hserving : facts.Serving ctx ⟨kind, host, port⟩) (hfound : facts.found = none)
    (hok : ∀ found addresses, addresses ≠ [] →
      { facts with found := found }.addresses ctx ⟨kind, host, port⟩ = addresses →
      post { facts with found := found } (.ok addresses))
    (herror : ∀ found failure, Due ctx { facts with found := found } (.because failure.proxyError) →
      post { facts with found := found } (.error failure)) :
    Keeping ctx post facts (resolveWithin ctx host port) := by
  rw [resolveWithin]
  cases hliteral : literal host port with
  | some address =>
      refine hok facts.found _ ?_ ?_
      · simp
      · simp [Facts.addresses, hliteral]
  | none =>
      refine keeps_bind.mpr (keeps_deadlineAfter fun deadline => ?_)
      rw [keeps_question_bind]
      refine ⟨⟨hfound, kind, hserving⟩, fun found => ?_⟩
      match found with
      | none => exact herror _ _ (.unresolved hserving hliteral rfl rfl)
      | some (.error error) => exact herror _ _ (.unresolved hserving hliteral rfl rfl)
      | some (.ok []) => exact herror _ _ (.unresolved hserving hliteral rfl rfl)
      | some (.ok (address :: addresses)) =>
          refine hok _ _ (mt preferFamily_eq_nil.mp (List.cons_ne_nil _ _)) ?_
          simp only [Facts.addresses, hliteral]

/-- What is left of the addresses: those this host does not hold. -/
theorem keeps_retainOthers {addresses : List SocketAddr} {post : Facts → List SocketAddr → Prop}
    (hpost : ∀ judged others, others.Sublist addresses →
      (∀ address ∈ others, isLoopback (canonical address.ip) = true ∨
        (canonical address.ip, false) ∈ judged) →
      (∀ address ∈ addresses, address ∈ others ∨ (canonical address.ip, true) ∈ judged) →
      post { facts with judged := facts.judged ++ judged } others) :
    Keeping ctx post facts (retainOthers addresses) := by
  induction addresses generalizing facts post with
  | nil =>
      have hnil := hpost [] [] (List.Sublist.refl _) (by simp) (by simp)
      rw [List.append_nil] at hnil
      exact hnil
  | cons address addresses ih =>
      rw [retainOthers, Keeping, keeps_bind, isTheProxysOwn]
      split_ifs with hloopback
      · refine keeps_bind.mpr (ih fun judged others hsub hclear hbarred => ?_)
        refine hpost judged (address :: others) (hsub.cons_cons _) ?_ ?_
        · intro a ha
          rcases List.mem_cons.mp ha with rfl | ha
          · exact .inl hloopback
          · exact hclear a ha
        · intro a ha
          rcases List.mem_cons.mp ha with rfl | ha
          · exact .inl List.mem_cons_self
          · exact (hbarred a ha).imp_left (List.mem_cons_of_mem _)
      · refine ⟨trivial, fun own => keeps_bind.mpr (ih fun judged others hsub hclear hbarred => ?_)⟩
        have hjudged : facts.judged ++ [(canonical address.ip, own)] ++ judged =
            facts.judged ++ ((canonical address.ip, own) :: judged) := by simp
        simp only [Facts.note, hjudged]
        cases own with
        | true =>
            refine hpost _ others (hsub.cons _) ?_ ?_
            · exact fun a ha => (hclear a ha).imp_right (List.mem_cons_of_mem _)
            · intro a ha
              rcases List.mem_cons.mp ha with rfl | ha
              · exact .inr List.mem_cons_self
              · exact (hbarred a ha).imp_right (List.mem_cons_of_mem _)
        | false =>
            refine hpost _ (address :: others) (hsub.cons_cons _) ?_ ?_
            · intro a ha
              rcases List.mem_cons.mp ha with rfl | ha
              · exact .inr List.mem_cons_self
              · exact (hclear a ha).imp_right (List.mem_cons_of_mem _)
            · intro a ha
              rcases List.mem_cons.mp ha with rfl | ha
              · exact .inl List.mem_cons_self
              · exact (hbarred a ha).imp (List.mem_cons_of_mem _) (List.mem_cons_of_mem _)

/-! ### Dialling -/

/-- **How far a target has been dialled**: `rest` is what may still be, and everything before it has
failed. -/
structure Dialling (ctx : Context) (facts : Facts) (target : Target) (rest : List SocketAddr) :
    Prop where
  serving : facts.Serving ctx target
  order : (facts.dialled.map Prod.fst ++ rest).Sublist (facts.addresses ctx target)
  begun : facts.dialled = [] → rest ≠ []
  clear : ∀ address ∈ rest, facts.Clear ctx address
  all : ∀ address ∈ facts.addresses ctx target,
    facts.Barred ctx address ∨ address ∈ facts.dialled.map Prod.fst ∨ address ∈ rest
  failed : ∀ dial ∈ facts.dialled, ∃ error, dial.2 = some (.error error)

section

variable {target : Target} {address : SocketAddr} {rest : List SocketAddr}

/-- The failure of the last attempt. -/
def Facts.lastFailure (facts : Facts) : Option Unreachable :=
  facts.dialled.getLast?.bind fun dial => failureOf dial.1 dial.2

/-- The next address may be dialled. -/
theorem Dialling.dialable (h : Dialling ctx facts target (address :: rest)) :
    facts.Dialable ctx target.kind address := by
  refine ⟨target, h.serving, rfl, h.clear address List.mem_cons_self, ?_, h.failed⟩
  refine List.Sublist.trans ?_ h.order
  exact List.Sublist.append_left (List.Sublist.cons_cons _ (List.nil_sublist rest)) _

/-- An attempt that failed leaves the others. -/
theorem Dialling.fail (h : Dialling ctx facts target (address :: rest)) (error : IoError) :
    Dialling ctx { facts with dialled := facts.dialled ++ [(address, some (.error error))] }
      target rest where
  serving := h.serving
  order := by
    rw [List.map_append, List.append_assoc]
    exact h.order
  begun := by simp
  clear a ha := h.clear a (List.mem_cons_of_mem _ ha)
  all a ha := by
    refine (h.all a ha).imp_right fun hin => ?_
    rw [List.map_append, List.mem_append]
    rcases hin with hin | hin
    · exact .inl (.inl hin)
    · rcases List.mem_cons.mp hin with rfl | hin
      · exact .inl (.inr (by simp))
      · exact .inr hin
  failed dial hmem := by
    rcases List.mem_append.mp hmem with hmem | hmem
    · exact h.failed dial hmem
    · exact ⟨error, by rw [List.mem_singleton.mp hmem]⟩

/-- Behind a dial that was accepted, success is due. -/
theorem Dialling.due_accepted (h : Dialling ctx facts target (address :: rest)) :
    Due ctx { facts with dialled := facts.dialled ++ [(address, some (.ok ()))] }
      ⟨.ok, target.kind.acceptedFields⟩ :=
  .accepted h.serving List.getLast?_concat

/-- Behind a dial the deadline ended, a timeout is due. -/
theorem Dialling.due_expired (h : Dialling ctx facts target (address :: rest)) :
    Due ctx { facts with dialled := facts.dialled ++ [(address, none)] }
      (.unreachable ⟨some address, ⟨.timedOut, none⟩⟩) :=
  .unreachable h.serving List.getLast?_concat rfl (.inl rfl)

/-- When nothing is left, the last attempt has failed. -/
theorem Dialling.due_unreachable (h : Dialling ctx facts target []) :
    ∃ failure, facts.lastFailure = some failure ∧ Due ctx facts (.unreachable failure) := by
  have hne : facts.dialled ≠ [] := fun hnil => h.begun hnil rfl
  obtain ⟨dial, hdial⟩ := Option.ne_none_iff_exists'.mp (mt List.getLast?_eq_none_iff.mp hne)
  obtain ⟨error, herror⟩ := h.failed dial (List.mem_of_getLast? hdial)
  have hfailure : failureOf dial.1 dial.2 = some ⟨some dial.1, error⟩ := by
    rw [herror]
    rfl
  refine ⟨_, by rw [Facts.lastFailure, hdial]; exact hfailure, .unreachable h.serving hdial
    hfailure (.inr fun a ha => ?_)⟩
  simpa using h.all a ha

end

/-- The addresses of a target that may be dialled, when there are some. -/
theorem keeps_admitTarget {req : Request} {kind : Kind} {host : List UInt8} {port : UInt16}
    {post : Facts → Option (List SocketAddr) → Prop} (hopen : facts.Open ctx req)
    (htarget : targetOf ctx.percent req = .ok ⟨kind, host, port⟩) (hfound : facts.found = none)
    (hdialled : facts.dialled = [])
    (hnone : ∀ found judged answer,
      post { facts with found := found, judged := judged, answered := some answer } none)
    (hsome : ∀ found judged allowed,
      Dialling ctx { facts with found := found, judged := judged } ⟨kind, host, port⟩ allowed →
      post { facts with found := found, judged := judged } (some allowed)) :
    Keeping ctx post facts (admitTarget ctx kind host port) := by
  have hunanswered : facts.answered = none := hopen.2.1
  rw [admitTarget]
  split_ifs with hport
  · have hserving : facts.Serving ctx ⟨kind, host, port⟩ := ⟨⟨req, hopen, htarget⟩, hport⟩
    refine keeps_bind.mpr (keeps_resolveWithin hserving hfound ?_ ?_)
    · intro found addresses hne haddresses
      refine keeps_bind.mpr (keeps_retainOthers fun judged others hsub hclear hbarred => ?_)
      -- an address that is not left is barred, by the policy or by this host
      have hall : ∀ address ∈ addresses,
          Facts.Barred ctx { facts with found := found, judged := facts.judged ++ judged } address ∨
            address ∈ others := by
        intro address hmem
        by_cases hallowed : ctx.policy.allowsAddress address.ip = true
        · rcases hbarred address (List.mem_filter.mpr ⟨hmem, hallowed⟩) with hin | hheld
          · exact .inr hin
          · exact .inl (.inr (List.mem_append_right _ hheld))
        · exact .inl (.inl (Bool.not_eq_true _ ▸ hallowed))
      have hserving' : Facts.Serving ctx
          { facts with found := found, judged := facts.judged ++ judged } ⟨kind, host, port⟩ :=
        hserving
      split_ifs with hnil hblackhole
      · refine keeps_bind.mpr (keeps_answerAndClose hunanswered ?_ fun taken => hnone _ _ _)
        refine .blackhole hserving' ?_ (haddresses ▸ hblackhole)
        intro address hmem
        exact (hall address (haddresses ▸ hmem)).resolve_right (by simp [hnil])
      · refine keeps_bind.mpr (keeps_answerAndClose hunanswered ?_ fun taken => hnone _ _ _)
        refine .prohibited hserving' ?_ (haddresses ▸ hne)
          (haddresses ▸ Bool.not_eq_true _ ▸ hblackhole)
        intro address hmem
        exact (hall address (haddresses ▸ hmem)).resolve_right (by simp [hnil])
      · refine hsome _ _ others ⟨hserving, ?_, fun _ => hnil, ?_, ?_, ?_⟩
        · rw [hdialled]
          exact haddresses ▸ hsub.trans List.filter_sublist
        · intro address hmem
          refine ⟨(List.mem_filter.mp (hsub.subset hmem)).2, ?_⟩
          exact (hclear address hmem).imp_right (List.mem_append_right _)
        · intro address hmem
          exact (hall address (haddresses ▸ hmem)).imp_right .inr
        · rw [hdialled]
          exact fun dial hmem => absurd hmem List.not_mem_nil
    · intro found failure hdue
      exact keeps_bind.mpr (keeps_answerAndClose hunanswered hdue fun taken => hnone _ _ _)
  · refine keeps_bind.mpr (keeps_answerAndClose hunanswered ?_ fun taken => hnone _ _ _)
    exact .port hopen htarget (Bool.not_eq_true _ ▸ hport)

section

variable {target : Target} {addresses : List SocketAddr} {last : Option Unreachable}
  {post : Facts → Except Unreachable Unit → Prop}

/-- The last failure is that of the last dial. -/
theorem lastFailure_concat {address : SocketAddr} {error : IoError} :
    Facts.lastFailure { facts with
      dialled := facts.dialled ++ [(address, some (.error error))] } =
      some ⟨some address, error⟩ := by
  rw [Facts.lastFailure, List.getLast?_concat]
  rfl

/-- Dialling the addresses in turn keeps the rule. The induction is on the addresses left. -/
theorem keeps_connectAnyWith (deadline : Option ℕ) (h : Dialling ctx facts target addresses)
    (hkind : target.kind = .tcp) (hlast : last = facts.lastFailure)
    (hok : ∀ dialled address, dialled.getLast? = some (address, some (.ok ())) →
      Due ctx { facts with dialled := dialled } ⟨.ok, target.kind.acceptedFields⟩ →
      post { facts with dialled := dialled } (.ok ()))
    (herror : ∀ dialled failure, Due ctx { facts with dialled := dialled } (.unreachable failure) →
      post { facts with dialled := dialled } (.error failure)) :
    Keeping ctx post facts (connectAnyWith deadline last addresses) := by
  induction addresses generalizing facts last with
  | nil =>
      obtain ⟨failure, hfailure, hdue⟩ := h.due_unreachable
      rw [connectAnyWith, hlast, hfailure]
      exact herror facts.dialled failure hdue
  | cons address addresses ih =>
      rw [connectAnyWith, Keeping, keeps_question_bind]
      have hmay : facts.Dialable ctx .tcp address := hkind ▸ h.dialable
      refine ⟨hmay, fun outcome => ?_⟩
      match outcome with
      | none => exact herror _ _ h.due_expired
      | some (.ok ()) => exact hok _ _ List.getLast?_concat h.due_accepted
      | some (.error error) => exact ih (h.fail error) lastFailure_concat.symm hok herror

/-- Binding towards the addresses in turn keeps the rule. The induction is on the addresses left.
-/
theorem keeps_bindAny (h : Dialling ctx facts target addresses) (hkind : target.kind = .udp)
    (hlast : last = facts.lastFailure)
    (hok : ∀ dialled address, dialled.getLast? = some (address, some (.ok ())) →
      Due ctx { facts with dialled := dialled } ⟨.ok, target.kind.acceptedFields⟩ →
      post { facts with dialled := dialled } (.ok ()))
    (herror : ∀ dialled failure, Due ctx { facts with dialled := dialled } (.unreachable failure) →
      post { facts with dialled := dialled } (.error failure)) :
    Keeping ctx post facts (bindAny last addresses) := by
  induction addresses generalizing facts last with
  | nil =>
      obtain ⟨failure, hfailure, hdue⟩ := h.due_unreachable
      rw [bindAny, hlast, hfailure]
      exact herror facts.dialled failure hdue
  | cons address addresses ih =>
      rw [bindAny, Keeping, keeps_question_bind]
      have hmay : facts.Dialable ctx .udp address := hkind ▸ h.dialable
      refine ⟨hmay, fun outcome => ?_⟩
      match outcome with
      | .ok () => exact hok _ _ List.getLast?_concat h.due_accepted
      | .error error => exact ih (h.fail error) lastFailure_concat.symm hok herror

end

/-! ### The tunnels -/

namespace Facts

/-- A request that holds a slot, and the receiver it may hold. -/
def Holds (facts : Facts) (receiver : Option ℕ) : Prop :=
  facts.slot = .held ∧ facts.receiver = receiver ∧ facts.announcing = false ∧ facts.pending = true

/-- A tunnel that is over: it was answered. -/
def Over (facts : Facts) (receiver : Option ℕ) : Prop :=
  facts.Holds receiver ∧ facts.answered.isSome = true

end Facts

section

variable {req : Request} {receiver : Option ℕ}

/-- A TCP tunnel keeps the rule. -/
theorem keeps_runTcp {authority : List UInt8} (hopen : facts.Open ctx req)
    (hroute : route req = .tcp) (hauthority : req.authority = some authority)
    (hholds : facts.Holds receiver) (hfound : facts.found = none) (hdialled : facts.dialled = []) :
    Keeping ctx (fun facts _ => facts.Over receiver) facts (runTcp ctx authority) := by
  obtain ⟨herror, htarget⟩ := targetOf_tcp ctx.percent hroute hauthority
  rw [runTcp]
  cases hsplit : splitAuthority authority with
  | error reason =>
      refine keeps_answerAndClose hopen.2.1 (.notATarget hopen (herror reason hsplit)) fun _ => ?_
      exact ⟨hholds, rfl⟩
  | ok hostPort =>
      obtain ⟨host, port⟩ := hostPort
      refine keeps_bind.mpr (keeps_admitTarget hopen (htarget host port hsplit) hfound hdialled
        (fun _ _ _ => ⟨hholds, rfl⟩) fun found judged allowed hdialling => ?_)
      refine keeps_bind.mpr (keeps_bind.mpr (keeps_deadlineAfter fun deadline => ?_))
      refine keeps_connectAnyWith deadline hdialling rfl ?_ ?_ ?_
      · rw [Facts.lastFailure, hdialled, List.getLast?_nil, Option.bind_none]
      · intro dialled address hlast hdue
        refine keeps_bind.mpr (keeps_respond hopen.2.1 hdue fun taken responded hsent => ?_)
        cases responded with
        | sent =>
            exact ⟨⟨hholds.1, by rw [hsent rfl], address, hlast⟩, fun _ => ⟨hholds, rfl⟩⟩
        | failed | expired => exact ⟨trivial, fun _ => ⟨hholds, rfl⟩⟩
      · intro dialled failure hdue
        exact keeps_answerAndClose hopen.2.1 hdue fun _ => ⟨hholds, rfl⟩

/-- A UDP tunnel that has its queue keeps the rule. -/
theorem keeps_runClaimed {host : List UInt8} {port : UInt16} (hopen : facts.Open ctx req)
    (htarget : targetOf ctx.percent req = .ok ⟨.udp, host, port⟩) (hholds : facts.Holds receiver)
    (hfound : facts.found = none) (hdialled : facts.dialled = []) :
    Keeping ctx (fun facts _ => facts.Over receiver) facts (runClaimed ctx host port) := by
  rw [runClaimed]
  refine keeps_bind.mpr (keeps_admitTarget hopen htarget hfound hdialled
    (fun _ _ _ => ⟨hholds, rfl⟩) fun found judged allowed hdialling => ?_)
  refine keeps_bind.mpr (keeps_bindAny hdialling rfl ?_ ?_ ?_)
  · rw [Facts.lastFailure, hdialled, List.getLast?_nil, Option.bind_none]
  · intro dialled address hlast hdue
    refine keeps_bind.mpr (keeps_respond hopen.2.1 hdue fun taken responded hsent => ?_)
    cases responded with
    | sent => exact ⟨⟨hholds.1, by rw [hsent rfl], address, hlast⟩, fun _ => ⟨hholds, rfl⟩⟩
    | failed | expired => exact ⟨hholds, rfl⟩
  · intro dialled failure hdue
    exact keeps_answerAndClose hopen.2.1 hdue fun _ => ⟨hholds, rfl⟩

/-- A UDP tunnel keeps the rule. -/
theorem keeps_runUdp (hopen : facts.Open ctx req) (hroute : route req = .connectUdp)
    (hholds : facts.Holds none) (hclaimed : facts.claimed = none) (hfound : facts.found = none)
    (hdialled : facts.dialled = []) :
    Keeping ctx (fun facts _ => facts.Over none) facts (runUdp ctx req) := by
  obtain ⟨hinvalid, herror, htarget⟩ := targetOf_udp ctx.percent hroute
  rw [runUdp]
  cases hvalidate : validate req with
  | error reason =>
      refine keeps_answerAndClose hopen.2.1 (.notATarget hopen (hinvalid reason hvalidate))
        fun _ => ?_
      exact ⟨hholds, rfl⟩
  | ok _ =>
      cases hparse : parseTarget ctx.percent (req.path.getD []) req.query with
      | error reason =>
          refine keeps_answerAndClose hopen.2.1
            (.notATarget hopen (herror reason hvalidate hparse)) fun _ => ?_
          exact ⟨hholds, rfl⟩
      | ok hostPort =>
          obtain ⟨host, port⟩ := hostPort
          replace htarget := htarget host port hvalidate hparse
          rw [Keeping, keeps_question_bind]
          refine ⟨⟨hclaimed, req, _, hopen, htarget, rfl⟩, fun claimed => ?_⟩
          cases claimed with
          | none =>
              refine keeps_answerAndClose hopen.2.1 (.taken hopen htarget rfl rfl) fun _ => ?_
              exact ⟨⟨hholds.1, rfl, hholds.2.2⟩, rfl⟩
          | some inbound =>
              have hclaim : Facts.Holds { facts with
                  claimed := some (some inbound), receiver := some inbound } (some inbound) :=
                ⟨hholds.1, rfl, hholds.2.2⟩
              refine Keeps.bind (keeps_runClaimed hopen htarget hclaim hfound hdialled) ?_
              rintro known - ⟨hheld, hanswered⟩
              exact ⟨hheld.2.1, fun _ => ⟨⟨hheld.1, rfl, hheld.2.2⟩, hanswered⟩⟩

/-- A tunnel of either kind keeps the rule. -/
theorem keeps_runTunnel (hopen : facts.Open ctx req) (hholds : facts.Holds none)
    (hclaimed : facts.claimed = none) (hfound : facts.found = none)
    (hdialled : facts.dialled = []) :
    Keeping ctx (fun facts _ => facts.Over none) facts (runTunnel ctx req) := by
  have hrefused : ∀ status, targetOf ctx.percent req = .error status →
      Keeping ctx (fun facts _ => facts.Over none) facts (refuse ctx status) := fun status h =>
    keeps_answerAndClose hopen.2.1 (.notATarget hopen h) fun _ => ⟨hholds, rfl⟩
  rw [runTunnel]
  cases hroute : route req with
  | tcp =>
      cases hauthority : req.authority with
      | none => exact hrefused _ (by simp only [targetOf, hroute, hauthority])
      | some authority => exact keeps_runTcp hopen hroute hauthority hholds hfound hdialled
  | connectUdp => exact keeps_runUdp hopen hroute hholds hclaimed hfound hdialled
  | unsupportedProtocol protocol => exact hrefused _ (by simp only [targetOf, hroute])
  | notConnect => exact hrefused _ (by simp only [targetOf, hroute])

end

/-! ### The request -/

namespace Facts

/-- A request that has been read. -/
def ofRequest (req : Request) : Facts :=
  { new with read := some (some (.ok req)) }

end Facts

section

variable {req : Request}

/-- Reading the request keeps the rule. -/
theorem keeps_resolve {post : Facts → Option Request → Prop}
    (hread : ∀ req, post (.ofRequest req) (some req))
    (hnone : ∀ facts, facts.Rested → post facts none) :
    Keeping ctx post .new (resolve ctx) := by
  have hunread : ∀ read, (∀ req, read ≠ some (.ok req)) →
      Facts.Rested { Facts.new with read := some read } := fun read h =>
    ⟨.inr (.inr fun req hreq => h req (Option.some.inj hreq)), by rintro ⟨⟩, rfl, rfl, rfl⟩
  rw [resolve, Keeping, keeps_question_bind]
  refine ⟨trivial, fun now => ?_⟩
  rw [keeps_question_bind]
  refine ⟨⟨rfl, rfl⟩, fun read => ?_⟩
  match read with
  | some (.ok req) => exact hread req
  | some (.error (.transport error)) => exact hnone _ (hunread _ fun req h => by cases h)
  | none =>
      exact ⟨trivial, fun _ => ⟨trivial, fun _ => hnone _ (hunread _ fun req h => by cases h)⟩⟩
  | some (.error (.violation violation)) =>
      have hrested := hunread (some (.error (.violation violation))) fun req h => by cases h
      have hafter : ∀ answered, post { Facts.new with
          read := some (some (.error (.violation violation))), answered := answered } none :=
        fun answered => hnone _ { hrested with answered := .inr (.inr fun req h => by cases h) }
      simp only
      split_ifs with hlarge hfatal
      · rw [Bool.and_eq_true, Bool.not_eq_true'] at hlarge
        refine keeps_bind.mpr ⟨trivial, fun _ => keeps_bind.mpr (keeps_respond rfl
          (.tooLarge rfl hlarge.1 hlarge.2) fun taken responded _ => ?_)⟩
        cases responded with
        | sent => exact ⟨trivial, fun _ => hafter _⟩
        | failed | expired => exact hafter _
      · exact ⟨trivial, fun _ => hafter none⟩
      · exact ⟨trivial, fun _ => ⟨trivial, fun _ => hafter none⟩⟩

/-- The gate is opened first, and what it holds back is let through by whoever found it closed. -/
theorem keeps_markAuthenticated {username : Option String} {post : Facts → Unit → Prop}
    (hin : facts.LetIn ctx req username) (hmarked : facts.marked = none)
    (hraised : facts.raised = false) (hcleared : facts.cleared = [])
    (hpost : ∀ marked raised,
      post { facts with marked := marked, raised := raised, cleared := [username] } ()) :
    Keeping ctx post facts (markAuthenticated username) := by
  have hclear : ∀ raised first, May ctx
      { facts with marked := some first, raised := raised } (.clearFailures username) :=
    fun raised first => ⟨hcleared, rfl, req, hin⟩
  have hdone : ∀ raised first, post { facts with
      marked := some first, raised := raised, cleared := facts.cleared ++ [username] } () := by
    intro raised first
    rw [hcleared]
    exact hpost _ _
  rw [markAuthenticated, Keeping, keeps_question_bind]
  refine ⟨⟨hmarked, req, username, hin⟩, fun first => ?_⟩
  cases first with
  | true => exact ⟨⟨rfl, hraised⟩, fun _ => ⟨hclear true true, fun _ => hdone true true⟩⟩
  | false => exact ⟨hclear facts.raised false, fun _ => hdone facts.raised false⟩

/-- The loop over the refused values. -/
theorem keeps_recordAuthFailures {denials : Denials} {claims : List (Option String)}
    {post : Facts → Bool → Prop} (hread : facts.Read req) (hscreen : Screened req)
    (hdenied : ctx.auth.authenticate req.fields = .error denials)
    (hanswered : facts.answered = none)
    (hclaims : facts.charged.map Prod.fst ++ claims = denials.claims)
    (hpost : ∀ added, added.map Prod.fst = claims →
      post { facts with charged := facts.charged ++ added } (added.any Prod.snd)) :
    Keeping ctx post facts (recordAuthFailures claims) := by
  induction claims generalizing facts post with
  | nil =>
      have hnil := hpost [] rfl
      rw [List.append_nil] at hnil
      exact hnil
  | cons claim claims ih =>
      rw [recordAuthFailures, Keeping, keeps_question_bind]
      refine ⟨⟨hanswered, req, denials, hread, hscreen, hdenied, ?_⟩, fun spent => ?_⟩
      · exact hclaims ▸ ⟨claims, by simp⟩
      · refine keeps_bind.mpr (ih hread hanswered ?_ fun added hadded => ?_)
        · simpa [Facts.note] using hclaims
        · have hcons := hpost ((claim, spent) :: added) (by rw [List.map_cons, hadded])
          rw [List.append_cons, List.any_cons] at hcons
          exact hcons

/-- A request that was let in, and may take a slot. -/
theorem keeps_handleAdmitted {username : Option String} (hin : facts.LetIn ctx req username)
    (hcleared : facts.cleared = [username]) (hslot : facts.slot = .untaken)
    (hanswered : facts.answered = none) (hclaimed : facts.claimed = none)
    (hreceiver : facts.receiver = none) (hfound : facts.found = none)
    (hdialled : facts.dialled = []) (hpending : facts.pending = true)
    (hannouncing : facts.announcing = false) :
    Keeping ctx (fun facts _ => facts.Rested) facts (handleAdmitted ctx req) := by
  rw [handleAdmitted, Keeping, keeps_question_bind]
  refine ⟨⟨hslot, hanswered, req, username, hin, hcleared⟩, fun taken => ?_⟩
  cases taken with
  | false =>
      refine keeps_answerAndClose hanswered (.limited hin rfl) fun _ => ?_
      exact ⟨.inl rfl, by rintro ⟨⟩, hreceiver, hpending, hannouncing⟩
  | true =>
      have hopen : Facts.Open ctx { facts with slot := .held } req :=
        ⟨rfl, hanswered, username, hin⟩
      have hholds : Facts.Holds { facts with slot := .held } none :=
        ⟨rfl, hreceiver, hannouncing, hpending⟩
      refine keeps_question_bind.mpr ⟨rfl, fun _ => ?_⟩
      refine Keeps.bind (keeps_runTunnel hopen hholds hclaimed hfound hdialled) ?_
      rintro known - ⟨⟨hheld, hnone, hquiet, hguard⟩, hdone⟩
      refine ⟨⟨hheld, hnone, hquiet, hdone⟩, fun _ => ⟨rfl, fun _ => ?_⟩⟩
      exact ⟨.inl hdone, by rintro ⟨⟩, hnone, hguard, rfl⟩

/-- What lets a request in. -/
theorem admitted_of_authenticate {auth : Authenticator} {username : Option String}
    (h : auth.authenticate req.fields = .ok username) : Admitted auth req username := by
  cases username with
  | none =>
      rw [Authenticator.authenticate] at h
      split_ifs at h with hdisabled
      · exact List.isEmpty_iff.mp hdisabled
      · rcases hfirst : firstAdmitted auth (credentials req.fields) with - | name
        · obtain ⟨reasons, -, herror⟩ := tryValues_of_none hfirst none
          cases herror.symm.trans h
        · cases (tryValues_of_some hfirst none).symm.trans h
  | some name =>
      obtain ⟨before, value, after, hvalues, ⟨user, hmem, hname, hadmits⟩, -⟩ :=
        firstAdmitted_eq_some.mp (authenticate_eq_ok.mp h)
      exact ⟨user, hmem, hname, value, by rw [hvalues]; simp, hadmits⟩

/-- **A handler that has read its request keeps the rule to its end.** -/
theorem keeps_handleResolved (ctx : Context) (req : Request) :
    Keeping ctx (fun facts _ => facts.Rested) (.ofRequest req) (handleResolved ctx req) := by
  have hmalformed : ¬Screened req →
      Keeping ctx (fun facts _ => facts.Rested) (.ofRequest req) (refuse ctx .badRequest) :=
    fun hscreen => keeps_answerAndClose rfl (.malformed rfl hscreen) fun _ =>
      ⟨.inl rfl, by rintro ⟨⟩, rfl, rfl, rfl⟩
  rw [handleResolved]
  split_ifs with hfield hvalues
  · exact hmalformed fun hscreen => by simp [hscreen.1] at hfield
  · exact hmalformed fun hscreen => absurd hscreen.2 (Nat.not_le_of_lt hvalues)
  · have hscreen : Screened req :=
      ⟨Option.not_isSome_iff_eq_none.mp hfield, Nat.le_of_not_lt hvalues⟩
    cases hauth : ctx.auth.authenticate req.fields with
    | ok username =>
        have hin : Facts.LetIn ctx (.ofRequest req) req username :=
          ⟨rfl, hscreen, admitted_of_authenticate hauth⟩
        refine keeps_bind.mpr (keeps_markAuthenticated hin rfl rfl rfl fun marked raised => ?_)
        exact keeps_handleAdmitted hin rfl rfl rfl rfl rfl rfl rfl rfl rfl
    | error denials =>
        refine keeps_bind.mpr (keeps_recordAuthFailures rfl hscreen hauth rfl rfl
          fun added hadded => ?_)
        split_ifs with hspent
        · obtain ⟨charge, hmem, htrue⟩ := List.any_eq_true.mp hspent
          refine ⟨⟨rfl, rfl, req, denials, rfl, hauth, hadded, charge, hmem, htrue⟩, fun _ => ?_⟩
          exact ⟨.inr (.inl rfl), by rintro ⟨⟩, rfl, rfl, rfl⟩
        · refine keeps_answerAndClose rfl (.denied rfl hscreen hauth ?_) fun _ =>
            ⟨.inl rfl, by rintro ⟨⟩, rfl, rfl, rfl⟩
          rw [← hadded, List.map_map]
          refine (List.map_id added).symm.trans (List.map_congr_left fun charge hmem => ?_)
          have hfalse : charge.2 = false := by
            by_contra htrue
            exact hspent (List.any_eq_true.mpr ⟨charge, hmem, Bool.not_eq_false _ ▸ htrue⟩)
          rw [Function.comp_apply, ← hfalse]
          rfl

/-- **The task of a request stream keeps the rule**, whatever it is answered, and it ends
settled. -/
theorem keeps_serve (ctx : Context) :
    Keeping ctx (fun facts _ => Settled facts) .new (serve ctx) := by
  have hrequest : Keeping ctx (fun facts _ => facts.Rested) .new (handleRequest ctx) :=
    keeps_bind.mpr (keeps_resolve (fun req => keeps_handleResolved ctx req) fun facts h => h)
  refine Keeps.bind hrequest ?_
  intro facts _ hrested
  refine ⟨hrested, fun _ => ⟨rfl, fun _ => ?_⟩⟩
  exact ⟨hrested.answered, hrested.slot, hrested.receiver, rfl, rfl⟩

/-! ### After the guard -/

/-- Whoever is let in is not denied. -/
theorem authenticate_of_admitted {auth : Authenticator} {username : Option String}
    (h : Admitted auth req username) (denials : Denials) :
    auth.authenticate req.fields ≠ .error denials := by
  rw [Authenticator.authenticate]
  cases username with
  | none =>
      have hdisabled : auth.isDisabled = true := List.isEmpty_iff.mpr h
      rw [if_pos hdisabled]
      rintro ⟨⟩
  | some name =>
      obtain ⟨user, hmem, -, value, hvalue, hadmits⟩ := h
      split_ifs
      · rintro ⟨⟩
      · rcases hfirst : firstAdmitted auth (credentials req.fields) with - | accepted
        · exact absurd hadmits
            (toOption_eq_none.mp (List.findSome?_eq_none_iff.mp hfirst value hvalue) user hmem)
        · rw [tryValues_of_some hfirst none]
          rintro ⟨⟩

/-- A request that is over holds nothing. -/
structure Ended (facts : Facts) : Prop where
  answered : facts.answered.isSome = true ∨ facts.closed = true ∨ ∀ req, ¬facts.Read req
  slot : facts.slot ≠ .held
  receiver : facts.receiver = none

/-- **A request without its guard is over.** -/
structure Guarded (ctx : Context) (facts : Facts) : Prop where
  denied : facts.closed = true →
    ∃ req denials, facts.Read req ∧ ctx.auth.authenticate req.fields = .error denials
  ended : facts.pending = false → Ended facts

/-- A handler that has not begun has nothing to keep. -/
theorem guarded_new (ctx : Context) : Guarded ctx .new :=
  ⟨by rintro ⟨⟩, by rintro ⟨⟩⟩

/-- **The rule keeps a request over** once its guard was given back. -/
theorem guarded_note (h : Guarded ctx facts) {question : Question} (hmay : May ctx facts question)
    (reply : question.Reply) : Guarded ctx (facts.note question reply) := by
  cases question with
  | readRequest deadline =>
      obtain ⟨hnone, hpending⟩ := hmay
      refine ⟨fun hclosed => ?_, fun hgone => ?_⟩
      · obtain ⟨req, denials, hread, -⟩ := h.denied hclosed
        rw [Facts.Read, hnone] at hread
        cases hread
      · exact absurd (hpending.symm.trans hgone) (by decide)
  | close code =>
      obtain ⟨-, -, req, denials, hread, hdenied, -⟩ := hmay
      exact ⟨fun _ => ⟨req, denials, hread, hdenied⟩, fun hgone =>
        ⟨.inr (.inl rfl), (h.ended hgone).slot, (h.ended hgone).receiver⟩⟩
  | respond answer deadline =>
      exact ⟨h.denied, fun hgone => ⟨.inl rfl, (h.ended hgone).slot, (h.ended hgone).receiver⟩⟩
  | acquire =>
      obtain ⟨-, hnone, req, username, ⟨hread, -, hadmitted⟩, -⟩ := hmay
      refine ⟨h.denied, fun hgone => ?_⟩
      rcases (h.ended hgone).answered with hanswered | hclosed | hunread
      · rw [hnone] at hanswered
        cases hanswered
      · -- a connection is closed for what was denied
        obtain ⟨req', denials, hread', hdenied⟩ := h.denied hclosed
        obtain rfl : req' = req := by
          simpa using hread'.symm.trans hread
        exact absurd hdenied (authenticate_of_admitted hadmitted denials)
      · exact absurd hread (hunread req)
  | claimDatagrams =>
      obtain ⟨-, req, target, hopen, -⟩ := hmay
      exact ⟨h.denied, fun hgone => absurd hopen.1 (h.ended hgone).slot⟩
  | dropReceiver i =>
      exact ⟨h.denied, fun hgone => ⟨(h.ended hgone).answered, (h.ended hgone).slot, rfl⟩⟩
  | dropSlot =>
      exact ⟨h.denied, fun hgone => absurd hmay.1 (h.ended hgone).slot⟩
  | dropPending => exact ⟨h.denied, fun _ => ⟨hmay.answered, hmay.slot, hmay.receiver⟩⟩
  | now | stopReceiving _ | reset _ | finish | fail _ | recordAuthFailure _ | mark
  | admitConfiguredStreams | clearFailures _ | countTunnel | lookup _ _ _ | holdsAddress _
  | connect _ _ | bind _ | abortTarget | relay _ | announce =>
      exact ⟨h.denied, fun hgone =>
        ⟨(h.ended hgone).answered, (h.ended hgone).slot, (h.ended hgone).receiver⟩⟩

end

end Handler

end Tunnel

end Volto
