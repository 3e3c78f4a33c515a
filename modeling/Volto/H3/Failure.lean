import Mathlib.Data.List.Induction
import Volto.H3.Error
import Volto.Lib.History
import Volto.Lib.Slots

/-!
# Why a Connection Was Closed

`Handle::fail` and `Connection::accept` of `h3/connection.rs`, and the close of `handle_request`
in `conn.rs` after too many authentication failures. A task that finds a violation records it,
keeping the first, and closes the connection with the code of the one that was kept; the accept
loop reports the recorded violation once QUIC says that this endpoint hung up. The close of the
authentication limit does not go through the record.

Only the first close of a connection is sent, and a connection that has ended stays so.

## Main results

* `Inv.step`: a call that has returned or reported has the recorded violation.
* `Agrees.step`: which steps keep the record and the wire in agreement.
* `report_on_wire_iff`: when the report of the accept loop is what was put on the wire.
-/

namespace Volto

/-- The code of the close after too many authentication failures. -/
def authFailureLimitCode : Code := ⟨0x10b⟩

namespace Failure

/-- How a QUIC connection has ended. -/
inductive Ended
  /-- This endpoint closed it first, with this code. -/
  | locally (code : Code)
  /-- The peer closed it with an HTTP/3 code. -/
  | applicationClosed (code : Code)
  | timedOut
  /-- Anything else QUIC reports. -/
  | lost
deriving DecidableEq, Repr

/-- Error affecting the whole HTTP/3 connection. -/
inductive ConnectionError
  | applicationClose (code : Code)
  | timeout
  /-- This endpoint closed the connection because the peer broke a rule. -/
  | ofLocal (violation : Violation)
  /-- Anything else the QUIC layer reported, including our own local close. -/
  | transport (ended : Ended)
deriving DecidableEq, Repr

/-- The error QUIC reports, restored to this endpoint's own reason if there is one. -/
def interpret : Ended → Option Violation → ConnectionError
  | .locally _, some violation => .ofLocal violation
  | .applicationClosed code, _ => .applicationClose code
  | .timedOut, _ => .timeout
  | ended, _ => .transport ended

/-- A call of `Handle::fail`. -/
inductive Failing
  /-- The record is next. -/
  | recording (violation : Violation)
  /-- The close is next, with what the record kept. -/
  | closing (stored : Violation)
  | returned (error : ConnectionError)
deriving DecidableEq, Repr

/-- A call of `Connection::accept`, as far as the end of the connection goes. -/
inductive Accepting
  | waiting
  /-- `accept_bi` has failed, and the record is read next. -/
  | interpreting (ended : Ended)
  | reported (error : ConnectionError)
deriving DecidableEq, Repr

/-- A task at work on the connection. -/
inductive Party
  | fail (call : Failing)
  | accept (call : Accepting)
deriving DecidableEq, Repr

/-- The connection as its tasks share it. -/
structure Connection where
  /-- Why this endpoint closed the connection, if it did. -/
  localError : Option Violation
  ended : Option Ended
  /-- The violations that were to be recorded, in order, for the statements only. -/
  recorded : List Violation
  parties : List Party
deriving DecidableEq, Repr

namespace Connection

/-- A connection on which nothing has failed. -/
def new : Connection :=
  ⟨none, none, [], []⟩

variable (s : Connection)

/-- The code of the CONNECTION_CLOSE this endpoint has sent. -/
def wire : Option Code :=
  match s.ended with
  | some (.locally code) => some code
  | _ => none

/-- A connection ends once. -/
def finish (ended : Ended) : Connection :=
  { s with ended := some (s.ended.getD ended) }

/-- `quinn::Connection::close`. -/
def close (code : Code) : Connection :=
  s.finish (.locally code)

/-- Records why this endpoint is closing the connection, keeping the first reason. -/
def record (violation : Violation) : Violation × Connection :=
  let stored := s.localError.getD violation
  (stored, { s with localError := some stored, recorded := s.recorded ++ [violation] })

/-- Puts a task in its place. -/
def put (id : ℕ) (party : Party) : Connection :=
  { s with parties := s.parties.set id party }

/-- The next step of a call. -/
def proceed (id : ℕ) : Party → Connection
  | .fail (.recording violation) =>
      (s.record violation).2.put id (.fail (.closing (s.record violation).1))
  | .fail (.closing stored) => (s.close stored.code).put id (.fail (.returned (.ofLocal stored)))
  | .accept .waiting =>
      match s.ended with
      | none => s
      | some ended => s.put id (.accept (.interpreting ended))
  | .accept (.interpreting ended) =>
      s.put id (.accept (.reported (interpret ended s.localError)))
  | .fail (.returned _) | .accept (.reported _) => s

end Connection

/-- What can happen to a connection. -/
inductive Event
  /-- A task has found a violation, and calls `fail`. -/
  | fail (violation : Violation)
  /-- The accept loop waits for the next request. -/
  | accept
  /-- A request was one authentication failure too many. -/
  | authFailureLimit
  | ended (ended : Ended)
  /-- A call takes its next step. -/
  | step (id : ℕ)
deriving DecidableEq, Repr

namespace Connection

/-- One step. The peer and the idle timeout end a connection, and this endpoint only by a
close. -/
def step (s : Connection) : Event → Connection
  | .fail violation => { s with parties := s.parties ++ [.fail (.recording violation)] }
  | .accept => { s with parties := s.parties ++ [.accept .waiting] }
  | .authFailureLimit => s.close authFailureLimitCode
  | .ended (.locally _) => s
  | .ended ended => s.finish ended
  | .step id =>
      match s.parties[id]? with
      | none => s
      | some party => s.proceed id party

/-- A run. -/
def run (s : Connection) (events : List Event) : Connection :=
  events.foldl step s

/-- A run ends with its last event. -/
@[simp] theorem run_concat (s : Connection) (events : List Event) (event : Event) :
    s.run (events ++ [event]) = (s.run events).step event := by
  simp [run]

/-! ### What the record knows -/

/-- What a call has seen is there to stay. -/
def Seen (s : Connection) : Party → Prop
  | .fail (.recording _) | .accept .waiting => True
  | .fail (.closing stored) => s.localError = some stored
  | .fail (.returned error) =>
      ∃ violation, s.localError = some violation ∧ error = .ofLocal violation
  | .accept (.interpreting ended) => s.ended = some ended
  | .accept (.reported error) => ∀ violation, error = .ofLocal violation →
      s.localError = some violation ∧ ∃ code, s.ended = some (.locally code)

/-- **What holds of a connection in every state.** -/
structure Inv (s : Connection) : Prop where
  /-- The record keeps the first violation. -/
  first : s.localError = s.recorded.head?
  /-- Without a violation only the authentication limit closes. -/
  limit : ∀ code, s.localError = none → s.ended = some (.locally code) → code = authFailureLimitCode
  seen : ∀ (id : ℕ) (party : Party), s.parties[id]? = some party → Seen s party

/-- The invariant holds of a new connection. -/
theorem inv_new : Inv new where
  first := rfl
  limit _ _ h := by cases h
  seen id party h := by simp [new] at h

variable {s s' : Connection}

/-- What was recorded and how the connection ended stay. -/
structure Later (s s' : Connection) : Prop where
  localError : ∀ violation, s.localError = some violation → s'.localError = some violation
  ended : ∀ ended, s.ended = some ended → s'.ended = some ended

/-- What a task has seen stays true later. -/
theorem Seen.later {party : Party} (h : Seen s party) (hlater : Later s s') : Seen s' party := by
  cases party with
  | fail call =>
      cases call with
      | recording => trivial
      | closing stored => exact hlater.localError stored h
      | returned error =>
          obtain ⟨violation, hlocal, herror⟩ := h
          exact ⟨violation, hlater.localError violation hlocal, herror⟩
  | accept call =>
      cases call with
      | waiting => trivial
      | interpreting ended => exact hlater.ended ended h
      | reported error =>
          intro violation herror
          obtain ⟨hlocal, code, hended⟩ := h violation herror
          exact ⟨hlater.localError violation hlocal, code, hlater.ended _ hended⟩

/-- A connection that is later, with one call in its next state. -/
theorem Inv.put (h : Inv s) (hlater : Later s s') (hfirst : s'.localError = s'.recorded.head?)
    (hlimit : ∀ code, s'.localError = none → s'.ended = some (.locally code) →
      code = authFailureLimitCode)
    (hparties : s'.parties = s.parties) {id : ℕ} {party party' : Party}
    (hparty : s.parties[id]? = some party) (hseen : Seen s' party') : Inv (s'.put id party') where
  first := hfirst
  limit := hlimit
  seen other p hother := by
    rw [Connection.put, hparties] at hother
    rcases (Slots.getElem?_set hparty).mp hother with ⟨-, rfl⟩ | ⟨-, hold⟩
    · exact hseen.later ⟨fun _ h => h, fun _ h => h⟩
    · exact (h.seen other p hold).later ⟨hlater.localError, hlater.ended⟩

/-- A connection that is later, with the same calls. -/
theorem Inv.later (h : Inv s) (hlater : Later s s') (hfirst : s'.localError = s'.recorded.head?)
    (hlimit : ∀ code, s'.localError = none → s'.ended = some (.locally code) →
      code = authFailureLimitCode)
    (hparties : s'.parties = s.parties) : Inv s' where
  first := hfirst
  limit := hlimit
  seen id party hparty := by
    rw [hparties] at hparty
    exact (h.seen id party hparty).later hlater

/-- A task that has only begun breaks nothing. -/
theorem Inv.join (h : Inv s) {party : Party} (hparty : ∀ s, Seen s party) :
    Inv { s with parties := s.parties ++ [party] } where
  first := h.first
  limit := h.limit
  seen id p hp := by
    rcases Slots.getElem?_concat.mp hp with hold | ⟨-, rfl⟩
    · exact (h.seen id p hold).later ⟨fun _ h => h, fun _ h => h⟩
    · exact hparty _

/-- An end that is recorded is recorded for good. -/
theorem later_finish (s : Connection) (ended : Ended) : Later s (s.finish ended) where
  localError _ h := h
  ended e h := by rw [finish, h, Option.getD_some]

/-- How a connection has ended after it was to end. -/
theorem ended_finish {ended e : Ended} (h : (s.finish ended).ended = some e) :
    s.ended = some e ∨ s.ended = none ∧ e = ended := by
  rw [finish] at h
  cases hended : s.ended with
  | none =>
      simp only [hended, Option.getD_none, Option.some.injEq] at h
      exact .inr ⟨rfl, h.symm⟩
  | some before =>
      simp only [hended, Option.getD_some, Option.some.injEq] at h
      exact .inl (h ▸ rfl)

/-- A violation that is recorded is recorded for good. -/
theorem later_record (s : Connection) (violation : Violation) : Later s (s.record violation).2 where
  localError v h := by rw [record, h, Option.getD_some]
  ended _ h := h

/-- A report of a local violation is made from a local close and the record. -/
theorem interpret_eq_ofLocal {ended : Ended} {localError : Option Violation} {violation : Violation}
    (h : interpret ended localError = .ofLocal violation) :
    localError = some violation ∧ ∃ code, ended = .locally code := by
  cases ended with
  | locally code =>
      cases localError with
      | none => cases h
      | some v =>
          cases h
          exact ⟨rfl, code, rfl⟩
  | applicationClosed | timedOut | lost => cases h

/-- A step of one task keeps the invariant. -/
theorem Inv.proceed (h : Inv s) {id : ℕ} {party : Party} (hparty : s.parties[id]? = some party) :
    Inv (s.proceed id party) := by
  cases party with
  | fail call =>
      cases call with
      | recording violation =>
          refine h.put (later_record s violation) ?_ nofun rfl hparty rfl
          have hfirst := h.first
          rw [record]
          cases hrecorded : s.recorded with
          | nil =>
              rw [hrecorded] at hfirst
              simp [hfirst]
          | cons first rest =>
              rw [hrecorded] at hfirst
              simp [hfirst]
      | closing stored =>
          have hstored : s.localError = some stored := h.seen id _ hparty
          refine h.put (later_finish s _) h.first (fun _ hnone => ?_) rfl hparty
            ⟨stored, hstored, rfl⟩
          exact absurd (hnone.symm.trans hstored) nofun
      | returned => exact h
  | accept call =>
      cases call with
      | waiting =>
          rw [Connection.proceed]
          split
          · exact h
          · rename_i ended hended
            exact h.put ⟨fun _ h => h, fun _ h => h⟩ h.first h.limit rfl hparty hended
      | interpreting ended =>
          refine h.put ⟨fun _ h => h, fun _ h => h⟩ h.first h.limit rfl hparty ?_
          intro violation hreport
          obtain ⟨hlocal, code, rfl⟩ := interpret_eq_ofLocal hreport
          exact ⟨hlocal, code, h.seen id _ hparty⟩
      | reported => exact h

/-- The connection ends, if it has not yet. -/
theorem Inv.finish (h : Inv s) {ended : Ended}
    (hlimit : ∀ code, s.localError = none → ended = .locally code → code = authFailureLimitCode) :
    Inv (s.finish ended) := by
  refine h.later (later_finish s ended) h.first (fun code hnone hended => ?_) rfl
  obtain hbefore | ⟨-, heq⟩ := ended_finish hended
  · exact h.limit code hnone hbefore
  · exact hlimit code hnone heq.symm

/-- **Every step keeps it.** -/
theorem Inv.step (h : Inv s) (event : Event) : Inv (s.step event) := by
  cases event with
  | fail violation => exact h.join fun _ => trivial
  | accept => exact h.join fun _ => trivial
  | authFailureLimit =>
      refine h.finish fun code _ heq => ?_
      cases heq
      rfl
  | ended ended =>
      cases ended with
      | locally => exact h
      | applicationClosed | timedOut | lost => exact h.finish nofun
  | step id =>
      rw [Connection.step]
      split
      · exact h
      · rename_i party hparty
        exact h.proceed hparty

/-- **Run lemma**: the invariant holds along every interleaving. -/
theorem Inv.run (h : Inv s) (events : List Event) : Inv (s.run events) :=
  History.run_invariant (fun _ event hinv => hinv.step event) h events

/-! ### The code on the wire -/

/-- A connection that this endpoint has closed was closed with the code of the recorded violation,
if there is one. -/
def Agrees (s : Connection) : Prop :=
  ∀ code violation, s.ended = some (.locally code) → s.localError = some violation →
    violation.code = code

/-- A step that does not bring the authentication limit together with a violation of another
code: the limit closes a connection that is still open only where no such violation has been
recorded, and no such violation is the first to be recorded on a connection that this endpoint has
closed already. -/
def Apart (s : Connection) : Event → Prop
  | .authFailureLimit => s.ended = none →
      ∀ violation, s.localError = some violation → violation.code = authFailureLimitCode
  | .step id => ∀ violation code, s.parties[id]? = some (.fail (.recording violation)) →
      s.localError = none → s.ended = some (.locally code) → violation.code = authFailureLimitCode
  | .fail _ | .accept | .ended _ => True

/-- An end with the recorded code keeps the agreement. -/
theorem Agrees.finish (h : Agrees s) {ended : Ended}
    (hended : s.ended = none → ∀ code violation, ended = .locally code →
      s.localError = some violation → violation.code = code) :
    Agrees (s.finish ended) := by
  intro code violation hcode hviolation
  obtain hbefore | ⟨hnone, heq⟩ := ended_finish hcode
  · exact h code violation hbefore hviolation
  · exact hended hnone code violation heq.symm hviolation

/-- **Steps that keep the two apart keep the record and the wire in agreement.** -/
theorem Agrees.step (h : Agrees s) (hinv : Inv s) {event : Event} (hapart : Apart s event) :
    Agrees (s.step event) := by
  cases event with
  | fail | accept => exact h
  | authFailureLimit =>
      refine h.finish fun hnone code violation heq hviolation => ?_
      cases heq
      exact hapart hnone violation hviolation
  | ended ended =>
      cases ended with
      | locally => exact h
      | applicationClosed | timedOut | lost => exact h.finish fun _ => nofun
  | step id =>
      rw [Connection.step]
      split
      · exact h
      · rename_i party hparty
        cases party with
        | fail call =>
            cases call with
            | recording violation =>
                intro code stored hcode hstored
                cases hlocal : s.localError with
                | none =>
                    simp only [Connection.proceed, record, hlocal, Option.getD_none, put,
                      Option.some.injEq] at hstored
                    subst hstored
                    rw [hapart violation code hparty hlocal hcode]
                    exact (hinv.limit code hlocal hcode).symm
                | some first =>
                    simp only [Connection.proceed, record, hlocal, Option.getD_some, put,
                      Option.some.injEq] at hstored
                    subst hstored
                    exact h code first hcode hlocal
            | closing stored =>
                refine Agrees.finish h fun _ code violation heq hviolation => ?_
                cases heq
                have hstored : s.localError = some stored := hinv.seen id _ hparty
                rw [hstored, Option.some.injEq] at hviolation
                rw [hviolation]
            | returned => exact h
        | accept call =>
            cases call with
            | waiting =>
                rw [Connection.proceed]
                split <;> exact h
            | interpreting | reported => exact h

/-- A step that brings the two together ends the agreement. -/
theorem Agrees.apart {event : Event} (hinv : Inv s) (hstep : Agrees (s.step event)) :
    Apart s event := by
  cases event with
  | authFailureLimit =>
      intro hnone violation hviolation
      refine hstep authFailureLimitCode violation ?_ hviolation
      simp [Connection.step, close, Connection.finish, hnone]
  | step id =>
      intro violation code hparty hlocal hcode
      rw [← hinv.limit code hlocal hcode]
      refine hstep code violation ?_ ?_
      · simp [Connection.step, hparty, Connection.proceed, record, put, hcode]
      · simp [Connection.step, hparty, Connection.proceed, record, put, hlocal]
  | fail | accept | ended => trivial

/-! ### Reports -/

/-- `Connection::accept` is called, with nobody else in between. -/
def acceptNow (s : Connection) : Connection :=
  s.run [.accept, .step s.parties.length, .step s.parties.length]

/-- Whenever `Connection::accept` has reported a local violation, or does so when it is called
now, the code of that violation was on the wire. -/
def Honest (s : Connection) : Prop :=
  ∀ (id : ℕ) (violation : Violation),
    (acceptNow s).parties[id]? = some (.accept (.reported (.ofLocal violation))) →
    (acceptNow s).wire = some violation.code

/-- What the accept loop does at once changes the parties only. -/
theorem acceptNow_eq (s : Connection) :
    acceptNow s = { s with parties := s.parties ++ [.accept (s.ended.elim .waiting fun ended =>
      .reported (interpret ended s.localError))] } := by
  cases hended : s.ended with
  | none => simp [acceptNow, run, step, proceed, hended]
  | some ended => simp [acceptNow, run, step, proceed, put, hended]

/-- **The accept loop reports what was on the wire where the record and the wire agree.** -/
theorem Inv.honest_iff (h : Inv s) : Honest s ↔ Agrees s := by
  have hnow : Inv (acceptNow s) := h.run _
  rw [acceptNow_eq] at hnow
  constructor
  · intro hhonest code violation hcode hviolation
    have hreport := hhonest s.parties.length violation
    rw [acceptNow_eq, wire] at hreport
    simp only [hcode, hviolation, Option.elim_some, interpret, List.getElem?_concat_length,
      forall_const, Option.some.injEq] at hreport
    exact hreport.symm
  · intro hagrees id violation hreported
    rw [acceptNow_eq] at hreported ⊢
    obtain ⟨hlocal, code, hcode⟩ := hnow.seen id _ hreported violation rfl
    rw [wire, hcode, hagrees code violation hcode hlocal]

end Connection

open Connection

/-- A violation found while the authentication limit closes the connection is reported with a code
that was not on the wire. -/
theorem limit_hides_violation :
    ¬∀ (events : List Event) (id : ℕ) (violation : Violation),
      (new.run events).parties[id]? = some (.accept (.reported (.ofLocal violation))) →
      (new.run events).wire = some violation.code := by
  intro h
  have hwire := h [.fail (.connection .h3FrameUnexpected "a second SETTINGS frame"),
    .authFailureLimit, .step 0, .accept, .step 1, .step 1] 1
    (.connection .h3FrameUnexpected "a second SETTINGS frame") rfl
  cases hwire

/-- **The reason a connection reports is the one it put on the wire**, in every interleaving, as
long as the authentication limit and a violation of another code do not meet on it. Every error
that `fail` returns is the first violation recorded. And the steps of a run keep the limit and
such violations apart exactly if after each of them `Connection::accept` reports a local
violation only with its code on the wire. -/
theorem report_on_wire_iff (events : List Event) :
    (∀ (id : ℕ) (error : ConnectionError),
      (new.run events).parties[id]? = some (.fail (.returned error)) →
      ∃ violation rest, (new.run events).recorded = violation :: rest ∧
        error = .ofLocal violation) ∧
    ((∀ front event rest, events = front ++ event :: rest → Apart (new.run front) event) ↔
      ∀ front rest, events = front ++ rest → Honest (new.run front)) := by
  have hinv : ∀ events, Inv (new.run events) := inv_new.run
  refine ⟨fun id error hreturned => ?_, fun hapart front rest hfront => ?_, ?_⟩
  · obtain ⟨violation, hlocal, herror⟩ := (hinv events).seen id _ hreturned
    have hfirst := (hinv events).first
    rw [hlocal] at hfirst
    obtain ⟨rest, hrest⟩ := List.head?_eq_some_iff.mp hfirst.symm
    exact ⟨violation, rest, hrest, herror⟩
  · refine (hinv front).honest_iff.mpr ?_
    induction front using List.reverseRecOn generalizing rest with
    | nil => exact nofun
    | append_singleton front event ih =>
        have hsplit : events = front ++ event :: rest := by simp [hfront]
        rw [run_concat]
        exact (ih _ hsplit).step (hinv front) (hapart front event rest hsplit)
  · intro hhonest front event rest hsplit
    have hstep := (hinv _).honest_iff.mp (hhonest (front ++ [event]) rest (by simp [hsplit]))
    rw [run_concat] at hstep
    exact Agrees.apart (hinv front) hstep

end Failure

end Volto
