import Volto.H3.Frame
import Volto.Lib.Incremental
import Volto.Logfmt

/-!
# The Peer's Control Stream

`Control` of `h3/connection.rs` applies the rules of the peer's control stream, one item at a
time: SETTINGS comes first and once, a GOAWAY identifier never grows, the allowed push ID
never shrinks, no push was ever promised, and unknown frames are ignored. `Conforms` says
which sequences of items those rules allow, in terms of the sequence alone; the module shows
that feeding a sequence to a fresh `Control` accepts exactly these, and which answer the first
item outside the language gets.

The flag `peerDatagrams` is the connection's, shared with its sessions; it is passed in and
out next to the `Control` itself.

## Main results

* `Recorded.accept`: everything one item can do after the SETTINGS.
* `Recorded.feedAll`: which runs are accepted, and the record they leave.
* `control_language`: the language of the control stream and its verdicts.
-/

namespace Volto

open Incremental

/-- The control stream's frame rules. -/
structure Control where
  /-- Whether the peer's SETTINGS frame has been seen. -/
  settings : Bool
  /-- The last GOAWAY identifier the peer sent. -/
  goaway : Option ℕ
  /-- The largest push ID the peer has allowed, if any. -/
  maxPushId : Option ℕ
  /-- Frames of an unknown type this stream has skipped. -/
  skipped : Sampler
deriving DecidableEq, Repr

/-- A frame that does not belong on the control stream. -/
def unexpected (detail : String) : Violation :=
  Violation.connection Code.h3FrameUnexpected detail

/-- The control stream did not open with SETTINGS. -/
def missingSettings : Violation :=
  Violation.connection Code.h3MissingSettings "the control stream did not begin with SETTINGS"

namespace Control

/-- A control stream of which nothing has been read. -/
def default : Control := ⟨false, none, none, Sampler.new⟩

/-- What applying an item returns, with the control state and the connection's flag it
leaves. -/
abbrev Applied := Except Violation Unit × Control × Bool

/-- The rules for a whole frame. -/
def acceptFrame (c : Control) (frame : Frame) (peerDatagrams : Bool) : Applied :=
  match frame, c.settings with
  | .settings settings, false =>
      (.ok (), { c with settings := true },
        if settings.datagrams then true else peerDatagrams)
  | .settings _, true => (.error (unexpected "a second SETTINGS frame"), c, peerDatagrams)
  | _, false => (.error missingSettings, c, peerDatagrams)
  | .goaway identifier, true =>
      if c.goaway.any (· < identifier) then
        (.error (Violation.connection Code.h3IdError
          s!"a GOAWAY identifier that grew to {identifier}"), c, peerDatagrams)
      else
        (.ok (), { c with goaway := some identifier }, peerDatagrams)
  | .cancelPush pushId, true =>
      (.error (Violation.connection Code.h3IdError
        s!"a CANCEL_PUSH for push ID {pushId}, which was never promised"), c, peerDatagrams)
  | .maxPushId pushId, true =>
      if c.maxPushId.any (pushId < ·) then
        (.error (Violation.connection Code.h3IdError
          s!"a MAX_PUSH_ID that shrank to {pushId}"), c, peerDatagrams)
      else
        (.ok (), { c with maxPushId := some pushId }, peerDatagrams)
  | .pushPromise, true => (.error (unexpected "a PUSH_PROMISE frame"), c, peerDatagrams)
  | .headers _, true =>
      (.error (unexpected "a HEADERS frame on the control stream"), c, peerDatagrams)

/-- Applies one item from the control stream. -/
def accept (c : Control) (item : Item) (peerDatagrams : Bool) : Applied :=
  match item with
  | .frame frame => c.acceptFrame frame peerDatagrams
  | .data _ =>
      (.error (if c.settings then unexpected "a DATA frame on the control stream"
        else missingSettings), c, peerDatagrams)
  | .skipped _ =>
      if c.settings then
        (.ok (), { c with skipped := c.skipped.record.2 }, peerDatagrams)
      else
        (.error missingSettings, c, peerDatagrams)

/-- One item as a step that stops at a violation. -/
def acceptStep (s : Control × Bool) (item : Item) : Outcome (Control × Bool) Unit Violation :=
  match s.1.accept item s.2 with
  | (.ok (), s') => Outcome.idle s'
  | (.error violation, s') => ⟨[], s', some violation⟩

/-- A sequence of items fed to a fresh control stream, up to the first violation. -/
def acceptAll (items : List Item) : Outcome (Control × Bool) Unit Violation :=
  feedAll acceptStep (default, false) items

/-! ### The language -/

/-- What may follow the SETTINGS and the items `before`: an unknown frame, a GOAWAY that does
not grow, a MAX_PUSH_ID that does not shrink. -/
inductive Allowed (before : List Item) : Item → Prop
  | skipped (kind : ℕ) : Allowed before (.skipped kind)
  | goaway {identifier : ℕ}
      (h : ∀ earlier, .frame (.goaway earlier) ∈ before → identifier ≤ earlier) :
      Allowed before (.frame (.goaway identifier))
  | maxPushId {pushId : ℕ}
      (h : ∀ earlier, .frame (.maxPushId earlier) ∈ before → earlier ≤ pushId) :
      Allowed before (.frame (.maxPushId pushId))

/-- The sequences a control stream may carry: nothing, or SETTINGS and then only what is
allowed after all that came before it. -/
def Conforms (items : List Item) : Prop :=
  items = [] ∨ ∃ settings rest, items = .frame (.settings settings) :: rest ∧
    ∀ before item after, rest = before ++ item :: after → Allowed before item

/-- An item that names an identifier it may not name: a GOAWAY above an earlier one, a
MAX_PUSH_ID below an earlier one, any CANCEL_PUSH. -/
inductive BadId (before : List Item) : Item → Prop
  | goaway {identifier earlier : ℕ} (h : .frame (.goaway earlier) ∈ before)
      (hlt : earlier < identifier) : BadId before (.frame (.goaway identifier))
  | maxPushId {pushId earlier : ℕ} (h : .frame (.maxPushId earlier) ∈ before)
      (hlt : pushId < earlier) : BadId before (.frame (.maxPushId pushId))
  | cancelPush (pushId : ℕ) : BadId before (.frame (.cancelPush pushId))

/-! ### The record -/

/-- The record left by SETTINGS and the items `before`: it refuses exactly the identifiers
that some earlier item rules out. -/
structure Recorded (before : List Item) (c : Control) : Prop where
  settings : c.settings = true
  goaway : ∀ identifier, c.goaway.any (· < identifier) = true ↔
    ∃ earlier, .frame (.goaway earlier) ∈ before ∧ earlier < identifier
  maxPushId : ∀ pushId, c.maxPushId.any (pushId < ·) = true ↔
    ∃ earlier, .frame (.maxPushId earlier) ∈ before ∧ pushId < earlier

/-- A bad identifier is never allowed. -/
theorem BadId.not_allowed {before : List Item} {item : Item} (h : BadId before item) :
    ¬Allowed before item := by
  intro hallowed
  cases h with
  | goaway hmem hlt =>
      cases hallowed with
      | goaway hle => exact absurd (hle _ hmem) (by omega)
  | maxPushId hmem hlt =>
      cases hallowed with
      | maxPushId hle => exact absurd (hle _ hmem) (by omega)
  | cancelPush => cases hallowed

/-- An item that is neither a GOAWAY nor a MAX_PUSH_ID leaves the record as it is. -/
theorem Recorded.concat {before : List Item} {c c' : Control} (h : Recorded before c)
    {item : Item} (hgoaway : ∀ identifier, item ≠ .frame (.goaway identifier))
    (hmaxPushId : ∀ pushId, item ≠ .frame (.maxPushId pushId)) (hs : c'.settings = true)
    (hg : c'.goaway = c.goaway) (hm : c'.maxPushId = c.maxPushId) :
    Recorded (before ++ [item]) c' := by
  refine ⟨hs, ?_, ?_⟩
  · intro identifier
    rw [hg, h.goaway]
    simp only [List.mem_append, List.mem_singleton, (hgoaway _).symm, or_false]
  · intro pushId
    rw [hm, h.maxPushId]
    simp only [List.mem_append, List.mem_singleton, (hmaxPushId _).symm, or_false]

/-- A register that is replaced only by values it does not rule out goes on ruling out what
any value so far does. -/
theorem any_replace {r : ℕ → ℕ → Prop} [DecidableRel r]
    (hr : ∀ earlier value next, r earlier next → ¬r earlier value → r value next)
    {register : Option ℕ} {seen : ℕ → Prop}
    (h : ∀ value, register.any (r · value) = true ↔ ∃ earlier, seen earlier ∧ r earlier value)
    {value : ℕ} (hok : register.any (r · value) = false) (next : ℕ) :
    (some value).any (r · next) = true ↔
      ∃ earlier, (seen earlier ∨ earlier = value) ∧ r earlier next := by
  have hnone : ∀ earlier, seen earlier → ¬r earlier value := by
    intro earlier hseen hlt
    have := (h value).mpr ⟨earlier, hseen, hlt⟩
    rw [hok] at this
    cases this
  rw [Option.any_some, decide_eq_true_eq]
  constructor
  · intro hlt
    exact ⟨value, Or.inr rfl, hlt⟩
  · rintro ⟨earlier, hseen | rfl, hlt⟩
    · exact hr _ _ _ hlt (hnone _ hseen)
    · exact hlt

/-- A GOAWAY that does not grow is recorded. -/
theorem Recorded.concat_goaway {before : List Item} {c c' : Control} (h : Recorded before c)
    {identifier : ℕ} (hle : c.goaway.any (· < identifier) = false) (hs : c'.settings = true)
    (hg : c'.goaway = some identifier) (hm : c'.maxPushId = c.maxPushId) :
    Recorded (before ++ [.frame (.goaway identifier)]) c' := by
  refine ⟨hs, ?_, ?_⟩
  · intro next
    rw [hg, any_replace (fun _ _ _ => by omega) h.goaway hle next]
    simp
  · intro pushId
    simpa [hm] using h.maxPushId pushId

/-- A MAX_PUSH_ID that does not shrink is recorded. -/
theorem Recorded.concat_maxPushId {before : List Item} {c c' : Control} (h : Recorded before c)
    {pushId : ℕ} (hle : c.maxPushId.any (pushId < ·) = false) (hs : c'.settings = true)
    (hg : c'.goaway = c.goaway) (hm : c'.maxPushId = some pushId) :
    Recorded (before ++ [.frame (.maxPushId pushId)]) c' := by
  refine ⟨hs, ?_, ?_⟩
  · intro identifier
    simpa [hg] using h.goaway identifier
  · intro next
    rw [hm, any_replace (fun _ _ _ => by omega) h.maxPushId hle next]
    simp

/-- What one item does after the SETTINGS: it is allowed and recorded, or it names a bad
identifier, or it does not belong here; in the last two cases nothing changes. -/
inductive Verdict (before : List Item) (c : Control) (peerDatagrams : Bool) (item : Item) :
    Applied → Prop
  | accepted {c' : Control} (h : Allowed before item) (hc : Recorded (before ++ [item]) c') :
      Verdict before c peerDatagrams item (.ok (), c', peerDatagrams)
  | badId (h : BadId before item) (detail : String) :
      Verdict before c peerDatagrams item
        (.error (Violation.connection Code.h3IdError detail), c, peerDatagrams)
  | unexpected (h : ¬Allowed before item) (h' : ¬BadId before item) (detail : String) :
      Verdict before c peerDatagrams item (.error (unexpected detail), c, peerDatagrams)

/-- **Everything one item can do after the SETTINGS.** -/
theorem Recorded.accept {before : List Item} {c : Control} (h : Recorded before c)
    (item : Item) (peerDatagrams : Bool) :
    Verdict before c peerDatagrams item (c.accept item peerDatagrams) := by
  have hs := h.settings
  cases item with
  | data bytes =>
      simp only [Control.accept, hs, if_true]
      exact .unexpected (by rintro ⟨⟩) (by rintro ⟨⟩) _
  | skipped kind =>
      simp only [Control.accept, hs, if_true]
      exact .accepted (.skipped kind) (h.concat nofun nofun rfl rfl rfl)
  | frame frame =>
      cases frame with
      | headers block =>
          simp only [Control.accept, acceptFrame, hs]
          exact .unexpected (by rintro ⟨⟩) (by rintro ⟨⟩) _
      | settings settings =>
          simp only [Control.accept, acceptFrame, hs]
          exact .unexpected (by rintro ⟨⟩) (by rintro ⟨⟩) _
      | pushPromise =>
          simp only [Control.accept, acceptFrame, hs]
          exact .unexpected (by rintro ⟨⟩) (by rintro ⟨⟩) _
      | cancelPush pushId =>
          simp only [Control.accept, acceptFrame, hs]
          exact .badId (.cancelPush pushId) _
      | goaway identifier =>
          cases hgrew : c.goaway.any (· < identifier) with
          | true =>
              obtain ⟨earlier, hmem, hlt⟩ := (h.goaway identifier).mp hgrew
              simp only [Control.accept, acceptFrame, hs, hgrew, if_true]
              exact .badId (.goaway hmem hlt) _
          | false =>
              simp only [Control.accept, acceptFrame, hs, hgrew, Bool.false_eq_true, if_false]
              refine .accepted (.goaway ?_) (h.concat_goaway hgrew rfl rfl rfl)
              intro earlier hmem
              by_contra hlt
              have := (h.goaway identifier).mpr ⟨earlier, hmem, by omega⟩
              rw [hgrew] at this
              cases this
      | maxPushId pushId =>
          cases hshrank : c.maxPushId.any (pushId < ·) with
          | true =>
              obtain ⟨earlier, hmem, hlt⟩ := (h.maxPushId pushId).mp hshrank
              simp only [Control.accept, acceptFrame, hs, hshrank, if_true]
              exact .badId (.maxPushId hmem hlt) _
          | false =>
              simp only [Control.accept, acceptFrame, hs, hshrank, Bool.false_eq_true, if_false]
              refine .accepted (.maxPushId ?_) (h.concat_maxPushId hshrank rfl rfl rfl)
              intro earlier hmem
              by_contra hlt
              have := (h.maxPushId pushId).mpr ⟨earlier, hmem, by omega⟩
              rw [hshrank] at this
              cases this

/-- A verdict accepts and records the item, or refuses it and changes nothing. -/
theorem Verdict.accepted_or_refused {before : List Item} {c : Control} {peerDatagrams : Bool}
    {item : Item} {applied : Applied} (h : Verdict before c peerDatagrams item applied) :
    (∃ c', applied = (.ok (), c', peerDatagrams) ∧ Allowed before item ∧
      Recorded (before ++ [item]) c') ∨
    ∃ violation, applied = (.error violation, c, peerDatagrams) ∧ ¬Allowed before item := by
  cases h with
  | accepted hallowed hc => exact Or.inl ⟨_, rfl, hallowed, hc⟩
  | badId hbad detail => exact Or.inr ⟨_, rfl, hbad.not_allowed⟩
  | unexpected hnot _ detail => exact Or.inr ⟨_, rfl, hnot⟩

/-- The first item opens the stream if it is SETTINGS, and is refused otherwise. -/
theorem accept_first (item : Item) :
    (∃ settings, item = .frame (.settings settings) ∧
      default.accept item false =
        (.ok (), { default with settings := true }, settings.datagrams)) ∨
    ((∀ settings, item ≠ .frame (.settings settings)) ∧
      default.accept item false = (.error missingSettings, default, false)) := by
  cases item with
  | data bytes => exact Or.inr ⟨nofun, rfl⟩
  | skipped kind => exact Or.inr ⟨nofun, rfl⟩
  | frame frame =>
      cases frame with
      | settings settings =>
          refine Or.inl ⟨settings, rfl, ?_⟩
          obtain ⟨_ | _⟩ := settings <;> rfl
      | headers => exact Or.inr ⟨nofun, rfl⟩
      | goaway => exact Or.inr ⟨nofun, rfl⟩
      | cancelPush => exact Or.inr ⟨nofun, rfl⟩
      | maxPushId => exact Or.inr ⟨nofun, rfl⟩
      | pushPromise => exact Or.inr ⟨nofun, rfl⟩

/-- The SETTINGS leave an empty record. -/
theorem recorded_settings : Recorded [] { default with settings := true } :=
  ⟨rfl, by simp [default], by simp [default]⟩

/-! ### Runs -/

/-- **A run after the SETTINGS**: it is accepted exactly when every item is allowed after the
ones before it, it leaves a record of all of them, and it does not touch the flag. -/
theorem Recorded.feedAll {before : List Item} {c : Control} (h : Recorded before c)
    (peerDatagrams : Bool) (rest : List Item) :
    (Incremental.feedAll acceptStep (c, peerDatagrams) rest).state.2 = peerDatagrams ∧
    ((Incremental.feedAll acceptStep (c, peerDatagrams) rest).error = none →
      Recorded (before ++ rest)
        (Incremental.feedAll acceptStep (c, peerDatagrams) rest).state.1) ∧
    ((Incremental.feedAll acceptStep (c, peerDatagrams) rest).error = none ↔
      ∀ between item after, rest = between ++ item :: after →
        Allowed (before ++ between) item) := by
  induction rest generalizing before c with
  | nil => exact ⟨rfl, fun _ => by rw [List.append_nil]; exact h, by simp [Outcome.idle]⟩
  | cons item rest ih =>
      rw [feedAll_cons]
      rcases (h.accept item peerDatagrams).accepted_or_refused with
        ⟨c', happlied, hallowed, hc⟩ | ⟨violation, happlied, hnot⟩
      · have hstep : acceptStep (c, peerDatagrams) item = Outcome.idle (c', peerDatagrams) := by
          simp only [acceptStep, happlied]
        rw [hstep, Outcome.idle_andThen]
        obtain ⟨hflag, hrecord, hiff⟩ := ih hc
        refine ⟨hflag, ?_, hiff.trans ?_⟩
        · intro herror
          simpa using hrecord herror
        · constructor
          · rintro hall (_ | ⟨first, between⟩) item' after heq
            · cases heq
              simpa using hallowed
            · cases heq
              simpa using hall between item' after rfl
          · intro hall between item' after heq
            simpa using hall (item :: between) item' after (by rw [heq]; rfl)
      · have hstep : acceptStep (c, peerDatagrams) item =
            ⟨[], (c, peerDatagrams), some violation⟩ := by
          simp only [acceptStep, happlied]
        rw [hstep, Outcome.stopped_andThen]
        refine ⟨rfl, fun h => absurd h (Option.some_ne_none _),
          iff_of_false (Option.some_ne_none _) ?_⟩
        intro hall
        exact hnot (by simpa using hall [] item rest rfl)

/-- Feeding a sequence that starts with SETTINGS. -/
theorem acceptAll_settings (settings : Settings) (rest : List Item) :
    acceptAll (.frame (.settings settings) :: rest) =
      Incremental.feedAll acceptStep ({ default with settings := true }, settings.datagrams)
        rest := by
  obtain ⟨_ | _⟩ := settings <;> rfl

/-- Feeding a sequence that starts with anything else. -/
theorem acceptAll_other {item : Item} (h : ∀ settings, item ≠ .frame (.settings settings))
    (rest : List Item) :
    acceptAll (item :: rest) = ⟨[], (default, false), some missingSettings⟩ := by
  rcases accept_first item with ⟨settings, rfl, -⟩ | ⟨-, happlied⟩
  · exact absurd rfl (h settings)
  · have hstep : acceptStep (default, false) item =
        ⟨[], (default, false), some missingSettings⟩ := by
      simp only [acceptStep, happlied]
    rw [acceptAll, feedAll_cons, hstep, Outcome.stopped_andThen]

/-- Whether an item is SETTINGS. -/
theorem settings_or_other (item : Item) :
    (∃ settings, item = .frame (.settings settings)) ∨
      ∀ settings, item ≠ .frame (.settings settings) := by
  rcases accept_first item with ⟨settings, h, -⟩ | ⟨h, -⟩
  · exact Or.inl ⟨settings, h⟩
  · exact Or.inr h

/-- **Exactly the conforming sequences are accepted.** -/
theorem acceptAll_eq_none_iff (items : List Item) :
    (acceptAll items).error = none ↔ Conforms items := by
  cases items with
  | nil => exact iff_of_true rfl (Or.inl rfl)
  | cons item rest =>
      rcases settings_or_other item with ⟨settings, rfl⟩ | hother
      · rw [acceptAll_settings, (recorded_settings.feedAll settings.datagrams rest).2.2]
        simp [Conforms]
      · rw [acceptAll_other hother]
        refine iff_of_false nofun ?_
        rintro (hnil | ⟨settings, rest', heq, -⟩)
        · cases hnil
        · exact hother settings (List.cons_eq_cons.mp heq).1

/-- The SETTINGS in front name no identifier. -/
theorem badId_cons_settings {settings : Settings} {rest : List Item} {item : Item} :
    BadId (.frame (.settings settings) :: rest) item ↔ BadId rest item := by
  constructor
  · intro h
    cases h with
    | goaway hmem hlt => exact .goaway (by simpa using hmem) hlt
    | maxPushId hmem hlt => exact .maxPushId (by simpa using hmem) hlt
    | cancelPush pushId => exact .cancelPush pushId
  · intro h
    cases h with
    | goaway hmem hlt => exact .goaway (by simpa using hmem) hlt
    | maxPushId hmem hlt => exact .maxPushId (by simpa using hmem) hlt
    | cancelPush pushId => exact .cancelPush pushId

/-- What the answer to a refused item says: which code, always for the connection, and
nothing recorded. -/
structure Refusal (before : List Item) (item : Item) (violation : Violation) : Prop where
  connection : violation.isConnectionError = true
  missingSettings : violation.code = Code.h3MissingSettings ↔
    before = [] ∧ ∀ settings, item ≠ .frame (.settings settings)
  idError : violation.code = Code.h3IdError ↔ before ≠ [] ∧ BadId before item
  otherwise : violation.code = Code.h3MissingSettings ∨ violation.code = Code.h3IdError ∨
    violation.code = Code.h3FrameUnexpected

/-- **The answers to the first item that is refused**, which leaves everything as it was. -/
theorem refusal_of_accept {before : List Item} (hbefore : (acceptAll before).error = none)
    {item : Item} {violation : Violation}
    (h : ((acceptAll before).state.1.accept item (acceptAll before).state.2).1 =
      .error violation) :
    Refusal before item violation ∧
      ((acceptAll before).state.1.accept item (acceptAll before).state.2).2 =
        (acceptAll before).state := by
  cases before with
  | nil =>
      rcases accept_first item with ⟨settings, rfl, happlied⟩ | ⟨hother, happlied⟩
      · rw [show (acceptAll []).state = (default, false) from rfl, happlied] at h
        cases h
      · rw [show (acceptAll []).state = (default, false) from rfl, happlied] at h ⊢
        cases h
        exact ⟨⟨rfl, by simp [Volto.missingSettings, Violation.connection, hother],
          by simp [Volto.missingSettings, Violation.connection, Code.h3MissingSettings,
            Code.h3IdError], Or.inl rfl⟩, rfl⟩
  | cons first rest =>
      rcases settings_or_other first with ⟨settings, rfl⟩ | hother
      · obtain ⟨-, hrecord, -⟩ := recorded_settings.feedAll settings.datagrams rest
        rw [← acceptAll_settings] at hrecord
        have hverdict := (hrecord hbefore).accept item
          (acceptAll (.frame (.settings settings) :: rest)).state.2
        generalize (acceptAll (.frame (.settings settings) :: rest)).state.1.accept item
          (acceptAll (.frame (.settings settings) :: rest)).state.2 = applied at h hverdict ⊢
        cases hverdict with
        | accepted => cases h
        | badId hbad detail =>
            cases h
            exact ⟨⟨rfl, by simp [Violation.connection, Code.h3IdError, Code.h3MissingSettings],
              by simpa [Violation.connection, badId_cons_settings] using hbad,
              Or.inr (Or.inl rfl)⟩, rfl⟩
        | unexpected _ hbad detail =>
            cases h
            exact ⟨⟨rfl, by simp [Volto.unexpected, Violation.connection,
                Code.h3FrameUnexpected, Code.h3MissingSettings],
              by simpa [Volto.unexpected, Violation.connection, badId_cons_settings,
                Code.h3FrameUnexpected, Code.h3IdError] using hbad, Or.inr (Or.inr rfl)⟩, rfl⟩
      · rw [acceptAll_other hother] at hbefore
        cases hbefore

/-- **The control stream accepts exactly one language.** A sequence of items is accepted to
its end exactly when it conforms. The first item that is refused ends the run with a
connection error: `H3_MISSING_SETTINGS` exactly for a first item that is not SETTINGS,
`H3_ID_ERROR` exactly for a later one that names an identifier it may not, and
`H3_FRAME_UNEXPECTED` otherwise; it leaves the state as it was. The peer is known to take
datagrams exactly when the sequence started with SETTINGS that said so. -/
theorem control_language (items : List Item) :
    ((acceptAll items).error = none ↔ Conforms items) ∧
    (∀ before item after violation, items = before ++ item :: after →
      (acceptAll before).error = none →
      ((acceptAll before).state.1.accept item (acceptAll before).state.2).1 =
        .error violation →
      Refusal before item violation ∧ (acceptAll items).error = some violation ∧
        (acceptAll items).state = (acceptAll before).state) ∧
    ((acceptAll items).state.2 = true ↔
      ∃ settings rest, items = .frame (.settings settings) :: rest ∧
        settings.datagrams = true) := by
  refine ⟨acceptAll_eq_none_iff items, ?_, ?_⟩
  · rintro before item after violation rfl hbefore h
    obtain ⟨hrefusal, hsame⟩ := refusal_of_accept hbefore h
    have hstep : acceptStep (acceptAll before).state item =
        ⟨[], (acceptAll before).state, some violation⟩ := by
      rw [acceptStep]
      generalize (acceptAll before).state.1.accept item (acceptAll before).state.2 = applied
        at h hsame ⊢
      obtain ⟨result, s'⟩ := applied
      simp only at h hsame
      subst h hsame
      rfl
    have hrun : acceptAll (before ++ item :: after) =
        ⟨(acceptAll before).out ++ [], (acceptAll before).state, some violation⟩ := by
      have happend := feedAll_append acceptStep (default, false) before (item :: after)
      rw [← acceptAll, ← acceptAll] at happend
      rw [happend, Outcome.andThen, hbefore]
      simp only [feedAll_cons, hstep, Outcome.stopped_andThen]
    rw [hrun]
    exact ⟨hrefusal, rfl, rfl⟩
  · cases items with
    | nil =>
        refine iff_of_false Bool.false_ne_true ?_
        rintro ⟨settings, rest, heq, -⟩
        cases heq
    | cons item rest =>
        rcases settings_or_other item with ⟨settings, rfl⟩ | hother
        · rw [acceptAll_settings, (recorded_settings.feedAll settings.datagrams rest).1]
          simp
        · rw [acceptAll_other hother]
          refine iff_of_false Bool.false_ne_true ?_
          rintro ⟨settings, rest', heq, -⟩
          exact hother settings (List.cons_eq_cons.mp heq).1

/-- A CANCEL_PUSH that comes first is missing SETTINGS before it is anything else. -/
theorem first_cancelPush_missingSettings :
    (acceptAll [.frame (.cancelPush 0)]).error = some missingSettings ∧
      missingSettings.code ≠ Code.h3IdError :=
  ⟨rfl, by decide⟩

end Control

end Volto
