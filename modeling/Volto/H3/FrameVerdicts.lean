import Volto.H3.FrameBudget

/-!
# Which Frames a Decoder Acts On

A frame is judged when its header is complete, by its type and before its length. This
module follows one decoder through whole runs: chunks pushed at any time, calls made with
whatever the other streams have left of the budget, and the narrowing to a tunnel at any
point. `Op` is one such step and `performAll` a run of them; every call of a run is
`nextItem` at the decoder that some list of operations leads to.

## Main results

* `nextItem_of_announces`: a type that may not appear is refused whatever its length.
* `fieldSectionTooLarge_of_nextItem`: where a 431 can come from.
* `verdict_by_type`: the verdicts over every run.
-/

namespace Volto

namespace FrameDecoder

open Volto.Frame (peekHeader)

/-! ### Runs of one decoder -/

/-- What happens to one decoder: a chunk arrives, an item is asked for while the connection's
budget is as given, the CONNECT is answered. -/
inductive Op
  | push (chunk : List UInt8)
  | nextItem (budget : BufferBudget)
  | connectCompleted

/-- The decoder after one operation. -/
def perform (d : FrameDecoder) : Op → FrameDecoder
  | .push chunk => d.push chunk
  | .nextItem budget => (d.nextItem budget).2.1
  | .connectCompleted => d.connectCompleted

/-- The decoder after a run. -/
def performAll (d : FrameDecoder) (ops : List Op) : FrameDecoder :=
  ops.foldl perform d

/-- **The rule for runs**: a property of decoders that no push, no narrowing and no pass can
break holds throughout. -/
theorem performAll_induction {P : FrameDecoder → Prop}
    (push : ∀ d chunk, P d → P (d.push chunk))
    (connect : ∀ d, P d → P d.connectCompleted)
    (again : ∀ d budget d' budget', Pass d budget (.again d' budget') → P d → P d')
    (done : ∀ d budget result d' budget', Pass d budget (.done result d' budget') → P d → P d')
    {d : FrameDecoder} (h : P d) (ops : List Op) : P (d.performAll ops) := by
  refine List.foldlRecOn (motive := P) ops perform h ?_
  intro d h op _
  cases op with
  | push chunk => exact push d chunk h
  | connectCompleted => exact connect d h
  | nextItem budget =>
      revert h
      refine nextItem_induction (motive := fun d _ r => P d → P r.2.1) ?_ ?_ d budget
      · intro d budget result d' budget' hpass h
        exact done d budget result d' budget' hpass h
      · intro d budget d' budget' r hpass ih h
        exact ih (again d budget d' budget' hpass h)

/-! ### Announcements -/

/-- The type and length announced by the header the next call completes, if it does. -/
def announces (d : FrameDecoder) : Option (ℕ × ℕ) :=
  if d.state = .header then d.takeFrameHeader.1 else none

/-- The header loop stops at the first byte that completes the header. -/
theorem takeFrameHeaderLoop_of_peekHeader {header used rest : List UInt8} {r : ℕ × ℕ}
    (hp : peekHeader (header ++ used) = some r)
    (hmin : ∀ k < used.length, peekHeader (header ++ used.take k) = none) :
    takeFrameHeaderLoop header (used ++ rest) = (some r, [], rest) := by
  induction used generalizing header with
  | nil =>
      rw [List.append_nil] at hp
      cases rest <;> simp [takeFrameHeaderLoop, hp]
  | cons byte used ih =>
      have hnone : peekHeader header = none := by simpa using hmin 0 (by simp)
      simp only [List.cons_append, takeFrameHeaderLoop, hnone]
      refine ih (by simpa using hp) ?_
      intro k hk
      simpa using hmin (k + 1) (by simpa using hk)

/-- A pass that completes a header announces what the header says. -/
theorem announces_of_peekHeader {d : FrameDecoder} (hs : d.state = .header)
    {used rest : List UInt8} {kind length : ℕ} (hc : d.chunk = used ++ rest)
    (hp : peekHeader (d.header ++ used) = some (kind, length))
    (hmin : ∀ k < used.length, peekHeader (d.header ++ used.take k) = none) :
    d.announces = some (kind, length) := by
  rw [announces, if_pos hs, takeFrameHeader, hc, takeFrameHeaderLoop_of_peekHeader hp hmin]

/-- A frame that `begin` refuses ends the call with that refusal. -/
theorem nextItem_of_announces {d : FrameDecoder} {kind length : ℕ} {violation : Violation}
    (ha : d.announces = some (kind, length))
    (hb : Frame.begin d.stream kind length = .error violation) (budget : BufferBudget) :
    (d.nextItem budget).1 = .error violation := by
  rw [announces] at ha
  split_ifs at ha with hs
  obtain ⟨result, d', hd'⟩ : ∃ result d', d.takeFrameHeader = (result, d') := ⟨_, _, rfl⟩
  have hstream : d'.stream = d.stream := by
    rw [show d' = d.takeFrameHeader.2 by rw [hd']]
    rfl
  rw [hd'] at ha
  simp only at ha
  subst ha
  have hiter : d.iterate budget = .done (.error violation) d' budget := by
    simp only [iterate, hs, hd', hstream, hb]
  rw [nextItem_of_done hiter]

/-- The one answer to a type that may not appear. -/
def Unexpected (result : Except Violation (Option Item)) : Prop :=
  ∃ detail, result = .error (Violation.connection Code.h3FrameUnexpected detail)

/-- **The type is judged before the length**: a reserved or misplaced type is unexpected
whatever length it declares. -/
theorem unexpected_of_announces {d : FrameDecoder} {kind length : ℕ}
    (ha : d.announces = some (kind, length))
    (hkind : reservedHttp2Types.contains kind = true ∨ (Frame.misplaced d.stream kind).isSome)
    (budget : BufferBudget) : Unexpected (d.nextItem budget).1 := by
  rcases Frame.begin_cases d.stream kind length with ⟨-, detail, hb⟩ | ⟨hres, hmis, -⟩
  · exact ⟨detail, nextItem_of_announces ha hb budget⟩
  · rcases hkind with h | h
    · rw [hres] at h
      cases h
    · rw [hmis] at h
      cases h

/-! ### Where a 431 comes from -/

/-- A setting that is refused is a connection error. -/
theorem applySetting_error {settings : Settings} {identifier value : ℕ} {violation : Violation}
    (h : Frame.applySetting settings identifier value = .error violation) :
    violation.isFieldSectionTooLarge = false := by
  simp only [Frame.applySetting, Frame.boolean] at h
  split_ifs at h
  rcases value with _ | _ | value
  · cases h
  · cases h
  · cases h
    rfl

/-- A SETTINGS payload that does not parse is a connection error. -/
theorem parseSettingsLoop_error {settings : Settings} {seen : List ℕ} {payload : List UInt8}
    {violation : Violation}
    (h : Frame.parseSettingsLoop settings seen payload = .error violation) :
    violation.isFieldSectionTooLarge = false := by
  fun_induction Frame.parseSettingsLoop settings seen payload with
  | case1 => cases h
  | case2 => cases h; rfl
  | case3 => cases h; rfl
  | case4 => cases h; rfl
  | case5 => cases h; rfl
  | case6 settings seen payload _ _ _ _ _ _ _ _ _ violation' happly =>
      cases h
      exact applySetting_error happly
  | case7 settings seen payload _ _ _ _ _ _ _ _ _ settings' happly ih => exact ih h

/-- A payload that is not one varint is a connection error. -/
theorem singleVarint_error {kind : ℕ} {payload : List UInt8} {violation : Violation}
    (h : Frame.singleVarint kind payload = .error violation) :
    violation.isFieldSectionTooLarge = false := by
  rw [Frame.singleVarint] at h
  split at h
  · split_ifs at h
    cases h
    rfl
  · cases h
    rfl

/-- An error survives a map. -/
theorem error_of_map {α β : Type} {f : α → β} {x : Except Violation α} {violation : Violation}
    (h : x.map f = .error violation) : x = .error violation := by
  cases x with
  | error e => exact congrArg Except.error (Except.error.inj h)
  | ok a => cases h

/-- A payload that does not parse is never a field section too large. -/
theorem parse_error {kind : BufferedKind} {payload : List UInt8} {violation : Violation}
    (h : Frame.parse kind payload = .error violation) :
    violation.isFieldSectionTooLarge = false := by
  cases kind with
  | headers => cases h
  | settings => exact parseSettingsLoop_error (error_of_map h)
  | goaway => exact singleVarint_error (error_of_map h)
  | cancelPush => exact singleVarint_error (error_of_map h)
  | maxPushId => exact singleVarint_error (error_of_map h)
  | pushPromise => cases h

/-- Too many skipped frames are not a field section either. -/
theorem countSkip_error {d d' : FrameDecoder} {violation : Violation}
    (h : d.countSkip = (some violation, d')) : violation.isFieldSectionTooLarge = false := by
  simp only [countSkip] at h
  split_ifs at h with hreq hmax
  · cases h
    rfl
  · cases h
  · cases h

/-- Where a field section too large can come from: a type that may appear on this stream and
is buffered, with a length past the per-frame bound or past what the budget has left. -/
def Oversized (d : FrameDecoder) (budget : BufferBudget) : Prop :=
  ∃ (buffered : BufferedKind) (length : ℕ), d.announces = some (buffered.frameType, length) ∧
    reservedHttp2Types.contains buffered.frameType = false ∧
    Frame.misplaced d.stream buffered.frameType = none ∧
    (maxBufferedFrame < length ∨ headersBufferBudget < budget.held + length)

/-- An announcement refused as too large is oversized. -/
theorem oversized_of_begin_error {d : FrameDecoder} {kind length : ℕ} {violation : Violation}
    (ha : d.announces = some (kind, length))
    (hb : Frame.begin d.stream kind length = .error violation)
    (hlarge : violation.isFieldSectionTooLarge = true) (budget : BufferBudget) :
    violation.isConnectionError = false ∧ d.Oversized budget := by
  rcases Frame.begin_cases d.stream kind length with
    ⟨-, detail, h⟩ | ⟨hres, hmis, ⟨-, h⟩ | ⟨-, -, h⟩ | ⟨buffered, rfl, ⟨hlt, detail, h⟩ | ⟨-, h⟩⟩⟩
  · rw [h] at hb
    cases hb
    cases hlarge
  · rw [h] at hb
    cases hb
  · rw [h] at hb
    cases hb
  · rw [h] at hb
    cases hb
    exact ⟨rfl, buffered, length, ha, hres, hmis, Or.inl hlt⟩
  · rw [h] at hb
    cases hb

/-- An announcement refused by the budget is oversized. -/
theorem oversized_of_charge_error {d : FrameDecoder} {kind length : ℕ} {buffered : BufferedKind}
    {budget : BufferBudget} {violation : Violation} (ha : d.announces = some (kind, length))
    (hb : Frame.begin d.stream kind length = .ok (.buffering buffered length))
    (hcharge : budget.charge length = .error violation) :
    violation.isConnectionError = false ∧ d.Oversized budget := by
  have hlt := (BufferBudget.charge_eq_error hcharge).1
  have hstream : violation.isConnectionError = false := by
    simp only [BufferBudget.charge] at hcharge
    split_ifs at hcharge
    cases hcharge
    rfl
  obtain ⟨rfl, -, -, hres, hmis⟩ := Frame.begin_eq_buffering hb
  exact ⟨hstream, buffered, length, ha, hres, hmis, Or.inr hlt⟩

/-- **A 431 has one cause.** Whatever call reports a field section too large, the frame it
had just been announced was admissible by type and too long, and the violation ends the
stream only. -/
theorem fieldSectionTooLarge_of_nextItem (d : FrameDecoder) (budget : BufferBudget)
    (violation : Violation) (h : (d.nextItem budget).1 = .error violation)
    (hlarge : violation.isFieldSectionTooLarge = true) :
    violation.isConnectionError = false ∧ d.Oversized budget := by
  revert h
  refine nextItem_induction (motive := fun d budget r => r.1 = .error violation →
    violation.isConnectionError = false ∧ d.Oversized budget) ?_ ?_ d budget
  · intro d budget result d' budget' hpass h
    cases hpass with
    | headerPartial => cases h
    | refused hs hc hp hmin hb =>
        cases h
        exact oversized_of_begin_error (announces_of_peekHeader hs hc hp hmin) hb hlarge budget
    | overBudget hs hc hp hmin hb hcharge =>
        cases h
        exact oversized_of_charge_error (announces_of_peekHeader hs hc hp hmin) hb hcharge
    | dataEmpty => cases h
    | dataWait => cases h
    | dataPiece => cases h
    | bufferMore => cases h
    | bufferWhole hs hle =>
        rw [parse_error (error_of_map h)] at hlarge
        cases hlarge
    | skipMore => cases h
    | skipWhole => cases h
    | skipFlood hs hle hcount =>
        cases h
        rw [countSkip_error hcount] at hlarge
        cases hlarge
  · intro d budget d' budget' r hpass ih h
    -- only a header can be oversized, and this pass has left the header behind
    obtain ⟨-, buffered, length, ha, -⟩ := ih h
    cases hpass <;> simp [announces] at ha

/-! ### What is produced -/

/-- The invariant of a decoder made for a request stream: it buffers nothing but HEADERS,
before and after the narrowing. -/
structure OnRequest (d : FrameDecoder) : Prop where
  stream_ne : d.stream ≠ .control
  buffering : ∀ kind remaining, d.state = .buffering kind remaining → kind = .headers

/-- The frame types a client may not send on a request stream. -/
def controlTypes : List ℕ :=
  [FrameType.settings, FrameType.goaway, FrameType.cancelPush, FrameType.maxPushId,
    FrameType.pushPromise]

/-- Away from the control stream a type of the control stream is misplaced. -/
theorem misplaced_of_mem_controlTypes {stream : StreamKind} {kind : ℕ}
    (hstream : stream ≠ .control) (h : kind ∈ controlTypes) :
    (Frame.misplaced stream kind).isSome := by
  simp only [controlTypes, List.mem_cons, List.not_mem_nil, or_false] at h
  cases stream with
  | control => exact absurd rfl hstream
  | request => rcases h with rfl | rfl | rfl | rfl | rfl <;> rfl
  | tunnel => rcases h with rfl | rfl | rfl | rfl | rfl <;> rfl

/-- On a tunnel every known type but DATA is misplaced. -/
theorem misplaced_tunnel (kind : BufferedKind) :
    (Frame.misplaced .tunnel kind.frameType).isSome := by
  cases kind <;> rfl

/-- Every buffered type but HEADERS is one of them. -/
theorem frameType_mem_controlTypes {kind : BufferedKind} (h : kind ≠ .headers) :
    kind.frameType ∈ controlTypes := by
  cases kind with
  | headers => exact absurd rfl h
  | settings | goaway | cancelPush | maxPushId | pushPromise => decide

/-- A type that may appear away from the control stream and is buffered is HEADERS. -/
theorem headers_of_not_misplaced {stream : StreamKind} (hstream : stream ≠ .control)
    {kind : BufferedKind} (h : Frame.misplaced stream kind.frameType = none) :
    kind = .headers := by
  by_contra hne
  have hsome := misplaced_of_mem_controlTypes hstream (frameType_mem_controlTypes hne)
  rw [h] at hsome
  cases hsome

/-- **Every run of a request decoder keeps to HEADERS.** -/
theorem onRequest_performAll (ops : List Op) : ((new .request).performAll ops).OnRequest := by
  refine performAll_induction (P := OnRequest) ?_ ?_ ?_ ?_ ⟨by simp [new], by simp [new]⟩ ops
  · intro d chunk h
    exact ⟨h.stream_ne, h.buffering⟩
  · intro d h
    exact ⟨by simp [connectCompleted], h.buffering⟩
  · intro d budget d' budget' hpass h
    obtain ⟨hstream, -, hbuffering⟩ := hpass.of_again
    refine ⟨hstream ▸ h.stream_ne, ?_⟩
    intro kind remaining hs
    exact headers_of_not_misplaced h.stream_ne (hbuffering kind remaining hs)
  · intro d budget result d' budget' hpass h
    obtain ⟨hstream, hbuffering⟩ := hpass.of_done
    refine ⟨hstream ▸ h.stream_ne, ?_⟩
    intro kind remaining hs
    obtain ⟨remaining', hs'⟩ := hbuffering kind remaining hs
    exact h.buffering kind remaining' hs'

/-- The invariant of a decoder narrowed while no frame was being buffered: none ever is. -/
structure Narrowed (d : FrameDecoder) : Prop where
  stream_eq : d.stream = .tunnel
  not_buffering : ∀ kind remaining, d.state ≠ .buffering kind remaining

/-- For a narrowed decoder no type that is buffered may appear. -/
theorem Narrowed.misplaced {d : FrameDecoder} (h : d.Narrowed) (kind : BufferedKind) :
    Frame.misplaced d.stream kind.frameType ≠ none := by
  rw [h.stream_eq]
  exact Option.isSome_iff_ne_none.mp (misplaced_tunnel kind)

/-- On a tunnel nothing is buffered. -/
theorem Narrowed.again {d d' : FrameDecoder} {budget budget' : BufferBudget} (h : d.Narrowed)
    (hpass : Pass d budget (.again d' budget')) : d'.Narrowed := by
  obtain ⟨hstream, -, hbuffering⟩ := hpass.of_again
  refine ⟨hstream.trans h.stream_eq, ?_⟩
  intro kind remaining hs
  exact h.misplaced kind (hbuffering kind remaining hs)

/-- A narrowed decoder stays one. -/
theorem Narrowed.done {d d' : FrameDecoder} {budget budget' : BufferBudget}
    {result : Except Violation (Option Item)} (h : d.Narrowed)
    (hpass : Pass d budget (.done result d' budget')) : d'.Narrowed := by
  obtain ⟨hstream, hbuffering⟩ := hpass.of_done
  refine ⟨hstream.trans h.stream_eq, ?_⟩
  intro kind remaining hs
  obtain ⟨remaining', hs'⟩ := hbuffering kind remaining hs
  exact h.not_buffering kind remaining' hs'

/-- **Every run from the narrowing on stays narrowed.** -/
theorem narrowed_performAll {d : FrameDecoder} (h : d.isBuffering = false) (ops : List Op) :
    (d.connectCompleted.performAll ops).Narrowed := by
  refine performAll_induction (P := Narrowed) ?_ ?_ ?_ ?_ ⟨rfl, ?_⟩ ops
  · intro d chunk h
    exact ⟨h.stream_eq, h.not_buffering⟩
  · intro d h
    exact ⟨rfl, h.not_buffering⟩
  · intro d budget d' budget' hpass h
    exact h.again hpass
  · intro d budget result d' budget' hpass h
    exact h.done hpass
  · intro kind remaining hs
    rw [isBuffering] at h
    rw [show d.state = .buffering kind remaining from hs] at h
    cases h

/-- What is asked of the budget is the length of a frame that may appear and is buffered. -/
theorem not_misplaced_of_asks {d : FrameDecoder} {bytes : ℕ} (h : d.asks = some bytes) :
    ∃ kind : BufferedKind, Frame.misplaced d.stream kind.frameType = none := by
  rw [asks] at h
  split at h
  case h_2 => cases h
  case h_1 =>
    split at h
    case h_2 => cases h
    case h_1 =>
      split at h
      case h_2 => cases h
      case h_1 kind remaining hb =>
        obtain ⟨rfl, -, -, -, hmis⟩ := Frame.begin_eq_buffering hb
        exact ⟨kind, hmis⟩

/-- A narrowed decoder asks the budget for nothing. -/
theorem Narrowed.asks {d : FrameDecoder} (h : d.Narrowed) : d.asks = none := by
  cases hasks : d.asks with
  | none => rfl
  | some bytes =>
      obtain ⟨kind, hmis⟩ := not_misplaced_of_asks hasks
      exact absurd hmis (h.misplaced kind)

/-- The frame a call hands out was being buffered, or had just been announced. -/
theorem frame_of_nextItem {P : BufferedKind → Prop} (d : FrameDecoder) (budget : BufferBudget)
    (hbuffering : ∀ kind remaining, d.state = .buffering kind remaining → P kind)
    (hannounce : ∀ kind, Frame.misplaced d.stream kind.frameType = none → P kind) {f : Frame}
    (h : (d.nextItem budget).1 = .ok (some (.frame f))) :
    ∃ kind payload, P kind ∧ Frame.parse kind payload = .ok f := by
  revert hbuffering hannounce h
  refine nextItem_induction (motive := fun d _ r =>
    (∀ kind remaining, d.state = .buffering kind remaining → P kind) →
    (∀ kind, Frame.misplaced d.stream kind.frameType = none → P kind) →
    r.1 = .ok (some (.frame f)) → ∃ kind payload, P kind ∧ Frame.parse kind payload = .ok f)
    ?_ ?_ d budget
  · intro d budget result d' budget' hpass hbuffering hannounce h
    cases hpass with
    | headerPartial => cases h
    | refused => cases h
    | overBudget => cases h
    | dataEmpty => cases h
    | dataWait => cases h
    | dataPiece => cases h
    | bufferMore => cases h
    | @bufferWhole kind remaining hs hle =>
        refine ⟨kind, d.payload ++ d.chunk.take remaining, hbuffering _ _ hs, ?_⟩
        cases hparse : Frame.parse kind (d.payload ++ d.chunk.take remaining) with
        | error violation => simp [hparse, Except.map] at h
        | ok f' => simpa [hparse, Except.map] using h
    | skipMore => cases h
    | skipWhole => cases h
    | skipFlood => cases h
  · intro d budget d' budget' r hpass ih hbuffering hannounce h
    obtain ⟨hstream, -, hmis⟩ := hpass.of_again
    refine ih ?_ ?_ h
    · intro kind remaining hs
      exact hannounce kind (hmis kind remaining hs)
    · rw [hstream]
      exact hannounce

/-- A call on a narrowed decoder leaves the budget alone. -/
theorem Narrowed.budget_eq {d : FrameDecoder} (h : d.Narrowed) (budget : BufferBudget) :
    (d.nextItem budget).2.2 = budget := by
  revert h
  refine nextItem_induction (motive := fun d budget r => d.Narrowed → r.2.2 = budget)
    ?_ ?_ d budget
  · intro d budget result d' budget' hpass h
    cases hpass with
    | bufferWhole hs hle => exact absurd hs (h.not_buffering _ _)
    | headerPartial | refused | overBudget | dataEmpty | dataWait | dataPiece | bufferMore
    | skipMore | skipWhole | skipFlood => rfl
  · intro d budget d' budget' r hpass ih h
    have hnarrowed := h.again hpass
    rw [ih hnarrowed]
    cases hpass with
    | announceBuffered => exact absurd rfl (hnarrowed.not_buffering _ _)
    | announceData | announceSkipped => rfl

/-- **Which frames a decoder acts on is decided by type before length**, at every call of
every run, whatever the other streams have left of the budget.

A decoder made for a request stream hands out no frame but HEADERS, and the announcement of
a type that belongs on the control stream is unexpected. Once the CONNECT has completed with
no frame being buffered, no frame is handed out, nothing is asked of the budget and nothing
changes in it, and every known type but DATA is unexpected. A type reserved for HTTP/2 is
unexpected everywhere. A field section too large is a stream error about a type that may
appear, with a length past one of the two bounds. -/
theorem verdict_by_type (ops : List Op) (budget : BufferBudget) :
    (∀ f, (((new .request).performAll ops).nextItem budget).1 = .ok (some (.frame f)) →
      ∃ block, f = .headers block) ∧
    (∀ kind length, ((new .request).performAll ops).announces = some (kind, length) →
      kind ∈ controlTypes → Unexpected (((new .request).performAll ops).nextItem budget).1) ∧
    (∀ stream later, ((new stream).performAll ops).isBuffering = false →
      let d := ((new stream).performAll ops).connectCompleted.performAll later
      (∀ f, (d.nextItem budget).1 ≠ .ok (some (.frame f))) ∧
      d.asks = none ∧ (d.nextItem budget).2.2 = budget ∧
      ∀ (kind : BufferedKind) (length : ℕ), d.announces = some (kind.frameType, length) →
        Unexpected (d.nextItem budget).1) ∧
    (∀ stream kind length, ((new stream).performAll ops).announces = some (kind, length) →
      kind ∈ reservedHttp2Types →
        Unexpected (((new stream).performAll ops).nextItem budget).1) ∧
    (∀ stream violation,
      (((new stream).performAll ops).nextItem budget).1 = .error violation →
      violation.isFieldSectionTooLarge = true →
        violation.isConnectionError = false ∧
          ((new stream).performAll ops).Oversized budget) := by
  refine ⟨?_, ?_, ?_, ?_, ?_⟩
  · intro f h
    have hreq := onRequest_performAll ops
    obtain ⟨kind, payload, rfl, hparse⟩ := frame_of_nextItem (P := (· = .headers)) _ budget
      hreq.buffering (fun kind => headers_of_not_misplaced hreq.stream_ne) h
    exact ⟨payload, (Except.ok.inj hparse).symm⟩
  · intro kind length ha hkind
    have hreq := onRequest_performAll ops
    exact unexpected_of_announces ha
      (Or.inr (misplaced_of_mem_controlTypes hreq.stream_ne hkind)) budget
  · intro stream later hidle d
    have h : d.Narrowed := narrowed_performAll hidle later
    refine ⟨?_, h.asks, h.budget_eq budget, ?_⟩
    · intro f hf
      obtain ⟨kind, payload, hfalse, -⟩ := frame_of_nextItem (P := fun _ => False) _ budget
        h.not_buffering h.misplaced hf
      exact hfalse
    · intro kind length ha
      exact unexpected_of_announces ha (Or.inr (h.stream_eq ▸ misplaced_tunnel kind)) budget
  · intro stream kind length ha hkind
    exact unexpected_of_announces ha (Or.inl (by simpa using hkind)) budget
  · intro stream violation h hlarge
    exact fieldSectionTooLarge_of_nextItem _ budget violation h hlarge

end FrameDecoder

end Volto
