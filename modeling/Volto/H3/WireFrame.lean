import Volto.H3.FrameMachine

/-!
# Frames as They Are Written

A `WireFrame` is a type and a payload, and `encode` writes it as `putHeader` does. `Admissible` are
the frames a stream takes, each with what its payload has to parse to, and `Group` the items that
carry one written frame: pieces of a DATA payload, or a single item for anything else.

What the byte machine says about a frame are events, and the decoder cuts these into items
as the chunks fall. `Yields` connects the two: events that end a frame and leave only groups
of that frame to stand for them, however they are cut.

## Main results

* `Admissible.begin`: an admissible frame is entered.
* `groups_of_yields`: the items of a sequence of frames are one group for each.
-/

namespace Volto

open Incremental

/-! ### Writing -/

/-- A frame as it is written: its type and its payload. -/
structure WireFrame where
  kind : ℕ
  payload : List UInt8
deriving DecidableEq, Repr

/-- Types this server has no use for: neither known nor reserved for HTTP/2. -/
def isUnknown (kind : ℕ) : Bool :=
  kind ≠ FrameType.data && (BufferedKind.fromType kind).isNone &&
    !reservedHttp2Types.contains kind

namespace WireFrame

/-- The header and then the payload, or `none` where a varint cannot be written. -/
def encode (f : WireFrame) : Option (List UInt8) :=
  (Frame.putHeader f.kind f.payload.length).map (· ++ f.payload)

/-- Which frames may be written on a stream: DATA, HEADERS within the per-frame bound on a
request or control stream, the frames of one varint and SETTINGS within the bound on a
control stream, and every unknown type. -/
inductive Admissible : StreamKind → WireFrame → Prop
  | data {stream : StreamKind} (payload : List UInt8) :
      Admissible stream ⟨FrameType.data, payload⟩
  | headers {stream : StreamKind} (hs : stream ≠ .tunnel) {block : List UInt8}
      (hle : block.length ≤ maxBufferedFrame) : Admissible stream ⟨FrameType.headers, block⟩
  | goaway {payload : List UInt8} {identifier : ℕ}
      (h : peekVarint payload = some (identifier, payload.length)) :
      Admissible .control ⟨FrameType.goaway, payload⟩
  | cancelPush {payload : List UInt8} {pushId : ℕ}
      (h : peekVarint payload = some (pushId, payload.length)) :
      Admissible .control ⟨FrameType.cancelPush, payload⟩
  | maxPushId {payload : List UInt8} {pushId : ℕ}
      (h : peekVarint payload = some (pushId, payload.length)) :
      Admissible .control ⟨FrameType.maxPushId, payload⟩
  | settings {payload : List UInt8} {settings : Settings}
      (h : Frame.parseSettings payload = .ok settings)
      (hle : payload.length ≤ maxBufferedFrame) :
      Admissible .control ⟨FrameType.settings, payload⟩
  | unknown {stream : StreamKind} {kind : ℕ} (h : isUnknown kind = true) (payload : List UInt8) :
      Admissible stream ⟨kind, payload⟩

/-- The items that stand for a written frame. DATA comes in non-empty pieces that make up
the payload, or as one empty item; an unknown frame is reported by its type. -/
inductive Group : WireFrame → List Item → Prop
  | emptyData : Group ⟨FrameType.data, []⟩ [.data []]
  | data {pieces : List (List UInt8)} (h : pieces ≠ []) (hne : ∀ piece ∈ pieces, piece ≠ []) :
      Group ⟨FrameType.data, pieces.flatten⟩ (pieces.map .data)
  | headers (block : List UInt8) : Group ⟨FrameType.headers, block⟩ [.frame (.headers block)]
  | goaway {payload : List UInt8} {identifier : ℕ}
      (h : peekVarint payload = some (identifier, payload.length)) :
      Group ⟨FrameType.goaway, payload⟩ [.frame (.goaway identifier)]
  | cancelPush {payload : List UInt8} {pushId : ℕ}
      (h : peekVarint payload = some (pushId, payload.length)) :
      Group ⟨FrameType.cancelPush, payload⟩ [.frame (.cancelPush pushId)]
  | maxPushId {payload : List UInt8} {pushId : ℕ}
      (h : peekVarint payload = some (pushId, payload.length)) :
      Group ⟨FrameType.maxPushId, payload⟩ [.frame (.maxPushId pushId)]
  | settings {payload : List UInt8} {settings : Settings}
      (h : Frame.parseSettings payload = .ok settings) :
      Group ⟨FrameType.settings, payload⟩ [.frame (.settings settings)]
  | skipped {kind : ℕ} (h : isUnknown kind = true) (payload : List UInt8) :
      Group ⟨kind, payload⟩ [.skipped kind]

/-- The payload state a frame puts the decoder in. -/
def entry (f : WireFrame) : FrameDecoder.State :=
  if f.kind = FrameType.data then .data f.payload.length
  else match BufferedKind.fromType f.kind with
    | some kind => .buffering kind f.payload.length
    | none => .skipping f.kind f.payload.length

/-- An unknown type may appear anywhere. -/
theorem misplaced_of_isUnknown {kind : ℕ} (h : isUnknown kind = true) (stream : StreamKind) :
    Frame.misplaced stream kind = none := by
  simp only [isUnknown, Bool.and_eq_true, decide_eq_true_eq, Option.isNone_iff_eq_none] at h
  obtain ⟨⟨hdata, hnone⟩, -⟩ := h
  have hne : ∀ known : BufferedKind, kind ≠ known.frameType := by
    rintro known rfl
    rw [BufferedKind.fromType_frameType] at hnone
    cases hnone
  have hsettings : kind ≠ FrameType.settings := hne .settings
  have hcancelPush : kind ≠ FrameType.cancelPush := hne .cancelPush
  have hmaxPushId : kind ≠ FrameType.maxPushId := hne .maxPushId
  have hpushPromise : kind ≠ FrameType.pushPromise := hne .pushPromise
  have hgoaway : kind ≠ FrameType.goaway := hne .goaway
  cases stream with
  | control => rfl
  | request =>
      simp [Frame.misplaced, hsettings, hcancelPush, hmaxPushId, hpushPromise, hgoaway]
  | tunnel => simp [Frame.misplaced, hnone]

/-- A buffered type that may appear and is within the bound is let in. -/
theorem begin_of_buffered {stream : StreamKind} (kind : BufferedKind) {length : ℕ}
    (hmis : Frame.misplaced stream kind.frameType = none) (hle : length ≤ maxBufferedFrame) :
    Frame.begin stream kind.frameType length = .ok (.buffering kind length) := by
  have hres : kind.frameType ∉ reservedHttp2Types := by cases kind <;> decide
  have hdata : kind.frameType ≠ FrameType.data := by cases kind <;> decide
  simp [Frame.begin, hres, hmis, hdata, Nat.not_lt.mpr hle]

/-- A varint is short. -/
theorem length_le_maxBufferedFrame {payload : List UInt8} {value : ℕ}
    (h : peekVarint payload = some (value, payload.length)) :
    payload.length ≤ maxBufferedFrame :=
  (peekVarint_bounds h).2.1.trans (by decide)

/-- **An admissible frame is let in.** -/
theorem Admissible.begin {stream : StreamKind} {f : WireFrame} (h : Admissible stream f) :
    Frame.begin stream f.kind f.payload.length = .ok f.entry := by
  cases h with
  | data payload => cases stream <;> rfl
  | headers hs hle =>
      refine begin_of_buffered .headers ?_ hle
      cases stream with
      | control | request => rfl
      | tunnel => exact absurd rfl hs
  | goaway h => exact begin_of_buffered .goaway rfl (length_le_maxBufferedFrame h)
  | cancelPush h =>
      exact begin_of_buffered .cancelPush rfl (length_le_maxBufferedFrame h)
  | maxPushId h => exact begin_of_buffered .maxPushId rfl (length_le_maxBufferedFrame h)
  | settings h hle => exact begin_of_buffered .settings rfl hle
  | @unknown stream kind h payload =>
      have hmis := misplaced_of_isUnknown h stream
      simp only [isUnknown, Bool.and_eq_true, decide_eq_true_eq, Option.isNone_iff_eq_none,
        Bool.not_eq_true'] at h
      obtain ⟨⟨hdata, hnone⟩, hres⟩ := h
      simp only [Frame.begin, hres, hmis, hdata, hnone, entry, Bool.false_eq_true, if_false]

end WireFrame

/-! ### Groups of items -/

/-- Whether an event ends its frame. -/
def Event.isLast : Event → Bool
  | .byte _ last => last
  | _ => true

namespace Item

/-- An item stands for at least one event. -/
theorem Renders.ne_nil {item : Item} {events : List Event} (h : item.Renders events) :
    events ≠ [] := by
  rcases item with (_ | ⟨byte, bytes⟩) | f | kind
  · simp [show events = _ from h]
  · obtain ⟨last, rfl⟩ := h
    cases bytes <;> simp [dataEvents]
  · simp [show events = _ from h]
  · simp [show events = _ from h]

/-- Only the last byte of a piece can end the frame. -/
theorem isLast_of_mem_dropLast {bytes : List UInt8} {last : Bool} {event : Event}
    (h : event ∈ (dataEvents bytes last).dropLast) : event.isLast = false := by
  induction bytes with
  | nil => simp [dataEvents] at h
  | cons byte bytes ih =>
      cases bytes with
      | nil => simp [dataEvents] at h
      | cons byte' bytes =>
          have hne : dataEvents (byte' :: bytes) last ≠ [] :=
            Renders.ne_nil (renders_data (by simp) last)
          rw [dataEvents, List.dropLast_cons_of_ne_nil hne, List.mem_cons] at h
          rcases h with rfl | h
          · rfl
          · exact ih h

/-- An item never goes on past the end of a frame. -/
theorem Renders.isLast {item : Item} {events : List Event} (h : item.Renders events) :
    ∀ event ∈ events.dropLast, ¬event.isLast = true := by
  intro event hevent
  rcases item with (_ | ⟨byte, bytes⟩) | f | kind
  · simp [show events = _ from h] at hevent
  · obtain ⟨last, rfl⟩ := h
    simp [isLast_of_mem_dropLast hevent]
  · simp [show events = _ from h] at hevent
  · simp [show events = _ from h] at hevent

/-- No events, no items. -/
theorem eq_nil_of_groups {items : List Item} (h : Groups Renders items []) : items = [] := by
  obtain ⟨groups, hgroups, hnil⟩ := h
  cases hgroups with
  | nil => rfl
  | cons hrender _ =>
      rw [List.flatten_cons, List.append_eq_nil_iff] at hnil
      exact absurd hnil.1 hrender.ne_nil

/-- One event, one item. -/
theorem eq_singleton_of_groups {items : List Item} {event : Event}
    (h : Groups Renders items [event]) : ∃ item, items = [item] ∧ item.Renders [event] := by
  obtain ⟨groups, hgroups, heq⟩ := h
  cases hgroups with
  | nil => cases heq
  | @cons item group items groups hrender hgroups =>
      have hne := hrender.ne_nil
      rw [List.flatten_cons, List.append_eq_singleton_iff] at heq
      rcases heq with ⟨hnil, -⟩ | ⟨rfl, hnil⟩
      · exact absurd hnil hne
      · obtain rfl := eq_nil_of_groups ⟨groups, hgroups, hnil⟩
        exact ⟨item, rfl, hrender⟩

/-- The byte of an event that has one. -/
def byteOf : Event → List UInt8
  | .byte byte _ => [byte]
  | _ => []

/-- The bytes of a DATA item are those of its events. -/
theorem flatMap_byteOf_dataEvents (bytes : List UInt8) (last : Bool) :
    (dataEvents bytes last).flatMap byteOf = bytes := by
  induction bytes with
  | nil => rfl
  | cons byte bytes ih =>
      cases bytes with
      | nil => rfl
      | cons byte' bytes =>
          rw [dataEvents, List.flatMap_cons, ih]
          rfl

/-- Bytes come in non-empty pieces of DATA, in order. -/
theorem pieces_of_groups {items : List Item} {events : List Event}
    (h : Groups Renders items events) (hbyte : ∀ event ∈ events, byteOf event ≠ []) :
    ∃ pieces : List (List UInt8), (∀ piece ∈ pieces, piece ≠ []) ∧ items = pieces.map .data ∧
      pieces.flatten = events.flatMap byteOf := by
  obtain ⟨groups, hgroups, rfl⟩ := h
  induction hgroups with
  | nil => exact ⟨[], by simp, rfl, rfl⟩
  | @cons item group items groups hrender _ ih =>
      rw [List.flatten_cons] at hbyte ⊢
      obtain ⟨pieces, hne, rfl, hflat⟩ := ih fun event h => hbyte event (List.mem_append_right _ h)
      have hgroup : ∀ event ∈ group, byteOf event ≠ [] :=
        fun event h => hbyte event (List.mem_append_left _ h)
      rcases item with (_ | ⟨byte, bytes⟩) | f | kind
      · rw [show group = _ from hrender] at hgroup
        exact absurd rfl (hgroup _ (List.mem_singleton_self _))
      · obtain ⟨last, rfl⟩ := hrender
        refine ⟨(byte :: bytes) :: pieces, ?_, rfl, ?_⟩
        · simpa using hne
        · rw [List.flatMap_append, flatMap_byteOf_dataEvents, List.flatten_cons, hflat]
      · rw [show group = _ from hrender] at hgroup
        exact absurd rfl (hgroup _ (List.mem_singleton_self _))
      · rw [show group = _ from hrender] at hgroup
        exact absurd rfl (hgroup _ (List.mem_singleton_self _))

end Item

namespace WireFrame

/-- Events that stand for one written frame: they end it, and whatever items stand for them
are a group of that frame. -/
structure Yields (f : WireFrame) (events : List Event) : Prop where
  last : ∃ front event, events = front ++ [event] ∧ event.isLast = true
  group : ∀ items, Groups Item.Renders items events → f.Group items

/-- The bytes of a whole payload. -/
theorem yields_data {payload : List UInt8} (hne : payload ≠ []) :
    Yields ⟨FrameType.data, payload⟩ (dataEvents payload true) := by
  constructor
  · induction payload with
    | nil => exact absurd rfl hne
    | cons byte payload ih =>
        cases payload with
        | nil => exact ⟨[], .byte byte true, rfl, rfl⟩
        | cons byte' payload =>
            obtain ⟨front, event, heq, hlast⟩ := ih (by simp)
            exact ⟨.byte byte false :: front, event, by rw [dataEvents, heq]; rfl, hlast⟩
  · intro items h
    have hbyte : ∀ event ∈ dataEvents payload true, Item.byteOf event ≠ [] := by
      clear h hne
      induction payload with
      | nil => simp [dataEvents]
      | cons byte payload ih =>
          cases payload with
          | nil => simp [dataEvents, Item.byteOf]
          | cons byte' payload =>
              rw [dataEvents, List.forall_mem_cons]
              exact ⟨by simp [Item.byteOf], ih⟩
    obtain ⟨pieces, hpieces, rfl, hflat⟩ := Item.pieces_of_groups h hbyte
    rw [Item.flatMap_byteOf_dataEvents] at hflat
    subst hflat
    exact .data (by rintro rfl; simp at hne) hpieces

/-- The item that stands for a single event. -/
def itemOf : Event → Item
  | .byte byte _ => .data [byte]
  | .emptyData => .data []
  | .frame f => .frame f
  | .skipped kind => .skipped kind

/-- An item that renders to one event is the item of that event. -/
theorem eq_itemOf_of_renders {item : Item} {event : Event} (h : item.Renders [event]) :
    item = itemOf event := by
  rcases item with (_ | ⟨byte, _ | ⟨byte', _ | ⟨byte'', bytes⟩⟩⟩) | f | kind
  · cases h
    rfl
  · obtain ⟨last, h⟩ := h
    cases h
    rfl
  · obtain ⟨last, h⟩ := h
    cases h
  · obtain ⟨last, h⟩ := h
    cases h
  · cases h
    rfl
  · cases h
    rfl

/-- A frame that is one event. -/
theorem yields_singleton {f : WireFrame} {event : Event} (hlast : event.isLast = true)
    (h : f.Group [itemOf event]) : f.Yields [event] := by
  refine ⟨⟨[], event, rfl, hlast⟩, ?_⟩
  intro items hitems
  obtain ⟨item, rfl, hrender⟩ := Item.eq_singleton_of_groups hitems
  rw [eq_itemOf_of_renders hrender]
  exact h

/-- A payload of one varint parses. -/
theorem singleVarint_eq {kind : ℕ} {payload : List UInt8} {value : ℕ}
    (h : peekVarint payload = some (value, payload.length)) :
    Frame.singleVarint kind payload = .ok value := by
  simp [Frame.singleVarint, h]

/-- Items that stand for the events of a sequence of frames fall into one group for each
frame. -/
theorem groups_of_yields {frames : List WireFrame} {eventss : List (List Event)}
    (h : List.Forall₂ Yields frames eventss) {items : List Item}
    (hitems : Groups Item.Renders items eventss.flatten) :
    ∃ groups, List.Forall₂ Group frames groups ∧ groups.flatten = items := by
  induction h generalizing items with
  | nil => exact ⟨[], .nil, (Item.eq_nil_of_groups hitems).symm⟩
  | cons hyields _ ih =>
      obtain ⟨⟨front, event, rfl, hlast⟩, hgroup⟩ := hyields
      rw [List.flatten_cons, List.append_assoc, List.singleton_append] at hitems
      obtain ⟨left, right, rfl, hleft, hright⟩ :=
        hitems.split (fun event => event.isLast = true)
          (fun _ _ hrender => hrender.isLast) hlast
      obtain ⟨groups, hgroups, rfl⟩ := ih hright
      exact ⟨left :: groups, .cons (hgroup left hleft) hgroups, rfl⟩

end WireFrame

end Volto
