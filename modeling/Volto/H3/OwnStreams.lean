import Volto.H3.FrameRoundTrip
import Volto.H3.Goaway
import Volto.H3.PeerFaults
import Volto.H3.SettingsPayload

/-!
# This Endpoint's Own Streams

What `open_critical_streams` and `shutdown` of `h3/connection.rs` write on the three unidirectional
streams of this endpoint: its SETTINGS behind the type of its control stream, a GOAWAY for every
shutdown, and the types of its two QPACK streams, on which nothing else is ever written.

## Main results

* `judge_control`: no front of the control stream is refused.
* `own_streams_accepted`: this endpoint's streams, served by the same program at the other end.
-/

namespace Volto

open Framing Incremental

namespace Frame

/-! ### The preface -/

/-- `SETTINGS_QPACK_MAX_TABLE_CAPACITY`. -/
def settingQpackMaxTableCapacity : ℕ := 0x01

/-- `SETTINGS_MAX_FIELD_SECTION_SIZE`. -/
def settingMaxFieldSectionSize : ℕ := 0x06

/-- `SETTINGS_QPACK_BLOCKED_STREAMS`. -/
def settingQpackBlockedStreams : ℕ := 0x07

/-- `SETTINGS_ENABLE_CONNECT_PROTOCOL`. -/
def settingEnableConnectProtocol : ℕ := 0x08

/-- A reserved identifier, which peers have to ignore. -/
def grease : ℕ := 0x1f * 8 + 0x21

/-- The SETTINGS this endpoint sends. -/
def sentSettings : List (ℕ × ℕ) :=
  [(settingQpackMaxTableCapacity, 0), (settingQpackBlockedStreams, 0),
    (settingMaxFieldSectionSize, maxFieldSectionSize), (settingEnableConnectProtocol, 1),
    (settingH3Datagram, 1), (grease, 0)]

/-- The payload of that frame, or `none` where a varint cannot be written. -/
def settingsPayload : Option (List UInt8) :=
  sentSettings.foldlM (fun payload (identifier, value) => do
    let front ← putVarint identifier
    let back ← putVarint value
    pure (payload ++ front ++ back)) []

end Frame

namespace OwnStreams

open PeerStreams (Critical Peer Stream Fate fed ruled)

/-- What the control stream begins with. -/
def preface : Option (List UInt8) := do
  let settings ← Frame.settingsPayload
  let streamType ← putVarint Critical.control.streamType
  let header ← Frame.putHeader FrameType.settings settings.length
  pure (streamType ++ header ++ settings)

/-- The GOAWAYs of a number of shutdowns. -/
def goaways : List ℕ → Option (List UInt8)
  | [] => some []
  | identifier :: identifiers => do
      let front ← goawayFrame identifier
      let rest ← goaways identifiers
      pure (front ++ rest)

/-- What is written on each of the streams, with the identifiers that were sent. -/
def written (sent : List ℕ) : Critical → Option (List UInt8)
  | .control => do
      let front ← preface
      let rest ← goaways sent
      pure (front ++ rest)
  | .qpack kind => putVarint (Critical.qpack kind).streamType

/-- The SETTINGS frame, as it is on the wire. -/
def settingsFrame : List UInt8 :=
  [0x04, 0x10, 0x01, 0x00, 0x07, 0x00, 0x06, 0x80, 0x01, 0x00, 0x00, 0x08, 0x01, 0x33, 0x01, 0x41,
    0x19, 0x00]

/-- The control stream begins with its type and the SETTINGS frame. -/
theorem preface_eq : preface = some (0x00 :: settingsFrame) := by decide

/-- Its payload is read as it was meant. -/
theorem parseSettings_payload : Frame.parseSettings (settingsFrame.drop 2) = .ok ⟨true⟩ := by
  decide +kernel

/-- Nothing is read of it before it is whole. -/
theorem fed_settingsFrame_front :
    ∀ k < settingsFrame.length, (fed (settingsFrame.take k)).out = [] := by
  decide

/-! ### The frames of the control stream -/

/-- The GOAWAY of an identifier. -/
def IsGoaway (identifier : ℕ) (f : WireFrame) : Prop :=
  ∃ payload, f = ⟨FrameType.goaway, payload⟩ ∧
    peekVarint payload = some (identifier, payload.length)

/-- A GOAWAY frame is read as a GOAWAY. -/
theorem IsGoaway.group {identifier : ℕ} {f : WireFrame} (h : IsGoaway identifier f)
    {items : List Item} (hgroup : f.Group items) : items = [.frame (.goaway identifier)] := by
  obtain ⟨payload, rfl, hpeek⟩ := h
  cases hgroup with
  | goaway hpeek' =>
      rw [hpeek] at hpeek'
      cases hpeek'
      rfl
  | skipped hunknown => cases hunknown

/-- A SETTINGS frame is read as its settings. -/
theorem settings_group {payload : List UInt8} {settings : Settings}
    (h : Frame.parseSettings payload = .ok settings) {items : List Item}
    (hgroup : WireFrame.Group ⟨FrameType.settings, payload⟩ items) :
    items = [.frame (.settings settings)] := by
  cases hgroup with
  | settings h' =>
      rw [h] at h'
      cases h'
      rfl
  | skipped hunknown => cases hunknown

/-- The GOAWAYs that were sent are frames a control stream may carry. -/
theorem exists_goaways {sent : List ℕ} (h : ∀ identifier ∈ sent, identifier ≤ varintMax) :
    ∃ frames bytes, goaways sent = some bytes ∧ encodeAll WireFrame.encode frames = some bytes ∧
      List.Forall₂ IsGoaway sent frames ∧ ∀ f ∈ frames, WireFrame.Admissible .control f := by
  induction sent with
  | nil => exact ⟨[], [], rfl, rfl, .nil, by simp⟩
  | cons identifier sent ih =>
      obtain ⟨frames, bytes, hgoaways, hencode, hframes, hadm⟩ :=
        ih fun identifier hmem => h identifier (List.mem_cons_of_mem _ hmem)
      obtain ⟨front, hfront⟩ :=
        Option.isSome_iff_exists.mp (goawayFrame_isSome (h identifier List.mem_cons_self))
      obtain ⟨header, hheader, payload, hpayload, hbytes⟩ :
          ∃ header, Frame.putHeader FrameType.goaway (varintLen identifier) = some header ∧
            ∃ payload, putVarint identifier = some payload ∧ header ++ payload = front := by
        simpa [goawayFrame, Option.bind_eq_some_iff] using hfront
      have hpeek := peekVarint_putVarint hpayload []
      rw [List.append_nil] at hpeek
      have hframe : WireFrame.encode ⟨FrameType.goaway, payload⟩ = some front := by
        rw [WireFrame.encode, length_putVarint hpayload, hheader, Option.map_some, hbytes]
      refine ⟨⟨FrameType.goaway, payload⟩ :: frames, front ++ bytes, ?_, ?_,
        .cons ⟨payload, rfl, hpeek⟩ hframes, List.forall_mem_cons.mpr ⟨.goaway hpeek, hadm⟩⟩
      · simp [goaways, hfront, hgoaways]
      · exact encodeAll_cons_eq_some.mpr ⟨front, bytes, hframe, hencode, rfl⟩

/-- The GOAWAYs that were sent are read as they were sent. -/
theorem goaways_items {sent : List ℕ} {frames : List WireFrame} {groups : List (List Item)}
    (h : List.Forall₂ IsGoaway sent frames) (hgroups : List.Forall₂ WireFrame.Group frames groups) :
    groups.flatten = sent.map fun identifier => .frame (.goaway identifier) := by
  induction h generalizing groups with
  | nil =>
      cases hgroups
      rfl
  | cons hgoaway _ ih =>
      cases hgroups with
      | cons hgroup hgroups =>
          rw [List.flatten_cons, hgoaway.group hgroup, List.map_cons, ih hgroups]
          rfl

/-- Events stand for themselves. -/
theorem groups_itemOf (events : List Event) :
    Groups Item.Renders (events.map WireFrame.itemOf) events := by
  induction events with
  | nil => exact .nil
  | cons event events ih =>
      have hrender : (WireFrame.itemOf event).Renders [event] := by
        cases event with
        | byte byte last => exact ⟨last, rfl⟩
        | emptyData | frame | skipped => rfl
      exact ih.cons hrender

/-- **The control stream's language.** SETTINGS and GOAWAYs that do not grow. -/
theorem conforms_goaways {settings : Settings} {sent : List ℕ} (h : sent.Pairwise (· ≥ ·)) :
    Control.Conforms (.frame (.settings settings) ::
      sent.map fun identifier => .frame (.goaway identifier)) := by
  refine Or.inr ⟨settings, _, rfl, fun before item after hsplit => ?_⟩
  obtain ⟨front, back, rfl, rfl, hback⟩ := List.map_eq_append_iff.mp hsplit
  obtain ⟨identifier, rest, rfl, rfl, -⟩ := List.map_eq_cons_iff.mp hback
  refine .goaway fun earlier hmem => ?_
  obtain ⟨earlier', hearlier, heq⟩ := List.mem_map.mp hmem
  cases heq
  exact (List.pairwise_append.mp h).2.2 _ hearlier _ List.mem_cons_self

/-- **The whole of the control stream** is accepted, and tells that datagrams are taken. -/
theorem ruled_control {sent : List ℕ} (hencodable : ∀ identifier ∈ sent, identifier ≤ varintMax)
    (hsent : sent.Pairwise (· ≥ ·)) {bytes : List UInt8} (hbytes : goaways sent = some bytes) :
    (fed (settingsFrame ++ bytes)).error = none ∧
      (ruled (fed (settingsFrame ++ bytes)).out).error = none ∧
      (ruled (fed (settingsFrame ++ bytes)).out).state.2 = true := by
  obtain ⟨frames, bytes', hgoaways, hencode, hframes, hadm⟩ := exists_goaways hencodable
  obtain rfl := Option.some.inj (hgoaways.symm.trans hbytes)
  have hsettings : WireFrame.encode ⟨FrameType.settings, settingsFrame.drop 2⟩ =
      some settingsFrame := by decide
  have hready : (FrameMachine.new .control).Ready
      (⟨FrameType.settings, settingsFrame.drop 2⟩ :: frames) :=
    ⟨rfl, List.forall_mem_cons.mpr ⟨.settings parseSettings_payload (by decide), hadm⟩,
      by rintro ⟨⟩⟩
  have henc : encodeAll WireFrame.encode (⟨FrameType.settings, settingsFrame.drop 2⟩ :: frames) =
      some (settingsFrame ++ bytes') :=
    encodeAll_cons_eq_some.mpr ⟨settingsFrame, bytes', hsettings, hencode, rfl⟩
  obtain ⟨eventss, m, hfeed, hyields, -⟩ := hready.feedAll_frames henc
  have hfed : fed (settingsFrame ++ bytes') = ⟨eventss.flatten, m, none⟩ := hfeed
  obtain ⟨groups, hgroups, hflat⟩ :=
    WireFrame.groups_of_yields hyields (groups_itemOf eventss.flatten)
  cases hgroups with
  | @cons _ first _ groups hfirst hrest =>
      rw [List.flatten_cons, settings_group parseSettings_payload hfirst,
        goaways_items hframes hrest] at hflat
      rw [hfed, ruled, ← hflat]
      refine ⟨rfl, (Control.acceptAll_eq_none_iff _).mpr (conforms_goaways hsent), ?_⟩
      rw [List.singleton_append, Control.acceptAll_settings]
      exact (Control.recorded_settings.feedAll true _).1

/-- **No front of the control stream is refused.** -/
theorem judge_control {sent : List ℕ} (hencodable : ∀ identifier ∈ sent, identifier ≤ varintMax)
    (hsent : sent.Pairwise (· ≥ ·)) {bytes : List UInt8} (hbytes : goaways sent = some bytes)
    {front : List UInt8} (hfront : front <+: settingsFrame ++ bytes) :
    Critical.control.judge front = none ∧
      (Critical.control.saysDatagrams front = true ↔ settingsFrame <+: front) := by
  obtain ⟨herror, hruled, -⟩ := ruled_control hencodable hsent hbytes
  have hwhole : Critical.control.judge (settingsFrame ++ bytes) = none := by
    obtain ⟨hout, hfed, -⟩ := PeerStreams.controlRead_eq (settingsFrame ++ bytes)
    rw [Critical.judge, hout, hfed, herror, hruled]
    rfl
  obtain ⟨back, hback⟩ := hfront
  refine ⟨?_, fun htold => ?_, ?_⟩
  · by_contra hsome
    obtain ⟨violation, hviolation⟩ := Option.ne_none_iff_exists'.mp hsome
    have hlater := Critical.judge_append hviolation back
    rw [hback, hwhole] at hlater
    cases hlater
  · by_contra hnot
    -- a front that does not reach the end of SETTINGS is part of it
    have hshort : front.length < settingsFrame.length := by
      by_contra hlong
      exact hnot (List.prefix_of_prefix_length_le (List.prefix_append _ _) ⟨back, hback⟩
        (Nat.le_of_not_lt hlong))
    have htake : front = settingsFrame.take front.length := by
      have := congrArg (List.take front.length) hback
      rwa [List.take_left, List.take_append_of_le_length (Nat.le_of_lt hshort)] at this
    have hsilent := fed_settingsFrame_front front.length hshort
    rw [← htake] at hsilent
    rw [Critical.saysDatagrams, (PeerStreams.controlRead_eq front).1, hsilent] at htold
    cases htold
  · rintro ⟨more, rfl⟩
    have hsettings := (@ruled_control [] (by simp) .nil _ rfl).2.2
    rw [List.append_nil, ← (PeerStreams.controlRead_eq settingsFrame).1] at hsettings
    have htold : Critical.control.saysDatagrams settingsFrame = true := hsettings
    exact Critical.saysDatagrams_append htold more

/-! ### The other end -/

/-- What stands behind the type of a stream. -/
def body (bytes : List UInt8) : Critical → List UInt8
  | .control => settingsFrame ++ bytes
  | .qpack _ => []

/-- The streams as they are written, by the GOAWAYs that were sent. -/
def wire (bytes : List UInt8) (kind : Critical) : List UInt8 :=
  UInt8.ofNat kind.streamType :: body bytes kind

/-- What a critical stream has carried is its preface and its frames. -/
theorem written_eq {sent : List ℕ} {bytes : List UInt8} (h : goaways sent = some bytes)
    (kind : Critical) : written sent kind = some (wire bytes kind) := by
  rcases kind with _ | (_ | _)
  · simp only [written, preface_eq, h]
    rfl
  · rfl
  · rfl

/-- A part of a stream carries a part of its body. -/
theorem carries_front {bytes : List UInt8} {kind : Critical} {arrived : List UInt8}
    (h : arrived <+: wire bytes kind) {streamType : ℕ} {rest : List UInt8}
    (htake : takeVarint arrived = some (streamType, rest)) :
    streamType = kind.streamType ∧ arrived = UInt8.ofNat kind.streamType :: rest ∧
      rest <+: body bytes kind := by
  obtain ⟨back, hback⟩ := h
  have hwhole : takeVarint (wire bytes kind) = some (kind.streamType, body bytes kind) := by
    rcases kind with _ | (_ | _) <;> rfl
  rw [← hback, takeVarint_append htake back] at hwhole
  obtain ⟨rfl, hbody⟩ := Prod.mk.inj (Option.some.inj hwhole)
  refine ⟨rfl, ?_, back, hbody⟩
  rw [wire, ← hbody, ← List.cons_append] at hback
  exact List.append_cancel_right hback

/-- What an endpoint hears from this one: of each of its streams a front, and nothing else that
could fail the connection. -/
structure Heard (bytes : List UInt8) (s : Peer) : Prop where
  streams : ∃ kindOf : ℕ → Critical,
    (∀ (id : ℕ) (stream : Stream), s.streams[id]? = some stream →
      stream.arrived <+: wire bytes (kindOf id) ∧
        ∀ ending closed, stream.fate ≠ .ended ending closed) ∧
    ∀ id id', id < s.streams.length → id' < s.streams.length → kindOf id = kindOf id' → id = id'
  datagrams : ∀ datagram ∈ s.datagrams, ∀ violation,
    Datagram.routeDatagram datagram ≠ .fail violation
  elsewhere : s.elsewhere = []

/-- **No fault is heard.** -/
theorem Heard.not_fault {sent : List ℕ} (hencodable : ∀ identifier ∈ sent, identifier ≤ varintMax)
    (hsent : sent.Pairwise (· ≥ ·)) {bytes : List UInt8} (hbytes : goaways sent = some bytes)
    {s : Peer} (h : Heard bytes s) (violation : Violation) : ¬s.Fault violation := by
  obtain ⟨kindOf, hfronts, hdistinct⟩ := h.streams
  have hcarries : ∀ (id : ℕ) (stream : Stream) kind rest, s.streams[id]? = some stream →
      stream.Carries kind rest → kind = kindOf id ∧ rest <+: body bytes kind := by
    intro id stream kind rest hid hkind
    obtain ⟨htype, -, hrest⟩ := carries_front (hfronts id stream hid).1 hkind
    obtain rfl := Critical.streamType_injective htype
    exact ⟨rfl, hrest⟩
  intro hfault
  cases hfault with
  | stream hmem hrefused =>
      obtain ⟨id, hid⟩ := List.mem_iff_getElem?.mp hmem
      obtain ⟨hfront, hfate⟩ := hfronts id _ hid
      cases hrefused with
      | push htake =>
          have htype := (carries_front hfront htake).1
          revert htype
          rcases kindOf id with _ | (_ | _) <;> simp [Critical.streamType, PeerStreams.streamPush]
      | bytes hkind hv =>
          obtain ⟨-, hrest⟩ := hcarries id _ _ _ hid hkind
          rename_i kind rest
          cases kind with
          | control =>
              rw [(judge_control hencodable hsent hbytes hrest).1] at hv
              cases hv
          | qpack kind =>
              obtain rfl := List.prefix_nil.mp hrest
              cases hv
      | ending hkind hended => exact hfate _ _ hended
  | second hid hid' hne hkind hkind' =>
      obtain ⟨hsame, -⟩ := hcarries _ _ _ _ hid hkind
      obtain ⟨hsame', -⟩ := hcarries _ _ _ _ hid' hkind'
      exact hne (hdistinct _ _ (List.getElem?_eq_some_iff.mp hid).1
        (List.getElem?_eq_some_iff.mp hid').1 (hsame.symm.trans hsame'))
  | datagram hmem hv => exact h.datagrams _ hmem _ hv
  | elsewhere hmem =>
      rw [h.elsewhere] at hmem
      cases hmem

/-- **Two endpoints of this program.** Let this endpoint accept and reject requests and shut down as
often as it likes. What it writes on its streams can be written; and an endpoint that serves these
streams, however much of each has arrived, in any order and cut anywhere, fails its connection over
none of them, and knows that datagrams are taken exactly from when all of the preface has come. -/
theorem own_streams_accepted (actions : List Requests.Action)
    (hordered : Requests.Ordered (Requests.arrivals actions)) :
    ∃ bytes, (∀ kind, written ((Requests.Run.run actions).log.filterMap Requests.Event.sent) kind =
        some (wire bytes kind)) ∧
      ∀ events, Heard bytes (Peer.run events) →
        (Peer.run events).localError = none ∧
        ((Peer.run events).peerDatagrams = true ↔
          ∃ stream ∈ (Peer.run events).streams, ∃ front, preface = some front ∧
            front <+: stream.arrived) := by
  have hinv := Requests.inv_run actions hordered
  have hencodable : ∀ identifier ∈ (Requests.Run.run actions).log.filterMap Requests.Event.sent,
      identifier ≤ varintMax := by
    intro identifier hmem
    obtain ⟨event, hevent, hsent⟩ := List.mem_filterMap.mp hmem
    cases event with
    | goaway identifier' =>
        cases hsent
        exact hinv.encodable identifier hevent
    | served | rejected => cases hsent
  obtain ⟨-, bytes, hbytes, -, -, -⟩ := exists_goaways hencodable
  refine ⟨bytes, written_eq hbytes, fun events hheard => ?_⟩
  have hfault := hheard.not_fault hencodable hinv.sent hbytes
  have h := PeerStreams.inv_run events
  generalize Peer.run events = s at hheard hfault h
  have hnone : s.localError = none := by
    cases herror : s.localError with
    | none => rfl
    | some violation => exact absurd (h.faulty violation herror) (hfault violation)
  obtain ⟨kindOf, hfronts, -⟩ := hheard.streams
  refine ⟨hnone, fun hdatagrams => ?_, ?_⟩
  · obtain ⟨id, stream, rest, hid, hcarries, htold⟩ := h.datagrams hdatagrams
    obtain ⟨htype, harrived, hrest⟩ := carries_front (hfronts id stream hid).1 hcarries
    obtain hkind := Critical.streamType_injective htype
    rw [← hkind] at harrived hrest
    refine ⟨stream, List.mem_of_getElem? hid, _, preface_eq, ?_⟩
    rw [harrived]
    exact List.cons_prefix_cons.mpr
      ⟨rfl, (judge_control hencodable hinv.sent hbytes hrest).2.mp htold⟩
  · rintro ⟨stream, hmem, front, hfront, hprefix⟩
    obtain rfl := Option.some.inj (preface_eq.symm.trans hfront)
    obtain ⟨id, hid⟩ := List.mem_iff_getElem?.mp hmem
    obtain ⟨more, hmore⟩ := hprefix
    have hcarries : stream.Carries .control (settingsFrame ++ more) := by
      rw [Stream.Carries, ← hmore]
      rfl
    obtain ⟨htype, -, hrest⟩ := carries_front (hfronts id stream hid).1 hcarries
    rw [← Critical.streamType_injective htype] at hrest
    exact ((h.fine hnone).2 id stream hid).told _ hcarries
      ((judge_control hencodable hinv.sent hbytes hrest).2.mpr ⟨more, rfl⟩)

/-- The control stream in two pieces, which end inside of a GOAWAY. -/
theorem own_streams_accepted_cut :
    (Peer.run [.opened, .chunk 0 (0x00 :: settingsFrame.take 3),
        .chunk 0 (settingsFrame.drop 3 ++ [0x07])]).localError = none ∧
      (Peer.run [.opened, .chunk 0 (0x00 :: settingsFrame.take 3),
        .chunk 0 (settingsFrame.drop 3 ++ [0x07])]).peerDatagrams = true := by
  obtain ⟨bytes, hwritten, haccepted⟩ := own_streams_accepted [.shutdown]
    ⟨by simp [Requests.arrivals], by simp [Requests.arrivals]⟩
  have hwire : wire bytes .control = 0x00 :: (settingsFrame ++ [0x07, 0x01, 0x00]) :=
    Option.some.inj ((hwritten .control).symm.trans (by decide))
  have hmap : (Peer.run [.opened, .chunk 0 (0x00 :: settingsFrame.take 3),
      .chunk 0 (settingsFrame.drop 3 ++ [0x07])]).streams.map
        (fun stream => (stream.arrived, stream.fate)) =
      [(0x00 :: (settingsFrame ++ [0x07]), .going)] := by decide +kernel
  obtain ⟨stream, hstreams, heq⟩ := List.map_eq_singleton_iff.mp hmap
  obtain ⟨harrived, hfate⟩ := Prod.mk.inj heq
  have hdatagrams : (Peer.run [.opened, .chunk 0 (0x00 :: settingsFrame.take 3),
      .chunk 0 (settingsFrame.drop 3 ++ [0x07])]).datagrams = [] := by decide +kernel
  have hheard : Heard bytes (Peer.run [.opened, .chunk 0 (0x00 :: settingsFrame.take 3),
      .chunk 0 (settingsFrame.drop 3 ++ [0x07])]) := by
    refine ⟨⟨fun _ => .control, fun id stream' hid => ?_, fun id id' hid hid' _ => ?_⟩,
      by simp [hdatagrams], by decide +kernel⟩
    · rw [hstreams, List.getElem?_singleton] at hid
      split_ifs at hid
      cases hid
      rw [hwire, harrived, hfate]
      exact ⟨⟨[0x01, 0x00], rfl⟩, by rintro ending closed ⟨⟩⟩
    · rw [hstreams, List.length_singleton] at hid hid'
      omega
  obtain ⟨hnone, htold⟩ := haccepted _ hheard
  refine ⟨hnone, htold.mpr ⟨stream, ?_, _, preface_eq, ?_⟩⟩
  · rw [hstreams]
    exact List.mem_singleton_self stream
  · rw [harrived]
    exact ⟨[0x07], rfl⟩

end OwnStreams

end Volto
