import Volto.H3.Frame
import Volto.Lib.Incremental

/-!
# The Passes of the Frame Decoder's Loop

`FrameDecoder.iterate` is one pass through the loop of `next_item`. `FrameDecoder.Pass`
lists everything such a pass can do, one constructor for each way through the source's
`match`, with the guards it went through, and `iterate_pass` says that the list is
complete. Every later result about the decoder is a case analysis of `Pass`; none of them
unfolds `iterate`.

`weight` decreases with every pass that goes round again and with every pass that produces
an item, which makes `nextItem` and the drained decoder `drain` total: however a decoder
was left, a finite number of calls brings it to the point where it asks for more bytes or
reports a violation.
-/

namespace Volto

namespace Frame

/-- A header that is all there stays the same header when more bytes follow. -/
theorem peekHeader_append {header : List UInt8} {r : ℕ × ℕ} (h : peekHeader header = some r)
    (rest : List UInt8) : peekHeader (header ++ rest) = some r := by
  simp only [peekHeader, bind, Option.bind_eq_some_iff, pure, Option.some.injEq] at h ⊢
  obtain ⟨⟨kind, used⟩, hkind, ⟨length, used'⟩, hlength, rfl⟩ := h
  have hle := (peekVarint_bounds hkind).2.2.1
  refine ⟨_, peekVarint_append hkind rest, (length, used'), ?_, rfl⟩
  rw [List.drop_append_of_le_length hle]
  exact peekVarint_append hlength rest

/-- A header is at least two bytes. -/
theorem two_le_length_of_peekHeader {header : List UInt8} {r : ℕ × ℕ}
    (h : peekHeader header = some r) : 2 ≤ header.length := by
  simp only [peekHeader, bind, Option.bind_eq_some_iff] at h
  obtain ⟨⟨kind, used⟩, hkind, ⟨length, used'⟩, hlength, -⟩ := h
  have h₁ := peekVarint_bounds hkind
  have h₂ := peekVarint_bounds hlength
  rw [List.length_drop] at h₂
  omega

/-- Sixteen bytes always hold a header: two varints of at most eight each. -/
theorem peekHeader_isSome_of_length {header : List UInt8} (h : maxFrameHeader ≤ header.length) :
    (peekHeader header).isSome := by
  have hpeek : ∀ buf : List UInt8, varintMaxLen ≤ buf.length → (peekVarint buf).isSome := by
    intro buf hbuf
    rw [varintMaxLen] at hbuf
    cases buf with
    | nil => simp at hbuf
    | cons first rest =>
        rw [List.length_cons] at hbuf
        have := declaredLen_cases first
        rw [peekVarint_cons, if_neg (by omega)]
        rfl
  rw [maxFrameHeader] at h
  obtain ⟨⟨kind, used⟩, hkind⟩ := Option.isSome_iff_exists.mp (hpeek header (by omega))
  have hused := peekVarint_bounds hkind
  obtain ⟨⟨length, used'⟩, hlength⟩ := Option.isSome_iff_exists.mp
    (hpeek (header.drop used) (by rw [List.length_drop]; omega))
  simp only [peekHeader, hkind, hlength, bind, Option.bind_some, pure, Option.isSome_some]

end Frame

namespace FrameDecoder

open Volto.Frame (peekHeader peekHeader_append)

/-! ### The header loop -/

/-- **What the header loop does**: either all of the chunk goes into an incomplete header,
or the shortest completing part of it is used up. -/
theorem takeFrameHeaderLoop_cases (header chunk : List UInt8) :
    (peekHeader (header ++ chunk) = none ∧
      takeFrameHeaderLoop header chunk = (none, header ++ chunk, [])) ∨
    ∃ used rest r, chunk = used ++ rest ∧ peekHeader (header ++ used) = some r ∧
      (∀ k < used.length, peekHeader (header ++ used.take k) = none) ∧
      takeFrameHeaderLoop header chunk = (some r, [], rest) := by
  induction chunk generalizing header with
  | nil =>
      cases hp : peekHeader header with
      | none => exact Or.inl ⟨by simpa using hp, by simp [takeFrameHeaderLoop, hp]⟩
      | some r =>
          exact Or.inr ⟨[], [], r, rfl, by simpa using hp, by simp, by
            simp [takeFrameHeaderLoop, hp]⟩
  | cons byte chunk ih =>
      cases hp : peekHeader header with
      | some r =>
          exact Or.inr ⟨[], byte :: chunk, r, rfl, by simpa using hp, by simp, by
            simp [takeFrameHeaderLoop, hp]⟩
      | none =>
          have hloop : takeFrameHeaderLoop header (byte :: chunk) =
              takeFrameHeaderLoop (header ++ [byte]) chunk := by
            simp [takeFrameHeaderLoop, hp]
          rw [hloop]
          rcases ih (header ++ [byte]) with ⟨hnone, heq⟩ | ⟨used, rest, r, rfl, hsome, hpre, heq⟩
          · exact Or.inl ⟨by simpa using hnone, by simpa using heq⟩
          · refine Or.inr ⟨byte :: used, rest, r, rfl, by simpa using hsome, ?_, heq⟩
            intro k hk
            cases k with
            | zero => simpa using hp
            | succ k => simpa using hpre k (by simpa using hk)

/-- The header array never overflows: a byte is only stored while fewer than sixteen are
there, and an incomplete header is shorter than that. -/
theorem takeFrameHeader_length_lt {header : List UInt8} (h : peekHeader header = none) :
    header.length < maxFrameHeader := by
  by_contra hge
  have := Frame.peekHeader_isSome_of_length (Nat.le_of_not_lt hge)
  rw [h] at this
  cases this

/-! ### The list of passes -/

/-- Everything one pass through the loop of `next_item` can do. -/
inductive Pass (d : FrameDecoder) (budget : BufferBudget) : Iteration → Prop
  | headerPartial (hs : d.state = .header) (hp : peekHeader (d.header ++ d.chunk) = none) :
      Pass d budget (.done (.ok none) { d with header := d.header ++ d.chunk, chunk := [] } budget)
  | refused {used rest : List UInt8} {kind length : ℕ} {violation : Violation}
      (hs : d.state = .header) (hc : d.chunk = used ++ rest)
      (hp : peekHeader (d.header ++ used) = some (kind, length))
      (hmin : ∀ k < used.length, peekHeader (d.header ++ used.take k) = none)
      (hb : Frame.begin d.stream kind length = .error violation) :
      Pass d budget
        (.done (.error violation) { d with header := [], chunk := rest, state := .header } budget)
  | overBudget {used rest : List UInt8} {kind length : ℕ} {buffered : BufferedKind}
      {violation : Violation} (hs : d.state = .header) (hc : d.chunk = used ++ rest)
      (hp : peekHeader (d.header ++ used) = some (kind, length))
      (hmin : ∀ k < used.length, peekHeader (d.header ++ used.take k) = none)
      (hb : Frame.begin d.stream kind length = .ok (.buffering buffered length))
      (hcharge : budget.charge length = .error violation) :
      Pass d budget
        (.done (.error violation) { d with header := [], chunk := rest, state := .header } budget)
  | announceBuffered {used rest : List UInt8} {kind length : ℕ} {buffered : BufferedKind}
      {budget' : BufferBudget} (hs : d.state = .header) (hc : d.chunk = used ++ rest)
      (hp : peekHeader (d.header ++ used) = some (kind, length))
      (hmin : ∀ k < used.length, peekHeader (d.header ++ used.take k) = none)
      (hb : Frame.begin d.stream kind length = .ok (.buffering buffered length))
      (hcharge : budget.charge length = .ok budget') :
      Pass d budget (.again
        { d with
          header := []
          chunk := rest
          charged := length
          state := .buffering buffered length } budget')
  | announceData {used rest : List UInt8} {kind length : ℕ} (hs : d.state = .header)
      (hc : d.chunk = used ++ rest) (hp : peekHeader (d.header ++ used) = some (kind, length))
      (hmin : ∀ k < used.length, peekHeader (d.header ++ used.take k) = none)
      (hb : Frame.begin d.stream kind length = .ok (.data length)) :
      Pass d budget (.again { d with header := [], chunk := rest, state := .data length } budget)
  | announceSkipped {used rest : List UInt8} {kind length : ℕ} (hs : d.state = .header)
      (hc : d.chunk = used ++ rest) (hp : peekHeader (d.header ++ used) = some (kind, length))
      (hmin : ∀ k < used.length, peekHeader (d.header ++ used.take k) = none)
      (hb : Frame.begin d.stream kind length = .ok (.skipping kind length)) :
      Pass d budget
        (.again { d with header := [], chunk := rest, state := .skipping kind length } budget)
  | dataEmpty (hs : d.state = .data 0) :
      Pass d budget (.done (.ok (some (.data []))) { d with state := .header } budget)
  | dataWait {remaining : ℕ} (hs : d.state = .data remaining) (hr : remaining ≠ 0)
      (hc : d.chunk = []) : Pass d budget (.done (.ok none) d budget)
  | dataPiece {remaining : ℕ} (hs : d.state = .data remaining) (hr : remaining ≠ 0)
      (hc : d.chunk ≠ []) :
      Pass d budget (.done (.ok (some (.data (d.chunk.take remaining))))
        { d with
          chunk := d.chunk.drop remaining
          state := if remaining ≤ d.chunk.length then .header
            else .data (remaining - d.chunk.length) } budget)
  | bufferMore {kind : BufferedKind} {remaining : ℕ} (hs : d.state = .buffering kind remaining)
      (hlt : d.chunk.length < remaining) :
      Pass d budget (.done (.ok none)
        { d with
          payload := d.payload ++ d.chunk
          chunk := []
          state := .buffering kind (remaining - d.chunk.length) } budget)
  | bufferWhole {kind : BufferedKind} {remaining : ℕ} (hs : d.state = .buffering kind remaining)
      (hle : remaining ≤ d.chunk.length) :
      Pass d budget (.done
        ((Frame.parse kind (d.payload ++ d.chunk.take remaining)).map fun f => some (.frame f))
        { d with
          payload := []
          chunk := d.chunk.drop remaining
          charged := 0
          state := .header } (budget.release d.charged))
  | skipMore {kind remaining : ℕ} (hs : d.state = .skipping kind remaining)
      (hlt : d.chunk.length < remaining) :
      Pass d budget (.done (.ok none)
        { d with chunk := [], state := .skipping kind (remaining - d.chunk.length) } budget)
  | skipWhole {kind remaining : ℕ} (hs : d.state = .skipping kind remaining)
      (hle : remaining ≤ d.chunk.length) {d' : FrameDecoder}
      (hcount : { d with chunk := d.chunk.drop remaining, state := .header }.countSkip =
        (none, d')) :
      Pass d budget (.done (.ok (some (.skipped kind))) d' budget)
  | skipFlood {kind remaining : ℕ} (hs : d.state = .skipping kind remaining)
      (hle : remaining ≤ d.chunk.length) {violation : Violation} {d' : FrameDecoder}
      (hcount : { d with chunk := d.chunk.drop remaining, state := .header }.countSkip =
        (some violation, d')) :
      Pass d budget (.done (.error violation) d' budget)

/-- The passes that start between two frames. -/
theorem iterate_pass_header {d : FrameDecoder} (budget : BufferBudget)
    (hs : d.state = .header) : Pass d budget (d.iterate budget) := by
  rcases takeFrameHeaderLoop_cases d.header d.chunk with
    ⟨hp, heq⟩ | ⟨used, rest, ⟨kind, length⟩, hc, hp, hmin, heq⟩
  · have hiter : d.iterate budget =
        .done (.ok none) { d with header := d.header ++ d.chunk, chunk := [] } budget := by
      simp only [iterate, hs, takeFrameHeader, heq]
    rw [hiter]
    exact Pass.headerPartial hs hp
  · rcases Frame.begin_cases d.stream kind length with
      ⟨-, detail, hb⟩ | ⟨-, -, ⟨-, hb⟩ | ⟨-, -, hb⟩ | ⟨buffered, -, ⟨-, detail, hb⟩ | ⟨-, hb⟩⟩⟩
    · simp only [iterate, hs, takeFrameHeader, heq, hb]
      exact Pass.refused hs hc hp hmin hb
    · simp only [iterate, hs, takeFrameHeader, heq, hb]
      exact Pass.announceData hs hc hp hmin hb
    · simp only [iterate, hs, takeFrameHeader, heq, hb]
      exact Pass.announceSkipped hs hc hp hmin hb
    · simp only [iterate, hs, takeFrameHeader, heq, hb]
      exact Pass.refused hs hc hp hmin hb
    · cases hcharge : budget.charge length with
      | error violation =>
          simp only [iterate, hs, takeFrameHeader, heq, hb, hcharge]
          exact Pass.overBudget hs hc hp hmin hb hcharge
      | ok budget' =>
          simp only [iterate, hs, takeFrameHeader, heq, hb, hcharge]
          exact Pass.announceBuffered hs hc hp hmin hb hcharge

/-- The passes inside a DATA payload. -/
theorem iterate_pass_data {d : FrameDecoder} (budget : BufferBudget) {remaining : ℕ}
    (hs : d.state = .data remaining) : Pass d budget (d.iterate budget) := by
  by_cases hr : remaining = 0
  · subst hr
    simp only [iterate, hs, if_true]
    exact Pass.dataEmpty hs
  · by_cases hc : d.chunk = []
    · have hiter : d.iterate budget = .done (.ok none) d budget := by
        simp [iterate, hs, hr, hc, Frame.takeFrom]
      rw [hiter]
      exact Pass.dataWait hs hr hc
    · have hiter : d.iterate budget = .done (.ok (some (.data (d.chunk.take remaining))))
          { d with
            chunk := d.chunk.drop remaining
            state := if remaining ≤ d.chunk.length then .header
              else .data (remaining - d.chunk.length) } budget := by
        by_cases hle : remaining ≤ d.chunk.length
        · simp [iterate, hs, hr, Frame.takeFrom, hle]
        · have hle' : d.chunk.length ≤ remaining := by omega
          have hne : remaining - d.chunk.length ≠ 0 := by omega
          simp [iterate, hs, hr, hc, Frame.takeFrom, Nat.min_eq_right hle', hle, hne,
            List.take_of_length_le hle', List.drop_eq_nil_of_le hle']
      rw [hiter]
      exact Pass.dataPiece hs hr hc

/-- The passes inside a frame that is buffered. -/
theorem iterate_pass_buffering {d : FrameDecoder} (budget : BufferBudget) {kind : BufferedKind}
    {remaining : ℕ} (hs : d.state = .buffering kind remaining) :
    Pass d budget (d.iterate budget) := by
  by_cases hle : remaining ≤ d.chunk.length
  · have hiter : d.iterate budget = .done
        ((Frame.parse kind (d.payload ++ d.chunk.take remaining)).map
          fun f => some (.frame f))
        { d with
          payload := []
          chunk := d.chunk.drop remaining
          charged := 0
          state := .header } (budget.release d.charged) := by
      simp [iterate, hs, Nat.min_eq_left hle, release]
    rw [hiter]
    exact Pass.bufferWhole hs hle
  · have hle' : d.chunk.length ≤ remaining := by omega
    have hiter : d.iterate budget = .done (.ok none)
        { d with
          payload := d.payload ++ d.chunk
          chunk := []
          state := .buffering kind (remaining - d.chunk.length) } budget := by
      simp [iterate, hs, Nat.min_eq_right hle', Nat.lt_of_not_le hle]
    rw [hiter]
    exact Pass.bufferMore hs (by omega)

/-- The passes inside a frame that is skipped. -/
theorem iterate_pass_skipping {d : FrameDecoder} (budget : BufferBudget) {kind remaining : ℕ}
    (hs : d.state = .skipping kind remaining) : Pass d budget (d.iterate budget) := by
  by_cases hle : remaining ≤ d.chunk.length
  · cases hcount : { d with chunk := d.chunk.drop remaining, state := .header }.countSkip with
    | mk violation d' =>
        cases violation with
        | none =>
            have hiter : d.iterate budget =
                .done (.ok (some (.skipped kind))) d' budget := by
              simp only [iterate, hs, Frame.takeFrom, Nat.min_eq_left hle, Nat.sub_self,
                if_true, hcount]
            rw [hiter]
            exact Pass.skipWhole hs hle hcount
        | some violation =>
            have hiter : d.iterate budget = .done (.error violation) d' budget := by
              simp only [iterate, hs, Frame.takeFrom, Nat.min_eq_left hle, Nat.sub_self,
                if_true, hcount]
            rw [hiter]
            exact Pass.skipFlood hs hle hcount
  · have hle' : d.chunk.length ≤ remaining := by omega
    have hne : remaining - d.chunk.length ≠ 0 := by omega
    have hiter : d.iterate budget = .done (.ok none)
        { d with chunk := [], state := .skipping kind (remaining - d.chunk.length) } budget := by
      simp [iterate, hs, Frame.takeFrom, Nat.min_eq_right hle', hne]
    rw [hiter]
    exact Pass.skipMore hs (by omega)

/-- **The list of passes is complete.** -/
theorem iterate_pass (d : FrameDecoder) (budget : BufferBudget) :
    Pass d budget (d.iterate budget) := by
  cases hs : d.state with
  | header => exact iterate_pass_header budget hs
  | data remaining => exact iterate_pass_data budget hs
  | buffering kind remaining => exact iterate_pass_buffering budget hs
  | skipping kind remaining => exact iterate_pass_skipping budget hs

/-- Counting a skipped frame changes the count and nothing else. -/
theorem countSkip_eq {d d' : FrameDecoder} {violation : Option Violation}
    (h : d.countSkip = (violation, d')) : ∃ skipped, d' = { d with skipped := skipped } := by
  obtain rfl : d' = d.countSkip.2 := by rw [h]
  rw [countSkip]
  split
  · exact ⟨_, rfl⟩
  · exact ⟨d.skipped, rfl⟩

/-- A returning pass stays on its stream, and buffers only what was being buffered. -/
theorem Pass.of_done {d d' : FrameDecoder} {budget budget' : BufferBudget}
    {result : Except Violation (Option Item)} (hpass : Pass d budget (.done result d' budget')) :
    d'.stream = d.stream ∧ ∀ kind remaining, d'.state = .buffering kind remaining →
      ∃ remaining', d.state = .buffering kind remaining' := by
  cases hpass with
  | headerPartial hs hp => exact ⟨rfl, fun _ _ h => ⟨_, h⟩⟩
  | refused => exact ⟨rfl, by simp⟩
  | overBudget => exact ⟨rfl, by simp⟩
  | dataEmpty => exact ⟨rfl, by simp⟩
  | dataWait => exact ⟨rfl, fun _ _ h => ⟨_, h⟩⟩
  | @dataPiece remaining hs hr hc =>
      refine ⟨rfl, ?_⟩
      by_cases hle : remaining ≤ d.chunk.length <;> simp [hle]
  | bufferMore hs hlt =>
      refine ⟨rfl, ?_⟩
      intro kind remaining h
      cases h
      exact ⟨_, hs⟩
  | bufferWhole => exact ⟨rfl, by simp⟩
  | skipMore => exact ⟨rfl, by simp⟩
  | skipWhole hs hle hcount =>
      obtain ⟨skipped, rfl⟩ := countSkip_eq hcount
      exact ⟨rfl, by simp⟩
  | skipFlood hs hle hcount =>
      obtain ⟨skipped, rfl⟩ := countSkip_eq hcount
      exact ⟨rfl, by simp⟩

/-- A pass that goes round again stays on its stream, has left the header, and buffers only
what may appear there. -/
theorem Pass.of_again {d d' : FrameDecoder} {budget budget' : BufferBudget}
    (hpass : Pass d budget (.again d' budget')) :
    d'.stream = d.stream ∧ d'.state ≠ .header ∧
      ∀ kind remaining, d'.state = .buffering kind remaining →
        Frame.misplaced d.stream kind.frameType = none := by
  cases hpass with
  | announceBuffered hs hc hp hmin hb hcharge =>
      refine ⟨rfl, by simp, ?_⟩
      intro kind remaining h
      cases h
      obtain ⟨rfl, -, -, -, hmis⟩ := Frame.begin_eq_buffering hb
      exact hmis
  | announceData => exact ⟨rfl, by simp, by simp⟩
  | announceSkipped => exact ⟨rfl, by simp, by simp⟩

/-! ### The loop -/

/-- How far a decoder is from asking for more bytes. -/
def weight (d : FrameDecoder) : ℕ :=
  2 * (d.chunk.length + d.header.length) + if d.state = .header then 0 else 1

/-- A pass that goes round again has used up a whole frame header. -/
theorem Pass.weight_lt_of_again {d d' : FrameDecoder} {budget budget' : BufferBudget}
    (h : Pass d budget (.again d' budget')) : d'.weight < d.weight := by
  cases h with
  | announceBuffered hs hc hp hmin hb hcharge =>
      have := Frame.two_le_length_of_peekHeader hp
      simp only [weight, hs, hc, List.length_append, List.length_nil, if_true] at this ⊢
      simp only [reduceCtorEq, if_false]
      omega
  | announceData hs hc hp hmin hb =>
      have := Frame.two_le_length_of_peekHeader hp
      simp only [weight, hs, hc, List.length_append, List.length_nil, if_true] at this ⊢
      simp only [reduceCtorEq, if_false]
      omega
  | announceSkipped hs hc hp hmin hb =>
      have := Frame.two_le_length_of_peekHeader hp
      simp only [weight, hs, hc, List.length_append, List.length_nil, if_true] at this ⊢
      simp only [reduceCtorEq, if_false]
      omega

/-- A pass that returns an item has completed a frame or handed out part of the chunk. -/
theorem Pass.weight_lt_of_item {d d' : FrameDecoder} {budget budget' : BufferBudget}
    {result : Except Violation (Option Item)} {item : Item}
    (h : Pass d budget (.done result d' budget')) (hitem : result = .ok (some item)) :
    d'.weight < d.weight := by
  cases h with
  | headerPartial => cases hitem
  | refused => cases hitem
  | overBudget => cases hitem
  | dataEmpty hs => simp [weight, hs]
  | dataWait => cases hitem
  | @dataPiece remaining hs hr hc =>
      have hpos := List.length_pos_of_ne_nil hc
      simp only [weight, hs, List.length_drop, reduceCtorEq, if_false]
      by_cases hle : remaining ≤ d.chunk.length
      · simp only [if_pos hle, if_true]
        omega
      · simp only [if_neg hle, reduceCtorEq, if_false]
        omega
  | bufferMore => cases hitem
  | bufferWhole hs hle =>
      simp only [weight, hs, List.length_drop, reduceCtorEq, if_true, if_false]
      omega
  | skipMore => cases hitem
  | skipWhole hs hle hcount =>
      obtain ⟨skipped, rfl⟩ := countSkip_eq hcount
      simp only [weight, hs, List.length_drop, reduceCtorEq, if_true, if_false]
      omega
  | skipFlood => cases hitem

/-- The next item, or `none` when more bytes are needed. -/
def nextItem (d : FrameDecoder) (budget : BufferBudget) :
    Except Violation (Option Item) × FrameDecoder × BufferBudget :=
  match _h : d.iterate budget with
  | .done result d' budget' => (result, d', budget')
  | .again d' budget' => d'.nextItem budget'
termination_by d.weight
decreasing_by exact (_h ▸ iterate_pass d budget).weight_lt_of_again

/-- A pass that is done gives its result. -/
theorem nextItem_of_done {d d' : FrameDecoder} {budget budget' : BufferBudget}
    {result : Except Violation (Option Item)}
    (h : d.iterate budget = .done result d' budget') :
    d.nextItem budget = (result, d', budget') := by
  rw [nextItem]
  split
  · rename_i heq
    rw [h] at heq
    cases heq
    rfl
  · rename_i heq
    rw [h] at heq
    cases heq

/-- A pass that only moved on is followed by the next. -/
theorem nextItem_of_again {d d' : FrameDecoder} {budget budget' : BufferBudget}
    (h : d.iterate budget = .again d' budget') :
    d.nextItem budget = d'.nextItem budget' := by
  rw [nextItem]
  split
  · rename_i heq
    rw [h] at heq
    cases heq
  · rename_i heq
    rw [h] at heq
    cases heq
    rfl

/-- **The rule for the loop**: what holds of every returning pass and is carried back over
every pass that goes round again holds of `nextItem`. -/
theorem nextItem_induction
    {motive : FrameDecoder → BufferBudget →
      Except Violation (Option Item) × FrameDecoder × BufferBudget → Prop}
    (done : ∀ d budget result d' budget', Pass d budget (.done result d' budget') →
      motive d budget (result, d', budget'))
    (again : ∀ d budget d' budget' r, Pass d budget (.again d' budget') →
      motive d' budget' r → motive d budget r)
    (d : FrameDecoder) (budget : BufferBudget) : motive d budget (d.nextItem budget) := by
  induction hw : d.weight using Nat.strong_induction_on generalizing d budget with
  | _ w ih =>
      have hpass := iterate_pass d budget
      cases hiter : d.iterate budget with
      | done result d' budget' =>
          rw [hiter] at hpass
          rw [nextItem_of_done hiter]
          exact done _ _ _ _ _ hpass
      | again d' budget' =>
          rw [hiter] at hpass
          rw [nextItem_of_again hiter]
          exact again _ _ _ _ _ hpass (ih _ (hw ▸ hpass.weight_lt_of_again) _ _ rfl)

/-- A call that returns an item has brought the decoder closer to asking for more. -/
theorem weight_lt_of_nextItem {d d' : FrameDecoder} {budget budget' : BufferBudget} {item : Item}
    (h : d.nextItem budget = (.ok (some item), d', budget')) : d'.weight < d.weight := by
  have key := nextItem_induction
    (motive := fun d _ r => r.1 = .ok (some item) → r.2.1.weight < d.weight)
    (fun d budget result d' budget' hpass hitem => hpass.weight_lt_of_item hitem)
    (fun d budget d' budget' r hpass ih hitem => (ih hitem).trans hpass.weight_lt_of_again)
    d budget
  rw [h] at key
  exact key rfl

/-! ### Draining -/

open Incremental (Outcome)

/-- Calls `nextItem` until it asks for more bytes or reports a violation, collecting the
items. -/
def drain (d : FrameDecoder) (budget : BufferBudget) :
    Outcome (FrameDecoder × BufferBudget) Item Violation :=
  match _h : d.nextItem budget with
  | (.ok none, d, budget) => ⟨[], (d, budget), none⟩
  | (.error violation, d, budget) => ⟨[], (d, budget), some violation⟩
  | (.ok (some item), d, budget) =>
      let rest := d.drain budget
      { rest with out := item :: rest.out }
termination_by d.weight
decreasing_by exact weight_lt_of_nextItem _h

/-- Pushes one chunk and drains the decoder. -/
def pushDrain (s : FrameDecoder × BufferBudget) (chunk : List UInt8) :
    Outcome (FrameDecoder × BufferBudget) Item Violation :=
  (s.1.push chunk).drain s.2

/-- Reads a stream that arrives as `chunks`, each pushed and drained in turn, stopping at
the first violation. -/
def run (stream : StreamKind) (chunks : List (List UInt8)) :
    Outcome (FrameDecoder × BufferBudget) Item Violation :=
  Incremental.feedAll pushDrain (new stream, BufferBudget.unshared) chunks

/-- **The rule for draining**: a property of the drained outcome that follows from each way
a call of `nextItem` can end holds of `drain`. -/
theorem drain_induction
    {motive : FrameDecoder → BufferBudget →
      Outcome (FrameDecoder × BufferBudget) Item Violation → Prop}
    (wait : ∀ d budget d' budget', d.nextItem budget = (.ok none, d', budget') →
      motive d budget ⟨[], (d', budget'), none⟩)
    (stop : ∀ d budget violation d' budget',
      d.nextItem budget = (.error violation, d', budget') →
      motive d budget ⟨[], (d', budget'), some violation⟩)
    (item : ∀ d budget item d' budget' rest,
      d.nextItem budget = (.ok (some item), d', budget') →
      motive d' budget' rest → motive d budget { rest with out := item :: rest.out })
    (d : FrameDecoder) (budget : BufferBudget) : motive d budget (d.drain budget) := by
  induction hw : d.weight using Nat.strong_induction_on generalizing d budget with
  | _ w ih =>
      rw [drain]
      split
      · rename_i h
        exact wait _ _ _ _ h
      · rename_i h
        exact stop _ _ _ _ _ h
      · rename_i h
        exact item _ _ _ _ _ _ h (ih _ (hw ▸ weight_lt_of_nextItem h) _ _ rfl)

end FrameDecoder

end Volto
