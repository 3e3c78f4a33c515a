import Volto.Lib.Ledger
import Volto.H3.FramePass

/-!
# The Connection's Buffering Budget

Every request stream of a connection has a decoder of its own, and all of them draw on one
`BufferBudget`. The decoders run on different tasks, so their calls interleave. A call of
`next_item` touches the counter at most once in each pass of its loop; `Connection.step`
interleaves single passes, which is finer than interleaving calls, and has whole calls as
actions too.

The counter is exact in every reachable state: it is the sum of the lengths announced by
the frames that are being buffered, and so it can neither leak nor be exceeded.

## Main results

* `Pass.accounts_again`, `Pass.accounts_done`: one pass moves the counter and the decoder's
  own charge alike.
* `budget_exact`: the counter after any interleaving.
-/

namespace Volto

namespace FrameDecoder

/-- The length announced by the frame being buffered: what has arrived of it and what has
not. -/
def announced (d : FrameDecoder) : ℕ :=
  match d.state with
  | .buffering _ remaining => d.payload.length + remaining
  | _ => 0

/-- Whether a frame is being buffered. -/
def isBuffering (d : FrameDecoder) : Bool :=
  match d.state with
  | .buffering _ _ => true
  | _ => false

/-- The length the next pass will ask the budget for, if the header it completes announces a
frame to buffer. -/
def asks (d : FrameDecoder) : Option ℕ :=
  match d.state with
  | .header =>
      match d.takeFrameHeader.1 with
      | some (kind, length) =>
          match Frame.begin d.stream kind length with
          | .ok (.buffering _ remaining) => some remaining
          | _ => none
      | none => none
  | _ => none

/-- A decoder's own books: it has charged what its frame announced, and holds payload only
while it is buffering one. -/
structure Honest (d : FrameDecoder) : Prop where
  charged_eq : d.charged = d.announced
  payload_nil : d.isBuffering = false → d.payload = []

/-- A decoder that is not buffering has announced nothing. -/
theorem announced_of_not_isBuffering {d : FrameDecoder} (h : d.isBuffering = false) :
    d.announced = 0 := by
  rw [announced]
  rw [isBuffering] at h
  split
  · rename_i hs
    simp [hs] at h
  · rfl

/-- Books that have nothing in them. -/
theorem honest_of_idle {d : FrameDecoder} (hb : d.isBuffering = false) (hp : d.payload = [])
    (hc : d.charged = 0) : d.Honest :=
  ⟨hc.trans (announced_of_not_isBuffering hb).symm, fun _ => hp⟩

/-- A decoder that was not buffering and still is not keeps its books. -/
theorem Honest.of_idle {d d' : FrameDecoder} (h : d.Honest) (hb : d.isBuffering = false)
    (hb' : d'.isBuffering = false) (hp : d'.payload = d.payload) (hc : d'.charged = d.charged) :
    d'.Honest :=
  honest_of_idle hb' (hp.trans (h.payload_nil hb))
    (hc.trans (h.charged_eq.trans (announced_of_not_isBuffering hb)))

end FrameDecoder

namespace BufferBudget

/-- What an accepted charge does. -/
theorem charge_eq_ok {budget budget' : BufferBudget} {bytes : ℕ}
    (h : budget.charge bytes = .ok budget') :
    budget'.held = budget.held + bytes ∧ budget'.held ≤ headersBufferBudget := by
  simp only [charge] at h
  split_ifs at h with hle
  cases h
  have hmax : headersBufferBudget < usizeMax := by decide
  refine ⟨?_, hle⟩
  simp only
  omega

/-- **A charge is refused only for want of room.** -/
theorem charge_eq_error {budget : BufferBudget} {bytes : ℕ} {violation : Violation}
    (h : budget.charge bytes = .error violation) :
    headersBufferBudget < budget.held + bytes ∧ violation.isFieldSectionTooLarge = true := by
  simp only [charge] at h
  split_ifs at h with hle
  cases h
  refine ⟨?_, rfl⟩
  omega

/-- Giving back what is there is a plain subtraction. -/
theorem release_held {budget : BufferBudget} {bytes : ℕ} (h : bytes ≤ budget.held) :
    (budget.release bytes).held + bytes = budget.held := by
  rw [release]
  split_ifs with hpos
  · simp only
    omega
  · omega

end BufferBudget

namespace FrameDecoder

/-! ### One pass, one call -/

/-- A decoder and its budget moved together: the counter by as much as the decoder's own
charge, the books kept, and the bound with them. -/
structure Accounts (d : FrameDecoder) (budget : BufferBudget) (d' : FrameDecoder)
    (budget' : BufferBudget) : Prop where
  honest : d'.Honest
  held_eq : budget'.held + d.charged = budget.held + d'.charged
  held_le : budget'.held ≤ headersBufferBudget

/-- Two steps that account for the budget do so together. -/
theorem Accounts.trans {d d' d'' : FrameDecoder} {budget budget' budget'' : BufferBudget}
    (h : Accounts d budget d' budget') (h' : Accounts d' budget' d'' budget'') :
    Accounts d budget d'' budget'' :=
  ⟨h'.honest, by have := h.held_eq; have := h'.held_eq; omega, h'.held_le⟩

/-- A pass that leaves the budget and the charge alone. -/
theorem accounts_same {d d' : FrameDecoder} {budget : BufferBudget} (h : d'.Honest)
    (hc : d'.charged = d.charged) (hle : budget.held ≤ headersBufferBudget) :
    Accounts d budget d' budget :=
  ⟨h, by rw [hc], hle⟩

/-- **Going round again accounts for itself**: the frame just announced is charged. -/
theorem Pass.accounts_again {d d' : FrameDecoder} {budget budget' : BufferBudget}
    (h : d.Honest) (hle : budget.held ≤ headersBufferBudget)
    (hpass : Pass d budget (.again d' budget')) : Accounts d budget d' budget' := by
  cases hpass with
  | announceBuffered hs hc hp hmin hb hcharge =>
      have hidle : d.isBuffering = false := by simp [isBuffering, hs]
      have hzero : d.charged = 0 := h.charged_eq.trans (announced_of_not_isBuffering hidle)
      obtain ⟨heq, hle'⟩ := BufferBudget.charge_eq_ok hcharge
      refine ⟨⟨?_, by simp [isBuffering]⟩, ?_, hle'⟩
      · simp [announced, h.payload_nil hidle]
      · rw [heq, hzero]
        rfl
  | announceData hs hc hp hmin hb =>
      exact accounts_same (h.of_idle (by simp [isBuffering, hs]) rfl rfl rfl) rfl hle
  | announceSkipped hs hc hp hmin hb =>
      exact accounts_same (h.of_idle (by simp [isBuffering, hs]) rfl rfl rfl) rfl hle

/-- Counting a skipped frame keeps the books. -/
theorem Honest.countSkip {d d' : FrameDecoder} (h : d.Honest) {kind remaining : ℕ}
    (hs : d.state = .skipping kind remaining) {chunk : List UInt8} {violation : Option Violation}
    (hcount : { d with chunk := chunk, state := .header }.countSkip = (violation, d')) :
    d'.Honest ∧ d'.charged = d.charged := by
  obtain ⟨skipped, rfl⟩ := countSkip_eq hcount
  exact ⟨h.of_idle (by simp [isBuffering, hs]) rfl rfl rfl, rfl⟩

/-- **Returning accounts for itself**: a completed frame is given back, whether or not it
parses, and every other way out leaves the counter alone. -/
theorem Pass.accounts_done {d d' : FrameDecoder} {budget budget' : BufferBudget}
    {result : Except Violation (Option Item)} (h : d.Honest)
    (hheld : d.charged ≤ budget.held) (hle : budget.held ≤ headersBufferBudget)
    (hpass : Pass d budget (.done result d' budget')) : Accounts d budget d' budget' := by
  cases hpass with
  | headerPartial hs hp =>
      have hidle : d.isBuffering = false := by simp [isBuffering, hs]
      exact accounts_same (h.of_idle hidle (by simp [isBuffering, hs]) rfl rfl) rfl hle
  | refused hs hc hp hmin hb =>
      exact accounts_same (h.of_idle (by simp [isBuffering, hs]) rfl rfl rfl) rfl hle
  | overBudget hs hc hp hmin hb hcharge =>
      exact accounts_same (h.of_idle (by simp [isBuffering, hs]) rfl rfl rfl) rfl hle
  | dataEmpty hs =>
      exact accounts_same (h.of_idle (by simp [isBuffering, hs]) rfl rfl rfl) rfl hle
  | dataWait hs hr hc => exact accounts_same h rfl hle
  | @dataPiece remaining hs hr hc =>
      refine accounts_same (h.of_idle (by simp [isBuffering, hs]) ?_ rfl rfl) rfl hle
      by_cases hlen : remaining ≤ d.chunk.length <;> simp [isBuffering, hlen]
  | bufferMore hs hlt =>
      refine accounts_same ⟨?_, by simp [isBuffering]⟩ rfl hle
      have := h.charged_eq
      simp only [announced, hs] at this
      simp only [announced, List.length_append]
      omega
  | bufferWhole hs hlen =>
      have hrelease := BufferBudget.release_held hheld
      exact ⟨honest_of_idle rfl rfl rfl, hrelease, by omega⟩
  | skipMore hs hlt =>
      exact accounts_same (h.of_idle (by simp [isBuffering, hs]) rfl rfl rfl) rfl hle
  | skipWhole hs hlen hcount =>
      obtain ⟨hhonest, hcharged⟩ := h.countSkip hs hcount
      exact accounts_same hhonest hcharged hle
  | skipFlood hs hlen hcount =>
      obtain ⟨hhonest, hcharged⟩ := h.countSkip hs hcount
      exact accounts_same hhonest hcharged hle

/-- A pass that asks the budget for room enters the frame if it gets it, and otherwise
returns the refusal. -/
theorem iterate_of_asks {d : FrameDecoder} {bytes : ℕ} (h : d.asks = some bytes)
    (budget : BufferBudget) :
    ∃ kind, d.iterate budget =
      match budget.charge bytes with
      | .error violation => .done (.error violation) d.takeFrameHeader.2 budget
      | .ok budget => .again
          { d.takeFrameHeader.2 with charged := bytes, state := .buffering kind bytes } budget := by
  rw [asks] at h
  split at h
  case h_2 => cases h
  case h_1 hs =>
    split at h
    case h_2 => cases h
    case h_1 kind length hheader =>
      split at h
      case h_2 => cases h
      case h_1 buffered remaining hbegin =>
        cases h
        obtain ⟨result, d', hd'⟩ : ∃ result d', d.takeFrameHeader = (result, d') := ⟨_, _, rfl⟩
        have hstream : d'.stream = d.stream := by
          rw [show d' = d.takeFrameHeader.2 by rw [hd']]
          rfl
        rw [hd'] at hheader
        simp only at hheader
        subst hheader
        refine ⟨buffered, ?_⟩
        cases hcharge : budget.charge bytes <;>
          simp only [iterate, hs, hd', hstream, hbegin, hcharge]

/-- **A whole call accounts for itself.** -/
theorem nextItem_accounts (d : FrameDecoder) (budget : BufferBudget) (h : d.Honest)
    (hheld : d.charged ≤ budget.held) (hle : budget.held ≤ headersBufferBudget) :
    Accounts d budget (d.nextItem budget).2.1 (d.nextItem budget).2.2 := by
  revert h hheld hle
  refine nextItem_induction
    (motive := fun d budget r => d.Honest → d.charged ≤ budget.held →
      budget.held ≤ headersBufferBudget → Accounts d budget r.2.1 r.2.2) ?_ ?_ d budget
  · intro d budget result d' budget' hpass h hheld hle
    exact hpass.accounts_done h hheld hle
  · intro d budget d' budget' r hpass ih h hheld hle
    have hacc := hpass.accounts_again h hle
    exact hacc.trans (ih hacc.honest (by have := hacc.held_eq; omega) hacc.held_le)

end FrameDecoder

/-! ### The connection -/

/-- A connection's decoders and the budget they share. A slot is a decoder that was made;
it is `none` once the decoder has been dropped. -/
structure BudgetedConnection where
  budget : BufferBudget
  slots : List (Option FrameDecoder)

namespace BudgetedConnection

open FrameDecoder

/-- What the tasks of a connection can do next: open a stream, push a chunk, take one pass
through the loop of `next_item`, make a whole call of it, narrow a stream to a tunnel, or
drop a decoder. -/
inductive Action
  | new (stream : StreamKind)
  | push (slot : ℕ) (chunk : List UInt8)
  | pass (slot : ℕ)
  | nextItem (slot : ℕ)
  | connectCompleted (slot : ℕ)
  | drop (slot : ℕ)

/-- A connection without streams. -/
def empty : BudgetedConnection :=
  ⟨BufferBudget.unshared, []⟩

/-- The live decoder in a slot. -/
def decoder? (c : BudgetedConnection) (slot : ℕ) : Option FrameDecoder :=
  c.slots[slot]?.join

/-- What one pass leaves of the decoder and the budget. -/
def passResult (d : FrameDecoder) (budget : BufferBudget) : FrameDecoder × BufferBudget :=
  match d.iterate budget with
  | .again d budget => (d, budget)
  | .done _ d budget => (d, budget)

/-- Replace the decoder in a slot, and the budget with it. -/
def update (c : BudgetedConnection) (slot : ℕ) (d : Option FrameDecoder)
    (budget : BufferBudget) : BudgetedConnection :=
  ⟨budget, c.slots.set slot d⟩

/-- One action. An action on a slot without a live decoder cannot happen and does nothing. -/
def step (c : BudgetedConnection) : Action → BudgetedConnection
  | .new stream => { c with slots := c.slots ++ [some (FrameDecoder.new stream)] }
  | .push slot chunk =>
      match c.decoder? slot with
      | some d => c.update slot (some (d.push chunk)) c.budget
      | none => c
  | .pass slot =>
      match c.decoder? slot with
      | some d => c.update slot (some (passResult d c.budget).1) (passResult d c.budget).2
      | none => c
  | .nextItem slot =>
      match c.decoder? slot with
      | some d =>
          c.update slot (some (d.nextItem c.budget).2.1) (d.nextItem c.budget).2.2
      | none => c
  | .connectCompleted slot =>
      match c.decoder? slot with
      | some d => c.update slot (some d.connectCompleted) c.budget
      | none => c
  | .drop slot =>
      match c.decoder? slot with
      | some d => c.update slot none (d.drop c.budget)
      | none => c

/-- The connection after a run of actions. -/
def run (actions : List Action) : BudgetedConnection :=
  actions.foldl step empty

/-- What a slot has announced. -/
def slotAnnounced : Option FrameDecoder → ℕ
  | some d => d.announced
  | none => 0

/-- What the live decoders have announced together. -/
def announced (c : BudgetedConnection) : ℕ :=
  Ledger.total slotAnnounced c.slots

/-- The invariant: honest decoders, an exact counter, within the bound. -/
structure Exact (c : BudgetedConnection) : Prop where
  honest : ∀ slot d, c.decoder? slot = some d → d.Honest
  held_eq : c.budget.held = c.announced
  held_le : c.budget.held ≤ headersBufferBudget

/-- A decoder stands in its slot. -/
theorem getElem?_of_decoder? {c : BudgetedConnection} {slot : ℕ} {d : FrameDecoder}
    (h : c.decoder? slot = some d) : c.slots[slot]? = some (some d) :=
  Option.join_eq_some_iff.mp h

/-- The decoders after an update. -/
theorem decoder?_update {c : BudgetedConnection} {slot slot' : ℕ} {d' : Option FrameDecoder}
    {budget : BufferBudget} {e : FrameDecoder}
    (h : (c.update slot d' budget).decoder? slot' = some e) :
    d' = some e ∨ c.decoder? slot' = some e := by
  rw [decoder?, update] at h
  simp only [List.getElem?_set] at h
  split_ifs at h with heq
  · exact Or.inl (by simpa using h)
  · simp at h
  · exact Or.inr h

/-- No decoder has charged more than the budget holds. -/
theorem Exact.charged_le {c : BudgetedConnection} (h : c.Exact) {slot : ℕ} {d : FrameDecoder}
    (hd : c.decoder? slot = some d) : d.charged ≤ c.budget.held := by
  rw [(h.honest slot d hd).charged_eq, h.held_eq]
  exact Ledger.share_le_total slotAnnounced (getElem?_of_decoder? hd)

/-- A decoder and the budget that move together keep the connection exact. -/
theorem Exact.update {c : BudgetedConnection} (h : c.Exact) {slot : ℕ} {d d' : FrameDecoder}
    (hd : c.decoder? slot = some d) {budget' : BufferBudget}
    (hacc : Accounts d c.budget d' budget') : (c.update slot (some d') budget').Exact := by
  refine ⟨?_, ?_, hacc.held_le⟩
  · intro slot' e he
    rcases decoder?_update he with heq | hold
    · cases heq
      exact hacc.honest
    · exact h.honest slot' e hold
  · have htotal := Ledger.total_set slotAnnounced (getElem?_of_decoder? hd) (some d')
    have hsum := hacc.held_eq
    rw [(h.honest slot d hd).charged_eq, hacc.honest.charged_eq, h.held_eq] at hsum
    rw [announced] at hsum ⊢
    simp only [slotAnnounced] at htotal
    simp only [BudgetedConnection.update]
    omega

/-- Dropping a decoder gives back what its frame had announced. -/
theorem Exact.drop {c : BudgetedConnection} (h : c.Exact) {slot : ℕ} {d : FrameDecoder}
    (hd : c.decoder? slot = some d) : (c.update slot none (d.drop c.budget)).Exact := by
  have hrelease := BufferBudget.release_held (h.charged_le hd)
  have hle := h.held_le
  refine ⟨?_, ?_, ?_⟩
  · intro slot' e he
    rcases decoder?_update he with heq | hold
    · cases heq
    · exact h.honest slot' e hold
  · have htotal := Ledger.total_set slotAnnounced (getElem?_of_decoder? hd) none
    have hheld := h.held_eq
    rw [(h.honest slot d hd).charged_eq] at hrelease
    rw [announced] at hheld ⊢
    simp only [slotAnnounced] at htotal
    simp only [BudgetedConnection.update, FrameDecoder.drop, FrameDecoder.release,
      (h.honest slot d hd).charged_eq]
    omega
  · simp only [BudgetedConnection.update, FrameDecoder.drop, FrameDecoder.release]
    omega

/-- A pass keeps the connection exact. -/
theorem Exact.pass {c : BudgetedConnection} (h : c.Exact) {slot : ℕ} {d : FrameDecoder}
    (hd : c.decoder? slot = some d) :
    Accounts d c.budget (passResult d c.budget).1 (passResult d c.budget).2 := by
  have hpass := iterate_pass d c.budget
  rw [passResult]
  cases hiter : d.iterate c.budget with
  | again d' budget' =>
      rw [hiter] at hpass
      exact hpass.accounts_again (h.honest slot d hd) h.held_le
  | done result d' budget' =>
      rw [hiter] at hpass
      exact hpass.accounts_done (h.honest slot d hd) (h.charged_le hd) h.held_le

/-- A new decoder has announced nothing. -/
theorem Exact.new {c : BudgetedConnection} (h : c.Exact) (stream : StreamKind) :
    (c.step (.new stream)).Exact := by
  refine ⟨?_, ?_, h.held_le⟩
  · intro slot d hd
    have hmem := List.mem_of_getElem? (getElem?_of_decoder? hd)
    simp only [BudgetedConnection.step, List.mem_append, List.mem_singleton,
      Option.some.injEq] at hmem
    rcases hmem with hmem | rfl
    · obtain ⟨slot', hslot'⟩ := List.getElem?_of_mem hmem
      exact h.honest slot' d (by simp [decoder?, hslot'])
    · exact honest_of_idle rfl rfl rfl
  · simp only [BudgetedConnection.step, announced, Ledger.total_concat]
    exact h.held_eq

/-- An operation that only the decoder itself sees, and that keeps it honest. -/
theorem Exact.same {c : BudgetedConnection} (h : c.Exact) {slot : ℕ} {d d' : FrameDecoder}
    (hd : c.decoder? slot = some d) (hhonest : d.Honest → d'.Honest)
    (hcharged : d'.charged = d.charged) : (c.update slot (some d') c.budget).Exact :=
  h.update hd (accounts_same (hhonest (h.honest slot d hd)) hcharged h.held_le)

/-- An action on a decoder keeps the connection exact if it does so where there is one. -/
theorem Exact.on_slot {c : BudgetedConnection} (h : c.Exact) (slot : ℕ)
    {after : FrameDecoder → BudgetedConnection}
    (hafter : ∀ d, c.decoder? slot = some d → (after d).Exact) :
    Exact (match c.decoder? slot with
      | some d => after d
      | none => c) := by
  cases hd : c.decoder? slot with
  | none => exact h
  | some d => exact hafter d hd

/-- **One action keeps the connection exact.** -/
theorem Exact.step {c : BudgetedConnection} (h : c.Exact) (action : Action) :
    (c.step action).Exact := by
  cases action with
  | new stream => exact h.new stream
  | push slot chunk =>
      refine h.on_slot slot fun d hd => h.same hd ?_ rfl
      intro hhonest
      exact ⟨hhonest.charged_eq, hhonest.payload_nil⟩
  | pass slot => exact h.on_slot slot fun d hd => h.update hd (h.pass hd)
  | nextItem slot =>
      refine h.on_slot slot fun d hd => h.update hd ?_
      exact nextItem_accounts d c.budget (h.honest slot d hd) (h.charged_le hd) h.held_le
  | connectCompleted slot =>
      refine h.on_slot slot fun d hd => h.same hd ?_ rfl
      intro hhonest
      exact ⟨hhonest.charged_eq, hhonest.payload_nil⟩
  | drop slot => exact h.on_slot slot fun d hd => h.drop hd

/-- **Every reachable connection is exact.** -/
theorem exact_run (actions : List Action) : (run actions).Exact := by
  refine List.foldlRecOn (motive := Exact) actions step ⟨?_, rfl, by decide⟩ ?_
  · intro slot d hd
    simp [decoder?, empty] at hd
  · intro c h action _
    exact h.step action

/-- What a decoder announces once its frame is accepted, and what a refusal leaves: the
counter as it was. -/
theorem Exact.asks {c : BudgetedConnection} (h : c.Exact) {slot : ℕ} {d : FrameDecoder}
    (hd : c.decoder? slot = some d) {bytes : ℕ} (hasks : d.asks = some bytes) :
    if c.budget.held + bytes ≤ headersBufferBudget then
      ∃ d', d.iterate c.budget = .again d' ⟨c.budget.held + bytes⟩ ∧ d'.announced = bytes
    else
      ∃ violation d', d.iterate c.budget = .done (.error violation) d' c.budget ∧
        violation.isFieldSectionTooLarge = true := by
  obtain ⟨kind, hiter⟩ := iterate_of_asks hasks c.budget
  have hpass := iterate_pass d c.budget
  cases hcharge : c.budget.charge bytes with
  | ok budget' =>
      obtain ⟨heq, hle⟩ := BufferBudget.charge_eq_ok hcharge
      rw [if_pos (by omega)]
      simp only [hcharge] at hiter
      rw [hiter] at hpass
      have hacc := hpass.accounts_again (h.honest slot d hd) h.held_le
      obtain rfl : budget' = ⟨c.budget.held + bytes⟩ := by
        rw [← heq]
      exact ⟨_, hiter, hacc.honest.charged_eq.symm⟩
  | error violation =>
      obtain ⟨hlt, hlarge⟩ := BufferBudget.charge_eq_error hcharge
      rw [if_neg (by omega)]
      simp only [hcharge] at hiter
      exact ⟨violation, _, hiter, hlarge⟩

/-- **The budget is exact under any interleaving.** After every run of actions the counter is
the sum of the lengths announced by the frames being buffered, stays within the
connection's allowance, and is zero when no live decoder is buffering. What a decoder gives
back was there to give; a frame that fits is charged in full, and one that does not is
refused with the counter untouched. -/
theorem budget_exact (actions : List Action) :
    (run actions).budget.held = (run actions).announced ∧
    (run actions).budget.held ≤ headersBufferBudget ∧
    ((∀ slot d, (run actions).decoder? slot = some d → d.isBuffering = false) →
      (run actions).budget.held = 0) ∧
    ∀ slot d, (run actions).decoder? slot = some d →
      (d.release (run actions).budget).2.held + d.charged = (run actions).budget.held ∧
      ∀ bytes, d.asks = some bytes →
        if (run actions).budget.held + bytes ≤ headersBufferBudget then
          ∃ d', d.iterate (run actions).budget = .again d' ⟨(run actions).budget.held + bytes⟩ ∧
            d'.announced = bytes
        else
          ∃ violation d',
            d.iterate (run actions).budget = .done (.error violation) d' (run actions).budget ∧
              violation.isFieldSectionTooLarge = true := by
  have h := exact_run actions
  refine ⟨h.held_eq, h.held_le, ?_, ?_⟩
  · intro hidle
    rw [h.held_eq, announced]
    refine Ledger.total_eq_zero slotAnnounced ?_
    rintro (_ | d) hmem
    · rfl
    · obtain ⟨slot, hslot⟩ := List.getElem?_of_mem hmem
      exact announced_of_not_isBuffering (hidle slot d (by simp [decoder?, hslot]))
  · intro slot d hd
    exact ⟨BufferBudget.release_held (h.charged_le hd), fun bytes hasks => h.asks hd hasks⟩

end BudgetedConnection

end Volto
