import Volto.H3.IntReader
import Volto.Lib.Framing

/-!
# The Peer's QPACK Streams

`QpackProgress` of `h3/connection.rs` judges the peer's two QPACK streams a byte at a time. With no
dynamic table there is next to nothing a peer may say: on its encoder stream a table capacity of
zero, over and over, and on its decoder stream Stream Cancellations, whose stream id is a prefixed
integer that is skipped and not read. The state is whether such an integer is still running and how
many of its continuation bytes went by, and it lives across chunks.

An integer is refused for its length when the first byte beyond the bound arrives, and not when the
last byte within it asks for another one.

## Main results

* `Reaches.judge`, `judge_decoder_isOk_iff`: which bytes the decoder stream may carry, and the state
  they leave.
* `isPrefix_iff`: which of them can be completed.
* `judgeChunks_eq`: the cuts do not matter.
* `qpack_stream_languages`: the languages of the two streams and their refusals.
-/

namespace Volto

open Continued
open Qpack (GoesOn putInt)

/-- Which of the peer's two QPACK streams is being read. -/
inductive QpackStream
  | encoder
  | decoder
deriving DecidableEq, Repr

namespace QpackStream

/-- The error code for a fault on this stream. -/
def code : QpackStream → Code
  | encoder => Code.qpackEncoderStreamError
  | decoder => Code.qpackDecoderStreamError

/-- The name of a QPACK stream in messages. -/
def name : QpackStream → String
  | encoder => "encoder"
  | decoder => "decoder"

end QpackStream

/-- The most continuation bytes an instruction's prefixed integer may run to. -/
def maxIntegerContinuation : ℕ := 9

/-- Judges an instruction by its first byte: whether its integer continues. -/
def qpackInstruction (kind : QpackStream) (first : UInt8) : Except Violation Bool :=
  let refuse (what : String) : Except Violation Bool :=
    .error (Violation.connection kind.code what)
  match kind with
  | .encoder =>
      if first &&& 0b1000_0000 ≠ 0 then
        refuse "an Insert with Name Reference with no dynamic table"
      else if first &&& 0b0100_0000 ≠ 0 then
        refuse "an Insert with Literal Name with no dynamic table"
      else if first &&& 0b0010_0000 ≠ 0 then
        if first &&& 0b0001_1111 ≠ 0 then
          refuse "a dynamic table capacity above the zero this server allows"
        else
          .ok false
      else
        refuse "a Duplicate with no dynamic table"
  | .decoder =>
      if first &&& 0b1000_0000 ≠ 0 then
        refuse "a Section Acknowledgment for a field section that needed none"
      else if first &&& 0b0100_0000 ≠ 0 then
        .ok (first &&& 0b0011_1111 = 0b0011_1111)
      else
        refuse "an Insert Count Increment when nothing was inserted"

/-- How far the last accepted instruction's prefixed integer has run. -/
structure QpackProgress where
  /-- Whether that integer is still running. -/
  continuing : Bool
  /-- How many continuation bytes of it have been read. -/
  continuation : ℕ
deriving DecidableEq, Repr

namespace QpackProgress

/-- Nothing has been read. -/
def default : QpackProgress := ⟨false, 0⟩

/-- Judges one byte and advances the state. -/
def take (p : QpackProgress) (kind : QpackStream) (byte : UInt8) :
    Except Violation QpackProgress :=
  if p.continuing then
    if maxIntegerContinuation < p.continuation + 1 then
      .error (Violation.connection kind.code "an integer past 62 bits")
    else
      .ok ⟨byte &&& 0b1000_0000 ≠ 0, p.continuation + 1⟩
  else do
    let continuing ← qpackInstruction kind byte
    .ok ⟨continuing, 0⟩

/-- Judges the bytes of a chunk. -/
def takeAll (p : QpackProgress) (kind : QpackStream) (bytes : List UInt8) :
    Except Violation QpackProgress :=
  bytes.foldlM (fun p byte => p.take kind byte) p

end QpackProgress

/-- Judges a stream from its beginning. -/
def judgeQpack (kind : QpackStream) (bytes : List UInt8) : Except Violation QpackProgress :=
  QpackProgress.default.takeAll kind bytes

/-- Judges a stream that arrives in chunks. -/
def judgeChunks (kind : QpackStream) (chunks : List (List UInt8)) :
    Except Violation QpackProgress :=
  chunks.foldlM (fun p chunk => p.takeAll kind chunk) QpackProgress.default

/-! ### Serving a stream -/

/-- A second stream of a kind the peer may only open once. -/
def duplicate (detail : String) : Violation :=
  Violation.connection Code.h3StreamCreationError detail

/-- What an ending of one of the peer's critical streams means. It means nothing on a connection
that is over. -/
def criticalStreamClosed (detail : String) (closed : Bool) : Option Violation :=
  if closed then none else some (Violation.connection Code.h3ClosedCriticalStream detail)

/-- How a stream of the peer's ends. -/
inductive Ending
  | finished
  | reset (error : String)
deriving DecidableEq, Repr

/-- The detail of an ending. -/
def Ending.detail (kind : QpackStream) : Ending → String
  | finished => s!"the peer closed its QPACK {kind.name} stream"
  | reset error => s!"the peer reset its QPACK {kind.name} stream: {error}"

/-! ### One byte -/

namespace QpackProgress

variable {p p' : QpackProgress} {kind : QpackStream} {byte first : UInt8} {bytes : List UInt8}

/-- The mask of the code asks whether a byte goes on. -/
theorem goesOn_iff (byte : UInt8) : byte &&& 0b1000_0000 ≠ 0 ↔ GoesOn byte := by
  revert byte
  exact forall_byte (by decide +kernel)

/-- The only instruction of the encoder stream is complete in its byte. -/
theorem qpackInstruction_encoder (first : UInt8) :
    (qpackInstruction .encoder first).toOption = if first = 0x20 then some false else none := by
  revert first
  exact forall_byte (by decide +kernel)

/-- The only instruction of the decoder stream goes on where its prefix is full. -/
theorem qpackInstruction_decoder (first : UInt8) :
    (qpackInstruction .decoder first).toOption =
      if first.toNat / 64 = 1 then some (decide (first.toNat % 64 = 63)) else none := by
  revert first
  exact forall_byte (by decide +kernel)

/-- The one encoder instruction is a capacity of zero. -/
theorem instruction_encoder_iff {continuing : Bool} :
    qpackInstruction .encoder first = .ok continuing ↔ first = 0x20 ∧ continuing = false := by
  rw [← Fallible.toOption_eq_some, qpackInstruction_encoder]
  split_ifs with h
  · simp [h, eq_comm]
  · simp [h]

/-- The decoder instructions are the cancellations. -/
theorem instruction_decoder_iff {continuing : Bool} :
    qpackInstruction .decoder first = .ok continuing ↔
      first.toNat / 64 = 1 ∧ (continuing = true ↔ first.toNat % 64 = 63) := by
  rw [← Fallible.toOption_eq_some, qpackInstruction_decoder]
  split_ifs with h
  · cases continuing <;> simp [h]
  · simp [h]

/-- Between instructions a byte begins the next. -/
theorem take_first (hp : p.continuing = false) :
    p.take kind byte = qpackInstruction kind byte >>= fun continuing => .ok ⟨continuing, 0⟩ := by
  rw [take, hp]
  rfl

/-- Within an integer a byte is taken, up to the longest allowed. -/
theorem take_continuation {count : ℕ} (hlt : count < maxIntegerContinuation) :
    take ⟨true, count⟩ kind byte = .ok ⟨decide (GoesOn byte), count + 1⟩ := by
  rw [take, if_pos rfl, if_neg (Nat.not_lt.mpr hlt)]
  simp only [goesOn_iff]

/-- A refusal is a connection error with the stream's own code. -/
theorem take_failsIn (p : QpackProgress) (kind : QpackStream) (byte : UInt8) :
    Fallible.FailsIn (fun violation => violation.isConnectionError = true ∧
      violation.code = kind.code) (p.take kind byte) := by
  have hconnection (detail : String) :
      (Violation.connection kind.code detail).isConnectionError = true ∧
        (Violation.connection kind.code detail).code = kind.code := ⟨rfl, rfl⟩
  rw [take]
  split_ifs
  · exact .error (hconnection _)
  · exact .ok _
  · refine .bind ?_ fun _ _ => .ok _
    cases kind with
    | encoder =>
        rw [qpackInstruction]
        simp only
        split_ifs
        · exact .error (hconnection _)
        · exact .error (hconnection _)
        · exact .error (hconnection _)
        · exact .ok _
        · exact .error (hconnection _)
    | decoder =>
        rw [qpackInstruction]
        simp only
        split_ifs
        · exact .error (hconnection _)
        · exact .ok _
        · exact .error (hconnection _)

/-- Bytes are taken in two runs as in one. -/
theorem takeAll_append (p : QpackProgress) (kind : QpackStream) (bytes rest : List UInt8) :
    p.takeAll kind (bytes ++ rest) = p.takeAll kind bytes >>= fun p => p.takeAll kind rest :=
  List.foldlM_append

/-- Bytes are taken one after the other. -/
theorem takeAll_cons (p : QpackProgress) (kind : QpackStream) (byte : UInt8)
    (rest : List UInt8) :
    p.takeAll kind (byte :: rest) = p.take kind byte >>= fun p => p.takeAll kind rest :=
  List.foldlM_cons

end QpackProgress

open QpackProgress

/-! ### The decoder stream -/

/-- A Stream Cancellation: `01` and a stream id in a prefix of six bits, of no more continuation
bytes than the bound. -/
inductive StreamCancellation : List UInt8 → Prop
  | short {first : UInt8} (hfirst : first.toNat / 64 = 1) (hlow : first.toNat % 64 ≠ 63) :
      StreamCancellation [first]
  | long {first : UInt8} {groups : List UInt8} (hfirst : first.toNat / 64 = 1)
      (hlow : first.toNat % 64 = 63) (hgroups : Whole GoesOn groups)
      (hlength : groups.length ≤ maxIntegerContinuation) : StreamCancellation (first :: groups)

/-- The start of one, up to so many continuation bytes that all ask for another. -/
inductive Running (count : ℕ) : List UInt8 → Prop
  | start {first : UInt8} {groups : List UInt8} (hfirst : first.toNat / 64 = 1)
      (hlow : first.toNat % 64 = 63) (hgroups : Open GoesOn groups)
      (hlength : groups.length = count) : Running count (first :: groups)

/-- **What the state says of the bytes that were judged.** -/
inductive Reaches (bytes : List UInt8) : QpackProgress → Prop
  | between {instructions : List (List UInt8)} {continuation : ℕ}
      (hinstructions : ∀ instruction ∈ instructions, StreamCancellation instruction)
      (hbytes : bytes = instructions.flatten) : Reaches bytes ⟨false, continuation⟩
  | within {instructions : List (List UInt8)} {rest : List UInt8} {count : ℕ}
      (hinstructions : ∀ instruction ∈ instructions, StreamCancellation instruction)
      (hbytes : bytes = instructions.flatten ++ rest) (hrest : Running count rest)
      (hcount : count ≤ maxIntegerContinuation) : Reaches bytes ⟨true, count⟩

section

variable {p p' : QpackProgress} {byte : UInt8} {bytes rest instruction groups : List UInt8}
  {instructions : List (List UInt8)} {count : ℕ}

/-- One instruction more. -/
theorem cancellations_concat (h : ∀ i ∈ instructions, StreamCancellation i)
    (hlast : StreamCancellation instruction) :
    ∀ i ∈ instructions ++ [instruction], StreamCancellation i :=
  List.forall_mem_append.mpr ⟨h, List.forall_mem_singleton.mpr hlast⟩

/-- A byte begins an instruction or continues an integer. -/
theorem Reaches.take (h : Reaches bytes p) (htake : p.take .decoder byte = .ok p') :
    Reaches (bytes ++ [byte]) p' := by
  cases h with
  | @between instructions continuation hinstructions hbytes =>
      subst hbytes
      rw [take_first rfl] at htake
      obtain ⟨continuing, hinstruction, heq⟩ := Fallible.bind_eq_ok.mp htake
      cases heq
      obtain ⟨hfirst, hlow⟩ := instruction_decoder_iff.mp hinstruction
      cases continuing with
      | true =>
          exact .within hinstructions rfl (.start hfirst (hlow.mp rfl) open_nil rfl)
            (Nat.zero_le _)
      | false =>
          have hshort : StreamCancellation [byte] :=
            .short hfirst fun hfull => by cases hlow.mpr hfull
          exact .between (cancellations_concat hinstructions hshort) (by simp)
  | @within instructions rest count hinstructions hbytes hrest hcount =>
      subst hbytes
      cases hrest with
      | @start first groups hfirst hlow hgroups hlength =>
          subst hlength
          obtain hlt | hge := Nat.lt_or_ge groups.length maxIntegerContinuation
          · rw [take_continuation hlt] at htake
            cases htake
            have hmore : (groups ++ [byte]).length = groups.length + 1 := by simp
            by_cases hbyte : GoesOn byte
            · rw [decide_eq_true hbyte]
              refine .within hinstructions (List.append_assoc _ _ _) ?_ hlt
              exact .start hfirst hlow (open_concat.mpr ⟨hgroups, hbyte⟩) hmore
            · rw [decide_eq_false hbyte]
              have hlong : StreamCancellation (first :: (groups ++ [byte])) :=
                .long hfirst hlow (hgroups.whole hbyte) (hmore.trans_le hlt)
              exact .between (cancellations_concat hinstructions hlong) (by simp)
          · rw [QpackProgress.take, if_pos rfl, if_pos (Nat.lt_succ_of_le hge)] at htake
            cases htake

/-- **What a run leaves.** -/
theorem Reaches.judge (h : judgeQpack .decoder bytes = .ok p) : Reaches bytes p := by
  induction bytes using List.reverseRecOn generalizing p with
  | nil =>
      cases h
      exact @Reaches.between [] [] 0 (by simp) rfl
  | append_singleton bytes byte ih =>
      rw [judgeQpack, takeAll_append] at h
      obtain ⟨p', hfront, hlast⟩ := Fallible.bind_eq_ok.mp h
      rw [takeAll_cons] at hlast
      obtain ⟨p'', htake, heq⟩ := Fallible.bind_eq_ok.mp hlast
      cases heq
      exact (ih hfront).take htake

/-- Continuation bytes are counted as long as the bound allows. -/
theorem takeAll_open (hgroups : Open GoesOn groups)
    (hlength : count + groups.length ≤ maxIntegerContinuation) :
    QpackProgress.takeAll ⟨true, count⟩ .decoder groups = .ok ⟨true, count + groups.length⟩ := by
  induction groups generalizing count with
  | nil => rfl
  | cons byte groups ih =>
      obtain ⟨hbyte, hgroups⟩ := List.forall_mem_cons.mp hgroups
      rw [List.length_cons] at hlength ⊢
      have hlt : count < maxIntegerContinuation := by omega
      rw [takeAll_cons, take_continuation hlt, Fallible.ok_bind, decide_eq_true hbyte,
        ih hgroups (by omega), Nat.add_assoc, Nat.add_comm 1]

/-- A cut cancellation leaves the reader within its integer. -/
theorem takeAll_running (h : Running count rest) (hcount : count ≤ maxIntegerContinuation)
    (hp : p.continuing = false) : p.takeAll .decoder rest = .ok ⟨true, count⟩ := by
  cases h with
  | @start first groups hfirst hlow hgroups hlength =>
      subst hlength
      have hinstruction : qpackInstruction .decoder first = .ok true :=
        instruction_decoder_iff.mpr ⟨hfirst, iff_of_true rfl hlow⟩
      have hopen := @takeAll_open groups 0 hgroups (by omega)
      rw [Nat.zero_add] at hopen
      rw [takeAll_cons, take_first hp, hinstruction]
      exact hopen

/-- An instruction is taken whole. -/
theorem takeAll_cancellation (h : StreamCancellation instruction) (hp : p.continuing = false) :
    ∃ p', p.takeAll .decoder instruction = .ok p' ∧ p'.continuing = false := by
  cases h with
  | @short first hfirst hlow =>
      have hinstruction : qpackInstruction .decoder first = .ok false :=
        instruction_decoder_iff.mpr ⟨hfirst, iff_of_false (by decide) hlow⟩
      refine ⟨⟨false, 0⟩, ?_, rfl⟩
      rw [takeAll_cons, take_first hp, hinstruction]
      rfl
  | @long first groups hfirst hlow hgroups hlength =>
      obtain ⟨front, last, rfl, hfront, hlast⟩ := hgroups
      rw [List.length_append, List.length_singleton] at hlength
      have hrunning := takeAll_running (.start hfirst hlow hfront rfl) (by omega) hp
      refine ⟨⟨false, front.length + 1⟩, ?_, rfl⟩
      rw [← List.cons_append, takeAll_append, hrunning, Fallible.ok_bind, takeAll_cons,
        take_continuation hlength, decide_eq_false hlast]
      rfl

/-- Whole cancellations leave the reader between instructions. -/
theorem takeAll_cancellations (h : ∀ i ∈ instructions, StreamCancellation i)
    (hp : p.continuing = false) :
    ∃ p', p.takeAll .decoder instructions.flatten = .ok p' ∧ p'.continuing = false := by
  induction instructions generalizing p with
  | nil => exact ⟨p, rfl, hp⟩
  | cons instruction instructions ih =>
      obtain ⟨hfirst, hrest⟩ := List.forall_mem_cons.mp h
      obtain ⟨p', htake, hp'⟩ := takeAll_cancellation hfirst hp
      rw [List.flatten_cons, takeAll_append, htake]
      exact ih hrest hp'

/-- A stream that is within an instruction. -/
theorem judge_within (h : ∀ i ∈ instructions, StreamCancellation i) (hrest : Running count rest)
    (hcount : count ≤ maxIntegerContinuation) :
    judgeQpack .decoder (instructions.flatten ++ rest) = .ok ⟨true, count⟩ := by
  obtain ⟨p, htake, hp⟩ := takeAll_cancellations (p := .default) h rfl
  rw [judgeQpack, takeAll_append, htake]
  exact takeAll_running hrest hcount hp

/-- **The decoder stream carries Stream Cancellations**, the last of which may be cut. -/
theorem judge_decoder_isOk_iff :
    (∃ p, judgeQpack .decoder bytes = .ok p) ↔ ∃ p, Reaches bytes p := by
  constructor
  · rintro ⟨p, h⟩
    exact ⟨p, .judge h⟩
  · rintro ⟨p, h⟩
    cases h with
    | between hinstructions hbytes =>
        subst hbytes
        obtain ⟨p', htake, -⟩ := takeAll_cancellations (p := .default) hinstructions rfl
        exact ⟨p', htake⟩
    | within hinstructions hbytes hrest hcount =>
        subst hbytes
        exact ⟨_, judge_within hinstructions hrest hcount⟩

/-- An instruction that is cut is one that runs, with a continuation byte left for its end. -/
theorem StreamCancellation.cut (h : StreamCancellation instruction) {front back : List UInt8}
    (hcut : instruction = front ++ back) (hfront : front ≠ []) (hback : back ≠ []) :
    ∃ count < maxIntegerContinuation, Running count front := by
  obtain - | ⟨first, groups⟩ := front
  · exact absurd rfl hfront
  have hpos := List.length_pos_iff.mpr hback
  cases h with
  | short hfirst hlow =>
      have hlength := congrArg List.length hcut
      simp only [List.length_append, List.length_cons, List.length_nil] at hlength
      omega
  | long hfirst hlow hgroups hlength =>
      obtain ⟨rfl, htail⟩ := List.cons_eq_cons.mp hcut
      have hsplit : _ = groups ++ back := htail
      rw [hsplit] at hgroups hlength
      rw [List.length_append] at hlength
      exact ⟨groups.length, by omega, .start hfirst hlow (hgroups.open_front hback) rfl⟩

/-- Instructions are written one behind the other. -/
theorem encodeAll_some (instructions : List (List UInt8)) :
    Framing.encodeAll some instructions = some instructions.flatten := by
  induction instructions with
  | nil => rfl
  | cons instruction instructions ih => rw [Framing.encodeAll, ih]; rfl

/-- **What can be completed**: an integer that is running has to have a continuation byte left for
its end. -/
theorem isPrefix_iff :
    (∃ instructions : List (List UInt8), (∀ i ∈ instructions, StreamCancellation i) ∧
        bytes <+: instructions.flatten) ↔
      ∃ (instructions : List (List UInt8)) (rest : List UInt8),
        (∀ i ∈ instructions, StreamCancellation i) ∧ bytes = instructions.flatten ++ rest ∧
        (rest = [] ∨ ∃ count < maxIntegerContinuation, Running count rest) := by
  constructor
  · rintro ⟨instructions, hinstructions, back, hback⟩
    have hencode : Framing.encodeAll some instructions = some (bytes ++ back) := by
      rw [encodeAll_some, hback]
    refine Framing.front_induction
      (motive := fun items front => (∀ i ∈ items, StreamCancellation i) →
        ∃ (instructions : List (List UInt8)) (rest : List UInt8),
          (∀ i ∈ instructions, StreamCancellation i) ∧ front = instructions.flatten ++ rest ∧
          (rest = [] ∨ ∃ count < maxIntegerContinuation, Running count rest))
      ?_ ?_ ?_ hencode hinstructions
    · exact fun _ _ => ⟨[], [], by simp, rfl, .inl rfl⟩
    · intro item items front back hitem hfront hne hitems
      obtain ⟨hfirst, -⟩ := List.forall_mem_cons.mp hitems
      exact ⟨[], front, by simp, rfl, .inr (hfirst.cut (Option.some.inj hitem) hfront hne)⟩
    · intro item items bytes front hitem ih hitems
      cases hitem
      obtain ⟨hfirst, hrest⟩ := List.forall_mem_cons.mp hitems
      obtain ⟨instructions, rest, hinstructions, rfl, hcut⟩ := ih hrest
      refine ⟨item :: instructions, rest, List.forall_mem_cons.mpr ⟨hfirst, hinstructions⟩, ?_,
        hcut⟩
      rw [List.flatten_cons, List.append_assoc]
  · rintro ⟨instructions, rest, hinstructions, rfl, rfl | ⟨count, hcount, hrest⟩⟩
    · exact ⟨instructions, hinstructions, by simp⟩
    · -- a byte that asks for no other completes the integer
      cases hrest with
      | @start first groups hfirst hlow hgroups hlength =>
          have hlong : StreamCancellation (first :: (groups ++ [0x00])) :=
            .long hfirst hlow (hgroups.whole (by decide)) (by simp; omega)
          refine ⟨instructions ++ [first :: (groups ++ [0x00])],
            cancellations_concat hinstructions hlong, [0x00], ?_⟩
          simp

end

/-! ### The encoder stream -/

/-- **The encoder stream carries one byte**, over and over, and none of it ever continues. -/
theorem takeAll_encoder_iff {p : QpackProgress} (hp : p.continuing = false)
    (bytes : List UInt8) :
    (∃ p', p.takeAll .encoder bytes = .ok p') ↔ ∀ byte ∈ bytes, byte = 0x20 := by
  induction bytes generalizing p with
  | nil => exact iff_of_true ⟨p, rfl⟩ (by simp)
  | cons byte bytes ih =>
      rw [takeAll_cons, take_first hp, List.forall_mem_cons]
      constructor
      · rintro ⟨p', h⟩
        obtain ⟨p'', htake, hrest⟩ := Fallible.bind_eq_ok.mp h
        obtain ⟨continuing, hinstruction, heq⟩ := Fallible.bind_eq_ok.mp htake
        cases heq
        obtain ⟨rfl, rfl⟩ := instruction_encoder_iff.mp hinstruction
        exact ⟨rfl, (ih rfl).mp ⟨p', hrest⟩⟩
      · rintro ⟨rfl, hrest⟩
        have hinstruction : qpackInstruction .encoder 0x20 = .ok false :=
          instruction_encoder_iff.mpr ⟨rfl, rfl⟩
        obtain ⟨p', htake⟩ := (ih (p := ⟨false, 0⟩) rfl).mpr hrest
        exact ⟨p', by rw [hinstruction]; exact htake⟩

/-! ### Stream ids as this server writes them -/

/-- **A stream id is a Stream Cancellation's**, up to 62 bits. -/
theorem streamCancellation_putInt {streamId : ℕ} (h : streamId < 2 ^ 62) :
    StreamCancellation (putInt 6 0b01 streamId) := by
  have hfirst {value : ℕ} (hvalue : value < 2 ^ 6) :
      (UInt8.ofNat (0b01 <<< 6 &&& 0xff ||| value)).toNat = 64 + value :=
    Qpack.toNat_first (by decide) (by decide) hvalue
  have hmask : Qpack.prefixMask 6 = 63 := rfl
  rw [putInt]
  by_cases hsmall : streamId < Qpack.prefixMask 6
  · rw [if_pos hsmall]
    rw [hmask] at hsmall
    have hshort := hfirst (show streamId < 2 ^ 6 by omega)
    exact .short (by omega) (by omega)
  · rw [if_neg hsmall, hmask]
    have hfull := hfirst (show 63 < 2 ^ 6 by decide)
    refine .long (by rw [hfull]) (by rw [hfull]) (Qpack.whole_putIntLoop _) ?_
    exact Qpack.length_putIntLoop (n := 8) (lt_of_le_of_lt (Nat.sub_le _ _) (h.trans (by decide)))

/-! ### Streams -/

/-- **The cuts do not matter.** -/
theorem judgeChunks_eq (kind : QpackStream) (chunks : List (List UInt8)) :
    judgeChunks kind chunks = judgeQpack kind chunks.flatten := by
  induction chunks using List.reverseRecOn with
  | nil => rfl
  | append_singleton chunks chunk ih =>
      have hlast (p : QpackProgress) :
          ([chunk].foldlM (fun p chunk => p.takeAll kind chunk) p : Except Violation _) =
            p.takeAll kind chunk := by
        rw [List.foldlM_cons]
        exact bind_pure _
      rw [judgeChunks, List.foldlM_append]
      rw [judgeChunks] at ih
      rw [ih, List.flatten_append, List.flatten_singleton, judgeQpack, judgeQpack, takeAll_append]
      simp only [hlast]

/-- Every fault of a QPACK stream fails the connection with the code of the stream. -/
theorem judge_failsIn (kind : QpackStream) (bytes : List UInt8) :
    Fallible.FailsIn (fun violation => violation.isConnectionError = true ∧
      violation.code = kind.code) (judgeQpack kind bytes) :=
  .foldlM (fun p byte => take_failsIn p kind byte) .default bytes

/-- **The languages of the QPACK streams.** However a stream is cut, the decoder stream is accepted
as long as it is a prefix of a sequence of Stream Cancellations, or such a sequence and the start
of one more whose integer has run to the bound and asks for another byte; the encoder stream is
accepted as long as every byte sets the capacity to zero; every stream id is accepted as this
server would write it, and complete; and whatever is refused is a connection error with the
stream's own code. -/
theorem qpack_stream_languages :
    (∀ kind chunks, judgeChunks kind chunks = judgeQpack kind chunks.flatten) ∧
    (∀ bytes, (∃ p, judgeQpack .decoder bytes = .ok p) ↔
      (∃ instructions : List (List UInt8), (∀ i ∈ instructions, StreamCancellation i) ∧
        bytes <+: instructions.flatten) ∨
      ∃ (instructions : List (List UInt8)) (rest : List UInt8),
        (∀ i ∈ instructions, StreamCancellation i) ∧ bytes = instructions.flatten ++ rest ∧
        Running maxIntegerContinuation rest) ∧
    (∀ bytes, (∃ p, judgeQpack .encoder bytes = .ok p) ↔ ∀ byte ∈ bytes, byte = 0x20) ∧
    (∀ streamId < 2 ^ 62, ∀ p : QpackProgress, p.continuing = false →
      ∃ p', p.takeAll .decoder (putInt 6 0b01 streamId) = .ok p' ∧ p'.continuing = false) ∧
    ∀ kind bytes violation, judgeQpack kind bytes = .error violation →
      violation.isConnectionError = true ∧ violation.code = kind.code := by
  refine ⟨judgeChunks_eq, fun bytes => ?_, takeAll_encoder_iff rfl, fun streamId hid p hp => ?_,
    fun kind bytes => judge_failsIn kind bytes⟩
  · rw [judge_decoder_isOk_iff, isPrefix_iff]
    constructor
    · rintro ⟨p, h⟩
      cases h with
      | between hinstructions hbytes =>
          exact .inl ⟨_, [], hinstructions, by rw [hbytes, List.append_nil], .inl rfl⟩
      | within hinstructions hbytes hrest hcount =>
          obtain hlt | rfl := Nat.lt_or_eq_of_le hcount
          · exact .inl ⟨_, _, hinstructions, hbytes, .inr ⟨_, hlt, hrest⟩⟩
          · exact .inr ⟨_, _, hinstructions, hbytes, hrest⟩
    · rintro (⟨instructions, rest, hinstructions, hbytes, rfl | ⟨count, hcount, hrest⟩⟩ |
        ⟨instructions, rest, hinstructions, hbytes, hrest⟩)
      · rw [List.append_nil] at hbytes
        exact ⟨⟨false, 0⟩, .between hinstructions hbytes⟩
      · exact ⟨_, .within hinstructions hbytes hrest (Nat.le_of_lt hcount)⟩
      · exact ⟨_, .within hinstructions hbytes hrest (Nat.le_refl _)⟩
  · exact takeAll_cancellation (streamCancellation_putInt hid) hp

/-- Nine continuation bytes that all ask for another are accepted, and no instruction goes on
from there. -/
theorem ninth_continuation_accepted :
    ¬∀ bytes, (∃ p, judgeQpack .decoder bytes = .ok p) ↔
      ∃ instructions : List (List UInt8), (∀ i ∈ instructions, StreamCancellation i) ∧
        bytes <+: instructions.flatten := by
  intro h
  have hjudge : judgeQpack .decoder (0x7f :: List.replicate 9 0xff) = .ok ⟨true, 9⟩ := by
    decide +kernel
  obtain ⟨instructions, rest, hinstructions, hbytes, rfl | ⟨count, hcount, hrest⟩⟩ :=
    isPrefix_iff.mp ((h _).mp ⟨_, hjudge⟩)
  · obtain ⟨p, htake, hp⟩ := takeAll_cancellations (p := .default) hinstructions rfl
    rw [hbytes, List.append_nil, judgeQpack, htake] at hjudge
    cases hjudge
    cases hp
  · rw [hbytes, judge_within hinstructions hrest (Nat.le_of_lt hcount)] at hjudge
    cases hjudge
    exact absurd hcount (by decide)

end Volto
