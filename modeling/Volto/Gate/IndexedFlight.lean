import Volto.Gate.IndexedStream

/-!
# The Arithmetic of the First Flight

`first_flight` of `gate.rs` and the `Reader` it takes its ClientHello apart with, as in
`IndexedStream`: the loops over extensions and over names have a number of passes, and every pass
reads at least a byte.

## Main results

* `firstFlight_eq`: the first flight is read without a fault.
* `gate_arithmetic_in_range`: where the header lies, and that nothing is out of range after it.
-/

namespace Volto

namespace Gate

namespace Indexed

open Checked

/-! ### The first flight -/

/-- `Reader::take`, which leaves the reader as it is when it refuses. -/
def take (count : ℕ) (bytes : List UInt8) : Except Stop (List UInt8 × List UInt8) :=
  refuse (if count ≤ bytes.length then some (bytes.take count, bytes.drop count) else none)

/-- `Reader::byte`. -/
def byte (bytes : List UInt8) : Except Stop (ℕ × List UInt8) := do
  let (head, bytes) ← take 1 bytes
  let first ← index head 0
  .ok (first.toNat, bytes)

/-- `Reader::u16`. -/
def u16 (bytes : List UInt8) : Except Stop (ℕ × List UInt8) := do
  let (head, bytes) ← take 2 bytes
  let first ← index head 0
  let second ← index head 1
  .ok (first.toNat * 256 + second.toNat, bytes)

/-- `Reader::u24`. -/
def u24 (bytes : List UInt8) : Except Stop (ℕ × List UInt8) := do
  let (head, bytes) ← take 3 bytes
  let first ← index head 0
  let second ← index head 1
  let third ← index head 2
  .ok ((first.toNat <<< 16) ||| (second.toNat <<< 8) ||| third.toNat, bytes)

/-- `Reader::vector8` and `Reader::vector16`, by how the length is read. -/
def vectorOf (number : List UInt8 → Except Stop (ℕ × List UInt8)) (bytes : List UInt8) :
    Except Stop (List UInt8 × List UInt8) := do
  let (length, bytes) ← number bytes
  take length bytes

/-- A vector behind a length of one byte. -/
def vector8 : List UInt8 → Except Stop (List UInt8 × List UInt8) :=
  vectorOf byte

/-- A vector behind a length of two bytes. -/
def vector16 : List UInt8 → Except Stop (List UInt8 × List UInt8) :=
  vectorOf u16

/-- The loop of `host_name`. -/
def findHostName : (passes : ℕ) → List UInt8 → Except Stop (List UInt8)
  | 0, list => if list.isEmpty then .error .refused else .error (.fault .endless)
  | passes + 1, list =>
      if list.isEmpty then .error .refused
      else do
        let (kind, list) ← byte list
        let (name, list) ← vector16 list
        if kind = hostNameType then .ok name else findHostName passes list

/-- `host_name`. -/
def hostName (extension : List UInt8) : Except Stop (List UInt8) := do
  let (list, _) ← vector16 extension
  findHostName list.length list

/-- The loop of `server_name`. -/
def findServerName : (passes : ℕ) → List UInt8 → Except Stop (List UInt8)
  | 0, extensions => if extensions.isEmpty then .error .refused else .error (.fault .endless)
  | passes + 1, extensions =>
      if extensions.isEmpty then .error .refused
      else do
        let (kind, extensions) ← u16 extensions
        let (data, extensions) ← vector16 extensions
        if kind = serverNameExtension then hostName data else findServerName passes extensions

/-- `server_name`. -/
def serverName (body : List UInt8) : Except Stop (List UInt8) := do
  let (_, body) ← take 2 body
  let (_, body) ← take 32 body
  let (_, body) ← vector8 body
  let (_, body) ← vector16 body
  let (_, body) ← vector8 body
  let (extensions, _) ← vector16 body
  findServerName extensions.length extensions

/-- `let Some(a) = x else { return b }`, which a fault passes through. -/
def orReturn {α β : Type} (x : Except Stop α) (b : β) (f : α → Except Stop β) : Except Stop β :=
  match x with
  | .ok a => f a
  | .error .refused => .ok b
  | .error (.fault fault) => .error (.fault fault)

/-- `first_flight`. -/
def firstFlight (crypto : List UInt8) : Except Stop FirstFlight :=
  orReturn (byte crypto) .truncated fun (kind, crypto) =>
    if kind ≠ clientHello.toNat then .ok .notAClientHello
    else
      orReturn (u24 crypto) .truncated fun (length, crypto) =>
        orReturn (take length crypto) .truncated fun (body, _) =>
          orReturn (serverName body) .anonymous fun name => .ok (.named name)

/-! ### The first flight, without a fault -/

section

variable {bytes : List UInt8}

/-- Bytes are taken off alike, a short input being refused. -/
theorem take_eq (count : ℕ) (bytes : List UInt8) :
    take count bytes = refuse (Gate.take count bytes) := by
  rw [take, Gate.take]
  by_cases h : count ≤ bytes.length
  · rw [if_pos h, if_neg (Nat.not_lt.mpr h)]
  · rw [if_neg h, if_pos (Nat.lt_of_not_le h)]

/-- A byte is read alike. -/
theorem byte_eq (bytes : List UInt8) : byte bytes = refuse (takeNumber 1 bytes) := by
  rw [byte, take_eq, takeNumber]
  refine refuse_bind ?_
  rintro ⟨head, rest⟩ htake
  obtain ⟨-, hlength⟩ := take_eq_some htake
  obtain ⟨first, rfl⟩ := List.length_eq_one_iff.mp hlength
  simp [index]

/-- Two bytes are read alike. -/
theorem u16_eq (bytes : List UInt8) : u16 bytes = refuse (takeNumber 2 bytes) := by
  rw [u16, take_eq, takeNumber]
  refine refuse_bind ?_
  rintro ⟨head, rest⟩ htake
  obtain ⟨-, hlength⟩ := take_eq_some htake
  obtain ⟨first, second, rfl⟩ := List.length_eq_two.mp hlength
  simp [index]

/-- Three bytes are read alike. -/
theorem u24_eq (bytes : List UInt8) : u24 bytes = refuse (takeNumber 3 bytes) := by
  rw [u24, take_eq, takeNumber]
  refine refuse_bind ?_
  rintro ⟨head, rest⟩ htake
  obtain ⟨-, hlength⟩ := take_eq_some htake
  obtain ⟨first, second, third, rfl⟩ := List.length_eq_three.mp hlength
  have hvalue : (first.toNat <<< 16) ||| (second.toNat <<< 8) ||| third.toNat =
      BigEndian.ofBytes 0 [first, second, third] := by
    have hhigh : (first.toNat <<< 16) ||| (second.toNat <<< 8) =
        ((first.toNat <<< 8) ||| second.toNat) <<< 8 := by
      rw [Nat.shiftLeft_or_distrib, ← Nat.shiftLeft_add]
    rw [hhigh, BigEndian.shift_or_eq, BigEndian.shift_or_eq]
    simp
  simp [index, hvalue]

/-- A vector behind one byte is read alike. -/
theorem vector8_eq (bytes : List UInt8) : vector8 bytes = refuse (takeVector 1 bytes) := by
  rw [vector8, vectorOf, byte_eq, takeVector]
  exact refuse_bind fun _ _ => take_eq _ _

/-- A vector behind two bytes is read alike. -/
theorem vector16_eq (bytes : List UInt8) : vector16 bytes = refuse (takeVector 2 bytes) := by
  rw [vector16, vectorOf, u16_eq, takeVector]
  exact refuse_bind fun _ _ => take_eq _ _

/-- The first byte is there. -/
theorem byte_cons (first : UInt8) (tail : List UInt8) :
    byte (first :: tail) = .ok (first.toNat, tail) := by
  simp [byte, take, index]

/-- No host name is found in a list that is cut short. -/
theorem findHostName_cons_of_none {first : UInt8} {tail : List UInt8}
    (h : takeVector 2 tail = none) : Gate.findHostName (first :: tail) = none := by
  rw [Gate.findHostName]
  split <;> rename_i hname
  · rfl
  · rw [h] at hname
    cases hname

/-- No server name is found in extensions that are cut short. -/
theorem findServerName_of_none {extensions : List UInt8}
    (h : takeNumber 2 extensions = none ∨
      ∃ kind rest, takeNumber 2 extensions = some (kind, rest) ∧ takeVector 2 rest = none) :
    Gate.findServerName extensions = none := by
  rw [Gate.findServerName]
  split_ifs
  · rfl
  · split <;> rename_i hkind
    · rfl
    · split <;> rename_i hdata
      · rfl
      · rw [hkind] at h
        simp [hdata] at h

/-- Enough passes find the host name the plain walk finds. -/
theorem findHostName_eq {passes : ℕ} {list : List UInt8} (h : list.length ≤ passes) :
    findHostName passes list = refuse (Gate.findHostName list) := by
  induction passes generalizing list with
  | zero =>
      obtain rfl : list = [] := List.eq_nil_of_length_eq_zero (by omega)
      rw [findHostName, Gate.findHostName]
      rfl
  | succ passes ih =>
      cases list with
      | nil =>
          rw [findHostName, Gate.findHostName]
          rfl
      | cons first tail =>
          rw [findHostName, if_neg (by simp), byte_cons, Fallible.ok_bind]
          simp only
          rw [vector16_eq]
          cases hname : takeVector 2 tail with
          | none =>
              rw [findHostName_cons_of_none hname, refuse_none, Fallible.error_bind, refuse_none]
          | some r =>
              obtain ⟨name, rest⟩ := r
              have hshort := takeVector_length hname
              rw [List.length_cons] at h
              rw [findHostName_cons hname, refuse_some, Fallible.ok_bind]
              simp only
              split_ifs
              · rfl
              · exact ih (by omega)

/-- The extension gives the same name. -/
theorem hostName_eq (extension : List UInt8) :
    hostName extension = refuse (Gate.hostName extension) := by
  rw [hostName, Gate.hostName, vector16_eq]
  exact refuse_bind fun _ _ => findHostName_eq (Nat.le_refl _)

/-- Enough passes find the server name the plain walk finds. -/
theorem findServerName_eq {passes : ℕ} {extensions : List UInt8}
    (h : extensions.length ≤ passes) :
    findServerName passes extensions = refuse (Gate.findServerName extensions) := by
  induction passes generalizing extensions with
  | zero =>
      obtain rfl : extensions = [] := List.eq_nil_of_length_eq_zero (by omega)
      rw [findServerName, Gate.findServerName]
      rfl
  | succ passes ih =>
      rw [findServerName]
      by_cases hempty : extensions = []
      · subst hempty
        rw [Gate.findServerName]
        rfl
      · rw [if_neg (by simpa using hempty), u16_eq]
        cases hkind : takeNumber 2 extensions with
        | none =>
            rw [findServerName_of_none (.inl hkind), refuse_none, Fallible.error_bind, refuse_none]
        | some r =>
            obtain ⟨kind, rest⟩ := r
            rw [refuse_some, Fallible.ok_bind]
            simp only
            rw [vector16_eq]
            cases hdata : takeVector 2 rest with
            | none =>
                rw [findServerName_of_none (.inr ⟨_, _, hkind, hdata⟩), refuse_none,
                  Fallible.error_bind, refuse_none]
            | some r =>
                obtain ⟨data, rest'⟩ := r
                have hkindLength := takeNumber_length hkind
                have hdataLength := takeVector_length hdata
                rw [findServerName_of_extension hkind hdata, refuse_some, Fallible.ok_bind]
                simp only
                split_ifs
                · exact hostName_eq data
                · exact ih (by omega)

/-- The ClientHello gives the same name. -/
theorem serverName_eq (body : List UInt8) : serverName body = refuse (Gate.serverName body) := by
  rw [serverName, Gate.serverName, take_eq]
  refine refuse_bind fun r₁ _ => ?_
  simp only [take_eq]
  refine refuse_bind fun r₂ _ => ?_
  simp only [vector8_eq]
  refine refuse_bind fun r₃ _ => ?_
  simp only [vector16_eq]
  refine refuse_bind fun r₄ _ => ?_
  refine refuse_bind fun r₅ _ => ?_
  refine refuse_bind fun r₆ _ => ?_
  exact findServerName_eq (Nat.le_refl _)

/-- A value that is there is gone on with. -/
@[simp] theorem orReturn_ok {α β : Type} (a : α) (b : β) (f : α → Except Stop β) :
    orReturn (.ok a) b f = f a := rfl

/-- **The first flight is read without a fault.** -/
theorem firstFlight_eq (crypto : List UInt8) :
    firstFlight crypto = .ok (Gate.firstFlight crypto) := by
  cases crypto with
  | nil => rfl
  | cons kind crypto =>
      rw [firstFlight, byte_cons, orReturn_ok, Gate.firstFlight]
      simp only [ne_eq, UInt8.toNat_inj]
      split_ifs with hkind
      · rw [u24_eq]
        cases takeNumber 3 crypto with
        | none => rfl
        | some r =>
            obtain ⟨length, crypto⟩ := r
            simp only [refuse_some, orReturn_ok, take_eq]
            cases Gate.take length crypto with
            | none => rfl
            | some r =>
                obtain ⟨body, rest⟩ := r
                simp only [refuse_some, orReturn_ok, serverName_eq]
                cases Gate.serverName body <;> rfl
      · rfl

end

/-- **The gate's arithmetic stays in range**, for every datagram and every payload there can be:
a header that is read lies within its datagram, the packet is opened, its frames are walked and
its first flight is read without an index, a slice, a sum or a difference out of range, and every
loop ends within as many passes as there are bytes, and one. -/
theorem gate_arithmetic_in_range (crypto : Crypto) (hcrypto : Sound crypto) (datagram : Slice) :
    parse datagram.bytes = refuse (InitialHeader.parse datagram.bytes) ∧
    (∀ header, InitialHeader.parse datagram.bytes = some header →
      InBounds datagram.bytes header ∧
      decrypt crypto datagram.bytes header =
        refuse (Gate.decrypt crypto datagram.bytes header)) ∧
    (∀ payload : Slice,
      cryptoStreamPrefix payload.bytes = refuse (Gate.cryptoStreamPrefix payload.bytes)) ∧
    ∀ stream : Slice, firstFlight stream.bytes = .ok (Gate.firstFlight stream.bytes) := by
  refine ⟨parse_eq datagram.length_le, fun header hparse => ?_, fun payload => ?_, fun stream => ?_⟩
  · have hbounds := inBounds_of_parse hparse
    exact ⟨hbounds, decrypt_eq hcrypto datagram.length_le hbounds⟩
  · exact cryptoStreamPrefix_eq payload.length_le
  · exact firstFlight_eq stream.bytes

/-- Unmasking keeps the length. -/
theorem length_unmask (mask : List UInt8) (offset : ℕ) (head : List UInt8) :
    (unmask mask offset head).length = head.length := by
  have hfold : ∀ (indices : List ℕ) (bytes : List UInt8),
      (indices.foldl (fun bytes i => bytes.modify (offset + i) (· ^^^ (mask[i + 1]?.getD 0)))
        bytes).length = bytes.length := by
    intro indices
    induction indices with
    | nil => exact fun _ => rfl
    | cons i indices ih =>
        intro bytes
        rw [List.foldl_cons, ih, List.length_modify]
  rw [unmask, hfold, List.length_set]

/-- The cipher of the probe keeps lengths as it should. -/
theorem probeCrypto_sound : Sound (probeCrypto paddingEnd (probeFrame ++ [0x00])) where
  header version id keys hkeys offset head := by
    rw [probeCrypto] at hkeys
    simp only at hkeys
    split_ifs at hkeys
    cases hkeys
    exact length_unmask _ offset head
  packet version id keys hkeys number head payload frames hframes := by
    rw [probeCrypto] at hkeys
    simp only at hkeys
    split_ifs at hkeys
    cases hkeys
    simp only at hframes
    split_ifs at hframes with hsealed
    cases hframes
    rw [hsealed.2.2]
    decide +kernel

/-- The probe that ends in padding is opened in range. -/
theorem gate_arithmetic_in_range_padding :
    InBounds (probeDatagram paddingEnd) ⟨6, 14, 18, 101⟩ ∧
      decrypt (probeCrypto paddingEnd (probeFrame ++ [0x00])) (probeDatagram paddingEnd)
        ⟨6, 14, 18, 101⟩ = .ok (probeFrame ++ [0x00]) := by
  have hlength : (probeDatagram paddingEnd).length ≤ isizeMax := by decide +kernel
  have hparse : InitialHeader.parse (probeDatagram paddingEnd) = some ⟨6, 14, 18, 101⟩ := by
    decide +kernel
  obtain ⟨-, hopen, -, -⟩ :=
    gate_arithmetic_in_range _ probeCrypto_sound ⟨probeDatagram paddingEnd, hlength⟩
  obtain ⟨hbounds, hdecrypt⟩ := hopen ⟨6, 14, 18, 101⟩ hparse
  have hplain : Gate.decrypt (probeCrypto paddingEnd (probeFrame ++ [0x00]))
      (probeDatagram paddingEnd) ⟨6, 14, 18, 101⟩ = some (probeFrame ++ [0x00]) := by
    decide +kernel
  refine ⟨hbounds, ?_⟩
  rw [hdecrypt]
  exact congrArg refuse hplain

end Indexed

end Gate

end Volto
