import Volto.H3.Error

/-!
# Huffman Decoding

The Huffman decoder of `h3/huffman.rs` for QPACK string literals. The code is the one of
HPACK, one `(code, bit length)` pair for each byte and one for the end-of-string symbol. It is
canonical: within a length the codes are consecutive and in the order of the symbols, so a
table of where each length starts is enough to decode it bit by bit.
-/

namespace Volto

namespace Huffman

/-- Longest code in the table, in bits. -/
def maxCodeBits : ℕ := 30

/-- The end-of-string symbol. -/
def eos : ℕ := 256

/-- Code and code length in bits for the symbols 0 to 255, then the end of string. -/
def codes : List (ℕ × ℕ) :=
  [(0x1ff8, 13), (0x7fffd8, 23), (0xfffffe2, 28), (0xfffffe3, 28), (0xfffffe4, 28),
  (0xfffffe5, 28), (0xfffffe6, 28), (0xfffffe7, 28), (0xfffffe8, 28), (0xffffea, 24),
  (0x3ffffffc, 30), (0xfffffe9, 28), (0xfffffea, 28), (0x3ffffffd, 30), (0xfffffeb, 28),
  (0xfffffec, 28), (0xfffffed, 28), (0xfffffee, 28), (0xfffffef, 28), (0xffffff0, 28),
  (0xffffff1, 28), (0xffffff2, 28), (0x3ffffffe, 30), (0xffffff3, 28), (0xffffff4, 28),
  (0xffffff5, 28), (0xffffff6, 28), (0xffffff7, 28), (0xffffff8, 28), (0xffffff9, 28),
  (0xffffffa, 28), (0xffffffb, 28), (0x14, 6), (0x3f8, 10), (0x3f9, 10), (0xffa, 12), (0x1ff9, 13),
  (0x15, 6), (0xf8, 8), (0x7fa, 11), (0x3fa, 10), (0x3fb, 10), (0xf9, 8), (0x7fb, 11), (0xfa, 8),
  (0x16, 6), (0x17, 6), (0x18, 6), (0x0, 5), (0x1, 5), (0x2, 5), (0x19, 6), (0x1a, 6), (0x1b, 6),
  (0x1c, 6), (0x1d, 6), (0x1e, 6), (0x1f, 6), (0x5c, 7), (0xfb, 8), (0x7ffc, 15), (0x20, 6),
  (0xffb, 12), (0x3fc, 10), (0x1ffa, 13), (0x21, 6), (0x5d, 7), (0x5e, 7), (0x5f, 7), (0x60, 7),
  (0x61, 7), (0x62, 7), (0x63, 7), (0x64, 7), (0x65, 7), (0x66, 7), (0x67, 7), (0x68, 7),
  (0x69, 7), (0x6a, 7), (0x6b, 7), (0x6c, 7), (0x6d, 7), (0x6e, 7), (0x6f, 7), (0x70, 7),
  (0x71, 7), (0x72, 7), (0xfc, 8), (0x73, 7), (0xfd, 8), (0x1ffb, 13), (0x7fff0, 19), (0x1ffc, 13),
  (0x3ffc, 14), (0x22, 6), (0x7ffd, 15), (0x3, 5), (0x23, 6), (0x4, 5), (0x24, 6), (0x5, 5),
  (0x25, 6), (0x26, 6), (0x27, 6), (0x6, 5), (0x74, 7), (0x75, 7), (0x28, 6), (0x29, 6), (0x2a, 6),
  (0x7, 5), (0x2b, 6), (0x76, 7), (0x2c, 6), (0x8, 5), (0x9, 5), (0x2d, 6), (0x77, 7), (0x78, 7),
  (0x79, 7), (0x7a, 7), (0x7b, 7), (0x7ffe, 15), (0x7fc, 11), (0x3ffd, 14), (0x1ffd, 13),
  (0xffffffc, 28), (0xfffe6, 20), (0x3fffd2, 22), (0xfffe7, 20), (0xfffe8, 20), (0x3fffd3, 22),
  (0x3fffd4, 22), (0x3fffd5, 22), (0x7fffd9, 23), (0x3fffd6, 22), (0x7fffda, 23), (0x7fffdb, 23),
  (0x7fffdc, 23), (0x7fffdd, 23), (0x7fffde, 23), (0xffffeb, 24), (0x7fffdf, 23), (0xffffec, 24),
  (0xffffed, 24), (0x3fffd7, 22), (0x7fffe0, 23), (0xffffee, 24), (0x7fffe1, 23), (0x7fffe2, 23),
  (0x7fffe3, 23), (0x7fffe4, 23), (0x1fffdc, 21), (0x3fffd8, 22), (0x7fffe5, 23), (0x3fffd9, 22),
  (0x7fffe6, 23), (0x7fffe7, 23), (0xffffef, 24), (0x3fffda, 22), (0x1fffdd, 21), (0xfffe9, 20),
  (0x3fffdb, 22), (0x3fffdc, 22), (0x7fffe8, 23), (0x7fffe9, 23), (0x1fffde, 21), (0x7fffea, 23),
  (0x3fffdd, 22), (0x3fffde, 22), (0xfffff0, 24), (0x1fffdf, 21), (0x3fffdf, 22), (0x7fffeb, 23),
  (0x7fffec, 23), (0x1fffe0, 21), (0x1fffe1, 21), (0x3fffe0, 22), (0x1fffe2, 21), (0x7fffed, 23),
  (0x3fffe1, 22), (0x7fffee, 23), (0x7fffef, 23), (0xfffea, 20), (0x3fffe2, 22), (0x3fffe3, 22),
  (0x3fffe4, 22), (0x7ffff0, 23), (0x3fffe5, 22), (0x3fffe6, 22), (0x7ffff1, 23), (0x3ffffe0, 26),
  (0x3ffffe1, 26), (0xfffeb, 20), (0x7fff1, 19), (0x3fffe7, 22), (0x7ffff2, 23), (0x3fffe8, 22),
  (0x1ffffec, 25), (0x3ffffe2, 26), (0x3ffffe3, 26), (0x3ffffe4, 26), (0x7ffffde, 27),
  (0x7ffffdf, 27), (0x3ffffe5, 26), (0xfffff1, 24), (0x1ffffed, 25), (0x7fff2, 19), (0x1fffe3, 21),
  (0x3ffffe6, 26), (0x7ffffe0, 27), (0x7ffffe1, 27), (0x3ffffe7, 26), (0x7ffffe2, 27),
  (0xfffff2, 24), (0x1fffe4, 21), (0x1fffe5, 21), (0x3ffffe8, 26), (0x3ffffe9, 26),
  (0xffffffd, 28), (0x7ffffe3, 27), (0x7ffffe4, 27), (0x7ffffe5, 27), (0xfffec, 20),
  (0xfffff3, 24), (0xfffed, 20), (0x1fffe6, 21), (0x3fffe9, 22), (0x1fffe7, 21), (0x1fffe8, 21),
  (0x7ffff3, 23), (0x3fffea, 22), (0x3fffeb, 22), (0x1ffffee, 25), (0x1ffffef, 25), (0xfffff4, 24),
  (0xfffff5, 24), (0x3ffffea, 26), (0x7ffff4, 23), (0x3ffffeb, 26), (0x7ffffe6, 27),
  (0x3ffffec, 26), (0x3ffffed, 26), (0x7ffffe7, 27), (0x7ffffe8, 27), (0x7ffffe9, 27),
  (0x7ffffea, 27), (0x7ffffeb, 27), (0xffffffe, 28), (0x7ffffec, 27), (0x7ffffed, 27),
  (0x7ffffee, 27), (0x7ffffef, 27), (0x7fffff0, 27), (0x3ffffee, 26), (0x3fffffff, 30)]

/-- What a canonical code needs to be decoded bit by bit: how many codes have each length, the
smallest of them, where their run starts, and the symbols run by run. -/
structure Table where
  count : List ℕ
  firstCode : List ℕ
  firstIndex : List ℕ
  symbols : List ℕ
deriving Repr

/-- How many symbols have a code of each length. -/
def buildCount : List ℕ :=
  codes.foldl (fun count (_, bits) => count.modify bits (· + 1))
    (List.replicate (maxCodeBits + 1) 0)

/-- The first code and the first index of each length, walking the lengths upwards. -/
def buildRuns (count : List ℕ) : List ℕ × List ℕ :=
  let start := (0, 0, List.replicate (maxCodeBits + 1) 0, List.replicate (maxCodeBits + 1) 0)
  let (_, _, firstCode, firstIndex) :=
    (List.range' 1 maxCodeBits).foldl
      (fun (code, index, firstCode, firstIndex) bits =>
        let code := (code + count[bits - 1]?.getD 0) <<< 1
        (code, index + count[bits]?.getD 0, firstCode.set bits code, firstIndex.set bits index))
      start
  (firstCode, firstIndex)

/-- The symbols, each put into the next slot of its length's run. -/
def buildSymbols (firstIndex : List ℕ) : List ℕ :=
  let (_, symbols) :=
    codes.zipIdx.foldl
      (fun (next, symbols) ((_, bits), symbol) =>
        (next.modify bits (· + 1), symbols.set (next[bits]?.getD 0) symbol))
      (firstIndex, List.replicate codes.length 0)
  symbols

/-- The table for `codes`. -/
def table : Table :=
  let count := buildCount
  let (firstCode, firstIndex) := buildRuns count
  ⟨count, firstCode, firstIndex, buildSymbols firstIndex⟩

/-- The one error of this module: a stream error. -/
def failed (detail : String) : Violation :=
  Violation.stream Code.qpackDecompressionFailed detail

/-- The bytes decoded so far, and the bits seen since the last whole symbol. -/
structure State where
  out : List UInt8
  code : ℕ
  bits : ℕ
deriving DecidableEq, Repr

/-- Takes one bit. -/
def step (t : Table) (s : State) (bit : ℕ) : Except Violation State :=
  let code := s.code <<< 1 ||| bit
  let bits := s.bits + 1
  if maxCodeBits < bits then
    .error (failed "no Huffman code matches these bits")
  else
    let first := t.firstCode[bits]?.getD 0
    if first ≤ code ∧ code - first < t.count[bits]?.getD 0 then
      let symbol := t.symbols[t.firstIndex[bits]?.getD 0 + (code - first)]?.getD 0
      if symbol = eos then
        .error (failed "the EOS symbol appeared in a string literal")
      else
        .ok ⟨s.out ++ [UInt8.ofNat symbol], 0, 0⟩
    else
      .ok ⟨s.out, code, bits⟩

/-- The bits of a byte, most significant first. -/
def bitsOf (byte : UInt8) : List ℕ :=
  [7, 6, 5, 4, 3, 2, 1, 0].map fun shift => byte.toNat >>> shift &&& 1

/-- Decodes a Huffman-encoded string literal. -/
def decode (encoded : List UInt8) : Except Violation (List UInt8) := do
  let s ← (encoded.flatMap bitsOf).foldlM (step table) ⟨[], 0, 0⟩
  if 8 ≤ s.bits then
    .error (failed "Huffman padding is longer than seven bits")
  else if s.code ≠ 1 <<< s.bits - 1 then
    .error (failed "Huffman padding is not all ones")
  else
    .ok s.out

-- the code of `no-cache`
example : (decode [0xa8, 0xeb, 0x10, 0x64, 0x9c, 0xbf]).toOption =
    some [0x6e, 0x6f, 0x2d, 0x63, 0x61, 0x63, 0x68, 0x65] := by
  decide +kernel

end Huffman

end Volto
