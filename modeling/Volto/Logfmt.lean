import Volto.Text

/-!
# Log Fields and Sampled Warnings

What `logfmt.rs` lets a peer write into the log. A token of the peer's is cut at 32 bytes and
made text before a line carries it. A warning that a peer can repeat at will is allowed to be loud
at occurrences 1, 2, 4, 8 and so on, each reported with the running total.
-/

namespace Volto

/-! ### Tokens -/

/-- Longest peer-chosen token echoed into a log line whole. -/
def maxToken : ℕ := 32

/-- How a token that had to be cut is spelled: its head, and its real length. -/
def truncated (head : String) (whole : ℕ) : String :=
  head ++ "... <truncated from " ++ toString whole ++ " bytes>"

/-- Caps a token that is not known to be UTF-8 at what a log line can afford to carry. -/
def boundedBytes (token : List UInt8) : String :=
  if token.length ≤ maxToken then fromUtf8Lossy token
  else truncated (fromUtf8Lossy (token.take maxToken)) token.length

/-! ### Warnings -/

/-- Counts the occurrences of a warning, in a `u64` that wraps. -/
structure Sampler where
  total : UInt64
deriving DecidableEq, Repr

namespace Sampler

/-- A sampler that has seen nothing yet. -/
def new : Sampler := ⟨0⟩

/-- Whether exactly one bit is set. -/
def isPowerOfTwo (n : UInt64) : Bool :=
  n ≠ 0 && n &&& (n - 1) = 0

/-- Records an occurrence, and returns the total when this one is to be reported. -/
def record (s : Sampler) : Option UInt64 × Sampler :=
  let total := s.total + 1
  (if isPowerOfTwo total then some total else none, ⟨total⟩)

end Sampler

end Volto
