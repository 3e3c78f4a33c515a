import Mathlib.Algebra.BigOperators.Group.Finset.Sigma
import Volto.Bytes
import Volto.H3.Huffman
import Volto.Lib.CanonicalCode
import Volto.Lib.Fallible

/-!
# The Code the Huffman Decoder Reads

The decoder of `h3/huffman.rs` never looks at the codes of the symbols: it knows how many codes
each length has, and takes for granted that they are consecutive. Here the table is shown to be a
complete canonical code, and its words to be the codes, so that what is decoded is what was
encoded: the codes of the bytes one after the other, and ones up to the end of the last byte.

## Main results

* `decode_eq_ok_iff`: a string decodes to a text exactly when it is the encoding of the text.
* `inRange_pending`: no lookup is outside of its table, and no code is longer than the longest.
* `huffman_inverts`: the two together, and what is refused.
-/

namespace Volto

namespace Huffman

open CanonicalCode hiding Code

/-! ### Encoding -/

/-- The code of a symbol, bit by bit. -/
def codeBits (symbol : ℕ) : List ℕ :=
  match codes[symbol]? with
  | some (code, bits) => toBits bits code
  | none => []

/-- The codes of a text, one after the other. -/
def textBits (text : List UInt8) : List ℕ :=
  text.flatMap fun byte => codeBits byte.toNat

/-- The bits that are missing to a whole byte. -/
def padding (length : ℕ) : ℕ :=
  (8 - length % 8) % 8

/-- The Huffman encoding of a text, padded with ones. -/
def encode (text : List UInt8) : List UInt8 :=
  pack (textBits text ++ ones (padding (textBits text).length))

/-! ### The table is a canonical code -/

/-- Where a length's codes start in the table. -/
def first (n : ℕ) : ℕ := table.firstCode[n]?.getD 0

/-- The number of codes of length `n`. -/
def count (n : ℕ) : ℕ := table.count[n]?.getD 0

/-- The place of the first symbol with a code of length `n`. -/
def firstIndex (n : ℕ) : ℕ := table.firstIndex[n]?.getD 0

/-- **The table is a complete canonical code.** -/
def canonical : CanonicalCode.Code where
  maxBits := maxCodeBits
  first := first
  count := count
  first_zero := by decide +kernel
  count_zero := by decide +kernel
  first_succ := by decide +kernel
  complete := by decide +kernel
  last := by decide +kernel

/-- The canonical code starts each length where the table does. -/
@[simp] theorem canonical_first (n : ℕ) : canonical.first n = first n := by
  rw [canonical]

/-- The canonical code has as many codes of each length as the table. -/
@[simp] theorem canonical_count (n : ℕ) : canonical.count n = count n := by
  rw [canonical]

/-- The codes of length `n` end where the table's do. -/
theorem canonical_limit (n : ℕ) : canonical.limit n = first n + count n := by
  rw [CanonicalCode.Code.limit, canonical_first, canonical_count]

/-- The symbol of the table at an offset into a length's run. -/
def symbolAt (n offset : ℕ) : ℕ := table.symbols[firstIndex n + offset]?.getD 0

/-- Every symbol is in the table at the offset of its code. -/
theorem codes_zipIdx :
    ∀ p ∈ codes.zipIdx, p.1.2 ≤ maxCodeBits ∧ first p.1.2 ≤ p.1.1 ∧
      p.1.1 - first p.1.2 < count p.1.2 ∧ symbolAt p.1.2 (p.1.1 - first p.1.2) = p.2 := by
  decide +kernel

/-- Every code stands in the range of its length, at the place of its symbol. -/
theorem symbolAt_codes {symbol code n : ℕ} (h : codes[symbol]? = some (code, n)) :
    n ≤ maxCodeBits ∧ first n ≤ code ∧ code - first n < count n ∧
      symbolAt n (code - first n) = symbol :=
  codes_zipIdx ((code, n), symbol) (List.mem_zipIdx_iff_getElem?.mpr h)

/-- The offsets into the runs of all lengths. -/
def slots : Finset (Σ _ : ℕ, ℕ) :=
  (Finset.range (maxCodeBits + 1)).sigma fun n => Finset.range (count n)

/-- There are as many of them as symbols. -/
theorem card_slots : slots.card = codes.length := by
  rw [slots, Finset.card_sigma]
  simp only [Finset.card_range]
  decide +kernel

/-- The offset of a symbol's code. -/
def slotOf (symbol : ℕ) : Σ _ : ℕ, ℕ :=
  let (code, n) := codes[symbol]?.getD (0, 0)
  ⟨n, code - first n⟩

/-- The slot of a symbol is the length of its code and its place within that length. -/
theorem slotOf_eq {symbol code n : ℕ} (h : codes[symbol]? = some (code, n)) :
    slotOf symbol = ⟨n, code - first n⟩ := by
  rw [slotOf, h]
  rfl

/-- **Every offset into a run is that of a symbol's code**: the symbols are told apart by their
offsets, and there are no more offsets than symbols. -/
theorem exists_codes {n offset : ℕ} (hn : n ≤ maxCodeBits) (hoffset : offset < count n) :
    ∃ symbol : ℕ, codes[symbol]? = some (first n + offset, n) := by
  have hcode : ∀ symbol : ℕ, symbol ∈ Finset.range codes.length →
      ∃ code n, codes[symbol]? = some (code, n) := by
    intro symbol hsymbol
    have hlt := Finset.mem_range.mp hsymbol
    exact ⟨codes[symbol].1, codes[symbol].2, List.getElem?_eq_getElem hlt⟩
  have hmaps : Set.MapsTo slotOf (Finset.range codes.length) slots := by
    intro symbol hsymbol
    obtain ⟨code, n, h⟩ := hcode symbol hsymbol
    obtain ⟨hn, -, hoffset, -⟩ := symbolAt_codes h
    rw [slotOf_eq h]
    exact Finset.mem_sigma.mpr ⟨Finset.mem_range.mpr (Nat.lt_succ_of_le hn),
      Finset.mem_range.mpr hoffset⟩
  have hinj : Set.InjOn slotOf (Finset.range codes.length) := by
    intro symbol hsymbol symbol' hsymbol' heq
    obtain ⟨code, n, h⟩ := hcode symbol hsymbol
    obtain ⟨code', n', h'⟩ := hcode symbol' hsymbol'
    have hslot := (slotOf_eq h).symm.trans (heq.trans (slotOf_eq h'))
    obtain ⟨rfl, hoffset⟩ : n = n' ∧ code - first n = code' - first n' := by
      injection hslot with hlength hvalue
      exact ⟨hlength, hvalue⟩
    have hsymbol := (symbolAt_codes h).2.2.2
    rwa [hoffset, (symbolAt_codes h').2.2.2, eq_comm] at hsymbol
  have hsurj := Finset.surjOn_of_injOn_of_card_le slotOf hmaps hinj
    (by rw [card_slots, Finset.card_range])
  have hmem : (⟨n, offset⟩ : Σ _ : ℕ, ℕ) ∈ slots :=
    Finset.mem_sigma.mpr ⟨Finset.mem_range.mpr (Nat.lt_succ_of_le hn), Finset.mem_range.mpr hoffset⟩
  obtain ⟨symbol, hsymbol, hslot⟩ := hsurj hmem
  obtain ⟨code, n', h⟩ := hcode symbol hsymbol
  rw [slotOf_eq h] at hslot
  obtain ⟨rfl, rfl⟩ : n' = n ∧ code - first n' = offset := by
    injection hslot with hlength hvalue
    exact ⟨hlength, hvalue⟩
  refine ⟨symbol, ?_⟩
  rw [h, Nat.add_sub_cancel' (symbolAt_codes h).2.1]

/-- The symbol whose code a word is. -/
def symbolOf (word : List ℕ) : ℕ :=
  symbolAt word.length (value word - first word.length)

/-- The bits of a symbol are its code, in its length. -/
theorem codeBits_eq {symbol code n : ℕ} (h : codes[symbol]? = some (code, n)) :
    codeBits symbol = toBits n code := by
  rw [codeBits, h]

/-- **The code of every symbol is a word**, and tells the symbol. -/
theorem word_codeBits {symbol : ℕ} (hsymbol : symbol < codes.length) :
    canonical.Word (codeBits symbol) ∧ symbolOf (codeBits symbol) = symbol := by
  obtain ⟨⟨code, n⟩, h⟩ : ∃ entry, codes[symbol]? = some entry :=
    ⟨codes[symbol], List.getElem?_eq_getElem hsymbol⟩
  obtain ⟨hn, hfirst, hcount, hat⟩ := symbolAt_codes h
  have hlimit : code < canonical.limit n := by
    rw [canonical_limit]
    omega
  have hvalue : value (toBits n code) = code :=
    value_toBits (hlimit.trans_le (canonical.limit_le hn))
  rw [codeBits_eq h]
  constructor
  · refine ⟨bits_toBits n code, ?_, ?_, ?_⟩ <;> rw [length_toBits]
    · exact hn
    · rw [hvalue]
      exact hfirst
    · rwa [hvalue]
  · rw [symbolOf, length_toBits, hvalue, hat]

/-- **Every word is the code of its symbol.** -/
theorem codeBits_symbolOf {word : List ℕ} (h : canonical.Word word) :
    symbolOf word < codes.length ∧ codeBits (symbolOf word) = word := by
  have hfirst : first word.length ≤ value word := h.first_le
  have hlimit := h.lt_limit
  rw [canonical_limit] at hlimit
  obtain ⟨symbol, hcode⟩ := exists_codes h.length_le
    (show value word - first word.length < count word.length by omega)
  have hat := (symbolAt_codes hcode).2.2.2
  rw [Nat.add_sub_cancel_left] at hat
  rw [Nat.add_sub_cancel' hfirst] at hcode
  have hsymbol : symbolOf word = symbol := hat
  have hvalue : value (toBits word.length (value word)) = value word :=
    value_toBits (value_lt h.bits)
  rw [hsymbol, codeBits_eq hcode]
  exact ⟨(List.getElem?_eq_some_iff.mp hcode).1,
    eq_of_value_eq (bits_toBits _ _) h.bits (length_toBits _ _) hvalue⟩

/-! ### Reading bit by bit -/

/-- The state with an open string behind the last whole symbol. -/
def pending (out : List UInt8) (rest : List ℕ) : State :=
  ⟨out, value rest, rest.length⟩

/-- The state before the first bit. -/
def start : State := ⟨[], 0, 0⟩

/-- The next lookup, where the decoder has seen `rest` since the last whole symbol. -/
theorem step_pending (out : List UInt8) {rest : List ℕ} {bit : ℕ} (h : canonical.Open rest)
    (hbit : bit < 2) :
    step table (pending out rest) bit =
      if value (rest ++ [bit]) < canonical.limit (rest ++ [bit]).length then
        if symbolOf (rest ++ [bit]) = eos then
          .error (failed "the EOS symbol appeared in a string literal")
        else .ok (pending (out ++ [UInt8.ofNat (symbolOf (rest ++ [bit]))]) [])
      else .ok (pending out (rest ++ [bit])) := by
  have hcode : value rest <<< 1 ||| bit = value (rest ++ [bit]) := by
    rw [← Nat.shiftLeft_add_eq_or_of_lt hbit, Nat.shiftLeft_eq, value_concat]
    ring
  have hlength : rest.length + 1 = (rest ++ [bit]).length := by
    rw [List.length_append, List.length_singleton]
  have hmax : ¬ maxCodeBits < (rest ++ [bit]).length := by
    have hlt : rest.length < maxCodeBits := h.length_lt
    omega
  have hfirst : first (rest ++ [bit]).length ≤ value (rest ++ [bit]) := h.first_le
  have hiff : (first (rest ++ [bit]).length ≤ value (rest ++ [bit]) ∧
      value (rest ++ [bit]) - first (rest ++ [bit]).length < count (rest ++ [bit]).length) ↔
      value (rest ++ [bit]) < canonical.limit (rest ++ [bit]).length := by
    rw [canonical_limit]
    omega
  rw [step, pending]
  simp only [hcode, hlength, if_neg hmax]
  exact if_congr hiff rfl rfl

variable (out : List UInt8) {rest word : List ℕ} {bit : ℕ}

/-- The bits of an open string are collected. -/
theorem run_open (h : canonical.Open rest) (bits : List ℕ) :
    (rest ++ bits).foldlM (step table) (pending out []) =
      bits.foldlM (step table) (pending out rest) := by
  induction rest using List.reverseRecOn generalizing bits with
  | nil => rfl
  | append_singleton rest bit ih =>
      have hbit := (bits_concat.mp h.bits).2
      rw [List.append_assoc, ih h.dropLast, List.singleton_append, List.foldlM_cons,
        step_pending out h.dropLast hbit, if_neg (Nat.not_lt.mpr h.limit_le)]
      rfl

/-- **A word is read as its symbol**, and the end of the string is refused. -/
theorem run_word (h : canonical.Word word) (bits : List ℕ) :
    (word ++ bits).foldlM (step table) (pending out []) =
      if symbolOf word = eos then .error (failed "the EOS symbol appeared in a string literal")
      else bits.foldlM (step table) (pending (out ++ [UInt8.ofNat (symbolOf word)]) []) := by
  obtain rfl | ⟨rest, bit, rfl⟩ := word.eq_nil_or_concat'
  · exact absurd rfl h.ne_nil
  have hbit := (bits_concat.mp h.bits).2
  rw [List.append_assoc, run_open out h.open_dropLast, List.singleton_append, List.foldlM_cons,
    step_pending out h.open_dropLast hbit, if_pos h.lt_limit]
  split_ifs <;> rfl

/-- **The codes of a text are read as the text.** -/
theorem run_text (text : List UInt8) (bits : List ℕ) :
    (textBits text ++ bits).foldlM (step table) (pending out []) =
      bits.foldlM (step table) (pending (out ++ text) []) := by
  induction text generalizing out with
  | nil => rw [List.append_nil]; rfl
  | cons byte text ih =>
      have hlt : byte.toNat < 256 := byte.toNat_lt
      have hlength : codes.length = 257 := by decide +kernel
      obtain ⟨hword, hsymbol⟩ := word_codeBits (show byte.toNat < codes.length by omega)
      have heos : symbolOf (codeBits byte.toNat) ≠ eos := by
        rw [hsymbol, eos]
        omega
      rw [textBits, List.flatMap_cons, List.append_assoc, run_word out hword, if_neg heos, hsymbol,
        UInt8.ofNat_toNat, ← textBits, ih, List.append_assoc, List.singleton_append]

/-! ### Decoding -/

/-- The bits of a byte are its value in eight bits. -/
theorem bitsOf_eq (byte : UInt8) : bitsOf byte = toBits 8 byte.toNat := by
  have hall : ∀ byte : UInt8, bitsOf byte = toBits 8 byte.toNat := by
    exact forall_byte (by decide +kernel)
  exact hall byte

/-- The bits of an encoding are its bytes unpacked. -/
theorem flatMap_bitsOf (encoded : List UInt8) : encoded.flatMap bitsOf = unpack encoded := by
  rw [unpack]
  exact List.flatMap_congr fun byte _ => bitsOf_eq byte

/-- What the end of the bits decides, where a text and an open string were read. -/
theorem decode_pending {encoded text : List UInt8} (hbits : unpack encoded = textBits text ++ rest)
    (hopen : canonical.Open rest) :
    decode encoded =
      if 8 ≤ rest.length then .error (failed "Huffman padding is longer than seven bits")
      else if rest ≠ ones rest.length then .error (failed "Huffman padding is not all ones")
      else .ok text := by
  have hrun : (encoded.flatMap bitsOf).foldlM (step table) start = .ok (pending text rest) := by
    have hrest := run_open text hopen []
    rw [List.append_nil, List.foldlM_nil] at hrest
    rw [flatMap_bitsOf, hbits]
    exact (run_text [] text rest).trans hrest
  have hones : value rest ≠ 1 <<< rest.length - 1 ↔ rest ≠ ones rest.length := by
    rw [Nat.one_shiftLeft]
    exact not_congr (eq_ones_iff hopen.bits).symm
  rw [start] at hrun
  rw [decode, hrun]
  exact if_congr Iff.rfl rfl (if_congr hones rfl rfl)

/-- The end of the string is refused, wherever it is. -/
theorem decode_eos {encoded text : List UInt8}
    (hbits : unpack encoded = textBits text ++ (codeBits eos ++ rest)) :
    decode encoded = .error (failed "the EOS symbol appeared in a string literal") := by
  obtain ⟨hword, hsymbol⟩ := word_codeBits (show eos < codes.length by decide +kernel)
  have hrun : (encoded.flatMap bitsOf).foldlM (step table) start =
      .error (failed "the EOS symbol appeared in a string literal") := by
    have heos := run_word text hword rest
    rw [if_pos hsymbol] at heos
    rw [flatMap_bitsOf, hbits]
    exact (run_text [] text _).trans heos
  rw [start] at hrun
  rw [decode, hrun]
  rfl

/-- **Every string is the codes of a text**, and then an open string or the end of the string. -/
theorem exists_text (encoded : List UInt8) :
    ∃ text rest, unpack encoded = textBits text ++ rest ∧
      (canonical.Open rest ∨ ∃ rest', rest = codeBits eos ++ rest') := by
  obtain ⟨words, rest, hbits, hwords, hopen⟩ := canonical.exists_words (bits_unpack encoded)
  rw [hbits]
  clear hbits
  induction words with
  | nil => exact ⟨[], rest, rfl, .inl hopen⟩
  | cons word words ih =>
      obtain ⟨hword, hwords⟩ := List.forall_mem_cons.mp hwords
      obtain ⟨hsymbol, hcode⟩ := codeBits_symbolOf hword
      rw [List.flatten_cons, List.append_assoc]
      by_cases heos : symbolOf word = eos
      · rw [heos] at hcode
        exact ⟨[], word ++ (words.flatten ++ rest), rfl, .inr ⟨_, by rw [hcode]⟩⟩
      obtain ⟨text, rest', htext, hrest⟩ := ih hwords
      have hlength : codes.length = 257 := by decide +kernel
      have hlt : symbolOf word < 256 := by
        rw [eos] at heos
        omega
      have hbyte : (UInt8.ofNat (symbolOf word)).toNat = symbolOf word := by
        rw [UInt8.toNat_ofNat', Nat.mod_eq_of_lt hlt]
      refine ⟨UInt8.ofNat (symbolOf word) :: text, rest', ?_, hrest⟩
      rw [textBits, List.flatMap_cons, hbyte, hcode, List.append_assoc, ← textBits, htext]

/-- A text is encoded in bits. -/
theorem bits_textBits (text : List UInt8) : Bits (textBits text) := by
  intro bit hbit
  obtain ⟨byte, -, hmem⟩ := List.mem_flatMap.mp hbit
  have hlt : byte.toNat < 256 := byte.toNat_lt
  have hlength : codes.length = 257 := by decide +kernel
  exact (word_codeBits (show byte.toNat < codes.length by omega)).1.bits bit hmem

/-- The encoding of a text has the codes of the text, and less than a byte of ones. -/
theorem unpack_encode (text : List UInt8) :
    unpack (encode text) = textBits text ++ ones (padding (textBits text).length) := by
  refine unpack_pack (bits_append.mpr ⟨bits_textBits text, bits_ones _⟩) ?_
  rw [List.length_append, ones, List.length_replicate, padding]
  omega

/-- **A string decodes to a text exactly when it is the encoding of the text.** -/
theorem decode_eq_ok_iff {encoded text : List UInt8} :
    decode encoded = .ok text ↔ encoded = encode text := by
  constructor
  · intro h
    obtain ⟨text', rest, hbits, hopen | ⟨rest', rfl⟩⟩ := exists_text encoded
    · rw [decode_pending hbits hopen] at h
      split_ifs at h with hlong hones
      obtain rfl : text' = text := Except.ok.inj h
      have hlength := congrArg List.length hbits
      rw [length_unpack, List.length_append] at hlength
      have hpadding : rest.length = padding (textBits text').length := by
        rw [padding]
        omega
      rw [encode, ← hpadding, ← not_not.mp hones, ← hbits, pack_unpack]
    · rw [decode_eos hbits] at h
      cases h
  · rintro rfl
    have hlt : padding (textBits text).length < 8 := by
      rw [padding]
      omega
    have hlength : (ones (padding (textBits text).length)).length =
        padding (textBits text).length := List.length_replicate
    rw [decode_pending (unpack_encode text) (CanonicalCode.Code.open_ones ?_), if_neg, if_neg]
    · rw [hlength]
      exact not_not.mpr rfl
    · rw [hlength]
      omega
    · exact hlt.trans (by decide)

/-- Whatever is wrong with a literal is a stream error. -/
theorem decode_failsIn (encoded : List UInt8) :
    Fallible.FailsIn (fun violation => ∃ detail, violation = failed detail) (decode encoded) := by
  have hstep : ∀ s bit, Fallible.FailsIn (fun violation => ∃ detail, violation = failed detail)
      (step table s bit) := by
    intro s bit
    rw [step]
    dsimp only
    split_ifs
    · exact .error ⟨_, rfl⟩
    · exact .error ⟨_, rfl⟩
    · exact .ok _
    · exact .ok _
  refine .bind (.foldlM hstep _ _) fun s hs => ?_
  split_ifs
  · exact .error ⟨_, rfl⟩
  · exact .error ⟨_, rfl⟩
  · exact .ok _

/-! ### Lookups -/

/-- One entry of the loop that fills the table's symbols: the slots that come next, and the symbols
so far. -/
def fill (filled : List ℕ × List ℕ) (entry : (ℕ × ℕ) × ℕ) : List ℕ × List ℕ :=
  (filled.1.modify entry.1.2 (· + 1), filled.2.set (filled.1[entry.1.2]?.getD 0) entry.2)

/-- That loop, from its start, over the entries so far. -/
def filled (entries : List ((ℕ × ℕ) × ℕ)) : List ℕ × List ℕ :=
  entries.foldl fill (table.firstIndex, List.replicate codes.length 0)

/-- The loop is the one of the table. -/
theorem buildSymbols_eq (firstIndex : List ℕ) :
    buildSymbols firstIndex =
      (codes.zipIdx.foldl fill (firstIndex, List.replicate codes.length 0)).2 := by
  unfold buildSymbols
  generalize (firstIndex, List.replicate codes.length 0) = start
  generalize codes.zipIdx = entries
  induction entries generalizing start with
  | nil => rfl
  | cons entry entries ih => exact ih _

/-- The symbols of the table are sorted by code length. -/
theorem table_symbols : table.symbols = (filled codes.zipIdx).2 := by
  rw [filled, ← buildSymbols_eq]
  unfold table
  generalize buildRuns buildCount = runs
  obtain ⟨firstCode, firstIndex⟩ := runs
  dsimp only

/-- There is one symbol for every code. -/
theorem length_table_symbols : table.symbols.length = codes.length := by
  have hfold : ∀ (entries : List ((ℕ × ℕ) × ℕ)) (start : List ℕ × List ℕ),
      (entries.foldl fill start).2.length = start.2.length := by
    intro entries
    induction entries with
    | nil => exact fun start => rfl
    | cons entry entries ih =>
        intro start
        rw [List.foldl_cons, ih, fill, List.length_set]
  rw [table_symbols, filled, hfold, List.length_replicate]

/-- A counter of each length, bumped once for each entry. -/
theorem getElem?_foldl_fill (entries : List ((ℕ × ℕ) × ℕ)) (start : List ℕ × List ℕ) (n : ℕ) :
    (entries.foldl fill start).1[n]? =
      start.1[n]?.map (· + entries.countP fun entry => entry.1.2 = n) := by
  induction entries generalizing start with
  | nil => simp
  | cons entry entries ih =>
      rw [List.foldl_cons, ih, fill, List.getElem?_modify, List.countP_cons]
      by_cases hn : entry.1.2 = n
      · simp [hn, Nat.add_comm 1]
      · simp [hn]

/-- The runs end where the symbols do. -/
theorem firstIndex_add_count_le :
    ∀ n ≤ maxCodeBits, firstIndex n + count n ≤ codes.length ∧
      table.firstIndex[n]? = some (firstIndex n) ∧
      (codes.zipIdx.countP fun entry => entry.1.2 = n) = count n := by
  decide +kernel

/-- **Every slot that is filled exists.** -/
theorem slot_exists {before after : List ((ℕ × ℕ) × ℕ)} {entry : (ℕ × ℕ) × ℕ}
    (h : codes.zipIdx = before ++ entry :: after) :
    ∃ slot < codes.length, (filled before).1[entry.1.2]? = some slot := by
  have hn := (codes_zipIdx entry (by rw [h]; simp)).1
  obtain ⟨hle, hindex, hcount⟩ := firstIndex_add_count_le entry.1.2 hn
  have hlt : (before.countP fun other => other.1.2 = entry.1.2) < count entry.1.2 := by
    rw [← hcount, h, List.countP_append, List.countP_cons_of_pos (by simp)]
    omega
  refine ⟨firstIndex entry.1.2 + before.countP fun other => other.1.2 = entry.1.2, by omega, ?_⟩
  rw [filled, getElem?_foldl_fill, hindex]
  rfl

/-- The next lookup of the decoder is inside of its tables, and within the longest code. -/
structure InRange (s : State) (bit : ℕ) : Prop where
  bits_le : s.bits + 1 ≤ maxCodeBits
  firstCode : s.bits + 1 < table.firstCode.length
  count : s.bits + 1 < table.count.length
  firstIndex : s.bits + 1 < table.firstIndex.length
  symbols : first (s.bits + 1) ≤ s.code <<< 1 ||| bit →
    (s.code <<< 1 ||| bit) - first (s.bits + 1) < Huffman.count (s.bits + 1) →
      Huffman.firstIndex (s.bits + 1) + ((s.code <<< 1 ||| bit) - first (s.bits + 1)) <
        table.symbols.length

/-- What the decoder has seen since the last whole symbol is an open string. -/
theorem exists_pending {bits : List ℕ} (hbits : Bits bits) (hopen : canonical.Open rest) {s : State}
    (h : bits.foldlM (step table) (pending out rest) = .ok s) :
    ∃ out' rest', canonical.Open rest' ∧ s = pending out' rest' := by
  induction bits generalizing out rest with
  | nil =>
      obtain rfl : pending out rest = s := Except.ok.inj h
      exact ⟨out, rest, hopen, rfl⟩
  | cons bit bits ih =>
      obtain ⟨hbit, hbits⟩ := List.forall_mem_cons.mp hbits
      rw [List.foldlM_cons, step_pending out hopen hbit] at h
      split_ifs at h with hword heos
      · cases h
      · exact ih _ hbits CanonicalCode.Code.open_nil h
      · have hnext := (CanonicalCode.Code.open_concat hopen hbit).resolve_left
          fun hw => hword hw.lt_limit
        exact ih _ hbits hnext h

/-- **No lookup is out of range**, and no open string is as long as the longest code. -/
theorem inRange_pending (hopen : canonical.Open rest) (bit : ℕ) :
    InRange (pending out rest) bit := by
  have hlt : rest.length < maxCodeBits := hopen.length_lt
  have hlengths : maxCodeBits < table.firstCode.length ∧ maxCodeBits < table.count.length ∧
      maxCodeBits < table.firstIndex.length := by decide +kernel
  obtain ⟨hfirst, hcount, hindex⟩ := hlengths
  have hend := (firstIndex_add_count_le (rest.length + 1) hlt).1
  refine ⟨hlt, ?_, ?_, ?_, fun _ hoffset => ?_⟩
  · exact Nat.lt_of_le_of_lt hlt hfirst
  · exact Nat.lt_of_le_of_lt hlt hcount
  · exact Nat.lt_of_le_of_lt hlt hindex
  · rw [length_table_symbols]
    exact (Nat.add_lt_add_left hoffset _).trans_le hend

/-- What the decoder does with every string. -/
structure Inverts : Prop where
  /-- The encoding of a text decodes to the text. -/
  decode_encode : ∀ text, decode (encode text) = .ok text
  /-- Nothing else decodes to it. -/
  encode_of_decode : ∀ encoded text, decode encoded = .ok text → encoded = encode text
  /-- No two strings decode to one text. -/
  injective : ∀ encoded encoded' text,
    decode encoded = .ok text → decode encoded' = .ok text → encoded = encoded'
  /-- The end of the string inside of a literal is refused. -/
  refuses_eos : ∀ (encoded text : List UInt8) (rest : List ℕ),
    encoded.flatMap bitsOf = textBits text ++ (codeBits eos ++ rest) →
      decode encoded = .error (failed "the EOS symbol appeared in a string literal")
  /-- So is padding of eight bits or more. -/
  refuses_long : ∀ (encoded text : List UInt8) (n : ℕ), 8 ≤ n →
    encoded.flatMap bitsOf = textBits text ++ ones n →
      ∃ detail, decode encoded = .error (failed detail)
  /-- So is padding that is not all ones: the start of a symbol that never finished. -/
  refuses_other : ∀ (encoded text : List UInt8) (symbol n : ℕ), symbol < codes.length →
    n < (codeBits symbol).length → (codeBits symbol).take n ≠ ones n →
      encoded.flatMap bitsOf = textBits text ++ (codeBits symbol).take n →
        ∃ detail, decode encoded = .error (failed detail)
  /-- Wherever the decoder is in a string, its next lookup is in range. -/
  in_range : ∀ (encoded : List UInt8) (before after : List ℕ) (bit : ℕ) (s : State),
    encoded.flatMap bitsOf = before ++ bit :: after →
      before.foldlM (step table) ⟨[], 0, 0⟩ = .ok s → InRange s bit
  /-- So is every slot of the loop that builds the table. -/
  table_in_range : ∀ before entry after, codes.zipIdx = before ++ entry :: after →
    ∃ slot < codes.length, (filled before).1[entry.1.2]? = some slot

/-- Padding of eight ones or more is refused, also where the end of the string is in it. -/
theorem decode_ones {encoded text : List UInt8} {n : ℕ} (hn : 8 ≤ n)
    (h : unpack encoded = textBits text ++ ones n) :
    ∃ detail, decode encoded = .error (failed detail) := by
  have hlength : (ones n).length = n := List.length_replicate
  obtain hlt | hge := Nat.lt_or_ge n maxCodeBits
  · refine ⟨_, (decode_pending h (CanonicalCode.Code.open_ones hlt)).trans (if_pos ?_)⟩
    rwa [hlength]
  · have heos : codeBits eos = ones maxCodeBits := by decide +kernel
    have hones : ones n = codeBits eos ++ ones (n - maxCodeBits) := by
      rw [heos, ones, ones, ones, ← List.replicate_add, Nat.add_sub_cancel' hge]
    exact ⟨_, decode_eos (hones ▸ h)⟩

/-- **Decoding inverts the code** and accepts nothing else, and no lookup is out of range. -/
theorem huffman_inverts : Inverts where
  decode_encode text := decode_eq_ok_iff.mpr rfl
  encode_of_decode encoded text := decode_eq_ok_iff.mp
  injective encoded encoded' text h h' := by
    rw [decode_eq_ok_iff.mp h, decode_eq_ok_iff.mp h']
  refuses_eos encoded text rest h := decode_eos (flatMap_bitsOf encoded ▸ h)
  refuses_long encoded text n hn h := decode_ones hn (flatMap_bitsOf encoded ▸ h)
  refuses_other encoded text symbol n hsymbol hn hones h := by
    have hlength : ((codeBits symbol).take n).length = n := List.length_take_of_le hn.le
    rw [decode_pending (flatMap_bitsOf encoded ▸ h) ((word_codeBits hsymbol).1.open_take hn),
      hlength, if_pos hones]
    split_ifs
    · exact ⟨_, rfl⟩
    · exact ⟨_, rfl⟩
  in_range encoded before after bit s hbits h := by
    have hbefore : Bits before := by
      have hall := bits_unpack encoded
      rw [← flatMap_bitsOf, hbits] at hall
      exact (bits_append.mp hall).1
    obtain ⟨out, rest, hopen, rfl⟩ := exists_pending [] hbefore CanonicalCode.Code.open_nil h
    exact inRange_pending out hopen bit
  table_in_range before entry after := slot_exists

end Huffman

end Volto
