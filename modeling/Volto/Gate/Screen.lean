import Volto.Gate.Judge
import Volto.Lib.Chunks

/-!
# Screening a Receive Batch

`Gate::poll_recv` of `gate.rs`: the socket fills buffers, each with a run of datagrams a stride
apart, and the gate judges them one by one and blinds those it refuses. A datagram is blinded by
one byte, the length of its Destination Connection ID, which no parser accepts afterwards.

The model writes down every datagram it hands to `judge`, in order. The flag and the list are read
one after the other and a reload may come in between, so they are two inputs. The log lines and
what they print are left out. The end of a datagram saturates in the source, which the minimum
with the length makes the same.

## Main results

* `screenBuffer_screens`: one buffer is cut into its datagrams, and each is screened by itself.
* `poll_recv_touches_refused`: a batch is changed only where a datagram is refused.
-/

namespace Volto

namespace Gate

/-- A connection ID length no version of QUIC has. -/
def impossibleCidLength : UInt8 := 0xff

/-- Whether the gate is off. -/
def Names.isEmpty (expected : Names) : Bool :=
  expected.names.isEmpty

/-- The list in force and the flag that says whether it holds anything, at a moment. -/
structure Held where
  names : Names
  any : Bool

/-- What the socket says of a buffer. -/
structure RecvMeta (Addr : Type*) where
  addr : Addr
  len : ℕ
  stride : ℕ

/-- What the socket answers a poll with. -/
inductive Poll (ε : Type*)
  | pending
  | ready (result : Except ε ℕ)

/-- Makes the packet decoder reject a datagram, if it is long enough. -/
def blind (datagram : List UInt8) : List UInt8 :=
  datagram.set dcidLengthOffset impossibleCidLength

section

variable (crypto : Crypto) (expected : Names)

/-- Judges one datagram and blinds it if it is refused. -/
def screen (datagram : List UInt8) : List UInt8 :=
  match judge crypto datagram expected with
  | .pass => datagram
  | .refuse _ => blind datagram

/-- The loop over one buffer: the datagrams judged, and what it leaves. -/
def screenRun (len stride start : ℕ) (buf : List UInt8) : List (List UInt8) × List UInt8 :=
  if start < len then
    let stop := min (start + max stride 1) len
    let datagram := (buf.take stop).drop start
    let rest := screenRun len stride stop
      (buf.take start ++ screen crypto expected datagram ++ buf.drop stop)
    (datagram :: rest.1, rest.2)
  else
    ([], buf)
termination_by len - start

/-- One buffer of a batch. -/
def screenBuffer {Addr : Type*} (received : RecvMeta Addr × List UInt8) :
    List (List UInt8) × List UInt8 :=
  screenRun crypto expected (min received.1.len received.2.length) received.1.stride 0 received.2

/-- The buffers of a batch, in order. -/
def screenBatch {Addr : Type*} (bufs : List (List UInt8)) (metas : List (RecvMeta Addr))
    (count : ℕ) : List (List (List UInt8) × List UInt8) :=
  ((metas.zip bufs).take count).map (screenBuffer crypto expected)

end

/-- What a poll leaves. -/
structure Polled (Addr ε : Type*) where
  bufs : List (List UInt8)
  metas : List (RecvMeta Addr)
  result : Poll ε
  /-- The datagrams judged, by buffer. -/
  judged : List (List (List UInt8))

/-- `poll_recv`, after the socket has filled `bufs` and `metas` and answered `result`. The flag and
the list are what they are when they are read. -/
def pollRecv {Addr ε : Type*} (crypto : Crypto) (atFlag atList : Held) (bufs : List (List UInt8))
    (metas : List (RecvMeta Addr)) (result : Poll ε) : Polled Addr ε :=
  match result with
  | .ready (.ok count) =>
      if !atFlag.any then ⟨bufs, metas, result, []⟩
      else if atList.names.isEmpty then ⟨bufs, metas, result, []⟩
      else
        let screened := screenBatch crypto atList.names bufs metas count
        ⟨screened.map Prod.snd ++ bufs.drop screened.length, metas, result, screened.map Prod.fst⟩
  | _ => ⟨bufs, metas, result, []⟩

/-! ### One datagram -/

variable {crypto : Crypto} {expected : Names}

/-- The gate refuses a datagram. -/
def Refused (crypto : Crypto) (expected : Names) (datagram : List UInt8) : Prop :=
  ∃ refusal, judge crypto datagram expected = .refuse refusal

/-- A datagram that is not refused is left alone. -/
theorem screen_of_not_refused {datagram : List UInt8} (h : ¬Refused crypto expected datagram) :
    screen crypto expected datagram = datagram := by
  rw [screen]
  cases hjudge : judge crypto datagram expected with
  | pass => rfl
  | refuse refusal => exact absurd ⟨refusal, hjudge⟩ h

/-- A datagram that is refused is blinded. -/
theorem screen_of_refused {datagram : List UInt8} (h : Refused crypto expected datagram) :
    screen crypto expected datagram = blind datagram := by
  obtain ⟨refusal, hjudge⟩ := h
  rw [screen, hjudge]

/-- Screening keeps the length. -/
@[simp] theorem length_screen (datagram : List UInt8) :
    (screen crypto expected datagram).length = datagram.length := by
  by_cases h : Refused crypto expected datagram
  · rw [screen_of_refused h, blind, List.length_set]
  · rw [screen_of_not_refused h]

/-- **A blinded datagram is rejected.** -/
theorem parse_blind {datagram : List UInt8} (h : dcidLengthOffset < datagram.length) :
    InitialHeader.parse (blind datagram) = none := by
  have hget : (blind datagram)[dcidLengthOffset]? = some impossibleCidLength :=
    List.getElem?_set_self h
  rw [InitialHeader.parse, hget]
  rfl

/-- What screening changes of a datagram. -/
theorem eq_offset_of_screen_ne {datagram : List UInt8} {j : ℕ}
    (h : (screen crypto expected datagram)[j]? ≠ datagram[j]?) :
    Refused crypto expected datagram ∧ j = dcidLengthOffset := by
  by_cases hrefused : Refused crypto expected datagram
  · refine ⟨hrefused, ?_⟩
    by_contra hj
    rw [screen_of_refused hrefused, blind, List.getElem?_set_ne (Ne.symm hj)] at h
    exact h rfl
  · rw [screen_of_not_refused hrefused] at h
    exact absurd rfl h

/-! ### One buffer -/

/-- **One buffer, screened**: its datagrams, and what it becomes. -/
structure Screens (crypto : Crypto) (expected : Names) {Addr : Type*} (info : RecvMeta Addr)
    (buf : List UInt8) (judged : List (List UInt8)) (buf' : List UInt8) : Prop where
  /-- The datagrams are judged in order, each once: they are a stride long, but for the last. -/
  cut : Chunks.IsCut (max info.stride 1) (buf.take info.len) judged
  /-- Each is replaced by itself as it was screened, and the rest of the buffer stays. -/
  replaced : buf' = (judged.map (screen crypto expected)).flatten ++ buf.drop info.len

/-- A list from a position on, up to a later one and from there on. -/
theorem drop_eq_append {α : Type*} (l : List α) {start stop : ℕ} (h : start ≤ stop) :
    l.drop start = (l.take stop).drop start ++ l.drop stop := by
  rw [List.drop_take, ← Nat.add_sub_cancel' h, ← List.drop_drop, Nat.add_sub_cancel_left,
    List.take_append_drop]

/-- The loop from a position on: what is before it stays. -/
theorem screenRun_eq (crypto : Crypto) (expected : Names) (len stride start : ℕ)
    (buf : List UInt8) (hstart : start ≤ len) (hlen : len ≤ buf.length) :
    ∃ judged, Chunks.IsCut (max stride 1) ((buf.take len).drop start) judged ∧
      screenRun crypto expected len stride start buf =
        (judged, buf.take start ++ (judged.map (screen crypto expected)).flatten ++
          buf.drop len) := by
  induction start, buf using screenRun.induct crypto expected len stride with
  | case2 start buf hge =>
      obtain rfl : start = len := Nat.le_antisymm hstart (Nat.le_of_not_lt hge)
      refine ⟨[], ?_, ?_⟩
      · rw [List.drop_eq_nil_of_le (List.length_take_le _ _)]
        exact .nil
      · rw [screenRun, if_neg hge]
        simp
  | case1 start buf hlt stop datagram ih =>
      have hstop : stop ≤ len := Nat.min_le_right _ _
      have hdatagram : datagram.length = stop - start := by
        rw [List.length_drop, List.length_take_of_le (hstop.trans hlen)]
      have hhead : (buf.take start ++ screen crypto expected datagram).length = stop := by
        rw [List.length_append, length_screen, hdatagram, List.length_take_of_le (by omega)]
        omega
      -- what is left of the buffer after this datagram is as the socket filled it
      have hrest : (buf.take start ++ screen crypto expected datagram ++ buf.drop stop).drop stop =
          buf.drop stop := by
        rw [List.drop_append_of_le_length hhead.ge, List.drop_of_length_le hhead.le,
          List.nil_append]
      obtain ⟨judged, hcut, heq⟩ := ih hstop (by
        rw [List.length_append, hhead, List.length_drop]
        omega)
      refine ⟨datagram :: judged, ?_, ?_⟩
      · rw [List.drop_take, hrest, ← List.drop_take] at hcut
        have hsplit : (buf.take len).drop start = datagram ++ (buf.take len).drop stop := by
          rw [drop_eq_append (buf.take len) (by omega : start ≤ stop), List.take_take,
            Nat.min_eq_left hstop]
        rw [hsplit]
        refine hcut.append ?_ ?_ ?_
        · apply List.ne_nil_of_length_pos
          omega
        · omega
        · intro hne
          have hlong := List.length_pos_iff.mpr hne
          rw [List.length_drop, List.length_take_of_le hlen] at hlong
          omega
      · rw [screenRun, if_pos hlt]
        simp only
        have htake :
            (buf.take start ++ screen crypto expected datagram ++ buf.drop stop).take stop =
              buf.take start ++ screen crypto expected datagram := by
          rw [List.take_append_of_le_length hhead.ge, List.take_of_length_le hhead.le]
        have hdrop : (buf.take start ++ screen crypto expected datagram ++ buf.drop stop).drop len =
            buf.drop len := by
          rw [← Nat.add_sub_cancel' hstop, ← List.drop_drop, hrest, List.drop_drop]
        rw [heq, htake, hdrop, List.map_cons, List.flatten_cons]
        simp only [List.append_assoc]
        rfl

/-- A buffer is screened datagram by datagram. -/
theorem screenBuffer_screens {Addr : Type*} (info : RecvMeta Addr) (buf : List UInt8) :
    Screens crypto expected info buf (screenBuffer crypto expected (info, buf)).1
      (screenBuffer crypto expected (info, buf)).2 := by
  have hlen : min info.len buf.length ≤ buf.length := Nat.min_le_right _ _
  obtain ⟨judged, hcut, heq⟩ :=
    screenRun_eq crypto expected _ info.stride 0 buf (Nat.zero_le _) hlen
  rw [screenBuffer, heq]
  rw [List.drop_zero, ← List.take_eq_take_min] at hcut
  refine ⟨hcut, ?_⟩
  rw [List.take_zero, List.nil_append, ← List.drop_eq_drop_min]

/-- Only byte 5 of a refused datagram changes. -/
theorem Screens.frame {Addr : Type*} {info : RecvMeta Addr} {buf buf' : List UInt8}
    {judged : List (List UInt8)} (h : Screens crypto expected info buf judged buf') {i : ℕ}
    (hne : buf'[i]? ≠ buf[i]?) :
    ∃ before datagram after, judged = before ++ datagram :: after ∧
      Refused crypto expected datagram ∧ i = before.flatten.length + dcidLengthOffset := by
  have hlength : (judged.map (screen crypto expected)).flatten.length = judged.flatten.length := by
    rw [List.length_flatten, List.length_flatten, List.map_map]
    simp [Function.comp_def]
  have hbuf : buf = judged.flatten ++ buf.drop info.len := by
    rw [h.cut.flatten, List.take_append_drop]
  rw [h.replaced] at hne
  rcases Nat.lt_or_ge i judged.flatten.length with hi | hi
  · rw [List.getElem?_append_left (by rwa [hlength]), hbuf, List.getElem?_append_left hi] at hne
    obtain ⟨before, datagram, after, j, heq, hj, hchanged⟩ :=
      Chunks.exists_chunk_of_ne length_screen hne
    obtain ⟨hrefused, rfl⟩ := eq_offset_of_screen_ne hchanged
    exact ⟨before, datagram, after, heq, hrefused, hj⟩
  · rw [List.getElem?_append_right (by rwa [hlength]), hlength] at hne
    nth_rewrite 2 [hbuf] at hne
    exact absurd (List.getElem?_append_right hi).symm hne

/-! ### A batch -/

/-- **A batch, screened**, by what the socket answered and what the gate read. -/
structure ScreensBatch {Addr ε : Type*} (crypto : Crypto) (atFlag atList : Held)
    (bufs : List (List UInt8)) (metas : List (RecvMeta Addr)) (result : Poll ε)
    (polled : Polled Addr ε) : Prop where
  metas_eq : polled.metas = metas
  result_eq : polled.result = result
  length_eq : polled.bufs.length = bufs.length
  /-- The buffers of the batch are screened. -/
  screened : ∀ count, result = .ready (.ok count) → atFlag.any = true →
    atList.names.isEmpty = false → polled.judged.length = min count (min metas.length bufs.length) ∧
      ∀ (k : ℕ) info buf, k < count → metas[k]? = some info → bufs[k]? = some buf →
        ∃ judged buf', polled.judged[k]? = some judged ∧ polled.bufs[k]? = some buf' ∧
          Screens crypto atList.names info buf judged buf'
  /-- The buffers beyond it stay. -/
  beyond : ∀ (k count : ℕ), result = .ready (.ok count) →
    count ≤ k ∨ metas.length ≤ k → polled.bufs[k]? = bufs[k]?
  /-- Where the list in force is empty, and where nothing was received, nothing changes. -/
  untouched : (atFlag.any = false ∨ atList.names.isEmpty = true ∨
    ∀ count, result ≠ .ready (.ok count)) → polled.bufs = bufs ∧ polled.judged = []
  /-- Only byte 5 of a refused datagram changes. -/
  frame : ∀ (k i : ℕ) buf buf', bufs[k]? = some buf → polled.bufs[k]? = some buf' →
    buf'[i]? ≠ buf[i]? → ∃ judged before datagram after, polled.judged[k]? = some judged ∧
      judged = before ++ datagram :: after ∧ Refused crypto atList.names datagram ∧
      i = before.flatten.length + dcidLengthOffset

section

variable {Addr ε : Type*} {atFlag atList : Held} {bufs : List (List UInt8)}
  {metas : List (RecvMeta Addr)} {result : Poll ε} {count : ℕ}

/-- Where the gate is off, and where nothing was received. -/
theorem screensBatch_untouched (h : pollRecv crypto atFlag atList bufs metas result =
      ⟨bufs, metas, result, []⟩)
    (hoff : atFlag.any = false ∨ atList.names.isEmpty = true ∨
      ∀ count, result ≠ .ready (.ok count)) :
    ScreensBatch crypto atFlag atList bufs metas result
      (pollRecv crypto atFlag atList bufs metas result) := by
  rw [h]
  refine ⟨rfl, rfl, rfl, ?_, fun _ _ _ _ => rfl, fun _ => ⟨rfl, rfl⟩, ?_⟩
  · intro count hresult hany hnames
    rcases hoff with hoff | hoff | hoff
    · rw [hany] at hoff
      cases hoff
    · rw [hnames] at hoff
      cases hoff
    · exact absurd hresult (hoff count)
  · intro k i buf buf' hbuf hbuf' hne
    rw [hbuf, Option.some.injEq] at hbuf'
    exact absurd (by rw [hbuf']) hne

/-- As many buffers are screened as were filled. -/
theorem length_screenBatch (crypto : Crypto) (expected : Names) (bufs : List (List UInt8))
    (metas : List (RecvMeta Addr)) (count : ℕ) :
    (screenBatch crypto expected bufs metas count).length =
      min count (min metas.length bufs.length) := by
  rw [screenBatch, List.length_map, List.length_take, List.length_zip]

/-- Each buffer of a batch is screened by itself. -/
theorem screenBatch_getElem? {k : ℕ} {info : RecvMeta Addr} {buf : List UInt8} (hk : k < count)
    (hinfo : metas[k]? = some info) (hbuf : bufs[k]? = some buf) :
    (screenBatch crypto expected bufs metas count)[k]? =
      some (screenBuffer crypto expected (info, buf)) := by
  have hzip : (metas.zip bufs)[k]? = some (info, buf) :=
    List.getElem?_zip_eq_some.mpr ⟨hinfo, hbuf⟩
  rw [screenBatch, List.getElem?_map, List.getElem?_take_of_lt hk, hzip]
  rfl

/-- A buffer of the batch after it was screened. -/
theorem written_getElem?_of_screened {screened : List (List (List UInt8) × List UInt8)} {k : ℕ}
    {found : List (List UInt8) × List UInt8} (h : screened[k]? = some found) :
    (screened.map Prod.snd ++ bufs.drop screened.length)[k]? = some found.2 := by
  have hlt : k < (screened.map Prod.snd).length := by
    rw [List.length_map]
    exact (List.getElem?_eq_some_iff.mp h).1
  rw [List.getElem?_append_left hlt, List.getElem?_map, h]
  rfl

/-- A buffer beyond the batch. -/
theorem written_getElem?_of_le {screened : List (List (List UInt8) × List UInt8)} {k : ℕ}
    (hle : screened.length ≤ k) :
    (screened.map Prod.snd ++ bufs.drop screened.length)[k]? = bufs[k]? := by
  rw [List.getElem?_append_right (by rwa [List.length_map]), List.length_map, List.getElem?_drop,
    Nat.add_sub_cancel' hle]

/-- Where the gate is on and the socket has filled buffers. -/
theorem screensBatch_ready (hany : atFlag.any = true) (hnames : atList.names.isEmpty = false) :
    ScreensBatch crypto atFlag atList bufs metas (.ready (.ok count) : Poll ε)
      (pollRecv crypto atFlag atList bufs metas (.ready (.ok count))) := by
  have hpoll : pollRecv crypto atFlag atList bufs metas (.ready (.ok count) : Poll ε) =
      ⟨(screenBatch crypto atList.names bufs metas count).map Prod.snd ++
          bufs.drop (screenBatch crypto atList.names bufs metas count).length,
        metas, .ready (.ok count),
        (screenBatch crypto atList.names bufs metas count).map Prod.fst⟩ := by
    simp only [pollRecv, hany, hnames]
    rfl
  have hlength := length_screenBatch crypto atList.names bufs metas count
  have hin : ∀ (k : ℕ) info buf, k < count → metas[k]? = some info → bufs[k]? = some buf →
      (screenBatch crypto atList.names bufs metas count)[k]? =
        some (screenBuffer crypto atList.names (info, buf)) :=
    fun k info buf => screenBatch_getElem?
  rw [hpoll]
  generalize screenBatch crypto atList.names bufs metas count = screened at hlength hin ⊢
  have hscreened : ∀ (k : ℕ) info buf, k < count → metas[k]? = some info → bufs[k]? = some buf →
      ∃ judged buf', (screened.map Prod.fst)[k]? = some judged ∧
        (screened.map Prod.snd ++ bufs.drop screened.length)[k]? = some buf' ∧
        Screens crypto atList.names info buf judged buf' := by
    intro k info buf hk hinfo hbuf
    have hget := hin k info buf hk hinfo hbuf
    refine ⟨_, _, ?_, written_getElem?_of_screened hget, screenBuffer_screens info buf⟩
    rw [List.getElem?_map, hget]
    rfl
  have hbeyond : ∀ k, count ≤ k ∨ metas.length ≤ k →
      (screened.map Prod.snd ++ bufs.drop screened.length)[k]? = bufs[k]? := by
    intro k hk
    refine written_getElem?_of_le ?_
    rw [hlength]
    omega
  refine ⟨rfl, rfl, ?_, ?_, ?_, ?_, ?_⟩
  · simp only [List.length_append, List.length_map, List.length_drop]
    omega
  · intro count' hcount _ _
    cases hcount
    exact ⟨by rw [List.length_map, hlength], hscreened⟩
  · intro k count' hcount hk
    cases hcount
    exact hbeyond k hk
  · rintro (hoff | hoff | hoff)
    · rw [hany] at hoff
      cases hoff
    · rw [hnames] at hoff
      cases hoff
    · exact absurd rfl (hoff count)
  · intro k i buf buf' hbuf hbuf' hne
    by_cases hk : count ≤ k ∨ metas.length ≤ k
    · simp only at hbuf'
      rw [hbeyond k hk, hbuf, Option.some.injEq] at hbuf'
      exact absurd (by rw [hbuf']) hne
    · rw [not_or, Nat.not_le, Nat.not_le] at hk
      obtain ⟨judged, buf'', hjudged, hbuf'', hscreens⟩ :=
        hscreened k _ buf hk.1 (List.getElem?_eq_getElem hk.2) hbuf
      obtain rfl : buf'' = buf' := Option.some.inj (hbuf''.symm.trans hbuf')
      obtain ⟨before, datagram, after, heq, hrefused, hi⟩ := hscreens.frame hne
      exact ⟨judged, before, datagram, after, hjudged, heq, hrefused, hi⟩

end

/-- **Screening a batch touches only what it refuses**, and a refused datagram that is long enough
is one the header parser rejects afterwards. -/
theorem poll_recv_touches_refused {Addr ε : Type*} (crypto : Crypto) (atFlag atList : Held)
    (bufs : List (List UInt8)) (metas : List (RecvMeta Addr)) (result : Poll ε) :
    ScreensBatch crypto atFlag atList bufs metas result
        (pollRecv crypto atFlag atList bufs metas result) ∧
      ∀ datagram, Refused crypto atList.names datagram → dcidLengthOffset < datagram.length →
        InitialHeader.parse (screen crypto atList.names datagram) = none := by
  constructor
  · cases result with
    | pending => exact screensBatch_untouched rfl (.inr (.inr nofun))
    | ready answer =>
        cases answer with
        | error e => exact screensBatch_untouched rfl (.inr (.inr nofun))
        | ok count =>
            cases hany : atFlag.any with
            | false => exact screensBatch_untouched (by simp [pollRecv, hany]) (.inl hany)
            | true =>
                cases hnames : atList.names.isEmpty with
                | false => exact screensBatch_ready hany hnames
                | true =>
                    exact screensBatch_untouched (by simp [pollRecv, hnames]) (.inr (.inl hnames))
  · intro datagram hrefused hlong
    rw [screen_of_refused hrefused]
    exact parse_blind hlong

end Gate

end Volto
