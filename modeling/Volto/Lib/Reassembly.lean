import Mathlib.Data.List.Sort
import Mathlib.Order.Bounds.Basic

/-!
# Reassembly of a Stream

A stream arrives as fragments, each with the offset it starts at, in any order, with overlaps
and with gaps. Reassembly sorts them by offset, keeping the order of arrival among equal
offsets, and appends each one's part beyond what is already there, up to the first gap.
Nothing here is about a particular program.

A position of the stream is decided by the first fragment in that order that covers it. So a
message that has been assembled stays as it is when fragments that agree with it are added,
wherever they fall in the order (`isPrefix_assemble_append`), while a disagreeing fragment can
change any position that no earlier one covers.

## Main results

* `Thins.insertionSort`: sorting commutes with leaving elements out.
* `isPrefix_assemble_append`: agreeing fragments do not change an assembled message.
* `head?_assemble_append`: later fragments never change the first element.
* `assemble_of_carried`: pieces of one stream assemble to as much of it as they cover from its
  start on.
-/

namespace Reassembly

variable {α : Type*}

/-- A fragment: the offset it starts at, and its data. -/
abbrev Fragment (α : Type*) := ℕ × List α

/-- The order of reassembly. -/
def Before (a b : Fragment α) : Prop :=
  a.1 ≤ b.1

/-- Whether a fragment starts before another is decided by their offsets. -/
instance : DecidableRel (Before (α := α)) := fun a b =>
  inferInstanceAs (Decidable (a.1 ≤ b.1))

/-- Starting before is transitive. -/
instance : IsTrans (Fragment α) Before :=
  ⟨fun _ _ _ => Nat.le_trans⟩

/-- Of two fragments one starts before the other. -/
instance : Std.Total (Before (α := α)) :=
  ⟨fun a b => Nat.le_total a.1 b.1⟩

/-- Appends fragments to a stream, each one's part beyond what is there, up to the first
gap. -/
def extend (stream : List α) : List (Fragment α) → List α
  | [] => stream
  | (offset, data) :: fragments =>
      if stream.length < offset then stream
      else extend (stream ++ data.drop (stream.length - offset)) fragments

/-- The contiguous start of the stream that fragments carry. -/
def assemble (fragments : List (Fragment α)) : List α :=
  extend [] (fragments.insertionSort Before)

/-! ### Appending -/

/-- What is there stays. -/
theorem isPrefix_extend (stream : List α) (fragments : List (Fragment α)) :
    stream <+: extend stream fragments := by
  induction fragments generalizing stream with
  | nil => exact List.prefix_refl stream
  | cons fragment fragments ih =>
      rw [extend]
      split_ifs
      · exact List.prefix_refl stream
      · exact (List.prefix_append stream _).trans (ih _)

/-- Fragments that all start beyond the stream add nothing. -/
theorem extend_of_gap {stream : List α} {fragments : List (Fragment α)}
    (h : ∀ fragment ∈ fragments, stream.length < fragment.1) :
    extend stream fragments = stream := by
  cases fragments with
  | nil => rfl
  | cons fragment fragments =>
      rw [extend, if_pos (h fragment (List.mem_cons_self ..))]

/-! ### Leaving fragments out -/

/-- `few` is `many` with some of the elements that satisfy `P` left out. -/
inductive Thins {β : Type*} (P : β → Prop) : List β → List β → Prop
  | nil : Thins P [] []
  | skip {few many : List β} {b : β} (hb : P b) (h : Thins P few many) : Thins P few (b :: many)
  | keep {few many : List β} (b : β) (h : Thins P few many) : Thins P (b :: few) (b :: many)

namespace Thins

variable {β : Type*} {P : β → Prop} {few many : List β}

/-- What is kept was there. -/
theorem mem (h : Thins P few many) {b : β} (hb : b ∈ few) : b ∈ many := by
  induction h with
  | nil => exact hb
  | skip _ _ ih => exact List.mem_cons_of_mem _ (ih hb)
  | keep c _ ih =>
      rcases List.mem_cons.mp hb with rfl | hb
      · exact List.mem_cons_self ..
      · exact List.mem_cons_of_mem _ (ih hb)

/-- Everything can be left out when everything satisfies `P`. -/
theorem of_forall (h : ∀ b ∈ many, P b) : Thins P [] many := by
  induction many with
  | nil => exact .nil
  | cons b many ih =>
      exact .skip (h b (List.mem_cons_self ..))
        (ih fun c hc => h c (List.mem_cons_of_mem _ hc))

/-- Elements at the end that satisfy `P` can be left out. -/
theorem append (few : List β) (h : ∀ b ∈ many, P b) : Thins P few (few ++ many) := by
  induction few with
  | nil => exact of_forall h
  | cons b few ih => exact .keep b ih

variable {r : β → β → Prop} [DecidableRel r]

/-- An inserted element that satisfies `P` can be left out. -/
theorem skip_orderedInsert (h : Thins P few many) {b : β} (hb : P b) :
    Thins P few (many.orderedInsert r b) := by
  induction h with
  | nil => exact .skip hb .nil
  | skip hc h ih =>
      rw [List.orderedInsert_cons]
      split_ifs
      · exact .skip hb (.skip hc h)
      · exact .skip hc ih
  | keep c h ih =>
      rw [List.orderedInsert_cons]
      split_ifs
      · exact .skip hb (.keep c h)
      · exact .keep c ih

variable [IsTrans β r]

/-- Inserting into an ordered list commutes with leaving elements out. -/
theorem orderedInsert (h : Thins P few many) (hsorted : many.Pairwise r) (b : β) :
    Thins P (few.orderedInsert r b) (many.orderedInsert r b) := by
  induction h with
  | nil => exact .keep b .nil
  | @skip few many c hc h ih =>
      obtain ⟨hfirst, hsorted⟩ := List.pairwise_cons.mp hsorted
      rw [List.orderedInsert_cons]
      split_ifs with hbc
      · -- what is kept comes after `c`, so `b` goes to the front of it as well
        have hfront : few.orderedInsert r b = b :: few := by
          cases hfew : few with
          | nil => rfl
          | cons d few' =>
              have hd : d ∈ many := h.mem (hfew ▸ List.mem_cons_self ..)
              exact List.orderedInsert_cons_of_le r few' (trans_of r hbc (hfirst d hd))
        rw [hfront]
        exact .keep b (.skip hc h)
      · exact .skip hc (ih hsorted)
  | @keep few many c h ih =>
      obtain ⟨-, hsorted⟩ := List.pairwise_cons.mp hsorted
      rw [List.orderedInsert_cons, List.orderedInsert_cons]
      split_ifs with hbc
      · exact .keep b (.keep c h)
      · exact .keep c (ih hsorted)

/-- **Sorting commutes with leaving elements out**, since it keeps the order of arrival. -/
theorem insertionSort [Std.Total r] (h : Thins P few many) :
    Thins P (few.insertionSort r) (many.insertionSort r) := by
  induction h with
  | nil => exact .nil
  | skip hb h ih =>
      rw [List.insertionSort_cons]
      exact ih.skip_orderedInsert hb
  | @keep few many b h ih =>
      rw [List.insertionSort_cons, List.insertionSort_cons]
      exact ih.orderedInsert (List.pairwise_insertionSort r many) b

end Thins

/-! ### Adding fragments that agree -/

/-- A fragment has the data of `message` wherever it overlaps it. -/
def Agrees (message : List α) (fragment : Fragment α) : Prop :=
  ∀ (i : ℕ) (a : α), fragment.2[i]? = some a → ∀ b, message[fragment.1 + i]? = some b → a = b

/-- A stream has the data of `message` as far as it reaches. -/
def Follows (message stream : List α) : Prop :=
  ∀ (k : ℕ) (a : α), stream[k]? = some a → ∀ b, message[k]? = some b → a = b

/-- A stream that begins with a message follows it. -/
theorem Follows.of_isPrefix {message stream : List α} (h : message <+: stream) :
    Follows message stream := by
  intro k a ha b hb
  obtain ⟨rest, rfl⟩ := h
  have hlt : k < message.length := (List.getElem?_eq_some_iff.mp hb).1
  rw [List.getElem?_append_left hlt, hb] at ha
  exact (Option.some.inj ha).symm

/-- A stream that follows a message and is long enough begins with it. -/
theorem Follows.isPrefix {message stream : List α} (h : Follows message stream)
    (hlength : message.length ≤ stream.length) : message <+: stream := by
  rw [List.prefix_iff_eq_take]
  apply List.ext_getElem?
  intro k
  by_cases hk : k < message.length
  · have hstream : k < stream.length := hk.trans_le hlength
    rw [List.getElem?_take_of_lt hk, List.getElem?_eq_getElem hk,
      List.getElem?_eq_getElem hstream]
    exact congrArg some (h k _ (List.getElem?_eq_getElem hstream) _
      (List.getElem?_eq_getElem hk)).symm
  · rw [List.getElem?_eq_none (Nat.le_of_not_lt hk), List.getElem?_take_eq_none
      (Nat.le_of_not_lt hk)]

/-- A shorter stream follows what a longer one does. -/
theorem Follows.mono {message stream stream' : List α} (h : Follows message stream')
    (hstream : stream <+: stream') : Follows message stream := by
  intro k a ha
  obtain ⟨rest, rfl⟩ := hstream
  have hlt : k < stream.length := (List.getElem?_eq_some_iff.mp ha).1
  exact h k a (by rw [List.getElem?_append_left hlt, ha])

/-- The element at a position beyond the stream comes from the fragment. -/
theorem getElem?_append_drop {stream data : List α} {offset k : ℕ}
    (hoffset : offset ≤ stream.length) (hk : stream.length ≤ k) :
    (stream ++ data.drop (stream.length - offset))[k]? = data[k - offset]? := by
  rw [List.getElem?_append_right hk, List.getElem?_drop]
  congr 1
  omega

/-- A stream goes on following the message if the fragment agrees with it beyond the stream. -/
theorem Follows.append_drop {message stream data : List α} {offset : ℕ}
    (h : Follows message stream) (hoffset : offset ≤ stream.length)
    (hdata : ∀ k, stream.length ≤ k → ∀ a, data[k - offset]? = some a →
      ∀ b, message[k]? = some b → a = b) :
    Follows message (stream ++ data.drop (stream.length - offset)) := by
  intro k a ha
  by_cases hk : k < stream.length
  · rw [List.getElem?_append_left hk] at ha
    exact h k a ha
  · rw [getElem?_append_drop hoffset (Nat.le_of_not_lt hk)] at ha
    exact hdata k (Nat.le_of_not_lt hk) a ha

/-- **Agreeing fragments do not change an assembled message**, in the order of reassembly. The
stream with them is never shorter, and where it is longer they, or the fragment that the other
stream takes its data from as well, decide. -/
theorem isPrefix_extend_of_thins {message : List α} {few many : List (Fragment α)}
    (h : Thins (Agrees message) few many) (hsorted : many.Pairwise Before)
    {stream stream' : List α} (hlength : stream.length ≤ stream'.length)
    (hfollows : Follows message stream') (hmessage : message <+: extend stream few) :
    message <+: extend stream' many := by
  induction h generalizing stream stream' with
  | nil => exact hfollows.isPrefix (hmessage.length_le.trans hlength)
  | @skip few many fragment hagrees h ih =>
      obtain ⟨hfirst, htail⟩ := List.pairwise_cons.mp hsorted
      obtain ⟨offset, data⟩ := fragment
      rw [extend]
      split_ifs with hgap
      · -- everything kept starts at this gap or beyond it
        have hfew : extend stream few = stream := by
          refine extend_of_gap fun fragment hmem => ?_
          exact (hlength.trans_lt hgap).trans_le (hfirst fragment (h.mem hmem))
        rw [hfew] at hmessage
        exact hfollows.isPrefix (hmessage.length_le.trans hlength)
      · refine ih htail (hlength.trans ?_) ?_ hmessage
        · rw [List.length_append]
          exact Nat.le_add_right _ _
        · refine hfollows.append_drop (Nat.le_of_not_lt hgap) ?_
          intro k hk a ha b hb
          refine hagrees (k - offset) a ha b ?_
          rw [← hb]
          congr 1
          dsimp only
          omega
  | @keep few many fragment h ih =>
      obtain ⟨-, htail⟩ := List.pairwise_cons.mp hsorted
      obtain ⟨offset, data⟩ := fragment
      by_cases hgap : stream.length < offset
      · -- the message was complete before this fragment
        rw [extend, if_pos hgap] at hmessage
        exact (hfollows.isPrefix (hmessage.length_le.trans hlength)).trans (isPrefix_extend _ _)
      · have hgap' : ¬stream'.length < offset := by omega
        rw [extend, if_neg hgap] at hmessage
        rw [extend, if_neg hgap']
        have hshort : Follows message (stream ++ data.drop (stream.length - offset)) :=
          (Follows.of_isPrefix hmessage).mono (isPrefix_extend _ _)
        refine ih htail ?_ ?_ hmessage
        · rw [List.length_append, List.length_append, List.length_drop, List.length_drop]
          omega
        · refine hfollows.append_drop (Nat.le_of_not_lt hgap') ?_
          intro k hk a ha
          refine hshort k a ?_
          rw [getElem?_append_drop (Nat.le_of_not_lt hgap) (hlength.trans hk), ha]

/-- **Agreeing fragments do not change an assembled message**, wherever they fall. -/
theorem isPrefix_assemble_append {message : List α} {fragments more : List (Fragment α)}
    (hmessage : message <+: assemble fragments) (h : ∀ fragment ∈ more, Agrees message fragment) :
    message <+: assemble (fragments ++ more) :=
  isPrefix_extend_of_thins (Thins.append fragments h).insertionSort
    (List.pairwise_insertionSort Before _) (Nat.le_refl _) (by rintro k a ⟨⟩) hmessage

/-! ### The first element -/

/-- The fragments that start the stream. -/
def starts (fragments : List (Fragment α)) : List (Fragment α) :=
  fragments.filter fun fragment => fragment.1 = 0

/-- Sorting keeps the fragments that start the stream in their order of arrival. -/
theorem starts_insertionSort (fragments : List (Fragment α)) :
    starts (fragments.insertionSort Before) = starts fragments := by
  have hinsert : ∀ (fragment : Fragment α) (fragments : List (Fragment α)),
      starts (fragments.orderedInsert Before fragment) = starts (fragment :: fragments) := by
    intro fragment fragments
    induction fragments with
    | nil => rfl
    | cons first fragments ih =>
        rw [List.orderedInsert_cons]
        split_ifs with hbefore
        · rfl
        · -- a fragment that goes further down does not start the stream
          have hzero : ¬fragment.1 = 0 := by
            rw [Before] at hbefore
            omega
          simp only [starts, List.filter_cons, hzero, decide_false, Bool.false_eq_true,
            if_false] at ih ⊢
          rw [ih]
  induction fragments with
  | nil => rfl
  | cons fragment fragments ih =>
      rw [List.insertionSort_cons, hinsert]
      simp only [starts, List.filter_cons] at ih ⊢
      rw [ih]

/-- The first element of a stream is that of the first fragment with data among those that
start it. -/
theorem head?_extend_nil {fragments : List (Fragment α)} (hsorted : fragments.Pairwise Before) :
    (extend [] fragments).head? = ((starts fragments).flatMap Prod.snd).head? := by
  induction fragments with
  | nil => rfl
  | cons fragment fragments ih =>
      obtain ⟨hfirst, htail⟩ := List.pairwise_cons.mp hsorted
      obtain ⟨offset, data⟩ := fragment
      rw [extend]
      by_cases hzero : offset = 0
      · subst hzero
        have hstarts : starts ((0, data) :: fragments) = (0, data) :: starts fragments := by
          simp [starts]
        rw [if_neg (Nat.not_lt_zero _), hstarts, List.flatMap_cons, List.nil_append,
          List.length_nil, Nat.zero_sub, List.drop_zero, List.head?_append]
        cases data with
        | nil => exact ih htail
        | cons first data =>
            obtain ⟨rest, hrest⟩ := isPrefix_extend (first :: data) fragments
            rw [← hrest]
            rfl
      · have hgap : ([] : List α).length < offset := Nat.pos_of_ne_zero hzero
        have hstarts : starts ((offset, data) :: fragments) = [] := by
          rw [starts, List.filter_eq_nil_iff]
          intro fragment hmem hstart
          rcases List.mem_cons.mp hmem with rfl | hmem
          · exact hzero (of_decide_eq_true hstart)
          · have hle : offset ≤ fragment.1 := hfirst fragment hmem
            have := of_decide_eq_true hstart
            omega
        rw [if_pos hgap, hstarts, List.flatMap_nil]

/-- **Later fragments never change the first element** of what has been assembled. -/
theorem head?_assemble_append {fragments : List (Fragment α)} {a : α}
    (h : (assemble fragments).head? = some a) (more : List (Fragment α)) :
    (assemble (fragments ++ more)).head? = some a := by
  rw [assemble, head?_extend_nil (List.pairwise_insertionSort Before _),
    starts_insertionSort] at h ⊢
  rw [starts, List.filter_append, List.flatMap_append, List.head?_append]
  rw [starts] at h
  rw [h, Option.some_or]

/-! ### Pieces of one stream -/

/-- A fragment is a piece of a stream. -/
def Carried (whole : List α) (fragment : Fragment α) : Prop :=
  fragment.2 <+: whole.drop fragment.1

/-- A position is covered by one of the fragments. -/
def Covered (fragments : List (Fragment α)) (k : ℕ) : Prop :=
  ∃ fragment ∈ fragments, fragment.1 ≤ k ∧ k < fragment.1 + fragment.2.length

/-- A piece that starts within what is there extends it to its own end. -/
theorem take_append_drop_of_carried {whole data : List α} {offset m : ℕ}
    (h : data <+: whole.drop offset) (hoffset : offset ≤ m) :
    whole.take m ++ data.drop (m - offset) = whole.take (max m (offset + data.length)) := by
  have hmax : max m (offset + data.length) = m + (data.length - (m - offset)) := by omega
  have hdrop : data.drop (m - offset) = (whole.drop m).take (data.length - (m - offset)) := by
    calc data.drop (m - offset)
        = ((whole.drop offset).take data.length).drop (m - offset) :=
          congrArg (List.drop _) (List.prefix_iff_eq_take.mp h)
      _ = (whole.drop m).take (data.length - (m - offset)) := by
          rw [List.drop_take, List.drop_drop, Nat.add_sub_cancel' hoffset]
  rw [hmax, List.take_add, hdrop]

/-- **The pieces of a stream extend the start of it** up to a position that none of them covers,
covering everything on the way. -/
theorem extend_of_carried {whole : List α} {fragments : List (Fragment α)}
    (hcarried : ∀ fragment ∈ fragments, Carried whole fragment)
    (hsorted : fragments.Pairwise Before) {m : ℕ} (hm : m ≤ whole.length) :
    ∃ n, m ≤ n ∧ n ≤ whole.length ∧ extend (whole.take m) fragments = whole.take n ∧
      (∀ k, m ≤ k → k < n → Covered fragments k) ∧ ¬Covered fragments n := by
  induction fragments generalizing m with
  | nil =>
      refine ⟨m, Nat.le_refl m, hm, rfl, fun k hk hlt => ?_, ?_⟩
      · omega
      · rintro ⟨_, hmem, -⟩
        cases hmem
  | cons fragment fragments ih =>
      obtain ⟨hfirst, htail⟩ := List.pairwise_cons.mp hsorted
      have hcarried' := fun other hmem => hcarried other (List.mem_cons_of_mem _ hmem)
      have hpiece : fragment.2 <+: whole.drop fragment.1 := hcarried fragment List.mem_cons_self
      obtain ⟨offset, data⟩ := fragment
      rw [extend, List.length_take_of_le hm]
      split_ifs with hgap
      · refine ⟨m, Nat.le_refl m, hm, rfl, fun k hk hlt => ?_, ?_⟩
        · omega
        · -- everything from this fragment on starts beyond the gap
          rintro ⟨other, hmem, hle, -⟩
          rcases List.mem_cons.mp hmem with rfl | hmem
          · exact absurd hle (Nat.not_le.mpr hgap)
          · have hbefore : offset ≤ other.1 := hfirst other hmem
            omega
      · have hlength := hpiece.length_le
        rw [List.length_drop] at hlength
        rw [take_append_drop_of_carried hpiece (Nat.le_of_not_lt hgap)]
        obtain ⟨n, hle, hn, heq, hcovered, hnot⟩ :=
          ih hcarried' htail (m := max m (offset + data.length)) (by simp only at hlength; omega)
        refine ⟨n, by omega, hn, heq, fun k hk hlt => ?_, ?_⟩
        · by_cases hend : k < offset + data.length
          · exact ⟨(offset, data), List.mem_cons_self, by simp only; omega, hend⟩
          · obtain ⟨other, hmem, hother⟩ := hcovered k (by omega) hlt
            exact ⟨other, List.mem_cons_of_mem _ hmem, hother⟩
        · rintro ⟨other, hmem, hother⟩
          rcases List.mem_cons.mp hmem with rfl | hmem
          · simp only at hother
            omega
          · exact hnot ⟨other, hmem, hother⟩

/-- **Pieces of one stream assemble to as much of it as they cover from its start on.** -/
theorem assemble_of_carried {whole : List α} {fragments : List (Fragment α)}
    (hcarried : ∀ fragment ∈ fragments, Carried whole fragment) :
    ∃ n ≤ whole.length, IsGreatest {n | ∀ k < n, Covered fragments k} n ∧
      assemble fragments = whole.take n := by
  have hmem : ∀ fragment, fragment ∈ fragments.insertionSort Before ↔ fragment ∈ fragments :=
    fun _ => (List.perm_insertionSort Before fragments).mem_iff
  have hcovered : ∀ k, Covered (fragments.insertionSort Before) k ↔ Covered fragments k := by
    intro k
    simp only [Covered, hmem]
  obtain ⟨n, -, hn, heq, hall, hnot⟩ := extend_of_carried
    (fun fragment h => hcarried fragment ((hmem fragment).mp h))
    (List.pairwise_insertionSort Before fragments) (Nat.zero_le whole.length)
  refine ⟨n, hn, ⟨fun k hk => (hcovered k).mp (hall k (Nat.zero_le k) hk), fun n' hn' => ?_⟩, heq⟩
  by_contra hlt
  exact hnot ((hcovered n).mpr (hn' n (Nat.lt_of_not_le hlt)))

end Reassembly
