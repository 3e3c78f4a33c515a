import Mathlib.Data.List.Forall2

/-!
# Incremental Readers

A reader that is fed its input piece by piece, produces outputs on the way and may stop
with an error. `Outcome` is what one piece does to it, `feedAll` runs a list of pieces
and stops at the first error.

The point of the module is the comparison of two readers of one input: a *coarse* one
that takes whole chunks and a *fine* one that takes the elements of the chunks one at a
time. `Outcome.Refines` says that a coarse outcome stands for a fine one, each coarse output
for a group of fine ones, and `feedAll_refines` that a reader which refines the fine one on
every single chunk refines it on every list of chunks. The fine run depends on the
concatenation only, so the coarse run cannot depend on where its input was cut.

## Main results

* `feedAll_append`: a run over `xs ++ ys` is the run over `xs` followed by that over `ys`.
* `feedAll_countdown`: a run of a reader that waits for a number of pieces.
* `feedAll_refines`: chunk-wise refinement lifts to whole runs.
* `Groups.split`: where the outputs of a coarse run can be cut.
-/

namespace Incremental

variable {σ τ β ω ι ε : Type*}

/-- What a reader did with a piece of input: its outputs in order, the state it is left
in, and the error it stopped with, if any. -/
structure Outcome (σ ω ε : Type*) where
  out : List ω
  state : σ
  error : Option ε

/-- Nothing was produced and nothing went wrong. -/
def Outcome.idle (s : σ) : Outcome σ ω ε :=
  ⟨[], s, none⟩

/-- Continue from the state reached, unless the reader has stopped. -/
def Outcome.andThen (r : Outcome σ ω ε) (k : σ → Outcome σ ω ε) : Outcome σ ω ε :=
  match r.error with
  | some _ => r
  | none => ⟨r.out ++ (k r.state).out, (k r.state).state, (k r.state).error⟩

/-- Going on after nothing was read. -/
@[simp] theorem Outcome.idle_andThen (s : σ) (k : σ → Outcome σ ω ε) :
    (Outcome.idle s).andThen k = k s := rfl

/-- Going on with nothing. -/
@[simp] theorem Outcome.andThen_idle (r : Outcome σ ω ε) : r.andThen Outcome.idle = r := by
  obtain ⟨out, state, _ | e⟩ := r <;> simp [Outcome.andThen, Outcome.idle]

/-- Nothing goes on behind an error. -/
@[simp] theorem Outcome.stopped_andThen (out : List ω) (s : σ) (e : ε)
    (k : σ → Outcome σ ω ε) : (⟨out, s, some e⟩ : Outcome σ ω ε).andThen k = ⟨out, s, some e⟩ :=
  rfl

/-- Three readings in a row may be bracketed either way. -/
theorem Outcome.andThen_assoc (r : Outcome σ ω ε) (k l : σ → Outcome σ ω ε) :
    (r.andThen k).andThen l = r.andThen fun s => (k s).andThen l := by
  obtain ⟨out, state, _ | e⟩ := r
  · simp only [Outcome.andThen]
    cases h : (k state).error <;> simp [List.append_assoc, h]
  · rfl

/-- Run a list of pieces, stopping at the first error. -/
def feedAll (feed : σ → β → Outcome σ ω ε) : σ → List β → Outcome σ ω ε
  | s, [] => Outcome.idle s
  | s, b :: bs => (feed s b).andThen fun s => feedAll feed s bs

/-- No input leaves the reader as it is. -/
@[simp] theorem feedAll_nil (feed : σ → β → Outcome σ ω ε) (s : σ) :
    feedAll feed s [] = Outcome.idle s := rfl

/-- The first input is read first. -/
theorem feedAll_cons (feed : σ → β → Outcome σ ω ε) (s : σ) (b : β) (bs : List β) :
    feedAll feed s (b :: bs) = (feed s b).andThen fun s => feedAll feed s bs := rfl

/-- **Runs compose**: feeding `xs ++ ys` is feeding `xs` and then `ys`. -/
theorem feedAll_append (feed : σ → β → Outcome σ ω ε) (s : σ) (xs ys : List β) :
    feedAll feed s (xs ++ ys) = (feedAll feed s xs).andThen fun s => feedAll feed s ys := by
  induction xs generalizing s with
  | nil => rfl
  | cons x xs ih =>
      rw [List.cons_append, feedAll_cons, feedAll_cons, Outcome.andThen_assoc]
      exact congrArg _ (funext ih)

/-- **A reader that counts down** collects its pieces in silence until the last one is there.
`counting collected more` is the reader that waits for `more` pieces before the last. -/
theorem feedAll_countdown (feed : σ → β → Outcome σ ω ε) (counting : List β → ℕ → σ)
    (last : List β → Outcome σ ω ε)
    (hmore : ∀ collected more b,
      feed (counting collected (more + 1)) b = Outcome.idle (counting (collected ++ [b]) more))
    (hlast : ∀ collected b, feed (counting collected 0) b = last (collected ++ [b]))
    (collected : List β) {more : ℕ} (bs : List β) (hlen : bs.length ≤ more + 1) :
    feedAll feed (counting collected more) bs =
      if bs.length = more + 1 then last (collected ++ bs)
      else Outcome.idle (counting (collected ++ bs) (more - bs.length)) := by
  induction bs generalizing collected more with
  | nil => simp
  | cons b bs ih =>
      rw [List.length_cons] at hlen
      rw [feedAll_cons]
      cases more with
      | zero =>
          obtain rfl : bs = [] := List.length_eq_zero_iff.mp (by omega)
          rw [hlast]
          exact Outcome.andThen_idle _
      | succ more =>
          rw [hmore, Outcome.idle_andThen, ih _ (by omega)]
          simp

/-! ### Refinement -/

/-- A list of coarse outputs stands for a list of fine ones: each for a group of them, in
order. -/
def Groups (Render : ι → List ω → Prop) (coarse : List ι) (fine : List ω) : Prop :=
  ∃ groups, List.Forall₂ Render coarse groups ∧ groups.flatten = fine

variable {Render : ι → List ω → Prop}

/-- Nothing renders to nothing. -/
theorem Groups.nil : Groups Render [] [] :=
  ⟨[], .nil, rfl⟩

/-- One more item renders to one more group in front. -/
theorem Groups.cons {coarse : List ι} {fine : List ω} (h : Groups Render coarse fine) {i : ι}
    {group : List ω} (hi : Render i group) : Groups Render (i :: coarse) (group ++ fine) := by
  obtain ⟨groups, hgroups, rfl⟩ := h
  exact ⟨group :: groups, .cons hi hgroups, rfl⟩

/-- Two renderings join. -/
theorem Groups.append {coarse coarse' : List ι} {fine fine' : List ω}
    (h : Groups Render coarse fine) (h' : Groups Render coarse' fine') :
    Groups Render (coarse ++ coarse') (fine ++ fine') := by
  obtain ⟨groups, hgroups, rfl⟩ := h
  obtain ⟨groups', hgroups', rfl⟩ := h'
  exact ⟨groups ++ groups', List.rel_append hgroups hgroups', List.flatten_append⟩

/-- **Groups can be cut where no group goes on.** If an element can only stand at the end of a
group, the coarse list is cut right after it too. -/
theorem Groups.split (isLast : ω → Prop)
    (hlast : ∀ i group, Render i group → ∀ x ∈ group.dropLast, ¬isLast x) {coarse : List ι}
    {front rest : List ω} {x : ω} (hx : isLast x)
    (h : Groups Render coarse (front ++ x :: rest)) :
    ∃ left right, coarse = left ++ right ∧ Groups Render left (front ++ [x]) ∧
      Groups Render right rest := by
  obtain ⟨groups, hgroups, heq⟩ := h
  induction hgroups generalizing front with
  | nil => simp at heq
  | @cons i group coarse groups hi hgroups ih =>
      rw [List.flatten_cons, List.append_eq_append_iff] at heq
      rcases heq with ⟨more, rfl, hmore⟩ | ⟨more, rfl, hmore⟩
      · -- the element is in a later group
        obtain ⟨left, right, rfl, hleft, hright⟩ := ih hmore
        exact ⟨i :: left, right, rfl, by simpa using hleft.cons hi, hright⟩
      · cases more with
        | nil =>
            obtain ⟨left, right, rfl, hleft, hright⟩ := @ih [] hmore.symm
            exact ⟨i :: left, right, rfl, by simpa using hleft.cons hi, hright⟩
        | cons y more =>
            obtain ⟨rfl, rfl⟩ := List.cons_eq_cons.mp hmore
            cases more with
            | nil =>
                refine ⟨[i], coarse, rfl, ?_, groups, hgroups, rfl⟩
                simpa using Groups.nil.cons hi
            | cons z more =>
                have hmem : x ∈ (front ++ x :: z :: more).dropLast := by
                  rw [List.dropLast_append_of_ne_nil (by simp)]
                  simp
                exact absurd hx (hlast i _ hi x hmem)

/-- A coarse outcome refines a fine one: its outputs stand for the fine ones, the errors
agree, and the states are related. -/
structure Outcome.Refines (Render : ι → List ω → Prop) (R : τ → σ → Prop)
    (c : Outcome τ ι ε) (a : Outcome σ ω ε) : Prop where
  out : Groups Render c.out a.out
  state : R c.state a.state
  error : c.error = a.error

variable {R : τ → σ → Prop}

/-- An idle outcome refines an idle one on related states. -/
theorem Outcome.Refines.idle {t : τ} {s : σ} (h : R t s) :
    Outcome.Refines Render R (Outcome.idle t : Outcome τ ι ε) (Outcome.idle s) :=
  ⟨Groups.nil, h, rfl⟩

/-- Refinement is kept by continuing on both sides. -/
theorem Outcome.Refines.andThen {c : Outcome τ ι ε} {a : Outcome σ ω ε}
    {k : τ → Outcome τ ι ε} {l : σ → Outcome σ ω ε} (h : c.Refines Render R a)
    (hk : ∀ t s, R t s → (k t).Refines Render R (l s)) :
    (c.andThen k).Refines Render R (a.andThen l) := by
  obtain ⟨out, t, error⟩ := c
  obtain ⟨out', s, error'⟩ := a
  obtain ⟨hout, hstate, herror⟩ := h
  simp only at hout hstate herror
  subst herror
  cases error with
  | some e => exact ⟨hout, hstate, rfl⟩
  | none =>
      obtain ⟨hout', hstate', herror'⟩ := hk t s hstate
      exact ⟨hout.append hout', hstate', herror'⟩

/-- **Chunk-wise refinement lifts to runs**: a reader of chunks that refines a reader of
elements on every chunk refines it on every list of chunks. -/
theorem feedAll_refines {feed : σ → β → Outcome σ ω ε} {drain : τ → List β → Outcome τ ι ε}
    (h : ∀ t s chunk, R t s → (drain t chunk).Refines Render R (feedAll feed s chunk))
    {t : τ} {s : σ} (hts : R t s) (chunks : List (List β)) :
    (feedAll drain t chunks).Refines Render R (feedAll feed s chunks.flatten) := by
  induction chunks generalizing t s with
  | nil => exact Outcome.Refines.idle hts
  | cons chunk chunks ih =>
      rw [List.flatten_cons, feedAll_append, feedAll_cons]
      exact (h t s chunk hts).andThen fun t s hts => ih hts

end Incremental
