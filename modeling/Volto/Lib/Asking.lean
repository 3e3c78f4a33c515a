import Mathlib.Data.List.Induction

/-!
# Programs That Ask

A program as the tree of what it asks of its surroundings: it is done, or it asks a question and
goes on in a way that depends on the answer. Who answers is left open, so that several programs can
be run against one shared state, a question at a time and in any order.

What is known to a program is a state of its own, to which each question adds with its answer. A
program keeps a rule when each question it comes to is one that the rule allows for what is then
known, whatever the answers are.

## Main results

* `keeps_bind`, `Keeps.mono`: the rules for a sequence of programs.
* `Sound.answer`: a run that has kept the rule so far goes on keeping it.
-/

/-- A program that asks questions and goes on with their answers. -/
inductive Asking (Q : Type) (A : Q → Type) (α : Type)
  | done (value : α)
  | ask (question : Q) (next : A question → Asking Q A α)

namespace Asking

variable {Q : Type} {A : Q → Type} {α β σ : Type}

/-- One program goes on with what another one gives. -/
def bind : Asking Q A α → (α → Asking Q A β) → Asking Q A β
  | done value, f => f value
  | ask question next, f => .ask question fun answer => (next answer).bind f

/-- Programs are composed one behind the other. -/
instance : Monad (Asking Q A) where
  pure := done
  bind := bind

/-- One question. -/
def question (q : Q) : Asking Q A (A q) :=
  .ask q .done

/-! ### Rules -/

section

variable (note : σ → (q : Q) → A q → σ) (may : σ → Q → Prop)

/-- **A program keeps a rule**: `may` says what may be asked, for what is known, and `post` what
holds at the end. -/
def Keeps (post : σ → α → Prop) : σ → Asking Q A α → Prop
  | known, done value => post known value
  | known, ask q next => may known q ∧ ∀ answer, Keeps post (note known q answer) (next answer)

variable {note may} {post post' : σ → α → Prop} {known : σ}

/-- A program that is over keeps the rule if its value does. -/
@[simp] theorem keeps_pure {value : α} :
    Keeps note may post known (pure value) ↔ post known value := Iff.rfl

/-- One question keeps the rule if it may be asked and every answer will do. -/
@[simp] theorem keeps_question {q : Q} {post : σ → A q → Prop} :
    Keeps note may post known (question q) ↔
      may known q ∧ ∀ answer, post (note known q answer) answer := Iff.rfl

/-- **In a sequence** the first program ends in what the second starts from. -/
theorem keeps_bind {post : σ → β → Prop} {p : Asking Q A α} {f : α → Asking Q A β} :
    Keeps note may post known (p >>= f) ↔
      Keeps note may (fun known value => Keeps note may post known (f value)) known p := by
  induction p generalizing known with
  | done value => exact Iff.rfl
  | ask q next ih => exact and_congr_right fun _ => forall_congr' fun answer => ih answer

/-- A question keeps the rule if the program behind every answer does. -/
theorem keeps_question_bind {post : σ → β → Prop} {q : Q} {f : A q → Asking Q A β} :
    Keeps note may post known (question q >>= f) ↔
      may known q ∧ ∀ answer, Keeps note may post (note known q answer) (f answer) := by
  rw [keeps_bind, keeps_question]

/-- A rule with a weaker end is kept too. -/
theorem Keeps.mono (hpost : ∀ known value, post known value → post' known value)
    {p : Asking Q A α} (h : Keeps note may post known p) : Keeps note may post' known p := by
  induction p generalizing known with
  | done value => exact hpost known value h
  | ask q next ih => exact ⟨h.1, fun answer => ih answer (h.2 answer)⟩

/-- **A program, and what comes after it.** -/
theorem Keeps.bind {post : σ → α → Prop} {post' : σ → β → Prop} {p : Asking Q A α}
    {f : α → Asking Q A β} (h : Keeps note may post known p)
    (hnext : ∀ known value, post known value → Keeps note may post' known (f value)) :
    Keeps note may post' known (p >>= f) :=
  keeps_bind.mpr (h.mono hnext)

end

/-! ### Runs -/

/-- A program that is being run: what it has asked, with the answers, and what is left of it. -/
structure Progress (Q : Type) (A : Q → Type) (α : Type) where
  asked : List (Σ q, A q)
  rest : Asking Q A α

/-- What is known after some questions and answers. -/
def learn (note : σ → (q : Q) → A q → σ) (known : σ) (asked : List (Σ q, A q)) : σ :=
  asked.foldl (fun known entry => note known entry.1 entry.2) known

variable {note : σ → (q : Q) → A q → σ} {may : σ → Q → Prop} {post : σ → α → Prop} {known : σ}

/-- Nothing asked is nothing learned. -/
@[simp] theorem learn_nil : learn note known [] = known := rfl

/-- The last answer is learned last. -/
@[simp] theorem learn_concat (asked : List (Σ q, A q)) (q : Q) (answer : A q) :
    learn note known (asked ++ [⟨q, answer⟩]) = note (learn note known asked) q answer := by
  simp [learn]

/-- **A run that has kept a rule**: each of its questions was allowed when it was asked, and what is
left keeps the rule too. -/
structure Sound (note : σ → (q : Q) → A q → σ) (may : σ → Q → Prop) (post : σ → α → Prop)
    (known : σ) (p : Progress Q A α) : Prop where
  allowed : ∀ front q answer back, p.asked = front ++ ⟨q, answer⟩ :: back →
    may (learn note known front) q
  keeps : Keeps note may post (learn note known p.asked) p.rest

/-- A program that keeps the rule is sound before its first question. -/
theorem sound_start {program : Asking Q A α} (h : Keeps note may post known program) :
    Sound note may post known ⟨[], program⟩ where
  allowed front q answer back heq := by simp at heq
  keeps := h

variable {asked : List (Σ q, A q)} {q : Q} {next : A q → Asking Q A α}

/-- The question that comes next is allowed. -/
theorem Sound.allowed_next (h : Sound note may post known ⟨asked, .ask q next⟩) :
    may (learn note known asked) q :=
  h.keeps.1

/-- **One more answer.** -/
theorem Sound.answer (h : Sound note may post known ⟨asked, .ask q next⟩) (answer : A q) :
    Sound note may post known ⟨asked ++ [⟨q, answer⟩], next answer⟩ where
  allowed front q' answer' back heq := by
    rcases List.eq_nil_or_concat back with rfl | ⟨back, last, rfl⟩
    · obtain ⟨rfl, hlast⟩ := List.append_inj' heq rfl
      cases (List.cons.inj hlast).1
      exact h.allowed_next
    · rw [List.concat_eq_append, ← List.cons_append, ← List.append_assoc] at heq
      exact h.allowed front q' answer' back (List.append_inj' heq rfl).1
  keeps := by
    rw [learn_concat]
    exact h.keeps.2 answer

/-- **What every allowed question keeps** is known at every point of a sound run. -/
theorem Sound.invariant {p : Progress Q A α} (h : Sound note may post known p) {P : σ → Prop}
    (hknown : P known)
    (hstep : ∀ known q answer, P known → may known q → P (note known q answer)) :
    P (learn note known p.asked) := by
  have hfront : ∀ front back, p.asked = front ++ back → P (learn note known front) := by
    intro front
    induction front using List.reverseRecOn with
    | nil => exact fun _ _ => hknown
    | append_singleton front entry ih =>
        intro back heq
        rw [List.append_assoc] at heq
        rw [learn_concat]
        exact hstep _ _ _ (ih _ heq) (h.allowed front entry.1 entry.2 back heq)
  exact hfront p.asked [] (List.append_nil _).symm

/-- What holds at the end. -/
theorem Sound.ends {value : α} (h : Sound note may post known ⟨asked, .done value⟩) :
    post (learn note known asked) value :=
  h.keeps

end Asking
