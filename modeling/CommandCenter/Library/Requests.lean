import Mathlib.Order.Basic

/-!
# Programs that make requests

An `Asking Q A α` is done with a value of type `α`, or makes a request `q : Q` and goes on with
the answer, of type `A q`. What the surroundings do between a request and the next is left open.

A `Watch` follows a program from outside: it notes each request with its answer, and says which
requests and which answers it counts on.

* `Asking.Keeps W post`: with the answers that `W` counts on, the program makes only requests
  that it counts on, and ends in a value with `post`.
* `Asking.keeps_bind`, `Asking.Keeps.mono`: the rules for composition and consequence.
* `Asking.Keeps.resume`: what holds of a program holds of the rest of it after an answer.
* `Asking.Within.bind`, `Asking.Within.ask`: the rules for programs that are not watched.
* `Asking.Within.follow`: what a program does by itself it does under a watch too.
* `Asking.Within.keeps`: what the requests of a program leave of the notes as it was, the program
  does.
* `Asking.eval_bind`, `Asking.requests_bind`: a program where the same is always answered the
  same, by its parts.
-/

namespace CommandCenter.Library

inductive Asking (Q : Type*) (A : Q → Type*) (α : Type*) where
  | done (value : α)
  | ask (q : Q) (next : A q → Asking Q A α)

/-- What is noted of the requests of a program, and counted on. -/
structure Watch (Q : Type*) (A : Q → Type*) (σ : Type*) where
  note : σ → (q : Q) → A q → σ
  asks : σ → Q → Prop
  answers : σ → (q : Q) → A q → Prop

namespace Asking

universe u

variable {Q : Type*} {A : Q → Type*} {α β : Type u} {σ : Type*}

def request (q : Q) : Asking Q A (A q) := .ask q .done

/-- Go on with the value of a program. -/
def bind : Asking Q A α → (α → Asking Q A β) → Asking Q A β
  | .done value, f => f value
  | .ask q next, f => .ask q fun answer => (next answer).bind f

instance : Monad (Asking Q A) where
  pure := .done
  bind := bind

/-- The value of a program whose requests have these answers, one after the other. -/
def eval (answers : Nat → (q : Q) → A q) : Asking Q A α → α
  | .done value => value
  | .ask q next => (next (answers 0 q)).eval fun n => answers (n + 1)

/-- A value made of the value of a program. -/
theorem eval_bind_pure {x : Asking Q A α} {f : α → β} {answers : Nat → (q : Q) → A q} :
    (x >>= fun value => pure (f value)).eval answers = f (x.eval answers) := by
  show (x.bind _).eval answers = _
  induction x generalizing answers with
  | done value => rfl
  | ask q next ih => exact ih (answers 0 q)

def requests (answers : Nat → (q : Q) → A q) : Asking Q A α → List Q
  | .done _ => []
  | .ask q next => q :: (next (answers 0 q)).requests fun n => answers (n + 1)

/-- With the answers counted on, the requests are ones counted on and the value has `post`. -/
def Keeps (W : Watch Q A σ) (post : α → σ → Prop) : Asking Q A α → σ → Prop
  | .done value, notes => post value notes
  | .ask q next, notes => W.asks notes q ∧
      ∀ answer, W.answers notes q answer → (next answer).Keeps W post (W.note notes q answer)

variable {W : Watch Q A σ} {post post' : α → σ → Prop} {notes : σ}

@[simp] theorem keeps_done {value : α} :
    (done value : Asking Q A α).Keeps W post notes ↔ post value notes := Iff.rfl

@[simp] theorem keeps_pure {value : α} :
    (pure value : Asking Q A α).Keeps W post notes ↔ post value notes := Iff.rfl

@[simp] theorem keeps_ask {q : Q} {next : A q → Asking Q A α} :
    (ask q next).Keeps W post notes ↔ W.asks notes q ∧
      ∀ answer, W.answers notes q answer → (next answer).Keeps W post (W.note notes q answer) :=
  Iff.rfl

@[simp] theorem keeps_request {q : Q} {W : Watch Q A σ} {post : A q → σ → Prop} {notes : σ} :
    (request q : Asking Q A (A q)).Keeps W post notes ↔ W.asks notes q ∧
      ∀ answer, W.answers notes q answer → post answer (W.note notes q answer) := Iff.rfl

/-- The rule for composition. -/
@[simp] theorem keeps_bind {x : Asking Q A α} {f : α → Asking Q A β} {post : β → σ → Prop} :
    (x >>= f).Keeps W post notes ↔
      x.Keeps W (fun value notes => (f value).Keeps W post notes) notes := by
  show (x.bind f).Keeps W post notes ↔ _
  induction x generalizing notes with
  | done value => rfl
  | ask q next ih =>
    constructor
    · rintro ⟨hasks, hnext⟩
      exact ⟨hasks, fun answer hanswer => (ih answer).mp (hnext answer hanswer)⟩
    · rintro ⟨hasks, hnext⟩
      exact ⟨hasks, fun answer hanswer => (ih answer).mpr (hnext answer hanswer)⟩

/-- The rule for branches. -/
theorem keeps_ite {p : Prop} [Decidable p] {x y : Asking Q A α} (hx : p → x.Keeps W post notes)
    (hy : ¬ p → y.Keeps W post notes) : (if p then x else y).Keeps W post notes := by
  by_cases h : p
  · rw [if_pos h]
    exact hx h
  · rw [if_neg h]
    exact hy h

/-- The rule of consequence. -/
theorem Keeps.mono {x : Asking Q A α} (h : x.Keeps W post notes)
    (hpost : ∀ value notes, post value notes → post' value notes) : x.Keeps W post' notes := by
  induction x generalizing notes with
  | done value => exact hpost value notes h
  | ask q next ih =>
    exact ⟨h.1, fun answer hanswer => ih answer (h.2 answer hanswer)⟩

theorem Keeps.and {x : Asking Q A α} (h : x.Keeps W post notes) (h' : x.Keeps W post' notes) :
    x.Keeps W (fun value notes => post value notes ∧ post' value notes) notes := by
  induction x generalizing notes with
  | done value => exact ⟨h, h'⟩
  | ask q next ih =>
    refine ⟨h.1, fun answer hanswer => ?_⟩
    exact ih answer (h.2 answer hanswer) (h'.2 answer hanswer)

theorem Keeps.resume {q : Q} {next : A q → Asking Q A α} (h : (ask q next).Keeps W post notes)
    {answer : A q} (hanswer : W.answers notes q answer) :
    (next answer).Keeps W post (W.note notes q answer) := h.2 answer hanswer

end Asking

/-! ## Requests that do not matter -/

namespace Watch

variable {Q : Type*}

/-- Notes nothing; the requests are those with `p`, the answers any. -/
def only (A : Q → Type*) (p : Q → Prop) : Watch Q A Unit where
  note _ _ _ := ()
  asks _ q := p q
  answers _ _ _ := True

end Watch

namespace Asking

universe u

variable {Q : Type*} {A : Q → Type*} {α β : Type u} {σ : Type*} {W : Watch Q A σ}

/-- The program makes only requests with `p` and ends in a value with `post`. -/
abbrev Within (p : Q → Prop) (post : α → Prop) (x : Asking Q A α) : Prop :=
  x.Keeps (Watch.only A p) (fun value _ => post value) ()

theorem Within.imp {p p' : Q → Prop} {post : α → Prop} {x : Asking Q A α} (h : x.Within p post)
    (hp : ∀ q, p q → p' q) : x.Within p' post := by
  induction x with
  | done value => exact h
  | ask q next ih => exact ⟨hp q h.1, fun answer _ => ih answer (h.2 answer trivial)⟩

theorem Keeps.within {x : Asking Q A α} {post : α → σ → Prop} {notes : σ}
    (h : x.Keeps W post notes) {p : Q → Prop} {post' : α → Prop} (h' : x.Within p post') :
    x.Keeps W (fun value notes => post value notes ∧ post' value) notes := by
  induction x generalizing notes with
  | done value => exact ⟨h, h'⟩
  | ask q next ih =>
    refine ⟨h.1, fun answer hanswer => ?_⟩
    exact ih answer (h.2 answer hanswer) (h'.2 answer trivial)

/-- Whatever is asked for. -/
theorem Within.any {p : Q → Prop} {post : α → Prop} {x : Asking Q A α} (h : x.Within p post) :
    x.Within (fun _ => True) post := h.imp fun _ _ => trivial

/-- One program after another. -/
theorem Within.bind {p : Q → Prop} {post : α → Prop} {post' : β → Prop} {x : Asking Q A α}
    {f : α → Asking Q A β} (hx : x.Within p post)
    (hf : ∀ value, post value → (f value).Within p post') : (x >>= f).Within p post' :=
  keeps_bind.mpr (hx.mono fun value _ hvalue => hf value hvalue)

/-- One request, and a program after it. -/
theorem Within.ask {p : Q → Prop} {q : Q} {A : Q → Type u} {post' : β → Prop}
    {f : A q → Asking Q A β} (hq : p q) (hf : ∀ answer, (f answer).Within p post') :
    (request q >>= f).Within p post' := ⟨hq, fun answer _ => hf answer⟩

/-- What holds of a program for itself holds under any watch that counts on its requests. -/
theorem Within.follow {p : Q → Prop} {post : α → Prop} {x : Asking Q A α} (h : x.Within p post)
    {notes : σ} (hasks : ∀ notes q, p q → W.asks notes q) :
    x.Keeps W (fun value _ => post value) notes := by
  induction x generalizing notes with
  | done value => exact h
  | ask q next ih => exact ⟨hasks notes q h.1, fun answer _ => ih answer (h.2 answer trivial)⟩

/-- What the requests leave of the notes as it is, they leave so to the end. -/
theorem Within.keeps {τ : Type*} (f : σ → τ) {p : Q → Prop} {post : α → Prop} {x : Asking Q A α}
    (h : x.Within p post) {notes : σ}
    (hnote : ∀ notes q answer, p q → f (W.note notes q answer) = f notes)
    (hasks : ∀ notes' q, f notes' = f notes → p q → W.asks notes' q) :
    x.Keeps W (fun value notes' => post value ∧ f notes' = f notes) notes := by
  induction x generalizing notes with
  | done value => exact ⟨h, rfl⟩
  | ask q next ih =>
    refine ⟨hasks notes q rfl h.1, fun answer _ => ?_⟩
    have hsame := hnote notes q answer h.1
    rw [← hsame]
    refine ih answer (h.2 answer trivial) fun notes' q' hnotes' => hasks notes' q' ?_
    rw [hnotes', hsame]

/-! ## The same request answered the same -/

section Answered

variable {answer : (q : Q) → A q}

@[simp] theorem eval_pure {value : α} :
    (pure value : Asking Q A α).eval (fun _ => answer) = value := rfl

@[simp] theorem eval_request {A : Q → Type u} {answer : (q : Q) → A q} {q : Q} :
    (request q : Asking Q A (A q)).eval (fun _ => answer) = answer q := rfl

@[simp] theorem eval_bind {x : Asking Q A α} {f : α → Asking Q A β} :
    (x >>= f).eval (fun _ => answer) =
      (f (x.eval fun _ => answer)).eval fun _ => answer := by
  show (x.bind f).eval _ = _
  induction x with
  | done value => rfl
  | ask q next ih => exact ih (answer q)

@[simp] theorem requests_pure {value : α} :
    (pure value : Asking Q A α).requests (fun _ => answer) = [] := rfl

@[simp] theorem requests_request {A : Q → Type u} {answer : (q : Q) → A q} {q : Q} :
    (request q : Asking Q A (A q)).requests (fun _ => answer) = [q] := rfl

@[simp] theorem requests_bind {x : Asking Q A α} {f : α → Asking Q A β} :
    (x >>= f).requests (fun _ => answer) = x.requests (fun _ => answer) ++
      (f (x.eval fun _ => answer)).requests fun _ => answer := by
  show (x.bind f).requests _ = _
  induction x with
  | done value => rfl
  | ask q next ih =>
    show q :: ((next (answer q)).bind f).requests (fun _ => answer) = _
    rw [ih (answer q)]
    rfl

end Answered

end Asking

end CommandCenter.Library
