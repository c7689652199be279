import Mathlib.Data.List.Basic
import Mathlib.Order.Defs.PartialOrder
import Mathlib.Data.List.ReduceOption

/-!
# Finite runs of a state machine

A machine is a total step function `step : σ → ι → σ` over a state type and an input
type. A run is a start state with the list of its inputs.

* `run`: the state after the inputs.
* `Always step P`: `P` holds of every state of a run, the first and the last included.
* `Along step C`: every input of a run meets `C` in the state it arrives in.
* `run_invariant`, `Along.always`: the two induction rules. An invariant that the steps
  meeting `C` preserve holds in every state of a run whose steps all meet `C`.
* `always_iff_along`: when a step from a good state is good exactly if it meets `C`,
  the runs that stay good are exactly those whose steps all meet `C`.
* `run_cause`: a property that holds now and did not hold at the start was brought about
  by some step, and has held ever since.
* `run_filter`: an observation is replayed by the inputs that act on it.
* `pairwise_clock`: a clock that does not go back, where not every input gives the time.
-/

namespace CommandCenter.Library

variable {σ ι : Type*}

/-- The state after the inputs `xs`. -/
def run (step : σ → ι → σ) (s : σ) (xs : List ι) : σ := xs.foldl step s

/-- `P` holds of every state the run visits. -/
def Always (step : σ → ι → σ) (P : σ → Prop) : σ → List ι → Prop
  | s, [] => P s
  | s, x :: xs => P s ∧ Always step P (step s x) xs

/-- Every input of the run meets `C` in the state before it. -/
def Along (step : σ → ι → σ) (C : σ → ι → Prop) : σ → List ι → Prop
  | _, [] => True
  | s, x :: xs => C s x ∧ Along step C (step s x) xs

instance Along.decidable {step : σ → ι → σ} {C : σ → ι → Prop} [∀ s x, Decidable (C s x)]
    (s : σ) (xs : List ι) : Decidable (Along step C s xs) :=
  match xs with
  | [] => .isTrue trivial
  | x :: xs =>
    have : Decidable (Along step C (step s x) xs) := Along.decidable (step s x) xs
    instDecidableAnd

section Rules

variable {step : σ → ι → σ} {P Q J : σ → Prop} {C D : σ → ι → Prop}

@[simp] theorem run_nil (s : σ) : run step s [] = s := rfl

@[simp] theorem run_cons (s : σ) (x : ι) (xs : List ι) :
    run step s (x :: xs) = run step (step s x) xs := rfl

theorem run_append (s : σ) (xs ys : List ι) :
    run step s (xs ++ ys) = run step (run step s xs) ys := List.foldl_append

theorem run_take_succ (s : σ) {xs : List ι} {i : Nat} (hi : i < xs.length) :
    run step s (xs.take (i + 1)) = step (run step s (xs.take i)) xs[i] := by
  rw [List.take_add_one, List.getElem?_eq_getElem hi, run_append]
  rfl

/-- What is seen of a state, where an input either plays on it or leaves it as it is, is
what the inputs that play make of it. -/
theorem run_filter {τ : Type*} {see : σ → τ} {play : τ → ι → τ} {p : ι → Bool}
    (hstep : ∀ s x, see (step s x) = if p x then play (see s) x else see s) (s : σ)
    (xs : List ι) : see (run step s xs) = run play (see s) (xs.filter p) := by
  induction xs generalizing s with
  | nil => rfl
  | cons x xs ih =>
    rw [run_cons, ih, hstep, List.filter_cons]
    split
    · rfl
    · rfl

theorem along_of_forall {s : σ} {xs : List ι} (h : ∀ x ∈ xs, ∀ s, C s x) :
    Along step C s xs := by
  induction xs generalizing s with
  | nil => trivial
  | cons x xs ih => exact ⟨h x (by simp) s, ih fun y hy => h y (by simp [hy])⟩

/-- An invariant of every step holds after every run. -/
theorem run_invariant (hstep : ∀ s x, P s → P (step s x)) {s : σ} (h0 : P s)
    (xs : List ι) : P (run step s xs) := by
  induction xs generalizing s with
  | nil => exact h0
  | cons x xs ih => exact ih (hstep s x h0)

theorem Always.first {s : σ} {xs : List ι} (h : Always step P s xs) : P s := by
  cases xs with
  | nil => exact h
  | cons x xs => exact h.1

theorem Always.last {s : σ} {xs : List ι} (h : Always step P s xs) : P (run step s xs) := by
  induction xs generalizing s with
  | nil => exact h
  | cons x xs ih => exact ih h.2

theorem Always.take {s : σ} {xs : List ι} (h : Always step P s xs) (i : Nat) :
    P (run step s (xs.take i)) := by
  induction xs generalizing s i with
  | nil =>
    rw [List.take_nil]
    exact h
  | cons x xs ih =>
    cases i with
    | zero => exact h.1
    | succ i => exact ih h.2 i

theorem Always.imp (hPQ : ∀ s, P s → Q s) {s : σ} {xs : List ι} (h : Always step P s xs) :
    Always step Q s xs := by
  induction xs generalizing s with
  | nil => exact hPQ s h
  | cons x xs ih => exact ⟨hPQ s h.1, ih h.2⟩

theorem Always.append_right {s : σ} {xs ys : List ι} (h : Always step P s (xs ++ ys)) :
    Always step P (run step s xs) ys := by
  induction xs generalizing s with
  | nil => exact h
  | cons x xs ih => exact ih h.2

theorem Along.imp (hCD : ∀ s x, C s x → D s x) {s : σ} {xs : List ι} (h : Along step C s xs) :
    Along step D s xs := by
  induction xs generalizing s with
  | nil => trivial
  | cons x xs ih => exact ⟨hCD s x h.1, ih h.2⟩

theorem Along.and {s : σ} {xs : List ι} (h₁ : Along step C s xs) (h₂ : Along step D s xs) :
    Along step (fun s x => C s x ∧ D s x) s xs := by
  induction xs generalizing s with
  | nil => trivial
  | cons x xs ih => exact ⟨⟨h₁.1, h₂.1⟩, ih h₁.2 h₂.2⟩

theorem Along.get {s : σ} {xs : List ι} (h : Along step C s xs) {i : Nat}
    (hi : i < xs.length) : C (run step s (xs.take i)) xs[i] := by
  induction xs generalizing s i with
  | nil => cases hi
  | cons x xs ih =>
    cases i with
    | zero => exact h.1
    | succ i => exact ih h.2 (Nat.lt_of_succ_lt_succ hi)

/-- The invariant rule with a condition on the steps. -/
theorem Along.always (hstep : ∀ s x, P s → C s x → P (step s x)) {s : σ} (h0 : P s)
    {xs : List ι} (h : Along step C s xs) : Always step P s xs := by
  induction xs generalizing s with
  | nil => exact h0
  | cons x xs ih => exact ⟨h0, ih (hstep s x h0 h.1) h.2⟩

/-- The invariant rule for what a step shows by itself. -/
theorem Along.along (hJ : ∀ s x, J s → C s x → J (step s x))
    (hstep : ∀ s x, J s → C s x → D s x) {s : σ} (h0 : J s) {xs : List ι}
    (h : Along step C s xs) : Along step D s xs := by
  induction xs generalizing s with
  | nil => trivial
  | cons x xs ih => exact ⟨hstep s x h0 h.1, ih (hJ s x h0 h.1) h.2⟩

theorem Always.keeps (hstep : ∀ s x, P s → Q s → Q (step s x) → P (step s x)) {s : σ}
    (h0 : P s) {xs : List ι} (h : Always step Q s xs) : Always step P s xs := by
  induction xs generalizing s with
  | nil => exact h0
  | cons x xs ih => exact ⟨h0, ih (hstep s x h0 h.1 h.2.first) h.2⟩

/-- If `J` is an invariant and a step between `J`-states keeps `P` exactly when it meets
`C`, then `P` holds throughout exactly the runs whose steps all meet `C`. -/
theorem always_iff_along (hJ : ∀ s x, J s → J (step s x))
    (hstep : ∀ s x, J s → P s → (P (step s x) ↔ C s x)) {s : σ} (hJ0 : J s) (h0 : P s)
    (xs : List ι) : Always step P s xs ↔ Along step C s xs := by
  induction xs generalizing s with
  | nil => exact ⟨fun _ => trivial, fun _ => h0⟩
  | cons x xs ih =>
    constructor
    · rintro ⟨_, h⟩
      have hP : P (step s x) := h.first
      exact ⟨(hstep s x hJ0 h0).mp hP, (ih (hJ s x hJ0) hP).mp h⟩
    · rintro ⟨hC, h⟩
      have hP : P (step s x) := (hstep s x hJ0 h0).mpr hC
      exact ⟨h0, (ih (hJ s x hJ0) hP).mpr h⟩

/-- If only steps meeting `C` can make `P` true, then a state with `P` has behind it a step
meeting `C` since which `P` has held without a break. -/
theorem run_cause (hstep : ∀ s x, P (step s x) → P s ∨ C s x) {s : σ} (h0 : ¬ P s)
    {xs : List ι} {i : Nat} (hi : i ≤ xs.length) (hP : P (run step s (xs.take i))) :
    ∃ j, ∃ hj : j < i, C (run step s (xs.take j)) (xs.get ⟨j, Nat.lt_of_lt_of_le hj hi⟩) ∧
      ∀ k, j < k → k ≤ i → P (run step s (xs.take k)) := by
  induction i with
  | zero => exact absurd hP h0
  | succ i ih =>
    have hlast := hP
    rw [run_take_succ s hi] at hlast
    rcases hstep _ _ hlast with hbefore | hC
    · obtain ⟨j, hj, hCj, hsince⟩ := ih (by omega) hbefore
      refine ⟨j, by omega, hCj, fun k hjk hk => ?_⟩
      rcases Nat.lt_or_eq_of_le hk with hlt | rfl
      · exact hsince k hjk (by omega)
      · exact hP
    · refine ⟨i, by omega, hC, fun k hik hk => ?_⟩
      obtain rfl : k = i + 1 := by omega
      exact hP

end Rules

/-- Times that do not decrease go on so after an input that may give a time. -/
theorem pairwise_clock {T : Type*} [Preorder T] {t : T} {time : Option T} {times : List T}
    (h : (t :: (time.toList ++ times)).Pairwise (· ≤ ·)) :
    t ≤ time.getD t ∧ (time.getD t :: times).Pairwise (· ≤ ·) := by
  cases time with
  | none => exact ⟨le_refl t, h⟩
  | some now =>
    obtain ⟨hle, hordered⟩ := List.pairwise_cons.mp h
    exact ⟨hle now List.mem_cons_self, hordered⟩

end CommandCenter.Library

/-!
## Machines that answer, and simulation

A step that takes an input may also answer it: `step : σ → ι → ο × σ`. `answers` is what a
machine says along a run and `after` the state it ends in.

* `simulation`: a machine some of whose inputs are its own affair (`see` shows the client's
  input behind the others) answers its clients as another machine does, if a relation between
  their states is kept by every input, the client's inputs meeting `C`.
* `lockstep`: two machines that take the same inputs and answer them alike.
* `along_of_le`: a condition on every step from a bound on a quantity that never decreases.
-/

namespace CommandCenter.Library

variable {σ τ ι κ ο : Type*}

/-- The answers of a machine to the inputs `xs`, one for each. -/
def answers (step : σ → ι → ο × σ) : σ → List ι → List ο
  | _, [] => []
  | s, x :: xs => (step s x).1 :: answers step (step s x).2 xs

/-- The state of an answering machine after the inputs `xs`. -/
def after (step : σ → ι → ο × σ) (s : σ) (xs : List ι) : σ :=
  run (fun s x => (step s x).2) s xs

@[simp] theorem answers_nil (step : σ → ι → ο × σ) (s : σ) : answers step s [] = [] := rfl

@[simp] theorem answers_cons (step : σ → ι → ο × σ) (s : σ) (x : ι) (xs : List ι) :
    answers step s (x :: xs) = (step s x).1 :: answers step (step s x).2 xs := rfl

@[simp] theorem after_nil (step : σ → ι → ο × σ) (s : σ) : after step s [] = s := rfl

@[simp] theorem after_cons (step : σ → ι → ο × σ) (s : σ) (x : ι) (xs : List ι) :
    after step s (x :: xs) = after step (step s x).2 xs := rfl

theorem after_append (step : σ → ι → ο × σ) (s : σ) (xs ys : List ι) :
    after step s (xs ++ ys) = after step (after step s xs) ys := run_append s xs ys

theorem answers_concat (step : σ → ι → ο × σ) (s : σ) (xs : List ι) (x : ι) :
    answers step s (xs ++ [x]) = answers step s xs ++ [(step (after step s xs) x).1] := by
  induction xs generalizing s with
  | nil => rfl
  | cons y xs ih => exact congrArg _ (ih _)

/-- Two machines that take the same inputs. -/
def both {υ : Type*} (low : σ → ι → ο × σ) (high : τ → ι → υ × τ) (p : σ × τ) (x : ι) : σ × τ :=
  ((low p.1 x).2, (high p.2 x).2)

/-- Two machines in related states answer alike, if every input that meets `C` is answered alike and
keeps the relation. -/
theorem lockstep {low : σ → ι → ο × σ} {high : τ → ι → ο × τ} {R : σ → τ → Prop}
    {C : σ × τ → ι → Prop}
    (hstep : ∀ s t x, R s t → C (s, t) x →
      (low s x).1 = (high t x).1 ∧ R (low s x).2 (high t x).2)
    {s : σ} {t : τ} (h : R s t) {xs : List ι} (hC : Along (both low high) C (s, t) xs) :
    answers low s xs = answers high t xs ∧ R (after low s xs) (after high t xs) := by
  induction xs generalizing s t with
  | nil => exact ⟨rfl, h⟩
  | cons x xs ih =>
    obtain ⟨hanswer, hrel⟩ := hstep s t x h hC.1
    obtain ⟨hrest, hend⟩ := ih hrel hC.2
    rw [answers_cons, answers_cons, hanswer, hrest]
    exact ⟨rfl, hend⟩

section Simulation

variable {low : σ → ι → Option ο × σ} {high : τ → κ → ο × τ} {see : ι → Option κ}
  {R : σ → τ → Prop} {C : τ → κ → Prop}

/-- The two machines answer the client alike and end in related states. -/
theorem simulation
    (hseen : ∀ s t x c, R s t → see x = some c → C t c →
      (low s x).1 = some (high t c).1 ∧ R (low s x).2 (high t c).2)
    (hunseen : ∀ s t x, R s t → see x = none → (low s x).1 = none ∧ R (low s x).2 t)
    {s : σ} {t : τ} (h : R s t) {xs : List ι}
    (hC : Along (fun t c => (high t c).2) C t (xs.filterMap see)) :
    (answers low s xs).reduceOption = answers high t (xs.filterMap see) ∧
      R (after low s xs) (after high t (xs.filterMap see)) := by
  induction xs generalizing s t with
  | nil => exact ⟨rfl, h⟩
  | cons x xs ih =>
    cases hx : see x with
    | none =>
      obtain ⟨hanswer, hrel⟩ := hunseen s t x h hx
      rw [List.filterMap_cons_none hx] at hC ⊢
      obtain ⟨hrest, hend⟩ := ih hrel hC
      rw [answers_cons, hanswer, List.reduceOption_cons_of_none]
      exact ⟨hrest, hend⟩
    | some c =>
      rw [List.filterMap_cons_some hx] at hC ⊢
      obtain ⟨hanswer, hrel⟩ := hseen s t x c h hx hC.1
      obtain ⟨hrest, hend⟩ := ih hrel hC.2
      rw [answers_cons, answers_cons, hanswer, List.reduceOption_cons_of_some, hrest]
      exact ⟨rfl, hend⟩

end Simulation

section Bounds

variable {step : σ → ι → σ} (μ : σ → Nat) {n : Nat}

theorem le_run (hmono : ∀ s x, μ s ≤ μ (step s x)) (s : σ) (xs : List ι) :
    μ s ≤ μ (run step s xs) := by
  induction xs generalizing s with
  | nil => exact Nat.le_refl _
  | cons x xs ih => exact Nat.le_trans (hmono s x) (ih (step s x))

/-- A quantity that never decreases is within its final bound after every step. -/
theorem along_of_le (hmono : ∀ s x, μ s ≤ μ (step s x)) {s : σ} {xs : List ι}
    (h : μ (run step s xs) ≤ n) : Along step (fun s x => μ (step s x) ≤ n) s xs := by
  induction xs generalizing s with
  | nil => trivial
  | cons x xs ih => exact ⟨Nat.le_trans (le_run μ hmono (step s x) xs) h, ih h⟩

end Bounds

end CommandCenter.Library
