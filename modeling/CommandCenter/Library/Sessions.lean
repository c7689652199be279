import Mathlib.Logic.Function.Basic
import CommandCenter.Library.Requests
import CommandCenter.Library.Run

/-!
# Sessions over a shared state

A service handles the inputs of any number of sessions by programs. Between one request of a
program and the next, anything may happen to the state that the sessions share.

A `Promise` is an invariant of a session and what it has done, with what its programs may ask for
and say.

* `Service.step_turn`: a session that is answered goes on, and the others stay as they are.
* `Service.step_node`, `Service.step_asked`: what changes the shared state, and what is noted.
* `Promise.Sound.step`, `Promise.Sound.run`: if each handler keeps the promise, every session does
  in every run.
* `Promise.Kept.asking`: so what a session asks for, it may ask for.
-/

namespace CommandCenter.Library

/-- Sessions that handle their inputs by programs, over a state that they share. -/
structure Service (S I : Type) {Q : Type} (A : Q → Type) (O N X E : Type) where
  accepts : S → I → Bool
  /-- What a session says in the end, and the session after it, if it goes on. -/
  handle : S → I → Asking Q A (O × Option S)
  answer : N → X → (q : Q) → A q × N
  moves : N → E → N

inductive Deed (I : Type) {Q : Type} (A : Q → Type) (O : Type) where
  | took (input : I)
  | asked (q : Q) (answer : A q)
  | said (out : O)

inductive Session (S : Type) {Q : Type} (A : Q → Type) (O : Type) where
  | idle (s : S)
  | busy (rest : Asking Q A (O × Option S))
  | ended

/-- A shared state with its sessions, and what they have done. -/
structure World (ι S I : Type) {Q : Type} (A : Q → Type) (O N : Type) where
  node : N
  sessions : ι → Session S A O
  log : List (ι × Deed I A O)

section Deeds

variable {ι I Q : Type} [DecidableEq ι] {A : Q → Type} {O : Type}

def deeds (log : List (ι × Deed I A O)) (i : ι) : List (Deed I A O) :=
  log.filterMap fun entry => if entry.1 = i then some entry.2 else none

@[simp] theorem deeds_self (log : List (ι × Deed I A O)) (i : ι) (deed : Deed I A O) :
    deeds (log ++ [(i, deed)]) i = deeds log i ++ [deed] := by
  simp [deeds, List.filterMap_append]

theorem deeds_of_ne (log : List (ι × Deed I A O)) {i j : ι} (h : j ≠ i) (deed : Deed I A O) :
    deeds (log ++ [(i, deed)]) j = deeds log j := by
  simp [deeds, List.filterMap_append, Ne.symm h]

theorem mem_deeds {log : List (ι × Deed I A O)} {i : ι} {deed : Deed I A O} :
    deed ∈ deeds log i ↔ (i, deed) ∈ log := by
  simp [deeds]

/-- What a session did is spread over the log. -/
theorem deeds_eq_append_cons {log : List (ι × Deed I A O)} {i : ι} {before : List (Deed I A O)}
    {deed : Deed I A O} {after : List (Deed I A O)} (h : deeds log i = before ++ deed :: after) :
    ∃ earlier since, log = earlier ++ (i, deed) :: since ∧ deeds since i = after := by
  obtain ⟨l₁, l₂, rfl, -, htail⟩ := List.filterMap_eq_append_iff.mp h
  obtain ⟨l₃, entry, since, rfl, -, hentry, hsince⟩ := List.filterMap_eq_cons_iff.mp htail
  refine ⟨l₁ ++ l₃, since, ?_, hsince⟩
  obtain ⟨j, deed'⟩ := entry
  by_cases hj : j = i
  · rw [if_pos hj] at hentry
    obtain rfl := Option.some.inj hentry
    rw [hj, List.append_assoc]
  · rw [if_neg hj] at hentry
    cases hentry

end Deeds

namespace Service

/-- Something that happens to a service. -/
inductive Event (ι I X E : Type) where
  | input (i : ι) (input : I)
  | turn (i : ι) (outside : X)
  | hangUp (i : ι)
  | other (event : E)

variable {ι S I Q : Type} [DecidableEq ι] {A : Q → Type} {O N X E : Type}

/-- The session goes on with the rest of its program. -/
def settle (w : World ι S I A O N) (i : ι) :
    Asking Q A (O × Option S) → World ι S I A O N
  | .done (out, s) =>
    { w with
      sessions := Function.update w.sessions i (s.elim .ended .idle)
      log := w.log ++ [(i, .said out)] }
  | .ask q next => { w with sessions := Function.update w.sessions i (.busy (.ask q next)) }

/-- Something that a session did is noted. -/
def note (w : World ι S I A O N) (i : ι) (deed : Deed I A O) : World ι S I A O N :=
  { w with log := w.log ++ [(i, deed)] }

variable (V : Service S I A O N X E)

def step (w : World ι S I A O N) : Event ι I X E → World ι S I A O N
  | .input i input =>
    match w.sessions i with
    | .idle s =>
      if V.accepts s input then settle (note w i (.took input)) i (V.handle s input)
      else { w with sessions := Function.update w.sessions i .ended }
    | .busy _ | .ended => w
  | .turn i outside =>
    match w.sessions i with
    | .busy (.ask q next) =>
      let (answer, node) := V.answer w.node outside q
      settle (note { w with node } i (.asked q answer)) i (next answer)
    | .idle _ | .busy (.done _) | .ended => w
  | .hangUp i =>
    match w.sessions i with
    | .idle _ => { w with sessions := Function.update w.sessions i .ended }
    | .busy _ | .ended => w
  | .other event => { w with node := V.moves w.node event }

def asking (w : World ι S I A O N) (i : ι) : Option Q :=
  match w.sessions i with
  | .busy (.ask q _) => some q
  | .idle _ | .busy (.done _) | .ended => none

/-- Sessions that have yet to do something. -/
def new (node : N) (s : S) : World ι S I A O N := ⟨node, fun _ => .idle s, []⟩

variable {w : World ι S I A O N} {i j : ι}

@[simp] theorem settle_node (rest : Asking Q A (O × Option S)) :
    (settle w i rest).node = w.node := by
  cases rest <;> rfl

theorem settle_log (rest : Asking Q A (O × Option S)) :
    ∃ tail, (settle w i rest).log = w.log ++ tail ∧
      ∀ entry ∈ tail, ∃ out, entry = (i, .said out) := by
  cases rest with
  | done r => exact ⟨[(i, .said r.1)], rfl, fun entry h => ⟨r.1, List.mem_singleton.mp h⟩⟩
  | ask q next => exact ⟨[], (List.append_nil _).symm, fun _ h => nomatch h⟩

theorem settle_of_ne (rest : Asking Q A (O × Option S)) (h : j ≠ i) :
    (settle w i rest).sessions j = w.sessions j ∧
      deeds (settle w i rest).log j = deeds w.log j := by
  cases rest with
  | done r => exact ⟨Function.update_of_ne h _ _, deeds_of_ne _ h _⟩
  | ask q next => exact ⟨Function.update_of_ne h _ _, rfl⟩

/-- A session that is answered notes the answer and goes on. -/
theorem step_turn {q : Q} (h : asking w i = some q) (outside : X) :
    ∃ next, w.sessions i = .busy (.ask q next) ∧ V.step w (.turn i outside) =
      settle (note { w with node := (V.answer w.node outside q).2 } i
        (.asked q (V.answer w.node outside q).1)) i (next (V.answer w.node outside q).1) := by
  unfold asking at h
  cases hsession : w.sessions i with
  | busy rest =>
    cases rest with
    | ask q' next =>
      rw [hsession] at h
      obtain rfl := Option.some.inj h
      refine ⟨next, rfl, ?_⟩
      rw [step, hsession]
    | done r =>
      rw [hsession] at h
      cases h
  | idle s | ended =>
    rw [hsession] at h
    cases h

/-- A session that waits for nothing is not answered. -/
theorem step_turn_none (h : asking w i = none) (outside : X) : V.step w (.turn i outside) = w := by
  unfold asking at h
  rw [step]
  cases hsession : w.sessions i with
  | busy rest =>
    cases rest with
    | ask q' next =>
      rw [hsession] at h
      cases h
    | done r => rfl
  | idle s | ended => rfl

/-- The shared state changes where a request is answered, or by itself. -/
theorem step_node (event : Event ι I X E) : (V.step w event).node = w.node ∨
    (∃ i outside q, event = .turn i outside ∧ asking w i = some q ∧
      (V.step w event).node = (V.answer w.node outside q).2) ∨
    ∃ e, event = .other e ∧ (V.step w event).node = V.moves w.node e := by
  cases event with
  | input i input =>
    refine .inl ?_
    rw [step]
    split
    · split
      · exact settle_node _
      · rfl
    · rfl
    · rfl
  | turn i outside =>
    cases hq : asking w i with
    | none => exact .inl (congrArg World.node (V.step_turn_none hq outside))
    | some q =>
      obtain ⟨next, -, hstep⟩ := V.step_turn hq outside
      refine .inr (.inl ⟨i, outside, q, rfl, hq, ?_⟩)
      rw [hstep, settle_node]
      rfl
  | hangUp i =>
    refine .inl ?_
    rw [step]
    split <;> rfl
  | other e => exact .inr (.inr ⟨e, rfl, rfl⟩)

theorem step_log (event : Event ι I X E) : ∃ tail, (V.step w event).log = w.log ++ tail ∧
    ∀ i q answer, (i, .asked q answer) ∈ tail → ∃ outside, event = .turn i outside ∧
      asking w i = some q ∧ answer = (V.answer w.node outside q).1 := by
  have hsame (hlog : (V.step w event).log = w.log) : ∃ tail, (V.step w event).log = w.log ++ tail ∧
      ∀ i q answer, (i, .asked q answer) ∈ tail → ∃ outside, event = .turn i outside ∧
        asking w i = some q ∧ answer = (V.answer w.node outside q).1 :=
    ⟨[], by rw [hlog, List.append_nil], fun _ _ _ h => nomatch h⟩
  cases event with
  | input j input =>
    cases hsession : w.sessions j with
    | busy rest | ended =>
      apply hsame
      rw [step, hsession]
    | idle s =>
      by_cases haccepts : V.accepts s input = true
      · obtain ⟨tail, hlog, htail⟩ :=
          settle_log (w := note w j (.took input)) (i := j) (V.handle s input)
        refine ⟨(j, .took input) :: tail, ?_, fun i q answer h => ?_⟩
        · rw [step, hsession]
          dsimp only
          rw [if_pos haccepts, hlog]
          exact List.append_assoc _ _ _
        · rcases List.mem_cons.mp h with h | h
          · cases h
          · obtain ⟨out, hout⟩ := htail _ h
            cases hout
      · apply hsame
        rw [step, hsession]
        dsimp only
        rw [if_neg haccepts]
  | turn j outside =>
    cases hq : asking w j with
    | none => exact hsame (congrArg World.log (V.step_turn_none hq outside))
    | some q' =>
      obtain ⟨next, -, hstep⟩ := V.step_turn hq outside
      obtain ⟨tail, hlog, htail⟩ := settle_log
        (w := note { w with node := (V.answer w.node outside q').2 } j
          (.asked q' (V.answer w.node outside q').1)) (i := j)
        (next (V.answer w.node outside q').1)
      refine ⟨(j, .asked q' (V.answer w.node outside q').1) :: tail, ?_, fun i q answer h => ?_⟩
      · rw [hstep, hlog]
        exact List.append_assoc _ _ _
      · rcases List.mem_cons.mp h with h | h
        · cases h
          exact ⟨outside, rfl, hq, rfl⟩
        · obtain ⟨out, hout⟩ := htail _ h
          cases hout
  | hangUp j =>
    apply hsame
    rw [step]
    split <;> rfl
  | other e => exact hsame rfl

/-- A request that is noted was noted before, or it is answered now. -/
theorem step_asked {event : Event ι I X E} {q : Q} {answer : A q}
    (h : (i, .asked q answer) ∈ (V.step w event).log) : (i, .asked q answer) ∈ w.log ∨
      ∃ outside, event = .turn i outside ∧ asking w i = some q ∧
        answer = (V.answer w.node outside q).1 := by
  obtain ⟨tail, hlog, htail⟩ := V.step_log (w := w) event
  rw [hlog, List.mem_append] at h
  exact h.imp_right (htail i q answer)

/-- An answer is noted. -/
theorem asked_step {q : Q} (h : asking w i = some q) (outside : X) :
    ∃ tail, (V.step w (.turn i outside)).log =
      w.log ++ (i, .asked q (V.answer w.node outside q).1) :: tail := by
  obtain ⟨next, -, hstep⟩ := V.step_turn h outside
  obtain ⟨tail, hlog, -⟩ := settle_log
    (w := note { w with node := (V.answer w.node outside q).2 } i
      (.asked q (V.answer w.node outside q).1)) (i := i) (next (V.answer w.node outside q).1)
  refine ⟨tail, ?_⟩
  rw [hstep, hlog]
  exact List.append_assoc _ _ _

end Service

/-! ## Promises -/

/-- An invariant of sessions between two inputs, and what their programs may ask for and say. -/
structure Promise (S I : Type) {Q : Type} (A : Q → Type) (O : Type) where
  asks : List (Deed I A O) → Q → Prop
  tells : List (Deed I A O) → O → Prop
  inv : S → List (Deed I A O) → Prop

namespace Promise

variable {ι S I Q : Type} [DecidableEq ι] {A : Q → Type} {O N X E : Type}

/-- All that a session does is noted. -/
def watch (P : Promise S I A O) : Watch Q A (List (Deed I A O)) where
  note log q answer := log ++ [.asked q answer]
  asks := P.asks
  answers _ _ _ := True

def Handled (P : Promise S I A O) (r : O × Option S) (log : List (Deed I A O)) : Prop :=
  P.tells log r.1 ∧ ∀ s ∈ r.2, P.inv s (log ++ [.said r.1])

def Holds (P : Promise S I A O) : Session S A O → List (Deed I A O) → Prop
  | .idle s, log => P.inv s log
  | .busy rest, log => rest.Keeps P.watch P.Handled log
  | .ended, _ => True

/-- What a session that has done this much may do. -/
def Allows (P : Promise S I A O) (log : List (Deed I A O)) : Deed I A O → Prop
  | .took _ => True
  | .asked q _ => P.asks log q
  | .said out => P.tells log out

/-- All that a session did, it was allowed to. -/
def Noted (P : Promise S I A O) (log : List (Deed I A O)) : Prop :=
  ∀ before deed, before ++ [deed] <+: log → P.Allows before deed

/-- Every session keeps the promise. -/
def Kept (P : Promise S I A O) (w : World ι S I A O N) : Prop :=
  ∀ i, P.Holds (w.sessions i) (deeds w.log i) ∧ P.Noted (deeds w.log i)

/-- Every handler keeps the promise. -/
def Sound (P : Promise S I A O) (V : Service S I A O N X E) : Prop :=
  ∀ s log input, P.inv s log → V.accepts s input = true →
    (V.handle s input).Keeps P.watch P.Handled (log ++ [.took input])

variable {P : Promise S I A O} {V : Service S I A O N X E} {w : World ι S I A O N} {i : ι}

theorem Noted.append {log : List (Deed I A O)} (h : P.Noted log) {deed : Deed I A O}
    (hdeed : P.Allows log deed) : P.Noted (log ++ [deed]) := by
  intro before deed' hprefix
  rcases List.prefix_concat_iff.mp hprefix with heq | hprefix
  · obtain ⟨rfl, hlast⟩ := List.append_inj' heq rfl
    rw [List.singleton_inj.mp hlast]
    exact hdeed
  · exact h before deed' hprefix

theorem kept_settle {rest : Asking Q A (O × Option S)} (h : ∀ j ≠ i,
      P.Holds (w.sessions j) (deeds w.log j) ∧ P.Noted (deeds w.log j))
    (hrest : rest.Keeps P.watch P.Handled (deeds w.log i)) (hnoted : P.Noted (deeds w.log i)) :
    P.Kept (Service.settle w i rest) := by
  intro j
  by_cases hj : j = i
  · subst hj
    cases rest with
    | done r =>
      obtain ⟨out, s⟩ := r
      simp only [Service.settle, Function.update_self, deeds_self]
      refine ⟨?_, hnoted.append hrest.1⟩
      cases s with
      | none => trivial
      | some s => exact hrest.2 s rfl
    | ask q next =>
      simp only [Service.settle, Function.update_self]
      exact ⟨hrest, hnoted⟩
  · obtain ⟨hsession, hlog⟩ := Service.settle_of_ne rest hj
    rw [hsession, hlog]
    exact h j hj

/-- What a session waits for, it may ask for. -/
theorem Kept.asking (h : P.Kept w) {q : Q} (hq : Service.asking w i = some q) :
    P.asks (deeds w.log i) q := by
  have hi := (h i).1
  unfold Service.asking at hq
  cases hsession : w.sessions i with
  | busy rest =>
    rw [hsession] at hi hq
    cases rest with
    | ask q' next =>
      obtain rfl := Option.some.inj hq
      exact hi.1
    | done r => cases hq
  | idle s | ended =>
    rw [hsession] at hq
    cases hq

/-- **One step** keeps the promise. -/
theorem Sound.step (hP : P.Sound V) (h : P.Kept w) (event : Service.Event ι I X E) :
    P.Kept (V.step w event) := by
  have hover (i : ι) : P.Kept { w with sessions := Function.update w.sessions i .ended } := by
    intro j
    by_cases hj : j = i
    · subst hj
      simp only [Function.update_self]
      exact ⟨trivial, (h j).2⟩
    · simp only [Function.update_of_ne hj]
      exact h j
  cases event with
  | input i input =>
    rw [Service.step]
    split
    · rename_i s hidle
      have hi := h i
      rw [hidle] at hi
      split
      · rename_i haccepts
        refine kept_settle (fun j hj => ?_) ?_ ?_
        · show P.Holds (w.sessions j) (deeds (w.log ++ [_]) j) ∧ P.Noted (deeds (w.log ++ [_]) j)
          rw [deeds_of_ne _ hj]
          exact h j
        · simp only [Service.note, deeds_self]
          exact hP s _ input hi.1 haccepts
        · simp only [Service.note, deeds_self]
          exact hi.2.append trivial
      · exact hover i
    · exact h
    · exact h
  | turn i outside =>
    cases hq : Service.asking w i with
    | none =>
      rw [V.step_turn_none hq]
      exact h
    | some q =>
      obtain ⟨next, hsession, hstep⟩ := V.step_turn hq outside
      have hi := h i
      rw [hsession] at hi
      rw [hstep]
      refine kept_settle (fun j hj => ?_) ?_ ?_
      · show P.Holds (w.sessions j) (deeds (w.log ++ [_]) j) ∧ P.Noted (deeds (w.log ++ [_]) j)
        rw [deeds_of_ne _ hj]
        exact h j
      · simp only [Service.note, deeds_self]
        exact hi.1.resume trivial
      · simp only [Service.note, deeds_self]
        exact hi.2.append hi.1.1
  | hangUp i =>
    rw [Service.step]
    split
    · exact hover i
    · exact h
    · exact h
  | other event => exact h

theorem kept_new {node : N} {s : S} (h : P.inv s []) :
    P.Kept (Service.new node s : World ι S I A O N) := by
  refine fun i => ⟨h, fun before deed hprefix => ?_⟩
  have hnil := List.prefix_nil.mp hprefix
  simp at hnil

/-- **Every run** keeps the promise. -/
theorem Sound.run (hP : P.Sound V) (h : P.Kept w) (events : List (Service.Event ι I X E)) :
    P.Kept (Library.run V.step w events) := by
  have hstep (w : World ι S I A O N) (event : Service.Event ι I X E) (hw : P.Kept w) :
      P.Kept (V.step w event) := hP.step hw event
  exact run_invariant hstep h events

end Promise

end CommandCenter.Library
