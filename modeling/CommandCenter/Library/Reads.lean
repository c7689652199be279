/-!
# Readers and what they take

A reader takes symbols from the front of what is left and gives a value, or fails. `Reads x w a`
says that it takes just `w`, whatever follows, and gives `a`; so a writer whose output is read part
by part is read as a whole. `Exact x write` is the other way: whatever the reader takes is what
`write` gives for its value.

* `Reads.pure`, `Reads.bind`, `Reads.map`, `Reads.times`: the rules for readers made of readers.
* `Taking.bind_ok`, `Taking.guard_ok`: what a reader took that went well.
-/

namespace CommandCenter.Library

variable {σ ε α β : Type}

/-- A reader of symbols `σ`, which may fail with `ε`. -/
abbrev Taking (σ ε : Type) := StateT (List σ) (Except ε)

/-- A reader that went well took a value of its first part, and the rest from there. -/
theorem Taking.bind_ok {x : Taking σ ε α} {f : α → Taking σ ε β} {left rest : List σ} {b : β}
    (h : (x >>= f) left = .ok (b, rest)) :
    ∃ a left', x left = .ok (a, left') ∧ f a left' = .ok (b, rest) := by
  change Except.bind (x left) (fun r => f r.1 r.2) = .ok (b, rest) at h
  cases hx : x left with
  | error e =>
    rw [hx] at h
    cases h
  | ok r =>
    rw [hx] at h
    exact ⟨r.1, r.2, rfl, h⟩

/-- A reader that went well was not stopped by its guard. -/
theorem Taking.guard_ok {c : Prop} [Decidable c] {e : ε} {x : Taking σ ε α} {left : List σ}
    {r : α × List σ} (h : (if c then throw e else x) left = .ok r) : ¬ c ∧ x left = .ok r := by
  split at h
  · cases h
  · rename_i hc
    exact ⟨hc, h⟩

theorem Taking.run'_eq_ok {x : Taking σ ε α} {left : List σ} {a : α} :
    x.run' left = .ok a ↔ ∃ rest, x left = .ok (a, rest) := by
  change Except.map Prod.fst (x left) = .ok a ↔ _
  cases x left with
  | error e => simp [Except.map]
  | ok r =>
    constructor
    · intro h
      obtain rfl : r.1 = a := Except.ok.inj h
      exact ⟨r.2, rfl⟩
    · rintro ⟨rest, h⟩
      obtain rfl := Except.ok.inj h
      rfl

/-- One reader several times over. -/
def Taking.times (x : Taking σ ε α) : Nat → Taking σ ε (List α)
  | 0 => return []
  | n + 1 => do
    let a ← x
    let more ← times x n
    return a :: more

theorem Taking.times_succ_ok {x : Taking σ ε α} {n : Nat} {left rest : List σ} {values : List α}
    (h : x.times (n + 1) left = .ok (values, rest)) : ∃ a left' more,
      x left = .ok (a, left') ∧ x.times n left' = .ok (more, rest) ∧ values = a :: more := by
  obtain ⟨a, left', ha, h⟩ := Taking.bind_ok h
  obtain ⟨more, left'', hmore, h⟩ := Taking.bind_ok h
  obtain ⟨rfl, rfl⟩ := Prod.mk.inj (Except.ok.inj h)
  exact ⟨a, left', more, ha, hmore, rfl⟩

theorem Taking.length_times {x : Taking σ ε α} {n : Nat} {left rest : List σ} {values : List α}
    (h : x.times n left = .ok (values, rest)) : values.length = n := by
  induction n generalizing left values with
  | zero =>
    obtain ⟨rfl, -⟩ := Prod.mk.inj (Except.ok.inj h)
    rfl
  | succ n ih =>
    obtain ⟨a, left', more, -, hmore, rfl⟩ := Taking.times_succ_ok h
    rw [List.length_cons, ih hmore]

/-- The reader takes `written` and gives `value`, whatever follows. -/
def Reads (x : Taking σ ε α) (written : List σ) (value : α) : Prop :=
  ∀ rest, x (written ++ rest) = .ok (value, rest)

/-- What the reader takes is what `write` gives for its value. -/
def Exact (x : Taking σ ε α) (write : α → List σ) : Prop :=
  ∀ left a rest, x left = .ok (a, rest) → left = write a ++ rest

namespace Reads

variable {x : Taking σ ε α} {f : α → Taking σ ε β} {written written' : List σ} {a : α} {b : β}

theorem pure (value : α) : Reads (Pure.pure value : Taking σ ε α) [] value := fun _ => rfl

/-- One reader after another takes what the one takes and then what the other takes. -/
theorem bind (hx : Reads x written a) (hf : Reads (f a) written' b) :
    Reads (x >>= f) (written ++ written') b := by
  intro rest
  show Except.bind (x (written ++ written' ++ rest)) (fun r => f r.1 r.2) = _
  rw [List.append_assoc, hx]
  exact hf rest

/-- What is read after the first part. -/
theorem bind_append (hx : Reads x written a) (f : α → Taking σ ε β) (rest : List σ) :
    (x >>= f) (written ++ rest) = f a rest := by
  show Except.bind (x (written ++ rest)) (fun r => f r.1 r.2) = _
  rw [hx]
  rfl

/-- A value made of the value of a reader. -/
theorem map (hx : Reads x written a) (f : α → β) :
    Reads (x >>= fun value => Pure.pure (f value)) written (f a) := by
  rw [← List.append_nil written]
  exact Reads.bind (f := fun value => Pure.pure (f value)) hx (Reads.pure (f a))

/-- What is written of each of some values is read as often as there are values. -/
theorem times {γ : Type} {write : γ → List σ} {value : γ → α} (items : List γ)
    (h : ∀ item ∈ items, Reads x (write item) (value item)) :
    Reads (x.times items.length) (items.flatMap write) (items.map value) := by
  induction items with
  | nil => exact Reads.pure []
  | cons item items ih =>
    rw [List.flatMap_cons, List.map_cons]
    refine (h item List.mem_cons_self).bind ?_
    exact (ih fun other hother => h other (List.mem_cons_of_mem _ hother)).map
      fun more => value item :: more

end Reads

end CommandCenter.Library
