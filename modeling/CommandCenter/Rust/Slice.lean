import Mathlib.Data.List.Basic
import Mathlib.Order.Lattice

/-!
# Slices

Indexing that panics out of bounds. A call that may give an error, or panic, is `Checked`; `none`
is the panic.

* `Checked.bind_eq_ok`, `Checked.bind_ne_none`: one such call after another.
* `Checked.guard_eq_ok`, `Checked.guard_ne_none`: a check before such a call.
-/

namespace CommandCenter.Rust

/-- `&s[start..stop]`. -/
def slice {α : Type} (s : List α) (start stop : Nat) : Option (List α) :=
  if start ≤ stop ∧ stop ≤ s.length then some ((s.take stop).drop start) else none

theorem slice_eq {α : Type} {s : List α} {start stop : Nat} (hstart : start ≤ stop)
    (hstop : stop ≤ s.length) : slice s start stop = some ((s.take stop).drop start) :=
  if_pos ⟨hstart, hstop⟩

/-- `s[start..start + part.len()].copy_from_slice(part)`. -/
def overwrite {α : Type} (s : List α) (start : Nat) (part : List α) : Option (List α) :=
  if start + part.length ≤ s.length then
    some (s.take start ++ part ++ s.drop (start + part.length))
  else none

theorem overwrite_eq {α : Type} {s part : List α} {start : Nat}
    (h : start + part.length ≤ s.length) :
    overwrite s start part = some (s.take start ++ part ++ s.drop (start + part.length)) :=
  if_pos h

theorem length_overwrite {α : Type} {s part s' : List α} {start : Nat}
    (h : overwrite s start part = some s') : s'.length = s.length := by
  unfold overwrite at h
  split at h
  · obtain rfl := Option.some.inj h
    rw [List.length_append, List.length_append, List.length_take, List.length_drop]
    omega
  · cases h

theorem length_slice {α : Type} {s part : List α} {start stop : Nat}
    (h : slice s start stop = some part) : part.length = stop - start := by
  unfold slice at h
  split at h
  · obtain rfl := Option.some.inj h
    rw [List.length_drop, List.length_take]
    omega
  · cases h

/-- `strip_prefix`, of a slice or a string. -/
def stripPrefix {α : Type} [DecidableEq α] (start s : List α) : Option (List α) :=
  if start <+: s then some (s.drop start.length) else none

theorem stripPrefix_eq_some {α : Type} [DecidableEq α] {start s rest : List α} :
    stripPrefix start s = some rest ↔ s = start ++ rest := by
  unfold stripPrefix
  constructor
  · intro h
    split at h
    · rename_i hprefix
      obtain ⟨t, rfl⟩ := hprefix
      simpa using h
    · cases h
  · rintro rfl
    simp

/-- A call that may give an error, or panic. -/
abbrev Checked (ε α : Type) := ExceptT ε Option α

namespace Checked

variable {ε α β : Type} {x : Checked ε α} {f : α → Checked ε β} {b : β}

theorem bind_eq_ok :
    x >>= f = some (.ok b) ↔ ∃ a, x = some (.ok a) ∧ f a = some (.ok b) := by
  constructor
  · intro h
    match x, h with
    | some (.ok a), h => exact ⟨a, rfl, h⟩
  · rintro ⟨a, rfl, h⟩
    exact h

theorem bind_ne_none : x >>= f ≠ none ↔ x ≠ none ∧ ∀ a, x = some (.ok a) → f a ≠ none := by
  constructor
  · intro h
    constructor
    · rintro rfl
      exact h rfl
    · rintro a rfl
      exact h
  · rintro ⟨hx, hf⟩
    match x, hx, hf with
    | some (.error _), _, _ => exact Option.some_ne_none _
    | some (.ok a), _, hf => exact hf a rfl

theorem bind_eq_none : x >>= f = none ↔ x = none ∨ ∃ a, x = some (.ok a) ∧ f a = none := by
  constructor
  · intro h
    match x, h with
    | none, _ => exact .inl rfl
    | some (.ok a), h => exact .inr ⟨a, rfl, h⟩
  · rintro (rfl | ⟨a, rfl, h⟩)
    · rfl
    · exact h

theorem map_eq_ok {g : α → β} :
    g <$> x = some (.ok b) ↔ ∃ a, x = some (.ok a) ∧ g a = b := by
  constructor
  · intro h
    match x, h with
    | some (.ok a), h => exact ⟨a, rfl, Except.ok.inj (Option.some.inj h)⟩
  · rintro ⟨a, rfl, rfl⟩
    rfl

theorem map_ne_none {g : α → β} : g <$> x ≠ none ↔ x ≠ none := by
  match x with
  | none => exact ⟨fun h _ => h rfl, fun h _ => h rfl⟩
  | some (.error e) => exact ⟨fun _ => Option.some_ne_none _, fun _ => Option.some_ne_none _⟩
  | some (.ok a) => exact ⟨fun _ => Option.some_ne_none _, fun _ => Option.some_ne_none _⟩

/-- Another error in place of one. -/
theorem adapt_eq_ok {ε' : Type} {g : ε → ε'} {a : α} :
    ExceptT.adapt g x = some (.ok a) ↔ x = some (.ok a) := by
  match x with
  | none => exact ⟨fun h => (nomatch h), fun h => (nomatch h)⟩
  | some (.error e) => exact ⟨fun h => (nomatch Option.some.inj h), fun h => (nomatch Option.some.inj h)⟩
  | some (.ok b) => exact ⟨fun h => congrArg _ (congrArg _ (Except.ok.inj (Option.some.inj h))),
      fun h => congrArg _ (congrArg _ (Except.ok.inj (Option.some.inj h)))⟩

theorem adapt_ne_none {ε' : Type} {g : ε → ε'} : ExceptT.adapt g x ≠ none ↔ x ≠ none := by
  match x with
  | none => exact ⟨fun h _ => h rfl, fun h _ => h rfl⟩
  | some (.error e) => exact ⟨fun _ => Option.some_ne_none _, fun _ => Option.some_ne_none _⟩
  | some (.ok b) => exact ⟨fun _ => Option.some_ne_none _, fun _ => Option.some_ne_none _⟩

theorem lift_eq_ok {e : Except ε α} {a : α} :
    (liftM e : Checked ε α) = some (.ok a) ↔ e = .ok a := by
  constructor
  · exact fun h => Option.some.inj h
  · exact congrArg some

theorem lift_ok_bind (a : α) (f : α → Checked ε β) :
    (liftM (.ok a : Except ε α) : Checked ε α) >>= f = f a := rfl

theorem lift_ne_none (e : Except ε α) : (liftM e : Checked ε α) ≠ none := Option.some_ne_none e

/-- What may panic but has no errors. -/
theorem liftOption_eq_ok {o : Option α} {a : α} :
    (liftM o : Checked ε α) = some (.ok a) ↔ o = some a := by
  cases o with
  | none =>
    constructor
    · intro h
      cases h
    · intro h
      cases h
  | some b =>
    constructor
    · intro h
      exact congrArg some (Except.ok.inj (Option.some.inj h))
    · intro h
      obtain rfl := Option.some.inj h
      rfl

theorem liftOption_ne_none {o : Option α} : (liftM o : Checked ε α) ≠ none ↔ o ≠ none := by
  cases o with
  | none => exact ⟨fun h _ => h rfl, fun h _ => h rfl⟩
  | some b =>
    constructor
    · exact fun _ => Option.some_ne_none b
    · intro _ h
      cases h

section Guards

variable {c : Prop} [Decidable c] {e : ε}

theorem guard_eq_ok {a : α} :
    (if c then throw e else x) = some (.ok a) ↔ ¬ c ∧ x = some (.ok a) := by
  split
  · rename_i hc
    constructor
    · intro h
      cases h
    · intro h
      exact absurd hc h.1
  · rename_i hc
    exact ⟨fun h => ⟨hc, h⟩, fun h => h.2⟩

theorem guard_ne_none : (if c then throw e else x) ≠ none ↔ (¬ c → x ≠ none) := by
  split
  · rename_i hc
    constructor
    · intro _ h
      exact absurd hc h
    · intro _ h
      cases h
  · rename_i hc
    exact ⟨fun h _ => h, fun h => h hc⟩

end Guards

end Checked

/-!
## Iterators

* `maxBy_isGreatest`: where the comparison is of keys, `max_by` gives an element with the largest
  key.
* `maxBy_append_singleton`: of these, it is the last.
-/

/-- `Iterator::max_by`, the last of the greatest elements. -/
def maxBy {α : Type} (compare : α → α → Ordering) : List α → Option α
  | [] => none
  | x :: xs => some (xs.foldl (fun best y => if compare best y = .gt then best else y) x)

variable {α β : Type} [LinearOrder β] {compare : α → α → Ordering} {key : α → β}

/-- The greatest of some elements is one of them, and no key is larger than its key. -/
theorem maxBy_isGreatest (hkey : ∀ a b, compare a b = .gt ↔ key b < key a) (x : α) (xs : List α) :
    ∃ best ∈ x :: xs, maxBy compare (x :: xs) = some best ∧ ∀ y ∈ x :: xs, key y ≤ key best := by
  induction xs generalizing x with
  | nil => exact ⟨x, List.mem_cons_self, rfl, by simp⟩
  | cons y ys ih =>
    have hstep : maxBy compare (x :: y :: ys) =
        maxBy compare ((if compare x y = .gt then x else y) :: ys) := rfl
    rw [hstep]
    by_cases hgt : compare x y = .gt
    · rw [if_pos hgt]
      obtain ⟨best, hmem, hbest, hmax⟩ := ih x
      refine ⟨best, List.cons_subset_cons x (List.subset_cons_self y ys) hmem, hbest, ?_⟩
      intro z hz
      rcases List.mem_cons.mp hz with rfl | hz
      · exact hmax z List.mem_cons_self
      · rcases List.mem_cons.mp hz with rfl | hz
        · exact le_trans (le_of_lt ((hkey x z).mp hgt)) (hmax x List.mem_cons_self)
        · exact hmax z (List.mem_cons_of_mem x hz)
    · rw [if_neg hgt]
      obtain ⟨best, hmem, hbest, hmax⟩ := ih y
      refine ⟨best, List.mem_cons_of_mem x hmem, hbest, ?_⟩
      intro z hz
      rcases List.mem_cons.mp hz with rfl | hz
      · exact le_trans (not_lt.mp fun h => hgt ((hkey z y).mpr h)) (hmax y List.mem_cons_self)
      · exact hmax z hz

/-- Of the elements with the largest key, the last one is given. -/
theorem maxBy_append_singleton (hkey : ∀ a b, compare a b = .gt ↔ key b < key a) {xs : List α}
    {a : α} (h : ∀ x ∈ xs, key x ≤ key a) : maxBy compare (xs ++ [a]) = some a := by
  cases xs with
  | nil => rfl
  | cons x xs =>
    obtain ⟨best, hmem, hbest, _⟩ := maxBy_isGreatest hkey x xs
    have hfold : xs.foldl (fun best y => if compare best y = .gt then best else y) x = best :=
      Option.some.inj hbest
    have hle : ¬ compare best a = .gt := fun hgt => not_lt.mpr (h best hmem) ((hkey best a).mp hgt)
    rw [List.cons_append, maxBy, List.foldl_append, hfold, List.foldl_cons, if_neg hle]
    rfl

end CommandCenter.Rust
