import Mathlib.Data.List.Basic

/-!
# Loops that may stop

A `for` loop over a list whose body changes a state `σ` and what the loop has gathered `β`, and
may return an error, which ends the loop: `body i x out s` is the turn of the `i`-th item.

* `forEach_append`: a loop over two lists is two loops.
* `forEach_induct`: what every turn keeps, whether it ends the loop or not.
* `forEach_invariant`: what every turn that goes on keeps.
* `forEach_post`: what the turn of an item makes true and later turns keep.
* `forEach_related`: two loops over the same items that both complete.
* `forEach_stopped`: a loop beside one that completes comes as far as some item.
-/

namespace CommandCenter.Library

variable {α β γ σ τ ε : Type*}

/-- `for x in items { … }`, where the body may return early. -/
def forEach (body : Nat → α → β → σ → Except ε β × σ) : Nat → List α → β → σ → Except ε β × σ
  | _, [], out, s => (.ok out, s)
  | i, x :: items, out, s =>
    match body i x out s with
    | (.ok out, s) => forEach body (i + 1) items out s
    | (.error e, s) => (.error e, s)

section OneLoop

variable {body : Nat → α → β → σ → Except ε β × σ} {i : Nat} {x : α} {items : List α}
  {out out' : β} {s s' : σ}

theorem forEach_cons : forEach body i (x :: items) out s = (.ok out', s') ↔
    ∃ mid t, body i x out s = (.ok mid, t) ∧
      forEach body (i + 1) items mid t = (.ok out', s') := by
  rw [forEach]
  constructor
  · intro h
    split at h
    · rename_i mid t hturn
      exact ⟨mid, t, hturn, h⟩
    · cases h
  · rintro ⟨mid, t, hturn, hrest⟩
    rw [hturn]
    exact hrest

theorem forEach_append {before after : List α} :
    forEach body i (before ++ after) out s = (.ok out', s') ↔
      ∃ mid t, forEach body i before out s = (.ok mid, t) ∧
        forEach body (i + before.length) after mid t = (.ok out', s') := by
  induction before generalizing i out s with
  | nil =>
    constructor
    · intro h
      exact ⟨out, s, rfl, h⟩
    · rintro ⟨mid, t, hbefore, hafter⟩
      cases hbefore
      exact hafter
  | cons x before ih =>
    have hlength : i + (x :: before).length = i + 1 + before.length := by
      rw [List.length_cons]
      omega
    rw [List.cons_append, forEach_cons, hlength]
    constructor
    · rintro ⟨first, u, hturn, hrest⟩
      obtain ⟨mid, t, hbefore, hafter⟩ := ih.mp hrest
      exact ⟨mid, t, forEach_cons.mpr ⟨first, u, hturn, hbefore⟩, hafter⟩
    · rintro ⟨mid, t, hbefore, hafter⟩
      obtain ⟨first, u, hturn, hrest⟩ := forEach_cons.mp hbefore
      exact ⟨first, u, hturn, ih.mpr ⟨mid, t, hrest, hafter⟩⟩

/-- What every turn keeps holds at the end, also if a turn ends the loop. -/
theorem forEach_induct {P : Except ε β → σ → Prop}
    (hturn : ∀ i, ∀ x ∈ items, ∀ out s, P (.ok out) s →
      P (body i x out s).1 (body i x out s).2)
    (h : P (.ok out) s) : P (forEach body i items out s).1 (forEach body i items out s).2 := by
  induction items generalizing i out s with
  | nil => exact h
  | cons x items ih =>
    have hfirst := hturn i x List.mem_cons_self out s h
    rw [forEach]
    split
    · rename_i mid t heq
      rw [heq] at hfirst
      exact ih (fun i y hy => hturn i y (List.mem_cons_of_mem x hy)) hfirst
    · rename_i e t heq
      rw [heq] at hfirst
      exact hfirst

/-- What every turn that goes on keeps holds of a loop that completes. -/
theorem forEach_invariant {I : β → σ → Prop}
    (hturn : ∀ i, ∀ x ∈ items, ∀ out s out' s', I out s → body i x out s = (.ok out', s') →
      I out' s')
    (h : I out s) (hloop : forEach body i items out s = (.ok out', s')) : I out' s' := by
  induction items generalizing i out s with
  | nil =>
    cases hloop
    exact h
  | cons x items ih =>
    obtain ⟨mid, t, hfirst, hrest⟩ := forEach_cons.mp hloop
    exact ih (fun i y hy => hturn i y (List.mem_cons_of_mem x hy))
      (hturn i x List.mem_cons_self out s mid t h hfirst) hrest

/-- The turn of an item makes `P` true of it, and no later turn changes that. -/
theorem forEach_post {P : α → β → σ → Prop}
    (hpost : ∀ i x out s out' s', body i x out s = (.ok out', s') → P x out' s')
    (hkeep : ∀ i y x out s out' s', P y out s → body i x out s = (.ok out', s') → P y out' s')
    (h : forEach body i items out s = (.ok out', s')) : ∀ x ∈ items, P x out' s' := by
  have hkept (y : α) (items : List α) (i : Nat) (out : β) (s : σ) (hy : P y out s)
      (h : forEach body i items out s = (.ok out', s')) : P y out' s' := by
    induction items generalizing i out s with
    | nil =>
      cases h
      exact hy
    | cons x items ih =>
      obtain ⟨mid, t, hturn, hrest⟩ := forEach_cons.mp h
      exact ih (i + 1) mid t (hkeep i y x out s mid t hy hturn) hrest
  induction items generalizing i out s with
  | nil =>
    intro x hx
    cases hx
  | cons x items ih =>
    obtain ⟨mid, t, hturn, hrest⟩ := forEach_cons.mp h
    intro y hy
    rcases List.mem_cons.mp hy with rfl | hy
    · exact hkept y items (i + 1) mid t (hpost i y out s mid t hturn) hrest
    · exact ih hrest y hy

end OneLoop

section TwoLoops

variable {low : Nat → α → β → σ → Except ε β × σ} {high : Nat → α → γ → τ → Except ε γ × τ}
  {R : β → σ → γ → τ → Prop} {i : Nat} {items : List α} {out out' : β} {s s' : σ} {out₂ out₂' : γ}
  {t t' : τ}

/-- Two loops over the same items, if both complete. -/
theorem forEach_related
    (hturn : ∀ i, ∀ x ∈ items, ∀ out s out₂ t out' s' out₂' t', R out s out₂ t →
      low i x out s = (.ok out', s') → high i x out₂ t = (.ok out₂', t') → R out' s' out₂' t')
    (h : R out s out₂ t) (hlow : forEach low i items out s = (.ok out', s'))
    (hhigh : forEach high i items out₂ t = (.ok out₂', t')) : R out' s' out₂' t' := by
  induction items generalizing i out s out₂ t with
  | nil =>
    cases hlow
    cases hhigh
    exact h
  | cons x items ih =>
    obtain ⟨mid, u, hfirst, hrest⟩ := forEach_cons.mp hlow
    obtain ⟨mid₂, v, hfirst₂, hrest₂⟩ := forEach_cons.mp hhigh
    exact ih (fun i y hy => hturn i y (List.mem_cons_of_mem x hy))
      (hturn i x List.mem_cons_self out s out₂ t mid u mid₂ v h hfirst hfirst₂) hrest hrest₂

/-- A loop beside one that completes either completes too or ends at an item, in a state that `E`
relates to the other loop's before that item. -/
theorem forEach_stopped {E : σ → γ → τ → Prop}
    (hturn : ∀ i, ∀ x ∈ items, ∀ out s out₂ t out₂' t', R out s out₂ t →
      high i x out₂ t = (.ok out₂', t') →
      (∃ out' s', low i x out s = (.ok out', s') ∧ R out' s' out₂' t') ∨
        ∃ e s', low i x out s = (.error e, s') ∧ E s' out₂ t)
    (h : R out s out₂ t) (hhigh : forEach high i items out₂ t = (.ok out₂', t')) :
    (∃ out' s', forEach low i items out s = (.ok out', s') ∧ R out' s' out₂' t') ∨
      ∃ e s' before after mid u, items = before ++ after ∧
        forEach low i items out s = (.error e, s') ∧
        forEach high i before out₂ t = (.ok mid, u) ∧ E s' mid u := by
  induction items generalizing i out s out₂ t with
  | nil =>
    cases hhigh
    exact Or.inl ⟨out, s, rfl, h⟩
  | cons x items ih =>
    obtain ⟨mid₂, v, hfirst₂, hrest₂⟩ := forEach_cons.mp hhigh
    rcases hturn i x List.mem_cons_self out s out₂ t mid₂ v h hfirst₂ with
      ⟨mid, u, hfirst, hmid⟩ | ⟨e, u, hfirst, hstop⟩
    · have hloop : forEach low i (x :: items) out s = forEach low (i + 1) items mid u := by
        rw [forEach, hfirst]
      rw [hloop]
      rcases ih (fun i y hy => hturn i y (List.mem_cons_of_mem x hy)) hmid hrest₂ with
        hdone | ⟨e, s', before, after, last, w, hsplit, herror, hbefore, hstop⟩
      · exact Or.inl hdone
      · refine Or.inr ⟨e, s', x :: before, after, last, w, ?_, herror, ?_, hstop⟩
        · rw [hsplit, List.cons_append]
        · exact forEach_cons.mpr ⟨mid₂, v, hfirst₂, hbefore⟩
    · refine Or.inr ⟨e, u, [], x :: items, out₂, t, rfl, ?_, rfl, hstop⟩
      rw [forEach, hfirst]

end TwoLoops

end CommandCenter.Library
