import Mathlib.Algebra.GroupWithZero.Nat
import Mathlib.Algebra.BigOperators.Group.List.Basic
import Mathlib.Order.Interval.Finset.Nat

/-!
# Running weights

A number is the turn of the first entry whose running weight passes it. Each entry has as many turns
as its weight says, one after another.

* `turn_eq_some_iff`: the turns of an entry are an interval.
* `card_turn`: as many of them as its weight.
-/

namespace CommandCenter.Library

def turn : List Nat → Nat → Option Nat
  | [], _ => none
  | w :: weights, n => if n < w then some 0 else (turn weights (n - w)).map (· + 1)

variable {weights : List Nat} {n i : Nat}

theorem turn_eq_some_iff : turn weights n = some i ↔
    i < weights.length ∧ (weights.take i).sum ≤ n ∧ n < (weights.take (i + 1)).sum := by
  induction weights generalizing n i with
  | nil => simp [turn]
  | cons w weights ih =>
    rw [turn]
    cases i with
    | zero =>
      by_cases hn : n < w
      · simp [hn]
      · simp [hn]
    | succ i =>
      by_cases hn : n < w
      · simp [hn]
        omega
      · rw [if_neg hn, Option.map_eq_some_iff]
        have hstep : (∃ j, turn weights (n - w) = some j ∧ j + 1 = i + 1) ↔
            turn weights (n - w) = some i := by
          constructor
          · rintro ⟨j, hj, heq⟩
            rwa [Nat.succ_injective heq] at hj
          · intro hi
            exact ⟨i, hi, rfl⟩
        rw [hstep, ih, List.take_succ_cons, List.take_succ_cons, List.sum_cons, List.sum_cons,
          List.length_cons]
        omega

theorem turn_eq_none_iff : turn weights n = none ↔ weights.sum ≤ n := by
  induction weights generalizing n with
  | nil => simp [turn]
  | cons w weights ih =>
    rw [turn, List.sum_cons]
    by_cases hn : n < w
    · simp [hn]
      omega
    · rw [if_neg hn, Option.map_eq_none_iff, ih]
      omega

theorem filter_turn {total : Nat} (htotal : weights.sum ≤ total) (hi : i < weights.length) :
    (Finset.range total).filter (fun n => turn weights n = some i) =
      Finset.Ico (weights.take i).sum (weights.take (i + 1)).sum := by
  have hle : (weights.take (i + 1)).sum ≤ weights.sum := by
    conv_rhs => rw [← List.take_append_drop (i + 1) weights, List.sum_append]
    exact Nat.le_add_right _ _
  ext n
  rw [Finset.mem_filter, Finset.mem_range, Finset.mem_Ico, turn_eq_some_iff]
  constructor
  · exact fun h => h.2.2
  · intro h
    exact ⟨by omega, hi, h⟩

/-- An entry has as many turns as its weight. -/
theorem card_turn {total : Nat} (htotal : weights.sum ≤ total) (hi : i < weights.length) :
    ((Finset.range total).filter fun n => turn weights n = some i).card = weights[i] := by
  rw [filter_turn htotal hi, Nat.card_Ico, List.take_add_one, List.getElem?_eq_getElem hi,
    List.sum_append, Option.toList_some, List.sum_singleton, Nat.add_sub_cancel_left]

theorem turn_eq_getElem? {α : Type*} (weight : α → Nat) (entries : List α) (n : Nat) :
    (turn (entries.map weight) n).bind (entries[·]?) =
      (entries.flatMap fun e => List.replicate (weight e) e)[n]? := by
  induction entries generalizing n with
  | nil => rfl
  | cons e entries ih =>
    rw [List.map_cons, turn, List.flatMap_cons]
    by_cases hn : n < weight e
    · rw [if_pos hn, List.getElem?_append_left (by simpa using hn), List.getElem?_replicate,
        if_pos hn]
      rfl
    · rw [if_neg hn, List.getElem?_append_right (by simpa using hn), List.length_replicate, ← ih]
      cases turn (entries.map weight) (n - weight e) <;> rfl

end CommandCenter.Library
