import Mathlib.Data.Prod.Lex
import CommandCenter.Rust.Slice

/-!
# Plurality votes

Votes are counted for each candidate. One leads if it has some vote, and each other has fewer, or
as many and a lower claim in a tie.

* `Leads.unique`: one leads at most.
* `leads_iff`: it is the one that no other overtakes.
* `maxBy_leads`: the search for the leader of a vote.
-/

namespace CommandCenter.Library

open Rust

variable {α : Type} {rank count count' : α → Nat} {a b : α}

/-- `a` wins the vote; the candidate with the lower rank wins a tie. -/
def Leads (rank count : α → Nat) (a : α) : Prop :=
  0 < count a ∧ ∀ b, b ≠ a → count b < count a ∨ count b = count a ∧ rank a < rank b

theorem Leads.unique (ha : Leads rank count a) (hb : Leads rank count b) : a = b := by
  by_contra hne
  have hab := hb.2 a hne
  have hba := ha.2 b (Ne.symm hne)
  omega

/-- `b` has more votes than `a`, or as many and wins the tie. -/
def Overtakes (rank count : α → Nat) (b a : α) : Prop :=
  count a < count b ∨ count b = count a ∧ 0 < count b ∧ rank b < rank a

/-- Where there are votes, the leader is the one that no other overtakes. -/
theorem leads_iff (hrank : Function.Injective rank) (hvotes : ∃ b, 0 < count b) :
    Leads rank count a ↔ ∀ b, ¬ Overtakes rank count b a := by
  constructor
  · intro h b hover
    by_cases hb : b = a
    · subst hb
      rcases hover with hlt | ⟨_, _, hlt⟩ <;> exact Nat.lt_irrefl _ hlt
    · have hbehind := h.2 b hb
      rcases hover with hlt | ⟨heq, _, hlt⟩ <;> omega
  · intro h
    have hle (b : α) : count b ≤ count a := Nat.le_of_not_lt fun hlt => h b (Or.inl hlt)
    obtain ⟨c, hc⟩ := hvotes
    have hpos : 0 < count a := Nat.lt_of_lt_of_le hc (hle c)
    refine ⟨hpos, fun b hne => ?_⟩
    have hrb : rank b ≠ rank a := fun heq => hne (hrank heq)
    by_cases heq : count b = count a
    · have hlow : ¬ rank b < rank a := fun hlt => h b (Or.inr ⟨heq, heq ▸ hpos, hlt⟩)
      exact Or.inr ⟨heq, by omega⟩
    · exact Or.inl (Nat.lt_of_le_of_ne (hle b) heq)

/-- The order in which candidates lose to each other. -/
def voteKey (rank count : α → Nat) (a : α) : ℕ ×ₗ ℕᵒᵈ := toLex (count a, .toDual (rank a))

theorem voteKey_lt :
    voteKey rank count a < voteKey rank count b ↔
      count a < count b ∨ count a = count b ∧ rank b < rank a := by
  rw [voteKey, voteKey, Prod.Lex.toLex_lt_toLex, OrderDual.toDual_lt_toDual]

/-- `compare` by the votes and then by the ranks, the lower one first. -/
def compareVotes (rank count : α → Nat) (a b : α) : Ordering :=
  (compare (count a) (count b)).then (compare (rank b) (rank a))

theorem compareVotes_eq_gt_iff :
    compareVotes rank count a b = .gt ↔ voteKey rank count b < voteKey rank count a := by
  rw [compareVotes, Ordering.then_eq_gt, voteKey_lt, Nat.compare_eq_gt, Nat.compare_eq_eq,
    Nat.compare_eq_gt, eq_comm]

/-- The last greatest candidate leads if it has a vote. -/
theorem maxBy_leads (hrank : Function.Injective rank) (count : α → Nat) (x : α) (xs : List α)
    (hall : ∀ a, a ∈ x :: xs) :
    ∃ best, maxBy (compareVotes rank count) (x :: xs) = some best ∧
      (0 < count best → Leads rank count best) ∧ ∀ a, count a ≤ count best := by
  have hkey (a b : α) : compareVotes rank count a b = .gt ↔
      voteKey rank count b < voteKey rank count a := compareVotes_eq_gt_iff
  obtain ⟨best, _, hbest, hmax⟩ := maxBy_isGreatest hkey x xs
  have hle (b : α) : count b < count best ∨ count b = count best ∧ rank best ≤ rank b := by
    have hb := not_lt.mpr (hmax b (hall b))
    rw [voteKey_lt] at hb
    omega
  refine ⟨best, hbest, fun hpos => ⟨hpos, fun b hne => ?_⟩, fun b => ?_⟩
  · have hrb : rank b ≠ rank best := fun h => hne (hrank h)
    have hb := hle b
    omega
  · have hb := hle b
    omega

end CommandCenter.Library
