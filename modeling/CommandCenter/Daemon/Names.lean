import Mathlib.Data.Finset.Card
import CommandCenter.Rust.Num
import CommandCenter.Rust.Text

/-!
# Display names

`Node::claim_name` and `Node::release_name` of `crates/bnetccd/src/node.rs`: the names that are
shown, each in lower case. The suffix of a name is any natural number here, where the node counts
in a `u32`: that makes no difference as long as one of those is free (`tryClaim_eq_claimName`).

* `claimName_fresh`: a claim finds a name that nobody has, however many there are.
-/

namespace CommandCenter.Daemon

open Rust

/-- The names in use, in lower case. -/
abbrev ActiveNames := Finset Text

/-- The name that is tried after `n` others: the account's own, then with `#2`, `#3` and so on. -/
def nameCandidate (base : Text) : Nat → Text
  | 0 => base
  | n + 1 => base ++ '#' :: Nat.toDigits 10 (n + 2)

namespace ActiveNames

/-- Claim the first candidate that is free, which is one of the first `names.card + 1`. -/
def claimName (names : ActiveNames) (base : Text) : Text × ActiveNames :=
  let tries := (List.range (names.card + 1)).map (nameCandidate base)
  let candidate := (tries.find? (·.toAsciiLowercase ∉ names)).getD base
  (candidate, insert candidate.toAsciiLowercase names)

def releaseName (names : ActiveNames) (display : Text) : ActiveNames :=
  names.erase display.toAsciiLowercase

end ActiveNames

/-! ## The candidates differ -/

theorem toLower_of_isDigit {c : Char} (h : c.isDigit = true) : c.toLower = c := by
  rcases Text.toLower_cases c with hsame | ⟨hlow, _, _⟩
  · exact hsame
  · have hhigh : c.val.toNat ≤ 57 := by
      rw [Char.isDigit, Bool.and_eq_true] at h
      exact UInt32.le_iff_toNat_le.mp (of_decide_eq_true h.2)
    omega

theorem toAsciiLowercase_toDigits (n : Nat) :
    Text.toAsciiLowercase (Nat.toDigits 10 n) = Nat.toDigits 10 n := by
  rw [Text.toAsciiLowercase]
  refine (List.map_congr_left fun c hc => ?_).trans (List.map_id _)
  exact toLower_of_isDigit (isDigit_of_mem_digits hc)

theorem nameCandidate_succ (base : Text) (n : Nat) :
    (nameCandidate base (n + 1)).toAsciiLowercase =
      base.toAsciiLowercase ++ '#' :: Nat.toDigits 10 (n + 2) := by
  rw [nameCandidate, Text.toAsciiLowercase, List.map_append, List.map_cons]
  show _ ++ _ :: Text.toAsciiLowercase _ = _
  rw [toAsciiLowercase_toDigits]
  rfl

theorem nameCandidate_injective (base : Text) :
    Function.Injective fun n => (nameCandidate base n).toAsciiLowercase := by
  intro m n h
  dsimp only at h
  cases m with
  | zero =>
    cases n with
    | zero => rfl
    | succ n =>
      rw [nameCandidate_succ] at h
      exact absurd (List.append_cancel_left (h.symm.trans (List.append_nil _).symm)) (by simp)
  | succ m =>
    cases n with
    | zero =>
      rw [nameCandidate_succ] at h
      exact absurd (List.append_cancel_left (h.trans (List.append_nil _).symm)) (by simp)
    | succ n =>
      rw [nameCandidate_succ, nameCandidate_succ] at h
      have hdigits := toDigits_injective (List.cons.inj (List.append_cancel_left h)).2
      omega

/-- The name that is claimed was nobody's. -/
theorem claimName_fresh (names : ActiveNames) (base : Text) :
    (names.claimName base).1.toAsciiLowercase ∉ names := by
  unfold ActiveNames.claimName
  dsimp only
  generalize hfind : ((List.range (names.card + 1)).map (nameCandidate base)).find?
    (fun name => name.toAsciiLowercase ∉ names) = found
  cases found with
  | some name =>
    have hfree := List.find?_some hfind
    exact of_decide_eq_true hfree
  | none =>
    -- all of them are taken, but they are more than there are names
    exfalso
    have htaken : (Finset.range (names.card + 1)).image
        (fun n => (nameCandidate base n).toAsciiLowercase) ⊆ names := by
      intro name hname
      obtain ⟨n, hn, rfl⟩ := Finset.mem_image.mp hname
      have hnone := List.find?_eq_none.mp hfind (nameCandidate base n)
        (List.mem_map_of_mem (List.mem_range.mpr (Finset.mem_range.mp hn)))
      simpa using hnone
    have hcard := Finset.card_le_card htaken
    rw [Finset.card_image_of_injective _ (nameCandidate_injective base), Finset.card_range] at hcard
    omega

example : (ActiveNames.claimName {"fish".toList, "fish#2".toList} "Fish".toList).1 =
    "Fish#3".toList := by decide

end CommandCenter.Daemon
