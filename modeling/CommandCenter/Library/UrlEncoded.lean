import CommandCenter.Rust.Text
import Mathlib.Data.Bool.AllAny

/-!
# Forms as a browser sends them

`application/x-www-form-urlencoded`: letters, digits and `*-._` stand for themselves, a blank is a
plus sign, and of every other character each UTF-8 byte is a percent sign and two digits.

* `encode_safe`: what is encoded has neither of the separators.
* `lastValue_cons`: the last of the fields of one name.
-/

namespace CommandCenter.Library.UrlEncoded

open Rust

/-- A hexadecimal digit, of the capital ones. -/
def hexUpper (n : Nat) : Char := n.digitChar.toUpper

def percent (b : UInt8) : Text := ['%', hexUpper (b.toNat / 16), hexUpper (b.toNat % 16)]

/-- The characters that stand for themselves. -/
def Kept (c : Char) : Prop := c.isAlphanum = true ∨ c ∈ "*-._".toList

instance : DecidablePred Kept := fun _ => inferInstanceAs (Decidable (_ ∨ _))

def encodeChar (c : Char) : Text :=
  if c = ' ' then ['+']
  else if Kept c then [c]
  else (String.utf8EncodeChar c).flatMap percent

def encode (s : Text) : Text := s.flatMap encodeChar

def serialize (fields : List (Text × Text)) : Text :=
  ['&'].intercalate (fields.map fun field => encode field.1 ++ '=' :: encode field.2)

/-- The value of the last field of a name. -/
def lastValue (fields : List (Text × Text)) (name : Text) : Option Text :=
  (fields.filter fun field => field.1 = name).getLast?.map Prod.snd

section Rules

theorem Kept.safe {c : Char} (h : Kept c) :
    c.val.toNat < 128 ∧ c ≠ '%' ∧ c ≠ '+' ∧ c ≠ '&' ∧ c ≠ '=' := by
  have hlow : c.val.toNat < 128 := by
    rcases h with h | h
    · exact (Text.isAlphanum_bounds h).2
    · have hlow : ∀ c ∈ ['*', '-', '.', '_'], c.val.toNat < 128 :=
        List.all_iff_forall_prop.mp (by decide)
      exact hlow c h
  refine ⟨hlow, ?_, ?_, ?_, ?_⟩
  all_goals
    rintro rfl
    revert h
    decide

theorem hexUpper_safe :
    ∀ n < 16, (hexUpper n).val.toNat < 128 ∧ hexUpper n ≠ '&' ∧ hexUpper n ≠ '=' := by
  decide

theorem percent_safe {b : UInt8} {c : Char} (h : c ∈ percent b) :
    c.val.toNat < 128 ∧ c ≠ '&' ∧ c ≠ '=' := by
  have hb : b.toNat < 256 := b.toNat_lt
  simp only [percent, List.mem_cons, List.not_mem_nil, or_false] at h
  rcases h with rfl | rfl | rfl
  · decide
  · exact hexUpper_safe _ (by omega)
  · exact hexUpper_safe _ (by omega)

theorem encodeChar_safe {c d : Char} (h : d ∈ encodeChar c) :
    d.val.toNat < 128 ∧ d ≠ '&' ∧ d ≠ '=' := by
  unfold encodeChar at h
  split at h
  · rw [List.mem_singleton.mp h]
    decide
  · split at h
    · rename_i hkept
      rw [List.mem_singleton.mp h]
      exact ⟨hkept.safe.1, hkept.safe.2.2.2⟩
    · obtain ⟨b, -, hd⟩ := List.mem_flatMap.mp h
      exact percent_safe hd

/-- What is encoded is ASCII and has neither of the separators. -/
theorem encode_safe {s : Text} {d : Char} (h : d ∈ encode s) :
    d.val.toNat < 128 ∧ d ≠ '&' ∧ d ≠ '=' := by
  obtain ⟨c, -, hd⟩ := List.mem_flatMap.mp h
  exact encodeChar_safe hd

theorem lastValue_cons (field : Text × Text) (fields : List (Text × Text)) (name : Text) :
    lastValue (field :: fields) name =
      (lastValue fields name).or (if field.1 = name then some field.2 else none) := by
  unfold lastValue
  by_cases h : field.1 = name
  · rw [List.filter_cons_of_pos (by simpa using h), List.getLast?_cons, if_pos h]
    cases (fields.filter fun field => field.1 = name).getLast? with
    | none => rfl
    | some last => rfl
  · rw [List.filter_cons_of_neg (by simpa using h), if_neg h, Option.or_none]

end Rules

end CommandCenter.Library.UrlEncoded
