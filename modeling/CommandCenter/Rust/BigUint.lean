import Mathlib.Data.Nat.Digits.Lemmas
import Mathlib.Data.Vector.Basic

/-!
# Unsigned big integers

`num_bigint::BigUint` is `Nat`; its conversions from and to bytes are those below. A `[u8; n]`
is a `Vector`.

* `BigUint.fromBytesLe_fixed`: a number that fits is recovered from its padded encoding.
-/

namespace CommandCenter.Rust

abbrev Bytes (n : Nat) := Vector UInt8 n

namespace BigUint

/-- `BigUint::from_bytes_le`. -/
def fromBytesLe (bytes : List UInt8) : Nat := Nat.ofDigits 256 (bytes.map UInt8.toNat)

/-- `BigUint::from_bytes_be`. -/
def fromBytesBe (bytes : List UInt8) : Nat := fromBytesLe bytes.reverse

/-- `BigUint::to_bytes_le`; zero is one byte. -/
def toBytesLe (n : Nat) : List UInt8 :=
  if n = 0 then [0] else (Nat.digits 256 n).map UInt8.ofNat

theorem fromBytesLe_toBytesLe (n : Nat) : fromBytesLe (toBytesLe n) = n := by
  unfold fromBytesLe toBytesLe
  split
  · rename_i h
    rw [h]
    rfl
  · have hdigits : ((Nat.digits 256 n).map UInt8.ofNat).map UInt8.toNat = Nat.digits 256 n := by
      rw [List.map_map]
      calc (Nat.digits 256 n).map (UInt8.toNat ∘ UInt8.ofNat)
          = (Nat.digits 256 n).map id := by
            refine List.map_congr_left fun d hd => ?_
            have hlt : d < 256 := Nat.digits_lt_base (by omega) hd
            exact UInt8.toNat_ofNat_of_lt' hlt
        _ = Nat.digits 256 n := List.map_id _
    rw [hdigits, Nat.ofDigits_digits]

theorem length_toBytesLe {n width : Nat} (hpos : 0 < width) (h : n < 256 ^ width) :
    (toBytesLe n).length ≤ width := by
  unfold toBytesLe
  split
  · exact hpos
  · rw [List.length_map]
    exact (Nat.digits_length_le_iff (by omega) n).mpr h

theorem fromBytesLe_append_zeros (bytes : List UInt8) (k : Nat) :
    fromBytesLe (bytes ++ List.replicate k 0) = fromBytesLe bytes := by
  unfold fromBytesLe
  rw [List.map_append, List.map_replicate]
  exact Nat.ofDigits_append_replicate_zero _

/-- Bytes copied to the front of a zeroed array, those past its end left out. -/
def copyToZeroed (width : Nat) (bytes : List UInt8) : Bytes width :=
  .ofFn fun i => bytes.getD i 0

theorem toList_copyToZeroed {width : Nat} {bytes : List UInt8} (h : bytes.length ≤ width) :
    (copyToZeroed width bytes).toList = bytes ++ List.replicate (width - bytes.length) 0 := by
  apply List.ext_getElem
  · simp
    omega
  · intro i h₁ h₂
    by_cases hi : i < bytes.length
    · simp [copyToZeroed, hi, List.getElem_append_left hi]
    · simp [copyToZeroed, hi, List.getElem_append_right (Nat.le_of_not_lt hi)]

theorem fromBytesLe_fixed {n width : Nat} (hpos : 0 < width) (h : n < 256 ^ width) :
    fromBytesLe (copyToZeroed width (toBytesLe n)).toList = n := by
  rw [toList_copyToZeroed (length_toBytesLe hpos h), fromBytesLe_append_zeros,
    fromBytesLe_toBytesLe]

end BigUint

end CommandCenter.Rust
