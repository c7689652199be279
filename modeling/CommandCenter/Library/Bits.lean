import Mathlib.Data.List.Basic
import Mathlib.Data.Nat.Bitwise
import Mathlib.Tactic.Ring

/-!
# Strings of bits

Values packed into bytes, the least significant bit first.

* `bitsOf`, `ofBits`: the bits of a number and the number of some bits.
* `unpack`, `pack`: the bits of some bytes, and the bytes that hold some bits, the last one padded
  with zeros.
* `pack_concat_full`, `pack_concat`: one more bit begins a byte or is set in the last one.
* `unpack_pack`: bits come back.
* `set_and`, `clear_and`: flags that are set or cleared leave the others.
-/

namespace CommandCenter.Library

/-- The lowest `width` bits of a number. -/
def bitsOf (width value : Nat) : List Bool := (List.range width).map value.testBit

def ofBits : List Bool → Nat
  | [] => 0
  | bit :: bits => bit.toNat + 2 * ofBits bits

def unpack (bytes : List UInt8) : List Bool := bytes.flatMap fun byte => bitsOf 8 byte.toNat

def pack (bits : List Bool) : List UInt8 :=
  (List.range ((bits.length + 7) / 8)).map fun i => .ofNat (ofBits ((bits.drop (8 * i)).take 8))

/-! ## Numbers -/

@[simp] theorem length_bitsOf (width value : Nat) : (bitsOf width value).length = width := by
  rw [bitsOf, List.length_map, List.length_range]

theorem bitsOf_succ (width value : Nat) :
    bitsOf (width + 1) value = value.testBit 0 :: bitsOf width (value / 2) := by
  rw [bitsOf, List.range_succ_eq_map, List.map_cons, List.map_map]
  refine congrArg _ (List.map_congr_left fun i _ => ?_)
  show value.testBit (i + 1) = _
  rw [Nat.testBit_succ]

theorem ofBits_lt (bits : List Bool) : ofBits bits < 2 ^ bits.length := by
  induction bits with
  | nil => exact Nat.one_pos
  | cons bit bits ih =>
    rw [ofBits, List.length_cons, Nat.pow_succ]
    have hbit := Bool.toNat_le bit
    omega

theorem ofBits_append (bits rest : List Bool) :
    ofBits (bits ++ rest) = ofBits bits + 2 ^ bits.length * ofBits rest := by
  induction bits with
  | nil => simp [ofBits]
  | cons bit bits ih =>
    rw [List.cons_append, ofBits, ofBits, ih, List.length_cons, Nat.pow_succ]
    ring

theorem testBit_zero_toNat (value : Nat) : (value.testBit 0).toNat = value % 2 := by
  rw [Nat.testBit_zero]
  rcases Nat.mod_two_eq_zero_or_one value with h | h <;> rw [h] <;> rfl

theorem ofBits_bitsOf (width value : Nat) : ofBits (bitsOf width value) = value % 2 ^ width := by
  induction width generalizing value with
  | zero => rw [Nat.pow_zero, Nat.mod_one]; rfl
  | succ width ih =>
    rw [bitsOf_succ, ofBits, ih, testBit_zero_toNat, Nat.pow_succ, Nat.mul_comm (2 ^ width),
      Nat.mod_mul]

theorem testBit_ofBits (bits : List Bool) (i : Nat) :
    (ofBits bits).testBit i = bits.getD i false := by
  induction bits generalizing i with
  | nil => simp [ofBits]
  | cons bit bits ih =>
    cases i with
    | zero =>
      rw [ofBits, Nat.testBit_zero, Nat.add_mul_mod_self_left]
      cases bit <;> rfl
    | succ i =>
      have hhalf : (bit.toNat + 2 * ofBits bits) / 2 = ofBits bits := by
        have hbit := Bool.toNat_le bit
        omega
      rw [ofBits, Nat.testBit_succ, hhalf, ih]
      rfl

theorem bitsOf_ofBits (bits : List Bool) : bitsOf bits.length (ofBits bits) = bits := by
  apply List.ext_getElem?
  intro i
  rw [bitsOf, List.getElem?_map]
  by_cases hi : i < bits.length
  · rw [List.getElem?_range hi, Option.map_some, testBit_ofBits, List.getD_eq_getElem?_getD,
      List.getElem?_eq_getElem hi]
    rfl
  · rw [List.getElem?_eq_none (by rw [List.length_range]; omega),
      List.getElem?_eq_none (by omega)]
    rfl

theorem bitsOf_add (low high value : Nat) :
    bitsOf (low + high) value = bitsOf low value ++ bitsOf high (value / 2 ^ low) := by
  induction low generalizing value with
  | zero => rw [Nat.zero_add, Nat.pow_zero, Nat.div_one]; rfl
  | succ low ih =>
    have hlength : low + 1 + high = low + high + 1 := by omega
    have hpow : (2 : Nat) ^ (low + 1) = 2 * 2 ^ low := by ring
    rw [hlength, bitsOf_succ, bitsOf_succ, ih, Nat.div_div_eq_div_mul, hpow, List.cons_append]

theorem bitsOf_mod (width value : Nat) : bitsOf width (value % 2 ^ width) = bitsOf width value := by
  have hbits := bitsOf_ofBits (bitsOf width value)
  rwa [length_bitsOf, ofBits_bitsOf] at hbits

theorem bitsOf_inj {width m n : Nat} (hm : m < 2 ^ width) (hn : n < 2 ^ width)
    (h : bitsOf width m = bitsOf width n) : m = n := by
  have hofBits := congrArg ofBits h
  rwa [ofBits_bitsOf, ofBits_bitsOf, Nat.mod_eq_of_lt hm, Nat.mod_eq_of_lt hn] at hofBits

/-! ## Bytes -/

@[simp] theorem unpack_append (bytes rest : List UInt8) :
    unpack (bytes ++ rest) = unpack bytes ++ unpack rest := List.flatMap_append

@[simp] theorem length_unpack (bytes : List UInt8) : (unpack bytes).length = 8 * bytes.length := by
  induction bytes with
  | nil => rfl
  | cons byte bytes ih =>
    rw [unpack, List.flatMap_cons, List.length_append, length_bitsOf, List.length_cons]
    show 8 + (unpack bytes).length = _
    omega

/-- A bit is looked up in its byte. -/
theorem getElem?_unpack (bytes : List UInt8) (n : Nat) :
    (unpack bytes)[n]? = bytes[n / 8]?.map fun byte => byte.toNat.testBit (n % 8) := by
  induction bytes generalizing n with
  | nil => rfl
  | cons byte bytes ih =>
    show (bitsOf 8 byte.toNat ++ unpack bytes)[n]? = _
    by_cases hn : n < 8
    · rw [List.getElem?_append_left (by simpa using hn), Nat.div_eq_of_lt hn, Nat.mod_eq_of_lt hn,
        bitsOf, List.getElem?_map, List.getElem?_range hn]
      rfl
    · have hdiv : n / 8 = (n - 8) / 8 + 1 := by omega
      have hmod : (n - 8) % 8 = n % 8 := by omega
      rw [List.getElem?_append_right (by simpa using hn), length_bitsOf, ih, hdiv, hmod,
        List.getElem?_cons_succ]

@[simp] theorem length_pack (bits : List Bool) : (pack bits).length = (bits.length + 7) / 8 := by
  rw [pack, List.length_map, List.length_range]

theorem pack_append {bits : List Bool} (h : bits.length % 8 = 0) (rest : List Bool) :
    pack (bits ++ rest) = pack bits ++ pack rest := by
  obtain ⟨k, hk⟩ : ∃ k, bits.length = 8 * k := ⟨bits.length / 8, by omega⟩
  have hlength : ((bits ++ rest).length + 7) / 8 = k + (rest.length + 7) / 8 := by
    rw [List.length_append]
    omega
  have hbits : (bits.length + 7) / 8 = k := by omega
  rw [pack, hlength, List.range_add, List.map_append, List.map_map, pack, hbits, pack]
  refine congrArg₂ _ (List.map_congr_left fun i hi => ?_) (List.map_congr_left fun i _ => ?_)
  · have hi := List.mem_range.mp hi
    rw [List.drop_append_of_le_length (by omega),
      List.take_append_of_le_length (by rw [List.length_drop]; omega)]
  · have hdrop : 8 * (k + i) = bits.length + 8 * i := by omega
    show UInt8.ofNat (ofBits (((bits ++ rest).drop (8 * (k + i))).take 8)) = _
    rw [hdrop, List.drop_append, List.drop_of_length_le (Nat.le_add_right _ _), List.nil_append,
      Nat.add_sub_cancel_left]

theorem pack_of_length_le {bits : List Bool} (hne : bits ≠ []) (h : bits.length ≤ 8) :
    pack bits = [.ofNat (ofBits bits)] := by
  have hpos := List.length_pos_of_ne_nil hne
  have hone : (bits.length + 7) / 8 = 1 := by omega
  rw [pack, hone, List.range_one, List.map_singleton, Nat.mul_zero, List.drop_zero,
    List.take_of_length_le h]

theorem pack_concat_full {bits : List Bool} (h : bits.length % 8 = 0) (bit : Bool) :
    pack (bits ++ [bit]) = pack bits ++ [.ofNat bit.toNat] := by
  rw [pack_append h, pack_of_length_le (List.cons_ne_nil _ _) (by simp)]
  simp [ofBits]

theorem modify_last {α : Type*} (init : List α) (last : α) (f : α → α) :
    (init ++ [last]).modify ((init ++ [last]).length - 1) f = init ++ [f last] := by
  have hlast : (init ++ [last]).length - 1 = init.length := by simp
  rw [hlast]
  clear hlast
  induction init with
  | nil => rfl
  | cons a init ih =>
    rw [List.cons_append, List.length_cons, List.modify_succ_cons, ih]
    rfl

/-- A bit above those that a byte has. -/
theorem ofNat_add_two_pow {value i : Nat} (h : value < 2 ^ i) (hi : i < 8) :
    UInt8.ofNat (value + 2 ^ i) = .ofNat value ||| ((1 : UInt8) <<< .ofNat i) := by
  have hpow : 2 ^ i ≤ 2 ^ 7 := Nat.pow_le_pow_right (by omega) (by omega)
  have hshift : ((1 : UInt8) <<< .ofNat i).toNat = 2 ^ i := by
    have hmod : i % 2 ^ 8 % 8 = i := by omega
    rw [UInt8.toNat_shiftLeft, UInt8.toNat_ofNat', hmod, UInt8.toNat_one, Nat.one_shiftLeft]
    exact Nat.mod_eq_of_lt (by omega)
  apply UInt8.toNat_inj.mp
  rw [UInt8.toNat_or, hshift, UInt8.toNat_ofNat', UInt8.toNat_ofNat', Nat.mod_eq_of_lt (by omega),
    Nat.mod_eq_of_lt (by omega), Nat.or_comm, Nat.add_comm]
  have hor := Nat.two_pow_add_eq_or_of_lt h 1
  rwa [Nat.mul_one] at hor

theorem pack_concat {bits : List Bool} (h : bits.length % 8 ≠ 0) (bit : Bool) :
    pack (bits ++ [bit]) = if bit then (pack bits).modify ((pack bits).length - 1)
      (· ||| ((1 : UInt8) <<< .ofNat (bits.length % 8))) else pack bits := by
  obtain ⟨whole, part, rfl, hwhole, hpart⟩ : ∃ whole part, bits = whole ++ part ∧
      whole.length % 8 = 0 ∧ part.length = bits.length % 8 := by
    refine ⟨bits.take (8 * (bits.length / 8)), bits.drop (8 * (bits.length / 8)),
      (List.take_append_drop _ _).symm, ?_, ?_⟩
    · rw [List.length_take]
      omega
    · rw [List.length_drop]
      omega
  have hne : part ≠ [] := fun hnil => h (by rw [← hpart, hnil]; rfl)
  have hlast : pack (whole ++ part) = pack whole ++ [.ofNat (ofBits part)] := by
    rw [pack_append hwhole, pack_of_length_le hne (by omega)]
  have hnext : pack (part ++ [bit]) = [.ofNat (ofBits (part ++ [bit]))] := by
    refine pack_of_length_le (List.append_ne_nil_of_left_ne_nil hne _) ?_
    rw [List.length_append, List.length_singleton]
    omega
  rw [← hpart, hlast, modify_last, List.append_assoc, pack_append hwhole, hnext, ofBits_append]
  cases bit with
  | false => simp [ofBits]
  | true =>
    have hbit : ofBits part + 2 ^ part.length * ofBits [true] = ofBits part + 2 ^ part.length := by
      simp [ofBits]
    rw [hbit, ofNat_add_two_pow (ofBits_lt part) (by omega), if_pos rfl]

/-- Bits come back, with the zeros behind them. -/
theorem unpack_pack (bits : List Bool) : unpack (pack bits) =
    bits ++ List.replicate (8 * ((bits.length + 7) / 8) - bits.length) false := by
  refine List.ext_getElem? fun n => ?_
  rw [getElem?_unpack, pack, List.getElem?_map]
  by_cases hn : n < 8 * ((bits.length + 7) / 8)
  · have hbit :
        (ofBits ((bits.drop (8 * (n / 8))).take 8)).testBit (n % 8) = bits.getD n false := by
      have hindex : 8 * (n / 8) + n % 8 = n := by omega
      rw [testBit_ofBits, List.getD_eq_getElem?_getD, List.getElem?_take_of_lt (by omega),
        List.getElem?_drop, hindex, List.getD_eq_getElem?_getD]
    have hsmall : ofBits ((bits.drop (8 * (n / 8))).take 8) < 2 ^ 8 :=
      Nat.lt_of_lt_of_le (ofBits_lt _)
        (Nat.pow_le_pow_right (by omega) (List.length_take_le _ _))
    rw [List.getElem?_range (by omega), Option.map_some, Option.map_some, UInt8.toNat_ofNat',
      Nat.mod_eq_of_lt hsmall, hbit]
    rcases Nat.lt_or_ge n bits.length with hlt | hge
    · rw [List.getElem?_append_left hlt, List.getD_eq_getElem?_getD, List.getElem?_eq_getElem hlt]
      rfl
    · rw [List.getElem?_append_right hge, List.getElem?_replicate_of_lt (by omega),
        List.getD_eq_getElem?_getD, List.getElem?_eq_none hge]
      rfl
  · rw [List.getElem?_eq_none (by rw [List.length_range]; omega),
      List.getElem?_eq_none (by rw [List.length_append, List.length_replicate]; omega)]
    rfl

/-! ## Masks -/

theorem eq_of_bits {x y : UInt32} (h : ∀ i, x.toBitVec.getLsbD i = y.toBitVec.getLsbD i) :
    x = y :=
  UInt32.toBitVec_inj.mp (BitVec.eq_of_getLsbD_eq fun i _ => h i)

/-- No bit is in two masks that have none in common. -/
theorem bits_disjoint {m n : UInt32} (h : m &&& n = 0) (i : Nat) :
    (m.toBitVec.getLsbD i && n.toBitVec.getLsbD i) = false := by
  have hbit := congrArg (fun x : UInt32 => x.toBitVec.getLsbD i) h
  simpa using hbit

@[simp] theorem bit_set (x m : UInt32) (i : Nat) :
    (x ||| m).toBitVec.getLsbD i = (x.toBitVec.getLsbD i || m.toBitVec.getLsbD i) := by
  rw [UInt32.toBitVec_or, BitVec.getLsbD_or]

@[simp] theorem bit_clear (x m : UInt32) (i : Nat) :
    (x &&& ~~~m).toBitVec.getLsbD i = (x.toBitVec.getLsbD i && !m.toBitVec.getLsbD i) := by
  rw [UInt32.toBitVec_and, UInt32.toBitVec_not, BitVec.getLsbD_and, BitVec.getLsbD_not]
  by_cases hi : i < 32
  · rw [decide_eq_true hi, Bool.true_and]
  · rw [BitVec.getLsbD_of_ge x.toBitVec i (Nat.le_of_not_lt hi), Bool.false_and, Bool.false_and]

theorem set_and {m n : UInt32} (h : m &&& n = 0) (x : UInt32) : (x ||| m) &&& n = x &&& n := by
  refine eq_of_bits fun i => ?_
  have hbit := bits_disjoint h i
  rw [UInt32.toBitVec_and, UInt32.toBitVec_and, BitVec.getLsbD_and, BitVec.getLsbD_and, bit_set,
    Bool.and_or_distrib_right, hbit, Bool.or_false]

theorem clear_and {m n : UInt32} (h : m &&& n = 0) (x : UInt32) :
    (x &&& ~~~m) &&& n = x &&& n := by
  refine eq_of_bits fun i => ?_
  have hbit := bits_disjoint h i
  rw [UInt32.toBitVec_and (x &&& ~~~m), UInt32.toBitVec_and x n, BitVec.getLsbD_and,
    BitVec.getLsbD_and, bit_clear]
  cases hm : m.toBitVec.getLsbD i with
  | false => rw [Bool.not_false, Bool.and_true]
  | true =>
    rw [hm, Bool.true_and] at hbit
    rw [hbit, Bool.and_false, Bool.and_false]

theorem set_and_self (x m : UInt32) : (x ||| m) &&& m = m := by
  refine eq_of_bits fun i => ?_
  rw [UInt32.toBitVec_and, BitVec.getLsbD_and, bit_set, Bool.and_comm]
  cases m.toBitVec.getLsbD i with
  | false => rfl
  | true => rw [Bool.or_true, Bool.true_and]

theorem clear_and_self (x m : UInt32) : (x &&& ~~~m) &&& m = 0 := by
  refine eq_of_bits fun i => ?_
  rw [UInt32.toBitVec_and (x &&& ~~~m), BitVec.getLsbD_and, bit_clear, Bool.and_assoc,
    Bool.not_and_self, Bool.and_false]
  exact (BitVec.getLsbD_zero).symm

end CommandCenter.Library
