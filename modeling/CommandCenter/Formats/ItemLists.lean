import Mathlib.Data.Bool.AllAny
import CommandCenter.Formats.ItemBits
import Mathlib.Data.Prod.Lex

/-!
# Lists of stats that come back

What `read_list` of `crates/d2-data/src/item_bits.rs` makes of what `write_list` wrote. Of a sorted
list, the stats that count are written, each with its partners, but for those that were written as
partners; what is read has all of these, in that order, and is written as the list was.

* `writeStats_eq`: the stats that are written for themselves, and their bits.
* `reads_list`: they are read back.
* `writeList_back`: what was read back is written as the list was.
-/

namespace CommandCenter.Formats.ItemBits

open Rust Library

/-! ## Fields -/

theorem take_bitsOf (width k value : Nat) :
    (bitsOf width value).take k = bitsOf (min k width) value := by
  rw [bitsOf, ← List.map_take, List.take_range]
  rfl

theorem reads_get {v : UInt32} (bits : Nat) (h : v.toNat < 2 ^ bits) :
    Reads (get bits) (put v bits) v := by
  intro rest
  have hlen : bits ≤ (put v bits ++ rest).length := by
    rw [List.length_append, put, length_bitsOf]
    omega
  have htake : (put v bits ++ rest).take (min bits 32) = bitsOf (min bits 32) v.toNat := by
    rw [List.take_append_of_le_length (by rw [put, length_bitsOf]; omega), put, take_bitsOf,
      Nat.min_assoc, Nat.min_comm 32, ← Nat.min_assoc, Nat.min_self]
  have hsmall : v.toNat < 2 ^ min bits 32 := by
    rcases Nat.le_total bits 32 with hle | hle
    · rwa [Nat.min_eq_left hle]
    · rw [Nat.min_eq_right hle]
      exact v.toNat_lt
  have hdrop : (put v bits ++ rest).drop bits = rest :=
    List.drop_left' (length_bitsOf bits v.toNat)
  rw [get, if_pos hlen, htake, hdrop, ofBits_bitsOf, Nat.mod_eq_of_lt hsmall, UInt32.ofNat_toNat]

theorem reads_getU8 {v : UInt8} (bits : Nat) (h : v.toNat < 2 ^ bits) :
    Reads (getU8 bits) (put v.toUInt32 bits) v := by
  have hget : Reads (get bits) (put v.toUInt32 bits) v.toUInt32 := reads_get _ (by simpa using h)
  simpa [getU8] using hget.map UInt32.toUInt8

theorem reads_getU16 {v : UInt16} (bits : Nat) (h : v.toNat < 2 ^ bits) :
    Reads (getU16 bits) (put v.toUInt32 bits) v := by
  have hget : Reads (get bits) (put v.toUInt32 bits) v.toUInt32 := reads_get _ (by simpa using h)
  simpa [getU16] using hget.map UInt32.toUInt16

theorem clamped_of_lt {v : UInt32} {bits : Nat} (h : v.toNat < 2 ^ bits) :
    clamped v bits = put v bits := by
  have hmin : v ≤ if 32 ≤ bits then 0xFFFFFFFF else .ofNat (2 ^ bits - 1) := by
    rw [UInt32.le_iff_toNat_le]
    split
    · have hlt := v.toNat_lt
      show v.toNat ≤ 4294967295
      omega
    · rename_i hbits
      have hpow : 2 ^ bits ≤ 2 ^ 31 := Nat.pow_le_pow_right (by omega) (by omega)
      rw [UInt32.toNat_ofNat', Nat.mod_eq_of_lt (by omega)]
      omega
  exact congrArg (put · bits) (if_pos hmin)

theorem reads_if {α : Type} (present : Bool) {reader : Reader α} {written : Writer} {value : α}
    (default : α) (h : present = true → Reads reader written value) :
    Reads (readIf present reader default) (if present then written else [])
      (if present then value else default) := by
  cases present with
  | true => exact h rfl
  | false => exact Reads.pure default

/-! ## Values -/

theorem toInt_shr (v : Int32) (n : UInt8) :
    (shr v n).toInt = v.toInt / 2 ^ (n.toNat % 32) := by
  show (v.toBitVec.sshiftRight _).toInt = _
  rw [BitVec.toInt_sshiftRight, Int.shiftRight_eq_div_pow]
  simp

/-- Multiples of a power of two below the sign bit stay in range. -/
theorem ediv_mul_two_pow {v : Int} {k : Nat} (hk : k < 32) (hlow : -2 ^ 31 ≤ v)
    (hhigh : v < 2 ^ 31) : -2 ^ 31 ≤ v / 2 ^ k * 2 ^ k ∧ v / 2 ^ k * 2 ^ k < 2 ^ 31 := by
  have hpos : (0 : Int) < 2 ^ k := by positivity
  constructor
  · have hsplit : (2 : Int) ^ 31 = 2 ^ (31 - k) * 2 ^ k := by
      rw [← pow_add]
      congr 1
      omega
    have hquotient : -2 ^ (31 - k) ≤ v / 2 ^ k := by
      rw [Int.le_ediv_iff_mul_le hpos, neg_mul, ← hsplit]
      exact hlow
    rw [hsplit, ← neg_mul]
    exact Int.mul_le_mul_of_nonneg_right hquotient hpos.le
  · have hle := Int.ediv_mul_le v hpos.ne'
    omega

/-- What a value loses when it is shifted down and up again. -/
theorem toInt_shl_shr (v : Int32) (n : UInt8) :
    (shl (shr v n) n).toInt = v.toInt / 2 ^ (n.toNat % 32) * 2 ^ (n.toNat % 32) := by
  have hwhole := toInt_shr v n
  have hk : n.toNat % 32 < 32 := Nat.mod_lt _ (by decide)
  obtain ⟨hlow, hhigh⟩ := ediv_mul_two_pow hk (Int32.le_toInt v) (Int32.toInt_lt v)
  show BitVec.toInt ((shr v n).toBitVec <<< (n.toNat % 32)) = _
  have hvalue : (shr v n).toInt = ((shr v n).toBitVec.toNat : Int).bmod (2 ^ 32) :=
    BitVec.toInt_eq_toNat_bmod _
  have hshift : (((shr v n).toBitVec.toNat <<< (n.toNat % 32) : Nat) : Int) =
      (shr v n).toBitVec.toNat * 2 ^ (n.toNat % 32) := by
    rw [Nat.shiftLeft_eq]
    push_cast
    rfl
  rw [BitVec.toInt_shiftLeft, hshift, ← Int.bmod_mul_bmod, ← hvalue, hwhole]
  exact Int.bmod_eq_of_le (by norm_num; omega) (by norm_num; omega)

theorem shr_shl_shr (v : Int32) (n : UInt8) : shr (shl (shr v n) n) n = shr v n := by
  apply Int32.toInt_inj.mp
  rw [toInt_shr, toInt_shl_shr, toInt_shr]
  exact Int.mul_ediv_cancel _ (by positivity)

/-- The value is written as it is, and not clamped. -/
def StatCost.Fits (cost : StatCost) (v : Int32) : Prop :=
  (StatCost.raw cost v).toNat < 2 ^ cost.saveBits.toNat

def StatCost.back (cost : StatCost) (v : Int32) : Int32 := shl (shr v cost.valShift) cost.valShift

theorem raw_back (cost : StatCost) (v : Int32) :
    StatCost.raw cost (StatCost.back cost v) = StatCost.raw cost v := by
  rw [StatCost.raw, StatCost.back, shr_shl_shr]
  rfl

theorem shr_mono {v w : Int32} (h : v ≤ w) (n : UInt8) : shr v n ≤ shr w n := by
  rw [Int32.le_iff_toInt_le] at h ⊢
  rw [toInt_shr, toInt_shr]
  exact Int.ediv_le_ediv (by positivity) h

theorem back_le_back {cost : StatCost} {v w : Int32}
    (h : shr v cost.valShift ≤ shr w cost.valShift) :
    StatCost.back cost v ≤ StatCost.back cost w := by
  rw [Int32.le_iff_toInt_le, toInt_shr, toInt_shr] at h
  rw [Int32.le_iff_toInt_le, StatCost.back, StatCost.back, toInt_shl_shr, toInt_shl_shr]
  exact Int.mul_le_mul_of_nonneg_right h (by positivity)

/-- The value of a stat as it is read back. -/
def backOf (stats : ItemStats) (id : UInt16) (v : Int32) : Int32 :=
  ((stats.get id).map fun cost => StatCost.back cost v).getD 0

theorem reads_value {stats : ItemStats} {id : UInt16} {cost : StatCost} {v : Int32}
    (hcost : stats.get id = some cost) (hfits : StatCost.Fits cost v) :
    Reads (readValue stats id) (writeValue stats id v) (backOf stats id v) := by
  have hget := (reads_get _ hfits).map
    fun raw => shl (raw.toInt32 - cost.saveAdd) cost.valShift
  have hvalue : shl ((StatCost.raw cost v).toInt32 - cost.saveAdd) cost.valShift =
      StatCost.back cost v := by
    have hsame : (StatCost.raw cost v).toInt32 = shr v cost.valShift + cost.saveAdd := rfl
    rw [hsame, Int32.add_sub_cancel]
    rfl
  rw [hvalue] at hget
  rw [readValue, writeValue, backOf, hcost]
  dsimp only
  rw [clamped_of_lt hfits]
  exact hget

theorem writeValue_back (stats : ItemStats) (id : UInt16) (v : Int32) :
    writeValue stats id (backOf stats id v) = writeValue stats id v := by
  rw [writeValue, writeValue, backOf]
  cases stats.get id with
  | none => rfl
  | some cost =>
    show clamped (StatCost.raw cost (StatCost.back cost v)) _ = _
    rw [raw_back]

/-! ## The order of stats -/

namespace ItemStat

def key (s : ItemStat) : ℕ ×ₗ ℕ ×ₗ ℤ := toLex (s.id.toNat, toLex (s.param.toNat, s.value.toInt))

theorem le_iff {a b : ItemStat} : a.le b = true ↔ a.key ≤ b.key := by
  rw [le, key, key, Prod.Lex.toLex_le_toLex, Prod.Lex.toLex_le_toLex]
  simp [UInt16.lt_iff_toNat_lt, UInt16.toNat_inj, Int32.le_iff_toInt_le]

theorem key_injective : Function.Injective key := by
  intro a b h
  obtain ⟨hid, hrest⟩ := Prod.mk.inj h
  obtain ⟨hparam, hvalue⟩ := Prod.mk.inj hrest
  obtain ⟨id, param, value⟩ := a
  obtain ⟨id', param', value'⟩ := b
  obtain rfl : id = id' := UInt16.toNat_inj.mp hid
  obtain rfl : param = param' := UInt16.toNat_inj.mp hparam
  obtain rfl : value = value' := Int32.toInt_inj.mp hvalue
  rfl

end ItemStat

abbrev sortedStats (list : List ItemStat) : List ItemStat := list.mergeSort ItemStat.le

theorem pairwise_sorted (list : List ItemStat) :
    (sortedStats list).Pairwise fun a b => a.key ≤ b.key := by
  refine (List.pairwise_mergeSort (fun a b c hab hbc => ?_) (fun a b => ?_) list).imp
    fun h => ItemStat.le_iff.mp h
  · exact ItemStat.le_iff.mpr ((ItemStat.le_iff.mp hab).trans (ItemStat.le_iff.mp hbc))
  · rw [Bool.or_eq_true, ItemStat.le_iff, ItemStat.le_iff]
    exact le_total _ _

theorem id_le_of_key {a b : ItemStat} (h : a.key ≤ b.key) : a.id ≤ b.id := by
  rw [ItemStat.key, ItemStat.key, Prod.Lex.toLex_le_toLex] at h
  rw [UInt16.le_iff_toNat_le]
  rcases h with hlt | ⟨heq, _⟩
  · exact Nat.le_of_lt hlt
  · exact Nat.le_of_eq heq

/-! ## What is written of a list -/

/-- The stat is known, has a width and is not zero once shifted. -/
def Counts (stats : ItemStats) (s : ItemStat) : Prop :=
  ∃ cost ∈ stats.get s.id, cost.saveBits ≠ 0 ∧ shr s.value cost.valShift ≠ 0

/-- A stat of the list carries this one as its partner. -/
def Led (stats : ItemStats) (list : List ItemStat) (id : UInt16) : Prop :=
  ∃ t ∈ list, Counts stats t ∧ ∃ ps ∈ partners t.id, id ∈ ps

/-- The stat is written for itself. -/
def Heads (stats : ItemStats) (list : List ItemStat) (s : ItemStat) : Prop :=
  Counts stats s ∧ ¬ Led stats list s.id

instance (stats : ItemStats) : DecidablePred (Counts stats) := fun s =>
  inferInstanceAs (Decidable (∃ cost ∈ stats.get s.id, _))

instance (stats : ItemStats) (list : List ItemStat) (id : UInt16) :
    Decidable (Led stats list id) :=
  inferInstanceAs (Decidable (∃ t ∈ list, Counts stats t ∧ ∃ ps ∈ partners t.id, id ∈ ps))

instance (stats : ItemStats) (list : List ItemStat) : DecidablePred (Heads stats list) :=
  fun _ => inferInstanceAs (Decidable (_ ∧ _))

/-- The stats of a list that are written for themselves, in order. -/
def headsOf (stats : ItemStats) (list : List ItemStat) : List ItemStat :=
  (sortedStats list).filter (Heads stats (sortedStats list))

theorem partners_spec {id p : UInt16} {ps : List UInt16} (h : partners id = some ps) (hp : p ∈ ps) :
    id < p ∧ partners p = none := by
  have hall : ∀ g ∈ groups, ∀ p ∈ g.2, g.1 < p ∧ partners p = none := by
    have hgroups : groups.all (fun g => g.2.all fun p => g.1 < p ∧ partners p = none) = true := by
      decide
    intro g hg
    exact List.all_iff_forall_prop.mp (List.all_eq_true.mp hgroups g hg)
  obtain ⟨g, hg, rfl⟩ := Option.map_eq_some_iff.mp h
  have hid : g.1 = id := by simpa using List.find?_some hg
  have hfound := hall g (List.mem_of_find?_eq_some hg) p hp
  rwa [hid] at hfound

/-- The bits of a stat that is written for itself. -/
def statBits (stats : ItemStats) (list : List ItemStat) (s : ItemStat) : Writer :=
  put s.id.toUInt32 9 ++
    match partners s.id with
    | some ps => writeValue stats s.id s.value ++
        ps.flatMap fun p => writeValue stats p (partnerValue list p)
    | none =>
      (match stats.get s.id with
      | some cost =>
        if 0 < cost.paramBits then clamped s.param.toUInt32 cost.paramBits.toNat else []
      | none => []) ++ writeValue stats s.id s.value

theorem led_concat {stats : ItemStats} {list : List ItemStat} {s : ItemStat} {id : UInt16} :
    Led stats (list ++ [s]) id ↔ Led stats list id ∨
      Counts stats s ∧ ∃ ps ∈ partners s.id, id ∈ ps := by
  simp [Led, or_and_right, exists_or]

/-- Of a sorted list, each stat that heads is written, in order. -/
theorem writeStats_eq (stats : ItemStats) {sorted done left : List ItemStat}
    {written : List UInt16} (hsplit : sorted = done ++ left)
    (hsorted : sorted.Pairwise fun a b => a.key ≤ b.key)
    (hwritten : ∀ id, id ∈ written ↔ Led stats done id) :
    writeStats stats sorted written left =
      (left.filter (Heads stats sorted)).flatMap (statBits stats sorted) ++ put 0x1FF 9 := by
  induction left generalizing done written with
  | nil => rfl
  | cons s left ih =>
    have hnext : sorted = done ++ [s] ++ left := by rw [hsplit, List.append_assoc]; rfl
    -- a stat that leads comes before its partners
    have hled : Led stats sorted s.id ↔ s.id ∈ written := by
      rw [hwritten]
      constructor
      · rintro ⟨t, ht, hcounts, ps, hps, hid⟩
        refine ⟨t, ?_, hcounts, ps, hps, hid⟩
        rw [hsplit, List.mem_append] at ht
        rcases ht with hdone | hleft
        · exact hdone
        · rw [hsplit] at hsorted
          have hle : s.id ≤ t.id := by
            rcases List.mem_cons.mp hleft with rfl | hlater
            · exact UInt16.le_refl _
            · have htail := (List.pairwise_append.mp hsorted).2.1
              exact id_le_of_key (List.rel_of_pairwise_cons htail hlater)
          exact absurd (partners_spec hps hid).1 (UInt16.not_lt.mpr hle)
      · rintro ⟨t, ht, hrest⟩
        exact ⟨t, by rw [hsplit]; exact List.mem_append_left _ ht, hrest⟩
    rw [writeStats]
    split
    · rename_i hnone
      have hcounts : ¬ Counts stats s := by
        rintro ⟨cost, hcost, _⟩
        cases hnone.symm.trans hcost
      have hheads : ¬ Heads stats sorted s := fun h => hcounts h.1
      rw [List.filter_cons_of_neg (by simpa using hheads)]
      refine ih hnext fun id => ?_
      rw [hwritten, led_concat, or_iff_left fun h => hcounts h.1]
    · rename_i cost hcost
      split
      · rename_i hskip
        have hheads : ¬ Heads stats sorted s := by
          rintro ⟨⟨cost', hcost', hbits, hvalue⟩, hnot⟩
          obtain rfl := Option.some.inj (hcost.symm.trans hcost')
          rcases hskip with hzero | hzero | hmem
          · exact hbits hzero
          · exact hvalue hzero
          · exact hnot (hled.mpr hmem)
        rw [List.filter_cons_of_neg (by simpa using hheads)]
        refine ih hnext fun id => ?_
        rw [hwritten, led_concat, or_iff_left]
        rintro ⟨hcounts, ps, hps, _⟩
        -- a stat that counts and is not written is a partner, and leads none
        obtain ⟨t, _, _, ps', hps', hid⟩ := not_not.mp fun hnot => hheads ⟨hcounts, hnot⟩
        rw [(partners_spec hps' hid).2] at hps
        cases hps
      · rename_i hskip
        rw [not_or, not_or] at hskip
        have hcounts : Counts stats s := ⟨cost, hcost, hskip.1, hskip.2.1⟩
        have hheads : Heads stats sorted s := ⟨hcounts, fun h => hskip.2.2 (hled.mp h)⟩
        rw [List.filter_cons_of_pos (by simpa using hheads), List.flatMap_cons, statBits, hcost]
        cases hps : partners s.id with
        | some ps =>
          dsimp only
          rw [ih hnext fun id => ?_]
          · simp only [List.append_assoc]
          · rw [List.mem_append, hwritten, led_concat]
            refine or_congr_right ⟨fun hid => ⟨hcounts, ps, hps, hid⟩, ?_⟩
            rintro ⟨_, ps', hps', hid⟩
            rwa [Option.some.inj (hps.symm.trans hps')]
        | none =>
          dsimp only
          rw [ih hnext fun id => ?_]
          · simp only [List.append_assoc]
          · rw [hwritten, led_concat, or_iff_left]
            rintro ⟨_, ps', hps', _⟩
            cases hps.symm.trans hps'

theorem writeList_eq (stats : ItemStats) (list : List ItemStat) : writeList stats list =
    (headsOf stats list).flatMap (statBits stats (sortedStats list)) ++ put 0x1FF 9 := by
  refine writeStats_eq stats (List.nil_append _).symm (pairwise_sorted list) fun id => ?_
  simp [Led]

/-! ## What is read of it -/

/-- A stat that is written for itself, as it is read back. -/
def statBack (stats : ItemStats) (s : ItemStat) : ItemStat where
  id := s.id
  param := if (partners s.id).isSome then 0 else s.param
  value := backOf stats s.id s.value

/-- A stat that is written for itself and its partners, as they are read back. -/
def groupBack (stats : ItemStats) (list : List ItemStat) (s : ItemStat) : List ItemStat :=
  statBack stats s ::
    ((partners s.id).getD []).map fun p => ⟨p, 0, backOf stats p (partnerValue list p)⟩

def listBack (stats : ItemStats) (list : List ItemStat) : List ItemStat :=
  (headsOf stats list).flatMap (groupBack stats (sortedStats list))

/-- The ids, parameters and values that are written of a list fit their widths, and so do the
values of partners, which are zero where there is no such stat. No id is that of the end mark, and
parameters, without which a group is written, do not order stats that lead the same group. -/
structure Lossless (stats : ItemStats) (list : List ItemStat) : Prop where
  id : ∀ s ∈ list, Counts stats s → s.id < 0x1FF
  value : ∀ s ∈ list, Counts stats s → ∀ cost ∈ stats.get s.id, StatCost.Fits cost s.value
  param : ∀ s ∈ list, Counts stats s → partners s.id = none → ∀ cost ∈ stats.get s.id,
    s.param.toNat < 2 ^ cost.paramBits.toNat
  partner : ∀ s ∈ list, Counts stats s → ∀ ps ∈ partners s.id, ∀ p ∈ ps, ∃ cost ∈ stats.get p,
    StatCost.Fits cost (partnerValue (sortedStats list) p)
  leads : ∀ s ∈ list, ∀ t ∈ list, Counts stats s → Counts stats t → s.id = t.id →
    (partners s.id).isSome → s.param < t.param → ∀ cost ∈ stats.get s.id,
      shr s.value cost.valShift ≤ shr t.value cost.valShift

theorem reads_partners {stats : ItemStats} {list : List ItemStat} {ps : List UInt16}
    (h : ∀ p ∈ ps, ∃ cost ∈ stats.get p, StatCost.Fits cost (partnerValue list p)) :
    Reads (readPartners stats ps) (ps.flatMap fun p => writeValue stats p (partnerValue list p))
      (ps.map fun p => ⟨p, 0, backOf stats p (partnerValue list p)⟩) := by
  induction ps with
  | nil => exact Reads.pure []
  | cons p ps ih =>
    obtain ⟨cost, hcost, hfits⟩ := h p (List.mem_cons_self ..)
    have hrest := ih fun p' hp' => h p' (List.mem_cons_of_mem p hp')
    exact (reads_value hcost hfits).bind (hrest.map fun rest => _ :: rest)

theorem reads_stat {stats : ItemStats} {list : List ItemStat}
    (hfits : Lossless stats list) {s : ItemStat} (hs : s ∈ list) (hcounts : Counts stats s) :
    ∃ body, statBits stats (sortedStats list) s = put s.id.toUInt32 9 ++ body ∧
      Reads (readStat stats s.id) body (groupBack stats (sortedStats list) s) := by
  obtain ⟨cost, hcost, _⟩ := id hcounts
  have hvalue := reads_value hcost (hfits.value s hs hcounts cost hcost)
  refine ⟨_, rfl, ?_⟩
  rw [readStat, groupBack, statBack]
  cases hps : partners s.id with
  | some ps =>
    have hpartners := reads_partners (hfits.partner s hs hcounts ps hps)
    exact hvalue.bind (hpartners.map fun rest => _ :: rest)
  | none =>
    have hcost' : stats.get s.id = some cost := hcost
    have hsmall := hfits.param s hs hcounts hps cost hcost
    dsimp only
    rw [hcost']
    dsimp only
    have hparam : Reads (readIf (0 < cost.paramBits) (getU16 cost.paramBits.toNat) 0)
        (if 0 < cost.paramBits then clamped s.param.toUInt32 cost.paramBits.toNat else [])
          s.param := by
      by_cases hbits : 0 < cost.paramBits
      · have hsmall' : s.param.toUInt32.toNat < 2 ^ cost.paramBits.toNat := by simpa using hsmall
        rw [if_pos hbits, clamped_of_lt hsmall', readIf, if_pos (decide_eq_true hbits)]
        exact reads_getU16 _ hsmall
      · have hzero : cost.paramBits.toNat = 0 := by
          rw [UInt8.lt_iff_toNat_lt, Nat.not_lt] at hbits
          exact Nat.le_zero.mp hbits
        rw [hzero, Nat.pow_zero, Nat.lt_one_iff] at hsmall
        have hparam : s.param = 0 := UInt16.toNat_inj.mp hsmall
        rw [if_neg hbits, readIf, if_neg (by simpa using hbits), hparam]
        exact Reads.pure 0
    exact hparam.bind (hvalue.map fun value => [(⟨s.id, s.param, value⟩ : ItemStat)])

theorem reads_stats {stats : ItemStats} {list : List ItemStat} (hfits : Lossless stats list)
    {heads : List ItemStat} (hheads : ∀ s ∈ heads, s ∈ list ∧ Counts stats s) {fuel : Nat}
    (hfuel : heads.length < fuel) :
    Reads (readStats stats fuel)
      (heads.flatMap (statBits stats (sortedStats list)) ++ put 0x1FF 9)
      (heads.flatMap (groupBack stats (sortedStats list))) := by
  induction heads generalizing fuel with
  | nil =>
    obtain ⟨fuel, rfl⟩ := Nat.exists_eq_add_one_of_ne_zero (Nat.ne_of_gt hfuel)
    have hend := (reads_get (v := 0x1FF) 9 (by decide)).bind
      (f := fun id => if id = 0x1FF then pure [] else do
        let read ← readStat stats id.toUInt16
        return read ++ (← readStats stats fuel)) (Reads.pure [])
    rwa [List.append_nil] at hend
  | cons s heads ih =>
    obtain ⟨fuel, rfl⟩ := Nat.exists_eq_add_one_of_ne_zero (Nat.ne_of_gt (Nat.zero_lt_of_lt hfuel))
    obtain ⟨hs, hcounts⟩ := hheads s (List.mem_cons_self ..)
    obtain ⟨body, hbody, hread⟩ := reads_stat hfits hs hcounts
    have hrest := ih (fun t ht => hheads t (List.mem_cons_of_mem s ht))
      (Nat.lt_of_succ_lt_succ hfuel)
    have hid : s.id.toNat < 511 := UInt16.lt_iff_toNat_lt.mp (hfits.id s hs hcounts)
    have hget : Reads (get 9) (put s.id.toUInt32 9) s.id.toUInt32 :=
      reads_get _ (by rw [UInt16.toNat_toUInt32]; omega)
    have hne : s.id.toUInt32 ≠ 0x1FF := by
      intro hmark
      have hnat := congrArg UInt32.toNat hmark
      rw [UInt16.toNat_toUInt32] at hnat
      have hend : s.id.toNat = 511 := hnat
      omega
    rw [List.flatMap_cons, List.flatMap_cons, hbody, List.append_assoc, List.append_assoc]
    refine hget.bind ?_
    rw [if_neg hne, UInt16.toUInt16_toUInt32]
    exact hread.bind (hrest.map fun rest => _ ++ rest)

theorem mem_heads {stats : ItemStats} {list : List ItemStat} {s : ItemStat}
    (hs : s ∈ headsOf stats list) : s ∈ list ∧ Heads stats (sortedStats list) s := by
  obtain ⟨hmem, hheads⟩ := List.mem_filter.mp hs
  exact ⟨List.mem_mergeSort.mp hmem, of_decide_eq_true hheads⟩

/-- **A list that is written is read back.** -/
theorem reads_list {stats : ItemStats} {list : List ItemStat} (hfits : Lossless stats list) :
    Reads (readList stats) (writeList stats list) (listBack stats list) := by
  intro rest
  rw [writeList_eq]
  refine reads_stats hfits (fun s hs => (mem_heads hs).imp_right And.left) ?_ rest
  -- each id takes nine bits
  have hids (heads : List ItemStat) :
      9 * heads.length ≤ (heads.flatMap (statBits stats (sortedStats list))).length := by
    induction heads with
    | nil => exact Nat.le_refl _
    | cons s heads ih =>
      rw [List.flatMap_cons, List.length_append, statBits, List.length_append, put, length_bitsOf,
        List.length_cons]
      omega
  have hlen := hids (headsOf stats list)
  rw [List.length_append, List.length_append, put, length_bitsOf]
  omega

/-! ## Writing it again -/

theorem counts_back {stats : ItemStats} {s : ItemStat} (h : Counts stats s) :
    Counts stats (statBack stats s) := by
  obtain ⟨cost, hcost, hbits, hvalue⟩ := h
  refine ⟨cost, hcost, hbits, ?_⟩
  have hcost' : stats.get s.id = some cost := hcost
  rw [statBack, backOf, hcost']
  show shr (shl (shr s.value cost.valShift) cost.valShift) cost.valShift ≠ 0
  rwa [shr_shl_shr]

theorem mem_groupBack {stats : ItemStats} {list : List ItemStat} {s x : ItemStat} :
    x ∈ groupBack stats list s ↔ x = statBack stats s ∨ ∃ ps ∈ partners s.id, ∃ p ∈ ps,
      x = ⟨p, 0, backOf stats p (partnerValue list p)⟩ := by
  rw [groupBack, List.mem_cons, List.mem_map]
  refine or_congr_right ?_
  cases partners s.id with
  | none => simp
  | some ps => simp [eq_comm]

theorem heads_of_leads {stats : ItemStats} {list : List ItemStat} {t : ItemStat}
    (hcounts : Counts stats t) {ps : List UInt16} (hps : partners t.id = some ps) :
    Heads stats list t := by
  refine ⟨hcounts, ?_⟩
  rintro ⟨u, _, _, qs, hqs, htq⟩
  cases (partners_spec hqs htq).2.symm.trans hps

theorem listBack_ne_nil {stats : ItemStats} {list : List ItemStat} {s : ItemStat} (hs : s ∈ list)
    (hcounts : Counts stats s) : listBack stats list ≠ [] := by
  have hhead : ∃ t ∈ sortedStats list, Heads stats (sortedStats list) t := by
    by_cases hled : Led stats (sortedStats list) s.id
    · obtain ⟨t, ht, hcounts, ps, hps, _⟩ := hled
      exact ⟨t, ht, heads_of_leads hcounts hps⟩
    · exact ⟨s, List.mem_mergeSort.mpr hs, hcounts, hled⟩
  obtain ⟨t, ht, hheads⟩ := hhead
  have hmem : t ∈ headsOf stats list := List.mem_filter.mpr ⟨ht, decide_eq_true hheads⟩
  exact List.ne_nil_of_mem (List.mem_flatMap.mpr ⟨t, hmem, mem_groupBack.mpr (Or.inl rfl)⟩)

/-- The stats that lead partners are the same. -/
theorem led_back {stats : ItemStats} {list : List ItemStat} {id : UInt16} :
    Led stats (listBack stats list) id ↔ Led stats (sortedStats list) id := by
  constructor
  · rintro ⟨x, hx, hcounts, ps, hps, hid⟩
    obtain ⟨s, hs, hx⟩ := List.mem_flatMap.mp hx
    obtain ⟨hmem, hheads⟩ := mem_heads hs
    rcases mem_groupBack.mp hx with rfl | ⟨ps', hps', p, hp, rfl⟩
    · exact ⟨s, List.mem_mergeSort.mpr hmem, hheads.1, ps, hps, hid⟩
    · have hnone := (partners_spec hps' hp).2
      cases hnone.symm.trans hps
  · rintro ⟨t, ht, hcounts, ps, hps, hid⟩
    have hheads : Heads stats (sortedStats list) t := heads_of_leads hcounts hps
    refine ⟨statBack stats t, List.mem_flatMap.mpr ⟨t, ?_, mem_groupBack.mpr (Or.inl rfl)⟩,
      counts_back hcounts, ps, hps, hid⟩
    exact List.mem_filter.mpr ⟨ht, decide_eq_true hheads⟩

theorem led_congr {stats : ItemStats} {list list' : List ItemStat} (h : ∀ s, s ∈ list ↔ s ∈ list')
    (id : UInt16) : Led stats list id ↔ Led stats list' id :=
  exists_congr fun s => and_congr_left' (h s)

/-- Of a stat and its partners as they are read back, the stat is written for itself. -/
theorem filter_groupBack {stats : ItemStats} {list : List ItemStat} {s : ItemStat}
    (hs : s ∈ headsOf stats list) :
    (groupBack stats (sortedStats list) s).filter
      (Heads stats (sortedStats (listBack stats list))) = [statBack stats s] := by
  obtain ⟨hmem, hcounts, hnot⟩ := mem_heads hs
  have hled (id : UInt16) : Led stats (sortedStats (listBack stats list)) id ↔
      Led stats (sortedStats list) id :=
    (led_congr (fun _ => List.mem_mergeSort) id).trans led_back
  have hhead : Heads stats (sortedStats (listBack stats list)) (statBack stats s) :=
    ⟨counts_back hcounts, fun h => hnot ((hled s.id).mp h)⟩
  rw [groupBack, List.filter_cons_of_pos (by simpa using hhead)]
  refine congrArg _ (List.filter_eq_nil_iff.mpr fun x hx => ?_)
  obtain ⟨p, hp, rfl⟩ := List.mem_map.mp hx
  rw [decide_eq_true_eq]
  rintro ⟨_, hfree⟩
  refine hfree ((hled p).mpr ⟨s, List.mem_mergeSort.mpr hmem, hcounts, ?_⟩)
  cases hps : partners s.id with
  | none =>
    rw [hps] at hp
    cases hp
  | some ps =>
    rw [hps] at hp
    exact ⟨ps, rfl, hp⟩

/-- Stats that are written for themselves keep their order. -/
theorem key_back {stats : ItemStats} {list : List ItemStat} (hfits : Lossless stats list)
    {s t : ItemStat} (hs : s ∈ headsOf stats list) (ht : t ∈ headsOf stats list)
    (h : s.key ≤ t.key) : (statBack stats s).key ≤ (statBack stats t).key := by
  obtain ⟨hmems, hcounts, _⟩ := mem_heads hs
  obtain ⟨hmemt, hcountt, _⟩ := mem_heads ht
  rw [ItemStat.key, ItemStat.key, Prod.Lex.toLex_le_toLex] at h ⊢
  rcases h with hlt | ⟨hid, hrest⟩
  · exact Or.inl hlt
  · refine Or.inr ⟨hid, ?_⟩
    have hid : s.id = t.id := UInt16.toNat_inj.mp hid
    obtain ⟨cost, hcost, _⟩ := id hcounts
    have hcost' : stats.get s.id = some cost := hcost
    have hshifted (h : shr s.value cost.valShift ≤ shr t.value cost.valShift) :
        (backOf stats s.id s.value).toInt ≤ (backOf stats s.id t.value).toInt := by
      rw [backOf, backOf, hcost']
      exact Int32.le_iff_toInt_le.mp (back_le_back h)
    have hvalue (h : s.value.toInt ≤ t.value.toInt) :
        (backOf stats s.id s.value).toInt ≤ (backOf stats s.id t.value).toInt :=
      hshifted (shr_mono (Int32.le_iff_toInt_le.mpr h) _)
    rw [Prod.Lex.toLex_le_toLex] at hrest ⊢
    rw [statBack, statBack, ← hid]
    by_cases hleads : (partners s.id).isSome = true
    · refine Or.inr ⟨by simp [hleads], ?_⟩
      rcases hrest with hlt | ⟨_, hle⟩
      · exact hshifted (hfits.leads s hmems t hmemt hcounts hcountt hid hleads
          (UInt16.lt_iff_toNat_lt.mpr hlt) cost hcost)
      · exact hvalue hle
    · rw [if_neg hleads, if_neg hleads]
      rcases hrest with hlt | ⟨heq, hle⟩
      · exact Or.inl hlt
      · exact Or.inr ⟨heq, hvalue hle⟩

/-- Of what is read back, the same stats are written for themselves, in the same order. -/
theorem heads_back {stats : ItemStats} {list : List ItemStat} (hfits : Lossless stats list) :
    headsOf stats (listBack stats list) = (headsOf stats list).map (statBack stats) := by
  have hperm : (headsOf stats (listBack stats list)).Perm
      ((headsOf stats list).map (statBack stats)) := by
    have hfilter : (listBack stats list).filter
        (Heads stats (sortedStats (listBack stats list))) =
          (headsOf stats list).map (statBack stats) := by
      rw [listBack, List.filter_flatMap, List.map_eq_flatMap]
      exact List.flatMap_congr fun s hs => filter_groupBack hs
    rw [← hfilter]
    exact (List.mergeSort_perm _ _).filter _
  have hsorted : ((headsOf stats list).map (statBack stats)).Pairwise
      fun a b => a.key ≤ b.key := by
    rw [List.pairwise_map]
    refine List.Pairwise.imp_of_mem (fun hs ht h => key_back hfits hs ht h) ?_
    exact (pairwise_sorted list).filter _
  refine List.Perm.eq_of_pairwise (fun a b _ _ hab hba => ?_) ((pairwise_sorted _).filter _)
    hsorted hperm
  exact ItemStat.key_injective (le_antisymm hab hba)

theorem partnerValue_back {stats : ItemStats} {list : List ItemStat} {s : ItemStat}
    (hs : s ∈ headsOf stats list) {ps : List UInt16} (hps : partners s.id = some ps) {p : UInt16}
    (hp : p ∈ ps) : partnerValue (sortedStats (listBack stats list)) p =
      backOf stats p (partnerValue (sortedStats list) p) := by
  obtain ⟨hmem, hcounts, _⟩ := mem_heads hs
  have hled : Led stats (sortedStats list) p :=
    ⟨s, List.mem_mergeSort.mpr hmem, hcounts, ps, hps, hp⟩
  -- what has the id of a partner was read as one
  have hall (x : ItemStat) (hx : x ∈ sortedStats (listBack stats list)) (hid : x.id = p) :
      x.value = backOf stats p (partnerValue (sortedStats list) p) := by
    obtain ⟨t, ht, hx⟩ := List.mem_flatMap.mp (List.mem_mergeSort.mp hx)
    rcases mem_groupBack.mp hx with rfl | ⟨qs, hqs, q, hq, rfl⟩
    · exact absurd (hid ▸ hled) (mem_heads ht).2.2
    · obtain rfl : q = p := hid
      rfl
  have hsome : ((sortedStats (listBack stats list)).find? (·.id = p)).isSome = true := by
    rw [List.find?_isSome]
    refine ⟨⟨p, 0, backOf stats p (partnerValue (sortedStats list) p)⟩, ?_, by simp⟩
    refine List.mem_mergeSort.mpr (List.mem_flatMap.mpr ⟨s, hs, ?_⟩)
    exact mem_groupBack.mpr (Or.inr ⟨ps, hps, p, hp, rfl⟩)
  obtain ⟨x, hx⟩ := Option.isSome_iff_exists.mp hsome
  rw [partnerValue, hx]
  have hid := List.find?_some hx
  exact hall x (List.mem_of_find?_eq_some hx) (by simpa using hid)

/-- **A list that was read back is written as it was.** -/
theorem writeList_back {stats : ItemStats} {list : List ItemStat} (hfits : Lossless stats list) :
    writeList stats (listBack stats list) = writeList stats list := by
  rw [writeList_eq, writeList_eq, heads_back hfits, List.flatMap_map]
  refine congrArg (· ++ put 0x1FF 9) (List.flatMap_congr fun s hs => ?_)
  rw [statBits, statBits, statBack]
  refine congrArg (put s.id.toUInt32 9 ++ ·) ?_
  cases hps : partners s.id with
  | some ps =>
    dsimp only
    rw [writeValue_back]
    refine congrArg (writeValue stats s.id s.value ++ ·) (List.flatMap_congr fun p hp => ?_)
    rw [partnerValue_back hs hps hp, writeValue_back]
  | none =>
    dsimp only
    rw [writeValue_back]
    rfl

end CommandCenter.Formats.ItemBits
