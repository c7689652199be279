import CommandCenter.Formats.ItemRoundTrip
import CommandCenter.Formats.BuiltSave

/-!
# The simple items of a save

`Save::simple_items` and `Save::set_simple_items` of `crates/d2-formats/src/d2s.rs`, which read and
replace the player's items without the item tables, where every one is simple.

* `readSimpleItem_iff`: the bits of an item that is read.
* `simpleItemsFrom_succ_iff`: the bytes of a list that is read.
-/

namespace CommandCenter.Formats.D2s

open Rust Proto Library
open ItemBits (put codeOf codeValue)

/-! ## Bits in front of others -/

namespace BitReader

/-- `read(width)?`. -/
def take (width : Nat) : StateT BitReader Option UInt32 := fun r =>
  match r.read width with
  | (some v, r) => some (v, r)
  | (none, _) => none

theorem readFrom_short {i left : Nat} {value : UInt32} {r : BitReader}
    (h : r.rest.length < left) : (readFrom i value left r).1 = none := by
  induction left generalizing i value r with
  | zero => omega
  | succ left ih =>
    rw [readFrom]
    cases hrest : r.rest with
    | nil =>
      rw [next_eq, hrest]
      rfl
    | cons bit bits =>
      rw [next_eq, hrest]
      refine ih ?_
      have hdrop : BitReader.rest { r with bit := r.bit + 1 } = r.rest.drop 1 := by
        rw [BitReader.rest, BitReader.rest, List.drop_drop]
      rw [hdrop, hrest]
      rw [hrest] at h
      exact Nat.lt_of_succ_lt_succ h

theorem read_short {width : Nat} {r : BitReader} (h : r.rest.length < width) :
    (r.read width).1 = none := readFrom_short h

theorem rest_advance (r : BitReader) (width : Nat) :
    BitReader.rest ⟨r.data, r.bit + width⟩ = r.rest.drop width := by
  rw [BitReader.rest, BitReader.rest, List.drop_drop]

/-- What is read are the bits in front. -/
theorem take_iff {width : Nat} (hwidth : width ≤ 32) {r r' : BitReader} {v : UInt32} :
    take width r = some (v, r') ↔ v.toNat < 2 ^ width ∧ r.rest = put v width ++ r'.rest ∧
      r' = ⟨r.data, r.bit + width⟩ := by
  rw [take]
  constructor
  · intro h
    have hread : r.read width = (some v, r') := by
      split at h
      · rename_i v' s hok
        obtain ⟨rfl, rfl⟩ := Prod.mk.inj (Option.some.inj h)
        exact hok
      · cases h
    have hlong : width ≤ r.rest.length := by
      by_contra hshort
      have hnone := read_short (Nat.not_le.mp hshort)
      rw [hread] at hnone
      cases hnone
    have hlen : (r.rest.take width).length = width := List.length_take_of_le hlong
    obtain ⟨v', hv', hread'⟩ := read_append (List.take_append_drop width r.rest).symm (by omega)
    rw [hlen, hread] at hread'
    obtain ⟨hv, rfl⟩ := Prod.mk.inj hread'
    obtain rfl := Option.some.inj hv
    have hbits : put v width = r.rest.take width := by
      have hback := bitsOf_ofBits (r.rest.take width)
      rwa [hlen, ← hv'] at hback
    refine ⟨?_, ?_, rfl⟩
    · rw [hv']
      have hlt := ofBits_lt (r.rest.take width)
      rwa [hlen] at hlt
    · rw [hbits, rest_advance, List.take_append_drop]
  · rintro ⟨hv, hrest, rfl⟩
    obtain ⟨v', hv', hread, -⟩ := read_bitsOf hrest hv hwidth
    obtain rfl : v' = v := UInt32.toNat_inj.mp hv'
    rw [hread]

end BitReader

/-! ## Simple items -/

def itemCompact : UInt32 := 0x200000

def itemEar : UInt32 := 0x10000

/-- `gld `. -/
def goldCode : Code := #v[0x67, 0x6C, 0x64, 0x20]

/-- A simple item: no quality, stats or sockets. -/
structure SimpleItem where
  flags : UInt32
  version : UInt16
  mode : UInt8
  body : UInt8
  col : UInt8
  row : UInt8
  page : UInt8
  code : Code
  deriving DecidableEq

/-- A bit, and three words if it is set. -/
def readRealm : StateT BitReader Option PUnit := do
  let realm ← BitReader.take 1
  if realm ≠ 0 then
    let _ ← BitReader.take 32
    let _ ← BitReader.take 32
    let _ ← BitReader.take 32

/-- One simple item, behind its marker. -/
def readSimpleItem : StateT BitReader Option SimpleItem := do
  let flags ← BitReader.take 32
  if flags &&& itemCompact = 0 ∨ flags &&& itemEar ≠ 0 then failure
  else
    let version ← BitReader.take 10
    let mode ← BitReader.take 3
    if mode = 3 ∨ mode = 5 then failure
    else
      let body ← BitReader.take 4
      let col ← BitReader.take 4
      let row ← BitReader.take 4
      let page ← BitReader.take 3
      let code ← BitReader.take 32
      if codeOf code = goldCode then failure
      else
        readRealm
        return {
          flags
          version := version.toUInt16
          mode := mode.toUInt8
          body := body.toUInt8
          col := col.toUInt8
          row := row.toUInt8
          page := page.toUInt8
          code := codeOf code }

/-- So many simple items from `start`, and where they end. -/
def simpleItemsFrom (data : List UInt8) : (count start : Nat) → Option (List SimpleItem × Nat)
  | 0, start => some ([], start)
  | count + 1, start =>
    if (data.drop start).take 2 ≠ [0x4A, 0x4D] then none
    else do
      let (item, bits) ← readSimpleItem ⟨data.drop start, 16⟩
      let (items, stop) ← simpleItemsFrom data count (start + (bits.bit + 7) / 8)
      return (item :: items, stop)

/-- The player's own items when every one is simple, and where their list ends. -/
def Save.simpleItems (save : Save) : Option (List SimpleItem × Nat) :=
  if save.items.take 2 ≠ [0x4A, 0x4D] then none
  else
    match save.items.drop 2 with
    | lo :: hi :: _ => do
      let (items, stop) ← simpleItemsFrom save.items (fromLeBytes lo hi).toNat 4
      -- the corpse's list follows
      if (save.items.drop stop).take 2 = [0x4A, 0x4D] then return (items, stop) else none
    | _ => none

/-- One simple item, without realm data. -/
def writeSimpleItem (item : SimpleItem) : List UInt8 :=
  let bits : BitWriter := ⟨[], 0⟩
  let bits := bits.write 0x4D4A 16
  let bits := bits.write (item.flags ||| itemCompact) 32
  let bits := bits.write (min item.version 0x3FF).toUInt32 10
  let bits := bits.write (min item.mode 7).toUInt32 3
  let bits := bits.write (min item.body 15).toUInt32 4
  let bits := bits.write (min item.col 15).toUInt32 4
  let bits := bits.write (min item.row 15).toUInt32 4
  let bits := bits.write (min item.page 7).toUInt32 3
  let bits := bits.write (codeValue item.code) 32
  let bits := bits.write 0 1
  bits.bytes

/-- Replace the player's own items, keeping what follows the list. -/
def Save.setSimpleItems (save : Save) (items : List SimpleItem) : Bool × Save :=
  match save.simpleItems with
  | none => (false, save)
  | some (_, stop) =>
    (true, { save with
      items := [0x4A, 0x4D] ++ toLeBytes (.ofNat items.length) ++ items.flatMap writeSimpleItem ++
        save.items.drop stop })

/-! ## The bits of a simple item -/

/-- Realm data: a word of them is not kept by any reader. -/
def realmBits : Option (UInt32 × UInt32 × UInt32) → List Bool
  | none => put 0 1
  | some (a, b, c) => put 1 1 ++ (put a 32 ++ (put b 32 ++ put c 32))

/-- What is written of a simple item behind its marker, with such realm data. -/
def SimpleItem.bits (item : SimpleItem) (realm : Option (UInt32 × UInt32 × UInt32)) : List Bool :=
  put item.flags 32 ++ (put item.version.toUInt32 10 ++ (put item.mode.toUInt32 3 ++
    (put item.body.toUInt32 4 ++ (put item.col.toUInt32 4 ++ (put item.row.toUInt32 4 ++
      (put item.page.toUInt32 3 ++ (put (codeValue item.code) 32 ++ realmBits realm)))))))

/-- The fields fit, and the item is none that is read in another way. -/
structure SimpleItem.Fits (item : SimpleItem) : Prop where
  version : item.version < 1024
  mode : item.mode < 8
  body : item.body < 16
  col : item.col < 16
  row : item.row < 16
  page : item.page < 8
  placed : item.mode ≠ 3 ∧ item.mode ≠ 5
  ear : item.flags &&& itemEar = 0
  code : item.code ≠ goldCode

theorem SimpleItem.Fits.not_ground {item : SimpleItem} (h : item.Fits) :
    ¬(item.mode.toUInt32 = 3 ∨ item.mode.toUInt32 = 5) := by
  have hmode (n : UInt8) : item.mode.toUInt32 = n.toUInt32 → item.mode = n := fun h =>
    UInt8.toNat_inj.mp (by simpa using congrArg UInt32.toNat h)
  exact not_or.mpr ⟨fun h3 => h.placed.1 (hmode 3 h3), fun h5 => h.placed.2 (hmode 5 h5)⟩

section Bind

variable {α β : Type} {r r' : BitReader} {b : β}

theorem bind_eq_some {x : StateT BitReader Option α} {f : α → StateT BitReader Option β} :
    (x >>= f) r = some (b, r') ↔ ∃ a s, x r = some (a, s) ∧ f a s = some (b, r') := by
  change Option.bind (x r) (fun p => f p.1 p.2) = some (b, r') ↔ _
  rw [Option.bind_eq_some_iff]
  exact Prod.exists

theorem guard_eq_some {refused : Prop} [Decidable refused] {x : StateT BitReader Option β} :
    (if refused then failure else x) r = some (b, r') ↔ ¬ refused ∧ x r = some (b, r') := by
  split
  · rename_i hrefused
    exact ⟨fun h => (by cases h), fun h => absurd hrefused h.1⟩
  · rename_i hpassed
    exact ⟨fun h => ⟨hpassed, h⟩, fun h => h.2⟩

/-- What stands in front is read. -/
theorem take_append {width : Nat} (hwidth : width ≤ 32) {v : UInt32} (hv : v.toNat < 2 ^ width)
    {rest : List Bool} (h : r.rest = put v width ++ rest) :
    BitReader.take width r = some (v, ⟨r.data, r.bit + width⟩) ∧
      BitReader.rest ⟨r.data, r.bit + width⟩ = rest := by
  have hrest : BitReader.rest ⟨r.data, r.bit + width⟩ = rest := by
    rw [BitReader.rest_advance, h, List.drop_left' (by rw [put, length_bitsOf])]
  exact ⟨(BitReader.take_iff hwidth).mpr ⟨hv, by rw [hrest]; exact h, rfl⟩, hrest⟩

end Bind

theorem toUInt8_toUInt32 {v : UInt32} {n : Nat} (h : v.toNat < 2 ^ n) (hn : n ≤ 8) :
    v.toUInt8.toUInt32 = v := by
  apply UInt32.toNat_inj.mp
  rw [UInt8.toNat_toUInt32, UInt32.toNat_toUInt8]
  exact Nat.mod_eq_of_lt (Nat.lt_of_lt_of_le h (Nat.pow_le_pow_right (by decide) hn))

theorem toNat_toUInt8 {v : UInt32} {n : Nat} (h : v.toNat < 2 ^ n) (hn : n ≤ 8) :
    v.toUInt8.toNat < 2 ^ n := by
  have hback := congrArg UInt32.toNat (toUInt8_toUInt32 h hn)
  rw [UInt8.toNat_toUInt32] at hback
  rwa [hback]

theorem codeValue_codeOf (v : UInt32) : codeValue (codeOf v) = v := fromBeBytes_toBeBytes v

theorem toUInt16_toUInt32 {v : UInt32} (h : v.toNat < 2 ^ 10) : v.toUInt16.toUInt32 = v := by
  apply UInt32.toNat_inj.mp
  rw [UInt16.toNat_toUInt32, UInt32.toNat_toUInt16]
  exact Nat.mod_eq_of_lt (Nat.lt_trans h (by decide))

theorem length_bits (item : SimpleItem) (realm : Option (UInt32 × UInt32 × UInt32)) :
    (item.bits realm).length = 92 + (realmBits realm).length := by
  simp only [SimpleItem.bits, List.length_append, put, length_bitsOf]
  omega

theorem readRealm_iff {r r' : BitReader} : readRealm r = some (⟨⟩, r') ↔
    ∃ realm, r.rest = realmBits realm ++ r'.rest ∧
      r' = ⟨r.data, r.bit + (realmBits realm).length⟩ := by
  constructor
  · intro h
    obtain ⟨flag, s, hflag, h⟩ := bind_eq_some.mp h
    obtain ⟨hbit, hrest, rfl⟩ := (BitReader.take_iff (by decide)).mp hflag
    by_cases hzero : flag = 0
    · subst hzero
      rw [if_neg (not_not.mpr rfl)] at h
      obtain ⟨-, rfl⟩ := Prod.mk.inj (Option.some.inj h)
      exact ⟨none, hrest, by rw [realmBits, put, length_bitsOf]⟩
    · have hone : flag = 1 := by
        apply UInt32.toNat_inj.mp
        have hne : flag.toNat ≠ 0 := fun h => hzero (UInt32.toNat_inj.mp h)
        show flag.toNat = 1
        omega
      subst hone
      rw [if_pos hzero] at h
      obtain ⟨a, s₁, ha, h⟩ := bind_eq_some.mp h
      obtain ⟨b, s₂, hb, h⟩ := bind_eq_some.mp h
      obtain ⟨c, s₃, hc, h⟩ := bind_eq_some.mp h
      obtain ⟨-, ha, rfl⟩ := (BitReader.take_iff (by decide)).mp ha
      obtain ⟨-, hb, rfl⟩ := (BitReader.take_iff (by decide)).mp hb
      obtain ⟨-, hc, rfl⟩ := (BitReader.take_iff (by decide)).mp hc
      obtain ⟨-, rfl⟩ := Prod.mk.inj (Option.some.inj h)
      refine ⟨some (a, b, c), ?_, ?_⟩
      · rw [hrest, ha, hb, hc]
        simp only [realmBits, List.append_assoc]
      · simp only [realmBits, put, List.length_append, length_bitsOf, Nat.add_assoc]
  · rintro ⟨realm, hrest, hr'⟩
    cases realm with
    | none =>
      obtain ⟨hflag, -⟩ := take_append (v := 0) (by decide) (by decide) hrest
      refine bind_eq_some.mpr ⟨_, _, hflag, ?_⟩
      rw [realmBits, put, length_bitsOf] at hr'
      rw [if_neg (not_not.mpr rfl), hr']
      rfl
    | some words =>
      obtain ⟨a, b, c⟩ := words
      simp only [realmBits, List.append_assoc] at hrest
      obtain ⟨hflag, hrest⟩ := take_append (v := 1) (by decide) (by decide) hrest
      obtain ⟨ha, hrest⟩ := take_append (by decide) a.toNat_lt hrest
      obtain ⟨hb, hrest⟩ := take_append (by decide) b.toNat_lt hrest
      obtain ⟨hc, hrest⟩ := take_append (by decide) c.toNat_lt hrest
      refine bind_eq_some.mpr ⟨_, _, hflag, ?_⟩
      rw [if_pos (by decide)]
      refine bind_eq_some.mpr ⟨_, _, ha, bind_eq_some.mpr ⟨_, _, hb, bind_eq_some.mpr
        ⟨_, _, hc, ?_⟩⟩⟩
      rw [hr']
      simp only [realmBits, put, List.length_append, length_bitsOf, Nat.add_assoc]
      rfl

/-- The item has the flag by which it is read as a simple one. -/
def SimpleItem.IsCompact (item : SimpleItem) : Prop := item.flags &&& itemCompact ≠ 0

/-- The bits of an item that is read. -/
theorem readSimpleItem_iff {r r' : BitReader} {item : SimpleItem} :
    readSimpleItem r = some (item, r') ↔ (item.Fits ∧ item.IsCompact) ∧
      ∃ realm, r.rest = item.bits realm ++ r'.rest ∧
        r' = ⟨r.data, r.bit + (item.bits realm).length⟩ := by
  constructor
  · intro h
    obtain ⟨flags, s₀, hflags, h⟩ := bind_eq_some.mp h
    obtain ⟨hmarks, h⟩ := guard_eq_some.mp h
    obtain ⟨version, s₁, hversion, h⟩ := bind_eq_some.mp h
    obtain ⟨mode, s₂, hmode, h⟩ := bind_eq_some.mp h
    obtain ⟨hplaced, h⟩ := guard_eq_some.mp h
    obtain ⟨body, s₃, hbody, h⟩ := bind_eq_some.mp h
    obtain ⟨col, s₄, hcol, h⟩ := bind_eq_some.mp h
    obtain ⟨row, s₅, hrow, h⟩ := bind_eq_some.mp h
    obtain ⟨page, s₆, hpage, h⟩ := bind_eq_some.mp h
    obtain ⟨code, s₇, hcode, h⟩ := bind_eq_some.mp h
    obtain ⟨hgold, h⟩ := guard_eq_some.mp h
    obtain ⟨_, s₈, hrealm, h⟩ := bind_eq_some.mp h
    obtain ⟨rfl, rfl⟩ := Prod.mk.inj (Option.some.inj h)
    obtain ⟨-, hflags, rfl⟩ := (BitReader.take_iff (by decide)).mp hflags
    obtain ⟨hversion10, hversion, rfl⟩ := (BitReader.take_iff (by decide)).mp hversion
    obtain ⟨hmode3, hmode, rfl⟩ := (BitReader.take_iff (by decide)).mp hmode
    obtain ⟨hbody4, hbody, rfl⟩ := (BitReader.take_iff (by decide)).mp hbody
    obtain ⟨hcol4, hcol, rfl⟩ := (BitReader.take_iff (by decide)).mp hcol
    obtain ⟨hrow4, hrow, rfl⟩ := (BitReader.take_iff (by decide)).mp hrow
    obtain ⟨hpage3, hpage, rfl⟩ := (BitReader.take_iff (by decide)).mp hpage
    obtain ⟨-, hcode, rfl⟩ := (BitReader.take_iff (by decide)).mp hcode
    obtain ⟨realm, hrealm, rfl⟩ := readRealm_iff.mp hrealm
    obtain ⟨hcompact, hear⟩ := not_or.mp hmarks
    obtain ⟨hground, hdropping⟩ := not_or.mp hplaced
    have hback := toUInt8_toUInt32 hmode3 (by decide)
    refine ⟨⟨⟨?_, ?_, ?_, ?_, ?_, ?_, ⟨fun h3 => ?_, fun h5 => ?_⟩, not_not.mp hear, hgold⟩,
      hcompact⟩, realm, ?_, ?_⟩
    · rw [UInt16.lt_iff_toNat_lt, UInt32.toNat_toUInt16]
      exact Nat.lt_of_le_of_lt (Nat.mod_le _ _) hversion10
    · exact UInt8.lt_iff_toNat_lt.mpr (toNat_toUInt8 hmode3 (by decide))
    · exact UInt8.lt_iff_toNat_lt.mpr (toNat_toUInt8 hbody4 (by decide))
    · exact UInt8.lt_iff_toNat_lt.mpr (toNat_toUInt8 hcol4 (by decide))
    · exact UInt8.lt_iff_toNat_lt.mpr (toNat_toUInt8 hrow4 (by decide))
    · exact UInt8.lt_iff_toNat_lt.mpr (toNat_toUInt8 hpage3 (by decide))
    · rw [show mode.toUInt8 = 3 from h3] at hback
      exact hground hback.symm
    · rw [show mode.toUInt8 = 5 from h5] at hback
      exact hdropping hback.symm
    · simp only [SimpleItem.bits, toUInt16_toUInt32 hversion10, hback,
        toUInt8_toUInt32 hbody4 (by decide), toUInt8_toUInt32 hcol4 (by decide),
        toUInt8_toUInt32 hrow4 (by decide), toUInt8_toUInt32 hpage3 (by decide), codeValue_codeOf,
        List.append_assoc]
      rw [hflags, hversion, hmode, hbody, hcol, hrow, hpage, hcode, hrealm]
    · rw [length_bits]
      simp only [← Nat.add_assoc]
  · rintro ⟨⟨hfits, hcompact⟩, realm, hrest, rfl⟩
    simp only [SimpleItem.bits, List.append_assoc] at hrest
    obtain ⟨hflags, hrest⟩ := take_append (by decide) item.flags.toNat_lt hrest
    obtain ⟨hversion, hrest⟩ := take_append (v := item.version.toUInt32) (by decide)
      (UInt16.lt_iff_toNat_lt.mp hfits.version) hrest
    obtain ⟨hmode, hrest⟩ := take_append (v := item.mode.toUInt32) (by decide)
      (UInt8.lt_iff_toNat_lt.mp hfits.mode) hrest
    obtain ⟨hbody, hrest⟩ := take_append (v := item.body.toUInt32) (by decide)
      (UInt8.lt_iff_toNat_lt.mp hfits.body) hrest
    obtain ⟨hcol, hrest⟩ := take_append (v := item.col.toUInt32) (by decide)
      (UInt8.lt_iff_toNat_lt.mp hfits.col) hrest
    obtain ⟨hrow, hrest⟩ := take_append (v := item.row.toUInt32) (by decide)
      (UInt8.lt_iff_toNat_lt.mp hfits.row) hrest
    obtain ⟨hpage, hrest⟩ := take_append (v := item.page.toUInt32) (by decide)
      (UInt8.lt_iff_toNat_lt.mp hfits.page) hrest
    obtain ⟨hcode, hrest⟩ := take_append (by decide) (codeValue item.code).toNat_lt hrest
    refine bind_eq_some.mpr ⟨_, _, hflags, ?_⟩
    refine guard_eq_some.mpr ⟨not_or.mpr ⟨hcompact, not_not.mpr hfits.ear⟩, ?_⟩
    refine bind_eq_some.mpr ⟨_, _, hversion, bind_eq_some.mpr ⟨_, _, hmode, ?_⟩⟩
    refine guard_eq_some.mpr ⟨hfits.not_ground, bind_eq_some.mpr ⟨_, _, hbody, ?_⟩⟩
    refine bind_eq_some.mpr ⟨_, _, hcol, bind_eq_some.mpr ⟨_, _, hrow, ?_⟩⟩
    refine bind_eq_some.mpr ⟨_, _, hpage, bind_eq_some.mpr ⟨_, _, hcode, ?_⟩⟩
    rw [ItemBits.codeOf_codeValue]
    refine guard_eq_some.mpr ⟨hfits.code, ?_⟩
    refine bind_eq_some.mpr ⟨⟨⟩, ⟨r.data, r.bit + (item.bits realm).length⟩,
      readRealm_iff.mpr ⟨realm, hrest, ?_⟩, ?_⟩
    · rw [length_bits]
      simp only [← Nat.add_assoc]
    · simp only [UInt16.toUInt16_toUInt32, UInt8.toUInt8_toUInt32]
      rfl

/-! ## The bytes of a list -/

theorem bitsOf_inj {a b : UInt8} (h : bitsOf 8 a.toNat = bitsOf 8 b.toNat) : a = b := by
  have hnat := congrArg ofBits h
  rw [ofBits_bitsOf, ofBits_bitsOf, Nat.mod_eq_of_lt a.toNat_lt,
    Nat.mod_eq_of_lt b.toNat_lt] at hnat
  exact UInt8.toNat_inj.mp hnat

theorem marker_iff {left : List UInt8} :
    left.take 2 = [0x4A, 0x4D] ↔ ∃ rest, unpack left = put 0x4D4A 16 ++ rest := by
  have hmarker : put 0x4D4A 16 = unpack [0x4A, 0x4D] := by decide
  rw [hmarker]
  constructor
  · intro h
    refine ⟨unpack (left.drop 2), ?_⟩
    rw [← h, ← unpack_append, List.take_append_drop]
  · rintro ⟨rest, h⟩
    have hlen := congrArg List.length h
    rw [List.length_append, length_unpack, length_unpack] at hlen
    change 8 * left.length = 16 + rest.length at hlen
    obtain ⟨a, left, rfl⟩ := List.exists_cons_of_length_pos (show 0 < left.length by omega)
    rw [List.length_cons] at hlen
    obtain ⟨b, left, rfl⟩ := List.exists_cons_of_length_pos (show 0 < left.length by omega)
    have ha : bitsOf 8 a.toNat ++ (bitsOf 8 b.toNat ++ unpack left) =
        bitsOf 8 (0x4A : UInt8).toNat ++ (bitsOf 8 (0x4D : UInt8).toNat ++ rest) := by
      simpa [unpack] using h
    obtain ⟨ha, hb⟩ := List.append_inj ha (by rw [length_bitsOf, length_bitsOf])
    obtain ⟨hb, -⟩ := List.append_inj hb (by rw [length_bitsOf, length_bitsOf])
    rw [bitsOf_inj ha, bitsOf_inj hb]
    rfl

/-- A simple item stands in front, and takes so many bytes. -/
structure Stands (left : List UInt8) (item : SimpleItem) (used : Nat) : Prop where
  fits : item.Fits
  compact : item.IsCompact
  bits : ∃ realm rest, unpack left = put 0x4D4A 16 ++ (item.bits realm ++ rest) ∧
    used = (16 + (item.bits realm).length + 7) / 8

/-- A list that is read is an item that stands in front, and a list from where it ends. -/
theorem simpleItemsFrom_succ_iff {data : List UInt8} {count start stop : Nat}
    {items : List SimpleItem} :
    simpleItemsFrom data (count + 1) start = some (items, stop) ↔ ∃ item used more,
      Stands (data.drop start) item used ∧
        simpleItemsFrom data count (start + used) = some (more, stop) ∧ items = item :: more := by
  have hmark : (put 0x4D4A 16).length = 16 := by rw [put, length_bitsOf]
  rw [simpleItemsFrom]
  constructor
  · intro h
    split at h
    · cases h
    · rename_i hmarked
      obtain ⟨bits, hbits⟩ := marker_iff.mp (not_not.mp hmarked)
      obtain ⟨⟨item, r⟩, hitem, h⟩ := Option.bind_eq_some_iff.mp h
      obtain ⟨⟨more, stop'⟩, hmore, h⟩ := Option.bind_eq_some_iff.mp h
      obtain ⟨rfl, rfl⟩ := Prod.mk.inj (Option.some.inj h)
      obtain ⟨⟨hfits, hcompact⟩, realm, hrest, rfl⟩ := readSimpleItem_iff.mp hitem
      rw [BitReader.rest, hbits, List.drop_left' hmark] at hrest
      exact ⟨item, _, more, ⟨hfits, hcompact, realm, _, by rw [hbits, hrest], rfl⟩, hmore, rfl⟩
  · rintro ⟨item, used, more, ⟨hfits, hcompact, realm, rest, hbits, rfl⟩, hmore, rfl⟩
    rw [if_neg (not_not.mpr (marker_iff.mpr ⟨_, hbits⟩))]
    have hrest : BitReader.rest ⟨data.drop start, 16⟩ = item.bits realm ++ rest := by
      rw [BitReader.rest, hbits, List.drop_left' hmark]
    have hread : readSimpleItem ⟨data.drop start, 16⟩ =
        some (item, ⟨data.drop start, 16 + (item.bits realm).length⟩) := by
      refine readSimpleItem_iff.mpr ⟨⟨hfits, hcompact⟩, realm, ?_, rfl⟩
      have hadvance := BitReader.rest_advance ⟨data.drop start, 16⟩ (item.bits realm).length
      rw [hrest, List.drop_left] at hadvance
      rw [hadvance, hrest]
    refine Option.bind_eq_some_iff.mpr ⟨_, hread, ?_⟩
    exact Option.bind_eq_some_iff.mpr ⟨_, hmore, rfl⟩

/-!
## Simple items that are put into a save

What `set_simple_items` of `crates/d2-formats/src/d2s.rs` writes, and what its list is for
`read_save_list` of `crates/d2-data/src/item_bits.rs`.

* `simpleItemsFrom_written`: items that are written are read.
* `readHolder_stands`: the reader with the tables takes a simple item for the same bytes.
* `simpleItems_replaced`: the items are replaced, and what followed them still does.
-/

open ItemBits (put codeOf codeValue Reader Holder kind readSaveList)

/-! ## Writing -/

namespace SimpleItem

/-- The item with `ITEM_COMPACT` set. -/
def withCompact (item : SimpleItem) : SimpleItem :=
  { item with flags := item.flags ||| itemCompact }

theorem Fits.withCompact {item : SimpleItem} (h : item.Fits) : item.withCompact.Fits :=
  { h with ear := (set_and (by decide) item.flags).trans h.ear }

theorem isCompact_withCompact (item : SimpleItem) : item.withCompact.IsCompact := by
  intro hzero
  have hself : itemCompact = 0 := (set_and_self item.flags itemCompact).symm.trans hzero
  exact absurd hself (by decide)

end SimpleItem

def writtenBits (item : SimpleItem) : List Bool := put 0x4D4A 16 ++ item.withCompact.bits none

theorem length_writtenBits (item : SimpleItem) : (writtenBits item).length = 109 := by
  rw [writtenBits, List.length_append, length_bits]
  rfl

theorem min_of_lt8 {v bound : UInt8} (h : v < bound + 1) (hbound : bound.toNat < 255) :
    min v bound = v := by
  rw [UInt8.lt_iff_toNat_lt, UInt8.toNat_add] at h
  change v.toNat < (bound.toNat + 1) % 256 at h
  have hle : v ≤ bound := by
    rw [UInt8.le_iff_toNat_le]
    omega
  exact if_pos hle

/-- What fits is not clamped. -/
theorem writeSimpleItem_eq {item : SimpleItem} (h : item.Fits) :
    writeSimpleItem item = pack (writtenBits item) := by
  have hversion : min item.version 0x3FF = item.version := by
    have hlt := UInt16.lt_iff_toNat_lt.mp h.version
    have hle : item.version ≤ 0x3FF := UInt16.le_iff_toNat_le.mpr (Nat.le_of_lt_succ hlt)
    exact if_pos hle
  have hempty : (⟨[], 0⟩ : BitWriter) = .of [] := rfl
  rw [writeSimpleItem, hversion, min_of_lt8 h.mode (by decide), min_of_lt8 h.body (by decide),
    min_of_lt8 h.col (by decide), min_of_lt8 h.row (by decide), min_of_lt8 h.page (by decide),
    hempty]
  iterate 10 rw [BitWriter.write_of _ _ (by decide)]
  show pack _ = _
  simp only [writtenBits, SimpleItem.bits, SimpleItem.withCompact, realmBits, put, List.nil_append,
    List.append_assoc]

theorem length_writeSimpleItem {item : SimpleItem} (h : item.Fits) :
    (writeSimpleItem item).length = 14 := by
  rw [writeSimpleItem_eq h, length_pack, length_writtenBits]

theorem stands_written {item : SimpleItem} (h : item.Fits) (rest : List UInt8) :
    Stands (writeSimpleItem item ++ rest) item.withCompact 14 := by
  refine ⟨h.withCompact, item.isCompact_withCompact, none, ?_⟩
  rw [writeSimpleItem_eq h, unpack_append, unpack_pack, writtenBits, List.append_assoc,
    List.append_assoc]
  exact ⟨_, rfl, by rw [length_bits]; rfl⟩

/-- Items that are written are read. -/
theorem simpleItemsFrom_written {items : List SimpleItem} (hitems : ∀ item ∈ items, item.Fits)
    {data rest : List UInt8} {start : Nat}
    (h : data.drop start = items.flatMap writeSimpleItem ++ rest) :
    ∃ stop, simpleItemsFrom data items.length start =
      some (items.map SimpleItem.withCompact, stop) ∧ data.drop stop = rest := by
  induction items generalizing start with
  | nil => exact ⟨start, rfl, h⟩
  | cons item items ih =>
    obtain ⟨hitem, hitems⟩ := List.forall_mem_cons.mp hitems
    rw [List.flatMap_cons, List.append_assoc] at h
    have hnext : data.drop (start + 14) = items.flatMap writeSimpleItem ++ rest := by
      rw [← List.drop_drop, h, List.drop_left' (length_writeSimpleItem hitem)]
    obtain ⟨stop, hread, hstop⟩ := ih hitems hnext
    refine ⟨stop, simpleItemsFrom_succ_iff.mpr ⟨item.withCompact, 14, _, ?_, hread, rfl⟩, hstop⟩
    rw [h]
    exact stands_written hitem _

theorem simpleItems_iff {save : Save} {items : List SimpleItem} {stop : Nat} :
    save.simpleItems = some (items, stop) ↔ ∃ lo hi left,
      save.items = 0x4A :: 0x4D :: lo :: hi :: left ∧
        simpleItemsFrom save.items (fromLeBytes lo hi).toNat 4 = some (items, stop) ∧
          (save.items.drop stop).take 2 = [0x4A, 0x4D] := by
  rw [Save.simpleItems]
  constructor
  · intro h
    split at h
    · cases h
    · rename_i hmark
      have hwhole := List.take_append_drop 2 save.items
      rw [not_not.mp hmark] at hwhole
      split at h
      · rename_i lo hi left hleft
        obtain ⟨⟨items', stop'⟩, hread, h⟩ := Option.bind_eq_some_iff.mp h
        rw [hleft] at hwhole
        dsimp only at h
        split at h
        · rename_i hnext
          obtain ⟨rfl, rfl⟩ := Prod.mk.inj (Option.some.inj h)
          exact ⟨lo, hi, left, hwhole.symm, hread, hnext⟩
        · cases h
      · cases h
  · rintro ⟨lo, hi, left, hitems, hread, hnext⟩
    rw [if_neg (by rw [hitems]; exact not_not.mpr rfl)]
    have hleft : save.items.drop 2 = lo :: hi :: left := by
      rw [hitems]
      rfl
    rw [hleft]
    exact Option.bind_eq_some_iff.mpr ⟨_, hread, if_pos hnext⟩

theorem simpleItems_set {save : Save} {xs ys : List SimpleItem} {stop : Nat}
    (h : save.simpleItems = some (xs, stop)) (hlen : ys.length ≤ 65535)
    (hfits : ∀ y ∈ ys, y.Fits) :
    ∃ bytes stop', save.setSimpleItems ys = (true, { save with items := bytes }) ∧
      Save.simpleItems { save with items := bytes } =
        some (ys.map SimpleItem.withCompact, stop') ∧
      bytes.drop stop' = save.items.drop stop := by
  obtain ⟨-, -, -, -, -, hnext⟩ := simpleItems_iff.mp h
  have hcount : (UInt16.ofNat ys.length).toNat = ys.length := by
    rw [UInt16.toNat_ofNat']
    exact Nat.mod_eq_of_lt (by omega)
  have hbytes : ([0x4A, 0x4D] ++ toLeBytes (.ofNat ys.length) ++ ys.flatMap writeSimpleItem ++
      save.items.drop stop).drop 4 = ys.flatMap writeSimpleItem ++ save.items.drop stop := rfl
  obtain ⟨stop', hread, hstop⟩ := simpleItemsFrom_written hfits hbytes
  refine ⟨_, stop', by rw [Save.setSimpleItems, h], ?_, hstop⟩
  refine simpleItems_iff.mpr ⟨_, _, _, rfl, ?_, ?_⟩
  · rw [fromLeBytes_toLeBytes, hcount]
    exact hread
  · exact (congrArg (List.take 2) hstop).trans hnext

/-! ## The reader with the tables -/

/-- The place that these fields say. -/
def placeOf (mode : UInt32) (body col row page : UInt8) : ItemBits.Location :=
  if mode = 0 then .stored col row (if page = 0 then 0 else page - 1)
  else if mode = 1 then .equipped body
  else if mode = 2 then .belt col
  else if mode = 4 then .cursor body col row (if page = 0 then none else some (page - 1))
  else .socketed col

def SimpleItem.location (item : SimpleItem) : ItemBits.Location :=
  placeOf item.mode.toUInt32 item.body item.col item.row item.page

theorem reads_place {item : SimpleItem} (h : item.Fits) :
    Reads ItemBits.readLocation (put item.mode.toUInt32 3 ++ (put item.body.toUInt32 4 ++
      (put item.col.toUInt32 4 ++ (put item.row.toUInt32 4 ++ put item.page.toUInt32 3))))
      item.location := by
  have hmode : item.mode.toUInt32.toNat < 2 ^ 3 := by
    rw [UInt8.toNat_toUInt32]
    exact UInt8.lt_iff_toNat_lt.mp h.mode
  refine (ItemBits.reads_get 3 hmode).bind ?_
  rw [if_neg h.not_ground]
  refine (ItemBits.reads_getU8 4 (UInt8.lt_iff_toNat_lt.mp h.body)).bind ?_
  refine (ItemBits.reads_getU8 4 (UInt8.lt_iff_toNat_lt.mp h.col)).bind ?_
  refine (ItemBits.reads_getU8 4 (UInt8.lt_iff_toNat_lt.mp h.row)).bind ?_
  exact (ItemBits.reads_getU8 3 (UInt8.lt_iff_toNat_lt.mp h.page)).map fun page =>
    placeOf item.mode.toUInt32 item.body item.col item.row page

theorem reads_realmBits (realm : Option (UInt32 × UInt32 × UInt32)) :
    Reads ItemBits.readRealm (realmBits realm) (realm.map fun words => (words.1, words.2.1)) := by
  have hword (v : UInt32) : Reads (ItemBits.get 32) (put v 32) v := ItemBits.reads_get _ v.toNat_lt
  cases realm with
  | none => exact (ItemBits.reads_get (v := 0) 1 (by decide)).bind (Reads.pure none)
  | some words =>
    refine (ItemBits.reads_get (v := 1) 1 (by decide)).bind ?_
    refine (hword words.1).bind ((hword words.2.1).bind ?_)
    exact (hword words.2.2).map fun _ => some (words.1, words.2.1)

/-- The item as the reader with the tables has it. -/
def SimpleItem.asItem (item : SimpleItem) (realm : Option (UInt32 × UInt32)) : ItemBits.Item :=
  { ItemBits.Item.new item.code item.version 1 item.location with flags := item.flags, realm }

/-- The item is of a kind that has nothing behind its code but realm data. -/
def SimpleItem.Bare (items : Items) (item : SimpleItem) : Prop :=
  ∃ k ∈ kind items item.code, k.gold = false ∧ k.questDifficulty = false

variable {items : Items} (stats : ItemStats)

theorem reads_simpleItem {item : SimpleItem} (hfits : item.Fits) (hcompact : item.IsCompact)
    (hbare : item.Bare items) (realm : Option (UInt32 × UInt32 × UInt32)) :
    Reads (ItemBits.readItem items stats .save) (put 0x4D4A 16 ++ item.bits realm)
      (item.asItem (realm.map fun words => (words.1, words.2.1))) := by
  obtain ⟨k, hkind, hgold, hquest⟩ := hbare
  have hear : ItemBits.Flags.has item.flags ItemBits.Flags.ear = false :=
    bne_eq_false_iff_eq.mpr hfits.ear
  have hsimple : ItemBits.Flags.has item.flags ItemBits.Flags.compact = true :=
    bne_iff_ne.mpr hcompact
  have hbits : item.bits realm = put item.flags 32 ++ (put item.version.toUInt32 10 ++
      ((put item.mode.toUInt32 3 ++ (put item.body.toUInt32 4 ++ (put item.col.toUInt32 4 ++
        (put item.row.toUInt32 4 ++ put item.page.toUInt32 3)))) ++
      (put (codeValue item.code) 32 ++ realmBits realm))) := by
    simp only [SimpleItem.bits, List.append_assoc]
  have hcode := (ItemBits.reads_get 32 (codeValue item.code).toNat_lt).map fun code =>
    ((codeOf code, 0, 0, []) : Code × UInt8 × UInt8 × Text)
  rw [ItemBits.codeOf_codeValue] at hcode
  rw [hbits]
  refine (ItemBits.reads_get (v := 0x4D4A) 16 (by decide)).bind ?_
  rw [if_neg (not_not.mpr rfl)]
  refine (ItemBits.reads_get 32 item.flags.toNat_lt).bind ?_
  refine (ItemBits.reads_getU16 10 (UInt16.lt_iff_toNat_lt.mp hfits.version)).bind ?_
  refine (reads_place hfits).bind ?_
  rw [hear]
  refine Reads.bind hcode ?_
  dsimp only
  rw [show kind items item.code = some k from hkind]
  dsimp only
  rw [hsimple, ItemBits.readSimple, hgold, hquest]
  exact (reads_realmBits realm).map fun realm => item.asItem realm

structure SimpleItem.ReadAs (item : SimpleItem) (h : Holder) : Prop where
  flags : h.item.flags = item.flags
  version : h.item.version = item.version
  code : h.item.code = item.code
  location : h.item.location = item.location
  filled : h.filled = []

/-- The reader with the tables takes a simple item for the same bytes. -/
theorem readHolder_stands {left : List UInt8} {item : SimpleItem} {used : Nat}
    (hstands : Stands left item used) (hbare : item.Bare items) :
    ∃ h, ItemBits.readHolder items stats left = .ok (h, left.drop used) ∧ item.ReadAs h := by
  obtain ⟨hfits, hcompact, realm, rest, hbits, rfl⟩ := hstands
  have hread := reads_simpleItem stats hfits hcompact hbare realm rest
  rw [List.append_assoc, ← hbits] at hread
  have hused : (unpack left).length - rest.length = 16 + (item.bits realm).length := by
    rw [hbits, List.length_append, List.length_append, put, length_bitsOf]
    omega
  have hsaved : ItemBits.readSaved items stats left =
      .ok (item.asItem (realm.map fun words => (words.1, words.2.1)),
        left.drop ((16 + (item.bits realm).length + 7) / 8)) := by
    rw [ItemBits.readSaved, ItemBits.read, hread]
    dsimp only
    rw [hused]
  -- a simple item has no items in its sockets
  refine ⟨⟨item.asItem (realm.map fun words => (words.1, words.2.1)), [], rfl⟩, ?_,
    ⟨rfl, rfl, rfl, rfl, rfl⟩⟩
  show Except.bind (ItemBits.readSaved items stats left) _ = _
  rw [hsaved]
  rfl

/-- So it takes a list of them for the same bytes. -/
theorem readHolders_simple {data : List UInt8} {count start stop : Nat} {xs : List SimpleItem}
    (hread : simpleItemsFrom data count start = some (xs, stop)) (hbare : ∀ x ∈ xs, x.Bare items) :
    ∃ list, (ItemBits.readHolder items stats).times count (data.drop start) =
      .ok (list, data.drop stop) ∧ List.Forall₂ SimpleItem.ReadAs xs list := by
  induction count generalizing start xs with
  | zero =>
    obtain ⟨rfl, rfl⟩ := Prod.mk.inj (Option.some.inj hread)
    exact ⟨[], rfl, .nil⟩
  | succ count ih =>
    obtain ⟨item, used, more, hstands, hmore, rfl⟩ := simpleItemsFrom_succ_iff.mp hread
    obtain ⟨hitem, hothers⟩ := List.forall_mem_cons.mp hbare
    obtain ⟨h, hh, hsame⟩ := readHolder_stands stats hstands hitem
    obtain ⟨list, hlist, hall⟩ := ih hmore hothers
    refine ⟨h :: list, ?_, .cons hsame hall⟩
    rw [List.drop_drop] at hh
    show Except.bind (ItemBits.readHolder items stats (data.drop start)) _ = _
    rw [hh]
    show Except.bind ((ItemBits.readHolder items stats).times count (data.drop (start + used))) _ =
      _
    rw [hlist]
    rfl

theorem readSaveList_simple {save : Save} {xs : List SimpleItem} {stop : Nat}
    (h : save.simpleItems = some (xs, stop)) (hbare : ∀ x ∈ xs, x.Bare items) :
    ∃ list, readSaveList save.items items stats = .ok (list, stop) ∧
      List.Forall₂ SimpleItem.ReadAs xs list := by
  obtain ⟨lo, hi, left, hitems, hread, hnext⟩ := simpleItems_iff.mp h
  obtain ⟨list, hlist, hall⟩ := readHolders_simple stats hread hbare
  have hstop : stop + 2 ≤ save.items.length := by
    have hlen := congrArg List.length hnext
    rw [List.length_take, List.length_drop] at hlen
    change min 2 _ = 2 at hlen
    omega
  refine ⟨list, ?_, hall⟩
  have hmark : ¬(0x4A :: 0x4D :: lo :: hi :: left).take 2 ≠ [0x4A, 0x4D] := not_not.mpr rfl
  rw [hitems] at hlist hstop ⊢
  rw [readSaveList, if_neg hmark]
  simp only [List.drop_succ_cons, List.drop_zero] at hlist ⊢
  rw [hlist]
  dsimp only
  rw [List.length_drop]
  congr 2
  omega

/-- **The player's simple items are replaced**, and nothing behind them; and they are the items that
the reader with the tables reads, up to the same place. -/
theorem simpleItems_replaced (save : Save) :
    (save.simpleItems = none → ∀ ys, save.setSimpleItems ys = (false, save)) ∧
    ∀ xs stop, save.simpleItems = some (xs, stop) →
      (∀ ys : List SimpleItem, ys.length ≤ 65535 → (∀ y ∈ ys, y.Fits) → ∃ bytes stop',
        save.setSimpleItems ys = (true, { save with items := bytes }) ∧
        Save.simpleItems { save with items := bytes } =
          some (ys.map SimpleItem.withCompact, stop') ∧
        bytes.drop stop' = save.items.drop stop) ∧
      ∀ items stats, (∀ x ∈ xs, x.Bare items) → ∃ list,
        readSaveList save.items items stats = .ok (list, stop) ∧
        List.Forall₂ SimpleItem.ReadAs xs list := by
  refine ⟨fun hnone ys => by rw [Save.setSimpleItems, hnone], fun xs stop h => ⟨?_, ?_⟩⟩
  · exact fun ys hlen hfits => simpleItems_set h hlen hfits
  · exact fun items stats hbare => readSaveList_simple stats h hbare

def smallCharm : SimpleItem := ⟨0x10, 101, 0, 0, 3, 7, 5, (ItemBits.charm 5).code⟩

/-- A save with such a charm, and nothing in the lists that follow. -/
def charmSave : Save :=
  plainSave ([1, 0] ++ writeSimpleItem smallCharm ++ [0x4A, 0x4D, 0, 0])

theorem fits_smallCharm : smallCharm.Fits := by
  constructor <;> decide

theorem charmSave_replaced : (∃ bytes stop',
      charmSave.setSimpleItems [smallCharm, smallCharm] =
        (true, { charmSave with items := bytes }) ∧
      Save.simpleItems { charmSave with items := bytes } =
        some ([smallCharm, smallCharm].map SimpleItem.withCompact, stop') ∧
      bytes.drop stop' = [0x4A, 0x4D, 0, 0]) ∧
    ∃ list, readSaveList charmSave.items ItemBits.charms ItemBits.eightBits = .ok (list, 18) ∧
      List.Forall₂ SimpleItem.ReadAs [smallCharm.withCompact] list := by
  have hread : charmSave.simpleItems = some ([smallCharm.withCompact], 18) := by decide +kernel
  have hrest : charmSave.items.drop 18 = [0x4A, 0x4D, 0, 0] := by decide +kernel
  obtain ⟨hset, hagree⟩ := (simpleItems_replaced charmSave).2 _ _ hread
  rw [hrest] at hset
  refine ⟨hset [smallCharm, smallCharm] (by decide) ?_, hagree _ _ ?_⟩
  · exact List.forall_mem_cons.mpr ⟨fits_smallCharm, List.forall_mem_singleton.mpr fits_smallCharm⟩
  · exact List.forall_mem_singleton.mpr ⟨ItemBits.charmKind, rfl, rfl, rfl⟩

end CommandCenter.Formats.D2s
