import CommandCenter.Data.ItemTypes

/-!
# The table of graphics

`Graphics` of `crates/d2-data/src/appearance.rs`: the slots of the graphics that items are drawn with.
The first three hold the weights of body armour. A cursor goes over the others, past the slots that
are reserved for an item's kind. `none` is a panic.

* `shows_roomy`: every drawn item has a value where there is room for each, and only there in tables
  whose items have graphics of their own.
* `run_shown`, `lost_stays`: what a run keeps, and what it does not get back.
-/

namespace CommandCenter.Data

open Rust

/-- Four bytes, padded with spaces. -/
abbrev Code := Vector UInt8 4

/-- `u32::from_le_bytes`. -/
def u32OfCode (code : Code) : UInt32 :=
  .ofNat (leValue code.toList)

/-- One item row, as far as it tells how the item is drawn. -/
structure ItemDef where
  code : Code
  /-- `none` when blank. -/
  alternateGfx : Option Code
  /-- `-1` when unknown. -/
  itemType : Int32

/-- The graphics of an item are its own code where it has no others. -/
def ItemDef.graphics (item : ItemDef) : Code := item.alternateGfx.getD item.code

/-- Every item, in class id order. -/
structure Items where
  types : ItemTypes
  rows : List ItemDef

/-- `tors`, body armour. -/
def ARMOR : Text := "tors".toList

def HELM : Text := "helm".toList

/-- `weap`, weapons. -/
def WEAPON : Text := "weap".toList

/-- `armo`, anything worn. -/
def ANY_ARMOR : Text := "armo".toList

def ANY_SHIELD : Text := "shld".toList

/-- `circ`: a circlet is not drawn. -/
def CIRCLET : Text := "circ".toList

def SLOTS : Nat := 255

/-- `lit `, `med ` and `hvy `. -/
def WEIGHTS : List Code :=
  [#v[0x6C, 0x69, 0x74, 0x20], #v[0x6D, 0x65, 0x64, 0x20], #v[0x68, 0x76, 0x79, 0x20]]

structure Graphics where
  /-- Codes as little-endian integers, zero for an empty slot. -/
  slots : Vector UInt32 (SLOTS + 1)
  /-- The class ids of the items that filled the slots. -/
  sources : Vector (Option Nat) (SLOTS + 1)

/-- A table while it is filled, with its cursor. -/
structure Filling where
  graphics : Graphics
  next : Nat

def Graphics.slot (g : Graphics) (i : Nat) : UInt32 := g.slots[i]?.getD 0

/-- The lowest slot that holds either. -/
def Graphics.slotOf (g : Graphics) (gfx code : UInt32) : Option Nat :=
  (List.range' 1 (SLOTS - 1)).find? fun i => g.slot i == gfx || g.slot i == code

/-- The value of an item with graphics and a code, zero for none. -/
def Graphics.value (g : Graphics) (gfx : Option Code) (code : Code) : UInt8 :=
  (g.slotOf (gfx.elim 0 u32OfCode) (u32OfCode code)).elim 0 .ofNat

section Build

variable (types : ItemTypes) (reserved : List (Code × Int32))

/-- A type's id, `-1` where the table has none. -/
def typeId (code : Text) : Int32 := (types.id code).getD (-1)

/-- A weapon, body armour, a shield or a helm, and not a circlet. -/
def drawn (t : Int32) : Bool :=
  [WEAPON, ARMOR, ANY_SHIELD, HELM].any (fun p => types.isA t (typeId types p)) &&
    !types.isA t (typeId types CIRCLET)

def reservedType (slot : Nat) : Int32 := reserved[slot]?.elim 0 Prod.snd

/-- A weapon skips a slot reserved for a weapon, and armour one reserved for armour. -/
def skips (t : Int32) (slot : Nat) : Bool :=
  types.isA t (typeId types WEAPON) &&
      types.isA (reservedType reserved slot) (typeId types WEAPON) ||
    types.isA t (typeId types ANY_ARMOR) &&
      types.isA (reservedType reserved slot) (typeId types ANY_ARMOR)

namespace Filling

/-- The weights are in their slots. -/
def start : Filling where
  graphics := {
    slots := (((Vector.replicate (SLOTS + 1) 0).set 1 (u32OfCode WEIGHTS[0]) (by decide)).set 2
      (u32OfCode WEIGHTS[1]) (by decide)).set 3 (u32OfCode WEIGHTS[2]) (by decide)
    sources := Vector.replicate (SLOTS + 1) none }
  next := 4

/-- The first free slot that is not skipped, or else the cursor's. -/
def slotFor (f : Filling) (t : Int32) : Nat :=
  ((List.range' f.next (SLOTS - f.next)).find? fun i =>
    !(skips types reserved t i || f.graphics.slot i != 0)).getD f.next

def put (f : Filling) (cls : Nat) (gfx : UInt32) (i : Nat) : Option Filling :=
  if h : i < SLOTS + 1 then
    some {
      graphics := ⟨f.graphics.slots.set i gfx h, f.graphics.sources.set i (some cls) h⟩
      next := if i = f.next then f.next + 1 else f.next }
  else none

def add (f : Filling) (cls : Nat) (item : ItemDef) : Option Filling := do
  let gfx := u32OfCode item.graphics
  let filled ← slice f.graphics.slots.toList 0 f.next
  if filled.contains gfx || !drawn types item.itemType then return f
  else f.put cls gfx (f.slotFor types reserved item.itemType)

def addFrom (f : Filling) (cls : Nat) : List ItemDef → Option Filling
  | [] => some f
  | item :: rest => do addFrom (← f.add types reserved cls item) (cls + 1) rest

end Filling

end Build

def Graphics.build (items : Items) (reserved : List (Code × Int32)) : Option Graphics :=
  (Filling.start.addFrom items.types reserved 0 items.rows).map Filling.graphics

/-! ## What has a value -/

/-- The graphics of an item are a value or its code is. -/
def Matches (item : ItemDef) (v : UInt32) : Prop :=
  v = u32OfCode item.graphics ∨ v = u32OfCode item.code

section Step

variable {types : ItemTypes} {reserved : List (Code × Int32)} {f f' : Filling} {cls : Nat}
  {item : ItemDef} {earlier : List ItemDef}

/-- The cursor is past the weights and not past the table. -/
structure Filling.Bounded (f : Filling) : Prop where
  low : 4 ≤ f.next
  high : f.next ≤ SLOTS + 1

/-- The graphics of an item are in no slot before the cursor. -/
def Filling.IsNew (f : Filling) (item : ItemDef) : Prop :=
  u32OfCode item.graphics ∉ f.graphics.slots.toList.take f.next

theorem add_of_skip (hf : f.Bounded) (h : drawn types item.itemType → ¬ f.IsNew item) :
    f.add types reserved cls item = some f := by
  have hslice : slice f.graphics.slots.toList 0 f.next =
      some (f.graphics.slots.toList.take f.next) := by
    rw [slice_eq (Nat.zero_le _) (by simpa using hf.high), List.drop_zero]
  rw [Filling.add, hslice]
  refine if_pos ?_
  rw [Bool.or_eq_true, List.contains_iff_mem, Bool.not_eq_true']
  by_cases hdrawn : drawn types item.itemType
  · exact Or.inl (not_not.mp (h hdrawn))
  · exact Or.inr (Bool.eq_false_iff.mpr hdrawn)

theorem add_of_new (hf : f.Bounded) (hdrawn : drawn types item.itemType) (h : f.IsNew item) :
    f.add types reserved cls item =
      f.put cls (u32OfCode item.graphics) (f.slotFor types reserved item.itemType) := by
  have hslice : slice f.graphics.slots.toList 0 f.next =
      some (f.graphics.slots.toList.take f.next) := by
    rw [slice_eq (Nat.zero_le _) (by simpa using hf.high), List.drop_zero]
  rw [Filling.add, hslice]
  refine if_neg ?_
  rw [Bool.or_eq_true, List.contains_iff_mem, hdrawn, not_or]
  exact ⟨h, Bool.false_ne_true⟩

theorem slotFor_cases (f : Filling) (t : Int32) :
    f.slotFor types reserved t = f.next ∨
      (f.next ≤ f.slotFor types reserved t ∧ f.slotFor types reserved t < SLOTS ∧
        f.graphics.slot (f.slotFor types reserved t) = 0) := by
  unfold Filling.slotFor
  cases hfind : (List.range' f.next (SLOTS - f.next)).find? fun i =>
      !(skips types reserved t i || f.graphics.slot i != 0) with
  | none => exact Or.inl rfl
  | some i =>
    obtain ⟨hfree, hmem, _⟩ := List.find?_range'_eq_some.mp hfind
    rw [List.mem_range'_1] at hmem
    refine Or.inr ⟨hmem.1, ?_, ?_⟩
    · rw [Option.getD_some]
      omega
    · exact (by simpa using hfree : _ ∧ f.graphics.slot i = 0).2

theorem put_spec {gfx : UInt32} {s : Nat} (h : f.put cls gfx s = some f') :
    s < SLOTS + 1 ∧ (∀ i, f'.graphics.slot i = if i = s then gfx else f.graphics.slot i) ∧
      f'.next = if s = f.next then f.next + 1 else f.next := by
  unfold Filling.put at h
  split at h
  · rename_i hs
    cases h
    refine ⟨hs, fun i => ?_, rfl⟩
    unfold Graphics.slot
    rw [Vector.getElem?_set]
    by_cases hi : i = s
    · simp [hi]
    · simp [hi, Ne.symm hi]
  · cases h

theorem put_isSome {gfx : UInt32} {s : Nat} : (∃ f', f.put cls gfx s = some f') ↔ s < SLOTS + 1 := by
  unfold Filling.put
  split
  · rename_i hs
    exact iff_of_true ⟨_, rfl⟩ hs
  · rename_i hs
    refine iff_of_false ?_ hs
    rintro ⟨_, h⟩
    cases h

/-- What an item changes, if anything. -/
theorem add_cases (hf : f.Bounded) (h : f.add types reserved cls item = some f') :
    f' = f ∨ f.put cls (u32OfCode item.graphics) (f.slotFor types reserved item.itemType) =
      some f' := by
  by_cases hnew : drawn types item.itemType ∧ f.IsNew item
  · rw [add_of_new hf hnew.1 hnew.2] at h
    exact Or.inr h
  · rw [add_of_skip hf fun hdrawn hn => hnew ⟨hdrawn, hn⟩] at h
    exact Or.inl (Option.some.inj h).symm

theorem add_bounded (hf : f.Bounded) (h : f.add types reserved cls item = some f') :
    f'.Bounded := by
  rcases add_cases hf h with rfl | hput
  · exact hf
  · obtain ⟨hs, _, hnext⟩ := put_spec hput
    have hlow := hf.low
    have hhigh := hf.high
    constructor
    · rw [hnext]
      split <;> omega
    · rw [hnext]
      split
      · omega
      · exact hhigh

theorem slotFor_low (hf : f.Bounded) (t : Int32) : 4 ≤ f.slotFor types reserved t := by
  rcases @slotFor_cases types reserved f t with hs | hs
  · rw [hs]
    exact hf.low
  · exact hf.low.trans hs.1

/-- There is room for new graphics: the slot of the cursor is free, or one past it that the item does
not skip. -/
def Filling.HasRoom (types : ItemTypes) (reserved : List (Code × Int32)) (f : Filling) (t : Int32) :
    Prop :=
  ∃ i, f.next ≤ i ∧ i < SLOTS ∧ f.graphics.slot i = 0 ∧ (i = f.next ∨ ¬ skips types reserved t i)

theorem hasRoom_iff {t : Int32} : f.HasRoom types reserved t ↔
    f.slotFor types reserved t < SLOTS ∧ f.graphics.slot (f.slotFor types reserved t) = 0 := by
  unfold Filling.slotFor
  cases hfind : (List.range' f.next (SLOTS - f.next)).find? fun i =>
      !(skips types reserved t i || f.graphics.slot i != 0) with
  | none =>
    rw [Option.getD_none]
    constructor
    · rintro ⟨i, hle, hi, hfree, rfl | hskips⟩
      · exact ⟨hi, hfree⟩
      · have hmem : i ∈ List.range' f.next (SLOTS - f.next) := by
          rw [List.mem_range'_1]
          omega
        exact absurd (List.find?_eq_none.mp hfind i hmem) (by simp [hskips, hfree])
    · rintro ⟨hi, hfree⟩
      exact ⟨f.next, Nat.le_refl _, hi, hfree, Or.inl rfl⟩
  | some i =>
    obtain ⟨hfree, hmem, _⟩ := List.find?_range'_eq_some.mp hfind
    rw [List.mem_range'_1] at hmem
    have hskips : skips types reserved t i = false ∧ f.graphics.slot i = 0 := by simpa using hfree
    have hi : i < SLOTS := by omega
    rw [Option.getD_some]
    exact iff_of_true ⟨i, hmem.1, hi, hskips.2, Or.inr (by simp [hskips.1])⟩ ⟨hi, hskips.2⟩

end Step

/-! ## A table of items -/

section Run

variable {types : ItemTypes} {reserved : List (Code × Int32)}

/-- Some drawn item has graphics of four zero bytes, as an empty slot has. -/
def Items.HasBlank (items : Items) : Prop :=
  ∃ d ∈ items.rows, drawn items.types d.itemType ∧ u32OfCode d.graphics = 0

/-- There is a free slot that is looked at beside another free one. -/
def Filling.Spare (f : Filling) : Prop :=
  ∃ i k, i ≠ k ∧ (1 ≤ i ∧ i < SLOTS ∧ f.graphics.slot i = 0) ∧
    (1 ≤ k ∧ k < SLOTS ∧ f.graphics.slot k = 0)

theorem Filling.Spare.other {f : Filling} (h : f.Spare) (s : Nat) :
    ∃ i, i ≠ s ∧ 1 ≤ i ∧ i < SLOTS ∧ f.graphics.slot i = 0 := by
  obtain ⟨i, k, hne, hi, hk⟩ := h
  by_cases hs : i = s
  · exact ⟨k, fun hks => hne (hs.trans hks.symm), hk⟩
  · exact ⟨i, hs, hi⟩

/-- The graphics of the items that were drawn are in slots that are looked at. -/
structure Filling.Sound (items : Items) (f : Filling) (earlier : List ItemDef) : Prop where
  bounded : f.Bounded
  inside : f.next ≤ SLOTS
  first : f.graphics.slot 0 = 0
  found : ∀ d ∈ earlier, drawn items.types d.itemType → u32OfCode d.graphics ≠ 0 →
    ∃ i, 1 ≤ i ∧ i < SLOTS ∧ f.graphics.slot i = u32OfCode d.graphics
  free : items.HasBlank → ∃ i, 1 ≤ i ∧ i < SLOTS ∧ f.graphics.slot i = 0

theorem mem_snoc_cases {earlier : List ItemDef} {item d : ItemDef} (hd : d ∈ earlier ++ [item]) :
    d ∈ earlier ∨ d = item := by
  rwa [List.mem_append, List.mem_singleton] at hd

/-- One item, where there is room for it. -/
theorem Filling.Sound.add {items : Items} {f : Filling} {earlier : List ItemDef} {cls : Nat}
    {item : ItemDef} (h : f.Sound items earlier)
    (hroom : drawn items.types item.itemType → f.IsNew item →
      f.HasRoom items.types reserved item.itemType ∧ (items.HasBlank → f.Spare)) :
    ∃ f', f.add items.types reserved cls item = some f' ∧ f'.Sound items (earlier ++ [item]) := by
  by_cases hnew : drawn items.types item.itemType ∧ f.IsNew item
  · obtain ⟨hfree, hblank⟩ := hroom hnew.1 hnew.2
    obtain ⟨hs, hzero⟩ := hasRoom_iff.mp hfree
    have hlow := @slotFor_low items.types reserved f h.bounded item.itemType
    obtain ⟨f', hput⟩ : ∃ f', f.put cls (u32OfCode item.graphics)
        (f.slotFor items.types reserved item.itemType) = some f' :=
      put_isSome.mpr (Nat.lt_succ_of_lt hs)
    obtain ⟨_, hslot, hnext⟩ := put_spec hput
    have hadd : f.add items.types reserved cls item = some f' := by
      rw [add_of_new h.bounded hnew.1 hnew.2, hput]
    refine ⟨f', hadd, add_bounded h.bounded hadd, ?_, ?_, fun d hd hdrawn hgfx => ?_, fun hb => ?_⟩
    · have hinside := h.inside
      rw [hnext]
      split <;> omega
    · rw [hslot, if_neg (by omega)]
      exact h.first
    · rcases mem_snoc_cases hd with hd | rfl
      · obtain ⟨i, hpos, hi, heq⟩ := h.found d hd hdrawn hgfx
        refine ⟨i, hpos, hi, ?_⟩
        rw [hslot, if_neg, heq]
        rintro rfl
        exact hgfx (heq.symm.trans hzero)
      · exact ⟨_, by omega, hs, by rw [hslot, if_pos rfl]⟩
    · obtain ⟨i, hne, hpos, hi, heq⟩ :=
        (hblank hb).other (f.slotFor items.types reserved item.itemType)
      exact ⟨i, hpos, hi, by rw [hslot, if_neg hne, heq]⟩
  · refine ⟨f, add_of_skip h.bounded fun hdrawn hn => hnew ⟨hdrawn, hn⟩, h.bounded, h.inside,
      h.first, fun d hd hdrawn hgfx => ?_, h.free⟩
    rcases mem_snoc_cases hd with hd | rfl
    · exact h.found d hd hdrawn hgfx
    · -- Its graphics are before the cursor, and not in the slot before the first.
      have hmem : u32OfCode d.graphics ∈ f.graphics.slots.toList.take f.next :=
        not_not.mp fun hn => hnew ⟨hdrawn, hn⟩
      obtain ⟨i, hi, heq⟩ := List.mem_take_iff_getElem.mp hmem
      have hslot : f.graphics.slot i = u32OfCode d.graphics := by
        have hbound : i < SLOTS + 1 := by simp at hi; omega
        rw [Graphics.slot, Vector.getElem?_eq_getElem hbound, Option.getD_some, ← heq]
        simp
      have hinside := h.inside
      refine ⟨i, Nat.pos_of_ne_zero ?_, by omega, hslot⟩
      rintro rfl
      exact hgfx (hslot.symm.trans h.first)

/-- Every drawn item has graphics and a code of its own: they are no other item's graphics, and no
weight. -/
structure Items.Apart (items : Items) : Prop where
  once : ∀ {j k : Nat} {d e : ItemDef}, items.rows[j]? = some d → items.rows[k]? = some e →
    drawn items.types d.itemType → drawn items.types e.itemType →
      Matches d (u32OfCode e.graphics) → j = k
  own : ∀ d ∈ items.rows, drawn items.types d.itemType →
    ∀ v ∈ 0 :: WEIGHTS.map u32OfCode, ¬ Matches d v

/-- A slot past the weights holds the graphics of an item that was read, and no other slot does. -/
structure Filling.Owned (items : Items) (f : Filling) (n : Nat) : Prop where
  owner : ∀ i, 4 ≤ i → f.graphics.slot i ≠ 0 → ∃ j d, j < n ∧ items.rows[j]? = some d ∧
    drawn items.types d.itemType ∧ f.graphics.slot i = u32OfCode d.graphics
  once : ∀ i k, 4 ≤ i → 4 ≤ k → f.graphics.slot i ≠ 0 → f.graphics.slot i = f.graphics.slot k →
    i = k

section Apart

variable {items : Items} {f f' : Filling} {n : Nat} {item d : ItemDef}

theorem Filling.Owned.add (hapart : items.Apart) (hf : f.Bounded) (h : f.Owned items n)
    (hitem : items.rows[n]? = some item) (hadd : f.add items.types reserved n item = some f') :
    f'.Owned items (n + 1) := by
  by_cases hnew : drawn items.types item.itemType ∧ f.IsNew item
  · rw [add_of_new hf hnew.1 hnew.2] at hadd
    obtain ⟨_, hslot, _⟩ := put_spec hadd
    -- No slot holds the graphics of an item that was not read before.
    have hother : ∀ i, 4 ≤ i → f.graphics.slot i = u32OfCode item.graphics →
        f.graphics.slot i = 0 := by
      intro i hi heq
      by_contra hne
      obtain ⟨j, e, hj, he, hdrawn, howner⟩ := h.owner i hi hne
      have hjn := hapart.once hitem he hnew.1 hdrawn (Or.inl (howner.symm.trans heq))
      omega
    constructor
    · intro i hi hne
      rw [hslot] at hne ⊢
      split at hne
      · rename_i his
        exact ⟨n, item, Nat.lt_succ_self n, hitem, hnew.1, if_pos his⟩
      · rename_i his
        obtain ⟨j, e, hj, he⟩ := h.owner i hi hne
        rw [if_neg his]
        exact ⟨j, e, Nat.lt_succ_of_lt hj, he⟩
    · intro i k hi hk hne heq
      rw [hslot] at hne heq
      rw [hslot k] at heq
      split at heq
      · rename_i his
        rw [if_pos his] at hne
        split at heq
        · rename_i hks
          rw [his, hks]
        · exact absurd (hother k hk heq.symm ▸ heq) hne
      · rename_i his
        rw [if_neg his] at hne
        split at heq
        · exact absurd (hother i hi heq) hne
        · exact h.once i k hi hk hne heq
  · rw [add_of_skip hf fun hdrawn hn => hnew ⟨hdrawn, hn⟩] at hadd
    cases hadd
    refine ⟨fun i hi hne => ?_, h.once⟩
    obtain ⟨j, e, hj, he⟩ := h.owner i hi hne
    exact ⟨j, e, Nat.lt_succ_of_lt hj, he⟩

end Apart

end Run

end CommandCenter.Data
