import CommandCenter.Formats.ItemFields

/-!
# Items as they are read back

What `read` of `crates/d2-data/src/item_bits.rs` makes of a whole item that `write` wrote, where its
fields come back.

* `Item.back`: the item that is read.
* `reads_item`: it is read of the bits of the item.
* `itemBits_back`: its bits are those of the item.
-/

namespace CommandCenter.Formats.ItemBits

open Rust Library

/-! ## What is read -/

/-- What is read after the code of a simple item, into an item. -/
def Item.withSimple (kind : Kind) (stats : ItemStats) (save : Bool) (item read : Item) : Item :=
  let madeIn := if kind.questDifficulty then
    backOf stats questDifficulty (partnerValue item.stats questDifficulty) else 0
  { read with
    quality := .normal
    gold := if kind.gold then item.gold else 0
    stats := if madeIn ≠ 0 then [⟨questDifficulty, 0, madeIn⟩] else []
    realm := if save then item.realm else none }

/-- What is read after the code of a full item, but for its stat lists. -/
def Item.withFields (kind : Kind) (stats : ItemStats) (save : Bool) (flags : UInt32)
    (item read : Item) : Item :=
  let identified := save || Flags.has flags Flags.identified
  { read with
    socketed := item.socketCount
    seed := if save then item.seed else 0
    level := max 1 (min item.level 99)
    quality := item.quality.shown identified
    picture := if kind.pictures then some (item.picture.getD 0) else none
    autoAffix := item.autoAffix
    typeExtra := (item.extras kind identified).1
    book := (item.extras kind identified).2
    runeword := if Flags.has flags Flags.runeword then item.runeword else 0
    name := if Flags.has flags Flags.personalized then item.name else []
    realm := if save then item.realm else none
    defense := (item.wear kind stats).defense
    maxDurability := (item.wear kind stats).maxDurability
    durability := (item.wear kind stats).durability
    gold := (item.wear kind stats).gold
    quantity := if kind.stackable then item.quantity else 0
    sockets := if Flags.has flags Flags.socketed then item.sockets else 0 }

/-- What is read after the code of a full item, into an item. -/
def Item.withFull (kind : Kind) (stats : ItemStats) (save : Bool) (flags : UInt32)
    (item read : Item) : Item :=
  if save || Flags.has flags Flags.identified then
    item.withLists stats flags (item.withFields kind stats save flags read)
  else item.withFields kind stats save flags read

theorem reads_simple {kind : Kind} {stats : ItemStats} (save : Bool) {item : Item} (read : Item)
    (hmade : kind.questDifficulty → ∃ cost ∈ stats.get questDifficulty,
      StatCost.Fits cost (partnerValue item.stats questDifficulty)) :
    Reads (readSimple kind stats save read) (writeSimple kind stats save item)
      (item.withSimple kind stats save read) := by
  have hgold := reads_if kind.gold 0 fun _ => reads_gold item.gold
  have hmadeIn : Reads (readIf kind.questDifficulty (readValue stats questDifficulty) 0)
      (if kind.questDifficulty then
        writeValue stats questDifficulty (partnerValue item.stats questDifficulty) else [])
      (if kind.questDifficulty then
        backOf stats questDifficulty (partnerValue item.stats questDifficulty) else 0) := by
    refine reads_if _ _ fun h => ?_
    obtain ⟨cost, hcost, hvalue⟩ := hmade h
    exact reads_value hcost hvalue
  have hrealm := reads_if save none fun _ => reads_realm item.realm
  rw [writeSimple, List.append_assoc]
  refine hgold.bind (hmadeIn.bind ?_)
  exact hrealm.map fun realm => ({ read with
    quality := .normal
    gold := if kind.gold then item.gold else 0
    stats := _
    realm } : Item)

/-- The fields of a full item fit their widths and come back. -/
structure Item.FieldsKept (kind : Kind) (stats : ItemStats) (identified : Bool) (item : Item) :
    Prop where
  socketCount : item.socketCount < 8
  picture : ∀ p ∈ item.picture, p < 8
  autoAffix : item.autoAffix < 2048
  quality : item.quality.Fits
  charm : kind.charm → item.typeExtra < 2048
  bodyPart : kind.bodyPart → item.typeExtra < 1024
  book : item.book < 32
  affix : item.quality = .normal → kind.charm → identified → item.typeExtra ≠ 0
  name : NameFits item.name
  wear : item.WearFits kind stats
  quantity : item.quantity < 512
  sockets : ∃ cost ∈ stats.get 194, item.sockets.toNat < 2 ^ cost.saveBits.toNat

theorem reads_picture {pictures : Bool} {picture : Option UInt8} (h : ∀ p ∈ picture, p < 8) :
    Reads (readPresent (do return some (← getU8 3)) none)
      (if pictures then put 1 1 ++ clamped (picture.getD 0).toUInt32 3 else put 0 1)
      (if pictures then some (picture.getD 0) else none) := by
  have hlt : picture.getD 0 < 8 := by
    cases picture with
    | none => decide
    | some p => exact h p rfl
  cases pictures with
  | true =>
    refine (reads_get (v := 1) 1 (by decide)).bind ?_
    exact (reads_clampedU8 3 (UInt8.lt_iff_toNat_lt.mp hlt)).map some
  | false => exact (reads_get (v := 0) 1 (by decide)).bind (Reads.pure none)

theorem level_bounds (level : UInt8) :
    1 ≤ max 1 (min level 99) ∧ max 1 (min level 99) ≤ 99 := by
  have hmin : min level 99 ≤ 99 := by
    show (if level ≤ 99 then level else 99) ≤ 99
    split
    · assumption
    · exact UInt8.le_refl _
  show 1 ≤ (if 1 ≤ min level 99 then min level 99 else 1) ∧
    (if 1 ≤ min level 99 then min level 99 else 1) ≤ 99
  split
  · exact ⟨by assumption, hmin⟩
  · exact ⟨UInt8.le_refl _, by decide⟩

theorem reads_level (level : UInt8) :
    Reads (get 7) (clamped (max 1 (min level 99)).toUInt32 7) (max 1 (min level 99)).toUInt32 ∧
      (max 1 (max 1 (min level 99)).toUInt32).toUInt8 = max 1 (min level 99) := by
  obtain ⟨hlow, hhigh⟩ := level_bounds level
  generalize max 1 (min level 99) = shown at hlow hhigh ⊢
  rw [UInt8.le_iff_toNat_le] at hlow hhigh
  constructor
  · have hsmall : shown.toUInt32.toNat < 2 ^ 7 := by
      rw [UInt8.toNat_toUInt32]
      exact Nat.lt_of_le_of_lt hhigh (by decide)
    rw [clamped_of_lt hsmall]
    exact reads_get 7 hsmall
  · have hle : (1 : UInt32) ≤ shown.toUInt32 := by
      rw [UInt32.le_iff_toNat_le, UInt8.toNat_toUInt32]
      exact hlow
    show (if (1 : UInt32) ≤ shown.toUInt32 then shown.toUInt32 else 1).toUInt8 = shown
    rw [if_pos hle]
    exact UInt8.toUInt8_toUInt32 shown

theorem number_lt (quality : Quality) : quality.number.toNat < 2 ^ 4 := by
  cases quality <;> exact Nat.lt_of_sub_pos (Nat.succ_pos _)

theorem reads_full {kind : Kind} {stats : ItemStats} {save : Bool} {flags : UInt32} {item : Item}
    (read : Item)
    (hflags : Flags.has flags Flags.identified = Flags.has item.flags Flags.identified)
    (hkept : item.FieldsKept kind stats (save || Flags.has flags Flags.identified))
    (hlists : save || Flags.has flags Flags.identified → item.ListsKept stats flags) :
    Reads (readFull kind stats save flags read) (writeFull kind stats save flags item)
      (item.withFull kind stats save flags read) := by
  have hquality := reads_quality kind (save || Flags.has flags Flags.identified) hkept.quality
    hkept.charm hkept.bodyPart hkept.book hkept.affix
  rw [writeFull, ← hflags]
  simp only [List.append_assoc]
  refine (reads_clampedU8 3 (UInt8.lt_iff_toNat_lt.mp hkept.socketCount)).bind ?_
  refine (reads_if save 0 fun _ => reads_get 32 item.seed.toNat_lt).bind ?_
  refine (reads_level item.level).1.bind ?_
  refine (reads_get 4 (number_lt item.quality)).bind ?_
  refine (reads_picture hkept.picture).bind ?_
  refine (reads_affix hkept.autoAffix).bind ?_
  refine hquality.bind ?_
  refine (reads_if _ 0 fun _ => reads_getU16 16 item.runeword.toNat_lt).bind ?_
  refine (reads_if _ [] fun _ => reads_name hkept.name).bind ?_
  refine (reads_if save none fun _ => reads_realm item.realm).bind ?_
  refine (reads_wear hkept.wear).bind ?_
  refine (reads_if kind.stackable 0 fun _ =>
    reads_clampedU16 9 (UInt16.lt_iff_toNat_lt.mp hkept.quantity)).bind ?_
  refine (reads_sockets flags hkept.sockets).bind ?_
  rw [(reads_level item.level).2]
  show Reads (if save || Flags.has flags Flags.identified then
    readLists stats flags (item.withFields kind stats save flags read)
    else pure (item.withFields kind stats save flags read)) _ _
  rw [Item.withFull]
  have hset : (item.withFields kind stats save flags read).quality.isSet = item.quality.isSet := by
    show (item.quality.shown _).isSet = item.quality.isSet
    cases item.quality <;> rfl
  split
  · rename_i hidentified
    exact reads_lists (hlists hidentified) hset
  · exact Reads.pure _

/-! ## The whole item -/

theorem codeOf_codeValue (code : Code) : codeOf (codeValue code) = code := by
  have hbyte (i : Nat) (hi : i < 4) : code[i].toNat < 2 ^ 8 := code[i].toNat_lt
  have h0 := hbyte 0 (by decide)
  have h1 := hbyte 1 (by decide)
  have h2 := hbyte 2 (by decide)
  have h3 := hbyte 3 (by decide)
  have hvalue : (codeValue code).toNat =
      code[3].toNat * 2 ^ 24 + code[2].toNat * 2 ^ 16 + code[1].toNat * 2 ^ 8 + code[0].toNat := by
    rw [codeValue, fromBeBytes, UInt32.toNat_ofNat']
    omega
  have hof {n : Nat} {b : UInt8} (h : n % 2 ^ 8 = b.toNat) : UInt8.ofNat n = b := by
    apply UInt8.toNat_inj.mp
    rw [UInt8.toNat_ofNat', h]
  rw [codeOf]
  generalize (codeValue code).toNat = n at hvalue ⊢
  refine Vector.ext fun i hi => ?_
  obtain rfl | rfl | rfl | rfl : i = 0 ∨ i = 1 ∨ i = 2 ∨ i = 3 := by omega
  · exact hof (by omega)
  · exact hof (by omega)
  · exact hof (by omega)
  · exact hof (by omega)

/-- An item's code as it is written: an ear's is known. -/
def Item.writtenCode (item : Item) : Code :=
  if Flags.has item.flags Flags.ear then earCode else item.code

/-- The item is written in the simple layout. -/
def Item.isSimple (kind : Kind) (item : Item) : Bool :=
  Flags.has item.flags Flags.ear || kind.compact

def Item.writtenFlags (kind : Kind) (save : Bool) (item : Item) : UInt32 :=
  itemFlags item.flags (item.isSimple kind) save false

/-- The code, or an ear's class, level and name. -/
def Item.codeBits (item : Item) : Writer :=
  if Flags.has item.flags Flags.ear then
    clamped item.earClass.toUInt32 3 ++ clamped item.earLevel.toUInt32 7 ++
      writeName (item.name.asBytes.take earNameMax)
  else put (codeValue item.code) 32

theorem itemBits_eq {items : Items} {kind : Kind} {item : Item}
    (hkind : ItemBits.kind items item.writtenCode = some kind) (stats : ItemStats)
    (target : Target) :
    itemBits item items stats target false =
      (if decide (target = .save) then put 0x4D4A 16 else []) ++
        (put (item.writtenFlags kind (target = .save)) 32 ++ (clamped item.version.toUInt32 10 ++
          ((put item.location.mode 3 ++ writeLocation item.location) ++ (item.codeBits ++
            if item.isSimple kind then writeSimple kind stats (target = .save) item
            else writeFull kind stats (target = .save) (item.writtenFlags kind (target = .save))
              item)))) := by
  rw [Item.writtenCode] at hkind
  rw [itemBits, hkind]
  simp only [Bool.false_and, Bool.false_eq_true, if_false, Option.any_some, List.append_assoc]
  rfl

/-- The place and code of an item, as they are read. -/
def Item.head (kind : Kind) (save : Bool) (item : Item) : Item :=
  let ear := Flags.has item.flags Flags.ear
  { Item.new item.writtenCode item.version 1 item.location with
    flags := item.writtenFlags kind save
    earClass := if ear then item.earClass else 0
    earLevel := if ear then item.earLevel else 0
    name := if ear then item.name.take earNameMax else [] }

def Item.back (kind : Kind) (stats : ItemStats) (save : Bool) (item : Item) : Item :=
  if item.isSimple kind then item.withSimple kind stats save (item.head kind save)
  else item.withFull kind stats save (item.writtenFlags kind save) (item.head kind save)

theorem reads_code {item : Item} (hclass : item.earClass < 8) (hlevel : item.earLevel < 128)
    (hname : NameFits item.name) :
    Reads (readCode (Flags.has item.flags Flags.ear)) item.codeBits
      (item.writtenCode,
        if Flags.has item.flags Flags.ear then item.earClass else 0,
        if Flags.has item.flags Flags.ear then item.earLevel else 0,
        if Flags.has item.flags Flags.ear then item.name.take earNameMax else []) := by
  rw [Item.codeBits, Item.writtenCode]
  cases Flags.has item.flags Flags.ear with
  | true =>
    have htake : item.name.asBytes.take earNameMax =
        Text.asBytes (item.name.take earNameMax) := by
      rw [Text.asBytes_of_ascii fun c hc => (hname c hc).2,
        Text.asBytes_of_ascii fun c hc => (hname c (List.mem_of_mem_take hc)).2, List.map_take]
    have hread := reads_name (show NameFits (item.name.take earNameMax) from fun c hc =>
      hname c (List.mem_of_mem_take hc))
    simp only [if_true]
    rw [List.append_assoc, htake]
    refine (reads_clampedU8 3 (UInt8.lt_iff_toNat_lt.mp hclass)).bind ?_
    refine (reads_clampedU8 7 (UInt8.lt_iff_toNat_lt.mp hlevel)).bind ?_
    exact hread.map fun name => (earCode, item.earClass, item.earLevel, name)
  | false =>
    have hread := (reads_get 32 (codeValue item.code).toNat_lt).map fun code =>
      ((codeOf code, 0, 0, []) : Code × UInt8 × UInt8 × Text)
    rw [codeOf_codeValue] at hread
    exact hread

/-- The fields of an item fit their widths and come back. -/
structure Item.AllKept (kind : Kind) (stats : ItemStats) (save : Bool) (item : Item) : Prop where
  version : item.version < 1024
  location : item.location.Fits
  earClass : item.earClass < 8
  earLevel : item.earLevel < 128
  name : NameFits item.name
  madeIn : kind.questDifficulty → ∃ cost ∈ stats.get questDifficulty,
    StatCost.Fits cost (partnerValue item.stats questDifficulty)
  fields : item.isSimple kind = false →
    item.FieldsKept kind stats (save || Flags.has item.flags Flags.identified)
  lists : item.isSimple kind = false → save || Flags.has item.flags Flags.identified →
    item.ListsKept stats (item.writtenFlags kind save)
  bonus : item.isSimple kind = false → save || Flags.has item.flags Flags.identified →
    item.quality.isSet → ∀ i : Fin 5, item.setStats.get i ≠ [] →
      ∃ s ∈ item.setStats.get i, Counts stats s

theorem has_written {flag : UInt32} (hinit : Flags.init &&& flag = 0)
    (hwritten : Flags.written &&& flag = 0) (hcompact : Flags.compact &&& flag = 0)
    (hsocketed : Flags.socketed &&& flag = 0) (kind : Kind) (save : Bool) (item : Item) :
    Flags.has (item.writtenFlags kind save) flag = Flags.has item.flags flag :=
  has_itemFlags hinit hwritten hcompact hsocketed item.flags _ save

/-- **The bits of an item are read as a whole.** -/
theorem reads_item {items : Items} {kind : Kind} {stats : ItemStats} {target : Target} {item : Item}
    (hkind : ItemBits.kind items item.writtenCode = some kind)
    (hkept : item.AllKept kind stats (target = .save)) :
    Reads (readItem items stats target) (itemBits item items stats target false)
      (item.back kind stats (target = .save)) := by
  have hmarker : Reads (readIf (decide (target = .save)) (get 16) 0x4D4A)
      (if decide (target = .save) then put 0x4D4A 16 else []) 0x4D4A := by
    have hread := reads_if (decide (target = .save)) (0x4D4A : UInt32) fun _ =>
      reads_get (v := 0x4D4A) 16 (by decide)
    rwa [ite_self] at hread
  have hear := has_written (by decide : Flags.init &&& Flags.ear = 0) (by decide) (by decide)
    (by decide) kind (target = .save) item
  have hident := has_written (by decide : Flags.init &&& Flags.identified = 0) (by decide)
    (by decide) (by decide) kind (target = .save) item
  have hcompact : Flags.has (item.writtenFlags kind (target = .save)) Flags.compact =
      item.isSimple kind := has_compact item.flags _ _
  rw [itemBits_eq hkind]
  refine hmarker.bind ?_
  rw [if_neg (by decide)]
  refine (reads_get 32 (UInt32.toNat_lt _)).bind ?_
  refine (reads_clampedU16 10 (UInt16.lt_iff_toNat_lt.mp hkept.version)).bind ?_
  refine (reads_location hkept.location).bind ?_
  rw [hear]
  refine (reads_code hkept.earClass hkept.earLevel hkept.name).bind ?_
  dsimp only
  rw [hkind]
  dsimp only
  have hsimple : (Flags.has item.flags Flags.ear || item.isSimple kind) = item.isSimple kind := by
    rw [Item.isSimple, ← Bool.or_assoc, Bool.or_self]
  rw [Item.back, hcompact, hsimple]
  cases hlayout : item.isSimple kind with
  | true => exact reads_simple _ (item.head kind _) hkept.madeIn
  | false =>
    refine reads_full (item.head kind _) hident ?_ fun h => ?_
    · rw [hident]
      exact hkept.fields hlayout
    · rw [hident] at h
      exact hkept.lists hlayout h

/-! ## Writing it again -/

theorem writeSimple_back (kind : Kind) (stats : ItemStats) (save : Bool) (item read : Item) :
    writeSimple kind stats save (item.withSimple kind stats save read) =
      writeSimple kind stats save item := by
  have hmadeIn (madeIn : Int32) : partnerValue (if madeIn ≠ 0 then
      [⟨questDifficulty, 0, madeIn⟩] else []) questDifficulty = madeIn := by
    split
    · rfl
    · rename_i hzero
      exact (not_not.mp hzero).symm
  rw [writeSimple, writeSimple, Item.withSimple]
  dsimp only
  rw [hmadeIn]
  cases kind.gold <;> cases kind.questDifficulty <;> cases save <;> simp [writeValue_back]

theorem writeQuality_back (kind : Kind) (identified : Bool) {item read : Item}
    (hquality : read.quality = item.quality.shown identified)
    (htype : read.typeExtra = (item.extras kind identified).1)
    (hbook : read.book = (item.extras kind identified).2) :
    writeQuality kind identified read = writeQuality kind identified item := by
  rw [writeQuality, writeQuality, hquality, htype, hbook, Item.extras]
  cases item.quality with
  | normal =>
    dsimp only [Quality.shown]
    cases kind.bodyPart <;> cases kind.charm && identified <;> cases kind.book <;> simp
  | inferior id => rfl
  | superior id => rfl
  | magic pre suf => cases identified <;> rfl
  | set id => cases identified <;> rfl
  | rare ids => cases identified <;> rfl
  | unique id => cases identified <;> rfl
  | crafted ids => cases identified <;> rfl
  | tempered a b => cases identified <;> rfl

theorem writeWear_back {kind : Kind} {stats : ItemStats} {item read : Item}
    (hfits : item.WearFits kind stats) (hdefense : read.defense = (item.wear kind stats).defense)
    (hmax : read.maxDurability = (item.wear kind stats).maxDurability)
    (hdurability : read.durability = (item.wear kind stats).durability)
    (hgold : read.gold = (item.wear kind stats).gold) :
    writeWear kind stats read = writeWear kind stats item := by
  rw [writeWear, writeWear, hdefense, hmax, hdurability, hgold, Item.wear]
  dsimp only
  cases hkind : kind.armor || kind.weapon with
  | false => cases kind.armor <;> cases kind.gold <;> simp [writeValue_back]
  | true =>
    have hzero := maxDurability_back hfits hkind
    have hworn : (if backOf stats 73 item.maxDurability ≠ 0 then
        writeValue stats 72 (if item.maxDurability ≠ 0 then backOf stats 72 item.durability else 0)
        else []) = if item.maxDurability ≠ 0 then writeValue stats 72 item.durability else [] := by
      by_cases hnone : item.maxDurability = 0
      · rw [if_neg (not_not.mpr (hzero.mpr hnone)), if_neg (not_not.mpr hnone)]
      · rw [if_pos (mt hzero.mp hnone), if_pos hnone, if_pos hnone, writeValue_back]
    simp only [if_true, Bool.true_and, decide_eq_true_eq, writeValue_back, hworn]
    cases kind.armor <;> simp [writeValue_back]

theorem setMask_congr {lists lists' : Vector (List ItemStat) 5}
    (h : ∀ i : Fin 5, (lists.get i).isEmpty = (lists'.get i).isEmpty) :
    setMask lists = setMask lists' := by
  rw [setMask, setMask]
  refine List.foldl_ext _ _ _ fun m i _ => ?_
  rw [h i]

theorem writeLists_back {stats : ItemStats} {flags : UInt32} {item read : Item}
    (hkept : item.ListsKept stats flags)
    (hbonus : item.quality.isSet → ∀ i : Fin 5, item.setStats.get i ≠ [] →
      ∃ s ∈ item.setStats.get i, Counts stats s)
    (hset : read.quality.isSet = item.quality.isSet) :
    writeLists stats flags (item.withLists stats flags read) = writeLists stats flags item := by
  have hquality : (item.withLists stats flags read).quality.isSet = item.quality.isSet := hset
  have hback (h : item.quality.isSet = true) (i : Fin 5) :
      (setBack stats item.quality.isSet item.setStats).get i =
        listBack stats (item.setStats.get i) := by
    rw [h]
    exact Vector.getElem_map ..
  have hempty (h : item.quality.isSet = true) (i : Fin 5) :
      (listBack stats (item.setStats.get i)).isEmpty = (item.setStats.get i).isEmpty := by
    by_cases hnone : item.setStats.get i = []
    · rw [hnone, listBack_nil]
    · obtain ⟨s, hs, hcounts⟩ := hbonus h i hnone
      have hsome := listBack_ne_nil hs hcounts
      rw [List.isEmpty_eq_false_iff.mpr hsome, List.isEmpty_eq_false_iff.mpr hnone]
  have hmask (h : item.quality.isSet = true) :
      setMask (setBack stats item.quality.isSet item.setStats) = setMask item.setStats :=
    setMask_congr fun i => by rw [hback h, hempty h]
  have hlists (h : item.quality.isSet = true) (i : Fin 5) :
      (if ((setBack stats item.quality.isSet item.setStats).get i).isEmpty then []
        else writeList stats ((setBack stats item.quality.isSet item.setStats).get i)) =
      if (item.setStats.get i).isEmpty then [] else writeList stats (item.setStats.get i) := by
    rw [hback h, hempty h]
    by_cases hnone : item.setStats.get i = []
    · rw [hnone]
      rfl
    · rw [writeList_back (hkept.set h i hnone)]
  have hruneword : (if Flags.has flags Flags.runeword then writeList stats
      (if Flags.has flags Flags.runeword then listBack stats item.runewordStats else []) else []) =
        if Flags.has flags Flags.runeword then writeList stats item.runewordStats else [] := by
    by_cases h : Flags.has flags Flags.runeword = true
    · rw [if_pos h, if_pos h, if_pos h, writeList_back (hkept.runeword h)]
    · rw [if_neg h, if_neg h]
  have hfields : writeLists stats flags (item.withLists stats flags read) =
      (if item.quality.isSet then
        put (setMask (setBack stats item.quality.isSet item.setStats)) 5 else []) ++
        (writeList stats (listBack stats item.stats) ++
          ((if item.quality.isSet then (List.finRange 5).flatMap fun i =>
              if ((setBack stats item.quality.isSet item.setStats).get i).isEmpty then []
              else writeList stats ((setBack stats item.quality.isSet item.setStats).get i)
            else []) ++
          if Flags.has flags Flags.runeword then writeList stats
            (if Flags.has flags Flags.runeword then listBack stats item.runewordStats else [])
            else [])) := by
    rw [writeLists_eq, hquality]
    rfl
  rw [hfields, writeLists_eq, writeList_back hkept.own, hruneword]
  by_cases h : item.quality.isSet = true
  · rw [if_pos h, if_pos h, if_pos h, if_pos h, hmask h, List.flatMap_congr fun i _ => hlists h i]
  · rw [if_neg h, if_neg h, if_neg h, if_neg h]

/-- A field that is kept where it is written is written as it was. -/
theorem if_back {α : Type} (present : Bool) (writer : α → Writer) (value default : α) :
    (if present then writer (if present then value else default) else []) =
      if present then writer value else [] := by
  cases present <;> rfl

theorem level_back (level : UInt8) :
    max 1 (min (max 1 (min level 99)) 99) = max 1 (min level 99) := by
  obtain ⟨hlow, hhigh⟩ := level_bounds level
  generalize max 1 (min level 99) = shown at hlow hhigh ⊢
  have hmin : min shown 99 = shown := if_pos hhigh
  rw [hmin]
  exact if_pos hlow

theorem writeFull_back {kind : Kind} {stats : ItemStats} {save : Bool} {flags : UInt32}
    {item read : Item} (hread : read.flags = flags ∧ read.filled = 0)
    (hflags : Flags.has flags Flags.identified = Flags.has item.flags Flags.identified)
    (hwear : item.WearFits kind stats)
    (hlists : save || Flags.has flags Flags.identified → item.ListsKept stats flags)
    (hbonus : save || Flags.has flags Flags.identified → item.quality.isSet →
      ∀ i : Fin 5, item.setStats.get i ≠ [] → ∃ s ∈ item.setStats.get i, Counts stats s) :
    writeFull kind stats save flags (item.withFull kind stats save flags read) =
      writeFull kind stats save flags item := by
  -- the stat lists apart, an item is read as its fields are
  have hfields : ∃ own sets runewords, item.withFull kind stats save flags read =
      { item.withFields kind stats save flags read with
        stats := own, setStats := sets, runewordStats := runewords } := by
    rw [Item.withFull]
    split
    · exact ⟨_, _, _, rfl⟩
    · exact ⟨_, _, _, rfl⟩
  have hnumber : (item.quality.shown (save || Flags.has flags Flags.identified)).number =
      item.quality.number := by cases item.quality <;> rfl
  have hwritten : (if save || Flags.has flags Flags.identified then
      writeLists stats flags (item.withFull kind stats save flags read) else []) =
        if save || Flags.has flags Flags.identified then writeLists stats flags item else [] := by
    by_cases h : (save || Flags.has flags Flags.identified) = true
    · have hset : (item.withFields kind stats save flags read).quality.isSet =
          item.quality.isSet := by
        show (item.quality.shown _).isSet = _
        cases item.quality <;> rfl
      rw [if_pos h, if_pos h, Item.withFull, if_pos h]
      exact writeLists_back (hlists h) (hbonus h) hset
    · rw [if_neg h, if_neg h]
  have hidentified : (item.withFull kind stats save flags read).flags = flags := by
    rw [Item.withFull]
    split <;> exact hread.1
  rw [writeFull, writeFull, hidentified, ← hflags, hwritten]
  refine congrArg (· ++ _) ?_
  obtain ⟨own, sets, runewords, hback⟩ := hfields
  rw [hback]
  dsimp only [Item.withFields, Item.socketCount]
  rw [hread.2, hnumber, level_back, writeQuality_back kind _ rfl rfl rfl,
    writeWear_back hwear rfl rfl rfl rfl, if_back save (put · 32),
    if_back _ fun runeword : UInt16 => put runeword.toUInt32 16,
    if_back _ fun name : Text => writeName name.asBytes, if_back save writeRealm,
    if_back kind.stackable fun quantity : UInt16 => clamped quantity.toUInt32 9,
    if_back _ (writeSockets stats)]
  cases kind.pictures <;> rfl

theorem back_head (kind : Kind) (stats : ItemStats) (save : Bool) (item : Item) :
    (item.back kind stats save).flags = item.writtenFlags kind save ∧
      (item.back kind stats save).version = item.version ∧
      (item.back kind stats save).location = item.location ∧
      (item.back kind stats save).code = item.writtenCode := by
  rw [Item.back]
  split
  · exact ⟨rfl, rfl, rfl, rfl⟩
  · rw [Item.withFull]
    split <;> exact ⟨rfl, rfl, rfl, rfl⟩

theorem codeBits_back {kind : Kind} {stats : ItemStats} {save : Bool} {item : Item}
    (hname : NameFits item.name) : (item.back kind stats save).codeBits = item.codeBits := by
  obtain ⟨hflags, _, _, hcode⟩ := back_head kind stats save item
  rw [Item.codeBits, Item.codeBits, hflags,
    has_written (by decide) (by decide) (by decide) (by decide), hcode, Item.writtenCode]
  cases hear : Flags.has item.flags Flags.ear with
  | false => rfl
  | true =>
    have hsimple : item.isSimple kind = true := by
      rw [Item.isSimple, hear]
      rfl
    have htake : (Text.asBytes (item.name.take earNameMax)).take earNameMax =
        item.name.asBytes.take earNameMax := by
      rw [Text.asBytes_of_ascii fun c hc => (hname c hc).2,
        Text.asBytes_of_ascii fun c hc => (hname c (List.mem_of_mem_take hc)).2, List.map_take,
        List.take_take, Nat.min_self]
    rw [Item.back, if_pos hsimple]
    simp only [Item.withSimple, Item.head, hear, if_true, htake]

/-- **An item that was read back is written as it was.** -/
theorem itemBits_back {items : Items} {kind : Kind} {stats : ItemStats} {target : Target}
    {item : Item} (hkind : ItemBits.kind items item.writtenCode = some kind)
    (hkept : item.AllKept kind stats (target = .save)) :
    itemBits (item.back kind stats (target = .save)) items stats target false =
      itemBits item items stats target false := by
  obtain ⟨hflags, hversion, hlocation, hcode⟩ := back_head kind stats (target = .save) item
  have hear : Flags.has (item.back kind stats (target = .save)).flags Flags.ear =
      Flags.has item.flags Flags.ear := by
    rw [hflags, has_written (by decide) (by decide) (by decide) (by decide)]
  have hident := has_written (by decide : Flags.init &&& Flags.identified = 0) (by decide)
    (by decide) (by decide) kind (target = .save) item
  have hwritten : (item.back kind stats (target = .save)).writtenCode = item.writtenCode := by
    rw [Item.writtenCode, hear, hcode, Item.writtenCode]
    split <;> rfl
  have hsimple : (item.back kind stats (target = .save)).isSimple kind = item.isSimple kind := by
    rw [Item.isSimple, hear, Item.isSimple]
  have hagain : (item.back kind stats (target = .save)).writtenFlags kind (target = .save) =
      item.writtenFlags kind (target = .save) := by
    rw [Item.writtenFlags, hsimple, hflags]
    exact itemFlags_idem item.flags _ _
  rw [itemBits_eq (hwritten.symm ▸ hkind), itemBits_eq hkind, hversion, hlocation, hagain,
    codeBits_back hkept.name, hsimple]
  cases hlayout : item.isSimple kind with
  | true =>
    have hback : item.back kind stats (target = .save) =
        item.withSimple kind stats (target = .save) (item.head kind (target = .save)) :=
      if_pos hlayout
    rw [if_pos rfl, if_pos rfl, hback, writeSimple_back]
  | false =>
    have hback : item.back kind stats (target = .save) =
        item.withFull kind stats (target = .save) (item.writtenFlags kind (target = .save))
          (item.head kind (target = .save)) :=
      if_neg (Bool.eq_false_iff.mp hlayout)
    have hlists := hkept.lists hlayout
    have hbonus := hkept.bonus hlayout
    rw [← hident] at hlists hbonus
    have hhead : (item.head kind (target = .save)).flags = item.writtenFlags kind (target = .save) ∧
        (item.head kind (target = .save)).filled = 0 := ⟨rfl, rfl⟩
    rw [if_neg Bool.false_ne_true, if_neg Bool.false_ne_true, hback,
      writeFull_back hhead hident (hkept.fields hlayout).wear hlists hbonus]

end CommandCenter.Formats.ItemBits
