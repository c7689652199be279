import CommandCenter.Formats.ItemLists

/-!
# Fields of an item that come back

What `read` of `crates/d2-data/src/item_bits.rs` makes of what `write` wrote, part by part.

* `has_itemFlags`, `itemFlags_idem`: the flags that are written.
* `reads_location`, `reads_name`, `reads_realm`, `reads_gold`: fields that every item may have.
* `reads_quality`: the ids of a quality, but for a normal charm without an affix.
* `reads_wear`, `reads_lists`: defence, durability and the stat lists.
-/

namespace CommandCenter.Formats.ItemBits

open Rust Library

/-! ## Flags -/

/-- The flags of every item written, and whether it is simple. -/
def markedFlags (flags : UInt32) (compact : Bool) : UInt32 :=
  let f := (flags &&& ~~~Flags.init) ||| Flags.written
  if compact then f ||| Flags.compact else f &&& ~~~Flags.compact

theorem has_marked {flag : UInt32} (hinit : Flags.init &&& flag = 0)
    (hwritten : Flags.written &&& flag = 0) (hcompact : Flags.compact &&& flag = 0)
    (flags : UInt32) (compact : Bool) :
    Flags.has (markedFlags flags compact) flag = Flags.has flags flag := by
  have hmask : markedFlags flags compact &&& flag = flags &&& flag := by
    cases compact with
    | true => exact (set_and hcompact _).trans ((set_and hwritten _).trans (clear_and hinit _))
    | false => exact (clear_and hcompact _).trans ((set_and hwritten _).trans (clear_and hinit _))
  rw [Flags.has, Flags.has, hmask]

theorem itemFlags_eq (flags : UInt32) (compact save : Bool) : itemFlags flags compact save false =
    if !save && !Flags.has flags Flags.identified then
      markedFlags flags compact &&& ~~~Flags.socketed
    else markedFlags flags compact := by
  rw [← has_marked (by decide : Flags.init &&& Flags.identified = 0) (by decide) (by decide) flags
    compact]
  rfl

theorem has_itemFlags {flag : UInt32} (hinit : Flags.init &&& flag = 0)
    (hwritten : Flags.written &&& flag = 0) (hcompact : Flags.compact &&& flag = 0)
    (hsocketed : Flags.socketed &&& flag = 0) (flags : UInt32) (compact save : Bool) :
    Flags.has (itemFlags flags compact save false) flag = Flags.has flags flag := by
  rw [itemFlags_eq, ← has_marked hinit hwritten hcompact flags compact]
  split
  · rw [Flags.has, clear_and hsocketed, Flags.has]
  · rfl

theorem has_compact (flags : UInt32) (compact save : Bool) :
    Flags.has (itemFlags flags compact save false) Flags.compact = compact := by
  have hmarked : Flags.has (markedFlags flags compact) Flags.compact = compact := by
    cases compact with
    | true =>
      rw [Flags.has, markedFlags, if_pos rfl, set_and_self]
      rfl
    | false =>
      rw [Flags.has, markedFlags, if_neg Bool.false_ne_true, clear_and_self]
      rfl
  rw [itemFlags_eq]
  split
  · rwa [Flags.has, clear_and (by decide), ← Flags.has]
  · exact hmarked

/-- Flags that were written are written again. -/
theorem itemFlags_idem (flags : UInt32) (compact save : Bool) :
    itemFlags (itemFlags flags compact save false) compact save false =
      itemFlags flags compact save false := by
  rw [itemFlags_eq (itemFlags flags compact save false),
    has_itemFlags (by decide) (by decide) (by decide) (by decide), itemFlags_eq flags]
  refine eq_of_bits fun i => ?_
  have hinit := bits_disjoint (m := Flags.init) (n := Flags.written) (by decide) i
  have hsimple := bits_disjoint (m := Flags.init) (n := Flags.compact) (by decide) i
  have hmarked := bits_disjoint (m := Flags.written) (n := Flags.compact) (by decide) i
  have hsockets := bits_disjoint (m := Flags.written) (n := Flags.socketed) (by decide) i
  have hboth := bits_disjoint (m := Flags.socketed) (n := Flags.compact) (by decide) i
  split <;> cases compact <;> simp [markedFlags] <;> grind

/-! ## Places -/

/-- The fields of a place fit their widths. -/
def Location.Fits : Location → Prop
  | .stored col row page => col < 16 ∧ row < 16 ∧ page < 7
  | .equipped body => body < 16
  | .belt slot | .socketed slot => slot < 16
  | .ground _ _ | .dropping _ _ => True
  | .cursor body col row page => body < 16 ∧ col < 16 ∧ row < 16 ∧ ∀ p ∈ page, p < 7

theorem reads_clampedU8 {v : UInt8} (bits : Nat) (h : v.toNat < 2 ^ bits) :
    Reads (getU8 bits) (clamped v.toUInt32 bits) v := by
  rw [clamped_of_lt (by simpa using h)]
  exact reads_getU8 _ h

theorem reads_clampedU16 {v : UInt16} (bits : Nat) (h : v.toNat < 2 ^ bits) :
    Reads (getU16 bits) (clamped v.toUInt32 bits) v := by
  rw [clamped_of_lt (by simpa using h)]
  exact reads_getU16 _ h

theorem reads_cells {body col row page : UInt8} (hbody : body < 16) (hcol : col < 16)
    (hrow : row < 16) (hpage : page < 8)
    (f : UInt8 → UInt8 → UInt8 → UInt8 → Location) :
    Reads (do
        let body ← getU8 4
        let col ← getU8 4
        let row ← getU8 4
        let page ← getU8 3
        return f body col row page)
      (writeLocation.cells body col row page) (f body col row page) := by
  rw [writeLocation.cells, List.append_assoc, List.append_assoc]
  refine (reads_clampedU8 _ (UInt8.lt_iff_toNat_lt.mp hbody)).bind ?_
  refine (reads_clampedU8 _ (UInt8.lt_iff_toNat_lt.mp hcol)).bind ?_
  refine (reads_clampedU8 _ (UInt8.lt_iff_toNat_lt.mp hrow)).bind ?_
  exact (reads_clampedU8 _ (UInt8.lt_iff_toNat_lt.mp hpage)).map fun page => f body col row page

theorem page_spec {page : UInt8} (h : page < 7) : page + 1 < 8 ∧
    (if page + 1 = 0 then 0 else page + 1 - 1) = page ∧
      (if page + 1 = 0 then none else some (page + 1 - 1)) = some page := by
  have hlt : page + 1 < 8 := by
    rw [UInt8.lt_iff_toNat_lt] at h ⊢
    have hsmall : page.toNat < 7 := h
    rw [UInt8.toNat_add]
    show (page.toNat + 1) % 256 < 8
    omega
  have hne : page + 1 ≠ 0 := by
    rw [UInt8.lt_iff_toNat_lt] at h
    have hsmall : page.toNat < 7 := h
    intro hzero
    have hnat : (page.toNat + 1) % 256 = 0 := by simpa using congrArg UInt8.toNat hzero
    omega
  rw [if_neg hne, if_neg hne, UInt8.add_sub_cancel]
  exact ⟨hlt, rfl, rfl⟩

theorem reads_location {l : Location} (h : l.Fits) :
    Reads readLocation (put l.mode 3 ++ writeLocation l) l := by
  have hmode : Reads (get 3) (put l.mode 3) l.mode := by
    refine reads_get _ ?_
    cases l <;> exact Nat.lt_of_sub_pos (Nat.succ_pos _)
  refine hmode.bind ?_
  cases l with
  | ground x y =>
    show Reads (getU16 16 >>= _) _ _
    refine (reads_getU16 _ x.toNat_lt).bind ?_
    exact (reads_getU16 _ y.toNat_lt).map fun y => Location.ground x y
  | dropping x y =>
    show Reads (getU16 16 >>= _) _ _
    refine (reads_getU16 _ x.toNat_lt).bind ?_
    exact (reads_getU16 _ y.toNat_lt).map fun y => Location.dropping x y
  | stored col row page =>
    obtain ⟨hlt, hback, _⟩ := page_spec h.2.2
    have hread := reads_cells (by decide : (0 : UInt8) < 16) h.1 h.2.1 hlt
      (fun _ col row page => .stored col row (if page = 0 then 0 else page - 1))
    rw [hback] at hread
    exact hread
  | equipped body =>
    exact reads_cells h (by decide) (by decide) (by decide) fun body _ _ _ => .equipped body
  | belt slot =>
    exact reads_cells (by decide) h (by decide) (by decide) fun _ slot _ _ => .belt slot
  | socketed slot =>
    exact reads_cells (by decide) h (by decide) (by decide) fun _ slot _ _ => .socketed slot
  | cursor body col row page =>
    have hread (page : UInt8) (hpage : page < 8) := reads_cells h.1 h.2.1 h.2.2.1 hpage
      (fun body col row page => .cursor body col row (if page = 0 then none else some (page - 1)))
    cases page with
    | none => exact hread 0 (by decide)
    | some page =>
      obtain ⟨hlt, _, hback⟩ := page_spec (h.2.2.2 page rfl)
      have hread := hread (page + 1) hlt
      rw [hback] at hread
      exact hread

/-! ## Names and small fields -/

/-- ASCII without the terminator. -/
def NameFits (name : Text) : Prop := ∀ c ∈ name, c ≠ '\x00' ∧ c.val.toNat < 128

theorem reads_letters {name : Text} (h : NameFits name) {fuel : Nat} (hfuel : name.length < fuel) :
    Reads (readLetters fuel) (writeName name.asBytes) name := by
  rw [Text.asBytes_of_ascii fun c hc => (h c hc).2]
  induction name generalizing fuel with
  | nil =>
    obtain ⟨fuel, rfl⟩ := Nat.exists_eq_add_one_of_ne_zero (Nat.ne_of_gt hfuel)
    exact (reads_get (v := 0) 7 (by decide)).bind (Reads.pure [])
  | cons c name ih =>
    obtain ⟨fuel, rfl⟩ := Nat.exists_eq_add_one_of_ne_zero (Nat.ne_of_gt (Nat.zero_lt_of_lt hfuel))
    obtain ⟨hne, hascii⟩ := h c List.mem_cons_self
    have hrest := ih (fun d hd => h d (List.mem_cons_of_mem c hd)) (Nat.lt_of_succ_lt_succ hfuel)
    have hbyte : (UInt8.ofNat c.val.toNat).toNat = c.val.toNat := by
      rw [UInt8.toNat_ofNat']
      omega
    have hzero : (UInt8.ofNat c.val.toNat).toUInt32 ≠ 0 := by
      intro hzero
      have hnat := congrArg UInt32.toNat hzero
      rw [UInt8.toNat_toUInt32, hbyte] at hnat
      exact hne (Char.ext (UInt32.toNat_inj.mp hnat))
    have hsmall : (UInt8.ofNat c.val.toNat).toUInt32.toNat < 2 ^ 7 := by
      rw [UInt8.toNat_toUInt32, hbyte]
      exact hascii
    rw [writeName, List.map_cons, List.flatMap_cons, List.append_assoc, clamped_of_lt hsmall]
    refine (reads_get _ hsmall).bind ?_
    rw [if_neg hzero, UInt8.toNat_toUInt32, hbyte]
    have hchar : Char.ofNat c.val.toNat = c := Char.ofNat_toNat c
    rw [hchar]
    exact hrest.map fun rest => c :: rest

theorem reads_name {name : Text} (h : NameFits name) :
    Reads readName (writeName name.asBytes) name := by
  intro rest
  refine reads_letters h ?_ rest
  -- each letter takes seven bits
  have hletters (bytes : List UInt8) :
      (bytes.flatMap fun c => clamped c.toUInt32 7).length = 7 * bytes.length := by
    induction bytes with
    | nil => rfl
    | cons c bytes ih =>
      rw [List.flatMap_cons, List.length_append, ih, clamped, put, length_bitsOf, List.length_cons]
      omega
  have hlen : name.asBytes.length = name.length := by
    rw [Text.asBytes_of_ascii fun c hc => (h c hc).2, List.length_map]
  rw [writeName, List.length_append, List.length_append, hletters, hlen, clamped, put,
    length_bitsOf]
  omega

theorem reads_realm (realm : Option (UInt32 × UInt32)) :
    Reads readRealm (writeRealm realm) realm := by
  cases realm with
  | none => exact (reads_get (v := 0) 1 (by decide)).bind (Reads.pure none)
  | some pair =>
    have hword (v : UInt32) : Reads (get 32) (put v 32) v := reads_get _ v.toNat_lt
    rw [writeRealm, List.append_assoc, List.append_assoc]
    refine (reads_get (v := 1) 1 (by decide)).bind ?_
    refine (hword pair.1).bind ((hword pair.2).bind ?_)
    exact (hword 0).map fun _ => some pair

theorem reads_gold (gold : UInt32) : Reads readGold (writeGold gold) gold := by
  rw [writeGold]
  split
  · exact (reads_get (v := 1) 1 (by decide)).bind (reads_get _ gold.toNat_lt)
  · rename_i hsmall
    have hlt : gold.toNat < 2 ^ 12 := by
      rw [UInt32.not_lt, UInt32.le_iff_toNat_le] at hsmall
      exact Nat.lt_succ_of_le hsmall
    exact (reads_get (v := 0) 1 (by decide)).bind (reads_get _ hlt)

theorem reads_affix {id : UInt16} (h : id < 2048) : Reads readAffix (writeAffix id) id := by
  rw [writeAffix]
  split
  · refine (reads_get (v := 1) 1 (by decide)).bind ?_
    exact reads_clampedU16 _ (UInt16.lt_iff_toNat_lt.mp h)
  · rename_i hzero
    rw [not_not.mp hzero, ← List.append_nil (put 0 1)]
    exact (reads_get (v := 0) 1 (by decide)).bind (Reads.pure 0)

/-! ## Qualities -/

/-- The ids of a quality fit their widths. -/
def Quality.Fits : Quality → Prop
  | .inferior id | .superior id => id < 8
  | .normal | .tempered _ _ => True
  | .magic pre suf => pre < 2048 ∧ suf < 2048
  | .set id | .unique id => id < 4096
  | .rare ids | .crafted ids => ∀ i : Fin 3, ids.prefixes.get i < 2048 ∧ ids.suffixes.get i < 2048

/-- The ids of a rare item as they are read back. -/
def RareIds.shown (identified : Bool) (ids : RareIds) : RareIds :=
  { ids with names := if identified then ids.names else (0, 0) }

/-- A quality as it is read back: of an item that is not identified most ids are hidden. -/
def Quality.shown (identified : Bool) : Quality → Quality
  | .magic pre suf => .magic (if identified then pre else 0) (if identified then suf else 0)
  | .set id => .set (if identified then id else 0)
  | .rare ids => .rare (ids.shown identified)
  | .unique id => .unique (if identified then id else 0)
  | .crafted ids => .crafted (ids.shown identified)
  | .tempered a b => .tempered (if identified then a else 0) (if identified then b else 0)
  | quality => quality

/-- A normal item's type extra and scroll kind, as they are read back. -/
def Item.extras (kind : Kind) (identified : Bool) (item : Item) : UInt16 × UInt8 :=
  match item.quality with
  | .normal =>
    (if kind.bodyPart then item.typeExtra
      else if kind.charm && identified then item.typeExtra else 0,
    if kind.book then item.book else 0)
  | _ => (0, 0)

theorem reads_pair (a b : UInt8) : Reads readPair (put a.toUInt32 8 ++ put b.toUInt32 8) (a, b) :=
  (reads_getU8 _ a.toNat_lt).bind ((reads_getU8 _ b.toNat_lt).map fun b => (a, b))

theorem reads_rareIds (identified : Bool) {ids : RareIds}
    (h : ∀ i : Fin 3, ids.prefixes.get i < 2048 ∧ ids.suffixes.get i < 2048) :
    Reads (readRareIds identified)
      ((if identified then put ids.names.1.toUInt32 8 ++ put ids.names.2.toUInt32 8 else []) ++
        (List.finRange 3).flatMap fun i =>
          writeAffix (ids.prefixes.get i) ++ writeAffix (ids.suffixes.get i))
      (ids.shown identified) := by
  have hindices : List.finRange 3 = [0, 1, 2] := rfl
  have hthree (affixes : Vector UInt16 3) : #v[affixes[0], affixes[1], affixes[2]] = affixes := by
    ext i hi
    obtain rfl | rfl | rfl : i = 0 ∨ i = 1 ∨ i = 2 := by omega
    · rfl
    · rfl
    · rfl
  have hnames := reads_if identified (0, 0) fun _ =>
    reads_pair ids.names.1 ids.names.2
  rw [hindices, List.flatMap_cons, List.flatMap_cons, List.flatMap_cons, List.flatMap_nil,
    List.append_nil, List.append_assoc, List.append_assoc]
  refine hnames.bind ((reads_affix (h 0).1).bind ((reads_affix (h 0).2).bind ?_))
  refine (reads_affix (h 1).1).bind ((reads_affix (h 1).2).bind ?_)
  refine (reads_affix (h 2).1).bind ?_
  have hlast := (reads_affix (h 2).2).map fun suffix2 : UInt16 => (⟨
    if identified then ids.names else (0, 0),
    #v[ids.prefixes[0], ids.prefixes[1], ids.prefixes[2]],
    #v[ids.suffixes[0], ids.suffixes[1], suffix2]⟩ : RareIds)
  have hvalue : (⟨if identified then ids.names else (0, 0),
      #v[ids.prefixes[0], ids.prefixes[1], ids.prefixes[2]],
      #v[ids.suffixes[0], ids.suffixes[1], ids.suffixes[2]]⟩ : RareIds) = ids.shown identified := by
    rw [hthree, hthree]
    rfl
  rw [← hvalue]
  exact hlast

theorem reads_normal (kind : Kind) (identified : Bool) {typeExtra : UInt16} {book : UInt8}
    (hcharm : kind.charm → typeExtra < 2048) (hbody : kind.bodyPart → typeExtra < 1024)
    (hbook : book < 32) (hextra : kind.charm → identified → typeExtra ≠ 0) :
    Reads (readNormal kind identified)
      ((if kind.charm && identified then
        put (if typeExtra ≠ 0 then 1 else 0) 1 ++ clamped typeExtra.toUInt32 11 else []) ++
        (if kind.bodyPart then clamped typeExtra.toUInt32 10 else []) ++
        if kind.book then clamped book.toUInt32 5 else [])
      (if kind.bodyPart then typeExtra else if kind.charm && identified then typeExtra else 0,
        if kind.book then book else 0) := by
  have hcharms : Reads (readIf (kind.charm && identified) readAffix 0)
      (if kind.charm && identified then
        put (if typeExtra ≠ 0 then 1 else 0) 1 ++ clamped typeExtra.toUInt32 11 else [])
      (if kind.charm && identified then typeExtra else 0) := by
    refine reads_if _ _ fun h => ?_
    rw [Bool.and_eq_true] at h
    have hne := hextra h.1 h.2
    have haffix := reads_affix (hcharm h.1)
    rw [if_pos hne]
    rwa [writeAffix, if_pos hne] at haffix
  have hbodies := reads_if kind.bodyPart
    (if kind.charm && identified then typeExtra else 0) fun h =>
      reads_clampedU16 10 (UInt16.lt_iff_toNat_lt.mp (hbody h))
  have hbooks := reads_if kind.book 0 fun _ =>
    reads_clampedU8 5 (UInt8.lt_iff_toNat_lt.mp hbook)
  rw [List.append_assoc]
  refine hcharms.bind (hbodies.bind ?_)
  exact hbooks.map fun book => (_, book)

/-- The fields of a quality are read back, unless a normal charm shows no affix. -/
theorem reads_quality (kind : Kind) (identified : Bool) {item : Item} (hfits : item.quality.Fits)
    (hcharm : kind.charm → item.typeExtra < 2048) (hbody : kind.bodyPart → item.typeExtra < 1024)
    (hbook : item.book < 32)
    (hextra : item.quality = .normal → kind.charm → identified → item.typeExtra ≠ 0) :
    Reads (readQuality kind identified item.quality.number) (writeQuality kind identified item)
      (item.quality.shown identified, item.extras kind identified) := by
  have hshort {id : UInt8} (h : id < 8) : id.toNat < 2 ^ 3 := UInt8.lt_iff_toNat_lt.mp h
  have haffix {id : UInt16} (h : id < 2048) : id.toNat < 2 ^ 11 := UInt16.lt_iff_toNat_lt.mp h
  have hlong {id : UInt16} (h : id < 4096) : id.toNat < 2 ^ 12 := UInt16.lt_iff_toNat_lt.mp h
  have hids {id : UInt16} (h : id < 4096) := reads_if identified 0
    fun _ => reads_clampedU16 _ (hlong h)
  rw [writeQuality, Item.extras]
  generalize item.quality = quality at hfits hextra ⊢
  cases quality with
  | normal =>
    have hread := reads_normal kind identified hcharm hbody hbook (hextra rfl)
    exact hread.map fun extras => (Quality.normal, extras)
  | inferior id => exact (reads_clampedU8 _ (hshort hfits)).map fun id => (Quality.inferior id, _)
  | superior id => exact (reads_clampedU8 _ (hshort hfits)).map fun id => (Quality.superior id, _)
  | magic pre suf =>
    cases identified with
    | true =>
      refine (reads_clampedU16 _ (haffix hfits.1)).bind ?_
      exact (reads_clampedU16 _ (haffix hfits.2)).map fun suf => (Quality.magic pre suf, _)
    | false => exact Reads.pure _
  | set id => exact (hids hfits).map fun id => (Quality.set id, _)
  | unique id => exact (hids hfits).map fun id => (Quality.unique id, _)
  | rare ids => exact (reads_rareIds identified hfits).map fun ids => (Quality.rare ids, _)
  | crafted ids => exact (reads_rareIds identified hfits).map fun ids => (Quality.crafted ids, _)
  | tempered a b =>
    cases identified with
    | true => exact (reads_pair a b).map fun pair => (Quality.tempered pair.1 pair.2, _)
    | false => exact Reads.pure _

/-! ## Wear and sockets -/

theorem back_zero_iff (cost : StatCost) (v : Int32) :
    StatCost.back cost v = 0 ↔ shr v cost.valShift = 0 := by
  have hzero : shr 0 cost.valShift = 0 := by
    apply Int32.toInt_inj.mp
    rw [toInt_shr]
    exact Int.zero_ediv _
  constructor
  · intro h
    rw [← shr_shl_shr, ← StatCost.back, h, hzero]
  · intro h
    apply Int32.toInt_inj.mp
    have hwhole := toInt_shr v cost.valShift
    rw [h] at hwhole
    rw [StatCost.back, toInt_shl_shr, ← hwhole]
    exact Int.zero_mul _

/-- Defence and durability fit their widths, and durability is not zero once shifted. -/
structure Item.WearFits (kind : Kind) (stats : ItemStats) (item : Item) : Prop where
  defense : kind.armor → ∃ cost ∈ stats.get 31, StatCost.Fits cost item.defense
  maxDurability : kind.armor || kind.weapon → ∃ cost ∈ stats.get 73,
    StatCost.Fits cost item.maxDurability ∧
      (item.maxDurability ≠ 0 → shr item.maxDurability cost.valShift ≠ 0)
  durability : kind.armor || kind.weapon → item.maxDurability ≠ 0 → ∃ cost ∈ stats.get 72,
    StatCost.Fits cost item.durability

/-- Defence, durability and gold as they are read back. -/
def Item.wear (kind : Kind) (stats : ItemStats) (item : Item) : Wear where
  defense := if kind.armor then backOf stats 31 item.defense else 0
  maxDurability := if kind.armor || kind.weapon then backOf stats 73 item.maxDurability else 0
  durability := if (kind.armor || kind.weapon) && item.maxDurability ≠ 0 then
    backOf stats 72 item.durability else 0
  gold := if !(kind.armor || kind.weapon) && kind.gold then item.gold else 0

theorem maxDurability_back {kind : Kind} {stats : ItemStats} {item : Item}
    (hfits : item.WearFits kind stats) (hkind : kind.armor || kind.weapon) :
    backOf stats 73 item.maxDurability = 0 ↔ item.maxDurability = 0 := by
  obtain ⟨cost, hcost, _, hshift⟩ := hfits.maxDurability hkind
  have hcost' : stats.get 73 = some cost := hcost
  rw [backOf, hcost']
  show StatCost.back cost item.maxDurability = 0 ↔ _
  constructor
  · intro h
    by_contra hne
    exact hshift hne ((back_zero_iff cost _).mp h)
  · intro h
    rw [back_zero_iff, h]
    apply Int32.toInt_inj.mp
    rw [toInt_shr]
    exact Int.zero_ediv _

theorem reads_wear {kind : Kind} {stats : ItemStats} {item : Item}
    (hfits : item.WearFits kind stats) :
    Reads (readWear kind stats) (writeWear kind stats item) (item.wear kind stats) := by
  have hdefense : Reads (readIf kind.armor (readValue stats 31) 0)
      (if kind.armor then writeValue stats 31 item.defense else [])
      (if kind.armor then backOf stats 31 item.defense else 0) := by
    refine reads_if _ _ fun h => ?_
    obtain ⟨cost, hcost, hvalue⟩ := hfits.defense h
    exact reads_value hcost hvalue
  rw [writeWear]
  refine hdefense.bind ?_
  rw [Item.wear]
  cases hkind : kind.armor || kind.weapon with
  | false =>
    have hgold := reads_if kind.gold 0 fun _ => reads_gold item.gold
    exact hgold.map fun gold => (⟨_, 0, 0, gold⟩ : Wear)
  | true =>
    obtain ⟨cost, hcost, hvalue, _⟩ := hfits.maxDurability hkind
    refine (reads_value hcost hvalue).bind ?_
    have hdurability : Reads
        (readIf (backOf stats 73 item.maxDurability ≠ 0) (readValue stats 72) 0)
        (if item.maxDurability ≠ 0 then writeValue stats 72 item.durability else [])
        (if item.maxDurability ≠ 0 then backOf stats 72 item.durability else 0) := by
      have hpresent : decide (backOf stats 73 item.maxDurability ≠ 0) =
          decide (item.maxDurability ≠ 0) :=
        decide_eq_decide.mpr (not_congr (maxDurability_back hfits hkind))
      rw [hpresent]
      have hread : Reads (readIf (decide (item.maxDurability ≠ 0)) (readValue stats 72) 0)
          (if decide (item.maxDurability ≠ 0) then writeValue stats 72 item.durability else [])
          (if decide (item.maxDurability ≠ 0) then backOf stats 72 item.durability else 0) := by
        refine reads_if _ _ fun h => ?_
        obtain ⟨cost, hcost, hvalue⟩ := hfits.durability hkind (of_decide_eq_true h)
        exact reads_value hcost hvalue
      simpa only [decide_eq_true_eq] using hread
    have hlast := hdurability.map fun durability =>
      (⟨if kind.armor then backOf stats 31 item.defense else 0,
        backOf stats 73 item.maxDurability, durability, 0⟩ : Wear)
    simpa using hlast

theorem reads_sockets {stats : ItemStats} {sockets : UInt8} (flags : UInt32)
    (hfits : ∃ cost ∈ stats.get 194, sockets.toNat < 2 ^ cost.saveBits.toNat) :
    Reads (readIf (Flags.has flags Flags.socketed) (readSockets stats) 0)
      (if Flags.has flags Flags.socketed then writeSockets stats sockets else [])
      (if Flags.has flags Flags.socketed then sockets else 0) := by
  obtain ⟨cost, hcost, hsmall⟩ := hfits
  have hcost' : stats.get 194 = some cost := hcost
  refine reads_if _ _ fun _ => ?_
  rw [readSockets, writeSockets, hcost']
  exact reads_clampedU8 _ hsmall

/-! ## The stat lists -/

theorem setMask_spec (lists : Vector (List ItemStat) 5) : (setMask lists).toNat < 2 ^ 5 ∧
    ∀ i : Fin 5, (setMask lists >>> UInt32.ofNat i &&& 1 ≠ 0) ↔ (lists.get i).isEmpty = false := by
  have hindices : List.finRange 5 = [0, 1, 2, 3, 4] := rfl
  have hbits : ∀ a b c d e : Bool,
      let m0 : UInt32 := if a then 0 else (0 : UInt32) ||| (1 : UInt32) <<< 0
      let m1 := if b then m0 else m0 ||| (1 : UInt32) <<< 1
      let m2 := if c then m1 else m1 ||| (1 : UInt32) <<< 2
      let m3 := if d then m2 else m2 ||| (1 : UInt32) <<< 3
      let mask := if e then m3 else m3 ||| (1 : UInt32) <<< 4
      mask.toNat < 2 ^ 5 ∧ ∀ i : Fin 5, (mask >>> UInt32.ofNat i &&& 1 ≠ 0) ↔
        #v[a, b, c, d, e].get i = false := by
    decide +kernel
  have hmask := hbits lists[0].isEmpty lists[1].isEmpty lists[2].isEmpty lists[3].isEmpty
    lists[4].isEmpty
  rw [setMask, hindices]
  refine ⟨hmask.1, fun i => (hmask.2 i).trans ?_⟩
  match i with
  | 0 | 1 | 2 | 3 | 4 => rfl

/-- A set item: its bonus lists are written. -/
def Quality.isSet (quality : Quality) : Bool := quality matches .set _

theorem writeLists_eq (stats : ItemStats) (flags : UInt32) (item : Item) :
    writeLists stats flags item =
      (if item.quality.isSet then put (setMask item.setStats) 5 else []) ++
        (writeList stats item.stats ++
          ((if item.quality.isSet then (List.finRange 5).flatMap fun i =>
              if (item.setStats.get i).isEmpty then [] else writeList stats (item.setStats.get i)
            else []) ++
          if Flags.has flags Flags.runeword then writeList stats item.runewordStats else [])) := by
  rw [writeLists, List.append_assoc, List.append_assoc]
  cases item.quality <;> rfl

/-- The set bonus lists as they are read back. -/
def setBack (stats : ItemStats) (isSet : Bool) (lists : Vector (List ItemStat) 5) :
    Vector (List ItemStat) 5 :=
  lists.map fun list => if isSet then listBack stats list else []

theorem listBack_nil (stats : ItemStats) : listBack stats [] = [] := by
  rw [listBack, headsOf, sortedStats, List.mergeSort_nil]
  rfl

theorem reads_setList {stats : ItemStats} (isSet : Bool) {lists : Vector (List ItemStat) 5}
    {i : Fin 5} (hfits : isSet → lists.get i ≠ [] → Lossless stats (lists.get i)) :
    Reads (readSetList stats (if isSet then setMask lists else 0) i)
      (if isSet then if (lists.get i).isEmpty then [] else writeList stats (lists.get i) else [])
      ((setBack stats isSet lists).get i) := by
  have hback : (setBack stats isSet lists).get i =
      if isSet then listBack stats (lists.get i) else [] := Vector.getElem_map ..
  rw [hback, readSetList]
  cases isSet with
  | false =>
    simp only [Bool.false_eq_true, if_false]
    rw [readIf, if_neg (by simp)]
    exact Reads.pure []
  | true =>
    simp only [if_true]
    by_cases hempty : (lists.get i).isEmpty = true
    · have hbit : ¬ (setMask lists >>> UInt32.ofNat i &&& 1 ≠ 0) := fun h => by
        rw [((setMask_spec lists).2 i).mp h] at hempty
        cases hempty
      rw [readIf, if_neg (by simpa using hbit), if_pos hempty, List.isEmpty_iff.mp hempty,
        listBack_nil]
      exact Reads.pure []
    · have hbit := ((setMask_spec lists).2 i).mpr (Bool.eq_false_iff.mpr hempty)
      rw [readIf, if_pos (by simpa using hbit), if_neg hempty]
      exact reads_list (hfits rfl fun h => hempty (List.isEmpty_iff.mpr h))

/-- What is written of the stat lists comes back. -/
structure Item.ListsKept (stats : ItemStats) (flags : UInt32) (item : Item) : Prop where
  own : Lossless stats item.stats
  set : item.quality.isSet → ∀ i : Fin 5, item.setStats.get i ≠ [] →
    Lossless stats (item.setStats.get i)
  runeword : Flags.has flags Flags.runeword → Lossless stats item.runewordStats

/-- The item with its stat lists as they are read back. -/
def Item.withLists (stats : ItemStats) (flags : UInt32) (item read : Item) : Item :=
  { read with
    stats := listBack stats item.stats
    setStats := setBack stats item.quality.isSet item.setStats
    runewordStats := if Flags.has flags Flags.runeword then listBack stats item.runewordStats
      else [] }

theorem reads_lists {stats : ItemStats} {flags : UInt32} {item read : Item}
    (hkept : item.ListsKept stats flags) (hset : read.quality.isSet = item.quality.isSet) :
    Reads (readLists stats flags read) (writeLists stats flags item)
      (item.withLists stats flags read) := by
  have hindices : List.finRange 5 = [0, 1, 2, 3, 4] := rfl
  have hmask : Reads (readIf (read.quality matches .set _) (get 5) 0)
      (if item.quality.isSet then put (setMask item.setStats) 5 else [])
      (if item.quality.isSet then setMask item.setStats else 0) := by
    show Reads (readIf read.quality.isSet (get 5) 0) _ _
    rw [hset]
    exact reads_if _ _ fun _ => reads_get _ (setMask_spec item.setStats).1
  have hlist (i : Fin 5) := reads_setList item.quality.isSet (i := i) (hkept.set · i)
  have hruneword : Reads (readIf (Flags.has flags Flags.runeword) (readList stats) [])
      (if Flags.has flags Flags.runeword then writeList stats item.runewordStats else [])
      (if Flags.has flags Flags.runeword then listBack stats item.runewordStats else []) :=
    reads_if _ _ fun h => reads_list (hkept.runeword h)
  have hsets : (if item.quality.isSet then (List.finRange 5).flatMap fun i =>
      if (item.setStats.get i).isEmpty then [] else writeList stats (item.setStats.get i) else []) =
        [0, 1, 2, 3, 4].flatMap fun i : Fin 5 => if item.quality.isSet then
          if (item.setStats.get i).isEmpty then []
          else writeList stats (item.setStats.get i) else [] := by
    rw [hindices]
    cases item.quality.isSet <;> rfl
  have hfive (sets : Vector (List ItemStat) 5) :
      #v[sets[0], sets[1], sets[2], sets[3], sets[4]] = sets := by
    ext i hi : 1
    match i, hi with
    | 0, _ | 1, _ | 2, _ | 3, _ | 4, _ => rfl
  rw [writeLists_eq, hsets, List.flatMap_cons, List.flatMap_cons, List.flatMap_cons,
    List.flatMap_cons, List.flatMap_cons, List.flatMap_nil, List.append_nil, Item.withLists,
    ← hfive (setBack stats item.quality.isSet item.setStats)]
  simp only [List.append_assoc]
  refine hmask.bind ((reads_list hkept.own).bind ?_)
  refine (hlist 0).bind ((hlist 1).bind ((hlist 2).bind ((hlist 3).bind ((hlist 4).bind ?_))))
  exact hruneword.map fun runewordStats => ({ read with
    stats := listBack stats item.stats
    setStats := #v[(setBack stats item.quality.isSet item.setStats)[0],
      (setBack stats item.quality.isSet item.setStats)[1],
      (setBack stats item.quality.isSet item.setStats)[2],
      (setBack stats item.quality.isSet item.setStats)[3],
      (setBack stats item.quality.isSet item.setStats)[4]]
    runewordStats } : Item)

end CommandCenter.Formats.ItemBits
