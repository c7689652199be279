import CommandCenter.Formats.ItemReadBack

/-!
# Items that come back

When an item that `write` of `crates/d2-data/src/item_bits.rs` wrote is read by `read`, and what is
read is written as the item was.

* `Item.Fits`: every field fits its width.
* `Item.Kept`: what a full item needs besides. A normal charm has an affix: of a charm without one
  `write` puts the bits of an affix all the same, and `read` does not take them.
-/

namespace CommandCenter.Formats.ItemBits

open Rust Library

/-! ## Items whose fields fit -/

/-- The stats that the bits of an item name by themselves are there, and every partner. -/
structure Complete (stats : ItemStats) : Prop where
  named : ∀ id ∈ ([31, 72, 73, 194, 356] : List UInt16), (stats.get id).isSome
  partners : ∀ g ∈ groups, ∀ p ∈ g.2, (stats.get p).isSome

/-- A value fits the width of its stat. -/
def ValueFits (stats : ItemStats) (id : UInt16) (v : Int32) : Prop :=
  ∀ cost ∈ stats.get id, StatCost.Fits cost v

/-- The ids, parameters and values of a list fit their widths, and so do the values that are
written of partners. -/
structure ListFits (stats : ItemStats) (list : List ItemStat) : Prop where
  id : ∀ s ∈ list, s.id < 512
  param : ∀ s ∈ list, ∀ cost ∈ stats.get s.id, s.param.toNat < 2 ^ cost.paramBits.toNat
  value : ∀ s ∈ list, ValueFits stats s.id s.value
  partner : ∀ s ∈ list, ∀ ps ∈ partners s.id, ∀ p ∈ ps,
    ValueFits stats p (partnerValue (sortedStats list) p)

/-- Every field of an item fits its width, and its name is ASCII without a terminator. -/
structure Item.Fits (kind : Kind) (stats : ItemStats) (item : Item) : Prop where
  version : item.version < 1024
  location : item.location.Fits
  earClass : item.earClass < 8
  earLevel : item.earLevel < 128
  name : NameFits item.name
  socketCount : item.socketCount < 8
  picture : ∀ p ∈ item.picture, p < 8
  autoAffix : item.autoAffix < 2048
  quality : item.quality.Fits
  charm : kind.charm → item.typeExtra < 2048
  bodyPart : kind.bodyPart → item.typeExtra < 1024
  book : item.book < 32
  defense : kind.armor → ValueFits stats 31 item.defense
  maxDurability : kind.armor || kind.weapon → ValueFits stats 73 item.maxDurability
  durability : kind.armor || kind.weapon → ValueFits stats 72 item.durability
  quantity : item.quantity < 512
  sockets : ∀ cost ∈ stats.get 194, item.sockets.toNat < 2 ^ cost.saveBits.toNat
  madeIn : kind.questDifficulty →
    ValueFits stats questDifficulty (partnerValue item.stats questDifficulty)
  own : ListFits stats item.stats
  set : ∀ i : Fin 5, ListFits stats (item.setStats.get i)
  runeword : ListFits stats item.runewordStats

/-- No stat that is written has the id of the end mark, and stats that lead one group are in the
order of their values, since parameters are not written of them. -/
structure ListKept (stats : ItemStats) (list : List ItemStat) : Prop where
  mark : ∀ s ∈ list, Counts stats s → s.id ≠ 0x1FF
  leads : ∀ s ∈ list, ∀ t ∈ list, Counts stats s → Counts stats t → s.id = t.id →
    (partners s.id).isSome → s.param < t.param → ∀ cost ∈ stats.get s.id,
      shr s.value cost.valShift ≤ shr t.value cost.valShift

/-- What a full item needs to come back, where its fields fit. -/
structure Item.Kept (kind : Kind) (stats : ItemStats) (identified : Bool) (item : Item) :
    Prop where
  affix : item.quality = .normal → kind.charm → identified → item.typeExtra ≠ 0
  durable : kind.armor || kind.weapon → item.maxDurability ≠ 0 →
    ∀ cost ∈ stats.get 73, shr item.maxDurability cost.valShift ≠ 0
  own : identified → ListKept stats item.stats
  set : identified → item.quality.isSet → ∀ i : Fin 5, item.setStats.get i ≠ [] →
    ListKept stats (item.setStats.get i) ∧ ∃ s ∈ item.setStats.get i, Counts stats s
  runeword : identified → Flags.has item.flags Flags.runeword → ListKept stats item.runewordStats

theorem lossless_of_kept {stats : ItemStats} (hstats : Complete stats) {list : List ItemStat}
    (hfits : ListFits stats list) (hkept : ListKept stats list) : Lossless stats list where
  id := by
    intro s hs hcounts
    have hne : s.id.toNat ≠ 511 := fun h => hkept.mark s hs hcounts (UInt16.toNat_inj.mp h)
    have hlt : s.id.toNat < 512 := UInt16.lt_iff_toNat_lt.mp (hfits.id s hs)
    rw [UInt16.lt_iff_toNat_lt]
    show s.id.toNat < 511
    omega
  value := fun s hs _ => hfits.value s hs
  param := fun s hs _ _ => hfits.param s hs
  partner := by
    intro s hs _ ps hps p hp
    obtain ⟨g, hg, rfl⟩ := Option.map_eq_some_iff.mp hps
    obtain ⟨cost, hcost⟩ := Option.isSome_iff_exists.mp
      (hstats.partners g (List.mem_of_find?_eq_some hg) p hp)
    exact ⟨cost, hcost, hfits.partner s hs _ hps p hp cost hcost⟩
  leads := hkept.leads

theorem allKept_of_fits {kind : Kind} {stats : ItemStats} (hstats : Complete stats) (save : Bool)
    {item : Item} (hfits : item.Fits kind stats)
    (hkept : item.isSimple kind = false →
      item.Kept kind stats (save || Flags.has item.flags Flags.identified)) :
    item.AllKept kind stats save := by
  have hcost {id : UInt16} (hid : id ∈ ([31, 72, 73, 194, 356] : List UInt16)) {v : Int32}
      (hvalue : ValueFits stats id v) : ∃ cost ∈ stats.get id, StatCost.Fits cost v := by
    obtain ⟨cost, hcost⟩ := Option.isSome_iff_exists.mp (hstats.named id hid)
    exact ⟨cost, hcost, hvalue cost hcost⟩
  have hruneword := has_written (by decide : Flags.init &&& Flags.runeword = 0) (by decide)
    (by decide) (by decide) kind save item
  refine ⟨hfits.version, hfits.location, hfits.earClass, hfits.earLevel, hfits.name,
    fun h => hcost (by decide) (hfits.madeIn h), fun hlayout => ?_, fun hlayout h => ?_,
    fun hlayout h hset i hne => ((hkept hlayout).set h hset i hne).2⟩
  · have hfull := hkept hlayout
    obtain ⟨cost, hsockets⟩ := Option.isSome_iff_exists.mp (hstats.named 194 (by decide))
    refine ⟨hfits.socketCount, hfits.picture, hfits.autoAffix, hfits.quality, hfits.charm,
      hfits.bodyPart, hfits.book, hfull.affix, hfits.name,
      ⟨fun h => ?_, fun h => ?_, fun h _ => ?_⟩, hfits.quantity,
      ⟨cost, hsockets, hfits.sockets cost hsockets⟩⟩
    · exact hcost (by decide) (hfits.defense h)
    · obtain ⟨cost, hmax, hvalue⟩ := hcost (by decide) (hfits.maxDurability h)
      exact ⟨cost, hmax, hvalue, fun hne => hfull.durable h hne cost hmax⟩
    · exact hcost (by decide) (hfits.durability h)
  · have hfull := hkept hlayout
    refine ⟨lossless_of_kept hstats hfits.own (hfull.own h), fun hset i hne => ?_, fun hrune => ?_⟩
    · exact lossless_of_kept hstats (hfits.set i) (hfull.set h hset i hne).1
    · rw [hruneword] at hrune
      exact lossless_of_kept hstats hfits.runeword (hfull.runeword h hrune)

theorem read_append {items : Items} {kind : Kind} {stats : ItemStats} {target : Target}
    {item : Item} (hkind : ItemBits.kind items item.writtenCode = some kind)
    (hall : item.AllKept kind stats (decide (target = .save))) (rest : List UInt8) :
    read (write item items stats target ++ rest) items stats target =
      .ok (item.back kind stats (target = .save), (write item items stats target).length) := by
  have hbits : unpack (write item items stats target ++ rest) =
      itemBits item items stats target false ++
        (List.replicate (8 * (((itemBits item items stats target false).length + 7) / 8) -
          (itemBits item items stats target false).length) false ++ unpack rest) := by
    rw [write, writeAs, unpack_append, unpack_pack, List.append_assoc]
  rw [read, hbits, reads_item hkind hall]
  dsimp only
  rw [List.length_append, Nat.add_sub_cancel, write, writeAs, length_pack]

/-- **An item that is written is read back, and what is read is written as it was**, unless it is a
full item with something that does not come back. -/
theorem read_write {items : Items} {kind : Kind} {stats : ItemStats} {target : Target} {item : Item}
    (hkind : ItemBits.kind items item.writtenCode = some kind) (hstats : Complete stats)
    (hfits : item.Fits kind stats)
    (hkept : item.isSimple kind = false →
      item.Kept kind stats (decide (target = .save) || Flags.has item.flags Flags.identified))
    (rest : List UInt8) :
    ∃ back, read (write item items stats target ++ rest) items stats target =
        .ok (back, (write item items stats target).length) ∧
      write back items stats target = write item items stats target := by
  have hall := allKept_of_fits hstats (decide (target = .save)) hfits hkept
  refine ⟨item.back kind stats (target = .save), read_append hkind hall rest, ?_⟩
  rw [write, writeAs, write, writeAs, itemBits_back hkind hall]

/-! ## A charm without an affix -/

def charms : Items where
  types := ⟨[⟨"char".toList, 0, [0]⟩]⟩
  rows := [⟨0, -1, false, false, false, false, #v[blankCode, blankCode, blankCode]⟩]
  byCode := Finmap.singleton #v[0x63, 0x6D, 0x31, 0x20] 0

/-- A table whose stats all take eight bits. -/
def eightBits : ItemStats := ⟨List.replicate 512 (some ⟨8, 0, 0, 0⟩)⟩

/-- An identified charm of normal quality, with an affix or none. -/
def charm (typeExtra : UInt16) : Item :=
  { Item.new #v[0x63, 0x6D, 0x31, 0x20] 101 1 (.belt 0) with typeExtra }

def charmKind : Kind := ⟨false, false, false, false, false, false, true, false, false, false⟩

theorem complete_eightBits : Complete eightBits where
  named := List.all_iff_forall_prop.mp (by decide)
  partners := by
    have hgroups : groups.all (fun g => g.2.all fun p => (eightBits.get p).isSome) = true := by
      decide
    intro g hg
    exact List.all_eq_true.mp (List.all_eq_true.mp hgroups g hg)

theorem listFits_nil (stats : ItemStats) : ListFits stats [] where
  id := fun _ h => nomatch h
  param := fun _ h => nomatch h
  value := fun _ h => nomatch h
  partner := fun _ h => nomatch h

theorem charm_fits {typeExtra : UInt16} (h : typeExtra < 2048) :
    (charm typeExtra).Fits charmKind eightBits where
  version := (by decide : (101 : UInt16) < 1024)
  location := (by decide : (0 : UInt8) < 16)
  earClass := (by decide : (0 : UInt8) < 8)
  earLevel := (by decide : (0 : UInt8) < 128)
  name := fun _ h => nomatch h
  socketCount := (by decide : (0 : UInt8) < 8)
  picture := fun _ h => nomatch h
  autoAffix := (by decide : (0 : UInt16) < 2048)
  quality := trivial
  charm := fun _ => h
  bodyPart := fun h => nomatch h
  book := (by decide : (0 : UInt8) < 32)
  defense := fun h => nomatch h
  maxDurability := fun h => nomatch h
  durability := fun h => nomatch h
  quantity := (by decide : (0 : UInt16) < 512)
  sockets := fun _ _ => Nat.two_pow_pos _
  madeIn := fun h => nomatch h
  own := listFits_nil eightBits
  set := fun i => by
    match i with
    | 0 | 1 | 2 | 3 | 4 => exact listFits_nil eightBits
  runeword := listFits_nil eightBits

/-- A charm with an affix comes back, whatever follows it. -/
theorem charm_read_write : ∃ back, read (write (charm 5) charms eightBits .save ++ [0x4A, 0x4D])
      charms eightBits .save = .ok (back, (write (charm 5) charms eightBits .save).length) ∧
    write back charms eightBits .save = write (charm 5) charms eightBits .save := by
  have hnone : ListKept eightBits [] := ⟨fun _ h => (nomatch h), fun _ h => (nomatch h)⟩
  have hkept : (charm 5).Kept charmKind eightBits true := ⟨fun _ _ _ => by decide,
    fun h => (nomatch h), fun _ => hnone, fun _ h => (nomatch h),
    fun _ h => absurd h (by decide)⟩
  refine read_write rfl complete_eightBits (charm_fits (by decide)) (fun _ => ?_) _
  exact hkept

/-- **A charm without an affix is not read back**: the affix that is written of it is not read. -/
theorem charm_unread : ItemBits.kind charms (charm 0).writtenCode = some charmKind ∧
    Complete eightBits ∧ (charm 0).Fits charmKind eightBits ∧
    ¬ ∃ back, read (write (charm 0) charms eightBits .network ++ []) charms eightBits .network =
        .ok (back, (write (charm 0) charms eightBits .network).length) ∧
      write back charms eightBits .network = write (charm 0) charms eightBits .network := by
  refine ⟨rfl, complete_eightBits, charm_fits (by decide), ?_⟩
  rintro ⟨back, hread, _⟩
  have herror : (read (write (charm 0) charms eightBits .network ++ []) charms eightBits
      .network).toOption = none := by decide +kernel
  rw [hread] at herror
  cases herror

/-!
## The item lists of a save

`write_save_list` and `read_save_list` of `crates/d2-data/src/item_bits.rs`. A list has no lengths
in it: how many of the items that follow one are in its sockets is what its own bits say.

* `Holder.Agrees`: the bits of an item say how many items follow it.
* `reads_holders`: a list whose items agree is read as it was written.
* `agrees_of_read`: a list that is read so has items that agree.
-/

/-! ## Lists -/

structure Holder where
  item : Item
  filled : List Item
  count : item.filled = filled.length

def Item.inSocket (slot : Nat) (item : Item) : Item :=
  { item with location := .socketed (.ofNat slot) }

/-- The items in the sockets as they are written, each at its slot. -/
def Holder.placed (h : Holder) : List Item := h.filled.mapIdx Item.inSocket

def writeHolder (items : Items) (stats : ItemStats) (h : Holder) : List UInt8 :=
  write h.item items stats .save ++ h.placed.flatMap fun inside => write inside items stats .save

/-- A `.d2s` item list, the items in sockets after the item that holds them. -/
def writeSaveList (list : List Holder) (items : Items) (stats : ItemStats) : List UInt8 :=
  [0x4A, 0x4D] ++ toLeBytes (.ofNat list.length) ++ list.flatMap (writeHolder items stats)

/-- An item from the front of the bytes that are left. -/
def readSaved (items : Items) (stats : ItemStats) : Taking UInt8 ReadError Item := fun left =>
  match read left items stats .save with
  | .ok (item, used) => .ok (item, left.drop used)
  | .error e => .error e

def readHolder (items : Items) (stats : ItemStats) : Taking UInt8 ReadError Holder := do
  let item ← readSaved items stats
  let filled ← (readSaved items stats).times item.socketed.toNat
  return ⟨{ item with filled := filled.length }, filled, rfl⟩

/-- A `.d2s` item list: what it holds and the bytes it took. -/
def readSaveList (bytes : List UInt8) (items : Items) (stats : ItemStats) :
    Except ReadError (List Holder × Nat) :=
  if bytes.take 2 ≠ [0x4A, 0x4D] then .error .noMarker
  else
    match bytes.drop 2 with
    | lo :: hi :: left =>
      match (readHolder items stats).times (fromLeBytes lo hi).toNat left with
      | .ok (list, rest) => .ok (list, bytes.length - rest.length)
      | .error e => .error e
    | _ => .error .truncated

/-! ## One item -/

/-- An item for which the round trip of its bits holds. -/
def Item.Sound (items : Items) (stats : ItemStats) (item : Item) : Prop :=
  ∃ kind, ItemBits.kind items item.writtenCode = some kind ∧ item.Fits kind stats ∧
    (item.isSimple kind = false → item.Kept kind stats true)

/-- An item and those in its sockets are sound, and these have none in theirs. -/
structure Holder.Sound (items : Items) (stats : ItemStats) (h : Holder) : Prop where
  item : h.item.Sound items stats
  filled : ∀ inside ∈ h.filled, inside.Sound items stats ∧ inside.filled = 0

def Item.saved (items : Items) (stats : ItemStats) (item : Item) : Item :=
  ((ItemBits.kind items item.writtenCode).map fun kind => item.back kind stats true).getD item

theorem reads_saved {items : Items} {stats : ItemStats} (hstats : Complete stats) {item : Item}
    (hitem : item.Sound items stats) :
    Reads (readSaved items stats) (write item items stats .save) (item.saved items stats) := by
  obtain ⟨kind, hkind, hfits, hkept⟩ := hitem
  intro rest
  have hread : read (write item items stats .save ++ rest) items stats .save =
      .ok (item.back kind stats true, (write item items stats .save).length) :=
    read_append hkind (allKept_of_fits hstats true hfits hkept) rest
  rw [readSaved, hread, Item.saved, hkind]
  dsimp only
  rw [List.drop_left]
  rfl

/-- What the bits of an item in a save carry of it. -/
structure Item.Carried (kind : Kind) (item : Item) : Prop where
  /-- An ear has no code in its bits. -/
  code : Flags.has item.flags Flags.ear → item.code = earCode
  /-- A simple item has no seed in its bits. -/
  seed : item.isSimple kind → item.seed = 0

theorem carried_iff {items : Items} {stats : ItemStats} {item : Item} {kind : Kind}
    (hkind : ItemBits.kind items item.writtenCode = some kind) :
    (item.code = (item.saved items stats).code ∧ item.seed = (item.saved items stats).seed) ↔
      item.Carried kind := by
  have hsaved : item.saved items stats = item.back kind stats true := by
    rw [Item.saved, hkind]
    rfl
  have hseed : (item.back kind stats true).seed = if item.isSimple kind then 0 else item.seed := by
    rw [Item.back]
    split
    · rfl
    · rw [Item.withFull]
      split <;> rfl
  rw [hsaved, (back_head kind stats true item).2.2.2, hseed, Item.writtenCode]
  constructor
  · rintro ⟨hcode, hzero⟩
    refine ⟨fun hear => ?_, fun hsimple => ?_⟩
    · rwa [if_pos hear] at hcode
    · rwa [if_pos hsimple] at hzero
  · rintro ⟨hcode, hzero⟩
    constructor
    · split
      · rename_i hear
        exact hcode hear
      · rfl
    · split
      · rename_i hsimple
        exact hzero hsimple
      · rfl

/-- Another place changes nothing else. -/
theorem sound_inSocket {items : Items} {stats : ItemStats} {item : Item}
    (h : item.Sound items stats) {slot : Nat} (hslot : slot < 8) :
    (item.inSocket slot).Sound items stats := by
  obtain ⟨kind, hkind, hfits, hkept⟩ := h
  refine ⟨kind, hkind, { hfits with location := ?_ }, fun hsimple => { hkept hsimple with }⟩
  show UInt8.ofNat slot < 16
  rw [UInt8.lt_iff_toNat_lt, UInt8.toNat_ofNat']
  show slot % 2 ^ 8 < 16
  omega

/-! ## How many items follow -/

/-- How many items in sockets the reader looks for. -/
def Item.followers (kind : Kind) (item : Item) : Nat :=
  if item.isSimple kind then 0 else item.socketCount.toNat

theorem socketed_saved {items : Items} (stats : ItemStats) {item : Item} {kind : Kind}
    (hkind : ItemBits.kind items item.writtenCode = some kind) :
    (item.saved items stats).socketed.toNat = item.followers kind := by
  rw [Item.saved, hkind, Item.followers]
  show (item.back kind stats true).socketed.toNat = _
  rw [Item.back]
  split
  · rfl
  · rw [Item.withFull]
    split <;> rfl

/-- The bits of an item say how many items are in its sockets: a simple item has none there, and
the count of a full item without any is 0. -/
structure Holder.Counted (kind : Kind) (h : Holder) : Prop where
  simple : h.item.isSimple kind → h.filled = []
  full : h.item.isSimple kind = false → h.filled = [] → h.item.socketed = 0

theorem Holder.counted_iff {kind : Kind} {h : Holder} (hfits : h.item.socketCount < 8) :
    h.item.followers kind = h.filled.length ↔ h.Counted kind := by
  have hcount := h.count
  rw [UInt8.lt_iff_toNat_lt] at hfits
  change _ < 8 at hfits
  have hfollow : h.item.isSimple kind = false →
      (h.item.socketCount.toNat = h.filled.length ↔ (h.filled = [] → h.item.socketed = 0)) := by
    intro _
    rw [Item.socketCount] at hfits ⊢
    split
    · rename_i hzero
      rw [← hcount, hzero, ← List.length_eq_zero_iff, ← hcount, hzero, ← UInt8.toNat_inj]
      exact ⟨fun h _ => h, fun h => h rfl⟩
    · rename_i hsome
      have hne : h.filled ≠ [] := fun hnil => hsome (by rw [hcount, hnil]; rfl)
      rw [if_neg hsome] at hfits
      split
      · rename_i hle
        refine iff_of_true ?_ fun hnil => absurd hnil hne
        rw [UInt8.toNat_ofNat', ← hcount]
        exact Nat.mod_eq_of_lt (by omega)
      · rename_i hgt
        rw [if_neg hgt] at hfits
        exact absurd hfits (by decide)
  rw [Item.followers]
  split
  · rename_i hsimple
    constructor
    · intro hlen
      exact ⟨fun _ => List.length_eq_zero_iff.mp hlen.symm,
        fun hfull => absurd hsimple (by rw [hfull]; exact Bool.false_ne_true)⟩
    · intro hcounted
      rw [hcounted.simple hsimple]
      rfl
  · rename_i hfull
    have hfull := Bool.eq_false_iff.mpr hfull
    rw [hfollow hfull]
    exact ⟨fun h => ⟨fun hsimple => absurd hsimple (by rw [hfull]; exact Bool.false_ne_true),
      fun _ => h⟩, fun h => h.full hfull⟩

/-! ## One item with those in its sockets -/

/-- The code and the seed are the same. -/
def SameItem (a b : Item) : Prop := a.code = b.code ∧ a.seed = b.seed

structure Holder.Same (a b : Holder) : Prop where
  item : SameItem a.item b.item
  filled : List.Forall₂ SameItem a.filled b.filled

/-- The bits of an item say what it is and how many items follow it. -/
structure Holder.Agrees (items : Items) (h : Holder) : Prop where
  counted : ∀ kind ∈ ItemBits.kind items h.item.writtenCode, h.Counted kind
  carried : ∀ item ∈ h.item :: h.filled, ∀ kind ∈ ItemBits.kind items item.writtenCode,
    item.Carried kind

/-- The item as it is read from a save, with those in its sockets. -/
def Holder.saved (items : Items) (stats : ItemStats) (h : Holder) : Holder where
  item := { h.item.saved items stats with filled := h.placed.length }
  filled := h.placed.map (Item.saved items stats)
  count := (List.length_map ..).symm

theorem Holder.length_placed (h : Holder) : h.placed.length = h.filled.length :=
  List.length_mapIdx

variable {items : Items} {stats : ItemStats} {h : Holder}

/-- An item has no more items in its sockets than its count can say. -/
theorem Holder.Sound.length_filled (hsound : h.Sound items stats) : h.filled.length < 8 := by
  obtain ⟨kind, -, hfits, -⟩ := hsound.item
  have hcount := hfits.socketCount
  rw [UInt8.lt_iff_toNat_lt, Item.socketCount, h.count] at hcount
  change _ < 8 at hcount
  split at hcount
  · rename_i hzero
    omega
  · split at hcount
    · rw [UInt8.toNat_ofNat'] at hcount
      omega
    · exact absurd hcount (by decide)

theorem Holder.Sound.placed (hsound : h.Sound items stats) :
    ∀ inside ∈ h.placed, inside.Sound items stats := by
  intro inside hinside
  obtain ⟨slot, hslot, rfl⟩ := List.mem_mapIdx.mp hinside
  refine sound_inSocket (hsound.filled _ (List.getElem_mem hslot)).1 ?_
  exact Nat.lt_trans hslot hsound.length_filled

theorem reads_placed (hstats : Complete stats) (hsound : h.Sound items stats) :
    Reads ((readSaved items stats).times h.filled.length)
      (h.placed.flatMap fun inside => write inside items stats .save)
      (h.placed.map (Item.saved items stats)) := by
  rw [← h.length_placed]
  exact Reads.times h.placed fun inside hinside => reads_saved hstats (hsound.placed inside hinside)

theorem sameItem_iff {item : Item} (hitem : item.Sound items stats) :
    SameItem item (item.saved items stats) ↔
      ∀ kind ∈ ItemBits.kind items item.writtenCode, item.Carried kind := by
  obtain ⟨kind, hkind, -, -⟩ := hitem
  rw [SameItem, carried_iff hkind]
  constructor
  · intro hcarried other hother
    exact Option.some.inj (hkind.symm.trans hother) ▸ hcarried
  · exact fun hall => hall kind hkind

theorem same_saved_iff (hsound : h.Sound items stats) :
    h.Same (h.saved items stats) ↔ ∀ item ∈ h.item :: h.filled,
      ∀ kind ∈ ItemBits.kind items item.writtenCode, item.Carried kind := by
  have hinside (slot : Nat) (hslot : slot < h.filled.length) :
      SameItem h.filled[slot] ((h.filled[slot].inSocket slot).saved items stats) ↔
        ∀ kind ∈ ItemBits.kind items h.filled[slot].writtenCode, h.filled[slot].Carried kind := by
    have hplaced := sameItem_iff (sound_inSocket (hsound.filled _ (List.getElem_mem hslot)).1
      (Nat.lt_trans hslot hsound.length_filled))
    refine Iff.trans hplaced (forall₂_congr fun kind _ => ?_)
    exact ⟨fun hcarried => ⟨hcarried.code, hcarried.seed⟩,
      fun hcarried => ⟨hcarried.code, hcarried.seed⟩⟩
  have hfilled : List.Forall₂ SameItem h.filled (h.placed.map (Item.saved items stats)) ↔
      ∀ item ∈ h.filled, ∀ kind ∈ ItemBits.kind items item.writtenCode, item.Carried kind := by
    rw [List.forall₂_iff_get]
    constructor
    · rintro ⟨-, hall⟩ item hitem
      obtain ⟨slot, hslot, rfl⟩ := List.mem_iff_getElem.mp hitem
      have hsame := hall slot hslot (by rwa [List.length_map, h.length_placed])
      rw [List.get_eq_getElem, List.get_eq_getElem, List.getElem_map] at hsame
      simp only [Holder.placed, List.getElem_mapIdx] at hsame
      exact (hinside slot hslot).mp hsame
    · intro hall
      refine ⟨by rw [List.length_map, h.length_placed], fun slot hslot hslot' => ?_⟩
      rw [List.get_eq_getElem, List.get_eq_getElem, List.getElem_map]
      simp only [Holder.placed, List.getElem_mapIdx]
      exact (hinside slot hslot).mpr (hall _ (List.getElem_mem hslot))
  rw [List.forall_mem_cons]
  constructor
  · rintro ⟨hsame, hinside⟩
    exact ⟨(sameItem_iff hsound.item).mp hsame, hfilled.mp hinside⟩
  · rintro ⟨hcarried, hinside⟩
    exact ⟨(sameItem_iff hsound.item).mpr hcarried, hfilled.mpr hinside⟩

theorem counted_iff_saved (hsound : h.Sound items stats) :
    (h.item.saved items stats).socketed.toNat = h.filled.length ↔
      ∀ kind ∈ ItemBits.kind items h.item.writtenCode, h.Counted kind := by
  obtain ⟨kind, hkind, hfits, -⟩ := hsound.item
  rw [socketed_saved stats hkind, Holder.counted_iff hfits.socketCount]
  constructor
  · intro hcounted other hother
    exact Option.some.inj (hkind.symm.trans hother) ▸ hcounted
  · exact fun hall => hall kind hkind

theorem reads_holder (hstats : Complete stats) (hsound : h.Sound items stats)
    (hcounted : ∀ kind ∈ ItemBits.kind items h.item.writtenCode, h.Counted kind) :
    Reads (readHolder items stats) (writeHolder items stats h) (h.saved items stats) := by
  refine (reads_saved hstats hsound.item).bind ?_
  rw [(counted_iff_saved hsound).mpr hcounted]
  have hread := (reads_placed hstats hsound).map fun filled =>
    (⟨{ h.item.saved items stats with filled := filled.length }, filled, rfl⟩ : Holder)
  have hsaved : h.saved items stats = ⟨{ h.item.saved items stats with
      filled := (h.placed.map (Item.saved items stats)).length },
      h.placed.map (Item.saved items stats), rfl⟩ := by
    simp only [Holder.saved, List.length_map]
  rw [hsaved]
  exact hread

/-! ## A list -/

/-- A list whose items agree is read as it was written. -/
theorem reads_holders (hstats : Complete stats) {list : List Holder}
    (hsound : ∀ h ∈ list, h.Sound items stats) (hagrees : ∀ h ∈ list, h.Agrees items) :
    Reads ((readHolder items stats).times list.length) (list.flatMap (writeHolder items stats))
      (list.map (Holder.saved items stats)) :=
  Reads.times list fun h hh => reads_holder hstats (hsound h hh) (hagrees h hh).counted

/-- A list that is read with the same items has items that agree. -/
theorem agrees_of_read (hstats : Complete stats) {list back : List Holder} {rest left : List UInt8}
    (hsound : ∀ h ∈ list, h.Sound items stats)
    (hread : (readHolder items stats).times list.length
      (list.flatMap (writeHolder items stats) ++ rest) = .ok (back, left))
    (hsame : List.Forall₂ Holder.Same list back) : ∀ h ∈ list, h.Agrees items := by
  induction list generalizing back with
  | nil => exact fun _ h => nomatch h
  | cons h list ih =>
    obtain ⟨hfirst, hothers⟩ := List.forall_mem_cons.mp hsound
    obtain ⟨b, left', more, hb, hmore, rfl⟩ := Taking.times_succ_ok hread
    obtain ⟨hsameb, hsamemore⟩ := List.forall₂_cons.mp hsame
    -- as many items were found in the sockets as the bits of the item say
    obtain ⟨item, left₁, hitem, hinside⟩ := Taking.bind_ok hb
    rw [List.flatMap_cons, writeHolder, List.append_assoc, List.append_assoc,
      reads_saved hstats hfirst.item] at hitem
    obtain ⟨rfl, rfl⟩ := Prod.mk.inj (Except.ok.inj hitem)
    obtain ⟨filled, left₂, hfilled, hdone⟩ := Taking.bind_ok hinside
    obtain ⟨rfl, rfl⟩ := Prod.mk.inj (Except.ok.inj hdone)
    have hcount : (h.item.saved items stats).socketed.toNat = h.filled.length :=
      (Taking.length_times hfilled).symm.trans hsameb.filled.length_eq.symm
    have hcounted := (counted_iff_saved hfirst).mp hcount
    -- so they are the ones that were written, and the next item is where it was written
    rw [hcount, reads_placed hstats hfirst] at hfilled
    obtain ⟨rfl, rfl⟩ := Prod.mk.inj (Except.ok.inj hfilled)
    refine List.forall_mem_cons.mpr ⟨⟨hcounted, (same_saved_iff hfirst).mp ?_⟩,
      ih hothers hmore hsamemore⟩
    exact ⟨hsameb.item, hsameb.filled⟩

/-- The items that `list` holds are what is read of its bytes. -/
def ComesBack (items : Items) (stats : ItemStats) (list : List Holder) (rest : List UInt8) : Prop :=
  ∃ back, readSaveList (writeSaveList list items stats ++ rest) items stats =
    .ok (back, (writeSaveList list items stats).length) ∧ List.Forall₂ Holder.Same list back

/-- Behind the marker and the count stand the items. -/
theorem readSaveList_eq {list : List Holder} (hlen : list.length ≤ 65535) (rest : List UInt8) :
    readSaveList (writeSaveList list items stats ++ rest) items stats =
      match (readHolder items stats).times list.length
        (list.flatMap (writeHolder items stats) ++ rest) with
      | .ok (back, left) =>
        .ok (back, (writeSaveList list items stats ++ rest).length - left.length)
      | .error e => .error e := by
  have hcount : (UInt16.ofNat list.length).toNat = list.length := by
    rw [UInt16.toNat_ofNat']
    exact Nat.mod_eq_of_lt (by omega)
  rw [readSaveList, if_neg (by rw [writeSaveList]; exact not_not.mpr rfl)]
  show (match (readHolder items stats).times (fromLeBytes _ _).toNat _ with
    | .ok (back, left) => _
    | .error e => _) = _
  rw [fromLeBytes_toLeBytes, hcount]
  rfl

/-- **No item is lost or moved between items** of a list whose items come back by themselves, just
if the bits of each say what it is and how many items follow it. -/
theorem comesBack_iff (hstats : Complete stats) {list : List Holder} (hlen : list.length ≤ 65535)
    (hsound : ∀ h ∈ list, h.Sound items stats) (rest : List UInt8) :
    ComesBack items stats list rest ↔ ∀ h ∈ list, h.Agrees items := by
  rw [ComesBack, readSaveList_eq hlen]
  constructor
  · rintro ⟨back, hread, hsame⟩
    cases htimes : (readHolder items stats).times list.length
        (list.flatMap (writeHolder items stats) ++ rest) with
    | error e =>
      rw [htimes] at hread
      cases hread
    | ok r =>
      rw [htimes] at hread
      obtain ⟨rfl, -⟩ := Prod.mk.inj (Except.ok.inj hread)
      exact agrees_of_read hstats hsound htimes hsame
  · intro hagrees
    rw [reads_holders hstats hsound hagrees rest]
    refine ⟨list.map (Holder.saved items stats), ?_, ?_⟩
    · dsimp only
      rw [List.length_append, Nat.add_sub_cancel]
    · rw [List.forall₂_map_right_iff]
      exact List.forall₂_same.mpr fun h hh =>
        (same_saved_iff (hsound h hh)).mpr (hagrees h hh).carried

/-! ## A count without its items -/

/-- A charm that says it has so many items in its sockets, and has these. -/
def socketedCharm (socketed : UInt8) (filled : List Item) : Holder :=
  ⟨{ charm 5 with socketed, filled := filled.length }, filled, rfl⟩

theorem sound_charm : (charm 5).Sound charms eightBits := by
  have hnone : ListKept eightBits [] := ⟨fun _ h => (nomatch h), fun _ h => (nomatch h)⟩
  refine ⟨charmKind, rfl, charm_fits (by decide), fun _ => ?_⟩
  exact ⟨fun _ _ _ => by decide, fun h => (nomatch h), fun _ => hnone, fun _ h => (nomatch h),
    fun _ h => absurd h (by decide)⟩

theorem sound_socketedCharm {socketed : UInt8} (hsocketed : socketed < 8) {filled : List Item}
    (hlen : filled.length < 8) (hfilled : ∀ inside ∈ filled, inside = charm 5) :
    (socketedCharm socketed filled).Sound charms eightBits := by
  obtain ⟨kind, hkind, hfits, hkept⟩ := sound_charm
  refine ⟨⟨kind, hkind, { hfits with socketCount := ?_ }, fun h => { hkept h with }⟩, ?_⟩
  · show (if filled.length = 0 then socketed
      else if filled.length ≤ 255 then .ofNat filled.length else 255) < 8
    split
    · exact hsocketed
    · rw [if_pos (by omega), UInt8.lt_iff_toNat_lt, UInt8.toNat_ofNat']
      show filled.length % 2 ^ 8 < 8
      omega
  · intro inside hinside
    rw [hfilled inside hinside]
    exact ⟨⟨kind, hkind, hfits, hkept⟩, rfl⟩

theorem comesBack_charms : ComesBack charms eightBits
      [socketedCharm 0 [charm 5, charm 5], socketedCharm 0 []] [0x4A] ↔
    ∀ h ∈ [socketedCharm 0 [charm 5, charm 5], socketedCharm 0 []], h.Agrees charms := by
  refine comesBack_iff complete_eightBits (by decide) ?_ _
  have htwo : ∀ inside ∈ [charm 5, charm 5], inside = charm 5 :=
    List.forall_mem_cons.mpr ⟨rfl, List.forall_mem_singleton.mpr rfl⟩
  exact List.forall_mem_cons.mpr ⟨sound_socketedCharm (by decide) (by decide) htwo,
    List.forall_mem_singleton.mpr (sound_socketedCharm (by decide) (by decide)
      fun _ h => (nomatch h))⟩

/-- A charm that says it holds an item, and holds none, takes the next one for it. -/
theorem count_without_items : Complete eightBits ∧
    (∀ h ∈ [socketedCharm 1 [], socketedCharm 0 []], h.Sound charms eightBits) ∧
    ¬ ComesBack charms eightBits [socketedCharm 1 [], socketedCharm 0 []] [] := by
  refine ⟨complete_eightBits, ?_, ?_⟩
  · exact List.forall_mem_cons.mpr ⟨sound_socketedCharm (by decide) (by decide)
      fun _ h => (nomatch h), List.forall_mem_singleton.mpr (sound_socketedCharm (by decide)
      (by decide) fun _ h => (nomatch h))⟩
  · rintro ⟨back, hread, -⟩
    have herror : (readSaveList (writeSaveList [socketedCharm 1 [], socketedCharm 0 []] charms
        eightBits ++ []) charms eightBits).toOption.isNone = true := by decide +kernel
    rw [hread] at herror
    cases herror

end CommandCenter.Formats.ItemBits
