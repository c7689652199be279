import CommandCenter.Rust.BigUint
import CommandCenter.Rust.Map
import CommandCenter.Rust.Text
import CommandCenter.Library.Bits
import CommandCenter.Library.Reads
import CommandCenter.Rust.Num

/-!
# The bits of an item

`write` and `read` of `crates/d2-data/src/item_bits.rs`. A writer is the list of the bits it has
put, which are packed into bytes at the end, and a reader is the list of the bits that are left.
Arithmetic wraps, and a shift counts its width modulo 32, as in a release build.

Of the items in an item's sockets only their number is written, and what is never written of an
item is left out.
-/

/-!
## The tables of items and of their stats

What the bits of an item take from `ItemTypes.txt`, `Weapons.txt`, `Armor.txt`, `Misc.txt` and
`ItemStatCost.txt`: the lookups of `crates/d2-data/src/items.rs` and
`crates/d2-data/src/item_stats.rs`. Tables are given as they are after parsing, and class and type
ids are integers.
-/

namespace CommandCenter.Formats

open Rust

/-- A code as the engine stores it: four bytes, padded with spaces. -/
abbrev Code := Bytes 4

/-! ## Item types -/

/-- One `ItemTypes.txt` row. -/
structure ItemType where
  code : Text
  /-- How many inventory pictures an item of the type picks from. -/
  varInvGfx : Int
  /-- Every type this one is, itself included. -/
  ancestors : List Int

/-- `ItemTypes.txt`, by type id. -/
structure ItemTypes where
  rows : List ItemType

namespace ItemTypes

def get (t : ItemTypes) (id : Int) : Option ItemType := if id < 0 then none else t.rows[id.toNat]?

def id (t : ItemTypes) (code : Text) : Option Int :=
  (t.rows.findIdx? fun r => code ≠ [] ∧ r.code = code).map Int.ofNat

def isA (t : ItemTypes) (id parent : Int) : Bool := (t.get id).any fun row => parent ∈ row.ancestors

end ItemTypes

/-! ## Items -/

structure ItemDef where
  itemType : Int
  /-- `-1` when blank. -/
  itemType2 : Int
  compact : Bool
  stackable : Bool
  quest : Bool
  questDiffCheck : Bool
  /-- The item's normal, exceptional and elite tiers. -/
  tiers : Vector Code 3

/-- Every item, in class id order. -/
structure Items where
  types : ItemTypes
  rows : List ItemDef
  byCode : Map Code Int

namespace Items

def get (items : Items) (cls : Int) : Option ItemDef :=
  if cls < 0 then none else items.rows[cls.toNat]?

def classOf (items : Items) (code : Code) : Option Int := items.byCode.lookup code

def isType (items : Items) (cls parent : Int) : Bool :=
  (items.get cls).any fun d => items.types.isA d.itemType parent ||
    (0 ≤ d.itemType2 && items.types.isA d.itemType2 parent)

def is (items : Items) (cls : Int) (parent : Text) : Bool :=
  (items.types.id parent).any fun p => items.isType cls p

end Items

/-! ## Stats -/

/-- How one stat is saved and sent inside an item. -/
structure StatCost where
  /-- Zero for a stat that is never written. -/
  saveBits : UInt8
  /-- Added before writing, so that negative values fit. -/
  saveAdd : Int32
  paramBits : UInt8
  /-- The stat is kept shifted left this far. -/
  valShift : UInt8

structure ItemStats where
  byId : List (Option StatCost)

def ItemStats.get (stats : ItemStats) (id : UInt16) : Option StatCost := stats.byId[id.toNat]?.join

end CommandCenter.Formats

namespace CommandCenter.Formats.ItemBits

open Rust Library

/-! ## Items -/

namespace Flags

def identified : UInt32 := 0x10

/-- Has sockets: the socket count is written. -/
def socketed : UInt32 := 0x800

/-- An ear: the victim's class, level and name in place of the code. -/
def ear : UInt32 := 0x10000

/-- Runtime only; cleared before writing. -/
def init : UInt32 := 0x80000

def compact : UInt32 := 0x200000

def ethereal : UInt32 := 0x400000

def written : UInt32 := 0x800000

def personalized : UInt32 := 0x1000000

def gamble : UInt32 := 0x2000000

/-- A runeword: its id and a stat list follow. -/
def runeword : UInt32 := 0x4000000

/-- `flags & flag != 0`. -/
def has (flags flag : UInt32) : Bool := flags &&& flag != 0

end Flags

/-- An ear's code, `ear `. -/
def earCode : Code := #v[0x65, 0x61, 0x72, 0x20]

def blankCode : Code := #v[0x20, 0x20, 0x20, 0x20]

/-- The longest victim's name an ear carries. -/
def earNameMax : Nat := 15

/-- `questitemdifficulty`. -/
def questDifficulty : UInt16 := 356

inductive Location where
  | stored (col row page : UInt8)
  | equipped (body : UInt8)
  | belt (slot : UInt8)
  | ground (x y : UInt16)
  | cursor (body col row : UInt8) (page : Option UInt8)
  | dropping (x y : UInt16)
  | socketed (slot : UInt8)
  deriving DecidableEq

def Location.mode : Location → UInt32
  | stored _ _ _ => 0
  | equipped _ => 1
  | belt _ => 2
  | ground _ _ => 3
  | cursor _ _ _ _ => 4
  | dropping _ _ => 5
  | socketed _ => 6

structure RareIds where
  names : UInt8 × UInt8
  prefixes : Vector UInt16 3
  suffixes : Vector UInt16 3
  deriving DecidableEq

inductive Quality where
  | inferior (id : UInt8)
  | normal
  | superior (id : UInt8)
  | magic (prefixId suffixId : UInt16)
  | set (id : UInt16)
  | rare (ids : RareIds)
  | unique (id : UInt16)
  | crafted (ids : RareIds)
  | tempered (a b : UInt8)
  deriving DecidableEq

def Quality.number : Quality → UInt32
  | inferior _ => 1
  | normal => 2
  | superior _ => 3
  | magic _ _ => 4
  | set _ => 5
  | rare _ => 6
  | unique _ => 7
  | crafted _ => 8
  | tempered _ _ => 9

/-- One stat on an item: its id, parameter and value as the engine keeps it. -/
structure ItemStat where
  id : UInt16
  param : UInt16
  value : Int32
  deriving DecidableEq

/-- Everything written about an item. -/
structure Item where
  flags : UInt32
  version : UInt16
  location : Location
  code : Code
  socketed : UInt8
  seed : UInt32
  level : UInt8
  quality : Quality
  picture : Option UInt8
  autoAffix : UInt16
  /-- A normal charm's affix id, a normal body part's monster. -/
  typeExtra : UInt16
  book : UInt8
  runeword : UInt16
  /-- A personalised name, or an ear's victim. -/
  name : Text
  earClass : UInt8
  earLevel : UInt8
  realm : Option (UInt32 × UInt32)
  defense : Int32
  maxDurability : Int32
  durability : Int32
  gold : UInt32
  quantity : UInt16
  sockets : UInt8
  stats : List ItemStat
  /-- Set bonus lists. -/
  setStats : Vector (List ItemStat) 5
  runewordStats : List ItemStat
  /-- How many items `filled` holds. -/
  filled : Nat
  deriving DecidableEq

/-- A normal, identified item, with nothing else set. -/
def Item.new (code : Code) (version : UInt16) (level : UInt8) (location : Location) : Item where
  flags := Flags.identified
  version
  location
  code
  socketed := 0
  seed := 0
  level
  quality := .normal
  picture := none
  autoAffix := 0
  typeExtra := 0
  book := 0
  runeword := 0
  name := []
  earClass := 0
  earLevel := 0
  realm := none
  defense := 0
  maxDurability := 0
  durability := 0
  gold := 0
  quantity := 0
  sockets := 0
  stats := []
  setStats := .replicate 5 []
  runewordStats := []
  filled := 0

/-- Where the bits go: a packet or a save. -/
inductive Target where
  | network
  | save
  deriving DecidableEq

inductive ReadError where
  | truncated
  | noMarker
  | unknownCode (code : Code)
  | unknownStat (id : UInt16)
  deriving DecidableEq

/-- The widths the rules give an item. -/
structure Kind where
  compact : Bool
  armor : Bool
  weapon : Bool
  gold : Bool
  stackable : Bool
  book : Bool
  charm : Bool
  bodyPart : Bool
  pictures : Bool
  questDifficulty : Bool

def kind (items : Items) (code : Code) : Option Kind := do
  let cls ← items.classOf code
  let d ← items.get cls
  let is (t : String) := items.is cls t.toList
  return {
    compact := d.compact
    armor := is "armo"
    weapon := is "weap"
    gold := is "gold"
    stackable := d.stackable
    book := is "scro" || is "book"
    charm := is "char"
    bodyPart := is "body" && !is "play"
    pictures := (items.types.get d.itemType).any fun t => 0 < t.varInvGfx
    questDifficulty := d.quest && d.questDiffCheck }

/-! ## Values -/

/-- `v >> n` on `i32`. -/
def shr (v : Int32) (n : UInt8) : Int32 := .ofBitVec (v.toBitVec.sshiftRight (n.toNat % 32))

/-- `v << n` on `i32`. -/
def shl (v : Int32) (n : UInt8) : Int32 := .ofBitVec (v.toBitVec <<< (n.toNat % 32))

/-- `u32::from_le_bytes`. -/
def codeValue (code : Code) : UInt32 := fromBeBytes code[3] code[2] code[1] code[0]

/-- `u32::to_le_bytes`. -/
def codeOf (v : UInt32) : Code :=
  #v[.ofNat v.toNat, .ofNat (v.toNat / 2 ^ 8), .ofNat (v.toNat / 2 ^ 16), .ofNat (v.toNat / 2 ^ 24)]

/-- Stats whose partners' values follow them. -/
def groups : List (UInt16 × List UInt16) :=
  [(17, [18]), (48, [49]), (50, [51]), (52, [53]), (54, [55, 56]), (57, [58, 59])]

/-- The partners of a stat that leads a group. -/
def partners (id : UInt16) : Option (List UInt16) := (groups.find? (·.1 = id)).map Prod.snd

/-- The order of `ItemStat`: by id, then parameter, then value. -/
def ItemStat.le (a b : ItemStat) : Bool :=
  a.id < b.id || a.id = b.id && (a.param < b.param || a.param = b.param && a.value ≤ b.value)

/-! ## Writing -/

abbrev Writer := List Bool

/-- `Writer::put`. -/
def put (value : UInt32) (bits : Nat) : Writer := bitsOf bits value.toNat

/-- `value` clamped into `bits` as the engine clamps. -/
def clamped (value : UInt32) (bits : Nat) : Writer :=
  put (min value (if 32 ≤ bits then 0xFFFFFFFF else .ofNat (2 ^ bits - 1))) bits

def StatCost.raw (cost : StatCost) (value : Int32) : UInt32 :=
  (shr value cost.valShift + cost.saveAdd).toUInt32

def writeValue (stats : ItemStats) (id : UInt16) (value : Int32) : Writer :=
  match stats.get id with
  | none => []
  | some cost => clamped (StatCost.raw cost value) cost.saveBits.toNat

/-- The value of a partner: that of the first such stat. -/
def partnerValue (sorted : List ItemStat) (id : UInt16) : Int32 :=
  ((sorted.find? (·.id = id)).map ItemStat.value).getD 0

/-- The stats of a sorted list from one on; `written` are the partners that were written. -/
def writeStats (stats : ItemStats) (sorted : List ItemStat) :
    (written : List UInt16) → List ItemStat → Writer
  | _, [] => put 0x1FF 9
  | written, s :: left =>
    match stats.get s.id with
    | none => writeStats stats sorted written left
    | some cost =>
      if cost.saveBits = 0 ∨ shr s.value cost.valShift = 0 ∨ s.id ∈ written then
        writeStats stats sorted written left
      else
        put s.id.toUInt32 9 ++
          match partners s.id with
          | some ps => writeValue stats s.id s.value ++
              ps.flatMap (fun p => writeValue stats p (partnerValue sorted p)) ++
              writeStats stats sorted (written ++ ps) left
          | none =>
            (if 0 < cost.paramBits then clamped s.param.toUInt32 cost.paramBits.toNat else []) ++
              writeValue stats s.id s.value ++ writeStats stats sorted written left

def writeList (stats : ItemStats) (list : List ItemStat) : Writer :=
  writeStats stats (list.mergeSort ItemStat.le) [] (list.mergeSort ItemStat.le)

def writeRealm : Option (UInt32 × UInt32) → Writer
  | some (a, b) => put 1 1 ++ put a 32 ++ put b 32 ++ put 0 32
  | none => put 0 1

def writeLocation : Location → Writer
  | .ground x y | .dropping x y => put x.toUInt32 16 ++ put y.toUInt32 16
  | .stored col row page => cells 0 col row (page + 1)
  | .equipped body => cells body 0 0 0
  | .belt slot | .socketed slot => cells 0 slot 0 0
  | .cursor body col row page => cells body col row (page.elim 0 (· + 1))
where
  cells (body col row page : UInt8) : Writer :=
    clamped body.toUInt32 4 ++ clamped col.toUInt32 4 ++ clamped row.toUInt32 4 ++
      clamped page.toUInt32 3

def itemFlags (flags : UInt32) (compact save gamble : Bool) : UInt32 :=
  let f := (flags &&& ~~~Flags.init) ||| Flags.written
  let f := if compact then f ||| Flags.compact else f &&& ~~~Flags.compact
  let f := if !save && !Flags.has f Flags.identified then f &&& ~~~Flags.socketed else f
  if gamble then (f &&& ~~~Flags.ethereal) ||| Flags.gamble else f

def writeName (name : List UInt8) : Writer :=
  name.flatMap (fun c => clamped c.toUInt32 7) ++ clamped 0 7

def writeGold (gold : UInt32) : Writer :=
  if 0xFFF < gold then put 1 1 ++ put gold 32 else put 0 1 ++ put gold 12

/-- What follows the code of a simple item. -/
def writeSimple (kind : Kind) (stats : ItemStats) (save : Bool) (item : Item) : Writer :=
  (if kind.gold then writeGold item.gold else []) ++
    (if kind.questDifficulty then
      writeValue stats questDifficulty (partnerValue item.stats questDifficulty) else []) ++
    if save then writeRealm item.realm else []

/-- An id behind a present bit. -/
def writeAffix (id : UInt16) : Writer :=
  if id ≠ 0 then put 1 1 ++ clamped id.toUInt32 11 else put 0 1

def writeQuality (kind : Kind) (identified : Bool) (item : Item) : Writer :=
  match item.quality with
  | .inferior id | .superior id => clamped id.toUInt32 3
  | .normal =>
    (if kind.charm && identified then
      put (if item.typeExtra ≠ 0 then 1 else 0) 1 ++ clamped item.typeExtra.toUInt32 11
      else []) ++
      (if kind.bodyPart then clamped item.typeExtra.toUInt32 10 else []) ++
      if kind.book then clamped item.book.toUInt32 5 else []
  | .magic pre suf =>
    if identified then clamped pre.toUInt32 11 ++ clamped suf.toUInt32 11 else []
  | .set id | .unique id => if identified then clamped id.toUInt32 12 else []
  | .rare ids | .crafted ids =>
    (if identified then put ids.names.1.toUInt32 8 ++ put ids.names.2.toUInt32 8 else []) ++
      (List.finRange 3).flatMap fun i =>
        writeAffix (ids.prefixes.get i) ++ writeAffix (ids.suffixes.get i)
  | .tempered a b => if identified then put a.toUInt32 8 ++ put b.toUInt32 8 else []

/-- Defence and durability, or the gold of a pile. -/
def writeWear (kind : Kind) (stats : ItemStats) (item : Item) : Writer :=
  (if kind.armor then writeValue stats 31 item.defense else []) ++
    if kind.armor || kind.weapon then
      writeValue stats 73 item.maxDurability ++
        if item.maxDurability ≠ 0 then writeValue stats 72 item.durability else []
    else if kind.gold then writeGold item.gold else []

def writeSockets (stats : ItemStats) (sockets : UInt8) : Writer :=
  match stats.get 194 with
  | none => []
  | some cost => clamped sockets.toUInt32 cost.saveBits.toNat

/-- The set bonus lists that are not empty. -/
def setMask (lists : Vector (List ItemStat) 5) : UInt32 :=
  (List.finRange 5).foldl
    (fun m i => if (lists.get i).isEmpty then m else m ||| (1 <<< UInt32.ofNat i)) 0

def writeLists (stats : ItemStats) (flags : UInt32) (item : Item) : Writer :=
  (match item.quality with
    | .set _ => put (setMask item.setStats) 5
    | _ => []) ++
    writeList stats item.stats ++
    (match item.quality with
    | .set _ => (List.finRange 5).flatMap fun i =>
        if (item.setStats.get i).isEmpty then [] else writeList stats (item.setStats.get i)
    | _ => []) ++
    if Flags.has flags Flags.runeword then writeList stats item.runewordStats else []

/-- How many items are in its sockets, as the bits carry it. -/
def Item.socketCount (item : Item) : UInt8 :=
  if item.filled = 0 then item.socketed
  else if item.filled ≤ 255 then .ofNat item.filled else 255

/-- What follows the code of a full item. -/
def writeFull (kind : Kind) (stats : ItemStats) (save : Bool) (flags : UInt32) (item : Item) :
    Writer :=
  let identified := save || Flags.has item.flags Flags.identified
  clamped item.socketCount.toUInt32 3 ++
    (if save then put item.seed 32 else []) ++
    clamped (max 1 (min item.level 99)).toUInt32 7 ++
    put item.quality.number 4 ++
    (if kind.pictures then put 1 1 ++ clamped (item.picture.getD 0).toUInt32 3 else put 0 1) ++
    writeAffix item.autoAffix ++
    writeQuality kind identified item ++
    (if Flags.has flags Flags.runeword then put item.runeword.toUInt32 16 else []) ++
    (if Flags.has flags Flags.personalized then writeName item.name.asBytes else []) ++
    (if save then writeRealm item.realm else []) ++
    writeWear kind stats item ++
    (if kind.stackable then clamped item.quantity.toUInt32 9 else []) ++
    (if Flags.has flags Flags.socketed then writeSockets stats item.sockets else []) ++
    if identified then writeLists stats flags item else []

def itemBits (item : Item) (items : Items) (stats : ItemStats) (target : Target) (gamble : Bool) :
    Writer :=
  let save : Bool := target = .save
  let gamble := gamble && !save && !Flags.has item.flags Flags.identified &&
    (4 ≤ item.quality.number && item.quality.number ≤ 9)
  let ear := Flags.has item.flags Flags.ear
  let kind := kind items (if ear then earCode else item.code)
  let compact := ear || kind.any Kind.compact
  let flags := itemFlags item.flags compact save gamble
  (if save then put 0x4D4A 16 else []) ++
    put flags 32 ++
    clamped item.version.toUInt32 10 ++
    put item.location.mode 3 ++
    writeLocation item.location ++
    if gamble then
      let normal := (((items.classOf item.code).bind items.get).map (·.tiers[0])).getD item.code
      put (codeValue (if normal = blankCode then item.code else normal)) 32
    else
      (if ear then
        clamped item.earClass.toUInt32 3 ++ clamped item.earLevel.toUInt32 7 ++
          writeName (item.name.asBytes.take earNameMax)
      else put (codeValue item.code) 32) ++
        match kind with
        | none => []
        | some kind =>
          if compact then writeSimple kind stats save item
          else writeFull kind stats save flags item

def writeAs (item : Item) (items : Items) (stats : ItemStats) (target : Target) (gamble : Bool) :
    List UInt8 := pack (itemBits item items stats target gamble)

/-- An item's bits: whole bytes, the last padded with zeros. -/
def write (item : Item) (items : Items) (stats : ItemStats) (target : Target) : List UInt8 :=
  writeAs item items stats target false

/-- A gamble stock item as a gambler's client sees it. -/
def writeGamble (item : Item) (items : Items) (stats : ItemStats) : List UInt8 :=
  writeAs item items stats .network true

/-! ## Reading -/

abbrev Reader := Taking Bool ReadError

/-- `Reader::get`. -/
def get (bits : Nat) : Reader UInt32 := fun left =>
  if bits ≤ left.length then .ok (.ofNat (ofBits (left.take (min bits 32))), left.drop bits)
  else .error .truncated

/-- `get(bits)? as u8`. -/
def getU8 (bits : Nat) : Reader UInt8 := do return (← get bits).toUInt8

/-- `get(bits)? as u16`. -/
def getU16 (bits : Nat) : Reader UInt16 := do return (← get bits).toUInt16

/-- A field that is read under a condition, and is the default otherwise. -/
def readIf {α : Type} (present : Bool) (reader : Reader α) (default : α) : Reader α :=
  if present then reader else return default

def readValue (stats : ItemStats) (id : UInt16) : Reader Int32 :=
  match stats.get id with
  | none => throw (.unknownStat id)
  | some cost => do
    let raw ← get cost.saveBits.toNat
    return shl (raw.toInt32 - cost.saveAdd) cost.valShift

/-- The values of a group's partners. -/
def readPartners (stats : ItemStats) : List UInt16 → Reader (List ItemStat)
  | [] => return []
  | p :: ps => do
    let value ← readValue stats p
    return ⟨p, 0, value⟩ :: (← readPartners stats ps)

def readStat (stats : ItemStats) (id : UInt16) : Reader (List ItemStat) :=
  match partners id with
  | some ps => do
    let value ← readValue stats id
    return ⟨id, 0, value⟩ :: (← readPartners stats ps)
  | none =>
    match stats.get id with
    | none => throw (.unknownStat id)
    | some cost => do
      let param ← readIf (0 < cost.paramBits) (getU16 cost.paramBits.toNat) 0
      let value ← readValue stats id
      return [⟨id, param, value⟩]

/-- The stats up to the end mark, of which at most `fuel` ids. -/
def readStats (stats : ItemStats) : (fuel : Nat) → Reader (List ItemStat)
  | 0 => throw .truncated
  | fuel + 1 => do
    let id ← get 9
    if id = 0x1FF then return []
    else
      let read ← readStat stats id.toUInt16
      return read ++ (← readStats stats fuel)

/-- An id takes nine bits, so there are no more ids than that. -/
def readList (stats : ItemStats) : Reader (List ItemStat) := fun left =>
  readStats stats (left.length / 9 + 1) left

def readRealm : Reader (Option (UInt32 × UInt32)) := do
  if (← get 1) = 0 then return none
  else
    let a ← get 32
    let b ← get 32
    let _ ← get 32
    return some (a, b)

/-- The letters up to the terminator, of which at most `fuel`. -/
def readLetters : (fuel : Nat) → Reader Text
  | 0 => throw .truncated
  | fuel + 1 => do
    let c ← get 7
    if c = 0 then return []
    else return Char.ofNat c.toNat :: (← readLetters fuel)

def readName : Reader Text := fun left => readLetters (left.length / 7 + 1) left

def readLocation : Reader Location := do
  let mode ← get 3
  if mode = 3 ∨ mode = 5 then
    let x ← getU16 16
    let y ← getU16 16
    return if mode = 3 then .ground x y else .dropping x y
  else
    let body ← getU8 4
    let col ← getU8 4
    let row ← getU8 4
    let page ← getU8 3
    return if mode = 0 then .stored col row (if page = 0 then 0 else page - 1)
      else if mode = 1 then .equipped body
      else if mode = 2 then .belt col
      else if mode = 4 then .cursor body col row (if page = 0 then none else some (page - 1))
      else .socketed col

def readGold : Reader UInt32 := do
  let big ← get 1
  get (if big ≠ 0 then 32 else 12)

/-- What follows the code of a simple item. -/
def readSimple (kind : Kind) (stats : ItemStats) (save : Bool) (item : Item) : Reader Item := do
  let gold ← readIf kind.gold readGold 0
  let madeIn ← readIf kind.questDifficulty (readValue stats questDifficulty) 0
  let realm ← readIf save readRealm none
  return { item with
    quality := .normal
    gold
    stats := if madeIn ≠ 0 then [⟨questDifficulty, 0, madeIn⟩] else []
    realm }

/-- A field behind a present bit. -/
def readPresent {α : Type} (reader : Reader α) (default : α) : Reader α := do
  let present ← get 1
  readIf (present ≠ 0) reader default

def readAffix : Reader UInt16 := readPresent (getU16 11) 0

/-- The two name parts of a rare item. -/
def readPair : Reader (UInt8 × UInt8) := do
  let a ← getU8 8
  let b ← getU8 8
  return (a, b)

def readRareIds (identified : Bool) : Reader RareIds := do
  let names ← readIf identified readPair (0, 0)
  let prefix0 ← readAffix
  let suffix0 ← readAffix
  let prefix1 ← readAffix
  let suffix1 ← readAffix
  let prefix2 ← readAffix
  let suffix2 ← readAffix
  return ⟨names, #v[prefix0, prefix1, prefix2], #v[suffix0, suffix1, suffix2]⟩

/-- A normal item's type extra and scroll kind. -/
def readNormal (kind : Kind) (identified : Bool) : Reader (UInt16 × UInt8) := do
  let typeExtra ← readIf (kind.charm && identified) readAffix 0
  let typeExtra ← readIf kind.bodyPart (getU16 10) typeExtra
  let book ← readIf kind.book (getU8 5) 0
  return (typeExtra, book)

/-- The quality of a number, with a normal item's type extra and scroll kind. -/
def readQuality (kind : Kind) (identified : Bool) (number : UInt32) :
    Reader (Quality × UInt16 × UInt8) := do
  if number = 1 then
    let id ← getU8 3
    return (.inferior id, 0, 0)
  else if number = 3 then
    let id ← getU8 3
    return (.superior id, 0, 0)
  else if number = 4 then
    let pre ← readIf identified (getU16 11) 0
    let suf ← readIf identified (getU16 11) 0
    return (.magic pre suf, 0, 0)
  else if number = 5 ∨ number = 7 then
    let id ← readIf identified (getU16 12) 0
    return (if number = 5 then .set id else .unique id, 0, 0)
  else if number = 6 ∨ number = 8 then
    let ids ← readRareIds identified
    return (if number = 6 then .rare ids else .crafted ids, 0, 0)
  else if number = 9 then
    let (a, b) ← readIf identified readPair (0, 0)
    return (.tempered a b, 0, 0)
  else
    let (typeExtra, book) ← readNormal kind identified
    return (.normal, typeExtra, book)

/-- Defence, durability and gold. -/
structure Wear where
  defense : Int32
  maxDurability : Int32
  durability : Int32
  gold : UInt32

def readWear (kind : Kind) (stats : ItemStats) : Reader Wear := do
  let defense ← readIf kind.armor (readValue stats 31) 0
  if kind.armor || kind.weapon then
    let maxDurability ← readValue stats 73
    let durability ← readIf (maxDurability ≠ 0) (readValue stats 72) 0
    return ⟨defense, maxDurability, durability, 0⟩
  else
    let gold ← readIf kind.gold readGold 0
    return ⟨defense, 0, 0, gold⟩

def readSockets (stats : ItemStats) : Reader UInt8 :=
  match stats.get 194 with
  | none => throw (.unknownStat 194)
  | some cost => getU8 cost.saveBits.toNat

/-- One of the set bonus lists, if the mask names it. -/
def readSetList (stats : ItemStats) (mask : UInt32) (i : Nat) : Reader (List ItemStat) :=
  readIf ((mask >>> UInt32.ofNat i) &&& 1 ≠ 0) (readList stats) []

def readLists (stats : ItemStats) (flags : UInt32) (item : Item) : Reader Item := do
  let mask ← readIf (item.quality matches .set _) (get 5) 0
  let own ← readList stats
  let set0 ← readSetList stats mask 0
  let set1 ← readSetList stats mask 1
  let set2 ← readSetList stats mask 2
  let set3 ← readSetList stats mask 3
  let set4 ← readSetList stats mask 4
  let runewordStats ← readIf (Flags.has flags Flags.runeword) (readList stats) []
  return { item with stats := own, setStats := #v[set0, set1, set2, set3, set4], runewordStats }

/-- What follows the code of a full item. -/
def readFull (kind : Kind) (stats : ItemStats) (save : Bool) (flags : UInt32) (item : Item) :
    Reader Item := do
  let identified := save || Flags.has flags Flags.identified
  let socketed ← getU8 3
  let seed ← readIf save (get 32) 0
  let level ← get 7
  let number ← get 4
  let picture ← readPresent (do return some (← getU8 3)) none
  let autoAffix ← readAffix
  let (quality, typeExtra, book) ← readQuality kind identified number
  let runeword ← readIf (Flags.has flags Flags.runeword) (getU16 16) 0
  let name ← readIf (Flags.has flags Flags.personalized) readName []
  let realm ← readIf save readRealm none
  let wear ← readWear kind stats
  let quantity ← readIf kind.stackable (getU16 9) 0
  let sockets ← readIf (Flags.has flags Flags.socketed) (readSockets stats) 0
  let item := { item with
    socketed, seed, level := (max 1 level).toUInt8, quality, picture, autoAffix,
    typeExtra, book, runeword, name, realm, defense := wear.defense,
    maxDurability := wear.maxDurability, durability := wear.durability, gold := wear.gold,
    quantity, sockets }
  if identified then readLists stats flags item else return item

/-- The code, and an ear's class, level and name. -/
def readCode (ear : Bool) : Reader (Code × UInt8 × UInt8 × Text) := do
  if ear then
    let earClass ← getU8 3
    let earLevel ← getU8 7
    let name ← readName
    return (earCode, earClass, earLevel, name)
  else
    let code ← get 32
    return (codeOf code, 0, 0, [])

def readItem (items : Items) (stats : ItemStats) (target : Target) : Reader Item := do
  let save : Bool := target = .save
  let marker ← readIf save (get 16) 0x4D4A
  if marker ≠ 0x4D4A then throw .noMarker
  else
    let flags ← get 32
    let version ← getU16 10
    let location ← readLocation
    let ear := Flags.has flags Flags.ear
    let (code, earClass, earLevel, name) ← readCode ear
    match kind items code with
    | none => throw (.unknownCode code)
    | some kind =>
      let item := { Item.new code version 1 location with flags, earClass, earLevel, name }
      if ear || Flags.has flags Flags.compact then readSimple kind stats save item
      else readFull kind stats save flags item

/-- Read an item from the front of `bytes`: the item and the whole bytes it took. -/
def read (bytes : List UInt8) (items : Items) (stats : ItemStats) (target : Target) :
    Except ReadError (Item × Nat) :=
  match readItem items stats target (unpack bytes) with
  | .ok (item, left) => .ok (item, ((unpack bytes).length - left.length + 7) / 8)
  | .error e => .error e

end CommandCenter.Formats.ItemBits
