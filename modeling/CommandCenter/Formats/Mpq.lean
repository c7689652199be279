import CommandCenter.Formats.PkwareStreams
import CommandCenter.Rust.Num
import CommandCenter.Rust.Text

/-!
# MPQ archives

The members of an archive, of `crates/d2-formats/src/mpq.rs`: the cipher, the hash table and how a
member is read, sector by sector. The file is its bytes, and reading it does not fail; `none` is a
panic.

* `Archive.read`: a member.
* `Archive.sectors`: the bytes that are stored of each sector of it, and how many they stand for.
* `Whole`: those bytes are all of a sector.
-/

namespace CommandCenter.Formats.Mpq

open Rust

/-- Why a member could not be read. -/
inductive Error where
  | truncated
  | badSectorTable
  | unsupportedCompression (mask : UInt8)
  | pkware (e : Pkware.Error)

namespace flags

def IMPLODE : UInt32 := 0x00000100
def COMPRESS : UInt32 := 0x00000200
def ENCRYPTED : UInt32 := 0x00010000
def FIX_KEY : UInt32 := 0x00020000
def SINGLE_UNIT : UInt32 := 0x01000000
def DELETE_MARKER : UInt32 := 0x02000000
def SECTOR_CRC : UInt32 := 0x04000000
def EXISTS : UInt32 := 0x80000000

end flags

/-- `COMPRESS` sector mask for PKWARE implode. -/
def MASK_PKWARE : UInt8 := 0x08

/-! ## The cipher -/

def cryptWord (seed : UInt32) : UInt32 × UInt32 :=
  let seed := (seed * 125 + 3) % 0x2AAAAB
  let high := (seed &&& 0xFFFF) <<< 16
  let seed := (seed * 125 + 3) % 0x2AAAAB
  (high ||| (seed &&& 0xFFFF), seed)

def crypt_table : Vector UInt32 0x500 :=
  ((List.range 0x100).foldl (fun filled i =>
    (List.range 5).foldl (fun (table, seed) j =>
      let (word, seed) := cryptWord seed
      (table.setIfInBounds (i + j * 0x100) word, seed)) filled)
    (Vector.replicate 0x500 0, 0x00100001)).1

def CRYPT : Vector UInt32 0x500 := crypt_table

inductive HashKind where
  | TableOffset
  | NameA
  | NameB
  | FileKey

/-- `kind as usize`. -/
def HashKind.index : HashKind → Nat
  | TableOffset => 0
  | NameA => 1
  | NameB => 2
  | FileKey => 3

theorem HashKind.place_lt (kind : HashKind) (ch : UInt8) : kind.index * 256 + ch.toNat < 0x500 := by
  have hch := ch.toNat_lt
  cases kind <;> simp only [index] <;> omega

def hashByte (kind : HashKind) (s : UInt32 × UInt32) (b : UInt8) : UInt32 × UInt32 :=
  let upper := Text.byteToAsciiUppercase b
  let ch := if upper = 0x2F then 0x5C else upper
  let s1 := CRYPT.get ⟨kind.index * 256 + ch.toNat, kind.place_lt ch⟩ ^^^ (s.1 + s.2)
  (s1, ch.toUInt32 + s1 + s.2 + (s.2 <<< 5) + 3)

/-- Storm's string hash. Case-insensitive, and a slash is a backslash. -/
def hash (name : Text) (kind : HashKind) : UInt32 :=
  (name.asBytes.foldl (hashByte kind) (0x7FED7FED, 0xEEEEEEEE)).1

theorem key_place_lt (key : UInt32) : 0x400 + (key &&& 0xFF).toNat < 0x500 := by
  have hle : (key &&& 0xFF).toNat ≤ 0xFF := by
    rw [UInt32.toNat_and]
    exact Nat.and_le_right
  omega

/-- Whole words are decrypted; a trailing partial word is left as is. -/
def decryptFrom (seed key : UInt32) : List UInt8 → List UInt8
  | a :: b :: c :: d :: rest =>
    let seed := seed + CRYPT.get ⟨0x400 + (key &&& 0xFF).toNat, key_place_lt key⟩
    let plain := fromBeBytes d c b a ^^^ (key + seed)
    let high : UInt32 := (~~~key <<< 21) + (0x11111111 : UInt32)
    let key := high ||| key >>> 11
    (toBeBytes plain).reverse ++ decryptFrom (plain + seed + (seed <<< 5) + 3) key rest
  | rest => rest

def decrypt (data : List UInt8) (key : UInt32) : List UInt8 := decryptFrom 0xEEEEEEEE key data

/-! ## An archive -/

structure HashEntry where
  name_a : UInt32
  name_b : UInt32
  block : UInt32

structure Block where
  offset : UInt32
  packed : UInt32
  unpacked : UInt32
  flags : UInt32

structure Archive where
  file : List UInt8
  base : Nat
  sector_size : Nat
  hashes : List HashEntry
  blocks : List Block

def HASH_EMPTY : UInt32 := 0xFFFFFFFF
def HASH_DELETED : UInt32 := 0xFFFFFFFE

/-- The block of a name among some entries, from the first one on. -/
def find (blocks : List Block) (a b : UInt32) : List HashEntry → Option Block
  | [] => none
  | e :: entries =>
    if e.block = HASH_EMPTY then none
    else if e.block = HASH_DELETED then find blocks a b entries
    else if e.name_a = a ∧ e.name_b = b then
      blocks[e.block.toNat]?.filter fun blk =>
        blk.flags &&& flags.EXISTS != 0 && blk.flags &&& flags.DELETE_MARKER == 0
    else find blocks a b entries

/-- The entries are looked at in a ring, from the place of the name. -/
def Archive.lookup (archive : Archive) (name : Text) : Option Block :=
  if archive.hashes = [] then none
  else
    let start := (hash name .TableOffset).toNat % archive.hashes.length
    find archive.blocks (hash name .NameA) (hash name .NameB)
      (archive.hashes.drop start ++ archive.hashes.take start)

/-- The key of a member, if it is encrypted. Only the base name is keyed. -/
def Block.key (blk : Block) (name : Text) : Option UInt32 :=
  if blk.flags &&& flags.ENCRYPTED != 0 then
    let base_name := name.rtakeWhile fun c => c ≠ '\\' ∧ c ≠ '/'
    let key := hash base_name .FileKey
    some (if blk.flags &&& flags.FIX_KEY != 0 then (key + blk.offset) ^^^ blk.unpacked else key)
  else none

/-- `if let Some(k) = key { decrypt(data, f(k)) }` -/
def decryptWith (key : Option UInt32) (f : UInt32 → UInt32) (data : List UInt8) : List UInt8 :=
  match key with
  | some k => decrypt data (f k)
  | none => data

def Block.compressed (blk : Block) : Bool := blk.flags &&& (flags.IMPLODE ||| flags.COMPRESS) != 0

/-- The bytes of a block, as they are in the file. -/
def Archive.raw (archive : Archive) (blk : Block) : Except Error (List UInt8) :=
  let start := archive.base + blk.offset.toNat
  if archive.file.length < start + blk.packed.toNat then .error .truncated
  else .ok ((archive.file.drop start).take blk.packed.toNat)

/-- The PKWARE stream of a compressed sector. -/
def streamOf (blk : Block) (src : List UInt8) : Except Error (List UInt8) :=
  if blk.flags &&& flags.IMPLODE != 0 then .ok src
  else
    match src with
    | mask :: rest => if mask = MASK_PKWARE then .ok rest else .error (.unsupportedCompression mask)
    | [] => .error .truncated

/-- Undo one sector's storage into `dst`, which is exactly the sector's unpacked size. A sector that
did not shrink was stored as is. -/
def expand (src dst : List UInt8) (blk : Block) : Checked Error (List UInt8) :=
  if src.length = dst.length ∨ ¬ blk.compressed then
    let n := min src.length dst.length
    return src.take n ++ dst.drop n
  else do
    let stream ← (liftM (streamOf blk src) : Checked Error (List UInt8))
    let (_, dst) ← ((Pkware.explode stream dst).adapt Error.pkware)
    return dst

/-- The offsets that are stored of a compressed member. -/
def Block.entries (blk : Block) (count : Nat) : Nat :=
  count + 1 + if blk.flags &&& flags.SECTOR_CRC != 0 then 1 else 0

/-- Where the sectors begin, and where the last one ends. -/
def Archive.offsets (archive : Archive) (blk : Block) (key : Option UInt32) (raw : List UInt8)
    (count : Nat) : Except Error (List Nat) :=
  if blk.compressed then
    let entries := blk.entries count
    if raw.length < entries * 4 then .error .badSectorTable
    else
      let table := decryptWith key (· - 1) (raw.take (entries * 4))
      let offsets := (leWords table).take (count + 1)
      if offsets.head? ≠ some (entries * 4) then .error .badSectorTable else .ok offsets
  else .ok ((List.range (count + 1)).map fun i => min (i * archive.sector_size) raw.length)

def readSectors (blk : Block) (key : Option UInt32) (sector_size : Nat) (offsets : List Nat) :
    List Nat → (raw out : List UInt8) → Checked Error (List UInt8)
  | [], _, out => return out
  | i :: is, raw, out => do
    let start ← (liftM offsets[i]? : Checked Error Nat)
    let stop ← (liftM offsets[i + 1]? : Checked Error Nat)
    if stop < start ∨ raw.length < stop then throw .badSectorTable
    else
      let at_ := i * sector_size
      let want := min sector_size (blk.unpacked.toNat - at_)
      let stored ← (liftM (slice raw start stop) : Checked Error (List UInt8))
      let sector := decryptWith key (· + .ofNat i) stored
      let dst ← (liftM (slice out at_ (at_ + want)) : Checked Error (List UInt8))
      let dst ← expand sector dst blk
      readSectors blk key sector_size offsets is (raw.take start ++ sector ++ raw.drop stop)
        (out.take at_ ++ dst ++ out.drop (at_ + want))

/-- `unpacked.div_ceil(sector_size)` -/
def Archive.count (archive : Archive) (blk : Block) : Option Nat :=
  if archive.sector_size = 0 then none
  else some ((blk.unpacked.toNat + archive.sector_size - 1) / archive.sector_size)

/-- Read a member, or `none` if there is none by that name. -/
def Archive.read (archive : Archive) (name : Text) : Checked Error (Option (List UInt8)) :=
  match archive.lookup name with
  | none => return none
  | some blk => do
    let key := blk.key name
    let raw ← (liftM (archive.raw blk) : Checked Error (List UInt8))
    let unpacked := blk.unpacked.toNat
    let out := List.replicate unpacked 0
    if unpacked = 0 then return some out
    else if blk.flags &&& flags.SINGLE_UNIT != 0 then
      let out ← expand (decryptWith key id raw) out blk
      return some out
    else
      let count ← (liftM (archive.count blk) : Checked Error Nat)
      let offsets ← (liftM (archive.offsets blk key raw count) : Checked Error (List Nat))
      let out ← readSectors blk key archive.sector_size offsets (List.range count) raw out
      return some out

/-! ## What is stored -/

/-- The bytes that are stored of a sector, and how many they stand for. -/
structure Sector where
  stored : List UInt8
  want : Nat

/-- One sector of a member that has several. -/
def sectorAt (blk : Block) (key : Option UInt32) (sector_size : Nat) (offsets : List Nat)
    (raw : List UInt8) (i : Nat) : Option Sector := do
  let start ← offsets[i]?
  let stop ← offsets[i + 1]?
  let stored ← slice raw start stop
  return ⟨decryptWith key (· + .ofNat i) stored, min sector_size (blk.unpacked.toNat - i * sector_size)⟩

/-- The sectors of a member; none where its block or its offsets do not fit. -/
def Archive.sectors (archive : Archive) (blk : Block) (name : Text) : Option (List Sector) := do
  let key := blk.key name
  let raw ← (archive.raw blk).toOption
  if blk.unpacked.toNat = 0 then return []
  else if blk.flags &&& flags.SINGLE_UNIT != 0 then
    return [⟨decryptWith key id raw, blk.unpacked.toNat⟩]
  else
    let count ← archive.count blk
    let offsets ← (archive.offsets blk key raw count).toOption
    (List.range count).mapM (sectorAt blk key archive.sector_size offsets raw)

section Sectors

variable (blk : Block) (s : Sector)

/-- A sector that is not compressed, or that did not shrink. -/
def AsIs : Prop := s.stored.length = s.want ∨ ¬ blk.compressed

/-- A compressed sector has a stream that can be decoded. -/
def Readable : Prop :=
  AsIs blk s ∨ ∃ stream, streamOf blk s.stored = .ok stream ∧ Nonempty (Pkware.Stream stream s.want)

/-- Nothing is missing: there are as many bytes as are wanted, or the stream does not end before. -/
structure Full : Prop where
  as_is : AsIs blk s → s.stored.length = s.want
  stream : ¬ AsIs blk s → ∀ stream, streamOf blk s.stored = .ok stream →
    ∀ t : Pkware.Stream stream s.want, s.want ≤ (Pkware.expand t.tokens).length

/-- A part of a member is all of a sector: its bytes, or as many of its stream as are wanted. -/
structure Whole (part : List UInt8) : Prop where
  length : part.length = s.want
  as_is : AsIs blk s → part = s.stored
  stream : ¬ AsIs blk s → ∃ stream, streamOf blk s.stored = .ok stream ∧
    ∃ t : Pkware.Stream stream s.want, s.want ≤ (Pkware.expand t.tokens).length ∧
      part = (Pkware.expand t.tokens).take s.want

end Sectors

def Archive.ReadsWhole (archive : Archive) (name : Text) : Prop :=
  ∀ out, archive.read name = some (.ok (some out)) →
    ∃ blk sectors parts, archive.lookup name = some blk ∧ archive.sectors blk name = some sectors ∧
      out.length = blk.unpacked.toNat ∧ out = parts.flatten ∧ List.Forall₂ (Whole blk) sectors parts

end CommandCenter.Formats.Mpq
