import CommandCenter.Library.Reads
import CommandCenter.Rust.Num
import CommandCenter.Rust.Utf8
import CommandCenter.Rust.Chunks

/-!
# ZIP bundles

`crates/d2-formats/src/zip.rs`: entries are stored, not deflated, and every date is the format's
earliest. Beside the writer stands a reader of such files, from the end record through the central
directory.

* `store`: the writer.
* `unzip`: the reader. It refuses a file whose directory does not fill the place that the end record
  gives it, and one whose local and central headers differ.
-/

namespace CommandCenter.Formats.Zip

open Rust Library

/-! ## CRC-32 -/

def crcBit (c : UInt32) : UInt32 := if c &&& 1 ≠ 0 then (0xEDB88320 : UInt32) ^^^ (c >>> 1) else c >>> 1

/-- What is looked up for each byte. -/
def crcTable : List UInt32 := (List.range 256).map fun i => crcBit^[8] (.ofNat i)

def crcByte (crc : UInt32) (b : UInt8) : UInt32 :=
  crcTable.getD ((crc ^^^ b.toUInt32) &&& 0xFF).toNat 0 ^^^ (crc >>> 8)

/-- CRC-32 (IEEE 802.3, reflected), as ZIP uses. -/
def crc32 (data : List UInt8) : UInt32 := ~~~(data.foldl crcByte 0xFFFFFFFF)

example : crc32 [0x31, 0x32, 0x33, 0x34, 0x35, 0x36, 0x37, 0x38, 0x39] = 0xCBF43926 := by
  decide +kernel

/-! ## Writing -/

def DOS_DATE : Nat := 0x21

structure Entry where
  name : Text
  data : List UInt8

def Entry.bytes (e : Entry) : List UInt8 := e.name.asBytes

/-- What a local and a central header have in common. -/
def common (crc : UInt32) (size name_len : Nat) : List UInt8 :=
  leBytes 2 20 ++ leBytes 2 0 ++ leBytes 2 0 ++ leBytes 2 0 ++ leBytes 2 DOS_DATE ++
    leBytes 4 crc.toNat ++ leBytes 4 size ++ leBytes 4 size ++ leBytes 2 name_len ++ leBytes 2 0

/-- The entries and the central directory so far. -/
structure Streams where
  out : List UInt8
  central : List UInt8

def storeEntry (s : Streams) (e : Entry) : Option Streams := do
  let offset ← u32 s.out.length
  let size ← u32 e.data.length
  let name_len ← u16 e.bytes.length
  return { out := s.out ++ leBytes 4 0x04034B50 ++ common (crc32 e.data) size name_len ++ e.bytes ++
            e.data
           central := s.central ++ leBytes 4 0x02014B50 ++ leBytes 2 20 ++
            common (crc32 e.data) size name_len ++ leBytes 2 0 ++ leBytes 2 0 ++ leBytes 2 0 ++
            leBytes 4 0 ++ leBytes 4 offset ++ e.bytes }

/-- Bundle the entries, in the order given. -/
def store (entries : List Entry) : Option (List UInt8) :=
  if entries.length ≤ 0xFFFF then do
    let s ← entries.foldlM storeEntry ⟨[], []⟩
    let central_offset ← u32 s.out.length
    let central_size ← u32 s.central.length
    return s.out ++ s.central ++ leBytes 4 0x06054B50 ++ leBytes 2 0 ++ leBytes 2 0 ++
      leBytes 2 entries.length ++ leBytes 2 entries.length ++ leBytes 4 central_size ++
        leBytes 4 central_offset ++ leBytes 2 0
  else none

/-! ## Reading -/

inductive ZipFault where
  | truncated
  | signature
  | name
  | differs
  | directory
deriving DecidableEq

abbrev ZipReader := Taking UInt8 ZipFault

namespace ZipReader

def bytes (count : Nat) : ZipReader (List UInt8) := fun left =>
  if count ≤ left.length then .ok (left.take count, left.drop count) else .error .truncated

def number (count : Nat) : ZipReader Nat := do return leValue (← bytes count)

def signature (value : Nat) : ZipReader Unit := do
  if (← number 4) = value then return else throw .signature

end ZipReader

open ZipReader

structure Header where
  version : Nat
  flags : Nat
  method : Nat
  time : Nat
  date : Nat
  crc : Nat
  packed : Nat
  size : Nat
  name : Nat
  extra : Nat
deriving DecidableEq

def readHeader : ZipReader Header := do
  return ⟨← number 2, ← number 2, ← number 2, ← number 2, ← number 2, ← number 4, ← number 4,
    ← number 4, ← number 2, ← number 2⟩

/-- A record of the central directory. -/
structure Record where
  header : Header
  offset : Nat
  name : List UInt8

def readRecord : ZipReader Record := do
  signature 0x02014B50
  let _made_by ← number 2
  let header ← readHeader
  let comment ← number 2
  let _disk ← number 2
  let _internal ← number 2
  let _external ← number 4
  let offset ← number 4
  let name ← bytes header.name
  let _extra ← bytes header.extra
  let _comment ← bytes comment
  return ⟨header, offset, name⟩

structure Local where
  header : Header
  name : List UInt8
  data : List UInt8

def readLocal : ZipReader Local := do
  signature 0x04034B50
  let header ← readHeader
  let name ← bytes header.name
  let _extra ← bytes header.extra
  let data ← bytes header.packed
  return ⟨header, name, data⟩

/-- How many records the central directory has, how long it is, and where it begins. -/
structure EndRecord where
  count : Nat
  size : Nat
  offset : Nat

def readEnd : ZipReader EndRecord := do
  signature 0x06054B50
  let _disk ← number 2
  let _start ← number 2
  let _here ← number 2
  let count ← number 2
  let size ← number 4
  let offset ← number 4
  let _comment ← number 2
  return ⟨count, size, offset⟩

structure Found where
  name : Text
  data : List UInt8
  size : Nat
  crc : Nat
deriving DecidableEq

def find (zip : List UInt8) (r : Record) : Except ZipFault Found := do
  let entry ← readLocal.run' (zip.drop r.offset)
  if entry.header ≠ r.header ∨ entry.name ≠ r.name then throw .differs
  else if (Text.fromUtf8Lossy r.name).asBytes ≠ r.name then throw .name
  else return ⟨Text.fromUtf8Lossy r.name, entry.data, r.header.size, r.header.crc⟩

/-- All entries of a file, which ends with its end record. -/
def unzip (zip : List UInt8) : Except ZipFault (List Found) := do
  let last ← readEnd.run' (zip.drop (zip.length - 22))
  if last.offset + last.size ≠ zip.length - 22 then throw .directory
  else
    let records ← (readRecord.times last.count).run ((zip.take (last.offset + last.size)).drop last.offset)
    if records.2 ≠ [] then throw .directory else records.1.mapM (find zip)

end CommandCenter.Formats.Zip
