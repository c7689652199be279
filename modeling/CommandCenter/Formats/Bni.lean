import CommandCenter.Proto.Product
import CommandCenter.Proto.Reader
import CommandCenter.Rust.Slice

/-!
# Icon files

`icons.bni`, from `crates/bnetcc-proto/src/bni.rs`: an index of icons and one TGA that holds all
of them, one below the other.
-/

namespace CommandCenter.Formats.Bni

open Rust Proto Library

/-- Fixed header size, and the value the header-size field should hold. -/
def headerLen : Nat := 16

/-- The only version ever observed. -/
def version : UInt16 := 1

/-- Codes of one entry at most, the terminator not counted. -/
def maxCodes : Nat := 31

/-- Run-length encoded true-colour. -/
def tgaRleTruecolor : UInt8 := 10

/-- Why an icon file could not be read. -/
inductive BniError where
  | isMpqArchive
  | tooShort
  | badHeaderSize (size : UInt32)
  | unsupportedVersion (version : UInt16)
  | badDataOffset (offset : UInt32) (len : Nat)
  | implausibleIconCount (count : UInt32)
  | tableOverrun (tableEnd dataOffset : Nat)
  | truncatedEntry (index : UInt32)
  | tooManyCodes (index : UInt32)
  deriving DecidableEq

structure BniIcon where
  /-- Chat flags this icon applies to; zero is to match by code. -/
  flags : UInt32
  width : UInt32
  height : UInt32
  codes : List FourCc
  deriving DecidableEq

structure BniFile where
  version : UInt16
  /-- In file order. -/
  icons : List BniIcon
  /-- The embedded TGA, verbatim. -/
  image : List UInt8
  deriving DecidableEq

/-! ## Reading -/

/-- `map_err` with one error for all. -/
def orError {α : Type} (x : Reader α) (e : BniError) : Taking UInt8 BniError α := fun left =>
  (x left).mapError fun _ => e

/-- The file looks like an MPQ archive; the last byte of the magic number is one of two. -/
def isMpq (bytes : List UInt8) : Option Bool :=
  if bytes.length < 4 then some false else do
    if (← slice bytes 0 3) ≠ [0x4D, 0x50, 0x51] then
      return false
    else
      let last ← bytes[3]?
      return last == 0x1A || last == 0x1B

/-- What the header says of the rest of the file. -/
structure Header where
  version : UInt16
  iconCount : UInt32
  dataOffset : UInt32

def readHeader : Taking UInt8 BniError Header := do
  let headerSize ← orError Reader.u32 .tooShort
  if headerSize ≠ .ofNat headerLen then
    throw (.badHeaderSize headerSize)
  else
    let fileVersion ← orError Reader.u16 .tooShort
    if fileVersion ≠ version then
      throw (.unsupportedVersion fileVersion)
    else
      let _padding ← orError Reader.u16 .tooShort
      let iconCount ← orError Reader.u32 .tooShort
      let dataOffset ← orError Reader.u32 .tooShort
      return ⟨fileVersion, iconCount, dataOffset⟩

/-- The codes up to the terminator, with room for so many. The stored bytes of a code are reversed,
and so is the number they are read as. -/
def readCodes (index : UInt32) : (room : Nat) → Taking UInt8 BniError (List FourCc)
  | 0 => do
    let raw ← orError Reader.u32 (.truncatedEntry index)
    if raw = 0 then return [] else throw (.tooManyCodes index)
  | room + 1 => do
    let raw ← orError Reader.u32 (.truncatedEntry index)
    if raw = 0 then return [] else return ⟨raw⟩ :: (← readCodes index room)

def readEntry (index : UInt32) : Taking UInt8 BniError BniIcon := do
  let flags ← orError Reader.u32 (.truncatedEntry index)
  let width ← orError Reader.u32 (.truncatedEntry index)
  let height ← orError Reader.u32 (.truncatedEntry index)
  let codes ← readCodes index maxCodes
  return { flags, width, height, codes }

def BniIcon.size (icon : BniIcon) : Nat := 12 + (icon.codes.length + 1) * 4

/-- So many entries from a position on, and the position after them. -/
def readIcons (bytes : List UInt8) (dataOffset : Nat) :
    (count : Nat) → (index : UInt32) → (pos : Nat) → Checked BniError (List BniIcon × Nat)
  | 0, _, pos => return ([], pos)
  | count + 1, index, pos => do
    let entry ← slice bytes pos dataOffset
    let icon ← (readEntry index).run' entry
    let (icons, stop) ← readIcons bytes dataOffset count (index + 1) (pos + icon.size)
    return (icon :: icons, stop)

def parse (bytes : List UInt8) : Checked BniError BniFile := do
  if ← isMpq bytes then
    throw .isMpqArchive
  else if bytes.length < headerLen then
    throw .tooShort
  else
    let header ← readHeader.run' bytes
    let dataOffset := header.dataOffset.toNat
    if bytes.length < header.iconCount.toNat * 16 then
      throw (.implausibleIconCount header.iconCount)
    else if bytes.length < dataOffset ∨ dataOffset < headerLen then
      throw (.badDataOffset header.dataOffset bytes.length)
    else
      let (icons, pos) ← readIcons bytes dataOffset header.iconCount.toNat 0 headerLen
      if pos ≠ dataOffset then
        throw (.tableOverrun pos dataOffset)
      else
        return { version := header.version, icons, image := ← slice bytes dataOffset bytes.length }

/-! ## Writing -/

def buildIcon (icon : BniIcon) : List UInt8 :=
  Writer.u32 icon.flags ++ Writer.u32 icon.width ++ Writer.u32 icon.height ++
    icon.codes.flatMap (fun code => code.asAscii.reverse) ++ Writer.u32 0

def BniFile.dataOffset (file : BniFile) : Nat := headerLen + (file.icons.map BniIcon.size).sum

def build (file : BniFile) : List UInt8 :=
  Writer.u32 (.ofNat headerLen) ++ Writer.u16 file.version ++ Writer.u16 0 ++
    Writer.u32 (.ofNat file.icons.length) ++ Writer.u32 (.ofNat file.dataOffset) ++
    file.icons.flatMap buildIcon ++ file.image

end CommandCenter.Formats.Bni
