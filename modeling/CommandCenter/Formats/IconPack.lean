import CommandCenter.Formats.BniCheck
import CommandCenter.Formats.IconList
import CommandCenter.Formats.Png
import CommandCenter.Formats.TgaRoundTrip
import CommandCenter.Rust.Utf8

/-!
# Icons as pictures

`crates/bnetcc-icons/src/pack.rs`: `export` writes each icon of a file as a picture with a list of
what each is for, and `pack` makes a file of them again. The disk and the decoder of pictures are
parameters.

* `exportTo`, `pack`: the two commands.
-/

namespace CommandCenter.Formats.IconPack

open Rust Proto Bni Animation

/-! ## Outside -/

structure Disk where
  /-- The folder of the icons can be made. -/
  makes : Bool
  /-- The names of files that can be written there. -/
  takes : Text → Bool
  /-- The packed file can be written. -/
  packs : Bool

/-- The files of a folder by their names. -/
abbrev Folder := Text → Option (List UInt8)

def Folder.write (folder : Folder) (name : Text) (bytes : List UInt8) : Folder := fun other =>
  if other = name then some bytes else folder other

inductive ColorType where
  | grayscale
  | rgb
  | indexed
  | grayscaleAlpha
  | rgba
deriving DecidableEq

/-- A frame that the `png` crate decodes, expanded and with eight bits a sample. -/
structure Frame where
  width : UInt32
  height : UInt32
  color_type : ColorType
  buf : List UInt8

/-- The `png` crate; nothing where it refuses a file. -/
abbrev Decoder := List UInt8 → Option Frame

/-- Why icons could not be exported or packed. -/
inductive PackError where
  | isMpq
  | notBni (e : BniError)
  /-- The embedded image is not a TGA this can read. -/
  | notTga
  | cannotMake
  | imageEnds (icon : Nat)
  | cannotWrite (name : Text)
  /-- The packed file cannot be written. -/
  | cannotPack
  /-- There is no list: make the folder with an export first. -/
  | noList
  | list (line : Nat) (what : ListError)
  | noIcons
  | cannotRead (name : Text)
  | notPng (name : Text)
  /-- Still palette-indexed after expanding. -/
  | indexed (name : Text)
  /-- The classic clients draw an icon in a slot of its size. -/
  | wrongSize (picture : Text) (w h : UInt32) (icon : Nat) (width height : UInt32)
  | doesNotReadBack (e : BniError)

/-! ## Exporting -/

/-- An icon's own width out of the rows of the image. -/
def cutOut (stride : Nat) (icon : BniIcon) (rows : List UInt8) : Option (List UInt8) := do
  let _capacity ← u32 (icon.width.toNat * icon.height.toNat)
  let parts ← (List.range icon.height.toNat).mapM fun y =>
    slice rows (y * stride) (y * stride + icon.width.toNat * 3)
  return parts.flatten

/-- The pictures of some icons, numbered from one on, and their lines. -/
def exportIcons (disk : Disk) (image : Tga.Image) :
    (i top : Nat) → List BniIcon → Folder → Checked PackError (Folder × List Text)
  | _, _, [], folder => return (folder, [])
  | i, top, icon :: icons, folder => do
    let rows ← ExceptT.adapt (fun _ => .imageEnds i) (Tga.rows image top icon.height.toNat)
    let pixels ← (liftM (cutOut (image.width * 3) icon rows) : Checked PackError (List UInt8))
    let png ← (liftM (Png.rgb icon.width icon.height pixels) : Checked PackError (List UInt8))
    if disk.takes (nameOf i icon) = false then throw (.cannotWrite (nameOf i icon))
    else do
      let (folder, lines) ← exportIcons disk image (i + 1) (top + icon.height.toNat) icons
        (folder.write (nameOf i icon) png)
      return (folder, lineOf i icon :: lines)

def listName : Text := "icons.txt".toList

/-- Every icon of a file as a picture, and the list; with how many they are. -/
def exportTo (disk : Disk) (bytes : List UInt8) (folder : Folder) : Checked PackError (Folder × Nat) := do
  if ← isMpq bytes then throw .isMpq
  else do
    let file ← ExceptT.adapt PackError.notBni (parse bytes)
    let image ← ExceptT.adapt (fun _ => .notTga) (Tga.decode file.image)
    if disk.makes = false then throw .cannotMake
    else do
      let (folder, lines) ← exportIcons disk image 0 0 file.icons folder
      if disk.takes listName = false then throw (.cannotWrite listName)
      else return (folder.write listName
        (Text.asBytes ((heading ++ lines).flatMap fun line => line ++ ['\n'])), file.icons.length)

/-! ## Packing -/

/-- `read_to_string` of what a file holds: an error if it is not UTF-8. -/
def readToString (bytes : List UInt8) : Option Text :=
  let s := Text.fromUtf8Lossy bytes
  if s.asBytes = bytes then some s else none

def onBlack (sample alpha : UInt8) : UInt8 := .ofNat (sample.toNat * alpha.toNat / 255)

def rgbaPixel (p : List UInt8) : Option (List UInt8) := do
  let alpha ← p[3]?
  return [onBlack (← p[0]?) alpha, onBlack (← p[1]?) alpha, onBlack (← p[2]?) alpha]

def grayAlphaPixel (p : List UInt8) : Option (List UInt8) := do
  let g := onBlack (← p[0]?) (← p[1]?)
  return [g, g, g]

/-- The alpha of a pixel is not full. -/
def seesThrough (p : List UInt8) : Bool := p.getLast?.any (· < 255)

/-- A picture with its see-through pixels laid on black. -/
structure Picture where
  width : UInt32
  height : UInt32
  rgb : List UInt8
  see_through : Bool

def readPng (decoder : Decoder) (folder : Folder) (name : Text) : Checked PackError Picture :=
  match folder name with
  | none => throw (.cannotRead name)
  | some file =>
    match decoder file with
    | none => throw (.notPng name)
    | some ⟨width, height, .rgb, buf⟩ => return ⟨width, height, buf, false⟩
    | some ⟨width, height, .rgba, buf⟩ => do
      let pixels ← (liftM ((chunksExact 4 buf).mapM rgbaPixel) : Checked PackError (List (List UInt8)))
      return ⟨width, height, pixels.flatten, (chunksExact 4 buf).any seesThrough⟩
    | some ⟨width, height, .grayscale, buf⟩ =>
      return ⟨width, height, buf.flatMap fun g => [g, g, g], false⟩
    | some ⟨width, height, .grayscaleAlpha, buf⟩ => do
      let pixels ← (liftM ((chunksExact 2 buf).mapM grayAlphaPixel) :
        Checked PackError (List (List UInt8)))
      return ⟨width, height, pixels.flatten, (chunksExact 2 buf).any seesThrough⟩
    | some ⟨_, _, .indexed, _⟩ => throw (.indexed name)

/-- What is said of a file that was packed. -/
inductive Note where
  /-- See-through pixels of a picture are laid on black. -/
  | seeThrough (picture : Text)
  | warning (w : BniWarning)
deriving DecidableEq

/-- A row of a picture is copied to the image. -/
def copyRow (width top : Nat) (p : Picture) (image : List UInt8) (y : Nat) : Option (List UInt8) := do
  let start ← u32 (y * p.width.toNat)
  let row ← u32 (top + y)
  let place ← u32 (row * width)
  let part ← slice p.rgb (start * 3) (start * 3 + p.width.toNat * 3)
  overwrite image (place * 3) part

/-- The pictures of some entries are copied to the image, one below the other. -/
def layPictures (decoder : Decoder) (folder : Folder) (width : Nat) :
    (i top : Nat) → List Entry → List UInt8 → Checked PackError (List UInt8 × List Note)
  | _, _, [], image => return (image, [])
  | i, top, e :: entries, image => do
    let p ← readPng decoder folder e.picture
    if (p.width, p.height) ≠ (e.width, e.height) then
      throw (.wrongSize e.picture p.width p.height i e.width e.height)
    else do
      let image ← (liftM ((List.range p.height.toNat).foldlM (copyRow width top p) image) :
        Checked PackError (List UInt8))
      let top ← (liftM (u32 (top + p.height.toNat)) : Checked PackError Nat)
      let (image, notes) ← layPictures decoder folder width (i + 1) top entries image
      return (image, (if p.see_through then [.seeThrough e.picture] else []) ++ notes)

def Entry.icon (e : Entry) : BniIcon := ⟨e.flags, e.width, e.height, e.codes⟩

/-- What was packed: the bytes of the file, how many icons, and what is said of them. -/
structure Packed where
  bytes : List UInt8
  icons : Nat
  notes : List Note

def packEntries (decoder : Decoder) (disk : Disk) (folder : Folder) (entries : List Entry) :
    Checked PackError Packed := do
  let width := ((entries.map Entry.width).max?.getD 0).toNat
  let height ← (liftM (checkedSumU32 (entries.map Entry.height)) : Checked PackError UInt32)
  let size ← (liftM (u32 (width * height.toNat)) : Checked PackError Nat)
  let (image, notes) ← layPictures decoder folder width 0 0 entries (List.replicate (size * 3) 0)
  let tga ← (liftM (Tga.encode width height.toNat image) : Checked PackError (List UInt8))
  let bytes := build ⟨version, entries.map Entry.icon, tga⟩
  let check ← ExceptT.adapt PackError.doesNotReadBack (parse bytes)
  if disk.packs = false then throw .cannotPack
  else return ⟨bytes, entries.length, notes ++ (validate check).map Note.warning⟩

def packList (decoder : Decoder) (disk : Disk) (folder : Folder) :
    Except (Nat × ListError) (List Entry) → Checked PackError Packed
  | .error (line, what) => throw (.list line what)
  | .ok [] => throw .noIcons
  | .ok (e :: entries) => packEntries decoder disk folder (e :: entries)

/-- A file of the pictures of a folder. -/
def pack (decoder : Decoder) (disk : Disk) (folder : Folder) : Checked PackError Packed :=
  match (folder listName).bind readToString with
  | none => throw .noList
  | some text => packList decoder disk folder (parseList text)

end CommandCenter.Formats.IconPack
