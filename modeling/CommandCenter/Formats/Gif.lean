import CommandCenter.Library.Bits
import CommandCenter.Rust.BigUint
import CommandCenter.Rust.Map
import CommandCenter.Rust.Num
import CommandCenter.Rust.Text

/-!
# Animations

The GIF writer and reader of `crates/d2-formats/src/gif.rs`. Codes, sizes and the accumulator are
natural numbers: none of them gets near 2^32. What is left of a file or of its bits stands for a
position in it.
-/

namespace CommandCenter.Formats.Gif

open Rust Library

structure Animation where
  width : UInt16
  height : UInt16
  palette : Vector (Bytes 3) 256
  /-- The palette index drawn as transparent. -/
  transparent : UInt8
  /-- Each frame's delay, in hundredths of a second; the last one repeats. -/
  delays : List UInt16
  /-- Each frame's palette indices, row by row. -/
  frames : List (List UInt8)

/-! ## Codes -/

def clear : Nat := 256

/-- `END`. -/
def endCode : Nat := 257

/-- The bytes that are out, and the bits that do not make one yet. -/
structure Emitter where
  out : List UInt8
  acc : Nat
  accBits : Nat

namespace Emitter

/-- Whole bytes go out. -/
def drain (e : Emitter) : Emitter :=
  if 8 ≤ e.accBits then drain ⟨e.out ++ [.ofNat e.acc], e.acc >>> 8, e.accBits - 8⟩ else e
termination_by e.accBits

def emit (e : Emitter) (code size : Nat) : Emitter :=
  drain ⟨e.out, e.acc ||| (code <<< e.accBits), e.accBits + size⟩

def finish (e : Emitter) : List UInt8 := if 0 < e.accBits then e.out ++ [.ofNat e.acc] else e.out

end Emitter

/-- What the writer has while it goes over the pixels. -/
structure Coder where
  table : Map (Nat × UInt8) Nat
  next : Nat
  size : Nat
  /-- The code of the pixels that are not out yet. -/
  lead : Nat

namespace Coder

/-- The codes, with their sizes, that are emitted at a pixel, and what the writer has behind it. -/
def step (c : Coder) (p : UInt8) : List (Nat × Nat) × Coder :=
  match c.table.lookup (c.lead, p) with
  | some code => ([], { c with lead := code })
  | none =>
    if c.next < 4096 then
      let next := c.next + 1
      ([(c.lead, c.size)],
        { table := c.table.insert (c.lead, p) c.next
          next
          size := if 2 ^ c.size < next ∧ c.size < 12 then c.size + 1 else c.size
          lead := p.toNat })
    else
      ([(c.lead, c.size), (clear, c.size)],
        { table := ∅, next := endCode + 1, size := 9, lead := p.toNat })

/-- The codes of the pixels that are left, to the end. -/
def codes (c : Coder) : List UInt8 → List (Nat × Nat)
  | [] => [(c.lead, c.size), (endCode, c.size)]
  | p :: rest => (c.step p).1 ++ codes (c.step p).2 rest

end Coder

def frameCodes : List UInt8 → List (Nat × Nat)
  | [] => [(clear, 9), (endCode, 9)]
  | first :: rest => (clear, 9) :: Coder.codes ⟨∅, endCode + 1, 9, first.toNat⟩ rest

/-- LZW with an 8-bit alphabet: codes grow from 9 to 12 bits, and the table is cleared when it
fills. -/
def lzw (pixels : List UInt8) : List UInt8 :=
  ((frameCodes pixels).foldl (fun e c => e.emit c.1 c.2) (⟨[], 0, 0⟩ : Emitter)).finish

/-- `read`, of the bits that are left. -/
def readCode (size : Nat) (left : List Bool) : Option (Nat × List Bool) :=
  if size ≤ left.length then some (ofBits (left.take size), left.drop size) else none

/-- What the reader has while it goes over the codes. -/
structure Decoder where
  out : List UInt8
  table : List (List UInt8)
  size : Nat
  previous : Option (List UInt8)

/-- The table of `reset`. -/
def firstTable : List (List UInt8) := ((List.range 256).map fun b => [.ofNat b]) ++ [[], []]

/-- The entry of a code that is neither `CLEAR` nor `END`. None that is reached is empty, so each
has a first pixel. -/
def Decoder.entry (d : Decoder) (code : Nat) : Option (List UInt8) :=
  match d.table[code]? with
  | some entry => some entry
  | none => d.previous.map fun e => e ++ e.take 1

/-- What the reader has behind an entry. -/
def Decoder.enter (d : Decoder) (entry : List UInt8) : Decoder :=
  match d.previous with
  | none => { d with out := d.out ++ entry, previous := some entry }
  | some p =>
    let table := if d.table.length < 4096 then d.table ++ [p ++ entry.take 1] else d.table
    { out := d.out ++ entry
      table
      size := if table.length = 2 ^ d.size ∧ d.size < 12 then d.size + 1 else d.size
      previous := some entry }

/-- The codes that are left, of which at most `fuel`. -/
def unlzwFrom : (fuel : Nat) → Decoder → List Bool → Option (List UInt8)
  | 0, _, _ => none
  | fuel + 1, d, left => do
    let (code, left) ← readCode d.size left
    if code = clear then unlzwFrom fuel ⟨d.out, firstTable, 9, none⟩ left
    else if code = endCode then return d.out
    else
      let entry ← d.entry code
      unlzwFrom fuel (d.enter entry) left

/-- Undo `lzw`. A code takes a bit or more, so there are no more codes than bits. -/
def unlzw (data : List UInt8) : Option (List UInt8) :=
  unlzwFrom (8 * data.length + 1) ⟨[], firstTable, 9, none⟩ (unpack data)

/-! ## Files -/

/-- The chunks of the data, each behind its length. -/
def subBlocks (data : List UInt8) : List UInt8 :=
  if data = [] then []
  else .ofNat (data.take 255).length :: (data.take 255 ++ subBlocks (data.drop 255))
termination_by data.length
decreasing_by
  have hpos := List.length_pos_of_ne_nil ‹data ≠ []›
  rw [List.length_drop]
  omega

namespace Animation

/-- What stands before the frames. -/
def header (a : Animation) : List UInt8 :=
  Text.asBytes "GIF89a".toList ++ toLeBytes a.width ++ toLeBytes a.height ++
    [0xF7, a.transparent, 0] ++ a.palette.toList.flatMap Vector.toList ++
    -- loop forever
    [0x21, 0xFF, 0x0B] ++ Text.asBytes "NETSCAPE2.0".toList ++ [0x03, 0x01, 0x00, 0x00, 0x00]

def delay (a : Animation) (i : Nat) : UInt16 := (a.delays[i]?.or a.delays.getLast?).getD 10

/-- What is written of a frame, unless its length stops it. -/
def encodeFrame (a : Animation) (i : Nat) (frame : List UInt8) : Option (List UInt8) :=
  if frame.length ≠ a.width.toNat * a.height.toNat then none
  else some ([0x21, 0xF9, 0x04, 0x09] ++ toLeBytes (a.delay i) ++ [a.transparent, 0x00] ++
    [0x2C] ++ [0, 0, 0, 0] ++ toLeBytes a.width ++ toLeBytes a.height ++ [0] ++ [8] ++
    subBlocks (lzw frame) ++ [0])

def encodeFrames (a : Animation) : (i : Nat) → List (List UInt8) → Option (List UInt8)
  | _, [] => some []
  | i, frame :: frames => do
    let bytes ← a.encodeFrame i frame
    return bytes ++ (← encodeFrames a (i + 1) frames)

end Animation

/-- Encode an animation that loops forever; `none` where the source panics. -/
def encode (a : Animation) : Option (List UInt8) := do
  return a.header ++ (← a.encodeFrames 0 a.frames) ++ [0x3B]

/-- What is left behind some blocks and the empty one at their end. -/
def skipBlocks : List UInt8 → Option (List UInt8)
  | [] => none
  | len :: left => if len = 0 then some left else skipBlocks (left.drop len.toNat)
termination_by left => left.length
decreasing_by
  rw [List.length_drop, List.length_cons]
  omega

/-- The data in some blocks, and what is left behind them. -/
def readBlocks : List UInt8 → Option (List UInt8 × List UInt8)
  | [] => none
  | len :: left =>
    if len = 0 then some ([], left)
    else if left.length < len.toNat then none
    else do
      let (data, rest) ← readBlocks (left.drop len.toNat)
      return (left.take len.toNat ++ data, rest)
termination_by left => left.length
decreasing_by
  rw [List.length_drop, List.length_cons]
  omega

/-- The frames that are left, of at most `fuel` parts of the file. -/
def framesFrom (width height : UInt16) :
    (fuel : Nat) → List UInt8 → Option (List (List UInt8))
  | 0, _ => none
  | fuel + 1, left => do
    let kind ← left.head?
    if kind = 0x21 then
      let left ← skipBlocks (left.drop 2)
      framesFrom width height fuel left
    else if kind = 0x2C then
      let flags ← left[9]?
      if flags &&& 0x80 ≠ 0 then none
      else
        let (data, left) ← readBlocks (left.drop 11)
        let pixels ← unlzw data
        if pixels.length ≠ width.toNat * height.toNat then none
        else
          let frames ← framesFrom width height fuel left
          return pixels :: frames
    else if kind = 0x3B then return []
    else none

/-- Decode the frames of a GIF: each frame's palette indices. A part takes a byte or more, so there
are no more parts than bytes. -/
def decodeFrames (bytes : List UInt8) : Option (UInt16 × UInt16 × List (List UInt8)) :=
  if !(Text.asBytes "GIF89a".toList).isPrefixOf bytes || bytes.length < 13 then none
  else do
    let byte (i : Nat) := bytes.getD i 0
    let width := fromLeBytes (byte 6) (byte 7)
    let height := fromLeBytes (byte 8) (byte 9)
    let start := 13 + if byte 10 &&& 0x80 ≠ 0 then 3 <<< ((byte 10 &&& 7).toNat + 1) else 0
    let frames ← framesFrom width height (bytes.length + 1) (bytes.drop start)
    return (width, height, frames)

end CommandCenter.Formats.Gif
