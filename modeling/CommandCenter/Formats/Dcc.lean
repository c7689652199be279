import CommandCenter.Rust.Num
import CommandCenter.Rust.Slice

/-!
# DCC animations

The decoder of `crates/d2-formats/src/dcc.rs`. `none` is a panic: an index out of bounds, or
arithmetic that overflows. An `i32` is an integer that `i32` checks, a `usize` a natural number; those
that an offset of a frame goes into are checked by `usize`, and the others are places in the data and
in the buffer, which stay small. All streams are of the same data.

* `Dcc.parse`, `Dcc.direction`: a file, and a direction of it.
* `decode_direction`: the frame headers, the cells, their colours, and the pixels.
-/

namespace CommandCenter.Formats.Animation

open Rust

/-- Why a file could not be read. -/
inductive Error where
  | truncated
  | corrupt
  | noDirection
  | bottomUp
deriving DecidableEq

/-- Field widths by 4-bit code. -/
def WIDTHS : List Nat := [0, 1, 2, 4, 6, 8, 10, 12, 14, 16, 20, 24, 26, 28, 30, 32]

/-- Largest frame buffer the game accepts, in pixels. -/
def MAX_BUFFER : Nat := 120000

/-! ## Numbers -/

def i32 (v : Int) : Option Int := if -2 ^ 31 ≤ v ∧ v < 2 ^ 31 then some v else none

/-- `a - b` -/
def sub (a b : Nat) : Option Nat := if b ≤ a then some (a - b) else none

/-- `w as i32` -/
def asI32 (w : Nat) : Int := if w < 2 ^ 31 then w else w - 2 ^ 32

/-! ## Bits -/

/-- A least-significant-bit-first reader over part of a direction. -/
structure Bits where
  pos : Nat
  stop : Nat

def Bits.new (pos len : Nat) : Bits := ⟨pos, pos + len⟩

abbrev Reader := StateT Bits (Except Error)

section Streams

variable (data : List UInt8)

def bits : (n : Nat) → Reader Nat
  | 0 => return 0
  | n + 1 => fun b =>
    if b.stop ≤ b.pos then .error .truncated
    else
      match data[b.pos / 8]? with
      | none => .error .truncated
      | some byte => do
        let (high, b') ← bits n { b with pos := b.pos + 1 }
        return ((byte.toNat >>> (b.pos % 8) &&& 1) + 2 * high, b')

def signed (n : Nat) : Reader Int := do
  let v : UInt32 := .ofNat (← bits data n)
  if n = 0 then return 0
  else if n < 32 ∧ v &&& ((1 : UInt32) <<< .ofNat (n - 1)) ≠ 0 then
    return (v ||| ((0xFFFFFFFF : UInt32) <<< .ofNat n)).toInt32.toInt
  else return v.toInt32.toInt

/-! ## Frame headers -/

structure Widths where
  variable0 : Nat
  width : Nat
  height : Nat
  x : Nat
  y : Nat
  optional : Nat
  coded : Nat

def readWidth : Reader Nat := do return WIDTHS.getD (← bits data 4) 0

/-- The flags, and the widths of the fields. -/
def readOpening : Reader (Nat × Widths) := do
  let _output_size ← bits data 32
  let flags ← bits data 2
  let variable0 ← readWidth data
  let width ← readWidth data
  let height ← readWidth data
  let x ← readWidth data
  let y ← readWidth data
  let optional ← readWidth data
  let coded ← readWidth data
  return (flags, ⟨variable0, width, height, x, y, optional, coded⟩)

structure Header where
  x : Int
  y : Int
  width : Nat
  height : Nat
  optional : Nat

def readHeader (widths : Widths) : Reader Header := do
  let _ ← bits data widths.variable0
  let width ← bits data widths.width
  let height ← bits data widths.height
  let x ← signed data widths.x
  let y ← signed data widths.y
  let optional ← bits data widths.optional
  let _ ← bits data widths.coded
  let bottomUp ← bits data 1
  if bottomUp = 1 then throw .bottomUp
  else if 2 ^ 31 ≤ height then throw .corrupt
  else return ⟨x, y, width, height, optional⟩

/-- The pixels of a frame, from the base point. -/
structure Box where
  x : Int
  y : Int
  width : Nat
  height : Nat

/-- `(x, y - height_i + 1, width, height)` -/
def Header.box (h : Header) : Option Box := do
  let above ← i32 (h.y - h.height)
  let top ← i32 (above + 1)
  return ⟨h.x, top, h.width, h.height⟩

/-- The boxes, and the optional bytes of all frames. -/
def readBoxes (widths : Widths) : (frame_count : Nat) → Bits → Checked Error ((List Box × Nat) × Bits)
  | 0, b => return (([], 0), b)
  | frame_count + 1, b => do
    let (header, b) ← (liftM (readHeader data widths b) : Checked Error (Header × Bits))
    let box ← (liftM header.box : Checked Error Box)
    let ((boxes, optional_total), b) ← readBoxes widths frame_count b
    return ((box :: boxes, header.optional + optional_total), b)

structure Streams where
  equal : Bits
  mask : Bits
  encoding : Bits
  raw : Bits
  codes : Bits

/-- The colours that are used, of those from one on. -/
def readKey : (colours : List UInt8) → Reader (List UInt8)
  | [] => return []
  | colour :: colours => do
    let used ← bits data 1
    let key ← readKey colours
    return if used = 1 then colour :: key else key

def readStreams (flags optional_total : Nat) : Reader (List UInt8 × Streams) := do
  if 0 < optional_total then
    modify fun b => { b with pos := (b.pos + 7) / 8 * 8 + optional_total * 8 }
  let equal_size ← if flags &&& 2 ≠ 0 then bits data 20 else pure 0
  let mask_size ← bits data 20
  let encoding_size ← if flags &&& 1 ≠ 0 then bits data 20 else pure 0
  let raw_size ← if flags &&& 1 ≠ 0 then bits data 20 else pure 0
  let key ← readKey data ((List.range 256).map UInt8.ofNat)
  let pos := (← get).pos
  let total := data.length * 8
  let codes_start := pos + equal_size + mask_size + encoding_size + raw_size
  if total < codes_start then throw .truncated
  else
    return (key, {
      equal := .new pos equal_size
      mask := .new (pos + equal_size) mask_size
      encoding := .new (pos + equal_size + mask_size) encoding_size
      raw := .new (pos + equal_size + mask_size + encoding_size) raw_size
      codes := .new codes_start (total - codes_start) })

end Streams

/-! ## Cells -/

/-- The left, top, right and bottom of some boxes. -/
structure Extent where
  left : Int
  top : Int
  right : Int
  bottom : Int

def Box.visible (b : Box) : Bool := 0 < b.width ∧ 0 < b.height

def Extent.widen (e : Extent) (b : Box) : Option Extent := do
  let right ← i32 (b.x + asI32 b.width)
  let bottom ← i32 (b.y + asI32 b.height)
  return ⟨min e.left b.x, min e.top b.y, max e.right right, max e.bottom bottom⟩

def extent (boxes : List Box) : Option Extent :=
  (boxes.filter Box.visible).foldlM Extent.widen ⟨2 ^ 31 - 1, 2 ^ 31 - 1, -2 ^ 31, -2 ^ 31⟩

/-- How many cells have so many pixels beside the first cell and one. -/
def cellCount (rest : Nat) : Option Nat :=
  if rest % 4 = 0 then sub (2 + rest / 4) 1 else some (2 + rest / 4)

/-- Cell sizes along one axis for a frame starting `start` pixels into the buffer and `len` long. -/
def cell_sizes (start len : Nat) : Option (List Nat) :=
  let first := 4 - start % 4
  if len ≤ first + 1 then some [len]
  else do
    let rest ← sub len (first + 1)
    let count ← cellCount rest
    let inner ← sub count 2
    let last ← sub len (first + 4 * inner)
    return ((List.replicate count 4).set 0 first).set (count - 1) last

structure Cell where
  x : Nat
  y : Nat
  w : Nat
  h : Nat
  /-- The frame-buffer cell it stands for. -/
  buffer : Nat
  /-- Unchanged from the buffer cell's last frame. -/
  equal : Bool
  /-- Its pixel-buffer entry, when it has one. -/
  entry : Nat

structure FrameCells where
  x : Nat
  y : Nat
  width : Nat
  height : Nat
  cells : List Cell

/-- Where some sizes begin, one after another. -/
def spans (start : Nat) : List Nat → List (Nat × Nat)
  | [] => []
  | size :: sizes => (start, size) :: spans (start + size) sizes

/-- The cells of a frame, row by row. -/
def cellsOf (buffer_columns fx fy : Nat) (columns rows : List Nat) : List Cell :=
  (spans fy rows).zipIdx.flatMap fun ((cy, ch), j) =>
    (spans fx columns).zipIdx.map fun ((cx, cw), i) =>
      { x := cx, y := cy, w := cw, h := ch
        buffer := (fy / 4 + j) * buffer_columns + fx / 4 + i
        equal := false, entry := 2 ^ 64 - 1 }

def frameCells (left top : Int) (buffer_columns : Nat) (b : Box) : Option FrameCells := do
  let fx := asU64 (← i32 (b.x - left))
  let fy := asU64 (← i32 (b.y - top))
  if b.visible then
    let columns ← cell_sizes fx b.width
    let rows ← cell_sizes fy b.height
    return ⟨fx, fy, b.width, b.height, cellsOf buffer_columns fx fy columns rows⟩
  else return ⟨fx, fy, b.width, b.height, []⟩

/-- The direction's box and the cells of its frames. -/
structure Layout where
  left : Int
  top : Int
  width : Nat
  height : Nat
  buffer_cells : Nat
  frames : List FrameCells

/-- The cells of all frames, in a buffer for a box that has pixels. -/
def layoutIn (e : Extent) (boxes : List Box) : Checked Error Layout := do
  let right ← (liftM (i32 (e.right - e.left)) : Checked Error Int)
  let bottom ← (liftM (i32 (e.bottom - e.top)) : Checked Error Int)
  let width := asU64 right
  let height := asU64 bottom
  if MAX_BUFFER < width * height then throw .corrupt
  else
    let last_column ← (liftM (sub width 1) : Checked Error Nat)
    let last_row ← (liftM (sub height 1) : Checked Error Nat)
    let buffer_columns := 1 + last_column / 4
    let buffer_rows := 1 + last_row / 4
    let frames ← (liftM (boxes.mapM (frameCells e.left e.top buffer_columns)) :
      Checked Error (List FrameCells))
    let buffer_cells := buffer_columns * buffer_rows
    if frames.any fun f => f.cells.any fun c => buffer_cells ≤ c.buffer then throw .corrupt
    else return ⟨e.left, e.top, width, height, buffer_cells, frames⟩

/-- None where no frame has a pixel. -/
def layout (boxes : List Box) : Checked Error (Option Layout) := do
  let e ← (liftM (extent boxes) : Checked Error Extent)
  if e.right < e.left then return none else some <$> layoutIn e boxes

/-! ## Stage 1: each cell's colours -/

abbrev Entry := Vector UInt8 4

/-- An entry has places. -/
local instance neZero_four : NeZero 4 := ⟨by decide⟩

structure Colours where
  streams : Streams
  entries : List Entry
  last_entry : List (Option Nat)

section Stage1

variable (data : List UInt8)

/-- `loop { let step = codes.bits(4)?; p += step; if step != 15 { break; } }`, of at most so many
steps. Each takes bits. -/
def displacement : (fuel p : Nat) → Bits → Checked Error (Nat × Bits)
  | 0, _, _ => throw .truncated
  | fuel + 1, p, codes => do
    let (step, codes) ← (liftM (bits data 4 codes) : Checked Error (Nat × Bits))
    let p ← (liftM (u32 (p + step)) : Checked Error Nat)
    if step ≠ 15 then return (p, codes) else displacement fuel p codes

/-- One pixel: a code as it is, or what is added to the last one. -/
def pixel (raw : Bool) (last : Nat) (s : Streams) : Checked Error (Nat × Streams) :=
  if raw then do
    let (p, b) ← (liftM (bits data 8 s.raw) : Checked Error (Nat × Bits))
    return (p, { s with raw := b })
  else do
    let (p, b) ← displacement data (s.codes.stop - s.codes.pos) last s.codes
    return (p, { s with codes := b })

/-- At most so many pixels more, until one is as the last. -/
def pixels (raw : Bool) : (left last : Nat) → (decoded : List Nat) → Streams →
    Checked Error (List Nat × Streams)
  | 0, _, decoded, s => return (decoded, s)
  | left + 1, last, decoded, s => do
    let (p, s) ← pixel data raw last s
    if p = last then return (decoded, s)
    else if decoded.length < 4 then pixels raw left p (decoded ++ [p]) s
    else (liftM (none : Option (List Nat × Streams)) : Checked Error (List Nat × Streams))

def countOnes (mask : Nat) : Nat := ((List.range 4).filter mask.testBit).length

/-- One slot of an entry, when so many pixels have been taken. -/
def slot (key : List UInt8) (old : Entry) (mask : Nat) (decoded : List Nat) (k : Fin 4)
    (taken : Nat) : Checked Error (UInt8 × Nat) :=
  if mask.testBit k then
    if taken < decoded.length then do
      let last ← (liftM (sub decoded.length 1) : Checked Error Nat)
      let place ← (liftM (sub last taken) : Checked Error Nat)
      let code ← (liftM decoded[place]? : Checked Error Nat)
      match key[code]? with
      | none => throw .corrupt
      | some colour => return (colour, taken + 1)
    else return (0, taken + 1)
  else return (old.get k, taken)

def entryOf (key : List UInt8) (old : Entry) (mask : Nat) (decoded : List Nat) :
    Checked Error Entry := do
  let (a, taken) ← slot key old mask decoded 0 0
  let (b, taken) ← slot key old mask decoded 1 taken
  let (c, taken) ← slot key old mask decoded 2 taken
  let (d, _) ← slot key old mask decoded 3 taken
  return #v[a, b, c, d]

/-- The mask of a cell and whether its pixels are raw; none where it is as it was. -/
def readMask (flags : Nat) (previous : Bool) (s : Streams) :
    Except Error (Option (Nat × Bool) × Streams) := do
  let (equal, b) ← if previous ∧ flags &&& 2 ≠ 0 then bits data 1 s.equal else pure (0, s.equal)
  let s := { s with equal := b }
  if equal = 1 then return (none, s)
  else
    let (mask, b) ← if previous then bits data 4 s.mask else pure (0xF, s.mask)
    let s := { s with mask := b }
    let (raw, b) ←
      if mask ≠ 0 ∧ flags &&& 1 ≠ 0 then bits data 1 s.encoding else pure (0, s.encoding)
    return (some (mask, raw = 1), { s with encoding := b })

/-- `previous.map_or([0; 4], |i| entries[i])` -/
def oldEntry (entries : List Entry) : (previous : Option Nat) → Option Entry
  | none => some (.replicate 4 0)
  | some i => entries[i]?

def cellColours (flags : Nat) (key : List UInt8) (s : Colours) (cell : Cell) :
    Checked Error (Cell × Colours) := do
  let previous ← (liftM s.last_entry[cell.buffer]? : Checked Error (Option Nat))
  match ← (liftM (readMask data flags previous.isSome s.streams) :
      Checked Error (Option (Nat × Bool) × Streams)) with
  | (none, streams) => return ({ cell with equal := true }, { s with streams := streams })
  | (some (mask, raw), streams) =>
    let (decoded, streams) ← pixels data raw (countOnes mask) 0 [] streams
    let old ← (liftM (oldEntry s.entries previous) : Checked Error Entry)
    let entry ← entryOf key old mask decoded
    return ({ cell with entry := s.entries.length }, {
      streams := streams
      entries := s.entries ++ [entry]
      last_entry := s.last_entry.set cell.buffer (some s.entries.length) })

def cellsColours (flags : Nat) (key : List UInt8) : Colours → List Cell →
    Checked Error (List Cell × Colours)
  | s, [] => return ([], s)
  | s, cell :: cells => do
    let (cell, s) ← cellColours data flags key s cell
    let (cells, s) ← cellsColours flags key s cells
    return (cell :: cells, s)

def stage1 (flags : Nat) (key : List UInt8) : Colours → List FrameCells →
    Checked Error (List FrameCells × Colours)
  | s, [] => return ([], s)
  | s, frame :: frames => do
    let (cells, s) ← cellsColours data flags key s frame.cells
    let (frames, s) ← stage1 flags key s frames
    return ({ frame with cells := cells } :: frames, s)

end Stage1

/-! ## Stage 2: paint the cells -/

structure Rect where
  x : Nat
  y : Nat
  w : Nat
  h : Nat
deriving DecidableEq

def Cell.rect (c : Cell) : Rect := ⟨c.x, c.y, c.w, c.h⟩

structure Painting where
  codes : Bits
  canvas : List UInt8
  last_cell : List (Option Rect)

section Stage2

variable (data : List UInt8) (width : Nat)

/-- The rows of a place on the canvas. -/
def readRect (canvas : List UInt8) (r : Rect) : Option (List (List UInt8)) :=
  (List.range r.h).mapM fun row =>
    let start := (r.y + row) * width + r.x
    slice canvas start (start + r.w)

/-- Rows are put at a place, from one row of it on. -/
def writeRows (x y : Nat) : (canvas : List UInt8) → List (List UInt8) → Option (List UInt8)
  | canvas, [] => some canvas
  | canvas, row :: rows => do
    let canvas ← overwrite canvas (y * width + x) row
    writeRows x (y + 1) canvas rows

/-- How many bits tell a pixel's colour. -/
def pixelBits (entry : Entry) : Nat :=
  if entry.get 0 = entry.get 1 then 0 else if entry.get 1 = entry.get 2 then 1 else 2

def readRow (entry : Entry) : (columns : Nat) → Bits → Checked Error (List UInt8 × Bits)
  | 0, codes => return ([], codes)
  | columns + 1, codes => do
    let (index, codes) ← (liftM (bits data (pixelBits entry) codes) : Checked Error (Nat × Bits))
    let colour ← (liftM entry.toList[index]? : Checked Error UInt8)
    let (row, codes) ← readRow entry columns codes
    return (colour :: row, codes)

/-- Rows of pixels are painted, from one row on. -/
def paintRows (entry : Entry) (x w : Nat) : (rows y : Nat) → Bits → List UInt8 →
    Checked Error (Bits × List UInt8)
  | 0, _, codes, canvas => return (codes, canvas)
  | rows + 1, y, codes, canvas => do
    let (row, codes) ← readRow data entry w codes
    let canvas ← (liftM (overwrite canvas (y * width + x) row) : Checked Error (List UInt8))
    paintRows entry x w rows (y + 1) codes canvas

/-- A cell that is as it was is copied, or cleared where it has another size. -/
def repeatCell (canvas : List UInt8) (last r : Rect) : Option (List UInt8) :=
  if last.w = r.w ∧ last.h = r.h then do
    let rows ← readRect width canvas last
    writeRows width r.x r.y canvas rows
  else writeRows width r.x r.y canvas (List.replicate r.h (List.replicate r.w 0))

def paintPixels (entries : List Entry) (p : Painting) (cell : Cell) :
    Checked Error (Bits × List UInt8) :=
  match entries[cell.entry]? with
  | none => throw .corrupt
  | some entry => paintRows data width entry cell.x cell.w cell.h cell.y p.codes p.canvas

/-- What is painted of a cell, where its place in the buffer was painted last or not at all. -/
def paintOver (entries : List Entry) (p : Painting) (cell : Cell) (last : Option Rect) :
    Checked Error (Bits × List UInt8) :=
  match last, cell.equal with
  | some last, true => do
    let canvas ← (liftM (repeatCell width p.canvas last cell.rect) : Checked Error (List UInt8))
    return (p.codes, canvas)
  | _, _ => paintPixels data width entries p cell

def paintCell (entries : List Entry) (p : Painting) (cell : Cell) : Checked Error Painting := do
  let last ← (liftM p.last_cell[cell.buffer]? : Checked Error (Option Rect))
  let (codes, canvas) ← paintOver data width entries p cell last
  return ⟨codes, canvas, p.last_cell.set cell.buffer (some cell.rect)⟩

def copyRow (canvas : List UInt8) (f : FrameCells) (row : Nat) (pixels : List UInt8) :
    Option (List UInt8) := do
  let at_ ← usize (row * width)
  let start ← usize (at_ + f.x)
  let stop ← usize (start + f.width)
  let part ← slice canvas start stop
  overwrite pixels start part

def copyRows (canvas : List UInt8) (f : FrameCells) : (rows : List Nat) → (pixels : List UInt8) →
    Option (List UInt8)
  | [], pixels => some pixels
  | row :: rows, pixels => do
    let pixels ← copyRow width canvas f row pixels
    copyRows canvas f rows pixels

def copyOut (height : Nat) (canvas : List UInt8) (f : FrameCells) : Option (List UInt8) := do
  let _ ← usize (f.y + f.height)
  copyRows width canvas f (List.range' f.y f.height) (List.replicate (width * height) 0)

def paintFrame (entries : List Entry) (p : Painting) (f : FrameCells) : Checked Error Painting :=
  f.cells.foldlM (paintCell data width entries) p

def stage2 (height : Nat) (entries : List Entry) : Painting → List FrameCells →
    Checked Error (List (List UInt8) × Painting)
  | p, [] => return ([], p)
  | p, f :: frames => do
    let p ← paintFrame data width entries p f
    let pixels ← (liftM (copyOut width height p.canvas f) : Checked Error (List UInt8))
    let (out, p) ← stage2 height entries p frames
    return (pixels :: out, p)

end Stage2

/-! ## Directions -/

/-- One direction's frames, all in the direction's bounding box. -/
structure Direction where
  left : Int
  top : Int
  width : Nat
  height : Nat
  frames : List (List UInt8)

/-- What is read of a direction before its cells. -/
structure Headers where
  flags : Nat
  boxes : List Box
  key : List UInt8
  streams : Streams

def readHeaders (data : List UInt8) (frame_count : Nat) : Checked Error Headers := do
  let ((flags, widths), b) ← (liftM (readOpening data (.new 0 (data.length * 8))) :
    Checked Error ((Nat × Widths) × Bits))
  let ((boxes, optional_total), b) ← readBoxes data widths frame_count b
  let ((key, streams), _) ← (liftM (readStreams data flags optional_total b) :
    Checked Error ((List UInt8 × Streams) × Bits))
  return ⟨flags, boxes, key, streams⟩

/-- The colours before the first cell. -/
def Headers.start (h : Headers) (l : Layout) : Colours :=
  ⟨h.streams, [], List.replicate l.buffer_cells none⟩

/-- The canvas before the first frame. -/
def Layout.blank (l : Layout) (codes : Bits) : Painting :=
  ⟨codes, List.replicate (l.width * l.height) 0, List.replicate l.buffer_cells none⟩

def decode_direction (data : List UInt8) (frame_count : Nat) : Checked Error Direction := do
  let h ← readHeaders data frame_count
  match ← layout h.boxes with
  | none => return ⟨0, 0, 0, 0, List.replicate frame_count []⟩
  | some l =>
    let (frames, s) ← stage1 data h.flags h.key (h.start l) l.frames
    let (out, _) ← stage2 data l.width l.height s.entries (l.blank s.streams.codes) frames
    return ⟨l.left, l.top, l.width, l.height, out⟩

structure Dcc where
  bytes : List UInt8
  directions : Nat
  frames : Nat
  offsets : List Nat

def Dcc.parse (bytes : List UInt8) : Checked Error Dcc :=
  if bytes.length < 15 then throw .truncated
  else do
    let magic ← (liftM bytes[0]? : Checked Error UInt8)
    if magic ≠ 0x74 then throw .corrupt
    else
      let directions := (← (liftM bytes[2]? : Checked Error UInt8)).toNat
      let count ← (liftM (slice bytes 3 7) : Checked Error (List UInt8))
      let frames ← (liftM (leWords count).head? : Checked Error Nat)
      if directions = 0 ∨ 32 < directions ∨ 256 < frames then throw .corrupt
      else if bytes.length < 15 + directions * 4 then throw .truncated
      else
        let offsets := leWords ((bytes.take (15 + directions * 4)).drop 15)
        if offsets.any fun o => bytes.length < o then throw .corrupt
        else return ⟨bytes, directions, frames, offsets⟩

def Dcc.data (dcc : Dcc) (index : Nat) : Except Error (List UInt8) :=
  match dcc.offsets[index]? with
  | none => .error .noDirection
  | some start =>
    let stop := dcc.offsets[index + 1]?.getD dcc.bytes.length
    match slice dcc.bytes start (max stop start) with
    | none => .error .truncated
    | some data => .ok data

def Dcc.direction (dcc : Dcc) (index : Nat) : Checked Error Direction := do
  let data ← (liftM (dcc.data index) : Checked Error (List UInt8))
  decode_direction data dcc.frames

end CommandCenter.Formats.Animation
