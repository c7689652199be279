import CommandCenter.Formats.Dcc

/-!
# DC6 sprites

`crates/d2-formats/src/dc6.rs`: the menus, fonts, inventory pictures and loading screens. Each frame
is run-length coded palette indices, 0 left transparent.

* `Dc6.parse`: a file.
* `parse_safe`: no file makes it panic, and every frame has its pixels.
-/

namespace CommandCenter.Formats.Sprite

open Rust Animation

/-- Why a DC6 could not be read. -/
inductive Error where
  /-- The file ended early. -/
  | truncated
  /-- A count, size or offset is impossible. -/
  | corrupt
deriving DecidableEq

/-- Largest side a frame may claim. -/
def MAX_SIDE : Nat := 4096

structure Frame where
  width : Nat
  height : Nat
  /-- Horizontal offset of the frame's left edge from the sprite's anchor. -/
  offset_x : Int
  /-- Vertical offset of the frame's bottom edge from the sprite's anchor. -/
  offset_y : Int
  /-- Palette indices, top row first; 0 is transparent. -/
  pixels : List UInt8
deriving DecidableEq

structure Dc6 where
  directions : Nat
  frames_per_direction : Nat
  /-- Every frame, direction by direction. -/
  frames : List Frame
deriving DecidableEq

/-! ## Reading -/

/-- `bytes.get(start..stop).ok_or(Error::Truncated)` -/
def get (bytes : List UInt8) (start stop : Nat) : Except Error (List UInt8) :=
  match slice bytes start stop with
  | some part => .ok part
  | none => .error .truncated

def u32_at (bytes : List UInt8) (place : Nat) : Except Error Nat := do
  return leValue (← get bytes place (place + 4))

def word (head : List UInt8) (i : Nat) : Option Nat := do
  return leValue (← slice head i (i + 4))

/-- `pixels[i] = p` -/
def setAt (pixels : List UInt8) (i : Nat) (p : UInt8) : Option (List UInt8) :=
  if i < pixels.length then some (pixels.set i p) else none

/-- A pixel of a row that begins at `start`, unless it is beyond the row's `w` pixels. -/
def put (start w x : Nat) (p : UInt8) (pixels : List UInt8) : Option (List UInt8) :=
  if x < w then setAt pixels (start + x) p else some pixels

def copyRun (start w : Nat) : (x : Nat) → (run pixels : List UInt8) → Option (List UInt8)
  | _, [], pixels => some pixels
  | x, p :: run, pixels => do copyRun start w (x + 1) run (← put start w x p pixels)

/-- Rows are counted from the first one the data writes. -/
def yOf (flipped : Bool) (h row : Nat) : Option Nat :=
  if flipped then some row else do sub (← sub h 1) row

/-- The rows that some data writes, from a place in a row on. -/
def decode (flipped : Bool) (w h : Nat) (data : List UInt8) (row x : Nat) (pixels : List UInt8) :
    Checked Error (List UInt8) :=
  match data with
  | [] => return pixels
  | b :: data =>
    if h ≤ row then return pixels
    else if b = 0x80 then decode flipped w h data (row + 1) 0 pixels
    else if b &&& 0x80 ≠ 0 then decode flipped w h data row (x + (b &&& 0x7F).toNat) pixels
    else if data.length < b.toNat then throw .truncated
    else do
      let y ← (liftM (yOf flipped h row) : Checked Error Nat)
      let pixels ← (liftM (copyRun (y * w) w x (data.take b.toNat) pixels) :
        Checked Error (List UInt8))
      decode flipped w h (data.drop b.toNat) row (x + b.toNat) pixels
termination_by data.length
decreasing_by all_goals (simp only [List.length_drop, List.length_cons]; omega)

def pixelsOf (flipped : Bool) (w h : Nat) (data : List UInt8) : Checked Error (List UInt8) :=
  if 0 < w ∧ 0 < h then decode flipped w h data 0 0 (List.replicate (w * h) 0)
  else return List.replicate (w * h) 0

def frame (bytes : List UInt8) (place : Nat) : Checked Error Frame := do
  let head ← (liftM (get bytes place (place + 32)) : Checked Error (List UInt8))
  let flipped ← (liftM (word head 0) : Checked Error Nat)
  let width ← (liftM (word head 4) : Checked Error Nat)
  let height ← (liftM (word head 8) : Checked Error Nat)
  let offset_x ← (liftM (word head 12) : Checked Error Nat)
  let offset_y ← (liftM (word head 16) : Checked Error Nat)
  let length ← (liftM (word head 28) : Checked Error Nat)
  if MAX_SIDE < width ∨ MAX_SIDE < height then throw .corrupt
  else do
    let data ← (liftM (get bytes (place + 32) (place + 32 + length)) : Checked Error (List UInt8))
    let pixels ← pixelsOf (flipped ≠ 0) width height data
    return ⟨width, height, asI32 offset_x, asI32 offset_y, pixels⟩

/-- How many frames a file has, unless there are too many. -/
def frameCount (directions frames_per_direction : Nat) : Option Nat :=
  (u32 (directions * frames_per_direction)).filter (· ≤ 0x10000)

def readFrames (bytes : List UInt8) : (count i : Nat) → Checked Error (List Frame)
  | 0, _ => return []
  | count + 1, i => do
    let place ← (liftM (u32_at bytes (0x18 + i * 4)) : Checked Error Nat)
    let f ← frame bytes place
    let frames ← readFrames bytes count (i + 1)
    return f :: frames

def Dc6.parse (bytes : List UInt8) : Checked Error Dc6 := do
  let version ← (liftM (u32_at bytes 0) : Checked Error Nat)
  if version ≠ 6 then throw .corrupt
  else do
    let directions ← (liftM (u32_at bytes 0x10) : Checked Error Nat)
    let frames_per_direction ← (liftM (u32_at bytes 0x14) : Checked Error Nat)
    match frameCount directions frames_per_direction with
    | none => throw .corrupt
    | some count => do
      let frames ← readFrames bytes count 0
      return ⟨directions, frames_per_direction, frames⟩

/-! ## Any file is read without a panic -/

section Safety

theorem put_safe {start w x : Nat} {p : UInt8} {pixels : List UInt8}
    (h : start + w ≤ pixels.length) :
    ∃ pixels', put start w x p pixels = some pixels' ∧ pixels'.length = pixels.length := by
  unfold put
  split
  · exact ⟨_, if_pos (by omega), List.length_set⟩
  · exact ⟨_, rfl, rfl⟩

theorem copyRun_safe {start w : Nat} (x : Nat) (run : List UInt8) {pixels : List UInt8}
    (h : start + w ≤ pixels.length) :
    ∃ pixels', copyRun start w x run pixels = some pixels' ∧ pixels'.length = pixels.length := by
  induction run generalizing x pixels with
  | nil => exact ⟨pixels, rfl, rfl⟩
  | cons p run ih =>
    obtain ⟨pixels', hput, hlength⟩ := put_safe (p := p) (x := x) h
    obtain ⟨pixels'', hmore, hlength'⟩ := ih (x + 1) (hlength.symm ▸ h)
    refine ⟨pixels'', ?_, hlength'.trans hlength⟩
    rw [copyRun, hput]
    exact hmore

theorem yOf_safe (flipped : Bool) {h row : Nat} (hrow : row < h) :
    ∃ y, yOf flipped h row = some y ∧ y < h := by
  unfold yOf
  cases flipped with
  | true => exact ⟨row, rfl, hrow⟩
  | false =>
    have hlast : sub h 1 = some (h - 1) := if_pos (by omega)
    have hy : sub (h - 1) row = some (h - 1 - row) := if_pos (by omega)
    refine ⟨h - 1 - row, ?_, by omega⟩
    rw [if_neg Bool.false_ne_true, hlast]
    exact hy

theorem row_within {w h y : Nat} (hy : y < h) : y * w + w ≤ w * h := by
  have hmul := Nat.mul_le_mul_left w (show y + 1 ≤ h from hy)
  rw [Nat.mul_succ, Nat.mul_comm w y] at hmul
  exact hmul

theorem copied {flipped : Bool} {w h row x y : Nat} {run pixels pixels' : List UInt8}
    {f : List UInt8 → Checked Error (List UInt8)} (hy : yOf flipped h row = some y)
    (hcopy : copyRun (y * w) w x run pixels = some pixels') :
    (do
      let y ← (liftM (yOf flipped h row) : Checked Error Nat)
      let pixels ← (liftM (copyRun (y * w) w x run pixels) : Checked Error (List UInt8))
      f pixels) = f pixels' := by
  rw [hy]
  show (liftM (copyRun (y * w) w x run pixels) >>= f : Checked Error (List UInt8)) = _
  rw [hcopy]
  rfl

/-- Rows are written within the picture, which keeps its size. -/
theorem decode_safe {flipped : Bool} {w h : Nat} {data : List UInt8} {row x : Nat}
    {pixels : List UInt8} (hpixels : pixels.length = w * h) :
    decode flipped w h data row x pixels ≠ none ∧ ∀ out,
      decode flipped w h data row x pixels = some (.ok out) → out.length = w * h := by
  fun_induction decode flipped w h data row x pixels with
  | case1 row x pixels =>
    refine ⟨Option.some_ne_none _, fun out hout => ?_⟩
    rw [← Except.ok.inj (Option.some.inj hout)]
    exact hpixels
  | case2 row x pixels b data hrow =>
    refine ⟨Option.some_ne_none _, fun out hout => ?_⟩
    rw [← Except.ok.inj (Option.some.inj hout)]
    exact hpixels
  | case3 row x pixels data hrow ih => exact ih hpixels
  | case4 row x pixels b data hrow _ _ ih => exact ih hpixels
  | case5 row x pixels b data hrow _ _ hshort =>
    refine ⟨Option.some_ne_none _, fun out hout => ?_⟩
    cases Option.some.inj hout
  | case6 row x pixels b data hrow _ _ hlong ih =>
    obtain ⟨y, hy, hlt⟩ := yOf_safe flipped (Nat.lt_of_not_le hrow)
    obtain ⟨pixels', hcopy, hlength⟩ := copyRun_safe x (data.take b.toNat)
      (show y * w + w ≤ pixels.length from hpixels ▸ row_within hlt)
    rw [copied hy hcopy]
    exact ih pixels' (hlength.trans hpixels)

theorem pixelsOf_safe (flipped : Bool) (w h : Nat) (data : List UInt8) :
    pixelsOf flipped w h data ≠ none ∧ ∀ out, pixelsOf flipped w h data = some (.ok out) →
      out.length = w * h := by
  unfold pixelsOf
  split
  · exact decode_safe List.length_replicate
  · refine ⟨Option.some_ne_none _, fun out hout => ?_⟩
    rw [← Except.ok.inj (Option.some.inj hout)]
    exact List.length_replicate

theorem word_ne_none {head : List UInt8} {i : Nat} (h : i + 4 ≤ head.length) : word head i ≠ none := by
  unfold word
  rw [slice_eq (Nat.le_add_right i 4) h]
  exact Option.some_ne_none _

theorem length_get {bytes part : List UInt8} {start stop : Nat} (h : get bytes start stop = .ok part) :
    part.length = stop - start := by
  unfold get at h
  split at h
  · rename_i part' hslice
    rw [← Except.ok.inj h]
    exact length_slice hslice
  · cases h

theorem frame_safe (bytes : List UInt8) (place : Nat) :
    frame bytes place ≠ none ∧ ∀ f, frame bytes place = some (.ok f) →
      f.pixels.length = f.width * f.height := by
  constructor
  · refine Checked.bind_ne_none.mpr ⟨Checked.lift_ne_none _, fun head hhead => ?_⟩
    have hlength := length_get (Checked.lift_eq_ok.mp hhead)
    rw [Nat.add_sub_cancel_left] at hlength
    have hword : ∀ i ≤ 28, (liftM (word head i) : Checked Error Nat) ≠ none := fun i hi =>
      Checked.liftOption_ne_none.mpr (word_ne_none (by omega))
    refine Checked.bind_ne_none.mpr ⟨hword 0 (by decide), fun flipped _ => ?_⟩
    refine Checked.bind_ne_none.mpr ⟨hword 4 (by decide), fun width _ => ?_⟩
    refine Checked.bind_ne_none.mpr ⟨hword 8 (by decide), fun height _ => ?_⟩
    refine Checked.bind_ne_none.mpr ⟨hword 12 (by decide), fun offset_x _ => ?_⟩
    refine Checked.bind_ne_none.mpr ⟨hword 16 (by decide), fun offset_y _ => ?_⟩
    refine Checked.bind_ne_none.mpr ⟨hword 28 (by decide), fun length _ => ?_⟩
    refine Checked.guard_ne_none.mpr fun _ => ?_
    refine Checked.bind_ne_none.mpr ⟨Checked.lift_ne_none _, fun data _ => ?_⟩
    exact Checked.bind_ne_none.mpr ⟨(pixelsOf_safe _ width height data).1,
      fun _ _ => Option.some_ne_none _⟩
  · intro f h
    obtain ⟨head, _, h⟩ := Checked.bind_eq_ok.mp h
    obtain ⟨flipped, _, h⟩ := Checked.bind_eq_ok.mp h
    obtain ⟨width, _, h⟩ := Checked.bind_eq_ok.mp h
    obtain ⟨height, _, h⟩ := Checked.bind_eq_ok.mp h
    obtain ⟨offset_x, _, h⟩ := Checked.bind_eq_ok.mp h
    obtain ⟨offset_y, _, h⟩ := Checked.bind_eq_ok.mp h
    obtain ⟨length, _, h⟩ := Checked.bind_eq_ok.mp h
    obtain ⟨_, h⟩ := Checked.guard_eq_ok.mp h
    obtain ⟨data, _, h⟩ := Checked.bind_eq_ok.mp h
    obtain ⟨pixels, hpixels, h⟩ := Checked.bind_eq_ok.mp h
    obtain rfl := Except.ok.inj (Option.some.inj h)
    exact (pixelsOf_safe _ width height data).2 pixels hpixels

theorem readFrames_safe (bytes : List UInt8) (count i : Nat) :
    readFrames bytes count i ≠ none ∧ ∀ frames, readFrames bytes count i = some (.ok frames) →
      ∀ f ∈ frames, f.pixels.length = f.width * f.height := by
  induction count generalizing i with
  | zero =>
    refine ⟨Option.some_ne_none _, fun frames h => ?_⟩
    rw [← Except.ok.inj (Option.some.inj h)]
    intro f hf
    cases hf
  | succ count ih =>
    constructor
    · refine Checked.bind_ne_none.mpr ⟨Checked.lift_ne_none _, fun place _ => ?_⟩
      refine Checked.bind_ne_none.mpr ⟨(frame_safe bytes place).1, fun f _ => ?_⟩
      exact Checked.bind_ne_none.mpr ⟨(ih (i + 1)).1, fun _ _ => Option.some_ne_none _⟩
    · intro frames h
      obtain ⟨place, _, h⟩ := Checked.bind_eq_ok.mp h
      obtain ⟨f, hf, h⟩ := Checked.bind_eq_ok.mp h
      obtain ⟨more, hmore, h⟩ := Checked.bind_eq_ok.mp h
      obtain rfl := Except.ok.inj (Option.some.inj h)
      exact List.forall_mem_cons.mpr ⟨(frame_safe bytes place).2 f hf, (ih (i + 1)).2 more hmore⟩

/-- No file makes the reader panic, and every frame of a sprite has its pixels. -/
theorem parse_safe (bytes : List UInt8) :
    Dc6.parse bytes ≠ none ∧ ∀ sprite, Dc6.parse bytes = some (.ok sprite) →
      ∀ f ∈ sprite.frames, f.pixels.length = f.width * f.height := by
  constructor
  · refine Checked.bind_ne_none.mpr ⟨Checked.lift_ne_none _, fun version _ => ?_⟩
    refine Checked.guard_ne_none.mpr fun _ => ?_
    refine Checked.bind_ne_none.mpr ⟨Checked.lift_ne_none _, fun directions _ => ?_⟩
    refine Checked.bind_ne_none.mpr ⟨Checked.lift_ne_none _, fun frames_per_direction _ => ?_⟩
    split
    · exact Option.some_ne_none _
    · rename_i count _
      exact Checked.bind_ne_none.mpr ⟨(readFrames_safe bytes count 0).1,
        fun _ _ => Option.some_ne_none _⟩
  · intro sprite h
    obtain ⟨version, _, h⟩ := Checked.bind_eq_ok.mp h
    obtain ⟨_, h⟩ := Checked.guard_eq_ok.mp h
    obtain ⟨directions, _, h⟩ := Checked.bind_eq_ok.mp h
    obtain ⟨frames_per_direction, _, h⟩ := Checked.bind_eq_ok.mp h
    split at h
    · cases Option.some.inj h
    · rename_i count _
      obtain ⟨frames, hframes, h⟩ := Checked.bind_eq_ok.mp h
      obtain rfl := Except.ok.inj (Option.some.inj h)
      exact (readFrames_safe bytes count 0).2 frames hframes

end Safety

end CommandCenter.Formats.Sprite
