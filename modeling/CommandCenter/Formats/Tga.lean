import CommandCenter.Formats.Bni
import CommandCenter.Formats.Dcc
import CommandCenter.Rust.Chunks

/-!
# The picture of an icon file

`crates/bnetcc-icons/src/tga.rs`: the one kind of TGA that an icon file holds, run-length encoded
true colour. It is stored bottom up unless its header says otherwise, and blue first.

* `decode`, `encode`: reading and writing a picture.
* `decode_ne_none`, `decode_ok`: no bytes make the reader panic, and a picture that is read has all
  its pixels.
-/

namespace CommandCenter.Formats.Tga

open Rust Animation

/-- A decoded image, red first and the top row first. -/
structure Image where
  width : Nat
  height : Nat
  pixels : List UInt8
deriving DecidableEq

/-! ## Reading -/

/-- What is read of the eighteen bytes of a header. -/
structure Header where
  idLen : Nat
  imageType : UInt8
  width : Nat
  height : Nat
  depth : UInt8
  topDown : Bool

def readHeader (header : List UInt8) : Option Header := do
  let idLen ← header[0]?
  let imageType ← header[2]?
  let width := fromLeBytes (← header[12]?) (← header[13]?)
  let height := fromLeBytes (← header[14]?) (← header[15]?)
  let depth ← header[16]?
  let descriptor ← header[17]?
  return ⟨idLen.toNat, imageType, width.toNat, height.toNat, depth, descriptor &&& 0x20 ≠ 0⟩

/-- What packets hold, until there are the pixels that are wanted. -/
def unpack (bytesPerPixel wanted : Nat) (data bgr : List UInt8) : Checked Unit (List UInt8) :=
  if bgr.length < wanted * 3 then
    match data with
    | [] => throw ()
    | packet :: data =>
      let count := (packet &&& 0x7F).toNat + 1
      if packet &&& 0x80 ≠ 0 then
        -- one pixel repeated
        if data.length < bytesPerPixel then throw ()
        else do
          let pixel ← (liftM (slice (data.take bytesPerPixel) 0 3) : Checked Unit (List UInt8))
          unpack bytesPerPixel wanted (data.drop bytesPerPixel)
            (bgr ++ (List.replicate count pixel).flatten)
      else if data.length < count * bytesPerPixel then throw ()
      else do
        let run ← (liftM ((chunksExact bytesPerPixel (data.take (count * bytesPerPixel))).mapM
          fun pixel => slice pixel 0 3) : Checked Unit (List (List UInt8)))
        unpack bytesPerPixel wanted (data.drop (count * bytesPerPixel)) (bgr ++ run.flatten)
  else return bgr
termination_by data.length
decreasing_by all_goals (simp only [List.length_drop, List.length_cons]; omega)

/-- A pixel with red first. -/
def swap (src : List UInt8) : Option (List UInt8) := do
  return [← src[2]?, ← src[1]?, ← src[0]?]

/-- Which of the rows that are stored is the one at `y`, counted from the top. -/
def storedAt (topDown : Bool) (height y : Nat) : Option Nat :=
  if topDown then some y else do sub (← sub height 1) y

def turnRow (topDown : Bool) (height stride : Nat) (bgr pixels : List UInt8) (y : Nat) :
    Option (List UInt8) := do
  let place ← storedAt topDown height y
  let row ← slice bgr (place * stride) (place * stride + stride)
  let out ← (chunksExact 3 row).mapM swap
  overwrite pixels (y * stride) out.flatten

/-- Decode the TGA that an icon file embeds; the error is `None`. -/
def decode (bytes : List UInt8) : Checked Unit Image :=
  if bytes.length < 18 then throw ()
  else do
    let header ← (liftM (readHeader (bytes.take 18)) : Checked Unit Header)
    if header.imageType ≠ 10 ∨ (header.depth ≠ 24 ∧ header.depth ≠ 32) ∨ header.width = 0 ∨
        header.height = 0 then throw ()
    else if bytes.length < 18 + header.idLen then throw ()
    else do
      let wanted ← (liftM (u32 (header.width * header.height)) : Checked Unit Nat)
      let bgr ← unpack (header.depth / 8).toNat wanted (bytes.drop (18 + header.idLen)) []
      let stride ← (liftM (u32 (header.width * 3)) : Checked Unit Nat)
      let pixels ← (liftM ((List.range header.height).foldlM
        (turnRow header.topDown header.height stride (bgr.take (wanted * 3)))
        (List.replicate (wanted * 3) 0)) : Checked Unit (List UInt8))
      return ⟨header.width, header.height, pixels⟩

/-- Some rows from one of them on, unless the image is not that tall; the error is `None`. -/
def rows (image : Image) (top height : Nat) : Checked Unit (List UInt8) :=
  if 2 ^ 32 ≤ top + height ∨ image.height < top + height then throw ()
  else do
    let stride ← (liftM (u32 (image.width * 3)) : Checked Unit Nat)
    match slice image.pixels (top * stride) (top * stride + height * stride) with
    | some pixels => return pixels
    | none => throw ()

/-! ## Writing -/

structure Bgr where
  b : UInt8
  g : UInt8
  r : UInt8
deriving DecidableEq

def Bgr.bytes (p : Bgr) : List UInt8 := [p.b, p.g, p.r]

def readRow (w : Nat) (rgb : List UInt8) (y : Nat) : Option (List Bgr) :=
  (List.range w).mapM fun x => do
    let i := (y * w + x) * 3
    return ⟨← rgb[i + 2]?, ← rgb[i + 1]?, ← rgb[i]?⟩

/-- How many pixels from `x` on are the same, when so many are known to be. -/
def runFrom (row : List Bgr) (x run : Nat) : Nat :=
  if x + run < row.length ∧ run < 128 ∧ row[x + run]? = row[x]? then runFrom row x (run + 1)
  else run
termination_by 128 - run

/-- Where some pixels that are not the same end. -/
def literalTo (row : List Bgr) (start x : Nat) : Nat :=
  if x < row.length ∧ x - start < 128 ∧ (row.length ≤ x + 1 ∨ row[x + 1]? ≠ row[x]?) then
    literalTo row start (x + 1)
  else x
termination_by row.length - x

/-- The packets of a row from one of its pixels on. -/
def encodeRow (row : List Bgr) (x : Nat) : Option (List UInt8) :=
  if hx : x < row.length then
    let run := runFrom row x 1
    if hrun : 1 < run then do
      let packets ← encodeRow row (x + run)
      return (0x80 ||| .ofNat (run - 1)) :: (row[x].bytes ++ packets)
    else
      let stop := literalTo row x x
      -- The count is one less than the pixels, of which there must be one.
      if hstop : x < stop then do
        let pixels ← slice row x stop
        let packets ← encodeRow row stop
        return .ofNat (stop - x - 1) :: (pixels.flatMap Bgr.bytes ++ packets)
      else none
  else some []
termination_by row.length - x

def headerOf (width height : Nat) : List UInt8 :=
  [0, 0, Bni.tgaRleTruecolor, 0, 0, 0, 0, 0, 0, 0, 0, 0] ++ toLeBytes (.ofNat width) ++
    toLeBytes (.ofNat height) ++ [24, 0x20]

/-- Pixels, red first and the top row first, as a TGA. -/
def encode (width height : Nat) (rgb : List UInt8) : Option (List UInt8) := do
  let packets ← (List.range height).mapM fun y => do encodeRow (← readRow width rgb y) 0
  return headerOf width height ++ packets.flatten

/-! ## Any bytes are read without a panic -/

section Safety

theorem readHeader_ne_none {header : List UInt8} (h : header.length = 18) :
    readHeader header ≠ none := by
  have hbyte : ∀ i < 18, ∃ b, header[i]? = some b := fun i hi =>
    ⟨header[i], List.getElem?_eq_getElem (by omega)⟩
  obtain ⟨b₀, h₀⟩ := hbyte 0 (by omega)
  obtain ⟨b₂, h₂⟩ := hbyte 2 (by omega)
  obtain ⟨b₁₂, h₁₂⟩ := hbyte 12 (by omega)
  obtain ⟨b₁₃, h₁₃⟩ := hbyte 13 (by omega)
  obtain ⟨b₁₄, h₁₄⟩ := hbyte 14 (by omega)
  obtain ⟨b₁₅, h₁₅⟩ := hbyte 15 (by omega)
  obtain ⟨b₁₆, h₁₆⟩ := hbyte 16 (by omega)
  obtain ⟨b₁₇, h₁₇⟩ := hbyte 17 (by omega)
  unfold readHeader
  rw [h₀, h₂, h₁₂, h₁₃, h₁₄, h₁₅, h₁₆, h₁₇]
  exact Option.some_ne_none _

theorem readHeader_sizes {bytes : List UInt8} {header : Header} (h : readHeader bytes = some header) :
    header.width < 2 ^ 16 ∧ header.height < 2 ^ 16 := by
  unfold readHeader at h
  obtain ⟨_, _, h⟩ := Option.bind_eq_some_iff.mp h
  obtain ⟨_, _, h⟩ := Option.bind_eq_some_iff.mp h
  obtain ⟨_, _, h⟩ := Option.bind_eq_some_iff.mp h
  obtain ⟨_, _, h⟩ := Option.bind_eq_some_iff.mp h
  obtain ⟨_, _, h⟩ := Option.bind_eq_some_iff.mp h
  obtain ⟨_, _, h⟩ := Option.bind_eq_some_iff.mp h
  obtain ⟨_, _, h⟩ := Option.bind_eq_some_iff.mp h
  obtain ⟨_, _, h⟩ := Option.bind_eq_some_iff.mp h
  obtain rfl := Option.some.inj h
  exact ⟨UInt16.toNat_lt _, UInt16.toNat_lt _⟩

theorem slice_pixel {n : Nat} {pixel : List UInt8} (hn : 3 ≤ n) (h : pixel.length = n) :
    slice pixel 0 3 ≠ none := by
  rw [slice_eq (Nat.zero_le 3) (by omega)]
  exact Option.some_ne_none _

/-- Packets give the pixels that are wanted, or else there are too few of them. -/
theorem unpack_safe {n wanted : Nat} (hn : 3 ≤ n) (data bgr : List UInt8) :
    unpack n wanted data bgr ≠ none ∧ ∀ out, unpack n wanted data bgr = some (.ok out) →
      wanted * 3 ≤ out.length := by
  fun_induction unpack n wanted data bgr with
  | case1 bgr hfew => exact ⟨Option.some_ne_none _, fun out h => by cases Option.some.inj h⟩
  | case2 bgr hfew packet data hrun hshort =>
    exact ⟨Option.some_ne_none _, fun out h => by cases Option.some.inj h⟩
  | case3 bgr hfew packet data count hrun hroom ih =>
    have hpixel : slice (data.take n) 0 3 ≠ none := by
      refine slice_pixel hn ?_
      rw [List.length_take]
      omega
    constructor
    · exact Checked.bind_ne_none.mpr ⟨Checked.liftOption_ne_none.mpr hpixel, fun pixel _ => (ih pixel).1⟩
    · intro out h
      obtain ⟨pixel, _, h⟩ := Checked.bind_eq_ok.mp h
      exact (ih pixel).2 out h
  | case4 bgr hfew packet data count hrun hshort =>
    exact ⟨Option.some_ne_none _, fun out h => by cases Option.some.inj h⟩
  | case5 bgr hfew packet data count hrun hroom ih =>
    have hpixels : (chunksExact n (data.take (count * n))).mapM (fun pixel => slice pixel 0 3) ≠ none :=
      mapM_ne_none.mpr fun pixel hpixel => slice_pixel hn (length_of_mem_chunksExact hpixel)
    constructor
    · exact Checked.bind_ne_none.mpr ⟨Checked.liftOption_ne_none.mpr hpixels, fun run _ => (ih run).1⟩
    · intro out h
      obtain ⟨run, _, h⟩ := Checked.bind_eq_ok.mp h
      exact (ih run).2 out h
  | case6 data bgr henough =>
    refine ⟨Option.some_ne_none _, fun out h => ?_⟩
    rw [← Except.ok.inj (Option.some.inj h)]
    omega

def placeOf (topDown : Bool) (height y : Nat) : Nat := if topDown then y else height - 1 - y

def rowAt (topDown : Bool) (height stride : Nat) (bgr : List UInt8) (y : Nat) : List UInt8 :=
  (chunksExact 3 ((bgr.drop (placeOf topDown height y * stride)).take stride)).flatMap List.reverse

theorem swap_eq {src : List UInt8} (h : src.length = 3) : swap src = some src.reverse := by
  match src, h with
  | [b, g, r], _ => rfl

variable {topDown : Bool} {w h : Nat} {bgr : List UInt8}

theorem length_rowAt {y : Nat} (hy : y < h) (hbgr : bgr.length = h * (w * 3)) :
    (rowAt topDown h (w * 3) bgr y).length = w * 3 := by
  have hplace : placeOf topDown h y + 1 ≤ h := by
    unfold placeOf
    split <;> omega
  have hroom := Nat.mul_le_mul_right (w * 3) hplace
  rw [Nat.succ_mul] at hroom
  have hrow : ((bgr.drop (placeOf topDown h y * (w * 3))).take (w * 3)).length = w * 3 := by
    rw [List.length_take, List.length_drop]
    omega
  have hchunks := congrArg List.length (flatten_chunksExact hrow)
  unfold rowAt
  rw [hrow, List.length_flatten] at hchunks
  simp only [List.length_flatMap, List.length_reverse]
  exact hchunks

theorem turnRow_eq {pixels : List UInt8} {y : Nat} (hy : y < h) (hbgr : bgr.length = h * (w * 3))
    (hpixels : pixels.length = h * (w * 3)) :
    turnRow topDown h (w * 3) bgr pixels y = some (pixels.take (y * (w * 3)) ++
      rowAt topDown h (w * 3) bgr y ++ pixels.drop (y * (w * 3) + w * 3)) := by
  have hplace : storedAt topDown h y = some (placeOf topDown h y) := by
    unfold storedAt placeOf
    cases topDown with
    | true => rfl
    | false =>
      have hlast : sub h 1 = some (h - 1) := if_pos (by omega)
      rw [if_neg Bool.false_ne_true, if_neg Bool.false_ne_true, hlast]
      show sub (h - 1) y = some (h - 1 - y)
      exact if_pos (by omega)
  have hwithin : placeOf topDown h y + 1 ≤ h := by
    unfold placeOf
    split <;> omega
  have hroom := Nat.mul_le_mul_right (w * 3) hwithin
  have hfit := Nat.mul_le_mul_right (w * 3) (show y + 1 ≤ h from hy)
  rw [Nat.succ_mul] at hroom hfit
  have hswap : (chunksExact 3 ((bgr.take (placeOf topDown h y * (w * 3) + w * 3)).drop
      (placeOf topDown h y * (w * 3)))).mapM swap = some ((chunksExact 3
        ((bgr.drop (placeOf topDown h y * (w * 3))).take (w * 3))).map List.reverse) := by
    rw [List.drop_take, Nat.add_sub_cancel_left]
    exact mapM_eq_map fun chunk hchunk => swap_eq (length_of_mem_chunksExact hchunk)
  have hlength := @length_rowAt topDown w h bgr y hy hbgr
  have hwrite := @overwrite_eq _ pixels (rowAt topDown h (w * 3) bgr y) (y * (w * 3)) (by omega)
  rw [hlength] at hwrite
  unfold turnRow
  rw [hplace]
  show (slice bgr _ _).bind _ = _
  rw [slice_eq (Nat.le_add_right _ _) (by omega)]
  show ((chunksExact 3 _).mapM swap).bind _ = _
  rw [hswap]
  exact hwrite

/-- The rows are put one below the other. -/
theorem foldlM_turnRow (hbgr : bgr.length = h * (w * 3)) {pixels : List UInt8}
    (hpixels : pixels.length = h * (w * 3)) {n : Nat} (hn : n ≤ h) :
    (List.range n).foldlM (turnRow topDown h (w * 3) bgr) pixels =
      some ((List.range n).flatMap (rowAt topDown h (w * 3) bgr) ++ pixels.drop (n * (w * 3))) := by
  induction n with
  | zero => rw [Nat.zero_mul, List.drop_zero]; rfl
  | succ n ih =>
    have hdone : ((List.range n).flatMap (rowAt topDown h (w * 3) bgr)).length = n * (w * 3) := by
      have hrows : ∀ y ∈ List.range n, (rowAt topDown h (w * 3) bgr y).length = w * 3 := fun y hy =>
        length_rowAt ((List.mem_range.mp hy).trans hn) hbgr
      rw [length_flatMap_of hrows, List.length_range]
    have hroom := Nat.mul_le_mul_right (w * 3) hn
    rw [Nat.succ_mul] at hroom
    have hlength : ((List.range n).flatMap (rowAt topDown h (w * 3) bgr) ++
        pixels.drop (n * (w * 3))).length = h * (w * 3) := by
      rw [List.length_append, hdone, List.length_drop]
      omega
    rw [List.range_succ, List.foldlM_append, ih (Nat.le_of_succ_le hn)]
    show turnRow topDown h (w * 3) bgr _ n >>= pure = _
    rw [turnRow_eq hn hbgr hlength, List.take_left' hdone, ← List.drop_drop, List.drop_left' hdone,
      List.drop_drop, List.flatMap_append, List.flatMap_singleton, Nat.succ_mul]
    rfl

/-- The image that is made of the pixels that are stored. -/
theorem turn_eq (hbgr : bgr.length = h * (w * 3)) :
    (List.range h).foldlM (turnRow topDown h (w * 3) bgr) (List.replicate (w * h * 3) 0) =
      some ((List.range h).flatMap (rowAt topDown h (w * 3) bgr)) := by
  have hblank : (List.replicate (w * h * 3) (0 : UInt8)).length = h * (w * 3) := by
    rw [List.length_replicate, Nat.mul_comm w h, Nat.mul_assoc]
  rw [foldlM_turnRow hbgr hblank (Nat.le_refl h), List.drop_eq_nil_of_le (Nat.le_of_eq hblank),
    List.append_nil]

theorem sizes_lt {header : Header} (hwidth : header.width < 2 ^ 16) (hheight : header.height < 2 ^ 16) :
    header.width * header.height < 2 ^ 32 ∧ header.width * 3 < 2 ^ 32 :=
  ⟨Nat.lt_of_lt_of_le (Nat.mul_lt_mul'' hwidth hheight) (by decide), by omega⟩

theorem bytesPerPixel_of {depth : UInt8} (h : ¬ (depth ≠ 24 ∧ depth ≠ 32)) : 3 ≤ (depth / 8).toNat := by
  by_cases hsmall : depth = 24
  · rw [hsmall]
    decide
  · have hlarge : depth = 32 := by
      by_contra hne
      exact h ⟨hsmall, hne⟩
    rw [hlarge]
    decide

theorem length_stored {wanted : Nat} {out : List UInt8} (hwanted : wanted = w * h)
    (hout : wanted * 3 ≤ out.length) : (out.take (wanted * 3)).length = h * (w * 3) := by
  rw [List.length_take, Nat.min_eq_left hout, hwanted, Nat.mul_comm w h, Nat.mul_assoc]

theorem length_rows (hbgr : bgr.length = h * (w * 3)) :
    ((List.range h).flatMap (rowAt topDown h (w * 3) bgr)).length = h * (w * 3) := by
  have hrows : ∀ y ∈ List.range h, (rowAt topDown h (w * 3) bgr y).length = w * 3 := fun y hy =>
    length_rowAt (List.mem_range.mp hy) hbgr
  rw [length_flatMap_of hrows, List.length_range]

/-- No bytes make the reader panic. -/
theorem decode_ne_none (bytes : List UInt8) : decode bytes ≠ none := by
  refine Checked.guard_ne_none.mpr fun hlong => ?_
  have htake : (bytes.take 18).length = 18 := by
    rw [List.length_take]
    omega
  refine Checked.bind_ne_none.mpr
    ⟨Checked.liftOption_ne_none.mpr (readHeader_ne_none htake), fun header hheader => ?_⟩
  obtain ⟨hwidth, hheight⟩ := readHeader_sizes (Checked.liftOption_eq_ok.mp hheader)
  obtain ⟨hsize, hstride⟩ := sizes_lt hwidth hheight
  refine Checked.guard_ne_none.mpr fun hkind => ?_
  have hdepth := bytesPerPixel_of fun hdepth => hkind (.inr (.inl hdepth))
  refine Checked.guard_ne_none.mpr fun hdata => ?_
  refine Checked.bind_ne_none.mpr ⟨Checked.liftOption_ne_none.mpr ?_, fun wanted hwanted => ?_⟩
  · rw [u32_eq hsize]
    exact Option.some_ne_none _
  have hw : wanted = header.width * header.height := by
    have hw := Checked.liftOption_eq_ok.mp hwanted
    rw [u32_eq hsize] at hw
    exact (Option.some.inj hw).symm
  refine Checked.bind_ne_none.mpr ⟨(unpack_safe hdepth _ _).1, fun out hout => ?_⟩
  have hlength := length_stored hw ((unpack_safe hdepth _ _).2 out hout)
  refine Checked.bind_ne_none.mpr ⟨Checked.liftOption_ne_none.mpr ?_, fun stride hstrideIs => ?_⟩
  · rw [u32_eq hstride]
    exact Option.some_ne_none _
  have hs : stride = header.width * 3 := by
    have hs := Checked.liftOption_eq_ok.mp hstrideIs
    rw [u32_eq hstride] at hs
    exact (Option.some.inj hs).symm
  rw [hs, hw, turn_eq (hw ▸ hlength)]
  exact Option.some_ne_none _

/-- What is read is an image that is not empty, of the header's sizes and with all its pixels. -/
theorem decode_ok {bytes : List UInt8} {image : Image} (h : decode bytes = some (.ok image)) :
    (∃ header, readHeader (bytes.take 18) = some header ∧ 18 ≤ bytes.length ∧
      header.width = image.width ∧ header.height = image.height) ∧
    0 < image.width ∧ 0 < image.height ∧ image.width < 2 ^ 16 ∧ image.height < 2 ^ 16 ∧
      image.pixels.length = image.height * (image.width * 3) := by
  obtain ⟨hlong, h⟩ := Checked.guard_eq_ok.mp h
  obtain ⟨header, hheader, h⟩ := Checked.bind_eq_ok.mp h
  obtain ⟨hwidth, hheight⟩ := readHeader_sizes (Checked.liftOption_eq_ok.mp hheader)
  obtain ⟨hsize, hstride⟩ := sizes_lt hwidth hheight
  obtain ⟨hkind, h⟩ := Checked.guard_eq_ok.mp h
  have hdepth := bytesPerPixel_of fun hdepth => hkind (.inr (.inl hdepth))
  obtain ⟨hdata, h⟩ := Checked.guard_eq_ok.mp h
  obtain ⟨wanted, hwanted, h⟩ := Checked.bind_eq_ok.mp h
  have hw := Checked.liftOption_eq_ok.mp hwanted
  rw [u32_eq hsize] at hw
  obtain rfl := Option.some.inj hw
  obtain ⟨out, hout, h⟩ := Checked.bind_eq_ok.mp h
  have hlength := length_stored rfl ((unpack_safe hdepth _ _).2 out hout)
  obtain ⟨stride, hstrideIs, h⟩ := Checked.bind_eq_ok.mp h
  have hs := Checked.liftOption_eq_ok.mp hstrideIs
  rw [u32_eq hstride] at hs
  obtain rfl := Option.some.inj hs
  obtain ⟨pixels, hpixels, h⟩ := Checked.bind_eq_ok.mp h
  have hturn := Checked.liftOption_eq_ok.mp hpixels
  rw [turn_eq hlength] at hturn
  obtain rfl := Option.some.inj hturn
  obtain rfl := Except.ok.inj (Option.some.inj h)
  have hw₀ : 0 < header.width := by omega
  have hh₀ : 0 < header.height := by omega
  exact ⟨⟨header, Checked.liftOption_eq_ok.mp hheader, Nat.le_of_not_lt hlong, rfl, rfl⟩,
    hw₀, hh₀, hwidth, hheight, length_rows hlength⟩

theorem rows_ok {image : Image} {top height : Nat} {part : List UInt8}
    (h : rows image top height = some (.ok part)) : top + height ≤ image.height ∧
      part = (image.pixels.drop (top * (image.width * 3))).take (height * (image.width * 3)) ∧
        part.length = height * (image.width * 3) := by
  obtain ⟨hroom, h⟩ := Checked.guard_eq_ok.mp h
  obtain ⟨stride, hstride, h⟩ := Checked.bind_eq_ok.mp h
  have hs := Checked.liftOption_eq_ok.mp hstride
  unfold u32 at hs
  split at hs
  · obtain rfl := Option.some.inj hs
    split at h
    · rename_i pixels hslice
      obtain rfl := Except.ok.inj (Option.some.inj h)
      have hlength := length_slice hslice
      rw [Nat.add_sub_cancel_left] at hlength
      unfold slice at hslice
      split at hslice
      · rw [List.drop_take, Nat.add_sub_cancel_left] at hslice
        exact ⟨by omega, (Option.some.inj hslice).symm, hlength⟩
      · cases hslice
    · cases Option.some.inj h
  · cases hs

end Safety

end CommandCenter.Formats.Tga
