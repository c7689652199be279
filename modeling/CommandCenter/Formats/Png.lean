import CommandCenter.Rust.Chunks
import CommandCenter.Rust.Num

/-!
# Pictures as PNG

`crates/bnetcc-icons/src/png.rs`: a picture of 24 bits, in stored blocks.

* `rgb_ne_none`: only a picture that has a width and all its pixels is written.
-/

namespace CommandCenter.Formats.Png

open Rust

/-! ## Checksums -/

def crcBit (crc : UInt32) : UInt32 :=
  if crc &&& 1 = 1 then (crc >>> 1) ^^^ 0xEDB88320 else crc >>> 1

def crcByte (crc : UInt32) (byte : UInt8) : UInt32 := Nat.repeat crcBit 8 (crc ^^^ byte.toUInt32)

def crc32 (bytes : List UInt8) : UInt32 := ~~~ bytes.foldl crcByte 0xFFFFFFFF

def adlerByte (sums : UInt32 × UInt32) (byte : UInt8) : UInt32 × UInt32 :=
  let a := (sums.1 + byte.toUInt32) % 65521
  (a, (sums.2 + a) % 65521)

def adler32 (bytes : List UInt8) : UInt32 :=
  let (a, b) := bytes.foldl adlerByte (1, 0)
  (b <<< 16) ||| a

/-! ## Chunks -/

def chunk (kind data : List UInt8) : List UInt8 :=
  toBeBytes (u32OrMax data.length) ++ (kind ++ data) ++ toBeBytes (crc32 (kind ++ data))

/-- Blocks that store their input, of 65535 bytes at most. -/
def storedBlocks (raw : List UInt8) : List UInt8 :=
  let size : UInt16 := .ofNat (min raw.length 0xFFFF)
  let remainder := raw.drop 0xFFFF
  let block := (if remainder = [] then 1 else 0) :: (toLeBytes size ++ toLeBytes (~~~ size) ++
    raw.take 0xFFFF)
  if remainder = [] then block else block ++ storedBlocks (raw.drop 0xFFFF)
termination_by raw.length
decreasing_by
  rename_i h
  have hne : raw.drop 0xFFFF ≠ [] := h
  have hlong := List.length_pos_iff.mpr hne
  rw [List.length_drop] at hlong ⊢
  omega

/-- A zlib stream that stores its input. -/
def storedZlib (raw : List UInt8) : List UInt8 :=
  [0x78, 0x01] ++ storedBlocks raw ++ toBeBytes (adler32 raw)

/-- A picture of 24 bits, row by row, no row filtered. -/
def rgb (width height : UInt32) (pixels : List UInt8) : Option (List UInt8) := do
  let size ← u32 (width.toNat * height.toNat)
  let wanted ← u32 (size * 3)
  if pixels.length ≠ wanted then none
  else
    let stride ← u32 (width.toNat * 3)
    if stride = 0 then none
    else
      let raw := (chunksExact stride pixels).flatMap fun row => 0 :: row
      return [0x89, 0x50, 0x4E, 0x47, 0x0D, 0x0A, 0x1A, 0x0A] ++
        chunk [0x49, 0x48, 0x44, 0x52] (toBeBytes width ++ toBeBytes height ++ [8, 2, 0, 0, 0]) ++
        chunk [0x49, 0x44, 0x41, 0x54] (storedZlib raw) ++ chunk [0x49, 0x45, 0x4E, 0x44] []

/-- Only a picture that has a width and all its pixels is written. -/
theorem rgb_ne_none {width height : UInt32} {pixels : List UInt8}
    (h : rgb width height pixels ≠ none) :
    0 < width.toNat ∧ pixels.length = width.toNat * height.toNat * 3 := by
  obtain ⟨png, hpng⟩ := Option.ne_none_iff_exists'.mp h
  obtain ⟨size, hsize, hpng⟩ := Option.bind_eq_some_iff.mp hpng
  obtain ⟨wanted, hwanted, hpng⟩ := Option.bind_eq_some_iff.mp hpng
  split at hpng
  · cases hpng
  · rename_i hlength
    obtain ⟨stride, hstride, hpng⟩ := Option.bind_eq_some_iff.mp hpng
    split at hpng
    · cases hpng
    · rename_i hsome
      rw [eq_of_u32 hstride] at hsome
      rw [eq_of_u32 hwanted, eq_of_u32 hsize] at hlength
      exact ⟨by omega, not_not.mp hlength⟩

end CommandCenter.Formats.Png
