import CommandCenter.Formats.BniRoundTrip

/-!
# Checking icon files

`validate` of `crates/bnetcc-proto/src/bni.rs`: the icons of a file against its image.

* `validate_exact_iff`: the check of the sizes is exact where the heights of the icons add up
  to a `u32`.
-/

namespace CommandCenter.Formats.Bni

open Rust Proto

structure TgaHeader where
  imageType : UInt8
  width : UInt16
  height : UInt16
  /-- Bits per pixel. -/
  depth : UInt8
  deriving DecidableEq

def TgaHeader.parse (bytes : List UInt8) : Option TgaHeader :=
  if h : bytes.length < 18 then none
  else some {
    imageType := bytes[2]
    width := fromLeBytes bytes[12] bytes[13]
    height := fromLeBytes bytes[14] bytes[15]
    depth := bytes[16] }

/-- A problem found while checking a file against its image. -/
inductive BniWarning where
  | imageNotTga
  | unexpectedImageType (imageType : UInt8)
  | unexpectedDepth (depth : UInt8)
  | widthMismatch (tga : UInt16) (widest : UInt32)
  | heightMismatch (tga : UInt16) (total : UInt32)
  /-- No flags and no codes, so nothing can ever select it. -/
  | unreachableIcon (index : Nat)
  deriving DecidableEq

namespace BniFile

def heights (file : BniFile) : List UInt32 := file.icons.map BniIcon.height

/-- The width of the widest icon, or zero where there is none. -/
def widest (file : BniFile) : UInt32 := (file.icons.map BniIcon.width).max?.getD 0

/-- The icons that nothing selects. -/
def unreachable (file : BniFile) : List BniWarning :=
  file.icons.zipIdx.filterMap fun entry =>
    if entry.1.flags = 0 ∧ entry.1.codes = [] then some (.unreachableIcon entry.2) else none

end BniFile

/-- Every problem of a file, as a release build finds them: the sum of the heights wraps. -/
def validate (file : BniFile) : List BniWarning :=
  match TgaHeader.parse file.image with
  | none => file.unreachable ++ [.imageNotTga]
  | some tga =>
    let total := sumU32 file.heights
    file.unreachable ++
      (if tga.imageType ≠ tgaRleTruecolor then [.unexpectedImageType tga.imageType] else []) ++
      (if tga.depth ≠ 24 ∧ tga.depth ≠ 32 then [.unexpectedDepth tga.depth] else []) ++
      (if tga.width.toUInt32 ≠ file.widest then [.widthMismatch tga.width file.widest] else []) ++
      (if tga.height.toUInt32 ≠ total then [.heightMismatch tga.height total] else [])

/-- How far down an icon is in the image. -/
def iconYOffset (file : BniFile) (index : Nat) : UInt32 := sumU32 (file.heights.take index)

/-! ## What is reported -/

namespace BniFile

/-- The heights of the icons, added up. -/
def totalHeight (file : BniFile) : Nat := (file.icons.map fun icon => icon.height.toNat).sum

def largestWidth (file : BniFile) : Nat :=
  (file.icons.map fun icon => icon.width.toNat).foldr max 0

def ReportsHeight (file : BniFile) : Prop := ∃ tga total, .heightMismatch tga total ∈ validate file

def ReportsWidth (file : BniFile) : Prop := ∃ tga widest, .widthMismatch tga widest ∈ validate file

/-- Neither the check nor any offset adds past a `u32`. -/
def NeverOverflows (file : BniFile) : Prop :=
  (checkedSumU32 file.heights).isSome ∧
    ∀ index, checkedSumU32 (file.heights.take index) = some (iconYOffset file index)

variable {file : BniFile}

theorem of_mem_unreachable {warning : BniWarning} (h : warning ∈ file.unreachable) :
    ∃ index, warning = .unreachableIcon index := by
  obtain ⟨entry, _, hentry⟩ := List.mem_filterMap.mp h
  split at hentry
  · exact ⟨entry.2, (Option.some.inj hentry).symm⟩
  · cases hentry

section Reports

variable {tga : TgaHeader} (htga : TgaHeader.parse file.image = some tga)

include htga

theorem mem_validate {warning : BniWarning} :
    warning ∈ validate file ↔ warning ∈ file.unreachable ∨
      (tga.imageType ≠ tgaRleTruecolor ∧ warning = .unexpectedImageType tga.imageType) ∨
      ((tga.depth ≠ 24 ∧ tga.depth ≠ 32) ∧ warning = .unexpectedDepth tga.depth) ∨
      (tga.width.toUInt32 ≠ file.widest ∧ warning = .widthMismatch tga.width file.widest) ∨
      (tga.height.toUInt32 ≠ sumU32 file.heights ∧
        warning = .heightMismatch tga.height (sumU32 file.heights)) := by
  unfold validate
  rw [htga]
  simp only [List.mem_append, List.mem_ite_nil_right, List.mem_singleton, or_assoc]

theorem reportsHeight_iff : file.ReportsHeight ↔ tga.height.toUInt32 ≠ sumU32 file.heights := by
  constructor
  · rintro ⟨height, total, h⟩
    rcases (mem_validate htga).mp h with h | ⟨_, h⟩ | ⟨_, h⟩ | ⟨_, h⟩ | ⟨hne, _⟩
    · obtain ⟨index, h⟩ := of_mem_unreachable h
      cases h
    · cases h
    · cases h
    · cases h
    · exact hne
  · intro hne
    exact ⟨_, _, (mem_validate htga).mpr (.inr (.inr (.inr (.inr ⟨hne, rfl⟩))))⟩

theorem reportsWidth_iff : file.ReportsWidth ↔ tga.width.toUInt32 ≠ file.widest := by
  constructor
  · rintro ⟨width, widest, h⟩
    rcases (mem_validate htga).mp h with h | ⟨_, h⟩ | ⟨_, h⟩ | ⟨hne, _⟩ | ⟨_, h⟩
    · obtain ⟨index, h⟩ := of_mem_unreachable h
      cases h
    · cases h
    · cases h
    · exact hne
    · cases h
  · intro hne
    exact ⟨_, _, (mem_validate htga).mpr (.inr (.inr (.inr (.inl ⟨hne, rfl⟩))))⟩

end Reports

/-! ## The numbers compared -/

theorem toNat_foldl_max (widths : List UInt32) (start : UInt32) :
    (widths.foldl max start).toNat = max start.toNat ((widths.map UInt32.toNat).foldr max 0) := by
  induction widths generalizing start with
  | nil => exact (Nat.max_zero _).symm
  | cons width widths ih =>
    have hmax : (max start width).toNat = max start.toNat width.toNat := by
      change (if start ≤ width then width else start).toNat = _
      split
      · rename_i hle
        exact (Nat.max_eq_right (UInt32.le_iff_toNat_le.mp hle)).symm
      · rename_i hle
        rw [UInt32.le_iff_toNat_le] at hle
        omega
    rw [List.foldl_cons, ih, hmax, List.map_cons, List.foldr_cons, Nat.max_assoc]

theorem toNat_widest : file.widest.toNat = file.largestWidth := by
  unfold widest largestWidth
  cases file.icons with
  | nil => rfl
  | cons icon icons =>
    rw [List.map_cons, List.max?_cons', Option.getD_some, toNat_foldl_max, List.map_map]
    rfl

theorem totalHeight_eq : (file.heights.map UInt32.toNat).sum = file.totalHeight := by
  rw [heights, List.map_map]
  rfl

/-- The offset of an icon is part of the height. -/
theorem neverOverflows_iff : file.NeverOverflows ↔ file.totalHeight < 2 ^ 32 := by
  unfold NeverOverflows
  rw [checkedSumU32_isSome, totalHeight_eq]
  constructor
  · exact fun h => h.1
  · intro h
    refine ⟨h, fun index => ?_⟩
    have hsplit : (file.heights.map UInt32.toNat).sum =
        ((file.heights.take index).map UInt32.toNat).sum +
          ((file.heights.drop index).map UInt32.toNat).sum := by
      rw [← List.sum_append, ← List.map_append, List.take_append_drop]
    rw [totalHeight_eq] at hsplit
    exact checkedSumU32_eq (by omega)

theorem reportsHeight_of_lt {tga : TgaHeader} (htga : TgaHeader.parse file.image = some tga)
    (h : file.totalHeight < 2 ^ 32) :
    file.ReportsHeight ↔ tga.height.toNat ≠ file.totalHeight := by
  rw [reportsHeight_iff htga, Ne, ← UInt32.toNat_inj, toNat_sumU32 (totalHeight_eq ▸ h),
    totalHeight_eq, UInt16.toNat_toUInt32]

theorem reportsWidth_iff_ne {tga : TgaHeader} (htga : TgaHeader.parse file.image = some tga) :
    file.ReportsWidth ↔ tga.width.toNat ≠ file.largestWidth := by
  rw [reportsWidth_iff htga, Ne, ← UInt32.toNat_inj, toNat_widest, UInt16.toNat_toUInt32]

end BniFile

/-- **The check of an icon file is exact as long as the heights of its icons add up to less than
2^32.** Of every file that is read and has a readable image header, the check reports the height
just if it is not the sum of the heights, and the width just if it is not the largest one, and
neither it nor an offset overflows, if and only if that sum is in range. -/
theorem validate_exact_iff (bytes : List UInt8) (file : BniFile) (tga : TgaHeader)
    (_hparse : parse bytes = some (.ok file)) (htga : TgaHeader.parse file.image = some tga) :
    ((file.ReportsHeight ↔ tga.height.toNat ≠ file.totalHeight) ∧
      (file.ReportsWidth ↔ tga.width.toNat ≠ file.largestWidth) ∧ file.NeverOverflows) ↔
      file.totalHeight < 2 ^ 32 := by
  constructor
  · rintro ⟨-, -, h⟩
    exact BniFile.neverOverflows_iff.mp h
  · intro h
    exact ⟨BniFile.reportsHeight_of_lt htga h, BniFile.reportsWidth_iff_ne htga,
      BniFile.neverOverflows_iff.mpr h⟩

/-- An image header of a width and a height, true colour of 24 bits. -/
def tgaHeader (width height : UInt16) : List UInt8 :=
  [0, 0, tgaRleTruecolor, 0, 0, 0, 0, 0, 0, 0, 0, 0] ++ toLeBytes width ++ toLeBytes height ++
    [24, 0]

/-- Two icons, one by its flags and one by its code, over an image that is a row short. -/
def stacked : BniFile where
  version := version
  icons := [⟨1, 28, 14, []⟩, ⟨0, 14, 20, [Product.star]⟩]
  image := tgaHeader 28 33

theorem validate_exact_stacked :
    (stacked.ReportsHeight ↔ (33 : UInt16).toNat ≠ stacked.totalHeight) ∧
      (stacked.ReportsWidth ↔ (28 : UInt16).toNat ≠ stacked.largestWidth) ∧
      stacked.NeverOverflows :=
  (validate_exact_iff (build stacked) stacked ⟨tgaRleTruecolor, 28, 33, 24⟩
    (parse_layout ⟨rfl, by decide, by decide⟩ 0) (by decide)).mpr (by decide)

/-- Two icons whose heights add up to 2^32, over an image of no height. -/
def tall : BniFile where
  version := version
  icons := [⟨1, 14, 0x80000000, []⟩, ⟨2, 14, 0x80000000, []⟩]
  image := tgaHeader 14 0

/-- The file is read, and a build where the sum does not panic finds nothing wrong with it. -/
theorem validate_tall :
    parse (build tall) = some (.ok tall) ∧
      TgaHeader.parse tall.image = some ⟨tgaRleTruecolor, 14, 0, 24⟩ ∧
      validate tall = [] ∧ (0 : UInt16).toNat ≠ tall.totalHeight ∧
      ¬ (tall.ReportsHeight ↔ (0 : UInt16).toNat ≠ tall.totalHeight) ∧
      ¬ tall.NeverOverflows := by
  have hparse : parse (build tall) = some (.ok tall) :=
    parse_layout ⟨rfl, by decide, by decide⟩ 0
  have hvalidate : validate tall = [] := by decide
  have hheight : (0 : UInt16).toNat ≠ tall.totalHeight := by decide
  refine ⟨hparse, by decide, hvalidate, hheight, ?_, ?_⟩
  · intro h
    obtain ⟨height, total, hmem⟩ := h.mpr hheight
    rw [hvalidate] at hmem
    exact List.not_mem_nil hmem
  · rw [BniFile.neverOverflows_iff]
    decide

end CommandCenter.Formats.Bni
