import CommandCenter.Formats.IconPack

/-!
# Exported icons are packed again

Every icon is in the folder under a name of its own, and its line in the list. The pictures that are
read back are laid one below the other, as they were in the image they come from.

* `exportIcons_ok`: the folder after an export.
* `layPictures_exported`: the image of the pictures.
* `pack_exported_iff`: when an untouched folder gives the same icons.
-/

namespace CommandCenter.Formats.IconPack

open Rust Proto Bni Animation

/-! ## Names -/

section Names

theorem isDigit_of_mem_pad2 {c : Char} {i : Nat} (h : c ∈ pad2 i) : c.isDigit = true := by
  rcases List.mem_append.mp h with h | h
  · rw [List.eq_of_mem_replicate h]
    rfl
  · exact isDigit_of_mem_digits h

theorem pad2_injective {i j : Nat} (h : pad2 i = pad2 j) : i = j := by
  have hvalue : ∀ n, Nat.ofDigitChars 10 (pad2 n) 0 = n := by
    intro n
    unfold pad2
    rw [Nat.ofDigitChars_append, Nat.ofDigitChars_replicate_zero, Nat.mul_zero]
    exact Nat.ofDigitChars_toDigits (by decide) (by decide)
  rw [← hvalue i, h, hvalue]

theorem nameOf_injective {i j : Nat} {icon icon' : BniIcon} (h : nameOf i icon = nameOf j icon') :
    i = j := by
  have hfront : ∀ k icon, (nameOf k icon).takeWhile Char.isDigit = pad2 k := by
    intro k icon
    unfold nameOf
    rw [List.takeWhile_append_of_pos fun c hc => isDigit_of_mem_pad2 hc]
    exact List.append_nil _
  have hsame := congrArg (List.takeWhile Char.isDigit) h
  rw [hfront, hfront] at hsame
  exact pad2_injective hsame

theorem nameOf_ne_listName (i : Nat) (icon : BniIcon) : listName ≠ nameOf i icon := by
  intro h
  have hfront : (nameOf i icon).head? = (pad2 i).head? := by
    have hsome : pad2 i ≠ [] := List.append_ne_nil_of_right_ne_nil _ Nat.toDigits_ne_nil
    unfold nameOf
    rw [List.head?_append_of_ne_nil _ hsome]
  rw [← h] at hfront
  exact absurd (isDigit_of_mem_pad2 (List.mem_of_mem_head? hfront.symm)) (by decide)

end Names

/-! ## What is exported -/

def cutRow (image : Tga.Image) (top : Nat) (icon : BniIcon) (y : Nat) : List UInt8 :=
  (image.pixels.drop ((top + y) * (image.width * 3))).take (icon.width.toNat * 3)

def cutPixels (image : Tga.Image) (top : Nat) (icon : BniIcon) : List UInt8 :=
  (List.range icon.height.toNat).flatMap (cutRow image top icon)

/-- Some icons are in a folder, numbered from one on. -/
def Exported (image : Tga.Image) (folder : Folder) : (i top : Nat) → List BniIcon → Prop
  | _, top, [] => top ≤ image.height
  | i, top, icon :: icons =>
    (0 < icon.height.toNat → icon.width.toNat ≤ image.width) ∧
    (∃ png, Png.rgb icon.width icon.height (cutPixels image top icon) = some png ∧
      folder (nameOf i icon) = some png) ∧
    Exported image folder (i + 1) (top + icon.height.toNat) icons

section Export

variable {image : Tga.Image}

theorem cutOut_ok {top : Nat} {icon : BniIcon} {pixels : List UInt8}
    (h : cutOut (image.width * 3) icon ((image.pixels.drop (top * (image.width * 3))).take
      (icon.height.toNat * (image.width * 3))) = some pixels)
    (hlength : ((image.pixels.drop (top * (image.width * 3))).take
      (icon.height.toNat * (image.width * 3))).length = icon.height.toNat * (image.width * 3)) :
    pixels = cutPixels image top icon ∧
      (0 < icon.height.toNat → icon.width.toNat ≤ image.width) := by
  obtain ⟨_, _, h⟩ := Option.bind_eq_some_iff.mp h
  obtain ⟨parts, hparts, h⟩ := Option.bind_eq_some_iff.mp h
  obtain rfl := Option.some.inj h
  have hrow : ∀ y ∈ List.range icon.height.toNat, y * (image.width * 3) + icon.width.toNat * 3 ≤
      icon.height.toNat * (image.width * 3) := by
    intro y hy
    have hsome := mapM_ne_none.mp (Option.ne_none_iff_exists'.mpr ⟨parts, hparts⟩) y hy
    unfold slice at hsome
    split at hsome
    · rename_i hfit
      rw [hlength] at hfit
      exact hfit.2
    · exact absurd rfl hsome
  have hwide : 0 < icon.height.toNat → icon.width.toNat ≤ image.width := by
    intro hpos
    have hlast := hrow (icon.height.toNat - 1) (List.mem_range.mpr (by omega))
    have hmul : icon.height.toNat * (image.width * 3) =
        (icon.height.toNat - 1) * (image.width * 3) + image.width * 3 := by
      rw [← Nat.succ_mul]
      congr 1
      omega
    omega
  have hcut : ∀ y ∈ List.range icon.height.toNat,
      slice ((image.pixels.drop (top * (image.width * 3))).take
        (icon.height.toNat * (image.width * 3))) (y * (image.width * 3))
          (y * (image.width * 3) + icon.width.toNat * 3) = pure (cutRow image top icon y) := by
    intro y hy
    have hroom := hrow y hy
    rw [slice_eq (Nat.le_add_right _ _) (by rw [hlength]; exact hroom), List.drop_take,
      Nat.add_sub_cancel_left, List.drop_take, List.take_take, Nat.min_eq_left (by omega),
      List.drop_drop, ← Nat.add_mul]
    rfl
  rw [mapM_eq_map hcut] at hparts
  refine ⟨?_, hwide⟩
  rw [← Option.some.inj hparts, cutPixels, List.flatMap_def]

/-- Other files are left as they were. -/
theorem exportIcons_frame {disk : Disk} {icons : List BniIcon} {i top : Nat} {folder folder' : Folder}
    {lines : List Text} (h : exportIcons disk image i top icons folder = some (.ok (folder', lines)))
    {name : Text} (hname : ∀ k icon, i ≤ k → name ≠ nameOf k icon) : folder' name = folder name := by
  induction icons generalizing i top folder lines with
  | nil =>
    obtain ⟨rfl, rfl⟩ := Prod.mk.inj (Except.ok.inj (Option.some.inj h))
    rfl
  | cons icon icons ih =>
    obtain ⟨rows, _, h⟩ := Checked.bind_eq_ok.mp h
    obtain ⟨pixels, _, h⟩ := Checked.bind_eq_ok.mp h
    obtain ⟨png, _, h⟩ := Checked.bind_eq_ok.mp h
    obtain ⟨_, h⟩ := Checked.guard_eq_ok.mp h
    obtain ⟨⟨folder'', lines'⟩, hmore, h⟩ := Checked.bind_eq_ok.mp h
    obtain ⟨rfl, _⟩ := Prod.mk.inj (Except.ok.inj (Option.some.inj h))
    rw [ih hmore fun k icon hk => hname k icon (Nat.le_of_succ_le hk)]
    exact if_neg (hname i icon (Nat.le_refl i))

/-- After an export the icons are in the folder, and there is a line for each. -/
theorem exportIcons_ok {disk : Disk} {icons : List BniIcon} {i top : Nat} {folder folder' : Folder}
    {lines : List Text} (htop : top ≤ image.height)
    (h : exportIcons disk image i top icons folder = some (.ok (folder', lines))) :
    lines = linesFrom i icons ∧ Exported image folder' i top icons := by
  induction icons generalizing i top folder lines with
  | nil =>
    obtain ⟨rfl, rfl⟩ := Prod.mk.inj (Except.ok.inj (Option.some.inj h))
    exact ⟨rfl, htop⟩
  | cons icon icons ih =>
    obtain ⟨rows, hrows, h⟩ := Checked.bind_eq_ok.mp h
    obtain ⟨pixels, hpixels, h⟩ := Checked.bind_eq_ok.mp h
    obtain ⟨png, hpng, h⟩ := Checked.bind_eq_ok.mp h
    obtain ⟨_, h⟩ := Checked.guard_eq_ok.mp h
    obtain ⟨⟨folder'', lines'⟩, hmore, h⟩ := Checked.bind_eq_ok.mp h
    obtain ⟨rfl, rfl⟩ := Prod.mk.inj (Except.ok.inj (Option.some.inj h))
    obtain ⟨hroom, rfl, hlength⟩ := Tga.rows_ok (Checked.adapt_eq_ok.mp hrows)
    obtain ⟨rfl, hwide⟩ := cutOut_ok (Checked.liftOption_eq_ok.mp hpixels) hlength
    obtain ⟨rfl, hexported⟩ := ih hroom hmore
    refine ⟨rfl, hwide, ⟨png, Checked.liftOption_eq_ok.mp hpng, ?_⟩, hexported⟩
    rw [exportIcons_frame hmore fun k icon' hk hname => by
      have hsame := nameOf_injective hname
      omega]
    exact if_pos rfl

theorem Exported.top_le {folder : Folder} {i top : Nat} {icons : List BniIcon}
    (h : Exported image folder i top icons) :
    top + (icons.map fun icon => icon.height.toNat).sum ≤ image.height := by
  induction icons generalizing i top with
  | nil => exact h
  | cons icon icons ih =>
    have hrest := ih h.2.2
    rw [List.map_cons, List.sum_cons]
    omega

theorem Exported.write {folder : Folder} {i top : Nat} {icons : List BniIcon}
    (h : Exported image folder i top icons) (bytes : List UInt8) :
    Exported image (folder.write listName bytes) i top icons := by
  induction icons generalizing i top with
  | nil => exact h
  | cons icon icons ih =>
    obtain ⟨hwide, ⟨png, hpng, hfile⟩, hrest⟩ := h
    refine ⟨hwide, ⟨png, hpng, ?_⟩, ih hrest⟩
    exact (if_neg fun heq => nameOf_ne_listName i icon heq.symm).trans hfile

end Export

/-! ## What is packed -/

/-- A row of an icon in an image of the same width, and black behind it. -/
def laidRow (image : Tga.Image) (top : Nat) (icon : BniIcon) (y : Nat) : List UInt8 :=
  cutRow image top icon y ++ List.replicate (image.width * 3 - icon.width.toNat * 3) 0

def laid (image : Tga.Image) (top : Nat) (icon : BniIcon) : List UInt8 :=
  (List.range icon.height.toNat).flatMap (laidRow image top icon)

def laidAll (image : Tga.Image) : (top : Nat) → List BniIcon → List UInt8
  | _, [] => []
  | top, icon :: icons => laid image top icon ++ laidAll image (top + icon.height.toNat) icons

/-- The sizes of an image, and as many pixels as these want. -/
structure Whole (image : Tga.Image) : Prop where
  width : 0 < image.width ∧ image.width < 2 ^ 16
  height : 0 < image.height ∧ image.height < 2 ^ 16
  pixels : image.pixels.length = image.height * (image.width * 3)

section Lay

variable {image : Tga.Image} {top : Nat} {icon : BniIcon}

theorem length_cutRow (himage : Whole image) (hwide : icon.width.toNat ≤ image.width) {y : Nat}
    (hy : top + y < image.height) : (cutRow image top icon y).length = icon.width.toNat * 3 := by
  have hroom := Nat.mul_le_mul_right (image.width * 3) (show top + y + 1 ≤ image.height from hy)
  rw [Nat.succ_mul, ← himage.pixels] at hroom
  rw [cutRow, List.length_take, List.length_drop]
  omega

theorem length_laidRow (himage : Whole image) (hwide : icon.width.toNat ≤ image.width) {y : Nat}
    (hy : top + y < image.height) : (laidRow image top icon y).length = image.width * 3 := by
  rw [laidRow, List.length_append, length_cutRow himage hwide hy, List.length_replicate]
  omega

theorem cutRows (himage : Whole image) (hwide : 0 < icon.height.toNat → icon.width.toNat ≤ image.width)
    (hroom : top + icon.height.toNat ≤ image.height) :
    ∀ y ∈ List.range icon.height.toNat, (cutRow image top icon y).length = icon.width.toNat * 3 := by
  intro y hy
  rw [List.mem_range] at hy
  exact length_cutRow himage (hwide (by omega)) (by omega)

theorem laidRows (himage : Whole image) (hwide : 0 < icon.height.toNat → icon.width.toNat ≤ image.width)
    (hroom : top + icon.height.toNat ≤ image.height) :
    ∀ y ∈ List.range icon.height.toNat, (laidRow image top icon y).length = image.width * 3 := by
  intro y hy
  rw [List.mem_range] at hy
  exact length_laidRow himage (hwide (by omega)) (by omega)

theorem length_laid (himage : Whole image)
    (hwide : 0 < icon.height.toNat → icon.width.toNat ≤ image.width)
    (hroom : top + icon.height.toNat ≤ image.height) :
    (laid image top icon).length = icon.height.toNat * (image.width * 3) := by
  rw [laid, length_flatMap_of (laidRows himage hwide hroom), List.length_range]

theorem copyRow_laid (himage : Whole image) {p : Picture} (hwidth : p.width = icon.width)
    (hrgb : p.rgb = cutPixels image top icon) (hwide : icon.width.toNat ≤ image.width)
    (hroom : top + icon.height.toNat ≤ image.height) {y k : Nat} (hy : y < icon.height.toNat)
    {done : List UInt8} (hdone : done.length = (top + y) * (image.width * 3))
    (hk : image.width * 3 ≤ k) :
    copyRow image.width top p (done ++ List.replicate k 0) y =
      some (done ++ laidRow image top icon y ++ List.replicate (k - image.width * 3) 0) := by
  obtain ⟨hw₀, hw⟩ := himage.width
  obtain ⟨hh₀, hh⟩ := himage.height
  have hstart : y * icon.width.toNat < 2 ^ 32 :=
    Nat.lt_of_lt_of_le (Nat.mul_lt_mul'' (show y < 2 ^ 16 by omega)
      (show icon.width.toNat < 2 ^ 16 by omega)) (by decide)
  have hplace : (top + y) * image.width < 2 ^ 32 :=
    Nat.lt_of_lt_of_le (Nat.mul_lt_mul'' (show top + y < 2 ^ 16 by omega) hw) (by decide)
  have hcut := length_cutRow himage hwide (show top + y < image.height by omega)
  have hrows := cutRows himage (fun _ => hwide) hroom
  have hlength : (cutPixels image top icon).length = icon.height.toNat * (icon.width.toNat * 3) := by
    rw [cutPixels, length_flatMap_of hrows, List.length_range]
  have hfit := Nat.mul_le_mul_right (icon.width.toNat * 3) (show y + 1 ≤ icon.height.toNat from hy)
  rw [Nat.succ_mul] at hfit
  obtain ⟨rest, hrest⟩ := drop_rows hrows hy
  have hslice : slice p.rgb (y * (icon.width.toNat * 3))
      (y * (icon.width.toNat * 3) + icon.width.toNat * 3) = some (cutRow image top icon y) := by
    rw [hrgb, slice_eq (Nat.le_add_right _ _) (by rw [hlength]; exact hfit), List.drop_take,
      Nat.add_sub_cancel_left]
    exact congrArg some (by rw [cutPixels, hrest, List.take_left' hcut])
  have hwrite : overwrite (done ++ List.replicate k 0) ((top + y) * (image.width * 3))
      (cutRow image top icon y) = some (done ++ laidRow image top icon y ++
        List.replicate (k - image.width * 3) 0) := by
    have hsplit : k - icon.width.toNat * 3 =
        (image.width * 3 - icon.width.toNat * 3) + (k - image.width * 3) := by omega
    rw [overwrite_eq (by rw [List.length_append, List.length_replicate, hcut]; omega), ← hdone,
      List.take_left, ← List.drop_drop, List.drop_left, List.drop_replicate, hcut, hsplit,
      List.replicate_add, laidRow]
    simp only [List.append_assoc]
  unfold copyRow
  rw [hwidth, u32_eq hstart]
  show ((u32 (top + y)).bind fun row => _) = _
  rw [u32_eq (by omega), Option.bind_some]
  show ((u32 ((top + y) * image.width)).bind fun place => _) = _
  rw [u32_eq hplace, Option.bind_some]
  show ((slice p.rgb (y * icon.width.toNat * 3) (y * icon.width.toNat * 3 + icon.width.toNat * 3)).bind
    fun part => overwrite _ ((top + y) * image.width * 3) part) = _
  rw [Nat.mul_assoc, hslice, Option.bind_some, Nat.mul_assoc]
  exact hwrite

theorem copyRows_laid (himage : Whole image) {p : Picture} (hwidth : p.width = icon.width)
    (hrgb : p.rgb = cutPixels image top icon) (hwide : icon.width.toNat ≤ image.width)
    (hroom : top + icon.height.toNat ≤ image.height) {n k : Nat} (hn : n ≤ icon.height.toNat)
    {done : List UInt8} (hdone : done.length = top * (image.width * 3))
    (hk : n * (image.width * 3) ≤ k) :
    (List.range n).foldlM (copyRow image.width top p) (done ++ List.replicate k 0) =
      some (done ++ (List.range n).flatMap (laidRow image top icon) ++
        List.replicate (k - n * (image.width * 3)) 0) := by
  induction n with
  | zero =>
    rw [Nat.zero_mul, Nat.sub_zero]
    exact congrArg some (by rw [List.range_zero, List.flatMap_nil, List.append_nil])
  | succ n ih =>
    rw [Nat.succ_mul] at hk
    have hrows : ∀ y ∈ List.range n, (laidRow image top icon y).length = image.width * 3 := by
      intro y hy
      rw [List.mem_range] at hy
      exact length_laidRow himage hwide (by omega)
    have hlength : (done ++ (List.range n).flatMap (laidRow image top icon)).length =
        (top + n) * (image.width * 3) := by
      rw [List.length_append, hdone, length_flatMap_of hrows, List.length_range, Nat.add_mul]
    have hrow := copyRow_laid himage hwidth hrgb hwide hroom (show n < icon.height.toNat from hn)
      hlength (show image.width * 3 ≤ k - n * (image.width * 3) by omega)
    rw [List.range_succ, List.foldlM_append, ih (Nat.le_of_succ_le hn) (by omega)]
    show copyRow image.width top p _ n >>= pure = _
    rw [hrow, List.flatMap_append, List.flatMap_singleton, Nat.succ_mul, Nat.sub_sub,
      List.append_assoc done]
    rfl

/-- The rows of an icon in the image of the pictures. -/
theorem laidAll_row (himage : Whole image) {folder : Folder} {icons : List BniIcon} {i : Nat}
    (h : Exported image folder i top icons) {index : Nat} (hicon : icons[index]? = some icon) {y : Nat}
    (hy : y < icon.height.toNat) :
    ((laidAll image top icons).drop
      ((((icons.take index).map fun icon => icon.height.toNat).sum + y) * (image.width * 3))).take
        (icon.width.toNat * 3) =
      cutRow image (top + ((icons.take index).map fun icon => icon.height.toNat).sum) icon y := by
  induction icons generalizing i top index with
  | nil =>
    rw [List.getElem?_nil] at hicon
    cases hicon
  | cons first icons ih =>
    have hall := h.top_le
    obtain ⟨hwide, -, hrest⟩ := h
    rw [List.map_cons, List.sum_cons] at hall
    cases index with
    | zero =>
      obtain rfl := Option.some.inj hicon
      obtain ⟨rest, hdrop⟩ := drop_rows (@laidRows image top first himage hwide (by omega)) hy
      have hwithin : y * (image.width * 3) ≤ (laid image top first).length := by
        rw [length_laid himage hwide (by omega)]
        exact Nat.mul_le_mul_right _ (Nat.le_of_lt hy)
      have hcut := length_cutRow himage (hwide (by omega)) (show top + y < image.height by omega)
      rw [List.take_zero, List.map_nil, List.sum_nil, Nat.zero_add, Nat.add_zero, laidAll,
        List.drop_append_of_le_length hwithin, laid, hdrop, laidRow, List.append_assoc,
        List.append_assoc, List.take_left' hcut]
    | succ index =>
      have hmore := ih hrest hicon
      have hlength := length_laid himage hwide (show top + first.height.toNat ≤ image.height by omega)
      rw [List.take_succ_cons, List.map_cons, List.sum_cons, laidAll, Nat.add_assoc, Nat.add_mul,
        ← List.drop_drop, List.drop_left' hlength, hmore, Nat.add_assoc]

end Lay

/-! ## Reading the pictures -/

/-- The decoder reads what is written of a picture of an icon's size. -/
def Decodes (decoder : Decoder) (icon : BniIcon) : Prop :=
  ∀ pixels png, Png.rgb icon.width icon.height pixels = some png →
    decoder png = some ⟨icon.width, icon.height, .rgb, pixels⟩

/-- An icon without rows is one whose picture the decoder gives the size of the icon. -/
def DecodesEmpty (decoder : Decoder) (icon : BniIcon) : Prop :=
  icon.height = 0 → ∃ png frame, Png.rgb icon.width 0 [] = some png ∧ decoder png = some frame ∧
    frame.width = icon.width ∧ frame.height = 0 ∧ frame.color_type ≠ .indexed

section Read

variable {decoder : Decoder} {folder : Folder} {name : Text} {png : List UInt8}

theorem readPng_frame (hfile : folder name = some png) {frame : Frame}
    (hframe : decoder png = some frame) (hcolor : frame.color_type ≠ .indexed) :
    ∃ p, readPng decoder folder name = some (.ok p) ∧ p.width = frame.width ∧
      p.height = frame.height := by
  obtain ⟨width, height, color, buf⟩ := frame
  have hbyte : ∀ {n i : Nat} {p : List UInt8}, p.length = n → i < n → ∃ b, p[i]? = some b := by
    intro n i p hlength hi
    exact ⟨p[i], List.getElem?_eq_getElem (by omega)⟩
  unfold readPng
  rw [hfile]
  dsimp only
  rw [hframe]
  cases color with
  | rgb => exact ⟨_, rfl, rfl, rfl⟩
  | grayscale => exact ⟨_, rfl, rfl, rfl⟩
  | indexed => exact absurd rfl hcolor
  | rgba =>
    have hpixels : (chunksExact 4 buf).mapM rgbaPixel ≠ none := by
      refine mapM_ne_none.mpr fun p hp => ?_
      have hlength := length_of_mem_chunksExact hp
      obtain ⟨b₀, h₀⟩ := hbyte hlength (show 0 < 4 by decide)
      obtain ⟨b₁, h₁⟩ := hbyte hlength (show 1 < 4 by decide)
      obtain ⟨b₂, h₂⟩ := hbyte hlength (show 2 < 4 by decide)
      obtain ⟨b₃, h₃⟩ := hbyte hlength (show 3 < 4 by decide)
      rw [rgbaPixel, h₀, h₁, h₂, h₃]
      exact Option.some_ne_none _
    obtain ⟨pixels, hpixels⟩ := Option.ne_none_iff_exists'.mp hpixels
    dsimp only
    rw [hpixels]
    exact ⟨_, rfl, rfl, rfl⟩
  | grayscaleAlpha =>
    have hpixels : (chunksExact 2 buf).mapM grayAlphaPixel ≠ none := by
      refine mapM_ne_none.mpr fun p hp => ?_
      have hlength := length_of_mem_chunksExact hp
      obtain ⟨b₀, h₀⟩ := hbyte hlength (show 0 < 2 by decide)
      obtain ⟨b₁, h₁⟩ := hbyte hlength (show 1 < 2 by decide)
      rw [grayAlphaPixel, h₀, h₁]
      exact Option.some_ne_none _
    obtain ⟨pixels, hpixels⟩ := Option.ne_none_iff_exists'.mp hpixels
    dsimp only
    rw [hpixels]
    exact ⟨_, rfl, rfl, rfl⟩

theorem frame_of_readPng (hfile : folder name = some png) {p : Picture}
    (h : readPng decoder folder name = some (.ok p)) : ∃ frame, decoder png = some frame ∧
      frame.width = p.width ∧ frame.height = p.height ∧ frame.color_type ≠ .indexed := by
  unfold readPng at h
  rw [hfile] at h
  dsimp only at h
  split at h
  · cases Option.some.inj h
  · rename_i width height buf hframe
    obtain rfl := Except.ok.inj (Option.some.inj h)
    exact ⟨_, hframe, rfl, rfl, by rintro ⟨⟩⟩
  · rename_i width height buf hframe
    obtain ⟨pixels, _, h⟩ := Checked.bind_eq_ok.mp h
    obtain rfl := Except.ok.inj (Option.some.inj h)
    exact ⟨_, hframe, rfl, rfl, by rintro ⟨⟩⟩
  · rename_i width height buf hframe
    obtain rfl := Except.ok.inj (Option.some.inj h)
    exact ⟨_, hframe, rfl, rfl, by rintro ⟨⟩⟩
  · rename_i width height buf hframe
    obtain ⟨pixels, _, h⟩ := Checked.bind_eq_ok.mp h
    obtain rfl := Except.ok.inj (Option.some.inj h)
    exact ⟨_, hframe, rfl, rfl, by rintro ⟨⟩⟩
  · cases Option.some.inj h

theorem cutPixels_empty (image : Tga.Image) (top : Nat) {icon : BniIcon} (h : icon.height = 0) :
    cutPixels image top icon = [] := by
  rw [cutPixels, h]
  rfl

theorem readPng_exported {image : Tga.Image} {top : Nat} {icon : BniIcon}
    (hpng : Png.rgb icon.width icon.height (cutPixels image top icon) = some png)
    (hfile : folder name = some png) (hdecodes : 0 < icon.height.toNat → Decodes decoder icon)
    (hempty : DecodesEmpty decoder icon) :
    ∃ p, readPng decoder folder name = some (.ok p) ∧ p.width = icon.width ∧
      p.height = icon.height ∧ (0 < icon.height.toNat → p.rgb = cutPixels image top icon) := by
  by_cases hrows : 0 < icon.height.toNat
  · refine ⟨⟨icon.width, icon.height, cutPixels image top icon, false⟩, ?_, rfl, rfl, fun _ => rfl⟩
    unfold readPng
    rw [hfile]
    dsimp only
    rw [hdecodes hrows _ _ hpng]
    rfl
  · have hheight : icon.height = 0 := UInt32.toNat_inj.mp (Nat.eq_zero_of_not_pos hrows)
    obtain ⟨png', frame, hpng', hframe, hwidth, hzero, hcolor⟩ := hempty hheight
    rw [cutPixels_empty image top hheight, hheight, hpng'] at hpng
    obtain rfl := Option.some.inj hpng
    obtain ⟨p, hp, hw, hh⟩ := readPng_frame hfile hframe hcolor
    refine ⟨p, hp, hw.trans hwidth, ?_, fun hpos => absurd hpos hrows⟩
    rw [hh, hzero, hheight]

end Read

section Pictures

variable {decoder : Decoder} {image : Tga.Image} {folder : Folder}

/-- The pictures of exported icons give the image that they were in, but for the black beside
narrower ones. -/
theorem layPictures_exported (himage : Whole image) {icons : List BniIcon} {i top : Nat}
    (h : Exported image folder i top icons)
    (hdecodes : ∀ icon ∈ icons, (0 < icon.height.toNat → Decodes decoder icon) ∧
      DecodesEmpty decoder icon) {done : List UInt8} (hdone : done.length = top * (image.width * 3)) :
    ∃ notes, layPictures decoder folder image.width i top (entriesFrom i icons)
      (done ++ List.replicate ((icons.map fun icon => icon.height.toNat).sum * (image.width * 3)) 0) =
        some (.ok (done ++ laidAll image top icons, notes)) := by
  induction icons generalizing i top done with
  | nil =>
    refine ⟨[], ?_⟩
    rw [List.map_nil, List.sum_nil, Nat.zero_mul]
    rfl
  | cons icon icons ih =>
    have hall := h.top_le
    obtain ⟨hwide, ⟨png, hpng, hfile⟩, hrest⟩ := h
    rw [List.forall_mem_cons] at hdecodes
    obtain ⟨p, hread, hwidth, hheight, hrgb⟩ :=
      readPng_exported hpng hfile hdecodes.1.1 hdecodes.1.2
    rw [List.map_cons, List.sum_cons] at hall ⊢
    have hroom : top + icon.height.toNat ≤ image.height := by omega
    have hsame : ¬ (p.width, p.height) ≠ (icon.width, icon.height) := by
      rw [hwidth, hheight]
      exact not_not.mpr rfl
    have hlength : (done ++ laid image top icon).length =
        (top + icon.height.toNat) * (image.width * 3) := by
      rw [List.length_append, hdone, length_laid himage hwide hroom, Nat.add_mul]
    have hsplit : (icon.height.toNat + (icons.map fun icon => icon.height.toNat).sum) *
        (image.width * 3) = icon.height.toNat * (image.width * 3) +
          (icons.map fun icon => icon.height.toNat).sum * (image.width * 3) := Nat.add_mul _ _ _
    have hrows : (List.range p.height.toNat).foldlM (copyRow image.width top p)
        (done ++ List.replicate (icon.height.toNat * (image.width * 3) +
          (icons.map fun icon => icon.height.toNat).sum * (image.width * 3)) 0) =
            some (done ++ laid image top icon ++ List.replicate
              ((icons.map fun icon => icon.height.toNat).sum * (image.width * 3)) 0) := by
      rw [hheight]
      by_cases hpos : 0 < icon.height.toNat
      · rw [copyRows_laid himage hwidth (hrgb hpos) (hwide hpos) hroom (Nat.le_refl _) hdone
          (Nat.le_add_right _ _), Nat.add_sub_cancel_left]
        rfl
      · rw [laid, Nat.eq_zero_of_not_pos hpos, Nat.zero_mul, Nat.zero_add, List.range_zero,
          List.flatMap_nil, List.append_nil]
        rfl
    have htop : u32 (top + p.height.toNat) = some (top + icon.height.toNat) := by
      rw [hheight]
      exact u32_eq (by have := himage.height; omega)
    obtain ⟨notes, hmore⟩ := ih hrest hdecodes.2 hlength
    rw [hsplit]
    refine ⟨(if p.see_through then [.seeThrough (nameOf i icon)] else []) ++ notes,
      Checked.bind_eq_ok.mpr ⟨p, hread, Checked.guard_eq_ok.mpr ⟨hsame, ?_⟩⟩⟩
    refine Checked.bind_eq_ok.mpr ⟨_, Checked.liftOption_eq_ok.mpr hrows, ?_⟩
    refine Checked.bind_eq_ok.mpr ⟨_, Checked.liftOption_eq_ok.mpr htop, ?_⟩
    refine Checked.bind_eq_ok.mpr ⟨_, hmore, ?_⟩
    rw [List.append_assoc]
    rfl

theorem decodesEmpty_of_layPictures {icons : List BniIcon} {i top width : Nat} {start : Nat}
    (h : Exported image folder i top icons) {buffer : List UInt8} {r : List UInt8 × List Note}
    (hlay : layPictures decoder folder width i start (entriesFrom i icons) buffer = some (.ok r)) :
    ∀ icon ∈ icons, DecodesEmpty decoder icon := by
  induction icons generalizing i top start buffer r with
  | nil => exact List.forall_mem_nil _
  | cons icon icons ih =>
    obtain ⟨-, ⟨png, hpng, hfile⟩, hrest⟩ := h
    obtain ⟨p, hread, hlay⟩ := Checked.bind_eq_ok.mp hlay
    obtain ⟨hsame, hlay⟩ := Checked.guard_eq_ok.mp hlay
    obtain ⟨buffer', _, hlay⟩ := Checked.bind_eq_ok.mp hlay
    obtain ⟨start', _, hlay⟩ := Checked.bind_eq_ok.mp hlay
    obtain ⟨r', hmore, _⟩ := Checked.bind_eq_ok.mp hlay
    refine List.forall_mem_cons.mpr ⟨fun hheight => ?_, ih hrest hmore⟩
    obtain ⟨frame, hframe, hw, hh, hcolor⟩ := frame_of_readPng hfile hread
    obtain ⟨hwidth, hzero⟩ := Prod.mk.inj (not_not.mp hsame)
    have hwidth' : p.width = icon.width := hwidth
    have hzero' : p.height = icon.height := hzero
    rw [cutPixels_empty image top hheight, hheight] at hpng
    exact ⟨png, frame, hpng, hframe, hw.trans hwidth', by rw [hh, hzero', hheight], hcolor⟩

end Pictures

/-! ## Whole files -/

/-- How far down an icon is in the image. -/
def topOf (icons : List BniIcon) (index : Nat) : Nat :=
  ((icons.take index).map fun icon => icon.height.toNat).sum

/-- A folder gives a file of the same icons, each with the same pixels. -/
def PacksBack (decoder : Decoder) (disk : Disk) (folder : Folder) (file : BniFile)
    (image : Tga.Image) : Prop :=
  ∃ packed file' image', pack decoder disk folder = some (.ok packed) ∧
    parse packed.bytes = some (.ok file') ∧ file'.icons = file.icons ∧
    Tga.decode file'.image = some (.ok image') ∧
    ∀ index icon, file.icons[index]? = some icon → ∀ y < icon.height.toNat,
      cutRow image' (topOf file.icons index) icon y = cutRow image (topOf file.icons index) icon y

section Files

variable {decoder : Decoder} {disk : Disk} {file : BniFile} {image : Tga.Image}

theorem map_entries {α : Type} (f : Entry → α) (g : BniIcon → α)
    (h : ∀ i icon, f (entryOf i icon) = g icon) (i : Nat) (icons : List BniIcon) :
    (entriesFrom i icons).map f = icons.map g := by
  induction icons generalizing i with
  | nil => rfl
  | cons icon icons ih => rw [entriesFrom, List.map_cons, List.map_cons, h, ih]

theorem whole_of_decode {bytes : List UInt8} (h : Tga.decode bytes = some (.ok image)) :
    Whole image := by
  obtain ⟨-, hw, hh, hw', hh', hpixels⟩ := Tga.decode_ok h
  exact ⟨⟨hw, hw'⟩, ⟨hh, hh'⟩, hpixels⟩

theorem tgaHeader_of_decode (h : Tga.decode file.image = some (.ok image)) :
    ∃ tga, TgaHeader.parse file.image = some tga ∧ tga.width.toNat = image.width ∧
      tga.height.toNat = image.height := by
  obtain ⟨⟨header, hheader, hlong, hwidth, hheight⟩, -⟩ := Tga.decode_ok h
  have hbyte : ∀ {i : Nat} (hi : i < 18), (file.image.take 18)[i]? = some (file.image[i]) := by
    intro i hi
    rw [List.getElem?_take_of_lt hi, List.getElem?_eq_getElem]
  unfold Tga.readHeader at hheader
  rw [hbyte (show 0 < 18 by decide), hbyte (show 2 < 18 by decide), hbyte (show 12 < 18 by decide),
    hbyte (show 13 < 18 by decide), hbyte (show 14 < 18 by decide), hbyte (show 15 < 18 by decide),
    hbyte (show 16 < 18 by decide), hbyte (show 17 < 18 by decide)] at hheader
  have hfields := Option.some.inj hheader
  rw [← hfields] at hwidth hheight
  exact ⟨_, dif_neg (Nat.not_lt.mpr hlong), hwidth, hheight⟩

theorem sizes_of_validate (himage : Tga.decode file.image = some (.ok image))
    (hvalid : validate file = []) :
    file.widest.toNat = image.width ∧ (sumU32 file.heights).toNat = image.height := by
  obtain ⟨tga, htga, hwidth, hheight⟩ := tgaHeader_of_decode himage
  have hnone : ∀ w, w ∉ validate file := by
    intro w hw
    rw [hvalid] at hw
    cases hw
  constructor
  · by_contra hne
    refine hnone _ ((BniFile.mem_validate htga).mpr (.inr (.inr (.inr (.inl ⟨?_, rfl⟩)))))
    rintro heq
    exact hne (by rw [← heq, UInt16.toNat_toUInt32, hwidth])
  · by_contra hne
    refine hnone _ ((BniFile.mem_validate htga).mpr (.inr (.inr (.inr (.inr ⟨?_, rfl⟩)))))
    rintro heq
    exact hne (by rw [← heq, UInt16.toNat_toUInt32, hheight])

theorem exportTo_ok {bytes : List UInt8} {folder folder' : Folder} {count : Nat}
    (hparse : parse bytes = some (.ok file)) (himage : Tga.decode file.image = some (.ok image))
    (h : exportTo disk bytes folder = some (.ok (folder', count))) :
    Exported image folder' 0 0 file.icons ∧
      folder' listName = some (Text.asBytes (listOf file.icons)) := by
  obtain ⟨mpq, _, h⟩ := Checked.bind_eq_ok.mp h
  obtain ⟨_, h⟩ := Checked.guard_eq_ok.mp h
  obtain ⟨file', hfile, h⟩ := Checked.bind_eq_ok.mp h
  have hsame := Checked.adapt_eq_ok.mp hfile
  rw [hparse] at hsame
  obtain rfl := Except.ok.inj (Option.some.inj hsame)
  obtain ⟨image', himage', h⟩ := Checked.bind_eq_ok.mp h
  have hsame' := Checked.adapt_eq_ok.mp himage'
  rw [himage] at hsame'
  obtain rfl := Except.ok.inj (Option.some.inj hsame')
  obtain ⟨_, h⟩ := Checked.guard_eq_ok.mp h
  obtain ⟨⟨folder'', lines⟩, hicons, h⟩ := Checked.bind_eq_ok.mp h
  obtain ⟨_, h⟩ := Checked.guard_eq_ok.mp h
  obtain ⟨rfl, _⟩ := Prod.mk.inj (Except.ok.inj (Option.some.inj h))
  obtain ⟨rfl, hexported⟩ := exportIcons_ok (Nat.zero_le _) hicons
  exact ⟨hexported.write _, if_pos rfl⟩

theorem readToString_asBytes (s : Text) : readToString s.asBytes = some s := by
  unfold readToString
  dsimp only
  rw [Text.fromUtf8Lossy_asBytes, if_pos rfl]

theorem pack_list {folder : Folder} {icons : List BniIcon}
    (hlist : folder listName = some (Text.asBytes (listOf icons))) :
    pack decoder disk folder = packList decoder disk folder (parseList (listOf icons)) := by
  unfold pack
  rw [hlist, Option.bind_some, readToString_asBytes]

theorem length_laidAll {folder : Folder} (hwhole : Whole image) {icons : List BniIcon} {i top : Nat}
    (h : Exported image folder i top icons) : (laidAll image top icons).length =
      (icons.map fun icon => icon.height.toNat).sum * (image.width * 3) := by
  induction icons generalizing i top with
  | nil => exact (Nat.zero_mul _).symm
  | cons icon icons ih =>
    have hroom := h.top_le
    obtain ⟨hwide, -, hrest⟩ := h
    rw [List.map_cons, List.sum_cons] at hroom ⊢
    rw [laidAll, List.length_append, ih hrest, length_laid hwhole hwide (by omega), Nat.add_mul]

theorem packEntries_exported {folder : Folder} (hencodable : file.Encodable)
    (himage : Tga.decode file.image = some (.ok image)) (hvalid : validate file = [])
    (hexported : Exported image folder 0 0 file.icons) (hpacks : disk.packs = true)
    (hdecodes : ∀ icon ∈ file.icons, (0 < icon.height.toNat → Decodes decoder icon) ∧
      DecodesEmpty decoder icon) :
    ∃ packed file', packEntries decoder disk folder (entriesFrom 0 file.icons) = some (.ok packed) ∧
      parse packed.bytes = some (.ok file') ∧ file'.icons = file.icons ∧
      Tga.decode file'.image =
        some (.ok ⟨image.width, image.height, laidAll image 0 file.icons⟩) := by
  have hwhole := whole_of_decode himage
  obtain ⟨hwidth, hheight⟩ := sizes_of_validate himage hvalid
  have hall := hexported.top_le
  rw [Nat.zero_add] at hall
  have hsum : (file.heights.map UInt32.toNat).sum =
      (file.icons.map fun icon => icon.height.toNat).sum := BniFile.totalHeight_eq
  have hsmall : (file.heights.map UInt32.toNat).sum < 2 ^ 32 := by
    have hh := hwhole.height
    omega
  have htotal : (file.icons.map fun icon => icon.height.toNat).sum = image.height := by
    rw [← hheight, toNat_sumU32 hsmall, hsum]
  have hwidths : ((entriesFrom 0 file.icons).map Entry.width).max?.getD 0 = file.widest := by
    rw [map_entries Entry.width BniIcon.width fun _ _ => rfl]
    rfl
  have hheights : checkedSumU32 ((entriesFrom 0 file.icons).map Entry.height) =
      some (sumU32 file.heights) := by
    rw [map_entries Entry.height BniIcon.height fun _ _ => rfl]
    exact checkedSumU32_eq hsmall
  have hicons : (entriesFrom 0 file.icons).map Entry.icon = file.icons := by
    rw [map_entries Entry.icon id fun _ _ => rfl, List.map_id]
  have hsize : u32 (file.widest.toNat * (sumU32 file.heights).toNat) =
      some (image.width * image.height) := by
    rw [hwidth, hheight]
    exact u32_eq (Nat.lt_of_lt_of_le (Nat.mul_lt_mul'' hwhole.width.2 hwhole.height.2) (by decide))
  obtain ⟨notes, hlay⟩ := layPictures_exported hwhole hexported hdecodes
    (show ([] : List UInt8).length = 0 * (image.width * 3) by rw [Nat.zero_mul]; rfl)
  have hblank : image.height * (image.width * 3) = image.width * image.height * 3 := by
    rw [Nat.mul_comm image.width image.height, Nat.mul_assoc]
  rw [List.nil_append, List.nil_append, htotal, hblank] at hlay
  have hlength : (laidAll image 0 file.icons).length = image.height * image.width * 3 := by
    rw [length_laidAll hwhole hexported, htotal, Nat.mul_assoc]
  obtain ⟨rows, -, -, hencode, hdecode⟩ := Tga.encode_read hwhole.width hwhole.height hlength
  generalize Tga.headerOf image.width image.height ++ rows.flatten.flatMap Tga.Packet.bytes = tga
    at hencode hdecode
  have hfile : BniFile.Encodable ⟨version, file.icons, tga⟩ :=
    ⟨rfl, hencodable.icons, hencodable.dataOffset⟩
  have hparse := parse_layout hfile 0
  refine ⟨⟨build ⟨version, file.icons, tga⟩, (entriesFrom 0 file.icons).length,
    notes ++ (validate ⟨version, file.icons, tga⟩).map Note.warning⟩, ⟨version, file.icons, tga⟩, ?_,
      hparse, rfl, hdecode⟩
  refine Checked.bind_eq_ok.mpr ⟨_, Checked.liftOption_eq_ok.mpr hheights, ?_⟩
  rw [hwidths]
  refine Checked.bind_eq_ok.mpr ⟨_, Checked.liftOption_eq_ok.mpr hsize, ?_⟩
  rw [hwidth, hheight]
  refine Checked.bind_eq_ok.mpr ⟨_, hlay, ?_⟩
  refine Checked.bind_eq_ok.mpr ⟨_, Checked.liftOption_eq_ok.mpr hencode, ?_⟩
  rw [hicons]
  refine Checked.bind_eq_ok.mpr ⟨_, Checked.adapt_eq_ok.mpr hparse, Checked.guard_eq_ok.mpr ⟨?_, rfl⟩⟩
  rw [hpacks]
  exact Bool.noConfusion

theorem packList_entries {folder : Folder} {icons : List BniIcon} (hsome : icons ≠ []) :
    packList decoder disk folder (.ok (entriesFrom 0 icons)) =
      packEntries decoder disk folder (entriesFrom 0 icons) := by
  obtain ⟨icon, rest, rfl⟩ := List.exists_cons_of_ne_nil hsome
  rfl

/-- **When exported icons pack back.** Of a file that is read, in which nothing is found wrong and
whose icons have been exported, an untouched folder gives a file of the same icons and pixels just
if every code is four printable characters other than a comma and a `#`, and no icon is without
rows, unless the decoder gives such a picture. -/
theorem pack_exported_iff {bytes : List UInt8} {folder folder' : Folder} {count : Nat}
    (hparse : parse bytes = some (.ok file)) (himage : Tga.decode file.image = some (.ok image))
    (hvalid : validate file = [])
    (hexport : exportTo disk bytes folder = some (.ok (folder', count)))
    (hdecoder : ∀ icon ∈ file.icons, 0 < icon.height.toNat → Decodes decoder icon)
    (hpacks : disk.packs = true) :
    PacksBack decoder disk folder' file image ↔
      ∀ icon ∈ file.icons, (∀ code ∈ icon.codes, IsPlain code) ∧ DecodesEmpty decoder icon := by
  obtain ⟨hexported, hlist⟩ := exportTo_ok hparse himage hexport
  have hencodable := (parse_eq_ok_iff.mp hparse).1
  have hwhole := whole_of_decode himage
  have hroom : file.icons.length ≤ 2 ^ 64 := by
    have hcount := file.length_icons_le
    have hoffset := hencodable.dataOffset
    omega
  have hsome : file.icons ≠ [] := by
    intro hnone
    obtain ⟨-, hheight⟩ := sizes_of_validate himage hvalid
    have hpos := hwhole.height.1
    rw [← hheight, BniFile.heights, hnone] at hpos
    exact Nat.lt_irrefl 0 hpos
  obtain ⟨hplain, hnotPlain⟩ := @parseList_listOf file.icons hroom
  have hpack := @pack_list decoder disk folder' file.icons hlist
  constructor
  · rintro ⟨packed, file', image', hpacked, -⟩
    rw [hpack] at hpacked
    by_cases hcodes : ∀ icon ∈ file.icons, ∀ code ∈ icon.codes, IsPlain code
    · rw [hplain hcodes, packList_entries hsome] at hpacked
      obtain ⟨height, _, hpacked⟩ := Checked.bind_eq_ok.mp hpacked
      obtain ⟨size, _, hpacked⟩ := Checked.bind_eq_ok.mp hpacked
      obtain ⟨r, hlay, _⟩ := Checked.bind_eq_ok.mp hpacked
      exact fun icon hicon =>
        ⟨hcodes icon hicon, decodesEmpty_of_layPictures hexported hlay icon hicon⟩
    · obtain ⟨e, he⟩ := hnotPlain hcodes
      rw [he] at hpacked
      cases Option.some.inj hpacked
  · intro h
    obtain ⟨packed, file', hpacked, hread, hicons, hdecode⟩ :=
      packEntries_exported hencodable himage hvalid hexported hpacks fun icon hicon =>
        ⟨hdecoder icon hicon, (h icon hicon).2⟩
    refine ⟨packed, file', _, ?_, hread, hicons, hdecode, fun index icon hicon y hy => ?_⟩
    · rw [hpack, hplain fun icon hicon => (h icon hicon).1, packList_entries hsome, hpacked]
    · have hrow := laidAll_row hwhole hexported hicon hy
      rw [Nat.zero_add] at hrow
      exact hrow

end Files

/-! ## Two icons -/

/-- A file of two icons, a wide one and one for the code. -/
def pair (code : FourCc) : BniFile where
  version := version
  icons := [⟨0, 2, 1, [Product.star]⟩, ⟨0, 1, 1, [code]⟩]
  image := Tga.headerOf 2 2 ++
    (Tga.Packet.literal [⟨30, 20, 10⟩, ⟨31, 21, 11⟩, ⟨32, 22, 12⟩, ⟨33, 23, 13⟩]).bytes

def pairImage : Tga.Image := ⟨2, 2, [10, 20, 30, 11, 21, 31, 12, 22, 32, 13, 23, 33]⟩

/-- A decoder of pictures whose rows are in one stored block. -/
def decodeStored : Decoder := fun png =>
  match png.drop 16 with
  | w₀ :: w₁ :: w₂ :: w₃ :: h₀ :: h₁ :: h₂ :: h₃ :: _ =>
    let width := fromBeBytes w₀ w₁ w₂ w₃
    let height := fromBeBytes h₀ h₁ h₂ h₃
    let row := width.toNat * 3 + 1
    some ⟨width, height, .rgb,
      (chunksExact row ((png.drop 48).take (height.toNat * row))).flatMap fun r => r.drop 1⟩
  | _ => none

/-- A disk that takes every file. -/
def openDisk : Disk := ⟨true, fun _ => true, true⟩

/-- How many pictures were written, if they were. -/
def wrote : Checked PackError (Folder × Nat) → Option Nat
  | some (.ok (_, count)) => some count
  | _ => none

theorem exists_of_wrote {x : Checked PackError (Folder × Nat)} {count : Nat}
    (h : wrote x = some count) : ∃ folder, x = some (.ok (folder, count)) := by
  unfold wrote at h
  split at h
  · obtain rfl := Option.some.inj h
    exact ⟨_, rfl⟩
  · cases h

theorem storedBlocks_short {raw : List UInt8} (h : raw.length ≤ 0xFFFF) :
    Png.storedBlocks raw = 1 :: (toLeBytes (.ofNat raw.length : UInt16) ++
      toLeBytes (~~~ (.ofNat raw.length : UInt16)) ++ raw) := by
  rw [Png.storedBlocks]
  rw [List.drop_eq_nil_of_le h, List.take_of_length_le h, if_pos rfl, if_pos rfl, Nat.min_eq_left h]

theorem decodes_stored {icon : BniIcon}
    (hsmall : icon.height.toNat * (icon.width.toNat * 3 + 1) ≤ 0xFFFF) :
    Decodes decodeStored icon := by
  intro pixels png hpng
  obtain ⟨hwide, hlength⟩ := Png.rgb_ne_none (Option.ne_none_iff_exists'.mpr ⟨png, hpng⟩)
  have hlength : pixels.length = icon.height.toNat * (icon.width.toNat * 3) := by
    rw [hlength, Nat.mul_comm icon.width.toNat, Nat.mul_assoc]
  have hrows : ∀ row ∈ chunksExact (icon.width.toNat * 3) pixels,
      (0 :: row).length = icon.width.toNat * 3 + 1 := fun row hrow => by
    rw [List.length_cons, length_of_mem_chunksExact hrow]
  generalize hraw : (chunksExact (icon.width.toNat * 3) pixels).flatMap
    (fun row => (0 : UInt8) :: row) = raw at *
  have hsize : raw.length = icon.height.toNat * (icon.width.toNat * 3 + 1) := by
    rw [← hraw, length_flatMap_of hrows,
      show (chunksExact _ pixels).length = icon.height.toNat from ?_]
    rw [chunksExact, List.length_map, List.length_range, hlength, Nat.mul_div_cancel _ (by omega)]
  have hpixels : (chunksExact (icon.width.toNat * 3 + 1) raw).flatMap (fun row => row.drop 1) =
      pixels := by
    rw [← hraw, chunksExact_flatMap (Nat.succ_pos _) hrows, List.flatMap_map]
    exact List.flatMap_id'.trans (flatten_chunksExact hlength)
  obtain ⟨size, _, hpng⟩ := Option.bind_eq_some_iff.mp hpng
  obtain ⟨wanted, _, hpng⟩ := Option.bind_eq_some_iff.mp hpng
  split at hpng
  · cases hpng
  obtain ⟨stride, hstride, hpng⟩ := Option.bind_eq_some_iff.mp hpng
  obtain rfl : stride = icon.width.toNat * 3 := eq_of_u32 hstride
  split at hpng
  · cases hpng
  have hpng : some ([0x89, 0x50, 0x4E, 0x47, 0x0D, 0x0A, 0x1A, 0x0A] ++
      Png.chunk [0x49, 0x48, 0x44, 0x52]
        (toBeBytes icon.width ++ toBeBytes icon.height ++ [8, 2, 0, 0, 0]) ++
      Png.chunk [0x49, 0x44, 0x41, 0x54] (Png.storedZlib raw) ++
      Png.chunk [0x49, 0x45, 0x4E, 0x44] []) = some png := by
    rw [← hraw]
    exact hpng
  obtain rfl := Option.some.inj hpng
  rw [Png.storedZlib, storedBlocks_short (hsize.trans_le hsmall)]
  unfold decodeStored
  -- the block, a checksum, another one and the last chunk
  show (some ⟨fromBeBytes _ _ _ _, fromBeBytes _ _ _ _, .rgb, (chunksExact _
    ((((raw ++ (_ : List UInt8)) ++ (_ : List UInt8)) ++ (_ : List UInt8)).take _)).flatMap _⟩ :
      Option Frame) = _
  rw [fromBeBytes_toBeBytes, fromBeBytes_toBeBytes, List.append_assoc, List.append_assoc,
    List.take_left' hsize, hpixels]

section Pair

variable {code : FourCc}

theorem decodes_pair (code : FourCc) :
    ∀ icon ∈ (pair code).icons, 0 < icon.height.toNat → Decodes decodeStored icon := by
  rw [pair, List.forall_mem_cons, List.forall_mem_singleton]
  exact ⟨fun _ => decodes_stored (by decide : 1 * (2 * 3 + 1) ≤ 0xFFFF),
    fun _ => decodes_stored (by decide : 1 * (1 * 3 + 1) ≤ 0xFFFF)⟩

theorem parse_pair (hcode : code.value ≠ 0) : parse (build (pair code)) = some (.ok (pair code)) := by
  refine parse_layout ⟨rfl, ?_, by show 56 < 2 ^ 32; decide⟩ 0
  rw [pair, List.forall_mem_cons, List.forall_mem_singleton]
  exact ⟨by decide, by show 1 ≤ 31; decide, List.forall_mem_singleton.mpr hcode⟩

theorem decode_pair (code : FourCc) : Tga.decode (pair code).image = some (.ok pairImage) := by
  have hread := @Tga.decode_packets 2 2 (by decide) (by decide)
    [.literal [⟨30, 20, 10⟩, ⟨31, 21, 11⟩, ⟨32, 22, 12⟩, ⟨33, 23, 13⟩]]
    (List.forall_mem_singleton.mpr ⟨by decide, by decide⟩) rfl
  exact hread

theorem validate_pair (code : FourCc) : validate (pair code) = [] := rfl

/-- The icons of two products are packed back. -/
theorem pack_exported_star : ∃ folder,
    exportTo openDisk (build (pair Product.sexp)) (fun _ => none) = some (.ok (folder, 2)) ∧
      PacksBack decodeStored openDisk folder (pair Product.sexp) pairImage := by
  have hcode : Product.sexp.value ≠ 0 := by decide
  obtain ⟨folder, hexport⟩ : ∃ folder,
      exportTo openDisk (build (pair Product.sexp)) (fun _ => none) = some (.ok (folder, 2)) :=
    exists_of_wrote (by decide +kernel)
  refine ⟨folder, hexport, (pack_exported_iff (parse_pair hcode) (decode_pair _) (validate_pair _)
    hexport (decodes_pair _) rfl).mpr ?_⟩
  refine List.forall_mem_cons.mpr ⟨⟨?_, ?_⟩, List.forall_mem_singleton.mpr ⟨?_, ?_⟩⟩
  · exact List.forall_mem_singleton.mpr (by decide)
  · exact fun hheight => absurd hheight (by decide)
  · exact List.forall_mem_singleton.mpr (by decide)
  · exact fun hheight => absurd hheight (by decide)

/-- Behind a `#` in a code, its line is taken for a comment. -/
theorem hash_not_packed : ¬ ∀ (decoder : Decoder) (disk : Disk) (bytes : List UInt8) (file : BniFile)
    (image : Tga.Image) (folder folder' : Folder) (count : Nat),
    parse bytes = some (.ok file) → Tga.decode file.image = some (.ok image) → validate file = [] →
      (∃ icon ∈ file.icons, 0 < icon.width.toNat ∧ 0 < icon.height.toNat) →
      exportTo disk bytes folder = some (.ok (folder', count)) →
      (∀ icon ∈ file.icons, 0 < icon.height.toNat → Decodes decoder icon) → disk.packs = true →
      PacksBack decoder disk folder' file image := by
  intro h
  have hcode : (FourCc.fromAscii 'A' '#' 'B' 'C').value ≠ 0 := by decide
  obtain ⟨folder, hexport⟩ : ∃ folder, exportTo openDisk (build (pair (.fromAscii 'A' '#' 'B' 'C')))
      (fun _ => none) = some (.ok (folder, 2)) := exists_of_wrote (by decide +kernel)
  obtain ⟨packed, _, _, hpacked, -⟩ := h decodeStored openDisk _ _ _ _ _ _ (parse_pair hcode)
    (decode_pair _) (validate_pair _) ⟨_, List.mem_cons_self, by decide, by decide⟩ hexport
    (decodes_pair _) rfl
  obtain ⟨_, hlist⟩ := exportTo_ok (parse_pair hcode) (decode_pair _) hexport
  have hbad : ¬ ∀ icon ∈ (pair (.fromAscii 'A' '#' 'B' 'C')).icons, ∀ code ∈ icon.codes,
      IsPlain code := by
    intro hplain
    have hcodes := hplain ⟨0, 1, 1, [.fromAscii 'A' '#' 'B' 'C']⟩
      (List.mem_cons_of_mem _ (List.mem_singleton.mpr rfl))
    exact absurd (List.forall_mem_singleton.mp hcodes) (by decide)
  obtain ⟨e, he⟩ := (@parseList_listOf (pair (.fromAscii 'A' '#' 'B' 'C')).icons
    (by show 2 ≤ 2 ^ 64; decide)).2 hbad
  rw [pack_list hlist, he] at hpacked
  cases Option.some.inj hpacked

end Pair

end CommandCenter.Formats.IconPack
