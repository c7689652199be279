import CommandCenter.Formats.GifCodes

/-!
# A GIF that is read back

What `decode_frames` of `crates/d2-formats/src/gif.rs` makes of what `encode` writes.

* `readBlocks_subBlocks`: the data of a frame.
* `framesReadBack_iff`: an animation is read back just if of no frame the end code is the last of
  its bytes and read longer than it was written.
* `pairsFrame`: a frame where it is.
-/

namespace CommandCenter.Formats.Gif

open Rust Library

/-! ## Parts of a file -/

/-- The data of a frame stands in its blocks. -/
theorem readBlocks_subBlocks (data left : List UInt8) :
    readBlocks (subBlocks data ++ 0 :: left) = some (data, left) := by
  induction hlen : data.length using Nat.strong_induction_on generalizing data with
  | _ n ih =>
    subst hlen
    rw [subBlocks]
    split
    · rename_i hnil
      rw [hnil, List.nil_append, readBlocks, if_pos rfl]
    · rename_i hne
      have hpos := List.length_pos_of_ne_nil hne
      have htake : (data.take 255).length = min 255 data.length := List.length_take
      have hbyte : (UInt8.ofNat (data.take 255).length).toNat = (data.take 255).length := by
        rw [UInt8.toNat_ofNat']
        omega
      have hzero : UInt8.ofNat (data.take 255).length ≠ 0 := by
        intro h
        rw [h] at hbyte
        change 0 = _ at hbyte
        omega
      have hrest := ih (data.drop 255).length (by rw [List.length_drop]; omega) (data.drop 255) rfl
      rw [List.cons_append, List.append_assoc, readBlocks, if_neg hzero, hbyte,
        List.drop_left, List.take_left, hrest, if_neg (by rw [List.length_append]; omega)]
      show some (data.take 255 ++ data.drop 255, left) = _
      rw [List.take_append_drop]

theorem skipBlocks_cons {len : UInt8} (hlen : len ≠ 0) {block : List UInt8}
    (hblock : block.length = len.toNat) (left : List UInt8) :
    skipBlocks (len :: (block ++ left)) = skipBlocks left := by
  rw [skipBlocks, if_neg hlen, List.drop_left' hblock]

theorem skipBlocks_end (left : List UInt8) : skipBlocks (0 :: left) = some left := by
  rw [skipBlocks, if_pos rfl]

section Parts

variable (width height : UInt16) (fuel : Nat)

theorem framesFrom_extension (label : UInt8) {blocks left : List UInt8}
    (h : skipBlocks blocks = some left) :
    framesFrom width height (fuel + 1) (0x21 :: label :: blocks) =
      framesFrom width height fuel left := by
  rw [framesFrom]
  show (skipBlocks blocks).bind _ = _
  rw [h]
  rfl

theorem framesFrom_image (data left : List UInt8) :
    framesFrom width height (fuel + 1)
        (0x2C :: ([0, 0, 0, 0] ++ toLeBytes width ++ toLeBytes height ++ [0] ++ [8] ++
          (subBlocks data ++ 0 :: left))) =
      (unlzw data).bind fun pixels =>
        if pixels.length ≠ width.toNat * height.toNat then none
        else (framesFrom width height fuel left).map (pixels :: ·) := by
  rw [framesFrom]
  show (readBlocks (subBlocks data ++ 0 :: left)).bind _ = _
  rw [readBlocks_subBlocks, Option.bind_some]
  show (unlzw data).bind _ = _
  refine congrArg (Option.bind (unlzw data)) (funext fun pixels => ?_)
  split
  · rfl
  · cases framesFrom width height fuel left <;> rfl

end Parts

/-! ## Frames -/

def ReadsBack (frame : List UInt8) : Prop := ¬ EndsFlush (phraseCount 3838 frame)

instance (frame : List UInt8) : Decidable (ReadsBack frame) := by
  unfold ReadsBack
  infer_instance

/-- What is written of a frame is two parts or more, and gives the frame if it is read back. -/
theorem framesFrom_frame {a : Animation} {i : Nat} {frame bytes : List UInt8}
    (h : a.encodeFrame i frame = some bytes) (left : List UInt8) :
    2 ≤ bytes.length ∧ ∀ fuel, framesFrom a.width a.height (fuel + 2) (bytes ++ left) =
      if ReadsBack frame then (framesFrom a.width a.height fuel left).map (frame :: ·)
      else none := by
  rw [Animation.encodeFrame] at h
  split at h
  · cases h
  · rename_i hsize
    obtain rfl := Option.some.inj h
    refine ⟨Nat.le_add_left 2 _, fun fuel => ?_⟩
    have hparts : [0x21, 0xF9, 0x04, 0x09] ++ toLeBytes (a.delay i) ++ [a.transparent, 0x00] ++
        [0x2C] ++ [0, 0, 0, 0] ++ toLeBytes a.width ++ toLeBytes a.height ++ [0] ++ [8] ++
        subBlocks (lzw frame) ++ [0] ++ left =
      0x21 :: 0xF9 :: 4 :: (([0x09] ++ toLeBytes (a.delay i) ++ [a.transparent]) ++ 0 ::
        (0x2C :: ([0, 0, 0, 0] ++ toLeBytes a.width ++ toLeBytes a.height ++ [0] ++ [8] ++
          (subBlocks (lzw frame) ++ 0 :: left)))) := by
      simp only [List.append_assoc, List.cons_append, List.nil_append]
    have hblock : ([0x09] ++ toLeBytes (a.delay i) ++ [a.transparent]).length =
      (4 : UInt8).toNat := rfl
    have hcontrol (left : List UInt8) : skipBlocks (4 :: (([0x09] ++ toLeBytes (a.delay i) ++
        [a.transparent]) ++ 0 :: left)) = some left :=
      (skipBlocks_cons (by decide) hblock _).trans (skipBlocks_end left)
    rw [hparts, framesFrom_extension _ _ _ _ (hcontrol _), framesFrom_image, unlzw_lzw]
    by_cases hback : ReadsBack frame
    · rw [if_pos hback, if_neg (show ¬ EndsFlush _ from hback), Option.bind_some, if_neg hsize]
    · rw [if_neg hback, if_pos (not_not.mp (show ¬¬ EndsFlush _ from hback))]
      rfl

theorem framesFrom_encodeFrames {a : Animation} {i : Nat} {frames : List (List UInt8)}
    {bytes : List UInt8} (hencode : a.encodeFrames i frames = some bytes) {fuel : Nat}
    (hfuel : bytes.length < fuel) :
    framesFrom a.width a.height fuel (bytes ++ [0x3B]) =
      if ∀ frame ∈ frames, ReadsBack frame then some frames else none := by
  induction frames generalizing i bytes fuel with
  | nil =>
    obtain rfl := Option.some.inj hencode
    obtain ⟨fuel, rfl⟩ := Nat.exists_eq_add_one_of_ne_zero (Nat.ne_of_gt (Nat.zero_lt_of_lt hfuel))
    rw [if_pos (List.forall_mem_nil _)]
    rfl
  | cons frame frames ih =>
    rw [Animation.encodeFrames] at hencode
    obtain ⟨first, hfirst, hencode⟩ := Option.bind_eq_some_iff.mp hencode
    obtain ⟨rest, hrest, hencode⟩ := Option.bind_eq_some_iff.mp hencode
    obtain rfl := Option.some.inj hencode
    obtain ⟨hlong, hread⟩ := framesFrom_frame hfirst (rest ++ [0x3B])
    rw [List.length_append] at hfuel
    obtain ⟨fuel, rfl⟩ : ∃ f, fuel = f + 2 := ⟨fuel - 2, by omega⟩
    have hothers := ih hrest (show rest.length < fuel by omega)
    rw [List.append_assoc, hread, hothers]
    simp only [List.forall_mem_cons]
    by_cases hback : ReadsBack frame
    · rw [if_pos hback]
      by_cases hall : ∀ frame ∈ frames, ReadsBack frame
      · rw [if_pos hall, if_pos ⟨hback, hall⟩]
        rfl
      · rw [if_neg hall, if_neg fun hboth => hall hboth.2]
        rfl
    · rw [if_neg hback, if_neg fun hboth => hback hboth.1]

/-! ## Files -/

theorem length_palette (a : Animation) : (a.palette.toList.flatMap Vector.toList).length = 768 := by
  have hall (colours : List (Bytes 3)) :
      (colours.flatMap Vector.toList).length = 3 * colours.length := by
    induction colours with
    | nil => rfl
    | cons colour colours ih =>
      rw [List.flatMap_cons, List.length_append, ih, Vector.length_toList, List.length_cons]
      omega
  rw [hall, Vector.length_toList]

/-- A file with a table of 256 colours. -/
theorem decodeFrames_eq {bytes : List UInt8} {width height : UInt16}
    (hgif : (Text.asBytes "GIF89a".toList).isPrefixOf bytes = true) (hlong : ¬ bytes.length < 13)
    (hwidth : fromLeBytes (bytes.getD 6 0) (bytes.getD 7 0) = width)
    (hheight : fromLeBytes (bytes.getD 8 0) (bytes.getD 9 0) = height)
    (hflags : bytes.getD 10 0 = 0xF7) :
    decodeFrames bytes = (framesFrom width height (bytes.length + 1) (bytes.drop 781)).map
      fun frames => (width, height, frames) := by
  have hstart : (13 + if bytes.getD 10 0 &&& 0x80 ≠ 0 then
      3 <<< ((bytes.getD 10 0 &&& 7).toNat + 1) else 0) = 781 := by
    simp only [hflags]
    decide
  rw [decodeFrames, hgif, decide_eq_false hlong, if_neg (by decide)]
  dsimp only
  rw [hwidth, hheight, hstart]
  cases framesFrom width height (bytes.length + 1) (bytes.drop 781) <;> rfl

theorem decodeFrames_header (a : Animation) (left : List UInt8) :
    decodeFrames (a.header ++ left) =
      (framesFrom a.width a.height (a.header ++ left).length left).map fun frames =>
        (a.width, a.height, frames) := by
  have hgif : Text.asBytes "GIF89a".toList = [0x47, 0x49, 0x46, 0x38, 0x39, 0x61] := by decide
  have hnetscape : (Text.asBytes "NETSCAPE2.0".toList).length = (0x0B : UInt8).toNat := by decide
  have hloop : skipBlocks (0x0B :: (Text.asBytes "NETSCAPE2.0".toList ++
      (0x03 :: ([0x01, 0x00, 0x00] ++ 0x00 :: left)))) = some left := by
    rw [skipBlocks_cons (by decide) hnetscape]
    exact (skipBlocks_cons (by decide) rfl _).trans (skipBlocks_end left)
  have hshape : a.header ++ left =
      ([0x47, 0x49, 0x46, 0x38, 0x39, 0x61] ++ toLeBytes a.width ++ toLeBytes a.height ++
        [0xF7, a.transparent, 0] ++ a.palette.toList.flatMap Vector.toList) ++
        (0x21 :: 0xFF :: 0x0B :: (Text.asBytes "NETSCAPE2.0".toList ++
          (0x03 :: ([0x01, 0x00, 0x00] ++ 0x00 :: left)))) := by
    rw [Animation.header, hgif]
    simp only [List.append_assoc, List.cons_append, List.nil_append]
  have hfront : ([0x47, 0x49, 0x46, 0x38, 0x39, 0x61] ++ toLeBytes a.width ++
      toLeBytes a.height ++ [0xF7, a.transparent, 0] ++
        a.palette.toList.flatMap Vector.toList).length = 781 := by
    rw [List.length_append, length_palette]
    rfl
  have hlong : ¬ (a.header ++ left).length < 13 := by
    rw [hshape, List.length_append, hfront]
    omega
  have hdrop : (a.header ++ left).drop 781 = 0x21 :: 0xFF :: 0x0B ::
      (Text.asBytes "NETSCAPE2.0".toList ++ (0x03 :: ([0x01, 0x00, 0x00] ++ 0x00 :: left))) := by
    rw [hshape, List.drop_left' hfront]
  have hdecode := @decodeFrames_eq (a.header ++ left) a.width a.height
    (by rw [hshape, hgif]; rfl) hlong (by rw [hshape]; exact fromLeBytes_toLeBytes a.width)
    (by rw [hshape]; exact fromLeBytes_toLeBytes a.height) (by rw [hshape]; rfl)
  rw [hdecode, hdrop, framesFrom_extension _ _ _ _ hloop]

theorem encodeFrames_some {a : Animation} {frames : List (List UInt8)}
    (hsize : ∀ frame ∈ frames, frame.length = a.width.toNat * a.height.toNat) (i : Nat) :
    ∃ bytes, a.encodeFrames i frames = some bytes := by
  induction frames generalizing i with
  | nil => exact ⟨[], rfl⟩
  | cons frame frames ih =>
    obtain ⟨hframe, hsize⟩ := List.forall_mem_cons.mp hsize
    obtain ⟨rest, hrest⟩ := ih hsize (i + 1)
    rw [Animation.encodeFrames, Animation.encodeFrame, if_neg (not_not.mpr hframe), hrest]
    exact ⟨_, rfl⟩

/-- **An animation is read back** just if the end code of no frame is read past its bytes. -/
theorem framesReadBack_iff {a : Animation}
    (hsize : ∀ frame ∈ a.frames, frame.length = a.width.toNat * a.height.toNat) :
    (encode a).bind decodeFrames = some (a.width, a.height, a.frames) ↔
      ∀ frame ∈ a.frames, ReadsBack frame := by
  obtain ⟨bytes, hbytes⟩ := encodeFrames_some hsize 0
  have hencode : encode a = some (a.header ++ (bytes ++ [0x3B])) := by
    rw [encode, hbytes, ← List.append_assoc]
    rfl
  have hfuel : bytes.length < (a.header ++ (bytes ++ [0x3B])).length := by
    simp only [List.length_append, List.length_singleton]
    omega
  rw [hencode, Option.bind_some, decodeFrames_header, framesFrom_encodeFrames hbytes hfuel]
  by_cases hall : ∀ frame ∈ a.frames, ReadsBack frame
  · rw [if_pos hall]
    exact iff_of_true rfl hall
  · rw [if_neg hall]
    exact iff_of_false (fun h => by cases h) hall

def smallAnimation : Animation where
  width := 2
  height := 2
  palette := .replicate 256 (.replicate 3 0)
  transparent := 0
  delays := [8]
  frames := [[0, 1, 2, 3], [3, 2, 1, 0]]

theorem small_read_back : (encode smallAnimation).bind decodeFrames =
    some (2, 2, [[0, 1, 2, 3], [3, 2, 1, 0]]) := by
  have hsize : ∀ frame ∈ smallAnimation.frames,
      frame.length = smallAnimation.width.toNat * smallAnimation.height.toNat := by decide
  exact (framesReadBack_iff hsize).mpr (by decide)

/-! ## A frame that is not read back -/

/-- The `i`th pixel, where every 256 pixels go up by another odd number. -/
def pairsPixel (i : Nat) : UInt8 := .ofNat (i * (2 * (i / 256) + 1))

/-- Pixels of which no two neighbours come twice. -/
def pairsFrame (n : Nat) : List UInt8 := (List.range n).map pairsPixel

theorem pairsPixel_toNat (row : Nat) {place : Nat} (hplace : place < 256) :
    (pairsPixel (256 * row + place)).toNat = place * (2 * row + 1) % 256 ∧
      (pairsPixel (256 * row + place + 1)).toNat = (place + 1) * (2 * row + 1) % 256 := by
  have hat {k : Nat} (hk : k < 256) :
      (pairsPixel (256 * row + k)).toNat = k * (2 * row + 1) % 256 := by
    have hrow : (256 * row + k) / 256 = row := by omega
    rw [pairsPixel, UInt8.toNat_ofNat', hrow, Nat.add_mul, Nat.mul_assoc]
    exact Nat.mul_add_mod 256 _ _
  refine ⟨hat hplace, ?_⟩
  rcases Nat.lt_or_ge (place + 1) 256 with hlt | hge
  · exact hat hlt
  · -- the next row begins with 0
    obtain rfl : place = 255 := by omega
    have hrow : 256 * row + 255 + 1 = 256 * (row + 1) := by omega
    rw [pairsPixel, UInt8.toNat_ofNat', hrow, Nat.mul_assoc, Nat.mul_mod_right,
      Nat.mul_mod_right]

/-- Neighbours that come twice go up by the same number, so they are in the same row of 256, and
there at the same place. -/
theorem pairsPixel_inj {i k : Nat} (hi : i < 8448) (hk : k < 8448)
    (hpixel : pairsPixel i = pairsPixel k) (hnext : pairsPixel (i + 1) = pairsPixel (k + 1)) :
    i = k := by
  obtain ⟨row, place, hplace, rfl⟩ : ∃ row place, place < 256 ∧ i = 256 * row + place :=
    ⟨i / 256, i % 256, by omega, by omega⟩
  obtain ⟨row', place', hplace', rfl⟩ : ∃ row place, place < 256 ∧ k = 256 * row + place :=
    ⟨k / 256, k % 256, by omega, by omega⟩
  have hrow : row < 33 := by omega
  obtain ⟨hat, hbehind⟩ := pairsPixel_toNat row hplace
  obtain ⟨hat', hbehind'⟩ := pairsPixel_toNat row' hplace'
  rw [hpixel, hat'] at hat
  rw [hnext, hbehind'] at hbehind
  have hsame : row' = row := by
    rw [Nat.add_mul, Nat.add_mul, Nat.one_mul, Nat.one_mul] at hbehind
    generalize place' * (2 * row' + 1) = x at hat hbehind
    generalize place * (2 * row + 1) = y at hat hbehind
    omega
  subst hsame
  have hodd : ∀ row < 33, Nat.gcd 256 (2 * row + 1) = 1 := by decide
  have hmod : place' ≡ place [MOD 256] := Nat.ModEq.cancel_right_of_coprime (hodd _ hrow) hat
  have hplaces : place' = place := by
    have hres : place' % 256 = place % 256 := hmod
    omega
  rw [hplaces]

theorem phraseCount_pairsFrame {n : Nat} (h : n < 8448) :
    phraseCount 3838 (pairsFrame (n + 1)) = n + 1 := by
  have hframe : pairsFrame (n + 1) =
      pairsPixel 0 :: (List.range n).map fun i => pairsPixel (i + 1) := by
    rw [pairsFrame, List.range_succ_eq_map, List.map_cons, List.map_map]
    rfl
  have hnodup : ([] ++ pairs (pairsPixel 0) ((List.range n).map fun i => pairsPixel (i + 1))).Nodup
      := by
    rw [List.nil_append, pairs_map_range]
    refine List.Nodup.map_on ?_ List.nodup_range
    intro i hi k hk heq
    obtain ⟨hpixel, hnext⟩ := List.cons.inj heq
    exact pairsPixel_inj (Nat.lt_trans (List.mem_range.mp hi) h)
      (Nat.lt_trans (List.mem_range.mp hk) h) hpixel (List.cons.inj hnext).1
  rw [hframe, phraseCount, length_phrases_of_nodup 3838 hnodup, List.length_map, List.length_range]

/-- A picture of 8445 such pixels. -/
def pairsAnimation : Animation where
  width := 563
  height := 15
  palette := .replicate 256 (.replicate 3 0)
  transparent := 0
  delays := [8]
  frames := [pairsFrame 8445]

/-- 8445 codes are two full tables and 767 more, whose bits end with a byte. -/
theorem pairs_unread : (∀ frame ∈ pairsAnimation.frames,
      frame.length = pairsAnimation.width.toNat * pairsAnimation.height.toNat) ∧
    (encode pairsAnimation).bind decodeFrames ≠ some (563, 15, pairsAnimation.frames) := by
  have hsize : ∀ frame ∈ pairsAnimation.frames,
      frame.length = pairsAnimation.width.toNat * pairsAnimation.height.toNat := by
    refine List.forall_mem_singleton.mpr ?_
    rw [pairsFrame, List.length_map, List.length_range]
    rfl
  refine ⟨hsize, fun hread => ?_⟩
  have hcount : phraseCount 3838 (pairsFrame 8445) = 8445 := phraseCount_pairsFrame (by decide)
  have hback : ReadsBack (pairsFrame 8445) :=
    List.forall_mem_singleton.mp ((framesReadBack_iff hsize).mp hread)
  rw [ReadsBack, hcount] at hback
  exact hback (by decide)

end CommandCenter.Formats.Gif
