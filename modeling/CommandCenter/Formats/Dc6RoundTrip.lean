import CommandCenter.Formats.Dc6
import CommandCenter.Formats.DccBoxes

/-!
# Sprites are read as they are coded

A row of a picture is coded as skips and copies, in any of many ways, and a file may leave out the
last rows that have no pixel. What the reader paints of the rows is the picture.

* `decode_rows`: the rows that are written, and the transparent ones after them.
* `frame_block`, `parse_file`: a frame, and a file of at most 65536 of them.
* `parse_header`, `too_many_frames`: a file of more is refused.
-/

namespace CommandCenter.Formats.Sprite

open Rust Animation

/-! ## Codings -/

/-- Part of a row: some transparent pixels, or some pixels as they are. -/
inductive Op where
  | skip (n : Nat) (h : 0 < n ∧ n < 128)
  | copy (run : List UInt8) (h : 0 < run.length ∧ run.length < 128)

def Op.bytes : Op → List UInt8
  | .skip n _ => [.ofNat (0x80 + n)]
  | .copy run _ => .ofNat run.length :: run

def Op.pixels : Op → List UInt8
  | .skip n _ => List.replicate n 0
  | .copy run _ => run

def covered (ops : List Op) : List UInt8 := ops.flatMap Op.pixels

def rowBytes (ops : List Op) : List UInt8 := ops.flatMap Op.bytes ++ [0x80]

/-- Pixels up to a row's end, transparent where there are none. -/
def fill (w : Nat) (pixels : List UInt8) : List UInt8 :=
  pixels ++ List.replicate (w - pixels.length) 0

/-- The picture of rows in the order they are written, the others being transparent. -/
def picture (flipped : Bool) (w h : Nat) (rows : List (List UInt8)) : List UInt8 :=
  let all := rows ++ List.replicate (h - rows.length) (List.replicate w 0)
  (if flipped then all else all.reverse).flatten

/-! ## Rows -/

section Rows

variable {flipped : Bool} {w h : Nat}

theorem length_fill {pixels : List UInt8} (hfit : pixels.length ≤ w) : (fill w pixels).length = w := by
  rw [fill, List.length_append, List.length_replicate]
  omega

theorem fill_skip (done : List UInt8) {n : Nat} (hfit : done.length + n ≤ w) :
    fill w done = fill w (done ++ List.replicate n 0) := by
  have hsplit : w - done.length = n + (w - (done.length + n)) := by omega
  rw [fill, fill, List.length_append, List.length_replicate, hsplit, List.replicate_add,
    List.append_assoc]

theorem put_fill {start : Nat} {before after done : List UInt8} (hbefore : before.length = start)
    (hdone : done.length < w) (p : UInt8) :
    put start w done.length p (before ++ fill w done ++ after) =
      some (before ++ fill w (done ++ [p]) ++ after) := by
  obtain ⟨n, hn⟩ : ∃ n, w - done.length = n + 1 := ⟨w - done.length - 1, by omega⟩
  have hnext : w - (done ++ [p]).length = n := by
    rw [List.length_append, List.length_singleton]
    omega
  have hroom : start + done.length < (before ++ fill w done ++ after).length := by
    rw [List.length_append, List.length_append, length_fill (Nat.le_of_lt hdone)]
    omega
  have hsplit : before ++ fill w done ++ after =
      (before ++ done) ++ (0 :: (List.replicate n 0 ++ after)) := by
    rw [fill, hn, List.replicate_succ]
    simp only [List.append_assoc, List.cons_append]
  have hplace : (before ++ done).length = start + done.length := by
    rw [List.length_append, hbefore]
  unfold put setAt
  rw [if_pos hdone, if_pos hroom, hsplit, ← hplace, List.set_append_right _ _ (Nat.le_refl _),
    Nat.sub_self, List.set_cons_zero, fill, hnext]
  simp only [List.append_assoc, List.cons_append, List.nil_append]

theorem copyRun_fill {start : Nat} {before after done run : List UInt8}
    (hbefore : before.length = start) (hfit : done.length + run.length ≤ w) :
    copyRun start w done.length run (before ++ fill w done ++ after) =
      some (before ++ fill w (done ++ run) ++ after) := by
  induction run generalizing done with
  | nil => rw [copyRun, List.append_nil]
  | cons p run ih =>
    rw [List.length_cons] at hfit
    have hnext : (done ++ [p]).length = done.length + 1 := List.length_append
    have hmore := @ih (done ++ [p]) (by omega)
    rw [hnext, List.append_assoc done, List.singleton_append] at hmore
    rw [copyRun, put_fill hbefore (by omega)]
    exact hmore

theorem skip_byte : ∀ n < 128, 0 < n → UInt8.ofNat (0x80 + n) ≠ 0x80 ∧
    UInt8.ofNat (0x80 + n) &&& 0x80 ≠ 0 ∧ (UInt8.ofNat (0x80 + n) &&& 0x7F).toNat = n := by
  decide

theorem copy_byte : ∀ n < 128, UInt8.ofNat n ≠ 0x80 ∧ UInt8.ofNat n &&& 0x80 = 0 ∧
    (UInt8.ofNat n).toNat = n := by
  decide

theorem decode_row {row y : Nat} (hrow : row < h) (hy : yOf flipped h row = some y)
    {before after : List UInt8} (hbefore : before.length = y * w) (ops : List Op)
    {done : List UInt8} (hfit : done.length + (covered ops).length ≤ w) (rest : List UInt8) :
    decode flipped w h (rowBytes ops ++ rest) row done.length (before ++ fill w done ++ after) =
      decode flipped w h rest (row + 1) 0 (before ++ fill w (done ++ covered ops) ++ after) := by
  have hwithin : ¬ h ≤ row := Nat.not_le.mpr hrow
  induction ops generalizing done with
  | nil =>
    show decode flipped w h (0x80 :: rest) row done.length _ = _
    rw [decode, if_neg hwithin, if_pos rfl]
    show _ = decode flipped w h rest (row + 1) 0 (before ++ fill w (done ++ []) ++ after)
    rw [List.append_nil]
  | cons op ops ih =>
    have hcovered : covered (op :: ops) = op.pixels ++ covered ops := List.flatMap_cons
    have hbytes : rowBytes (op :: ops) ++ rest = op.bytes ++ (rowBytes ops ++ rest) := by
      unfold rowBytes
      rw [List.flatMap_cons, List.append_assoc, List.append_assoc, List.append_assoc]
    rw [hcovered, List.length_append] at hfit
    have hnext : (done ++ op.pixels).length + (covered ops).length ≤ w := by
      rw [List.length_append]
      omega
    have hmore := ih hnext
    rw [List.length_append, List.append_assoc done, ← hcovered] at hmore
    rw [hbytes, ← hmore]
    cases op with
    | skip n hn =>
      obtain ⟨hend, hskip, hcount⟩ := skip_byte n hn.2 hn.1
      have hlength : (Op.skip n hn).pixels.length = n := List.length_replicate
      rw [hlength] at hfit ⊢
      show decode flipped w h (.ofNat (0x80 + n) :: (rowBytes ops ++ rest)) row _ _ = _
      rw [decode, if_neg hwithin, if_neg hend, if_pos hskip, hcount,
        fill_skip done (show done.length + n ≤ w by omega)]
      rfl
    | copy run hrun =>
      obtain ⟨hend, hcopy, hcount⟩ := copy_byte run.length hrun.2
      have hlength : (Op.copy run hrun).pixels.length = run.length := rfl
      rw [hlength] at hfit ⊢
      show decode flipped w h (.ofNat run.length :: (run ++ (rowBytes ops ++ rest))) row _ _ = _
      rw [decode, if_neg hwithin, if_neg hend, if_neg (fun hne => hne hcopy), hcount,
        if_neg (by rw [List.length_append]; omega), List.take_left, List.drop_left]
      exact copied hy (copyRun_fill hbefore (by omega))

end Rows

/-! ## Pictures -/

section Pictures

variable {flipped : Bool} {w h : Nat}

theorem length_flatten {rows : List (List UInt8)} (hrows : ∀ r ∈ rows, r.length = w) :
    rows.flatten.length = rows.length * w := by
  induction rows with
  | nil => exact (Nat.zero_mul w).symm
  | cons r rows ih =>
    rw [List.forall_mem_cons] at hrows
    rw [List.flatten_cons, List.length_append, hrows.1, ih hrows.2, List.length_cons, Nat.succ_mul,
      Nat.add_comm]

theorem length_transparent {n : Nat} : ∀ r ∈ List.replicate n (List.replicate w (0 : UInt8)),
    r.length = w := by
  intro r hr
  rw [List.eq_of_mem_replicate hr, List.length_replicate]

theorem length_picture {rows : List (List UInt8)} (hrows : ∀ r ∈ rows, r.length = w)
    (hroom : rows.length ≤ h) : (picture flipped w h rows).length = w * h := by
  have hall : ∀ r ∈ rows ++ List.replicate (h - rows.length) (List.replicate w (0 : UInt8)),
      r.length = w := List.forall_mem_append.mpr ⟨hrows, length_transparent⟩
  have hlength : (rows ++ List.replicate (h - rows.length) (List.replicate w (0 : UInt8))).length = h := by
    rw [List.length_append, List.length_replicate]
    omega
  unfold picture
  dsimp only
  rw [Nat.mul_comm]
  cases flipped with
  | true => rw [if_pos rfl, length_flatten hall, hlength]
  | false =>
    rw [if_neg Bool.false_ne_true, length_flatten (fun r hr => hall r (List.mem_reverse.mp hr)),
      List.length_reverse, hlength]

theorem picture_split {rows : List (List UInt8)} (hrows : ∀ r ∈ rows, r.length = w)
    (hroom : rows.length < h) : ∃ y before after, yOf flipped h rows.length = some y ∧
      before.length = y * w ∧ picture flipped w h rows = before ++ List.replicate w 0 ++ after ∧
        ∀ row, picture flipped w h (rows ++ [row]) = before ++ row ++ after := by
  obtain ⟨n, hn⟩ : ∃ n, h - rows.length = n + 1 := ⟨h - rows.length - 1, by omega⟩
  have hnext : ∀ row, h - (rows ++ [row]).length = n := by
    intro row
    rw [List.length_append, List.length_singleton]
    omega
  have hlater : (List.replicate n (List.replicate w (0 : UInt8))).flatten.length = n * w := by
    rw [length_flatten length_transparent, List.length_replicate]
  unfold picture
  cases flipped with
  | true =>
    refine ⟨rows.length, rows.flatten, (List.replicate n (List.replicate w 0)).flatten, rfl,
      length_flatten hrows, ?_, fun row => ?_⟩
    · dsimp only
      rw [if_pos rfl, hn, List.replicate_succ, List.flatten_append, List.flatten_cons,
        List.append_assoc]
    · dsimp only
      rw [if_pos rfl, hnext, List.flatten_append, List.flatten_append, List.flatten_singleton]
  | false =>
    have hlast : sub h 1 = some (h - 1) := if_pos (by omega)
    have hy : sub (h - 1) rows.length = some n := by
      unfold sub
      rw [if_pos (by omega)]
      exact congrArg some (by omega)
    refine ⟨n, (List.replicate n (List.replicate w 0)).flatten, rows.reverse.flatten, ?_, hlater, ?_,
      fun row => ?_⟩
    · unfold yOf
      rw [if_neg Bool.false_ne_true, hlast]
      exact hy
    · dsimp only
      rw [if_neg Bool.false_ne_true, hn, List.replicate_succ, List.reverse_append,
        List.reverse_cons, List.reverse_replicate, List.flatten_append, List.flatten_append,
        List.flatten_singleton]
    · dsimp only
      rw [if_neg Bool.false_ne_true, hnext, List.reverse_append, List.reverse_append,
        List.reverse_replicate, List.reverse_singleton, List.flatten_append, List.flatten_append,
        List.flatten_singleton, List.append_assoc]

/-- Rows are written one after another, and the rows that are left out stay transparent. -/
theorem decode_rows (codings : List (List Op)) {rows : List (List UInt8)}
    (hrows : ∀ r ∈ rows, r.length = w) (hroom : rows.length + codings.length ≤ h)
    (hfit : ∀ ops ∈ codings, (covered ops).length ≤ w) :
    decode flipped w h (codings.flatMap rowBytes) rows.length 0 (picture flipped w h rows) =
      some (.ok (picture flipped w h (rows ++ codings.map fun ops => fill w (covered ops)))) := by
  induction codings generalizing rows with
  | nil =>
    rw [List.map_nil, List.append_nil, List.flatMap_nil, decode]
    rfl
  | cons ops codings ih =>
    rw [List.forall_mem_cons] at hfit
    rw [List.length_cons] at hroom
    have hlt : rows.length < h := by omega
    obtain ⟨y, before, after, hy, hbefore, hnow, hthen⟩ :=
      @picture_split flipped w h rows hrows hlt
    have hempty : List.replicate w 0 = fill w [] := rfl
    have hrow := @decode_row flipped w h rows.length y hlt hy before after hbefore ops []
      (by simpa using hfit.1) (codings.flatMap rowBytes)
    have hnext : (rows ++ [fill w (covered ops)]).length = rows.length + 1 := List.length_append
    have hall : ∀ r ∈ rows ++ [fill w (covered ops)], r.length = w := by
      rw [List.forall_mem_append, List.forall_mem_singleton]
      exact ⟨hrows, length_fill hfit.1⟩
    have hmore := ih hall (by omega) hfit.2
    rw [hnext, List.append_assoc, hthen] at hmore
    rw [List.flatMap_cons, hnow, hempty]
    exact hrow.trans hmore

/-- A picture that is coded is read. -/
theorem pixelsOf_rows (codings : List (List Op)) (hroom : codings.length ≤ h)
    (hfit : ∀ ops ∈ codings, (covered ops).length ≤ w) :
    pixelsOf flipped w h (codings.flatMap rowBytes) =
      some (.ok (picture flipped w h (codings.map fun ops => fill w (covered ops)))) := by
  have hrows : ∀ r ∈ codings.map (fun ops => fill w (covered ops)), r.length = w := by
    intro r hr
    obtain ⟨ops, hops, rfl⟩ := List.mem_map.mp hr
    exact length_fill (hfit ops hops)
  have hblank : List.replicate (w * h) (0 : UInt8) = picture flipped w h [] := by
    unfold picture
    dsimp only
    rw [List.nil_append, List.length_nil, Nat.sub_zero, List.reverse_replicate, ite_self,
      List.flatten_replicate_replicate, Nat.mul_comm]
  unfold pixelsOf
  split
  · rw [hblank]
    exact @decode_rows flipped w h codings [] (List.forall_mem_nil _) (by simpa using hroom) hfit
  · rename_i hempty
    have hlength : (picture flipped w h (codings.map fun ops => fill w (covered ops))).length = w * h :=
      length_picture hrows (by rw [List.length_map]; exact hroom)
    have hzero : w * h = 0 := by
      rw [Nat.mul_eq_zero]
      omega
    rw [hzero] at hlength ⊢
    rw [List.length_eq_zero_iff.mp hlength]
    rfl

end Pictures

/-! ## Frames -/

/-- A frame with a coding of its rows and what else its block says. -/
structure CodedFrame where
  frame : Frame
  flipped : UInt32
  unknown : UInt32
  next_block : UInt32
  /-- The rows that are written, in the order they are. -/
  rows : List (List Op)
  terminator : List UInt8
  width : frame.width ≤ MAX_SIDE
  height : frame.height ≤ MAX_SIDE
  offset_x : IsI32 frame.offset_x
  offset_y : IsI32 frame.offset_y
  count : rows.length ≤ frame.height
  fits : ∀ ops ∈ rows, (covered ops).length ≤ frame.width
  picture : frame.pixels = picture (flipped ≠ 0) frame.width frame.height
    (rows.map fun ops => fill frame.width (covered ops))

def asU32 (v : Int) : Nat := (v % 2 ^ 32).toNat

def CodedFrame.data (f : CodedFrame) : List UInt8 := f.rows.flatMap rowBytes

def CodedFrame.words (f : CodedFrame) : List Nat :=
  [f.flipped.toNat, f.frame.width, f.frame.height, asU32 f.frame.offset_x, asU32 f.frame.offset_y,
    f.unknown.toNat, f.next_block.toNat, f.data.length]

def CodedFrame.block (f : CodedFrame) : List UInt8 :=
  f.words.flatMap (leBytes 4) ++ (f.data ++ f.terminator)

section Frames

theorem asI32_asU32 {v : Int} (h : IsI32 v) : asI32 (asU32 v) = v := by
  unfold IsI32 at h
  unfold asI32 asU32
  split <;> omega

theorem asU32_lt (v : Int) : asU32 v < 2 ^ 32 := by
  unfold asU32
  omega

theorem length_words (words : List Nat) : (words.flatMap (leBytes 4)).length = 4 * words.length := by
  induction words with
  | nil => rfl
  | cons v words ih =>
    rw [List.flatMap_cons, List.length_append, length_leBytes, ih, List.length_cons]
    omega

theorem drop_words (words : List Nat) (k : Nat) :
    (words.flatMap (leBytes 4)).drop (4 * k) = (words.drop k).flatMap (leBytes 4) := by
  induction k generalizing words with
  | zero => rfl
  | succ k ih =>
    cases words with
    | nil => rw [List.flatMap_nil, List.drop_nil, List.drop_nil, List.flatMap_nil]
    | cons v words =>
      have hplace : 4 * (k + 1) = (leBytes 4 v).length + 4 * k := by
        rw [length_leBytes]
        omega
      rw [List.flatMap_cons, hplace, ← List.drop_drop, List.drop_left, ih, List.drop_succ_cons]

/-- A part of some bytes is read where it lies. -/
theorem slice_of_prefix {bytes part : List UInt8} {place : Nat} (hplace : place ≤ bytes.length)
    (h : part <+: bytes.drop place) : slice bytes place (place + part.length) = some part := by
  obtain ⟨rest, hrest⟩ := h
  have hlength := congrArg List.length hrest
  rw [List.length_append, List.length_drop] at hlength
  rw [slice_eq (Nat.le_add_right _ _) (by omega), List.drop_take, Nat.add_sub_cancel_left, ← hrest,
    List.take_left]

theorem word_eq {words : List Nat} {k v : Nat} (h : words[k]? = some v) (hv : v < 2 ^ 32) :
    word (words.flatMap (leBytes 4)) (4 * k) = some v := by
  obtain ⟨hk, hget⟩ := List.getElem?_eq_some_iff.mp h
  have hbegins : leBytes 4 v <+: (words.flatMap (leBytes 4)).drop (4 * k) := by
    rw [drop_words, List.drop_eq_getElem_cons hk, hget, List.flatMap_cons]
    exact List.prefix_append _ _
  have hslice := slice_of_prefix (by rw [length_words]; omega) hbegins
  rw [length_leBytes] at hslice
  unfold word
  rw [hslice]
  exact congrArg some (leValue_leBytes hv)

theorem get_of_part {bytes part : List UInt8} {place stop : Nat} (hplace : place ≤ bytes.length)
    (h : part <+: bytes.drop place) (hstop : stop = place + part.length) :
    get bytes place stop = .ok part := by
  unfold get
  rw [hstop, slice_of_prefix hplace h]

theorem length_rowBytes_le (ops : List Op) :
    (rowBytes ops).length ≤ 2 * (covered ops).length + 1 := by
  induction ops with
  | nil => exact Nat.le_refl _
  | cons op ops ih =>
    have hrest : (rowBytes (op :: ops)).length = op.bytes.length + (rowBytes ops).length := by
      unfold rowBytes
      rw [List.flatMap_cons, List.append_assoc, List.length_append]
    have hcovered : (covered (op :: ops)).length = op.pixels.length + (covered ops).length := by
      unfold covered
      rw [List.flatMap_cons, List.length_append]
    have hop : op.bytes.length ≤ 2 * op.pixels.length := by
      cases op with
      | skip n hn =>
        show 1 ≤ 2 * (List.replicate n (0 : UInt8)).length
        rw [List.length_replicate]
        omega
      | copy run hrun =>
        show run.length + 1 ≤ 2 * run.length
        omega
    omega

theorem length_data_lt (f : CodedFrame) : f.data.length < 2 ^ 32 := by
  have hrows : ∀ rows : List (List Op), (∀ ops ∈ rows, (covered ops).length ≤ f.frame.width) →
      (rows.flatMap rowBytes).length ≤ (2 * MAX_SIDE + 1) * rows.length := by
    intro rows
    induction rows with
    | nil =>
      intro _
      exact Nat.zero_le _
    | cons ops rows ih =>
      intro hfits
      rw [List.forall_mem_cons] at hfits
      have hrest := ih hfits.2
      have hrow := length_rowBytes_le ops
      have hwidth := f.width
      rw [List.flatMap_cons, List.length_append, List.length_cons, Nat.mul_succ]
      omega
  have hall := hrows f.rows f.fits
  have hcount := f.count
  have hheight := f.height
  unfold CodedFrame.data MAX_SIDE at *
  omega

/-- A frame is read where its block lies. -/
theorem frame_block {bytes : List UInt8} {place : Nat} {f : CodedFrame}
    (h : f.block <+: bytes.drop place) : frame bytes place = some (.ok f.frame) := by
  have hhead : (f.words.flatMap (leBytes 4)).length = 32 := length_words _
  obtain ⟨rest, hrest⟩ := h
  have hplace : place + 32 ≤ bytes.length := by
    have hlength := congrArg List.length hrest
    unfold CodedFrame.block at hlength
    rw [List.length_append, List.length_append, hhead, List.length_drop] at hlength
    omega
  have hbegins : f.words.flatMap (leBytes 4) <+: bytes.drop place :=
    ⟨f.data ++ f.terminator ++ rest, by
      rw [← hrest, CodedFrame.block]
      simp only [List.append_assoc]⟩
  have hdata : f.data <+: bytes.drop (place + 32) := by
    refine ⟨f.terminator ++ rest, ?_⟩
    rw [← List.drop_drop, ← hrest, CodedFrame.block, ← hhead, List.append_assoc, List.drop_left,
      List.append_assoc]
  have hflipped : word (f.words.flatMap (leBytes 4)) 0 = some f.flipped.toNat :=
    @word_eq f.words 0 _ rfl f.flipped.toNat_lt
  have hwidth : word (f.words.flatMap (leBytes 4)) 4 = some f.frame.width :=
    @word_eq f.words 1 _ rfl (Nat.lt_of_le_of_lt f.width (by decide))
  have hheight : word (f.words.flatMap (leBytes 4)) 8 = some f.frame.height :=
    @word_eq f.words 2 _ rfl (Nat.lt_of_le_of_lt f.height (by decide))
  have hx : word (f.words.flatMap (leBytes 4)) 12 = some (asU32 f.frame.offset_x) :=
    @word_eq f.words 3 _ rfl (asU32_lt _)
  have hy : word (f.words.flatMap (leBytes 4)) 16 = some (asU32 f.frame.offset_y) :=
    @word_eq f.words 4 _ rfl (asU32_lt _)
  have hlength : word (f.words.flatMap (leBytes 4)) 28 = some f.data.length :=
    @word_eq f.words 7 _ rfl (length_data_lt f)
  have hsides : ¬ (MAX_SIDE < f.frame.width ∨ MAX_SIDE < f.frame.height) := by
    have hw := f.width
    have hh := f.height
    omega
  have hturned : decide (f.flipped.toNat ≠ 0) = decide (f.flipped ≠ 0) := by
    refine decide_eq_decide.mpr (not_congr ?_)
    rw [← UInt32.toNat_inj]
    rfl
  have hpixels : pixelsOf (f.flipped.toNat ≠ 0) f.frame.width f.frame.height f.data =
      some (.ok f.frame.pixels) := by
    rw [hturned, f.picture]
    exact pixelsOf_rows f.rows f.count f.fits
  refine Checked.bind_eq_ok.mpr ⟨_, Checked.lift_eq_ok.mpr
    (get_of_part (by omega) hbegins (by rw [hhead])), ?_⟩
  refine Checked.bind_eq_ok.mpr ⟨_, Checked.liftOption_eq_ok.mpr hflipped, ?_⟩
  refine Checked.bind_eq_ok.mpr ⟨_, Checked.liftOption_eq_ok.mpr hwidth, ?_⟩
  refine Checked.bind_eq_ok.mpr ⟨_, Checked.liftOption_eq_ok.mpr hheight, ?_⟩
  refine Checked.bind_eq_ok.mpr ⟨_, Checked.liftOption_eq_ok.mpr hx, ?_⟩
  refine Checked.bind_eq_ok.mpr ⟨_, Checked.liftOption_eq_ok.mpr hy, ?_⟩
  refine Checked.bind_eq_ok.mpr ⟨_, Checked.liftOption_eq_ok.mpr hlength, ?_⟩
  refine Checked.guard_eq_ok.mpr ⟨hsides, ?_⟩
  refine Checked.bind_eq_ok.mpr ⟨_, Checked.lift_eq_ok.mpr (get_of_part hplace hdata rfl), ?_⟩
  refine Checked.bind_eq_ok.mpr ⟨_, hpixels, ?_⟩
  rw [asI32_asU32 f.offset_x, asI32_asU32 f.offset_y]
  rfl

end Frames

/-! ## Files -/

/-- A number lies somewhere in a file. -/
def Says (bytes : List UInt8) (place v : Nat) : Prop :=
  v < 2 ^ 32 ∧ place ≤ bytes.length ∧ leBytes 4 v <+: bytes.drop place

/-- The table of a file says where a frame's block lies. -/
def Lists (bytes : List UInt8) (i : Nat) (f : CodedFrame) : Prop :=
  ∃ place, Says bytes (0x18 + i * 4) place ∧ f.block <+: bytes.drop place

/-- A file of some frames, wherever their blocks lie in it. -/
structure IsFile (bytes : List UInt8) (directions frames_per_direction : Nat)
    (frames : List CodedFrame) : Prop where
  version : Says bytes 0 6
  rows : Says bytes 0x10 directions
  columns : Says bytes 0x14 frames_per_direction
  count : directions * frames_per_direction = frames.length
  table : ∀ (i : Nat) (h : i < frames.length), Lists bytes i frames[i]

section Files

variable {bytes : List UInt8} {directions frames_per_direction : Nat} {frames : List CodedFrame}

theorem says_u32_at {place v : Nat} (h : Says bytes place v) : u32_at bytes place = .ok v := by
  obtain ⟨hv, hplace, hbegins⟩ := h
  unfold u32_at
  rw [get_of_part hplace hbegins (congrArg _ (length_leBytes 4 v).symm)]
  exact congrArg Except.ok (leValue_leBytes hv)

theorem readFrames_lists {i : Nat} (h : ∀ (k : Nat) (hk : k < frames.length),
    Lists bytes (i + k) frames[k]) :
    readFrames bytes frames.length i = some (.ok (frames.map CodedFrame.frame)) := by
  induction frames generalizing i with
  | nil => rfl
  | cons f frames ih =>
    obtain ⟨place, hsays, hblock⟩ := h 0 (Nat.zero_lt_succ _)
    have hmore : readFrames bytes frames.length (i + 1) =
        some (.ok (frames.map CodedFrame.frame)) := by
      refine ih fun k hk => ?_
      have hplace : i + 1 + k = i + (k + 1) := by omega
      rw [hplace]
      exact h (k + 1) (Nat.succ_lt_succ hk)
    rw [List.length_cons]
    refine Checked.bind_eq_ok.mpr ⟨place, Checked.lift_eq_ok.mpr (says_u32_at hsays), ?_⟩
    refine Checked.bind_eq_ok.mpr ⟨f.frame, frame_block hblock, ?_⟩
    exact Checked.bind_eq_ok.mpr ⟨_, hmore, rfl⟩

theorem frameCount_eq (directions frames_per_direction : Nat) :
    frameCount directions frames_per_direction =
      if directions * frames_per_direction ≤ 0x10000 then some (directions * frames_per_direction)
      else none := by
  unfold frameCount u32
  split <;> rename_i hcount
  · simp only [Option.filter_some, decide_eq_true_eq]
  · rw [if_neg (by omega), Option.filter_none]

/-- Of the header the reader goes by the number of frames. -/
theorem parse_header (hversion : Says bytes 0 6) (hrows : Says bytes 0x10 directions)
    (hcolumns : Says bytes 0x14 frames_per_direction) :
    Dc6.parse bytes = if directions * frames_per_direction ≤ 0x10000
      then readFrames bytes (directions * frames_per_direction) 0 >>= fun frames =>
        pure ⟨directions, frames_per_direction, frames⟩
      else some (.error .corrupt) := by
  unfold Dc6.parse
  rw [says_u32_at hversion, says_u32_at hrows, says_u32_at hcolumns]
  refine (Checked.lift_ok_bind 6 _).trans ?_
  rw [if_neg (not_not.mpr rfl)]
  refine (Checked.lift_ok_bind directions _).trans ((Checked.lift_ok_bind frames_per_direction _).trans ?_)
  rw [frameCount_eq]
  by_cases hfew : directions * frames_per_direction ≤ 0x10000
  · rw [if_pos hfew, if_pos hfew]
  · rw [if_neg hfew, if_neg hfew]
    rfl

theorem parse_isFile (h : IsFile bytes directions frames_per_direction frames)
    (hfew : frames.length ≤ 0x10000) : Dc6.parse bytes =
      some (.ok ⟨directions, frames_per_direction, frames.map CodedFrame.frame⟩) := by
  have hframes : readFrames bytes frames.length 0 =
      some (.ok (frames.map CodedFrame.frame)) := readFrames_lists fun k hk => by
    rw [Nat.zero_add]
    exact h.table k hk
  rw [parse_header h.version h.rows h.columns, h.count, if_pos hfew]
  exact Checked.bind_eq_ok.mpr ⟨_, hframes, rfl⟩

/-- A file of at most 65536 frames gives back their pictures, sizes and offsets in order; no file
makes the reader panic, and whatever it reads, every frame has its pixels; and a file that claims more
frames is refused. -/
theorem parse_file :
    (∀ bytes directions frames_per_direction frames,
      IsFile bytes directions frames_per_direction frames → frames.length ≤ 65536 →
        Dc6.parse bytes =
          some (.ok ⟨directions, frames_per_direction, frames.map CodedFrame.frame⟩)) ∧
      (∀ bytes, Dc6.parse bytes ≠ none ∧ ∀ sprite, Dc6.parse bytes = some (.ok sprite) →
        ∀ f ∈ sprite.frames, f.pixels.length = f.width * f.height) ∧
      ∀ bytes directions frames_per_direction, Says bytes 0 6 → Says bytes 0x10 directions →
        Says bytes 0x14 frames_per_direction → 65536 < directions * frames_per_direction →
          Dc6.parse bytes = some (.error .corrupt) :=
  ⟨fun _ _ _ _ => parse_isFile, parse_safe, fun _ _ _ hversion hrows hcolumns hmany =>
    (parse_header hversion hrows hcolumns).trans (if_neg (Nat.not_le.mpr hmany))⟩

end Files

/-! ## Writing a file -/

/-- Where a frame's block lies: behind the table and the blocks before it. -/
def placeOf (frames : List CodedFrame) (i : Nat) : Nat :=
  4 * (6 + frames.length) + ((frames.take i).flatMap CodedFrame.block).length

/-- The numbers of the header and of the table. -/
def headWords (directions frames_per_direction : Nat) (frames : List CodedFrame) : List Nat :=
  [6, 1, 0, 0xEEEEEEEE, directions, frames_per_direction] ++
    (List.range frames.length).map (placeOf frames)

/-- A file whose frames lie one after another. -/
def write (directions frames_per_direction : Nat) (frames : List CodedFrame) : List UInt8 :=
  (headWords directions frames_per_direction frames).flatMap (leBytes 4) ++
    frames.flatMap CodedFrame.block

section Writing

variable {directions frames_per_direction : Nat} {frames : List CodedFrame}

theorem says_word {words : List Nat} {v : Nat} (k : Nat) (h : words[k]? = some v) (hv : v < 2 ^ 32)
    (rest : List UInt8) : Says (words.flatMap (leBytes 4) ++ rest) (4 * k) v := by
  obtain ⟨hk, hget⟩ := List.getElem?_eq_some_iff.mp h
  have hplace : 4 * k ≤ (words.flatMap (leBytes 4)).length := by
    rw [length_words]
    omega
  refine ⟨hv, by rw [List.length_append]; omega, ?_⟩
  rw [List.drop_append_of_le_length hplace, drop_words, List.drop_eq_getElem_cons hk, hget,
    List.flatMap_cons, List.append_assoc]
  exact List.prefix_append _ _

theorem length_headWords :
    ((headWords directions frames_per_direction frames).flatMap (leBytes 4)).length =
      4 * (6 + frames.length) := by
  rw [length_words, headWords, List.length_append, List.length_map, List.length_range]
  rfl

/-- What is written of some frames is a file of them, unless it is too long for its table. -/
theorem isFile_write (hcount : directions * frames_per_direction = frames.length)
    (hdirections : directions < 2 ^ 32) (hframes : frames_per_direction < 2 ^ 32)
    (hlength : (write directions frames_per_direction frames).length < 2 ^ 32) :
    IsFile (write directions frames_per_direction frames) directions frames_per_direction frames := by
  refine ⟨says_word 0 rfl (by decide) _, says_word 4 rfl hdirections _,
    says_word 5 rfl hframes _, hcount, fun i hi => ⟨placeOf frames i, ?_, ?_⟩⟩
  · have hword : (headWords directions frames_per_direction frames)[6 + i]? = some (placeOf frames i) := by
      have hentry : ((List.range frames.length).map (placeOf frames))[i]? = some (placeOf frames i) := by
        rw [List.getElem?_map, List.getElem?_range hi]
        rfl
      rw [Nat.add_comm, ← hentry]
      rfl
    have hplace : placeOf frames i ≤ (write directions frames_per_direction frames).length := by
      have htake : ((frames.take i).flatMap CodedFrame.block).length ≤
          (frames.flatMap CodedFrame.block).length := by
        rw [← List.take_append_drop i frames, List.flatMap_append, List.length_append,
          List.take_append_drop]
        exact Nat.le_add_right _ _
      unfold write placeOf
      rw [List.length_append, length_headWords]
      omega
    have hsays : Says (write directions frames_per_direction frames) (4 * (6 + i)) (placeOf frames i) :=
      says_word (6 + i) hword (Nat.lt_of_le_of_lt hplace hlength) _
    have hentry : 0x18 + i * 4 = 4 * (6 + i) := by omega
    rw [hentry]
    exact hsays
  · have hsplit : frames.flatMap CodedFrame.block = (frames.take i).flatMap CodedFrame.block ++
        (frames[i].block ++ (frames.drop (i + 1)).flatMap CodedFrame.block) := by
      rw [← List.flatMap_cons, List.getElem_cons_drop, ← List.flatMap_append, List.take_append_drop]
    unfold write placeOf
    rw [← length_headWords, ← List.drop_drop, List.drop_left, hsplit, List.drop_left]
    exact List.prefix_append _ _

end Writing

/-! ## A file of one pixel, and one of too many frames -/

def noPixels : CodedFrame where
  frame := ⟨0, 0, 0, 0, []⟩
  flipped := 0
  unknown := 0
  next_block := 0
  rows := []
  terminator := [0xEE, 0xEE, 0xEE]
  width := Nat.zero_le _
  height := Nat.zero_le _
  offset_x := ⟨by decide, by decide⟩
  offset_y := ⟨by decide, by decide⟩
  count := Nat.zero_le _
  fits := List.forall_mem_nil _
  picture := rfl

/-- Two rows of two pixels, the lower one with a pixel left out. -/
def fourPixels : CodedFrame where
  frame := ⟨2, 2, -1, 3, [1, 2, 0, 7]⟩
  flipped := 0
  unknown := 0
  next_block := 0
  rows := [[.skip 1 (by decide), .copy [7] (by decide)], [.copy [1, 2] (by decide)]]
  terminator := [0xEE, 0xEE, 0xEE]
  width := by decide
  height := by decide
  offset_x := ⟨by decide, by decide⟩
  offset_y := ⟨by decide, by decide⟩
  count := by decide
  fits := by decide
  picture := by decide

/-- A file of the four pixels is read, and one that claims too many frames is not. -/
theorem parse_file_four : IsFile (write 1 1 [fourPixels]) 1 1 [fourPixels] ∧
    Dc6.parse (write 1 1 [fourPixels]) = some (.ok ⟨1, 1, [⟨2, 2, -1, 3, [1, 2, 0, 7]⟩]⟩) ∧
    Dc6.parse (write 1 65537 []) = some (.error .corrupt) := by
  have hfile : IsFile (write 1 1 [fourPixels]) 1 1 [fourPixels] :=
    isFile_write rfl (by decide) (by decide) (by decide)
  refine ⟨hfile, parse_file.1 (write 1 1 [fourPixels]) 1 1 [fourPixels] hfile (by decide), ?_⟩
  exact parse_file.2.2 (write 1 65537 []) 1 65537 (says_word 0 rfl (by decide) _)
    (says_word 4 rfl (by decide) _) (says_word 5 rfl (by decide) _) (by decide)

/-- A file of more frames than the reader takes is one that it refuses. -/
theorem too_many_frames : ¬ ∀ bytes directions frames_per_direction frames,
    IsFile bytes directions frames_per_direction frames → Dc6.parse bytes =
      some (.ok ⟨directions, frames_per_direction, frames.map CodedFrame.frame⟩) := by
  intro h
  have hblock : ∀ n, ((List.replicate n noPixels).flatMap CodedFrame.block).length = n * 35 := by
    intro n
    induction n with
    | zero => rfl
    | succ n ih =>
      have hone : noPixels.block.length = 35 := by decide
      rw [List.replicate_succ, List.flatMap_cons, List.length_append, ih, hone]
      omega
  have hcount : 1 * 65537 = (List.replicate 65537 noPixels).length := by
    rw [List.length_replicate]
  have hfile : IsFile (write 1 65537 (List.replicate 65537 noPixels)) 1 65537
      (List.replicate 65537 noPixels) := by
    refine isFile_write hcount (by decide) (by decide) ?_
    unfold write
    rw [List.length_append, length_headWords, hblock, List.length_replicate]
    decide
  have hrefused := parse_header hfile.version hfile.rows hfile.columns
  rw [if_neg (by decide), h _ _ _ _ hfile] at hrefused
  cases Option.some.inj hrefused

end CommandCenter.Formats.Sprite
