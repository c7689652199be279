import CommandCenter.Formats.Dcc
import CommandCenter.Rust.Chunks

/-!
# The boxes of a DCC direction

Which frame headers make numbers that do not fit, and where the cells of a frame are.

* `readHeaders_ne_none`: headers are read without a panic when the tops of the frames fit.
* `layout_ne_none`: the direction is laid out without a panic when its boxes fit.
* `layout_ok`: the cells of a direction that is laid out are in its box and in its buffer.
-/

namespace CommandCenter.Formats.Animation

open Rust

/-! ## Bits -/

section Bits

variable {data : List UInt8} {α β : Type}

theorem Reader.bind_ok {x : Reader α} {f : α → Reader β} {b b'' : Bits} {c : β}
    (h : (x >>= f) b = .ok (c, b'')) : ∃ a b', x b = .ok (a, b') ∧ f a b' = .ok (c, b'') := by
  change Except.bind (x b) (fun r => f r.1 r.2) = .ok (c, b'') at h
  cases hx : x b with
  | error e =>
    rw [hx] at h
    cases h
  | ok r =>
    rw [hx] at h
    exact ⟨r.1, r.2, rfl, h⟩

theorem bits_ok {n : Nat} {b b' : Bits} {v : Nat} (h : bits data n b = .ok (v, b')) :
    v < 2 ^ n ∧ b' = ⟨b.pos + n, b.stop⟩ := by
  induction n generalizing b v with
  | zero =>
    obtain ⟨rfl, rfl⟩ := Prod.mk.inj (Except.ok.inj h)
    exact ⟨Nat.one_pos, rfl⟩
  | succ n ih =>
    rw [bits] at h
    dsimp only at h
    split at h
    · cases h
    · split at h
      · cases h
      · rename_i byte _
        cases hrest : bits data n { b with pos := b.pos + 1 } with
        | error e =>
          rw [hrest] at h
          cases h
        | ok r =>
          rw [hrest] at h
          obtain ⟨rfl, rfl⟩ := Prod.mk.inj (Except.ok.inj h)
          obtain ⟨hlt, hb⟩ := ih hrest
          have hbit : byte.toNat >>> (b.pos % 8) &&& 1 ≤ 1 := Nat.and_le_right
          refine ⟨?_, ?_⟩
          · rw [Nat.pow_succ]
            omega
          · rw [hb, Nat.add_assoc, Nat.add_comm 1]

/-- A value of an `i32`. -/
def IsI32 (v : Int) : Prop := -2 ^ 31 ≤ v ∧ v < 2 ^ 31

theorem i32_eq {v : Int} (h : IsI32 v) : i32 v = some v := if_pos h

theorem i32_eq_some {v w : Int} : i32 v = some w ↔ IsI32 v ∧ w = v := by
  unfold i32
  split
  · rename_i h
    constructor
    · intro hw
      exact ⟨h, (Option.some.inj hw).symm⟩
    · rintro ⟨_, rfl⟩
      rfl
  · rename_i h
    constructor
    · intro hw
      cases hw
    · intro hw
      exact absurd hw.1 h

theorem isI32_toInt (v : Int32) : IsI32 v.toInt := ⟨v.le_toInt, v.toInt_lt⟩

theorem signed_ok {n : Nat} {b b' : Bits} {v : Int} (h : signed data n b = .ok (v, b')) :
    IsI32 v := by
  obtain ⟨w, b₁, _, h⟩ := Reader.bind_ok h
  dsimp only at h
  split at h
  · obtain ⟨rfl, _⟩ := Prod.mk.inj (Except.ok.inj h)
    unfold IsI32
    omega
  · split at h
    · obtain ⟨rfl, _⟩ := Prod.mk.inj (Except.ok.inj h)
      exact isI32_toInt _
    · obtain ⟨rfl, _⟩ := Prod.mk.inj (Except.ok.inj h)
      exact isI32_toInt _

end Bits

/-! ## Frame headers -/

section Headers

variable {data : List UInt8} {widths : Widths}

structure Header.Ok (h : Header) : Prop where
  x : IsI32 h.x
  y : IsI32 h.y
  width : h.width < 2 ^ 32
  height : h.height < 2 ^ 31

/-- The top of a frame and what it is computed from are values of an `i32`. -/
def Header.Fits (h : Header) : Prop := IsI32 (h.y - h.height) ∧ IsI32 (h.y - h.height + 1)

/-- A box that a frame header says. -/
structure Box.Ok (b : Box) : Prop where
  x : IsI32 b.x
  y : IsI32 b.y
  width : b.width < 2 ^ 32
  height : b.height < 2 ^ 31

theorem readHeader_ok (hwidth : widths.width ≤ 32) {b b' : Bits} {h : Header}
    (hread : readHeader data widths b = .ok (h, b')) : h.Ok := by
  obtain ⟨_, _, _, hread⟩ := Reader.bind_ok hread
  obtain ⟨width, _, hw, hread⟩ := Reader.bind_ok hread
  obtain ⟨height, _, _, hread⟩ := Reader.bind_ok hread
  obtain ⟨x, _, hx, hread⟩ := Reader.bind_ok hread
  obtain ⟨y, _, hy, hread⟩ := Reader.bind_ok hread
  obtain ⟨optional, _, _, hread⟩ := Reader.bind_ok hread
  obtain ⟨_, _, _, hread⟩ := Reader.bind_ok hread
  obtain ⟨bottomUp, _, _, hread⟩ := Reader.bind_ok hread
  split at hread
  · cases hread
  · split at hread
    · cases hread
    · rename_i hheight
      obtain ⟨rfl, _⟩ := Prod.mk.inj (Except.ok.inj hread)
      have hpow : 2 ^ widths.width ≤ 2 ^ 32 := Nat.pow_le_pow_right (by omega) hwidth
      exact ⟨signed_ok hx, signed_ok hy, Nat.lt_of_lt_of_le (bits_ok hw).1 hpow, Nat.lt_of_not_le hheight⟩

theorem box_eq_some {h : Header} {box : Box} :
    h.box = some box ↔ h.Fits ∧ box = ⟨h.x, h.y - h.height + 1, h.width, h.height⟩ := by
  unfold Header.box Header.Fits
  constructor
  · intro hbox
    obtain ⟨above, habove, hbox⟩ := Option.bind_eq_some_iff.mp hbox
    obtain ⟨top, htop, hbox⟩ := Option.bind_eq_some_iff.mp hbox
    obtain ⟨hfirst, rfl⟩ := i32_eq_some.mp habove
    obtain ⟨hsecond, rfl⟩ := i32_eq_some.mp htop
    exact ⟨⟨hfirst, hsecond⟩, (Option.some.inj hbox).symm⟩
  · rintro ⟨⟨hfirst, hsecond⟩, rfl⟩
    rw [i32_eq hfirst]
    show (i32 (h.y - h.height + 1)).bind _ = _
    rw [i32_eq hsecond]
    rfl

theorem box_ne_none {h : Header} : h.box ≠ none ↔ h.Fits := by
  rw [Option.ne_none_iff_exists']
  constructor
  · rintro ⟨_, hbox⟩
    exact (box_eq_some.mp hbox).1
  · intro hfits
    exact ⟨_, box_eq_some.mpr ⟨hfits, rfl⟩⟩

/-- The frame headers, one after another. -/
def readTimes (data : List UInt8) (widths : Widths) : Nat → Reader (List Header)
  | 0 => return []
  | n + 1 => do
    let h ← readHeader data widths
    let hs ← readTimes data widths n
    return h :: hs

/-- Every header that is read has a top that fits. -/
def TopsFit (data : List UInt8) (widths : Widths) (frame_count : Nat) (b : Bits) : Prop :=
  ∀ k ≤ frame_count, ∀ hs b', readTimes data widths k b = .ok (hs, b') → ∀ h ∈ hs, h.Fits

theorem topsFit_succ {n : Nat} {b : Bits} : TopsFit data widths (n + 1) b ↔
    ∀ h b', readHeader data widths b = .ok (h, b') → h.Fits ∧ TopsFit data widths n b' := by
  constructor
  · intro hall h b' hread
    constructor
    · have hone : readTimes data widths 1 b = .ok ([h], b') := by
        show Except.bind (readHeader data widths b) _ = _
        rw [hread]
        rfl
      exact hall 1 (by omega) _ _ hone h List.mem_cons_self
    · intro k hk hs b'' hrest g hg
      have hmore : readTimes data widths (k + 1) b = .ok (h :: hs, b'') := by
        show Except.bind (readHeader data widths b) _ = _
        rw [hread]
        show Except.bind (readTimes data widths k b') _ = _
        rw [hrest]
        rfl
      exact hall (k + 1) (by omega) _ _ hmore g (List.mem_cons_of_mem h hg)
  · intro hall k hk hs b' hread g hg
    cases k with
    | zero =>
      obtain ⟨rfl, _⟩ := Prod.mk.inj (Except.ok.inj hread)
      cases hg
    | succ k =>
      obtain ⟨h, b₁, hfirst, hread⟩ := Reader.bind_ok hread
      obtain ⟨more, b₂, hrest, hread⟩ := Reader.bind_ok hread
      obtain ⟨rfl, rfl⟩ := Prod.mk.inj (Except.ok.inj hread)
      obtain ⟨hfits, hmore⟩ := hall h b₁ hfirst
      rcases List.mem_cons.mp hg with rfl | hg
      · exact hfits
      · exact hmore k (by omega) more b₂ hrest g hg

theorem readBoxes_ne_none {n : Nat} {b : Bits} :
    readBoxes data widths n b ≠ none ↔ TopsFit data widths n b := by
  induction n generalizing b with
  | zero =>
    constructor
    · intro _ k hk hs b' hread g hg
      obtain rfl := Nat.le_zero.mp hk
      obtain ⟨rfl, _⟩ := Prod.mk.inj (Except.ok.inj hread)
      cases hg
    · intro _
      exact Option.some_ne_none _
  | succ n ih =>
    rw [readBoxes, Checked.bind_ne_none, topsFit_succ]
    constructor
    · rintro ⟨_, hrest⟩ h b' hread
      have hsome : (liftM (readHeader data widths b) : Checked Error (Header × Bits)) =
          some (.ok (h, b')) := Checked.lift_eq_ok.mpr hread
      obtain ⟨hbox, hrest⟩ := Checked.bind_ne_none.mp (hrest _ hsome)
      have hfits := box_ne_none.mp (Checked.liftOption_ne_none.mp hbox)
      refine ⟨hfits, ih.mp ?_⟩
      have hboxSome : (liftM h.box : Checked Error Box) =
          some (.ok ⟨h.x, h.y - h.height + 1, h.width, h.height⟩) :=
        Checked.liftOption_eq_ok.mpr (box_eq_some.mpr ⟨hfits, rfl⟩)
      exact (Checked.bind_ne_none.mp (hrest _ hboxSome)).1
    · intro hall
      refine ⟨Checked.lift_ne_none _, fun r hr => ?_⟩
      obtain ⟨hfits, hmore⟩ := hall r.1 r.2 (Checked.lift_eq_ok.mp hr)
      refine Checked.bind_ne_none.mpr ⟨Checked.liftOption_ne_none.mpr (box_ne_none.mpr hfits),
        fun box _ => ?_⟩
      exact Checked.bind_ne_none.mpr ⟨ih.mpr hmore, fun _ _ => Option.some_ne_none _⟩

theorem readBoxes_ok (hwidth : widths.width ≤ 32) {n total : Nat} {b b' : Bits} {boxes : List Box}
    (h : readBoxes data widths n b = some (.ok ((boxes, total), b'))) : ∀ box ∈ boxes, box.Ok := by
  induction n generalizing b boxes total with
  | zero =>
    obtain ⟨hboxes, _⟩ := Prod.mk.inj (Except.ok.inj (Option.some.inj h))
    obtain ⟨rfl, _⟩ := Prod.mk.inj hboxes
    intro box hmem
    cases hmem
  | succ n ih =>
    obtain ⟨⟨header, b₁⟩, hread, h⟩ := Checked.bind_eq_ok.mp h
    obtain ⟨box, hbox, h⟩ := Checked.bind_eq_ok.mp h
    obtain ⟨⟨⟨more, rest⟩, b₂⟩, hmore, h⟩ := Checked.bind_eq_ok.mp h
    obtain ⟨hboxes, rfl⟩ := Prod.mk.inj (Except.ok.inj (Option.some.inj h))
    obtain ⟨rfl, _⟩ := Prod.mk.inj hboxes
    have hheader := readHeader_ok hwidth (Checked.lift_eq_ok.mp hread)
    obtain ⟨hfits, rfl⟩ := box_eq_some.mp (Checked.liftOption_eq_ok.mp hbox)
    intro box hmem
    rcases List.mem_cons.mp hmem with rfl | hmem
    · exact ⟨hheader.x, hfits.2, hheader.width, hheader.height⟩
    · exact ih hmore box hmem

theorem readWidth_ok {b b' : Bits} {n : Nat} (h : readWidth data b = .ok (n, b')) : n ≤ 32 := by
  obtain ⟨code, _, _, h⟩ := Reader.bind_ok h
  obtain ⟨rfl, _⟩ := Prod.mk.inj (Except.ok.inj h)
  have hall : ∀ n ∈ WIDTHS, n ≤ 32 := by decide
  rw [List.getD_eq_getElem?_getD]
  cases hcode : WIDTHS[code]? with
  | none => exact Nat.zero_le 32
  | some n => exact hall n (List.mem_of_getElem? hcode)

theorem readOpening_ok {b b' : Bits} {flags : Nat}
    (h : readOpening data b = .ok ((flags, widths), b')) : widths.width ≤ 32 := by
  obtain ⟨_, _, _, h⟩ := Reader.bind_ok h
  obtain ⟨_, _, _, h⟩ := Reader.bind_ok h
  obtain ⟨_, _, _, h⟩ := Reader.bind_ok h
  obtain ⟨width, _, hwidth, h⟩ := Reader.bind_ok h
  obtain ⟨_, _, _, h⟩ := Reader.bind_ok h
  obtain ⟨_, _, _, h⟩ := Reader.bind_ok h
  obtain ⟨_, _, _, h⟩ := Reader.bind_ok h
  obtain ⟨_, _, _, h⟩ := Reader.bind_ok h
  obtain ⟨_, _, _, h⟩ := Reader.bind_ok h
  obtain ⟨hpair, _⟩ := Prod.mk.inj (Except.ok.inj h)
  obtain ⟨_, rfl⟩ := Prod.mk.inj hpair
  exact readWidth_ok hwidth

/-- The headers are read without a panic when the tops of the frames fit. -/
theorem readHeaders_ne_none {frame_count : Nat} : readHeaders data frame_count ≠ none ↔
    ∀ flags widths b, readOpening data (.new 0 (data.length * 8)) = .ok ((flags, widths), b) →
      TopsFit data widths frame_count b := by
  rw [readHeaders, Checked.bind_ne_none]
  constructor
  · rintro ⟨_, hrest⟩ flags widths b hread
    have hsome : (liftM (readOpening data (.new 0 (data.length * 8))) :
        Checked Error ((Nat × Widths) × Bits)) = some (.ok ((flags, widths), b)) :=
      Checked.lift_eq_ok.mpr hread
    exact readBoxes_ne_none.mp (Checked.bind_ne_none.mp (hrest _ hsome)).1
  · intro hall
    refine ⟨Checked.lift_ne_none _, fun r hr => ?_⟩
    have htops := hall r.1.1 r.1.2 r.2 (Checked.lift_eq_ok.mp hr)
    refine Checked.bind_ne_none.mpr ⟨readBoxes_ne_none.mpr htops, fun q _ => ?_⟩
    exact Checked.bind_ne_none.mpr ⟨Checked.lift_ne_none _, fun _ _ => Option.some_ne_none _⟩

theorem readHeaders_ok {frame_count : Nat} {h : Headers}
    (hread : readHeaders data frame_count = some (.ok h)) : ∀ box ∈ h.boxes, box.Ok := by
  obtain ⟨⟨⟨flags, widths⟩, b⟩, hopening, hread⟩ := Checked.bind_eq_ok.mp hread
  obtain ⟨⟨⟨boxes, total⟩, b'⟩, hboxes, hread⟩ := Checked.bind_eq_ok.mp hread
  obtain ⟨⟨⟨key, streams⟩, b''⟩, _, hread⟩ := Checked.bind_eq_ok.mp hread
  obtain rfl := Except.ok.inj (Option.some.inj hread)
  exact readBoxes_ok (readOpening_ok (Checked.lift_eq_ok.mp hopening)) hboxes

end Headers

/-! ## Cell sizes -/

section Cells

theorem sub_eq {a b : Nat} (h : b ≤ a) : sub a b = some (a - b) := if_pos h

theorem sizes_of_count (n first last : Nat) :
    ((List.replicate (n + 2) 4).set 0 first).set (n + 2 - 1) last =
      first :: (List.replicate n 4 ++ [last]) := by
  have hfirst : (List.replicate (n + 2) 4).set 0 first = first :: List.replicate (n + 1) 4 := rfl
  have hplace : n + 2 - 1 = n + 1 := rfl
  have hlast : (List.replicate n 4 ++ [4]).set (List.replicate n 4).length last =
      List.replicate n 4 ++ [last] := by
    rw [List.set_append_right _ _ (Nat.le_refl _), Nat.sub_self]
    rfl
  rw [List.length_replicate] at hlast
  rw [hfirst, hplace, List.set_cons_succ, List.replicate_succ', hlast]

/-- One cell where a frame is short, or a first one up to the grid, whole ones, and a last one of two
to five pixels. -/
theorem cell_sizes_cases (start len : Nat) :
    (len ≤ 5 - start % 4 ∧ cell_sizes start len = some [len]) ∨
      ∃ n last, cell_sizes start len = some ((4 - start % 4) :: (List.replicate n 4 ++ [last])) ∧
        len = 4 - start % 4 + 4 * n + last ∧ 2 ≤ last ∧ last ≤ 5 := by
  have hedge : 4 - start % 4 + 1 = 5 - start % 4 := by omega
  unfold cell_sizes
  dsimp only
  rw [← hedge]
  generalize 4 - start % 4 = first
  by_cases hshort : len ≤ first + 1
  · exact .inl ⟨hshort, if_pos hshort⟩
  · rw [if_neg hshort, sub_eq (by omega)]
    obtain ⟨n, hcount, hlow, hhigh⟩ : ∃ n, cellCount (len - (first + 1)) = some (n + 2) ∧
        first + 4 * n + 2 ≤ len ∧ len ≤ first + 4 * n + 5 := by
      unfold cellCount
      by_cases hwhole : (len - (first + 1)) % 4 = 0
      · rw [if_pos hwhole, sub_eq (by omega)]
        exact ⟨(len - (first + 1)) / 4 - 1, congrArg some (by omega), by omega, by omega⟩
      · rw [if_neg hwhole]
        exact ⟨(len - (first + 1)) / 4, congrArg some (by omega), by omega, by omega⟩
    refine .inr ⟨n, len - (first + 4 * n), ?_, by omega, by omega, by omega⟩
    simp only [Option.bind_eq_bind, Option.bind_some]
    rw [hcount, Option.bind_some, sub_eq (by omega), Option.bind_some, Nat.add_sub_cancel,
      sub_eq (by omega), Option.bind_some, sizes_of_count]
    rfl

theorem sum_sizes (n first last : Nat) :
    (first :: (List.replicate n 4 ++ [last])).sum = first + 4 * n + last := by
  have hinner : (List.replicate n 4).sum = n * 4 := by simp
  rw [List.sum_cons, List.sum_append, hinner, List.sum_singleton]
  omega

theorem cell_sizes_spec (start len : Nat) :
    ∃ sizes, cell_sizes start len = some sizes ∧ sizes.sum = len ∧ sizes ≠ [] ∧
      len ≤ 5 * sizes.length := by
  rcases cell_sizes_cases start len with ⟨hshort, hone⟩ | ⟨n, last, hmany, hlen, _, hlast⟩
  · refine ⟨[len], hone, Nat.add_zero len, List.cons_ne_nil len [], ?_⟩
    rw [List.length_singleton]
    omega
  · refine ⟨_, hmany, (sum_sizes n _ last).trans hlen.symm, List.cons_ne_nil _ _, ?_⟩
    rw [List.length_cons, List.length_append, List.length_replicate, List.length_singleton]
    omega

theorem spans_le {start : Nat} {sizes : List Nat} {place size : Nat}
    (h : (place, size) ∈ spans start sizes) : place + size ≤ start + sizes.sum := by
  induction sizes generalizing start with
  | nil => cases h
  | cons first sizes ih =>
    rw [List.sum_cons]
    rcases List.mem_cons.mp h with heq | hmem
    · obtain ⟨rfl, rfl⟩ := Prod.mk.inj heq
      omega
    · have hle := ih hmem
      omega

theorem length_spans (start : Nat) (sizes : List Nat) : (spans start sizes).length = sizes.length := by
  induction sizes generalizing start with
  | nil => rfl
  | cons size sizes ih => rw [spans, List.length_cons, List.length_cons, ih]

theorem mem_cellsOf {buffer_columns fx fy : Nat} {columns rows : List Nat} {c : Cell} :
    c ∈ cellsOf buffer_columns fx fy columns rows ↔
      ∃ cy ch j, (spans fy rows)[j]? = some (cy, ch) ∧
        ∃ cx cw i, (spans fx columns)[i]? = some (cx, cw) ∧
          c = ⟨cx, cy, cw, ch, (fy / 4 + j) * buffer_columns + fx / 4 + i, false, 2 ^ 64 - 1⟩ := by
  unfold cellsOf
  rw [List.mem_flatMap]
  constructor
  · rintro ⟨⟨⟨cy, ch⟩, j⟩, hrow, hc⟩
    obtain ⟨⟨⟨cx, cw⟩, i⟩, hcolumn, rfl⟩ := List.mem_map.mp hc
    exact ⟨cy, ch, j, List.mem_zipIdx_iff_getElem?.mp hrow, cx, cw, i,
      List.mem_zipIdx_iff_getElem?.mp hcolumn, rfl⟩
  · rintro ⟨cy, ch, j, hrow, cx, cw, i, hcolumn, rfl⟩
    refine ⟨((cy, ch), j), List.mem_zipIdx_iff_getElem?.mpr hrow, ?_⟩
    exact List.mem_map.mpr ⟨((cx, cw), i), List.mem_zipIdx_iff_getElem?.mpr hcolumn, rfl⟩

end Cells

/-! ## The direction's box -/

section Extent

theorem asI32_eq {w : Nat} (h : w < 2 ^ 31) : asI32 w = w := if_pos h

/-- The right and the bottom of a box are values of an `i32`. -/
def Box.EdgesFit (b : Box) : Prop := IsI32 (b.x + asI32 b.width) ∧ IsI32 (b.y + asI32 b.height)

structure Extent.Holds (e : Extent) (b : Box) : Prop where
  left : e.left ≤ b.x
  top : e.top ≤ b.y
  right : b.x + asI32 b.width ≤ e.right
  bottom : b.y + asI32 b.height ≤ e.bottom

structure Extent.Within (e e' : Extent) : Prop where
  left : e'.left ≤ e.left
  top : e'.top ≤ e.top
  right : e.right ≤ e'.right
  bottom : e.bottom ≤ e'.bottom

theorem widen_eq_some {e e' : Extent} {b : Box} : e.widen b = some e' ↔ b.EdgesFit ∧
    e' = ⟨min e.left b.x, min e.top b.y, max e.right (b.x + asI32 b.width),
      max e.bottom (b.y + asI32 b.height)⟩ := by
  constructor
  · intro h
    obtain ⟨right, hright, h⟩ := Option.bind_eq_some_iff.mp h
    obtain ⟨bottom, hbottom, h⟩ := Option.bind_eq_some_iff.mp h
    obtain ⟨hfirst, rfl⟩ := i32_eq_some.mp hright
    obtain ⟨hsecond, rfl⟩ := i32_eq_some.mp hbottom
    exact ⟨⟨hfirst, hsecond⟩, (Option.some.inj h).symm⟩
  · rintro ⟨⟨hright, hbottom⟩, rfl⟩
    unfold Extent.widen
    rw [i32_eq hright, i32_eq hbottom]
    rfl

theorem foldlM_widen {boxes : List Box} {e : Extent} :
    boxes.foldlM Extent.widen e ≠ none ↔ ∀ b ∈ boxes, b.EdgesFit := by
  induction boxes generalizing e with
  | nil =>
    constructor
    · intro _ b hb
      cases hb
    · intro _
      exact Option.some_ne_none e
  | cons b boxes ih =>
    rw [List.foldlM_cons, List.forall_mem_cons]
    cases hwiden : e.widen b with
    | none =>
      constructor
      · intro h
        exact absurd rfl h
      · rintro ⟨hfits, _⟩
        have hsome : e.widen b = some _ := widen_eq_some.mpr ⟨hfits, rfl⟩
        rw [hwiden] at hsome
        cases hsome
    | some e' =>
      have hfits := (widen_eq_some.mp hwiden).1
      constructor
      · intro h
        exact ⟨hfits, ih.mp h⟩
      · rintro ⟨_, hall⟩
        exact ih.mpr hall

theorem foldlM_widen_ok {boxes : List Box} {e e' : Extent}
    (h : boxes.foldlM Extent.widen e = some e') :
    e.Within e' ∧ ∀ b ∈ boxes, b.EdgesFit ∧ e'.Holds b := by
  induction boxes generalizing e with
  | nil =>
    obtain rfl := Option.some.inj h
    refine ⟨⟨Int.le_refl _, Int.le_refl _, Int.le_refl _, Int.le_refl _⟩, fun b hb => ?_⟩
    cases hb
  | cons b boxes ih =>
    rw [List.foldlM_cons] at h
    obtain ⟨next, hnext, h⟩ := Option.bind_eq_some_iff.mp h
    obtain ⟨hfits, rfl⟩ := widen_eq_some.mp hnext
    obtain ⟨⟨hleft, htop, hright, hbottom⟩, hboxes⟩ := ih h
    dsimp only at hleft htop hright hbottom
    refine ⟨⟨by omega, by omega, by omega, by omega⟩, ?_⟩
    rw [List.forall_mem_cons]
    exact ⟨⟨hfits, by omega, by omega, by omega, by omega⟩, hboxes⟩

theorem extent_ne_none {boxes : List Box} :
    extent boxes ≠ none ↔ ∀ b ∈ boxes, b.visible = true → b.EdgesFit := by
  rw [extent, foldlM_widen]
  constructor
  · intro h b hb hvisible
    exact h b (List.mem_filter.mpr ⟨hb, hvisible⟩)
  · intro h b hb
    obtain ⟨hmem, hvisible⟩ := List.mem_filter.mp hb
    exact h b hmem hvisible

/-- The direction's box holds the frames that have pixels; it has rows where it is not empty. -/
theorem extent_ok {boxes : List Box} (hboxes : ∀ b ∈ boxes, b.Ok) {e : Extent}
    (h : extent boxes = some e) (hsome : e.left ≤ e.right) :
    (∀ b ∈ boxes, b.visible = true → e.Holds b) ∧ e.top < e.bottom := by
  obtain ⟨_, hall⟩ := foldlM_widen_ok h
  have hholds : ∀ b ∈ boxes, b.visible = true → e.Holds b := by
    intro b hb hvisible
    exact (hall b (List.mem_filter.mpr ⟨hb, hvisible⟩)).2
  refine ⟨hholds, ?_⟩
  cases hfilter : boxes.filter Box.visible with
  | nil =>
    rw [extent, hfilter] at h
    obtain rfl := Option.some.inj h
    exact absurd hsome (by decide)
  | cons b more =>
    have hmem : b ∈ boxes.filter Box.visible := hfilter ▸ List.mem_cons_self
    obtain ⟨hb, hvisible⟩ := List.mem_filter.mp hmem
    obtain ⟨_, htop, _, hbottom⟩ := hholds b hb hvisible
    obtain ⟨_, hheight⟩ := of_decide_eq_true hvisible
    rw [asI32_eq (hboxes b hb).height] at hbottom
    omega

end Extent

/-! ## The layout -/

section Layout

/-- A direction's boxes fit into the numbers that are made of them. -/
structure BoxesFit (boxes : List Box) : Prop where
  edges : ∀ b ∈ boxes, b.visible = true → b.EdgesFit
  sides : ∀ e, extent boxes = some e → e.left ≤ e.right →
    IsI32 (e.right - e.left) ∧ IsI32 (e.bottom - e.top)
  inside : ∀ e, extent boxes = some e → e.left ≤ e.right →
    (e.right - e.left).toNat * (e.bottom - e.top).toNat ≤ MAX_BUFFER →
      e.left ≠ e.right ∧ ∀ b ∈ boxes, IsI32 (b.x - e.left) ∧ IsI32 (b.y - e.top)

theorem asU64_eq {v : Int} (hpos : 0 ≤ v) (h : IsI32 v) : asU64 v = v.toNat := by
  obtain ⟨_, hlt⟩ := h
  unfold asU64
  rw [Int.emod_eq_of_lt hpos (by omega)]

theorem asU64_lt (v : Int) : asU64 v < 2 ^ 64 := by
  unfold asU64
  omega

theorem frameCells_ne_none {left top : Int} {buffer_columns : Nat} {b : Box} :
    frameCells left top buffer_columns b ≠ none ↔ IsI32 (b.x - left) ∧ IsI32 (b.y - top) := by
  constructor
  · intro h
    obtain ⟨f, hf⟩ := Option.ne_none_iff_exists'.mp h
    obtain ⟨x, hx, hf⟩ := Option.bind_eq_some_iff.mp hf
    obtain ⟨y, hy, _⟩ := Option.bind_eq_some_iff.mp hf
    exact ⟨(i32_eq_some.mp hx).1, (i32_eq_some.mp hy).1⟩
  · rintro ⟨hx, hy⟩
    unfold frameCells
    rw [i32_eq hx, i32_eq hy]
    simp only [Option.bind_eq_bind, Option.bind_some]
    obtain ⟨columns, hcolumns, _⟩ := cell_sizes_spec (asU64 (b.x - left)) b.width
    obtain ⟨rows, hrows, _⟩ := cell_sizes_spec (asU64 (b.y - top)) b.height
    split
    · rw [hcolumns, Option.bind_some, hrows, Option.bind_some]
      exact Option.some_ne_none _
    · exact Option.some_ne_none _

/-- The box of a direction has sides of an `i32`; the cells of it are laid out from there. -/
theorem layoutIn_eq {e : Extent} {boxes : List Box} (hsome : e.left ≤ e.right)
    (hrows : e.top < e.bottom) (hwide : IsI32 (e.right - e.left)) (hhigh : IsI32 (e.bottom - e.top)) :
    layoutIn e boxes =
      (if MAX_BUFFER < (e.right - e.left).toNat * (e.bottom - e.top).toNat then throw .corrupt
      else if e.left = e.right then liftM (none : Option Layout)
      else do
        let frames ← (liftM (boxes.mapM
          (frameCells e.left e.top (1 + ((e.right - e.left).toNat - 1) / 4))) :
            Checked Error (List FrameCells))
        if frames.any fun f => f.cells.any fun c =>
            (1 + ((e.right - e.left).toNat - 1) / 4) * (1 + ((e.bottom - e.top).toNat - 1) / 4) ≤
              c.buffer then throw .corrupt
        else return ⟨e.left, e.top, (e.right - e.left).toNat, (e.bottom - e.top).toNat,
          (1 + ((e.right - e.left).toNat - 1) / 4) * (1 + ((e.bottom - e.top).toNat - 1) / 4),
            frames⟩ : Checked Error Layout) := by
  have hwidth : asU64 (e.right - e.left) = (e.right - e.left).toNat := asU64_eq (by omega) hwide
  have hheight : asU64 (e.bottom - e.top) = (e.bottom - e.top).toNat := asU64_eq (by omega) hhigh
  have hlast : sub (e.bottom - e.top).toNat 1 = some ((e.bottom - e.top).toNat - 1) :=
    sub_eq (by omega)
  unfold layoutIn
  rw [i32_eq hwide, i32_eq hhigh]
  show (if MAX_BUFFER < asU64 (e.right - e.left) * asU64 (e.bottom - e.top) then _ else
    (liftM (sub (asU64 (e.right - e.left)) 1) : Checked Error Nat) >>= fun last_column =>
      (liftM (sub (asU64 (e.bottom - e.top)) 1) : Checked Error Nat) >>= fun last_row => _) = _
  rw [hwidth, hheight, hlast]
  by_cases hbig : MAX_BUFFER < (e.right - e.left).toNat * (e.bottom - e.top).toNat
  · rw [if_pos hbig, if_pos hbig]
  · rw [if_neg hbig, if_neg hbig]
    by_cases hempty : e.left = e.right
    · have hnone : sub (e.right - e.left).toNat 1 = none := if_neg (by omega)
      rw [if_pos hempty, hnone]
      rfl
    · rw [if_neg hempty, sub_eq (by omega)]
      rfl

theorem layoutIn_ne_none {e : Extent} {boxes : List Box} (hsome : e.left ≤ e.right)
    (hrows : e.top < e.bottom) : layoutIn e boxes ≠ none ↔
      (IsI32 (e.right - e.left) ∧ IsI32 (e.bottom - e.top)) ∧
      ((e.right - e.left).toNat * (e.bottom - e.top).toNat ≤ MAX_BUFFER →
        e.left ≠ e.right ∧ ∀ b ∈ boxes, IsI32 (b.x - e.left) ∧ IsI32 (b.y - e.top)) := by
  by_cases hsides : IsI32 (e.right - e.left) ∧ IsI32 (e.bottom - e.top)
  · rw [layoutIn_eq hsome hrows hsides.1 hsides.2, Checked.guard_ne_none, Nat.not_lt]
    have hcells : (∀ b ∈ boxes, frameCells e.left e.top (1 + ((e.right - e.left).toNat - 1) / 4) b ≠
        none) ↔ ∀ b ∈ boxes, IsI32 (b.x - e.left) ∧ IsI32 (b.y - e.top) := by
      refine forall₂_congr fun b _ => frameCells_ne_none
    constructor
    · intro h
      refine ⟨hsides, fun hsmall => ?_⟩
      have hinner := h hsmall
      by_cases hempty : e.left = e.right
      · rw [if_pos hempty] at hinner
        exact absurd rfl hinner
      · rw [if_neg hempty] at hinner
        have hframes := Checked.liftOption_ne_none.mp (Checked.bind_ne_none.mp hinner).1
        exact ⟨hempty, hcells.mp (mapM_ne_none.mp hframes)⟩
    · rintro ⟨_, h⟩ hsmall
      obtain ⟨hempty, hall⟩ := h hsmall
      have hframes := mapM_ne_none.mpr (hcells.mpr hall)
      rw [if_neg hempty]
      refine Checked.bind_ne_none.mpr ⟨Checked.liftOption_ne_none.mpr hframes, fun frames _ => ?_⟩
      exact Checked.guard_ne_none.mpr fun _ => Option.some_ne_none _
  · constructor
    · intro h
      obtain ⟨hright, hrest⟩ := Checked.bind_ne_none.mp h
      obtain ⟨right, hright⟩ := Option.ne_none_iff_exists'.mp (Checked.liftOption_ne_none.mp hright)
      obtain ⟨hbottom, _⟩ := Checked.bind_ne_none.mp (hrest right (Checked.liftOption_eq_ok.mpr hright))
      obtain ⟨bottom, hbottom⟩ :=
        Option.ne_none_iff_exists'.mp (Checked.liftOption_ne_none.mp hbottom)
      exact absurd ⟨(i32_eq_some.mp hright).1, (i32_eq_some.mp hbottom).1⟩ hsides
    · intro h
      exact absurd h.1 hsides

/-- The direction is laid out without a panic when its boxes fit. -/
theorem layout_ne_none {boxes : List Box} (hboxes : ∀ b ∈ boxes, b.Ok) :
    layout boxes ≠ none ↔ BoxesFit boxes := by
  have hin : ∀ e, extent boxes = some e → e.left ≤ e.right → (layoutIn e boxes ≠ none ↔ _) :=
    fun e he hsome => layoutIn_ne_none hsome (extent_ok hboxes he hsome).2
  rw [layout, Checked.bind_ne_none, Checked.liftOption_ne_none, extent_ne_none]
  constructor
  · rintro ⟨hedges, hrest⟩
    have hfit : ∀ e, extent boxes = some e → e.left ≤ e.right → layoutIn e boxes ≠ none := by
      intro e he hsome
      have hinner := hrest e (Checked.liftOption_eq_ok.mpr he)
      rw [if_neg (Int.not_lt.mpr hsome)] at hinner
      exact Checked.map_ne_none.mp hinner
    exact ⟨hedges, fun e he hsome => ((hin e he hsome).mp (hfit e he hsome)).1,
      fun e he hsome => ((hin e he hsome).mp (hfit e he hsome)).2⟩
  · rintro ⟨hedges, hsides, hinside⟩
    refine ⟨hedges, fun e he => ?_⟩
    have he := Checked.liftOption_eq_ok.mp he
    by_cases hsome : e.left ≤ e.right
    · rw [if_neg (Int.not_lt.mpr hsome), Checked.map_ne_none]
      exact (hin e he hsome).mpr ⟨hsides e he hsome, hinside e he hsome⟩
    · rw [if_pos (Int.not_le.mp hsome)]
      exact Option.some_ne_none _

/-- A cell is in the direction's box and in its buffer. -/
structure Cell.Inside (l : Layout) (c : Cell) : Prop where
  right : c.x + c.w ≤ l.width
  bottom : c.y + c.h ≤ l.height
  buffer : c.buffer < l.buffer_cells

/-- A frame that has pixels is in the direction's box, and so are its cells. -/
structure FrameCells.Inside (l : Layout) (f : FrameCells) : Prop where
  row : f.y < 2 ^ 64
  right : 0 < f.width → 0 < f.height → f.x + f.width ≤ l.width
  bottom : 0 < f.width → 0 < f.height → f.y + f.height ≤ l.height
  cells : ∀ c ∈ f.cells, c.Inside l

/-- A direction that is laid out. -/
structure Layout.Ok (l : Layout) : Prop where
  width : 0 < l.width
  size : l.width * l.height ≤ MAX_BUFFER
  frames : ∀ f ∈ l.frames, f.Inside l

theorem frameCells_some {left top : Int} {buffer_columns : Nat} {b : Box} {f : FrameCells}
    (h : frameCells left top buffer_columns b = some f) :
    (IsI32 (b.x - left) ∧ IsI32 (b.y - top)) ∧ ((b.visible = false ∧
      f = ⟨asU64 (b.x - left), asU64 (b.y - top), b.width, b.height, []⟩) ∨
      (b.visible = true ∧ ∃ columns rows, cell_sizes (asU64 (b.x - left)) b.width = some columns ∧
        cell_sizes (asU64 (b.y - top)) b.height = some rows ∧
          f = ⟨asU64 (b.x - left), asU64 (b.y - top), b.width, b.height,
            cellsOf buffer_columns (asU64 (b.x - left)) (asU64 (b.y - top)) columns rows⟩)) := by
  obtain ⟨x, hx, h⟩ := Option.bind_eq_some_iff.mp h
  obtain ⟨y, hy, h⟩ := Option.bind_eq_some_iff.mp h
  obtain ⟨hfitsX, rfl⟩ := i32_eq_some.mp hx
  obtain ⟨hfitsY, rfl⟩ := i32_eq_some.mp hy
  refine ⟨⟨hfitsX, hfitsY⟩, ?_⟩
  split at h
  · rename_i hvisible
    obtain ⟨columns, hcolumns, h⟩ := Option.bind_eq_some_iff.mp h
    obtain ⟨rows, hrows, h⟩ := Option.bind_eq_some_iff.mp h
    exact .inr ⟨hvisible, columns, rows, hcolumns, hrows, (Option.some.inj h).symm⟩
  · rename_i hhidden
    exact .inl ⟨by simpa using hhidden, (Option.some.inj h).symm⟩

/-- A frame has as many cells in a row as a fifth of its pixels, and each has a place in the
buffer. -/
theorem exists_buffer {buffer_columns fx fy len : Nat} {columns rows : List Nat}
    (hcolumns : cell_sizes fx len = some columns) (hrows : rows ≠ []) (hpos : 0 < len) :
    ∃ c ∈ cellsOf buffer_columns fx fy columns rows, len ≤ 5 * (c.buffer + 1) := by
  obtain ⟨sizes, hsizes, _, hne, hle⟩ := cell_sizes_spec fx len
  obtain rfl := Option.some.inj (hcolumns.symm.trans hsizes)
  have hcolumn : columns.length - 1 < (spans fx columns).length := by
    rw [length_spans]
    exact Nat.sub_lt (List.length_pos_iff.mpr hne) Nat.one_pos
  have hrow : 0 < (spans fy rows).length := by
    rw [length_spans]
    exact List.length_pos_iff.mpr hrows
  refine ⟨_, mem_cellsOf.mpr ⟨_, _, 0, List.getElem?_eq_getElem hrow, _, _, columns.length - 1,
    List.getElem?_eq_getElem hcolumn, rfl⟩, ?_⟩
  show len ≤ 5 * ((fy / 4 + 0) * buffer_columns + fx / 4 + (columns.length - 1) + 1)
  omega

theorem cell_within {buffer_columns fx fy width height : Nat} {columns rows : List Nat} {c : Cell}
    (hcolumns : cell_sizes fx width = some columns) (hrows : cell_sizes fy height = some rows)
    (hc : c ∈ cellsOf buffer_columns fx fy columns rows) :
    c.x + c.w ≤ fx + width ∧ c.y + c.h ≤ fy + height := by
  obtain ⟨_, hsome, hwidth, _⟩ := cell_sizes_spec fx width
  obtain rfl := Option.some.inj (hcolumns.symm.trans hsome)
  obtain ⟨_, hsome, hheight, _⟩ := cell_sizes_spec fy height
  obtain rfl := Option.some.inj (hrows.symm.trans hsome)
  obtain ⟨cy, ch, j, hrow, cx, cw, i, hcolumn, rfl⟩ := mem_cellsOf.mp hc
  have hx := spans_le (List.mem_of_getElem? hcolumn)
  have hy := spans_le (List.mem_of_getElem? hrow)
  rw [hwidth] at hx
  rw [hheight] at hy
  exact ⟨hx, hy⟩

theorem buffer_cells_le {width height : Nat} (hwidth : 0 < width) (hheight : 0 < height) :
    (1 + (width - 1) / 4) * (1 + (height - 1) / 4) ≤ width * height :=
  Nat.mul_le_mul (by omega) (by omega)

theorem layout_ok {boxes : List Box} (hboxes : ∀ b ∈ boxes, b.Ok) {l : Layout}
    (h : layout boxes = some (.ok (some l))) : l.Ok := by
  obtain ⟨e, he, h⟩ := Checked.bind_eq_ok.mp h
  have he := Checked.liftOption_eq_ok.mp he
  split at h
  · cases Except.ok.inj (Option.some.inj h)
  · rename_i hsome
    have hsome := Int.not_lt.mp hsome
    obtain ⟨l', hlayout, hl⟩ := Checked.map_eq_ok.mp h
    obtain rfl := Option.some.inj hl
    clear h
    obtain ⟨hholds, hrows⟩ := extent_ok hboxes he hsome
    have hsafe : layoutIn e boxes ≠ none := by
      rw [hlayout]
      exact Option.some_ne_none _
    obtain ⟨⟨hwide, hhigh⟩, _⟩ := (layoutIn_ne_none hsome hrows).mp hsafe
    rw [layoutIn_eq hsome hrows hwide hhigh, Checked.guard_eq_ok, Nat.not_lt] at hlayout
    obtain ⟨hsmall, h⟩ := hlayout
    split at h
    · cases h
    · rename_i hempty
      obtain ⟨frames, hframes, h⟩ := Checked.bind_eq_ok.mp h
      obtain ⟨hbuffer, h⟩ := Checked.guard_eq_ok.mp h
      obtain rfl := Except.ok.inj (Option.some.inj h)
      have hcells := buffer_cells_le (show 0 < (e.right - e.left).toNat by omega)
        (show 0 < (e.bottom - e.top).toNat by omega)
      have hall : ∀ f ∈ frames, ∀ c ∈ f.cells, c.buffer < (1 + ((e.right - e.left).toNat - 1) / 4) *
          (1 + ((e.bottom - e.top).toNat - 1) / 4) := by
        simpa using hbuffer
      refine ⟨by dsimp only; omega, hsmall, fun f hf => ?_⟩
      obtain ⟨b, hb, hframe⟩ := mapM_some (Checked.liftOption_eq_ok.mp hframes) hf
      obtain ⟨⟨hx, hy⟩, ⟨hhidden, rfl⟩ | ⟨hvisible, columns, rows, hcolumns, hsizes, rfl⟩⟩ :=
        frameCells_some hframe
      · have hnever : 0 < b.width → ¬ 0 < b.height :=
          fun hw hh => absurd (decide_eq_true ⟨hw, hh⟩) (ne_true_of_eq_false hhidden)
        refine ⟨asU64_lt _, fun hw hh => absurd hh (hnever hw), fun hw hh => absurd hh (hnever hw),
          fun c hc => ?_⟩
        cases hc
      · have hok := hboxes b hb
        obtain ⟨hleft, htop, hright, hbottom⟩ := hholds b hb hvisible
        obtain ⟨hwidth, hheight⟩ := of_decide_eq_true hvisible
        rw [asI32_eq hok.height] at hbottom
        obtain ⟨_, hrowsSome, _, hne, _⟩ := cell_sizes_spec (asU64 (b.y - e.top)) b.height
        obtain rfl := Option.some.inj (hsizes.symm.trans hrowsSome)
        have hnarrow : b.width < 2 ^ 31 := by
          obtain ⟨c, hc, hlen⟩ := exists_buffer hcolumns hne hwidth
          have hin := hall _ hf c hc
          have hmax : MAX_BUFFER = 120000 := rfl
          omega
        rw [asI32_eq hnarrow] at hright
        have hplaceX : asU64 (b.x - e.left) + b.width ≤ (e.right - e.left).toNat := by
          rw [asU64_eq (by omega) hx]
          omega
        have hplaceY : asU64 (b.y - e.top) + b.height ≤ (e.bottom - e.top).toNat := by
          rw [asU64_eq (by omega) hy]
          omega
        refine ⟨asU64_lt _, fun _ _ => hplaceX, fun _ _ => hplaceY, fun c hc => ?_⟩
        obtain ⟨hcx, hcy⟩ := cell_within hcolumns hsizes hc
        exact ⟨Nat.le_trans hcx hplaceX, Nat.le_trans hcy hplaceY, hall _ hf c hc⟩

end Layout

/-! ## Two frames -/

/-- A direction of two frames, of which the second covers a part of the first. -/
def overlapping : List UInt8 :=
  [0, 0, 0, 0, 192, 204, 12, 64, 26, 148, 26, 33, 8] ++ List.replicate 50 0

end CommandCenter.Formats.Animation
