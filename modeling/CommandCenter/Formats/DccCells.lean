import CommandCenter.Formats.DccBoxes
import Mathlib.Data.List.Nodup

/-!
# Cells on the buffer's grid

The cells of a frame begin and end on the grid of the frame buffer, but for the edges of the frame, so
no two of them stand for one cell of the buffer.

* `Tiling`: sizes that fill a length on the grid.
* `cell_sizes_tile`: the sizes of one axis.
* `nodup_buffers`, `cells_tile`: the cells of a frame.
-/

namespace CommandCenter.Formats.Animation

open Rust

/-! ## One axis -/

section Axis

/-- Sizes that fill `len` pixels from `start` on and meet on multiples of four. -/
structure Tiling (start len : Nat) (sizes : List Nat) : Prop where
  nonempty : sizes ≠ []
  size : ∀ size ∈ sizes, 0 < size ∧ size ≤ 5
  short : len ≤ 5 - start % 4 → sizes = [len]
  sum : sizes.sum = len
  boundary : ∀ k, 0 < k → k < sizes.length → 4 ∣ start + (sizes.take k).sum

variable {start len : Nat} {sizes : List Nat}

/-- The sizes of an axis fill it. -/
theorem cell_sizes_tile (start : Nat) {len : Nat} (h : 0 < len) :
    ∃ sizes, cell_sizes start len = some sizes ∧ Tiling start len sizes := by
  rcases cell_sizes_cases start len with ⟨hshort, hone⟩ | ⟨n, last, hmany, hlen, hlow, hhigh⟩
  · refine ⟨[len], hone, List.cons_ne_nil _ _, fun size hsize => ?_, fun _ => rfl, Nat.add_zero len,
      fun k hk hlt => ?_⟩
    · obtain rfl := List.mem_singleton.mp hsize
      omega
    · rw [List.length_singleton] at hlt
      omega
  · refine ⟨_, hmany, List.cons_ne_nil _ _, fun size hsize => ?_, fun hle => ?_,
      (sum_sizes n _ last).trans hlen.symm, fun k hk hlt => ?_⟩
    · rcases List.mem_cons.mp hsize with rfl | hmem
      · omega
      · rcases List.mem_append.mp hmem with hinner | hend
        · rw [List.eq_of_mem_replicate hinner]
          omega
        · obtain rfl := List.mem_singleton.mp hend
          omega
    · omega
    · -- up to `k` there are the first cell and whole ones
      obtain ⟨k, rfl⟩ : ∃ k', k = k' + 1 := ⟨k - 1, by omega⟩
      rw [List.length_cons, List.length_append, List.length_replicate, List.length_singleton] at hlt
      have hinner : (List.replicate k 4).sum = k * 4 := by simp
      rw [List.take_succ_cons, List.take_append_of_le_length (by simp; omega),
        List.take_replicate, Nat.min_eq_left (by omega), List.sum_cons, hinner]
      omega

theorem cell_sizes_length_le (h : cell_sizes start len = some sizes) (hlen : 0 < len) {limit : Nat}
    (hwithin : start + len ≤ limit) : start / 4 + sizes.length ≤ 1 + (limit - 1) / 4 := by
  rcases cell_sizes_cases start len with ⟨_, hone⟩ | ⟨n, last, hmany, hsum, hlow, _⟩
  · obtain rfl := Option.some.inj (h.symm.trans hone)
    rw [List.length_singleton]
    omega
  · obtain rfl := Option.some.inj (h.symm.trans hmany)
    rw [List.length_cons, List.length_append, List.length_replicate, List.length_singleton]
    omega

end Axis

/-! ## The cells of a frame -/

section Frames

theorem row_of_place {columns row column : Nat} (h : column < columns) :
    (row * columns + column) / columns = row := by
  rw [Nat.mul_comm, Nat.mul_add_div (by omega), Nat.div_eq_of_lt h, Nat.add_zero]

theorem pairwise_zipIdx {α : Type} (l : List α) : l.zipIdx.Pairwise fun a b => a.2 ≠ b.2 := by
  have hnodup : (l.zipIdx.map Prod.snd).Nodup := by
    rw [List.zipIdx_map_snd]
    exact List.nodup_range'
  exact List.pairwise_map.mp hnodup

theorem row_of_cells {buffer_columns fx : Nat} (fy : Nat) {columns : List Nat}
    (h : fx / 4 + columns.length ≤ buffer_columns) {e : (Nat × Nat) × Nat} {place : Nat}
    (hplace : place ∈ ((spans fx columns).zipIdx.map fun ((cx, cw), i) =>
      (⟨cx, e.1.1, cw, e.1.2, (fy / 4 + e.2) * buffer_columns + fx / 4 + i, false, 2 ^ 64 - 1⟩ :
        Cell)).map Cell.buffer) : place / buffer_columns = fy / 4 + e.2 := by
  obtain ⟨c, hc, rfl⟩ := List.mem_map.mp hplace
  obtain ⟨⟨⟨cx, cw⟩, i⟩, hi, rfl⟩ := List.mem_map.mp hc
  obtain ⟨hlt, _⟩ := List.getElem?_eq_some_iff.mp (List.mem_zipIdx_iff_getElem?.mp hi)
  rw [length_spans] at hlt
  show ((fy / 4 + e.2) * buffer_columns + fx / 4 + i) / buffer_columns = fy / 4 + e.2
  rw [Nat.add_assoc]
  exact row_of_place (by omega)

/-- Cells in the columns of the buffer stand for different cells of it. -/
theorem nodup_buffers {buffer_columns fx fy : Nat} {columns rows : List Nat}
    (h : fx / 4 + columns.length ≤ buffer_columns) :
    ((cellsOf buffer_columns fx fy columns rows).map Cell.buffer).Nodup := by
  unfold cellsOf
  rw [List.map_flatMap, List.nodup_flatMap]
  constructor
  · rintro ⟨⟨cy, ch⟩, j⟩ _
    dsimp only
    rw [List.map_map]
    refine List.pairwise_map.mpr ((pairwise_zipIdx _).imp fun hne heq => hne ?_)
    exact Nat.add_left_cancel heq
  · refine (pairwise_zipIdx _).imp fun hne place hplace hplace' => hne ?_
    have hrow := row_of_cells fy h hplace
    have hrow' := row_of_cells fy h hplace'
    exact Nat.add_left_cancel (hrow.symm.trans hrow')

def Gridded (width : Nat) (f : FrameCells) : Prop :=
  f.cells = [] ∨ ∃ columns rows, cell_sizes f.x f.width = some columns ∧
    cell_sizes f.y f.height = some rows ∧ 0 < f.width ∧ 0 < f.height ∧
      f.cells = cellsOf (1 + (width - 1) / 4) f.x f.y columns rows

theorem layoutIn_gridded {e : Extent} {boxes : List Box} {l : Layout}
    (h : layoutIn e boxes = some (.ok l)) : ∀ f ∈ l.frames, Gridded l.width f := by
  obtain ⟨right, _, h⟩ := Checked.bind_eq_ok.mp h
  obtain ⟨bottom, _, h⟩ := Checked.bind_eq_ok.mp h
  obtain ⟨_, h⟩ := Checked.guard_eq_ok.mp h
  obtain ⟨last_column, hcolumn, h⟩ := Checked.bind_eq_ok.mp h
  obtain ⟨last_row, _, h⟩ := Checked.bind_eq_ok.mp h
  obtain ⟨frames, hframes, h⟩ := Checked.bind_eq_ok.mp h
  obtain ⟨_, h⟩ := Checked.guard_eq_ok.mp h
  obtain rfl := Except.ok.inj (Option.some.inj h)
  intro f hf
  have hlast : last_column = asU64 right - 1 := by
    have hsub := Checked.liftOption_eq_ok.mp hcolumn
    unfold sub at hsub
    split at hsub
    · exact (Option.some.inj hsub).symm
    · cases hsub
  obtain ⟨b, _, hframe⟩ := mapM_some (Checked.liftOption_eq_ok.mp hframes) hf
  obtain ⟨_, ⟨_, rfl⟩ | ⟨hvisible, columns, rows, hcolumns, hsizes, rfl⟩⟩ := frameCells_some hframe
  · exact .inl rfl
  · obtain ⟨hwidth, hheight⟩ := of_decide_eq_true hvisible
    rw [hlast]
    exact .inr ⟨columns, rows, hcolumns, hsizes, hwidth, hheight, rfl⟩

theorem layout_gridded {boxes : List Box} {l : Layout} (h : layout boxes = some (.ok (some l))) :
    ∀ f ∈ l.frames, Gridded l.width f := by
  obtain ⟨e, _, h⟩ := Checked.bind_eq_ok.mp h
  split at h
  · cases Except.ok.inj (Option.some.inj h)
  · obtain ⟨l', hlayout, hl⟩ := Checked.map_eq_ok.mp h
    obtain rfl := Option.some.inj hl
    exact layoutIn_gridded hlayout

/-- The sizes of an axis tile it on the grid of the buffer, and the cells of a frame of a direction
stand for different cells of the buffer. -/
theorem cells_tile :
    (∀ start len, 0 < len → ∃ sizes, cell_sizes start len = some sizes ∧ Tiling start len sizes) ∧
      ∀ data frame_count h l, readHeaders data frame_count = some (.ok h) →
        layout h.boxes = some (.ok (some l)) →
          ∀ f ∈ l.frames, (f.cells.map Cell.buffer).Nodup := by
  refine ⟨fun start len h => cell_sizes_tile start h, fun data frame_count h l hread hl f hf => ?_⟩
  rcases layout_gridded hl f hf with hnone | ⟨columns, rows, hcolumns, _, hwidth, hheight, hcells⟩
  · rw [hnone]
    exact List.nodup_nil
  · have hinside := (layout_ok (readHeaders_ok hread) hl).frames f hf
    rw [hcells]
    exact nodup_buffers (cell_sizes_length_le hcolumns hwidth (hinside.right hwidth hheight))

end Frames

/-! ## Two frames -/

/-- How many cells each frame of a direction has. -/
def cellCounts (data : List UInt8) (frame_count : Nat) : Option (List Nat) :=
  match readHeaders data frame_count with
  | some (.ok h) =>
    match layout h.boxes with
    | some (.ok (some l)) => some (l.frames.map fun f => f.cells.length)
    | _ => none
  | _ => none

theorem exists_of_cellCounts {data : List UInt8} {frame_count : Nat} {counts : List Nat}
    (hcounts : cellCounts data frame_count = some counts) : ∃ h l,
      readHeaders data frame_count = some (.ok h) ∧ layout h.boxes = some (.ok (some l)) ∧
        (l.frames.map fun f => f.cells.length) = counts := by
  unfold cellCounts at hcounts
  split at hcounts
  · rename_i h hread
    split at hcounts
    · rename_i l hl
      exact ⟨h, l, hread, hl, Option.some.inj hcounts⟩
    · cases hcounts
  · cases hcounts

theorem cells_tile_overlapping : ∃ h l, readHeaders overlapping 2 = some (.ok h) ∧
    layout h.boxes = some (.ok (some l)) ∧ (l.frames.map fun f => f.cells.length) = [4, 2] ∧
      ∀ f ∈ l.frames, (f.cells.map Cell.buffer).Nodup := by
  obtain ⟨h, l, hread, hl, hcounts⟩ := @exists_of_cellCounts overlapping 2 [4, 2] (by decide +kernel)
  exact ⟨h, l, hread, hl, hcounts, cells_tile.2 _ _ _ _ hread hl⟩

end CommandCenter.Formats.Animation
