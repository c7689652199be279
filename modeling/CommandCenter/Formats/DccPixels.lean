import CommandCenter.Formats.DccBoxes

/-!
# The pixels of a DCC direction

What the two stages ask of the streams and of the frames, once a direction is laid out.

* `stage1_ne_none`: the colours are read without a panic when no pixel passes a `u32`.
* `stage1_ok`: the cells keep their places.
* `paintFrame_spec`: the cells of a frame are painted without a panic.
-/

namespace CommandCenter.Formats.Animation

open Rust

/-! ## Stage 1 -/

section Colours

variable {data : List UInt8}

/-- The steps that the codes begin with, added to a pixel, pass a `u32`. -/
inductive Overrun (data : List UInt8) : (p : Nat) → Bits → Prop where
  | here {p step : Nat} {codes codes' : Bits} : bits data 4 codes = .ok (step, codes') →
      2 ^ 32 ≤ p + step → Overrun data p codes
  | later {p : Nat} {codes codes' : Bits} : bits data 4 codes = .ok (15, codes') →
      Overrun data (p + 15) codes' → Overrun data p codes

theorem pos_lt_of_bits {n v : Nat} {b b' : Bits} (h : bits data (n + 1) b = .ok (v, b')) :
    b.pos < b.stop := by
  by_contra hge
  rw [bits] at h
  dsimp only at h
  rw [if_pos (Nat.le_of_not_lt hge)] at h
  cases h

theorem displacement_succ {fuel p step : Nat} {codes codes' : Bits}
    (h : bits data 4 codes = .ok (step, codes')) : displacement data (fuel + 1) p codes =
      (if 2 ^ 32 ≤ p + step then liftM (none : Option (Nat × Bits))
      else if step ≠ 15 then return (p + step, codes')
      else displacement data fuel (p + step) codes' : Checked Error (Nat × Bits)) := by
  rw [displacement, h]
  show (liftM (u32 (p + step)) : Checked Error Nat) >>= _ = _
  by_cases hbig : 2 ^ 32 ≤ p + step
  · have hnone : u32 (p + step) = none := if_neg (Nat.not_lt.mpr hbig)
    rw [if_pos hbig, hnone]
    rfl
  · rw [if_neg hbig, u32_eq (Nat.lt_of_not_le hbig)]
    rfl

theorem displacement_eq_none {fuel p : Nat} {codes : Bits} (hfuel : codes.stop - codes.pos ≤ fuel) :
    displacement data fuel p codes = none ↔ Overrun data p codes := by
  induction fuel generalizing p codes with
  | zero =>
    constructor
    · intro h
      cases h
    · intro h
      have hlt : codes.pos < codes.stop := by
        cases h with
        | here hbits => exact pos_lt_of_bits hbits
        | later hbits => exact pos_lt_of_bits hbits
      omega
  | succ fuel ih =>
    cases hbits : bits data 4 codes with
    | error e =>
      have herror : displacement data (fuel + 1) p codes = some (.error e) := by
        rw [displacement, hbits]
        rfl
      rw [herror]
      constructor
      · intro h
        cases h
      · intro h
        cases h with
        | here hread => cases hbits.symm.trans hread
        | later hread => cases hbits.symm.trans hread
    | ok r =>
      obtain ⟨step, codes'⟩ := r
      have hlt := pos_lt_of_bits hbits
      have hcodes := (bits_ok hbits).2
      rw [displacement_succ hbits]
      by_cases hbig : 2 ^ 32 ≤ p + step
      · rw [if_pos hbig]
        exact ⟨fun _ => .here hbits hbig, fun _ => rfl⟩
      · rw [if_neg hbig]
        by_cases hlast : step = 15
        · subst hlast
          have hrest : codes'.stop - codes'.pos ≤ fuel := by
            rw [hcodes]
            show codes.stop - (codes.pos + 4) ≤ fuel
            omega
          rw [if_neg (not_not_intro rfl), ih hrest]
          constructor
          · exact .later hbits
          · intro h
            cases h with
            | here hread hover =>
              obtain ⟨rfl, rfl⟩ := Prod.mk.inj (Except.ok.inj (hbits.symm.trans hread))
              exact absurd hover hbig
            | later hread hover =>
              obtain ⟨_, rfl⟩ := Prod.mk.inj (Except.ok.inj (hbits.symm.trans hread))
              exact hover
        · rw [if_pos hlast]
          constructor
          · intro h
            cases h
          · intro h
            cases h with
            | here hread hover =>
              obtain ⟨rfl, rfl⟩ := Prod.mk.inj (Except.ok.inj (hbits.symm.trans hread))
              exact absurd hover hbig
            | later hread hover =>
              obtain ⟨rfl, _⟩ := Prod.mk.inj (Except.ok.inj (hbits.symm.trans hread))
              exact absurd rfl hlast

/-- A pixel of some passes a `u32`, where those before it are other than the last. -/
inductive PixelsOverrun (data : List UInt8) : (left last : Nat) → Bits → Prop where
  | here {left last : Nat} {codes : Bits} : Overrun data last codes →
      PixelsOverrun data (left + 1) last codes
  | later {left last p : Nat} {codes codes' : Bits} :
      displacement data (codes.stop - codes.pos) last codes = some (.ok (p, codes')) →
        p ≠ last → PixelsOverrun data left p codes' → PixelsOverrun data (left + 1) last codes

theorem pixel_coded_eq_none {last : Nat} {s : Streams} :
    pixel data false last s = none ↔ Overrun data last s.codes := by
  have hpixel : pixel data false last s =
      (displacement data (s.codes.stop - s.codes.pos) last s.codes >>= fun r =>
        pure (r.1, { s with codes := r.2 }) : Checked Error (Nat × Streams)) := rfl
  rw [hpixel, Checked.bind_eq_none, displacement_eq_none (Nat.le_refl _)]
  constructor
  · rintro (h | ⟨r, _, h⟩)
    · exact h
    · cases h
  · exact .inl

theorem pixel_coded_eq_ok {last p : Nat} {s s' : Streams}
    (h : pixel data false last s = some (.ok (p, s'))) :
    displacement data (s.codes.stop - s.codes.pos) last s.codes = some (.ok (p, s'.codes)) := by
  obtain ⟨r, hr, h⟩ := Checked.bind_eq_ok.mp h
  obtain ⟨rfl, rfl⟩ := Prod.mk.inj (Except.ok.inj (Option.some.inj h))
  exact hr

theorem pixel_coded_of_displacement {last p : Nat} {s : Streams} {codes : Bits}
    (h : displacement data (s.codes.stop - s.codes.pos) last s.codes = some (.ok (p, codes))) :
    pixel data false last s = some (.ok (p, { s with codes := codes })) :=
  Checked.bind_eq_ok.mpr ⟨_, h, rfl⟩

theorem pixel_raw_ne_none (last : Nat) (s : Streams) : pixel data true last s ≠ none :=
  Checked.bind_ne_none.mpr ⟨Checked.lift_ne_none _, fun _ _ => Option.some_ne_none _⟩

theorem pixels_eq_none {raw : Bool} {left last : Nat} {decoded : List Nat} {s : Streams}
    (hroom : decoded.length + left ≤ 4) :
    pixels data raw left last decoded s = none ↔ raw = false ∧ PixelsOverrun data left last s.codes := by
  induction left generalizing last decoded s with
  | zero =>
    constructor
    · intro h
      cases h
    · rintro ⟨_, h⟩
      cases h
  | succ left ih =>
    have hstep : ∀ p s', (if p = last then return (decoded, s')
        else if decoded.length < 4 then pixels data raw left p (decoded ++ [p]) s'
        else liftM (none : Option (List Nat × Streams)) : Checked Error (List Nat × Streams)) = none ↔
          p ≠ last ∧ raw = false ∧ PixelsOverrun data left p s'.codes := by
      intro p s'
      by_cases hp : p = last
      · rw [if_pos hp]
        constructor
        · intro h
          cases h
        · intro h
          exact absurd hp h.1
      · rw [if_neg hp, if_pos (by omega), ih (by rw [List.length_append, List.length_singleton]; omega)]
        exact ⟨fun h => ⟨hp, h⟩, fun h => h.2⟩
    have hpixels : pixels data raw (left + 1) last decoded s =
        (pixel data raw last s >>= fun r => _ : Checked Error (List Nat × Streams)) := rfl
    rw [hpixels, Checked.bind_eq_none]
    cases raw with
    | true =>
      constructor
      · rintro (h | ⟨r, _, h⟩)
        · exact absurd h (pixel_raw_ne_none last s)
        · cases ((hstep r.1 r.2).mp h).2.1
      · intro h
        cases h.1
    | false =>
      rw [pixel_coded_eq_none]
      constructor
      · rintro (h | ⟨r, hr, h⟩)
        · exact ⟨rfl, .here h⟩
        · obtain ⟨hp, _, hmore⟩ := (hstep r.1 r.2).mp h
          exact ⟨rfl, .later (pixel_coded_eq_ok hr) hp hmore⟩
      · rintro ⟨_, h⟩
        cases h with
        | here h => exact .inl h
        | later hread hp hmore =>
          exact .inr ⟨_, pixel_coded_of_displacement hread, (hstep _ _).mpr ⟨hp, rfl, hmore⟩⟩

theorem slot_ne_none (key : List UInt8) (old : Entry) (mask : Nat) (decoded : List Nat) (k : Fin 4)
    (taken : Nat) : slot key old mask decoded k taken ≠ none := by
  unfold slot
  split
  · split
    · rename_i htaken
      have hplace : decoded.length - 1 - taken < decoded.length := by omega
      rw [sub_eq (by omega)]
      show (liftM (sub (decoded.length - 1) taken) : Checked Error Nat) >>= _ ≠ none
      rw [sub_eq (by omega)]
      show (liftM decoded[decoded.length - 1 - taken]? : Checked Error Nat) >>= _ ≠ none
      refine Checked.bind_ne_none.mpr ⟨Checked.liftOption_ne_none.mpr ?_, fun code _ => ?_⟩
      · rw [List.getElem?_eq_getElem hplace]
        exact Option.some_ne_none _
      · split
        · exact Option.some_ne_none _
        · exact Option.some_ne_none _
    · exact Option.some_ne_none _
  · exact Option.some_ne_none _

theorem entryOf_ne_none (key : List UInt8) (old : Entry) (mask : Nat) (decoded : List Nat) :
    entryOf key old mask decoded ≠ none := by
  refine Checked.bind_ne_none.mpr ⟨slot_ne_none key old mask decoded 0 0, fun a _ => ?_⟩
  refine Checked.bind_ne_none.mpr ⟨slot_ne_none key old mask decoded 1 a.2, fun b _ => ?_⟩
  refine Checked.bind_ne_none.mpr ⟨slot_ne_none key old mask decoded 2 b.2, fun c _ => ?_⟩
  exact Checked.bind_ne_none.mpr ⟨slot_ne_none key old mask decoded 3 c.2,
    fun _ _ => Option.some_ne_none _⟩

theorem countOnes_le (mask : Nat) : countOnes mask ≤ 4 := by
  have hle := List.length_filter_le mask.testBit (List.range 4)
  rwa [List.length_range] at hle

/-- The colours know an entry of every cell they have. -/
structure Colours.Ok (s : Colours) (buffer_cells : Nat) : Prop where
  length : s.last_entry.length = buffer_cells
  entries : ∀ i, some i ∈ s.last_entry → i < s.entries.length

/-- A pixel of a cell passes a `u32`: one that is not raw, of a cell that is not as it was. -/
def CellOverrun (data : List UInt8) (flags : Nat) (s : Colours) (cell : Cell) : Prop :=
  ∃ previous mask streams, s.last_entry[cell.buffer]? = some previous ∧
    readMask data flags previous.isSome s.streams = .ok (some (mask, false), streams) ∧
      PixelsOverrun data (countOnes mask) 0 streams.codes

variable {flags : Nat} {key : List UInt8} {s : Colours} {cell : Cell} {buffer_cells : Nat}

theorem oldEntry_ne_none (hok : s.Ok buffer_cells) {previous : Option Nat}
    (hprevious : s.last_entry[cell.buffer]? = some previous) :
    oldEntry s.entries previous ≠ none := by
  cases previous with
  | none => exact Option.some_ne_none _
  | some i =>
    have hlt := hok.entries i (List.mem_of_getElem? hprevious)
    rw [oldEntry, List.getElem?_eq_getElem hlt]
    exact Option.some_ne_none _

theorem cellColours_of_mask {previous : Option Nat} {mask : Nat} {raw : Bool} {streams : Streams}
    (hprevious : s.last_entry[cell.buffer]? = some previous)
    (hmask : readMask data flags previous.isSome s.streams = .ok (some (mask, raw), streams)) :
    cellColours data flags key s cell =
      (pixels data raw (countOnes mask) 0 [] streams >>= fun r =>
        (liftM (oldEntry s.entries previous) : Checked Error Entry) >>= fun old =>
          entryOf key old mask r.1 >>= fun entry =>
            pure ({ cell with entry := s.entries.length }, {
              streams := r.2
              entries := s.entries ++ [entry]
              last_entry := s.last_entry.set cell.buffer (some s.entries.length) }) :
      Checked Error (Cell × Colours)) := by
  rw [cellColours, hprevious]
  show (liftM (readMask data flags previous.isSome s.streams) :
    Checked Error (Option (Nat × Bool) × Streams)) >>= _ = _
  rw [hmask]
  rfl

theorem cellColours_of_equal {previous : Option Nat} {streams : Streams}
    (hprevious : s.last_entry[cell.buffer]? = some previous)
    (hmask : readMask data flags previous.isSome s.streams = .ok (none, streams)) :
    cellColours data flags key s cell =
      some (.ok ({ cell with equal := true }, { s with streams := streams })) := by
  rw [cellColours, hprevious]
  show (liftM (readMask data flags previous.isSome s.streams) :
    Checked Error (Option (Nat × Bool) × Streams)) >>= _ = _
  rw [hmask]
  rfl

theorem cellColours_of_error {previous : Option Nat} {e : Error}
    (hprevious : s.last_entry[cell.buffer]? = some previous)
    (hmask : readMask data flags previous.isSome s.streams = .error e) :
    cellColours data flags key s cell = some (.error e) := by
  rw [cellColours, hprevious]
  show (liftM (readMask data flags previous.isSome s.streams) :
    Checked Error (Option (Nat × Bool) × Streams)) >>= _ = _
  rw [hmask]
  rfl

theorem cellColours_eq_none (hok : s.Ok buffer_cells) (hbuffer : cell.buffer < buffer_cells) :
    cellColours data flags key s cell = none ↔ CellOverrun data flags s cell := by
  have hlt : cell.buffer < s.last_entry.length := hok.length.symm ▸ hbuffer
  have hprevious := List.getElem?_eq_getElem hlt
  generalize s.last_entry[cell.buffer] = previous at hprevious
  cases hmask : readMask data flags previous.isSome s.streams with
  | error e =>
    rw [cellColours_of_error hprevious hmask]
    constructor
    · intro h
      cases h
    · rintro ⟨previous', _, _, hprevious', hread, _⟩
      obtain rfl := Option.some.inj (hprevious.symm.trans hprevious')
      cases hmask.symm.trans hread
  | ok r =>
    match r, hmask with
    | (none, streams), hmask =>
      rw [cellColours_of_equal hprevious hmask]
      constructor
      · intro h
        cases h
      · rintro ⟨previous', _, _, hprevious', hread, _⟩
        obtain rfl := Option.some.inj (hprevious.symm.trans hprevious')
        cases hmask.symm.trans hread
    | (some (mask, raw), streams), hmask =>
      have hroom : ([] : List Nat).length + countOnes mask ≤ 4 := by
        rw [List.length_nil, Nat.zero_add]
        exact countOnes_le mask
      rw [cellColours_of_mask hprevious hmask, Checked.bind_eq_none, pixels_eq_none hroom]
      constructor
      · rintro (⟨rfl, hover⟩ | ⟨r, _, h⟩)
        · exact ⟨previous, mask, streams, hprevious, hmask, hover⟩
        · refine absurd h (Checked.bind_ne_none.mpr ⟨?_, fun old _ => ?_⟩)
          · exact Checked.liftOption_ne_none.mpr (oldEntry_ne_none hok hprevious)
          · exact Checked.bind_ne_none.mpr ⟨entryOf_ne_none _ _ _ _,
              fun _ _ => Option.some_ne_none _⟩
      · rintro ⟨previous', mask', streams', hprevious', hread, hover⟩
        obtain rfl := Option.some.inj (hprevious.symm.trans hprevious')
        obtain ⟨hsome, rfl⟩ := Prod.mk.inj (Except.ok.inj (hmask.symm.trans hread))
        obtain ⟨rfl, rfl⟩ := Prod.mk.inj (Option.some.inj hsome)
        exact .inl ⟨rfl, hover⟩

theorem cellColours_ok (hok : s.Ok buffer_cells) (hbuffer : cell.buffer < buffer_cells)
    {r : Cell × Colours} (h : cellColours data flags key s cell = some (.ok r)) :
    (r.1.rect = cell.rect ∧ r.1.buffer = cell.buffer) ∧ r.2.Ok buffer_cells := by
  have hlt : cell.buffer < s.last_entry.length := hok.length.symm ▸ hbuffer
  have hprevious := List.getElem?_eq_getElem hlt
  generalize s.last_entry[cell.buffer] = previous at hprevious
  cases hmask : readMask data flags previous.isSome s.streams with
  | error e =>
    rw [cellColours_of_error hprevious hmask] at h
    cases Option.some.inj h
  | ok q =>
    match q, hmask with
    | (none, streams), hmask =>
      rw [cellColours_of_equal hprevious hmask] at h
      obtain rfl := Except.ok.inj (Option.some.inj h)
      exact ⟨⟨rfl, rfl⟩, hok.length, hok.entries⟩
    | (some (mask, raw), streams), hmask =>
      rw [cellColours_of_mask hprevious hmask] at h
      obtain ⟨decoded, _, h⟩ := Checked.bind_eq_ok.mp h
      obtain ⟨old, _, h⟩ := Checked.bind_eq_ok.mp h
      obtain ⟨entry, _, h⟩ := Checked.bind_eq_ok.mp h
      obtain rfl := Except.ok.inj (Option.some.inj h)
      refine ⟨⟨rfl, rfl⟩, by rw [List.length_set, hok.length], fun i hi => ?_⟩
      show i < (s.entries ++ [entry]).length
      rw [List.length_append, List.length_singleton]
      rcases List.mem_or_eq_of_mem_set hi with hold | hnew
      · exact Nat.lt_succ_of_lt (hok.entries i hold)
      · obtain rfl := Option.some.inj hnew
        exact Nat.lt_succ_self _

variable (data flags key)

/-- No cell has a pixel that passes a `u32`, of those that are come to. -/
def CellsFit : Colours → List Cell → Prop
  | _, [] => True
  | s, cell :: cells => ¬ CellOverrun data flags s cell ∧
      ∀ r, cellColours data flags key s cell = some (.ok r) → CellsFit r.2 cells

def FramesFit : Colours → List FrameCells → Prop
  | _, [] => True
  | s, f :: frames => CellsFit data flags key s f.cells ∧
      ∀ r, cellsColours data flags key s f.cells = some (.ok r) → FramesFit r.2 frames

variable {data flags key}

theorem cellsColours_ne_none {cells : List Cell} (hok : s.Ok buffer_cells)
    (hcells : ∀ c ∈ cells, c.buffer < buffer_cells) :
    cellsColours data flags key s cells ≠ none ↔ CellsFit data flags key s cells := by
  induction cells generalizing s with
  | nil => exact ⟨fun _ => trivial, fun _ => Option.some_ne_none _⟩
  | cons cell cells ih =>
    rw [List.forall_mem_cons] at hcells
    rw [cellsColours, Checked.bind_ne_none, CellsFit, ← cellColours_eq_none hok hcells.1]
    refine and_congr_right fun _ => forall₂_congr fun r hr => ?_
    rw [Checked.bind_ne_none, ih (cellColours_ok hok hcells.1 hr).2 hcells.2]
    exact ⟨fun h => h.1, fun h => ⟨h, fun _ _ => Option.some_ne_none _⟩⟩

theorem cellsColours_ok {cells : List Cell} (hok : s.Ok buffer_cells)
    (hcells : ∀ c ∈ cells, c.buffer < buffer_cells) {r : List Cell × Colours}
    (h : cellsColours data flags key s cells = some (.ok r)) :
    List.Forall₂ (fun c c' : Cell => c'.rect = c.rect ∧ c'.buffer = c.buffer) cells r.1 ∧
      r.2.Ok buffer_cells := by
  induction cells generalizing s r with
  | nil =>
    obtain rfl := Except.ok.inj (Option.some.inj h)
    exact ⟨.nil, hok⟩
  | cons cell cells ih =>
    rw [List.forall_mem_cons] at hcells
    obtain ⟨first, hfirst, h⟩ := Checked.bind_eq_ok.mp h
    obtain ⟨rest, hrest, h⟩ := Checked.bind_eq_ok.mp h
    obtain rfl := Except.ok.inj (Option.some.inj h)
    obtain ⟨hplace, hnext⟩ := cellColours_ok hok hcells.1 hfirst
    obtain ⟨hplaces, hend⟩ := ih hnext hcells.2 hrest
    exact ⟨.cons hplace hplaces, hend⟩

/-- The colours are read without a panic when no pixel passes a `u32`. -/
theorem stage1_ne_none {frames : List FrameCells} (hok : s.Ok buffer_cells)
    (hcells : ∀ f ∈ frames, ∀ c ∈ f.cells, c.buffer < buffer_cells) :
    stage1 data flags key s frames ≠ none ↔ FramesFit data flags key s frames := by
  induction frames generalizing s with
  | nil => exact ⟨fun _ => trivial, fun _ => Option.some_ne_none _⟩
  | cons f frames ih =>
    rw [List.forall_mem_cons] at hcells
    rw [stage1, Checked.bind_ne_none, FramesFit, cellsColours_ne_none hok hcells.1]
    refine and_congr_right fun _ => forall₂_congr fun r hr => ?_
    rw [Checked.bind_ne_none, ih (cellsColours_ok hok hcells.1 hr).2 hcells.2]
    exact ⟨fun h => h.1, fun h => ⟨h, fun _ _ => Option.some_ne_none _⟩⟩

structure FrameCells.SamePlace (f f' : FrameCells) : Prop where
  x : f'.x = f.x
  y : f'.y = f.y
  width : f'.width = f.width
  height : f'.height = f.height
  cells : List.Forall₂ (fun c c' : Cell => c'.rect = c.rect ∧ c'.buffer = c.buffer) f.cells f'.cells

theorem stage1_ok {frames : List FrameCells} (hok : s.Ok buffer_cells)
    (hcells : ∀ f ∈ frames, ∀ c ∈ f.cells, c.buffer < buffer_cells)
    {r : List FrameCells × Colours} (h : stage1 data flags key s frames = some (.ok r)) :
    List.Forall₂ FrameCells.SamePlace frames r.1 := by
  induction frames generalizing s r with
  | nil =>
    obtain rfl := Except.ok.inj (Option.some.inj h)
    exact .nil
  | cons f frames ih =>
    rw [List.forall_mem_cons] at hcells
    obtain ⟨first, hfirst, h⟩ := Checked.bind_eq_ok.mp h
    obtain ⟨rest, hrest, h⟩ := Checked.bind_eq_ok.mp h
    obtain rfl := Except.ok.inj (Option.some.inj h)
    obtain ⟨hplaces, hnext⟩ := cellsColours_ok hok hcells.1 hfirst
    exact .cons ⟨rfl, rfl, rfl, rfl, hplaces⟩ (ih hnext hcells.2 hrest)

end Colours

/-! ## Stage 2 -/

section Painting

variable {data : List UInt8} {l : Layout}

def Rect.Inside (l : Layout) (r : Rect) : Prop := r.x + r.w ≤ l.width ∧ r.y + r.h ≤ l.height

/-- A canvas for the direction's box, and the places of the cells that are painted. -/
structure Painting.Ok (l : Layout) (p : Painting) : Prop where
  canvas : p.canvas.length = l.width * l.height
  length : p.last_cell.length = l.buffer_cells
  cells : ∀ r, some r ∈ p.last_cell → r.Inside l

theorem row_le {x y w : Nat} (hx : x + w ≤ l.width) (hy : y < l.height) :
    y * l.width + x + w ≤ l.width * l.height := by
  have hmul : (y + 1) * l.width ≤ l.height * l.width := Nat.mul_le_mul_right _ hy
  rw [Nat.succ_mul] at hmul
  rw [Nat.mul_comm l.width]
  omega

theorem readRect_ok {canvas : List UInt8} {r : Rect} (hcanvas : canvas.length = l.width * l.height)
    (hr : r.Inside l) : ∃ rows, readRect l.width canvas r = some rows ∧ rows.length = r.h ∧
      ∀ row ∈ rows, row.length = r.w := by
  have hrows : readRect l.width canvas r ≠ none := by
    refine mapM_ne_none.mpr fun row hrow => ?_
    have hlt := List.mem_range.mp hrow
    have hle := row_le hr.1 (show r.y + row < l.height by have hbottom := hr.2; omega)
    rw [slice_eq (Nat.le_add_right _ _) (hcanvas ▸ hle)]
    exact Option.some_ne_none _
  obtain ⟨rows, hrows⟩ := Option.ne_none_iff_exists'.mp hrows
  refine ⟨rows, hrows, ?_, fun row hrow => ?_⟩
  · rw [length_mapM hrows, List.length_range]
  · obtain ⟨i, _, hslice⟩ := mapM_some hrows hrow
    rw [length_slice hslice, Nat.add_sub_cancel_left]

theorem writeRows_ok {canvas : List UInt8} {x y : Nat} {rows : List (List UInt8)}
    (hcanvas : canvas.length = l.width * l.height) (hx : ∀ row ∈ rows, x + row.length ≤ l.width)
    (hy : y + rows.length ≤ l.height) : ∃ canvas', writeRows l.width x y canvas rows = some canvas' ∧
      canvas'.length = l.width * l.height := by
  induction rows generalizing canvas y with
  | nil => exact ⟨canvas, rfl, hcanvas⟩
  | cons row rows ih =>
    rw [List.forall_mem_cons] at hx
    rw [List.length_cons] at hy
    have hfit : y * l.width + x + row.length ≤ canvas.length := by
      rw [hcanvas]
      exact row_le hx.1 (by omega)
    have hwrite := overwrite_eq hfit
    have hlength := length_overwrite hwrite
    rw [writeRows, hwrite]
    exact ih (by rw [hlength, hcanvas]) hx.2 (by omega)

theorem pixelBits_le (entry : Entry) : pixelBits entry ≤ 2 := by
  unfold pixelBits
  split
  · omega
  · split <;> omega

theorem readRow_ne_none (entry : Entry) (columns : Nat) (codes : Bits) :
    readRow data entry columns codes ≠ none := by
  induction columns generalizing codes with
  | zero => exact Option.some_ne_none _
  | succ columns ih =>
    refine Checked.bind_ne_none.mpr ⟨Checked.lift_ne_none _, fun r hr => ?_⟩
    have hindex := (bits_ok (Checked.lift_eq_ok.mp hr)).1
    have hpow : 2 ^ pixelBits entry ≤ 2 ^ 2 := Nat.pow_le_pow_right (by omega) (pixelBits_le entry)
    have hlt : r.1 < entry.toList.length := by
      rw [Vector.length_toList]
      omega
    refine Checked.bind_ne_none.mpr ⟨Checked.liftOption_ne_none.mpr ?_, fun _ _ => ?_⟩
    · rw [List.getElem?_eq_getElem hlt]
      exact Option.some_ne_none _
    · exact Checked.bind_ne_none.mpr ⟨ih r.2, fun _ _ => Option.some_ne_none _⟩

theorem length_readRow {entry : Entry} {columns : Nat} {codes : Bits} {r : List UInt8 × Bits}
    (h : readRow data entry columns codes = some (.ok r)) : r.1.length = columns := by
  induction columns generalizing codes r with
  | zero =>
    obtain rfl := Except.ok.inj (Option.some.inj h)
    rfl
  | succ columns ih =>
    obtain ⟨first, _, h⟩ := Checked.bind_eq_ok.mp h
    obtain ⟨colour, _, h⟩ := Checked.bind_eq_ok.mp h
    obtain ⟨rest, hrest, h⟩ := Checked.bind_eq_ok.mp h
    obtain rfl := Except.ok.inj (Option.some.inj h)
    show (colour :: rest.1).length = columns + 1
    rw [List.length_cons, ih hrest]

theorem paintRows_spec {entry : Entry} {x w rows y : Nat} {codes : Bits} {canvas : List UInt8}
    (hcanvas : canvas.length = l.width * l.height) (hx : x + w ≤ l.width)
    (hy : y + rows ≤ l.height) : paintRows data l.width entry x w rows y codes canvas ≠ none ∧
      ∀ r, paintRows data l.width entry x w rows y codes canvas = some (.ok r) →
        r.2.length = l.width * l.height := by
  induction rows generalizing y codes canvas with
  | zero =>
    refine ⟨Option.some_ne_none _, fun r hr => ?_⟩
    obtain rfl := Except.ok.inj (Option.some.inj hr)
    exact hcanvas
  | succ rows ih =>
    have hrow : ∀ r, readRow data entry w codes = some (.ok r) → ∃ canvas',
        overwrite canvas (y * l.width + x) r.1 = some canvas' ∧
          canvas'.length = l.width * l.height := by
      intro r hr
      have hlength := length_readRow hr
      have hfit : y * l.width + x + r.1.length ≤ canvas.length := by
        rw [hcanvas, hlength]
        exact row_le hx (by omega)
      have hwrite := overwrite_eq hfit
      exact ⟨_, hwrite, by rw [length_overwrite hwrite, hcanvas]⟩
    rw [paintRows]
    constructor
    · refine Checked.bind_ne_none.mpr ⟨readRow_ne_none entry w codes, fun r hr => ?_⟩
      obtain ⟨canvas', hwrite, hlength⟩ := hrow r hr
      refine Checked.bind_ne_none.mpr ⟨?_, fun c hc => ?_⟩
      · rw [hwrite]
        exact Option.some_ne_none _
      · obtain rfl := Option.some.inj (hwrite.symm.trans (Checked.liftOption_eq_ok.mp hc))
        exact (ih hlength (by omega)).1
    · intro q hq
      obtain ⟨r, hr, hq⟩ := Checked.bind_eq_ok.mp hq
      obtain ⟨c, hc, hq⟩ := Checked.bind_eq_ok.mp hq
      obtain ⟨canvas', hwrite, hlength⟩ := hrow r hr
      obtain rfl := Option.some.inj (hwrite.symm.trans (Checked.liftOption_eq_ok.mp hc))
      exact (ih hlength (by omega)).2 q hq

theorem repeatCell_ok {canvas : List UInt8} {last r : Rect}
    (hcanvas : canvas.length = l.width * l.height) (hlast : last.Inside l) (hr : r.Inside l) :
    ∃ canvas', repeatCell l.width canvas last r = some canvas' ∧
      canvas'.length = l.width * l.height := by
  unfold repeatCell
  split
  · rename_i hsame
    obtain ⟨rows, hrows, hcount, hwidth⟩ := readRect_ok hcanvas hlast
    rw [hrows]
    refine writeRows_ok hcanvas (fun row hrow => ?_) ?_
    · rw [hwidth row hrow, hsame.1]
      exact hr.1
    · rw [hcount, hsame.2]
      exact hr.2
  · refine writeRows_ok hcanvas (fun row hrow => ?_) ?_
    · rw [List.eq_of_mem_replicate hrow, List.length_replicate]
      exact hr.1
    · rw [List.length_replicate]
      exact hr.2

variable {entries : List Entry}

theorem paintPixels_spec {p : Painting} (hok : p.Ok l) {c : Cell} (hc : c.rect.Inside l) :
    paintPixels data l.width entries p c ≠ none ∧
      ∀ r, paintPixels data l.width entries p c = some (.ok r) →
        r.2.length = l.width * l.height := by
  unfold paintPixels
  cases entries[c.entry]? with
  | none =>
    refine ⟨Option.some_ne_none _, fun r hr => ?_⟩
    cases Option.some.inj hr
  | some entry => exact paintRows_spec hok.canvas hc.1 hc.2

theorem paintOver_spec {p : Painting} (hok : p.Ok l) {c : Cell} (hc : c.rect.Inside l)
    {last : Option Rect} (hlast : last ∈ p.last_cell) :
    paintOver data l.width entries p c last ≠ none ∧
      ∀ r, paintOver data l.width entries p c last = some (.ok r) →
        r.2.length = l.width * l.height := by
  have hpixels : paintPixels data l.width entries p c ≠ none ∧
      ∀ r, paintPixels data l.width entries p c = some (.ok r) →
        r.2.length = l.width * l.height := paintPixels_spec hok hc
  unfold paintOver
  cases last with
  | none => exact hpixels
  | some last =>
    cases c.equal with
    | false => exact hpixels
    | true =>
      obtain ⟨canvas', hrepeat, hlength⟩ := repeatCell_ok hok.canvas (hok.cells last hlast) hc
      dsimp only
      rw [hrepeat]
      refine ⟨Option.some_ne_none _, fun r hr => ?_⟩
      obtain rfl := Except.ok.inj (Option.some.inj hr)
      exact hlength

theorem paintCell_spec {p : Painting} (hok : p.Ok l) {c : Cell} (hc : c.rect.Inside l)
    (hbuffer : c.buffer < l.buffer_cells) : paintCell data l.width entries p c ≠ none ∧
      ∀ p', paintCell data l.width entries p c = some (.ok p') → p'.Ok l := by
  have hlt : c.buffer < p.last_cell.length := hok.length.symm ▸ hbuffer
  have hlast := List.getElem?_eq_getElem hlt
  obtain ⟨hsafe, hlength⟩ : paintOver data l.width entries p c p.last_cell[c.buffer] ≠ none ∧ _ :=
    paintOver_spec hok hc (List.getElem_mem hlt)
  rw [paintCell, hlast]
  constructor
  · exact Checked.bind_ne_none.mpr ⟨Checked.liftOption_ne_none.mpr (Option.some_ne_none _), fun r hr => by
      obtain rfl := Option.some.inj (Checked.liftOption_eq_ok.mp hr)
      exact Checked.bind_ne_none.mpr ⟨hsafe, fun _ _ => Option.some_ne_none _⟩⟩
  · intro p' hp'
    obtain ⟨last, hsome, hp'⟩ := Checked.bind_eq_ok.mp hp'
    obtain rfl := Option.some.inj (Checked.liftOption_eq_ok.mp hsome)
    obtain ⟨r, hr, hp'⟩ := Checked.bind_eq_ok.mp hp'
    obtain rfl := Except.ok.inj (Option.some.inj hp')
    refine ⟨hlength r hr, by rw [List.length_set, hok.length], fun q hq => ?_⟩
    rcases List.mem_or_eq_of_mem_set hq with hold | hnew
    · exact hok.cells q hold
    · obtain rfl := Option.some.inj hnew
      exact hc

/-- The cells of a frame are painted. -/
theorem paintFrame_spec {p : Painting} (hok : p.Ok l) {f : FrameCells}
    (hcells : ∀ c ∈ f.cells, c.rect.Inside l ∧ c.buffer < l.buffer_cells) :
    paintFrame data l.width entries p f ≠ none ∧
      ∀ p', paintFrame data l.width entries p f = some (.ok p') → p'.Ok l := by
  unfold paintFrame
  generalize f.cells = cells at hcells
  induction cells generalizing p with
  | nil =>
    refine ⟨Option.some_ne_none _, fun p' hp' => ?_⟩
    obtain rfl := Except.ok.inj (Option.some.inj hp')
    exact hok
  | cons c cells ih =>
    rw [List.forall_mem_cons] at hcells
    obtain ⟨hsafe, hnext⟩ : paintCell data l.width entries p c ≠ none ∧ _ :=
      paintCell_spec hok hcells.1.1 hcells.1.2
    rw [List.foldlM_cons]
    constructor
    · exact Checked.bind_ne_none.mpr ⟨hsafe, fun q hq => (ih (hnext q hq) hcells.2).1⟩
    · intro p' hp'
      obtain ⟨q, hq, hp'⟩ := Checked.bind_eq_ok.mp hp'
      exact (ih (hnext q hq) hcells.2).2 p' hp'

end Painting

end CommandCenter.Formats.Animation
