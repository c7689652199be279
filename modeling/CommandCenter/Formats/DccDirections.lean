import CommandCenter.Formats.DccPixels

/-!
# DCC directions

A direction is decoded, or an error is given, when the numbers of its headers fit, no pixel passes a
`u32`, and the rows of each frame that has no columns are on the canvas: such a frame has no cells
and takes no part in the direction's box, but its rows are copied out like those of another.

* `stage2_ne_none`: the frames are painted without a panic when their rows are on the canvas.
* `decode_direction_ne_none`: what a direction must be for its decoder to return.
* `direction_safe_iff`: the same, of a file.
-/

namespace CommandCenter.Formats.Animation

open Rust

/-! ## Rows copied out -/

section Rows

variable {l : Layout} {canvas : List UInt8} {f : FrameCells}

/-- The last row of a frame without columns is on the canvas. -/
def FrameCells.RowsFit (l : Layout) (f : FrameCells) : Prop :=
  f.width = 0 → f.height = 0 ∨ (f.y + f.height - 1) * l.width + f.x ≤ l.width * l.height

theorem copyRow_ne_none {width row : Nat} {pixels : List UInt8}
    (hlength : pixels.length = canvas.length) (hsize : canvas.length < 2 ^ 64) :
    copyRow width canvas f row pixels ≠ none ↔ row * width + f.x + f.width ≤ canvas.length := by
  constructor
  · intro h
    obtain ⟨out, h⟩ := Option.ne_none_iff_exists'.mp h
    obtain ⟨at_, hat, h⟩ := Option.bind_eq_some_iff.mp h
    obtain ⟨start, hstart, h⟩ := Option.bind_eq_some_iff.mp h
    obtain ⟨stop, hstop, h⟩ := Option.bind_eq_some_iff.mp h
    obtain ⟨part, hpart, _⟩ := Option.bind_eq_some_iff.mp h
    obtain rfl := eq_of_usize hat
    obtain rfl := eq_of_usize hstart
    obtain rfl := eq_of_usize hstop
    unfold slice at hpart
    split at hpart
    · rename_i hin
      exact hin.2
    · cases hpart
  · intro hfit
    have hslice := slice_eq (Nat.le_add_right (row * width + f.x) f.width) hfit
    have hpart := length_slice hslice
    have hat : row * width < 2 ^ 64 := by omega
    have hstart : row * width + f.x < 2 ^ 64 := by omega
    have hstop : row * width + f.x + f.width < 2 ^ 64 := by omega
    unfold copyRow
    simp only [usize_eq hat, usize_eq hstart, usize_eq hstop, hslice, Option.bind_eq_bind,
      Option.bind_some]
    rw [overwrite_eq (by omega)]
    exact Option.some_ne_none _

theorem length_copyRow {width row : Nat} {pixels out : List UInt8}
    (h : copyRow width canvas f row pixels = some out) : out.length = pixels.length := by
  obtain ⟨_, _, h⟩ := Option.bind_eq_some_iff.mp h
  obtain ⟨_, _, h⟩ := Option.bind_eq_some_iff.mp h
  obtain ⟨_, _, h⟩ := Option.bind_eq_some_iff.mp h
  obtain ⟨_, _, h⟩ := Option.bind_eq_some_iff.mp h
  exact length_overwrite h

theorem length_copyRows {width : Nat} {rows : List Nat} {pixels out : List UInt8}
    (h : copyRows width canvas f rows pixels = some out) : out.length = pixels.length := by
  induction rows generalizing pixels with
  | nil =>
    obtain rfl := Option.some.inj h
    rfl
  | cons row rows ih =>
    obtain ⟨next, hnext, h⟩ := Option.bind_eq_some_iff.mp h
    rw [ih h, length_copyRow hnext]

theorem copyRows_ne_none {width : Nat} {rows : List Nat} {pixels : List UInt8}
    (hlength : pixels.length = canvas.length) (hsize : canvas.length < 2 ^ 64) :
    copyRows width canvas f rows pixels ≠ none ↔
      ∀ row ∈ rows, row * width + f.x + f.width ≤ canvas.length := by
  induction rows generalizing pixels with
  | nil =>
    constructor
    · intro _ row hrow
      cases hrow
    · intro _
      exact Option.some_ne_none _
  | cons row rows ih =>
    rw [List.forall_mem_cons, ← copyRow_ne_none hlength hsize, copyRows, Option.bind_eq_bind]
    cases hrow : copyRow width canvas f row pixels with
    | none =>
      constructor
      · intro h
        exact absurd rfl h
      · intro h
        exact absurd rfl h.1
    | some next =>
      rw [Option.bind_some, ih ((length_copyRow hrow).trans hlength)]
      exact ⟨fun h => ⟨Option.some_ne_none _, h⟩, fun h => h.2⟩

theorem length_copyOut {out : List UInt8} (h : copyOut l.width l.height canvas f = some out) :
    out.length = l.width * l.height := by
  obtain ⟨_, _, h⟩ := Option.bind_eq_some_iff.mp h
  rw [length_copyRows h, List.length_replicate]

/-- A frame is copied out when its last row is on the canvas: the rows before it end sooner. -/
theorem copyOut_ne_none (hok : l.Ok) (hcanvas : canvas.length = l.width * l.height)
    (hrow : f.y < 2 ^ 64) : copyOut l.width l.height canvas f ≠ none ↔
      f.height = 0 ∨ (f.y + f.height - 1) * l.width + f.x + f.width ≤ l.width * l.height := by
  have hmax : l.width * l.height ≤ 120000 := hok.size
  have hrows : copyRows l.width canvas f (List.range' f.y f.height)
      (List.replicate (l.width * l.height) 0) ≠ none ↔
        ∀ row ∈ List.range' f.y f.height, row * l.width + f.x + f.width ≤ l.width * l.height := by
    rw [copyRows_ne_none (by rw [List.length_replicate, hcanvas]) (by omega), hcanvas]
  constructor
  · intro h
    obtain ⟨out, h⟩ := Option.ne_none_iff_exists'.mp h
    obtain ⟨_, _, h⟩ := Option.bind_eq_some_iff.mp h
    rcases Nat.eq_zero_or_pos f.height with hempty | hpos
    · exact .inl hempty
    · have hlast : f.y + f.height - 1 ∈ List.range' f.y f.height :=
        List.mem_range'_1.mpr ⟨by omega, by omega⟩
      exact .inr (hrows.mp (by rw [h]; exact Option.some_ne_none _) _ hlast)
  · intro hfit
    have hend : f.y + f.height < 2 ^ 64 := by
      rcases hfit with hempty | hlast
      · omega
      · have hle := Nat.le_mul_of_pos_right (f.y + f.height - 1) hok.width
        omega
    unfold copyOut
    rw [usize_eq hend, Option.bind_eq_bind, Option.bind_some]
    refine hrows.mpr fun row hmem => ?_
    obtain ⟨_, hbefore⟩ := List.mem_range'_1.mp hmem
    rcases hfit with hempty | hlast
    · omega
    · have hle : row * l.width ≤ (f.y + f.height - 1) * l.width :=
        Nat.mul_le_mul_right _ (by omega)
      omega

theorem rowsFit_iff (hf : f.Inside l) : f.RowsFit l ↔
    f.height = 0 ∨ (f.y + f.height - 1) * l.width + f.x + f.width ≤ l.width * l.height := by
  unfold FrameCells.RowsFit
  rcases Nat.eq_zero_or_pos f.width with hempty | hpos
  · rw [hempty, Nat.add_zero]
    exact ⟨fun h => h rfl, fun h _ => h⟩
  · constructor
    · intro _
      rcases Nat.eq_zero_or_pos f.height with hnone | hsome
      · exact .inl hnone
      · have hbottom := hf.bottom hpos hsome
        exact .inr (row_le (hf.right hpos hsome) (by omega))
    · intro _ hempty
      omega

end Rows

/-! ## Frames painted -/

section Frames

variable {data : List UInt8} {l : Layout} {entries : List Entry}

variable (data l entries) in
/-- The rows of each frame that is come to are on the canvas. -/
def FramesDrawn : Painting → List FrameCells → Prop
  | _, [] => True
  | p, f :: frames => ∀ p', paintFrame data l.width entries p f = some (.ok p') →
      f.RowsFit l ∧ FramesDrawn p' frames

theorem stage2_ne_none (hlayout : l.Ok) {p : Painting} (hok : p.Ok l) {frames : List FrameCells}
    (hframes : ∀ f ∈ frames, f.Inside l) :
    stage2 data l.width l.height entries p frames ≠ none ↔ FramesDrawn data l entries p frames := by
  induction frames generalizing p with
  | nil => exact ⟨fun _ => trivial, fun _ => Option.some_ne_none _⟩
  | cons f frames ih =>
    rw [List.forall_mem_cons] at hframes
    have hcells : ∀ c ∈ f.cells, c.rect.Inside l ∧ c.buffer < l.buffer_cells :=
      fun c hc => ⟨⟨(hframes.1.cells c hc).right, (hframes.1.cells c hc).bottom⟩,
        (hframes.1.cells c hc).buffer⟩
    obtain ⟨hsafe, hpainted⟩ : paintFrame data l.width entries p f ≠ none ∧ _ :=
      paintFrame_spec hok hcells
    rw [stage2, Checked.bind_ne_none, FramesDrawn]
    have hstep : ∀ p', paintFrame data l.width entries p f = some (.ok p') →
        ∀ rest : List UInt8 → Checked Error (List (List UInt8) × Painting),
          (∀ pixels, rest pixels ≠ none ↔
            stage2 data l.width l.height entries p' frames ≠ none) →
          (((liftM (copyOut l.width l.height p'.canvas f) : Checked Error (List UInt8)) >>= rest ≠
            none) ↔ f.RowsFit l ∧ FramesDrawn data l entries p' frames) := by
      intro p' hp' rest hrest
      have hok' := hpainted p' hp'
      rw [Checked.bind_ne_none, Checked.liftOption_ne_none, rowsFit_iff hframes.1,
        ← copyOut_ne_none hlayout hok'.canvas hframes.1.row, ← ih hok' hframes.2]
      refine and_congr_right fun hcopied => ?_
      constructor
      · intro h
        obtain ⟨pixels, hpixels⟩ := Option.ne_none_iff_exists'.mp hcopied
        exact (hrest pixels).mp (h pixels (Checked.liftOption_eq_ok.mpr hpixels))
      · intro h pixels _
        exact (hrest pixels).mpr h
    constructor
    · intro h p' hp'
      refine (hstep p' hp' _ fun pixels => ?_).mp (h.2 p' hp')
      exact Checked.bind_ne_none.trans (and_iff_left fun _ _ => Option.some_ne_none _)
    · intro h
      refine ⟨hsafe, fun p' hp' => (hstep p' hp' _ fun pixels => ?_).mpr (h p' hp')⟩
      exact Checked.bind_ne_none.trans (and_iff_left fun _ _ => Option.some_ne_none _)

/-- Each frame has the pixels of the direction's box. -/
theorem stage2_ok {p : Painting} {frames : List FrameCells} {r : List (List UInt8) × Painting}
    (h : stage2 data l.width l.height entries p frames = some (.ok r)) :
    ∀ out ∈ r.1, out.length = l.width * l.height := by
  induction frames generalizing p r with
  | nil =>
    obtain rfl := Except.ok.inj (Option.some.inj h)
    intro out hout
    cases hout
  | cons f frames ih =>
    obtain ⟨p', _, h⟩ := Checked.bind_eq_ok.mp h
    obtain ⟨pixels, hpixels, h⟩ := Checked.bind_eq_ok.mp h
    obtain ⟨rest, hrest, h⟩ := Checked.bind_eq_ok.mp h
    obtain rfl := Except.ok.inj (Option.some.inj h)
    rw [List.forall_mem_cons]
    exact ⟨length_copyOut (Checked.liftOption_eq_ok.mp hpixels), ih hrest⟩

end Frames

/-! ## Directions -/

section Directions

variable {data : List UInt8} {l : Layout}

theorem start_ok (h : Headers) (l : Layout) : (h.start l).Ok l.buffer_cells := by
  refine ⟨List.length_replicate, fun i hi => ?_⟩
  cases List.eq_of_mem_replicate hi

theorem blank_ok (l : Layout) (codes : Bits) : (l.blank codes).Ok l := by
  refine ⟨List.length_replicate, List.length_replicate, fun r hr => ?_⟩
  cases List.eq_of_mem_replicate hr

theorem FrameCells.Inside.of_samePlace {f f' : FrameCells} (hf : f.Inside l)
    (h : f.SamePlace f') : f'.Inside l := by
  refine ⟨h.y.symm ▸ hf.row, fun hw hh => ?_, fun hw hh => ?_, fun c' hc' => ?_⟩
  · rw [h.width] at hw ⊢
    rw [h.height] at hh
    rw [h.x]
    exact hf.right hw hh
  · rw [h.width] at hw
    rw [h.height] at hh ⊢
    rw [h.y]
    exact hf.bottom hw hh
  · obtain ⟨i, hi⟩ := List.getElem?_of_mem hc'
    obtain ⟨c, hc, hrect, hbuffer⟩ : ∃ c ∈ f.cells, c'.rect = c.rect ∧ c'.buffer = c.buffer := by
      have hcells := h.cells
      clear hi
      generalize f'.cells = cells' at hc' hcells
      generalize f.cells = cells at hcells
      induction hcells with
      | nil => cases hc'
      | cons hplace _ ih =>
        rcases List.mem_cons.mp hc' with rfl | hmem
        · exact ⟨_, List.mem_cons_self, hplace⟩
        · obtain ⟨c, hc, hsame⟩ := ih hmem
          exact ⟨c, List.mem_cons_of_mem _ hc, hsame⟩
    obtain ⟨hx, hy, hw, hh⟩ := Rect.mk.inj hrect
    have hin := hf.cells c hc
    exact ⟨by rw [hx, hw]; exact hin.right, by rw [hy, hh]; exact hin.bottom,
      by rw [hbuffer]; exact hin.buffer⟩

/-- The frames are in the direction's box when their colours have been read. -/
theorem inside_of_stage1 (hlayout : l.Ok) {h : Headers} {r : List FrameCells × Colours}
    (hread : stage1 data h.flags h.key (h.start l) l.frames = some (.ok r)) :
    ∀ f ∈ r.1, f.Inside l := by
  have hcells : ∀ f ∈ l.frames, ∀ c ∈ f.cells, c.buffer < l.buffer_cells :=
    fun f hf c hc => ((hlayout.frames f hf).cells c hc).buffer
  have hsame := stage1_ok (start_ok h l) hcells hread
  have hinside := hlayout.frames
  generalize r.1 = frames' at hsame ⊢
  generalize l.frames = frames at hsame hinside
  induction hsame with
  | nil =>
    intro f hf
    cases hf
  | cons hfirst _ ih =>
    rw [List.forall_mem_cons] at hinside ⊢
    exact ⟨hinside.1.of_samePlace hfirst, ih hinside.2⟩

/-- What a direction must be for its decoder to return. -/
structure Sound (data : List UInt8) (frame_count : Nat) : Prop where
  tops : ∀ flags widths b, readOpening data (.new 0 (data.length * 8)) = .ok ((flags, widths), b) →
    TopsFit data widths frame_count b
  boxes : ∀ h, readHeaders data frame_count = some (.ok h) → BoxesFit h.boxes
  codes : ∀ h l, readHeaders data frame_count = some (.ok h) →
    layout h.boxes = some (.ok (some l)) → FramesFit data h.flags h.key (h.start l) l.frames
  rows : ∀ h l frames s, readHeaders data frame_count = some (.ok h) →
    layout h.boxes = some (.ok (some l)) →
      stage1 data h.flags h.key (h.start l) l.frames = some (.ok (frames, s)) →
        FramesDrawn data l s.entries (l.blank s.streams.codes) frames

/-- The frames of a direction that is laid out. -/
def decodeFrames (data : List UInt8) (h : Headers) (l : Layout) : Checked Error Direction :=
  stage1 data h.flags h.key (h.start l) l.frames >>= fun r =>
    stage2 data l.width l.height r.2.entries (l.blank r.2.streams.codes) r.1 >>= fun out =>
      pure ⟨l.left, l.top, l.width, l.height, out.1⟩

theorem decodeFrames_ne_none (hlayout : l.Ok) (h : Headers) : decodeFrames data h l ≠ none ↔
    FramesFit data h.flags h.key (h.start l) l.frames ∧
      ∀ frames s, stage1 data h.flags h.key (h.start l) l.frames = some (.ok (frames, s)) →
        FramesDrawn data l s.entries (l.blank s.streams.codes) frames := by
  have hcells : ∀ f ∈ l.frames, ∀ c ∈ f.cells, c.buffer < l.buffer_cells :=
    fun f hf c hc => ((hlayout.frames f hf).cells c hc).buffer
  rw [decodeFrames, Checked.bind_ne_none, stage1_ne_none (start_ok h l) hcells]
  refine and_congr_right fun _ => ?_
  constructor
  · intro hrest frames s hread
    exact (stage2_ne_none hlayout (blank_ok l _) (inside_of_stage1 hlayout hread)).mp
      (Checked.bind_ne_none.mp (hrest _ hread)).1
  · intro hrest r hread
    exact Checked.bind_ne_none.mpr ⟨(stage2_ne_none hlayout (blank_ok l _)
      (inside_of_stage1 hlayout hread)).mpr (hrest r.1 r.2 hread), fun _ _ => Option.some_ne_none _⟩

theorem decode_direction_eq (data : List UInt8) (frame_count : Nat) :
    decode_direction data frame_count = (readHeaders data frame_count >>= fun h =>
      layout h.boxes >>= fun
        | none => pure ⟨0, 0, 0, 0, List.replicate frame_count []⟩
        | some l => decodeFrames data h l : Checked Error Direction) := rfl

/-- A direction is decoded, or an error is given, when it is sound. -/
theorem decode_direction_ne_none {frame_count : Nat} :
    decode_direction data frame_count ≠ none ↔ Sound data frame_count := by
  rw [decode_direction_eq, Checked.bind_ne_none, readHeaders_ne_none]
  have hdirection : ∀ h, readHeaders data frame_count = some (.ok h) →
      ((layout h.boxes >>= fun
        | none => pure ⟨0, 0, 0, 0, List.replicate frame_count []⟩
        | some l => decodeFrames data h l : Checked Error Direction) ≠ none ↔
      BoxesFit h.boxes ∧ ∀ l, layout h.boxes = some (.ok (some l)) →
        FramesFit data h.flags h.key (h.start l) l.frames ∧
          ∀ frames s, stage1 data h.flags h.key (h.start l) l.frames = some (.ok (frames, s)) →
            FramesDrawn data l s.entries (l.blank s.streams.codes) frames) := by
    intro h hread
    have hboxes := readHeaders_ok hread
    rw [Checked.bind_ne_none, layout_ne_none hboxes]
    refine and_congr_right fun _ => ?_
    constructor
    · intro hrest l hl
      exact (decodeFrames_ne_none (layout_ok hboxes hl) h).mp (hrest _ hl)
    · intro hrest l hl
      cases l with
      | none => exact Option.some_ne_none _
      | some l => exact (decodeFrames_ne_none (layout_ok hboxes hl) h).mpr (hrest l hl)
  constructor
  · rintro ⟨htops, hrest⟩
    have hall := fun h hread => (hdirection h hread).mp (hrest h hread)
    exact ⟨htops, fun h hread => (hall h hread).1, fun h l hread hl => ((hall h hread).2 l hl).1,
      fun h l frames s hread hl => ((hall h hread).2 l hl).2 frames s⟩
  · rintro ⟨htops, hboxes, hcodes, hrows⟩
    refine ⟨htops, fun h hread => (hdirection h hread).mpr ⟨hboxes h hread, fun l hl => ?_⟩⟩
    exact ⟨hcodes h l hread hl, fun frames s => hrows h l frames s hread hl⟩

theorem decode_direction_ok {frame_count : Nat} {d : Direction}
    (h : decode_direction data frame_count = some (.ok d)) :
    ∀ f ∈ d.frames, f.length = d.width * d.height := by
  rw [decode_direction_eq] at h
  obtain ⟨headers, _, h⟩ := Checked.bind_eq_ok.mp h
  obtain ⟨l, _, h⟩ := Checked.bind_eq_ok.mp h
  cases l with
  | none =>
    obtain rfl := Except.ok.inj (Option.some.inj h)
    intro f hf
    rw [List.eq_of_mem_replicate hf]
    rfl
  | some l =>
    obtain ⟨r, _, h⟩ := Checked.bind_eq_ok.mp h
    obtain ⟨out, hout, h⟩ := Checked.bind_eq_ok.mp h
    obtain rfl := Except.ok.inj (Option.some.inj h)
    exact stage2_ok hout

end Directions

/-! ## Files -/

section Files

/-- A header is read without a panic. -/
theorem parse_ne_none (bytes : List UInt8) : Dcc.parse bytes ≠ none := by
  unfold Dcc.parse
  split
  · exact Option.some_ne_none _
  · rename_i hlong
    have hget : ∀ i < 15, (liftM bytes[i]? : Checked Error UInt8) ≠ none := by
      intro i hi
      rw [List.getElem?_eq_getElem (by omega)]
      exact Option.some_ne_none _
    refine Checked.bind_ne_none.mpr ⟨hget 0 (by omega), fun magic _ => ?_⟩
    refine Checked.guard_ne_none.mpr fun _ => ?_
    refine Checked.bind_ne_none.mpr ⟨hget 2 (by omega), fun directions _ => ?_⟩
    have hslice : slice bytes 3 7 = some ((bytes.take 7).drop 3) := slice_eq (by omega) (by omega)
    have hcount : 4 ≤ ((bytes.take 7).drop 3).length := Nat.le_of_eq (length_slice hslice).symm
    rw [hslice]
    refine Checked.bind_ne_none.mpr ⟨Option.some_ne_none _, fun count hcounted => ?_⟩
    obtain rfl := Except.ok.inj (Option.some.inj hcounted)
    refine Checked.bind_ne_none.mpr ⟨?_, fun frames _ => ?_⟩
    · rw [List.head?_eq_some_head (List.ne_nil_of_length_pos (@length_leWords _ 1 hcount))]
      exact Option.some_ne_none _
    · refine Checked.guard_ne_none.mpr fun _ => Checked.guard_ne_none.mpr fun _ => ?_
      exact Checked.guard_ne_none.mpr fun _ => Option.some_ne_none _

/-- A direction, or an error, is returned; a direction's frames have the pixels of its box. -/
def Safe (x : Checked Error Direction) : Prop :=
  x ≠ none ∧ ∀ d, x = some (.ok d) → ∀ f ∈ d.frames, f.length = d.width * d.height

/-- `Dcc::parse(bytes)?.direction(index)` -/
def directionOf (bytes : List UInt8) (index : Nat) : Checked Error Direction := do
  let dcc ← Dcc.parse bytes
  dcc.direction index

/-- A direction of a file is safe to decode just when it is sound. -/
theorem direction_safe_iff (bytes : List UInt8) (index : Nat) : Safe (directionOf bytes index) ↔
    ∀ dcc data, Dcc.parse bytes = some (.ok dcc) → dcc.data index = .ok data →
      Sound data dcc.frames := by
  have hreturns : directionOf bytes index ≠ none ↔ ∀ dcc data,
      Dcc.parse bytes = some (.ok dcc) → dcc.data index = .ok data → Sound data dcc.frames := by
    rw [directionOf, Checked.bind_ne_none]
    constructor
    · rintro ⟨_, hrest⟩ dcc data hparse hdata
      obtain ⟨_, hdecode⟩ := Checked.bind_ne_none.mp (hrest dcc hparse)
      exact decode_direction_ne_none.mp (hdecode data (Checked.lift_eq_ok.mpr hdata))
    · intro hall
      refine ⟨parse_ne_none bytes, fun dcc hparse => ?_⟩
      refine Checked.bind_ne_none.mpr ⟨Checked.lift_ne_none _, fun data hdata => ?_⟩
      exact decode_direction_ne_none.mpr (hall dcc data hparse (Checked.lift_eq_ok.mp hdata))
  rw [← hreturns]
  constructor
  · intro h
    exact h.1
  · intro h
    refine ⟨h, fun d hd => ?_⟩
    obtain ⟨dcc, _, hd⟩ := Checked.bind_eq_ok.mp hd
    obtain ⟨data, _, hd⟩ := Checked.bind_eq_ok.mp hd
    exact decode_direction_ok hd

/-- The size of a direction that comes out, and how many pixels each frame has. -/
def sizesOf : Checked Error Direction → Option (Nat × Nat × List Nat)
  | some (.ok d) => some (d.width, d.height, d.frames.map List.length)
  | _ => none

theorem safe_of_sizesOf {x : Checked Error Direction} {width height count : Nat}
    (h : sizesOf x = some (width, height, List.replicate count (width * height))) : Safe x := by
  unfold sizesOf at h
  split at h
  · rename_i d
    obtain ⟨rfl, rfl, hlengths⟩ : d.width = width ∧ d.height = height ∧ _ := by
      simpa only [Option.some.injEq, Prod.mk.injEq] using h
    refine ⟨Option.some_ne_none _, fun d' hd' f hf => ?_⟩
    obtain rfl := Except.ok.inj (Option.some.inj hd')
    exact List.eq_of_mem_replicate (hlengths ▸ List.mem_map_of_mem hf)
  · cases h

def overlappingFile : List UInt8 :=
  [0x74, 6, 1, 2, 0, 0, 0, 1, 0, 0, 0, 0, 0, 0, 0, 19, 0, 0, 0] ++ overlapping

/-- Two frames of nine by six pixels come out, so the direction is sound. -/
theorem direction_sound_overlapping :
    sizesOf (directionOf overlappingFile 0) = some (9, 6, [54, 54]) ∧
      ∀ dcc data, Dcc.parse overlappingFile = some (.ok dcc) → dcc.data 0 = .ok data →
        Sound data dcc.frames := by
  have hsizes : sizesOf (directionOf overlappingFile 0) = some (9, 6, [54, 54]) := by
    decide +kernel
  exact ⟨hsizes, (direction_safe_iff _ _).mp (@safe_of_sizesOf _ 9 6 2 hsizes)⟩

/-- Two frames of one direction: a pixel, and five rows below it a frame of one row and no
columns. -/
def emptyBelow : List UInt8 :=
  [0x74, 6, 1, 2, 0, 0, 0, 1, 0, 0, 0, 0, 0, 0, 0, 19, 0, 0, 0] ++
    [0, 0, 0, 0, 64, 132, 12, 192, 0, 43] ++ List.replicate 36 0

/-- The row of a frame without columns is looked for below the canvas. -/
theorem not_safe_emptyBelow : ¬ ∀ bytes index, Safe (directionOf bytes index) := by
  intro h
  have hpanic : (directionOf emptyBelow 0).isNone = true := by decide +kernel
  exact (h emptyBelow 0).1 (Option.isNone_iff_eq_none.mp hpanic)

end Files

end CommandCenter.Formats.Animation
