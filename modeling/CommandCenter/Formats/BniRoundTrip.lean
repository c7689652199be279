import CommandCenter.Formats.Bni

/-!
# Icon files are read back as written

The entries of an icon file end where its image begins. So a file that is read was written from
what was read, the padding of its header apart; and nothing past its end is looked at.

* `reads_entry`, `entry_exact`: an entry is read back, and what is read is an entry.
* `readIcons_eq`, `readIcons_exact`: the table of entries.
* `parse_eq_ok_iff`: the files that are read are the layouts of encodable ones.
-/

namespace CommandCenter.Formats.Bni

open Rust Proto Library

/-- No more codes than an entry has room for, and none that would end it. -/
def BniIcon.Encodable (icon : BniIcon) : Prop :=
  icon.codes.length ≤ maxCodes ∧ ∀ code ∈ icon.codes, code.value ≠ 0

instance (icon : BniIcon) : Decidable icon.Encodable := inferInstanceAs (Decidable (_ ∧ _))

/-- A file as it is written, with a header padding of any value. -/
def layout (padding : UInt16) (file : BniFile) : List UInt8 :=
  Writer.u32 (.ofNat headerLen) ++ Writer.u16 file.version ++ Writer.u16 padding ++
    Writer.u32 (.ofNat file.icons.length) ++ Writer.u32 (.ofNat file.dataOffset) ++
    file.icons.flatMap buildIcon ++ file.image

/-! ## Readers with an error of their own -/

section OrError

variable {α : Type} {x : Reader α} {e : BniError}

theorem reads_orError {written : List UInt8} {a : α} (h : Reads x written a) :
    Reads (orError x e) written a := by
  intro rest
  rw [orError, h rest]
  rfl

theorem exact_orError {write : α → List UInt8} (h : Exact x write) :
    Exact (orError x e) write := by
  intro left a rest hread
  unfold orError at hread
  cases hx : x left with
  | error e' =>
    rw [hx] at hread
    cases hread
  | ok r =>
    rw [hx] at hread
    obtain rfl := Except.ok.inj hread
    exact h left a rest hx

theorem reads_u32 (v : UInt32) : Reads (orError Reader.u32 e) (Writer.u32 v) v :=
  reads_orError (Reader.reads_u32 v)

theorem exact_u32 : Exact (orError Reader.u32 e) Writer.u32 := exact_orError Reader.exact_u32

end OrError

/-! ## Entries -/

/-- The codes of an entry and their terminator. -/
def buildCodes (codes : List FourCc) : List UInt8 :=
  codes.flatMap (fun code => code.asAscii.reverse) ++ Writer.u32 0

theorem buildCodes_cons (code : FourCc) (codes : List FourCc) :
    buildCodes (code :: codes) = Writer.u32 code.value ++ buildCodes codes := by
  rw [buildCodes, List.flatMap_cons, List.append_assoc]
  rfl

theorem length_buildCodes (codes : List FourCc) :
    (buildCodes codes).length = (codes.length + 1) * 4 := by
  induction codes with
  | nil => rfl
  | cons code codes ih =>
    rw [buildCodes_cons, List.length_append, Writer.length_u32, ih, List.length_cons]
    omega

theorem reads_codes (index : UInt32) {room : Nat} {codes : List FourCc}
    (hroom : codes.length ≤ room) (hcodes : ∀ code ∈ codes, code.value ≠ 0) :
    Reads (readCodes index room) (buildCodes codes) codes := by
  induction codes generalizing room with
  | nil =>
    rw [← List.append_nil (buildCodes [])]
    cases room with
    | zero => exact Reads.bind (reads_u32 0) (Reads.pure [])
    | succ room => exact Reads.bind (reads_u32 0) (Reads.pure [])
  | cons code codes ih =>
    rw [List.length_cons] at hroom
    obtain ⟨room, rfl⟩ : ∃ n, room = n + 1 := ⟨room - 1, by omega⟩
    have hcode : code.value ≠ 0 := hcodes code List.mem_cons_self
    have hrest : Reads (readCodes index room) (buildCodes codes) codes :=
      ih (by omega) fun c hc => hcodes c (List.mem_cons_of_mem _ hc)
    rw [buildCodes_cons]
    refine Reads.bind (reads_u32 code.value) ?_
    rw [if_neg hcode]
    exact hrest.map fun codes => code :: codes

theorem codes_exact {index : UInt32} {room : Nat} {left rest : List UInt8} {codes : List FourCc}
    (h : readCodes index room left = .ok (codes, rest)) :
    codes.length ≤ room ∧ (∀ code ∈ codes, code.value ≠ 0) ∧ left = buildCodes codes ++ rest := by
  induction room generalizing left codes with
  | zero =>
    obtain ⟨raw, left', hraw, h⟩ := Taking.bind_ok h
    split at h
    · rename_i hzero
      obtain ⟨rfl, rfl⟩ := Prod.mk.inj (Except.ok.inj h)
      subst hzero
      exact ⟨Nat.le_refl 0, fun _ hc => absurd hc List.not_mem_nil, exact_u32 _ _ _ hraw⟩
    · cases h
  | succ room ih =>
    obtain ⟨raw, left', hraw, h⟩ := Taking.bind_ok h
    split at h
    · rename_i hzero
      obtain ⟨rfl, rfl⟩ := Prod.mk.inj (Except.ok.inj h)
      subst hzero
      exact ⟨Nat.zero_le _, fun _ hc => absurd hc List.not_mem_nil, exact_u32 _ _ _ hraw⟩
    · rename_i hraw₀
      obtain ⟨more, left'', hmore, h⟩ := Taking.bind_ok h
      obtain ⟨rfl, rfl⟩ := Prod.mk.inj (Except.ok.inj h)
      obtain ⟨hlen, hcodes, hleft⟩ := ih hmore
      refine ⟨Nat.succ_le_succ hlen, ?_, ?_⟩
      · exact List.forall_mem_cons.mpr ⟨hraw₀, hcodes⟩
      · rw [exact_u32 _ _ _ hraw, hleft, buildCodes_cons, List.append_assoc]

theorem buildIcon_eq (icon : BniIcon) :
    buildIcon icon = Writer.u32 icon.flags ++ (Writer.u32 icon.width ++
      (Writer.u32 icon.height ++ buildCodes icon.codes)) := by
  simp only [buildIcon, buildCodes, List.append_assoc]

theorem length_buildIcon (icon : BniIcon) : (buildIcon icon).length = icon.size := by
  simp only [buildIcon_eq, List.length_append, Writer.length_u32, length_buildCodes, BniIcon.size]
  omega

theorem reads_entry (index : UInt32) {icon : BniIcon} (h : icon.Encodable) :
    Reads (readEntry index) (buildIcon icon) icon := by
  rw [buildIcon_eq]
  refine Reads.bind (reads_u32 icon.flags) (Reads.bind (reads_u32 icon.width)
    (Reads.bind (reads_u32 icon.height) ?_))
  exact (reads_codes index h.1 h.2).map fun codes =>
    BniIcon.mk icon.flags icon.width icon.height codes

theorem entry_exact {index : UInt32} {left rest : List UInt8} {icon : BniIcon}
    (h : readEntry index left = .ok (icon, rest)) :
    icon.Encodable ∧ left = buildIcon icon ++ rest := by
  obtain ⟨flags, left₁, hflags, h⟩ := Taking.bind_ok h
  obtain ⟨width, left₂, hwidth, h⟩ := Taking.bind_ok h
  obtain ⟨height, left₃, hheight, h⟩ := Taking.bind_ok h
  obtain ⟨codes, left₄, hcodes, h⟩ := Taking.bind_ok h
  obtain ⟨rfl, rfl⟩ := Prod.mk.inj (Except.ok.inj h)
  obtain ⟨hlen, hnonzero, hleft⟩ := codes_exact hcodes
  refine ⟨⟨hlen, hnonzero⟩, ?_⟩
  rw [exact_u32 _ _ _ hflags, exact_u32 _ _ _ hwidth, exact_u32 _ _ _ hheight, hleft, buildIcon_eq]
  simp only [List.append_assoc]

/-! ## The table of entries -/

/-- Bytes of the entries. -/
theorem length_flatMap_buildIcon (icons : List BniIcon) :
    (icons.flatMap buildIcon).length = (icons.map BniIcon.size).sum := by
  rw [List.length_flatMap]
  congr 2
  exact funext length_buildIcon

theorem drop_after {bytes : List UInt8} {pos stop : Nat} {icon : BniIcon} {rest : List UInt8}
    (h : (bytes.take stop).drop pos = buildIcon icon ++ rest) :
    (bytes.take stop).drop (pos + icon.size) = rest := by
  rw [← List.drop_drop, h, ← length_buildIcon, List.drop_left]

/-- An entry that was read ends within the table. -/
theorem pos_after_le {bytes : List UInt8} {pos stop : Nat} {icon : BniIcon} {rest : List UInt8}
    (hpos : pos ≤ stop) (h : (bytes.take stop).drop pos = buildIcon icon ++ rest) :
    pos + icon.size ≤ stop := by
  have hlen := congrArg List.length h
  rw [List.length_append, length_buildIcon, List.length_drop, List.length_take] at hlen
  omega

section Table

variable {bytes : List UInt8} {dataOffset : Nat} (hoffset : dataOffset ≤ bytes.length)

include hoffset

theorem readIcons_eq {icons : List BniIcon} (hicons : ∀ icon ∈ icons, icon.Encodable)
    {rest : List UInt8} {index : UInt32} {pos : Nat} (hpos : pos ≤ dataOffset)
    (h : (bytes.take dataOffset).drop pos = icons.flatMap buildIcon ++ rest) :
    readIcons bytes dataOffset icons.length index pos =
      some (.ok (icons, pos + (icons.map BniIcon.size).sum)) := by
  induction icons generalizing index pos with
  | nil => rfl
  | cons icon icons ih =>
    rw [List.flatMap_cons, List.append_assoc] at h
    have hentry : readEntry index ((bytes.take dataOffset).drop pos) =
        .ok (icon, icons.flatMap buildIcon ++ rest) := by
      rw [h]
      exact reads_entry index (hicons icon List.mem_cons_self) _
    have hrest : readIcons bytes dataOffset icons.length (index + 1) (pos + icon.size) =
        some (.ok (icons, pos + icon.size + (icons.map BniIcon.size).sum)) :=
      ih (fun i hi => hicons i (List.mem_cons_of_mem _ hi)) (pos_after_le hpos h) (drop_after h)
    rw [List.length_cons, readIcons, Checked.bind_eq_ok]
    refine ⟨_, Checked.liftOption_eq_ok.mpr (slice_eq hpos hoffset), ?_⟩
    rw [Checked.bind_eq_ok]
    refine ⟨icon, Checked.lift_eq_ok.mpr (Taking.run'_eq_ok.mpr ⟨_, hentry⟩), ?_⟩
    rw [Checked.bind_eq_ok]
    refine ⟨_, hrest, ?_⟩
    rw [List.map_cons, List.sum_cons, ← Nat.add_assoc]
    rfl

theorem readIcons_exact {count : Nat} {index : UInt32} {pos stop : Nat} {icons : List BniIcon}
    (hpos : pos ≤ dataOffset)
    (h : readIcons bytes dataOffset count index pos = some (.ok (icons, stop))) :
    icons.length = count ∧ (∀ icon ∈ icons, icon.Encodable) ∧
      stop = pos + (icons.map BniIcon.size).sum ∧
      ∃ rest, (bytes.take dataOffset).drop pos = icons.flatMap buildIcon ++ rest := by
  induction count generalizing index pos icons with
  | zero =>
    obtain ⟨rfl, rfl⟩ := Prod.mk.inj (Except.ok.inj (Option.some.inj h))
    exact ⟨rfl, fun _ hi => absurd hi List.not_mem_nil, rfl, _, rfl⟩
  | succ count ih =>
    obtain ⟨entry, hslice, h⟩ := Checked.bind_eq_ok.mp h
    obtain ⟨icon, hicon, h⟩ := Checked.bind_eq_ok.mp h
    obtain ⟨r, hmore, h⟩ := Checked.bind_eq_ok.mp h
    obtain ⟨more, stop'⟩ := r
    obtain ⟨rfl, rfl⟩ := Prod.mk.inj (Except.ok.inj (Option.some.inj h))
    rw [Checked.liftOption_eq_ok, slice_eq hpos hoffset] at hslice
    obtain rfl := Option.some.inj hslice
    obtain ⟨rest, hentry⟩ := Taking.run'_eq_ok.mp (Checked.lift_eq_ok.mp hicon)
    obtain ⟨hencodable, hleft⟩ := entry_exact hentry
    obtain ⟨hlen, hicons, hstop, rest', hrest⟩ := ih (pos_after_le hpos hleft) hmore
    refine ⟨congrArg (· + 1) hlen, List.forall_mem_cons.mpr ⟨hencodable, hicons⟩, ?_, rest', ?_⟩
    · rw [hstop, List.map_cons, List.sum_cons, Nat.add_assoc]
    · rw [hleft, ← drop_after hleft, hrest, List.flatMap_cons, List.append_assoc]

/-- The loop slices within the file. -/
theorem readIcons_ne_none {count : Nat} {index : UInt32} {pos : Nat} (hpos : pos ≤ dataOffset) :
    readIcons bytes dataOffset count index pos ≠ none := by
  induction count generalizing index pos with
  | zero => exact Option.some_ne_none _
  | succ count ih =>
    rw [readIcons, Checked.bind_ne_none, Checked.liftOption_ne_none, slice_eq hpos hoffset]
    refine ⟨Option.some_ne_none _, fun entry hslice => ?_⟩
    rw [Checked.liftOption_eq_ok] at hslice
    obtain rfl := Option.some.inj hslice
    rw [Checked.bind_ne_none]
    refine ⟨Checked.lift_ne_none _, fun icon hicon => ?_⟩
    obtain ⟨rest, hentry⟩ := Taking.run'_eq_ok.mp (Checked.lift_eq_ok.mp hicon)
    have hafter := pos_after_le hpos (entry_exact hentry).2
    rw [Checked.bind_ne_none]
    exact ⟨ih hafter, fun _ _ => Option.some_ne_none _⟩

end Table

/-! ## The header -/

def buildHeader (header : Header) (padding : UInt16) : List UInt8 :=
  Writer.u32 (.ofNat headerLen) ++ (Writer.u16 header.version ++ (Writer.u16 padding ++
    (Writer.u32 header.iconCount ++ Writer.u32 header.dataOffset)))

theorem reads_header {header : Header} (hversion : header.version = version) (padding : UInt16) :
    Reads readHeader (buildHeader header padding) header := by
  refine Reads.bind (reads_u32 _) ?_
  rw [if_neg (not_not.mpr rfl)]
  refine Reads.bind (reads_orError (Reader.reads_u16 header.version)) ?_
  rw [if_neg (not_not.mpr hversion)]
  refine Reads.bind (reads_orError (Reader.reads_u16 padding)) (Reads.bind (reads_u32 _) ?_)
  exact (reads_u32 header.dataOffset).map fun dataOffset =>
    Header.mk header.version header.iconCount dataOffset

theorem header_exact {left rest : List UInt8} {header : Header}
    (h : readHeader left = .ok (header, rest)) :
    header.version = version ∧ ∃ padding, left = buildHeader header padding ++ rest := by
  obtain ⟨size, left₁, hsize, h⟩ := Taking.bind_ok h
  obtain ⟨hsize₀, h⟩ := Taking.guard_ok h
  obtain ⟨fileVersion, left₂, hversion, h⟩ := Taking.bind_ok h
  obtain ⟨hversion₀, h⟩ := Taking.guard_ok h
  obtain ⟨padding, left₃, hpadding, h⟩ := Taking.bind_ok h
  obtain ⟨count, left₄, hcount, h⟩ := Taking.bind_ok h
  obtain ⟨offset, left₅, hoffset, h⟩ := Taking.bind_ok h
  obtain ⟨rfl, rfl⟩ := Prod.mk.inj (Except.ok.inj h)
  refine ⟨not_not.mp hversion₀, padding, ?_⟩
  rw [exact_u32 _ _ _ hsize, not_not.mp hsize₀, exact_orError Reader.exact_u16 _ _ _ hversion,
    exact_orError Reader.exact_u16 _ _ _ hpadding, exact_u32 _ _ _ hcount,
    exact_u32 _ _ _ hoffset]
  simp only [buildHeader, List.append_assoc]

/-! ## Files -/

/-- A file that the format has a place for. -/
structure BniFile.Encodable (file : BniFile) : Prop where
  version : file.version = Bni.version
  icons : ∀ icon ∈ file.icons, icon.Encodable
  dataOffset : file.dataOffset < 2 ^ 32

namespace BniFile

/-- An entry is at least sixteen bytes. -/
theorem length_icons_le (file : BniFile) :
    headerLen + file.icons.length * 16 ≤ file.dataOffset := by
  unfold dataOffset
  induction file.icons with
  | nil => exact Nat.le_refl _
  | cons icon icons ih =>
    have hsize : 16 ≤ icon.size := by
      unfold BniIcon.size
      omega
    rw [List.length_cons, List.map_cons, List.sum_cons]
    omega

/-- The header of a file as it is written. -/
def header (file : BniFile) : Header :=
  ⟨file.version, .ofNat file.icons.length, .ofNat file.dataOffset⟩

namespace Encodable

variable {file : BniFile} (h : file.Encodable)

include h

theorem toNat_dataOffset : file.header.dataOffset.toNat = file.dataOffset :=
  UInt32.toNat_ofNat_of_lt' h.dataOffset

theorem toNat_iconCount : file.header.iconCount.toNat = file.icons.length := by
  have hicons := file.length_icons_le
  have hoffset := h.dataOffset
  refine UInt32.toNat_ofNat_of_lt' ?_
  change file.icons.length < 2 ^ 32
  omega

end Encodable

end BniFile

theorem layout_eq (padding : UInt16) (file : BniFile) :
    layout padding file =
      buildHeader file.header padding ++ (file.icons.flatMap buildIcon ++ file.image) := by
  simp only [layout, buildHeader, BniFile.header, List.append_assoc]

theorem length_table (padding : UInt16) (file : BniFile) :
    (buildHeader file.header padding ++ file.icons.flatMap buildIcon).length = file.dataOffset := by
  rw [List.length_append, length_flatMap_buildIcon]
  rfl

theorem length_layout (padding : UInt16) (file : BniFile) :
    (layout padding file).length = file.dataOffset + file.image.length := by
  rw [layout_eq, ← List.append_assoc, List.length_append, length_table]

theorem isMpq_layout (padding : UInt16) (file : BniFile) :
    isMpq (layout padding file) = some false := by
  rw [layout_eq]
  rfl

theorem isMpq_ne_none (bytes : List UInt8) : isMpq bytes ≠ none := by
  unfold isMpq
  split
  · exact Option.some_ne_none _
  · rename_i hlen
    have hlast : 3 < bytes.length := by omega
    rw [slice_eq (Nat.zero_le 3) (by omega), List.getElem?_eq_getElem hlast]
    simp only [Option.bind_eq_bind, Option.bind_some]
    split <;> exact Option.some_ne_none _

theorem parse_layout {file : BniFile} (h : file.Encodable) (padding : UInt16) :
    parse (layout padding file) = some (.ok file) := by
  have hlen := length_layout padding file
  have hicons := file.length_icons_le
  have hheader : readHeader (layout padding file) =
      .ok (file.header, file.icons.flatMap buildIcon ++ file.image) := by
    rw [layout_eq]
    exact reads_header h.version padding _
  have htable : ((layout padding file).take file.dataOffset).drop headerLen =
      file.icons.flatMap buildIcon ++ [] := by
    rw [layout_eq, ← List.append_assoc, ← length_table padding file, List.take_left,
      List.append_nil]
    exact List.drop_left' rfl
  have himage : ((layout padding file).take (layout padding file).length).drop file.dataOffset =
      file.image := by
    rw [List.take_length, layout_eq, ← List.append_assoc, ← length_table padding file,
      List.drop_left]
  unfold parse
  rw [Checked.bind_eq_ok]
  refine ⟨false, Checked.liftOption_eq_ok.mpr (isMpq_layout padding file), ?_⟩
  rw [if_neg Bool.false_ne_true, Checked.guard_eq_ok]
  refine ⟨by omega, ?_⟩
  rw [Checked.bind_eq_ok]
  refine ⟨file.header, Checked.lift_eq_ok.mpr (Taking.run'_eq_ok.mpr ⟨_, hheader⟩), ?_⟩
  simp only [h.toNat_dataOffset, h.toNat_iconCount]
  rw [Checked.guard_eq_ok]
  refine ⟨by omega, ?_⟩
  rw [Checked.guard_eq_ok]
  refine ⟨by omega, ?_⟩
  rw [Checked.bind_eq_ok]
  refine ⟨_, readIcons_eq (by omega) h.icons (by omega) htable, ?_⟩
  rw [Checked.guard_eq_ok]
  refine ⟨not_not.mpr rfl, ?_⟩
  rw [Checked.bind_eq_ok]
  refine ⟨_, Checked.liftOption_eq_ok.mpr (slice_eq (by omega) (Nat.le_refl _)), ?_⟩
  rw [himage]
  rfl

/-- What is read is an encodable file, and its layout is the bytes that were read. -/
theorem parse_exact {bytes : List UInt8} {file : BniFile} (h : parse bytes = some (.ok file)) :
    file.Encodable ∧ ∃ padding, bytes = layout padding file := by
  unfold parse at h
  obtain ⟨mpq, -, h⟩ := Checked.bind_eq_ok.mp h
  obtain ⟨-, h⟩ := Checked.guard_eq_ok.mp h
  obtain ⟨-, h⟩ := Checked.guard_eq_ok.mp h
  obtain ⟨header, hheader, h⟩ := Checked.bind_eq_ok.mp h
  obtain ⟨-, h⟩ := Checked.guard_eq_ok.mp h
  obtain ⟨hoffset, h⟩ := Checked.guard_eq_ok.mp h
  obtain ⟨⟨icons, pos⟩, hicons, h⟩ := Checked.bind_eq_ok.mp h
  obtain ⟨hpos, h⟩ := Checked.guard_eq_ok.mp h
  obtain ⟨image, himage, h⟩ := Checked.bind_eq_ok.mp h
  obtain rfl := Except.ok.inj (Option.some.inj h)
  have hfrom : headerLen ≤ header.dataOffset.toNat := by omega
  have hto : header.dataOffset.toNat ≤ bytes.length := by omega
  obtain ⟨rest, hrest⟩ := Taking.run'_eq_ok.mp (Checked.lift_eq_ok.mp hheader)
  obtain ⟨hversion, padding, hbytes⟩ := header_exact hrest
  obtain ⟨hcount, hencodable, hstop, more, htable⟩ := readIcons_exact hto hfrom hicons
  rw [Checked.liftOption_eq_ok, slice_eq hto (Nat.le_refl _), List.take_length] at himage
  obtain rfl := Option.some.inj himage
  have hend : headerLen + (icons.map BniIcon.size).sum = header.dataOffset.toNat :=
    hstop ▸ not_not.mp hpos
  have hsame : BniFile.header ⟨header.version, icons, bytes.drop header.dataOffset.toNat⟩ =
      header := by
    unfold BniFile.header BniFile.dataOffset
    rw [hend, hcount, UInt32.ofNat_toNat, UInt32.ofNat_toNat]
  refine ⟨⟨hversion, hencodable, ?_⟩, padding, ?_⟩
  · exact (congrArg (· < 2 ^ 32) hend).mpr header.dataOffset.toNat_lt
  · have hmore : more = [] := by
      have hlen := congrArg List.length htable
      rw [List.length_append, length_flatMap_buildIcon, List.length_drop, List.length_take] at hlen
      exact List.length_eq_zero_iff.mp (by omega)
    have hhead : bytes.take headerLen = buildHeader header padding := by
      rw [hbytes]
      exact List.take_left' rfl
    rw [layout_eq, hsame, ← hhead]
    calc bytes = bytes.take header.dataOffset.toNat ++ bytes.drop header.dataOffset.toNat :=
          (List.take_append_drop _ _).symm
      _ = (bytes.take headerLen ++ icons.flatMap buildIcon) ++
            bytes.drop header.dataOffset.toNat := by
          congr 1
          rw [← List.take_append_drop headerLen (bytes.take header.dataOffset.toNat), htable, hmore,
            List.append_nil, List.take_take, Nat.min_eq_left hfrom]
      _ = _ := List.append_assoc _ _ _

/-- The files that are read are the layouts of the encodable ones. -/
theorem parse_eq_ok_iff {bytes : List UInt8} {file : BniFile} :
    parse bytes = some (.ok file) ↔ file.Encodable ∧ ∃ padding, bytes = layout padding file := by
  constructor
  · exact parse_exact
  · rintro ⟨hfile, padding, rfl⟩
    exact parse_layout hfile padding

theorem parse_ne_none (bytes : List UInt8) : parse bytes ≠ none := by
  unfold parse
  rw [Checked.bind_ne_none, Checked.liftOption_ne_none]
  refine ⟨isMpq_ne_none bytes, fun mpq _ => ?_⟩
  rw [Checked.guard_ne_none]
  intro _
  rw [Checked.guard_ne_none]
  intro _
  rw [Checked.bind_ne_none]
  refine ⟨Checked.lift_ne_none _, fun header _ => ?_⟩
  dsimp only
  rw [Checked.guard_ne_none]
  intro _
  rw [Checked.guard_ne_none]
  intro hoffset
  have hfrom : headerLen ≤ header.dataOffset.toNat := by omega
  have hto : header.dataOffset.toNat ≤ bytes.length := by omega
  rw [Checked.bind_ne_none]
  refine ⟨readIcons_ne_none hto hfrom, fun table _ => ?_⟩
  rw [Checked.guard_ne_none]
  intro _
  rw [Checked.bind_ne_none, Checked.liftOption_ne_none, slice_eq hto (Nat.le_refl _)]
  exact ⟨Option.some_ne_none _, fun _ _ => Option.some_ne_none _⟩

/-- What is written has no padding; a file of another padding differs from it there. -/
theorem getElem?_build (padding : UInt16) (file : BniFile) {i : Nat} (h₆ : i ≠ 6) (h₇ : i ≠ 7) :
    (build file)[i]? = (layout padding file)[i]? := by
  obtain ⟨front, tail, hfront, hlayout⟩ : ∃ front tail : List UInt8, front.length = 6 ∧
      ∀ padding, layout padding file = front ++ (Writer.u16 padding ++ tail) := by
    refine ⟨Writer.u32 (.ofNat headerLen) ++ Writer.u16 file.version,
      Writer.u32 (.ofNat file.icons.length) ++ (Writer.u32 (.ofNat file.dataOffset) ++
        (file.icons.flatMap buildIcon ++ file.image)), rfl, ?_⟩
    intro padding
    simp only [layout, List.append_assoc]
  change (layout 0 file)[i]? = _
  rw [hlayout, hlayout]
  by_cases hi : i < 6
  · rw [List.getElem?_append_left (by omega), List.getElem?_append_left (by omega)]
  · have hbeyond : ∀ padding : UInt16,
        (front ++ (Writer.u16 padding ++ tail))[i]? = tail[i - front.length - 2]? := by
      intro padding
      rw [List.getElem?_append_right (by omega), List.getElem?_append_right, Writer.length_u16]
      rw [Writer.length_u16]
      omega
    rw [hbeyond, hbeyond]

/-- **Icon files are read back.** A file of version one whose entries have at most thirty-one codes,
none of them zero, is read back as it was, if it is written in fewer than 2^32 bytes. What is
written of a file that was read is the file, but for the two bytes of padding. And no file is
indexed out of bounds. -/
theorem round_trip :
    (∀ file : BniFile, file.version = version →
      (∀ icon ∈ file.icons, icon.codes.length ≤ maxCodes ∧ ∀ code ∈ icon.codes, code.value ≠ 0) →
      (build file).length < 2 ^ 32 → parse (build file) = some (.ok file)) ∧
    (∀ bytes file, parse bytes = some (.ok file) → (build file).length = bytes.length ∧
      ∀ i, i ≠ 6 → i ≠ 7 → (build file)[i]? = bytes[i]?) ∧
    ∀ bytes, parse bytes ≠ none := by
  refine ⟨?_, ?_, parse_ne_none⟩
  · intro file hversion hicons hlen
    refine parse_layout ⟨hversion, hicons, ?_⟩ 0
    have hlayout := length_layout 0 file
    exact Nat.lt_of_le_of_lt (by omega) (hlayout ▸ hlen)
  · intro bytes file h
    obtain ⟨_, padding, rfl⟩ := parse_exact h
    refine ⟨(length_layout 0 file).trans (length_layout padding file).symm, ?_⟩
    intro i h₆ h₇
    exact getElem?_build padding file h₆ h₇

/-- Two icons of flags and one of two codes, over an image of six bytes. -/
def sample : BniFile where
  version := version
  icons := [⟨1, 14, 14, []⟩, ⟨2, 14, 14, []⟩,
    ⟨0, 14, 14, [.fromAscii '2' 'H' '3' 'W', .fromAscii '3' 'H' '3' 'W']⟩]
  image := [1, 2, 3, 4, 5, 6]

theorem round_trip_sample : parse (build sample) = some (.ok sample) :=
  round_trip.1 sample rfl (by decide) (by decide)

end CommandCenter.Formats.Bni
