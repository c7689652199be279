import CommandCenter.Formats.SaveRoundTrip

/-!
# Saves that were built

A save of `crates/d2-formats/src/d2s.rs` that was put together in memory, written by
`Save::to_bytes` and read by `Save::parse`. Its size and its checksum are written into its header,
so the file's own checksum is taken over a file that holds it.

* `checksum_patch`: the checksum is not taken over its own field.
* `slice_size`, `slice_checksum`: the two fields of a file that is written.
* `toBytes_of_stamped`: what was written once is written again as it is.
-/

namespace CommandCenter.Formats.D2s

open Rust Proto Library

/-! ## Bytes that are overwritten -/

section Patch

variable {out bytes : List UInt8} {start : Nat}

theorem patch_append (rest : List UInt8) (h : start + bytes.length ≤ out.length) :
    patch (out ++ rest) start bytes = patch out start bytes ++ rest := by
  rw [patch, patch, List.take_append_of_le_length (by omega),
    List.drop_append_of_le_length h, List.append_assoc _ _ rest]

/-- What is put is there. -/
theorem slice_patch {n : Nat} (hn : bytes.length = n) (h : start ≤ out.length) :
    ((patch out start bytes).drop start).take n = bytes := by
  have hlen : (out.take start).length = start := List.length_take_of_le h
  rw [patch, List.append_assoc, List.drop_left' hlen, List.take_left' hn]

theorem slice_patch_front {i n : Nat} (hin : i + n ≤ start) (h : start ≤ out.length) :
    ((patch out start bytes).drop i).take n = (out.drop i).take n := by
  have hlen : (out.take start).length = start := List.length_take_of_le h
  rw [patch, List.append_assoc, List.drop_append_of_le_length (by omega),
    List.take_append_of_le_length (by rw [List.length_drop]; omega), List.drop_take,
    List.take_take]
  congr 1
  omega

/-- To put what is there changes nothing. -/
theorem patch_self {n : Nat} (hn : bytes.length = n) (h : (out.drop start).take n = bytes) :
    patch out start bytes = out := by
  have hback := take_append_drop_add out start n
  rw [h] at hback
  rw [patch, List.append_assoc, hn, hback, List.take_append_drop]

end Patch

/-! ## Size and checksum -/

def u32At (b : List UInt8) (start : Nat) : UInt32 :=
  fromBeBytes (b.getD (start + 3) 0) (b.getD (start + 2) 0) (b.getD (start + 1) 0) (b.getD start 0)

theorem u32At_of_slice {b : List UInt8} {start : Nat} {v : UInt32}
    (h : (b.drop start).take 4 = Writer.u32 v) : u32At b start = v := by
  have hbyte (i : Nat) (hi : i < 4) : b.getD (start + i) 0 = (Writer.u32 v).getD i 0 := by
    rw [List.getD_eq_getElem?_getD, List.getD_eq_getElem?_getD, ← h, List.getElem?_take_of_lt hi,
      List.getElem?_drop]
  have hfirst : b.getD start 0 = (Writer.u32 v).getD 0 0 := hbyte 0 (by decide)
  rw [u32At, hbyte 3 (by decide), hbyte 2 (by decide), hbyte 1 (by decide), hfirst]
  exact fromBeBytes_toBeBytes v

/-- The bytes that are summed, with the field of the checksum as zeros. -/
def summed (data : List UInt8) : List UInt32 :=
  data.zipIdx.map fun b => if 0x0C ≤ b.2 ∧ b.2 < 0x10 then 0 else b.1.toUInt32

theorem checksum_eq (data : List UInt8) : checksum data =
    (summed data).foldl (fun (sum : UInt32) b => b + (sum >>> 31) + sum * 2) 0 := by
  rw [summed, List.foldl_map]
  rfl

theorem summed_congr {xs ys : List UInt8} (h : SameBut (fun i => 0x0C ≤ i ∧ i < 0x10) xs ys) :
    summed xs = summed ys := by
  apply List.ext_getElem?
  intro i
  rw [summed, summed, List.getElem?_map, List.getElem?_map, List.getElem?_zipIdx,
    List.getElem?_zipIdx, Nat.zero_add, Option.map_map, Option.map_map]
  by_cases hi : 0x0C ≤ i ∧ i < 0x10
  · have hzero : ((fun b : UInt8 × Nat => if 0x0C ≤ b.2 ∧ b.2 < 0x10 then (0 : UInt32)
        else b.1.toUInt32) ∘ fun b => (b, i)) = fun _ => 0 := funext fun _ => if_pos hi
    have hlen : i < xs.length ↔ i < ys.length := by rw [h.1]
    rw [hzero]
    by_cases hin : i < xs.length
    · rw [List.getElem?_eq_getElem hin, List.getElem?_eq_getElem (hlen.mp hin)]
      rfl
    · rw [List.getElem?_eq_none (Nat.not_lt.mp hin),
        List.getElem?_eq_none (Nat.not_lt.mp (mt hlen.mpr hin))]
  · rw [h.2 i hi]

/-- The checksum is not taken over its own field. -/
theorem checksum_patch {out : List UInt8} (h : 16 ≤ out.length) (v : UInt32) :
    checksum (patch out 0x0C (Writer.u32 v)) = checksum out := by
  have hlen : 0x0C + (Writer.u32 v).length ≤ out.length := h
  rw [checksum_eq, checksum_eq, summed_congr (sameBut_patch hlen fun i hlow hhigh => ⟨hlow, hhigh⟩)]

section Stamped

variable {save : Save}

theorem length_sizePatch (hbody : 16 ≤ save.body.length) (v : UInt32) :
    (patch save.body 8 (Writer.u32 v)).length = save.body.length :=
  length_patch (by rw [Writer.length_u32]; omega)

theorem length_toBytes (hbody : 16 ≤ save.body.length) :
    save.toBytes.length = save.body.length := by
  rw [Save.toBytes, length_patch (by rw [length_sizePatch hbody, Writer.length_u32]; omega),
    length_sizePatch hbody]

theorem slice_size (hbody : 16 ≤ save.body.length) :
    (save.toBytes.drop 8).take 4 = Writer.u32 (.ofNat save.toBytes.length) := by
  rw [length_toBytes hbody, Save.toBytes,
    slice_patch_front (by decide) (by rw [length_sizePatch hbody]; omega)]
  exact slice_patch (Writer.length_u32 _) (by omega)

theorem slice_checksum (hbody : 16 ≤ save.body.length) :
    (save.toBytes.drop 0x0C).take 4 = Writer.u32 (checksum save.toBytes) := by
  rw [Save.toBytes, checksum_patch (by rw [length_sizePatch hbody]; omega)]
  exact slice_patch (Writer.length_u32 _) (by rw [length_sizePatch hbody]; omega)

/-- What was written once is written again as it is. -/
theorem toBytes_of_stamped (hbody : 16 ≤ save.body.length) {back : Save}
    (h : back.body = save.toBytes) :
    back.toBytes = save.toBytes := by
  rw [Save.toBytes, h]
  rw [patch_self (Writer.length_u32 _) (slice_size hbody),
    patch_self (Writer.length_u32 _) (slice_checksum hbody)]

end Stamped

/-! ## The file of a save -/

/-- A save with a marked header and sections of their sizes. -/
structure Save.Built (save : Save) : Prop where
  marks : save.header.toList.take 8 = Writer.u32 signature ++ Writer.u32 version
  quests : save.quests.length = 294
  /-- `[[u8; 24]; 3]` in the source. -/
  waypoints : save.waypoints.map List.length = [24, 24, 24]
  npcs : save.npcs.length = 49
  stats : ∀ s ∈ save.stats, Fits s
  /-- `[u8; 30]` in the source. -/
  skills : save.skills.length = 30
  items : Text.asBytes "JM".toList <+: save.items

/-- The parts of the file of a save with this header. -/
def Save.layout (save : Save) (header : List UInt8) : Layout where
  header
  quests := save.quests
  waypointHead := Writer.u32 1 ++ Writer.u16 0x50
  waypoints := save.waypoints.flatten
  waypointTail := save.waypointTail
  npcs := save.npcs
  attributes := (writeStats save.stats).bytes
  skills := save.skills
  items := save.items

/-- The header with the size and the checksum of the file. -/
def Save.stamped (save : Save) : List UInt8 :=
  let header := patch save.header.toList 8 (Writer.u32 (.ofNat save.body.length))
  patch header 0x0C
    (Writer.u32 (checksum (patch save.body 8 (Writer.u32 (.ofNat save.body.length)))))

theorem length_header (save : Save) : save.header.toList.length = 335 := Vector.length_toList

theorem Layout.patch_bytes (l : Layout) {start : Nat} {bytes : List UInt8}
    (h : start + bytes.length ≤ l.header.length) :
    patch l.bytes start bytes = Layout.bytes { l with header := patch l.header start bytes } := by
  simp only [Layout.bytes, List.append_assoc]
  exact patch_append _ h

section Built

variable {save : Save}

theorem length_sizedHeader (save : Save) (v : UInt32) :
    (patch save.header.toList 8 (Writer.u32 v)).length = 335 := by
  have hheader := length_header save
  rw [length_patch (by rw [hheader, Writer.length_u32]; decide), hheader]

theorem length_stamped (save : Save) : save.stamped.length = 335 := by
  have hsize := length_sizedHeader save
  rw [Save.stamped, length_patch (by rw [hsize, Writer.length_u32]; decide), hsize]

theorem stamped_sameBut (save : Save) :
    SameBut SizeOrChecksum save.stamped save.header.toList := by
  have hheader := length_header save
  have hsize := length_sizedHeader save
  refine (sameBut_patch ?_ ?_).trans (sameBut_patch ?_ ?_)
  · rw [hsize, Writer.length_u32]
    decide
  · rw [Writer.length_u32]
    exact fun i hlow hhigh => ⟨by omega, by omega⟩
  · rw [hheader, Writer.length_u32]
    decide
  · rw [Writer.length_u32]
    exact fun i hlow hhigh => ⟨by omega, by omega⟩

theorem Save.Built.lengths (h : save.Built) {header : List UInt8} (hlen : header.length = 335) :
    (save.layout header).Lengths where
  header := hlen
  quests := h.quests
  waypointHead := rfl
  waypoints := by
    show save.waypoints.flatten.length = 72
    rw [List.length_flatten, h.waypoints]
    rfl
  npcs := h.npcs
  skills := h.skills

theorem Save.Built.body_eq (h : save.Built) :
    save.body = (save.layout save.header.toList).bytes :=
  body_of_carried (h.lengths (length_header save)) ⟨rfl, rfl, rfl, rfl, rfl, rfl, rfl⟩

theorem Save.Built.body_long (h : save.Built) : 799 ≤ save.body.length := by
  rw [h.body_eq, Layout.length_bytes (h.lengths (length_header save))]
  omega

/-- The size and the checksum are written into the header. -/
theorem Save.Built.toBytes_eq (h : save.Built) :
    save.toBytes = (save.layout save.stamped).bytes := by
  have hheader := length_header save
  have hsize := length_sizedHeader save
  have hfirst (v : UInt32) : patch save.body 8 (Writer.u32 v) =
      (save.layout (patch save.header.toList 8 (Writer.u32 v))).bytes := by
    rw [h.body_eq]
    refine Layout.patch_bytes _ ?_
    show _ ≤ save.header.toList.length
    rw [hheader, Writer.length_u32]
    decide
  rw [Save.toBytes, hfirst, Layout.patch_bytes]
  · rw [Save.stamped, hfirst]
    rfl
  · show _ ≤ (patch save.header.toList 8 _).length
    rw [hsize, Writer.length_u32]
    decide

theorem Save.Built.sized (h : save.Built) : (save.layout save.stamped).Sized where
  toLengths := h.lengths (length_stamped save)
  marks := by
    have hsame := stamped_sameBut save
    rw [← h.marks]
    apply List.ext_getElem?
    intro i
    show (save.stamped.take 8)[i]? = _
    by_cases hi : i < 8
    · rw [List.getElem?_take_of_lt hi, List.getElem?_take_of_lt hi]
      exact hsame.2 i fun hfield => absurd hfield.1 (by omega)
    · rw [List.getElem?_eq_none (by rw [List.length_take]; omega),
        List.getElem?_eq_none (by rw [List.length_take]; omega)]
  items := h.items

theorem waypoints_of_parse {data : List UInt8} {back : Save} (h : Save.parse data = .ok back) :
    back.waypoints.map List.length = [24, 24, 24] := by
  unfold Save.parse at h
  split at h
  · cases h
  split at h
  · cases h
  simp only [bind_eq_ok, guard_eq_ok, sectionAt_eq_ok] at h
  obtain ⟨quests, -, ws, ⟨hdata, hws, -⟩, npcs, -, -, skills, -, -, hback⟩ := h
  obtain rfl := Except.ok.inj hback
  have hlen : ws.length = 81 := by
    rw [hws, List.length_take, List.length_drop]
    change 633 + 81 ≤ data.length at hdata
    show min 81 (data.length - 633) = 81
    omega
  have hblock (i : Nat) (hi : i < 3) : ((ws.drop (8 + i * 24)).take 24).length = 24 := by
    rw [List.length_take, List.length_drop, hlen]
    omega
  show [_, _, _] = _
  rw [hblock 0 (by decide), hblock 1 (by decide), hblock 2 (by decide)]

theorem stats_of_parse {data : List UInt8} {back : Save} (h : Save.parse data = .ok back)
    {stats : List (UInt16 × UInt32)} (hfits : ∀ s ∈ stats, Fits s)
    (hattributes : pack (attributeBits stats) <+: data.drop 767) : back.stats = stats := by
  obtain ⟨-, -, -, -, -, hstats⟩ := layout_of_parse h
  rw [hstats]
  exact (readStats_prefixed hfits hattributes).1

/-- **A save that was built reads back** as it was but for the size and the checksum in its header,
which are those of its file, and is written as it was. -/
theorem built_reads_back (save : Save) (h : save.Built) :
    ∃ back, Save.parse save.toBytes = .ok back ∧ back = { save with header := back.header } ∧
      SameBut SizeOrChecksum back.header.toList save.header.toList ∧
      back.toBytes = save.toBytes ∧ u32At save.toBytes 8 = .ofNat save.toBytes.length ∧
      u32At save.toBytes 0x0C = checksum save.toBytes := by
  have hbody : 16 ≤ save.body.length := Nat.le_trans (by decide) h.body_long
  have hattributes : (writeStats save.stats).bytes = pack (attributeBits save.stats) := by
    rw [writeStats_eq]
    rfl
  have hprefix : pack (attributeBits save.stats) <+:
      (save.layout save.stamped).bytes.drop 767 := by
    rw [Layout.drop_bytes h.sized.toLengths, ← hattributes]
    exact List.prefix_append _ _
  have hlen : (save.layout save.stamped).attributes.length =
      attributesLen (save.layout save.stamped).bytes := by
    rw [(readStats_prefixed h.stats hprefix).2, ← hattributes]
    rfl
  obtain ⟨back, hparse, hcarried⟩ := parse_of_layout h.sized hlen
  have hstats := stats_of_parse hparse h.stats hprefix
  have hblocks : back.waypoints = save.waypoints := by
    rw [List.eq_iff_flatten_eq, hcarried.waypoints, waypoints_of_parse hparse, h.waypoints]
    exact ⟨rfl, rfl⟩
  have hback : back = { save with header := back.header } := by
    obtain ⟨header, quests, waypoints, tail, npcs, stats, skills, items⟩ := back
    obtain ⟨-, rfl, -, rfl, rfl, rfl, rfl⟩ := hcarried
    obtain rfl : stats = save.stats := hstats
    obtain rfl : waypoints = save.waypoints := hblocks
    rfl
  refine ⟨back, by rw [h.toBytes_eq]; exact hparse, hback, ?_, ?_,
    u32At_of_slice (slice_size hbody), u32At_of_slice (slice_checksum hbody)⟩
  · rw [hcarried.header]
    exact stamped_sameBut save
  · apply toBytes_of_stamped hbody
    have hbuilt : back.Built := by
      rw [hback]
      refine { h with marks := ?_ }
      show back.header.toList.take 8 = _
      rw [hcarried.header]
      exact h.sized.marks
    rw [hbuilt.body_eq, h.toBytes_eq, hcarried.header, hback]
    rfl

end Built

/-! ## A save with nothing in it -/

def markedHeader : List UInt8 :=
  Writer.u32 signature ++ Writer.u32 version ++ List.replicate 327 0

/-- A save with two stats, the one twice, and these items. -/
def plainSave (items : List UInt8) : Save where
  header := ⟨markedHeader.toArray, by
    rw [List.size_toArray, markedHeader, List.length_append, List.length_replicate]
    rfl⟩
  quests := List.replicate 294 0
  waypoints := List.replicate 3 (List.replicate 24 0)
  waypointTail := 1
  npcs := List.replicate 49 0
  stats := [(12, 5), (0, 30), (12, 1)]
  skills := List.replicate 30 0
  items := Text.asBytes "JM".toList ++ items

theorem built_plainSave (items : List UInt8) : (plainSave items).Built where
  marks := List.take_left' rfl
  quests := List.length_replicate
  waypoints := rfl
  npcs := List.length_replicate
  stats := List.forall_mem_cons.mpr ⟨⟨7, rfl, by decide⟩, List.forall_mem_cons.mpr
    ⟨⟨10, rfl, by decide⟩, List.forall_mem_singleton.mpr ⟨7, rfl, by decide⟩⟩⟩
  skills := List.length_replicate
  items := List.prefix_append _ _

theorem plainSave_reads_back : ∃ back, Save.parse (plainSave []).toBytes = .ok back ∧
    back = { plainSave [] with header := back.header } ∧
    SameBut SizeOrChecksum back.header.toList (plainSave []).header.toList ∧
    back.toBytes = (plainSave []).toBytes ∧
    u32At (plainSave []).toBytes 8 = .ofNat (plainSave []).toBytes.length ∧
    u32At (plainSave []).toBytes 0x0C = checksum (plainSave []).toBytes :=
  built_reads_back _ (built_plainSave [])

theorem size_ne_length {items : List UInt8} (hlong : 2 ^ 32 ≤ items.length) :
    (u32At (plainSave items).toBytes 8).toNat ≠ (plainSave items).toBytes.length := by
  have hbuilt := built_plainSave items
  have hlen : 2 ^ 32 ≤ (plainSave items).toBytes.length := by
    rw [length_toBytes (Nat.le_trans (by decide) hbuilt.body_long), hbuilt.body_eq,
      Layout.length_bytes (hbuilt.lengths (length_header _))]
    show 2 ^ 32 ≤ 799 + _ + (Text.asBytes "JM".toList ++ items).length
    rw [List.length_append]
    omega
  have hfits := (u32At (plainSave items).toBytes 8).toNat_lt
  omega

/-- The size of a file of 4 GiB does not fit its field. -/
theorem size_overflows : (plainSave (List.replicate (2 ^ 32) 0)).Built ∧
    (u32At (plainSave (List.replicate (2 ^ 32) 0)).toBytes 8).toNat ≠
      (plainSave (List.replicate (2 ^ 32) 0)).toBytes.length :=
  ⟨built_plainSave _, size_ne_length (Nat.le_of_eq List.length_replicate.symm)⟩

end CommandCenter.Formats.D2s
