import CommandCenter.Formats.D2s
import CommandCenter.Library.Bits

/-!
# Saves that come back

What `Save::parse` and `Save::to_bytes` of `crates/d2-formats/src/d2s.rs` do to a file between
them. Most of it is carried; the head of the waypoint section is skipped and written anew, and the
attributes are read as bits and written as bits.

* `BitReader.read_append`, `BitWriter.write_of`: the reader and the writer on strings of bits.
* `readStats_append`: the attributes that are written are read back.
* `layout_of_parse`: the sections of a file that is accepted.
* `unchanged_iff`: the files that come back as they are.
-/

namespace CommandCenter.Formats.D2s

open Rust Proto Library

/-! ## Reading and writing bits -/

namespace BitReader

def rest (r : BitReader) : List Bool := (unpack r.data).drop r.bit

theorem testBit_eq (byte : UInt8) {i : Nat} (hi : i < 8) :
    ((byte >>> .ofNat i) &&& 1 != 0) = byte.toNat.testBit i := by
  have hshift : (byte >>> .ofNat i).toNat = byte.toNat >>> i := by
    have hmod : i % 2 ^ 8 % 8 = i := by omega
    rw [UInt8.toNat_shiftRight, UInt8.toNat_ofNat', hmod]
  rw [Nat.testBit, ← hshift, Bool.eq_iff_iff, bne_iff_ne, bne_iff_ne, Ne, Ne, ← UInt8.toNat_inj,
    UInt8.toNat_and, Nat.and_comm]
  rfl

theorem next_eq (r : BitReader) :
    r.next = r.rest.head?.map fun bit => (bit, { r with bit := r.bit + 1 }) := by
  rw [rest, List.head?_drop, getElem?_unpack, next, Option.map_map]
  refine congrArg (fun f => Option.map f _) (funext fun byte => ?_)
  show (_, _) = (_, _)
  rw [testBit_eq byte (Nat.mod_lt _ (by omega))]

theorem bitOf_toNat {i : Nat} (hi : i < 32) : (bitOf i).toNat = 2 ^ i := by
  have hmod : i % 2 ^ 32 % 32 = i := by omega
  have hpow : 2 ^ i ≤ 2 ^ 31 := Nat.pow_le_pow_right (by omega) (by omega)
  rw [bitOf, UInt32.toNat_shiftLeft, UInt32.toNat_ofNat', hmod]
  show 1 <<< i % _ = _
  rw [Nat.one_shiftLeft]
  exact Nat.mod_eq_of_lt (by omega)

theorem setBit_toNat {i : Nat} {value : UInt32} (hvalue : value.toNat < 2 ^ i) (hi : i < 32)
    (bit : Bool) :
    (if bit then value ||| bitOf i else value).toNat = value.toNat + 2 ^ i * bit.toNat := by
  cases bit with
  | false => simp
  | true =>
    have hor := Nat.two_pow_add_eq_or_of_lt hvalue 1
    rw [Nat.mul_one] at hor
    rw [if_pos rfl, UInt32.toNat_or, bitOf_toNat hi, Nat.or_comm, ← hor, Bool.toNat_true,
      Nat.mul_one, Nat.add_comm]

theorem setBit_lt {i : Nat} {value : UInt32} (hvalue : value.toNat < 2 ^ i) (hi : i < 32)
    (bit : Bool) : (if bit then value ||| bitOf i else value).toNat < 2 ^ (i + 1) := by
  have hbit := Nat.mul_le_mul_left (2 ^ i) (Bool.toNat_le bit)
  rw [setBit_toNat hvalue hi, Nat.pow_succ]
  omega

theorem readFrom_lt {i left : Nat} {value v : UInt32} {r r' : BitReader}
    (h : readFrom i value left r = (some v, r')) (hvalue : value.toNat < 2 ^ i)
    (hi : i + left ≤ 32) : v.toNat < 2 ^ (i + left) := by
  induction left generalizing i value r with
  | zero =>
    obtain ⟨hv, _⟩ := Prod.mk.inj h
    rw [← Option.some.inj hv]
    exact hvalue
  | succ left ih =>
    rw [readFrom] at h
    split at h
    · cases h
    · have hlt := ih h (setBit_lt hvalue (by omega) _) (by omega)
      rwa [Nat.add_right_comm, Nat.add_assoc] at hlt

theorem read_lt {width : Nat} {v : UInt32} {r r' : BitReader} (h : r.read width = (some v, r'))
    (hwidth : width ≤ 32) : v.toNat < 2 ^ width := by
  have hlt := readFrom_lt h (by decide) (by omega)
  rwa [Nat.zero_add] at hlt

/-- As many bits as there are before `rest`. -/
theorem readFrom_append {i : Nat} {value : UInt32} {bits rest : List Bool} {r : BitReader}
    (hrest : r.rest = bits ++ rest) (hvalue : value.toNat < 2 ^ i) (hi : i + bits.length ≤ 32) :
    ∃ v : UInt32, v.toNat = value.toNat + 2 ^ i * ofBits bits ∧
      readFrom i value bits.length r = (some v, { r with bit := r.bit + bits.length }) := by
  induction bits generalizing i value r with
  | nil => exact ⟨value, by simp [ofBits], rfl⟩
  | cons bit bits ih =>
    have hnext : r.next = some (bit, { r with bit := r.bit + 1 }) := by
      rw [next_eq, hrest]
      rfl
    have hrest' : BitReader.rest { r with bit := r.bit + 1 } = bits ++ rest := by
      have hdrop : (unpack r.data).drop (r.bit + 1) = r.rest.drop 1 := by
        rw [BitReader.rest, List.drop_drop]
      rw [BitReader.rest, hdrop, hrest]
      rfl
    rw [List.length_cons] at hi
    obtain ⟨v, hv, hread⟩ := ih hrest' (i := i + 1) (setBit_lt hvalue (by omega) bit) (by omega)
    refine ⟨v, ?_, ?_⟩
    · rw [hv, setBit_toNat hvalue (by omega), ofBits, Nat.pow_succ]
      ring
    · rw [List.length_cons, readFrom, hnext]
      show readFrom _ _ _ _ = _
      rw [hread, Nat.add_right_comm, Nat.add_assoc]

theorem read_append {bits rest : List Bool} {r : BitReader} (hrest : r.rest = bits ++ rest)
    (hlength : bits.length ≤ 32) : ∃ v : UInt32, v.toNat = ofBits bits ∧
      r.read bits.length = (some v, { r with bit := r.bit + bits.length }) := by
  have hzero : UInt32.toNat 0 < 2 ^ 0 := by decide
  obtain ⟨v, hv, hread⟩ := readFrom_append hrest hzero (by omega)
  refine ⟨v, ?_, hread⟩
  rw [hv]
  simp

end BitReader

namespace BitWriter

/-- The writer of these bits. -/
def of (bits : List Bool) : BitWriter := ⟨pack bits, bits.length⟩

theorem push_of (bits : List Bool) (bit : Bool) : (of bits).push bit = of (bits ++ [bit]) := by
  have hlength : bits.length + 1 = (bits ++ [bit]).length := by simp
  rw [of, push, of, ← hlength]
  by_cases hfull : bits.length % 8 = 0
  · rw [if_pos hfull, hfull, pack_concat_full hfull]
    cases bit with
    | false => rfl
    | true =>
      rw [if_pos rfl, modify_last]
      rfl
  · rw [if_neg hfull, pack_concat hfull]

theorem testBit_eq (value : UInt32) {i : Nat} (hi : i < 32) :
    ((value >>> .ofNat i) &&& 1 != 0) = value.toNat.testBit i := by
  have hshift : (value >>> .ofNat i).toNat = value.toNat >>> i := by
    have hmod : i % 2 ^ 32 % 32 = i := by omega
    rw [UInt32.toNat_shiftRight, UInt32.toNat_ofNat', hmod]
  rw [Nat.testBit, ← hshift, Bool.eq_iff_iff, bne_iff_ne, bne_iff_ne, Ne, Ne, ← UInt32.toNat_inj,
    UInt32.toNat_and, Nat.and_comm]
  rfl

theorem write_of (bits : List Bool) (value : UInt32) {width : Nat} (hwidth : width ≤ 32) :
    (of bits).write value width = of (bits ++ bitsOf width value.toNat) := by
  induction width with
  | zero => rw [write, List.range_zero, List.foldl_nil, bitsOf, List.range_zero, List.map_nil,
      List.append_nil]
  | succ width ih =>
    have hwrite : (of bits).write value (width + 1) =
        ((of bits).write value width).push ((value >>> .ofNat width) &&& 1 != 0) := by
      rw [write, List.range_succ, List.foldl_append]
      rfl
    rw [hwrite, ih (by omega), push_of, testBit_eq value (by omega), List.append_assoc, bitsOf,
      bitsOf, List.range_succ, List.map_append, List.map_singleton]

end BitWriter

/-! ## Attributes -/

/-- The stat is one of those saved, and its value fits. -/
def Fits (stat : UInt16 × UInt32) : Prop :=
  ∃ width, statBits[stat.1.toNat]? = some width ∧ stat.2.toNat < 2 ^ width

def entryBits (stat : UInt16 × UInt32) : List Bool :=
  match statBits[stat.1.toNat]? with
  | some width => bitsOf 9 stat.1.toNat ++ bitsOf width stat.2.toNat
  | none => []

def attributeBits (stats : List (UInt16 × UInt32)) : List Bool :=
  stats.flatMap entryBits ++ bitsOf 9 0x1FF

theorem statBits_le {i width : Nat} (h : statBits[i]? = some width) : width ≤ 32 := by
  have hall : ∀ width ∈ statBits, width ≤ 32 := by decide
  exact hall width (List.mem_of_getElem? h)

theorem writeStats_eq (stats : List (UInt16 × UInt32)) :
    writeStats stats = .of (attributeBits stats) := by
  have hentries (bits : List Bool) : stats.foldl (fun (w : BitWriter) s =>
      match statBits[s.1.toNat]? with
      | some width => (w.write s.1.toUInt32 9).write s.2 width
      | none => w) (.of bits) = .of (bits ++ stats.flatMap entryBits) := by
    induction stats generalizing bits with
    | nil => rw [List.foldl_nil, List.flatMap_nil, List.append_nil]
    | cons stat stats ih =>
      rw [List.foldl_cons, List.flatMap_cons, entryBits]
      cases hwidth : statBits[stat.1.toNat]? with
      | none => exact ih bits
      | some width =>
        dsimp only
        rw [BitWriter.write_of bits _ (by decide), BitWriter.write_of _ _ (statBits_le hwidth), ih,
          UInt16.toNat_toUInt32, List.append_assoc, List.append_assoc, List.append_assoc]
  refine (congrArg (fun w : BitWriter => w.write statEnd 9) (hentries [])).trans ?_
  rw [List.nil_append]
  exact BitWriter.write_of _ _ (by decide)

theorem BitReader.read_bitsOf {width value : Nat} {rest : List Bool} {r : BitReader}
    (hrest : r.rest = bitsOf width value ++ rest) (hvalue : value < 2 ^ width)
    (hwidth : width ≤ 32) : ∃ v : UInt32, v.toNat = value ∧
      r.read width = (some v, ⟨r.data, r.bit + width⟩) ∧
      BitReader.rest ⟨r.data, r.bit + width⟩ = rest := by
  obtain ⟨v, hv, hread⟩ := read_append hrest (by rwa [length_bitsOf])
  rw [length_bitsOf] at hread
  refine ⟨v, ?_, hread, ?_⟩
  · rw [hv, ofBits_bitsOf, Nat.mod_eq_of_lt hvalue]
  · have hdrop : (unpack r.data).drop (r.bit + width) = r.rest.drop width := by
      rw [BitReader.rest, List.drop_drop]
    rw [BitReader.rest, hdrop, hrest, List.drop_left' (length_bitsOf _ _)]

theorem fits_id_lt {stat : UInt16 × UInt32} (h : Fits stat) : stat.1.toNat < 16 := by
  obtain ⟨width, hwidth, _⟩ := h
  exact (List.getElem?_eq_some_iff.mp hwidth).1

/-- The attributes that are written are read back, to the end mark. -/
theorem readStats_append {stats : List (UInt16 × UInt32)} (hfits : ∀ s ∈ stats, Fits s)
    {rest : List Bool} {r : BitReader} (hrest : r.rest = attributeBits stats ++ rest) :
    readStats r = (stats, ⟨r.data, r.bit + (attributeBits stats).length⟩) := by
  induction stats generalizing r with
  | nil =>
    obtain ⟨id, hid, hread, _⟩ := BitReader.read_bitsOf (r := r) hrest (by decide) (by decide)
    obtain rfl : id = statEnd := UInt32.toNat_inj.mp hid
    rw [readStats, hread]
    rfl
  | cons stat stats ih =>
    obtain ⟨width, hwidth, hvalue⟩ := hfits stat List.mem_cons_self
    have hsmall := fits_id_lt (hfits stat List.mem_cons_self)
    have hbits : attributeBits (stat :: stats) = bitsOf 9 stat.1.toNat ++
        (bitsOf width stat.2.toNat ++ attributeBits stats) := by
      rw [attributeBits, List.flatMap_cons, entryBits, hwidth]
      simp only [List.append_assoc, attributeBits]
    rw [hbits, List.append_assoc, List.append_assoc] at hrest
    obtain ⟨id, hid, hreadId, hrest⟩ := BitReader.read_bitsOf hrest (by omega) (by decide)
    obtain ⟨value, hv, hread, hrest⟩ := BitReader.read_bitsOf hrest hvalue (statBits_le hwidth)
    have hne : id ≠ statEnd := by
      rintro rfl
      have hend : statEnd.toNat = 511 := rfl
      omega
    obtain rfl : value = stat.2 := UInt32.toNat_inj.mp hv
    have hstat : id.toUInt16 = stat.1 := by
      apply UInt16.toNat_inj.mp
      rw [UInt32.toNat_toUInt16, hid]
      omega
    rw [readStats, hreadId]
    dsimp only
    rw [if_neg hne]
    split
    · rename_i hnone
      rw [hid, hwidth] at hnone
      cases hnone
    · rename_i width' hsome
      rw [hid, hwidth] at hsome
      obtain rfl := Option.some.inj hsome
      split
      · rename_i hfail
        rw [hread] at hfail
        cases hfail
      · rename_i value' bits hok
        rw [hread] at hok
        obtain ⟨hvalue', rfl⟩ := Prod.mk.inj hok
        obtain rfl := Option.some.inj hvalue'
        rw [ih (fun s hs => hfits s (List.mem_cons_of_mem _ hs)) hrest, hstat, hbits]
        simp only [List.length_append, length_bitsOf, Nat.add_assoc]

theorem readStats_cases (r : BitReader) : (readStats r).1 = [] ∨
    ∃ id width value r' r'', r.read 9 = (some id, r') ∧ statBits[id.toNat]? = some width ∧
      r'.read width = (some value, r'') ∧
      (readStats r).1 = (id.toUInt16, value) :: (readStats r'').1 := by
  rw [readStats]
  split
  · exact Or.inl rfl
  · rename_i id r' hid
    split
    · exact Or.inl rfl
    · split
      · exact Or.inl rfl
      · rename_i width hwidth
        split
        · exact Or.inl rfl
        · rename_i value r'' hvalue
          exact Or.inr ⟨id, width, value, r', r'', hid, hwidth, hvalue, rfl⟩

theorem fits_of_readStats (r : BitReader) : ∀ s ∈ (readStats r).1, Fits s := by
  generalize hleft : 8 * r.data.length - r.bit = left
  induction left using Nat.strongRecOn generalizing r with
  | ind left ih =>
    rcases readStats_cases r with hover | ⟨id, width, value, r', r'', hid, hwidth, hvalue, hstats⟩
    · rw [hover]
      exact nofun
    · have hsmall := (List.getElem?_eq_some_iff.mp hwidth).1
      have hstat : id.toUInt16.toNat = id.toNat := by
        rw [UInt32.toNat_toUInt16]
        exact Nat.mod_eq_of_lt (Nat.lt_trans hsmall (by decide))
      obtain ⟨hdata, hbit, _⟩ := BitReader.read_bit hid (by decide)
      obtain ⟨hdata', hbit', hle⟩ := BitReader.read_bit hvalue (statBits_pos hwidth)
      rw [hstats]
      rintro s hs
      rcases List.mem_cons.mp hs with rfl | hs
      · exact ⟨width, by rw [hstat, hwidth], BitReader.read_lt hvalue (statBits_le hwidth)⟩
      · refine ih _ ?_ r'' rfl s hs
        rw [hdata', hdata] at hle ⊢
        omega

/-! ## Sections -/

theorem bind_eq_ok {α β : Type} {x : Except Error α} {f : α → Except Error β} {b : β} :
    (x >>= f) = .ok b ↔ ∃ a, x = .ok a ∧ f a = .ok b := by
  cases x with
  | error e => simp [bind, Except.bind]
  | ok a => simp [bind, Except.bind]

theorem guard_eq_ok {α : Type} {refused : Prop} [Decidable refused] {e : Error}
    {f : PUnit → Except Error α} {rest : Except Error α} {b : α} :
    (if refused then (.error e >>= f) else rest) = .ok b ↔ ¬ refused ∧ rest = .ok b := by
  split
  · rename_i hrefused
    exact ⟨fun h => (by cases h), fun h => absurd hrefused h.1⟩
  · rename_i hpassed
    exact ⟨fun h => ⟨hpassed, h⟩, fun h => h.2⟩

theorem sectionAt_eq_ok {data bytes : List UInt8} {start len : Nat} {marker : Text} :
    sectionAt data start marker len = .ok bytes ↔
      start + len ≤ data.length ∧ bytes = (data.drop start).take len ∧
        marker.asBytes <+: bytes := by
  unfold sectionAt
  split
  · rename_i hshort
    exact ⟨fun h => (by cases h), fun h => absurd h.1 (Nat.not_le.mpr hshort)⟩
  · rename_i hlong
    dsimp only
    split
    · rename_i hmarker
      have hmarker := List.isPrefixOf_iff_prefix.mp hmarker
      constructor
      · intro h
        obtain rfl := Except.ok.inj h
        exact ⟨Nat.not_lt.mp hlong, rfl, hmarker⟩
      · rintro ⟨_, rfl, _⟩
        rfl
    · rename_i hmarker
      constructor
      · intro h
        cases h
      · rintro ⟨_, rfl, hprefix⟩
        exact absurd (List.isPrefixOf_iff_prefix.mpr hprefix) hmarker

/-- How many bytes the attributes of a file take. -/
def attributesLen (data : List UInt8) : Nat := ((readStats ⟨data.drop 767, 0⟩).2.bit + 7) / 8

structure Layout where
  header : List UInt8
  quests : List UInt8
  /-- Behind the marker of the waypoints, and not read. -/
  waypointHead : List UInt8
  waypoints : List UInt8
  waypointTail : UInt8
  npcs : List UInt8
  attributes : List UInt8
  skills : List UInt8
  items : List UInt8

namespace Layout

def waypointSection (l : Layout) : List UInt8 :=
  Text.asBytes "WS".toList ++ l.waypointHead ++ l.waypoints ++ [l.waypointTail]

def bytes (l : Layout) : List UInt8 :=
  l.header ++ (Text.asBytes "Woo!".toList ++ l.quests) ++ l.waypointSection ++
    (Text.asBytes "w4".toList ++ l.npcs) ++ Text.asBytes "gf".toList ++ l.attributes ++
    (Text.asBytes "if".toList ++ l.skills) ++ l.items

/-- The parts have their lengths. -/
structure Lengths (l : Layout) : Prop where
  header : l.header.length = 335
  quests : l.quests.length = 294
  waypointHead : l.waypointHead.length = 6
  waypoints : l.waypoints.length = 72
  npcs : l.npcs.length = 49
  skills : l.skills.length = 30

/-- The parts have their lengths and the file its marks. -/
structure Sized (l : Layout) : Prop extends Lengths l where
  marks : l.header.take 8 = Writer.u32 signature ++ Writer.u32 version
  items : Text.asBytes "JM".toList <+: l.items

structure Carried (l : Layout) (save : Save) : Prop where
  header : save.header.toList = l.header
  quests : save.quests = l.quests
  waypoints : save.waypoints.flatten = l.waypoints
  waypointTail : save.waypointTail = l.waypointTail
  npcs : save.npcs = l.npcs
  skills : save.skills = l.skills
  items : save.items = l.items

end Layout

theorem take_append_drop_add (data : List UInt8) (start len : Nat) :
    (data.drop start).take len ++ data.drop (start + len) = data.drop start := by
  rw [← List.drop_drop, List.take_append_drop]

theorem waypoints_flatten (ws : List UInt8) :
    ((List.range 3).map fun i => (ws.drop (8 + i * 24)).take 24).flatten = (ws.drop 8).take 72 := by
  have htake : (ws.drop 8).take 72 =
      (ws.drop 8).take 24 ++ ((ws.drop 32).take 24 ++ (ws.drop 56).take 24) := by
    have hfirst : (ws.drop 8).take (24 + 48) = _ := List.take_add
    have hsecond : (ws.drop 32).take (24 + 24) = _ := List.take_add
    rw [List.drop_drop] at hfirst hsecond
    rw [hfirst, hsecond]
  rw [htake]
  show _ ++ (_ ++ (_ ++ [])) = _
  rw [List.append_nil]

theorem marker_append {marker : Text} {bytes : List UInt8} {len : Nat}
    (h : marker.asBytes <+: bytes) (hlen : marker.asBytes.length = len) :
    marker.asBytes ++ bytes.drop len = bytes := by
  rw [← hlen]
  exact (List.prefix_iff_eq_append.mp h)

/-- The parts of a file that is accepted. -/
theorem layout_of_parse {data : List UInt8} {save : Save} (h : Save.parse data = .ok save) :
    ∃ l : Layout, l.Sized ∧ l.bytes = data ∧ l.attributes.length = attributesLen data ∧
      l.Carried save ∧ save.stats = (readStats ⟨data.drop 767, 0⟩).1 := by
  unfold Save.parse at h
  split at h
  · cases h
  rename_i hlength
  split at h
  · cases h
  rename_i hmarks
  simp only [bind_eq_ok, guard_eq_ok, sectionAt_eq_ok] at h
  obtain ⟨quests, ⟨_, rfl, hquests⟩, ws, ⟨hwsLen, hws, hwsMark⟩, npcs, ⟨_, rfl, hnpcs⟩, hgf, skills,
    ⟨hskillLen, rfl, hskills⟩, hitems, hsave⟩ := h
  obtain rfl := Except.ok.inj hsave
  have hdata : 767 + attributesLen data + 32 ≤ data.length := hskillLen
  have hquests : Text.asBytes "Woo!".toList ++ ((data.drop 335).take 298).drop 4 =
    (data.drop 335).take 298 := marker_append hquests (show _ = 4 from rfl)
  have hwsMark : Text.asBytes "WS".toList ++ ws.drop 2 = ws :=
    marker_append hwsMark (show _ = 2 from rfl)
  have hws : ws = (data.drop 633).take 81 := hws
  have hnpcs : Text.asBytes "w4".toList ++ ((data.drop 714).take 51).drop 2 =
    (data.drop 714).take 51 := marker_append hnpcs (show _ = 2 from rfl)
  have hgf : Text.asBytes "gf".toList = (data.drop 765).take 2 := (not_not.mp hgf).symm
  have hskills : Text.asBytes "if".toList ++
      ((data.drop (767 + attributesLen data)).take 32).drop 2 =
    (data.drop (767 + attributesLen data)).take 32 := marker_append hskills (show _ = 2 from rfl)
  have hitems : Text.asBytes "JM".toList <+: data.drop (767 + attributesLen data + 32) :=
    List.isPrefixOf_iff_prefix.mp
      (Bool.of_not_eq_false fun hfalse => hitems (Bool.not_eq_true' _ ▸ hfalse))
  have hwsLength : ws.length = 81 := by
    rw [hws, List.length_take, List.length_drop]
    omega
  have hwsSection : Text.asBytes "WS".toList ++ (ws.drop 2).take 6 ++ (ws.drop 8).take 72 ++
      [ws.getD 80 0] = ws := by
    have hlast : ws.drop 80 = [ws.getD 80 0] := by
      rw [List.drop_eq_getElem_cons (by omega), List.drop_of_length_le (by omega),
        ← List.getElem_eq_getD]
    have hmiddle := take_append_drop_add ws 8 72
    have hhead := take_append_drop_add ws 2 6
    rw [← hlast, List.append_assoc, List.append_assoc, hmiddle, hhead, hwsMark]
  refine ⟨⟨data.take 335, ((data.drop 335).take 298).drop 4, (ws.drop 2).take 6,
    (ws.drop 8).take 72, ws.getD 80 0, ((data.drop 714).take 51).drop 2,
    (data.drop 767).take (attributesLen data),
    ((data.drop (767 + attributesLen data)).take 32).drop 2,
    data.drop (767 + attributesLen data + 32)⟩, ?_, ?_, ?_, ?_, rfl⟩
  · refine ⟨⟨?_, ?_, ?_, ?_, ?_, ?_⟩, ?_, ?_⟩
    · rw [List.length_take]
      omega
    · rw [List.length_drop, List.length_take, List.length_drop]
      omega
    · rw [List.length_take, List.length_drop]
      omega
    · rw [List.length_take, List.length_drop]
      omega
    · rw [List.length_drop, List.length_take, List.length_drop]
      omega
    · rw [List.length_drop, List.length_take, List.length_drop]
      omega
    · rw [List.take_take]
      exact not_not.mp hmarks
    · exact hitems
  · show data.take 335 ++ (Text.asBytes "Woo!".toList ++ ((data.drop 335).take 298).drop 4) ++
      (Text.asBytes "WS".toList ++ (ws.drop 2).take 6 ++ (ws.drop 8).take 72 ++ [ws.getD 80 0]) ++
      (Text.asBytes "w4".toList ++ ((data.drop 714).take 51).drop 2) ++ Text.asBytes "gf".toList ++
      (data.drop 767).take (attributesLen data) ++ (Text.asBytes "if".toList ++
        ((data.drop (767 + attributesLen data)).take 32).drop 2) ++
      data.drop (767 + attributesLen data + 32) = data
    rw [hquests, hwsSection, hnpcs, hskills, hgf, hws]
    simp only [List.append_assoc]
    rw [take_append_drop_add, take_append_drop_add, take_append_drop_add data 765 2,
      take_append_drop_add data 714 51, take_append_drop_add data 633 81,
      take_append_drop_add data 335 298, List.take_append_drop]
  · rw [List.length_take, List.length_drop]
    omega
  · constructor
    · exact List.toList_toArray
    · rfl
    · exact waypoints_flatten ws
    · rfl
    · rfl
    · rfl
    · rfl

section Layout

variable {l : Layout}

/-- One part of a file is taken off the front of the rest. -/
theorem slice_of_drop {bytes part after : List UInt8} {start len : Nat}
    (h : bytes.drop start = part ++ after) (hlen : part.length = len) :
    (bytes.drop start).take len = part ∧ bytes.drop (start + len) = after := by
  rw [← List.drop_drop, h]
  exact ⟨List.take_left' hlen, List.drop_left' hlen⟩

/-- The file from its attributes on. -/
theorem Layout.drop_bytes (h : l.Lengths) : l.bytes.drop 767 =
    l.attributes ++ (Text.asBytes "if".toList ++ l.skills ++ l.items) := by
  have hfront : (l.header ++ (Text.asBytes "Woo!".toList ++ l.quests) ++ l.waypointSection ++
      (Text.asBytes "w4".toList ++ l.npcs) ++ Text.asBytes "gf".toList).length = 767 := by
    simp only [Layout.waypointSection, List.length_append, List.length_singleton, h.header,
      h.quests, h.waypointHead, h.waypoints, h.npcs]
    rfl
  rw [Layout.bytes, List.append_assoc, List.append_assoc, List.drop_left' hfront]

theorem Layout.length_bytes (h : l.Lengths) :
    l.bytes.length = 799 + l.attributes.length + l.items.length := by
  simp only [Layout.bytes, Layout.waypointSection, List.length_append, List.length_singleton,
    h.header, h.quests, h.waypointHead, h.waypoints, h.npcs, h.skills]
  show 335 + (4 + 294) + (2 + 6 + 72 + 1) + (2 + 49) + 2 + _ + (2 + 30) + _ = _
  omega

/-- A file of such parts is accepted. -/
theorem parse_of_layout (h : l.Sized) (hattributes : l.attributes.length = attributesLen l.bytes) :
    ∃ save, Save.parse l.bytes = .ok save ∧ l.Carried save := by
  have hlength := Layout.length_bytes h.toLengths
  have hws : l.waypointSection.length = 81 := by
    simp only [Layout.waypointSection, List.length_append, List.length_singleton, h.waypointHead,
      h.waypoints]
    rfl
  have hstart : l.bytes = l.header ++ ((Text.asBytes "Woo!".toList ++ l.quests) ++
      (l.waypointSection ++ ((Text.asBytes "w4".toList ++ l.npcs) ++ (Text.asBytes "gf".toList ++
        (l.attributes ++ ((Text.asBytes "if".toList ++ l.skills) ++ l.items)))))) := by
    simp only [Layout.bytes, List.append_assoc]
  have hheader : l.bytes.take 335 = l.header := by
    rw [hstart]
    exact List.take_left' h.header
  have hback := congrArg (List.drop 335) hstart
  rw [List.drop_left' h.header] at hback
  obtain ⟨hquests, hback⟩ := slice_of_drop hback
    (show (Text.asBytes "Woo!".toList ++ l.quests).length = 298 by
      rw [List.length_append, h.quests]
      rfl)
  obtain ⟨hwaypoints, hback⟩ := slice_of_drop hback hws
  obtain ⟨hnpcs, hback⟩ := slice_of_drop hback
    (show (Text.asBytes "w4".toList ++ l.npcs).length = 51 by
      rw [List.length_append, h.npcs]
      rfl)
  obtain ⟨hgf, hback⟩ := slice_of_drop hback
    (show (Text.asBytes "gf".toList).length = 2 from rfl)
  obtain ⟨_, hback⟩ := slice_of_drop hback hattributes
  obtain ⟨hskills, hitems⟩ := slice_of_drop hback
    (show (Text.asBytes "if".toList ++ l.skills).length = 32 by
      rw [List.length_append, h.skills]
      rfl)
  refine ⟨⟨⟨(l.bytes.take 335).toArray, by rw [List.size_toArray, hheader, h.header]; rfl⟩,
    ((l.bytes.drop 335).take 298).drop 4,
    (List.range 3).map fun i => (((l.bytes.drop 633).take 81).drop (8 + i * 24)).take 24,
    ((l.bytes.drop 633).take 81).getD 80 0, ((l.bytes.drop 714).take 51).drop 2,
    (readStats ⟨l.bytes.drop 767, 0⟩).1,
    ((l.bytes.drop (767 + attributesLen l.bytes)).take 32).drop 2,
    l.bytes.drop (767 + attributesLen l.bytes + 32)⟩, ?_, ?_⟩
  · have hmarks : l.bytes.take 8 = Writer.u32 signature ++ Writer.u32 version := by
      rw [← h.marks, ← hheader, List.take_take]
      rfl
    unfold Save.parse
    rw [dif_neg (by show ¬ _ < 335; omega), if_neg (not_not.mpr hmarks)]
    dsimp only
    simp only [bind_eq_ok, guard_eq_ok, sectionAt_eq_ok]
    refine ⟨_, ⟨?_, rfl, ?_⟩, _, ⟨?_, rfl, ?_⟩, _, ⟨?_, rfl, ?_⟩, not_not.mpr hgf, _, ⟨?_, rfl, ?_⟩,
      ?_, rfl⟩
    · show 633 ≤ _
      omega
    · show _ <+: (l.bytes.drop 335).take 298
      rw [hquests]
      exact List.prefix_append _ _
    · show 714 ≤ _
      omega
    · show _ <+: (l.bytes.drop 633).take 81
      rw [hwaypoints, Layout.waypointSection, List.append_assoc, List.append_assoc]
      exact List.prefix_append _ _
    · show 765 ≤ _
      omega
    · show _ <+: (l.bytes.drop 714).take 51
      rw [hnpcs]
      exact List.prefix_append _ _
    · show 767 + attributesLen l.bytes + 32 ≤ _
      omega
    · show _ <+: (l.bytes.drop (767 + attributesLen l.bytes)).take 32
      rw [hskills]
      exact List.prefix_append _ _
    · show ¬ (!(Text.asBytes "JM".toList).isPrefixOf
        (l.bytes.drop (767 + attributesLen l.bytes + 32))) = true
      rw [hitems, List.isPrefixOf_iff_prefix.mpr h.items]
      decide
  · have hhead : (Text.asBytes "WS".toList ++ l.waypointHead).length = 8 := by
      rw [List.length_append, h.waypointHead]
      rfl
    constructor
    · exact List.toList_toArray.trans hheader
    · show ((l.bytes.drop 335).take 298).drop 4 = l.quests
      rw [hquests]
      exact List.drop_left' rfl
    · show (List.map _ _).flatten = _
      rw [waypoints_flatten, hwaypoints, Layout.waypointSection, List.append_assoc,
        List.drop_left' hhead, List.take_left' h.waypoints]
    · show ((l.bytes.drop 633).take 81).getD 80 0 = _
      rw [hwaypoints, Layout.waypointSection, List.getD_eq_getElem?_getD,
        List.getElem?_append_right (by rw [List.length_append, hhead, h.waypoints])]
      rw [List.length_append, hhead, h.waypoints]
      rfl
    · show ((l.bytes.drop 714).take 51).drop 2 = l.npcs
      rw [hnpcs]
      exact List.drop_left' rfl
    · show ((l.bytes.drop (767 + attributesLen l.bytes)).take 32).drop 2 = l.skills
      rw [hskills]
      exact List.drop_left' rfl
    · exact hitems

theorem Layout.take_bytes (h : l.Lengths) : l.bytes.take 335 = l.header := by
  simp only [Layout.bytes, List.append_assoc]
  exact List.take_left' h.header

theorem Layout.waypointHead_bytes (h : l.Lengths) : (l.bytes.drop 635).take 6 = l.waypointHead := by
  have hfront : (l.header ++ (Text.asBytes "Woo!".toList ++ l.quests) ++
      Text.asBytes "WS".toList).length = 635 := by
    simp only [List.length_append, h.header, h.quests]
    rfl
  have hshape : l.bytes = (l.header ++ (Text.asBytes "Woo!".toList ++ l.quests) ++
      Text.asBytes "WS".toList) ++ (l.waypointHead ++ (l.waypoints ++ [l.waypointTail] ++
        (Text.asBytes "w4".toList ++ l.npcs) ++ Text.asBytes "gf".toList ++ l.attributes ++
        (Text.asBytes "if".toList ++ l.skills) ++ l.items)) := by
    simp only [Layout.bytes, Layout.waypointSection, List.append_assoc]
  rw [hshape, List.drop_left' hfront, List.take_left' h.waypointHead]

theorem resize_self {out : List UInt8} {len : Nat} (h : out.length = len) :
    resize out len = out := by
  rw [resize, ← h, List.take_length, Nat.sub_self, List.replicate_zero, List.append_nil]

/-- What is written of a save. -/
theorem body_of_carried (h : l.Lengths) {save : Save} (hc : l.Carried save) :
    save.body = Layout.bytes { l with
      waypointHead := Writer.u32 1 ++ Writer.u16 0x50
      attributes := (writeStats save.stats).bytes } := by
  have hquests : (l.header ++ Text.asBytes "Woo!".toList ++ l.quests).length =
      headerLen + questLen := by
    simp only [List.length_append, h.header, h.quests]
    rfl
  have hnpcs : (l.header ++ Text.asBytes "Woo!".toList ++ l.quests ++ Text.asBytes "WS".toList ++
      Writer.u32 1 ++ Writer.u16 0x50 ++ l.waypoints ++ [l.waypointTail] ++
      Text.asBytes "w4".toList ++ l.npcs).length = headerLen + questLen + waypointLen + npcLen := by
    simp only [List.length_append, List.length_singleton, h.header, h.quests, h.waypoints, h.npcs]
    rfl
  unfold Save.body
  dsimp only
  rw [hc.header, hc.quests, hc.waypoints, hc.waypointTail, hc.npcs, hc.skills, hc.items,
    resize_self (show _ = headerLen from h.header), resize_self hquests, resize_self hnpcs]
  simp only [Layout.bytes, Layout.waypointSection, List.append_assoc]

end Layout

/-! ## What comes back -/

/-- The same bytes, but for the offsets that are left open. -/
def SameBut (free : Nat → Prop) (xs ys : List UInt8) : Prop :=
  xs.length = ys.length ∧ ∀ i, ¬ free i → xs[i]? = ys[i]?

section SameBut

variable {free wider : Nat → Prop} {xs ys zs : List UInt8}

theorem SameBut.refl (xs : List UInt8) : SameBut free xs xs := ⟨rfl, fun _ _ => rfl⟩

theorem SameBut.symm (h : SameBut free xs ys) : SameBut free ys xs :=
  ⟨h.1.symm, fun i hi => (h.2 i hi).symm⟩

theorem SameBut.trans (h : SameBut free xs ys) (h' : SameBut free ys zs) : SameBut free xs zs :=
  ⟨h.1.trans h'.1, fun i hi => (h.2 i hi).trans (h'.2 i hi)⟩

theorem SameBut.mono (hwider : ∀ i, free i → wider i) (h : SameBut free xs ys) :
    SameBut wider xs ys := ⟨h.1, fun i hi => h.2 i fun hfree => hi (hwider i hfree)⟩

theorem length_patch {out bytes : List UInt8} {start : Nat}
    (h : start + bytes.length ≤ out.length) :
    (patch out start bytes).length = out.length := by
  simp only [patch, List.length_append, List.length_take, List.length_drop]
  omega

theorem sameBut_patch {out bytes : List UInt8} {start : Nat}
    (h : start + bytes.length ≤ out.length)
    (hfree : ∀ i, start ≤ i → i < start + bytes.length → free i) :
    SameBut free (patch out start bytes) out := by
  refine ⟨length_patch h, fun i hi => ?_⟩
  rcases Nat.lt_or_ge i start with hlt | hge
  · rw [patch, List.append_assoc,
      List.getElem?_append_left (by rw [List.length_take]; omega), List.getElem?_take_of_lt hlt]
  · have hbehind : start + bytes.length ≤ i := by
      by_contra hin
      exact hi (hfree i hge (by omega))
    have hlength : (out.take start ++ bytes).length = start + bytes.length := by
      rw [List.length_append, List.length_take]
      omega
    rw [patch, List.getElem?_append_right (by omega), hlength, List.getElem?_drop]
    congr 1
    omega

theorem sameBut_set (out : List UInt8) (i : Nat) (byte : UInt8) :
    SameBut (· = i) (out.set i byte) out :=
  ⟨List.length_set, fun _ hj => List.getElem?_set_ne (Ne.symm hj)⟩

theorem sameBut_iff_eq {n : Nat} (hfree : ∀ i, free i → i < n) (hfront : xs.take n = ys.take n) :
    SameBut free xs ys ↔ xs = ys := by
  constructor
  · rintro ⟨_, hsame⟩
    refine List.ext_getElem? fun i => ?_
    rcases Nat.lt_or_ge i n with hlt | hge
    · rw [← List.getElem?_take_of_lt hlt, hfront, List.getElem?_take_of_lt hlt]
    · exact hsame i fun hi => absurd (hfree i hi) (Nat.not_lt.mpr hge)
  · rintro rfl
    exact .refl xs

end SameBut

def SizeOrChecksum (i : Nat) : Prop := 8 ≤ i ∧ i < 16

theorem sameBut_toBytes {save : Save} (h : 16 ≤ save.body.length) :
    SameBut SizeOrChecksum save.toBytes save.body := by
  have hu32 (v : UInt32) : (Writer.u32 v).length = 4 := rfl
  have hsize : (patch save.body 8 (Writer.u32 (.ofNat save.body.length))).length =
      save.body.length := length_patch (by rw [hu32]; omega)
  refine (sameBut_patch ?_ ?_).trans (sameBut_patch ?_ ?_)
  · rw [hsize, hu32]
    omega
  · rw [hu32]
    exact fun i hlow hhigh => ⟨by omega, by omega⟩
  · rw [hu32]
    omega
  · rw [hu32]
    exact fun i hlow hhigh => ⟨by omega, by omega⟩

/-- The file is written as `to_bytes` would write it, where a save does not carry it: the head of
the waypoints, and the attributes with an end mark and no bits set behind it. -/
structure WrittenPlainly (data : List UInt8) : Prop where
  waypointHead : (data.drop 635).take 6 = Writer.u32 1 ++ Writer.u16 0x50
  attributes : ∃ stats : List (UInt16 × UInt32), (∀ s ∈ stats, Fits s) ∧
    pack (attributeBits stats) <+: data.drop 767

theorem readStats_prefixed {data : List UInt8} {stats : List (UInt16 × UInt32)}
    (hfits : ∀ s ∈ stats, Fits s) (h : pack (attributeBits stats) <+: data.drop 767) :
    (readStats ⟨data.drop 767, 0⟩).1 = stats ∧
      attributesLen data = (pack (attributeBits stats)).length := by
  obtain ⟨rest, hrest⟩ := h
  have hbits := unpack_append (pack (attributeBits stats)) rest
  rw [hrest, unpack_pack, List.append_assoc] at hbits
  have hread := readStats_append (r := ⟨data.drop 767, 0⟩) hfits hbits
  rw [attributesLen, hread, length_pack, Nat.zero_add]
  exact ⟨rfl, rfl⟩

section Unchanged

variable {l : Layout} {save : Save}

/-- The parts of the file that is written. -/
def Layout.written (l : Layout) (save : Save) : Layout :=
  { l with
    waypointHead := Writer.u32 1 ++ Writer.u16 0x50
    attributes := (writeStats save.stats).bytes }

theorem Layout.Lengths.written (h : l.Lengths) (save : Save) : (l.written save).Lengths :=
  ⟨h.header, h.quests, rfl, h.waypoints, h.npcs, h.skills⟩

/-- The size and the checksum are in the header, which is carried. -/
theorem sameBut_toBytes_iff (h : l.Lengths) (hc : l.Carried save) :
    SameBut SizeOrChecksum save.toBytes l.bytes ↔ (l.written save).bytes = l.bytes := by
  have hw := h.written save
  have hbody : save.body = (l.written save).bytes := body_of_carried h hc
  have hlong : 16 ≤ save.body.length := by
    rw [hbody, Layout.length_bytes hw]
    omega
  have hto := sameBut_toBytes hlong
  rw [hbody] at hto
  have hopen : SameBut SizeOrChecksum save.toBytes l.bytes ↔
      SameBut SizeOrChecksum (l.written save).bytes l.bytes := ⟨hto.symm.trans, hto.trans⟩
  rw [hopen]
  refine sameBut_iff_eq (n := 335) (fun i hi => ?_) ?_
  · have hhigh := hi.2
    omega
  · rw [Layout.take_bytes hw, Layout.take_bytes h]
    rfl

/-- Files of the same other parts differ in these two. -/
theorem written_bytes_iff (h : l.Lengths) : (l.written save).bytes = l.bytes ↔
    l.waypointHead = Writer.u32 1 ++ Writer.u16 0x50 ∧
      l.attributes = (writeStats save.stats).bytes := by
  have hw := h.written save
  constructor
  · intro hsame
    refine ⟨?_, ?_⟩
    · rw [← Layout.waypointHead_bytes h, ← hsame, Layout.waypointHead_bytes hw]
      rfl
    · have hback := congrArg (List.drop 767) hsame
      rw [Layout.drop_bytes hw, Layout.drop_bytes h] at hback
      exact (List.append_cancel_right hback).symm
  · rintro ⟨hhead, hattributes⟩
    rw [Layout.written, ← hhead, ← hattributes]

theorem writtenPlainly_iff (h : l.Lengths)
    (hattributes : l.attributes.length = attributesLen l.bytes)
    (hstats : save.stats = (readStats ⟨l.bytes.drop 767, 0⟩).1) : WrittenPlainly l.bytes ↔
      l.waypointHead = Writer.u32 1 ++ Writer.u16 0x50 ∧
        l.attributes = (writeStats save.stats).bytes := by
  have hbytes : (writeStats save.stats).bytes = pack (attributeBits save.stats) := by
    rw [writeStats_eq]
    rfl
  rw [hbytes]
  constructor
  · rintro ⟨hhead, stats, hfits, hprefix⟩
    obtain ⟨hread, hlength⟩ := readStats_prefixed hfits hprefix
    rw [hread] at hstats
    refine ⟨(Layout.waypointHead_bytes h).symm.trans hhead, ?_⟩
    obtain ⟨rest, hrest⟩ := hprefix
    rw [Layout.drop_bytes h] at hrest
    rw [hstats]
    exact (List.append_inj_left hrest (hlength.symm.trans hattributes.symm)).symm
  · rintro ⟨hhead, hwritten⟩
    refine ⟨(Layout.waypointHead_bytes h).trans hhead, save.stats, ?_, ?_⟩
    · rw [hstats]
      exact fits_of_readStats _
    · rw [Layout.drop_bytes h, ← hwritten]
      exact List.prefix_append _ _

theorem setStatus_toBytes (h : l.Lengths) (hc : l.Carried save) (status : UInt8) :
    SameBut (fun i => SizeOrChecksum i ∨ i = 0x24) (save.setStatus status).toBytes
      (l.written save).bytes := by
  have hl' : Layout.Lengths { l with header := l.header.set 0x24 status } :=
    ⟨List.length_set.trans h.header, h.quests, h.waypointHead, h.waypoints, h.npcs, h.skills⟩
  have hc' :
      Layout.Carried { l with header := l.header.set 0x24 status } (save.setStatus status) := by
    refine ⟨?_, hc.quests, hc.waypoints, hc.waypointTail, hc.npcs, hc.skills, hc.items⟩
    show (save.header.set 0x24 status (by decide)).toList = l.header.set 0x24 status
    rw [← hc.header, Vector.toList_set]
  have hbody : (save.setStatus status).body = (l.written save).bytes.set 0x24 status := by
    rw [body_of_carried hl' hc']
    simp only [Layout.written, Layout.bytes, List.append_assoc]
    rw [List.set_append_left _ _ (by rw [h.header]; decide)]
    rfl
  have hlong : 16 ≤ (save.setStatus status).body.length := by
    rw [hbody, List.length_set, Layout.length_bytes (h.written save)]
    omega
  have hto := sameBut_toBytes hlong
  rw [hbody] at hto
  exact (hto.mono fun i hi => Or.inl hi).trans ((sameBut_set _ _ _).mono fun i hi => Or.inr hi)

theorem setStatus_unchanged_iff {data : List UInt8} (h : Save.parse data = .ok save)
    (status : UInt8) :
    SameBut (fun i => SizeOrChecksum i ∨ i = 0x24) (save.setStatus status).toBytes data ↔
      WrittenPlainly data := by
  obtain ⟨l, hsized, rfl, hattributes, hcarried, hstats⟩ := layout_of_parse h
  have hl := hsized.toLengths
  have hto := setStatus_toBytes hl hcarried status
  have hopen : SameBut (fun i => SizeOrChecksum i ∨ i = 0x24) (save.setStatus status).toBytes
      l.bytes ↔ SameBut (fun i => SizeOrChecksum i ∨ i = 0x24) (l.written save).bytes l.bytes :=
    ⟨hto.symm.trans, hto.trans⟩
  rw [hopen, writtenPlainly_iff hl hattributes hstats, ← written_bytes_iff hl]
  refine sameBut_iff_eq (n := 335) (fun i hi => ?_) ?_
  · rcases hi with hi | rfl
    · have hhigh := hi.2
      omega
    · decide
  · rw [Layout.take_bytes (hl.written save), Layout.take_bytes hl]
    rfl

end Unchanged

/-- **A save comes back byte for byte**, but for its size and checksum and a status that was set,
if its file is written as plainly as `to_bytes` writes, and only then. -/
theorem unchanged_iff {data : List UInt8} {save : Save} (h : Save.parse data = .ok save) :
    (SameBut SizeOrChecksum save.toBytes data ∧
      ∀ status,
        SameBut (fun i => SizeOrChecksum i ∨ i = 0x24) (save.setStatus status).toBytes data) ↔
    WrittenPlainly data := by
  obtain ⟨l, hsized, rfl, hattributes, hcarried, hstats⟩ := layout_of_parse h
  have hl := hsized.toLengths
  rw [writtenPlainly_iff hl hattributes hstats, ← written_bytes_iff hl,
    sameBut_toBytes_iff hl hcarried]
  refine ⟨fun hboth => hboth.1, fun hsame => ⟨hsame, fun status => ?_⟩⟩
  rw [← hsame]
  exact setStatus_toBytes hl hcarried status

/-- A save of nothing, with this head of the waypoints. -/
def emptyFile (waypointHead : List UInt8) : Layout where
  header := Writer.u32 signature ++ Writer.u32 version ++ List.replicate 327 0
  quests := List.replicate 294 0
  waypointHead
  waypoints := List.replicate 72 0
  waypointTail := 1
  npcs := List.replicate 49 0
  attributes := pack (attributeBits [])
  skills := List.replicate 30 0
  items := Text.asBytes "JM".toList

section EmptyFile

variable {head : List UInt8}

theorem sized_emptyFile (h : head.length = 6) : (emptyFile head).Sized where
  header := by
    rw [emptyFile, List.length_append, List.length_replicate]
    rfl
  quests := List.length_replicate
  waypointHead := h
  waypoints := List.length_replicate
  npcs := List.length_replicate
  skills := List.length_replicate
  marks := List.take_left' rfl
  items := List.prefix_rfl

theorem attributes_emptyFile (h : head.length = 6) :
    pack (attributeBits []) <+: (emptyFile head).bytes.drop 767 := by
  rw [Layout.drop_bytes (sized_emptyFile h).toLengths]
  exact List.prefix_append _ _

theorem parse_emptyFile (h : head.length = 6) : ∃ save,
    Save.parse (emptyFile head).bytes = .ok save ∧ (emptyFile head).Carried save :=
  parse_of_layout (sized_emptyFile h)
    (readStats_prefixed (List.forall_mem_nil _) (attributes_emptyFile h)).2.symm

theorem unchanged_emptyFile : ∃ save,
    Save.parse (emptyFile (Writer.u32 1 ++ Writer.u16 0x50)).bytes = .ok save ∧
      SameBut SizeOrChecksum save.toBytes (emptyFile (Writer.u32 1 ++ Writer.u16 0x50)).bytes := by
  have hhead : (Writer.u32 1 ++ Writer.u16 0x50).length = 6 := rfl
  obtain ⟨save, hparse, _⟩ := parse_emptyFile hhead
  exact ⟨save, hparse, ((unchanged_iff hparse).mpr
    ⟨Layout.waypointHead_bytes (sized_emptyFile hhead).toLengths, [], List.forall_mem_nil _,
      attributes_emptyFile hhead⟩).1⟩

/-- Another head of the waypoints is not carried. -/
theorem waypointHead_changed : ¬ ∀ data save, Save.parse data = .ok save →
    SameBut SizeOrChecksum save.toBytes data ∧ ∀ status,
      SameBut (fun i => SizeOrChecksum i ∨ i = 0x24) (save.setStatus status).toBytes data := by
  intro h
  have hhead : [2, 0, 0, 0, 0x50, (0 : UInt8)].length = 6 := rfl
  obtain ⟨save, hparse, hcarried⟩ := parse_emptyFile hhead
  have hl := (sized_emptyFile hhead).toLengths
  have hsame := (sameBut_toBytes_iff hl hcarried).mp (h _ save hparse).1
  exact absurd ((written_bytes_iff hl).mp hsame).1 (by decide)

/-- A save of nothing but a status. -/
def heroFile (status : UInt8) : Layout :=
  { emptyFile (Writer.u32 1 ++ Writer.u16 0x50) with
    header := Writer.u32 signature ++ Writer.u32 version ++
      (List.replicate 28 0 ++ status :: List.replicate 298 0) }

theorem sized_heroFile (status : UInt8) : (heroFile status).Sized := by
  have h : (emptyFile (Writer.u32 1 ++ Writer.u16 0x50)).Sized := sized_emptyFile rfl
  refine ⟨⟨?_, h.quests, h.waypointHead, h.waypoints, h.npcs, h.skills⟩, List.take_left' rfl,
    h.items⟩
  simp only [heroFile, List.length_append, List.length_replicate, List.length_cons]
  rfl

/-- It is read, with its status, and it is written plainly. -/
theorem parse_heroFile (status : UInt8) : ∃ save,
    Save.parse (heroFile status).bytes = .ok save ∧ save.status = status ∧
      WrittenPlainly (heroFile status).bytes := by
  have hsized := sized_heroFile status
  have hattributes : pack (attributeBits []) <+: (heroFile status).bytes.drop 767 := by
    rw [Layout.drop_bytes hsized.toLengths]
    exact List.prefix_append _ _
  obtain ⟨save, hparse, _⟩ := parse_of_layout hsized
    (readStats_prefixed (List.forall_mem_nil _) hattributes).2.symm
  have hstatus : (heroFile status).bytes[0x24]? = some status := rfl
  exact ⟨save, hparse, Option.some.inj ((Save.status_of_parse hparse).symm.trans hstatus),
    Layout.waypointHead_bytes hsized.toLengths, [], List.forall_mem_nil _, hattributes⟩

end EmptyFile

end CommandCenter.Formats.D2s
