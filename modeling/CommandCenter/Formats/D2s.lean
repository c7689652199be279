import CommandCenter.Proto.Reader

/-!
# Diablo II character saves

`.d2s` files, from `crates/d2-formats/src/d2s.rs`: reading a save, its status byte and its stats,
and writing it. A section whose fields are not read is carried as bytes.

* `Save.status_of_parse`: the status of a save is a byte of its file.
* `Save.status_toBytes`: it is written where it is read.
-/

namespace CommandCenter.Formats.D2s

open Rust Proto

def headerLen : Nat := 0x14F

def signature : UInt32 := 0xAA55AA55

def version : UInt32 := 0x60

def questLen : Nat := 298
def waypointLen : Nat := 81
def npcLen : Nat := 51
def skillLen : Nat := 32

/-- Bits each saved stat takes, ids 0 to 15. -/
def statBits : List Nat := [10, 10, 10, 10, 10, 8, 21, 21, 21, 21, 21, 21, 7, 32, 25, 25]

def statEnd : UInt32 := 0x1FF

/-- Why a save could not be read. -/
inductive Error where
  | truncated
  | notASave
  | badMarker (marker : Text)
  deriving DecidableEq

structure Save where
  /-- As read; size and checksum are refreshed on write. -/
  header : Bytes headerLen
  quests : List UInt8
  waypoints : List (List UInt8)
  waypointTail : UInt8
  npcs : List UInt8
  /-- Stat ids and their raw values. -/
  stats : List (UInt16 × UInt32)
  skills : List UInt8
  items : List UInt8

/-! ## Bits -/

structure BitReader where
  data : List UInt8
  bit : Nat

namespace BitReader

/-- The bit at the position, if there is one left. -/
def next (r : BitReader) : Option (Bool × BitReader) :=
  (r.data[r.bit / 8]?).map fun byte =>
    ((byte >>> .ofNat (r.bit % 8)) &&& 1 != 0, { r with bit := r.bit + 1 })

/-- Bit `i` of a value. -/
def bitOf (i : Nat) : UInt32 := (1 : UInt32) <<< .ofNat i

/-- `left` more bits, from bit `i` of the value. What was read stays read where the data ends. -/
def readFrom (i : Nat) (value : UInt32) : (left : Nat) → BitReader → Option UInt32 × BitReader
  | 0, r => (some value, r)
  | left + 1, r =>
    match r.next with
    | none => (none, r)
    | some (set, r) => readFrom (i + 1) (if set then value ||| bitOf i else value) left r

def read (r : BitReader) (width : Nat) : Option UInt32 × BitReader := readFrom 0 0 width r

theorem next_bit {r r' : BitReader} {set : Bool} (h : r.next = some (set, r')) :
    r'.data = r.data ∧ r'.bit = r.bit + 1 ∧ r'.bit ≤ 8 * r'.data.length := by
  obtain ⟨byte, hbyte, heq⟩ := Option.map_eq_some_iff.mp h
  obtain ⟨_, rfl⟩ := Prod.mk.inj heq
  have hlt : r.bit / 8 < r.data.length := (List.getElem?_eq_some_iff.mp hbyte).1
  refine ⟨rfl, rfl, ?_⟩
  show r.bit + 1 ≤ 8 * r.data.length
  omega

theorem readFrom_bit {i left : Nat} {value v : UInt32} {r r' : BitReader}
    (h : readFrom i value left r = (some v, r')) (hleft : 0 < left) :
    r'.data = r.data ∧ r.bit < r'.bit ∧ r'.bit ≤ 8 * r'.data.length := by
  induction left generalizing i value r with
  | zero => omega
  | succ left ih =>
    rw [readFrom] at h
    cases hnext : r.next with
    | none =>
      rw [hnext] at h
      cases h
    | some p =>
      obtain ⟨set, s⟩ := p
      rw [hnext] at h
      obtain ⟨hdata, hbit, hle⟩ := next_bit hnext
      by_cases hzero : left = 0
      · subst hzero
        obtain ⟨_, rfl⟩ := Prod.mk.inj h
        exact ⟨hdata, by omega, hle⟩
      · obtain ⟨hdata', hbit', hle'⟩ := ih h (by omega)
        exact ⟨hdata'.trans hdata, by omega, hle'⟩

theorem read_bit {width : Nat} {v : UInt32} {r r' : BitReader} (h : r.read width = (some v, r'))
    (hwidth : 0 < width) :
    r'.data = r.data ∧ r.bit < r'.bit ∧ r'.bit ≤ 8 * r'.data.length := readFrom_bit h hwidth

end BitReader

structure BitWriter where
  bytes : List UInt8
  bit : Nat

namespace BitWriter

def push (w : BitWriter) (set : Bool) : BitWriter :=
  let bytes := if w.bit % 8 = 0 then w.bytes ++ [0] else w.bytes
  let bit := (1 : UInt8) <<< .ofNat (w.bit % 8)
  ⟨if set then bytes.modify (bytes.length - 1) (· ||| bit) else bytes,
    w.bit + 1⟩

def write (w : BitWriter) (value : UInt32) (width : Nat) : BitWriter :=
  (List.range width).foldl (fun w i => w.push ((value >>> .ofNat i) &&& 1 != 0)) w

end BitWriter

/-! ## Reading -/

/-- The section at `start`, which its marker leads. -/
def sectionAt (data : List UInt8) (start : Nat) (marker : Text) (len : Nat) :
    Except Error (List UInt8) :=
  if data.length < start + len then .error .truncated
  else
    let bytes := (data.drop start).take len
    if marker.asBytes.isPrefixOf bytes then .ok bytes else .error (.badMarker marker)

theorem statBits_pos {i width : Nat} (h : statBits[i]? = some width) : 0 < width := by
  have hall : ∀ width ∈ statBits, 0 < width := by decide
  exact hall width (List.mem_of_getElem? h)

/-- The stats up to the end mark, or as far as they can be read. -/
def readStats (bits : BitReader) : List (UInt16 × UInt32) × BitReader :=
  match _hid : bits.read 9 with
  | (none, bits) => ([], bits)
  | (some id, bits') =>
    if id = statEnd then ([], bits')
    else
      match _hwidth : statBits[id.toNat]? with
      | none => ([], bits')
      | some width =>
        match _hvalue : bits'.read width with
        | (none, bits) => ([], bits)
        | (some value, bits'') =>
          let (stats, bits) := readStats bits''
          ((id.toUInt16, value) :: stats, bits)
termination_by 8 * bits.data.length - bits.bit
decreasing_by
  obtain ⟨hdata, hbit, _⟩ := BitReader.read_bit _hid (by omega)
  obtain ⟨hdata', hbit', hle⟩ := BitReader.read_bit _hvalue (statBits_pos _hwidth)
  rw [hdata', hdata] at hle ⊢
  omega

def Save.parse (data : List UInt8) : Except Error Save :=
  if h : data.length < headerLen then .error .truncated
  else if data.take 8 ≠ Writer.u32 signature ++ Writer.u32 version then .error .notASave
  else do
    let at' := headerLen
    let quests ← sectionAt data at' "Woo!".toList questLen
    let at' := at' + questLen
    let ws ← sectionAt data at' "WS".toList waypointLen
    let at' := at' + waypointLen
    let npcs ← sectionAt data at' "w4".toList npcLen
    let at' := at' + npcLen
    if (data.drop at').take 2 ≠ Text.asBytes "gf".toList then .error (.badMarker "gf".toList)
    let (stats, bits) := readStats ⟨data.drop (at' + 2), 0⟩
    let at' := at' + 2 + (bits.bit + 7) / 8
    let skills ← sectionAt data at' "if".toList skillLen
    let items := data.drop (at' + skillLen)
    if !(Text.asBytes "JM".toList).isPrefixOf items then .error (.badMarker "JM".toList)
    return {
      header := ⟨(data.take headerLen).toArray, by simp; omega⟩
      quests := quests.drop 4
      waypoints := (List.range 3).map fun i => (ws.drop (8 + i * 24)).take 24
      waypointTail := ws.getD 80 0
      npcs := npcs.drop 2
      stats
      skills := skills.drop 2
      items }

namespace Save

def status (save : Save) : UInt8 := save.header.get ⟨0x24, by decide⟩

def setStatus (save : Save) (status : UInt8) : Save :=
  { save with header := save.header.set 0x24 status (by decide) }

/-- `class` in the source. -/
def heroClass (save : Save) : UInt8 := save.header.get ⟨0x28, by decide⟩

def level (save : Save) : UInt8 := save.header.get ⟨0x2B, by decide⟩

def name (save : Save) : Text :=
  (((save.header.toList.drop 0x14).take 16).takeWhile (· ≠ 0)).map fun b => .ofNat b.toNat

/-- A stat's raw value, 0 when not saved. -/
def stat (save : Save) (id : UInt16) : UInt32 :=
  ((save.stats.find? fun s => s.1 == id).map Prod.snd).getD 0

end Save

/-! ## Writing -/

/-- `Vec::resize` with zeros. -/
def resize (out : List UInt8) (len : Nat) : List UInt8 :=
  out.take len ++ List.replicate (len - out.length) 0

/-- `copy_from_slice` into the bytes from `start`. -/
def patch (out : List UInt8) (start : Nat) (bytes : List UInt8) : List UInt8 :=
  out.take start ++ bytes ++ out.drop (start + bytes.length)

/-- The checksum, with its own field taken as zero. -/
def checksum (data : List UInt8) : UInt32 :=
  data.zipIdx.foldl (fun (sum : UInt32) b =>
    (if 0x0C ≤ b.2 ∧ b.2 < 0x10 then (0 : UInt32) else b.1.toUInt32) + (sum >>> 31) + sum * 2) 0

def writeStats (stats : List (UInt16 × UInt32)) : BitWriter :=
  let bits := stats.foldl (fun (w : BitWriter) s =>
    match statBits[s.1.toNat]? with
    | some width => (w.write s.1.toUInt32 9).write s.2 width
    | none => w) ⟨[], 0⟩
  bits.write statEnd 9

/-- The whole file, before its size and checksum are filled in. -/
def Save.body (save : Save) : List UInt8 :=
  let out := resize save.header.toList headerLen
  let out := resize (out ++ Text.asBytes "Woo!".toList ++ save.quests) (headerLen + questLen)
  let out := out ++ Text.asBytes "WS".toList ++ Writer.u32 1 ++ Writer.u16 0x50 ++
    save.waypoints.flatten ++ [save.waypointTail]
  let out := resize (out ++ Text.asBytes "w4".toList ++ save.npcs)
    (headerLen + questLen + waypointLen + npcLen)
  out ++ Text.asBytes "gf".toList ++ (writeStats save.stats).bytes ++ Text.asBytes "if".toList ++
    save.skills ++ save.items

/-- The whole file, with its size and checksum filled in. -/
def Save.toBytes (save : Save) : List UInt8 :=
  let out := save.body
  let out := patch out 8 (Writer.u32 (.ofNat out.length))
  patch out 0x0C (Writer.u32 (checksum out))

/-! ## The status byte -/

section Byte

variable {out : List UInt8} {i : Nat} {b : UInt8}

theorem append_byte (h : out[i]? = some b) (rest : List UInt8) : (out ++ rest)[i]? = some b := by
  rw [List.getElem?_append_left (List.getElem?_eq_some_iff.mp h).1]
  exact h

theorem resize_byte (len : Nat) (h : out[i]? = some b) (hi : i < len) :
    (resize out len)[i]? = some b := by
  apply append_byte
  rw [List.getElem?_take_of_lt hi]
  exact h

theorem patch_byte (h : out[i]? = some b) {start : Nat} {bytes : List UInt8}
    (hi : start + bytes.length ≤ i) : (patch out start bytes)[i]? = some b := by
  have hlt : i < out.length := (List.getElem?_eq_some_iff.mp h).1
  have hlen : (out.take start ++ bytes).length = start + bytes.length := by
    rw [List.length_append, List.length_take_of_le (by omega)]
  rw [patch, List.getElem?_append_right (by omega), hlen, List.getElem?_drop,
    Nat.add_sub_cancel' hi]
  exact h

end Byte

namespace Save

@[simp] theorem status_setStatus (save : Save) (status : UInt8) :
    (save.setStatus status).status = status := by
  show (save.header.set 0x24 status (by decide))[0x24] = status
  exact Vector.getElem_set_self _

theorem status_of_parse {data : List UInt8} {save : Save} (h : parse data = .ok save) :
    data[0x24]? = some save.status := by
  unfold parse at h
  split at h
  · cases h
  · rename_i hlen
    split at h
    · cases h
    · -- the header is copied before anything that can still fail
      have hheader : save.header.toList = data.take headerLen := by
        simp only [bind, Except.bind] at h
        split at h
        · cases h
        split at h
        · cases h
        split at h
        · cases h
        split at h
        · cases h
        simp only [pure, Except.pure] at h
        split at h
        · cases h
        split at h
        · cases h
        obtain rfl := Except.ok.inj h
        simp
      have hbyte : save.header.toList[0x24]? = some save.status := by
        rw [status]
        simp [Vector.get]
      rw [hheader, List.getElem?_take_of_lt (by decide)] at hbyte
      exact hbyte

/-- It is written where it is read. -/
theorem status_toBytes (save : Save) : save.toBytes[0x24]? = some save.status := by
  have hheader : save.header.toList[0x24]? = some save.status := by
    rw [status]
    simp [Vector.get]
  have hquests := append_byte (append_byte (resize_byte (i := 0x24) headerLen hheader
    (by decide)) (Text.asBytes "Woo!".toList)) save.quests
  have hwaypoints := append_byte (append_byte (append_byte (append_byte (append_byte
    (resize_byte (headerLen + questLen) hquests (by decide))
    (Text.asBytes "WS".toList)) (Writer.u32 1)) (Writer.u16 0x50)) save.waypoints.flatten)
    [save.waypointTail]
  have hnpcs := append_byte (append_byte hwaypoints (Text.asBytes "w4".toList)) save.npcs
  have hbody : save.body[0x24]? = some save.status :=
    append_byte (append_byte (append_byte (append_byte (append_byte
      (resize_byte _ hnpcs (by decide)) _) _) _) _) _
  exact patch_byte (patch_byte hbody (by simp)) (by simp)

end Save

end CommandCenter.Formats.D2s
