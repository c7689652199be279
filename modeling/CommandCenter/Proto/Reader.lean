import CommandCenter.Library.Reads
import CommandCenter.Proto.Frame
import CommandCenter.Rust.BigUint

/-!
# Reading and writing packet bodies

`Reader` and `Writer` of `crates/bnetcc-proto/src/buf.rs`. A reader is the list of the bytes that
are left, and a body that is written is the list of its bytes.

* `reads_u16`, `reads_u32`, `reads_cstr`: what is written is read back.
* `exact_u16`, `exact_u32`: what is read is what is written for the value.
-/

namespace CommandCenter.Proto

open Rust Library

/-- A bounds-checked read from a packet body. -/
abbrev Reader := Taking UInt8 ProtoError

namespace Reader

def take (n : Nat) : Reader (Bytes n) := fun left =>
  if h : n ≤ left.length then
    .ok (⟨(left.take n).toArray, by simpa using h⟩, left.drop n)
  else .error (.truncated n left.length)

def u8 : Reader UInt8 := do
  let b ← take 1
  return b.get 0

def u16 : Reader UInt16 := do
  let b ← take 2
  return fromLeBytes (b.get ⟨0, Nat.zero_lt_two⟩) (b.get ⟨1, Nat.one_lt_two⟩)

def u32 : Reader UInt32 := do
  let b ← take 4
  return fromBeBytes (b.get 3) (b.get 2) (b.get 1) (b.get 0)

def u64 : Reader UInt64 := do
  let b ← take 8
  return .ofNat (BigUint.fromBytesLe b.toList)

/-- A four-character code, in wire order. -/
def fourcc : Reader FourCc := do
  return ⟨← u32⟩

/-- A fixed-size byte array. -/
def array (n : Nat) : Reader (Bytes n) := take n

/-- The bytes before the next NUL, which is read too. -/
def cstr (limit : Nat) : Reader (List UInt8) := fun left =>
  match left.findIdx? (· == 0) with
  | none => .error .unterminatedString
  | some stop =>
    if limit < stop then .error (.stringTooLong stop limit)
    else .ok (left.take stop, left.drop (stop + 1))

/-- The value read from the front of a body. -/
def read {α : Type} (reader : Reader α) (frame : Frame) : Except ProtoError α :=
  reader.run' frame.body

/-- A reader where it got to after reads that may fail: one that fails leaves it where it was. -/
abbrev Position := StateM (List UInt8)

def attempt {α : Type} (reader : Reader α) : OptionT Position α := fun left =>
  match reader left with
  | .ok (value, left) => (some value, left)
  | .error _ => (none, left)

/-- `unwrap_or`. -/
def getD {α : Type} (reader : Reader α) (default : α) : Position α := do
  return (← (attempt reader).run).getD default

/-- What is read from the front of a body. -/
def scan {α : Type} (position : Position α) (frame : Frame) : α := (position.run frame.body).1

end Reader

namespace Writer

def u16 (v : UInt16) : List UInt8 := toLeBytes v

def u32 (v : UInt32) : List UInt8 := (toBeBytes v).reverse

@[simp] theorem length_u16 (v : UInt16) : (u16 v).length = 2 := rfl

@[simp] theorem length_u32 (v : UInt32) : (u32 v).length = 4 := rfl

def u64 (v : Nat) : List UInt8 :=
  (List.range 8).map fun i => .ofNat (v / 2 ^ (8 * i))

@[simp] theorem length_u64 (v : Nat) : (u64 v).length = 8 := by
  rw [u64, List.length_map, List.length_range]

/-- A four-character code, in wire order. -/
def fourcc (v : FourCc) : List UInt8 := u32 v.value

/-- Terminated; a NUL inside is left out. -/
def cstr (v : List UInt8) : List UInt8 := v.filter (· != 0) ++ [0]

end Writer

namespace Reader

theorem reads_take {n : Nat} {bytes : List UInt8} (hlen : bytes.length = n) :
    Reads (take n) bytes ⟨bytes.toArray, by simpa using hlen⟩ := by
  intro rest
  subst hlen
  have hroom : bytes.length ≤ (bytes ++ rest).length := by simp
  simp only [take, dif_pos hroom, List.take_left, List.drop_left]

theorem reads_u16 (v : UInt16) : Reads u16 (Writer.u16 v) v := by
  have hread := (reads_take (Writer.length_u16 v)).map
    fun b : Bytes 2 => fromLeBytes (b.get 0) (b.get 1)
  exact fun rest => (hread rest).trans
    (congrArg (fun value => Except.ok (value, rest)) (fromLeBytes_toLeBytes v))

theorem reads_u32 (v : UInt32) : Reads u32 (Writer.u32 v) v := by
  have hread := (reads_take (Writer.length_u32 v)).map
    fun b : Bytes 4 => fromBeBytes (b.get 3) (b.get 2) (b.get 1) (b.get 0)
  exact fun rest => (hread rest).trans
    (congrArg (fun value => Except.ok (value, rest)) (fromBeBytes_toBeBytes v))

theorem fromBytesLe_u64 {n : Nat} (h : n < 2 ^ 64) : BigUint.fromBytesLe (Writer.u64 n) = n := by
  have hbytes : (Writer.u64 n).map UInt8.toNat =
      (List.range 8).map fun i => n / 2 ^ (8 * i) % 256 := by
    rw [Writer.u64, List.map_map]
    exact List.map_congr_left fun i _ => UInt8.toNat_ofNat'
  have hrange : List.range 8 = [0, 1, 2, 3, 4, 5, 6, 7] := rfl
  rw [BigUint.fromBytesLe, hbytes, hrange]
  simp only [List.map_cons, List.map_nil, Nat.ofDigits_cons, Nat.ofDigits_nil]
  omega

theorem reads_u64 (v : UInt64) : Reads u64 (Writer.u64 v.toNat) v := by
  have hread := (reads_take (Writer.length_u64 v.toNat)).map
    fun b : Bytes 8 => UInt64.ofNat (BigUint.fromBytesLe b.toList)
  have hvalue : UInt64.ofNat (BigUint.fromBytesLe (Writer.u64 v.toNat)) = v := by
    rw [fromBytesLe_u64 v.toNat_lt, UInt64.ofNat_toNat]
  exact fun rest => (hread rest).trans
    (congrArg (fun value => Except.ok (value, rest)) hvalue)

theorem reads_fourcc (v : FourCc) : Reads fourcc (Writer.fourcc v) v :=
  (reads_u32 v.value).map FourCc.mk

theorem exact_take (n : Nat) : Exact (take n) Vector.toList := by
  intro left b rest h
  unfold take at h
  split at h
  · rename_i hroom
    obtain ⟨rfl, rfl⟩ := Prod.mk.inj (Except.ok.inj h)
    exact (List.take_append_drop n left).symm
  · cases h

/-- A value made of so many bytes, which are those written for it. -/
theorem exact_map {α : Type} {n : Nat} {f : Bytes n → α} {write : α → List UInt8}
    (h : ∀ b, write (f b) = b.toList) :
    Exact (do let b ← take n; return f b) write := by
  intro left v rest hread
  obtain ⟨b, left', htake, hv⟩ := Taking.bind_ok hread
  obtain ⟨rfl, rfl⟩ := Prod.mk.inj (Except.ok.inj hv)
  rw [h, exact_take n left b left' htake]

theorem exact_u16 : Exact u16 Writer.u16 := by
  refine exact_map fun b => ?_
  rw [Writer.u16, toLeBytes_fromLeBytes]
  apply List.ext_getElem
  · simp
  · intro i hi hi'
    simp only [Vector.length_toList] at hi'
    obtain rfl | rfl : i = 0 ∨ i = 1 := by omega
    · rfl
    · rfl

theorem exact_u32 : Exact u32 Writer.u32 := by
  refine exact_map fun b => ?_
  rw [Writer.u32, toBeBytes_fromBeBytes]
  apply List.ext_getElem
  · simp
  · intro i hi hi'
    simp only [Vector.length_toList] at hi'
    obtain rfl | rfl | rfl | rfl : i = 0 ∨ i = 1 ∨ i = 2 ∨ i = 3 := by omega
    · rfl
    · rfl
    · rfl
    · rfl

/-- A string without a NUL that is short enough. -/
theorem reads_cstr {limit : Nat} {v : List UInt8} (hnul : ∀ b ∈ v, b ≠ 0)
    (hlen : v.length ≤ limit) : Reads (cstr limit) (Writer.cstr v) v := by
  intro rest
  have hwritten : Writer.cstr v ++ rest = v ++ 0 :: rest := by
    rw [Writer.cstr, List.filter_eq_self.mpr fun b hb => bne_iff_ne.mpr (hnul b hb),
      List.append_assoc, List.singleton_append]
  have hstop : (v ++ 0 :: rest).findIdx? (· == 0) = some v.length := by
    have hnone : v.findIdx? (· == 0) = none := by
      rw [List.findIdx?_eq_none_iff]
      intro b hb
      exact beq_eq_false_iff_ne.mpr (hnul b hb)
    rw [List.findIdx?_append, hnone, List.findIdx?_cons]
    simp
  have hafter : (v ++ 0 :: rest).drop (v.length + 1) = rest := by
    rw [← List.drop_drop, List.drop_left, List.drop_one, List.tail_cons]
  rw [cstr, hwritten, hstop]
  dsimp only
  rw [if_neg (by omega), List.take_left, hafter]

/-- A string is no longer than its limit. -/
theorem cstr_length {limit : Nat} {left rest v : List UInt8}
    (h : cstr limit left = .ok (v, rest)) : v.length ≤ limit := by
  unfold cstr at h
  split at h
  · cases h
  · rename_i stop _
    split at h
    · cases h
    · rename_i hstop
      obtain ⟨rfl, _⟩ := Prod.mk.inj (Except.ok.inj h)
      rw [List.length_take]
      omega

end Reader

end CommandCenter.Proto
