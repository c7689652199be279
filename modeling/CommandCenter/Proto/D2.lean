import CommandCenter.Rust.Text

/-!
# Diablo II realm characters

Names, status bits, classes and the portrait, from `crates/bnetcc-proto/src/d2.rs`.
-/

namespace CommandCenter.Proto.D2

open Rust

/-- Longest character name the client accepts. -/
def nameMax : Nat := 15

/-- Shortest character name the client accepts. -/
def nameMin : Nat := 2

/-! ## Status bits -/

namespace Status

def hardcore : UInt8 := 0x04

/-- A hardcore character that has died. -/
def dead : UInt8 := 0x08

/-- Lord of Destruction character. -/
def expansion : UInt8 := 0x20

def ladder : UInt8 := 0x40

/-- The bits a client may choose at creation. -/
def creatable : UInt8 := hardcore ||| expansion ||| ladder

end Status

/-! ## Classes -/

namespace HeroClass

def druid : UInt8 := 5

def assassin : UInt8 := 6

def isValid (c : UInt8) : Bool := c ≤ assassin

/-- Whether a class exists only in the expansion. -/
def expansionOnly (c : UInt8) : Bool := c = druid || c = assassin

end HeroClass

/-! ## The portrait -/

structure Portrait where
  /-- `class` in the source. -/
  heroClass : UInt8
  status : UInt8
  level : UInt8
  progression : UInt8

/-- 7 bits per byte, the high bit always set. -/
def push14 (v : UInt32) : List UInt8 :=
  [((v &&& 0x7F) ||| 0x80).toUInt8, (((v >>> 7) &&& 0x7F) ||| 0x80).toUInt8]

/-- The 33 bytes, with `header` in the first two. -/
def Portrait.encode (p : Portrait) (header : List UInt8) : List UInt8 :=
  let flags := ((p.progression &&& 0x1F).toUInt32 <<< 8) ||| (p.status &&& 0x6C).toUInt32
  header ++ List.replicate 11 0xFF ++ [min p.heroClass HeroClass.assassin + 1] ++
    List.replicate 11 0xFF ++ [min (max p.level 1) 99] ++ push14 flags ++ push14 0 ++
    [0xFF, 0xFF, 0xFF]

/-- The portrait of one `MCP_CHARLIST2` entry. -/
def Portrait.charlistBytes (p : Portrait) (realmCount : UInt32) : List UInt8 :=
  p.encode (push14 realmCount)

/-! ## Names -/

def isPunctuation (c : Char) : Bool := c = '-' || c = '_'

/-- 2 to 15 letters, with at most one `-` or `_` that is neither first nor last. A character that
is not ASCII is refused, by each of its bytes. -/
def validCharacterName (name : Text) : Bool :=
  decide (nameMin ≤ name.len ∧ name.len ≤ nameMax) &&
    (name.zipIdx.all fun c =>
      c.1.isAlpha || (isPunctuation c.1 && c.2 ≠ 0 && c.2 ≠ name.length - 1)) &&
    name.countP isPunctuation ≤ 1

theorem mem_validCharacterName {name : Text} (h : validCharacterName name = true) {c : Char}
    (hc : c ∈ name) : c.isAlpha = true ∨ isPunctuation c = true := by
  unfold validCharacterName at h
  simp only [Bool.and_eq_true, List.all_eq_true] at h
  obtain ⟨i, hi, hget⟩ := List.mem_iff_getElem.mp hc
  have hall := h.1.2 (c, i) (List.mem_zipIdx_iff_getElem?.mpr (by simp [hget, hi]))
  rcases Bool.or_eq_true_iff.mp hall with halpha | hpunctuation
  · exact Or.inl halpha
  · simp only [Bool.and_eq_true] at hpunctuation
    exact Or.inr hpunctuation.1.1

example : (["Tyrael", "Den-of-Evil", "-x", "D2"].map fun name => validCharacterName name.toList) =
    [true, false, false, false] := by decide

end CommandCenter.Proto.D2
