import Mathlib.Data.Nat.Digits.Defs
import CommandCenter.Proto.Frame

/-!
# Products

The text of a four-character code, from `crates/bnetcc-proto/src/error.rs`, and the products of
`crates/bnetcc-proto/src/lib.rs`.
-/

namespace CommandCenter.Proto

open Rust

namespace FourCc

/-- The code of four ASCII bytes in reading order. -/
def fromAscii (a b c d : Char) : FourCc :=
  ⟨fromBeBytes (.ofNat a.toNat) (.ofNat b.toNat) (.ofNat c.toNat) (.ofNat d.toNat)⟩

/-- The four bytes in reading order. -/
def asAscii (code : FourCc) : List UInt8 := toBeBytes code.value

/-- Four printable characters. -/
def isGraphic (code : FourCc) : Bool := code.asAscii.all fun b => 0x21 ≤ b && b ≤ 0x7E

def asText (code : FourCc) : Text := code.asAscii.map fun b => Char.ofNat b.toNat

/-- The characters, or else the value in hexadecimal. -/
def toText (code : FourCc) : Text :=
  if code.isGraphic then code.asText
  else
    let digits := Nat.toDigits 16 code.value.toNat
    "0x".toList ++ List.replicate (8 - digits.length) '0' ++ digits

end FourCc

namespace Product

def star : FourCc := .fromAscii 'S' 'T' 'A' 'R'
def sexp : FourCc := .fromAscii 'S' 'E' 'X' 'P'
def sshr : FourCc := .fromAscii 'S' 'S' 'H' 'R'
def jstr : FourCc := .fromAscii 'J' 'S' 'T' 'R'
def drtl : FourCc := .fromAscii 'D' 'R' 'T' 'L'
def dshr : FourCc := .fromAscii 'D' 'S' 'H' 'R'
def w2bn : FourCc := .fromAscii 'W' '2' 'B' 'N'
def d2dv : FourCc := .fromAscii 'D' '2' 'D' 'V'
def d2xp : FourCc := .fromAscii 'D' '2' 'X' 'P'
def war3 : FourCc := .fromAscii 'W' 'A' 'R' '3'
def w3xp : FourCc := .fromAscii 'W' '3' 'X' 'P'

/-- `auth_family` is `Srp`: the product logs on by the NLS packets. -/
def isSrp (p : FourCc) : Bool := p = war3 || p = w3xp

/-- Whether the server never answers UDP for this product. -/
def alwaysNoUdp (p : FourCc) : Bool := p = drtl || p = dshr

end Product

end CommandCenter.Proto
