import Mathlib.Data.List.FinRange
import CommandCenter.Rust.BigUint
import CommandCenter.Rust.Num

/-!
# Blizzard's SHA-1 and the comparison of proofs

`crates/bnetcc-crypto/src/xsha1.rs`. The message schedule rotates the constant one by the mixed
words, the words are little-endian, and there is no length padding, so only 64 bytes count.

`proofs_match`, which both logon systems use, folds the differences of all bytes, so that its
time does not depend on them.

* `proofsMatch_iff`: the fold decides equality.
-/

namespace CommandCenter.Crypto

open Rust

/-- Size of a proof and of every SHA-1 digest. -/
abbrev proofLen : Nat := 20

/-! ## The hash -/

/-- Number of input bytes that influence the digest. -/
def effectiveInputLen : Nat := 64

/-- `rotate_left`, by less than a word. -/
def rol (v s : UInt32) : UInt32 := (v <<< (s &&& 31)) ||| (v >>> ((32 - (s &&& 31)) % 32))

structure HashState where
  a : UInt32
  b : UInt32
  c : UInt32
  d : UInt32
  e : UInt32
  deriving DecidableEq

def h0 : HashState := ⟨0x67452301, 0xefcdab89, 0x98badcfe, 0x10325476, 0xc3d2e1f0⟩

def blockWords (block : List UInt8) : List UInt32 :=
  (List.range 16).map fun i =>
    let b := block.drop (4 * i)
    fromBeBytes (b.getD 3 0) (b.getD 2 0) (b.getD 1 0) (b.getD 0 0)

def expandWords (words : List UInt32) : List UInt32 :=
  (List.range 64).foldl (fun w i =>
    let x := w.getD i 0 ^^^ w.getD (i + 8) 0 ^^^ w.getD (i + 2) 0 ^^^ w.getD (i + 13) 0
    -- the operands are swapped relative to SHA-1
    w ++ [rol 1 (x % 32)]) words

def roundMix (i : Nat) (s : HashState) : UInt32 :=
  if i < 20 then ((s.b &&& s.c) ||| (~~~s.b &&& s.d)) + 0x5A827999
  else if i < 40 then (s.b ^^^ s.c ^^^ s.d) + 0x6ED9EBA1
  else if i < 60 then ((s.b &&& s.c) ||| (s.b &&& s.d) ||| (s.c &&& s.d)) + 0x8F1BBCDC
  else (s.b ^^^ s.c ^^^ s.d) + 0xCA62C1D6

def hashRound (s : HashState) (word : UInt32 × Nat) : HashState :=
  let temp := word.1 + rol s.a 5 + s.e + roundMix word.2 s
  ⟨temp, s.a, rol s.b 30, s.c, s.d⟩

/-- X-SHA-1 over the first 64 bytes of the input. -/
def xsha1 (input : List UInt8) : HashState :=
  let block := (input ++ List.replicate effectiveInputLen 0).take effectiveInputLen
  let s := (expandWords (blockWords block)).zipIdx.foldl hashRound h0
  ⟨s.a + h0.a, s.b + h0.b, s.c + h0.c, s.d + h0.d, s.e + h0.e⟩

/-- The digest, each word little-endian. -/
def xsha1Bytes (input : List UInt8) : Bytes proofLen :=
  let s := xsha1 input
  let le (n : UInt32) := (toBeBytes n).reverse
  ⟨(le s.a ++ le s.b ++ le s.c ++ le s.d ++ le s.e).toArray, rfl⟩

/-- The proof that a client sends: `XSHA1(clientToken ‖ serverToken ‖ h1)`. -/
def logonProof (clientToken serverToken : UInt32) (h1 : Bytes proofLen) : Bytes proofLen :=
  xsha1Bytes ((toBeBytes clientToken).reverse ++ (toBeBytes serverToken).reverse ++ h1.toList)

-- a known answer of the reference implementation
example : xsha1 [] = ⟨0x4d3aa0ee, 0x94261d5a, 0x584a6f57, 0x6b8d9960, 0x1546c680⟩ := by
  decide +kernel

/-! ## Proofs -/

/-- Constant-time comparison of two proofs. -/
def proofsMatch (a b : Bytes proofLen) : Bool :=
  (List.finRange proofLen).foldl (fun diff i => diff ||| (a[i] ^^^ b[i])) 0 == 0

theorem foldl_or_eq_zero {ι : Type*} (f : ι → UInt8) (is : List ι) (diff : UInt8) :
    is.foldl (fun diff i => diff ||| f i) diff = 0 ↔ diff = 0 ∧ ∀ i ∈ is, f i = 0 := by
  induction is generalizing diff with
  | nil => simp
  | cons i is ih =>
    rw [List.foldl_cons, ih, UInt8.or_eq_zero_iff, List.forall_mem_cons, and_assoc]

theorem proofsMatch_iff {a b : Bytes proofLen} : proofsMatch a b = true ↔ a = b := by
  rw [proofsMatch, beq_iff_eq, foldl_or_eq_zero (fun i : Fin proofLen => a[i] ^^^ b[i])]
  constructor
  · intro h
    apply Vector.ext
    intro i hi
    exact UInt8.xor_eq_zero_iff.mp (h.2 ⟨i, hi⟩ (List.mem_finRange _))
  · rintro rfl
    exact ⟨rfl, fun i _ => UInt8.xor_self⟩

end CommandCenter.Crypto
