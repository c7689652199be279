import CommandCenter.Library.Bits
import CommandCenter.Library.CanonicalCode
import CommandCenter.Rust.Slice

/-!
# PKWARE streams

The decoder of `crates/d2-formats/src/pkware.rs`: a header of two bytes, and then bits, the least
significant of a byte first. `none` is a panic. A `u32` that is kept below `2 ^ 16` is a natural
number, but for the bits that are shifted into the buffer.

* `Token`, `encode`: what a stream says, and the bits that say it.
* `expand`: the bytes that it stands for.
-/

namespace CommandCenter.Formats.Pkware

open Rust Library

/-- Why a stream could not be decoded. -/
inductive Error where
  | badHeader
  | truncated
  | badCode
  | distanceTooFar
deriving DecidableEq

def MAX_BITS : Nat := 13

/-- Bit lengths of the literals, a run in each number. -/
def LIT_LEN : List Nat := [
  11, 124, 8, 7, 28, 7, 188, 13, 76, 4, 10, 8, 12, 10, 12, 10, 8, 23, 8, 9, 7, 6, 7, 8, 7, 6, 55,
  8, 23, 24, 12, 11, 7, 9, 11, 12, 6, 7, 22, 5, 7, 24, 6, 11, 9, 6, 7, 22, 7, 11, 38, 7, 9, 8, 25,
  11, 8, 11, 9, 12, 8, 12, 5, 38, 5, 38, 5, 11, 7, 5, 6, 21, 6, 10, 53, 8, 7, 24, 10, 27, 44, 253,
  253, 253, 252, 252, 252, 13, 12, 45, 12, 45, 12, 61, 12, 45, 44, 173]

def LEN_LEN : List Nat := [2, 35, 36, 53, 38, 23]

def DIST_LEN : List Nat := [2, 20, 53, 230, 247, 151, 248]

/-- The least length of each length code. -/
def LEN_BASE : List Nat := [3, 2, 4, 5, 6, 7, 8, 9, 10, 12, 16, 24, 40, 72, 136, 264]

def LEN_EXTRA : List Nat := [0, 0, 0, 0, 0, 0, 0, 0, 1, 2, 3, 4, 5, 6, 7, 8]

def END_OF_STREAM : Nat := 519

structure Huffman where
  /-- Codes of each bit length. -/
  count : List Nat
  /-- Symbols by code length, then by value. -/
  symbol : List Nat

def lengthsOf (rep : List Nat) : List Nat :=
  rep.flatMap fun r => List.replicate ((r >>> 4) + 1) (r &&& 15)

/-- Expand a run list into a canonical decoding table. -/
def construct (rep : List Nat) : Huffman :=
  let lengths := lengthsOf rep
  let count := lengths.foldl (fun count l => count.modify l (· + 1))
    (List.replicate (MAX_BITS + 1) 0)
  let offs := (List.range' 1 MAX_BITS).foldl
    (fun offs len => offs.set (len + 1) (offs.getD len 0 + count.getD len 0))
    (List.replicate (MAX_BITS + 2) 0)
  let placed := lengths.zipIdx.foldl
    (fun placed (l, sym) =>
      if l ≠ 0 then (placed.1.set (placed.2.getD l 0) sym, placed.2.modify l (· + 1)) else placed)
    (List.replicate 256 0, offs)
  ⟨count, placed.1⟩

def LIT_CODE : Huffman := construct LIT_LEN

def LENGTH_CODE : Huffman := construct LEN_LEN

def DIST_CODE : Huffman := construct DIST_LEN

/-! ## Decoding -/

structure Bits where
  src : List UInt8
  pos : Nat
  buf : Nat
  cnt : Nat

abbrev BitReader := StateT Bits (Checked Error)

/-- A value that may not be there, with a panic. -/
def orPanic {α : Type} (value : Option α) : BitReader α := fun b => value.map fun a => .ok (a, b)

/-- Bytes, until there are enough bits. -/
def Bits.fill (need : Nat) (b : Bits) : Checked Error Bits :=
  if need ≤ b.cnt then pure b
  else
    match b.src[b.pos]? with
    | none => throw .truncated
    | some byte =>
      fill need { b with
        buf := b.buf ||| byte.toNat <<< b.cnt % 2 ^ 32, pos := b.pos + 1, cnt := b.cnt + 8 }
termination_by need - b.cnt

def take (need : Nat) : BitReader Nat := fun b =>
  if need = 0 then pure (0, b)
  else do
    let b ← b.fill need
    return (b.buf &&& ((1 <<< need) - 1), { b with buf := b.buf >>> need, cnt := b.cnt - need })

/-- The lengths of a code that are left to try. -/
def decodeFrom (h : Huffman) : List Nat → (code first index : Nat) → BitReader Nat
  | [], _, _, _ => throw .badCode
  | len :: lens, code, first, index => do
    let code := code ||| ((← take 1) ^^^ 1)
    let count ← orPanic h.count[len]?
    if code < first + count then
      if index + code < first then orPanic none else orPanic h.symbol[index + code - first]?
    else decodeFrom h lens (code <<< 1) ((first + count) <<< 1) (index + count)

/-- Codes arrive one bit at a time, most significant first, each bit inverted. -/
def decode (h : Huffman) : BitReader Nat := decodeFrom h (List.range' 1 MAX_BITS) 0 0 0

inductive Token where
  | literal (b : UInt8)
  | copy (len dist : Nat)

/-- A two-byte match carries two low distance bits, a longer one a dictionary's worth. -/
def lowBits (dict len : Nat) : Nat := if len = 2 then 2 else dict

def readLength : BitReader Nat := do
  let sym ← decode LENGTH_CODE
  let base ← orPanic LEN_BASE[sym]?
  let extra ← orPanic LEN_EXTRA[sym]?
  return base + (← take extra)

def readDistance (dict len : Nat) : BitReader Nat := do
  let low := lowBits dict len
  let high ← decode DIST_CODE
  return (high <<< low ||| (← take low)) + 1

def readLiteral (codedLiterals : Nat) : BitReader UInt8 := do
  if codedLiterals ≠ 0 then
    let sym ← decode LIT_CODE
    return .ofNat sym
  else
    let byte ← take 8
    return .ofNat byte

/-- One token, none at the end of the stream. -/
def readToken (codedLiterals dict : Nat) : BitReader (Option Token) := do
  if (← take 1) ≠ 0 then
    let len ← readLength
    if len = END_OF_STREAM then return none
    else
      let dist ← readDistance dict len
      return some (.copy len dist)
  else
    let b ← readLiteral codedLiterals
    return some (.literal b)

/-- `for _ in 0..times { dst[n] = dst[n - dist]; n += 1; }` -/
def copyWithin (dist : Nat) : (times : Nat) → List UInt8 → (n : Nat) → Option (List UInt8)
  | 0, dst, _ => some dst
  | times + 1, dst, n => do
    let b ← dst[n - dist]?
    if n < dst.length then copyWithin dist times (dst.set n b) (n + 1) else none

/-- The bytes of one token, from `n` on. -/
def Token.put (dst : List UInt8) (n : Nat) : Token → BitReader (Nat × List UInt8)
  | .literal b => if n < dst.length then return (n + 1, dst.set n b) else orPanic none
  | .copy len dist =>
    if n < dist then throw .distanceTooFar
    else do
      let times := min len (dst.length - n)
      let dst ← orPanic (copyWithin dist times dst n)
      return (n + times, dst)

/-- The loop, of at most so many tokens. -/
def explodeFrom (codedLiterals dict : Nat) :
    (fuel : Nat) → List UInt8 → (n : Nat) → BitReader (Nat × List UInt8)
  | 0, _, _ => orPanic none
  | fuel + 1, dst, n =>
    if n < dst.length then do
      match ← readToken codedLiterals dict with
      | none => return (n, dst)
      | some t =>
        let (n, dst) ← t.put dst n
        explodeFrom codedLiterals dict fuel dst n
    else return (n, dst)

/-- The bytes written, and the destination with them. A token writes at least one byte. -/
def explode (src dst : List UInt8) : Checked Error (Nat × List UInt8) :=
  StateT.run' (do
    let codedLiterals ← take 8
    if 1 < codedLiterals then throw .badHeader
    else
      let dict ← take 8
      if ¬ (4 ≤ dict ∧ dict ≤ 6) then throw .badHeader
      else explodeFrom codedLiterals dict (dst.length + 1) dst 0) ⟨src, 0, 0, 0⟩

/-! ## Streams -/

/-- The canonical code of a symbol, inverted. -/
def codeBits (rep : List Nat) (sym : Nat) : List Bool := codeOf (lengthsOf rep) true sym

def lengthSymbol (len : Nat) : Nat :=
  ((List.range LEN_BASE.length).find? fun sym =>
    LEN_BASE.getD sym 0 ≤ len ∧ len < LEN_BASE.getD sym 0 + 2 ^ LEN_EXTRA.getD sym 0).getD 0

/-- A length is its code and the extra bits. -/
def lengthBits (len : Nat) : List Bool :=
  let sym := lengthSymbol len
  codeBits LEN_LEN sym ++ bitsOf (LEN_EXTRA.getD sym 0) (len - LEN_BASE.getD sym 0)

def endCode : List Bool := true :: lengthBits END_OF_STREAM

def literalBits (codedLiterals : Nat) (b : UInt8) : List Bool :=
  if codedLiterals ≠ 0 then codeBits LIT_LEN b.toNat else bitsOf 8 b.toNat

/-- A distance is the code of its high bits and the low ones. -/
def distanceBits (dict len dist : Nat) : List Bool :=
  codeBits DIST_LEN ((dist - 1) >>> lowBits dict len) ++ bitsOf (lowBits dict len) (dist - 1)

def Token.bits (codedLiterals dict : Nat) : Token → List Bool
  | .literal b => false :: literalBits codedLiterals b
  | .copy len dist => true :: (lengthBits len ++ distanceBits dict len dist)

def encode (codedLiterals dict : Nat) (tokens : List Token) : List Bool :=
  tokens.flatMap (Token.bits codedLiterals dict)

/-- The two bytes that a stream begins with. -/
def header (codedLiterals dict : Nat) : List Bool := bitsOf 8 codedLiterals ++ bitsOf 8 dict

/-- A copy repeats what it has written. -/
def copyOut (dist : Nat) : (times : Nat) → List UInt8 → List UInt8
  | 0, out => out
  | times + 1, out => copyOut dist times (out ++ [out.getD (out.length - dist) 0])

/-- The bytes so far, and those of a token. -/
def Token.write (out : List UInt8) : Token → List UInt8
  | .literal b => out ++ [b]
  | .copy len dist => copyOut dist len out

def expandFrom (out : List UInt8) (tokens : List Token) : List UInt8 := tokens.foldl Token.write out

def expand (tokens : List Token) : List UInt8 := expandFrom [] tokens

def Token.Spelled (dict : Nat) : Token → Prop
  | .literal _ => True
  | .copy len dist => 2 ≤ len ∧ len ≤ 518 ∧ 1 ≤ dist ∧ dist ≤ 64 * 2 ^ lowBits dict len

/-- A copy is of bytes that are there. -/
def Token.Within (produced : Nat) : Token → Prop
  | .literal _ => True
  | .copy _ dist => dist ≤ produced

/-- Tokens that a stream may have after some bytes. -/
def Legal (dict : Nat) : (out : List UInt8) → List Token → Prop
  | _, [] => True
  | out, t :: tokens => t.Spelled dict ∧ t.Within out.length ∧ Legal dict (t.write out) tokens

/-!
## The tables of the PKWARE codes

`construct` sorts the symbols of a code by their lengths: a count of the lengths, the offset of each
length, and then the symbols, each at the offset of its length.

* `construct_spec`: the symbol of a word is at the place of the word.
-/

section Construct

variable {lengths : List Nat}

theorem counts_getElem? (lengths count : List Nat) (l : Nat) :
    (lengths.foldl (fun count l => count.modify l (· + 1)) count)[l]? =
      count[l]?.map (· + lengths.count l) := by
  induction lengths generalizing count with
  | nil => simp
  | cons x lengths ih =>
    rw [List.foldl_cons, ih, List.getElem?_modify, List.count_cons]
    by_cases hx : x = l
    · subst hx
      cases count[x]? with
      | none => simp
      | some n =>
        have hsum : n + 1 + lengths.count x = n + (lengths.count x + 1) := by omega
        simp [hsum]
    · cases count[l]? with
      | none => simp
      | some n => simp [hx]

theorem offsets_getD (count : List Nat) (f : Nat → Nat) (hzero : f 0 = 0)
    (hcount : ∀ l, 0 < l → l ≤ MAX_BITS → count.getD l 0 = f l) (k : Nat) (hk : k ≤ MAX_BITS) :
    ((List.range' 1 k).foldl (fun offs len => offs.set (len + 1) (offs.getD len 0 + count.getD len 0))
        (List.replicate (MAX_BITS + 2) 0)).length = MAX_BITS + 2 ∧
      ∀ l ≤ k + 1, ((List.range' 1 k).foldl
        (fun offs len => offs.set (len + 1) (offs.getD len 0 + count.getD len 0))
          (List.replicate (MAX_BITS + 2) 0)).getD l 0 = placeOf f l := by
  induction k with
  | zero =>
    refine ⟨List.length_replicate, fun l hl => ?_⟩
    have hplace : placeOf f l = 0 := by
      rcases Nat.le_one_iff_eq_zero_or_eq_one.mp hl with rfl | rfl
      · rfl
      · simp [placeOf, hzero]
    rw [hplace]
    have hlt : l < MAX_BITS + 2 := by omega
    simp [List.getD_eq_getElem?_getD, hlt]
  | succ k ih =>
    obtain ⟨hlength, hoffs⟩ := ih (by omega)
    have hrange : List.range' 1 (k + 1) = List.range' 1 k ++ [k + 1] := by
      rw [List.range'_concat, Nat.one_mul, Nat.add_comm 1]
    rw [hrange, List.foldl_append, List.foldl_cons, List.foldl_nil]
    refine ⟨by rw [List.length_set, hlength], fun l hl => ?_⟩
    rw [List.getD_eq_getElem?_getD, List.getElem?_set]
    by_cases heq : k + 1 + 1 = l
    · rw [if_pos heq, if_pos (by omega), Option.getD_some, hoffs (k + 1) (by omega),
        hcount (k + 1) (by omega) hk, ← heq]
      rfl
    · rw [if_neg heq, ← List.getD_eq_getElem?_getD]
      exact hoffs l (by omega)

/-- One symbol is put at the offset of its length. -/
def placeOne (placed : List Nat × List Nat) (entry : Nat × Nat) : List Nat × List Nat :=
  if entry.1 ≠ 0 then
    (placed.1.set (placed.2.getD entry.1 0) entry.2, placed.2.modify entry.1 (· + 1))
  else placed

/-- The symbols up to one are in their places, and the offsets are of the ones that follow. -/
structure Placed (lengths done : List Nat) (placed : List Nat × List Nat) : Prop where
  size : placed.1.length = 256
  offs_size : placed.2.length = MAX_BITS + 2
  offs : ∀ l, 0 < l → l ≤ MAX_BITS →
    placed.2.getD l 0 = placeOf (countOf lengths) l + done.count l
  symbols : ∀ sym < done.length, placed.1[symbolPlace lengths sym]? = some sym

theorem placed_step (hcode : IsCode lengths MAX_BITS) (hsize : lengths.length ≤ 256)
    {done : List Nat} {l : Nat} (hbegins : done ++ [l] <+: lengths) {placed : List Nat × List Nat}
    (h : Placed lengths done placed) : Placed lengths (done ++ [l]) (placeOne placed (l, done.length)) := by
  obtain ⟨rest, hlengths⟩ := hbegins
  have hlt : done.length < lengths.length := by
    rw [← hlengths]
    simp
  have hget : lengths[done.length] = l := by
    simp [← hlengths]
  have htake : lengths.take done.length = done := by
    rw [← hlengths, List.append_assoc, List.take_left' rfl]
  have hpos : 0 < l := hget ▸ hcode.length_pos _ (List.getElem_mem hlt)
  have hle : l ≤ MAX_BITS := hget ▸ hcode.length_le _ (List.getElem_mem hlt)
  have hplace : placed.2.getD l 0 = symbolPlace lengths done.length := by
    rw [h.offs l hpos hle, symbolPlace_eq hlt, rankOf_eq hlt, htake, hget]
  have hroom : symbolPlace lengths done.length < placed.1.length := by
    rw [h.size]
    exact (symbolPlace_lt_length hlt (hget ▸ hpos)).trans_le hsize
  unfold placeOne
  rw [if_pos (Nat.ne_of_gt hpos), hplace]
  refine ⟨by rw [List.length_set, h.size], by rw [List.length_modify, h.offs_size], ?_, ?_⟩
  · intro m hm hmle
    have hin : m < placed.2.length := by
      rw [h.offs_size]
      omega
    have hold := h.offs m hm hmle
    rw [List.getD_eq_getElem _ _ hin] at hold
    rw [List.getD_eq_getElem _ _ (by rw [List.length_modify]; exact hin), List.getElem_modify,
      List.count_append, List.count_singleton]
    by_cases hml : l = m
    · rw [if_pos hml, hold, if_pos (by simpa using hml)]
      omega
    · rw [if_neg hml, hold, if_neg (by simpa using hml), Nat.add_zero]
  · intro sym hsym
    rw [List.length_append, List.length_singleton] at hsym
    rw [List.getElem?_set]
    rcases Nat.lt_succ_iff_lt_or_eq.mp hsym with hbefore | rfl
    · have hsymlt : sym < lengths.length := hbefore.trans hlt
      have hne : symbolPlace lengths done.length ≠ symbolPlace lengths sym := by
        intro heq
        have hsame := symbolPlace_inj hlt hsymlt (hget ▸ hpos)
          (hcode.length_pos _ (List.getElem_mem hsymlt)) heq
        omega
      rw [if_neg hne]
      exact h.symbols sym hbefore
    · rw [if_pos rfl, if_pos hroom]

theorem placed_foldl (hcode : IsCode lengths MAX_BITS) (hsize : lengths.length ≤ 256)
    {placed : List Nat × List Nat} (h : Placed lengths [] placed) {done : List Nat}
    (hbegins : done <+: lengths) : Placed lengths done (done.zipIdx.foldl placeOne placed) := by
  induction done using List.reverseRecOn with
  | nil => exact h
  | append_singleton done l ih =>
    have hdone : Placed lengths done (done.zipIdx.foldl placeOne placed) :=
      ih ((List.prefix_append done [l]).trans hbegins)
    rw [List.zipIdx_append, List.foldl_append]
    have hstep := placed_step hcode hsize hbegins hdone
    simpa using hstep

/-- The tables of a code. -/
theorem construct_spec (rep : List Nat) (hcode : IsCode (lengthsOf rep) MAX_BITS)
    (hsize : (lengthsOf rep).length ≤ 256) :
    (∀ l, 0 < l → l ≤ MAX_BITS → (construct rep).count[l]? = some (countOf (lengthsOf rep) l)) ∧
      (construct rep).symbol.length = 256 ∧
      ∀ sym < (lengthsOf rep).length,
        (construct rep).symbol[symbolPlace (lengthsOf rep) sym]? = some sym := by
  have hcount : ∀ l, 0 < l → l ≤ MAX_BITS →
      (construct rep).count[l]? = some (countOf (lengthsOf rep) l) := by
    intro l hpos hle
    have hzeros : (List.replicate (MAX_BITS + 1) 0)[l]? = some 0 := by
      rw [List.getElem?_replicate, if_pos (by omega)]
    unfold construct
    rw [counts_getElem?, hzeros, countOf_pos hpos]
    simp
  have hgetD : ∀ l, 0 < l → l ≤ MAX_BITS →
      (construct rep).count.getD l 0 = countOf (lengthsOf rep) l := by
    intro l hpos hle
    rw [List.getD_eq_getElem?_getD, hcount l hpos hle, Option.getD_some]
  obtain ⟨hoffsSize, hoffs⟩ :=
    offsets_getD (construct rep).count (countOf (lengthsOf rep)) rfl hgetD MAX_BITS (Nat.le_refl _)
  have hstart : Placed (lengthsOf rep) [] (List.replicate 256 0,
      (List.range' 1 MAX_BITS).foldl
        (fun offs len => offs.set (len + 1) (offs.getD len 0 + (construct rep).count.getD len 0))
          (List.replicate (MAX_BITS + 2) 0)) := by
    refine ⟨List.length_replicate, hoffsSize, fun l _ hle => ?_, fun sym hsym => ?_⟩
    · rw [List.count_nil, Nat.add_zero]
      exact hoffs l (by omega)
    · cases hsym
  have hend := placed_foldl hcode hsize hstart (List.prefix_refl _)
  exact ⟨hcount, hend.size, hend.symbols⟩

end Construct

end CommandCenter.Formats.Pkware
