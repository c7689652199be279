import CommandCenter.Formats.Gif
import CommandCenter.Library.Lzw

/-!
# The codes of a frame

What `unlzw` of `crates/d2-formats/src/gif.rs` makes of what `lzw` writes. The reader's table is a
word behind the writer's, but for the last code of a frame: there the writer enters no word, and the
reader may go over to the next size before it reads the end code.

* `holds_emit`: the bytes of what is emitted.
* `unlzwFrom_codes`: the codes of the pixels that are left are read by the reader that follows.
* `length_codes`: the bits they take.
* `unlzw_lzw`: a frame is read back unless its end code is read past the end of its bytes.
-/

namespace CommandCenter.Formats.Gif

open Rust Library

/-! ## Bytes -/

def codeBits (code : Nat × Nat) : List Bool := bitsOf code.2 code.1

def Emitter.Holds (e : Emitter) (bits : List Bool) : Prop :=
  ∃ whole part, bits = whole ++ part ∧ whole.length % 8 = 0 ∧ part.length < 8 ∧
    e = ⟨pack whole, ofBits part, part.length⟩

theorem ofBits_take_drop (bits : List Bool) {n : Nat} (h : n ≤ bits.length) :
    ofBits bits = ofBits (bits.take n) + 2 ^ n * ofBits (bits.drop n) := by
  conv_lhs => rw [← List.take_append_drop n bits]
  rw [ofBits_append, List.length_take_of_le h]

theorem holds_drain {whole part : List Bool} (hwhole : whole.length % 8 = 0) :
    (Emitter.drain ⟨pack whole, ofBits part, part.length⟩).Holds (whole ++ part) := by
  induction hlen : part.length using Nat.strong_induction_on generalizing whole part with
  | _ n ih =>
    subst hlen
    rw [Emitter.drain]
    split
    · rename_i hbyte
      change 8 ≤ part.length at hbyte
      have htake : (part.take 8).length = 8 := List.length_take_of_le hbyte
      have hsplit := ofBits_take_drop part hbyte
      have hsmall := ofBits_lt (part.take 8)
      rw [htake] at hsmall
      have hlow : UInt8.ofNat (ofBits part) = UInt8.ofNat (ofBits (part.take 8)) := by
        apply UInt8.toNat_inj.mp
        rw [UInt8.toNat_ofNat', UInt8.toNat_ofNat', hsplit]
        omega
      have hfirst : pack (part.take 8) = [.ofNat (ofBits (part.take 8))] :=
        pack_of_length_le (List.ne_nil_of_length_pos (by omega)) (by omega)
      have hout : pack whole ++ [UInt8.ofNat (ofBits part)] = pack (whole ++ part.take 8) := by
        rw [pack_append hwhole, hfirst, hlow]
      have hacc : ofBits part >>> 8 = ofBits (part.drop 8) := by
        rw [Nat.shiftRight_eq_div_pow, hsplit]
        omega
      have hbits : whole ++ part = (whole ++ part.take 8) ++ part.drop 8 := by
        rw [List.append_assoc, List.take_append_drop]
      have hrest : part.length - 8 = (part.drop 8).length := List.length_drop.symm
      dsimp only
      rw [hout, hacc, hrest, hbits]
      refine ih (part.drop 8).length ?_ ?_ rfl
      · rw [List.length_drop]
        omega
      · rw [List.length_append, htake]
        omega
    · rename_i hpart
      exact ⟨whole, part, rfl, hwhole, Nat.not_le.mp hpart, rfl⟩

theorem holds_emit {e : Emitter} {bits : List Bool} (h : e.Holds bits) {code size : Nat}
    (hcode : code < 2 ^ size) : (e.emit code size).Holds (bits ++ bitsOf size code) := by
  obtain ⟨whole, part, rfl, hwhole, -, rfl⟩ := h
  have hacc : ofBits part ||| (code <<< part.length) = ofBits (part ++ bitsOf size code) := by
    rw [ofBits_append, ofBits_bitsOf, Nat.mod_eq_of_lt hcode, Nat.shiftLeft_eq, Nat.mul_comm code,
      Nat.add_comm, Nat.two_pow_add_eq_or_of_lt (ofBits_lt part), Nat.or_comm]
  have hlen : part.length + size = (part ++ bitsOf size code).length := by
    rw [List.length_append, length_bitsOf]
  rw [Emitter.emit, List.append_assoc]
  dsimp only
  rw [hacc, hlen]
  exact holds_drain hwhole

theorem finish_of_holds {e : Emitter} {bits : List Bool} (h : e.Holds bits) :
    e.finish = pack bits := by
  obtain ⟨whole, part, rfl, hwhole, hpart, rfl⟩ := h
  rw [Emitter.finish, pack_append hwhole]
  dsimp only
  split
  · rename_i hsome
    rw [pack_of_length_le (List.ne_nil_of_length_pos hsome) (Nat.le_of_lt hpart)]
  · rename_i hnone
    obtain rfl := List.length_eq_zero_iff.mp (Nat.eq_zero_of_not_pos hnone)
    exact (List.append_nil _).symm

theorem holds_codes {codes : List (Nat × Nat)} (hcodes : ∀ c ∈ codes, c.1 < 2 ^ c.2) {e : Emitter}
    {bits : List Bool} (h : e.Holds bits) :
    (codes.foldl (fun e c => e.emit c.1 c.2) e).Holds (bits ++ codes.flatMap codeBits) := by
  induction codes generalizing e bits with
  | nil =>
    rw [List.flatMap_nil, List.append_nil]
    exact h
  | cons c codes ih =>
    obtain ⟨hc, hcodes⟩ := List.forall_mem_cons.mp hcodes
    rw [List.flatMap_cons, ← List.append_assoc]
    exact ih hcodes (holds_emit h hc)

/-- The bytes of a frame are those of its codes. -/
theorem lzw_eq {pixels : List UInt8} (h : ∀ c ∈ frameCodes pixels, c.1 < 2 ^ c.2) :
    lzw pixels = pack ((frameCodes pixels).flatMap codeBits) := by
  have hempty : (⟨[], 0, 0⟩ : Emitter).Holds [] := ⟨[], [], rfl, rfl, Nat.succ_pos 7, rfl⟩
  exact finish_of_holds (holds_codes h hempty)

/-! ## Sizes -/

/-- The size of a code where so many words were entered before it. -/
def width (k : Nat) : Nat :=
  if k < 255 then 9 else if k < 767 then 10 else if k < 1791 then 11 else 12

theorem width_cases (k : Nat) : k < 255 ∧ width k = 9 ∨ (255 ≤ k ∧ k < 767) ∧ width k = 10 ∨
    (767 ≤ k ∧ k < 1791) ∧ width k = 11 ∨ 1791 ≤ k ∧ width k = 12 := by
  rw [width]
  split_ifs <;> omega

theorem width_pos (k : Nat) : 0 < width k := by
  rcases width_cases k with hw | hw | hw | hw <;> omega

theorem room_width {k : Nat} (h : k ≤ 3838) : 258 + k ≤ 2 ^ width k := by
  rcases width_cases k with ⟨hk, hw⟩ | ⟨hk, hw⟩ | ⟨hk, hw⟩ | ⟨hk, hw⟩ <;> rw [hw] <;> omega

/-- The writer's next size. -/
theorem width_entered {k : Nat} (h : k < 3838) :
    (if 2 ^ width k < 258 + k + 1 ∧ width k < 12 then width k + 1 else width k) =
      width (k + 1) := by
  rcases width_cases k with ⟨hk, hw⟩ | ⟨hk, hw⟩ | ⟨hk, hw⟩ | ⟨hk, hw⟩ <;>
    rcases width_cases (k + 1) with ⟨hk', hw'⟩ | ⟨hk', hw'⟩ | ⟨hk', hw'⟩ | ⟨hk', hw'⟩ <;>
    rw [hw, hw'] <;> split_ifs <;> omega

theorem width_read {k : Nat} (h : k ≤ 3838) :
    (if 258 + k = 2 ^ width k ∧ width k < 12 then width k + 1 else width k) = width (k + 1) := by
  rcases width_cases k with ⟨hk, hw⟩ | ⟨hk, hw⟩ | ⟨hk, hw⟩ | ⟨hk, hw⟩ <;>
    rcases width_cases (k + 1) with ⟨hk', hw'⟩ | ⟨hk', hw'⟩ | ⟨hk', hw'⟩ | ⟨hk', hw'⟩ <;>
    rw [hw, hw'] <;> split_ifs <;> omega

theorem width_succ (k : Nat) : width (k + 1) = width k ∨ width (k + 1) = width k + 1 := by
  rcases width_cases k with ⟨hk, hw⟩ | ⟨hk, hw⟩ | ⟨hk, hw⟩ | ⟨hk, hw⟩ <;>
    rcases width_cases (k + 1) with ⟨hk', hw'⟩ | ⟨hk', hw'⟩ | ⟨hk', hw'⟩ | ⟨hk', hw'⟩ <;> omega

/-! ## The first table -/

theorem length_firstTable : firstTable.length = 258 := by
  rw [firstTable, List.length_append, List.length_map, List.length_range]
  rfl

theorem firstTable_symbol (b : UInt8) : firstTable[b.toNat]? = some [b] := by
  have hlt := b.toNat_lt
  rw [firstTable, List.getElem?_append_left (by simpa using hlt), List.getElem?_map,
    List.getElem?_range hlt, Option.map_some, UInt8.ofNat_toNat]

/-- Behind the symbols stand two empty words. -/
theorem firstTable_cases {code : Nat} {word : List UInt8} (h : firstTable[code]? = some word) :
    code < 256 ∧ word = [.ofNat code] ∨ word = [] := by
  rcases Nat.lt_or_ge code 256 with hlt | hge
  · have hsymbol := firstTable_symbol (.ofNat code)
    rw [UInt8.toNat_ofNat', Nat.mod_eq_of_lt hlt, h] at hsymbol
    exact Or.inl ⟨hlt, Option.some.inj hsymbol⟩
  · rw [firstTable, List.getElem?_append_right (by simpa using hge)] at h
    have hmem := List.mem_of_getElem? h
    exact Or.inr (by simpa using hmem)

theorem length_firstTable_le {word : List UInt8} (h : word ∈ firstTable) : word.length ≤ 1 := by
  obtain ⟨code, hcode⟩ := List.getElem?_of_mem h
  rcases firstTable_cases hcode with ⟨-, rfl⟩ | rfl
  · exact Nat.le_refl _
  · exact Nat.zero_le _

/-- With no word entered, nothing is found. -/
theorem names_first : Names (∅ : Map (Nat × UInt8) Nat).lookup firstTable := by
  refine Names.of_short (fun key => Finmap.lookup_empty key) (fun _ => length_firstTable_le) ?_
  intro c d word hne hc hd
  obtain ⟨hc, hcword⟩ := (firstTable_cases hc).resolve_right hne
  obtain ⟨hd, hdword⟩ := (firstTable_cases hd).resolve_right hne
  have hbyte := congrArg UInt8.toNat (List.singleton_inj.mp (hcword.symm.trans hdword))
  rwa [UInt8.toNat_ofNat', UInt8.toNat_ofNat', Nat.mod_eq_of_lt hc, Nat.mod_eq_of_lt hd] at hbyte

theorem mem_words_iff {dict : List (List UInt8)} {word : List UInt8} (hne : word ≠ [])
    (p : UInt8) : word ++ [p] ∈ firstTable ++ dict ↔ word ++ [p] ∈ dict := by
  rw [List.mem_append]
  refine ⟨fun h => h.resolve_left fun hfirst => ?_, Or.inr⟩
  have hlen := length_firstTable_le hfirst
  rw [List.length_append, List.length_singleton] at hlen
  have hpos := List.length_pos_of_ne_nil hne
  omega

/-! ## The writer -/

/-- The writer has entered these words, and this one is not out yet. -/
structure Coder.Tracks (c : Coder) (dict : List (List UInt8)) (word : List UInt8) : Prop where
  names : Names c.table.lookup (firstTable ++ dict)
  next : c.next = 258 + dict.length
  room : dict.length ≤ 3838
  size : c.size = width dict.length
  lead : (firstTable ++ dict)[c.lead]? = some word
  word : word ≠ []

theorem tracks_first (p : UInt8) : Coder.Tracks ⟨∅, endCode + 1, 9, p.toNat⟩ [] [p] where
  names := by
    rw [List.append_nil]
    exact names_first
  next := rfl
  room := Nat.zero_le _
  size := rfl
  lead := by
    rw [List.append_nil]
    exact firstTable_symbol p
  word := List.cons_ne_nil _ _

namespace Coder.Tracks

variable {c : Coder} {dict : List (List UInt8)} {word : List UInt8}

theorem length_words (h : c.Tracks dict word) : (firstTable ++ dict).length = c.next := by
  rw [List.length_append, length_firstTable, h.next]

/-- The code of a word fits its size, and is neither that of clearing nor that of the end. -/
theorem lead_spec (h : c.Tracks dict word) :
    c.lead < 2 ^ c.size ∧ c.lead ≠ clear ∧ c.lead ≠ endCode := by
  have hlt := (List.getElem?_eq_some_iff.mp h.lead).1
  have hroom := room_width h.room
  have hempty {code : Nat} (hcode : firstTable[code]? = some []) : c.lead ≠ code := by
    rintro rfl
    have hlead := h.lead
    rw [List.getElem?_append_left (List.getElem?_eq_some_iff.mp hcode).1, hcode] at hlead
    exact h.word (Option.some.inj hlead).symm
  refine ⟨?_, hempty (by decide +kernel), hempty (by decide +kernel)⟩
  rw [h.size]
  rw [List.length_append, length_firstTable] at hlt
  omega

/-- What is emitted at a pixel, and what the writer has then. -/
theorem step_cases (h : c.Tracks dict word) (p : UInt8) :
    (word ++ [p] ∈ dict ∧ ∃ c', c.step p = ([], c') ∧ c'.Tracks dict (word ++ [p])) ∨
    (word ++ [p] ∉ dict ∧ dict.length < 3838 ∧ ∃ c', c.step p = ([(c.lead, c.size)], c') ∧
      c'.Tracks (dict ++ [word ++ [p]]) [p]) ∨
    (word ++ [p] ∉ dict ∧ dict.length = 3838 ∧ ∃ c', c.step p =
      ([(c.lead, c.size), (clear, c.size)], c') ∧ c'.Tracks [] [p]) := by
  have hfound := h.names.isSome_iff h.word h.lead p
  rw [mem_words_iff h.word] at hfound
  rw [Coder.step]
  cases hlookup : c.table.lookup (c.lead, p) with
  | some code =>
    refine Or.inl ⟨hfound.mp ⟨code, hlookup⟩, _, rfl, { h with lead := ?_, word := ?_ }⟩
    · obtain ⟨other, -, hother, hcode⟩ := h.names.sound c.lead p code hlookup
      obtain rfl := Option.some.inj (h.lead.symm.trans hother)
      exact hcode
    · exact List.append_ne_nil_of_right_ne_nil _ (List.cons_ne_nil _ _)
  | none =>
    have hnew : word ++ [p] ∉ dict := by
      intro hmem
      obtain ⟨v, hv⟩ := hfound.mpr hmem
      rw [hlookup] at hv
      cases hv
    dsimp only
    by_cases hnext : c.next < 4096
    · rw [if_pos hnext]
      have hlt : dict.length < 3838 := by
        have hlen := h.next
        omega
      have hlen : (dict ++ [word ++ [p]]).length = dict.length + 1 := by
        rw [List.length_append, List.length_singleton]
      refine Or.inr (Or.inl ⟨hnew, hlt, _, rfl, ?_, ?_, ?_, ?_, ?_, List.cons_ne_nil _ _⟩)
      · rw [← List.append_assoc]
        refine h.names.concat h.word h.lead ?_ fun key => ?_
        · rwa [mem_words_iff h.word]
        · by_cases hkey : key = (c.lead, p)
          · rw [if_pos hkey, hkey, Finmap.lookup_insert, h.length_words]
          · rw [if_neg hkey, Finmap.lookup_insert_of_ne _ hkey]
      · rw [hlen, h.next, Nat.add_assoc]
      · rw [hlen]
        exact hlt
      · dsimp only
        rw [hlen, h.next, h.size]
        exact width_entered hlt
      · rw [List.getElem?_append_left (List.getElem?_eq_some_iff.mp (firstTable_symbol p)).1]
        exact firstTable_symbol p
    · rw [if_neg hnext]
      have hfull : dict.length = 3838 := by
        have hroom := h.room
        have hlen := h.next
        omega
      exact Or.inr (Or.inr ⟨hnew, hfull, _, rfl, tracks_first p⟩)

theorem codes_cases (h : c.Tracks dict word) (p : UInt8) (rest : List UInt8) :
    (word ++ [p] ∈ dict ∧ ∃ c' : Coder, c.codes (p :: rest) = c'.codes rest ∧
      c'.Tracks dict (word ++ [p])) ∨
    (word ++ [p] ∉ dict ∧ dict.length < 3838 ∧ ∃ c' : Coder, c.codes (p :: rest) =
      (c.lead, c.size) :: c'.codes rest ∧ c'.Tracks (dict ++ [word ++ [p]]) [p]) ∨
    (word ++ [p] ∉ dict ∧ dict.length = 3838 ∧ ∃ c' : Coder, c.codes (p :: rest) =
      (c.lead, c.size) :: (clear, c.size) :: c'.codes rest ∧ c'.Tracks [] [p]) := by
  rw [Coder.codes]
  rcases h.step_cases p with ⟨hmem, c', hstep, hc'⟩ | ⟨hnew, hlt, c', hstep, hc'⟩ |
    ⟨hnew, hfull, c', hstep, hc'⟩
  · exact Or.inl ⟨hmem, c', by rw [hstep]; rfl, hc'⟩
  · exact Or.inr (Or.inl ⟨hnew, hlt, c', by rw [hstep]; rfl, hc'⟩)
  · exact Or.inr (Or.inr ⟨hnew, hfull, c', by rw [hstep]; rfl, hc'⟩)

theorem length_codeBits (h : c.Tracks dict word) (code : Nat) :
    (codeBits (code, c.size)).length = width dict.length := by
  rw [codeBits, length_bitsOf, h.size]

end Coder.Tracks

/-! ## The reader -/

theorem readCode_append {size code : Nat} (h : code < 2 ^ size) (left : List Bool) :
    readCode size (bitsOf size code ++ left) = some (code, left) := by
  have hlen : size ≤ (bitsOf size code ++ left).length := by
    rw [List.length_append, length_bitsOf]
    omega
  rw [readCode, if_pos hlen, List.take_left' (length_bitsOf size code),
    List.drop_left' (length_bitsOf size code), ofBits_bitsOf, Nat.mod_eq_of_lt h]

section Steps

variable (fuel : Nat) {d : Decoder} (left : List Bool)

theorem unlzwFrom_code {code : Nat} (h : code < 2 ^ d.size) (hclear : code ≠ clear)
    (hend : code ≠ endCode) {word : List UInt8} (hentry : d.entry code = some word) :
    unlzwFrom (fuel + 1) d (codeBits (code, d.size) ++ left) =
      unlzwFrom fuel (d.enter word) left := by
  rw [unlzwFrom, codeBits, readCode_append h]
  show (if code = clear then _ else if code = endCode then _ else _) = _
  rw [if_neg hclear, if_neg hend, hentry]
  rfl

theorem unlzwFrom_clear (h : clear < 2 ^ d.size) :
    unlzwFrom (fuel + 1) d (codeBits (clear, d.size) ++ left) =
      unlzwFrom fuel ⟨d.out, firstTable, 9, none⟩ left := by
  rw [unlzwFrom, codeBits, readCode_append h]
  rfl

theorem unlzwFrom_end (h : endCode < 2 ^ d.size) :
    unlzwFrom (fuel + 1) d (codeBits (endCode, d.size) ++ left) = some d.out := by
  rw [unlzwFrom, codeBits, readCode_append h]
  rfl

theorem unlzwFrom_late_end {size : Nat} (h : endCode < 2 ^ size) (hsize : d.size = size + 1)
    (pad : Nat) :
    unlzwFrom (fuel + 1) d (codeBits (endCode, size) ++ List.replicate pad false) =
      if pad = 0 then none else some d.out := by
  cases pad with
  | zero =>
    rw [unlzwFrom, readCode, if_neg]
    · rfl
    · rw [codeBits, List.replicate_zero, List.append_nil, length_bitsOf, hsize]
      exact Nat.not_succ_le_self size
  | succ pad =>
    have hbit : endCode.testBit size = false := Nat.testBit_lt_two_pow h
    have hbits : codeBits (endCode, size) ++ List.replicate (pad + 1) false =
        codeBits (endCode, d.size) ++ List.replicate pad false := by
      rw [codeBits, codeBits, hsize, bitsOf, bitsOf, List.range_succ, List.map_append,
        List.map_singleton, hbit, List.append_assoc, List.replicate_succ]
      rfl
    have hlt : endCode < 2 ^ d.size := by
      rw [hsize, Nat.pow_succ]
      omega
    rw [hbits, unlzwFrom_end fuel _ hlt, if_neg (Nat.succ_ne_zero pad)]

end Steps

/-- The reader has entered these words but the last, which begins with the word before this one. -/
structure Decoder.Follows (d : Decoder) (dict : List (List UInt8)) (word : List UInt8) : Prop where
  size : d.size = width dict.length
  table : dict = [] ∧ d.table = firstTable ∧ d.previous = none ∨
    ∃ before previous, dict = before ++ [previous ++ word.take 1] ∧ previous ≠ [] ∧
      d.table = firstTable ++ before ∧ d.previous = some previous

namespace Decoder.Follows

variable {d : Decoder} {dict : List (List UInt8)} {word : List UInt8}

/-- A longer word begins with the same symbol. -/
theorem grow (h : d.Follows dict word) (hne : word ≠ []) (p : UInt8) :
    d.Follows dict (word ++ [p]) := by
  refine ⟨h.size, ?_⟩
  rw [List.take_append_of_le_length (List.length_pos_of_ne_nil hne)]
  exact h.table

theorem entry_eq (h : d.Follows dict word) {code : Nat}
    (hcode : (firstTable ++ dict)[code]? = some word) : d.entry code = some word := by
  obtain ⟨-, ⟨rfl, htable, -⟩ | ⟨before, previous, rfl, hne, htable, hprevious⟩⟩ := h
  · rw [List.append_nil, ← htable] at hcode
    rw [Decoder.entry, hcode]
  · rw [← List.append_assoc, ← htable] at hcode
    have hlate := late_entry hne hcode
    rw [Decoder.entry, hprevious]
    cases hfound : d.table[code]? with
    | some entry =>
      rw [hfound] at hlate
      exact congrArg some hlate
    | none =>
      rw [hfound] at hlate
      exact congrArg some hlate

theorem enter_eq (h : d.Follows dict word) (hroom : dict.length ≤ 3838) :
    d.enter word = ⟨d.out ++ word, firstTable ++ dict, width (dict.length + 1), some word⟩ := by
  obtain ⟨hsize, ⟨rfl, htable, hprevious⟩ | ⟨before, previous, rfl, -, htable, hprevious⟩⟩ := h
  · rw [Decoder.enter, hprevious]
    dsimp only
    rw [htable, hsize, List.append_nil]
    rfl
  · have hlong : d.table.length = 258 + before.length := by
      rw [htable, List.length_append, length_firstTable]
    have hnext := width_read hroom
    rw [List.length_append, List.length_singleton] at hroom hsize hnext
    have hadded : (d.table ++ [previous ++ word.take 1]).length = 258 + (before.length + 1) := by
      rw [List.length_append, hlong, List.length_singleton, Nat.add_assoc]
    rw [Decoder.enter, hprevious]
    dsimp only
    rw [if_pos (by rw [hlong]; omega), hadded, hsize, hnext, htable, List.length_append,
      List.length_singleton, List.append_assoc]

theorem entered (out : List UInt8) {dict : List (List UInt8)} {word : List UInt8} (hne : word ≠ [])
    (p : UInt8) :
    Decoder.Follows ⟨out, firstTable ++ dict, width (dict.length + 1), some word⟩
      (dict ++ [word ++ [p]]) [p] where
  size := by rw [List.length_append, List.length_singleton]
  table := Or.inr ⟨dict, word, rfl, hne, rfl, rfl⟩

theorem first (out : List UInt8) (word : List UInt8) :
    Decoder.Follows ⟨out, firstTable, 9, none⟩ [] word where
  size := rfl
  table := Or.inl ⟨rfl, rfl, rfl⟩

end Decoder.Follows

/-! ## A whole frame -/

/-- The phrases of the pixels that are left, with the writer's table. -/
abbrev phrasesFrom (dict : List (List UInt8)) (word rest : List UInt8) : List (List UInt8) :=
  phrases 3838 dict word rest

/-- How many words were entered before the last of so many codes, from a table of `k` words on. -/
def lastWords (k codes : Nat) : Nat := (k + codes - 1) % 3839

section Frame

variable {c : Coder} {dict : List (List UInt8)} {word : List UInt8}

theorem lastWords_entered {k codes : Nat} (hcodes : 0 < codes) :
    lastWords k (codes + 1) = lastWords (k + 1) codes := by
  rw [lastWords, lastWords]
  congr 1
  omega

theorem lastWords_cleared {codes : Nat} (hcodes : 0 < codes) :
    lastWords 3838 (codes + 1) = lastWords 0 codes := by
  rw [lastWords, lastWords]
  omega

/-- The reader that follows reads the word that is not out yet. -/
theorem unlzwFrom_lead (hc : c.Tracks dict word) {d : Decoder} (hd : d.Follows dict word)
    (fuel : Nat) (left : List Bool) :
    unlzwFrom (fuel + 1) d (codeBits (c.lead, c.size) ++ left) =
      unlzwFrom fuel ⟨d.out ++ word, firstTable ++ dict, width (dict.length + 1), some word⟩
        left := by
  obtain ⟨hlead, hclear, hend⟩ := hc.lead_spec
  have hsize : c.size = d.size := hc.size.trans hd.size.symm
  rw [hsize] at hlead ⊢
  rw [unlzwFrom_code fuel left hlead hclear hend (hd.entry_eq hc.lead), hd.enter_eq hc.room]

/-- At the end the reader may be a size ahead. -/
theorem unlzwFrom_last (hc : c.Tracks dict word) (fuel : Nat) (out : List UInt8)
    (table : List (List UInt8)) (pad : Nat) :
    unlzwFrom (fuel + 1) ⟨out, table, width (dict.length + 1), some word⟩
        (codeBits (endCode, c.size) ++ List.replicate pad false) =
      if pad = 0 ∧ width (dict.length + 1) ≠ width dict.length then none else some out := by
  have hroom := room_width hc.room
  have hlt : endCode < 2 ^ width dict.length := by
    rw [endCode]
    omega
  rw [hc.size]
  rcases width_succ dict.length with hsame | hnext
  · rw [if_neg fun hboth => hboth.2 hsame, hsame]
    exact unlzwFrom_end fuel _ hlt
  · have hne : width (dict.length + 1) ≠ width dict.length := by omega
    rw [if_congr (and_iff_left hne) rfl rfl]
    exact unlzwFrom_late_end fuel hlt hnext pad

/-- The codes of the pixels that are left are read by the reader that follows, unless it looks for
the last bit of the end code where there is none. -/
theorem unlzwFrom_codes (hc : c.Tracks dict word) {d : Decoder} (hd : d.Follows dict word)
    (rest : List UInt8) (pad : Nat) {fuel : Nat}
    (hfuel : ((c.codes rest).flatMap codeBits).length < fuel) :
    unlzwFrom fuel d ((c.codes rest).flatMap codeBits ++ List.replicate pad false) =
      if pad = 0 ∧ width (lastWords dict.length (phrasesFrom dict word rest).length + 1) ≠
          width (lastWords dict.length (phrasesFrom dict word rest).length)
        then none else some (d.out ++ word ++ rest) := by
  induction rest generalizing c dict word d fuel with
  | nil =>
    have hlast : lastWords dict.length (phrasesFrom dict word []).length = dict.length :=
      Nat.mod_eq_of_lt (Nat.lt_succ_of_le hc.room)
    rw [Coder.codes, List.flatMap_cons, List.flatMap_singleton] at hfuel ⊢
    rw [List.length_append, hc.length_codeBits, hc.length_codeBits] at hfuel
    obtain ⟨fuel, rfl⟩ : ∃ f, fuel = f + 2 := by
      have hpos := width_pos dict.length
      exact ⟨fuel - 2, by omega⟩
    rw [hlast, List.append_assoc, unlzwFrom_lead hc hd, unlzwFrom_last hc, List.append_nil]
  | cons p rest ih =>
    have hlong (dict : List (List UInt8)) := length_phrases_pos 3838 dict
    rcases hc.codes_cases p rest with ⟨hmem, c', hcodes, hc'⟩ | ⟨hnew, hlt, c', hcodes, hc'⟩ |
      ⟨hnew, hfull, c', hcodes, hc'⟩
    · rw [hcodes] at hfuel ⊢
      have hread := ih hc' (hd.grow hc.word p) hfuel
      rw [phrasesFrom, phrases, if_pos hmem, hread, ← List.append_assoc, ← List.append_cons]
    · rw [hcodes, List.flatMap_cons] at hfuel ⊢
      rw [List.length_append, hc.length_codeBits] at hfuel
      obtain ⟨fuel, rfl⟩ : ∃ f, fuel = f + 1 := ⟨fuel - 1, by omega⟩
      have hpos := width_pos dict.length
      have hread := ih hc' (Decoder.Follows.entered (d.out ++ word) hc.word p)
        (Nat.lt_of_succ_lt_succ (Nat.lt_of_le_of_lt (by omega) hfuel))
      rw [List.length_append, List.length_singleton] at hread
      rw [phrasesFrom, phrases, if_neg hnew, if_pos hlt, List.length_cons,
        lastWords_entered (hlong _ _ rest), List.append_assoc, unlzwFrom_lead hc hd, hread,
        List.append_assoc (d.out ++ word)]
      rfl
    · rw [hcodes, List.flatMap_cons, List.flatMap_cons] at hfuel ⊢
      rw [List.length_append, List.length_append, hc.length_codeBits, hc.length_codeBits] at hfuel
      have hpos := width_pos dict.length
      obtain ⟨fuel, rfl⟩ : ∃ f, fuel = f + 2 := ⟨fuel - 2, by omega⟩
      have hread := ih hc' (Decoder.Follows.first (d.out ++ word) [p])
        (Nat.lt_of_succ_lt_succ (Nat.lt_of_succ_lt_succ (Nat.lt_of_le_of_lt (by omega) hfuel)))
      have hnoroom : ¬ dict.length < 3838 := by omega
      have hsize : c.size = width (dict.length + 1) := by
        rw [hc.size, hfull]
        rfl
      have hclears := unlzwFrom_clear fuel (d := ⟨d.out ++ word, firstTable ++ dict,
        width (dict.length + 1), some word⟩) ((c'.codes rest).flatMap codeBits ++
          List.replicate pad false) (by rw [hfull]; exact (by decide : clear < 2 ^ 12))
      rw [phrasesFrom, phrases, if_neg hnew, if_neg hnoroom, List.length_cons, hfull,
        lastWords_cleared (hlong _ _ rest), List.append_assoc, List.append_assoc,
        unlzwFrom_lead hc hd, hsize, hclears, hread, List.append_assoc (d.out ++ word)]
      rfl

end Frame

/-! ## Its bits -/

/-- The bits of the first `k` codes of a table. -/
def tableBits (k : Nat) : Nat :=
  if k ≤ 255 then 9 * k
  else if k ≤ 767 then 2295 + 10 * (k - 255)
  else if k ≤ 1791 then 7415 + 11 * (k - 767)
  else 18679 + 12 * (k - 1791)

theorem tableBits_succ (k : Nat) : tableBits (k + 1) = tableBits k + width k := by
  rw [tableBits, tableBits, width]
  split_ifs <;> omega

/-- The bits before the code that so many codes precede, where a full table takes 43267 bits. -/
def bitsBefore (codes : Nat) : Nat := 43267 * (codes / 3839) + tableBits (codes % 3839)

theorem bitsBefore_small {k : Nat} (h : k ≤ 3838) : bitsBefore k = tableBits k := by
  have hdiv : k / 3839 = 0 := by omega
  have hmod : k % 3839 = k := by omega
  rw [bitsBefore, hdiv, hmod, Nat.mul_zero, Nat.zero_add]

theorem bitsBefore_full (codes : Nat) : bitsBefore (3839 + codes) = 43267 + bitsBefore codes := by
  have hdiv : (3839 + codes) / 3839 = codes / 3839 + 1 := by omega
  have hmod : (3839 + codes) % 3839 = codes % 3839 := by omega
  rw [bitsBefore, bitsBefore, hdiv, hmod]
  omega

/-- The bits of the codes of the pixels that are left. -/
theorem length_codes {c : Coder} {dict : List (List UInt8)} {word : List UInt8}
    (hc : c.Tracks dict word) (rest : List UInt8) :
    ((c.codes rest).flatMap codeBits).length + tableBits dict.length =
      bitsBefore (dict.length + (phrasesFrom dict word rest).length - 1) +
        2 * width (lastWords dict.length (phrasesFrom dict word rest).length) := by
  induction rest generalizing c dict word with
  | nil =>
    have hroom := hc.room
    have hlast : lastWords dict.length (phrasesFrom dict word []).length = dict.length :=
      Nat.mod_eq_of_lt (Nat.lt_succ_of_le hroom)
    have hbefore : bitsBefore (dict.length + (phrasesFrom dict word []).length - 1) =
        tableBits dict.length := bitsBefore_small hroom
    rw [Coder.codes, List.flatMap_cons, List.flatMap_singleton, List.length_append,
      hc.length_codeBits, hc.length_codeBits, hlast, hbefore]
    omega
  | cons p rest ih =>
    have hlong (dict : List (List UInt8)) : 0 < (phrasesFrom dict [p] rest).length :=
      length_phrases_pos 3838 dict [p] rest
    rcases hc.codes_cases p rest with ⟨hmem, c', hcodes, hc'⟩ | ⟨hnew, hlt, c', hcodes, hc'⟩ |
      ⟨hnew, hfull, c', hcodes, hc'⟩
    · rw [hcodes, phrasesFrom, phrases, if_pos hmem]
      exact ih hc'
    · have hrest := ih hc'
      rw [List.length_append, List.length_singleton, tableBits_succ] at hrest
      have hcount : dict.length + ((phrasesFrom (dict ++ [word ++ [p]]) [p] rest).length + 1) - 1 =
          dict.length + 1 + (phrasesFrom (dict ++ [word ++ [p]]) [p] rest).length - 1 := by
        omega
      rw [hcodes, List.flatMap_cons, List.length_append, hc.length_codeBits, phrasesFrom, phrases,
        if_neg hnew, if_pos hlt, List.length_cons, lastWords_entered (hlong _), hcount, ← hrest]
      omega
    · have hrest := ih hc'
      have hnoroom : ¬ dict.length < 3838 := by omega
      have hpos := hlong []
      have hcount : 3838 + ((phrasesFrom [] [p] rest).length + 1) - 1 =
          3839 + (0 + (phrasesFrom [] [p] rest).length - 1) := by
        omega
      rw [hcodes, List.flatMap_cons, List.flatMap_cons, List.length_append, List.length_append,
        hc.length_codeBits, hc.length_codeBits, phrasesFrom, phrases, if_neg hnew, if_neg hnoroom,
        List.length_cons, hfull, lastWords_cleared hpos, hcount, bitsBefore_full]
      have hwide : width 3838 = 12 := rfl
      have hnone : tableBits 0 = 0 := rfl
      have htable : tableBits 3838 = 43243 := rfl
      rw [List.length_nil, hnone] at hrest
      rw [hwide, htable]
      omega

/-- The end code is the last of the file's bits, and read a bit longer than it was written. It takes
so many codes: as many as enter the last word of a size, behind as many full tables as let them end
with a byte. -/
def EndsFlush (codes : Nat) : Prop :=
  codes % 3839 = 255 ∧ codes / 3839 % 8 = 5 ∨ codes % 3839 = 767 ∧ codes / 3839 % 8 = 2 ∨
    codes % 3839 = 1791 ∧ codes / 3839 % 8 = 7

instance (codes : Nat) : Decidable (EndsFlush codes) := by
  unfold EndsFlush
  infer_instance

theorem endsFlush_iff {codes : Nat} (h : 0 < codes) : EndsFlush codes ↔
    (9 + (bitsBefore (codes - 1) + 2 * width (lastWords 0 codes))) % 8 = 0 ∧
      width (lastWords 0 codes + 1) ≠ width (lastWords 0 codes) := by
  obtain ⟨r, k, hk, rfl⟩ : ∃ r k, k < 3839 ∧ codes = 3839 * r + k + 1 :=
    ⟨(codes - 1) / 3839, (codes - 1) % 3839, by omega, by omega⟩
  have hlast : lastWords 0 (3839 * r + k + 1) = k := by
    rw [lastWords]
    omega
  have hdiv : (3839 * r + k + 1 - 1) / 3839 = r := by omega
  have hmod : (3839 * r + k + 1 - 1) % 3839 = k := by omega
  rw [hlast, bitsBefore, hdiv, hmod]
  -- only behind the last word of a size is the next one longer
  by_cases hsize : k = 254 ∨ k = 766 ∨ k = 1790
  · have hsizes : (k = 254 ∧ width k = 9 ∧ width (k + 1) = 10 ∧ tableBits k = 2286) ∨
        (k = 766 ∧ width k = 10 ∧ width (k + 1) = 11 ∧ tableBits k = 7405) ∨
          (k = 1790 ∧ width k = 11 ∧ width (k + 1) = 12 ∧ tableBits k = 18668) := by
      rcases hsize with rfl | rfl | rfl <;> decide
    have hfull : (3839 * r + k + 1) / 3839 = r := by omega
    have hpart : (3839 * r + k + 1) % 3839 = k + 1 := by omega
    rw [EndsFlush, hfull, hpart]
    rcases hsizes with ⟨rfl, hw, hw', ht⟩ | ⟨rfl, hw, hw', ht⟩ | ⟨rfl, hw, hw', ht⟩
    · rw [hw, hw', ht]
      omega
    · rw [hw, hw', ht]
      omega
    · rw [hw, hw', ht]
      omega
  · have hsame : width (k + 1) = width k := by
      rcases width_cases k with ⟨hk', hw⟩ | ⟨hk', hw⟩ | ⟨hk', hw⟩ | ⟨hk', hw⟩ <;>
        rcases width_cases (k + 1) with ⟨hn, hw'⟩ | ⟨hn, hw'⟩ | ⟨hn, hw'⟩ | ⟨hn, hw'⟩ <;> omega
    refine iff_of_false ?_ fun hboth => hboth.2 hsame
    rw [EndsFlush]
    omega

/-! ## The bytes of a frame -/

theorem fits_codes {c : Coder} {dict : List (List UInt8)} {word : List UInt8}
    (hc : c.Tracks dict word) (rest : List UInt8) : ∀ code ∈ c.codes rest, code.1 < 2 ^ code.2 := by
  induction rest generalizing c dict word with
  | nil =>
    have hroom := room_width hc.room
    have hend : endCode < 2 ^ c.size := by
      rw [hc.size, endCode]
      omega
    exact List.forall_mem_cons.mpr ⟨hc.lead_spec.1, List.forall_mem_singleton.mpr hend⟩
  | cons p rest ih =>
    have hclear : clear < 2 ^ c.size := by
      have hroom := room_width hc.room
      rw [hc.size, clear]
      omega
    rcases hc.codes_cases p rest with ⟨-, c', hcodes, hc'⟩ | ⟨-, -, c', hcodes, hc'⟩ |
      ⟨-, -, c', hcodes, hc'⟩
    · rw [hcodes]
      exact ih hc'
    · rw [hcodes]
      exact List.forall_mem_cons.mpr ⟨hc.lead_spec.1, ih hc'⟩
    · rw [hcodes]
      exact List.forall_mem_cons.mpr ⟨hc.lead_spec.1, List.forall_mem_cons.mpr ⟨hclear, ih hc'⟩⟩

/-- A frame is read back unless its end code is read past the end of its bytes. -/
theorem unlzw_lzw (pixels : List UInt8) :
    unlzw (lzw pixels) = if EndsFlush (phraseCount 3838 pixels) then none else some pixels := by
  cases pixels with
  | nil => decide +kernel
  | cons first rest =>
    have hc := tracks_first first
    have hlong := length_phrases_pos 3838 [] [first] rest
    have hfits : ∀ code ∈ frameCodes (first :: rest), code.1 < 2 ^ code.2 :=
      List.forall_mem_cons.mpr ⟨by decide, fits_codes hc rest⟩
    have hbits := length_codes hc rest
    have hnone : tableBits 0 = 0 := rfl
    rw [List.length_nil, hnone, Nat.add_zero, Nat.zero_add] at hbits
    have hbytes : lzw (first :: rest) = pack (codeBits (clear, 9) ++
        (Coder.codes ⟨∅, endCode + 1, 9, first.toNat⟩ rest).flatMap codeBits) := lzw_eq hfits
    generalize hbody : (Coder.codes ⟨∅, endCode + 1, 9, first.toNat⟩ rest).flatMap codeBits = body
      at hbits hbytes
    have hlen : (codeBits (clear, 9) ++ body).length = 9 + body.length := by
      rw [List.length_append, codeBits, length_bitsOf]
    have hfuel : body.length < 8 * ((9 + body.length + 7) / 8) := by omega
    have hread (pad : Nat) := unlzwFrom_codes hc (Decoder.Follows.first [] [first]) rest pad
      (hbody ▸ hfuel)
    rw [hbody] at hread
    have hclears (left : List Bool) := unlzwFrom_clear (8 * ((9 + body.length + 7) / 8)) left
      (d := ⟨[], firstTable, 9, none⟩) (by decide)
    rw [unlzw, hbytes, unpack_pack, length_pack, hlen, List.append_assoc, hclears, hread]
    refine if_congr ?_ rfl rfl
    rw [phraseCount, endsFlush_iff hlong, ← hbits, List.length_nil]
    exact and_congr_left fun _ => by omega

end CommandCenter.Formats.Gif
