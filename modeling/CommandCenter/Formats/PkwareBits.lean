import CommandCenter.Formats.Pkware

/-!
# Reading the bits of a PKWARE stream

The bits that a `Bits` has yet to give are those in its buffer and then those of the bytes that it has
not reached. `Decodes x W` says that the reader `x` never panics, that it reads a value from any bits
that begin with bits of it, and that what it reads is such a value; `W` says what the bits of a value
are.

* `decodes_take`: some bits.
* `decodes_decode`: the code of a symbol.
-/

namespace CommandCenter.Formats.Pkware

open Rust Library

def Bits.left (b : Bits) : List Bool := bitsOf b.cnt b.buf ++ unpack (b.src.drop b.pos)

/-- Less than a byte is in the buffer, and nothing above it. -/
structure Bits.Ok (b : Bits) : Prop where
  buf_lt : b.buf < 2 ^ b.cnt
  cnt_lt : b.cnt < 8

/-- A reader of what `W` writes. -/
structure Decodes {α : Type} (x : BitReader α) (W : α → List Bool → Prop) : Prop where
  total : ∀ {b}, b.Ok → x b ≠ none
  reads : ∀ {b a w rest}, b.Ok → W a w → b.left = w ++ rest →
    ∃ b', b'.Ok ∧ b'.left = rest ∧ x b = some (.ok (a, b'))
  exact : ∀ {b a b'}, b.Ok → x b = some (.ok (a, b')) →
    b'.Ok ∧ ∃ w, W a w ∧ b.left = w ++ b'.left

namespace Decodes

variable {α β : Type} {x : BitReader α} {f : α → BitReader β} {W : α → List Bool → Prop}
  {V : α → β → List Bool → Prop}

theorem pure (a : α) : Decodes (Pure.pure a) fun value w => value = a ∧ w = [] := by
  refine ⟨fun _ => Option.some_ne_none _, ?_, ?_⟩
  · rintro b _ _ rest hok ⟨rfl, rfl⟩ hleft
    exact ⟨b, hok, hleft, rfl⟩
  · intro b value b' hok h
    obtain ⟨rfl, rfl⟩ := Prod.mk.inj (Except.ok.inj (Option.some.inj h))
    exact ⟨hok, [], ⟨rfl, rfl⟩, rfl⟩

theorem throw (e : Error) : Decodes (throw e : BitReader α) fun _ _ => False := by
  refine ⟨fun _ => Option.some_ne_none _, fun _ h => h.elim, ?_⟩
  intro b a b' _ h
  cases Option.some.inj h

/-- One reader after another. -/
theorem bind (hx : Decodes x W) (hf : ∀ a w, W a w → Decodes (f a) (V a)) :
    Decodes (x >>= f) fun value w => ∃ a u v, W a u ∧ V a value v ∧ w = u ++ v := by
  have hbind : ∀ b, (x >>= f) b = (x b >>= fun r => f r.1 r.2 : Checked Error (β × Bits)) :=
    fun _ => rfl
  constructor
  · intro b hok
    rw [hbind]
    refine Checked.bind_ne_none.mpr ⟨hx.total hok, fun r hr => ?_⟩
    obtain ⟨hok', w, hw, _⟩ := hx.exact hok hr
    exact (hf r.1 w hw).total hok'
  · rintro b value _ rest hok ⟨a, u, v, hu, hv, rfl⟩ hleft
    rw [List.append_assoc] at hleft
    obtain ⟨b', hok', hleft', hfirst⟩ := hx.reads hok hu hleft
    obtain ⟨b'', hok'', hleft'', hsecond⟩ := (hf a u hu).reads hok' hv hleft'
    refine ⟨b'', hok'', hleft'', ?_⟩
    rw [hbind]
    exact Checked.bind_eq_ok.mpr ⟨(a, b'), hfirst, hsecond⟩
  · intro b value b'' hok h
    rw [hbind] at h
    obtain ⟨⟨a, b'⟩, hfirst, hsecond⟩ := Checked.bind_eq_ok.mp h
    obtain ⟨hok', u, hu, hleft⟩ := hx.exact hok hfirst
    obtain ⟨hok'', v, hv, hleft'⟩ := (hf a u hu).exact hok' hsecond
    refine ⟨hok'', u ++ v, ⟨a, u, v, hu, hv, rfl⟩, ?_⟩
    rw [hleft, hleft', List.append_assoc]

/-- The same bits, said in another way. -/
theorem congr {W' : α → List Bool → Prop} (hx : Decodes x W) (h : ∀ a w, W a w ↔ W' a w) :
    Decodes x W' := by
  refine ⟨hx.total, fun hok hw hleft => hx.reads hok ((h _ _).mpr hw) hleft, ?_⟩
  intro b a b' hok hread
  obtain ⟨hok', w, hw, hleft⟩ := hx.exact hok hread
  exact ⟨hok', w, (h _ _).mp hw, hleft⟩

theorem bind_value {P : Prop} {a : α} {V : β → List Bool → Prop}
    (hx : Decodes x fun value w => P ∧ value = a ∧ w = []) (hf : P → Decodes (f a) V) :
    Decodes (x >>= f) fun value w => P ∧ V value w := by
  have hrest : ∀ value (w : List Bool), (P ∧ value = a ∧ w = []) → Decodes (f value) V := by
    rintro _ _ ⟨hP, rfl, rfl⟩
    exact hf hP
  refine (hx.bind hrest).congr fun b w => ?_
  constructor
  · rintro ⟨_, _, v, ⟨hP, rfl, rfl⟩, hv, rfl⟩
    exact ⟨hP, hv⟩
  · rintro ⟨hP, hw⟩
    exact ⟨a, [], w, ⟨hP, rfl, rfl⟩, hw, rfl⟩

/-- A value that is there. -/
theorem orPanic {value : Option α} {a : α} (h : value = some a) :
    Decodes (Pkware.orPanic value) fun value w => value = a ∧ w = [] := by
  subst h
  exact Decodes.pure a

end Decodes

/-! ## Some bits -/

/-- A byte is added above the bits of the buffer. -/
theorem buf_fill {buf cnt : Nat} (hbuf : buf < 2 ^ cnt) (hcnt : cnt < 8) (byte : UInt8) :
    buf ||| byte.toNat <<< cnt % 2 ^ 32 = 2 ^ cnt * byte.toNat + buf := by
  have hbyte := byte.toNat_lt
  have hpow : 2 ^ cnt ≤ 2 ^ 7 := Nat.pow_le_pow_right (by omega) (by omega)
  have hsmall : byte.toNat * 2 ^ cnt < 2 ^ 32 := by
    calc byte.toNat * 2 ^ cnt ≤ 2 ^ 8 * 2 ^ 7 := Nat.mul_le_mul (Nat.le_of_lt hbyte) hpow
      _ < 2 ^ 32 := by omega
  rw [Nat.shiftLeft_eq, Nat.mod_eq_of_lt hsmall, Nat.or_comm, Nat.mul_comm,
    Nat.two_pow_add_eq_or_of_lt hbuf]

theorem fill_of_le {b : Bits} {need : Nat} (h : need ≤ b.cnt) : b.fill need = some (.ok b) := by
  rw [Bits.fill, if_pos h]
  rfl

theorem fill_of_byte {b : Bits} {need : Nat} (hok : b.Ok) (h : b.cnt < need) (hneed : need ≤ 8)
    {byte : UInt8} (hbyte : b.src[b.pos]? = some byte) :
    b.fill need = some (.ok ⟨b.src, b.pos + 1, 2 ^ b.cnt * byte.toNat + b.buf, b.cnt + 8⟩) := by
  have hlast : need ≤ b.cnt + 8 := by omega
  rw [Bits.fill, if_neg (Nat.not_le.mpr h), hbyte]
  show Bits.fill need ⟨b.src, b.pos + 1, b.buf ||| byte.toNat <<< b.cnt % 2 ^ 32, b.cnt + 8⟩ = _
  rw [fill_of_le hlast, buf_fill hok.buf_lt hok.cnt_lt]

theorem fill_spec {b : Bits} (hok : b.Ok) {need : Nat} (hneed : need ≤ 8) :
    (b.left.length < need ∧ b.fill need = some (.error .truncated)) ∨
      ∃ b', b.fill need = some (.ok b') ∧ need ≤ b'.cnt ∧ b'.cnt < need + 8 ∧
        b'.buf < 2 ^ b'.cnt ∧ b'.left = b.left := by
  have hcnt := hok.cnt_lt
  by_cases henough : need ≤ b.cnt
  · exact .inr ⟨b, fill_of_le henough, henough, by omega, hok.buf_lt, rfl⟩
  · cases hbyte : b.src[b.pos]? with
    | none =>
      refine .inl ⟨?_, ?_⟩
      · have hnone := List.drop_eq_nil_of_le (List.getElem?_eq_none_iff.mp hbyte)
        rw [Bits.left, hnone, List.length_append, length_bitsOf]
        show b.cnt + 0 < need
        omega
      · rw [Bits.fill, if_neg henough, hbyte]
        rfl
    | some byte =>
      obtain ⟨hpos, hget⟩ := List.getElem?_eq_some_iff.mp hbyte
      refine .inr ⟨_, fill_of_byte hok (Nat.lt_of_not_le henough) hneed hbyte, ?_, ?_, ?_, ?_⟩
      · show need ≤ b.cnt + 8
        omega
      · show b.cnt + 8 < need + 8
        omega
      · have hbuf := hok.buf_lt
        have hbyteLt := byte.toNat_lt
        show 2 ^ b.cnt * byte.toNat + b.buf < 2 ^ (b.cnt + 8)
        calc 2 ^ b.cnt * byte.toNat + b.buf < 2 ^ b.cnt * byte.toNat + 2 ^ b.cnt := by omega
          _ = 2 ^ b.cnt * (byte.toNat + 1) := by ring
          _ ≤ 2 ^ b.cnt * 2 ^ 8 := Nat.mul_le_mul_left _ hbyteLt
          _ = 2 ^ (b.cnt + 8) := by ring
      · have hlow : bitsOf b.cnt (2 ^ b.cnt * byte.toNat + b.buf) = bitsOf b.cnt b.buf := by
          rw [← bitsOf_mod b.cnt, Nat.mul_add_mod, bitsOf_mod]
        have hhigh : (2 ^ b.cnt * byte.toNat + b.buf) / 2 ^ b.cnt = byte.toNat := by
          rw [Nat.mul_add_div (Nat.two_pow_pos _), Nat.div_eq_of_lt hok.buf_lt, Nat.add_zero]
        have hdrop : b.src.drop b.pos = byte :: b.src.drop (b.pos + 1) := by
          rw [← hget]
          exact List.drop_eq_getElem_cons hpos
        rw [Bits.left, Bits.left, bitsOf_add, hlow, hhigh, hdrop, List.append_assoc]
        rfl

theorem take_spec {b : Bits} (hok : b.Ok) {need : Nat} (hneed : need ≤ 8) :
    (b.left.length < need ∧ take need b = some (.error .truncated)) ∨
      ∃ v b', take need b = some (.ok (v, b')) ∧ b'.Ok ∧ v < 2 ^ need ∧
        b.left = bitsOf need v ++ b'.left := by
  unfold take
  by_cases hzero : need = 0
  · subst hzero
    exact .inr ⟨0, b, rfl, hok, Nat.one_pos, rfl⟩
  · rw [if_neg hzero]
    rcases fill_spec hok hneed with ⟨hshort, hfill⟩ | ⟨b', hfill, hle, hlt, hbuf, hleft⟩
    · refine .inl ⟨hshort, ?_⟩
      rw [hfill]
      rfl
    · right
      rw [hfill]
      refine ⟨_, _, rfl, ⟨?_, ?_⟩, ?_, ?_⟩
      · show b'.buf >>> need < 2 ^ (b'.cnt - need)
        rw [Nat.shiftRight_eq_div_pow]
        apply Nat.div_lt_of_lt_mul
        rwa [← Nat.pow_add, Nat.add_sub_cancel' hle]
      · show b'.cnt - need < 8
        omega
      · rw [Nat.one_shiftLeft, Nat.and_two_pow_sub_one_eq_mod]
        exact Nat.mod_lt _ (Nat.two_pow_pos need)
      · have hcnt : b'.cnt = need + (b'.cnt - need) := by omega
        rw [← hleft, Bits.left, Bits.left, Nat.one_shiftLeft, Nat.and_two_pow_sub_one_eq_mod,
          bitsOf_mod, Nat.shiftRight_eq_div_pow, ← List.append_assoc, ← bitsOf_add, ← hcnt]

theorem decodes_take {need : Nat} (hneed : need ≤ 8) :
    Decodes (take need) fun v w => v < 2 ^ need ∧ w = bitsOf need v := by
  constructor
  · intro b hok
    rcases take_spec hok hneed with ⟨_, h⟩ | ⟨v, b', h, _⟩ <;> rw [h] <;> exact Option.some_ne_none _
  · rintro b v _ rest hok ⟨hv, rfl⟩ hleft
    rcases take_spec hok hneed with ⟨hshort, _⟩ | ⟨u, b', h, hok', hu, hleft'⟩
    · rw [hleft, List.length_append, length_bitsOf] at hshort
      omega
    · rw [hleft] at hleft'
      have hlength : (bitsOf need v).length = (bitsOf need u).length := by
        rw [length_bitsOf, length_bitsOf]
      obtain ⟨hbits, hrest⟩ := List.append_inj hleft' hlength
      obtain rfl := bitsOf_inj hv hu hbits
      exact ⟨b', hok', hrest.symm, h⟩
  · intro b v b' hok h
    rcases take_spec hok hneed with ⟨_, herror⟩ | ⟨u, c, hread, hok', hu, hleft⟩
    · rw [h] at herror
      cases Option.some.inj herror
    · rw [h] at hread
      obtain ⟨rfl, rfl⟩ := Prod.mk.inj (Except.ok.inj (Option.some.inj hread))
      exact ⟨hok', _, ⟨hu, rfl⟩, hleft⟩

/-! ## Codes -/

/-- One bit is the first of those left. -/
theorem take_one_cons {b : Bits} (hok : b.Ok) {bit : Bool} {rest : List Bool}
    (hleft : b.left = bit :: rest) :
    ∃ b', b'.Ok ∧ b'.left = rest ∧ take 1 b = some (.ok (bit.toNat, b')) := by
  have hbit : b.left = bitsOf 1 bit.toNat ++ rest := by
    rw [hleft]
    cases bit <;> rfl
  have hone : (1 : Nat) ≤ 8 := by omega
  refine (decodes_take hone).reads hok ⟨?_, rfl⟩ hbit
  have hle := Bool.toNat_le bit
  omega

theorem take_one_nil {b : Bits} (hok : b.Ok) (hleft : b.left = []) :
    take 1 b = some (.error .truncated) := by
  have hone : (1 : Nat) ≤ 8 := by omega
  rcases take_spec hok hone with ⟨_, h⟩ | ⟨v, b', _, _, _, hleft'⟩
  · exact h
  · rw [hleft] at hleft'
    cases hleft'

theorem code_or (n : Nat) (bit : Bool) :
    2 * n ||| (bit.toNat ^^^ 1) = 2 * n + (bit ^^ true).toNat := by
  cases bit with
  | false =>
    have hor := Nat.two_pow_add_eq_or_of_lt (show 1 < 2 ^ 1 by omega) n
    exact hor.symm
  | true => exact Nat.or_zero _

section Codes

variable {rep : List Nat} {h : Huffman} {lens : List Nat} {len count n first index : Nat}

/-- One length is tried with one bit more. -/
theorem decodeFrom_cons {b b' : Bits} {bit : Bool} (hbit : take 1 b = some (.ok (bit.toNat, b')))
    (hcount : h.count[len]? = some count) :
    decodeFrom h (len :: lens) (2 * n) first index b =
      if 2 * n + (bit ^^ true).toNat < first + count then
        if index + (2 * n + (bit ^^ true).toNat) < first then none
        else (h.symbol[index + (2 * n + (bit ^^ true).toNat) - first]?).map fun sym =>
          .ok (sym, b')
      else decodeFrom h lens (2 * (2 * n + (bit ^^ true).toNat)) (2 * (first + count))
        (index + count) b' := by
  rw [decodeFrom]
  show ((take 1 b >>= fun r => _ : Checked Error (Nat × Bits))) = _
  rw [hbit]
  show ((orPanic h.count[len]? b' >>= fun r => _ : Checked Error (Nat × Bits))) = _
  rw [hcount]
  show (if 2 * n ||| (bit.toNat ^^^ 1) < first + count then
    if index + (2 * n ||| (bit.toNat ^^^ 1)) < first then orPanic none
    else orPanic h.symbol[index + (2 * n ||| (bit.toNat ^^^ 1)) - first]?
    else decodeFrom h lens ((2 * n ||| (bit.toNat ^^^ 1)) <<< 1) ((first + count) <<< 1)
      (index + count) : BitReader Nat) b' = _
  rw [code_or, Nat.shiftLeft_eq, Nat.shiftLeft_eq, Nat.pow_one, Nat.mul_comm _ 2,
    Nat.mul_comm _ 2]
  split
  · split <;> rfl
  · rfl

/-- The lengths are tried as the words of the code are walked. -/
theorem decodeFrom_spec (hcode : IsCode (lengthsOf rep) MAX_BITS)
    (hsize : (lengthsOf rep).length ≤ 256) {more length : Nat} (hmore : length + more = MAX_BITS)
    (hlow : firstWord (countOf (lengthsOf rep)) length + countOf (lengthsOf rep) length ≤ n)
    {b : Bits} (hok : b.Ok) :
    (∃ e, walk (countOf (lengthsOf rep)) Error.truncated .badCode true more length n b.left = .error e ∧
      decodeFrom (construct rep) (List.range' (length + 1) more) (2 * n)
        (firstWord (countOf (lengthsOf rep)) (length + 1))
        (placeOf (countOf (lengthsOf rep)) (length + 1)) b = some (.error e)) ∨
    ∃ sym b', sym < (lengthsOf rep).length ∧ b'.Ok ∧
      walk (countOf (lengthsOf rep)) Error.truncated .badCode true more length n b.left =
        .ok (symbolPlace (lengthsOf rep) sym, b'.left) ∧
      decodeFrom (construct rep) (List.range' (length + 1) more) (2 * n)
        (firstWord (countOf (lengthsOf rep)) (length + 1))
        (placeOf (countOf (lengthsOf rep)) (length + 1)) b = some (.ok (sym, b')) := by
  obtain ⟨hcounts, _, hsymbols⟩ := construct_spec rep hcode hsize
  induction more generalizing length n b with
  | zero => exact .inl ⟨.badCode, rfl, rfl⟩
  | succ more ih =>
    rw [List.range'_succ]
    cases hleft : b.left with
    | nil =>
      refine .inl ⟨.truncated, rfl, ?_⟩
      rw [decodeFrom]
      show ((take 1 b >>= fun r => _ : Checked Error (Nat × Bits))) = _
      rw [take_one_nil hok hleft]
      rfl
    | cons bit rest =>
      obtain ⟨b', hok', rfl, hbit⟩ := take_one_cons hok hleft
      rw [walk_cons, decodeFrom_cons hbit (hcounts _ (Nat.succ_pos length) (by omega))]
      have hfirst : firstWord (countOf (lengthsOf rep)) (length + 1) ≤
          2 * n + (bit ^^ true).toNat := by
        rw [firstWord]
        omega
      by_cases hword : 2 * n + (bit ^^ true).toNat <
          firstWord (countOf (lengthsOf rep)) (length + 1) + countOf (lengthsOf rep) (length + 1)
      · right
        have hrank : 2 * n + (bit ^^ true).toNat - firstWord (countOf (lengthsOf rep)) (length + 1) <
            (lengthsOf rep).count (length + 1) := by
          have hpos : 0 < length + 1 := Nat.succ_pos length
          rw [countOf_pos hpos] at hword
          omega
        obtain ⟨sym, hsym, hlength, hsymRank⟩ := exists_symbol hrank
        have hplace : placeOf (countOf (lengthsOf rep)) (length + 1) +
            (2 * n + (bit ^^ true).toNat) - firstWord (countOf (lengthsOf rep)) (length + 1) =
              symbolPlace (lengthsOf rep) sym := by
          rw [symbolPlace_eq hsym, hlength, hsymRank]
          omega
        refine ⟨sym, b', hsym, hok', ?_, ?_⟩
        · rw [if_pos hword, hplace]
        · rw [if_pos hword, if_neg (by omega), hplace, hsymbols sym hsym]
          rfl
      · rw [if_neg hword, if_neg hword]
        have hnext := Nat.le_of_not_lt hword
        exact ih (by omega) hnext hok'

theorem decode_spec (hcode : IsCode (lengthsOf rep) MAX_BITS)
    (hsize : (lengthsOf rep).length ≤ 256) {b : Bits} (hok : b.Ok) :
    (∃ e, walk (countOf (lengthsOf rep)) Error.truncated .badCode true MAX_BITS 0 0 b.left =
        .error e ∧
      decode (construct rep) b = some (.error e)) ∨
    ∃ sym b', sym < (lengthsOf rep).length ∧ b'.Ok ∧
      walk (countOf (lengthsOf rep)) Error.truncated .badCode true MAX_BITS 0 0 b.left =
        .ok (symbolPlace (lengthsOf rep) sym, b'.left) ∧
      decode (construct rep) b = some (.ok (sym, b')) :=
  decodeFrom_spec hcode hsize (Nat.zero_add MAX_BITS) (Nat.le_refl 0) hok

/-- The code of a symbol is read. -/
theorem decodes_decode (hcode : IsCode (lengthsOf rep) MAX_BITS)
    (hsize : (lengthsOf rep).length ≤ 256) :
    Decodes (decode (construct rep)) fun sym w =>
      sym < (lengthsOf rep).length ∧ w = codeBits rep sym := by
  constructor
  · intro b hok
    rcases decode_spec hcode hsize hok with ⟨_, _, hread⟩ | ⟨_, _, _, _, _, hread⟩
    · rw [hread]
      exact Option.some_ne_none _
    · rw [hread]
      exact Option.some_ne_none _
  · rintro b sym _ rest hok ⟨hsym, rfl⟩ hleft
    have hwalk : walk (countOf (lengthsOf rep)) Error.truncated .badCode true MAX_BITS 0 0
        (codeBits rep sym ++ rest) = _ := walk_codeOf Error.truncated .badCode hcode hsym rest
    rw [← hleft] at hwalk
    rcases decode_spec hcode hsize hok with ⟨_, herror, _⟩ | ⟨s, b', hs, hok', hgood, hread⟩
    · rw [hwalk] at herror
      cases herror
    · rw [hwalk] at hgood
      obtain ⟨hplace, rfl⟩ := Prod.mk.inj (Except.ok.inj hgood)
      have hposSym := hcode.length_pos _ (List.getElem_mem hsym)
      have hposS := hcode.length_pos _ (List.getElem_mem hs)
      obtain rfl := symbolPlace_inj hsym hs hposSym hposS hplace
      exact ⟨b', hok', rfl, hread⟩
  · intro b sym b' hok h
    rcases decode_spec hcode hsize hok with ⟨_, _, herror⟩ | ⟨s, c, hs, hok', hgood, hread⟩
    · cases (Option.some.inj (h.symm.trans herror))
    · obtain ⟨rfl, rfl⟩ := Prod.mk.inj (Except.ok.inj (Option.some.inj (h.symm.trans hread)))
      obtain ⟨t, ht, hleft, hplace⟩ := walk_symbol hgood
      have hposT := hcode.length_pos _ (List.getElem_mem ht)
      have hposS := hcode.length_pos _ (List.getElem_mem hs)
      obtain rfl := symbolPlace_inj hs ht hposS hposT hplace
      exact ⟨hok', _, ⟨hs, rfl⟩, hleft⟩

end Codes

end CommandCenter.Formats.Pkware
