import CommandCenter.Formats.PkwareBits

/-!
# What a PKWARE stream says

Tokens are read back from their bits, and their bytes are put in the destination as far as there is
room.

* `decodes_readToken`: one token, or the end.
* `decodes_explodeFrom`: the loop, from what it has written.
* `explode_iff`: a stream is decoded just when it is that of tokens, and as their bytes.
-/

namespace CommandCenter.Formats.Pkware

open Rust Library

/-! ## The tables -/

theorem tables_facts :
    (∀ rep ∈ [LIT_LEN, LEN_LEN, DIST_LEN], (∀ l ∈ lengthsOf rep, 1 ≤ l) ∧
      (∀ l ∈ lengthsOf rep, l ≤ MAX_BITS) ∧
      ∀ l ≤ MAX_BITS, firstWord (countOf (lengthsOf rep)) l + countOf (lengthsOf rep) l ≤ 2 ^ l) ∧
    [LIT_LEN, LEN_LEN, DIST_LEN].map (fun rep => (lengthsOf rep).length) = [256, 16, 64] := by
  decide +kernel

theorem isCode_of_mem {rep : List Nat} (h : rep ∈ [LIT_LEN, LEN_LEN, DIST_LEN]) :
    IsCode (lengthsOf rep) MAX_BITS :=
  have hfacts := tables_facts.1 rep h
  ⟨hfacts.1, hfacts.2.1, hfacts.2.2⟩

theorem isCode_lit : IsCode (lengthsOf LIT_LEN) MAX_BITS := isCode_of_mem (.head _)

theorem isCode_len : IsCode (lengthsOf LEN_LEN) MAX_BITS := isCode_of_mem (.tail _ (.head _))

theorem isCode_dist : IsCode (lengthsOf DIST_LEN) MAX_BITS :=
  isCode_of_mem (.tail _ (.tail _ (.head _)))

theorem length_lit : (lengthsOf LIT_LEN).length = 256 := (List.cons.inj tables_facts.2).1

theorem length_len : (lengthsOf LEN_LEN).length = 16 :=
  (List.cons.inj (List.cons.inj tables_facts.2).2).1

theorem length_dist : (lengthsOf DIST_LEN).length = 64 :=
  (List.cons.inj (List.cons.inj (List.cons.inj tables_facts.2).2).2).1

theorem length_entry {sym : Nat} (h : sym < 16) :
    LEN_BASE[sym]? = some (LEN_BASE.getD sym 0) ∧ LEN_EXTRA[sym]? = some (LEN_EXTRA.getD sym 0) ∧
      LEN_EXTRA.getD sym 0 ≤ 8 := by
  revert h sym
  decide

/-- The lengths of different codes are different, and every length up to the end has a code. -/
theorem lengthSymbol_facts :
    (∀ sym < 16, ∀ v < 2 ^ LEN_EXTRA.getD sym 0,
      lengthSymbol (LEN_BASE.getD sym 0 + v) = sym ∧ 2 ≤ LEN_BASE.getD sym 0 + v ∧
        LEN_BASE.getD sym 0 + v ≤ END_OF_STREAM) ∧
    ∀ len ≤ END_OF_STREAM, 2 ≤ len →
      lengthSymbol len < 16 ∧ LEN_BASE.getD (lengthSymbol len) 0 ≤ len ∧
        len < LEN_BASE.getD (lengthSymbol len) 0 + 2 ^ LEN_EXTRA.getD (lengthSymbol len) 0 := by
  decide +kernel

theorem lengthSymbol_add {sym v : Nat} (h : sym < 16) (hv : v < 2 ^ LEN_EXTRA.getD sym 0) :
    lengthSymbol (LEN_BASE.getD sym 0 + v) = sym ∧ 2 ≤ LEN_BASE.getD sym 0 + v ∧
      LEN_BASE.getD sym 0 + v ≤ END_OF_STREAM :=
  lengthSymbol_facts.1 sym h v hv

theorem lengthSymbol_spec {len : Nat} (hlow : 2 ≤ len) (hhigh : len ≤ END_OF_STREAM) :
    lengthSymbol len < 16 ∧ LEN_BASE.getD (lengthSymbol len) 0 ≤ len ∧
      len < LEN_BASE.getD (lengthSymbol len) 0 + 2 ^ LEN_EXTRA.getD (lengthSymbol len) 0 :=
  lengthSymbol_facts.2 len hhigh hlow

/-! ## Tokens -/

theorem decodes_readLength :
    Decodes readLength fun len w => (2 ≤ len ∧ len ≤ END_OF_STREAM) ∧ w = lengthBits len := by
  have hsize : (lengthsOf LEN_LEN).length ≤ 256 := by rw [length_len]; omega
  have hentry : ∀ sym, sym < (lengthsOf LEN_LEN).length → _ := fun sym hsym =>
    length_entry (length_len ▸ hsym)
  refine ((decodes_decode isCode_len hsize).bind fun sym _ hsym =>
    (Decodes.orPanic (hentry sym hsym.1).1).bind fun base _ hbase =>
      (Decodes.orPanic (hentry sym hsym.1).2.1).bind fun extra _ hextra =>
        (decodes_take (hextra.1 ▸ (hentry sym hsym.1).2.2)).bind fun v _ _ =>
          Decodes.pure (base + v)).congr ?_
  intro len w
  rw [length_len]
  constructor
  · rintro ⟨sym, _, _, ⟨hsym, rfl⟩, ⟨_, _, _, ⟨rfl, rfl⟩, ⟨_, _, _, ⟨rfl, rfl⟩,
      ⟨v, _, _, ⟨hv, rfl⟩, ⟨rfl, rfl⟩, rfl⟩, rfl⟩, rfl⟩, rfl⟩
    obtain ⟨hsymbol, hbounds⟩ := lengthSymbol_add hsym hv
    refine ⟨hbounds, ?_⟩
    rw [lengthBits, hsymbol, Nat.add_sub_cancel_left, List.append_nil]
    rfl
  · rintro ⟨⟨hlow, hhigh⟩, rfl⟩
    obtain ⟨hsym, hbase, hlt⟩ := lengthSymbol_spec hlow hhigh
    refine ⟨_, _, _, ⟨hsym, rfl⟩, ⟨_, _, _, ⟨rfl, rfl⟩, ⟨_, _, _, ⟨rfl, rfl⟩,
      ⟨len - LEN_BASE.getD (lengthSymbol len) 0, _, _, ⟨by omega, rfl⟩, ⟨by omega, rfl⟩, rfl⟩, rfl⟩,
        rfl⟩, ?_⟩
    rw [List.append_nil]
    rfl

/-- A number in two parts. -/
theorem shiftLeft_or {low high v : Nat} (hv : v < 2 ^ low) :
    high <<< low ||| v = 2 ^ low * high + v := by
  rw [Nat.shiftLeft_eq, Nat.mul_comm, Nat.two_pow_add_eq_or_of_lt hv]

theorem lowBits_le {dict : Nat} (hdict : dict ≤ 6) (len : Nat) : lowBits dict len ≤ 8 := by
  unfold lowBits
  split <;> omega

theorem decodes_readDistance {dict : Nat} (hdict : dict ≤ 6) (len : Nat) :
    Decodes (readDistance dict len) fun dist w =>
      (1 ≤ dist ∧ dist ≤ 64 * 2 ^ lowBits dict len) ∧ w = distanceBits dict len dist := by
  have hsize : (lengthsOf DIST_LEN).length ≤ 256 := by rw [length_dist]; omega
  refine ((decodes_decode isCode_dist hsize).bind fun high _ _ =>
    (decodes_take (lowBits_le hdict len)).bind fun v _ _ =>
      Decodes.pure ((high <<< lowBits dict len ||| v) + 1)).congr ?_
  intro dist w
  rw [length_dist]
  constructor
  · rintro ⟨high, _, _, ⟨hhigh, rfl⟩, ⟨v, _, _, ⟨hv, rfl⟩, ⟨rfl, rfl⟩, rfl⟩, rfl⟩
    have hshift : (2 ^ lowBits dict len * high + v) >>> lowBits dict len = high := by
      rw [Nat.shiftRight_eq_div_pow, Nat.mul_add_div (Nat.two_pow_pos _), Nat.div_eq_of_lt hv,
        Nat.add_zero]
    have hmod : bitsOf (lowBits dict len) (2 ^ lowBits dict len * high + v) =
        bitsOf (lowBits dict len) v := by
      rw [← bitsOf_mod, Nat.mul_add_mod, bitsOf_mod]
    rw [shiftLeft_or hv, distanceBits, Nat.add_sub_cancel, hshift, hmod, List.append_nil]
    have hmul : 2 ^ lowBits dict len * (high + 1) ≤ 2 ^ lowBits dict len * 64 :=
      Nat.mul_le_mul_left _ hhigh
    rw [Nat.mul_add_one] at hmul
    exact ⟨⟨Nat.succ_pos _, by omega⟩, rfl⟩
  · rintro ⟨⟨hpos, hle⟩, rfl⟩
    have hlow := Nat.mod_lt (dist - 1) (Nat.two_pow_pos (lowBits dict len))
    have hhigh : (dist - 1) >>> lowBits dict len < 64 := by
      rw [Nat.shiftRight_eq_div_pow]
      apply Nat.div_lt_of_lt_mul
      rw [Nat.mul_comm]
      omega
    refine ⟨_, _, _, ⟨hhigh, rfl⟩, ⟨_, _, _, ⟨hlow, rfl⟩, ⟨?_, rfl⟩, rfl⟩, ?_⟩
    · rw [shiftLeft_or hlow, Nat.shiftRight_eq_div_pow, Nat.div_add_mod]
      omega
    · rw [bitsOf_mod, List.append_nil]
      rfl

theorem decodes_readLiteral (codedLiterals : Nat) :
    Decodes (readLiteral codedLiterals) fun b w => w = literalBits codedLiterals b := by
  have hbyte : ∀ b : UInt8, UInt8.ofNat b.toNat = b := fun b => UInt8.ofNat_toNat
  unfold readLiteral literalBits
  by_cases hcoded : codedLiterals ≠ 0
  · rw [if_pos hcoded]
    have hsize : (lengthsOf LIT_LEN).length ≤ 256 := by rw [length_lit]
    refine ((decodes_decode isCode_lit hsize).bind fun sym _ _ =>
      Decodes.pure (UInt8.ofNat sym)).congr ?_
    intro b w
    rw [if_pos hcoded, length_lit]
    constructor
    · rintro ⟨sym, _, _, ⟨hsym, rfl⟩, ⟨rfl, rfl⟩, rfl⟩
      rw [List.append_nil, UInt8.toNat_ofNat_of_lt' hsym]
    · rintro rfl
      exact ⟨b.toNat, _, _, ⟨b.toNat_lt, rfl⟩, ⟨(hbyte b).symm, rfl⟩, (List.append_nil _).symm⟩
  · rw [if_neg hcoded]
    refine ((decodes_take (Nat.le_refl 8)).bind fun byte _ _ =>
      Decodes.pure (UInt8.ofNat byte)).congr ?_
    intro b w
    rw [if_neg hcoded]
    constructor
    · rintro ⟨byte, _, _, ⟨hlt, rfl⟩, ⟨rfl, rfl⟩, rfl⟩
      rw [List.append_nil, UInt8.toNat_ofNat_of_lt' hlt]
    · rintro rfl
      exact ⟨b.toNat, _, _, ⟨b.toNat_lt, rfl⟩, ⟨(hbyte b).symm, rfl⟩, (List.append_nil _).symm⟩

/-- The bits after those of a length. -/
theorem decodes_match {dict : Nat} (hdict : dict ≤ 6) (len : Nat) :
    Decodes (if len = END_OF_STREAM then return none
      else do
        let dist ← readDistance dict len
        return some (.copy len dist) : BitReader (Option Token)) fun t w =>
      (len = END_OF_STREAM ∧ t = none ∧ w = []) ∨
        (len ≠ END_OF_STREAM ∧ ∃ dist, (1 ≤ dist ∧ dist ≤ 64 * 2 ^ lowBits dict len) ∧
          t = some (.copy len dist) ∧ w = distanceBits dict len dist) := by
  by_cases hend : len = END_OF_STREAM
  · rw [if_pos hend]
    refine (Decodes.pure none).congr fun t w => ?_
    simp [hend]
  · rw [if_neg hend]
    refine ((decodes_readDistance hdict len).bind fun dist _ _ =>
      Decodes.pure (some (Token.copy len dist))).congr fun t w => ?_
    constructor
    · rintro ⟨dist, _, _, ⟨hdist, rfl⟩, ⟨rfl, rfl⟩, rfl⟩
      exact .inr ⟨hend, dist, hdist, rfl, List.append_nil _⟩
    · rintro (⟨h, _⟩ | ⟨_, dist, hdist, rfl, rfl⟩)
      · exact absurd h hend
      · exact ⟨dist, _, _, ⟨hdist, rfl⟩, ⟨rfl, rfl⟩, (List.append_nil _).symm⟩

/-- The bits of what `readToken` gives. -/
def Token.Read (codedLiterals dict : Nat) : Option Token → List Bool → Prop
  | none, w => w = endCode
  | some t, w => t.Spelled dict ∧ w = t.bits codedLiterals dict

theorem decodes_token (codedLiterals : Nat) {dict : Nat} (hdict : dict ≤ 6) (v : Nat) :
    Decodes (if v ≠ 0 then do
        let len ← readLength
        if len = END_OF_STREAM then return none
        else
          let dist ← readDistance dict len
          return some (.copy len dist)
      else do
        let b ← readLiteral codedLiterals
        return some (.literal b) : BitReader (Option Token))
      fun t w => Token.Read codedLiterals dict t (decide (v ≠ 0) :: w) := by
  by_cases hv : v ≠ 0
  · rw [if_pos hv]
    refine (decodes_readLength.bind fun len _ _ => decodes_match hdict len).congr fun t w => ?_
    rw [decide_eq_true hv]
    constructor
    · rintro ⟨len, _, _, ⟨⟨hlow, hhigh⟩, rfl⟩, ⟨rfl, rfl, rfl⟩ | ⟨hne, dist, ⟨hpos, hle⟩, rfl, rfl⟩,
        rfl⟩
      · rw [List.append_nil]
        exact rfl
      · have hlen : len ≤ 518 := Nat.le_of_lt_succ (Nat.lt_of_le_of_ne hhigh hne)
        exact ⟨⟨hlow, hlen, hpos, hle⟩, rfl⟩
    · intro hread
      match t, hread with
      | none, hread =>
        obtain rfl := (List.cons.inj hread).2
        refine ⟨END_OF_STREAM, _, _, ⟨⟨by decide, Nat.le_refl _⟩, rfl⟩, .inl ⟨rfl, rfl, rfl⟩, ?_⟩
        rw [List.append_nil]
      | some (.literal b), hread => cases (List.cons.inj hread.2).1
      | some (.copy len dist), ⟨⟨hlow, hhigh, hpos, hle⟩, hbits⟩ =>
        obtain rfl := (List.cons.inj hbits).2
        have hne : len ≠ END_OF_STREAM := Nat.ne_of_lt (Nat.lt_succ_of_le hhigh)
        exact ⟨len, _, _, ⟨⟨hlow, Nat.le_succ_of_le hhigh⟩, rfl⟩,
          .inr ⟨hne, dist, ⟨hpos, hle⟩, rfl, rfl⟩, rfl⟩
  · rw [if_neg hv]
    refine ((decodes_readLiteral codedLiterals).bind fun b _ _ =>
      Decodes.pure (some (Token.literal b))).congr fun t w => ?_
    rw [decide_eq_false hv]
    constructor
    · rintro ⟨b, _, _, rfl, ⟨rfl, rfl⟩, rfl⟩
      rw [List.append_nil]
      exact ⟨trivial, rfl⟩
    · intro hread
      match t, hread with
      | none, hread => cases (List.cons.inj hread).1
      | some (.copy len dist), hread => cases (List.cons.inj hread.2).1
      | some (.literal b), ⟨_, hbits⟩ =>
        obtain rfl := (List.cons.inj hbits).2
        exact ⟨b, _, _, rfl, ⟨rfl, rfl⟩, (List.append_nil _).symm⟩

/-- One token is read, or the end. -/
theorem decodes_readToken (codedLiterals : Nat) {dict : Nat} (hdict : dict ≤ 6) :
    Decodes (readToken codedLiterals dict) (Token.Read codedLiterals dict) := by
  have hone : (1 : Nat) ≤ 8 := by omega
  refine ((decodes_take hone).bind fun v _ _ => decodes_token codedLiterals hdict v).congr
    fun t w => ?_
  constructor
  · rintro ⟨v, _, u, ⟨hv, rfl⟩, hread, rfl⟩
    rcases Nat.le_one_iff_eq_zero_or_eq_one.mp (Nat.le_of_lt_succ hv) with rfl | rfl
    · exact hread
    · exact hread
  · intro hread
    match w, hread with
    | [], hread =>
      match t, hread with
      | none, hread => cases hread
      | some (.literal b), ⟨_, hbits⟩ => cases hbits
      | some (.copy len dist), ⟨_, hbits⟩ => cases hbits
    | bit :: w, hread =>
      refine ⟨bit.toNat, _, w, ⟨Nat.lt_succ_of_le (Bool.toNat_le bit), rfl⟩, ?_, ?_⟩
      · cases bit <;> exact hread
      · cases bit <;> rfl

/-! ## The destination -/

/-- The destination with as many bytes as it has room for. -/
def fitted (dst out : List UInt8) : List UInt8 := out.take dst.length ++ dst.drop out.length

theorem length_fitted (dst out : List UInt8) : (fitted dst out).length = dst.length := by
  rw [fitted, List.length_append, List.length_take, List.length_drop]
  omega

theorem fitted_nil (dst : List UInt8) : fitted dst [] = dst := by
  rw [fitted, List.take_nil, List.nil_append]
  rfl

/-- One byte more. -/
theorem fitted_set {dst out : List UInt8} (h : out.length < dst.length) (b : UInt8) :
    (fitted dst out).set out.length b = fitted dst (out ++ [b]) := by
  have hfit : (out ++ [b]).length ≤ dst.length := by
    rw [List.length_append]
    exact h
  have hdrop : dst.drop out.length = dst[out.length] :: dst.drop (out.length + 1) :=
    List.drop_eq_getElem_cons h
  rw [fitted, fitted, List.take_of_length_le (Nat.le_of_lt h), List.take_of_length_le hfit,
    List.set_append_right _ _ (Nat.le_refl _), Nat.sub_self, hdrop, List.set_cons_zero,
    List.length_append, List.append_assoc]
  rfl

theorem fitted_getElem? {dst out : List UInt8} (hfit : out.length ≤ dst.length) {i : Nat}
    (hi : i < out.length) : (fitted dst out)[i]? = some (out.getD i 0) := by
  rw [fitted, List.take_of_length_le hfit, List.getElem?_append_left hi,
    List.getElem?_eq_getElem hi, List.getD_eq_getElem _ _ hi]

/-- What there is no room for does not matter. -/
theorem fitted_append {dst out : List UInt8} (h : dst.length ≤ out.length) (more : List UInt8) :
    fitted dst (out ++ more) = fitted dst out := by
  have hlength : out.length ≤ (out ++ more).length := by
    rw [List.length_append]
    omega
  rw [fitted, fitted, List.take_append_of_le_length h, List.drop_eq_nil_of_le h,
    List.drop_eq_nil_of_le (h.trans hlength)]

theorem length_copyOut (dist times : Nat) (out : List UInt8) :
    (copyOut dist times out).length = out.length + times := by
  induction times generalizing out with
  | zero => rfl
  | succ times ih =>
    rw [copyOut, ih, List.length_append, List.length_singleton]
    omega

theorem copyOut_add (dist first more : Nat) (out : List UInt8) :
    copyOut dist (first + more) out = copyOut dist more (copyOut dist first out) := by
  induction first generalizing out with
  | zero => rw [Nat.zero_add, copyOut]
  | succ first ih => rw [Nat.succ_add, copyOut, copyOut, ih]

theorem prefix_copyOut (dist times : Nat) (out : List UInt8) : out <+: copyOut dist times out := by
  induction times generalizing out with
  | zero => exact List.prefix_refl out
  | succ times ih => exact (List.prefix_append out _).trans (ih _)

theorem prefix_write (t : Token) (out : List UInt8) : out <+: t.write out := by
  cases t with
  | literal b => exact List.prefix_append out [b]
  | copy len dist => exact prefix_copyOut dist len out

theorem prefix_expandFrom (out : List UInt8) (tokens : List Token) :
    out <+: expandFrom out tokens := by
  induction tokens generalizing out with
  | nil => exact List.prefix_refl out
  | cons t tokens ih => exact (prefix_write t out).trans (ih _)

theorem copyWithin_fitted {dst : List UInt8} {dist times : Nat} {out : List UInt8}
    (hpos : 1 ≤ dist) (hdist : dist ≤ out.length) (hfit : out.length + times ≤ dst.length) :
    copyWithin dist times (fitted dst out) out.length =
      some (fitted dst (copyOut dist times out)) := by
  induction times generalizing out with
  | zero => rfl
  | succ times ih =>
    have hlength : ∀ b : UInt8, (out ++ [b]).length = out.length + 1 := fun b => by simp
    have hget : (fitted dst out)[out.length - dist]? = some (out.getD (out.length - dist) 0) :=
      fitted_getElem? (by omega) (by omega)
    have hroom : out.length < (fitted dst out).length := by
      rw [length_fitted]
      omega
    rw [copyWithin, hget]
    show (if out.length < (fitted dst out).length then _ else none) = _
    rw [if_pos hroom, fitted_set (by omega), copyOut, ← hlength (out.getD (out.length - dist) 0)]
    apply ih
    · rw [hlength]
      omega
    · rw [hlength]
      omega

theorem copyWithin_min {dst : List UInt8} {dist : Nat} {out : List UInt8} (len : Nat)
    (hpos : 1 ≤ dist) (hdist : dist ≤ out.length) (hroom : out.length ≤ dst.length) :
    copyWithin dist (min len (dst.length - out.length)) (fitted dst out) out.length =
      some (fitted dst (copyOut dist len out)) := by
  rw [copyWithin_fitted hpos hdist (by omega)]
  rcases Nat.le_total len (dst.length - out.length) with hle | hle
  · rw [Nat.min_eq_left hle]
  · have hsum : len = dst.length - out.length + (len - (dst.length - out.length)) := by omega
    have hfull : dst.length ≤ (copyOut dist (dst.length - out.length) out).length := by
      rw [length_copyOut]
      omega
    obtain ⟨more, hmore⟩ := prefix_copyOut dist (len - (dst.length - out.length))
      (copyOut dist (dst.length - out.length) out)
    rw [Nat.min_eq_right hle, hsum, copyOut_add, ← hmore, fitted_append hfull]

/-! ## The loop -/

/-- The bits that fill some room: tokens until it is full, or until the end is said. -/
inductive Fills (codedLiterals dict room : Nat) :
    (out all : List UInt8) → List Bool → Prop where
  | full {out : List UInt8} : room ≤ out.length → Fills codedLiterals dict room out out []
  | ended {out : List UInt8} : out.length < room → Fills codedLiterals dict room out out endCode
  | token {out all : List UInt8} {t : Token} {w : List Bool} : out.length < room →
      t.Spelled dict → t.Within out.length → Fills codedLiterals dict room (t.write out) all w →
        Fills codedLiterals dict room out all (t.bits codedLiterals dict ++ w)

theorem length_write_pos {t : Token} {dict : Nat} (h : t.Spelled dict) (out : List UInt8) :
    out.length < (t.write out).length := by
  cases t with
  | literal b =>
    show out.length < (out ++ [b]).length
    rw [List.length_append, List.length_singleton]
    omega
  | copy len dist =>
    have hlen : 2 ≤ len := h.1
    show out.length < (copyOut dist len out).length
    rw [length_copyOut]
    omega

/-- What a token puts is what it writes. -/
theorem decodes_put {dict : Nat} {dst out : List UInt8} (hroom : out.length < dst.length) {t : Token}
    (hspelled : t.Spelled dict) :
    Decodes (t.put (fitted dst out) out.length) fun r w => t.Within out.length ∧
      r = (min dst.length (t.write out).length, fitted dst (t.write out)) ∧ w = [] := by
  have hlength := length_fitted dst out
  cases t with
  | literal b =>
    have hmin : min dst.length (out ++ [b]).length = out.length + 1 := by
      rw [List.length_append, List.length_singleton]
      omega
    have hput : Token.put (fitted dst out) out.length (.literal b) =
        pure (out.length + 1, fitted dst (out ++ [b])) := by
      rw [← fitted_set hroom b]
      exact if_pos (hlength.symm ▸ hroom)
    rw [hput]
    refine (Decodes.pure _).congr fun r w => ?_
    rw [← hmin]
    exact (Iff.of_eq (true_and _)).symm
  | copy len dist =>
    obtain ⟨_, _, hpos, _⟩ := hspelled
    have hput : Token.put (fitted dst out) out.length (.copy len dist) =
        if out.length < dist then throw .distanceTooFar
        else do
          let dst' ← orPanic
            (copyWithin dist (min len (dst.length - out.length)) (fitted dst out) out.length)
          return (out.length + min len (dst.length - out.length), dst') := by
      rw [← hlength]
      rfl
    rw [hput]
    by_cases hfar : out.length < dist
    · rw [if_pos hfar]
      refine (Decodes.throw _).congr fun r w => ⟨False.elim, fun h => ?_⟩
      exact Nat.not_le.mpr hfar h.1
    · rw [if_neg hfar]
      have hdist : dist ≤ out.length := Nat.le_of_not_lt hfar
      have hcopy := copyWithin_min len hpos hdist (Nat.le_of_lt hroom)
      have hmin : min dst.length (copyOut dist len out).length =
          out.length + min len (dst.length - out.length) := by
        rw [length_copyOut]
        omega
      refine ((Decodes.orPanic hcopy).bind fun dst' _ _ =>
        Decodes.pure (out.length + min len (dst.length - out.length), dst')).congr fun r w => ?_
      rw [← hmin]
      constructor
      · rintro ⟨_, _, _, ⟨rfl, rfl⟩, ⟨rfl, rfl⟩, rfl⟩
        exact ⟨hdist, rfl, rfl⟩
      · rintro ⟨_, rfl, rfl⟩
        exact ⟨_, [], [], ⟨rfl, rfl⟩, ⟨rfl, rfl⟩, rfl⟩

section Loop

variable (codedLiterals dict : Nat) (dst : List UInt8)

/-- What the loop gives, and from what. -/
def Filled (out : List UInt8) (r : Nat × List UInt8) (w : List Bool) : Prop :=
  ∃ all, Fills codedLiterals dict dst.length out all w ∧ r = (min dst.length all.length, fitted dst all)

/-- What is left of the bits once a token is read. -/
def FilledAfter (out : List UInt8) : Option Token → Nat × List UInt8 → List Bool → Prop
  | none, r, w => r = (out.length, fitted dst out) ∧ w = []
  | some t, r, w => t.Within out.length ∧ Filled codedLiterals dict dst (t.write out) r w

variable {codedLiterals dict dst}

theorem filled_iff {out : List UInt8} (hroom : out.length < dst.length) {r : Nat × List UInt8}
    {w : List Bool} : Filled codedLiterals dict dst out r w ↔
      ∃ t u v, Token.Read codedLiterals dict t u ∧ FilledAfter codedLiterals dict dst out t r v ∧
        w = u ++ v := by
  have hmin : min dst.length out.length = out.length := Nat.min_eq_right (Nat.le_of_lt hroom)
  constructor
  · rintro ⟨all, hfills, rfl⟩
    cases hfills with
    | full hfull => exact absurd hroom (Nat.not_lt.mpr hfull)
    | ended _ =>
      rw [hmin]
      exact ⟨none, endCode, [], rfl, ⟨rfl, rfl⟩, (List.append_nil _).symm⟩
    | token _ hspelled hwithin hrest =>
      exact ⟨some _, _, _, ⟨hspelled, rfl⟩, ⟨hwithin, all, hrest, rfl⟩, rfl⟩
  · rintro ⟨t, u, v, hread, hafter, rfl⟩
    cases t with
    | none =>
      obtain rfl := hread
      obtain ⟨rfl, rfl⟩ := hafter
      rw [List.append_nil]
      exact ⟨out, .ended hroom, by rw [hmin]⟩
    | some t =>
      obtain ⟨hspelled, rfl⟩ := hread
      obtain ⟨hwithin, all, hrest, rfl⟩ := hafter
      exact ⟨all, .token hroom hspelled hwithin hrest, rfl⟩

theorem filled_full {out : List UInt8} (hfull : dst.length ≤ out.length) {r : Nat × List UInt8}
    {w : List Bool} : Filled codedLiterals dict dst out r w ↔
      r = (dst.length, fitted dst out) ∧ w = [] := by
  have hmin : min dst.length out.length = dst.length := Nat.min_eq_left hfull
  constructor
  · rintro ⟨all, hfills, rfl⟩
    cases hfills with
    | full _ => exact ⟨by rw [hmin], rfl⟩
    | ended hroom => exact absurd hroom (Nat.not_lt.mpr hfull)
    | token hroom => exact absurd hroom (Nat.not_lt.mpr hfull)
  · rintro ⟨rfl, rfl⟩
    exact ⟨out, .full hfull, by rw [hmin]⟩

/-- The loop reads what fills the destination. -/
theorem decodes_explodeFrom (hdict : dict ≤ 6) {fuel : Nat} {out : List UInt8}
    (hfuel : dst.length < min dst.length out.length + fuel) :
    Decodes (explodeFrom codedLiterals dict fuel (fitted dst out) (min dst.length out.length))
      (Filled codedLiterals dict dst out) := by
  induction fuel generalizing out with
  | zero => omega
  | succ fuel ih =>
    rw [explodeFrom, length_fitted]
    by_cases hroom : out.length < dst.length
    · have hmin : min dst.length out.length = out.length := Nat.min_eq_right (Nat.le_of_lt hroom)
      rw [hmin, if_pos hroom]
      rw [hmin] at hfuel
      refine Decodes.congr (Decodes.bind (decodes_readToken codedLiterals hdict)
        fun t w hread => ?_) fun r w => (filled_iff hroom).symm
      cases t with
      | none => exact Decodes.pure _
      | some t =>
        have hgrows := length_write_pos hread.1 out
        exact (decodes_put hroom hread.1).bind_value fun _ => ih (by omega)
    · have hfull := Nat.le_of_not_lt hroom
      rw [Nat.min_eq_left hfull, if_neg (Nat.lt_irrefl _)]
      exact (Decodes.pure _).congr fun r w => (filled_full hfull).symm

end Loop

/-! ## Streams -/

section Streams

variable {codedLiterals dict : Nat} {dst : List UInt8}

theorem filled_tokens {out : List UInt8} {tokens : List Token} {more bits : List Bool}
    (hlegal : Legal dict out tokens) (hbits : bits = encode codedLiterals dict tokens ++ more)
    (hend : endCode <+: more ∨ dst.length ≤ (expandFrom out tokens).length) :
    ∃ w rest, bits = w ++ rest ∧ Filled codedLiterals dict dst out
      (min dst.length (expandFrom out tokens).length, fitted dst (expandFrom out tokens)) w := by
  induction tokens generalizing out bits with
  | nil =>
    by_cases hroom : out.length < dst.length
    · rcases hend with ⟨rest, rfl⟩ | hfull
      · exact ⟨endCode, rest, hbits, out, .ended hroom, rfl⟩
      · exact absurd hroom (Nat.not_lt.mpr hfull)
    · exact ⟨[], bits, rfl, out, .full (Nat.le_of_not_lt hroom), rfl⟩
  | cons t tokens ih =>
    obtain ⟨hspelled, hwithin, hlegal⟩ := hlegal
    by_cases hroom : out.length < dst.length
    · obtain ⟨w, rest, hw, all, hfills, hr⟩ := ih hlegal rfl hend
      refine ⟨t.bits codedLiterals dict ++ w, rest, ?_, all, .token hroom hspelled hwithin hfills, hr⟩
      rw [hbits, encode, List.flatMap_cons, List.append_assoc, List.append_assoc, ← hw]
      rfl
    · have hfull := Nat.le_of_not_lt hroom
      obtain ⟨written, hwritten⟩ := prefix_expandFrom out (t :: tokens)
      refine ⟨[], bits, rfl, (filled_full hfull).mpr ⟨?_, rfl⟩⟩
      rw [← hwritten, fitted_append hfull, List.length_append, Nat.min_eq_left (by omega)]

theorem fills_tokens {room : Nat} {out all : List UInt8} {w : List Bool}
    (h : Fills codedLiterals dict room out all w) :
    ∃ tokens, Legal dict out tokens ∧ all = expandFrom out tokens ∧
      ((w = encode codedLiterals dict tokens ∧ room ≤ all.length) ∨
        w = encode codedLiterals dict tokens ++ endCode) := by
  induction h with
  | full hfull => exact ⟨[], trivial, rfl, .inl ⟨rfl, hfull⟩⟩
  | ended _ => exact ⟨[], trivial, rfl, .inr rfl⟩
  | @token out all t w _ hspelled hwithin _ ih =>
    obtain ⟨tokens, hlegal, hall, hw⟩ := ih
    refine ⟨t :: tokens, ⟨hspelled, hwithin, hlegal⟩, hall, ?_⟩
    have hcons : encode codedLiterals dict (t :: tokens) =
        t.bits codedLiterals dict ++ encode codedLiterals dict tokens := List.flatMap_cons
    rcases hw with ⟨rfl, hfull⟩ | rfl
    · exact .inl ⟨hcons.symm, hfull⟩
    · right
      rw [hcons, List.append_assoc]

end Streams

/-- The header, and then what fills the destination. -/
theorem decodes_explode (dst : List UInt8) :
    Decodes (do
      let codedLiterals ← take 8
      if 1 < codedLiterals then throw .badHeader
      else
        let dict ← take 8
        if ¬ (4 ≤ dict ∧ dict ≤ 6) then throw .badHeader
        else explodeFrom codedLiterals dict (dst.length + 1) dst 0)
      fun r w => ∃ codedLiterals dict u, codedLiterals ≤ 1 ∧ (4 ≤ dict ∧ dict ≤ 6) ∧
        Filled codedLiterals dict dst [] r u ∧ w = header codedLiterals dict ++ u := by
  have hloop : ∀ codedLiterals dict, Decodes (if ¬ (4 ≤ dict ∧ dict ≤ 6) then throw .badHeader
      else explodeFrom codedLiterals dict (dst.length + 1) dst 0 : BitReader (Nat × List UInt8))
      fun r w => (4 ≤ dict ∧ dict ≤ 6) ∧ Filled codedLiterals dict dst [] r w := by
    intro codedLiterals dict
    by_cases hdict : 4 ≤ dict ∧ dict ≤ 6
    · rw [if_neg (not_not_intro hdict)]
      have hstart : explodeFrom codedLiterals dict (dst.length + 1) dst 0 =
          explodeFrom codedLiterals dict (dst.length + 1) (fitted dst [])
            (min dst.length ([] : List UInt8).length) := by
        rw [List.length_nil, Nat.min_zero, fitted_nil]
      rw [hstart]
      refine (decodes_explodeFrom hdict.2 (by simp)).congr fun r w => ?_
      simp only [hdict, and_self, true_and]
    · rw [if_pos hdict]
      exact (Decodes.throw _).congr fun r w => ⟨False.elim, fun h => hdict h.1⟩
  have hdict : ∀ codedLiterals, Decodes (if 1 < codedLiterals then throw .badHeader
      else do
        let dict ← take 8
        if ¬ (4 ≤ dict ∧ dict ≤ 6) then throw .badHeader
        else explodeFrom codedLiterals dict (dst.length + 1) dst 0 : BitReader (Nat × List UInt8))
      fun r w => codedLiterals ≤ 1 ∧ ∃ dict u, (4 ≤ dict ∧ dict ≤ 6) ∧
        Filled codedLiterals dict dst [] r u ∧ w = bitsOf 8 dict ++ u := by
    intro codedLiterals
    by_cases hmode : 1 < codedLiterals
    · rw [if_pos hmode]
      exact (Decodes.throw _).congr fun r w => ⟨False.elim, fun h => Nat.not_le.mpr hmode h.1⟩
    · rw [if_neg hmode]
      refine ((decodes_take (Nat.le_refl 8)).bind fun dict _ _ =>
        hloop codedLiterals dict).congr fun r w => ?_
      constructor
      · rintro ⟨dict, _, u, ⟨_, rfl⟩, ⟨hrange, hfilled⟩, rfl⟩
        exact ⟨Nat.le_of_not_lt hmode, dict, u, hrange, hfilled, rfl⟩
      · rintro ⟨_, dict, u, hrange, hfilled, rfl⟩
        exact ⟨dict, _, u, ⟨by omega, rfl⟩, ⟨hrange, hfilled⟩, rfl⟩
  refine ((decodes_take (Nat.le_refl 8)).bind fun codedLiterals _ _ =>
    hdict codedLiterals).congr fun r w => ?_
  constructor
  · rintro ⟨codedLiterals, _, _, ⟨_, rfl⟩, ⟨hmode, dict, u, hrange, hfilled, rfl⟩, rfl⟩
    refine ⟨codedLiterals, dict, u, hmode, hrange, hfilled, ?_⟩
    rw [header, List.append_assoc]
  · rintro ⟨codedLiterals, dict, u, hmode, hrange, hfilled, rfl⟩
    refine ⟨codedLiterals, _, _, ⟨by omega, rfl⟩, ⟨hmode, dict, u, hrange, hfilled, rfl⟩, ?_⟩
    rw [header, List.append_assoc]

/-- A stream of tokens, as far as they fill the room for them. -/
structure Stream (src : List UInt8) (room : Nat) where
  codedLiterals : Nat
  dict : Nat
  tokens : List Token
  mode : codedLiterals ≤ 1
  size : 4 ≤ dict ∧ dict ≤ 6
  legal : Legal dict [] tokens
  rest : List Bool
  bits : unpack src = header codedLiterals dict ++ (encode codedLiterals dict tokens ++ rest)
  ends : endCode <+: rest ∨ room ≤ (expand tokens).length

/-- Tokens and the end after them, in bytes. -/
def Stream.encoded {codedLiterals dict : Nat} {tokens : List Token} (mode : codedLiterals ≤ 1)
    (size : 4 ≤ dict ∧ dict ≤ 6) (legal : Legal dict [] tokens) (room : Nat) :
    Stream (pack (header codedLiterals dict ++ (encode codedLiterals dict tokens ++ endCode))) room where
  codedLiterals := codedLiterals
  dict := dict
  tokens := tokens
  mode := mode
  size := size
  legal := legal
  rest := endCode ++ List.replicate _ false
  bits := by rw [unpack_pack, List.append_assoc, List.append_assoc]
  ends := .inl (List.prefix_append _ _)

theorem ok_start (src : List UInt8) : (Bits.mk src 0 0 0).Ok := ⟨Nat.one_pos, Nat.succ_pos 7⟩

theorem explode_ne_none (src dst : List UInt8) : explode src dst ≠ none :=
  Checked.map_ne_none.mpr ((decodes_explode dst).total (ok_start src))

theorem explode_eq_ok {src dst out : List UInt8} {n : Nat} :
    explode src dst = some (.ok (n, out)) ↔ ∃ s : Stream src dst.length,
      n = min dst.length (expand s.tokens).length ∧ out = fitted dst (expand s.tokens) := by
  have hread := decodes_explode dst
  have hleft : (Bits.mk src 0 0 0).left = unpack src := rfl
  rw [explode]
  constructor
  · intro h
    obtain ⟨⟨r, b'⟩, hrun, rfl⟩ := Checked.map_eq_ok.mp h
    obtain ⟨_, _, ⟨codedLiterals, dict, u, hmode, hdict, ⟨all, hfills, hr⟩, rfl⟩, hbits⟩ :=
      hread.exact (ok_start src) hrun
    obtain ⟨rfl, rfl⟩ := Prod.mk.inj hr
    obtain ⟨tokens, hlegal, rfl, hu⟩ := fills_tokens hfills
    rw [hleft, List.append_assoc] at hbits
    rcases hu with ⟨rfl, hfull⟩ | rfl
    · exact ⟨⟨codedLiterals, dict, tokens, hmode, hdict, hlegal, _, hbits, .inr hfull⟩, rfl, rfl⟩
    · rw [List.append_assoc] at hbits
      exact ⟨⟨codedLiterals, dict, tokens, hmode, hdict, hlegal, _, hbits,
        .inl (List.prefix_append _ _)⟩, rfl, rfl⟩
  · rintro ⟨s, rfl, rfl⟩
    obtain ⟨w, rest, hw, hfilled⟩ := filled_tokens s.legal rfl s.ends
    have hbits : (Bits.mk src 0 0 0).left = header s.codedLiterals s.dict ++ w ++ rest := by
      rw [hleft, s.bits, hw, List.append_assoc]
    obtain ⟨b', _, _, hrun⟩ := hread.reads (ok_start src)
      ⟨s.codedLiterals, s.dict, w, s.mode, s.size, hfilled, rfl⟩ hbits
    exact Checked.map_eq_ok.mpr ⟨_, hrun, rfl⟩

/-- Every stream of tokens is decoded, to the bytes of them that there is room for, and nothing else
is; there is no panic. -/
theorem explode_iff (src dst : List UInt8) :
    explode src dst ≠ none ∧ ∀ n out, explode src dst = some (.ok (n, out)) ↔
      ∃ s : Stream src dst.length, n = min dst.length (expand s.tokens).length ∧
        out = (expand s.tokens).take n ++ dst.drop n := by
  refine ⟨explode_ne_none src dst, fun n out => ?_⟩
  rw [explode_eq_ok]
  have hfitted : ∀ all : List UInt8, fitted dst all =
      all.take (min dst.length all.length) ++ dst.drop (min dst.length all.length) := by
    intro all
    rcases Nat.le_total dst.length all.length with hle | hle
    · rw [Nat.min_eq_left hle, fitted, List.drop_eq_nil_of_le hle, List.drop_length]
    · rw [Nat.min_eq_right hle, fitted, List.take_length, List.take_of_length_le hle]
  constructor
  · rintro ⟨s, rfl, rfl⟩
    exact ⟨s, rfl, hfitted _⟩
  · rintro ⟨s, rfl, rfl⟩
    exact ⟨s, rfl, (hfitted _).symm⟩

end CommandCenter.Formats.Pkware
