import CommandCenter.Rust.Text

/-!
# Decoding UTF-8 with replacement

`String::from_utf8_lossy`: each longest part of the input that begins a character and cannot be
continued becomes one U+FFFD.

* `fromUtf8Lossy_asBytes_append`: the bytes of a text are decoded to it, whatever follows them.
* `fromUtf8Lossy_part`: the first bytes of a character, but not all of them, are one U+FFFD.
-/

namespace CommandCenter.Rust.Text

/-- The second bytes that may follow a leading byte, as the first and the last of them. -/
def secondBytes (lead : UInt8) : Option (UInt8 × UInt8) :=
  if 0xC2 ≤ lead ∧ lead ≤ 0xDF then some (0x80, 0xBF)
  else if lead = 0xE0 then some (0xA0, 0xBF)
  else if lead = 0xED then some (0x80, 0x9F)
  else if 0xE1 ≤ lead ∧ lead ≤ 0xEF then some (0x80, 0xBF)
  else if lead = 0xF0 then some (0x90, 0xBF)
  else if lead = 0xF4 then some (0x80, 0x8F)
  else if 0xF1 ≤ lead ∧ lead ≤ 0xF3 then some (0x80, 0xBF)
  else none

/-- The number of bytes that may follow the second one. -/
def bytesAfterSecond (lead : UInt8) : Nat :=
  if lead ≤ 0xDF then 0 else if lead ≤ 0xEF then 1 else 2

/-- The bits of a leading byte that belong to the character. -/
def leadBits (lead : UInt8) : Nat :=
  if lead ≤ 0xDF then lead.toNat % 32 else if lead ≤ 0xEF then lead.toNat % 16 else lead.toNat % 8

/-- The decoder between two bytes: at the start of a character, or within one that wants `left`
more bytes, the next of them from `lo` to `hi`. -/
inductive Utf8State where
  | start
  | within (bits left : Nat) (lo hi : UInt8)

/-- A byte at the start of a character. -/
def startUtf8 (b : UInt8) : Text × Utf8State :=
  if b < 0x80 then ([.ofNat b.toNat], .start)
  else
    match secondBytes b with
    | some (lo, hi) => ([], .within (leadBits b) (bytesAfterSecond b + 1) lo hi)
    | none => (['\uFFFD'], .start)

def stepUtf8 : Utf8State → UInt8 → Text × Utf8State
  | .start, b => startUtf8 b
  | .within bits left lo hi, b =>
    if lo ≤ b ∧ b ≤ hi then
      let bits := bits * 64 + b.toNat % 64
      if left ≤ 1 then ([.ofNat bits], .start) else ([], .within bits (left - 1) 0x80 0xBF)
    else
      let (text, state) := startUtf8 b
      ('\uFFFD' :: text, state)

def decodeUtf8 : Utf8State → List UInt8 → Text
  | .start, [] => []
  | .within .., [] => ['\uFFFD']
  | state, b :: bytes =>
    let (text, state) := stepUtf8 state b
    text ++ decodeUtf8 state bytes

/-- `String::from_utf8_lossy`. -/
def fromUtf8Lossy (bytes : List UInt8) : Text := decodeUtf8 .start bytes

/-- `str::from_utf8`: the bytes that are those of a text. -/
def fromUtf8 (bytes : List UInt8) : Option Text :=
  let text := fromUtf8Lossy bytes
  if text.asBytes = bytes then some text else none

/-! ## The bytes of a text -/

/-- The bytes that may follow the second one of a character. -/
def IsTail (b : UInt8) : Prop := 0x80 ≤ b ∧ b ≤ 0xBF

/-- The bits of a character with those of one more byte. -/
def addBits (bits : Nat) (b : UInt8) : Nat := bits * 64 + b.toNat % 64

/-- How a character of more than one byte is written: its second byte is from `lo` to `hi`. -/
structure Multibyte (c : Char) (lead second : UInt8) (tail : List UInt8) (lo hi : UInt8) :
    Prop where
  bytes : String.utf8EncodeChar c = lead :: second :: tail
  notAscii : ¬ lead < 0x80
  range : secondBytes lead = some (lo, hi)
  inRange : lo ≤ second ∧ second ≤ hi
  isTail : ∀ b ∈ tail, IsTail b
  length : tail.length = bytesAfterSecond lead
  value : (second :: tail).foldl addBits (leadBits lead) = c.val.toNat

theorem ofNat_val (c : Char) : Char.ofNat c.val.toNat = c := by
  rw [Char.ofNat, dif_pos c.valid]
  rfl

theorem isValidChar_val (c : Char) :
    c.val.toNat < 0xD800 ∨ 0xDFFF < c.val.toNat ∧ c.val.toNat < 0x110000 := c.valid

theorem toNat_ofNat_byte {n : Nat} (h : n < 256) : (UInt8.ofNat n).toNat = n := by
  rw [UInt8.toNat_ofNat']
  exact Nat.mod_eq_of_lt h

theorem byte_le_iff (m n : Nat) (hm : m < 256) (hn : n < 256) :
    UInt8.ofNat m ≤ .ofNat n ↔ m ≤ n := by
  rw [UInt8.le_iff_toNat_le, toNat_ofNat_byte hm, toNat_ofNat_byte hn]

theorem byte_lt_iff (m n : Nat) (hm : m < 256) (hn : n < 256) :
    UInt8.ofNat m < .ofNat n ↔ m < n := by
  rw [UInt8.lt_iff_toNat_lt, toNat_ofNat_byte hm, toNat_ofNat_byte hn]

/-- A byte of six bits behind the mark of a byte that is not the first. -/
theorem isTail_ofNat {n : Nat} (h : n < 64) : IsTail (.ofNat (n + 0x80)) :=
  ⟨(byte_le_iff 128 _ (by omega) (by omega)).mpr (by omega),
    (byte_le_iff _ 191 (by omega) (by omega)).mpr (by omega)⟩

theorem secondBytes_ofNat {n : Nat} (h : n < 256) : secondBytes (.ofNat n) =
    if 194 ≤ n ∧ n ≤ 223 then some (0x80, 0xBF)
    else if n = 224 then some (0xA0, 0xBF)
    else if n = 237 then some (0x80, 0x9F)
    else if 225 ≤ n ∧ n ≤ 239 then some (0x80, 0xBF)
    else if n = 240 then some (0x90, 0xBF)
    else if n = 244 then some (0x80, 0x8F)
    else if 241 ≤ n ∧ n ≤ 243 then some (0x80, 0xBF)
    else none := by
  have hb : (UInt8.ofNat n).toNat = n := toNat_ofNat_byte h
  simp only [secondBytes, UInt8.le_iff_toNat_le, ← UInt8.toNat_inj, hb]
  rfl

theorem multibyte_two {c : Char} (h₁ : 0x7f < c.val.toNat) (h₂ : c.val.toNat ≤ 0x7ff) :
    ∃ lead second tail lo hi, Multibyte c lead second tail lo hi := by
  have hlead : (UInt8.ofNat (c.val.toNat / 64 + 0xc0)).toNat = c.val.toNat / 64 + 192 :=
    toNat_ofNat_byte (by omega)
  have hsecond : (UInt8.ofNat (c.val.toNat % 64 + 0x80)).toNat = c.val.toNat % 64 + 128 :=
    toNat_ofNat_byte (by omega)
  have hle : UInt8.ofNat (c.val.toNat / 64 + 0xc0) ≤ 0xDF :=
    (byte_le_iff _ 223 (by omega) (by omega)).mpr (by omega)
  refine ⟨.ofNat (c.val.toNat / 64 + 0xc0), .ofNat (c.val.toNat % 64 + 0x80), [], 0x80, 0xBF,
    ?_, ?_, ?_, isTail_ofNat (by omega), by simp, ?_, ?_⟩
  · rw [String.utf8EncodeChar]
    simp only [if_neg (show ¬ c.val.toNat ≤ 0x7f by omega), if_pos h₂]
    congr 3
    omega
  · intro h
    have hlt := (byte_lt_iff _ 128 (by omega) (by omega)).mp h
    omega
  · rw [secondBytes_ofNat (by omega), if_pos (by omega)]
  · rw [bytesAfterSecond, if_pos hle]
    rfl
  · rw [leadBits, if_pos hle, List.foldl_cons, List.foldl_nil, addBits, hlead, hsecond]
    omega

theorem multibyte_three {c : Char} (h₁ : 0x7ff < c.val.toNat) (h₂ : c.val.toNat ≤ 0xffff) :
    ∃ lead second tail lo hi, Multibyte c lead second tail lo hi := by
  have hvalid := isValidChar_val c
  obtain ⟨n, hn⟩ : ∃ n, c.val.toNat / 4096 + 0xe0 = n := ⟨_, rfl⟩
  obtain ⟨m, hm⟩ : ∃ m, c.val.toNat / 64 % 64 + 0x80 = m := ⟨_, rfl⟩
  have hle : ¬ UInt8.ofNat n ≤ 0xDF := by
    intro h
    have hle := (byte_le_iff _ 223 (by omega) (by omega)).mp h
    omega
  have hle' : UInt8.ofNat n ≤ 0xEF := (byte_le_iff _ 239 (by omega) (by omega)).mpr (by omega)
  -- no character starts with an overlong form or is a surrogate
  obtain ⟨lo, hi, hrange, hin⟩ : ∃ lo hi, secondBytes (.ofNat n) = some (lo, hi) ∧
      lo ≤ UInt8.ofNat m ∧ UInt8.ofNat m ≤ hi := by
    rw [secondBytes_ofNat (by omega), if_neg (by omega)]
    by_cases hfirst : n = 224
    · rw [if_pos hfirst]
      exact ⟨_, _, rfl, (byte_le_iff 160 _ (by omega) (by omega)).mpr (by omega),
        (byte_le_iff _ 191 (by omega) (by omega)).mpr (by omega)⟩
    · rw [if_neg hfirst]
      by_cases hsurrogate : n = 237
      · rw [if_pos hsurrogate]
        exact ⟨_, _, rfl, (byte_le_iff 128 _ (by omega) (by omega)).mpr (by omega),
          (byte_le_iff _ 159 (by omega) (by omega)).mpr (by omega)⟩
      · rw [if_neg hsurrogate, if_pos (by omega), ← hm]
        exact ⟨_, _, rfl, isTail_ofNat (by omega)⟩
  refine ⟨.ofNat n, .ofNat m, [.ofNat (c.val.toNat % 64 + 0x80)], lo, hi, ?_, ?_, hrange, hin,
    ?_, ?_, ?_⟩
  · rw [String.utf8EncodeChar]
    simp only [if_neg (show ¬ c.val.toNat ≤ 0x7f by omega),
      if_neg (show ¬ c.val.toNat ≤ 0x7ff by omega), if_pos h₂, ← hn, ← hm]
    congr 3
    omega
  · intro h
    have hlt := (byte_lt_iff _ 128 (by omega) (by omega)).mp h
    omega
  · intro b hb
    rw [List.mem_singleton.mp hb]
    exact isTail_ofNat (by omega)
  · rw [bytesAfterSecond, if_neg hle, if_pos hle']
    rfl
  · rw [leadBits, if_neg hle, if_pos hle', List.foldl_cons, List.foldl_cons, List.foldl_nil,
      addBits, addBits, toNat_ofNat_byte (by omega), toNat_ofNat_byte (by omega),
      toNat_ofNat_byte (by omega)]
    omega

theorem multibyte_four {c : Char} (h : 0xffff < c.val.toNat) :
    ∃ lead second tail lo hi, Multibyte c lead second tail lo hi := by
  have hvalid := isValidChar_val c
  obtain ⟨n, hn⟩ : ∃ n, c.val.toNat / 262144 + 0xf0 = n := ⟨_, rfl⟩
  obtain ⟨m, hm⟩ : ∃ m, c.val.toNat / 4096 % 64 + 0x80 = m := ⟨_, rfl⟩
  have hle : ¬ UInt8.ofNat n ≤ 0xDF := by
    intro h
    have hle := (byte_le_iff _ 223 (by omega) (by omega)).mp h
    omega
  have hle' : ¬ UInt8.ofNat n ≤ 0xEF := by
    intro h
    have hle := (byte_le_iff _ 239 (by omega) (by omega)).mp h
    omega
  obtain ⟨lo, hi, hrange, hin⟩ : ∃ lo hi, secondBytes (.ofNat n) = some (lo, hi) ∧
      lo ≤ UInt8.ofNat m ∧ UInt8.ofNat m ≤ hi := by
    rw [secondBytes_ofNat (by omega), if_neg (by omega), if_neg (by omega), if_neg (by omega),
      if_neg (by omega)]
    by_cases hfirst : n = 240
    · rw [if_pos hfirst]
      exact ⟨_, _, rfl, (byte_le_iff 144 _ (by omega) (by omega)).mpr (by omega),
        (byte_le_iff _ 191 (by omega) (by omega)).mpr (by omega)⟩
    · rw [if_neg hfirst]
      by_cases hlast : n = 244
      · rw [if_pos hlast]
        exact ⟨_, _, rfl, (byte_le_iff 128 _ (by omega) (by omega)).mpr (by omega),
          (byte_le_iff _ 143 (by omega) (by omega)).mpr (by omega)⟩
      · rw [if_neg hlast, if_pos (by omega), ← hm]
        exact ⟨_, _, rfl, isTail_ofNat (by omega)⟩
  refine ⟨.ofNat n, .ofNat m,
    [.ofNat (c.val.toNat / 64 % 64 + 0x80), .ofNat (c.val.toNat % 64 + 0x80)], lo, hi, ?_, ?_,
    hrange, hin, ?_, ?_, ?_⟩
  · rw [String.utf8EncodeChar]
    simp only [if_neg (show ¬ c.val.toNat ≤ 0x7f by omega),
      if_neg (show ¬ c.val.toNat ≤ 0x7ff by omega),
      if_neg (show ¬ c.val.toNat ≤ 0xffff by omega), ← hn, ← hm]
    congr 3
    omega
  · intro h
    have hlt := (byte_lt_iff _ 128 (by omega) (by omega)).mp h
    omega
  · intro b hb
    rcases List.mem_cons.mp hb with rfl | hb
    · exact isTail_ofNat (by omega)
    · rw [List.mem_singleton.mp hb]
      exact isTail_ofNat (by omega)
  · rw [bytesAfterSecond, if_neg hle, if_neg hle']
    rfl
  · rw [leadBits, if_neg hle, if_neg hle', List.foldl_cons, List.foldl_cons, List.foldl_cons,
      List.foldl_nil, addBits, addBits, addBits, toNat_ofNat_byte (by omega),
      toNat_ofNat_byte (by omega), toNat_ofNat_byte (by omega), toNat_ofNat_byte (by omega)]
    omega

theorem exists_multibyte {c : Char} (h : 0x7f < c.val.toNat) :
    ∃ lead second tail lo hi, Multibyte c lead second tail lo hi := by
  by_cases h₂ : c.val.toNat ≤ 0x7ff
  · exact multibyte_two h h₂
  · by_cases h₃ : c.val.toNat ≤ 0xffff
    · exact multibyte_three (by omega) h₃
    · exact multibyte_four (by omega)

/-- The rest of a character, byte for byte. -/
theorem decodeUtf8_within (bits : Nat) (lo hi b : UInt8) (tail rest : List UInt8)
    (hb : lo ≤ b ∧ b ≤ hi) (htail : ∀ x ∈ tail, IsTail x) :
    decodeUtf8 (.within bits (tail.length + 1) lo hi) (b :: (tail ++ rest)) =
      .ofNat ((b :: tail).foldl addBits bits) :: decodeUtf8 .start rest := by
  induction tail generalizing bits lo hi b with
  | nil => simp [decodeUtf8, stepUtf8, hb, addBits]
  | cons x tail ih =>
    have hx := htail x List.mem_cons_self
    have hnext := ih (addBits bits b) 0x80 0xBF x hx fun y hy => htail y (List.mem_cons_of_mem x hy)
    rw [List.cons_append, decodeUtf8, stepUtf8, if_pos hb, List.length_cons]
    simp only [if_neg (show ¬ tail.length + 1 + 1 ≤ 1 by omega), Nat.add_sub_cancel,
      List.nil_append]
    exact hnext

theorem decodeUtf8_within_part (bits left : Nat) (lo hi : UInt8) (part : List UInt8)
    (hlength : part.length < left) (hhead : ∀ b ∈ part.head?, lo ≤ b ∧ b ≤ hi)
    (htail : ∀ x ∈ part.tail, IsTail x) :
    decodeUtf8 (.within bits left lo hi) part = ['\uFFFD'] := by
  induction part generalizing bits left lo hi with
  | nil => rfl
  | cons b part ih =>
    rw [List.length_cons] at hlength
    rw [decodeUtf8, stepUtf8, if_pos (hhead b rfl)]
    simp only [if_neg (show ¬ left ≤ 1 by omega), List.nil_append]
    apply ih
    · omega
    · intro x hx
      exact htail x (List.mem_of_mem_head? hx)
    · intro x hx
      exact htail x (List.mem_of_mem_tail hx)

theorem decodeUtf8_encodeChar (c : Char) (rest : List UInt8) :
    decodeUtf8 .start (String.utf8EncodeChar c ++ rest) = c :: decodeUtf8 .start rest := by
  by_cases h : c.val.toNat ≤ 0x7f
  · have hbyte : String.utf8EncodeChar c = [.ofNat c.val.toNat] := if_pos h
    have hlt : UInt8.ofNat c.val.toNat < 0x80 :=
      (byte_lt_iff _ 128 (by omega) (by omega)).mpr (by omega)
    rw [hbyte, List.singleton_append, decodeUtf8, stepUtf8, startUtf8, if_pos hlt,
      toNat_ofNat_byte (by omega), ofNat_val]
    rfl
  · obtain ⟨lead, second, tail, lo, hi, hc⟩ := exists_multibyte (Nat.lt_of_not_le h)
    rw [hc.bytes, List.cons_append, decodeUtf8, stepUtf8, startUtf8, if_neg hc.notAscii]
    simp only [hc.range, ← hc.length, List.nil_append]
    rw [List.cons_append, decodeUtf8_within _ _ _ _ _ _ hc.inRange hc.isTail, hc.value, ofNat_val]

/-- The bytes of a text are decoded to it, whatever follows them. -/
theorem fromUtf8Lossy_asBytes_append (s : Text) (rest : List UInt8) :
    fromUtf8Lossy (s.asBytes ++ rest) = s ++ fromUtf8Lossy rest := by
  induction s with
  | nil => rfl
  | cons c s ih =>
    rw [asBytes, List.flatMap_cons, List.append_assoc, fromUtf8Lossy, decodeUtf8_encodeChar]
    exact congrArg (List.cons c) ih

theorem fromUtf8Lossy_asBytes (s : Text) : fromUtf8Lossy s.asBytes = s := by
  have h := fromUtf8Lossy_asBytes_append s []
  rw [List.append_nil] at h
  exact h.trans (List.append_nil s)

theorem asBytes_of_fromUtf8 {bytes : List UInt8} {s : Text} (h : fromUtf8 bytes = some s) :
    s.asBytes = bytes := by
  unfold fromUtf8 at h
  dsimp only at h
  split at h
  · rename_i hbytes
    rw [← Option.some.inj h]
    exact hbytes
  · cases h

theorem le_of_secondBytes {lead lo hi : UInt8} (h : secondBytes lead = some (lo, hi)) :
    0x80 ≤ lo := by
  unfold secondBytes at h
  split_ifs at h <;> (cases h; decide)

theorem exists_of_mem_asBytes {s : Text} {b : UInt8} (hb : b < 0x80) (h : b ∈ s.asBytes) :
    ∃ c ∈ s, c.val.toNat = b.toNat := by
  obtain ⟨c, hc, hbyte⟩ := List.mem_flatMap.mp h
  refine ⟨c, hc, ?_⟩
  by_cases hlow : c.val.toNat ≤ 0x7f
  · have hbytes : String.utf8EncodeChar c = [.ofNat c.val.toNat] := if_pos hlow
    rw [hbytes, List.mem_singleton] at hbyte
    rw [hbyte, toNat_ofNat_byte (by omega)]
  · exfalso
    obtain ⟨lead, second, tail, lo, hi, hform⟩ := exists_multibyte (Nat.lt_of_not_le hlow)
    rw [hform.bytes] at hbyte
    have hsecond : 0x80 ≤ second :=
      UInt8.le_trans (le_of_secondBytes hform.range) hform.inRange.1
    rcases List.mem_cons.mp hbyte with rfl | hbyte
    · exact hform.notAscii hb
    · rcases List.mem_cons.mp hbyte with rfl | hbyte
      · exact absurd hb (UInt8.not_lt.mpr hsecond)
      · exact absurd hb (UInt8.not_lt.mpr (hform.isTail b hbyte).1)

/-- The first bytes of a character, but not all of them, are one replacement. -/
theorem fromUtf8Lossy_part (c : Char) {n : Nat} (hpos : 0 < n) (hn : n < c.utf8Size) :
    fromUtf8Lossy ((String.utf8EncodeChar c).take n) = ['\uFFFD'] := by
  have hsize : (String.utf8EncodeChar c).length = c.utf8Size := String.length_utf8EncodeChar c
  have hlarge : 0x7f < c.val.toNat := by
    by_contra hsmall
    have hbyte : String.utf8EncodeChar c = [.ofNat c.val.toNat] := if_pos (Nat.le_of_not_lt hsmall)
    rw [hbyte, List.length_singleton] at hsize
    omega
  obtain ⟨lead, second, tail, lo, hi, hc⟩ := exists_multibyte hlarge
  obtain ⟨m, rfl⟩ : ∃ m, n = m + 1 := ⟨n - 1, by omega⟩
  rw [hc.bytes, List.length_cons, List.length_cons] at hsize
  rw [hc.bytes, List.take_succ_cons, fromUtf8Lossy, decodeUtf8, stepUtf8, startUtf8,
    if_neg hc.notAscii]
  simp only [hc.range, ← hc.length, List.nil_append]
  apply decodeUtf8_within_part
  · rw [List.length_take, List.length_cons]
    omega
  · intro b hb
    cases m with
    | zero => cases hb
    | succ m =>
      cases hb
      exact hc.inRange
  · intro x hx
    cases m with
    | zero => cases hx
    | succ m => exact hc.isTail x (List.mem_of_mem_take hx)

end CommandCenter.Rust.Text
