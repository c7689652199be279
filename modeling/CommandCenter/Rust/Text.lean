import Mathlib.Algebra.Order.Ring.Nat
import Mathlib.Algebra.BigOperators.Group.List.Basic
import Mathlib.Data.List.DropRight

/-!
# Strings

A Rust `String` or `&str` is the list of its `char`s, and a Lean `Char` is a Unicode scalar
value as a Rust `char` is. The ASCII case operations of the standard library fold the
letters `A` to `Z` alone; on valid UTF-8 the comparison of bytes they are defined by is the
comparison of characters here.
-/

namespace CommandCenter.Rust

abbrev Text := List Char

namespace Text

/-- `str::len`, the length of the UTF-8 encoding in bytes. -/
def len (s : Text) : Nat := (s.map Char.utf8Size).sum

/-- `str::to_ascii_lowercase`. -/
def toAsciiLowercase (s : Text) : Text := s.map Char.toLower

/-- `str::to_ascii_uppercase`. -/
def toAsciiUppercase (s : Text) : Text := s.map Char.toUpper

/-- `str::eq_ignore_ascii_case`. -/
def eqIgnoreAsciiCase (s t : Text) : Bool := s.toAsciiLowercase == t.toAsciiLowercase

/-- `str::is_ascii`. -/
def isAscii (s : Text) : Bool := s.all fun c => c.val < 128

/-- `str::as_bytes`, the UTF-8 encoding. -/
def asBytes (s : Text) : List UInt8 := s.flatMap String.utf8EncodeChar

/-- `u8::to_ascii_lowercase`. -/
def byteToAsciiLowercase (b : UInt8) : UInt8 := if 65 ≤ b ∧ b ≤ 90 then b + 32 else b

/-- `u8::to_ascii_uppercase`. -/
def byteToAsciiUppercase (b : UInt8) : UInt8 := if 97 ≤ b ∧ b ≤ 122 then b - 32 else b

/-- `char::is_whitespace`, the Unicode property `White_Space`. -/
def isWhitespace (c : Char) : Bool :=
  (0x09 ≤ c.val && c.val ≤ 0x0D) || (0x2000 ≤ c.val && c.val ≤ 0x200A) ||
    c.val ∈ ([0x20, 0x85, 0xA0, 0x1680, 0x2028, 0x2029, 0x202F, 0x205F, 0x3000] : List UInt32)

/-- `str::trim`. -/
def trim (s : Text) : Text := (s.dropWhile isWhitespace).rdropWhile isWhitespace

/-- `str::split_whitespace`. -/
def splitWhitespace (s : Text) : List Text := (s.splitOnP isWhitespace).filter (· ≠ [])

/-- `str::rsplit_once` at a character: the parts before and after its last occurrence. -/
def rsplitOnce (sep : Char) : Text → Option (Text × Text)
  | [] => none
  | c :: rest =>
    match rsplitOnce sep rest with
    | some (base, suffix) => some (c :: base, suffix)
    | none => if c = sep then some ([], rest) else none

/-- `str::split_once` at a character: the parts before and after its first occurrence. -/
def splitOnce (sep : Char) : Text → Option (Text × Text)
  | [] => none
  | c :: rest =>
    if c = sep then some ([], rest)
    else (splitOnce sep rest).map fun parts => (c :: parts.1, parts.2)

/-- `(&s[..n], &s[n..])`; `none` is the panic where `n` is past the end or inside a character. -/
def splitAtByte : Text → Nat → Option (Text × Text)
  | s, 0 => some ([], s)
  | [], _ + 1 => none
  | c :: s, n + 1 =>
    if c.utf8Size ≤ n + 1 then
      (splitAtByte s (n + 1 - c.utf8Size)).map fun parts => (c :: parts.1, parts.2)
    else none

theorem eqIgnoreAsciiCase_iff {s t : Text} :
    s.eqIgnoreAsciiCase t = true ↔ s.toAsciiLowercase = t.toAsciiLowercase := by
  simp [eqIgnoreAsciiCase]

theorem len_append (s t : Text) : len (s ++ t) = len s + len t := by
  simp [len]

/-- A character takes a byte at least. -/
theorem length_le_len (s : Text) : s.length ≤ len s := by
  induction s with
  | nil => exact Nat.le_refl _
  | cons c s ih =>
    have hsize : 0 < c.utf8Size := c.utf8Size_pos
    simp only [len, List.map_cons, List.sum_cons, List.length_cons] at ih ⊢
    omega

theorem len_of_ascii {s : Text} (h : ∀ c ∈ s, c.val.toNat < 128) : s.len = s.length := by
  induction s with
  | nil => rfl
  | cons c s ih =>
    have hc : c.utf8Size = 1 := by
      rw [Char.utf8Size_eq_one_iff, UInt32.le_iff_toNat_le]
      exact Nat.le_of_lt_succ (h c List.mem_cons_self)
    have hs := ih fun d hd => h d (List.mem_cons_of_mem _ hd)
    rw [len, List.map_cons, List.sum_cons, hc, ← len, hs, List.length_cons, Nat.add_comm]

theorem asBytes_of_ascii {s : Text} (h : ∀ c ∈ s, c.val.toNat < 128) :
    s.asBytes = s.map fun c => .ofNat c.val.toNat := by
  rw [asBytes, List.map_eq_flatMap]
  exact List.flatMap_congr fun c hc => if_pos (Nat.le_of_lt_succ (h c hc))

/-- Before a boundary stand whole characters. -/
theorem splitAtByte_append (s t : Text) : splitAtByte (s ++ t) (len s) = some (s, t) := by
  induction s with
  | nil => cases t <;> rfl
  | cons c s ih =>
    have hsize : 0 < c.utf8Size := c.utf8Size_pos
    obtain ⟨n, hn⟩ : ∃ n, len (c :: s) = n + 1 := ⟨len (c :: s) - 1, by simp [len]; omega⟩
    have hlen : c.utf8Size ≤ n + 1 ∧ n + 1 - c.utf8Size = len s := by
      simp only [len, List.map_cons, List.sum_cons] at hn ⊢
      omega
    rw [hn, List.cons_append, splitAtByte, if_pos hlen.1, hlen.2, ih]
    rfl

theorem rsplitOnce_eq_none_iff {sep : Char} {s : Text} : s.rsplitOnce sep = none ↔ sep ∉ s := by
  induction s with
  | nil => simp [rsplitOnce]
  | cons c rest ih =>
    cases h : rsplitOnce sep rest with
    | some p =>
      have hmem : sep ∈ rest := by
        by_contra hn
        rw [ih.mpr hn] at h
        cases h
      simp [rsplitOnce, h, hmem]
    | none =>
      have hn : sep ∉ rest := ih.mp h
      by_cases hc : c = sep
      · simp [rsplitOnce, h, hc]
      · simp [rsplitOnce, h, hc, hn, Ne.symm hc]

/-- The two parts and the separator between them make up the string, and the part after it
has no separator. -/
theorem rsplitOnce_spec {sep : Char} {s base suffix : Text}
    (h : s.rsplitOnce sep = some (base, suffix)) :
    s = base ++ sep :: suffix ∧ sep ∉ suffix := by
  induction s generalizing base with
  | nil => cases h
  | cons c rest ih =>
    unfold rsplitOnce at h
    split at h
    · rename_i b t hrest
      obtain ⟨rfl, rfl⟩ : c :: b = base ∧ t = suffix := by simpa using h
      obtain ⟨he, hn⟩ := ih hrest
      exact ⟨by rw [he]; rfl, hn⟩
    · rename_i hrest
      split at h
      · rename_i hc
        obtain ⟨rfl, rfl⟩ : [] = base ∧ rest = suffix := by simpa using h
        exact ⟨by rw [hc]; rfl, rsplitOnce_eq_none_iff.mp hrest⟩
      · cases h

theorem rsplitOnce_append {sep : Char} (base : Text) {suffix : Text} (h : sep ∉ suffix) :
    (base ++ sep :: suffix).rsplitOnce sep = some (base, suffix) := by
  induction base with
  | nil =>
    show rsplitOnce sep (sep :: suffix) = _
    rw [rsplitOnce, rsplitOnce_eq_none_iff.mpr h]
    exact if_pos rfl
  | cons c base ih =>
    show rsplitOnce sep (c :: (base ++ sep :: suffix)) = _
    rw [rsplitOnce, ih]

theorem splitOnce_append {sep : Char} {s : Text} (h : sep ∉ s) (t : Text) :
    splitOnce sep (s ++ sep :: t) = some (s, t) := by
  induction s with
  | nil => simp [splitOnce]
  | cons c s ih =>
    have hc : c ≠ sep := (List.ne_of_not_mem_cons h).symm
    rw [List.cons_append, splitOnce, if_neg hc, ih (List.not_mem_of_not_mem_cons h)]
    rfl

/-- The two parts and the separator between them make up the string, and the part before it
has no separator. -/
theorem splitOnce_spec {sep : Char} {s before after : Text}
    (h : s.splitOnce sep = some (before, after)) :
    s = before ++ sep :: after ∧ sep ∉ before := by
  induction s generalizing before with
  | nil => cases h
  | cons c rest ih =>
    unfold splitOnce at h
    split at h
    · rename_i hc
      obtain ⟨rfl, rfl⟩ := Prod.mk.inj (Option.some.inj h)
      exact ⟨by rw [hc]; rfl, List.not_mem_nil⟩
    · rename_i hc
      obtain ⟨⟨before', after'⟩, hrest, hparts⟩ := Option.map_eq_some_iff.mp h
      obtain ⟨rfl, rfl⟩ := Prod.mk.inj hparts
      obtain ⟨he, hn⟩ := ih hrest
      refine ⟨by rw [he]; rfl, fun hmem => ?_⟩
      rcases List.mem_cons.mp hmem with hsep | hmem
      · exact hc hsep.symm
      · exact hn hmem

theorem toLower_cases (c : Char) : c.toLower = c ∨
    (65 ≤ c.val.toNat ∧ c.val.toNat ≤ 90 ∧ c.toLower.val.toNat = c.val.toNat + 32) := by
  unfold Char.toLower
  split
  · rename_i h
    have h₁ : 65 ≤ c.val.toNat := UInt32.le_iff_toNat_le.mp h.1
    have h₂ : c.val.toNat ≤ 90 := UInt32.le_iff_toNat_le.mp h.2
    refine Or.inr ⟨h₁, h₂, ?_⟩
    change (c.val + 32).toNat = _
    rw [UInt32.toNat_add]
    change (c.val.toNat + 32) % 2 ^ 32 = _
    omega
  · exact Or.inl rfl

/-- A character in front of the letters is kept, and no other becomes it. -/
theorem mem_toAsciiLowercase_iff {c : Char} (hc : c.val.toNat < 65) {s : Text} :
    c ∈ s.toAsciiLowercase ↔ c ∈ s := by
  rw [toAsciiLowercase, List.mem_map]
  constructor
  · rintro ⟨d, hd, rfl⟩
    rcases toLower_cases d with hsame | ⟨_, _, hhigh⟩
    · exact hsame.symm ▸ hd
    · omega
  · intro h
    rcases toLower_cases c with hsame | ⟨hlow, _, _⟩
    · exact ⟨c, h, hsame⟩
    · omega

theorem byteToAsciiUppercase_upper {n : Nat} (h : n ≤ 90) :
    byteToAsciiUppercase (.ofNat n) = .ofNat n := by
  apply if_neg
  rw [UInt8.le_iff_toNat_le, UInt8.toNat_ofNat']
  change ¬ (97 ≤ n % 256 ∧ _)
  omega

theorem byteToAsciiUppercase_lower {n : Nat} (h₁ : 65 ≤ n) (h₂ : n ≤ 90) :
    byteToAsciiUppercase (.ofNat (n + 32)) = .ofNat n := by
  have hn : (UInt8.ofNat (n + 32)).toNat = n + 32 := by
    rw [UInt8.toNat_ofNat']
    omega
  have hlower : (97 : UInt8) ≤ .ofNat (n + 32) ∧ (UInt8.ofNat (n + 32)) ≤ 122 := by
    rw [UInt8.le_iff_toNat_le, UInt8.le_iff_toNat_le, hn]
    exact ⟨Nat.add_le_add_right h₁ 32, Nat.add_le_add_right h₂ 32⟩
  rw [byteToAsciiUppercase, if_pos hlower, UInt8.ofNat_add]
  exact UInt8.add_sub_cancel _ _

/-- Only the letters differ in their encodings, and there in what uppercasing undoes. -/
theorem uppercase_encode_toLower (c : Char) :
    (String.utf8EncodeChar c.toLower).map byteToAsciiUppercase =
      (String.utf8EncodeChar c).map byteToAsciiUppercase := by
  have hascii : ∀ d : Char, d.val.toNat ≤ 127 →
      String.utf8EncodeChar d = [.ofNat d.val.toNat] := fun _ h => if_pos h
  rcases toLower_cases c with h | ⟨h₁, h₂, h⟩
  · rw [h]
  · rw [hascii c (by omega), hascii c.toLower (by omega), h, List.map_singleton,
      List.map_singleton, byteToAsciiUppercase_upper h₂, byteToAsciiUppercase_lower h₁ h₂]

/-- Two strings that differ in the case of ASCII letters alone have one uppercase encoding. -/
theorem uppercase_asBytes_eq {s t : Text} (h : s.eqIgnoreAsciiCase t = true) :
    s.asBytes.map byteToAsciiUppercase = t.asBytes.map byteToAsciiUppercase := by
  have hfold : ∀ u : Text, u.toAsciiLowercase.asBytes.map byteToAsciiUppercase =
      u.asBytes.map byteToAsciiUppercase := by
    intro u
    induction u with
    | nil => rfl
    | cons c rest ih =>
      simp only [asBytes, toAsciiLowercase, List.map_cons, List.flatMap_cons,
        List.map_append] at ih ⊢
      rw [uppercase_encode_toLower, ih]
  rw [← hfold s, ← hfold t, eqIgnoreAsciiCase_iff.mp h]

theorem toLower_toLower (c : Char) : c.toLower.toLower = c.toLower := by
  rcases toLower_cases c with h | ⟨_, _, h⟩
  · rw [h, h]
  · rcases toLower_cases c.toLower with h' | ⟨_, h', _⟩
    · exact h'
    · omega

theorem isAlpha_iff {c : Char} :
    c.isAlpha = true ↔
      65 ≤ c.val.toNat ∧ c.val.toNat ≤ 90 ∨ 97 ≤ c.val.toNat ∧ c.val.toNat ≤ 122 := by
  change (decide (c.val ≥ 'A'.val ∧ c.val ≤ 'Z'.val) ||
    (decide (c.val ≥ 'a'.val) && decide (c.val ≤ 'z'.val))) = true ↔ _
  simp only [Bool.or_eq_true, Bool.and_eq_true, decide_eq_true_eq, UInt32.le_iff_toNat_le,
    ge_iff_le]
  exact Iff.rfl

theorem isAlphanum_bounds {c : Char} (h : c.isAlphanum = true) :
    0x20 < c.val.toNat ∧ c.val.toNat < 128 := by
  rw [Char.isAlphanum, Bool.or_eq_true, isAlpha_iff, Char.isDigit, Bool.and_eq_true,
    decide_eq_true_eq, decide_eq_true_eq] at h
  rcases h with hletter | ⟨hlow, hhigh⟩
  · omega
  · have hlow : 48 ≤ c.val.toNat := hlow
    have hhigh : c.val.toNat ≤ 57 := hhigh
    omega

theorem isWhitespace_eq_false {c : Char}
    (h : 65 ≤ c.val.toNat ∧ c.val.toNat ≤ 90 ∨ 97 ≤ c.val.toNat ∧ c.val.toNat ≤ 122) :
    isWhitespace c = false := by
  simp [isWhitespace, UInt32.le_iff_toNat_le, ← UInt32.toNat_inj] at *
  omega

/-- ASCII that is neither a space nor a control character. -/
theorem isWhitespace_printable {c : Char} (hlow : 0x20 < c.val.toNat) (hhigh : c.val.toNat < 128) :
    isWhitespace c = false := by
  simp [isWhitespace, UInt32.le_iff_toNat_le, ← UInt32.toNat_inj] at *
  omega

theorem isWhitespace_toLower (c : Char) : isWhitespace c.toLower = isWhitespace c := by
  rcases toLower_cases c with h | ⟨h₁, h₂, h⟩
  · rw [h]
  · rw [isWhitespace_eq_false (Or.inl ⟨h₁, h₂⟩), isWhitespace_eq_false (Or.inr (by omega))]

theorem trim_map {f : Char → Char} (hf : ∀ c, isWhitespace (f c) = isWhitespace c) (s : Text) :
    trim (s.map f) = (trim s).map f := by
  have hcomp : isWhitespace ∘ f = isWhitespace := funext hf
  simp only [trim, List.rdropWhile, List.dropWhile_map, ← List.map_reverse, hcomp]

theorem trim_eq_self {s : Text} (hhead : ∀ c ∈ s.head?, isWhitespace c = false)
    (hlast : ∀ c ∈ s.getLast?, isWhitespace c = false) : trim s = s := by
  have hdrop : s.dropWhile isWhitespace = s := by
    apply List.dropWhile_eq_self_iff.mpr
    intro hpos
    rw [hhead _ (by rw [List.head?_eq_getElem?]; exact List.getElem?_eq_getElem hpos)]
    exact Bool.false_ne_true
  rw [trim, hdrop]
  apply List.rdropWhile_eq_self_iff.mpr
  intro hne
  rw [hlast _ (List.getLast?_eq_getLast_of_ne_nil hne)]
  exact Bool.false_ne_true

theorem trim_word {s : Text} (h : ∀ c ∈ s, isWhitespace c = false) : trim s = s :=
  trim_eq_self (fun c hc => h c (List.mem_of_mem_head? hc))
    fun c hc => h c (List.mem_of_getLast? hc)

theorem splitWhitespace_word {s : Text} (hne : s ≠ []) (h : ∀ c ∈ s, isWhitespace c = false) :
    splitWhitespace s = [s] := by
  rw [splitWhitespace, List.splitOnP_eq_singleton h]
  simp [hne]

theorem trim_trim (s : Text) : trim (trim s) = trim s := by
  have hhead : (trim s).dropWhile isWhitespace = trim s := by
    apply List.dropWhile_eq_self_iff.mpr
    intro hpos
    have hpre : trim s <+: s.dropWhile isWhitespace := List.rdropWhile_prefix _ _
    have hpos' := Nat.lt_of_lt_of_le hpos hpre.length_le
    rw [hpre.getElem hpos]
    exact List.dropWhile_get_zero_not _ _ hpos'
  rw [trim, hhead, trim, List.rdropWhile_idempotent]

end Text

theorem mem_intercalate {sep c : Char} {texts : List Text} (h : c ∈ [sep].intercalate texts) :
    c = sep ∨ ∃ text ∈ texts, c ∈ text := by
  induction texts with
  | nil => cases h
  | cons text texts ih =>
    cases texts with
    | nil =>
      rw [List.intercalate_singleton] at h
      exact .inr ⟨text, List.mem_cons_self, h⟩
    | cons next texts =>
      rw [List.intercalate_cons_cons, List.append_assoc, List.mem_append, List.singleton_append,
        List.mem_cons] at h
      rcases h with h | rfl | h
      · exact .inr ⟨text, List.mem_cons_self, h⟩
      · exact .inl rfl
      · rcases ih h with rfl | ⟨other, hother, hc⟩
        · exact .inl rfl
        · exact .inr ⟨other, List.mem_cons_of_mem text hother, hc⟩

/-!
## Lower case

`str::to_lowercase` maps character by character, with tables that grow with each version of
Unicode; the one rule beside the tables is that a capital sigma at the end of a word is `ς`.

* `toLowercase_congr`: the case of ASCII letters does not matter to it.
-/

/-- The tables of a version of Unicode, for characters outside ASCII. Of the two properties that
tell the end of a word, those of ASCII letters do not change. -/
structure CaseTables where
  /-- `conversions::to_lower`. -/
  lower : Char → Text
  /-- `Cased`. -/
  cased : Char → Bool
  /-- `Case_Ignorable`. -/
  ignorable : Char → Bool
  cased_letter : ∀ c : Char, c.isAlpha → cased c = true
  ignorable_letter : ∀ c : Char, c.isAlpha → ignorable c = false

namespace CaseTables

variable (t : CaseTables)

def caseIgnorableThenCased (s : Text) : Bool :=
  match s.dropWhile t.ignorable with
  | c :: _ => t.cased c
  | [] => false

/-- `map_uppercase_sigma`, with the characters before in reverse: `ς` ends a word, and `σ` does
not. -/
def mapUppercaseSigma (before after : Text) : Char :=
  if t.caseIgnorableThenCased before && !t.caseIgnorableThenCased after then .ofNat 0x3C2
  else .ofNat 0x3C3

/-- The lower case of a character at its place. -/
def lowerAt (before : Text) (c : Char) (after : Text) : Text :=
  if c.val < 128 then [c.toLower]
  else if c.val = 0x3A3 then [t.mapUppercaseSigma before after]
  else t.lower c

def lowerFrom (before : Text) : Text → Text
  | [] => []
  | c :: after => t.lowerAt before c after ++ lowerFrom (c :: before) after

theorem cased_toLower (c : Char) : t.cased c.toLower = t.cased c := by
  rcases Text.toLower_cases c with h | ⟨hlow, hhigh, h⟩
  · rw [h]
  · rw [t.cased_letter _ (Text.isAlpha_iff.mpr (Or.inl ⟨hlow, hhigh⟩)),
      t.cased_letter _ (Text.isAlpha_iff.mpr (Or.inr (by omega)))]

theorem ignorable_toLower (c : Char) : t.ignorable c.toLower = t.ignorable c := by
  rcases Text.toLower_cases c with h | ⟨hlow, hhigh, h⟩
  · rw [h]
  · rw [t.ignorable_letter _ (Text.isAlpha_iff.mpr (Or.inl ⟨hlow, hhigh⟩)),
      t.ignorable_letter _ (Text.isAlpha_iff.mpr (Or.inr (by omega)))]

theorem caseIgnorableThenCased_map (s : Text) :
    t.caseIgnorableThenCased (s.map Char.toLower) = t.caseIgnorableThenCased s := by
  have hcomp : t.ignorable ∘ Char.toLower = t.ignorable := funext t.ignorable_toLower
  unfold caseIgnorableThenCased
  rw [List.dropWhile_map, hcomp]
  cases s.dropWhile t.ignorable with
  | nil => rfl
  | cons c _ => exact t.cased_toLower c

theorem lowerAt_toLower (before : Text) (c : Char) (after : Text) :
    t.lowerAt (before.map Char.toLower) c.toLower (after.map Char.toLower) =
      t.lowerAt before c after := by
  unfold lowerAt mapUppercaseSigma
  rw [caseIgnorableThenCased_map, caseIgnorableThenCased_map, Text.toLower_toLower]
  rcases Text.toLower_cases c with h | ⟨_, hhigh, h⟩
  · rw [h]
  · have hascii : c.val < 128 := UInt32.lt_iff_toNat_lt.mpr (Nat.lt_of_le_of_lt hhigh (by decide))
    have hlower : c.toLower.val < 128 := by
      rw [UInt32.lt_iff_toNat_lt, h]
      exact Nat.lt_of_le_of_lt (Nat.add_le_add_right hhigh 32) (by decide)
    rw [if_pos hascii, if_pos hlower]

theorem lowerFrom_map (before s : Text) :
    t.lowerFrom (before.map Char.toLower) (s.map Char.toLower) = t.lowerFrom before s := by
  induction s generalizing before with
  | nil => rfl
  | cons c after ih =>
    rw [List.map_cons, lowerFrom, lowerFrom, lowerAt_toLower, ← ih (c :: before), List.map_cons]

end CaseTables

namespace Text

/-- `str::to_lowercase`. -/
def toLowercase (t : CaseTables) (s : Text) : Text := t.lowerFrom [] s

/-- The case of ASCII letters does not matter. -/
theorem toLowercase_congr (t : CaseTables) {s s' : Text} (h : s.eqIgnoreAsciiCase s' = true) :
    s.toLowercase t = s'.toLowercase t := by
  have hmap (u : Text) : u.toLowercase t = toLowercase t (u.map Char.toLower) :=
    (t.lowerFrom_map [] u).symm
  have hsame : s.map Char.toLower = s'.map Char.toLower := eqIgnoreAsciiCase_iff.mp h
  rw [hmap s, hmap s', hsame]

end Text

end CommandCenter.Rust
