import CommandCenter.Rust.Num
import CommandCenter.Rust.Text

/-!
# Lines, columns and numbers

What a program reads of a text file: its lines, the words of a line, the parts of a word, and the
numbers that these say.

* `lines_append`: a line and the lines after it.
* `splitWhitespace_append`, `splitWhitespace_trim`: the words before a blank and those behind it.
* `splitOn_intercalate_flatMap`: parts that are joined may themselves be split.
* `parseHexU32_digits`, `parseU32_toDigits`: numbers that are written are read back.
-/

namespace CommandCenter.Rust

namespace Text

/-- A line without the carriage return before its end. -/
def stripReturn (line : Text) : Text := if line.getLast? = some '\r' then line.dropLast else line

/-- `str::lines`: a line ends with a newline, and after the last one there may be part of a line. -/
def lines (s : Text) : List Text :=
  let parts := s.splitOn '\n'
  let last := parts.getLastD []
  parts.dropLast.map stripReturn ++ if last = [] then [] else [last]

/-- `str::trim_matches`. -/
def trimMatches (p : Char → Bool) (s : Text) : Text := (s.dropWhile p).rdropWhile p

/-- `str::trim_start_matches` of `0x`. -/
def trimStart0x : Text → Text
  | '0' :: 'x' :: s => trimStart0x s
  | s => s

end Text

/-- `str::parse::<usize>`. -/
def parseUsize (s : Text) : Option Nat := (parseU64 s).map UInt64.toNat

/-- `char::to_digit(16)`. -/
def hexDigit (c : Char) : Option Nat :=
  if '0' ≤ c ∧ c ≤ '9' then some (c.toNat - '0'.toNat)
  else if 'a' ≤ c ∧ c ≤ 'f' then some (c.toNat - 'a'.toNat + 10)
  else if 'A' ≤ c ∧ c ≤ 'F' then some (c.toNat - 'A'.toNat + 10)
  else none

/-- The number of hexadecimal digits behind some others. -/
def hexValue : (before : Nat) → Text → Option Nat
  | before, [] => some before
  | before, c :: s => do hexValue (16 * before + (← hexDigit c)) s

/-- `u32::from_str_radix(s, 16)`. -/
def parseHexU32 (s : Text) : Option UInt32 := do
  let digits := if s.head? = some '+' then s.tail else s
  if digits = [] then none
  else
    let n ← hexValue 0 digits
    if n < 2 ^ 32 then some (.ofNat n) else none

/-! ## Lines -/

namespace Text

section Lines

theorem stripReturn_of_not_mem {line : Text} (h : '\r' ∉ line) : stripReturn line = line :=
  if_neg fun hlast => h (List.mem_of_getLast? hlast)

theorem lines_nil : lines [] = [] := rfl

theorem lines_append {line : Text} (hline : '\n' ∉ line) (rest : Text) :
    lines (line ++ '\n' :: rest) = stripReturn line :: lines rest := by
  have hne := List.splitOn_ne_nil '\n' rest
  unfold lines
  dsimp only
  rw [List.splitOn_append_cons_self_of_not_mem hline, List.dropLast_cons_of_ne_nil hne,
    List.map_cons, List.getLastD_cons, List.getLastD_eq_getLast?, List.getLastD_eq_getLast?]
  obtain ⟨last, hlast⟩ := Option.ne_none_iff_exists'.mp (mt List.getLast?_eq_none_iff.mp hne)
  rw [hlast]
  rfl

theorem lines_flatMap {texts : List Text} (h : ∀ line ∈ texts, '\n' ∉ line ∧ '\r' ∉ line)
    (rest : Text) : lines (texts.flatMap (fun line => line ++ ['\n']) ++ rest) = texts ++ lines rest := by
  induction texts with
  | nil => rfl
  | cons line texts ih =>
    rw [List.forall_mem_cons] at h
    rw [List.flatMap_cons, List.append_assoc, List.append_assoc, List.singleton_append,
      lines_append h.1.1, stripReturn_of_not_mem h.1.2, ih h.2]
    rfl

end Lines

/-! ## Words -/

section Columns

theorem splitWhitespace_append (s : Text) {blank : Char} (hblank : isWhitespace blank = true)
    (rest : Text) :
    splitWhitespace (s ++ blank :: rest) = splitWhitespace s ++ splitWhitespace rest := by
  unfold splitWhitespace
  rw [List.splitOnP_append_cons s rest hblank, List.filter_append]

theorem splitWhitespace_nil : splitWhitespace [] = [] := rfl

/-- Two blanks between a word and what follows it. -/
theorem splitWhitespace_column {word : Text} (hne : word ≠ [])
    (hword : ∀ c ∈ word, isWhitespace c = false) (rest : Text) :
    splitWhitespace (word ++ ' ' :: ' ' :: rest) = word :: splitWhitespace rest := by
  have hblank : splitWhitespace (' ' :: rest) = splitWhitespace rest :=
    splitWhitespace_append [] (by decide) rest
  rw [splitWhitespace_append word (by decide), splitWhitespace_word hne hword, hblank]
  rfl

/-- Blanks around some words are not among them. -/
theorem splitWhitespace_trim (s : Text) : splitWhitespace (trim s) = splitWhitespace s := by
  have hfront : ∀ s : Text, splitWhitespace (s.dropWhile isWhitespace) = splitWhitespace s := by
    intro s
    induction s with
    | nil => rfl
    | cons c s ih =>
      by_cases hc : isWhitespace c = true
      · rw [List.dropWhile_cons_of_pos hc, ih]
        exact (splitWhitespace_append [] hc s).symm
      · rw [List.dropWhile_cons_of_neg hc]
  have hback : ∀ s : Text, splitWhitespace (s.rdropWhile isWhitespace) = splitWhitespace s := by
    intro s
    induction s using List.reverseRecOn with
    | nil => rfl
    | append_singleton s c ih =>
      by_cases hc : isWhitespace c = true
      · rw [List.rdropWhile_concat_pos _ _ _ hc, ih, splitWhitespace_append s hc,
          splitWhitespace_nil, List.append_nil]
      · rw [List.rdropWhile_concat_neg _ _ _ hc]
  rw [trim, hback, hfront]

/-- Joined parts are split into what their own parts are. -/
theorem splitOn_intercalate_flatMap (sep : Char) {texts : List Text} (hne : texts ≠ []) :
    ([sep].intercalate texts).splitOn sep = texts.flatMap fun text => text.splitOn sep := by
  induction texts with
  | nil => exact absurd rfl hne
  | cons text texts ih =>
    cases texts with
    | nil => rw [List.intercalate_singleton, List.flatMap_singleton]
    | cons next texts =>
      rw [List.intercalate_cons_cons, List.append_assoc, List.singleton_append,
        List.splitOn_append_cons_self, ih (List.cons_ne_nil _ _)]
      exact List.flatMap_cons.symm

end Columns

end Text

/-! ## Numbers -/

section Numbers

theorem parseU32_toDigits (n : UInt32) : parseU32 (Nat.toDigits 10 n.toNat) = some n := by
  have hdigit : ∀ c ∈ Nat.toDigits 10 n.toNat, c.isDigit = true := fun c hc =>
    isDigit_of_mem_digits hc
  have hplus : (Nat.toDigits 10 n.toNat).head? ≠ some '+' := by
    intro h
    exact absurd (hdigit '+' (List.mem_of_mem_head? h)) (by decide)
  have hvalue : (Nat.toDigits 10 n.toNat).foldl (fun n c => 10 * n + (c.toNat - '0'.toNat)) 0 =
      n.toNat := Nat.ofDigitChars_toDigits (by decide) (by decide)
  simp only [parseU32, if_neg hplus, hvalue]
  rw [if_pos ⟨Nat.toDigits_ne_nil, List.all_eq_true.mpr hdigit, n.toNat_lt⟩, UInt32.ofNat_toNat]

theorem parseUsize_toDigits {n : Nat} (h : n < 2 ^ 64) : parseUsize (Nat.toDigits 10 n) = some n := by
  have hn : (UInt64.ofNat n).toNat = n := UInt64.toNat_ofNat_of_lt' h
  have hparse := parseU64_toDigits (.ofNat n)
  rw [hn] at hparse
  rw [parseUsize, hparse, Option.map_some, hn]

theorem hexDigit_digitChar : ∀ n < 16, hexDigit n.digitChar = some n := by decide

theorem hexValue_append (before : Nat) (s rest : Text) :
    hexValue before (s ++ rest) = (hexValue before s).bind fun n => hexValue n rest := by
  induction s generalizing before with
  | nil => rfl
  | cons c s ih =>
    rw [List.cons_append, hexValue, hexValue]
    cases hexDigit c with
    | none => rfl
    | some d => exact ih _

theorem hexValue_toDigits (n : Nat) : hexValue 0 (Nat.toDigits 16 n) = some n := by
  induction n using Nat.strongRecOn with
  | _ n ih =>
    rw [Nat.toDigits_eq_if (by decide)]
    split
    · rename_i hn
      rw [hexValue, hexDigit_digitChar n hn]
      show some (16 * 0 + n) = some n
      rw [Nat.mul_zero, Nat.zero_add]
    · rename_i hn
      rw [hexValue_append, ih (n / 16) (by omega), Option.bind_some, hexValue,
        hexDigit_digitChar (n % 16) (Nat.mod_lt n (by decide))]
      exact congrArg some (Nat.div_add_mod n 16)

theorem hexValue_zeros (k : Nat) (s : Text) : hexValue 0 (List.replicate k '0' ++ s) = hexValue 0 s := by
  induction k with
  | zero => rfl
  | succ k ih => exact ih

/-- What a hexadecimal digit is not. -/
theorem isHex_of_mem {c : Char} {n : Nat} (h : c ∈ Nat.toDigits 16 n) :
    ∃ d < 16, c = d.digitChar := by
  induction n using Nat.strongRecOn with
  | _ n ih =>
    rw [Nat.toDigits_eq_if (by decide)] at h
    split at h
    · rename_i hn
      exact ⟨n, hn, List.mem_singleton.mp h⟩
    · rename_i hn
      rcases List.mem_append.mp h with h | h
      · exact ih (n / 16) (by omega) h
      · exact ⟨n % 16, Nat.mod_lt n (by decide), List.mem_singleton.mp h⟩

/-- A hexadecimal number is read back, whatever zeros are before it. -/
theorem parseHexU32_digits (n : UInt32) (k : Nat) :
    parseHexU32 (List.replicate k '0' ++ Nat.toDigits 16 n.toNat) = some n := by
  have hne : List.replicate k '0' ++ Nat.toDigits 16 n.toNat ≠ [] := by
    intro h
    exact Nat.toDigits_ne_nil (List.append_eq_nil_iff.mp h).2
  have hplus : (List.replicate k '0' ++ Nat.toDigits 16 n.toNat).head? ≠ some '+' := by
    intro h
    rcases List.mem_append.mp (List.mem_of_mem_head? h) with hzero | hdigit
    · exact absurd (List.eq_of_mem_replicate hzero) (by decide)
    · obtain ⟨d, hd, heq⟩ := isHex_of_mem hdigit
      revert d
      decide
  unfold parseHexU32
  dsimp only
  rw [if_neg hplus, if_neg hne, hexValue_zeros, hexValue_toDigits]
  show (if n.toNat < 2 ^ 32 then some (UInt32.ofNat n.toNat) else none) = some n
  rw [if_pos n.toNat_lt, UInt32.ofNat_toNat]

end Numbers

end CommandCenter.Rust
