import Mathlib.Data.Bool.AllAny
import CommandCenter.Formats.BniRoundTrip
import CommandCenter.Rust.Chunks
import CommandCenter.Rust.Fields

/-!
# The list of exported icons

`icons.txt`, of `crates/bnetcc-icons/src/pack.rs`: a line for each icon, in the file's order, with
columns that blanks separate. The codes of an icon are one column, with commas between them, and
what is behind a `#` is a comment.

* `parseLine_plain`: a line is read back if the codes of its icon are printable characters other
  than these two.
* `parseLine_not_plain`: no other line is read.
* `parseList_listOf`: a list is read back, or not at all.
-/

namespace CommandCenter.Formats.IconPack

open Rust Proto Bni

/-! ## Writing -/

/-- What a flag-matched icon is for, by the chat flag it answers to. -/
def flagName (flags : UInt32) : Text :=
  match flags.toNat with
  | 0x01 => "blizzard".toList
  | 0x02 => "operator".toList
  | 0x04 => "speaker".toList
  | 0x08 => "admin".toList
  | 0x10 => "no-udp".toList
  | 0x20 => "squelched".toList
  | 0x40 => "guest".toList
  | 0x100000 => "gf-official".toList
  | 0x200000 => "gf-player".toList
  | _ => "flags".toList

def codeText (code : FourCc) : Text :=
  code.toText.trimMatches fun c => Text.isWhitespace c || c = Char.ofNat 0

def codesOf (icon : BniIcon) : List Text := (icon.codes.map codeText).filter (· ≠ [])

/-- `{:02}` -/
def pad2 (i : Nat) : Text :=
  let digits := Nat.toDigits 10 i
  List.replicate (2 - digits.length) '0' ++ digits

/-- `{:#010x}` -/
def hexText (n : UInt32) : Text :=
  let digits := Nat.toDigits 16 n.toNat
  "0x".toList ++ (List.replicate (8 - digits.length) '0' ++ digits)

def nameOf (i : Nat) (icon : BniIcon) : Text :=
  let codes := codesOf icon
  let what := if codes = [] then flagName icon.flags else ['+'].intercalate codes
  pad2 i ++ ("-".toList ++ (what ++ ".png".toList))

def codeColumn (icon : BniIcon) : Text :=
  let codes := codesOf icon
  if codes = [] then "-".toList else [','].intercalate codes

def sizeText (icon : BniIcon) : Text :=
  Nat.toDigits 10 icon.width.toNat ++ 'x' :: Nat.toDigits 10 icon.height.toNat

def lineOf (i : Nat) (icon : BniIcon) : Text :=
  Nat.toDigits 10 i ++ ' ' :: ' ' :: (hexText icon.flags ++ ' ' :: ' ' :: (sizeText icon ++
    ' ' :: ' ' :: (codeColumn icon ++ ' ' :: ' ' :: nameOf i icon)))

def heading : List Text := [
  "# bnetcc-icons: one line per icon, in the file's order. Redraw the PNGs (keep each one's".toList,
  "# size, no transparency) and run `bnetcc-icons pack <this folder> <new icons.bni>`.".toList,
  "# index  flags  size  codes  picture".toList]

/-! ## Reading -/

structure Entry where
  flags : UInt32
  width : UInt32
  height : UInt32
  codes : List FourCc
  picture : Text
deriving DecidableEq

inductive ListError where
  /-- Wants five columns. -/
  | columns
  /-- Another index, but this is icon `expected`: keep the icons in the file's order. -/
  | index (index : Text) (expected : Nat)
  /-- Flags are not hex. -/
  | flags
  /-- Size is not WxH. -/
  | size
  | width
  | height
  /-- A code is not four characters. -/
  | code (code : Text)
deriving DecidableEq

/-- `u8::is_ascii_graphic` -/
def isAsciiGraphic (b : UInt8) : Bool := 0x21 ≤ b && b ≤ 0x7E

def parseCode (c : Text) : Except ListError FourCc :=
  match c.asBytes with
  | [b₀, b₁, b₂, b₃] =>
    if [b₀, b₁, b₂, b₃].all isAsciiGraphic then .ok ⟨fromBeBytes b₀ b₁ b₂ b₃⟩ else .error (.code c)
  | _ => .error (.code c)

def parseCodes (codes : Text) : Except ListError (List FourCc) :=
  if codes = "-".toList then .ok [] else (codes.splitOn ',').mapM parseCode

def parseSize (size : Text) : Except ListError (UInt32 × UInt32) :=
  match size.splitOnce 'x' with
  | none => .error .size
  | some (w, h) =>
    match parseU32 w with
    | none => .error .width
    | some width =>
      match parseU32 h with
      | none => .error .height
      | some height => .ok (width, height)

def parseFlags (flags : Text) : Except ListError UInt32 :=
  match parseHexU32 flags.trimStart0x with
  | none => .error .flags
  | some flags => .ok flags

/-- The columns of a line, when so many icons have been read. -/
def parseColumns (count : Nat) : List Text → Except ListError (Option Entry)
  | [index, flags, size, codes, picture] =>
    if parseUsize index ≠ some count then .error (.index index count)
    else do
      let flags ← parseFlags flags
      let (width, height) ← parseSize size
      let codes ← parseCodes codes
      return some ⟨flags, width, height, codes, picture⟩
  | _ => .error .columns

/-- A line; nothing if it is a comment. -/
def parseLine (count : Nat) (line : Text) : Except ListError (Option Entry) :=
  let line := Text.trim (line.takeWhile (· ≠ '#'))
  if line = [] then .ok none else parseColumns count line.splitWhitespace

/-- Some lines after `n` others; the error says which line is wrong. -/
def parseLines (n : Nat) : List Text → List Entry → Except (Nat × ListError) (List Entry)
  | [], entries => .ok entries
  | line :: lines, entries =>
    match parseLine entries.length line with
    | .error what => .error (n + 1, what)
    | .ok none => parseLines (n + 1) lines entries
    | .ok (some entry) => parseLines (n + 1) lines (entries ++ [entry])

def parseList (text : Text) : Except (Nat × ListError) (List Entry) :=
  parseLines 0 text.lines []

/-! ## Printable characters -/

/-- ASCII that is neither a blank nor a control character. -/
def Graphic (c : Char) : Prop := 0x20 < c.val.toNat ∧ c.val.toNat < 0x7F

instance (c : Char) : Decidable (Graphic c) := inferInstanceAs (Decidable (_ ∧ _))

/-- A code that is four printable characters, none of them a comma or a `#`. -/
def IsPlain (code : FourCc) : Prop :=
  code.isGraphic = true ∧ ',' ∉ code.asText ∧ '#' ∉ code.asText

instance (code : FourCc) : Decidable (IsPlain code) := inferInstanceAs (Decidable (_ ∧ _))

section Printable

theorem isWhitespace_graphic {c : Char} (h : Graphic c) : Text.isWhitespace c = false :=
  Text.isWhitespace_printable h.1 (Nat.lt_succ_of_lt h.2)

theorem graphic_digit : ∀ d < 16, Graphic d.digitChar ∧ d.digitChar ≠ ',' ∧ d.digitChar ≠ '#' ∧
    d.digitChar ≠ 'x' := by
  decide

theorem hex_of_mem_digits {c : Char} {n : Nat} (h : c ∈ Nat.toDigits 10 n) :
    ∃ d < 16, c = d.digitChar := by
  have hdigit := isDigit_of_mem_digits h
  rw [Char.isDigit, Bool.and_eq_true, decide_eq_true_iff, decide_eq_true_iff] at hdigit
  obtain ⟨hlow, hhigh⟩ := hdigit
  have hlow' : 48 ≤ c.val.toNat := UInt32.le_iff_toNat_le.mp hlow
  have hhigh' : c.val.toNat ≤ 57 := UInt32.le_iff_toNat_le.mp hhigh
  refine ⟨c.val.toNat - 48, by omega, ?_⟩
  have hvalue : (c.val.toNat - 48).digitChar.toNat = 48 + (c.val.toNat - 48) :=
    Nat.toNat_digitChar_of_lt_ten (by omega)
  apply Char.ext
  apply UInt32.toNat_inj.mp
  exact (hvalue.trans (by omega)).symm

/-- The text of a number is printable, with neither a comma nor a `#` in it, and has no `x`. -/
theorem digits_spec {c : Char} {n : Nat} (h : c ∈ Nat.toDigits 10 n ∨ c ∈ Nat.toDigits 16 n) :
    Graphic c ∧ c ≠ ',' ∧ c ≠ '#' ∧ c ≠ 'x' := by
  rcases h with h | h
  · obtain ⟨d, hd, rfl⟩ := hex_of_mem_digits h
    exact graphic_digit d hd
  · obtain ⟨d, hd, rfl⟩ := isHex_of_mem h
    exact graphic_digit d hd

/-- Zeros before the digits of a number. -/
theorem padded_spec {c : Char} {n k b : Nat} (hb : b = 10 ∨ b = 16)
    (h : c ∈ List.replicate k '0' ++ Nat.toDigits b n) : Graphic c ∧ c ≠ ',' ∧ c ≠ '#' ∧ c ≠ 'x' := by
  rcases List.mem_append.mp h with h | h
  · obtain rfl := List.eq_of_mem_replicate h
    decide
  · rcases hb with rfl | rfl
    · exact digits_spec (.inl h)
    · exact digits_spec (.inr h)

theorem hexText_spec {c : Char} {n : UInt32} (h : c ∈ hexText n) :
    Graphic c ∧ c ≠ ',' ∧ c ≠ '#' := by
  have hmark : ∀ c ∈ "0x".toList, Graphic c ∧ c ≠ ',' ∧ c ≠ '#' :=
    List.all_iff_forall_prop.mp (by decide)
  rcases List.mem_append.mp h with h | h
  · exact hmark c h
  · obtain ⟨hgraphic, hcomma, hhash, _⟩ := padded_spec (.inr rfl) h
    exact ⟨hgraphic, hcomma, hhash⟩

theorem length_hexText (n : UInt32) : 10 ≤ (hexText n).length := by
  show 10 ≤ ("0x".toList ++ _).length
  rw [List.length_append, List.length_append, List.length_replicate]
  show 10 ≤ 2 + _
  omega

theorem flagName_graphic (flags : UInt32) : ∀ c ∈ flagName flags, Graphic c ∧ c ≠ '#' := by
  unfold flagName
  split <;> exact List.all_iff_forall_prop.mp (by decide)

theorem trimMatches_eq_self {p : Char → Bool} {s : Text} (h : ∀ c ∈ s, p c = false) :
    s.trimMatches p = s := by
  have hfront : s.dropWhile p = s := List.dropWhile_eq_self_iff.mpr fun hpos hp =>
    absurd (h _ (List.getElem_mem hpos)) (by rw [hp]; exact Bool.noConfusion)
  rw [Text.trimMatches, hfront, List.rdropWhile_eq_self_iff]
  intro hne hp
  exact absurd (h _ (List.getLast_mem hne)) (by rw [hp]; exact Bool.noConfusion)

theorem toNat_ofNat_graphic {b : UInt8} (h : 0x21 ≤ b ∧ b ≤ 0x7E) :
    (Char.ofNat b.toNat).val.toNat = b.toNat := by
  have hhigh : b.toNat ≤ 0x7E := UInt8.le_iff_toNat_le.mp h.2
  rw [Char.ofNat, dif_pos (.inl (by omega))]
  exact UInt32.toNat_ofNatLT

theorem graphic_of_isGraphic {code : FourCc} (h : code.isGraphic = true) :
    ∀ b ∈ code.asAscii, 0x21 ≤ b ∧ b ≤ 0x7E := by
  intro b hb
  have hbyte := List.all_eq_true.mp h b hb
  rw [Bool.and_eq_true, decide_eq_true_iff, decide_eq_true_iff] at hbyte
  exact hbyte

theorem asText_graphic {code : FourCc} (h : code.isGraphic = true) :
    ∀ c ∈ code.asText, Graphic c := by
  intro c hc
  obtain ⟨b, hb, rfl⟩ := List.mem_map.mp hc
  have hbyte := graphic_of_isGraphic h b hb
  have hlow : 0x21 ≤ b.toNat := UInt8.le_iff_toNat_le.mp hbyte.1
  have hhigh : b.toNat ≤ 0x7E := UInt8.le_iff_toNat_le.mp hbyte.2
  unfold Graphic
  rw [toNat_ofNat_graphic hbyte]
  omega

theorem length_asText (code : FourCc) : code.asText.length = 4 := rfl

theorem toText_of_not_graphic {code : FourCc} (h : ¬ code.isGraphic = true) :
    code.toText = hexText code.value := by
  unfold FourCc.toText hexText
  rw [if_neg h]
  simp only [List.append_assoc]

theorem toText_graphic (code : FourCc) : ∀ c ∈ code.toText, Graphic c := by
  intro c hc
  by_cases h : code.isGraphic = true
  · rw [FourCc.toText, if_pos h] at hc
    exact asText_graphic h c hc
  · rw [toText_of_not_graphic h] at hc
    exact (hexText_spec hc).1

theorem le_length_toText (code : FourCc) : 4 ≤ code.toText.length := by
  by_cases h : code.isGraphic = true
  · rw [FourCc.toText, if_pos h, length_asText]
  · rw [toText_of_not_graphic h]
    exact Nat.le_trans (by decide) (length_hexText code.value)

theorem codeText_eq (code : FourCc) : codeText code = code.toText := by
  refine trimMatches_eq_self fun c hc => ?_
  have hgraphic := toText_graphic code c hc
  rw [isWhitespace_graphic hgraphic, Bool.false_or, decide_eq_false_iff_not]
  rintro rfl
  exact absurd hgraphic (by decide)

theorem codesOf_eq (icon : BniIcon) : codesOf icon = icon.codes.map FourCc.toText := by
  have hall : ∀ text ∈ icon.codes.map codeText, decide (text ≠ []) = true := by
    intro text htext
    obtain ⟨code, _, rfl⟩ := List.mem_map.mp htext
    rw [codeText_eq, decide_eq_true_iff, ← List.length_pos_iff]
    exact Nat.lt_of_lt_of_le (by decide) (le_length_toText code)
  rw [codesOf, List.filter_eq_self.mpr hall]
  exact List.map_congr_left fun code _ => codeText_eq code

theorem codesOf_eq_nil_iff (icon : BniIcon) : codesOf icon = [] ↔ icon.codes = [] := by
  rw [codesOf_eq, List.map_eq_nil_iff]

theorem infix_intercalate (sep : Char) {text : Text} {texts : List Text} (htext : text ∈ texts) :
    text <:+: [sep].intercalate texts := by
  induction texts with
  | nil => cases htext
  | cons first texts ih =>
    cases texts with
    | nil =>
      obtain rfl := List.mem_singleton.mp htext
      rw [List.intercalate_singleton]
    | cons next texts =>
      rw [List.intercalate_cons_cons]
      rcases List.mem_cons.mp htext with rfl | hmem
      · exact ⟨[], [sep] ++ [sep].intercalate (next :: texts), by
          rw [List.nil_append, List.append_assoc]⟩
      · exact (ih hmem).trans (List.suffix_append _ _).isInfix

/-- The characters of the codes of an icon with a separator between them. -/
theorem joined_graphic {sep : Char} (hsep : Graphic sep) (icon : BniIcon) :
    ∀ c ∈ [sep].intercalate (codesOf icon), Graphic c := by
  intro c hc
  rcases mem_intercalate hc with rfl | ⟨text, htext, hc⟩
  · exact hsep
  · rw [codesOf_eq] at htext
    obtain ⟨code, _, rfl⟩ := List.mem_map.mp htext
    exact toText_graphic code c hc

end Printable

/-! ## Columns -/

section Columns

variable {i : Nat} {icon : BniIcon}

theorem codeColumn_graphic (icon : BniIcon) : ∀ c ∈ codeColumn icon, Graphic c := by
  unfold codeColumn
  dsimp only
  split
  · exact List.all_iff_forall_prop.mp (by decide)
  · exact joined_graphic (by decide) icon

theorem codeColumn_ne_nil (icon : BniIcon) : codeColumn icon ≠ [] := by
  unfold codeColumn
  dsimp only
  split
  · decide
  · rename_i hsome
    rw [codesOf_eq_nil_iff] at hsome
    obtain ⟨code, codes, hcodes⟩ := List.exists_cons_of_ne_nil hsome
    have htext : code.toText ∈ codesOf icon := by
      rw [codesOf_eq, hcodes]
      exact List.mem_cons_self
    obtain ⟨c, hc⟩ := List.exists_mem_of_length_pos
      (Nat.lt_of_lt_of_le (by decide) (le_length_toText code))
    exact List.ne_nil_of_mem ((infix_intercalate ',' htext).subset hc)

theorem what_graphic (icon : BniIcon) :
    ∀ c ∈ (if codesOf icon = [] then flagName icon.flags else ['+'].intercalate (codesOf icon)),
      Graphic c := by
  split
  · exact fun c hc => (flagName_graphic icon.flags c hc).1
  · exact joined_graphic (by decide) icon

theorem nameOf_graphic (i : Nat) (icon : BniIcon) : ∀ c ∈ nameOf i icon, Graphic c := by
  have hdash : ∀ c ∈ "-".toList, Graphic c := List.all_iff_forall_prop.mp (by decide)
  have hend : ∀ c ∈ ".png".toList, Graphic c := List.all_iff_forall_prop.mp (by decide)
  intro c hc
  unfold nameOf at hc
  rcases List.mem_append.mp hc with hc | hc
  · exact (padded_spec (.inl rfl) hc).1
  · rcases List.mem_append.mp hc with hc | hc
    · exact hdash c hc
    · rcases List.mem_append.mp hc with hc | hc
      · exact what_graphic icon c hc
      · exact hend c hc

theorem nameOf_ne_nil (i : Nat) (icon : BniIcon) : nameOf i icon ≠ [] := by
  intro h
  have hrest := (List.append_eq_nil_iff.mp h).2
  exact absurd (List.append_eq_nil_iff.mp hrest).1 (by decide)

theorem sizeText_graphic (icon : BniIcon) : ∀ c ∈ sizeText icon, Graphic c ∧ c ≠ '#' := by
  intro c hc
  rcases List.mem_append.mp hc with hc | hc
  · obtain ⟨hgraphic, _, hhash, _⟩ := digits_spec (.inl hc)
    exact ⟨hgraphic, hhash⟩
  · rcases List.mem_cons.mp hc with rfl | hc
    · decide
    · obtain ⟨hgraphic, _, hhash, _⟩ := digits_spec (.inl hc)
      exact ⟨hgraphic, hhash⟩

/-- The first three columns of a line, and whatever follows them. -/
def frontOf (i : Nat) (icon : BniIcon) (rest : Text) : Text :=
  Nat.toDigits 10 i ++ ' ' :: ' ' :: (hexText icon.flags ++ ' ' :: ' ' :: (sizeText icon ++
    ' ' :: ' ' :: rest))

theorem lineOf_eq (i : Nat) (icon : BniIcon) :
    lineOf i icon = frontOf i icon (codeColumn icon ++ ' ' :: ' ' :: nameOf i icon) := rfl

theorem splitWhitespace_front (rest : Text) : (frontOf i icon rest).splitWhitespace =
    Nat.toDigits 10 i :: hexText icon.flags :: sizeText icon :: rest.splitWhitespace := by
  have hhex : hexText icon.flags ≠ [] :=
    List.ne_nil_of_length_pos (Nat.lt_of_lt_of_le (by decide) (length_hexText _))
  have hsize : sizeText icon ≠ [] := List.append_ne_nil_of_right_ne_nil _ (List.cons_ne_nil _ _)
  unfold frontOf
  rw [Text.splitWhitespace_column Nat.toDigits_ne_nil
      fun c hc => isWhitespace_graphic (digits_spec (.inl hc)).1,
    Text.splitWhitespace_column hhex fun c hc => isWhitespace_graphic (hexText_spec hc).1,
    Text.splitWhitespace_column hsize fun c hc => isWhitespace_graphic (sizeText_graphic icon c hc).1]

theorem splitWhitespace_line : (lineOf i icon).splitWhitespace =
    [Nat.toDigits 10 i, hexText icon.flags, sizeText icon, codeColumn icon, nameOf i icon] := by
  rw [lineOf_eq, splitWhitespace_front, Text.splitWhitespace_column (codeColumn_ne_nil icon)
      fun c hc => isWhitespace_graphic (codeColumn_graphic icon c hc),
    Text.splitWhitespace_word (nameOf_ne_nil i icon)
      fun c hc => isWhitespace_graphic (nameOf_graphic i icon c hc)]

/-- Neither blanks nor a comment are before the first column that may hold a `#`. -/
theorem takeWhile_front (rest : Text) :
    (frontOf i icon rest).takeWhile (· ≠ '#') = frontOf i icon (rest.takeWhile (· ≠ '#')) := by
  have hcut : ∀ {word tail : Text}, (∀ c ∈ word, c ≠ '#') →
      (word ++ ' ' :: ' ' :: tail).takeWhile (· ≠ '#') =
        word ++ ' ' :: ' ' :: tail.takeWhile (· ≠ '#') := by
    intro word tail hword
    rw [List.takeWhile_append_of_pos fun c hc => decide_eq_true (hword c hc)]
    rfl
  unfold frontOf
  rw [hcut fun c hc => (digits_spec (.inl hc)).2.2.1, hcut fun c hc => (hexText_spec hc).2.2,
    hcut fun c hc => (sizeText_graphic icon c hc).2]

end Columns

/-! ## Lines -/

/-- What should be read of an icon's line. -/
def entryOf (i : Nat) (icon : BniIcon) : Entry :=
  ⟨icon.flags, icon.width, icon.height, icon.codes, nameOf i icon⟩

section Lines

variable {i : Nat} {icon : BniIcon}

theorem parseLine_words {count : Nat} {line : Text} {words : List Text}
    (hwords : Text.splitWhitespace (line.takeWhile (· ≠ '#')) = words) (hne : words ≠ []) :
    parseLine count line = parseColumns count words := by
  have htrim := Text.splitWhitespace_trim (line.takeWhile (· ≠ '#'))
  rw [hwords] at htrim
  have hsome : Text.trim (line.takeWhile (· ≠ '#')) ≠ [] := by
    intro hempty
    rw [hempty] at htrim
    exact hne htrim.symm
  unfold parseLine
  dsimp only
  rw [if_neg hsome, htrim]

theorem trimStart0x_hexText (n : UInt32) :
    (hexText n).trimStart0x =
      List.replicate (8 - (Nat.toDigits 16 n.toNat).length) '0' ++ Nat.toDigits 16 n.toNat := by
  have hx : ∀ c ∈ List.replicate (8 - (Nat.toDigits 16 n.toNat).length) '0' ++
      Nat.toDigits 16 n.toNat, c ≠ 'x' := fun c hc => (padded_spec (.inr rfl) hc).2.2.2
  show Text.trimStart0x ('0' :: 'x' :: (List.replicate _ '0' ++ _)) = _
  rw [Text.trimStart0x]
  generalize List.replicate (8 - (Nat.toDigits 16 n.toNat).length) '0' ++ Nat.toDigits 16 n.toNat = s
    at hx ⊢
  unfold Text.trimStart0x
  split
  · exact absurd rfl (hx 'x' (List.mem_cons_of_mem _ List.mem_cons_self))
  · rfl

theorem parseFlags_hexText (n : UInt32) : parseFlags (hexText n) = .ok n := by
  unfold parseFlags
  rw [trimStart0x_hexText, parseHexU32_digits]

theorem parseSize_sizeText (icon : BniIcon) : parseSize (sizeText icon) = .ok (icon.width, icon.height) := by
  have hx : 'x' ∉ Nat.toDigits 10 icon.width.toNat := fun h => (digits_spec (.inl h)).2.2.2 rfl
  unfold parseSize sizeText
  rw [Text.splitOnce_append hx]
  dsimp only
  rw [parseU32_toDigits]
  dsimp only
  rw [parseU32_toDigits]

theorem parseColumns_line (hi : i < 2 ^ 64) (codes picture : Text) :
    parseColumns i [Nat.toDigits 10 i, hexText icon.flags, sizeText icon, codes, picture] =
      (parseCodes codes).map fun codes => some ⟨icon.flags, icon.width, icon.height, codes, picture⟩ := by
  unfold parseColumns
  dsimp only
  rw [parseUsize_toDigits hi, if_neg (fun hne => hne rfl), parseFlags_hexText, parseSize_sizeText]
  rfl

theorem asBytes_graphic {s : Text} (h : ∀ c ∈ s, Graphic c) :
    s.asBytes = s.map fun c => UInt8.ofNat c.val.toNat :=
  Text.asBytes_of_ascii fun c hc => Nat.lt_succ_of_lt (h c hc).2

theorem parseCode_asText {code : FourCc} (h : code.isGraphic = true) : parseCode code.asText = .ok code := by
  have hbytes : code.asText.asBytes = code.asAscii := by
    rw [asBytes_graphic (asText_graphic h), FourCc.asText, List.map_map]
    refine (List.map_congr_left fun b hb => ?_).trans (List.map_id _)
    show UInt8.ofNat (Char.ofNat b.toNat).val.toNat = b
    rw [toNat_ofNat_graphic (graphic_of_isGraphic h b hb), UInt8.ofNat_toNat]
  unfold parseCode
  rw [hbytes]
  show (if code.asAscii.all isAsciiGraphic = true then _ else _) = _
  rw [if_pos (show code.asAscii.all isAsciiGraphic = true from h)]
  exact congrArg (fun v => Except.ok (FourCc.mk v)) (fromBeBytes_toBeBytes code.value)

theorem parseCode_error {c : Text} (hgraphic : ∀ x ∈ c, Graphic x) (h : c.length ≠ 4) :
    parseCode c = .error (.code c) := by
  have hlength : c.asBytes.length = c.length := by
    rw [asBytes_graphic hgraphic, List.length_map]
  unfold parseCode
  split
  · rename_i b₀ b₁ b₂ b₃ hbytes
    rw [hbytes] at hlength
    exact absurd hlength.symm h
  · rfl

theorem mapM_error {α β ε : Type} {f : α → Except ε β} {l : List α} {a : α} (ha : a ∈ l) {e : ε}
    (he : f a = .error e) : ∃ e', l.mapM f = .error e' := by
  induction l with
  | nil => cases ha
  | cons b l ih =>
    rw [List.mapM_cons]
    cases hb : f b with
    | error e' => exact ⟨e', rfl⟩
    | ok b' =>
      rcases List.mem_cons.mp ha with rfl | hmem
      · rw [hb] at he
        cases he
      · obtain ⟨e', hrest⟩ := ih hmem
        exact ⟨e', by rw [hrest]; rfl⟩

theorem parseCodes_plain (h : ∀ code ∈ icon.codes, IsPlain code) :
    parseCodes (codeColumn icon) = .ok icon.codes := by
  unfold codeColumn
  dsimp only
  split
  · rename_i hnone
    rw [codesOf_eq_nil_iff] at hnone
    rw [hnone]
    rfl
  · rename_i hsome
    have htexts : codesOf icon = icon.codes.map FourCc.asText := by
      rw [codesOf_eq]
      exact List.map_congr_left fun code hcode => if_pos (h code hcode).1
    have hcomma : ∀ text ∈ codesOf icon, ',' ∉ text := by
      intro text htext
      rw [htexts] at htext
      obtain ⟨code, hcode, rfl⟩ := List.mem_map.mp htext
      exact (h code hcode).2.1
    have hdash : [','].intercalate (codesOf icon) ≠ "-".toList := by
      intro hdash
      have hsplit := List.splitOn_intercalate ',' hcomma hsome
      rw [hdash] at hsplit
      have hmem : "-".toList ∈ codesOf icon := by
        rw [← hsplit]
        exact List.mem_singleton.mpr rfl
      rw [htexts] at hmem
      obtain ⟨code, _, hcode⟩ := List.mem_map.mp hmem
      exact absurd (congrArg List.length hcode) (by rw [length_asText]; decide)
    have hcodes : icon.codes.mapM (parseCode ∘ FourCc.asText) = .ok (icon.codes.map id) :=
      mapM_eq_map fun code hcode => parseCode_asText (h code hcode).1
    unfold parseCodes
    rw [if_neg hdash, List.splitOn_intercalate ',' hcomma hsome, htexts, List.mapM_map, hcodes,
      List.map_id]

theorem exists_bad_part {code : FourCc} (h : ¬ IsPlain code) (hhash : '#' ∉ code.toText) :
    ∃ part ∈ code.toText.splitOn ',', (∀ x ∈ part, Graphic x) ∧ part.length ≠ 4 := by
  by_cases hgraphic : code.isGraphic = true
  · have htext : code.toText = code.asText := if_pos hgraphic
    rw [htext] at hhash ⊢
    have hcomma : ',' ∈ code.asText := by
      by_contra hcomma
      exact h ⟨hgraphic, hcomma, hhash⟩
    obtain ⟨part, rest, hsplit, hpart⟩ := List.eq_append_cons_of_mem hcomma
    have hlength := congrArg List.length hsplit
    rw [length_asText, List.length_append, List.length_cons] at hlength
    refine ⟨part, ?_, fun x hx => asText_graphic hgraphic x ?_, by omega⟩
    · rw [hsplit, List.splitOn_append_cons_self_of_not_mem hpart]
      exact List.mem_cons_self
    · rw [hsplit]
      exact List.mem_append_left _ hx
  · have hcomma : ',' ∉ code.toText := by
      rw [toText_of_not_graphic hgraphic]
      exact fun hmem => (hexText_spec hmem).2.1 rfl
    have hlength := length_hexText code.value
    rw [← toText_of_not_graphic hgraphic] at hlength
    refine ⟨code.toText, ?_, toText_graphic code, by omega⟩
    rw [List.splitOn_eq_singleton hcomma]
    exact List.mem_singleton.mpr rfl

theorem parseCodes_not_plain (h : ¬ ∀ code ∈ icon.codes, IsPlain code)
    (hhash : '#' ∉ codeColumn icon) : ∃ e, parseCodes (codeColumn icon) = .error e := by
  push Not at h
  obtain ⟨code, hcode, hbad⟩ := h
  have htext : code.toText ∈ codesOf icon := by
    rw [codesOf_eq]
    exact List.mem_map_of_mem hcode
  have hsome : codesOf icon ≠ [] := List.ne_nil_of_mem htext
  have hcolumn : codeColumn icon = [','].intercalate (codesOf icon) := if_neg hsome
  rw [hcolumn] at hhash ⊢
  have hwithin := infix_intercalate ',' htext
  obtain ⟨part, hpart, hgraphic, hlength⟩ :=
    exists_bad_part hbad fun hmem => hhash (hwithin.subset hmem)
  have hdash : [','].intercalate (codesOf icon) ≠ "-".toList := by
    intro hdash
    have hle := Nat.le_trans (le_length_toText code) hwithin.length_le
    rw [hdash] at hle
    exact absurd hle (by decide)
  have hmem : part ∈ ([','].intercalate (codesOf icon)).splitOn ',' := by
    rw [Text.splitOn_intercalate_flatMap ',' hsome]
    exact List.mem_flatMap.mpr ⟨_, htext, hpart⟩
  obtain ⟨e, he⟩ := mapM_error hmem (parseCode_error hgraphic hlength)
  exact ⟨e, (if_neg hdash).trans he⟩

theorem hash_nameOf (h : '#' ∈ nameOf i icon) : '#' ∈ codeColumn icon := by
  have hdash : '#' ∉ "-".toList := by decide
  have hend : '#' ∉ ".png".toList := by decide
  unfold nameOf at h
  rcases List.mem_append.mp h with h | h
  · exact absurd rfl (padded_spec (.inl rfl) h).2.2.1
  · rcases List.mem_append.mp h with h | h
    · exact absurd h hdash
    · rcases List.mem_append.mp h with h | h
      · split at h
        · exact absurd rfl (flagName_graphic icon.flags '#' h).2
        · rename_i hsome
          rcases mem_intercalate h with hplus | ⟨text, htext, h⟩
          · exact absurd hplus (by decide)
          · rw [codeColumn, if_neg hsome]
            exact (infix_intercalate ',' htext).subset h
      · exact absurd h hend

theorem splitWhitespace_uncommented (h : '#' ∉ codeColumn icon) :
    Text.splitWhitespace ((lineOf i icon).takeWhile (· ≠ '#')) =
      [Nat.toDigits 10 i, hexText icon.flags, sizeText icon, codeColumn icon, nameOf i icon] := by
  have hrest : (codeColumn icon ++ ' ' :: ' ' :: nameOf i icon).takeWhile (· ≠ '#') =
      codeColumn icon ++ ' ' :: ' ' :: nameOf i icon := by
    refine List.takeWhile_eq_self_iff.mpr fun c hc => decide_eq_true ?_
    rintro rfl
    rcases List.mem_append.mp hc with hc | hc
    · exact h hc
    · rcases List.mem_cons.mp hc with hblank | hc
      · exact absurd hblank (by decide)
      · rcases List.mem_cons.mp hc with hblank | hc
        · exact absurd hblank (by decide)
        · exact h (hash_nameOf hc)
  rw [lineOf_eq, takeWhile_front, hrest, ← lineOf_eq, splitWhitespace_line]

theorem parseLine_plain (hi : i < 2 ^ 64) (h : ∀ code ∈ icon.codes, IsPlain code) :
    parseLine i (lineOf i icon) = .ok (some (entryOf i icon)) := by
  have hhash : '#' ∉ codeColumn icon := by
    unfold codeColumn
    dsimp only
    split
    · decide
    · intro hmem
      rcases mem_intercalate hmem with hcomma | ⟨text, htext, hmem⟩
      · exact absurd hcomma (by decide)
      · rw [codesOf_eq] at htext
        obtain ⟨code, hcode, rfl⟩ := List.mem_map.mp htext
        obtain ⟨hgraphic, _, hhash⟩ := h code hcode
        rw [FourCc.toText, if_pos hgraphic] at hmem
        exact hhash hmem
  rw [parseLine_words (splitWhitespace_uncommented hhash) (List.cons_ne_nil _ _),
    parseColumns_line hi, parseCodes_plain h]
  rfl

/-- A line whose codes are not plain has too few columns, or a column of codes that is not read. -/
theorem parseLine_not_plain (hi : i < 2 ^ 64) (h : ¬ ∀ code ∈ icon.codes, IsPlain code) :
    ∃ e, parseLine i (lineOf i icon) = .error e := by
  by_cases hhash : '#' ∈ codeColumn icon
  · obtain ⟨front, rest, hsplit, hfront⟩ := List.eq_append_cons_of_mem hhash
    have hcut : (codeColumn icon ++ ' ' :: ' ' :: nameOf i icon).takeWhile (· ≠ '#') = front := by
      rw [hsplit, List.append_assoc, List.takeWhile_append_of_pos fun c hc => decide_eq_true (by
        rintro rfl
        exact hfront hc)]
      exact List.append_nil front
    have hgraphic : ∀ c ∈ front, Text.isWhitespace c = false := fun c hc =>
      isWhitespace_graphic (codeColumn_graphic icon c (by
        rw [hsplit]
        exact List.mem_append_left _ hc))
    have hwords : Text.splitWhitespace ((lineOf i icon).takeWhile (· ≠ '#')) =
        Nat.toDigits 10 i :: hexText icon.flags :: sizeText icon :: Text.splitWhitespace front := by
      rw [lineOf_eq, takeWhile_front, hcut, splitWhitespace_front]
    refine ⟨.columns, ?_⟩
    rw [parseLine_words hwords (List.cons_ne_nil _ _)]
    by_cases hempty : front = []
    · rw [hempty]
      rfl
    · rw [Text.splitWhitespace_word hempty hgraphic]
      rfl
  · obtain ⟨e, he⟩ := parseCodes_not_plain h hhash
    refine ⟨e, ?_⟩
    rw [parseLine_words (splitWhitespace_uncommented hhash) (List.cons_ne_nil _ _),
      parseColumns_line hi, he]
    rfl

end Lines

/-! ## Lists -/

def linesFrom : (i : Nat) → List BniIcon → List Text
  | _, [] => []
  | i, icon :: icons => lineOf i icon :: linesFrom (i + 1) icons

def entriesFrom : (i : Nat) → List BniIcon → List Entry
  | _, [] => []
  | i, icon :: icons => entryOf i icon :: entriesFrom (i + 1) icons

def listOf (icons : List BniIcon) : Text :=
  (heading ++ linesFrom 0 icons).flatMap fun line => line ++ ['\n']

section Lists

theorem graphic_line {i : Nat} {icon : BniIcon} : '\n' ∉ lineOf i icon ∧ '\r' ∉ lineOf i icon := by
  have hword : ∀ {word rest : Text} {c : Char}, ¬ Graphic c → c ≠ ' ' → (∀ x ∈ word, Graphic x) →
      c ∉ rest → c ∉ word ++ ' ' :: ' ' :: rest := by
    intro word rest c hc hblank hgraphic hrest hmem
    rcases List.mem_append.mp hmem with hmem | hmem
    · exact hc (hgraphic c hmem)
    · rcases List.mem_cons.mp hmem with rfl | hmem
      · exact hblank rfl
      · rcases List.mem_cons.mp hmem with rfl | hmem
        · exact hblank rfl
        · exact hrest hmem
  have hline : ∀ c, ¬ Graphic c → c ≠ ' ' → c ∉ lineOf i icon := by
    intro c hc hblank
    refine hword hc hblank (fun x hx => (digits_spec (.inl hx)).1) ?_
    refine hword hc hblank (fun x hx => (hexText_spec hx).1) ?_
    refine hword hc hblank (fun x hx => (sizeText_graphic icon x hx).1) ?_
    refine hword hc hblank (codeColumn_graphic icon) ?_
    exact fun hmem => hc (nameOf_graphic i icon c hmem)
  exact ⟨hline '\n' (by decide) (by decide), hline '\r' (by decide) (by decide)⟩

theorem lines_linesFrom (i : Nat) (icons : List BniIcon) :
    ∀ line ∈ linesFrom i icons, '\n' ∉ line ∧ '\r' ∉ line := by
  induction icons generalizing i with
  | nil => exact List.forall_mem_nil _
  | cons icon icons ih => exact List.forall_mem_cons.mpr ⟨graphic_line, ih (i + 1)⟩

theorem lines_listOf (icons : List BniIcon) :
    (listOf icons).lines = heading ++ linesFrom 0 icons := by
  have hheading : ∀ line ∈ heading, '\n' ∉ line ∧ '\r' ∉ line := by decide
  have hlines := Text.lines_flatMap
    (List.forall_mem_append.mpr ⟨hheading, lines_linesFrom 0 icons⟩) []
  rw [List.append_nil, Text.lines_nil, List.append_nil] at hlines
  exact hlines

theorem parseLines_plain {icons : List BniIcon} {i n : Nat} {entries : List Entry}
    (hcount : entries.length = i) (hroom : i + icons.length ≤ 2 ^ 64)
    (h : ∀ icon ∈ icons, ∀ code ∈ icon.codes, IsPlain code) :
    parseLines n (linesFrom i icons) entries = .ok (entries ++ entriesFrom i icons) := by
  induction icons generalizing i n entries with
  | nil =>
    rw [entriesFrom, List.append_nil]
    rfl
  | cons icon icons ih =>
    rw [List.forall_mem_cons] at h
    rw [List.length_cons] at hroom
    have hnext : (entries ++ [entryOf i icon]).length = i + 1 := by
      rw [List.length_append, hcount]
      rfl
    rw [linesFrom, parseLines, hcount, parseLine_plain (by omega) h.1]
    dsimp only
    rw [ih hnext (by omega) h.2, List.append_assoc]
    rfl

theorem parseLines_not_plain {icons : List BniIcon} {i n : Nat} {entries : List Entry}
    (hcount : entries.length = i) (hroom : i + icons.length ≤ 2 ^ 64)
    (h : ¬ ∀ icon ∈ icons, ∀ code ∈ icon.codes, IsPlain code) :
    ∃ e, parseLines n (linesFrom i icons) entries = .error e := by
  induction icons generalizing i n entries with
  | nil => exact absurd (List.forall_mem_nil _) h
  | cons icon icons ih =>
    rw [List.length_cons] at hroom
    have hnext : (entries ++ [entryOf i icon]).length = i + 1 := by
      rw [List.length_append, hcount]
      rfl
    by_cases hfirst : ∀ code ∈ icon.codes, IsPlain code
    · have hrest : ¬ ∀ icon ∈ icons, ∀ code ∈ icon.codes, IsPlain code := fun hall =>
        h (List.forall_mem_cons.mpr ⟨hfirst, hall⟩)
      obtain ⟨e, he⟩ := @ih (i + 1) (n + 1) (entries ++ [entryOf i icon]) hnext (by omega) hrest
      refine ⟨e, ?_⟩
      rw [linesFrom, parseLines, hcount, parseLine_plain (by omega) hfirst]
      exact he
    · obtain ⟨e, he⟩ := @parseLine_not_plain i icon (by omega) hfirst
      refine ⟨(n + 1, e), ?_⟩
      rw [linesFrom, parseLines, hcount, he]

/-- The list of some icons is read back just if all their codes are plain. -/
theorem parseList_listOf {icons : List BniIcon} (hroom : icons.length ≤ 2 ^ 64) :
    ((∀ icon ∈ icons, ∀ code ∈ icon.codes, IsPlain code) →
      parseList (listOf icons) = .ok (entriesFrom 0 icons)) ∧
    ((¬ ∀ icon ∈ icons, ∀ code ∈ icon.codes, IsPlain code) →
      ∃ e, parseList (listOf icons) = .error e) := by
  have hheading : ∀ lines, parseLines 0 (heading ++ lines) [] = parseLines 3 lines [] := fun _ => rfl
  unfold parseList
  rw [lines_listOf, hheading]
  exact ⟨parseLines_plain rfl (by omega), parseLines_not_plain rfl (by omega)⟩

end Lists

end CommandCenter.Formats.IconPack
