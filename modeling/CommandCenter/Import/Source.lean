import CommandCenter.Import.Plan
import CommandCenter.Rust.BTree
import Mathlib.Data.Char
import Mathlib.Data.List.Lex

/-!
# Reading a SQL dump

The SQL half of `crates/pvpgn-import/src/source.rs`. A place in a text or among tokens is what is
left from there on. A `BTreeMap` is its entries in ascending order of the keys.

* `tokenize`: the tokens of a dump.
* `Dump.parse`: the columns and the rows of its tables.
* `accounts_from_dump`: the accounts that the rows of four tables tell of.
-/

namespace CommandCenter.Import

open Rust

/-- `char::is_alphanumeric`, by the tables of a version of Unicode. Of ASCII it does not change. -/
structure Alphanumerics where
  holds : Char → Bool
  ascii : ∀ c : Char, c.val.toNat < 128 → holds c = c.isAlphanum

/-! ## Tokens -/

/-- Identifiers (bare or quoted), strings, numbers and punctuation. -/
inductive Token where
  | word (w : Text)
  | ident (s : Text)
  | str (s : Text)
  | punct (c : Char)
deriving DecidableEq

/-- `while i + 1 < b.len() && !(b[i] == '*' && b[i + 1] == '/') { i += 1; }`, and `i += 2` -/
def skipBlock : Text → Text
  | c :: d :: rest => if c = '*' ∧ d = '/' then rest else skipBlock (d :: rest)
  | _ => []

/-- What a character after a backslash stands for. -/
def unescape (c : Char) : Char :=
  if c = 'n' then '\n'
  else if c = 'r' then '\r'
  else if c = 't' then '\t'
  else if c = '0' then '\x00'
  else c

/-- A string, and what is left after its quote. -/
def readString : Text → Text × Text
  | [] => ([], [])
  | '\'' :: '\'' :: rest => ('\'' :: (readString rest).1, (readString rest).2)
  | '\'' :: rest => ([], rest)
  | '\\' :: c :: rest => (unescape c :: (readString rest).1, (readString rest).2)
  | c :: rest => (c :: (readString rest).1, (readString rest).2)

theorem skipBlock_suffix (s : Text) : skipBlock s <:+ s := by
  fun_induction skipBlock s with
  | case1 c d rest h => exact (List.suffix_cons d rest).trans (List.suffix_cons c _)
  | case2 c d rest h ih => exact ih.trans (List.suffix_cons c _)
  | case3 s h => exact List.nil_suffix

theorem readString_suffix (s : Text) : (readString s).2 <:+ s := by
  fun_induction readString s with
  | case1 => exact List.nil_suffix
  | case2 rest ih => exact (ih.trans (List.suffix_cons _ _)).trans (List.suffix_cons _ _)
  | case3 rest h => exact List.suffix_cons _ _
  | case4 c rest ih => exact (ih.trans (List.suffix_cons _ _)).trans (List.suffix_cons _ _)
  | case5 c rest h₁ h₂ h₃ ih => exact ih.trans (List.suffix_cons _ _)

section Tokens

variable (u : Alphanumerics)

def isWordChar (c : Char) : Bool := u.holds c || c = '_' || c = '.'

def startsWord (c : Char) (rest : Text) : Bool :=
  u.holds c || c = '_' || ((c = '-' || c = '.') && rest.head?.any Char.isDigit)

/-- The quote that ends an identifier. -/
def closing (c : Char) : Char := if c = '[' then ']' else c

def tokenize : Text → List Token
  | [] => []
  | c :: rest =>
    if Text.isWhitespace c then tokenize rest
    else if c = '-' ∧ rest.head? = some '-' then tokenize (rest.dropWhile (· ≠ '\n'))
    else if c = '/' ∧ rest.head? = some '*' then tokenize (skipBlock rest.tail)
    else if c = '\'' then .str (readString rest).1 :: tokenize (readString rest).2
    else if c = '\x60' ∨ c = '"' ∨ c = '[' then
      .ident (rest.takeWhile (· ≠ closing c)) ::
        tokenize ((rest.dropWhile (· ≠ closing c)).drop 1)
    else if startsWord u c rest then
      .word (c :: rest.takeWhile (isWordChar u)) :: tokenize (rest.dropWhile (isWordChar u))
    else .punct c :: tokenize rest
termination_by s => s.length
decreasing_by
  · exact Nat.lt_succ_self _
  · exact Nat.lt_succ_of_le (List.dropWhile_suffix _).length_le
  · exact Nat.lt_succ_of_le ((skipBlock_suffix _).trans (List.tail_suffix _)).length_le
  · exact Nat.lt_succ_of_le (readString_suffix _).length_le
  · exact Nat.lt_succ_of_le ((List.drop_suffix 1 _).trans (List.dropWhile_suffix _)).length_le
  · exact Nat.lt_succ_of_le (List.dropWhile_suffix _).length_le
  · exact Nat.lt_succ_self _

end Tokens

/-! ## Statements -/

/-- A SQL value as a dump writes it. -/
inductive Value where
  | null
  | text (t : Text)
deriving DecidableEq

/-- One inserted row: its column names and values. -/
abbrev Row := List Text × List Value

/-- A dump split into each table's column names and rows. -/
structure Dump where
  columns : List (Text × List Text)
  rows : List (Text × List Row)

def name_of : Token → Option Text
  | .word w => some w
  | .ident s => some s
  | _ => none

def is_word (t : Option Token) (word : String) : Bool :=
  match t with
  | some (.word w) => w.eqIgnoreAsciiCase word.toList
  | _ => false

/-- `name.rsplit('.').next().unwrap_or(&name)` -/
def lastSegment (name : Text) : Text :=
  match name.rsplitOnce '.' with
  | some (_, last) => last
  | none => name

/-- The segments of a name after the first. -/
def tableSegments (name : Text) : List Token → Option Text × List Token
  | .punct '.' :: t :: rest =>
    match name_of t with
    | some name => tableSegments name rest
    | none => (none, .punct '.' :: t :: rest)
  | [.punct '.'] => (none, [.punct '.'])
  | tokens => (some (lastSegment name), tokens)

/-- A table name, schema prefix dropped. -/
def table_name : List Token → Option Text × List Token
  | [] => (none, [])
  | t :: rest =>
    match name_of t with
    | some name => tableSegments name rest
    | none => (none, t :: rest)

/-- What begins a clause of a table that is no column. -/
def keywords : List String :=
  ["PRIMARY", "KEY", "UNIQUE", "CONSTRAINT", "INDEX", "FOREIGN", "CHECK"]

/-- The column that a token at the start of a clause names. -/
def columnOf (t : Token) : Option Text :=
  match t with
  | .word w => if keywords.any fun k => w.eqIgnoreAsciiCase k.toList then none else some w
  | .ident s => some s
  | _ => none

/-- The columns of a table, so many brackets deep. -/
def readColumns : (depth : Nat) → (at_start : Bool) → List Token → List Text × List Token
  | _, _, [] => ([], [])
  | 0, _, tokens => ([], tokens)
  | depth + 1, at_start, t :: rest =>
    if t = .punct '(' then readColumns (depth + 2) at_start rest
    else if t = .punct ')' then readColumns depth at_start rest
    else if t = .punct ',' ∧ depth = 0 then readColumns (depth + 1) true rest
    else if depth = 0 ∧ at_start then
      ((columnOf t).toList ++ (readColumns (depth + 1) false rest).1,
        (readColumns (depth + 1) false rest).2)
    else readColumns (depth + 1) at_start rest

/-- What the tokens up to a bracket tell, and what is left after it. -/
def readBracket {α : Type} (tell : Token → Option α) : List Token → List α × List Token
  | [] => ([], [])
  | t :: rest =>
    if t = .punct ')' then ([], rest)
    else ((tell t).toList ++ (readBracket tell rest).1, (readBracket tell rest).2)

theorem readBracket_suffix {α : Type} (tell : Token → Option α) (tokens : List Token) :
    (readBracket tell tokens).2 <:+ tokens := by
  fun_induction readBracket tell tokens with
  | case1 => exact List.suffix_rfl
  | case2 rest => exact List.suffix_cons _ rest
  | case3 t rest h ih => exact ih.trans (List.suffix_cons t rest)

/-- The names that a list of columns gives. -/
def readNames : List Token → List Text × List Token := readBracket name_of

def valueOf : Token → Option Value
  | .str s => some (.text s)
  | .word w => if w.eqIgnoreAsciiCase "NULL".toList then some .null else some (.text w)
  | _ => none

def readValues : List Token → List Value × List Token := readBracket valueOf

/-- `if tokens.get(i) == Some(&Token::Punct(',')) { i += 1; }` -/
def skipComma : List Token → List Token
  | .punct ',' :: rest => rest
  | tokens => tokens

theorem skipComma_suffix (tokens : List Token) : skipComma tokens <:+ tokens := by
  unfold skipComma
  split
  · exact List.suffix_cons _ _
  · exact List.suffix_rfl

/-- The rows of an `INSERT`. -/
def readRows : List Token → List (List Value) × List Token
  | .punct '(' :: rest =>
    ((readValues rest).1 :: (readRows (skipComma (readValues rest).2)).1,
      (readRows (skipComma (readValues rest).2)).2)
  | tokens => ([], tokens)
termination_by tokens => tokens.length
decreasing_by
  all_goals
    exact Nat.lt_succ_of_le ((skipComma_suffix _).trans (readBracket_suffix _ _)).length_le

/-- `dump.rows.entry(table.clone()).or_default().push((columns.clone(), values))` -/
def Dump.push (dump : Dump) (table : Text) (columns : List Text) (values : List Value) : Dump :=
  { dump with rows :=
      BTree.insert table (((BTree.get table dump.rows).getD []) ++ [(columns, values)]) dump.rows }

/-- What comes after `CREATE TABLE`. -/
def Dump.create (dump : Dump) (tokens : List Token) : Dump × List Token :=
  let tokens := if is_word tokens.head? "IF" then tokens.drop 3 else tokens
  match table_name tokens with
  | (none, rest) => (dump, rest)
  | (some table, rest) =>
    if rest.head? = some (.punct '(') then
      let (columns, rest) := readColumns 1 true rest.tail
      ({ dump with columns := BTree.insert table.toAsciiLowercase columns dump.columns }, rest)
    else (dump, rest)

/-- The columns that an `INSERT` lists, if any. -/
def readList (tokens : List Token) : List Text × List Token :=
  if tokens.head? = some (.punct '(') then readNames tokens.tail else ([], tokens)

/-- What comes after `INSERT`. -/
def Dump.insert (dump : Dump) (tokens : List Token) : Dump × List Token :=
  let tokens := (tokens.dropWhile fun t => !is_word (some t) "INTO").drop 1
  match table_name tokens with
  | (none, rest) => (dump, rest)
  | (some table, rest) =>
    let table := table.toAsciiLowercase
    let (columns, rest) := readList rest
    let columns := if columns.isEmpty then (BTree.get table dump.columns).getD [] else columns
    if is_word rest.head? "VALUES" then
      let (rows, rest) := readRows rest.tail
      (rows.foldl (fun dump values => dump.push table columns values) dump, rest)
    else (dump, rest)

/-! What is left is the end of what was there. -/

theorem tableSegments_suffix (name : Text) (tokens : List Token) :
    (tableSegments name tokens).2 <:+ tokens := by
  fun_induction tableSegments name tokens with
  | case1 name t rest next h ih => exact (ih.trans (List.suffix_cons _ _)).trans (List.suffix_cons _ _)
  | case2 => exact List.suffix_rfl
  | case3 => exact List.suffix_rfl
  | case4 => exact List.suffix_rfl

theorem table_name_suffix (tokens : List Token) : (table_name tokens).2 <:+ tokens := by
  unfold table_name
  split
  · exact List.suffix_rfl
  · split
    · exact (tableSegments_suffix _ _).trans (List.suffix_cons _ _)
    · exact List.suffix_rfl

theorem readColumns_suffix (depth : Nat) (at_start : Bool) (tokens : List Token) :
    (readColumns depth at_start tokens).2 <:+ tokens := by
  fun_induction readColumns depth at_start tokens with
  | case1 => exact List.suffix_rfl
  | case2 => exact List.suffix_rfl
  | case3 _ _ _ ih => exact ih.trans (List.suffix_cons _ _)
  | case4 _ _ _ _ ih => exact ih.trans (List.suffix_cons _ _)
  | case5 _ _ _ _ _ _ _ ih => exact ih.trans (List.suffix_cons _ _)
  | case6 _ _ _ _ _ _ _ _ ih => exact ih.trans (List.suffix_cons _ _)
  | case7 _ _ _ _ _ _ _ _ ih => exact ih.trans (List.suffix_cons _ _)

theorem readList_suffix (tokens : List Token) : (readList tokens).2 <:+ tokens := by
  unfold readList
  split
  · exact (readBracket_suffix _ _).trans (List.tail_suffix _)
  · exact List.suffix_rfl

theorem readRows_suffix (tokens : List Token) : (readRows tokens).2 <:+ tokens := by
  fun_induction readRows tokens with
  | case1 rest ih =>
    exact ih.trans ((skipComma_suffix _).trans ((readBracket_suffix _ _).trans (List.suffix_cons _ _)))
  | case2 => exact List.suffix_rfl

theorem create_suffix (dump : Dump) (tokens : List Token) : (dump.create tokens).2 <:+ tokens := by
  have hskip : (if is_word tokens.head? "IF" then tokens.drop 3 else tokens) <:+ tokens := by
    split
    · exact List.drop_suffix 3 tokens
    · exact List.suffix_rfl
  unfold Dump.create
  dsimp only
  generalize (if is_word tokens.head? "IF" then tokens.drop 3 else tokens) = tokens' at hskip
  have hname := table_name_suffix tokens'
  split
  · rename_i heq
    rw [heq] at hname
    exact hname.trans hskip
  · rename_i heq
    rw [heq] at hname
    split
    · exact (readColumns_suffix _ _ _).trans ((List.tail_suffix _).trans (hname.trans hskip))
    · exact hname.trans hskip

theorem insert_suffix (dump : Dump) (tokens : List Token) : (dump.insert tokens).2 <:+ tokens := by
  have hskip : (tokens.dropWhile fun t => !is_word (some t) "INTO").drop 1 <:+ tokens :=
    (List.drop_suffix 1 _).trans (List.dropWhile_suffix _)
  unfold Dump.insert
  dsimp only
  generalize (tokens.dropWhile fun t => !is_word (some t) "INTO").drop 1 = tokens' at hskip
  have hname := table_name_suffix tokens'
  split
  · rename_i heq
    rw [heq] at hname
    exact hname.trans hskip
  · rename_i rest heq
    rw [heq] at hname
    have hlist := (readList_suffix rest).trans (hname.trans hskip)
    split
    · exact (readRows_suffix _).trans ((List.tail_suffix _).trans hlist)
    · exact hlist

def parseFrom (dump : Dump) : List Token → Dump
  | [] => dump
  | t :: rest =>
    if is_word (some t) "CREATE" ∧ is_word rest.head? "TABLE" then
      parseFrom (dump.create rest.tail).1 (dump.create rest.tail).2
    else if is_word (some t) "INSERT" then parseFrom (dump.insert rest).1 (dump.insert rest).2
    else parseFrom dump rest
termination_by tokens => tokens.length
decreasing_by
  · exact Nat.lt_succ_of_le ((create_suffix _ _).trans (List.tail_suffix _)).length_le
  · exact Nat.lt_succ_of_le (insert_suffix _ _).length_le
  · exact Nat.lt_succ_self _

def Dump.parse (u : Alphanumerics) (sql : Text) : Dump := parseFrom ⟨[], []⟩ (tokenize u sql)

/-! ## Accounts -/

/-- `replace('_', with)` -/
def replaceUnderscores (c : Char) (s : Text) : Text := s.map fun d => if d = '_' then c else d

/-- The PvPGN key a SQL column stands for in a table; none for `uid`. -/
def column_key (table column : Text) : Option Text :=
  if column.eqIgnoreAsciiCase "uid".toList then none
  else if table.toAsciiLowercase = "bnet".toList then
    match column.splitOnce '_' with
    | some (group, rest) => some ("BNET\\".toList ++ group ++ '\\' :: rest)
    | none => some ("BNET\\".toList ++ column)
  else if table.toAsciiLowercase = "record".toList then
    match column.splitOnce '_' with
    | some (product, rest) =>
      match rest.splitOnce '_' with
      | some (ladder, leaf) => some ("Record\\".toList ++ product ++ '\\' :: ladder ++
          '\\' :: replaceUnderscores ' ' leaf)
      | none => some ("Record\\".toList ++ column)
    | none => some ("Record\\".toList ++ column)
  else if table.toAsciiLowercase = "friend".toList then
    match column.splitOnce '_' with
    | some (first, rest) => some ("friend\\".toList ++ first ++ '\\' :: rest)
    | none => some ("friend\\".toList ++ column)
  else if table.toAsciiLowercase = "profile".toList then some ("profile\\".toList ++ column)
  else some (table ++ '\\' :: replaceUnderscores '\\' column)

/-- `account.attrs.insert(key, v)` -/
def PvpgnAccount.insert (account : PvpgnAccount) (key v : Text) : PvpgnAccount where
  origin := account.origin
  attrs := BTree.insert key v account.attrs
  ascending := BTree.ascending_insert account.ascending

def newAccount (uid : Text) : PvpgnAccount where
  origin := "uid ".toList ++ uid
  attrs := []
  ascending := .nil

end CommandCenter.Import
