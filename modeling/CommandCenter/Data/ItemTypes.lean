import CommandCenter.Rust.Num
import CommandCenter.Rust.Utf8
import CommandCenter.Library.Closure
import CommandCenter.Rust.Slice

/-!
# Item types

`ItemTypes.txt`, from `crates/d2-data/src/items.rs`. A type is what its row names as its equivalents,
and what these are. Ids are places in the table, as `i32`; `none` is a panic.
-/

/-!
## Data tables

Diablo II's tab-separated tables, from `crates/d2-formats/src/excel.rs`: the first line names the
columns, and each later line is a row.
-/

namespace CommandCenter.Data

open Rust

/-- Column names, and rows of cells. -/
structure Table where
  columns : List Text
  rows : List (List Text)

structure Row where
  table : Table
  cells : List Text

namespace Table

/-- Blank lines and the rows that mark the expansion are left out. -/
def parse (bytes : List UInt8) : Table :=
  let lines := ((Text.fromUtf8Lossy bytes).splitOn '\n').map fun l =>
    if l.getLast? = some '\r' then l.dropLast else l
  let rows := (lines.tail.filter fun l => Text.trim l ≠ []).map fun l => l.splitOn '\t'
  { columns := (lines.head?.map fun h => h.splitOn '\t').getD []
    rows := rows.filter fun cells =>
      !cells.head?.any fun c => Text.eqIgnoreAsciiCase c "Expansion".toList }

/-- A column's index, whatever its case. -/
def column (t : Table) (name : Text) : Option Nat :=
  t.columns.findIdx? fun c => c.eqIgnoreAsciiCase name

def row (t : Table) (index : Nat) : Option Row := t.rows[index]?.map fun cells => ⟨t, cells⟩

end Table

namespace Row

/-- Empty cells and missing columns are `none`. -/
def get (r : Row) (column : Text) : Option Text := do
  let i ← r.table.column column
  r.cells[i]?.filter (· ≠ [])

/-- A cell as an integer: an empty one is zero. -/
def int (r : Row) (column : Text) : Option Int :=
  match r.get column with
  | none => (r.table.column column).map fun _ => 0
  | some s => parseI64 (Text.trim s)

end Row

open Library Relation

/-- What makes a table unusable. -/
inductive Error where
  | badTable (table problem : Text)

/-- A class's index from its three-letter code. -/
def classIndex (code : Text) : Option UInt8 :=
  (["ama", "sor", "nec", "pal", "bar", "dru", "ass"].findIdx? fun c => c.toList = code).map .ofNat

/-- The codes of `StorePage.txt`, by row. -/
def STORE_PAGES : List Text := ["armo".toList, "weap".toList, "mag".toList, "misc".toList]

structure ItemType where
  name : Text
  code : Text
  /-- Where an item of the type is worn. -/
  bodyLocations : List Text
  beltable : Bool
  throwable : Bool
  reload : Bool
  reEquip : Bool
  staffMods : Option UInt8
  cls : Option UInt8
  alwaysMagic : Bool
  canBeRare : Bool
  alwaysNormal : Bool
  treasureClass : Bool
  rarity : Int32
  maxSockets : List Int32
  varInvGfx : Int32
  quiver : Bool
  storePage : Option UInt8
  /-- Every type this one is, itself included. -/
  ancestors : List Int32

structure ItemTypes where
  rows : List ItemType

def Row.text (r : Row) (column : String) : Text := (r.get column.toList).getD []

/-- A cell as an `i32`, zero where it is none. -/
def Row.int32 (r : Row) (column : String) : Int32 := .ofInt ((r.int column.toList).getD 0)

/-- A row before its ancestors are known. -/
def ItemType.ofRow (r : Row) : ItemType where
  name := r.text "ItemType"
  code := r.text "Code"
  bodyLocations := [r.text "BodyLoc1", r.text "BodyLoc2"].filter (· ≠ [])
  beltable := r.int32 "Beltable" ≠ 0
  throwable := r.int32 "Throwable" ≠ 0
  reload := r.int32 "Reload" ≠ 0
  reEquip := r.int32 "ReEquip" ≠ 0
  staffMods := (r.get "StaffMods".toList).bind classIndex
  cls := (r.get "Class".toList).bind classIndex
  alwaysMagic := r.int32 "Magic" ≠ 0
  canBeRare := r.int32 "Rare" ≠ 0
  alwaysNormal := r.int32 "Normal" ≠ 0
  treasureClass := r.int32 "TreasureClass" ≠ 0
  rarity := r.int32 "Rarity"
  maxSockets := [r.int32 "MaxSock1", r.int32 "MaxSock25", r.int32 "MaxSock40"]
  varInvGfx := r.int32 "VarInvGfx"
  quiver := (r.get "Quiver".toList).any (· ≠ [])
  storePage := do
    let page ← r.get "StorePage".toList
    return .ofNat (← STORE_PAGES.findIdx? (· = page))
  ancestors := []

abbrev Named := ItemType × List Text

def Named.ofRow (r : Row) : Named := (.ofRow r, [r.text "Equiv1", r.text "Equiv2"])

/-- The first row with a code. -/
def idOf (rows : List Named) (code : Text) : Option Int32 :=
  (rows.findIdx? fun r => code ≠ [] ∧ r.1.code = code).map .ofNat

/-- The rows that the row of an id names. -/
def parents (rows : List Named) (id : Int32) : Option (List Int32) := do
  let row ← rows[asUsize id]?
  return row.2.filterMap (idOf rows)

instance finiteInt32 : Finite Int32 := by
  have hinj : Function.Injective fun i : Int32 => i.toBitVec.toFin := by
    intro i j h
    exact Int32.toBitVec.inj (BitVec.eq_of_toFin_eq h)
  exact Finite.of_injective _ hinj

/-- The rows from an index on, with their ancestors. -/
def fillAncestors (rows : List Named) (id : Nat) : List Named → Option (List ItemType)
  | [] => some []
  | row :: more => do
    let list ← scan (parents rows) (.single (.ofNat id)) 0
    return { row.1 with ancestors := list.entries } :: (← fillAncestors rows (id + 1) more)

namespace ItemTypes

def fromTable (t : Table) : Checked Error ItemTypes :=
  match ["Code".toList, "Equiv1".toList].find? fun column => (t.column column).isNone with
  | some column =>
    throw (.badTable "itemtypes.txt".toList ("no ".toList ++ column ++ " column".toList))
  | none => do
    let rows := t.rows.map fun cells => Named.ofRow ⟨t, cells⟩
    return ⟨← fillAncestors rows 0 rows⟩

def get (types : ItemTypes) (id : Int32) : Option ItemType :=
  if id < 0 then none else types.rows[id.toNatClampNeg]?

def id (types : ItemTypes) (code : Text) : Option Int32 :=
  (types.rows.findIdx? fun r => code ≠ [] ∧ r.code = code).map .ofNat

/-- Whether the one type is the other or inherits from it. -/
def isA (types : ItemTypes) (id parent : Int32) : Bool :=
  (types.get id).any fun t => t.ancestors.contains parent

/-- Whether a type is the one with a code or inherits from it. -/
def is (types : ItemTypes) (id : Int32) (parent : Text) : Bool :=
  (types.id parent).any fun p => types.isA id p

end ItemTypes

/-! ## Ancestors -/

section Ancestors

variable (t : Table)

def namedRows : List Named := t.rows.map fun cells => Named.ofRow ⟨t, cells⟩

def FirstCoded (code : Text) (b : Nat) : Prop :=
  (∃ row, t.row b = some row ∧ row.text "Code" = code) ∧
    ∀ c < b, ∀ row, t.row c = some row → row.text "Code" ≠ code

/-- A row has a code as one of its equivalents, and the other row is the first one with it. -/
def Names (a b : Nat) : Prop :=
  ∃ row, t.row a = some row ∧ ∃ code, (code = row.text "Equiv1" ∨ code = row.text "Equiv2") ∧
    code ≠ [] ∧ FirstCoded t code b

variable {t}

theorem namedRows_getElem? (a : Nat) : (namedRows t)[a]? = (t.row a).map Named.ofRow := by
  rw [namedRows, List.getElem?_map, Table.row, Option.map_map]
  rfl

theorem length_namedRows : (namedRows t).length = t.rows.length := List.length_map _

theorem row_isSome {a : Nat} : (∃ row, t.row a = some row) ↔ a < t.rows.length := by
  constructor
  · rintro ⟨row, h⟩
    obtain ⟨cells, hcells, _⟩ := Option.map_eq_some_iff.mp h
    exact (List.getElem?_eq_some_iff.mp hcells).1
  · intro h
    exact ⟨⟨t, t.rows[a]⟩, by rw [Table.row, List.getElem?_eq_getElem h]; rfl⟩

theorem FirstCoded.lt {code : Text} {b : Nat} (h : FirstCoded t code b) : b < t.rows.length := by
  obtain ⟨⟨row, hrow, _⟩, _⟩ := h
  exact row_isSome.mp ⟨row, hrow⟩

theorem findIdx?_code {code : Text} {b : Nat} :
    (namedRows t).findIdx? (fun r => code ≠ [] ∧ r.1.code = code) = some b ↔
      code ≠ [] ∧ FirstCoded t code b := by
  have hentry : ∀ c (hc : c < (namedRows t).length), ∃ row, t.row c = some row ∧
      (namedRows t)[c].1.code = row.text "Code" := by
    intro c hc
    obtain ⟨row, hrow⟩ := row_isSome.mpr (length_namedRows ▸ hc)
    have hget := namedRows_getElem? (t := t) c
    rw [hrow, List.getElem?_eq_getElem hc] at hget
    exact ⟨row, hrow, congrArg (fun r : Named => r.1.code) (Option.some.inj hget)⟩
  rw [List.findIdx?_eq_some_iff_getElem]
  simp only [decide_eq_true_eq]
  constructor
  · rintro ⟨hb, ⟨hcode, heq⟩, hfirst⟩
    obtain ⟨row, hrow, hrowCode⟩ := hentry b hb
    refine ⟨hcode, ⟨row, hrow, hrowCode ▸ heq⟩, ?_⟩
    intro c hc rowC hrowC hcodeC
    obtain ⟨row', hrow', hcode'⟩ := hentry c (by omega)
    rw [hrowC] at hrow'
    cases hrow'
    exact hfirst c hc ⟨hcode, hcode'.trans hcodeC⟩
  · rintro ⟨hcode, hfirst⟩
    have hb : b < (namedRows t).length := length_namedRows ▸ hfirst.lt
    obtain ⟨⟨row, hrow, heq⟩, hothers⟩ := hfirst
    obtain ⟨row', hrow', hcode'⟩ := hentry b hb
    rw [hrow] at hrow'
    cases hrow'
    refine ⟨hb, ⟨hcode, hcode'.trans heq⟩, ?_⟩
    rintro c hc ⟨_, heqC⟩
    obtain ⟨rowC, hrowC, hcodeC⟩ := hentry c (by omega)
    exact hothers c hc rowC hrowC (hcodeC.symm.trans heqC)

theorem idOf_eq_some {code : Text} {i : Int32} :
    idOf (namedRows t) code = some i ↔ code ≠ [] ∧ ∃ b, FirstCoded t code b ∧ i = .ofNat b := by
  rw [idOf, Option.map_eq_some_iff]
  constructor
  · rintro ⟨b, hb, rfl⟩
    obtain ⟨hcode, hfirst⟩ := findIdx?_code.mp hb
    exact ⟨hcode, b, hfirst, rfl⟩
  · rintro ⟨hcode, b, hfirst, rfl⟩
    exact ⟨b, findIdx?_code.mpr ⟨hcode, hfirst⟩, rfl⟩

/-- With at most `2 ^ 31` rows, an id is the index of its row. -/
theorem parents_eq {a : Nat} (ha : a < t.rows.length) (hsmall : a < 2 ^ 31) :
    ∃ row, t.row a = some row ∧ parents (namedRows t) (.ofNat a) =
      some ([row.text "Equiv1", row.text "Equiv2"].filterMap (idOf (namedRows t))) := by
  obtain ⟨row, hrow⟩ := row_isSome.mpr ha
  refine ⟨row, hrow, ?_⟩
  rw [parents, asUsize_ofNat hsmall, namedRows_getElem?, hrow]
  rfl

theorem leads_iff {a : Nat} (ha : a < t.rows.length) (hsmall : a < 2 ^ 31) (q : Int32) :
    LeadsTo (parents (namedRows t)) (.ofNat a) q ↔ ∃ b, Names t a b ∧ q = .ofNat b := by
  obtain ⟨row, hrow, hparents⟩ := parents_eq ha hsmall
  constructor
  · rintro ⟨found, hfound, hq⟩
    rw [hparents] at hfound
    cases hfound
    obtain ⟨code, hcode, hid⟩ := List.mem_filterMap.mp hq
    obtain ⟨hne, b, hfirst, rfl⟩ := idOf_eq_some.mp hid
    exact ⟨b, ⟨row, hrow, code, by simpa using hcode, hne, hfirst⟩, rfl⟩
  · rintro ⟨b, ⟨row', hrow', code, hcode, hne, hfirst⟩, rfl⟩
    rw [hrow] at hrow'
    cases hrow'
    refine ⟨_, hparents, List.mem_filterMap.mpr ⟨code, by simpa using hcode, ?_⟩⟩
    exact idOf_eq_some.mpr ⟨hne, b, hfirst, rfl⟩

theorem Names.lt {a b : Nat} (h : Names t a b) : b < t.rows.length := by
  obtain ⟨_, _, _, _, _, hfirst⟩ := h
  exact hfirst.lt

theorem reach_lt {a b : Nat} (ha : a < t.rows.length) (h : ReflTransGen (Names t) a b) :
    b < t.rows.length := by
  rcases ReflTransGen.cases_tail h with rfl | ⟨_, _, hlast⟩
  · exact ha
  · exact hlast.lt

/-- What the scan of a row comes to is what the row names, and what these name. -/
theorem reaches_iff (hrows : t.rows.length ≤ 2 ^ 31) {a : Nat} (ha : a < t.rows.length)
    (q : Int32) :
    ReflTransGen (LeadsTo (parents (namedRows t))) (.ofNat a) q ↔
      ∃ b, b < t.rows.length ∧ ReflTransGen (Names t) a b ∧ q = .ofNat b := by
  constructor
  · intro h
    induction h with
    | refl => exact ⟨a, ha, .refl, rfl⟩
    | tail _ hlast ih =>
      obtain ⟨b, hb, hreach, rfl⟩ := ih
      obtain ⟨c, hc, rfl⟩ := (leads_iff hb (by omega) _).mp hlast
      exact ⟨c, hc.lt, hreach.tail hc, rfl⟩
  · rintro ⟨b, hb, hreach, rfl⟩
    clear hb
    have hstep : b < t.rows.length ∧
        ReflTransGen (LeadsTo (parents (namedRows t))) (.ofNat a) (.ofNat b) := by
      induction hreach with
      | refl => exact ⟨ha, .refl⟩
      | tail _ hlast ih =>
        obtain ⟨hb, hprev⟩ := ih
        exact ⟨hlast.lt, hprev.tail ((leads_iff hb (by omega) _).mpr ⟨_, hlast, rfl⟩)⟩
    exact hstep.2

theorem scan_parents (hrows : t.rows.length ≤ 2 ^ 31) {a : Nat} (ha : a < t.rows.length) :
    ∃ w, scan (parents (namedRows t)) (.single (.ofNat a)) 0 = some w ∧
      ∀ q, q ∈ w.entries ↔ ∃ b, b < t.rows.length ∧ ReflTransGen (Names t) a b ∧ q = .ofNat b := by
  have hnext : ∀ q, ReflTransGen (LeadsTo (parents (namedRows t))) (.ofNat a) q →
      parents (namedRows t) q ≠ none := by
    intro q hq
    obtain ⟨b, hb, _, rfl⟩ := (reaches_iff hrows ha q).mp hq
    obtain ⟨_, _, hparents⟩ := parents_eq hb (by omega)
    simp [hparents]
  obtain ⟨w, hw, hmem⟩ := scan_spec _ hnext
  exact ⟨w, hw, fun q => (hmem q).trans (reaches_iff hrows ha q)⟩

/-- Every row gets the list that its scan ends with. -/
theorem fillAncestors_eq_some {rows : List Named} {id : Nat} {more : List Named}
    (h : ∀ k < more.length, ∃ w, scan (parents rows) (.single (.ofNat (id + k))) 0 = some w) :
    ∃ types, fillAncestors rows id more = some types ∧ types.length = more.length ∧
      ∀ k row, types[k]? = some row →
        ∃ w, scan (parents rows) (.single (.ofNat (id + k))) 0 = some w ∧
          row.ancestors = w.entries := by
  induction more generalizing id with
  | nil => exact ⟨[], rfl, rfl, by simp⟩
  | cons head more ih =>
    obtain ⟨w, hw⟩ := h 0 (Nat.zero_lt_succ _)
    rw [Nat.add_zero] at hw
    have hmore : ∀ k < more.length,
        ∃ w, scan (parents rows) (.single (.ofNat (id + 1 + k))) 0 = some w := by
      intro k hk
      rw [Nat.add_assoc, Nat.add_comm 1]
      exact h (k + 1) (Nat.succ_lt_succ hk)
    obtain ⟨types, htypes, hlength, hlist⟩ := ih hmore
    refine ⟨{ head.1 with ancestors := w.entries } :: types, ?_, by simp [hlength], ?_⟩
    · simp [fillAncestors, hw, htypes]
    · intro k row hrow
      cases k with
      | zero =>
        cases hrow
        exact ⟨w, hw, rfl⟩
      | succ k =>
        obtain ⟨w', hw', hrow'⟩ := hlist k row hrow
        rw [Nat.add_assoc, Nat.add_comm 1] at hw'
        exact ⟨w', hw', hrow'⟩

def HasColumns (t : Table) : Prop :=
  (t.column "Code".toList).isSome ∧ (t.column "Equiv1".toList).isSome

theorem fromTable_of_hasColumns (h : HasColumns t) :
    ItemTypes.fromTable t =
      (fillAncestors (namedRows t) 0 (namedRows t)).map fun rows => .ok ⟨rows⟩ := by
  have hfind : ["Code".toList, "Equiv1".toList].find? (fun column => (t.column column).isNone) =
      none := by
    rw [List.find?_eq_none]
    intro column hcolumn
    rw [Option.isNone_iff_eq_none, ← ne_eq, ← Option.isSome_iff_ne_none]
    rcases List.mem_pair.mp hcolumn with rfl | rfl
    · exact h.1
    · exact h.2
  unfold ItemTypes.fromTable
  rw [hfind]
  have hrows : (t.rows.map fun cells => Named.ofRow ⟨t, cells⟩) = namedRows t := rfl
  simp only [hrows]
  cases fillAncestors (namedRows t) 0 (namedRows t) <;> rfl

theorem fromTable_of_not_hasColumns (h : ¬ HasColumns t) :
    ∃ e, ItemTypes.fromTable t = some (.error e) := by
  unfold ItemTypes.fromTable
  cases hfind : ["Code".toList, "Equiv1".toList].find? fun column => (t.column column).isNone with
  | some column => exact ⟨_, rfl⟩
  | none =>
    rw [List.find?_eq_none] at hfind
    have hcode := hfind _ List.mem_cons_self
    have hequiv := hfind _ (List.mem_cons_of_mem _ List.mem_cons_self)
    refine absurd ⟨?_, ?_⟩ h
    · simpa [Option.isSome_iff_ne_none] using hcode
    · simpa [Option.isSome_iff_ne_none] using hequiv

/-- A type is another just if its row is the other's, or comes to it by what the rows name. No list of
ancestors names a type twice. -/
structure Inherits (t : Table) (types : ItemTypes) : Prop where
  isA_iff : ∀ i p : Int32, types.isA i p = true ↔
    ∃ a b, a < t.rows.length ∧ ReflTransGen (Names t) a b ∧ i = .ofNat a ∧ p = .ofNat b
  nodup : ∀ row ∈ types.rows, row.ancestors.Nodup

theorem get_ofNat {types : ItemTypes} {a : Nat} (h : a < 2 ^ 31) :
    types.get (.ofNat a) = types.rows[a]? := by
  have hpos : ¬ Int32.ofNat a < 0 := by
    rw [Int32.lt_iff_toInt_lt, Int32.toInt_ofNat_of_lt h]
    simp
  rw [ItemTypes.get, if_neg hpos, Int32.toNatClampNeg_ofNat_of_lt h]

theorem inherits_of_fillAncestors (hrows : t.rows.length ≤ 2 ^ 31) :
    ∃ rows, fillAncestors (namedRows t) 0 (namedRows t) = some rows ∧ Inherits t ⟨rows⟩ := by
  have hscan : ∀ k < (namedRows t).length, ∃ w,
      scan (parents (namedRows t)) (.single (.ofNat (0 + k))) 0 = some w := by
    intro k hk
    rw [length_namedRows] at hk
    rw [Nat.zero_add]
    obtain ⟨w, hw, _⟩ := scan_parents hrows hk
    exact ⟨w, hw⟩
  obtain ⟨rows, hfill, hlength, hlist⟩ := fillAncestors_eq_some hscan
  rw [length_namedRows] at hlength
  have hancestors : ∀ k row, rows[k]? = some row → row.ancestors.Nodup ∧
      ∀ q, q ∈ row.ancestors ↔
        ∃ b, b < t.rows.length ∧ ReflTransGen (Names t) k b ∧ q = .ofNat b := by
    intro k row hrow
    obtain ⟨w, hw, heq⟩ := hlist k row hrow
    have hk : k < t.rows.length := hlength ▸ (List.getElem?_eq_some_iff.mp hrow).1
    obtain ⟨w', hw', hmem⟩ := scan_parents hrows hk
    rw [Nat.zero_add, hw'] at hw
    cases hw
    rw [heq]
    exact ⟨w.nodup, hmem⟩
  refine ⟨rows, hfill, ?_, ?_⟩
  · intro i p
    constructor
    · intro h
      obtain ⟨row, hget, hcontains⟩ := (Option.any_eq_true _ _).mp h
      have hpos : 0 ≤ i := by
        by_contra hneg
        rw [ItemTypes.get, if_pos (Int32.not_le.mp hneg)] at hget
        cases hget
      have hi : Int32.ofNat i.toNatClampNeg = i := Int32.ofNat_toNatClampNeg i hpos
      have hsmall : i.toNatClampNeg < 2 ^ 31 := i.toNatClampNeg_lt
      rw [← hi, get_ofNat hsmall] at hget
      obtain ⟨b, _, hreach, hp⟩ :=
        ((hancestors _ row hget).2 p).mp (List.contains_iff_mem.mp hcontains)
      have ha := hlength ▸ (List.getElem?_eq_some_iff.mp hget).1
      exact ⟨_, b, ha, hreach, hi.symm, hp⟩
    · rintro ⟨a, b, ha, hreach, rfl, rfl⟩
      have hlt : a < rows.length := hlength ▸ ha
      have hget : rows[a]? = some rows[a] := List.getElem?_eq_getElem hlt
      refine (Option.any_eq_true _ _).mpr ⟨_, (get_ofNat (by omega)).trans hget, ?_⟩
      refine List.contains_iff_mem.mpr (((hancestors a _ hget).2 _).mpr ⟨b, ?_, hreach, rfl⟩)
      exact reach_lt ha hreach
  · intro row hrow
    obtain ⟨k, hk⟩ := List.getElem?_of_mem hrow
    exact (hancestors k row hk).1

/-- A table of at most `2 ^ 31` rows is closed under what its rows name, or lacks a column. -/
theorem fromTable_inherits (t : Table) (hrows : t.rows.length ≤ 2 ^ 31) :
    (HasColumns t ∧ ∃ types, ItemTypes.fromTable t = some (.ok types) ∧ Inherits t types) ∨
      (¬ HasColumns t ∧ ∃ e, ItemTypes.fromTable t = some (.error e)) := by
  by_cases h : HasColumns t
  · obtain ⟨rows, hfill, hinherits⟩ := inherits_of_fillAncestors hrows
    refine Or.inl ⟨h, ⟨rows⟩, ?_, hinherits⟩
    rw [fromTable_of_hasColumns h, hfill]
    rfl
  · exact Or.inr ⟨h, fromTable_of_not_hasColumns h⟩

/-- Two types that name each other, and one that names the first of them and nothing. -/
def cyclic : Table where
  columns := ["Code".toList, "Equiv1".toList, "Equiv2".toList]
  rows := [["shld".toList, "armo".toList], ["armo".toList, "shld".toList],
    ["head".toList, [], "shld".toList]]

theorem fromTable_cyclic :
    (HasColumns cyclic ∧ ∃ types, ItemTypes.fromTable cyclic = some (.ok types) ∧
      Inherits cyclic types) ∨
      (¬ HasColumns cyclic ∧ ∃ e, ItemTypes.fromTable cyclic = some (.error e)) :=
  fromTable_inherits cyclic (by simp [cyclic])

/-! ## Tables that are too long -/

theorem fillAncestors_eq_none {rows : List Named} {id k : Nat} {more : List Named}
    (hk : k < more.length)
    (hnone : scan (parents rows) (.single (.ofNat (id + k))) 0 = none) :
    fillAncestors rows id more = none := by
  induction more generalizing id k with
  | nil => cases hk
  | cons head more ih =>
    cases k with
    | zero =>
      rw [Nat.add_zero] at hnone
      simp [fillAncestors, hnone]
    | succ k =>
      have hrest : fillAncestors rows (id + 1) more = none := by
        refine ih (Nat.lt_of_succ_lt_succ hk) ?_
        rwa [Nat.add_assoc, Nat.add_comm 1]
      rw [fillAncestors, hrest]
      cases scan (parents rows) (.single (.ofNat id)) 0 <;> rfl

/-- The id of row `2 ^ 31` is negative, and is not the index of a row. -/
theorem fromTable_eq_none (h : HasColumns t) (hlarge : 2 ^ 31 < t.rows.length)
    (hvec : t.rows.length < 2 ^ 63) : ItemTypes.fromTable t = none := by
  have hindex : asUsize (.ofNat (2 ^ 31)) = 2 ^ 64 - 2 ^ 31 := rfl
  have hparents : parents (namedRows t) (.ofNat (0 + 2 ^ 31)) = none := by
    rw [Nat.zero_add, parents, hindex, List.getElem?_eq_none]
    · rfl
    · rw [length_namedRows]
      omega
  rw [fromTable_of_hasColumns h,
    fillAncestors_eq_none (length_namedRows ▸ hlarge) (scan_eq_none hparents)]
  rfl

/-- More types than an `i32` numbers from zero. -/
def crowded : Table where
  columns := ["Code".toList, "Equiv1".toList]
  rows := List.replicate (2 ^ 31 + 1) ["x".toList]

theorem fromTable_crowded : HasColumns crowded ∧ ItemTypes.fromTable crowded = none := by
  have hcolumns : HasColumns crowded := ⟨rfl, rfl⟩
  have hlength : crowded.rows.length = 2 ^ 31 + 1 := List.length_replicate
  exact ⟨hcolumns, fromTable_eq_none hcolumns (by omega) (by omega)⟩

end Ancestors

end CommandCenter.Data
