import CommandCenter.Data.ItemTypes
import CommandCenter.Rust.Map

/-!
# Treasure classes

`TreasureClassEx.txt`, from `crates/d2-data/src/treasure.rs`, and the class of a group that a monster
of a level drops from. The classes are in a map that is walked in any order.

* `upgraded_spec`: an upgrade is to a class of the group with the greatest level that is not too high.
* `wellDefined_iff`: which class it is depends on no order just if no two classes share that level.
-/

namespace CommandCenter.Data

open Rust

structure Entry where
  /-- An item code, `gld`, or another class's name. -/
  name : Text
  /-- The gold multiplier in 256ths, zero when absent. -/
  mul : UInt32
  prob : UInt32
  /-- Left out of a classic game's rolls. -/
  expansionOnly : Bool

/-- How much a class betters each quality's odds. -/
structure QualityMods where
  unique : UInt32
  set : UInt32
  rare : UInt32
  magic : UInt32
deriving DecidableEq

structure TreasureClass where
  name : Text
  /-- Zero for none. -/
  group : Int32
  level : Int32
  picks : Int32
  noDrop : UInt32
  entries : List Entry
  mods : QualityMods

/-- Every class, by its name in lowercase. -/
structure TreasureClasses where
  byName : Map Text TreasureClass
  keyed : ∀ k tc, byName.lookup k = some tc → tc.name.toAsciiLowercase = k

section Table

/-- `trim_matches`, of a character. -/
def trimMatches (c : Char) (s : Text) : Text := (s.dropWhile (· = c)).rdropWhile (· = c)

/-- `u32::try_from`, of an `i64`. -/
def u32OfInt (i : Int) : Option UInt32 := if 0 ≤ i ∧ i < 2 ^ 32 then some (.ofNat i.toNat) else none

/-- The entry in the columns of a number. -/
def Entry.ofRow (row : Row) (i : Nat) : Option Entry := do
  let number := Nat.toDigits 10 i
  let item ← ((row.get ("Item".toList ++ number)).map (trimMatches '"')).filter (· ≠ [])
  let prob ← (u32OfInt ((row.int ("Prob".toList ++ number)).getD 0)).filter (0 < ·)
  let parts := item.splitOn ','
  let mul := do
    let m ← parts.tail.findSome? (stripPrefix "mul=".toList)
    parseU32 m
  return ⟨parts.headD [], mul.getD 0, prob, false⟩

def TreasureClass.ofRow (row : Row) : Option TreasureClass := do
  let name ← (row.get "Treasure Class".toList).filter (· ≠ [])
  let int := fun c : String => (row.int c.toList).getD 0
  let u32 := fun c : String => (u32OfInt (int c)).getD 0
  return {
    name := name
    group := .ofInt (int "group")
    level := .ofInt (int "level")
    picks := .ofInt (int "Picks")
    noDrop := u32 "NoDrop"
    entries := (List.range' 1 10).filterMap (Entry.ofRow row)
    mods := ⟨u32 "Unique", u32 "Set", u32 "Rare", u32 "Magic"⟩ }

end Table

namespace TreasureClasses

def empty : TreasureClasses := ⟨∅, fun _ _ h => by simp at h⟩

/-- A class, in place of one with its name. -/
def insert (classes : TreasureClasses) (tc : TreasureClass) : TreasureClasses where
  byName := classes.byName.insert tc.name.toAsciiLowercase tc
  keyed k tc' h := by
    by_cases hk : k = tc.name.toAsciiLowercase
    · rw [hk, Finmap.lookup_insert] at h
      cases h
      exact hk.symm
    · rw [Finmap.lookup_insert_of_ne _ hk] at h
      exact classes.keyed k tc' h

/-- The classes, inserted one by one. -/
def collect (rows : List TreasureClass) : TreasureClasses := rows.foldl insert empty

def fromTable (t : Table) : Except Error TreasureClasses :=
  if (t.column "Treasure Class".toList).isNone then
    .error (.badTable "treasureclassex.txt".toList "no Treasure Class column".toList)
  else .ok (collect (t.rows.filterMap fun cells => TreasureClass.ofRow ⟨t, cells⟩))

/-- A class by name, any case. -/
def get (classes : TreasureClasses) (name : Text) : Option TreasureClass :=
  classes.byName.lookup name.toAsciiLowercase

/-- The class of that name, or the class of its group with the highest level that is not above the
monster's. -/
def upgraded (walk : Map.Walk Text TreasureClass) (classes : TreasureClasses) (name : Text)
    (monsterLevel : Int32) : Option TreasureClass := do
  let base ← classes.get name
  if base.group = 0 then return base
  else
    let values := (walk.order classes.byName).map Sigma.snd
    let eligible := values.filter fun tc =>
      tc.group = base.group ∧ tc.level ≤ monsterLevel ∧ base.level < tc.level
    return (maxBy (fun a b => compare a.level.toInt b.level.toInt) eligible).getD base

/-! ## Inserting -/

theorem byName_inj {c c' : TreasureClasses} (h : c.byName = c'.byName) : c = c' := by
  cases c
  cases c'
  cases h
  rfl

def key (tc : TreasureClass) : Text := tc.name.toAsciiLowercase

theorem lookup_insert (classes : TreasureClasses) (tc : TreasureClass) (k : Text) :
    (classes.insert tc).byName.lookup k = if k = key tc then some tc else classes.byName.lookup k := by
  by_cases hk : k = key tc
  · rw [if_pos hk, hk]
    exact Finmap.lookup_insert _
  · rw [if_neg hk]
    exact Finmap.lookup_insert_of_ne _ hk

theorem lookup_foldl_insert {rows : List TreasureClass} (hrows : (rows.map key).Nodup)
    (classes : TreasureClasses) (k : Text) (tc : TreasureClass) :
    (rows.foldl insert classes).byName.lookup k = some tc ↔
      (tc ∈ rows ∧ key tc = k) ∨ (k ∉ rows.map key ∧ classes.byName.lookup k = some tc) := by
  induction rows generalizing classes with
  | nil => simp
  | cons row rows ih =>
    rw [List.map_cons, List.nodup_cons] at hrows
    rw [List.foldl_cons, ih hrows.2, lookup_insert]
    constructor
    · rintro (⟨hmem, hk⟩ | ⟨hk, hlookup⟩)
      · exact Or.inl ⟨List.mem_cons_of_mem _ hmem, hk⟩
      · by_cases heq : k = key row
        · rw [if_pos heq] at hlookup
          cases hlookup
          exact Or.inl ⟨List.mem_cons_self, heq.symm⟩
        · rw [if_neg heq] at hlookup
          exact Or.inr ⟨by simpa [heq] using hk, hlookup⟩
    · rintro (⟨hmem, hk⟩ | ⟨hk, hlookup⟩)
      · rcases List.mem_cons.mp hmem with rfl | hmem
        · refine Or.inr ⟨hk ▸ hrows.1, ?_⟩
          rw [if_pos hk.symm]
        · exact Or.inl ⟨hmem, hk⟩
      · rw [List.map_cons, List.mem_cons, not_or] at hk
        refine Or.inr ⟨hk.2, ?_⟩
        rwa [if_neg hk.1]

theorem lookup_collect {rows : List TreasureClass} (hrows : (rows.map key).Nodup) (k : Text)
    (tc : TreasureClass) : (collect rows).byName.lookup k = some tc ↔ tc ∈ rows ∧ key tc = k := by
  have hempty : empty.byName.lookup k = none := Finmap.lookup_empty k
  rw [collect, lookup_foldl_insert hrows, hempty]
  simp

/-- Classes of different names may be inserted in any order. -/
theorem collect_perm {rows rows' : List TreasureClass} (hrows : (rows.map key).Nodup)
    (h : rows'.Perm rows) : collect rows' = collect rows := by
  apply byName_inj
  apply Finmap.ext_lookup
  intro k
  have hrows' : (rows'.map key).Nodup := (h.map key).nodup_iff.mpr hrows
  ext tc
  rw [lookup_collect hrows, lookup_collect hrows', h.mem_iff]

theorem mem_values {classes : TreasureClasses} {walk : Map.Walk Text TreasureClass}
    {tc : TreasureClass} : tc ∈ (walk.order classes.byName).map Sigma.snd ↔
    classes.byName.lookup (key tc) = some tc := by
  rw [List.mem_map]
  constructor
  · rintro ⟨⟨k, tc'⟩, hentry, rfl⟩
    have hlookup := walk.mem_order.mp hentry
    rwa [← classes.keyed k tc' hlookup] at hlookup
  · intro hlookup
    exact ⟨⟨key tc, tc⟩, walk.mem_order.mpr hlookup, rfl⟩

theorem exists_rows (walk : Map.Walk Text TreasureClass) (classes : TreasureClasses) :
    ∃ rows : List TreasureClass, (rows.map key).Nodup ∧ collect rows = classes := by
  have hkeys : ((walk.order classes.byName).map Sigma.snd).map key =
      (walk.order classes.byName).map Sigma.fst := by
    rw [List.map_map]
    refine List.map_congr_left fun e he => ?_
    obtain ⟨k, tc⟩ := e
    exact classes.keyed k tc (walk.mem_order.mp he)
  have hnodup : (((walk.order classes.byName).map Sigma.snd).map key).Nodup := by
    rw [hkeys]
    exact walk.nodupKeys classes.byName
  refine ⟨_, hnodup, byName_inj (Finmap.ext_lookup fun k => ?_)⟩
  ext tc
  rw [lookup_collect hnodup, mem_values]
  constructor
  · rintro ⟨hlookup, rfl⟩
    exact hlookup
  · intro hlookup
    have hk : key tc = k := classes.keyed k tc hlookup
    exact ⟨hk ▸ hlookup, hk⟩

/-! ## Upgrading -/

section Upgrade

variable (classes : TreasureClasses) (base : TreasureClass) (level : Int32)

/-- A class of the group of a class with a higher level, one that is not too high. -/
structure Eligible (tc : TreasureClass) : Prop where
  held : classes.byName.lookup (key tc) = some tc
  grouped : tc.group = base.group
  reached : tc.level ≤ level
  higher : base.level < tc.level

/-- No class that may be taken has a higher level. -/
def Greatest (tc : TreasureClass) : Prop :=
  Eligible classes base level tc ∧ ∀ tc', Eligible classes base level tc' → tc'.level ≤ tc.level

def IsUpgrade (tc : TreasureClass) : Prop :=
  (base.group ≠ 0 ∧ Greatest classes base level tc) ∨
    (tc = base ∧ (base.group = 0 ∨ ∀ tc', ¬ Eligible classes base level tc'))

end Upgrade

variable {classes : TreasureClasses} {base tc : TreasureClass} {level : Int32} {name : Text}
  {walk walk' : Map.Walk Text TreasureClass}

/-- The classes that may be taken, in the order of a walk. -/
def eligible (walk : Map.Walk Text TreasureClass) (classes : TreasureClasses) (base : TreasureClass)
    (level : Int32) : List TreasureClass :=
  ((walk.order classes.byName).map Sigma.snd).filter fun tc =>
    tc.group = base.group ∧ tc.level ≤ level ∧ base.level < tc.level

def compareLevels (a b : TreasureClass) : Ordering := compare a.level.toInt b.level.toInt

theorem compareLevels_gt (a b : TreasureClass) :
    compareLevels a b = .gt ↔ b.level.toInt < a.level.toInt := compare_gt_iff_gt

theorem mem_eligible : tc ∈ eligible walk classes base level ↔ Eligible classes base level tc := by
  rw [eligible, List.mem_filter, mem_values, decide_eq_true_eq]
  constructor
  · rintro ⟨hheld, hgroup, hreached, hhigher⟩
    exact ⟨hheld, hgroup, hreached, hhigher⟩
  · rintro ⟨hheld, hgroup, hreached, hhigher⟩
    exact ⟨hheld, hgroup, hreached, hhigher⟩

theorem upgraded_of_get (h : classes.get name = some base) :
    upgraded walk classes name level = some (if base.group = 0 then base
      else (maxBy compareLevels (eligible walk classes base level)).getD base) := by
  rw [upgraded, h]
  by_cases hgroup : base.group = 0
  · simp [hgroup]
  · simp only [Option.bind_eq_bind, Option.bind_some, if_neg hgroup]
    rfl

/-- An upgrade is to the greatest level, whatever the order. -/
theorem upgraded_spec (h : classes.get name = some base) :
    ∃ tc, upgraded walk classes name level = some tc ∧ IsUpgrade classes base level tc := by
  rw [upgraded_of_get h]
  refine ⟨_, rfl, ?_⟩
  by_cases hgroup : base.group = 0
  · rw [if_pos hgroup]
    exact Or.inr ⟨rfl, Or.inl hgroup⟩
  · rw [if_neg hgroup]
    cases hlist : eligible walk classes base level with
    | nil =>
      refine Or.inr ⟨rfl, Or.inr fun tc htc => ?_⟩
      have hmem : tc ∈ eligible walk classes base level := mem_eligible.mpr htc
      rw [hlist] at hmem
      cases hmem
    | cons x xs =>
      obtain ⟨best, hmem, hbest, hmax⟩ := maxBy_isGreatest compareLevels_gt x xs
      rw [hbest, Option.getD_some]
      rw [← hlist] at hmem hmax
      refine Or.inl ⟨hgroup, mem_eligible.mp hmem, fun tc htc => ?_⟩
      exact Int32.le_iff_toInt_le.mpr (hmax tc (mem_eligible.mpr htc))

theorem isUpgrade_of_upgraded (h : classes.get name = some base)
    (htc : upgraded walk classes name level = some tc) : IsUpgrade classes base level tc := by
  obtain ⟨tc', htc', hup⟩ := upgraded_spec h
  rw [htc] at htc'
  cases htc'
  exact hup

theorem upgraded_of_none (h : classes.get name = none) : upgraded walk classes name level = none := by
  rw [upgraded, h]
  rfl

theorem exists_base (h : upgraded walk classes name level = some tc) :
    ∃ base, classes.get name = some base := by
  rw [← Option.ne_none_iff_exists']
  intro hnone
  rw [upgraded_of_none hnone] at h
  cases h

theorem get_upgrade (h : classes.get name = some base) (htc : IsUpgrade classes base level tc) :
    classes.get tc.name = some tc := by
  rcases htc with ⟨_, hgreatest⟩ | ⟨rfl, _⟩
  · exact hgreatest.1.held
  · rw [get, classes.keyed _ _ h]
    exact h

theorem upgraded_idempotent (htc : upgraded walk classes name level = some tc) :
    upgraded walk' classes tc.name level = some tc := by
  obtain ⟨base, h⟩ := exists_base htc
  have hup := isUpgrade_of_upgraded h htc
  have hget := get_upgrade h hup
  obtain ⟨tc', htc', hagain⟩ : ∃ tc', upgraded walk' classes tc.name level = some tc' ∧
      IsUpgrade classes tc level tc' := upgraded_spec hget
  rw [htc']
  rcases hagain with ⟨hgroup, hgreatest⟩ | ⟨rfl, _⟩
  · exfalso
    rcases hup with ⟨_, hfirst⟩ | ⟨rfl, hzero | hnone⟩
    · have heligible : Eligible classes base level tc' :=
        ⟨hgreatest.1.held, hgreatest.1.grouped.trans hfirst.1.grouped, hgreatest.1.reached,
          Int32.lt_trans hfirst.1.higher hgreatest.1.higher⟩
      exact Int32.not_le.mpr hgreatest.1.higher (hfirst.2 tc' heligible)
    · exact hgroup hzero
    · exact hnone tc' hgreatest.1
  · rfl

/-- A higher level gives no class of a lower level. -/
theorem upgraded_monotone {level' : Int32} {tc' : TreasureClass} (hlevel : level ≤ level')
    (htc : upgraded walk classes name level = some tc)
    (htc' : upgraded walk' classes name level' = some tc') : tc.level ≤ tc'.level := by
  obtain ⟨base, h⟩ := exists_base htc
  have hup := isUpgrade_of_upgraded h htc
  have hup' := isUpgrade_of_upgraded h htc'
  have hraise : ∀ x, Eligible classes base level x → Eligible classes base level' x :=
    fun x hx => ⟨hx.held, hx.grouped, Int32.le_trans hx.reached hlevel, hx.higher⟩
  rcases hup with ⟨hgroup, hgreatest⟩ | ⟨rfl, _⟩
  · rcases hup' with ⟨_, hgreatest'⟩ | ⟨_, hzero | hnone⟩
    · exact hgreatest'.2 tc (hraise tc hgreatest.1)
    · exact absurd hzero hgroup
    · exact absurd (hraise tc hgreatest.1) (hnone tc)
  · rcases hup' with ⟨_, hgreatest'⟩ | ⟨rfl, _⟩
    · exact Int32.le_of_lt hgreatest'.1.higher
    · exact Int32.le_refl _

theorem exists_upgraded (h : classes.get name = some base) (hgroup : base.group ≠ 0)
    (htc : Greatest classes base level tc) : ∃ walk, upgraded walk classes name level = some tc := by
  obtain ⟨walk, before, horder⟩ := Map.Walk.exists_last htc.1.held
  refine ⟨walk, ?_⟩
  have hlist : eligible walk classes base level =
      ((before.map Sigma.snd).filter fun x =>
        x.group = base.group ∧ x.level ≤ level ∧ base.level < x.level) ++ [tc] := by
    have hself : decide (tc.group = base.group ∧ tc.level ≤ level ∧ base.level < tc.level) = true :=
      decide_eq_true ⟨htc.1.grouped, htc.1.reached, htc.1.higher⟩
    rw [eligible, horder, List.map_append, List.filter_append]
    congr 1
    exact List.filter_cons_of_pos hself
  have hlevels : ∀ x ∈ (before.map Sigma.snd).filter fun x =>
      x.group = base.group ∧ x.level ≤ level ∧ base.level < x.level,
      x.level.toInt ≤ tc.level.toInt := by
    intro x hx
    have hmem : x ∈ eligible walk classes base level := by
      rw [hlist]
      exact List.mem_append_left _ hx
    exact Int32.le_iff_toInt_le.mp (htc.2 x (mem_eligible.mp hmem))
  rw [upgraded_of_get h, if_neg hgroup, hlist, maxBy_append_singleton compareLevels_gt hlevels]
  rfl

/-- What an upgrade is to be. The classes are inserted in any order, and walked in any order. -/
structure WellDefined (classes : TreasureClasses) (name : Text) (level : Int32) : Prop where
  orderFree : ∀ rows, (rows.map key).Nodup → collect rows = classes → ∀ rows', rows'.Perm rows →
    ∀ walk walk', upgraded walk (collect rows') name level = upgraded walk' classes name level
  greatest : ∀ walk base, classes.get name = some base →
    ∃ tc, upgraded walk classes name level = some tc ∧ IsUpgrade classes base level tc
  idempotent : ∀ walk walk' tc, upgraded walk classes name level = some tc →
    upgraded walk' classes tc.name level = some tc
  monotone : ∀ walk walk' level' tc tc', level ≤ level' →
    upgraded walk classes name level = some tc → upgraded walk' classes name level' = some tc' →
      tc.level ≤ tc'.level

/-- No two classes share the greatest level that a class of their group may be upgraded to. -/
def NoTie (classes : TreasureClasses) (name : Text) (level : Int32) : Prop :=
  ∀ base, classes.get name = some base → base.group ≠ 0 →
    ∀ a b, Greatest classes base level a → Greatest classes base level b → a = b

theorem upgraded_congr (h : NoTie classes name level) (walk walk' : Map.Walk Text TreasureClass) :
    upgraded walk classes name level = upgraded walk' classes name level := by
  cases hget : classes.get name with
  | none => rw [upgraded_of_none hget, upgraded_of_none hget]
  | some base =>
    obtain ⟨a, ha, hupA⟩ : ∃ a, upgraded walk classes name level = some a ∧
        IsUpgrade classes base level a := upgraded_spec hget
    obtain ⟨b, hb, hupB⟩ : ∃ b, upgraded walk' classes name level = some b ∧
        IsUpgrade classes base level b := upgraded_spec hget
    rw [ha, hb]
    rcases hupA with ⟨hgroup, hgreatestA⟩ | ⟨rfl, hnoneA⟩
    · rcases hupB with ⟨_, hgreatestB⟩ | ⟨_, hzero | hnone⟩
      · rw [h base hget hgroup a b hgreatestA hgreatestB]
      · exact absurd hzero hgroup
      · exact absurd hgreatestA.1 (hnone a)
    · rcases hupB with ⟨hgroup, hgreatestB⟩ | ⟨rfl, _⟩
      · rcases hnoneA with hzero | hnone
        · exact absurd hzero hgroup
        · exact absurd hgreatestB.1 (hnone b)
      · rfl

/-- An upgrade is well defined just if the classes of the group have no tie for the greatest level. -/
theorem wellDefined_iff (classes : TreasureClasses) (name : Text) (level : Int32) :
    WellDefined classes name level ↔ NoTie classes name level := by
  constructor
  · intro h base hget hgroup a b ha hb
    obtain ⟨walkA, hwalkA⟩ := exists_upgraded hget hgroup ha
    obtain ⟨walkB, hwalkB⟩ := exists_upgraded hget hgroup hb
    obtain ⟨rows, hrows, hcollect⟩ := exists_rows walkA classes
    have heq := h.orderFree rows hrows hcollect rows (List.Perm.refl rows) walkA walkB
    rw [hcollect, hwalkA, hwalkB] at heq
    exact Option.some.inj heq
  · intro h
    refine ⟨?_, fun walk base hget => upgraded_spec hget, ?_, ?_⟩
    · intro rows hrows hcollect rows' hperm walk walk'
      rw [collect_perm hrows hperm, hcollect]
      exact upgraded_congr h walk walk'
    · intro walk walk' tc htc
      exact upgraded_idempotent htc
    · intro walk walk' level' tc tc' hlevel htc htc'
      exact upgraded_monotone hlevel htc htc'

/-- A class of group 7 that makes one pick of nothing. -/
def ofGroup (name : Text) (level : Int32) : TreasureClass where
  name := name
  group := 7
  level := level
  picks := 1
  noDrop := 0
  entries := []
  mods := ⟨0, 0, 0, 0⟩

/-- Two classes of level 5 above the first. -/
def tiedRows : List TreasureClass := [ofGroup ['A'] 0, ofGroup ['B'] 5, ofGroup ['C'] 5]

/-- The upgrade is to `B` in one order and to `C` in another. -/
theorem not_wellDefined_tied : ¬ WellDefined (collect tiedRows) ['A'] 5 := by
  have hrows : (tiedRows.map key).Nodup := by decide
  have hget : (collect tiedRows).get ['A'] = some (ofGroup ['A'] 0) :=
    (lookup_collect hrows _ _).mpr ⟨List.mem_cons_self, rfl⟩
  have hgreatest : ∀ tc ∈ tiedRows, tc.level = 5 →
      Greatest (collect tiedRows) (ofGroup ['A'] 0) 5 tc := by
    intro tc htc hlevel
    have hgroup : ∀ x ∈ tiedRows, x.group = 7 := by simp [tiedRows, ofGroup]
    refine ⟨⟨(lookup_collect hrows _ _).mpr ⟨htc, rfl⟩, hgroup tc htc, ?_, ?_⟩, ?_⟩
    · rw [hlevel]
      exact Int32.le_refl 5
    · rw [hlevel]
      decide
    · intro x hx
      rw [hlevel]
      exact hx.reached
  have hgroup : (ofGroup ['A'] 0).group ≠ 0 := by decide
  obtain ⟨walkB, hB⟩ := exists_upgraded hget hgroup
    (hgreatest (ofGroup ['B'] 5) (by simp [tiedRows]) rfl)
  obtain ⟨walkC, hC⟩ := exists_upgraded hget hgroup
    (hgreatest (ofGroup ['C'] 5) (by simp [tiedRows]) rfl)
  intro h
  have heq := h.orderFree tiedRows hrows rfl tiedRows (List.Perm.refl _) walkB walkC
  rw [hB, hC] at heq
  have hname : ['B'] = ['C'] := congrArg TreasureClass.name (Option.some.inj heq)
  exact absurd hname (by decide)

end TreasureClasses

end CommandCenter.Data
