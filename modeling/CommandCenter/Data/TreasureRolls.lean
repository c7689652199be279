import CommandCenter.Data.Treasure
import CommandCenter.Library.Weights

/-!
# Rolling treasure

What a dying monster drops, from `crates/d2-data/src/treasure.rs`. `pick` draws a number below the one
it is given, and has a state of its own. Sums of probabilities are of `u32`s, which wrap.

`NoDrop` shrinks with more players. The source computes what is left of it with floating point.
`NoDropShare` holds what the rolls rely on: that it does shrink.

* `rolls_fair`: what drops, and how often.
-/

namespace CommandCenter.Data

open Rust Library

/-- Most things one monster drops. -/
def MAX_DROPS : Nat := 6

def QualityMods.max (a b : QualityMods) : QualityMods where
  unique := Max.max a.unique b.unique
  set := Max.max a.set b.set
  rare := Max.max a.rare b.rare
  magic := Max.max a.magic b.magic

inductive Drop where
  | gold (mul : UInt32)
  | item (name : Text) (mods : QualityMods)

/-- What is left of `NoDrop` beside a sum of probabilities, for two players or more. -/
structure NoDropShare where
  share : (noDrop total players : UInt32) → UInt32
  share_le : ∀ noDrop total players, share noDrop total players ≤ noDrop

/-- `Iterator::find`, with a running probability from the entries before. -/
def findRunning (r : UInt32) : UInt32 → List Entry → Option Nat
  | _, [] => none
  | running, e :: entries =>
    if r < running + e.prob then some 0
    else (findRunning r (running + e.prob) entries).map (· + 1)

namespace TreasureClass

/-- The entries that a game may roll. -/
def allowed (class' : TreasureClass) (expansion : Bool) : List Entry :=
  class'.entries.filter fun e => expansion || !e.expansionOnly

/-- `NoDrop` for a game of some players. -/
def noDropIn (share : NoDropShare) (class' : TreasureClass) (players : UInt32) (expansion : Bool) :
    UInt32 :=
  let total := sumU32 ((class'.allowed expansion).map Entry.prob)
  if class'.noDrop = 0 ∨ players < 2 then class'.noDrop
  else share.share class'.noDrop total (min players 8)

end TreasureClass

/-- The drops so far, and the state of `pick`. -/
structure Rolled (σ : Type) where
  drops : List Drop
  seed : σ

section Roll

variable {σ : Type} (classes : TreasureClasses) (share : NoDropShare) (players : UInt32)
  (expansion withNoDrop : Bool) (pick : UInt32 → σ → UInt32 × σ)

def Entry.drop (e : Entry) (mods : QualityMods) : Drop :=
  if e.name.eqIgnoreAsciiCase "gld".toList then .gold e.mul else .item e.name mods

/-- The `NoDrop` in force. -/
def noDropOf (class' : TreasureClass) : UInt32 :=
  if withNoDrop then class'.noDropIn share players expansion else 0

/-- All that a pick of a class is drawn from. -/
def totalOf (class' : TreasureClass) : UInt32 :=
  sumU32 ((class'.allowed expansion).map Entry.prob) +
    noDropOf share players expansion withNoDrop class'

/-- The entry of a number that is drawn. -/
def entryAt (class' : TreasureClass) (r : UInt32) : Option Nat :=
  let noDrop := noDropOf share players expansion withNoDrop class'
  if r < noDrop then none else findRunning (r - noDrop) 0 (class'.allowed expansion)

/-- The entry of one pick. Where `Picks` is negative, each entry has its turns. -/
def choose (class' : TreasureClass) (taken : UInt32) (seed : σ) : Option Nat × σ :=
  if class'.picks < 0 then (findRunning taken 0 (class'.allowed expansion), seed)
  else
    let total := totalOf share players expansion withNoDrop class'
    if total = 0 then (none, seed)
    else
      let (r, seed) := pick total seed
      (entryAt share players expansion withNoDrop class' r, seed)

/-- An entry that names a class is resolved in its place. -/
def resolve (roll : TreasureClass → QualityMods → Rolled σ → Rolled σ) (mods : QualityMods)
    (entry : Entry) (s : Rolled σ) : Rolled σ :=
  match classes.get entry.name with
  | some sub => roll sub (mods.max sub.mods) s
  | none => { s with drops := s.drops ++ [entry.drop mods] }

def pickOnce (roll : TreasureClass → QualityMods → Rolled σ → Rolled σ) (class' : TreasureClass)
    (mods : QualityMods) (taken : Nat) (s : Rolled σ) : Rolled σ :=
  let (i, seed) := choose share players expansion withNoDrop pick class' (.ofNat taken) s.seed
  match i.bind ((class'.allowed expansion)[·]?) with
  | some entry => resolve classes roll mods entry { s with seed := seed }
  | none => { s with seed := seed }

/-- The picks that are left, until there are enough drops. -/
def picksFrom (roll : TreasureClass → QualityMods → Rolled σ → Rolled σ) (class' : TreasureClass)
    (mods : QualityMods) : (left taken : Nat) → Rolled σ → Rolled σ
  | 0, _, s => s
  | left + 1, taken, s =>
    if MAX_DROPS ≤ s.drops.length then s
    else
      picksFrom roll class' mods left (taken + 1)
        (pickOnce classes share players expansion withNoDrop pick roll class' mods taken s)

/-- `Picks` without its sign, and one pick where it is zero. -/
def TreasureClass.picksOf (class' : TreasureClass) : Nat := max class'.picks.toInt.natAbs 1

/-- One level for each of those below 64 that are left: `depth > 63` drops nothing. -/
def rollInto : (levels : Nat) → TreasureClass → QualityMods → Rolled σ → Rolled σ
  | 0, _, _, s => s
  | levels + 1, class', mods, s =>
    picksFrom classes share players expansion withNoDrop pick (rollInto levels) class' mods
      class'.picksOf 0 s

/-- `roll_for`, and `roll_found` without `NoDrop`. -/
def roll (class' : TreasureClass) (seed : σ) : List Drop :=
  (rollInto classes share players expansion withNoDrop pick 64 class' class'.mods ⟨[], seed⟩).drops

end Roll

/-! ## What drops -/

section Leaves

variable (classes : TreasureClasses) (expansion : Bool)

/-- The path from a class to an entry that names no class, through the classes after the first. -/
inductive Leaf : TreasureClass → List TreasureClass → Entry → Prop
  | entry {class' : TreasureClass} {e : Entry} (hmem : e ∈ class'.allowed expansion)
      (hleaf : classes.get e.name = none) : Leaf class' [] e
  | sub {class' sub : TreasureClass} {e leaf : Entry} {path : List TreasureClass}
      (hmem : e ∈ class'.allowed expansion) (hsub : classes.get e.name = some sub)
      (hpath : Leaf sub path leaf) : Leaf class' (sub :: path) leaf

/-- The best mods of the classes on a path. -/
def best (mods : QualityMods) (path : List TreasureClass) : QualityMods :=
  path.foldl (fun m sub => m.max sub.mods) mods

def DropsFrom (class' : TreasureClass) (mods : QualityMods) (d : Drop) : Prop :=
  ∃ path leaf, Leaf classes expansion class' path leaf ∧ d = leaf.drop (best mods path)

/-- The picks of a class whose entries have turns, until there are enough drops. -/
def takeAll {σ : Type} (roll : TreasureClass → QualityMods → Rolled σ → Rolled σ)
    (mods : QualityMods) : List Entry → Rolled σ → Rolled σ
  | [], s => s
  | entry :: entries, s =>
    if MAX_DROPS ≤ s.drops.length then s
    else takeAll roll mods entries (resolve classes roll mods entry s)

/-- The picks of a class that draws a number for each, until there are enough drops. -/
def drawAll {σ : Type} (pick : UInt32 → σ → UInt32 × σ)
    (roll : TreasureClass → QualityMods → Rolled σ → Rolled σ) (mods : QualityMods)
    (outcomes : List (Option Entry)) : Nat → Rolled σ → Rolled σ
  | 0, s => s
  | left + 1, s =>
    if MAX_DROPS ≤ s.drops.length then s
    else
      let (r, seed) := pick (.ofNat outcomes.length) s.seed
      drawAll pick roll mods outcomes left
        (match (outcomes[r.toNat]?).join with
        | some entry => resolve classes roll mods entry { s with seed := seed }
        | none => { s with seed := seed })

end Leaves

/-- The sum of a class's probabilities fits a `u32`, `NoDrop` among them. -/
def SumsFit (class' : TreasureClass) : Prop :=
  class'.noDrop.toNat + (class'.entries.map fun e => e.prob.toNat).sum < 2 ^ 32

section Run

variable {σ : Type} (classes : TreasureClasses) (share : NoDropShare) (players : UInt32)
  (expansion withNoDrop : Bool) (pick : UInt32 → σ → UInt32 × σ)
  (roll : TreasureClass → QualityMods → Rolled σ → Rolled σ) (class' : TreasureClass)
  (mods : QualityMods)

theorem pickOnce_cases (taken : Nat) (s : Rolled σ) :
    ∃ seed, pickOnce classes share players expansion withNoDrop pick roll class' mods taken s =
        { s with seed := seed } ∨
      ∃ entry ∈ class'.allowed expansion,
        pickOnce classes share players expansion withNoDrop pick roll class' mods taken s =
          resolve classes roll mods entry { s with seed := seed } := by
  unfold pickOnce
  obtain ⟨i, seed⟩ :=
    choose share players expansion withNoDrop pick class' (.ofNat taken) s.seed
  refine ⟨seed, ?_⟩
  dsimp only
  cases hentry : i.bind ((class'.allowed expansion)[·]?) with
  | none => exact Or.inl rfl
  | some entry =>
    obtain ⟨j, _, hj⟩ := Option.bind_eq_some_iff.mp hentry
    exact Or.inr ⟨entry, List.mem_of_getElem? hj, rfl⟩

/-- Never more than the limit. -/
theorem picksFrom_length
    (hroll : ∀ c m s, s.drops.length ≤ MAX_DROPS → (roll c m s).drops.length ≤ MAX_DROPS)
    (left taken : Nat) {s : Rolled σ} (hs : s.drops.length ≤ MAX_DROPS) :
    (picksFrom classes share players expansion withNoDrop pick roll class' mods left taken
      s).drops.length ≤ MAX_DROPS := by
  induction left generalizing taken s with
  | zero => exact hs
  | succ left ih =>
    rw [picksFrom]
    split
    · exact hs
    · rename_i hroom
      apply ih
      obtain ⟨seed, hnothing | ⟨entry, _, htaken⟩⟩ := pickOnce_cases classes share players
        expansion withNoDrop pick roll class' mods taken s
      · rw [hnothing]
        exact hs
      · rw [htaken, resolve]
        split
        · exact hroll _ _ _ hs
        · simp only [List.length_append, List.length_singleton]
          omega

theorem rollInto_length (levels : Nat) (class' : TreasureClass) (mods : QualityMods)
    {s : Rolled σ} (hs : s.drops.length ≤ MAX_DROPS) :
    (rollInto classes share players expansion withNoDrop pick levels class' mods
      s).drops.length ≤ MAX_DROPS := by
  induction levels generalizing class' mods s with
  | zero => exact hs
  | succ levels ih =>
    refine picksFrom_length _ _ _ _ _ _ _ _ _ (fun c m s hs => ?_) _ _ hs
    exact ih c m hs

theorem best_cons (sub : TreasureClass) (path : List TreasureClass) :
    best mods (sub :: path) = best (mods.max sub.mods) path := rfl

variable {classes expansion roll class' mods} in
/-- An entry of a class drops what the class drops. -/
theorem resolve_sound {entry : Entry} (hmem : entry ∈ class'.allowed expansion)
    (hroll : ∀ c m s d, d ∈ (roll c m s).drops → d ∈ s.drops ∨ DropsFrom classes expansion c m d)
    {s : Rolled σ} {d : Drop} (hd : d ∈ (resolve classes roll mods entry s).drops) :
    d ∈ s.drops ∨ DropsFrom classes expansion class' mods d := by
  rw [resolve] at hd
  split at hd
  · rename_i sub hsub
    rcases hroll _ _ _ d hd with hold | ⟨path, leaf, hpath, rfl⟩
    · exact Or.inl hold
    · exact Or.inr ⟨sub :: path, leaf, .sub hmem hsub hpath, by rw [best_cons]⟩
  · rename_i hleaf
    rcases List.mem_append.mp hd with hold | hnew
    · exact Or.inl hold
    · exact Or.inr ⟨[], entry, .entry hmem hleaf, List.mem_singleton.mp hnew⟩

theorem picksFrom_sound
    (hroll : ∀ c m s d, d ∈ (roll c m s).drops → d ∈ s.drops ∨ DropsFrom classes expansion c m d)
    (left taken : Nat) {s : Rolled σ} {d : Drop}
    (hd : d ∈ (picksFrom classes share players expansion withNoDrop pick roll class' mods left taken
      s).drops) : d ∈ s.drops ∨ DropsFrom classes expansion class' mods d := by
  induction left generalizing taken s with
  | zero => exact Or.inl hd
  | succ left ih =>
    rw [picksFrom] at hd
    split at hd
    · exact Or.inl hd
    · rcases ih _ hd with hold | hnew
      · obtain ⟨seed, hnothing | ⟨entry, hmem, htaken⟩⟩ := pickOnce_cases classes share players
          expansion withNoDrop pick roll class' mods taken s
        · rw [hnothing] at hold
          exact Or.inl hold
        · rw [htaken] at hold
          have hsound := resolve_sound hmem hroll hold
          exact hsound
      · exact Or.inr hnew

/-- Every drop comes from an entry that the class leads to. -/
theorem rollInto_sound (levels : Nat) (class' : TreasureClass) (mods : QualityMods) {s : Rolled σ}
    {d : Drop}
    (hd : d ∈ (rollInto classes share players expansion withNoDrop pick levels class' mods s).drops) :
    d ∈ s.drops ∨ DropsFrom classes expansion class' mods d := by
  induction levels generalizing class' mods s d with
  | zero => exact Or.inl hd
  | succ levels ih =>
    have hroll : ∀ c m s d, d ∈ (rollInto classes share players expansion withNoDrop pick levels c m
        s).drops → d ∈ s.drops ∨ DropsFrom classes expansion c m d := fun c m s d h => ih c m h
    exact picksFrom_sound _ _ _ _ _ _ _ _ _ hroll _ _ hd

end Run

/-! ## How often -/

section Shares

variable (share : NoDropShare) (players : UInt32) (expansion withNoDrop : Bool)
  {class' : TreasureClass}

/-- The weights of the entries that a game may roll. -/
def weights (class' : TreasureClass) (expansion : Bool) : List Nat :=
  (class'.allowed expansion).map fun e => e.prob.toNat

theorem sum_filter_le (p : Entry → Bool) (entries : List Entry) :
    ((entries.filter p).map fun e => e.prob.toNat).sum ≤
      (entries.map fun e => e.prob.toNat).sum := by
  induction entries with
  | nil => exact Nat.le_refl 0
  | cons e entries ih =>
    rw [List.filter_cons, List.map_cons, List.sum_cons]
    split
    · rw [List.map_cons, List.sum_cons]
      exact Nat.add_le_add_left ih _
    · exact ih.trans (Nat.le_add_left _ _)

theorem noDropOf_le (class' : TreasureClass) :
    noDropOf share players expansion withNoDrop class' ≤ class'.noDrop := by
  unfold noDropOf
  split
  · unfold TreasureClass.noDropIn
    dsimp only
    split
    · exact UInt32.le_refl _
    · exact share.share_le _ _ _
  · exact UInt32.zero_le

/-- A draw is from `NoDrop` and from the entries, with no overflow. -/
theorem toNat_totalOf (h : SumsFit class') :
    (totalOf share players expansion withNoDrop class').toNat =
        (noDropOf share players expansion withNoDrop class').toNat + (weights class' expansion).sum ∧
      (noDropOf share players expansion withNoDrop class').toNat + (weights class' expansion).sum <
        2 ^ 32 := by
  have hle : (weights class' expansion).sum ≤ (class'.entries.map fun e => e.prob.toNat).sum :=
    sum_filter_le _ _
  have hdrop := UInt32.le_iff_toNat_le.mp
    (noDropOf_le share players expansion withNoDrop class')
  have hmap : ((class'.allowed expansion).map Entry.prob).map UInt32.toNat =
      weights class' expansion := List.map_map
  unfold SumsFit at h
  have hsum : (sumU32 ((class'.allowed expansion).map Entry.prob)).toNat =
      (weights class' expansion).sum := by
    rw [toNat_sumU32 (by rw [hmap]; omega), hmap]
  constructor
  · rw [totalOf, UInt32.toNat_add, hsum, Nat.mod_eq_of_lt (by omega), Nat.add_comm]
  · omega

/-- The entry that the running probability passes a number at is the one whose turn it is. -/
theorem findRunning_eq (r : UInt32) (entries : List Entry) {running : UInt32}
    (hrunning : running ≤ r)
    (hfit : running.toNat + (entries.map fun e => e.prob.toNat).sum < 2 ^ 32) :
    findRunning r running entries =
      turn (entries.map fun e => e.prob.toNat) (r.toNat - running.toNat) := by
  induction entries generalizing running with
  | nil => rfl
  | cons e entries ih =>
    rw [List.map_cons, List.sum_cons] at hfit
    have hle := UInt32.le_iff_toNat_le.mp hrunning
    have hnext : (running + e.prob).toNat = running.toNat + e.prob.toNat := by
      rw [UInt32.toNat_add]
      exact Nat.mod_eq_of_lt (by omega)
    rw [findRunning, List.map_cons, turn]
    by_cases hlt : r < running + e.prob
    · have hturn := UInt32.lt_iff_toNat_lt.mp hlt
      rw [if_pos hlt, if_pos (by omega)]
    · have hturn := UInt32.le_iff_toNat_le.mp (UInt32.not_lt.mp hlt)
      have hrest : r.toNat - (running + e.prob).toNat =
          r.toNat - running.toNat - e.prob.toNat := by omega
      rw [if_neg hlt, if_neg (by omega), ih (UInt32.not_lt.mp hlt) (by omega), hrest]

theorem findRunning_zero (h : SumsFit class') (r : UInt32) :
    findRunning r 0 (class'.allowed expansion) = turn (weights class' expansion) r.toNat := by
  have hle : (weights class' expansion).sum ≤ (class'.entries.map fun e => e.prob.toNat).sum :=
    sum_filter_le _ _
  unfold SumsFit at h
  have hfit : (0 : UInt32).toNat +
      ((class'.allowed expansion).map fun e => e.prob.toNat).sum < 2 ^ 32 := by
    unfold weights at hle
    rw [UInt32.toNat_zero]
    omega
  rw [findRunning_eq r _ UInt32.zero_le hfit]
  rfl

/-- What a number below the total leads to. -/
theorem entryAt_eq (h : SumsFit class') {n : Nat}
    (hn : n < (totalOf share players expansion withNoDrop class').toNat) :
    entryAt share players expansion withNoDrop class' (.ofNat n) =
      if n < (noDropOf share players expansion withNoDrop class').toNat then none
      else turn (weights class' expansion)
        (n - (noDropOf share players expansion withNoDrop class').toNat) := by
  have hnat : (UInt32.ofNat n).toNat = n := by
    rw [UInt32.toNat_ofNat']
    exact Nat.mod_eq_of_lt (hn.trans (UInt32.toNat_lt _))
  unfold entryAt
  dsimp only
  by_cases hlt : n < (noDropOf share players expansion withNoDrop class').toNat
  · rw [if_pos hlt, if_pos (UInt32.lt_iff_toNat_lt.mpr (by omega))]
  · have hle : noDropOf share players expansion withNoDrop class' ≤ .ofNat n :=
      UInt32.le_iff_toNat_le.mpr (by omega)
    rw [if_neg hlt, if_neg (UInt32.not_lt.mpr hle), findRunning_zero expansion h,
      UInt32.toNat_sub_of_le _ _ hle, hnat]

theorem card_nothing (h : SumsFit class') :
    ((Finset.range (totalOf share players expansion withNoDrop class').toNat).filter fun n =>
      entryAt share players expansion withNoDrop class' (.ofNat n) = none).card =
      (noDropOf share players expansion withNoDrop class').toNat := by
  obtain ⟨htotal, _⟩ := toNat_totalOf share players expansion withNoDrop h
  have hfilter : ((Finset.range (totalOf share players expansion withNoDrop class').toNat).filter
      fun n => entryAt share players expansion withNoDrop class' (.ofNat n) = none) =
      Finset.range (noDropOf share players expansion withNoDrop class').toNat := by
    ext n
    rw [Finset.mem_filter, Finset.mem_range, Finset.mem_range]
    constructor
    · rintro ⟨hn, hnone⟩
      by_contra hge
      rw [entryAt_eq share players expansion withNoDrop h hn, if_neg hge, turn_eq_none_iff] at hnone
      omega
    · intro hn
      have htop : n < (totalOf share players expansion withNoDrop class').toNat := by omega
      refine ⟨htop, ?_⟩
      rw [entryAt_eq share players expansion withNoDrop h htop, if_pos hn]
  rw [hfilter, Finset.card_range]

theorem card_entry (h : SumsFit class') {i : Nat} (hi : i < (class'.allowed expansion).length) :
    ((Finset.range (totalOf share players expansion withNoDrop class').toNat).filter fun n =>
      entryAt share players expansion withNoDrop class' (.ofNat n) = some i).card =
      (class'.allowed expansion)[i].prob.toNat := by
  obtain ⟨htotal, _⟩ := toNat_totalOf share players expansion withNoDrop h
  have hlength : i < (weights class' expansion).length := by
    rw [weights, List.length_map]
    exact hi
  have hweight : (weights class' expansion)[i] = (class'.allowed expansion)[i].prob.toNat :=
    List.getElem_map _
  rw [← hweight, ← card_turn (Nat.le_refl _) hlength]
  -- The numbers are those of the turns, past `NoDrop`.
  refine (Finset.card_bij
    (fun n _ => n + (noDropOf share players expansion withNoDrop class').toNat) ?_ ?_ ?_).symm
  · intro n hn
    rw [Finset.mem_filter, Finset.mem_range] at hn ⊢
    have htop : n + (noDropOf share players expansion withNoDrop class').toNat <
        (totalOf share players expansion withNoDrop class').toNat := by omega
    refine ⟨htop, ?_⟩
    rw [entryAt_eq share players expansion withNoDrop h htop, if_neg (by omega),
      Nat.add_sub_cancel, hn.2]
  · intro m _ n _ heq
    exact Nat.add_right_cancel heq
  · intro n hn
    rw [Finset.mem_filter, Finset.mem_range] at hn
    obtain ⟨hn, hentry⟩ := hn
    rw [entryAt_eq share players expansion withNoDrop h hn] at hentry
    split at hentry
    · cases hentry
    · rename_i hge
      refine ⟨n - (noDropOf share players expansion withNoDrop class').toNat, ?_, by omega⟩
      rw [Finset.mem_filter, Finset.mem_range]
      exact ⟨by omega, hentry⟩

/-! ## Turns -/

/-- The entries of a class, each as many times as it has turns. -/
def turns (class' : TreasureClass) (expansion : Bool) : List Entry :=
  (class'.allowed expansion).flatMap fun e => List.replicate e.prob.toNat e

variable {σ : Type} (classes : TreasureClasses) (pick : UInt32 → σ → UInt32 × σ)
  (roll : TreasureClass → QualityMods → Rolled σ → Rolled σ) (mods : QualityMods)

theorem pickOnce_turn (h : SumsFit class') (hpicks : class'.picks < 0) {taken : Nat}
    (htaken : taken < 2 ^ 32) (s : Rolled σ) :
    pickOnce classes share players expansion withNoDrop pick roll class' mods taken s =
      match (turns class' expansion)[taken]? with
      | some entry => resolve classes roll mods entry s
      | none => s := by
  have hnat : (UInt32.ofNat taken).toNat = taken := by
    rw [UInt32.toNat_ofNat']
    exact Nat.mod_eq_of_lt htaken
  have hentry : (findRunning (.ofNat taken) 0 (class'.allowed expansion)).bind
      ((class'.allowed expansion)[·]?) = (turns class' expansion)[taken]? := by
    rw [findRunning_zero expansion h, hnat]
    exact turn_eq_getElem? _ _ _
  unfold pickOnce choose
  rw [if_pos hpicks]
  dsimp only
  rw [hentry]

theorem picksFrom_turns (h : SumsFit class') (hpicks : class'.picks < 0) {left taken : Nat}
    (hleft : taken + left ≤ 2 ^ 32) (s : Rolled σ) :
    picksFrom classes share players expansion withNoDrop pick roll class' mods left taken s =
      takeAll classes roll mods (((turns class' expansion).drop taken).take left) s := by
  induction left generalizing taken s with
  | zero => rfl
  | succ left ih =>
    rw [picksFrom, ih (by omega), pickOnce_turn share players expansion withNoDrop classes pick roll
      mods h hpicks (by omega)]
    cases hturn : (turns class' expansion)[taken]? with
    | none =>
      have hlength := List.getElem?_eq_none_iff.mp hturn
      rw [List.drop_eq_nil_of_le hlength, List.drop_eq_nil_of_le (by omega)]
      simp [takeAll]
    | some entry =>
      obtain ⟨hlt, rfl⟩ := List.getElem?_eq_some_iff.mp hturn
      rw [List.drop_eq_getElem_cons hlt, List.take_succ_cons, takeAll]

theorem picksOf_le (class' : TreasureClass) : class'.picksOf ≤ 2 ^ 31 := by
  have hlow := class'.picks.le_toInt
  have hhigh := class'.picks.toInt_lt
  unfold TreasureClass.picksOf
  omega

theorem rollInto_turns (h : SumsFit class') (hpicks : class'.picks < 0) (levels : Nat)
    (s : Rolled σ) :
    rollInto classes share players expansion withNoDrop pick (levels + 1) class' mods s =
      takeAll classes (rollInto classes share players expansion withNoDrop pick levels) mods
        ((turns class' expansion).take class'.picksOf) s := by
  have hle := picksOf_le class'
  rw [rollInto, picksFrom_turns share players expansion withNoDrop classes pick _ mods h hpicks
    (by omega), List.drop_zero]

/-! ## Draws -/

/-- What the numbers of a draw lead to: `NoDrop` of them to nothing, and as many to each entry as
its probability. -/
def outcomes (class' : TreasureClass) : List (Option Entry) :=
  List.replicate (noDropOf share players expansion withNoDrop class').toNat none ++
    (turns class' expansion).map some

theorem length_turns (class' : TreasureClass) :
    (turns class' expansion).length = (weights class' expansion).sum := by
  simp only [turns, weights, List.length_flatMap, List.length_replicate]

theorem length_outcomes (h : SumsFit class') :
    (outcomes share players expansion withNoDrop class').length =
      (totalOf share players expansion withNoDrop class').toNat := by
  rw [(toNat_totalOf share players expansion withNoDrop h).1, outcomes, List.length_append,
    List.length_replicate, List.length_map, length_turns]

theorem entryAt_outcomes (h : SumsFit class') (r : UInt32) :
    (entryAt share players expansion withNoDrop class' r).bind ((class'.allowed expansion)[·]?) =
      ((outcomes share players expansion withNoDrop class')[r.toNat]?).join := by
  unfold entryAt outcomes
  dsimp only
  by_cases hlt : r < noDropOf share players expansion withNoDrop class'
  · have hnat := UInt32.lt_iff_toNat_lt.mp hlt
    rw [if_pos hlt, List.getElem?_append_left (by rwa [List.length_replicate]),
      List.getElem?_replicate, if_pos hnat]
    rfl
  · have hle := UInt32.not_lt.mp hlt
    have hnat := UInt32.le_iff_toNat_le.mp hle
    have hturn := turn_eq_getElem? (fun e : Entry => e.prob.toNat) (class'.allowed expansion)
      (r.toNat - (noDropOf share players expansion withNoDrop class').toNat)
    rw [if_neg hlt, findRunning_zero expansion h, UInt32.toNat_sub_of_le _ _ hle,
      List.getElem?_append_right (by rwa [List.length_replicate]), List.length_replicate,
      List.getElem?_map, weights, hturn, turns]
    cases ((class'.allowed expansion).flatMap fun e => List.replicate e.prob.toNat e)[
      r.toNat - (noDropOf share players expansion withNoDrop class').toNat]? <;> rfl

theorem pickOnce_drawn (hpicks : 0 ≤ class'.picks)
    (htotal : totalOf share players expansion withNoDrop class' ≠ 0) (taken : Nat) (s : Rolled σ) :
    pickOnce classes share players expansion withNoDrop pick roll class' mods taken s =
      match (entryAt share players expansion withNoDrop class'
        (pick (totalOf share players expansion withNoDrop class') s.seed).1).bind
          ((class'.allowed expansion)[·]?) with
      | some entry => resolve classes roll mods entry
          { s with seed := (pick (totalOf share players expansion withNoDrop class') s.seed).2 }
      | none =>
        { s with seed := (pick (totalOf share players expansion withNoDrop class') s.seed).2 } := by
  unfold pickOnce choose
  rw [if_neg (Int32.not_lt.mpr hpicks)]
  dsimp only
  rw [if_neg htotal]

theorem picksFrom_draws (h : SumsFit class') (hpicks : 0 ≤ class'.picks)
    (htotal : totalOf share players expansion withNoDrop class' ≠ 0) (left taken : Nat)
    (s : Rolled σ) :
    picksFrom classes share players expansion withNoDrop pick roll class' mods left taken s =
      drawAll classes pick roll mods (outcomes share players expansion withNoDrop class') left
        s := by
  induction left generalizing taken s with
  | zero => rfl
  | succ left ih =>
    rw [picksFrom, drawAll, ih, pickOnce_drawn share players expansion withNoDrop classes pick roll
      mods hpicks htotal, entryAt_outcomes share players expansion withNoDrop h,
      length_outcomes share players expansion withNoDrop h, UInt32.ofNat_toNat]

theorem rollInto_draws (h : SumsFit class') (hpicks : 0 ≤ class'.picks)
    (htotal : totalOf share players expansion withNoDrop class' ≠ 0) (levels : Nat)
    (s : Rolled σ) :
    rollInto classes share players expansion withNoDrop pick (levels + 1) class' mods s =
      drawAll classes pick (rollInto classes share players expansion withNoDrop pick levels) mods
        (outcomes share players expansion withNoDrop class') class'.picksOf s := by
  rw [rollInto, picksFrom_draws share players expansion withNoDrop classes pick _ mods h hpicks
    htotal]

end Shares

/-- What is promised of the rolls of a class. -/
structure RollsFairly (classes : TreasureClasses) (share : NoDropShare) (players : UInt32)
    (expansion withNoDrop : Bool) (class' : TreasureClass) : Prop where
  /-- No more things drop than the limit. -/
  few : ∀ (σ : Type) (pick : UInt32 → σ → UInt32 × σ) (seed : σ),
    (roll classes share players expansion withNoDrop pick class' seed).length ≤ MAX_DROPS
  /-- A drop is a leaf that the class leads to, with the best mods of its path. -/
  leaves : ∀ (σ : Type) (pick : UInt32 → σ → UInt32 × σ) (seed : σ),
    ∀ d ∈ roll classes share players expansion withNoDrop pick class' seed,
      DropsFrom classes expansion class' class'.mods d
  /-- A pick is of the entry that the number leads to which is drawn from the total. -/
  drawn : 0 ≤ class'.picks → totalOf share players expansion withNoDrop class' ≠ 0 →
    ∀ (σ : Type) (pick : UInt32 → σ → UInt32 × σ) (roll : TreasureClass → QualityMods → Rolled σ →
      Rolled σ) (mods : QualityMods) (taken : Nat) (s : Rolled σ),
      let (r, seed) := pick (totalOf share players expansion withNoDrop class') s.seed
      pickOnce classes share players expansion withNoDrop pick roll class' mods taken s =
        match (entryAt share players expansion withNoDrop class' r).bind
          ((class'.allowed expansion)[·]?) with
        | some entry => resolve classes roll mods entry { s with seed := seed }
        | none => { s with seed := seed }
  /-- As many of the numbers as `NoDrop` lead to nothing. -/
  nothing : ((Finset.range (totalOf share players expansion withNoDrop class').toNat).filter
    fun n => entryAt share players expansion withNoDrop class' (.ofNat n) = none).card =
      (noDropOf share players expansion withNoDrop class').toNat
  /-- As many of them as its probability lead to an entry. -/
  entries : ∀ i (hi : i < (class'.allowed expansion).length),
    ((Finset.range (totalOf share players expansion withNoDrop class').toNat).filter
      fun n => entryAt share players expansion withNoDrop class' (.ofNat n) = some i).card =
        (class'.allowed expansion)[i].prob.toNat
  /-- The total is of these. -/
  total : (totalOf share players expansion withNoDrop class').toNat =
    (noDropOf share players expansion withNoDrop class').toNat +
      ((class'.allowed expansion).map fun e => e.prob.toNat).sum
  /-- With `Picks` that are not negative, as many numbers are drawn, each for its outcome. -/
  draws : 0 ≤ class'.picks → totalOf share players expansion withNoDrop class' ≠ 0 →
    ∀ (σ : Type) (pick : UInt32 → σ → UInt32 × σ) (levels : Nat) (mods : QualityMods)
      (s : Rolled σ),
      rollInto classes share players expansion withNoDrop pick (levels + 1) class' mods s =
        drawAll classes pick (rollInto classes share players expansion withNoDrop pick levels) mods
          (outcomes share players expansion withNoDrop class') class'.picksOf s
  /-- With negative `Picks`, every entry has as many picks in turn as its probability. -/
  turns : class'.picks < 0 → ∀ (σ : Type) (pick : UInt32 → σ → UInt32 × σ) (levels : Nat)
    (mods : QualityMods) (s : Rolled σ),
      rollInto classes share players expansion withNoDrop pick (levels + 1) class' mods s =
        takeAll classes (rollInto classes share players expansion withNoDrop pick levels) mods
          (((class'.allowed expansion).flatMap fun e => List.replicate e.prob.toNat e).take
            class'.picksOf) s
  /-- An entry leads to a roll of the class that it names, or drops. -/
  resolved : ∀ (σ : Type) (roll : TreasureClass → QualityMods → Rolled σ → Rolled σ)
    (mods : QualityMods) (entry : Entry) (s : Rolled σ), resolve classes roll mods entry s =
      match classes.get entry.name with
      | some sub => roll sub (mods.max sub.mods) s
      | none => { s with drops := s.drops ++ [entry.drop mods] }
  /-- The drops are those of the picks, with 64 levels to go. -/
  rolled : ∀ (σ : Type) (pick : UInt32 → σ → UInt32 × σ) (seed : σ),
    roll classes share players expansion withNoDrop pick class' seed =
      (rollInto classes share players expansion withNoDrop pick 64 class' class'.mods
        ⟨[], seed⟩).drops

theorem rolls_fair (classes : TreasureClasses) (share : NoDropShare) (players : UInt32)
    (expansion withNoDrop : Bool) (class' : TreasureClass) (h : SumsFit class') :
    RollsFairly classes share players expansion withNoDrop class' where
  few σ pick seed := rollInto_length _ _ _ _ _ _ _ _ _ (Nat.zero_le _)
  leaves σ pick seed d hd := by
    rcases rollInto_sound _ _ _ _ _ _ _ _ _ hd with hold | hnew
    · cases hold
    · exact hnew
  drawn hpicks htotal σ pick roll mods taken s :=
    pickOnce_drawn share players expansion withNoDrop classes pick roll mods hpicks htotal taken s
  nothing := card_nothing share players expansion withNoDrop h
  entries i hi := card_entry share players expansion withNoDrop h hi
  total := (toNat_totalOf share players expansion withNoDrop h).1
  draws hpicks htotal σ pick levels mods s :=
    rollInto_draws share players expansion withNoDrop classes pick mods h hpicks htotal levels s
  turns hpicks σ pick levels mods s :=
    rollInto_turns share players expansion withNoDrop classes pick mods h hpicks levels s
  resolved _ _ _ _ _ := rfl
  rolled _ _ _ := rfl

/-- With `f` the share of `NoDrop`, what is left of it is `total × fⁿ / (1 − fⁿ)`, truncated. -/
def NoDropShare.exact : NoDropShare where
  share noDrop total players :=
    let f := noDrop.toNat ^ players.toNat
    let all := (noDrop.toNat + total.toNat) ^ players.toNat
    min noDrop (.ofNat (total.toNat * f / (all - f)))
  share_le _ _ _ := UInt32.le_iff_toNat_le.mpr (by rw [UInt32.toNat_min]; exact Nat.min_le_left _ _)

/-- Gold or junk half of the time. -/
def mob : TreasureClass where
  name := "Mob".toList
  group := 0
  level := 0
  picks := 1
  noDrop := 100
  entries := [⟨"gld".toList, 0, 21, false⟩, ⟨"Junk".toList, 0, 21, false⟩]
  mods := ⟨0, 0, 0, 0⟩

/-- Junk is a potion, or the monster once more. -/
def junk : TreasureClass where
  name := "Junk".toList
  group := 0
  level := 0
  picks := -3
  noDrop := 0
  entries := [⟨"hp1".toList, 0, 2, false⟩, ⟨"Mob".toList, 0, 1, false⟩]
  mods := ⟨0, 0, 0, 8⟩

theorem rolls_fair_mob : SumsFit mob ∧ RollsFairly (.collect [mob, junk]) .exact 2 true true mob := by
  have hfit : SumsFit mob := by simp [SumsFit, mob]
  exact ⟨hfit, rolls_fair _ _ _ _ _ mob hfit⟩

end CommandCenter.Data
