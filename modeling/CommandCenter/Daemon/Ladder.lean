import Mathlib.Data.Prod.Lex
import Mathlib.Data.List.Lex
import Mathlib.Data.Char
import CommandCenter.Daemon.Lobby
import CommandCenter.Formats.D2s
import CommandCenter.Library.Ranking

/-!
# The Diablo II ladder

The ladder that a client pages through, from `crates/bnetccd/src/realm.rs`, and the one that is
pushed to the website, from `crates/bnetccd/src/ladder_push.rs`.

* `order_iff`: there is one way to list the characters of a ladder.
* `pages_entries`: the pages, one after the other, are the list.
* `place_iff`: a counter of the pushed ladder says which place a character has in the list.
-/

namespace CommandCenter.Daemon

open Rust Proto D2 Library
open Storage (Character)
open CommandCenter.Core (AccountId)

def maxRank : Nat := 500

/-- Which characters a ladder type lists: hardcore or softcore, classic or expansion, and one
class or all. -/
def ladderFilter (ladder : UInt8) : Option (Bool × Bool × Option UInt8) := do
  let (hardcore, expansion, base, classes) ←
    if ladder ≤ 0x05 then some (true, false, 0x00, 5)
    else if 0x09 ≤ ladder ∧ ladder ≤ 0x0E then some (false, false, 0x09, 5)
    else if 0x13 ≤ ladder ∧ ladder ≤ 0x1A then some (true, true, 0x13, 7)
    else if 0x1B ≤ ladder ∧ ladder ≤ 0x22 then some (false, true, 0x1B, 7)
    else none
  let offset := ladder - base
  if offset ≤ classes then
    some (hardcore, expansion, if offset = 0 then none else some (offset - 1))
  else none

/-- A character's experience, 0 without a save. -/
def experienceOf (character : Character) : UInt32 :=
  match character.save.map Formats.D2s.Save.parse with
  | some (.ok save) => save.stat 13
  | some (.error _) | none => 0

abbrev Ranked := Character × UInt32

/-- Most experienced first, then by level, then by name. -/
def ladderKey (c : Ranked) : ℕᵒᵈ ×ₗ ℕᵒᵈ ×ₗ Text :=
  toLex (.toDual c.2.toNat, toLex (.toDual c.1.level.toNat, c.1.name))

/-! ## Pages -/

/-- Hardcore or not, and expansion or classic. -/
abbrev Kind := Bool × Bool

def kindOf (c : Character) : Kind :=
  (hasBit c.status Status.hardcore, hasBit c.status Status.expansion)

/-- Whether a ladder of this kind and class lists the character. -/
def onLadder (hardcore expansion : Bool) (heroClass : Option UInt8) (c : Character) : Bool :=
  hasBit c.status Status.ladder && kindOf c == (hardcore, expansion) &&
    heroClass.all fun k => c.heroClass == k

def ranked (c : Character) : Ranked := (c, experienceOf c)

/-- The characters that a ladder lists, in no order. -/
def candidates (characters : List Character) (ladder : UInt8) : List Ranked :=
  match ladderFilter ladder with
  | some (hardcore, expansion, heroClass) =>
    (characters.filter (onLadder hardcore expansion heroClass)).map ranked
  | none => []

/-- The ladder down to its last rank. -/
def listed (characters : List Character) (ladder : UInt8) : List Ranked :=
  (rankBy ladderKey (candidates characters ladder)).take maxRank

/-- `char[16]`, with a NUL at the end. -/
def nameField (name : Text) : List UInt8 :=
  let bytes := name.asBytes.take 15
  bytes ++ List.replicate (16 - bytes.length) 0

def ladderEntry (asker : AccountId) (c : Ranked) : List UInt8 :=
  let flags := c.1.heroClass &&& 7
  let flags := if c.1.account = asker then flags ||| 0x08 else flags
  let flags := if hasBit c.1.status Status.hardcore then
    let flags := flags ||| 0x20
    if hasBit c.1.status Status.dead then flags ||| 0x10 else flags
  else flags
  let flags := if hasBit c.1.status Status.expansion then flags ||| 0x40 else flags
  Writer.u32 c.2 ++ Writer.u32 0 ++ [flags, c.1.progression] ++ Writer.u16 c.1.level.toUInt16 ++
    nameField c.1.name

def ladderPage (characters : List Character) (ladder : UInt8) (start : UInt16) : List Ranked :=
  ((listed characters ladder).drop start.toNat).take 16

def ladderPayload (characters : List Character) (ladder : UInt8) (start : UInt16)
    (asker : AccountId) : List UInt8 :=
  let page := ladderPage characters ladder start
  Writer.u32 start.toUInt32 ++ Writer.u32 (.ofNat page.length) ++ Writer.u32 16 ++
    page.flatMap (ladderEntry asker)

/-- The `MCP_REQUESTLADDERDATA` reply. -/
def ladderReply (characters : List Character) (ladder : UInt8) (start : UInt16)
    (asker : AccountId) : List UInt8 :=
  let payload := ladderPayload characters ladder start asker
  let size := Writer.u16 (.ofNat payload.length)
  [ladder] ++ size ++ size ++ Writer.u16 0 ++ payload

/-! ## The pushed ladder -/

def d2Classes : List Text :=
  ["Amazon", "Sorceress", "Necromancer", "Paladin", "Barbarian", "Druid", "Assassin"].map
    String.toList

/-- A ladder character of the snapshot. -/
structure Standing where
  rank : Option UInt32
  classRank : Option UInt32
  name : Text
  /-- `class` in the source. -/
  heroClass : Text
  level : UInt8
  experience : UInt32
  hardcore : Bool
  dead : Bool
  expansion : Bool
  deriving DecidableEq

/-- `entry(key).or_insert(0)`, counted up. -/
def countUp {K : Type} [DecidableEq K] (m : Map K UInt32) (key : K) : UInt32 × Map K UInt32 :=
  let n := (m.lookup key).getD 0 + 1
  (n, m.insert key n)

def within (rank : UInt32) : Option UInt32 := if rank.toNat ≤ maxRank then some rank else none

def standing (rank classRank : UInt32) (c : Ranked) : Standing where
  rank := within rank
  classRank := within classRank
  name := c.1.name
  heroClass := (d2Classes[c.1.heroClass.toNat]?).getD "Unknown".toList
  level := c.1.level
  experience := c.2
  hardcore := (kindOf c.1).1
  dead := (kindOf c.1).1 && hasBit c.1.status Status.dead
  expansion := (kindOf c.1).2

/-- The standings of the rest of the ladder, from the counters by kind and by class. -/
def rankFrom (overall : Map Kind UInt32) (byClass : Map (Kind × UInt8) UInt32) :
    List Ranked → List Standing
  | [] => []
  | c :: rest =>
    let (rank, overall) := countUp overall (kindOf c.1)
    let (classRank, byClass) := countUp byClass (kindOf c.1, c.1.heroClass)
    let others := rankFrom overall byClass rest
    if rank.toNat ≤ maxRank ∨ classRank.toNat ≤ maxRank then
      standing rank classRank c :: others
    else others

def ladderOrder (all : List Character) : List Ranked :=
  rankBy ladderKey ((all.filter fun c => hasBit c.status Status.ladder).map ranked)

def d2Characters (all : List Character) : List Standing := rankFrom ∅ ∅ (ladderOrder all)

/-! ## One order -/

/-- `a` is above `b`. -/
def Above (a b : Ranked) : Prop :=
  b.2 < a.2 ∨ b.2 = a.2 ∧ (b.1.level < a.1.level ∨ b.1.level = a.1.level ∧ a.1.name < b.1.name)

theorem ladderKey_lt {a b : Ranked} : ladderKey a < ladderKey b ↔ Above a b := by
  simp only [ladderKey, Prod.Lex.toLex_lt_toLex, OrderDual.toDual_lt_toDual, Above,
    EmbeddingLike.apply_eq_iff_eq, UInt32.toNat_inj, UInt8.toNat_inj, UInt32.lt_iff_toNat_lt,
    UInt8.lt_iff_toNat_lt, eq_comm]

/-- Different names make different keys. -/
theorem nodup_ladderKey {all : List Character} (hnames : (all.map Character.name).Nodup)
    (p : Character → Bool) : (((all.filter p).map ranked).map ladderKey).Nodup := by
  apply List.Nodup.of_map fun key => (ofLex (ofLex key).2).2
  rw [List.map_map, List.map_map]
  exact hnames.sublist (List.filter_sublist.map _)

theorem nodup_candidates {all : List Character} (hnames : (all.map Character.name).Nodup)
    (ladder : UInt8) : ((candidates all ladder).map ladderKey).Nodup := by
  unfold candidates
  split
  · exact nodup_ladderKey hnames _
  · exact List.nodup_nil

theorem candidates_perm {all all' : List Character} (h : all'.Perm all) (ladder : UInt8) :
    (candidates all' ladder).Perm (candidates all ladder) := by
  unfold candidates
  split
  · exact (h.filter _).map _
  · exact List.Perm.refl _

theorem listed_perm {all all' : List Character} (hnames : (all.map Character.name).Nodup)
    (h : all'.Perm all) (ladder : UInt8) : listed all' ladder = listed all ladder := by
  rw [listed, rankBy_congr (nodup_candidates hnames ladder) (candidates_perm h ladder), listed]

/-- There is one way to list the candidates from the top down. -/
theorem order_iff {all : List Character} (hnames : (all.map Character.name).Nodup)
    {ladder : UInt8} {order : List Ranked} :
    order.Perm (candidates all ladder) ∧ order.Pairwise Above ↔
      order = rankBy ladderKey (candidates all ladder) := by
  have horder : order.Pairwise Above ↔ order.Pairwise fun a b => ladderKey a < ladderKey b := by
    simp only [ladderKey_lt]
  rw [horder]
  exact eq_rankBy_iff (nodup_candidates hnames ladder)

/-! ## The bytes of a reply -/

theorem length_nameField (name : Text) : (nameField name).length = 16 := by
  rw [nameField, List.length_append, List.length_replicate, List.length_take]
  omega

theorem length_ladderEntry (asker : AccountId) (c : Ranked) :
    (ladderEntry asker c).length = 28 := by
  simp [ladderEntry, length_nameField]

theorem length_ladderPayload (characters : List Character) (ladder : UInt8) (start : UInt16)
    (asker : AccountId) : (ladderPayload characters ladder start asker).length =
      12 + 28 * (ladderPage characters ladder start).length := by
  have hentries : ((ladderPage characters ladder start).flatMap (ladderEntry asker)).length =
      28 * (ladderPage characters ladder start).length := by
    rw [List.length_flatMap, List.map_congr_left (fun c _ => length_ladderEntry asker c)]
    simp [Nat.mul_comm]
  simp only [ladderPayload, List.length_append, Writer.length_u32, hentries]

def entries (reply : List UInt8) : List UInt8 := reply.drop 19

theorem entries_ladderReply (characters : List Character) (ladder : UInt8) (start : UInt16)
    (asker : AccountId) : entries (ladderReply characters ladder start asker) =
      (ladderPage characters ladder start).flatMap (ladderEntry asker) := rfl

/-- The pages below 512, one after the other. -/
theorem pages_entries (characters : List Character) (ladder : UInt8) (asker : AccountId) :
    (List.range 32).flatMap (fun page =>
        entries (ladderReply characters ladder (.ofNat (16 * page)) asker)) =
      (listed characters ladder).flatMap (ladderEntry asker) := by
  have hpage {page : Nat} (h : page ∈ List.range 32) :
      entries (ladderReply characters ladder (.ofNat (16 * page)) asker) =
        (((listed characters ladder).drop (16 * page)).take 16).flatMap (ladderEntry asker) := by
    have hlt := List.mem_range.mp h
    rw [entries_ladderReply, ladderPage, UInt16.toNat_ofNat', Nat.mod_eq_of_lt (by omega)]
  rw [List.flatMap_congr fun page => hpage, ← List.flatMap_assoc, flatMap_pages,
    List.take_of_length_le]
  rw [listed, List.length_take]
  exact le_trans (min_le_left _ _) (by decide)

/-! ## The counters -/

section Counters

variable {K : Type} [DecidableEq K]

/-- What the counter of `key` says after `before` others and the next. -/
def rankAfter (m : Map K UInt32) (f : Ranked → K) (key : K) (before : List Ranked) : UInt32 :=
  (m.lookup key).getD 0 + .ofNat (before.countP fun c => f c = key) + 1

theorem countUp_fst (m : Map K UInt32) (f : Ranked → K) (c : Ranked) :
    (countUp m (f c)).1 = rankAfter m f (f c) [] := by
  simp [countUp, rankAfter]

theorem rankAfter_countUp (m : Map K UInt32) (f : Ranked → K) (c : Ranked) (key : K)
    (before : List Ranked) :
    rankAfter (countUp m (f c)).2 f key before = rankAfter m f key (c :: before) := by
  by_cases h : f c = key
  · subst h
    simp only [rankAfter, countUp, Finmap.lookup_insert, Option.getD_some, List.countP_cons_of_pos,
      decide_true, UInt32.ofNat_add]
    ac_rfl
  · simp only [rankAfter, countUp, Finmap.lookup_insert_of_ne _ (Ne.symm h)]
    rw [List.countP_cons_of_neg (by simpa using h)]

end Counters

/-- **What is pushed**: each character with the ranks that the counters give it, if one of them
is listed. -/
theorem mem_rankFrom {overall : Map Kind UInt32} {byClass : Map (Kind × UInt8) UInt32}
    {l : List Ranked} {s : Standing} : s ∈ rankFrom overall byClass l ↔
      ∃ before c after, l = before ++ c :: after ∧
        let rank := rankAfter overall (fun c => kindOf c.1) (kindOf c.1) before
        let classRank := rankAfter byClass (fun c => (kindOf c.1, c.1.heroClass))
          (kindOf c.1, c.1.heroClass) before
        (rank.toNat ≤ maxRank ∨ classRank.toNat ≤ maxRank) ∧ s = standing rank classRank c := by
  induction l generalizing overall byClass with
  | nil => simp [rankFrom]
  | cons c rest ih =>
    have hcons : s ∈ rankFrom overall byClass (c :: rest) ↔
        (((countUp overall (kindOf c.1)).1.toNat ≤ maxRank ∨
            (countUp byClass (kindOf c.1, c.1.heroClass)).1.toNat ≤ maxRank) ∧
          s = standing (countUp overall (kindOf c.1)).1
            (countUp byClass (kindOf c.1, c.1.heroClass)).1 c) ∨
          s ∈ rankFrom (countUp overall (kindOf c.1)).2
            (countUp byClass (kindOf c.1, c.1.heroClass)).2 rest := by
      rw [rankFrom]
      dsimp only
      split <;> simp [*]
    have hrank := rankAfter_countUp overall (fun c => kindOf c.1) c
    have hclassRank := rankAfter_countUp byClass (fun c => (kindOf c.1, c.1.heroClass)) c
    rw [hcons, ih]
    constructor
    · rintro (h | ⟨before, c', after, rfl, h⟩)
      · refine ⟨[], c, rest, rfl, ?_⟩
        rw [← countUp_fst overall (fun c => kindOf c.1),
          ← countUp_fst byClass (fun c => (kindOf c.1, c.1.heroClass))]
        exact h
      · refine ⟨c :: before, c', after, rfl, ?_⟩
        rw [← hrank, ← hclassRank]
        exact h
    · rintro ⟨before, c', after, heq, h⟩
      cases before with
      | nil =>
        obtain ⟨rfl, rfl⟩ := List.cons.inj heq
        left
        rw [← countUp_fst overall (fun c => kindOf c.1),
          ← countUp_fst byClass (fun c => (kindOf c.1, c.1.heroClass))] at h
        exact h
      | cons first before =>
        obtain ⟨rfl, rfl⟩ := List.cons.inj heq
        right
        refine ⟨before, c', after, rfl, ?_⟩
        rw [hrank, hclassRank]
        exact h

/-! ## Places -/

def overallLadder : Kind → UInt8
  | (true, false) => 0x00
  | (false, false) => 0x09
  | (true, true) => 0x13
  | (false, true) => 0x1B

/-- The classes that the ladders of a kind have. -/
def ladderClasses (kind : Kind) : UInt8 := if kind.2 then 7 else 5

def classLadder (kind : Kind) (heroClass : UInt8) : UInt8 := overallLadder kind + 1 + heroClass

theorem ladderFilter_overall (kind : Kind) :
    ladderFilter (overallLadder kind) = some (kind.1, kind.2, none) := by
  obtain ⟨hardcore, expansion⟩ := kind
  cases hardcore <;> cases expansion <;> rfl

theorem ladderFilter_class {kind : Kind} {heroClass : UInt8}
    (h : heroClass < ladderClasses kind) :
    ladderFilter (classLadder kind heroClass) = some (kind.1, kind.2, some heroClass) := by
  have hall : ∀ hardcore expansion, ∀ n < (ladderClasses (hardcore, expansion)).toNat,
      ladderFilter (classLadder (hardcore, expansion) (.ofNat n)) =
        some (hardcore, expansion, some (.ofNat n)) := by decide
  have hclass := hall kind.1 kind.2 heroClass.toNat (UInt8.lt_iff_toNat_lt.mp h)
  rw [UInt8.ofNat_toNat] at hclass
  exact hclass

/-- `c` has the place `r`, counted from 1. -/
def Place (l : List Ranked) (r : UInt32) (c : Character) : Prop :=
  0 < r.toNat ∧ (l[r.toNat - 1]?).map Prod.fst = some c

theorem mem_ladderOrder {all : List Character} {x : Ranked} (h : x ∈ ladderOrder all) :
    x.1 ∈ all ∧ x = ranked x.1 := by
  obtain ⟨c, hc, rfl⟩ := List.mem_map.mp ((rankBy_perm _ _).subset h)
  exact ⟨(List.mem_filter.mp hc).1, rfl⟩

section Places

variable {all : List Character}

theorem listed_eq (hnames : (all.map Character.name).Nodup) {ladder : UInt8} {kind : Kind}
    {heroClass : Option UInt8} (hladder : ladderFilter ladder = some (kind.1, kind.2, heroClass)) :
    listed all ladder = ((ladderOrder all).filter fun c =>
      kindOf c.1 == kind && heroClass.all fun k => c.1.heroClass == k).take maxRank := by
  rw [listed, ladderOrder, filter_rankBy (nodup_ladderKey hnames _), candidates, hladder,
    List.filter_map, List.filter_filter]
  have hfilter : all.filter (onLadder kind.1 kind.2 heroClass) = all.filter fun c =>
      ((fun c : Ranked => kindOf c.1 == kind && heroClass.all fun k => c.1.heroClass == k) ∘
        ranked) c && hasBit c.status Status.ladder := by
    apply List.filter_congr
    intro c _
    simp [onLadder, ranked, Bool.and_comm, Bool.and_left_comm]
  dsimp only
  rw [hfilter]

/-- A counter says which place a character has among those that it counts. -/
theorem place_iff {K : Type} [DecidableEq K] (f : Ranked → K) {c : Character} {r : UInt32}
    (hfew : ((ladderOrder all).countP fun x => f x = f (ranked c)) < 2 ^ 32) :
    (∃ before x after, ladderOrder all = before ++ x :: after ∧ x.1 = c ∧
        within (rankAfter ∅ f (f x) before) = some r) ↔
      Place (((ladderOrder all).filter fun x => f x = f (ranked c)).take maxRank) r c := by
  have hranked {before after : List Ranked} {x : Ranked}
      (hl : ladderOrder all = before ++ x :: after) (hx : x.1 = c) : x = ranked c := by
    rw [← hx]
    exact (mem_ladderOrder (hl ▸ List.mem_append_right _ List.mem_cons_self)).2
  have hcount {before after : List Ranked} {x : Ranked}
      (hl : ladderOrder all = before ++ x :: after) (hx : x.1 = c) :
      (rankAfter ∅ f (f x) before).toNat = (before.countP fun y => f y = f (ranked c)) + 1 := by
    obtain rfl := hranked hl hx
    have hlt : (before.countP fun y => f y = f (ranked c)) + 1 < 2 ^ 32 := by
      rw [hl, List.countP_append, List.countP_cons_of_pos (by simp)] at hfew
      omega
    rw [rankAfter, Finmap.lookup_empty, Option.getD_none, UInt32.zero_add, toNat_succ,
      UInt32.toNat_ofNat', Nat.mod_eq_of_lt (by omega)]
    rw [UInt32.toNat_ofNat', Nat.mod_eq_of_lt (by omega)]
    exact hlt
  constructor
  · rintro ⟨before, x, after, hl, hx, hwithin⟩
    have hrank := hcount hl hx
    unfold within at hwithin
    split at hwithin
    · rename_i hle
      obtain rfl := Option.some.inj hwithin
      obtain rfl := hranked hl hx
      refine ⟨by omega, ?_⟩
      have hplace : ((ladderOrder all).filter fun y => f y = f (ranked c))[
          before.countP fun y => f y = f (ranked c)]? = some (ranked c) :=
        getElem?_filter.mpr ⟨before, after, hl, by simp, rfl⟩
      rw [hrank, Nat.add_sub_cancel, List.getElem?_take_of_lt (by omega), hplace]
      rfl
    · cases hwithin
  · rintro ⟨hpos, hplace⟩
    obtain ⟨x, hx, hxc⟩ := Option.map_eq_some_iff.mp hplace
    have hle : r.toNat - 1 < maxRank := by
      have hlen := (List.getElem?_eq_some_iff.mp hx).1
      rw [List.length_take] at hlen
      omega
    rw [List.getElem?_take_of_lt hle] at hx
    obtain ⟨before, after, hl, _, hbefore⟩ := getElem?_filter.mp hx
    refine ⟨before, x, after, hl, hxc, ?_⟩
    have hrank := hcount hl hxc
    have heq : rankAfter ∅ f (f x) before = r := by
      apply UInt32.toNat_inj.mp
      omega
    rw [heq, within, if_pos (by omega)]

theorem countP_ladderOrder_lt {kind : Kind}
    (hfew : all.countP (fun c => hasBit c.status Status.ladder && kindOf c == kind) < 2 ^ 32)
    {p : Ranked → Bool} (hp : ∀ x, p x = true → kindOf x.1 = kind) :
    (ladderOrder all).countP p < 2 ^ 32 := by
  refine Nat.lt_of_le_of_lt ?_ hfew
  rw [ladderOrder, (rankBy_perm ladderKey _).countP_eq, List.countP_map, List.countP_filter]
  refine List.countP_mono_left fun c _ h => ?_
  obtain ⟨hpc, hladder⟩ := Bool.and_eq_true_iff.mp h
  rw [hladder, Bool.true_and, beq_iff_eq]
  exact hp _ hpc

theorem pushed_iff (hnames : (all.map Character.name).Nodup) {c : Character} (hc : c ∈ all)
    {α : Type} (field : Standing → α) (value : α) :
    (∃ s ∈ d2Characters all, s.name = c.name ∧ field s = value) ↔
      ∃ before x after, ladderOrder all = before ++ x :: after ∧ x.1 = c ∧
        let rank := rankAfter ∅ (fun c => kindOf c.1) (kindOf x.1) before
        let classRank := rankAfter ∅ (fun c => (kindOf c.1, c.1.heroClass))
          (kindOf x.1, x.1.heroClass) before
        (rank.toNat ≤ maxRank ∨ classRank.toNat ≤ maxRank) ∧
          field (standing rank classRank x) = value := by
  constructor
  · rintro ⟨s, hs, hname, hfield⟩
    obtain ⟨before, x, after, hl, hle, rfl⟩ := mem_rankFrom.mp hs
    have hx : x.1 ∈ all :=
      (mem_ladderOrder (hl ▸ List.mem_append_right _ List.mem_cons_self)).1
    exact ⟨before, x, after, hl, List.inj_on_of_nodup_map hnames hx hc hname, hle, hfield⟩
  · rintro ⟨before, x, after, hl, rfl, hle, hfield⟩
    exact ⟨_, mem_rankFrom.mpr ⟨before, x, after, hl, hle, rfl⟩, rfl, hfield⟩

theorem le_of_within {rank r : UInt32} (h : within rank = some r) : rank.toNat ≤ maxRank := by
  unfold within at h
  split at h
  · assumption
  · cases h

theorem rank_agrees (hnames : (all.map Character.name).Nodup) {c : Character} (hc : c ∈ all)
    (hfew : all.countP (fun d => hasBit d.status Status.ladder && kindOf d == kindOf c) < 2 ^ 32)
    (r : UInt32) : (∃ s ∈ d2Characters all, s.name = c.name ∧ s.rank = some r) ↔
      Place (listed all (overallLadder (kindOf c))) r c := by
  have hplace := place_iff (fun x => kindOf x.1) (c := c) (r := r)
    (countP_ladderOrder_lt hfew fun x hx => of_decide_eq_true hx)
  rw [pushed_iff hnames hc, listed_eq hnames (ladderFilter_overall _)]
  simp only [Option.all_none, Bool.and_true, beq_eq_decide]
  refine Iff.trans ?_ hplace
  constructor
  · rintro ⟨before, x, after, hl, hx, _, hrank⟩
    exact ⟨before, x, after, hl, hx, hrank⟩
  · rintro ⟨before, x, after, hl, hx, hrank⟩
    exact ⟨before, x, after, hl, hx, Or.inl (le_of_within hrank), hrank⟩

theorem classRank_agrees (hnames : (all.map Character.name).Nodup) {c : Character} (hc : c ∈ all)
    (hfew : all.countP (fun d => hasBit d.status Status.ladder && kindOf d == kindOf c) < 2 ^ 32)
    (hclass : c.heroClass < ladderClasses (kindOf c)) (r : UInt32) :
    (∃ s ∈ d2Characters all, s.name = c.name ∧ s.classRank = some r) ↔
      Place (listed all (classLadder (kindOf c) c.heroClass)) r c := by
  have hplace := place_iff (fun x => (kindOf x.1, x.1.heroClass)) (c := c) (r := r)
    (countP_ladderOrder_lt hfew fun x hx => (Prod.mk.inj (of_decide_eq_true hx)).1)
  have hfilter : ((ladderOrder all).filter fun x => kindOf x.1 == kindOf c &&
        (some c.heroClass).all fun k => x.1.heroClass == k) =
      (ladderOrder all).filter fun x =>
        (kindOf x.1, x.1.heroClass) = (kindOf (ranked c).1, (ranked c).1.heroClass) := by
    apply List.filter_congr
    intro x _
    rw [Bool.eq_iff_iff]
    simp [ranked]
  rw [pushed_iff hnames hc, listed_eq hnames (ladderFilter_class hclass), hfilter]
  refine Iff.trans ?_ hplace
  constructor
  · rintro ⟨before, x, after, hl, hx, _, hrank⟩
    exact ⟨before, x, after, hl, hx, hrank⟩
  · rintro ⟨before, x, after, hl, hx, hrank⟩
    exact ⟨before, x, after, hl, hx, Or.inr (le_of_within hrank), hrank⟩

/-- **The pages and the pushed ladder** are of one order. -/
theorem ladder_agrees {all : List Character} (hnames : (all.map Character.name).Nodup) :
    (∀ ladder asker, ∃ order : List Ranked,
      (∀ order' : List Ranked,
        order'.Perm (candidates all ladder) ∧ order'.Pairwise Above ↔ order' = order) ∧
      (List.range 32).flatMap (fun page =>
          entries (ladderReply all ladder (.ofNat (16 * page)) asker)) =
        (order.take maxRank).flatMap (ladderEntry asker)) ∧
    (∀ all', all'.Perm all → ∀ ladder start asker,
      ladderReply all' ladder start asker = ladderReply all ladder start asker) ∧
    (∀ ladder start asker, ∃ payload : List UInt8, payload.length < 2 ^ 16 ∧
      ladderReply all ladder start asker = [ladder] ++ Writer.u16 (.ofNat payload.length) ++
        Writer.u16 (.ofNat payload.length) ++ Writer.u16 0 ++ payload) ∧
    ((∀ kind, all.countP (fun c => hasBit c.status Status.ladder && kindOf c == kind) < 2 ^ 32) →
      ∀ c ∈ all, ∀ r : UInt32,
        ((∃ s ∈ d2Characters all, s.name = c.name ∧ s.rank = some r) ↔
          Place (listed all (overallLadder (kindOf c))) r c) ∧
        (c.heroClass < ladderClasses (kindOf c) →
          ((∃ s ∈ d2Characters all, s.name = c.name ∧ s.classRank = some r) ↔
            Place (listed all (classLadder (kindOf c) c.heroClass)) r c))) := by
  refine ⟨fun ladder asker => ⟨_, fun order' => order_iff hnames, pages_entries all ladder asker⟩,
    fun all' hperm ladder start asker => ?_,
    fun ladder start asker => ⟨ladderPayload all ladder start asker, ?_, rfl⟩,
    fun hfew c hc r => ⟨rank_agrees hnames hc (hfew _) r, fun hclass =>
      classRank_agrees hnames hc (hfew _) hclass r⟩⟩
  · unfold ladderReply ladderPayload ladderPage
    rw [listed_perm hnames hperm]
  · have hpage : (ladderPage all ladder start).length ≤ 16 := List.length_take_le _ _
    rw [length_ladderPayload]
    omega

end Places

/-! ## More than the counters hold -/

def crowd (n : Nat) : List Character :=
  (List.range n).map fun i => ⟨0, List.replicate i 'a', 0, Status.ladder, 1, 0, 0, 0, none⟩

theorem nodup_crowd (n : Nat) : ((crowd n).map Character.name).Nodup := by
  rw [crowd, List.map_map]
  refine List.Nodup.map (fun i j h => ?_) List.nodup_range
  simpa using congrArg List.length h

theorem crowd_kind {n : Nat} {c : Character} (h : c ∈ crowd n) :
    hasBit c.status Status.ladder = true ∧ kindOf c = (false, false) := by
  obtain ⟨i, _, rfl⟩ := List.mem_map.mp h
  show hasBit Status.ladder Status.ladder = true ∧
    (hasBit Status.ladder Status.hardcore, hasBit Status.ladder Status.expansion) = (false, false)
  decide

/-- A counter that has come round says 0. -/
theorem exists_rank_zero {n : Nat} (hpos : 0 < n) (hround : UInt32.ofNat n = 0) :
    ∃ c ∈ crowd n, ∃ s ∈ d2Characters (crowd n), s.name = c.name ∧ s.rank = some 0 := by
  have hladder : (crowd n).filter (fun c => hasBit c.status Status.ladder) = crowd n :=
    List.filter_eq_self.mpr fun c hc => (crowd_kind hc).1
  have hlen : (ladderOrder (crowd n)).length = n := by
    rw [ladderOrder, (rankBy_perm ladderKey _).length_eq, hladder]
    simp [crowd]
  obtain ⟨before, x, hl⟩ : ∃ before x, ladderOrder (crowd n) = before ++ [x] := by
    rcases List.eq_nil_or_concat (ladderOrder (crowd n)) with hnil | ⟨before, x, hl⟩
    · rw [hnil] at hlen
      simp only [List.length_nil] at hlen
      omega
    · exact ⟨before, x, by simpa using hl⟩
  have hx := (mem_ladderOrder (hl ▸ List.mem_append_right before List.mem_cons_self)).1
  have hcount : (before.countP fun y => kindOf y.1 = kindOf x.1) + 1 = n := by
    rw [List.countP_eq_length.mpr]
    · rw [hl] at hlen
      simpa using hlen
    · intro y hy
      have hmem := (mem_ladderOrder (hl ▸ List.mem_append_left [x] hy)).1
      rw [(crowd_kind hmem).2, (crowd_kind hx).2]
      rfl
  have hrank : rankAfter ∅ (fun c => kindOf c.1) (kindOf x.1) before = 0 := by
    rw [rankAfter, Finmap.lookup_empty, Option.getD_none, UInt32.zero_add]
    exact (UInt32.ofNat_add _ 1).symm.trans ((congrArg UInt32.ofNat hcount).trans hround)
  refine ⟨x.1, hx, (pushed_iff (nodup_crowd n) hx Standing.rank (some 0)).mpr
    ⟨before, x, [], hl, rfl, Or.inl ?_, ?_⟩⟩
  · rw [hrank]
    exact Nat.zero_le _
  · rw [hrank]
    rfl

def second : Character := ⟨0, ['a'], 0, Status.ladder, 1, 0, 0, 0, none⟩

/-- The second of three characters is pushed with rank 2 just if that is its place. -/
theorem ladder_agrees_crowd :
    (∃ s ∈ d2Characters (crowd 3), s.name = second.name ∧ s.rank = some 2) ↔
      Place (listed (crowd 3) (overallLadder (kindOf second))) 2 second := by
  have hfew (kind : Kind) :
      (crowd 3).countP (fun c => hasBit c.status Status.ladder && kindOf c == kind) < 2 ^ 32 :=
    Nat.lt_of_le_of_lt List.countP_le_length (by simp [crowd])
  have hsecond : second ∈ crowd 3 := List.mem_map.mpr ⟨1, by decide, rfl⟩
  exact ((ladder_agrees (nodup_crowd 3)).2.2.2 hfew second hsecond 2).1

/-- Where a kind has as many characters as a counter has values, one of them is pushed with a rank
that is no place. -/
theorem ladder_disagrees : ¬ ∀ all : List Character, (all.map Character.name).Nodup →
    ∀ c ∈ all, ∀ r : UInt32, (∃ s ∈ d2Characters all, s.name = c.name ∧ s.rank = some r) ↔
      Place (listed all (overallLadder (kindOf c))) r c := by
  intro h
  obtain ⟨c, hc, hpushed⟩ := exists_rank_zero (n := 2 ^ 32) (by decide) rfl
  exact absurd ((h _ (nodup_crowd _) c hc 0).mp hpushed).1 (by decide)

end CommandCenter.Daemon
