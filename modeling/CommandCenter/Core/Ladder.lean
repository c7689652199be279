import Mathlib.Data.Prod.Lex
import Mathlib.Data.List.Lex
import Mathlib.Data.Char
import CommandCenter.Library.Ranking
import CommandCenter.Rust.Text
import CommandCenter.Rust.Num

/-!
# Ladder standings

The standings of the StarCraft and Warcraft II ladders, from `crates/bnetcc-core/src/ladder.rs`.

* `rowKey_lt`: the order that rows are sorted in.
* `position_iff`: the place of a name in the standings.
* `standings_canonical`: the standings as a whole.
-/

namespace CommandCenter.Core.Ladder

open Rust Library

/-- `MAX_RANK`, the lowest rank listed. -/
def maxRank : Nat := 500

/-- How a game went for one player. -/
inductive Outcome where
  | win
  | loss
  | draw
  /-- Scored as a loss. -/
  | disconnect
  deriving DecidableEq

/-- The orders that a client asks for. -/
inductive SortMethod where
  | rating
  | climbers
  | wins
  | games
  deriving DecidableEq

/-- One player's record in one league. -/
structure LadderRow where
  name : Text
  wins : UInt32
  losses : UInt32
  disconnects : UInt32
  rating : UInt32
  highRating : UInt32
  /-- Seconds since the Unix epoch. -/
  lastGame : UInt64
  deriving DecidableEq

def LadderRow.games (r : LadderRow) : UInt32 := r.wins + r.losses + r.disconnects

/-- What the sort method compares first. -/
def SortMethod.key (sort : SortMethod) (r : LadderRow) : UInt32 :=
  match sort with
  | .rating | .climbers => r.rating
  | .wins => r.wins
  | .games => r.games

/-- By the sort method and then by rating, highest first, then by name in lower case. -/
def rowKey (t : CaseTables) (sort : SortMethod) (r : LadderRow) : ℕᵒᵈ ×ₗ ℕᵒᵈ ×ₗ Text :=
  toLex (.toDual (sort.key r).toNat, toLex (.toDual r.rating.toNat, r.name.toLowercase t))

/-- The players with a game, in order, down to the last rank. -/
def standings (t : CaseTables) (rows : List LadderRow) (sort : SortMethod) : List LadderRow :=
  (rankBy (rowKey t sort) (rows.filter fun r => 0 < r.games)).take maxRank

/-- A player's index in the standings. -/
def rankOf (standings : List LadderRow) (name : Text) : Option UInt32 :=
  (standings.findIdx? fun r => r.name.eqIgnoreAsciiCase name).map .ofNat

/-! ## The order -/

/-- The games of a row, whether or not they fit a counter. -/
def LadderRow.played (r : LadderRow) : Nat := r.wins.toNat + r.losses.toNat + r.disconnects.toNat

def SortMethod.score (sort : SortMethod) (r : LadderRow) : Nat :=
  match sort with
  | .rating | .climbers => r.rating.toNat
  | .wins => r.wins.toNat
  | .games => r.played

/-- `a` stands before `b`. -/
def Above (t : CaseTables) (sort : SortMethod) (a b : LadderRow) : Prop :=
  sort.score b < sort.score a ∨ sort.score b = sort.score a ∧
    (b.rating < a.rating ∨ b.rating = a.rating ∧ a.name.toLowercase t < b.name.toLowercase t)

/-- The games fit the counter. -/
def LadderRow.Fits (r : LadderRow) : Prop := r.played < 2 ^ 32

instance (r : LadderRow) : Decidable r.Fits := inferInstanceAs (Decidable (r.played < 2 ^ 32))

theorem LadderRow.Fits.toNat_games {r : LadderRow} (h : r.Fits) : r.games.toNat = r.played := by
  unfold LadderRow.Fits at h
  unfold LadderRow.games
  rw [UInt32.toNat_add, UInt32.toNat_add, Nat.mod_add_mod]
  exact Nat.mod_eq_of_lt h

theorem SortMethod.toNat_key (sort : SortMethod) {r : LadderRow} (h : r.Fits) :
    (sort.key r).toNat = sort.score r := by
  cases sort with
  | rating | climbers | wins => rfl
  | games => exact h.toNat_games

variable {t : CaseTables} {sort : SortMethod} {rows : List LadderRow}

theorem rowKey_lt {a b : LadderRow} (ha : a.Fits) (hb : b.Fits) :
    rowKey t sort a < rowKey t sort b ↔ Above t sort a b := by
  simp only [rowKey, Prod.Lex.toLex_lt_toLex, OrderDual.toDual_lt_toDual, Above,
    EmbeddingLike.apply_eq_iff_eq, UInt32.toNat_inj, UInt32.lt_iff_toNat_lt, sort.toNat_key ha,
    sort.toNat_key hb, eq_comm]

def eligible (rows : List LadderRow) : List LadderRow := rows.filter fun r => 0 < r.played

theorem filter_games (hfits : ∀ r ∈ rows, r.Fits) :
    rows.filter (fun r => 0 < r.games) = eligible rows := by
  apply List.filter_congr
  intro r hr
  have hgames : 0 < r.games ↔ 0 < r.played := by
    rw [UInt32.lt_iff_toNat_lt, (hfits r hr).toNat_games]
    rfl
  exact decide_eq_decide.mpr hgames

theorem nodup_rowKey (hnames : (rows.map fun r => r.name.toLowercase t).Nodup)
    (p : LadderRow → Bool) : ((rows.filter p).map (rowKey t sort)).Nodup := by
  apply List.Nodup.of_map fun key => (ofLex (ofLex key).2).2
  rw [List.map_map]
  exact hnames.sublist (List.filter_sublist.map _)

theorem order_iff (hnames : (rows.map fun r => r.name.toLowercase t).Nodup)
    (hfits : ∀ r ∈ rows, r.Fits) {order : List LadderRow} :
    order.Perm (eligible rows) ∧ order.Pairwise (Above t sort) ↔
      order = rankBy (rowKey t sort) (rows.filter fun r => 0 < r.games) := by
  rw [← eq_rankBy_iff (nodup_rowKey hnames _), filter_games hfits]
  apply and_congr_right
  intro hperm
  apply List.Pairwise.iff_of_mem
  intro a b ha hb
  exact (rowKey_lt (hfits a (List.mem_of_mem_filter (hperm.subset ha)))
    (hfits b (List.mem_of_mem_filter (hperm.subset hb)))).symm

/-! ## Places -/

theorem nodup_standings (hnames : (rows.map fun r => r.name.toLowercase t).Nodup) :
    ((standings t rows sort).map fun r => r.name.toLowercase t).Nodup := by
  have hperm := (rankBy_perm (rowKey t sort) (rows.filter fun r => 0 < r.games)).map
    fun r => r.name.toLowercase t
  have hfilter := hnames.sublist
    ((List.filter_sublist (p := fun r : LadderRow => decide (0 < r.games))).map _)
  exact (hperm.nodup_iff.mpr hfilter).sublist ((List.take_sublist _ _).map _)

/-- No row before one with the name has the name. -/
theorem position_iff (hnames : (rows.map fun r => r.name.toLowercase t).Nodup) {name : Text}
    {i : UInt32} : rankOf (standings t rows sort) name = some i ↔
      ∃ r, (standings t rows sort)[i.toNat]? = some r ∧ r.name.eqIgnoreAsciiCase name = true := by
  have hlen : (standings t rows sort).length ≤ 500 := List.length_take_le _ _
  have hfound (n : Nat) : (standings t rows sort).findIdx?
      (fun r => r.name.eqIgnoreAsciiCase name) = some n ↔
        ∃ r, (standings t rows sort)[n]? = some r ∧ r.name.eqIgnoreAsciiCase name = true := by
    apply findIdx?_eq_some_iff_of_unique (nodup_standings hnames)
    intro a b ha hb
    exact (Text.toLowercase_congr t ha).trans (Text.toLowercase_congr t hb).symm
  rw [rankOf, Option.map_eq_some_iff]
  constructor
  · rintro ⟨n, hn, rfl⟩
    obtain ⟨r, hr, hname⟩ := (hfound n).mp hn
    have hlt : n < (standings t rows sort).length := (List.getElem?_eq_some_iff.mp hr).1
    rw [UInt32.toNat_ofNat', Nat.mod_eq_of_lt (by omega)]
    exact ⟨r, hr, hname⟩
  · intro h
    exact ⟨i.toNat, (hfound i.toNat).mpr h, UInt32.ofNat_toNat⟩

/-- **The standings are the first 500** of the one order of the rows with a game, whatever the
order of the rows; and a name's rank is its place in them. -/
theorem standings_canonical (t : CaseTables) {rows : List LadderRow}
    (hnames : (rows.map fun r => r.name.toLowercase t).Nodup) (hfits : ∀ r ∈ rows, r.Fits)
    (sort : SortMethod) :
    (∃ order : List LadderRow,
      (∀ order' : List LadderRow,
        order'.Perm (eligible rows) ∧ order'.Pairwise (Above t sort) ↔ order' = order) ∧
      standings t rows sort = order.take 500) ∧
    (∀ rows' : List LadderRow, rows'.Perm rows →
      standings t rows' sort = standings t rows sort) ∧
    ∀ (name : Text) (i : UInt32), rankOf (standings t rows sort) name = some i ↔
      ∃ r, (standings t rows sort)[i.toNat]? = some r ∧ r.name.eqIgnoreAsciiCase name = true := by
  refine ⟨⟨_, fun order' => order_iff hnames hfits, rfl⟩, fun rows' hperm => ?_,
    fun name i => position_iff hnames⟩
  unfold standings
  rw [rankBy_congr (nodup_rowKey hnames _) (hperm.filter _)]

/-- Tables that are right for ASCII letters. -/
def letterTables : CaseTables where
  lower c := [c]
  cased := Char.isAlpha
  ignorable _ := false
  cased_letter _ h := h
  ignorable_letter _ _ := rfl

/-- Three players of whom one has not played. -/
def threeRows : List LadderRow :=
  [⟨"Zed".toList, 10, 0, 0, 1200, 1200, 0⟩, ⟨"amy".toList, 3, 1, 0, 1300, 1300, 0⟩,
    ⟨"Idle".toList, 0, 0, 0, 1000, 1000, 0⟩]

theorem standings_three : rankOf (standings letterTables threeRows .rating) "ZED".toList = some 1 ↔
    ∃ r, (standings letterTables threeRows .rating)[(1 : UInt32).toNat]? = some r ∧
      r.name.eqIgnoreAsciiCase "ZED".toList = true := by
  have hnames : (threeRows.map fun r => r.name.toLowercase letterTables).Nodup := by decide
  have hfits : ∀ r ∈ threeRows, r.Fits :=
    List.forall_mem_cons.mpr ⟨by decide, List.forall_mem_cons.mpr ⟨by decide,
      List.forall_mem_singleton.mpr (by decide)⟩⟩
  exact (standings_canonical letterTables hnames hfits .rating).2.2 _ _

end CommandCenter.Core.Ladder
