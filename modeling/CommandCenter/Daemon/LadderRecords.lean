import CommandCenter.Core.Ladder
import CommandCenter.Daemon.Games
import CommandCenter.Daemon.Season

/-!
# The records of the ladder

What the storage actor does for `RecordGame`, `RecordLadderGame` and `LadderRows`, from
`crates/bnetccd/src/storage.rs`. A record is spread over the attributes of an account, one for
each number of a product and a league.

* `recordKey_inj`: two numbers have two keys.
* `recordOf_step`: a command plays one game on one record.
* `LeagueRecord.run_count`: a record is what its games make of it.
-/

namespace CommandCenter.Daemon

open Rust CommandCenter.Core Library
open CommandCenter.Core.Ladder (Outcome LadderRow)
open Storage (Account AttrKey AttrMap MemoryStorage Result normalise normaliseChar)

/-- What `last game result` holds after this outcome. -/
def GameOutcome.resultWord : GameOutcome → Text
  | win => "WIN".toList
  | loss => "LOSS".toList
  | draw => "DRAW".toList
  | disconnect => "DISCONNECT".toList

/-- The counter that this outcome increments. -/
def GameOutcome.leaf : GameOutcome → Text
  | win => "wins".toList
  | loss => "losses".toList
  | draw => "draws".toList
  | disconnect => "disconnects".toList

def GameOutcome.played : GameOutcome → Outcome
  | win => .win
  | loss => .loss
  | draw => .draw
  | disconnect => .disconnect

/-- `rating_after`: from the ratings of a player and of the opponent. -/
abbrev RatingAfter := UInt32 → UInt32 → Outcome → UInt32

/-- The number under the key, if it holds one. -/
def numberAt (attrs : AttrMap) (key : AttrKey) : Option UInt64 := (attrs.lookup key).bind parseU64

/-- `u64::to_string`. -/
def numberText (n : UInt64) : Text := Nat.toDigits 10 n.toNat

/-- One more outcome of a normal game. -/
def recordGame (account : AccountId) (product : Text) (outcome : GameOutcome)
    (s : MemoryStorage) : Result UInt64 × MemoryStorage :=
  let key := recordKey product .normal outcome.leaf
  match s.attrsGet account [key] with
  | (.error e, s) => (.error e, s)
  | (.ok current, s) =>
    let next := saturatingAdd64 ((numberAt current key).getD 0) 1
    match s.attrsPut account ((∅ : AttrMap).insert key (numberText next)) with
    | (.error e, s) => (.error e, s)
    | (.ok (), s) => (.ok next, s)

/-- The attributes after a ladder game. -/
def ladderPut (product : Text) (league : League) (outcome : GameOutcome) (count : UInt64)
    (next high : UInt32) (now : UInt64) : AttrMap :=
  let key := recordKey product league
  let put := (∅ : AttrMap).insert (key outcome.leaf) (numberText count)
  let put := put.insert (key "rating".toList) (numberText next.toUInt64)
  let put := put.insert (key "high rating".toList) (numberText high.toUInt64)
  let put := put.insert (key "last game".toList) (numberText now)
  put.insert (key "last game result".toList) outcome.resultWord

/-- A ladder game: the rating before and after. -/
def recordLadderGame (ratingAfter : RatingAfter) (now : UInt64)
    (account : AccountId) (product : Text) (league : League) (outcome : GameOutcome)
    (opponent : UInt32) (s : MemoryStorage) : Result (UInt32 × UInt32) × MemoryStorage :=
  let key := recordKey product league
  match s.attrsGet account [key outcome.leaf, key "rating".toList, key "high rating".toList] with
  | (.error e, s) => (.error e, s)
  | (.ok current, s) =>
    let count := saturatingAdd64 ((numberAt current (key outcome.leaf)).getD 0) 1
    let rating := (numberAt current (key "rating".toList)).elim startRating UInt64.toUInt32
    let next := ratingAfter rating opponent outcome.played
    let high :=
      max ((numberAt current (key "high rating".toList)).elim startRating UInt64.toUInt32) next
    match s.attrsPut account (ladderPut product league outcome count next high now) with
    | (.error e, s) => (.error e, s)
    | (.ok (), s) => (.ok (rating, next), s)

/-- What `LadderRows` reads of an account. -/
def rowKeys (product : Text) (league : League) : List AttrKey :=
  ["wins".toList, "losses".toList, "disconnects".toList, "rating".toList, "high rating".toList,
    "last game".toList].map (recordKey product league)

/-- The row of an account with these attributes. -/
def readRow (product : Text) (league : League) (name : Text) (attrs : AttrMap) : LadderRow :=
  let get (leaf : Text) := numberAt attrs (recordKey product league leaf)
  { name
    wins := ((get "wins".toList).getD 0).toUInt32
    losses := ((get "losses".toList).getD 0).toUInt32
    disconnects := ((get "disconnects".toList).getD 0).toUInt32
    rating := (get "rating".toList).elim startRating UInt64.toUInt32
    highRating := (get "high rating".toList).elim startRating UInt64.toUInt32
    lastGame := (get "last game".toList).getD 0 }

/-- The row of an account, if it has games. -/
def ladderRow (product : Text) (league : League) (s : MemoryStorage) (account : Account) :
    Option LadderRow :=
  match s.attrsGet account.id (rowKeys product league) with
  | (.error _, _) => none
  | (.ok attrs, _) =>
    let row := readRow product league account.name attrs
    if 0 < row.games then some row else none

/-- The rows of the accounts from `offset`. -/
def ladderRowsFrom (product : Text) (league : League) (s : MemoryStorage) (offset : Nat) :
    List LadderRow :=
  match _h : s.listAccounts offset accountPage with
  | (.error _, _) | (.ok [], _) => []
  | (.ok (account :: page), _) => (account :: page).filterMap (ladderRow product league s) ++
      ladderRowsFrom product league s (offset + (account :: page).length)
termination_by (accountIds s).length - offset
decreasing_by
  have := (length_listAccounts _h).2
  simp only [List.length_cons] at this ⊢
  omega

def ladderRows (product : Text) (league : League) (s : MemoryStorage) : List LadderRow :=
  ladderRowsFrom product league s 0

/-! ## Keys -/

/-- The last parts of the keys. -/
def recordLeaves : List Text :=
  ["wins".toList, "losses".toList, "draws".toList, "disconnects".toList, "rating".toList,
    "high rating".toList, "last game".toList, "last game result".toList]

theorem leaf_mem (o : GameOutcome) : o.leaf ∈ recordLeaves := by
  cases o with
  | win => exact .head _
  | loss => exact .tail _ (.head _)
  | draw => exact .tail _ (.tail _ (.head _))
  | disconnect => exact .tail _ (.tail _ (.tail _ (.head _)))

theorem leaf_normal {leaf : Text} (h : leaf ∈ recordLeaves) :
    leaf.map normaliseChar = leaf ∧ '\\' ∉ leaf ∧
      ∃ c, leaf.getLast? = some c ∧ Text.isWhitespace c = false := by
  simp only [recordLeaves, List.mem_cons, List.not_mem_nil, or_false] at h
  rcases h with rfl | rfl | rfl | rfl | rfl | rfl | rfl | rfl
  all_goals exact ⟨by decide, by decide, _, rfl, by decide⟩

theorem index_normal (league : League) :
    league.index.map normaliseChar = league.index ∧ '\\' ∉ league.index := by
  cases league
  all_goals exact ⟨by decide, by decide⟩

theorem index_inj {l l' : League} : l.index = l'.index ↔ l = l' := by
  cases l <;> cases l' <;> decide

theorem recordKey_text (product : Text) (league : League) {leaf : Text}
    (h : leaf ∈ recordLeaves) : (recordKey product league leaf).text =
      (("record\\".toList ++ product.map normaliseChar) ++ '\\' :: league.index) ++
        '\\' :: leaf := by
  obtain ⟨hleaf, -, c, hlast, hc⟩ := leaf_normal h
  have htrim : Text.trim ("Record\\".toList ++ product ++ '\\' :: league.index ++ '\\' :: leaf) =
      "Record\\".toList ++ product ++ '\\' :: league.index ++ '\\' :: leaf := by
    apply Text.trim_eq_self
    · intro d hd
      obtain rfl : 'R' = d := Option.some.inj hd
      decide
    · intro d hd
      have hne : leaf ≠ [] := by
        rintro rfl
        cases hlast
      rw [List.getLast?_append_of_ne_nil _ (List.cons_ne_nil _ _), List.getLast?_cons_of_ne_nil hne,
        hlast] at hd
      obtain rfl := Option.some.inj hd
      exact hc
  show normalise _ = _
  rw [normalise, htrim]
  simp only [List.map_append, List.map_cons, hleaf, (index_normal league).1]
  rfl

/-- Two products that the keys do not tell apart. -/
def SameKeys (p p' : Text) : Prop := p.map normaliseChar = p'.map normaliseChar

instance (p p' : Text) : Decidable (SameKeys p p') :=
  inferInstanceAs (Decidable (p.map normaliseChar = p'.map normaliseChar))

/-- Two numbers have two keys. -/
theorem recordKey_inj {p p' : Text} {l l' : League} {f f' : Text} (hf : f ∈ recordLeaves)
    (hf' : f' ∈ recordLeaves) :
    recordKey p l f = recordKey p' l' f' ↔ (SameKeys p p' ∧ l = l') ∧ f = f' := by
  have hkeys : recordKey p l f = recordKey p' l' f' ↔
      (recordKey p l f).text = (recordKey p' l' f').text := by
    constructor
    · exact congrArg AttrKey.text
    · intro h
      rw [AttrKey.mk.injEq]
      exact h
  rw [hkeys, recordKey_text p l hf, recordKey_text p' l' hf']
  constructor
  · intro h
    -- the segments are taken off the end
    have hlast := congrArg (Text.rsplitOnce '\\') h
    rw [Text.rsplitOnce_append _ (leaf_normal hf).2.1,
      Text.rsplitOnce_append _ (leaf_normal hf').2.1] at hlast
    obtain ⟨hinit, hleaf⟩ := Prod.mk.inj (Option.some.inj hlast)
    have hindex := congrArg (Text.rsplitOnce '\\') hinit
    rw [Text.rsplitOnce_append _ (index_normal l).2,
      Text.rsplitOnce_append _ (index_normal l').2] at hindex
    obtain ⟨hproduct, hleague⟩ := Prod.mk.inj (Option.some.inj hindex)
    exact ⟨⟨List.append_cancel_left hproduct, index_inj.mp hleague⟩, hleaf⟩
  · rintro ⟨⟨hproduct, rfl⟩, rfl⟩
    rw [hproduct]

/-! ## The attributes of an account -/

def attrsOf (s : MemoryStorage) (id : AccountId) : AttrMap := (s.attrs.lookup id).getD ∅

/-- A read finds what the account has under the keys. -/
theorem numberAt_pick (attrs : AttrMap) {keys : List AttrKey} {key : AttrKey} (h : key ∈ keys) :
    numberAt (Map.pick attrs ∅ keys) key = numberAt attrs key := by
  rw [numberAt, Map.lookup_pick, if_pos h, Finmap.lookup_empty, Option.or_none, numberAt]

theorem isEmpty_eq_false {m : AttrMap} {key : AttrKey} {value : Text}
    (h : m.lookup key = some value) : m.isEmpty = false := by
  rw [← Bool.not_eq_true, Map.isEmpty_iff]
  rintro rfl
  rw [Finmap.lookup_empty] at h
  cases h

theorem attrsPut_eq (s : MemoryStorage) (id : AccountId) {put : AttrMap}
    (h : put.isEmpty = false) :
    s.attrsPut id put = (.ok (), { s with attrs := s.attrs.extendAt id put }) := by
  rw [MemoryStorage.attrsPut, h]
  rfl

theorem attrsOf_extendAt (s : MemoryStorage) (id id' : AccountId) (put : AttrMap) :
    attrsOf { s with attrs := s.attrs.extendAt id put } id' =
      if id' = id then (attrsOf s id).extend put else attrsOf s id' := by
  show ((s.attrs.insert id _).lookup id').getD ∅ = _
  split
  · rename_i hid
    rw [hid, Finmap.lookup_insert]
    rfl
  · rename_i hid
    rw [Finmap.lookup_insert_of_ne _ hid]
    rfl

/-- What is not written is kept. -/
theorem numberAt_extend_of_none {put : AttrMap} {key : AttrKey} (h : put.lookup key = none)
    (attrs : AttrMap) : numberAt (attrs.extend put) key = numberAt attrs key := by
  rw [numberAt, Map.lookup_extend, h, Option.none_or, numberAt]

theorem numberAt_extend_of_some {put : AttrMap} {key : AttrKey} {n : UInt64}
    (h : put.lookup key = some (numberText n)) (attrs : AttrMap) :
    numberAt (attrs.extend put) key = some n := by
  rw [numberAt, Map.lookup_extend, h, Option.some_or, Option.bind_some]
  exact parseU64_toDigits n

/-! ## Records -/

/-- The numbers of an account in a league. -/
@[ext] structure LeagueRecord where
  count : GameOutcome → UInt64
  rating : UInt32
  highRating : UInt32

def recordOf (product : Text) (league : League) (attrs : AttrMap) : LeagueRecord :=
  let get (leaf : Text) := numberAt attrs (recordKey product league leaf)
  { count := fun o => (get o.leaf).getD 0
    rating := (get "rating".toList).elim startRating UInt64.toUInt32
    highRating := (get "high rating".toList).elim startRating UInt64.toUInt32 }

def LeagueRecord.new : LeagueRecord := ⟨fun _ => 0, startRating, startRating⟩

inductive RecordCommand where
  | game (account : AccountId) (product : Text) (outcome : GameOutcome)
  | ladderGame (account : AccountId) (product : Text) (league : League) (outcome : GameOutcome)
      (opponent : UInt32) (now : UInt64)
  deriving DecidableEq

namespace RecordCommand

def account : RecordCommand → AccountId
  | game account _ _ | ladderGame account _ _ _ _ _ => account

def product : RecordCommand → Text
  | game _ product _ | ladderGame _ product _ _ _ _ => product

/-- A game that is not a ladder game counts as normal. -/
def league : RecordCommand → League
  | game _ _ _ => .normal
  | ladderGame _ _ league _ _ _ => league

def outcome : RecordCommand → GameOutcome
  | game _ _ outcome | ladderGame _ _ _ outcome _ _ => outcome

/-- The rating after the game, which a normal game leaves alone. -/
def rerate (ratingAfter : RatingAfter) (rating : UInt32) :
    RecordCommand → Option UInt32
  | game _ _ _ => none
  | ladderGame _ _ _ outcome opponent _ => some (ratingAfter rating opponent outcome.played)

/-- What the storage actor does. -/
def apply (ratingAfter : RatingAfter) (s : MemoryStorage) :
    RecordCommand → MemoryStorage
  | game account product outcome => (recordGame account product outcome s).2
  | ladderGame account product league outcome opponent now =>
    (recordLadderGame ratingAfter now account product league outcome opponent s).2

/-- Whether the game is written in the record of this account, product and league. -/
def isIn (id : AccountId) (product : Text) (league : League) (c : RecordCommand) : Bool :=
  decide (c.account = id ∧ SameKeys c.product product ∧ c.league = league)

end RecordCommand

/-- A game changes its counter and the ratings. -/
def LeagueRecord.play (ratingAfter : RatingAfter) (r : LeagueRecord)
    (c : RecordCommand) : LeagueRecord where
  count := Function.update r.count c.outcome (saturatingAdd64 (r.count c.outcome) 1)
  rating := (c.rerate ratingAfter r.rating).getD r.rating
  highRating := (c.rerate ratingAfter r.rating).elim r.highRating (max r.highRating)

section Keys

variable {p p' : Text} {l l' : League} {f f' : Text}

theorem lookup_insert_recordKey (hf : f ∈ recordLeaves) (hf' : f' ∈ recordLeaves) (m : AttrMap)
    (value : Text) : (m.insert (recordKey p l f) value).lookup (recordKey p' l' f') =
      if (SameKeys p p' ∧ l = l') ∧ f = f' then some value else m.lookup (recordKey p' l' f') := by
  split
  · rename_i hsame
    rw [(recordKey_inj hf hf').mpr hsame, Finmap.lookup_insert]
  · rename_i hother
    rw [Finmap.lookup_insert_of_ne]
    exact fun h => hother ((recordKey_inj hf hf').mp h.symm)

theorem leaf_inj {o o' : GameOutcome} : o.leaf = o'.leaf ↔ o = o' := by
  cases o <;> cases o' <;> decide

/-- No outcome is counted under the key of a rating. -/
theorem leaf_ne (o : GameOutcome) : o.leaf ≠ "rating".toList ∧ o.leaf ≠ "high rating".toList ∧
    o.leaf ≠ "last game".toList ∧ o.leaf ≠ "last game result".toList := by
  cases o
  all_goals exact ⟨by decide, by decide, by decide, by decide⟩

theorem rating_mem : "rating".toList ∈ recordLeaves :=
  .tail _ (.tail _ (.tail _ (.tail _ (.head _))))

theorem highRating_mem : "high rating".toList ∈ recordLeaves :=
  .tail _ (.tail _ (.tail _ (.tail _ (.tail _ (.head _)))))

theorem lastGame_mem : "last game".toList ∈ recordLeaves :=
  .tail _ (.tail _ (.tail _ (.tail _ (.tail _ (.tail _ (.head _))))))

theorem lastResult_mem : "last game result".toList ∈ recordLeaves :=
  .tail _ (.tail _ (.tail _ (.tail _ (.tail _ (.tail _ (.tail _ (.head _)))))))

end Keys

section Put

variable {p p' : Text} {l l' : League} {o : GameOutcome} {count now : UInt64} {next high : UInt32}

/-- A game does not write in another record. -/
theorem ladderPut_other (hother : ¬(SameKeys p p' ∧ l = l')) {f : Text} (hf : f ∈ recordLeaves) :
    (ladderPut p l o count next high now).lookup (recordKey p' l' f) = none := by
  have hskip (g : Text) : ¬((SameKeys p p' ∧ l = l') ∧ g = f) := fun h => hother h.1
  simp only [ladderPut, lookup_insert_recordKey lastResult_mem hf,
    lookup_insert_recordKey lastGame_mem hf, lookup_insert_recordKey highRating_mem hf,
    lookup_insert_recordKey rating_mem hf, lookup_insert_recordKey (leaf_mem o) hf,
    if_neg (hskip _), Finmap.lookup_empty]

theorem ladderPut_leaf (hsame : SameKeys p p' ∧ l = l') (o' : GameOutcome) :
    (ladderPut p l o count next high now).lookup (recordKey p' l' o'.leaf) =
      if o = o' then some (numberText count) else none := by
  obtain ⟨hrating, hhigh, hlast, hresult⟩ := leaf_ne o'
  simp only [ladderPut, lookup_insert_recordKey lastResult_mem (leaf_mem o'),
    lookup_insert_recordKey lastGame_mem (leaf_mem o'),
    lookup_insert_recordKey highRating_mem (leaf_mem o'),
    lookup_insert_recordKey rating_mem (leaf_mem o'), hrating.symm, hhigh.symm, hlast.symm,
    hresult.symm, and_false, if_false, lookup_insert_recordKey (leaf_mem o) (leaf_mem o'), hsame,
    leaf_inj, and_self, true_and, Finmap.lookup_empty]

theorem ladderPut_count (hsame : SameKeys p p' ∧ l = l') :
    (ladderPut p l o count next high now).lookup (recordKey p' l' o.leaf) =
      some (numberText count) := (ladderPut_leaf hsame o).trans (if_pos rfl)

/-- One counter is written. -/
theorem ladderPut_leaf_ne (hsame : SameKeys p p' ∧ l = l') {o' : GameOutcome} (h : o ≠ o') :
    (ladderPut p l o count next high now).lookup (recordKey p' l' o'.leaf) = none :=
  (ladderPut_leaf hsame o').trans (if_neg h)

theorem ladderPut_rating (hsame : SameKeys p p' ∧ l = l') :
    (ladderPut p l o count next high now).lookup (recordKey p' l' "rating".toList) =
      some (numberText next.toUInt64) := by
  have hresult : ¬((SameKeys p p' ∧ l = l') ∧ "last game result".toList = "rating".toList) :=
    fun h => absurd h.2 (by decide)
  have hlast : ¬((SameKeys p p' ∧ l = l') ∧ "last game".toList = "rating".toList) :=
    fun h => absurd h.2 (by decide)
  have hhigh : ¬((SameKeys p p' ∧ l = l') ∧ "high rating".toList = "rating".toList) :=
    fun h => absurd h.2 (by decide)
  rw [ladderPut, lookup_insert_recordKey lastResult_mem rating_mem, if_neg hresult,
    lookup_insert_recordKey lastGame_mem rating_mem, if_neg hlast,
    lookup_insert_recordKey highRating_mem rating_mem, if_neg hhigh,
    lookup_insert_recordKey rating_mem rating_mem, if_pos ⟨hsame, rfl⟩]

theorem ladderPut_highRating (hsame : SameKeys p p' ∧ l = l') :
    (ladderPut p l o count next high now).lookup (recordKey p' l' "high rating".toList) =
      some (numberText high.toUInt64) := by
  have hresult : ¬((SameKeys p p' ∧ l = l') ∧ "last game result".toList = "high rating".toList) :=
    fun h => absurd h.2 (by decide)
  have hlast : ¬((SameKeys p p' ∧ l = l') ∧ "last game".toList = "high rating".toList) :=
    fun h => absurd h.2 (by decide)
  rw [ladderPut, lookup_insert_recordKey lastResult_mem highRating_mem, if_neg hresult,
    lookup_insert_recordKey lastGame_mem highRating_mem, if_neg hlast,
    lookup_insert_recordKey highRating_mem highRating_mem, if_pos ⟨hsame, rfl⟩]

end Put

/-! ## One game -/

variable {ratingAfter : RatingAfter}

section Step

variable {p p' : Text} {l l' : League}

theorem recordOf_congr (hsame : SameKeys p p' ∧ l = l') (attrs : AttrMap) :
    recordOf p l attrs = recordOf p' l' attrs := by
  have hkey {f : Text} (hf : f ∈ recordLeaves) : recordKey p l f = recordKey p' l' f :=
    (recordKey_inj hf hf).mpr ⟨hsame, rfl⟩
  ext o
  · simp only [recordOf, hkey (leaf_mem o)]
  · simp only [recordOf, hkey rating_mem]
  · simp only [recordOf, hkey highRating_mem]

theorem recordOf_ladderPut (o : GameOutcome) (count now : UInt64) (next high : UInt32)
    (attrs : AttrMap) : recordOf p l (attrs.extend (ladderPut p l o count next high now)) =
      ⟨Function.update (recordOf p l attrs).count o count, next, high⟩ := by
  apply LeagueRecord.ext
  · funext o'
    by_cases ho : o' = o
    · subst ho
      simp only [recordOf]
      rw [numberAt_extend_of_some (ladderPut_count ⟨rfl, rfl⟩), Function.update_self,
        Option.getD_some]
    · simp only [recordOf]
      rw [numberAt_extend_of_none (ladderPut_leaf_ne ⟨rfl, rfl⟩ (Ne.symm ho)),
        Function.update_of_ne ho]
  · simp only [recordOf]
    rw [numberAt_extend_of_some (ladderPut_rating ⟨rfl, rfl⟩), Option.elim_some,
      UInt32.toUInt32_toUInt64]
  · simp only [recordOf]
    rw [numberAt_extend_of_some (ladderPut_highRating ⟨rfl, rfl⟩), Option.elim_some,
      UInt32.toUInt32_toUInt64]

theorem recordOf_gamePut (o : GameOutcome) (count : UInt64) (attrs : AttrMap) :
    recordOf p l (attrs.extend ((∅ : AttrMap).insert (recordKey p l o.leaf) (numberText count))) =
      { recordOf p l attrs with count := Function.update (recordOf p l attrs).count o count } := by
  have hother {f : Text} (hf : f ∈ recordLeaves) (hne : o.leaf ≠ f) :
      ((∅ : AttrMap).insert (recordKey p l o.leaf) (numberText count)).lookup (recordKey p l f) =
        none := by
    rw [lookup_insert_recordKey (leaf_mem o) hf, if_neg fun h => hne h.2, Finmap.lookup_empty]
  apply LeagueRecord.ext
  · funext o'
    by_cases ho : o' = o
    · subst ho
      simp only [recordOf]
      rw [numberAt_extend_of_some (Finmap.lookup_insert _), Function.update_self,
        Option.getD_some]
    · have hne : o.leaf ≠ o'.leaf := fun h => ho (leaf_inj.mp h).symm
      simp only [recordOf, numberAt_extend_of_none (hother (leaf_mem o') hne),
        Function.update_of_ne ho]
  · simp only [recordOf, numberAt_extend_of_none (hother rating_mem (leaf_ne o).1)]
  · simp only [recordOf, numberAt_extend_of_none (hother highRating_mem (leaf_ne o).2.1)]

/-- The attributes that a command writes. -/
def RecordCommand.put (ratingAfter : RatingAfter) (attrs : AttrMap) :
    RecordCommand → AttrMap
  | game _ product outcome =>
    (∅ : AttrMap).insert (recordKey product .normal outcome.leaf)
      (numberText (saturatingAdd64 ((recordOf product .normal attrs).count outcome) 1))
  | ladderGame _ product league outcome opponent now =>
    let r := recordOf product league attrs
    let next := ratingAfter r.rating opponent outcome.played
    ladderPut product league outcome (saturatingAdd64 (r.count outcome) 1) next
      (max r.highRating next) now

theorem RecordCommand.apply_eq (c : RecordCommand) (s : MemoryStorage) :
    c.apply ratingAfter s = { s with
      attrs := s.attrs.extendAt c.account (c.put ratingAfter (attrsOf s c.account)) } := by
  cases c with
  | game account product outcome =>
    simp only [apply, recordGame, MemoryStorage.attrsGet_eq]
    rw [numberAt_pick _ List.mem_cons_self,
      attrsPut_eq s account (isEmpty_eq_false (Finmap.lookup_insert _))]
    rfl
  | ladderGame account product league outcome opponent now =>
    have hkeys : ∀ f ∈ [outcome.leaf, "rating".toList, "high rating".toList],
        recordKey product league f ∈ [recordKey product league outcome.leaf,
          recordKey product league "rating".toList,
          recordKey product league "high rating".toList] :=
      fun f hf => List.mem_map_of_mem hf
    simp only [apply, recordLadderGame, MemoryStorage.attrsGet_eq]
    rw [numberAt_pick _ (hkeys _ List.mem_cons_self),
      numberAt_pick _ (hkeys _ (.tail _ (.head _))),
      numberAt_pick _ (hkeys _ (.tail _ (.tail _ (.head _))))]
    rw [attrsPut_eq s account (isEmpty_eq_false (ladderPut_rating ⟨rfl, rfl⟩))]
    rfl

theorem RecordCommand.recordOf_put (c : RecordCommand) (attrs : AttrMap)
    (hsame : SameKeys c.product p ∧ c.league = l) :
    recordOf p l (attrs.extend (c.put ratingAfter attrs)) =
      (recordOf p l attrs).play ratingAfter c := by
  rw [← recordOf_congr hsame, ← recordOf_congr hsame]
  cases c with
  | game account product outcome => exact recordOf_gamePut _ _ _
  | ladderGame account product league outcome opponent now => exact recordOf_ladderPut _ _ _ _ _ _

theorem numberAt_step_other (ratingAfter : RatingAfter) {id : AccountId} (s : MemoryStorage)
    {c : RecordCommand} (hother : ¬(c.account = id ∧ SameKeys c.product p ∧ c.league = l))
    {f : Text} (hf : f ∈ recordLeaves) :
    numberAt (attrsOf (c.apply ratingAfter s) id) (recordKey p l f) =
      numberAt (attrsOf s id) (recordKey p l f) := by
  rw [c.apply_eq, attrsOf_extendAt]
  split
  · rename_i hid
    subst hid
    have hkeys : ¬(SameKeys c.product p ∧ c.league = l) := fun h => hother ⟨rfl, h⟩
    apply numberAt_extend_of_none
    cases c with
    | game account product outcome =>
      rw [RecordCommand.put, lookup_insert_recordKey (leaf_mem _) hf, if_neg fun h => hkeys h.1,
        Finmap.lookup_empty]
    | ladderGame account product league outcome opponent now => exact ladderPut_other hkeys hf
  · rfl

/-- A command plays one game on one record. -/
theorem recordOf_step (id : AccountId) (s : MemoryStorage) (c : RecordCommand) :
    recordOf p l (attrsOf (c.apply ratingAfter s) id) =
      if c.isIn id p l then (recordOf p l (attrsOf s id)).play ratingAfter c
      else recordOf p l (attrsOf s id) := by
  split
  · rename_i hin
    obtain ⟨hid, hsame⟩ := of_decide_eq_true hin
    rw [c.apply_eq, attrsOf_extendAt, if_pos hid.symm, hid]
    exact c.recordOf_put _ hsame
  · rename_i hin
    have hkept {f : Text} (hf : f ∈ recordLeaves) :=
      numberAt_step_other ratingAfter s (fun h => hin (decide_eq_true h)) hf
    apply LeagueRecord.ext
    · funext o
      simp only [recordOf, hkept (leaf_mem o)]
    · simp only [recordOf, hkept rating_mem]
    · simp only [recordOf, hkept highRating_mem]

end Step

/-! ## A history of games -/

/-- The store after the commands. -/
def recorded (ratingAfter : RatingAfter) (s : MemoryStorage)
    (history : List RecordCommand) : MemoryStorage :=
  run (RecordCommand.apply ratingAfter) s history

/-- The games of an account in a league of a product. -/
def gamesOf (history : List RecordCommand) (id : AccountId) (product : Text) (league : League) :
    List RecordCommand :=
  history.filter fun c => c.account = id ∧ c.product = product ∧ c.league = league

/-- How many games ended so. -/
def outcomes (games : List RecordCommand) (o : GameOutcome) : Nat := games.countP (·.outcome = o)

/-- The rating after a game. -/
def ratedBy (ratingAfter : RatingAfter) (rating : UInt32)
    (c : RecordCommand) : UInt32 := (c.rerate ratingAfter rating).getD rating

/-- The ratings held, from the first on. -/
def ratings (ratingAfter : RatingAfter) (games : List RecordCommand) :
    List UInt32 := games.scanl (ratedBy ratingAfter) startRating

/-- The row that the games of an account make. -/
structure RowOf (ratingAfter : RatingAfter) (account : Account)
    (games : List RecordCommand) (row : LadderRow) : Prop where
  name : row.name = account.name
  wins : row.wins.toNat = outcomes games .win
  losses : row.losses.toNat = outcomes games .loss
  disconnects : row.disconnects.toNat = outcomes games .disconnect
  rating : row.rating = games.foldl (ratedBy ratingAfter) startRating
  highRating : row.highRating ∈ ratings ratingAfter games ∧
    ∀ r ∈ ratings ratingAfter games, r ≤ row.highRating

theorem LeagueRecord.run_count (r : LeagueRecord) (games : List RecordCommand) (o : GameOutcome) :
    ((run (LeagueRecord.play ratingAfter) r games).count o).toNat =
      min ((r.count o).toNat + outcomes games o) (2 ^ 64 - 1) := by
  induction games generalizing r with
  | nil =>
    have hmax : (r.count o).toNat < 2 ^ 64 := (r.count o).toNat_lt
    simp only [run_nil, outcomes, List.countP_nil, Nat.add_zero]
    omega
  | cons c games ih =>
    rw [run_cons, ih, outcomes, outcomes, List.countP_cons, play]
    by_cases ho : c.outcome = o
    · subst ho
      simp only [Function.update_self, toNat_saturatingAdd64, decide_true, if_true]
      change min (min ((r.count c.outcome).toNat + 1) (2 ^ 64 - 1) + _) _ = _
      omega
    · simp only [Function.update_of_ne (Ne.symm ho), ho, decide_false, Bool.false_eq_true,
        if_false, Nat.add_zero]

theorem LeagueRecord.run_rating (r : LeagueRecord) (games : List RecordCommand) :
    (run (LeagueRecord.play ratingAfter) r games).rating =
      games.foldl (ratedBy ratingAfter) r.rating := by
  induction games generalizing r with
  | nil => rfl
  | cons c games ih => exact ih _

theorem LeagueRecord.play_highRating (ratingAfter : RatingAfter)
    {r : LeagueRecord} (hr : r.rating ≤ r.highRating)
    (c : RecordCommand) :
    ((r.play ratingAfter c).highRating = r.highRating ∨
      (r.play ratingAfter c).highRating = (r.play ratingAfter c).rating) ∧
    r.highRating ≤ (r.play ratingAfter c).highRating ∧
    (r.play ratingAfter c).rating ≤ (r.play ratingAfter c).highRating := by
  cases c with
  | game account product outcome => exact ⟨Or.inl rfl, UInt32.le_refl _, hr⟩
  | ladderGame account product league outcome opponent now =>
    change ((if r.highRating ≤ _ then _ else r.highRating) = _ ∨
      (if r.highRating ≤ _ then _ else r.highRating) = _) ∧
        r.highRating ≤ (if r.highRating ≤ _ then _ else r.highRating) ∧
          _ ≤ (if r.highRating ≤ _ then _ else r.highRating)
    split
    · rename_i hle
      exact ⟨Or.inr rfl, hle, UInt32.le_refl _⟩
    · rename_i hlt
      exact ⟨Or.inl rfl, UInt32.le_refl _, UInt32.le_of_lt (UInt32.not_le.mp hlt)⟩

theorem LeagueRecord.run_highRating (ratingAfter : RatingAfter)
    {r : LeagueRecord} (hr : r.rating ≤ r.highRating)
    (games : List RecordCommand) :
    let high := (run (LeagueRecord.play ratingAfter) r games).highRating
    (high = r.highRating ∨ high ∈ games.scanl (ratedBy ratingAfter) r.rating) ∧
      r.highRating ≤ high ∧ ∀ x ∈ games.scanl (ratedBy ratingAfter) r.rating, x ≤ high := by
  induction games generalizing r with
  | nil =>
    refine ⟨Or.inl rfl, UInt32.le_refl _, fun x hx => ?_⟩
    rw [List.scanl_nil, List.mem_singleton] at hx
    exact hx ▸ hr
  | cons c games ih =>
    obtain ⟨hnew, hraised, hcovers⟩ := play_highRating ratingAfter hr c
    obtain ⟨hfrom, hhigher, hall⟩ := ih hcovers
    have hscan : (c :: games).scanl (ratedBy ratingAfter) r.rating =
        r.rating :: games.scanl (ratedBy ratingAfter) (r.play ratingAfter c).rating :=
      List.scanl_cons ..
    rw [hscan]
    refine ⟨?_, UInt32.le_trans hraised hhigher, fun x hx => ?_⟩
    · rcases hfrom with hsame | hmem
      · rcases hnew with hold | hrated
        · exact Or.inl (hsame.trans hold)
        · refine Or.inr (List.mem_cons_of_mem _ ?_)
          have hhead := List.head_mem (List.scanl_ne_nil (f := ratedBy ratingAfter) (l := games)
            (b := (r.play ratingAfter c).rating))
          rw [List.head_scanl] at hhead
          change (run (play ratingAfter) (r.play ratingAfter c) games).highRating ∈ _
          rw [hsame, hrated]
          exact hhead
      · exact Or.inr (List.mem_cons_of_mem _ hmem)
    · rcases List.mem_cons.mp hx with rfl | hmem
      · exact UInt32.le_trans hr (UInt32.le_trans hraised hhigher)
      · exact hall x hmem

/-! ## Rows -/

/-- The accounts of the store in the order of their ids. -/
def accountsOf (s : MemoryStorage) : List Account :=
  (accountIds s).filterMap fun id => s.accounts.lookup id

theorem listAccounts_eq (s : MemoryStorage) (offset : Nat) :
    s.listAccounts offset accountPage =
      (.ok ((((accountIds s).drop offset).take accountPage).filterMap
        fun id => s.accounts.lookup id), s) := rfl

/-- The walk misses no account. -/
theorem ladderRowsFrom_eq {s : MemoryStorage} (hs : s.Tidy) (p : Text) (l : League) (offset : Nat) :
    ladderRowsFrom p l s offset =
      (((accountIds s).drop offset).filterMap fun id => s.accounts.lookup id).filterMap
        (ladderRow p l s) := by
  generalize hleft : (accountIds s).length - offset = left
  induction left using Nat.strongRecOn generalizing offset with
  | ind left ih =>
    obtain ⟨page, hpage, hids⟩ := listAccounts_ids hs offset
    have hlen := congrArg List.length hids
    simp only [List.length_map, List.length_take, List.length_drop] at hlen
    have haccounts := (Except.ok.inj (Prod.mk.inj ((listAccounts_eq s offset).symm.trans hpage)).1)
    rw [ladderRowsFrom]
    split
    · rename_i heq
      rw [hpage] at heq
      cases heq
    · rename_i heq
      rw [hpage] at heq
      cases heq
      have hnil : (accountIds s).drop offset = [] := by
        rcases List.take_eq_nil_iff.mp hids.symm with h0 | hnil
        · exact absurd h0 (by decide)
        · exact hnil
      rw [hnil]
      rfl
    · rename_i account rest _ heq
      rw [hpage] at heq
      cases heq
      have hsplit : ((accountIds s).drop offset).take accountPage ++
          (accountIds s).drop (offset + (account :: rest).length) =
            (accountIds s).drop offset := by
        rw [List.take_eq_take_min, List.length_drop, ← hlen, ← List.drop_drop,
          List.take_append_drop]
      simp only [List.length_cons] at hlen
      rw [ih ((accountIds s).length - (offset + (account :: rest).length))
        (by simp only [List.length_cons]; omega) _ rfl, ← hsplit, List.filterMap_append,
        List.filterMap_append, haccounts]

theorem ladderRows_eq {s : MemoryStorage} (hs : s.Tidy) (p : Text) (l : League) :
    ladderRows p l s = (accountsOf s).filterMap (ladderRow p l s) := ladderRowsFrom_eq hs p l 0

theorem ladderRow_eq (p : Text) (l : League) (s : MemoryStorage) (account : Account) :
    ladderRow p l s account =
      if 0 < (readRow p l account.name (attrsOf s account.id)).games then
        some (readRow p l account.name (attrsOf s account.id)) else none := by
  have hread (leaf : Text) (h : recordKey p l leaf ∈ rowKeys p l) :
      numberAt (Map.pick (attrsOf s account.id) ∅ (rowKeys p l)) (recordKey p l leaf) =
        numberAt (attrsOf s account.id) (recordKey p l leaf) := numberAt_pick _ h
  have hrow : readRow p l account.name (Map.pick (attrsOf s account.id) ∅ (rowKeys p l)) =
      readRow p l account.name (attrsOf s account.id) := by
    simp only [readRow]
    rw [hread "wins".toList (.head _), hread "losses".toList (.tail _ (.head _)),
      hread "disconnects".toList (.tail _ (.tail _ (.head _))),
      hread "rating".toList (.tail _ (.tail _ (.tail _ (.head _)))),
      hread "high rating".toList (.tail _ (.tail _ (.tail _ (.tail _ (.head _))))),
      hread "last game".toList (.tail _ (.tail _ (.tail _ (.tail _ (.tail _ (.head _))))))]
  rw [ladderRow, MemoryStorage.attrsGet_eq]
  change (if 0 < (readRow p l account.name (Map.pick (attrsOf s account.id) ∅ (rowKeys p l))).games
    then some (readRow p l account.name (Map.pick (attrsOf s account.id) ∅ (rowKeys p l)))
    else none) = _
  rw [hrow]

/-- No account has a number in a record. -/
def Unplayed (s : MemoryStorage) : Prop :=
  ∀ id p l, ∀ leaf ∈ recordLeaves, (attrsOf s id).lookup (recordKey p l leaf) = none

theorem Unplayed.recordOf_eq {s : MemoryStorage} (h : Unplayed s) (id : AccountId) (p : Text)
    (l : League) : recordOf p l (attrsOf s id) = .new := by
  have hnone {leaf : Text} (hleaf : leaf ∈ recordLeaves) :
      numberAt (attrsOf s id) (recordKey p l leaf) = none := by
    rw [numberAt, h id p l leaf hleaf, Option.bind_none]
  apply LeagueRecord.ext
  · funext o
    simp only [recordOf, hnone (leaf_mem o)]
    rfl
  · simp only [recordOf, hnone rating_mem]
    rfl
  · simp only [recordOf, hnone highRating_mem]
    rfl

theorem recorded_accounts (ratingAfter : RatingAfter) (s : MemoryStorage)
    (history : List RecordCommand) :
    (recorded ratingAfter s history).accounts = s.accounts ∧
      (recorded ratingAfter s history).characterList = s.characterList := by
  induction history generalizing s with
  | nil => exact ⟨rfl, rfl⟩
  | cons c history ih =>
    obtain ⟨haccounts, hcharacters⟩ := ih (c.apply ratingAfter s)
    have hstep : (c.apply ratingAfter s).accounts = s.accounts ∧
        (c.apply ratingAfter s).characterList = s.characterList := by
      rw [c.apply_eq]
      exact ⟨rfl, rfl⟩
    exact ⟨haccounts.trans hstep.1, hcharacters.trans hstep.2⟩

theorem tidy_recorded {s : MemoryStorage} (hs : s.Tidy) (history : List RecordCommand) :
    (recorded ratingAfter s history).Tidy := by
  obtain ⟨haccounts, hcharacters⟩ := recorded_accounts ratingAfter s history
  refine hs.map (f := id) (fun _ => rfl) (fun _ => rfl) ?_ haccounts
  rw [hcharacters, List.map_id]

theorem accountsOf_recorded (s : MemoryStorage) (history : List RecordCommand) :
    accountsOf (recorded ratingAfter s history) = accountsOf s := by
  rw [accountsOf, accountIds, (recorded_accounts ratingAfter s history).1]
  rfl

section History

variable {p : Text} {l : League} {s : MemoryStorage} {history : List RecordCommand}

/-- No game of an account's record is of another spelling of the product. -/
def Spelled (history : List RecordCommand) (id : AccountId) (p : Text) (l : League) : Prop :=
  ∀ c ∈ history, c.account = id → c.league = l → SameKeys c.product p → c.product = p

theorem recordOf_recorded (ratingAfter : RatingAfter) (h : Unplayed s) (id : AccountId)
    (hspelling : Spelled history id p l) :
    recordOf p l (attrsOf (recorded ratingAfter s history) id) =
      run (LeagueRecord.play ratingAfter) .new (gamesOf history id p l) := by
  have hgames : history.filter (RecordCommand.isIn id p l) = gamesOf history id p l := by
    apply List.filter_congr
    intro c hc
    refine decide_eq_decide.mpr (and_congr_right fun haccount => and_congr_left fun hleague => ?_)
    exact ⟨hspelling c hc haccount hleague, fun heq => congrArg (List.map normaliseChar) heq⟩
  rw [← hgames, ← h.recordOf_eq id p l]
  exact @run_filter _ _ _ _ (fun s => recordOf p l (attrsOf s id)) _ (RecordCommand.isIn id p l)
    (recordOf_step id) s history

/-- The counts of a league fit a `u32`. -/
def Countable (games : List RecordCommand) : Prop := ∀ o, outcomes games o < 2 ^ 32

theorem rowOf_readRow (ratingAfter : RatingAfter) (h : Unplayed s) (account : Account)
    (hspelling : Spelled history account.id p l)
    (hcounts : Countable (gamesOf history account.id p l)) :
    RowOf ratingAfter account (gamesOf history account.id p l)
      (readRow p l account.name (attrsOf (recorded ratingAfter s history) account.id)) := by
  have hrecord := recordOf_recorded ratingAfter h account.id hspelling
  have hcount (o : GameOutcome) : ((recordOf p l
      (attrsOf (recorded ratingAfter s history) account.id)).count o).toUInt32.toNat =
        outcomes (gamesOf history account.id p l) o := by
    have hfits := hcounts o
    rw [hrecord, UInt64.toNat_toUInt32, LeagueRecord.run_count]
    change min (0 + _) _ % _ = _
    omega
  obtain ⟨hheld, -, hlargest⟩ := LeagueRecord.run_highRating ratingAfter (r := .new)
    (UInt32.le_refl _) (gamesOf history account.id p l)
  have hhigh : (readRow p l account.name
      (attrsOf (recorded ratingAfter s history) account.id)).highRating =
        (run (LeagueRecord.play ratingAfter) .new (gamesOf history account.id p l)).highRating :=
    congrArg LeagueRecord.highRating hrecord
  refine ⟨rfl, hcount .win, hcount .loss, hcount .disconnect, ?_, ?_, ?_⟩
  · exact (congrArg LeagueRecord.rating hrecord).trans (LeagueRecord.run_rating _ _)
  · rw [hhigh]
    rcases hheld with hnew | hmem
    · rw [hnew]
      have hhead := List.head_mem (List.scanl_ne_nil (f := ratedBy ratingAfter)
        (l := gamesOf history account.id p l) (b := startRating))
      rw [List.head_scanl] at hhead
      exact hhead
    · exact hmem
  · rw [hhigh]
    exact hlargest

def counted (games : List RecordCommand) : Nat :=
  outcomes games .win + outcomes games .loss + outcomes games .disconnect

theorem games_pos_iff (ratingAfter : RatingAfter) (h : Unplayed s) (account : Account)
    (hspelling : Spelled history account.id p l)
    (hcounts : Countable (gamesOf history account.id p l)) :
    0 < (readRow p l account.name
      (attrsOf (recorded ratingAfter s history) account.id)).games ↔
        counted (gamesOf history account.id p l) % 2 ^ 32 ≠ 0 := by
  obtain ⟨-, hwins, hlosses, hdisconnects, -, -⟩ :=
    rowOf_readRow ratingAfter h account hspelling hcounts
  rw [UInt32.lt_iff_toNat_lt, LadderRow.games, UInt32.toNat_add, UInt32.toNat_add, hwins, hlosses,
    hdisconnects, Nat.mod_add_mod, UInt32.toNat_zero, Nat.pos_iff_ne_zero]
  rfl

theorem ne_nil_of_counted {games : List RecordCommand} (h : counted games % 2 ^ 32 ≠ 0) :
    games ≠ [] := by
  rintro rfl
  exact h rfl

end History

/-- The rows are the accounts with games, each with what its games make. -/
def RowsAre (ratingAfter : RatingAfter) (s : MemoryStorage)
    (history : List RecordCommand) (p : Text) (l : League) : Prop :=
  List.Forall₂ (fun account row => RowOf ratingAfter account (gamesOf history account.id p l) row)
    ((accountsOf s).filter fun account => gamesOf history account.id p l ≠ [])
    (ladderRows p l (recorded ratingAfter s history))

/-- Of a list filtered once, each element with its image is what the list filtered by a weaker
condition has, just if that is no weaker on the list. -/
theorem forall₂_filter_iff {α β : Type} {R : α → β → Prop} {f : α → β} {P Q : α → Bool}
    {xs : List α} (hR : ∀ x ∈ xs, R x (f x)) (hPQ : ∀ x ∈ xs, P x = true → Q x = true) :
    List.Forall₂ R (xs.filter Q) ((xs.filter P).map f) ↔ ∀ x ∈ xs, Q x = true → P x = true := by
  constructor
  · intro h x hx hQ
    have hlen := h.length_eq
    rw [List.length_map] at hlen
    have hboth : (xs.filter Q).filter P = xs.filter P := by
      rw [List.filter_filter]
      refine List.filter_congr fun y hy => ?_
      cases hP : P y with
      | false => rfl
      | true => exact hPQ y hy hP
    rw [← hboth] at hlen
    exact List.length_filter_eq_length_iff.mp hlen.symm x (List.mem_filter.mpr ⟨hx, hQ⟩)
  · intro h
    have hsame : xs.filter Q = xs.filter P :=
      List.filter_congr fun x hx => Bool.eq_iff_iff.mpr ⟨h x hx, hPQ x hx⟩
    rw [hsame, List.forall₂_map_right_iff]
    exact List.forall₂_same.mpr fun x hx => hR x (List.mem_of_mem_filter hx)

theorem rowsAre_iff {s : MemoryStorage} (hs : s.Tidy) (hfresh : Unplayed s)
    {history : List RecordCommand} {p : Text} {l : League}
    (hcounts : ∀ account ∈ accountsOf s, Countable (gamesOf history account.id p l))
    (hspelling : ∀ account ∈ accountsOf s, Spelled history account.id p l) :
    RowsAre ratingAfter s history p l ↔ ∀ account ∈ accountsOf s,
      gamesOf history account.id p l ≠ [] →
        counted (gamesOf history account.id p l) % 2 ^ 32 ≠ 0 := by
  let row (account : Account) : LadderRow :=
    readRow p l account.name (attrsOf (recorded ratingAfter s history) account.id)
  have hrows : ladderRows p l (recorded ratingAfter s history) =
      ((accountsOf s).filter fun account =>
        counted (gamesOf history account.id p l) % 2 ^ 32 ≠ 0).map row := by
    rw [ladderRows_eq (tidy_recorded hs history), accountsOf_recorded, ← List.filterMap_eq_map,
      List.filterMap_filter]
    apply List.filterMap_congr
    intro account haccount
    have hpos := games_pos_iff ratingAfter hfresh account (hspelling account haccount)
      (hcounts account haccount)
    rw [ladderRow_eq, if_congr hpos rfl rfl]
    simp only [decide_eq_true_eq]
    rfl
  rw [RowsAre, hrows, forall₂_filter_iff]
  · simp only [decide_eq_true_eq]
  · intro account haccount
    exact rowOf_readRow ratingAfter hfresh account (hspelling account haccount)
      (hcounts account haccount)
  · intro account _ h
    exact decide_eq_true (ne_nil_of_counted (of_decide_eq_true h))

theorem ladderRow_other {s : MemoryStorage} {account : Account} {c : RecordCommand} {p : Text}
    {l : League} (hother : ¬(c.account = account.id ∧ SameKeys c.product p ∧ c.league = l)) :
    ladderRow p l (c.apply ratingAfter s) account = ladderRow p l s account := by
  have hkept {f : Text} (hf : f ∈ recordLeaves) := numberAt_step_other ratingAfter s hother hf
  have hrow : readRow p l account.name (attrsOf (c.apply ratingAfter s) account.id) =
      readRow p l account.name (attrsOf s account.id) := by
    have hwins := hkept (f := "wins".toList) (leaf_mem .win)
    have hlosses := hkept (f := "losses".toList) (leaf_mem .loss)
    have hdisconnects := hkept (f := "disconnects".toList) (leaf_mem .disconnect)
    simp only [readRow]
    rw [hwins, hlosses, hdisconnects, hkept rating_mem, hkept highRating_mem, hkept lastGame_mem]
  rw [ladderRow_eq, ladderRow_eq, hrow]

/-- **Ladder rows are the history of ladder games**, just if every account with a game has one
that the row counts; and no game of another account, product or league changes a row. -/
theorem ladderRows_history_iff (ratingAfter : RatingAfter) {s : MemoryStorage} (hs : s.Tidy)
    (hfresh : Unplayed s) (history : List RecordCommand) (p : Text) (l : League)
    (hcounts : ∀ account ∈ accountsOf s, Countable (gamesOf history account.id p l))
    (hspelling : ∀ account ∈ accountsOf s, Spelled history account.id p l) :
    (RowsAre ratingAfter s history p l ↔ ∀ account ∈ accountsOf s,
      gamesOf history account.id p l ≠ [] →
        counted (gamesOf history account.id p l) % 2 ^ 32 ≠ 0) ∧
    ∀ (account : Account) (c : RecordCommand), Spelled [c] account.id p l →
      ¬(c.account = account.id ∧ c.product = p ∧ c.league = l) →
        ladderRow p l (recorded ratingAfter s (history ++ [c])) account =
          ladderRow p l (recorded ratingAfter s history) account := by
  refine ⟨rowsAre_iff hs hfresh hcounts hspelling, fun account c hspelled hother => ?_⟩
  rw [recorded, run_append]
  refine ladderRow_other fun h => hother ⟨h.1, ?_, h.2.2⟩
  exact hspelled c List.mem_cons_self h.1 h.2.2 h.2.1

/-! ## A drawn game -/

def raynor : Account := ⟨1, "Raynor".toList, .xsha1 (Vector.replicate 20 0), 0⟩

def oneAccount : MemoryStorage :=
  { MemoryStorage.new with accounts := (∅ : Map AccountId Account).insert 1 raynor }

theorem tidy_oneAccount : oneAccount.Tidy where
  names := List.nodup_nil
  owners c hc := by cases hc
  ids id a h := by
    by_cases hid : id = 1
    · subst hid
      rw [oneAccount, Finmap.lookup_insert] at h
      exact Option.some.inj h ▸ rfl
    · rw [oneAccount, Finmap.lookup_insert_of_ne _ hid] at h
      cases h

theorem unplayed_oneAccount : Unplayed oneAccount := fun _ _ _ _ _ => rfl

theorem accountsOf_oneAccount : accountsOf oneAccount = [raynor] := by
  have hids : accountIds oneAccount = [1] := by
    have hkeys : oneAccount.accounts.keys = {1} := rfl
    rw [accountIds, hkeys]
    exact Finset.sort_singleton _ _
  rw [accountsOf, hids]
  rfl

def w2bnGame (outcome : GameOutcome) : RecordCommand :=
  .ladderGame 1 "W2BN".toList .ladder outcome 1000 0

def pointForWin (rating _opponent : UInt32) (outcome : Outcome) : UInt32 :=
  if outcome = .win then rating + 1 else rating

theorem countable_of_length {games : List RecordCommand} (h : games.length < 2 ^ 32) :
    Countable games := fun _ => Nat.lt_of_le_of_lt List.countP_le_length h

theorem countable_gamesOf {history : List RecordCommand} (h : history.length < 2 ^ 32)
    (id : AccountId) (p : Text) (l : League) : Countable (gamesOf history id p l) :=
  countable_of_length (Nat.lt_of_le_of_lt (List.length_filter_le _ _) h)

/-- A ladder game that is drawn and one that is won, and a normal one under another spelling. -/
def threeGames : List RecordCommand :=
  [w2bnGame .draw, .game 1 "w2bn".toList .win, w2bnGame .win]

theorem history_won : RowsAre pointForWin oneAccount threeGames "W2BN".toList .ladder ↔
    ∀ account ∈ accountsOf oneAccount,
      gamesOf threeGames account.id "W2BN".toList .ladder ≠ [] →
        counted (gamesOf threeGames account.id "W2BN".toList .ladder) % 2 ^ 32 ≠ 0 :=
  (ladderRows_history_iff pointForWin tidy_oneAccount unplayed_oneAccount threeGames
    "W2BN".toList .ladder (fun _ _ => countable_gamesOf (by decide) _ _ _)
    (fun _ _ => by simp [Spelled, threeGames, w2bnGame, RecordCommand.product,
      RecordCommand.league])).1

/-- A player who has drawn a ladder game is not listed. -/
theorem drawn_unlisted : accountsOf oneAccount = [raynor] ∧
    gamesOf [w2bnGame .draw] raynor.id "W2BN".toList .ladder = [w2bnGame .draw] ∧
    ladderRows "W2BN".toList .ladder (recorded pointForWin oneAccount [w2bnGame .draw]) = [] ∧
    ¬RowsAre pointForWin oneAccount [w2bnGame .draw] "W2BN".toList .ladder := by
  have hspelling (account : Account) :
      Spelled [w2bnGame .draw] account.id "W2BN".toList .ladder :=
    List.forall_mem_singleton.mpr fun _ _ _ => rfl
  have hcountable (account : Account) :
      Countable (gamesOf [w2bnGame .draw] account.id "W2BN".toList .ladder) :=
    countable_gamesOf (by decide) _ _ _
  have hpos := games_pos_iff pointForWin unplayed_oneAccount raynor (hspelling raynor)
    (hcountable raynor)
  refine ⟨accountsOf_oneAccount, rfl, ?_, fun hrows => ?_⟩
  · rw [ladderRows_eq (tidy_recorded tidy_oneAccount _), accountsOf_recorded,
      accountsOf_oneAccount, List.filterMap_cons, ladderRow_eq, if_neg]
    · rfl
    · exact fun h => hpos.mp h rfl
  · rw [rowsAre_iff tidy_oneAccount unplayed_oneAccount (fun account _ => hcountable account)
      (fun account _ => hspelling account), accountsOf_oneAccount] at hrows
    exact hrows raynor List.mem_cons_self (List.cons_ne_nil _ _) rfl

end CommandCenter.Daemon
