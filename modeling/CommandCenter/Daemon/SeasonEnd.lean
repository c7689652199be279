import Mathlib.Logic.Relation
import Mathlib.Data.List.Forall2
import CommandCenter.Daemon.SeasonFaults
import CommandCenter.Formats.SaveRoundTrip

/-!
# Attempts to end a season

`Node::end_ladder_season` (`crates/bnetccd/src/node.rs`) begins the next season only behind a walk
that did not stop. An attempt that failed is made again, and finds what is left.

* `LadderNode.converted_ended_iff`: which characters keep their save.
* `LadderNode.partly_of_failed`: what attempts leave that fail.
* `LadderNode.season_concluded_iff`: what they do together with one that does not.
* `LadderNode.ends_once`: a season that is over takes nobody off the ladder again.
-/

namespace CommandCenter.Daemon

open Rust CommandCenter.Core Proto.D2 Formats.D2s
open Storage (Account Character CharacterStore MemoryStorage Result StorageError)

/-! ## The node -/

structure Season where
  number : UInt32
  /-- Seconds since the Unix epoch. -/
  started : UInt64
  deriving DecidableEq

structure LadderNode where
  store : CharacterStore
  season : Season

namespace LadderNode

/-- `EndLadderSeason` of the storage actor. -/
def endStored (faults : Faults) (s : CharacterStore) : Result Changed × CharacterStore :=
  ((endSeasonWith faults s.store).1,
    ⟨(endSeasonWith faults s.store).2, (endSeason_swept s.tidy rfl).tidy s.tidy⟩)

/-- `LadderSeasons::begin_next`. -/
def beginNext (season : Season) (now : UInt64) : Season := ⟨season.number + 1, now⟩

/-- The season that ended, the one that began, and how many characters left the ladder. -/
def endLadderSeason (node : LadderNode) (faults : Faults) (now : UInt64) :
    Except Text (Season × Season × Changed) × LadderNode :=
  match endStored faults node.store with
  | (.error e, store) => (.error e.display, { node with store })
  | (.ok n, store) =>
    let begun := beginNext node.season now
    (.ok (node.season, begun, n), ⟨store, begun⟩)

/-- An attempt to end the season that answers `Err`. -/
def Fails (node node' : LadderNode) : Prop :=
  ∃ faults now e, node.endLadderSeason faults now = (.error e, node')

/-! ## Saves -/

/-- The save is there if it was, with the same bytes but for its status, size and checksum. -/
def SaveKept (c c' : Character) : Prop :=
  Option.Rel (SameBut fun i => SizeOrChecksum i ∨ i = 0x24) c'.save c.save

/-- A character that was on the ladder is off it, in its save too, and keeps everything else; any
other one is untouched. -/
structure Converted (c c' : Character) : Prop where
  untouched : hasBit c.status Status.ladder = false → c' = c
  fields : hasBit c.status Status.ladder = true →
    c' = { c with status := c.status &&& ~~~Status.ladder, save := c'.save }
  offSave : hasBit c.status Status.ladder = true → ¬ SavedOnLadder c'
  save : hasBit c.status Status.ladder = true → SaveKept c c'

/-- The save of a character on the ladder is written as plainly as it is written again. -/
def PlainlySaved (c : Character) : Prop :=
  hasBit c.status Status.ladder = true →
    ∀ bytes ∈ c.save, (Save.parse bytes).isOk = true → WrittenPlainly bytes

theorem saveKept_iff (c : Character) : SaveKept c (offLadder c) ↔
    ∀ bytes ∈ c.save, (Save.parse bytes).isOk = true → WrittenPlainly bytes := by
  cases hsave : c.save with
  | none =>
    have hoff : (offLadder c).save = none := by
      simp only [offLadder, hsave, Option.map_none]
    rw [SaveKept, hoff, hsave]
    exact iff_of_true .none fun bytes h => by cases h
  | some bytes =>
    have hall : (∀ other ∈ some bytes, (Save.parse other).isOk = true → WrittenPlainly other) ↔
        ((Save.parse bytes).isOk = true → WrittenPlainly bytes) :=
      ⟨fun h => h bytes rfl, fun h other hother => by
        obtain rfl := Option.some.inj hother
        exact h⟩
    rw [hall]
    cases hparse : Save.parse bytes with
    | error e =>
      have hoff : (offLadder c).save = some bytes := by
        simp only [offLadder, hsave, Option.map_some, hparse]
      rw [SaveKept, hoff, hsave]
      rw [Option.rel_some_some]
      exact iff_of_true (SameBut.refl bytes) fun h => by cases h
    | ok save =>
      have hoff : (offLadder c).save =
          some (save.setStatus (save.status &&& ~~~Status.ladder)).toBytes := by
        simp only [offLadder, hsave, Option.map_some, hparse]
      have hplain := setStatus_unchanged_iff hparse (save.status &&& ~~~Status.ladder)
      rw [SaveKept, hoff, hsave, Option.rel_some_some, hplain]
      exact ⟨fun h _ => h, fun h => h rfl⟩

theorem converted_ended_iff (c : Character) : Converted c (ended c) ↔ PlainlySaved c := by
  by_cases hladder : hasBit c.status Status.ladder = true
  · have hended : ended c = offLadder c := if_pos hladder
    rw [hended, PlainlySaved, ← saveKept_iff]
    constructor
    · exact fun h => h.save
    · intro h
      refine ⟨fun hnot => ?_, fun _ => rfl, fun _ => not_savedOnLadder_offLadder c, h⟩
      rw [hladder] at hnot
      cases hnot
  · have hended : ended c = c := if_neg hladder
    rw [hended]
    exact iff_of_true ⟨fun _ => rfl, fun h => absurd h hladder, fun h => absurd h hladder,
      fun h => absurd h hladder⟩ fun h => absurd h hladder

/-! ## Attempts -/

/-- What an attempt that answers `Err` leaves: some characters are ended, and the season is as it
was. -/
theorem Fails.partly {node node' : LadderNode} (h : node.Fails node') :
    node'.season = node.season ∧ ∃ f : Character → Character, (∀ d, f d = d ∨ f d = ended d) ∧
      node'.store.list = node.store.list.map f := by
  obtain ⟨faults, now, e, h⟩ := h
  unfold endLadderSeason at h
  split at h
  · rename_i e' store hstored
    obtain ⟨_, rfl⟩ := Prod.mk.inj h
    obtain ⟨f, hf, hstore⟩ := (endSeason_swept node.store.tidy rfl).ended
    obtain rfl : _ = store := congrArg Prod.snd hstored
    exact ⟨rfl, f, hf, congrArg MemoryStorage.characterList hstore⟩
  · cases h

theorem partly_of_failed {node node' : LadderNode} (h : Relation.ReflTransGen Fails node node') :
    node'.season = node.season ∧ ∃ f : Character → Character, (∀ d, f d = d ∨ f d = ended d) ∧
      node'.store.list = node.store.list.map f := by
  induction h with
  | refl => exact ⟨rfl, id, fun _ => Or.inl rfl, (List.map_id _).symm⟩
  | tail _ hlast ih =>
    obtain ⟨hseason, f, hf, hlist⟩ := ih
    obtain ⟨hseason', g, hg, hlist'⟩ := hlast.partly
    refine ⟨hseason'.trans hseason, g ∘ f, fun d => ?_, ?_⟩
    · rcases hf d with hfd | hfd <;> rcases hg (f d) with hgd | hgd
      · exact Or.inl (hgd.trans hfd)
      · exact Or.inr (hgd.trans (congrArg _ hfd))
      · exact Or.inr (hgd.trans hfd)
      · refine Or.inr (hgd.trans ?_)
        rw [hfd, ended_ended]
    · rw [hlist', hlist, List.map_map]

/-- What an attempt that answers `Ok` does. -/
theorem endLadderSeason_ok {node final : LadderNode} {faults : Faults} {now : UInt64}
    {was begun : Season} {n : Changed}
    (h : node.endLadderSeason faults now = (.ok (was, begun, n), final)) :
    final.store.list = node.store.list.map ended ∧ final.season = beginNext node.season now ∧
      n.1 = left softLadder node.store.store ∧ n.2 = left hardLadder node.store.store := by
  unfold endLadderSeason at h
  split at h
  · cases h
  · rename_i n' store hstored
    obtain ⟨hanswer, rfl⟩ := Prod.mk.inj h
    obtain ⟨rfl, hrest⟩ := Prod.mk.inj (Except.ok.inj hanswer)
    obtain ⟨rfl, rfl⟩ := Prod.mk.inj hrest
    have hresult : (endSeasonWith faults node.store.store).1 = .ok n' :=
      congrArg Prod.fst hstored
    have hstore : store = _ := (congrArg Prod.snd hstored).symm
    obtain ⟨hall, hsoft, hhard⟩ := endSeason_ok (n := n') node.store.tidy (Prod.ext hresult rfl)
    refine ⟨?_, rfl, hsoft, hhard⟩
    rw [hstore]
    exact congrArg MemoryStorage.characterList hall

/-- What the end of a season is for: from `node`, over attempts that failed up to `start`, by one
that did not fail. -/
structure Concluded (node start final : LadderNode) (n : Changed) : Prop where
  offLadder : ∀ c ∈ final.store.list, hasBit c.status Status.ladder = false
  softcore : n.1.toNat = start.store.list.countP softLadder
  hardcore : n.2.toNat = start.store.list.countP hardLadder
  converted : List.Forall₂ Converted node.store.list final.store.list
  partly : List.Forall₂ (fun c c' => c' = c ∨ Converted c c') node.store.list start.store.list
  remaining : List.Forall₂ Converted start.store.list final.store.list
  season : start.season = node.season ∧ final.season.number = node.season.number + 1

/-- The counters are large enough, and the saves come back as they were. -/
structure Endable (node start : LadderNode) : Prop where
  softcore : start.store.list.countP softLadder < 2 ^ 32
  hardcore : start.store.list.countP hardLadder < 2 ^ 32
  saves : ∀ c ∈ node.store.list, PlainlySaved c

theorem toNat_left_iff (p : Character → Bool) (s : MemoryStorage) :
    (left p s).toNat = s.characterList.countP p ↔ s.characterList.countP p < 2 ^ 32 := by
  rw [left, UInt32.toNat_ofNat']
  constructor
  · intro h
    rw [← h]
    exact Nat.mod_lt _ (by decide)
  · exact Nat.mod_eq_of_lt

theorem forall₂_map_iff {R : Character → Character → Prop} {f : Character → Character}
    {l : List Character} : List.Forall₂ R l (l.map f) ↔ ∀ c ∈ l, R c (f c) := by
  rw [List.forall₂_map_right_iff, List.forall₂_same]

/-- **The season ends for exactly the ladder characters**, over any attempts that fail before, if
the counters are large enough and the saves of those characters come back as they were, and only
then. -/
theorem season_concluded_iff {node start final : LadderNode} {faults : Faults} {now : UInt64}
    {was begun : Season} {n : Changed} (hfailed : Relation.ReflTransGen Fails node start)
    (hok : start.endLadderSeason faults now = (.ok (was, begun, n), final)) :
    Concluded node start final n ↔ Endable node start := by
  obtain ⟨hseason, f, hf, hstart⟩ := partly_of_failed hfailed
  obtain ⟨hfinal, hbegun, hsoft, hhard⟩ := endLadderSeason_ok hok
  have hended (c : Character) : ended (f c) = ended c := by
    rcases hf c with hc | hc
    · rw [hc]
    · rw [hc, ended_ended]
  have hfinal' : final.store.list = node.store.list.map ended := by
    rw [hfinal, hstart, List.map_map]
    exact List.map_congr_left fun c _ => hended c
  have hsoft' : n.1.toNat = start.store.list.countP softLadder ↔
      start.store.list.countP softLadder < 2 ^ 32 := by
    rw [hsoft]
    exact toNat_left_iff softLadder start.store.store
  have hhard' : n.2.toNat = start.store.list.countP hardLadder ↔
      start.store.list.countP hardLadder < 2 ^ 32 := by
    rw [hhard]
    exact toNat_left_iff hardLadder start.store.store
  constructor
  · intro h
    refine ⟨hsoft'.mp h.softcore, hhard'.mp h.hardcore, fun c hc => ?_⟩
    have hconverted := h.converted
    rw [hfinal', forall₂_map_iff] at hconverted
    exact (converted_ended_iff c).mp (hconverted c hc)
  · intro h
    refine ⟨?_, hsoft'.mpr h.softcore, hhard'.mpr h.hardcore, ?_, ?_, ?_, hseason, ?_⟩
    · rw [hfinal']
      intro c hc
      obtain ⟨d, _, rfl⟩ := List.mem_map.mp hc
      exact ladder_ended d
    · rw [hfinal', forall₂_map_iff]
      exact fun c hc => (converted_ended_iff c).mpr (h.saves c hc)
    · rw [hstart, forall₂_map_iff]
      intro c hc
      rcases hf c with hfc | hfc
      · exact Or.inl hfc
      · rw [hfc]
        exact Or.inr ((converted_ended_iff c).mpr (h.saves c hc))
    · rw [hfinal, forall₂_map_iff]
      intro c hc
      rw [converted_ended_iff]
      rw [hstart] at hc
      obtain ⟨d, hd, rfl⟩ := List.mem_map.mp hc
      rcases hf d with hfd | hfd
      · rw [hfd]
        exact h.saves d hd
      · rw [hfd]
        intro hladder
        rw [ladder_ended] at hladder
        cases hladder
    · rw [hbegun, beginNext, hseason]

/-- **A season that is over takes nobody off the ladder again**, whatever attempts fail before a
later one that does not. -/
theorem ends_once {node closed start final : LadderNode} {faults faults' : Faults}
    {now now' : UInt64} {was begun was' begun' : Season} {n n' : Changed}
    (hok : node.endLadderSeason faults now = (.ok (was, begun, n), closed))
    (hfailed : Relation.ReflTransGen Fails closed start)
    (hagain : start.endLadderSeason faults' now' = (.ok (was', begun', n'), final)) :
    final.store.list = closed.store.list ∧ n' = (0, 0) := by
  obtain ⟨-, f, hf, hstart⟩ := partly_of_failed hfailed
  obtain ⟨hfinal, -, hsoft, hhard⟩ := endLadderSeason_ok hagain
  have hoff : ∀ c ∈ closed.store.list, hasBit c.status Status.ladder = false ∧ ended c = c := by
    rw [(endLadderSeason_ok hok).1, List.forall_mem_map]
    exact fun c _ => ⟨ladder_ended c, ended_ended c⟩
  have hsame : start.store.list = closed.store.list := by
    rw [hstart]
    refine (List.map_congr_left fun c hc => ?_).trans (List.map_id _)
    exact (hf c).elim id fun h => h.trans (hoff c hc).2
  have hnone (p : Character → Bool) (hp : ∀ c, p c = true → hasBit c.status Status.ladder = true) :
      left p start.store.store = 0 := by
    have hcount : start.store.list.countP p = 0 := by
      rw [hsame, List.countP_eq_zero]
      intro c hc h
      have hladder := hp c h
      rw [(hoff c hc).1] at hladder
      cases hladder
    exact congrArg UInt32.ofNat hcount
  refine ⟨?_, Prod.ext (hsoft.trans (hnone _ ?_)) (hhard.trans (hnone _ ?_))⟩
  · rw [hfinal, hsame]
    exact (List.map_congr_left fun c hc => (hoff c hc).2).trans (List.map_id _)
  · exact fun c h => (Bool.and_eq_true_iff.mp h).1
  · exact fun c h => (Bool.and_eq_true_iff.mp h).1

theorem fails_self (node : LadderNode) : node.Fails node := by
  refine ⟨fun _ => some .noSuchAccount, 0, StorageError.display .noSuchAccount, ?_⟩
  have hwalk := endSeasonWith_fails node.store.store .noSuchAccount
  have hstored : endStored (fun _ => some .noSuchAccount) node.store =
      (.error .noSuchAccount, node.store) := by
    unfold endStored
    simp only [hwalk]
  rw [endLadderSeason, hstored]

/-- Over a backend that does not fail, the season ends. -/
theorem exists_ok (node : LadderNode) (now : UInt64) : ∃ was begun n final,
    node.endLadderSeason (fun _ => none) now = (.ok (was, begun, n), final) := by
  obtain ⟨n, hall⟩ := endLadderSeason_eq node.store.tidy
  have hresult : (endStored (fun _ => none) node.store).1 = .ok n := by
    show (endSeasonWith _ _).1 = _
    rw [endSeasonWith_sound, hall]
  unfold endLadderSeason
  split
  · rename_i hstored
    rw [hstored] at hresult
    cases hresult
  · exact ⟨_, _, _, _, rfl⟩

/-! ## Two characters -/

def owner : Account := ⟨1, "owner".toList, .xsha1 (.replicate 20 0), 0⟩

/-- A character on the ladder, with a save of its status. -/
def ladderCharacter (name : String) (status : UInt8) : Character :=
  ⟨1, name.toList, 0, status, 1, 0, 0, 5, some (heroFile status).bytes⟩

/-- A node with two characters on the ladder, of which one is hardcore. -/
def climbers : LadderNode where
  store := .ofAccount owner [ladderCharacter "hero" Status.ladder,
    ladderCharacter "diehard" (Status.ladder ||| Status.hardcore)] (by decide) (by decide)
  season := ⟨1, 0⟩

theorem plainlySaved_ladderCharacter (name : String) (status : UInt8) :
    PlainlySaved (ladderCharacter name status) := by
  intro _ bytes hbytes _
  obtain rfl := Option.some.inj hbytes
  obtain ⟨_, _, _, hplain⟩ := parse_heroFile status
  exact hplain

/-- The backend fails when the second character is stored. -/
def haltsAtSecond : Faults := fun call => if call = 3 then some .noSuchAccount else none

def halfEnded : LadderNode := (climbers.endLadderSeason haltsAtSecond 7).2

theorem fails_climbers : climbers.Fails halfEnded := by
  refine ⟨haltsAtSecond, 7, StorageError.display .noSuchAccount, ?_⟩
  exact Prod.ext (by decide +kernel) rfl

/-- Both leave the ladder, over an attempt that stops between them. -/
theorem season_concluded_hero : ∃ final n, Concluded climbers halfEnded final n := by
  obtain ⟨was, begun, n, final, hok⟩ := halfEnded.exists_ok 7
  refine ⟨final, n, (season_concluded_iff (.single fails_climbers) hok).mpr ?_⟩
  refine ⟨by decide +kernel, by decide +kernel, List.forall_mem_cons.mpr ⟨?_, ?_⟩⟩
  · exact plainlySaved_ladderCharacter _ _
  · exact List.forall_mem_singleton.mpr (plainlySaved_ladderCharacter _ _)

/-- They leave the ladder once. -/
theorem ends_once_hero : ∃ (closed final : LadderNode) (was begun : Season),
    (climbers.endLadderSeason (fun _ => none) 7).2 = closed ∧
      closed.endLadderSeason (fun _ => none) 9 = (.ok (was, begun, (0, 0)), final) ∧
      final.store.list = closed.store.list := by
  obtain ⟨_, _, _, closed, hok⟩ := climbers.exists_ok 7
  obtain ⟨was, begun, n, final, hagain⟩ := closed.exists_ok 9
  obtain ⟨hlist, rfl⟩ := ends_once hok (.single (fails_self closed)) hagain
  exact ⟨closed, final, was, begun, congrArg Prod.snd hok, hagain, hlist⟩

/-! ## A save that changes -/

/-- A node with one character, which is on the ladder and has this save. -/
def ofSave (save : Option (List UInt8)) : LadderNode where
  store := .ofAccount owner [⟨1, "hero".toList, 0, Status.ladder, 1, 0, 0, 5, save⟩]
    (List.forall_mem_singleton.mpr rfl) (List.nodup_singleton _)
  season := ⟨1, 0⟩

/-- The save of a character with another head of the waypoints does not come back. -/
theorem season_changes_save : ¬ ∀ (node start final : LadderNode) (faults : Faults) (now : UInt64)
    (was begun : Season) (n : Changed), Relation.ReflTransGen Fails node start →
      start.endLadderSeason faults now = (.ok (was, begun, n), final) →
        Concluded node start final n := by
  intro h
  have hhead : [2, 0, 0, 0, 0x50, (0 : UInt8)].length = 6 := rfl
  let node := ofSave (some (emptyFile [2, 0, 0, 0, 0x50, 0]).bytes)
  obtain ⟨was, begun, n, final, hok⟩ := node.exists_ok 7
  have hconverted := (h node node final _ 7 was begun n .refl hok).converted
  rw [(endLadderSeason_ok hok).1, forall₂_map_iff] at hconverted
  have hplain := (converted_ended_iff _).mp (hconverted _ List.mem_cons_self)
  obtain ⟨save, hparse, _⟩ := parse_emptyFile hhead
  have hwritten := hplain (by decide) _ rfl (by rw [hparse]; rfl)
  have hsame := (Layout.waypointHead_bytes (sized_emptyFile hhead).toLengths).symm.trans
    hwritten.waypointHead
  exact absurd hsame (by decide)

end LadderNode

end CommandCenter.Daemon
