import CommandCenter.Core.Ladder
import CommandCenter.Library.Plurality

/-!
# Settling a WarCraft III game

The players of a game report how it went for each of them, from
`crates/bnetcc-core/src/ladder/war3.rs`.

* `outcomeOf_iff`: a player's outcome is the one that wins the vote about the player.
* `settle_congr`: a game settles by its votes alone.
* `settled_by_others`: whose reports count, and for what.
-/

namespace CommandCenter.Core.Ladder.War3

open Rust Library

/-- One player's report of how the game went for one player. -/
structure Report where
  reporter : UInt8
  subject : UInt8
  outcome : Outcome
  deriving DecidableEq

/-- Tie-break order: a lower rank wins a tied vote. -/
def rank : Outcome → Nat
  | .loss => 0
  | .disconnect => 1
  | .draw => 2
  | .win => 3

/-- The reports that count for a player: its own only where nobody else reported on it. -/
def votes (reports : List Report) (player : UInt8) : List Report :=
  let about := reports.filter fun r => r.subject == player
  let others := about.filter fun r => r.reporter != player
  if others.isEmpty then about else others

def count (votes : List Report) (o : Outcome) : Nat :=
  (votes.filter fun r => r.outcome == o).length

def order : List Outcome := [.loss, .disconnect, .draw, .win]

def outcomeOf (reports : List Report) (player : UInt8) : Outcome :=
  let count := count (votes reports player)
  ((maxBy (compareVotes rank count) order).filter fun o => 0 < count o).getD .disconnect

/-- The outcome of each player, if one of them won. -/
def settle (players : List UInt8) (reports : List Report) : Option (List (UInt8 × Outcome)) :=
  let settled := players.map fun player => (player, outcomeOf reports player)
  if settled.any fun p => p.2 == .win then some settled else none

/-! ## Votes -/

/-- Somebody else reported on the player. -/
def Seen (reports : List Report) (player : UInt8) : Prop :=
  ∃ r ∈ reports, r.subject = player ∧ r.reporter ≠ player

instance (reports : List Report) (player : UInt8) : Decidable (Seen reports player) :=
  List.decidableBEx _ reports

/-- The reports of an outcome by others, or by the player if there is none by others. -/
def tally (reports : List Report) (player : UInt8) (o : Outcome) : Nat :=
  reports.countP fun r => r.subject = player ∧ r.outcome = o ∧
    (Seen reports player → r.reporter ≠ player)

/-- The outcome with the most votes, ties broken by rank; without a report, a disconnect. -/
def Settles (reports : List Report) (player : UInt8) (o : Outcome) : Prop :=
  Leads rank (tally reports player) o ∨
    (∀ r ∈ reports, r.subject ≠ player) ∧ o = .disconnect

variable {reports reports' : List Report} {player : UInt8} {players : List UInt8} {o : Outcome}

theorem seen_iff : Seen reports player ↔
    ((reports.filter fun r => r.subject == player).filter fun r => r.reporter != player) ≠ [] := by
  rw [List.filter_filter, Ne, List.filter_eq_nil_iff]
  simp [Seen, and_comm]

theorem count_votes (o : Outcome) : count (votes reports player) o = tally reports player o := by
  unfold count votes tally
  rw [← List.countP_eq_length_filter]
  dsimp only
  split
  · rename_i hempty
    have hseen : ¬ Seen reports player := by
      rw [seen_iff, not_not]
      exact List.isEmpty_iff.mp hempty
    rw [List.countP_filter]
    apply List.countP_congr
    intro r _
    simp [hseen, and_comm]
  · rename_i hsome
    have hseen : Seen reports player := by
      rw [seen_iff]
      exact fun h => hsome (List.isEmpty_iff.mpr h)
    rw [List.countP_filter, List.countP_filter]
    apply List.countP_congr
    intro r _
    simp [hseen, and_comm]

/-- There is a vote if there is a report. -/
theorem exists_tally_pos :
    (∃ o, 0 < tally reports player o) ↔ ∃ r ∈ reports, r.subject = player := by
  simp only [tally, List.countP_pos_iff, decide_eq_true_eq]
  constructor
  · rintro ⟨o, r, hr, hsubject, _⟩
    exact ⟨r, hr, hsubject⟩
  · rintro ⟨r, hr, hsubject⟩
    by_cases hseen : Seen reports player
    · obtain ⟨r', hr', hsubject', hother⟩ := hseen
      exact ⟨r'.outcome, r', hr', hsubject', rfl, fun _ => hother⟩
    · exact ⟨r.outcome, r, hr, hsubject, rfl, fun h => absurd h hseen⟩

theorem rank_injective : Function.Injective rank := by
  intro a b h
  cases a <;> cases b <;> first | rfl | cases h

theorem mem_order (o : Outcome) : o ∈ order := by
  cases o <;> decide

theorem Settles.unique {o' : Outcome} (h : Settles reports player o)
    (h' : Settles reports player o') : o = o' := by
  have hnone (hno : ∀ r ∈ reports, r.subject ≠ player) {a : Outcome}
      (ha : Leads rank (tally reports player) a) : False := by
    obtain ⟨r, hr, hsubject⟩ := exists_tally_pos.mp ⟨a, ha.1⟩
    exact hno r hr hsubject
  rcases h with h | ⟨hno, rfl⟩
  · rcases h' with h' | ⟨hno, rfl⟩
    · exact h.unique h'
    · exact (hnone hno h).elim
  · rcases h' with h' | ⟨_, rfl⟩
    · exact (hnone hno h').elim
    · rfl

theorem outcomeOf_settles (reports : List Report) (player : UInt8) :
    Settles reports player (outcomeOf reports player) := by
  have hcount : count (votes reports player) = tally reports player := funext count_votes
  obtain ⟨best, hbest, hleads, hmax⟩ := maxBy_leads rank_injective
    (tally reports player) .loss [.disconnect, .draw, .win] mem_order
  unfold outcomeOf
  rw [hcount, order]
  dsimp only
  rw [hbest]
  by_cases hpos : 0 < tally reports player best
  · rw [Option.filter_some, if_pos (decide_eq_true hpos)]
    exact Or.inl (hleads hpos)
  · rw [Option.filter_some, if_neg (by simpa using hpos)]
    refine Or.inr ⟨fun r hr hsubject => ?_, rfl⟩
    obtain ⟨o, ho⟩ := exists_tally_pos.mpr ⟨r, hr, hsubject⟩
    have hle := hmax o
    omega

theorem outcomeOf_iff : outcomeOf reports player = o ↔ Settles reports player o := by
  constructor
  · rintro rfl
    exact outcomeOf_settles reports player
  · exact (outcomeOf_settles reports player).unique

theorem settle_eq (players : List UInt8) (reports : List Report) :
    settle players reports =
      if ∃ p ∈ players, outcomeOf reports p = .win then
        some (players.map fun p => (p, outcomeOf reports p))
      else none := by
  unfold settle
  have hwin : (players.map fun player => (player, outcomeOf reports player)).any
      (fun p => p.2 == .win) = true ↔ ∃ p ∈ players, outcomeOf reports p = .win := by
    simp
  simp only [hwin]

/-- A game settles by the votes about its players. -/
theorem settle_congr (h : ∀ p ∈ players, outcomeOf reports p = outcomeOf reports' p) :
    settle players reports = settle players reports' := by
  have hmap : players.map (fun p => (p, outcomeOf reports p)) =
      players.map fun p => (p, outcomeOf reports' p) :=
    List.map_congr_left fun p hp => by rw [h p hp]
  have hwin : (∃ p ∈ players, outcomeOf reports p = .win) ↔
      ∃ p ∈ players, outcomeOf reports' p = .win :=
    exists_congr fun p => and_congr_right fun hp => by rw [h p hp]
  rw [settle_eq, settle_eq, hmap]
  simp only [hwin]

theorem outcomeOf_congr (hvotes : tally reports player = tally reports' player) :
    outcomeOf reports player = outcomeOf reports' player := by
  have hsame (o : Outcome) : count (votes reports player) o = count (votes reports' player) o := by
    rw [count_votes, count_votes, hvotes]
  unfold outcomeOf
  rw [funext hsame]

/-! ## Whose reports count -/

theorem seen_perm (h : reports'.Perm reports) : Seen reports' player ↔ Seen reports player :=
  exists_congr fun _ => and_congr_left fun _ => h.mem_iff

theorem tally_perm (h : reports'.Perm reports) : tally reports' player = tally reports player := by
  funext o
  unfold tally
  simp only [seen_perm h]
  exact h.countP_eq _

/-- What a player says of itself. -/
def Report.Own (player : UInt8) (r : Report) : Prop := r.reporter = player ∧ r.subject = player

instance (player : UInt8) : DecidablePred (Report.Own player) := fun r =>
  inferInstanceAs (Decidable (r.reporter = player ∧ r.subject = player))

/-- The reports without what the player says of itself. -/
def withoutOwn (player : UInt8) (reports : List Report) : List Report :=
  reports.filter fun r => ¬ r.Own player

theorem seen_withoutOwn {p : UInt8} : Seen (withoutOwn player reports) p ↔ Seen reports p := by
  constructor
  · rintro ⟨r, hr, hp⟩
    exact ⟨r, List.mem_of_mem_filter hr, hp⟩
  · rintro ⟨r, hr, hsubject, hother⟩
    refine ⟨r, List.mem_filter.mpr ⟨hr, decide_eq_true fun hown => ?_⟩, hsubject, hother⟩
    exact hother (hown.1.trans (hown.2.symm.trans hsubject))

/-- What a player says of itself does not count where somebody else reported on it. -/
theorem tally_withoutOwn {p : UInt8} (h : Seen reports player) :
    tally (withoutOwn player reports) p = tally reports p := by
  funext o
  unfold tally withoutOwn
  rw [List.countP_filter]
  apply List.countP_congr
  intro r _
  have hseen : Seen (reports.filter fun r => ¬ r.Own player) p ↔ Seen reports p := seen_withoutOwn
  simp only [hseen, Bool.and_eq_true, decide_eq_true_eq]
  constructor
  · exact fun hr => hr.1
  · rintro ⟨hsubject, houtcome, hother⟩
    refine ⟨⟨hsubject, houtcome, hother⟩, fun hown => ?_⟩
    obtain rfl : p = player := hsubject.symm.trans hown.2
    exact hother h hown.1

theorem seen_of_same_others (h : (withoutOwn player reports').Perm (withoutOwn player reports))
    (hseen : Seen reports player) : Seen reports' player :=
  seen_withoutOwn.mp ((seen_perm h).mpr (seen_withoutOwn.mpr hseen))

theorem tally_of_same_others {p : UInt8}
    (h : (withoutOwn player reports').Perm (withoutOwn player reports))
    (hseen : Seen reports player) : tally reports' p = tally reports p := by
  rw [← tally_withoutOwn hseen, ← tally_withoutOwn (seen_of_same_others h hseen), tally_perm h]

/-- **A game is settled by the other players**: each outcome is the one with the most votes of the
others, there is a result just if someone won, the order of the reports does not matter, and nor
does what a player says of itself where somebody else reported on it. -/
theorem settled_by_others (players : List UInt8) (reports : List Report) :
    (∃ outcome : UInt8 → Outcome,
      (∀ p o, outcome p = o ↔ Settles reports p o) ∧
      (∀ settled, settle players reports = some settled →
        settled = players.map fun p => (p, outcome p)) ∧
      (settle players reports = none ↔ ∀ p ∈ players, outcome p ≠ .win)) ∧
    (∀ reports' : List Report, reports'.Perm reports →
      settle players reports' = settle players reports) ∧
    ∀ (p : UInt8) (reports' : List Report),
      (withoutOwn p reports').Perm (withoutOwn p reports) → Seen reports p →
        (∀ o, Settles reports' p o ↔ Settles reports p o) ∧
          settle players reports' = settle players reports := by
  refine ⟨⟨outcomeOf reports, fun p o => outcomeOf_iff, fun settled hsettled => ?_, ?_⟩,
    fun reports' h => ?_, fun p reports' h hseen => ⟨fun o => ?_, ?_⟩⟩
  · rw [settle_eq] at hsettled
    split at hsettled
    · exact (Option.some.inj hsettled).symm
    · cases hsettled
  · rw [settle_eq]
    split
    · rename_i hwin
      obtain ⟨p, hp, hwin⟩ := hwin
      exact iff_of_false (Option.some_ne_none _) fun h => h p hp hwin
    · rename_i hnone
      exact iff_of_true rfl fun p hp hwin => hnone ⟨p, hp, hwin⟩
  · exact settle_congr fun p _ => outcomeOf_congr (tally_perm h)
  · rw [← outcomeOf_iff, ← outcomeOf_iff, outcomeOf_congr (tally_of_same_others h hseen)]
  · exact settle_congr fun q _ => outcomeOf_congr (tally_of_same_others h hseen)

end CommandCenter.Core.Ladder.War3
