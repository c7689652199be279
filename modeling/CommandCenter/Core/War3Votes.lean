import CommandCenter.Core.War3

/-!
# One player, one vote

What settles a game should be what most players say. The vote counts reports, so that a player who
reports more than once, or somebody who is not a player, can turn it.

* `settle_eq_iff`: two lists of reports settle a game alike.
* `settle_oneVoteEach_iff`: when the reports that should not count make no difference.
-/

namespace CommandCenter.Core.Ladder.War3

open Rust Library

def Report.sameVote (r r' : Report) : Bool :=
  r.reporter == r'.reporter && r.subject == r'.subject

/-- The last report of each reporter on each subject. -/
def lastOfEach : List Report → List Report
  | [] => []
  | r :: rest => if rest.any r.sameVote then lastOfEach rest else r :: lastOfEach rest

/-- The reports of players, and of each the last on each subject. -/
def oneVoteEach (players : List UInt8) (reports : List Report) : List Report :=
  lastOfEach (reports.filter fun r => players.contains r.reporter)

variable {players : List UInt8} {reports reports' : List Report} {player : UInt8}

theorem lastOfEach_sublist (reports : List Report) : (lastOfEach reports).Sublist reports := by
  induction reports with
  | nil => exact List.Sublist.refl []
  | cons r rest ih =>
    rw [lastOfEach]
    split
    · exact ih.cons r
    · exact ih.cons_cons r

theorem mem_of_mem_oneVoteEach {r : Report} (h : r ∈ oneVoteEach players reports) : r ∈ reports :=
  List.mem_of_mem_filter ((lastOfEach_sublist _).subset h)

/-- Two lists of reports settle a game alike if they agree on every player or nobody wins. -/
theorem settle_eq_iff : settle players reports = settle players reports' ↔
    (∀ p ∈ players, outcomeOf reports p = outcomeOf reports' p) ∨
      ∀ p ∈ players, outcomeOf reports p ≠ .win ∧ outcomeOf reports' p ≠ .win := by
  constructor
  · intro h
    rw [settle_eq, settle_eq] at h
    split at h
    · split at h
      · have hmap := List.map_inj_left.mp (Option.some.inj h)
        exact Or.inl fun p hp => congrArg Prod.snd (hmap p hp)
      · cases h
    · rename_i hnone
      split at h
      · cases h
      · rename_i hnone'
        exact Or.inr fun p hp => ⟨fun hwin => hnone ⟨p, hp, hwin⟩, fun hwin => hnone' ⟨p, hp, hwin⟩⟩
  · rintro (hsame | hnobody)
    · exact settle_congr hsame
    · rw [settle_eq, settle_eq, if_neg, if_neg]
      · rintro ⟨p, hp, hwin⟩
        exact (hnobody p hp).2 hwin
      · rintro ⟨p, hp, hwin⟩
        exact (hnobody p hp).1 hwin

/-- With all reports, some outcome overtakes the one that wins the vote of one report each. -/
def Overturned (players : List UInt8) (reports : List Report) (p : UInt8) : Prop :=
  ∃ w o, Settles (oneVoteEach players reports) p w ∧ Overtakes rank (tally reports p) o w

theorem settles_iff_not_overturned {w : Outcome}
    (hw : Settles (oneVoteEach players reports) player w) :
    Settles reports player w ↔ ¬ Overturned players reports player := by
  have hover : Overturned players reports player ↔
      ∃ o, Overtakes rank (tally reports player) o w := by
    constructor
    · rintro ⟨w', o, hw', ho⟩
      obtain rfl := hw'.unique hw
      exact ⟨o, ho⟩
    · rintro ⟨o, ho⟩
      exact ⟨w, o, hw, ho⟩
  rw [hover, not_exists]
  by_cases hvotes : ∃ o, 0 < tally reports player o
  · rw [← leads_iff rank_injective hvotes]
    obtain ⟨r, hr, hsubject⟩ := exists_tally_pos.mp hvotes
    exact ⟨fun h => h.resolve_right fun hnone => hnone.1 r hr hsubject, Or.inl⟩
  · have hnone : ∀ r ∈ reports, r.subject ≠ player := fun r hr hsubject =>
      hvotes (exists_tally_pos.mpr ⟨r, hr, hsubject⟩)
    refine iff_of_true ?_ fun o ho => ?_
    · rcases hw with hleads | ⟨_, rfl⟩
      · obtain ⟨r, hr, hsubject⟩ := exists_tally_pos.mp ⟨w, hleads.1⟩
        exact absurd hsubject (hnone r (mem_of_mem_oneVoteEach hr))
      · exact Or.inr ⟨hnone, rfl⟩
    · rcases ho with hlt | ⟨_, hpos, _⟩
      · exact hvotes ⟨o, by omega⟩
      · exact hvotes ⟨o, hpos⟩

/-- **One player, one vote** holds just where the other reports overturn the vote about no player,
or nobody wins with them nor without them. -/
theorem settle_oneVoteEach_iff (players : List UInt8) (reports : List Report) :
    settle players (oneVoteEach players reports) = settle players reports ↔
      (∀ p ∈ players, ¬ Overturned players reports p) ∨
        ∀ p ∈ players, ¬ Leads rank (tally (oneVoteEach players reports) p) .win ∧
          ¬ Leads rank (tally reports p) .win := by
  have hwin (reports : List Report) (p : UInt8) :
      outcomeOf reports p ≠ .win ↔ ¬ Leads rank (tally reports p) .win := by
    rw [Ne, outcomeOf_iff]
    exact not_congr ⟨fun h => h.resolve_right fun hnone => Outcome.noConfusion hnone.2, Or.inl⟩
  rw [settle_eq_iff]
  apply or_congr
  · refine forall₂_congr fun p _ => ?_
    rw [eq_comm, outcomeOf_iff]
    exact settles_iff_not_overturned (outcomeOf_settles _ p)
  · refine forall₂_congr fun p _ => ?_
    rw [hwin, hwin]

/-- Player 2 says twice that player 1 won, and player 3 says once that it lost. -/
def saidTwice : List Report := [⟨2, 1, .win⟩, ⟨2, 1, .win⟩, ⟨3, 1, .loss⟩]

/-- Said twice, it is a win. -/
theorem vote_stuffed : ¬ ∀ players reports,
    settle players (oneVoteEach players reports) = settle players reports := by
  intro h
  exact absurd (h [1, 2, 3] saidTwice) (by decide)

end CommandCenter.Core.Ladder.War3
