import Mathlib.Data.List.Infix

/-!
# Reading until there is enough

A loop that reads piece after piece of a stream until what it has is enough, and gives up when a
piece takes it past a limit.

* `readUntil_spec`: what it has read and what it has left when there is enough.
* `readUntil_enough_iff`, `readUntil_eq_ended`: when there is enough, and when the stream is over.
-/

namespace CommandCenter.Library

variable {α χ : Type*}

/-- How the loop stops: with what it has and the pieces it has not read, or past the limit, or at
the end of the stream. -/
inductive Stopped (α χ : Type*)
  | enough (got : List α) (rest : List χ)
  | tooLong
  | ended (got : List α)

/-- The pieces hold the symbols `data`. -/
def readUntil (data : χ → List α) (enough : List α → Bool) (limit : Nat) :
    List α → List χ → Stopped α χ
  | got, [] => if enough got then .enough got [] else .ended got
  | got, piece :: rest =>
    if enough got then .enough got (piece :: rest)
    else if limit < (got ++ data piece).length then .tooLong
    else readUntil data enough limit (got ++ data piece) rest

section Rules

variable {data : χ → List α} {enough : List α → Bool} {limit : Nat}

theorem readUntil_of_got {got : List α} (h : enough got = true) (pieces : List χ) :
    readUntil data enough limit got pieces = .enough got pieces := by
  cases pieces with
  | nil => exact if_pos h
  | cons piece rest => exact if_pos h

theorem readUntil_of_fits {got : List α} {piece : χ} (h : ¬ enough got = true)
    (hlimit : (got ++ data piece).length ≤ limit) (rest : List χ) :
    readUntil data enough limit got (piece :: rest) = readUntil data enough limit (got ++ data piece) rest := by
  rw [readUntil, if_neg h, if_neg (Nat.not_lt.mpr hlimit)]

theorem readUntil_of_long {got : List α} {piece : χ} (h : ¬ enough got = true)
    (hlimit : ¬ (got ++ data piece).length ≤ limit) (rest : List χ) :
    readUntil data enough limit got (piece :: rest) = .tooLong := by
  rw [readUntil, if_neg h, if_pos (Nat.not_le.mp hlimit)]

/-- What is read is enough, is within the limit and is a first part of the stream. -/
theorem readUntil_spec {got all : List α} {pieces rest : List χ}
    (hgot : got.length ≤ limit) (h : readUntil data enough limit got pieces = .enough all rest) :
    enough all = true ∧ all.length ≤ limit ∧
      ∃ front, pieces = front ++ rest ∧ all = got ++ front.flatMap data := by
  induction pieces generalizing got with
  | nil =>
    by_cases hnow : enough got = true
    · rw [readUntil_of_got hnow] at h
      cases h
      exact ⟨hnow, hgot, [], rfl, (List.append_nil _).symm⟩
    · rw [readUntil, if_neg hnow] at h
      cases h
  | cons piece pieces ih =>
    by_cases hnow : enough got = true
    · rw [readUntil_of_got hnow] at h
      cases h
      exact ⟨hnow, hgot, [], rfl, (List.append_nil _).symm⟩
    · by_cases hfits : (got ++ data piece).length ≤ limit
      · rw [readUntil_of_fits hnow hfits] at h
        obtain ⟨henough, hall, front, rfl, rfl⟩ := ih hfits h
        refine ⟨henough, hall, piece :: front, rfl, ?_⟩
        rw [List.flatMap_cons, List.append_assoc]
      · rw [readUntil_of_long hnow hfits] at h
        cases h

/-- There is enough just if some pieces within the limit are. -/
theorem readUntil_enough_iff {got : List α} {pieces : List χ}
    (hgot : got.length ≤ limit) :
    (∃ all rest, readUntil data enough limit got pieces = .enough all rest) ↔
      ∃ part, part <+: pieces ∧ enough (got ++ part.flatMap data) = true ∧
        (got ++ part.flatMap data).length ≤ limit := by
  constructor
  · rintro ⟨all, rest, h⟩
    obtain ⟨henough, hall, front, rfl, rfl⟩ := readUntil_spec hgot h
    exact ⟨front, List.prefix_append front rest, henough, hall⟩
  · rintro ⟨part, hpart, henough, hall⟩
    induction part generalizing got pieces with
    | nil =>
      rw [List.flatMap_nil, List.append_nil] at henough
      exact ⟨got, pieces, readUntil_of_got henough pieces⟩
    | cons piece part ih =>
      obtain ⟨rest, rfl⟩ := hpart
      by_cases hnow : enough got = true
      · exact ⟨got, _, readUntil_of_got hnow _⟩
      · rw [List.flatMap_cons, ← List.append_assoc] at henough hall
        have hfits : (got ++ data piece).length ≤ limit := by
          rw [List.length_append] at hall
          omega
        rw [List.cons_append, readUntil_of_fits hnow hfits]
        exact ih hfits (List.prefix_append part rest) henough hall

/-- The end is reached just if all of the stream is within the limit and no first part of it is
enough. -/
theorem readUntil_eq_ended {got all : List α} {pieces : List χ}
    (hgot : got.length ≤ limit) :
    readUntil data enough limit got pieces = .ended all ↔
      all = got ++ pieces.flatMap data ∧ all.length ≤ limit ∧
        ∀ part, part <+: pieces → ¬ enough (got ++ part.flatMap data) = true := by
  induction pieces generalizing got with
  | nil =>
    rw [List.flatMap_nil, List.append_nil]
    by_cases hnow : enough got = true
    · rw [readUntil_of_got hnow]
      refine iff_of_false (fun h => by cases h) fun h => h.2.2 [] List.prefix_rfl ?_
      rwa [List.flatMap_nil, List.append_nil]
    · rw [readUntil, if_neg hnow]
      constructor
      · intro h
        cases h
        refine ⟨rfl, hgot, fun part hpart => ?_⟩
        rwa [List.prefix_nil.mp hpart, List.flatMap_nil, List.append_nil]
      · rintro ⟨rfl, _⟩
        rfl
  | cons piece pieces ih =>
    by_cases hnow : enough got = true
    · rw [readUntil_of_got hnow]
      refine iff_of_false (fun h => by cases h) fun h => h.2.2 [] List.nil_prefix ?_
      rwa [List.flatMap_nil, List.append_nil]
    · by_cases hfits : (got ++ data piece).length ≤ limit
      · rw [readUntil_of_fits hnow hfits, ih hfits, List.flatMap_cons, List.append_assoc]
        refine and_congr_right fun _ => and_congr_right fun _ => ⟨fun h part hpart => ?_,
          fun h part hpart => ?_⟩
        · rcases List.prefix_cons_iff.mp hpart with rfl | ⟨part, rfl, htail⟩
          · rwa [List.flatMap_nil, List.append_nil]
          · rw [List.flatMap_cons, ← List.append_assoc]
            exact h part htail
        · rw [List.append_assoc, ← List.flatMap_cons]
          exact h (piece :: part) (List.cons_prefix_cons.mpr ⟨rfl, hpart⟩)
      · rw [readUntil_of_long hnow hfits]
        refine iff_of_false (fun h => by cases h) ?_
        rintro ⟨rfl, hall, -⟩
        rw [List.flatMap_cons, ← List.append_assoc, List.length_append] at hall
        omega

end Rules

end CommandCenter.Library
