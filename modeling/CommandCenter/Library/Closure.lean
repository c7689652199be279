import Mathlib.Logic.Relation
import Mathlib.SetTheory.Cardinal.NatCard

/-!
# Closures by scanning a list that grows

A list without duplicates is scanned from its head, and what each entry leads to is put at its end.
Where a step can fail, `none` is the failure.

* `scan_spec`: where no step fails, the scan ends with the reflexive and transitive closure.
* `scan_eq_none`: where the first step fails, so does the scan.
-/

namespace CommandCenter.Library

open Relation

variable {α : Type*}

/-- A list without duplicates, to be scanned while it grows. -/
structure Worklist (α : Type*) where
  entries : List α
  nodup : entries.Nodup

namespace Worklist

def single (a : α) : Worklist α := ⟨[a], List.nodup_singleton a⟩

theorem length_le [Finite α] (w : Worklist α) : w.entries.length ≤ Nat.card α := by
  have hinj : Function.Injective w.entries.get := List.nodup_iff_injective_get.mp w.nodup
  have hcard := Nat.card_le_card_of_injective _ hinj
  rwa [Nat.card_eq_fintype_card, Fintype.card_fin] at hcard

variable [DecidableEq α]

/-- The entry at the end, if it is new. -/
def push (w : Worklist α) (a : α) : Worklist α :=
  if h : a ∈ w.entries then w
  else ⟨w.entries ++ [a], by
    refine List.nodup_append.mpr ⟨w.nodup, List.nodup_singleton a, ?_⟩
    rintro b hb c hc rfl
    exact h (List.mem_singleton.mp hc ▸ hb)⟩

def pushAll (w : Worklist α) (found : List α) : Worklist α := found.foldl push w

theorem mem_push {w : Worklist α} {a b : α} :
    b ∈ (w.push a).entries ↔ b ∈ w.entries ∨ b = a := by
  unfold push
  split
  · rename_i h
    constructor
    · exact Or.inl
    · rintro (hb | rfl)
      · exact hb
      · exact h
  · simp

theorem mem_pushAll {w : Worklist α} {found : List α} {b : α} :
    b ∈ (w.pushAll found).entries ↔ b ∈ w.entries ∨ b ∈ found := by
  induction found generalizing w with
  | nil => simp [pushAll]
  | cons a found ih =>
    have hstep : w.pushAll (a :: found) = (w.push a).pushAll found := rfl
    rw [hstep, ih, mem_push, List.mem_cons, or_assoc]

theorem prefix_push (w : Worklist α) (a : α) : w.entries <+: (w.push a).entries := by
  unfold push
  split
  · exact List.prefix_refl _
  · exact List.prefix_append _ _

/-- What is scanned stays in its place. -/
theorem prefix_pushAll (w : Worklist α) (found : List α) :
    w.entries <+: (w.pushAll found).entries := by
  induction found generalizing w with
  | nil => exact List.prefix_refl _
  | cons a found ih => exact (w.prefix_push a).trans (ih (w.push a))

end Worklist

def scan [DecidableEq α] [Finite α] (next : α → Option (List α)) (w : Worklist α) (i : Nat) :
    Option (Worklist α) :=
  if h : i < w.entries.length then
    match next w.entries[i] with
    | none => none
    | some found => scan next (w.pushAll found) (i + 1)
  else some w
termination_by Nat.card α - i
decreasing_by
  have hlength := w.length_le
  omega

section Scan

variable (next : α → Option (List α))

/-- A step that does not fail leads from one entry to another. -/
def LeadsTo (a b : α) : Prop := ∃ found, next a = some found ∧ b ∈ found

/-- The entries come from the first one, and those up to an index lead to no others. -/
structure Scanned (start : α) (w : Worklist α) (i : Nat) : Prop where
  start_mem : start ∈ w.entries
  reached : ∀ b ∈ w.entries, ReflTransGen (LeadsTo next) start b
  closed : ∀ a ∈ w.entries.take i, ∀ b, LeadsTo next a b → b ∈ w.entries

variable {next} {start : α} {w : Worklist α} {i : Nat}

theorem scanned_single (start : α) : Scanned next start (.single start) 0 where
  start_mem := List.mem_singleton_self start
  reached b hb := by
    rw [List.mem_singleton.mp hb]
  closed a ha := by
    rw [List.take_zero] at ha
    cases ha

theorem Scanned.step [DecidableEq α] (h : Scanned next start w i) (hi : i < w.entries.length) {found : List α}
    (hfound : next w.entries[i] = some found) :
    Scanned next start (w.pushAll found) (i + 1) where
  start_mem := Worklist.mem_pushAll.mpr (Or.inl h.start_mem)
  reached b hb := by
    rcases Worklist.mem_pushAll.mp hb with hb | hb
    · exact h.reached b hb
    · exact (h.reached _ (List.getElem_mem hi)).tail ⟨found, hfound, hb⟩
  closed a ha b hab := by
    obtain ⟨more, hmore⟩ := w.prefix_pushAll found
    rw [← hmore, List.take_append_of_le_length (by omega), List.take_add_one,
      List.getElem?_eq_getElem hi] at ha
    rw [Worklist.mem_pushAll]
    rcases List.mem_append.mp ha with ha | ha
    · exact Or.inl (h.closed a ha b hab)
    · obtain rfl := List.mem_singleton.mp ha
      obtain ⟨found', hfound', hb⟩ := hab
      rw [hfound] at hfound'
      cases hfound'
      exact Or.inr hb

/-- A list whose entries lead to no others holds all that the first one leads to. -/
theorem Scanned.mem_iff (h : Scanned next start w i) (hi : w.entries.length ≤ i) (b : α) :
    b ∈ w.entries ↔ ReflTransGen (LeadsTo next) start b := by
  constructor
  · exact h.reached b
  · intro hb
    induction hb with
    | refl => exact h.start_mem
    | tail _ hab ih =>
      refine h.closed _ ?_ _ hab
      rwa [List.take_of_length_le hi]

variable [DecidableEq α] [Finite α]

theorem scan_spec_from (h : Scanned next start w i)
    (hnext : ∀ b, ReflTransGen (LeadsTo next) start b → next b ≠ none) :
    ∃ w', scan next w i = some w' ∧
      ∀ b, b ∈ w'.entries ↔ ReflTransGen (LeadsTo next) start b := by
  induction w, i using scan.induct next with
  | case1 w i hi hnone => exact absurd hnone (hnext _ (h.reached _ (List.getElem_mem hi)))
  | case2 w i hi found hfound ih =>
    obtain ⟨w', hw', hmem⟩ := ih (h.step hi hfound)
    refine ⟨w', ?_, hmem⟩
    rw [scan, dif_pos hi, hfound]
    exact hw'
  | case3 w i hi =>
    refine ⟨w, ?_, h.mem_iff (Nat.le_of_not_lt hi)⟩
    rw [scan, dif_neg hi]

/-- Where no step fails, the scan ends with all that the first entry leads to. -/
theorem scan_spec (start : α)
    (hnext : ∀ b, ReflTransGen (LeadsTo next) start b → next b ≠ none) :
    ∃ w, scan next (.single start) 0 = some w ∧
      ∀ b, b ∈ w.entries ↔ ReflTransGen (LeadsTo next) start b :=
  scan_spec_from (scanned_single start) hnext

/-- Where the first step fails, so does the scan. -/
theorem scan_eq_none {start : α} (hnext : next start = none) :
    scan next (.single start) 0 = none := by
  rw [scan]
  simp [Worklist.single, hnext]

end Scan

end CommandCenter.Library
