import Mathlib.Data.Finmap
import Mathlib.Data.Multiset.Count
import Mathlib.Data.Finset.Card
import CommandCenter.Rust.Num

/-!
# Counting with a map

A `Tally` keeps a machine counter for each key and drops a counter that falls to zero.
`Tally.Counts t m` says that it counts the multiset `m`: every counter is the exact number of
occurrences, and only keys that occur have one.

* `Tally.Counts.increment`: counting one more occurrence, below the range of the counters.
* `Tally.Counts.decrement`: taking one occurrence away.
* `Tally.Counts.card_keys`: the number of counters is the number of distinct keys.
-/

namespace CommandCenter.Library

open Rust

abbrev Tally (K : Type*) := Finmap fun _ : K => UInt32

namespace Tally

variable {K : Type*} [DecidableEq K]

/-- The counter of a key, zero when it has none. -/
def count (t : Tally K) (k : K) : UInt32 := (t.lookup k).getD 0

/-- `*map.entry(k).or_insert(0) += 1`. -/
def increment (t : Tally K) (k : K) : Tally K := t.insert k (t.count k + 1)

/-- Take one from the counter of a key, and drop the counter at zero. -/
def decrement (t : Tally K) (k : K) : Tally K :=
  match t.lookup k with
  | some n =>
    if saturatingSub n 1 = 0 then t.erase k else t.insert k (saturatingSub n 1)
  | none => t

structure Counts (t : Tally K) (m : Multiset K) : Prop where
  count : ∀ k, (t.count k).toNat = m.count k
  mem : ∀ k, k ∈ t ↔ k ∈ m

theorem counts_empty : Counts (∅ : Tally K) 0 :=
  ⟨fun k => by simp [Tally.count], fun k => by simp [Finmap.notMem_empty]⟩

theorem count_increment (t : Tally K) (k x : K) :
    (t.increment k).count x = if x = k then t.count k + 1 else t.count x := by
  unfold increment count
  split
  · rename_i h
    rw [h, Finmap.lookup_insert]
    rfl
  · rename_i h
    rw [Finmap.lookup_insert_of_ne _ h]

theorem lookup_eq_count {t : Tally K} {k : K} (h : k ∈ t) : t.lookup k = some (t.count k) := by
  obtain ⟨n, hn⟩ := Finmap.mem_iff.mp h
  simp [count, hn]

theorem count_decrement {t : Tally K} {k : K} (h : k ∈ t) (x : K) :
    (t.decrement k).count x = if x = k then saturatingSub (t.count k) 1 else t.count x := by
  unfold decrement
  rw [lookup_eq_count h]
  dsimp only
  by_cases hx : x = k
  · subst hx
    rw [if_pos rfl]
    split
    · rename_i hzero
      rw [hzero, count, Finmap.lookup_erase]
      rfl
    · rw [count, Finmap.lookup_insert]
      rfl
  · rw [if_neg hx]
    split
    · rw [count, Finmap.lookup_erase_ne hx, count]
    · rw [count, Finmap.lookup_insert_of_ne _ hx, count]

theorem mem_decrement {t : Tally K} {k : K} (h : k ∈ t) (x : K) :
    x ∈ t.decrement k ↔ x ∈ t ∧ (x = k → saturatingSub (t.count k) 1 ≠ 0) := by
  unfold decrement
  rw [lookup_eq_count h]
  dsimp only
  by_cases hx : x = k
  · subst hx
    split
    · rename_i hzero
      simp [hzero]
    · rename_i hpos
      simp [hpos, h]
  · split <;> simp [hx]

theorem Counts.increment {t : Tally K} {m : Multiset K} (h : t.Counts m) {k : K}
    (hroom : m.count k + 1 < 2 ^ 32) : (t.increment k).Counts (k ::ₘ m) := by
  constructor
  · intro x
    rw [count_increment]
    by_cases hx : x = k
    · subst hx
      rw [if_pos rfl, toNat_succ (h.count x ▸ hroom), h.count, Multiset.count_cons_self]
    · rw [if_neg hx, h.count, Multiset.count_cons_of_ne hx]
  · intro x
    rw [Tally.increment, Finmap.mem_insert, h.mem, Multiset.mem_cons]

/-- One occurrence less of a key that occurs. -/
theorem Counts.decrement {t : Tally K} {m : Multiset K} (h : t.Counts m) {k : K} (hk : k ∈ m) :
    (t.decrement k).Counts (m.erase k) := by
  have hkt : k ∈ t := (h.mem k).mpr hk
  have hsub : (saturatingSub (t.count k) 1).toNat = m.count k - 1 := by
    rw [toNat_saturatingSub, h.count]
    rfl
  constructor
  · intro x
    rw [count_decrement hkt]
    by_cases hx : x = k
    · subst hx
      rw [if_pos rfl, hsub, Multiset.count_erase_self]
    · rw [if_neg hx, h.count, Multiset.count_erase_of_ne hx]
  · intro x
    rw [mem_decrement hkt, h.mem]
    by_cases hx : x = k
    · subst hx
      have hpos : saturatingSub (t.count x) 1 ≠ 0 ↔ 0 < m.count x - 1 := by
        rw [← hsub, Nat.pos_iff_ne_zero, ne_eq, ne_eq, ← UInt32.toNat_inj]
        rfl
      rw [← Multiset.count_pos (s := m.erase x), Multiset.count_erase_self]
      constructor
      · rintro ⟨_, hne⟩
        exact hpos.mp (hne rfl)
      · intro hlt
        exact ⟨hk, fun _ => hpos.mpr hlt⟩
    · rw [Multiset.mem_erase_of_ne hx]
      simp [hx]

theorem Counts.card_keys {t : Tally K} {m : Multiset K} (h : t.Counts m) :
    t.keys.card = m.toFinset.card := by
  congr 1
  ext k
  rw [Finmap.mem_keys, Multiset.mem_toFinset, h.mem]

end Tally

end CommandCenter.Library
