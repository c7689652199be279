import CommandCenter.Rust.Map

/-!
# Pending writes over a store of maps

A writer may keep the entries it owes a store aside, under the key they belong to, and write
them later. `Overlays whole stored pending` says that the store `whole`, to which every entry
was written at once, is the store `stored` seen through the entries that are `pending`.

* `Overlays.extendAt`, `Overlays.insert`, `Overlays.erase`: the three ways in which both sides
  change together.
* `Overlays.settle`: writing what is pending under one key.
* `Overlays.settle_all`: writing all that is pending, key by key in any order, reaches `whole`.
* `total_extendAt`: how many entries are pending after more have been put under a key.
-/

namespace CommandCenter.Library

open Rust

variable {K A V : Type*} [DecidableEq K] [DecidableEq A]

/-- What is seen under a key when the pending entries lie over the stored ones. -/
def overlay (stored pending : Map K (Map A V)) (k : K) : Option (Map A V) :=
  Option.merge Map.extend (stored.lookup k) (pending.lookup k)

/-- Every key of `whole` is `stored` with `pending` laid over it. -/
def Overlays (whole stored pending : Map K (Map A V)) : Prop :=
  ∀ k, whole.lookup k = overlay stored pending k

theorem extend_empty (m : Map A V) : m.extend ∅ = m := Finmap.empty_union

theorem empty_extend (m : Map A V) : Map.extend ∅ m = m := Finmap.union_empty

theorem extend_assoc (m m₁ m₂ : Map A V) : (m.extend m₁).extend m₂ = m.extend (m₁.extend m₂) :=
  Finmap.union_assoc.symm

theorem extend_overlay (stored pending : Option (Map A V)) (entries : Map A V) :
    some (((Option.merge Map.extend stored pending).getD ∅).extend entries) =
      Option.merge Map.extend stored (some ((pending.getD ∅).extend entries)) := by
  cases stored with
  | none => cases pending <;> rfl
  | some b =>
    cases pending with
    | none =>
      change some (b.extend entries) = some (b.extend (Map.extend ∅ entries))
      rw [empty_extend]
    | some p => exact congrArg some (extend_assoc b p entries)

namespace Overlays

variable {whole stored pending : Map K (Map A V)}

theorem refl (m : Map K (Map A V)) : Overlays m m ∅ := by
  intro k
  rw [overlay, Finmap.lookup_empty]
  cases m.lookup k <;> rfl

/-- What is seen under a key, where a key without entries counts as empty. -/
theorem getD (h : Overlays whole stored pending) (k : K) :
    (whole.lookup k).getD ∅ = ((stored.lookup k).getD ∅).extend ((pending.lookup k).getD ∅) := by
  rw [h k, overlay]
  cases stored.lookup k with
  | none =>
    cases pending.lookup k with
    | none => exact (empty_extend ∅).symm
    | some p => exact (empty_extend p).symm
  | some b =>
    cases pending.lookup k with
    | none => exact (extend_empty b).symm
    | some p => rfl

/-- New entries go to the whole store on one side and to the pending ones on the other. -/
theorem extendAt (h : Overlays whole stored pending) (k : K) (entries : Map A V) :
    Overlays (whole.extendAt k entries) stored (pending.extendAt k entries) := by
  intro x
  by_cases hx : x = k
  · subst hx
    rw [overlay, Map.extendAt, Map.extendAt, Finmap.lookup_insert, Finmap.lookup_insert, h x]
    exact extend_overlay _ _ _
  · rw [overlay, Map.extendAt, Map.extendAt, Finmap.lookup_insert_of_ne _ hx,
      Finmap.lookup_insert_of_ne _ hx]
    exact h x

/-- A key under which nothing is pending is replaced on both sides. -/
theorem insert (h : Overlays whole stored pending) {k : K} (hk : k ∉ pending)
    (entries : Map A V) :
    Overlays (whole.insert k entries) (stored.insert k entries) pending := by
  intro x
  by_cases hx : x = k
  · subst hx
    rw [overlay, Finmap.lookup_insert, Finmap.lookup_insert, Finmap.lookup_eq_none.mpr hk]
    rfl
  · rw [overlay, Finmap.lookup_insert_of_ne _ hx, Finmap.lookup_insert_of_ne _ hx]
    exact h x

/-- A key is removed from the store and what is pending under it is dropped. -/
theorem erase (h : Overlays whole stored pending) (k : K) :
    Overlays (whole.erase k) (stored.erase k) (pending.erase k) := by
  intro x
  by_cases hx : x = k
  · subst hx
    rw [overlay, Finmap.lookup_erase, Finmap.lookup_erase, Finmap.lookup_erase]
    rfl
  · rw [overlay, Finmap.lookup_erase_ne hx, Finmap.lookup_erase_ne hx, Finmap.lookup_erase_ne hx]
    exact h x

/-- Writing what is pending under a key does not change what is seen. -/
theorem settle {k : K} {entries : Map A V} (hk : k ∉ pending)
    (h : Overlays whole stored (pending.insert k entries)) :
    Overlays whole (stored.extendAt k entries) pending := by
  intro x
  rw [h x, overlay, overlay]
  by_cases hx : x = k
  · subst hx
    rw [Map.extendAt, Finmap.lookup_insert, Finmap.lookup_insert, Finmap.lookup_eq_none.mpr hk]
    cases stored.lookup x with
    | none => exact congrArg some (empty_extend entries).symm
    | some b => rfl
  · rw [Map.extendAt, Finmap.lookup_insert_of_ne _ hx, Finmap.lookup_insert_of_ne _ hx]

/-- When nothing is pending the two stores are the same. -/
theorem eq_of_empty (h : Overlays whole stored ∅) : stored = whole := by
  apply Finmap.ext_lookup
  intro k
  rw [h k, overlay, Finmap.lookup_empty]
  cases stored.lookup k <;> rfl

/-- Writing all that is pending, key by key, reaches the whole store. -/
theorem settle_all {entries : List (Σ _ : K, Map A V)} (hnodup : entries.NodupKeys)
    (h : Overlays whole stored entries.toFinmap) :
    entries.foldl (fun m e => m.extendAt e.1 e.2) stored = whole := by
  induction entries generalizing stored with
  | nil => exact h.eq_of_empty
  | cons e entries ih =>
    obtain ⟨hfresh, hnodup⟩ := List.nodupKeys_cons.mp hnodup
    refine ih hnodup (settle (fun hmem => hfresh ?_) h)
    obtain ⟨v, hv⟩ := (Finmap.mem_list_toFinmap _ _).mp hmem
    exact List.mem_keys.mpr ⟨v, hv⟩

end Overlays

/-! ## How much is pending -/

/-- The number of entries under all the keys. -/
def total (m : Map K (Map A V)) : Nat := (m.entries.map fun e => Map.len e.2).sum

omit [DecidableEq A] in
theorem len_eq_card (m : Map A V) : m.len = m.keys.card := by
  exact (Multiset.card_map Sigma.fst m.entries).symm

theorem len_extend (m entries : Map A V) :
    (m.extend entries).len = m.len + (entries.keys \ m.keys).card := by
  have hkeys : (m.extend entries).keys = m.keys ∪ (entries.keys \ m.keys) := by
    unfold Map.extend
    rw [Finmap.keys_union, Finset.union_sdiff_self_eq_union, Finset.union_comm]
  rw [len_eq_card, len_eq_card, hkeys, Finset.card_union_of_disjoint Finset.disjoint_sdiff]

/-- What a key adds to the number of entries. -/
def under (m : Map K (Map A V)) (k : K) : Nat := ((m.lookup k).getD ∅).len

omit [DecidableEq A] in
theorem under_of_notMem {m : Map K (Map A V)} {k : K} (h : k ∉ m) : under m k = 0 := by
  rw [under, Finmap.lookup_eq_none.mpr h]
  rfl

omit [DecidableEq A] in
theorem total_insert_of_notMem {m : Map K (Map A V)} {k : K} (h : k ∉ m) (entries : Map A V) :
    total (m.insert k entries) = entries.len + total m := by
  rw [total, Finmap.entries_insert_of_notMem h, Multiset.map_cons, Multiset.sum_cons, total]

omit [DecidableEq A] in
theorem insert_erase (m : Map K (Map A V)) (k : K) (entries : Map A V) :
    (m.erase k).insert k entries = m.insert k entries := by
  apply Finmap.ext_lookup
  intro x
  by_cases hx : x = k
  · rw [hx, Finmap.lookup_insert, Finmap.lookup_insert]
  · rw [Finmap.lookup_insert_of_ne _ hx, Finmap.lookup_insert_of_ne _ hx,
      Finmap.lookup_erase_ne hx]

omit [DecidableEq A] in
theorem insert_of_lookup {m : Map K (Map A V)} {k : K} {entries : Map A V}
    (h : m.lookup k = some entries) : m.insert k entries = m := by
  apply Finmap.ext_lookup
  intro x
  by_cases hx : x = k
  · rw [hx, Finmap.lookup_insert, h]
  · exact Finmap.lookup_insert_of_ne _ hx

omit [DecidableEq A] in
theorem total_insert (m : Map K (Map A V)) (k : K) (entries : Map A V) :
    total (m.insert k entries) + under m k = total m + entries.len := by
  have hfresh : ∀ entries : Map A V,
      total (m.insert k entries) = entries.len + total (m.erase k) := by
    intro entries
    rw [← insert_erase]
    exact total_insert_of_notMem Finmap.notMem_erase_self entries
  have hbefore : total m = under m k + total (m.erase k) := by
    by_cases hk : k ∈ m
    · obtain ⟨held, hheld⟩ := Finmap.mem_iff.mp hk
      have hsame := hfresh held
      rw [insert_of_lookup hheld] at hsame
      rw [hsame, under, hheld]
      rfl
    · rw [Map.erase_of_notMem hk, under_of_notMem hk, Nat.zero_add]
  rw [hfresh, hbefore]
  omega

/-- New entries under a key count for those whose keys are new there. -/
theorem total_extendAt (m : Map K (Map A V)) (k : K) (entries : Map A V) :
    total (m.extendAt k entries) =
      total m + (entries.keys \ ((m.lookup k).getD ∅).keys).card := by
  have hinsert := total_insert m k (((m.lookup k).getD ∅).extend entries)
  rw [len_extend] at hinsert
  have hunder : under m k = ((m.lookup k).getD ∅).len := rfl
  unfold Map.extendAt
  omega

end CommandCenter.Library
