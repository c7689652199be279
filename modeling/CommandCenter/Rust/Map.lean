import Mathlib.Data.Finmap
import Mathlib.Data.Finset.Sort
import Mathlib.Data.List.Lex

/-!
# Maps

A `HashMap` or `BTreeMap` is a finite map. The order in which a `HashMap` is walked is left
open by Rust, so a definition that depends on it takes a `Map.Walk`, any enumeration of the
entries; a `BTreeMap` is walked in `Map.Walk.ascending`.

* `Map.lookup_retain`, `Map.lookup_extend`, `Map.lookup_tabulate`, `Map.lookup_pick`: what the
  bulk operations do to one key.
-/

namespace CommandCenter.Rust

abbrev Map (K V : Type*) := Finmap fun _ : K => V

namespace Map

variable {K V : Type*}

theorem nodupKeys_filter {s : Multiset (Σ _ : K, V)} (h : s.NodupKeys)
    (p : (Σ _ : K, V) → Prop) [DecidablePred p] : (s.filter p).NodupKeys := by
  rw [← Multiset.nodup_keys] at h ⊢
  exact Multiset.nodup_of_le (Multiset.map_le_map (Multiset.filter_le p s)) h

/-- `HashMap::len`. -/
def len (m : Map K V) : Nat := Multiset.card m.entries

/-- `HashMap::is_empty`. -/
def isEmpty (m : Map K V) : Bool := m.len == 0

/-- `HashMap::retain`, with a predicate that changes no value. -/
def retain (p : K → V → Bool) (m : Map K V) : Map K V :=
  ⟨m.entries.filter fun e => p e.1 e.2, nodupKeys_filter m.nodupKeys _⟩

/-- `for k in keys { map.insert(k, f(k)) }` on an empty map. -/
def tabulate (keys : Finset K) (f : K → V) : Map K V where
  entries := keys.val.map fun k => ⟨k, f k⟩
  nodupKeys := by
    rw [← Multiset.nodup_keys, Multiset.keys, Multiset.map_map]
    simpa using keys.nodup

theorem isEmpty_iff {m : Map K V} : m.isEmpty = true ↔ m = ∅ := by
  rw [isEmpty, beq_iff_eq, len, Multiset.card_eq_zero]
  exact ⟨fun h => Finmap.ext h, fun h => h ▸ rfl⟩

/-- An order in which a map may be walked. -/
structure Walk (K V : Type*) where
  order : Map K V → List (Σ _ : K, V)
  lists : ∀ m, (order m : Multiset (Σ _ : K, V)) = m.entries

theorem Walk.nodupKeys (walk : Walk K V) (m : Map K V) : (walk.order m).NodupKeys := by
  rw [← Multiset.coe_nodupKeys, walk.lists]
  exact m.nodupKeys

variable [DecidableEq K]

/-- `Extend::extend`: every entry of `entries` is inserted into `m`. -/
def extend (m entries : Map K V) : Map K V := entries ∪ m

/-- `map.entry(k).or_default().extend(entries)` on a map of maps. -/
def extendAt {K' : Type*} [DecidableEq K'] (m : Map K' (Map K V)) (k : K') (entries : Map K V) :
    Map K' (Map K V) :=
  m.insert k (((m.lookup k).getD ∅).extend entries)

/-- Insert into `out` what `source` holds under each of the keys. -/
def pick (source : Map K V) (out : Map K V) : List K → Map K V
  | [] => out
  | k :: keys =>
    match source.lookup k with
    | some v => pick source (out.insert k v) keys
    | none => pick source out keys

theorem lookup_retain (p : K → V → Bool) (m : Map K V) (k : K) :
    (retain p m).lookup k = (m.lookup k).filter (p k) := by
  ext v
  rw [← Option.mem_def, Finmap.mem_lookup_iff]
  change ⟨k, v⟩ ∈ m.entries.filter _ ↔ _
  rw [Multiset.mem_filter, ← Finmap.mem_lookup_iff, Option.mem_def, Option.filter_eq_some_iff]

theorem lookup_extend (m entries : Map K V) (k : K) :
    (m.extend entries).lookup k = (entries.lookup k).or (m.lookup k) := by
  unfold extend
  by_cases h : k ∈ entries
  · obtain ⟨v, hv⟩ := Finmap.mem_iff.mp h
    rw [Finmap.lookup_union_left h, hv]
    rfl
  · rw [Finmap.lookup_union_right h, Finmap.lookup_eq_none.mpr h]
    rfl

theorem lookup_tabulate (keys : Finset K) (f : K → V) (k : K) :
    (tabulate keys f).lookup k = if k ∈ keys then some (f k) else none := by
  ext v
  rw [← Option.mem_def, Finmap.mem_lookup_iff]
  change (⟨k, v⟩ : Σ _ : K, V) ∈ keys.val.map (fun k => ⟨k, f k⟩) ↔ _
  rw [Multiset.mem_map]
  constructor
  · rintro ⟨x, hx, he⟩
    obtain ⟨rfl, hv⟩ := Sigma.mk.inj he
    have hmem : x ∈ keys := hx
    rw [if_pos hmem, eq_of_heq hv]
  · intro h
    split at h
    · rename_i hk
      cases h
      exact ⟨k, hk, rfl⟩
    · cases h

theorem extend_ne_empty {m entries : Map K V} (h : entries ≠ ∅) : m.extend entries ≠ ∅ := by
  intro hempty
  refine h (Finmap.ext_lookup fun k => ?_)
  have hk := lookup_extend m entries k
  rw [hempty, Finmap.lookup_empty] at hk
  rw [Finmap.lookup_empty]
  exact (Option.or_eq_none_iff.mp hk.symm).1

theorem lookup_pick (source out : Map K V) (keys : List K) (k : K) :
    (pick source out keys).lookup k =
      if k ∈ keys then (source.lookup k).or (out.lookup k) else out.lookup k := by
  induction keys generalizing out with
  | nil => rfl
  | cons x keys ih =>
    unfold pick
    by_cases hk : k = x
    · subst hk
      cases hv : source.lookup k with
      | some v => simp [ih, hv, Finmap.lookup_insert]
      | none => simp [ih, hv]
    · cases hv : source.lookup x with
      | some v => simp [ih, hk, Finmap.lookup_insert_of_ne _ hk]
      | none => simp [ih, hk]

theorem pick_empty (out : Map K V) (keys : List K) : pick ∅ out keys = out := by
  induction keys with
  | nil => rfl
  | cons k keys ih => exact ih

/-- Picking from one map after another is picking from the second laid over the first. -/
theorem pick_pick (m₁ m₂ : Map K V) (keys : List K) :
    pick m₂ (pick m₁ ∅ keys) keys = pick (m₁.extend m₂) ∅ keys := by
  apply Finmap.ext_lookup
  intro k
  simp only [lookup_pick, lookup_extend, Finmap.lookup_empty, Option.or_none]
  split <;> rfl

theorem erase_of_notMem {m : Map K V} {k : K} (h : k ∉ m) : m.erase k = m := by
  apply Finmap.ext_lookup
  intro x
  by_cases hx : x = k
  · rw [hx, Finmap.lookup_erase, Finmap.lookup_eq_none.mpr h]
  · exact Finmap.lookup_erase_ne hx

theorem mem_extendAt {K' : Type*} [DecidableEq K'] {m : Map K' (Map K V)} {k x : K'}
    {entries : Map K V} : x ∈ m.extendAt k entries ↔ x = k ∨ x ∈ m := Finmap.mem_insert

theorem extendAt_ne_empty {K' : Type*} [DecidableEq K'] {m : Map K' (Map K V)}
    (hm : ∀ x v, m.lookup x = some v → v ≠ ∅) (k : K') {entries : Map K V} (h : entries ≠ ∅)
    (x : K') (v : Map K V) (hx : (m.extendAt k entries).lookup x = some v) : v ≠ ∅ := by
  unfold extendAt at hx
  by_cases hk : x = k
  · rw [hk, Finmap.lookup_insert] at hx
    rw [← Option.some.inj hx]
    exact extend_ne_empty h
  · rw [Finmap.lookup_insert_of_ne _ hk] at hx
    exact hm x v hx

namespace Walk

theorem mem_order (walk : Walk K V) {m : Map K V} {k : K} {v : V} :
    ⟨k, v⟩ ∈ walk.order m ↔ m.lookup k = some v := by
  rw [← Multiset.mem_coe, walk.lists, ← Finmap.mem_lookup_iff, Option.mem_def]

theorem toFinmap_order (walk : Walk K V) (m : Map K V) : (walk.order m).toFinmap = m := by
  apply Finmap.ext_lookup
  intro k
  rw [Finmap.dlookup_list_toFinmap]
  ext v
  rw [← Option.mem_def, List.mem_dlookup_iff (walk.nodupKeys m), walk.mem_order]

theorem exists_last {m : Map K V} {k : K} {v : V} (h : m.lookup k = some v) :
    ∃ (walk : Walk K V) (before : List (Σ _ : K, V)), walk.order m = before ++ [⟨k, v⟩] := by
  classical
  obtain ⟨e, he⟩ : ∃ e : Σ _ : K, V, e = ⟨k, v⟩ := ⟨_, rfl⟩
  have hmem : e ∈ m.entries.toList := by
    rw [Multiset.mem_toList, he, ← Finmap.mem_lookup_iff]
    exact h
  have hperm : (m.entries.toList.erase e ++ [e]).Perm m.entries.toList :=
    (List.perm_append_singleton _ _).trans (List.perm_cons_erase hmem).symm
  rw [← he]
  refine ⟨⟨fun m' => if m' = m then m.entries.toList.erase e ++ [e] else m'.entries.toList,
    fun m' => ?_⟩, _, if_pos rfl⟩
  split
  · rename_i heq
    rw [heq, Multiset.coe_eq_coe.mpr hperm, Multiset.coe_toList]
  · exact Multiset.coe_toList _

/-- Ascending keys, the order of a `BTreeMap`. -/
def ascending [LinearOrder K] : Walk K V where
  order m := m.keys.sort.filterMap fun k => (m.lookup k).map (Sigma.mk k)
  lists m := by
    refine (Multiset.Nodup.ext ?_ ?_).mpr fun e => ?_
    · refine Multiset.coe_nodup.mpr ((Finset.sort_nodup _ _).filterMap fun k₁ k₂ e h₁ h₂ => ?_)
      obtain ⟨v₁, _, rfl⟩ := Option.map_eq_some_iff.mp h₁
      obtain ⟨v₂, _, he⟩ := Option.map_eq_some_iff.mp h₂
      exact (congrArg Sigma.fst he).symm
    · exact Multiset.Nodup.of_map Sigma.fst m.nodupKeys.nodup_keys
    · obtain ⟨k, v⟩ := e
      rw [← Finmap.mem_lookup_iff, Multiset.mem_coe, List.mem_filterMap]
      constructor
      · rintro ⟨k', _, h⟩
        obtain ⟨v', hv, he⟩ := Option.map_eq_some_iff.mp h
        obtain ⟨rfl, rfl⟩ := Sigma.mk.inj he
        exact hv
      · intro h
        have hmem : k ∈ m.keys := Finmap.mem_keys.mpr (Finmap.mem_of_lookup_eq_some h)
        exact ⟨k, (Finset.mem_sort _).mpr hmem, Option.map_eq_some_iff.mpr ⟨v, h, rfl⟩⟩

/-- Ascending byte strings. -/
def ascendingBytes : Walk (List UInt8) V :=
  let _ : LinearOrder (List UInt8) :=
    LinearOrder.lift' (List.map UInt8.toNat)
      (List.map_injective_iff.mpr fun _ _ => UInt8.toNat_inj.mp)
  ascending

end Walk

end Map

end CommandCenter.Rust
