import Mathlib.Data.Finmap

/-!
# A unique index over a map

`Indexes name m idx` says that `idx` is the index of the map `m` by the unique name that each
of its values carries: the two are inverse to each other.

* `Indexes.name_ne`: values under different keys have different names.
* `Indexes.put_iff`: storing a value under a key, its old name removed from the index and its
  new one entered, keeps the index exactly if nobody else has the new name.
* `Indexes.replace`: a value may be replaced by one of the same name.
* `Indexes.erase`: removing a value frees its name.
-/

namespace CommandCenter.Library

variable {K V I : Type*} [DecidableEq K] [DecidableEq I]

/-- Each map is the inverse of the other. -/
structure Indexes (name : V → I) (m : Finmap fun _ : K => V) (idx : Finmap fun _ : I => K) :
    Prop where
  named : ∀ k v, m.lookup k = some v → idx.lookup (name v) = some k
  entries : ∀ i k, idx.lookup i = some k → ∃ v, m.lookup k = some v ∧ name v = i

/-- Nobody but `k` has the name. -/
def FreeFor (idx : Finmap fun _ : I => K) (i : I) (k : K) : Prop :=
  ∀ holder, idx.lookup i = some holder → holder = k

/-- The index once the name that a value carried is struck. -/
def unname (name : V → I) (idx : Finmap fun _ : I => K) : Option V → Finmap fun _ : I => K
  | some v => idx.erase (name v)
  | none => idx

namespace Indexes

variable {name : V → I} {m : Finmap fun _ : K => V} {idx : Finmap fun _ : I => K}

theorem empty : Indexes (K := K) name ∅ ∅ :=
  ⟨fun _ _ h => by simp at h, fun _ _ h => by simp at h⟩

theorem name_ne (h : Indexes name m idx) {k₁ k₂ : K} {v₁ v₂ : V}
    (h₁ : m.lookup k₁ = some v₁) (h₂ : m.lookup k₂ = some v₂) (hne : k₁ ≠ k₂) :
    name v₁ ≠ name v₂ := by
  intro he
  have hk := h.named k₁ v₁ h₁
  rw [he, h.named k₂ v₂ h₂] at hk
  exact hne (Option.some.inj hk).symm

theorem lookup_unname (h : Indexes name m idx) (k : K) (i : I) :
    (unname name idx (m.lookup k)).lookup i =
      if idx.lookup i = some k then none else idx.lookup i := by
  cases hv : m.lookup k with
  | none =>
    have hne : idx.lookup i ≠ some k := by
      intro hi
      obtain ⟨v, hv', _⟩ := h.entries i k hi
      rw [hv] at hv'
      cases hv'
    rw [if_neg hne]
    rfl
  | some v =>
    have hold := h.named k v hv
    change (idx.erase (name v)).lookup i = _
    by_cases hi : i = name v
    · rw [hi, hold, if_pos rfl, Finmap.lookup_erase]
    · have hne : idx.lookup i ≠ some k := by
        intro hik
        obtain ⟨v', hv', rfl⟩ := h.entries i k hik
        rw [hv] at hv'
        cases hv'
        exact hi rfl
      rw [if_neg hne, Finmap.lookup_erase_ne hi]

/-- Storing a value keeps the index exactly if nobody else has its name. -/
theorem put_iff (h : Indexes name m idx) (k : K) (v : V) :
    Indexes name (m.insert k v) ((unname name idx (m.lookup k)).insert (name v) k) ↔
      FreeFor idx (name v) k := by
  constructor
  · intro hafter holder hholder
    by_contra hne
    obtain ⟨v', hv', hname⟩ := h.entries (name v) holder hholder
    have hstored : (m.insert k v).lookup holder = some v' := by
      rw [Finmap.lookup_insert_of_ne _ hne, hv']
    have hidx := hafter.named holder v' hstored
    rw [hname, Finmap.lookup_insert] at hidx
    exact hne (Option.some.inj hidx).symm
  · intro hfree
    constructor
    · intro k' v' hv'
      by_cases hk : k' = k
      · subst hk
        rw [Finmap.lookup_insert] at hv'
        obtain rfl := Option.some.inj hv'
        exact Finmap.lookup_insert _
      · rw [Finmap.lookup_insert_of_ne _ hk] at hv'
        have hidx := h.named k' v' hv'
        have hname : name v' ≠ name v := by
          intro he
          exact hk (hfree k' (he ▸ hidx))
        rw [Finmap.lookup_insert_of_ne _ hname, h.lookup_unname, hidx]
        exact if_neg fun he => hk (Option.some.inj he)
    · intro i k' hi
      by_cases hname : i = name v
      · subst hname
        rw [Finmap.lookup_insert] at hi
        obtain rfl := Option.some.inj hi
        exact ⟨v, Finmap.lookup_insert _, rfl⟩
      · rw [Finmap.lookup_insert_of_ne _ hname, h.lookup_unname] at hi
        split at hi
        · cases hi
        · rename_i hother
          obtain ⟨v', hv', rfl⟩ := h.entries i k' hi
          have hk : k' ≠ k := fun he => hother (he ▸ hi)
          exact ⟨v', by rw [Finmap.lookup_insert_of_ne _ hk, hv'], rfl⟩

theorem replace (h : Indexes name m idx) {k : K} {v v' : V} (hv : m.lookup k = some v)
    (hname : name v' = name v) : Indexes name (m.insert k v') idx := by
  constructor
  · intro k₁ v₁ hv₁
    by_cases hk : k₁ = k
    · subst hk
      rw [Finmap.lookup_insert] at hv₁
      obtain rfl := Option.some.inj hv₁
      rw [hname]
      exact h.named k₁ v hv
    · rw [Finmap.lookup_insert_of_ne _ hk] at hv₁
      exact h.named k₁ v₁ hv₁
  · intro i k₁ hi
    obtain ⟨v₁, hv₁, rfl⟩ := h.entries i k₁ hi
    by_cases hk : k₁ = k
    · subst hk
      rw [hv] at hv₁
      obtain rfl := Option.some.inj hv₁
      exact ⟨v', Finmap.lookup_insert _, hname⟩
    · exact ⟨v₁, by rw [Finmap.lookup_insert_of_ne _ hk, hv₁], rfl⟩

/-- Removing a value frees its name and no other. -/
theorem erase (h : Indexes name m idx) {k : K} {v : V} (hv : m.lookup k = some v) :
    Indexes name (m.erase k) (idx.erase (name v)) := by
  constructor
  · intro k' v' hv'
    by_cases hk : k' = k
    · subst hk
      rw [Finmap.lookup_erase] at hv'
      cases hv'
    · rw [Finmap.lookup_erase_ne hk] at hv'
      rw [Finmap.lookup_erase_ne (h.name_ne hv' hv hk)]
      exact h.named k' v' hv'
  · intro i k' hi
    by_cases hname : i = name v
    · rw [hname, Finmap.lookup_erase] at hi
      cases hi
    · rw [Finmap.lookup_erase_ne hname] at hi
      obtain ⟨v', hv', rfl⟩ := h.entries i k' hi
      refine ⟨v', ?_, rfl⟩
      rw [Finmap.lookup_erase_ne, hv']
      rintro rfl
      rw [hv] at hv'
      cases hv'
      exact hname rfl

end Indexes

end CommandCenter.Library
