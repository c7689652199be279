import Mathlib.Data.List.Find
import Mathlib.Data.List.Nodup

/-!
# Tables with a unique index

A table is the list of its rows, in the order of their ids, and `key` gives the columns of a row
that a unique index is over. The statements are those of SQL: a lookup by the key, an insertion
that is ignored on a conflict, and one that replaces the row it conflicts with.

* `selectKey_eq_some_iff`, `find?_selectKey`: a lookup in a table whose keys are unique.
* `selectKey_append`, `selectKey_upsert`, `selectKey_delete`, `selectKey_map`: a lookup after a
  statement.
* `upsert_map`: a statement leaves the columns outside the key to themselves.
* `nodup_concat`, `nodup_upsert`, `nodup_filter`: the statements keep the keys unique.
-/

namespace CommandCenter.Library

variable {ρ κ : Type*} [DecidableEq κ]

def selectKey (key : ρ → κ) (k : κ) (rows : List ρ) : Option ρ :=
  rows.find? fun row => key row = k

def insertOrIgnore (key : ρ → κ) (row : ρ) (rows : List ρ) : Option (List ρ) :=
  if (selectKey key (key row) rows).isSome then none else some (rows ++ [row])

/-- `INSERT … ON CONFLICT DO UPDATE`. -/
def upsert (key : ρ → κ) (row : ρ) (rows : List ρ) : List ρ :=
  match insertOrIgnore key row rows with
  | some rows => rows
  | none => rows.map fun r => if key r = key row then row else r

variable {key : ρ → κ} {rows : List ρ} {row : ρ} {k : κ}

theorem selectKey_eq_none_iff : selectKey key k rows = none ↔ ∀ r ∈ rows, key r ≠ k := by
  rw [selectKey, List.find?_eq_none]
  simp only [decide_eq_true_eq, ne_eq]

theorem of_selectKey (h : selectKey key k rows = some row) : row ∈ rows ∧ key row = k := by
  unfold selectKey at h
  have hkey := List.find?_some h
  exact ⟨List.mem_of_find?_eq_some h, of_decide_eq_true hkey⟩

/-- Where the keys are unique, a row is the one that is found under its key. -/
theorem selectKey_eq_some_iff (hkeys : (rows.map key).Nodup) :
    selectKey key k rows = some row ↔ row ∈ rows ∧ key row = k := by
  refine ⟨of_selectKey, ?_⟩
  rintro ⟨hmem, rfl⟩
  cases hfound : selectKey key (key row) rows with
  | none => exact absurd rfl (selectKey_eq_none_iff.mp hfound row hmem)
  | some other =>
    obtain ⟨hother, hkey⟩ := of_selectKey hfound
    exact congrArg some (List.inj_on_of_nodup_map hkeys hother hmem hkey)

/-- A condition beside the key filters the row that the key finds. -/
theorem find?_selectKey (hkeys : (rows.map key).Nodup) (p : ρ → Bool) :
    (rows.find? fun r => decide (key r = k) && p r) = (selectKey key k rows).filter p := by
  ext row
  rw [Option.filter_eq_some_iff, selectKey_eq_some_iff hkeys]
  constructor
  · intro h
    have hcond := List.find?_some h
    rw [Bool.and_eq_true, decide_eq_true_eq] at hcond
    exact ⟨⟨List.mem_of_find?_eq_some h, hcond.1⟩, hcond.2⟩
  · rintro ⟨⟨hmem, hkey⟩, hp⟩
    cases hfound : rows.find? fun r => decide (key r = k) && p r with
    | none =>
      have hnone := List.find?_eq_none.mp hfound row hmem
      rw [hp, decide_eq_true hkey] at hnone
      exact absurd rfl hnone
    | some other =>
      have hcond := List.find?_some hfound
      rw [Bool.and_eq_true, decide_eq_true_eq] at hcond
      exact congrArg some (List.inj_on_of_nodup_map hkeys (List.mem_of_find?_eq_some hfound) hmem
        (hcond.1.trans hkey.symm))

/-! ## Lookups after a statement -/

theorem selectKey_append (more : List ρ) :
    selectKey key k (rows ++ more) = (selectKey key k rows).or (selectKey key k more) :=
  List.find?_append

theorem selectKey_singleton : selectKey key k [row] = if key row = k then some row else none := by
  unfold selectKey
  split
  · rename_i h
    exact List.find?_cons_of_pos (decide_eq_true h)
  · rename_i h
    exact List.find?_cons_of_neg (by simpa using h)

/-- A lookup in the image of a table. -/
theorem selectKey_map {ρ' κ' : Type*} [DecidableEq κ'] {key' : ρ' → κ'} {k' : κ'} (f : ρ → ρ')
    (h : ∀ r ∈ rows, key' (f r) = k' ↔ key r = k) :
    selectKey key' k' (rows.map f) = (selectKey key k rows).map f := by
  rw [selectKey, List.find?_map, selectKey]
  refine congrArg _ (List.find?_congr fun r hr => ?_)
  exact decide_eq_decide.mpr (h r hr)

theorem insertOrIgnore_eq_none (h : insertOrIgnore key row rows = none) :
    ∃ r, selectKey key (key row) rows = some r := by
  unfold insertOrIgnore at h
  split at h
  · rename_i hsome
    exact Option.isSome_iff_exists.mp hsome
  · cases h

theorem insertOrIgnore_eq_some {inserted : List ρ}
    (h : insertOrIgnore key row rows = some inserted) :
    selectKey key (key row) rows = none ∧ inserted = rows ++ [row] := by
  unfold insertOrIgnore at h
  split at h
  · cases h
  · rename_i hnone
    exact ⟨Option.not_isSome_iff_eq_none.mp hnone, (Option.some.inj h).symm⟩

theorem selectKey_upsert :
    selectKey key k (upsert key row rows) =
      if key row = k then some row else selectKey key k rows := by
  unfold upsert
  split
  · rename_i inserted hinsert
    obtain ⟨hnone, rfl⟩ := insertOrIgnore_eq_some hinsert
    rw [selectKey_append, selectKey_singleton]
    split
    · rename_i hkey
      rw [← hkey, hnone]
      rfl
    · exact Option.or_none
  · rename_i hinsert
    obtain ⟨old, hold⟩ := insertOrIgnore_eq_none hinsert
    have hsame : selectKey key k (rows.map fun r => if key r = key row then row else r) =
        (selectKey key k rows).map fun r => if key r = key row then row else r := by
      refine selectKey_map _ fun r _ => ?_
      split
      · rename_i hkey
        rw [hkey]
      · rfl
    rw [hsame]
    split
    · rename_i hkey
      rw [← hkey, hold, Option.map_some, if_pos (of_selectKey hold).2]
    · rename_i hkey
      cases hfound : selectKey key k rows with
      | none => rfl
      | some r =>
        have hr : key r ≠ key row := fun h => hkey (h.symm.trans (of_selectKey hfound).2)
        rw [Option.map_some, if_neg hr]

/-- Columns outside the key take no part in a statement. -/
theorem upsert_map {ρ' : Type*} {key' : ρ' → κ} (f : ρ → ρ') (h : ∀ r, key' (f r) = key r) :
    (upsert key row rows).map f = upsert key' (f row) (rows.map f) := by
  have hselect : selectKey key' (key' (f row)) (rows.map f) =
      (selectKey key (key row) rows).map f := by
    rw [h row]
    exact selectKey_map f fun r _ => by rw [h r]
  cases hfound : selectKey key (key row) rows with
  | none =>
    rw [hfound] at hselect
    simp [upsert, insertOrIgnore, hfound, hselect]
  | some old =>
    rw [hfound] at hselect
    simp only [upsert, insertOrIgnore, hfound, hselect, Option.map_some, Option.isSome_some,
      if_true, List.map_map]
    refine List.map_congr_left fun r _ => ?_
    show f (if key r = key row then row else r) =
      if key' (f r) = key' (f row) then f row else f r
    rw [h, h, apply_ite f]

/-- `DELETE` of the rows whose keys meet a condition. -/
theorem selectKey_delete (gone : κ → Prop) [DecidablePred gone] :
    selectKey key k (rows.filter fun r => ¬ gone (key r)) =
      if gone k then none else selectKey key k rows := by
  split
  · rename_i hgone
    refine selectKey_eq_none_iff.mpr fun r hr hkey => ?_
    rw [← hkey] at hgone
    exact of_decide_eq_true (List.mem_filter.mp hr).2 hgone
  · rename_i hkept
    rw [selectKey, List.find?_filter, selectKey]
    refine List.find?_congr fun r _ => decide_eq_decide.mpr ?_
    rw [decide_eq_true_eq, decide_eq_true_eq]
    exact ⟨fun h => h.2, fun h => ⟨h ▸ hkept, h⟩⟩

/-! ## Unique keys -/

theorem nodup_concat (hkeys : (rows.map key).Nodup)
    (hnone : selectKey key (key row) rows = none) : ((rows ++ [row]).map key).Nodup := by
  rw [List.map_append, List.map_singleton]
  refine hkeys.append (List.nodup_singleton _) (List.disjoint_singleton.mpr fun hmem => ?_)
  obtain ⟨r, hr, hkey⟩ := List.mem_map.mp hmem
  exact selectKey_eq_none_iff.mp hnone r hr hkey

theorem nodup_upsert (hkeys : (rows.map key).Nodup) (row : ρ) :
    ((upsert key row rows).map key).Nodup := by
  unfold upsert
  split
  · rename_i inserted hinsert
    obtain ⟨hnone, rfl⟩ := insertOrIgnore_eq_some hinsert
    exact nodup_concat hkeys hnone
  · rw [List.map_map]
    have hcomp : rows.map (key ∘ fun r => if key r = key row then row else r) = rows.map key := by
      refine List.map_congr_left fun r _ => ?_
      show key (if key r = key row then row else r) = key r
      split
      · rename_i hkey
        exact hkey.symm
      · rfl
    rw [hcomp]
    exact hkeys

omit [DecidableEq κ] in
theorem nodup_filter (hkeys : (rows.map key).Nodup) (p : ρ → Bool) :
    ((rows.filter p).map key).Nodup := hkeys.sublist (List.filter_sublist.map key)

theorem mem_upsert {r : ρ} (h : r ∈ upsert key row rows) : r = row ∨ r ∈ rows := by
  unfold upsert at h
  split at h
  · rename_i inserted hinsert
    rw [(insertOrIgnore_eq_some hinsert).2, List.mem_append, List.mem_singleton] at h
    exact h.symm
  · obtain ⟨old, hold, rfl⟩ := List.mem_map.mp h
    split
    · exact Or.inl rfl
    · exact Or.inr hold

end CommandCenter.Library
