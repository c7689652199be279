import Mathlib.Data.List.Sort
import Mathlib.Data.List.Rotate

/-!
# Rankings

A ranking lists some elements by a key. Where no two keys are equal there is one way to do so.

* `rankBy_unique`, `eq_rankBy_iff`: an ordered arrangement of the elements is the ranking.
* `filter_rankBy`: a ranking of some of the elements is the part of the whole ranking.
* `find?_pairwise`: the first of a ranking with a property ranks before the others with it.
* `findIdx?_eq_some_iff_of_unique`: an element that is alone with a property is the first with it.
* `flatMap_pages`: the pages of a list, one after the other, are the list.
* `getElem?_filter`: a place in a part of a list is the number of those before it that are in it.
-/

namespace CommandCenter.Library

variable {α β : Type*}

section Ranking

variable [LinearOrder β] {key : α → β} {l m : List α}

/-- The elements by their keys, least first; equal ones stay in their order. -/
def rankBy (key : α → β) (l : List α) : List α := l.mergeSort fun a b => decide (key a ≤ key b)

theorem rankBy_perm (key : α → β) (l : List α) : (rankBy key l).Perm l := List.mergeSort_perm _ _

theorem pairwise_rankBy (key : α → β) (l : List α) :
    (rankBy key l).Pairwise fun a b => key a ≤ key b := by
  have hsorted : (rankBy key l).Pairwise fun a b => decide (key a ≤ key b) = true :=
    List.pairwise_mergeSort
      (fun a b c hab hbc => by simp only [decide_eq_true_eq] at *; exact le_trans hab hbc)
      (fun a b => by simpa using le_total (key a) (key b)) l
  exact hsorted.imp fun h => by simpa using h

/-- There is one way to list elements with different keys in order. -/
theorem rankBy_unique (hkeys : (l.map key).Nodup) (hperm : m.Perm l)
    (hm : m.Pairwise fun a b => key a ≤ key b) : m = rankBy key l := by
  refine List.Perm.eq_of_pairwise (fun a b ha hb hab hba => ?_) hm (pairwise_rankBy key l)
    (hperm.trans (rankBy_perm key l).symm)
  have hbl : b ∈ l := (rankBy_perm key l).subset hb
  exact List.inj_on_of_nodup_map hkeys (hperm.subset ha) hbl (le_antisymm hab hba)

/-- The ranking is the only strictly ordered arrangement. -/
theorem eq_rankBy_iff (hkeys : (l.map key).Nodup) :
    m.Perm l ∧ m.Pairwise (fun a b => key a < key b) ↔ m = rankBy key l := by
  constructor
  · rintro ⟨hperm, horder⟩
    exact rankBy_unique hkeys hperm (horder.imp fun h => h.le)
  · rintro rfl
    have hne := List.pairwise_map.mp (((rankBy_perm key l).map key).nodup_iff.mpr hkeys)
    refine ⟨rankBy_perm key l, (hne.and (pairwise_rankBy key l)).imp fun h => ?_⟩
    exact lt_of_le_of_ne h.2 h.1

theorem rankBy_congr (hkeys : (l.map key).Nodup) (h : m.Perm l) : rankBy key m = rankBy key l :=
  rankBy_unique hkeys ((rankBy_perm key m).trans h) (pairwise_rankBy key m)

/-- A part of the ranking is the ranking of the part. -/
theorem filter_rankBy (hkeys : (l.map key).Nodup) (p : α → Bool) :
    (rankBy key l).filter p = rankBy key (l.filter p) := by
  apply rankBy_unique
  · exact hkeys.sublist (List.filter_sublist.map key)
  · exact (rankBy_perm key l).filter p
  · exact (pairwise_rankBy key l).filter p

end Ranking

/-- The first element with a property comes before every other one with it. -/
theorem find?_pairwise {R : α → α → Prop} (hrefl : ∀ a, R a a) {l : List α} (h : l.Pairwise R)
    {p : α → Bool} {a b : α} (hfind : l.find? p = some a) (hb : b ∈ l) (hp : p b = true) :
    R a b := by
  obtain ⟨-, before, after, rfl, hbefore⟩ := List.find?_eq_some_iff_append.mp hfind
  rcases List.mem_append.mp hb with hb | hb
  · have hnot := hbefore b hb
    rw [hp] at hnot
    cases hnot
  · rcases List.mem_cons.mp hb with rfl | hb
    · exact hrefl b
    · exact (List.pairwise_cons.mp (List.pairwise_append.mp h).2.1).1 b hb

/-- Where one element at most has a property, its place is where it is found. -/
theorem findIdx?_eq_some_iff_of_unique {γ : Type*} {f : α → γ} {l : List α}
    (hnodup : (l.map f).Nodup) {p : α → Bool}
    (hp : ∀ a b, p a = true → p b = true → f a = f b) {i : Nat} :
    l.findIdx? p = some i ↔ ∃ a, l[i]? = some a ∧ p a = true := by
  rw [List.findIdx?_eq_some_iff_getElem]
  constructor
  · rintro ⟨hi, hfound, _⟩
    exact ⟨l[i], List.getElem?_eq_getElem hi, hfound⟩
  · rintro ⟨a, ha, hpa⟩
    obtain ⟨hi, rfl⟩ := List.getElem?_eq_some_iff.mp ha
    refine ⟨hi, hpa, fun j hji hpj => ?_⟩
    have hj : j < (l.map f).length := by
      rw [List.length_map]
      exact Nat.lt_trans hji hi
    have hi' : i < (l.map f).length := by
      rw [List.length_map]
      exact hi
    have hsame : (l.map f)[j] = (l.map f)[i] := by
      rw [List.getElem_map, List.getElem_map]
      exact hp _ _ hpj hpa
    have hji' : j = i := (List.Nodup.getElem_inj_iff hnodup).mp hsame
    omega

/-- The pages of a list, one after the other. -/
theorem flatMap_pages (size pages : Nat) (l : List α) :
    (List.range pages).flatMap (fun page => (l.drop (size * page)).take size) =
      l.take (size * pages) := by
  induction pages with
  | zero => simp
  | succ pages ih =>
    rw [List.range_succ, List.flatMap_append, ih, List.flatMap_singleton, Nat.mul_succ,
      List.take_add]

/-- The place of an element in a part is the number of those before it that are in the part. -/
theorem getElem?_filter {p : α → Bool} {l : List α} {n : Nat} {x : α} :
    (l.filter p)[n]? = some x ↔
      ∃ before after, l = before ++ x :: after ∧ p x = true ∧ before.countP p = n := by
  constructor
  · intro h
    induction l generalizing n with
    | nil => simp at h
    | cons y l ih =>
      by_cases hy : p y = true
      · rw [List.filter_cons_of_pos hy] at h
        cases n with
        | zero =>
          obtain rfl : y = x := by simpa using h
          exact ⟨[], l, rfl, hy, rfl⟩
        | succ n =>
          rw [List.getElem?_cons_succ] at h
          obtain ⟨before, after, rfl, hx, hcount⟩ := ih h
          exact ⟨y :: before, after, rfl, hx, by rw [List.countP_cons_of_pos hy, hcount]⟩
      · rw [List.filter_cons_of_neg hy] at h
        obtain ⟨before, after, rfl, hx, hcount⟩ := ih h
        exact ⟨y :: before, after, rfl, hx, by rw [List.countP_cons_of_neg hy, hcount]⟩
  · rintro ⟨before, after, rfl, hx, rfl⟩
    rw [List.filter_append, List.countP_eq_length_filter, List.getElem?_append_right le_rfl,
      Nat.sub_self, List.filter_cons_of_pos hx, List.getElem?_cons_zero]

end CommandCenter.Library

/-!
## Rotations

A list is shown one element at a time. Who asks for the next one names the one before it by its
key; a key that no element has stands in front of the first.

* `rotation_eq`: what is shown from any key on.
* `rotation_window`: as many answers in a row as there are elements are all of them, in their order.
-/

namespace CommandCenter.Library

variable {α κ : Type*} [DecidableEq κ] (key : α → κ) (l : List α)

/-- The place behind the element with the key. -/
def placeAfter (previous : κ) : Nat :=
  match l.findIdx? fun a => key a == previous with
  | some i => if i + 1 < l.length then i + 1 else 0
  | none => 0

/-- The answers to `n` questions, of which each names the answer before. -/
def rotation : Nat → κ → List (Option α)
  | 0, _ => []
  | n + 1, previous =>
    let answer := l[placeAfter key l previous]?
    answer :: rotation n ((answer.map key).getD previous)

variable {key l}

theorem placeAfter_lt (hl : l ≠ []) (previous : κ) : placeAfter key l previous < l.length := by
  have hpos : 0 < l.length := List.length_pos_iff.mpr hl
  unfold placeAfter
  split
  · split
    · assumption
    · exact hpos
  · exact hpos

theorem placeAfter_of_notMem {previous : κ} (h : previous ∉ l.map key) :
    placeAfter key l previous = 0 := by
  have hnone : l.findIdx? (fun a => key a == previous) = none := by
    rw [List.findIdx?_eq_none_iff]
    intro a ha
    exact beq_false_of_ne fun hkey => h (List.mem_map.mpr ⟨a, ha, hkey⟩)
  rw [placeAfter, hnone]

/-- Behind a key that is not the last stands something else than the first. -/
theorem placeAfter_pos {i : Nat} {a : α} (hlast : i + 1 < l.length) (h : l[i]? = some a) :
    0 < placeAfter key l (key a) := by
  unfold placeAfter
  split
  · rename_i j hfind
    obtain ⟨_, _, hbefore⟩ := List.findIdx?_eq_some_iff_getElem.mp hfind
    obtain ⟨hi, rfl⟩ := List.getElem?_eq_some_iff.mp h
    have hji : j ≤ i := by
      by_contra hlt
      exact hbefore i (Nat.lt_of_not_le hlt) (beq_self_eq_true _)
    rw [if_pos (by omega)]
    exact Nat.succ_pos j
  · rename_i hnone
    have hother := List.findIdx?_eq_none_iff.mp hnone a (List.mem_of_getElem? h)
    rw [beq_self_eq_true] at hother
    cases hother

/-- Behind an element stands the next one, or the first. -/
theorem placeAfter_key (hkeys : (l.map key).Nodup) {i : Nat} {a : α} (h : l[i]? = some a) :
    placeAfter key l (key a) = (i + 1) % l.length := by
  have hi : i < l.length := (List.getElem?_eq_some_iff.mp h).1
  have hfind : l.findIdx? (fun b => key b == key a) = some i := by
    rw [findIdx?_eq_some_iff_of_unique hkeys]
    · exact ⟨a, h, beq_self_eq_true _⟩
    · intro b c hb hc
      exact (eq_of_beq hb).trans (eq_of_beq hc).symm
  rw [placeAfter, hfind]
  dsimp only
  split
  · rename_i hlt
    exact (Nat.mod_eq_of_lt hlt).symm
  · have hlast : i + 1 = l.length := by omega
    rw [hlast, Nat.mod_self]

/-- From any key on, the elements come round in their order. -/
theorem rotation_eq (hkeys : (l.map key).Nodup) (hl : l ≠ []) (n : Nat) (previous : κ) :
    rotation key l n previous =
      (List.range n).map fun j => l[(placeAfter key l previous + j) % l.length]? := by
  induction n generalizing previous with
  | zero => rfl
  | succ n ih =>
    have hlt : placeAfter key l previous < l.length := placeAfter_lt hl previous
    obtain ⟨a, ha⟩ : ∃ a, l[placeAfter key l previous]? = some a :=
      ⟨_, List.getElem?_eq_getElem hlt⟩
    rw [rotation, List.range_succ_eq_map, List.map_cons, List.map_map, Nat.add_zero,
      Nat.mod_eq_of_lt hlt]
    refine congrArg _ ?_
    rw [ha, Option.map_some, Option.getD_some, ih, placeAfter_key hkeys ha]
    apply List.map_congr_left
    intro j _
    rw [Function.comp, Nat.mod_add_mod, Nat.succ_eq_add_one, Nat.add_right_comm, Nat.add_assoc]

theorem rotation_append (m n : Nat) (previous : κ) :
    ∃ previous', rotation key l (m + n) previous =
      rotation key l m previous ++ rotation key l n previous' := by
  induction m generalizing previous with
  | zero => exact ⟨previous, by rw [Nat.zero_add]; rfl⟩
  | succ m ih =>
    obtain ⟨previous', h⟩ := ih ((l[placeAfter key l previous]?.map key).getD previous)
    refine ⟨previous', ?_⟩
    rw [Nat.succ_add, rotation, h]
    rfl

theorem length_rotation (n : Nat) (previous : κ) : (rotation key l n previous).length = n := by
  induction n generalizing previous with
  | zero => rfl
  | succ n ih => exact congrArg Nat.succ (ih _)

theorem rotation_round (hkeys : (l.map key).Nodup) (previous : κ) :
    rotation key l l.length previous = (l.rotate (placeAfter key l previous)).map some := by
  by_cases hl : l = []
  · subst hl
    rfl
  · rw [rotation_eq hkeys hl]
    apply List.ext_getElem?
    intro i
    by_cases hi : i < l.length
    · rw [List.getElem?_map, List.getElem?_map, List.getElem?_range hi, List.getElem?_rotate hi,
        Option.map_some, Nat.add_comm]
      have hlt : (i + placeAfter key l previous) % l.length < l.length :=
        Nat.mod_lt _ (List.length_pos_iff.mpr hl)
      rw [List.getElem?_eq_getElem hlt, Option.map_some]
    · rw [List.getElem?_eq_none, List.getElem?_eq_none]
      · rw [List.length_map, List.length_rotate]
        exact Nat.le_of_not_lt hi
      · rw [List.length_map, List.length_range]
        exact Nat.le_of_not_lt hi

/-- However many answers there were before, the next round shows every element once. -/
theorem rotation_window (hkeys : (l.map key).Nodup) (before : Nat) (previous : κ) :
    ∃ k, (rotation key l (before + l.length) previous).drop before =
      (l.rotate k).map some := by
  obtain ⟨previous', h⟩ : ∃ previous', rotation key l (before + l.length) previous =
      rotation key l before previous ++ rotation key l l.length previous' :=
    rotation_append before l.length previous
  refine ⟨placeAfter key l previous', ?_⟩
  rw [h, List.drop_left' (length_rotation before previous), rotation_round hkeys]

end CommandCenter.Library
