import Mathlib.Data.Set.Insert

/-!
# Views that are kept by notices

The members of a group come and go at once, and an observer learns of it later: of an arrival when
it is announced, of a departure by a notice that is queued first and delivered some time after.
Between the two the observer's view is off, by what is under way and by nothing else.

* `Tracks V M L A`: what the view `V` holds beyond the members `M` is in `L`, the names of which a
  notice of departure is still to come, and what it lacks is in `A`, those whose arrival is still to
  be announced.
* One rule for each thing that can happen: `enter`, `depart`, `deliver`, `announce`; and `withhold`
  and `miss` for an observer that a delivery or an announcement does not reach.
* `Tracks.quiet`: once nothing is under way the view is the group.
-/

namespace CommandCenter.Library

variable {α : Type*}

/-- The view is off by what is under way at most. -/
structure Tracks (V M L A : Set α) : Prop where
  known : V ⊆ M ∪ L
  complete : M ⊆ V ∪ A

namespace Tracks

variable {V M L A L' A' P : Set α} {x : α}

theorem fresh (M L A : Set α) : Tracks M M L A where
  known := Set.subset_union_left
  complete := Set.subset_union_left

/-- More may be taken to be under way than is. -/
theorem mono (h : Tracks V M L A) (hL : L ⊆ L') (hA : A ⊆ A') : Tracks V M L' A' where
  known := h.known.trans (Set.union_subset_union_right M hL)
  complete := h.complete.trans (Set.union_subset_union_right V hA)

/-- Once nothing is under way, the view is the group. -/
theorem quiet (h : Tracks V M ∅ ∅) : V = M := by
  apply Set.Subset.antisymm
  · simpa using h.known
  · simpa using h.complete

/-- Somebody enters, whose arrival is to be announced. -/
theorem enter (h : Tracks V M L A) (hx : x ∈ A') (hA : A ⊆ A') : Tracks V (insert x M) L A' where
  known := h.known.trans (Set.union_subset_union_left L (Set.subset_insert x M))
  complete := Set.insert_subset (Or.inr hx) (h.complete.trans (Set.union_subset_union_right V hA))

/-- Some depart, of whom notices are to come. -/
theorem depart {M' : Set α} (h : Tracks V M L A) (hM : M' ⊆ M) (hgone : M ⊆ M' ∪ L')
    (hL : L ⊆ L') : Tracks V M' L' A where
  known := h.known.trans (Set.union_subset hgone (hL.trans Set.subset_union_right))
  complete := hM.trans h.complete

/-- Notices of departure are delivered. A member among them must be one whose arrival is still to be
announced. -/
theorem deliver (h : Tracks V M L A) (hP : P ∩ M ⊆ A) (hL : L \ P ⊆ L') :
    Tracks (V \ P) M L' A where
  known := by
    rintro y ⟨hy, hyP⟩
    rcases h.known hy with hm | hl
    · exact Or.inl hm
    · exact Or.inr (hL ⟨hl, hyP⟩)
  complete := by
    intro y hy
    rcases h.complete hy with hv | ha
    · by_cases hyP : y ∈ P
      · exact Or.inr (hP ⟨hyP, hy⟩)
      · exact Or.inl ⟨hv, hyP⟩
    · exact Or.inr ha

/-- Notices are delivered that do not reach the observer. They must be of nobody in its view but
members, and those of whom another notice is to come. -/
theorem withhold (h : Tracks V M L A) (hP : V ∩ P ⊆ M ∪ L') (hL : L \ P ⊆ L') :
    Tracks V M L' A where
  known := by
    intro y hy
    by_cases hyP : y ∈ P
    · exact hP ⟨hy, hyP⟩
    · rcases h.known hy with hm | hl
      · exact Or.inl hm
      · exact Or.inr (hL ⟨hl, hyP⟩)
  complete := h.complete

/-- An arrival is announced, of a member or of one of whom a notice of departure is to come. -/
theorem announce (h : Tracks V M L A) (hx : x ∈ M ∪ L) (hA : A \ {x} ⊆ A') :
    Tracks (insert x V) M L A' where
  known := Set.insert_subset hx h.known
  complete := by
    intro y hy
    by_cases hyx : y = x
    · exact Or.inl (Or.inl hyx)
    · rcases h.complete hy with hv | ha
      · exact Or.inl (Or.inr hv)
      · exact Or.inr (hA ⟨ha, hyx⟩)

/-- An arrival is announced and does not reach the observer, who knows already. -/
theorem miss (h : Tracks V M L A) (hx : x ∈ M → x ∈ V) (hA : A \ {x} ⊆ A') : Tracks V M L A' where
  known := h.known
  complete := by
    intro y hy
    rcases h.complete hy with hv | ha
    · exact Or.inl hv
    · by_cases hyx : y = x
      · subst hyx
        exact Or.inl (hx hy)
      · exact Or.inr (hA ⟨ha, hyx⟩)

end Tracks

end CommandCenter.Library
