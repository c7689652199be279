import Mathlib.Data.List.Chain
import Mathlib.Data.List.DropRight

/-!
# Words and the separators between them

A list over a separator `sep` has words, the parts between separators that are not empty.
`squeeze` leaves one separator of each run and none at the front.

* `squeeze_eq`: without the last separator, a squeezed list is its words with one separator
  between each two.
* `squeeze_of_spaced`: a list that is spaced so already is left alone.
* `getElem?_unwords`: where the separators are.
-/

namespace CommandCenter.Library

variable {α : Type*} [DecidableEq α]

/-- The parts between separators that are not empty. -/
def words (sep : α) (l : List α) : List (List α) := (l.splitOn sep).filter fun w => !w.isEmpty

/-- The words with one separator between each two. -/
def unwords (sep : α) (ws : List (List α)) : List α := [sep].intercalate ws

/-- Each run of separators becomes one, and none is left after `sep` or at the front. -/
def squeeze (sep : α) : Bool → List α → List α
  | _, [] => []
  | afterSep, a :: l =>
    if a = sep then
      if afterSep then squeeze sep true l else a :: squeeze sep true l
    else a :: squeeze sep false l

/-- No separator at the front, none at the end, and no two together. -/
structure Spaced (sep : α) (l : List α) : Prop where
  front : l.head? ≠ some sep
  back : l.getLast? ≠ some sep
  apart : l.IsChain fun a b => ¬ (a = sep ∧ b = sep)

variable {sep : α}

/-! ## Words -/

omit [DecidableEq α] in
theorem words_induction (sep : α) {P : List α → Prop} (last : ∀ w, sep ∉ w → P w)
    (step : ∀ w rest, sep ∉ w → P rest → P (w ++ sep :: rest)) (l : List α) : P l := by
  induction hn : l.length using Nat.strongRecOn generalizing l with
  | _ n ih =>
    by_cases hmem : sep ∈ l
    · obtain ⟨w, rest, rfl, hw⟩ := List.eq_append_cons_of_mem hmem
      have hlt : rest.length < n := by
        rw [← hn, List.length_append, List.length_cons]
        omega
      exact step w rest hw (ih _ hlt rest rfl)
    · exact last l hmem

theorem words_of_notMem {w : List α} (h : sep ∉ w) :
    words sep w = if w = [] then [] else [w] := by
  rw [words, List.splitOn_eq_singleton h]
  cases w <;> rfl

theorem words_append {w : List α} (h : sep ∉ w) (rest : List α) :
    words sep (w ++ sep :: rest) = words sep w ++ words sep rest := by
  rw [words, List.splitOn_append_cons_self_of_not_mem h, words_of_notMem h]
  cases w <;> rfl

theorem words_spec (l : List α) : ∀ w ∈ words sep l, w ≠ [] ∧ sep ∉ w := by
  have hlast : ∀ u : List α, sep ∉ u → ∀ w ∈ words sep u, w ≠ [] ∧ sep ∉ w := by
    intro u hu w hw
    rw [words_of_notMem hu] at hw
    split at hw
    · cases hw
    · rename_i hne
      rw [List.mem_singleton.mp hw]
      exact ⟨hne, hu⟩
  induction l using words_induction sep with
  | last u hu => exact hlast u hu
  | step u rest hu ih =>
    intro w hw
    rw [words_append hu] at hw
    rcases List.mem_append.mp hw with hw | hw
    · exact hlast u hu w hw
    · exact ih w hw

omit [DecidableEq α] in
theorem unwords_cons {w : List α} {ws : List (List α)} (h : ws ≠ []) :
    unwords sep (w :: ws) = w ++ sep :: unwords sep ws := by
  rw [unwords, List.intercalate_cons_of_ne_nil h, List.append_assoc]
  rfl

omit [DecidableEq α] in
theorem unwords_eq_nil {ws : List (List α)} (h : ∀ w ∈ ws, w ≠ []) :
    unwords sep ws = [] ↔ ws = [] := by
  cases ws with
  | nil => exact iff_of_true rfl rfl
  | cons w ws =>
    refine iff_of_false (fun hnil => ?_) (by simp)
    have hw := h w List.mem_cons_self
    by_cases hws : ws = []
    · subst hws
      exact hw (by simpa [unwords] using hnil)
    · rw [unwords_cons hws] at hnil
      exact hw (List.append_eq_nil_iff.mp hnil).1

/-! ## Squeezing -/

theorem squeeze_of_notMem {w : List α} (h : sep ∉ w) (afterSep : Bool) :
    squeeze sep afterSep w = w := by
  induction w generalizing afterSep with
  | nil => rfl
  | cons a w ih =>
    obtain ⟨ha, hw⟩ := not_or.mp (fun hmem => h (List.mem_cons.mpr hmem))
    rw [squeeze, if_neg fun he => ha he.symm, ih hw]

theorem squeeze_append {w : List α} (h : sep ∉ w) (hne : w ≠ []) (afterSep : Bool)
    (rest : List α) :
    squeeze sep afterSep (w ++ sep :: rest) = w ++ sep :: squeeze sep true rest := by
  induction w generalizing afterSep with
  | nil => exact absurd rfl hne
  | cons a w ih =>
    obtain ⟨ha, hw⟩ := not_or.mp (fun hmem => h (List.mem_cons.mpr hmem))
    rw [List.cons_append, squeeze, if_neg fun he => ha he.symm]
    cases w with
    | nil =>
      rw [List.nil_append, squeeze, if_pos rfl]
      rfl
    | cons b w => rw [ih hw (by simp)]; rfl

theorem rdropWhile_append (a b : List α) :
    (a ++ b).rdropWhile (· == sep) = if (b.rdropWhile (· == sep)) = [] then
      a.rdropWhile (· == sep) else a ++ b.rdropWhile (· == sep) := by
  unfold List.rdropWhile
  rw [List.reverse_append, List.dropWhile_append]
  simp only [List.isEmpty_iff, List.reverse_eq_nil_iff]
  split
  · rfl
  · rw [List.reverse_append, List.reverse_reverse]

theorem rdropWhile_of_notMem {w : List α} (h : sep ∉ w) : w.rdropWhile (· == sep) = w := by
  rw [List.rdropWhile_eq_self_iff]
  intro hne hlast
  exact h ((beq_iff_eq.mp hlast) ▸ List.getLast_mem hne)

/-- A squeezed list without its last separator is its words, one separator between each two. -/
theorem squeeze_eq (l : List α) :
    (squeeze sep true l).rdropWhile (· == sep) = unwords sep (words sep l) := by
  induction l using words_induction sep with
  | last w hw =>
    rw [squeeze_of_notMem hw, rdropWhile_of_notMem hw, words_of_notMem hw]
    split
    · rename_i hnil
      rw [hnil]
      rfl
    · simp [unwords]
  | step w rest hw ih =>
    rw [words_append hw, words_of_notMem hw]
    by_cases hne : w = []
    · rw [hne, if_pos rfl, List.nil_append, List.nil_append, squeeze, if_pos rfl, if_pos rfl]
      exact ih
    · have hnil : unwords sep (words sep rest) = [] ↔ words sep rest = [] :=
        unwords_eq_nil fun u hu => (words_spec rest u hu).1
      have hcons : (sep :: squeeze sep true rest).rdropWhile (· == sep) =
          if words sep rest = [] then [] else sep :: unwords sep (words sep rest) := by
        rw [← List.singleton_append, rdropWhile_append, ih]
        simp [hnil, List.rdropWhile_singleton]
      rw [squeeze_append hw hne, if_neg hne, List.singleton_append, rdropWhile_append, hcons]
      by_cases hrest : words sep rest = []
      · rw [if_pos hrest, if_pos rfl, rdropWhile_of_notMem hw, hrest]
        simp [unwords]
      · rw [if_neg hrest, if_neg (by simp), unwords_cons hrest]

/-! ## Lists that are spaced already -/

theorem squeeze_sublist (afterSep : Bool) (l : List α) : (squeeze sep afterSep l).Sublist l := by
  induction l generalizing afterSep with
  | nil => exact .slnil
  | cons a l ih =>
    unfold squeeze
    split
    · split
      · exact (ih true).cons a
      · exact (ih true).cons_cons a
    · exact (ih false).cons_cons a

theorem squeeze_front (sep : α) (l : List α) : (squeeze sep true l).head? ≠ some sep := by
  induction l with
  | nil => simp [squeeze]
  | cons a l ih =>
    unfold squeeze
    by_cases ha : a = sep
    · rw [if_pos ha, if_pos rfl]
      exact ih
    · rw [if_neg ha]
      simpa using ha

theorem squeeze_apart (afterSep : Bool) (l : List α) :
    (squeeze sep afterSep l).IsChain fun a b => ¬ (a = sep ∧ b = sep) := by
  induction l generalizing afterSep with
  | nil => exact .nil
  | cons a l ih =>
    unfold squeeze
    split
    · split
      · exact ih true
      · refine List.isChain_cons.mpr ⟨fun b hb hboth => ?_, ih true⟩
        rw [hboth.2] at hb
        exact squeeze_front sep l hb
    · rename_i ha
      exact List.isChain_cons.mpr ⟨fun b _ hboth => ha hboth.1, ih false⟩

/-- A list that is spaced already is left alone. -/
theorem squeeze_of_spaced {l : List α} (h : Spaced sep l) : squeeze sep true l = l := by
  have hchain : ∀ (l : List α) (afterSep : Bool), (afterSep = true → l.head? ≠ some sep) →
      (l.IsChain fun a b => ¬ (a = sep ∧ b = sep)) → squeeze sep afterSep l = l := by
    intro l
    induction l with
    | nil => exact fun _ _ _ => rfl
    | cons a l ih =>
      intro afterSep hfront hapart
      obtain ⟨hnext, hapart⟩ := List.isChain_cons.mp hapart
      unfold squeeze
      by_cases ha : a = sep
      · have hnot : ¬ afterSep = true := fun hafter => hfront hafter (by rw [ha]; rfl)
        rw [if_pos ha, if_neg hnot, ih true (fun _ hb => hnext sep hb ⟨ha, rfl⟩) hapart]
      · rw [if_neg ha, ih false (fun hfalse => by cases hfalse) hapart]
  exact hchain l true (fun _ => h.front) h.apart

/-! ## Where the separators are -/

omit [DecidableEq α] in
theorem length_unwords_take {w : List α} {ws : List (List α)} {k : Nat} (hk : 0 < k)
    (hlt : k < (w :: ws).length) :
    (unwords sep ((w :: ws).take k)).length =
      w.length + if k = 1 then 0 else 1 + (unwords sep (ws.take (k - 1))).length := by
  obtain ⟨k, rfl⟩ : ∃ n, k = n + 1 := ⟨k - 1, by omega⟩
  rw [List.take_succ_cons, Nat.add_sub_cancel]
  by_cases hk0 : k = 0
  · subst hk0
    simp [unwords]
  · have hne : ws.take k ≠ [] := by
      rw [List.length_cons] at hlt
      rw [← List.length_pos_iff_ne_nil, List.length_take]
      omega
    rw [unwords_cons hne, if_neg (by omega), List.length_append, List.length_cons]
    omega

omit [DecidableEq α] in
/-- A separator stands behind each group of words that more words follow. -/
theorem getElem?_unwords {ws : List (List α)} (h : ∀ w ∈ ws, sep ∉ w) (n : Nat) :
    (unwords sep ws)[n]? = some sep ↔
      ∃ k, 0 < k ∧ k < ws.length ∧ (unwords sep (ws.take k)).length = n := by
  induction ws generalizing n with
  | nil => simp [unwords]
  | cons w ws ih =>
    have hw : sep ∉ w := h w List.mem_cons_self
    by_cases hws : ws = []
    · subst hws
      refine iff_of_false (fun hsep => hw ?_) fun ⟨k, hpos, hlt, _⟩ => ?_
      · exact List.mem_of_getElem? (by simpa [unwords] using hsep)
      · simp only [List.length_singleton] at hlt
        omega
    have hpos : 0 < ws.length := List.length_pos_iff_ne_nil.mpr hws
    rw [unwords_cons hws]
    rcases Nat.lt_trichotomy n w.length with hn | rfl | hn
    · -- Within the first word.
      rw [List.getElem?_append_left hn]
      refine iff_of_false (fun hsep => hw (List.mem_of_getElem? hsep)) ?_
      rintro ⟨k, hk, hlt, hlength⟩
      rw [length_unwords_take hk hlt] at hlength
      omega
    · -- Behind it.
      rw [List.getElem?_append_right (Nat.le_refl _), Nat.sub_self]
      refine iff_of_true rfl ⟨1, Nat.one_pos, by simpa using hpos, ?_⟩
      simp [unwords]
    · -- Among the others.
      obtain ⟨m, rfl⟩ : ∃ m, n = w.length + (m + 1) := ⟨n - w.length - 1, by omega⟩
      rw [List.getElem?_append_right (by omega), Nat.add_sub_cancel_left, List.getElem?_cons_succ,
        ih fun u hu => h u (List.mem_cons_of_mem w hu)]
      constructor
      · rintro ⟨k, hk, hlt, rfl⟩
        have hlt' : k + 1 < (w :: ws).length := Nat.succ_lt_succ hlt
        refine ⟨k + 1, Nat.succ_pos k, hlt', ?_⟩
        rw [length_unwords_take (Nat.succ_pos k) hlt', if_neg (by omega), Nat.succ_sub_one]
        omega
      · rintro ⟨k, hk, hlt, hlength⟩
        rw [length_unwords_take hk hlt] at hlength
        have hk1 : k ≠ 1 := by
          rintro rfl
          simp at hlength
        rw [if_neg hk1] at hlength
        rw [List.length_cons] at hlt
        exact ⟨k - 1, by omega, by omega, by omega⟩

end CommandCenter.Library
