import Mathlib.Data.List.Basic

/-!
# Patterns in texts

Patterns of letters with captures, tried as a backtracking matcher tries them: a pattern gives the
ways in which it matches at a place in the order of preference, and the first of them counts. Groups
do not nest.

* `fits_of_mem_tries`: what is matched fits the pattern, wherever it stands.
* `found_spec`: a text is what is found in it, with the gaps between.
* `Built`: a text of letters and blocks; a letter of no block cuts it into such texts.
-/

namespace CommandCenter.Library

/-- A place in a text. What is before it comes with the nearest letter first. -/
structure Place (α : Type) where
  before : List α
  rest : List α

inductive Pattern (α : Type) where
  /-- Nothing, at a place of some kind. -/
  | here (test : Place α → Bool)
  /-- Letters of a kind, the most of them that there are, or where it is `lazy` the fewest. -/
  | run (p : α → Bool) (least : Nat) (most : Option Nat) (lazy : Bool)
  | seq (first second : Pattern α)
  | or (first second : Pattern α)
  | group (inner : Pattern α)

structure Found (α : Type) where
  text : List α
  captures : List (List α)

namespace Pattern

variable {α : Type}

/-- The places behind no letter, one letter and so on. -/
def ways (p : α → Bool) : (most : Nat) → Place α → List (Place α)
  | 0, s => [s]
  | most + 1, s =>
    s :: match s.rest with
      | c :: rest => if p c then ways p most ⟨c :: s.before, rest⟩ else []
      | [] => []

/-- The ways in which a pattern matches, each as the place behind it and what is captured. -/
def tries : Pattern α → Place α → List (Place α × List (List α))
  | here test, s => if test s then [(s, [])] else []
  | run p least most lazy, s =>
    let places := (ways p (most.getD s.rest.length) s).drop least
    (if lazy then places else places.reverse).map fun place => (place, [])
  | seq a b, s => (tries a s).flatMap fun r => (tries b r.1).map fun q => (q.1, r.2 ++ q.2)
  | or a b, s => tries a s ++ tries b s
  | group a, s =>
    (tries a s).map fun r => (r.1, [s.rest.take (s.rest.length - r.1.rest.length)])

/-- The first thing that is found from a place on, with the gap before it and the place behind. -/
def seek (p : Pattern α) (before : List α) : List α → Option (List α × Found α × Place α)
  | [] => (p.tries ⟨before, []⟩).head?.map fun r => ([], ⟨[], r.2⟩, r.1)
  | c :: rest =>
    match (p.tries ⟨before, c :: rest⟩).head? with
    | some r =>
      some ([], ⟨(c :: rest).take (rest.length + 1 - r.1.rest.length), r.2⟩, r.1)
    | none => (seek p (c :: before) rest).map fun r => (c :: r.1, r.2)

/-- Everything that is found, with the gaps before, and what is left. -/
def found (p : Pattern α) : (fuel : Nat) → Place α → List (List α × Found α) × List α
  | 0, s => ([], s.rest)
  | fuel + 1, s =>
    match p.seek s.before s.rest with
    | none => ([], s.rest)
    | some (gap, m, next) =>
      let (more, last) := found p fuel next
      ((gap, m) :: more, last)

/-- What a pattern that matches no empty text finds: one thing for each letter at most. -/
def findAll (p : Pattern α) (s : List α) : List (List α × Found α) × List α :=
  p.found s.length ⟨[], s⟩

/-- Replace what is found, from the first on. -/
def replace {σ : Type} (f : σ → Found α → List α × σ) :
    σ → List (List α × Found α) → (last : List α) → List α × σ
  | state, [], last => (last, state)
  | state, (gap, m) :: more, last =>
    let (out, state) := f state m
    let (rest, state) := replace f state more last
    (gap ++ out ++ rest, state)

/-! ## What is found -/

/-- A text that a pattern matches, and what is captured of it. -/
inductive Fits : Pattern α → List α → List (List α) → Prop
  | here {test : Place α → Bool} : Fits (.here test) [] []
  | run {p : α → Bool} {least : Nat} {most : Option Nat} {lazy : Bool} {w : List α}
      (hkind : ∀ c ∈ w, p c = true) (hleast : least ≤ w.length)
      (hmost : ∀ n ∈ most, w.length ≤ n) : Fits (.run p least most lazy) w []
  | seq {a b : Pattern α} {v w : List α} {caps caps' : List (List α)} (ha : Fits a v caps)
      (hb : Fits b w caps') : Fits (.seq a b) (v ++ w) (caps ++ caps')
  | left {a b : Pattern α} {w : List α} {caps : List (List α)} (ha : Fits a w caps) :
      Fits (.or a b) w caps
  | right {a b : Pattern α} {w : List α} {caps : List (List α)} (hb : Fits b w caps) :
      Fits (.or a b) w caps
  | group {a : Pattern α} {w : List α} {caps : List (List α)} (ha : Fits a w caps) :
      Fits (.group a) w [w]

def Behind (s : Place α) (w : List α) (s' : Place α) : Prop :=
  s.rest = w ++ s'.rest ∧ s'.before = w.reverse ++ s.before

section Fitting

variable {p : Pattern α} {s s' : Place α} {caps : List (List α)}

theorem behind_ways {kind : α → Bool} {most i : Nat} (h : (ways kind most s)[i]? = some s') :
    ∃ w, Behind s w s' ∧ (∀ c ∈ w, kind c = true) ∧ w.length = i ∧ i ≤ most := by
  induction most generalizing s i with
  | zero =>
    cases i with
    | zero =>
      obtain rfl := Option.some.inj h
      exact ⟨[], ⟨rfl, rfl⟩, by simp, rfl, Nat.le_refl _⟩
    | succ i => simp [ways] at h
  | succ most ih =>
    rw [ways] at h
    cases i with
    | zero =>
      obtain rfl := Option.some.inj h
      exact ⟨[], ⟨rfl, rfl⟩, by simp, rfl, Nat.zero_le _⟩
    | succ i =>
      rw [List.getElem?_cons_succ] at h
      obtain ⟨before, rest⟩ := s
      cases rest with
      | nil => simp at h
      | cons c rest =>
        dsimp only at h
        split at h
        · rename_i hc
          obtain ⟨w, ⟨hrest, hbefore⟩, hkind, hlen, hle⟩ := ih h
          refine ⟨c :: w, ⟨?_, ?_⟩, ?_, ?_, by omega⟩
          · rw [List.cons_append, ← hrest]
          · rw [hbefore, List.reverse_cons, List.append_assoc]
            rfl
          · rw [List.forall_mem_cons]
            exact ⟨hc, hkind⟩
          · rw [List.length_cons, hlen]
        · simp at h

/-- A pattern matches what fits it. -/
theorem fits_of_mem_tries (h : (s', caps) ∈ p.tries s) : ∃ w, p.Fits w caps ∧ Behind s w s' := by
  induction p generalizing s s' caps with
  | here test =>
    rw [tries] at h
    split at h
    · obtain ⟨rfl, rfl⟩ := Prod.mk.inj (List.mem_singleton.mp h)
      exact ⟨[], .here, rfl, rfl⟩
    · cases h
  | run kind least most lazy =>
    rw [tries] at h
    obtain ⟨place, hplace, heq⟩ := List.mem_map.mp h
    obtain ⟨rfl, rfl⟩ := Prod.mk.inj heq
    have hmem : place ∈ (ways kind (most.getD s.rest.length) s).drop least := by
      split at hplace
      · exact hplace
      · exact List.mem_reverse.mp hplace
    obtain ⟨i, hi⟩ := List.mem_iff_getElem?.mp hmem
    rw [List.getElem?_drop] at hi
    obtain ⟨w, hbehind, hkind, hlen, hle⟩ := behind_ways hi
    refine ⟨w, .run hkind (by omega) ?_, hbehind⟩
    intro n hn
    rw [Option.mem_def] at hn
    rw [hlen]
    rwa [hn] at hle
  | seq a b iha ihb =>
    obtain ⟨r, hr, hmem⟩ := List.mem_flatMap.mp h
    obtain ⟨q, hq, heq⟩ := List.mem_map.mp hmem
    obtain ⟨rfl, rfl⟩ := Prod.mk.inj heq
    obtain ⟨v, hv, hrest, hbefore⟩ := iha hr
    obtain ⟨w, hw, hrest', hbefore'⟩ := ihb hq
    refine ⟨v ++ w, .seq hv hw, ?_, ?_⟩
    · rw [hrest, hrest', List.append_assoc]
    · rw [hbefore', hbefore, List.reverse_append, List.append_assoc]
  | or a b iha ihb =>
    rcases List.mem_append.mp h with h | h
    · obtain ⟨w, hw, hbehind⟩ := iha h
      exact ⟨w, .left hw, hbehind⟩
    · obtain ⟨w, hw, hbehind⟩ := ihb h
      exact ⟨w, .right hw, hbehind⟩
  | group a iha =>
    obtain ⟨r, hr, heq⟩ := List.mem_map.mp h
    obtain ⟨rfl, rfl⟩ := Prod.mk.inj heq
    obtain ⟨w, hw, hrest, hbefore⟩ := iha hr
    have htake : s.rest.take (s.rest.length - r.1.rest.length) = w := by
      rw [hrest, List.length_append, Nat.add_sub_cancel, List.take_left]
    rw [htake]
    exact ⟨w, .group hw, hrest, hbefore⟩

/-- The first thing that is found fits, and stands behind its gap. -/
theorem seek_spec {before rest gap : List α} {m : Found α} {next : Place α}
    (h : p.seek before rest = some (gap, m, next)) :
    rest = gap ++ m.text ++ next.rest ∧ p.Fits m.text m.captures ∧
      Behind ⟨before, rest⟩ (gap ++ m.text) next := by
  induction rest generalizing before gap with
  | nil =>
    obtain ⟨r, hr, heq⟩ := Option.map_eq_some_iff.mp h
    obtain ⟨rfl, hfound⟩ := Prod.mk.inj heq
    obtain ⟨rfl, rfl⟩ := Prod.mk.inj hfound
    obtain ⟨w, hw, hrest, hbefore⟩ := fits_of_mem_tries (List.mem_of_head? hr)
    obtain ⟨rfl, hnil⟩ := List.append_eq_nil_iff.mp hrest.symm
    exact ⟨hnil.symm, hw, hrest, hbefore⟩
  | cons c rest ih =>
    rw [seek] at h
    split at h
    · rename_i r hr
      obtain ⟨rfl, hfound⟩ := Prod.mk.inj (Option.some.inj h)
      obtain ⟨rfl, rfl⟩ := Prod.mk.inj hfound
      obtain ⟨w, hw, hrest, hbefore⟩ := fits_of_mem_tries (List.mem_of_head? hr)
      have htake : (c :: rest).take (rest.length + 1 - r.1.rest.length) = w := by
        have hlen := congrArg List.length hrest
        simp only [List.length_cons, List.length_append] at hlen
        have hcut : rest.length + 1 - r.1.rest.length = w.length := by omega
        have hrest : c :: rest = w ++ r.1.rest := hrest
        rw [hcut, hrest, List.take_left]
      dsimp only
      rw [htake]
      exact ⟨hrest, hw, hrest, hbefore⟩
    · obtain ⟨r, hr, heq⟩ := Option.map_eq_some_iff.mp h
      obtain ⟨rfl, hfound⟩ := Prod.mk.inj heq
      obtain ⟨rfl, rfl⟩ := Prod.mk.inj hfound
      obtain ⟨hsplit, hfits, -, hbefore⟩ := ih hr
      have hwhole : c :: rest = c :: r.1 ++ r.2.1.text ++ r.2.2.rest := by
        rw [List.cons_append, List.cons_append, ← hsplit]
      refine ⟨hwhole, hfits, hwhole, ?_⟩
      rw [hbefore, List.cons_append, List.reverse_cons, List.append_assoc]
      rfl

/-- A text is what is found in it with the gaps between, and everything that is found fits. -/
theorem found_spec (p : Pattern α) (fuel : Nat) (s : Place α) :
    s.rest = ((p.found fuel s).1.flatMap fun r => r.1 ++ r.2.text) ++ (p.found fuel s).2 ∧
      ∀ r ∈ (p.found fuel s).1, p.Fits r.2.text r.2.captures := by
  induction fuel generalizing s with
  | zero => exact ⟨rfl, by simp [found]⟩
  | succ fuel ih =>
    rw [found]
    cases hseek : p.seek s.before s.rest with
    | none => exact ⟨rfl, by simp⟩
    | some r =>
      obtain ⟨gap, m, next⟩ := r
      obtain ⟨hsplit, hfits, -⟩ := seek_spec hseek
      obtain ⟨hrest, hall⟩ := ih next
      dsimp only
      constructor
      · rw [List.flatMap_cons, List.append_assoc, ← hrest, ← hsplit]
      · rw [List.forall_mem_cons]
        exact ⟨hfits, hall⟩

theorem findAll_spec (p : Pattern α) (s : List α) :
    s = ((p.findAll s).1.flatMap fun r => r.1 ++ r.2.text) ++ (p.findAll s).2 ∧
      ∀ r ∈ (p.findAll s).1, p.Fits r.2.text r.2.captures :=
  found_spec p s.length ⟨[], s⟩

end Fitting

section Replacing

variable {σ : Type} {f : σ → Found α → List α × σ} {P : List α → Prop} {I : σ → Prop}
  {finds : List (List α × Found α)} {last : List α} {state : σ}

/-- What holds of the gaps and of everything that is put between them holds of the whole. -/
theorem replace_spec (happend : ∀ s t, P s → P t → P (s ++ t)) (hgaps : ∀ r ∈ finds, P r.1)
    (hlast : P last) (hstate : I state)
    (hf : ∀ state, I state → ∀ r ∈ finds, P (f state r.2).1 ∧ I (f state r.2).2) :
    P (replace f state finds last).1 ∧ I (replace f state finds last).2 := by
  induction finds generalizing state with
  | nil => exact ⟨hlast, hstate⟩
  | cons r more ih =>
    rw [List.forall_mem_cons] at hgaps
    obtain ⟨hout, hnext⟩ := hf state hstate r List.mem_cons_self
    obtain ⟨hrest, hfinal⟩ := ih hgaps.2 hnext fun state hstate q hq =>
      hf state hstate q (List.mem_cons_of_mem _ hq)
    rw [replace]
    exact ⟨happend _ _ (happend _ _ hgaps.1 hout) hrest, hfinal⟩

end Replacing

end Pattern

/-! ## Letters and blocks -/

/-- A text of letters and of blocks. -/
inductive Built {α : Type} (letter : α → Prop) (block : List α → Prop) : List α → Prop
  | nil : Built letter block []
  | letter {a : α} {s : List α} (ha : letter a) (hs : Built letter block s) :
      Built letter block (a :: s)
  | block {t s : List α} (ht : block t) (hs : Built letter block s) : Built letter block (t ++ s)

namespace Built

variable {α : Type} {letter : α → Prop} {block block' : List α → Prop} {s t : List α}

theorem append (hs : Built letter block s) (ht : Built letter block t) :
    Built letter block (s ++ t) := by
  induction hs with
  | nil => exact ht
  | letter ha _ ih => exact .letter ha ih
  | block hb _ ih =>
    rw [List.append_assoc]
    exact .block hb ih

theorem of_letters (h : ∀ a ∈ s, letter a) : Built letter block s := by
  induction s with
  | nil => exact .nil
  | cons a s ih =>
    rw [List.forall_mem_cons] at h
    exact .letter h.1 (ih h.2)

theorem of_block (h : block s) : Built letter block s := by
  rw [← List.append_nil s]
  exact .block h .nil

theorem mono (hblock : ∀ t, block t → block' t) (h : Built letter block s) :
    Built letter block' s := by
  induction h with
  | nil => exact .nil
  | letter ha _ ih => exact .letter ha ih
  | block hb _ ih => exact .block (hblock _ hb) ih

theorem flatten {parts : List (List α)} (h : ∀ part ∈ parts, Built letter block part) :
    Built letter block parts.flatten := by
  induction parts with
  | nil => exact .nil
  | cons part parts ih =>
    rw [List.forall_mem_cons] at h
    exact h.1.append (ih h.2)

/-- A letter that no block has cuts a text into two. -/
theorem cut {a : α} (ha : ∀ t, block t → a ∉ t) (h : Built letter block (s ++ a :: t)) :
    Built letter block s ∧ Built letter block t := by
  generalize hwhole : s ++ a :: t = whole at h
  induction h generalizing s with
  | nil =>
    have hlen := congrArg List.length hwhole
    simp at hlen
  | letter hb hrest ih =>
    cases s with
    | nil =>
      obtain ⟨rfl, rfl⟩ := List.cons.inj hwhole
      exact ⟨.nil, hrest⟩
    | cons c s =>
      obtain ⟨rfl, hrest⟩ := List.cons.inj hwhole
      obtain ⟨hs, ht⟩ := ih hrest
      exact ⟨.letter hb hs, ht⟩
  | block hb _ ih =>
    rcases List.append_eq_append_iff.mp hwhole with ⟨front, hfront, hmore⟩ | ⟨front, hfront, hmore⟩
    · -- the letter would stand in the block
      cases front with
      | nil =>
        obtain ⟨hs, ht⟩ := ih (s := []) hmore
        rw [List.append_nil] at hfront
        rw [← hfront]
        exact ⟨.of_block hb, ht⟩
      | cons c front =>
        obtain ⟨rfl, -⟩ := List.cons.inj hmore
        exact absurd (hfront ▸ List.mem_append_right _ List.mem_cons_self) (ha _ hb)
    · obtain ⟨hs, ht⟩ := ih hmore.symm
      rw [hfront]
      exact ⟨.block hb hs, ht⟩

/-- Things between two marks cut a text into the gaps and their insides. -/
theorem cuts {finds : List (List α × Found α)} {last : List α} (inside : Found α → List α)
    (hmarks : ∀ r ∈ finds, ∃ a b, r.2.text = a :: inside r.2 ++ [b] ∧ (∀ t, block t → a ∉ t) ∧
      ∀ t, block t → b ∉ t)
    (h : Built letter block ((finds.flatMap fun r => r.1 ++ r.2.text) ++ last)) :
    (∀ r ∈ finds, Built letter block r.1 ∧ Built letter block (inside r.2)) ∧
      Built letter block last := by
  induction finds with
  | nil => exact ⟨by simp, h⟩
  | cons r finds ih =>
    rw [List.forall_mem_cons] at hmarks
    obtain ⟨⟨a, b, htext, ha, hb⟩, hmore⟩ := hmarks
    rw [List.flatMap_cons, htext] at h
    simp only [List.append_assoc, List.cons_append, List.nil_append] at h
    obtain ⟨hgap, h⟩ := cut ha h
    obtain ⟨hinside, h⟩ := cut hb h
    obtain ⟨hall, hlast⟩ := ih hmore h
    rw [List.forall_mem_cons]
    exact ⟨⟨⟨hgap, hinside⟩, hall⟩, hlast⟩

end Built

end CommandCenter.Library
