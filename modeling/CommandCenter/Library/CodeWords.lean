import Mathlib.Data.List.Basic
import Mathlib.Data.List.Nodup

/-!
# Words made of code words

A word that is made of the code words of a list of entries, each of which stands for something.

* `Spells`: the entries whose code words make a word up.
* `Decodable`: what is left of a code word behind another one neither begins with a code word nor
  begins one.
* `Decodable.unique`: then a word is made up in one way at most.
-/

namespace CommandCenter.Library

variable {α β : Type*}

/-- The code words of these entries, one after another, are the word. -/
def Spells (code : List (List α × β)) (parts : List (List α × β)) (word : List α) : Prop :=
  (∀ part ∈ parts, part ∈ code) ∧ parts.flatMap Prod.fst = word

/-- No code word is empty, none belongs to two entries, and one that begins with another has a rest
that is comparable with no code word. -/
structure Decodable [DecidableEq α] (code : List (List α × β)) : Prop where
  nonempty : ∀ t ∈ code, t.1 ≠ []
  distinct : (code.map Prod.fst).Nodup
  dangling : ∀ t ∈ code, ∀ u ∈ code, t.1 <+: u.1 → t.1 ≠ u.1 →
    ∀ v ∈ code, ¬ v.1 <+: u.1.drop t.1.length ∧ ¬ u.1.drop t.1.length <+: v.1

variable {code parts parts' : List (List α × β)} {word rest : List α}

theorem spells_nil : Spells code [] word ↔ word = [] := by
  simp [Spells, eq_comm]

theorem spells_cons {entry : List α × β} :
    Spells code (entry :: parts) word ↔
      entry ∈ code ∧ ∃ rest, word = entry.1 ++ rest ∧ Spells code parts rest := by
  constructor
  · rintro ⟨hmem, rfl⟩
    refine ⟨hmem entry List.mem_cons_self, parts.flatMap Prod.fst, by simp, ?_, rfl⟩
    intro part hpart
    exact hmem part (List.mem_cons_of_mem entry hpart)
  · rintro ⟨hentry, rest, rfl, hmem, rfl⟩
    refine ⟨?_, by simp⟩
    intro part hpart
    rcases List.mem_cons.mp hpart with rfl | hpart
    · exact hentry
    · exact hmem part hpart

theorem Spells.append (h : Spells code parts word) (h' : Spells code parts' rest) :
    Spells code (parts ++ parts') (word ++ rest) := by
  refine ⟨?_, by rw [List.flatMap_append, h.2, h'.2]⟩
  intro part hpart
  rcases List.mem_append.mp hpart with hpart | hpart
  · exact h.1 part hpart
  · exact h'.1 part hpart

namespace Decodable

variable [DecidableEq α]

theorem entry_eq (hcode : Decodable code) {t u : List α × β} (ht : t ∈ code) (hu : u ∈ code)
    (h : t.1 = u.1) : t = u :=
  List.inj_on_of_nodup_map hcode.distinct ht hu h

/-- Where two entries begin one word, and the rest behind each is made of code words, they are the
same: behind the shorter one would stand what is left of the longer one. -/
theorem first_eq (hcode : Decodable code) {t u : List α × β} (ht : t ∈ code) (hu : u ∈ code)
    {x y : List α} (hx : Spells code parts x) (h : t.1 ++ x = u.1 ++ y)
    (hle : t.1.length ≤ u.1.length) : t = u := by
  by_contra hne
  have hbegins : t.1 <+: u.1 :=
    List.prefix_of_prefix_length_le (List.prefix_append t.1 x) (h ▸ List.prefix_append u.1 y) hle
  have hwords : t.1 ≠ u.1 := fun heq => hne (hcode.entry_eq ht hu heq)
  obtain ⟨d, hd⟩ := hbegins
  have hdrop : u.1.drop t.1.length = d := by simp [← hd]
  have hxy : x = d ++ y := by
    rw [← hd, List.append_assoc] at h
    exact List.append_cancel_left h
  have hapart := hcode.dangling t ht u hu ⟨d, hd⟩ hwords
  rw [hdrop] at hapart
  cases parts with
  | nil =>
    have hnil : d ++ y = [] := by rw [← hxy, spells_nil.mp hx]
    apply hwords
    simp [← hd, (List.append_eq_nil_iff.mp hnil).1]
  | cons v parts =>
    obtain ⟨hv, z, hz, _⟩ := spells_cons.mp hx
    have hvx : v.1 <+: x := hz ▸ List.prefix_append _ _
    have hvd : v.1 <+: d ∨ d <+: v.1 :=
      List.prefix_or_prefix_of_prefix hvx (hxy ▸ List.prefix_append _ _)
    rcases hvd with hvd | hvd
    · exact (hapart v hv).1 hvd
    · exact (hapart v hv).2 hvd

/-- A word is made of code words in one way at most. -/
theorem unique (hcode : Decodable code) (h : Spells code parts word)
    (h' : Spells code parts' word) : parts = parts' := by
  induction parts generalizing parts' word with
  | nil =>
    rw [spells_nil] at h
    subst h
    cases parts' with
    | nil => rfl
    | cons entry parts' =>
      obtain ⟨hentry, rest, hrest, _⟩ := spells_cons.mp h'
      exact absurd (List.append_eq_nil_iff.mp hrest.symm).1 (hcode.nonempty entry hentry)
  | cons entry parts ih =>
    obtain ⟨hentry, rest, hrest, htail⟩ := spells_cons.mp h
    cases parts' with
    | nil =>
      rw [spells_nil] at h'
      rw [h'] at hrest
      exact absurd (List.append_eq_nil_iff.mp hrest.symm).1 (hcode.nonempty entry hentry)
    | cons entry' parts' =>
      obtain ⟨hentry', rest', hrest', htail'⟩ := spells_cons.mp h'
      have heq : entry.1 ++ rest = entry'.1 ++ rest' := hrest.symm.trans hrest'
      have hsame : entry = entry' := by
        rcases Nat.le_total entry.1.length entry'.1.length with hle | hle
        · exact hcode.first_eq hentry hentry' htail heq hle
        · exact (hcode.first_eq hentry' hentry htail' heq.symm hle).symm
      subst hsame
      have hrests : rest = rest' := List.append_cancel_left heq
      subst hrests
      rw [ih htail htail']

end Decodable

end CommandCenter.Library
