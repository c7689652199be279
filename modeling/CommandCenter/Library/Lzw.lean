import Mathlib.Data.List.Nodup

/-!
# Words and their codes

The greedy parse of a text into phrases, with a dictionary that holds so many words and is cleared
when it is full, and the tables from which a coder and a decoder of such phrases work.

* `phrases`, `phraseCount`: the parse.
* `length_phrases_of_nodup`: where no pair comes twice, every phrase is one symbol.
* `Names`: the codes of a coder name the words of a table; `Names.concat` adds a word.
* `late_entry`: the word of a code that the decoder's table is still to get.
-/

namespace CommandCenter.Library

variable {α : Type}

/-! ## Phrases -/

section Phrases

variable [DecidableEq α]

/-- The phrases of a word and what follows it. A word that leaves the dictionary is a phrase, and
enters the dictionary with the symbol behind it if there is room. -/
def phrases (room : Nat) (dict : List (List α)) (word : List α) : List α → List (List α)
  | [] => [word]
  | a :: rest =>
    if word ++ [a] ∈ dict then phrases room dict (word ++ [a]) rest
    else word :: phrases room (if dict.length < room then dict ++ [word ++ [a]] else []) [a] rest

def phraseCount (room : Nat) : List α → Nat
  | [] => 0
  | a :: rest => (phrases room [] [a] rest).length

theorem length_phrases_pos (room : Nat) (dict : List (List α)) (word rest : List α) :
    0 < (phrases room dict word rest).length := by
  induction rest generalizing dict word with
  | nil => exact Nat.one_pos
  | cons a rest ih =>
    rw [phrases]
    split
    · exact ih dict (word ++ [a])
    · exact Nat.succ_pos _

/-- The pairs of neighbours of a text. -/
def pairs (a : α) : List α → List (List α)
  | [] => []
  | b :: rest => [a, b] :: pairs b rest

omit [DecidableEq α] in
/-- The neighbours in a sequence. -/
theorem pairs_map_range (f : Nat → α) (n : Nat) :
    pairs (f 0) ((List.range n).map fun i => f (i + 1)) =
      (List.range n).map fun i => [f i, f (i + 1)] := by
  induction n generalizing f with
  | zero => rfl
  | succ n ih =>
    rw [List.range_succ_eq_map, List.map_cons, List.map_cons, List.map_map, List.map_map, pairs]
    exact congrArg _ (ih fun i => f (i + 1))

/-- Where no pair comes twice, every phrase is one symbol. -/
theorem length_phrases_of_nodup (room : Nat) {dict : List (List α)} {a : α} {rest : List α}
    (h : (dict ++ pairs a rest).Nodup) :
    (phrases room dict [a] rest).length = rest.length + 1 := by
  induction rest generalizing dict a with
  | nil => rfl
  | cons b rest ih =>
    have hnew : [a] ++ [b] ∉ dict := by
      intro hmem
      exact (List.disjoint_of_nodup_append h) hmem List.mem_cons_self
    have hpairs : dict ++ pairs a (b :: rest) = dict ++ [[a, b]] ++ pairs b rest := by
      rw [List.append_assoc]
      rfl
    rw [hpairs] at h
    rw [phrases, if_neg hnew, List.length_cons, List.length_cons]
    congr 1
    split
    · exact ih h
    · exact ih (h.sublist (List.sublist_append_right _ _))

end Phrases

/-! ## Codes -/

/-- The codes that are found name the words of the table, and every word that is another with a
symbol behind it is found from that other. -/
structure Names (find : Nat × α → Option Nat) (words : List (List α)) : Prop where
  sound : ∀ (c : Nat) (a : α) (v : Nat), find (c, a) = some v →
    ∃ word, word ≠ [] ∧ words[c]? = some word ∧ words[v]? = some (word ++ [a])
  complete : ∀ (word : List α) (a : α), word ≠ [] → word ++ [a] ∈ words →
    ∃ c v : Nat, words[c]? = some word ∧ find (c, a) = some v
  distinct : ∀ (c d : Nat) (word : List α), word ≠ [] → words[c]? = some word →
    words[d]? = some word → c = d

/-- A word of a longer table is one of the table or the new one. -/
theorem getElem?_concat_iff {words : List (List α)} {new word : List α} {i : Nat} :
    (words ++ [new])[i]? = some word ↔ words[i]? = some word ∨ i = words.length ∧ new = word := by
  rcases Nat.lt_trichotomy i words.length with hlt | rfl | hgt
  · rw [List.getElem?_append_left hlt]
    exact ⟨Or.inl, fun h => h.resolve_right fun hlast => absurd hlast.1 (Nat.ne_of_lt hlt)⟩
  · rw [List.getElem?_append_right (Nat.le_refl _), Nat.sub_self,
      List.getElem?_eq_none (Nat.le_refl _)]
    simp
  · rw [List.getElem?_eq_none (by rw [List.length_append, List.length_singleton]; omega),
      List.getElem?_eq_none (by omega)]
    simp only [reduceCtorEq, false_or, false_iff]
    exact fun hlast => absurd hlast.1 (Nat.ne_of_gt hgt)

variable {find find' : Nat × α → Option Nat} {words : List (List α)}

/-- Where no word is longer than a symbol, there is nothing to find. -/
theorem Names.of_short (hfind : ∀ key, find key = none)
    (hshort : ∀ word ∈ words, word.length ≤ 1)
    (hdistinct : ∀ (c d : Nat) (word : List α), word ≠ [] → words[c]? = some word →
      words[d]? = some word → c = d) :
    Names find words where
  sound := by
    intro c a v h
    rw [hfind] at h
    cases h
  complete := by
    intro word a hne hmem
    have hlen := hshort _ hmem
    rw [List.length_append, List.length_singleton] at hlen
    exact absurd (List.length_eq_zero_iff.mp (by omega)) hne
  distinct := hdistinct

/-- A code is found for a word and a symbol just if the table has them as a word. -/
theorem Names.isSome_iff (h : Names find words) {c : Nat} {word : List α} (hne : word ≠ [])
    (hword : words[c]? = some word) (a : α) :
    (∃ v, find (c, a) = some v) ↔ word ++ [a] ∈ words := by
  constructor
  · rintro ⟨v, hv⟩
    obtain ⟨other, -, hother, hnamed⟩ := h.sound c a v hv
    obtain rfl := Option.some.inj (hword.symm.trans hother)
    exact List.mem_of_getElem? hnamed
  · intro hmem
    obtain ⟨d, v, hd, hv⟩ := h.complete word a hne hmem
    obtain rfl := h.distinct c d word hne hword hd
    exact ⟨v, hv⟩

/-- A new word is named by the code behind the others. -/
theorem Names.concat [DecidableEq α] (h : Names find words) {c : Nat} {word : List α} {a : α}
    (hne : word ≠ []) (hword : words[c]? = some word) (hnew : word ++ [a] ∉ words)
    (hfind : ∀ key, find' key = if key = (c, a) then some words.length else find key) :
    Names find' (words ++ [word ++ [a]]) := by
  have hold {i : Nat} {w : List α} (hi : words[i]? = some w) :
      (words ++ [word ++ [a]])[i]? = some w := getElem?_concat_iff.mpr (Or.inl hi)
  have hlast : (words ++ [word ++ [a]])[words.length]? = some (word ++ [a]) :=
    getElem?_concat_iff.mpr (Or.inr ⟨rfl, rfl⟩)
  refine ⟨?_, ?_, ?_⟩
  · intro d b v hv
    rw [hfind] at hv
    split at hv
    · rename_i hkey
      obtain ⟨rfl, rfl⟩ := Prod.mk.inj hkey
      obtain rfl := Option.some.inj hv
      exact ⟨word, hne, hold hword, hlast⟩
    · obtain ⟨w, hw, hd, hnamed⟩ := h.sound d b v hv
      exact ⟨w, hw, hold hd, hold hnamed⟩
  · intro w b hw hmem
    rcases List.mem_append.mp hmem with hmem | hmem
    · obtain ⟨d, v, hd, hv⟩ := h.complete w b hw hmem
      by_cases hkey : (d, b) = (c, a)
      · exact ⟨d, words.length, hold hd, by rw [hfind, if_pos hkey]⟩
      · exact ⟨d, v, hold hd, by rw [hfind, if_neg hkey, hv]⟩
    · obtain ⟨rfl, hb⟩ := List.append_inj' (List.mem_singleton.mp hmem) rfl
      obtain ⟨rfl, -⟩ := List.cons.inj hb
      exact ⟨c, words.length, hold hword, by rw [hfind, if_pos rfl]⟩
  · intro d e w hw hd he
    rcases getElem?_concat_iff.mp hd with hd | ⟨rfl, rfl⟩
    · rcases getElem?_concat_iff.mp he with he | ⟨rfl, rfl⟩
      · exact h.distinct d e w hw hd he
      · exact absurd (List.mem_of_getElem? hd) hnew
    · rcases getElem?_concat_iff.mp he with he | ⟨rfl, -⟩
      · exact absurd (List.mem_of_getElem? he) hnew
      · rfl

/-- A code that is still to be entered names the word before it with its own first symbol. -/
theorem late_entry {table : List (List α)} {previous word : List α} (hprevious : previous ≠ [])
    {c : Nat} (h : (table ++ [previous ++ word.take 1])[c]? = some word) :
    (table[c]?).getD (previous ++ previous.take 1) = word := by
  rcases getElem?_concat_iff.mp h with h | ⟨rfl, hword⟩
  · rw [h, Option.getD_some]
  · have hfirst : word.take 1 = previous.take 1 := by
      conv_lhs => rw [← hword]
      rw [List.take_append_of_le_length (List.length_pos_of_ne_nil hprevious)]
    rw [List.getElem?_eq_none (Nat.le_refl _), Option.getD_none, ← hfirst, hword]

end CommandCenter.Library
