import CommandCenter.Library.Reads
import Mathlib.Data.List.Induction
import Mathlib.Data.Nat.Bitwise
import Mathlib.Tactic.Ring

/-!
# Canonical codes

A canonical code has its words in order of their length: `count` says how many there are of each. Its
words arrive with the most significant bit first, all bits inverted or none. A word is known by its
place among them.

* `walk_reads`: a word is read as its place, whatever follows.
* `walk_exact`: what is read is a word.
-/

namespace CommandCenter.Library

section Numbers

variable (inverted : Bool)

/-- The number of some bits, the most significant first. -/
def number (bits : List Bool) : Nat := bits.foldl (fun n b => 2 * n + (b ^^ inverted).toNat) 0

def wordOf (length n : Nat) : List Bool :=
  (List.range length).map fun i => n.testBit (length - 1 - i) ^^ inverted

variable {inverted}

theorem number_append_singleton (bits : List Bool) (b : Bool) :
    number inverted (bits ++ [b]) = 2 * number inverted bits + (b ^^ inverted).toNat := by
  rw [number, List.foldl_append]
  rfl

theorem number_append (bits more : List Bool) : number inverted (bits ++ more) =
    number inverted bits * 2 ^ more.length + number inverted more := by
  induction more using List.reverseRecOn with
  | nil => simp [number]
  | append_singleton more b ih =>
    rw [← List.append_assoc, number_append_singleton, number_append_singleton, ih,
      List.length_append, List.length_singleton, Nat.pow_succ]
    ring

theorem number_lt (bits : List Bool) : number inverted bits < 2 ^ bits.length := by
  induction bits using List.reverseRecOn with
  | nil => exact Nat.one_pos
  | append_singleton bits b ih =>
    have hbit := Bool.toNat_le (b ^^ inverted)
    rw [number_append_singleton, List.length_append, List.length_singleton, Nat.pow_succ]
    omega

theorem length_wordOf (length n : Nat) : (wordOf inverted length n).length = length := by
  rw [wordOf, List.length_map, List.length_range]

theorem wordOf_succ (length n : Nat) : wordOf inverted (length + 1) n =
    wordOf inverted length (n / 2) ++ [n.testBit 0 ^^ inverted] := by
  rw [wordOf, List.range_succ, List.map_append]
  congr 1
  · refine List.map_congr_left fun i hi => ?_
    have hlt := List.mem_range.mp hi
    have hplace : length + 1 - 1 - i = length - 1 - i + 1 := by omega
    rw [hplace, Nat.testBit_succ]
  · rw [List.map_singleton, Nat.add_sub_cancel, Nat.sub_self]

theorem number_wordOf {length n : Nat} (h : n < 2 ^ length) :
    number inverted (wordOf inverted length n) = n := by
  induction length generalizing n with
  | zero =>
    rw [Nat.pow_zero, Nat.lt_one_iff] at h
    rw [h]
    rfl
  | succ length ih =>
    rw [Nat.pow_succ] at h
    have hbit : (n.testBit 0).toNat = n % 2 := by
      rw [Nat.testBit_zero]
      rcases Nat.mod_two_eq_zero_or_one n with h | h <;> rw [h] <;> rfl
    rw [wordOf_succ, number_append_singleton, ih (by omega), Bool.xor_assoc, Bool.xor_self,
      Bool.xor_false, hbit]
    omega

theorem wordOf_number (bits : List Bool) :
    wordOf inverted bits.length (number inverted bits) = bits := by
  induction bits using List.reverseRecOn with
  | nil => rfl
  | append_singleton bits b ih =>
    have hhalf : (2 * number inverted bits + (b ^^ inverted).toNat) / 2 = number inverted bits := by
      have hbit := Bool.toNat_le (b ^^ inverted)
      omega
    have hlow : (2 * number inverted bits + (b ^^ inverted).toNat).testBit 0 =
        (b ^^ inverted) := by
      rw [Nat.testBit_zero, Nat.mul_add_mod]
      cases b ^^ inverted <;> rfl
    rw [List.length_append, List.length_singleton, number_append_singleton, wordOf_succ, hhalf, hlow,
      ih, Bool.xor_assoc, Bool.xor_self, Bool.xor_false]

end Numbers

/-! ## Words -/

section Words

variable (count : Nat → Nat)

/-- The first word of a length, as a number. -/
def firstWord : Nat → Nat
  | 0 => 0
  | length + 1 => 2 * (firstWord length + count length)

/-- The place of the first word of a length. -/
def placeOf : Nat → Nat
  | 0 => 0
  | length + 1 => placeOf length + count length

/-- A number is that of a word of a length. -/
def IsWord (length n : Nat) : Prop :=
  firstWord count length ≤ n ∧ n < firstWord count length + count length

variable {ε : Type} (truncated noWord : ε) (inverted : Bool)

/-- One word of at most so many bits more. The length and the number are of the bits before. -/
def walk : (more length n : Nat) → Taking Bool ε Nat
  | 0, _, _ => throw noWord
  | more + 1, length, n => fun
    | [] => .error truncated
    | b :: left =>
      let n := 2 * n + (b ^^ inverted).toNat
      if n < firstWord count (length + 1) + count (length + 1) then
        .ok (placeOf count (length + 1) + n - firstWord count (length + 1), left)
      else walk more (length + 1) n left

theorem walk_cons (more length n : Nat) (b : Bool) (left : List Bool) :
    walk count truncated noWord inverted (more + 1) length n (b :: left) =
      if 2 * n + (b ^^ inverted).toNat <
          firstWord count (length + 1) + count (length + 1) then
        .ok (placeOf count (length + 1) + (2 * n + (b ^^ inverted).toNat) -
          firstWord count (length + 1), left)
      else
        walk count truncated noWord inverted more (length + 1) (2 * n + (b ^^ inverted).toNat) left :=
  rfl

variable {count truncated noWord inverted}

theorem firstWord_ge (length : Nat) {more : Nat} (hmore : 0 < more) :
    2 ^ more * (firstWord count length + count length) ≤ firstWord count (length + more) := by
  induction more with
  | zero => cases hmore
  | succ more ih =>
    rw [← Nat.add_assoc, firstWord, Nat.pow_succ]
    cases more with
    | zero => simp
    | succ more =>
      have hle := ih (Nat.succ_pos more)
      have hdouble := Nat.mul_le_mul_left 2 hle
      have hcount := Nat.zero_le (count (length + (more + 1)))
      calc 2 ^ (more + 1) * 2 * (firstWord count length + count length)
          = 2 * (2 ^ (more + 1) * (firstWord count length + count length)) := by ring
        _ ≤ 2 * firstWord count (length + (more + 1)) := hdouble
        _ ≤ 2 * (firstWord count (length + (more + 1)) + count (length + (more + 1))) := by omega

theorem not_isWord_prefix {bits more : List Bool} (hmore : more ≠ [])
    (h : firstWord count (bits.length + more.length) ≤ number inverted (bits ++ more)) :
    firstWord count bits.length + count bits.length ≤ number inverted bits := by
  have hpos := List.length_pos_iff.mpr hmore
  have hge : 2 ^ more.length * (firstWord count bits.length + count bits.length) ≤
      firstWord count (bits.length + more.length) := firstWord_ge bits.length hpos
  have hlt : number inverted more < 2 ^ more.length := number_lt more
  rw [number_append] at h
  by_contra hsmall
  have hsucc : number inverted bits + 1 ≤ firstWord count bits.length + count bits.length := by omega
  have hmul := Nat.mul_le_mul_left (2 ^ more.length) hsucc
  have hexpand : 2 ^ more.length * (number inverted bits + 1) =
      number inverted bits * 2 ^ more.length + 2 ^ more.length := by ring
  omega

theorem walk_word {bits word : List Bool} (hword : word ≠ [])
    (h : IsWord count (bits.length + word.length) (number inverted (bits ++ word))) {more : Nat}
    (hmore : word.length ≤ more) (rest : List Bool) :
    walk count truncated noWord inverted more bits.length (number inverted bits) (word ++ rest) =
      .ok (placeOf count (bits.length + word.length) + number inverted (bits ++ word) -
        firstWord count (bits.length + word.length), rest) := by
  induction more generalizing bits word with
  | zero => exact absurd (List.length_eq_zero_iff.mp (Nat.le_zero.mp hmore)) hword
  | succ more ih =>
    obtain ⟨b, word, rfl⟩ := List.exists_cons_of_ne_nil hword
    have hbits : bits ++ b :: word = bits ++ [b] ++ word := by simp
    have hlength : bits.length + (b :: word).length = (bits ++ [b]).length + word.length := by
      simp only [List.length_append, List.length_cons, List.length_nil]
      omega
    have hone : (bits ++ [b]).length = bits.length + 1 := by simp
    rw [hbits, hlength] at h ⊢
    rw [List.cons_append, walk_cons, ← number_append_singleton, ← hone]
    cases word with
    | nil =>
      rw [List.append_nil] at h ⊢
      rw [List.length_nil, Nat.add_zero] at h ⊢
      rw [if_pos h.2]
      rfl
    | cons c word =>
      have hnot := not_isWord_prefix (List.cons_ne_nil c word) h.1
      rw [if_neg (Nat.not_lt.mpr hnot)]
      exact ih (List.cons_ne_nil c word) h (Nat.le_of_succ_le_succ hmore)

theorem walk_reads {word : List Bool} (hword : word ≠ [])
    (h : IsWord count word.length (number inverted word)) {most : Nat} (hmost : word.length ≤ most) :
    Reads (walk count truncated noWord inverted most 0 0) word
      (placeOf count word.length + number inverted word - firstWord count word.length) := by
  intro rest
  have h' : IsWord count (([] : List Bool).length + word.length)
      (number inverted ([] ++ word)) := by
    rwa [List.length_nil, Nat.zero_add, List.nil_append]
  have hwalk : walk count truncated noWord inverted most ([] : List Bool).length
      (number inverted []) (word ++ rest) = _ := walk_word hword h' hmost rest
  rwa [List.length_nil, Nat.zero_add, List.nil_append] at hwalk

/-- What is read is a word. -/
theorem walk_ok {bits left rest : List Bool} {more place : Nat}
    (hlow : firstWord count bits.length + count bits.length ≤ number inverted bits)
    (h : walk count truncated noWord inverted more bits.length (number inverted bits) left =
      .ok (place, rest)) :
    ∃ word, left = word ++ rest ∧ word ≠ [] ∧ word.length ≤ more ∧
      IsWord count (bits.length + word.length) (number inverted (bits ++ word)) ∧
      place = placeOf count (bits.length + word.length) + number inverted (bits ++ word) -
        firstWord count (bits.length + word.length) := by
  induction more generalizing bits left with
  | zero => cases h
  | succ more ih =>
    cases left with
    | nil => cases h
    | cons b left =>
      have hone : (bits ++ [b]).length = bits.length + 1 := by simp
      rw [walk_cons, ← number_append_singleton, ← hone] at h
      have hfirst : firstWord count (bits ++ [b]).length ≤ number inverted (bits ++ [b]) := by
        rw [hone, firstWord, number_append_singleton]
        omega
      split at h
      · rename_i hlt
        obtain ⟨rfl, rfl⟩ := Prod.mk.inj (Except.ok.inj h)
        rw [hone] at hlt hfirst ⊢
        exact ⟨[b], rfl, List.cons_ne_nil b [], Nat.succ_le_succ (Nat.zero_le more),
          ⟨hfirst, hlt⟩, rfl⟩
      · rename_i hge
        obtain ⟨word, rfl, _, hlength, hword, hplace⟩ := ih (Nat.le_of_not_lt hge) h
        have hbits : bits ++ b :: word = bits ++ [b] ++ word := by simp
        have hall : bits.length + (b :: word).length = (bits ++ [b]).length + word.length := by
          simp only [List.length_append, List.length_cons, List.length_nil]
          omega
        refine ⟨b :: word, rfl, List.cons_ne_nil b word, Nat.succ_le_succ hlength, ?_, ?_⟩
        · rwa [hbits, hall]
        · rwa [hbits, hall]

theorem walk_exact (hcount : count 0 = 0) {left rest : List Bool} {most place : Nat}
    (h : walk count truncated noWord inverted most 0 0 left = .ok (place, rest)) :
    ∃ word, left = word ++ rest ∧ word ≠ [] ∧ word.length ≤ most ∧
      IsWord count word.length (number inverted word) ∧
      place = placeOf count word.length + number inverted word - firstWord count word.length := by
  have hlow : firstWord count ([] : List Bool).length + count ([] : List Bool).length ≤
      number inverted [] := by
    rw [List.length_nil, hcount]
    exact Nat.le_refl 0
  have hwalk := walk_ok hlow h
  simpa only [List.length_nil, Nat.zero_add, List.nil_append] using hwalk

end Words

/-! ## Symbols -/

section Symbols

variable (lengths : List Nat)

/-- The codes of a length; a symbol of length zero has none. -/
def countOf (length : Nat) : Nat := if length = 0 then 0 else lengths.count length

/-- The symbols of the same length before a symbol. -/
def rankOf (sym : Nat) : Nat := (lengths.take sym).count (lengths.getD sym 0)

def symbolPlace (sym : Nat) : Nat :=
  placeOf (countOf lengths) (lengths.getD sym 0) + rankOf lengths sym

def codeOf (inverted : Bool) (sym : Nat) : List Bool :=
  let length := lengths.getD sym 0
  wordOf inverted length (firstWord (countOf lengths) length + rankOf lengths sym)

/-- Every symbol has a word, and there is room for the words of each length. -/
structure IsCode (most : Nat) : Prop where
  length_pos : ∀ l ∈ lengths, 1 ≤ l
  length_le : ∀ l ∈ lengths, l ≤ most
  room : ∀ l ≤ most, firstWord (countOf lengths) l + countOf lengths l ≤ 2 ^ l

variable {lengths}

theorem countOf_pos {l : Nat} (h : 0 < l) : countOf lengths l = lengths.count l :=
  if_neg (Nat.ne_of_gt h)

theorem rankOf_eq {sym : Nat} (h : sym < lengths.length) :
    rankOf lengths sym = (lengths.take sym).count lengths[sym] := by
  rw [rankOf, List.getD_eq_getElem _ _ h]

/-- The symbols before one of the same length are fewer than those before the next. -/
theorem count_take_lt {sym more : Nat} (h : sym < lengths.length) (hmore : sym < more) :
    (lengths.take sym).count lengths[sym] < (lengths.take more).count lengths[sym] := by
  have hsucc : (lengths.take (sym + 1)).count lengths[sym] =
      (lengths.take sym).count lengths[sym] + 1 := by
    rw [List.take_add_one, List.getElem?_eq_getElem h, Option.toList_some, List.count_append,
      List.count_singleton_self]
  have hle : (lengths.take (sym + 1)).count lengths[sym] ≤
      (lengths.take more).count lengths[sym] :=
    ((List.take_prefix_take_left (Nat.succ_le_of_lt hmore)).sublist).count_le _
  omega

theorem rankOf_lt {sym : Nat} (h : sym < lengths.length) :
    rankOf lengths sym < lengths.count lengths[sym] := by
  have hlt := count_take_lt h h
  rwa [List.take_length, ← rankOf_eq h] at hlt

theorem rankOf_inj {s t : Nat} (hs : s < lengths.length) (ht : t < lengths.length)
    (hlength : lengths[s] = lengths[t]) (hrank : rankOf lengths s = rankOf lengths t) : s = t := by
  rw [rankOf_eq hs, rankOf_eq ht] at hrank
  rcases Nat.lt_trichotomy s t with hst | hst | hst
  · have hlt := count_take_lt hs hst
    rw [hrank, hlength] at hlt
    exact absurd hlt (Nat.lt_irrefl _)
  · exact hst
  · have hlt := count_take_lt ht hst
    rw [← hrank, ← hlength] at hlt
    exact absurd hlt (Nat.lt_irrefl _)

theorem exists_symbol {l j : Nat} (h : j < lengths.count l) :
    ∃ sym, ∃ hsym : sym < lengths.length, lengths[sym] = l ∧ rankOf lengths sym = j := by
  induction lengths using List.reverseRecOn generalizing j with
  | nil => cases h
  | append_singleton lengths x ih =>
    have hold : ∀ sym, sym < lengths.length →
        rankOf (lengths ++ [x]) sym = rankOf lengths sym := by
      intro sym hsym
      rw [rankOf_eq (by simp; omega), rankOf_eq hsym, List.take_append_of_le_length (by omega),
        List.getElem_append_left hsym]
    by_cases hj : j < lengths.count l
    · obtain ⟨sym, hsym, hlength, hrank⟩ := ih hj
      refine ⟨sym, by simp; omega, ?_, ?_⟩
      · rw [List.getElem_append_left hsym, hlength]
      · rw [hold sym hsym, hrank]
    · rw [List.count_append] at h
      have hx : x = l := by
        by_contra hne
        rw [List.count_singleton, if_neg (by simpa using hne)] at h
        omega
      subst hx
      rw [List.count_singleton_self] at h
      refine ⟨lengths.length, by simp, by simp, ?_⟩
      rw [rankOf_eq (by simp), List.take_left' rfl, List.getElem_concat_length rfl]
      omega

theorem placeOf_le {count : Nat → Nat} {l m : Nat} (h : l < m) :
    placeOf count l + count l ≤ placeOf count m := by
  induction m with
  | zero => cases h
  | succ m ih =>
    rw [placeOf]
    rcases Nat.lt_succ_iff_lt_or_eq.mp h with hlt | rfl
    · exact (ih hlt).trans (Nat.le_add_right _ _)
    · exact Nat.le_refl _

theorem countP_below_succ (lengths : List Nat) (m : Nat) :
    lengths.countP (fun l => 0 < l ∧ l < m + 1) =
      lengths.countP (fun l => 0 < l ∧ l < m) + countOf lengths m := by
  induction lengths with
  | nil => simp [countOf]
  | cons l lengths ih =>
    rw [List.countP_cons, List.countP_cons, ih]
    by_cases hm : m = 0
    · subst hm
      rcases Nat.eq_zero_or_pos l with rfl | hl
      · simp [countOf]
      · simp [countOf, Nat.ne_of_gt hl]
    · rw [countOf_pos (Nat.pos_of_ne_zero hm), countOf_pos (Nat.pos_of_ne_zero hm),
        List.count_cons]
      by_cases hl : l = m
      · subst hl
        have hpos : 0 < l := Nat.pos_of_ne_zero hm
        simp [hpos]
        omega
      · have hiff : (0 < l ∧ l < m + 1) ↔ (0 < l ∧ l < m) := by omega
        simp only [hiff, beq_iff_eq, hl, if_false, Nat.add_zero]
        omega

theorem placeOf_eq_countP (m : Nat) :
    placeOf (countOf lengths) m = lengths.countP fun l => 0 < l ∧ l < m := by
  induction m with
  | zero => simp [placeOf]
  | succ m ih => rw [placeOf, ih, countP_below_succ]

theorem symbolPlace_eq {sym : Nat} (h : sym < lengths.length) :
    symbolPlace lengths sym = placeOf (countOf lengths) lengths[sym] + rankOf lengths sym := by
  rw [symbolPlace, List.getD_eq_getElem _ _ h]

theorem symbolPlace_lt {sym : Nat} (h : sym < lengths.length) (hpos : 0 < lengths[sym]) :
    symbolPlace lengths sym <
      placeOf (countOf lengths) lengths[sym] + countOf lengths lengths[sym] := by
  rw [symbolPlace_eq h, countOf_pos hpos]
  exact Nat.add_lt_add_left (rankOf_lt h) _

theorem symbolPlace_lt_length {sym : Nat} (h : sym < lengths.length) (hpos : 0 < lengths[sym]) :
    symbolPlace lengths sym < lengths.length := by
  have hall : placeOf (countOf lengths) lengths[sym] + countOf lengths lengths[sym] =
      placeOf (countOf lengths) (lengths[sym] + 1) := rfl
  refine (symbolPlace_lt h hpos).trans_le ?_
  rw [hall, placeOf_eq_countP]
  exact List.countP_le_length

theorem symbolPlace_inj {s t : Nat} (hs : s < lengths.length) (ht : t < lengths.length)
    (hposS : 0 < lengths[s]) (hposT : 0 < lengths[t])
    (h : symbolPlace lengths s = symbolPlace lengths t) : s = t := by
  have hltS := symbolPlace_lt hs hposS
  have hltT := symbolPlace_lt ht hposT
  rcases Nat.lt_trichotomy lengths[s] lengths[t] with hlt | heq | hlt
  · have hle : placeOf (countOf lengths) lengths[s] + countOf lengths lengths[s] ≤
        placeOf (countOf lengths) lengths[t] := placeOf_le hlt
    rw [symbolPlace_eq ht] at h
    omega
  · rw [symbolPlace_eq hs, symbolPlace_eq ht, heq] at h
    exact rankOf_inj hs ht heq (Nat.add_left_cancel h)
  · have hle : placeOf (countOf lengths) lengths[t] + countOf lengths lengths[t] ≤
        placeOf (countOf lengths) lengths[s] := placeOf_le hlt
    rw [symbolPlace_eq hs] at h
    omega

end Symbols

/-! ## Decoding -/

section Decoding

variable {lengths : List Nat} {most : Nat} {inverted : Bool}

theorem codeOf_eq {sym : Nat} (h : sym < lengths.length) : codeOf lengths inverted sym =
    wordOf inverted lengths[sym] (firstWord (countOf lengths) lengths[sym] + rankOf lengths sym) := by
  rw [codeOf, List.getD_eq_getElem _ _ h]

theorem length_codeOf {sym : Nat} (h : sym < lengths.length) :
    (codeOf lengths inverted sym).length = lengths[sym] := by
  rw [codeOf_eq h, length_wordOf]

theorem number_codeOf (hcode : IsCode lengths most) {sym : Nat} (h : sym < lengths.length) :
    number inverted (codeOf lengths inverted sym) =
      firstWord (countOf lengths) lengths[sym] + rankOf lengths sym := by
  have hpos : 0 < lengths[sym] := hcode.length_pos _ (List.getElem_mem h)
  have hroom := hcode.room _ (hcode.length_le _ (List.getElem_mem h))
  have hrank := rankOf_lt h
  rw [countOf_pos hpos] at hroom
  rw [codeOf_eq h, number_wordOf (by omega)]

/-- The word of a symbol is read as its place. -/
theorem walk_codeOf {ε : Type} (truncated noWord : ε) (hcode : IsCode lengths most) {sym : Nat}
    (h : sym < lengths.length) :
    Reads (walk (countOf lengths) truncated noWord inverted most 0 0)
      (codeOf lengths inverted sym) (symbolPlace lengths sym) := by
  have hpos : 0 < lengths[sym] := hcode.length_pos _ (List.getElem_mem h)
  have hlength : (codeOf lengths inverted sym).length = lengths[sym] := length_codeOf h
  have hnumber : number inverted (codeOf lengths inverted sym) =
      firstWord (countOf lengths) lengths[sym] + rankOf lengths sym := number_codeOf hcode h
  have hrank := rankOf_lt h
  have hword : codeOf lengths inverted sym ≠ [] := by
    intro hnil
    rw [hnil] at hlength
    exact Nat.ne_of_gt hpos hlength.symm
  have hisWord : IsWord (countOf lengths) (codeOf lengths inverted sym).length
      (number inverted (codeOf lengths inverted sym)) := by
    rw [hlength, hnumber, IsWord, countOf_pos hpos]
    omega
  have hmost : (codeOf lengths inverted sym).length ≤ most := by
    rw [hlength]
    exact hcode.length_le _ (List.getElem_mem h)
  have hplace : placeOf (countOf lengths) lengths[sym] +
      (firstWord (countOf lengths) lengths[sym] + rankOf lengths sym) -
        firstWord (countOf lengths) lengths[sym] = symbolPlace lengths sym := by
    rw [symbolPlace_eq h]
    omega
  have hreads : Reads (walk (countOf lengths) truncated noWord inverted most 0 0) _ _ :=
    walk_reads hword hisWord hmost
  rwa [hlength, hnumber, hplace] at hreads

theorem walk_symbol {ε : Type} {truncated noWord : ε} {left rest : List Bool} {place : Nat}
    (h : walk (countOf lengths) truncated noWord inverted most 0 0 left = .ok (place, rest)) :
    ∃ sym, sym < lengths.length ∧ left = codeOf lengths inverted sym ++ rest ∧
      place = symbolPlace lengths sym := by
  obtain ⟨word, rfl, hne, _, ⟨hlow, hhigh⟩, rfl⟩ := walk_exact rfl h
  have hpos : 0 < word.length := List.length_pos_iff.mpr hne
  rw [countOf_pos hpos] at hhigh
  obtain ⟨sym, hsym, hlength, hrank⟩ := exists_symbol
    (show number inverted word - firstWord (countOf lengths) word.length <
      lengths.count word.length by omega)
  have hnumber : firstWord (countOf lengths) lengths[sym] + rankOf lengths sym =
      number inverted word := by
    rw [hlength, hrank]
    omega
  refine ⟨sym, hsym, ?_, ?_⟩
  · rw [codeOf_eq hsym, hnumber, hlength, wordOf_number]
  · rw [symbolPlace_eq hsym, hlength, hrank]
    omega

end Decoding

end CommandCenter.Library
