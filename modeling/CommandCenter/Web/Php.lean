import Mathlib.Data.List.DropRight
import CommandCenter.Library.Pattern

/-!
# Strings of PHP

A string is its bytes. `preg_*` match bytes, as they do without the modifier `u`.

* `plain_h`: what is escaped has no character that marks up a page.
-/

namespace CommandCenter.Web

open Library

abbrev Str := List UInt8

/-- A literal of ASCII characters. -/
def str (s : String) : Str := s.toList.map Char.toUInt8

def trim (s : Str) : Str :=
  let trimmed (b : UInt8) : Bool := b ∈ [32, 9, 10, 13, 0, 11]
  (s.dropWhile trimmed).rdropWhile trimmed

/-- `str_replace` of one string; `skip` bytes have been replaced already. -/
def strReplaceFrom (search replacement : Str) : (skip : Nat) → Str → Str
  | _, [] => []
  | skip + 1, _ :: rest => strReplaceFrom search replacement skip rest
  | 0, b :: rest =>
    if search <+: b :: rest then
      replacement ++ strReplaceFrom search replacement (search.length - 1) rest
    else b :: strReplaceFrom search replacement 0 rest

def strReplace (search replacement s : Str) : Str := strReplaceFrom search replacement 0 s

/-- `explode("\n", …)`. -/
def lines (s : Str) : List Str := s.splitOn 10

def implode (separator : Str) (parts : List Str) : Str := separator.intercalate parts

/-! ## Escaping -/

def utf8Trail (b : UInt8) : Bool := 0x80 ≤ b && b ≤ 0xBF

def utf8Lead (b : UInt8) : Bool := b < 0x80 || (0xC2 ≤ b && b ≤ 0xF4)

/-- The bytes of a malformed character: it ends before a byte that begins another one. -/
def malformed (rest : Str) : (most : Nat) → Nat
  | 0 => 1
  | most + 1 =>
    match rest with
    | [] => 1
    | b :: rest => if utf8Lead b then 1 else malformed rest most + 1

/-- The number that the bits of trail bytes continue. -/
def codePoint (high : Nat) (trail : Str) : Nat :=
  trail.foldl (fun n b => n * 64 + b.toNat % 64) high

/-- `get_next_char`: whether a character is well formed, and of how many bytes it is. -/
def nextChar (b : UInt8) (rest : Str) : Bool × Nat :=
  let character (trails high low : Nat) : Bool × Nat :=
    let trail := rest.take trails
    if trail.length = trails ∧ trail.all utf8Trail = true then
      let c := codePoint high trail
      (low ≤ c && !(0xD800 ≤ c && c ≤ 0xDFFF) && c ≤ 0x10FFFF, trails + 1)
    else (false, malformed rest trails)
  if b < 0x80 then (true, 1)
  else if b < 0xC2 then (false, 1)
  else if b < 0xE0 then character 1 (b.toNat % 32) 0x80
  else if b < 0xF0 then character 2 (b.toNat % 16) 0x800
  else if b < 0xF5 then character 3 (b.toNat % 8) 0x10000
  else (false, 1)

/-- The entity that stands for a byte, if it marks up a page. -/
def entity (b : UInt8) : Str :=
  if b = '&'.toUInt8 then str "&amp;"
  else if b = '"'.toUInt8 then str "&quot;"
  else if b = '\''.toUInt8 then str "&#039;"
  else if b = '<'.toUInt8 then str "&lt;"
  else if b = '>'.toUInt8 then str "&gt;"
  else [b]

/-- `htmlspecialchars` with `ENT_QUOTES | ENT_SUBSTITUTE`; `skip` bytes are of the character that
has been escaped last. -/
def escapeFrom : (skip : Nat) → Str → Str
  | _, [] => []
  | skip + 1, _ :: rest => escapeFrom skip rest
  | 0, b :: rest =>
    let (valid, n) := nextChar b rest
    let escaped := if valid then (if n = 1 then entity b else b :: rest.take (n - 1))
      else [0xEF, 0xBF, 0xBD]
    escaped ++ escapeFrom (n - 1) rest

def h (text : Str) : Str := escapeFrom 0 text

/-- A byte that neither opens nor closes a tag, nor ends the value of an attribute. -/
def Plain (b : UInt8) : Prop := b ≠ '<'.toUInt8 ∧ b ≠ '>'.toUInt8 ∧ b ≠ '"'.toUInt8

instance : DecidablePred Plain := fun _ => inferInstanceAs (Decidable (_ ∧ _))

section Escaping

variable {b : UInt8}

theorem plain_of_ge (h : 0x80 ≤ b) : Plain b := by
  refine ⟨?_, ?_, ?_⟩ <;>
  · rintro rfl
    exact absurd h (by decide)

theorem plain_literal {s : Str} (h : s.all (fun b => decide (Plain b)) = true) : ∀ b ∈ s, Plain b :=
  fun b hb => of_decide_eq_true (List.all_eq_true.mp h b hb)

theorem plain_entity (b : UInt8) : ∀ c ∈ entity b, Plain c := by
  unfold entity
  split
  · exact plain_literal (by decide)
  · split
    · exact plain_literal (by decide)
    · rename_i hquote
      split
      · exact plain_literal (by decide)
      · split
        · exact plain_literal (by decide)
        · rename_i hopen
          split
          · exact plain_literal (by decide)
          · rename_i hclose
            intro c hc
            rw [List.mem_singleton.mp hc]
            exact ⟨hopen, hclose, hquote⟩

theorem nextChar_spec {rest : Str} {n : Nat} (h : nextChar b rest = (true, n)) :
    n = 1 ∨ ∀ c ∈ b :: rest.take (n - 1), 0x80 ≤ c := by
  have hcharacter (trails high low : Nat) (hb : ¬ b < 0x80)
      (h : (if (rest.take trails).length = trails ∧ (rest.take trails).all utf8Trail = true then
        let c := codePoint high (rest.take trails)
        ((low ≤ c && !(0xD800 ≤ c && c ≤ 0xDFFF) && c ≤ 0x10FFFF, trails + 1) : Bool × Nat)
      else (false, malformed rest trails)) = (true, n)) :
      ∀ c ∈ b :: rest.take (n - 1), 0x80 ≤ c := by
    split at h
    · rename_i htrail
      obtain ⟨-, rfl⟩ := Prod.mk.inj h
      rw [List.forall_mem_cons, Nat.add_sub_cancel]
      refine ⟨UInt8.not_lt.mp hb, fun c hc => ?_⟩
      have hc := List.all_eq_true.mp htrail.2 c hc
      rw [utf8Trail, Bool.and_eq_true, decide_eq_true_eq] at hc
      exact hc.1
    · cases (Prod.mk.inj h).1
  unfold nextChar at h
  dsimp only at h
  split at h
  · exact .inl (Prod.mk.inj h).2.symm
  · rename_i hb
    split at h
    · cases (Prod.mk.inj h).1
    · split at h
      · exact .inr (hcharacter _ _ _ hb h)
      · split at h
        · exact .inr (hcharacter _ _ _ hb h)
        · split at h
          · exact .inr (hcharacter _ _ _ hb h)
          · cases (Prod.mk.inj h).1

theorem plain_escapeFrom (skip : Nat) (s : Str) : ∀ c ∈ escapeFrom skip s, Plain c := by
  induction s generalizing skip with
  | nil =>
    rw [escapeFrom]
    simp
  | cons b rest ih =>
    cases skip with
    | succ skip => exact ih skip
    | zero =>
      rw [escapeFrom]
      cases hnext : nextChar b rest with
      | mk valid n =>
        intro c hc
        rcases List.mem_append.mp hc with hc | hc
        · split at hc
          · rename_i hvalid
            rw [hvalid] at hnext
            split at hc
            · exact plain_entity b c hc
            · rename_i hn
              exact plain_of_ge ((nextChar_spec hnext).resolve_left hn c hc)
          · have hmark : ∀ c ∈ ([0xEF, 0xBF, 0xBD] : Str), Plain c := plain_literal (by decide)
            exact hmark c hc
        · exact ih _ c hc

/-- **What is escaped marks nothing up.** -/
theorem plain_h (s : Str) : ∀ c ∈ h s, Plain c := plain_escapeFrom 0 s

end Escaping

/-! ## Patterns -/

/-- `\s`. -/
def space (b : UInt8) : Bool := b ∈ [32, 9, 10, 11, 12, 13]

/-- `\w`. -/
def word (b : UInt8) : Bool :=
  (48 ≤ b && b ≤ 57) || (65 ≤ b && b ≤ 90) || (97 ≤ b && b ≤ 122) || b == '_'.toUInt8

/-- `.`, which no newline is. -/
def anyByte (b : UInt8) : Bool := b != 10

def one (p : UInt8 → Bool) : Pattern UInt8 := .run p 1 (some 1) false

def is (c : Char) : Pattern UInt8 := one (· == c.toUInt8)

/-- One pattern behind another. -/
def seqs : List (Pattern UInt8) → Pattern UInt8
  | [] => .here fun _ => true
  | p :: more => .seq p (seqs more)

def literal (s : String) : Pattern UInt8 := seqs (s.toList.map is)

/-- `^` -/
def start : Pattern UInt8 := .here fun s => s.before.isEmpty

/-- `$`, which may stand before a newline at the end. -/
def stop : Pattern UInt8 := .here fun s => s.rest = [] || s.rest = [10]

/-- `\b` -/
def boundary : Pattern UInt8 := .here fun s => s.before.head?.any word != s.rest.head?.any word

/-- `(?<!…)` and `(?!…)` of one byte. -/
def notBehind (p : UInt8 → Bool) : Pattern UInt8 := .here fun s => !s.before.head?.any p

def notBefore (p : UInt8 → Bool) : Pattern UInt8 := .here fun s => !s.rest.head?.any p

def capture (m : Found UInt8) (i : Nat) : Str := m.captures.getD (i - 1) []

def pregMatch (p : Pattern UInt8) (s : Str) : Option (Found UInt8) :=
  (p.seek [] s).map fun r => r.2.1

/-- `preg_split` with `PREG_SPLIT_DELIM_CAPTURE`. -/
def pregSplit (p : Pattern UInt8) (s : Str) : List Str :=
  let (finds, last) := p.findAll s
  (finds.flatMap fun r => r.1 :: r.2.captures) ++ [last]

/-- `preg_replace_callback`, with the state that the callback changes. -/
def pregReplace {σ : Type} (p : Pattern UInt8) (f : σ → Found UInt8 → Str × σ) (state : σ)
    (s : Str) : Str × σ :=
  let (finds, last) := p.findAll s
  Pattern.replace f state finds last

end CommandCenter.Web
