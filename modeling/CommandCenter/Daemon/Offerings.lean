import CommandCenter.Library.CodeWords
import CommandCenter.Rust.Slice
import CommandCenter.Rust.Text

/-!
# What a server offers

The codes in a server's description, from `crates/bnetccd/src/tracker.rs`: how a server writes what
it offers and how a list reads it.

* `splitCodes_iff`: the search finds the codes that a word is made of.
* `offerings_decodable`: a word is made of codes in one way at most.
* `readOfferings_describe`: what `Offered.describe` writes is read back.
-/

namespace CommandCenter.Daemon

open Rust Library

structure Offering where
  code : Text
  name : Text
  /-- Not so for the notes that ride along in the same field: open or closed play, ladder. -/
  game : Bool
deriving DecidableEq

/-- Every spelling that is accepted, the longest first. -/
def OFFERINGS : List (Text × Offering) := [
  ("SSHR".toList, ⟨"SSHR".toList, "StarCraft Shareware".toList, true⟩),
  ("JSTR".toList, ⟨"JSTR".toList, "StarCraft (Japan)".toList, true⟩),
  ("W2BN".toList, ⟨"W2BN".toList, "Warcraft II BNE".toList, true⟩),
  ("WAR3".toList, ⟨"WAR3".toList, "Warcraft III".toList, true⟩),
  ("W3XP".toList, ⟨"W3XP".toList, "Warcraft III: TFT".toList, true⟩),
  ("D2DV".toList, ⟨"D2DV".toList, "Diablo II".toList, true⟩),
  ("D2XP".toList, ⟨"D2XP".toList, "Diablo II: LoD".toList, true⟩),
  ("DRTL".toList, ⟨"DRTL".toList, "Diablo".toList, true⟩),
  ("DSHR".toList, ⟨"DSHR".toList, "Diablo Shareware".toList, true⟩),
  ("STAR".toList, ⟨"STAR".toList, "StarCraft".toList, true⟩),
  ("SEXP".toList, ⟨"SEXP".toList, "Brood War".toList, true⟩),
  ("CHAT".toList, ⟨"CHAT".toList, "Chat client".toList, true⟩),
  ("SPW".toList, ⟨"SPWN".toList, "StarCraft Spawn".toList, true⟩),
  ("DHR".toList, ⟨"DSHR".toList, "Diablo Shareware".toList, true⟩),
  ("SBW".toList, ⟨"SEXP".toList, "Brood War".toList, true⟩),
  ("WC2".toList, ⟨"W2BN".toList, "Warcraft II BNE".toList, true⟩),
  ("WC3".toList, ⟨"WAR3".toList, "Warcraft III".toList, true⟩),
  ("WCX".toList, ⟨"W3XP".toList, "Warcraft III: TFT".toList, true⟩),
  ("LOD".toList, ⟨"D2XP".toList, "Diablo II: LoD".toList, true⟩),
  ("ALL".toList, ⟨"ALL".toList, "All Blizzard games".toList, true⟩),
  ("OPE".toList, ⟨"OPEN".toList, "Open play".toList, false⟩),
  ("CLO".toList, ⟨"CLOSED".toList, "Closed realm".toList, false⟩),
  ("LDR".toList, ⟨"LADDER".toList, "Ladder".toList, false⟩),
  ("SC".toList, ⟨"STAR".toList, "StarCraft".toList, true⟩),
  ("D1".toList, ⟨"DRTL".toList, "Diablo".toList, true⟩),
  ("D2".toList, ⟨"D2DV".toList, "Diablo II".toList, true⟩)]

/-- The short code a public list site draws an icon for, per product. -/
def ICON_CODES : List (Text × Text) := [
  ("STAR".toList, "SC".toList),
  ("SEXP".toList, "SBW".toList),
  ("SSHR".toList, "SSHR".toList),
  ("DRTL".toList, "D1".toList),
  ("D2DV".toList, "D2".toList),
  ("D2XP".toList, "LOD".toList),
  ("W2BN".toList, "WC2".toList),
  ("WAR3".toList, "WC3".toList),
  ("W3XP".toList, "WCX".toList)]

def offeringByCode (code : Text) : Option Offering :=
  (OFFERINGS.find? fun o => o.2.code == code && o.2.game).map Prod.snd

/-- The codes of a word of `fuel` characters at most: none of them is empty. -/
def splitCodesFrom : (fuel : Nat) → Text → Option (List Offering)
  | _, [] => some []
  | 0, _ :: _ => none
  | fuel + 1, c :: word => OFFERINGS.findSome? fun entry => do
    let rest ← stripPrefix entry.1 (c :: word)
    let found ← splitCodesFrom fuel rest
    return entry.2 :: found

/-- Split one word into offerings, or `none` if any part of it is not a code. -/
def splitCodes (word : Text) : Option (List Offering) := splitCodesFrom word.length word

/-- The offerings found, each added unless its code is there. -/
def addOfferings (offerings : List Offering) (found : List Offering) : List Offering :=
  found.foldl (fun offerings one =>
    if offerings.any (·.code == one.code) then offerings else offerings ++ [one]) offerings

/-- What one word adds to the offerings and to the words of the name. -/
def readWord (state : List Offering × List Text) (word : Text) : List Offering × List Text :=
  match splitCodes word with
  | some (one :: found) => (addOfferings state.1 (one :: found), state.2)
  | _ => (state.1, state.2 ++ [word])

/-- `words.join(" ")`. -/
def joinWords (words : List Text) : Text := [' '].intercalate words

/-- What a description offers, and the words that are left over, its name. -/
def readOfferings (description : Text) : List Offering × Text :=
  let (offerings, words) := description.splitWhitespace.foldl readWord ([], [])
  (offerings, joinWords words)

structure Offered where
  products : List Text
  closedRealm : Bool

namespace Offered

/-- The icon code that is written for a product, if any. -/
def codeOf (o : Offered) (product : Text) : Option Text :=
  if product = "SEXP".toList ∧ o.products.contains "STAR".toList then none
  else (ICON_CODES.find? fun p => p.1 == product).map Prod.snd

def codes (o : Offered) : Text :=
  o.products.flatMap (fun product => (o.codeOf product).getD []) ++
    (if o.closedRealm then "CLOLDR".toList else "OPELDR".toList)

def describe (o : Offered) (name : Text) : Text := o.codes ++ ' ' :: name

end Offered

/-! ## Words that are made of codes -/

/-- Only `D2` begins another code, and neither `DV` nor `XP` is comparable with a code. -/
theorem offerings_decodable : Decodable OFFERINGS := by
  constructor
  · decide
  · decide
  · decide +kernel

theorem splitCodesFrom_sound {fuel : Nat} {word : Text} {l : List Offering}
    (h : splitCodesFrom fuel word = some l) :
    ∃ parts, Spells OFFERINGS parts word ∧ l = parts.map Prod.snd := by
  induction fuel generalizing word l with
  | zero =>
    cases word with
    | nil => exact ⟨[], spells_nil.mpr rfl, by simpa [splitCodesFrom] using h.symm⟩
    | cons c word => simp [splitCodesFrom] at h
  | succ fuel ih =>
    cases word with
    | nil => exact ⟨[], spells_nil.mpr rfl, by simpa [splitCodesFrom] using h.symm⟩
    | cons c word =>
      obtain ⟨entry, hentry, hfound⟩ := List.exists_of_findSome?_eq_some h
      obtain ⟨rest, hrest, hfound⟩ := Option.bind_eq_some_iff.mp hfound
      obtain ⟨found, hsplit, hl⟩ := Option.bind_eq_some_iff.mp hfound
      obtain ⟨parts, hparts, rfl⟩ := ih hsplit
      refine ⟨entry :: parts, spells_cons.mpr ⟨hentry, rest, ?_, hparts⟩, ?_⟩
      · exact stripPrefix_eq_some.mp hrest
      · simpa using hl.symm

/-- A word that is made of codes is split: its first code is tried among the others, and what is
left behind it is shorter. -/
theorem splitCodesFrom_complete {fuel : Nat} {word : Text} {parts : List (Text × Offering)}
    (hfuel : word.length ≤ fuel) (h : Spells OFFERINGS parts word) :
    splitCodesFrom fuel word ≠ none := by
  induction fuel generalizing word parts with
  | zero =>
    rw [List.length_eq_zero_iff.mp (Nat.le_zero.mp hfuel)]
    simp [splitCodesFrom]
  | succ fuel ih =>
    cases word with
    | nil => simp [splitCodesFrom]
    | cons c word =>
      cases parts with
      | nil => cases spells_nil.mp h
      | cons entry parts =>
        obtain ⟨hentry, rest, hrest, hparts⟩ := spells_cons.mp h
        have hpos : 0 < entry.1.length :=
          List.length_pos_of_ne_nil (offerings_decodable.nonempty entry hentry)
        have hlength : word.length + 1 = entry.1.length + rest.length := by
          simpa using congrArg List.length hrest
        have hshort : rest.length ≤ fuel := by
          rw [List.length_cons] at hfuel
          omega
        obtain ⟨found, hfound⟩ := Option.ne_none_iff_exists'.mp (ih hshort hparts)
        intro hnone
        have hentryNone := List.findSome?_eq_none_iff.mp hnone entry hentry
        simp [stripPrefix_eq_some.mpr hrest, hfound] at hentryNone

/-- A word is split into the codes that it is made of. -/
theorem splitCodes_iff {word : Text} {l : List Offering} :
    splitCodes word = some l ↔ ∃ parts, Spells OFFERINGS parts word ∧ l = parts.map Prod.snd := by
  constructor
  · exact splitCodesFrom_sound
  · rintro ⟨parts, hparts, rfl⟩
    obtain ⟨found, hfound⟩ :=
      Option.ne_none_iff_exists'.mp (splitCodesFrom_complete (Nat.le_refl _) hparts)
    obtain ⟨parts', hparts', rfl⟩ := splitCodesFrom_sound hfound
    rw [offerings_decodable.unique hparts hparts']
    exact hfound

theorem splitCodes_spells {word : Text} {parts : List (Text × Offering)}
    (h : Spells OFFERINGS parts word) : splitCodes word = some (parts.map Prod.snd) :=
  splitCodes_iff.mpr ⟨parts, h, rfl⟩

theorem splitCodes_eq_none {word : Text} (h : ∀ parts, ¬ Spells OFFERINGS parts word) :
    splitCodes word = none := by
  cases hsplit : splitCodes word with
  | none => rfl
  | some l =>
    obtain ⟨parts, hparts, _⟩ := splitCodes_iff.mp hsplit
    exact absurd hparts (h parts)

/-! ## Reading a description -/

theorem foldl_readWord {words : List Text}
    (h : ∀ word ∈ words, ∀ parts, ¬ Spells OFFERINGS parts word) (offerings : List Offering)
    (name : List Text) : words.foldl readWord (offerings, name) = (offerings, name ++ words) := by
  induction words generalizing name with
  | nil => simp
  | cons word words ih =>
    have hword : readWord (offerings, name) word = (offerings, name ++ [word]) := by
      simp [readWord, splitCodes_eq_none (h word List.mem_cons_self)]
    rw [List.foldl_cons, hword, ih fun w hw => h w (List.mem_cons_of_mem word hw)]
    simp

/-- Offerings whose codes are known from them are added once each, in the order in which they come
first. -/
theorem addOfferings_eq {offerings found : List Offering}
    (hinj : ∀ a ∈ offerings ++ found, ∀ b ∈ offerings ++ found, a.code = b.code → a = b) :
    addOfferings offerings found =
      offerings ++ (found.filter (· ∉ offerings)).eraseDups := by
  induction found generalizing offerings with
  | nil => simp [addOfferings]
  | cons one found ih =>
    have hany : offerings.any (·.code == one.code) = decide (one ∈ offerings) := by
      rw [Bool.eq_iff_iff, List.any_eq_true, decide_eq_true_eq]
      constructor
      · rintro ⟨o, ho, hcode⟩
        have heq := hinj o (by simp [ho]) one (by simp) (by simpa using hcode)
        exact heq ▸ ho
      · intro hmem
        exact ⟨one, hmem, by simp⟩
    rw [addOfferings, List.foldl_cons, ← addOfferings, hany]
    by_cases hmem : one ∈ offerings
    · rw [if_pos (by simpa using hmem), ih]
      · simp [hmem]
      · intro a ha b hb
        exact hinj a (by simp at ha ⊢; tauto) b (by simp at hb ⊢; tauto)
    · rw [if_neg (by simpa using hmem), ih]
      · rw [List.filter_cons_of_pos (by simpa using hmem), List.eraseDups_cons, List.append_assoc,
          List.singleton_append, List.filter_filter]
        congr 3
        apply List.filter_congr
        intro a _
        by_cases ha : a = one <;> simp [ha]
      · intro a ha b hb
        exact hinj a (by simp at ha ⊢; tauto) b (by simp at hb ⊢; tauto)

namespace Offered

/-- A product with an icon of its own: Brood War has none beside StarCraft. -/
def IsShown (o : Offered) (product : Text) : Prop :=
  product ∈ ICON_CODES.map Prod.fst ∧ ¬ (product = "SEXP".toList ∧ "STAR".toList ∈ o.products)

instance (o : Offered) : DecidablePred o.IsShown :=
  fun _ => inferInstanceAs (Decidable (_ ∧ ¬ (_ ∧ _)))

def shown (o : Offered) : List Text := o.products.filter o.IsShown

/-- The notes about the realm and the ladder. -/
def notes (o : Offered) : List Offering :=
  [if o.closedRealm then ⟨"CLOSED".toList, "Closed realm".toList, false⟩
    else ⟨"OPEN".toList, "Open play".toList, false⟩,
    ⟨"LADDER".toList, "Ladder".toList, false⟩]

/-- The entry that a product is written as. -/
def entryOf (product : Text) : Option (Text × Offering) := do
  let icon ← ICON_CODES.find? fun p => p.1 == product
  let offering ← offeringByCode product
  return (icon.2, offering)

/-- An icon code is an accepted spelling of its product. -/
theorem entryOf_spec {product : Text} (h : product ∈ ICON_CODES.map Prod.fst) :
    ∃ entry ∈ OFFERINGS, entryOf product = some entry ∧
      offeringByCode product = some entry.2 ∧
      (ICON_CODES.find? fun p => p.1 == product).map Prod.snd = some entry.1 := by
  have hall : ∀ product ∈ ICON_CODES.map Prod.fst, ∃ entry ∈ OFFERINGS,
      entryOf product = some entry ∧ offeringByCode product = some entry.2 ∧
      (ICON_CODES.find? fun p => p.1 == product).map Prod.snd = some entry.1 := by
    decide
  exact hall product h

theorem entryOf_eq_none {product : Text} (h : product ∉ ICON_CODES.map Prod.fst) :
    (ICON_CODES.find? fun p => p.1 == product).map Prod.snd = none := by
  rw [Option.map_eq_none_iff, List.find?_eq_none]
  intro icon hicon heq
  exact h (List.mem_map.mpr ⟨icon, hicon, by simpa using heq⟩)

def noteEntries (o : Offered) : List (Text × Offering) :=
  [if o.closedRealm then ("CLO".toList, ⟨"CLOSED".toList, "Closed realm".toList, false⟩)
    else ("OPE".toList, ⟨"OPEN".toList, "Open play".toList, false⟩),
    ("LDR".toList, ⟨"LADDER".toList, "Ladder".toList, false⟩)]

theorem spells_products (o : Offered) (products : List Text) :
    Spells OFFERINGS ((products.filter o.IsShown).filterMap entryOf)
      (products.flatMap fun product => (o.codeOf product).getD []) := by
  induction products with
  | nil => exact spells_nil.mpr rfl
  | cons product products ih =>
    rw [List.flatMap_cons]
    by_cases hshown : o.IsShown product
    · obtain ⟨entry, hentry, hof, _, hcode⟩ := entryOf_spec hshown.1
      rw [List.filter_cons_of_pos (by simpa using hshown), List.filterMap_cons_some hof]
      refine spells_cons.mpr ⟨hentry, _, ?_, ih⟩
      have hbeside : ¬ (product = "SEXP".toList ∧ o.products.contains "STAR".toList = true) :=
        fun h => hshown.2 ⟨h.1, List.contains_iff_mem.mp h.2⟩
      rw [codeOf, if_neg hbeside, hcode]
      rfl
    · have hnone : o.codeOf product = none := by
        unfold codeOf
        split
        · rfl
        · rename_i hbeside
          exact entryOf_eq_none fun hicon => hshown ⟨hicon, fun h =>
            hbeside ⟨h.1, List.contains_iff_mem.mpr h.2⟩⟩
      rw [List.filter_cons_of_neg (by simpa using hshown), hnone]
      exact ih

theorem spells_codes (o : Offered) :
    Spells OFFERINGS (o.shown.filterMap entryOf ++ o.noteEntries) o.codes := by
  refine (o.spells_products o.products).append ⟨?_, ?_⟩
  · unfold noteEntries
    cases o.closedRealm <;> decide
  · unfold noteEntries
    cases o.closedRealm <;> rfl

theorem map_snd_entries (o : Offered) :
    (o.shown.filterMap entryOf ++ o.noteEntries).map Prod.snd =
      o.shown.filterMap offeringByCode ++ o.notes := by
  rw [List.map_append, List.map_filterMap]
  congr 1
  · apply List.filterMap_congr
    intro product hproduct
    have hshown : o.IsShown product := of_decide_eq_true (List.mem_filter.mp hproduct).2
    obtain ⟨entry, _, hof, hoffering, _⟩ := entryOf_spec hshown.1
    rw [hof, hoffering]
    rfl
  · unfold noteEntries notes
    cases o.closedRealm <;> rfl

/-- The codes are one word. -/
theorem splitWhitespace_describe (o : Offered) (name : Text) :
    (o.describe name).splitWhitespace = o.codes :: name.splitWhitespace := by
  have hall : ∀ entry ∈ OFFERINGS, (entry.1.all fun c => !Text.isWhitespace c) = true := by decide
  have hblank : ∀ entry ∈ OFFERINGS, ∀ c ∈ entry.1, Text.isWhitespace c = false := by
    intro entry hentry c hc
    simpa using List.all_eq_true.mp (hall entry hentry) c hc
  have hcodes : ∀ c ∈ o.codes, Text.isWhitespace c = false := by
    intro c hc
    obtain ⟨hmem, hword⟩ := o.spells_codes
    rw [← hword] at hc
    obtain ⟨entry, hentry, hc⟩ := List.mem_flatMap.mp hc
    exact hblank entry (hmem entry hentry) c hc
  have hne : o.codes ≠ [] := by
    unfold codes
    cases o.closedRealm <;> simp
  rw [Text.splitWhitespace, describe, List.splitOnP_append_cons_of_forall_mem hcodes ' ' (by decide)]
  simp [hne, Text.splitWhitespace]

theorem notMem_notes (o : Offered) {offering : Offering}
    (h : offering ∈ o.shown.filterMap offeringByCode) : offering ∉ o.notes := by
  intro hnote
  obtain ⟨product, _, hof⟩ := List.mem_filterMap.mp h
  obtain ⟨entry, hfind, rfl⟩ := Option.map_eq_some_iff.mp hof
  have hgame : entry.2.game = true := by
    have hfound := List.find?_some hfind
    exact (Bool.and_eq_true_iff.mp hfound).2
  have hnotes : ∀ note ∈ o.notes, note.game = false := by
    unfold notes
    cases o.closedRealm <;> decide
  rw [hnotes entry.2 hnote] at hgame
  cases hgame

theorem addOfferings_shown (o : Offered) :
    addOfferings [] (o.shown.filterMap offeringByCode ++ o.notes) =
      (o.shown.filterMap offeringByCode).eraseDups ++ o.notes := by
  have hinj : ∀ a ∈ OFFERINGS.map Prod.snd, ∀ b ∈ OFFERINGS.map Prod.snd,
      a.code = b.code → a = b := by decide +kernel
  have hmem : ∀ a ∈ o.shown.filterMap offeringByCode ++ o.notes, a ∈ OFFERINGS.map Prod.snd := by
    intro a ha
    rw [← o.map_snd_entries] at ha
    obtain ⟨entry, hentry, rfl⟩ := List.mem_map.mp ha
    exact List.mem_map_of_mem (o.spells_codes.1 entry hentry)
  have hnotes : (o.notes.removeAll (o.shown.filterMap offeringByCode)).eraseDups = o.notes := by
    have hall : o.notes.removeAll (o.shown.filterMap offeringByCode) = o.notes := by
      apply List.filter_eq_self.mpr
      intro note hnote
      have hnot : note ∉ o.shown.filterMap offeringByCode := fun h => o.notMem_notes h hnote
      simpa using hnot
    rw [hall]
    unfold notes
    cases o.closedRealm <;> rfl
  have hadd := @addOfferings_eq [] (o.shown.filterMap offeringByCode ++ o.notes)
    fun a ha b hb => hinj a (hmem a ha) b (hmem b hb)
  rw [hadd, List.nil_append, List.filter_eq_self.mpr (by simp), List.eraseDups_append, hnotes]

theorem readWord_codes (o : Offered) :
    readWord ([], []) o.codes = ((o.shown.filterMap offeringByCode).eraseDups ++ o.notes, []) := by
  have hsplit := splitCodes_spells o.spells_codes
  rw [o.map_snd_entries] at hsplit
  have hne : o.shown.filterMap offeringByCode ++ o.notes ≠ [] :=
    List.append_ne_nil_of_right_ne_nil _ (List.cons_ne_nil _ _)
  obtain ⟨one, found, hfound⟩ := List.exists_cons_of_ne_nil hne
  rw [readWord, hsplit, hfound]
  simp only [← hfound, o.addOfferings_shown]

/-- What is read of a description: each offering that is shown, once, the notes and the name. -/
theorem readOfferings_describe (o : Offered) {name : Text}
    (h : ∀ word ∈ name.splitWhitespace, ∀ parts, ¬ Spells OFFERINGS parts word) :
    readOfferings (o.describe name) =
      ((o.shown.filterMap offeringByCode).eraseDups ++ o.notes, joinWords name.splitWhitespace) := by
  rw [readOfferings, splitWhitespace_describe, List.foldl_cons, readWord_codes, foldl_readWord h]
  rfl

end Offered

/-! ## The whole of it -/

/-- A word is split just if it is made of codes, which it is in one way at most; so a description is
read back as it was meant, where no word of the name is made of codes. -/
theorem offerings_read_back :
    (∀ word l, splitCodes word = some l ↔
      ∃ parts, Spells OFFERINGS parts word ∧ l = parts.map Prod.snd) ∧
    (∀ word parts parts', Spells OFFERINGS parts word → Spells OFFERINGS parts' word →
      parts = parts') ∧
    ∀ (o : Offered) (name : Text),
      (∀ word ∈ name.splitWhitespace, ∀ parts, ¬ Spells OFFERINGS parts word) →
        readOfferings (o.describe name) =
          ((o.shown.filterMap offeringByCode).eraseDups ++ o.notes,
            joinWords name.splitWhitespace) := by
  refine ⟨fun word l => splitCodes_iff, ?_, ?_⟩
  · intro word parts parts' h h'
    exact offerings_decodable.unique h h'
  · intro o name h
    exact o.readOfferings_describe h

/-- A server with StarCraft and Brood War on a closed realm. -/
def starcraft : Offered := ⟨["STAR".toList, "SEXP".toList], true⟩

theorem offerings_read_back_starcraft :
    readOfferings (starcraft.describe "Lost Temple".toList) =
      ([⟨"STAR".toList, "StarCraft".toList, true⟩, ⟨"CLOSED".toList, "Closed realm".toList, false⟩,
        ⟨"LADDER".toList, "Ladder".toList, false⟩], "Lost Temple".toList) := by
  have hwords : Text.splitWhitespace "Lost Temple".toList = ["Lost".toList, "Temple".toList] := by
    decide
  have hnone : ∀ word ∈ ["Lost".toList, "Temple".toList], splitCodes word = none := by decide
  have hname : ∀ word ∈ Text.splitWhitespace "Lost Temple".toList, ∀ parts,
      ¬ Spells OFFERINGS parts word := by
    intro word hword parts hparts
    rw [hwords] at hword
    have hsome := (offerings_read_back.1 word _).mpr ⟨parts, hparts, rfl⟩
    rw [hnone word hword] at hsome
    cases hsome
  rw [offerings_read_back.2.2 starcraft "Lost Temple".toList hname]
  decide

end CommandCenter.Daemon
