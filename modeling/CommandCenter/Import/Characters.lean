import CommandCenter.Formats.D2s
import CommandCenter.Import.Apply
import CommandCenter.Rust.Utf8

/-!
# Reading characters

`crates/pvpgn-import/src/d2.rs`: which account a character belongs to is said by the directories
of `charinfo`, and everything else by its save in `charsave`.

* `zero_notMem_name`: the name of a save ends before a zero.
-/

namespace CommandCenter.Import

open Rust Formats

structure DirEntry (α : Type) where
  name : List UInt8
  content : α

/-- The entries of a directory, by their names. -/
def files {α : Type} (dir : List (DirEntry α)) : List (DirEntry α) :=
  dir.mergeSort fun a b => !decide (b.name < a.name)

def fileName {α : Type} (entry : DirEntry α) : Text := Text.fromUtf8Lossy entry.name

/-- The saves, each with what reading it gives. -/
abbrev Charsave := List (DirEntry (Except Text (List UInt8)))

/-- The entries of `charinfo`: of a directory its own entries, and which of them are files. -/
abbrev Charinfo := List (DirEntry (Option (List (DirEntry Bool))))

/-- `Display` of an error of a save. -/
def saveErrorText : D2s.Error → Text
  | .truncated => ".d2s: truncated".toList
  | .notASave => ".d2s: not a 1.14d save".toList
  | .badMarker marker => ".d2s: no ".toList ++ marker ++ " section".toList

/-- One entry of `charinfo`: a character, or a note of why it is left out. -/
def readCharacter (account : Text) (saves : Charsave) (entry : DirEntry Bool) :
    Except Text PlannedCharacter :=
  let character := fileName entry
  let note (why : Text) : Text :=
    character ++ " (account ".toList ++ account ++ "): ".toList ++ why
  match saves.find? fun s => (fileName s).eqIgnoreAsciiCase character with
  | none => .error (note "no save in charsave".toList)
  | some save_path =>
    match save_path.content with
    | .error e => .error (note e)
    | .ok bytes =>
      match D2s.Save.parse bytes with
      | .error e =>
        .error (note ("not a Diablo II 1.10–1.14 save (".toList ++ saveErrorText e ++ ")".toList))
      | .ok save =>
        let byteAt (i : Nat) : UInt8 := (save.header.toList[i]?).getD 0
        if !save.name.eqIgnoreAsciiCase character then
          .error (note ("its save is named ".toList ++ save.name))
        else
          .ok {
            account
            name := save.name
            heroClass := save.heroClass
            status := save.status
            level := max save.level 1
            progression := byteAt 0x25
            lastPlayed := leValue [byteAt 0x30, byteAt 0x31, byteAt 0x32, byteAt 0x33]
            save := bytes }

/-- Every character with an entry and a readable save, and a note for each one left out. -/
def readCharacters (charinfo : Charinfo) (charsave : Charsave) :
    List PlannedCharacter × List Text :=
  let saves := files charsave
  let read := (files charinfo).flatMap fun account_dir =>
    match account_dir.content with
    | some entries =>
      ((files entries).filter DirEntry.content).map (readCharacter (fileName account_dir) saves)
    | none => []
  let noteOf (r : Except Text PlannedCharacter) : Option Text :=
    match r with
    | .ok _ => none
    | .error note => some note
  (read.filterMap Except.toOption, read.filterMap noteOf)

/-! ## Names -/

section Names

/-- The name of a save ends before a zero. -/
theorem zero_notMem_name (save : D2s.Save) : '\x00' ∉ save.name := by
  intro h
  obtain ⟨b, hb, hzero⟩ := List.mem_map.mp h
  have hne : b ≠ 0 := by simpa using List.mem_takeWhile_imp hb
  have hvalid : b.toNat.isValidChar := .inl (by have := b.toNat_lt; omega)
  have hval : (Char.ofNat b.toNat).val.toNat = b.toNat := by
    rw [Char.ofNat, dif_pos hvalid]
    rfl
  rw [hzero] at hval
  exact hne (UInt8.toNat_inj.mp hval.symm)

theorem name_of_readCharacter {account : Text} {saves : Charsave} {entry : DirEntry Bool}
    {c : PlannedCharacter} (h : readCharacter account saves entry = .ok c) :
    ∃ save, D2s.Save.parse c.save = .ok save ∧ c.name = save.name := by
  unfold readCharacter at h
  dsimp only at h
  split at h
  · cases h
  · split at h
    · cases h
    · split at h
      · cases h
      · rename_i save hparse
        split at h
        · cases h
        · cases h
          exact ⟨save, hparse, rfl⟩

theorem name_of_mem_readCharacters {charinfo : Charinfo} {charsave : Charsave}
    {c : PlannedCharacter} (h : c ∈ (readCharacters charinfo charsave).1) :
    ∃ save, D2s.Save.parse c.save = .ok save ∧ c.name = save.name := by
  obtain ⟨read, hread, hc⟩ := List.mem_filterMap.mp h
  obtain ⟨account_dir, -, hread⟩ := List.mem_flatMap.mp hread
  cases hcontent : account_dir.content with
  | none =>
    rw [hcontent] at hread
    cases hread
  | some entries =>
    rw [hcontent] at hread
    obtain ⟨entry, -, rfl⟩ := List.mem_map.mp hread
    cases hok : readCharacter (fileName account_dir) (files charsave) entry with
    | error note =>
      rw [hok] at hc
      cases hc
    | ok planned =>
      rw [hok] at hc
      cases hc
      exact name_of_readCharacter hok

end Names

end CommandCenter.Import
