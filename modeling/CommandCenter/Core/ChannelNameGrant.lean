import Mathlib.Data.Bool.AllAny
import CommandCenter.Core.Channel

/-!
# Who becomes operator by a channel's name

`op_grant_for_name` as it is written, with slices of bytes that can panic.

* `ChannelName.grant_bytes`: it never panics, and gives what `opGrantForName` gives.
* `ChannelName.opClan_granted_iff`: an `Op` or `Clan` name grants operator to the account it names
  or to nobody, unless the name is that word alone and private channels have their operator on
  first arrival: trimming has taken the space that `classify_name` looks for.
-/

namespace CommandCenter.Core

open Rust

/-- The name after one of the words, with the slices of the source; `none` is a panic. -/
def nameAfterBytes (word trimmed : Text) : Option (Option Text) :=
  if word.len < trimmed.len then
    (trimmed.splitAtByte word.len).map fun parts =>
      if parts.1.eqIgnoreAsciiCase word then
        if parts.2.trim.isEmpty then none else some parts.2.trim
      else none
  else some none

/-- `designated_op_name`. -/
def designatedOpNameBytes (display : Text) : Option (Option Text) := do
  match ← nameAfterBytes "op ".toList display.trim with
  | some name => return some name
  | none => nameAfterBytes "clan ".toList display.trim

/-- `op_grant_for_name`. -/
def opGrantForNameBytes (display : Text) (autoOpPrivate : Bool) : Option OpGrant :=
  match classifyName display with
  | .opOrClan => do
    match ← designatedOpNameBytes display with
    | some name => return .nameMatch name
    | none => return .none
  | .public => some .none
  | .private => some (if autoOpPrivate then .firstArrival else .none)

namespace ChannelName

/-- The name as `classify_name` looks at it. -/
def lowered (display : Text) : Text := display.trim.toAsciiLowercase

/-- The name is `op` or `clan`, or starts with one of them and a space. -/
def OpClan (display : Text) : Prop :=
  lowered display = "op".toList ∨ lowered display = "clan".toList ∨
    "op ".toList <+: lowered display ∨ "clan ".toList <+: lowered display

/-- What follows the word, trimmed and in its original case. -/
def remainder (display : Text) : Text :=
  if "op".toList <+: lowered display then Text.trim (display.trim.drop 3)
  else Text.trim (display.trim.drop 5)

/-- The account that an `Op` or `Clan` name grants operator to, if it names one. -/
def grantee (display : Text) : OpGrant :=
  if remainder display = [] then .none else .nameMatch (remainder display)

/-- The call does not panic, and an `Op` or `Clan` name grants operator to the account it names. -/
structure Granted (display : Text) (autoOpPrivate : Bool) : Prop where
  returns : (opGrantForNameBytes display autoOpPrivate).isSome
  named : OpClan display → opGrantForNameBytes display autoOpPrivate = some (grantee display)

/-! ## Slices at the end of a word -/

theorem len_of_lowered {head : Text} (h : ∀ c ∈ head.toAsciiLowercase, c.val.toNat < 128) :
    head.len = head.length := by
  refine Text.len_of_ascii fun c hc => ?_
  have hlow : c.toLower.val.toNat < 128 := h _ (List.mem_map_of_mem hc)
  rcases Text.toLower_cases c with hsame | ⟨-, hupper, -⟩
  · rwa [hsame] at hlow
  · omega

variable {word t : Text}

theorem splitAtByte_lowered (hword : word <+: t.toAsciiLowercase)
    (hascii : ∀ c ∈ word, c.val.toNat < 128) :
    t.splitAtByte word.length = some (t.take word.length, t.drop word.length) ∧
      Text.toAsciiLowercase (t.take word.length) = word := by
  have htake : Text.toAsciiLowercase (t.take word.length) = word := by
    rw [Text.toAsciiLowercase, List.map_take]
    exact (List.prefix_iff_eq_take.mp hword).symm
  have hlen : Text.len (t.take word.length) = word.length := by
    rw [len_of_lowered (htake.symm ▸ hascii)]
    calc (t.take word.length).length
        = (Text.toAsciiLowercase (t.take word.length)).length := (List.length_map _).symm
      _ = word.length := by rw [htake]
  refine ⟨?_, htake⟩
  have hsplit := Text.splitAtByte_append (t.take word.length) (t.drop word.length)
  rwa [List.take_append_drop, hlen] at hsplit

theorem trim_eq_nil_iff {s : Text} : s.trim = [] ↔ ∀ c ∈ s, Text.isWhitespace c = true := by
  rw [Text.trim, List.rdropWhile_eq_nil_iff, ← List.dropWhile_eq_nil_iff,
    List.dropWhile_idempotent, List.dropWhile_eq_nil_iff]

/-- A trimmed text does not end in a space. -/
theorem lowered_getLast {display : Text} {c : Char} (h : (lowered display).getLast? = some c) :
    Text.isWhitespace c = false := by
  have htrim : Text.trim (lowered display) = lowered display := by
    rw [lowered, Text.toAsciiLowercase, Text.trim_map Text.isWhitespace_toLower, Text.trim_trim]
  rw [← htrim, Text.trim] at h
  obtain ⟨hne, rfl⟩ := List.mem_getLast?_eq_getLast h
  exact Bool.eq_false_iff.mpr (List.rdropWhile_last_not _ _ hne)

/-- What follows a word that ends in a space is something, in a name that is trimmed. -/
theorem trim_drop_ne_nil {display : Text} (hword : word <+: lowered display)
    (hspace : word.getLast? = some ' ') : Text.trim (display.trim.drop word.length) ≠ [] := by
  intro hnil
  have hall := trim_eq_nil_iff.mp hnil
  obtain ⟨rest, hrest⟩ := hword
  have hdrop : rest = Text.toAsciiLowercase (display.trim.drop word.length) := by
    rw [Text.toAsciiLowercase, List.map_drop, ← Text.toAsciiLowercase, ← lowered, ← hrest,
      List.drop_left]
  have hlast : ∃ c, (lowered display).getLast? = some c ∧ Text.isWhitespace c = true := by
    rw [← hrest, List.getLast?_append]
    cases hr : rest.getLast? with
    | none => exact ⟨' ', by rw [hspace]; rfl, by decide⟩
    | some c =>
      have hc : c ∈ rest := List.mem_of_getLast? hr
      rw [hdrop, Text.toAsciiLowercase, List.mem_map] at hc
      obtain ⟨d, hd, rfl⟩ := hc
      exact ⟨_, rfl, (Text.isWhitespace_toLower d).trans (hall d hd)⟩
  obtain ⟨c, hc, hwhite⟩ := hlast
  rw [lowered_getLast hc] at hwhite
  cases hwhite

/-! ## The two readings of the name -/

theorem nameAfterBytes_word {display : Text} (hword : word <+: lowered display)
    (hascii : ∀ c ∈ word, c.val.toNat < 128) (hlower : word.toAsciiLowercase = word)
    (hspace : word.getLast? = some ' ') :
    nameAfterBytes word display.trim = some (some (Text.trim (display.trim.drop word.length))) ∧
      nameAfter word display.trim = some (Text.trim (display.trim.drop word.length)) := by
  have hne := trim_drop_ne_nil hword hspace
  obtain ⟨hsplit, htake⟩ := splitAtByte_lowered hword hascii
  have hlen : word.len = word.length := len_of_lowered (hlower.symm ▸ hascii)
  have heq : Text.eqIgnoreAsciiCase (display.trim.take word.length) word = true :=
    Text.eqIgnoreAsciiCase_iff.mpr (htake.trans hlower.symm)
  have hlong : word.length < display.trim.length := by
    by_contra hshort
    rw [List.drop_eq_nil_of_le (Nat.not_lt.mp hshort)] at hne
    exact hne rfl
  have hlongBytes : word.len < display.trim.len := by
    rw [hlen]
    exact hlong.trans_le (Text.length_le_len _)
  constructor
  · rw [nameAfterBytes, if_pos hlongBytes, hlen, hsplit]
    simp [heq, hne]
  · rw [nameAfter, if_pos ⟨hlong, heq⟩]
    simp [hne]

theorem nameAfterBytes_other (word : Text) {other display : Text}
    (hother : other <+: lowered display) (hascii : ∀ c ∈ other, c.val.toNat < 128)
    (hlen : word.len = other.length)
    (hlength : word.length = other.length) (hne : word.toAsciiLowercase ≠ other) :
    nameAfterBytes word display.trim = some none ∧ nameAfter word display.trim = none := by
  obtain ⟨hsplit, htake⟩ := splitAtByte_lowered hother hascii
  have heq : Text.eqIgnoreAsciiCase (display.trim.take other.length) word = false := by
    rw [Bool.eq_false_iff, ne_eq, Text.eqIgnoreAsciiCase_iff, htake]
    exact hne.symm
  constructor
  · rw [nameAfterBytes, hlen, hsplit]
    split <;> simp [heq]
  · rw [nameAfter, if_neg fun h => ?_]
    rw [hlength, heq] at h
    exact Bool.false_ne_true h.2

theorem classifyName_opOrClan {display : Text} : classifyName display = .opOrClan ↔
    "op ".toList <+: lowered display ∨ "clan ".toList <+: lowered display := by
  rw [← List.isPrefixOf_iff_prefix, ← List.isPrefixOf_iff_prefix, ← Bool.or_eq_true]
  unfold classifyName
  dsimp only
  change (if (_ || List.isPrefixOf _ (lowered display)) = true then _ else _) = _ ↔ _
  split
  · rename_i h
    exact iff_of_true rfl h
  · rename_i h
    refine iff_of_false ?_ h
    split <;> exact fun h => nomatch h

theorem designatedOpName_opClan {display : Text} (h : classifyName display = .opOrClan) :
    designatedOpNameBytes display = some (some (remainder display)) ∧
      designatedOpName display = some (remainder display) ∧ remainder display ≠ [] := by
  rcases classifyName_opOrClan.mp h with hop | hclan
  · obtain ⟨hbytes, hchars⟩ := nameAfterBytes_word hop
      (List.all_iff_forall_prop.mp (by decide)) (by decide) (by decide)
    have hrest : remainder display = Text.trim (display.trim.drop 3) :=
      if_pos ((by decide : "op".toList <+: "op ".toList).trans hop)
    refine ⟨?_, ?_, hrest ▸ trim_drop_ne_nil hop (by decide)⟩
    · rw [designatedOpNameBytes, hbytes, hrest]
      rfl
    · rw [designatedOpName, hchars, hrest]
      rfl
  · obtain ⟨hbytes, hchars⟩ := nameAfterBytes_word hclan
      (List.all_iff_forall_prop.mp (by decide)) (by decide) (by decide)
    obtain ⟨hbytes', hchars'⟩ := nameAfterBytes_other "op ".toList
      ((by decide : "cla".toList <+: "clan ".toList).trans hclan)
      (List.all_iff_forall_prop.mp (by decide)) (by decide) (by decide) (by decide)
    have hnot : ¬ "op".toList <+: lowered display := by
      intro hop
      have hcl : "cl".toList <+: lowered display :=
        (by decide : "cl".toList <+: "clan ".toList).trans hclan
      exact absurd (List.prefix_of_prefix_length_le hop hcl (by decide)) (by decide)
    have hrest : remainder display = Text.trim (display.trim.drop 5) := if_neg hnot
    refine ⟨?_, ?_, hrest ▸ trim_drop_ne_nil hclan (by decide)⟩
    · rw [designatedOpNameBytes, hbytes', hbytes, hrest]
      rfl
    · rw [designatedOpName, hchars', hchars, hrest]
      rfl

/-- The slices never panic, and the characters are a fair reading of them. -/
theorem grant_bytes (display : Text) (autoOpPrivate : Bool) :
    opGrantForNameBytes display autoOpPrivate = some (opGrantForName display autoOpPrivate) := by
  unfold opGrantForNameBytes opGrantForName
  cases h : classifyName display with
  | opOrClan =>
    obtain ⟨hbytes, hchars, -⟩ := designatedOpName_opClan h
    simp [hbytes, hchars]
  | «public» => rfl
  | «private» => rfl

theorem classifyName_bare {display : Text}
    (h : lowered display = "op".toList ∨ lowered display = "clan".toList) :
    classifyName display = .private := by
  unfold classifyName
  dsimp only
  change (if List.isPrefixOf _ (lowered display) || List.isPrefixOf _ (lowered display) then _
    else if List.isPrefixOf _ (lowered display) then _ else _) = _
  rcases h with h | h
  · rw [h]
    decide
  · rw [h]
    decide

theorem remainder_bare {display : Text}
    (h : lowered display = "op".toList ∨ lowered display = "clan".toList) :
    remainder display = [] := by
  have hlength : display.trim.length = (lowered display).length := (List.length_map _).symm
  rcases h with h | h <;> rw [h] at hlength
  · rw [remainder, h, if_pos (by decide), List.drop_eq_nil_of_le (hlength.trans_le (by decide))]
    rfl
  · rw [remainder, h, if_neg (by decide), List.drop_eq_nil_of_le (hlength.trans_le (by decide))]
    rfl

/-- **An `Op` or `Clan` name never grants operator to the first arrival**, and the call never
panics, unless the name is the word alone where private channels grant it so. -/
theorem opClan_granted_iff (display : Text) (autoOpPrivate : Bool) :
    Granted display autoOpPrivate ↔
      ¬ (autoOpPrivate = true ∧
        (lowered display = "op".toList ∨ lowered display = "clan".toList)) := by
  have hreturns : (opGrantForNameBytes display autoOpPrivate).isSome := by
    rw [grant_bytes]
    rfl
  by_cases hbare : lowered display = "op".toList ∨ lowered display = "clan".toList
  · have hopClan : OpClan display := hbare.elim .inl fun h => .inr (.inl h)
    have hgrant : opGrantForNameBytes display autoOpPrivate =
        some (if autoOpPrivate then .firstArrival else .none) := by
      rw [grant_bytes, opGrantForName, classifyName_bare hbare]
    have hgrantee : grantee display = .none := if_pos (remainder_bare hbare)
    rw [and_iff_left hbare]
    constructor
    · rintro h rfl
      have hnamed := h.named hopClan
      rw [hgrant, hgrantee] at hnamed
      cases hnamed
    · intro hauto
      refine ⟨hreturns, fun _ => ?_⟩
      rw [hgrant, hgrantee, if_neg hauto]
  · refine iff_of_true ⟨hreturns, fun hopClan => ?_⟩ fun h => hbare h.2
    have hclass : classifyName display = .opOrClan := by
      rcases hopClan with h | h | h | h
      · exact absurd (.inl h) hbare
      · exact absurd (.inr h) hbare
      · exact classifyName_opOrClan.mpr (.inl h)
      · exact classifyName_opOrClan.mpr (.inr h)
    obtain ⟨-, hname, hnamed⟩ := designatedOpName_opClan hclass
    rw [grant_bytes, opGrantForName, hclass, grantee, if_neg hnamed, hname]

/-- "Op " in a realm whose private channels have their operator on first arrival. -/
theorem bare_op_granted : ¬ ∀ display autoOpPrivate, Granted display autoOpPrivate := by
  intro h
  exact absurd ((h ['O', 'p', ' '] true).named (.inl (by decide))) (by decide)

end ChannelName

end CommandCenter.Core
