import CommandCenter.Storage.Model
import Mathlib.Data.Nat.Digits.Defs

/-!
# The names an account may have

What `validate_account_name` lets through, and what it means for the bridge separator. The name is
split at its last `@` and only the part before it is checked for the separator.

* `validateAccountName_ok_iff`: the accepted names, part by part.
* `isPrintable_of_accountName`: their characters.
* `accountName_not_reserved_iff`: the accepted names that are outside the reserved namespace.
* `isBridgedName_accountName`: none of them is a bridged name.
-/

namespace CommandCenter.Storage

open Rust CommandCenter.Core

/-- ASCII that is neither a space nor a control character. -/
def IsPrintable (c : Char) : Prop := 0x20 < c.val.toNat ∧ c.val.toNat < 0x7F

theorem isWhitespace_of_isPrintable {c : Char} (h : IsPrintable c) : Text.isWhitespace c = false :=
  Text.isWhitespace_printable h.1 (by have := h.2; omega)

theorem isPrintable_iff_checks {name : Text} :
    (∀ c ∈ name, IsPrintable c) ↔ name.isAscii = true ∧ name.any isSpaceOrControl = false := by
  have hchar (c : Char) : IsPrintable c ↔ c.val < 128 ∧ isSpaceOrControl c = false := by
    unfold isSpaceOrControl IsPrintable
    rw [Bool.or_eq_false_iff, decide_eq_false_iff_not, beq_eq_false_iff_ne, Ne,
      ← UInt32.toNat_inj, UInt32.le_iff_toNat_le, UInt32.lt_iff_toNat_lt]
    show _ ↔ _ < 128 ∧ ¬ _ ≤ 32 ∧ ¬ _ = 127
    omega
  rw [Text.isAscii, List.all_eq_true, List.any_eq_false]
  constructor
  · intro h
    refine ⟨fun c hc => decide_eq_true ((hchar c).mp (h c hc)).1, fun c hc => ?_⟩
    rw [((hchar c).mp (h c hc)).2]
    exact Bool.false_ne_true
  · rintro ⟨hascii, hspace⟩ c hc
    exact (hchar c).mpr
      ⟨of_decide_eq_true (hascii c hc), Bool.eq_false_of_not_eq_true (hspace c hc)⟩

/-! ## The two parts -/

theorem check_ok_iff {refused : Prop} [Decidable refused] {error : StorageError}
    {rest : Result Unit} :
    (if refused then .error error else rest) = .ok () ↔ ¬ refused ∧ rest = .ok () := by
  split
  · rename_i hrefused
    exact iff_of_false nofun fun h => h.1 hrefused
  · rename_i hpassed
    exact ⟨fun h => ⟨hpassed, h⟩, fun h => h.2⟩

theorem validateRealm_ok_iff {realm : Text} :
    validateRealm realm = .ok () ↔
      realm ≠ [] ∧ realm.len ≤ maxName ∧ ∀ c ∈ realm, IsPrintable c := by
  rw [validateRealm, check_ok_iff, check_ok_iff, isPrintable_iff_checks]
  simp only [not_or, Nat.not_lt, List.isEmpty_iff, Bool.not_eq_true', Bool.not_eq_false,
    Bool.not_eq_true, and_true, and_assoc, ne_eq]

theorem validateBareName_ok_iff {name : Text} :
    validateBareName name = .ok () ↔
      minName ≤ name.len ∧ name.len ≤ maxName ∧ (∀ c ∈ name, IsPrintable c) ∧
        (∃ c ∈ name, c.isAlphanum = true) ∧ Bridge.separator ∉ name := by
  simp only [validateBareName, check_ok_iff, isPrintable_iff_checks, Nat.not_lt,
    Bool.not_eq_true', Bool.not_eq_false, Bool.not_eq_true, List.countP_eq_zero, not_forall,
    exists_prop, nameIsReservedForBridges, List.contains_iff_mem, and_true, and_assoc]

/-! ## The whole name -/

theorem splitRealm_eq_some {name base realm : Text} (h : splitRealm name = (base, some realm)) :
    name = base ++ '@' :: realm ∧ '@' ∉ realm := by
  unfold splitRealm at h
  split at h
  · rename_i base' realm' hsplit
    obtain ⟨rfl, hrealm⟩ := Prod.mk.inj h
    obtain rfl := Option.some.inj hrealm
    exact Text.rsplitOnce_spec hsplit
  · cases h

theorem splitRealm_eq_none {name base : Text} (h : splitRealm name = (base, none)) :
    name = base ∧ '@' ∉ name := by
  unfold splitRealm at h
  split at h
  · cases h
  · rename_i hsplit
    exact ⟨(Prod.mk.inj h).1, Text.rsplitOnce_eq_none_iff.mp hsplit⟩

/-- An accepted name is a bare name, with or without a realm behind it. -/
theorem validateAccountName_ok_iff {name : Text} :
    validateAccountName name = .ok () ↔
      validateBareName (splitRealm name).1 = .ok () ∧
        ∀ realm, (splitRealm name).2 = some realm → validateRealm realm = .ok () := by
  unfold validateAccountName
  obtain ⟨base, realm⟩ := splitRealm name
  cases realm with
  | none => simp
  | some realm =>
    cases hrealm : validateRealm realm with
    | error e =>
      refine iff_of_false (fun h => ?_) fun h => ?_
      · simp only [hrealm, bind, Except.bind, reduceCtorEq] at h
      · rw [h.2 realm rfl] at hrealm
        cases hrealm
    | ok => simp [hrealm, bind, Except.bind]

theorem isPrintable_of_accountName {name : Text} (h : validateAccountName name = .ok ()) {c : Char}
    (hc : c ∈ name) : IsPrintable c := by
  obtain ⟨hbase, hrealm⟩ := validateAccountName_ok_iff.mp h
  obtain ⟨base, realm, hparts⟩ : ∃ base realm, splitRealm name = (base, realm) := ⟨_, _, rfl⟩
  rw [hparts] at hbase hrealm
  obtain ⟨_, _, hbase, _⟩ := validateBareName_ok_iff.mp hbase
  cases realm with
  | none =>
    rw [(splitRealm_eq_none hparts).1] at hc
    exact hbase c hc
  | some realm =>
    obtain ⟨_, _, hrealm⟩ := validateRealm_ok_iff.mp (hrealm realm rfl)
    rw [(splitRealm_eq_some hparts).1, List.mem_append, List.mem_cons] at hc
    rcases hc with hc | rfl | hc
    · exact hbase c hc
    · exact ⟨by decide, by decide⟩
    · exact hrealm c hc

/-! ## The bridge separator -/

/-- **An accepted name is outside the reserved namespace** if its realm does not have the separator
in it, and only then. -/
theorem accountName_not_reserved_iff (name : Text) (h : validateAccountName name = .ok ()) :
    nameIsReservedForBridges name = false ↔
      ∀ realm, (splitRealm name).2 = some realm → Bridge.separator ∉ realm := by
  obtain ⟨hbase, _⟩ := validateAccountName_ok_iff.mp h
  obtain ⟨base, realm, hparts⟩ : ∃ base realm, splitRealm name = (base, realm) := ⟨_, _, rfl⟩
  rw [hparts] at hbase
  obtain ⟨_, _, _, _, hbase⟩ := validateBareName_ok_iff.mp hbase
  rw [nameIsReservedForBridges, ← Bool.not_eq_true, List.contains_iff_mem, hparts]
  cases realm with
  | none =>
    rw [(splitRealm_eq_none hparts).1]
    exact iff_of_true hbase nofun
  | some realm =>
    have hother : Bridge.separator ≠ '@' := by decide
    rw [(splitRealm_eq_some hparts).1, List.mem_append, List.mem_cons]
    constructor
    · rintro houtside _ ⟨⟩ hmem
      exact houtside (Or.inr (Or.inr hmem))
    · rintro hrealm (hmem | hat | hmem)
      · exact hbase hmem
      · exact hother hat
      · exact hrealm realm rfl hmem

theorem accountName_not_reserved_tagban :
    nameIsReservedForBridges "Tagban@bncc".toList = false :=
  (accountName_not_reserved_iff "Tagban@bncc".toList (by decide)).mpr fun realm hrealm => by
    obtain rfl := Option.some.inj hrealm
    decide

/-- The separator may stand in the realm. -/
theorem accountName_reserved :
    ¬ ∀ name, validateAccountName name = .ok () → nameIsReservedForBridges name = false := by
  intro h
  exact absurd (h "ab@x:y".toList (by decide)) (by decide)

/-- The tag of a bridged name has no `@` in it, so the accepted names are not bridged ones. -/
theorem isBridgedName_accountName {name : Text} (h : validateAccountName name = .ok ()) :
    isBridgedName name = none := by
  obtain ⟨hbase, _⟩ := validateAccountName_ok_iff.mp h
  obtain ⟨base, realm, hparts⟩ : ∃ base realm, splitRealm name = (base, realm) := ⟨_, _, rfl⟩
  rw [hparts] at hbase
  obtain ⟨_, _, _, _, hbase⟩ := validateBareName_ok_iff.mp hbase
  unfold isBridgedName
  split
  · rfl
  · rename_i tag rest hsplit
    obtain ⟨hname, htag⟩ := Text.splitOnce_spec hsplit
    split
    · rfl
    · cases realm with
      | none =>
        -- the separator is in the bare name
        rw [(splitRealm_eq_none hparts).1] at hname
        exact absurd (hname ▸ List.mem_append_right tag List.mem_cons_self) hbase
      | some realm =>
        -- it is behind the `@`, which is then in the tag
        rw [(splitRealm_eq_some hparts).1] at hname
        have hat : '@' ∈ tag := by
          rcases List.append_eq_append_iff.mp hname with
            ⟨between, htag, hrest⟩ | ⟨between, hb, hrest⟩
          · cases between with
            | nil => exact absurd (List.cons.inj hrest).1 (by decide)
            | cons c between =>
              rw [htag, (List.cons.inj hrest).1]
              exact List.mem_append_right base List.mem_cons_self
          · cases between with
            | nil => exact absurd (List.cons.inj hrest).1 (by decide)
            | cons c between =>
              rw [hb, ← (List.cons.inj hrest).1] at hbase
              exact absurd (List.mem_append_right tag List.mem_cons_self) hbase
        exact BridgeTag.new_toOption_eq_none hat (by decide)

/-!
## The names a bridge gives

`derive_name` of `crates/bnetcc-core/src/bridge.rs` against the two that read names: the recogniser
of bridged names and the check of account names.

* `len_deriveName`: it fits the protocol, whatever the tag, the display name and the suffix.
* `derived_never_account`: it is recognised under its tag, and no account can have it.
-/

variable {tag : BridgeTag} {display : Text}

theorem isPrintable_of_isAlphanum {c : Char} (h : c.isAlphanum = true) : IsPrintable c := by
  unfold IsPrintable
  rcases Bool.or_eq_true_iff.mp h with halpha | hdigit
  · have hrange := Text.isAlpha_iff.mp halpha
    omega
  · simp only [Char.isDigit, Bool.and_eq_true, decide_eq_true_eq, UInt32.le_iff_toNat_le,
      ge_iff_le] at hdigit
    change 48 ≤ c.val.toNat ∧ c.val.toNat ≤ 57 at hdigit
    omega

theorem isPrintable_deriveName {suffix : Option UInt32} {c : Char}
    (h : c ∈ deriveName tag display (suffix.map UInt32.toNat)) : IsPrintable c := by
  rcases mem_deriveName h with halnum | hsign | ⟨-, rfl⟩
  · exact isPrintable_of_isAlphanum halnum
  · simp only [List.mem_cons, List.not_mem_nil, or_false] at hsign
    rcases hsign with rfl | rfl | rfl | rfl | rfl <;> exact ⟨by decide, by decide⟩
  · exact ⟨by decide, by decide⟩

/-! ## Lengths -/

theorem len_of_isPrintable {s : Text} (h : ∀ c ∈ s, IsPrintable c) : s.len = s.length :=
  Text.len_of_ascii fun c hc => Nat.lt_succ_of_lt (h c hc).2

/-- A number sign and ten digits at most. -/
theorem len_suffixStr (suffix : Option UInt32) :
    (suffixStr (suffix.map UInt32.toNat)).len ≤ 11 := by
  cases suffix with
  | none => decide
  | some n =>
    have hdigits : (Nat.toDigits 10 n.toNat).length ≤ 10 :=
      Nat.toDigits_length 10 n.toNat 10 (by decide) (n.toNat_lt.trans (by decide))
    have hprintable : ∀ c ∈ suffixStr (some n.toNat), IsPrintable c := by
      intro c hc
      rcases List.mem_cons.mp hc with rfl | hdigit
      · exact ⟨by decide, by decide⟩
      · refine isPrintable_of_isAlphanum ?_
        rw [Char.isAlphanum, isDigit_of_mem_digits hdigit, Bool.or_true]
    rw [Option.map_some, len_of_isPrintable hprintable, suffixStr, List.length_cons]
    omega

/-- The budget leaves room for the tag and the suffix: together they are never too long. -/
theorem len_deriveName (tag : BridgeTag) (display : Text) (suffix : Option UInt32) :
    (deriveName tag display (suffix.map UInt32.toNat)).len ≤ Bridge.maxName := by
  have hstem : (stemOf tag display (suffix.map UInt32.toNat)).len ≤
      Bridge.maxName - tag.prefixLen - (suffixStr (suffix.map UInt32.toNat)).len := by
    have hprintable : ∀ c ∈ stemOf tag display (suffix.map UInt32.toNat), IsPrintable c := by
      intro c hc
      have hname : c ∈ deriveName tag display (suffix.map UInt32.toNat) := by
        rw [deriveName_eq]
        exact List.mem_append_right _ (List.mem_cons_of_mem _ (List.mem_append_left _ hc))
      exact isPrintable_deriveName hname
    rw [len_of_isPrintable hprintable]
    exact List.length_take_le _ _
  have htag := tag.short
  have hsuffix := len_suffixStr suffix
  have hseparator : Text.len [Bridge.separator] = 1 := by decide
  rw [deriveName_eq, ← List.singleton_append, Text.len_append, Text.len_append, Text.len_append,
    hseparator]
  simp only [Bridge.maxName, Bridge.maxTag, BridgeTag.prefixLen] at *
  omega

/-! ## The recogniser and the validator -/

/-- There is something behind the separator: the stem, unless the suffix takes all its room. -/
theorem deriveName_rest_ne_nil (tag : BridgeTag) (display : Text) (suffix : Option Nat) :
    stemOf tag display suffix ++ suffixStr suffix ≠ [] := by
  cases suffix with
  | some n => exact List.append_ne_nil_of_right_ne_nil _ (List.cons_ne_nil _ _)
  | none =>
    have htag := tag.short
    intro hnil
    have hstem : stemOf tag display none = [] := (List.append_eq_nil_iff.mp hnil).1
    rw [stemOf, List.take_eq_nil_iff] at hstem
    rcases hstem with hbudget | hempty
    · simp only [Bridge.maxName, Bridge.maxTag, BridgeTag.prefixLen, suffixStr] at *
      have : Text.len [] = 0 := rfl
      omega
    · exact sanitizeRemoteName_ne_nil display hempty

theorem new_raw (tag : BridgeTag) : BridgeTag.new tag.raw = .ok tag := by
  have hlen : ¬ (tag.raw = [] ∨ Bridge.maxTag < tag.raw.len) :=
    not_or.mpr ⟨tag.nonempty, Nat.not_lt.mpr tag.short⟩
  rw [BridgeTag.new, dif_neg hlen, dif_pos tag.alphanumeric]

theorem isBridgedName_deriveName (tag : BridgeTag) (display : Text) (suffix : Option UInt32) :
    isBridgedName (deriveName tag display (suffix.map UInt32.toNat)) = some tag := by
  have hseparator : Bridge.separator ∉ tag.raw := fun hmem =>
    absurd (List.all_eq_true.mp tag.alphanumeric _ hmem) (by decide)
  have hrest := deriveName_rest_ne_nil tag display (suffix.map UInt32.toNat)
  rw [deriveName_eq, isBridgedName, Text.splitOnce_append hseparator]
  change (if _ then none else (BridgeTag.new tag.raw).toOption) = some tag
  rw [if_neg (mt List.isEmpty_iff.mp hrest), new_raw]
  rfl

/-- **A derived name is never an account's**: it fits the protocol, is printable ASCII, is
recognised as its bridge's, and cannot be registered. -/
theorem derived_never_account (tag : BridgeTag) (display : Text) (suffix : Option UInt32) :
    (deriveName tag display (suffix.map UInt32.toNat)).len ≤ Bridge.maxName ∧
      (∀ c ∈ deriveName tag display (suffix.map UInt32.toNat), IsPrintable c) ∧
      isBridgedName (deriveName tag display (suffix.map UInt32.toNat)) = some tag ∧
      validateAccountName (deriveName tag display (suffix.map UInt32.toNat)) ≠ .ok () := by
  refine ⟨len_deriveName tag display suffix, fun c hc => isPrintable_deriveName hc,
    isBridgedName_deriveName tag display suffix, fun hok => ?_⟩
  have hnone := isBridgedName_accountName hok
  rw [isBridgedName_deriveName] at hnone
  cases hnone

end CommandCenter.Storage
