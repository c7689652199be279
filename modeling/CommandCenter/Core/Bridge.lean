import CommandCenter.Core.Channel
import CommandCenter.Rust.Map
import CommandCenter.Rust.Num

/-!
# Bridged identities

`crates/bnetcc-core/src/bridge.rs`: the name a bridge gives a remote user, and the registry of
the identities it presents. A tag carries the checks of its constructor.

`BridgeRegistry.Event` is a call that changes a registry.
-/

namespace CommandCenter.Core

open Rust

namespace Bridge

/-- Separates a bridge tag from the remote name. -/
def separator : Char := ':'

/-- Longest a Battle.net name may be, including the tag and separator. -/
def maxName : Nat := 15

/-- Longest a bridge tag may be. -/
def maxTag : Nat := 3

/-- Used when a remote display name has nothing usable left after sanitising. -/
def fallbackStem : Text := "user".toList

end Bridge

/-- Why a bridge value was rejected. -/
inductive BridgeError where
  | tagLength (len : Nat)
  | tagCharacters
  | emptyRemoteId
  deriving DecidableEq

structure BridgeTag where
  raw : Text
  nonempty : raw ≠ []
  short : raw.len ≤ Bridge.maxTag
  alphanumeric : raw.all Char.isAlphanum = true

namespace BridgeTag

def new (raw : Text) : Except BridgeError BridgeTag :=
  if hlen : raw = [] ∨ Bridge.maxTag < raw.len then .error (.tagLength raw.len)
  else if halnum : raw.all Char.isAlphanum = true then
    .ok ⟨raw, fun h => hlen (.inl h), Nat.not_lt.mp fun h => hlen (.inr h), halnum⟩
  else .error .tagCharacters

/-- A character that is neither a letter nor a digit keeps a text from being a tag. -/
theorem new_toOption_eq_none {raw : Text} {c : Char} (hc : c ∈ raw) (h : c.isAlphanum = false) :
    (new raw).toOption = none := by
  unfold new
  split
  · rfl
  · rw [dif_neg fun hall => ?_]
    · rfl
    · rw [List.all_eq_true.mp hall c hc] at h
      cases h

/-- Characters this tag consumes in a name, including the separator. -/
def prefixLen (tag : BridgeTag) : Nat := tag.raw.len + 1

end BridgeTag

/-- Whether a name belongs to the bridge namespace, and to which tag. -/
def isBridgedName (name : Text) : Option BridgeTag :=
  match name.splitOnce Bridge.separator with
  | none => none
  | some (tag, rest) => if rest.isEmpty then none else (BridgeTag.new tag).toOption

/-- Whether a registrable account name would land in the bridge namespace. -/
def nameIsReservedForBridges (name : Text) : Bool := name.contains Bridge.separator

/-- Reduce a remote display name to something a Battle.net client can carry. -/
def sanitizeRemoteName (display : Text) : Text :=
  let cleaned := display.filter fun c => c.isAlphanum || c ∈ ['-', '_', '[', ']']
  if cleaned.isEmpty then Bridge.fallbackStem else cleaned

/-- Build a candidate Battle.net name for a remote user. -/
def deriveName (tag : BridgeTag) (display : Text) (suffix : Option Nat) : Text :=
  let stem := sanitizeRemoteName display
  let suffixStr : Text :=
    match suffix with
    | none => []
    | some n => '#' :: Nat.toDigits 10 n
  let budget := Bridge.maxName - tag.prefixLen - suffixStr.len
  let truncated := stem.take budget
  if truncated.isEmpty then tag.raw ++ Bridge.separator :: suffixStr
  else tag.raw ++ Bridge.separator :: (truncated ++ suffixStr)

structure BridgedUser where
  account : AccountId
  remoteId : Text
  name : Text
  deriving DecidableEq

inductive Upsert where
  | added (user : BridgedUser)
  | renamed (user : BridgedUser) (previous : Text)
  | unchanged (user : BridgedUser)
  deriving DecidableEq

/-- The identities one bridge is presenting. -/
structure BridgeRegistry where
  tag : BridgeTag
  byRemote : Map Text BridgedUser
  /-- Lowercased name to remote id. -/
  byName : Map Text Text

namespace BridgeRegistry

def new (tag : BridgeTag) : BridgeRegistry := ⟨tag, ∅, ∅⟩

/-- Look up by the remote platform's id. -/
def byRemoteId (r : BridgeRegistry) (remoteId : Text) : Option BridgedUser :=
  r.byRemote.lookup remoteId

/-- Look up by Battle.net name, case-insensitively. -/
def findByName (r : BridgeRegistry) (name : Text) : Option BridgedUser :=
  match r.byName.lookup name.toAsciiLowercase with
  | some remote => r.byRemote.lookup remote
  | none => none

/-- A name that nobody but `remoteId` holds. -/
def isFree (r : BridgeRegistry) (remoteId candidate : Text) : Bool :=
  match r.byName.lookup candidate.toAsciiLowercase with
  | none => true
  | some holder => holder == remoteId

/-- Find a free name for `display`, ignoring any name currently held by `remoteId`. -/
def allocateName (r : BridgeRegistry) (display remoteId : Text) : Text :=
  let first := deriveName r.tag display none
  if r.isFree remoteId first then first
  else
    match ((List.range' 2 98).map fun n => deriveName r.tag display (some n)).find?
        (r.isFree remoteId) with
    | some candidate => candidate
    -- Ninety-eight collisions on one stem.
    | none => deriveName r.tag remoteId none

/-- Announce or update a remote identity. -/
def upsert (r : BridgeRegistry) (remoteId display : Text) (account : AccountId) :
    Except BridgeError Upsert × BridgeRegistry :=
  if remoteId = [] then (.error .emptyRemoteId, r)
  else
    let name := r.allocateName display remoteId
    match r.byRemote.lookup remoteId with
    | some prev =>
      if prev.name = name then (.ok (.unchanged prev), r)
      else
        let user : BridgedUser := ⟨prev.account, remoteId, name⟩
        (.ok (.renamed user prev.name),
          { r with
            byName := (r.byName.erase prev.name.toAsciiLowercase).insert name.toAsciiLowercase
              remoteId
            byRemote := r.byRemote.insert remoteId user })
    | none =>
      let user : BridgedUser := ⟨account, remoteId, name⟩
      (.ok (.added user),
        { r with
          byName := r.byName.insert name.toAsciiLowercase remoteId
          byRemote := r.byRemote.insert remoteId user })

/-- Remove an identity, returning it if it was present. -/
def remove (r : BridgeRegistry) (remoteId : Text) : Option BridgedUser × BridgeRegistry :=
  match r.byRemote.lookup remoteId with
  | some user =>
    (some user,
      { r with
        byRemote := r.byRemote.erase remoteId
        byName := r.byName.erase user.name.toAsciiLowercase })
  | none => (none, r)

inductive Event where
  | upsert (remoteId display : Text) (account : AccountId)
  | remove (remoteId : Text)

/-- The registry after a call. -/
def step (r : BridgeRegistry) : Event → BridgeRegistry
  | .upsert remoteId display account => (r.upsert remoteId display account).2
  | .remove remoteId => (r.remove remoteId).2

end BridgeRegistry

/-!
## Derived names

The parts of a name that `derive_name` of `crates/bnetcc-core/src/bridge.rs` builds.

* `deriveName_eq`: tag, separator, stem and suffix, also where the suffix takes all the room.
* `mem_deriveName`: their characters.
-/

variable {tag : BridgeTag} {display : Text}

def suffixStr (suffix : Option Nat) : Text :=
  match suffix with
  | none => []
  | some n => '#' :: Nat.toDigits 10 n

/-- What a derived name has between the separator and the suffix. -/
def stemOf (tag : BridgeTag) (display : Text) (suffix : Option Nat) : Text :=
  (sanitizeRemoteName display).take (Bridge.maxName - tag.prefixLen - (suffixStr suffix).len)

theorem deriveName_eq (tag : BridgeTag) (display : Text) (suffix : Option Nat) :
    deriveName tag display suffix =
      tag.raw ++ Bridge.separator :: (stemOf tag display suffix ++ suffixStr suffix) := by
  change (if (stemOf tag display suffix).isEmpty then
      tag.raw ++ Bridge.separator :: suffixStr suffix
    else tag.raw ++ Bridge.separator :: (stemOf tag display suffix ++ suffixStr suffix)) = _
  split
  · rename_i hempty
    rw [List.isEmpty_iff.mp hempty, List.nil_append]
  · rfl

/-- A letter, a digit, or one of the signs that a remote name keeps. -/
def IsStem (c : Char) : Prop := c.isAlphanum = true ∨ c ∈ ['-', '_', '[', ']']

theorem isStem_of_mem {c : Char} (h : c ∈ sanitizeRemoteName display) : IsStem c := by
  unfold sanitizeRemoteName at h
  dsimp only at h
  split at h
  · left
    have hall : "user".toList.all Char.isAlphanum = true := by decide
    exact List.all_eq_true.mp hall c h
  · simpa [IsStem] using (List.mem_filter.mp h).2

theorem sanitizeRemoteName_ne_nil (display : Text) : sanitizeRemoteName display ≠ [] := by
  unfold sanitizeRemoteName
  dsimp only
  split
  · decide
  · rename_i h
    simpa using h

/-- A derived name is made of the characters of its tag, the separator, what remote names keep, and
a number sign with digits if it has a suffix. -/
theorem mem_deriveName {suffix : Option Nat} {c : Char} (h : c ∈ deriveName tag display suffix) :
    c.isAlphanum = true ∨ c ∈ ['-', '_', '[', ']', ':'] ∨ suffix.isSome ∧ c = '#' := by
  rw [deriveName_eq, List.mem_append, List.mem_cons, List.mem_append] at h
  rcases h with htag | rfl | hstem | hsuffix
  · exact .inl (List.all_eq_true.mp tag.alphanumeric c htag)
  · exact .inr (.inl (by decide))
  · rcases isStem_of_mem (List.mem_of_mem_take hstem) with halnum | hsign
    · exact .inl halnum
    · right
      left
      simp only [List.mem_cons, List.not_mem_nil, or_false] at hsign ⊢
      tauto
  · cases suffix with
    | none => cases hsuffix
    | some n =>
      rcases List.mem_cons.mp hsuffix with rfl | hdigit
      · exact .inr (.inr ⟨rfl, rfl⟩)
      · left
        rw [Char.isAlphanum, isDigit_of_mem_digits hdigit, Bool.or_true]

theorem hash_mem_deriveName_iff {suffix : Option Nat} :
    '#' ∈ deriveName tag display suffix ↔ suffix.isSome := by
  constructor
  · intro h
    rcases mem_deriveName h with halnum | hsign | hsuffix
    · exact absurd halnum (by decide)
    · exact absurd hsign (by decide)
    · exact hsuffix.1
  · intro h
    obtain ⟨n, rfl⟩ := Option.isSome_iff_exists.mp h
    rw [deriveName_eq]
    exact List.mem_append_right _ (List.mem_cons_of_mem _
      (List.mem_append_right _ List.mem_cons_self))

end CommandCenter.Core
