import CommandCenter.Import.Plan
import CommandCenter.Storage.AccountNames

/-!
# What a plan makes of every account

The body of the loop only adds to the plan, so each account has its own share of it
(`planLoop_concat`), and a share depends on the accounts before it by their names alone. What is
carried over, what is reported and under which names are then facts about one share.

* `lookup_common`, `lookup_warcraft`: of the attributes that spell one key, the last is kept.
* `accounts_playerShare`: the share of an account whose name is taken.
* `nodup_names`: the names of a plan, as long as no X-SHA-1 account is named with a realm.
* `accountsForAll_iff`: when every account is accounted for.
-/

namespace CommandCenter.Import

open Rust Storage

/-! ## Attributes -/

/-- The last of the values that are written to a key. -/
def lastValue (attrs : List (Text × Text)) (key : AttrKey) : Option Text :=
  (attrs.filterMap fun a => if AttrKey.new a.1 = key then some a.2 else none).getLast?

/-- The attributes that go with any logon. -/
def PvpgnAccount.commonAttrs (account : PvpgnAccount) : List (Text × Text) :=
  account.attrs.filter fun a =>
    a.2 ≠ [] ∧ (isProfile a.1 ∨ isRecord a.1 ∧ warcraftRecord a.1 = false)

/-- The records of WarCraft III. -/
def PvpgnAccount.warcraftAttrs (account : PvpgnAccount) : List (Text × Text) :=
  account.attrs.filter fun a =>
    a.2 ≠ [] ∧ isProfile a.1 = false ∧ isRecord a.1 ∧ warcraftRecord a.1

theorem lastValue_append (first second : List (Text × Text)) (key : AttrKey) :
    lastValue (first ++ second) key = (lastValue second key).or (lastValue first key) := by
  unfold lastValue
  rw [List.filterMap_append, List.getLast?_append]

def writeAttrs (attrs : List (Text × Text)) (m : AttrMap) : AttrMap :=
  attrs.foldl (fun m a => m.insert (AttrKey.new a.1) a.2) m

theorem lookup_writeAttrs (attrs : List (Text × Text)) (m : AttrMap) (key : AttrKey) :
    (writeAttrs attrs m).lookup key = (lastValue attrs key).or (m.lookup key) := by
  induction attrs generalizing m with
  | nil => rfl
  | cons a attrs ih =>
    have hcons : lastValue (a :: attrs) key = (lastValue attrs key).or (lastValue [a] key) :=
      lastValue_append [a] attrs key
    rw [hcons, Option.or_assoc]
    refine (ih (m.insert (AttrKey.new a.1) a.2)).trans (congrArg _ ?_)
    by_cases hkey : AttrKey.new a.1 = key
    · simp [lastValue, hkey]
    · simp [lastValue, hkey, Finmap.lookup_insert_of_ne m (Ne.symm hkey)]

/-- The two maps are filled independently. -/
theorem foldl_sortAttr (attrs : List (Text × Text)) (common warcraft : AttrMap) :
    attrs.foldl sortAttr (common, warcraft) =
      (writeAttrs (attrs.filter fun a =>
          a.2 ≠ [] ∧ (isProfile a.1 ∨ isRecord a.1 ∧ warcraftRecord a.1 = false)) common,
        writeAttrs (attrs.filter fun a =>
          a.2 ≠ [] ∧ isProfile a.1 = false ∧ isRecord a.1 ∧ warcraftRecord a.1) warcraft) := by
  induction attrs generalizing common warcraft with
  | nil => rfl
  | cons a attrs ih =>
    rw [List.foldl_cons, sortAttr]
    by_cases hvalue : a.2 = []
    · simp [hvalue, ih]
    · cases hprofile : isProfile a.1
      · cases hrecord : isRecord a.1
        · simp [hvalue, hprofile, hrecord, ih]
        · cases hwarcraft : warcraftRecord a.1
          · simp [hvalue, hprofile, hrecord, hwarcraft, ih, writeAttrs]
          · simp [hvalue, hprofile, hrecord, hwarcraft, ih, writeAttrs]
      · simp [hvalue, hprofile, ih, writeAttrs]

/-- A character that is no space stays in front. -/
theorem head?_normalise {c : Char} (rest : Text) (hc : Text.isWhitespace c = false) :
    (normalise (c :: rest)).head? = some (normaliseChar c) := by
  have htrim : Text.trim (c :: rest) = (c :: rest).rdropWhile Text.isWhitespace := by
    rw [Text.trim, List.dropWhile_cons_of_neg (by rw [hc]; exact Bool.false_ne_true)]
  obtain ⟨cut, hcut⟩ := List.rdropWhile_prefix Text.isWhitespace (l := c :: rest)
  rw [normalise, htrim, List.head?_map]
  cases hkept : (c :: rest).rdropWhile Text.isWhitespace with
  | nil =>
    have hspace := List.rdropWhile_eq_nil_iff.mp hkept c List.mem_cons_self
    rw [hc] at hspace
    cases hspace
  | cons first kept =>
    rw [hkept] at hcut
    obtain ⟨rfl, _⟩ := List.cons.inj hcut
    rfl

/-- The key of a profile or a record begins with its letter. -/
theorem head?_new {key : Text} {letter : Char} {word : Text}
    (hword : (letter :: word).isPrefixOf key.toAsciiLowercase = true)
    (hletter : Text.isWhitespace letter = false) (hslash : letter ≠ '/') :
    (AttrKey.new key).text.head? = some letter := by
  cases key with
  | nil => cases hword
  | cons c rest =>
    obtain ⟨hc, _⟩ := List.cons_prefix_cons.mp (List.isPrefixOf_iff_prefix.mp hword)
    have hspace : Text.isWhitespace c = false := by
      rw [← Text.isWhitespace_toLower, ← hc]
      exact hletter
    have hother : c ≠ '/' := by
      rintro rfl
      exact hslash hc
    refine (head?_normalise rest hspace).trans (congrArg some ?_)
    rw [normaliseChar, if_neg hother]
    exact hc.symm

theorem new_ne_lastLogin {key : Text} (h : isProfile key = true ∨ isRecord key = true) :
    AttrKey.new key ≠ lastLogin := by
  intro heq
  have hlast : lastLogin.text.head? = some 's' := by decide
  rw [← heq] at hlast
  rcases h with hprofile | hrecord
  · rw [head?_new hprofile (by decide) (by decide)] at hlast
    exact absurd hlast (by decide)
  · rw [head?_new hrecord (by decide) (by decide)] at hlast
    exact absurd hlast (by decide)

theorem lookup_warcraft (account : PvpgnAccount) (key : AttrKey) :
    account.warcraft.lookup key = lastValue account.warcraftAttrs key := by
  rw [PvpgnAccount.warcraft, foldl_sortAttr, lookup_writeAttrs, Finmap.lookup_empty, Option.or_none]
  rfl

theorem lookup_common (account : PvpgnAccount) {key : AttrKey} (hkey : key ≠ lastLogin) :
    account.common.lookup key = lastValue account.commonAttrs key := by
  have hsorted : (account.attrs.foldl sortAttr (∅, ∅)).1.lookup key =
      lastValue account.commonAttrs key := by
    rw [foldl_sortAttr, lookup_writeAttrs, Finmap.lookup_empty, Option.or_none]
    rfl
  unfold PvpgnAccount.common
  split
  · exact (Finmap.lookup_insert_of_ne _ hkey).trans hsorted
  · exact hsorted

/-! ## Shares -/

namespace Plan

def append (first second : Plan) : Plan where
  accounts := first.accounts ++ second.accounts
  skipped := first.skipped ++ second.skipped
  admins := first.admins ++ second.admins
  operators := first.operators ++ second.operators
  emailsLeft := first.emailsLeft + second.emailsLeft
  friendsLeft := first.friendsLeft + second.friendsLeft
  mutesLeft := first.mutesLeft + second.mutesLeft
  srpLeft := first.srpLeft + second.srpLeft

theorem append_empty (out : Plan) : out.append .empty = out := by
  simp [append, empty]

theorem append_assoc (first second third : Plan) :
    (first.append second).append third = first.append (second.append third) := by
  simp [append, Nat.add_assoc]

theorem append_left_cancel {out first second : Plan} (h : out.append first = out.append second) :
    first = second := by
  obtain ⟨accounts, skipped, admins, operators, emails, friends, mutes, srp⟩ := first
  simp only [append, mk.injEq, List.append_cancel_left_eq, Nat.add_left_cancel_iff] at h
  obtain ⟨rfl, rfl, rfl, rfl, rfl, rfl, rfl, rfl⟩ := h
  rfl

theorem append_skip (first second : Plan) (line : Text) :
    (first.append second).skip line = first.append (second.skip line) := by
  simp [append, skip]

theorem append_push (first second : Plan) (planned : PlannedAccount) :
    (first.append second).push planned = first.append (second.push planned) := by
  simp [append, push]

end Plan

variable {opts : Options} {account : PvpgnAccount} {name : Text}

theorem tallyOthers_append (out : Plan) :
    tallyOthers account name out = out.append (tallyOthers account name .empty) := by
  simp only [tallyOthers, Plan.append, Plan.empty, List.nil_append, List.append_nil, Nat.zero_add,
    Nat.add_zero]
  congr 1
  · split <;> simp
  · split <;> simp

theorem planXsha1_append (out : Plan) :
    planXsha1 opts account name out =
      (out.append (planXsha1 opts account name .empty).1,
        (planXsha1 opts account name .empty).2) := by
  unfold planXsha1
  split
  · exact congrArg (·, false) out.append_empty.symm
  · split
    · rw [← Plan.append_push, Plan.append_empty]
    · rw [← Plan.append_skip, Plan.append_empty]

theorem planSrp_append (out : Plan) (made : Bool) :
    planSrp opts account name out made =
      (out.append (planSrp opts account name .empty made).1,
        (planSrp opts account name .empty made).2) := by
  unfold planSrp
  split
  · split
    · simp [Plan.append, Plan.empty]
    · split
      · rw [← Plan.append_push, Plan.append_empty]
      · rw [← Plan.append_skip, Plan.append_empty]
  · exact congrArg (·, made) out.append_empty.symm

theorem planNone_append (out : Plan) (made : Bool) :
    planNone account name out made = out.append (planNone account name .empty made) := by
  unfold planNone
  split
  · rw [← Plan.append_skip, Plan.append_empty]
  · exact out.append_empty.symm

/-- What the body of the loop adds for an account whose name is taken. -/
def playerShare (opts : Options) (account : PvpgnAccount) (name : Text) : Plan :=
  let xsha1 := planXsha1 opts account name .empty
  let srp := planSrp opts account name .empty xsha1.2
  (((tallyOthers account name .empty).append xsha1.1).append srp.1).append
    (planNone account name .empty srp.2)

theorem planPlayer_eq (out : Plan) :
    planPlayer opts account name out = out.append (playerShare opts account name) := by
  rw [planPlayer, tallyOthers_append, planXsha1_append]
  dsimp only
  rw [planSrp_append, planNone_append, playerShare]
  simp only [Plan.append_assoc]

/-- The name is one that the plan takes. -/
def Fresh (names : Finset Text) (name : Text) : Prop :=
  validateAccountName name = .ok () ∧ name.toAsciiLowercase ∉ names

theorem planAccount_cases (opts : Options) (hname : account.name = some name)
    (names : Finset Text) :
    (¬ Fresh names name ∧ ∃ why, ∀ out, planAccount opts (out, names) account =
        (out.append (Plan.empty.skip (skippedLine account name why)), names)) ∨
      (Fresh names name ∧ ∀ out, planAccount opts (out, names) account =
        (out.append (playerShare opts account name), insert name.toAsciiLowercase names)) := by
  simp only [planAccount, hname, ← Plan.append_skip, Plan.append_empty, ← planPlayer_eq]
  cases hvalid : validateAccountName name with
  | error e =>
    refine Or.inl ⟨fun h => ?_, _, fun out => rfl⟩
    rw [h.1] at hvalid
    cases hvalid
  | ok =>
    by_cases htaken : name.toAsciiLowercase ∈ names
    · exact Or.inl ⟨fun h => h.2 htaken, _, fun out => by rw [if_pos htaken]⟩
    · exact Or.inr ⟨⟨hvalid, htaken⟩, fun out => by rw [if_neg htaken]⟩

/-! ## The share of one account -/

/-- The digest of the account's password hash. -/
def xsha1Of (opts : Options) (account : PvpgnAccount) : Option (Vector UInt8 20) :=
  account.passhash.bind fun passhash => digest passhash opts.hashOrder

/-- The account's WarCraft III credential. -/
def srpOf (opts : Options) (account : PvpgnAccount) : Option (Vector UInt8 32 × Vector UInt8 32) :=
  match account.salt, account.verifier, opts.srpOrder with
  | some salt, some verifier, some order =>
    match srpField salt order, srpField verifier order with
    | some salt, some verifier => some (salt, verifier)
    | _, _ => none
  | _, _, _ => none

/-- The X-SHA-1 account, if the account has a digest. -/
def plannedXsha1 (opts : Options) (account : PvpgnAccount) (name : Text) : List PlannedAccount :=
  (xsha1Of opts account).toList.map fun digest =>
    ⟨name, .xsha1 digest, account.createdAt opts,
      if account.salt.isNone then account.common.extend account.warcraft else account.common,
      account.ban opts, account.origin⟩

def plannedSrp (opts : Options) (account : PvpgnAccount) (name : Text) : List PlannedAccount :=
  (srpOf opts account).toList.map fun srp =>
    ⟨name ++ '@' :: opts.realm, .srp srp.1 srp.2, account.createdAt opts,
      if (xsha1Of opts account).isSome then account.warcraft
      else account.warcraft.extend account.common,
      account.ban opts, account.origin⟩

/-- The line of the report is about the account. -/
def Names (account : PvpgnAccount) (line : Text) : Prop :=
  ∃ name why, account.name = some name ∧ line = skippedLine account name why

/-- The account has come to something: an account, a line of the report, or the count. -/
def Accounted (account : PvpgnAccount) (share : Plan) : Prop :=
  share.accounts ≠ [] ∨ (∃ line ∈ share.skipped, Names account line) ∨ 0 < share.srpLeft

theorem accounted_append {first second : Plan} :
    Accounted account (first.append second) ↔
      Accounted account first ∨ Accounted account second := by
  have haccounts : (first.append second).accounts ≠ [] ↔
      first.accounts ≠ [] ∨ second.accounts ≠ [] := by
    rw [Plan.append, ne_eq, List.append_eq_nil_iff, not_and_or]
  have hskipped : (∃ line ∈ (first.append second).skipped, Names account line) ↔
      (∃ line ∈ first.skipped, Names account line) ∨
        ∃ line ∈ second.skipped, Names account line := by
    simp only [Plan.append, List.mem_append, or_and_right, exists_or]
  have hleft : 0 < (first.append second).srpLeft ↔ 0 < first.srpLeft ∨ 0 < second.srpLeft := by
    show 0 < _ + _ ↔ _
    omega
  rw [Accounted, haccounts, hskipped, hleft]
  exact (or_congr_right or_or_or_comm).trans or_or_or_comm

theorem not_accounted_empty : ¬ Accounted account .empty := by
  rintro (h | ⟨line, hline, _⟩ | h)
  · exact h rfl
  · cases hline
  · exact Nat.lt_irrefl 0 h

theorem accounted_skip (hname : account.name = some name) (why : Text) :
    Accounted account (Plan.empty.skip (skippedLine account name why)) :=
  Or.inr (Or.inl ⟨_, List.mem_singleton_self _, name, why, hname, rfl⟩)

theorem planXsha1_spec (opts : Options) (account : PvpgnAccount) (name : Text) :
    (planXsha1 opts account name .empty).2 = (xsha1Of opts account).isSome ∧
      (planXsha1 opts account name .empty).1.accounts = plannedXsha1 opts account name := by
  unfold planXsha1 plannedXsha1 xsha1Of
  cases account.passhash with
  | none => exact ⟨rfl, rfl⟩
  | some passhash =>
    rw [Option.bind_some]
    dsimp only
    cases digest passhash opts.hashOrder with
    | none => exact ⟨rfl, rfl⟩
    | some digest => exact ⟨rfl, rfl⟩

theorem accounted_planXsha1_iff (hname : account.name = some name) :
    Accounted account (planXsha1 opts account name .empty).1 ↔ account.passhash ≠ none := by
  unfold planXsha1
  cases account.passhash with
  | none => exact iff_of_false not_accounted_empty (fun h => h rfl)
  | some passhash =>
    refine iff_of_true ?_ (Option.some_ne_none passhash)
    dsimp only
    cases digest passhash opts.hashOrder with
    | none => exact accounted_skip hname _
    | some digest => exact Or.inl (List.cons_ne_nil _ _)

theorem planSrp_spec (opts : Options) (account : PvpgnAccount) (name : Text) :
    ((planSrp opts account name .empty (xsha1Of opts account).isSome).2 = true ↔
        (xsha1Of opts account).isSome = true ∨ (srpOf opts account).isSome = true) ∧
      (planSrp opts account name .empty (xsha1Of opts account).isSome).1.accounts =
        plannedSrp opts account name := by
  unfold planSrp plannedSrp srpOf
  cases account.salt with
  | none => simp [Plan.empty]
  | some salt =>
    cases account.verifier with
    | none => simp [Plan.empty]
    | some verifier =>
      cases opts.srpOrder with
      | none => simp [Plan.empty]
      | some order =>
        cases hsalt : srpField salt order with
        | none => simp [Plan.empty, Plan.skip, hsalt]
        | some salt =>
          cases hverifier : srpField verifier order with
          | none => simp [Plan.empty, Plan.skip, hsalt, hverifier]
          | some verifier => simp [Plan.empty, Plan.push, hsalt, hverifier]

theorem accounted_planSrp_iff (hname : account.name = some name) (made : Bool) :
    Accounted account (planSrp opts account name .empty made).1 ↔
      account.salt ≠ none ∧ account.verifier ≠ none := by
  unfold planSrp
  cases account.salt with
  | none => exact iff_of_false not_accounted_empty (fun h => h.1 rfl)
  | some salt =>
    cases account.verifier with
    | none => exact iff_of_false not_accounted_empty (fun h => h.2 rfl)
    | some verifier =>
      refine iff_of_true ?_ ⟨Option.some_ne_none salt, Option.some_ne_none verifier⟩
      cases opts.srpOrder with
      | none => exact Or.inr (Or.inr Nat.one_pos)
      | some order =>
        cases hsalt : srpField salt order with
        | none =>
          simp only [hsalt]
          exact accounted_skip hname _
        | some salt =>
          cases hverifier : srpField verifier order with
          | none =>
            simp only [hsalt, hverifier]
            exact accounted_skip hname _
          | some verifier =>
            simp only [hsalt, hverifier]
            exact Or.inl (List.cons_ne_nil _ _)

theorem accounted_planNone_iff (hname : account.name = some name) (made : Bool) :
    Accounted account (planNone account name .empty made) ↔
      made = false ∧ account.passhash = none ∧ account.salt = none := by
  unfold planNone
  rw [← Bool.not_eq_true']
  split
  · rename_i h
    exact iff_of_true (accounted_skip hname _) h
  · rename_i h
    exact iff_of_false not_accounted_empty h

theorem accounts_playerShare :
    (playerShare opts account name).accounts =
      plannedXsha1 opts account name ++ plannedSrp opts account name := by
  have hnone (made : Bool) : (planNone account name .empty made).accounts = [] := by
    unfold planNone
    split <;> rfl
  have hsrp := (planSrp_spec opts account name).2
  rw [← (planXsha1_spec opts account name).1] at hsrp
  simp only [playerShare, Plan.append, hnone, hsrp, (planXsha1_spec opts account name).2]
  simp [tallyOthers, Plan.empty]

/-- An account that has a salt but neither password hash nor verifier comes to nothing. -/
theorem accounted_playerShare_iff (hname : account.name = some name) :
    Accounted account (playerShare opts account name) ↔
      account.passhash ≠ none ∨ account.salt = none ∨ account.verifier ≠ none := by
  have htally : ¬ Accounted account (tallyOthers account name .empty) := by
    rintro (h | ⟨line, hline, _⟩ | h)
    · exact h rfl
    · cases hline
    · exact Nat.lt_irrefl 0 h
  rw [playerShare, accounted_append, accounted_append, accounted_append,
    accounted_planXsha1_iff hname, accounted_planSrp_iff hname, accounted_planNone_iff hname,
    (planXsha1_spec opts account name).1]
  constructor
  · rintro (((h | h) | h) | h)
    · exact absurd h htally
    · exact Or.inl h
    · exact Or.inr (Or.inr h.2)
    · exact Or.inr (Or.inl h.2.2)
  · intro h
    by_cases hpass : account.passhash = none
    · by_cases hsalt : account.salt = none
      · refine Or.inr ⟨Bool.eq_false_of_not_eq_true fun hmade => ?_, hpass, hsalt⟩
        rcases (planSrp_spec opts account name).1.mp hmade with hxsha1 | hsrp
        · simp [xsha1Of, hpass] at hxsha1
        · simp [srpOf, hsalt] at hsrp
      · refine Or.inl (Or.inr ⟨hsalt, ?_⟩)
        rcases h with h | h | h
        · exact absurd hpass h
        · exact absurd h hsalt
        · exact h
    · exact Or.inl (Or.inl (Or.inr hpass))

/-! ## Attributes carried over -/

/-- The attributes that are written to the X-SHA-1 account, in order. -/
def onXsha1 (account : PvpgnAccount) : List (Text × Text) :=
  if account.salt.isNone then account.commonAttrs ++ account.warcraftAttrs else account.commonAttrs

/-- The attributes that are written to the SRP account, in order. -/
def onSrp (opts : Options) (account : PvpgnAccount) : List (Text × Text) :=
  if (xsha1Of opts account).isSome then account.warcraftAttrs
  else account.warcraftAttrs ++ account.commonAttrs

/-- Every profile and record attribute that is not empty is on one of the account's accounts. -/
def Carried (account : PvpgnAccount) (share : Plan) : Prop :=
  share.accounts ≠ [] → ∀ a ∈ account.attrs, a.2 ≠ [] →
    isProfile a.1 = true ∨ isRecord a.1 = true →
      ∃ p ∈ share.accounts, p.attrs.lookup (AttrKey.new a.1) = some a.2

theorem lookup_plannedXsha1 {p : PlannedAccount} (hp : p ∈ plannedXsha1 opts account name)
    {key : AttrKey} (hkey : key ≠ lastLogin) :
    p.attrs.lookup key = lastValue (onXsha1 account) key := by
  obtain ⟨digest, _, rfl⟩ := List.mem_map.mp hp
  unfold onXsha1
  dsimp only
  split
  · rw [Map.lookup_extend, lookup_common account hkey, lookup_warcraft, lastValue_append]
  · exact lookup_common account hkey

theorem lookup_plannedSrp {p : PlannedAccount} (hp : p ∈ plannedSrp opts account name)
    {key : AttrKey} (hkey : key ≠ lastLogin) :
    p.attrs.lookup key = lastValue (onSrp opts account) key := by
  obtain ⟨srp, _, rfl⟩ := List.mem_map.mp hp
  unfold onSrp
  dsimp only
  split
  · exact lookup_warcraft account key
  · rw [Map.lookup_extend, lookup_common account hkey, lookup_warcraft, lastValue_append]

theorem plannedXsha1_eq_nil :
    plannedXsha1 opts account name = [] ↔ xsha1Of opts account = none := by
  rw [plannedXsha1, List.map_eq_nil_iff, Option.toList_eq_nil_iff]

theorem plannedSrp_eq_nil : plannedSrp opts account name = [] ↔ srpOf opts account = none := by
  rw [plannedSrp, List.map_eq_nil_iff, Option.toList_eq_nil_iff]

theorem exists_mem_plannedXsha1 (h : xsha1Of opts account ≠ none) (name : Text) :
    ∃ p, p ∈ plannedXsha1 opts account name :=
  List.exists_mem_of_ne_nil _ (mt plannedXsha1_eq_nil.mp h)

theorem exists_mem_plannedSrp (h : srpOf opts account ≠ none) (name : Text) :
    ∃ p, p ∈ plannedSrp opts account name :=
  List.exists_mem_of_ne_nil _ (mt plannedSrp_eq_nil.mp h)

/-- An attribute is on the X-SHA-1 account or on the SRP account, as the last value of its key. -/
theorem exists_mem_playerShare_iff {key : AttrKey} (hkey : key ≠ lastLogin) (value : Text) :
    (∃ p ∈ (playerShare opts account name).accounts, p.attrs.lookup key = some value) ↔
      (xsha1Of opts account ≠ none ∧ lastValue (onXsha1 account) key = some value) ∨
        (srpOf opts account ≠ none ∧ lastValue (onSrp opts account) key = some value) := by
  rw [accounts_playerShare]
  constructor
  · rintro ⟨p, hp, hvalue⟩
    rcases List.mem_append.mp hp with hp | hp
    · refine Or.inl ⟨fun hnone => ?_, (lookup_plannedXsha1 hp hkey).symm.trans hvalue⟩
      rw [plannedXsha1_eq_nil.mpr hnone] at hp
      cases hp
    · refine Or.inr ⟨fun hnone => ?_, (lookup_plannedSrp hp hkey).symm.trans hvalue⟩
      rw [plannedSrp_eq_nil.mpr hnone] at hp
      cases hp
  · rintro (⟨hsome, hvalue⟩ | ⟨hsome, hvalue⟩)
    · obtain ⟨p, hp⟩ := exists_mem_plannedXsha1 hsome name
      exact ⟨p, List.mem_append_left _ hp, (lookup_plannedXsha1 hp hkey).trans hvalue⟩
    · obtain ⟨p, hp⟩ := exists_mem_plannedSrp hsome name
      exact ⟨p, List.mem_append_right _ hp, (lookup_plannedSrp hp hkey).trans hvalue⟩

/-! ## The accounts of a plan -/

/-- The name is one that the plan takes after the accounts before it. -/
def Takes (before : List PvpgnAccount) (name : Text) : Prop :=
  validateAccountName name = .ok () ∧
    ∀ earlier ∈ before, ∀ other, earlier.name = some other → validateAccountName other = .ok () →
      other.toAsciiLowercase ≠ name.toAsciiLowercase

theorem planLoop_concat (accounts : List PvpgnAccount) (account : PvpgnAccount) (opts : Options) :
    planLoop (accounts ++ [account]) opts = planAccount opts (planLoop accounts opts) account :=
  List.foldl_concat ..

theorem planAccount_none (hname : account.name = none) (state : Plan × Finset Text) :
    planAccount opts state account = state := by
  rw [planAccount, hname]

theorem mem_planLoop (accounts : List PvpgnAccount) (opts : Options) (folded : Text) :
    folded ∈ (planLoop accounts opts).2 ↔
      ∃ account ∈ accounts, ∃ name, account.name = some name ∧
        validateAccountName name = .ok () ∧ name.toAsciiLowercase = folded := by
  induction accounts using List.reverseRecOn with
  | nil => exact iff_of_false (Finset.notMem_empty _) fun ⟨_, h, _⟩ => nomatch h
  | append_singleton accounts account ih =>
    have hsplit : (∃ earlier ∈ accounts ++ [account], ∃ name, earlier.name = some name ∧
        validateAccountName name = .ok () ∧ name.toAsciiLowercase = folded) ↔
        folded ∈ (planLoop accounts opts).2 ∨ ∃ name, account.name = some name ∧
          validateAccountName name = .ok () ∧ name.toAsciiLowercase = folded := by
      simp only [List.mem_append, List.mem_singleton, or_and_right, exists_or, ih, exists_eq_left]
    rw [hsplit, planLoop_concat]
    cases hname : account.name with
    | none =>
      rw [planAccount_none hname]
      simp
    | some name =>
      rcases planAccount_cases opts hname (planLoop accounts opts).2 with
        ⟨hold, why, hout⟩ | ⟨hfresh, hout⟩
      · rw [hout (planLoop accounts opts).1]
        refine ⟨Or.inl, ?_⟩
        rintro (h | ⟨_, ⟨⟩, hvalid, rfl⟩)
        · exact h
        · by_contra hnew
          exact hold ⟨hvalid, hnew⟩
      · rw [hout (planLoop accounts opts).1, Finset.mem_insert]
        constructor
        · rintro (rfl | h)
          · exact Or.inr ⟨name, rfl, hfresh.1, rfl⟩
          · exact Or.inl h
        · rintro (h | ⟨_, ⟨⟩, _, rfl⟩)
          · exact Or.inr h
          · exact Or.inl rfl

theorem fresh_iff_takes (opts : Options) (before : List PvpgnAccount) :
    Fresh (planLoop before opts).2 name ↔ Takes before name := by
  refine and_congr_right fun _ => ?_
  rw [mem_planLoop]
  constructor
  · intro h earlier hmem other hother hvalid heq
    exact h ⟨earlier, hmem, other, hother, hvalid, heq⟩
  · rintro h ⟨earlier, hmem, other, hother, hvalid, heq⟩
    exact h earlier hmem other hother hvalid heq

theorem plan_concat (opts : Options) (before : List PvpgnAccount)
    (hname : account.name = some name) :
    (¬ Takes before name ∧ ∃ why, plan (before ++ [account]) opts =
        (plan before opts).append (Plan.empty.skip (skippedLine account name why))) ∨
      (Takes before name ∧ plan (before ++ [account]) opts =
        (plan before opts).append (playerShare opts account name)) := by
  rw [plan, planLoop_concat, ← fresh_iff_takes opts before]
  rcases planAccount_cases opts hname (planLoop before opts).2 with
    ⟨hold, why, hout⟩ | ⟨hfresh, hout⟩
  · exact Or.inl ⟨hold, why, congrArg Prod.fst (hout (planLoop before opts).1)⟩
  · exact Or.inr ⟨hfresh, congrArg Prod.fst (hout (planLoop before opts).1)⟩

theorem mem_plan_iff (accounts : List PvpgnAccount) (p : PlannedAccount) :
    p ∈ (plan accounts opts).accounts ↔
      ∃ before account after name, accounts = before ++ account :: after ∧
        account.name = some name ∧ Takes before name ∧
        p ∈ (playerShare opts account name).accounts := by
  induction accounts using List.reverseRecOn with
  | nil =>
    refine iff_of_false (fun h => nomatch h) ?_
    rintro ⟨before, account, after, name, h, _⟩
    cases before <;> cases h
  | append_singleton accounts last ih =>
    have hsplit : (∃ before account after name, accounts ++ [last] = before ++ account :: after ∧
          account.name = some name ∧ Takes before name ∧
          p ∈ (playerShare opts account name).accounts) ↔
        p ∈ (plan accounts opts).accounts ∨ ∃ name, last.name = some name ∧ Takes accounts name ∧
          p ∈ (playerShare opts last name).accounts := by
      rw [ih]
      constructor
      · rintro ⟨before, account, after, name, h, hshare⟩
        rcases List.eq_nil_or_concat' after with rfl | ⟨after, x, rfl⟩
        · obtain ⟨rfl, hlast⟩ := List.append_inj' h rfl
          obtain rfl := List.singleton_inj.mp hlast
          exact Or.inr ⟨name, hshare⟩
        · rw [← List.cons_append, ← List.append_assoc] at h
          obtain ⟨rfl, _⟩ := List.append_inj' h rfl
          exact Or.inl ⟨before, account, after, name, rfl, hshare⟩
      · rintro (⟨before, account, after, name, rfl, hshare⟩ | ⟨name, hshare⟩)
        · exact ⟨before, account, after ++ [last], name, by simp, hshare⟩
        · exact ⟨accounts, last, [], name, rfl, hshare⟩
    rw [hsplit]
    cases hname : last.name with
    | none =>
      rw [plan, planLoop_concat, planAccount_none hname]
      simp [plan]
    | some name =>
      rcases plan_concat opts accounts hname with ⟨hold, why, hplan⟩ | ⟨htakes, hplan⟩
      · rw [hplan]
        refine ⟨fun h => Or.inl ?_, ?_⟩
        · simpa [Plan.append, Plan.skip, Plan.empty] using h
        · rintro (h | ⟨_, ⟨⟩, htakes, _⟩)
          · exact List.mem_append_left _ h
          · exact absurd htakes hold
      · rw [hplan]
        refine List.mem_append.trans (or_congr_right ⟨fun h => ⟨name, rfl, htakes, h⟩, ?_⟩)
        rintro ⟨_, ⟨⟩, _, h⟩
        exact h

/-! ## Names -/

/-- A planned account has the name itself, or the name in the realm. -/
def Spelled (opts : Options) (name : Text) (p : PlannedAccount) : Prop :=
  (p.name = name ∧ '@' ∉ name) ∨ p.name = name ++ '@' :: opts.realm

theorem at_notMem_toAsciiLowercase {name : Text} (h : '@' ∉ name) :
    '@' ∉ name.toAsciiLowercase := mt (Text.mem_toAsciiLowercase_iff (by decide)).mp h

theorem toAsciiLowercase_realm (name realm : Text) :
    Text.toAsciiLowercase (name ++ '@' :: realm) =
      name.toAsciiLowercase ++ '@' :: realm.toAsciiLowercase := List.map_append

/-- Equal planned names come from equal names. -/
theorem Spelled.folded_eq {other : Text} {p q : PlannedAccount} (hp : Spelled opts name p)
    (hq : Spelled opts other q) (h : p.name.toAsciiLowercase = q.name.toAsciiLowercase) :
    name.toAsciiLowercase = other.toAsciiLowercase := by
  rcases hp with ⟨hp, hbare⟩ | hp
  · rcases hq with ⟨hq, _⟩ | hq
    · rwa [hp, hq] at h
    · rw [hp, hq, toAsciiLowercase_realm] at h
      exact absurd (h ▸ List.mem_append_right _ List.mem_cons_self)
        (at_notMem_toAsciiLowercase hbare)
  · rcases hq with ⟨hq, hbare⟩ | hq
    · rw [hp, hq, toAsciiLowercase_realm] at h
      exact absurd (h ▸ List.mem_append_right _ List.mem_cons_self)
        (at_notMem_toAsciiLowercase hbare)
    · rw [hp, hq, toAsciiLowercase_realm, toAsciiLowercase_realm] at h
      exact List.append_cancel_right h

theorem name_of_mem_plannedXsha1 {p : PlannedAccount} (hp : p ∈ plannedXsha1 opts account name) :
    p.name = name ∧ xsha1Of opts account ≠ none ∧ ∃ digest, p.credential = .xsha1 digest := by
  obtain ⟨digest, hdigest, rfl⟩ := List.mem_map.mp hp
  rw [Option.mem_toList] at hdigest
  exact ⟨rfl, Option.ne_none_iff_exists'.mpr ⟨digest, hdigest⟩, digest, rfl⟩

theorem name_of_mem_plannedSrp {p : PlannedAccount} (hp : p ∈ plannedSrp opts account name) :
    p.name = name ++ '@' :: opts.realm ∧ srpOf opts account ≠ none ∧
      ∃ salt verifier, p.credential = .srp salt verifier := by
  obtain ⟨srp, hsrp, rfl⟩ := List.mem_map.mp hp
  rw [Option.mem_toList] at hsrp
  exact ⟨rfl, Option.ne_none_iff_exists'.mpr ⟨srp, hsrp⟩, srp.1, srp.2, rfl⟩

theorem spelled_of_mem_playerShare (hbare : xsha1Of opts account ≠ none → '@' ∉ name)
    {p : PlannedAccount} (hp : p ∈ (playerShare opts account name).accounts) :
    Spelled opts name p := by
  rw [accounts_playerShare] at hp
  rcases List.mem_append.mp hp with hp | hp
  · obtain ⟨hname, hxsha1, _⟩ := name_of_mem_plannedXsha1 hp
    exact Or.inl ⟨hname, hbare hxsha1⟩
  · exact Or.inr (name_of_mem_plannedSrp hp).1

/-- The accounts of one account have different names. -/
theorem nodup_playerShare :
    ((playerShare opts account name).accounts.map fun p => p.name.toAsciiLowercase).Nodup := by
  rw [accounts_playerShare, plannedXsha1, plannedSrp]
  cases xsha1Of opts account with
  | none => cases srpOf opts account <;> simp
  | some digest =>
    cases srpOf opts account with
    | none => simp
    | some srp => simp [toAsciiLowercase_realm]

/-- Different accounts give different names, if the X-SHA-1 accounts have no realm in theirs. -/
theorem nodup_names (accounts : List PvpgnAccount)
    (hbare : ∀ before account after name, accounts = before ++ account :: after →
      account.name = some name → Takes before name → xsha1Of opts account ≠ none → '@' ∉ name) :
    ((plan accounts opts).accounts.map fun p => p.name.toAsciiLowercase).Nodup := by
  induction accounts using List.reverseRecOn with
  | nil => exact List.nodup_nil
  | append_singleton accounts last ih =>
    have hearlier : ∀ before account after name, accounts = before ++ account :: after →
        account.name = some name → Takes before name → xsha1Of opts account ≠ none →
        '@' ∉ name := by
      rintro before account after name rfl
      exact hbare before account (after ++ [last]) name (by simp)
    cases hname : last.name with
    | none =>
      rw [plan, planLoop_concat, planAccount_none hname]
      exact ih hearlier
    | some name =>
      rcases plan_concat opts accounts hname with ⟨_, why, hplan⟩ | ⟨htakes, hplan⟩
      · rw [hplan]
        simpa [Plan.append, Plan.skip, Plan.empty] using ih hearlier
      · rw [hplan, Plan.append, List.map_append, List.nodup_append]
        refine ⟨ih hearlier, nodup_playerShare, ?_⟩
        intro a ha b hb
        obtain ⟨p, hp, rfl⟩ := List.mem_map.mp ha
        obtain ⟨q, hq, rfl⟩ := List.mem_map.mp hb
        obtain ⟨before, account, after, other, hsplit, hother, hothers, hp⟩ :=
          (mem_plan_iff accounts p).mp hp
        intro heq
        have hspelled := spelled_of_mem_playerShare
          (hearlier before account after other hsplit hother hothers) hp
        have hspelled' := spelled_of_mem_playerShare
          (hbare accounts last [] name rfl hname htakes) hq
        refine htakes.2 account ?_ other hother hothers.1 (hspelled.folded_eq hspelled' heq)
        rw [hsplit]
        exact List.mem_append_right before List.mem_cons_self

/-! ## Every account -/

/-- Every account comes to something, with its profile and its records; the names are different,
valid, and in a realm exactly for the SRP logons. -/
structure AccountsForAll (accounts : List PvpgnAccount) (opts : Options) : Prop where
  each : ∀ before account after, accounts = before ++ account :: after →
    ∃ share, plan (before ++ [account]) opts = (plan before opts).append share ∧
      Accounted account share ∧ Carried account share
  distinct : ((plan accounts opts).accounts.map fun p => p.name.toAsciiLowercase).Nodup
  valid : ∀ p ∈ (plan accounts opts).accounts, validateAccountName p.name = .ok ()
  realm : ∀ p ∈ (plan accounts opts).accounts,
    (∃ salt verifier, p.credential = .srp salt verifier) ↔ '@' ∈ p.name

/-- What an account has to be like whose name is taken. -/
structure Sound (opts : Options) (account : PvpgnAccount) (name : Text) : Prop where
  /-- It has a password hash or a verifier, or no salt. -/
  password : account.passhash ≠ none ∨ account.salt = none ∨ account.verifier ≠ none
  /-- If it has a usable logon, every profile and record attribute goes with one and is the last
  that spells its key there. -/
  carried : xsha1Of opts account ≠ none ∨ srpOf opts account ≠ none →
    ∀ a ∈ account.attrs, a.2 ≠ [] → isProfile a.1 = true ∨ isRecord a.1 = true →
      (xsha1Of opts account ≠ none ∧
          lastValue (onXsha1 account) (AttrKey.new a.1) = some a.2) ∨
        (srpOf opts account ≠ none ∧ lastValue (onSrp opts account) (AttrKey.new a.1) = some a.2)
  /-- With a digest it has no realm in its name. -/
  bare : xsha1Of opts account ≠ none → '@' ∉ name
  /-- With a WarCraft III credential its name is valid in the realm. -/
  realm : srpOf opts account ≠ none → validateAccountName (name ++ '@' :: opts.realm) = .ok ()

theorem carried_playerShare_iff :
    Carried account (playerShare opts account name) ↔
      (xsha1Of opts account ≠ none ∨ srpOf opts account ≠ none →
        ∀ a ∈ account.attrs, a.2 ≠ [] → isProfile a.1 = true ∨ isRecord a.1 = true →
          (xsha1Of opts account ≠ none ∧
              lastValue (onXsha1 account) (AttrKey.new a.1) = some a.2) ∨
            (srpOf opts account ≠ none ∧
              lastValue (onSrp opts account) (AttrKey.new a.1) = some a.2)) := by
  have hmade : (playerShare opts account name).accounts ≠ [] ↔
      xsha1Of opts account ≠ none ∨ srpOf opts account ≠ none := by
    rw [accounts_playerShare, ne_eq, List.append_eq_nil_iff, plannedXsha1_eq_nil, plannedSrp_eq_nil,
      not_and_or]
  rw [Carried, hmade]
  refine imp_congr_right fun _ => forall₂_congr fun a _ => imp_congr_right fun _ => ?_
  exact forall_congr' fun h => exists_mem_playerShare_iff (new_ne_lastLogin h) a.2

variable {accounts before after : List PvpgnAccount}

theorem AccountsForAll.sound (hall : AccountsForAll accounts opts)
    (hsplit : accounts = before ++ account :: after) (hname : account.name = some name)
    (htakes : Takes before name) : Sound opts account name := by
  have hmem {p : PlannedAccount} (hp : p ∈ (playerShare opts account name).accounts) :
      p ∈ (plan accounts opts).accounts :=
    (mem_plan_iff accounts p).mpr ⟨before, account, after, name, hsplit, hname, htakes, hp⟩
  obtain ⟨share, hshare, haccounted, hcarried⟩ := hall.each before account after hsplit
  obtain rfl : share = playerShare opts account name := by
    rcases plan_concat opts before hname with ⟨hold, _⟩ | ⟨_, hplan⟩
    · exact absurd htakes hold
    · exact Plan.append_left_cancel (hshare.symm.trans hplan)
  rw [accounts_playerShare] at hmem
  refine ⟨(accounted_playerShare_iff hname).mp haccounted, carried_playerShare_iff.mp hcarried,
    fun hxsha1 hat => ?_, fun hsrp => ?_⟩
  · obtain ⟨p, hp⟩ := exists_mem_plannedXsha1 hxsha1 name
    obtain ⟨hpname, _, digest, hcredential⟩ := name_of_mem_plannedXsha1 hp
    rw [← hpname] at hat
    obtain ⟨salt, verifier, hsrp⟩ :=
      (hall.realm p (hmem (List.mem_append_left _ hp))).mpr hat
    rw [hcredential] at hsrp
    cases hsrp
  · obtain ⟨p, hp⟩ := exists_mem_plannedSrp hsrp name
    rw [← (name_of_mem_plannedSrp hp).1]
    exact hall.valid p (hmem (List.mem_append_right _ hp))

theorem accountsForAll_of_sound (hnamed : ∀ account ∈ accounts, account.name ≠ none)
    (hsound : ∀ before account after name, accounts = before ++ account :: after →
      account.name = some name → Takes before name → Sound opts account name) :
    AccountsForAll accounts opts where
  each := by
    rintro before account after rfl
    obtain ⟨name, hname⟩ := Option.ne_none_iff_exists'.mp
      (hnamed account (List.mem_append_right before List.mem_cons_self))
    rcases plan_concat opts before hname with ⟨_, why, hplan⟩ | ⟨htakes, hplan⟩
    · exact ⟨_, hplan, accounted_skip hname why, fun h => absurd rfl h⟩
    · have hone := hsound before account after name rfl hname htakes
      exact ⟨_, hplan, (accounted_playerShare_iff hname).mpr hone.password,
        carried_playerShare_iff.mpr hone.carried⟩
  distinct := nodup_names accounts fun before account after name hsplit hname htakes =>
    (hsound before account after name hsplit hname htakes).bare
  valid := by
    intro p hp
    obtain ⟨before, account, after, name, hsplit, hname, htakes, hp⟩ := (mem_plan_iff _ p).mp hp
    rw [accounts_playerShare] at hp
    rcases List.mem_append.mp hp with hp | hp
    · rw [(name_of_mem_plannedXsha1 hp).1]
      exact htakes.1
    · obtain ⟨hpname, hsrp, _⟩ := name_of_mem_plannedSrp hp
      rw [hpname]
      exact (hsound before account after name hsplit hname htakes).realm hsrp
  realm := by
    intro p hp
    obtain ⟨before, account, after, name, hsplit, hname, htakes, hp⟩ := (mem_plan_iff _ p).mp hp
    rw [accounts_playerShare] at hp
    rcases List.mem_append.mp hp with hp | hp
    · obtain ⟨hpname, hxsha1, digest, hcredential⟩ := name_of_mem_plannedXsha1 hp
      rw [hpname, hcredential]
      refine iff_of_false ?_ ((hsound before account after name hsplit hname htakes).bare hxsha1)
      rintro ⟨salt, verifier, h⟩
      cases h
    · obtain ⟨hpname, _, hcredential⟩ := name_of_mem_plannedSrp hp
      rw [hpname]
      exact iff_of_true hcredential (List.mem_append_right name List.mem_cons_self)

/-- **Every account of the source is accounted for** exactly if those whose names are taken are
sound: their passwords, their attributes and their names. -/
theorem accountsForAll_iff (accounts : List PvpgnAccount) (opts : Options)
    (hnamed : ∀ account ∈ accounts, ∃ username,
      account.get "BNET\\acct\\username" = some username) :
    AccountsForAll accounts opts ↔
      ∀ before account after name, accounts = before ++ account :: after →
        account.name = some name → Takes before name → Sound opts account name := by
  refine ⟨fun hall before account after name => hall.sound, accountsForAll_of_sound ?_⟩
  intro account haccount hnone
  obtain ⟨username, husername⟩ := hnamed account haccount
  rw [PvpgnAccount.name, husername] at hnone
  cases hnone

/-- A player of WarCraft III and of the other games. -/
def grom : PvpgnAccount where
  origin := "uid 1".toList
  attrs := [("BNET\\acct\\passhash1".toList, "0123456789abcdef0011223344556677deadbeef".toList),
    ("BNET\\acct\\salt".toList, "01".toList), ("BNET\\acct\\username".toList, "Grom".toList),
    ("BNET\\acct\\verifier".toList, "0203".toList),
    ("Record\\STAR\\0\\wins".toList, "1".toList), ("Record\\W3XP\\0\\wins".toList, "40".toList)]
  ascending := by decide

theorem accountsForAll_grom :
    AccountsForAll [grom] ⟨"bncc".toList, .words, some .reversed, 0⟩ := by
  refine (accountsForAll_iff [grom] _ fun account h => ?_).mpr ?_
  · obtain rfl := List.mem_singleton.mp h
    exact ⟨"Grom".toList, by decide⟩
  · rintro before account after name hsplit hname -
    obtain rfl : grom = account := by
      have hmem : account ∈ [grom] := hsplit ▸ List.mem_append_right before List.mem_cons_self
      exact (List.mem_singleton.mp hmem).symm
    obtain rfl : "Grom".toList = name := Option.some.inj hname
    exact ⟨by decide, fun _ => by decide, fun _ => by decide, fun _ => by decide⟩

/-- Without an order for its WarCraft III credential, an account with a password hash loses its
WarCraft III records. -/
theorem records_lost :
    ¬ ∀ accounts opts, (∀ account ∈ accounts, ∃ username,
        account.get "BNET\\acct\\username" = some username) →
      AccountsForAll accounts opts := by
  intro h
  have hall := h [grom] ⟨"bncc".toList, .words, none, 0⟩ fun account hmem => by
    obtain rfl := List.mem_singleton.mp hmem
    exact ⟨"Grom".toList, by decide⟩
  have htakes : Takes [] "Grom".toList := ⟨by decide, fun _ h => nomatch h⟩
  have hsound := hall.sound (List.nil_append [grom]).symm (by decide) htakes
  rcases hsound.carried (by decide) ("Record\\W3XP\\0\\wins".toList, "40".toList) (by decide)
    (by decide) (by decide) with ⟨_, hlast⟩ | ⟨hsrp, _⟩
  · exact absurd hlast (by decide)
  · exact hsrp (by decide)

end CommandCenter.Import
