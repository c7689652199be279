import CommandCenter.Daemon.Chat
import CommandCenter.Daemon.Logon
import CommandCenter.Daemon.OperatorNames
import CommandCenter.Proto.D2

/-!
# Squelch and mute

A session hides the chat of an account with `/squelch`, and staff silence one on the whole server
with `/mute`: `IgnoreSet` of `crates/bnetccd/src/node.rs`, the mutes of
`crates/bnetccd/src/moderation.rs`, and the commands of `crates/bnetccd/src/session.rs`. Both are
given a name that is shown, and both keep what is in front of its first `#`.

Left out are replies, and that the mutes are written to a file. Time passes between commands, so
that the clock never goes back. The suffix of a name that is shown is a natural number and not a
`u32` (`ActiveNames.claimName`).

* `accountPart_shown`: when what is in front of the `#` is the account's name.
* `agree_run`: a command about one name makes no difference to another.
* `moderation_reaches`: the names that reach the account they are shown for.
-/

namespace CommandCenter.Daemon

open Rust CommandCenter.Core Proto Library

def never : Nat := maxU64

/-- The optional hours of a command, where none are permanent; 0 by default is permanent too. -/
def parseBanDuration (token : Option Text) (defaultHours : Nat) : Option (Option Nat) :=
  match token with
  | none => some (if defaultHours = 0 then none else some defaultHours)
  | some t =>
    if t = ['0'] ∨ t.eqIgnoreAsciiCase "perm".toList ∨ t.eqIgnoreAsciiCase "permanent".toList then
      some none
    else (parseU64 t).map fun hours => some hours.toNat

/-- The time in milliseconds, whom each session ignores, and who is muted until when. The names are
in lower case. -/
structure Moderation where
  now : Nat
  ignores : SessionId → Finset Text
  mutes : Map Text Nat

namespace Moderation

def new : Moderation := ⟨0, fun _ => ∅, ∅⟩

/-! ## The mutes -/

/-- Drop the mutes that expired. -/
def prune (m : Moderation) : Moderation :=
  { m with mutes := m.mutes.retain fun _ exp => m.now < exp }

/-- `BanStore::mute`. -/
def mute (m : Moderation) (name : Text) (expiry : Nat) : Moderation :=
  { m.prune with mutes := m.prune.mutes.insert name.toAsciiLowercase expiry }

/-- `BanStore::unmute`. -/
def unmute (m : Moderation) (name : Text) : Moderation :=
  { m.prune with mutes := m.prune.mutes.erase name.toAsciiLowercase }

/-- `BanStore::is_muted`. -/
def isMuted (m : Moderation) (name : Text) : Bool :=
  (m.mutes.lookup name.toAsciiLowercase).any (m.now < ·)

/-! ## The commands -/

/-- `/squelch`, of a session with this display name. -/
def squelch (m : Moderation) (sid : SessionId) (displayName arg : Text) : Moderation :=
  let target := accountPart arg.trim
  if target.isEmpty then m
  else if target.eqIgnoreAsciiCase (accountPart displayName) then m
  else
    { m with
      ignores := Function.update m.ignores sid (insert target.toAsciiLowercase (m.ignores sid)) }

def unsquelch (m : Moderation) (sid : SessionId) (arg : Text) : Moderation :=
  let target := accountPart arg.trim
  if target.isEmpty then m
  else
    { m with
      ignores := Function.update m.ignores sid ((m.ignores sid).erase target.toAsciiLowercase) }

def requireStaff (flags : UInt32) : Bool := flags &&& Bncs.adminFlag ≠ 0

/-- Whom a `/mute` names, and until when. -/
def muteOf (m : Moderation) (arg : Text) : Option (Text × Nat) :=
  match arg.splitWhitespace with
  | [] => none
  | user :: rest => (parseBanDuration rest.head? 0).map fun
    | some hours => (user, saturateU64 (m.now + saturateU64 (hours * 3600000)))
    | none => (user, never)

/-- `/mute`. -/
def staffMute (m : Moderation) (flags : UInt32) (arg : Text) : Moderation :=
  if requireStaff flags then
    match m.muteOf arg with
    | some (user, expiry) => m.mute (accountPart user) expiry
    | none => m
  else m

/-- `/unmute`. -/
def staffUnmute (m : Moderation) (flags : UInt32) (arg : Text) : Moderation :=
  if requireStaff flags then
    let base := accountPart arg.trim
    if base.isEmpty then m else m.unmute base
  else m

/-- A command, the pruning that comes with a ban of an address, or the passage of time. -/
inductive Command where
  | squelch (sid : SessionId) (displayName arg : Text)
  | unsquelch (sid : SessionId) (arg : Text)
  | mute (flags : UInt32) (arg : Text)
  | unmute (flags : UInt32) (arg : Text)
  | prune
  | wait (ms : Nat)

def step (m : Moderation) : Command → Moderation
  | .squelch sid displayName arg => m.squelch sid displayName arg
  | .unsquelch sid arg => m.unsquelch sid arg
  | .mute flags arg => m.staffMute flags arg
  | .unmute flags arg => m.staffUnmute flags arg
  | .prune => m.prune
  | .wait ms => { m with now := m.now + ms }

/-! ## What is said -/

/-- A line of talk, or an emote, of a session of the account. -/
def say (m : Moderation) (full : SessionId → Bool) (inner : Inner SessionId) (account : Text)
    (key : Key) (event : ChatEvent) (exclude : Option Text) : List (Delivery SessionId) :=
  if m.isMuted account then []
  else
    (inner.broadcast ⟨full, fun out name => name ∈ m.ignores out⟩ key event exclude
      (some account)).2.1

end Moderation

/-! ## The names that are shown -/

/-- What a session shows: its account, or a realm character of it. -/
inductive ShownAs where
  | account
  | character (name : { name : Text // D2.validCharacterName name = true })

def ShownAs.claimed (shown : ShownAs) (account : AccountName) : Text :=
  match shown with
  | .account => account.1
  | .character name => name.1 ++ '*' :: account.1

/-! ## What is in front of the `#` -/

theorem notMem_accountPart (name : Text) : '#' ∉ accountPart name := by
  intro hmem
  have hpass := List.mem_takeWhile_imp hmem
  simp at hpass

theorem accountPart_eq_self {name : Text} (h : '#' ∉ name) : accountPart name = name := by
  apply List.takeWhile_eq_self_iff.mpr
  intro c hc
  simp only [ne_eq, decide_not, Bool.not_eq_eq_eq_not, Bool.not_true, decide_eq_false_iff_not]
  exact fun hsep => h (hsep ▸ hc)

theorem accountPart_append (name rest : Text) :
    accountPart (name ++ '#' :: rest) = accountPart name := by
  induction name with
  | nil => rfl
  | cons c name ih =>
    simp only [accountPart, List.cons_append, List.takeWhile_cons] at ih ⊢
    split
    · rw [ih]
    · rfl

/-- The suffix of the node is behind the `#`. -/
theorem accountPart_nameCandidate (base : Text) (n : Nat) :
    accountPart (nameCandidate base n) = accountPart base := by
  cases n with
  | zero => rfl
  | succ n => exact accountPart_append base _

theorem accountPart_character {name : Text} (h : '#' ∉ name) (account : Text) :
    accountPart (name ++ '*' :: account) = name ++ '*' :: accountPart account := by
  have hname : name.takeWhile (· ≠ '#') = name := accountPart_eq_self h
  rw [accountPart, List.takeWhile_append, hname, if_pos rfl]
  rfl

/-- What is in front of the `#` of a name that is shown is the account's name exactly if that has no
`#` and is shown itself. -/
theorem accountPart_shown (account : AccountName) (shown : ShownAs) (names : ActiveNames) :
    (accountPart (names.claimName (shown.claimed account)).1).eqIgnoreAsciiCase account.1 = true ↔
      '#' ∉ account.1 ∧ shown = .account := by
  obtain ⟨n, hn⟩ := claimName_cases names (shown.claimed account)
  rw [hn, accountPart_nameCandidate, Text.eqIgnoreAsciiCase_iff]
  have hhash {part : Text} (hpart : '#' ∉ part)
      (h : part.toAsciiLowercase = account.1.toAsciiLowercase) : '#' ∉ account.1 := by
    have hcode : ('#' : Char).val.toNat < 65 := by decide
    rw [← Text.mem_toAsciiLowercase_iff hcode, ← h, Text.mem_toAsciiLowercase_iff hcode]
    exact hpart
  cases shown with
  | account =>
    show (accountPart account.1).toAsciiLowercase = _ ↔ _
    constructor
    · exact fun h => ⟨hhash (notMem_accountPart _) h, rfl⟩
    · exact fun h => by rw [accountPart_eq_self h.1]
  | character name =>
    refine iff_of_false (fun h => ?_) fun h => ShownAs.noConfusion h.2
    have haccount := hhash (notMem_accountPart _) h
    have hname : '#' ∉ name.1 := fun hmem => by
      rcases D2.mem_validCharacterName name.2 hmem with halpha | hpunctuation
      · exact absurd halpha (by decide)
      · exact absurd hpunctuation (by decide)
    -- the character's name makes it too long
    have hlength := length_eq_of_eqIgnoreAsciiCase (Text.eqIgnoreAsciiCase_iff.mpr h)
    rw [ShownAs.claimed, accountPart_character hname, accountPart_eq_self haccount] at hlength
    simp at hlength
    omega

/-! ## A name that is shown is one word -/

theorem isWhitespace_of_accountName (account : AccountName) {c : Char} (hc : c ∈ account.1) :
    Text.isWhitespace c = false :=
  Storage.isWhitespace_of_isPrintable (Storage.isPrintable_of_accountName account.2 hc)

theorem accountName_ne_nil (account : AccountName) : account.1 ≠ [] := by
  intro hempty
  have hvalid := account.2
  rw [hempty] at hvalid
  exact absurd hvalid (by decide)

theorem isWhitespace_of_claimed (shown : ShownAs) (account : AccountName) {c : Char}
    (hc : c ∈ shown.claimed account) : Text.isWhitespace c = false := by
  cases shown with
  | account => exact isWhitespace_of_accountName account hc
  | character name =>
    rw [ShownAs.claimed, List.mem_append, List.mem_cons] at hc
    rcases hc with hname | rfl | haccount
    · rcases D2.mem_validCharacterName name.2 hname with halpha | hpunctuation
      · exact Text.isWhitespace_eq_false (Text.isAlpha_iff.mp halpha)
      · rcases Bool.or_eq_true_iff.mp hpunctuation with hdash | hunderscore
        · rw [of_decide_eq_true hdash]
          rfl
        · rw [of_decide_eq_true hunderscore]
          rfl
    · rfl
    · exact isWhitespace_of_accountName account haccount

theorem isWhitespace_of_shown (shown : ShownAs) (account : AccountName) (names : ActiveNames)
    {c : Char} (hc : c ∈ (names.claimName (shown.claimed account)).1) :
    Text.isWhitespace c = false := by
  obtain ⟨n, hn⟩ := claimName_cases names (shown.claimed account)
  rw [hn] at hc
  cases n with
  | zero => exact isWhitespace_of_claimed shown account hc
  | succ n =>
    rw [nameCandidate, List.mem_append, List.mem_cons] at hc
    rcases hc with hclaimed | rfl | hdigit
    · exact isWhitespace_of_claimed shown account hclaimed
    · rfl
    · have hdigit : c.isDigit = true := isDigit_of_mem_digits hdigit
      simp only [Char.isDigit, Bool.and_eq_true, decide_eq_true_eq, ge_iff_le,
        UInt32.le_iff_toNat_le] at hdigit
      have hlow : 48 ≤ c.val.toNat := hdigit.1
      have hhigh : c.val.toNat ≤ 57 := hdigit.2
      exact Text.isWhitespace_printable (by omega) (by omega)

theorem shown_ne_nil (shown : ShownAs) (account : AccountName) (names : ActiveNames) :
    (names.claimName (shown.claimed account)).1 ≠ [] := by
  obtain ⟨n, hn⟩ := claimName_cases names (shown.claimed account)
  rw [hn]
  have hclaimed : shown.claimed account ≠ [] := by
    cases shown with
    | account => exact accountName_ne_nil account
    | character name => simp [ShownAs.claimed]
  cases n with
  | zero => exact hclaimed
  | succ n => simp [nameCandidate]

namespace Moderation

variable {m m' : Moderation} {name : Text}

/-! ## One name apart -/

/-- The mute of a name that is still in force. -/
def inForce (m : Moderation) (name : Text) : Option Nat :=
  (m.mutes.lookup name).filter (m.now < ·)

theorem muteOf_user {arg user : Text} {expiry : Nat} (h : m.muteOf arg = some (user, expiry)) :
    arg.splitWhitespace.head? = some user := by
  unfold muteOf at h
  split at h
  · cases h
  · rename_i first rest hwords
    obtain ⟨hours, _, hmute⟩ := Option.map_eq_some_iff.mp h
    rw [hwords]
    cases hours with
    | none => exact congrArg (some ·.1) hmute
    | some hours => exact congrArg (some ·.1) hmute

/-- Both have the same of every name but this one. -/
structure Agree (name : Text) (m m' : Moderation) : Prop where
  now : m.now = m'.now
  ignores : ∀ sid other, other ≠ name → (other ∈ m.ignores sid ↔ other ∈ m'.ignores sid)
  inForce : ∀ other, other ≠ name → m.inForce other = m'.inForce other

theorem isMuted_eq (m : Moderation) (account : Text) :
    m.isMuted account = (m.inForce account.toAsciiLowercase).isSome := by
  unfold isMuted inForce
  cases m.mutes.lookup account.toAsciiLowercase with
  | none => rfl
  | some exp => by_cases h : m.now < exp <;> simp [h]

theorem inForce_prune (m : Moderation) (name : Text) : m.prune.inForce name = m.inForce name := by
  show ((m.mutes.retain _).lookup name).filter _ = _
  have hnow : m.prune.now = m.now := rfl
  rw [Map.lookup_retain, Option.filter_filter, hnow]
  simp [inForce]

theorem inForce_mute (m : Moderation) (target : Text) (expiry : Nat) {other : Text}
    (h : other ≠ target.toAsciiLowercase) :
    (m.mute target expiry).inForce other = m.inForce other := by
  rw [← inForce_prune m]
  show ((m.prune.mutes.insert _ expiry).lookup other).filter _ = _
  rw [Finmap.lookup_insert_of_ne _ h]
  rfl

theorem inForce_unmute (m : Moderation) (target : Text) {other : Text}
    (h : other ≠ target.toAsciiLowercase) : (m.unmute target).inForce other = m.inForce other := by
  rw [← inForce_prune m]
  show ((m.prune.mutes.erase _).lookup other).filter _ = _
  rw [Finmap.lookup_erase_ne h]
  rfl

theorem inForce_mute_self (m : Moderation) (target : Text) (expiry : Nat) :
    (m.mute target expiry).inForce target.toAsciiLowercase =
      (some expiry).filter (m.now < ·) := by
  show ((m.prune.mutes.insert _ expiry).lookup _).filter _ = _
  rw [Finmap.lookup_insert]
  rfl

theorem inForce_unmute_self (m : Moderation) (target : Text) :
    (m.unmute target).inForce target.toAsciiLowercase = none := by
  show ((m.prune.mutes.erase _).lookup _).filter _ = _
  rw [Finmap.lookup_erase]
  rfl

theorem inForce_wait (m : Moderation) (ms : Nat) (name : Text) :
    Moderation.inForce { m with now := m.now + ms } name =
      (m.inForce name).filter (m.now + ms < ·) := by
  unfold inForce
  rw [Option.filter_filter]
  congr 1
  funext exp
  by_cases h : m.now + ms < exp
  · have hnow : m.now < exp := by omega
    simp [h, hnow]
  · simp [h]

theorem Agree.mute (h : Agree name m m') (target : Text) (expiry : Nat) :
    Agree name (m.mute target expiry) (m'.mute target expiry) := by
  refine ⟨h.now, h.ignores, fun other hother => ?_⟩
  by_cases htarget : other = target.toAsciiLowercase
  · rw [htarget, inForce_mute_self, inForce_mute_self, h.now]
  · rw [inForce_mute _ _ _ htarget, inForce_mute _ _ _ htarget, h.inForce other hother]

theorem Agree.unmute (h : Agree name m m') (target : Text) :
    Agree name (m.unmute target) (m'.unmute target) := by
  refine ⟨h.now, h.ignores, fun other hother => ?_⟩
  by_cases htarget : other = target.toAsciiLowercase
  · rw [htarget, inForce_unmute_self, inForce_unmute_self]
  · rw [inForce_unmute _ _ htarget, inForce_unmute _ _ htarget, h.inForce other hother]

/-- A session's own list is changed the same way. -/
theorem Agree.update (h : Agree name m m') (sid : SessionId) (f : Finset Text → Finset Text)
    (hf : ∀ other ≠ name, ∀ s t : Finset Text, (other ∈ s ↔ other ∈ t) →
      (other ∈ f s ↔ other ∈ f t)) :
    Agree name { m with ignores := Function.update m.ignores sid (f (m.ignores sid)) }
      { m' with ignores := Function.update m'.ignores sid (f (m'.ignores sid)) } := by
  refine ⟨h.now, fun sid' other hother => ?_, h.inForce⟩
  dsimp only
  by_cases hsid : sid' = sid
  · rw [hsid, Function.update_self, Function.update_self]
    exact hf other hother _ _ (h.ignores sid other hother)
  · rw [Function.update_of_ne hsid, Function.update_of_ne hsid]
    exact h.ignores sid' other hother

/-- A command keeps the two alike, whomever it names. -/
theorem agree_step (h : Agree name m m') (c : Command) : Agree name (m.step c) (m'.step c) := by
  cases c with
  | squelch sid displayName arg =>
    show Agree name (m.squelch sid displayName arg) (m'.squelch sid displayName arg)
    unfold squelch
    dsimp only
    split
    · exact h
    · split
      · exact h
      · refine h.update sid _ fun other _ s t hst => ?_
        simp only [Finset.mem_insert, hst]
  | unsquelch sid arg =>
    show Agree name (m.unsquelch sid arg) (m'.unsquelch sid arg)
    unfold unsquelch
    dsimp only
    split
    · exact h
    · refine h.update sid (·.erase (accountPart arg.trim).toAsciiLowercase) ?_
      intro other _ s t hst
      simp only [Finset.mem_erase, hst]
  | mute flags arg =>
    show Agree name (m.staffMute flags arg) (m'.staffMute flags arg)
    have hsame : m'.muteOf arg = m.muteOf arg := by
      unfold muteOf
      rw [h.now]
    unfold staffMute
    rw [hsame]
    split
    · split
      · exact h.mute _ _
      · exact h
    · exact h
  | unmute flags arg =>
    show Agree name (m.staffUnmute flags arg) (m'.staffUnmute flags arg)
    unfold staffUnmute
    dsimp only
    split
    · split
      · exact h
      · exact h.unmute _
    · exact h
  | prune =>
    refine ⟨h.now, h.ignores, fun other hother => ?_⟩
    refine (inForce_prune m other).trans ?_
    rw [h.inForce other hother]
    exact (inForce_prune m' other).symm
  | wait ms =>
    refine ⟨congrArg (· + ms) h.now, h.ignores, fun other hother => ?_⟩
    refine (inForce_wait m ms other).trans ?_
    rw [h.inForce other hother, h.now]
    exact (inForce_wait m' ms other).symm

theorem agree_run (h : Agree name m m') (later : List Command) :
    Agree name (run step m later) (run step m' later) := by
  induction later generalizing m m' with
  | nil => exact h
  | cons c later ih => exact ih (agree_step h c)

/-- Who speaks is heard by the same sessions, if it is another. -/
theorem Agree.say (h : Agree name m m') {account : Text}
    (haccount : account.toAsciiLowercase ≠ name) (full : SessionId → Bool)
    (inner : Inner SessionId) (key : Key) (event : ChatEvent) (exclude : Option Text) :
    m.say full inner account key event exclude = m'.say full inner account key event exclude := by
  have hmuted : m.isMuted account = m'.isMuted account := by
    rw [isMuted_eq, isMuted_eq, h.inForce _ haccount]
  have hignores (sid : SessionId) : account.toAsciiLowercase ∈ m.ignores sid ↔
      account.toAsciiLowercase ∈ m'.ignores sid := h.ignores sid _ haccount
  unfold Moderation.say
  rw [hmuted]
  simp only [Inner.broadcast, Option.any_some, hignores]

/-! ## What a name reaches -/

/-- The session takes back that it squelched the account. -/
def Command.Unsquelches (o : SessionId) (account : Text) : Command → Prop
  | .unsquelch sid arg => sid = o ∧ (accountPart arg.trim).eqIgnoreAsciiCase account = true
  | _ => False

/-- Staff mute or unmute the account. -/
def Command.Restates (account : Text) : Command → Prop
  | .mute _ arg =>
    ∃ user ∈ arg.splitWhitespace.head?, (accountPart user).eqIgnoreAsciiCase account = true
  | .unmute _ arg => (accountPart arg.trim).eqIgnoreAsciiCase account = true
  | _ => False

/-- After the session squelched the name `d`, and until it takes that back, what is said by the
account brings it nothing but the leave notices of the channel, and other accounts are heard as they
were without the command. -/
def Squelches (o : SessionId) (displayName d : Text) (account : AccountName) : Prop :=
  ∀ (m : Moderation) (later : List Command), (∀ c ∈ later, ¬ c.Unsquelches o account.1) →
    ∀ full inner key event exclude,
      (∀ sent ∈ (run step (m.squelch o displayName d) later).say full inner account.1 key event
          exclude, sent.1 = o → sent ∈ (inner.flushLeaves key).1) ∧
        ∀ other : AccountName, other.1.eqIgnoreAsciiCase account.1 = false →
          (run step (m.squelch o displayName d) later).say full inner other.1 key event exclude =
            (run step m later).say full inner other.1 key event exclude

/-- After staff muted the name `d`, until that expires and before they name the account again, what
it says reaches nobody, and other accounts are heard as they were without the command. -/
def Silences (d : Text) (account : AccountName) : Prop :=
  ∀ (m : Moderation) (flags : UInt32) (arg : Text) (expiry : Nat) (later : List Command),
    requireStaff flags = true → m.muteOf arg = some (d, expiry) →
    (∀ c ∈ later, ¬ c.Restates account.1) → ∀ full inner key event exclude,
      ((run step (m.staffMute flags arg) later).now < expiry →
        (run step (m.staffMute flags arg) later).say full inner account.1 key event exclude = []) ∧
        ∀ other : AccountName, other.1.eqIgnoreAsciiCase account.1 = false →
          (run step (m.staffMute flags arg) later).say full inner other.1 key event exclude =
            (run step m later).say full inner other.1 key event exclude

variable {o : SessionId} {displayName d : Text} {account : AccountName}

theorem ignored_run {later : List Command} (h : account.1.toAsciiLowercase ∈ m.ignores o)
    (hlater : ∀ c ∈ later, ¬ c.Unsquelches o account.1) :
    account.1.toAsciiLowercase ∈ (run step m later).ignores o := by
  induction later generalizing m with
  | nil => exact h
  | cons c later ih =>
    refine ih ?_ fun c' hc' => hlater c' (List.mem_cons_of_mem _ hc')
    have hc := hlater c List.mem_cons_self
    cases c with
    | squelch sid displayName arg =>
      show _ ∈ (m.squelch sid displayName arg).ignores o
      unfold squelch
      dsimp only
      split
      · exact h
      · split
        · exact h
        · by_cases hsid : o = sid
          · subst hsid
            dsimp only
            rw [Function.update_self]
            exact Finset.mem_insert_of_mem h
          · dsimp only
            rw [Function.update_of_ne hsid]
            exact h
    | unsquelch sid arg =>
      show _ ∈ (m.unsquelch sid arg).ignores o
      unfold unsquelch
      dsimp only
      split
      · exact h
      · by_cases hsid : o = sid
        · subst hsid
          dsimp only
          rw [Function.update_self]
          refine Finset.mem_erase.mpr ⟨fun hsame => hc ⟨rfl, ?_⟩, h⟩
          exact Text.eqIgnoreAsciiCase_iff.mpr hsame.symm
        · dsimp only
          rw [Function.update_of_ne hsid]
          exact h
    | mute flags arg =>
      show _ ∈ (m.staffMute flags arg).ignores o
      unfold staffMute
      split
      · split <;> exact h
      · exact h
    | unmute flags arg =>
      show _ ∈ (m.staffUnmute flags arg).ignores o
      unfold staffUnmute
      dsimp only
      split
      · split <;> exact h
      · exact h
    | prune => exact h
    | wait ms => exact h

theorem muted_run {later : List Command} {expiry : Nat}
    (h : m.now < expiry → m.inForce account.1.toAsciiLowercase = some expiry)
    (hlater : ∀ c ∈ later, ¬ c.Restates account.1) (hnow : (run step m later).now < expiry) :
    (run step m later).inForce account.1.toAsciiLowercase = some expiry := by
  induction later generalizing m with
  | nil => exact h hnow
  | cons c later ih =>
    refine ih ?_ (fun c' hc' => hlater c' (List.mem_cons_of_mem _ hc')) hnow
    have hc := hlater c List.mem_cons_self
    cases c with
    | squelch sid displayName arg =>
      show (m.squelch sid displayName arg).now < expiry →
        (m.squelch sid displayName arg).inForce _ = _
      unfold squelch
      dsimp only
      split
      · exact h
      · split <;> exact h
    | unsquelch sid arg =>
      show (m.unsquelch sid arg).now < expiry → (m.unsquelch sid arg).inForce _ = _
      unfold unsquelch
      dsimp only
      split <;> exact h
    | mute flags arg =>
      show (m.staffMute flags arg).now < expiry → (m.staffMute flags arg).inForce _ = _
      unfold staffMute
      split
      · split
        · rename_i user expiry' hmute
          intro hnow
          rw [inForce_mute _ _ _ fun hsame => hc ⟨user, muteOf_user hmute, ?_⟩]
          · exact h hnow
          · exact Text.eqIgnoreAsciiCase_iff.mpr hsame.symm
        · exact h
      · exact h
    | unmute flags arg =>
      show (m.staffUnmute flags arg).now < expiry → (m.staffUnmute flags arg).inForce _ = _
      unfold staffUnmute
      dsimp only
      split
      · split
        · exact h
        · intro hnow
          rw [inForce_unmute _ _ fun hsame => hc (Text.eqIgnoreAsciiCase_iff.mpr hsame.symm)]
          exact h hnow
      · exact h
    | prune =>
      intro hnow
      exact (inForce_prune m _).trans (h hnow)
    | wait ms =>
      intro hnow
      refine (inForce_wait m ms _).trans ?_
      have hearlier : m.now + ms < expiry := hnow
      rw [h (by omega)]
      simp [hearlier]

theorem say_ignored (h : account.1.toAsciiLowercase ∈ m.ignores o) {full : SessionId → Bool}
    {inner : Inner SessionId} {key : Key} {event : ChatEvent} {exclude : Option Text}
    {sent : Delivery SessionId} (hsent : sent ∈ m.say full inner account.1 key event exclude)
    (hself : sent.1 = o) : sent ∈ (inner.flushLeaves key).1 := by
  unfold say at hsent
  split at hsent
  · cases hsent
  · unfold Inner.broadcast at hsent
    dsimp only at hsent
    split at hsent
    · exact hsent
    · rw [List.partition_eq_filter_filter] at hsent
      rcases List.mem_append.mp hsent with hflushed | hreached
      · exact hflushed
      · obtain ⟨s, hs, rfl⟩ := List.mem_map.mp hreached
        have haudience := (List.mem_filter.mp (List.mem_filter.mp hs).1).2
        rw [← hself] at h
        simp [h] at haudience

theorem heard (hmuted : m.isMuted account.1 = false)
    (hignores : account.1.toAsciiLowercase ∉ m.ignores o) (event : ChatEvent) :
    (o, [event]) ∈ m.say (fun _ => false) ⟨∅, Finmap.singleton [] [([], o)], ∅⟩ account.1 [] event
      none := by
  simp [say, hmuted, Inner.broadcast, Inner.flushLeaves, hignores]

theorem squelch_reaching (hword : ∀ c ∈ d, Text.isWhitespace c = false) (haccount : account.1 ≠ [])
    (hreaches : (accountPart d).eqIgnoreAsciiCase account.1 = true)
    (hself : ¬ (accountPart displayName).eqIgnoreAsciiCase account.1 = true) (m : Moderation) :
    m.squelch o displayName d =
      { m with
        ignores := Function.update m.ignores o
          (insert account.1.toAsciiLowercase (m.ignores o)) } := by
  rw [Text.eqIgnoreAsciiCase_iff] at hreaches hself
  have hsome : (accountPart d).isEmpty = false := by
    rw [List.isEmpty_eq_false_iff]
    intro hempty
    rw [hempty] at hreaches
    exact haccount (List.map_eq_nil_iff.mp hreaches.symm)
  have hother : (accountPart d).eqIgnoreAsciiCase (accountPart displayName) = false := by
    rw [Bool.eq_false_iff, Ne, Text.eqIgnoreAsciiCase_iff]
    exact fun hsame => hself (hsame.symm.trans hreaches)
  unfold squelch
  rw [Text.trim_word hword]
  simp only [hsome, hother, hreaches]
  rfl

theorem squelches_iff (hword : ∀ c ∈ d, Text.isWhitespace c = false) (haccount : account.1 ≠ []) :
    Squelches o displayName d account ↔
      (accountPart d).eqIgnoreAsciiCase account.1 = true ∧
        ¬ (accountPart displayName).eqIgnoreAsciiCase account.1 = true := by
  constructor
  · intro h
    have hunheard := (h new [] nofun (fun _ => false) ⟨∅, Finmap.singleton [] [([], o)], ∅⟩ []
      ⟨.emote, 0, [], []⟩ none).1 (o, [⟨.emote, 0, [], []⟩])
    have hmem : account.1.toAsciiLowercase ∈ (new.squelch o displayName d).ignores o := by
      by_contra hnot
      have hmuted : (new.squelch o displayName d).isMuted account.1 = false := by
        unfold squelch
        dsimp only
        split
        · rfl
        · split <;> rfl
      exact absurd (hunheard (heard hmuted hnot _) rfl) (by simp [Inner.flushLeaves])
    unfold squelch at hmem
    rw [Text.trim_word hword] at hmem
    dsimp only at hmem
    split at hmem
    · exact absurd hmem (Finset.notMem_empty _)
    · split at hmem
      · exact absurd hmem (Finset.notMem_empty _)
      · rename_i hself
        dsimp only at hmem
        rw [Function.update_self, Finset.mem_insert] at hmem
        have hsame := hmem.resolve_right (Finset.notMem_empty _)
        rw [Text.eqIgnoreAsciiCase_iff] at hself
        rw [Text.eqIgnoreAsciiCase_iff, Text.eqIgnoreAsciiCase_iff]
        exact ⟨hsame.symm, fun hown => hself (hsame.symm.trans hown.symm)⟩
  · rintro ⟨hreaches, hself⟩ m later hlater full inner key event exclude
    have hsquelch := squelch_reaching (o := o) hword haccount hreaches hself m
    have hagree : Agree account.1.toAsciiLowercase (m.squelch o displayName d) m := by
      rw [hsquelch]
      refine ⟨rfl, fun sid other hother => ?_, fun _ _ => rfl⟩
      dsimp only
      by_cases hsid : sid = o
      · rw [hsid, Function.update_self, Finset.mem_insert, or_iff_right hother]
      · rw [Function.update_of_ne hsid]
    constructor
    · have hignored : account.1.toAsciiLowercase ∈
          (run step (m.squelch o displayName d) later).ignores o := by
        refine ignored_run ?_ hlater
        rw [hsquelch]
        dsimp only
        rw [Function.update_self]
        exact Finset.mem_insert_self _ _
      exact fun sent hsent hself => say_ignored hignored hsent hself
    · intro other hother
      refine (agree_run hagree later).say ?_ full inner key event exclude
      rw [Bool.eq_false_iff, Ne, Text.eqIgnoreAsciiCase_iff] at hother
      exact hother

theorem silences_iff (hword : ∀ c ∈ d, Text.isWhitespace c = false) (hne : d ≠ []) :
    Silences d account ↔ (accountPart d).eqIgnoreAsciiCase account.1 = true := by
  constructor
  · intro h
    have hmute : new.muteOf d = some (d, never) := by
      rw [muteOf, Text.splitWhitespace_word hne hword]
      rfl
    have hsilent := (h new Bncs.adminFlag d never [] (by decide) hmute nofun (fun _ => false)
      ⟨∅, Finmap.singleton [] [([], 0)], ∅⟩ [] ⟨.emote, 0, [], []⟩ none).1
    have hmuted : (new.mute (accountPart d) never).isMuted account.1 = true := by
      by_contra hnot
      have hheard := heard (o := 0) (Bool.eq_false_iff.mpr hnot) (Finset.notMem_empty _)
        ⟨.emote, 0, [], []⟩
      rw [run_nil, staffMute, if_pos (by decide), hmute] at hsilent
      rw [hsilent (show 0 < never by decide)] at hheard
      cases hheard
    rw [isMuted_eq] at hmuted
    by_contra hother
    rw [Text.eqIgnoreAsciiCase_iff] at hother
    rw [inForce_mute _ _ _ fun hsame => hother hsame.symm] at hmuted
    cases hmuted
  · intro hreaches m flags arg expiry later hstaff hmute hlater full inner key event exclude
    rw [Text.eqIgnoreAsciiCase_iff] at hreaches
    have hmutes : m.staffMute flags arg = m.mute (accountPart d) expiry := by
      rw [staffMute, if_pos hstaff, hmute]
    rw [hmutes]
    constructor
    · intro hnow
      have hforce : (m.mute (accountPart d) expiry).now < expiry →
          (m.mute (accountPart d) expiry).inForce account.1.toAsciiLowercase = some expiry := by
        intro hstill
        have hlasts : m.now < expiry := hstill
        rw [← hreaches, inForce_mute_self]
        simp [hlasts]
      rw [say, isMuted_eq, muted_run hforce hlater hnow]
      rfl
    · intro other hother
      rw [Bool.eq_false_iff, Ne, Text.eqIgnoreAsciiCase_iff] at hother
      have hagree : Agree account.1.toAsciiLowercase (m.mute (accountPart d) expiry) m := by
        refine ⟨rfl, fun _ _ _ => Iff.rfl, fun name hname => ?_⟩
        exact inForce_mute m _ _ (by rwa [hreaches])
      exact (agree_run hagree later).say hother full inner key event exclude

end Moderation

/-- **Moderation by a name that is shown** reaches the account, all of its sessions and no other, if
the account's name has no `#` and is shown itself, and, for `/squelch`, is not in front of the `#`
of the session's own name; and in no other case. -/
theorem moderation_reaches (account : AccountName) (shown : ShownAs) (names : ActiveNames)
    (o : SessionId) (displayName : Text) :
    (Moderation.Squelches o displayName (names.claimName (shown.claimed account)).1 account ↔
      ('#' ∉ account.1 ∧ shown = .account) ∧
        ¬ (accountPart displayName).eqIgnoreAsciiCase account.1 = true) ∧
      (Moderation.Silences (names.claimName (shown.claimed account)).1 account ↔
        '#' ∉ account.1 ∧ shown = .account) := by
  have hword (c : Char) (hc : c ∈ (names.claimName (shown.claimed account)).1) :
      Text.isWhitespace c = false := isWhitespace_of_shown shown account names hc
  constructor
  · rw [Moderation.squelches_iff hword (accountName_ne_nil account), accountPart_shown]
  · rw [Moderation.silences_iff hword (shown_ne_nil shown account names), accountPart_shown]

/-- The name of a realm character does not reach its account. -/
theorem moderation_misses : ¬ ∀ (account : AccountName) (shown : ShownAs) (names : ActiveNames) o
    displayName, Moderation.Squelches o displayName (names.claimName (shown.claimed account)).1
      account := by
  intro h
  have hignores := h ⟨"Tagban".toList, rfl⟩ (.character ⟨"Tyrael".toList, rfl⟩) ∅ 0 "Guest".toList
    .new [] nofun (fun _ => false) ⟨∅, Finmap.singleton [] [([], 0)], ∅⟩ [] ⟨.emote, 0, [], []⟩ none
  have hunheard := hignores.1 (0, [⟨.emote, 0, [], []⟩]) (by decide) rfl
  revert hunheard
  decide

end CommandCenter.Daemon
