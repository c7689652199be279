import CommandCenter.Proto.Bncs

/-!
# The BNCS session state machine

`SessionState` of `crates/bnetcc-core/src/session.rs`.

* `SessionState.accepts_opener`, `SessionState.accepts_versionStep`, `SessionState.accepts_logon`:
  each packet of the handshake is accepted in one state.
* `SessionState.nextOnSuccess_cases`: every move of the machine, with the packet that makes it.
-/

namespace CommandCenter.Core

open Proto

/-- Where a BNCS connection is in its lifecycle. -/
inductive SessionState where
  | connected
  | versioning
  | authenticating
  | loggedIn
  | chatting
  | inChannel
  | closing
  deriving DecidableEq

namespace SessionState

def authenticated (s : SessionState) : Bool := s = loggedIn || s = chatting || s = inChannel

/-- What every open state accepts: keepalives, advertisement traffic, the end of a game and the
informational packets of the legacy logon. -/
def acceptedAnywhere : List UInt8 :=
  [Sid.null, Sid.ping, Sid.stopAdv, Sid.checkAd, Sid.clickAd, Sid.displayAd, Sid.queryAdUrl,
    Sid.udpPingResponse, Sid.clientId, Sid.clientId2, Sid.localeInfo, Sid.systemInfo]

def acceptedIn : SessionState → List UInt8
  | connected => [Sid.authInfo, Sid.startVersioning]
  | versioning => [Sid.authCheck, Sid.reportVersion, Sid.cdKey, Sid.cdKey2]
  | authenticating =>
    [Sid.logonResponse, Sid.logonResponse2, Sid.createAccount, Sid.createAccount2,
      Sid.authAccountCreate, Sid.authAccountLogon, Sid.authAccountLogonProof, Sid.cdKey,
      Sid.cdKey2, Sid.getIconData, Sid.getFileTime, Sid.readUserData]
  | loggedIn =>
    [Sid.enterChat, Sid.getIconData, Sid.getFileTime, Sid.checkDataFile2, Sid.getChannelList,
      Sid.friendsList, Sid.readUserData, Sid.writeUserData, Sid.newsInfo, Sid.queryRealms2,
      Sid.logonRealmEx, Sid.netGamePort, Sid.warcraftGeneral, Sid.getLadderData,
      Sid.findLadderUser]
  | chatting | inChannel =>
    [Sid.enterChat, Sid.getIconData, Sid.getFileTime, Sid.checkDataFile2, Sid.joinChannel,
      Sid.leaveChat, Sid.chatCommand, Sid.getChannelList, Sid.friendsList, Sid.readUserData,
      Sid.writeUserData, Sid.newsInfo, Sid.getAdvListEx, Sid.startAdvEx3, Sid.gameResult,
      Sid.notifyJoin, Sid.leaveGame, Sid.queryRealms2, Sid.logonRealmEx, Sid.netGamePort,
      Sid.warcraftGeneral, Sid.getLadderData, Sid.findLadderUser]
  | closing => []

/-- Whether a packet id is acceptable in this state. -/
def accepts (s : SessionState) (id : UInt8) : Bool :=
  s ≠ closing && (id ∈ acceptedAnywhere || id ∈ s.acceptedIn)

/-- The state a packet moves the session to on success, if any. Creating an account does not log
in. -/
def nextOnSuccess (s : SessionState) (id : UInt8) : Option SessionState :=
  match s with
  | connected => if id = Sid.authInfo ∨ id = Sid.startVersioning then some versioning else none
  | versioning => if id = Sid.authCheck ∨ id = Sid.reportVersion then some authenticating else none
  | authenticating =>
    if id = Sid.logonResponse ∨ id = Sid.logonResponse2 ∨ id = Sid.authAccountLogonProof then
      some loggedIn
    else none
  | loggedIn => if id = Sid.enterChat then some chatting else none
  | chatting => if id = Sid.joinChannel then some inChannel else none
  | inChannel | closing => none

/-! ## The handshake -/

def Opener (id : UInt8) : Prop := id = Sid.authInfo ∨ id = Sid.startVersioning

/-- The packets that check the version. -/
def VersionStep (id : UInt8) : Prop := id = Sid.authCheck ∨ id = Sid.reportVersion

instance (id : UInt8) : Decidable (VersionStep id) := inferInstanceAs (Decidable (_ ∨ _))

def Logon (id : UInt8) : Prop :=
  id = Sid.logonResponse ∨ id = Sid.logonResponse2 ∨ id = Sid.authAccountLogonProof

instance (id : UInt8) : Decidable (Logon id) := inferInstanceAs (Decidable (_ ∨ _ ∨ _))

/-- Whether the version step is behind the session. -/
def versioned (s : SessionState) : Bool := s = authenticating || s.authenticated

variable {s next : SessionState} {id : UInt8}

theorem accepts_ne_closing (h : s.accepts id = true) : s ≠ closing := by
  rintro rfl
  cases h

theorem accepts_opener (h : s.accepts id = true) (hid : Opener id) : s = connected := by
  rcases hid with rfl | rfl <;> cases s <;> first | rfl | exact absurd h (by decide)

theorem accepts_versionStep (h : s.accepts id = true) (hid : VersionStep id) :
    s = versioning := by
  rcases hid with rfl | rfl <;> cases s <;> first | rfl | exact absurd h (by decide)

theorem accepts_logon (h : s.accepts id = true) (hid : Logon id) : s = authenticating := by
  rcases hid with rfl | rfl | rfl <;> cases s <;> first | rfl | exact absurd h (by decide)

inductive Moves (id : UInt8) : SessionState → SessionState → Prop where
  | opened (h : Opener id) : Moves id connected versioning
  | versioned (h : VersionStep id) : Moves id versioning authenticating
  | loggedOn (h : Logon id) : Moves id authenticating loggedIn
  | chats (h : id = Sid.enterChat) : Moves id loggedIn chatting
  | joins (h : id = Sid.joinChannel) : Moves id chatting inChannel

theorem nextOnSuccess_cases (h : s.nextOnSuccess id = some next) : Moves id s next := by
  cases s with
  | connected =>
    obtain ⟨hid, ⟨⟩⟩ := Option.ite_none_right_eq_some.mp h
    exact .opened hid
  | versioning =>
    obtain ⟨hid, ⟨⟩⟩ := Option.ite_none_right_eq_some.mp h
    exact .versioned hid
  | authenticating =>
    obtain ⟨hid, ⟨⟩⟩ := Option.ite_none_right_eq_some.mp h
    exact .loggedOn hid
  | loggedIn =>
    obtain ⟨hid, ⟨⟩⟩ := Option.ite_none_right_eq_some.mp h
    exact .chats hid
  | chatting =>
    obtain ⟨hid, ⟨⟩⟩ := Option.ite_none_right_eq_some.mp h
    exact .joins hid
  | inChannel => cases h
  | closing => cases h

theorem Moves.ne_connected (h : Moves id s next) : next ≠ connected := by
  cases h <;> exact SessionState.noConfusion

theorem Moves.stays_versioned (h : Moves id s next) (hs : s.versioned = true) :
    next.versioned = true := by
  cases h with
  | opened _ => cases hs
  | versioned _ => rfl
  | loggedOn _ | chats _ | joins _ => rfl

theorem Moves.not_yet_versioned (h : Moves id s next) (hs : s.versioned = false)
    (hid : ¬ VersionStep id) : next.versioned = false := by
  cases h with
  | opened _ => rfl
  | versioned hstep => exact absurd hstep hid
  | loggedOn _ | chats _ | joins _ => cases hs

theorem Moves.stays_authenticated (h : Moves id s next) (hs : s.authenticated = true) :
    next.authenticated = true := by
  cases h with
  | opened _ | versioned _ | loggedOn _ => cases hs
  | chats _ | joins _ => rfl

end SessionState

end CommandCenter.Core
