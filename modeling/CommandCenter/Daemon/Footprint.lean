import CommandCenter.Daemon.Server

/-!
# What a handler touches

Each handler changes some of the fields of its session and makes some kinds of requests. The
`Footprint` of a packet bounds both: a property of a session that does not depend on what a packet
touches is not changed by it.

* `Handling.Leaves`: a handler keeps to a footprint.
* `Bncs.dispatch_leaves`: so does every packet's, to the footprint of its identifier.
* `Bncs.advance_cases`: what a packet does to the state.
-/

namespace CommandCenter.Daemon

open Rust CommandCenter.Core Proto Library
open Storage (Account)

inductive Concern where
  | admission
  | keys
  | hosting
  | listing
  | results
  | other
  deriving DecidableEq

def Request.concern : Request → Concern
  | .reclassify _ _ _ | .release _ _ => .admission
  | .claimKey _ _ | .releaseKey _ _ => .keys
  | .recordHostedGame _ => .hosting
  | .advertiseGame _ | .withdrawGame _ => .listing
  | .recordGame _ _ _ | .recordLadderGame _ _ _ _ _ _ => .results
  | _ => .other

def Bncs.version (s : Bncs) : Option FourCc × Option FourCc × Option UInt32 :=
  (s.product, s.platform, s.versionByte)

def Bncs.games (s : Bncs) : Bool × Option GameSeat := (s.hostingGame, s.gameSeat)

/-- What may be asked about, and which fields may change. -/
structure Footprint where
  concern : Concern := .other
  client : Bool := false
  version : Bool := false
  keys : Bool := false
  account : Bool := false
  games : Bool := false
  srp : Bool := false
  /-- Whether the list of games may be asked about too. -/
  lists : Bool := false

/-- The session is as it was but for the fields of the footprint. -/
structure Footprint.Keeps (fp : Footprint) (s s' : Bncs) : Prop where
  peer : s'.peer = s.peer
  state : s'.state = s.state
  serverToken : s'.serverToken = s.serverToken
  client : fp.client ∨ s'.client = s.client
  version : fp.version ∨ s'.version = s.version
  keys : fp.keys ∨ s'.claimedKeys = s.claimedKeys
  account : fp.account ∨ s'.account = s.account
  games : fp.games ∨ s'.games = s.games
  srp : fp.srp ∨ s'.srp = s.srp

/-- Nothing but requests about other things. -/
def Footprint.light : Footprint := {}

def Footprint.Asks (fp : Footprint) (q : Request) : Prop :=
  q.concern = .other ∨ q.concern = fp.concern ∨ fp.lists = true ∧ q.concern = .listing

def Handling.Leaves (fp : Footprint) (s : Bncs) (x : Handling) : Prop :=
  x.Within fp.Asks fun r => fp.Keeps s r.2

theorem Footprint.Keeps.refl (fp : Footprint) (s : Bncs) : fp.Keeps s s :=
  ⟨rfl, rfl, rfl, Or.inr rfl, Or.inr rfl, Or.inr rfl, Or.inr rfl, Or.inr rfl, Or.inr rfl⟩

namespace Bncs

variable {fp : Footprint} {s s' : Bncs} {cfg : ServerConfig} {frame : Frame}

theorem leaves_pure {step : Step} (h : fp.Keeps s s') :
    Handling.Leaves fp s (pure (step, s')) := h

theorem leaves_send (h : fp.Keeps s s') : (s'.send frame).Leaves fp s :=
  ⟨Or.inl rfl, fun _ _ => h⟩

/-- A request of the footprint and what follows it. -/
theorem leaves_ask {q : Request} {f : Reply q → Handling} (hq : fp.Asks q)
    (hf : ∀ answer, (f answer).Leaves fp s) : Handling.Leaves fp s (ask q >>= f) :=
  Asking.Within.ask hq hf

/-- A part of a handler that has no hold of the session, and what follows it. -/
theorem leaves_bind {α : Type} {x : Program α} {f : α → Handling} {post : α → Prop}
    (hx : x.Within fp.Asks post) (hf : ∀ value, post value → (f value).Leaves fp s) :
    Handling.Leaves fp s (x >>= f) := Asking.Within.bind hx hf

theorem asks_other {q : Request} (h : q.concern = .other) : fp.Asks q := Or.inl h

theorem asks_concern {q : Request} (h : q.concern = fp.concern) : fp.Asks q := Or.inr (Or.inl h)

theorem asks_listing {q : Request} (hlists : fp.lists = true) (h : q.concern = .listing) :
    fp.Asks q := Or.inr (Or.inr ⟨hlists, h⟩)

/-! ## The handshake -/

theorem firstServed_within (names : List Text) :
    (firstServed names).Within fp.Asks fun _ => True := by
  induction names with
  | nil => trivial
  | cons name names ih =>
    refine ⟨asks_other rfl, fun mtime _ => ?_⟩
    show Asking.Within fp.Asks _ (if _ then _ else _)
    split
    · trivial
    · exact ih

theorem versionMpq_within : s'.versionMpq.Within fp.Asks fun _ => True := by
  have hserved (name : Text) : (servedVersionMpq name).Within fp.Asks fun _ => True := by
    unfold servedVersionMpq
    split
    · trivial
    · exact Asking.keeps_bind.mpr ((firstServed_within _).mono fun _ _ _ => trivial)
  refine Asking.keeps_bind.mpr ((hserved _).mono fun mpq _ _ => ?_)
  exact ⟨asks_other rfl, fun _ _ => trivial⟩

theorem keeps_markNoUdp (h : fp.Keeps s s') (product : FourCc) :
    fp.Keeps s (s'.markNoUdp product) := by
  unfold markNoUdp
  split
  · exact ⟨h.peer, h.state, h.serverToken, h.client, h.version, h.keys, h.account, h.games, h.srp⟩
  · exact h

theorem authInfo_leaves :
    (s.authInfo cfg frame).Leaves { concern := .admission, client := true, version := true } s := by
  have hset (product platform : FourCc) (versionByte : UInt32) (client : ClientClass) :
      Footprint.Keeps { concern := .admission, client := true, version := true } s
        { s.withVersion platform product versionByte with client } :=
    ⟨rfl, rfl, rfl, Or.inl rfl, Or.inl rfl, Or.inr rfl, Or.inr rfl, Or.inr rfl, Or.inr rfl⟩
  unfold authInfo
  split
  · exact leaves_pure (.refl _ s)
  · rename_i platform product versionByte _
    refine leaves_ask (asks_concern rfl) fun moved => ?_
    cases moved with
    | error _ => exact leaves_pure (hset product platform versionByte s.client)
    | ok _ =>
      refine leaves_bind versionMpq_within fun _ _ => leaves_send ?_
      exact keeps_markNoUdp (hset product platform versionByte _) product

theorem startVersioning_leaves :
    (s.startVersioning frame).Leaves { version := true } s := by
  refine leaves_bind versionMpq_within fun _ _ => leaves_send ?_
  split
  · refine keeps_markNoUdp ?_ _
    exact ⟨rfl, rfl, rfl, Or.inr rfl, Or.inl rfl, Or.inr rfl, Or.inr rfl, Or.inr rfl, Or.inr rfl⟩
  · exact .refl _ s

theorem releaseKeys_within (hfp : fp.concern = .keys) (now : Nat) (keys : List KeyId) :
    (releaseKeys now keys).Within fp.Asks fun _ => True := by
  induction keys with
  | nil => trivial
  | cons key keys ih => exact ⟨asks_concern hfp.symm, fun _ _ => ih⟩

theorem claimKeys_leaves (now : Nat) (claimed left : List KeyId) :
    (s.claimKeys now claimed left).Leaves { concern := .keys, keys := true } s := by
  induction left generalizing claimed with
  | nil =>
    refine leaves_send ?_
    exact ⟨rfl, rfl, rfl, Or.inr rfl, Or.inr rfl, Or.inl rfl, Or.inr rfl, Or.inr rfl, Or.inr rfl⟩
  | cons key left ih =>
    refine leaves_ask (asks_concern rfl) fun verdict => ?_
    cases verdict with
    | ok => exact ih (claimed ++ [key])
    | inUse holder =>
      exact leaves_bind (releaseKeys_within rfl now claimed) fun _ _ => leaves_send (.refl _ s)
    | banned =>
      exact leaves_bind (releaseKeys_within rfl now claimed) fun _ _ => leaves_send (.refl _ s)

theorem authCheck_leaves :
    (s.authCheck cfg frame).Leaves { concern := .keys, keys := true } s := by
  unfold authCheck
  split
  · exact leaves_send (.refl _ s)
  · split
    · split
      · exact leaves_send (.refl _ s)
      · exact leaves_ask (asks_other rfl) fun now => claimKeys_leaves now [] _
    · exact leaves_send (.refl _ s)

theorem reportVersion_leaves : (s.reportVersion cfg).Leaves .light s := by
  unfold reportVersion
  split
  · exact leaves_send (.refl _ s)
  · exact leaves_send (.refl _ s)

/-! ## Logging on -/

theorem recordKeyHolderNames_within (name : Text) (keys : List KeyId) :
    (recordKeyHolderNames name keys).Within fp.Asks fun _ => True := by
  induction keys with
  | nil => trivial
  | cons key keys ih => exact ⟨asks_other rfl, fun _ _ => ih⟩

theorem finishLogon_within (account : Account) :
    (s.finishLogon account).Within fp.Asks fun s' =>
      Footprint.Keeps { account := true } s s' ∧ s'.account = some account := by
  refine Asking.keeps_bind.mpr ((recordKeyHolderNames_within _ _).mono fun _ _ _ => ?_)
  refine ⟨asks_other rfl, fun admin _ => ⟨asks_other rfl, fun flags _ => ⟨asks_other rfl,
    fun now _ => ⟨asks_other rfl, fun _ _ => ⟨asks_other rfl, fun displayName _ =>
      ⟨asks_other rfl, fun _ _ => ?_⟩⟩⟩⟩⟩⟩
  refine ⟨?_, rfl⟩
  exact ⟨rfl, rfl, rfl, Or.inr rfl, Or.inr rfl, Or.inr rfl, Or.inl rfl, Or.inr rfl, Or.inr rfl⟩

theorem checkLogon_within (replyId : UInt8) (request : LogonRequest) (found : Option Account) :
    (s.checkLogon replyId request found).Within fp.Asks fun r =>
      Footprint.Keeps { account := true } s r.2 := by
  unfold checkLogon
  split
  · exact .refl _ s
  · split
    · exact .refl _ s
    · split
      · refine ⟨asks_other rfl, fun banned _ => ?_⟩
        show Asking.Keeps _ _ (if _ then _ else _) _
        split
        · exact .refl _ s
        · exact Asking.keeps_bind.mpr ((finishLogon_within _).mono fun _ _ h => h.1)
      · exact .refl _ s

theorem logon_leaves (replyId : UInt8) :
    (s.logon frame replyId).Leaves { account := true } s := by
  unfold logon
  split
  · exact leaves_pure (.refl _ s)
  · refine leaves_ask (asks_other rfl) fun found => ?_
    exact leaves_bind (checkLogon_within replyId _ found) fun _ h => leaves_send h

theorem realmAccount_within (typed : List UInt8) :
    (realmAccount cfg typed).Within fp.Asks fun _ => True := by
  unfold realmAccount
  split
  · trivial
  · exact ⟨asks_other rfl, fun _ _ => trivial⟩

theorem authAccountLogon_leaves :
    (s.authAccountLogon cfg frame).Leaves { srp := true } s := by
  have hset (srp : Option SrpPending) : Footprint.Keeps { srp := true } s { s with srp } :=
    ⟨rfl, rfl, rfl, Or.inr rfl, Or.inr rfl, Or.inr rfl, Or.inr rfl, Or.inr rfl, Or.inl rfl⟩
  unfold authAccountLogon
  simp only []
  split
  · exact leaves_pure (.refl _ s)
  · refine leaves_bind (realmAccount_within _) fun found _ => ?_
    split
    · exact leaves_send (hset none)
    · split
      · exact leaves_send (hset none)
      · refine leaves_ask (asks_other rfl) fun b => leaves_ask (asks_other rfl) fun ended => ?_
        split
        · exact leaves_send (hset _)
        · exact leaves_pure (hset none)

theorem authAccountLogonProof_leaves :
    (s.authAccountLogonProof cfg frame).Leaves { account := true, srp := true } s := by
  have hset : Footprint.Keeps { account := true, srp := true } s { s with srp := none } :=
    ⟨rfl, rfl, rfl, Or.inr rfl, Or.inr rfl, Or.inr rfl, Or.inr rfl, Or.inr rfl, Or.inl rfl⟩
  unfold authAccountLogonProof
  split
  · exact leaves_pure (.refl _ s)
  · exact leaves_pure (.refl _ s)
  · refine leaves_ask (asks_other rfl) fun ended => ?_
    split
    · split
      · exact leaves_send hset
      · refine leaves_ask (asks_other rfl) fun banned => ?_
        split
        · exact leaves_send hset
        · refine leaves_bind (finishLogon_within _) fun s' h => leaves_send ?_
          exact ⟨h.1.peer, h.1.state, h.1.serverToken, h.1.client, h.1.version, h.1.keys,
            Or.inl rfl, h.1.games, Or.inl rfl⟩
    · exact leaves_pure hset

/-! ## Games -/

theorem readNumber_within (account : Text) (key : Storage.AttrKey) :
    (readNumber account key).Within fp.Asks fun _ => True := ⟨asks_other rfl, fun _ _ => trivial⟩

theorem normalWins_within (account : Text) :
    (s'.normalWins account).Within fp.Asks fun _ => True := by
  unfold normalWins
  split
  · trivial
  · exact Asking.keeps_bind.mpr ((readNumber_within _ _).mono fun _ _ _ => trivial)

theorem host_leaves (account : Account) (ad : Advertisement) :
    (s.host account ad).Leaves { concern := .hosting, games := true, lists := true } s := by
  refine leaves_ask (asks_other rfl) fun created => ?_
  refine leaves_ask (asks_listing rfl rfl) fun free => ?_
  split
  · split
    · exact leaves_send (.refl _ s)
    · refine leaves_ask (asks_other rfl) fun since => leaves_ask (asks_concern rfl) fun _ => ?_
      apply leaves_send
      exact ⟨rfl, rfl, rfl, Or.inr rfl, Or.inr rfl, Or.inr rfl, Or.inr rfl, Or.inl rfl, Or.inr rfl⟩
  · exact leaves_send (.refl _ s)

theorem advertise_leaves :
    (s.advertise cfg frame).Leaves { concern := .hosting, games := true, lists := true } s := by
  unfold advertise
  split
  · split
    · exact leaves_pure (.refl _ s)
    · exact leaves_pure (.refl _ s)
    · split
      · refine leaves_bind (normalWins_within _) fun wins _ => ?_
        split
        · exact leaves_send (.refl _ s)
        · exact host_leaves _ _
      · exact host_leaves _ _
  · exact leaves_send (.refl _ s)

theorem withdrawGame_within (hlists : fp.lists = true) :
    s'.withdrawGame.Within fp.Asks fun _ => True := by
  unfold withdrawGame
  split
  · exact ⟨asks_listing hlists rfl, fun _ _ => trivial⟩
  · trivial

theorem startGame_within (starts : Bool) : (s'.startGame starts).Within fp.Asks fun r =>
    Footprint.Keeps { games := true } s' r := by
  unfold startGame
  split
  · exact .refl _ s'
  · split
    · refine ⟨asks_other rfl, fun since _ => ⟨asks_other rfl, fun _ _ => ?_⟩⟩
      exact ⟨rfl, rfl, rfl, Or.inr rfl, Or.inr rfl, Or.inr rfl, Or.inr rfl, Or.inl rfl, Or.inr rfl⟩
    · exact .refl _ s'

theorem stopAdvertising_leaves (starts : Bool) :
    (s.stopAdvertising starts).Leaves { games := true, lists := true } s := by
  refine leaves_bind (withdrawGame_within rfl) fun _ _ => ?_
  refine leaves_bind (startGame_within starts) fun r h => leaves_pure ?_
  exact ⟨h.peer, h.state, h.serverToken, h.client, h.version, h.keys, h.account, Or.inl rfl, h.srp⟩

theorem notifyJoin_leaves :
    (s.notifyJoin frame).Leaves { games := true } s := by
  unfold notifyJoin
  split
  · exact leaves_pure (.refl _ s)
  · refine leaves_ask (asks_other rfl) fun since => leaves_pure ?_
    exact ⟨rfl, rfl, rfl, Or.inr rfl, Or.inr rfl, Or.inr rfl, Or.inr rfl, Or.inl rfl, Or.inr rfl⟩

theorem netGamePort_leaves : (s.netGamePort frame).Leaves .light s := by
  unfold netGamePort
  split
  · exact leaves_pure (.refl _ s)
  · apply leaves_pure
    exact ⟨rfl, rfl, rfl, Or.inr rfl, Or.inr rfl, Or.inr rfl, Or.inr rfl, Or.inr rfl, Or.inr rfl⟩

theorem opponentRatings_within (key : Storage.AttrKey) (own : Option Nat) (results : List UInt32)
    (i : Nat) (names : List Text) :
    (opponentRatings key own results i names).Within fp.Asks fun _ => True := by
  induction names generalizing i with
  | nil => trivial
  | cons name names ih =>
    unfold opponentRatings
    split
    · exact ih (i + 1)
    · refine Asking.keeps_bind.mpr ((readNumber_within _ _).mono fun _ _ _ => ?_)
      exact Asking.keeps_bind.mpr ((ih (i + 1)).mono fun _ _ _ => trivial)

theorem seatLasted_within (seat : GameSeat) :
    (s'.seatLasted seat).Within fp.Asks fun _ => True :=
  ⟨asks_other rfl, fun _ _ => ⟨asks_other rfl, fun _ _ => trivial⟩⟩

theorem recordResult_leaves (account : Account) (product : Text) (report : ResultReport) :
    (s.recordResult account product report).Leaves { concern := .results } s := by
  unfold recordResult
  split
  · exact leaves_pure (.refl _ s)
  · split
    · exact leaves_ask (asks_concern rfl) fun _ => leaves_pure (.refl _ s)
    · refine leaves_bind (normalWins_within _) fun wins _ => ?_
      split
      · exact leaves_pure (.refl _ s)
      · refine leaves_bind (opponentRatings_within _ _ _ _ _) fun ratings _ => ?_
        exact leaves_ask (asks_concern rfl) fun _ => leaves_pure (.refl _ s)

theorem gameResult_leaves :
    (s.gameResult cfg frame).Leaves { concern := .results } s := by
  unfold gameResult
  split
  · refine leaves_bind (seatLasted_within _) fun lasted _ => ?_
    split
    · exact leaves_pure (.refl _ s)
    · exact recordResult_leaves _ _ _
  · exact leaves_pure (.refl _ s)

theorem elsewhere_leaves : (s.elsewhere frame).Leaves .light s := by
  refine leaves_ask (asks_other rfl) fun _ => leaves_pure ?_
  exact ⟨rfl, rfl, rfl, Or.inr rfl, Or.inr rfl, Or.inr rfl, Or.inr rfl, Or.inr rfl, Or.inr rfl⟩

/-! ## Packets -/

def footprint (id : UInt8) : Footprint :=
  if id = Sid.authInfo then { concern := .admission, client := true, version := true }
  else if id = Sid.authCheck then { concern := .keys, keys := true }
  else if id = Sid.startVersioning then { version := true }
  else if id = Sid.logonResponse ∨ id = Sid.logonResponse2 then { account := true }
  else if id = Sid.authAccountLogon then { srp := true }
  else if id = Sid.authAccountLogonProof then { account := true, srp := true }
  else if id = Sid.startAdvEx3 then { concern := .hosting, games := true, lists := true }
  else if id = Sid.stopAdv ∨ id = Sid.leaveGame then { games := true, lists := true }
  else if id = Sid.notifyJoin then { games := true }
  else if id = Sid.gameResult then { concern := .results }
  else .light

/-- Who touches little keeps to every footprint. -/
theorem leaves_of_light {x : Handling} (h : x.Leaves .light s) : x.Leaves fp s := by
  have hasks (q : Request) (hq : Footprint.light.Asks q) : fp.Asks q := by
    rcases hq with hother | hother | ⟨hlists, _⟩
    · exact asks_other hother
    · exact asks_other hother
    · exact absurd hlists Bool.false_ne_true
  refine (h.imp hasks).mono fun r _ hr => ?_
  exact ⟨hr.peer, hr.state, hr.serverToken, Or.inr (hr.client.resolve_left Bool.false_ne_true),
    Or.inr (hr.version.resolve_left Bool.false_ne_true),
    Or.inr (hr.keys.resolve_left Bool.false_ne_true),
    Or.inr (hr.account.resolve_left Bool.false_ne_true),
    Or.inr (hr.games.resolve_left Bool.false_ne_true),
    Or.inr (hr.srp.resolve_left Bool.false_ne_true)⟩

theorem leaves_ite {id sid : UInt8} {x y : Handling} (hx : x.Leaves (footprint sid) s)
    (hy : y.Leaves (footprint id) s) : (if id = sid then x else y).Leaves (footprint id) s := by
  by_cases h : id = sid
  · rw [if_pos h, h]
    exact hx
  · rw [if_neg h]
    exact hy

theorem dispatch_leaves : (s.dispatch cfg frame).Leaves (footprint frame.id) s := by
  refine leaves_ite authInfo_leaves (leaves_ite authCheck_leaves ?_)
  refine leaves_ite startVersioning_leaves (leaves_ite reportVersion_leaves ?_)
  refine leaves_ite (logon_leaves _) (leaves_ite (logon_leaves _) ?_)
  refine leaves_ite authAccountLogon_leaves (leaves_ite authAccountLogonProof_leaves ?_)
  refine leaves_ite advertise_leaves (leaves_ite (stopAdvertising_leaves true) ?_)
  refine leaves_ite (stopAdvertising_leaves false) (leaves_ite notifyJoin_leaves ?_)
  refine leaves_ite netGamePort_leaves (leaves_ite gameResult_leaves ?_)
  split
  · exact leaves_of_light (leaves_pure (.refl _ s))
  · exact leaves_of_light elsewhere_leaves

theorem cleanup_within :
    s'.cleanup.Within (Footprint.Asks { concern := .keys, lists := true }) fun _ => True := by
  refine .ask (asks_other rfl) fun now => (releaseKeys_within rfl now _).bind fun _ _ => ?_
  refine (withdrawGame_within rfl).bind fun _ _ => ?_
  split
  · exact .ask (asks_other rfl) fun _ => ⟨asks_other rfl, fun _ _ => trivial⟩
  · trivial

/-! ## The state after a packet -/

/-- The session moves on, or stays as it is. -/
theorem advance_cases (s : Bncs) (id : UInt8) : s.advance id = s ∨
    ∃ next, SessionState.Moves id s.state next ∧ (next = .loggedIn → s.account.isSome) ∧
      s.advance id = { s with state := next } := by
  unfold advance
  split
  · exact Or.inl rfl
  · rename_i next hnext
    split
    · rename_i hallowed
      refine Or.inr ⟨next, SessionState.nextOnSuccess_cases hnext, fun hlogged => ?_, rfl⟩
      exact hallowed.resolve_left fun hne => hne hlogged
    · exact Or.inl rfl

/-- A move that is allowed. -/
theorem advance_of {id : UInt8} {next : SessionState} (h : s.state.nextOnSuccess id = some next)
    (hallowed : next ≠ .loggedIn ∨ s.account.isSome = true) :
    s.advance id = { s with state := next } := by
  unfold advance
  rw [h]
  exact if_pos hallowed

theorem authenticated_advance (h : s.state.authenticated = true) (id : UInt8) :
    (s.advance id).state.authenticated = true := by
  rcases s.advance_cases id with hsame | ⟨next, hmoves, _, hnext⟩
  · rw [hsame]
    exact h
  · rw [hnext]
    exact hmoves.stays_authenticated h

theorem advance_fields (s : Bncs) (id : UInt8) : (s.advance id).account = s.account ∧
    (s.advance id).serverToken = s.serverToken ∧ (s.advance id).srp = s.srp := by
  rcases s.advance_cases id with hsame | ⟨next, _, _, hnext⟩
  · rw [hsame]
    exact ⟨rfl, rfl, rfl⟩
  · rw [hnext]
    exact ⟨rfl, rfl, rfl⟩

theorem handle_peer (s : Bncs) (frame : Frame) :
    (s.handle cfg frame).Within (fun _ => True) fun r => r.2.peer = s.peer := by
  have hleaves : (s.dispatch cfg frame).Within (footprint frame.id).Asks
      fun r => (footprint frame.id).Keeps s r.2 := dispatch_leaves
  refine hleaves.any.bind fun r hr => ?_
  obtain ⟨step, s'⟩ := r
  show (if step = .continue then s'.advance frame.id else s').peer = s.peer
  split
  · rcases s'.advance_cases frame.id with hsame | ⟨next, _, _, hnext⟩
    · rw [hsame]
      exact hr.peer
    · rw [hnext]
      exact hr.peer
  · exact hr.peer

theorem footprint_version {id : UInt8} (h : ¬ SessionState.Opener id) :
    (footprint id).version = false := by
  unfold footprint
  split_ifs with h₁ h₂ h₃
  · exact absurd (Or.inl h₁) h
  · rfl
  · exact absurd (Or.inr h₃) h
  all_goals rfl

theorem footprint_admission {id : UInt8} (h : id ≠ Sid.authInfo) :
    (footprint id).concern ≠ .admission ∧ (footprint id).client = false := by
  unfold footprint
  split_ifs
  all_goals first | contradiction | exact ⟨Concern.noConfusion, rfl⟩

/-- Only hosting and reporting ask about games. -/
theorem footprint_concern {id : UInt8} (h : id ≠ Sid.startAdvEx3) (h' : id ≠ Sid.gameResult) :
    (footprint id).concern ≠ .hosting ∧ (footprint id).concern ≠ .results := by
  unfold footprint
  split_ifs
  all_goals first | contradiction | exact ⟨Concern.noConfusion, Concern.noConfusion⟩

theorem footprint_games {id : UInt8} (h : id ≠ Sid.startAdvEx3)
    (h' : id ∉ [Sid.stopAdv, Sid.leaveGame, Sid.notifyJoin]) : (footprint id).games = false := by
  rw [List.mem_cons, List.mem_cons, List.mem_singleton, not_or, not_or] at h'
  have hstop : ¬ (id = Sid.stopAdv ∨ id = Sid.leaveGame) := fun hid => hid.elim h'.1 h'.2.1
  have hjoin : ¬ id = Sid.notifyJoin := h'.2.2
  unfold footprint
  split_ifs
  all_goals first | contradiction | rfl

theorem footprint_listing {id : UInt8} (h : id ≠ Sid.startAdvEx3)
    (h' : ¬ (id = Sid.stopAdv ∨ id = Sid.leaveGame)) :
    (footprint id).concern ≠ .listing ∧ (footprint id).lists = false := by
  unfold footprint
  split_ifs
  all_goals first | contradiction | exact ⟨Concern.noConfusion, rfl⟩

theorem footprint_account {id : UInt8} (h : ¬ SessionState.Logon id) :
    (footprint id).account = false := by
  unfold SessionState.Logon at h
  unfold footprint
  split_ifs with h₁ h₂ h₃ h₄ h₅ h₆
  · rfl
  · rfl
  · rfl
  · exact absurd (h₄.imp_right Or.inl) h
  · rfl
  · exact absurd (Or.inr (Or.inr h₆)) h
  all_goals rfl

theorem advance_logon (h : s.state = .authenticating) {id : UInt8} (hid : SessionState.Logon id)
    (haccount : s.account.isSome = true) : s.advance id = { s with state := .loggedIn } := by
  refine advance_of ?_ (Or.inr haccount)
  rw [h]
  exact if_pos hid

/-- A session without an account before the logon has none after a packet, unless it is logged
on. -/
theorem advance_account {id : UInt8} {s' : Bncs} (haccepts : s.state.accepts id = true)
    (hkeeps : (footprint id).Keeps s s')
    (hnone : s.state.authenticated = false → s.account = none)
    (hnot : (s'.advance id).state.authenticated = false) : (s'.advance id).account = none := by
  rw [(s'.advance_fields id).1]
  by_cases hlogon : SessionState.Logon id
  · by_contra hsome
    have hstate : s'.state = .authenticating := by
      rw [hkeeps.state, SessionState.accepts_logon haccepts hlogon]
    rw [advance_logon hstate hlogon (Option.isSome_iff_ne_none.mpr hsome)] at hnot
    cases hnot
  · rw [hkeeps.account.resolve_left (by rw [footprint_account hlogon]; exact Bool.false_ne_true)]
    apply hnone
    rw [Bool.eq_false_iff]
    intro hauthenticated
    rw [← hkeeps.state] at hauthenticated
    rw [authenticated_advance hauthenticated] at hnot
    cases hnot

theorem footprint_srp {id : UInt8} (h : id ≠ Sid.authAccountLogon)
    (h' : id ≠ Sid.authAccountLogonProof) : (footprint id).srp = false := by
  unfold footprint
  split_ifs
  all_goals rfl

theorem footprint_keys {id : UInt8} (h : id ≠ Sid.authCheck) : (footprint id).keys = false := by
  unfold footprint
  split_ifs
  all_goals rfl

end Bncs

end CommandCenter.Daemon
