import CommandCenter.Daemon.ServerParts

/-!
# What a logon proves

An X-SHA-1 logon is checked with a server token. `SID_LOGONRESPONSE2` takes the session's own,
so that an accepted proof is an answer to this session. `SID_LOGONRESPONSE` takes the one that the
client sends, and a session that opened with `SID_AUTH_INFO` accepts that packet too.

* `Bncs.dispatch_account`: how a packet can set the account of a session.
* `Bncs.Proven`: the proof that was accepted answers the session's own token.
* `proving_sound`: the invariant, where tokens are echoed faithfully.
* `proof_not_replayed`: every accepted proof answers the token of its own session.
-/

namespace CommandCenter.Daemon

open Rust CommandCenter.Core Proto Library Crypto
open Storage (Account)

namespace Bncs

variable {cfg : ServerConfig} {s : Bncs} {frame : Frame}

/-! ## How the account is set -/

/-- An NLS logon under way is not that of an X-SHA-1 account. -/
def SrpBound (s : Bncs) : Prop := ∀ p ∈ s.srp, ∀ digest, p.account.credential ≠ .xsha1 digest

/-- The account of an X-SHA-1 credential comes with a proof for the token it was checked with. -/
def Proves (s : Bncs) (replyId : UInt8) (request : LogonRequest) (account : Account) : Prop :=
  ∀ digest, account.credential = .xsha1 digest →
    request.proof = logonProof request.clientToken (s.logonToken replyId request) digest

theorem SrpBound.of_eq {s' : Bncs} (h : s.SrpBound) (hsrp : s'.srp = s.srp) : s'.SrpBound := by
  unfold SrpBound
  rw [hsrp]
  exact h

theorem finishLogon_account (account : Account) :
    (s.finishLogon account).Within (fun _ => True) fun s' =>
      s'.account = some account ∧ s'.srp = s.srp := by
  have hwithin : (s.finishLogon account).Within Footprint.light.Asks _ := finishLogon_within account
  refine hwithin.any.mono fun s' _ hs' => ⟨hs'.2, ?_⟩
  exact hs'.1.srp.resolve_left Bool.false_ne_true

theorem checkLogon_proves (replyId : UInt8) (request : LogonRequest) (found : Option Account) :
    (s.checkLogon replyId request found).Within (fun _ => True) fun r =>
      r.2.account = s.account ∨
        ∃ account, r.2.account = some account ∧ s.Proves replyId request account := by
  unfold checkLogon
  split
  · exact Or.inl rfl
  · rename_i account
    split
    · exact Or.inl rfl
    · rename_i digest hcredential
      split
      · rename_i hmatch
        refine .ask trivial fun banned => ?_
        split
        · exact Or.inl rfl
        · refine (finishLogon_account account).bind fun s' hs' => Or.inr ⟨account, hs'.1, ?_⟩
          intro digest' hdigest'
          obtain rfl : digest = digest' :=
            Storage.Credential.xsha1.inj (hcredential.symm.trans hdigest')
          exact proofsMatch_iff.mp hmatch
      · exact Or.inl rfl

theorem logon_proves (replyId : UInt8) :
    (s.logon frame replyId).Within (fun _ => True) fun r => r.2.account = s.account ∨
      ∃ account request, r.2.account = some account ∧ readLogon.read frame = .ok request ∧
        s.Proves replyId request account := by
  unfold logon
  split
  · exact Or.inl rfl
  · rename_i request hread
    refine .ask trivial fun found => (checkLogon_proves replyId request found).bind fun r hr => ?_
    refine .ask trivial fun queued => ?_
    rcases hr with hsame | ⟨account, haccount, hproves⟩
    · exact Or.inl hsame
    · exact Or.inr ⟨account, request, haccount, hread, hproves⟩

theorem authAccountLogon_bound (hbound : s.SrpBound) :
    (s.authAccountLogon cfg frame).Within (fun _ => True) fun r => r.2.SrpBound := by
  have hnone : Bncs.SrpBound { s with srp := none } := by
    rintro _ ⟨⟩
  unfold authAccountLogon
  simp only []
  split
  · exact hbound
  · have hwithin (typed : List UInt8) :
        (realmAccount cfg typed).Within Footprint.light.Asks fun _ => True :=
      realmAccount_within typed
    refine (hwithin _).any.bind fun found _ => ?_
    split
    · exact .ask trivial fun _ => hnone
    · split
      · exact .ask trivial fun _ => hnone
      · rename_i hcredential
        refine .ask trivial fun b => .ask trivial fun ended => ?_
        split
        · refine .ask trivial fun _ => ?_
          rintro _ ⟨⟩ digest hdigest
          exact absurd (hcredential.symm.trans hdigest) Storage.Credential.noConfusion
        · exact hnone

theorem authAccountLogonProof_account :
    (s.authAccountLogonProof cfg frame).Within (fun _ => True) fun r =>
      (r.2.srp = none ∨ r.2.srp = s.srp) ∧
        (r.2.account = s.account ∨ ∃ p ∈ s.srp, r.2.account = some p.account) := by
  unfold authAccountLogonProof
  split
  · exact ⟨Or.inr rfl, Or.inl rfl⟩
  · exact ⟨Or.inr rfl, Or.inl rfl⟩
  · rename_i p _ hp
    refine .ask trivial fun ended => ?_
    split
    · split
      · exact .ask trivial fun _ => ⟨Or.inl rfl, Or.inl rfl⟩
      · refine .ask trivial fun banned => ?_
        split
        · exact .ask trivial fun _ => ⟨Or.inl rfl, Or.inl rfl⟩
        · refine (finishLogon_account p.account).bind fun s' hs' => .ask trivial fun _ => ?_
          exact ⟨Or.inl hs'.2, Or.inr ⟨p, hp, hs'.1⟩⟩
    · exact ⟨Or.inl rfl, Or.inl rfl⟩

/-- The packets that carry an X-SHA-1 proof. -/
def XSha1Logon (id : UInt8) : Prop := id = Sid.logonResponse ∨ id = Sid.logonResponse2

instance (id : UInt8) : Decidable (XSha1Logon id) := inferInstanceAs (Decidable (_ ∨ _))

/-- How a packet leaves the account. An X-SHA-1 account comes by a packet that proves it. -/
structure Accounted (s : Bncs) (frame : Frame) (s' : Bncs) : Prop where
  bound : s'.SrpBound
  account : s'.account = s.account ∨ ∃ account, s'.account = some account ∧
    SessionState.Logon frame.id ∧ ∀ digest, account.credential = .xsha1 digest →
      XSha1Logon frame.id ∧ ∃ request, readLogon.read frame = .ok request ∧
        s.Proves frame.id request account

theorem dispatch_account (hbound : s.SrpBound) :
    (s.dispatch cfg frame).Within (fun _ => True) fun r => s.Accounted frame r.2 := by
  have hleaves : (s.dispatch cfg frame).Within (footprint frame.id).Asks
      fun r => (footprint frame.id).Keeps s r.2 := dispatch_leaves
  by_cases hxsha1 : XSha1Logon frame.id
  · have hdispatch : s.dispatch cfg frame = s.logon frame frame.id := by
      rcases hxsha1 with hid | hid
      · rw [dispatch, hid, if_neg (by decide), if_neg (by decide), if_neg (by decide),
          if_neg (by decide), if_pos rfl]
      · rw [dispatch, hid, if_neg (by decide), if_neg (by decide), if_neg (by decide),
          if_neg (by decide), if_neg (by decide), if_pos rfl]
    rw [hdispatch] at hleaves ⊢
    refine (hleaves.any.and (logon_proves frame.id)).mono fun r _ hr => ⟨?_, ?_⟩
    · refine hbound.of_eq (hr.1.srp.resolve_left ?_)
      rcases hxsha1 with hid | hid <;> rw [hid] <;> decide
    · refine hr.2.imp_right ?_
      rintro ⟨account, request, haccount, hread, hproves⟩
      refine ⟨account, haccount, hxsha1.imp_right Or.inl, fun digest hdigest => ?_⟩
      exact ⟨hxsha1, request, hread, hproves⟩
  by_cases hproof : frame.id = Sid.authAccountLogonProof
  · have hdispatch : s.dispatch cfg frame = s.authAccountLogonProof cfg frame := by
      rw [dispatch, hproof, if_neg (by decide), if_neg (by decide), if_neg (by decide),
        if_neg (by decide), if_neg (by decide), if_neg (by decide), if_neg (by decide), if_pos rfl]
    rw [hdispatch]
    refine authAccountLogonProof_account.mono fun r _ hr => ⟨?_, ?_⟩
    · rcases hr.1 with hnone | hsame
      · rintro p hp
        rw [hnone] at hp
        cases hp
      · exact hbound.of_eq hsame
    · refine hr.2.imp_right ?_
      rintro ⟨p, hp, haccount⟩
      refine ⟨p.account, haccount, Or.inr (Or.inr hproof), fun digest hdigest => ?_⟩
      exact absurd hdigest (hbound p hp digest)
  have haccount {s' : Bncs} (hkeeps : (footprint frame.id).Keeps s s') :
      s'.account = s.account := by
    refine hkeeps.account.resolve_left ?_
    rw [footprint_account fun h => ?_]
    · exact Bool.false_ne_true
    · rcases h with h | h | h
      · exact hxsha1 (Or.inl h)
      · exact hxsha1 (Or.inr h)
      · exact hproof h
  by_cases hchallenge : frame.id = Sid.authAccountLogon
  · have hdispatch : s.dispatch cfg frame = s.authAccountLogon cfg frame := by
      rw [dispatch, hchallenge, if_neg (by decide), if_neg (by decide), if_neg (by decide),
        if_neg (by decide), if_neg (by decide), if_neg (by decide), if_pos rfl]
    rw [hdispatch] at hleaves ⊢
    exact (hleaves.any.and (authAccountLogon_bound hbound)).mono fun r _ hr =>
      ⟨hr.2, Or.inl (haccount hr.1)⟩
  · refine hleaves.any.mono fun r _ hr => ⟨?_, Or.inl (haccount hr)⟩
    refine hbound.of_eq (hr.srp.resolve_left ?_)
    rw [footprint_srp hchallenge hproof]
    exact Bool.false_ne_true

end Bncs

/-! ## The logon of a session -/

/-- The session opened with `SID_AUTH_INFO`, so that it was sent its server token. -/
def Opened (log : List Entry) : Prop := ∃ frame ∈ taken log, frame.id = Sid.authInfo

instance (log : List Entry) : Decidable (Opened log) :=
  inferInstanceAs (Decidable (∃ frame ∈ taken log, frame.id = Sid.authInfo))

/-- The last packet with an X-SHA-1 proof. -/
def lastLogon (log : List Entry) : Option Frame :=
  (taken log).reverse.find? fun frame => Bncs.XSha1Logon frame.id

theorem lastLogon_took (log : List Entry) (frame : Frame) :
    lastLogon (log ++ [.took frame]) =
      if Bncs.XSha1Logon frame.id then some frame else lastLogon log := by
  unfold lastLogon
  rw [taken_took, List.reverse_append, List.reverse_singleton, List.singleton_append,
    List.find?_cons]
  by_cases h : Bncs.XSha1Logon frame.id
  · rw [if_pos h, decide_eq_true h]
  · rw [if_neg h, decide_eq_false h]

/-- The accepted proof answers the session's own token. -/
def Bncs.Proven (s : Bncs) (log : List Entry) : Prop :=
  ∀ account digest, s.account = some account → account.credential = .xsha1 digest →
    ∃ frame request, lastLogon log = some frame ∧ readLogon.read frame = .ok request ∧
      request.proof = logonProof request.clientToken s.serverToken digest

namespace Bncs

variable {cfg : ServerConfig} {s s' : Bncs} {log log' : List Entry} {frame : Frame}

theorem proven_of_none (h : s.account = none) : s.Proven log := by
  intro account digest haccount
  rw [h] at haccount
  cases haccount

theorem Proven.of_eq (h : s.Proven log) (haccount : s'.account = s.account)
    (htoken : s'.serverToken = s.serverToken) (hlast : lastLogon log' = lastLogon log) :
    s'.Proven log' := by
  unfold Proven
  rw [haccount, htoken, hlast]
  exact h

end Bncs

/-- What the account of a session has behind it. -/
def proving : Contract where
  asks _ _ _ := True
  answers _ _ _ := True
  inv s log := s.SrpBound ∧ (s.state.authenticated = false → s.account = none) ∧
    (Opened log → s.Proven log)
  during s log := Opened log → s.Proven log
  left _ := True

/-- A session that was sent its token is sent it back. -/
def Bncs.Echoes (s : Bncs) (log : List Entry) (frame : Frame) : Prop :=
  frame.id = Sid.logonResponse → Opened log →
    ∀ request ∈ (readLogon.read frame).toOption, request.serverToken = s.serverToken

theorem opened_of_took {log : List Entry} {frame : Frame} (h : Opened (log ++ [.took frame]))
    (hid : frame.id ≠ Sid.authInfo) : Opened log := by
  obtain ⟨frame', hmem, hid'⟩ := h
  rcases mem_taken_took.mp hmem with hold | rfl
  · exact ⟨frame', hold, hid'⟩
  · exact absurd hid' hid

theorem proving_takes {s : Bncs} {log : List Entry} {frame : Frame} (hinv : proving.inv s log)
    (haccepts : s.state.accepts frame.id = true) : proving.during s (log ++ [.took frame]) := by
  obtain ⟨_, hnone, hproven⟩ := hinv
  intro hopened
  by_cases hauthenticated : s.state.authenticated = true
  · have hopener : frame.id ≠ Sid.authInfo := fun hid => by
      rw [SessionState.accepts_opener haccepts (Or.inl hid)] at hauthenticated
      cases hauthenticated
    have hlogon : ¬ Bncs.XSha1Logon frame.id := fun hid => by
      rw [SessionState.accepts_logon haccepts (hid.imp_right Or.inl)] at hauthenticated
      cases hauthenticated
    refine (hproven (opened_of_took hopened hopener)).of_eq rfl rfl ?_
    rw [lastLogon_took, if_neg hlogon]
  · exact Bncs.proven_of_none (hnone (Bool.eq_false_iff.mpr hauthenticated))

theorem proving_sound (cfg : ServerConfig) : proving.Sound Bncs.Echoes cfg where
  starts _ _ := by
    refine ⟨?_, fun _ => rfl, fun _ => Bncs.proven_of_none rfl⟩
    rintro _ ⟨⟩
  takes := proving_takes
  handles := by
    intro s log frame hinv haccepts hechoes
    apply Contract.keeps_handle
    have htakes := proving_takes hinv haccepts
    obtain ⟨hbound, hnone, _⟩ := hinv
    have hkeeps := proving.keeps_dispatch cfg s (fun _ _ => trivial) frame (log ++ [.took frame])
    have haccounted : (s.dispatch cfg frame).Keeps (proving.watch s)
        (fun r _ => s.Accounted frame r.2) (log ++ [.took frame]) :=
      (Bncs.dispatch_account hbound).follow fun _ _ _ => trivial
    refine (hkeeps.and haccounted).mono fun r log' hr => ?_
    obtain ⟨⟨hkeeps, _, htaken⟩, haccounted⟩ := hr
    have hlast : lastLogon log' = lastLogon (log ++ [.took frame]) := by
      unfold lastLogon
      rw [htaken]
    have hproven : Opened log' → r.2.Proven log' := by
      intro hopened
      have hopened : Opened (log ++ [.took frame]) := by
        unfold Opened at hopened ⊢
        rwa [htaken] at hopened
      rcases haccounted.account with hsame | ⟨account, haccount, hlogon, hproves⟩
      · exact (htakes hopened).of_eq hsame hkeeps.serverToken hlast
      · intro account' digest haccount' hdigest
        obtain rfl : account = account' := Option.some.inj (haccount.symm.trans haccount')
        obtain ⟨hid, request, hread, hproof⟩ := hproves digest hdigest
        refine ⟨frame, request, ?_, hread, ?_⟩
        · rw [hlast, lastLogon_took, if_pos hid]
        · rw [hkeeps.serverToken, hproof digest hdigest, Bncs.logonToken]
          split
          · rename_i hlegacy
            have hopened := opened_of_took hopened (by rw [hlegacy]; decide)
            rw [hechoes hlegacy hopened request (by rw [hread]; rfl)]
          · rfl
    refine ⟨fun _ => ?_, fun _ => Contract.leaving_of_during (fun _ _ _ => trivial)
      (fun _ => trivial) hproven⟩
    obtain ⟨haccount, htoken, hsrp⟩ := r.2.advance_fields frame.id
    refine ⟨haccounted.bound.of_eq hsrp, fun hnot => ?_, fun hopened => ?_⟩
    · exact Bncs.advance_account haccepts hkeeps hnone hnot
    · exact (hproven hopened).of_eq haccount htoken rfl
  notes := by
    intro s log q answer hduring _ _
    unfold proving Opened Bncs.Proven lastLogon at hduring ⊢
    dsimp only at hduring ⊢
    rw [taken_asked]
    exact hduring
  leaves := by
    intro s log state hinv _
    exact Contract.leaving_of_during (fun _ _ _ => trivial) (fun _ => trivial) hinv.2.2

namespace Server

instance Echoes.decidable (s : Bncs) (log : List Entry) (frame : Frame) :
    Decidable (s.Echoes log frame) :=
  inferInstanceAs (Decidable (frame.id = Sid.logonResponse → Opened log →
    ∀ request ∈ (Bncs.readLogon.read frame).toOption, request.serverToken = s.serverToken))

/-- A `SID_LOGONRESPONSE` in a session that was sent its token comes with that token. -/
def Echoing (v : Server) : Event → Prop
  | .frame i frame => ∀ s ∈ v.taking i frame, s.Echoes (v.log i) frame
  | _ => True

instance Echoing.decidable (v : Server) (event : Event) : Decidable (v.Echoing event) :=
  match event with
  | .frame i frame => inferInstanceAs (Decidable (∀ s ∈ v.taking i frame, s.Echoes (v.log i) frame))
  | .accepts _ _ _ _ _ | .turn _ _ | .hangUp _ => .isTrue trivial

/-- Every account of an X-SHA-1 credential was proven to its own session. -/
def Proving (v : Server) : Prop :=
  ∀ i s, v.session i = some s → Opened (v.log i) → s.Proven (v.log i)

/-- A session that was sent its token is logged on by a request. -/
structure LoggedOn (v : Server) (i : ConnId) (digest : Bytes proofLen)
    (request : Bncs.LogonRequest) (s : Bncs) : Prop where
  session : v.session i = some s
  opened : Opened (v.log i)
  account : ∃ account, s.account = some account ∧ account.credential = .xsha1 digest
  request : ∃ frame, lastLogon (v.log i) = some frame ∧ Bncs.readLogon.read frame = .ok request

theorem LoggedOn.proof {v : Server} (hv : v.Proving) {i : ConnId} {digest : Bytes proofLen}
    {request : Bncs.LogonRequest} {s : Bncs} (h : v.LoggedOn i digest request s) :
    request.proof = logonProof request.clientToken s.serverToken digest := by
  obtain ⟨account, haccount, hdigest⟩ := h.account
  obtain ⟨frame, hlast, hread⟩ := h.request
  obtain ⟨frame', request', hlast', hread', hproof⟩ :=
    hv i s h.session h.opened account digest haccount hdigest
  obtain rfl : frame = frame' := Option.some.inj (hlast.symm.trans hlast')
  obtain rfl : request = request' := Except.ok.inj (hread.symm.trans hread')
  exact hproof

/-- **A logon proof cannot be replayed**, where tokens are echoed faithfully: in every session
that opened with `SID_AUTH_INFO`, the accepted proof is the one for the session's own token, so
that of two sessions, at any two moments, that accepted one proof the tokens are the same. -/
theorem proof_not_replayed (cfg : ServerConfig) (keys : KeyRegistry)
    (keyHolderNames : Map KeyId Text) (events : List Event)
    (h : Along (step cfg) Echoing (.new cfg keys keyHolderNames) events) :
    Always (step cfg) Proving (.new cfg keys keyHolderNames) events ∧
      ∀ m n i j digest request request' s s',
        (run (step cfg) (.new cfg keys keyHolderNames) (events.take m)).LoggedOn i digest
          request s →
        (run (step cfg) (.new cfg keys keyHolderNames) (events.take n)).LoggedOn j digest
          request' s' →
        request'.clientToken = request.clientToken → request'.proof = request.proof →
        Function.Injective (fun token => logonProof request.clientToken token digest) →
        s'.serverToken = s.serverToken := by
  have hmeets : Along (step cfg) (proving.Meets Bncs.Echoes cfg)
      (.new cfg keys keyHolderNames) events := by
    refine Along.imp (fun v event hevent => ?_) h
    cases event with
    | frame i frame => exact hevent
    | turn i others => exact fun _ _ => trivial
    | accepts _ _ _ _ _ | hangUp _ => trivial
  have halways : Always (step cfg) Proving (.new cfg keys keyHolderNames) events :=
    ((proving_sound cfg).always hmeets).imp fun v hv i s hsession =>
      (proving_sound cfg).during_session (hv i) hsession
  refine ⟨halways, ?_⟩
  intro m n i j digest request request' s s' hfirst hsecond htoken hproof hinjective
  have hanswers : logonProof request.clientToken s'.serverToken digest =
      logonProof request.clientToken s.serverToken digest := calc
    _ = request'.proof := by rw [hsecond.proof (halways.take n), htoken]
    _ = request.proof := hproof
    _ = _ := hfirst.proof (halways.take m)
  exact hinjective hanswers

/-- A client with a token, and then its logon with a server token of its own choice. -/
def opensAndLogsOn (packet : UInt8) (token echo : UInt32) : List Event :=
  .accepts 0 0x01 (.v4 1) false token :: exchange alice 0 (authInfoFrame Product.star) ++
    exchange alice 0 ⟨Sid.authCheck, []⟩ ++ exchange alice 0 ⟨packet, logonBody echo⟩

theorem proof_not_replayed_seven :
    Always (step .lenient) Proving (.new .lenient (.new 500) ∅)
      (opensAndLogsOn Sid.logonResponse 7 7) := by
  refine (proof_not_replayed _ _ _ _ ?_).1
  decide +kernel

/-- A session with the token 7 accepts a proof for the token 0. -/
theorem proof_replayed : ¬ ∀ cfg keys keyHolderNames events,
    Always (step cfg) Proving (.new cfg keys keyHolderNames) events := by
  intro h
  let v := run (step .lenient) (.new .lenient (.new 500) ∅) (opensAndLogsOn Sid.logonResponse 7 0)
  have hproving : v.Proving := (h _ _ _ _).last
  have hloggedOn : (v.session 0).map (fun s => (s.account, s.serverToken)) =
      some (some alice, 7) := by decide +kernel
  obtain ⟨s, hs, hfacts⟩ := Option.map_eq_some_iff.mp hloggedOn
  obtain ⟨haccount, htoken⟩ := Prod.mk.inj hfacts
  obtain ⟨frame, request, hlast, hread, hproof⟩ :=
    hproving 0 s hs (by decide +kernel) alice (.replicate 20 0) haccount rfl
  have hframe : lastLogon (v.log 0) = some ⟨Sid.logonResponse, logonBody 0⟩ := by decide +kernel
  obtain rfl : _ = frame := Option.some.inj (hframe.symm.trans hlast)
  have hwrong : ((Bncs.readLogon.read ⟨Sid.logonResponse, logonBody 0⟩).toOption.map fun request =>
      decide (request.proof = logonProof request.clientToken 7 (.replicate 20 0))) =
        some false := by
    decide +kernel
  rw [hread] at hwrong
  rw [htoken] at hproof
  simp [hproof, Except.toOption] at hwrong

end Server

end CommandCenter.Daemon
