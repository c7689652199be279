import CommandCenter.Core.KeyClaims
import CommandCenter.Daemon.ServerParts

/-!
# The version gate

A session that is past its version step has passed it, if no step was refused: the handlers of
`SID_AUTH_CHECK` and `SID_REPORTVERSION` go on after a refusal as after a success, and the state
machine moves on all the same.

* `Bncs.Passed`: what a session went through whose version step was answered with success.
* `Bncs.authCheck_passes`, `Bncs.reportVersion_passes`: a version step that is not refused.
* `gate_sound`: the invariant, in a run without a refusal.
* `refused_never_logs_on`: what a session has behind it that is logged on.
-/

namespace CommandCenter.Daemon

open Rust CommandCenter.Core Proto Library

namespace Bncs

/-- The policy allows what the session said it is. -/
def allowed (cfg : ServerConfig) (s : Bncs) : Bool :=
  match s.version with
  | (some product, some platform, some versionByte) =>
    cfg.versionPolicy.allows product platform versionByte
  | _ => false

/-- The session claimed a key, and has it. -/
def Claimed (s : Bncs) (key : KeyId) (log : List Entry) : Prop :=
  key ∈ s.claimedKeys ∧ ∃ now, Entry.asked (.claimKey key now) KeyClaim.ok ∈ log

/-- What a session has behind it whose version step was answered with success. -/
structure Passed (cfg : ServerConfig) (s : Bncs) (log : List Entry) : Prop where
  allowed : s.allowed cfg = true
  stepped : ∃ frame ∈ taken log, SessionState.VersionStep frame.id
  authCheck : ∀ frame ∈ taken log, frame.id = Sid.authCheck →
    Entry.asked (.sendFrame authCheckPassed) true ∈ log ∧
      (cfg.cdKeyUniqueness = true → ∀ keys, authCheckKeys.read frame = .ok keys →
        ∀ key ∈ keys, s.Claimed key log)
  reportVersion : ∀ frame ∈ taken log, frame.id = Sid.reportVersion →
    Entry.asked (.sendFrame (reportVersionReply 2)) true ∈ log

variable {cfg : ServerConfig} {s s' : Bncs} {log log' : List Entry} {frame : Frame}

theorem refused_eq_false (h : s.allowed cfg = true) : s.refused cfg = false := by
  unfold allowed version at h
  unfold refused
  split at h
  · rename_i hversion
    obtain ⟨hproduct, hrest⟩ := Prod.mk.inj hversion
    obtain ⟨hplatform, hversionByte⟩ := Prod.mk.inj hrest
    simp only [hproduct, hplatform, hversionByte, h, Bool.not_true]
  · exact absurd h Bool.false_ne_true

theorem Claimed.mono {key : KeyId} (h : s.Claimed key log) (hkeys : s'.claimedKeys = s.claimedKeys)
    (hlog : log ⊆ log') : s'.Claimed key log' :=
  ⟨hkeys ▸ h.1, h.2.imp fun _ hmem => hlog hmem⟩

/-- What a session has behind it stays there. -/
theorem Passed.mono (h : s.Passed cfg log) (hversion : s'.version = s.version)
    (hkeys : s'.claimedKeys = s.claimedKeys) (hlog : log ⊆ log')
    (htaken : ∀ frame ∈ taken log', SessionState.VersionStep frame.id → frame ∈ taken log)
    (hold : taken log ⊆ taken log') : s'.Passed cfg log' where
  allowed := by
    unfold Bncs.allowed
    rw [hversion]
    exact h.allowed
  stepped := h.stepped.imp fun _ hframe => ⟨hold hframe.1, hframe.2⟩
  authCheck := by
    intro frame hframe hid
    obtain ⟨hsent, hclaimed⟩ := h.authCheck frame (htaken frame hframe (Or.inl hid)) hid
    refine ⟨hlog hsent, fun hunique keys hread key hkey => ?_⟩
    exact (hclaimed hunique keys hread key hkey).mono hkeys hlog
  reportVersion frame hframe hid :=
    hlog (h.reportVersion frame (htaken frame hframe (Or.inr hid)) hid)

end Bncs

/-! ## A version step that is not refused -/

/-- The CD key that a request is for, and when. -/
def Request.claim : Request → Option (KeyId × Nat)
  | .claimKey key now => some (key, now)
  | _ => none

/-- A CD key that is asked for is given. -/
def Request.Granted : (q : Request) → Reply q → Prop
  | .claimKey _ _, verdict => verdict = KeyClaim.ok
  | _, _ => True

/-- What a session that is past its version step has behind it. -/
def gate (cfg : ServerConfig) : Contract where
  asks _ _ _ := True
  answers _ := Request.Granted
  inv s log := (s.state.versioned = true → s.Passed cfg log) ∧
    (s.state.versioned = false → ∀ frame ∈ taken log, ¬ SessionState.VersionStep frame.id)
  during s log := s.state.versioned = true → s.Passed cfg log
  left _ := True

namespace Bncs

variable {cfg : ServerConfig} {s : Bncs} {log : List Entry} {frame : Frame}

theorem claimKeys_passes (now : Nat) (claimed left : List KeyId)
    (hclaimed : ∀ key ∈ claimed, ∃ now, Entry.asked (.claimKey key now) KeyClaim.ok ∈ log) :
    (s.claimKeys now claimed left).Keeps ((gate cfg).watch s)
      (fun r log' => r.1 = .continue → Entry.asked (.sendFrame authCheckPassed) true ∈ log' ∧
        ∀ key ∈ claimed ++ left, r.2.Claimed key log') log := by
  induction left generalizing claimed log with
  | nil =>
    apply Contract.keeps_send (K := gate cfg) trivial
    refine ⟨List.mem_append_right log List.mem_cons_self, ?_⟩
    intro key hkey
    rw [List.append_nil] at hkey
    refine ⟨hkey, (hclaimed key hkey).imp fun _ hmem => ?_⟩
    exact List.mem_append_left _ hmem
  | cons key left ih =>
    refine ⟨trivial, fun verdict hverdict => ?_⟩
    obtain rfl : verdict = KeyClaim.ok := hverdict
    rw [List.append_cons]
    refine ih (claimed ++ [key]) fun k hk => ?_
    rcases List.mem_append.mp hk with hold | hnew
    · exact (hclaimed k hold).imp fun _ hmem => List.mem_append_left _ hmem
    · obtain rfl := List.mem_singleton.mp hnew
      exact ⟨now, List.mem_append_right log List.mem_cons_self⟩

theorem authCheck_passes (hallowed : s.allowed cfg = true) :
    (s.authCheck cfg frame).Keeps ((gate cfg).watch s)
      (fun r log' => r.1 = .continue → Entry.asked (.sendFrame authCheckPassed) true ∈ log' ∧
        (cfg.cdKeyUniqueness = true → ∀ keys, authCheckKeys.read frame = .ok keys →
          ∀ key ∈ keys, r.2.Claimed key log')) log := by
  have hok {s' : Bncs} (hnone : cfg.cdKeyUniqueness = true → ∀ keys,
      authCheckKeys.read frame ≠ .ok keys) : s'.authCheckOk.Keeps ((gate cfg).watch s)
        (fun r log' => r.1 = .continue → Entry.asked (.sendFrame authCheckPassed) true ∈ log' ∧
          (cfg.cdKeyUniqueness = true → ∀ keys, authCheckKeys.read frame = .ok keys →
            ∀ key ∈ keys, r.2.Claimed key log')) log := by
    apply Contract.keeps_send (K := gate cfg) trivial
    refine ⟨List.mem_append_right log List.mem_cons_self, ?_⟩
    exact fun hunique keys hread => absurd hread (hnone hunique keys)
  unfold authCheck
  rw [refused_eq_false hallowed, if_neg Bool.false_ne_true]
  split
  · split
    · rename_i hread
      refine hok fun _ keys hkeys => ?_
      rw [hread] at hkeys
      cases hkeys
    · rename_i keys hread
      refine ⟨trivial, fun now _ => (claimKeys_passes now [] keys ?_).mono ?_⟩
      · exact fun key hkey => absurd hkey List.not_mem_nil
      · intro r log' hr hcontinue
        obtain ⟨hsent, hclaimed⟩ := hr hcontinue
        refine ⟨hsent, fun _ keys' hread' => ?_⟩
        obtain rfl : keys = keys' := Except.ok.inj (hread.symm.trans hread')
        exact hclaimed
  · rename_i hshared
    exact hok fun hunique => absurd hunique hshared

theorem reportVersion_passes (hallowed : s.allowed cfg = true) :
    (s.reportVersion cfg).Keeps ((gate cfg).watch s)
      (fun r log' => r.1 = .continue →
        Entry.asked (.sendFrame (reportVersionReply 2)) true ∈ log') log := by
  unfold reportVersion
  rw [refused_eq_false hallowed, if_neg Bool.false_ne_true]
  apply Contract.keeps_send (K := gate cfg) trivial
  exact List.mem_append_right log List.mem_cons_self

theorem versionStep_passes (hallowed : s.allowed cfg = true)
    (hid : SessionState.VersionStep frame.id)
    (hnone : ∀ frame ∈ taken log, ¬ SessionState.VersionStep frame.id) :
    (s.dispatch cfg frame).Keeps ((gate cfg).watch s)
      (fun r log' => r.1 = .continue → r.2.Passed cfg log') (log ++ [.took frame]) := by
  have hgrows := (gate cfg).keeps_dispatch cfg s (fun _ _ => trivial) frame
    (log ++ [.took frame])
  have hversion : (footprint frame.id).version = false := footprint_version fun hopener => by
    rcases hid with hid | hid <;> rcases hopener with h | h <;> rw [hid] at h <;> cases h
  have honly {log' : List Entry} (htaken : taken log' = taken (log ++ [.took frame])) :
      ∀ frame' ∈ taken log', SessionState.VersionStep frame'.id → frame' = frame := by
    intro frame' hmem hid'
    rw [htaken] at hmem
    rcases mem_taken_took.mp hmem with hold | hnew
    · exact absurd hid' (hnone frame' hold)
    · exact hnew
  have hpassed {r : Step × Bncs} {log' : List Entry}
      (hr : (footprint frame.id).Keeps s r.2 ∧ log ++ [.took frame] ⊆ log' ∧
        taken log' = taken (log ++ [.took frame]))
      (hcheck : frame.id = Sid.authCheck → Entry.asked (.sendFrame authCheckPassed) true ∈ log' ∧
        (cfg.cdKeyUniqueness = true → ∀ keys, authCheckKeys.read frame = .ok keys →
          ∀ key ∈ keys, r.2.Claimed key log'))
      (hreport : frame.id = Sid.reportVersion →
        Entry.asked (.sendFrame (reportVersionReply 2)) true ∈ log') : r.2.Passed cfg log' := by
    obtain ⟨hkeeps, _, htaken⟩ := hr
    refine ⟨?_, ⟨frame, ?_, hid⟩, fun frame' hmem hid' => ?_, fun frame' hmem hid' => ?_⟩
    · unfold allowed
      rw [hkeeps.version.resolve_left (by rw [hversion]; exact Bool.false_ne_true)]
      exact hallowed
    · rw [htaken]
      exact mem_taken_took.mpr (Or.inr rfl)
    · obtain rfl := honly htaken frame' hmem (Or.inl hid')
      exact hcheck hid'
    · obtain rfl := honly htaken frame' hmem (Or.inr hid')
      exact hreport hid'
  rcases hid with hid | hid
  · have hdispatch : s.dispatch cfg frame = s.authCheck cfg frame := by
      rw [dispatch, hid, if_neg (by decide), if_pos rfl]
    rw [hdispatch] at hgrows ⊢
    refine (hgrows.and (authCheck_passes hallowed)).mono fun r log' hr hcontinue => ?_
    refine hpassed hr.1 (fun _ => hr.2 hcontinue) fun h => ?_
    rw [hid] at h
    cases h
  · have hdispatch : s.dispatch cfg frame = s.reportVersion cfg := by
      rw [dispatch, hid, if_neg (by decide), if_neg (by decide), if_neg (by decide), if_pos rfl]
    rw [hdispatch] at hgrows ⊢
    refine (hgrows.and (reportVersion_passes hallowed)).mono fun r log' hr hcontinue => ?_
    refine hpassed hr.1 (fun h => ?_) fun _ => hr.2 hcontinue
    rw [hid] at h
    cases h

theorem Passed.advance (h : s.Passed cfg log) (id : UInt8) : (s.advance id).Passed cfg log := by
  rcases s.advance_cases id with hsame | ⟨next, _, _, hnext⟩
  · rw [hsame]
    exact h
  · rw [hnext]
    exact ⟨h.allowed, h.stepped, h.authCheck, h.reportVersion⟩

theorem versioned_advance (h : s.state.versioned = true) (id : UInt8) :
    (s.advance id).state.versioned = true := by
  rcases s.advance_cases id with hsame | ⟨next, hmoves, _, hnext⟩
  · rw [hsame]
    exact h
  · rw [hnext]
    exact hmoves.stays_versioned h

theorem not_versioned_advance (h : s.state.versioned = false) {id : UInt8}
    (hid : ¬ SessionState.VersionStep id) : (s.advance id).state.versioned = false := by
  rcases s.advance_cases id with hsame | ⟨next, hmoves, _, hnext⟩
  · rw [hsame]
    exact h
  · rw [hnext]
    exact hmoves.not_yet_versioned h hid

theorem advance_versionStep (h : s.state = .versioning) {id : UInt8}
    (hid : SessionState.VersionStep id) : s.advance id = { s with state := .authenticating } := by
  refine advance_of ?_ (Or.inl (by decide))
  rw [h]
  exact if_pos hid

end Bncs

/-! ## Every run -/

/-- A version step comes from a session that is allowed. -/
def AllowedStep (cfg : ServerConfig) (s : Bncs) (_ : List Entry) (frame : Frame) : Prop :=
  SessionState.VersionStep frame.id → s.allowed cfg = true

theorem gate_sound (cfg : ServerConfig) : (gate cfg).Sound (AllowedStep cfg) cfg where
  starts _ _ := ⟨Bool.noConfusion, fun _ _ h => absurd h List.not_mem_nil⟩
  takes := by
    intro s log frame hinv haccepts hversioned
    have hpassed := hinv.1 hversioned
    refine hpassed.mono rfl rfl (List.subset_append_left log _) (fun frame' hmem hid => ?_) ?_
    · rcases mem_taken_took.mp hmem with hold | rfl
      · exact hold
      · have hstate := SessionState.accepts_versionStep haccepts hid
        rw [hstate] at hversioned
        cases hversioned
    · exact fun _ hmem => mem_taken_took.mpr (Or.inl hmem)
  handles := by
    intro s log frame hinv haccepts hallowed
    apply Contract.keeps_handle
    have hclosing {r : Step × Bncs} {log' : List Entry} :
        (gate cfg).Leaving { r.2 with state := .closing } log' :=
      Contract.leaving_of_during (fun _ _ _ => trivial) (fun _ => trivial) Bool.noConfusion
    have hgrows := (gate cfg).keeps_dispatch cfg s (fun _ _ => trivial) frame
      (log ++ [.took frame])
    by_cases hversioned : s.state.versioned = true
    · have hpassed := hinv.1 hversioned
      have hstep : ¬ SessionState.VersionStep frame.id := fun hid => by
        rw [SessionState.accepts_versionStep haccepts hid] at hversioned
        cases hversioned
      have hopener : ¬ SessionState.Opener frame.id := fun hid => by
        rw [SessionState.accepts_opener haccepts hid] at hversioned
        cases hversioned
      refine hgrows.mono fun r log' hr => ⟨fun _ => ?_, fun _ => hclosing⟩
      obtain ⟨hkeeps, hsub, htaken⟩ := hr
      have hr : r.2.Passed cfg log' := by
        refine hpassed.mono (hkeeps.version.resolve_left ?_) (hkeeps.keys.resolve_left ?_)
          (List.Subset.trans (List.subset_append_left log _) hsub) ?_ ?_
        · rw [Bncs.footprint_version hopener]
          exact Bool.false_ne_true
        · rw [Bncs.footprint_keys fun hid => hstep (Or.inl hid)]
          exact Bool.false_ne_true
        · intro frame' hmem hid
          rw [htaken] at hmem
          rcases mem_taken_took.mp hmem with hold | rfl
          · exact hold
          · exact absurd hid hstep
        · rw [htaken]
          exact fun _ hmem => mem_taken_took.mpr (Or.inl hmem)
      have hstate : r.2.state.versioned = true := by rw [hkeeps.state, hversioned]
      refine ⟨fun _ => hr.advance frame.id, fun hnot => ?_⟩
      rw [Bncs.versioned_advance hstate] at hnot
      cases hnot
    · have hversioned : s.state.versioned = false := Bool.eq_false_iff.mpr hversioned
      have hnone := hinv.2 hversioned
      by_cases hid : SessionState.VersionStep frame.id
      · refine (hgrows.and (Bncs.versionStep_passes (hallowed hid) hid hnone)).mono ?_
        refine fun r log' hr => ⟨fun hcontinue => ?_, fun _ => hclosing⟩
        have hstate : r.2.state = .versioning := by
          rw [hr.1.1.state, SessionState.accepts_versionStep haccepts hid]
        refine ⟨fun _ => (hr.2 hcontinue).advance frame.id, fun hnot => ?_⟩
        rw [Bncs.advance_versionStep hstate hid] at hnot
        cases hnot
      · refine hgrows.mono fun r log' hr => ⟨fun _ => ?_, fun _ => hclosing⟩
        have hstate : r.2.state.versioned = false := by rw [hr.1.state, hversioned]
        refine ⟨fun hyet => ?_, fun _ frame' hmem => ?_⟩
        · rw [Bncs.not_versioned_advance hstate hid] at hyet
          cases hyet
        · rw [hr.2.2] at hmem
          rcases mem_taken_took.mp hmem with hold | rfl
          · exact hnone frame' hold
          · exact hid
  notes := by
    intro s log q answer hduring _ _ hversioned
    refine (hduring hversioned).mono rfl rfl (List.subset_append_left log _) ?_ ?_
    · rw [taken_asked]
      exact fun _ hmem _ => hmem
    · rw [taken_asked]
      exact List.Subset.refl _
  leaves := by
    intro s log state hinv hstate
    refine ⟨fun hversioned => ?_, (Contract.keeps_grows (fun _ _ => trivial) _ _).mono ?_⟩
    · rcases hstate with rfl | rfl
      · exact hinv.1 hversioned
      · cases hversioned
    · exact fun _ _ _ => trivial

namespace Server

/-- No version step of the connection is refused: the policy allows its session when it takes one,
and a CD key that it claims is free. -/
def Unrefused (cfg : ServerConfig) (i : ConnId) (v : Server) : Event → Prop
  | .frame j frame => j = i → SessionState.VersionStep frame.id →
      ∀ s ∈ v.taking i frame, s.allowed cfg = true
  | .turn j _ => j = i → ∀ claim ∈ (v.asking i).bind Request.claim, v.keys.Free claim.1 claim.2
  | _ => True

instance Unrefused.decidable (cfg : ServerConfig) (i : ConnId) (v : Server) (event : Event) :
    Decidable (v.Unrefused cfg i event) :=
  match event with
  | .frame j frame => inferInstanceAs (Decidable (j = i → SessionState.VersionStep frame.id →
      ∀ s ∈ v.taking i frame, s.allowed cfg = true))
  | .turn j _ => inferInstanceAs
      (Decidable (j = i → ∀ claim ∈ (v.asking i).bind Request.claim, v.keys.Free claim.1 claim.2))
  | .accepts _ _ _ _ _ | .hangUp _ => .isTrue trivial

/-- A session that is logged on has passed its version step. -/
def Gated (cfg : ServerConfig) (i : ConnId) (v : Server) : Prop :=
  ∀ s, v.session i = some s → s.state.authenticated = true → s.Passed cfg (v.log i)

theorem claimKey_of_free {v : Server} {key : KeyId} {now : Nat} (h : v.keys.Free key now) :
    (v.claimKey key now).1 = KeyClaim.ok := by
  have hok := (KeyRegistry.claim_eq_ok_iff v.keys key 0 now).mpr h
  unfold claimKey
  split
  · rfl
  · rename_i hinUse
    rw [hinUse] at hok
    cases hok
  · rename_i hbanned
    rw [hbanned] at hok
    cases hok

theorem meets_of_unrefused {cfg : ServerConfig} {i : ConnId} {v : Server} {event : Event}
    (h : v.Unrefused cfg i event) (hconn : event.conn = i) :
    (gate cfg).Meets (AllowedStep cfg) cfg v event := by
  subst hconn
  cases event with
  | frame i frame => exact fun s hs hid => h rfl hid s hs
  | turn i others =>
    intro q hasking
    cases q with
    | claimKey key now =>
      refine claimKey_of_free (h rfl (key, now) ?_)
      exact Option.bind_eq_some_iff.mpr ⟨_, hasking, rfl⟩
    | _ => trivial
  | _ => trivial

/-- **A refused client never logs on**, if no version step of its connection is refused: a session
that is logged on has its version allowed and its version step answered with success, and has
claimed every CD key of it. -/
theorem refused_never_logs_on (cfg : ServerConfig) (keys : KeyRegistry)
    (keyHolderNames : Map KeyId Text) (events : List Event) (i : ConnId)
    (h : Along (step cfg) (Unrefused cfg i) (.new cfg keys keyHolderNames) events) :
    Always (step cfg) (Gated cfg i) (.new cfg keys keyHolderNames) events := by
  have hmeets := Along.imp (fun _ _ hevent => meets_of_unrefused hevent) h
  refine ((gate_sound cfg).always_at hmeets).imp fun v hv s hsession hauthenticated => ?_
  have hversioned : s.state.versioned = true := by
    rw [SessionState.versioned, hauthenticated, Bool.or_true]
  exact (gate_sound cfg).during_session hv hsession hversioned

def keyedLogon (i : ConnId) : List Event :=
  .accepts i 0x01 (.v4 1) false 7 :: exchange alice i (authInfoFrame Product.star) ++
    exchange alice i ⟨Sid.authCheck, [0, 0, 0, 1, 0].flatMap Writer.u32 ++
      [13, 1, 5, 0, 0, 0, 0, 0, 0].flatMap Writer.u32 ++ Writer.cstr [] ++ Writer.cstr []⟩ ++
    exchange alice i ⟨Sid.logonResponse2, logonBody 7⟩

/-- Two logons with one key, of which the second is refused. -/
theorem refused_never_logs_on_keyed :
    let cfg := { ServerConfig.lenient with cdKeyUniqueness := true }
    Always (step cfg) (Gated cfg 0) (.new cfg (.new 500) ∅) (keyedLogon 0 ++ keyedLogon 1) := by
  refine refused_never_logs_on _ _ _ _ _ ?_
  decide +kernel

/-- A client whose version is refused goes on to log on. -/
def refusedLogon : List Event :=
  .accepts 0 0x01 (.v4 1) false 7 :: exchange alice 0 (authInfoFrame Product.star) ++
    exchange alice 0 ⟨Sid.authCheck, []⟩ ++ exchange alice 0 ⟨Sid.logonResponse2, logonBody 7⟩

/-- Only version `0xD1` of the product is allowed. -/
def earlierOnly : VersionPolicy :=
  ⟨true, Finmap.singleton (Product.star, FourCc.fromAscii 'I' 'X' '8' '6') [0xD1]⟩

/-- A session that is refused moves on to the logon, and logs on. -/
theorem refused_logs_on : ¬ ∀ cfg keys keyHolderNames events i,
    Always (step cfg) (Gated cfg i) (.new cfg keys keyHolderNames) events := by
  intro h
  let cfg := { ServerConfig.lenient with versionPolicy := earlierOnly }
  have hgated := (h cfg (.new 500) ∅ refusedLogon 0).last
  have hloggedOn : ((run (step cfg) (.new cfg (.new 500) ∅) refusedLogon).session 0).map
      (fun s => (s.state.authenticated, s.allowed cfg)) = some (true, false) := by
    decide +kernel
  obtain ⟨s, hs, hfacts⟩ := Option.map_eq_some_iff.mp hloggedOn
  obtain ⟨hauthenticated, hrefused⟩ := Prod.mk.inj hfacts
  have hallowed := (hgated s hs hauthenticated).allowed
  rw [hrefused] at hallowed
  cases hallowed

end Server

end CommandCenter.Daemon
