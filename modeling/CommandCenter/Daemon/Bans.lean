import CommandCenter.Daemon.ServerParts
import CommandCenter.Storage.Memory

/-!
# Bans and logons

`bans` of the storage holds who is banned, from this node or from the network; the importer of
accounts writes one for each locked account. A logon looks up the account, checks the proof and
asks the moderation about the name. It does not ask the storage for a ban.

* `Attempt`: what a log says of the logon of its session.
* `deciding_sound`: who is logged on was answered with success, after the checks.
* `banned_kept_out`: the runs in which no banned account logs on.
-/

namespace CommandCenter.Daemon

open Rust CommandCenter.Core Proto Library
open Storage (Account Ban)

/-! ## The logon of a session -/

/-- The packet that a session is at, the account that was looked up for it, the one of the last
challenge, whether the checks are passed, and whose logon was answered with success. -/
structure Attempt where
  packet : UInt8 := Sid.null
  found : Option Account := none
  challenged : Option Account := none
  cleared : Bool := false
  welcomed : Option Account := none

/-- The account that the packet is to log on. -/
def Attempt.subject (a : Attempt) : Option Account :=
  if a.packet = Sid.authAccountLogonProof then a.challenged else a.found

/-- The reply says that the logon succeeded. -/
def welcomes (packet : UInt8) (reply : Frame) : Bool :=
  if packet = Sid.authAccountLogonProof then
    reply.id = packet && reply.body.take 4 = Writer.u32 NlsStatus.proofOk
  else
    (packet = Sid.logonResponse || packet = Sid.logonResponse2) &&
      reply = Bncs.logonReply packet LogonStatus.success

def noteAttempt (a : Attempt) : Entry → Attempt
  | .took frame =>
    { packet := frame.id, challenged := a.challenged,
      welcomed := if SessionState.Logon frame.id then none else a.welcomed }
  | .asked (.account _) found =>
    if a.packet = Sid.authAccountLogon then { a with challenged := found, cleared := false }
    else { a with found, cleared := false }
  | .asked (.isTagBanned _) banned => { a with cleared := !banned }
  | .asked (.sendFrame reply) _ =>
    if welcomes a.packet reply then { a with welcomed := a.subject } else a
  | .asked _ _ => a

def attempt (log : List Entry) : Attempt := log.foldl noteAttempt {}

@[simp] theorem attempt_concat (log : List Entry) (entry : Entry) :
    attempt (log ++ [entry]) = noteAttempt (attempt log) entry := by
  rw [attempt, List.foldl_append]
  rfl

theorem welcomes_logon {packet : UInt8} {reply : Frame} (h : welcomes packet reply = true) :
    SessionState.Logon packet := by
  unfold welcomes at h
  split at h
  · exact Or.inr (Or.inr ‹_›)
  · have hpacket := (Bool.and_eq_true_iff.mp h).1
    rcases Bool.or_eq_true_iff.mp hpacket with hid | hid
    · exact Or.inl (of_decide_eq_true hid)
    · exact Or.inr (Or.inl (of_decide_eq_true hid))

/-- Neither an account nor a ban on a name is asked for, and nothing is sent. -/
def Request.Quiet : Request → Prop
  | .account _ | .isTagBanned _ | .sendFrame _ => False
  | _ => True

theorem attempt_took_logon (log : List Entry) {frame : Frame} (h : SessionState.Logon frame.id) :
    attempt (log ++ [.took frame]) = ⟨frame.id, none, (attempt log).challenged, false, none⟩ := by
  rw [attempt_concat]
  simp [noteAttempt, h]

theorem attempt_quiet {q : Request} (hq : q.Quiet) (log : List Entry) (answer : Reply q) :
    attempt (log ++ [.asked q answer]) = attempt log := by
  rw [attempt_concat]
  cases q
  all_goals first | rfl | exact hq.elim

/-- Who is logged on was answered with success, before a challenge that is under way. -/
def deciding : Contract where
  asks s log
    | .sendFrame reply => welcomes (attempt log).packet reply = true →
        s.account = none ∧ (attempt log).cleared = true
    | _ => True
  answers _ _ _ := True
  inv s log := (∀ account ∈ s.account, (attempt log).welcomed = some account) ∧
    (∀ p ∈ s.srp, (attempt log).challenged = some p.account) ∧
    (s.state.authenticated = false → s.account = none)
  during s log := ∀ account ∈ s.account, (attempt log).welcomed = some account
  left _ := True

theorem deciding_asks {q : Request} (hq : q.Quiet) (s : Bncs) (log : List Entry) :
    deciding.asks s log q := by
  cases q
  all_goals first | exact hq.elim | trivial

theorem keeps_attempt {α : Type} {post : α → Prop} {x : Program α} (s : Bncs)
    (h : x.Within Request.Quiet post) (log : List Entry) :
    x.Keeps (deciding.watch s) (fun value log' => post value ∧ attempt log' = attempt log) log :=
  h.keeps attempt (fun log _ answer hq => attempt_quiet hq log answer)
    fun log' _ _ hq => deciding_asks hq s log'

namespace Bncs

variable {cfg : ServerConfig} {s s' : Bncs} {frame : Frame} {log log' : List Entry}

/-! ## Programs that do not decide -/

theorem recordKeyHolderNames_quiet (name : Text) (keys : List KeyId) :
    (recordKeyHolderNames name keys).Within Request.Quiet fun _ => True := by
  induction keys with
  | nil => trivial
  | cons key keys ih => exact ⟨trivial, fun _ _ => ih⟩

theorem finishLogon_quiet (account : Account) : (s.finishLogon account).Within Request.Quiet
    fun s' => s'.account = some account ∧ s'.srp = s.srp := by
  refine (recordKeyHolderNames_quiet _ _).bind fun _ _ => ?_
  exact ⟨trivial, fun _ _ => ⟨trivial, fun _ _ => ⟨trivial, fun _ _ => ⟨trivial, fun _ _ =>
    ⟨trivial, fun _ _ => ⟨trivial, fun _ _ => ⟨rfl, rfl⟩⟩⟩⟩⟩⟩⟩

theorem releaseKeys_quiet (now : Nat) (keys : List KeyId) :
    (releaseKeys now keys).Within Request.Quiet fun _ => True := by
  induction keys with
  | nil => trivial
  | cons key keys ih => exact ⟨trivial, fun _ _ => ih⟩

theorem leave_quiet : s.leave.Within Request.Quiet fun _ => True := by
  have hwithdraw : s.withdrawGame.Within Request.Quiet fun _ => True := by
    unfold withdrawGame
    split
    · exact ⟨trivial, fun _ _ => trivial⟩
    · trivial
  have hcleanup : s.cleanup.Within Request.Quiet fun _ => True := by
    refine .ask trivial fun now => (releaseKeys_quiet now _).bind fun _ _ => ?_
    refine hwithdraw.bind fun _ _ => ?_
    split
    · exact .ask trivial fun _ => ⟨trivial, fun _ _ => trivial⟩
    · trivial
  exact hcleanup.bind fun _ _ => ⟨trivial, fun _ _ => trivial⟩

/-! ## Logons -/

/-- What a handler leaves: an account that was answered with success, if any, and a challenge for
the account that was looked up for it. -/
def Decided (s : Bncs) (log : List Entry) : Prop :=
  (∀ account ∈ s.account, (attempt log).welcomed = some account) ∧
    ∀ p ∈ s.srp, (attempt log).challenged = some p.account

theorem decided_of_none (h : s.account = none)
    (hsrp : ∀ p ∈ s.srp, (attempt log).challenged = some p.account) : s.Decided log := by
  refine ⟨fun account haccount => ?_, hsrp⟩
  rw [h] at haccount
  cases haccount

/-- A reply that says no leaves the session as it was. -/
theorem send_declines {reply : Frame} (hreply : welcomes (attempt log).packet reply = false)
    (h : s'.Decided log) :
    (s'.send reply).Keeps (deciding.watch s) (fun r log' => r.2.Decided log') log := by
  refine ⟨fun hwelcomes => absurd hwelcomes (by rw [hreply]; exact Bool.false_ne_true), ?_⟩
  intro queued _
  show s'.Decided (log ++ [.asked (.sendFrame reply) queued])
  unfold Decided
  rw [attempt_concat, noteAttempt, hreply]
  exact h

/-- A reply that says yes comes after the checks. -/
theorem send_welcomes {reply : Frame} {account : Account} (hnone : s.account = none)
    (hcleared : (attempt log).cleared = true) (hsubject : (attempt log).subject = some account)
    (haccount : s'.account = some account) (hreply : welcomes (attempt log).packet reply = true)
    (hsrp : ∀ p ∈ s'.srp, (attempt log).challenged = some p.account) :
    (s'.send reply).Keeps (deciding.watch s) (fun r log' => r.2.Decided log') log := by
  refine ⟨fun _ => ⟨hnone, hcleared⟩, fun queued _ => ?_⟩
  show s'.Decided (log ++ [.asked (.sendFrame reply) queued])
  unfold Decided
  rw [attempt_concat, noteAttempt, hreply]
  refine ⟨fun account' haccount' => ?_, hsrp⟩
  exact hsubject.trans (haccount.symm.trans haccount')

/-- What the checks of an X-SHA-1 logon leave: a status that says no, or an account that passed
them. -/
structure Checked (s : Bncs) (a : Attempt) (r : UInt32 × Bncs) (log : List Entry) : Prop where
  packet : (attempt log).packet = a.packet
  challenged : (attempt log).challenged = a.challenged
  srp : r.2.srp = s.srp
  status : r.1 ∈ [LogonStatus.noSuchAccount, LogonStatus.wrongPassword] ∧ r.2.account = s.account ∨
    r.1 = LogonStatus.success ∧ (attempt log).cleared = true ∧
      ∃ account, r.2.account = some account ∧ (attempt log).subject = some account

theorem checkLogon_checked (replyId : UInt8) (request : LogonRequest) (log : List Entry) :
    (s.checkLogon replyId request (attempt log).subject).Keeps (deciding.watch s)
      (s.Checked (attempt log)) log := by
  have hnoSuch : LogonStatus.noSuchAccount ∈
      [LogonStatus.noSuchAccount, LogonStatus.wrongPassword] := by decide
  have hwrong : LogonStatus.wrongPassword ∈
      [LogonStatus.noSuchAccount, LogonStatus.wrongPassword] := by decide
  unfold checkLogon
  split
  · exact ⟨rfl, rfl, rfl, Or.inl ⟨hnoSuch, rfl⟩⟩
  · rename_i account hsubject
    split
    · exact ⟨rfl, rfl, rfl, Or.inl ⟨hnoSuch, rfl⟩⟩
    · split
      · refine ⟨trivial, fun banned _ => ?_⟩
        have hbanned : attempt (log ++ [.asked (.isTagBanned account.name) banned]) =
            { attempt log with cleared := !banned } := attempt_concat _ _
        show Asking.Keeps _ _ (if banned = true then _ else _) _
        split
        · refine ⟨?_, ?_, rfl, Or.inl ⟨hnoSuch, rfl⟩⟩
          · exact (congrArg Attempt.packet hbanned :)
          · exact (congrArg Attempt.challenged hbanned :)
        · rename_i hcleared
          refine Asking.keeps_bind.mpr ((keeps_attempt s (finishLogon_quiet account) _).mono ?_)
          intro s' log' hs'
          have hlog' : attempt log' = { attempt log with cleared := !banned } := hs'.2.trans hbanned
          refine ⟨?_, ?_, hs'.1.2, Or.inr ⟨rfl, ?_, account, hs'.1.1, ?_⟩⟩
          · exact (congrArg Attempt.packet hlog' :)
          · exact (congrArg Attempt.challenged hlog' :)
          · rw [hlog', Bool.eq_false_iff.mpr hcleared]
            rfl
          · rw [hlog']
            exact hsubject
      · exact ⟨rfl, rfl, rfl, Or.inl ⟨hwrong, rfl⟩⟩

theorem logonReply_welcomes {packet : UInt8}
    (hpacket : packet = Sid.logonResponse ∨ packet = Sid.logonResponse2) :
    welcomes packet (logonReply packet LogonStatus.success) = true ∧
      ∀ status ∈ [LogonStatus.noSuchAccount, LogonStatus.wrongPassword],
        welcomes packet (logonReply packet status) = false := by
  rcases hpacket with rfl | rfl
  · refine ⟨by decide, List.forall_mem_cons.mpr ⟨by decide, ?_⟩⟩
    exact List.forall_mem_singleton.mpr (by decide)
  · refine ⟨by decide, List.forall_mem_cons.mpr ⟨by decide, ?_⟩⟩
    exact List.forall_mem_singleton.mpr (by decide)

theorem logon_decided (hid : frame.id = Sid.logonResponse ∨ frame.id = Sid.logonResponse2)
    (hnone : s.account = none) (hsrp : ∀ p ∈ s.srp, (attempt log).challenged = some p.account) :
    (s.logon frame frame.id).Keeps (deciding.watch s) (fun r log' => r.2.Decided log')
      (log ++ [.took frame]) := by
  have htook := attempt_took_logon log (hid.imp_right Or.inl)
  have hchallenge : frame.id ≠ Sid.authAccountLogon := by
    rcases hid with hid | hid <;> rw [hid] <;> decide
  have hproof : frame.id ≠ Sid.authAccountLogonProof := by
    rcases hid with hid | hid <;> rw [hid] <;> decide
  unfold logon
  split
  · refine decided_of_none hnone ?_
    rw [htook]
    exact hsrp
  · rename_i request _
    refine Asking.keeps_bind.mpr ⟨trivial, fun found _ => ?_⟩
    have hfound : attempt (log ++ [.took frame] ++ [.asked (.account _) found]) =
        ⟨frame.id, found, (attempt log).challenged, false, none⟩ := by
      rw [attempt_concat, htook]
      exact if_neg hchallenge
    have hsubject : (attempt (log ++ [.took frame] ++ [.asked (.account _) found])).subject =
        found := by
      rw [hfound]
      exact if_neg hproof
    have hchecked := checkLogon_checked (s := s) frame.id request
      (log ++ [.took frame] ++ [.asked (.account _) found])
    rw [hsubject] at hchecked
    refine Asking.keeps_bind.mpr (hchecked.mono fun r log' hr => ?_)
    have hpacket : (attempt log').packet = frame.id := hr.packet.trans (by rw [hfound])
    have hsrp' : ∀ p ∈ r.2.srp, (attempt log').challenged = some p.account := by
      rw [hr.srp, hr.challenged, hfound]
      exact hsrp
    rcases hr.status with ⟨hstatus, haccount⟩ | ⟨hstatus, hcleared, account, haccount, hsubject⟩
    · refine send_declines ?_ (decided_of_none (haccount.trans hnone) hsrp')
      rw [hpacket]
      exact (logonReply_welcomes hid).2 r.1 hstatus
    · refine send_welcomes hnone hcleared hsubject haccount ?_ hsrp'
      rw [hpacket, hstatus]
      exact (logonReply_welcomes hid).1

theorem authAccountLogon_decided (hid : frame.id = Sid.authAccountLogon) (hnone : s.account = none)
    (hsrp : ∀ p ∈ s.srp, (attempt log).challenged = some p.account) :
    (s.authAccountLogon cfg frame).Keeps (deciding.watch s) (fun r log' => r.2.Decided log')
      (log ++ [.took frame]) := by
  have htook : attempt (log ++ [.took frame]) =
      ⟨frame.id, none, (attempt log).challenged, false, (attempt log).welcomed⟩ := by
    have hlogon : ¬ SessionState.Logon frame.id := by
      rw [hid]
      decide
    rw [attempt_concat]
    simp [noteAttempt, hlogon]
  have hreply {a : Attempt} (ha : a.packet = frame.id) (reply : Frame) :
      welcomes a.packet reply = false := by
    rw [ha, hid]
    rfl
  have hforgets {log' : List Entry} : Bncs.Decided { s with srp := none } log' := by
    refine decided_of_none hnone ?_
    rintro _ ⟨⟩
  unfold authAccountLogon
  simp only []
  split
  · refine decided_of_none hnone ?_
    rw [htook]
    exact hsrp
  · rename_i clientPublic typed _
    unfold realmAccount
    split
    · refine send_declines (hreply ?_ _) hforgets
      rw [htook]
    · rename_i bare _
      refine Asking.keeps_bind.mpr (Asking.keeps_bind.mpr ⟨trivial, fun found _ => ?_⟩)
      have hfound : attempt (log ++ [.took frame] ++ [.asked (.account _) found]) =
          ⟨frame.id, none, found, false, (attempt log).welcomed⟩ := by
        rw [attempt_concat, htook]
        exact if_pos hid
      cases found with
      | none => exact send_declines (hreply (congrArg Attempt.packet hfound :) _) hforgets
      | some account =>
        obtain ⟨accountId, name, credential, createdAt⟩ := account
        cases credential with
        | xsha1 hash => exact send_declines (hreply (congrArg Attempt.packet hfound :) _) hforgets
        | srp salt verifier =>
          refine ⟨trivial, fun b _ => ⟨trivial, fun ended _ => ?_⟩⟩
          have hended : attempt (log ++ [.took frame] ++ [.asked (.account _) (some _)] ++
              [.asked .random b] ++ [.asked .spawnBlocking ended]) = _ :=
            (attempt_quiet (q := .spawnBlocking) trivial _ ended).trans
              ((attempt_quiet (q := .random) trivial _ b).trans hfound)
          show Asking.Keeps _ _ (if ended = true then _ else _) _
          split
          · refine send_declines (hreply (congrArg Attempt.packet hended :) _) ?_
            refine decided_of_none hnone ?_
            rintro _ ⟨⟩
            exact (congrArg Attempt.challenged hended :)
          · exact hforgets

theorem proofReply_welcomes {status : UInt32} {body : List UInt8} (h : Writer.u32 status <+: body) :
    welcomes Sid.authAccountLogonProof ⟨Sid.authAccountLogonProof, body⟩ =
      decide (Writer.u32 status = Writer.u32 NlsStatus.proofOk) := by
  obtain ⟨rest, rfl⟩ := h
  have htake : (Writer.u32 status ++ rest).take 4 = Writer.u32 status := List.take_left' rfl
  unfold welcomes
  rw [if_pos rfl, htake]
  rfl

theorem authAccountLogonProof_decided (hid : frame.id = Sid.authAccountLogonProof)
    (hnone : s.account = none) (hsrp : ∀ p ∈ s.srp, (attempt log).challenged = some p.account) :
    (s.authAccountLogonProof cfg frame).Keeps (deciding.watch s) (fun r log' => r.2.Decided log')
      (log ++ [.took frame]) := by
  have htook := attempt_took_logon log (Or.inr (Or.inr hid))
  have hforgets {log' : List Entry} : Bncs.Decided { s with srp := none } log' := by
    refine decided_of_none hnone ?_
    rintro _ ⟨⟩
  have hreply {a : Attempt} (ha : a.packet = frame.id) (status : UInt32) {body : List UInt8}
      (h : Writer.u32 status <+: body) : welcomes a.packet ⟨Sid.authAccountLogonProof, body⟩ =
        decide (Writer.u32 status = Writer.u32 NlsStatus.proofOk) := by
    rw [ha, hid]
    exact proofReply_welcomes h
  have hstays : s.Decided (log ++ [.took frame]) := by
    refine decided_of_none hnone ?_
    rw [htook]
    exact hsrp
  unfold authAccountLogonProof
  split
  · exact hstays
  · exact hstays
  · rename_i clientProof p _ hp
    refine ⟨trivial, fun ended _ => ?_⟩
    have hended : attempt (log ++ [.took frame] ++ [.asked .spawnBlocking ended]) = _ :=
      (attempt_quiet (q := .spawnBlocking) trivial _ ended).trans htook
    show Asking.Keeps _ _ (if ended = true then _ else _) _
    split
    · split
      · refine send_declines ?_ hforgets
        exact hreply (congrArg Attempt.packet hended :) NlsStatus.proofWrongPassword
          (List.prefix_append _ _)
      · refine ⟨trivial, fun banned _ => ?_⟩
        have hbanned : attempt (log ++ [.took frame] ++ [.asked .spawnBlocking ended] ++
            [.asked (.isTagBanned p.account.name) banned]) =
              ⟨frame.id, none, (attempt log).challenged, !banned, none⟩ := by
          rw [attempt_concat, hended]
          rfl
        show Asking.Keeps _ _ (if banned = true then _ else _) _
        split
        · refine send_declines ?_ hforgets
          refine hreply (congrArg Attempt.packet hbanned :) NlsStatus.proofCustomError ?_
          exact (List.prefix_append _ _).trans (List.prefix_append _ _)
        · rename_i hcleared
          refine Asking.keeps_bind.mpr ((keeps_attempt s (finishLogon_quiet p.account) _).mono ?_)
          intro s' log' hs'
          have hlog' := hs'.2.trans hbanned
          refine send_welcomes hnone ?_ ?_ hs'.1.1 ?_ ?_
          · rw [hlog', Bool.eq_false_iff.mpr hcleared]
            rfl
          · rw [hlog', Attempt.subject, if_pos hid]
            exact hsrp p hp
          · exact hreply (congrArg Attempt.packet hlog' :) NlsStatus.proofOk
              (List.prefix_append _ _)
          · rw [hs'.1.2]
            rintro _ ⟨⟩
    · exact hforgets

/-- A packet that is neither a logon nor a challenge leaves what was decided as it is. -/
theorem keeps_undecided {α : Type} (s : Bncs) (x : Program α) (log : List Entry)
    (hlogon : ¬ SessionState.Logon (attempt log).packet)
    (hchallenge : (attempt log).packet ≠ Sid.authAccountLogon) :
    x.Keeps (deciding.watch s) (fun _ log' => (attempt log').welcomed = (attempt log).welcomed ∧
      (attempt log').challenged = (attempt log).challenged) log := by
  induction x generalizing log with
  | done value => exact ⟨rfl, rfl⟩
  | ask q next ih =>
    have hquiet (reply : Frame) : welcomes (attempt log).packet reply = false :=
      Bool.eq_false_iff.mpr fun h => hlogon (welcomes_logon h)
    have hsame (answer : Reply q) :
        (attempt (log ++ [.asked q answer])).packet = (attempt log).packet ∧
          (attempt (log ++ [.asked q answer])).welcomed = (attempt log).welcomed ∧
          (attempt (log ++ [.asked q answer])).challenged = (attempt log).challenged := by
      rw [attempt_concat]
      cases q
      all_goals simp [noteAttempt, hquiet, hchallenge]
    refine ⟨?_, fun answer _ => ?_⟩
    · cases q
      case sendFrame reply => exact fun h => absurd (welcomes_logon h) hlogon
      all_goals trivial
    · obtain ⟨hpacket, hwelcomed, hchallenged⟩ := hsame answer
      rw [← hpacket] at hlogon hchallenge
      refine (ih answer _ hlogon hchallenge).mono fun _ _ h => ?_
      exact ⟨h.1.trans hwelcomed, h.2.trans hchallenged⟩

theorem dispatch_decided (hinv : deciding.inv s log)
    (haccepts : s.state.accepts frame.id = true) :
    (s.dispatch cfg frame).Keeps (deciding.watch s) (fun r log' => r.2.Decided log')
      (log ++ [.took frame]) := by
  obtain ⟨hwelcomed, hsrp, hnone⟩ := hinv
  by_cases hlogon : SessionState.Logon frame.id
  · have hnone := hnone (by rw [SessionState.accepts_logon haccepts hlogon]; rfl)
    by_cases hproof : frame.id = Sid.authAccountLogonProof
    · have hdispatch : s.dispatch cfg frame = s.authAccountLogonProof cfg frame := by
        rw [dispatch, hproof]
        rfl
      rw [hdispatch]
      exact authAccountLogonProof_decided hproof hnone hsrp
    · have hid : frame.id = Sid.logonResponse ∨ frame.id = Sid.logonResponse2 :=
        hlogon.imp_right fun h => h.resolve_right hproof
      have hdispatch : s.dispatch cfg frame = s.logon frame frame.id := by
        rcases hid with hid | hid
        · rw [dispatch, hid]
          rfl
        · rw [dispatch, hid]
          rfl
      rw [hdispatch]
      exact logon_decided hid hnone hsrp
  by_cases hchallenge : frame.id = Sid.authAccountLogon
  · have hdispatch : s.dispatch cfg frame = s.authAccountLogon cfg frame := by
      rw [dispatch, hchallenge]
      rfl
    have hstate : s.state.authenticated = false := by
      rw [hchallenge] at haccepts
      revert haccepts
      cases s.state <;> decide
    rw [hdispatch]
    exact authAccountLogon_decided hchallenge (hnone hstate) hsrp
  · have htook : attempt (log ++ [.took frame]) =
        ⟨frame.id, none, (attempt log).challenged, false, (attempt log).welcomed⟩ := by
      rw [attempt_concat]
      simp [noteAttempt, hlogon]
    have hleaves : (s.dispatch cfg frame).Within (footprint frame.id).Asks
        fun r => (footprint frame.id).Keeps s r.2 := dispatch_leaves
    have hundecided := keeps_undecided s (s.dispatch cfg frame) (log ++ [.took frame])
      (by rw [htook]; exact hlogon) (by rw [htook]; exact hchallenge)
    rw [htook] at hundecided
    refine (hundecided.within hleaves.any).mono fun r log' hr => ?_
    obtain ⟨⟨hwelcomed', hchallenged'⟩, hkeeps⟩ := hr
    have haccount : r.2.account = s.account := by
      refine hkeeps.account.resolve_left ?_
      rw [footprint_account hlogon]
      exact Bool.false_ne_true
    have hsame : r.2.srp = s.srp := by
      refine hkeeps.srp.resolve_left ?_
      rw [footprint_srp hchallenge fun hproof => hlogon (Or.inr (Or.inr hproof))]
      exact Bool.false_ne_true
    refine ⟨fun account hr => ?_, fun p hp => ?_⟩
    · rw [haccount] at hr
      exact hwelcomed'.trans (hwelcomed account hr)
    · rw [hsame] at hp
      exact hchallenged'.trans (hsrp p hp)

end Bncs

theorem deciding_sound (cfg : ServerConfig) : deciding.Sound (fun _ _ _ => True) cfg where
  starts _ _ := by
    refine ⟨?_, ?_, fun _ => rfl⟩
    · rintro _ ⟨⟩
    · rintro _ ⟨⟩
  takes := by
    intro s log frame hinv haccepts account haccount
    have hlogon : ¬ SessionState.Logon frame.id := fun hlogon => by
      have hnone := hinv.2.2 (by rw [SessionState.accepts_logon haccepts hlogon]; rfl)
      rw [hnone] at haccount
      cases haccount
    rw [attempt_concat]
    simp only [noteAttempt, hlogon, if_false]
    exact hinv.1 account haccount
  handles := by
    intro s log frame hinv haccepts _
    apply Contract.keeps_handle
    have hleaves : (s.dispatch cfg frame).Within (Bncs.footprint frame.id).Asks
        fun r => (Bncs.footprint frame.id).Keeps s r.2 := Bncs.dispatch_leaves
    refine ((Bncs.dispatch_decided hinv haccepts).within hleaves.any).mono fun r log' hr => ?_
    obtain ⟨⟨hwelcomed, hsrp⟩, hkeeps⟩ := hr
    refine ⟨fun _ => ?_, fun _ => ⟨hwelcomed, ?_⟩⟩
    · obtain ⟨haccount, _, hsame⟩ := r.2.advance_fields frame.id
      refine ⟨?_, ?_, Bncs.advance_account haccepts hkeeps hinv.2.2⟩
      · rw [haccount]
        exact hwelcomed
      · rw [hsame]
        exact hsrp
    · exact (keeps_attempt _ Bncs.leave_quiet log').mono fun _ _ _ => trivial
  notes := by
    intro s log q answer hduring hasks hanswer account haccount
    rw [attempt_concat]
    cases q
    case sendFrame reply =>
      have hno : welcomes (attempt log).packet reply = false := Bool.eq_false_iff.mpr fun h => by
        rw [(hasks h).1] at haccount
        cases haccount
      rw [noteAttempt, hno]
      exact hduring account haccount
    case account name =>
      rw [noteAttempt]
      split
      · exact hduring account haccount
      · exact hduring account haccount
    all_goals exact hduring account haccount
  leaves state hinv _ :=
    ⟨hinv.1, (keeps_attempt _ Bncs.leave_quiet _).mono fun _ _ _ => trivial⟩

/-- The answer lets a logon pass. -/
def Request.passes : (q : Request) → Reply q → Bool
  | .isTagBanned _, banned => !banned
  | _, _ => false

/-- Who passed the checks of a logon or was answered with success is not among those banned. -/
def Attempt.Vetted (a : Attempt) (bans : AccountId → Option Ban) : Prop :=
  (a.cleared = true → ∀ account ∈ a.subject, bans account.id = none) ∧
    ∀ account ∈ a.welcomed, bans account.id = none

namespace Attempt.Vetted

variable {a : Attempt} {bans : AccountId → Option Ban}

/-- A packet starts over, with new bans if it is a logon. -/
theorem took (h : a.Vetted bans) (frame : Frame) (current : AccountId → Option Ban) :
    (noteAttempt a (.took frame)).Vetted
      (if SessionState.Logon frame.id then current else bans) := by
  by_cases hlogon : SessionState.Logon frame.id
  · simp [noteAttempt, hlogon, Vetted]
  · simpa [noteAttempt, hlogon, Vetted] using h.2

theorem asked {s : Bncs} {log : List Entry} (h : (attempt log).Vetted bans) {q : Request}
    {answer : Reply q} (hasks : deciding.asks s log q)
    (hclean : q.passes answer = true → ∀ account ∈ (attempt log).subject, bans account.id = none) :
    (noteAttempt (attempt log) (.asked q answer)).Vetted bans := by
  cases q
  case account name =>
    rw [noteAttempt]
    split
    · exact ⟨fun hcleared => absurd hcleared Bool.false_ne_true, h.2⟩
    · exact ⟨fun hcleared => absurd hcleared Bool.false_ne_true, h.2⟩
  case isTagBanned name => exact ⟨fun hcleared => hclean hcleared, h.2⟩
  case sendFrame reply =>
    rw [noteAttempt]
    split
    · rename_i hwelcomes
      have hcleared := (hasks hwelcomes).2
      exact ⟨fun _ => h.1 hcleared, h.1 hcleared⟩
    · exact h
  all_goals exact h

end Attempt.Vetted

/-! ## The storage behind the node -/

/-- The storage and the time in seconds, and for each connection who was banned when its last logon
arrived. -/
structure Vault (S : Type) where
  store : S
  now : Nat
  bans : ConnId → AccountId → Option Ban

variable {S : Type} [Storage S]

namespace Vault

def new (store : S) : Vault S := ⟨store, 0, fun _ _ => none⟩

/-- The ban on an account that is in force. -/
def banned (v : Vault S) (id : AccountId) : Option Ban :=
  (Storage.banGet v.store id v.now).1.toOption.join

/-- Who else calls the storage, and the passage of time. -/
inductive Move where
  | call (c : Storage.Call)
  | clock (now : Nat)

end Vault

/-- The storage looks up accounts. It is called by others too, among them those who ban. -/
def vault : Part (Vault S) Vault.Move where
  takes v i frame :=
    if SessionState.Logon frame.id then { v with bans := Function.update v.bans i v.banned } else v
  answer v _
    | .account name, _ =>
      let (found, store) := Storage.accountByName v.store name
      (found.toOption.join, { v with store })
    | _, other => (other, v)
  moves v
    | .call c => { v with store := (Storage.answer v.store c).2 }
    | .clock now => { v with now }

namespace Fitted

/-- No account that was banned when its logon arrived is answered with success, or is that of the
session. -/
def KeptOut (w : Fitted (Vault S)) : Prop :=
  ∀ i account, (attempt (w.server.log i)).welcomed = some account ∨
    (w.server.session i).bind (·.account) = some account → w.part.bans i account.id = none

/-- The account that passes the checks of its logon was not banned when that arrived. -/
def Clean (w : Fitted (Vault S)) : Part.Event Vault.Move → Prop
  | .server (.turn i others) => ∀ q ∈ w.server.asking i, q.passes (others q) = true →
    ∀ account ∈ (attempt (w.server.log i)).subject, w.part.bans i account.id = none
  | _ => True

variable {cfg : ServerConfig} {w : Fitted (Vault S)}

/-- The sessions keep to what they may do, and who passed their checks was not banned. -/
def Vetted (w : Fitted (Vault S)) : Prop :=
  Part.Keeps deciding w ∧ ∀ i, (attempt (w.server.log i)).Vetted (w.part.bans i)

omit [Storage S] in
/-- What holds of a connection holds of it with an entry more, and of the others. -/
theorem vetted_note {w' : Fitted (Vault S)}
    (h : ∀ i, (attempt (w.server.log i)).Vetted (w.part.bans i)) {i : ConnId} {entry : Entry}
    (hlog : w'.server.log = Function.update w.server.log i (w.server.log i ++ [entry]))
    (hbans : ∀ j ≠ i, w'.part.bans j = w.part.bans j)
    (hentry : (noteAttempt (attempt (w.server.log i)) entry).Vetted (w'.part.bans i)) (j : ConnId) :
    (attempt (w'.server.log j)).Vetted (w'.part.bans j) := by
  rw [hlog]
  by_cases hj : j = i
  · rw [hj, Function.update_self, attempt_concat]
    exact hentry
  · rw [Function.update_of_ne hj, hbans j hj]
    exact h j

theorem vetted_step (h : w.Vetted) (event : Part.Event Vault.Move) (hclean : w.Clean event) :
    (vault.step cfg w event).Vetted := by
  refine ⟨Part.keeps_step (deciding_sound cfg) (fun _ _ _ => trivial) h.1 event, ?_⟩
  have hstill {event : Server.Event} (hevent : w.server.entry cfg (vault.served w event) = none)
      (j : ConnId) : (attempt ((vault.step cfg w (.server event)).server.log j)).Vetted
        ((vault.step cfg w (.server event)).part.bans j) := by
    obtain ⟨hpart, hlog⟩ := Part.step_still vault cfg event hevent
    rw [hpart, hlog]
    exact h.2 j
  cases event with
  | part move =>
    cases move with
    | call c => exact h.2
    | clock now => exact h.2
  | server event =>
    cases event with
    | accepts i selector ip realm serverToken => exact hstill rfl
    | hangUp i => exact hstill rfl
    | frame i frame =>
      by_cases htaking : (w.server.taking i frame).isSome = true
      · obtain ⟨hpart, hlog⟩ := Part.step_frame vault cfg htaking
        have hbans : (vault.step cfg w (.server (.frame i frame))).part.bans =
            Function.update w.part.bans i
              (if SessionState.Logon frame.id then w.part.banned else w.part.bans i) := by
          rw [hpart]
          show (if _ then _ else _ : Vault S).bans = _
          split
          · rfl
          · exact (Function.update_eq_self i _).symm
        refine vetted_note h.2 hlog (fun j hj => ?_) ?_
        · rw [hbans, Function.update_of_ne hj]
        · rw [hbans, Function.update_self]
          exact (h.2 i).took frame _
      · exact hstill (Option.map_eq_none_iff.mpr (Option.not_isSome_iff_eq_none.mp htaking))
    | turn i others =>
      cases hasking : w.server.asking i with
      | none => exact hstill (Option.map_eq_none_iff.mpr hasking)
      | some q =>
        obtain ⟨hpart, hlog⟩ := Part.step_turn vault cfg hasking others
        obtain ⟨s, _, _, hasks⟩ := (h.1 i).asking hasking
        have hbans : (vault.step cfg w (.server (.turn i others))).part.bans = w.part.bans := by
          rw [hpart]
          cases q <;> rfl
        refine vetted_note h.2 hlog (fun j _ => by rw [hbans]) ?_
        rw [hbans]
        refine (h.2 i).asked hasks fun hpasses => hclean q hasking ?_
        rw [← hpasses]
        cases q <;> rfl

omit [Storage S] in
theorem Vetted.keptOut (cfg : ServerConfig) (h : w.Vetted) : w.KeptOut := by
  intro i account haccount
  refine (h.2 i).2 account ?_
  rcases haccount with hwelcomed | hsession
  · exact hwelcomed
  · obtain ⟨s, hs, haccount⟩ := Option.bind_eq_some_iff.mp hsession
    exact (deciding_sound cfg).during_session (h.1 i) hs account haccount

omit [Storage S] in
theorem vetted_new (keys : KeyRegistry) (keyHolderNames : Map KeyId Text) (store : S) :
    Fitted.Vetted ⟨.new cfg keys keyHolderNames, Vault.new store⟩ := by
  refine ⟨Part.keeps_new, fun i => ⟨fun hcleared => ?_, fun account hwelcomed => ?_⟩⟩
  · cases hcleared
  · cases hwelcomed

end Fitted

/-- **A banned account is kept out** in the runs where every account that passes the proof and the
check of its name was without a ban when its logon arrived. -/
theorem banned_kept_out (cfg : ServerConfig) (keys : KeyRegistry) (keyHolderNames : Map KeyId Text)
    (store : S) (events : List (Part.Event Vault.Move))
    (h : Along (vault.step cfg) Fitted.Clean ⟨.new cfg keys keyHolderNames, Vault.new store⟩
      events) :
    Always (vault.step cfg) Fitted.KeptOut ⟨.new cfg keys keyHolderNames, Vault.new store⟩ events :=
  (Along.always (P := Fitted.Vetted) (fun _ event hw hevent => Fitted.vetted_step hw event hevent)
    (Fitted.vetted_new keys keyHolderNames store) h).imp fun _ hw => hw.keptOut cfg

namespace Server

def aliceStore : Storage.MemoryStorage :=
  (Storage.MemoryStorage.new.createAccount ⟨alice.name, alice.credential, 0, ∅⟩).2

/-- The same, where Alice is banned from the node. -/
def bannedStore : Storage.MemoryStorage := (aliceStore.banPut ⟨1, .node, [], 0, none⟩).2

end Server

instance (w : Fitted (Vault S)) (event : Part.Event Vault.Move) : Decidable (w.Clean event) :=
  match event with
  | .server (.turn i others) => inferInstanceAs (Decidable (∀ q ∈ w.server.asking i,
      q.passes (others q) = true → ∀ account ∈ (attempt (w.server.log i)).subject,
        w.part.bans i account.id = none))
  | .server (.accepts _ _ _ _ _) | .server (.frame _ _) | .server (.hangUp _) | .part _ =>
    .isTrue trivial

/-- A session that tries to log on as Alice, with the proof for a token that it was not given. -/
def Server.triesLogon (i : ConnId) : List Event :=
  .accepts i 0x01 (.v4 1) false 7 :: exchange alice i (authInfoFrame Product.star) ++
    exchange alice i ⟨Sid.authCheck, []⟩ ++ exchange alice i ⟨Sid.logonResponse2, logonBody 8⟩

theorem banned_kept_out_alice : Always (vault.step .lenient) Fitted.KeptOut
    ⟨.new .lenient (.new 500) ∅, Vault.new Server.bannedStore⟩ ((Server.triesLogon 0).map .server) :=
  banned_kept_out _ _ _ _ _ (by decide +kernel)

/-- Alice logs on although she is banned. -/
theorem banned_let_in : ¬ ∀ cfg keys keyHolderNames (store : Storage.MemoryStorage) events,
    Always (vault.step cfg) Fitted.KeptOut ⟨.new cfg keys keyHolderNames, Vault.new store⟩
      events := by
  intro h
  have hlast := (h .lenient (.new 500) ∅ Server.bannedStore ((Server.logsOn 0).map .server)).last
  have hbans := hlast 0 Server.alice (Or.inr (by decide +kernel))
  revert hbans
  decide +kernel

end CommandCenter.Daemon
