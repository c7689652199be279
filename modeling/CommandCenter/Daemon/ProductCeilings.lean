import CommandCenter.Core.AdmissionBooks
import CommandCenter.Daemon.ServerParts

/-!
# The ceilings of a product

`SID_AUTH_INFO` moves a connection onto the limits of its product before it says that the product
is known. `SID_STARTVERSIONING` sets the product and leaves the connection where it was counted.

* `charge`, `released`: what a connection is counted as, and how it was released.
* `charging_sound`: the class of a session is that of its product, if none opens with
  `SID_STARTVERSIONING`.
* `Server.Booked.step`: the admission table counts the connections by their charge.
* `product_ceilings`: the sessions of each product are within its ceilings.
-/

namespace CommandCenter.Daemon

open Rust CommandCenter.Core Proto Library

/-! ## What a connection is counted as -/

/-- The class after something was done. -/
def recharge (client : ClientClass) : Entry → ClientClass
  | .asked (.reclassify _ _ target) (.ok _) => target
  | _ => client

/-- The class of a session that did what is in its log. -/
def charge (log : List Entry) : ClientClass := log.foldl recharge .gamePending

/-- The classes that a session was released from. -/
def released (log : List Entry) : List ClientClass :=
  log.filterMap fun
    | .asked (.release client _) _ => some client
    | _ => none

@[simp] theorem charge_concat (log : List Entry) (entry : Entry) :
    charge (log ++ [entry]) = recharge (charge log) entry := by
  rw [charge, List.foldl_append]
  rfl

theorem charge_asked {q : Request} (h : q.concern ≠ .admission) (log : List Entry)
    (answer : Reply q) : charge (log ++ [.asked q answer]) = charge log := by
  rw [charge_concat]
  cases q
  all_goals first | rfl | exact absurd rfl h

theorem released_asked {q : Request} (h : q.concern ≠ .admission) (log : List Entry)
    (answer : Reply q) : released (log ++ [.asked q answer]) = released log := by
  rw [released, List.filterMap_append]
  cases q
  all_goals first | exact List.append_nil _ | exact absurd rfl h

theorem released_reclassify (log : List Entry) (ip : IpAddr) (source target : ClientClass)
    (answer : Except Rejection Unit) :
    released (log ++ [.asked (.reclassify ip source target) answer]) = released log := by
  rw [released, List.filterMap_append]
  exact List.append_nil _

theorem released_release (log : List Entry) (client : ClientClass) (ip : IpAddr) :
    released (log ++ [.asked (.release client ip) ()]) = released log ++ [client] := by
  rw [released, List.filterMap_append]
  rfl

@[simp] theorem charge_took (log : List Entry) (frame : Frame) :
    charge (log ++ [.took frame]) = charge log := charge_concat log _

@[simp] theorem released_took (log : List Entry) (frame : Frame) :
    released (log ++ [.took frame]) = released log := by
  rw [released, List.filterMap_append]
  exact List.append_nil _

namespace Bncs

/-- The opening packet is behind the session. -/
def Past (s : Bncs) : Prop := s.state ≠ .connected ∧ s.state ≠ .closing

/-- A session with a product is counted as a client of it. -/
def Charged (s : Bncs) (log : List Entry) : Prop :=
  s.Past → ∀ product, s.product = some product → charge log = .game product

end Bncs

/-- A request about admission names the class and the address of the session. -/
def Request.Fits (s : Bncs) (log : List Entry) : Request → Prop
  | .reclassify ip source _ => ip = s.peer ∧ source = charge log ∧ s.state = .connected
  | .release client ip => ip = s.peer ∧ client = charge log
  | _ => True

/-- How the class of a session is kept. -/
def charging : Contract where
  asks s log q := released log = [] ∧ q.Fits s log
  answers _ _ _ := True
  inv s log := released log = [] ∧ s.client = charge log ∧
    (s.state = .connected → s.product = none) ∧ s.Charged log
  during s log := s.Charged log ∧ ∀ client ∈ released log, client = charge log
  left log := released log = [charge log]

theorem Request.fits {q : Request} (h : q.concern ≠ .admission) (s : Bncs) (log : List Entry) :
    q.Fits s log := by
  cases q
  all_goals trivial

/-- A program that asks for nothing about admission leaves the class as it is. -/
theorem keeps_charge {α : Type} {post : α → Prop} {x : Program α} {log : List Entry}
    (h : x.Within (fun q => q.concern ≠ .admission) post) (s : Bncs) (hopen : released log = []) :
    x.Keeps (charging.watch s) (fun value log' => post value ∧ charge log' = charge log ∧
      released log' = []) log := by
  have hkeeps : x.Keeps (charging.watch s) (fun value log' => post value ∧
      (charge log', released log') = (charge log, released log)) log := by
    refine h.keeps (fun log => (charge log, released log)) (fun log q answer hq => ?_)
      fun log' q hlog' hq => ?_
    · exact Prod.ext (charge_asked hq log answer) (released_asked hq log answer)
    · exact ⟨(congrArg Prod.snd hlog').trans hopen, q.fits hq s log'⟩
  refine hkeeps.mono fun value log' hvalue => ⟨hvalue.1, ?_⟩
  obtain ⟨hcharge, hreleased⟩ := Prod.mk.inj hvalue.2
  exact ⟨hcharge, hreleased.trans hopen⟩

theorem Footprint.Asks.uncharged {fp : Footprint} {q : Request} (h : fp.Asks q)
    (hfp : fp.concern ≠ .admission) : q.concern ≠ .admission := by
  rcases h with hother | hsame | ⟨_, hlisting⟩
  · rw [hother]
    exact Concern.noConfusion
  · rw [hsame]
    exact hfp
  · rw [hlisting]
    exact Concern.noConfusion

namespace Bncs

variable {cfg : ServerConfig} {s : Bncs} {frame : Frame} {log : List Entry}

/-- A session is released from the class it is counted as. -/
theorem leave_charges (hopen : released log = []) (hclient : s.client = charge log) :
    s.leave.Keeps (charging.watch s) (fun _ => charging.left) log := by
  have hcleanup : s.cleanup.Within (fun q => q.concern ≠ .admission) fun _ => True :=
    cleanup_within.imp fun q hq => hq.uncharged Concern.noConfusion
  refine Asking.keeps_bind.mpr ((keeps_charge hcleanup s hopen).mono fun _ log' hlog' => ?_)
  obtain ⟨_, hcharge, hopen'⟩ := hlog'
  have hsame : s.client = charge log' := hclient.trans hcharge.symm
  refine ⟨⟨hopen', rfl, hsame⟩, fun _ _ => ?_⟩
  show released (log' ++ [.asked (.release s.client s.peer) ()]) = [charge (log' ++ [_])]
  rw [released_release, charge_concat, hopen', hsame]
  rfl

theorem markNoUdp_fields (s : Bncs) (product : FourCc) :
    (s.markNoUdp product).client = s.client ∧ (s.markNoUdp product).product = s.product := by
  unfold markNoUdp
  split <;> exact ⟨rfl, rfl⟩

theorem reply_within (reply : Text × Nat → Frame) :
    Asking.Within (fun q => q.concern ≠ .admission) (fun r : Step × Bncs => r.2 = s) (do
      let (mpq, filetime) ← s.versionMpq
      s.send (reply (mpq, filetime))) := by
  have hmpq : s.versionMpq.Within Footprint.light.Asks fun _ => True := versionMpq_within
  refine (hmpq.imp fun q hq => hq.uncharged Concern.noConfusion).bind fun _ _ => ?_
  exact ⟨Concern.noConfusion, fun _ _ => rfl⟩

theorem authInfo_charges (hopen : released log = []) (hclient : s.client = charge log)
    (hstate : s.state = .connected) :
    (s.authInfo cfg frame).Keeps (charging.watch s) (fun r log' => released log' = [] ∧
      r.2.client = charge log' ∧ (r.1 = .continue →
        ∀ product, r.2.product = some product → charge log' = .game product)) log := by
  unfold authInfo
  split
  · exact ⟨hopen, hclient, fun h => absurd h Step.noConfusion⟩
  · rename_i platform product versionByte _
    refine ⟨⟨hopen, rfl, hclient, hstate⟩, fun moved _ => ?_⟩
    have hopen' : released (log ++ [.asked (.reclassify s.peer s.client (.game product)) moved]) =
        [] := by rw [released_reclassify, hopen]
    cases moved with
    | error rejection =>
      refine ⟨hopen', ?_, fun h => absurd h Step.noConfusion⟩
      show s.client = charge (log ++ [_])
      rw [charge_concat]
      exact hclient
    | ok u =>
      refine (keeps_charge (reply_within fun r => ⟨Sid.authInfo, authInfoReply cfg _ product r.1
        r.2⟩) s hopen').mono fun r log' hr => ?_
      obtain ⟨hr, hcharge, hreleased⟩ := hr
      rw [charge_concat] at hcharge
      obtain ⟨hclient', hproduct⟩ := markNoUdp_fields
        { s.withVersion platform product versionByte with client := .game product } product
      refine ⟨hreleased, ?_, fun _ product' hproduct' => ?_⟩
      · rw [hr, hcharge]
        exact hclient'
      · rw [hr] at hproduct'
        obtain rfl : product = product' := Option.some.inj (hproduct.symm.trans hproduct')
        exact hcharge

theorem startVersioning_product (h : (Reader.read readVersion frame).isOk = false) :
    (s.startVersioning frame).Within (fun q => q.concern ≠ .admission) fun r => r.2 = s := by
  unfold startVersioning
  cases hread : Reader.read readVersion frame with
  | error _ =>
    exact reply_within fun r => ⟨Sid.startVersioning,
      Writer.u64 r.2 ++ Writer.cstr r.1.asBytes ++ Writer.cstr neutralFormula.asBytes⟩
  | ok _ =>
    rw [hread] at h
    cases h

/-- What every other packet leaves. -/
theorem dispatch_uncharged (hid : frame.id ≠ Sid.authInfo)
    (hversion : frame.id = Sid.startVersioning → (Reader.read readVersion frame).isOk = false) :
    (s.dispatch cfg frame).Within (fun q => q.concern ≠ .admission) fun r =>
      r.2.client = s.client ∧ r.2.product = s.product ∧ r.2.state = s.state := by
  by_cases hlegacy : frame.id = Sid.startVersioning
  · have hdispatch : s.dispatch cfg frame = s.startVersioning frame := by
      rw [dispatch, hlegacy]
      rfl
    rw [hdispatch]
    refine (startVersioning_product (hversion hlegacy)).mono fun r _ hr => ?_
    obtain ⟨step, s'⟩ := r
    obtain rfl : s' = s := hr
    exact ⟨rfl, rfl, rfl⟩
  · obtain ⟨hconcern, hclient⟩ := footprint_admission hid
    have hleaves : (s.dispatch cfg frame).Within (footprint frame.id).Asks
        fun r => (footprint frame.id).Keeps s r.2 := dispatch_leaves
    refine (hleaves.imp fun q hq => hq.uncharged hconcern).mono fun r _ hr => ⟨?_, ?_, hr.state⟩
    · exact hr.client.resolve_left (by rw [hclient]; exact Bool.false_ne_true)
    · have hopener : ¬ SessionState.Opener frame.id := fun h => h.elim hid hlegacy
      have hversion := hr.version.resolve_left (by
        rw [footprint_version hopener]
        exact Bool.false_ne_true)
      exact congrArg Prod.fst hversion

end Bncs

/-- A session that opens with `SID_STARTVERSIONING` does not say what it is. -/
def Unnamed (_ : Bncs) (_ : List Entry) (frame : Frame) : Prop :=
  frame.id = Sid.startVersioning → (Reader.read Bncs.readVersion frame).isOk = false

theorem charging_sound (cfg : ServerConfig) : charging.Sound Unnamed cfg where
  starts ip serverToken := ⟨rfl, rfl, fun _ => rfl, fun hpast => absurd rfl hpast.1⟩
  takes := by
    intro s log frame hinv _
    obtain ⟨hopen, _, _, hcharged⟩ := hinv
    refine ⟨?_, ?_⟩
    · unfold Bncs.Charged
      rw [charge_took]
      exact hcharged
    · rw [released_took, hopen]
      exact fun _ h => absurd h List.not_mem_nil
  handles := by
    intro s log frame hinv haccepts hunnamed
    obtain ⟨hopen, hclient, hconnected, hcharged⟩ := hinv
    have hopen' : released (log ++ [.took frame]) = [] := by rw [released_took, hopen]
    have hclient' : s.client = charge (log ++ [.took frame]) := by rw [charge_took, hclient]
    have hleaving {s' : Bncs} {log' : List Entry} (hreleased : released log' = [])
        (hcounted : s'.client = charge log') :
        charging.Leaving { s' with state := .closing } log' := by
      refine ⟨⟨fun hpast => absurd rfl hpast.2, ?_⟩, Bncs.leave_charges hreleased hcounted⟩
      rw [hreleased]
      exact fun _ h => absurd h List.not_mem_nil
    apply Contract.keeps_handle
    by_cases hid : frame.id = Sid.authInfo
    · have hstate := SessionState.accepts_opener haccepts (Or.inl hid)
      have hdispatch : s.dispatch cfg frame = s.authInfo cfg frame := by
        rw [Bncs.dispatch, if_pos hid]
      rw [hdispatch]
      refine ((Bncs.authInfo_charges hopen' hclient' hstate).within
        Bncs.authInfo_leaves).mono fun r log' hr => ?_
      obtain ⟨⟨hreleased, hcounted, hproduct⟩, hkeeps⟩ := hr
      refine ⟨fun hcontinue => ?_, fun _ => hleaving hreleased hcounted⟩
      have hadvance : r.2.advance frame.id = { r.2 with state := .versioning } := by
        refine Bncs.advance_of ?_ (Or.inl (by decide))
        rw [hkeeps.state, hstate]
        exact if_pos (Or.inl hid)
      rw [hadvance]
      exact ⟨hreleased, hcounted, SessionState.noConfusion, fun _ => hproduct hcontinue⟩
    · refine ((keeps_charge (Bncs.dispatch_uncharged hid hunnamed) s hopen').mono
        fun r log' hr => ?_)
      obtain ⟨⟨hsame, hproduct, hstate⟩, hcharge, hreleased⟩ := hr
      have hcounted : r.2.client = charge log' := by rw [hsame, hclient', hcharge]
      refine ⟨fun _ => ?_, fun _ => hleaving hreleased hcounted⟩
      -- whether or not the opener is behind the session, a product comes with its class
      have hnamed : ∀ product, r.2.product = some product → charge log' = .game product := by
        intro product hsome
        rw [hproduct] at hsome
        rw [hcharge, charge_took]
        refine hcharged ⟨fun hstate' => ?_, SessionState.accepts_ne_closing haccepts⟩ product hsome
        rw [hconnected hstate'] at hsome
        cases hsome
      rcases r.2.advance_cases frame.id with hstays | ⟨next, hmoves, _, hnext⟩
      · rw [hstays]
        refine ⟨hreleased, hcounted, fun hstate' => ?_, fun _ => hnamed⟩
        rw [hproduct]
        exact hconnected (hstate.symm.trans hstate')
      · rw [hnext]
        exact ⟨hreleased, hcounted, fun hstate' => absurd hstate' hmoves.ne_connected,
          fun _ => hnamed⟩
  notes := by
    intro s log q answer hduring hasks _
    obtain ⟨hcharged, hmatch⟩ := hduring
    obtain ⟨hopen, hfits⟩ := hasks
    by_cases hconcern : q.concern = .admission
    · cases q with
      | reclassify ip source target =>
        refine ⟨fun hpast => absurd hfits.2.2 hpast.1, ?_⟩
        rw [released_reclassify, hopen]
        exact fun _ h => absurd h List.not_mem_nil
      | release client ip =>
        refine ⟨?_, ?_⟩
        · unfold Bncs.Charged
          rw [charge_concat]
          exact hcharged
        · rw [charge_concat, released_release, hopen]
          exact fun client' hmem => (List.mem_singleton.mp hmem).trans hfits.2
      | _ => cases hconcern
    · unfold charging Bncs.Charged
      dsimp only
      rw [charge_asked hconcern, released_asked hconcern]
      exact ⟨hcharged, hmatch⟩
  leaves := by
    intro s log state hinv hstate
    obtain ⟨hopen, hclient, _, hcharged⟩ := hinv
    refine ⟨⟨fun hpast => ?_, ?_⟩, Bncs.leave_charges hopen hclient⟩
    · rcases hstate with rfl | rfl
      · exact hcharged hpast
      · exact absurd rfl hpast.2
    · rw [hopen]
      exact fun _ h => absurd h List.not_mem_nil

/-! ## The admission table -/

def Conn.counted (i : ConnId) (log : List Entry) : Conn → Option Connection
  | .plain client ip => some ⟨i, client, ip⟩
  | .idle s | .handling s _ _ | .leaving s _ => some ⟨i, charge log, s.peer⟩
  | .unused | .ended => none

/-- What a session is counted as until it is released. -/
def ticket (i : ConnId) (s : Bncs) (log : List Entry) : Option Connection :=
  if released log = [] then some ⟨i, charge log, s.peer⟩ else none

theorem ticket_open {i : ConnId} {s : Bncs} {log : List Entry} (h : released log = []) :
    ticket i s log = some ⟨i, charge log, s.peer⟩ := if_pos h

theorem settle_counted {i : ConnId} {s : Bncs} {frame : Frame} {rest : Handling}
    {log : List Entry} (h : rest.Keeps (charging.watch s)
      (fun r log => charging.Handled r log ∧ r.2.peer = s.peer) log) :
    (Conn.settle s frame rest).counted i log = ticket i s log := by
  match rest, h with
  | .done (.continue, s'), ⟨hinv, hpeer⟩ =>
    rw [ticket_open hinv.1, ← hpeer]
    rfl
  | .done (.close, s'), ⟨⟨_, hleave⟩, hpeer⟩ =>
    have hasks : released log = [] := hleave.1.1
    rw [ticket_open hasks, ← hpeer]
    rfl
  | .ask q next, hkeeps =>
    rw [ticket_open hkeeps.1.1]
    rfl

theorem settleLeaving_counted {i : ConnId} {s : Bncs} {rest : Program Unit} {log : List Entry}
    (h : rest.Keeps (charging.watch s) (fun _ => charging.left) log) :
    (Conn.settleLeaving s rest).counted i log = ticket i s log := by
  match rest, h with
  | .done _, hleft =>
    have hreleased : released log = [charge log] := hleft
    rw [ticket, if_neg (by rw [hreleased]; exact List.cons_ne_nil _ _)]
    rfl
  | .ask q next, hkeeps =>
    rw [ticket_open hkeeps.1.1]
    rfl

theorem accepted_counted (i : ConnId) (selector : ProtocolSelector) (ip : IpAddr) (realm : Bool)
    (serverToken : UInt32) : (Conn.accepted selector ip realm serverToken).counted i [] =
      some ⟨i, selector.client, ip⟩ := by
  cases selector <;> cases realm <;> rfl

namespace Server

variable {cfg : ServerConfig} {v : Server} {i j : ConnId}

def counted (v : Server) (i : ConnId) : Option Connection := (v.conns i).counted i (v.log i)

/-- The table is that of some traffic, in which each connection is what it is counted as. -/
structure Books (cfg : ServerConfig) (v : Server) (events : List Traffic.Event) : Prop where
  uses : ∀ e ∈ events, e.Uses cfg.clients.forClass
  spares : ∀ ip ∉ cfg.allowlist, ∀ e ∈ events, e.Spares ip
  table : (run Traffic.step .new events).table = v.admission
  found : ∀ i, (run Traffic.step .new events).find i = v.counted i

def Booked (cfg : ServerConfig) (v : Server) : Prop := ∃ events, v.Books cfg events

theorem booked_new (keys : KeyRegistry) (keyHolderNames : Map KeyId Text) :
    (new cfg keys keyHolderNames).Booked cfg := by
  refine ⟨[.setAllowlist cfg.allowlist], ?_, fun ip hip => ?_, rfl, fun _ => rfl⟩
  · exact List.forall_mem_singleton.mpr trivial
  · exact List.forall_mem_singleton.mpr hip

/-- One more event of the traffic. -/
theorem Books.snoc {events : List Traffic.Event} (h : v.Books cfg events) {v' : Server}
    (e : Traffic.Event) (huses : e.Uses cfg.clients.forClass) (hspares : ∀ ip, e.Spares ip)
    (htable : ((run Traffic.step .new events).step e).table = v'.admission)
    (hfound : ∀ i, ((run Traffic.step .new events).step e).find i = v'.counted i) :
    v'.Booked cfg := by
  have hrun : run Traffic.step .new (events ++ [e]) = (run Traffic.step .new events).step e := by
    rw [run_append]
    rfl
  refine ⟨events ++ [e], fun e' he' => ?_, fun ip hip e' he' => ?_, ?_, fun i => ?_⟩
  · rcases List.mem_append.mp he' with hold | hnew
    · exact h.uses e' hold
    · rw [List.mem_singleton.mp hnew]
      exact huses
  · rcases List.mem_append.mp he' with hold | hnew
    · exact h.spares ip hip e' hold
    · rw [List.mem_singleton.mp hnew]
      exact hspares ip
  · rw [hrun]
    exact htable
  · rw [hrun]
    exact hfound i

/-- What is counted does not change, and neither does the table. -/
theorem Booked.of_same (h : v.Booked cfg) {v' : Server} (htable : v'.admission = v.admission)
    (hcounted : ∀ i, v'.counted i = v.counted i) : v'.Booked cfg := by
  obtain ⟨events, hbooks⟩ := h
  refine ⟨events, hbooks.uses, hbooks.spares, hbooks.table.trans htable.symm, fun i => ?_⟩
  rw [hcounted, hbooks.found]

theorem counted_of_ne {v' : Server} (hconns : v'.conns j = v.conns j)
    (hlog : v'.log j = v.log j) : v'.counted j = v.counted j := by
  unfold counted
  rw [hconns, hlog]

theorem answer_admission {q : Request} (h : q.concern ≠ .admission) (other : Reply q) :
    (v.answer cfg q other).2.admission = v.admission := by
  cases q
  case claimKey key now =>
    show (v.claimKey key now).2.admission = _
    unfold claimKey
    split <;> rfl
  all_goals first | rfl | exact absurd rfl h

/-- One request of a session is answered. -/
theorem Booked.turn (h : v.Booked cfg) {s : Bncs} {q : Request} (other : Reply q)
    (hasks : charging.asks s (v.log i) q)
    (hcounted : v.counted i = some ⟨i, charge (v.log i), s.peer⟩) {conn : Conn}
    (hconn : conn.counted i (v.log i ++ [.asked q (v.answer cfg q other).1]) =
      ticket i s (v.log i ++ [.asked q (v.answer cfg q other).1])) :
    (((v.answer cfg q other).2.note i (.asked q (v.answer cfg q other).1)).setConn i
      conn).Booked cfg := by
  obtain ⟨hopen, hfits⟩ := hasks
  generalize hafter : ((v.answer cfg q other).2.note i (.asked q (v.answer cfg q other).1)).setConn
    i conn = v'
  have hadmission : v'.admission = (v.answer cfg q other).2.admission := hafter ▸ rfl
  have hlog : v'.log i = v.log i ++ [.asked q (v.answer cfg q other).1] := by
    rw [← hafter, setConn_log, note_self, answer_log]
  have hself : v'.counted i = ticket i s (v'.log i) := by
    unfold counted
    rw [hlog, ← hconn, ← hafter, setConn_self]
  have hothers (j : ConnId) (hj : j ≠ i) : v'.counted j = v.counted j := by
    apply counted_of_ne
    · rw [← hafter, setConn_of_ne _ hj, note_conns, answer_conns]
    · rw [← hafter, setConn_log, note_of_ne _ hj, answer_log]
  by_cases hconcern : q.concern = .admission
  · obtain ⟨events, hbooks⟩ := h
    have hfind := (hbooks.found i).trans hcounted
    cases q with
    | reclassify ip source target =>
      obtain ⟨rfl, rfl, _⟩ := hfits
      obtain ⟨htable, hfound⟩ := Traffic.find_moved (Traffic.distinct_run events) hfind target
        (cfg.clients.forClass target)
      have hresult : (v.answer cfg (.reclassify s.peer (charge (v.log i)) target) other).1 =
          (v.admission.reclassify s.peer (charge (v.log i)) target
            (cfg.clients.forClass target)).1 := rfl
      refine hbooks.snoc (.reclassify i target (cfg.clients.forClass target)) rfl
        (fun _ => trivial) ?_ fun j => ?_
      · rw [htable, hbooks.table, hadmission]
        rfl
      · rw [hfound, hbooks.table, ← hresult]
        by_cases hj : j = i
        · rw [hj, hself, hlog, ticket_open (by rw [released_reclassify, hopen]), charge_concat]
          cases (v.answer cfg (.reclassify s.peer (charge (v.log i)) target) other).1 with
          | ok u => exact if_pos ⟨rfl, rfl⟩
          | error rejection =>
            rw [if_neg (by rintro ⟨_, ⟨⟩⟩), hfind]
            rfl
        · rw [if_neg fun h => hj h.1, hbooks.found, hothers j hj]
    | release client ip =>
      obtain ⟨rfl, rfl⟩ := hfits
      obtain ⟨htable, hfound⟩ := Traffic.find_released (Traffic.distinct_run events) hfind
      refine hbooks.snoc (.release i) trivial (fun _ => trivial) ?_ fun j => ?_
      · rw [htable, hbooks.table, hadmission]
        rfl
      · rw [hfound]
        by_cases hj : j = i
        · have hreleased : released (v'.log i) ≠ [] := by
            rw [hlog]
            show released (v.log i ++ [.asked (.release _ _) ()]) ≠ []
            rw [released_release, hopen]
            exact List.cons_ne_nil _ _
          rw [if_pos hj, hj, hself, ticket, if_neg hreleased]
        · rw [if_neg hj, hbooks.found, hothers j hj]
    | _ => cases hconcern
  · refine h.of_same (hadmission.trans (answer_admission hconcern other)) fun j => ?_
    by_cases hj : j = i
    · rw [hj, hself, hcounted, hlog, ticket_open (by rw [released_asked hconcern, hopen]),
        charge_asked hconcern]
    · exact hothers j hj

theorem Booked.setConn (h : v.Booked cfg) {v' : Server} {conn : Conn}
    (hadmission : v'.admission = v.admission) (hconns : v'.conns = v.conns)
    (hlog : ∀ j ≠ i, v'.log j = v.log j) (hconn : conn.counted i (v'.log i) = v.counted i) :
    (v'.setConn i conn).Booked cfg := by
  refine h.of_same hadmission fun j => ?_
  by_cases hj : j = i
  · rw [hj, ← hconn, counted, setConn_self, setConn_log]
  · apply counted_of_ne
    · rw [setConn_of_ne _ hj, hconns]
    · rw [setConn_log, hlog j hj]

/-- The table is kept by everything that happens. -/
theorem Booked.step (h : v.Booked cfg) (hv : ∀ i, charging.Holds (v.conns i) (v.log i))
    {event : Event} (hevent : charging.Meets Unnamed cfg v event) :
    (v.step cfg event).Booked cfg := by
  cases event with
  | accepts i selector ip realm serverToken =>
    rw [Server.step]
    split
    · rename_i selector hunused _
      have hlog : v.log i = [] := by simpa only [hunused, Contract.Holds] using hv i
      have hcounted : v.counted i = none := by rw [counted, hunused]; rfl
      rw [accepts]
      cases hadmit : v.admission.admitConnection selector.client ip
          (cfg.clients.forClass selector.client) with
      | mk result table =>
        cases result with
        | error rejection =>
          exact h.setConn rfl rfl (fun _ _ => rfl) hcounted.symm
        | ok u =>
          obtain ⟨events, hbooks⟩ := h
          have hnone := (hbooks.found i).trans hcounted
          obtain ⟨htable, hfound⟩ := Traffic.find_admitted hnone selector.client ip
            (cfg.clients.forClass selector.client)
          rw [hbooks.table, hadmit] at htable
          refine hbooks.snoc (.admission i selector.client ip _) rfl (fun _ => trivial) htable
            fun j => ?_
          rw [hfound, hbooks.table, hadmit]
          by_cases hj : j = i
          · rw [if_pos ⟨hj, rfl⟩, hj]
            unfold counted
            rw [setConn_self, setConn_log]
            show _ = Conn.counted i (v.log i) _
            rw [hlog, accepted_counted]
          · rw [if_neg fun h => hj h.1, hbooks.found]
            exact (counted_of_ne (setConn_of_ne _ hj) rfl).symm
    · exact h
  | frame i frame =>
    rw [Server.step]
    split
    · rename_i s hidle
      have hinv : charging.inv s (v.log i) := by simpa only [hidle, Contract.Holds] using hv i
      have hcounted : v.counted i = some ⟨i, charge (v.log i), s.peer⟩ := by
        rw [counted, hidle]
        rfl
      rw [takesFrame]
      split
      · rename_i haccepts
        have htaking : s ∈ v.taking i frame := by
          simp only [taking, hidle, haccepts]
          rfl
        have hkeeps := ((charging_sound cfg).handles hinv haccepts
          (hevent s htaking)).within (s.handle_peer frame)
        refine h.setConn rfl rfl (fun _ hj => note_of_ne _ hj) ?_
        rw [note_self, settle_counted hkeeps, ticket_open (by rw [released_took, hinv.1]),
          charge_took, hcounted]
      · split
        · exact h
        · exact h.setConn rfl rfl (fun _ _ => rfl) hcounted.symm
    · exact h
  | turn i others =>
    rw [Server.step]
    have hi := hv i
    split
    · rename_i s frame q next hhandling
      rw [hhandling] at hi
      refine h.turn (others q) hi.2.1 (by rw [counted, hhandling]; rfl) (settle_counted ?_)
      exact hi.2.resume trivial
    · rename_i s q next hleaving
      rw [hleaving] at hi
      refine h.turn (others q) hi.2.1 (by rw [counted, hleaving]; rfl) (settleLeaving_counted ?_)
      exact hi.2.resume trivial
    · exact h
  | hangUp i =>
    rw [Server.step]
    split
    · rename_i s hidle
      refine h.setConn rfl rfl (fun _ _ => rfl) ?_
      rw [counted, hidle]
      rfl
    · rename_i client ip hplain
      obtain ⟨events, hbooks⟩ := h
      have hfind : (run Traffic.step .new events).find i = some ⟨i, client, ip⟩ := by
        rw [hbooks.found, counted, hplain]
        rfl
      obtain ⟨htable, hfound⟩ := Traffic.find_released (Traffic.distinct_run events) hfind
      rw [hbooks.table] at htable
      refine hbooks.snoc (.release i) trivial (fun _ => trivial) htable fun j => ?_
      rw [hfound]
      by_cases hj : j = i
      · rw [if_pos hj, hj, counted, setConn_self]
        rfl
      · rw [if_neg hj, hbooks.found]
        exact (counted_of_ne (setConn_of_ne _ hj) rfl).symm
    · exact h

/-! ## The ceilings -/

/-- A session with a product, past its opening packet. -/
def Plays (v : Server) (product : FourCc) (i : ConnId) (s : Bncs) : Prop :=
  v.session i = some s ∧ s.Past ∧ s.product = some product

/-- The sessions of every product are counted as its clients, and within its ceilings. -/
structure Ceilings (cfg : ServerConfig) (v : Server) : Prop where
  charged : ∀ product i s, v.Plays product i s → charge (v.log i) = .game product
  released : ∀ i, ∀ client ∈ released (v.log i), client = charge (v.log i)
  global : ∀ product (S : Finset ConnId), (∀ i ∈ S, ∃ s, v.Plays product i s) →
    S.card ≤ (cfg.clients.forClass (.game product)).global.toNat
  perIp : ∀ product, ∀ ip ∉ cfg.allowlist, ∀ S : Finset ConnId,
    (∀ i ∈ S, ∃ s, v.Plays product i s ∧ s.peer = ip) →
    S.card ≤ (cfg.clients.forClass (.game product)).perIp.toNat

/-- No session opens with a `SID_STARTVERSIONING` that says what it is. -/
def AllModern (v : Server) : Event → Prop
  | .frame i frame => frame.id = Sid.startVersioning → (v.taking i frame).isSome = true →
      (Reader.read Bncs.readVersion frame).isOk = false
  | _ => True

instance AllModern.decidable (v : Server) (event : Event) : Decidable (v.AllModern event) :=
  match event with
  | .frame i frame => inferInstanceAs (Decidable (frame.id = Sid.startVersioning →
      (v.taking i frame).isSome = true → (Reader.read Bncs.readVersion frame).isOk = false))
  | .accepts _ _ _ _ _ | .turn _ _ | .hangUp _ => .isTrue trivial

theorem session_counted {s : Bncs} (h : v.session i = some s) :
    v.counted i = some ⟨i, charge (v.log i), s.peer⟩ := by
  unfold session at h
  unfold counted
  generalize v.conns i = conn at h
  cases conn with
  | idle s' | handling s' _ _ | leaving s' _ =>
    obtain rfl := Option.some.inj h
    rfl
  | unused | plain _ _ | ended => cases h

theorem ceilings_of_booked (hv : ∀ i, charging.Holds (v.conns i) (v.log i))
    (h : v.Booked cfg) : v.Ceilings cfg := by
  have hcharged (product : FourCc) (i : ConnId) (s : Bncs) (hs : v.Plays product i s) :
      charge (v.log i) = .game product :=
    ((charging_sound cfg).during_session (hv i) hs.1).1 hs.2.1 product hs.2.2
  obtain ⟨events, hbooks⟩ := h
  have hfind (product : FourCc) (i : ConnId) (s : Bncs) (hs : v.Plays product i s) :
      (run Traffic.step .new events).find i = some ⟨i, .game product, s.peer⟩ := by
    rw [hbooks.found, session_counted hs.1, hcharged product i s hs]
  refine ⟨hcharged, fun i client hclient => ?_, fun product S hS => ?_,
    fun product ip hip S hS => ?_⟩
  · have hi := hv i
    have hnone (hlog : v.log i = []) : client = charge (v.log i) := by
      rw [hlog] at hclient
      exact absurd hclient List.not_mem_nil
    generalize v.conns i = conn at hi
    cases conn with
    | unused | plain _ _ => exact hnone hi
    | idle s =>
      rw [hi.1] at hclient
      exact absurd hclient List.not_mem_nil
    | handling s frame rest =>
      cases rest with
      | done _ => exact hi.elim
      | ask q next => exact hi.1.2 client hclient
    | leaving s rest =>
      cases rest with
      | done _ => exact hi.elim
      | ask q next => exact hi.1.2 client hclient
    | ended =>
      rcases hi with hlog | hleft
      · exact hnone hlog
      · have hleft : CommandCenter.Daemon.released (v.log i) = [charge (v.log i)] := hleft
        rw [hleft] at hclient
        exact List.mem_singleton.mp hclient
  · refine Traffic.card_le_global hbooks.uses (.game product) S fun i hi => ?_
    obtain ⟨s, hs⟩ := hS i hi
    exact ⟨_, hfind product i s hs, rfl⟩
  · refine Traffic.card_le_perIp hbooks.uses (hbooks.spares ip hip) (.game product) S fun i hi => ?_
    obtain ⟨s, hs, hpeer⟩ := hS i hi
    exact ⟨_, hfind product i s hs, rfl, hpeer⟩

/-- **Per-product ceilings bound the sessions of a product**, if no session opens with a
`SID_STARTVERSIONING` that says what it is. -/
theorem product_ceilings (cfg : ServerConfig) (keys : KeyRegistry)
    (keyHolderNames : Map KeyId Text) (events : List Event)
    (h : Along (Server.step cfg) AllModern (.new cfg keys keyHolderNames) events) :
    Always (Server.step cfg) (Ceilings cfg) (.new cfg keys keyHolderNames) events := by
  have hmeets : ∀ v : Server, ∀ event, v.AllModern event → charging.Meets Unnamed cfg v event := by
    intro v event hevent
    cases event with
    | frame i frame =>
      intro s hs hid
      refine hevent hid ?_
      rw [Option.mem_def.mp hs]
      rfl
    | turn i others => exact fun _ _ => trivial
    | accepts _ _ _ _ _ | hangUp _ => trivial
  have hbooked : Always (Server.step cfg)
      (fun v => (∀ i, charging.Holds (v.conns i) (v.log i)) ∧ v.Booked cfg)
      (.new cfg keys keyHolderNames) events := by
    refine Along.always (fun v event hv hevent => ?_) ⟨fun i => ?_, ?_⟩ h
    · have hevent := hmeets v event hevent
      exact ⟨fun j => (charging_sound cfg).step (hv.1 j) fun _ => hevent, hv.2.step hv.1 hevent⟩
    · show ([] : List Entry) = []
      rfl
    · exact booked_new keys keyHolderNames
  exact hbooked.imp fun v hv => ceilings_of_booked hv.1 hv.2

/-- One StarCraft client at a time. -/
def oneEach : ServerConfig :=
  { ServerConfig.lenient with clients := ⟨⟨9, 9, 9⟩, ⟨9, 9, 9⟩, ⟨9, 9, 9⟩, ⟨1, 1, 1⟩, ∅⟩ }

/-- A second client is turned away. -/
theorem product_ceilings_modern : Always (Server.step oneEach) (Ceilings oneEach)
    (.new oneEach (.new 500) ∅)
    (.accepts 0 0x01 (.v4 1) false 7 :: exchange alice 0 (authInfoFrame Product.star) ++
      .accepts 1 0x01 (.v4 2) false 8 :: exchange alice 1 (authInfoFrame Product.star)) := by
  refine product_ceilings _ _ _ _ ?_
  decide +kernel

/-- Two clients that open with `SID_STARTVERSIONING`. -/
def twoLegacy : List Event :=
  let legacy : Frame := ⟨Sid.startVersioning, Writer.u32 (FourCc.fromAscii 'I' 'X' '8' '6').value ++
    Writer.u32 Product.star.value ++ Writer.u32 0xD3⟩
  .accepts 0 0x01 (.v4 1) false 7 :: exchange alice 0 legacy ++
    .accepts 1 0x01 (.v4 2) false 8 :: exchange alice 1 legacy

/-- Two sessions of a product with a ceiling of one. -/
theorem ceiling_exceeded : ¬ ∀ cfg keys keyHolderNames events,
    Always (Server.step cfg) (Ceilings cfg) (.new cfg keys keyHolderNames) events := by
  intro h
  let v := run (Server.step oneEach) (.new oneEach (.new 500) ∅) twoLegacy
  have hceilings : v.Ceilings oneEach := (h _ _ _ _).last
  have hplays : ∀ i ∈ ({0, 1} : Finset ConnId), ∃ s, v.Plays Product.star i s := by
    have hsession : ∀ i ∈ ({0, 1} : Finset ConnId),
        (v.session i).map (fun s => (s.state, s.product)) =
          some (.versioning, some Product.star) := by decide +kernel
    intro i hi
    obtain ⟨s, hs, hfacts⟩ := Option.map_eq_some_iff.mp (hsession i hi)
    obtain ⟨hstate, hproduct⟩ := Prod.mk.inj hfacts
    refine ⟨s, hs, ⟨?_, ?_⟩, hproduct⟩
    · rw [hstate]
      exact SessionState.noConfusion
    · rw [hstate]
      exact SessionState.noConfusion
  have hcard := hceilings.global Product.star {0, 1} hplays
  revert hcard
  decide +kernel

end Server

end CommandCenter.Daemon
