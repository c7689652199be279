import CommandCenter.Daemon.Footprint

/-!
# Invariants of every connection

A `Contract` is an invariant of a session and what it has done, with what its programs may ask for
and what they rely on. If each handler keeps to it, every connection does in every run, whatever
the others do in between.

* `Contract.Sound.step`: one thing that happens keeps to a sound contract.
* `Contract.Sound.always_at`, `Contract.Sound.always`: so does every run.
-/

namespace CommandCenter.Daemon

open Rust CommandCenter.Core Proto Library

namespace Server

variable {cfg : ServerConfig} {v : Server} {i j : ConnId}

@[simp] theorem answer_conns (q : Request) (other : Reply q) :
    (v.answer cfg q other).2.conns = v.conns := by
  cases q <;> try rfl
  show (v.claimKey _ _).2.conns = _
  unfold claimKey
  split <;> rfl

@[simp] theorem answer_log (q : Request) (other : Reply q) :
    (v.answer cfg q other).2.log = v.log := by
  cases q <;> try rfl
  show (v.claimKey _ _).2.log = _
  unfold claimKey
  split <;> rfl

@[simp] theorem setConn_log (conn : Conn) : (v.setConn i conn).log = v.log := rfl

@[simp] theorem note_conns (entry : Entry) : (v.note i entry).conns = v.conns := rfl

@[simp] theorem setConn_self (conn : Conn) : (v.setConn i conn).conns i = conn := by
  show Function.update v.conns i conn i = conn
  rw [Function.update_self]

theorem setConn_of_ne (conn : Conn) (h : j ≠ i) : (v.setConn i conn).conns j = v.conns j := by
  show Function.update v.conns i conn j = v.conns j
  rw [Function.update_of_ne h]

@[simp] theorem note_self (entry : Entry) : (v.note i entry).log i = v.log i ++ [entry] := by
  show Function.update v.log i (v.log i ++ [entry]) i = _
  rw [Function.update_self]

theorem note_of_ne (entry : Entry) (h : j ≠ i) : (v.note i entry).log j = v.log j := by
  show Function.update v.log i (v.log i ++ [entry]) j = _
  rw [Function.update_of_ne h]

def Event.conn : Event → ConnId
  | .accepts i _ _ _ _ | .frame i _ | .turn i _ | .hangUp i => i

/-- The others, and their logs, are left as they are. -/
theorem step_of_ne (cfg : ServerConfig) (v : Server) {event : Event} (h : j ≠ event.conn) :
    (v.step cfg event).conns j = v.conns j ∧ (v.step cfg event).log j = v.log j := by
  have hset {v' : Server} {conn : Conn} (hconns : v'.conns = v.conns) (hlog : v'.log j = v.log j) :
      (v'.setConn event.conn conn).conns j = v.conns j ∧
        (v'.setConn event.conn conn).log j = v.log j :=
    ⟨(setConn_of_ne conn h).trans (congrFun hconns j), hlog⟩
  cases event with
  | accepts i selector ip realm serverToken =>
    rw [step]
    split
    · rw [accepts]
      split <;> exact hset rfl rfl
    · exact ⟨rfl, rfl⟩
  | frame i frame =>
    rw [step]
    split
    · rw [takesFrame]
      split
      · exact hset rfl (note_of_ne _ h)
      · split
        · exact ⟨rfl, rfl⟩
        · exact hset rfl rfl
    · exact ⟨rfl, rfl⟩
  | turn i others =>
    rw [step]
    split
    · exact hset (answer_conns _ _) ((note_of_ne _ h).trans (congrFun (answer_log _ _) j))
    · exact hset (answer_conns _ _) ((note_of_ne _ h).trans (congrFun (answer_log _ _) j))
    · exact ⟨rfl, rfl⟩
  | hangUp i =>
    rw [step]
    split
    · exact hset rfl rfl
    · exact hset rfl rfl
    · exact ⟨rfl, rfl⟩

end Server

def taken (log : List Entry) : List Frame :=
  log.filterMap fun
    | .took frame => some frame
    | .asked _ _ => none

@[simp] theorem taken_took (log : List Entry) (frame : Frame) :
    taken (log ++ [.took frame]) = taken log ++ [frame] := by
  rw [taken, List.filterMap_append]
  rfl

@[simp] theorem taken_asked (log : List Entry) (q : Request) (answer : Reply q) :
    taken (log ++ [.asked q answer]) = taken log := by
  rw [taken, List.filterMap_append]
  exact List.append_nil _

theorem mem_taken_took {log : List Entry} {frame frame' : Frame} :
    frame' ∈ taken (log ++ [.took frame]) ↔ frame' ∈ taken log ∨ frame' = frame := by
  rw [taken_took, List.mem_append, List.mem_singleton]

/-- An invariant of sessions and what they did. `inv` holds between two frames, `during` while a
frame is handled and while the session leaves, and `left` when it has left. -/
structure Contract where
  asks : Bncs → List Entry → Request → Prop
  answers : List Entry → (q : Request) → Reply q → Prop
  inv : Bncs → List Entry → Prop
  during : Bncs → List Entry → Prop
  left : List Entry → Prop

namespace Contract

variable {K : Contract} {cfg : ServerConfig} {v : Server}

/-- All that a session did is noted. -/
def watch (K : Contract) (s : Bncs) : Watch Request Reply (List Entry) where
  note log q answer := log ++ [.asked q answer]
  asks := K.asks s
  answers := K.answers

/-- A session that goes to its end keeps to the contract. -/
def Leaving (K : Contract) (s : Bncs) (log : List Entry) : Prop :=
  K.during s log ∧ s.leave.Keeps (K.watch s) (fun _ => K.left) log

def Handled (K : Contract) (r : Step × Bncs) (log : List Entry) : Prop :=
  match r with
  | (.continue, s) => K.inv s log
  | (.close, s) => K.Leaving { s with state := .closing } log

/-- A connection that has done what is in its log keeps to the contract. -/
def Holds (K : Contract) : Conn → List Entry → Prop
  | .unused, log | .plain _ _, log => log = []
  | .idle s, log => K.inv s log
  | .handling s _ (.ask q next), log => K.during s log ∧ Asking.Keeps (K.watch s)
      (fun r log => K.Handled r log ∧ r.2.peer = s.peer) (.ask q next) log
  | .leaving s (.ask q next), log => K.during s log ∧
      Asking.Keeps (K.watch s) (fun _ => K.left) (.ask q next) log
  | .handling _ _ (.done _), _ | .leaving _ (.done _), _ => False
  | .ended, log => log = [] ∨ K.left log

/-- The frames that are taken meet `C`, and the answers are as relied on. -/
def Meets (K : Contract) (C : Bncs → List Entry → Frame → Prop) (cfg : ServerConfig) (v : Server) :
    Server.Event → Prop
  | .frame i frame => ∀ s ∈ v.taking i frame, C s (v.log i) frame
  | .turn i others => ∀ q ∈ v.asking i, K.answers (v.log i) q (v.answer cfg q (others q)).1
  | _ => True

/-- Every handler keeps to the contract, given frames with `C`. -/
structure Sound (K : Contract) (C : Bncs → List Entry → Frame → Prop) (cfg : ServerConfig) :
    Prop where
  starts : ∀ ip serverToken, K.inv (.new ip serverToken) []
  takes : ∀ {s log frame}, K.inv s log → s.state.accepts frame.id = true →
    K.during s (log ++ [.took frame])
  handles : ∀ {s log frame}, K.inv s log → s.state.accepts frame.id = true → C s log frame →
    (s.handle cfg frame).Keeps (K.watch s) K.Handled (log ++ [.took frame])
  notes : ∀ {s log q answer}, K.during s log → K.asks s log q → K.answers log q answer →
    K.during s (log ++ [.asked q answer])
  leaves : ∀ {s log} state, K.inv s log → state = s.state ∨ state = .closing →
    K.Leaving { s with state } log

/-- A frame that is queued is the last thing that was done. -/
theorem keeps_send {s s' : Bncs} {frame : Frame} {log : List Entry}
    {post : Step × Bncs → List Entry → Prop} (hasks : K.asks s log (.sendFrame frame))
    (h : post (.continue, s') (log ++ [.asked (.sendFrame frame) true])) :
    (s'.send frame).Keeps (K.watch s) (fun r log' => r.1 = .continue → post r log') log := by
  refine ⟨hasks, fun queued _ hcontinue => ?_⟩
  cases queued with
  | false => exact absurd hcontinue Step.noConfusion
  | true => exact h

theorem keeps_handle {s : Bncs} {frame : Frame} {log : List Entry}
    (h : (s.dispatch cfg frame).Keeps (K.watch s) (fun r log =>
      (r.1 = .continue → K.inv (r.2.advance frame.id) log) ∧
        (r.1 = .close → K.Leaving { r.2 with state := .closing } log)) log) :
    (s.handle cfg frame).Keeps (K.watch s) K.Handled log := by
  refine Asking.keeps_bind.mpr (h.mono fun r log hr => ?_)
  obtain ⟨step, s'⟩ := r
  cases step with
  | «continue» => exact hr.1 rfl
  | close => exact hr.2 rfl

/-- A program only adds requests to what was done. -/
theorem keeps_grows {α : Type} {s : Bncs} (hasks : ∀ log q, K.asks s log q) (x : Program α)
    (log : List Entry) :
    x.Keeps (K.watch s) (fun _ log' => log ⊆ log' ∧ taken log' = taken log) log := by
  induction x generalizing log with
  | done value => exact ⟨List.Subset.refl log, rfl⟩
  | ask q next ih =>
    refine ⟨hasks log q, fun answer _ => (ih answer _).mono fun _ _ h => ⟨?_, ?_⟩⟩
    · exact List.Subset.trans (List.subset_append_left log _) h.1
    · exact h.2.trans (taken_asked log q answer)

theorem leaving_of_during (hasks : ∀ s log q, K.asks s log q) (hleft : ∀ log, K.left log) {s : Bncs}
    {log : List Entry} (h : K.during s log) : K.Leaving s log :=
  ⟨h, (keeps_grows (hasks s) _ log).mono fun _ log' _ => hleft log'⟩

/-- What a packet does not touch is as it was, and what was done remains. -/
theorem keeps_dispatch (cfg : ServerConfig) (s : Bncs) (hasks : ∀ log q, K.asks s log q)
    (frame : Frame) (log : List Entry) : (s.dispatch cfg frame).Keeps (K.watch s)
      (fun r log' => (Bncs.footprint frame.id).Keeps s r.2 ∧ log ⊆ log' ∧ taken log' = taken log)
      log :=
  (Bncs.dispatch_leaves.follow fun log q _ => hasks log q).and (keeps_grows hasks _ log)

theorem holds_settle {s : Bncs} {frame : Frame} {rest : Handling} {log : List Entry}
    (hduring : K.during s log)
    (h : rest.Keeps (K.watch s) (fun r log => K.Handled r log ∧ r.2.peer = s.peer) log) :
    K.Holds (.settle s frame rest) log := by
  match rest, h with
  | .done (.continue, s'), h => exact h.1
  | .done (.close, s'), h => exact h.1
  | .ask q next, h => exact ⟨hduring, h⟩

theorem holds_settleLeaving {s : Bncs} {rest : Program Unit} {log : List Entry}
    (hduring : K.during s log) (h : rest.Keeps (K.watch s) (fun _ => K.left) log) :
    K.Holds (.settleLeaving s rest) log := by
  match rest, h with
  | .done _, h => exact Or.inr h
  | .ask q next, h => exact ⟨hduring, h⟩

/-- **One step** keeps to the contract: a connection does, if what happens is about another. -/
theorem Sound.step {C : Bncs → List Entry → Frame → Prop} (hK : K.Sound C cfg) {j : ConnId}
    (h : K.Holds (v.conns j) (v.log j)) {event : Server.Event}
    (hevent : event.conn = j → K.Meets C cfg v event) :
    K.Holds ((v.step cfg event).conns j) ((v.step cfg event).log j) := by
  by_cases hj : j = event.conn
  swap
  · obtain ⟨hconns, hlog⟩ := v.step_of_ne cfg hj
    rw [hconns, hlog]
    exact h
  subst hj
  have hevent := hevent rfl
  have hset {v' : Server} {i : ConnId} {conn : Conn} (hi : K.Holds conn (v'.log i)) :
      K.Holds ((v'.setConn i conn).conns i) ((v'.setConn i conn).log i) := by
    rw [Server.setConn_self]
    exact hi
  cases event with
  | accepts i selector ip realm serverToken =>
    have h : K.Holds (v.conns i) (v.log i) := h
    rw [Server.step]
    split
    · rename_i selector hunused _
      rw [Server.accepts]
      have hlog : v.log i = [] := by simpa only [hunused, Holds] using h
      split
      · exact hset (Or.inl hlog)
      · refine hset ?_
        show K.Holds _ (v.log i)
        rw [hlog]
        unfold Conn.accepted
        split
        · exact hK.starts ip serverToken
        · show [] = []
          rfl
    · exact h
  | frame i frame =>
    have h : K.Holds (v.conns i) (v.log i) := h
    rw [Server.step]
    split
    · rename_i s hidle
      have hinv : K.inv s (v.log i) := by simpa only [hidle, Holds] using h
      rw [Server.takesFrame]
      split
      · rename_i haccepts
        refine hset ?_
        rw [Server.note_self]
        have htaking : s ∈ v.taking i frame := by
          simp only [Server.taking, hidle, haccepts]
          rfl
        exact holds_settle (hK.takes hinv haccepts)
          ((hK.handles hinv haccepts (hevent s htaking)).within (s.handle_peer frame))
      · split
        · exact h
        · exact hset (hK.leaves .closing hinv (Or.inr rfl))
    · exact h
  | turn i others =>
    have h : K.Holds (v.conns i) (v.log i) := h
    rw [Server.step]
    split
    · rename_i s frame q next hhandling
      have hi : K.Holds (.handling s frame (.ask q next)) (v.log i) := hhandling ▸ h
      have hanswer := hevent q (by rw [Option.mem_def, Server.asking, hhandling])
      refine hset ?_
      rw [Server.note_self, Server.answer_log]
      exact holds_settle (hK.notes hi.1 hi.2.1 hanswer) (hi.2.resume hanswer)
    · rename_i s q next hleaving
      have hi : K.Holds (.leaving s (.ask q next)) (v.log i) := hleaving ▸ h
      have hanswer := hevent q (by rw [Option.mem_def, Server.asking, hleaving])
      refine hset ?_
      rw [Server.note_self, Server.answer_log]
      exact holds_settleLeaving (hK.notes hi.1 hi.2.1 hanswer) (hi.2.resume hanswer)
    · exact h
  | hangUp i =>
    have h : K.Holds (v.conns i) (v.log i) := h
    rw [Server.step]
    split
    · rename_i s hidle
      have hinv : K.inv s (v.log i) := by simpa only [hidle, Holds] using h
      exact hset (hK.leaves s.state hinv (Or.inl rfl))
    · rename_i client ip hplain
      have hlog : v.log i = [] := by simpa only [hplain, Holds] using h
      exact hset (Or.inl hlog)
    · exact h

theorem Sound.during_session {C : Bncs → List Entry → Frame → Prop} (hK : K.Sound C cfg)
    {i : ConnId} (h : K.Holds (v.conns i) (v.log i)) {s : Bncs} (hs : v.session i = some s) :
    K.during s (v.log i) := by
  unfold Server.session at hs
  generalize v.conns i = conn at h hs
  cases conn with
  | idle s' =>
    obtain rfl := Option.some.inj hs
    exact (hK.leaves s'.state h (Or.inl rfl)).1
  | handling s' frame rest =>
    obtain rfl := Option.some.inj hs
    cases rest with
    | done _ => exact h.elim
    | ask q next => exact h.1
  | leaving s' rest =>
    obtain rfl := Option.some.inj hs
    cases rest with
    | done _ => exact h.elim
    | ask q next => exact h.1
  | unused | plain _ _ | ended => cases hs

/-- What a connection asks for, its session may. -/
theorem Holds.asking {i : ConnId} (h : K.Holds (v.conns i) (v.log i)) {q : Request}
    (hq : v.asking i = some q) :
    ∃ s, v.session i = some s ∧ K.during s (v.log i) ∧ K.asks s (v.log i) q := by
  unfold Server.asking at hq
  unfold Server.session
  generalize v.conns i = conn at h hq
  cases conn with
  | handling s frame rest =>
    cases rest with
    | done _ => cases hq
    | ask q' next =>
      obtain rfl := Option.some.inj hq
      exact ⟨s, rfl, h.1, h.2.1⟩
  | leaving s rest =>
    cases rest with
    | done _ => cases hq
    | ask q' next =>
      obtain rfl := Option.some.inj hq
      exact ⟨s, rfl, h.1, h.2.1⟩
  | unused | plain _ _ | idle _ | ended => cases hq

/-- **Every run** keeps to the contract, as far as a connection is concerned with it. -/
theorem Sound.always_at {C : Bncs → List Entry → Frame → Prop} (hK : K.Sound C cfg)
    {keys : KeyRegistry} {keyHolderNames : Map KeyId Text} {events : List Server.Event} {j : ConnId}
    (h : Along (Server.step cfg) (fun v event => event.conn = j → K.Meets C cfg v event)
      (.new cfg keys keyHolderNames) events) :
    Always (Server.step cfg) (fun v => K.Holds (v.conns j) (v.log j))
      (.new cfg keys keyHolderNames) events := by
  refine Along.always (fun _ _ hv hevent => hK.step hv hevent) ?_ h
  show ([] : List Entry) = []
  rfl

theorem Sound.always {C : Bncs → List Entry → Frame → Prop} (hK : K.Sound C cfg)
    {keys : KeyRegistry} {keyHolderNames : Map KeyId Text} {events : List Server.Event}
    (h : Along (Server.step cfg) (K.Meets C cfg) (.new cfg keys keyHolderNames) events) :
    Always (Server.step cfg) (fun v => ∀ i, K.Holds (v.conns i) (v.log i))
      (.new cfg keys keyHolderNames) events := by
  refine Along.always (fun _ _ hv hevent j => hK.step (hv j) fun _ => hevent) ?_ h
  intro i
  show ([] : List Entry) = []
  rfl

end Contract

end CommandCenter.Daemon
