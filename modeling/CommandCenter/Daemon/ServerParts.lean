import CommandCenter.Daemon.Contract

/-!
# The server with a part of the node

The step of a `Server` takes the answers of the parts of the node that are left out from the
event. A `Part` is one of them, with a state of its own: it answers some of the requests, may note
the frames that are taken, and may be moved by something that is not a session at all.

* `Server.step_log`: a step adds at most one entry, to the log of one connection.
* `Part.keeps_step`: a contract that relies on no answers holds with any part.
-/

namespace CommandCenter.Daemon

open Rust CommandCenter.Core Proto Library

namespace Server

/-- The entry that a step adds to a log. -/
def entry (cfg : ServerConfig) (v : Server) : Event → Option (ConnId × Entry)
  | .frame i frame => (v.taking i frame).map fun _ => (i, .took frame)
  | .turn i others => (v.asking i).map fun q => (i, .asked q (v.answer cfg q (others q)).1)
  | .accepts _ _ _ _ _ | .hangUp _ => none

theorem step_log (cfg : ServerConfig) (v : Server) (event : Event) :
    (v.step cfg event).log = match v.entry cfg event with
      | some (i, entry) => Function.update v.log i (v.log i ++ [entry])
      | none => v.log := by
  cases event with
  | accepts i selector ip realm serverToken =>
    show (v.step cfg _).log = v.log
    rw [step]
    split
    · rw [accepts]
      split <;> rfl
    · rfl
  | frame i frame =>
    rw [step, entry, taking]
    generalize v.conns i = conn
    cases conn with
    | idle s =>
      dsimp only
      rw [takesFrame]
      by_cases haccepts : s.state.accepts frame.id = true
      · rw [if_pos haccepts, if_pos haccepts]
        rfl
      · rw [if_neg haccepts, if_neg haccepts]
        split <;> rfl
    | unused | plain _ _ | handling _ _ _ | leaving _ _ | ended => rfl
  | turn i others =>
    rw [step, entry, asking]
    have hnote (q : Request) (conn : Conn) : (((v.answer cfg q (others q)).2.note i
        (.asked q (v.answer cfg q (others q)).1)).setConn i conn).log =
          Function.update v.log i (v.log i ++ [.asked q (v.answer cfg q (others q)).1]) := by
      show Function.update (v.answer cfg q (others q)).2.log i _ = _
      rw [answer_log]
    generalize v.conns i = conn
    cases conn with
    | handling s frame rest =>
      cases rest with
      | done _ => rfl
      | ask q next => exact hnote q _
    | leaving s rest =>
      cases rest with
      | done _ => rfl
      | ask q next => exact hnote q _
    | unused | plain _ _ | idle _ | ended => rfl
  | hangUp i =>
    show (v.step cfg _).log = v.log
    rw [step]
    split <;> rfl

end Server

/-- A part of the node with states `σ`, which inputs `ι` move from elsewhere. -/
structure Part (σ ι : Type) where
  takes : σ → ConnId → Frame → σ
  /-- The answer to a request of a connection; `other` is that of the rest of the node. -/
  answer : σ → ConnId → (q : Request) → (other : Reply q) → Reply q × σ
  moves : σ → ι → σ

structure Fitted (σ : Type) where
  server : Server
  part : σ

namespace Part

inductive Event (ι : Type) where
  | server (event : Server.Event)
  | part (input : ι)

variable {σ ι : Type} (part : Part σ ι)

/-- The event as the server has it, with the answers of the part. -/
def served (w : Fitted σ) : Server.Event → Server.Event
  | .turn i others => .turn i fun q => (part.answer w.part i q (others q)).1
  | event => event

/-- The part after something happens to the server. -/
def after (w : Fitted σ) : Server.Event → σ
  | .frame i frame => if (w.server.taking i frame).isSome then part.takes w.part i frame else w.part
  | .turn i others =>
    match w.server.asking i with
    | some q => (part.answer w.part i q (others q)).2
    | none => w.part
  | .accepts _ _ _ _ _ | .hangUp _ => w.part

def step (cfg : ServerConfig) (w : Fitted σ) : Event ι → Fitted σ
  | .server event => ⟨w.server.step cfg (part.served w event), part.after w event⟩
  | .part input => { w with part := part.moves w.part input }

variable (cfg : ServerConfig) {w : Fitted σ}

/-! ## One step -/

theorem step_frame {i : ConnId} {frame : Frame} (h : (w.server.taking i frame).isSome = true) :
    (part.step cfg w (.server (.frame i frame))).part = part.takes w.part i frame ∧
      (part.step cfg w (.server (.frame i frame))).server.log =
        Function.update w.server.log i (w.server.log i ++ [.took frame]) := by
  obtain ⟨s, htaking⟩ := Option.isSome_iff_exists.mp h
  refine ⟨if_pos h, (w.server.step_log cfg (.frame i frame)).trans ?_⟩
  rw [Server.entry, htaking]
  rfl

theorem step_turn {i : ConnId} {q : Request} (h : w.server.asking i = some q)
    (others : (q : Request) → Reply q) :
    (part.step cfg w (.server (.turn i others))).part = (part.answer w.part i q (others q)).2 ∧
      (part.step cfg w (.server (.turn i others))).server.log =
        Function.update w.server.log i (w.server.log i ++
          [.asked q (w.server.answer cfg q (part.answer w.part i q (others q)).1).1]) := by
  constructor
  · show part.after w (.turn i others) = _
    rw [after, h]
  · refine (w.server.step_log cfg (.turn i _)).trans ?_
    rw [Server.entry, h]
    rfl

/-- A frame that is not taken, a turn of a connection that asks for nothing, and the coming and
going of connections are no matter for the part. -/
theorem step_still (event : Server.Event) (h : w.server.entry cfg (part.served w event) = none) :
    (part.step cfg w (.server event)).part = w.part ∧
      (part.step cfg w (.server event)).server.log = w.server.log := by
  have hlog := w.server.step_log cfg (part.served w event)
  rw [h] at hlog
  refine ⟨?_, hlog⟩
  show part.after w event = w.part
  cases event with
  | frame i frame =>
    have htaking : w.server.taking i frame = none := Option.map_eq_none_iff.mp h
    rw [after, htaking]
    rfl
  | turn i others =>
    have hasking : w.server.asking i = none := Option.map_eq_none_iff.mp h
    rw [after, hasking]
  | accepts _ _ _ _ _ | hangUp _ => rfl

/-! ## Contracts -/

variable {part} {K : Contract} {cfg}

/-- Every connection of the server keeps to the contract. -/
def Keeps (K : Contract) (w : Fitted σ) : Prop :=
  ∀ i, K.Holds (w.server.conns i) (w.server.log i)

theorem keeps_step (hK : K.Sound (fun _ _ _ => True) cfg)
    (hanswers : ∀ log q answer, K.answers log q answer) (h : Keeps K w) (event : Event ι) :
    Keeps K (part.step cfg w event) := by
  cases event with
  | part input => exact h
  | server event =>
    refine fun j => hK.step (h j) fun _ => ?_
    cases event with
    | frame i frame => exact fun _ _ => trivial
    | turn i others => exact fun q _ => hanswers _ q _
    | accepts _ _ _ _ _ | hangUp _ => trivial

theorem keeps_new {keys : KeyRegistry} {keyHolderNames : Map KeyId Text} {start : σ} :
    Keeps K ⟨.new cfg keys keyHolderNames, start⟩ := by
  intro i
  show ([] : List Entry) = []
  rfl

end Part

end CommandCenter.Daemon
