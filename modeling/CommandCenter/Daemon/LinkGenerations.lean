import CommandCenter.Daemon.GameServerLink

/-!
# A replaced game server

Nothing stops the connection that a newer one has replaced: it is read on, and what it sends is
handled as before.

* `Undisturbed`: a step of a connection that is not the linked one leaves the linked one and the
  game list alone.
* `Faithful`: a request returns what its own connection has answered to its own id, and a message
  of link version 2 has gone to a connection that said hello with it.
* `Meets`: what a step must meet. A connection pushes a game list while it is the linked one, it
  answers only what it was sent, and no version-1 game server is linked between a request's look at
  the version and its look at the connection.
* `Inv`: what the runs keep whose steps all meet it.
-/

namespace CommandCenter.Daemon.GameServerLink

open Rust Library

/-- Whether a request has yet to look for the lobby. -/
def TaskPhase.looks : TaskPhase → Bool
  | .begun | .known => true
  | _ => false

/-- Whether a request has a message for version 2. -/
def TaskPhase.lobby : TaskPhase → Option Bool
  | .decided lobby | .taken lobby _ | .numbered lobby _ _ | .waiting lobby _ _ _ => some lobby
  | _ => none

/-- The connection that a message for version 2 is for. -/
def TaskPhase.lobbyConn : TaskPhase → Option Nat
  | .taken true conn | .numbered true conn _ | .waiting true conn _ _ => some conn
  | _ => none

/-- Whether the waiter can still be given an answer. -/
def TaskPhase.awaits : TaskPhase → Bool
  | .waiting _ _ _ none | .sent _ _ none => true
  | _ => false

/-- The message that was read and is to be acted on. -/
def Phase.unhandled : Phase → Option FromGameServer
  | .linked _ _ read => read
  | _ => none

/-- The connection whose step it is, once it has been linked. -/
def Event.conn : Event → Option Nat
  | .read c _ | .handle c | .unlink c | .write c _ => some c
  | _ => none

/-- The replies that a phase has are answers to the request, and so is what it returned. -/
def Returns (answers : List Answer) (r : Nat) (request : Request) : TaskPhase → Prop
  | .waiting _ _ _ (some reply) | .sent _ _ (some reply) | .removing _ _ (some reply) =>
    ∃ answer ∈ answers, answer.task = r ∧ answer.message = reply
  | .done _ outcome =>
    outcome = request.finish none ∨ outcome = request.empty ∨
      ∃ answer ∈ answers, answer.task = r ∧ outcome = request.finish (some answer.message)
  | _ => True

namespace Link

def said (s : Link) (c : Nat) : Option UInt32 := (s.connections c).phase.said

def generationOf (s : Link) (c : Nat) : Option UInt64 := (s.connections c).phase.generation

def ticket (s : Link) (r : Nat) : Option (Nat × UInt64) := (s.tasks r).phase.ticket

/-- Whether `c` is the linked game server's connection. -/
def isLinked (s : Link) (c : Nat) : Bool := s.current.any fun cur => cur.conn = c

/-- The connection `c` has said hello with the lobby's version. -/
def SpeaksLobby (s : Link) (c : Nat) : Prop := ∃ v, s.said c = some v ∧ lobbyVersion ≤ v

end Link

/-- A connection that is not the linked one changes nothing that `public_games` reads. -/
def Undisturbed (s : Link) (e : Event) : Prop :=
  ∀ c, e.conn = some c → s.isLinked c = false →
    (step s e).publicGames = s.publicGames ∧ (step s e).current = s.current ∧
      (step s e).games = s.games

structure Faithful (s : Link) : Prop where
  /-- What a call returns is an answer to its request, or there is none. -/
  returns : ∀ r, Returns s.answers r (s.tasks r).request (s.tasks r).phase
  /-- An answer bears the id of its request and comes from the connection it was sent on. -/
  answered : ∀ answer ∈ s.answers, ∃ id, answer.message.id = some id ∧
    (∃ send ∈ s.sends, send.task = answer.task) ∧
    ∀ send ∈ s.sends, send.task = answer.task →
      send.conn = answer.conn ∧ send.message.id = some id
  spoken : ∀ send ∈ s.sends, send.message.ofLobby → s.SpeaksLobby send.conn

/-- A game list comes from the linked game server, and an answer that a request waits for from the
connection that was sent its id. -/
def Owns (s : Link) (c : Nat) : FromGameServer → Prop
  | .games games => s.isLinked c ∨ games = s.games
  | message => ∀ id ∈ message.id, ∀ r ∈ s.pending.lookup id, (s.tasks r).phase.awaits →
    ∃ send ∈ s.sends, send.conn = c ∧ send.message.id = some id

/-- A request for the lobby does not find a version-1 game server after all, and there are ids
left. -/
def Proceeds (s : Link) : TaskPhase → Prop
  | .decided true => ∀ cur ∈ s.current, lobbyVersion ≤ cur.version
  | .taken _ _ => s.nextId.toNat + 1 < 2 ^ 64
  | _ => True

def Meets (s : Link) : Event → Prop
  | .handle c => ∀ message ∈ (s.connections c).phase.unhandled, Owns s c message
  | .number _ => s.generation.toNat + 1 < 2 ^ 64
  | .proceed r => Proceeds s (s.tasks r).phase
  | _ => True

instance (s : Link) (c : Nat) : DecidablePred (Owns s c) := fun message => by
  cases message <;> unfold Owns <;> first | exact Option.decidableForallMem _ | infer_instance

instance (s : Link) : DecidablePred (Proceeds s) := fun phase => by
  rcases phase with _ | _ | _ | (_ | _) | _ | _ | _ | _ | _ | _ <;>
    unfold Proceeds <;> infer_instance

instance (s : Link) (e : Event) : Decidable (Meets s e) := by
  cases e <;> unfold Meets <;> infer_instance

/-! ## The invariant -/

structure Inv (s : Link) : Prop where
  bounded : ∀ c g, s.generationOf c = some g → g.toNat ≤ s.generation.toNat
  distinct : ∀ c d g, s.generationOf c = some g → s.generationOf d = some g → c = d
  current : ∀ cur, s.current = some cur →
    s.generationOf cur.conn = some cur.generation ∧ s.said cur.conn = some cur.version
  ids : ∀ r c id, s.ticket r = some (c, id) → id.toNat < s.nextId.toNat
  apart : ∀ r t c d id, s.ticket r = some (c, id) → s.ticket t = some (d, id) → r = t
  pending : ∀ id r, s.pending.lookup id = some r → ∃ c, s.ticket r = some (c, id)
  sent : ∀ send ∈ s.sends, ∃ id, s.ticket send.task = some (send.conn, id) ∧
    send.message.id = some id
  answered : ∀ answer ∈ s.answers, ∃ send ∈ s.sends, send.task = answer.task ∧
    send.conn = answer.conn ∧ send.message.id = answer.message.id
  returns : ∀ r, Returns s.answers r (s.tasks r).request (s.tasks r).phase
  looks : ∀ r, (s.tasks r).phase.looks → ∀ id, ((s.tasks r).request.make true id).ofLobby = true
  chosen : ∀ r lobby, (s.tasks r).phase.lobby = some lobby →
    ∀ id, ((s.tasks r).request.make lobby id).ofLobby = lobby
  taken : ∀ r c, (s.tasks r).phase.lobbyConn = some c → s.SpeaksLobby c
  spoken : ∀ send ∈ s.sends, send.message.ofLobby → s.SpeaksLobby send.conn

variable {s : Link} {c r : Nat}

theorem inv_new (token : Text) : Inv (new token) where
  bounded _ _ h := nomatch h
  distinct _ _ _ h := nomatch h
  current _ h := nomatch h
  ids _ _ _ h := nomatch h
  apart _ _ _ _ _ h := nomatch h
  pending _ _ h := by simp [new] at h
  sent _ h := by simp [new] at h
  answered _ h := by simp [new] at h
  returns _ := trivial
  looks _ h := nomatch h
  chosen _ _ h := nomatch h
  taken _ _ h := nomatch h
  spoken _ h := by simp [new] at h

theorem Inv.faithful (h : Inv s) : Faithful s where
  returns := h.returns
  answered answer hanswer := by
    obtain ⟨send, hsend, htask, hconn, hid⟩ := h.answered answer hanswer
    obtain ⟨id, hticket, hmessage⟩ := h.sent send hsend
    refine ⟨id, hid ▸ hmessage, ⟨send, hsend, htask⟩, fun other hother hsame => ?_⟩
    obtain ⟨id', hticket', hmessage'⟩ := h.sent other hother
    -- Both were put into the queue by one request, which has one ticket.
    rw [hsame, ← htask, hticket, Option.some_inj, Prod.mk.injEq] at hticket'
    obtain ⟨hc, rfl⟩ := hticket'
    exact ⟨hc ▸ hconn, hmessage'⟩
  spoken := h.spoken

/-! ### Connections -/

theorem Inv.connections (h : Inv s) {f : Nat → Connection}
    (hsaid : ∀ d v, s.said d = some v → (f d).phase.said = some v)
    (hgeneration : ∀ d, (f d).phase.generation = s.generationOf d) :
    Inv { s with connections := f } :=
  { h with
    bounded := fun d g hg => h.bounded d g ((hgeneration d).symm.trans hg)
    distinct := fun d d' g hd hd' =>
      h.distinct d d' g ((hgeneration d).symm.trans hd) ((hgeneration d').symm.trans hd')
    current := fun cur hcur =>
      ⟨(hgeneration _).trans (h.current cur hcur).1, hsaid _ _ (h.current cur hcur).2⟩
    taken := fun t d hd => (h.taken t d hd).imp fun _ hv => ⟨hsaid _ _ hv.1, hv.2⟩
    spoken := fun send hsend hlobby =>
      (h.spoken send hsend hlobby).imp fun _ hv => ⟨hsaid _ _ hv.1, hv.2⟩ }

theorem Inv.connection (h : Inv s) {x : Connection}
    (hsaid : ∀ v, s.said c = some v → x.phase.said = some v)
    (hgeneration : x.phase.generation = s.generationOf c) :
    Inv { s with connections := Function.update s.connections c x } := by
  refine h.connections (fun d v hv => ?_) fun d => ?_
  · obtain rfl | hd := eq_or_ne d c
    · simpa using hsaid v hv
    · simpa [hd, Link.said] using hv
  · obtain rfl | hd := eq_or_ne d c
    · simpa using hgeneration
    · simp [hd, Link.generationOf]

theorem Inv.link (h : Inv s) (current : Option Current) (games : List PublicGame)
    (hcurrent : ∀ cur, current = some cur →
      s.generationOf cur.conn = some cur.generation ∧ s.said cur.conn = some cur.version) :
    Inv { s with current, games } :=
  { h with current := hcurrent }

theorem Inv.games (h : Inv s) (games : List PublicGame) : Inv { s with games } :=
  { h with }

theorem Inv.number (h : Inv s) (c : Nat) (hroom : s.generation.toNat + 1 < 2 ^ 64) :
    Inv (s.number c) := by
  rw [Link.number]
  split
  case h_2 => exact h
  case h_1 said hphase =>
  have hnew : (s.generation + 1).toNat = s.generation.toNat + 1 := by
    rw [UInt64.toNat_add, Nat.mod_eq_of_lt]
    · rfl
    · exact hroom
  have hnone : s.generationOf c = none := by rw [Link.generationOf, hphase]; rfl
  have hphaseOf : ∀ d, d ≠ c →
      (Link.setPhase { s with generation := s.generation + 1 } c
        (.numbered said (s.generation + 1))).generationOf d = s.generationOf d := by
    intro d hd
    simp [Link.setPhase, Link.generationOf, hd]
  have hself : (Link.setPhase { s with generation := s.generation + 1 } c
      (.numbered said (s.generation + 1))).generationOf c = some (s.generation + 1) := by
    simp [Link.setPhase, Link.generationOf, Phase.generation]
  have hsaid : ∀ d v, s.said d = some v →
      (Link.setPhase { s with generation := s.generation + 1 } c
        (.numbered said (s.generation + 1))).said d = some v := by
    intro d v hv
    obtain rfl | hd := eq_or_ne d c
    · rw [Link.said, hphase] at hv
      simpa [Link.setPhase, Link.said, Phase.said] using hv
    · simpa [Link.setPhase, Link.said, hd] using hv
  -- The new generation is above every other.
  have hfresh : ∀ d, s.generationOf d ≠ some (s.generation + 1) := by
    intro d hd
    have := h.bounded d _ hd
    omega
  exact { h with
    bounded := by
      intro d g hg
      obtain rfl | hd := eq_or_ne d c
      · obtain rfl : s.generation + 1 = g := Option.some_inj.mp (hself.symm.trans hg)
        exact Nat.le_refl _
      · exact ((h.bounded d g ((hphaseOf d hd).symm.trans hg)).trans (Nat.le_succ _)).trans
          hnew.ge
    distinct := by
      intro d d' g hg hg'
      obtain rfl | hd := eq_or_ne c d <;> obtain rfl | hd' := eq_or_ne c d'
      · rfl
      · obtain rfl : s.generation + 1 = g := Option.some_inj.mp (hself.symm.trans hg)
        exact absurd ((hphaseOf d' hd'.symm).symm.trans hg') (hfresh d')
      · obtain rfl : s.generation + 1 = g := Option.some_inj.mp (hself.symm.trans hg')
        exact absurd ((hphaseOf d hd.symm).symm.trans hg) (hfresh d)
      · exact h.distinct d d' g ((hphaseOf d hd.symm).symm.trans hg)
          ((hphaseOf d' hd'.symm).symm.trans hg')
    current := by
      intro cur hcur
      obtain ⟨hg, hv⟩ := h.current cur hcur
      have hne : cur.conn ≠ c := by
        rintro hc
        rw [hc, hnone] at hg
        cases hg
      exact ⟨(hphaseOf _ hne).trans hg, hsaid _ _ hv⟩
    taken := fun t d hd => (h.taken t d hd).imp fun _ hv => ⟨hsaid _ _ hv.1, hv.2⟩
    spoken := fun send hsend hlobby =>
      (h.spoken send hsend hlobby).imp fun _ hv => ⟨hsaid _ _ hv.1, hv.2⟩ }

theorem Inv.hello (h : Inv s) (c : Nat) (message : Option FromGameServer) :
    Inv (s.hello c message) := by
  unfold Link.hello
  split
  case h_2 => exact h
  case h_1 hphase =>
  have hsaid : s.said c = none := by rw [Link.said, hphase]; rfl
  have hgeneration : s.generationOf c = none := by rw [Link.generationOf, hphase]; rfl
  split
  · split
    · exact h.connection (by simp [hsaid]) hgeneration.symm
    · exact h.connection (by simp [hsaid]) hgeneration.symm
  · exact h.connection (by simp [hsaid]) hgeneration.symm

theorem Inv.welcome (h : Inv s) (c : Nat) (written : Bool) : Inv (s.welcome c written) := by
  rw [Link.welcome]
  split
  case h_2 => exact h
  case h_1 said hphase =>
  have hsaid : s.said c = some said := by rw [Link.said, hphase]; rfl
  have hgeneration : s.generationOf c = none := by rw [Link.generationOf, hphase]; rfl
  split
  · exact h.connection (fun v hv => hsaid.symm.trans hv) hgeneration.symm
  · exact h.connection (fun v hv => hsaid.symm.trans hv) hgeneration.symm

theorem Inv.read (h : Inv s) (c : Nat) (message : Option FromGameServer) :
    Inv (s.read c message) := by
  rw [Link.read]
  split
  case h_2 => exact h
  case h_1 said generation hphase =>
  have hsaid : s.said c = some said := by rw [Link.said, hphase]; rfl
  have hgeneration : s.generationOf c = some generation := by rw [Link.generationOf, hphase]; rfl
  split
  · exact h.connection (fun v hv => hsaid.symm.trans hv) hgeneration.symm
  · exact h.connection (fun v hv => hsaid.symm.trans hv) hgeneration.symm

theorem Inv.install (h : Inv s) (c : Nat) : Inv (s.install c) := by
  rw [Link.install]
  split
  case h_2 => exact h
  case h_1 said generation hphase =>
  have hsaid : s.said c = some said := by rw [Link.said, hphase]; rfl
  have hgeneration : s.generationOf c = some generation := by rw [Link.generationOf, hphase]; rfl
  have hlinked : Inv { s with
      connections := Function.update s.connections c ⟨.linked said generation none, [], true⟩ } :=
    h.connection (fun v hv => hsaid.symm.trans hv) hgeneration.symm
  refine hlinked.link _ s.games fun cur hcur => ?_
  obtain rfl := Option.some_inj.mp hcur
  simp [Link.generationOf, Link.said, Phase.generation, Phase.said]

theorem Inv.unlink (h : Inv s) (c : Nat) : Inv (s.unlink c) := by
  rw [Link.unlink]
  split
  case h_2 => exact h
  case h_1 said generation hphase =>
  have hsaid : s.said c = some said := by rw [Link.said, hphase]; rfl
  have hgeneration : s.generationOf c = some generation := by rw [Link.generationOf, hphase]; rfl
  split
  · exact (h.link none [] (by simp)).connection
      (fun v hv => hsaid.symm.trans hv) hgeneration.symm
  · exact h.connection (fun v hv => hsaid.symm.trans hv) hgeneration.symm

theorem Inv.write (h : Inv s) (c : Nat) (written : Bool) : Inv (s.write c written) := by
  rw [Link.write]
  split
  · exact h.connection (fun v hv => hv) rfl
  · exact h

/-! ### Requests -/

/-- A request that goes on, perhaps with an id that is new. -/
theorem Inv.task (h : Inv s) {x : Task} {nextId : UInt64}
    (hnext : s.nextId.toNat ≤ nextId.toNat)
    (hkept : ∀ t, s.ticket r = some t → x.phase.ticket = some t)
    (hnew : ∀ d id, x.phase.ticket = some (d, id) →
      s.ticket r = some (d, id) ∨ s.nextId.toNat ≤ id.toNat ∧ id.toNat < nextId.toNat)
    (hreturns : Returns s.answers r x.request x.phase)
    (hlooks : x.phase.looks → ∀ id, (x.request.make true id).ofLobby = true)
    (hchosen : ∀ lobby, x.phase.lobby = some lobby →
      ∀ id, (x.request.make lobby id).ofLobby = lobby)
    (htaken : ∀ c, x.phase.lobbyConn = some c → s.SpeaksLobby c) :
    Inv { s with nextId, tasks := Function.update s.tasks r x } := by
  have hself : (Function.update s.tasks r x r).phase.ticket = x.phase.ticket := by simp
  have hother : ∀ t, r ≠ t → (Function.update s.tasks r x t).phase.ticket = s.ticket t := by
    intro t ht
    simp [Link.ticket, ht.symm]
  have hticket : ∀ t u, s.ticket t = some u →
      (Function.update s.tasks r x t).phase.ticket = some u := by
    intro t u hu
    obtain rfl | ht := eq_or_ne r t
    · exact hself.trans (hkept u hu)
    · exact (hother t ht).trans hu
  exact { h with
    ids := by
      intro t d id hid
      obtain rfl | ht := eq_or_ne r t
      · rcases hnew d id (hself.symm.trans hid) with hold | hfresh
        · exact (h.ids r d id hold).trans_le hnext
        · exact hfresh.2
      · exact (h.ids t d id ((hother t ht).symm.trans hid)).trans_le hnext
    apart := by
      intro t t' d d' id hid hid'
      obtain rfl | ht := eq_or_ne r t <;> obtain rfl | ht' := eq_or_ne r t'
      · rfl
      · have hold' := (hother t' ht').symm.trans hid'
        rcases hnew d id (hself.symm.trans hid) with hold | hfresh
        · exact h.apart r t' d d' id hold hold'
        · exact absurd (h.ids t' d' id hold') (Nat.not_lt.mpr hfresh.1)
      · have hold := (hother t ht).symm.trans hid
        rcases hnew d' id (hself.symm.trans hid') with hold' | hfresh
        · exact h.apart t r d d' id hold hold'
        · exact absurd (h.ids t d id hold) (Nat.not_lt.mpr hfresh.1)
      · exact h.apart t t' d d' id ((hother t ht).symm.trans hid) ((hother t' ht').symm.trans hid')
    pending := fun id t ht => (h.pending id t ht).imp fun d hd => hticket t _ hd
    sent := fun send hsend =>
      (h.sent send hsend).imp fun id hid => ⟨hticket _ _ hid.1, hid.2⟩
    returns := by
      intro t
      obtain rfl | ht := eq_or_ne r t
      · simpa using hreturns
      · simpa [ht.symm] using h.returns t
    looks := by
      intro t hlooking
      obtain rfl | ht := eq_or_ne r t
      · simp only [Function.update_self] at hlooking ⊢
        exact hlooks hlooking
      · simp only [Function.update_of_ne ht.symm] at hlooking ⊢
        exact h.looks t hlooking
    chosen := by
      intro t lobby hlobby
      obtain rfl | ht := eq_or_ne r t
      · simp only [Function.update_self] at hlobby ⊢
        exact hchosen lobby hlobby
      · simp only [Function.update_of_ne ht.symm] at hlobby ⊢
        exact h.chosen t lobby hlobby
    taken := by
      intro t d hd
      obtain rfl | ht := eq_or_ne r t
      · simp only [Function.update_self] at hd
        exact htaken d hd
      · simp only [Function.update_of_ne ht.symm] at hd
        exact h.taken t d hd }

/-- A request that goes on with the ticket it has. -/
theorem Inv.setTask (h : Inv s) {phase : TaskPhase} (hticket : phase.ticket = s.ticket r)
    (hreturns : Returns s.answers r (s.tasks r).request phase)
    (hlooks : phase.looks → (s.tasks r).phase.looks)
    (hchosen : ∀ lobby, phase.lobby = some lobby →
      ∀ id, ((s.tasks r).request.make lobby id).ofLobby = lobby)
    (htaken : ∀ c, phase.lobbyConn = some c → s.SpeaksLobby c) : Inv (s.setTask r phase) :=
  h.task (Nat.le_refl _) (fun _ ht => hticket.trans ht)
    (fun _ _ hd => .inl (hticket.symm.trans hd)) hreturns
    (fun hlooking => h.looks r (hlooks hlooking)) hchosen htaken

theorem Inv.ask (h : Inv s) (r : Nat) (request : Request) : Inv (s.ask r request) := by
  unfold Link.ask
  split
  case h_2 => exact h
  case h_1 hphase =>
  have hnone : s.ticket r = none := by rw [Link.ticket, hphase]; rfl
  refine h.task (Nat.le_refl _) (by simp [hnone]) ?_ ?_ ?_ ?_ ?_
  · intro d id hd
    cases request <;> cases hd
  · cases request <;> trivial
  · intro hlooking id
    cases request <;> first | rfl | cases hlooking
  · intro lobby hlobby id
    rcases request with _ | _ | _ | _ | (_ | _ | _) <;> cases hlobby <;> rfl
  · intro d hd
    cases request <;> cases hd

/-- A request that has no more to say than what it returns. -/
theorem Inv.ends (h : Inv s) {phase : TaskPhase} (hticket : phase.ticket = s.ticket r)
    (hlooks : phase.looks = false) (hlobby : phase.lobby = none) (hconn : phase.lobbyConn = none)
    (hreturns : Returns s.answers r (s.tasks r).request phase) : Inv (s.setTask r phase) :=
  h.setTask hticket hreturns (by simp [hlooks]) (by simp [hlobby]) (by simp [hconn])

theorem Inv.waiters (h : Inv s) {pending : Map UInt64 Nat}
    (hpending : ∀ id r, pending.lookup id = some r → ∃ c, s.ticket r = some (c, id)) :
    Inv { s with pending } :=
  { h with pending := hpending }

theorem Inv.remove (h : Inv s) (id : UInt64) :
    Inv { s with pending := s.pending.erase id } := by
  refine h.waiters fun id' r hr => ?_
  obtain rfl | hne := eq_or_ne id' id
  · simp at hr
  · exact h.pending id' r (by rwa [Finmap.lookup_erase_ne hne] at hr)

/-- A message that a request has put into a queue. -/
theorem Inv.send (h : Inv s) {message : ToGameServer} {id : UInt64}
    (hticket : s.ticket r = some (c, id)) (hid : message.id = some id)
    (hlobby : message.ofLobby → s.SpeaksLobby c) :
    Inv { s with sends := s.sends ++ [⟨r, c, message⟩] } :=
  { h with
    sent := by
      intro send hsend
      rcases List.mem_append.mp hsend with hold | hnew
      · exact h.sent send hold
      · obtain rfl := List.mem_singleton.mp hnew
        exact ⟨id, hticket, hid⟩
    answered := fun answer hanswer =>
      (h.answered answer hanswer).imp fun _ hsend => ⟨List.mem_append_left _ hsend.1, hsend.2⟩
    spoken := by
      intro send hsend hof
      rcases List.mem_append.mp hsend with hold | hnew
      · exact h.spoken send hold hof
      · obtain rfl := List.mem_singleton.mp hnew
        exact hlobby hof }

theorem Returns.mono {answers more : List Answer} (hsub : answers ⊆ more) {request : Request}
    {phase : TaskPhase} (h : Returns answers r request phase) :
    Returns more r request phase := by
  unfold Returns at h ⊢
  split at h
  · exact h.imp fun _ ha => ⟨hsub ha.1, ha.2⟩
  · exact h.imp fun _ ha => ⟨hsub ha.1, ha.2⟩
  · exact h.imp fun _ ha => ⟨hsub ha.1, ha.2⟩
  · exact h.imp id (Or.imp id (Exists.imp fun _ ha => ⟨hsub ha.1, ha.2⟩))
  · trivial

theorem Inv.answer (h : Inv s) {message : FromGameServer}
    (hsent : ∃ send ∈ s.sends, send.task = r ∧ send.conn = c ∧ send.message.id = message.id) :
    Inv { s with answers := s.answers ++ [⟨r, c, message⟩] } :=
  { h with
    answered := by
      intro answer hanswer
      rcases List.mem_append.mp hanswer with hold | hnew
      · exact h.answered answer hold
      · obtain rfl := List.mem_singleton.mp hnew
        exact hsent
    returns := fun t => (h.returns t).mono (List.subset_append_left _ _) }

theorem Inv.deliver (h : Inv s) {message : FromGameServer}
    (hsent : (s.tasks r).phase.awaits →
      ∃ send ∈ s.sends, send.task = r ∧ send.conn = c ∧ send.message.id = message.id) :
    Inv (s.deliver c r message) := by
  have hlast : Answer.mk r c message ∈ s.answers ++ [⟨r, c, message⟩] := by simp
  unfold Link.deliver
  split
  case h_1 lobby conn id hphase =>
    have hticket : s.ticket r = some (conn, id) := by rw [Link.ticket, hphase]; rfl
    have hlobby : (s.tasks r).phase.lobby = some lobby := by rw [hphase]; rfl
    refine (h.answer (hsent (by rw [hphase]; rfl))).setTask hticket.symm
      ⟨_, hlast, rfl, rfl⟩ (fun hl => nomatch hl) (fun l hl => h.chosen r l (hlobby.trans hl))
      fun d hd => ?_
    refine h.taken r d ?_
    rw [hphase]
    cases lobby <;> exact hd
  case h_2 conn id hphase =>
    have hticket : s.ticket r = some (conn, id) := by rw [Link.ticket, hphase]; rfl
    exact (h.answer (hsent (by rw [hphase]; rfl))).ends hticket.symm rfl rfl rfl
      ⟨_, hlast, rfl, rfl⟩
  case h_3 => exact h

theorem Inv.act (h : Inv s) {message : FromGameServer} (howns : Owns s c message) :
    Inv (s.act c message) := by
  unfold Link.act
  split
  case h_1 games => exact h.games games
  case h_2 hnot =>
  split
  case h_1 => exact h
  case h_2 id hid =>
  split
  case h_1 => exact h
  case h_2 t hpending =>
  refine (h.remove id).deliver fun hawaits => ?_
  have howned : ∃ send ∈ s.sends, send.conn = c ∧ send.message.id = some id := by
    cases message with
    | games games => exact absurd rfl (hnot games)
    | hello => cases hid
    | created => exact howns id hid t hpending hawaits
    | joined => exact howns id hid t hpending hawaits
    | map => exact howns id hid t hpending hawaits
    | gameList => exact howns id hid t hpending hawaits
    | gameInfo => exact howns id hid t hpending hawaits
  obtain ⟨send, hsend, hconn, hmessage⟩ := howned
  -- The id is of one request only, the one that waits for it.
  obtain ⟨id', hticket, hid'⟩ := h.sent send hsend
  obtain ⟨d, hwaiting⟩ := h.pending id t hpending
  obtain rfl : id' = id := Option.some_inj.mp (hid'.symm.trans hmessage)
  exact ⟨send, hsend, h.apart _ _ _ _ _ hticket hwaiting, hconn, hmessage.trans hid.symm⟩

theorem Link.act_connections (s : Link) (c : Nat) (message : FromGameServer) :
    (s.act c message).connections = s.connections := by
  unfold Link.act
  repeat' split
  · rfl
  · rfl
  · rfl
  · unfold Link.deliver
    split <;> rfl

theorem Inv.handle (h : Inv s) (howns : ∀ message ∈ (s.connections c).phase.unhandled,
    Owns s c message) : Inv (s.handle c) := by
  unfold Link.handle
  split
  case h_2 => exact h
  case h_1 said generation message hphase =>
  have hacted : Inv (s.act c message) := h.act (howns message (by rw [hphase]; rfl))
  have hphase' : ((s.act c message).connections c).phase = .linked said generation message := by
    rw [s.act_connections, hphase]
  have hsaid : (s.act c message).said c = some said := by rw [Link.said, hphase']; rfl
  have hgeneration : (s.act c message).generationOf c = some generation := by
    rw [Link.generationOf, hphase']
    rfl
  exact hacted.connection (fun v hv => hsaid.symm.trans hv) hgeneration.symm

theorem Request.id_make (request : Request) (lobby : Bool) (id : UInt64) :
    (request.make lobby id).id = some id := by
  rcases request with _ | _ | _ | _ | (_ | _ | _) <;> cases lobby <;> rfl

theorem Inv.proceed (h : Inv s) (hproceeds : Proceeds s (s.tasks r).phase) :
    Inv (s.proceed r) := by
  have hreturns := h.returns r
  have hlooks := h.looks r
  have hchosen := h.chosen r
  have htaken := h.taken r
  have hticket : s.ticket r = (s.tasks r).phase.ticket := rfl
  unfold Link.proceed
  generalize hphase : (s.tasks r).phase = phase at *
  cases phase with
  | unasked => exact h
  | done ticket outcome => exact h
  | begun =>
    dsimp only
    split
    case h_1 hrequest =>
      refine h.setTask hticket.symm trivial (fun hl => nomatch hl) (fun l hl id => ?_)
        fun d hd => nomatch hd
      obtain rfl : s.hasLobby = l := Option.some_inj.mp hl
      rw [hrequest]
      cases s.hasLobby <;> rfl
    case h_2 =>
      split
      · exact h.ends hticket.symm rfl rfl rfl (.inl rfl)
      · exact h.setTask hticket.symm trivial (fun _ => by rw [hphase]; rfl) (fun l hl => nomatch hl)
          fun d hd => nomatch hd
  | known =>
    dsimp only
    split
    · refine h.setTask hticket.symm trivial (fun hl => nomatch hl) (fun l hl id => ?_)
        fun d hd => nomatch hd
      obtain rfl : true = l := Option.some_inj.mp hl
      exact hlooks rfl id
    · exact h.ends hticket.symm rfl rfl rfl (.inr (.inl rfl))
  | decided lobby =>
    dsimp only
    split
    case h_1 => exact h.ends hticket.symm rfl rfl rfl (.inl rfl)
    case h_2 cur hcur =>
      refine h.setTask hticket.symm trivial (fun hl => nomatch hl) hchosen fun d hd => ?_
      cases lobby with
      | false => cases hd
      | true =>
        obtain rfl : cur.conn = d := Option.some_inj.mp hd
        exact ⟨cur.version, (h.current cur hcur).2, hproceeds cur hcur⟩
  | taken lobby conn =>
    have hnext : (s.nextId + 1).toNat = s.nextId.toNat + 1 := by
      rw [UInt64.toNat_add, Nat.mod_eq_of_lt]
      · rfl
      · exact hproceeds
    refine h.task (hnext ▸ Nat.le_succ _) (fun _ ht => nomatch hticket.symm.trans ht) ?_ trivial
      (fun hl => nomatch hl) hchosen ?_
    · intro d id hd
      obtain ⟨-, rfl⟩ := Prod.mk.injEq .. ▸ Option.some_inj.mp hd
      exact .inr ⟨Nat.le_refl _, hnext ▸ Nat.lt_succ_self _⟩
    · intro d hd
      refine htaken d ?_
      cases lobby <;> exact hd
  | numbered lobby conn id =>
    have hwaits : Inv { s with pending := s.pending.insert id r } := by
      refine h.waiters fun id' t ht => ?_
      obtain rfl | hne := eq_or_ne id' id
      · rw [Finmap.lookup_insert, Option.some_inj] at ht
        subst ht
        exact ⟨conn, hticket⟩
      · rw [Finmap.lookup_insert_of_ne _ hne] at ht
        exact h.pending id' t ht
    refine hwaits.setTask hticket.symm trivial (fun hl => nomatch hl) hchosen fun d hd => ?_
    refine htaken d ?_
    cases lobby <;> exact hd
  | waiting lobby conn id reply =>
    dsimp only
    split
    · exact h.ends hticket.symm rfl rfl rfl trivial
    · split
      case isFalse => exact h
      have hlobby : ((s.tasks r).request.make lobby id).ofLobby → s.SpeaksLobby conn := by
        intro hof
        obtain rfl : lobby = true := (hchosen lobby rfl id).symm.trans hof
        exact htaken conn rfl
      have hsent : Inv { s with
          sends := s.sends ++ [⟨r, conn, (s.tasks r).request.make lobby id⟩] } :=
        h.send hticket (Request.id_make _ _ _) hlobby
      have hqueued : Inv { s with
          connections := Function.update s.connections conn
            { s.connections conn with
              queue := (s.connections conn).queue ++ [(s.tasks r).request.make lobby id] }
          sends := s.sends ++ [⟨r, conn, (s.tasks r).request.make lobby id⟩] } :=
        hsent.connection (fun v hv => hv) rfl
      exact hqueued.ends hticket.symm rfl rfl rfl (by cases reply <;> exact hreturns)
  | sent conn id reply =>
    cases reply with
    | some reply => exact h.ends hticket.symm rfl rfl rfl hreturns
    | none =>
      dsimp only
      split
      · exact h
      · exact h.ends hticket.symm rfl rfl rfl trivial
  | removing conn id reply =>
    refine (h.remove id).ends hticket.symm rfl rfl rfl ?_
    cases reply with
    | none => exact .inl rfl
    | some reply =>
      obtain ⟨answer, hanswer, htask, rfl⟩ := hreturns
      exact .inr (.inr ⟨answer, hanswer, htask, rfl⟩)

theorem Inv.timeout (h : Inv s) (r : Nat) : Inv (s.timeout r) := by
  unfold Link.timeout
  split
  case h_1 conn id _ hphase =>
    have hticket : s.ticket r = some (conn, id) := by rw [Link.ticket, hphase]; rfl
    exact h.ends hticket.symm rfl rfl rfl trivial
  case h_2 conn id _ hphase =>
    have hticket : s.ticket r = some (conn, id) := by rw [Link.ticket, hphase]; rfl
    exact h.ends hticket.symm rfl rfl rfl trivial
  case h_3 => exact h

theorem Inv.step (s : Link) (e : Event) (h : Inv s) (hmeets : Meets s e) : Inv (step s e) := by
  cases e with
  | accept c =>
    simp only [GameServerLink.step]
    split
    case h_1 hphase =>
      have hsaid : s.said c = none := by rw [Link.said, hphase]; rfl
      have hgeneration : s.generationOf c = none := by rw [Link.generationOf, hphase]; rfl
      exact h.connection (by simp [hsaid]) hgeneration.symm
    case h_2 => exact h
  | hello c message => exact h.hello c message
  | welcome c written => exact h.welcome c written
  | number c => exact h.number c hmeets
  | install c => exact h.install c
  | read c message => exact h.read c message
  | handle c => exact h.handle hmeets
  | unlink c => exact h.unlink c
  | write c written => exact h.write c written
  | ask r request => exact h.ask r request
  | proceed r => exact h.proceed hmeets
  | timeout r => exact h.timeout r

/-! ## What the linked game server is spared -/

theorem Link.act_spares {message : FromGameServer} (howns : Owns s c message)
    (hlinked : s.isLinked c = false) :
    (s.act c message).current = s.current ∧ (s.act c message).games = s.games := by
  unfold Link.act
  split
  case h_1 games =>
    have hgames : s.isLinked c ∨ games = s.games := howns
    simpa [hlinked] using hgames
  case h_2 =>
  split
  case h_1 => exact ⟨rfl, rfl⟩
  case h_2 =>
  split
  case h_1 => exact ⟨rfl, rfl⟩
  case h_2 =>
  unfold Link.deliver
  split <;> exact ⟨rfl, rfl⟩

theorem Link.handle_spares
    (howns : ∀ message ∈ (s.connections c).phase.unhandled, Owns s c message)
    (hlinked : s.isLinked c = false) :
    (s.handle c).current = s.current ∧ (s.handle c).games = s.games := by
  unfold Link.handle
  split
  case h_1 said generation message hphase =>
    exact Link.act_spares (howns message (by rw [hphase]; rfl)) hlinked
  case h_2 => exact ⟨rfl, rfl⟩

/-- No other connection has the generation of the linked one. -/
theorem Inv.unlink_spares (h : Inv s) (hlinked : s.isLinked c = false) :
    (s.unlink c).current = s.current ∧ (s.unlink c).games = s.games := by
  unfold Link.unlink
  split
  case h_2 => exact ⟨rfl, rfl⟩
  case h_1 said generation hphase =>
  have hgeneration : s.generationOf c = some generation := by rw [Link.generationOf, hphase]; rfl
  have hother : (s.current.any fun cur => cur.generation = generation) = false := by
    rw [Option.any_eq_false]
    intro cur hcur
    rw [decide_eq_false_iff_not]
    rintro rfl
    have hconn : cur.conn = c := h.distinct _ _ _ (h.current cur hcur).1 hgeneration
    rw [Link.isLinked, hcur] at hlinked
    simp [hconn] at hlinked
  rw [hother]
  exact ⟨rfl, rfl⟩

theorem Link.read_spares (s : Link) (c : Nat) (message : Option FromGameServer) :
    (s.read c message).current = s.current ∧ (s.read c message).games = s.games := by
  unfold Link.read
  repeat' split
  · exact ⟨rfl, rfl⟩
  · exact ⟨rfl, rfl⟩
  · exact ⟨rfl, rfl⟩

theorem Link.write_spares (s : Link) (c : Nat) (written : Bool) :
    (s.write c written).current = s.current ∧ (s.write c written).games = s.games := by
  unfold Link.write
  split <;> exact ⟨rfl, rfl⟩

theorem Inv.undisturbed (h : Inv s) {e : Event} (hmeets : Meets s e) : Undisturbed s e := by
  intro c hconn hlinked
  have hspared : (GameServerLink.step s e).current = s.current ∧
      (GameServerLink.step s e).games = s.games := by
    cases e with
    | read d message => exact s.read_spares d message
    | handle d =>
      obtain rfl : d = c := Option.some_inj.mp hconn
      exact Link.handle_spares hmeets hlinked
    | unlink d =>
      obtain rfl : d = c := Option.some_inj.mp hconn
      exact h.unlink_spares hlinked
    | write d written => exact s.write_spares d written
    | accept | hello | welcome | number | install | ask | proceed | timeout => cases hconn
  refine ⟨?_, hspared⟩
  rw [Link.publicGames, Link.publicGames, hspared.1, hspared.2]

/-- **The link speaks only for the linked game server** in the runs whose connections push game
lists while they are linked and answer what they were sent, if no request takes an older game server
for a newer one. -/
theorem link_speaks_for_linked (token : Text) (events : List Event)
    (hmeets : Along step Meets (new token) events) :
    Along step Undisturbed (new token) events ∧ Always step Faithful (new token) events := by
  have hinv : Always step Inv (new token) events :=
    Along.always Inv.step (inv_new token) hmeets
  exact ⟨Along.along Inv.step (fun _ _ h hstep => h.undisturbed hstep) (inv_new token) hmeets,
    hinv.imp fun _ h => h.faithful⟩

/-- A game server that links and says hello with `version`. -/
def links (c : Nat) (token : Text) (version : UInt32) : List Event :=
  [.accept c, .hello c (some (.hello token version)), .welcome c true, .number c, .install c]

/-- A game server pushes its games, another takes its place and pushes others, and a game list is
asked for and answered. -/
def relinks : List Event :=
  links 0 ['s', '3'] 1 ++ [.read 0 (some (.games [⟨['c', 'o', 'w', 's'], false, 0, 1, 5⟩])),
    .handle 0] ++ links 1 ['s', '3'] 2 ++
    [.read 1 (some (.games [⟨['b', 'a', 'a', 'l'], false, 0, 2, 8⟩])), .handle 1, .unlink 0,
      .ask 7 .listGames, .proceed 7, .proceed 7, .proceed 7, .proceed 7, .proceed 7, .proceed 7,
      .read 1 (some (.gameList 0 [])), .handle 1, .proceed 7, .proceed 7]

theorem link_speaks_for_linked_listed :
    Along step Undisturbed (new ['s', '3']) relinks ∧
      Always step Faithful (new ['s', '3']) relinks :=
  link_speaks_for_linked _ _ (by decide)

/-- The game server that the second has replaced pushes a game list. -/
theorem replaced_link_heard : ¬ ∀ token events,
    Along step Undisturbed (new token) events ∧ Always step Faithful (new token) events := by
  intro h
  have hpushed := (h ['s', '3'] (links 0 ['s', '3'] 1 ++ links 1 ['s', '3'] 1 ++
    [.read 0 (some (.games [⟨['c', 'o', 'w', 's'], false, 0, 1, 5⟩])), .handle 0])).1
  have hlast := @Along.get _ _ _ _ _ _ hpushed 11 (by decide)
  have hgames := (hlast 0 rfl (by decide)).2.2
  exact absurd hgames (by decide)

end CommandCenter.Daemon.GameServerLink
