import CommandCenter.Daemon.HostedGames
import CommandCenter.Daemon.Listings

/-!
# Lists over whole runs

The server with the games it lists and the channels: sessions advertise and withdraw by their
requests, and chat goes on beside them. Each game is short, but nothing bounds their number.

* `sendable_iff`: after every run, which requests get an answer that can be sent.
* `few_games_fit`: a list of at most 107 games can be sent.
* `crowd_unsendable`: one of 108 games that a single account advertised cannot.
-/

namespace CommandCenter.Daemon

open Rust CommandCenter.Core Proto Library
open Storage (Account)

/-- The answer to what is asked about the list of games. -/
def GameDirectory.answer (games : GameDirectory) : (q : Request) → Reply q → Reply q × GameDirectory
  | .advertiseGame ad, _ => games.advertiseGame ad
  | .withdrawGame account, _ => ((), games.withdrawGame account)
  | _, other => (other, games)

def Offers.new : Offers := ⟨∅, .new⟩

/-- The games, which sessions advertise, and the channels, where chat goes on. -/
def offers (chat : NodeConfig) : Part Offers Action where
  takes o _ _ := o
  answer o _ q other :=
    let (answer, games) := o.games.answer q other
    (answer, { o with games })
  moves o action := { o with world := o.world.step chat action }

section Runs

variable (cfg : ServerConfig) (chat : NodeConfig) (keys : KeyRegistry)
  (keyHolderNames : Map KeyId Text) (events : List (Part.Event Action))

/-- The server after a run. -/
def offered : Fitted Offers :=
  run ((offers chat).step cfg) ⟨.new cfg keys keyHolderNames, .new⟩ events

/-- **An answer can be sent** exactly if what it lists is short enough together: for every run of
the server, and every request for the games, the channels or the users of a channel. -/
theorem sendable_iff (s : Bncs) (a : Asker) (request : ListRequest) :
    Sendable s ((offered cfg chat keys keyHolderNames events).part.reply a request) ↔
      (offered cfg chat keys keyHolderNames events).part.Fits a request :=
  Offers.sendable_reply request

end Runs

/-! ## Short games -/

/-- The strings of a game are as short as a client may send them. -/
structure GameAd.Short (ad : GameAd) : Prop where
  name : ad.name.length ≤ channelNameMax
  password : ad.password.length ≤ channelNameMax
  statstring : ad.statstring.length ≤ 512

theorem GameAd.Short.size_le {ad : GameAd} (h : ad.Short) : gameSize ad ≤ 609 := by
  have hname := (weight_le ad.name).trans h.name
  have hpassword := (weight_le ad.password).trans h.password
  have hstatstring := (weight_le ad.statstring).trans h.statstring
  rw [channelNameMax] at hname hpassword
  rw [gameSize]
  omega

/-- A request that asks to list short games only. -/
def Request.Modest : Request → Prop
  | .advertiseGame ad => ad.Short
  | _ => True

theorem Request.modest_of_unlisted {q : Request} (h : q.concern ≠ .listing) : q.Modest := by
  cases q <;> trivial

namespace Bncs

variable {cfg : ServerConfig} {s : Bncs} {frame : Frame} {ad : Advertisement}

theorem readAdvertisement_short (h : readAdvertisement.read frame = .ok ad) :
    ad.name.length ≤ channelNameMax ∧ ad.password.length ≤ channelNameMax ∧
      ad.statstring.length ≤ 512 := by
  obtain ⟨rest, hread⟩ : ∃ rest, readAdvertisement frame.body = .ok (ad, rest) := by
    change (Prod.fst <$> readAdvertisement frame.body) = .ok ad at h
    cases hbody : readAdvertisement frame.body with
    | error e =>
      rw [hbody] at h
      cases h
    | ok r =>
      rw [hbody] at h
      obtain rfl := Except.ok.inj h
      exact ⟨r.2, rfl⟩
  obtain ⟨state, _, _, hread⟩ := Taking.bind_ok hread
  obtain ⟨uptime, _, _, hread⟩ := Taking.bind_ok hread
  obtain ⟨gameType, _, _, hread⟩ := Taking.bind_ok hread
  obtain ⟨parameter, _, _, hread⟩ := Taking.bind_ok hread
  obtain ⟨unknown, _, _, hread⟩ := Taking.bind_ok hread
  obtain ⟨ladder, _, _, hread⟩ := Taking.bind_ok hread
  obtain ⟨name, _, hname, hread⟩ := Taking.bind_ok hread
  obtain ⟨password, _, hpassword, hread⟩ := Taking.bind_ok hread
  obtain ⟨statstring, _, hstatstring, hread⟩ := Taking.bind_ok hread
  obtain ⟨rfl, _⟩ := Prod.mk.inj (Except.ok.inj hread)
  exact ⟨Reader.cstr_length hname, Reader.cstr_length hpassword, Reader.cstr_length hstatstring⟩

theorem host_modest (account : Account) (hname : ad.name.length ≤ channelNameMax)
    (hpassword : ad.password.length ≤ channelNameMax) (hstatstring : ad.statstring.length ≤ 512) :
    (s.host account ad).Within Request.Modest fun _ => True := by
  refine .ask trivial fun created => .ask ⟨hname, hpassword, hstatstring⟩ fun free => ?_
  split
  · split
    · exact ⟨trivial, fun _ _ => trivial⟩
    · exact .ask trivial fun _ => .ask trivial fun _ => ⟨trivial, fun _ _ => trivial⟩
  · exact ⟨trivial, fun _ _ => trivial⟩

theorem advertise_modest : (s.advertise cfg frame).Within Request.Modest fun _ => True := by
  unfold advertise
  split
  · split
    · trivial
    · trivial
    · rename_i account ad _ hread
      obtain ⟨hname, hpassword, hstatstring⟩ := readAdvertisement_short hread
      have hhost := host_modest (s := s) account hname hpassword hstatstring
      split
      · have hwins : (s.normalWins account.name).Within Footprint.light.Asks fun _ => True :=
          normalWins_within _
        refine (hwins.imp fun q hq => ?_).bind fun wins _ => ?_
        · exact Request.modest_of_unlisted (Footprint.light_unlisted hq)
        · split
          · exact ⟨trivial, fun _ _ => trivial⟩
          · exact hhost
      · exact hhost
  · exact ⟨trivial, fun _ _ => trivial⟩

theorem withdrawGame_modest : s.withdrawGame.Within Request.Modest fun _ => True := by
  unfold withdrawGame
  split
  · exact ⟨trivial, fun _ _ => trivial⟩
  · trivial

/-- What keeps off the list of games asks for no game to be listed. -/
theorem modest_of_footprint {α : Type} {fp : Footprint} {x : Program α} {post : α → Prop}
    (h : x.Within fp.Asks post) (hfp : fp.concern ≠ .listing ∧ fp.lists = false) :
    x.Within Request.Modest post :=
  h.imp fun _ hq => Request.modest_of_unlisted (hq.unlisted hfp)

theorem stopAdvertising_modest (starts : Bool) :
    (s.stopAdvertising starts).Within Request.Modest fun _ => True := by
  refine withdrawGame_modest.bind fun _ _ => ?_
  have hstarts : (s.startGame starts).Within Footprint.light.Asks _ := startGame_within starts
  exact (modest_of_footprint hstarts ⟨Concern.noConfusion, rfl⟩).bind fun _ _ => trivial

theorem handle_modest : (s.handle cfg frame).Within Request.Modest fun _ => True := by
  have hdispatch : (s.dispatch cfg frame).Within Request.Modest fun _ => True := by
    by_cases hhost : frame.id = Sid.startAdvEx3
    · rw [dispatch_advertise hhost]
      exact advertise_modest
    by_cases hends : frame.id = Sid.stopAdv ∨ frame.id = Sid.leaveGame
    · obtain ⟨starts, hdispatch⟩ := dispatch_stops cfg s hends
      rw [hdispatch]
      exact stopAdvertising_modest starts
    · have hleaves : (s.dispatch cfg frame).Within (footprint frame.id).Asks _ := dispatch_leaves
      exact (modest_of_footprint hleaves (footprint_listing hhost hends)).mono fun _ _ _ => trivial
  exact hdispatch.bind fun _ _ => trivial

theorem cleanup_modest : s.cleanup.Within Request.Modest fun _ => True := by
  have hkeys (now : Nat) : (releaseKeys now s.claimedKeys).Within
      (Footprint.Asks { concern := .keys }) fun _ => True := releaseKeys_within rfl now _
  refine .ask trivial fun now => ?_
  refine (modest_of_footprint (hkeys now) ⟨Concern.noConfusion, rfl⟩).bind fun _ _ => ?_
  refine withdrawGame_modest.bind fun _ _ => ?_
  split
  · exact .ask trivial fun _ => ⟨trivial, fun _ _ => trivial⟩
  · trivial

theorem leave_modest : s.leave.Within Request.Modest fun _ => True :=
  cleanup_modest.bind fun _ _ => ⟨trivial, fun _ _ => trivial⟩

end Bncs

/-- Sessions ask for short games to be listed. -/
def modest : Contract where
  asks _ _ q := q.Modest
  answers _ _ _ := True
  inv _ _ := True
  during _ _ := True
  left _ := True

theorem modest_sound (cfg : ServerConfig) : modest.Sound (fun _ _ _ => True) cfg where
  starts _ _ := trivial
  takes _ _ := trivial
  handles := by
    intro s log frame _ _ _
    refine (Bncs.handle_modest.follow fun _ _ hq => hq).mono fun r _ _ => ?_
    obtain ⟨step, s'⟩ := r
    cases step with
    | «continue» => trivial
    | close => exact ⟨trivial, Bncs.leave_modest.follow fun _ _ hq => hq⟩
  notes _ _ _ := trivial
  leaves _ _ _ := ⟨trivial, Bncs.leave_modest.follow fun _ _ hq => hq⟩

def GameDirectory.Short (games : GameDirectory) : Prop :=
  ∀ name g, games.lookup name = some g → g.Short

theorem GameDirectory.Short.answer {games : GameDirectory} (h : games.Short) {q : Request}
    (hq : q.Modest) (other : Reply q) : (games.answer q other).2.Short := by
  cases q
  case advertiseGame ad =>
    show (games.advertiseGame ad).2.Short
    rcases games.advertiseGame_cases ad with hfree | htaken
    · rw [hfree]
      intro name g hg
      by_cases hname : name = ad.key
      · rw [hname, Finmap.lookup_insert] at hg
        rw [← Option.some.inj hg]
        exact hq
      · rw [Finmap.lookup_insert_of_ne _ hname] at hg
        exact h name g hg
    · rw [htaken]
      exact h
  case withdrawGame account =>
    intro name g hg
    change (games.withdrawGame account).lookup name = some g at hg
    rw [GameDirectory.withdrawGame, Map.lookup_retain] at hg
    exact h name g (Option.filter_eq_some_iff.mp hg).1
  all_goals exact h

section Runs

variable {cfg : ServerConfig} {chat : NodeConfig}

theorem short_step {w : Fitted Offers} (hkeeps : Part.Keeps modest w) (h : w.part.games.Short)
    (event : Part.Event Action) : ((offers chat).step cfg w event).part.games.Short := by
  cases event with
  | part action => exact h
  | server event =>
    cases event with
    | turn i others =>
      cases hasking : w.server.asking i with
      | none =>
        obtain ⟨hpart, _⟩ := Part.step_still (offers chat) cfg (.turn i others)
          (Option.map_eq_none_iff.mpr hasking)
        rw [hpart]
        exact h
      | some q =>
        obtain ⟨hpart, _⟩ := Part.step_turn (offers chat) cfg hasking others
        obtain ⟨_, _, _, hmodest⟩ := (hkeeps i).asking hasking
        rw [hpart]
        exact h.answer hmodest _
    | frame i frame =>
      show (ite _ w.part w.part).games.Short
      rw [ite_self]
      exact h
    | accepts _ _ _ _ _ | hangUp _ => exact h

theorem short_offered (cfg : ServerConfig) (chat : NodeConfig) (keys : KeyRegistry)
    (keyHolderNames : Map KeyId Text) (events : List (Part.Event Action)) :
    (offered cfg chat keys keyHolderNames events).part.games.Short := by
  have hrun : Part.Keeps modest (offered cfg chat keys keyHolderNames events) ∧
      (offered cfg chat keys keyHolderNames events).part.games.Short := by
    refine run_invariant (P := fun w => Part.Keeps modest w ∧ w.part.games.Short)
      (fun w event h => ⟨?_, short_step h.1 h.2 event⟩) ⟨Part.keeps_new, ?_⟩ events
    · exact Part.keeps_step (modest_sound cfg) (fun _ _ _ => trivial) h.1 event
    · intro name g hg
      cases hg
  exact hrun.2

/-- What is listed is on the list. -/
theorem Offers.lookup_of_gamesFor {o : Offers} {a : Asker} {frame : Frame} {g : GameAd}
    (hg : g ∈ o.gamesFor a frame) : ∃ name, o.games.lookup name = some g := by
  have hwalked : g ∈ (a.gameWalk.order o.games).map Sigma.snd := by
    unfold Offers.gamesFor Daemon.gamesFor at hg
    dsimp only at hg
    split at hg
    · split at hg
      · exact List.mem_of_mem_filter (List.mem_of_mem_filter hg)
      · exact List.mem_of_mem_filter (List.mem_of_mem_filter (List.mem_of_mem_take hg))
    · cases hg
  obtain ⟨⟨name, g'⟩, hentry, rfl⟩ := List.mem_map.mp hwalked
  exact ⟨name, a.gameWalk.mem_order.mp hentry⟩

/-- **A list of at most 107 games can be sent.** -/
theorem few_games_fit (cfg : ServerConfig) (chat : NodeConfig) (keys : KeyRegistry)
    (keyHolderNames : Map KeyId Text) (events : List (Part.Event Action)) (s : Bncs) (a : Asker)
    (frame : Frame)
    (hfew : ((offered cfg chat keys keyHolderNames events).part.gamesFor a frame).length ≤ 107) :
    Sendable s ((offered cfg chat keys keyHolderNames events).part.reply a (.games frame)) := by
  refine (sendable_iff cfg chat keys keyHolderNames events s a (.games frame)).mpr ?_
  have hshort := short_offered cfg chat keys keyHolderNames events
  revert hfew hshort
  generalize (offered cfg chat keys keyHolderNames events).part = o
  intro hfew hshort
  have hsize : ∀ size ∈ (o.gamesFor a frame).map gameSize, size ≤ 609 := by
    intro size hsize
    obtain ⟨g, hg, rfl⟩ := List.mem_map.mp hsize
    obtain ⟨name, hname⟩ := Offers.lookup_of_gamesFor hg
    exact (hshort name g hname).size_le
  have hsum := List.sum_le_card_nsmul _ 609 hsize
  rw [List.length_map, smul_eq_mul] at hsum
  show ((o.gamesFor a frame).map gameSize).sum ≤ 65527
  omega

end Runs

/-! ## A crowd of games -/

namespace Bncs

/-- A packet that offers a game. -/
def Advertisement.frame (ad : Advertisement) : Frame where
  id := Sid.startAdvEx3
  body := Writer.u32 ad.state ++ (Writer.u32 0 ++ (Writer.u16 ad.gameType ++
    (Writer.u16 ad.parameter ++ (Writer.u32 0 ++ (Writer.u32 ad.ladder ++ (Writer.cstr ad.name ++
      (Writer.cstr ad.password ++ (Writer.cstr ad.statstring ++ []))))))))

theorem readAdvertisement_frame {ad : Advertisement}
    (hnuls : ∀ b ∈ ad.name ++ ad.password ++ ad.statstring, b ≠ 0)
    (hname : ad.name.length ≤ channelNameMax) (hpassword : ad.password.length ≤ channelNameMax)
    (hstatstring : ad.statstring.length ≤ 512) : readAdvertisement.read ad.frame = .ok ad := by
  have hread : readAdvertisement ad.frame.body = .ok (ad, []) := by
    have hreads : Reads readAdvertisement ad.frame.body ad := by
      refine (Reader.reads_u32 ad.state).bind ((Reader.reads_u32 0).bind ?_)
      refine (Reader.reads_u16 ad.gameType).bind ((Reader.reads_u16 ad.parameter).bind ?_)
      refine (Reader.reads_u32 0).bind ((Reader.reads_u32 ad.ladder).bind ?_)
      refine (Reader.reads_cstr (fun b hb => hnuls b (by simp [hb])) hname).bind ?_
      refine (Reader.reads_cstr (fun b hb => hnuls b (by simp [hb])) hpassword).bind ?_
      refine (Reader.reads_cstr (fun b hb => hnuls b (by simp [hb])) hstatstring).bind ?_
      exact Reads.pure ad
    have hread := hreads []
    rwa [List.append_nil] at hread
  show Prod.fst <$> readAdvertisement _ = _
  rw [hread]
  rfl

def gameOf (s : Bncs) (account : Account) (ad : Advertisement) (created : Nat) : GameAd where
  name := ad.name
  password := ad.password
  statstring := ad.statstring
  gameType := ad.gameType
  parameter := ad.parameter
  state := ad.state
  product := s.product
  port := s.gamePort
  hostIp := hostIp s.peer
  host := account.id
  created

/-- What is left to do once a game is on the list, or is not. -/
def afterAdvertising (s : Bncs) (ad : Advertisement) (free : Bool) : Handling :=
  if free then
    if s.hostingGame then s.send (advertiseReply AdvertiseStatus.ok)
    else do
      let since : Nat ← ask .instant
      let product := s.product.elim "unknown".toList FourCc.toText
      let _ : Unit ← ask (.recordHostedGame product)
      { s with hostingGame := true, gameSeat := some ⟨ad.name, since⟩ }.send
        (advertiseReply AdvertiseStatus.ok)
  else s.send (advertiseReply AdvertiseStatus.nameTaken)

/-- To offer a game moves no session out of chat. -/
theorem send_advance {s : Bncs} (hstate : s.state = .chatting) (frame : Frame) :
    (do
      let (step, s') ← s.send frame
      return (step, if step = .continue then s'.advance Sid.startAdvEx3 else s')) =
        s.send frame := by
  have hstays : s.advance Sid.startAdvEx3 = s := by
    rw [advance, hstate]
    rfl
  refine congrArg (Asking.ask (Request.sendFrame frame)) (funext fun queued => ?_)
  show Asking.done _ = Asking.done _
  rw [hstays, ite_self]

/-- A session in chat that offers a game asks for it to be listed. -/
theorem handle_advertise {cfg : ServerConfig} {s : Bncs} {account : Account} {ad : Advertisement}
    (hcfg : cfg.gameHosting = true) (hstate : s.state = .chatting)
    (haccount : s.account = some account) (hread : readAdvertisement.read ad.frame = .ok ad)
    (hladder : ad.ladder = 0) :
    s.handle cfg ad.frame = .ask .instant fun created =>
      .ask (.advertiseGame (s.gameOf account ad created)) (s.afterAdvertising ad) := by
  have hdispatch : s.dispatch cfg ad.frame = s.host account ad := by
    rw [dispatch_advertise rfl, advertise, if_pos hcfg, haccount, hread]
    dsimp only
    rw [if_neg (not_not_intro hladder)]
  rw [handle, hdispatch]
  refine congrArg (Asking.ask Request.instant) (funext fun created => ?_)
  refine congrArg (Asking.ask (Request.advertiseGame _)) (funext fun free => ?_)
  cases free with
  | false => exact send_advance hstate _
  | true =>
    show ((if s.hostingGame = true then _ else _ : Handling).bind _) = s.afterAdvertising ad true
    rw [afterAdvertising, if_pos rfl]
    split
    · exact send_advance hstate _
    · refine congrArg (Asking.ask Request.instant) (funext fun since => ?_)
      refine congrArg (Asking.ask (Request.recordHostedGame _)) (funext fun _ => ?_)
      exact send_advance (s := { s with hostingGame := true, gameSeat := _ }) hstate _

end Bncs

/-- How far the connection `0` has come, and the games on the list. -/
structure At (w : Fitted Offers) (conn : Conn) (games : GameDirectory) : Prop where
  conn : w.server.conns 0 = conn
  games : w.part.games = games

namespace At

variable (cfg : ServerConfig) (chat : NodeConfig) {w : Fitted Offers} {s : Bncs} {frame : Frame}
  {games : GameDirectory}

theorem frame_step (h : At w (.idle s) games) (haccepts : s.state.accepts frame.id = true) :
    At ((offers chat).step cfg w (.server (.frame 0 frame)))
      (.settle s frame (s.handle cfg frame)) games where
  conn := by
    show (w.server.step cfg (.frame 0 frame)).conns 0 = _
    rw [Server.step, h.conn]
    dsimp only
    rw [Server.takesFrame, if_pos haccepts, Server.setConn_self]
  games := by
    show (ite _ w.part w.part).games = games
    rw [ite_self]
    exact h.games

/-- A request that the server answers as it is told. -/
theorem turn {q : Request} {next : Reply q → Handling}
    (h : At w (.handling s frame (.ask q next)) games)
    (hq : ∀ v other, (Server.answer cfg v q other).1 = other) (others : (q : Request) → Reply q) :
    At ((offers chat).step cfg w (.server (.turn 0 others)))
      (.settle s frame (next (games.answer q (others q)).1)) (games.answer q (others q)).2 where
  conn := by
    show (w.server.step cfg (.turn 0 fun q => (w.part.games.answer q (others q)).1)).conns 0 = _
    rw [Server.step, h.conn, h.games]
    dsimp only
    rw [hq, Server.setConn_self]
  games := by
    have hasking : w.server.asking 0 = some q := by rw [Server.asking, h.conn]
    obtain ⟨hpart, _⟩ := Part.step_turn (offers chat) cfg hasking others
    rw [hpart, ← h.games]
    rfl

theorem rests (h : At w (.idle s) games) (others : (q : Request) → Reply q) (n : Nat) :
    At (run ((offers chat).step cfg) w (List.replicate n (.server (.turn 0 others)))) (.idle s)
      games := by
  induction n generalizing w with
  | zero => exact h
  | succ n ih =>
    refine ih ⟨?_, ?_⟩
    · show (w.server.step cfg (.turn 0 _)).conns 0 = _
      rw [Server.step, h.conn]
      exact h.conn
    · have hasking : w.server.asking 0 = none := by rw [Server.asking, h.conn]
      obtain ⟨hpart, _⟩ := Part.step_still (offers chat) cfg (.turn 0 others)
        (Option.map_eq_none_iff.mpr hasking)
      rw [hpart]
      exact h.games

/-- A handler that asks nothing about the list, nor about what the server keeps, goes on to its
end. -/
theorem finishes {x : Handling} (h : At w (.settle s frame x) games) {post : Step × Bncs → Prop}
    (hx : x.Within (fun q => q.concern = .other ∨ q.concern = .hosting) post)
    (others : (q : Request) → Reply q)
    (hcontinue : (x.eval fun _ => others).1 = .continue) {n : Nat}
    (hn : (x.requests fun _ => others).length ≤ n) :
    At (run ((offers chat).step cfg) w (List.replicate n (.server (.turn 0 others))))
      (.idle (x.eval fun _ => others).2) games := by
  induction x generalizing w n with
  | done r =>
    obtain ⟨step, s'⟩ := r
    obtain rfl : step = .continue := hcontinue
    exact rests cfg chat h others n
  | ask q next ih =>
    cases n with
    | zero => cases hn
    | succ n =>
      have hanswer (v : Server) (other : Reply q) : (v.answer cfg q other).1 = other := by
        rcases hx.1 with hother | hhosting
        · cases q <;> first | rfl | exact Concern.noConfusion hother
        · cases q <;> first | rfl | exact Concern.noConfusion hhosting
      have hgames (other : Reply q) : games.answer q other = (other, games) := by
        rcases hx.1 with hother | hhosting
        · cases q <;> first | rfl | exact Concern.noConfusion hother
        · cases q <;> first | rfl | exact Concern.noConfusion hhosting
      have hturn := turn cfg chat h hanswer others
      rw [hgames] at hturn
      exact ih (others q) hturn (hx.2 _ trivial) hcontinue (Nat.le_of_succ_le_succ hn)

end At

structure Chats (s : Bncs) : Prop where
  state : s.state = .chatting
  account : s.account = some Server.alice
  product : s.product = some Product.star

namespace Bncs

variable {s : Bncs} {ad : Advertisement}

theorem afterAdvertising_within (free : Bool) : (s.afterAdvertising ad free).Within
    (fun q => q.concern = .other ∨ q.concern = .hosting) fun _ => True := by
  unfold afterAdvertising
  split
  · split
    · exact ⟨Or.inl rfl, fun _ _ => trivial⟩
    · exact .ask (Or.inl rfl) fun _ => .ask (Or.inr rfl) fun _ => ⟨Or.inl rfl, fun _ _ => trivial⟩
  · exact ⟨Or.inl rfl, fun _ _ => trivial⟩

theorem afterAdvertising_requests (free : Bool) (answers : (q : Request) → Reply q) :
    ((s.afterAdvertising ad free).requests fun _ => answers).length ≤ 10 := by
  unfold afterAdvertising
  split
  · split
    · exact Nat.le_add_left 1 9
    · exact Nat.le_add_left 3 7
  · exact Nat.le_add_left 1 9

theorem afterAdvertising_chats (ad : Advertisement) (h : Chats s) :
    ((s.afterAdvertising ad true).eval fun _ => Server.inOrder Server.alice).1 = .continue ∧
      Chats ((s.afterAdvertising ad true).eval fun _ => Server.inOrder Server.alice).2 := by
  rw [afterAdvertising, if_pos rfl]
  split
  · exact ⟨rfl, h⟩
  · exact ⟨rfl, h.state, h.account, h.product⟩

end Bncs

/-- Alice gets a game onto the list. -/
theorem At.advertises (chat : NodeConfig) {w : Fitted Offers} {s : Bncs} {games : GameDirectory}
    {ad : Bncs.Advertisement} (h : At w (.idle s) games) (hs : Chats s)
    (hread : Bncs.readAdvertisement.read ad.frame = .ok ad) (hladder : ad.ladder = 0)
    (hfree : games.advertiseGame (s.gameOf Server.alice ad 0) =
      (true, games.insert (gameKey ad.name) (s.gameOf Server.alice ad 0))) :
    ∃ s', Chats s' ∧ At (run ((offers chat).step .lenient) w
      ((Server.exchange Server.alice 0 ad.frame).map .server)) (.idle s')
        (games.insert (gameKey ad.name) (s.gameOf Server.alice ad 0)) := by
  have haccepts : s.state.accepts ad.frame.id = true := by
    rw [hs.state]
    rfl
  have htaken := h.frame_step .lenient chat haccepts
  rw [Bncs.handle_advertise rfl hs.state hs.account hread hladder] at htaken
  have hasked := turn .lenient chat htaken (fun _ _ => rfl) (Server.inOrder Server.alice)
  have hlisted : At _ (.settle s ad.frame
      (s.afterAdvertising ad (games.advertiseGame (s.gameOf Server.alice ad 0)).1))
        (games.advertiseGame (s.gameOf Server.alice ad 0)).2 :=
    turn .lenient chat hasked (fun _ _ => rfl) (Server.inOrder Server.alice)
  rw [hfree] at hlisted
  obtain ⟨hcontinue, hchats⟩ := Bncs.afterAdvertising_chats ad hs
  refine ⟨_, hchats, ?_⟩
  exact hlisted.finishes .lenient chat (Bncs.afterAdvertising_within true) _ hcontinue
    (Bncs.afterAdvertising_requests true _)

namespace Server

/-- The `i`-th of a crowd of games, with strings as long as may be. -/
def crowdGame (i : Nat) : Bncs.Advertisement where
  state := 0
  gameType := 0
  parameter := 0
  ladder := 0
  name := .ofNat (123 + i) :: List.replicate 30 97
  password := List.replicate 31 97
  statstring := List.replicate 512 97

/-- A session of Alice's that goes to chat and advertises `n` games. -/
def crowd (n : Nat) : List Event :=
  entersChat 0 ++ (List.range n).flatMap fun i => exchange alice 0 (crowdGame i).frame

theorem crowdGame_nonzero {i : Nat} (hi : i < 108) :
    ∀ b ∈ (crowdGame i).name ++ (crowdGame i).password ++ (crowdGame i).statstring, b ≠ 0 := by
  intro b hb
  have hletter : (97 : UInt8) ≠ 0 := by decide
  have hfirst : UInt8.ofNat (123 + i) ≠ 0 := by
    intro hzero
    have hmod := congrArg UInt8.toNat hzero
    rw [UInt8.toNat_ofNat', Nat.mod_eq_of_lt (by omega)] at hmod
    have hnone : 123 + i = 0 := hmod
    omega
  simp only [crowdGame, List.cons_append, List.mem_cons, List.mem_append, List.mem_replicate]
    at hb
  rcases hb with rfl | ⟨⟨_, rfl⟩ | ⟨_, rfl⟩⟩ | ⟨_, rfl⟩
  · exact hfirst
  · exact hletter
  · exact hletter
  · exact hletter

theorem crowdGame_read {i : Nat} (hi : i < 108) :
    Bncs.readAdvertisement.read (crowdGame i).frame = .ok (crowdGame i) := by
  refine Bncs.readAdvertisement_frame (crowdGame_nonzero hi) ?_ ?_ ?_
  · show (List.replicate 30 (97 : UInt8)).length + 1 ≤ 31
    rw [List.length_replicate]
  · show (List.replicate 31 (97 : UInt8)).length ≤ 31
    rw [List.length_replicate]
  · show (List.replicate 512 (97 : UInt8)).length ≤ 512
    rw [List.length_replicate]

/-- The names differ in their first byte, which has no case. -/
theorem crowdGame_key {i j : Nat} (hi : i < 108) (hj : j < 108)
    (h : gameKey (crowdGame i).name = gameKey (crowdGame j).name) : i = j := by
  have hvalue {i : Nat} (hi : i < 108) : (UInt8.ofNat (123 + i)).toNat = 123 + i := by
    rw [UInt8.toNat_ofNat', Nat.mod_eq_of_lt (by omega)]
  have hsame {i : Nat} (hi : i < 108) :
      Text.byteToAsciiLowercase (.ofNat (123 + i)) = .ofNat (123 + i) := by
    refine if_neg fun hupper => ?_
    have hle : (UInt8.ofNat (123 + i)).toNat ≤ 90 := UInt8.le_iff_toNat_le.mp hupper.2
    rw [hvalue hi] at hle
    omega
  have hfirst : UInt8.ofNat (123 + i) = .ofNat (123 + j) := by
    rw [← hsame hi, ← hsame hj]
    exact (List.cons.inj h).1
  have hnumber := congrArg UInt8.toNat hfirst
  rw [hvalue hi, hvalue hj] at hnumber
  omega

/-- Each takes 609 bytes in a list. -/
theorem crowdGame_size {i : Nat} (hi : i < 108) (s : Bncs) :
    gameSize (s.gameOf alice (crowdGame i) 0) = 609 := by
  have hname := weight_of_nonzero fun b hb =>
    crowdGame_nonzero hi b (List.mem_append_left _ (List.mem_append_left _ hb))
  have hpassword := weight_of_nonzero fun b hb =>
    crowdGame_nonzero hi b (List.mem_append_left _ (List.mem_append_right _ hb))
  have hstatstring := weight_of_nonzero fun b hb =>
    crowdGame_nonzero hi b (List.mem_append_right _ hb)
  show 35 + weight (crowdGame i).name + weight (crowdGame i).password +
    weight (crowdGame i).statstring = 609
  rw [hname, hpassword, hstatstring]
  show 35 + ((List.replicate 30 (97 : UInt8)).length + 1) +
    (List.replicate 31 (97 : UInt8)).length + (List.replicate 512 (97 : UInt8)).length = 609
  rw [List.length_replicate, List.length_replicate, List.length_replicate]

end Server

/-- A list of games of Alice's, with at least the first `n` of the crowd. -/
structure Crowd (games : GameDirectory) (n : Nat) : Prop where
  own : ∀ name g, games.lookup name = some g →
    g.host = Server.alice.id ∧ g.product = some Product.star ∧ gameSize g = 609
  has : ∀ i < n, gameKey (Server.crowdGame i).name ∈ games

theorem Crowd.add {games : GameDirectory} {n : Nat} (h : Crowd games n) (hn : n < 108) {s : Bncs}
    (hs : Chats s) :
    games.advertiseGame (s.gameOf Server.alice (Server.crowdGame n) 0) =
      (true, games.insert (gameKey (Server.crowdGame n).name)
        (s.gameOf Server.alice (Server.crowdGame n) 0)) ∧
      Crowd (games.insert (gameKey (Server.crowdGame n).name)
        (s.gameOf Server.alice (Server.crowdGame n) 0)) (n + 1) := by
  refine ⟨?_, fun name g hg => ?_, fun i hi => ?_⟩
  · unfold GameDirectory.advertiseGame
    split
    · rename_i existing hexisting
      exact if_neg (not_not_intro (h.own _ existing hexisting).1)
    · rfl
  · by_cases hname : name = gameKey (Server.crowdGame n).name
    · rw [hname, Finmap.lookup_insert] at hg
      rw [← Option.some.inj hg]
      exact ⟨rfl, hs.product, Server.crowdGame_size hn s⟩
    · rw [Finmap.lookup_insert_of_ne _ hname] at hg
      exact h.own name g hg
  · rw [Finmap.mem_insert]
    rcases Nat.lt_succ_iff_lt_or_eq.mp hi with hlt | rfl
    · exact Or.inr (h.has i hlt)
    · exact Or.inl rfl

theorem Server.idle_of_taking {v : Server} {i : ConnId} {frame : Frame} {s : Bncs}
    (h : v.taking i frame = some s) : v.conns i = .idle s := by
  unfold taking at h
  split at h
  · rename_i hidle
    rw [hidle]
    split at h
    · rw [Option.some.inj h]
    · cases h
  · cases h

/-- Alice gets into chat. -/
theorem crowd_enters : ∃ s, Chats s ∧ At (offered .lenient World.openChannels (.new 500) ∅
    ((Server.crowd 0).map .server)) (.idle s) ∅ := by
  have hidle : ((offered .lenient World.openChannels (.new 500) ∅
      ((Server.crowd 0).map .server)).server.taking 0 ⟨Sid.startAdvEx3, []⟩).map
        (fun s => (s.state, s.account, s.product)) =
      some (.chatting, some Server.alice, some Product.star) := by decide +kernel
  have hempty : (offered .lenient World.openChannels (.new 500) ∅
      ((Server.crowd 0).map .server)).part.games.isEmpty = true := by decide +kernel
  obtain ⟨s, htaking, hs⟩ := Option.map_eq_some_iff.mp hidle
  obtain ⟨hstate, hrest⟩ := Prod.mk.inj hs
  obtain ⟨haccount, hproduct⟩ := Prod.mk.inj hrest
  refine ⟨s, ⟨hstate, haccount, hproduct⟩, Server.idle_of_taking htaking, ?_⟩
  exact Map.isEmpty_iff.mp hempty

theorem crowd_listed {n : Nat} (hn : n ≤ 108) : ∃ s games, Chats s ∧ Crowd games n ∧
    At (offered .lenient World.openChannels (.new 500) ∅ ((Server.crowd n).map .server)) (.idle s)
      games := by
  induction n with
  | zero =>
    obtain ⟨s, hs, hat⟩ := crowd_enters
    refine ⟨s, ∅, hs, ⟨fun name g hg => ?_, fun i hi => ?_⟩, hat⟩
    · cases hg
    · cases hi
  | succ n ih =>
    obtain ⟨s, games, hs, hcrowd, hat⟩ := ih (Nat.le_of_succ_le hn)
    obtain ⟨hfree, hnext⟩ := hcrowd.add hn hs
    have hread := Server.crowdGame_read hn
    obtain ⟨s', hs', hat'⟩ := hat.advertises World.openChannels hs hread rfl hfree
    refine ⟨s', _, hs', hnext, ?_⟩
    have hevents : Server.crowd (n + 1) = Server.crowd n ++
        Server.exchange Server.alice 0 (Server.crowdGame n).frame := by
      rw [Server.crowd, Server.crowd, List.range_succ, List.flatMap_append, List.flatMap_singleton,
        List.append_assoc]
    rw [hevents, List.map_append, offered, run_append]
    exact hat'

/-- Who sees the games of Alice's product. -/
def crowdAsker : Asker :=
  { product := some Product.star, gameListing := true, listed := [], gameWalk := .ascendingBytes,
    channelWalk := .ascendingBytes, elapsed _ := 0 }

theorem gamesFor_crowdAsker (o : Offers) : o.gamesFor crowdAsker ⟨Sid.getAdvListEx, []⟩ =
    ((crowdAsker.gameWalk.order o.games).map Sigma.snd).filter
      fun g => g.product = some Product.star := by
  have hquery : gameQuery ⟨Sid.getAdvListEx, []⟩ = (0, []) := rfl
  show gamesFor true (some Product.star) _ _ = _
  rw [gamesFor, hquery]
  dsimp only
  rw [if_pos rfl, if_pos rfl]
  exact List.filter_eq_self.mpr fun g _ => decide_eq_true (Or.inl rfl)

theorem Crowd.le_size {o : Offers} {n : Nat} (h : Crowd o.games n) (hn : n ≤ 108) :
    609 * n ≤ ((o.gamesFor crowdAsker ⟨Sid.getAdvListEx, []⟩).map gameSize).sum := by
  have hwalk (g : GameAd) (hg : g ∈ (crowdAsker.gameWalk.order o.games).map Sigma.snd) :
      g.product = some Product.star ∧ gameSize g = 609 := by
    obtain ⟨⟨name, g'⟩, hentry, rfl⟩ := List.mem_map.mp hg
    exact (h.own name g' (crowdAsker.gameWalk.mem_order.mp hentry)).2
  have hsizes : ((crowdAsker.gameWalk.order o.games).map Sigma.snd).map gameSize =
      List.replicate (crowdAsker.gameWalk.order o.games).length 609 := by
    rw [List.eq_replicate_iff]
    refine ⟨by rw [List.length_map, List.length_map], fun size hsize => ?_⟩
    obtain ⟨g, hg, rfl⟩ := List.mem_map.mp hsize
    exact (hwalk g hg).2
  have hcount : n ≤ (crowdAsker.gameWalk.order o.games).length := by
    have hkeys : (crowdAsker.gameWalk.order o.games).length = o.games.keys.card := by
      rw [← Multiset.coe_card, crowdAsker.gameWalk.lists]
      exact (Multiset.card_map Sigma.fst o.games.entries).symm
    rw [hkeys, ← Finset.card_range n]
    refine Finset.card_le_card_of_injOn (fun i => gameKey (Server.crowdGame i).name)
      (fun i hi => ?_) fun i hi j hj hij => ?_
    · exact Finmap.mem_keys.mpr (h.has i (Finset.mem_range.mp hi))
    · have hi := Finset.mem_range.mp hi
      have hj := Finset.mem_range.mp hj
      exact Server.crowdGame_key (hi.trans_le hn) (hj.trans_le hn) hij
  rw [gamesFor_crowdAsker, List.filter_eq_self.mpr fun g hg => decide_eq_true (hwalk g hg).1,
    hsizes, List.sum_replicate, smul_eq_mul, Nat.mul_comm]
  exact Nat.mul_le_mul_right 609 hcount

def hundredGames : Frame where
  id := Sid.getAdvListEx
  body := Writer.u32 0 ++ Writer.u32 0 ++ Writer.u32 0 ++ Writer.u32 100 ++ [0]

theorem length_gamesFor_le (o : Offers) (a : Asker) {frame : Frame} {count : UInt32}
    (hcount : count ≠ 0) (hquery : gameQuery frame = (count, [])) :
    (o.gamesFor a frame).length ≤ count.toNat := by
  unfold Offers.gamesFor Daemon.gamesFor
  rw [hquery]
  dsimp only
  split
  · exact List.length_take_le _ _
  · exact Nat.zero_le _

/-- A hundred of the crowd can be listed. -/
theorem few_games_fit_hundred : Sendable (.new (.v4 1) 0)
    ((offered .lenient World.openChannels (.new 500) ∅ ((Server.crowd 108).map .server)).part.reply
      crowdAsker (.games hundredGames)) := by
  have hquery : gameQuery hundredGames = (100, []) := by decide
  have hlength (o : Offers) : (o.gamesFor crowdAsker hundredGames).length ≤ 107 :=
    (length_gamesFor_le o crowdAsker (by decide) hquery).trans (by decide)
  exact few_games_fit _ _ _ _ _ _ _ _ (hlength _)

/-- **The list of a crowd cannot be sent**: one account with 108 games is enough that nobody gets
the list. -/
theorem crowd_unsendable : ¬ ∀ cfg chat keys keyHolderNames events s a request,
    Sendable s ((offered cfg chat keys keyHolderNames events).part.reply a request) := by
  intro h
  have hfits := Offers.sendable_reply (.games ⟨Sid.getAdvListEx, []⟩) |>.mp
    (h .lenient World.openChannels (.new 500) ∅ ((Server.crowd 108).map .server)
      (.new (.v4 1) 0) crowdAsker (.games ⟨Sid.getAdvListEx, []⟩))
  obtain ⟨s, games, _, hcrowd, hat⟩ := crowd_listed (le_refl 108)
  rw [← hat.games] at hcrowd
  have hsize := (hcrowd.le_size (le_refl 108)).trans hfits
  exact absurd hsize (by decide)

end CommandCenter.Daemon
