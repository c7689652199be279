import CommandCenter.Daemon.GameDirectory

/-!
# The list of games under many sessions

The list of games is a part of the node: sessions advertise and withdraw by requests, in any
order, and several may be of one account. `Node::withdraw_game` takes off every game of the
account, also one that another of its sessions hosts, and a host that advertises under another
name leaves its old game behind.

* `Fitted.Lists`: the games on the list are those that are hosted.
* `moves_step`: what each step does to the list.
* `directory_exact`: the runs that keep the list exact.
-/

namespace CommandCenter.Daemon

open Rust CommandCenter.Core Proto Library
open Storage (Account)

/-- The list of games, and who was the last to advertise each name with success. -/
structure Directory where
  games : GameDirectory
  advertiser : List UInt8 → Option ConnId

def Directory.new : Directory := ⟨∅, fun _ => none⟩

namespace Directory

def advertise (d : Directory) (i : ConnId) (ad : GameAd) : Bool × Directory :=
  match d.games.advertiseGame ad with
  | (true, games) => (true, ⟨games, Function.update d.advertiser ad.key (some i)⟩)
  | (false, games) => (false, { d with games })

def withdraw (d : Directory) (account : AccountId) : Directory :=
  { d with games := d.games.withdrawGame account }

end Directory

/-- The part of the node that keeps the list of games. Nothing but sessions moves it. -/
def directory : Part Directory Empty where
  takes d _ _ := d
  answer d i
    | .advertiseGame ad, _ => d.advertise i ad
    | .withdrawGame account, _ => ((), d.withdraw account)
    | _, other => (other, d)
  moves d _ := d

namespace Fitted

def board (w : Fitted Directory) : Board where
  games := w.part.games
  advertiser := w.part.advertiser
  hosts i := hosting (w.server.log i)

/-- A game is on the list exactly if the session that was the last to advertise the name is
connected and hosts the game still. -/
def Lists (w : Fitted Directory) : Prop :=
  ∀ name, name ∈ w.part.games ↔ ∃ i, (w.server.session i).isSome ∧ w.board.Hosts i name

/-- What is asked about the list is asked in order. -/
def Asked (w : Fitted Directory) (i : ConnId) : Option Request → Prop
  | some (.withdrawGame account) => w.board.OnlyBy i account
  | _ => True

instance (w : Fitted Directory) (i : ConnId) (q : Option Request) : Decidable (w.Asked i q) := by
  unfold Asked
  split <;> infer_instance

/-- A host of a listed game asks to advertise no other, and a session that withdraws the games of
its account was the one to advertise them. -/
def Orderly (w : Fitted Directory) : Part.Event Empty → Prop
  | .server (.frame i frame) => (w.server.taking i frame).isSome →
    ∀ g ∈ w.board.hosts i, renames frame g = true → w.part.advertiser g.key ≠ some i
  | .server (.turn i _) => w.Asked i (w.server.asking i)
  | _ => True

variable {cfg : ServerConfig} {w : Fitted Directory}

theorem hosting_isSome (h : Part.Keeps listing w) {i : ConnId} {g : GameAd}
    (hg : hosting (w.server.log i) = some g) : (w.server.session i).isSome = true := by
  have hi := h i
  unfold Server.session
  generalize w.server.conns i = conn at hi
  have hnone (hnone : hosting (w.server.log i) = none) : False := by
    rw [hnone] at hg
    cases hg
  cases conn with
  | idle _ | handling _ _ _ | leaving _ _ => rfl
  | unused | plain _ _ =>
    have hempty : w.server.log i = [] := hi
    refine (hnone ?_).elim
    rw [hempty]
    rfl
  | ended =>
    refine (hnone ?_).elim
    rcases hi with hempty | hleft
    · rw [hempty]
      rfl
    · exact hleft

theorem lists_iff (h : Part.Keeps listing w) : w.Lists ↔ w.board.Exact := by
  refine forall_congr' fun name => iff_congr Iff.rfl (exists_congr fun i => ?_)
  refine and_iff_right_of_imp fun hi => ?_
  obtain ⟨g, hg, _⟩ := Option.map_eq_some_iff.mp hi.2
  exact hosting_isSome h hg

/-- What a log has one more entry for. -/
theorem hosts_note {w' : Fitted Directory} {i : ConnId} {entry : Entry}
    (hlog : w'.server.log = Function.update w.server.log i (w.server.log i ++ [entry])) :
    w'.board.hosts = Function.update w.board.hosts i (noteHosting (w.board.hosts i) entry) := by
  funext j
  show hosting (w'.server.log j) = _
  rw [hlog]
  by_cases hj : j = i
  · rw [hj, Function.update_self, Function.update_self]
    exact hosting_concat _ _
  · rw [Function.update_of_ne hj, Function.update_of_ne hj]
    rfl

theorem board_note {w' : Fitted Directory} {i : ConnId} {entry : Entry}
    (hlog : w'.server.log = Function.update w.server.log i (w.server.log i ++ [entry]))
    (hpart : w'.part = w.part) (hentry : noteHosting (w.board.hosts i) entry = w.board.hosts i) :
    w'.board = w.board := by
  have hhosts := hosts_note hlog
  rw [hentry, Function.update_eq_self] at hhosts
  refine Board.ext ?_ ?_ hhosts
  · show w'.part.games = w.part.games
    rw [hpart]
  · show w'.part.advertiser = w.part.advertiser
    rw [hpart]

theorem board_log {w' : Fitted Directory} (hlog : w'.server.log = w.server.log)
    (hpart : w'.part = w.part) : w'.board = w.board := by
  unfold board
  rw [hlog, hpart]

/-- A frame is no matter for the list but for a host that asks to advertise another game. -/
theorem moves_frame (i : ConnId) (frame : Frame) :
    w.board.Moves (directory.step cfg w (.server (.frame i frame))).board
      (w.Orderly (.server (.frame i frame))) := by
  by_cases htaking : (w.server.taking i frame).isSome = true
  · obtain ⟨hpart, hlog⟩ := Part.step_frame directory cfg htaking
    by_cases hrenames : ∃ g ∈ w.board.hosts i, renames frame g = true
    · obtain ⟨g, hg, hrenames⟩ := hrenames
      have hdrop : (directory.step cfg w (.server (.frame i frame))).board = w.board.drop i := by
        refine Board.ext (congrArg Directory.games hpart) (congrArg Directory.advertiser hpart) ?_
        rw [hosts_note hlog, noteHosting_renames hg hrenames]
        rfl
      rw [hdrop]
      refine .drops hg ⟨fun h => h htaking g hg hrenames, fun h _ g' hg' _ => ?_⟩
      rwa [← Option.some.inj (hg.symm.trans hg')]
    · have hkept (g : GameAd) (hg : g ∈ w.board.hosts i) : renames frame g = false :=
        Bool.eq_false_iff.mpr fun h => hrenames ⟨g, hg, h⟩
      rw [board_note hlog hpart (noteHosting_kept hkept)]
      exact .stays fun _ g hg h => absurd ⟨g, hg, h⟩ hrenames
  · obtain ⟨hpart, hlog⟩ := Part.step_still directory cfg (.frame i frame)
      (Option.map_eq_none_iff.mpr (Option.not_isSome_iff_eq_none.mp htaking))
    rw [board_log hlog hpart]
    exact .stays fun h => absurd h htaking

/-- What is asked about the list is done to it. -/
theorem moves_turn (h : Part.Keeps listing w) (i : ConnId) (others : (q : Request) → Reply q) :
    w.board.Moves (directory.step cfg w (.server (.turn i others))).board
      (w.Asked i (w.server.asking i)) := by
  cases hasking : w.server.asking i with
  | none =>
    obtain ⟨hpart, hlog⟩ := Part.step_still directory cfg (.turn i others)
      (Option.map_eq_none_iff.mpr hasking)
    rw [board_log hlog hpart]
    exact .stays trivial
  | some q =>
    obtain ⟨hpart, hlog⟩ := Part.step_turn directory cfg hasking others
    obtain ⟨s, _, hown, hasks⟩ := (h i).asking hasking
    cases q
    case advertiseGame ad =>
      change _ = Function.update w.server.log i (w.server.log i ++
        [.asked (.advertiseGame ad) (w.part.advertise i ad).1]) at hlog
      change _ = (w.part.advertise i ad).2 at hpart
      rcases w.part.games.advertiseGame_cases ad with hfree | htaken
      · rw [Directory.advertise, hfree] at hpart hlog
        have hboard : (directory.step cfg w (.server (.turn i others))).board =
            w.board.advertise i ad := by
          exact Board.ext (congrArg Directory.games hpart) (congrArg Directory.advertiser hpart)
            (hosts_note hlog)
        rw [hboard]
        exact .advertises hasks.2 trivial
      · rw [Directory.advertise, htaken] at hpart hlog
        rw [board_note hlog hpart rfl]
        exact .stays trivial
    case withdrawGame account =>
      change _ = w.part.withdraw account at hpart
      have hboard : (directory.step cfg w (.server (.turn i others))).board =
          w.board.withdraw i account := by
        refine Board.ext (congrArg Directory.games hpart) ?_ (hosts_note hlog)
        exact (congrArg Directory.advertiser hpart).trans rfl
      rw [hboard]
      refine .withdraws (fun g hg => ?_) Iff.rfl
      exact Option.some.inj ((hown g hg).symm.trans hasks)
    all_goals
      rw [board_note hlog hpart rfl]
      exact .stays trivial

theorem moves_step (h : Part.Keeps listing w) (event : Part.Event Empty) :
    w.board.Moves (directory.step cfg w event).board (w.Orderly event) := by
  cases event with
  | part input => cases input
  | server event =>
    cases event with
    | frame i frame => exact moves_frame i frame
    | turn i others => exact moves_turn h i others
    | accepts i selector ip realm serverToken =>
      obtain ⟨hpart, hlog⟩ := Part.step_still directory cfg (w := w)
        (.accepts i selector ip realm serverToken) rfl
      rw [board_log hlog hpart]
      exact .stays trivial
    | hangUp i =>
      obtain ⟨hpart, hlog⟩ := Part.step_still directory cfg (w := w) (.hangUp i) rfl
      rw [board_log hlog hpart]
      exact .stays trivial

/-- The sessions keep to what they may ask for, and what is listed is as it was advertised. -/
def Kept (w : Fitted Directory) : Prop := Part.Keeps listing w ∧ w.board.Current

theorem kept_step (h : w.Kept) (event : Part.Event Empty) :
    (directory.step cfg w event).Kept :=
  ⟨Part.keeps_step (listing_sound cfg) (fun _ _ _ => trivial) h.1 event,
    (moves_step h.1 event).current h.2⟩

theorem kept_new (keys : KeyRegistry) (keyHolderNames : Map KeyId Text) :
    Fitted.Kept ⟨.new cfg keys keyHolderNames, .new⟩ := by
  refine ⟨Part.keeps_new, fun i g hg => ?_⟩
  cases hg

theorem lists_new (keys : KeyRegistry) (keyHolderNames : Map KeyId Text) :
    Fitted.Lists ⟨.new cfg keys keyHolderNames, .new⟩ := by
  intro name
  refine iff_of_false (Finmap.notMem_empty) ?_
  rintro ⟨i, hsession, _⟩
  cases hsession

theorem not_lists (i : ConnId) (name : List UInt8) (hsession : (w.server.session i).isSome = true)
    (hhosts : w.board.Hosts i name) (hgone : name ∉ w.part.games) : ¬ w.Lists :=
  fun h => hgone ((h name).mpr ⟨i, hsession, hhosts⟩)

theorem lists_step_iff (h : w.Kept) (hlists : w.Lists) (event : Part.Event Empty) :
    (directory.step cfg w event).Lists ↔ w.Orderly event := by
  rw [lists_iff (kept_step h event).1]
  exact (moves_step h.1 event).exact_iff h.2 ((lists_iff h.1).mp hlists)

end Fitted

/-- **The list of games is that of the games that are hosted** in exactly the runs where no host
of a listed game asks to advertise another, and no session withdraws the games of its account while
one of them was advertised by another session. -/
theorem directory_exact (cfg : ServerConfig) (keys : KeyRegistry) (keyHolderNames : Map KeyId Text)
    (events : List (Part.Event Empty)) :
    Always (directory.step cfg) Fitted.Lists ⟨.new cfg keys keyHolderNames, .new⟩ events ↔
      Along (directory.step cfg) Fitted.Orderly ⟨.new cfg keys keyHolderNames, .new⟩ events :=
  always_iff_along (J := Fitted.Kept) (P := Fitted.Lists)
    (fun _ event h => Fitted.kept_step h event)
    (fun _ event h hlists => Fitted.lists_step_iff h hlists event)
    (Fitted.kept_new keys keyHolderNames) (Fitted.lists_new keys keyHolderNames) events

namespace Server

def entersChat (i : ConnId) : List Event := logsOn i ++ exchange alice i ⟨Sid.enterChat, []⟩

def advertiseFrame (name : List UInt8) : Frame :=
  ⟨Sid.startAdvEx3, [0, 0, 0, 0, 0].flatMap Writer.u32 ++ Writer.cstr name ++ Writer.cstr [] ++
    Writer.cstr []⟩

/-- Two sessions of one account, of which the first hosts a game and the second goes. -/
def departs : List Event :=
  entersChat 0 ++ entersChat 1 ++ exchange alice 0 (advertiseFrame [100]) ++
    .hangUp 1 :: List.replicate 12 (.turn 1 (inOrder alice))

end Server

/-- The game of the first session is withdrawn with the second. -/
theorem directory_inexact : ¬ ∀ cfg keys keyHolderNames events,
    Always (directory.step cfg) Fitted.Lists ⟨.new cfg keys keyHolderNames, .new⟩ events := by
  intro h
  have hlists := (h .lenient (.new 500) ∅ (Server.departs.map .server)).last
  exact Fitted.not_lists 0 [100] (by decide +kernel) (by decide +kernel) (by decide +kernel) hlists

end CommandCenter.Daemon
