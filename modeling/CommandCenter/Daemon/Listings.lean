import CommandCenter.Core.ChannelInvariant
import CommandCenter.Daemon.Chat
import CommandCenter.Daemon.GameDirectory

/-!
# Lists of games, channels and users

What answers `SID_GETADVLISTEX`, `SID_GETCHANNELLIST` and the chat command `/who` in
`crates/bnetccd/src/session.rs`, and the encoding of the answer. A list names all that there is,
and the length of a frame is two bytes, so that a long list cannot be sent, and the session that
asked is closed as if it did not read.

Of the channel rules, what the list takes is the names they are shown under; a game's age is left
open.

* `gameList_short_iff`, `channelList_short_iff`, `whoReply_short_iff`: how long each answer may be.
* `Offers.sendable_reply`: which answers can be sent.
-/

namespace CommandCenter.Proto

def EventId.code : EventId → UInt32
  | .showUser => 0x01
  | .join => 0x02
  | .leave => 0x03
  | .whisper => 0x04
  | .talk => 0x05
  | .broadcast => 0x06
  | .channel => 0x07
  | .userFlags => 0x09
  | .whisperSent => 0x0A
  | .channelFull => 0x0D
  | .channelDoesNotExist => 0x0E
  | .channelRestricted => 0x0F
  | .info => 0x12
  | .error => 0x13
  | .emote => 0x17

def chatEvent (event : EventId) (flags ping : UInt32) (username text : List UInt8) : Frame where
  id := 0x0F
  body := Writer.u32 event.code ++ Writer.u32 flags ++ Writer.u32 ping ++ Writer.u32 0 ++
    Writer.u32 0 ++ Writer.u32 0 ++ Writer.cstr username ++ Writer.cstr text

end CommandCenter.Proto

namespace CommandCenter.Daemon

open Rust CommandCenter.Core Proto Library
open Storage (Account)

/-! ## The lists -/

/-- The count and the name of `SID_GETADVLISTEX`. -/
def readGameQuery : Reader (UInt32 × List UInt8) := do
  let _typeOrFlags ← Reader.u32
  let _filterOrMask ← Reader.u32
  let _reserved ← Reader.u32
  let count ← Reader.u32
  let name ← Reader.cstr channelNameMax
  return (count, name)

/-- A missing or short body asks for everything. -/
def gameQuery (frame : Frame) : UInt32 × List UInt8 :=
  match readGameQuery.read frame with
  | .ok query => query
  | .error _ => (0, [])

/-- The games that a request is answered with. -/
def gamesFor (gameListing : Bool) (product : Option FourCc) (games : List GameAd) (frame : Frame) :
    List GameAd :=
  let (count, name) := gameQuery frame
  if gameListing then
    let found := (games.filter fun g => g.product = product).filter fun g =>
      name = [] ∨ g.key = gameKey name
    if count = 0 then found else found.take count.toNat
  else []

def gameEntry (elapsed : UInt32) (g : GameAd) : List UInt8 :=
  Writer.u16 g.gameType ++ Writer.u16 g.parameter ++ Writer.u32 0 ++ Writer.u16 2 ++
    (Writer.u16 g.port).reverse ++ toBeBytes g.hostIp ++ Writer.u32 0 ++ Writer.u32 0 ++
    Writer.u32 g.state ++ Writer.u32 elapsed ++ Writer.cstr g.name ++ Writer.cstr g.password ++
    Writer.cstr g.statstring

/-- `Bncs::game_list`. -/
def gameList (gameListing : Bool) (product : Option FourCc) (elapsed : GameAd → UInt32)
    (games : List GameAd) (frame : Frame) : Frame where
  id := Sid.getAdvListEx
  body :=
    let found := gamesFor gameListing product games frame
    Writer.u32 (.ofNat found.length) ++
      if found = [] then
        Writer.u32 (if (gameQuery frame).2 ≠ [] ∨ gameListing = false then 0x01 else 0x00)
      else found.flatMap fun g => gameEntry (elapsed g) g

/-- The names whose keys have not been seen. -/
def dedupeNames (seen : Finset Key) : List (Key × Text) → List Text
  | [] => []
  | (key, name) :: rest =>
    if key ∈ seen then dedupeNames seen rest else name :: dedupeNames (insert key seen) rest

/-- `Node::channel_names`. -/
def channelNames (listed : List Text) (channels : List Channel) : List Text :=
  dedupeNames ∅ (listed.map (fun display => (normalizeChannelName display.asBytes, display)) ++
    channels.map fun c => (c.name, c.display))

/-- `Bncs::channel_list`. -/
def channelList (names : List Text) : Frame where
  id := Sid.getChannelList
  body := (names.flatMap fun name => Writer.cstr name.asBytes) ++ Writer.cstr []

/-- The key of the channel that `/who` is about. -/
def whoKey (key : Key) (arg : Text) : Key :=
  if arg.isEmpty then key else normalizeChannelName arg.asBytes

/-- `Node::channel_occupant_names`. -/
def channelOccupantNames (channels : Map Key Channel) (key : Key) : List Text :=
  ((channels.lookup key).map Channel.memberNames).getD []

/-- What `/who` is answered. -/
def whoText (names : List Text) : Text :=
  if names = [] then "No such channel, or it is empty.".toList
  else "Users in channel (".toList ++ Nat.toDigits 10 names.length ++ "): ".toList ++
    ", ".toList.intercalate names

def whoReply (names : List Text) : Frame := chatEvent .info 0 0 [] (whoText names).asBytes

/-! ## Requests -/

/-- A request for a list: of games, by a packet; of channels; of the users of the channel that the
session is in, or of one it names. -/
inductive ListRequest where
  | games (frame : Frame)
  | channels
  | who (key : Key) (arg : Text)

/-- What a session is, and what the node is set up to show: the product, whether games are listed,
and the names of the listed channels; and the orders in which the node walks its maps, and the age
of each game. -/
structure Asker where
  product : Option FourCc
  gameListing : Bool
  listed : List Text
  gameWalk : Map.Walk (List UInt8) GameAd
  channelWalk : Map.Walk Key Channel
  elapsed : GameAd → UInt32

/-- The games and the channels of a node. -/
structure Offers where
  games : GameDirectory
  world : World

namespace Offers

/-- The games that an asker gets to see. -/
def gamesFor (o : Offers) (a : Asker) (frame : Frame) : List GameAd :=
  Daemon.gamesFor a.gameListing a.product ((a.gameWalk.order o.games).map Sigma.snd) frame

def channelNames (o : Offers) (a : Asker) : List Text :=
  Daemon.channelNames a.listed ((a.channelWalk.order o.world.inner.channels).map Sigma.snd)

def occupantNames (o : Offers) (key : Key) (arg : Text) : List Text :=
  channelOccupantNames o.world.inner.channels (whoKey key arg)

/-- The frame that answers a request. -/
def reply (o : Offers) (a : Asker) : ListRequest → Frame
  | .games frame => gameList a.gameListing a.product a.elapsed
      ((a.gameWalk.order o.games).map Sigma.snd) frame
  | .channels => channelList (o.channelNames a)
  | .who key arg => whoReply (o.occupantNames key arg)

end Offers

/-- `Outbound::send_frame`, to a queue that has room. -/
def sendFrame (frame : Frame) : Bool :=
  match (Proto.Bncs.encodeFrame frame []).1 with
  | .ok _ => true
  | .error _ => false

/-- What a session is answered whose peer reads. -/
def roomy : (q : Request) → Reply q
  | .sendFrame frame => sendFrame frame
  | q => Server.inOrder Server.alice q

/-- The frame can be sent: its length fits, it is encoded, and the session goes on. -/
structure Sendable (s : Bncs) (frame : Frame) : Prop where
  short : Proto.Bncs.wireLen frame ≤ u16Max
  encodes : (Proto.Bncs.encodeFrame frame []).1 = .ok ()
  continues : ((s.send frame).eval fun _ => roomy).1 = .continue

theorem sendable_iff_short {s : Bncs} {frame : Frame} :
    Sendable s frame ↔ Proto.Bncs.wireLen frame ≤ u16Max := by
  constructor
  · intro h
    exact h.short
  · intro hshort
    have hencodes : (Proto.Bncs.encodeFrame frame []).1 = .ok () := by
      rw [Proto.Bncs.encodeFrame, putFrame, if_neg (by omega)]
    refine ⟨hshort, hencodes, ?_⟩
    have hsent : roomy (.sendFrame frame) = true := by
      show sendFrame frame = true
      rw [sendFrame, hencodes]
    show (if roomy (.sendFrame frame) = true then Step.continue else Step.close) = .continue
    rw [hsent]
    rfl

/-! ## How long the lists are -/

/-- The bytes that a string takes in a body but for its NUL. -/
def weight (v : List UInt8) : Nat := v.countP (· != 0)

theorem length_cstr (v : List UInt8) : (Writer.cstr v).length = weight v + 1 := by
  rw [Writer.cstr, List.length_append, weight, List.countP_eq_length_filter]
  rfl

theorem weight_append (v w : List UInt8) : weight (v ++ w) = weight v + weight w :=
  List.countP_append

theorem weight_le (v : List UInt8) : weight v ≤ v.length := List.countP_le_length

theorem weight_of_nonzero {v : List UInt8} (h : ∀ b ∈ v, b ≠ 0) : weight v = v.length :=
  List.countP_eq_length.mpr fun b hb => bne_iff_ne.mpr (h b hb)

def gameSize (g : GameAd) : Nat := 35 + weight g.name + weight g.password + weight g.statstring

def nameSize (name : Text) : Nat := weight name.asBytes

theorem nameSize_append (s t : Text) : nameSize (s ++ t) = nameSize s + nameSize t := by
  rw [nameSize, Text.asBytes, List.flatMap_append, weight_append]
  rfl

theorem length_gameEntry (elapsed : UInt32) (g : GameAd) :
    (gameEntry elapsed g).length = gameSize g := by
  have hip : (toBeBytes g.hostIp).length = 4 := rfl
  simp only [gameEntry, gameSize, List.length_append, List.length_reverse, length_cstr,
    Writer.length_u16, Writer.length_u32, hip]
  omega

theorem gameList_short_iff (gameListing : Bool) (product : Option FourCc)
    (elapsed : GameAd → UInt32) (games : List GameAd) (frame : Frame) :
    Proto.Bncs.wireLen (gameList gameListing product elapsed games frame) ≤ u16Max ↔
      ((gamesFor gameListing product games frame).map gameSize).sum ≤ 65527 := by
  have hsum (found : List GameAd) : (found.flatMap fun g => gameEntry (elapsed g) g).length =
      (found.map gameSize).sum := by
    rw [List.length_flatMap]
    congr 1
    exact List.map_congr_left fun g _ => length_gameEntry (elapsed g) g
  rw [Proto.Bncs.wireLen, gameList]
  dsimp only
  generalize gamesFor gameListing product games frame = found
  rw [List.length_append, Writer.length_u32, Proto.Bncs.headerLen, u16Max]
  by_cases hnone : found = []
  · subst hnone
    rw [if_pos rfl, Writer.length_u32]
    exact iff_of_true (by omega) (Nat.zero_le _)
  · rw [if_neg hnone, hsum]
    omega

theorem channelList_short_iff (names : List Text) :
    Proto.Bncs.wireLen (channelList names) ≤ u16Max ↔
      (names.map fun name => nameSize name + 1).sum ≤ 65530 := by
  have hsum : (names.flatMap fun name => Writer.cstr name.asBytes).length =
      (names.map fun name => nameSize name + 1).sum := by
    rw [List.length_flatMap]
    congr 1
    exact List.map_congr_left fun name _ => length_cstr name.asBytes
  have hend : (Writer.cstr []).length = 1 := rfl
  rw [Proto.Bncs.wireLen, channelList, List.length_append, hsum, hend, Proto.Bncs.headerLen, u16Max]
  omega

theorem nameSize_intercalate (separator : Text) (names : List Text) :
    nameSize (separator.intercalate names) =
      (names.map nameSize).sum + nameSize separator * (names.length - 1) := by
  induction names with
  | nil => rfl
  | cons name names ih =>
    cases names with
    | nil => simp [List.intercalate]
    | cons next names =>
      have hcons : separator.intercalate (name :: next :: names) =
          name ++ (separator ++ separator.intercalate (next :: names)) := by
        simp [List.intercalate]
      rw [hcons, nameSize_append, nameSize_append, ih]
      simp only [List.map_cons, List.sum_cons, List.length_cons, Nat.add_sub_cancel, Nat.mul_succ]
      omega

theorem nameSize_toDigits (n : Nat) :
    nameSize (Nat.toDigits 10 n) = (Nat.toDigits 10 n).length := by
  have hdigits : ∀ c ∈ Nat.toDigits 10 n, c.isDigit = true := fun c hc =>
    isDigit_of_mem_digits hc
  revert hdigits
  generalize Nat.toDigits 10 n = digits
  intro hdigits
  induction digits with
  | nil => rfl
  | cons c digits ih =>
    have hone : nameSize [c] = 1 := by
      have hdigit := hdigits c (List.mem_cons_self ..)
      rw [Char.isDigit, Bool.and_eq_true, decide_eq_true_iff, decide_eq_true_iff] at hdigit
      obtain ⟨hlow, hhigh⟩ : 48 ≤ c.val.toNat ∧ c.val.toNat ≤ 57 := hdigit
      have hbyte : Text.asBytes [c] = [.ofNat c.val.toNat] :=
        congrArg (· ++ []) (if_pos (by omega))
      have hne : UInt8.ofNat c.val.toNat ≠ 0 := by
        intro hzero
        have hmod := congrArg UInt8.toNat hzero
        rw [UInt8.toNat_ofNat', Nat.mod_eq_of_lt (by omega)] at hmod
        have hnone : c.val.toNat = 0 := hmod
        omega
      rw [nameSize, hbyte, weight, List.countP_singleton, if_pos (bne_iff_ne.mpr hne)]
    rw [← List.singleton_append, nameSize_append, hone, ih fun d hd =>
      hdigits d (List.mem_cons_of_mem c hd), List.length_append, List.length_singleton]

theorem whoReply_short_iff (names : List Text) : Proto.Bncs.wireLen (whoReply names) ≤ u16Max ↔
    (Nat.toDigits 10 names.length).length + (names.map nameSize).sum + 2 * (names.length - 1) ≤
      65484 := by
  have hwire : Proto.Bncs.wireLen (whoReply names) = 30 + nameSize (whoText names) := by
    have hnone : (Writer.cstr []).length = 1 := rfl
    simp only [Proto.Bncs.wireLen, whoReply, chatEvent, List.length_append, Writer.length_u32,
      hnone, length_cstr, Proto.Bncs.headerLen, nameSize]
    omega
  rw [hwire, u16Max]
  by_cases hnone : names = []
  · subst hnone
    exact iff_of_true (by decide) (by decide)
  · have hseparator : nameSize ", ".toList = 2 := by decide
    have hopen : nameSize "Users in channel (".toList = 18 := by decide
    have hclose : nameSize "): ".toList = 3 := by decide
    rw [whoText, if_neg hnone]
    simp only [nameSize_append, nameSize_intercalate, nameSize_toDigits, hseparator, hopen, hclose]
    omega

/-! ## What fits -/

namespace Offers

/-- The names and the strings to be listed are short enough together. -/
def Fits (o : Offers) (a : Asker) : ListRequest → Prop
  | .games frame => ((o.gamesFor a frame).map gameSize).sum ≤ 65527
  | .channels => ((o.channelNames a).map fun name => nameSize name + 1).sum ≤ 65530
  | .who key arg =>
    (Nat.toDigits 10 (o.occupantNames key arg).length).length +
      ((o.occupantNames key arg).map nameSize).sum + 2 * ((o.occupantNames key arg).length - 1) ≤
        65484

/-- What is short enough can be sent, and nothing else. -/
theorem sendable_reply {s : Bncs} {o : Offers} {a : Asker} (request : ListRequest) :
    Sendable s (o.reply a request) ↔ o.Fits a request := by
  rw [sendable_iff_short]
  cases request with
  | games frame => exact gameList_short_iff _ _ _ _ _
  | channels => exact channelList_short_iff _
  | who key arg => exact whoReply_short_iff _

end Offers

end CommandCenter.Daemon
