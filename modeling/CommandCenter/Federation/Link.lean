import CommandCenter.Federation.Frame
import CommandCenter.Library.BoundedReceive

/-!
# Federation link

`Link::recv` of `crates/bnetcc-federation/src/link.rs`. It decodes what is pending and reads on
when that is not a whole frame, 8192 bytes at most at a time. The cap on pending bytes is checked
before the read is appended, and so counts what the read brought of the frames behind the one
that is waited for.

* `recv_pulls`: `recv` is a receiver of `Library.Pulls`.
* `delivers_iff`: the messages all arrive just if no read reaches too far past a frame.
-/

namespace CommandCenter.Federation

open Rust Library

/-- What can end a connection. -/
inductive LinkError
  | closed
  | protocol (error : FrameError)

variable {Message : Type} (json : Json Message)

/-- Read the next message. The reads to come are listed; past them the stream has ended, which a
read of no bytes says. -/
def recv (pending : List UInt8) (reads : List (List UInt8)) :
    Except LinkError Message × List UInt8 × List (List UInt8) :=
  match decode json pending with
  | .error e => (.error (.protocol e), pending, reads)
  | .ok (some (message, used)) => (.ok message, pending.drop used, reads)
  | .ok none =>
    match reads with
    | [] => (.error .closed, pending, [])
    | chunk :: reads =>
      let n := chunk.length
      if n = 0 then (.error .closed, pending, reads)
      else if maxFrame + 4 < pending.length + n then
        (.error (.protocol (.tooLarge (pending.length + n))), pending, reads)
      else recv (pending ++ chunk) reads

/-- What `n` successive calls return on a new link. -/
def recvs (n : Nat) (reads : List (List UInt8)) : List (Except LinkError Message) :=
  results (recv json) n [] reads

theorem take_none {pending : List UInt8} {s : List UInt8} (h : take json pending = (.ok none, s)) :
    decode json pending = .ok none := by
  unfold take at h
  split at h
  · cases h
  · rename_i hdecode
    exact hdecode
  · cases h

theorem recv_pulls : Pulls id id (take json) (fun pending chunk => pending ++ chunk)
    (maxFrame + 4) .closed (recv json) where
  found pending message rest reads h := by
    unfold take at h
    split at h
    · cases h
    · cases h
    · rename_i hdecode
      cases h
      unfold recv
      simp only [hdecode]
  ended pending s h := by
    unfold recv
    simp only [take_none json h]
  read pending s chunk reads h hcap hne := by
    have hpos : chunk.length ≠ 0 := fun h => hne (List.length_eq_zero_iff.mp h)
    have hfits : ¬ maxFrame + 4 < pending.length + chunk.length := Nat.not_lt.mpr hcap
    conv_lhs => unfold recv
    simp only [take_none json h, if_neg hpos, if_neg hfits]
  refused pending s chunk reads h hcap := by
    have hover : maxFrame + 4 < pending.length + chunk.length := hcap
    unfold recv
    simp only [take_none json h, if_pos hover]
    split
    · exact ⟨_, rfl⟩
    · exact ⟨_, rfl⟩

/-! ## Legal streams -/

/-- The reads segment the messages as they go on the wire. -/
structure Segments (messages : List Message) (reads : List (List UInt8)) : Prop where
  legal : ∀ message ∈ messages, Legal json message
  size : ∀ chunk ∈ reads, 1 ≤ chunk.length ∧ chunk.length ≤ 8192
  stream : reads.flatten = messages.flatMap (encode json)

/-- The calls return the messages in order, and no error before the stream ends. -/
def Delivers (messages : List Message) (reads : List (List UInt8)) : Prop :=
  recvs json (messages.length + 1) reads = messages.map .ok ++ [.error .closed]

/-- Each read ends at most `maxFrame + 4` bytes behind some messages that had all arrived. -/
def WithinCap (messages : List Message) (reads : List (List UInt8)) : Prop :=
  ∀ before chunk after, reads = before ++ chunk :: after →
    ∃ done rest, messages = done ++ rest ∧
      (done.flatMap (encode json)).length ≤ before.flatten.length ∧
      before.flatten.length + chunk.length ≤
        (done.flatMap (encode json)).length + (maxFrame + 4)

/-- **A legal stream arrives just if no read reaches too far** past the frames before it. -/
theorem delivers_iff {messages : List Message} {reads : List (List UInt8)}
    (h : Segments json messages reads) :
    Delivers json messages reads ↔ WithinCap json messages reads := by
  have hne : ∀ chunk ∈ reads, id chunk ≠ [] :=
    fun chunk hchunk => List.ne_nil_of_length_pos (h.size chunk hchunk).1
  have hstream : id [] ++ reads.flatMap id = messages.flatMap (encode json) := by
    rw [List.flatMap_id]
    exact h.stream
  rw [Delivers, recvs, results_iff (decodes json) (recv_pulls json) (fun _ _ => rfl) h.legal hne
    hstream]
  simp only [Fits, WithinCap, List.flatMap_id, id, List.length_nil, Nat.zero_add]

/-- A stream no longer than a frame may be never reaches too far. -/
theorem withinCap_of_length {messages : List Message} {reads : List (List UInt8)}
    (h : reads.flatten.length ≤ maxFrame + 4) : WithinCap json messages reads := by
  intro before chunk after hreads
  refine ⟨[], messages, rfl, Nat.zero_le _, ?_⟩
  rw [hreads, List.flatten_append, List.flatten_cons, List.length_append,
    List.length_append] at h
  simp only [List.flatMap_nil, List.length_nil]
  omega

/-! ## Talk in a channel -/

/-- What stands before and after the text of something said in a channel. -/
def talkHead : List UInt8 :=
  Text.asBytes ("\x7b\"type\":\"channel_event\",\"channel\":\"Blizzard Tech Support\"," ++
    "\"account\":\"Zealot\",\"what\":\x7b\"what\":\"talk\",\"text\":\"").toList

def talkTail : List UInt8 := Text.asBytes "\"\x7d\x7d".toList

def talkBytes (n : Nat) : List UInt8 := talkHead ++ List.replicate n 120 ++ talkTail

theorem length_talkBytes (n : Nat) :
    (talkBytes n).length = talkHead.length + n + talkTail.length := by
  simp [talkBytes]
  omega

/-- The length of the text, if the bytes are `talkBytes`. -/
def talkLen (bytes : List UInt8) : Nat := bytes.length - (talkHead.length + talkTail.length)

theorem talkLen_talkBytes (n : Nat) : talkLen (talkBytes n) = n := by
  rw [talkLen, length_talkBytes]
  omega

/-- A text of `n` letters `x`, said by Zealot in one channel. -/
def talk : Json Nat where
  toVec := talkBytes
  fromSlice bytes :=
    if bytes = talkBytes (talkLen bytes) then .ok (talkLen bytes)
    else .error "expected value".toList
  fromSlice_toVec n := by rw [talkLen_talkBytes, if_pos rfl]

def talkReads : List (List UInt8) := [(encode talk 3).take 50, (encode talk 3).drop 50]

theorem delivers_talk : Delivers talk [3] talkReads := by
  have hsegments : Segments talk [3] talkReads :=
    ⟨by unfold Legal; decide +kernel, by decide +kernel, by decide +kernel⟩
  exact (delivers_iff talk hsegments).mpr (withinCap_of_length talk (by decide +kernel))

/-- A stream read in `k` reads of `size` bytes and one of the rest. -/
def fullReads (size : Nat) : Nat → List UInt8 → List (List UInt8)
  | 0, stream => [stream]
  | k + 1, stream => stream.take size :: fullReads size k (stream.drop size)

section FullReads

variable {size : Nat}

theorem flatten_fullReads (k : Nat) (stream : List UInt8) :
    (fullReads size k stream).flatten = stream := by
  induction k generalizing stream with
  | zero => simp [fullReads]
  | succ k ih => rw [fullReads, List.flatten_cons, ih, List.take_append_drop]

theorem size_fullReads (hsize : 1 ≤ size) {k : Nat} {stream : List UInt8}
    (h₁ : k * size < stream.length) (h₂ : stream.length ≤ (k + 1) * size) :
    ∀ chunk ∈ fullReads size k stream, 1 ≤ chunk.length ∧ chunk.length ≤ size := by
  induction k generalizing stream with
  | zero =>
    intro chunk hchunk
    obtain rfl := List.mem_singleton.mp hchunk
    omega
  | succ k ih =>
    intro chunk hchunk
    rw [Nat.succ_mul] at h₁ h₂
    rcases List.mem_cons.mp hchunk with rfl | hchunk
    · rw [List.length_take]
      omega
    · have hdrop : (stream.drop size).length = stream.length - size := List.length_drop
      exact ih (by omega) (by omega) chunk hchunk

theorem fullReads_last (k : Nat) (stream : List UInt8) :
    ∃ before, fullReads size k stream = before ++ [stream.drop (k * size)] ∧
      before.flatten = stream.take (k * size) := by
  induction k generalizing stream with
  | zero => exact ⟨[], by simp [fullReads], by simp⟩
  | succ k ih =>
    obtain ⟨before, hreads, hflatten⟩ := ih (stream.drop size)
    refine ⟨stream.take size :: before, ?_, ?_⟩
    · rw [fullReads, hreads, List.drop_drop, Nat.add_comm size, ← Nat.succ_mul]
      rfl
    · rw [List.flatten_cons, hflatten, Nat.succ_mul, Nat.add_comm (k * size), List.take_add]

end FullReads

/-- A text that fills its frame, and after it an empty one. -/
def fullTalk : List Nat := [maxFrame - (talkHead.length + talkTail.length), 0]

/-- The link reads 8192 bytes whenever it can. -/
def fullTalkReads : List (List UInt8) := fullReads 8192 128 (fullTalk.flatMap (encode talk))

theorem length_encode_talk (n : Nat) :
    (encode talk n).length = 4 + (talkHead.length + talkTail.length + n) := by
  have hbody : (talk.toVec n).length = talkHead.length + n + talkTail.length :=
    length_talkBytes n
  rw [length_encode, hbody]
  omega

theorem fullTalk_not_delivered :
    Segments talk fullTalk fullTalkReads ∧ ¬ Delivers talk fullTalk fullTalkReads := by
  have hoverhead : talkHead.length + talkTail.length = 110 := by decide +kernel
  have hmax : maxFrame = 128 * 8192 := rfl
  have hlen := length_encode_talk
  rw [hoverhead] at hlen
  have hstream : (fullTalk.flatMap (encode talk)).length = 4 + maxFrame + (4 + 110) := by
    rw [fullTalk, hoverhead]
    simp only [List.flatMap_cons, List.flatMap_nil, List.length_append, List.length_nil, hlen]
    omega
  have hsegments : Segments talk fullTalk fullTalkReads := by
    refine ⟨?_, ?_, flatten_fullReads _ _⟩
    · intro message hmessage
      rw [fullTalk, List.mem_pair, hoverhead] at hmessage
      have hle : (encode talk message).length ≤ 4 + maxFrame := by
        rw [hlen]
        omega
      rw [length_encode] at hle
      exact Nat.le_of_add_le_add_left hle
    · have hlong : 128 * 8192 < (fullTalk.flatMap (encode talk)).length := by
        rw [hstream]
        omega
      have hshort : (fullTalk.flatMap (encode talk)).length ≤ (128 + 1) * 8192 := by
        rw [hstream]
        omega
      exact size_fullReads (Nat.succ_pos 8191) hlong hshort
  refine ⟨hsegments, ?_⟩
  rw [delivers_iff talk hsegments]
  intro hcap
  -- The last read ends the first frame and brings the second.
  obtain ⟨before, hreads, hbefore⟩ := fullReads_last 128 (fullTalk.flatMap (encode talk))
  obtain ⟨done, rest, hsplit, hwhole, hfits⟩ := hcap before _ [] hreads
  have hread : before.flatten.length = 128 * 8192 := by
    rw [hbefore, List.length_take, hstream]
    omega
  rw [hread] at hwhole hfits
  rw [List.length_drop, hstream] at hfits
  cases done with
  | nil =>
    simp only [List.flatMap_nil, List.length_nil] at hfits
    omega
  | cons message done =>
    obtain ⟨rfl, _⟩ := List.cons.inj hsplit
    rw [List.flatMap_cons, List.length_append, hlen, hoverhead] at hwhole
    omega

end CommandCenter.Federation
