import CommandCenter.Federation.Frame

/-!
# Messages of the game-server link

`read_message` and `write_message` of `crates/bnetcc-gslink/src/lib.rs`: a little-endian length, then
that many bytes of JSON. The other side's bytes come to an end, wherever it was cut.

* `reads_spec`: what is read of a stream that ends anywhere.
* `tells_end_iff`: a stream that ends within a length is taken for one that was closed between two
  messages, and no other is.
-/

namespace CommandCenter.GsLink

open Rust Federation

/-- Largest message either side accepts. -/
def MAX_MESSAGE : Nat := 16 * 1024 * 1024

inductive IoError where
  | unexpectedEof
  | invalidData (text : Text)
deriving DecidableEq

/-! ## Reading and writing -/

section Link

variable {Message : Type} (json : Json Message)

/-- `AsyncReadExt::read_exact`, of a stream that ends: what is left of it is used up where it is too
short. -/
def read_exact (count : Nat) (stream : List UInt8) : Except IoError (List UInt8) × List UInt8 :=
  if count ≤ stream.length then (.ok (stream.take count), stream.drop count)
  else (.error .unexpectedEof, [])

def read_message (stream : List UInt8) : Except IoError (Option Message) × List UInt8 :=
  match read_exact 4 stream with
  | (.error .unexpectedEof, stream) => (.ok none, stream)
  | (.error e, stream) => (.error e, stream)
  | (.ok len, stream) =>
    if MAX_MESSAGE < leValue len then
      (.error (.invalidData ("link message of ".toList ++ Nat.toDigits 10 (leValue len) ++
        " bytes".toList)), stream)
    else
      match read_exact (leValue len) stream with
      | (.error e, stream) => (.error e, stream)
      | (.ok body, stream) =>
        match json.fromSlice body with
        | .ok message => (.ok (some message), stream)
        | .error e => (.error (.invalidData e), stream)

/-- A message as it goes on the wire. -/
def frame (message : Message) : List UInt8 :=
  leBytes 4 (json.toVec message).length ++ json.toVec message

def write_message (message : Message) : Except IoError (List UInt8) :=
  if MAX_MESSAGE < (json.toVec message).length then
    .error (.invalidData "link message too large".toList)
  else .ok (frame json message)

/-- Messages written one after another. -/
def write_messages : List Message → Except IoError (List UInt8)
  | [] => .ok []
  | message :: messages => do
    let bytes ← write_message json message
    let more ← write_messages messages
    return bytes ++ more

/-- What so many calls read, one after another. -/
def reads : (calls : Nat) → List UInt8 → List (Except IoError (Option Message))
  | 0, _ => []
  | calls + 1, stream => (read_message json stream).1 :: reads calls (read_message json stream).2

/-! ## Where a stream ends -/

/-- The messages whose frames lie wholly in so many bytes. -/
def whole : List Message → Nat → List Message
  | [], _ => []
  | message :: messages, count =>
    if (frame json message).length ≤ count then
      message :: whole messages (count - (frame json message).length)
    else []

/-- How many of so many bytes are behind the last whole frame. -/
def beyond : List Message → Nat → Nat
  | [], count => count
  | message :: messages, count =>
    if (frame json message).length ≤ count then beyond messages (count - (frame json message).length)
    else count

/-- A stream gives the messages that it holds, then its end where it ends between two frames, and an
error elsewhere. -/
def TellsEnd (messages : List Message) (stream : List UInt8) : Prop :=
  ∃ last, reads json ((whole json messages stream.length).length + 1) stream =
    (whole json messages stream.length).map (fun message => .ok (some message)) ++ [last] ∧
      if beyond json messages stream.length = 0 then last = .ok none else ∃ e, last = .error e

/-- The last frame that has begun has one, two or three bytes of its length. -/
def CutInLength (messages : List Message) (stream : List UInt8) : Prop :=
  0 < beyond json messages stream.length ∧ beyond json messages stream.length < 4

variable {json}

theorem length_frame (message : Message) :
    (frame json message).length = 4 + (json.toVec message).length := by
  rw [frame, List.length_append, length_leBytes]

theorem read_exact_append {count : Nat} {part rest : List UInt8} (h : part.length = count) :
    read_exact count (part ++ rest) = (.ok part, rest) := by
  have hroom : count ≤ (part ++ rest).length := by
    rw [List.length_append]
    omega
  rw [read_exact, if_pos hroom, ← h, List.take_left, List.drop_left]

theorem read_exact_short {count : Nat} {stream : List UInt8} (h : stream.length < count) :
    read_exact count stream = (.error .unexpectedEof, []) := if_neg (Nat.not_le.mpr h)

theorem read_length {message : Message} (h : (json.toVec message).length ≤ MAX_MESSAGE)
    (rest : List UInt8) :
    read_message json (leBytes 4 (json.toVec message).length ++ rest) =
      match read_exact (json.toVec message).length rest with
      | (.error e, stream) => (.error e, stream)
      | (.ok body, stream) =>
        match json.fromSlice body with
        | .ok message => (.ok (some message), stream)
        | .error e => (.error (.invalidData e), stream) := by
  have hfits : (json.toVec message).length < 256 ^ 4 := by
    unfold MAX_MESSAGE at h
    omega
  unfold read_message
  rw [read_exact_append (length_leBytes 4 _)]
  dsimp only
  rw [leValue_leBytes hfits, if_neg (Nat.not_lt.mpr h)]

theorem read_whole {message : Message} (h : (json.toVec message).length ≤ MAX_MESSAGE)
    (rest : List UInt8) : read_message json (frame json message ++ rest) = (.ok (some message), rest) := by
  rw [frame, List.append_assoc, read_length h, read_exact_append rfl]
  dsimp only
  rw [json.fromSlice_toVec]

theorem read_no_length {stream : List UInt8} (h : stream.length < 4) :
    read_message json stream = (.ok none, []) := by
  unfold read_message
  rw [read_exact_short h]

/-- A stream that ends before it has told a message. -/
theorem read_no_body {message : Message} (h : (json.toVec message).length ≤ MAX_MESSAGE)
    {stream : List UInt8} (hlen : 4 ≤ stream.length)
    (hbegins : stream <+: frame json message) (hshort : stream.length < (frame json message).length) :
    read_message json stream = (.error .unexpectedEof, []) := by
  obtain ⟨part, hpart⟩ : ∃ part, stream = leBytes 4 (json.toVec message).length ++ part := by
    have hlength : leBytes 4 (json.toVec message).length <+: stream := by
      refine List.prefix_of_prefix_length_le (List.prefix_append _ _) hbegins ?_
      rw [length_leBytes]
      exact hlen
    obtain ⟨part, hpart⟩ := hlength
    exact ⟨part, hpart.symm⟩
  have hless : part.length < (json.toVec message).length := by
    rw [hpart, length_frame, List.length_append, length_leBytes] at hshort
    omega
  rw [hpart, read_length h, read_exact_short hless]

theorem write_message_ok {message : Message} {bytes : List UInt8}
    (h : write_message json message = .ok bytes) :
    (json.toVec message).length ≤ MAX_MESSAGE ∧ bytes = frame json message := by
  unfold write_message at h
  split at h
  · cases h
  · rename_i hfits
    exact ⟨Nat.not_lt.mp hfits, (Except.ok.inj h).symm⟩

theorem write_messages_cons {message : Message} {messages : List Message} {wire : List UInt8}
    (h : write_messages json (message :: messages) = .ok wire) :
    (json.toVec message).length ≤ MAX_MESSAGE ∧
      ∃ more, write_messages json messages = .ok more ∧ wire = frame json message ++ more := by
  unfold write_messages at h
  cases hfirst : write_message json message with
  | error e =>
    rw [hfirst] at h
    cases h
  | ok bytes =>
    obtain ⟨hfits, rfl⟩ := write_message_ok hfirst
    rw [hfirst] at h
    cases hrest : write_messages json messages with
    | error e =>
      rw [hrest] at h
      cases h
    | ok more =>
      rw [hrest] at h
      exact ⟨hfits, more, rfl, (Except.ok.inj h).symm⟩

/-- What the last call reads, with so many bytes behind the last whole frame. -/
def ending (count : Nat) : Except IoError (Option Message) :=
  if count < 4 then .ok none else .error .unexpectedEof

/-- What is read of a stream that ends anywhere. -/
theorem reads_spec {messages : List Message} {wire stream : List UInt8}
    (hwire : write_messages json messages = .ok wire) (hstream : stream <+: wire) :
    reads json ((whole json messages stream.length).length + 1) stream =
      (whole json messages stream.length).map (fun message => .ok (some message)) ++
        [ending (beyond json messages stream.length)] := by
  induction messages generalizing wire stream with
  | nil =>
    obtain rfl := Except.ok.inj hwire
    obtain rfl := List.prefix_nil.mp hstream
    rfl
  | cons message messages ih =>
    obtain ⟨hfits, more, hmore, rfl⟩ := write_messages_cons hwire
    unfold whole beyond
    by_cases hwhole : (frame json message).length ≤ stream.length
    · -- the frame is there, and the rest of the stream is cut from the other frames
      obtain ⟨rest, rfl⟩ := List.prefix_of_prefix_length_le (List.prefix_append _ more) hstream hwhole
      have hrest : rest <+: more := (List.prefix_append_right_inj _).mp hstream
      rw [if_pos hwhole, if_pos hwhole, List.length_append, Nat.add_sub_cancel_left,
        List.length_cons, reads, read_whole hfits]
      dsimp only
      rw [ih hmore hrest]
      rfl
    · have hshort := Nat.lt_of_not_le hwhole
      have hpart : stream <+: frame json message :=
        List.prefix_of_prefix_length_le hstream (List.prefix_append _ more) (Nat.le_of_lt hshort)
      rw [if_neg hwhole, if_neg hwhole]
      show [(read_message json stream).1] = [ending stream.length]
      by_cases hlength : stream.length < 4
      · rw [read_no_length hlength, ending, if_pos hlength]
      · rw [read_no_body hfits (Nat.not_lt.mp hlength) hpart hshort, ending, if_neg hlength]

/-- The end of a stream is told for what it is but where it cuts a length. -/
theorem tells_end_iff {messages : List Message} {wire stream : List UInt8}
    (hwire : write_messages json messages = .ok wire) (hstream : stream <+: wire) :
    TellsEnd json messages stream ↔ ¬ CutInLength json messages stream := by
  have hspec := reads_spec hwire hstream
  unfold TellsEnd CutInLength
  generalize beyond json messages stream.length = count at *
  rw [hspec]
  constructor
  · rintro ⟨last, hreads, hlast⟩ ⟨hpos, hshort⟩
    obtain rfl := (List.cons.inj (List.append_cancel_left hreads)).1
    rw [if_neg (Nat.ne_of_gt hpos), ending, if_pos hshort] at hlast
    obtain ⟨e, he⟩ := hlast
    cases he
  · intro hcut
    refine ⟨_, rfl, ?_⟩
    by_cases hzero : count = 0
    · rw [if_pos hzero, hzero]
      rfl
    · rw [if_neg hzero, ending, if_neg (by omega)]
      exact ⟨_, rfl⟩

end Link

/-! ## A greeting that is cut -/

def welcomeBody : List UInt8 :=
  [0x7B, 0x22, 0x74, 0x79, 0x70, 0x65, 0x22, 0x3A, 0x22, 0x57, 0x65, 0x6C, 0x63, 0x6F, 0x6D, 0x65,
    0x22, 0x7D]

/-- JSON of the one message `Welcome`. -/
def welcome : Json Unit where
  toVec _ := welcomeBody
  fromSlice bytes := if bytes = welcomeBody then .ok () else .error "expected value".toList
  fromSlice_toVec _ := if_pos rfl

theorem write_welcome : write_messages welcome [(), ()] =
    .ok (frame welcome () ++ frame welcome ()) := by
  rfl

/-- Of two greetings the second is cut in its body. -/
theorem tells_end_iff_welcome : write_messages welcome [(), ()] =
    .ok (frame welcome () ++ frame welcome ()) ∧
      TellsEnd welcome [(), ()] (frame welcome () ++ [18, 0, 0, 0, 0x7B]) :=
  ⟨write_welcome, (tells_end_iff write_welcome ⟨welcomeBody.tail, by decide⟩).mpr (by
    unfold CutInLength
    decide)⟩

/-- A stream that ends within the second length is read as one that was closed after the first
message. -/
theorem cut_in_length_not_told : ¬ ∀ (messages : List Unit) (wire stream : List UInt8),
    write_messages welcome messages = .ok wire → stream <+: wire →
      TellsEnd welcome messages stream := by
  intro h
  obtain ⟨last, hreads, hlast⟩ := h [(), ()] _ (frame welcome () ++ [18, 0]) write_welcome
    ⟨[0, 0] ++ welcomeBody, by decide⟩
  have hread : reads welcome 2 (frame welcome () ++ [18, 0]) = [.ok (some ()), .ok none] := by
    rfl
  have hbeyond : beyond welcome [(), ()] (frame welcome () ++ [18, 0]).length = 2 := by decide
  have hwhole : whole welcome [(), ()] (frame welcome () ++ [18, 0]).length = [()] := by decide
  rw [hwhole] at hreads
  rw [hbeyond, if_neg (by decide)] at hlast
  obtain ⟨e, rfl⟩ := hlast
  cases (hread.symm.trans hreads)

end CommandCenter.GsLink
