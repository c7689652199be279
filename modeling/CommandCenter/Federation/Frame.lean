import CommandCenter.Library.Framing
import CommandCenter.Rust.Num
import CommandCenter.Rust.Text

/-!
# Federation frames

`crates/bnetcc-federation/src/frame.rs`: a four-byte big-endian length, then that many bytes of
JSON. The JSON comes from another crate. `Json` holds what the link relies on: that a message is
read back from what it was written as.

* `decodes`: `decode` takes the messages off what `encode` wrote.
-/

namespace CommandCenter.Federation

open Rust Library

/-- `serde_json::to_vec` and `serde_json::from_slice` on the message set. -/
structure Json (Message : Type) where
  toVec : Message → List UInt8
  fromSlice : List UInt8 → Except Text Message
  fromSlice_toVec : ∀ message, fromSlice (toVec message) = .ok message

/-- The largest message sent or accepted. -/
def maxFrame : Nat := 2 ^ 20

/-- What can go wrong reading a frame. -/
inductive FrameError
  | tooLarge (len : Nat)
  | malformed (error : Text)

variable {Message : Type} (json : Json Message)

/-- A message as it goes on the wire, length and all. -/
def encode (message : Message) : List UInt8 :=
  let body := json.toVec message
  toBeBytes (u32OrMax body.length) ++ body

/-- Take one message off the front, if a whole one has arrived, with the bytes it used. -/
def decode (buf : List UInt8) : Except FrameError (Option (Message × Nat)) :=
  match buf with
  | a :: b :: c :: d :: rest =>
    let len := (fromBeBytes a b c d).toNat
    if maxFrame < len then .error (.tooLarge len)
    else if rest.length < len then .ok none
    else
      match json.fromSlice (rest.take len) with
      | .error e => .error (.malformed e)
      | .ok message => .ok (some (message, 4 + len))
  | _ => .ok none

def Legal (message : Message) : Prop := (json.toVec message).length ≤ maxFrame

theorem length_encode (message : Message) :
    (encode json message).length = 4 + (json.toVec message).length := by
  rw [encode, List.length_append]
  rfl

theorem decode_toBeBytes (len : UInt32) (rest : List UInt8) :
    decode json (toBeBytes len ++ rest) =
      if maxFrame < len.toNat then .error (.tooLarge len.toNat)
      else if rest.length < len.toNat then .ok none
      else
        match json.fromSlice (rest.take len.toNat) with
        | .error e => .error (.malformed e)
        | .ok read => .ok (some (read, 4 + len.toNat)) := by
  simp only [toBeBytes, List.cons_append, List.nil_append, decode, fromBeBytes_toBeBytes]

theorem toNat_len {message : Message} (h : Legal json message) :
    (u32OrMax (json.toVec message).length).toNat = (json.toVec message).length := by
  apply toNat_u32OrMax
  unfold Legal maxFrame at h
  omega

theorem decode_whole {message : Message} (h : Legal json message) (rest : List UInt8) :
    decode json (encode json message ++ rest) =
      .ok (some (message, (encode json message).length)) := by
  have henough : ¬ (json.toVec message ++ rest).length < (json.toVec message).length := by
    rw [List.length_append]
    omega
  rw [length_encode, encode, List.append_assoc, decode_toBeBytes, toNat_len json h,
    if_neg (Nat.not_lt.mpr h), if_neg henough, List.take_left, json.fromSlice_toVec]

theorem decode_part {message : Message} (h : Legal json message) {buf rest : List UInt8}
    (hne : rest ≠ []) (hpart : buf ++ rest = encode json message) :
    decode json buf = .ok none := by
  have hlt : buf.length < 4 + (json.toVec message).length := by
    have hlen := congrArg List.length hpart
    have hrest := List.length_pos_of_ne_nil hne
    rw [List.length_append, length_encode] at hlen
    omega
  match buf, hlt, hpart with
  | [], _, _ | [_], _, _ | [_, _], _, _ | [_, _, _], _, _ => rfl
  | a :: b :: c :: d :: body, hlt, hpart =>
    have hsplit : ([a, b, c, d] ++ body) ++ rest = encode json message := hpart
    rw [encode, List.append_assoc] at hsplit
    have hheader : [a, b, c, d] = toBeBytes (u32OrMax (json.toVec message).length) :=
      (List.append_inj hsplit rfl).1
    have hbuf : a :: b :: c :: d :: body = [a, b, c, d] ++ body := rfl
    simp only [List.length_cons] at hlt
    rw [hbuf, hheader, decode_toBeBytes, toNat_len json h, if_neg (Nat.not_lt.mpr h),
      if_pos (by omega)]

/-- Take one message off the front, and drop the bytes it used. -/
def take (buf : List UInt8) : Except FrameError (Option Message) × List UInt8 :=
  match decode json buf with
  | .error e => (.error e, buf)
  | .ok none => (.ok none, buf)
  | .ok (some (message, used)) => (.ok (some message), buf.drop used)

theorem decodes : Decodes id (take json) (encode json) (Legal json) where
  nonempty message _ := by
    apply List.ne_nil_of_length_pos
    rw [length_encode]
    omega
  whole buf message rest h hbuf := by
    obtain rfl : buf = encode json message ++ rest := hbuf
    refine ⟨rest, ?_, rfl⟩
    rw [take, decode_whole json h]
    simp only [List.drop_left]
  part buf message rest h hne hpart := by
    have hnone : decode json buf = .ok none := decode_part json h hne hpart
    rw [take, hnone]
  empty buf hbuf := by
    obtain rfl : buf = [] := hbuf
    rfl

end CommandCenter.Federation
