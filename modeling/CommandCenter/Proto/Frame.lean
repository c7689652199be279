import CommandCenter.Rust.Text
import CommandCenter.Library.Framing
import CommandCenter.Proto.RecvBuf
import CommandCenter.Rust.Num

/-!
# Frames with a length field

What `bncs::decode_frame` and `mcp::decode_frame` of `crates/bnetcc-proto/src` share: a frame is
an id and a body behind a header of fixed size, and the length field counts the header. The two
headers are in `Bncs` and `Mcp`.

* `takeFrame_whole`, `takeFrame_part`: with a legal length the frame is taken once it is all there.
* `decodes_of_header`: a decoder that reads the header and takes the frame decodes the encoding.
-/

/-!
## Protocol errors and four-character codes

`crates/bnetcc-proto/src/error.rs`. A `usize` is a natural number.
-/

namespace CommandCenter.Proto

open Rust

inductive ProtoError where
  | badMagic (byte : UInt8)
  | shortFrame (len header : Nat)
  | frameTooLarge (len max : Nat)
  | truncated (needed available : Nat)
  | unterminatedString
  | stringTooLong (len limit : Nat)
  | lineTooLong (max : Nat)
  | unexpectedPacket (id : UInt8) (state : Text)
  | invalidValue (field value : Text)
  deriving DecidableEq

/-- A four-character code, stored as the value in human reading order. -/
structure FourCc where
  value : UInt32
  deriving DecidableEq

open Library

/-- One decoded message: an identifier and its body, header stripped. -/
structure Frame where
  id : UInt8
  body : List UInt8
  deriving DecidableEq

/-- The outcome of decoding: a frame, or nothing yet, or an error that ends the connection. -/
abbrev Decoded := Except ProtoError (Option Frame) × RecvBuf

/-- Decode a frame whose header said `id` and `len`. -/
def takeFrame (headerLen : Nat) (src : RecvBuf) (maxFrame : Nat) (id : UInt8) (len : Nat) :
    Decoded :=
  if len < headerLen then (.error (.shortFrame len headerLen), src)
  else if maxFrame < len then (.error (.frameTooLarge len maxFrame), src)
  else if src.len < len then (.ok none, src)
  else (.ok (some ⟨id, (src.asSlice.take len).drop headerLen⟩), src.consume len)

/-- The length field's ceiling. -/
def u16Max : Nat := 65535

theorem read_len {len : Nat} (h : len ≤ u16Max) :
    (fromLeBytes (.ofNat (UInt16.ofNat len).toNat)
      (.ofNat ((UInt16.ofNat len).toNat / 256))).toNat = len := by
  rw [fromLeBytes_toLeBytes, UInt16.toNat_ofNat']
  exact Nat.mod_eq_of_lt (Nat.lt_succ_of_le h)

/-- Append `header` and the body to `dst`, if the whole fits the length field. -/
def putFrame (len : Nat) (header body : List UInt8) (dst : List UInt8) :
    Except ProtoError Unit × List UInt8 :=
  if u16Max < len then (.error (.frameTooLarge len u16Max), dst)
  else (.ok (), dst ++ (header ++ body))

section TakeFrame

variable {headerLen maxFrame : Nat} {src : RecvBuf} {id : UInt8}

theorem takeFrame_whole {header body rest : List UInt8} (hheader : header.length = headerLen)
    (hmax : headerLen + body.length ≤ maxFrame) (hsrc : src.asSlice = header ++ body ++ rest) :
    ∃ src', takeFrame headerLen src maxFrame id (headerLen + body.length) =
      (.ok (some ⟨id, body⟩), src') ∧ src'.asSlice = rest := by
  have hwire : (header ++ body).length = headerLen + body.length := by
    rw [List.length_append, hheader]
  have hlen : headerLen + body.length ≤ src.len := by
    rw [← src.length_asSlice, hsrc, List.length_append, hwire]
    exact Nat.le_add_right _ _
  have hbody : (src.asSlice.take (headerLen + body.length)).drop headerLen = body := by
    rw [hsrc, ← hwire, List.take_left, ← hheader, List.drop_left]
  refine ⟨src.consume (headerLen + body.length), ?_, ?_⟩
  · rw [takeFrame, if_neg (by omega), if_neg (by omega), if_neg (by omega), hbody]
  · rw [RecvBuf.asSlice_consume, hsrc, ← hwire, List.drop_left]

theorem takeFrame_part {len : Nat} (hheader : headerLen ≤ len) (hmax : len ≤ maxFrame)
    (hpart : src.asSlice.length < len) :
    takeFrame headerLen src maxFrame id len = (.ok none, src) := by
  rw [RecvBuf.length_asSlice] at hpart
  rw [takeFrame, if_neg (by omega), if_neg (by omega), if_pos hpart]

/-- What is left to a protocol is to read its header. -/
theorem decodes_of_header {decode : RecvBuf → Decoded} {header : Frame → List UInt8}
    (hlen : ∀ f, (header f).length = headerLen) (hpos : 0 < headerLen)
    (hshort : ∀ src, src.asSlice.length < headerLen → decode src = (.ok none, src))
    (hheader : ∀ src f rest, headerLen + f.body.length ≤ u16Max →
      src.asSlice = header f ++ rest →
      decode src = takeFrame headerLen src maxFrame f.id (headerLen + f.body.length)) :
    Decodes RecvBuf.asSlice decode (fun f => header f ++ f.body)
      (fun f => headerLen + f.body.length ≤ u16Max ∧ headerLen + f.body.length ≤ maxFrame) where
  nonempty f _ := by
    apply List.ne_nil_of_length_pos
    rw [List.length_append, hlen]
    omega
  whole src f rest hf hsrc := by
    rw [hheader src f (f.body ++ rest) hf.1 (by rw [hsrc, List.append_assoc])]
    exact takeFrame_whole (hlen f) hf.2 hsrc
  part src f rest hf hne hpart := by
    have hlt : src.asSlice.length < headerLen + f.body.length := by
      have hwire := congrArg List.length hpart
      have hrest := List.length_pos_of_ne_nil hne
      rw [List.length_append, List.length_append, hlen] at hwire
      omega
    by_cases hwhole : src.asSlice.length < headerLen
    · exact hshort src hwhole
    · have hprefix : header f <+: src.asSlice := by
        refine List.prefix_of_prefix_length_le (List.prefix_append (header f) f.body)
          ⟨rest, hpart⟩ ?_
        rw [hlen]
        omega
      obtain ⟨body, hbody⟩ := hprefix
      rw [hheader src f body hf.1 hbody.symm]
      exact takeFrame_part (Nat.le_add_right _ _) hf.2 hlt
  empty src hsrc := hshort src (by rw [hsrc]; exact hpos)

end TakeFrame

end CommandCenter.Proto
