import CommandCenter.Federation.Link

/-!
# The size limit of a federation frame

`decode` of `crates/bnetcc-federation/src/frame.rs` turns away a frame of more than `maxFrame`
bytes, and `encode` writes one whatever its size.

* `decode_over`: a message over the limit is turned away.
* `decode_encode_iff`: a message is read back just if it is within the limit.
-/

namespace CommandCenter.Federation

open Rust Library

section Limit

variable {Message : Type} (json : Json Message)

/-- The length written for a message over the limit is over it too, also where the length itself
does not fit. -/
theorem maxFrame_lt_len {message : Message} (h : ¬ Legal json message) :
    maxFrame < (u32OrMax (json.toVec message).length).toNat := by
  unfold Legal at h
  unfold u32OrMax
  split
  · rename_i hlt
    rw [UInt32.toNat_ofNat_of_lt' hlt]
    omega
  · decide

theorem decode_over {message : Message} (h : ¬ Legal json message) (rest : List UInt8) :
    decode json (encode json message ++ rest) =
      .error (.tooLarge (u32OrMax (json.toVec message).length).toNat) := by
  rw [encode, List.append_assoc, decode_toBeBytes, if_pos (maxFrame_lt_len json h)]

/-- **A message is read back, whatever follows it, just if its JSON is at most `maxFrame`
bytes.** -/
theorem decode_encode_iff (message : Message) (rest : List UInt8) :
    decode json (encode json message ++ rest) =
      .ok (some (message, (encode json message).length)) ↔
    (json.toVec message).length ≤ maxFrame := by
  constructor
  · intro h
    by_contra hover
    rw [decode_over json hover rest] at h
    cases h
  · intro h
    exact decode_whole json h rest

end Limit

/-- A text of three letters, before another message. -/
theorem decode_encode_talk :
    decode talk (encode talk 3 ++ encode talk 5) = .ok (some (3, (encode talk 3).length)) :=
  (decode_encode_iff talk 3 (encode talk 5)).mpr (by decide +kernel)

/-- A text of one letter too many. -/
def overlong : Nat := maxFrame + 1 - (talkHead.length + talkTail.length)

theorem overlong_not_decoded :
    (talk.toVec overlong).length = maxFrame + 1 ∧
      decode talk (encode talk overlong) = .error (.tooLarge (maxFrame + 1)) := by
  have hlen : (talk.toVec overlong).length = maxFrame + 1 := by
    have hoverhead : talkHead.length + talkTail.length = 110 := by decide +kernel
    have hbody : (talk.toVec overlong).length = talkHead.length + overlong + talkTail.length :=
      length_talkBytes overlong
    have hmax : maxFrame = 128 * 8192 := rfl
    have hoverlong : overlong = maxFrame + 1 - 110 := congrArg (maxFrame + 1 - ·) hoverhead
    omega
  have hover : ¬ Legal talk overlong := by
    unfold Legal
    omega
  have hdecode := decode_over talk hover []
  rw [List.append_nil, toNat_u32OrMax (by rw [hlen]; decide), hlen] at hdecode
  exact ⟨hlen, hdecode⟩

end CommandCenter.Federation
