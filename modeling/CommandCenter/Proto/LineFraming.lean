import CommandCenter.Proto.Segmentation

/-!
# Line framing of the chat gateway

`decode_line` of `crates/bnetcc-proto/src/line.rs`: a line ends with LF or CR LF. A line of more
than `max_line` bytes is an error, whether its end has come or not.

* `decodeLine_stable`: more bytes do not change what was decided.
* `decodeLine_line`, `decodeLine_error`: what is returned, and what is left after an error.
* `lines_survive_segmentation`: the lines do not depend on how the bytes come.
-/

namespace CommandCenter.Proto

open Library

def lf : UInt8 := 0x0A

def cr : UInt8 := 0x0D

/-- Decode one CRLF- or LF-terminated line. -/
def decodeLine (src : RecvBuf) (maxLine : Nat) :
    Except ProtoError (Option (List UInt8)) × RecvBuf :=
  let buf := src.asSlice
  match buf.findIdx? fun b => b == lf with
  | some idx =>
    if maxLine < idx then (.error (.lineTooLong maxLine), src.clear)
    else
      let stop := if 0 < idx ∧ buf[idx - 1]? = some cr then idx - 1 else idx
      (.ok (some (buf.take stop)), src.consume (idx + 1))
  | none =>
    if maxLine < buf.length then (.error (.lineTooLong maxLine), src.clear)
    else (.ok none, src)

/-! ## What a call does -/

variable {maxLine : Nat} {b b' : RecvBuf}

/-- Where a line ends: its bytes, without a CR before the LF, and the position of the LF. -/
theorem decodeLine_line {line : List UInt8} (h : decodeLine b maxLine = (.ok (some line), b')) :
    ∃ idx, b.asSlice.findIdx? (fun b => b == lf) = some idx ∧ idx ≤ maxLine ∧
      line = b.asSlice.take
        (if 0 < idx ∧ b.asSlice[idx - 1]? = some cr then idx - 1 else idx) ∧
      b' = b.consume (idx + 1) := by
  unfold decodeLine at h
  dsimp only at h
  split at h
  · rename_i idx hidx
    split at h
    · cases h
    · rename_i hle
      obtain ⟨hline, rfl⟩ := Prod.mk.inj h
      exact ⟨idx, hidx, Nat.not_lt.mp hle, (Option.some.inj (Except.ok.inj hline)).symm, rfl⟩
  · split at h <;> cases h

/-- An error empties the buffer. -/
theorem decodeLine_error {e : ProtoError} (h : decodeLine b maxLine = (.error e, b')) :
    e = .lineTooLong maxLine ∧ b' = b.clear := by
  unfold decodeLine at h
  dsimp only at h
  split at h
  · split at h
    · cases h
      exact ⟨rfl, rfl⟩
    · cases h
  · split at h
    · cases h
      exact ⟨rfl, rfl⟩
    · cases h

/-- The call asks for more, and leaves the buffer, if no line ends yet and there is room. -/
theorem decodeLine_wait : decodeLine b maxLine = (.ok none, b') ↔
    b' = b ∧ b.asSlice.findIdx? (fun b => b == lf) = none ∧ b.asSlice.length ≤ maxLine := by
  unfold decodeLine
  dsimp only
  split
  · rename_i idx hidx
    rw [hidx]
    split <;> simp
  · rename_i hidx
    rw [hidx]
    split
    · rename_i hlong
      simp [Nat.not_le.mpr hlong]
    · rename_i hshort
      simp [Nat.not_lt.mp hshort, eq_comm]

theorem decodeLine_within {line : List UInt8}
    (h : decodeLine b maxLine = (.ok (some line), b')) : line.length ≤ maxLine ∧ lf ∉ line := by
  obtain ⟨idx, hidx, hle, rfl, -⟩ := decodeLine_line h
  generalize hstop : (if 0 < idx ∧ b.asSlice[idx - 1]? = some cr then idx - 1 else idx) = stop
  have hstop_le : stop ≤ idx := by
    rw [← hstop]
    split <;> omega
  constructor
  · rw [List.length_take]
    omega
  · intro hmem
    obtain ⟨i, hi, hlf⟩ := List.mem_take_iff_getElem.mp hmem
    have hbefore := (List.findIdx?_eq_some_iff_getElem.mp hidx).2.2 i (by omega)
    simp [hlf] at hbefore

/-- More than `max_line` bytes come before an LF. -/
def Overlong (maxLine : Nat) (bytes : List UInt8) : Prop :=
  maxLine < bytes.length ∧ lf ∉ bytes.take (maxLine + 1)

theorem decodeLine_eq_error :
    decodeLine b maxLine = (.error (.lineTooLong maxLine), b.clear) ↔
      Overlong maxLine b.asSlice := by
  unfold decodeLine Overlong
  dsimp only
  split
  · rename_i idx hidx
    obtain ⟨hlt, hlf, hbefore⟩ := List.findIdx?_eq_some_iff_getElem.mp hidx
    by_cases hlong : maxLine < idx
    · rw [if_pos hlong]
      refine iff_of_true rfl ⟨by omega, fun hmem => ?_⟩
      obtain ⟨i, hi, hget⟩ := List.mem_take_iff_getElem.mp hmem
      have hnot := hbefore i (by omega)
      simp [hget] at hnot
    · rw [if_neg hlong]
      refine iff_of_false (by simp) fun hover => hover.2 ?_
      refine List.mem_take_iff_getElem.mpr ⟨idx, by omega, ?_⟩
      simpa using hlf
  · rename_i hnone
    have hnot : lf ∉ b.asSlice := by
      intro hmem
      have hfalse := List.findIdx?_eq_none_iff.mp hnone lf hmem
      simp at hfalse
    by_cases hlong : maxLine < b.asSlice.length
    · rw [if_pos hlong]
      exact iff_of_true rfl ⟨hlong, fun hmem => hnot (List.mem_of_mem_take hmem)⟩
    · rw [if_neg hlong]
      exact iff_of_false (by simp) fun hover => hlong hover.1

/-! ## More bytes -/

theorem findIdx?_more {bytes more : List UInt8} {idx : Nat}
    (h : bytes.findIdx? (fun b => b == lf) = some idx) :
    (bytes ++ more).findIdx? (fun b => b == lf) = some idx := by
  rw [List.findIdx?_append, h]
  rfl

theorem Overlong.more {bytes more : List UInt8} (h : Overlong maxLine bytes) :
    Overlong maxLine (bytes ++ more) := by
  obtain ⟨hlong, hnot⟩ := h
  constructor
  · rw [List.length_append]
    omega
  · rw [List.take_append_of_le_length hlong]
    exact hnot

/-- More bytes do not change what was decided. -/
theorem decodeLine_stable (maxLine : Nat) :
    Stable RecvBuf.asSlice fun b => decodeLine b maxLine where
  waits b b' h := by
    obtain ⟨rfl, -, -⟩ := decodeLine_wait.mp h
    rfl
  alike b b' t h ht := by
    obtain ⟨-, hnone, hle⟩ := decodeLine_wait.mp h
    exact ⟨t, decodeLine_wait.mpr ⟨rfl, ht ▸ hnone, ht ▸ hle⟩⟩
  consumes b line b' h := by
    obtain ⟨idx, hidx, -, -, rfl⟩ := decodeLine_line h
    obtain ⟨hlt, -⟩ := List.findIdx?_eq_some_iff_getElem.mp hidx
    rw [RecvBuf.asSlice_consume, List.length_drop]
    omega
  frame b line b' t more h ht := by
    obtain ⟨idx, hidx, hle, rfl, rfl⟩ := decodeLine_line h
    obtain ⟨hlt, -⟩ := List.findIdx?_eq_some_iff_getElem.mp hidx
    refine ⟨t.consume (idx + 1), ?_, ?_⟩
    · have hcr : (b.asSlice ++ more)[idx - 1]? = b.asSlice[idx - 1]? :=
        List.getElem?_append_left (by omega)
      simp only [decodeLine, ht, findIdx?_more hidx, if_neg (Nat.not_lt.mpr hle), hcr]
      rw [List.take_append_of_le_length]
      split <;> omega
    · rw [RecvBuf.asSlice_consume, RecvBuf.asSlice_consume, ht]
      exact List.drop_append_of_le_length hlt
  fail b e b' t more h ht := by
    obtain ⟨rfl, rfl⟩ := decodeLine_error h
    have hover : Overlong maxLine t.asSlice := ht ▸ (decodeLine_eq_error.mp h).more
    exact ⟨t.clear, decodeLine_eq_error.mpr hover⟩

/-! ## Streams -/

/-- Append the pieces of a stream and decode the lines after each, up to an error. -/
def receiveLines (maxLine : Nat) :
    RecvBuf → List Chunk → Option ((List (List UInt8) × Option ProtoError) × RecvBuf) :=
  feed (fun b => decodeLine b maxLine) RecvBuf.append fun b => b.len + 1

/-- **Lines survive any segmentation.** However a byte string is cut and however its pieces reach
the buffer, the lines that come out are those of the whole string, and an overlong one ends both or
neither. A line has at most `max_line` bytes and no LF, and after an overlong one the buffer is
empty. -/
theorem lines_survive_segmentation (maxLine : Nat) (chunks : List Chunk) :
    ∃ lines err b whole,
      receiveLines maxLine .new chunks = some ((lines, err), b) ∧
      receiveLines maxLine .new [.slice (chunks.flatMap Chunk.bytes)] =
        some ((lines, err), whole) ∧
      (∀ line ∈ lines, line.length ≤ maxLine ∧ lf ∉ line) ∧
      (err = none ∧ b.asSlice = whole.asSlice ∨
        err = some (.lineTooLong maxLine) ∧ b.isEmpty = true ∧ whole.isEmpty = true) := by
  have hfuel : ∀ b : RecvBuf, b.asSlice.length < b.len + 1 := by
    intro b
    rw [b.length_asSlice]
    exact Nat.lt_succ_self _
  have hempty : decodeLine .new maxLine = (.ok none, .new) :=
    decodeLine_wait.mpr ⟨rfl, rfl, Nat.zero_le _⟩
  have hsame : chunks.flatMap Chunk.bytes =
      [Chunk.slice (chunks.flatMap Chunk.bytes)].flatMap Chunk.bytes := by
    rw [List.flatMap_singleton]
    rfl
  obtain ⟨lines, err, b, whole, hcut, hwhole, hleft⟩ := feed_cut (decodeLine_stable maxLine)
    RecvBuf.asSlice_append hfuel hempty hsame
  have hforall : ∀ {chunks : List Chunk} {b : RecvBuf},
      receiveLines maxLine .new chunks = some ((lines, err), b) →
        (∀ line ∈ lines, line.length ≤ maxLine ∧ lf ∉ line) ∧
          ∀ e, err = some e → e = .lineTooLong maxLine ∧ b.isEmpty = true := by
    intro chunks b h
    refine feed_forall (Q := fun e b => e = .lineTooLong maxLine ∧ b.isEmpty = true)
      (fun b line b' hline => decodeLine_within hline) (fun b e b' herr => ?_) h
    obtain ⟨he, rfl⟩ := decodeLine_error herr
    exact ⟨he, rfl⟩
  refine ⟨lines, err, b, whole, hcut, hwhole, (hforall hcut).1, ?_⟩
  cases err with
  | none => exact Or.inl ⟨rfl, hleft rfl⟩
  | some e =>
    obtain ⟨rfl, hb⟩ := (hforall hcut).2 e rfl
    exact Or.inr ⟨rfl, hb, ((hforall hwhole).2 _ rfl).2⟩

end CommandCenter.Proto
