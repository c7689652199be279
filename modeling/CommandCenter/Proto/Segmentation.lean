import CommandCenter.Proto.Bncs
import CommandCenter.Proto.Mcp
import CommandCenter.Library.StableDecoder

/-!
# Streams survive any segmentation

The pieces of a stream are appended to a `RecvBuf` as they come, either with
`extend_from_slice` or by a read into its writable tail, and after each the decoder is called
until it asks for more.

* `Protocol.survives_segmentation`: the frames of the stream come out in order.
-/

namespace CommandCenter.Proto

open Library

inductive Protocol where
  | bncs
  | mcp

/-- How a piece of the stream gets into the buffer. -/
inductive Chunk where
  | slice (data : List UInt8)
  | read (data : List UInt8) (spare : Nat)

def Chunk.bytes : Chunk → List UInt8
  | slice data | read data _ => data

/-- The buffer with the piece appended. -/
def RecvBuf.append (b : RecvBuf) : Chunk → RecvBuf
  | .slice data => b.extendFromSlice data
  | .read data spare => b.read data spare

theorem RecvBuf.asSlice_append (b : RecvBuf) (c : Chunk) :
    (b.append c).asSlice = b.asSlice ++ c.bytes := by
  cases c with
  | slice data => exact b.asSlice_extendFromSlice data
  | read data spare => exact b.asSlice_read data spare

namespace Protocol

def headerLen : Protocol → Nat
  | bncs => Bncs.headerLen
  | mcp => Mcp.headerLen

def wireLen : Protocol → Frame → Nat
  | bncs => Bncs.wireLen
  | mcp => Mcp.wireLen

def encodeFrame : Protocol → Frame → List UInt8 → Except ProtoError Unit × List UInt8
  | bncs => Bncs.encodeFrame
  | mcp => Mcp.encodeFrame

def decodeFrame : Protocol → RecvBuf → Nat → Decoded
  | bncs => Bncs.decodeFrame
  | mcp => Mcp.decodeFrame

/-- Append the frames' wire bytes to `dst`, one frame after another. -/
def encodeAll (p : Protocol) : List Frame → List UInt8 → Except ProtoError Unit × List UInt8
  | [], dst => (.ok (), dst)
  | f :: fs, dst =>
    match p.encodeFrame f dst with
    | (.ok (), dst) => p.encodeAll fs dst
    | (.error e, dst) => (.error e, dst)

/-- Append the pieces and drain after each. -/
def receive (p : Protocol) (maxFrame : Nat) :
    RecvBuf → List Chunk → Option (Except ProtoError (List Frame) × RecvBuf) :=
  Library.receive (fun b => p.decodeFrame b maxFrame) RecvBuf.append fun b => b.len + 1

def wire : Protocol → Frame → List UInt8
  | bncs => Bncs.wire
  | mcp => Mcp.wire

/-- Before the whole header is there nothing is decoded. -/
theorem decodeFrame_short (p : Protocol) {src : RecvBuf} {maxFrame : Nat}
    (hshort : src.asSlice.length < p.headerLen) :
    p.decodeFrame src maxFrame = (.ok none, src) := by
  cases p with
  | bncs | mcp =>
    simp only [decodeFrame, Bncs.decodeFrame, Mcp.decodeFrame]
    split
    · rename_i hsrc
      rw [hsrc] at hshort
      simp only [List.length_cons, headerLen, Bncs.headerLen, Mcp.headerLen] at hshort
      omega
    · rfl

/-- The decoder undoes the encoder, frame by frame. -/
theorem decodes (p : Protocol) (maxFrame : Nat) :
    Decodes RecvBuf.asSlice (fun b => p.decodeFrame b maxFrame) p.wire
      (fun f => p.wireLen f ≤ u16Max ∧ p.wireLen f ≤ maxFrame) := by
  have hshort : ∀ src, src.asSlice.length < p.headerLen →
      p.decodeFrame src maxFrame = (.ok none, src) := fun _ => p.decodeFrame_short
  cases p with
  | bncs =>
    exact decodes_of_header (fun _ => rfl) (by decide) hshort fun _ _ _ => Bncs.decodeFrame_header
  | mcp =>
    exact decodes_of_header (fun _ => rfl) (by decide) hshort fun _ _ _ => Mcp.decodeFrame_header

theorem encodeFrame_eq (p : Protocol) (f : Frame) (dst : List UInt8) :
    p.encodeFrame f dst = if u16Max < p.wireLen f then
      (.error (.frameTooLarge (p.wireLen f) u16Max), dst) else (.ok (), dst ++ p.wire f) := by
  cases p <;> rfl

/-- What the encoder accepts fits the length field, and it writes the frames one by one. -/
theorem encodeAll_ok {p : Protocol} {frames : List Frame} {dst stream : List UInt8}
    (h : p.encodeAll frames dst = (.ok (), stream)) :
    (∀ f ∈ frames, p.wireLen f ≤ u16Max) ∧ stream = dst ++ frames.flatMap p.wire := by
  induction frames generalizing dst with
  | nil =>
    obtain ⟨_, rfl⟩ := Prod.mk.inj h
    exact ⟨fun f hf => absurd hf List.not_mem_nil, (List.append_nil dst).symm⟩
  | cons f frames ih =>
    rw [encodeAll, encodeFrame_eq] at h
    by_cases hlarge : u16Max < p.wireLen f
    · rw [if_pos hlarge] at h
      cases h
    · rw [if_neg hlarge] at h
      obtain ⟨hfits, rfl⟩ := ih h
      refine ⟨fun g hg => ?_, by rw [List.flatMap_cons, List.append_assoc]⟩
      rcases List.mem_cons.mp hg with rfl | hg
      · exact Nat.not_lt.mp hlarge
      · exact hfits g hg

/-- **Streams survive any segmentation**: frames that the encoder accepts and that are within
`maxFrame`, however their encoding is cut and however the pieces reach the buffer, come out in
order, without an error, and the buffer is empty in the end. -/
theorem survives_segmentation (p : Protocol) (maxFrame : Nat) (frames : List Frame)
    (stream : List UInt8) (hencode : p.encodeAll frames [] = (.ok (), stream))
    (hmax : ∀ f ∈ frames, p.wireLen f ≤ maxFrame) (chunks : List Chunk)
    (hcut : chunks.flatMap Chunk.bytes = stream) :
    ∃ b, p.receive maxFrame RecvBuf.new chunks = some (.ok frames, b) ∧ b.isEmpty = true := by
  obtain ⟨hfits, rfl⟩ := encodeAll_ok hencode
  have hdecodes := p.decodes maxFrame
  have hok : ∀ f ∈ frames, p.wireLen f ≤ u16Max ∧ p.wireLen f ≤ maxFrame :=
    fun f hf => ⟨hfits f hf, hmax f hf⟩
  have hfuel : ∀ b : RecvBuf, b.asSlice.length < b.len + 1 := by
    intro b
    rw [b.length_asSlice]
    exact Nat.lt_succ_self _
  have hwaiting : Waiting RecvBuf.asSlice p.wire RecvBuf.new frames := by
    intro f hf
    have hmem : f ∈ frames := List.mem_of_mem_head? hf
    exact List.length_pos_of_ne_nil (hdecodes.nonempty f (hok f hmem))
  obtain ⟨b, hreceive, hempty⟩ :=
    receive_spec hdecodes RecvBuf.asSlice_append hfuel hok hwaiting hcut
  exact ⟨b, hreceive, b.isEmpty_iff.mpr hempty⟩

/-- Two BNCS frames, the second cut inside its header. -/
theorem survives_segmentation_bncs :
    ∃ b, bncs.receive 8192 RecvBuf.new
        [.slice [0xFF, 0x25, 8, 0, 1], .read [2, 3, 4, 0xFF, 0x00] 3, .slice [4, 0]] =
      some (.ok [⟨0x25, [1, 2, 3, 4]⟩, ⟨0x00, []⟩], b) ∧ b.isEmpty = true :=
  survives_segmentation bncs 8192 [⟨0x25, [1, 2, 3, 4]⟩, ⟨0x00, []⟩]
    [0xFF, 0x25, 8, 0, 1, 2, 3, 4, 0xFF, 0x00, 4, 0] rfl (by decide) _ rfl

end Protocol

end CommandCenter.Proto
