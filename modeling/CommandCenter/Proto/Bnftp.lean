import Mathlib.Data.Bool.AllAny
import CommandCenter.Proto.Reader
import CommandCenter.Rust.Slice

/-!
# File transfer requests

`crates/bnetcc-proto/src/bnftp.rs`. A request declares its own length and is one of two layouts,
by its version. A request of the second version is a header, and the name may follow it or not.

* `request_round_trip`: a request of the first layout is read back once all of it is there.
-/

namespace CommandCenter.Proto.Bnftp

open Rust Library

def version2 : UInt16 := 0x0200

def maxFilename : Nat := 260

/-- The largest request that is buffered. -/
def maxRequest : Nat := 512

structure Request where
  version : UInt16
  platform : FourCc
  product : FourCc
  /-- Advertisement id, or 0 for an ordinary file. -/
  adId : UInt32
  /-- Advertisement file extension, or 0 for an ordinary file. -/
  adExtension : UInt32
  /-- Where to resume. -/
  startPosition : UInt32
  /-- Of the copy the client has; 0 asks for the newest. -/
  filetime : UInt64
  filename : List UInt8
  deriving DecidableEq

/-! ## Reading -/

/-- `unwrap_or` of a read; one that fails does not consume. -/
def unwrapOr {α : Type} (reader : Reader α) (default : α) : Reader α := fun left =>
  match reader left with
  | .ok r => .ok r
  | .error _ => .ok (default, left)

/-- A header of the second version, with no name yet. -/
def readHeaderV2 (version : UInt16) : Reader Request := do
  let platform ← Reader.fourcc
  let product ← Reader.fourcc
  let adId ← unwrapOr Reader.u32 0
  let adExtension ← unwrapOr Reader.u32 0
  return {
    version, platform, product, adId, adExtension
    startPosition := 0, filetime := 0, filename := [] }

/-- The name that follows such a header, if one does. -/
def nameAfter (rest : List UInt8) : List UInt8 :=
  match rest.findIdx? (· == 0) with
  | some nul => rest.take nul
  | none => []

/-- The declared length is the header's. -/
def decodeV2 (buf : List UInt8) (declared : Nat) (version : UInt16) :
    Checked ProtoError (Option Request) :=
  if declared < 12 then
    throw (.frameTooLarge declared maxRequest)
  else if buf.length < declared then
    return none
  else do
    let header ← slice buf 4 declared
    let request ← (readHeaderV2 version).run' header
    let rest ← slice buf declared buf.length
    let filename := nameAfter rest
    if maxFilename < filename.length then
      throw (.frameTooLarge filename.length maxFilename)
    else
      return some { request with filename }

/-- A request of the first layout, from its version on. -/
def readRequest : Reader Request := do
  let version ← Reader.u16
  let platform ← Reader.fourcc
  let product ← Reader.fourcc
  let adId ← Reader.u32
  let adExtension ← Reader.u32
  let startPosition ← Reader.u32
  let filetime ← Reader.u64
  let filename ← Reader.cstr maxFilename
  return { version, platform, product, adId, adExtension, startPosition, filetime, filename }

/-- The declared length is the whole request's. -/
def decodeV1 (buf : List UInt8) (declared : Nat) : Checked ProtoError (Option Request) :=
  if ¬ (24 ≤ declared ∧ declared ≤ maxRequest) then
    throw (.frameTooLarge declared maxRequest)
  else if buf.length < declared then
    return none
  else do
    let body ← slice buf 2 declared
    let request ← readRequest.run' body
    return some request

/-- `None` if the whole request has not arrived yet. -/
def decodeRequest (buf : List UInt8) : Checked ProtoError (Option Request) :=
  match buf with
  | b₀ :: b₁ :: b₂ :: b₃ :: _ =>
    let declared := (fromLeBytes b₀ b₁).toNat
    let version := fromLeBytes b₂ b₃
    if maxRequest < declared then throw (.frameTooLarge declared maxRequest)
    else if version = version2 then decodeV2 buf declared version
    else decodeV1 buf declared
  | _ => return none

/-! ## Writing -/

/-- All but the version and what comes before it. -/
def encodeFields (request : Request) : List UInt8 :=
  Writer.fourcc request.platform ++ (Writer.fourcc request.product ++ (Writer.u32 request.adId ++
    (Writer.u32 request.adExtension ++ (Writer.u32 request.startPosition ++
      (Writer.u64 request.filetime.toNat ++ Writer.cstr request.filename)))))

def encodeRequest (request : Request) : List UInt8 :=
  let body := Writer.u16 request.version ++ encodeFields request
  toLeBytes (.ofNat (body.length + 2)) ++ body

/-! ## A request is read back -/

theorem decodeRequest_toLeBytes (len version : UInt16) (rest : List UInt8) :
    decodeRequest (toLeBytes len ++ (toLeBytes version ++ rest)) =
      if maxRequest < len.toNat then throw (.frameTooLarge len.toNat maxRequest)
      else if version = version2 then
        decodeV2 (toLeBytes len ++ (toLeBytes version ++ rest)) len.toNat version
      else decodeV1 (toLeBytes len ++ (toLeBytes version ++ rest)) len.toNat := by
  simp only [toLeBytes, List.cons_append, List.nil_append, decodeRequest, fromLeBytes_toLeBytes]

def Request.declared (request : Request) : UInt16 :=
  .ofNat ((Writer.u16 request.version ++ encodeFields request).length + 2)

theorem encodeRequest_eq (request : Request) :
    encodeRequest request =
      toLeBytes request.declared ++ (toLeBytes request.version ++ encodeFields request) := rfl

/-- A request that the first layout has a place for. -/
structure Request.Encodable (request : Request) : Prop where
  version : request.version ≠ version2
  nul : ∀ b ∈ request.filename, b ≠ 0
  filename : request.filename.length ≤ maxFilename

section RoundTrip

variable {request : Request} (h : request.Encodable)

include h

theorem reads_request :
    Reads readRequest (Writer.u16 request.version ++ encodeFields request) request := by
  refine Reads.bind (Reader.reads_u16 _) (Reads.bind (Reader.reads_fourcc _)
    (Reads.bind (Reader.reads_fourcc _) (Reads.bind (Reader.reads_u32 _)
      (Reads.bind (Reader.reads_u32 _) (Reads.bind (Reader.reads_u32 _)
        (Reads.bind (Reader.reads_u64 _) ?_))))))
  exact (Reader.reads_cstr h.nul h.filename).map fun filename => { request with filename }

theorem length_encodeFields : (encodeFields request).length = 29 + request.filename.length := by
  have hfilter : request.filename.filter (· != 0) = request.filename :=
    List.filter_eq_self.mpr fun b hb => bne_iff_ne.mpr (h.nul b hb)
  simp only [encodeFields, Writer.fourcc, Writer.cstr, hfilter, List.length_append,
    Writer.length_u32, Writer.length_u64, List.length_singleton]
  omega

theorem length_encodeRequest : (encodeRequest request).length = 33 + request.filename.length := by
  rw [encodeRequest, List.length_append, List.length_append, length_encodeFields h,
    Writer.length_u16]
  change 2 + _ = _
  omega

theorem toNat_declared : request.declared.toNat = (encodeRequest request).length := by
  have hlen := length_encodeRequest h
  have hname := h.filename
  unfold maxFilename at hname
  rw [Request.declared, List.length_append, length_encodeFields h, Writer.length_u16, hlen,
    UInt16.toNat_ofNat']
  omega

theorem length_encodeRequest_le : (encodeRequest request).length ≤ maxRequest := by
  have hlen := length_encodeRequest h
  have hname := h.filename
  unfold maxFilename at hname
  unfold maxRequest
  omega

theorem decodeV1_encodeRequest (more : List UInt8) :
    decodeV1 (encodeRequest request ++ more) (encodeRequest request).length =
      some (.ok (some request)) := by
  have hlen := length_encodeRequest h
  have hbody : ((encodeRequest request ++ more).take (encodeRequest request).length).drop 2 =
      Writer.u16 request.version ++ encodeFields request := by
    rw [List.take_left]
    rfl
  have hread := reads_request h []
  rw [List.append_nil] at hread
  unfold decodeV1
  rw [Checked.guard_eq_ok]
  refine ⟨?_, ?_⟩
  · exact not_not.mpr ⟨by omega, length_encodeRequest_le h⟩
  · rw [if_neg (by rw [List.length_append]; omega), Checked.bind_eq_ok]
    refine ⟨_, Checked.liftOption_eq_ok.mpr (slice_eq (by omega) ?_), ?_⟩
    · rw [List.length_append]
      omega
    · rw [Checked.bind_eq_ok, hbody]
      exact ⟨request, Checked.lift_eq_ok.mpr (Taking.run'_eq_ok.mpr ⟨[], hread⟩), rfl⟩

theorem decodeRequest_eq_decodeV1 (rest : List UInt8) :
    decodeRequest (toLeBytes request.declared ++ (toLeBytes request.version ++ rest)) =
      decodeV1 (toLeBytes request.declared ++ (toLeBytes request.version ++ rest))
        (encodeRequest request).length := by
  rw [decodeRequest_toLeBytes, toNat_declared h,
    if_neg (Nat.not_lt.mpr (length_encodeRequest_le h)), if_neg h.version]

theorem decodeRequest_encodeRequest (more : List UInt8) :
    decodeRequest (encodeRequest request ++ more) = some (.ok (some request)) := by
  have hdecode := decodeRequest_eq_decodeV1 h (encodeFields request ++ more)
  rw [← List.append_assoc (toLeBytes request.version), ← List.append_assoc, ← encodeRequest_eq]
    at hdecode
  exact hdecode.trans (decodeV1_encodeRequest h more)

theorem decodeRequest_part {buf rest : List UInt8} (hne : rest ≠ [])
    (hpart : buf ++ rest = encodeRequest request) : decodeRequest buf = some (.ok none) := by
  have hlt : buf.length < (encodeRequest request).length := by
    have hrest := List.length_pos_of_ne_nil hne
    rw [← hpart, List.length_append]
    omega
  match buf, hlt, hpart with
  | [], _, _ | [_], _, _ | [_, _], _, _ | [_, _, _], _, _ => rfl
  | a :: b :: c :: d :: body, hlt, hpart =>
    have hsplit : [a, b] ++ ([c, d] ++ (body ++ rest)) = encodeRequest request := hpart
    rw [encodeRequest_eq] at hsplit
    obtain ⟨hdeclared, hbody⟩ := List.append_inj hsplit rfl
    obtain ⟨hversion, _⟩ := List.append_inj hbody rfl
    have hbuf : a :: b :: c :: d :: body =
        toLeBytes request.declared ++ (toLeBytes request.version ++ body) := by
      rw [← hdeclared, ← hversion]
      rfl
    have hlen := length_encodeRequest h
    rw [hbuf] at hlt ⊢
    rw [decodeRequest_eq_decodeV1 h, decodeV1,
      if_neg (not_not.mpr ⟨by omega, length_encodeRequest_le h⟩), if_pos hlt]
    rfl

end RoundTrip

/-! ## Whole requests -/

/-- **A request of the first layout is read back, and never early.** Its version is not the second,
and its name has no NUL and is at most 260 bytes. It is read back as it was; every part of it that
is not all of it is waited on; and whatever follows it changes nothing. -/
theorem request_round_trip (request : Request) (hversion : request.version ≠ version2)
    (hnul : ∀ b ∈ request.filename, b ≠ 0) (hname : request.filename.length ≤ maxFilename) :
    decodeRequest (encodeRequest request) = some (.ok (some request)) ∧
      (∀ part, part <+: encodeRequest request → part ≠ encodeRequest request →
        decodeRequest part = some (.ok none)) ∧
      ∀ more, decodeRequest (encodeRequest request ++ more) =
        decodeRequest (encodeRequest request) := by
  have h : request.Encodable := ⟨hversion, hnul, hname⟩
  have hwhole : decodeRequest (encodeRequest request) = some (.ok (some request)) := by
    have hmore := decodeRequest_encodeRequest h []
    rwa [List.append_nil] at hmore
  refine ⟨hwhole, ?_, ?_⟩
  · rintro part ⟨rest, hpart⟩ hne
    refine decodeRequest_part h ?_ hpart
    rintro rfl
    exact hne ((List.append_nil part).symm.trans hpart)
  · intro more
    rw [decodeRequest_encodeRequest h more, hwhole]

/-- `icons.bni`, from the start and however old. -/
def icons : Request where
  version := 0x0100
  platform := ⟨0x49583836⟩
  product := ⟨0x53544152⟩
  adId := 0
  adExtension := 0
  startPosition := 0
  filetime := 0
  filename := "icons.bni".toList.map fun c => .ofNat c.toNat

theorem request_round_trip_icons :
    decodeRequest ((encodeRequest icons).take 20) = some (.ok none) :=
  (request_round_trip icons (by decide) (List.all_iff_forall_prop.mp (by decide)) (by decide)).2.1 _
    (List.take_prefix _ _) (by decide)

end CommandCenter.Proto.Bnftp
