import CommandCenter.Daemon.Bncs

/-!
# The handshake of a BNCS session

The version checks of `crates/bnetccd/src/session.rs`: `SID_AUTH_INFO` and `SID_AUTH_CHECK` open
the modern flow, `SID_STARTVERSIONING` and `SID_REPORTVERSION` the legacy one.

* `Bncs.Allowed`: the policy allows the product, platform and version byte of the session.
-/

namespace CommandCenter.Daemon

open Rust CommandCenter.Core Proto Library Crypto

/-! ## The file to check the version with -/

/-- The CheckRevision file to name to a client. -/
def versionMpqName (platform product : Option FourCc) (versionByte : Option UInt32) : Text :=
  let plat := match platform with
    | some p => if p.isGraphic then p.asText else "IX86".toList
    | none => "IX86".toList
  let old := plat ++ "ver1.mpq".toList
  let modern := "ver-".toList ++ plat ++ "-1.mpq".toList
  match product with
  | none => old
  | some p =>
    if p = Product.war3 ∨ p = Product.w3xp then
      if versionByte.any (· ≤ 0x1A) then old else modern
    else if p = Product.d2dv ∨ p = Product.d2xp then modern
    else old

/-- `unix_to_filetime`, of seconds since the epoch. -/
def unixToFiletime (secs : Nat) : Nat := min ((secs + 11644473600) * 10000000) (2 ^ 64 - 1)

/-- The first of the names that the node has a file of. -/
def firstServed : List Text → Program (Option Text)
  | [] => return none
  | name :: names => do
    let mtime : Option Nat ← ask (.fileMtime name.asBytes)
    if mtime.isSome then return some name else firstServed names

/-- `served_version_mpq`: the `ver-` file of the platform that is there. -/
def servedVersionMpq (name : Text) : Program Text :=
  match (name.dropPrefix? "ver-".toList).bind (List.dropSuffix? · "-1.mpq".toList) with
  | none => return name
  | some plat => do
    let numbered := (List.range 8).map fun n =>
      "ver-".toList ++ plat ++ '-' :: Nat.toDigits 10 n ++ ".mpq".toList
    return (← firstServed (name :: numbered)).getD name

/-- The name of the file and its time, zero if the node has none. -/
def Bncs.versionMpq (s : Bncs) : Program (Text × Nat) := do
  let mpq ← servedVersionMpq (versionMpqName s.platform s.product s.versionByte)
  let mtime : Option Nat ← ask (.fileMtime mpq.asBytes)
  return (mpq, mtime.elim 0 unixToFiletime)

/-! ## The openers -/

namespace Bncs

def noUdp : UInt32 := 0x10

/-- The product, platform and version byte of either opener, after what comes before them. -/
def readVersion : Reader (FourCc × FourCc × UInt32) := do
  let platform ← Reader.fourcc
  let product ← Reader.fourcc
  let versionByte ← Reader.u32
  return (platform, product, versionByte)

/-- The fields that either opener sets. -/
def withVersion (s : Bncs) (platform product : FourCc) (versionByte : UInt32) : Bncs :=
  { s with product := some product, platform := some platform, versionByte := some versionByte }

/-- The No-UDP flag of the products that never answer. -/
def markNoUdp (s : Bncs) (product : FourCc) : Bncs :=
  if Product.alwaysNoUdp product then { s with flags := s.flags ||| noUdp } else s

def warcraftFormula : Text :=
  "B=454282227 C=2370009462 A=2264812340 4 A=A^S B=B-C C=C-A A=A+B".toList

def neutralFormula : Text := "A=1 B=1 C=1 4 A=A^S B=B^C C=C^A A=A^B".toList

/-- The body of the reply to `SID_AUTH_INFO`. -/
def authInfoReply (cfg : ServerConfig) (s : Bncs) (product : FourCc) (mpq : Text)
    (filetime : Nat) : List UInt8 :=
  let srp := Product.isSrp product
  let logonType : UInt32 := if srp && !cfg.wc3LegacyLogon then 0x02 else 0x00
  let formula := if product = Product.war3 ∨ product = Product.w3xp then warcraftFormula
    else neutralFormula
  Writer.u32 logonType ++ Writer.u32 s.serverToken ++ Writer.u32 s.serverToken ++
    Writer.u64 filetime ++ Writer.cstr mpq.asBytes ++ Writer.cstr formula.asBytes ++
    if srp then List.replicate 128 0 else []

/-- `SID_AUTH_INFO`. -/
def authInfo (cfg : ServerConfig) (s : Bncs) (frame : Frame) : Handling :=
  match Reader.read (do let _ ← Reader.u32; readVersion) frame with
  | .error _ => return (.close, s)
  | .ok (platform, product, versionByte) => do
    let s := s.withVersion platform product versionByte
    -- the product is known: the connection moves onto that product's limits
    let moved : Except Rejection Unit ← ask (.reclassify s.peer s.client (.game product))
    match moved with
    | .error _ => return (.close, s)
    | .ok _ =>
      let s := { s with client := .game product }.markNoUdp product
      let (mpq, filetime) ← s.versionMpq
      s.send ⟨Sid.authInfo, s.authInfoReply cfg product mpq filetime⟩

/-- `SID_STARTVERSIONING`. -/
def startVersioning (s : Bncs) (frame : Frame) : Handling := do
  let s := match Reader.read readVersion frame with
    | .ok (platform, product, versionByte) =>
      (s.withVersion platform product versionByte).markNoUdp product
    | .error _ => s
  let (mpq, filetime) ← s.versionMpq
  s.send ⟨Sid.startVersioning,
    Writer.u64 filetime ++ Writer.cstr mpq.asBytes ++ Writer.cstr neutralFormula.asBytes⟩

/-! ## The version steps -/

/-- The policy refuses what the session said it is. A session that said nothing is not refused. -/
def refused (cfg : ServerConfig) (s : Bncs) : Bool :=
  match s.product, s.platform, s.versionByte with
  | some product, some platform, some versionByte =>
    !cfg.versionPolicy.allows product platform versionByte
  | _, _, _ => false

/-- `key_fingerprint`: the product and public value of a key. -/
def keyFingerprint (productValue publicValue : UInt32) : KeyId :=
  ⟨xsha1Bytes ((toBeBytes productValue).reverse ++ (toBeBytes publicValue).reverse)⟩

/-- One CD key of `SID_AUTH_CHECK`. -/
def readKey : Reader KeyId := do
  let _keyLength ← Reader.u32
  let productValue ← Reader.u32
  let publicValue ← Reader.u32
  let _reserved ← Reader.u32
  let _hash ← Reader.array 20
  return keyFingerprint productValue publicValue

/-- The first `n` keys. -/
def readKeys : Nat → Reader (List KeyId)
  | 0 => return []
  | n + 1 => do
    let key ← readKey
    return key :: (← readKeys n)

/-- The keys of `SID_AUTH_CHECK`, of which two at most are looked at. -/
def authCheckKeys : Reader (List KeyId) := do
  let _clientToken ← Reader.u32
  let _exeVersion ← Reader.u32
  let _exeHash ← Reader.u32
  let keyCount ← Reader.u32
  let _spawn ← Reader.u32
  let keys ← readKeys (min keyCount.toNat 2)
  let _exeInfo ← Reader.cstr 256
  let _owner ← Reader.cstr 64
  return keys

/-- The frame that answers a version step with success. -/
def authCheckPassed : Frame :=
  ⟨Sid.authCheck, Writer.u32 AuthCheckStatus.passed ++ Writer.cstr []⟩

def authCheckOk (s : Bncs) : Handling := s.send authCheckPassed

def releaseKeys (now : Nat) : List KeyId → Program Unit
  | [] => return ()
  | key :: keys => do
    let _ : Unit ← ask (.releaseKey key now)
    releaseKeys now keys

/-- A refusal of the first or the second key. -/
def keyStatus (status : UInt32) (second : Bool) : UInt32 :=
  if second then status ||| AuthCheckStatus.secondKey else status

/-- Claim the keys in `left`, those in `claimed` having been claimed. -/
def claimKeys (s : Bncs) (now : Nat) (claimed : List KeyId) : List KeyId → Handling
  | [] => { s with claimedKeys := claimed }.authCheckOk
  | key :: left => do
    let second := claimed.length == 1
    let verdict : KeyClaim ← ask (.claimKey key now)
    match verdict with
    | .ok => s.claimKeys now (claimed ++ [key]) left
    | .inUse holder => do
      releaseKeys now claimed
      s.send ⟨Sid.authCheck,
        Writer.u32 (keyStatus AuthCheckStatus.keyInUse second) ++ Writer.cstr holder.asBytes⟩
    | .banned => do
      releaseKeys now claimed
      s.send ⟨Sid.authCheck,
        Writer.u32 (keyStatus AuthCheckStatus.keyBanned second) ++ Writer.cstr []⟩

/-- `SID_AUTH_CHECK`. The version comes first; a body that cannot be read costs only the check of
the keys. -/
def authCheck (cfg : ServerConfig) (s : Bncs) (frame : Frame) : Handling :=
  if s.refused cfg then
    s.send ⟨Sid.authCheck, Writer.u32 AuthCheckStatus.oldVersion ++ Writer.cstr []⟩
  else if cfg.cdKeyUniqueness then
    match authCheckKeys.read frame with
    | .error _ => s.authCheckOk
    | .ok keys => do
      let now : Nat ← ask .nowMs
      s.claimKeys now [] keys
  else s.authCheckOk

/-- The reply to `SID_REPORTVERSION`. -/
def reportVersionReply (result : UInt32) : Frame :=
  ⟨Sid.reportVersion, Writer.u32 result ++ Writer.cstr [] ++ [0]⟩

/-- `SID_REPORTVERSION`: 2 is success. -/
def reportVersion (cfg : ServerConfig) (s : Bncs) : Handling :=
  if s.refused cfg then s.send (reportVersionReply 0x0000)
  else s.send (reportVersionReply 0x0002)

end Bncs

end CommandCenter.Daemon
