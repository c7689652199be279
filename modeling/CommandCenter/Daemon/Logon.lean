import CommandCenter.Daemon.Bncs
import CommandCenter.Rust.Utf8

/-!
# Logging on

The logons of `crates/bnetccd/src/session.rs`: `SID_LOGONRESPONSE` and `SID_LOGONRESPONSE2` by an
X-SHA-1 proof, `SID_AUTH_ACCOUNTLOGON` and `SID_AUTH_ACCOUNTLOGONPROOF` by NLS.
-/

namespace CommandCenter.Daemon

open Rust CommandCenter.Core Proto Library Crypto
open Storage (Account)

/-- Longest username the server keeps. -/
def usernameMax : Nat := 15

/-- `read_username`: a longer name is cut off, not refused. -/
def readUsername : Reader (List UInt8) := do
  return (← Reader.cstr 64).take usernameMax

namespace Bncs

def adminFlag : UInt32 := 0x08

def recordKeyHolderNames (name : Text) : List KeyId → Program Unit
  | [] => return ()
  | key :: keys => do
    let _ : Unit ← ask (.recordKeyHolderName key name)
    recordKeyHolderNames name keys

/-- Everything a successful logon does after the proof checks out. -/
def finishLogon (s : Bncs) (account : Account) : Program Bncs := do
  recordKeyHolderNames account.name s.claimedKeys
  let admin : Bool ← ask (.isAdmin account.name)
  let flags : UInt32 ← ask (.userFlags account.id)
  let now : Nat ← ask .nowMs
  let _ : Unit ← ask (.recordLogin account.id (now / 1000))
  let displayName : Text ← ask (.claimName account.name)
  let _ : Unit ← ask (.registerSession displayName s.peer s.product)
  return { s with
    flags := (if admin then s.flags ||| adminFlag else s.flags) ||| flags
    displayName
    account := some account }

/-! ## By an X-SHA-1 proof -/

/-- The request of both logon packets. -/
structure LogonRequest where
  clientToken : UInt32
  serverToken : UInt32
  proof : Bytes proofLen
  username : List UInt8

def readLogon : Reader LogonRequest := do
  let clientToken ← Reader.u32
  let serverToken ← Reader.u32
  let proof ← Reader.array proofLen
  let username ← readUsername
  return { clientToken, serverToken, proof, username }

/-- The server token that the proof is checked with. The legacy flow issues none, so the client's
is taken there. -/
def logonToken (s : Bncs) (replyId : UInt8) (request : LogonRequest) : UInt32 :=
  if replyId = Sid.logonResponse then request.serverToken else s.serverToken

/-- Check the proof against the account, and log on. -/
def checkLogon (s : Bncs) (replyId : UInt8) (request : LogonRequest) (found : Option Account) :
    Program (UInt32 × Bncs) :=
  match found with
  | none => return (LogonStatus.noSuchAccount, s)
  | some account =>
    match account.credential with
    | .srp _ _ => return (LogonStatus.noSuchAccount, s)
    | .xsha1 digest =>
      if proofsMatch request.proof
          (logonProof request.clientToken (s.logonToken replyId request) digest) then do
        let banned : Bool ← ask (.isTagBanned account.name)
        if banned then return (LogonStatus.noSuchAccount, s)
        else return (LogonStatus.success, ← s.finishLogon account)
      else return (LogonStatus.wrongPassword, s)

/-- The reply, in which the legacy packet says 1 for success and 0 for failure. -/
def logonReply (replyId : UInt8) (status : UInt32) : Frame :=
  if replyId = Sid.logonResponse then
    ⟨replyId, Writer.u32 (if status = LogonStatus.success then 1 else 0)⟩
  else ⟨replyId, Writer.u32 status⟩

/-- `SID_LOGONRESPONSE` and `SID_LOGONRESPONSE2`. -/
def logon (s : Bncs) (frame : Frame) (replyId : UInt8) : Handling :=
  match readLogon.read frame with
  | .error _ => return (.close, s)
  | .ok request => do
    let found : Option Account ← ask (.account (Text.fromUtf8Lossy request.username))
    let (status, s) ← s.checkLogon replyId request found
    s.send (logonReply replyId status)

/-! ## By NLS -/

/-- The name a WarCraft III client typed, unless it holds the separator of the realm. -/
def realmBareName (typed : List UInt8) : Option Text :=
  let name := Text.fromUtf8Lossy typed
  if '@' ∈ name then none else some name

/-- The account of a bare name in this realm, with the name. -/
def realmAccount (cfg : ServerConfig) (typed : List UInt8) : Program (Option (Text × Account)) :=
  match realmBareName typed with
  | none => return none
  | some bare => do
    let found : Option Account ← ask (.account (bare ++ '@' :: cfg.realm))
    return found.map (bare, ·)

/-- The reply for a name that has no NLS account. -/
def noNlsAccount : Frame :=
  ⟨Sid.authAccountLogon, Writer.u32 NlsStatus.logonNoAccount ++ List.replicate 64 0⟩

/-- `SID_AUTH_ACCOUNTLOGON`. -/
def authAccountLogon (cfg : ServerConfig) (s : Bncs) (frame : Frame) : Handling :=
  let request := Reader.read (do
    let clientPublic ← Reader.array 32
    return (clientPublic, ← readUsername)) frame
  match request with
  | .error _ => return (.close, s)
  | .ok (clientPublic, typed) => do
    -- a new challenge invalidates any earlier one
    let s := { s with srp := none }
    match ← realmAccount cfg typed with
    | none => s.send noNlsAccount
    | some (bareName, account) =>
      match account.credential with
      | .xsha1 _ => s.send noNlsAccount
      | .srp salt verifier => do
        let b : Bytes 32 ← ask .random
        let ended : Bool ← ask .spawnBlocking
        if ended then
          let serverPublic := Nls.serverPublic verifier b
          let pending := ⟨account, bareName, salt, verifier, b, clientPublic, serverPublic⟩
          { s with srp := some pending }.send ⟨Sid.authAccountLogon,
            Writer.u32 NlsStatus.logonOk ++ salt.toList ++ serverPublic.toList⟩
        else return (.close, s)

/-- `SID_AUTH_ACCOUNTLOGONPROOF`. -/
def authAccountLogonProof (cfg : ServerConfig) (s : Bncs) (frame : Frame) : Handling :=
  match (Reader.array 20).read frame, s.srp with
  | .error _, _ => return (.close, s)
  | .ok _, none => return (.close, s)
  | .ok clientProof, some p => do
    let s := { s with srp := none }
    let ended : Bool ← ask .spawnBlocking
    if ended then
      match Nls.serverVerify cfg.sha1 p.bareName p.salt p.verifier p.b p.clientPublic
        p.serverPublic clientProof with
      | none => s.send ⟨Sid.authAccountLogonProof,
          Writer.u32 NlsStatus.proofWrongPassword ++ List.replicate 20 0⟩
      | some serverProof => do
        let banned : Bool ← ask (.isTagBanned p.account.name)
        if banned then
          s.send ⟨Sid.authAccountLogonProof,
            Writer.u32 NlsStatus.proofCustomError ++ List.replicate 20 0 ++
              Writer.cstr (Text.asBytes "This account is banned from this server.".toList)⟩
        else
          (← s.finishLogon p.account).send ⟨Sid.authAccountLogonProof,
            Writer.u32 NlsStatus.proofOk ++ serverProof.toList⟩
    else return (.close, s)

end Bncs

end CommandCenter.Daemon
