import CommandCenter.Proto.Frame

/-!
# BNCS framing

`crates/bnetcc-proto/src/bncs.rs`: a magic byte, the id, then the length of the whole frame.

* `Bncs.decodeFrame_header`: behind a header that is there the frame is taken.
-/

/-!
## BNCS message identifiers and status codes

The constants of `crates/bnetcc-proto/src/bncs.rs` that the session model uses.
-/

namespace CommandCenter.Proto

/-! ## Message identifiers -/

namespace Sid

def null : UInt8 := 0x00
def stopAdv : UInt8 := 0x02
def clientId : UInt8 := 0x05
def startVersioning : UInt8 := 0x06
def reportVersion : UInt8 := 0x07
def getAdvListEx : UInt8 := 0x09
def enterChat : UInt8 := 0x0A
def getChannelList : UInt8 := 0x0B
def joinChannel : UInt8 := 0x0C
def chatCommand : UInt8 := 0x0E
def leaveChat : UInt8 := 0x10
def localeInfo : UInt8 := 0x12
def udpPingResponse : UInt8 := 0x14
def checkAd : UInt8 := 0x15
def clickAd : UInt8 := 0x16
def startAdvEx3 : UInt8 := 0x1C
def clientId2 : UInt8 := 0x1E
def leaveGame : UInt8 := 0x1F
def displayAd : UInt8 := 0x21
def notifyJoin : UInt8 := 0x22
def ping : UInt8 := 0x25
def readUserData : UInt8 := 0x26
def writeUserData : UInt8 := 0x27
def logonResponse : UInt8 := 0x29
def createAccount : UInt8 := 0x2A
def systemInfo : UInt8 := 0x2B
def gameResult : UInt8 := 0x2C
def getIconData : UInt8 := 0x2D
def getLadderData : UInt8 := 0x2E
def findLadderUser : UInt8 := 0x2F
def cdKey : UInt8 := 0x30
def getFileTime : UInt8 := 0x33
def cdKey2 : UInt8 := 0x36
def logonResponse2 : UInt8 := 0x3A
def checkDataFile2 : UInt8 := 0x3C
def createAccount2 : UInt8 := 0x3D
def logonRealmEx : UInt8 := 0x3E
def queryRealms2 : UInt8 := 0x40
def queryAdUrl : UInt8 := 0x41
def warcraftGeneral : UInt8 := 0x44
def netGamePort : UInt8 := 0x45
def newsInfo : UInt8 := 0x46
def authInfo : UInt8 := 0x50
def authCheck : UInt8 := 0x51
def authAccountCreate : UInt8 := 0x52
def authAccountLogon : UInt8 := 0x53
def authAccountLogonProof : UInt8 := 0x54
def friendsList : UInt8 := 0x65

end Sid

/-! ## Status codes -/

namespace LogonStatus

def success : UInt32 := 0x00
def noSuchAccount : UInt32 := 0x01
def wrongPassword : UInt32 := 0x02

end LogonStatus

namespace AuthCheckStatus

def passed : UInt32 := 0x000
def oldVersion : UInt32 := 0x100
def keyInUse : UInt32 := 0x201
def keyBanned : UInt32 := 0x202
def secondKey : UInt32 := 0x010

end AuthCheckStatus

namespace NlsStatus

def logonOk : UInt32 := 0x00
def logonNoAccount : UInt32 := 0x01
def proofOk : UInt32 := 0x00
def proofWrongPassword : UInt32 := 0x02
def proofCustomError : UInt32 := 0x0F

end NlsStatus

namespace AdvertiseStatus

def ok : UInt32 := 0x00
def nameTaken : UInt32 := 0x01
def typeUnavailable : UInt32 := 0x02

end AdvertiseStatus

end CommandCenter.Proto

namespace CommandCenter.Proto.Bncs

open Rust Library

def headerLen : Nat := 4

def magic : UInt8 := 0xFF

/-- Total wire size including the header. -/
def wireLen (frame : Frame) : Nat := headerLen + frame.body.length

/-- Attempt to decode one frame from `src`. -/
def decodeFrame (src : RecvBuf) (maxFrame : Nat) : Decoded :=
  match src.asSlice with
  | first :: id :: lo :: hi :: _ =>
    if first ≠ magic then (.error (.badMagic first), src)
    else takeFrame headerLen src maxFrame id (fromLeBytes lo hi).toNat
  | _ => (.ok none, src)

def header (frame : Frame) : List UInt8 :=
  [magic, frame.id] ++ toLeBytes (.ofNat (wireLen frame))

/-- Append a frame's wire bytes to `dst`. -/
def encodeFrame (frame : Frame) (dst : List UInt8) : Except ProtoError Unit × List UInt8 :=
  putFrame (wireLen frame) (header frame) frame.body dst

/-- The bytes of a frame on the wire. -/
def wire (frame : Frame) : List UInt8 := header frame ++ frame.body

theorem decodeFrame_header {src : RecvBuf} {maxFrame : Nat} {frame : Frame} {rest : List UInt8}
    (hfits : wireLen frame ≤ u16Max) (hsrc : src.asSlice = header frame ++ rest) :
    decodeFrame src maxFrame = takeFrame headerLen src maxFrame frame.id (wireLen frame) := by
  unfold decodeFrame
  rw [hsrc]
  change (if magic ≠ magic then _ else takeFrame _ _ _ _ (fromLeBytes _ _).toNat) = _
  rw [if_neg (not_not_intro rfl), read_len hfits]

end CommandCenter.Proto.Bncs
