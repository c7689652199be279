import CommandCenter.Crypto.XSha1
import CommandCenter.Library.KeyExchange
import CommandCenter.Rust.Text

/-!
# New Logon System

`crates/bnetcc-crypto/src/nls.rs`, the SRP variant of WarCraft III. SHA-1 comes from another
crate and is a parameter. Every integer on the wire is `fieldLen` bytes, little-endian.
-/

namespace CommandCenter.Crypto

open Rust Library BigUint

/-- A hash of the bytes it is fed. -/
abbrev Sha1 := List UInt8 → Bytes proofLen

namespace Nls

/-- Blizzard's SRP generator. -/
def g : Nat := 47

/-- Blizzard's 256-bit SRP modulus, written big-endian. -/
def nBe : Bytes 32 :=
  #v[0xF8, 0xFF, 0x1A, 0x8B, 0x61, 0x99, 0x18, 0x03, 0x21, 0x86, 0xB6, 0x8C, 0xA0, 0x92, 0xB5,
    0x55, 0x7E, 0x97, 0x6C, 0x78, 0xC7, 0x32, 0x12, 0xD9, 0x12, 0x16, 0xF6, 0x65, 0x85, 0x23,
    0xC7, 0x87]

/-- `SHA1(g) xor SHA1(N)`, folded into every proof of a client. -/
def i : Bytes 20 :=
  #v[0x6C, 0x0E, 0x97, 0xED, 0x0A, 0xF9, 0x6B, 0xAB, 0xB1, 0x58, 0x89, 0xEB, 0x8B, 0xBA, 0x25,
    0xA4, 0xF0, 0x8C, 0x01, 0xF8]

/-- Size of every big-integer field on the wire. -/
abbrev fieldLen : Nat := 32

abbrev keyLen : Nat := 40

def modulus : Nat := fromBytesBe nBe.toList

/-- Encode as exactly 32 little-endian bytes. -/
def toLe32 (v : Nat) : Bytes fieldLen := copyToZeroed fieldLen (toBytesLe v)

def fromLe {n : Nat} (bytes : Bytes n) : Nat := fromBytesLe bytes.toList

/-- The client folds names to upper case before hashing. -/
def upper (s : Text) : List UInt8 := s.asBytes.map Text.byteToAsciiUppercase

variable (sha1 : Sha1)

/-- `SHA1(s ‖ SHA1(upper(C) ‖ ":" ‖ upper(P)))`, read little-endian. -/
def privateKey (username password : Text) (salt : Bytes fieldLen) : Nat :=
  let inner := sha1 (upper username ++ 58 :: upper password)
  fromLe (sha1 (salt.toList ++ inner.toList))

/-- The verifier the server stores beside the salt. -/
def verifier (username password : Text) (salt : Bytes fieldLen) : Bytes fieldLen :=
  let x := privateKey sha1 username password salt
  toLe32 (modpow g x modulus)

/-- Reduce a random value to a usable private exponent. -/
def exponent (random : Bytes fieldLen) : Nat :=
  let e := fromLe random % modulus
  if e = 0 then 1 else e

def clientPublic (a : Bytes fieldLen) : Bytes fieldLen := toLe32 (modpow g (exponent a) modulus)

def serverPublic (verifier b : Bytes fieldLen) : Bytes fieldLen :=
  let gb := modpow g (exponent b) modulus
  toLe32 ((fromLe verifier + gb) % modulus)

/-- The first four bytes of the hash of the server's key, read big-endian. -/
def scrambler (serverPublic : Bytes fieldLen) : Nat :=
  fromBytesBe ((sha1 serverPublic.toList).toList.take 4)

/-- The bytes of one parity, from the first or the second place of each pair. -/
def ofParity (sharedSecret : Bytes fieldLen) (parity : Fin 2) : Bytes 16 :=
  .ofFn fun i => sharedSecret.get ⟨2 * i.val + parity.val, by unfold fieldLen; omega⟩

/-- The secret's even and odd bytes, each hashed, the digests interleaved back. -/
def sessionKey (sharedSecret : Bytes fieldLen) : Bytes keyLen :=
  let even := sha1 (ofParity sharedSecret 0).toList
  let odd := sha1 (ofParity sharedSecret 1).toList
  .ofFn fun i =>
    let j : Fin proofLen := ⟨i.val / 2, by unfold proofLen keyLen at *; omega⟩
    if i.val % 2 = 0 then even.get j else odd.get j

/-- `SHA1(I ‖ SHA1(upper(C)) ‖ s ‖ A ‖ B ‖ K)`. -/
def clientProofFromKey (username : Text) (salt clientPublic serverPublic : Bytes fieldLen)
    (key : Bytes keyLen) : Bytes proofLen :=
  let nameHash := sha1 (upper username)
  sha1 (i.toList ++ nameHash.toList ++ salt.toList ++ clientPublic.toList ++
    serverPublic.toList ++ key.toList)

/-- `SHA1(A ‖ M1 ‖ K)`, the server's proof to the client. -/
def serverProofFromKey (clientPublic : Bytes fieldLen) (clientProof : Bytes proofLen)
    (key : Bytes keyLen) : Bytes proofLen :=
  sha1 (clientPublic.toList ++ clientProof.toList ++ key.toList)

/-- The client's shared secret, from `B mod N`. `v` is below `N`, so nothing underflows. -/
def clientSecret (bigB x a u : Nat) : Nat :=
  let v := modpow g x modulus
  let base := (modulus + bigB - v) % modulus
  modpow base (a + u * x) modulus

/-- Client side: the proof and the session key, or nothing for a zero key of the server. -/
def clientProof (username password : Text) (salt a serverPublic : Bytes fieldLen) :
    Option (Bytes proofLen × Bytes keyLen) :=
  let bigB := fromLe serverPublic % modulus
  if bigB = 0 then
    none
  else
    let x := privateKey sha1 username password salt
    let a := exponent a
    let bigA := toLe32 (modpow g a modulus)
    let u := scrambler sha1 serverPublic
    let key := sessionKey sha1 (toLe32 (clientSecret bigB x a u))
    some (clientProofFromKey sha1 username salt bigA serverPublic key, key)

/-- The server's shared secret, from `A mod N`. -/
def serverSecret (bigA v b u : Nat) : Nat :=
  let base := (bigA * modpow v u modulus) % modulus
  modpow base b modulus

/-- Server side: the server's proof if the client's is right. -/
def serverVerify (username : Text) (salt verifier b clientPublic serverPublic : Bytes fieldLen)
    (clientProof : Bytes proofLen) : Option (Bytes proofLen) :=
  let bigA := fromLe clientPublic % modulus
  if bigA = 0 then
    none
  else
    let u := scrambler sha1 serverPublic
    let v := fromLe verifier
    let key := sessionKey sha1 (toLe32 (serverSecret bigA v (exponent b) u))
    let expected := clientProofFromKey sha1 username salt clientPublic serverPublic key
    if proofsMatch expected clientProof then
      some (serverProofFromKey sha1 clientPublic clientProof key)
    else
      none

end Nls

end CommandCenter.Crypto

/-!
## Client and server agree

The byte strings of the New Logon System carry an exchange of `Library.SecureRemotePassword` over
the integers modulo `N`: every value is reduced before it is encoded, so it fits the field and
comes back whole. SHA-1 is any function.

* `cast_clientSecret`, `cast_serverSecret`: the two computations are those of the exchange.
* `client_and_server_agree`: an honest client is accepted, and holds the server's key.
-/

namespace CommandCenter.Crypto.Nls

open Rust Library BigUint

/-! ## The modulus -/

theorem one_lt_modulus : 1 < modulus := by decide +kernel

theorem modulus_le : modulus ≤ 256 ^ fieldLen := by decide +kernel

theorem coprime_g_modulus : Nat.Coprime g modulus := by decide +kernel

theorem modulus_pos : 0 < modulus := Nat.lt_trans Nat.zero_lt_one one_lt_modulus

/-- What is reduced modulo `N` fits the field. -/
theorem fromLe_toLe32 {v : Nat} (h : v < modulus) : fromLe (toLe32 v) = v :=
  fromBytesLe_fixed (Nat.succ_pos 31) (Nat.lt_of_lt_of_le h modulus_le)

/-! ## The values on the wire -/

section Wire

variable (sha1 : Sha1) (username password : Text) (salt a b : Bytes fieldLen)

theorem fromLe_verifier : fromLe (verifier sha1 username password salt) =
    modpow g (privateKey sha1 username password salt) modulus :=
  fromLe_toLe32 (modpow_lt modulus_pos _ _)

theorem fromLe_clientPublic : fromLe (clientPublic a) = modpow g (exponent a) modulus :=
  fromLe_toLe32 (modpow_lt modulus_pos _ _)

theorem fromLe_serverPublic (v : Bytes fieldLen) : fromLe (serverPublic v b) =
    (fromLe v + modpow g (exponent b) modulus) % modulus :=
  fromLe_toLe32 (Nat.mod_lt _ modulus_pos)

/-- A power of a unit is no multiple of `N`, so the server's guard lets the client pass. -/
theorem clientPublic_ne_zero : fromLe (clientPublic a) % modulus ≠ 0 := by
  rw [fromLe_clientPublic, Nat.mod_eq_of_lt (modpow_lt modulus_pos _ _)]
  exact modpow_ne_zero coprime_g_modulus one_lt_modulus _

end Wire

/-! ## The shared secret -/

theorem cast_clientSecret (bigB x a u : Nat) :
    (clientSecret bigB x a u : ZMod modulus) =
      SecureRemotePassword.clientSecret (g : ZMod modulus) x a u bigB := by
  have hv : modpow g x modulus ≤ modulus + bigB :=
    Nat.le_trans (Nat.le_of_lt (modpow_lt modulus_pos g x)) (Nat.le_add_right _ _)
  rw [clientSecret, cast_modpow, ZMod.natCast_mod, Nat.cast_sub hv, Nat.cast_add, cast_modpow,
    ZMod.natCast_self, zero_add]
  rfl

theorem cast_serverSecret (bigA v b u : Nat) :
    (serverSecret bigA v b u : ZMod modulus) =
      SecureRemotePassword.serverSecret b u (v : ZMod modulus) bigA := by
  rw [serverSecret, cast_modpow, ZMod.natCast_mod, Nat.cast_mul, cast_modpow]
  rfl

/-- Two reduced numbers that agree modulo `N` are one. -/
theorem eq_of_cast_eq {s t : Nat} (hs : s < modulus) (ht : t < modulus)
    (h : (s : ZMod modulus) = t) : s = t := by
  rw [ZMod.natCast_eq_natCast_iff'] at h
  rwa [Nat.mod_eq_of_lt hs, Nat.mod_eq_of_lt ht] at h

theorem secrets_agree (sha1 : Sha1) (username password : Text) (salt a b : Bytes fieldLen)
    (u : Nat) :
    clientSecret (fromLe (serverPublic (verifier sha1 username password salt) b) % modulus)
        (privateKey sha1 username password salt) (exponent a) u =
      serverSecret (fromLe (clientPublic a) % modulus)
        (fromLe (verifier sha1 username password salt)) (exponent b) u := by
  refine eq_of_cast_eq (modpow_lt modulus_pos _ _) (modpow_lt modulus_pos _ _) ?_
  rw [cast_clientSecret, cast_serverSecret, fromLe_serverPublic, fromLe_clientPublic,
    fromLe_verifier]
  simp only [ZMod.natCast_mod, Nat.cast_add, cast_modpow]
  exact SecureRemotePassword.secrets_agree _ _ _ _ _

/-! ## The proofs -/

theorem upper_eq {s t : Text} (h : s.eqIgnoreAsciiCase t = true) : upper s = upper t :=
  Text.uppercase_asBytes_eq h

theorem clientProofFromKey_congr (sha1 : Sha1) {username username' : Text}
    (h : username'.eqIgnoreAsciiCase username = true) (salt A B : Bytes fieldLen)
    (key : Bytes keyLen) : clientProofFromKey sha1 username' salt A B key =
      clientProofFromKey sha1 username salt A B key := by
  unfold clientProofFromKey
  rw [upper_eq h]

theorem serverVerify_of_key (sha1 : Sha1) {username username' : Text}
    (hname : username'.eqIgnoreAsciiCase username = true) (salt v b A B : Bytes fieldLen)
    (hA : fromLe A % modulus ≠ 0) {key : Bytes keyLen}
    (hkey : key = sessionKey sha1 (toLe32 (serverSecret (fromLe A % modulus) (fromLe v)
      (exponent b) (scrambler sha1 B)))) :
    serverVerify sha1 username' salt v b A B (clientProofFromKey sha1 username salt A B key) =
      some (serverProofFromKey sha1 A (clientProofFromKey sha1 username salt A B key) key) := by
  unfold serverVerify
  simp only [if_neg hA, ← hkey, clientProofFromKey_congr sha1 hname]
  rw [if_pos (proofsMatch_iff.mpr rfl)]

theorem clientProof_of_ne_zero (sha1 : Sha1) (username password : Text) (salt a : Bytes fieldLen)
    {B : Bytes fieldLen} (hB : fromLe B % modulus ≠ 0) :
    clientProof sha1 username password salt a B =
      let key := sessionKey sha1 (toLe32 (clientSecret (fromLe B % modulus)
        (privateKey sha1 username password salt) (exponent a) (scrambler sha1 B)))
      some (clientProofFromKey sha1 username salt (clientPublic a) B key, key) := by
  unfold clientProof
  simp only [if_neg hB]
  rfl

/-- **Client and server agree.** Whatever SHA-1 is: unless the server's key vanishes modulo `N`,
the client computes a proof and a key, and the server accepts the proof under every spelling of
the name and answers from that key. -/
theorem client_and_server_agree (sha1 : Sha1) (username password : Text)
    (salt a b : Bytes fieldLen)
    (hB : fromLe (serverPublic (verifier sha1 username password salt) b) % modulus ≠ 0) :
    ∃ m1 key,
      clientProof sha1 username password salt a
        (serverPublic (verifier sha1 username password salt) b) = some (m1, key) ∧
      ∀ username' : Text, username'.eqIgnoreAsciiCase username = true →
        serverVerify sha1 username' salt (verifier sha1 username password salt) b
          (clientPublic a) (serverPublic (verifier sha1 username password salt) b) m1 =
            some (serverProofFromKey sha1 (clientPublic a) m1 key) := by
  refine ⟨_, _, clientProof_of_ne_zero sha1 username password salt a hB,
    fun username' hname => ?_⟩
  apply serverVerify_of_key sha1 hname
  · exact clientPublic_ne_zero a
  · rw [secrets_agree]

/-- The digests of one logon, told apart by the length of what is hashed. -/
def recordedSha1 : Sha1 := fun bytes =>
  copyToZeroed proofLen <| toBytesLe <|
    match bytes.length, bytes.head? with
    | 14, _ => 0x70796274bac6963adf91cc923e04e73f4b4d85b9
    | 52, _ => 0x395e620c90a3919c75ede2fdd52aaf8cd6b28d39
    | 32, _ => 0xaa6368018bfc30e93cc9d736303e8477c0b52c67
    | 16, some 0x2a => 0x8900c2f02f0c13c6f6cec5fcdf13c14ecb75572e
    | 16, _ => 0x41423ab0eb6ebfa96535738b4ec87ec5dddf70eb
    | 6, _ => 0xc065a6357e0fdea049b837181ee97aa786bd0298
    | 176, _ => 0x51d125a4389f72c9e1d80ece0752f492c49ad9a4
    | _, _ => 0x6f08ad2a25c33429ddf11d6f706df3fc3b9a07ba

def counting (start : Nat) : Bytes fieldLen := .ofFn fun i => .ofNat (start + i.val)

def tagbanVerifier : Bytes fieldLen :=
  verifier recordedSha1 "Tagban".toList "hunter2".toList (counting 0)

theorem client_and_server_agree_tagban :
    ∃ m1 key,
      clientProof recordedSha1 "Tagban".toList "hunter2".toList (counting 0) (counting 1)
        (serverPublic tagbanVerifier (counting 2)) = some (m1, key) ∧
      serverVerify recordedSha1 "TAGBAN".toList (counting 0) tagbanVerifier (counting 2)
        (clientPublic (counting 1)) (serverPublic tagbanVerifier (counting 2)) m1 =
          some (serverProofFromKey recordedSha1 (clientPublic (counting 1)) m1 key) := by
  have hname : Text.eqIgnoreAsciiCase "TAGBAN".toList "Tagban".toList = true := by decide +kernel
  have hB : fromLe (serverPublic tagbanVerifier (counting 2)) % modulus ≠ 0 := by decide +kernel
  unfold tagbanVerifier at hB ⊢
  obtain ⟨m1, key, hproof, hverify⟩ := client_and_server_agree recordedSha1 "Tagban".toList
    "hunter2".toList (counting 0) (counting 1) (counting 2) hB
  exact ⟨m1, key, hproof, hverify "TAGBAN".toList hname⟩

end CommandCenter.Crypto.Nls
