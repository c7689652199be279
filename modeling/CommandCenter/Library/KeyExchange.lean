import Mathlib.Data.ZMod.Basic
import Mathlib.Tactic.Ring

/-!
# Password-authenticated key exchange

The exchange of SRP with the verifier added to the server's key, over any commutative ring: a
client that knows the exponent `x` and a server that holds `g ^ x` arrive at one secret. Powers
modulo a number are computed by square and multiply.

* `modpow_eq`, `cast_modpow`: the computed power is the power.
* `SecureRemotePassword.secrets_agree`: both sides derive the same secret.
-/

namespace CommandCenter.Library

/-! ## Modular powers -/

/-- Square and multiply over the low `bits` bits of the exponent. -/
def powBits (modulus : Nat) : Nat → Nat → Nat → Nat
  | 0, _, _ => 1 % modulus
  | bits + 1, base, exponent =>
    let root := powBits modulus bits (base * base % modulus) (exponent / 2)
    if exponent % 2 = 1 then root * base % modulus else root

/-- `base ^ exponent % modulus`. -/
def modpow (base exponent modulus : Nat) : Nat :=
  powBits modulus (exponent.log2 + 1) base exponent

theorem powBits_eq {modulus bits base exponent : Nat} (h : exponent < 2 ^ bits) :
    powBits modulus bits base exponent = base ^ exponent % modulus := by
  induction bits generalizing base exponent with
  | zero =>
    have hzero : exponent = 0 := by omega
    rw [hzero, pow_zero, powBits]
  | succ bits ih =>
    have hhalf : exponent / 2 < 2 ^ bits := by omega
    have hroot : powBits modulus bits (base * base % modulus) (exponent / 2) =
        base ^ (2 * (exponent / 2)) % modulus := by
      rw [ih hhalf, ← Nat.pow_mod, pow_mul, pow_two]
    unfold powBits
    simp only [hroot]
    split
    · rename_i hodd
      rw [Nat.mod_mul_mod, ← pow_succ]
      congr 2
      omega
    · rename_i heven
      congr 2
      omega

theorem modpow_eq (base exponent modulus : Nat) :
    modpow base exponent modulus = base ^ exponent % modulus :=
  powBits_eq Nat.lt_log2_self

theorem cast_modpow (base exponent modulus : Nat) :
    (modpow base exponent modulus : ZMod modulus) = (base : ZMod modulus) ^ exponent := by
  rw [modpow_eq, ZMod.natCast_mod, Nat.cast_pow]

theorem modpow_lt {modulus : Nat} (h : 0 < modulus) (base exponent : Nat) :
    modpow base exponent modulus < modulus := by
  rw [modpow_eq]
  exact Nat.mod_lt _ h

/-- No power of a unit vanishes. -/
theorem modpow_ne_zero {base modulus : Nat} (hunit : Nat.Coprime base modulus)
    (hmod : 1 < modulus) (exponent : Nat) : modpow base exponent modulus ≠ 0 := by
  rw [modpow_eq]
  intro hzero
  have hdvd : modulus ∣ base ^ exponent := Nat.dvd_of_mod_eq_zero hzero
  have hone : modulus = 1 := Nat.Coprime.eq_one_of_dvd (hunit.pow_left exponent).symm hdvd
  omega

/-! ## The exchange -/

namespace SecureRemotePassword

variable {R : Type*} [CommRing R] (g : R) (x a b u : Nat)

/-- What the server stores for the private key `x`. -/
def verifier : R := g ^ x

/-- The client's public key for its ephemeral exponent. -/
def clientPublic : R := g ^ a

/-- The server's public key, blinded with the verifier. -/
def serverPublic : R := verifier g x + g ^ b

/-- The secret a client derives from the server's public key. -/
def clientSecret (serverKey : R) : R := (serverKey - verifier g x) ^ (a + u * x)

/-- The secret a server derives from a stored verifier and the client's public key. -/
def serverSecret (stored clientKey : R) : R := (clientKey * stored ^ u) ^ b

theorem secrets_agree :
    clientSecret g x a u (serverPublic g x b) =
      serverSecret b u (verifier g x) (clientPublic g a) := by
  calc clientSecret g x a u (serverPublic g x b)
      = (g ^ b) ^ (a + u * x) := by rw [clientSecret, serverPublic, add_sub_cancel_left]
    _ = (g ^ a * (g ^ x) ^ u) ^ b := by
        rw [← pow_mul, ← pow_mul, ← pow_add, ← pow_mul]
        congr 1
        ring

end SecureRemotePassword

end CommandCenter.Library
