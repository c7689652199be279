import CommandCenter.Core.Channel
import CommandCenter.Rust.Map

/-!
# The CD-key registry

`KeyRegistry` of `crates/bnetcc-core/src/limits.rs`. Times are milliseconds on the caller's
clock.

`Keyring` is a registry together with the successful claims that have not been released. A
claim is known by its serial number; the registry itself knows only keys and accounts. Its
step lets a session release only what it has claimed, and that once.
-/

namespace CommandCenter.Core

open Rust

/-- A stable fingerprint of one physical CD key. -/
structure KeyId where
  bytes : Vector UInt8 20
  deriving DecidableEq

inductive KeyVerdict where
  | ok
  | inUse (holder : AccountId)
  | banned
  deriving DecidableEq

structure KeyRegistry where
  active : Map KeyId AccountId
  cooling : Map KeyId (AccountId × Nat)
  banned : Finset KeyId
  cooldownMs : Nat

namespace KeyRegistry

def new (cooldownMs : Nat) : KeyRegistry := ⟨∅, ∅, ∅, cooldownMs⟩

/-- Ban a key network-wide. -/
def ban (r : KeyRegistry) (key : KeyId) : KeyRegistry :=
  { r with banned := insert key r.banned, active := r.active.erase key }

def unban (r : KeyRegistry) (key : KeyId) : Bool × KeyRegistry :=
  (decide (key ∈ r.banned), { r with banned := r.banned.erase key })

/-- Try to claim a key for a session. -/
def claim (r : KeyRegistry) (key : KeyId) (account : AccountId) (now : Nat) :
    KeyVerdict × KeyRegistry :=
  if key ∈ r.banned then (.banned, r)
  else
    match r.active.lookup key with
    | some holder => (.inUse holder, r)
    | none =>
      -- Stale cooldown entries expire here, whichever key is claimed.
      let cooling := Map.retain (fun _ entry => decide (now - entry.2 < r.cooldownMs)) r.cooling
      match (cooling.lookup key).filter fun entry => decide (now - entry.2 < r.cooldownMs) with
      | some (holder, _) => (.inUse holder, { r with cooling })
      | none =>
        (.ok, { r with cooling := cooling.erase key, active := r.active.insert key account })

/-- Release a key when its session ends, starting the cooldown. -/
def release (r : KeyRegistry) (key : KeyId) (now : Nat) : KeyRegistry :=
  match r.active.lookup key with
  | some holder =>
    { r with active := r.active.erase key, cooling := r.cooling.insert key (holder, now) }
  | none => r

end KeyRegistry

/-! ## Claims -/

/-- A successful claim that has not been released. -/
structure Claim where
  serial : Nat
  session : Nat
  key : KeyId
  /-- The key has been banned since the claim. -/
  banned : Bool
  deriving DecidableEq

/-- The claim once a key is banned. -/
def Claim.noteBan (key : KeyId) (x : Claim) : Claim :=
  { x with banned := x.banned || decide (x.key = key) }

/-- A registry and the claims that have not been released. -/
structure Keyring where
  registry : KeyRegistry
  claims : List Claim
  nextSerial : Nat

namespace Keyring

inductive Event where
  | claim (session : Nat) (key : KeyId) (account : AccountId) (now : Nat)
  | release (serial now : Nat)
  | ban (key : KeyId)
  | unban (key : KeyId)

def new (cooldownMs : Nat) : Keyring := ⟨.new cooldownMs, [], 0⟩

def find (s : Keyring) (serial : Nat) : Option Claim := s.claims.find? fun x => x.serial == serial

def step (s : Keyring) : Event → Keyring
  | .claim session key account now =>
    match s.registry.claim key account now with
    | (.ok, registry) =>
      ⟨registry, ⟨s.nextSerial, session, key, false⟩ :: s.claims, s.nextSerial + 1⟩
    | (_, registry) => { s with registry }
  | .release serial now =>
    match s.find serial with
    | some x => { s with registry := s.registry.release x.key now, claims := s.claims.erase x }
    | none => s
  | .ban key =>
    { s with registry := s.registry.ban key, claims := s.claims.map (Claim.noteBan key) }
  | .unban key => { s with registry := (s.registry.unban key).2 }

end Keyring

end CommandCenter.Core
