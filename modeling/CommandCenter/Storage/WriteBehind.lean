import CommandCenter.Storage.Model

/-!
# Write-behind batching

`crates/bnetcc-storage/src/write_behind.rs`: attribute writes are buffered over a backend and
flushed in batches, everything else is written through. The two metrics are `u64` counters that
wrap in a release build. `flush_now` drains a `HashMap`, in the order of its argument `drain`.

`WriteBehind.Event` is a call of the storage trait, or one of the timer and the shutdown.
-/

namespace CommandCenter.Storage

open Rust CommandCenter.Core

/-- When to flush buffered attribute writes. -/
structure FlushPolicy where
  maxDirtyAccounts : Nat
  maxDirtyAttrs : Nat
  intervalMs : Nat

def FlushPolicy.default : FlushPolicy := ⟨256, 4096, 30000⟩

/-- Buffers attribute writes over a backend. -/
structure WriteBehind (B : Type) where
  backend : B
  dirty : Map AccountId AttrMap
  dirtyAttrs : Nat
  policy : FlushPolicy
  lastFlushMs : Nat
  flushes : UInt64
  batchedWrites : UInt64

namespace WriteBehind

variable {B : Type}

def new (backend : B) (policy : FlushPolicy) (nowMs : Nat) : WriteBehind B :=
  ⟨backend, ∅, 0, policy, nowMs, 0, 0⟩

/-- Run a call on the backend alone. -/
def through {α : Type} (s : WriteBehind B) (result : α × B) : α × WriteBehind B :=
  (result.1, { s with backend := result.2 })

/-- `dirty.values().map(len).sum()`. -/
def countDirty (dirty : Map AccountId AttrMap) : Nat :=
  (dirty.entries.map fun e => Map.len e.2).sum

section Storage

variable [Storage B]

/-- The local state of `flush_now` while it goes through what was pending. -/
structure Flushing (B : Type) where
  backend : B
  dirty : Map AccountId AttrMap
  firstErr : Option StorageError

/-- Write one account's attributes, or put them back so that the next attempt retries. -/
def Flushing.write (f : Flushing B) (pending : Σ _ : AccountId, AttrMap) : Flushing B :=
  match Storage.attrsPut f.backend pending.1 pending.2 with
  | (.ok (), backend) => { f with backend }
  | (.error e, backend) =>
    ⟨backend, f.dirty.extendAt pending.1 pending.2, f.firstErr.or (some e)⟩

def flushNow (s : WriteBehind B) (nowMs : Nat) (drain : Drain) : Result Unit × WriteBehind B :=
  let flushed := (drain.order s.dirty).foldl Flushing.write ⟨s.backend, ∅, none⟩
  let s : WriteBehind B :=
    { s with
      backend := flushed.backend
      dirty := flushed.dirty
      dirtyAttrs := countDirty flushed.dirty }
  match flushed.firstErr with
  | some e => (.error e, s)
  | none =>
    { s with lastFlushMs := nowMs, flushes := s.flushes + 1 }.through
      (Storage.flush s.backend drain)

/-- Whether the policy asks for a flush. -/
def due (s : WriteBehind B) (nowMs : Nat) : Bool :=
  s.policy.maxDirtyAccounts ≤ s.dirty.len || s.policy.maxDirtyAttrs ≤ s.dirtyAttrs ||
    s.policy.intervalMs ≤ nowMs - s.lastFlushMs

/-- Flush if the policy says it is due. -/
def tick (s : WriteBehind B) (nowMs : Nat) (drain : Drain) : Result Bool × WriteBehind B :=
  if s.dirty.isEmpty then (.ok false, { s with lastFlushMs := nowMs })
  else if s.due nowMs then
    match s.flushNow nowMs drain with
    | (.ok (), s) => (.ok true, s)
    | (.error e, s) => (.error e, s)
  else (.ok false, s)

def attrsGet (s : WriteBehind B) (account : AccountId) (keys : List AttrKey) :
    Result AttrMap × WriteBehind B :=
  match Storage.attrsGet s.backend account keys with
  | (.error e, backend) => (.error e, { s with backend })
  | (.ok out, backend) =>
    match s.dirty.lookup account with
    | some pending => (.ok (pending.pick out keys), { s with backend })
    | none => (.ok out, { s with backend })

def attrsAll (s : WriteBehind B) (account : AccountId) : Result AttrMap × WriteBehind B :=
  match Storage.attrsAll s.backend account with
  | (.error e, backend) => (.error e, { s with backend })
  | (.ok out, backend) =>
    match s.dirty.lookup account with
    | some pending => (.ok (out.extend pending), { s with backend })
    | none => (.ok out, { s with backend })

/-- Buffered. Visible immediately to readers, durable at the next flush. -/
def attrsPut (s : WriteBehind B) (account : AccountId) (attrs : AttrMap) :
    Result Unit × WriteBehind B :=
  if attrs.isEmpty then (.ok (), s)
  else
    let slot := (s.dirty.lookup account).getD ∅
    (.ok (),
      { s with
        dirty := s.dirty.extendAt account attrs
        dirtyAttrs := s.dirtyAttrs + (attrs.keys \ slot.keys).card
        batchedWrites := s.batchedWrites + .ofNat attrs.len })

/-- Write-through, dropping what is buffered for the account. -/
def deleteAccount (s : WriteBehind B) (account : AccountId) : Result Unit × WriteBehind B :=
  let s : WriteBehind B :=
    if account ∈ s.dirty then
      let dirty := s.dirty.erase account
      { s with dirty, dirtyAttrs := countDirty dirty }
    else s
  s.through (Storage.deleteAccount s.backend account)

def flush (s : WriteBehind B) (drain : Drain) : Result Unit × WriteBehind B :=
  s.flushNow s.lastFlushMs drain

instance : Storage (WriteBehind B) where
  accountByName s name := s.through (Storage.accountByName s.backend name)
  accountById s account := s.through (Storage.accountById s.backend account)
  createAccount s req := s.through (Storage.createAccount s.backend req)
  setCredential s account credential :=
    s.through (Storage.setCredential s.backend account credential)
  attrsGet := attrsGet
  attrsAll := attrsAll
  attrsPut := attrsPut
  banPut s ban := s.through (Storage.banPut s.backend ban)
  banGet s account now := s.through (Storage.banGet s.backend account now)
  banClear s account scope := s.through (Storage.banClear s.backend account scope)
  accountCount s := s.through (Storage.accountCount s.backend)
  listAccounts s offset limit := s.through (Storage.listAccounts s.backend offset limit)
  deleteAccount := deleteAccount
  characters s account := s.through (Storage.characters s.backend account)
  characterByName s name := s.through (Storage.characterByName s.backend name)
  createCharacter s character := s.through (Storage.createCharacter s.backend character)
  updateCharacter s character := s.through (Storage.updateCharacter s.backend character)
  deleteCharacter s account name := s.through (Storage.deleteCharacter s.backend account name)
  flush := flush

/-- A call of the trait, a tick of the timer, or a flush on demand. -/
inductive Event where
  | call (c : Call)
  | tick (nowMs : Nat) (drain : Drain)
  | flushNow (nowMs : Nat) (drain : Drain)

def Event.call? : Event → Option Call
  | call c => some c
  | tick _ _ | flushNow _ _ => none

/-- Run one event; a call is answered. -/
def handle (s : WriteBehind B) : Event → Option Reply × WriteBehind B
  | .call c => (answer s c).map some id
  | .tick nowMs drain => (none, (s.tick nowMs drain).2)
  | .flushNow nowMs drain => (none, (s.flushNow nowMs drain).2)

end Storage

/-- The attributes of an account with a location. -/
def location (place : Text) : AttrMap :=
  Finmap.singleton (AttrKey.new "profile/location".toList) place

end WriteBehind

end CommandCenter.Storage
