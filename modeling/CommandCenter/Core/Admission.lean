import CommandCenter.Core.Channel
import CommandCenter.Library.Tally
import CommandCenter.Proto.Frame

/-!
# Admission control

`AdmissionTable` of `crates/bnetcc-core/src/limits.rs`: the concurrent connections per client
class, address and account. The three maps are tallies; every counter is the `u32` of the
source.

`Traffic` is a table together with the connections that are live. Its step lets a caller use
the table as it must be used: a connection is admitted under an id that is not live,
reclassified from the class it holds, and released with the address and class it holds.
-/

namespace CommandCenter.Core

open Rust Library Proto

/-- `std::net::IpAddr`. -/
inductive IpAddr where
  | v4 (addr : UInt32)
  | v6 (addr : BitVec 128)
  deriving DecidableEq

/-- What kind of client a connection is. -/
inductive ClientClass where
  | gateway
  | bnftp
  | gamePending
  | game (product : FourCc)
  deriving DecidableEq

/-- The ceilings of one client class. -/
structure ConnLimits where
  perIp : UInt32
  perAccount : UInt32
  global : UInt32

/-- Why a connection was refused. -/
inductive Rejection where
  | perIp (limit : UInt32)
  | perAccount (limit : UInt32)
  | global (limit : UInt32)
  deriving DecidableEq

structure AdmissionTable where
  perIp : Tally (ClientClass × IpAddr)
  perAccount : Tally (ClientClass × AccountId)
  perClass : Tally ClientClass
  total : UInt32
  allowlist : List IpAddr

namespace AdmissionTable

def new : AdmissionTable := ⟨∅, ∅, ∅, 0, []⟩

def setAllowlist (t : AdmissionTable) (ips : List IpAddr) : AdmissionTable :=
  { t with allowlist := ips }

def ipCount (t : AdmissionTable) (client : ClientClass) (ip : IpAddr) : UInt32 :=
  t.perIp.count (client, ip)

def accountCount (t : AdmissionTable) (client : ClientClass) (account : AccountId) : UInt32 :=
  t.perAccount.count (client, account)

def classCount (t : AdmissionTable) (client : ClientClass) : UInt32 := t.perClass.count client

def wouldAdmit (t : AdmissionTable) (client : ClientClass) (ip : IpAddr) (limits : ConnLimits) :
    Except Rejection Unit :=
  if limits.global ≤ t.classCount client then .error (.global limits.global)
  else if ip ∉ t.allowlist ∧ limits.perIp ≤ t.ipCount client ip then
    .error (.perIp limits.perIp)
  else .ok ()

def add (t : AdmissionTable) (client : ClientClass) (ip : IpAddr) : AdmissionTable :=
  { t with
    perIp := t.perIp.increment (client, ip)
    perClass := t.perClass.increment client
    total := t.total + 1 }

def remove (t : AdmissionTable) (client : ClientClass) (ip : IpAddr) : AdmissionTable :=
  { t with
    perIp := t.perIp.decrement (client, ip)
    perClass := t.perClass.decrement client
    total := saturatingSub t.total 1 }

@[simp] theorem add_allowlist (t : AdmissionTable) (client : ClientClass) (ip : IpAddr) :
    (t.add client ip).allowlist = t.allowlist := rfl

@[simp] theorem remove_allowlist (t : AdmissionTable) (client : ClientClass) (ip : IpAddr) :
    (t.remove client ip).allowlist = t.allowlist := rfl

/-- Admit a connection, or explain why not. -/
def admitConnection (t : AdmissionTable) (client : ClientClass) (ip : IpAddr)
    (limits : ConnLimits) : Except Rejection Unit × AdmissionTable :=
  match t.wouldAdmit client ip limits with
  | .error rejection => (.error rejection, t)
  | .ok _ => (.ok (), t.add client ip)

/-- Release a connection previously admitted. -/
def release (t : AdmissionTable) (client : ClientClass) (ip : IpAddr) : AdmissionTable :=
  t.remove client ip

/-- Promote a connection from one class to another. On rejection it stays in its class. -/
def reclassify (t : AdmissionTable) (ip : IpAddr) (source target : ClientClass)
    (limits : ConnLimits) : Except Rejection Unit × AdmissionTable :=
  if source = target then (.ok (), t)
  else
    match t.wouldAdmit target ip limits with
    | .error rejection => (.error rejection, t)
    | .ok _ => (.ok (), (t.remove source ip).add target ip)

/-- Bind an authenticated account to a connection of this class. -/
def bindAccount (t : AdmissionTable) (client : ClientClass) (account : AccountId)
    (limits : ConnLimits) : Except Rejection Unit × AdmissionTable :=
  if limits.perAccount ≤ t.accountCount client account then
    (.error (.perAccount limits.perAccount), t)
  else (.ok (), { t with perAccount := t.perAccount.increment (client, account) })

def releaseAccount (t : AdmissionTable) (client : ClientClass) (account : AccountId) :
    AdmissionTable :=
  { t with perAccount := t.perAccount.decrement (client, account) }

/-- Number of `(class, address)` pairs currently tracked. -/
def trackedEntries (t : AdmissionTable) : Nat := t.perIp.keys.card

end AdmissionTable

/-! ## Live connections -/

structure Connection where
  id : Nat
  client : ClientClass
  ip : IpAddr
  deriving DecidableEq

/-- A table and the connections that are live. -/
structure Traffic where
  table : AdmissionTable
  live : List Connection

namespace Traffic

inductive Event where
  | admission (id : Nat) (client : ClientClass) (ip : IpAddr) (limits : ConnLimits)
  | reclassify (id : Nat) (target : ClientClass) (limits : ConnLimits)
  | release (id : Nat)
  | setAllowlist (ips : List IpAddr)
  | bindAccount (client : ClientClass) (account : AccountId) (limits : ConnLimits)
  | releaseAccount (client : ClientClass) (account : AccountId)

def new : Traffic := ⟨.new, []⟩

def find (s : Traffic) (id : Nat) : Option Connection := s.live.find? fun conn => conn.id == id

def step (s : Traffic) : Event → Traffic
  | .admission id client ip limits =>
    match s.find id, s.table.admitConnection client ip limits with
    | none, (.ok _, table) => ⟨table, ⟨id, client, ip⟩ :: s.live⟩
    | none, (.error _, table) => ⟨table, s.live⟩
    | some _, _ => s
  | .reclassify id target limits =>
    match s.find id with
    | none => s
    | some conn =>
      match s.table.reclassify conn.ip conn.client target limits with
      | (.ok _, table) => ⟨table, { conn with client := target } :: s.live.erase conn⟩
      | (.error _, table) => ⟨table, s.live⟩
  | .release id =>
    match s.find id with
    | none => s
    | some conn => ⟨s.table.release conn.client conn.ip, s.live.erase conn⟩
  | .setAllowlist ips => { s with table := s.table.setAllowlist ips }
  | .bindAccount client account limits =>
    { s with table := (s.table.bindAccount client account limits).2 }
  | .releaseAccount client account =>
    { s with table := s.table.releaseAccount client account }

end Traffic

end CommandCenter.Core
