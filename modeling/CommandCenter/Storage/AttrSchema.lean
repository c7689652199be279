import CommandCenter.Library.Ranking
import CommandCenter.Storage.Model

/-!
# Access control of attributes

`AttrSchema` of `crates/bnetcc-storage/src/attr.rs`. A schema is a list of rules for the segments
that keys start with, longest first, and the first rule that covers a key decides it. Credentials
have rules that no client passes.

* `AttrSchema.Decides`: what decides a key, whatever the list.
* `AttrSchema.decides_unique`: the longest of the rules that cover a key is one.
* `AttrSchema.decided`: the list decides so, and nothing of the credentials is seen through it.
-/

namespace CommandCenter.Storage

open Rust Library CommandCenter.Core

inductive Actor where
  | other
  | owner (account : AccountId)
  | internal
  | admin
  deriving DecidableEq

/-- The privilege a key requires. -/
inductive Level where
  | any
  | owner
  | internal
  deriving DecidableEq

/-- The actor satisfies the level for a record of the owner's. -/
def Level.permits : Level → Actor → AccountId → Bool
  | .any, _, _ => true
  | .owner, .internal, _ | .owner, .admin, _ => true
  | .owner, .owner account, id => account == id
  | .owner, .other, _ => false
  | .internal, .internal, _ => true
  | .internal, _, _ => false

/-- Read and write privilege for one key. -/
structure Acl where
  read : Level
  write : Level
  deriving DecidableEq

namespace Acl

def «public» : Acl := ⟨.any, .owner⟩

def «private» : Acl := ⟨.owner, .owner⟩

def serverPublic : Acl := ⟨.any, .internal⟩

def secret : Acl := ⟨.internal, .internal⟩

end Acl

/-! ## Well-known keys -/

namespace Keys

def passwordDigest : Text := "System\\Password Digest".toList

def srpSalt : Text := "System\\SRP Salt".toList

def srpVerifier : Text := "System\\SRP Verifier".toList

end Keys

/-- Maps keys to ACLs. -/
structure AttrSchema where
  rules : List (Text × Acl)
  fallback : Acl

namespace AttrSchema

def empty (fallback : Acl) : AttrSchema := ⟨[], fallback⟩

/-- Add or replace the rule for a prefix. -/
def set (s : AttrSchema) (path : Text) (acl : Acl) : AttrSchema where
  rules := rankBy (fun rule : Text × Acl => OrderDual.toDual (Text.len rule.1))
    (s.rules.filter (fun rule => rule.1 ≠ (AttrKey.new path).text) ++
      [((AttrKey.new path).text, acl)])
  fallback := s.fallback

/-- The key is the path or has it for its first segments. -/
def covers (path key : Text) : Bool := key == path || (path ++ ['\\']).isPrefixOf key

def acl (s : AttrSchema) (key : AttrKey) : Acl :=
  match s.rules.find? fun rule => covers rule.1 key.text with
  | some rule => rule.2
  | none => s.fallback

def canRead (s : AttrSchema) (key : AttrKey) (actor : Actor) (owner : AccountId) : Bool :=
  (s.acl key).read.permits actor owner

/-- Drop every entry the actor may not read. -/
def filterReadable (s : AttrSchema) (attrs : AttrMap) (actor : Actor) (owner : AccountId) :
    AttrMap :=
  Map.retain (fun key _ => s.canRead key actor owner) attrs

/-- The schema after some calls of `set`. -/
def setAll (s : AttrSchema) (calls : List (Text × Acl)) : AttrSchema :=
  calls.foldl (fun s call => s.set call.1 call.2) s

/-- What the default schema sets, in order. -/
def defaultRules : List (Text × Acl) :=
  [(Keys.passwordDigest, .secret), (Keys.srpSalt, .secret), (Keys.srpVerifier, .secret),
    ("System".toList, .serverPublic), ("Record".toList, .serverPublic),
    ("profile".toList, .public)]

def default : AttrSchema := (empty .private).setAll defaultRules

/-! ## What decides a key -/

/-- The ACL most recently set for a path. -/
def lastSet (calls : List (Text × Acl)) (path : Text) : Option Acl :=
  (calls.reverse.find? fun call => (AttrKey.new call.1).text = path).map Prod.snd

/-- The ACL of the longest path that covers the key, or else the fallback. -/
inductive Decides (fallback : Acl) (acls : Text → Option Acl) (key : Text) : Acl → Prop where
  | rule (path : Text) (acl : Acl) (hset : acls path = some acl) (hcovers : covers path key = true)
      (hlongest : ∀ other, acls other ≠ none → covers other key = true → other.len ≤ path.len) :
      Decides fallback acls key acl
  | fallback (hnone : ∀ path, acls path ≠ none → covers path key = false) :
      Decides fallback acls key fallback

theorem covers_iff {path key : Text} :
    covers path key = true ↔ key = path ∨ path ++ ['\\'] <+: key := by
  simp [covers]

theorem prefix_of_covers {path key : Text} (h : covers path key = true) : path <+: key := by
  rcases covers_iff.mp h with rfl | hsegment
  · exact List.prefix_refl key
  · exact (List.prefix_append path ['\\']).trans hsegment

/-- A beginning of a beginning that is as long is all of it. -/
theorem eq_of_prefix_of_len_le {s t : Text} (h : s <+: t) (hlen : t.len ≤ s.len) : s = t := by
  obtain ⟨rest, rfl⟩ := h
  have hrest := Text.length_le_len rest
  rw [Text.len_append] at hlen
  have hnil : rest = [] := List.eq_nil_of_length_eq_zero (by omega)
  rw [hnil, List.append_nil]

theorem eq_of_covers {path other key : Text} (h : covers path key = true)
    (hother : covers other key = true) (hlen : path.len = other.len) : path = other := by
  rcases List.prefix_or_prefix_of_prefix (prefix_of_covers h) (prefix_of_covers hother) with
    hpre | hpre
  · exact eq_of_prefix_of_len_le hpre hlen.ge
  · exact (eq_of_prefix_of_len_le hpre hlen.le).symm

theorem decides_unique {fallback : Acl} {acls : Text → Option Acl} {key : Text} {a b : Acl}
    (ha : Decides fallback acls key a) (hb : Decides fallback acls key b) : a = b := by
  cases ha with
  | rule path _ hset hcovers hlongest =>
    have hsome : acls path ≠ none := by simp [hset]
    cases hb with
    | rule other _ hset' hcovers' hlongest' =>
      have hsome' : acls other ≠ none := by simp [hset']
      have hlen := le_antisymm (hlongest' path hsome hcovers) (hlongest other hsome' hcovers')
      rw [eq_of_covers hcovers hcovers' hlen, hset'] at hset
      exact (Option.some.inj hset).symm
    | fallback hnone =>
      rw [hnone path hsome] at hcovers
      cases hcovers
  | fallback hnone =>
    cases hb with
    | rule other _ hset' hcovers' hlongest' =>
      have hsome' : acls other ≠ none := by simp [hset']
      rw [hnone other hsome'] at hcovers'
      cases hcovers'
    | fallback _ => rfl

/-! ## The list of rules -/

/-- The rules are those last set, longest first. -/
structure Represents (s : AttrSchema) (acls : Text → Option Acl) : Prop where
  mem : ∀ path acl, (path, acl) ∈ s.rules ↔ acls path = some acl
  sorted : s.rules.Pairwise fun a b => Text.len b.1 ≤ Text.len a.1

theorem lastSet_append (calls : List (Text × Acl)) (call : Text × Acl) (path : Text) :
    lastSet (calls ++ [call]) path =
      if (AttrKey.new call.1).text = path then some call.2 else lastSet calls path := by
  unfold lastSet
  rw [List.reverse_append, List.reverse_singleton, List.singleton_append, List.find?_cons]
  split
  · rename_i h
    rw [if_pos (of_decide_eq_true h)]
    rfl
  · rename_i h
    rw [if_neg (of_decide_eq_false h)]

theorem Represents.set {s : AttrSchema} {acls : Text → Option Acl} (h : s.Represents acls)
    (path : Text) (acl : Acl) :
    (s.set path acl).Represents fun other =>
      if (AttrKey.new path).text = other then some acl else acls other where
  mem other a := by
    rw [AttrSchema.set, (rankBy_perm _ _).mem_iff, List.mem_append, List.mem_filter, h.mem]
    by_cases hpath : (AttrKey.new path).text = other
    · rw [if_pos hpath]
      simp [hpath, eq_comm]
    · rw [if_neg hpath]
      simp [Ne.symm hpath]
  sorted := pairwise_rankBy (fun rule : Text × Acl => OrderDual.toDual (Text.len rule.1)) _

theorem represents_setAll (fallback : Acl) (calls : List (Text × Acl)) :
    ((empty fallback).setAll calls).Represents (lastSet calls) := by
  induction calls using List.reverseRecOn with
  | nil => exact ⟨fun _ _ => ⟨nofun, nofun⟩, List.Pairwise.nil⟩
  | append_singleton calls call ih =>
    have hset := ih.set call.1 call.2
    have hlast : lastSet (calls ++ [call]) = fun other =>
        if (AttrKey.new call.1).text = other then some call.2 else lastSet calls other :=
      funext (lastSet_append calls call)
    rw [setAll, List.foldl_append, hlast]
    exact hset

theorem fallback_setAll (s : AttrSchema) (calls : List (Text × Acl)) :
    (s.setAll calls).fallback = s.fallback := by
  induction calls generalizing s with
  | nil => rfl
  | cons call calls ih => exact ih (s.set call.1 call.2)

/-- The first rule that covers a key is the longest. -/
theorem Represents.decides {s : AttrSchema} {acls : Text → Option Acl} (h : s.Represents acls)
    (key : AttrKey) : Decides s.fallback acls key.text (s.acl key) := by
  unfold acl
  split
  · rename_i rule hfind
    have hcovered := List.find?_some hfind
    refine .rule rule.1 rule.2 ((h.mem _ _).mp (List.mem_of_find?_eq_some hfind))
      hcovered fun other hset hcovers => ?_
    obtain ⟨a, ha⟩ := Option.ne_none_iff_exists'.mp hset
    exact find?_pairwise (R := fun a b : Text × Acl => Text.len b.1 ≤ Text.len a.1)
      (fun _ => Nat.le_refl _) h.sorted hfind ((h.mem other a).mpr ha) hcovers
  · rename_i hfind
    refine .fallback fun path hset => ?_
    obtain ⟨a, ha⟩ := Option.ne_none_iff_exists'.mp hset
    exact Bool.eq_false_iff.mpr (List.find?_eq_none.mp hfind (path, a) ((h.mem path a).mpr ha))

theorem decides_setAll (fallback : Acl) (calls : List (Text × Acl)) (key : AttrKey) :
    Decides fallback (lastSet calls) key.text (((empty fallback).setAll calls).acl key) := by
  have hdecides := (represents_setAll fallback calls).decides key
  rw [fallback_setAll] at hdecides
  exact hdecides

/-! ## Credentials -/

/-- The keys that no client reads. -/
def credentials : List Text := [Keys.passwordDigest, Keys.srpSalt, Keys.srpVerifier]

/-- The key is one of the credentials' or below one. -/
def AtOrBelow (key : AttrKey) : Prop :=
  ∃ raw ∈ credentials, covers (AttrKey.new raw).text key.text = true

theorem exists_of_lastSet {calls : List (Text × Acl)} {path : Text} {acl : Acl}
    (h : lastSet calls path = some acl) :
    ∃ call ∈ calls, (AttrKey.new call.1).text = path ∧ call.2 = acl := by
  obtain ⟨call, hfind, hacl⟩ := Option.map_eq_some_iff.mp h
  have hpath := List.find?_some hfind
  exact ⟨call, List.mem_reverse.mp (List.mem_of_find?_eq_some hfind), of_decide_eq_true hpath,
    hacl⟩

/-- The rules of the default schema that are not for credentials are the shorter ones. -/
theorem default_rules_short : ∀ call ∈ defaultRules,
    call.2 = .secret ∨ (AttrKey.new call.1).text.len ≤ 7 := by
  decide

theorem credentials_long : ∀ raw ∈ credentials,
    7 < (AttrKey.new raw).text.len ∧ lastSet defaultRules (AttrKey.new raw).text ≠ none := by
  decide

theorem acl_credential {key : AttrKey} (h : AtOrBelow key) : default.acl key = .secret := by
  obtain ⟨raw, hraw, hcovers⟩ := h
  obtain ⟨hlong, hset⟩ := credentials_long raw hraw
  have hdecides := decides_setAll .private defaultRules key
  change Decides _ _ _ (default.acl key) at hdecides
  generalize default.acl key = a at hdecides
  cases hdecides with
  | rule path _ hpath _ hlongest =>
    obtain ⟨call, hcall, htext, hacl⟩ := exists_of_lastSet hpath
    have hlen := hlongest _ hset hcovers
    rcases default_rules_short call hcall with hsecret | hshort
    · exact hacl.symm.trans hsecret
    · rw [htext] at hshort
      omega
  | fallback hnone =>
    rw [hnone _ hset] at hcovers
    cases hcovers

theorem permits_secret {actor : Actor} (h : actor ≠ .internal) (owner : AccountId) :
    Level.internal.permits actor owner = false := by
  cases actor with
  | internal => exact absurd rfl h
  | other | owner _ | admin => rfl

theorem filterReadable_default {actor : Actor} (hactor : actor ≠ .internal) (owner : AccountId)
    {attrs attrs' : AttrMap}
    (hattrs : ∀ key, ¬ AtOrBelow key → attrs.lookup key = attrs'.lookup key) :
    default.filterReadable attrs actor owner = default.filterReadable attrs' actor owner := by
  apply Finmap.ext_lookup
  intro key
  rw [filterReadable, filterReadable, Map.lookup_retain, Map.lookup_retain]
  by_cases hkey : AtOrBelow key
  · have hhidden : default.canRead key actor owner = false := by
      rw [canRead, acl_credential hkey]
      exact permits_secret hactor owner
    rw [hhidden]
    simp
  · rw [hattrs key hkey]

/-- **The longest rule decides.** After any calls of `set` a key has the ACL most recently set for
the longest of the paths that cover it, or else the fallback. So the order of the calls does not
matter, but for those that set one path. In the default schema nobody but the server sees from
what is readable what stands at or below the credentials. -/
theorem decided (fallback : Acl) (calls : List (Text × Acl)) :
    (∀ key, Decides fallback (lastSet calls) key.text
      (((empty fallback).setAll calls).acl key)) ∧
    (∀ calls', lastSet calls' = lastSet calls → ∀ key,
      ((empty fallback).setAll calls').acl key = ((empty fallback).setAll calls).acl key) ∧
    ∀ actor, actor ≠ .internal → ∀ owner attrs attrs',
      (∀ key, ¬ AtOrBelow key → attrs.lookup key = attrs'.lookup key) →
      default.filterReadable attrs actor owner = default.filterReadable attrs' actor owner := by
  refine ⟨decides_setAll fallback calls, ?_, ?_⟩
  · intro calls' hlast key
    have hdecides := decides_setAll fallback calls' key
    rw [hlast] at hdecides
    exact decides_unique hdecides (decides_setAll fallback calls key)
  · intro actor hactor owner attrs attrs' hattrs
    exact filterReadable_default hactor owner hattrs

end AttrSchema

end CommandCenter.Storage
