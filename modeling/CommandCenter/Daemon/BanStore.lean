import CommandCenter.Core.IpText
import CommandCenter.Library.Expiry

/-!
# The ban store

`BanStore` of `crates/bnetccd/src/moderation.rs`: banned parts of names, banned addresses and muted
accounts, with a flag for each that says whether there are any, and a file to start again from.
The bans of addresses and the mutes expire, and every call that changes one drops what has expired.

The serialiser and the deserialiser of the file are parameters, and the file is the one the store
wrote last.

* `BanStore.Represents`: what the store and its file hold of the calls.
* `BanStore.Answers`: what a history of calls has the store answer.
* `BanStore.answers_by_history`: the store answers so, and so does one that is loaded.
-/

namespace CommandCenter.Daemon

open Rust CommandCenter.Core Library

structure Persisted where
  tags : List Text
  ipBans : Map Text Nat
  mutes : Map Text Nat

structure BanStore where
  path : Option Text
  inner : Persisted
  hasTags : Bool
  hasIpBans : Bool
  hasMutes : Bool
  file : Option (List UInt8)

/-- A point-in-time view of the active bans. -/
structure BanSnapshot where
  tags : List Text
  ipBans : List (Text × Nat)
  mutes : List (Text × Nat)

namespace Persisted

/-- `Persisted::default`. -/
def empty : Persisted := ⟨[], ∅, ∅⟩

/-- Drop expired bans of addresses and mutes. -/
def prune (p : Persisted) (nowMs : Nat) : Persisted where
  tags := p.tags
  ipBans := p.ipBans.retain fun _ exp => nowMs < exp
  mutes := p.mutes.retain fun _ exp => nowMs < exp

end Persisted

namespace BanStore

def refreshFlags (s : BanStore) : BanStore :=
  { s with
    hasTags := !s.inner.tags.isEmpty
    hasIpBans := !s.inner.ipBans.isEmpty
    hasMutes := !s.inner.mutes.isEmpty }

/-- Load from the file, or start empty if there is none or it is malformed. -/
def load (fromSlice : List UInt8 → Option Persisted) (path : Option Text)
    (file : Option (List UInt8)) : BanStore :=
  let inner := match path with
    | some _ => (file.bind fromSlice).getD .empty
    | none => .empty
  refreshFlags ⟨path, inner, false, false, false, file⟩

section Mutators

variable (toVecPretty : Persisted → List UInt8)

def write (s : BanStore) : BanStore :=
  match s.path with
  | some _ => { s with file := some (toVecPretty s.inner) }
  | none => s

/-- What every mutator ends with. -/
def commit (s : BanStore) (inner : Persisted) : BanStore :=
  write toVecPretty (refreshFlags { s with inner := inner })

def folded (substring : Text) : Text := substring.trim.toAsciiLowercase

/-- Add a part of names to the list. An empty one is rejected: it would match everyone. -/
def addTag (s : BanStore) (substring : Text) : Bool × BanStore :=
  let sub := folded substring
  if sub = [] then (false, s)
  else if s.inner.tags.contains sub then (false, s)
  else (true, commit toVecPretty s { s.inner with tags := s.inner.tags ++ [sub] })

def removeTag (s : BanStore) (substring : Text) : Bool × BanStore :=
  let tags := s.inner.tags.filter (· ≠ folded substring)
  if tags.length ≠ s.inner.tags.length then
    (true, commit toVecPretty s { s.inner with tags := tags })
  else (false, s)

/-- Ban an address until a time. -/
def banIp (s : BanStore) (ip : IpAddr) (expiryMs nowMs : Nat) : BanStore :=
  let g := s.inner.prune nowMs
  commit toVecPretty s { g with ipBans := g.ipBans.insert ip.toText expiryMs }

def unbanIp (s : BanStore) (ip : IpAddr) (nowMs : Nat) : Bool × BanStore :=
  let g := s.inner.prune nowMs
  ((g.ipBans.lookup ip.toText).isSome,
    commit toVecPretty s { g with ipBans := g.ipBans.erase ip.toText })

/-- Mute an account until a time. -/
def mute (s : BanStore) (name : Text) (expiryMs nowMs : Nat) : BanStore :=
  let g := s.inner.prune nowMs
  commit toVecPretty s { g with mutes := g.mutes.insert name.toAsciiLowercase expiryMs }

def unmute (s : BanStore) (name : Text) (nowMs : Nat) : Bool × BanStore :=
  let g := s.inner.prune nowMs
  ((g.mutes.lookup name.toAsciiLowercase).isSome,
    commit toVecPretty s { g with mutes := g.mutes.erase name.toAsciiLowercase })

inductive Call where
  | addTag (substring : Text)
  | removeTag (substring : Text)
  | banIp (ip : IpAddr) (expiryMs nowMs : Nat)
  | unbanIp (ip : IpAddr) (nowMs : Nat)
  | mute (name : Text) (expiryMs nowMs : Nat)
  | unmute (name : Text) (nowMs : Nat)

def step (s : BanStore) : Call → BanStore
  | .addTag substring => (s.addTag toVecPretty substring).2
  | .removeTag substring => (s.removeTag toVecPretty substring).2
  | .banIp ip expiryMs nowMs => s.banIp toVecPretty ip expiryMs nowMs
  | .unbanIp ip nowMs => (s.unbanIp toVecPretty ip nowMs).2
  | .mute name expiryMs nowMs => s.mute toVecPretty name expiryMs nowMs
  | .unmute name nowMs => (s.unmute toVecPretty name nowMs).2

end Mutators

/-- The name contains a banned part. -/
def isTagBanned (s : BanStore) (name : Text) : Bool :=
  if s.hasTags then s.inner.tags.any fun tag => decide (tag <:+: name.toAsciiLowercase) else false

/-- The address is banned at the time. -/
def isIpBanned (s : BanStore) (ip : IpAddr) (nowMs : Nat) : Bool :=
  if s.hasIpBans then (s.inner.ipBans.lookup ip.toText).any fun exp => nowMs < exp else false

/-- The account is muted at the time. -/
def isMuted (s : BanStore) (name : Text) (nowMs : Nat) : Bool :=
  if s.hasMutes then (s.inner.mutes.lookup name.toAsciiLowercase).any fun exp => nowMs < exp
  else false

/-- Every ban that is still active. -/
def snapshot (walk : Map.Walk Text Nat) (s : BanStore) (nowMs : Nat) : BanSnapshot where
  tags := s.inner.tags
  ipBans := ((walk.order s.inner.ipBans).filter fun e => nowMs < e.2).map fun e => (e.1, e.2)
  mutes := ((walk.order s.inner.mutes).filter fun e => nowMs < e.2).map fun e => (e.1, e.2)

/-! ## Histories -/

def Call.time : Call → Option Nat
  | .addTag _ | .removeTag _ => none
  | .banIp _ _ nowMs | .unbanIp _ nowMs | .mute _ _ nowMs | .unmute _ nowMs => some nowMs

/-- The address that a call bans until a time or unbans. -/
def Call.setsIp : Call → Option (IpAddr × Option Nat)
  | .banIp ip expiryMs _ => some (ip, some expiryMs)
  | .unbanIp ip _ => some (ip, none)
  | .addTag _ | .removeTag _ | .mute _ _ _ | .unmute _ _ => none

/-- The account, in lower case, that a call mutes until a time or unmutes. -/
def Call.setsMute : Call → Option (Text × Option Nat)
  | .mute name expiryMs _ => some (name.toAsciiLowercase, some expiryMs)
  | .unmute name _ => some (name.toAsciiLowercase, none)
  | .addTag _ | .removeTag _ | .banIp _ _ _ | .unbanIp _ _ => none

/-- The part of names has been added and not removed since. -/
def Tagged (tag : Text) : List Call → Prop
  | [] => False
  | .addTag substring :: past => (folded substring = tag ∧ tag ≠ []) ∨ Tagged tag past
  | .removeTag substring :: past => folded substring ≠ tag ∧ Tagged tag past
  | .banIp _ _ _ :: past | .unbanIp _ _ :: past | .mute _ _ _ :: past | .unmute _ _ :: past =>
    Tagged tag past

/-- What the store answers at a time after a history, the latest call first. -/
structure Answers (s : BanStore) (past : List Call) (t : Nat) : Prop where
  isIpBanned : ∀ ip, s.isIpBanned ip t = true ↔
    ∃ exp, latestSet Call.setsIp past ip = some exp ∧ t < exp
  isMuted : ∀ name, s.isMuted name t = true ↔
    ∃ exp, latestSet Call.setsMute past name.toAsciiLowercase = some exp ∧ t < exp
  isTagBanned : ∀ name, s.isTagBanned name = true ↔
    ∃ tag, Tagged tag past ∧ tag <:+: name.toAsciiLowercase
  tags : ∀ walk tag, tag ∈ (s.snapshot walk t).tags ↔ Tagged tag past
  ipBans : ∀ walk key exp, (key, exp) ∈ (s.snapshot walk t).ipBans ↔
    ∃ ip : IpAddr, ip.toText = key ∧ latestSet Call.setsIp past ip = some exp ∧ t < exp
  mutes : ∀ walk key exp, (key, exp) ∈ (s.snapshot walk t).mutes ↔
    latestSet Call.setsMute past key = some exp ∧ t < exp
  nodup : ∀ walk, (s.snapshot walk t).tags.Nodup ∧ (s.snapshot walk t).ipBans.Nodup ∧
    (s.snapshot walk t).mutes.Nodup

/-! ## What the store holds -/

def Call.setsText : Call → Option (Text × Option Nat) := named IpAddr.toText Call.setsIp

structure Flagged (s : BanStore) : Prop where
  hasTags : s.hasTags = !s.inner.tags.isEmpty
  hasIpBans : s.hasIpBans = !s.inner.ipBans.isEmpty
  hasMutes : s.hasMutes = !s.inner.mutes.isEmpty

/-- What is there represents a history up to the time `t`. -/
structure Represents (p : Persisted) (past : List Call) (t : Nat) : Prop where
  tags : ∀ tag, tag ∈ p.tags ↔ Tagged tag past
  nodup : p.tags.Nodup
  ipBans : Current p.ipBans (latestSet Call.setsText past) t
  mutes : Current p.mutes (latestSet Call.setsMute past) t

def Filed (toVecPretty : Persisted → List UInt8) (s : BanStore) : Prop :=
  s.path ≠ none → (s.file = none ∧ s.inner = .empty) ∨ s.file = some (toVecPretty s.inner)

theorem map_isEmpty_lookup {m : Map Text Nat} (h : m.isEmpty = true) (key : Text) :
    m.lookup key = none := by
  rw [Map.isEmpty_iff.mp h, Finmap.lookup_empty]

theorem Flagged.isTagBanned {s : BanStore} (h : s.Flagged) (name : Text) :
    s.isTagBanned name = s.inner.tags.any fun tag => decide (tag <:+: name.toAsciiLowercase) := by
  unfold BanStore.isTagBanned
  rw [h.hasTags]
  split
  · rfl
  · rename_i hempty
    have hnil : s.inner.tags = [] := by simpa using hempty
    rw [hnil]
    rfl

theorem Flagged.isIpBanned {s : BanStore} (h : s.Flagged) (ip : IpAddr) (t : Nat) :
    s.isIpBanned ip t = (s.inner.ipBans.lookup ip.toText).any fun exp => decide (t < exp) := by
  unfold BanStore.isIpBanned
  rw [h.hasIpBans]
  split
  · rfl
  · rename_i hempty
    rw [map_isEmpty_lookup (by simpa using hempty)]
    rfl

theorem Flagged.isMuted {s : BanStore} (h : s.Flagged) (name : Text) (t : Nat) :
    s.isMuted name t =
      (s.inner.mutes.lookup name.toAsciiLowercase).any fun exp => decide (t < exp) := by
  unfold BanStore.isMuted
  rw [h.hasMutes]
  split
  · rfl
  · rename_i hempty
    rw [map_isEmpty_lookup (by simpa using hempty)]
    rfl

theorem mem_active (walk : Map.Walk Text Nat) (m : Map Text Nat) (t : Nat) (key : Text)
    (exp : Nat) : (key, exp) ∈ ((walk.order m).filter fun e => t < e.2).map (fun e => (e.1, e.2)) ↔
      m.lookup key = some exp ∧ t < exp := by
  rw [List.mem_map]
  constructor
  · rintro ⟨e, he, hpair⟩
    obtain ⟨hmem, hlt⟩ := List.mem_filter.mp he
    obtain ⟨rfl, rfl⟩ := Prod.mk.inj hpair
    exact ⟨walk.mem_order.mp hmem, of_decide_eq_true hlt⟩
  · rintro ⟨hlookup, hlt⟩
    exact ⟨⟨key, exp⟩, List.mem_filter.mpr ⟨walk.mem_order.mpr hlookup, decide_eq_true hlt⟩, rfl⟩

theorem nodup_active (walk : Map.Walk Text Nat) (m : Map Text Nat) (t : Nat) :
    (((walk.order m).filter fun e => t < e.2).map fun e => (e.1, e.2)).Nodup := by
  have hkeys : ((walk.order m).map Sigma.fst).Nodup := walk.nodupKeys m
  have hnodup : ((walk.order m).filter fun e => t < e.2).Nodup :=
    (List.Nodup.of_map Sigma.fst hkeys).filter _
  refine hnodup.map fun a b hab => ?_
  obtain ⟨hkey, hexp⟩ := Prod.mk.inj hab
  exact Sigma.ext hkey (heq_of_eq hexp)

theorem Represents.answers {s : BanStore} {past : List Call} {t : Nat}
    (h : Represents s.inner past t) (hflags : s.Flagged) : s.Answers past t where
  isIpBanned ip := by
    rw [hflags.isIpBanned, h.ipBans.live_iff]
    simp only [Call.setsText, latestSet_map IpAddr.toText_injective]
  isMuted name := by
    rw [hflags.isMuted, h.mutes.live_iff]
  isTagBanned name := by
    rw [hflags.isTagBanned, List.any_eq_true]
    simp only [h.tags, decide_eq_true_eq]
  tags _ tag := h.tags tag
  ipBans walk key exp := by
    rw [snapshot, mem_active, h.ipBans.lookup_iff, Call.setsText,
      exists_latestSet_map IpAddr.toText_injective]
    constructor
    · rintro ⟨⟨ip, hkey, hset⟩, hlt⟩
      exact ⟨ip, hkey, hset, hlt⟩
    · rintro ⟨ip, hkey, hset, hlt⟩
      exact ⟨⟨ip, hkey, hset⟩, hlt⟩
  mutes walk key exp := by
    rw [snapshot, mem_active, h.mutes.lookup_iff]
  nodup walk := ⟨h.nodup, nodup_active walk _ t, nodup_active walk _ t⟩

/-! ## Calls -/

theorem Represents.later {p : Persisted} {past : List Call} {t t' : Nat}
    (h : Represents p past t) (ht : t ≤ t') : Represents p past t' :=
  { h with
    ipBans := h.ipBans.later ht
    mutes := h.mutes.later ht }

theorem Represents.prune {p : Persisted} {past : List Call} {t : Nat} (h : Represents p past t) :
    Represents (p.prune t) past t :=
  { h with
    ipBans := h.ipBans.prune
    mutes := h.mutes.prune }

theorem represents_empty : Represents .empty [] 0 where
  tags _ := iff_of_false List.not_mem_nil id
  nodup := List.nodup_nil
  ipBans := current_empty 0
  mutes := current_empty 0

section Calls

variable {p : Persisted} {past : List Call} {t : Nat} (h : Represents p past t)

include h

theorem Represents.banIp (ip : IpAddr) (expiryMs nowMs : Nat) :
    Represents { p with ipBans := p.ipBans.insert ip.toText expiryMs }
      (.banIp ip expiryMs nowMs :: past) t where
  tags := h.tags
  nodup := h.nodup
  ipBans := h.ipBans.set rfl
  mutes := h.mutes.skip rfl

theorem Represents.unbanIp (ip : IpAddr) (nowMs : Nat) :
    Represents { p with ipBans := p.ipBans.erase ip.toText } (.unbanIp ip nowMs :: past) t where
  tags := h.tags
  nodup := h.nodup
  ipBans := h.ipBans.clear rfl
  mutes := h.mutes.skip rfl

theorem Represents.mute (name : Text) (expiryMs nowMs : Nat) :
    Represents { p with mutes := p.mutes.insert name.toAsciiLowercase expiryMs }
      (.mute name expiryMs nowMs :: past) t where
  tags := h.tags
  nodup := h.nodup
  ipBans := h.ipBans.skip rfl
  mutes := h.mutes.set rfl

theorem Represents.unmute (name : Text) (nowMs : Nat) :
    Represents { p with mutes := p.mutes.erase name.toAsciiLowercase }
      (.unmute name nowMs :: past) t where
  tags := h.tags
  nodup := h.nodup
  ipBans := h.ipBans.skip rfl
  mutes := h.mutes.clear rfl

theorem Represents.addTag_kept {substring : Text}
    (hkept : folded substring = [] ∨ folded substring ∈ p.tags) :
    Represents p (.addTag substring :: past) t where
  tags tag := by
    rw [h.tags, Tagged]
    refine ⟨Or.inr, fun hadded => ?_⟩
    rcases hadded with ⟨rfl, hne⟩ | hbefore
    · rcases hkept with hempty | hmem
      · exact absurd hempty hne
      · exact (h.tags _).mp hmem
    · exact hbefore
  nodup := h.nodup
  ipBans := h.ipBans.skip rfl
  mutes := h.mutes.skip rfl

theorem Represents.addTag {substring : Text} (hne : folded substring ≠ [])
    (hnew : folded substring ∉ p.tags) :
    Represents { p with tags := p.tags ++ [folded substring] } (.addTag substring :: past) t where
  tags tag := by
    rw [List.mem_append, List.mem_singleton, h.tags, Tagged]
    constructor
    · rintro (hbefore | rfl)
      · exact .inr hbefore
      · exact .inl ⟨rfl, hne⟩
    · rintro (⟨rfl, -⟩ | hbefore)
      · exact .inr rfl
      · exact .inl hbefore
  nodup := by
    rw [← List.concat_eq_append]
    exact h.nodup.concat hnew
  ipBans := h.ipBans.skip rfl
  mutes := h.mutes.skip rfl

theorem Represents.removeTag (substring : Text) :
    Represents { p with tags := p.tags.filter (· ≠ folded substring) }
      (.removeTag substring :: past) t where
  tags tag := by
    rw [List.mem_filter, h.tags, Tagged, decide_eq_true_iff, and_comm, ne_comm]
  nodup := h.nodup.filter _
  ipBans := h.ipBans.skip rfl
  mutes := h.mutes.skip rfl

end Calls

section Runs

variable {toVecPretty : Persisted → List UInt8} {s : BanStore} {past : List Call} {t : Nat}

/-- The store is in order: it represents the history, and its flags and its file are right. -/
structure Sound (toVecPretty : Persisted → List UInt8) (s : BanStore) (past : List Call)
    (t : Nat) : Prop where
  inner : Represents s.inner past t
  flags : s.Flagged
  file : s.Filed toVecPretty

theorem inner_commit (s : BanStore) (p : Persisted) : (s.commit toVecPretty p).inner = p := by
  unfold commit write
  split
  · rfl
  · rfl

theorem path_commit (s : BanStore) (p : Persisted) : (s.commit toVecPretty p).path = s.path := by
  unfold commit write
  split
  · rfl
  · rfl

theorem sound_commit {p : Persisted} (h : Represents p past t) :
    Sound toVecPretty (s.commit toVecPretty p) past t where
  inner := by
    rw [inner_commit]
    exact h
  flags := by
    unfold commit write
    split
    · exact ⟨rfl, rfl, rfl⟩
    · exact ⟨rfl, rfl, rfl⟩
  file hpath := by
    rw [inner_commit]
    rw [path_commit] at hpath
    obtain ⟨path, hpath⟩ := Option.ne_none_iff_exists'.mp hpath
    refine .inr ?_
    unfold commit write
    split
    · rfl
    · rename_i hnone
      cases hpath.symm.trans hnone

def Call.clock (t : Nat) (call : Call) : Nat := call.time.getD t

theorem Sound.step (h : Sound toVecPretty s past t) (call : Call) (ht : t ≤ call.clock t) :
    Sound toVecPretty (s.step toVecPretty call) (call :: past) (call.clock t) := by
  have hpruned := (h.inner.later ht).prune
  cases call with
  | banIp ip expiryMs nowMs => exact sound_commit (hpruned.banIp ip expiryMs nowMs)
  | unbanIp ip nowMs => exact sound_commit (hpruned.unbanIp ip nowMs)
  | mute name expiryMs nowMs => exact sound_commit (hpruned.mute name expiryMs nowMs)
  | unmute name nowMs => exact sound_commit (hpruned.unmute name nowMs)
  | addTag substring =>
    change Sound toVecPretty (s.addTag toVecPretty substring).2 _ t
    unfold BanStore.addTag
    dsimp only
    split
    · rename_i hempty
      exact ⟨h.inner.addTag_kept (.inl hempty), h.flags, h.file⟩
    · rename_i hne
      split
      · rename_i hmem
        exact ⟨h.inner.addTag_kept (.inr (List.contains_iff_mem.mp hmem)), h.flags, h.file⟩
      · rename_i hnew
        exact sound_commit (h.inner.addTag hne (mt List.contains_iff_mem.mpr hnew))
  | removeTag substring =>
    change Sound toVecPretty (s.removeTag toVecPretty substring).2 _ t
    have hremoved := h.inner.removeTag substring
    unfold BanStore.removeTag
    dsimp only
    split
    · exact sound_commit hremoved
    · rename_i hsame
      have hkept : s.inner.tags.filter (· ≠ folded substring) = s.inner.tags :=
        List.filter_sublist.eq_of_length (not_not.mp hsame)
      rw [hkept] at hremoved
      exact ⟨hremoved, h.flags, h.file⟩

theorem sound_load (toVecPretty : Persisted → List UInt8)
    (fromSlice : List UInt8 → Option Persisted) (path : Option Text) :
    Sound toVecPretty (load fromSlice path none) [] 0 where
  inner := by
    unfold load
    split
    · exact represents_empty
    · exact represents_empty
  flags := ⟨rfl, rfl, rfl⟩
  file _ := by
    refine .inl ⟨rfl, ?_⟩
    unfold load
    split
    · rfl
    · rfl

theorem path_step (s : BanStore) (call : Call) : (s.step toVecPretty call).path = s.path := by
  cases call with
  | banIp | unbanIp | mute | unmute => exact path_commit _ _
  | addTag substring =>
    change (s.addTag toVecPretty substring).2.path = s.path
    unfold addTag
    dsimp only
    split
    · rfl
    · split
      · rfl
      · exact path_commit _ _
  | removeTag substring =>
    change (s.removeTag toVecPretty substring).2.path = s.path
    unfold removeTag
    dsimp only
    split
    · exact path_commit _ _
    · rfl

theorem path_run (s : BanStore) (calls : List Call) :
    (run (step toVecPretty) s calls).path = s.path := by
  induction calls generalizing s with
  | nil => rfl
  | cons call calls ih => exact (ih (s.step toVecPretty call)).trans (path_step s call)

theorem Sound.later (h : Sound toVecPretty s past t) {t' : Nat} (ht : t ≤ t') :
    Sound toVecPretty s past t' :=
  { h with inner := h.inner.later ht }

theorem Sound.run (h : Sound toVecPretty s past t) (calls : List Call) (now : Nat)
    (hordered : (t :: (calls.flatMap (fun call => call.time.toList) ++ [now])).Pairwise (· ≤ ·)) :
    Sound toVecPretty (Library.run (BanStore.step toVecPretty) s calls) (calls.reverse ++ past)
      now := by
  induction calls generalizing s past t with
  | nil =>
    have hle : t ≤ now := (List.pairwise_cons.mp hordered).1 now List.mem_cons_self
    exact h.later hle
  | cons call calls ih =>
    rw [List.flatMap_cons, List.append_assoc] at hordered
    obtain ⟨hle, hrest⟩ := pairwise_clock hordered
    have hrun := ih (h.step call hle) hrest
    rw [List.reverse_cons, List.append_assoc]
    exact hrun

theorem Sound.load (h : Sound toVecPretty s past t) {fromSlice : List UInt8 → Option Persisted}
    (hround : fromSlice (toVecPretty s.inner) = some s.inner) (hpath : s.path ≠ none) :
    (BanStore.load fromSlice s.path s.file).inner = s.inner := by
  obtain ⟨path, hsome⟩ := Option.ne_none_iff_exists'.mp hpath
  rw [hsome]
  change (s.file.bind fromSlice).getD .empty = s.inner
  rcases h.file hpath with ⟨hnone, hempty⟩ | hfile
  · rw [hnone, hempty]
    rfl
  · rw [hfile, Option.bind_some, hround]
    rfl

end Runs

/-- **The ban store answers by its history.** After any calls at times that do not decrease, an
address is banned exactly if the call that was last to ban or unban it banned it until later, and
an account is muted exactly if this holds of its mutes, whatever the case of its letters. A name is
banned exactly if it contains a part that was added and not removed since. The snapshot lists these
and nothing else. A store that is loaded from the file answers the same, if the file reads back. -/
theorem answers_by_history (toVecPretty : Persisted → List UInt8)
    (fromSlice : List UInt8 → Option Persisted) (path : Option Text) (calls : List Call) (t : Nat)
    (hordered : (calls.flatMap (fun call => call.time.toList) ++ [t]).Pairwise (· ≤ ·))
    (hround : fromSlice (toVecPretty
        (run (step toVecPretty) (load fromSlice path none) calls).inner) =
      some (run (step toVecPretty) (load fromSlice path none) calls).inner) :
    (run (step toVecPretty) (load fromSlice path none) calls).Answers calls.reverse t ∧
      (path ≠ none →
        (load fromSlice path (run (step toVecPretty) (load fromSlice path none) calls).file).Answers
          calls.reverse t) := by
  have hstart : (0 :: (calls.flatMap (fun call => call.time.toList) ++ [t])).Pairwise (· ≤ ·) :=
    List.pairwise_cons.mpr ⟨fun _ _ => Nat.zero_le _, hordered⟩
  have hrun := (sound_load toVecPretty fromSlice path).run calls t hstart
  rw [List.append_nil] at hrun
  refine ⟨hrun.inner.answers hrun.flags, fun hpath => ?_⟩
  have hkept : (run (step toVecPretty) (load fromSlice path none) calls).path = path :=
    path_run _ _
  have hload := hrun.load hround (by rwa [hkept])
  rw [hkept] at hload
  have hinner := hrun.inner
  rw [← hload] at hinner
  exact hinner.answers ⟨rfl, rfl, rfl⟩

def oneBan : Persisted := ⟨[], Finmap.singleton "10.0.0.5".toList maxU64, ∅⟩

def oneBanFile : List UInt8 :=
  Text.asBytes ("\x7b\n  \"tags\": [],\n  \"ip_bans\": \x7b\n" ++
    "    \"10.0.0.5\": 18446744073709551615\n  \x7d,\n  \"mutes\": \x7b\x7d\n\x7d").toList

/-- An address is banned for good, and the server starts again. -/
theorem answers_by_history_banned :
    (run (step fun _ => oneBanFile) (load (fun _ => some oneBan) (some "bans.json".toList) none)
      [.banIp (.v4 0x0A000005) maxU64 0]).Answers [.banIp (.v4 0x0A000005) maxU64 0] 1000 ∧
      (some "bans.json".toList ≠ none → (load (fun _ => some oneBan) (some "bans.json".toList)
        (run (step fun _ => oneBanFile)
          (load (fun _ => some oneBan) (some "bans.json".toList) none)
          [.banIp (.v4 0x0A000005) maxU64 0]).file).Answers
            [.banIp (.v4 0x0A000005) maxU64 0] 1000) :=
  answers_by_history (fun _ => oneBanFile) (fun _ => some oneBan) (some "bans.json".toList)
    [.banIp (.v4 0x0A000005) maxU64 0] 1000 (by decide) rfl

end BanStore

end CommandCenter.Daemon
