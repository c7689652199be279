import CommandCenter.Core.KeyRegistry
import CommandCenter.Library.Run

/-!
# One live session per CD key

The registry refuses a claim on a key that is held, so two claims are in force on one key only
if something other than its own release or a ban has ended the first. `release` names the key
and not the claimer, and that is the one way it happens: the late release of a claim that a
ban had ended takes the key from whoever claimed it after the ban was lifted.

* `Keyring.oneHolder_step`: a step keeps one holder per key exactly if it is no such release.
* `Keyring.one_session_per_key`: the runs of a new registry that do.
* `Keyring.late_release`: a run that does not.
-/

namespace CommandCenter.Core

open Rust Library

namespace KeyRegistry

theorem claim_spec (r : KeyRegistry) (key : KeyId) (account : AccountId) (now : Nat) :
    ((r.claim key account now).1 = .ok ∧ key ∉ r.active ∧
        (r.claim key account now).2.active = r.active.insert key account) ∨
      ((r.claim key account now).1 ≠ .ok ∧ (r.claim key account now).2.active = r.active) := by
  unfold claim
  split
  · exact Or.inr ⟨by simp, rfl⟩
  · split
    · exact Or.inr ⟨by simp, rfl⟩
    · rename_i hfree
      dsimp only
      split
      · exact Or.inr ⟨by simp, rfl⟩
      · exact Or.inl ⟨rfl, Finmap.lookup_eq_none.mp hfree, rfl⟩

/-- Not banned, not held and not cooling down. -/
def Free (r : KeyRegistry) (key : KeyId) (now : Nat) : Prop :=
  key ∉ r.banned ∧ r.active.lookup key = none ∧
    ∀ entry, r.cooling.lookup key = some entry → r.cooldownMs ≤ now - entry.2

theorem claim_eq_ok_iff (r : KeyRegistry) (key : KeyId) (account : AccountId) (now : Nat) :
    (r.claim key account now).1 = .ok ↔ r.Free key now := by
  unfold claim Free
  split
  · rename_i hbanned
    exact ⟨nofun, fun h => absurd hbanned h.1⟩
  · rename_i hbanned
    split
    · rename_i holder hheld
      exact ⟨nofun, fun h => absurd (hheld.symm.trans h.2.1) (Option.some_ne_none holder)⟩
    · rename_i hfree
      dsimp only
      rw [Map.lookup_retain]
      cases hcooling : r.cooling.lookup key with
      | none => exact ⟨fun _ => ⟨hbanned, hfree, nofun⟩, fun _ => rfl⟩
      | some entry =>
        by_cases hstale : r.cooldownMs ≤ now - entry.2
        · have hdecide : decide (now - entry.2 < r.cooldownMs) = false := by
            rw [decide_eq_false_iff_not]
            omega
          simp only [Option.filter, hdecide]
          refine ⟨fun _ => ⟨hbanned, hfree, ?_⟩, fun _ => rfl⟩
          rintro _ ⟨⟩
          exact hstale
        · have hdecide : decide (now - entry.2 < r.cooldownMs) = true := by
            rw [decide_eq_true_iff]
            omega
          simp only [Option.filter, hdecide, ↓reduceIte]
          exact ⟨nofun, fun h => absurd (h.2.2 entry rfl) hstale⟩

instance (r : KeyRegistry) (key : KeyId) (now : Nat) : Decidable (r.Free key now) :=
  decidable_of_iff _ (r.claim_eq_ok_iff key 0 now)

theorem mem_active_release (r : KeyRegistry) (key k : KeyId) (now : Nat) :
    k ∈ (r.release key now).active ↔ k ≠ key ∧ k ∈ r.active := by
  unfold release
  split
  · exact Finmap.mem_erase
  · rename_i hfree
    have habsent : key ∉ r.active := Finmap.lookup_eq_none.mp hfree
    constructor
    · intro hk
      exact ⟨fun he => habsent (he ▸ hk), hk⟩
    · intro h
      exact h.2

end KeyRegistry

namespace Keyring

/-- Claims are numbered in the order in which they succeeded. -/
structure Numbered (s : Keyring) : Prop where
  nodup : (s.claims.map Claim.serial).Nodup
  lt : ∀ x ∈ s.claims, x.serial < s.nextSerial

/-- An unreleased claim whose key has not been banned since is in force, so that no session
has ended another's; and of two unreleased claims on a key the earlier was ended by a ban. -/
structure OneHolder (s : Keyring) : Prop where
  inForce : ∀ x ∈ s.claims, x.banned = false → x.key ∈ s.registry.active
  exclusive : ∀ x ∈ s.claims, ∀ y ∈ s.claims, x.key = y.key → x.serial < y.serial →
    x.banned = true

/-- The claim that is released has not been ended by a ban while a later claim on its key is
in force. -/
def ReleaseSafe (s : Keyring) : Event → Prop
  | .release serial _ => ∀ x, s.find serial = some x → x.banned = true →
      ∀ y ∈ s.claims, y.key = x.key → y.banned = true
  | .claim _ _ _ _ | .ban _ | .unban _ => True

theorem find_spec {s : Keyring} {serial : Nat} {x : Claim} (h : s.find serial = some x) :
    x ∈ s.claims ∧ x.serial = serial :=
  ⟨List.mem_of_find?_eq_some h, by simpa using List.find?_some h⟩

theorem numbered_new (cooldownMs : Nat) : (new cooldownMs).Numbered :=
  ⟨List.nodup_nil, fun _ h => absurd h List.not_mem_nil⟩

theorem oneHolder_new (cooldownMs : Nat) : (new cooldownMs).OneHolder :=
  ⟨fun _ h => absurd h List.not_mem_nil, fun _ h => absurd h List.not_mem_nil⟩

theorem Numbered.eq_of_serial {s : Keyring} (h : s.Numbered) {x y : Claim} (hx : x ∈ s.claims)
    (hy : y ∈ s.claims) (he : x.serial = y.serial) : x = y :=
  List.inj_on_of_nodup_map h.nodup hx hy he

/-! ## One event -/

/-- What an event does to the claims and to the keys that are held. -/
inductive Effect (s : Keyring) : Event → Keyring → Prop where
  | idle (e : Event) (registry : KeyRegistry) (hactive : registry.active = s.registry.active)
      (hsafe : s.ReleaseSafe e) : Effect s e { s with registry }
  | claimed (session : Nat) (key : KeyId) (account : AccountId) (now : Nat)
      (registry : KeyRegistry) (hfree : key ∉ s.registry.active)
      (hactive : registry.active = s.registry.active.insert key account) :
      Effect s (.claim session key account now)
        ⟨registry, ⟨s.nextSerial, session, key, false⟩ :: s.claims, s.nextSerial + 1⟩
  | released (serial now : Nat) (x : Claim) (hfind : s.find serial = some x) :
      Effect s (.release serial now)
        { s with registry := s.registry.release x.key now, claims := s.claims.erase x }
  | banned (key : KeyId) : Effect s (.ban key)
      { s with registry := s.registry.ban key, claims := s.claims.map (Claim.noteBan key) }

theorem step_effect (s : Keyring) (e : Event) : Effect s e (s.step e) := by
  cases e with
  | claim session key account now =>
    have hspec := s.registry.claim_spec key account now
    simp only [step]
    split
    · rename_i registry hclaim
      rw [hclaim] at hspec
      rcases hspec with ⟨_, hfree, hactive⟩ | ⟨hne, _⟩
      · exact .claimed session key account now registry hfree hactive
      · exact absurd rfl hne
    · rename_i verdict registry hne hclaim
      rw [hclaim] at hspec
      rcases hspec with ⟨hok, _⟩ | ⟨_, hactive⟩
      · exact absurd hok (by simpa using hne)
      · exact .idle _ registry hactive trivial
  | release serial now =>
    simp only [step]
    split
    · rename_i x hfind
      exact .released serial now x hfind
    · rename_i hnone
      exact .idle _ s.registry rfl fun x hx => absurd (hnone.symm.trans hx) (by simp)
  | ban key => exact .banned key
  | unban key => exact .idle _ _ rfl trivial

theorem Numbered.step {s : Keyring} (h : s.Numbered) (e : Event) : (s.step e).Numbered := by
  have heffect := s.step_effect e
  generalize s.step e = s' at heffect
  cases heffect with
  | idle _ _ _ _ => exact ⟨h.nodup, h.lt⟩
  | claimed session key account now registry _ _ =>
    constructor
    · refine List.nodup_cons.mpr ⟨fun hmem => ?_, h.nodup⟩
      obtain ⟨x, hx, hserial⟩ := List.mem_map.mp hmem
      exact absurd (h.lt x hx) (by simp [hserial])
    · intro x hx
      rcases List.mem_cons.mp hx with rfl | hold
      · exact Nat.lt_succ_self _
      · exact Nat.lt_succ_of_lt (h.lt x hold)
  | released serial now x _ =>
    exact ⟨(List.erase_sublist.map Claim.serial).nodup h.nodup,
      fun y hy => h.lt y (List.mem_of_mem_erase hy)⟩
  | banned key =>
    constructor
    · have hsame : (s.claims.map (Claim.noteBan key)).map Claim.serial =
          s.claims.map Claim.serial := by
        rw [List.map_map]
        rfl
      exact hsame ▸ h.nodup
    · intro x hx
      obtain ⟨y, hy, rfl⟩ := List.mem_map.mp hx
      exact h.lt y hy

/-- The only other claim in force on the key of a claim in force is that claim. -/
theorem OneHolder.eq {s : Keyring} (hn : s.Numbered) (h : s.OneHolder) {x y : Claim}
    (hx : x ∈ s.claims) (hy : y ∈ s.claims) (hkey : x.key = y.key) (hxb : x.banned = false)
    (hyb : y.banned = false) : x = y := by
  rcases Nat.lt_trichotomy x.serial y.serial with hlt | heq | hgt
  · have hended := h.exclusive x hx y hy hkey hlt
    simp [hxb] at hended
  · exact hn.eq_of_serial hx hy heq
  · have hended := h.exclusive y hy x hx hkey.symm hgt
    simp [hyb] at hended

/-- A release keeps one holder per key exactly if it is safe: a claim that a ban ended may be
released only when no later claim on its key is in force. -/
theorem oneHolder_release {s : Keyring} (hn : s.Numbered) (h : s.OneHolder) {serial now : Nat}
    {x : Claim} (hfind : s.find serial = some x) :
    OneHolder { s with registry := s.registry.release x.key now, claims := s.claims.erase x } ↔
      s.ReleaseSafe (.release serial now) := by
  obtain ⟨hx, _⟩ := find_spec hfind
  have hnodup : s.claims.Nodup := List.Nodup.of_map _ hn.nodup
  constructor
  · intro hafter x' hfind' hxb y hy hkey
    obtain rfl : x = x' := Option.some.inj (hfind.symm.trans hfind')
    by_contra hyb
    have hyb : y.banned = false := by simpa using hyb
    have hne : y ≠ x := by
      rintro rfl
      simp [hxb] at hyb
    have hheld := hafter.inForce y ((List.mem_erase_of_ne hne).mpr hy) hyb
    exact ((s.registry.mem_active_release x.key y.key now).mp hheld).1 hkey
  · intro hsafe
    refine ⟨fun y hy hyb => ?_, fun y hy z hz => ?_⟩
    · obtain ⟨hne, hyold⟩ := (hnodup.mem_erase_iff).mp hy
      apply (s.registry.mem_active_release x.key y.key now).mpr
      refine ⟨fun hkey => ?_, h.inForce y hyold hyb⟩
      cases hxb : x.banned with
      | true =>
        have hended := hsafe x hfind hxb y hyold hkey
        simp [hyb] at hended
      | false => exact hne (h.eq hn hyold hx hkey hyb hxb)
    · exact h.exclusive y (List.mem_of_mem_erase hy) z (List.mem_of_mem_erase hz)

theorem oneHolder_step {s : Keyring} (hn : s.Numbered) (h : s.OneHolder) (e : Event) :
    (s.step e).OneHolder ↔ s.ReleaseSafe e := by
  have heffect := s.step_effect e
  generalize s.step e = s' at heffect
  cases heffect with
  | idle _ registry hactive hsafe =>
    refine iff_of_true ⟨fun x hx hxb => ?_, h.exclusive⟩ hsafe
    exact hactive ▸ h.inForce x hx hxb
  | claimed session key account now registry hfree hactive =>
    refine iff_of_true ⟨fun x hx hxb => ?_, fun x hx y hy hkey hlt => ?_⟩ trivial
    · change x.key ∈ registry.active
      rw [hactive, Finmap.mem_insert]
      rcases List.mem_cons.mp hx with rfl | hold
      · exact Or.inl rfl
      · exact Or.inr (h.inForce x hold hxb)
    · rcases List.mem_cons.mp hx with rfl | hxold
      · rcases List.mem_cons.mp hy with rfl | hyold
        · exact absurd hlt (Nat.lt_irrefl _)
        · exact absurd (Nat.lt_trans hlt (hn.lt y hyold)) (Nat.lt_irrefl _)
      · rcases List.mem_cons.mp hy with rfl | hyold
        · -- The key was free, so an earlier claim on it is no longer in force.
          have hkey : x.key = key := hkey
          by_contra hxb
          exact hfree (hkey ▸ h.inForce x hxold (by simpa using hxb))
        · exact h.exclusive x hxold y hyold hkey hlt
  | released serial now x hfind =>
    exact oneHolder_release hn h hfind
  | banned key =>
    refine iff_of_true ⟨fun x hx hxb => ?_, fun x hx y hy hkey hlt => ?_⟩ trivial
    · obtain ⟨x, hxold, rfl⟩ := List.mem_map.mp hx
      obtain ⟨hxb, hother⟩ : x.banned = false ∧ x.key ≠ key := by
        simpa [Claim.noteBan] using hxb
      exact Finmap.mem_erase.mpr ⟨hother, h.inForce x hxold hxb⟩
    · obtain ⟨x, hxold, rfl⟩ := List.mem_map.mp hx
      obtain ⟨y, hyold, rfl⟩ := List.mem_map.mp hy
      have hended := h.exclusive x hxold y hyold hkey hlt
      simp [Claim.noteBan, hended]

/-! ## Runs -/

/-- **One live session per CD key**, and exactly when the registry provides it. -/
theorem one_session_per_key (cooldownMs : Nat) (events : List Event) :
    Always step OneHolder (new cooldownMs) events ↔
      Along step ReleaseSafe (new cooldownMs) events := by
  refine always_iff_along (J := Numbered) (fun s e hn => hn.step e) (fun s e hn h => ?_) ?_ ?_
    events
  · exact oneHolder_step hn h e
  · exact numbered_new cooldownMs
  · exact oneHolder_new cooldownMs

/-- Session 1 claims a key, a ban ends the claim and is lifted, session 2 claims the key, and
the late release of session 1 lets session 3 claim it as well. -/
theorem late_release : ¬ Always step OneHolder (new 500)
    [.claim 1 ⟨Vector.replicate 20 7⟩ 100 0, .ban ⟨Vector.replicate 20 7⟩,
      .unban ⟨Vector.replicate 20 7⟩, .claim 2 ⟨Vector.replicate 20 7⟩ 200 10, .release 0 20,
      .claim 3 ⟨Vector.replicate 20 7⟩ 300 600] := by
  intro h
  have hended := h.last.exclusive ⟨1, 2, ⟨Vector.replicate 20 7⟩, false⟩ (by decide)
    ⟨2, 3, ⟨Vector.replicate 20 7⟩, false⟩ (by decide) rfl (by decide)
  simp at hended

end Keyring

/-!
## What a claim is answered

The answer to a claim on a CD key as the calls before it determine it, and the registry that gives
this answer from three maps which forget as they go.

* `KeyRegistry.judge`: the answer that the history of a registry calls for.
* `KeyRegistry.Represents`: what the maps hold of the history. The cooldown map may have lost the
  releases that are too old to matter.
* `KeyRegistry.verdict_of_history`: the registry gives that answer, and a claim that looks at the
  cooldown map leaves no stale entry in it.
-/

namespace KeyRegistry

inductive Call where
  | ban (key : KeyId)
  | unban (key : KeyId)
  | claim (key : KeyId) (account : AccountId) (now : Nat)
  | release (key : KeyId) (now : Nat)

def Call.time : Call → Option Nat
  | .ban _ | .unban _ => none
  | .claim _ _ now | .release _ now => some now

/-- A call that has been made, a claim with its answer. -/
inductive Entry where
  | ban (key : KeyId)
  | unban (key : KeyId)
  | claim (key : KeyId) (account : AccountId) (now : Nat) (verdict : KeyVerdict)
  | release (key : KeyId) (now : Nat)

def step (r : KeyRegistry) : Call → KeyRegistry
  | .ban key => r.ban key
  | .unban key => (r.unban key).2
  | .claim key account now => (r.claim key account now).2
  | .release key now => r.release key now

/-- The call as an entry of the history. -/
def entry (r : KeyRegistry) : Call → Entry
  | .ban key => .ban key
  | .unban key => .unban key
  | .claim key account now => .claim key account now (r.claim key account now).1
  | .release key now => .release key now

/-- The history of a run, the latest entry first. -/
def history (r : KeyRegistry) : List Call → List Entry → List Entry
  | [], past => past
  | call :: calls, past => history (r.step call) calls (r.entry call :: past)

/-! ## Histories -/

/-- The last ban or unban of the key was a ban. -/
def LastBanned (key : KeyId) : List Entry → Prop
  | [] => False
  | .ban k :: past => k = key ∨ LastBanned key past
  | .unban k :: past => k ≠ key ∧ LastBanned key past
  | .claim _ _ _ _ :: past | .release _ _ :: past => LastBanned key past

instance LastBanned.decidable (key : KeyId) : DecidablePred (LastBanned key)
  | [] => .isFalse id
  | .ban k :: past =>
    have := LastBanned.decidable key past
    inferInstanceAs (Decidable (k = key ∨ LastBanned key past))
  | .unban k :: past =>
    have := LastBanned.decidable key past
    inferInstanceAs (Decidable (k ≠ key ∧ LastBanned key past))
  | .claim _ _ _ _ :: past | .release _ _ :: past => LastBanned.decidable key past

/-- Who has claimed the key, with no release and no ban of it since. -/
def holder (key : KeyId) : List Entry → Option AccountId
  | [] => none
  | .ban k :: past | .release k _ :: past => if k = key then none else holder key past
  | .claim k account _ .ok :: past => if k = key then some account else holder key past
  | .claim _ _ _ _ :: past | .unban _ :: past => holder key past

/-- Who the key was last released from and when, with no successful claim of it since. -/
def lastRelease (key : KeyId) : List Entry → Option (AccountId × Nat)
  | [] => none
  | .release k now :: past =>
    if k = key then ((holder key past).map fun account => (account, now)).or (lastRelease key past)
    else lastRelease key past
  | .claim k _ _ .ok :: past => if k = key then none else lastRelease key past
  | .claim _ _ _ _ :: past | .ban _ :: past | .unban _ :: past => lastRelease key past

/-- The answer to a claim after a history. -/
def judge (cooldownMs : Nat) (past : List Entry) (key : KeyId) (now : Nat) : KeyVerdict :=
  if LastBanned key past then .banned
  else
    match holder key past with
    | some account => .inUse account
    | none =>
      match lastRelease key past with
      | some (account, released) => if now - released < cooldownMs then .inUse account else .ok
      | none => .ok

/-- The claim is answered as its history says, and if it was neither refused for a ban nor answered
from a live claim, the cooldown map has no stale entry afterwards. -/
structure Answers (cooldownMs : Nat) (r : KeyRegistry) (past : List Entry) (key : KeyId)
    (account : AccountId) (now : Nat) : Prop where
  verdict : (r.claim key account now).1 = judge cooldownMs past key now
  cooling : ¬ LastBanned key past → holder key past = none →
    ∀ k e, (r.claim key account now).2.cooling.lookup k = some e → now - e.2 < cooldownMs

/-! ## The maps and the history -/

/-- What the maps hold of the history up to the time `t`. -/
structure Represents (r : KeyRegistry) (past : List Entry) (t : Nat) : Prop where
  banned : ∀ key, key ∈ r.banned ↔ LastBanned key past
  active : ∀ key, r.active.lookup key = holder key past
  cooling : ∀ key e, r.cooling.lookup key = some e → lastRelease key past = some e
  stale : ∀ key e, lastRelease key past = some e → r.cooling.lookup key = none →
    r.cooldownMs ≤ t - e.2

variable {r : KeyRegistry} {past : List Entry} {t : Nat}

theorem represents_new (cooldownMs : Nat) : (new cooldownMs).Represents [] 0 where
  banned _ := by simp [new, LastBanned]
  active _ := rfl
  cooling _ _ h := by simp [new] at h
  stale _ _ h := nomatch h

theorem Represents.later (h : r.Represents past t) {t' : Nat} (ht : t ≤ t') :
    r.Represents past t' :=
  { h with stale := fun key e he hnone => (h.stale key e he hnone).trans (by omega) }

theorem Represents.fresh (h : r.Represents past t) (key : KeyId) :
    ((Map.retain (fun _ e => decide (t - e.2 < r.cooldownMs)) r.cooling).lookup key) =
      (lastRelease key past).filter fun e => decide (t - e.2 < r.cooldownMs) := by
  rw [Map.lookup_retain]
  cases hc : r.cooling.lookup key with
  | some e => rw [h.cooling key e hc]
  | none =>
    cases hl : lastRelease key past with
    | none => rfl
    | some e =>
      have hstale := h.stale key e hl hc
      have hnot : decide (t - e.2 < r.cooldownMs) = false :=
        decide_eq_false (Nat.not_lt.mpr hstale)
      simp only [Option.filter, hnot]
      rfl

theorem Represents.lookup_retained (h : r.Represents past t) (key : KeyId)
    (e : AccountId × Nat) :
    (Map.retain (fun _ e => decide (t - e.2 < r.cooldownMs)) r.cooling).lookup key = some e ↔
      lastRelease key past = some e ∧ t - e.2 < r.cooldownMs := by
  rw [h.fresh key, Option.filter_eq_some_iff, decide_eq_true_iff]

theorem Represents.stale_of_retained (h : r.Represents past t) {key : KeyId} {e : AccountId × Nat}
    (he : lastRelease key past = some e)
    (hnone : (Map.retain (fun _ e => decide (t - e.2 < r.cooldownMs)) r.cooling).lookup key =
      none) : r.cooldownMs ≤ t - e.2 := by
  by_contra hlt
  have hsome := (h.lookup_retained key e).mpr ⟨he, Nat.lt_of_not_le hlt⟩
  cases hnone.symm.trans hsome

/-- What a claim does, in the terms of the history. -/
inductive Claimed (r : KeyRegistry) (past : List Entry) (key : KeyId) (account : AccountId)
    (now : Nat) : KeyVerdict × KeyRegistry → Prop where
  | banned (h : LastBanned key past) : Claimed r past key account now (.banned, r)
  | live (h : ¬ LastBanned key past) (other : AccountId) (hheld : holder key past = some other) :
      Claimed r past key account now (.inUse other, r)
  | cooling (h : ¬ LastBanned key past) (hfree : holder key past = none) (other : AccountId)
      (released : Nat) (hlast : lastRelease key past = some (other, released))
      (hfresh : now - released < r.cooldownMs) :
      Claimed r past key account now (.inUse other, { r with
        cooling := Map.retain (fun _ e => decide (now - e.2 < r.cooldownMs)) r.cooling })
  | ok (h : ¬ LastBanned key past) (hfree : holder key past = none)
      (hlast : ∀ e, lastRelease key past = some e → r.cooldownMs ≤ now - e.2) :
      Claimed r past key account now (.ok, { r with
        cooling := (Map.retain (fun _ e => decide (now - e.2 < r.cooldownMs)) r.cooling).erase key
        active := r.active.insert key account })

theorem Represents.claimed (h : r.Represents past t) (key : KeyId) (account : AccountId) :
    Claimed r past key account t (r.claim key account t) := by
  unfold claim
  split
  · rename_i hbanned
    exact .banned ((h.banned key).mp hbanned)
  · rename_i hbanned
    have hnot : ¬ LastBanned key past := fun hb => hbanned ((h.banned key).mpr hb)
    split
    · rename_i other hheld
      exact .live hnot other ((h.active key).symm.trans hheld)
    · rename_i hfree
      have hfree : holder key past = none := (h.active key).symm.trans hfree
      dsimp only
      rw [h.fresh key, Option.filter_filter]
      simp only [Bool.and_self]
      split
      · rename_i other released hlast
        obtain ⟨hlast, hfresh⟩ := Option.filter_eq_some_iff.mp hlast
        exact .cooling hnot hfree other released hlast (of_decide_eq_true hfresh)
      · rename_i hlast
        refine .ok hnot hfree fun e he => ?_
        rw [he, Option.filter] at hlast
        split at hlast
        · cases hlast
        · rename_i hstale
          simpa using hstale

theorem Claimed.answers {key : KeyId} {account : AccountId} {now : Nat}
    (h : Claimed r past key account now (r.claim key account now)) :
    Answers r.cooldownMs r past key account now := by
  have hretained : ∀ k e,
      (Map.retain (fun _ e => decide (now - e.2 < r.cooldownMs)) r.cooling).lookup k = some e →
      now - e.2 < r.cooldownMs := by
    intro k e he
    rw [Map.lookup_retain] at he
    exact of_decide_eq_true (Option.filter_eq_some_iff.mp he).2
  generalize hafter : r.claim key account now = after at h
  cases h with
  | banned hbanned =>
    exact ⟨by rw [hafter, judge, if_pos hbanned], fun hnot => absurd hbanned hnot⟩
  | live hnot other hheld =>
    refine ⟨by rw [hafter, judge, if_neg hnot, hheld], fun _ hfree => ?_⟩
    rw [hheld] at hfree
    cases hfree
  | cooling hnot hfree other released hlast hfresh =>
    constructor
    · rw [hafter, judge, if_neg hnot, hfree, hlast]
      exact (if_pos hfresh).symm
    · rw [hafter]
      exact fun _ _ => hretained
  | ok hnot hfree hlast =>
    constructor
    · rw [hafter, judge, if_neg hnot, hfree]
      cases hrelease : lastRelease key past with
      | none => rfl
      | some e => exact (if_neg (Nat.not_lt.mpr (hlast e hrelease))).symm
    · rw [hafter]
      intro _ _ k e he
      by_cases hk : k = key
      · rw [hk] at he
        cases he.symm.trans (Finmap.lookup_erase _ _)
      · exact hretained k e ((Finmap.lookup_erase_ne hk).symm.trans he)

/-! ## One call -/

theorem Represents.claim (h : r.Represents past t) (key : KeyId) (account : AccountId) :
    (r.claim key account t).2.Represents
      (.claim key account t (r.claim key account t).1 :: past) t := by
  have hclaimed := h.claimed key account
  generalize r.claim key account t = after at hclaimed
  cases hclaimed with
  | banned | live => exact { h with }
  | cooling hnot hfree other released hlast hfresh =>
    exact { h with
      cooling := fun k e he => ((h.lookup_retained k e).mp he).1
      stale := fun k e he hnone => h.stale_of_retained he hnone }
  | ok hnot hfree hlast =>
    refine { h with active := ?_, cooling := ?_, stale := ?_ }
    · intro k
      rw [holder]
      split
      · rename_i hk
        rw [hk]
        exact Finmap.lookup_insert _
      · rename_i hk
        rw [← h.active k]
        exact Finmap.lookup_insert_of_ne _ (Ne.symm hk)
    · intro k e he
      rw [lastRelease]
      split
      · rename_i hk
        rw [← hk] at he
        cases he.symm.trans (Finmap.lookup_erase _ _)
      · rename_i hk
        rw [Finmap.lookup_erase_ne (Ne.symm hk)] at he
        exact ((h.lookup_retained k e).mp he).1
    · intro k e he hnone
      rw [lastRelease] at he
      split at he
      · cases he
      · rename_i hk
        rw [Finmap.lookup_erase_ne (Ne.symm hk)] at hnone
        exact h.stale_of_retained he hnone

theorem Represents.lookup_erase (h : r.Represents past t) (key k : KeyId) :
    (r.active.erase key).lookup k = if key = k then none else holder k past := by
  split
  · rename_i hk
    rw [hk]
    exact Finmap.lookup_erase _ _
  · rename_i hk
    rw [← h.active k]
    exact Finmap.lookup_erase_ne (Ne.symm hk)

theorem lastRelease_of_free {key : KeyId} (hfree : holder key past = none) (k : KeyId) :
    lastRelease k (.release key t :: past) = lastRelease k past := by
  rw [lastRelease]
  split
  · rename_i hk
    rw [← hk, hfree]
    rfl
  · rfl

theorem Represents.ban (h : r.Represents past t) (key : KeyId) :
    (r.ban key).Represents (.ban key :: past) t where
  banned k := by
    rw [KeyRegistry.ban, LastBanned, Finset.mem_insert, h.banned k]
    exact or_congr_left eq_comm
  active k := h.lookup_erase key k
  cooling k e he := h.cooling k e he
  stale k e he hnone := h.stale k e he hnone

theorem Represents.unban (h : r.Represents past t) (key : KeyId) :
    (r.unban key).2.Represents (.unban key :: past) t where
  banned k := by
    rw [KeyRegistry.unban, LastBanned, Finset.mem_erase, h.banned k]
    exact and_congr_left fun _ => ne_comm
  active k := h.active k
  cooling k e he := h.cooling k e he
  stale k e he hnone := h.stale k e he hnone

theorem Represents.release (h : r.Represents past t) (key : KeyId) :
    (r.release key t).Represents (.release key t :: past) t := by
  unfold KeyRegistry.release
  split
  · rename_i account hheld
    have hholder : holder key past = some account := (h.active key).symm.trans hheld
    refine { h with active := h.lookup_erase key, cooling := ?_, stale := ?_ }
    · intro k e he
      rw [lastRelease]
      split
      · rename_i hk
        rw [← hk, Finmap.lookup_insert] at he
        rw [← hk, hholder, ← he]
        rfl
      · rename_i hk
        rw [Finmap.lookup_insert_of_ne _ (Ne.symm hk)] at he
        exact h.cooling k e he
    · intro k e he hnone
      rw [lastRelease] at he
      split at he
      · rename_i hk
        rw [← hk, Finmap.lookup_insert] at hnone
        cases hnone
      · rename_i hk
        rw [Finmap.lookup_insert_of_ne _ (Ne.symm hk)] at hnone
        exact h.stale k e he hnone
  · rename_i hfree
    have hholder : holder key past = none := (h.active key).symm.trans hfree
    refine { h with active := ?_, cooling := ?_, stale := ?_ }
    · intro k
      rw [holder]
      split
      · rename_i hk
        rw [← hk]
        exact hfree
      · exact h.active k
    · intro k e he
      rw [lastRelease_of_free hholder k]
      exact h.cooling k e he
    · intro k e he hnone
      rw [lastRelease_of_free hholder k] at he
      exact h.stale k e he hnone

/-! ## Runs -/

def Call.clock (t : Nat) (call : Call) : Nat := call.time.getD t

theorem Represents.step (h : r.Represents past t) (call : Call) (ht : t ≤ call.clock t) :
    (r.step call).Represents (r.entry call :: past) (call.clock t) := by
  cases call with
  | ban key => exact h.ban key
  | unban key => exact h.unban key
  | claim key account now => exact (h.later ht).claim key account
  | release key now => exact (h.later ht).release key

theorem Represents.run (h : r.Represents past t) (calls : List Call) (now : Nat)
    (hordered : (t :: (calls.flatMap (fun call => call.time.toList) ++ [now])).Pairwise (· ≤ ·)) :
    (calls.foldl KeyRegistry.step r).Represents (r.history calls past) now := by
  induction calls generalizing r past t with
  | nil =>
    have hle : t ≤ now := (List.pairwise_cons.mp hordered).1 now List.mem_cons_self
    exact h.later hle
  | cons call calls ih =>
    rw [List.flatMap_cons, List.append_assoc] at hordered
    obtain ⟨hle, hrest⟩ := pairwise_clock hordered
    exact ih (h.step call hle) hrest

theorem cooldownMs_claim (r : KeyRegistry) (key : KeyId) (account : AccountId) (now : Nat) :
    (r.claim key account now).2.cooldownMs = r.cooldownMs := by
  unfold KeyRegistry.claim
  split
  · rfl
  · split
    · rfl
    · dsimp only
      split
      · rfl
      · rfl

theorem cooldownMs_step (r : KeyRegistry) (call : Call) :
    (r.step call).cooldownMs = r.cooldownMs := by
  cases call with
  | ban key => rfl
  | unban key => rfl
  | claim key account now => exact cooldownMs_claim r key account now
  | release key now =>
    rw [KeyRegistry.step, KeyRegistry.release]
    split
    · rfl
    · rfl

theorem cooldownMs_run (r : KeyRegistry) (calls : List Call) :
    (calls.foldl KeyRegistry.step r).cooldownMs = r.cooldownMs := by
  induction calls generalizing r with
  | nil => rfl
  | cons call calls ih => exact (ih (r.step call)).trans (cooldownMs_step r call)

/-- **A claim is answered from its key's history.** After any calls at times that do not decrease,
a claim is refused for a ban if the last ban or unban of the key was a ban. Otherwise it names the
holder if the key is held, or if it was last released less than the cooldown ago and not claimed
since, and otherwise it succeeds. Unless it is refused for a ban or for a live claim, every entry
left in the cooldown map is younger than the cooldown. -/
theorem verdict_of_history (cooldownMs : Nat) (calls : List Call) (key : KeyId)
    (account : AccountId) (now : Nat)
    (hordered : (calls.flatMap (fun call => call.time.toList) ++ [now]).Pairwise (· ≤ ·)) :
    Answers cooldownMs (calls.foldl KeyRegistry.step (new cooldownMs))
      ((new cooldownMs).history calls []) key account now := by
  have hstart : (0 :: (calls.flatMap (fun call => call.time.toList) ++ [now])).Pairwise (· ≤ ·) :=
    List.pairwise_cons.mpr ⟨fun _ _ => Nat.zero_le _, hordered⟩
  have hrun := (represents_new cooldownMs).run calls now hstart
  have hanswers := (hrun.claimed key account).answers
  rw [cooldownMs_run] at hanswers
  exact hanswers

/-- The key of twenty equal bytes. -/
def keyOf (byte : UInt8) : KeyId := ⟨Vector.replicate 20 byte⟩

/-- A key is claimed and released, and claimed again too soon. -/
theorem verdict_of_history_soon :
    Answers 500
      ([Call.claim (keyOf 1) 7 0, .release (keyOf 1) 100].foldl KeyRegistry.step (new 500))
      ((new 500).history [.claim (keyOf 1) 7 0, .release (keyOf 1) 100] []) (keyOf 1) 8 300 :=
  verdict_of_history 500 [.claim (keyOf 1) 7 0, .release (keyOf 1) 100] (keyOf 1) 8 300
    (by decide)

end KeyRegistry

end CommandCenter.Core
