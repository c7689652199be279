import CommandCenter.Core.Bridge
import CommandCenter.Library.Index
import CommandCenter.Library.Run

/-!
# The bridge registry is a bijection

`by_name` is meant to be the index of the identities by their lowercased names, which is
`Library.Indexes`. It stays so as long as `allocate_name` returns a free name. Its candidates
are checked, its fallback, the name derived from the remote id, is not.

* `BridgeRegistry.allocateName_free`: when the allocated name is free.
* `BridgeRegistry.bijection_step`: a call keeps the registry a bijection exactly then.
* `BridgeRegistry.registry_bijection`: the runs of a new registry in which it is one, and what
  a removal frees.
* `BridgeRegistry.fallback_collides`: a run in which an identity loses its name.
-/

namespace CommandCenter.Core

open Rust Library

def BridgedUser.nameKey (u : BridgedUser) : Text := u.name.toAsciiLowercase

namespace BridgeRegistry

/-- Names are distinct, the two maps are inverse to each other. -/
structure Bijection (r : BridgeRegistry) : Prop where
  distinct : ∀ k₁ u₁ k₂ u₂, r.byRemoteId k₁ = some u₁ → r.byRemoteId k₂ = some u₂ → k₁ ≠ k₂ →
    u₁.name.eqIgnoreAsciiCase u₂.name = false
  reachable : ∀ k u, r.byRemoteId k = some u → r.findByName u.name = some u
  entries : ∀ key k, r.byName.lookup key = some k →
    ∃ u, r.byRemoteId k = some u ∧ u.name.toAsciiLowercase = key

/-- The names that `allocate_name` tries for a display name, in order. -/
def candidates (tag : BridgeTag) (display : Text) : List Text :=
  deriveName tag display none :: (List.range' 2 98).map fun n => deriveName tag display (some n)

/-- One of the ninety-nine candidates is free for the remote id, or the name derived from the
remote id itself is. -/
def UpsertSafe (r : BridgeRegistry) : Event → Prop
  | .upsert remoteId display _ => remoteId ≠ [] →
      (∃ candidate ∈ candidates r.tag display, r.isFree remoteId candidate = true) ∨
        r.isFree remoteId (deriveName r.tag remoteId none) = true
  | .remove _ => True

/-- Every identity is stored under its own remote id. -/
def Keyed (r : BridgeRegistry) : Prop := ∀ k u, r.byRemoteId k = some u → u.remoteId = k

theorem isFree_iff (r : BridgeRegistry) (remoteId candidate : Text) :
    r.isFree remoteId candidate = true ↔
      FreeFor r.byName candidate.toAsciiLowercase remoteId := by
  unfold isFree FreeFor
  cases r.byName.lookup candidate.toAsciiLowercase <;> simp

theorem findByName_eq_some {r : BridgeRegistry} {name : Text} {u : BridgedUser} :
    r.findByName name = some u ↔
      ∃ k, r.byName.lookup name.toAsciiLowercase = some k ∧ r.byRemoteId k = some u := by
  unfold findByName byRemoteId
  cases r.byName.lookup name.toAsciiLowercase <;> simp

theorem bijection_iff {r : BridgeRegistry} (hkeyed : r.Keyed) :
    r.Bijection ↔ Indexes BridgedUser.nameKey r.byRemote r.byName := by
  constructor
  · intro h
    refine ⟨fun k u hu => ?_, h.entries⟩
    obtain ⟨k', hk', hu'⟩ := findByName_eq_some.mp (h.reachable k u hu)
    obtain rfl : k' = k := (hkeyed k' u hu').symm.trans (hkeyed k u hu)
    exact hk'
  · intro h
    refine ⟨fun k₁ u₁ k₂ u₂ h₁ h₂ hne => ?_, fun k u hu => ?_, h.entries⟩
    · have hname : u₁.nameKey ≠ u₂.nameKey := h.name_ne h₁ h₂ hne
      by_contra heq
      exact hname (Text.eqIgnoreAsciiCase_iff.mp (by simpa using heq))
    · exact findByName_eq_some.mpr ⟨k, h.named k u hu, hu⟩

/-! ## The allocated name -/

theorem allocateName_eq (r : BridgeRegistry) (display remoteId : Text) :
    r.allocateName display remoteId =
      ((candidates r.tag display).find? (r.isFree remoteId)).getD
        (deriveName r.tag remoteId none) := by
  unfold allocateName candidates
  dsimp only
  by_cases hfree : r.isFree remoteId (deriveName r.tag display none) = true
  · rw [if_pos hfree, List.find?_cons_of_pos hfree]
    rfl
  · rw [if_neg hfree, List.find?_cons_of_neg hfree]
    cases ((List.range' 2 98).map fun n => deriveName r.tag display (some n)).find?
      (r.isFree remoteId) <;> rfl

theorem allocateName_free (r : BridgeRegistry) (display remoteId : Text) :
    r.isFree remoteId (r.allocateName display remoteId) = true ↔
      (∃ candidate ∈ candidates r.tag display, r.isFree remoteId candidate = true) ∨
        r.isFree remoteId (deriveName r.tag remoteId none) = true := by
  rw [allocateName_eq]
  cases hfind : (candidates r.tag display).find? (r.isFree remoteId) with
  | some candidate =>
    have hfree := List.find?_some hfind
    exact iff_of_true hfree (Or.inl ⟨candidate, List.mem_of_find?_eq_some hfind, hfree⟩)
  | none =>
    have hnone := List.find?_eq_none.mp hfind
    constructor
    · exact Or.inr
    · rintro (⟨candidate, hmem, hfree⟩ | hfree)
      · exact absurd hfree (hnone candidate hmem)
      · exact hfree

/-! ## One call -/

/-- An upsert stores the user and enters its name, or finds that nothing has changed. -/
theorem upsert_spec (r : BridgeRegistry) {remoteId : Text} (hid : remoteId ≠ [])
    (display : Text) (account : AccountId) :
    (∃ prev, r.byRemote.lookup remoteId = some prev ∧
        prev.name = r.allocateName display remoteId ∧
        (r.upsert remoteId display account).2 = r) ∨
      ∃ user : BridgedUser, user.remoteId = remoteId ∧
        user.name = r.allocateName display remoteId ∧
        (r.upsert remoteId display account).2 =
          { r with
            byName := (unname BridgedUser.nameKey r.byName (r.byRemote.lookup remoteId)).insert
              user.nameKey remoteId
            byRemote := r.byRemote.insert remoteId user } := by
  unfold upsert
  rw [if_neg hid]
  cases hprev : r.byRemote.lookup remoteId with
  | none => exact Or.inr ⟨⟨account, remoteId, _⟩, rfl, rfl, rfl⟩
  | some prev =>
    dsimp only
    split
    · rename_i hsame
      exact Or.inl ⟨prev, rfl, hsame, rfl⟩
    · exact Or.inr ⟨⟨prev.account, remoteId, _⟩, rfl, rfl, rfl⟩

theorem upsert_empty (r : BridgeRegistry) (display : Text) (account : AccountId) :
    (r.upsert [] display account).2 = r := by
  simp [upsert]

theorem Keyed.step {r : BridgeRegistry} (h : r.Keyed) (e : Event) : (r.step e).Keyed := by
  cases e with
  | upsert remoteId display account =>
    by_cases hid : remoteId = []
    · subst hid
      have hsame : r.step (.upsert [] display account) = r := r.upsert_empty display account
      rw [hsame]
      exact h
    · change (r.upsert remoteId display account).2.Keyed
      rcases r.upsert_spec hid display account with ⟨_, _, _, hsame⟩ | ⟨user, huser, _, hafter⟩
      · rw [hsame]
        exact h
      · rw [hafter]
        intro k u hu
        change (r.byRemote.insert remoteId user).lookup k = some u at hu
        by_cases hk : k = remoteId
        · subst hk
          rw [Finmap.lookup_insert] at hu
          obtain rfl := Option.some.inj hu
          exact huser
        · rw [Finmap.lookup_insert_of_ne _ hk] at hu
          exact h k u hu
  | remove remoteId =>
    intro k u hu
    change (r.remove remoteId).2.byRemote.lookup k = some u at hu
    unfold remove at hu
    split at hu
    · change (r.byRemote.erase remoteId).lookup k = some u at hu
      by_cases hk : k = remoteId
      · rw [hk, Finmap.lookup_erase] at hu
        cases hu
      · rw [Finmap.lookup_erase_ne hk] at hu
        exact h k u hu
    · exact h k u hu

theorem bijection_step {r : BridgeRegistry} (hkeyed : r.Keyed) (h : r.Bijection) (e : Event) :
    (r.step e).Bijection ↔ r.UpsertSafe e := by
  rw [bijection_iff (hkeyed.step e)]
  rw [bijection_iff hkeyed] at h
  cases e with
  | upsert remoteId display account =>
    by_cases hid : remoteId = []
    · subst hid
      have hsame : r.step (.upsert [] display account) = r := r.upsert_empty display account
      rw [hsame]
      exact iff_of_true h fun hne => absurd rfl hne
    · have hsafe : r.UpsertSafe (.upsert remoteId display account) ↔
          FreeFor r.byName (r.allocateName display remoteId).toAsciiLowercase remoteId := by
        rw [← isFree_iff, allocateName_free]
        exact ⟨fun hs => hs hid, fun hs _ => hs⟩
      rw [hsafe]
      change Indexes _ (r.upsert remoteId display account).2.byRemote
        (r.upsert remoteId display account).2.byName ↔ _
      rcases r.upsert_spec hid display account with
        ⟨prev, hprev, hname, hsame⟩ | ⟨user, _, hname, hafter⟩
      · rw [hsame, ← hname]
        refine iff_of_true h fun holder hholder => ?_
        have hown := h.named remoteId prev hprev
        exact Option.some.inj (hholder.symm.trans hown)
      · rw [hafter, ← hname]
        exact h.put_iff remoteId user
  | remove remoteId =>
    refine iff_of_true ?_ trivial
    change Indexes _ (r.remove remoteId).2.byRemote (r.remove remoteId).2.byName
    unfold remove
    split
    · rename_i user huser
      exact h.erase huser
    · exact h

/-! ## Runs -/

theorem findByName_remove {r : BridgeRegistry} {remoteId : Text} {u : BridgedUser}
    (hu : r.byRemoteId remoteId = some u) (hb : Indexes BridgedUser.nameKey r.byRemote r.byName)
    {name : Text} (hname : name.eqIgnoreAsciiCase u.name = false) :
    (r.remove remoteId).2.findByName name = r.findByName name := by
  have hkey : name.toAsciiLowercase ≠ u.name.toAsciiLowercase := by
    intro he
    rw [Text.eqIgnoreAsciiCase_iff.mpr he] at hname
    cases hname
  have hafter : (r.remove remoteId).2 =
      { r with
        byRemote := r.byRemote.erase remoteId
        byName := r.byName.erase u.name.toAsciiLowercase } := by
    unfold byRemoteId at hu
    simp [remove, hu]
  rw [hafter]
  unfold findByName
  rw [Finmap.lookup_erase_ne hkey]
  cases hholder : r.byName.lookup name.toAsciiLowercase with
  | none => rfl
  | some holder =>
    obtain ⟨v, hv, hvname⟩ := hb.entries _ holder hholder
    have hother : holder ≠ remoteId := by
      rintro rfl
      obtain rfl : v = u := Option.some.inj (hv.symm.trans hu)
      exact hkey hvname.symm
    exact Finmap.lookup_erase_ne hother

/-- What the removal of an identity frees: its own name, and nothing else. -/
structure Frees (r : BridgeRegistry) (remoteId : Text) (u : BridgedUser) : Prop where
  returned : (r.remove remoteId).1 = some u
  freed : (r.remove remoteId).2.findByName u.name = none
  others : ∀ k v, k ≠ remoteId → r.byRemoteId k = some v →
    (r.remove remoteId).2.findByName v.name = some v
  names : ∀ name, name.eqIgnoreAsciiCase u.name = false →
    (r.remove remoteId).2.findByName name = r.findByName name

theorem remove_frees {r : BridgeRegistry} (hkeyed : r.Keyed) (h : r.Bijection) {remoteId : Text}
    {u : BridgedUser} (hu : r.byRemoteId remoteId = some u) : r.Frees remoteId u := by
  have hindex := (bijection_iff hkeyed).mp h
  have hlookup : r.byRemote.lookup remoteId = some u := hu
  constructor
  · simp [remove, hlookup]
  · simp [remove, hlookup, findByName]
  · intro k v hne hv
    rw [findByName_remove hu hindex (h.distinct k v remoteId u hv hu hne)]
    exact h.reachable k v hv
  · intro name hname
    exact findByName_remove hu hindex hname

theorem keyed_new (tag : BridgeTag) : (new tag).Keyed := by
  intro k u hu
  simp [byRemoteId, new] at hu

/-- **The registry of bridged identities is a bijection**, and exactly when it is. -/
theorem registry_bijection (tag : BridgeTag) (events : List Event) :
    (Always step Bijection (new tag) events ↔ Along step UpsertSafe (new tag) events) ∧
      (Along step UpsertSafe (new tag) events →
        ∀ remoteId u, (run step (new tag) events).byRemoteId remoteId = some u →
          (run step (new tag) events).Frees remoteId u) := by
  have hkeyed : ∀ r e, Keyed r → (step r e).Keyed := fun r e h => h.step e
  have hiff : Always step Bijection (new tag) events ↔ Along step UpsertSafe (new tag) events := by
    refine always_iff_along hkeyed (fun r e hk h => bijection_step hk h e) (keyed_new tag) ?_ events
    exact (bijection_iff (keyed_new tag)).mpr Indexes.empty
  refine ⟨hiff, fun hsafe remoteId u hu => ?_⟩
  exact remove_frees (run_invariant hkeyed (keyed_new tag) events) (hiff.mpr hsafe).last hu

/-! ## Ninety-eight collisions -/

/-- The remote ids of a crowd: `r`, `rr`, `rrr` and so on. -/
def rid (i : Nat) : Text := List.replicate (i + 1) 'r'

/-- The first `n` of a crowd announce themselves under one display name. -/
def crowd (display : Text) (n : Nat) : List Event :=
  (List.range n).map fun i => .upsert (rid i) display i

/-- The first `n` candidate names are taken, each by its own remote id. -/
structure Crowded (r : BridgeRegistry) (tag : BridgeTag) (display : Text) (n : Nat) : Prop where
  tag_eq : r.tag = tag
  taken : ∀ i name, i < n → (candidates tag display)[i]? = some name →
    r.byName.lookup name.toAsciiLowercase = some (rid i)
  spare : ∀ i name, n ≤ i → (candidates tag display)[i]? = some name →
    r.byName.lookup name.toAsciiLowercase = none
  absent : ∀ i, n ≤ i → r.byRemote.lookup (rid i) = none

theorem rid_inj {i j : Nat} (h : rid i = rid j) : i = j := by
  have hlen := congrArg List.length h
  simp only [rid, List.length_replicate] at hlen
  omega

theorem Crowded.allocateName {r : BridgeRegistry} {tag : BridgeTag} {display : Text} {n : Nat}
    (h : r.Crowded tag display n) {name : Text} (hname : (candidates tag display)[n]? = some name) :
    r.allocateName display (rid n) = name := by
  obtain ⟨hn, hget⟩ := List.getElem?_eq_some_iff.mp hname
  rw [allocateName_eq, h.tag_eq]
  have hfind : (candidates tag display).find? (r.isFree (rid n)) = some name := by
    refine List.find?_eq_some_iff_getElem.mpr ⟨?_, n, hn, hget, fun j hj => ?_⟩
    · simp [isFree, h.spare n name le_rfl hname]
    · have hjlen : j < (candidates tag display).length := by omega
      have htaken := h.taken j _ hj (List.getElem?_eq_getElem hjlen)
      simp only [isFree, htaken, Bool.not_eq_eq_eq_not, Bool.not_true, beq_eq_false_iff_ne]
      intro he
      exact absurd (rid_inj he) (by omega)
  rw [hfind]
  rfl

theorem Crowded.next {r : BridgeRegistry} {tag : BridgeTag} {display : Text} {n : Nat}
    (hdistinct : ((candidates tag display).map Text.toAsciiLowercase).Nodup)
    (h : r.Crowded tag display n) (hn : n < (candidates tag display).length) :
    (r.step (.upsert (rid n) display n)).Crowded tag display (n + 1) := by
  have hname : (candidates tag display)[n]? = some (candidates tag display)[n] :=
    List.getElem?_eq_getElem hn
  generalize (candidates tag display)[n] = name at hname
  have hafter : r.step (.upsert (rid n) display n) =
      { r with
        byName := r.byName.insert name.toAsciiLowercase (rid n)
        byRemote := r.byRemote.insert (rid n) ⟨n, rid n, name⟩ } := by
    have hid : rid n ≠ [] := by simp [rid]
    simp [step, upsert, hid, h.absent n le_rfl, h.allocateName hname]
  have hother : ∀ i other, i ≠ n → (candidates tag display)[i]? = some other →
      other.toAsciiLowercase ≠ name.toAsciiLowercase := by
    intro i other hne hother he
    have hi : ((candidates tag display).map Text.toAsciiLowercase)[i]? =
        ((candidates tag display).map Text.toAsciiLowercase)[n]? := by
      rw [List.getElem?_map, List.getElem?_map, hother, hname, Option.map_some, Option.map_some, he]
    have hlt : i < ((candidates tag display).map Text.toAsciiLowercase).length := by
      rw [List.length_map]
      exact (List.getElem?_eq_some_iff.mp hother).1
    exact hne ((List.getElem?_inj hlt hdistinct).mp hi)
  rw [hafter]
  constructor
  · exact h.tag_eq
  · intro i other hi hother'
    change (r.byName.insert name.toAsciiLowercase (rid n)).lookup _ = _
    by_cases hin : i = n
    · subst hin
      obtain rfl : name = other := Option.some.inj (hname.symm.trans hother')
      exact Finmap.lookup_insert _
    · rw [Finmap.lookup_insert_of_ne _ (hother i other hin hother')]
      exact h.taken i other (by omega) hother'
  · intro i other hi hother'
    change (r.byName.insert name.toAsciiLowercase (rid n)).lookup _ = _
    rw [Finmap.lookup_insert_of_ne _ (hother i other (by omega) hother')]
    exact h.spare i other (by omega) hother'
  · intro i hi
    change (r.byRemote.insert (rid n) ⟨n, rid n, name⟩).lookup _ = _
    have hne : rid i ≠ rid n := fun he => absurd (rid_inj he) (by omega)
    rw [Finmap.lookup_insert_of_ne _ hne]
    exact h.absent i (by omega)

theorem crowded_run {tag : BridgeTag} {display : Text}
    (hdistinct : ((candidates tag display).map Text.toAsciiLowercase).Nodup) {n : Nat}
    (hn : n ≤ (candidates tag display).length) :
    (run step (new tag) (crowd display n)).Crowded tag display n := by
  induction n with
  | zero =>
    refine ⟨rfl, fun i name hi => ?_, fun _ _ _ _ => rfl, fun _ _ => rfl⟩
    exact absurd hi (Nat.not_lt_zero i)
  | succ n ih =>
    have hnext := (ih (by omega)).next hdistinct (by omega)
    rw [crowd, List.range_succ, List.map_append, run_append]
    exact hnext

/-- When the candidates are all taken and the name derived from the remote id is one of them,
an upsert is not safe. -/
theorem Crowded.not_safe {r : BridgeRegistry} {tag : BridgeTag} {display remoteId : Text}
    (h : r.Crowded tag display (candidates tag display).length) (hid : remoteId ≠ [])
    (hnew : ∀ i, rid i ≠ remoteId) (hfallback : deriveName tag remoteId none ∈
      candidates tag display) (account : AccountId) :
    ¬ r.UpsertSafe (.upsert remoteId display account) := by
  have htaken : ∀ candidate ∈ candidates tag display, r.isFree remoteId candidate = false := by
    intro candidate hmem
    obtain ⟨i, hi⟩ := List.mem_iff_getElem?.mp hmem
    have hlt := (List.getElem?_eq_some_iff.mp hi).1
    simp only [isFree, h.taken i candidate hlt hi, beq_eq_false_iff_ne]
    exact hnew i
  intro hsafe
  rcases hsafe hid with ⟨candidate, hmem, hfree⟩ | hfree
  · rw [h.tag_eq] at hmem
    rw [htaken candidate hmem] at hfree
    cases hfree
  · rw [h.tag_eq, htaken _ hfallback] at hfree
    cases hfree

def discord : BridgeTag := ⟨['D'], by decide, by decide, by decide⟩

/-- The characters of a name as the digits of a number. -/
def code (name : Text) : Nat := name.foldl (fun n c => n * 0x110000 + c.toNat) 0

theorem nodup_candidates :
    ((candidates discord ['a']).map Text.toAsciiLowercase).Nodup := by
  -- The codes ascend, so only neighbours have to be compared.
  have hascending : (((candidates discord ['a']).map Text.toAsciiLowercase).map code).IsChain
      (· < ·) := by
    decide +kernel
  apply List.Nodup.of_map code
  exact (List.isChain_iff_pairwise.mp hascending).imp Nat.ne_of_lt

/-- Ninety-nine users are called `a` when one with the remote id `a` comes: it is given the
name of the first. -/
theorem fallback_collides : ¬ Always step Bijection (new discord)
    (crowd ['a'] 99 ++ [.upsert ['a'] ['a'] 99]) := by
  intro h
  have hkeyed := run_invariant (P := Keyed) (fun r e hk => hk.step e) (keyed_new discord)
    (crowd ['a'] 99)
  have hcrowded := crowded_run nodup_candidates (n := 99) (by decide)
  obtain ⟨hbefore, hafter⟩ := h.append_right
  have hsafe := (bijection_step hkeyed hbefore _).mp hafter
  refine hcrowded.not_safe (by decide) ?_ ?_ 99 hsafe
  · intro i he
    simp [rid, List.replicate_succ] at he
  · exact List.mem_cons_self

end BridgeRegistry

end CommandCenter.Core
