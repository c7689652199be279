import CommandCenter.Core.BridgeIndex

/-!
# An identity keeps its account, and mostly its name

The account of an identity never changes. Its name settles with one `upsert` if the second call, in
a registry where the first name has been freed and the new one is taken, finds the same.

* `BridgeRegistry.Stable`: every upsert returns the account of the one that added the identity.
* `BridgeRegistry.Idempotent`: the same upsert again changes nothing.
* `BridgeRegistry.Settled`: when it is so. A candidate that was refused and is free afterwards, or a
  fallback that is a candidate but for case, is what a second call finds instead.
-/

namespace CommandCenter.Core

open Rust Library

def Upsert.user : Upsert → BridgedUser
  | .added user | .renamed user _ | .unchanged user => user

namespace BridgeRegistry

/-- Until its removal an identity has the account it was added with. -/
def Stable (r : BridgeRegistry) (remoteId : Text) : Prop :=
  ∀ display account user, (r.upsert remoteId display account).1 = .ok (.added user) →
    user.account = account ∧
      ∀ between : List Event, .remove remoteId ∉ between → ∀ display' account',
        ∃ upsert, ((run step (r.upsert remoteId display account).2 between).upsert remoteId
          display' account').1 = .ok upsert ∧ upsert.user.account = account

/-- The same call again finds nothing to change. -/
def Idempotent (r : BridgeRegistry) (remoteId display : Text) : Prop :=
  ∀ account account', ∃ user,
    (r.upsert remoteId display account).2.upsert remoteId display account' =
      (.ok (.unchanged user), (r.upsert remoteId display account).2)

/-- The candidates before the first that is free. -/
def refused (r : BridgeRegistry) (remoteId display : Text) : List Text :=
  (candidates r.tag display).takeWhile fun candidate => !r.isFree remoteId candidate

/-- No candidate that was refused is the present name but for case. -/
def Kept (r : BridgeRegistry) (remoteId display : Text) : Prop :=
  ∀ prev ∈ r.byRemoteId remoteId, ∀ candidate ∈ r.refused remoteId display,
    candidate.toAsciiLowercase ≠ prev.name.toAsciiLowercase

/-- Some candidate is free and none before it is the present name, which another identity then has
in the index. Or none is free, and the fallback is the present name or the first candidate, or
no more like the first candidate than the candidates are like the present name. -/
def Settled (r : BridgeRegistry) (remoteId display : Text) : Prop :=
  if ∃ candidate ∈ candidates r.tag display, r.isFree remoteId candidate = true then
    r.Kept remoteId display
  else
    (∃ prev ∈ r.byRemoteId remoteId, prev.name = deriveName r.tag remoteId none) ∨
      deriveName r.tag display none = deriveName r.tag remoteId none ∨
      (deriveName r.tag display none).toAsciiLowercase ≠
        (deriveName r.tag remoteId none).toAsciiLowercase ∧ r.Kept remoteId display

/-! ## The account -/

variable {r : BridgeRegistry} {remoteId display : Text}

/-- The identity is there with its account. -/
def Has (remoteId : Text) (account : AccountId) (r : BridgeRegistry) : Prop :=
  ∃ user, r.byRemoteId remoteId = some user ∧ user.account = account

theorem upsert_has {account : AccountId} (hid : remoteId ≠ []) (h : r.Has remoteId account)
    (display : Text) (account' : AccountId) :
    (∃ upsert, (r.upsert remoteId display account').1 = .ok upsert ∧
        upsert.user.account = account) ∧
      (r.upsert remoteId display account').2.Has remoteId account := by
  obtain ⟨prev, hprev, haccount⟩ := h
  have hlookup : r.byRemote.lookup remoteId = some prev := hprev
  unfold upsert
  rw [if_neg hid, hlookup]
  dsimp only
  split
  · exact ⟨⟨_, rfl, haccount⟩, prev, hprev, haccount⟩
  · exact ⟨⟨_, rfl, haccount⟩, _, Finmap.lookup_insert _, haccount⟩

theorem byRemoteId_other {other : Text} (hne : other ≠ remoteId) (display : Text)
    (account : AccountId) :
    (r.step (.upsert other display account)).byRemoteId remoteId = r.byRemoteId remoteId ∧
      (r.step (.remove other)).byRemoteId remoteId = r.byRemoteId remoteId := by
  constructor
  · by_cases hid : other = []
    · subst hid
      rw [step, upsert_empty]
    · rcases r.upsert_spec hid display account with ⟨_, _, _, hsame⟩ | ⟨user, _, _, hafter⟩
      · rw [step, hsame]
      · rw [step, hafter]
        exact Finmap.lookup_insert_of_ne _ hne.symm
  · change (r.remove other).2.byRemote.lookup remoteId = _
    unfold remove
    cases r.byRemote.lookup other with
    | none => rfl
    | some user => exact Finmap.lookup_erase_ne hne.symm

theorem has_step {account : AccountId} (hid : remoteId ≠ []) (h : r.Has remoteId account)
    {e : Event} (hremove : .remove remoteId ≠ e) : (r.step e).Has remoteId account := by
  cases e with
  | upsert other display account' =>
    by_cases hother : other = remoteId
    · subst hother
      exact (upsert_has hid h display account').2
    · rw [Has, (byRemoteId_other hother display account').1]
      exact h
  | remove other =>
    have hother : other ≠ remoteId := fun he => hremove (he ▸ rfl)
    rw [Has, (byRemoteId_other hother [] 0).2]
    exact h

theorem has_run {account : AccountId} (hid : remoteId ≠ []) (h : r.Has remoteId account)
    {events : List Event} (hremove : .remove remoteId ∉ events) :
    (run BridgeRegistry.step r events).Has remoteId account := by
  induction events generalizing r with
  | nil => exact h
  | cons e events ih =>
    exact ih (has_step hid h (List.ne_of_not_mem_cons hremove))
      (List.not_mem_of_not_mem_cons hremove)

theorem stable (hid : remoteId ≠ []) : r.Stable remoteId := by
  intro display account user hadded
  have hnew : (user.account = account) ∧
      (r.upsert remoteId display account).2.Has remoteId account := by
    unfold upsert at hadded ⊢
    rw [if_neg hid] at hadded ⊢
    cases hprev : r.byRemote.lookup remoteId with
    | none =>
      rw [hprev] at hadded
      cases hadded
      exact ⟨rfl, _, Finmap.lookup_insert _, rfl⟩
    | some prev =>
      rw [hprev] at hadded
      dsimp only at hadded
      split at hadded <;> cases hadded
  exact ⟨hnew.1, fun between hbetween display' account' =>
    (upsert_has hid (has_run hid hnew.2 hbetween) display' account').1⟩

/-! ## The name -/

/-- The second call changes nothing exactly if it allocates the name that the first did. -/
theorem idempotent_iff_allocateName (hid : remoteId ≠ []) : r.Idempotent remoteId display ↔
    ∀ account, (r.upsert remoteId display account).2.allocateName display remoteId =
      r.allocateName display remoteId := by
  have hstored : ∀ account, ∃ user,
      (r.upsert remoteId display account).2.byRemote.lookup remoteId = some user ∧
        user.name = r.allocateName display remoteId := by
    intro account
    rcases r.upsert_spec hid display account with
      ⟨prev, hprev, hname, hsame⟩ | ⟨user, _, hname, hafter⟩
    · exact ⟨prev, hsame.symm ▸ hprev, hname⟩
    · exact ⟨user, by rw [hafter]; exact Finmap.lookup_insert _, hname⟩
  refine ⟨fun h account => ?_, fun h account account' => ?_⟩
  · obtain ⟨user, hlookup, hname⟩ := hstored account
    obtain ⟨same, hsame⟩ := h account account
    rw [← hname]
    by_contra hne
    rw [upsert, if_neg hid, hlookup] at hsame
    dsimp only at hsame
    rw [if_neg fun he => hne he.symm] at hsame
    cases (Prod.mk.inj hsame).1
  · obtain ⟨user, hlookup, hname⟩ := hstored account
    refine ⟨user, ?_⟩
    rw [upsert, if_neg hid, hlookup]
    dsimp only
    rw [if_pos (hname.trans (h account).symm)]

/-- What is free after an upsert that stores a name: it, the name before it, and what was free. -/
theorem isFree_upsert (hid : remoteId ≠ [])
    (hnew : ∀ prev ∈ r.byRemoteId remoteId, prev.name ≠ r.allocateName display remoteId)
    (account : AccountId) (candidate : Text) :
    (r.upsert remoteId display account).2.isFree remoteId candidate = true ↔
      candidate.toAsciiLowercase = (r.allocateName display remoteId).toAsciiLowercase ∨
      (∃ prev ∈ r.byRemoteId remoteId,
        candidate.toAsciiLowercase = prev.name.toAsciiLowercase) ∨
      r.isFree remoteId candidate = true := by
  have hlookup : r.byRemote.lookup remoteId = r.byRemoteId remoteId := rfl
  rcases r.upsert_spec hid display account with
    ⟨prev, hprev, hname, _⟩ | ⟨user, _, hname, hafter⟩
  · exact absurd hname (hnew prev hprev)
  rw [hafter, isFree_iff, isFree_iff, BridgedUser.nameKey, hname, hlookup]
  unfold FreeFor
  dsimp only
  by_cases hsame : candidate.toAsciiLowercase =
      (r.allocateName display remoteId).toAsciiLowercase
  · rw [hsame, Finmap.lookup_insert]
    simp
  rw [Finmap.lookup_insert_of_ne _ hsame]
  simp only [hsame, false_or]
  cases r.byRemoteId remoteId with
  | none => simp [unname]
  | some prev =>
    by_cases hprev : candidate.toAsciiLowercase = prev.name.toAsciiLowercase
    · refine iff_of_true (fun holder hholder => ?_) (.inl ⟨prev, rfl, hprev⟩)
      change (r.byName.erase prev.name.toAsciiLowercase).lookup _ = _ at hholder
      rw [hprev, Finmap.lookup_erase] at hholder
      cases hholder
    · simp [unname, BridgedUser.nameKey, hprev, Finmap.lookup_erase_ne hprev]

theorem upsert_same (hid : remoteId ≠ []) {prev : BridgedUser}
    (hprev : r.byRemoteId remoteId = some prev)
    (hname : prev.name = r.allocateName display remoteId) (account : AccountId) :
    (r.upsert remoteId display account).2 = r := by
  have hlookup : r.byRemote.lookup remoteId = some prev := hprev
  rw [upsert, if_neg hid, hlookup]
  dsimp only
  rw [if_pos hname]

theorem upsert_tag (display : Text) (account : AccountId) :
    (r.upsert remoteId display account).2.tag = r.tag := by
  by_cases hid : remoteId = []
  · rw [hid, upsert_empty]
  · rcases r.upsert_spec hid display account with ⟨_, _, _, hsame⟩ | ⟨_, _, _, hafter⟩
    · rw [hsame]
    · rw [hafter]

/-- Another search with more hits stops at the same place if it has none of them before. -/
theorem find?_of_imp {α : Type*} {p q : α → Bool} (hpq : ∀ x, p x = true → q x = true)
    {l : List α} {x : α} (h : l.find? p = some x) :
    l.find? q = some x ↔ ∀ y ∈ l.takeWhile fun y => !p y, q y = false := by
  induction l with
  | nil => cases h
  | cons y l ih =>
    cases hy : p y with
    | true =>
      rw [List.find?_cons_of_pos hy] at h
      rw [List.find?_cons_of_pos (hpq y hy), List.takeWhile_cons_of_neg (by simp [hy])]
      simpa using h
    | false =>
      rw [List.find?_cons_of_neg (by simp [hy])] at h
      rw [List.takeWhile_cons_of_pos (by simp [hy]), List.forall_mem_cons]
      cases hqy : q y with
      | true =>
        rw [List.find?_cons_of_pos hqy]
        refine iff_of_false (fun he => ?_) fun hall => Bool.noConfusion hall.1
        obtain rfl := Option.some.inj he
        rw [List.find?_some h] at hy
        cases hy
      | false =>
        rw [List.find?_cons_of_neg (by simp [hqy]), ih h]
        simp

theorem numbered_ne_fallback {tag : BridgeTag} {n : Nat} :
    (deriveName tag display (some n)).toAsciiLowercase ≠
      (deriveName tag remoteId none).toAsciiLowercase := by
  intro h
  have hhash : '#' ∈ (deriveName tag display (some n)).toAsciiLowercase :=
    (Text.mem_toAsciiLowercase_iff (by decide)).mpr (hash_mem_deriveName_iff.mpr rfl)
  rw [h, Text.mem_toAsciiLowercase_iff (by decide), hash_mem_deriveName_iff] at hhash
  cases hhash

/-- What the second call finds free, for a name that the first call has changed. -/
structure Changed (r : BridgeRegistry) (remoteId display : Text) (free : Text → Bool) : Prop where
  new : ∀ prev ∈ r.byRemoteId remoteId, prev.name ≠ r.allocateName display remoteId
  free_iff : ∀ candidate, free candidate = true ↔
    candidate.toAsciiLowercase = (r.allocateName display remoteId).toAsciiLowercase ∨
    (∃ prev ∈ r.byRemoteId remoteId,
      candidate.toAsciiLowercase = prev.name.toAsciiLowercase) ∨
    r.isFree remoteId candidate = true

variable {free : Text → Bool}

theorem Changed.free_of_isFree (h : r.Changed remoteId display free) (candidate : Text)
    (hfree : r.isFree remoteId candidate = true) : free candidate = true :=
  (h.free_iff candidate).mpr (.inr (.inr hfree))

/-- With a free candidate the names that were refused are refused again, but for the one before. -/
theorem Changed.free_candidate (h : r.Changed remoteId display free)
    (hfree : ∃ candidate ∈ candidates r.tag display, r.isFree remoteId candidate = true) :
    ((candidates r.tag display).find? free).getD (deriveName r.tag remoteId none) =
      r.allocateName display remoteId ↔ r.Kept remoteId display := by
  obtain ⟨name, hfind⟩ := Option.isSome_iff_exists.mp (List.find?_isSome.mpr hfree)
  have hname : r.allocateName display remoteId = name := by
    rw [allocateName_eq, hfind]
    rfl
  have hsome : ((candidates r.tag display).find? free).isSome :=
    List.find?_isSome.mpr ⟨name, List.mem_of_find?_eq_some hfind,
      h.free_of_isFree name (List.find?_some hfind)⟩
  obtain ⟨found, hfound⟩ := Option.isSome_iff_exists.mp hsome
  have hagain := find?_of_imp h.free_of_isFree hfind
  rw [hfound, Option.some_inj] at hagain
  rw [hfound, Option.getD_some, hname, hagain]
  have hrefused : ∀ candidate ∈ r.refused remoteId display, free candidate = false ↔
      ∀ prev ∈ r.byRemoteId remoteId,
        candidate.toAsciiLowercase ≠ prev.name.toAsciiLowercase := by
    intro candidate hmem
    have hnot : r.isFree remoteId candidate = false := by
      simpa using List.mem_takeWhile_imp hmem
    have hother : candidate.toAsciiLowercase ≠ name.toAsciiLowercase := by
      intro he
      have hfreeName := List.find?_some hfind
      rw [isFree_iff] at hfreeName
      rw [← Bool.not_eq_true, isFree_iff, he] at hnot
      exact hnot hfreeName
    rw [← Bool.not_eq_true, h.free_iff, hname]
    simp [hnot, hother]
  constructor
  · intro hall prev hprev candidate hmem
    exact (hrefused candidate hmem).mp (hall candidate hmem) prev hprev
  · intro hkept candidate hmem
    exact (hrefused candidate hmem).mpr fun prev hprev => hkept prev hprev candidate hmem

/-- With none the fallback is found again if it is the first candidate, or none is free now. -/
theorem Changed.fallback (h : r.Changed remoteId display free)
    (hnone : ∀ candidate ∈ candidates r.tag display, r.isFree remoteId candidate = false) :
    ((candidates r.tag display).find? free).getD (deriveName r.tag remoteId none) =
      r.allocateName display remoteId ↔
      deriveName r.tag display none = deriveName r.tag remoteId none ∨
      (deriveName r.tag display none).toAsciiLowercase ≠
        (deriveName r.tag remoteId none).toAsciiLowercase ∧ r.Kept remoteId display := by
  have hname : r.allocateName display remoteId = deriveName r.tag remoteId none := by
    rw [allocateName_eq, List.find?_eq_none.mpr fun c hc => by simp [hnone c hc]]
    rfl
  have hrefused : r.refused remoteId display = candidates r.tag display :=
    List.takeWhile_eq_self_iff.mpr fun c hc => by simp [hnone c hc]
  have hfree : ∀ candidate ∈ candidates r.tag display, free candidate = true ↔
      candidate.toAsciiLowercase = (deriveName r.tag remoteId none).toAsciiLowercase ∨
      ∃ prev ∈ r.byRemoteId remoteId,
        candidate.toAsciiLowercase = prev.name.toAsciiLowercase := by
    intro candidate hmem
    rw [h.free_iff, hname, hnone candidate hmem]
    simp
  rw [hname]
  by_cases hfirst : (deriveName r.tag display none).toAsciiLowercase =
      (deriveName r.tag remoteId none).toAsciiLowercase
  · have hfound : (candidates r.tag display).find? free = some (deriveName r.tag display none) :=
      List.find?_cons_of_pos ((hfree _ List.mem_cons_self).mpr (.inl hfirst))
    rw [hfound]
    simp [hfirst]
  · have hother : deriveName r.tag display none ≠ deriveName r.tag remoteId none :=
      fun he => hfirst (congrArg _ he)
    have hkeys : ∀ candidate ∈ candidates r.tag display, candidate.toAsciiLowercase ≠
        (deriveName r.tag remoteId none).toAsciiLowercase := by
      intro candidate hmem
      rcases List.mem_cons.mp hmem with rfl | hnumbered
      · exact hfirst
      · obtain ⟨n, -, rfl⟩ := List.mem_map.mp hnumbered
        exact numbered_ne_fallback
    simp only [hother, hfirst, false_or, ne_eq, not_false_eq_true, true_and]
    constructor
    · intro hfallback prev hprev candidate hmem he
      rw [hrefused] at hmem
      have hsome : ((candidates r.tag display).find? free).isSome :=
        List.find?_isSome.mpr ⟨candidate, hmem, (hfree candidate hmem).mpr (.inr ⟨prev, hprev, he⟩)⟩
      obtain ⟨found, hfound⟩ := Option.isSome_iff_exists.mp hsome
      rw [hfound, Option.getD_some] at hfallback
      exact hkeys found (List.mem_of_find?_eq_some hfound) (congrArg _ hfallback)
    · intro hkept
      have hnot : ∀ candidate ∈ candidates r.tag display, ¬ free candidate = true := by
        intro candidate hmem hcandidate
        rcases (hfree candidate hmem).mp hcandidate with he | ⟨prev, hprev, he⟩
        · exact hkeys candidate hmem he
        · exact hkept prev hprev candidate (hrefused.symm ▸ hmem) he
      rw [List.find?_eq_none.mpr hnot]
      rfl

/-- A present name that is allocated again was not refused. -/
theorem kept_of_same {prev : BridgedUser}
    (hprev : r.byRemoteId remoteId = some prev)
    (hname : prev.name = r.allocateName display remoteId)
    (hfree : ∃ candidate ∈ candidates r.tag display, r.isFree remoteId candidate = true) :
    r.Kept remoteId display := by
  obtain ⟨name, hfind⟩ := Option.isSome_iff_exists.mp (List.find?_isSome.mpr hfree)
  have hsame : prev.name = name := by
    rw [hname, allocateName_eq, hfind]
    rfl
  intro prev' hprev' candidate hmem he
  obtain rfl : prev = prev' := Option.some.inj (hprev.symm.trans hprev')
  have hnot : r.isFree remoteId candidate = false := by
    simpa using List.mem_takeWhile_imp hmem
  have hfreeName := List.find?_some hfind
  rw [isFree_iff, ← hsame, ← he, ← isFree_iff, hnot] at hfreeName
  cases hfreeName

theorem idempotent_iff (hid : remoteId ≠ []) :
    r.Idempotent remoteId display ↔ r.Settled remoteId display := by
  rw [idempotent_iff_allocateName hid, Settled]
  by_cases hsame : ∃ prev ∈ r.byRemoteId remoteId, prev.name = r.allocateName display remoteId
  · obtain ⟨prev, hprev, hname⟩ := hsame
    refine iff_of_true (fun account => by rw [upsert_same hid hprev hname]) ?_
    split
    · rename_i hfree
      exact kept_of_same hprev hname hfree
    · rename_i hnone
      refine .inl ⟨prev, hprev, ?_⟩
      rw [hname, allocateName_eq, List.find?_eq_none.mpr fun c hc hfree => hnone ⟨c, hc, hfree⟩]
      rfl
  · have hnew : ∀ prev ∈ r.byRemoteId remoteId, prev.name ≠ r.allocateName display remoteId :=
      fun prev hprev he => hsame ⟨prev, hprev, he⟩
    have hchanged : ∀ account, r.Changed remoteId display
        ((r.upsert remoteId display account).2.isFree remoteId) :=
      fun account => ⟨hnew, isFree_upsert hid hnew account⟩
    simp only [allocateName_eq (Prod.snd _), upsert_tag]
    split
    · rename_i hfree
      exact ⟨fun h => ((hchanged 0).free_candidate hfree).mp (h 0),
        fun h account => ((hchanged account).free_candidate hfree).mpr h⟩
    · rename_i hnone
      have hnone' : ∀ candidate ∈ candidates r.tag display,
          r.isFree remoteId candidate = false := by
        intro candidate hmem
        exact Bool.eq_false_iff.mpr fun hfree => hnone ⟨candidate, hmem, hfree⟩
      have hfallback : ¬ ∃ prev ∈ r.byRemoteId remoteId,
          prev.name = deriveName r.tag remoteId none := by
        rintro ⟨prev, hprev, he⟩
        refine hnew prev hprev ?_
        rw [he, allocateName_eq, List.find?_eq_none.mpr fun c hc => by simp [hnone' c hc]]
        rfl
      rw [or_iff_right hfallback]
      exact ⟨fun h => ((hchanged 0).fallback hnone').mp (h 0),
        fun h account => ((hchanged account).fallback hnone').mpr h⟩

/-- **An identity keeps its account, and the same upsert again changes nothing** exactly if its name
is settled. -/
theorem upsert_stable_iff (tag : BridgeTag) (events : List Event) (remoteId display : Text)
    (hid : remoteId ≠ []) :
    (run step (new tag) events).Stable remoteId ∧
        (run step (new tag) events).Idempotent remoteId display ↔
      (run step (new tag) events).Settled remoteId display := by
  rw [and_iff_right (stable hid), idempotent_iff hid]

/-- The second of two users of one name. -/
theorem upsert_stable_second : (run step (new discord) [.upsert ['1'] ['a'] 0]).Idempotent
    ['2'] ['a'] :=
  ((upsert_stable_iff discord [.upsert ['1'] ['a'] 0] ['2'] ['a'] (by decide)).mpr
    (by unfold Settled Kept refused; decide)).2

theorem crowd_leaves {tag : BridgeTag} (hne : ∀ i, rid i ≠ remoteId) (n : Nat) :
    (run step (new tag) (crowd display n)).byRemoteId remoteId = none := by
  induction n with
  | zero => rfl
  | succ n ih =>
    rw [crowd, List.range_succ, List.map_append, run_append]
    exact (byRemoteId_other (hne n) display n).1.trans ih

/-- Ninety-nine users are called `a` when one with the remote id `A` comes: the second call gives it
the name of the first. -/
theorem fallback_unsettled : ¬ ∀ tag events remoteId display, remoteId ≠ [] →
    (run step (new tag) events).Stable remoteId ∧
      (run step (new tag) events).Idempotent remoteId display := by
  intro h
  have hidempotent := (h discord (crowd ['a'] 99) ['A'] ['a'] (by decide)).2
  have hcrowded := crowded_run nodup_candidates (n := 99) (by decide)
  have hother : ∀ i, rid i ≠ ['A'] := by
    intro i he
    simp [rid, List.replicate_succ] at he
  rw [idempotent_iff (by decide), Settled, if_neg] at hidempotent
  · rcases hidempotent with ⟨prev, hprev, hname⟩ | hfirst | ⟨hcase, -⟩
    · rw [crowd_leaves hother] at hprev
      cases hprev
    · rw [hcrowded.tag_eq] at hfirst
      exact absurd hfirst (by decide)
    · rw [hcrowded.tag_eq] at hcase
      exact absurd hcase (by decide)
  · rintro ⟨candidate, hmem, hfree⟩
    rw [hcrowded.tag_eq] at hmem
    obtain ⟨i, hi⟩ := List.mem_iff_getElem?.mp hmem
    have htaken := hcrowded.taken i candidate (List.getElem?_eq_some_iff.mp hi).1 hi
    rw [isFree, htaken] at hfree
    exact hother i (beq_iff_eq.mp hfree)

end BridgeRegistry

end CommandCenter.Core
