import CommandCenter.Storage.FlushFailure
import CommandCenter.Storage.Transparency

/-!
# How much a crash can lose

Over a backend that does not fail, a buffered attribute is written once the flush interval has
passed. The deadline is kept by one timestamp, `last_flush_ms`, which ticks and flushes move. It
moves only when nothing stays buffered, so as long as an attribute is owed it is no later than the
time of the write.

* `Reliable`: what is assumed of the backend.
* `WriteBehind.Owed.handle`: an attribute stays owed, or becomes durable.
* `WriteBehind.Owed.tick`: a tick after the deadline makes it durable.
* `WriteBehind.loss_is_bounded`: the bound, for every run.
-/

namespace CommandCenter.Storage

open Rust CommandCenter.Core Library

/-- Whether the call may change the attributes of the account in a backend: it puts some, deletes
the account, or creates an account with that id. -/
def Call.Concerns {B : Type} [Storage B] (b : B) (id : AccountId) : Call → Prop
  | .attrsPut x _ | .deleteAccount x => x = id
  | .createAccount req => ∃ a, (Storage.createAccount b req).1 = .ok a ∧ a.id = id
  | _ => False

/-- A backend that does not fail, and whose calls change the attributes only of the accounts that
they are about. -/
structure Reliable (B : Type) [Storage B] : Prop extends KeepsAttrs B where
  puts : ∀ (b : B) id attrs, (Storage.attrsPut b id attrs).1 = .ok ()
  flushes : ∀ (b : B) drain, (Storage.flush b drain).1 = .ok ()
  reads : ∀ (b : B) id, ∃ out, (Storage.attrsAll b id).1 = .ok out
  others : ∀ (b : B) (c : Call) id, ¬ c.Concerns b id →
    (Storage.attrsAll (answer b c).2 id).1 = (Storage.attrsAll b id).1

/-- The backend has the value under the account's key. -/
def Holds {B : Type} [Storage B] (b : B) (id : AccountId) (k : AttrKey) (v : Text) : Prop :=
  ∃ out, (Storage.attrsAll b id).1 = .ok out ∧ out.lookup k = some v

namespace WriteBehind

variable {B : Type} {id : AccountId} {k : AttrKey} {v : Text} {t : Nat} {s : WriteBehind B}

/-! ## What is buffered -/

/-- What is buffered under the account's key. -/
def buffered (s : WriteBehind B) (id : AccountId) (k : AttrKey) : Option Text :=
  (s.dirty.lookup id).bind fun attrs => attrs.lookup k

theorem buffered_of_empty (h : s.dirty = ∅) : s.buffered id k = none := by
  rw [buffered, h]
  rfl

theorem buffered_attrsPut {attrs : AttrMap} (h : attrs.lookup k = some v) :
    (s.attrsPut id attrs).2.buffered id k = some v := by
  have hne : ¬ attrs.isEmpty = true := by
    intro hempty
    rw [Map.isEmpty_iff.mp hempty, Finmap.lookup_empty] at h
    cases h
  rw [attrsPut, if_neg hne]
  change ((s.dirty.extendAt id attrs).lookup id).bind _ = _
  rw [Map.extendAt, Finmap.lookup_insert, Option.bind_some, Map.lookup_extend, h]
  rfl

theorem buffered_attrsPut_other {x : AccountId} {attrs : AttrMap} (h : ¬ (x = id ∧ k ∈ attrs)) :
    (s.attrsPut x attrs).2.buffered id k = s.buffered id k := by
  unfold attrsPut
  split
  · rfl
  · change ((s.dirty.extendAt x attrs).lookup id).bind _ = _
    unfold buffered
    by_cases hx : id = x
    · subst hx
      have hk : attrs.lookup k = none := Finmap.lookup_eq_none.mpr fun hk => h ⟨rfl, hk⟩
      rw [Map.extendAt, Finmap.lookup_insert, Option.bind_some, Map.lookup_extend, hk,
        Option.none_or]
      cases s.dirty.lookup id <;> rfl
    · rw [Map.extendAt, Finmap.lookup_insert_of_ne _ hx]

theorem buffered_deleteAccount [Storage B] {x : AccountId} (hx : id ≠ x) :
    (s.deleteAccount x).2.buffered id k = s.buffered id k := by
  unfold deleteAccount
  split
  · change ((s.dirty.erase x).lookup id).bind _ = _
    rw [Finmap.lookup_erase_ne hx, buffered]
  · rfl

theorem backend_attrsPut (x : AccountId) (attrs : AttrMap) :
    (s.attrsPut x attrs).2.backend = s.backend := by
  unfold attrsPut
  split <;> rfl

theorem lastFlushMs_attrsPut (x : AccountId) (attrs : AttrMap) :
    (s.attrsPut x attrs).2.lastFlushMs = s.lastFlushMs := by
  unfold attrsPut
  split <;> rfl

variable [Storage B]

theorem lastFlushMs_deleteAccount (x : AccountId) :
    (s.deleteAccount x).2.lastFlushMs = s.lastFlushMs := by
  unfold deleteAccount
  split <;> rfl

/-! ## A flush -/

theorem refusals_eq_nil (h : Reliable B) (b : B) (pending : List (Σ _ : AccountId, AttrMap)) :
    refusals b pending = [] := by
  induction pending generalizing b with
  | nil => rfl
  | cons e pending ih =>
    have hput := h.puts b e.1 e.2
    unfold refusals
    split
    · exact ih _
    · rename_i heq
      rw [heq] at hput
      cases hput

theorem firstErr_flushed (h : Reliable B) (f : Flushing B)
    (pending : List (Σ _ : AccountId, AttrMap)) :
    (pending.foldl Flushing.write f).firstErr = f.firstErr := by
  induction pending generalizing f with
  | nil => rfl
  | cons e pending ih =>
    refine (ih (f.write e)).trans ?_
    have hput := h.puts f.backend e.1 e.2
    rcases write_cases h.toKeepsAttrs f e with ⟨err, heq, -⟩ | ⟨b, -, hwrite, -⟩
    · rw [heq] at hput
      cases hput
    · rw [hwrite]

theorem flushNow_empties (h : Reliable B) (s : WriteBehind B) (nowMs : Nat) (drain : Drain) :
    (s.flushNow nowMs drain).2.dirty = ∅ ∧ (s.flushNow nowMs drain).2.lastFlushMs = nowMs := by
  have hnone : ((drain.order s.dirty).foldl Flushing.write ⟨s.backend, ∅, none⟩).firstErr = none :=
    firstErr_flushed h _ _
  have hstamp : (s.flushNow nowMs drain).2.lastFlushMs = nowMs := by
    simp only [flushNow, hnone]
    rfl
  refine ⟨?_, hstamp⟩
  apply Finmap.ext_lookup
  intro id
  rw [(flushNow_spec h.toKeepsAttrs s nowMs drain id).1, failed, refusals_eq_nil h,
    if_neg List.not_mem_nil]
  rfl

theorem flushNow_writes (h : Reliable B) (s : WriteBehind B) (nowMs : Nat) (drain : Drain)
    (id : AccountId) :
    (Storage.attrsAll (s.flushNow nowMs drain).2.backend id).1 = (s.attrsAll id).1 := by
  obtain ⟨hempty, -⟩ := flushNow_empties h s nowMs drain
  have hread := (flushNow_spec h.toKeepsAttrs s nowMs drain id).2.2 .all
  rw [of_eq, hempty] at hread
  exact hread

/-- What is read of the account under the key is what is buffered, or else what is stored. -/
theorem lookup_attrsAll {out : AttrMap} (hout : (Storage.attrsAll s.backend id).1 = .ok out) :
    ∃ seen, (s.attrsAll id).1 = .ok seen ∧
      seen.lookup k = (s.buffered id k).or (out.lookup k) := by
  have hread : (s.attrsAll id).1 = _ := of_eq s .all id
  have hof : AttrRead.all.of s.backend id = .ok out := hout
  rw [hread, buffered, hof]
  cases s.dirty.lookup id with
  | none => exact ⟨out, rfl, rfl⟩
  | some attrs => exact ⟨out.extend attrs, rfl, Map.lookup_extend out attrs k⟩

/-! ## One attribute -/

/-- The attribute is buffered, since `t` or before. -/
structure Owed (id : AccountId) (k : AttrKey) (v : Text) (t : Nat) (s : WriteBehind B) : Prop where
  pending : s.buffered id k = some v
  since : s.lastFlushMs ≤ t

/-- The attribute is in the backend, and nothing is buffered in its place. -/
structure Durable (id : AccountId) (k : AttrKey) (v : Text) (s : WriteBehind B) : Prop where
  stored : Holds s.backend id k v
  settled : s.buffered id k = none

/-- The event puts another value under the key, or deletes the account. -/
def Event.Overwrites (id : AccountId) (k : AttrKey) : Event → Prop
  | .call (.attrsPut x attrs) => x = id ∧ k ∈ attrs
  | .call (.deleteAccount x) => x = id
  | _ => False

/-- The event creates an account with that id. -/
def Creates (id : AccountId) (s : WriteBehind B) : Event → Prop
  | .call (.createAccount req) =>
    ∃ a, (Storage.createAccount s.backend req).1 = .ok a ∧ a.id = id
  | _ => False

theorem durable_flushNow (h : Reliable B) (hseen : s.buffered id k = some v ∨
    s.buffered id k = none ∧ Holds s.backend id k v) (nowMs : Nat) (drain : Drain) :
    (s.flushNow nowMs drain).2.Durable id k v := by
  obtain ⟨hempty, -⟩ := flushNow_empties h s nowMs drain
  obtain ⟨out, hout⟩ := h.reads s.backend id
  obtain ⟨seen, hread, hlookup⟩ := lookup_attrsAll (k := k) hout
  refine ⟨⟨seen, (flushNow_writes h s nowMs drain id).trans hread, ?_⟩, buffered_of_empty hempty⟩
  rcases hseen with hbuffered | ⟨hnone, out', hout', hv⟩
  · rw [hlookup, hbuffered]
    rfl
  · obtain rfl : out' = out := Except.ok.inj (hout'.symm.trans hout)
    rw [hlookup, hnone]
    exact hv

theorem Owed.handle (h : Reliable B) (ho : s.Owed id k v t) {e : Event}
    (hkept : ¬ e.Overwrites id k) :
    (s.handle e).2.Owed id k v t ∨ (s.handle e).2.Durable id k v := by
  have heffect := s.effect e
  generalize (s.handle e).2 = s' at heffect ⊢
  cases heffect with
  | put x attrs =>
    refine Or.inl ⟨(buffered_attrsPut_other hkept).trans ho.pending, ?_⟩
    rw [lastFlushMs_attrsPut]
    exact ho.since
  | delete x =>
    have hx : id ≠ x := fun he => hkept he.symm
    refine Or.inl ⟨(buffered_deleteAccount hx).trans ho.pending, ?_⟩
    rw [lastFlushMs_deleteAccount]
    exact ho.since
  | flush e drain => exact Or.inr (durable_flushNow h (Or.inl ho.pending) _ drain)
  | idle nowMs drain hempty =>
    have hpending := ho.pending
    rw [buffered_of_empty hempty] at hpending
    cases hpending
  | early => exact Or.inl ho
  | through => exact Or.inl ⟨ho.pending, ho.since⟩

theorem Owed.tick (h : Reliable B) (ho : s.Owed id k v t) {nowMs : Nat} (drain : Drain)
    (hdue : t + s.policy.intervalMs ≤ nowMs) : (s.tick nowMs drain).2.Durable id k v := by
  have heffect := s.effect_tick nowMs drain
  generalize (s.tick nowMs drain).2 = s' at heffect ⊢
  cases heffect with
  | flush e drain => exact durable_flushNow h (Or.inl ho.pending) _ drain
  | idle nowMs drain hempty =>
    have hpending := ho.pending
    rw [buffered_of_empty hempty] at hpending
    cases hpending
  | early nowMs drain hearly =>
    have hsince := ho.since
    have hnow : s.policy.intervalMs ≤ nowMs - s.lastFlushMs := by omega
    simp [due, hnow] at hearly

/-- A durable attribute stays so until it is overwritten or an account is created with its id. -/
theorem Durable.handle (h : Reliable B) (hd : s.Durable id k v) {e : Event}
    (hkept : ¬ e.Overwrites id k) (hcreates : ¬ s.Creates id e) :
    (s.handle e).2.Durable id k v := by
  -- The backend keeps what it holds through a call that does not concern the account.
  have hholds : ∀ c : Call, ¬ c.Concerns s.backend id →
      Holds (answer s.backend c).2 id k v := by
    intro c hconcerns
    obtain ⟨out, hout, hv⟩ := hd.stored
    exact ⟨out, (h.others s.backend c id hconcerns).trans hout, hv⟩
  have heffect := s.effect e
  generalize (s.handle e).2 = s' at heffect ⊢
  cases heffect with
  | put x attrs =>
    refine ⟨?_, (buffered_attrsPut_other hkept).trans hd.settled⟩
    rw [backend_attrsPut]
    exact hd.stored
  | delete x =>
    have hx : id ≠ x := fun he => hkept he.symm
    refine ⟨?_, (buffered_deleteAccount hx).trans hd.settled⟩
    rw [backend_deleteAccount]
    exact hholds (.deleteAccount x) fun he => hx he.symm
  | flush e drain => exact durable_flushNow h (Or.inr ⟨hd.settled, hd.stored⟩) _ drain
  | idle => exact ⟨hd.stored, hd.settled⟩
  | early => exact hd
  | through c hput =>
    refine ⟨hholds c fun hconcerns => ?_, hd.settled⟩
    cases c with
    | attrsPut x attrs => exact hput x attrs rfl
    | deleteAccount x => exact hkept hconcerns
    | createAccount req => exact hcreates hconcerns
    | _ => exact hconcerns

/-! ## Runs -/

/-- The last time that was given, `t` before the events. -/
def clock (t : Nat) (events : List Event) : Nat := (events.filterMap Event.stamp?).getLastD t

theorem stamps_cons (e : Event) (events : List Event) :
    (e :: events).filterMap Event.stamp? = e.stamp?.toList ++ events.filterMap Event.stamp? := by
  cases e <;> rfl

theorem clock_cons (t : Nat) (e : Event) (events : List Event) :
    clock t (e :: events) = clock (e.stamp?.getD t) events := by
  rw [clock, stamps_cons, clock]
  cases e.stamp? with
  | none => rfl
  | some nowMs => exact List.getLastD_cons ..

theorem policy_handle (s : WriteBehind B) (e : Event) : (s.handle e).2.policy = s.policy := by
  have heffect := s.effect e
  generalize (s.handle e).2 = s' at heffect ⊢
  cases heffect with
  | put x attrs =>
    unfold attrsPut
    split <;> rfl
  | delete x =>
    unfold deleteAccount
    split <;> rfl
  | flush e drain =>
    unfold flushNow
    dsimp only
    split <;> rfl
  | idle | early | through => rfl

theorem policy_after (s : WriteBehind B) (events : List Event) :
    (after WriteBehind.handle s events).policy = s.policy := by
  induction events generalizing s with
  | nil => rfl
  | cons e events ih => exact (ih _).trans (policy_handle s e)

theorem lastFlushMs_handle (h : Reliable B) (hs : s.lastFlushMs ≤ t) {e : Event}
    (hle : t ≤ e.stamp?.getD t) : (s.handle e).2.lastFlushMs ≤ e.stamp?.getD t := by
  have heffect := s.effect e
  generalize (s.handle e).2 = s' at heffect ⊢
  cases heffect with
  | put x attrs =>
    rw [lastFlushMs_attrsPut]
    exact hs
  | delete x =>
    rw [lastFlushMs_deleteAccount]
    exact hs
  | flush e drain =>
    rw [(flushNow_empties h s _ drain).2]
    cases e.stamp? with
    | none => exact hs
    | some nowMs => exact Nat.le_refl nowMs
  | idle nowMs drain => exact Nat.le_refl nowMs
  | early => exact hs.trans hle
  | through => exact hs

theorem lastFlushMs_after (h : Reliable B) {events : List Event} (hs : s.lastFlushMs ≤ t)
    (hordered : (t :: events.filterMap Event.stamp?).Pairwise (· ≤ ·)) :
    (after WriteBehind.handle s events).lastFlushMs ≤ clock t events := by
  induction events generalizing s t with
  | nil => exact hs
  | cons e events ih =>
    rw [stamps_cons] at hordered
    obtain ⟨hle, hordered⟩ := pairwise_clock hordered
    rw [clock_cons]
    exact ih (lastFlushMs_handle h hs hle) hordered

/-- Along a run that does not overwrite it, an attribute stays owed or becomes durable. -/
theorem Owed.after (h : Reliable B) (ho : s.Owed id k v t) {events : List Event}
    (hkept : ∀ e ∈ events, ¬ e.Overwrites id k) :
    (after WriteBehind.handle s events).Owed id k v t ∨
      ∃ mid, mid <+: events ∧ (Library.after WriteBehind.handle s mid).Durable id k v := by
  induction events generalizing s with
  | nil => exact Or.inl ho
  | cons e events ih =>
    rcases ho.handle h (hkept e List.mem_cons_self) with howed | hdurable
    · rcases ih howed fun e he => hkept e (List.mem_cons_of_mem _ he) with h' | ⟨mid, hmid, hd⟩
      · exact Or.inl h'
      · exact Or.inr ⟨e :: mid, List.cons_prefix_cons.mpr ⟨rfl, hmid⟩, hd⟩
    · exact Or.inr ⟨[e], ⟨events, rfl⟩, hdurable⟩

theorem owed_or_durable_after (h : Reliable B) (hs : s.Owed id k v t ∨ s.Durable id k v)
    {events : List Event} (hkept : ∀ e ∈ events, ¬ e.Overwrites id k)
    (hcreates : Along (fun s e => (s.handle e).2) (fun s e => ¬ s.Creates id e) s events) :
    (after WriteBehind.handle s events).Owed id k v t ∨
      (after WriteBehind.handle s events).Durable id k v := by
  induction events generalizing s with
  | nil => exact hs
  | cons e events ih =>
    have he := hkept e List.mem_cons_self
    refine ih ?_ (fun e he => hkept e (List.mem_cons_of_mem _ he)) hcreates.2
    rcases hs with howed | hdurable
    · exact howed.handle h he
    · exact Or.inr (hdurable.handle h he hcreates.1)

theorem owed_attrsPut {attrs : AttrMap} (hattrs : attrs.lookup k = some v)
    (hs : s.lastFlushMs ≤ t) : (answer s (.attrsPut id attrs)).2.Owed id k v t :=
  ⟨buffered_attrsPut hattrs, (s.lastFlushMs_attrsPut id attrs).symm ▸ hs⟩

/-- **What a crash can lose is bounded by the flush interval.** An attribute is put, the last time
given before being `t`. Once a tick is given a time `t + interval` or later, the attribute has
been durable at some point since, or was overwritten or deleted; and it is durable after the tick
if no account was created under its id in between. -/
theorem loss_is_bounded (h : Reliable B) (backend : B) (policy : FlushPolicy) (startMs : Nat)
    (earlier later : List Event) {attrs : AttrMap} (hattrs : attrs.lookup k = some v)
    (nowMs : Nat) (drain : Drain)
    (hordered : (startMs :: ((earlier ++ later).filterMap Event.stamp? ++ [nowMs])).Pairwise
      (· ≤ ·))
    (hdue : clock startMs earlier + policy.intervalMs ≤ nowMs) :
    (∃ e ∈ later, e.Overwrites id k) ∨
    (∃ events, events <+: later ++ [.tick nowMs drain] ∧
      (after handle (new backend policy startMs)
        (earlier ++ .call (.attrsPut id attrs) :: events)).Durable id k v) ∧
    (Along (fun s e => (s.handle e).2) (fun s e => ¬ s.Creates id e)
        (after handle (new backend policy startMs) (earlier ++ [.call (.attrsPut id attrs)]))
        later →
      (after handle (new backend policy startMs)
        (earlier ++ .call (.attrsPut id attrs) :: (later ++ [.tick nowMs drain]))).Durable
          id k v) := by
  by_cases hover : ∃ e ∈ later, e.Overwrites id k
  · exact Or.inl hover
  have hkept : ∀ e ∈ later, ¬ e.Overwrites id k := fun e he hov => hover ⟨e, he, hov⟩
  refine Or.inr ?_
  have hearlier : (startMs :: earlier.filterMap Event.stamp?).Pairwise (· ≤ ·) := by
    refine hordered.sublist (List.Sublist.cons_cons startMs ?_)
    rw [List.filterMap_append, List.append_assoc]
    exact List.sublist_append_left _ _
  have hstamp : (after handle (new backend policy startMs) earlier).lastFlushMs ≤
      clock startMs earlier := lastFlushMs_after h (Nat.le_refl startMs) hearlier
  have howed : (answer (after handle (new backend policy startMs) earlier)
      (.attrsPut id attrs)).2.Owed id k v (clock startMs earlier) := owed_attrsPut hattrs hstamp
  have hpolicy := policy_after (new backend policy startMs)
    (earlier ++ .call (.attrsPut id attrs) :: later)
  simp only [after_append, after_cons, after_nil] at hpolicy ⊢
  generalize after handle (new backend policy startMs) earlier = s₀ at howed hpolicy ⊢
  change (after handle (answer s₀ (.attrsPut id attrs)).2 later).policy = policy at hpolicy
  change (∃ events, events <+: later ++ [.tick nowMs drain] ∧
      (after handle (answer s₀ (.attrsPut id attrs)).2 events).Durable id k v) ∧
    (Along _ _ (answer s₀ (.attrsPut id attrs)).2 later →
      ((after handle (answer s₀ (.attrsPut id attrs)).2 later).tick nowMs drain).2.Durable id k v)
  generalize (answer s₀ (.attrsPut id attrs)).2 = s₁ at howed hpolicy ⊢
  have htick : (after handle s₁ later).Owed id k v (clock startMs earlier) →
      ((after handle s₁ later).tick nowMs drain).2.Durable id k v := by
    intro hstill
    exact hstill.tick h drain (hpolicy.symm ▸ hdue)
  constructor
  · rcases howed.after h hkept with hstill | ⟨mid, hmid, hdurable⟩
    · refine ⟨later ++ [.tick nowMs drain], List.prefix_rfl, ?_⟩
      rw [after_append]
      exact htick hstill
    · exact ⟨mid, hmid.trans (List.prefix_append later _), hdurable⟩
  · intro hcreates
    rcases owed_or_durable_after h (Or.inl howed) hkept hcreates with hstill | hdurable
    · exact htick hstill
    · exact hdurable.handle h (e := .tick nowMs drain) (fun hover => hover) fun hcreate => hcreate

end WriteBehind

/-! ## The memory backend -/

theorem MemoryStorage.reliable : Reliable MemoryStorage where
  toKeepsAttrs := MemoryStorage.keepsAttrs
  puts m id attrs := by
    change (m.attrsPut id attrs).1 = .ok ()
    unfold MemoryStorage.attrsPut
    split <;> rfl
  flushes m drain := rfl
  reads m id := ⟨_, rfl⟩
  others m c account hother := by
    have hread : ∀ m : MemoryStorage,
        (Storage.attrsAll m account).1 = .ok ((m.attrs.lookup account).getD ∅) := fun m => rfl
    rw [hread, hread]
    suffices hlookup : (answer m c).2.attrs.lookup account = m.attrs.lookup account by rw [hlookup]
    have hplain : c.aboutAttrs = false →
        (answer m c).2.attrs.lookup account = m.attrs.lookup account :=
      fun hc => congrArg (fun attrs => attrs.lookup account) (m.answer_withAttrs m.attrs hc).2
    cases c with
    | createAccount req =>
      change (m.createAccount req).2.attrs.lookup account = _
      rcases m.createAccount_cases req with ⟨e, hrefused⟩ | henrolled
      · have heq : m.createAccount req = (.error e, m) := hrefused m.attrs
        rw [heq]
      · have heq : m.createAccount req = (m.enroll req).map .ok id := henrolled m.attrs
        have hne : account ≠ (m.enroll req).1.id := by
          intro he
          refine hother ⟨(m.enroll req).1, ?_, he.symm⟩
          exact congrArg Prod.fst heq
        rw [heq]
        change (if req.attrs.isEmpty then m.attrs else
          m.attrs.insert (m.enroll req).1.id req.attrs).lookup account = _
        split
        · rfl
        · exact Finmap.lookup_insert_of_ne _ hne
    | attrsPut x attrs =>
      have hx : account ≠ x := fun he => hother he.symm
      change (m.attrsPut x attrs).2.attrs.lookup account = _
      unfold MemoryStorage.attrsPut
      split
      · rfl
      · exact Finmap.lookup_insert_of_ne _ hx
    | deleteAccount x => exact Finmap.lookup_erase_ne fun he => hother he.symm
    | attrsGet x keys =>
      change (m.attrsGet x keys).2.attrs.lookup account = _
      rw [MemoryStorage.attrsGet_eq]
    | attrsAll x => rfl
    | _ => exact hplain rfl

namespace WriteBehind

/-- An account's location is durable half a minute after it was put, and no sooner. -/
theorem loss_is_bounded_location :
    (after handle (new MemoryStorage.new .default 0)
      ([.tick 1000 .ascending, .call (.createAccount zealot)] ++
        .call (.attrsPut 1 (location "here".toList)) ::
          ([.tick 30000 .ascending] ++ [.tick 31000 .ascending]))).Durable 1
      (AttrKey.new "profile/location".toList) "here".toList := by
  rcases loss_is_bounded MemoryStorage.reliable MemoryStorage.new .default 0
    [.tick 1000 .ascending, .call (.createAccount zealot)] [.tick 30000 .ascending]
    (Finmap.lookup_singleton_eq : (location "here".toList).lookup _ = _) 31000 .ascending
    (by decide) (by decide) with ⟨e, he, hover⟩ | ⟨-, hend⟩
  · rw [List.mem_singleton.mp he] at hover
    cases hover
  · exact hend ⟨fun hcreate => hcreate, trivial⟩

end WriteBehind

end CommandCenter.Storage
