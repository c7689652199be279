import CommandCenter.Rust.Map

/-!
# Tables of what expires

A table gives keys the time at which they expire. Calls set a key to a time or clear it, and the
table may lose what has expired. Then it still tells what has not.

* `latestSet`: what the last call about a key has set.
* `latestSet_map`, `exists_latestSet_map`: keys under other names, no two of them under one.
* `Current`: the table has nothing else, and all of it that has not expired.
* `Current.live_iff`: whether a key has not expired.
-/

namespace CommandCenter.Library

open Rust

variable {ι K K' T : Type*} [DecidableEq K] [DecidableEq K']

/-- What the last call about the key has set, of calls in reverse order. -/
def latestSet (sets : ι → Option (K × Option T)) : List ι → K → Option T
  | [], _ => none
  | call :: past, k =>
    match sets call with
    | some (key, expiry) => if key = k then expiry else latestSet sets past k
    | none => latestSet sets past k

theorem latestSet_some {sets : ι → Option (K × Option T)} {call : ι} {key : K}
    {expiry : Option T} (h : sets call = some (key, expiry)) (past : List ι) :
    latestSet sets (call :: past) = Function.update (latestSet sets past) key expiry := by
  funext k
  rw [latestSet, h, Function.update_apply]
  exact if_congr eq_comm rfl rfl

theorem latestSet_none {sets : ι → Option (K × Option T)} {call : ι} (h : sets call = none)
    (past : List ι) : latestSet sets (call :: past) = latestSet sets past := by
  funext k
  rw [latestSet, h]

section Names

variable {f : K → K'} (hf : Function.Injective f) (sets : ι → Option (K × Option T))

/-- The calls about keys as calls about their names. -/
def named (f : K → K') (sets : ι → Option (K × Option T)) (call : ι) : Option (K' × Option T) :=
  (sets call).map fun set => (f set.1, set.2)

include hf

theorem latestSet_map (past : List ι) (k : K) :
    latestSet (named f sets) past (f k) = latestSet sets past k := by
  induction past with
  | nil => rfl
  | cons call past ih =>
    unfold latestSet named
    cases sets call with
    | none => exact ih
    | some set =>
      obtain ⟨key, expiry⟩ := set
      exact if_congr hf.eq_iff rfl ih

/-- A name under which something is set is a key's. -/
theorem exists_latestSet_map {past : List ι} {name : K'} {e : T} :
    latestSet (named f sets) past name = some e ↔
      ∃ k, f k = name ∧ latestSet sets past k = some e := by
  constructor
  · intro h
    have hname : ∃ k, f k = name := by
      induction past with
      | nil => cases h
      | cons call past ih =>
        unfold latestSet named at h
        cases hset : sets call with
        | none =>
          rw [hset] at h
          exact ih h
        | some set =>
          rw [hset] at h
          dsimp only [Option.map_some] at h
          split at h
          · rename_i hkey
            exact ⟨set.1, hkey⟩
          · exact ih h
    obtain ⟨k, rfl⟩ := hname
    exact ⟨k, rfl, (latestSet_map hf sets past k).symm.trans h⟩
  · rintro ⟨k, rfl, h⟩
    exact (latestSet_map hf sets past k).trans h

end Names

/-- The table holds what was last set, and all of it that has not expired by the time `t`. -/
structure Current [LinearOrder T] (m : Map K T) (last : K → Option T) (t : T) : Prop where
  sound : ∀ k e, m.lookup k = some e → last k = some e
  complete : ∀ k e, last k = some e → t < e → m.lookup k = some e

section Current

variable [LinearOrder T] {m : Map K T} {last : K → Option T} {t : T}

theorem current_empty (t : T) : Current (∅ : Map K T) (fun _ => none) t where
  sound k e h := by
    rw [Finmap.lookup_empty] at h
    cases h
  complete k e h _ := by cases h

theorem Current.later (h : Current m last t) {t' : T} (ht : t ≤ t') : Current m last t' :=
  ⟨h.sound, fun k e he hlt => h.complete k e he (ht.trans_lt hlt)⟩

theorem Current.prune (h : Current m last t) :
    Current (Map.retain (fun _ e => decide (t < e)) m) last t where
  sound k e he := by
    rw [Map.lookup_retain, Option.filter_eq_some_iff] at he
    exact h.sound k e he.1
  complete k e he hlt := by
    rw [Map.lookup_retain, Option.filter_eq_some_iff]
    exact ⟨h.complete k e he hlt, decide_eq_true hlt⟩

theorem Current.insert (h : Current m last t) (key : K) (expiry : T) :
    Current (m.insert key expiry) (Function.update last key (some expiry)) t where
  sound k e he := by
    by_cases hk : k = key
    · rw [hk, Finmap.lookup_insert] at he
      rw [hk, Function.update_self, he]
    · rw [Finmap.lookup_insert_of_ne _ hk] at he
      rw [Function.update_of_ne hk]
      exact h.sound k e he
  complete k e he hlt := by
    by_cases hk : k = key
    · rw [hk, Function.update_self] at he
      rw [hk, Finmap.lookup_insert, he]
    · rw [Function.update_of_ne hk] at he
      rw [Finmap.lookup_insert_of_ne _ hk]
      exact h.complete k e he hlt

theorem Current.erase (h : Current m last t) (key : K) :
    Current (m.erase key) (Function.update last key none) t where
  sound k e he := by
    by_cases hk : k = key
    · rw [hk, Finmap.lookup_erase] at he
      cases he
    · rw [Finmap.lookup_erase_ne hk] at he
      rw [Function.update_of_ne hk]
      exact h.sound k e he
  complete k e he hlt := by
    by_cases hk : k = key
    · rw [hk, Function.update_self] at he
      cases he
    · rw [Function.update_of_ne hk] at he
      rw [Finmap.lookup_erase_ne hk]
      exact h.complete k e he hlt

section History

variable {sets : ι → Option (K × Option T)} {past : List ι} {call : ι} {key : K}
  (h : Current m (latestSet sets past) t)

include h

theorem Current.set {expiry : T} (hcall : sets call = some (key, some expiry)) :
    Current (m.insert key expiry) (latestSet sets (call :: past)) t := by
  rw [latestSet_some hcall]
  exact h.insert key expiry

theorem Current.clear (hcall : sets call = some (key, none)) :
    Current (m.erase key) (latestSet sets (call :: past)) t := by
  rw [latestSet_some hcall]
  exact h.erase key

theorem Current.skip (hcall : sets call = none) :
    Current m (latestSet sets (call :: past)) t := by
  rw [latestSet_none hcall]
  exact h

end History

/-- What has not expired is in the table exactly if it was set last. -/
theorem Current.lookup_iff (h : Current m last t) (k : K) (e : T) :
    m.lookup k = some e ∧ t < e ↔ last k = some e ∧ t < e :=
  and_congr_left fun hlt => ⟨h.sound k e, fun he => h.complete k e he hlt⟩

/-- The table tells whether a key has not expired. -/
theorem Current.live_iff (h : Current m last t) (k : K) :
    (m.lookup k).any (fun e => decide (t < e)) = true ↔ ∃ e, last k = some e ∧ t < e := by
  rw [Option.any_eq_true]
  constructor
  · rintro ⟨e, he, hlt⟩
    exact ⟨e, (h.lookup_iff k e).mp ⟨he, of_decide_eq_true hlt⟩⟩
  · rintro ⟨e, he⟩
    obtain ⟨hlookup, hlt⟩ := (h.lookup_iff k e).mpr he
    exact ⟨e, hlookup, decide_eq_true hlt⟩

end Current

end CommandCenter.Library
