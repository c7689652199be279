import CommandCenter.Daemon.Names

/-!
# Claims of display names

The loop of `Node::claim_name` as it runs, with its counter of 32 bits, and the names that are held
between claims and releases.

* `tryClaim_iff`: the loop stops at its first candidate that is free.
* `tryClaim_eq_claimName`: it finds what `claimName` finds, unless all suffixes of 32 bits are
  taken.
* `Naming.Reachable`: the runs of claims and releases.
* `names_kept`: the names held are distinct and each claim takes the least one.
-/

namespace CommandCenter.Daemon

open Rust

/-- `format!("{base}#{n}")`. -/
def suffixed (base : Text) (n : Nat) : Text := base ++ '#' :: Nat.toDigits 10 n

/-- The loop of `Node::claim_name`, given so many tries: `n` is its counter. -/
def ActiveNames.tryClaim (names : ActiveNames) (base : Text) :
    Nat → UInt32 → Text → Option (Text × ActiveNames)
  | 0, _, _ => none
  | tries + 1, n, candidate =>
    if candidate.toAsciiLowercase ∈ names then
      tryClaim names base tries (n + 1) (suffixed base (n + 1).toNat)
    else some (candidate, insert candidate.toAsciiLowercase names)

/-- What the loop tries after `n` others. -/
def loopCandidate (base : Text) : Nat → Text
  | 0 => base
  | n + 1 => suffixed base (UInt32.ofNat (n + 2)).toNat

/-- The counter has not come round yet. -/
theorem loopCandidate_eq {base : Text} {n : Nat} (h : n + 1 < 2 ^ 32) :
    loopCandidate base n = nameCandidate base n := by
  cases n with
  | zero => rfl
  | succ n =>
    rw [loopCandidate, UInt32.toNat_ofNat', Nat.mod_eq_of_lt h]
    rfl

section Loop

variable {names : ActiveNames} {base : Text}

theorem tryClaim_from_iff {tries k : Nat} {result : Text × ActiveNames} :
    names.tryClaim base tries (.ofNat (k + 1)) (loopCandidate base k) = some result ↔
      ∃ j, k ≤ j ∧ j < k + tries ∧
        (∀ i, k ≤ i → i < j → (loopCandidate base i).toAsciiLowercase ∈ names) ∧
        (loopCandidate base j).toAsciiLowercase ∉ names ∧
        result = (loopCandidate base j, insert (loopCandidate base j).toAsciiLowercase names) := by
  induction tries generalizing k with
  | zero =>
    refine iff_of_false nofun ?_
    rintro ⟨j, hk, hj, _⟩
    omega
  | succ tries ih =>
    unfold ActiveNames.tryClaim
    split
    · rename_i htaken
      have hnext : UInt32.ofNat (k + 1) + 1 = .ofNat (k + 1 + 1) := (UInt32.ofNat_add _ _).symm
      rw [hnext]
      refine Iff.trans (ih (k := k + 1)) ?_
      constructor
      · rintro ⟨j, hk, hj, hbefore, hfree, hresult⟩
        refine ⟨j, by omega, by omega, fun i hi hij => ?_, hfree, hresult⟩
        rcases Nat.eq_or_lt_of_le hi with rfl | hi
        · exact htaken
        · exact hbefore i hi hij
      · rintro ⟨j, hk, hj, hbefore, hfree, hresult⟩
        have hne : k ≠ j := by
          rintro rfl
          exact hfree htaken
        exact ⟨j, by omega, by omega, fun i hi hij => hbefore i (by omega) hij, hfree, hresult⟩
    · rename_i hfree
      constructor
      · intro h
        exact ⟨k, Nat.le_refl k, by omega, fun i hi hik => by omega, hfree,
          (Option.some.inj h).symm⟩
      · rintro ⟨j, hk, _, hbefore, _, hresult⟩
        obtain rfl : k = j := by
          by_contra hne
          exact hfree (hbefore k (Nat.le_refl k) (by omega))
        rw [hresult]

/-- The loop stops at the first candidate that is free. -/
theorem tryClaim_iff {tries : Nat} {result : Text × ActiveNames} :
    names.tryClaim base tries 1 base = some result ↔
      ∃ j < tries, (∀ i < j, (loopCandidate base i).toAsciiLowercase ∈ names) ∧
        (loopCandidate base j).toAsciiLowercase ∉ names ∧
        result = (loopCandidate base j, insert (loopCandidate base j).toAsciiLowercase names) := by
  refine Iff.trans (tryClaim_from_iff (k := 0)) ?_
  simp only [Nat.zero_le, true_and, true_implies, Nat.zero_add]

theorem claimName_least (names : ActiveNames) (base : Text) :
    ∃ n ≤ names.card, (∀ m < n, (nameCandidate base m).toAsciiLowercase ∈ names) ∧
      (nameCandidate base n).toAsciiLowercase ∉ names ∧
      names.claimName base =
        (nameCandidate base n, insert (nameCandidate base n).toAsciiLowercase names) := by
  have hclaim : names.claimName base =
      ((((List.range (names.card + 1)).find? fun n =>
        (nameCandidate base n).toAsciiLowercase ∉ names).map (nameCandidate base)).getD base,
      insert (names.claimName base).1.toAsciiLowercase names) := by
    unfold ActiveNames.claimName
    dsimp only
    rw [List.find?_map]
    rfl
  have hfresh := claimName_fresh names base
  cases hfind : (List.range (names.card + 1)).find? fun n =>
      (nameCandidate base n).toAsciiLowercase ∉ names with
  | none =>
    -- not even the base name was free
    have hbase := List.find?_range_eq_none.mp hfind 0 (Nat.succ_pos _)
    rw [hclaim, hfind] at hfresh
    have hbase : (nameCandidate base 0).toAsciiLowercase ∈ names := by simpa using hbase
    exact absurd hbase hfresh
  | some n =>
    obtain ⟨hfree, hn, hbefore⟩ := List.find?_range_eq_some.mp hfind
    have hname : (names.claimName base).1 = nameCandidate base n := by rw [hclaim, hfind]; rfl
    refine ⟨n, Nat.lt_succ_iff.mp (List.mem_range.mp hn), fun m hm => ?_, of_decide_eq_true hfree,
      ?_⟩
    · have htaken := hbefore m hm
      simpa using htaken
    · rw [hclaim, hfind, hname]
      rfl

/-- The loop takes what `claimName` takes, within one more try than there are names, unless that
has a suffix of more than 32 bits. -/
theorem tryClaim_eq_claimName (h : ∃ n, n + 1 < 2 ^ 32 ∧
    (nameCandidate base n).toAsciiLowercase ∉ names) :
    names.tryClaim base (names.card + 1) 1 base = some (names.claimName base) := by
  obtain ⟨m, hm, hfree⟩ := h
  obtain ⟨n, hn, hbefore, hfirst, hclaim⟩ := claimName_least names base
  have hnm : n ≤ m := by
    by_contra hlt
    exact hfree (hbefore m (by omega))
  rw [hclaim, ← loopCandidate_eq (by omega : n + 1 < 2 ^ 32)]
  refine tryClaim_iff.mpr ⟨n, by omega, fun i hi => ?_, ?_, rfl⟩
  · rw [loopCandidate_eq (by omega)]
    exact hbefore i hi
  · rwa [loopCandidate_eq (by omega)]

/-- More tries change nothing. -/
theorem tryClaim_unique {tries tries' : Nat} {result result' : Text × ActiveNames}
    (h : names.tryClaim base tries 1 base = some result)
    (h' : names.tryClaim base tries' 1 base = some result') : result = result' := by
  obtain ⟨j, _, hbefore, hfree, rfl⟩ := tryClaim_iff.mp h
  obtain ⟨j', _, hbefore', hfree', rfl⟩ := tryClaim_iff.mp h'
  rcases Nat.lt_trichotomy j j' with hlt | rfl | hlt
  · exact absurd (hbefore' j hlt) hfree
  · rfl
  · exact absurd (hbefore j' hlt) hfree'

end Loop

/-! ## Runs of claims and releases -/

/-- The names in use, and those that were claimed and have not been released. -/
structure Naming where
  names : ActiveNames
  held : List Text

/-- No name that is held is this one, whatever its case. -/
def Free (held : List Text) (name : Text) : Prop :=
  ∀ other ∈ held, other.eqIgnoreAsciiCase name = false

namespace Naming

/-- What claims, and releases of names that are held, lead to. -/
inductive Reachable : Naming → Prop
  | start : Reachable ⟨∅, []⟩
  | claim {s : Naming} {base name : Text} {tries : Nat} {names : ActiveNames} (h : Reachable s)
      (hclaim : s.names.tryClaim base tries 1 base = some (name, names)) :
      Reachable ⟨names, name :: s.held⟩
  | release {s : Naming} {name : Text} (h : Reachable s) (hheld : name ∈ s.held) :
      Reachable ⟨s.names.releaseName name, s.held.erase name⟩

/-- The names in use are those held, each once. -/
structure Inv (s : Naming) : Prop where
  distinct : (s.held.map Text.toAsciiLowercase).Nodup
  mem_iff : ∀ name, name ∈ s.names ↔ ∃ other ∈ s.held, other.toAsciiLowercase = name

variable {s : Naming}

theorem eqIgnoreAsciiCase_eq_false {name other : Text} :
    name.eqIgnoreAsciiCase other = false ↔ name.toAsciiLowercase ≠ other.toAsciiLowercase := by
  rw [← Bool.not_eq_true, Text.eqIgnoreAsciiCase_iff]

theorem Inv.free_iff (h : Inv s) {name : Text} :
    Free s.held name ↔ name.toAsciiLowercase ∉ s.names := by
  rw [h.mem_iff, Free]
  simp only [eqIgnoreAsciiCase_eq_false, not_exists, not_and, ne_eq]

theorem Inv.claim (h : Inv s) {name : Text} (hfree : Free s.held name) :
    Inv ⟨insert name.toAsciiLowercase s.names, name :: s.held⟩ where
  distinct := by
    refine List.nodup_cons.mpr ⟨fun hmem => ?_, h.distinct⟩
    obtain ⟨other, hother, hsame⟩ := List.mem_map.mp hmem
    exact eqIgnoreAsciiCase_eq_false.mp (hfree other hother) hsame
  mem_iff other := by
    rw [Finset.mem_insert, h.mem_iff, List.exists_mem_cons_iff, eq_comm]

theorem Inv.release (h : Inv s) {name : Text} (hheld : name ∈ s.held) :
    Inv ⟨s.names.releaseName name, s.held.erase name⟩ where
  distinct := h.distinct.sublist (List.erase_sublist.map _)
  mem_iff other := by
    have hnodup : s.held.Nodup := List.Nodup.of_map _ h.distinct
    rw [ActiveNames.releaseName, Finset.mem_erase, h.mem_iff]
    constructor
    · rintro ⟨hne, held, hmem, rfl⟩
      refine ⟨held, hnodup.mem_erase_iff.mpr ⟨?_, hmem⟩, rfl⟩
      rintro rfl
      exact hne rfl
    · rintro ⟨held, hmem, rfl⟩
      obtain ⟨hne, hmem⟩ := hnodup.mem_erase_iff.mp hmem
      have hother : held.toAsciiLowercase ≠ name.toAsciiLowercase := fun hsame =>
        hne (List.inj_on_of_nodup_map h.distinct hmem hheld hsame)
      exact ⟨hother, held, hmem, rfl⟩

theorem Reachable.inv (h : Reachable s) : Inv s := by
  induction h with
  | start => exact ⟨List.nodup_nil, fun name => by simp⟩
  | @claim s base name tries names _ hclaim ih =>
    obtain ⟨j, _, _, hfree, hresult⟩ := tryClaim_iff.mp hclaim
    obtain ⟨rfl, rfl⟩ := Prod.mk.inj hresult
    exact ih.claim (ih.free_iff.mpr hfree)
  | release _ hheld ih => exact ih.release hheld

theorem Inv.card (h : Inv s) : s.names.card = s.held.length := by
  have himage : s.names = (s.held.map Text.toAsciiLowercase).toFinset := by
    ext name
    rw [h.mem_iff, List.mem_toFinset, List.mem_map]
  rw [himage, List.toFinset_card_of_nodup h.distinct, List.length_map]

/-- The name is the base, or else the base with the least suffix that is free. -/
def LeastFree (held : List Text) (base name : Text) : Prop :=
  (Free held base ∧ name = base) ∨
    (¬ Free held base ∧ ∃ n, 2 ≤ n ∧ name = suffixed base n ∧ Free held name ∧
      ∀ m, 2 ≤ m → m < n → ¬ Free held (suffixed base m))

/-- The base is free, or it is with a suffix of 32 bits. -/
def Room (held : List Text) (base : Text) : Prop :=
  Free held base ∨ ∃ n, 2 ≤ n ∧ n < 2 ^ 32 ∧ Free held (suffixed base n)

/-- What is promised of the names held in a state, and of a claim there. -/
structure NamesKept (s : Naming) : Prop where
  distinct : s.held.Pairwise fun name other => name.eqIgnoreAsciiCase other = false
  room : s.held.length < 2 ^ 32 - 1 → ∀ base, Room s.held base
  ends : ∀ base, Room s.held base →
    (s.names.tryClaim base (s.held.length + 1) 1 base).isSome = true
  least : ∀ base, Room s.held base → ∀ tries name names,
    s.names.tryClaim base tries 1 base = some (name, names) → LeastFree s.held base name

theorem Inv.room_iff (h : Inv s) {base : Text} :
    Room s.held base ↔ ∃ n, n + 1 < 2 ^ 32 ∧ (nameCandidate base n).toAsciiLowercase ∉ s.names := by
  simp only [Room, h.free_iff]
  constructor
  · rintro (hbase | ⟨n, hlow, hhigh, hfree⟩)
    · exact ⟨0, by omega, hbase⟩
    · obtain ⟨k, rfl⟩ : ∃ k, n = k + 2 := ⟨n - 2, by omega⟩
      exact ⟨k + 1, by omega, hfree⟩
  · rintro ⟨n, hn, hfree⟩
    cases n with
    | zero => exact Or.inl hfree
    | succ n => exact Or.inr ⟨n + 2, by omega, by omega, hfree⟩

theorem Inv.leastFree (h : Inv s) (base : Text) :
    LeastFree s.held base (s.names.claimName base).1 := by
  obtain ⟨n, _, hbefore, hfree, hclaim⟩ := claimName_least s.names base
  rw [hclaim]
  cases n with
  | zero => exact Or.inl ⟨h.free_iff.mpr hfree, rfl⟩
  | succ n =>
    refine Or.inr ⟨fun hbase => h.free_iff.mp hbase (hbefore 0 (Nat.succ_pos n)), n + 2, by omega,
      rfl, h.free_iff.mpr hfree, fun m hm hmn hm' => ?_⟩
    obtain ⟨k, rfl⟩ : ∃ k, m = k + 2 := ⟨m - 2, by omega⟩
    exact h.free_iff.mp hm' (hbefore (k + 1) (by omega))

/-- **The names in use are distinct, and a claim takes the least one**, within one more try than
there are names, as long as suffixes of 32 bits are left. -/
theorem names_kept (s : Naming) (h : Reachable s) : NamesKept s where
  distinct :=
    (List.pairwise_map.mp h.inv.distinct).imp fun hne => eqIgnoreAsciiCase_eq_false.mpr hne
  room hlength base := by
    obtain ⟨n, hn, _, hfree, _⟩ := claimName_least s.names base
    rw [h.inv.card] at hn
    exact h.inv.room_iff.mpr ⟨n, by omega, hfree⟩
  ends base hroom := by
    rw [← h.inv.card, tryClaim_eq_claimName (h.inv.room_iff.mp hroom)]
    rfl
  least base hroom tries name names hclaim := by
    have hname := tryClaim_unique hclaim (tryClaim_eq_claimName (h.inv.room_iff.mp hroom))
    have hfst : name = (s.names.claimName base).1 := congrArg Prod.fst hname
    rw [hfst]
    exact h.inv.leastFree base

/-- Two sessions of one account. -/
theorem names_kept_fish :
    NamesKept ⟨{"fish".toList, "fish#2".toList}, ["fish#2".toList, "Fish".toList]⟩ :=
  names_kept _ <|
    @Reachable.claim ⟨{"fish".toList}, ["Fish".toList]⟩ "fish".toList _ 2 _
      (@Reachable.claim ⟨∅, []⟩ "Fish".toList _ 1 _ .start (by decide)) (by decide)

/-! ## The counter comes round -/

theorem reachable_claims (base : Text) (n : Nat) (hn : n < 2 ^ 32) :
    ∃ s, Reachable s ∧ ∀ name, name ∈ s.names ↔
      ∃ k < n, (nameCandidate base k).toAsciiLowercase = name := by
  induction n with
  | zero => exact ⟨_, .start, fun name => by simp⟩
  | succ n ih =>
    obtain ⟨s, hs, hnames⟩ := ih (by omega)
    have hfree : (nameCandidate base n).toAsciiLowercase ∉ s.names := by
      intro hmem
      obtain ⟨k, hk, hsame⟩ := (hnames _).mp hmem
      exact absurd (nameCandidate_injective base hsame) (by omega)
    have hclaim : s.names.tryClaim base (n + 1) 1 base = some (nameCandidate base n,
        insert (nameCandidate base n).toAsciiLowercase s.names) := by
      rw [← loopCandidate_eq hn]
      refine tryClaim_iff.mpr ⟨n, by omega, fun i hi => ?_, ?_, rfl⟩
      · rw [loopCandidate_eq (by omega)]
        exact (hnames _).mpr ⟨i, hi, rfl⟩
      · rwa [loopCandidate_eq hn]
    refine ⟨_, .claim hs hclaim, fun name => ?_⟩
    rw [Finset.mem_insert, hnames, eq_comm]
    constructor
    · rintro (hlast | ⟨k, hk, hname⟩)
      · exact ⟨n, by omega, hlast⟩
      · exact ⟨k, by omega, hname⟩
    · rintro ⟨k, hk, hname⟩
      rcases Nat.lt_succ_iff_lt_or_eq.mp hk with hk | rfl
      · exact Or.inr ⟨k, hk, hname⟩
      · exact Or.inl hname

theorem suffixed_injective (base : Text) : Function.Injective (suffixed base) := by
  intro m n h
  exact toDigits_injective (List.cons.inj (List.append_cancel_left h)).2

theorem suffixed_ne (base : Text) (n : Nat) : suffixed base n ≠ base := by
  intro h
  have hlength := congrArg List.length h
  rw [suffixed, List.length_append, List.length_cons] at hlength
  omega

theorem toAsciiLowercase_suffixed (base : Text) (n : Nat) :
    (suffixed base n).toAsciiLowercase = suffixed base.toAsciiLowercase n := by
  rw [suffixed, suffixed, Text.toAsciiLowercase, List.map_append, List.map_cons]
  show _ ++ _ :: Text.toAsciiLowercase _ = _
  rw [toAsciiLowercase_toDigits]
  rfl

/-- With all suffixes of 32 bits taken, the next name is `fish#0`. -/
theorem claim_comes_round : ¬ ∀ s, Reachable s → ∀ base tries name names,
    s.names.tryClaim base tries 1 base = some (name, names) → LeastFree s.held base name := by
  intro h
  obtain ⟨s, hs, hnames⟩ := reachable_claims "fish".toList (2 ^ 32 - 1) (by omega)
  have hlast : loopCandidate "fish".toList (2 ^ 32 - 1) = suffixed "fish".toList 0 := rfl
  have hclaim : s.names.tryClaim "fish".toList (2 ^ 32) 1 "fish".toList =
      some (suffixed "fish".toList 0,
        insert (suffixed "fish".toList 0).toAsciiLowercase s.names) := by
    rw [← hlast]
    refine tryClaim_iff.mpr ⟨2 ^ 32 - 1, by omega, fun i hi => ?_, ?_, rfl⟩
    · rw [loopCandidate_eq (by omega)]
      exact (hnames _).mpr ⟨i, hi, rfl⟩
    · rw [hlast, toAsciiLowercase_suffixed, hnames]
      rintro ⟨k, _, hsame⟩
      cases k with
      | zero => exact suffixed_ne _ _ hsame.symm
      | succ k =>
        have hzero := suffixed_injective _ ((toAsciiLowercase_suffixed _ (k + 2)).symm.trans hsame)
        omega
  rcases h s hs _ _ _ _ hclaim with ⟨_, hbase⟩ | ⟨_, n, hn, hsuffix, _⟩
  · exact suffixed_ne _ _ hbase
  · have hzero := suffixed_injective _ hsuffix
    omega

end Naming

end CommandCenter.Daemon
