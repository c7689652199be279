import CommandCenter.Library.Ranking
import CommandCenter.Proto.Product

/-!
# Advertisement banners

Which banner a client is shown after the one that it shows, from `crates/bnetcc-core/src/ads.rs`.

* `AdRotation.answers_eq`: the banners for a client come round as they are configured.
* `AdRotation.ids_distinct`: the ids are places, as long as they fit 32 bits.
* `AdRotation.rotation_fair`: what a client is shown.
* `AdRotation.first_never_shown`: the banners that more ids would be needed for.
-/

namespace CommandCenter.Core

open Rust Proto Library

structure AdBanner where
  /-- Assigned sequentially from 1 in configuration order. -/
  id : UInt32
  filename : Text
  url : Text
  product : Option FourCc
  language : Option FourCc
  deriving DecidableEq

/-- Whether a client may be shown the banner. -/
def AdBanner.matches (b : AdBanner) (product : FourCc) (language : Option FourCc) : Bool :=
  let productOk := match b.product with
    | none => true
    | some want => want == product
  let languageOk := match b.language, language with
    | none, _ => true
    | some want, some got => want == got
    -- A client that did not say has no banner of one language.
    | some _, none => false
  productOk && languageOk

/-- WarCraft III gets a random banner. -/
def isRandomProduct (product : FourCc) : Bool := product == Product.war3 || product == Product.w3xp

def idAt (i : Nat) : UInt32 := .ofNat i + 1

/-- The configured banners, numbered. -/
structure AdRotation where
  banners : List AdBanner
  numbered : ∀ i b, banners[i]? = some b → b.id = idAt i

namespace AdRotation

/-- Number the banners from 1 in the given order. -/
def new (banners : List AdBanner) : AdRotation where
  banners := banners.mapIdx fun i b => { b with id := idAt i }
  numbered i b h := by
    rw [List.getElem?_mapIdx] at h
    obtain ⟨b', _, rfl⟩ := Option.map_eq_some_iff.mp h
    rfl

/-- The banners that a client may be shown. -/
def candidates (r : AdRotation) (product : FourCc) (language : Option FourCc) : List AdBanner :=
  r.banners.filter fun b => b.matches product language

/-- The banner to show after the one with the id `previous`. -/
def next (r : AdRotation) (product : FourCc) (language : Option FourCc) (previous : UInt32)
    (seed : UInt64) : Option AdBanner :=
  let candidates := r.candidates product language
  if candidates.isEmpty then none
  else if isRandomProduct product then candidates[seed.toNat % candidates.length]?
  else
    match candidates.findIdx? fun b => b.id == previous with
    | some i => if i + 1 < candidates.length then candidates[i + 1]? else candidates[0]?
    | none => candidates[0]?

/-- What a client is shown that asks with each of the seeds, naming the banner it was shown last. -/
def answers (r : AdRotation) (product : FourCc) (language : Option FourCc) :
    UInt32 → List UInt64 → List (Option AdBanner)
  | _, [] => []
  | previous, seed :: seeds =>
    let answer := r.next product language previous seed
    answer :: r.answers product language ((answer.map AdBanner.id).getD previous) seeds

/-! ## Coming round -/

variable {r : AdRotation} {product : FourCc} {language : Option FourCc} {previous : UInt32}
  {seed : UInt64}

theorem next_eq (hproduct : isRandomProduct product = false) :
    r.next product language previous seed =
      (r.candidates product language)[placeAfter AdBanner.id (r.candidates product language)
        previous]? := by
  unfold next placeAfter
  rw [hproduct]
  dsimp only
  generalize r.candidates product language = l
  split
  · rename_i hempty
    rw [List.isEmpty_iff.mp hempty]
    rfl
  · rw [if_neg Bool.false_ne_true]
    cases l.findIdx? fun b => b.id == previous with
    | none => rfl
    | some i =>
      dsimp only
      split <;> rfl

theorem answers_eq (hproduct : isRandomProduct product = false) (seeds : List UInt64) :
    r.answers product language previous seeds =
      Library.rotation AdBanner.id (r.candidates product language) seeds.length previous := by
  induction seeds generalizing previous with
  | nil => rfl
  | cons seed seeds ih => rw [answers, ih, next_eq hproduct, List.length_cons, Library.rotation]

theorem next_eq_none_iff (hproduct : isRandomProduct product = false) :
    r.next product language previous seed = none ↔
      ∀ b ∈ r.banners, b.matches product language = false := by
  have hempty : r.candidates product language = [] ↔
      ∀ b ∈ r.banners, b.matches product language = false := by
    simp [candidates, List.filter_eq_nil_iff]
  rw [next_eq hproduct, ← hempty]
  constructor
  · intro h
    by_contra hl
    exact Nat.not_le_of_lt (placeAfter_lt hl previous) (List.getElem?_eq_none_iff.mp h)
  · intro h
    rw [h]
    rfl

/-! ## Ids -/

theorem toNat_idAt (i : Nat) : (idAt i).toNat = (i + 1) % 2 ^ 32 := by
  rw [idAt, UInt32.toNat_add, UInt32.toNat_ofNat']
  exact Nat.mod_add_mod i (2 ^ 32) 1

theorem idAt_injective {i j : Nat} (hi : i < 2 ^ 32) (hj : j < 2 ^ 32) (h : idAt i = idAt j) :
    i = j := by
  have htoNat := congrArg UInt32.toNat h
  rw [toNat_idAt, toNat_idAt] at htoNat
  omega

theorem ids_distinct (r : AdRotation) (hfew : r.banners.length ≤ 2 ^ 32) :
    (r.banners.map AdBanner.id).Nodup := by
  rw [List.nodup_iff_injective_getElem]
  intro i j h
  have hi : i.val < r.banners.length := by simpa using i.isLt
  have hj : j.val < r.banners.length := by simpa using j.isLt
  have hids : idAt i.val = idAt j.val := by
    rw [← r.numbered i.val _ (List.getElem?_eq_getElem hi),
      ← r.numbered j.val _ (List.getElem?_eq_getElem hj)]
    simpa using h
  exact Fin.ext (idAt_injective (by omega) (by omega) hids)

/-- **Rotation is fair**: a client that no two banners of one id are for is shown all of its
banners in each round, in the order of the configuration; and whatever the ids, it is shown its
banners only, and one of them if there is any, and the seed does not matter. -/
theorem rotation_fair (r : AdRotation) {product : FourCc} {language : Option FourCc}
    (hproduct : isRandomProduct product = false) :
    (r.banners.length ≤ 2 ^ 32 → (r.banners.map AdBanner.id).Nodup) ∧
    (((r.candidates product language).map AdBanner.id).Nodup → ∀ previous before round,
      round.length = (r.candidates product language).length →
      (∃ k, (r.answers product language previous (before ++ round)).drop before.length =
        ((r.candidates product language).rotate k).map some) ∧
      (previous ∉ (r.candidates product language).map AdBanner.id →
        r.answers product language previous round =
          (r.candidates product language).map some)) ∧
    (∀ previous seed b, r.next product language previous seed = some b →
      b ∈ r.banners ∧ b.matches product language = true) ∧
    (∀ previous seed, r.next product language previous seed = none ↔
      ∀ b ∈ r.banners, b.matches product language = false) ∧
    ∀ previous seed seed',
      r.next product language previous seed = r.next product language previous seed' := by
  refine ⟨r.ids_distinct, fun hids previous before round hround => ⟨?_, fun hunknown => ?_⟩,
    fun previous seed b h => ?_, fun previous seed => next_eq_none_iff hproduct,
    fun previous seed seed' => ?_⟩
  · rw [answers_eq hproduct, List.length_append, hround]
    exact rotation_window hids before.length previous
  · rw [answers_eq hproduct, hround, rotation_round hids, placeAfter_of_notMem hunknown,
      List.rotate_zero]
  · rw [next_eq hproduct] at h
    exact List.mem_filter.mp (List.mem_of_getElem? h)
  · rw [next_eq hproduct, next_eq hproduct]

/-- A rotation of two banners, seen by Brood War. -/
def twoBanners : AdRotation :=
  .new [⟨0, "ad000001.smk".toList, [], none, none⟩, ⟨0, "ad000002.smk".toList, [], none, none⟩]

theorem rotation_fair_two : ∃ k, (twoBanners.answers Product.sexp none 2 ([0] ++ [1, 2])).drop 1 =
    ((twoBanners.candidates Product.sexp none).rotate k).map some := by
  have hsexp : isRandomProduct Product.sexp = false := by decide
  exact ((twoBanners.rotation_fair hsexp).2.1 (by decide) 2 [0] [1, 2] (by decide)).1

/-! ## More banners than ids -/

/-- `n + 1` banners for every client, of which the first has a name of its own. -/
def manyBanners (n : Nat) : AdRotation :=
  .new (⟨0, ['a'], [], none, none⟩ :: List.replicate n ⟨0, ['b'], [], none, none⟩)

theorem getElem?_manyBanners (n i : Nat) : (manyBanners n).banners[i]? =
    if i = 0 then some ⟨idAt 0, ['a'], [], none, none⟩
    else if i < n + 1 then some ⟨idAt i, ['b'], [], none, none⟩ else none := by
  unfold manyBanners new
  rw [List.getElem?_mapIdx]
  cases i with
  | zero => rfl
  | succ i =>
    rw [List.getElem?_cons_succ, List.getElem?_replicate, if_neg (Nat.succ_ne_zero i)]
    by_cases hi : i < n
    · rw [if_pos hi, if_pos (Nat.succ_lt_succ hi)]
      rfl
    · rw [if_neg hi, if_neg fun h => hi (Nat.lt_of_succ_lt_succ h)]
      rfl

theorem candidates_manyBanners (n : Nat) (product : FourCc) (language : Option FourCc) :
    (manyBanners n).candidates product language = (manyBanners n).banners := by
  apply List.filter_eq_self.mpr
  intro b hb
  obtain ⟨i, hi⟩ := List.mem_iff_getElem?.mp hb
  rw [getElem?_manyBanners] at hi
  split at hi
  · obtain rfl := Option.some.inj hi
    rfl
  · split at hi
    · obtain rfl := Option.some.inj hi
      rfl
    · cases hi

/-- Each id is one of a banner that is not the last, so that the first is behind none of them. -/
theorem next_manyBanners {n : Nat} (hn : 2 ^ 32 ≤ n) (hproduct : isRandomProduct product = false)
    {b : AdBanner} (h : (manyBanners n).next product language previous seed = some b) :
    b.filename = ['b'] := by
  rw [next_eq hproduct, candidates_manyBanners] at h
  have hlen : (manyBanners n).banners.length = n + 1 := by simp [manyBanners, new]
  have hplace (i : Nat) (hi : i < 2 ^ 32) :
      0 < placeAfter AdBanner.id (manyBanners n).banners (idAt i) := by
    have hsome : ∃ a, (manyBanners n).banners[i]? = some a :=
      ⟨_, List.getElem?_eq_getElem (by omega)⟩
    obtain ⟨a, ha⟩ := hsome
    rw [← (manyBanners n).numbered i a ha]
    exact placeAfter_pos (by omega) ha
  have hprevious : idAt ((previous.toNat + (2 ^ 32 - 1)) % 2 ^ 32) = previous := by
    have hlt := previous.toNat_lt
    rw [← UInt32.toNat_inj, toNat_idAt]
    omega
  have hpos := hplace _ (Nat.mod_lt (previous.toNat + (2 ^ 32 - 1)) (by omega))
  rw [hprevious] at hpos
  rw [getElem?_manyBanners, if_neg (Nat.ne_of_gt hpos)] at h
  split at h
  · obtain rfl := Option.some.inj h
    rfl
  · cases h

theorem answers_manyBanners {n : Nat} (hn : 2 ^ 32 ≤ n) (hproduct : isRandomProduct product = false)
    {seeds : List UInt64} {b : AdBanner}
    (h : some b ∈ (manyBanners n).answers product language previous seeds) :
    b.filename = ['b'] := by
  induction seeds generalizing previous with
  | nil => cases h
  | cons seed seeds ih =>
    rcases List.mem_cons.mp h with hnext | hrest
    · exact next_manyBanners hn hproduct hnext.symm
    · exact ih hrest

/-- With more banners than ids, there is one that is never shown. -/
theorem first_never_shown : ¬ ∀ (r : AdRotation) (product : FourCc) (language : Option FourCc),
    isRandomProduct product = false → ∀ previous round,
      round.length = (r.candidates product language).length →
        ∀ b ∈ r.candidates product language,
          some b ∈ r.answers product language previous round := by
  intro h
  have hsexp : isRandomProduct Product.sexp = false := by decide
  have hfirst : ⟨idAt 0, ['a'], [], none, none⟩ ∈
      (manyBanners (2 ^ 32)).candidates Product.sexp none := by
    rw [candidates_manyBanners]
    exact List.mem_of_getElem? (getElem?_manyBanners (2 ^ 32) 0)
  have hshown := h (manyBanners (2 ^ 32)) Product.sexp none hsexp 0
    (List.replicate ((manyBanners (2 ^ 32)).candidates Product.sexp none).length 0)
    List.length_replicate _ hfirst
  have hname := answers_manyBanners (Nat.le_refl _) hsexp hshown
  cases hname

end AdRotation

end CommandCenter.Core
