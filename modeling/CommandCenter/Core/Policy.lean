import Mathlib.Order.Lattice
import CommandCenter.Core.Admission
import CommandCenter.Rust.Map

/-!
# Connection limits per client class

`ClientLimits` of `crates/bnetcc-core/src/policy.rs`. Limits are ordered by their fields, and
`ConnLimits.min` is their meet. A set of limits is used through `ClientLimits.forClass`, and
through it narrowing is the meet too.

* `ClientLimits.forClass_narrowedBy`: narrowing two sets narrows every class.
* `ClientLimits.narrowing_is_meet`: with what follows from it.
-/

namespace CommandCenter.Core

open Rust Proto

namespace ConnLimits

/-- The tighter of two limit sets, field by field. -/
def min (a b : ConnLimits) : ConnLimits where
  perIp := if a.perIp < b.perIp then a.perIp else b.perIp
  perAccount := if a.perAccount < b.perAccount then a.perAccount else b.perAccount
  global := if a.global < b.global then a.global else b.global

def Tighter (a b : ConnLimits) : Prop :=
  a.perIp ≤ b.perIp ∧ a.perAccount ≤ b.perAccount ∧ a.global ≤ b.global

instance : PartialOrder ConnLimits where
  le := Tighter
  le_refl _ := ⟨UInt32.le_refl _, UInt32.le_refl _, UInt32.le_refl _⟩
  le_trans _ _ _ h₁ h₂ := ⟨UInt32.le_trans h₁.1 h₂.1, UInt32.le_trans h₁.2.1 h₂.2.1,
    UInt32.le_trans h₁.2.2 h₂.2.2⟩
  le_antisymm a b h₁ h₂ := by
    cases a
    cases b
    have hip := UInt32.le_antisymm h₁.1 h₂.1
    have haccount := UInt32.le_antisymm h₁.2.1 h₂.2.1
    have hglobal := UInt32.le_antisymm h₁.2.2 h₂.2.2
    simp_all

section Field

variable {x y z : UInt32}

theorem field_le_left : (if x < y then x else y) ≤ x := by
  split
  · exact UInt32.le_refl x
  · rename_i h
    exact UInt32.not_lt.mp h

theorem field_le_right : (if x < y then x else y) ≤ y := by
  split
  · rename_i h
    exact UInt32.le_of_lt h
  · exact UInt32.le_refl y

theorem field_eq_min : (if x < y then x else y) = Min.min x y := by
  change _ = if x ≤ y then x else y
  by_cases hlt : x < y
  · rw [if_pos hlt, if_pos (UInt32.le_of_lt hlt)]
  · rw [if_neg hlt]
    split
    · rename_i hle
      exact UInt32.le_antisymm (UInt32.not_lt.mp hlt) hle
    · rfl

theorem le_field (hx : z ≤ x) (hy : z ≤ y) : z ≤ if x < y then x else y := by
  split
  · exact hx
  · exact hy

end Field

instance : SemilatticeInf ConnLimits where
  inf := min
  inf_le_left _ _ := ⟨field_le_left, field_le_left, field_le_left⟩
  inf_le_right _ _ := ⟨field_le_right, field_le_right, field_le_right⟩
  le_inf _ _ _ h₁ h₂ := ⟨le_field h₁.1 h₂.1, le_field h₁.2.1 h₂.2.1, le_field h₁.2.2 h₂.2.2⟩

end ConnLimits

/-- Per-client-type connection limits. -/
structure ClientLimits where
  gateway : ConnLimits
  bnftp : ConnLimits
  gamePending : ConnLimits
  gameDefault : ConnLimits
  products : Map FourCc ConnLimits

namespace ClientLimits

/-- The limits of a product: its own entry, or else the default. -/
def forProduct (limits : ClientLimits) (product : FourCc) : ConnLimits :=
  (limits.products.lookup product).getD limits.gameDefault

/-- The limits that apply to a client class. -/
def forClass (limits : ClientLimits) : ClientClass → ConnLimits
  | .gateway => limits.gateway
  | .bnftp => limits.bnftp
  | .gamePending => limits.gamePending
  | .game product => limits.forProduct product

/-- The tighter of two sets, class by class. -/
def narrowedBy (a b : ClientLimits) : ClientLimits where
  gateway := a.gateway.min b.gateway
  bnftp := a.bnftp.min b.bnftp
  gamePending := a.gamePending.min b.gamePending
  gameDefault := a.gameDefault.min b.gameDefault
  products := Map.tabulate (a.products.keys ∪ b.products.keys) fun k =>
    (a.forProduct k).min (b.forProduct k)

/-- A product that neither side lists falls back on both defaults, as the result does. -/
theorem forProduct_narrowedBy (a b : ClientLimits) (product : FourCc) :
    (a.narrowedBy b).forProduct product = (a.forProduct product).min (b.forProduct product) := by
  unfold forProduct
  rw [narrowedBy, Map.lookup_tabulate]
  split
  · rfl
  · rename_i hkeys
    rw [Finset.mem_union, Finmap.mem_keys, Finmap.mem_keys, not_or] at hkeys
    rw [Finmap.lookup_eq_none.mpr hkeys.1, Finmap.lookup_eq_none.mpr hkeys.2]
    rfl

theorem forClass_narrowedBy (a b : ClientLimits) :
    (a.narrowedBy b).forClass = a.forClass ⊓ b.forClass := by
  funext client
  cases client with
  | game product => exact forProduct_narrowedBy a b product
  | gateway | bnftp | gamePending => rfl

theorem foldl_narrowedBy_le (others : List ClientLimits) (limits : ClientLimits) :
    (others.foldl narrowedBy limits).forClass ≤ limits.forClass ∧
      ∀ other ∈ others, (others.foldl narrowedBy limits).forClass ≤ other.forClass := by
  induction others generalizing limits with
  | nil => exact ⟨le_refl _, fun _ h => absurd h List.not_mem_nil⟩
  | cons first rest ih =>
    obtain ⟨hstart, hrest⟩ := ih (limits.narrowedBy first)
    have hmeet := forClass_narrowedBy limits first
    refine ⟨hstart.trans (hmeet ▸ inf_le_left), fun other hother => ?_⟩
    rcases List.mem_cons.mp hother with rfl | hother
    · exact hstart.trans (hmeet ▸ inf_le_right)
    · exact hrest other hother

/-- **A node can narrow but never widen** the limits of the hub: each class gets the smaller of
the two in every field, so it does not matter in which order, how often or with which products
left out the limits of several parties are narrowed. -/
theorem narrowing_is_meet :
    (∀ (hub node : ClientLimits) (client : ClientClass),
      (hub.narrowedBy node).forClass client =
        ⟨Min.min (hub.forClass client).perIp (node.forClass client).perIp,
          Min.min (hub.forClass client).perAccount (node.forClass client).perAccount,
          Min.min (hub.forClass client).global (node.forClass client).global⟩) ∧
    (∀ hub : ClientLimits, (hub.narrowedBy hub).forClass = hub.forClass) ∧
    (∀ hub node : ClientLimits,
      (hub.narrowedBy node).forClass = (node.narrowedBy hub).forClass) ∧
    (∀ hub node other : ClientLimits, ((hub.narrowedBy node).narrowedBy other).forClass =
      (hub.narrowedBy (node.narrowedBy other)).forClass) ∧
    ∀ (hub : ClientLimits) (others : List ClientLimits), ∀ party ∈ hub :: others, ∀ client,
      ((others.foldl narrowedBy hub).forClass client).Tighter (party.forClass client) := by
  refine ⟨fun hub node client => ?_, fun hub => ?_, fun hub node => ?_, fun hub node other => ?_,
    fun hub others party hparty client => ?_⟩
  · rw [forClass_narrowedBy]
    change ConnLimits.min _ _ = _
    simp only [ConnLimits.min, ConnLimits.field_eq_min]
  · rw [forClass_narrowedBy, inf_idem]
  · rw [forClass_narrowedBy, forClass_narrowedBy, inf_comm]
  · simp only [forClass_narrowedBy, inf_assoc]
  · obtain ⟨hstart, hrest⟩ := foldl_narrowedBy_le others hub
    rcases List.mem_cons.mp hparty with rfl | hparty
    · exact hstart client
    · exact hrest party hparty client

end ClientLimits

end CommandCenter.Core
