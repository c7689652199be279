import Mathlib.Algebra.GroupWithZero.Nat
import Mathlib.Algebra.BigOperators.Group.List.Basic

/-!
# Token buckets

A bucket holds at most `capacity` tokens. Before each request some tokens are poured in, what does
not fit is lost, and the request is served if it can be paid for.

* `TokenBucket.cost_served_le`: requests are paid for by the first level and by what is poured in.
* `TokenBucket.cost_served_block_le`: so that a block of requests costs at most a full bucket and
  what is poured in after the first of them.
* `TokenBucket.cost_served_eq`: a bucket that is never full loses nothing.
-/

namespace CommandCenter.Library

/-- A bucket of at most `capacity` tokens. -/
structure TokenBucket (capacity : Nat) where
  level : Nat
  level_le : level ≤ capacity

namespace TokenBucket

variable {capacity : Nat}

/-- Pour in tokens, as far as they fit. -/
def pour (b : TokenBucket capacity) (gain : Nat) : TokenBucket capacity :=
  ⟨min (b.level + gain) capacity, Nat.min_le_right _ _⟩

/-- The bucket can pay for a request. -/
def Pays (b : TokenBucket capacity) (cost : Nat) : Prop := cost ≤ b.level

instance (b : TokenBucket capacity) (cost : Nat) : Decidable (b.Pays cost) :=
  inferInstanceAs (Decidable (cost ≤ b.level))

/-- Pay for a request, if the bucket can. -/
def pay (b : TokenBucket capacity) (cost : Nat) : TokenBucket capacity :=
  if b.Pays cost then ⟨b.level - cost, Nat.le_trans (Nat.sub_le _ _) b.level_le⟩ else b

/-- The bucket after the requests that find these gains. -/
def run (cost : Nat) (b : TokenBucket capacity) (gains : List Nat) : TokenBucket capacity :=
  gains.foldl (fun b gain => (b.pour gain).pay cost) b

/-- How many of the requests are served. -/
def served (cost : Nat) (b : TokenBucket capacity) : List Nat → Nat
  | [] => 0
  | gain :: gains =>
    (if (b.pour gain).Pays cost then 1 else 0) + served cost ((b.pour gain).pay cost) gains

def NeverFull (cost : Nat) (b : TokenBucket capacity) : List Nat → Prop
  | [] => True
  | gain :: gains =>
    (b.pour gain).level < capacity ∧ NeverFull cost ((b.pour gain).pay cost) gains

theorem level_pour_le (b : TokenBucket capacity) (gain : Nat) :
    (b.pour gain).level ≤ b.level + gain := Nat.min_le_left _ _

theorem level_pour_of_lt {b : TokenBucket capacity} {gain : Nat}
    (h : (b.pour gain).level < capacity) : (b.pour gain).level = b.level + gain := by
  unfold pour at *
  dsimp only at *
  omega

/-- What a request takes from the bucket is its cost. -/
theorem level_pay (b : TokenBucket capacity) (cost : Nat) :
    (b.pay cost).level + cost * (if b.Pays cost then 1 else 0) = b.level := by
  unfold pay
  split
  · rename_i h
    rw [Nat.mul_one]
    exact Nat.sub_add_cancel h
  · rfl

/-- The requests are paid for by the level and the gains. -/
theorem cost_served_le (cost : Nat) (b : TokenBucket capacity) (gains : List Nat) :
    (run cost b gains).level + cost * served cost b gains ≤ b.level + gains.sum := by
  induction gains generalizing b with
  | nil => exact Nat.le_refl _
  | cons gain gains ih =>
    have hpour := b.level_pour_le gain
    have hpay := (b.pour gain).level_pay cost
    have hrest := ih ((b.pour gain).pay cost)
    rw [served, List.sum_cons, Nat.mul_add]
    change (run cost ((b.pour gain).pay cost) gains).level + _ ≤ _
    omega

/-- A block of requests costs at most a full bucket and the gains after its first request. -/
theorem cost_served_block_le (cost : Nat) (b : TokenBucket capacity) (gain : Nat)
    (gains : List Nat) : cost * served cost b (gain :: gains) ≤ capacity + gains.sum := by
  have hfull := (b.pour gain).level_le
  have hpay := (b.pour gain).level_pay cost
  have hrest := cost_served_le cost ((b.pour gain).pay cost) gains
  rw [served, Nat.mul_add]
  omega

/-- A bucket that no gain fills loses nothing. -/
theorem cost_served_eq {cost : Nat} {b : TokenBucket capacity} {gains : List Nat}
    (h : NeverFull cost b gains) :
    (run cost b gains).level + cost * served cost b gains = b.level + gains.sum := by
  induction gains generalizing b with
  | nil => rfl
  | cons gain gains ih =>
    have hpour := level_pour_of_lt h.1
    have hpay := (b.pour gain).level_pay cost
    have hrest := ih h.2
    rw [served, List.sum_cons, Nat.mul_add]
    change (run cost ((b.pour gain).pay cost) gains).level + _ = _
    omega

end TokenBucket

end CommandCenter.Library
