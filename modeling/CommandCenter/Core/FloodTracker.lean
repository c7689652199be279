import CommandCenter.Library.Run
import CommandCenter.Library.TokenBucket
import CommandCenter.Rust.Num

/-!
# Flood control

`FloodTracker` of `crates/bnetcc-core/src/limits.rs`: a token bucket over a clock that the caller
supplies. The bucket counts thousandths of a token, and a check first pours in what the time since
the last check has earned, rounded down.

* `FloodTracker.Holds.check`: a check is a request to a `TokenBucket`.
* `FloodTracker.allowed_le`: how many messages a block of checks allows.
-/

namespace CommandCenter.Core

open Rust Library

inductive FloodPenalty where
  | dropMessage
  | mute (seconds : UInt32)
  | disconnect
  deriving DecidableEq

structure FloodPolicy where
  messagesPer10s : UInt32
  burst : UInt32
  penalty : FloodPenalty

/-- What to do with a message that hit the flood budget. -/
inductive FloodVerdict where
  | allow
  | exceeded (penalty : FloodPenalty)
  deriving DecidableEq

/-- A token bucket over a caller-supplied millisecond clock. -/
structure FloodTracker where
  millitokens : UInt64
  capacityMillitokens : UInt64
  per10s : UInt64
  lastMs : UInt64
  penalty : FloodPenalty
  suppressed : UInt64

namespace FloodTracker

def new (policy : FloodPolicy) (nowMs : UInt64) : FloodTracker where
  millitokens := policy.burst.toUInt64 * 1000
  capacityMillitokens := policy.burst.toUInt64 * 1000
  per10s := policy.messagesPer10s.toUInt64
  lastMs := nowMs
  penalty := policy.penalty
  suppressed := 0

def elapsed (f : FloodTracker) (nowMs : UInt64) : UInt64 := saturatingSub64 nowMs f.lastMs

/-- Thousandths of a token earned since the last check. -/
def gained (f : FloodTracker) (nowMs : UInt64) : UInt64 :=
  saturatingMul64 (f.elapsed nowMs) f.per10s / 10

def refill (f : FloodTracker) (nowMs : UInt64) : FloodTracker :=
  if f.elapsed nowMs = 0 then f
  else { f with
    lastMs := nowMs
    millitokens := min (f.millitokens + f.gained nowMs) f.capacityMillitokens }

def check (f : FloodTracker) (nowMs : UInt64) : FloodVerdict × FloodTracker :=
  let f := f.refill nowMs
  if 1000 ≤ f.millitokens then (.allow, { f with millitokens := f.millitokens - 1000 })
  else (.exceeded f.penalty, { f with suppressed := f.suppressed + 1 })

/-- The tracker after checks at the given times. -/
def run (f : FloodTracker) (times : List UInt64) : FloodTracker :=
  Library.run (fun f nowMs => (f.check nowMs).2) f times

/-- How many of the checks allow their message. -/
def allowed (f : FloodTracker) : List UInt64 → Nat
  | [] => 0
  | nowMs :: times =>
    (if (f.check nowMs).1 = .allow then 1 else 0) + allowed (f.check nowMs).2 times

/-- The largest time seen, by one who has seen `startMs`. -/
def latest (startMs : Nat) (times : List UInt64) : Nat :=
  times.foldl (fun latest nowMs => max latest nowMs.toNat) startMs

/-- What a check adds to the bucket and takes from it stays within a `u64`. -/
structure Exact (f : FloodTracker) (nowMs : UInt64) : Prop where
  refill : (f.millitokens + f.gained nowMs).toNat = f.millitokens.toNat + (f.gained nowMs).toNat
  paid : 1000 ≤ (f.refill nowMs).millitokens →
    ((f.refill nowMs).millitokens - 1000).toNat + 1000 = (f.refill nowMs).millitokens.toNat

/-- So does the count of suppressed messages, if the check suppresses one. -/
def Counts (f : FloodTracker) (nowMs : UInt64) : Prop :=
  (f.refill nowMs).millitokens < 1000 → (f.suppressed + 1).toNat = f.suppressed.toNat + 1

/-! ## A check as a request to a bucket -/

def gains (f : FloodTracker) : List UInt64 → List Nat
  | [] => []
  | nowMs :: times => (f.gained nowMs).toNat :: gains (f.check nowMs).2 times

theorem toNat_gained (f : FloodTracker) (nowMs : UInt64) :
    (f.gained nowMs).toNat =
      min ((nowMs.toNat - f.lastMs.toNat) * f.per10s.toNat) (2 ^ 64 - 1) / 10 := by
  rw [gained, UInt64.toNat_div, toNat_saturatingMul64, elapsed, toNat_saturatingSub64]
  rfl

theorem toNat_gained_of_elapsed {f : FloodTracker} {nowMs : UInt64} (h : f.elapsed nowMs = 0) :
    (f.gained nowMs).toNat = 0 := by
  have hzero := congrArg UInt64.toNat h
  rw [elapsed, toNat_saturatingSub64, UInt64.toNat_zero] at hzero
  rw [toNat_gained, hzero, Nat.zero_mul]
  rfl

theorem toNat_lastMs_check (f : FloodTracker) (nowMs : UInt64) :
    (f.check nowMs).2.lastMs.toNat = max f.lastMs.toNat nowMs.toNat := by
  have hrefill : (f.refill nowMs).lastMs.toNat = max f.lastMs.toNat nowMs.toNat := by
    unfold refill
    split
    · rename_i hzero
      have hle := congrArg UInt64.toNat hzero
      rw [elapsed, toNat_saturatingSub64, UInt64.toNat_zero] at hle
      omega
    · rename_i hpos
      have hlt : (f.elapsed nowMs).toNat ≠ 0 := fun h => hpos (UInt64.toNat_inj.mp h)
      rw [elapsed, toNat_saturatingSub64] at hlt
      dsimp only
      omega
  unfold check
  dsimp only
  split
  · exact hrefill
  · exact hrefill

theorem per10s_check (f : FloodTracker) (nowMs : UInt64) :
    (f.check nowMs).2.per10s = f.per10s := by
  unfold check refill
  dsimp only
  split
  · split
    · rfl
    · rfl
  · split
    · rfl
    · rfl

section Bucket

variable {capacity : Nat} {f : FloodTracker} {b : TokenBucket capacity}

/-- The tracker's bucket is `b`, and what a check can earn does not overflow it. -/
structure Holds (f : FloodTracker) (b : TokenBucket capacity) : Prop where
  level : f.millitokens.toNat = b.level
  full : f.capacityMillitokens.toNat = capacity
  room : capacity ≤ (2 ^ 32 - 1) * 1000

/-- A gain is at most a tenth of the range, and a full bucket is less than the rest. -/
theorem Holds.toNat_add (h : f.Holds b) (nowMs : UInt64) :
    (f.millitokens + f.gained nowMs).toNat = f.millitokens.toNat + (f.gained nowMs).toNat := by
  have hlevel := b.level_le
  have hroom := h.room
  have hgain := toNat_gained f nowMs
  rw [UInt64.toNat_add]
  have hm := h.level
  exact Nat.mod_eq_of_lt (by omega)

theorem Holds.refill (h : f.Holds b) (nowMs : UInt64) :
    (f.refill nowMs).Holds (b.pour (f.gained nowMs).toNat) := by
  unfold FloodTracker.refill TokenBucket.pour
  split
  · rename_i hzero
    refine ⟨?_, h.full, h.room⟩
    have hlevel := b.level_le
    dsimp only
    rw [toNat_gained_of_elapsed hzero, h.level]
    exact (Nat.min_eq_left hlevel).symm
  · refine ⟨?_, h.full, h.room⟩
    dsimp only
    rw [toNat_min64, h.toNat_add, h.level, h.full]

theorem Holds.pays (h : f.Holds b) : 1000 ≤ f.millitokens ↔ b.Pays 1000 := by
  rw [UInt64.le_iff_toNat_le, h.level]
  rfl

theorem Holds.toNat_sub (h : f.Holds b) (hpays : b.Pays 1000) :
    (f.millitokens - 1000).toNat = b.level - 1000 := by
  rw [UInt64.toNat_sub_of_le _ _ (h.pays.mpr hpays), h.level]
  rfl

theorem Holds.check (h : f.Holds b) (nowMs : UInt64) :
    ((f.check nowMs).1 = .allow ↔ (b.pour (f.gained nowMs).toNat).Pays 1000) ∧
      (f.check nowMs).2.Holds ((b.pour (f.gained nowMs).toNat).pay 1000) := by
  have hrefill := h.refill nowMs
  unfold FloodTracker.check TokenBucket.pay
  dsimp only
  by_cases hpays : (b.pour (f.gained nowMs).toNat).Pays 1000
  · rw [if_pos (hrefill.pays.mpr hpays), if_pos hpays]
    exact ⟨iff_of_true rfl hpays, hrefill.toNat_sub hpays, hrefill.full, hrefill.room⟩
  · rw [if_neg (fun hle => hpays (hrefill.pays.mp hle)), if_neg hpays]
    exact ⟨iff_of_false nofun hpays, hrefill.level, hrefill.full, hrefill.room⟩

theorem Holds.run (h : f.Holds b) (times : List UInt64) :
    (f.run times).Holds (b.run 1000 (f.gains times)) := by
  induction times generalizing f b with
  | nil => exact h
  | cons nowMs times ih => exact ih (h.check nowMs).2

theorem Holds.allowed (h : f.Holds b) (times : List UInt64) :
    f.allowed times = b.served 1000 (f.gains times) := by
  induction times generalizing f b with
  | nil => rfl
  | cons nowMs times ih =>
    obtain ⟨hverdict, hafter⟩ := h.check nowMs
    rw [FloodTracker.allowed, gains, TokenBucket.served, ih hafter]
    congr 1
    exact if_congr hverdict rfl rfl

theorem Holds.exact (h : f.Holds b) (nowMs : UInt64) : f.Exact nowMs where
  refill := h.toNat_add nowMs
  paid hpaid := by
    have hrefill := h.refill nowMs
    have hpays := hrefill.pays.mp hpaid
    rw [hrefill.toNat_sub hpays, hrefill.level]
    exact Nat.sub_add_cancel hpays

end Bucket

/-- A burst in millitokens is far from the end of the range. -/
theorem toNat_new (policy : FloodPolicy) (nowMs : UInt64) :
    (new policy nowMs).capacityMillitokens.toNat = policy.burst.toNat * 1000 := by
  have hburst := policy.burst.toNat_lt
  rw [new, UInt64.toNat_mul, UInt32.toNat_toUInt64]
  exact Nat.mod_eq_of_lt (by simp only [UInt64.reduceToNat]; omega)

theorem holds_new (policy : FloodPolicy) (nowMs : UInt64) :
    (new policy nowMs).Holds (⟨_, Nat.le_refl (policy.burst.toNat * 1000)⟩ : TokenBucket _) where
  level := toNat_new policy nowMs
  full := toNat_new policy nowMs
  room := by
    have hburst := policy.burst.toNat_lt
    omega

end FloodTracker

/-!
## What flood control lets through

However many checks are made and at whatever times, a block of them allows a burst and what the
policy's rate gives in the time between its first and its last. It need not allow that much: each
check rounds its own gain down and starts the clock again, so a bucket that is polled often gains
less than one that is left alone.

* `FloodTracker.block_bounded`: the upper bound, with the operations that stay in range for it.
* `FloodTracker.suppressed_full`: the one that does not.
* `FloodTracker.sustained_iff`: when an empty bucket gains what the rate gives.
* `FloodTracker.game_rate_lost`: it does not for a client that sends every millisecond.
-/

namespace FloodTracker

/-! ## The upper bound -/

theorem le_latest (startMs : Nat) (times : List UInt64) : startMs ≤ latest startMs times := by
  induction times generalizing startMs with
  | nil => exact Nat.le_refl startMs
  | cons nowMs times ih => exact Nat.le_trans (Nat.le_max_left _ _) (ih (max startMs nowMs.toNat))

theorem lastMs_run (f : FloodTracker) (times : List UInt64) :
    (f.run times).lastMs.toNat = latest f.lastMs.toNat times := by
  induction times generalizing f with
  | nil => rfl
  | cons nowMs times ih =>
    have hrest := ih (f.check nowMs).2
    rw [toNat_lastMs_check] at hrest
    exact hrest

theorem per10s_run (f : FloodTracker) (times : List UInt64) : (f.run times).per10s = f.per10s := by
  induction times generalizing f with
  | nil => rfl
  | cons nowMs times ih => exact (ih (f.check nowMs).2).trans (f.per10s_check nowMs)

/-- Rounded down check by check, the gains are at most what the rate gives over the time. -/
theorem sum_gains_le (f : FloodTracker) (times : List UInt64) :
    (f.gains times).sum ≤
      f.per10s.toNat * (latest f.lastMs.toNat times - f.lastMs.toNat) / 10 := by
  induction times generalizing f with
  | nil => exact Nat.zero_le _
  | cons nowMs times ih =>
    have hrest := ih (f.check nowMs).2
    have hgain := f.toNat_gained nowMs
    have hlatest := le_latest (max f.lastMs.toNat nowMs.toNat) times
    rw [per10s_check, toNat_lastMs_check] at hrest
    rw [gains, List.sum_cons]
    change _ ≤ f.per10s.toNat * (latest (max f.lastMs.toNat nowMs.toNat) times - _) / 10
    have hsplit : f.per10s.toNat *
        (latest (max f.lastMs.toNat nowMs.toNat) times - f.lastMs.toNat) =
        (nowMs.toNat - f.lastMs.toNat) * f.per10s.toNat + f.per10s.toNat *
          (latest (max f.lastMs.toNat nowMs.toNat) times - max f.lastMs.toNat nowMs.toNat) := by
      rw [Nat.mul_comm (nowMs.toNat - f.lastMs.toNat), ← Nat.mul_add]
      congr 1
      omega
    omega

theorem Holds.allowed_le {capacity : Nat} {f : FloodTracker} {b : TokenBucket capacity}
    (h : f.Holds b) (first : UInt64) (rest : List UInt64) :
    1000 * f.allowed (first :: rest) ≤ capacity +
      f.per10s.toNat * (latest f.lastMs.toNat (first :: rest) - latest f.lastMs.toNat [first]) /
        10 := by
  have hblock := TokenBucket.cost_served_block_le 1000 b (f.gained first).toNat
    ((f.check first).2.gains rest)
  have hgains := sum_gains_le (f.check first).2 rest
  rw [per10s_check, toNat_lastMs_check] at hgains
  rw [h.allowed]
  exact Nat.le_trans hblock (Nat.add_le_add_left hgains capacity)

theorem check_eq_allow_iff (f : FloodTracker) (nowMs : UInt64) :
    (f.check nowMs).1 = .allow ↔ 1000 ≤ (f.refill nowMs).millitokens := by
  unfold check
  dsimp only
  split
  · rename_i hpaid
    exact iff_of_true rfl hpaid
  · rename_i hfree
    exact iff_of_false nofun hfree

theorem suppressed_check (f : FloodTracker) (nowMs : UInt64) :
    (f.check nowMs).2.suppressed =
      if (f.check nowMs).1 = .allow then f.suppressed else f.suppressed + 1 := by
  have hrefill : (f.refill nowMs).suppressed = f.suppressed := by
    unfold refill
    split
    · rfl
    · rfl
  by_cases hallow : (f.check nowMs).1 = .allow
  · rw [if_pos hallow, ← hrefill, check, if_pos ((f.check_eq_allow_iff nowMs).mp hallow)]
  · rw [if_neg hallow, ← hrefill, check,
      if_neg fun hpaid => hallow ((f.check_eq_allow_iff nowMs).mpr hpaid)]

theorem allowed_le_length (f : FloodTracker) (times : List UInt64) :
    f.allowed times ≤ times.length := by
  induction times generalizing f with
  | nil => exact Nat.le_refl 0
  | cons nowMs times ih =>
    have hrest := ih (f.check nowMs).2
    rw [allowed, List.length_cons]
    split
    · omega
    · omega

/-- The messages that are not allowed are counted, as far as the counter goes. -/
theorem suppressed_run (f : FloodTracker) (times : List UInt64)
    (hroom : f.suppressed.toNat + (times.length - f.allowed times) < 2 ^ 64) :
    (f.run times).suppressed.toNat =
      f.suppressed.toNat + (times.length - f.allowed times) := by
  induction times generalizing f with
  | nil => rfl
  | cons nowMs times ih =>
    have hlength := allowed_le_length (f.check nowMs).2 times
    have hcheck := f.suppressed_check nowMs
    rw [allowed, List.length_cons] at hroom ⊢
    have hrun : (f.run (nowMs :: times)) = (f.check nowMs).2.run times := rfl
    rw [hrun]
    by_cases hallow : (f.check nowMs).1 = .allow
    · rw [if_pos hallow] at hroom hcheck ⊢
      have hrest := ih (f.check nowMs).2
      rw [hcheck] at hrest
      omega
    · rw [if_neg hallow] at hroom hcheck ⊢
      have hone : (f.suppressed + 1).toNat = f.suppressed.toNat + 1 := by
        rw [UInt64.toNat_add]
        exact Nat.mod_eq_of_lt (by simp only [UInt64.toNat_one]; omega)
      have hrest := ih (f.check nowMs).2
      rw [hcheck, hone] at hrest
      omega

/-- **What a block of checks lets through.** Whatever the policy and the times, a block of checks
allows at most a burst and what the rate gives between the latest times seen at its first check
and at its last. The bucket never exceeds its capacity, which is the burst. The operations of a
check stay within a `u64`, as long as the messages suppressed are fewer than it can count. -/
theorem block_bounded (policy : FloodPolicy) (startMs : UInt64) (before : List UInt64)
    (first : UInt64) (rest : List UInt64) :
    1000 * ((new policy startMs).run before).allowed (first :: rest) ≤
        policy.burst.toNat * 1000 + policy.messagesPer10s.toNat *
          (latest startMs.toNat (before ++ first :: rest) -
            latest startMs.toNat (before ++ [first])) / 10 ∧
      (new policy startMs).capacityMillitokens.toNat = policy.burst.toNat * 1000 ∧
      ((new policy startMs).run before).millitokens.toNat ≤ policy.burst.toNat * 1000 ∧
      ((new policy startMs).run before).Exact first ∧
      (before.length - (new policy startMs).allowed before < 2 ^ 64 - 1 →
        ((new policy startMs).run before).Counts first) := by
  have hrun := (holds_new policy startMs).run before
  refine ⟨?_, toNat_new policy startMs, ?_, hrun.exact first, ?_⟩
  · have hblock := hrun.allowed_le first rest
    rw [per10s_run, lastMs_run] at hblock
    rw [latest, latest, List.foldl_append, List.foldl_append]
    have hrate : (new policy startMs).per10s.toNat = policy.messagesPer10s.toNat :=
      UInt32.toNat_toUInt64 _
    rw [hrate] at hblock
    exact hblock
  · rw [hrun.level]
    exact TokenBucket.level_le _
  · intro hroom _
    have hzero : (new policy startMs).suppressed.toNat = 0 := rfl
    have hcount := suppressed_run (new policy startMs) before (by omega)
    rw [UInt64.toNat_add]
    exact Nat.mod_eq_of_lt (by simp only [UInt64.toNat_one]; omega)

theorem refill_lastMs (f : FloodTracker) : f.refill f.lastMs = f := by
  rw [refill, if_pos]
  apply UInt64.toNat_inj.mp
  rw [elapsed, toNat_saturatingSub64, Nat.sub_self]
  rfl

/-- A bucket without a token suppresses a message and stays as it is until the clock moves. -/
theorem check_empty {f : FloodTracker} (hempty : f.millitokens < 1000) :
    f.check f.lastMs = (.exceeded f.penalty, { f with suppressed := f.suppressed + 1 }) := by
  rw [check, refill_lastMs]
  exact if_neg (UInt64.not_le.mpr hempty)

theorem run_empty {f : FloodTracker} (hempty : f.millitokens < 1000) (n : Nat)
    (hroom : f.suppressed.toNat + n < 2 ^ 64) :
    (f.run (List.replicate n f.lastMs)).millitokens < 1000 ∧
      (f.run (List.replicate n f.lastMs)).lastMs = f.lastMs ∧
      (f.run (List.replicate n f.lastMs)).suppressed.toNat = f.suppressed.toNat + n := by
  induction n generalizing f with
  | zero => exact ⟨hempty, rfl, rfl⟩
  | succ n ih =>
    have hone : (f.suppressed + 1).toNat = f.suppressed.toNat + 1 := by
      rw [UInt64.toNat_add]
      exact Nat.mod_eq_of_lt (by simp only [UInt64.toNat_one]; omega)
    have hrest := @ih { f with suppressed := f.suppressed + 1 } hempty (by
      dsimp only
      omega)
    have hrun : f.run (List.replicate (n + 1) f.lastMs) =
        ({ f with suppressed := f.suppressed + 1 } : FloodTracker).run
          (List.replicate n f.lastMs) := by
      rw [List.replicate_succ]
      change run (f.check f.lastMs).2 _ = _
      rw [check_empty hempty]
    rw [hrun]
    refine ⟨hrest.1, hrest.2.1, ?_⟩
    have hcount := hrest.2.2
    dsimp only at hcount
    omega

theorem not_counts_of_full {f : FloodTracker} (hempty : f.millitokens < 1000)
    (hfull : f.suppressed.toNat = 2 ^ 64 - 1) : ¬ f.Counts f.lastMs := by
  intro hcounts
  have hone := hcounts (by rwa [refill_lastMs])
  have hlt := (f.suppressed + 1).toNat_lt
  omega

/-- A policy without a burst suppresses every message of a moment, and after `2 ^ 64 - 1` of them
the counter is at its end. -/
theorem suppressed_full :
    ¬ ((new ⟨0, 0, .dropMessage⟩ 0).run (List.replicate (2 ^ 64 - 1) 0)).Counts 0 := by
  obtain ⟨hempty, hlast, hcount⟩ :=
    run_empty (f := new ⟨0, 0, .dropMessage⟩ 0) (by decide) (2 ^ 64 - 1) (by decide)
  have hzero : (new ⟨0, 0, .dropMessage⟩ 0).suppressed.toNat = 0 := rfl
  rw [hzero, Nat.zero_add] at hcount
  have hfull := not_counts_of_full hempty hcount
  rw [hlast] at hfull
  exact hfull

/-! ## The sustained rate -/

/-- No check finds the bucket full. -/
def NeverFull (f : FloodTracker) (times : List UInt64) : Prop :=
  Along (fun f nowMs => (f.check nowMs).2)
    (fun f nowMs => (f.refill nowMs).millitokens < f.capacityMillitokens) f times

/-- What checks lose by rounding, in tenths of a millitoken, if the latest time seen is
`latestMs`. -/
def lost (per10s latestMs : Nat) : List UInt64 → Nat
  | [] => 0
  | nowMs :: times =>
    per10s * (nowMs.toNat - latestMs) % 10 + lost per10s (max latestMs nowMs.toNat) times

section Rate

variable {capacity : Nat} {f : FloodTracker} {b : TokenBucket capacity}

theorem Holds.neverFull (h : f.Holds b) {times : List UInt64} (hnever : f.NeverFull times) :
    b.NeverFull 1000 (f.gains times) := by
  induction times generalizing f b with
  | nil => trivial
  | cons nowMs times ih =>
    refine ⟨?_, ih (h.check nowMs).2 hnever.2⟩
    have hlt := UInt64.lt_iff_toNat_lt.mp hnever.1
    rw [(h.refill nowMs).level, h.full] at hlt
    exact hlt

theorem Holds.gained_add_lost (h : f.Holds b) {nowMs : UInt64}
    (hlt : (f.refill nowMs).millitokens < f.capacityMillitokens) :
    10 * (f.gained nowMs).toNat + f.per10s.toNat * (nowMs.toNat - f.lastMs.toNat) % 10 =
      f.per10s.toNat * (nowMs.toNat - f.lastMs.toNat) := by
  have hlevel := UInt64.lt_iff_toNat_lt.mp hlt
  rw [(h.refill nowMs).level, h.full] at hlevel
  have hpour := TokenBucket.level_pour_of_lt hlevel
  have hroom := h.room
  have hgain := f.toNat_gained nowMs
  rw [Nat.mul_comm (nowMs.toNat - f.lastMs.toNat)] at hgain
  omega

theorem Holds.sum_gains_add_lost (h : f.Holds b) {times : List UInt64}
    (hnever : f.NeverFull times) :
    10 * (f.gains times).sum + lost f.per10s.toNat f.lastMs.toNat times =
      f.per10s.toNat * (latest f.lastMs.toNat times - f.lastMs.toNat) := by
  induction times generalizing f b with
  | nil => simp [gains, lost, latest]
  | cons nowMs times ih =>
    have hfirst := h.gained_add_lost hnever.1
    have hrest := ih (h.check nowMs).2 hnever.2
    have hlatest := le_latest (max f.lastMs.toNat nowMs.toNat) times
    rw [per10s_check, toNat_lastMs_check] at hrest
    rw [gains, List.sum_cons, lost]
    change _ = f.per10s.toNat * (latest (max f.lastMs.toNat nowMs.toNat) times - _)
    have hsplit : f.per10s.toNat *
        (latest (max f.lastMs.toNat nowMs.toNat) times - f.lastMs.toNat) =
        f.per10s.toNat * (nowMs.toNat - f.lastMs.toNat) + f.per10s.toNat *
          (latest (max f.lastMs.toNat nowMs.toNat) times - max f.lastMs.toNat nowMs.toNat) := by
      rw [← Nat.mul_add]
      congr 1
      omega
    omega

theorem Holds.gained_eq (h : f.Holds b) {times : List UInt64} (hnever : f.NeverFull times) :
    (f.run times).millitokens.toNat + 1000 * f.allowed times =
      f.millitokens.toNat + (f.gains times).sum := by
  have hkeeps := TokenBucket.cost_served_eq (h.neverFull hnever)
  rw [(h.run times).level, h.allowed, h.level]
  exact hkeeps

end Rate

theorem latest_sorted {first : UInt64} {rest : List UInt64}
    (hsorted : (first :: rest).Pairwise (· ≤ ·)) (startMs : Nat) :
    latest startMs (first :: rest) =
      max startMs ((first :: rest).getLast (List.cons_ne_nil first rest)).toNat := by
  induction rest generalizing first startMs with
  | nil => rfl
  | cons second rest ih =>
    obtain ⟨hfirst, htail⟩ := List.pairwise_cons.mp hsorted
    have hle := UInt64.le_iff_toNat_le.mp
      (hfirst _ (List.getLast_mem (List.cons_ne_nil second rest)))
    have hrest := ih htail (max startMs first.toNat)
    rw [List.getLast_cons_cons]
    change latest (max startMs first.toNat) (second :: rest) = _
    rw [hrest]
    omega

/-- What a run gains: what is left in the bucket and what it has paid for. -/
def gainedOver (f : FloodTracker) (times : List UInt64) : Nat :=
  (f.run times).millitokens.toNat + 1000 * f.allowed times - f.millitokens.toNat

/-- **The sustained rate.** Take a bucket that checks have emptied, and go on with checks at times
that do not decrease and that never find it full. Then the millitokens it gains are at least what
the rate gives between the first and the last of them, less one, exactly if what the checks lose by
rounding is not more than ten tenths and what the rate gives before the first. -/
theorem sustained_iff (policy : FloodPolicy) (startMs : UInt64) (before : List UInt64)
    (first : UInt64) (rest : List UInt64)
    (hempty : ((new policy startMs).run before).millitokens = 0)
    (hsorted : (first :: rest).Pairwise (· ≤ ·))
    (hnever : ((new policy startMs).run before).NeverFull (first :: rest)) :
    policy.messagesPer10s.toNat *
          (((first :: rest).getLast (List.cons_ne_nil first rest)).toNat - first.toNat) ≤
        10 * (((new policy startMs).run before).gainedOver (first :: rest) + 1) ↔
      policy.messagesPer10s.toNat *
            (((first :: rest).getLast (List.cons_ne_nil first rest)).toNat - first.toNat) +
          lost policy.messagesPer10s.toNat (latest startMs.toNat before) (first :: rest) ≤
        policy.messagesPer10s.toNat *
            (((first :: rest).getLast (List.cons_ne_nil first rest)).toNat -
              latest startMs.toNat before) + 10 := by
  have hrun := (holds_new policy startMs).run before
  have hrate : (new policy startMs).per10s.toNat = policy.messagesPer10s.toNat :=
    UInt32.toNat_toUInt64 _
  have hzero : ((new policy startMs).run before).millitokens.toNat = 0 := by
    rw [hempty]
    rfl
  have hgained := hrun.gained_eq hnever
  have hlost := hrun.sum_gains_add_lost hnever
  rw [per10s_run, lastMs_run, hrate, latest_sorted hsorted] at hlost
  have hstart : (new policy startMs).lastMs.toNat = startMs.toNat := rfl
  have htime : max (latest startMs.toNat before)
      ((first :: rest).getLast (List.cons_ne_nil first rest)).toNat - latest startMs.toNat before =
      ((first :: rest).getLast (List.cons_ne_nil first rest)).toNat -
        latest startMs.toNat before := by
    omega
  rw [hstart, htime] at hlost
  unfold gainedOver
  omega

/-- The burst of the game policy is spent, and the client waits for one check in ten. -/
theorem sustained_iff_slow :
    12 * (10 - 0) ≤ 10 * (((new ⟨12, 5, .mute 30⟩ 0).run [0, 0, 0, 0, 0]).gainedOver [0, 10] + 1) ↔
      12 * (10 - 0) + lost 12 (latest 0 [0, 0, 0, 0, 0]) [0, 10] ≤
        12 * (10 - latest 0 [0, 0, 0, 0, 0]) + 10 :=
  sustained_iff ⟨12, 5, .mute 30⟩ 0 [0, 0, 0, 0, 0] 0 [10] (by decide +kernel) (by decide)
    ⟨by decide +kernel, by decide +kernel, trivial⟩

/-- A client of the game policy sends every millisecond from the moment its burst is spent. It
gains seven millitokens of the eight and more that the rate gives. -/
theorem game_rate_lost :
    ((new ⟨12, 5, .mute 30⟩ 0).run [0, 0, 0, 0, 0]).millitokens = 0 ∧
      ((new ⟨12, 5, .mute 30⟩ 0).run [0, 0, 0, 0, 0]).NeverFull [0, 1, 2, 3, 4, 5, 6, 7] ∧
      ¬ 12 * (7 - 0) ≤ 10 * (((new ⟨12, 5, .mute 30⟩ 0).run [0, 0, 0, 0, 0]).gainedOver
        [0, 1, 2, 3, 4, 5, 6, 7] + 1) := by
  refine ⟨by decide +kernel, ?_, by decide +kernel⟩
  exact ⟨by decide +kernel, by decide +kernel, by decide +kernel, by decide +kernel,
    by decide +kernel, by decide +kernel, by decide +kernel, by decide +kernel, trivial⟩

end FloodTracker

end CommandCenter.Core
