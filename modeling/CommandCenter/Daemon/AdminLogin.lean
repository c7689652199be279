import CommandCenter.Core.Admission
import CommandCenter.Rust.Map

/-!
# Logging in to the admin panel

`do_login` of `crates/bnetccd/src/status.rs` and the limit of guesses behind it. A request looks
whether its address is limited, verifies the password and records the failure, each while other
requests go on in between.

* `window`: what the limiter counts for an address.
* `Inv`: no address has more failures counted and passwords under way than are allowed.
* `guesses_limited`: the limit holds in the runs whose checks let no more in than it leaves.
-/

namespace CommandCenter.Daemon

open Rust CommandCenter.Core Library

/-! ## The limiter -/

def maxLoginFails : UInt32 := 5

/-- `LOGIN_WINDOW`, in nanoseconds. -/
def loginWindow : Nat := 60 * 10 ^ 9

/-- How often each address has failed, and since when that is counted. -/
abbrev RateLimiter := Map IpAddr (UInt32 × Nat)

namespace RateLimiter

def isRateLimited (rate : RateLimiter) (ip : IpAddr) (now : Nat) : Bool × RateLimiter :=
  match rate.lookup ip with
  | some (fails, start) =>
    if now - start < loginWindow then (decide (maxLoginFails ≤ fails), rate)
    else (false, rate.erase ip)
  | none => (false, rate.erase ip)

def recordFail (rate : RateLimiter) (ip : IpAddr) (now : Nat) : RateLimiter :=
  let entry := (rate.lookup ip).getD (0, now)
  let entry := if loginWindow ≤ now - entry.2 then (0, now) else entry
  rate.insert ip (entry.1 + 1, entry.2)

def clearRate (rate : RateLimiter) (ip : IpAddr) : RateLimiter := rate.erase ip

/-- The entry of an address, while its window lasts. -/
def current (rate : RateLimiter) (ip : IpAddr) (now : Nat) : Option (UInt32 × Nat) :=
  (rate.lookup ip).filter fun entry => now - entry.2 < loginWindow

/-- The failures that count at this time, and since when. -/
def window (rate : RateLimiter) (ip : IpAddr) (now : Nat) : UInt32 × Nat :=
  (rate.current ip now).getD (0, now)

variable {rate : RateLimiter} {ip other : IpAddr} {now later : Nat}

theorem current_eq_some_iff {entry : UInt32 × Nat} : rate.current ip now = some entry ↔
    rate.lookup ip = some entry ∧ now - entry.2 < loginWindow := by
  rw [current, Option.filter_eq_some_iff, decide_eq_true_iff]

/-- A window comes to its end and does not come back. -/
theorem current_of_le (h : now ≤ later) {entry : UInt32 × Nat}
    (hentry : rate.current ip later = some entry) : rate.current ip now = some entry := by
  obtain ⟨hlookup, hlater⟩ := current_eq_some_iff.mp hentry
  exact current_eq_some_iff.mpr ⟨hlookup, by omega⟩

theorem window_of_current {entry : UInt32 × Nat} (h : rate.current ip now = some entry) :
    rate.window ip now = entry := by
  rw [window, h]
  rfl

theorem window_of_none (h : rate.current ip now = none) : rate.window ip now = (0, now) := by
  rw [window, h]
  rfl

/-- Looking whether it is changes nothing that counts. -/
theorem current_isRateLimited :
    (rate.isRateLimited ip now).2.current other now = rate.current other now := by
  by_cases hother : other = ip
  · subst hother
    unfold isRateLimited
    cases hlookup : rate.lookup other with
    | none => rw [current, current, Finmap.lookup_erase, hlookup]
    | some entry =>
      dsimp only
      split
      · rfl
      · rename_i hnow
        rw [current, current, Finmap.lookup_erase, hlookup, Option.filter_some,
          if_neg (by simpa using hnow)]
        rfl
  · unfold isRateLimited
    split
    · split
      · rfl
      · rw [current, current, Finmap.lookup_erase_ne hother]
    · rw [current, current, Finmap.lookup_erase_ne hother]

theorem current_recordFail : (rate.recordFail ip now).current other now =
    if other = ip then some ((rate.window ip now).1 + 1, (rate.window ip now).2)
    else rate.current other now := by
  have hbegin : ¬ loginWindow ≤ now - now := by
    rw [Nat.sub_self]
    decide
  split
  · rename_i hother
    subst hother
    rw [current, recordFail, Finmap.lookup_insert, Option.filter_some, window, current]
    cases rate.lookup other with
    | none =>
      rw [Option.getD_none, if_neg hbegin, if_pos (decide_eq_true (Nat.lt_of_not_le hbegin))]
      rfl
    | some entry =>
      rw [Option.getD_some, Option.filter_some]
      by_cases hnow : loginWindow ≤ now - entry.2
      · rw [if_pos hnow, if_pos (decide_eq_true (Nat.lt_of_not_le hbegin)),
          if_neg (by simpa using hnow)]
        rfl
      · have hlast : now - entry.2 < loginWindow := Nat.lt_of_not_le hnow
        rw [if_neg hnow, if_pos (decide_eq_true hlast), if_pos (decide_eq_true hlast)]
        rfl
  · rename_i hother
    rw [current, current, recordFail, Finmap.lookup_insert_of_ne _ hother]

theorem current_clearRate (h : other ≠ ip) :
    (rate.clearRate ip).current other now = rate.current other now := by
  rw [current, current, clearRate, Finmap.lookup_erase_ne h]

end RateLimiter

/-! ## Requests -/

/-- How far `do_login` has come for a request. -/
inductive LoginPhase where
  | arrived
  | passed
  | verified (right : Bool)
  | answered
  deriving DecidableEq

structure LoginRequest where
  peerIp : IpAddr
  phase : LoginPhase
  deriving DecidableEq

/-- The limiter with the requests that share it. It is also noted which passwords were verified
when, and which failures began a window. -/
structure Panel where
  rate : RateLimiter
  logins : List LoginRequest
  clock : Nat
  verified : List (IpAddr × Nat)
  opened : List (IpAddr × Nat)

/-- One entry of a list is replaced. -/
theorem countP_set_add {α : Type} {p : α → Bool} {l : List α} {i : Nat} {a b : α}
    (h : l[i]? = some a) :
    (l.set i b).countP p + (if p a then 1 else 0) = l.countP p + if p b then 1 else 0 := by
  obtain ⟨hi, rfl⟩ := List.getElem?_eq_some_iff.mp h
  rw [List.countP_set hi]
  have hle : (if p l[i] = true then 1 else 0) ≤ l.countP p := by
    split
    · rename_i hp
      exact List.countP_pos_iff.mpr ⟨l[i], List.getElem_mem hi, hp⟩
    · exact Nat.zero_le _
  omega

namespace Panel

/-- Nobody has come yet. -/
def new : Panel := ⟨∅, [], 0, [], []⟩

/-- A new request, or the next step of one after so many nanoseconds. -/
inductive Event where
  | arrives (peerIp : IpAddr)
  | checks (i : Nat) (after : Nat)
  | verifies (i : Nat) (right : Bool) (after : Nat)
  | records (i : Nat) (after : Nat)

def wait (s : Panel) (after : Nat) : Panel := { s with clock := s.clock + after }

/-- `is_rate_limited`. -/
def check (s : Panel) (i : Nat) : Panel :=
  match s.logins[i]? with
  | some ⟨ip, .arrived⟩ =>
    let limited := s.rate.isRateLimited ip s.clock
    { s with
      rate := limited.2
      logins := s.logins.set i ⟨ip, if limited.1 then .answered else .passed⟩ }
  | _ => s

/-- `verify_password`. -/
def verify (s : Panel) (i : Nat) (right : Bool) : Panel :=
  match s.logins[i]? with
  | some ⟨ip, .passed⟩ =>
    { s with
      logins := s.logins.set i ⟨ip, .verified right⟩
      verified := (ip, s.clock) :: s.verified }
  | _ => s

/-- `clear_rate` or `record_fail`. -/
def record (s : Panel) (i : Nat) : Panel :=
  match s.logins[i]? with
  | some ⟨ip, .verified true⟩ =>
    { s with rate := s.rate.clearRate ip, logins := s.logins.set i ⟨ip, .answered⟩ }
  | some ⟨ip, .verified false⟩ =>
    { s with
      rate := s.rate.recordFail ip s.clock
      logins := s.logins.set i ⟨ip, .answered⟩
      opened := if (s.rate.current ip s.clock).isNone then (ip, s.clock) :: s.opened else s.opened }
  | _ => s

def step (s : Panel) : Event → Panel
  | .arrives peerIp => { s with logins := s.logins ++ [⟨peerIp, .arrived⟩] }
  | .checks i after => (s.wait after).check i
  | .verifies i right after => (s.wait after).verify i right
  | .records i after => (s.wait after).record i

/-! ## What is counted -/

variable (ip : IpAddr)

/-- The failures that count for an address now, and since when. -/
def window (s : Panel) : UInt32 × Nat := s.rate.window ip s.clock

/-- The requests that have passed the check and are not over. -/
def inFlight (s : Panel) : Nat :=
  s.logins.countP fun r => r.peerIp = ip ∧ (r.phase = .passed ∨ r.phase = .verified false)

/-- The failures that have not been recorded. -/
def unrecorded (s : Panel) : Nat :=
  s.logins.countP fun r => r.peerIp = ip ∧ r.phase = .verified false

/-- The passwords verified for the address in the window that begins at `start`. -/
def verifiedIn (s : Panel) (start : Nat) : Nat :=
  s.verified.countP fun e => e.1 = ip ∧ start ≤ e.2 ∧ e.2 < start + loginWindow

/-- A step that verifies a password for the address. -/
def Verifies (s : Panel) : Event → Prop
  | .verifies i _ _ => s.logins[i]? = some ⟨ip, .passed⟩
  | _ => False

/-- When a step is taken. -/
def time (s : Panel) : Event → Nat
  | .arrives _ => s.clock
  | .checks _ after | .verifies _ _ after | .records _ after => s.clock + after

structure GuessesLimited (s : Panel) : Prop where
  counted : ∀ start, (ip, start) ∈ s.opened → s.verifiedIn ip start ≤ maxLoginFails.toNat
  locked : ∀ fails start, s.rate.lookup ip = some (fails, start) → maxLoginFails ≤ fails →
    ∀ e, Verifies ip s e → start + loginWindow ≤ s.time e

/-! ## Conditions on the steps -/

/-- The password that is verified is not right. -/
def Wrong (s : Panel) : Event → Prop
  | .verifies i right _ => s.logins[i]? = some ⟨ip, .passed⟩ → right = false
  | _ => True

/-- A request passes the check only where it and those under way are within the limit. -/
def Room (s : Panel) : Event → Prop
  | .checks i after => s.logins[i]? = some ⟨ip, .arrived⟩ →
    (s.rate.isRateLimited ip (s.clock + after)).1 = false →
      (s.rate.window ip (s.clock + after)).1.toNat + s.inFlight ip < maxLoginFails.toNat
  | _ => True

instance (s : Panel) (e : Event) : Decidable (Wrong ip s e) :=
  match e with
  | .verifies _ _ _ => inferInstanceAs (Decidable (_ → _))
  | .arrives _ | .checks _ _ | .records _ _ => .isTrue trivial

instance (s : Panel) (e : Event) : Decidable (Room ip s e) :=
  match e with
  | .checks _ _ => inferInstanceAs (Decidable (_ → _ → _))
  | .arrives _ | .verifies _ _ _ | .records _ _ => .isTrue trivial

/-! ## The invariant -/

/-- No address has more failures counted and passwords under way than are allowed, and what was
verified since the window began is counted or under way. -/
structure Inv (s : Panel) : Prop where
  wrong : ∀ r ∈ s.logins, r.peerIp = ip → r.phase ≠ .verified true
  past : ∀ e ∈ s.verified, e.2 ≤ s.clock
  room : (s.window ip).1.toNat + s.inFlight ip ≤ maxLoginFails.toNat
  counted : (s.verified.countP fun e => e.1 = ip ∧ (s.window ip).2 ≤ e.2) ≤
    (s.window ip).1.toNat + s.unrecorded ip
  lasting : ∀ start, (ip, start) ∈ s.opened → s.clock < start + loginWindow →
    ∃ fails, s.rate.current ip s.clock = some (fails, start)
  limited : ∀ start, (ip, start) ∈ s.opened → s.verifiedIn ip start ≤ maxLoginFails.toNat

variable {ip} {s : Panel}

theorem unrecorded_le_inFlight : s.unrecorded ip ≤ s.inFlight ip := by
  refine List.countP_mono_left fun r _ h => ?_
  simp only [decide_eq_true_eq] at h ⊢
  exact ⟨h.1, Or.inr h.2⟩

theorem Inv.of_lasting (hwrong : ∀ r ∈ s.logins, r.peerIp = ip → r.phase ≠ .verified true)
    (hpast : ∀ e ∈ s.verified, e.2 ≤ s.clock)
    (hroom : (s.window ip).1.toNat + s.inFlight ip ≤ maxLoginFails.toNat)
    (hcounted : (s.verified.countP fun e => e.1 = ip ∧ (s.window ip).2 ≤ e.2) ≤
      (s.window ip).1.toNat + s.unrecorded ip)
    (hlasting : ∀ start, (ip, start) ∈ s.opened → s.clock < start + loginWindow →
      ∃ fails, s.rate.current ip s.clock = some (fails, start))
    (hover : ∀ start, (ip, start) ∈ s.opened → start + loginWindow ≤ s.clock →
      s.verifiedIn ip start ≤ maxLoginFails.toNat) : Inv ip s := by
  refine ⟨hwrong, hpast, hroom, hcounted, hlasting, fun start hstart => ?_⟩
  rcases Nat.lt_or_ge s.clock (start + loginWindow) with hlast | hlast
  · obtain ⟨fails, hentry⟩ := hlasting start hstart hlast
    have hwindow : s.window ip = (fails, start) := RateLimiter.window_of_current hentry
    have hless : s.verifiedIn ip start ≤
        s.verified.countP fun e => e.1 = ip ∧ (s.window ip).2 ≤ e.2 := by
      rw [hwindow]
      refine List.countP_mono_left fun e _ he => ?_
      simp only [decide_eq_true_eq] at he ⊢
      exact ⟨he.1, he.2.1⟩
    have hle : s.unrecorded ip ≤ s.inFlight ip := unrecorded_le_inFlight
    omega
  · exact hover start hstart hlast

theorem inv_new : Inv ip new where
  wrong := nofun
  past := nofun
  room := Nat.zero_le _
  counted := Nat.zero_le _
  lasting := nofun
  limited := nofun

theorem Inv.wait (h : Inv ip s) (after : Nat) : Inv ip (s.wait after) := by
  have hpast : ∀ e ∈ s.verified, e.2 ≤ s.clock + after := fun e he =>
    Nat.le_trans (h.past e he) (Nat.le_add_right _ _)
  have hlasting : ∀ start, (ip, start) ∈ s.opened → s.clock + after < start + loginWindow →
      ∃ fails, s.rate.current ip (s.clock + after) = some (fails, start) := by
    intro start hstart hlater
    obtain ⟨fails, hentry⟩ := h.lasting start hstart (by omega)
    obtain ⟨hlookup, _⟩ := RateLimiter.current_eq_some_iff.mp hentry
    exact ⟨fails, RateLimiter.current_eq_some_iff.mpr ⟨hlookup, by show _ - start < _; omega⟩⟩
  cases hentry : s.rate.current ip (s.clock + after) with
  | some entry =>
    -- the window goes on
    have hbefore := RateLimiter.current_of_le (Nat.le_add_right s.clock after) hentry
    have hwindow : (s.wait after).window ip = s.window ip :=
      (RateLimiter.window_of_current hentry).trans (RateLimiter.window_of_current hbefore).symm
    refine ⟨h.wrong, hpast, ?_, ?_, hlasting, h.limited⟩
    · rw [hwindow]
      exact h.room
    · rw [hwindow]
      exact h.counted
  | none =>
    have hwindow : (s.wait after).window ip = (0, s.clock + after) :=
      RateLimiter.window_of_none hentry
    refine ⟨h.wrong, hpast, ?_, ?_, hlasting, h.limited⟩
    · rw [hwindow]
      have hroom := h.room
      show 0 + s.inFlight ip ≤ _
      omega
    · rw [hwindow]
      show (s.verified.countP fun e => e.1 = ip ∧ s.clock + after ≤ e.2) ≤ 0 + s.unrecorded ip
      cases after with
      | zero =>
        have hcounted := h.counted
        have hsame : s.window ip = (0, s.clock) := hwindow
        rw [hsame] at hcounted
        exact hcounted
      | succ after =>
        -- nothing has been verified this late
        rw [List.countP_eq_zero.mpr]
        · exact Nat.zero_le _
        · intro e he
          have hle := h.past e he
          simp only [decide_eq_true_eq]
          omega

/-- What the invariant does not see: the requests of other addresses, and the time. -/
theorem Inv.frame (h : Inv ip s) {s' : Panel} (hclock : s'.clock = s.clock)
    (hwrong : ∀ r ∈ s'.logins, r.peerIp = ip → r.phase ≠ .verified true)
    (hpast : ∀ e ∈ s'.verified, e.2 ≤ s.clock)
    (hcurrent : s'.rate.current ip s.clock = s.rate.current ip s.clock)
    (hinFlight : s'.inFlight ip = s.inFlight ip)
    (hunrecorded : s'.unrecorded ip = s.unrecorded ip)
    (hverified : ∀ p : Nat → Bool, (s'.verified.countP fun e => e.1 = ip ∧ p e.2) =
      s.verified.countP fun e => e.1 = ip ∧ p e.2)
    (hopened : ∀ start, (ip, start) ∈ s'.opened → (ip, start) ∈ s.opened) : Inv ip s' := by
  have hwindow : s'.window ip = s.window ip := by
    rw [window, window, RateLimiter.window, RateLimiter.window, hclock, hcurrent]
  refine ⟨hwrong, ?_, ?_, ?_, ?_, ?_⟩
  · rw [hclock]
    exact hpast
  · rw [hwindow, hinFlight]
    exact h.room
  · have hcounted := hverified fun time => (s.window ip).2 ≤ time
    simp only [decide_eq_true_eq] at hcounted
    rw [hwindow, hunrecorded, hcounted]
    exact h.counted
  · intro start hstart hlast
    rw [hclock] at hlast ⊢
    rw [hcurrent]
    exact h.lasting start (hopened start hstart) hlast
  · intro start hstart
    have hlimited := hverified fun time => start ≤ time ∧ time < start + loginWindow
    simp only [decide_eq_true_eq] at hlimited
    rw [verifiedIn, hlimited]
    exact h.limited start (hopened start hstart)

theorem wrong_set {logins : List LoginRequest} {i : Nat} {new : LoginRequest}
    (h : ∀ r ∈ logins, r.peerIp = ip → r.phase ≠ .verified true)
    (hnew : new.peerIp = ip → new.phase ≠ .verified true) :
    ∀ r ∈ logins.set i new, r.peerIp = ip → r.phase ≠ .verified true := by
  intro r hr
  rcases List.mem_or_eq_of_mem_set hr with hr | rfl
  · exact h r hr
  · exact hnew

theorem countP_set_other {p : LoginRequest → Bool} {i : Nat} {other : IpAddr}
    {phase phase' : LoginPhase} (hr : s.logins[i]? = some ⟨other, phase⟩) (hother : other ≠ ip)
    (hp : ∀ r, p r = true → r.peerIp = ip) :
    (s.logins.set i ⟨other, phase'⟩).countP p = s.logins.countP p := by
  have hset := countP_set_add (p := p) (b := ⟨other, phase'⟩) hr
  rw [if_neg fun h => hother (hp _ h), if_neg fun h => hother (hp _ h)] at hset
  exact hset

/-- Another address's request goes one step on. -/
theorem Inv.other (h : Inv ip s) {s' : Panel} {i : Nat} {other : IpAddr} {phase phase' : LoginPhase}
    (hr : s.logins[i]? = some ⟨other, phase⟩) (hother : other ≠ ip) (hclock : s'.clock = s.clock)
    (hlogins : s'.logins = s.logins.set i ⟨other, phase'⟩)
    (hcurrent : s'.rate.current ip s.clock = s.rate.current ip s.clock)
    (hverified : s'.verified = s.verified ∨ s'.verified = (other, s.clock) :: s.verified)
    (hopened : s'.opened = s.opened ∨ s'.opened = (other, s.clock) :: s.opened) : Inv ip s' := by
  refine h.frame hclock ?_ ?_ hcurrent ?_ ?_ (fun p => ?_) fun start hstart => ?_
  · rw [hlogins]
    exact wrong_set h.wrong fun hip => absurd hip hother
  · rcases hverified with hsame | hnoted
    · rw [hsame]
      exact h.past
    · rw [hnoted]
      rintro e he
      rcases List.mem_cons.mp he with rfl | he
      · exact Nat.le_refl _
      · exact h.past e he
  · rw [inFlight, hlogins]
    exact countP_set_other hr hother fun r hp => (of_decide_eq_true hp).1
  · rw [unrecorded, hlogins]
    exact countP_set_other hr hother fun r hp => (of_decide_eq_true hp).1
  · rcases hverified with hsame | hnoted
    · rw [hsame]
    · rw [hnoted, List.countP_cons_of_neg]
      exact fun hp => hother (of_decide_eq_true hp).1
  · rcases hopened with hsame | hnoted
    · rwa [hsame] at hstart
    · rw [hnoted, List.mem_cons] at hstart
      rcases hstart with hnew | hstart
      · exact absurd (congrArg Prod.fst hnew).symm hother
      · exact hstart

/-- A request of the address itself goes one step on. -/
theorem counts_set {i : Nat} {phase : LoginPhase} (hr : s.logins[i]? = some ⟨ip, phase⟩)
    {s' : Panel} {phase' : LoginPhase} (hlogins : s'.logins = s.logins.set i ⟨ip, phase'⟩) :
    s'.inFlight ip + (if phase = .passed ∨ phase = .verified false then 1 else 0) =
        s.inFlight ip + (if phase' = .passed ∨ phase' = .verified false then 1 else 0) ∧
      s'.unrecorded ip + (if phase = .verified false then 1 else 0) =
        s.unrecorded ip + if phase' = .verified false then 1 else 0 := by
  rw [inFlight, inFlight, unrecorded, unrecorded, hlogins]
  constructor
  · have hset := countP_set_add (p := fun r => decide (r.peerIp = ip ∧
      (r.phase = .passed ∨ r.phase = .verified false))) (b := ⟨ip, phase'⟩) hr
    simpa only [true_and, decide_eq_true_eq] using hset
  · have hset := countP_set_add (p := fun r => decide (r.peerIp = ip ∧
      r.phase = .verified false)) (b := ⟨ip, phase'⟩) hr
    simpa only [true_and, decide_eq_true_eq] using hset

theorem Inv.checked (h : Inv ip s) {s' : Panel} {i : Nat} {limited : Bool}
    (hr : s.logins[i]? = some ⟨ip, .arrived⟩) (hclock : s'.clock = s.clock)
    (hlogins : s'.logins = s.logins.set i ⟨ip, if limited then .answered else .passed⟩)
    (hcurrent : s'.rate.current ip s.clock = s.rate.current ip s.clock)
    (hverified : s'.verified = s.verified) (hopened : s'.opened = s.opened)
    (hroom : limited = false → (s.window ip).1.toNat + s.inFlight ip < maxLoginFails.toNat) :
    Inv ip s' := by
  obtain ⟨hinFlight, hunrecorded⟩ := counts_set hr hlogins
  have hwindow : s'.window ip = s.window ip := by
    rw [window, window, RateLimiter.window, RateLimiter.window, hclock, hcurrent]
  have hwrong : ∀ r ∈ s'.logins, r.peerIp = ip → r.phase ≠ .verified true := by
    rw [hlogins]
    exact wrong_set h.wrong fun _ => by cases limited <;> simp
  cases limited with
  | true =>
    refine h.frame hclock hwrong (by rw [hverified]; exact h.past) hcurrent ?_ ?_
      (fun p => by rw [hverified]) fun start hstart => hopened ▸ hstart
    · simpa using hinFlight
    · simpa using hunrecorded
  | false =>
    have hroom := hroom rfl
    simp only [reduceCtorEq, or_self, or_false, if_true, if_false, Bool.false_eq_true,
      Nat.add_zero] at hinFlight hunrecorded
    refine ⟨hwrong, ?_, ?_, ?_, ?_, ?_⟩
    · rw [hverified, hclock]
      exact h.past
    · rw [hwindow]
      omega
    · rw [hverified, hwindow, hunrecorded]
      exact h.counted
    · rw [hopened, hclock, hcurrent]
      exact h.lasting
    · intro start hstart
      rw [hopened] at hstart
      rw [verifiedIn, hverified]
      exact h.limited start hstart

theorem Inv.check (h : Inv ip s) {i : Nat}
    (hroom : s.logins[i]? = some ⟨ip, .arrived⟩ → (s.rate.isRateLimited ip s.clock).1 = false →
      (s.window ip).1.toNat + s.inFlight ip < maxLoginFails.toNat) : Inv ip (s.check i) := by
  unfold Panel.check
  split
  · rename_i ip' hr
    have hcurrent : (s.rate.isRateLimited ip' s.clock).2.current ip s.clock =
        s.rate.current ip s.clock := RateLimiter.current_isRateLimited
    by_cases hother : ip' = ip
    · subst hother
      exact h.checked hr rfl rfl hcurrent rfl rfl (hroom hr)
    · exact h.other hr hother rfl rfl hcurrent (Or.inl rfl) (Or.inl rfl)
  · exact h

/-- A password of the address is verified. -/
theorem Inv.guessed (h : Inv ip s) {s' : Panel} {i : Nat}
    (hr : s.logins[i]? = some ⟨ip, .passed⟩) (hclock : s'.clock = s.clock)
    (hlogins : s'.logins = s.logins.set i ⟨ip, .verified false⟩) (hrate : s'.rate = s.rate)
    (hverified : s'.verified = (ip, s.clock) :: s.verified) (hopened : s'.opened = s.opened) :
    Inv ip s' := by
  obtain ⟨hinFlight, hunrecorded⟩ := counts_set hr hlogins
  simp only [reduceCtorEq, or_false, or_true, if_true, if_false, Nat.add_zero]
    at hinFlight hunrecorded
  have hwindow : s'.window ip = s.window ip := by rw [window, window, hclock, hrate]
  have hroom := h.room
  have hcounted := h.counted
  refine .of_lasting ?_ ?_ ?_ ?_ ?_ fun start hstart hover => ?_
  · rw [hlogins]
    exact wrong_set h.wrong fun _ => by simp
  · rw [hverified, hclock]
    intro e he
    rcases List.mem_cons.mp he with rfl | he
    · exact Nat.le_refl _
    · exact h.past e he
  · rw [hwindow]
    omega
  · rw [hwindow, hverified, List.countP_cons]
    split <;> omega
  · rw [hopened, hclock, hrate]
    exact h.lasting
  · rw [hopened] at hstart
    rw [verifiedIn, hverified, List.countP_cons_of_neg]
    · exact h.limited start hstart
    · rw [hclock] at hover
      simp only [decide_eq_true_eq]
      omega

theorem Inv.verify (h : Inv ip s) {i : Nat} {right : Bool}
    (hwrong : s.logins[i]? = some ⟨ip, .passed⟩ → right = false) : Inv ip (s.verify i right) := by
  unfold Panel.verify
  split
  · rename_i ip' hr
    by_cases hother : ip' = ip
    · subst hother
      obtain rfl := hwrong hr
      exact h.guessed hr rfl rfl rfl rfl rfl
    · exact h.other hr hother rfl rfl rfl (Or.inr rfl) (Or.inl rfl)
  · exact h

theorem Inv.failed (h : Inv ip s) {s' : Panel} {i : Nat}
    (hr : s.logins[i]? = some ⟨ip, .verified false⟩) (hclock : s'.clock = s.clock)
    (hlogins : s'.logins = s.logins.set i ⟨ip, .answered⟩)
    (hrate : s'.rate = s.rate.recordFail ip s.clock) (hverified : s'.verified = s.verified)
    (hopened : s'.opened =
      if (s.rate.current ip s.clock).isNone then (ip, s.clock) :: s.opened else s.opened) :
    Inv ip s' := by
  obtain ⟨hinFlight, hunrecorded⟩ := counts_set hr hlogins
  simp only [reduceCtorEq, or_self, or_true, if_true, if_false, Nat.add_zero]
    at hinFlight hunrecorded
  have hroom := h.room
  have hcounted := h.counted
  have hcurrent : s'.rate.current ip s.clock = some ((s.window ip).1 + 1, (s.window ip).2) := by
    rw [hrate, RateLimiter.current_recordFail, if_pos rfl]
    rfl
  have hwindow : s'.window ip = ((s.window ip).1 + 1, (s.window ip).2) := by
    rw [window, hclock]
    exact RateLimiter.window_of_current hcurrent
  have hfails : ((s.window ip).1 + 1).toNat = (s.window ip).1.toNat + 1 := by
    have hsmall : (s.window ip).1.toNat ≤ 5 := Nat.le_trans (Nat.le_add_right _ _) hroom
    rw [UInt32.toNat_add]
    exact Nat.mod_eq_of_lt (by show _ + 1 < _; omega)
  have hbegan (start : Nat) (hstart : (ip, start) ∈ s'.opened) : (ip, start) ∈ s.opened ∨
      (start = s.clock ∧ s.rate.current ip s.clock = none) := by
    rw [hopened] at hstart
    split at hstart
    · rename_i hnone
      rcases List.mem_cons.mp hstart with hnew | hstart
      · exact Or.inr ⟨congrArg Prod.snd hnew, Option.isNone_iff_eq_none.mp hnone⟩
      · exact Or.inl hstart
    · exact Or.inl hstart
  refine .of_lasting ?_ ?_ ?_ ?_ (fun start hstart hlast => ?_) fun start hstart hover => ?_
  · rw [hlogins]
    exact wrong_set h.wrong fun _ => by simp
  · rw [hverified, hclock]
    exact h.past
  · rw [hwindow, hfails]
    omega
  · rw [hwindow, hverified, hfails]
    show (s.verified.countP fun e => e.1 = ip ∧ (s.window ip).2 ≤ e.2) ≤ _
    omega
  · rw [hclock] at hlast ⊢
    refine ⟨(s.window ip).1 + 1, ?_⟩
    rw [hcurrent]
    rcases hbegan start hstart with hstart | ⟨rfl, hnone⟩
    · obtain ⟨fails, hentry⟩ := h.lasting start hstart hlast
      rw [window, RateLimiter.window_of_current hentry]
    · rw [window, RateLimiter.window_of_none hnone]
  · rw [verifiedIn, hverified]
    rcases hbegan start hstart with hstart | ⟨rfl, _⟩
    · exact h.limited start hstart
    · have hwindow : 0 < loginWindow := by decide
      omega

theorem Inv.record (h : Inv ip s) (i : Nat) : Inv ip (s.record i) := by
  unfold Panel.record
  split
  · rename_i ip' hr
    by_cases hother : ip' = ip
    · subst hother
      exact absurd rfl (h.wrong _ (List.mem_of_getElem? hr) rfl)
    · exact h.other hr hother rfl rfl (RateLimiter.current_clearRate (Ne.symm hother)) (Or.inl rfl)
        (Or.inl rfl)
  · rename_i ip' hr
    by_cases hother : ip' = ip
    · subst hother
      exact h.failed hr rfl rfl rfl rfl rfl
    · refine h.other hr hother rfl rfl ?_ (Or.inl rfl) ?_
      · rw [RateLimiter.current_recordFail, if_neg (Ne.symm hother)]
      · dsimp only
        split
        · exact Or.inr rfl
        · exact Or.inl rfl
  · exact h

theorem Inv.step (h : Inv ip s) {e : Event} (hwrong : Wrong ip s e) (hroom : Room ip s e) :
    Inv ip (s.step e) := by
  cases e with
  | arrives peerIp =>
    refine h.frame rfl (fun r hr => ?_) h.past rfl ?_ ?_ (fun _ => rfl) fun _ hstart => hstart
    · rcases List.mem_append.mp hr with hr | hr
      · exact h.wrong r hr
      · rw [List.mem_singleton.mp hr]
        simp
    · simp [inFlight, Panel.step]
    · simp [unrecorded, Panel.step]
  | checks i after => exact (h.wait after).check hroom
  | verifies i right after => exact (h.wait after).verify hwrong
  | records i after => exact (h.wait after).record i

theorem Inv.guessesLimited (h : Inv ip s) : GuessesLimited ip s where
  counted := h.limited
  locked fails start hentry hlimit e he := by
    cases e with
    | verifies i right after =>
      have hmem : s.logins[i]? = some ⟨ip, .passed⟩ := he
      have hpos : 0 < s.inFlight ip :=
        List.countP_pos_iff.mpr ⟨_, List.mem_of_getElem? hmem, by simp⟩
      by_contra hlast
      have htime : s.clock + after < start + loginWindow := Nat.lt_of_not_le hlast
      have hwindow : 0 < loginWindow := by decide
      have hcurrent : s.rate.current ip s.clock = some (fails, start) :=
        RateLimiter.current_eq_some_iff.mpr ⟨hentry, by show _ - start < _; omega⟩
      have hroom := h.room
      rw [window, RateLimiter.window_of_current hcurrent] at hroom
      have hlimit := UInt32.le_iff_toNat_le.mp hlimit
      dsimp only at hroom
      omega
    | arrives => exact he.elim
    | checks => exact he.elim
    | records => exact he.elim

/-- **Guesses are limited** in the runs without a right password whose checks let no more requests
in than the failures leave room for. -/
theorem guesses_limited (ip : IpAddr) (events : List Event)
    (hwrong : Along step (Wrong ip) new events) (hroom : Along step (Room ip) new events) :
    Always step (GuessesLimited ip) new events := by
  have hinv : Always step (Inv ip) new events :=
    Along.always (fun s e h hstep => h.step hstep.1 hstep.2) inv_new (hwrong.and hroom)
  exact hinv.imp fun s h => h.guessesLimited

/-- Two requests, one after the other. -/
theorem guesses_limited_twice : Always step (GuessesLimited (.v4 1)) new
    [.arrives (.v4 1), .checks 0 3, .verifies 0 false 5, .records 0 0, .arrives (.v4 1),
      .checks 1 7, .verifies 1 false 1, .records 1 2] :=
  guesses_limited _ _ (by decide) (by decide)

/-- Seven requests pass the check at once; six passwords are verified after the first failure. -/
theorem guesses_not_limited : ¬ ∀ ip events, Along step (Wrong ip) new events →
    Always step (GuessesLimited ip) new events := by
  intro h
  have hlimited := (h (.v4 1)
    (List.replicate 7 (.arrives (.v4 1)) ++ (List.range 7).map (fun i => .checks i 0) ++
      [.verifies 0 false 1, .records 0 1] ++
      (List.range' 1 6).map fun i => .verifies i false 1) (by decide)).last
  exact absurd (hlimited.counted 2 (by decide)) (by decide)

end Panel

end CommandCenter.Daemon
