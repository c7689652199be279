import CommandCenter.Core.Channel
import CommandCenter.Library.Succession

/-!
# What one call does to a channel

Every fact about runs of a channel is derived from two normal forms proved here.

* `Channel.removeAt_spec`: the four things that can happen when a session is removed.
* `Channel.step_eq_after`: a call makes one change, `Channel.change`, which is decided
  from the state before it: a session enters, an heir is nominated, a session is removed,
  the ban list or the configuration is set, or nothing happens.

`Channel.seat` is the operator role of a channel as a `Library.Seat`, and `Channel.seat_step`
says that the channel refines it: a call does to the role what the event of its change does,
and that event is enabled.
-/

namespace CommandCenter.Core

open Rust Library

namespace Channel

/-- The account of every session, in join order. -/
def accounts (c : Channel) : List AccountId := c.members.map Member.account

/-- The case-folded display name of every session, in join order. -/
def names (c : Channel) : List Text := c.members.map fun m => m.name.toAsciiLowercase

/-- The operator role of the channel. -/
def seat (c : Channel) : Seat AccountId := ⟨c.accounts, c.operator, c.heirs⟩

@[simp] theorem seat_present (c : Channel) : c.seat.present = c.accounts := rfl
@[simp] theorem seat_holder (c : Channel) : c.seat.holder = c.operator := rfl
@[simp] theorem seat_heirs (c : Channel) : c.seat.heirs = c.heirs := rfl

@[simp] theorem length_accounts (c : Channel) : c.accounts.length = c.members.length := by
  simp [accounts]

theorem getElem?_accounts (c : Channel) (idx : Fin c.members.length) :
    c.accounts[idx.val]? = some (c.accountAt idx) := by
  simp [accounts, accountAt]

theorem mem_accounts {c : Channel} {a : AccountId} :
    a ∈ c.accounts ↔ ∃ m ∈ c.members, m.account = a := by
  simp [accounts]

theorem mem_names {c : Channel} {name : Text} :
    name.toAsciiLowercase ∈ c.names ↔
      ∃ m ∈ c.members, m.name.eqIgnoreAsciiCase name = true := by
  simp [names, Text.eqIgnoreAsciiCase_iff]

/-! ## Positions -/

theorem positionByAccount_isSome (c : Channel) (a : AccountId) :
    (c.positionByAccount a).isSome = decide (a ∈ c.accounts) := by
  rw [positionByAccount, List.isSome_findFinIdx?, Bool.eq_iff_iff]
  simp [mem_accounts]

theorem positionByAccount_isNone (c : Channel) (a : AccountId) :
    (c.positionByAccount a).isNone = decide (a ∉ c.accounts) := by
  rw [← Option.not_isSome, positionByAccount_isSome, decide_not]

theorem positionByAccount_spec {c : Channel} {a : AccountId} {idx : Fin c.members.length}
    (h : c.positionByAccount a = some idx) : c.accountAt idx = a := by
  simpa [accountAt] using (List.findFinIdx?_eq_some_iff.mp h).1

theorem positionByName_isSome (c : Channel) (name : Text) :
    (c.positionByName name).isSome = decide (name.toAsciiLowercase ∈ c.names) := by
  rw [positionByName, List.isSome_findFinIdx?, Bool.eq_iff_iff]
  simp [mem_names]

theorem grantsOperator_iff {c : Channel} {name : Text} : c.grantsOperator name = true ↔
    c.operator = none ∧ (c.opGrant = .firstArrival ∧ c.members = [] ∨
      ∃ opName, c.opGrant = .nameMatch opName ∧
        (baseName name).eqIgnoreAsciiCase opName = true) := by
  unfold grantsOperator
  cases c.opGrant <;> simp

/-! ## Removing a session -/

theorem notMem_eraseIdx_iff {l : List AccountId} {i : Nat} {a : AccountId}
    (ha : l[i]? = some a) : a ∉ l.eraseIdx i ↔ l.count a ≤ 1 := by
  obtain ⟨hi, rfl⟩ := List.getElem?_eq_some_iff.mp ha
  have hcount := (List.getElem_cons_eraseIdx_perm hi).count_eq l[i]
  rw [List.count_cons_self] at hcount
  rw [← List.count_eq_zero]
  omega

@[simp] theorem accounts_without (c : Channel) (idx : Fin c.members.length) :
    (c.without idx).accounts = c.accounts.eraseIdx idx := by
  simp [without, accounts, bump, List.eraseIdx_map]

/-- What removing the session at `idx` does, by what remains of its account and by whether
the account is operator. -/
inductive Removal (c : Channel) (idx : Fin c.members.length) : Channel → Prop
  | remains (h : c.accountAt idx ∈ c.accounts.eraseIdx idx) : Removal c idx (c.without idx)
  | left (h : c.accountAt idx ∉ c.accounts.eraseIdx idx)
      (hne : c.operator ≠ some (c.accountAt idx)) :
      Removal c idx ((c.without idx).disinherit (c.accountAt idx))
  | vacated (h : c.accountAt idx ∉ c.accounts.eraseIdx idx)
      (hheld : c.operator = some (c.accountAt idx))
      (hnone : (c.heirs.filter (· ≠ c.accountAt idx)).find?
        (· ∈ c.accounts.eraseIdx idx) = none) :
      Removal c idx { (c.without idx).disinherit (c.accountAt idx) with operator := none }
  | inherited (b : AccountId) (h : c.accountAt idx ∉ c.accounts.eraseIdx idx)
      (hheld : c.operator = some (c.accountAt idx))
      (hfirst : (c.heirs.filter (· ≠ c.accountAt idx)).find?
        (· ∈ c.accounts.eraseIdx idx) = some b) :
      Removal c idx
        (promote { (c.without idx).disinherit (c.accountAt idx) with operator := none } b)

theorem handOver_none {c : Channel} {out : LeaveOutcome}
    (h : c.heirs.find? (· ∈ c.accounts) = none) : (c.handOver out).2 = c := by
  simp only [handOver, positionByAccount_isSome, h]

theorem handOver_some {c : Channel} {out : LeaveOutcome} {b : AccountId}
    (h : c.heirs.find? (· ∈ c.accounts) = some b) : (c.handOver out).2 = c.promote b := by
  simp only [handOver, positionByAccount_isSome, h]

theorem removeAt_spec (c : Channel) (idx : Fin c.members.length) :
    Removal c idx (c.removeAt idx).2 := by
  have hgone : ((c.without idx).positionByAccount (c.accountAt idx)).isNone =
      decide (c.accountAt idx ∉ c.accounts.eraseIdx idx) := by
    rw [positionByAccount_isNone, accounts_without]
  by_cases h : c.accountAt idx ∈ c.accounts.eraseIdx idx
  · have he : (c.removeAt idx).2 = c.without idx := by
      rw [decide_eq_false (not_not.mpr h)] at hgone
      simp [removeAt, hgone]
    exact he ▸ .remains h
  · rw [decide_eq_true h] at hgone
    have hop : ((c.without idx).disinherit (c.accountAt idx)).operator = c.operator := rfl
    by_cases hheld : c.operator = some (c.accountAt idx)
    · have he : c.removeAt idx =
          { (c.without idx).disinherit (c.accountAt idx) with operator := none }.handOver
            ((c.without idx).disinherit (c.accountAt idx)).departure := by
        simp only [removeAt, hgone, hop, hheld, ↓reduceIte, beq_self_eq_true, Bool.and_self]
      rw [he]
      have hacc : Channel.accounts
          { (c.without idx).disinherit (c.accountAt idx) with operator := none } =
            c.accounts.eraseIdx idx := accounts_without c idx
      cases hfirst : (c.heirs.filter (· ≠ c.accountAt idx)).find?
          (· ∈ c.accounts.eraseIdx idx) with
      | none =>
        rw [handOver_none (by rw [hacc]; exact hfirst)]
        exact .vacated h hheld hfirst
      | some b =>
        rw [handOver_some (by rw [hacc]; exact hfirst)]
        exact .inherited b h hheld hfirst
    · have he : (c.removeAt idx).2 = (c.without idx).disinherit (c.accountAt idx) := by
        simp [removeAt, hgone, hop, hheld]
      exact he ▸ .left h hheld

theorem map_modify {α β : Type*} {f : α → β} {g : α → α} (hfg : ∀ x, f (g x) = f x) (l : List α)
    (i : Nat) : (l.modify i g).map f = l.map f := by
  refine List.ext_getElem? fun j => ?_
  simp only [List.getElem?_map, List.getElem?_modify]
  split
  · cases l[j]? <;> simp [hfg]
  · simp

theorem map_members_promote {α : Type*} {f : Member → α} (hf : ∀ m, f m.flagged = f m)
    (c : Channel) (b : AccountId) : (c.promote b).members.map f = c.members.map f := by
  unfold promote
  cases c.positionByAccount b with
  | none => rfl
  | some pos => exact map_modify hf _ _

theorem map_members_removeAt {α : Type*} {f : Member → α} (hf : ∀ m, f m.flagged = f m)
    (c : Channel) (idx : Fin c.members.length) :
    (c.removeAt idx).2.members.map f = (c.members.map f).eraseIdx idx := by
  have hwithout : (c.without idx).members.map f = (c.members.map f).eraseIdx idx := by
    simp [without, bump, List.eraseIdx_map]
  have h := c.removeAt_spec idx
  generalize (c.removeAt idx).2 = c' at h
  cases h with
  | remains _ => exact hwithout
  | left _ _ => exact hwithout
  | vacated _ _ _ => exact hwithout
  | inherited b _ _ _ => exact (map_members_promote hf _ b).trans hwithout

@[simp] theorem accounts_promote (c : Channel) (b : AccountId) :
    (c.promote b).accounts = c.accounts := map_members_promote (fun _ => rfl) c b

theorem removeAt_names (c : Channel) (idx : Fin c.members.length) :
    (c.removeAt idx).2.names = c.names.eraseIdx idx :=
  map_members_removeAt (f := fun m => m.name.toAsciiLowercase) (fun _ => rfl) c idx

theorem removeAt_accounts (c : Channel) (idx : Fin c.members.length) :
    (c.removeAt idx).2.accounts = c.accounts.eraseIdx idx :=
  map_members_removeAt (fun _ => rfl) c idx

theorem removeAt_frame (c : Channel) (idx : Fin c.members.length) :
    (c.removeAt idx).2.bans = c.bans ∧ (c.removeAt idx).2.seq = c.seq + 1 ∧
      (c.removeAt idx).2.maxUsers = c.maxUsers ∧ (c.removeAt idx).2.opGrant = c.opGrant := by
  have h := c.removeAt_spec idx
  generalize (c.removeAt idx).2 = c' at h
  cases h <;> exact ⟨rfl, rfl, rfl, rfl⟩

theorem removeAt_seat (c : Channel) (idx : Fin c.members.length) :
    (c.removeAt idx).2.seat = c.seat.depart idx := by
  have hd : Seat.Departed c.seat idx (c.accountAt idx) (c.removeAt idx).2.seat := by
    have h := c.removeAt_spec idx
    generalize (c.removeAt idx).2 = c' at h
    unfold seat
    cases h with
    | remains h =>
      rw [accounts_without]
      exact .remains h
    | left h hne => exact accounts_without c idx ▸ .left h hne
    | vacated h hheld hnone => exact accounts_without c idx ▸ .vacated h hheld hnone
    | inherited b h hheld hfirst =>
      rw [accounts_promote]
      exact accounts_without c idx ▸ .inherited b h hheld hfirst
  exact (hd.eq (c.getElem?_accounts idx)).symm

/-! ## The change a call makes -/

/-- The ways in which a call changes a channel of `n` sessions. -/
inductive Change (n : Nat) where
  | nothing
  | enter (account : AccountId) (name : Text) (baseFlags : UInt32) (statstring : List UInt8)
  | nominate (heir : AccountId)
  | remove (idx : Fin n) (bans : Finset AccountId)
  | setBans (bans : Finset AccountId)
  | configure (opGrant : OpGrant) (persist : Bool)

/-- The operator may act on `target`. -/
def mayTarget (c : Channel) (actor target : AccountId) : Prop :=
  c.operator = some actor ∧ actor ≠ target

instance (c : Channel) (actor target : AccountId) : Decidable (c.mayTarget actor target) :=
  inferInstanceAs (Decidable (_ ∧ _))

/-- The session that `actor` may act on under `name`, if there is one. -/
def targetByName (c : Channel) (actor : AccountId) (name : Text) : Option (Fin c.members.length) :=
  (c.positionByName name).filter fun idx => c.mayTarget actor (c.accountAt idx)

/-- The change a call makes, decided from the state before it. -/
def change (c : Channel) : Op → Change c.members.length
  | .join account name baseFlags statstring =>
    if c.joinDenial account name = none then .enter account name baseFlags statstring
    else .nothing
  | .leave name =>
    match c.positionByName name with
    | some idx => .remove idx c.bans
    | none => .nothing
  | .designate actor heir =>
    if c.mayTarget actor heir ∧ heir ∈ c.accounts then .nominate heir else .nothing
  | .designateByName actor name =>
    match c.targetByName actor name with
    | some idx => if c.accountAt idx ∈ c.heirs then .nothing else .nominate (c.accountAt idx)
    | none => .nothing
  | .kick actor target =>
    if c.mayTarget actor target then
      match c.positionByAccount target with
      | some idx => .remove idx c.bans
      | none => .nothing
    else .nothing
  | .kickByName actor name =>
    match c.targetByName actor name with
    | some idx => .remove idx c.bans
    | none => .nothing
  | .ban actor target =>
    if c.mayTarget actor target then
      match c.positionByAccount target with
      | some idx => .remove idx (insert target c.bans)
      | none => .setBans (insert target c.bans)
    else .nothing
  | .banByName actor name =>
    match c.targetByName actor name with
    | some idx => .remove idx (insert (c.accountAt idx) c.bans)
    | none => .nothing
  | .unban actor target =>
    if c.operator = some actor then .setBans (c.bans.erase target) else .nothing
  | .setOpGrant opGrant => .configure opGrant c.persist
  | .setPersist persist => .configure c.opGrant persist

def after (c : Channel) : Change c.members.length → Channel
  | .nothing => c
  | .enter account name baseFlags statstring => c.enter account name baseFlags statstring
  | .nominate heir => bump { c with heirs := c.heirs.filter (· ≠ heir) ++ [heir] }
  | .remove idx bans => (removeAt { c with bans } idx).2
  | .setBans bans => { c with bans }
  | .configure opGrant persist => { c with opGrant, persist }

/-- A call is refused and changes nothing, or it returns and makes its change. -/
def Settles (c : Channel) (op : Op) : Prop :=
  (∃ e, c.exec op = (.error e, c) ∧ c.change op = .nothing) ∨
    ∃ r, c.exec op = (.ok r, c.after (c.change op))

@[simp] theorem report_error {ε α : Type} (f : ε → Refusal) (g : α → Returned) (e : ε)
    (c : Channel) : report f g (.error e, c) = (.error (f e), c) := rfl

@[simp] theorem report_ok {ε α : Type} (f : ε → Refusal) (g : α → Returned) (a : α)
    (c : Channel) : report f g (.ok a, c) = (.ok (g a), c) := rfl

@[simp] theorem report_succeed {ε α : Type} (f : ε → Refusal) (g : α → Returned)
    (r : α × Channel) : report f g (succeed r) = (.ok (g r.1), r.2) := rfl

theorem settles_join (c : Channel) (account : AccountId) (name : Text) (baseFlags : UInt32)
    (statstring : List UInt8) : c.Settles (.join account name baseFlags statstring) := by
  cases h : c.joinDenial account name <;> simp [Settles, exec, join, change, after, h]

theorem settles_leave (c : Channel) (name : Text) : c.Settles (.leave name) := by
  cases h : c.positionByName name <;> simp [Settles, exec, leave, change, after, h]

theorem settles_designate (c : Channel) (actor heir : AccountId) :
    c.Settles (.designate actor heir) := by
  by_cases hop : c.operator = some actor
  · by_cases hne : actor = heir
    · simp [Settles, exec, designate, isOperator, change, mayTarget, hop, hne]
    · by_cases hp : heir ∈ c.accounts <;>
        simp [Settles, exec, designate, isOperator, change, mayTarget, after, hop, hne,
          positionByAccount_isNone, hp]
  · simp [Settles, exec, designate, isOperator, change, mayTarget, hop]

theorem settles_kick (c : Channel) (actor target : AccountId) :
    c.Settles (.kick actor target) := by
  by_cases hop : c.operator = some actor
  · by_cases hne : actor = target
    · simp [Settles, exec, kick, isOperator, change, mayTarget, hop, hne]
    · cases hp : c.positionByAccount target <;>
        simp [Settles, exec, kick, isOperator, change, mayTarget, after, leaveAccount, hop, hne,
          hp]
  · simp [Settles, exec, kick, isOperator, change, mayTarget, hop]

theorem settles_ban (c : Channel) (actor target : AccountId) : c.Settles (.ban actor target) := by
  by_cases hop : c.operator = some actor
  · by_cases hne : actor = target
    · simp [Settles, exec, ban, isOperator, change, mayTarget, hop, hne]
    · have hpos : positionByAccount { c with bans := insert target c.bans } target =
          c.positionByAccount target := rfl
      cases hp : c.positionByAccount target <;>
        simp [Settles, exec, ban, isOperator, change, mayTarget, after, leaveAccount, hop, hne,
          hpos, hp]
  · simp [Settles, exec, ban, isOperator, change, mayTarget, hop]

theorem settles_unban (c : Channel) (actor target : AccountId) :
    c.Settles (.unban actor target) := by
  by_cases hop : c.operator = some actor <;>
    simp [Settles, exec, unban, isOperator, change, after, hop]

theorem targetByName_refused {c : Channel} {actor : AccountId} (hop : c.operator ≠ some actor)
    (name : Text) : c.targetByName actor name = none := by
  cases h : c.positionByName name <;> simp [targetByName, h, mayTarget, hop, Option.filter]

/-- The three outcomes when the operator looks up the target of an action by display name. -/
theorem targetByName_cases {c : Channel} {actor : AccountId} (hop : c.operator = some actor)
    (name : Text) :
    c.positionByName name = none ∧ c.targetByName actor name = none ∨
      ∃ idx, c.positionByName name = some idx ∧
        (c.accountAt idx = actor ∧ c.targetByName actor name = none ∨
          c.accountAt idx ≠ actor ∧ c.targetByName actor name = some idx) := by
  cases h : c.positionByName name with
  | none => simp [targetByName, h]
  | some idx =>
    refine Or.inr ⟨idx, rfl, ?_⟩
    by_cases hself : c.accountAt idx = actor
    · exact Or.inl ⟨hself, by simp [targetByName, h, mayTarget, hself, Option.filter]⟩
    · exact Or.inr ⟨hself, by
        simp [targetByName, h, mayTarget, Ne.symm hself, hop, Option.filter]⟩

theorem settles_kickByName (c : Channel) (actor : AccountId) (name : Text) :
    c.Settles (.kickByName actor name) := by
  by_cases hop : c.operator = some actor
  · rcases targetByName_cases hop name with ⟨hp, ht⟩ | ⟨idx, hp, ⟨hself, ht⟩ | ⟨hself, ht⟩⟩ <;>
      simp [Settles, exec, kickByName, isOperator, change, after, *]
  · simp [Settles, exec, kickByName, isOperator, change, hop, targetByName_refused hop]

theorem settles_banByName (c : Channel) (actor : AccountId) (name : Text) :
    c.Settles (.banByName actor name) := by
  by_cases hop : c.operator = some actor
  · rcases targetByName_cases hop name with ⟨hp, ht⟩ | ⟨idx, hp, ⟨hself, ht⟩ | ⟨hself, ht⟩⟩ <;>
      simp [Settles, exec, banByName, isOperator, change, after, *]
  · simp [Settles, exec, banByName, isOperator, change, hop, targetByName_refused hop]

theorem settles_designateByName (c : Channel) (actor : AccountId) (name : Text) :
    c.Settles (.designateByName actor name) := by
  by_cases hop : c.operator = some actor
  · rcases targetByName_cases hop name with ⟨hp, ht⟩ | ⟨idx, hp, ⟨hself, ht⟩ | ⟨hself, ht⟩⟩
    · simp [Settles, exec, designateByName, isOperator, change, hop, hp, ht]
    · simp [Settles, exec, designateByName, isOperator, change, hop, hp, ht, hself]
    · by_cases hheir : c.accountAt idx ∈ c.heirs
      · simp [Settles, exec, designateByName, isOperator, change, after, hop, hp, ht, hself, hheir]
      · have hfresh : c.heirs.filter (fun x => !decide (x = c.accountAt idx)) = c.heirs := by
          apply List.filter_eq_self.mpr
          intro x hx
          simpa using fun he : x = c.accountAt idx => hheir (he ▸ hx)
        simp [Settles, exec, designateByName, isOperator, change, after, hop, hp, ht, hself, hheir,
          hfresh]
  · simp [Settles, exec, designateByName, isOperator, change, hop, targetByName_refused hop]

theorem settles (c : Channel) (op : Op) : c.Settles op := by
  cases op with
  | join account name baseFlags statstring => exact c.settles_join account name baseFlags statstring
  | leave name => exact c.settles_leave name
  | designate actor heir => exact c.settles_designate actor heir
  | designateByName actor name => exact c.settles_designateByName actor name
  | kick actor target => exact c.settles_kick actor target
  | kickByName actor name => exact c.settles_kickByName actor name
  | ban actor target => exact c.settles_ban actor target
  | banByName actor name => exact c.settles_banByName actor name
  | unban actor target => exact c.settles_unban actor target
  | setOpGrant opGrant => exact Or.inr ⟨_, rfl⟩
  | setPersist persist => exact Or.inr ⟨_, rfl⟩

theorem step_eq_after (c : Channel) (op : Op) : c.step op = c.after (c.change op) := by
  rcases c.settles op with ⟨e, he, hnothing⟩ | ⟨r, hr⟩
  · rw [step, he, hnothing]
    rfl
  · rw [step, hr]

theorem opGrant_step_of_ne (c : Channel) {op : Op} (hop : ∀ opGrant, op ≠ .setOpGrant opGrant) :
    (c.step op).opGrant = c.opGrant := by
  rw [step_eq_after]
  cases hchange : c.change op with
  | nothing | nominate _ | setBans _ => rfl
  | enter account name baseFlags statstring => rfl
  | remove idx bans => exact (removeAt_frame { c with bans } idx).2.2.2
  | configure opGrant persist =>
    cases op with
    | setOpGrant opGrant' => exact absurd rfl (hop opGrant')
    | setPersist persist' =>
      cases hchange
      rfl
    | _ =>
      simp only [change] at hchange
      repeat' split at hchange
      all_goals cases hchange

/-! ## The operator role -/

/-- The event of the operator role that a change amounts to. -/
def event (c : Channel) : Change c.members.length → Option (Seat.Event AccountId)
  | .enter account name _ _ => some (.enter account (c.grantsOperator name))
  | .nominate heir => some (.nominate heir)
  | .remove idx _ => some (.depart idx)
  | .nothing | .setBans _ | .configure _ _ => none

theorem enter_seat (c : Channel) (account : AccountId) (name : Text) (baseFlags : UInt32)
    (statstring : List UInt8) : (c.enter account name baseFlags statstring).seat =
      c.seat.apply (.enter account (c.grantsOperator name)) := by
  simp [enter, bump, seat, accounts, Seat.apply]

/-- A call does to the operator role what its event does, or leaves it alone. -/
theorem seat_step (c : Channel) (op : Op) :
    (c.step op).seat = ((c.event (c.change op)).map c.seat.apply).getD c.seat := by
  rw [step_eq_after]
  cases c.change op with
  | nothing => rfl
  | enter account name baseFlags statstring => exact c.enter_seat account name baseFlags statstring
  | nominate heir => rfl
  | remove idx bans => exact removeAt_seat { c with bans } idx
  | setBans bans => rfl
  | configure opGrant persist => rfl

theorem accountAt_mem (c : Channel) (idx : Fin c.members.length) :
    c.accountAt idx ∈ c.accounts := List.mem_of_getElem? (c.getElem?_accounts idx)

theorem targetByName_spec {c : Channel} {actor : AccountId} {name : Text}
    {idx : Fin c.members.length} (h : c.targetByName actor name = some idx) :
    c.positionByName name = some idx ∧ c.mayTarget actor (c.accountAt idx) := by
  simpa [targetByName, Option.filter_eq_some_iff] using h

/-- A call by the operator that nominates `heir`, by account or by display name. -/
def Nominates (c : Channel) (op : Op) (heir : AccountId) : Prop :=
  ∃ actor, c.mayTarget actor heir ∧
    (op = .designate actor heir ∨ ∃ name idx, op = .designateByName actor name ∧
      c.positionByName name = some idx ∧ c.accountAt idx = heir)

theorem change_nominate {c : Channel} {op : Op} {heir : AccountId}
    (h : c.change op = .nominate heir) : c.Nominates op heir ∧ heir ∈ c.accounts := by
  cases op with
  | designate actor x =>
    simp only [change] at h
    split at h
    · rename_i hx
      cases h
      exact ⟨⟨actor, hx.1, Or.inl rfl⟩, hx.2⟩
    · cases h
  | designateByName actor name =>
    simp only [change] at h
    split at h
    · rename_i idx ht
      obtain ⟨hp, hmay⟩ := targetByName_spec ht
      split at h
      · cases h
      · cases h
        exact ⟨⟨actor, hmay, Or.inr ⟨name, idx, rfl, hp, rfl⟩⟩, c.accountAt_mem idx⟩
    · cases h
  | join | leave | kick | kickByName | ban | banByName | unban =>
    simp only [change] at h
    split at h <;> try split at h
    all_goals cases h
  | setOpGrant | setPersist => cases h

theorem event_enabled {c : Channel} {op : Op} {e : Seat.Event AccountId}
    (h : c.event (c.change op) = some e) : c.seat.Enabled e := by
  cases hc : c.change op with
  | nothing | setBans | configure =>
    rw [hc] at h
    cases h
  | enter account name baseFlags statstring =>
    rw [hc] at h
    cases h
    intro hgrant
    simp only [grantsOperator, Bool.and_eq_true, Option.isNone_iff_eq_none] at hgrant
    exact hgrant.1
  | nominate heir =>
    rw [hc] at h
    cases h
    obtain ⟨⟨actor, hmay, _⟩, hmem⟩ := change_nominate hc
    exact ⟨hmem, actor, hmay⟩
  | remove idx bans =>
    rw [hc] at h
    cases h
    change idx.val < c.accounts.length
    rw [length_accounts]
    exact idx.isLt

/-- A call leaves the operator role alone or makes one enabled event happen to it. -/
theorem seat_step_cases (c : Channel) (op : Op) : (c.step op).seat = c.seat ∨
    ∃ e, c.event (c.change op) = some e ∧ c.seat.Enabled e ∧
      (c.step op).seat = c.seat.apply e := by
  rw [seat_step]
  cases he : c.event (c.change op) with
  | none => exact Or.inl rfl
  | some e => exact Or.inr ⟨e, rfl, event_enabled he, rfl⟩

/-! ## The parts of a channel after a call -/

theorem accounts_step (c : Channel) (op : Op) : (c.step op).accounts =
    match c.change op with
    | .enter account _ _ _ => c.accounts ++ [account]
    | .remove idx _ => c.accounts.eraseIdx idx
    | _ => c.accounts := by
  rw [step_eq_after]
  cases c.change op with
  | enter account name baseFlags statstring => simp [after, enter, bump, accounts]
  | remove idx bans => exact removeAt_accounts { c with bans } idx
  | nothing | nominate | setBans | configure => rfl

theorem names_step (c : Channel) (op : Op) : (c.step op).names =
    match c.change op with
    | .enter _ name _ _ => c.names ++ [name.toAsciiLowercase]
    | .remove idx _ => c.names.eraseIdx idx
    | _ => c.names := by
  rw [step_eq_after]
  cases c.change op with
  | enter account name baseFlags statstring => simp [after, enter, bump, names]
  | remove idx bans => exact removeAt_names { c with bans } idx
  | nothing | nominate | setBans | configure => rfl

theorem maxUsers_step (c : Channel) (op : Op) : (c.step op).maxUsers = c.maxUsers := by
  rw [step_eq_after]
  cases c.change op with
  | remove idx bans => exact (removeAt_frame { c with bans } idx).2.2.1
  | enter | nothing | nominate | setBans | configure => rfl

@[simp] theorem length_names (c : Channel) : c.names.length = c.members.length := by
  simp [names]

theorem bans_step (c : Channel) (op : Op) : (c.step op).bans =
    match c.change op with
    | .remove _ bans | .setBans bans => bans
    | _ => c.bans := by
  rw [step_eq_after]
  cases c.change op with
  | remove idx bans => exact (removeAt_frame { c with bans } idx).1
  | enter | nothing | nominate | setBans | configure => rfl

/-- A session is removed because it leaves, or because the operator kicks or bans it. -/
theorem change_remove {c : Channel} {op : Op} {idx : Fin c.members.length}
    {bans : Finset AccountId} (h : c.change op = .remove idx bans) :
    (∃ name, op = .leave name ∧ c.positionByName name = some idx ∧ bans = c.bans) ∨
      ∃ actor, c.mayTarget actor (c.accountAt idx) ∧
        (bans = c.bans ∨ bans = insert (c.accountAt idx) c.bans ∧
          (op = .ban actor (c.accountAt idx) ∨
            ∃ name, op = .banByName actor name ∧ c.positionByName name = some idx)) := by
  cases op with
  | leave name =>
    simp only [change] at h
    split at h <;> cases h
    rename_i hp
    exact Or.inl ⟨name, rfl, hp, rfl⟩
  | kick actor target =>
    simp only [change] at h
    split at h <;> try split at h
    all_goals cases h
    rename_i hmay _ hp
    obtain rfl : c.accountAt idx = target := positionByAccount_spec hp
    exact Or.inr ⟨actor, hmay, Or.inl rfl⟩
  | ban actor target =>
    simp only [change] at h
    split at h <;> try split at h
    all_goals cases h
    rename_i hmay _ hp
    obtain rfl : c.accountAt idx = target := positionByAccount_spec hp
    exact Or.inr ⟨actor, hmay, Or.inr ⟨rfl, Or.inl rfl⟩⟩
  | kickByName actor name =>
    simp only [change] at h
    split at h <;> cases h
    rename_i ht
    exact Or.inr ⟨actor, (targetByName_spec ht).2, Or.inl rfl⟩
  | banByName actor name =>
    simp only [change] at h
    split at h <;> cases h
    rename_i ht
    obtain ⟨hp, hmay⟩ := targetByName_spec ht
    exact Or.inr ⟨actor, hmay, Or.inr ⟨rfl, Or.inr ⟨name, rfl, hp⟩⟩⟩
  | join | designate | designateByName | unban =>
    simp only [change] at h
    split at h <;> try split at h
    all_goals cases h
  | setOpGrant | setPersist => cases h

theorem change_setBans {c : Channel} {op : Op} {bans : Finset AccountId}
    (h : c.change op = .setBans bans) :
    (∃ actor target, op = .ban actor target ∧ c.mayTarget actor target ∧
        target ∉ c.accounts ∧ bans = insert target c.bans) ∨
      ∃ actor target, op = .unban actor target ∧ c.operator = some actor ∧
        bans = c.bans.erase target := by
  cases op with
  | ban actor target =>
    simp only [change] at h
    split at h <;> try split at h
    all_goals cases h
    rename_i hmay _ hp
    have habsent := positionByAccount_isNone c target
    rw [hp] at habsent
    exact Or.inl ⟨actor, target, rfl, hmay, by simpa using habsent, rfl⟩
  | unban actor target =>
    simp only [change] at h
    split at h <;> cases h
    rename_i hop
    exact Or.inr ⟨actor, target, rfl, hop, rfl⟩
  | join | leave | designate | designateByName | kick | kickByName | banByName =>
    simp only [change] at h
    split at h <;> try split at h
    all_goals cases h
  | setOpGrant | setPersist => cases h

end Channel

end CommandCenter.Core
