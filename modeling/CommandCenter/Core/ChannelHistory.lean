import CommandCenter.Core.ChannelInvariant

/-!
# The operator role over the history of a channel

The role never drifts. `Channel.operator_changed` gives the only two ways in which a call
changes the operator, and `Channel.heir_cause` traces every heir back to the call of the
then operator that nominated it, since which the heir has not been absent.
`Channel.operator_never_drifts` puts them together for every run of a new channel.
-/

namespace CommandCenter.Core

open Rust Library

namespace Channel

/-- The channel after the first `i` calls of a history. -/
def history (c : Channel) (ops : List Op) (i : Nat) : Channel := run step c (ops.take i)

theorem history_succ (c : Channel) {ops : List Op} {i : Nat} (hi : i < ops.length) :
    c.history ops (i + 1) = (c.history ops i).step ops[i] := run_take_succ c hi

theorem Invariant.history {c : Channel} (h : c.Invariant) (ops : List Op) (i : Nat) :
    (c.history ops i).Invariant := invariant_run h (ops.take i)

/-! ## How a call changes the operator -/

/-- A successful join of `b` that takes the vacant role: the first arrival in an empty
channel, or the account whose base name the channel grants operator to. -/
def Grants (c : Channel) (op : Op) (b : AccountId) : Prop :=
  c.operator = none ∧ (c.step op).operator = some b ∧
    ∃ name baseFlags statstring outcome,
      op = .join b name baseFlags statstring ∧ (c.exec op).1 = .ok (.joined outcome) ∧
        (c.opGrant = .firstArrival ∧ c.members = [] ∨
          ∃ opName, c.opGrant = .nameMatch opName ∧
            (baseName name).eqIgnoreAsciiCase opName = true)

/-- The last session of the operator `a` goes, and the head of the line of heirs, if there
is one, takes over. -/
def Succeeds (c : Channel) (op : Op) (a : AccountId) : Prop :=
  c.operator = some a ∧ (∃ m ∈ c.members, m.account = a) ∧
    (∀ m ∈ (c.step op).members, m.account ≠ a) ∧ (c.step op).operator = c.heirs.head?

theorem exec_enter {c : Channel} {account : AccountId} {name : Text} {baseFlags : UInt32}
    {statstring : List UInt8}
    (h : c.change (.join account name baseFlags statstring) =
      .enter account name baseFlags statstring) :
    ∃ outcome, (c.exec (.join account name baseFlags statstring)).1 = .ok (.joined outcome) := by
  have hd := (change_enter h).2
  exact ⟨_, by simp only [exec, join, hd, report_ok]; rfl⟩

theorem grants_of_enter {c : Channel} {op : Op} {b : AccountId} {name : Text}
    {baseFlags : UInt32} {statstring : List UInt8}
    (hc : c.change op = .enter b name baseFlags statstring)
    (hgrant : c.grantsOperator name = true) (hafter : (c.step op).operator = some b) :
    c.Grants op b := by
  obtain ⟨hnone, hpolicy⟩ := grantsOperator_iff.mp hgrant
  obtain ⟨rfl, _⟩ := change_enter hc
  obtain ⟨outcome, hout⟩ := exec_enter hc
  exact ⟨hnone, hafter, name, baseFlags, statstring, outcome, rfl, hout, hpolicy⟩

theorem operator_changed {c : Channel} (hc : c.Invariant) {op : Op}
    (hne : (c.step op).operator ≠ c.operator) :
    (∃ b, c.Grants op b) ∨ ∃ a, c.Succeeds op a := by
  rcases c.seat_step_cases op with hsame | ⟨e, he, henabled, hafter⟩
  · exact absurd (congrArg Seat.holder hsame) hne
  have hdiff : (c.seat.apply e).holder ≠ c.seat.holder := by
    rw [← hafter]
    exact hne
  rcases hc.seat.holder_change henabled hdiff with
    ⟨b, rfl, _, hb⟩ | ⟨a, i, rfl, ha, hheld, hgone, hheir⟩
  · refine Or.inl ⟨b, ?_⟩
    rw [← hafter] at hb
    cases hchange : c.change op with
    | enter account name baseFlags statstring =>
      rw [hchange] at he
      obtain ⟨rfl, hgrant⟩ : account = b ∧ c.grantsOperator name = true := by
        simpa [event] using he
      exact grants_of_enter hchange hgrant hb
    | nothing | nominate | remove | setBans | configure =>
      rw [hchange] at he
      cases he
  · rw [← hafter] at hgone hheir
    refine Or.inr ⟨a, hheld, mem_accounts.mp (List.mem_of_getElem? ha), ?_, hheir⟩
    intro m hm hma
    exact hgone (mem_accounts.mpr ⟨m, hm, hma⟩)

/-! ## Where heirs come from -/

theorem heirs_step {c : Channel} {op : Op} {h : AccountId} (hmem : h ∈ (c.step op).heirs) :
    h ∈ c.heirs ∨ (c.Nominates op h ∧ h ∈ c.accounts) := by
  rcases c.seat_step_cases op with hsame | ⟨e, he, _, hafter⟩
  · have hheirs : (c.step op).heirs = c.heirs := congrArg Seat.heirs hsame
    exact Or.inl (hheirs ▸ hmem)
  have hheirs : (c.step op).heirs = (c.seat.apply e).heirs := congrArg Seat.heirs hafter
  rcases Seat.mem_heirs_apply (hheirs ▸ hmem) with hold | rfl
  · exact Or.inl hold
  cases hchange : c.change op with
  | nominate heir =>
    rw [hchange] at he
    obtain rfl : heir = h := by simpa [event] using he
    exact Or.inr (change_nominate hchange)
  | nothing | enter | remove | setBans | configure =>
    rw [hchange] at he
    cases he

/-- Behind every heir stands a nomination by the operator of that moment, and the heir has
been in line, and in the channel, ever since. -/
theorem heir_cause {c : Channel} (hc : c.Invariant) (hempty : c.heirs = []) {ops : List Op}
    {i : Nat} (hi : i ≤ ops.length) {h : AccountId} (hmem : h ∈ (c.history ops i).heirs) :
    ∃ j, ∃ hj : j < i, (c.history ops j).Nominates (ops.get ⟨j, Nat.lt_of_lt_of_le hj hi⟩) h ∧
      ∀ k, j ≤ k → k ≤ i → ∃ m ∈ (c.history ops k).members, m.account = h := by
  have h0 : h ∉ c.heirs := by simp [hempty]
  obtain ⟨j, hj, ⟨hnom, hpresent⟩, hsince⟩ :=
    run_cause (P := fun c : Channel => h ∈ c.heirs)
      (C := fun (c : Channel) op => c.Nominates op h ∧ h ∈ c.accounts) (fun _ _ => heirs_step)
      h0 hi hmem
  refine ⟨j, hj, hnom, fun k hjk hki => ?_⟩
  rcases Nat.eq_or_lt_of_le hjk with rfl | hlt
  · exact mem_accounts.mp hpresent
  · exact (hc.history ops k).heirs_present h (hsince k hlt hki)

/-- A join into an occupied channel that grants its first arrival leaves the role alone. -/
theorem join_occupied {c : Channel} (hgrant : c.opGrant = .firstArrival)
    (hocc : c.members ≠ []) (account : AccountId) (name : Text) (baseFlags : UInt32)
    (statstring : List UInt8) :
    (c.step (.join account name baseFlags statstring)).operator = c.operator := by
  have hno : c.grantsOperator name = false := by
    simp [grantsOperator, hgrant, hocc]
  rw [step_eq_after]
  simp only [change]
  split
  · simp [after, enter, bump, hno]
  · rfl

/-- What the history of a channel says about its operator role. -/
structure OperatorHistory (c : Channel) (ops : List Op) : Prop where
  changes : ∀ i (hi : i < ops.length),
    (c.history ops (i + 1)).operator ≠ (c.history ops i).operator →
      (∃ b, (c.history ops i).Grants ops[i] b) ∨ ∃ a, (c.history ops i).Succeeds ops[i] a
  heirs : ∀ i (hi : i ≤ ops.length), ∀ h ∈ (c.history ops i).heirs,
    ∃ j, ∃ hj : j < i,
      (c.history ops j).Nominates (ops.get ⟨j, Nat.lt_of_lt_of_le hj hi⟩) h ∧
        ∀ k, j ≤ k → k ≤ i → ∃ m ∈ (c.history ops k).members, m.account = h
  rejoins : ∀ i account name baseFlags statstring,
    (c.history ops i).opGrant = .firstArrival → (c.history ops i).members ≠ [] →
      ((c.history ops i).step (.join account name baseFlags statstring)).operator =
        (c.history ops i).operator

/-- **The operator role never drifts.** In every history of a new channel each change of the
operator is a grant to somebody who joins or the succession of the head of the line of
heirs; every heir was nominated by the operator of that moment and has been present since;
and nobody gains the role by joining an occupied channel that grants its first arrival. -/
theorem operator_never_drifts (name : List UInt8) (display : Text)
    (channelClass : ChannelClass) (maxUsers : Nat) (ops : List Op) :
    (Channel.new name display channelClass maxUsers).OperatorHistory ops := by
  have hnew := invariant_new name display channelClass maxUsers
  constructor
  · intro i hi hne
    rw [history_succ _ hi] at hne
    exact operator_changed (hnew.history ops i) hne
  · intro i hi h hmem
    exact heir_cause hnew rfl hi hmem
  · intro i account joinName baseFlags statstring hgrant hocc
    exact join_occupied hgrant hocc account joinName baseFlags statstring

end Channel

/-!
## The sequence number of a channel

A federation orders the events of a channel by its sequence number, so a number must stand
for one state.

* `Channel.sequenced_iff`: the calls that change nothing when they fail and advance the
  number whenever they change the channel. A ban of an account that is not present, and the
  lifting of a ban, change the ban list under the old number.
* `Channel.sequence_orders_changes`: that, for every state and every call; and along a run
  without such calls the number determines the members, the operator role and the ban list.
* `Channel.silent_ban`: a ban under the old number.
-/

namespace Channel

/-- The two channels have the same members, operator, heirs and bans. -/
structure SameState (c c' : Channel) : Prop where
  members : c'.members = c.members
  operator : c'.operator = c.operator
  heirs : c'.heirs = c.heirs
  bans : c'.bans = c.bans

/-- A failed call leaves the channel as it was, a call that changes it advances the sequence
number, and no call takes the number back. -/
structure Sequenced (c : Channel) (op : Op) : Prop where
  atomic : ∀ e, (c.exec op).1 = .error e → c.step op = c
  advances : ¬ c.SameState (c.step op) → c.seq < (c.step op).seq
  monotone : c.seq ≤ (c.step op).seq

/-- The operator bans somebody who is not present and not yet banned, or lifts a ban. -/
def SilentBan (c : Channel) : Op → Prop
  | .ban actor target => c.mayTarget actor target ∧ target ∉ c.accounts ∧ target ∉ c.bans
  | .unban actor target => c.operator = some actor ∧ target ∈ c.bans
  | _ => False

/-- The call lets a session in, nominates an heir or removes a session. -/
def Bumps (c : Channel) : Op → Prop
  | .join account name _ _ => c.joinDenial account name = none
  | .leave name => (c.positionByName name).isSome
  | .designate actor heir => c.mayTarget actor heir ∧ heir ∈ c.accounts
  | .designateByName actor name =>
    ∃ idx, c.targetByName actor name = some idx ∧ c.accountAt idx ∉ c.heirs
  | .kick actor target | .ban actor target => c.mayTarget actor target ∧ target ∈ c.accounts
  | .kickByName actor name | .banByName actor name => (c.targetByName actor name).isSome
  | .unban _ _ | .setOpGrant _ | .setPersist _ => False

/-- The call neither changes the ban list alone nor advances the number past its range. -/
def SequenceSafe (c : Channel) (op : Op) : Prop :=
  ¬ c.SilentBan op ∧ (c.Bumps op → c.seq.toNat + 1 < 2 ^ 64)

/-! ## The change behind a call -/

/-- The changes that advance the sequence number. -/
def Change.bumps {n : Nat} : Change n → Bool
  | .enter _ _ _ _ | .nominate _ | .remove _ _ => true
  | .nothing | .setBans _ | .configure _ _ => false

theorem bumps_iff (c : Channel) (op : Op) : c.Bumps op ↔ (c.change op).bumps = true := by
  cases op with
  | join account name baseFlags statstring =>
    by_cases h : c.joinDenial account name = none <;> simp [Bumps, change, h, Change.bumps]
  | leave name => cases h : c.positionByName name <;> simp [Bumps, change, h, Change.bumps]
  | designate actor heir =>
    by_cases h : c.mayTarget actor heir ∧ heir ∈ c.accounts <;>
      simp [Bumps, change, h, Change.bumps]
  | designateByName actor name =>
    cases h : c.targetByName actor name with
    | none => simp [Bumps, change, h, Change.bumps]
    | some idx =>
      by_cases hheir : c.accountAt idx ∈ c.heirs <;>
        simp [Bumps, change, h, hheir, Change.bumps]
  | kick actor target | ban actor target =>
    have hp := c.positionByAccount_isSome target
    by_cases h : c.mayTarget actor target
    · cases hpos : c.positionByAccount target <;>
        simp [Bumps, change, h, hpos, Change.bumps] <;> simpa [hpos] using hp
    · simp [Bumps, change, h, Change.bumps]
  | kickByName actor name | banByName actor name =>
    cases h : c.targetByName actor name <;> simp [Bumps, change, h, Change.bumps]
  | unban actor target =>
    by_cases h : c.operator = some actor <;> simp [Bumps, change, h, Change.bumps]
  | setOpGrant | setPersist => simp [Bumps, change, Change.bumps]

theorem seq_step (c : Channel) (op : Op) :
    (c.step op).seq = if (c.change op).bumps then c.seq + 1 else c.seq := by
  rw [step_eq_after]
  cases c.change op with
  | remove idx bans => exact (removeAt_frame { c with bans } idx).2.1
  | enter | nothing | nominate | setBans | configure => rfl

theorem silentBan_iff (c : Channel) (op : Op) :
    c.SilentBan op ↔ ∃ bans, c.change op = .setBans bans ∧ bans ≠ c.bans := by
  constructor
  · intro h
    cases op with
    | ban actor target =>
      obtain ⟨hmay, habsent, hfree⟩ := h
      have hp : c.positionByAccount target = none := by
        have hnone := c.positionByAccount_isNone target
        rw [decide_eq_true habsent] at hnone
        exact Option.isNone_iff_eq_none.mp hnone
      refine ⟨insert target c.bans, by simp [change, hmay, hp], fun he => hfree ?_⟩
      exact he ▸ Finset.mem_insert_self target c.bans
    | unban actor target =>
      obtain ⟨hop, hbanned⟩ := h
      refine ⟨c.bans.erase target, by simp [change, hop], fun he => ?_⟩
      exact Finset.notMem_erase target c.bans (he.symm ▸ hbanned)
    | join | leave | designate | designateByName | kick | kickByName | banByName | setOpGrant
    | setPersist => cases h
  · rintro ⟨bans, hchange, hne⟩
    rcases change_setBans hchange with
      ⟨actor, target, rfl, hmay, habsent, rfl⟩ | ⟨actor, target, rfl, hop, rfl⟩
    · exact ⟨hmay, habsent, fun hmem => hne (Finset.insert_eq_of_mem hmem)⟩
    · refine ⟨hop, ?_⟩
      by_contra hfree
      exact hne (Finset.erase_eq_of_notMem hfree)

/-! ## One call -/

theorem lt_succ_iff (n : UInt64) : n < n + 1 ↔ n.toNat + 1 < 2 ^ 64 := by
  have hn := n.toNat_lt
  rw [UInt64.lt_iff_toNat_lt, UInt64.toNat_add]
  change n.toNat < (n.toNat + 1) % 2 ^ 64 ↔ _
  omega

theorem le_succ_iff (n : UInt64) : n ≤ n + 1 ↔ n.toNat + 1 < 2 ^ 64 := by
  have hn := n.toNat_lt
  rw [UInt64.le_iff_toNat_le, UInt64.toNat_add]
  change n.toNat ≤ (n.toNat + 1) % 2 ^ 64 ↔ _
  omega

/-- A call that does not advance the number changes the ban list at most. -/
theorem sameState_step {c : Channel} {op : Op} (hquiet : (c.change op).bumps = false)
    (hsilent : ¬ c.SilentBan op) : c.SameState (c.step op) := by
  rw [step_eq_after]
  cases hchange : c.change op with
  | enter | nominate | remove =>
    rw [hchange] at hquiet
    cases hquiet
  | nothing | configure => exact ⟨rfl, rfl, rfl, rfl⟩
  | setBans bans =>
    refine ⟨rfl, rfl, rfl, ?_⟩
    by_contra hne
    exact hsilent ((silentBan_iff c op).mpr ⟨bans, hchange, hne⟩)

theorem step_error {c : Channel} {op : Op} {e : Refusal} (h : (c.exec op).1 = .error e) :
    c.step op = c := by
  rcases c.settles op with ⟨_, he, _⟩ | ⟨r, hr⟩
  · rw [step, he]
  · rw [hr] at h
    cases h

theorem sequenced_iff (c : Channel) (op : Op) : c.Sequenced op ↔ c.SequenceSafe op := by
  have hseq := c.seq_step op
  constructor
  · intro h
    refine ⟨fun hsilent => ?_, fun hbumps => ?_⟩
    · obtain ⟨bans, hchange, hne⟩ := (silentBan_iff c op).mp hsilent
      have hbans : (c.step op).bans = bans := by rw [bans_step, hchange]
      have hlt := h.advances fun hsame => hne (hbans.symm.trans hsame.bans)
      rw [hseq, hchange] at hlt
      exact absurd hlt (UInt64.lt_irrefl _)
    · have hle := h.monotone
      rw [hseq, if_pos ((bumps_iff c op).mp hbumps)] at hle
      exact (le_succ_iff _).mp hle
  · rintro ⟨hsilent, hroom⟩
    cases hbumps : (c.change op).bumps with
    | true =>
      have hlt : c.seq < (c.step op).seq := by
        rw [hseq, if_pos hbumps]
        exact (lt_succ_iff _).mpr (hroom ((bumps_iff c op).mpr hbumps))
      exact ⟨fun _ => step_error, fun _ => hlt, UInt64.le_of_lt hlt⟩
    | false =>
      have hsame := sameState_step hbumps hsilent
      refine ⟨fun _ => step_error, fun hne => absurd hsame hne, ?_⟩
      rw [hseq, hbumps]
      exact UInt64.le_refl _

/-! ## Runs -/

theorem SameState.trans {c₁ c₂ c₃ : Channel} (h : c₁.SameState c₂) (h' : c₂.SameState c₃) :
    c₁.SameState c₃ :=
  ⟨h'.members.trans h.members, h'.operator.trans h.operator, h'.heirs.trans h.heirs,
    h'.bans.trans h.bans⟩

/-- Along a run of safe calls two states with one number are the same state. -/
theorem seq_determines {c : Channel} {ops : List Op} (h : Along step SequenceSafe c ops)
    {i j : Nat} (hij : i ≤ j) (hj : j ≤ ops.length) :
    (c.history ops i).seq ≤ (c.history ops j).seq ∧
      ((c.history ops i).seq = (c.history ops j).seq →
        (c.history ops i).SameState (c.history ops j)) := by
  induction j, hij using Nat.le_induction with
  | base => exact ⟨UInt64.le_refl _, fun _ => ⟨rfl, rfl, rfl, rfl⟩⟩
  | succ j hij ih =>
    obtain ⟨hle, hsame⟩ := ih (by omega)
    have hstep := (sequenced_iff _ _).mpr (h.get hj)
    rw [history_succ c hj]
    refine ⟨UInt64.le_trans hle hstep.monotone, fun heq => ?_⟩
    have hback : (c.history ops i).seq = (c.history ops j).seq :=
      UInt64.le_antisymm hle (heq ▸ hstep.monotone)
    refine (hsame hback).trans ?_
    by_contra hne
    have hlt := hstep.advances hne
    exact absurd (heq ▸ hback ▸ hlt) (UInt64.lt_irrefl _)

/-- **The sequence number orders the changes of a channel**, and exactly when it does. -/
theorem sequence_orders_changes (c : Channel) :
    (∀ op, c.Sequenced op ↔ c.SequenceSafe op) ∧
    ∀ ops, Along step SequenceSafe c ops →
      ∀ i j, i ≤ j → j ≤ ops.length → (c.history ops i).seq = (c.history ops j).seq →
        (c.history ops i).SameState (c.history ops j) := by
  refine ⟨c.sequenced_iff, fun ops h i j hij hj heq => ?_⟩
  exact (seq_determines h hij hj).2 heq

/-- The operator bans an account that is not present. -/
theorem silent_ban :
    ¬ ((Channel.new [] [] .local 0).step (.join 1 "a".toList 0 [])).Sequenced (.ban 1 2) := by
  intro h
  exact absurd (h.advances fun hsame => absurd hsame.bans (by decide)) (by decide)

end Channel

end CommandCenter.Core
