import CommandCenter.Core.ChannelInvariant

/-!
# Two ways to designate an heir

`designate` takes an account and `designate_by_name` the name of a session. Both answer alike, but
an heir that is designated again goes to the end of the line in the one and stays in its place in
the other.

* `Channel.Agree`: what the two calls leave behind is the same line of heirs, and with it the same
  operator after any calls.
* `Channel.designations_agree_iff`: it is so unless an heir that is not the last is designated
  again.
-/

namespace CommandCenter.Core

open Rust Library

namespace Channel

/-- What a new channel can become. -/
def Reachable (c : Channel) : Prop :=
  ∃ name display channelClass maxUsers ops,
    c = run step (Channel.new name display channelClass maxUsers) ops

/-- `designate_by_name` under a name does what `designate` does for an account. -/
structure Agree (c : Channel) (actor : AccountId) (name : Text) (heir : AccountId) : Prop where
  succeeds : (c.designateByName actor name).1.isOk = (c.designate actor heir).1.isOk
  heirs : (c.designateByName actor name).2.heirs = (c.designate actor heir).2.heirs
  succession : ∀ ops, (run step (c.designateByName actor name).2 ops).operator =
    (run step (c.designate actor heir).2 ops).operator

/-! ## Channels that differ in the sequence number -/

/-- The channel under another sequence number. -/
def renumbered (c : Channel) (seq : UInt64) : Channel := { c with seq }

theorem change_renumbered (c : Channel) (seq : UInt64) (op : Op) :
    (c.renumbered seq).change op = c.change op := by
  have hname : ∀ name, (c.renumbered seq).positionByName name = c.positionByName name :=
    fun _ => rfl
  have haccount : ∀ a, (c.renumbered seq).positionByAccount a = c.positionByAccount a :=
    fun _ => rfl
  have htarget : ∀ actor name, (c.renumbered seq).targetByName actor name =
    c.targetByName actor name := fun _ _ => rfl
  have hmay : ∀ actor target, (c.renumbered seq).mayTarget actor target ↔
    c.mayTarget actor target := fun _ _ => Iff.rfl
  cases op with
  | leave name =>
    simp only [change, hname]
    cases c.positionByName name <;> rfl
  | designateByName actor name | kickByName actor name | banByName actor name =>
    simp only [change, htarget]
    cases c.targetByName actor name <;> rfl
  | kick actor target | ban actor target =>
    simp only [change, haccount]
    cases c.positionByAccount target <;> rfl
  | join | designate | unban | setOpGrant | setPersist => rfl

theorem promote_renumbered (c : Channel) (seq : UInt64) (h : AccountId) :
    (c.renumbered seq).promote h = (c.promote h).renumbered seq := by
  have haccount : (c.renumbered seq).positionByAccount h = c.positionByAccount h := rfl
  simp only [promote, haccount]
  cases c.positionByAccount h <;> rfl

theorem handOver_renumbered (c : Channel) (seq : UInt64) (out out' : LeaveOutcome) :
    ((c.renumbered seq).handOver out).2 = (c.handOver out').2.renumbered seq := by
  have hfind : ((c.renumbered seq).heirs.find? fun h =>
      ((c.renumbered seq).positionByAccount h).isSome) =
      c.heirs.find? fun h => (c.positionByAccount h).isSome := rfl
  unfold handOver
  rw [hfind]
  cases c.heirs.find? fun h => (c.positionByAccount h).isSome with
  | none => rfl
  | some h => exact promote_renumbered c seq h

theorem removeAt_renumbered (c : Channel) (seq : UInt64) (idx : Fin c.members.length) :
    ((c.renumbered seq).removeAt idx).2 = (c.removeAt idx).2.renumbered (seq + 1) := by
  have hgone : ((c.renumbered seq).without idx).positionByAccount (c.accountAt idx) =
    (c.without idx).positionByAccount (c.accountAt idx) := rfl
  have hgone' : (((c.renumbered seq).without idx).positionByAccount
      ((c.renumbered seq).accountAt idx)).isNone =
      ((c.without idx).positionByAccount (c.accountAt idx)).isNone := congrArg _ hgone
  unfold removeAt
  dsimp only
  rw [hgone']
  cases ((c.without idx).positionByAccount (c.accountAt idx)).isNone with
  | false => rfl
  | true =>
    simp only [Bool.true_and, if_true]
    have hop : ((((c.renumbered seq).without idx).disinherit
        ((c.renumbered seq).accountAt idx)).operator ==
          some ((c.renumbered seq).accountAt idx)) =
        (((c.without idx).disinherit (c.accountAt idx)).operator == some (c.accountAt idx)) := rfl
    rw [hop]
    split
    · exact handOver_renumbered
        { (c.without idx).disinherit (c.accountAt idx) with operator := none } (seq + 1) _ _
    · rfl

theorem after_renumbered (c : Channel) (seq : UInt64) (change : Change c.members.length) :
    ∃ seq', (c.renumbered seq).after change = (c.after change).renumbered seq' := by
  cases change with
  | nothing | setBans | configure => exact ⟨seq, rfl⟩
  | enter | nominate => exact ⟨seq + 1, rfl⟩
  | remove idx bans => exact ⟨seq + 1, removeAt_renumbered { c with bans } seq idx⟩

/-- No call asks for the sequence number. -/
theorem run_renumbered (c : Channel) (seq : UInt64) (ops : List Op) :
    ∃ seq', run step (c.renumbered seq) ops = (run step c ops).renumbered seq' := by
  induction ops generalizing c seq with
  | nil => exact ⟨seq, rfl⟩
  | cons op ops ih =>
    obtain ⟨seq', hseq⟩ := after_renumbered c seq (c.change op)
    have hstep : (c.renumbered seq).step op = (c.step op).renumbered seq' := by
      rw [step_eq_after, step_eq_after, ← hseq, change_renumbered]
    rw [run_cons, run_cons, hstep]
    exact ih (c.step op) seq'

/-! ## The line of heirs -/

/-- Going to the end of the line changes nothing for the last. -/
theorem requeue_eq_self_iff {l : List AccountId} (hl : l.Nodup) (a : AccountId) :
    l.filter (· ≠ a) ++ [a] = l ↔ l.getLast? = some a := by
  constructor
  · intro h
    rw [← h, List.getLast?_concat]
  · intro h
    obtain ⟨init, rfl⟩ := List.getLast?_eq_some_iff.mp h
    obtain ⟨-, -, hdisjoint⟩ := List.nodup_append.mp hl
    have hinit : init.filter (· ≠ a) = init := by
      rw [List.filter_eq_self]
      intro b hb
      exact decide_eq_true (hdisjoint b hb a (List.mem_singleton_self a))
    rw [List.filter_append, hinit]
    simp

/-- An account that is not in the line joins it at the end, either way. -/
theorem requeue_of_notMem {l : List AccountId} {a : AccountId} (h : a ∉ l) :
    l.filter (· ≠ a) ++ [a] = l ++ [a] := by
  have hl : l.filter (· ≠ a) = l := by
    rw [List.filter_eq_self]
    rintro b hb
    exact decide_eq_true fun hba => h (hba ▸ hb)
  rw [hl]

section Calls

variable {c : Channel} {actor : AccountId} {name : Text} {idx : Fin c.members.length}

theorem designateByName_notOperator (h : c.isOperator actor = false) :
    c.designateByName actor name = (.error .notOperator, c) := by
  rw [designateByName, h]
  rfl

theorem designate_notOperator {heir : AccountId} (h : c.isOperator actor = false) :
    c.designate actor heir = (.error .notOperator, c) := by
  rw [designate, h]
  rfl

theorem designateByName_operator (hop : c.isOperator actor = true)
    (hidx : c.positionByName name = some idx) (hne : c.accountAt idx ≠ actor) :
    c.designateByName actor name =
      (.ok (c.accountAt idx),
        if c.accountAt idx ∈ c.heirs then c
        else bump { c with heirs := c.heirs ++ [c.accountAt idx] }) := by
  simp only [designateByName, hop, hidx, hne, Bool.not_true, Bool.false_eq_true, if_false]
  split <;> rfl

theorem designate_operator (hop : c.isOperator actor = true) (hne : c.accountAt idx ≠ actor) :
    c.designate actor (c.accountAt idx) =
      (.ok (), bump { c with heirs := c.heirs.filter (· ≠ c.accountAt idx) ++
        [c.accountAt idx] }) := by
  have hpresent : (c.positionByAccount (c.accountAt idx)).isNone = false := by
    rw [positionByAccount_isNone]
    exact decide_eq_false (not_not.mpr (c.accountAt_mem idx))
  simp [designate, hop, hne.symm, hpresent]

end Calls

/-- **The two ways to designate agree** except on an heir with others behind it in the line. -/
theorem designations_agree_iff {c : Channel} (hc : c.Reachable) (actor : AccountId) {name : Text}
    (idx : Fin c.members.length) (hidx : c.positionByName name = some idx) :
    c.Agree actor name (c.accountAt idx) ↔
      (c.isOperator actor = true → c.accountAt idx ∈ c.heirs →
        c.heirs.getLast? = some (c.accountAt idx)) := by
  obtain ⟨chanName, display, channelClass, maxUsers, ops, hrun⟩ := hc
  have hinv : c.Invariant := hrun ▸ representation_invariant _ _ _ _ _
  cases hop : c.isOperator actor with
  | false =>
    rw [Bool.false_eq_true, false_implies, iff_true]
    constructor <;> rw [designateByName_notOperator hop, designate_notOperator hop]
    · rfl
    · exact fun _ => rfl
  | true =>
    by_cases hself : c.accountAt idx = actor
    · have hheir : c.accountAt idx ∉ c.heirs := by
        rw [hself]
        exact hinv.operator_not_heir actor (beq_iff_eq.mp hop)
      have hname : c.designateByName actor name = (.error .cannotTargetSelf, c) := by
        simp [designateByName, hop, hidx, hself]
      have haccount : c.designate actor (c.accountAt idx) = (.error .cannotTargetSelf, c) := by
        simp [designate, hop, hself]
      refine ⟨fun _ _ hmem => absurd hmem hheir, fun _ => ?_⟩
      constructor <;> rw [hname, haccount]
      · rfl
      · exact fun _ => rfl
    · have hname := designateByName_operator hop hidx hself
      have haccount := designate_operator hop hself
      by_cases hheir : c.accountAt idx ∈ c.heirs
      · rw [if_pos hheir] at hname
        have hline := requeue_eq_self_iff hinv.heirs_nodup (c.accountAt idx)
        constructor
        · intro h _ _
          have hheirs := h.heirs
          rw [hname, haccount] at hheirs
          exact hline.mp hheirs.symm
        · intro h
          have hsame := hline.mpr (h rfl hheir)
          -- Only the sequence number is another.
          have hbump : bump { c with heirs := c.heirs.filter (· ≠ c.accountAt idx) ++
              [c.accountAt idx] } = c.renumbered (c.seq + 1) := by
            rw [hsame]
            rfl
          rw [hbump] at haccount
          constructor <;> rw [hname, haccount]
          · rfl
          · rfl
          · intro ops
            obtain ⟨seq, hseq⟩ := run_renumbered c (c.seq + 1) ops
            rw [hseq]
            rfl
      · rw [if_neg hheir] at hname
        rw [requeue_of_notMem hheir] at haccount
        refine ⟨fun _ _ hmem => absurd hmem hheir, fun _ => ?_⟩
        constructor <;> rw [hname, haccount]
        · rfl
        · exact fun _ => rfl

/-- An operator and two more users. -/
def company : List Op := [.join 1 ['a'] 0 [], .join 2 ['b'] 0 [], .join 3 ['c'] 0 []]

/-- The only heir is designated again. -/
theorem designations_agree_iff_only :
    (run step (Channel.new [] [] .local 0) (company ++ [.designate 1 2])).Agree 1 ['b'] 2 :=
  (designations_agree_iff ⟨_, _, _, _, _, rfl⟩ 1 ⟨1, by decide⟩ (by decide)).mpr (by decide)

/-- The first of two heirs is designated again. -/
theorem designated_again : ¬ ∀ c : Channel, c.Reachable → ∀ actor name idx,
    c.positionByName name = some idx → c.Agree actor name (c.accountAt idx) := by
  intro h
  have hagree := h
    (run step (Channel.new [] [] .local 0) (company ++ [.designate 1 2, .designate 1 3]))
    ⟨_, _, _, _, _, rfl⟩ 1 ['b'] ⟨1, by decide⟩ (by decide)
  exact absurd hagree.heirs (by decide)

end Channel

end CommandCenter.Core
