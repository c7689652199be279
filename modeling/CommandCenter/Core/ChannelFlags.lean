import CommandCenter.Core.ChannelInvariant

/-!
# The operator flag shown to clients

The operator role belongs to an account, the flag to a session. `join` writes the flag of the
session that enters and succession writes the flag of the heir's first session; no call
touches the other sessions of an account.

* `Channel.flagsAgree_enter`, `Channel.flagsAgree_promote`: when the two writes keep the flags
  in step with the role.
* `Channel.flags_follow_role`: the runs of a new channel in which they always are.
* `Channel.second_session_unflagged`: a run in which they are not.
-/

namespace CommandCenter.Core

open Rust Library

/-- The operator flag is set on the session. -/
def Member.ShowsOperator (m : Member) : Prop := m.flags &&& UserFlags.operator ≠ 0

namespace Channel

/-- A session shows the operator flag exactly if its account is operator. -/
def FlagsAgree (c : Channel) : Prop :=
  ∀ m ∈ c.members, m.ShowsOperator ↔ c.operator = some m.account

/-- No session enters under an account that is operator, or that becomes operator by its
display name with another session already present; and when the operator's last session
leaves, the heir at the head of the line has one session. -/
def FlagSafe (c : Channel) : Op → Prop
  | .join account name _ _ => c.joinDenial account name = none →
      c.operator ≠ some account ∧
        ¬ (account ∈ c.accounts ∧ c.operator = none ∧ ∃ opName,
          c.opGrant = .nameMatch opName ∧ (baseName name).eqIgnoreAsciiCase opName = true)
  | .leave name => ∀ idx, c.positionByName name = some idx →
      c.operator = some (c.accountAt idx) → c.accounts.count (c.accountAt idx) ≤ 1 →
        ∀ h, c.heirs.head? = some h → c.accounts.count h ≤ 1
  | _ => True

/-! ## The two writes -/

theorem flagged_shows (m : Member) : m.flagged.ShowsOperator := by
  have h : (m.flags ||| UserFlags.operator) &&& UserFlags.operator = UserFlags.operator := by
    apply UInt32.toBitVec_inj.mp
    ext i hi
    simp only [UInt32.toBitVec_and, UInt32.toBitVec_or, BitVec.getElem_and, BitVec.getElem_or]
    grind
  rw [Member.ShowsOperator, Member.flagged, h]
  decide

theorem joinFlags_shows (c : Channel) (name : Text) (baseFlags : UInt32) :
    c.joinFlags name baseFlags &&& UserFlags.operator ≠ 0 ↔ c.grantsOperator name = true := by
  unfold joinFlags
  split
  · rename_i hgrant
    exact iff_of_true (flagged_shows ⟨0, [], baseFlags, []⟩) hgrant
  · rename_i hno
    rw [UInt32.and_assoc, UInt32.not_and_self, UInt32.and_zero]
    simp [hno]

/-- Entry keeps the flags in step unless the account already has, or gains with the entry,
the role for another session. -/
theorem flagsAgree_enter {c : Channel} (h : c.FlagsAgree) (account : AccountId) (name : Text)
    (baseFlags : UInt32) (statstring : List UInt8) :
    (c.enter account name baseFlags statstring).FlagsAgree ↔
      c.operator ≠ some account ∧
        ¬ (account ∈ c.accounts ∧ c.grantsOperator name = true) := by
  have hshow := c.joinFlags_shows name baseFlags
  by_cases hgrant : c.grantsOperator name = true
  · have hnone : c.operator = none := (grantsOperator_iff.mp hgrant).1
    have hplain : ∀ m ∈ c.members, ¬ m.ShowsOperator := by
      intro m hm hs
      simp [hnone, h m hm] at hs
    constructor
    · intro hafter
      refine ⟨by simp [hnone], fun ⟨hmem, _⟩ => ?_⟩
      obtain ⟨m, hm, rfl⟩ := mem_accounts.mp hmem
      have hm' := hafter m (by simp [enter, bump, hm])
      exact hplain m hm (hm'.mpr (by simp [enter, bump, hgrant]))
    · rintro ⟨_, hfresh⟩ m hm
      have hop : (c.enter account name baseFlags statstring).operator = some account := by
        simp [enter, bump, hgrant]
      rw [hop]
      rcases List.mem_append.mp hm with hold | hnew
      · refine iff_of_false (hplain m hold) fun he => hfresh ⟨?_, hgrant⟩
        exact mem_accounts.mpr ⟨m, hold, (Option.some.inj he).symm⟩
      · obtain rfl := List.mem_singleton.mp hnew
        exact iff_of_true (hshow.mpr hgrant) rfl
  · have hop : (c.enter account name baseFlags statstring).operator = c.operator := by
      simp [enter, bump, hgrant]
    constructor
    · intro hafter
      refine ⟨fun he => ?_, fun hboth => hgrant hboth.2⟩
      have hnew := hafter ⟨account, name, c.joinFlags name baseFlags, statstring⟩
        (List.mem_append_right _ List.mem_cons_self)
      rw [hop] at hnew
      exact hgrant (hshow.mp (hnew.mpr he))
    · rintro ⟨hne, _⟩ m hm
      rw [hop]
      rcases List.mem_append.mp hm with hold | hnew
      · exact h m hold
      · obtain rfl := List.mem_singleton.mp hnew
        exact iff_of_false (fun hs => hgrant (hshow.mp hs)) hne

/-- Succession flags one session, so it keeps the flags in step exactly if the heir has no
other. -/
theorem flagsAgree_promote {c : Channel} {b : AccountId} (hb : b ∈ c.accounts)
    (hplain : ∀ m ∈ c.members, ¬ m.ShowsOperator) :
    (c.promote b).FlagsAgree ↔ c.accounts.count b ≤ 1 := by
  obtain ⟨pos, hpos⟩ := Option.isSome_iff_exists.mp
    ((c.positionByAccount_isSome b).trans (decide_eq_true hb))
  have hacc : c.accountAt pos = b := positionByAccount_spec hpos
  have hget : c.accounts[pos.val]? = some b := hacc ▸ c.getElem?_accounts pos
  have hmembers : (c.promote b).members = c.members.modify pos Member.flagged := by
    simp [promote, hpos]
  rw [← notMem_eraseIdx_iff hget, FlagsAgree, hmembers]
  constructor
  · intro hafter hother
    obtain ⟨j, hj, hjb⟩ := List.mem_eraseIdx_iff_getElem?.mp hother
    obtain ⟨m, hm, rfl⟩ : ∃ m, c.members[j]? = some m ∧ m.account = b := by
      simpa [accounts] using hjb
    have hmod : (c.members.modify pos Member.flagged)[j]? = some m := by
      rw [List.getElem?_modify, hm]
      simp [Ne.symm hj]
    have hm' := hafter m (List.mem_of_getElem? hmod)
    exact hplain m (List.mem_of_getElem? hm) (hm'.mpr rfl)
  · intro hother m hm
    change m.ShowsOperator ↔ some b = some m.account
    obtain ⟨j, hj⟩ := List.mem_iff_getElem?.mp hm
    rw [List.getElem?_modify] at hj
    obtain ⟨m', hm', rfl⟩ := Option.map_eq_some_iff.mp hj
    by_cases hjp : pos.val = j
    · subst hjp
      obtain rfl : c.members[pos] = m' := by simpa using hm'
      rw [if_pos rfl]
      exact iff_of_true (flagged_shows _) (congrArg some hacc.symm)
    · rw [if_neg hjp]
      refine iff_of_false (hplain m' (List.mem_of_getElem? hm')) fun he => hother ?_
      refine List.mem_eraseIdx_iff_getElem?.mpr ⟨j, Ne.symm hjp, ?_⟩
      simp [accounts, hm', Option.some.inj he]

/-! ## One call -/

theorem flagsAgree_without {c : Channel} (h : c.FlagsAgree) (idx : Fin c.members.length) :
    (c.without idx).FlagsAgree := by
  intro m hm
  exact h m (List.mem_of_mem_eraseIdx hm)

/-- Once the operator's last session is gone, no session shows the flag. -/
theorem plain_without {c : Channel} (h : c.FlagsAgree) {idx : Fin c.members.length}
    (hheld : c.operator = some (c.accountAt idx))
    (hgone : c.accountAt idx ∉ c.accounts.eraseIdx idx) :
    ∀ m ∈ (c.without idx).members, ¬ m.ShowsOperator := by
  intro m hm hs
  have hop : c.operator = some m.account := (h m (List.mem_of_mem_eraseIdx hm)).mp hs
  have he : c.accountAt idx = m.account := Option.some.inj (hheld.symm.trans hop)
  rw [he, ← c.accounts_without idx] at hgone
  exact hgone (mem_accounts.mpr ⟨m, hm, rfl⟩)

theorem first_heir {c : Channel} (hc : c.Invariant) {idx : Fin c.members.length}
    (hheld : c.operator = some (c.accountAt idx)) :
    (c.heirs.filter (· ≠ c.accountAt idx)).find? (· ∈ c.accounts.eraseIdx idx) =
      c.heirs.head? := by
  have hget : c.seat.present[idx.val]? = some (c.accountAt idx) := c.getElem?_accounts idx
  obtain ⟨hfilter, hfind⟩ := Seat.find?_present hc.seat hget hheld
  change (c.seat.heirs.filter (· ≠ c.accountAt idx)).find? _ = _
  rw [hfilter]
  exact hfind

/-- A removal keeps the flags in step unless it makes an heir with several sessions
operator. -/
theorem flagsAgree_removeAt {c : Channel} (hc : c.Invariant) (h : c.FlagsAgree)
    (idx : Fin c.members.length) :
    (c.removeAt idx).2.FlagsAgree ↔
      (c.operator = some (c.accountAt idx) → c.accounts.count (c.accountAt idx) ≤ 1 →
        ∀ b, c.heirs.head? = some b → c.accounts.count b ≤ 1) := by
  have hget : c.accounts[idx.val]? = some (c.accountAt idx) := c.getElem?_accounts idx
  have hspec := c.removeAt_spec idx
  generalize (c.removeAt idx).2 = c' at hspec
  cases hspec with
  | remains hmem =>
    refine iff_of_true (flagsAgree_without h idx) fun _ hcount => ?_
    exact absurd hmem ((notMem_eraseIdx_iff hget).mpr hcount)
  | left _ hne => exact iff_of_true (flagsAgree_without h idx) fun hheld => absurd hheld hne
  | vacated hgone hheld hnone =>
    have hplain := plain_without h hheld hgone
    refine iff_of_true (fun m hm => iff_of_false (hplain m hm) (by simp)) ?_
    intro _ _ b hb
    rw [← first_heir hc hheld, hnone] at hb
    cases hb
  | inherited b hgone hheld hfirst =>
    have hhead : c.heirs.head? = some b := (first_heir hc hheld).symm.trans hfirst
    have hb : b ∈ c.accounts.eraseIdx idx := by simpa using List.find?_some hfirst
    have hother : c.accountAt idx ≠ b := fun he => hgone (he ▸ hb)
    have hcount : (c.accounts.eraseIdx idx).count b = c.accounts.count b := by
      have hidx : idx.val < c.accounts.length := by simp
      have hperm := (List.getElem_cons_eraseIdx_perm hidx).count_eq b
      have hat : c.accounts[idx.val] = c.accountAt idx :=
        Option.some.inj ((List.getElem?_eq_getElem hidx).symm.trans hget)
      rwa [hat, List.count_cons_of_ne hother] at hperm
    refine Iff.trans (flagsAgree_promote ?_ (plain_without h hheld hgone)) ?_
    · exact c.accounts_without idx ▸ hb
    change (c.without idx).accounts.count b ≤ 1 ↔ _
    rw [accounts_without, hcount, hhead]
    constructor
    · rintro hle _ _ x ⟨⟩
      exact hle
    · intro hall
      exact hall hheld ((notMem_eraseIdx_iff hget).mp hgone) b rfl

/-- Only a call that lets a session in or takes one of the operator's out can be unsafe. -/
theorem flagSafe_of_change {c : Channel} {op : Op}
    (henter : ∀ account name baseFlags statstring,
      c.change op ≠ .enter account name baseFlags statstring)
    (hremove : ∀ idx bans, c.change op = .remove idx bans →
      c.operator ≠ some (c.accountAt idx)) : c.FlagSafe op := by
  cases op with
  | join account name baseFlags statstring =>
    intro hadmitted
    exact absurd (if_pos hadmitted) (henter account name baseFlags statstring)
  | leave name =>
    intro idx hp hheld
    exact absurd hheld (hremove idx c.bans (by simp [change, hp]))
  | designate | designateByName | kick | kickByName | ban | banByName | unban | setOpGrant
  | setPersist => trivial

theorem flagsAgree_step {c : Channel} (hc : c.Invariant) (h : c.FlagsAgree) (op : Op) :
    (c.step op).FlagsAgree ↔ c.FlagSafe op := by
  rw [step_eq_after]
  cases hchange : c.change op with
  | enter account name baseFlags statstring =>
    obtain ⟨rfl, hadmitted⟩ := change_enter hchange
    refine (flagsAgree_enter h account name baseFlags statstring).trans ?_
    have hgrant : account ∈ c.accounts → (c.grantsOperator name = true ↔
        c.operator = none ∧ ∃ opName, c.opGrant = .nameMatch opName ∧
          (baseName name).eqIgnoreAsciiCase opName = true) := by
      intro hmem
      have hocc : c.members ≠ [] := by
        intro hempty
        simp [accounts, hempty] at hmem
      simp [grantsOperator_iff, hocc]
    constructor
    · rintro ⟨hne, hfresh⟩ _
      refine ⟨hne, ?_⟩
      rintro ⟨hmem, hpolicy⟩
      exact hfresh ⟨hmem, (hgrant hmem).mpr hpolicy⟩
    · intro hsafe
      obtain ⟨hne, hfresh⟩ := hsafe hadmitted
      refine ⟨hne, ?_⟩
      rintro ⟨hmem, hgranted⟩
      exact hfresh ⟨hmem, (hgrant hmem).mp hgranted⟩
  | remove idx bans =>
    have hc' : Invariant { c with bans } := ⟨hc.operator_present, hc.heirs_nodup,
      hc.heirs_present, hc.operator_not_heir, hc.no_operator, hc.names_distinct, hc.capacity⟩
    refine (flagsAgree_removeAt hc' h idx).trans ?_
    rcases change_remove hchange with ⟨name, rfl, hp, rfl⟩ | ⟨actor, hmay, _⟩
    · constructor
      · intro hheir idx' hp'
        obtain rfl : idx = idx' := Option.some.inj (hp.symm.trans hp')
        exact hheir
      · intro hsafe
        exact hsafe idx hp
    · have hother : c.operator ≠ some (c.accountAt idx) := by
        rw [hmay.1]
        exact fun he => hmay.2 (Option.some.inj he)
      refine iff_of_true (fun hheld => absurd hheld hother) (flagSafe_of_change ?_ ?_)
      · simp [hchange]
      · rintro idx' bans' he
        obtain ⟨rfl, rfl⟩ := Change.remove.inj (hchange.symm.trans he)
        exact hother
  | nothing | nominate | setBans | configure =>
    refine iff_of_true h (flagSafe_of_change ?_ ?_)
    all_goals simp [hchange]

/-- **The operator flag follows the operator role**, and exactly when it does. -/
theorem flags_follow_role (name : List UInt8) (display : Text) (channelClass : ChannelClass)
    (maxUsers : Nat) (ops : List Op) :
    Always step FlagsAgree (Channel.new name display channelClass maxUsers) ops ↔
      Along step FlagSafe (Channel.new name display channelClass maxUsers) ops := by
  have hnew := invariant_new name display channelClass maxUsers
  refine always_iff_along (fun c op hc => hc.step op) (fun c op hc h => ?_) hnew ?_ ops
  · exact flagsAgree_step hc h op
  · intro m hm
    cases hm

/-- The operator's second session enters without the flag. -/
theorem second_session_unflagged : ¬ Always step FlagsAgree (Channel.new [] [] .local 0)
    [.join 1 "a".toList 0 [], .join 1 "a#2".toList 0 []] := by
  intro h
  have hflag := h.last ⟨1, "a#2".toList, 0, []⟩ (by decide)
  exact absurd (hflag.mpr (by decide)) (not_not.mpr (by decide))

end Channel

end CommandCenter.Core
