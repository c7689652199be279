import CommandCenter.Core.ChannelInvariant

/-!
# Channel bans

A ban is on an account, but the call that places it removes one session. The ban list keeps
banned accounts out of the channel exactly as long as no ban is placed on an account with
several sessions in it.

* `Channel.ban_removes_iff`: a ban leaves no session of its target behind if and only if the
  target had at most one.
* `Channel.ban_safety`: the runs of a new channel in which no banned account is present,
  operator or heir are those whose bans all meet that condition.
* `Channel.banned_operator`: a run in which a banned account stays and inherits the role.
-/

namespace CommandCenter.Core

open Rust Library

namespace Channel

/-- No banned account has a session, the operator role or a place in the line of heirs. -/
structure BansEnforced (c : Channel) : Prop where
  members : ∀ m ∈ c.members, m.account ∉ c.bans
  operator : ∀ a, c.operator = some a → a ∉ c.bans
  heirs : ∀ h ∈ c.heirs, h ∉ c.bans

/-- A call by the operator that bans `target`, by account or by display name. -/
def Bans (c : Channel) (op : Op) (target : AccountId) : Prop :=
  ∃ actor, c.mayTarget actor target ∧
    (op = .ban actor target ∨ ∃ name idx, op = .banByName actor name ∧
      c.positionByName name = some idx ∧ c.accountAt idx = target)

/-- Whoever the call bans has at most one session in the channel. -/
def BanSafe (c : Channel) (op : Op) : Prop :=
  ∀ target, c.Bans op target → c.accounts.count target ≤ 1

/-- The call returned from a ban of `target`. -/
def BanReturned (c : Channel) (op : Op) (target : AccountId) : Prop :=
  (∃ actor outcome, op = .ban actor target ∧ (c.exec op).1 = .ok (.left outcome)) ∨
    ∃ actor name outcome, op = .banByName actor name ∧
      (c.exec op).1 = .ok (.banned target outcome)

theorem bansEnforced_iff {c : Channel} (hc : c.Invariant) :
    c.BansEnforced ↔ ∀ a ∈ c.accounts, a ∉ c.bans := by
  constructor
  · intro h a ha
    obtain ⟨m, hm, rfl⟩ := mem_accounts.mp ha
    exact h.members m hm
  · intro h
    refine ⟨fun m hm => h _ (mem_accounts.mpr ⟨m, hm, rfl⟩), fun a ha => ?_, fun x hx => ?_⟩
    · exact h a (hc.seat.holder_present a ha)
    · exact h x (hc.seat.heirs_present x hx)

/-! ## One ban -/

theorem targetByName_eq_some {c : Channel} {actor : AccountId} {name : Text}
    {idx : Fin c.members.length} (hp : c.positionByName name = some idx)
    (hmay : c.mayTarget actor (c.accountAt idx)) : c.targetByName actor name = some idx := by
  simp [targetByName, hp, hmay]

/-- A ban removes the first session of its target, or the named one; where there is none, it
only enters the target in the list. -/
theorem Bans.change {c : Channel} {op : Op} {target : AccountId} (h : c.Bans op target) :
    (∃ idx, c.change op = .remove idx (insert target c.bans) ∧ c.accountAt idx = target) ∨
      (c.change op = .setBans (insert target c.bans) ∧ target ∉ c.accounts) := by
  obtain ⟨actor, hmay, rfl | ⟨name, idx, rfl, hp, rfl⟩⟩ := h
  · cases hp : c.positionByAccount target with
    | some idx =>
      exact Or.inl ⟨idx, by simp [Channel.change, hmay, hp], positionByAccount_spec hp⟩
    | none =>
      have habsent := positionByAccount_isNone c target
      rw [hp] at habsent
      exact Or.inr ⟨by simp [Channel.change, hmay, hp], by simpa using habsent⟩
  · exact Or.inl ⟨idx, by simp [Channel.change, targetByName_eq_some hp hmay], rfl⟩

theorem Bans.bans_step {c : Channel} {op : Op} {target : AccountId} (h : c.Bans op target) :
    (c.step op).bans = insert target c.bans := by
  rw [Channel.bans_step]
  rcases h.change with ⟨idx, hc, _⟩ | ⟨hc, _⟩ <;> rw [hc]

theorem ban_removes_iff {c : Channel} {op : Op} {target : AccountId} (h : c.Bans op target) :
    target ∉ (c.step op).accounts ↔ c.accounts.count target ≤ 1 := by
  rw [accounts_step]
  rcases h.change with ⟨idx, hc, hidx⟩ | ⟨hc, habsent⟩
  · rw [hc]
    exact notMem_eraseIdx_iff (hidx ▸ c.getElem?_accounts idx)
  · rw [hc, List.count_eq_zero.mpr habsent]
    simp [habsent]

theorem BanReturned.bans {c : Channel} {op : Op} {target : AccountId}
    (h : c.BanReturned op target) : c.Bans op target := by
  rcases h with ⟨actor, outcome, rfl, hout⟩ | ⟨actor, name, outcome, rfl, hout⟩
  · have hmay : c.mayTarget actor target := by
      by_contra hno
      rcases not_and_or.mp hno with hop | hself
      · simp [exec, ban, isOperator, hop] at hout
      · obtain rfl : actor = target := not_not.mp hself
        by_cases hop : c.operator = some actor <;> simp [exec, ban, isOperator, hop] at hout
    exact ⟨actor, hmay, Or.inl rfl⟩
  · by_cases hop : c.operator = some actor
    · cases hp : c.positionByName name with
      | none => simp [exec, banByName, isOperator, hop, hp] at hout
      | some idx =>
        by_cases hself : c.accountAt idx = actor
        · simp [exec, banByName, isOperator, hop, hp, hself] at hout
        · obtain ⟨rfl, _⟩ : c.accountAt idx = target ∧ _ := by
            simpa [exec, banByName, isOperator, hop, hp, hself] using hout
          exact ⟨actor, ⟨hop, Ne.symm hself⟩, Or.inr ⟨name, idx, rfl, hp, rfl⟩⟩
    · simp [exec, banByName, isOperator, hop] at hout

/-! ## One call -/

/-- Only a ban enters an account in the list. -/
theorem mem_bans_step {c : Channel} {op : Op} {a : AccountId} (h : a ∈ (c.step op).bans) :
    a ∈ c.bans ∨ c.Bans op a := by
  rw [bans_step] at h
  cases hc : c.change op with
  | remove idx bans =>
    rw [hc] at h
    rcases change_remove hc with ⟨_, _, _, rfl⟩ | ⟨actor, hmay, rfl | ⟨rfl, hop⟩⟩
    · exact Or.inl h
    · exact Or.inl h
    · rcases Finset.mem_insert.mp h with rfl | hold
      · refine Or.inr ⟨actor, hmay, ?_⟩
        rcases hop with hop | ⟨name, hop, hp⟩
        · exact Or.inl hop
        · exact Or.inr ⟨name, idx, hop, hp, rfl⟩
      · exact Or.inl hold
  | setBans bans =>
    rw [hc] at h
    rcases change_setBans hc with ⟨actor, target, rfl, hmay, _, rfl⟩ | ⟨_, target, _, _, rfl⟩
    · rcases Finset.mem_insert.mp h with rfl | hold
      · exact Or.inr ⟨actor, hmay, Or.inl rfl⟩
      · exact Or.inl hold
    · exact Or.inl (Finset.mem_of_mem_erase h)
  | nothing | enter | nominate | configure =>
    rw [hc] at h
    exact Or.inl h

theorem mem_accounts_step {c : Channel} {op : Op} {a : AccountId}
    (h : a ∈ (c.step op).accounts) : a ∈ c.accounts ∨ a ∉ c.bans := by
  rw [accounts_step] at h
  cases hc : c.change op with
  | enter account name baseFlags statstring =>
    rw [hc] at h
    rcases List.mem_append.mp h with hold | hnew
    · exact Or.inl hold
    · obtain rfl : a = account := List.mem_singleton.mp hnew
      exact Or.inr (joinDenial_none (change_enter hc).2).1
  | remove idx bans =>
    rw [hc] at h
    exact Or.inl (List.mem_of_mem_eraseIdx h)
  | nothing | nominate | setBans | configure =>
    rw [hc] at h
    exact Or.inl h

theorem bansEnforced_step {c : Channel} {op : Op} (hc : c.Invariant) (h : c.BansEnforced) :
    (c.step op).BansEnforced ↔ c.BanSafe op := by
  rw [bansEnforced_iff hc] at h
  rw [bansEnforced_iff (hc.step op)]
  constructor
  · intro hafter target hban
    refine (ban_removes_iff hban).mp fun hmem => hafter target hmem ?_
    rw [hban.bans_step]
    exact Finset.mem_insert_self _ _
  · intro hsafe a ha hbanned
    rcases mem_bans_step hbanned with hold | hban
    · rcases mem_accounts_step ha with hpresent | hfree
      · exact h a hpresent hold
      · exact hfree hold
    · exact (ban_removes_iff hban).mpr (hsafe a hban) ha

/-- **Ban safety**, and exactly when the code provides it. -/
theorem ban_safety (name : List UInt8) (display : Text) (channelClass : ChannelClass)
    (maxUsers : Nat) (ops : List Op) :
    (Always step BansEnforced (Channel.new name display channelClass maxUsers) ops ↔
      Along step BanSafe (Channel.new name display channelClass maxUsers) ops) ∧
    ∀ (c : Channel) (op : Op) (target : AccountId), c.BanReturned op target →
      ((∀ m ∈ (c.step op).members, m.account ≠ target) ↔ c.accounts.count target ≤ 1) := by
  have hnew := invariant_new name display channelClass maxUsers
  constructor
  · refine always_iff_along (fun c op hc => hc.step op) (fun c op hc h => ?_) hnew ?_ ops
    · exact bansEnforced_step hc h
    · exact (bansEnforced_iff hnew).mpr (by simp [accounts, Channel.new])
  · intro c op target h
    rw [← ban_removes_iff h.bans]
    simp [mem_accounts]

/-- Account 2 has the sessions `b` and `b#2` when it is banned: one of them stays, is
designated, and takes the role over when the operator leaves. -/
theorem banned_operator : ¬ Always step BansEnforced (Channel.new [] [] .local 0)
    [.join 1 "a".toList 0 [], .join 2 "b".toList 0 [], .join 2 "b#2".toList 0 [], .ban 1 2,
      .designate 1 2, .leave "a".toList] := by
  intro h
  exact h.last.operator 2 (by decide) (by decide)

end Channel

end CommandCenter.Core
