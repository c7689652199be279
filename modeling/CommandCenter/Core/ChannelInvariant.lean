import CommandCenter.Core.ChannelStep
import CommandCenter.Library.Run

/-!
# The representation invariant of a channel

`Channel.Invariant` holds of a new channel and is preserved by every call
(`Channel.Invariant.step`), so it holds in every state of every run
(`Channel.representation_invariant`). Its clauses about the operator role are the
well-formedness of `Channel.seat`, which the abstract role preserves; the clauses about
display names and capacity are local to the channel.
-/

namespace CommandCenter.Core

open Rust Library

namespace Channel

structure Invariant (c : Channel) : Prop where
  operator_present : ∀ a, c.operator = some a → ∃ m ∈ c.members, m.account = a
  heirs_nodup : c.heirs.Nodup
  heirs_present : ∀ h ∈ c.heirs, ∃ m ∈ c.members, m.account = h
  operator_not_heir : ∀ a, c.operator = some a → a ∉ c.heirs
  no_operator : c.operator = none → c.heirs = []
  names_distinct :
    c.members.Pairwise fun m₁ m₂ => m₁.name.eqIgnoreAsciiCase m₂.name = false
  capacity : c.maxUsers ≠ 0 → c.members.length ≤ c.maxUsers

theorem nodup_names_iff {c : Channel} : c.names.Nodup ↔
    c.members.Pairwise fun m₁ m₂ => m₁.name.eqIgnoreAsciiCase m₂.name = false := by
  simp [names, List.Nodup, List.pairwise_map, Text.eqIgnoreAsciiCase]

theorem invariant_iff {c : Channel} : c.Invariant ↔ c.seat.Wf ∧ c.names.Nodup ∧
    (c.maxUsers ≠ 0 → c.members.length ≤ c.maxUsers) := by
  simp only [nodup_names_iff]
  constructor
  · intro h
    exact ⟨⟨fun a ha => mem_accounts.mpr (h.operator_present a ha), h.heirs_nodup,
      fun x hx => mem_accounts.mpr (h.heirs_present x hx), h.operator_not_heir, h.no_operator⟩,
      h.names_distinct, h.capacity⟩
  · rintro ⟨hs, hn, hc⟩
    exact ⟨fun a ha => mem_accounts.mp (hs.holder_present a ha), hs.heirs_nodup,
      fun x hx => mem_accounts.mp (hs.heirs_present x hx), hs.holder_not_heir, hs.vacant, hn, hc⟩

theorem Invariant.seat {c : Channel} (h : c.Invariant) : c.seat.Wf := (invariant_iff.mp h).1

theorem invariant_new (name : List UInt8) (display : Text) (channelClass : ChannelClass)
    (maxUsers : Nat) : (Channel.new name display channelClass maxUsers).Invariant :=
  invariant_iff.mpr ⟨Seat.wf_empty, List.nodup_nil, fun _ => Nat.zero_le _⟩

/-! ## One call -/

theorem seat_wf_step {c : Channel} (h : c.seat.Wf) (op : Op) : (c.step op).seat.Wf := by
  rcases c.seat_step_cases op with hsame | ⟨e, _, henabled, hafter⟩
  · rw [hsame]
    exact h
  · rw [hafter]
    exact h.apply henabled

theorem joinDenial_none {c : Channel} {account : AccountId} {name : Text}
    (h : c.joinDenial account name = none) :
    account ∉ c.bans ∧ name.toAsciiLowercase ∉ c.names ∧
      (c.maxUsers ≠ 0 → c.members.length < c.maxUsers) := by
  unfold joinDenial at h
  split at h
  · cases h
  · rename_i hban
    split at h
    · cases h
    · rename_i hname
      split at h
      · cases h
      · rename_i hfull
        rw [positionByName_isSome] at hname
        exact ⟨hban, by simpa using hname, fun h0 => by omega⟩

theorem change_enter {c : Channel} {op : Op} {account : AccountId} {name : Text}
    {baseFlags : UInt32} {statstring : List UInt8}
    (h : c.change op = .enter account name baseFlags statstring) :
    op = .join account name baseFlags statstring ∧ c.joinDenial account name = none := by
  cases op with
  | join =>
    simp only [change] at h
    split at h
    · rename_i hd
      cases h
      exact ⟨rfl, hd⟩
    · cases h
  | leave | designate | designateByName | kick | kickByName | ban | banByName | unban =>
    simp only [change] at h
    split at h <;> try split at h
    all_goals cases h
  | setOpGrant | setPersist => cases h

theorem Invariant.step {c : Channel} (h : c.Invariant) (op : Op) : (c.step op).Invariant := by
  obtain ⟨hseat, hnames, hcap⟩ := invariant_iff.mp h
  rw [← length_names] at hcap
  refine invariant_iff.mpr ⟨seat_wf_step hseat op, ?_⟩
  rw [← length_names, maxUsers_step, names_step]
  cases hc : c.change op with
  | enter account name baseFlags statstring =>
    obtain ⟨_, hfresh, hroom⟩ := joinDenial_none (change_enter hc).2
    refine ⟨List.nodup_append.mpr ⟨hnames, by simp, ?_⟩, fun h0 => ?_⟩
    · intro x hx y hy
      obtain rfl : y = name.toAsciiLowercase := by simpa using hy
      rintro rfl
      exact hfresh hx
    · have := hroom h0
      simp only [List.length_append, length_names, List.length_singleton]
      omega
  | remove idx bans =>
    refine ⟨hnames.eraseIdx idx, fun h0 => ?_⟩
    exact (List.length_eraseIdx_le _ _).trans (hcap h0)
  | nothing | nominate | setBans | configure => exact ⟨hnames, hcap⟩

theorem invariant_run {c : Channel} (h : c.Invariant) (ops : List Op) :
    (run step c ops).Invariant := run_invariant (fun _ op hc => hc.step op) h ops

/-- **The representation invariant** holds in every state a new channel can reach. -/
theorem representation_invariant (name : List UInt8) (display : Text)
    (channelClass : ChannelClass) (maxUsers : Nat) (ops : List Op) :
    (run step (Channel.new name display channelClass maxUsers) ops).Invariant :=
  invariant_run (invariant_new name display channelClass maxUsers) ops

end Channel

/-!
## The roster of a channel

What the operations do to the display names of the members, in their order, and when a departure
asks for the channel to be destroyed.

* `memberNames_enter`, `memberNames_removeAt`: a name is added at the end, or erased.
* `mayRemove`: whom an operator's kick or ban removes.
* `removeAt_shouldDestroy`: a channel is given up just if it was left `abandoned`.
-/

namespace Channel

def memberNames (c : Channel) : List Text := c.members.map Member.name

/-- No member is left, and nothing keeps the channel. -/
def abandoned (c : Channel) : Bool :=
  c.members.isEmpty && !c.channelClass.persistsWhenEmpty && !c.persist

theorem names_eq (c : Channel) : c.names = c.memberNames.map Text.toAsciiLowercase := by
  simp [names, memberNames]

@[simp] theorem memberNames_enter (c : Channel) (account : AccountId) (name : Text)
    (baseFlags : UInt32) (statstring : List UInt8) :
    (c.enter account name baseFlags statstring).memberNames = c.memberNames ++ [name] := by
  simp [enter, bump, memberNames]

@[simp] theorem memberNames_removeAt (c : Channel) (idx : Fin c.members.length) :
    (c.removeAt idx).2.memberNames = c.memberNames.eraseIdx idx :=
  map_members_removeAt (fun _ => rfl) c idx

theorem removeAt_settings (c : Channel) (idx : Fin c.members.length) :
    (c.removeAt idx).2.channelClass = c.channelClass ∧ (c.removeAt idx).2.persist = c.persist ∧
      (c.removeAt idx).2.display = c.display := by
  have h := c.removeAt_spec idx
  generalize (c.removeAt idx).2 = c' at h
  cases h <;> exact ⟨rfl, rfl, rfl⟩

theorem handOver_shouldDestroy (c : Channel) (out : LeaveOutcome) :
    (c.handOver out).1.shouldDestroy = out.shouldDestroy := by
  unfold handOver
  split <;> rfl

theorem isEmpty_memberNames (c : Channel) : c.memberNames.isEmpty = c.members.isEmpty :=
  List.isEmpty_map

theorem removeAt_shouldDestroy (c : Channel) (idx : Fin c.members.length) :
    (c.removeAt idx).1.shouldDestroy = (c.removeAt idx).2.abandoned := by
  have hempty : (c.removeAt idx).2.members.isEmpty = (c.without idx).members.isEmpty := by
    rw [← isEmpty_memberNames, ← isEmpty_memberNames, memberNames_removeAt]
    simp [memberNames, without, bump, List.eraseIdx_map]
  have hout : (c.removeAt idx).1.shouldDestroy = (c.without idx).abandoned := by
    simp only [removeAt]
    split
    · split
      · exact handOver_shouldDestroy _ _
      · rfl
    · split
      · exact handOver_shouldDestroy _ _
      · rfl
  obtain ⟨hclass, hpersist, _⟩ := c.removeAt_settings idx
  rw [hout, abandoned, abandoned, hempty, hclass, hpersist]
  rfl

/-! ## Whom an operator removes -/

/-- Whether a kick or a ban by the account removes the session shown as `name`. -/
def mayRemove (c : Channel) (actor : AccountId) (name : Text) : Bool :=
  c.isOperator actor && (c.positionByName name).any fun idx => c.accountAt idx != actor

theorem mayRemove_of_idx {c : Channel} {actor : AccountId} {name : Text}
    {idx : Fin c.members.length} (hop : ¬ (!c.isOperator actor) = true)
    (hidx : c.positionByName name = some idx) (hother : ¬ c.accountAt idx = actor) :
    c.mayRemove actor name = true := by
  rw [mayRemove, hidx]
  simpa using And.intro (by simpa using hop) hother

theorem mayRemove_of_kickByName {c : Channel} {actor : AccountId} {name : Text}
    {out : LeaveOutcome} (h : (c.kickByName actor name).1 = .ok out) :
    c.mayRemove actor name = true := by
  unfold kickByName at h
  split at h
  · cases h
  · rename_i hop
    split at h
    · cases h
    · rename_i idx hidx
      split at h
      · cases h
      · rename_i hother
        exact mayRemove_of_idx hop hidx hother

theorem mayRemove_of_banByName {c : Channel} {actor : AccountId} {name : Text}
    {out : AccountId × LeaveOutcome} (h : (c.banByName actor name).1 = .ok out) :
    c.mayRemove actor name = true := by
  unfold banByName at h
  dsimp only at h
  split at h
  · cases h
  · rename_i hop
    split at h
    · cases h
    · rename_i idx hidx
      split at h
      · cases h
      · rename_i hother
        exact mayRemove_of_idx hop hidx hother

end Channel

end CommandCenter.Core
