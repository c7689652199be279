import Mathlib.Data.List.Basic
import Mathlib.Data.List.Nodup

/-!
# A role with a line of heirs

`Seat α` is the abstract state of a role that one account of type `α` may hold in a room
where accounts come and go, each with any number of sessions: who is present (one entry a
session), who holds the role, and the line of heirs. The role passes on only when the last
session of its holder departs, and then to the first heir who is present.

* `Seat.apply`, `Seat.Enabled`: the three events (a session enters, an heir is nominated, a
  session departs) and the guards under which they happen.
* `Seat.Wf`: the holder and the heirs are present, the heirs are distinct and other than the
  holder, and there is no line of heirs without a holder.
* `Seat.Wf.apply`: every enabled event preserves `Seat.Wf`.
* `Seat.Wf.holder_change`: the two ways the role changes hands.
* `Seat.mem_heirs_apply`: only a nomination puts an account into the line.
-/

namespace CommandCenter.Library

/-- A role, its holder and its line of heirs, over the accounts present. -/
structure Seat (α : Type*) where
  present : List α
  holder : Option α
  heirs : List α

namespace Seat

variable {α : Type*} [DecidableEq α]

inductive Event (α : Type*) where
  | enter (a : α) (grant : Bool)
  | nominate (h : α)
  | depart (i : Nat)

/-- The session at position `i` departs. -/
def depart (s : Seat α) (i : Nat) : Seat α :=
  match s.present[i]? with
  | none => s
  | some a =>
    if a ∈ s.present.eraseIdx i then { s with present := s.present.eraseIdx i }
    else if s.holder = some a then
      match (s.heirs.filter (· ≠ a)).find? (· ∈ s.present.eraseIdx i) with
      | some h => ⟨s.present.eraseIdx i, some h, (s.heirs.filter (· ≠ a)).filter (· ≠ h)⟩
      | none => ⟨s.present.eraseIdx i, none, s.heirs.filter (· ≠ a)⟩
    else ⟨s.present.eraseIdx i, s.holder, s.heirs.filter (· ≠ a)⟩

def apply (s : Seat α) : Event α → Seat α
  | .enter a grant =>
    { s with present := s.present ++ [a], holder := if grant then some a else s.holder }
  | .nominate h => { s with heirs := s.heirs.filter (· ≠ h) ++ [h] }
  | .depart i => s.depart i

/-- The role is granted on entry only while it is vacant; only its holder nominates, and
only somebody else who is present. -/
def Enabled (s : Seat α) : Event α → Prop
  | .enter _ grant => grant = true → s.holder = none
  | .nominate h => h ∈ s.present ∧ ∃ b, s.holder = some b ∧ b ≠ h
  | .depart i => i < s.present.length

structure Wf (s : Seat α) : Prop where
  holder_present : ∀ a, s.holder = some a → a ∈ s.present
  heirs_nodup : s.heirs.Nodup
  heirs_present : ∀ h ∈ s.heirs, h ∈ s.present
  holder_not_heir : ∀ a, s.holder = some a → a ∉ s.heirs
  vacant : s.holder = none → s.heirs = []

omit [DecidableEq α] in
theorem wf_empty : Wf (⟨[], none, []⟩ : Seat α) :=
  ⟨by simp, List.nodup_nil, by simp, by simp, fun _ => rfl⟩

/-! ## Departures -/

/-- What a departure does, by what remains of the departing account. -/
inductive Departed (s : Seat α) (i : Nat) (a : α) : Seat α → Prop
  | remains (h : a ∈ s.present.eraseIdx i) :
      Departed s i a { s with present := s.present.eraseIdx i }
  | left (h : a ∉ s.present.eraseIdx i) (hne : s.holder ≠ some a) :
      Departed s i a ⟨s.present.eraseIdx i, s.holder, s.heirs.filter (· ≠ a)⟩
  | vacated (h : a ∉ s.present.eraseIdx i) (hheld : s.holder = some a)
      (hnone : (s.heirs.filter (· ≠ a)).find? (· ∈ s.present.eraseIdx i) = none) :
      Departed s i a ⟨s.present.eraseIdx i, none, s.heirs.filter (· ≠ a)⟩
  | inherited (b : α) (h : a ∉ s.present.eraseIdx i) (hheld : s.holder = some a)
      (hfirst : (s.heirs.filter (· ≠ a)).find? (· ∈ s.present.eraseIdx i) = some b) :
      Departed s i a
        ⟨s.present.eraseIdx i, some b, (s.heirs.filter (· ≠ a)).filter (· ≠ b)⟩

theorem depart_spec {s : Seat α} {i : Nat} {a : α} (ha : s.present[i]? = some a) :
    Departed s i a (s.depart i) := by
  unfold depart
  rw [ha]
  dsimp only
  split
  · rename_i h
    exact .remains h
  · rename_i h
    split
    · rename_i hheld
      split
      · rename_i b hfirst
        exact .inherited b h hheld hfirst
      · rename_i hnone
        exact .vacated h hheld hnone
    · rename_i hne
      exact .left h hne

theorem Departed.eq {s s' : Seat α} {i : Nat} {a : α} (ha : s.present[i]? = some a)
    (h : Departed s i a s') : s.depart i = s' := by
  unfold depart
  rw [ha]
  cases h with
  | remains h => exact if_pos h
  | left h hne => exact (if_neg h).trans (if_neg hne)
  | vacated h hheld hnone =>
    refine (if_neg h).trans ((if_pos hheld).trans ?_)
    rw [hnone]
  | inherited b h hheld hfirst =>
    refine (if_neg h).trans ((if_pos hheld).trans ?_)
    rw [hfirst]

omit [DecidableEq α] in
theorem mem_eraseIdx_of_ne {l : List α} {i : Nat} {a x : α} (ha : l[i]? = some a)
    (hx : x ∈ l) (hne : x ≠ a) : x ∈ l.eraseIdx i := by
  obtain ⟨j, hj⟩ := List.mem_iff_getElem?.mp hx
  refine List.mem_eraseIdx_iff_getElem?.mpr ⟨j, ?_, hj⟩
  rintro rfl
  exact hne (Option.some.inj (hj.symm.trans ha))

theorem find?_present {s : Seat α} (hs : Wf s) {i : Nat} {a : α}
    (ha : s.present[i]? = some a) (hheld : s.holder = some a) :
    s.heirs.filter (· ≠ a) = s.heirs ∧
      s.heirs.find? (· ∈ s.present.eraseIdx i) = s.heirs.head? := by
  have hne : ∀ h ∈ s.heirs, h ≠ a := by
    rintro h hh rfl
    exact hs.holder_not_heir h hheld hh
  refine ⟨List.filter_eq_self.mpr fun h hh => by simp [hne h hh], ?_⟩
  cases hheirs : s.heirs with
  | nil => rfl
  | cons h t =>
    have hh : h ∈ s.heirs := by simp [hheirs]
    have hmem := mem_eraseIdx_of_ne ha (hs.heirs_present h hh) (hne h hh)
    simp [hmem]

theorem Wf.depart_holder {s : Seat α} (hs : Wf s) {i : Nat} {a : α}
    (ha : s.present[i]? = some a) (hheld : s.holder = some a)
    (hgone : a ∉ s.present.eraseIdx i) : (s.depart i).holder = s.heirs.head? := by
  obtain ⟨hfilter, hfind⟩ := find?_present hs ha hheld
  have hd := depart_spec ha
  generalize s.depart i = s' at hd
  cases hd with
  | remains h => exact absurd h hgone
  | left _ hne => exact absurd hheld hne
  | vacated _ _ hnone =>
    rw [hfilter, hfind] at hnone
    exact hnone.symm
  | inherited b _ _ hfirst =>
    rw [hfilter, hfind] at hfirst
    exact hfirst.symm

theorem Wf.depart {s : Seat α} (hs : Wf s) {i : Nat} (hi : i < s.present.length) :
    Wf (s.depart i) := by
  have ha : s.present[i]? = some s.present[i] := List.getElem?_eq_getElem hi
  generalize s.present[i] = a at ha
  have stays : ∀ x ∈ s.present, x ≠ a → x ∈ s.present.eraseIdx i :=
    fun x hx hne => mem_eraseIdx_of_ne ha hx hne
  have hd := depart_spec ha
  generalize s.depart i = s' at hd
  cases hd with
  | remains h =>
    have keeps : ∀ x ∈ s.present, x ∈ s.present.eraseIdx i := by
      intro x hx
      by_cases hxa : x = a
      · exact hxa ▸ h
      · exact stays x hx hxa
    exact ⟨fun x hx => keeps x (hs.holder_present x hx), hs.heirs_nodup,
      fun x hx => keeps x (hs.heirs_present x hx), hs.holder_not_heir, hs.vacant⟩
  | left _ hne =>
    refine ⟨fun x hx => ?_, hs.heirs_nodup.filter _, fun x hx => ?_, fun x hx hmem => ?_, ?_⟩
    · exact stays x (hs.holder_present x hx) fun he => hne (he ▸ hx)
    · simp only [List.mem_filter, decide_eq_true_eq] at hx
      exact stays x (hs.heirs_present x hx.1) hx.2
    · exact hs.holder_not_heir x hx (List.mem_of_mem_filter hmem)
    · intro hnone
      simp [hs.vacant hnone]
  | vacated _ hheld hnone =>
    have hempty : s.heirs.filter (· ≠ a) = [] := by
      apply List.filter_eq_nil_iff.mpr
      intro x hx
      simp only [decide_eq_true_eq]
      intro hxa
      have hgone := List.find?_eq_none.mp hnone x (by simp [hx, hxa])
      simp [stays x (hs.heirs_present x hx) hxa] at hgone
    refine ⟨by simp, hs.heirs_nodup.filter _, ?_, by simp, fun _ => hempty⟩
    rw [hempty]
    simp
  | inherited b _ _ hfirst =>
    have hb : b ∈ s.present.eraseIdx i := by simpa using List.find?_some hfirst
    refine ⟨?_, (hs.heirs_nodup.filter _).filter _, fun x hx => ?_, ?_, by simp⟩
    · rintro x ⟨⟩
      exact hb
    · simp only [List.mem_filter, decide_eq_true_eq] at hx
      exact stays x (hs.heirs_present x hx.1.1) hx.1.2
    · rintro x ⟨⟩
      simp

/-! ## Events -/

theorem Wf.apply {s : Seat α} (hs : Wf s) {e : Event α} (he : s.Enabled e) :
    Wf (s.apply e) := by
  cases e with
  | enter a grant =>
    have hpresent : ∀ x ∈ s.present, x ∈ s.present ++ [a] := fun x hx => by simp [hx]
    cases grant with
    | false =>
      exact ⟨fun x hx => hpresent x (hs.holder_present x hx), hs.heirs_nodup,
        fun x hx => hpresent x (hs.heirs_present x hx), hs.holder_not_heir, hs.vacant⟩
    | true =>
      have hheirs : s.heirs = [] := hs.vacant (he rfl)
      refine ⟨fun x hx => ?_, hs.heirs_nodup, fun x hx => hpresent x (hs.heirs_present x hx),
        ?_, fun _ => hheirs⟩
      · obtain rfl : a = x := by simpa [Seat.apply] using hx
        simp [Seat.apply]
      · simp [Seat.apply, hheirs]
  | nominate h =>
    obtain ⟨hmem, b, hb, hbh⟩ := he
    refine ⟨hs.holder_present, ?_, fun x hx => ?_, fun x hx => ?_, fun hnone => ?_⟩
    · simp only [Seat.apply, List.nodup_append]
      exact ⟨hs.heirs_nodup.filter _, by simp, by simp⟩
    · simp only [Seat.apply, List.mem_append, List.mem_filter, List.mem_singleton] at hx
      rcases hx with hx | rfl
      · exact hs.heirs_present x hx.1
      · exact hmem
    · obtain rfl : b = x := by simpa [hb, Seat.apply] using hx
      simp [Seat.apply, hs.holder_not_heir b hb, hbh]
    · simp [Seat.apply, hb] at hnone
  | depart i => exact hs.depart he

/-- The role changes hands in two ways: a vacant role is granted on entry, or the holder's
last session departs and the head of the line, if any, takes over. -/
theorem Wf.holder_change {s : Seat α} (hs : Wf s) {e : Event α} (he : s.Enabled e)
    (hne : (s.apply e).holder ≠ s.holder) :
    (∃ a, e = .enter a true ∧ s.holder = none ∧ (s.apply e).holder = some a) ∨
      ∃ a i, e = .depart i ∧ s.present[i]? = some a ∧ s.holder = some a ∧
        a ∉ (s.apply e).present ∧ (s.apply e).holder = s.heirs.head? := by
  cases e with
  | enter a grant =>
    cases grant with
    | false => exact absurd rfl hne
    | true => exact Or.inl ⟨a, rfl, he rfl, rfl⟩
  | nominate h => exact absurd rfl hne
  | depart i =>
    have ha : s.present[i]? = some s.present[i] := List.getElem?_eq_getElem he
    generalize s.present[i] = a at ha
    have hd := depart_spec ha
    have hholder := hs.depart_holder ha
    change (s.depart i).holder ≠ s.holder at hne
    refine Or.inr ⟨a, i, rfl, ha, ?_⟩
    change s.holder = some a ∧ a ∉ (s.depart i).present ∧ (s.depart i).holder = s.heirs.head?
    generalize s.depart i = s' at hd hholder hne
    cases hd with
    | remains h => exact absurd rfl hne
    | left h _ => exact absurd rfl hne
    | vacated h hheld _ => exact ⟨hheld, h, hholder hheld h⟩
    | inherited b h hheld _ => exact ⟨hheld, h, hholder hheld h⟩

theorem mem_heirs_depart {s : Seat α} {i : Nat} {h : α} (hmem : h ∈ (s.depart i).heirs) :
    h ∈ s.heirs := by
  cases ha : s.present[i]? with
  | none => simpa [depart, ha] using hmem
  | some a =>
    have hd := depart_spec ha
    generalize s.depart i = s' at hd hmem
    cases hd with
    | remains _ => exact hmem
    | left _ _ => exact List.mem_of_mem_filter hmem
    | vacated _ _ _ => exact List.mem_of_mem_filter hmem
    | inherited b _ _ _ => exact List.mem_of_mem_filter (List.mem_of_mem_filter hmem)

theorem mem_heirs_apply {s : Seat α} {e : Event α} {h : α} (hmem : h ∈ (s.apply e).heirs) :
    h ∈ s.heirs ∨ e = .nominate h := by
  cases e with
  | enter a grant => exact Or.inl hmem
  | nominate x =>
    simp only [Seat.apply, List.mem_append, List.mem_filter, List.mem_singleton] at hmem
    rcases hmem with hmem | rfl
    · exact Or.inl hmem.1
    · exact Or.inr rfl
  | depart i => exact Or.inl (mem_heirs_depart hmem)

end Seat

end CommandCenter.Library
