import CommandCenter.Core.ChannelStep
import CommandCenter.Daemon.NameClaims
import CommandCenter.Library.Run
import CommandCenter.Storage.AccountNames

/-!
# Who is the operator of `Op <name>`

The grant of such a channel goes to the base name of whoever enters: what is shown, without a
numeric suffix. The node adds such suffixes to names that are in use, but an account may have one
of its own. A suffix is a natural number here and not a `u32` (`ActiveNames.claimName`).

* `baseName_claimName`: the base name of a claimed name is the account's, unless the account is
  shown under a name of its own that ends like a suffix.
* `Visit.grantsNamed_iff`: a join grants operator to the named account only, or is an impostor's.
* `operator_named`: the runs of a channel.
-/

namespace CommandCenter.Daemon

open Rust CommandCenter.Core Library Storage

abbrev AccountName := { name : Text // validateAccountName name = .ok () }

/-! ## The base of a claimed name -/

theorem claimName_cases (names : ActiveNames) (base : Text) :
    ∃ n, (names.claimName base).1 = nameCandidate base n := by
  unfold ActiveNames.claimName
  dsimp only
  generalize hfind : ((List.range (names.card + 1)).map (nameCandidate base)).find?
    (fun name => name.toAsciiLowercase ∉ names) = found
  cases found with
  | none => exact ⟨0, rfl⟩
  | some name =>
    obtain ⟨n, _, hn⟩ := List.mem_map.mp (List.mem_of_find?_eq_some hfind)
    exact ⟨n, hn.symm⟩

/-- The suffix of the node comes off again. -/
theorem baseName_nameCandidate (base : Text) (n : Nat) :
    Channel.baseName (nameCandidate base (n + 1)) = base := by
  have hdigits {c : Char} (hc : c ∈ Nat.toDigits 10 (n + 2)) : c.isDigit = true :=
    isDigit_of_mem_digits hc
  have hnone : '#' ∉ Nat.toDigits 10 (n + 2) := fun hmem => absurd (hdigits hmem) (by decide)
  have hne : Nat.toDigits 10 (n + 2) ≠ [] := Nat.toDigits_ne_nil
  rw [nameCandidate, Channel.baseName, Text.rsplitOnce_append base hnone]
  refine if_pos (Bool.and_eq_true_iff.mpr ⟨?_, List.all_eq_true.mpr fun c hc => hdigits hc⟩)
  cases hcase : Nat.toDigits 10 (n + 2) with
  | nil => exact absurd hcase hne
  | cons c cs => rfl

/-- The base name of a claimed name is the account's, or the account is shown under its own name. -/
theorem baseName_claimName (names : ActiveNames) (base : Text) :
    Channel.baseName (names.claimName base).1 = base ∨ (names.claimName base).1 = base := by
  obtain ⟨n, hn⟩ := claimName_cases names base
  rw [hn]
  cases n with
  | zero => exact Or.inr rfl
  | succ n => exact Or.inl (baseName_nameCandidate base n)

theorem length_eq_of_eqIgnoreAsciiCase {s t : Text} (h : s.eqIgnoreAsciiCase t = true) :
    s.length = t.length := by
  have hlength := congrArg List.length (Text.eqIgnoreAsciiCase_iff.mp h)
  rwa [Text.toAsciiLowercase, Text.toAsciiLowercase, List.length_map, List.length_map] at hlength

theorem baseName_eq_of_length {name : Text}
    (h : (Channel.baseName name).length = name.length) : Channel.baseName name = name := by
  unfold Channel.baseName at h ⊢
  split
  · rename_i base suffix hsplit
    rw [hsplit] at h
    dsimp only at h
    split
    · rename_i hdigits
      rw [if_pos hdigits, (Text.rsplitOnce_spec hsplit).1, List.length_append,
        List.length_cons] at h
      omega
    · rfl
  · rfl

/-! ## A channel and its visitors -/

/-- The calls that neither let a member in nor change the grant. -/
def LeavesGrant : Channel.Op → Prop
  | .join _ _ _ _ | .setOpGrant _ => False
  | _ => True

/-- What happens to a channel: an account joins, by the name that the node gives it, or another
operation is called. -/
inductive Visit where
  | join (account : AccountId) (name : AccountName) (names : ActiveNames) (baseFlags : UInt32)
      (statstring : List UInt8)
  | call (op : Channel.Op) (h : LeavesGrant op)

namespace Visit

def op : Visit → Channel.Op
  | .join account name names baseFlags statstring =>
    .join account (names.claimName name.1).1 baseFlags statstring
  | .call op _ => op

def step (c : Channel) (visit : Visit) : Channel := c.step visit.op

/-- Only the account of this name is granted operator. -/
def GrantsNamed (opName : Text) (c : Channel) : Visit → Prop
  | .join account name names baseFlags statstring =>
    ∀ outcome, (c.join account (names.claimName name.1).1 baseFlags statstring).1 = .ok outcome →
      outcome.grantedOperator = true → name.1.eqIgnoreAsciiCase opName = true
  | .call _ _ => True

/-- An account is let in under its own name, which is the granted one with a numeric suffix, while
nobody is operator. -/
def Impostor (opName : Text) (c : Channel) : Visit → Prop
  | .join account name names _ _ =>
    c.joinDenial account (names.claimName name.1).1 = none ∧ c.operator = none ∧
      (names.claimName name.1).1 = name.1 ∧ Channel.baseName name.1 ≠ name.1 ∧
      (Channel.baseName name.1).eqIgnoreAsciiCase opName = true
  | .call _ _ => False

variable {opName : Text} {c : Channel}

theorem opGrant_step (hgrant : c.opGrant = .nameMatch opName) (visit : Visit) :
    (step c visit).opGrant = .nameMatch opName := by
  rw [← hgrant]
  cases visit with
  | join account name names baseFlags statstring => exact c.opGrant_step_of_ne nofun
  | call op h =>
    refine c.opGrant_step_of_ne fun opGrant hop => ?_
    have hset : op = .setOpGrant opGrant := hop
    rw [hset] at h
    exact h

theorem grantsNamed_iff (hgrant : c.opGrant = .nameMatch opName) (visit : Visit) :
    GrantsNamed opName c visit ↔ ¬ Impostor opName c visit := by
  cases visit with
  | call op h => exact ⟨fun _ himpostor => himpostor, fun _ => trivial⟩
  | join account name names baseFlags statstring =>
    obtain ⟨name, hvalid⟩ := name
    constructor
    · rintro hnamed ⟨hadmitted, hvacant, hshown, hsuffix, hbase⟩
      have hgranted : c.grantsOperator (names.claimName name).1 = true :=
        Channel.grantsOperator_iff.mpr ⟨hvacant, Or.inr ⟨opName, hgrant, hshown.symm ▸ hbase⟩⟩
      have hsame : name.eqIgnoreAsciiCase opName = true := by
        have hjoin : (c.join account (names.claimName name).1 baseFlags statstring).1 =
            .ok ⟨c.grantsOperator (names.claimName name).1,
              c.joinFlags (names.claimName name).1 baseFlags⟩ := by rw [Channel.join, hadmitted]
        exact hnamed _ hjoin hgranted
      have hlength := length_eq_of_eqIgnoreAsciiCase hbase
      rw [← length_eq_of_eqIgnoreAsciiCase hsame] at hlength
      exact hsuffix (baseName_eq_of_length hlength)
    · intro himpostor outcome hjoin hgranted
      rw [Channel.join] at hjoin
      split at hjoin
      · cases hjoin
      · rename_i hadmitted
        obtain rfl := Except.ok.inj hjoin
        obtain ⟨hvacant, hmatch⟩ := Channel.grantsOperator_iff.mp hgranted
        have hbase :
            (Channel.baseName (names.claimName name).1).eqIgnoreAsciiCase opName = true := by
          rcases hmatch with ⟨hfirst, _⟩ | ⟨opName', hname, hbase⟩
          · rw [hgrant] at hfirst
            cases hfirst
          · rw [hgrant] at hname
            rwa [OpGrant.nameMatch.inj hname]
        rcases baseName_claimName names name with hown | hshown
        · rwa [hown] at hbase
        · by_contra hother
          rw [hshown] at hbase
          refine himpostor ⟨hadmitted, hvacant, hshown, fun hsame => ?_, hbase⟩
          rw [hsame] at hbase
          exact hother hbase

/-- **Only the named account is granted operator** in the runs that let no impostor in, and in no
others. -/
theorem operator_named (opName : Text) (c : Channel) (hgrant : c.opGrant = .nameMatch opName)
    (visits : List Visit) : Along step (GrantsNamed opName) c visits ↔
      Along step (fun c visit => ¬ Impostor opName c visit) c visits := by
  have hkept (c : Channel) (visit : Visit) (h : c.opGrant = .nameMatch opName) :
      (step c visit).opGrant = .nameMatch opName := opGrant_step h visit
  constructor
  · exact Along.along (fun c visit hc _ => hkept c visit hc)
      (fun c visit hc => (grantsNamed_iff hc visit).mp) hgrant
  · exact Along.along (fun c visit hc _ => hkept c visit hc)
      (fun c visit hc => (grantsNamed_iff hc visit).mpr) hgrant

def opChannel (opName : Text) : Channel :=
  (Channel.new [] ("Op ".toList ++ opName) .local 0).setOpGrant (.nameMatch opName)

/-- The account itself joins, shown with a suffix. -/
theorem operator_named_fish : Along step (GrantsNamed "Fish".toList) (opChannel "Fish".toList)
    [.join 1 ⟨"fish".toList, rfl⟩ {"fish".toList} 0 []] :=
  (operator_named _ (opChannel "Fish".toList) rfl _).mpr
    ⟨fun h => absurd h.2.2.1 (by decide), trivial⟩

/-- An account whose name ends like a suffix is granted operator of another's channel. -/
theorem operator_misnamed : ¬ ∀ opName (c : Channel), c.opGrant = .nameMatch opName →
    ∀ visits, Along step (GrantsNamed opName) c visits := by
  intro h
  have hnamed := (h "Fish".toList (opChannel "Fish".toList) rfl
    [.join 1 ⟨"Fish#2".toList, rfl⟩ ∅ 0 []]).1 _ rfl (by decide)
  exact absurd hnamed (by decide)

end Visit

end CommandCenter.Daemon
