import CommandCenter.Library.Index
import CommandCenter.Storage.Characters
import CommandCenter.Storage.Transparency

/-!
# The indexes of the reference store agree

`MemoryStorage` keeps its accounts under their ids and an index of their folded names, a counter
that numbers them, and one list of all characters. The `u64` counter comes round after 2^64
accounts. Until then an id is never handed out twice, and everything hangs together.

* `MemoryStorage.Consistent`: what hangs together in a store.
* `Ledger.Sound.answer`: a call keeps it, while the counter has not come round.
* `Ledger.indexes_agree`: the result for every run.
* `Ledger.reissued`: a run in which the counter comes round and an id is issued twice.
-/

namespace CommandCenter.Storage

open Rust CommandCenter.Core Library

/-- The name that an account is found by. -/
def Account.folded (a : Account) : Text := a.name.toAsciiLowercase

namespace MemoryStorage

/-- The two indexes are inverse to each other, no two accounts share a folded name, character
names are unique and every character has its account. -/
structure Consistent (s : MemoryStorage) : Prop where
  inverse : ∀ folded id, s.byName.lookup folded = some id ↔
    ∃ a, s.accounts.lookup id = some a ∧ a.folded = folded
  names : ∀ id₁ id₂ a₁ a₂, s.accounts.lookup id₁ = some a₁ → s.accounts.lookup id₂ = some a₂ →
    a₁.folded = a₂.folded → id₁ = id₂
  characters : (s.characterList.map key).Nodup
  owners : ∀ c ∈ s.characterList, ∃ a, s.accounts.lookup c.account = some a ∧ a.id = c.account

structure Indexed (s : MemoryStorage) : Prop where
  tidy : s.Tidy
  index : Indexes Account.folded s.accounts s.byName

variable {s : MemoryStorage}

theorem Indexed.consistent (h : s.Indexed) : s.Consistent where
  inverse folded id := by
    constructor
    · exact h.index.entries folded id
    · rintro ⟨a, ha, rfl⟩
      exact h.index.named id a ha
  names id₁ id₂ a₁ a₂ h₁ h₂ hname := by
    by_contra hne
    exact h.index.name_ne h₁ h₂ hne hname
  characters := h.tidy.names
  owners c hc := by
    obtain ⟨a, ha⟩ := Finmap.mem_iff.mp (h.tidy.owners c hc)
    exact ⟨a, ha, h.tidy.ids _ a ha⟩

theorem indexed_new : new.Indexed := ⟨tidy_new, .empty⟩

/-! ## The calls -/

theorem Indexed.setCredential (h : s.Indexed) (id : AccountId) (credential : Credential) :
    (s.setCredential id credential).2.Indexed := by
  unfold MemoryStorage.setCredential
  split
  · exact h
  · rename_i account hlookup
    refine ⟨⟨h.tidy.names, fun c hc => ?_, fun x a ha => ?_⟩, h.index.replace hlookup rfl⟩
    · exact Finmap.mem_insert.mpr (Or.inr (h.tidy.owners c hc))
    · by_cases hx : x = id
      · subst hx
        rw [Finmap.lookup_insert] at ha
        rw [← Option.some.inj ha]
        exact h.tidy.ids x account hlookup
      · rw [Finmap.lookup_insert_of_ne _ hx] at ha
        exact h.tidy.ids x a ha

theorem Indexed.deleteAccount (h : s.Indexed) (id : AccountId) :
    (s.deleteAccount id).2.Indexed := by
  refine ⟨tidy_deleteAccount h.tidy id, ?_⟩
  change Indexes Account.folded (s.accounts.erase id) _
  cases hlookup : s.accounts.lookup id with
  | none =>
    simp only [MemoryStorage.deleteAccount, hlookup]
    rw [Map.erase_of_notMem (Finmap.lookup_eq_none.mp hlookup)]
    exact h.index
  | some account =>
    simp only [MemoryStorage.deleteAccount, hlookup]
    exact h.index.erase hlookup

/-- An account is entered under an id that no account has. -/
theorem Indexed.enroll (h : s.Indexed) (req : NewAccount)
    (hname : req.name.toAsciiLowercase ∉ s.byName) (hid : (s.enroll req).1.id ∉ s.accounts) :
    Indexes Account.folded (s.enroll req).2.accounts (s.enroll req).2.byName := by
  have hput := (h.index.put_iff (s.enroll req).1.id (s.enroll req).1).mpr fun holder hholder => by
    exact absurd (Finmap.mem_of_lookup_eq_some hholder) hname
  rw [Finmap.lookup_eq_none.mpr hid] at hput
  exact hput

theorem Indexed.answer (h : s.Indexed) {c : Call} (hcreate : ∀ req, c ≠ .createAccount req) :
    (Storage.answer s c).2.Indexed := by
  cases c with
  | createAccount req => exact absurd rfl (hcreate req)
  | setCredential id credential => exact h.setCredential id credential
  | deleteAccount id => exact h.deleteAccount id
  | attrsGet id keys =>
    change (s.attrsGet id keys).2.Indexed
    rw [attrsGet_eq]
    exact h
  | attrsPut id attrs =>
    change (s.attrsPut id attrs).2.Indexed
    unfold MemoryStorage.attrsPut
    split
    · exact h
    · exact ⟨⟨h.tidy.names, h.tidy.owners, h.tidy.ids⟩, h.index⟩
  | banPut | banClear => exact ⟨⟨h.tidy.names, h.tidy.owners, h.tidy.ids⟩, h.index⟩
  | createCharacter character =>
    refine ⟨tidy_createCharacter h.tidy character, ?_⟩
    change Indexes _ (s.createCharacter character).2.accounts (s.createCharacter character).2.byName
    unfold MemoryStorage.createCharacter
    split
    · exact h.index
    · split
      · exact h.index
      · exact h.index
  | updateCharacter character =>
    refine ⟨tidy_updateCharacter h.tidy character, ?_⟩
    change Indexes _ (s.updateCharacter character).2.accounts (s.updateCharacter character).2.byName
    rw [updateCharacter_eq h.tidy.names]
    exact h.index
  | deleteCharacter account name => exact ⟨tidy_deleteCharacter h.tidy account name, h.index⟩
  | _ => exact h

end MemoryStorage

/-! ## Runs -/

namespace Ledger

/-- What holds while the counter has not come round. -/
structure Sound (l : Ledger) : Prop where
  indexed : l.store.Indexed
  numbered : l.Numbered
  issued : ∀ id ∈ l.store.accounts, id ∈ l.issued
  nodup : l.issued.Nodup

theorem sound_new : new.Sound where
  indexed := MemoryStorage.indexed_new
  numbered := numbered_new
  issued _ h := absurd h Finmap.notMem_empty
  nodup := List.nodup_nil

theorem mem_accounts_answer {s : MemoryStorage} {c : Call} (hcreate : ∀ req, c ≠ .createAccount req)
    {id : AccountId} (h : id ∈ (Storage.answer s c).2.accounts) : id ∈ s.accounts := by
  cases c with
  | createAccount req => exact absurd rfl (hcreate req)
  | setCredential x credential =>
    change id ∈ (s.setCredential x credential).2.accounts at h
    unfold MemoryStorage.setCredential at h
    split at h
    · exact h
    · rename_i account hlookup
      rcases Finmap.mem_insert.mp h with rfl | h
      · exact Finmap.mem_of_lookup_eq_some hlookup
      · exact h
  | deleteAccount x => exact (Finmap.mem_erase.mp h).2
  | attrsGet x keys =>
    change id ∈ (s.attrsGet x keys).2.accounts at h
    rw [MemoryStorage.attrsGet_eq] at h
    exact h
  | attrsPut x attrs =>
    change id ∈ (s.attrsPut x attrs).2.accounts at h
    unfold MemoryStorage.attrsPut at h
    split at h <;> exact h
  | createCharacter character =>
    change id ∈ (s.createCharacter character).2.accounts at h
    unfold MemoryStorage.createCharacter at h
    split at h
    · exact h
    · split at h <;> exact h
  | updateCharacter character =>
    change id ∈ (s.updateCharacter character).2.accounts at h
    rwa [s.updateCharacter_accounts] at h
  | _ => exact h

theorem Sound.createAccount {l : Ledger} (h : l.Sound) (req : NewAccount)
    (hroom : (l.answer (.createAccount req)).2.issued.length ≤ 2 ^ 64) :
    (l.answer (.createAccount req)).2.Sound := by
  have hnumbered := h.numbered.answer (.createAccount req)
  have htidy := MemoryStorage.tidy_createAccount h.indexed.tidy req
  rcases l.store.createAccount_cases req with ⟨e, hrefused⟩ | henrolled
  · rw [answer_refused (hrefused l.store.attrs)]
    exact h
  · have heq : l.store.createAccount req = (l.store.enroll req).map .ok id :=
      henrolled l.store.attrs
    rw [answer_enrolled heq] at hnumbered hroom ⊢
    rw [heq] at htidy
    have hfresh : (l.store.enroll req).1.id ∉ l.issued :=
      h.numbered.fresh (Nat.lt_of_succ_le hroom)
    have hname : req.name.toAsciiLowercase ∉ l.store.byName := by
      intro htaken
      unfold MemoryStorage.createAccount at heq
      split at heq
      · cases congrArg Prod.fst heq
      · rw [if_pos htaken] at heq
        cases congrArg Prod.fst heq
    refine ⟨⟨htidy, h.indexed.enroll req hname fun hid => hfresh (h.issued _ hid)⟩, hnumbered,
      fun x hx => ?_, List.nodup_cons.mpr ⟨hfresh, h.nodup⟩⟩
    rcases Finmap.mem_insert.mp hx with rfl | hx
    · exact List.mem_cons_self
    · exact List.mem_cons_of_mem _ (h.issued x hx)

theorem Sound.answer {l : Ledger} (h : l.Sound) {c : Call}
    (hroom : (l.answer c).2.issued.length ≤ 2 ^ 64) : (l.answer c).2.Sound := by
  by_cases hcreate : ∃ req, c = .createAccount req
  · obtain ⟨req, rfl⟩ := hcreate
    exact h.createAccount req hroom
  · have hidle : ∀ req, c ≠ .createAccount req := fun req he => hcreate ⟨req, he⟩
    have hnumbered := h.numbered.answer c
    rw [answer_of_idle l hidle] at hnumbered ⊢
    exact ⟨h.indexed.answer hidle, hnumbered,
      fun id hid => h.issued id (mem_accounts_answer hidle hid), h.nodup⟩

/-- **The indexes of the reference store agree.** Along every run in which `create_account`
succeeds at most 2^64 times: the index of names and the accounts are inverse to each other, no two
accounts share a folded name, character names are unique and every character's owner exists; and
no id is issued twice. -/
theorem indexes_agree (calls : List Call)
    (hfew : (after answer new calls).issued.length ≤ 2 ^ 64) :
    (after Storage.answer MemoryStorage.new calls).Consistent ∧
      (after answer new calls).issued.Nodup := by
  have hroom := along_of_le (fun l : Ledger => l.issued.length) length_issued_le hfew
  have hsound : (after answer new calls).Sound :=
    (hroom.always (P := Sound) (fun l c hl hc => hl.answer hc) sound_new).last
  have hstore : (after answer new calls).store = after Storage.answer MemoryStorage.new calls :=
    after_store new calls
  rw [← hstore]
  exact ⟨hsound.indexed.consistent, hsound.nodup⟩

/-! ## When the counter comes round -/

theorem mem_issued_answer {l : Ledger} {id : AccountId} (h : id ∈ l.issued) (c : Call) :
    id ∈ (l.answer c).2.issued := by
  change id ∈ issue l.issued (Storage.answer l.store c).1
  unfold issue
  split
  · exact List.mem_cons_of_mem _ h
  · exact h

theorem issued_twice {n : Nat} (hn : (n + 2) % 2 ^ 64 = 1) :
    ¬ (after answer new (WriteBehind.reissue n)).issued.Nodup := by
  have hstart : WriteBehind.Churned (after Storage.answer MemoryStorage.new
      [.createAccount WriteBehind.zealot, .attrsPut 1 (WriteBehind.location "here".toList)]) 0 :=
    ⟨rfl, by decide⟩
  have hchurned : WriteBehind.Churned (after answer new
      ([.createAccount WriteBehind.zealot, .attrsPut 1 (WriteBehind.location "here".toList)] ++
        WriteBehind.churn n)).store n := by
    rw [after_store, after_append]
    exact WriteBehind.churned_run hstart n
  have hfirst : 1 ∈ (after answer new
      ([.createAccount WriteBehind.zealot, .attrsPut 1 (WriteBehind.location "here".toList)] ++
        WriteBehind.churn n)).issued := by
    rw [after_append]
    refine run_invariant (P := fun l : Ledger => 1 ∈ l.issued)
      (fun l c h => mem_issued_answer h c) ?_ _
    decide
  rw [WriteBehind.reissue, after_append]
  generalize after answer new _ = l at hchurned hfirst
  obtain ⟨hcreate, hid⟩ := hchurned.enrolled (WriteBehind.location "there".toList)
  have hanswer : (after answer l [.createAccount
      (WriteBehind.newcomer (WriteBehind.location "there".toList))]).issued = _ :=
    congrArg (fun r : Reply × Ledger => r.2.issued) (answer_enrolled hcreate)
  rw [hanswer]
  intro hnodup
  refine (List.nodup_cons.mp hnodup).1 ?_
  rw [hid, hn]
  exact hfirst

/-- The first account's id is issued again while the account is still there. -/
theorem reissued : ¬ (after answer new (WriteBehind.reissue (2 ^ 64 - 1))).issued.Nodup :=
  issued_twice (by omega)

/-- One account, created and deleted, and another. -/
theorem indexes_agree_zealot :
    (after Storage.answer MemoryStorage.new [.createAccount WriteBehind.zealot,
      .deleteAccount 1, .createAccount WriteBehind.zealot]).Consistent :=
  (indexes_agree [.createAccount WriteBehind.zealot, .deleteAccount 1,
    .createAccount WriteBehind.zealot] (by decide)).1

end Ledger

end CommandCenter.Storage
