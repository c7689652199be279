import CommandCenter.Daemon.Lobby
import CommandCenter.Formats.D2s
import CommandCenter.Storage.Characters

/-!
# The end of a ladder season

What the storage actor does for `EndLadderSeason` and `AllCharacters`, from
`crates/bnetccd/src/storage.rs`: it walks the accounts, 500 at a time, and the characters of each.

* `endLadderSeason_eq`: every character is ended, and nothing else happens.
-/

namespace CommandCenter.Daemon

open Rust CommandCenter.Core Proto.D2 Formats.D2s
open Storage (Account Character CharacterStore MemoryStorage Result StorageError)
open Storage.MemoryStorage (key Tidy updated updateCharacter_eq isCharacter isCharacter_iff)

def accountPage : Nat := 500

def accountIds (s : MemoryStorage) : List AccountId := s.accounts.keys.sort

theorem mem_accountIds {s : MemoryStorage} {id : AccountId} :
    id ∈ accountIds s ↔ id ∈ s.accounts := by
  rw [accountIds, Finset.mem_sort, Finmap.mem_keys]

theorem listAccounts_ids {s : MemoryStorage} (h : s.Tidy) (offset : Nat) :
    ∃ page, s.listAccounts offset accountPage = (.ok page, s) ∧
      page.map Account.id = ((accountIds s).drop offset).take accountPage := by
  refine ⟨_, rfl, ?_⟩
  have hids : ∀ ids : List AccountId, (∀ id ∈ ids, id ∈ s.accounts) →
      (ids.filterMap fun id => s.accounts.lookup id).map Account.id = ids := by
    intro ids hids
    induction ids with
    | nil => rfl
    | cons id ids ih =>
      obtain ⟨a, ha⟩ := Finmap.mem_iff.mp (hids id List.mem_cons_self)
      rw [List.filterMap_cons_some (f := fun id => s.accounts.lookup id) ha, List.map_cons,
        h.ids id a ha,
        ih fun other hother => hids other (List.mem_cons_of_mem _ hother)]
  apply hids
  intro id hid
  exact mem_accountIds.mp (List.mem_of_mem_drop (List.mem_of_mem_take hid))

theorem length_listAccounts {s s' : MemoryStorage} {offset : Nat} {page : List Account}
    (h : s.listAccounts offset accountPage = (.ok page, s')) :
    s' = s ∧ page.length ≤ (accountIds s).length - offset := by
  obtain ⟨hpage, rfl⟩ := Prod.mk.inj h
  refine ⟨rfl, ?_⟩
  obtain rfl := Except.ok.inj hpage
  refine le_trans (List.length_filterMap_le _ _) ?_
  rw [List.length_take, List.length_drop]
  exact min_le_right _ _

/-! ## The walk -/

/-- Every realm character, account by account, from the account at `offset`. -/
def allCharactersFrom (s : MemoryStorage) (offset : Nat) : List Character :=
  match _h : s.listAccounts offset accountPage with
  | (.error _, _) | (.ok [], _) => []
  | (.ok (account :: page), _) =>
    ((account :: page).flatMap fun account => (s.characters account.id).1.toOption.getD []) ++
      allCharactersFrom s (offset + (account :: page).length)
termination_by (accountIds s).length - offset
decreasing_by
  have := (length_listAccounts _h).2
  simp only [List.length_cons] at this ⊢
  omega

/-- Every realm character, account by account. -/
def allCharacters (s : CharacterStore) : List Character := allCharactersFrom s.store 0

/-- A character off the ladder, in the realm and in its save. -/
def offLadder (c : Character) : Character :=
  { c with
    status := c.status &&& ~~~ Status.ladder
    save := match c.save.map Save.parse with
      | some (.ok save) => some (save.setStatus (save.status &&& ~~~ Status.ladder)).toBytes
      | some (.error _) | none => c.save }

/-- How many softcore and hardcore characters changed. -/
abbrev Changed := UInt32 × UInt32

def Changed.count (n : Changed) (c : Character) : Changed :=
  if hasBit c.status Status.hardcore then (n.1, n.2 + 1) else (n.1 + 1, n.2)

/-- The characters of an account leave the ladder. -/
def endCharacters (n : Changed) : List Character → MemoryStorage → Result Changed × MemoryStorage
  | [], s => (.ok n, s)
  | c :: rest, s =>
    if !hasBit c.status Status.ladder then endCharacters n rest s
    else
      match s.updateCharacter (offLadder c) with
      | (.ok _, s) => endCharacters (n.count (offLadder c)) rest s
      | (.error e, s) => (.error e, s)

def endAccounts (n : Changed) : List Account → MemoryStorage → Result Changed × MemoryStorage
  | [], s => (.ok n, s)
  | account :: rest, s =>
    match s.characters account.id with
    | (.error e, s) => (.error e, s)
    | (.ok characters, s) =>
      match endCharacters n characters s with
      | (.ok n, s) => endAccounts n rest s
      | (.error e, s) => (.error e, s)

theorem endCharacters_accounts (n : Changed) (cs : List Character) (s : MemoryStorage) :
    (endCharacters n cs s).2.accounts = s.accounts := by
  induction cs generalizing n s with
  | nil => rfl
  | cons c rest ih =>
    rw [endCharacters]
    split
    · exact ih n s
    · have hupdate := s.updateCharacter_accounts (offLadder c)
      split
      · rename_i s' heq
        rw [ih, ← hupdate, heq]
      · rename_i s' heq
        rw [← hupdate, heq]

theorem endAccounts_accounts (n : Changed) (accounts : List Account) (s : MemoryStorage) :
    (endAccounts n accounts s).2.accounts = s.accounts := by
  induction accounts generalizing n s with
  | nil => rfl
  | cons account rest ih =>
    rw [endAccounts]
    show (match endCharacters n _ s with
      | (.ok n, s) => endAccounts n rest s
      | (.error e, s) => (.error e, s)).2.accounts = s.accounts
    have hend :=
      endCharacters_accounts n (s.characterList.filter fun c => c.account == account.id) s
    split
    · rename_i s' heq
      rw [ih, ← hend, heq]
    · rename_i s' heq
      rw [← hend, heq]

/-- The season ends for the accounts from `offset`. -/
def endSeasonFrom (n : Changed) (offset : Nat) (s : MemoryStorage) :
    Result Changed × MemoryStorage :=
  match _hpage : s.listAccounts offset accountPage with
  | (.error e, s) => (.error e, s)
  | (.ok [], s) => (.ok n, s)
  | (.ok (account :: page), s) =>
    match _hend : endAccounts n (account :: page) s with
    | (.ok n, s) => endSeasonFrom n (offset + (account :: page).length) s
    | (.error e, s) => (.error e, s)
termination_by (accountIds s).length - offset
decreasing_by
  obtain ⟨rfl, hlen⟩ := length_listAccounts _hpage
  have hacc := congrArg (fun r => r.2.accounts) _hend
  rw [endAccounts_accounts] at hacc
  dsimp only at hacc
  simp only [List.length_cons, accountIds, ← hacc] at hlen ⊢
  omega

def endLadderSeason (s : MemoryStorage) : Result Changed × MemoryStorage :=
  endSeasonFrom (0, 0) 0 s

/-! ## What it does -/

/-- What the end of a season makes of a character. -/
def ended (c : Character) : Character :=
  if hasBit c.status Status.ladder then offLadder c else c

theorem hasBit_clear (status bit : UInt8) : hasBit (status &&& ~~~bit) bit = false := by
  simp [hasBit, UInt8.and_assoc]

@[simp] theorem key_ended (c : Character) : key (ended c) = key c := by
  unfold ended
  split <;> rfl

@[simp] theorem account_ended (c : Character) : (ended c).account = c.account := by
  unfold ended
  split <;> rfl

theorem ladder_ended (c : Character) : hasBit (ended c).status Status.ladder = false := by
  unfold ended
  split
  · exact hasBit_clear _ _
  · rename_i h
    exact Bool.not_eq_true _ ▸ h

theorem ended_ended (c : Character) : ended (ended c) = ended c := by
  rw [ended, ladder_ended]
  rfl

/-- The save, where it can be read, says that the character is on the ladder. -/
def SavedOnLadder (c : Character) : Prop :=
  ∃ bytes ∈ c.save, ∃ save, Save.parse bytes = .ok save ∧ hasBit save.status Status.ladder = true

theorem not_savedOnLadder_offLadder (c : Character) : ¬ SavedOnLadder (offLadder c) := by
  rintro ⟨bytes, hbytes, save, hparse, hladder⟩
  simp only [offLadder, Option.mem_def] at hbytes
  cases hsave : c.save with
  | none =>
    rw [hsave] at hbytes
    cases hbytes
  | some old =>
    rw [hsave] at hbytes
    simp only [Option.map_some] at hbytes
    cases hold : Save.parse old with
    | error e =>
      rw [hold] at hbytes
      obtain rfl := Option.some.inj hbytes
      rw [hold] at hparse
      cases hparse
    | ok was =>
      rw [hold] at hbytes
      obtain rfl := Option.some.inj hbytes
      have hstatus := (Save.status_of_parse hparse).symm.trans (Save.status_toBytes _)
      rw [Option.some.inj hstatus, Save.status_setStatus, hasBit_clear] at hladder
      cases hladder

def withCharacters (s : MemoryStorage) (f : Character → Character) : MemoryStorage :=
  { s with characterList := s.characterList.map f }

theorem tidy_withCharacters {s : MemoryStorage} (h : s.Tidy) {f : Character → Character}
    (hkey : ∀ c, key (f c) = key c) (haccount : ∀ c, (f c).account = c.account) :
    (withCharacters s f).Tidy := h.map hkey haccount rfl rfl

theorem withCharacters_congr {s : MemoryStorage} {f g : Character → Character}
    (h : ∀ c ∈ s.characterList, f c = g c) : withCharacters s f = withCharacters s g :=
  congrArg (fun l => { s with characterList := l }) (List.map_congr_left h)

theorem withCharacters_id {s : MemoryStorage} {f : Character → Character}
    (h : ∀ c ∈ s.characterList, f c = c) : withCharacters s f = s := by
  rw [withCharacters_congr (g := id) h]
  exact congrArg (fun l => { s with characterList := l }) (List.map_id _)

theorem withCharacters_withCharacters (s : MemoryStorage) (f g : Character → Character) :
    withCharacters (withCharacters s f) g = withCharacters s (g ∘ f) :=
  congrArg (fun l => { s with characterList := l }) (List.map_map ..)

theorem update_stored {s : MemoryStorage} (h : s.Tidy) {c : Character}
    (hc : c ∈ s.characterList) : s.updateCharacter (offLadder c) =
      (.ok true, withCharacters s fun d => if d = c then offLadder c else d) := by
  have hcharacter {d : Character} (hd : d ∈ s.characterList) :
      isCharacter c.account c.name d = true ↔ d = c := by
    constructor
    · intro hmatch
      exact h.eq_of_key hd hc (isCharacter_iff.mp hmatch).2
    · rintro rfl
      exact isCharacter_iff.mpr ⟨rfl, rfl⟩
  rw [updateCharacter_eq h.names]
  refine Prod.ext_iff.mpr ⟨congrArg Except.ok ?_, withCharacters_congr fun d hd => ?_⟩
  · exact List.any_eq_true.mpr ⟨c, hc, (hcharacter hc).mpr rfl⟩
  · by_cases hdc : d = c
    · subst hdc
      rw [if_pos rfl]
      exact if_pos ((hcharacter hd).mpr rfl)
    · rw [if_neg hdc]
      exact if_neg fun hmatch => hdc ((hcharacter hd).mp hmatch)

theorem endCharacters_eq (n : Changed) {cs : List Character} {s : MemoryStorage} (h : s.Tidy)
    (hcs : ∀ c ∈ cs, c ∈ s.characterList) (hkeys : (cs.map key).Nodup) :
    ∃ n', endCharacters n cs s =
      (.ok n', withCharacters s fun d => if d ∈ cs then ended d else d) := by
  induction cs generalizing n s with
  | nil => exact ⟨n, congrArg _ (withCharacters_id fun c _ => by simp).symm⟩
  | cons c rest ih =>
    have hc : c ∈ s.characterList := hcs c List.mem_cons_self
    obtain ⟨hfresh, hrest⟩ := List.nodup_cons.mp hkeys
    rw [endCharacters]
    split
    · rename_i hladder
      obtain ⟨n', heq⟩ := ih n h (fun d hd => hcs d (List.mem_cons_of_mem _ hd)) hrest
      refine ⟨n', heq.trans (congrArg _ (withCharacters_congr fun d _ => ?_))⟩
      by_cases hd : d = c
      · subst hd
        have hsame : ended d = d := if_neg (by simpa using hladder)
        simp [hsame]
      · simp [hd]
    · rename_i hladder
      have hended : ended c = offLadder c := if_pos (by simpa using hladder)
      let f : Character → Character := fun d => if d = c then offLadder c else d
      have hf {d : Character} (hd : d ∈ rest) : f d = d := by
        refine if_neg fun hdc => hfresh ?_
        rw [← hdc]
        exact List.mem_map_of_mem hd
      have hkey (d : Character) : key (f d) = key d ∧ (f d).account = d.account := by
        by_cases hd : d = c
        · subst hd
          have hoff : f d = offLadder d := if_pos rfl
          rw [hoff]
          exact ⟨rfl, rfl⟩
        · have hsame : f d = d := if_neg hd
          rw [hsame]
          exact ⟨rfl, rfl⟩
      rw [update_stored h hc]
      obtain ⟨n', heq⟩ := ih (n.count (offLadder c))
        (tidy_withCharacters h (fun d => (hkey d).1) fun d => (hkey d).2)
        (fun d hd => List.mem_map.mpr ⟨d, hcs d (List.mem_cons_of_mem _ hd), hf hd⟩) hrest
      refine ⟨n', heq.trans ?_⟩
      rw [withCharacters_withCharacters]
      refine congrArg _ (withCharacters_congr fun d _ => ?_)
      by_cases hd : d = c
      · -- what is off the ladder now is none of the others
        subst hd
        have hnot : f d ∉ rest := by
          intro hmem
          refine hfresh ?_
          rw [← (hkey d).1]
          exact List.mem_map_of_mem hmem
        rw [Function.comp_apply, if_neg hnot, if_pos List.mem_cons_self, hended]
        exact if_pos rfl
      · have hsame : f d = d := if_neg hd
        simp only [Function.comp_apply, hsame, List.mem_cons, hd, false_or]

theorem endAccounts_eq (n : Changed) (accounts : List Account) {s : MemoryStorage} (h : s.Tidy) :
    ∃ n', endAccounts n accounts s = (.ok n', withCharacters s fun d =>
      if d.account ∈ accounts.map Account.id then ended d else d) := by
  induction accounts generalizing n s with
  | nil => exact ⟨n, congrArg _ (withCharacters_id fun c _ => by simp).symm⟩
  | cons account rest ih =>
    have howned := (List.filter_sublist (l := s.characterList)
      (p := fun c => c.account == account.id))
    obtain ⟨n₁, heq⟩ := endCharacters_eq n h (fun c hc => howned.subset hc)
      (h.names.sublist (howned.map key))
    obtain ⟨n₂, hrest⟩ := ih n₁ (s := withCharacters s fun d =>
      if d ∈ s.characterList.filter (fun c => c.account == account.id) then ended d else d)
      (tidy_withCharacters h (fun d => by split <;> simp) fun d => by split <;> simp)
    refine ⟨n₂, ?_⟩
    rw [endAccounts]
    dsimp only [MemoryStorage.characters]
    rw [heq]
    dsimp only
    rw [hrest, withCharacters_withCharacters]
    refine congrArg _ (withCharacters_congr fun d hd => ?_)
    by_cases hmine : d.account = account.id
    · have hmem : d ∈ s.characterList.filter fun c => c.account == account.id :=
        List.mem_filter.mpr ⟨hd, by simpa using hmine⟩
      rw [Function.comp_apply, if_pos hmem, account_ended, ended_ended, ite_self,
        if_pos (by simp [hmine])]
    · have hnot : d ∉ s.characterList.filter fun c => c.account == account.id :=
        fun hmem => hmine (by simpa using (List.mem_filter.mp hmem).2)
      rw [Function.comp_apply, if_neg hnot]
      simp only [List.map_cons, List.mem_cons, hmine, false_or]

section Walk

variable {n n₁ : Changed} {offset : Nat} {s s₁ s₂ : MemoryStorage} {account : Account}
  {page : List Account}

theorem endSeasonFrom_nil (hpage : s.listAccounts offset accountPage = (.ok [], s₁)) :
    endSeasonFrom n offset s = (.ok n, s₁) := by
  rw [endSeasonFrom]
  split
  · rename_i heq
    rw [hpage] at heq
    cases heq
  · rename_i heq
    rw [hpage] at heq
    cases heq
    rfl
  · rename_i heq
    rw [hpage] at heq
    cases heq

theorem endSeasonFrom_cons
    (hpage : s.listAccounts offset accountPage = (.ok (account :: page), s₁))
    (hend : endAccounts n (account :: page) s₁ = (.ok n₁, s₂)) :
    endSeasonFrom n offset s = endSeasonFrom n₁ (offset + (account :: page).length) s₂ := by
  rw [endSeasonFrom]
  split
  · rename_i heq
    rw [hpage] at heq
    cases heq
  · rename_i heq
    rw [hpage] at heq
    cases heq
  · rename_i heq
    rw [hpage] at heq
    cases heq
    split
    · rename_i heq
      rw [hend] at heq
      cases heq
      rfl
    · rename_i heq
      rw [hend] at heq
      cases heq

end Walk

/-- From an offset on, the characters of the accounts that are left leave the ladder. -/
theorem endSeasonFrom_eq (n : Changed) (offset : Nat) {s : MemoryStorage} (h : s.Tidy) :
    ∃ n', endSeasonFrom n offset s = (.ok n', withCharacters s fun d =>
      if d.account ∈ (accountIds s).drop offset then ended d else d) := by
  generalize hleft : (accountIds s).length - offset = left
  induction left using Nat.strongRecOn generalizing n offset s with
  | ind left ih =>
    obtain ⟨page, hpage, hids⟩ := listAccounts_ids h offset
    cases page with
    | nil =>
      have hnil : (accountIds s).drop offset = [] := by
        rcases List.take_eq_nil_iff.mp hids.symm with h0 | hnil
        · exact absurd h0 (by decide)
        · exact hnil
      refine ⟨n, (endSeasonFrom_nil hpage).trans (congrArg _ (withCharacters_id ?_).symm)⟩
      intro c _
      rw [hnil]
      exact if_neg List.not_mem_nil
    | cons account page =>
      obtain ⟨n₁, hend⟩ := endAccounts_eq n (account :: page) h
      rw [hids] at hend
      have hlen := congrArg List.length hids
      simp only [List.length_map, List.length_cons, List.length_take, List.length_drop] at hlen
      let f : Character → Character := fun d =>
        if d.account ∈ ((accountIds s).drop offset).take accountPage then ended d else d
      have hf (d : Character) : key (f d) = key d ∧ (f d).account = d.account := by
        simp only [f]
        split <;> simp
      obtain ⟨n₂, hrest⟩ := ih ((accountIds s).length - (offset + (page.length + 1)))
        (by omega) n₁ (offset + (page.length + 1))
        (tidy_withCharacters h (fun d => (hf d).1) fun d => (hf d).2) rfl
      refine ⟨n₂, (endSeasonFrom_cons hpage hend).trans (hrest.trans ?_)⟩
      rw [withCharacters_withCharacters]
      refine congrArg _ (withCharacters_congr fun d _ => ?_)
      -- the page and what is after it are all that is left
      have hmem : d.account ∈ (accountIds s).drop offset ↔
          d.account ∈ ((accountIds s).drop offset).take accountPage ∨
            d.account ∈ (accountIds s).drop (offset + (page.length + 1)) := by
        rw [List.take_eq_take_min, List.length_drop, ← hlen, ← List.drop_drop, ← List.mem_append,
          List.take_append_drop]
      by_cases hnow : d.account ∈ ((accountIds s).drop offset).take accountPage
      · have hended : f d = ended d := if_pos hnow
        rw [Function.comp_apply, if_pos (hmem.mpr (Or.inl hnow))]
        rw [hended, ended_ended, ite_self]
      · have hsame : f d = d := if_neg hnow
        rw [Function.comp_apply, hsame]
        exact if_congr (hmem.trans (or_iff_right hnow)).symm rfl rfl

/-- **The season is over** for every character, and nothing else happens. -/
theorem endLadderSeason_eq {s : MemoryStorage} (h : s.Tidy) :
    ∃ n, endLadderSeason s = (.ok n, withCharacters s ended) := by
  obtain ⟨n, heq⟩ := endSeasonFrom_eq (0, 0) 0 h
  refine ⟨n, heq.trans (congrArg _ (withCharacters_congr fun c hc => if_pos ?_))⟩
  exact mem_accountIds.mpr (h.owners c hc)

theorem tidy_endLadderSeason {s : MemoryStorage} (h : s.Tidy) : (endLadderSeason s).2.Tidy := by
  obtain ⟨n, heq⟩ := endLadderSeason_eq h
  rw [heq]
  exact tidy_withCharacters h key_ended account_ended

end CommandCenter.Daemon
