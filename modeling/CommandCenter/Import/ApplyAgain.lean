import CommandCenter.Import.Apply

/-!
# Running an import again

Two stores are alike if they differ in nothing but the times of their bans and characters and the
ids of their characters. A run beside one that completes goes through stores that are alike; where
it ends, an account or a character of the plan is either done or untouched, with one exception: an
account whose ban is yet to be put.

* `applyAccount_taken`, `applyCharacter_settled`: what is done is left as it is.
* `applyAccount_alike`, `applyCharacter_alike`: what is not done is done as it would have been.
* `apply_resumes`: what a run leaves after one that was stopped, and after one that was not.
-/

namespace CommandCenter.Import

open Rust CommandCenter.Core Storage Library

/-! ## Stores that are alike -/

/-- A ban but for when it was applied. -/
def withoutAppliedAt (row : BanRow) : BanRow := { row with appliedAt := 0 }

/-- A character but for when it was created. -/
def withoutCreatedAt (row : CharacterRow) : CharacterRow := { row with createdAt := 0 }

/-- The stores agree on their accounts, attributes, bans and characters, whatever the times at which
bans were applied and characters created. -/
structure Alike (s t : SqliteStorage) : Prop where
  accounts : s.accounts = t.accounts
  accountSeq : s.accountSeq = t.accountSeq
  attrs : s.attrs = t.attrs
  bans : s.bans.map withoutAppliedAt = t.bans.map withoutAppliedAt
  characters : s.characterRows.map withoutCreatedAt = t.characterRows.map withoutCreatedAt

/-- Nothing has changed but perhaps the ids that characters have used up. -/
def Untouched (s s' : SqliteStorage) : Prop := ∃ seq, s' = { s with characterSeq := seq }

namespace Alike

variable {s t u : SqliteStorage}

theorem refl (s : SqliteStorage) : Alike s s := ⟨rfl, rfl, rfl, rfl, rfl⟩

theorem symm (h : Alike s t) : Alike t s :=
  ⟨h.accounts.symm, h.accountSeq.symm, h.attrs.symm, h.bans.symm, h.characters.symm⟩

theorem trans (h : Alike s t) (h' : Alike t u) : Alike s u :=
  ⟨h.accounts.trans h'.accounts, h.accountSeq.trans h'.accountSeq, h.attrs.trans h'.attrs,
    h.bans.trans h'.bans, h.characters.trans h'.characters⟩

theorem hasAccount (h : Alike s t) (id : AccountId) : s.hasAccount id = t.hasAccount id := by
  rw [SqliteStorage.hasAccount, h.accounts]
  rfl

end Alike

theorem Untouched.refl (s : SqliteStorage) : Untouched s s := ⟨s.characterSeq, rfl⟩

theorem Untouched.trans {s t u : SqliteStorage} (h : Untouched s t) (h' : Untouched t u) :
    Untouched s u := by
  obtain ⟨seq, rfl⟩ := h
  obtain ⟨seq', rfl⟩ := h'
  exact ⟨seq', rfl⟩

theorem Untouched.alike {s t : SqliteStorage} (h : Untouched s t) : Alike t s := by
  obtain ⟨seq, rfl⟩ := h
  exact ⟨rfl, rfl, rfl, rfl, rfl⟩

/-! ## The storage calls -/

/-- The account that has a name, in any case. -/
def accountNamed (s : SqliteStorage) (name : Text) : Option AccountRow :=
  selectKey AccountRow.nameLower name.toAsciiLowercase s.accounts

/-- The character that has a name, in any case. -/
def characterNamed (s : SqliteStorage) (name : Text) : Option CharacterRow :=
  selectKey CharacterRow.nameLower name.toAsciiLowercase s.characterRows

def newRow (req : NewAccount) (id : Int) : AccountRow :=
  ⟨id, req.name, req.name.toAsciiLowercase, credentialColumns req.credential,
    asI64 req.createdAt⟩

section Calls

variable {s s' t t' : SqliteStorage}

theorem insertAttrs_error {id : Int} {attrs : List (Σ _ : AttrKey, Text)} {rows : List AttrRow}
    {e : StorageError} (h : insertAttrs id rows attrs = .error e) : e ≠ .nameTaken := by
  induction attrs generalizing rows with
  | nil => cases h
  | cons attr rest ih =>
    rw [insertAttrs] at h
    split at h
    · exact ih h
    · cases h
      intro heq
      cases heq

theorem validateRealm_error {realm : Text} {e : StorageError} (h : validateRealm realm = .error e) :
    e ≠ .nameTaken := by
  rintro rfl
  unfold validateRealm at h
  split at h
  · cases h
  · split at h <;> cases h

theorem validateBareName_error {name : Text} {e : StorageError}
    (h : validateBareName name = .error e) : e ≠ .nameTaken := by
  rintro rfl
  unfold validateBareName at h
  repeat' split at h
  all_goals cases h

theorem validateAccountName_error {name : Text} {e : StorageError}
    (h : validateAccountName name = .error e) : e ≠ .nameTaken := by
  unfold validateAccountName at h
  split at h
  · rename_i base realm _
    cases hrealm : validateRealm realm with
    | error e' =>
      rw [hrealm] at h
      cases h
      exact validateRealm_error hrealm
    | ok _ =>
      rw [hrealm] at h
      exact validateBareName_error h
  · exact validateBareName_error h

theorem createAccount_taken (req : NewAccount) (h : accountNamed s req.name ≠ none) :
    ∃ e, s.createAccount req = (.error e, s) := by
  unfold SqliteStorage.createAccount
  split
  · exact ⟨_, rfl⟩
  · split
    · exact ⟨_, rfl⟩
    · rename_i id _
      have htaken : insertOrIgnore AccountRow.nameLower (newRow req id) s.accounts = none :=
        if_pos (Option.ne_none_iff_isSome.mp h)
      rw [newRow] at htaken
      rw [htaken]
      exact ⟨_, rfl⟩

theorem createAccount_error {req : NewAccount} {e : StorageError}
    (h : s.createAccount req = (.error e, s')) :
    s' = s ∧ (e = .nameTaken → accountNamed s req.name ≠ none) := by
  unfold SqliteStorage.createAccount at h
  split at h
  · rename_i hvalid
    cases h
    exact ⟨rfl, fun heq => absurd heq (validateAccountName_error hvalid)⟩
  · split at h
    · rename_i hfull
      cases h
      refine ⟨rfl, ?_⟩
      rintro rfl
      unfold autoincrement at hfull
      split at hfull <;> cases hfull
    · split at h
      · rename_i hinsert
        cases h
        obtain ⟨row, hrow⟩ := insertOrIgnore_eq_none hinsert
        exact ⟨rfl, fun _ => Option.ne_none_iff_exists'.mpr ⟨row, hrow⟩⟩
      · split at h
        · rename_i hattrs
          cases h
          refine ⟨rfl, fun heq => ?_⟩
          split at hattrs
          · cases hattrs
          · exact absurd heq (insertAttrs_error hattrs)
        · cases h

theorem createAccount_ok {req : NewAccount} {a : Account}
    (h : s.createAccount req = (.ok a, s')) :
    accountNamed s req.name = none ∧ a.name = req.name ∧
      (∃ id, s'.accounts = s.accounts ++ [newRow req id] ∧ a.id = asU64 id) ∧
      s'.bans = s.bans ∧ s'.characterRows = s.characterRows := by
  unfold SqliteStorage.createAccount at h
  split at h
  · cases h
  · split at h
    · cases h
    · rename_i id _
      split at h
      · cases h
      · rename_i accounts hinsert
        split at h
        · cases h
        · cases h
          obtain ⟨hfree, hrows⟩ := insertOrIgnore_eq_some hinsert
          exact ⟨hfree, rfl, ⟨id, hrows, rfl⟩, rfl, rfl⟩

theorem createAccount_alike (h : Alike s t) (req : NewAccount) :
    (s.createAccount req).1 = (t.createAccount req).1 ∧
      Alike (s.createAccount req).2 (t.createAccount req).2 := by
  unfold SqliteStorage.createAccount
  rw [h.accounts, h.accountSeq, h.attrs]
  split
  · exact ⟨rfl, h⟩
  · split
    · exact ⟨rfl, h⟩
    · split
      · exact ⟨rfl, h⟩
      · split
        · exact ⟨rfl, h⟩
        · exact ⟨rfl, rfl, rfl, rfl, h.bans, h.characters⟩

theorem banPut_alike (h : Alike s t) (id : AccountId) (scope : BanScope) (reason : Text)
    (first second : Nat) (expiresAt : Option Nat) :
    (s.banPut ⟨id, scope, reason, first, expiresAt⟩).1 =
        (t.banPut ⟨id, scope, reason, second, expiresAt⟩).1 ∧
      Alike (s.banPut ⟨id, scope, reason, first, expiresAt⟩).2
        (t.banPut ⟨id, scope, reason, second, expiresAt⟩).2 := by
  unfold SqliteStorage.banPut
  rw [h.hasAccount]
  split
  · refine ⟨rfl, h.accounts, h.accountSeq, h.attrs, ?_, h.characters⟩
    have hupsert (row : BanRow) (rows : List BanRow) :
        (upsert BanRow.primaryKey row rows).map withoutAppliedAt =
          upsert BanRow.primaryKey (withoutAppliedAt row) (rows.map withoutAppliedAt) :=
      upsert_map withoutAppliedAt fun _ => rfl
    simp only [hupsert, h.bans]
    simp only [withoutAppliedAt, banRow]
  · exact ⟨rfl, h⟩

theorem banPut_ok {ban : Ban} (h : s.banPut ban = (.ok (), s')) :
    s'.accounts = s.accounts ∧ s'.characterRows = s.characterRows := by
  unfold SqliteStorage.banPut at h
  split at h
  · cases h
    exact ⟨rfl, rfl⟩
  · cases h

theorem characterNamed_alike (h : Alike s t) (name : Text) :
    characterNamed s name = none ↔ characterNamed t name = none := by
  have hmap (rows : List CharacterRow) :
      selectKey CharacterRow.nameLower name.toAsciiLowercase (rows.map withoutCreatedAt) =
        (selectKey CharacterRow.nameLower name.toAsciiLowercase rows).map withoutCreatedAt :=
    selectKey_map withoutCreatedAt fun _ _ => Iff.rfl
  have heq := hmap s.characterRows
  rw [h.characters, hmap] at heq
  rw [characterNamed, characterNamed, ← Option.map_eq_none_iff (f := withoutCreatedAt), ← heq,
    Option.map_eq_none_iff]

theorem createCharacter_error {c : Character} {e : StorageError}
    (h : s.createCharacter c = (.error e, s')) :
    Untouched s s' ∧ (e = .nameTaken → characterNamed s c.name ≠ none) := by
  unfold SqliteStorage.createCharacter at h
  split at h
  · rename_i hfull
    cases h
    refine ⟨Untouched.refl s, ?_⟩
    rintro rfl
    unfold autoincrement at hfull
    split at hfull <;> cases hfull
  · rename_i id _
    split at h
    · rename_i hinsert
      cases h
      obtain ⟨row, hrow⟩ := insertOrIgnore_eq_none hinsert
      refine ⟨?_, fun _ => Option.ne_none_iff_exists'.mpr ⟨row, hrow⟩⟩
      split
      · exact ⟨id, rfl⟩
      · exact Untouched.refl s
    · split at h
      · cases h
      · cases h
        exact ⟨Untouched.refl s, nofun⟩

theorem createCharacter_ok {c : Character} (h : s.createCharacter c = (.ok (), s')) :
    characterNamed s c.name = none ∧ s'.accounts = s.accounts ∧
      s'.accountSeq = s.accountSeq ∧ s'.attrs = s.attrs ∧ s'.bans = s.bans ∧
      s'.characterRows = s.characterRows ++ [characterRow c] := by
  unfold SqliteStorage.createCharacter at h
  split at h
  · cases h
  · split at h
    · cases h
    · rename_i rows hinsert
      split at h
      · cases h
        obtain ⟨hfree, hrows⟩ := insertOrIgnore_eq_some hinsert
        exact ⟨hfree, rfl, rfl, rfl, rfl, hrows⟩
      · cases h

end Calls

/-! ## One account -/

section Accounts

variable {attempt whole : Attempt} {i : Nat} {account : PlannedAccount}
  {out out' out₂ out₂' : Applied} {s s' t t' : SqliteStorage}

theorem call_eq_ok {α : Type} {point : Point} {f : SqliteStorage → Result α × SqliteStorage} {a : α}
    (h : attempt.call point f s = (.ok a, s')) : attempt.stop ≠ some point ∧ f s = (.ok a, s') := by
  unfold Attempt.call at h
  split at h
  · cases h
  · rename_i hgoes
    exact ⟨hgoes, h⟩

theorem call_eq_nameTaken {α : Type} {point : Point}
    {f : SqliteStorage → Result α × SqliteStorage}
    (h : attempt.call point f s = (.error .nameTaken, s')) : f s = (.error .nameTaken, s') := by
  unfold Attempt.call at h
  split at h
  · cases h
  · exact h

theorem call_of_goes {α : Type} {point : Point} (f : SqliteStorage → Result α × SqliteStorage)
    (hgoes : attempt.stop ≠ some point) : attempt.call point f s = f s := if_neg hgoes

theorem putBan_ok {id : AccountId} (h : attempt.putBan i account id s = (.ok (), s')) :
    s'.accounts = s.accounts ∧ s'.characterRows = s.characterRows := by
  unfold Attempt.putBan at h
  split at h
  · cases h
    exact ⟨rfl, rfl⟩
  · exact banPut_ok (call_eq_ok h).2

theorem putBan_alike {id : AccountId} (h : Alike s t)
    (hs : attempt.putBan i account id s = (.ok (), s'))
    (ht : whole.putBan i account id t = (.ok (), t')) : Alike s' t' := by
  unfold Attempt.putBan at hs ht
  split at hs
  · rename_i hban
    rw [hban] at ht
    cases hs
    cases ht
    exact h
  · rename_i reason expiresAt hban
    rw [hban] at ht
    have halike := (banPut_alike h id .node reason (attempt.clock (.banPut i))
      (whole.clock (.banPut i)) expiresAt).2
    rw [(call_eq_ok hs).2, (call_eq_ok ht).2] at halike
    exact halike

/-- A ban is put wherever it would have been put, unless the program is stopped just there. -/
theorem putBan_goes {id : AccountId} (h : Alike s t) (hgoes : attempt.stop ≠ some (.banPut i))
    (ht : whole.putBan i account id t = (.ok (), t')) :
    ∃ s', attempt.putBan i account id s = (.ok (), s') := by
  unfold Attempt.putBan at ht ⊢
  split
  · exact ⟨s, rfl⟩
  · rename_i reason expiresAt hban
    rw [hban] at ht
    have hreply := (banPut_alike h id .node reason (attempt.clock (.banPut i))
      (whole.clock (.banPut i)) expiresAt).1
    rw [(call_eq_ok ht).2] at hreply
    rw [call_of_goes _ hgoes]
    exact ⟨(s.banPut _).2, Prod.ext hreply rfl⟩

theorem applyAccount_cases (h : attempt.applyAccount i account out s = (.ok out', s')) :
    accountNamed s account.name ≠ none ∧ s' = s ∧ out'.ids = out.ids ∨
      ∃ created u, s.createAccount account.request = (.ok created, u) ∧
        attempt.putBan i account created.id u = (.ok (), s') ∧
        out'.ids = out.ids.insert account.name.toAsciiLowercase created.id := by
  unfold Attempt.applyAccount at h
  split at h
  · rename_i created u hcreate
    have hcreated := (call_eq_ok hcreate).2
    split at h
    · cases h
    · rename_i hput
      cases h
      refine Or.inr ⟨created, u, hcreated, hput, ?_⟩
      rw [(createAccount_ok hcreated).2.1]
      rfl
  · rename_i u hcreate
    cases h
    obtain ⟨rfl, htaken⟩ := createAccount_error (call_eq_nameTaken hcreate)
    exact Or.inl ⟨htaken rfl, rfl, rfl⟩
  · cases h

/-- An account whose name is taken is left as it is. -/
theorem applyAccount_taken (attempt : Attempt) (i : Nat) (out : Applied)
    (h : accountNamed s account.name ≠ none) :
    (attempt.applyAccount i account out s).2 = s ∧
      ∀ out', (attempt.applyAccount i account out s).1 = .ok out' → out'.ids = out.ids := by
  obtain ⟨e, herror⟩ := createAccount_taken account.request h
  have hcall : ∃ e, attempt.call (.createAccount i)
      (fun s => s.createAccount account.request) s = (.error e, s) := by
    unfold Attempt.call
    split
    · exact ⟨_, rfl⟩
    · exact ⟨e, herror⟩
  obtain ⟨e, hcall⟩ := hcall
  unfold Attempt.applyAccount
  rw [hcall]
  cases e with
  | nameTaken =>
    refine ⟨rfl, fun out' hout => ?_⟩
    cases hout
    rfl
  | noSuchAccount => exact ⟨rfl, fun out' hout => by cases hout⟩
  | invalidName why => exact ⟨rfl, fun out' hout => by cases hout⟩
  | backend message => exact ⟨rfl, fun out' hout => by cases hout⟩

theorem applyAccount_named (h : attempt.applyAccount i account out s = (.ok out', s')) :
    accountNamed s' account.name ≠ none := by
  rcases applyAccount_cases h with ⟨htaken, rfl, _⟩ | ⟨created, u, hcreate, hput, _⟩
  · exact htaken
  · obtain ⟨_, _, ⟨id, hrows, _⟩, _⟩ := createAccount_ok hcreate
    have hnew : selectKey AccountRow.nameLower account.name.toAsciiLowercase
        [newRow account.request id] = some (newRow account.request id) :=
      selectKey_singleton.trans (if_pos rfl)
    rw [accountNamed, (putBan_ok hput).1, hrows, selectKey_append, hnew, Option.ne_none_iff_isSome,
      Option.isSome_or, Option.isSome_some, Bool.or_true]

theorem applyAccount_grows (h : attempt.applyAccount i account out s = (.ok out', s')) :
    (∃ more, s'.accounts = s.accounts ++ more) ∧ s'.characterRows = s.characterRows := by
  rcases applyAccount_cases h with ⟨_, rfl, _⟩ | ⟨created, u, hcreate, hput, _⟩
  · exact ⟨⟨[], (List.append_nil _).symm⟩, rfl⟩
  · obtain ⟨_, _, ⟨id, hrows, _⟩, _, hcharacters⟩ := createAccount_ok hcreate
    refine ⟨⟨[newRow account.request id], ?_⟩, ?_⟩
    · rw [(putBan_ok hput).1, hrows]
    · rw [(putBan_ok hput).2, hcharacters]

/-- The ids after a turn that may have made an account. -/
def withId (ids : Map Text AccountId) : Option (Text × AccountId) → Map Text AccountId
  | none => ids
  | some (name, id) => ids.insert name id

theorem lookup_withId (ids : Map Text AccountId) (new : Option (Text × AccountId)) (name : Text) :
    (withId ids new).lookup name = ((withId ∅ new).lookup name).or (ids.lookup name) := by
  cases new with
  | none => rfl
  | some new =>
    unfold withId
    by_cases hname : name = new.1
    · rw [hname, Finmap.lookup_insert, Finmap.lookup_insert, Option.some_or]
    · rw [Finmap.lookup_insert_of_ne _ hname, Finmap.lookup_insert_of_ne _ hname,
        Finmap.lookup_empty, Option.none_or]

/-- In stores that are alike, two turns do the same. -/
theorem applyAccount_alike (h : Alike s t)
    (hs : attempt.applyAccount i account out s = (.ok out', s'))
    (ht : whole.applyAccount i account out₂ t = (.ok out₂', t')) :
    Alike s' t' ∧ ∃ new, out'.ids = withId out.ids new ∧ out₂'.ids = withId out₂.ids new := by
  have hnamed : accountNamed s account.name = accountNamed t account.name := by
    rw [accountNamed, h.accounts]
    rfl
  have hcreate := createAccount_alike h account.request
  rcases applyAccount_cases hs with ⟨htaken, rfl, hids⟩ | ⟨created, u, hcreated, hput, hids⟩
  · rcases applyAccount_cases ht with ⟨_, rfl, hids₂⟩ | ⟨created, v, hcreated, _⟩
    · exact ⟨h, none, hids, hids₂⟩
    · exact absurd (createAccount_ok hcreated).1 (hnamed ▸ htaken)
  · rcases applyAccount_cases ht with ⟨htaken, _⟩ | ⟨created₂, v, hcreated₂, hput₂, hids₂⟩
    · exact absurd (createAccount_ok hcreated).1 (hnamed.symm ▸ htaken)
    · rw [hcreated, hcreated₂] at hcreate
      obtain ⟨hsame, halike⟩ := hcreate
      cases hsame
      exact ⟨putBan_alike halike hput hput₂, some (_, created.id), hids, hids₂⟩

/-- A turn beside one that goes on: it goes on as well, unless the program is stopped, and then
before anything is changed. -/
theorem applyAccount_stopped (out : Applied) (h : Alike s t)
    (hban : attempt.stop ≠ some (.banPut i))
    (ht : whole.applyAccount i account out₂ t = (.ok out₂', t')) :
    (∃ out' s', attempt.applyAccount i account out s = (.ok out', s')) ∨
      ∃ e, attempt.applyAccount i account out s = (.error e, s) := by
  by_cases hstop : attempt.stop = some (.createAccount i)
  · refine Or.inr ⟨.backend "interrupted".toList, ?_⟩
    rw [Attempt.applyAccount, Attempt.call, if_pos hstop]
  · refine Or.inl ?_
    have hcreate := createAccount_alike h account.request
    unfold Attempt.applyAccount at ht ⊢
    rw [call_of_goes _ hstop]
    split at ht
    · rename_i created v hcreated
      rw [(call_eq_ok hcreated).2] at hcreate
      have hcreated' : s.createAccount account.request =
          (.ok created, (s.createAccount account.request).2) := Prod.ext hcreate.1 rfl
      rw [hcreated']
      split at ht
      · cases ht
      · rename_i v' hput
        obtain ⟨u, hput'⟩ := putBan_goes hcreate.2 hban hput
        dsimp only
        rw [hput']
        exact ⟨_, _, rfl⟩
    · rename_i v hcreated
      rw [call_eq_nameTaken hcreated] at hcreate
      have hcreated' : s.createAccount account.request =
          (.error .nameTaken, (s.createAccount account.request).2) := Prod.ext hcreate.1 rfl
      rw [hcreated']
      exact ⟨_, _, rfl⟩
    · cases ht

end Accounts

/-! ## One character -/

/-- The account a character goes to, if the accounts with these ids are new. -/
def ownerIn (s : SqliteStorage) (ids : Map Text AccountId) (c : PlannedCharacter) :
    Result (Option AccountId) :=
  match ids.lookup c.account.toAsciiLowercase with
  | some id => .ok (some id)
  | none =>
    (s.accountByName c.account).1.map fun found => (found.filter isXsha1).map Account.id

/-- A character that is not created any more: its name is taken, or it has no account. -/
def Settled (c : PlannedCharacter) (ids : Map Text AccountId) (s : SqliteStorage) : Prop :=
  characterNamed s c.name ≠ none ∨ ownerIn s ids c = .ok none

section Characters

variable {attempt whole : Attempt} {j : Nat} {c : PlannedCharacter} {ids : Map Text AccountId}
  {out out' out₂ out₂' : Applied} {s s' t t' : SqliteStorage}

theorem accountByName_store (s : SqliteStorage) (name : Text) : (s.accountByName name).2 = s := by
  unfold SqliteStorage.accountByName SqliteStorage.accountWhere
  split <;> rfl

theorem accountByName_congr (h : s.accounts = t.accounts) (name : Text) :
    (s.accountByName name).1 = (t.accountByName name).1 := by
  unfold SqliteStorage.accountByName SqliteStorage.accountWhere
  rw [h]
  split <;> rfl

theorem ownerIn_congr (h : s.accounts = t.accounts) (ids : Map Text AccountId)
    (c : PlannedCharacter) : ownerIn s ids c = ownerIn t ids c := by
  rw [ownerIn, ownerIn, accountByName_congr h]

theorem owner_eq (attempt : Attempt) (j : Nat) (ids : Map Text AccountId) (c : PlannedCharacter)
    (s : SqliteStorage) :
    (attempt.owner j ids c s).2 = s ∧
      ∀ o, (attempt.owner j ids c s).1 = .ok o → ownerIn s ids c = .ok o := by
  have hstore := accountByName_store s c.account
  unfold Attempt.owner ownerIn
  cases ids.lookup c.account.toAsciiLowercase with
  | some id => exact ⟨rfl, fun o ho => ho⟩
  | none =>
    dsimp only
    unfold Attempt.call
    split
    · rename_i hcall
      refine ⟨?_, fun o ho => by cases ho⟩
      split at hcall
      · cases hcall
        rfl
      · have hfound : s.accountByName c.account = _ := hcall
        rw [hfound] at hstore
        exact hstore
    · rename_i found u hcall
      split at hcall
      · cases hcall
      · have hfound : s.accountByName c.account = _ := hcall
        rw [hfound] at hstore ⊢
        exact ⟨hstore, fun o ho => ho⟩

/-- A turn that goes on. -/
theorem applyCharacter_cases (h : attempt.applyCharacter j c out s = (.ok out', s')) :
    out'.ids = out.ids ∧
      (ownerIn s out.ids c = .ok none ∧ s' = s ∨
        ∃ account, ownerIn s out.ids c = .ok (some account) ∧
          (characterNamed s c.name ≠ none ∧ Untouched s s' ∨
            s.createCharacter (attempt.character j c account) = (.ok (), s'))) := by
  obtain ⟨hstore, howner⟩ := owner_eq attempt j out.ids c s
  unfold Attempt.applyCharacter at h
  split at h
  · cases h
  · rename_i u heq
    rw [heq] at hstore howner
    obtain rfl : s = u := hstore.symm
    cases h
    exact ⟨rfl, Or.inl ⟨howner none rfl, rfl⟩⟩
  · rename_i account u heq
    rw [heq] at hstore howner
    obtain rfl : s = u := hstore.symm
    have haccount := howner (some account) rfl
    split at h
    · rename_i v hcreate
      cases h
      exact ⟨rfl, Or.inr ⟨account, haccount, Or.inr (call_eq_ok hcreate).2⟩⟩
    · rename_i v hcreate
      cases h
      obtain ⟨huntouched, htaken⟩ := createCharacter_error (call_eq_nameTaken hcreate)
      exact ⟨rfl, Or.inr ⟨account, haccount, Or.inl ⟨htaken rfl, huntouched⟩⟩⟩
    · cases h

theorem applyCharacter_error {e : StorageError}
    (h : attempt.applyCharacter j c out s = (.error e, s')) : Untouched s s' := by
  obtain ⟨hstore, _⟩ := owner_eq attempt j out.ids c s
  unfold Attempt.applyCharacter at h
  split at h
  · rename_i u heq
    rw [heq] at hstore
    obtain rfl : s = u := hstore.symm
    cases h
    exact Untouched.refl s
  · cases h
  · rename_i account u heq
    rw [heq] at hstore
    obtain rfl : s = u := hstore.symm
    split at h
    · cases h
    · cases h
    · rename_i hcall
      cases h
      unfold Attempt.call at hcall
      split at hcall
      · cases hcall
        exact Untouched.refl s
      · exact (createCharacter_error hcall).1

/-- A character that is settled is left as it is. -/
theorem applyCharacter_settled (attempt : Attempt) (j : Nat) (h : Settled c out.ids s) :
    Untouched s (attempt.applyCharacter j c out s).2 ∧
      ∀ out', (attempt.applyCharacter j c out s).1 = .ok out' → out'.ids = out.ids := by
  cases hturn : attempt.applyCharacter j c out s with
  | mk reply s' =>
    cases reply with
    | error e => exact ⟨applyCharacter_error hturn, fun out' hout => by cases hout⟩
    | ok out' =>
      obtain ⟨hids, hcase⟩ := applyCharacter_cases hturn
      refine ⟨?_, fun out₁ hout => by cases hout; exact hids⟩
      rcases hcase with ⟨_, rfl⟩ | ⟨account, haccount, ⟨_, huntouched⟩ | hcreate⟩
      · exact Untouched.refl s'
      · exact huntouched
      · rcases h with htaken | hnone
        · exact absurd (createCharacter_ok hcreate).1 htaken
        · rw [haccount] at hnone
          cases hnone

theorem applyCharacter_grows (h : attempt.applyCharacter j c out s = (.ok out', s')) :
    s'.accounts = s.accounts ∧ ∃ more, s'.characterRows = s.characterRows ++ more := by
  rcases (applyCharacter_cases h).2 with ⟨_, rfl⟩ | ⟨account, _, ⟨_, seq, rfl⟩ | hcreate⟩
  · exact ⟨rfl, [], (List.append_nil _).symm⟩
  · exact ⟨rfl, [], (List.append_nil _).symm⟩
  · obtain ⟨_, haccounts, _, _, _, hrows⟩ := createCharacter_ok hcreate
    exact ⟨haccounts, _, hrows⟩

theorem Settled.mono (h : Settled c ids s) (haccounts : t.accounts = s.accounts)
    (hrows : ∃ more, t.characterRows = s.characterRows ++ more) : Settled c ids t := by
  rcases h with htaken | hnone
  · obtain ⟨more, hmore⟩ := hrows
    refine Or.inl ?_
    rw [characterNamed, hmore, selectKey_append, Option.ne_none_iff_isSome, Option.isSome_or,
      Bool.or_eq_true]
    exact Or.inl (Option.ne_none_iff_isSome.mp htaken)
  · exact Or.inr ((ownerIn_congr haccounts ids c).trans hnone)

theorem applyCharacter_settles (h : attempt.applyCharacter j c out s = (.ok out', s')) :
    Settled c out'.ids s' := by
  obtain ⟨hids, hcase⟩ := applyCharacter_cases h
  rw [hids]
  rcases hcase with ⟨hnone, rfl⟩ | ⟨account, _, ⟨htaken, huntouched⟩ | hcreate⟩
  · exact Or.inr hnone
  · obtain ⟨seq, rfl⟩ := huntouched
    exact Or.inl htaken
  · refine Or.inl ?_
    obtain ⟨_, _, _, _, _, hrows⟩ := createCharacter_ok hcreate
    have hnew : selectKey CharacterRow.nameLower c.name.toAsciiLowercase
        [characterRow (attempt.character j c account)] =
          some (characterRow (attempt.character j c account)) :=
      selectKey_singleton.trans (if_pos rfl)
    rw [characterNamed, hrows, selectKey_append, hnew, Option.ne_none_iff_isSome,
      Option.isSome_or, Option.isSome_some, Bool.or_true]

/-- In stores that are alike, two turns do the same for a character that goes to the same
account. -/
theorem applyCharacter_alike (h : Alike s t)
    (howner : characterNamed s c.name = none → ownerIn s out.ids c = ownerIn t out₂.ids c)
    (hs : attempt.applyCharacter j c out s = (.ok out', s'))
    (ht : whole.applyCharacter j c out₂ t = (.ok out₂', t')) : Alike s' t' := by
  by_cases hfree : characterNamed s c.name = none
  · have howner := howner hfree
    have hfree₂ := (characterNamed_alike h c.name).mp hfree
    rcases (applyCharacter_cases hs).2 with
      ⟨hnone, rfl⟩ | ⟨account, haccount, ⟨htaken, _⟩ | hcreate⟩
    · rcases (applyCharacter_cases ht).2 with ⟨_, rfl⟩ | ⟨account, haccount, _⟩
      · exact h
      · rw [← howner, hnone] at haccount
        cases haccount
    · exact absurd hfree htaken
    · rcases (applyCharacter_cases ht).2 with
        ⟨hnone, _⟩ | ⟨account₂, haccount₂, ⟨htaken, _⟩ | hcreate₂⟩
      · rw [← howner, haccount] at hnone
        cases hnone
      · exact absurd hfree₂ htaken
      · rw [← howner, haccount] at haccount₂
        cases haccount₂
        obtain ⟨_, ha, hseq, hattrs, hbans, hrows⟩ := createCharacter_ok hcreate
        obtain ⟨_, ha₂, hseq₂, hattrs₂, hbans₂, hrows₂⟩ := createCharacter_ok hcreate₂
        refine ⟨?_, ?_, ?_, ?_, ?_⟩
        · rw [ha, ha₂, h.accounts]
        · rw [hseq, hseq₂, h.accountSeq]
        · rw [hattrs, hattrs₂, h.attrs]
        · rw [hbans, hbans₂, h.bans]
        · rw [hrows, hrows₂, List.map_append, List.map_append, h.characters]
          refine congrArg _ ?_
          simp only [List.map_cons, List.map_nil, withoutCreatedAt, characterRow,
            Attempt.character]
  · have hfree₂ : characterNamed t c.name ≠ none :=
      fun hnone => hfree ((characterNamed_alike h c.name).mpr hnone)
    have hs' : Untouched s (attempt.applyCharacter j c out s).2 :=
      (applyCharacter_settled attempt j (Or.inl hfree)).1
    have ht' : Untouched t (whole.applyCharacter j c out₂ t).2 :=
      (applyCharacter_settled whole j (Or.inl hfree₂)).1
    rw [hs] at hs'
    rw [ht] at ht'
    exact hs'.alike.trans (h.trans ht'.alike.symm)

end Characters

/-! ## What a run has made -/

/-- What the ids of the accounts a run has made stand for. -/
structure Made (start : SqliteStorage) (ids : Map Text AccountId) (s : SqliteStorage) : Prop where
  grown : ∃ more, s.accounts = start.accounts ++ more
  rows : ∀ name id, ids.lookup name = some id →
    selectKey AccountRow.nameLower name start.accounts = none ∧
      ∃ row credential, selectKey AccountRow.nameLower name s.accounts = some row ∧
        asU64 row.id = id ∧ row.credential = credentialColumns credential

section Made

variable {attempt whole : Attempt} {i : Nat} {account : PlannedAccount} {c : PlannedCharacter}
  {out out' : Applied} {ids old new : Map Text AccountId} {start s s' t : SqliteStorage}

theorem Made.empty (start : SqliteStorage) : Made start ∅ start where
  grown := ⟨[], (List.append_nil _).symm⟩
  rows name id h := by
    rw [Finmap.lookup_empty] at h
    cases h

theorem Made.congr (h : Made start ids s) (haccounts : t.accounts = s.accounts) :
    Made start ids t := by
  constructor
  · rw [haccounts]
    exact h.grown
  · rw [haccounts]
    exact h.rows

theorem Made.applyAccount (h : Made start out.ids s)
    (hturn : attempt.applyAccount i account out s = (.ok out', s')) : Made start out'.ids s' := by
  rcases applyAccount_cases hturn with ⟨_, rfl, hids⟩ | ⟨created, u, hcreate, hput, hids⟩
  · rw [hids]
    exact h
  · obtain ⟨hfree, _, ⟨number, hrows, hid⟩, _⟩ := createAccount_ok hcreate
    obtain ⟨more, hmore⟩ := h.grown
    have haccounts : s'.accounts = s.accounts ++ [newRow account.request number] := by
      rw [(putBan_ok hput).1, hrows]
    constructor
    · rw [haccounts, hmore, List.append_assoc]
      exact ⟨_, rfl⟩
    · intro name id hlookup
      rw [hids] at hlookup
      by_cases hname : name = account.name.toAsciiLowercase
      · subst hname
        rw [Finmap.lookup_insert] at hlookup
        obtain rfl := Option.some.inj hlookup
        have hstart := hfree
        rw [accountNamed, hmore, selectKey_append, Option.or_eq_none_iff] at hstart
        refine ⟨hstart.1, newRow account.request number, account.credential, ?_, hid.symm, rfl⟩
        rw [haccounts, selectKey_append]
        have hnone : selectKey AccountRow.nameLower account.name.toAsciiLowercase s.accounts =
            none := hfree
        rw [hnone, Option.none_or, selectKey_singleton]
        exact if_pos rfl
      · rw [Finmap.lookup_insert_of_ne _ hname] at hlookup
        obtain ⟨hstart, row, credential, hrow, hrest⟩ := h.rows name id hlookup
        refine ⟨hstart, row, credential, ?_, hrest⟩
        rw [haccounts, selectKey_append, hrow, Option.some_or]

/-- Accounts that were made before the run stand for themselves, unless they are of WarCraft III. -/
theorem Made.ownerIn_eq (h : Made start old s) (hgrown : ∃ more, t.accounts = s.accounts ++ more)
    (hnames : ∀ name, ids.lookup name = (new.lookup name).or (old.lookup name))
    (hkept : ∀ row, accountNamed s c.account = some row →
      row ∈ start.accounts ∨ row.credential.kind ≠ "srp".toList) :
    ownerIn t new c = ownerIn t ids c := by
  unfold ownerIn
  rw [hnames]
  cases new.lookup c.account.toAsciiLowercase with
  | some id => rfl
  | none =>
    rw [Option.none_or]
    cases hold : old.lookup c.account.toAsciiLowercase with
    | none => rfl
    | some id =>
      obtain ⟨hstart, row, credential, hrow, rfl, hcolumns⟩ := h.rows _ _ hold
      obtain ⟨more, hmore⟩ := hgrown
      have hfound : selectKey AccountRow.nameLower c.account.toAsciiLowercase t.accounts =
          some row := by
        rw [hmore, selectKey_append, hrow, Option.some_or]
      rcases hkept row hrow with hmem | hkind
      · exact absurd (of_selectKey hrow).2 (selectKey_eq_none_iff.mp hstart row hmem)
      · rw [hcolumns] at hkind
        cases credential with
        | srp salt verifier => exact absurd rfl hkind
        | xsha1 digest =>
          have hrow : rowToAccount row =
              .ok ⟨asU64 row.id, row.name, .xsha1 digest, asU64 row.createdAt⟩ := by
            rw [rowToAccount, hcolumns, credentialOf_columns]
            rfl
          dsimp only
          rw [SqliteStorage.accountByName, hfound, SqliteStorage.accountWhere, hrow]
          rfl

end Made

/-! ## The loops -/

section Loops

variable {attempt first whole again : Attempt} {accounts before after : List PlannedAccount}
  {characters early late : List PlannedCharacter} {i j : Nat}
  {out out' out₂ out₂' mid : Applied} {start s s' t t' u w z : SqliteStorage}

theorem accounts_taken (attempt : Attempt) (i : Nat) (out : Applied)
    (htaken : ∀ a ∈ accounts, accountNamed s a.name ≠ none) :
    (forEach attempt.applyAccount i accounts out s).2 = s ∧
      ∀ out', (forEach attempt.applyAccount i accounts out s).1 = .ok out' →
        out'.ids = out.ids := by
  refine forEach_induct
    (P := fun reply t => t = s ∧ ∀ out' : Applied, reply = .ok out' → out'.ids = out.ids) ?_
    ⟨rfl, fun out' h => by cases h; rfl⟩
  rintro i a ha mid t ⟨rfl, hids⟩
  obtain ⟨hstore, hturn⟩ := applyAccount_taken attempt i mid (htaken a ha)
  exact ⟨hstore, fun out' h => (hturn out' h).trans (hids mid rfl)⟩

theorem accounts_named (h : forEach attempt.applyAccount i accounts out s = (.ok out', s')) :
    ∀ a ∈ accounts, accountNamed s' a.name ≠ none := by
  refine forEach_post (P := fun a _ s => accountNamed s a.name ≠ none)
    (fun i a out s out' s' hturn => applyAccount_named hturn) ?_ h
  intro i a b out s out' s' htaken hturn
  obtain ⟨⟨more, hmore⟩, _⟩ := applyAccount_grows hturn
  rw [accountNamed, hmore, selectKey_append, Option.ne_none_iff_isSome, Option.isSome_or,
    Bool.or_eq_true]
  exact Or.inl (Option.ne_none_iff_isSome.mp htaken)

theorem accounts_grow (h : forEach attempt.applyAccount i accounts out s = (.ok out', s')) :
    (∃ more, s'.accounts = s.accounts ++ more) ∧ s'.characterRows = s.characterRows := by
  refine forEach_invariant (I := fun _ t =>
    (∃ more, t.accounts = s.accounts ++ more) ∧ t.characterRows = s.characterRows) ?_
    ⟨⟨[], (List.append_nil _).symm⟩, rfl⟩ h
  rintro i a - out t out' t' ⟨⟨more, hmore⟩, hrows⟩ hturn
  obtain ⟨⟨more', hmore'⟩, hrows'⟩ := applyAccount_grows hturn
  exact ⟨⟨more ++ more', by rw [hmore', hmore, List.append_assoc]⟩, hrows'.trans hrows⟩

theorem accounts_made (h : forEach attempt.applyAccount 0 accounts ⟨0, ∅, 0, []⟩ start =
    (.ok out', s')) : Made start out'.ids s' :=
  forEach_invariant (I := fun out s => Made start out.ids s)
    (fun _ _ _ _ _ _ _ hmade hturn => hmade.applyAccount hturn) (Made.empty start) h

theorem accounts_stopped (hban : ∀ i, first.stop ≠ some (.banPut i))
    (hwhole : forEach whole.applyAccount 0 accounts ⟨0, ∅, 0, []⟩ start = (.ok out₂, t)) :
    (∃ out s, forEach first.applyAccount 0 accounts ⟨0, ∅, 0, []⟩ start = (.ok out, s) ∧
        Alike s t ∧ out.ids = out₂.ids) ∨
      ∃ e s before after mid u, accounts = before ++ after ∧
        forEach first.applyAccount 0 accounts ⟨0, ∅, 0, []⟩ start = (.error e, s) ∧
        forEach whole.applyAccount 0 before ⟨0, ∅, 0, []⟩ start = (.ok mid, u) ∧ Alike s u := by
  refine forEach_stopped
    (R := fun (out : Applied) s (out₂ : Applied) t => Alike s t ∧ out.ids = out₂.ids)
    (E := fun s _ u => Alike s u) ?_ ⟨Alike.refl start, rfl⟩ hwhole
  rintro i a - out s out₂ t out₂' t' ⟨halike, hids⟩ hturn
  rcases applyAccount_stopped out halike (hban i) hturn with ⟨out', s', hgoes⟩ | ⟨e, hstop⟩
  · obtain ⟨halike', new, hnew, hnew₂⟩ := applyAccount_alike halike hgoes hturn
    exact Or.inl ⟨out', s', hgoes, halike', by rw [hnew, hnew₂, hids]⟩
  · exact Or.inr ⟨e, s, hstop, halike⟩

theorem accounts_again
    (hbefore : forEach whole.applyAccount 0 before ⟨0, ∅, 0, []⟩ start = (.ok mid, u))
    (hafter : forEach whole.applyAccount (0 + before.length) after mid u = (.ok out₂, t))
    (halike : Alike s u)
    (hagain : forEach again.applyAccount 0 (before ++ after) ⟨0, ∅, 0, []⟩ s = (.ok out', z)) :
    Alike z t ∧ ∀ name, out₂.ids.lookup name =
      (out'.ids.lookup name).or (mid.ids.lookup name) := by
  obtain ⟨skipped, s', hskip, hrest⟩ := forEach_append.mp hagain
  have htaken (a : PlannedAccount) (ha : a ∈ before) : accountNamed s a.name ≠ none := by
    rw [accountNamed, halike.accounts]
    exact accounts_named hbefore a ha
  have hsame := accounts_taken again 0 ⟨0, ∅, 0, []⟩ htaken
  rw [hskip] at hsame
  obtain ⟨rfl, hids⟩ := hsame
  refine forEach_related (R := fun (out : Applied) s (out₂ : Applied) t => Alike s t ∧
    ∀ name, out₂.ids.lookup name = (out.ids.lookup name).or (mid.ids.lookup name)) ?_
    ⟨halike, fun name => ?_⟩ hrest hafter
  · rintro i a - out s out₂ t out' s' out₂' t' ⟨halike, hnames⟩ hlow hhigh
    obtain ⟨halike', new, hnew, hnew₂⟩ := applyAccount_alike halike hlow hhigh
    refine ⟨halike', fun name => ?_⟩
    rw [hnew, hnew₂, lookup_withId out₂.ids, lookup_withId out.ids, hnames, Option.or_assoc]
  · rw [hids skipped rfl]
    exact Option.none_or.symm

theorem characters_settled (attempt : Attempt) (j : Nat)
    (hsettled : ∀ c ∈ characters, Settled c out.ids s) :
    Untouched s (forEach attempt.applyCharacter j characters out s).2 ∧
      ∀ out', (forEach attempt.applyCharacter j characters out s).1 = .ok out' →
        out'.ids = out.ids := by
  refine forEach_induct
    (P := fun reply t => Untouched s t ∧
      ∀ out' : Applied, reply = .ok out' → out'.ids = out.ids) ?_
    ⟨Untouched.refl s, fun out' h => by cases h; rfl⟩
  rintro j c hc mid t ⟨⟨seq, rfl⟩, hids⟩
  have hstill : Settled c mid.ids { s with characterSeq := seq } := by
    rw [hids mid rfl]
    exact (hsettled c hc).mono rfl ⟨[], (List.append_nil _).symm⟩
  obtain ⟨hstore, hturn⟩ := applyCharacter_settled attempt j hstill
  exact ⟨Untouched.trans ⟨seq, rfl⟩ hstore, fun out' h => (hturn out' h).trans (hids mid rfl)⟩

theorem characters_done (h : forEach attempt.applyCharacter j characters out s = (.ok out', s')) :
    ∀ c ∈ characters, Settled c out'.ids s' := by
  refine forEach_post (P := fun c out s => Settled c out.ids s)
    (fun j c out s out' s' hturn => applyCharacter_settles hturn) ?_ h
  intro j c d out s out' s' hsettled hturn
  rw [(applyCharacter_cases hturn).1]
  exact hsettled.mono (applyCharacter_grows hturn).1 (applyCharacter_grows hturn).2

theorem characters_grow (h : forEach attempt.applyCharacter j characters out s = (.ok out', s')) :
    out'.ids = out.ids ∧ s'.accounts = s.accounts := by
  refine forEach_invariant (I := fun mid t => mid.ids = out.ids ∧ t.accounts = s.accounts) ?_
    ⟨rfl, rfl⟩ h
  rintro j c - mid t mid' t' ⟨hids, haccounts⟩ hturn
  exact ⟨(applyCharacter_cases hturn).1.trans hids,
    (applyCharacter_grows hturn).1.trans haccounts⟩

theorem characters_stopped (halike : Alike s t) (hids : out.ids = out₂.ids)
    (hwhole : forEach whole.applyCharacter 0 characters out₂ t = (.ok out₂', t')) :
    (∃ out' s', forEach first.applyCharacter 0 characters out s = (.ok out', s') ∧ Alike s' t') ∨
      ∃ e s' early late mid u, characters = early ++ late ∧
        forEach first.applyCharacter 0 characters out s = (.error e, s') ∧
        forEach whole.applyCharacter 0 early out₂ t = (.ok mid, u) ∧ Alike s' u := by
  have hcases :
      (∃ out' s', forEach first.applyCharacter 0 characters out s = (.ok out', s') ∧
          Alike s' t' ∧ out'.ids = out₂'.ids) ∨ _ :=
    forEach_stopped
      (R := fun (out : Applied) s (out₂ : Applied) t => Alike s t ∧ out.ids = out₂.ids)
      (E := fun s _ u => Alike s u) ?_ ⟨halike, hids⟩ hwhole
  · rcases hcases with ⟨out', s', hloop, halike, _⟩ | hstop
    · exact Or.inl ⟨out', s', hloop, halike⟩
    · exact Or.inr hstop
  · rintro j c - out s out₂ t out₂' t' ⟨halike, hids⟩ hturn
    cases hfirst : first.applyCharacter j c out s with
    | mk reply s' =>
      cases reply with
      | error e => exact Or.inr ⟨e, s', rfl, (applyCharacter_error hfirst).alike.trans halike⟩
      | ok out' =>
        refine Or.inl ⟨out', s', rfl, applyCharacter_alike halike (fun _ => ?_) hfirst hturn, ?_⟩
        · rw [hids, ownerIn_congr halike.accounts]
        · rw [(applyCharacter_cases hfirst).1, (applyCharacter_cases hturn).1, hids]

theorem characters_again
    (hearly : forEach whole.applyCharacter 0 early out₂ t = (.ok mid, u))
    (hlate : forEach whole.applyCharacter (0 + early.length) late mid u = (.ok out₂', w))
    (halike : Alike z u)
    (howner : ∀ c ∈ early ++ late, characterNamed z c.name = none →
      ownerIn z out.ids c = ownerIn z out₂.ids c)
    (hagain : forEach again.applyCharacter 0 (early ++ late) out z = (.ok out', s')) :
    Alike s' w := by
  obtain ⟨skipped, v, hskip, hrest⟩ := forEach_append.mp hagain
  have hmid := (characters_grow hearly).1
  have hsettled (c : PlannedCharacter) (hc : c ∈ early) : Settled c out.ids z := by
    by_cases hfree : characterNamed z c.name = none
    · rcases characters_done hearly c hc with htaken | hnone
      · exact absurd ((characterNamed_alike halike c.name).mp hfree) htaken
      · rw [hmid, ← ownerIn_congr halike.accounts,
          ← howner c (List.mem_append_left late hc) hfree] at hnone
        exact Or.inr hnone
    · exact Or.inl hfree
  have hsame := characters_settled again 0 hsettled
  rw [hskip] at hsame
  obtain ⟨huntouched, hids⟩ := hsame
  have hrows : v.characterRows = z.characterRows := by
    obtain ⟨seq, rfl⟩ := huntouched
    rfl
  have hrelated := forEach_related (R := fun (mid : Applied) s (mid₂ : Applied) t => Alike s t ∧
      mid.ids = out.ids ∧
      mid₂.ids = out₂.ids ∧ s.accounts = z.accounts ∧
      ∃ more, s.characterRows = z.characterRows ++ more) ?_
    ⟨huntouched.alike.trans halike, hids skipped rfl, hmid, huntouched.alike.accounts, [],
      hrows.trans (List.append_nil _).symm⟩ hrest hlate
  · exact hrelated.1
  · rintro j c hc mid s mid₂ t mid' s' mid₂' t' ⟨halike, hids, hids₂, haccounts, more, hmore⟩
      hlow hhigh
    obtain ⟨hsame, more', hmore'⟩ := applyCharacter_grows hlow
    refine ⟨applyCharacter_alike halike (fun hfree => ?_) hlow hhigh,
      (applyCharacter_cases hlow).1.trans hids, (applyCharacter_cases hhigh).1.trans hids₂,
      hsame.trans haccounts, more ++ more', by rw [hmore', hmore, List.append_assoc]⟩
    rw [characterNamed, hmore, selectKey_append, Option.or_eq_none_iff] at hfree
    rw [hids, hids₂, ownerIn_congr halike.accounts.symm, ownerIn_congr haccounts,
      ownerIn_congr haccounts]
    exact howner c (List.mem_append_right early hc) hfree.1

end Loops

/-! ## Runs -/

/-- The accounts, attributes, bans and characters of a store, whatever the times at which bans were
applied and characters created. -/
structure Contents where
  accounts : List AccountRow
  attrs : List AttrRow
  bans : List BanRow
  characters : List CharacterRow

def contents (s : SqliteStorage) : Contents :=
  ⟨s.accounts, s.attrs, s.bans.map withoutAppliedAt, s.characterRows.map withoutCreatedAt⟩

/-- No character that is yet to be created belongs to an account of WarCraft III that was not there
at the start. -/
def OwnersKept (start s : SqliteStorage) (characters : List PlannedCharacter) : Prop :=
  ∀ c ∈ characters, characterNamed s c.name = none →
    ∀ row, accountNamed s c.account = some row →
      row ∈ start.accounts ∨ row.credential.kind ≠ "srp".toList

theorem Alike.contents_eq {s t : SqliteStorage} (h : Alike s t) : contents s = contents t := by
  rw [contents, contents, h.accounts, h.attrs, h.bans, h.characters]

section Runs

variable {first whole again : Attempt} {start s w z : SqliteStorage} {plan : Plan}
  {characters : List PlannedCharacter} {r r' : Nat × Nat × List Text}

theorem apply_ok (h : whole.apply s plan characters = (.ok r, w)) :
    ∃ out t out', forEach whole.applyAccount 0 plan.accounts ⟨0, ∅, 0, []⟩ s = (.ok out, t) ∧
      forEach whole.applyCharacter 0 characters out t = (.ok out', w) := by
  unfold Attempt.apply at h
  split at h
  · cases h
  · rename_i out t haccounts
    split at h
    · cases h
    · rename_i out' u hcharacters
      split at h
      · cases h
      · rename_i v hflush
        cases h
        obtain ⟨_, hflushed⟩ := call_eq_ok hflush
        cases hflushed
        exact ⟨out, t, out', haccounts, hcharacters⟩

theorem apply_store (attempt : Attempt) (s : SqliteStorage) (plan : Plan)
    (characters : List PlannedCharacter) :
    (attempt.apply s plan characters).2 =
      match forEach attempt.applyAccount 0 plan.accounts ⟨0, ∅, 0, []⟩ s with
      | (.error _, s) => s
      | (.ok out, s) => (forEach attempt.applyCharacter 0 characters out s).2 := by
  unfold Attempt.apply
  cases forEach attempt.applyAccount 0 plan.accounts ⟨0, ∅, 0, []⟩ s with
  | mk reply t =>
    cases reply with
    | error e => rfl
    | ok out =>
      dsimp only
      cases forEach attempt.applyCharacter 0 characters out t with
      | mk reply' u =>
        cases reply' with
        | error e => rfl
        | ok out' =>
          dsimp only
          unfold Attempt.call
          split
          · rename_i hflush
            split at hflush <;> cases hflush
            rfl
          · rename_i hflush
            split at hflush <;> cases hflush
            rfl

theorem apply_stopped {out out' : Applied} {t : SqliteStorage}
    (hban : ∀ i, first.stop ≠ some (.banPut i))
    (haccounts : forEach whole.applyAccount 0 plan.accounts ⟨0, ∅, 0, []⟩ start = (.ok out, t))
    (hcharacters : forEach whole.applyCharacter 0 characters out t = (.ok out', w)) :
    (∃ before after mid u, plan.accounts = before ++ after ∧
        forEach whole.applyAccount 0 before ⟨0, ∅, 0, []⟩ start = (.ok mid, u) ∧
        Alike (first.apply start plan characters).2 u) ∨
      ∃ early late mid u, characters = early ++ late ∧
        forEach whole.applyCharacter 0 early out t = (.ok mid, u) ∧
        Alike (first.apply start plan characters).2 u := by
  rw [apply_store]
  rcases accounts_stopped hban haccounts with
    ⟨out₁, s, hloop, halike, hids⟩ | ⟨e, s, before, after, mid, u, hsplit, hloop, hbefore, halike⟩
  · refine Or.inr ?_
    rw [hloop]
    rcases characters_stopped halike hids hcharacters with
      ⟨out₁', s', hloop', halike'⟩ | ⟨e, s', early, late, mid, u, hsplit, hloop', hearly, halike'⟩
    · refine ⟨characters, [], out', w, (List.append_nil _).symm, hcharacters, ?_⟩
      dsimp only
      rw [hloop']
      exact halike'
    · refine ⟨early, late, mid, u, hsplit, hearly, ?_⟩
      dsimp only
      rw [hloop']
      exact halike'
  · refine Or.inl ⟨before, after, mid, u, hsplit, hbefore, ?_⟩
    rw [hloop]
    exact halike

/-- A run that completes after one that was not stopped at a ban. -/
theorem apply_resumed (hban : ∀ i, first.stop ≠ some (.banPut i))
    (howner : OwnersKept start (first.apply start plan characters).2 characters)
    (hwhole : whole.apply start plan characters = (.ok r, w))
    (hagain : again.apply (first.apply start plan characters).2 plan characters = (.ok r', z)) :
    Alike z w := by
  obtain ⟨out₂, t, out₂', haccounts, hcharacters⟩ := apply_ok hwhole
  obtain ⟨out, v, out', haccounts', hcharacters'⟩ := apply_ok hagain
  have hstopped := apply_stopped hban haccounts hcharacters
  generalize (first.apply start plan characters).2 = s at *
  have hgrown := accounts_grow haccounts'
  -- What is left to show of the accounts: how far the first run came, and whose ids are known.
  have hrest (early late : List PlannedCharacter) (mid : Applied) (u : SqliteStorage)
      (old : Map Text AccountId) (hsplit : characters = early ++ late)
      (hearly : forEach whole.applyCharacter 0 early out₂ t = (.ok mid, u)) (halike : Alike v u)
      (hmade : Made start old s)
      (hnames : ∀ name, out₂.ids.lookup name = (out.ids.lookup name).or (old.lookup name)) :
      Alike z w := by
    subst hsplit
    obtain ⟨mid', u', hearly', hlate⟩ := forEach_append.mp hcharacters
    rw [hearly] at hearly'
    cases hearly'
    refine characters_again hearly hlate halike (fun c hc hfree => ?_) hcharacters'
    refine hmade.ownerIn_eq hgrown.1 hnames (howner c hc ?_)
    rw [characterNamed, ← hgrown.2]
    exact hfree
  rcases hstopped with
    ⟨before, after, mid, u, hsplit, hbefore, halike⟩ | ⟨early, late, mid, u, hsplit, hearly, halike⟩
  · rw [hsplit] at haccounts haccounts'
    obtain ⟨mid', u', hbefore', hafter⟩ := forEach_append.mp haccounts
    rw [hbefore] at hbefore'
    cases hbefore'
    obtain ⟨halike', hnames⟩ := accounts_again hbefore hafter halike haccounts'
    exact hrest [] characters out₂ t mid.ids rfl rfl halike'
      ((accounts_made hbefore).congr halike.accounts) hnames
  · have hsame : s.accounts = t.accounts := halike.accounts.trans (characters_grow hearly).2
    have htaken (a : PlannedAccount) (ha : a ∈ plan.accounts) : accountNamed s a.name ≠ none := by
      rw [accountNamed, hsame]
      exact accounts_named haccounts a ha
    have hskipped := accounts_taken again 0 ⟨0, ∅, 0, []⟩ htaken
    rw [haccounts'] at hskipped
    obtain ⟨hstore, hids⟩ := hskipped
    obtain rfl : s = v := hstore.symm
    refine hrest early late mid u out₂.ids hsplit hearly halike
      ((accounts_made haccounts).congr hsame) fun name => ?_
    rw [hids out rfl]
    exact Option.none_or.symm

/-- A run after one that completed. -/
theorem apply_repeated (hwhole : whole.apply start plan characters = (.ok r, w)) :
    Untouched w (again.apply w plan characters).2 := by
  obtain ⟨out₂, t, out₂', haccounts, hcharacters⟩ := apply_ok hwhole
  obtain ⟨hids₂, hsame⟩ := characters_grow hcharacters
  have htaken (a : PlannedAccount) (ha : a ∈ plan.accounts) : accountNamed w a.name ≠ none := by
    rw [accountNamed, hsame]
    exact accounts_named haccounts a ha
  obtain ⟨hstore, hids⟩ := accounts_taken again 0 ⟨0, ∅, 0, []⟩ htaken
  rw [apply_store]
  cases hloop : forEach again.applyAccount 0 plan.accounts ⟨0, ∅, 0, []⟩ w with
  | mk reply s =>
    rw [hloop] at hstore hids
    obtain rfl : w = s := hstore.symm
    cases reply with
    | error e => exact Untouched.refl w
    | ok out =>
      have hempty : out.ids = ∅ := hids out rfl
      have hsettled (c : PlannedCharacter) (hc : c ∈ characters) : Settled c out.ids w := by
        rcases characters_done hcharacters c hc with htaken | hnone
        · exact Or.inl htaken
        · refine Or.inr ?_
          unfold ownerIn at hnone ⊢
          rw [hempty]
          split at hnone
          · cases hnone
          · exact hnone
      exact (characters_settled again 0 hsettled).1

end Runs

/-- **An import may be run again**: what a run leaves that completes after one that was stopped is
what it would have left at once, unless the first was stopped between an account and its ban, or a
character belongs to an account of WarCraft III that the first had made. After a run that
completed, another changes nothing. -/
theorem apply_resumes (plan : Plan) (characters : List PlannedCharacter) (start : SqliteStorage) :
    (∀ first whole again : Attempt, (∀ i, first.stop ≠ some (.banPut i)) →
      OwnersKept start (first.apply start plan characters).2 characters →
      (∃ r, (whole.apply start plan characters).1 = .ok r) →
      (∃ r, (again.apply (first.apply start plan characters).2 plan characters).1 = .ok r) →
      contents (again.apply (first.apply start plan characters).2 plan characters).2 =
        contents (whole.apply start plan characters).2) ∧
    ∀ first again : Attempt, (∃ r, (first.apply start plan characters).1 = .ok r) →
      Untouched (first.apply start plan characters).2
        (again.apply (first.apply start plan characters).2 plan characters).2 := by
  constructor
  · rintro first whole again hban howner ⟨r, hwhole⟩ ⟨r', hagain⟩
    exact (apply_resumed hban howner (Prod.ext hwhole rfl) (Prod.ext hagain rfl)).contents_eq
  · rintro first again ⟨r, hfirst⟩
    exact apply_repeated (Prod.ext hfirst rfl)

/-- A player of the X-SHA-1 games. -/
def tyrael : PlannedAccount :=
  ⟨"Tyrael".toList, .xsha1 (Vector.replicate 20 0), 0, ∅, none, "uid 1".toList⟩

def archangel : PlannedCharacter :=
  ⟨"tyrael".toList, "Archangel".toList, 3, 0x20, 1, 0, 1136073600, []⟩

/-- A run that is stopped at a call, or at none. -/
def stoppedAt (stop : Option Point) : Attempt := ⟨stop, fun _ => 0, Map.Walk.ascending⟩

theorem apply_resumes_tyrael :
    contents ((stoppedAt none).apply ((stoppedAt (some (.createCharacter 0))).apply (.new false)
        { Plan.empty with accounts := [tyrael] } [archangel]).2
        { Plan.empty with accounts := [tyrael] } [archangel]).2 =
      contents ((stoppedAt none).apply (.new false)
        { Plan.empty with accounts := [tyrael] } [archangel]).2 := by
  refine (apply_resumes _ [archangel] (.new false)).1 _ _ _ (fun i h => ?_) ?_
    ⟨(1, 1, []), rfl⟩ ⟨_, rfl⟩
  · cases h
  · intro c hc _ row hrow
    obtain rfl := List.mem_singleton.mp hc
    obtain rfl := Option.some.inj hrow
    right
    decide

/-- A player whose account was locked comes back unlocked. -/
theorem ban_lost :
    ¬ ∀ (plan : Plan) (characters : List PlannedCharacter) (start : SqliteStorage)
        (first whole again : Attempt),
      (∃ r, (whole.apply start plan characters).1 = .ok r) →
      (∃ r, (again.apply (first.apply start plan characters).2 plan characters).1 = .ok r) →
      contents (again.apply (first.apply start plan characters).2 plan characters).2 =
        contents (whole.apply start plan characters).2 := by
  intro h
  have hsame := h
    { Plan.empty with accounts := [{ tyrael with ban := some ("Locked".toList, none) }] } []
    (.new false) (stoppedAt (some (.banPut 0))) (stoppedAt none) (stoppedAt none)
    ⟨_, rfl⟩ ⟨_, rfl⟩
  exact absurd (congrArg (fun c => c.bans.length) hsame) (by decide)

-- The character of an account of WarCraft III is left out.
example :
    let plan : Plan :=
      { Plan.empty with
        accounts := [{ tyrael with credential := .srp (.replicate 32 0) (.replicate 32 0) }] }
    let first := ((stoppedAt (some (.createCharacter 0))).apply (.new false) plan [archangel]).2
    (contents ((stoppedAt none).apply first plan [archangel]).2).characters.length = 0 ∧
      (contents ((stoppedAt none).apply (.new false) plan [archangel]).2).characters.length =
        1 := by
  decide

end CommandCenter.Import
