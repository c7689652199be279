import CommandCenter.Library.Run
import CommandCenter.Storage.Characters
import CommandCenter.Storage.Sqlite

/-!
# SQLite and the in-memory reference

A database agrees with a `MemoryStorage` if each table has the rows of the map or list there. The
tables are related one by one, and a call is looked at in the table it reads or changes.

* `AccountsAgree`, `AttrsAgree`, `BansAgree`, `CharactersAgree`: the relation, table by table.
* `Agree.answer`: a call that meets `Exact` is answered alike and keeps the relation.
* `sqlite_answers`: along a run of such calls the two stores are indistinguishable.
-/

namespace CommandCenter.Storage

open Rust CommandCenter.Core Library

/-! ## Rows and values -/

def accountRow (a : Account) : AccountRow :=
  ⟨asI64 a.id, a.name, a.name.toAsciiLowercase, credentialColumns a.credential,
    asI64 a.createdAt⟩

theorem rowToAccount_accountRow {a : Account} (hid : a.id < 2 ^ 64)
    (htime : a.createdAt < 2 ^ 64) : rowToAccount (accountRow a) = .ok a := by
  rw [rowToAccount, accountRow, credentialOf_columns, asU64_asI64 hid, asU64_asI64 htime]
  rfl

theorem columnByte_toNat (b : UInt8) : columnByte b.toNat = b := by
  have hb : b.toNat < 256 := b.toNat_lt
  have hclamp : (min (max (b.toNat : Int) 0) 255).toNat = b.toNat := by omega
  rw [columnByte, hclamp, UInt8.ofNat_toNat]

/-- The integers of a character are `u64` values. -/
def Character.InU64 (c : Character) : Prop :=
  c.account < 2 ^ 64 ∧ c.createdAt < 2 ^ 64 ∧ c.lastPlayed < 2 ^ 64

theorem rowToCharacter_characterRow {c : Character} (h : c.InU64) :
    rowToCharacter (characterRow c) = c := by
  obtain ⟨account, name, heroClass, status, level, progression, created, played, save⟩ := c
  simp only [rowToCharacter, characterRow, columnByte_toNat, asU64_asI64 h.1, asU64_asI64 h.2.1,
    asU64_asI64 h.2.2]

/-- The integers of a ban are `u64` values. -/
def Ban.InU64 (ban : Ban) : Prop :=
  ban.account < 2 ^ 64 ∧ ban.appliedAt < 2 ^ 64 ∧ ∀ e, ban.expiresAt = some e → e < 2 ^ 64

theorem scopeStr_inj {a b : BanScope} : scopeStr a = scopeStr b ↔ a = b := by
  cases a <;> cases b <;> decide

theorem scopeStr_eq_network {scope : BanScope} :
    scopeStr scope = "network".toList ↔ scope = .network := scopeStr_inj (b := .network)

theorem rowToBan_banRow {ban : Ban} (h : ban.InU64) : rowToBan ban.account (banRow ban) = ban := by
  obtain ⟨account, scope, reason, applied, expires⟩ := ban
  have hexpires : (expires.map asI64).map asU64 = expires := by
    cases expires with
    | none => rfl
    | some e => exact congrArg some (asU64_asI64 (h.2.2 e rfl))
  have hscope : (if scopeStr scope = "network".toList then BanScope.network else .node) =
      scope := by
    cases scope <;> decide
  rw [rowToBan, banRow, asU64_asI64 h.2.1, hexpires, hscope]

/-! ## Accounts -/

structure AccountsAgree (accounts : List Account) (db : SqliteStorage) (mem : MemoryStorage) :
    Prop where
  rows : db.accounts = accounts.map accountRow
  ascending : accounts.Pairwise fun a b => a.id < b.id
  seq : db.accountSeq = mem.nextId.toNat
  room : mem.nextId.toNat < 2 ^ 63
  within : ∀ a ∈ accounts, a.id ≤ mem.nextId.toNat ∧ a.createdAt < 2 ^ 64
  lookup : ∀ id a, mem.accounts.lookup id = some a ↔ a ∈ accounts ∧ a.id = id
  byName : ∀ folded id, mem.byName.lookup folded = some id ↔
    ∃ a ∈ accounts, a.id = id ∧ a.name.toAsciiLowercase = folded

namespace AccountsAgree

variable {accounts : List Account} {db : SqliteStorage} {mem : MemoryStorage}

theorem nodup_ids (h : AccountsAgree accounts db mem) : (accounts.map Account.id).Nodup :=
  List.pairwise_map.mpr (h.ascending.imp Nat.ne_of_lt)

theorem id_lt (h : AccountsAgree accounts db mem) {a : Account} (ha : a ∈ accounts) :
    a.id < 2 ^ 64 :=
  Nat.lt_of_le_of_lt (h.within a ha).1 (Nat.lt_trans h.room (by decide))

theorem rowToAccount_ok (h : AccountsAgree accounts db mem) {a : Account} (ha : a ∈ accounts) :
    rowToAccount (accountRow a) = .ok a :=
  rowToAccount_accountRow (h.id_lt ha) (h.within a ha).2

theorem selectKey_id (h : AccountsAgree accounts db mem) (id : AccountId) :
    selectKey Account.id id accounts = mem.accounts.lookup id := by
  ext a
  rw [selectKey_eq_some_iff h.nodup_ids, h.lookup]

theorem selectKey_name (h : AccountsAgree accounts db mem) (folded : Text) :
    selectKey (fun a : Account => a.name.toAsciiLowercase) folded accounts =
      (mem.byName.lookup folded).bind fun id => mem.accounts.lookup id := by
  cases hfound : selectKey (fun a : Account => a.name.toAsciiLowercase) folded accounts with
  | none =>
    cases hid : mem.byName.lookup folded with
    | none => rfl
    | some id =>
      obtain ⟨a, ha, _, hname⟩ := (h.byName folded id).mp hid
      exact absurd hname (selectKey_eq_none_iff.mp hfound a ha)
  | some a =>
    obtain ⟨ha, hname⟩ := of_selectKey hfound
    rw [(h.byName folded a.id).mpr ⟨a, ha, rfl, hname⟩]
    exact ((h.lookup a.id a).mpr ⟨ha, rfl⟩).symm

theorem select_id (h : AccountsAgree accounts db mem) {id : AccountId} (hid : id < 2 ^ 64) :
    selectKey AccountRow.id (asI64 id) db.accounts =
      (mem.accounts.lookup id).map accountRow := by
  rw [h.rows, ← h.selectKey_id]
  exact selectKey_map accountRow fun a ha => asI64_inj (h.id_lt ha) hid

theorem select_name (h : AccountsAgree accounts db mem) (folded : Text) :
    selectKey AccountRow.nameLower folded db.accounts =
      ((mem.byName.lookup folded).bind fun id => mem.accounts.lookup id).map accountRow := by
  rw [h.rows, ← h.selectKey_name]
  exact selectKey_map accountRow fun a _ => Iff.rfl

theorem hasAccount_iff (h : AccountsAgree accounts db mem) {id : AccountId} (hid : id < 2 ^ 64) :
    db.hasAccount id = true ↔ id ∈ mem.accounts := by
  rw [SqliteStorage.hasAccount, h.rows, List.any_map, List.any_eq_true, Finmap.mem_iff]
  constructor
  · rintro ⟨a, ha, hrow⟩
    have heq : asI64 a.id = asI64 id := of_decide_eq_true hrow
    exact ⟨a, (h.lookup id a).mpr ⟨ha, (asI64_inj (h.id_lt ha) hid).mp heq⟩⟩
  · rintro ⟨a, ha⟩
    obtain ⟨hmem, hsame⟩ := (h.lookup id a).mp ha
    exact ⟨a, hmem, decide_eq_true (congrArg asI64 hsame)⟩

/-! ### Listing -/

theorem toFinset_ids (h : AccountsAgree accounts db mem) :
    (accounts.map Account.id).toFinset = mem.accounts.keys := by
  ext id
  rw [List.mem_toFinset, Finmap.mem_keys, Finmap.mem_iff, List.mem_map]
  constructor
  · rintro ⟨a, ha, hid⟩
    exact ⟨a, (h.lookup id a).mpr ⟨ha, hid⟩⟩
  · rintro ⟨a, ha⟩
    exact ⟨a, (h.lookup id a).mp ha⟩

theorem sort_keys (h : AccountsAgree accounts db mem) :
    mem.accounts.keys.sort = accounts.map Account.id := by
  rw [← h.toFinset_ids]
  exact (List.toFinset_sort _ h.nodup_ids).mpr
    (List.pairwise_map.mpr (h.ascending.imp Nat.le_of_lt))

theorem len_accounts (h : AccountsAgree accounts db mem) :
    mem.accounts.len = accounts.length := by
  have hcard : mem.accounts.keys.card = mem.accounts.len := Multiset.card_map ..
  rw [← hcard, ← h.toFinset_ids, List.toFinset_card_of_nodup h.nodup_ids, List.length_map]

theorem filterMap_lookup (h : AccountsAgree accounts db mem) {some : List Account}
    (hsome : ∀ a ∈ some, a ∈ accounts) :
    (some.map Account.id).filterMap (fun id => mem.accounts.lookup id) = some := by
  rw [List.filterMap_map]
  refine (List.filterMap_congr (g := Option.some) fun a ha => ?_).trans List.filterMap_some
  exact (h.lookup a.id a).mpr ⟨hsome a ha, rfl⟩

theorem mapM_rows (h : AccountsAgree accounts db mem) {some : List Account}
    (hsome : ∀ a ∈ some, a ∈ accounts) :
    (some.map accountRow).mapM rowToAccount = .ok some := by
  induction some with
  | nil => rfl
  | cons a rest ih =>
    rw [List.map_cons, List.mapM_cons, h.rowToAccount_ok (hsome a List.mem_cons_self),
      ih fun b hb => hsome b (List.mem_cons_of_mem a hb)]
    rfl

/-! ### Accounts come, change and go -/

/-- Neither store has changed its accounts. -/
theorem of_eq (h : AccountsAgree accounts db mem) {db' : SqliteStorage} {mem' : MemoryStorage}
    (hrows : db'.accounts = db.accounts) (hseq : db'.accountSeq = db.accountSeq)
    (haccounts : mem'.accounts = mem.accounts) (hnames : mem'.byName = mem.byName)
    (hnext : mem'.nextId = mem.nextId) : AccountsAgree accounts db' mem' where
  rows := hrows.trans h.rows
  ascending := h.ascending
  seq := by rw [hseq, hnext, h.seq]
  room := hnext ▸ h.room
  within := hnext ▸ h.within
  lookup := haccounts ▸ h.lookup
  byName := hnames ▸ h.byName

theorem nextId_succ (h : AccountsAgree accounts db mem) (hroom : db.accountSeq < maxI64) :
    (mem.nextId + 1).toNat = mem.nextId.toNat + 1 ∧ mem.nextId.toNat + 1 < 2 ^ 63 := by
  have hseq := h.seq
  rw [hseq, maxI64] at hroom
  have hlt : mem.nextId.toNat + 1 < 2 ^ 63 := by omega
  refine ⟨?_, hlt⟩
  rw [UInt64.toNat_add]
  exact Nat.mod_eq_of_lt (Nat.lt_trans hlt (by decide))

/-- The id of a new account is a new one. -/
theorem id_enroll (h : AccountsAgree accounts db mem) (hroom : db.accountSeq < maxI64)
    (req : NewAccount) : (mem.enroll req).1.id = mem.nextId.toNat + 1 :=
  (h.nextId_succ hroom).1

theorem enroll (h : AccountsAgree accounts db mem) (hroom : db.accountSeq < maxI64)
    {req : NewAccount} (htime : req.createdAt < 2 ^ 64)
    (hfree : req.name.toAsciiLowercase ∉ mem.byName) (attrs : List AttrRow) :
    AccountsAgree (accounts ++ [(mem.enroll req).1])
      { db with
        accounts := db.accounts ++ [accountRow (mem.enroll req).1]
        accountSeq := db.accountSeq + 1
        attrs }
      (mem.enroll req).2 := by
  obtain ⟨hnext, hlt⟩ := h.nextId_succ hroom
  have hid := h.id_enroll hroom req
  have hnew (a : Account) (ha : a ∈ accounts) : a.id < (mem.enroll req).1.id := by
    rw [hid]
    exact Nat.lt_succ_of_le (h.within a ha).1
  have hnextId : (mem.enroll req).2.nextId.toNat = mem.nextId.toNat + 1 := hnext
  constructor
  · rw [h.rows, List.map_append, List.map_singleton]
  · refine List.pairwise_append.mpr ⟨h.ascending, List.pairwise_singleton _ _, ?_⟩
    intro a ha b hb
    rw [List.mem_singleton.mp hb]
    exact hnew a ha
  · rw [h.seq, hnextId]
    rfl
  · rw [hnextId]
    exact hlt
  · intro a ha
    rw [hnextId]
    rcases List.mem_append.mp ha with ha | ha
    · exact ⟨Nat.le_succ_of_le (h.within a ha).1, (h.within a ha).2⟩
    · rw [List.mem_singleton.mp ha]
      exact ⟨Nat.le_of_eq hid, htime⟩
  · intro id a
    show (mem.accounts.insert (mem.enroll req).1.id (mem.enroll req).1).lookup id = some a ↔ _
    rw [List.mem_append, List.mem_singleton]
    by_cases hsame : id = (mem.enroll req).1.id
    · subst hsame
      rw [Finmap.lookup_insert, Option.some.injEq]
      constructor
      · rintro rfl
        exact ⟨Or.inr rfl, rfl⟩
      · rintro ⟨ha | ha, heq⟩
        · exact absurd heq (Nat.ne_of_lt (hnew a ha))
        · exact ha.symm
    · rw [Finmap.lookup_insert_of_ne _ hsame, h.lookup]
      refine and_congr_left fun heq => ⟨Or.inl, ?_⟩
      rintro (ha | rfl)
      · exact ha
      · exact absurd heq.symm hsame
  · intro folded id
    show (mem.byName.insert req.name.toAsciiLowercase (mem.enroll req).1.id).lookup folded =
      some id ↔ _
    simp only [List.mem_append, List.mem_singleton, or_and_right, exists_or, exists_eq_left]
    by_cases hsame : folded = req.name.toAsciiLowercase
    · subst hsame
      rw [Finmap.lookup_insert, Option.some.injEq]
      constructor
      · intro heq
        exact Or.inr ⟨heq, rfl⟩
      · rintro (⟨a, ha, heq, hname⟩ | ⟨heq, _⟩)
        · have hmem := (h.byName _ id).mpr ⟨a, ha, heq, hname⟩
          exact absurd (Finmap.mem_of_lookup_eq_some hmem) hfree
        · exact heq
    · rw [Finmap.lookup_insert_of_ne _ hsame, h.byName]
      refine ⟨Or.inl, ?_⟩
      rintro (ha | ⟨_, hname⟩)
      · exact ha
      · exact absurd hname.symm hsame

/-- One account has another credential. -/
def withCredential (id : AccountId) (credential : Credential) (a : Account) : Account :=
  if a.id = id then { a with credential } else a

theorem withCredential_id (id : AccountId) (credential : Credential) (a : Account) :
    (withCredential id credential a).id = a.id := by
  unfold withCredential
  split <;> rfl

theorem withCredential_name (id : AccountId) (credential : Credential) (a : Account) :
    (withCredential id credential a).name = a.name := by
  unfold withCredential
  split <;> rfl

theorem withCredential_createdAt (id : AccountId) (credential : Credential) (a : Account) :
    (withCredential id credential a).createdAt = a.createdAt := by
  unfold withCredential
  split <;> rfl

theorem setCredential (h : AccountsAgree accounts db mem) {id : AccountId} (hid : id < 2 ^ 64)
    {a : Account} (ha : mem.accounts.lookup id = some a) (credential : Credential) :
    AccountsAgree (accounts.map (withCredential id credential))
      { db with
        accounts := db.accounts.map fun row =>
          if row.id = asI64 id then { row with credential := credentialColumns credential }
          else row }
      { mem with accounts := mem.accounts.insert id { a with credential } } := by
  obtain ⟨hmem, haid⟩ := (h.lookup id a).mp ha
  constructor
  · show db.accounts.map _ = _
    rw [h.rows, List.map_map, List.map_map]
    refine List.map_congr_left fun b hb => ?_
    have hrow : (accountRow b).id = asI64 id ↔ b.id = id := asI64_inj (h.id_lt hb) hid
    rw [Function.comp_apply, Function.comp_apply, withCredential]
    by_cases hsame : b.id = id
    · rw [if_pos (hrow.mpr hsame), if_pos hsame]
      rfl
    · rw [if_neg (mt hrow.mp hsame), if_neg hsame]
  · refine List.pairwise_map.mpr (h.ascending.imp fun hlt => ?_)
    rw [withCredential_id, withCredential_id]
    exact hlt
  · exact h.seq
  · exact h.room
  · intro b hb
    obtain ⟨c, hc, rfl⟩ := List.mem_map.mp hb
    rw [withCredential_id, withCredential_createdAt]
    exact h.within c hc
  · intro other b
    show (mem.accounts.insert id { a with credential }).lookup other = some b ↔ _
    rw [List.mem_map]
    by_cases hsame : other = id
    · subst hsame
      rw [Finmap.lookup_insert, Option.some.injEq]
      have hchanged : withCredential other credential a = { a with credential } := if_pos haid
      constructor
      · rintro rfl
        exact ⟨⟨a, hmem, hchanged⟩, haid⟩
      · rintro ⟨⟨c, hc, rfl⟩, hcid⟩
        rw [withCredential_id] at hcid
        have hsame := (h.lookup other c).mpr ⟨hc, hcid⟩
        rw [ha] at hsame
        rw [← Option.some.inj hsame, hchanged]
    · rw [Finmap.lookup_insert_of_ne _ hsame, h.lookup]
      constructor
      · rintro ⟨hb, rfl⟩
        exact ⟨⟨b, hb, if_neg hsame⟩, rfl⟩
      · rintro ⟨⟨c, hc, rfl⟩, hcid⟩
        have hother : c.id ≠ id := by
          rw [withCredential_id] at hcid
          exact hcid ▸ hsame
        rw [withCredential, if_neg hother] at hcid ⊢
        exact ⟨hc, hcid⟩
  · intro folded other
    rw [h.byName]
    constructor
    · rintro ⟨c, hc, hcid, hname⟩
      refine ⟨withCredential id credential c, List.mem_map_of_mem hc, ?_, ?_⟩
      · rw [withCredential_id, hcid]
      · rw [withCredential_name, hname]
    · rintro ⟨b, hb, hbid, hname⟩
      obtain ⟨c, hc, rfl⟩ := List.mem_map.mp hb
      rw [withCredential_id] at hbid
      rw [withCredential_name] at hname
      exact ⟨c, hc, hbid, hname⟩

theorem deleteAccount (h : AccountsAgree accounts db mem) {id : AccountId} (hid : id < 2 ^ 64) :
    AccountsAgree (accounts.filter fun a => a.id ≠ id) (db.deleteAccount id).2
      (mem.deleteAccount id).2 := by
  have hmem (a : Account) :
      (a ∈ accounts.filter fun a => a.id ≠ id) ↔ a ∈ accounts ∧ a.id ≠ id := by
    rw [List.mem_filter, decide_eq_true_eq]
  constructor
  · show db.accounts.filter _ = _
    rw [h.rows, List.filter_map]
    refine congrArg _ (List.filter_congr fun a ha => decide_eq_decide.mpr ?_)
    exact not_congr (asI64_inj (h.id_lt ha) hid)
  · exact h.ascending.filter _
  · exact h.seq
  · exact h.room
  · exact fun a ha => h.within a ((hmem a).mp ha).1
  · intro other a
    show (mem.accounts.erase id).lookup other = some a ↔ _
    rw [hmem]
    by_cases hsame : other = id
    · subst hsame
      rw [Finmap.lookup_erase]
      exact iff_of_false (fun ha => by cases ha) fun ha => ha.1.2 ha.2
    · rw [Finmap.lookup_erase_ne hsame, h.lookup]
      refine ⟨fun ha => ⟨⟨ha.1, fun heq => hsame (ha.2.symm.trans heq)⟩, ha.2⟩, fun ha => ?_⟩
      exact ⟨ha.1.1, ha.2⟩
  · intro folded other
    simp only [hmem]
    have hnames : (mem.deleteAccount id).2.byName.lookup folded = some other ↔
        mem.byName.lookup folded = some other ∧ other ≠ id := by
      rw [MemoryStorage.deleteAccount]
      cases hlookup : mem.accounts.lookup id with
      | none =>
        refine ⟨fun hold => ⟨hold, ?_⟩, fun hold => hold.1⟩
        rintro rfl
        obtain ⟨a, ha, haid, _⟩ := (h.byName folded other).mp hold
        rw [(h.lookup other a).mpr ⟨ha, haid⟩] at hlookup
        cases hlookup
      | some gone =>
        obtain ⟨hgone, hgoneId⟩ := (h.lookup id gone).mp hlookup
        show (mem.byName.erase gone.name.toAsciiLowercase).lookup folded = some other ↔ _
        by_cases hsame : folded = gone.name.toAsciiLowercase
        · subst hsame
          rw [Finmap.lookup_erase, (h.byName _ id).mpr ⟨gone, hgone, hgoneId, rfl⟩]
          exact iff_of_false (fun hold => by cases hold) fun hold =>
            hold.2 (Option.some.inj hold.1).symm
        · rw [Finmap.lookup_erase_ne hsame]
          refine ⟨fun hold => ⟨hold, ?_⟩, fun hold => hold.1⟩
          rintro rfl
          obtain ⟨a, ha, haid, hname⟩ := (h.byName folded other).mp hold
          have heq : a = gone :=
            List.inj_on_of_nodup_map h.nodup_ids ha hgone (haid.trans hgoneId.symm)
          exact hsame (heq ▸ hname.symm)
    rw [hnames, h.byName]
    constructor
    · rintro ⟨⟨a, ha, haid, hname⟩, hother⟩
      exact ⟨a, ⟨ha, haid ▸ hother⟩, haid, hname⟩
    · rintro ⟨a, ⟨ha, hother⟩, haid, hname⟩
      exact ⟨⟨a, ha, haid, hname⟩, haid ▸ hother⟩

end AccountsAgree

/-! ## Attributes -/

structure AttrsAgree (accounts : List Account) (db : SqliteStorage) (mem : MemoryStorage) :
    Prop where
  canonical : ∀ row ∈ db.attrs, normalise row.key = row.key
  owned : ∀ row ∈ db.attrs, ∃ a ∈ accounts, row.accountId = asI64 a.id
  value : ∀ id, id < 2 ^ 64 → ∀ key : AttrKey, ((mem.attrs.lookup id).getD ∅).lookup key =
    (selectKey AttrRow.primaryKey (asI64 id, key.text) db.attrs).map AttrRow.value
  unique : (db.attrs.map AttrRow.primaryKey).Nodup

/-- The rows once a batch is written. -/
theorem selectKey_upsertAttrs {attrs : List (Σ _ : AttrKey, Text)} (hkeys : attrs.NodupKeys)
    (rows : List AttrRow) (id other : Int) (key : AttrKey) :
    (selectKey AttrRow.primaryKey (other, key.text) (upsertAttrs id rows attrs)).map
        AttrRow.value =
      if id = other then (attrs.dlookup key).or
        ((selectKey AttrRow.primaryKey (other, key.text) rows).map AttrRow.value)
      else (selectKey AttrRow.primaryKey (other, key.text) rows).map AttrRow.value := by
  induction attrs generalizing rows with
  | nil =>
    rw [List.dlookup_nil, Option.none_or, ite_self]
    rfl
  | cons attr rest ih =>
    obtain ⟨hfirst, hrest⟩ := List.nodupKeys_cons.mp hkeys
    refine (ih hrest (upsert AttrRow.primaryKey ⟨id, attr.1.text, attr.2⟩ rows)).trans ?_
    rw [selectKey_upsert]
    by_cases hid : id = other
    · rw [if_pos hid, if_pos hid]
      by_cases hkey : attr.1 = key
      · have hsame : AttrRow.primaryKey ⟨id, attr.1.text, attr.2⟩ = (other, key.text) := by
          rw [AttrRow.primaryKey, hid, hkey]
        have hnone : rest.dlookup key = none :=
          List.dlookup_eq_none.mpr (hkey ▸ hfirst)
        subst hkey
        rw [if_pos hsame, hnone, List.dlookup_cons_eq]
        rfl
      · have hother : AttrRow.primaryKey ⟨id, attr.1.text, attr.2⟩ ≠ (other, key.text) := by
          intro heq
          obtain ⟨first, _⟩ := attr
          obtain ⟨text, _⟩ := first
          obtain ⟨text', _⟩ := key
          cases (Prod.mk.inj heq).2
          exact hkey rfl
        rw [if_neg hother, List.dlookup_cons_ne _ _ (Ne.symm hkey)]
    · have hother : AttrRow.primaryKey ⟨id, attr.1.text, attr.2⟩ ≠ (other, key.text) :=
        fun heq => hid (Prod.mk.inj heq).1
      rw [if_neg hid, if_neg hid, if_neg hother]

theorem nodup_upsertAttrs (id : Int) (attrs : List (Σ _ : AttrKey, Text)) {rows : List AttrRow}
    (hkeys : (rows.map AttrRow.primaryKey).Nodup) :
    ((upsertAttrs id rows attrs).map AttrRow.primaryKey).Nodup := by
  induction attrs generalizing rows with
  | nil => exact hkeys
  | cons attr rest ih => exact ih (nodup_upsert hkeys _)

theorem mem_upsertAttrs {id : Int} {attrs : List (Σ _ : AttrKey, Text)} {rows : List AttrRow}
    {row : AttrRow} (h : row ∈ upsertAttrs id rows attrs) :
    row ∈ rows ∨ row.accountId = id ∧ normalise row.key = row.key := by
  induction attrs generalizing rows with
  | nil => exact Or.inl h
  | cons attr rest ih =>
    rcases ih h with h | h
    · rcases mem_upsert h with rfl | h
      · exact Or.inr ⟨rfl, attr.1.canonical⟩
      · exact Or.inl h
    · exact Or.inr h

theorem insertAttrs_eq {id : Int} {attrs : List (Σ _ : AttrKey, Text)} (hkeys : attrs.NodupKeys)
    {rows : List AttrRow} (hnone : ∀ attr ∈ attrs,
      selectKey AttrRow.primaryKey (id, attr.1.text) rows = none) :
    insertAttrs id rows attrs = .ok (upsertAttrs id rows attrs) := by
  induction attrs generalizing rows with
  | nil => rfl
  | cons attr rest ih =>
    obtain ⟨hfirst, hrest⟩ := List.nodupKeys_cons.mp hkeys
    have hinsert : insertOrIgnore AttrRow.primaryKey ⟨id, attr.1.text, attr.2⟩ rows =
        some (rows ++ [⟨id, attr.1.text, attr.2⟩]) :=
      if_neg (Option.not_isSome_iff_eq_none.mpr (hnone attr List.mem_cons_self))
    have hupsert : upsertAttrs id rows (attr :: rest) =
        upsertAttrs id (rows ++ [⟨id, attr.1.text, attr.2⟩]) rest := by
      rw [upsertAttrs, List.foldl_cons, upsert, hinsert]
      rfl
    rw [insertAttrs, hinsert, hupsert]
    refine ih hrest fun other hother => ?_
    rw [selectKey_append, hnone other (List.mem_cons_of_mem attr hother), selectKey_singleton]
    refine if_neg fun heq => hfirst ?_
    have hkey : attr.1 = other.1 := by
      obtain ⟨first, _⟩ := attr
      obtain ⟨text, _⟩ := first
      obtain ⟨second, _⟩ := other
      obtain ⟨text', _⟩ := second
      cases (Prod.mk.inj heq).2
      rfl
    rw [hkey]
    exact List.mem_keys_of_mem hother

theorem order_empty : Map.Walk.ascending.order (∅ : AttrMap) = [] :=
  Multiset.coe_eq_zero _ |>.mp (Map.Walk.ascending.lists ∅)

theorem insertAttrs_new {id : Int} {rows : List AttrRow} (attrs : AttrMap)
    (hnew : ∀ row ∈ rows, row.accountId ≠ id) :
    (if attrs.isEmpty then .ok rows
      else insertAttrs id rows (Map.Walk.ascending.order attrs)) =
      .ok (upsertAttrs id rows (Map.Walk.ascending.order attrs)) := by
  split
  · rename_i hempty
    rw [Map.isEmpty_iff.mp hempty, order_empty]
    rfl
  · refine insertAttrs_eq (Map.Walk.ascending.nodupKeys attrs) fun attr _ => ?_
    exact selectKey_eq_none_iff.mpr fun row hrow heq => hnew row hrow (Prod.mk.inj heq).1

theorem dlookup_order (attrs : AttrMap) (key : AttrKey) :
    (Map.Walk.ascending.order attrs).dlookup key = attrs.lookup key := by
  rw [← Finmap.dlookup_list_toFinmap, Map.Walk.toFinmap_order]

namespace AttrsAgree

variable {accounts : List Account} {db : SqliteStorage} {mem : MemoryStorage}

theorem pickAttrs_eq (h : AttrsAgree accounts db mem) {id : AccountId} (hid : id < 2 ^ 64)
    (out : AttrMap) (keys : List AttrKey) :
    db.pickAttrs id out keys = Map.pick ((mem.attrs.lookup id).getD ∅) out keys := by
  induction keys generalizing out with
  | nil => rfl
  | cons key keys ih =>
    rw [SqliteStorage.pickAttrs, Map.pick, h.value id hid key]
    cases selectKey AttrRow.primaryKey (asI64 id, key.text) db.attrs with
    | none => exact ih out
    | some row => exact ih (out.insert key row.value)

theorem lookup_collect {rows : List AttrRow}
    (hkeys : (rows.map fun row => AttrKey.new row.key).Nodup) (out : AttrMap) (key : AttrKey) :
    (rows.foldl (fun out row => out.insert (AttrKey.new row.key) row.value) out).lookup key =
      ((selectKey (fun row : AttrRow => AttrKey.new row.key) key rows).map
        AttrRow.value).or (out.lookup key) := by
  induction rows generalizing out with
  | nil => rfl
  | cons row rows ih =>
    rw [List.map_cons, List.nodup_cons] at hkeys
    refine (ih hkeys.2 _).trans ?_
    by_cases hkey : AttrKey.new row.key = key
    · have hnone : selectKey (fun row : AttrRow => AttrKey.new row.key) key rows = none :=
        selectKey_eq_none_iff.mpr fun other hother heq =>
          hkeys.1 (List.mem_map.mpr ⟨other, hother, heq.trans hkey.symm⟩)
      have hfound : selectKey (fun row : AttrRow => AttrKey.new row.key) key (row :: rows) =
          some row := List.find?_cons_of_pos (decide_eq_true hkey)
      rw [hnone, hfound, ← hkey, Finmap.lookup_insert]
      rfl
    · have hfound : selectKey (fun row : AttrRow => AttrKey.new row.key) key (row :: rows) =
          selectKey (fun row : AttrRow => AttrKey.new row.key) key rows :=
        List.find?_cons_of_neg (by simpa using hkey)
      rw [hfound, Finmap.lookup_insert_of_ne _ (Ne.symm hkey)]

theorem new_eq_iff (h : AttrsAgree accounts db mem) {row : AttrRow} (hrow : row ∈ db.attrs)
    (key : AttrKey) : AttrKey.new row.key = key ↔ row.key = key.text := by
  have hcanonical := h.canonical row hrow
  obtain ⟨text, hkey⟩ := key
  simp only [AttrKey.new, AttrKey.mk.injEq, hcanonical]

theorem attrsAll_eq (h : AttrsAgree accounts db mem) {id : AccountId} (hid : id < 2 ^ 64) :
    (db.attrs.filter fun row => row.accountId = asI64 id).foldl
        (fun out row => out.insert (AttrKey.new row.key) row.value) ∅ =
      (mem.attrs.lookup id).getD ∅ := by
  have hkeys : ((db.attrs.filter fun row => row.accountId = asI64 id).map
      fun row => AttrKey.new row.key).Nodup := by
    refine List.Nodup.map_on (fun a ha b hb heq => ?_) ?_
    · rw [List.mem_filter, decide_eq_true_eq] at ha hb
      refine List.inj_on_of_nodup_map h.unique ha.1 hb.1 (Prod.ext (ha.2.trans hb.2.symm) ?_)
      have hnew := (h.new_eq_iff ha.1 (AttrKey.new b.key)).mp heq
      exact hnew.trans (h.canonical b hb.1)
    · exact (List.Nodup.of_map _ h.unique).filter _
  apply Finmap.ext_lookup
  intro key
  rw [lookup_collect hkeys, Finmap.lookup_empty, Option.or_none, h.value id hid, selectKey,
    List.find?_filter, selectKey]
  refine congrArg _ (List.find?_congr fun row hrow => decide_eq_decide.mpr ?_)
  rw [decide_eq_true_eq, decide_eq_true_eq, h.new_eq_iff hrow]
  exact (Prod.mk.injEq ..).symm ▸ Iff.rfl

/-! ### Attributes are written and go -/

/-- Neither store has changed its attributes, and no account is gone. -/
theorem of_eq (h : AttrsAgree accounts db mem) {accounts' : List Account} {db' : SqliteStorage}
    {mem' : MemoryStorage} (hids : ∀ a ∈ accounts, ∃ b ∈ accounts', b.id = a.id)
    (hrows : db'.attrs = db.attrs) (hattrs : mem'.attrs = mem.attrs) :
    AttrsAgree accounts' db' mem' where
  canonical := hrows ▸ h.canonical
  owned := by
    intro row hrow
    rw [hrows] at hrow
    obtain ⟨a, ha, hid⟩ := h.owned row hrow
    obtain ⟨b, hb, hba⟩ := hids a ha
    exact ⟨b, hb, hba ▸ hid⟩
  value := by
    rw [hrows, hattrs]
    exact h.value
  unique := hrows ▸ h.unique

theorem write (h : AttrsAgree accounts db mem) {a : Account} {accounts' : List Account}
    (hsub : ∀ b ∈ accounts, b ∈ accounts') (ha : a ∈ accounts') (hid : a.id < 2 ^ 64)
    {db' : SqliteStorage} {mem' : MemoryStorage} (attrs : AttrMap)
    (hrows : db'.attrs =
      upsertAttrs (asI64 a.id) db.attrs (Map.Walk.ascending.order attrs))
    (hattrs : ∀ id key, ((mem'.attrs.lookup id).getD ∅).lookup key =
      if a.id = id then (attrs.lookup key).or (((mem.attrs.lookup id).getD ∅).lookup key)
      else ((mem.attrs.lookup id).getD ∅).lookup key) :
    AttrsAgree accounts' db' mem' where
  canonical := by
    intro row hrow
    rw [hrows] at hrow
    rcases mem_upsertAttrs hrow with hold | ⟨_, hcanonical⟩
    · exact h.canonical row hold
    · exact hcanonical
  owned := by
    intro row hrow
    rw [hrows] at hrow
    rcases mem_upsertAttrs hrow with hold | ⟨hnew, _⟩
    · obtain ⟨b, hb, hrowId⟩ := h.owned row hold
      exact ⟨b, hsub b hb, hrowId⟩
    · exact ⟨a, ha, hnew⟩
  value := by
    intro id hlt key
    have hsame : asI64 a.id = asI64 id ↔ a.id = id := asI64_inj hid hlt
    rw [hattrs, hrows, selectKey_upsertAttrs (Map.Walk.ascending.nodupKeys attrs), dlookup_order,
      h.value id hlt key]
    simp only [hsame]
  unique := by
    rw [hrows]
    exact nodup_upsertAttrs _ _ h.unique

theorem attrsPut (h : AttrsAgree accounts db mem) {a : Account} (ha : a ∈ accounts)
    (hid : a.id < 2 ^ 64) (attrs : AttrMap) :
    AttrsAgree accounts
      { db with
        attrs := upsertAttrs (asI64 a.id) db.attrs (Map.Walk.ascending.order attrs) }
      { mem with attrs := mem.attrs.extendAt a.id attrs } := by
  refine h.write (fun b hb => hb) ha hid attrs rfl fun id key => ?_
  show (((mem.attrs.extendAt a.id attrs).lookup id).getD ∅).lookup key = _
  rw [Map.extendAt]
  split
  · rename_i hsame
    rw [← hsame, Finmap.lookup_insert, Option.getD_some, Map.lookup_extend]
  · rename_i hother
    rw [Finmap.lookup_insert_of_ne _ (Ne.symm hother)]

/-- Nobody has an attribute under the id of a new account. -/
theorem notMem_enroll (h : AttrsAgree accounts db mem) (hacc : AccountsAgree accounts db mem)
    (hroom : db.accountSeq < maxI64) (req : NewAccount) {row : AttrRow} (hrow : row ∈ db.attrs) :
    row.accountId ≠ asI64 (mem.enroll req).1.id := by
  intro heq
  obtain ⟨hnext, hlt⟩ := hacc.nextId_succ hroom
  obtain ⟨a, ha, hrowId⟩ := h.owned row hrow
  have hid := hacc.id_enroll hroom req
  have hnew : (mem.enroll req).1.id < 2 ^ 64 := by
    rw [hid]
    exact Nat.lt_trans hlt (by decide)
  have hsame := (asI64_inj (hacc.id_lt ha) hnew).mp (hrowId.symm.trans heq)
  rw [hid] at hsame
  exact absurd (hacc.within a ha).1 (hsame ▸ Nat.not_succ_le_self _)

theorem enroll (h : AttrsAgree accounts db mem) (hacc : AccountsAgree accounts db mem)
    (hroom : db.accountSeq < maxI64) (req : NewAccount) {db' : SqliteStorage}
    (hrows : db'.attrs = upsertAttrs (asI64 (mem.enroll req).1.id) db.attrs
      (Map.Walk.ascending.order req.attrs)) :
    AttrsAgree (accounts ++ [(mem.enroll req).1]) db' (mem.enroll req).2 := by
  obtain ⟨_, hlt⟩ := hacc.nextId_succ hroom
  have hid : (mem.enroll req).1.id < 2 ^ 64 := by
    rw [hacc.id_enroll hroom req]
    exact Nat.lt_trans hlt (by decide)
  have hnone (key : AttrKey) :
      ((mem.attrs.lookup (mem.enroll req).1.id).getD ∅).lookup key = none := by
    rw [h.value _ hid key, Option.map_eq_none_iff, selectKey_eq_none_iff]
    exact fun row hrow heq => h.notMem_enroll hacc hroom req hrow (Prod.mk.inj heq).1
  refine h.write (fun b hb => List.mem_append_left _ hb) (List.mem_concat_self ..) hid req.attrs
    hrows fun id key => ?_
  show (((if req.attrs.isEmpty then mem.attrs
    else mem.attrs.insert (mem.enroll req).1.id req.attrs).lookup id).getD ∅).lookup key = _
  split
  · rename_i hempty
    rw [Map.isEmpty_iff.mp hempty, Finmap.lookup_empty, Option.none_or, ite_self]
  · by_cases hsame : (mem.enroll req).1.id = id
    · rw [if_pos hsame, ← hsame, Finmap.lookup_insert, Option.getD_some, hnone key,
        Option.or_none]
    · rw [if_neg hsame, Finmap.lookup_insert_of_ne _ (Ne.symm hsame)]

theorem deleteAccount (h : AttrsAgree accounts db mem) {id : AccountId} (hid : id < 2 ^ 64) :
    AttrsAgree (accounts.filter fun a => a.id ≠ id) (db.deleteAccount id).2
      (mem.deleteAccount id).2 where
  canonical row hrow := h.canonical row (List.mem_filter.mp hrow).1
  owned := by
    intro row hrow
    obtain ⟨hold, hother⟩ := List.mem_filter.mp hrow
    obtain ⟨a, ha, hrowId⟩ := h.owned row hold
    refine ⟨a, List.mem_filter.mpr ⟨ha, decide_eq_true fun heq => ?_⟩, hrowId⟩
    exact of_decide_eq_true hother (hrowId.trans (congrArg asI64 heq))
  value := by
    intro other hlt key
    show (((mem.attrs.erase id).lookup other).getD ∅).lookup key = _
    refine Eq.trans ?_ (congrArg (Option.map AttrRow.value)
      (selectKey_delete fun columns : Int × Text => columns.1 = asI64 id).symm)
    by_cases hsame : other = id
    · subst hsame
      rw [Finmap.lookup_erase, if_pos rfl]
      rfl
    · rw [Finmap.lookup_erase_ne hsame, if_neg (mt (asI64_inj hlt hid).mp hsame),
        h.value other hlt key]
  unique := nodup_filter h.unique _

end AttrsAgree

/-! ## Bans -/

/-- The expiry of the ban is on the same side of the largest `i64` as `now` is. -/
def Comparable (mem : MemoryStorage) (id : AccountId) (now : Nat) (scope : BanScope) : Prop :=
  ∀ expires ∈ (mem.bans.lookup (id, scope)).bind Ban.expiresAt,
    (now < 2 ^ 63 ↔ expires < 2 ^ 63)

instance (mem : MemoryStorage) (id : AccountId) (now : Nat) (scope : BanScope) :
    Decidable (Comparable mem id now scope) :=
  inferInstanceAs (Decidable (∀ expires ∈ (mem.bans.lookup (id, scope)).bind Ban.expiresAt,
    (now < 2 ^ 63 ↔ expires < 2 ^ 63)))

structure BansAgree (db : SqliteStorage) (mem : MemoryStorage) : Prop where
  rows : ∀ id, id < 2 ^ 64 → ∀ scope,
    selectKey BanRow.primaryKey (asI64 id, scopeStr scope) db.bans =
      (mem.bans.lookup (id, scope)).map banRow
  scopes : ∀ row ∈ db.bans, ∃ scope, row.scope = scopeStr scope
  keyed : ∀ id scope ban, mem.bans.lookup (id, scope) = some ban →
    ban.account = id ∧ ban.scope = scope ∧ ban.InU64
  unique : (db.bans.map BanRow.primaryKey).Nodup

namespace BansAgree

variable {db : SqliteStorage} {mem : MemoryStorage}

theorem of_eq (h : BansAgree db mem) {db' : SqliteStorage} {mem' : MemoryStorage}
    (hrows : db'.bans = db.bans) (hbans : mem'.bans = mem.bans) : BansAgree db' mem' where
  rows := by
    rw [hrows, hbans]
    exact h.rows
  scopes := hrows ▸ h.scopes
  keyed := hbans ▸ h.keyed
  unique := hrows ▸ h.unique

theorem banPut (h : BansAgree db mem) {ban : Ban} (hban : ban.InU64) :
    BansAgree { db with bans := upsert BanRow.primaryKey (banRow ban) db.bans }
      { mem with bans := mem.bans.insert (ban.account, ban.scope) ban } where
  rows := by
    intro id hid scope
    show _ = ((mem.bans.insert (ban.account, ban.scope) ban).lookup (id, scope)).map banRow
    rw [selectKey_upsert]
    have hkey : (banRow ban).primaryKey = (asI64 id, scopeStr scope) ↔
        (id, scope) = (ban.account, ban.scope) := by
      show (asI64 ban.account, scopeStr ban.scope) = _ ↔ _
      rw [Prod.mk.injEq, Prod.mk.injEq, asI64_inj hban.1 hid, scopeStr_inj, eq_comm,
        eq_comm (a := scope)]
    by_cases hsame : (id, scope) = (ban.account, ban.scope)
    · rw [if_pos (hkey.mpr hsame), hsame, Finmap.lookup_insert]
      rfl
    · rw [if_neg (mt hkey.mp hsame), Finmap.lookup_insert_of_ne _ hsame]
      exact h.rows id hid scope
  scopes := by
    intro row hrow
    rcases mem_upsert hrow with rfl | hold
    · exact ⟨ban.scope, rfl⟩
    · exact h.scopes row hold
  keyed := by
    intro id scope other hother
    have hlookup : (mem.bans.insert (ban.account, ban.scope) ban).lookup (id, scope) =
      some other := hother
    by_cases hsame : (id, scope) = (ban.account, ban.scope)
    · rw [hsame, Finmap.lookup_insert] at hlookup
      obtain rfl := Option.some.inj hlookup
      obtain ⟨rfl, rfl⟩ := Prod.mk.inj hsame
      exact ⟨rfl, rfl, hban⟩
    · rw [Finmap.lookup_insert_of_ne _ hsame] at hlookup
      exact h.keyed id scope other hlookup
  unique := nodup_upsert h.unique _

/-- Bans whose keys meet a condition are struck from both stores. -/
theorem strike (h : BansAgree db mem) {db' : SqliteStorage} {mem' : MemoryStorage}
    (gone : Int × Text → Prop) [DecidablePred gone]
    (hrows : db'.bans = db.bans.filter fun row => ¬ gone row.primaryKey)
    (hbans : ∀ id, id < 2 ^ 64 → ∀ scope, mem'.bans.lookup (id, scope) =
      if gone (asI64 id, scopeStr scope) then none else mem.bans.lookup (id, scope))
    (hsub : ∀ key ban, mem'.bans.lookup key = some ban → mem.bans.lookup key = some ban) :
    BansAgree db' mem' where
  rows := by
    intro id hid scope
    rw [hrows, hbans id hid scope, selectKey_delete]
    split
    · rfl
    · exact h.rows id hid scope
  scopes := by
    intro row hrow
    rw [hrows] at hrow
    exact h.scopes row (List.mem_filter.mp hrow).1
  keyed id scope ban hban := h.keyed id scope ban (hsub _ _ hban)
  unique := by
    rw [hrows]
    exact nodup_filter h.unique _

theorem banClear (h : BansAgree db mem) {id : AccountId} (hid : id < 2 ^ 64) (scope : BanScope) :
    BansAgree (db.banClear id scope).2 (mem.banClear id scope).2 := by
  refine h.strike (fun columns => columns = (asI64 id, scopeStr scope)) rfl ?_ ?_
  · intro other hother otherScope
    show (mem.bans.erase (id, scope)).lookup (other, otherScope) = _
    have hkey : (asI64 other, scopeStr otherScope) = (asI64 id, scopeStr scope) ↔
        (other, otherScope) = (id, scope) := by
      rw [Prod.mk.injEq, Prod.mk.injEq, asI64_inj hother hid, scopeStr_inj]
    by_cases hsame : (other, otherScope) = (id, scope)
    · rw [if_pos (hkey.mpr hsame), hsame, Finmap.lookup_erase]
    · rw [if_neg (mt hkey.mp hsame), Finmap.lookup_erase_ne hsame]
  · intro key ban hban
    have hlookup : (mem.bans.erase (id, scope)).lookup key = some ban := hban
    by_cases hsame : key = (id, scope)
    · rw [hsame, Finmap.lookup_erase] at hlookup
      cases hlookup
    · rwa [Finmap.lookup_erase_ne hsame] at hlookup

theorem deleteAccount (h : BansAgree db mem) {id : AccountId} (hid : id < 2 ^ 64) :
    BansAgree (db.deleteAccount id).2 (mem.deleteAccount id).2 := by
  refine h.strike (fun columns => columns.1 = asI64 id) rfl ?_ ?_
  · intro other hother scope
    show (mem.bans.retain fun key _ => key.1 != id).lookup (other, scope) = _
    rw [Map.lookup_retain]
    by_cases hsame : other = id
    · rw [if_pos (congrArg asI64 hsame), hsame]
      cases mem.bans.lookup (id, scope) <;> simp
    · rw [if_neg (mt (asI64_inj hother hid).mp hsame)]
      cases mem.bans.lookup (other, scope) <;> simp [hsame]
  · intro key ban hban
    have hlookup : (mem.bans.retain fun key _ => key.1 != id).lookup key = some ban := hban
    rw [Map.lookup_retain] at hlookup
    exact (Option.filter_eq_some_iff.mp hlookup).1

/-! ### The ban in force -/

/-- The condition on the row is that the ban is in force. -/
theorem all_expires {ban : Ban} {now : Nat}
    (hside : ∀ expires, ban.expiresAt = some expires → (now < 2 ^ 63 ↔ expires < 2 ^ 63)) :
    ((banRow ban).expiresAt.all fun expires => asI64 now < expires) = ban.activeAt now := by
  rw [Ban.activeAt, banRow]
  cases hexpires : ban.expiresAt with
  | none => rfl
  | some expires => exact decide_eq_decide.mpr (asI64_lt_asI64 (hside expires hexpires))

theorem find_inForce (h : BansAgree db mem) {id : AccountId} (hid : id < 2 ^ 64) {now : Nat}
    {scope : BanScope} (hside : Comparable mem id now scope) :
    (db.bans.filter (SqliteStorage.banInForce id now)).find?
        (fun row => row.scope = scopeStr scope) =
      (mem.activeBan id now scope).map banRow := by
  have hcond : (db.bans.filter (SqliteStorage.banInForce id now)).find?
        (fun row => row.scope = scopeStr scope) =
      db.bans.find? fun row => decide (row.primaryKey = (asI64 id, scopeStr scope)) &&
        row.expiresAt.all fun expires => asI64 now < expires := by
    rw [List.find?_filter]
    refine List.find?_congr fun row _ => ?_
    rw [Bool.eq_iff_iff, decide_eq_true_eq, SqliteStorage.banInForce, Bool.and_eq_true,
      Bool.and_eq_true, decide_eq_true_eq, decide_eq_true_eq, decide_eq_true_eq,
      BanRow.primaryKey, Prod.mk.injEq]
    exact and_right_comm
  rw [hcond, find?_selectKey h.unique, h.rows id hid scope, MemoryStorage.activeBan]
  cases hban : mem.bans.lookup (id, scope) with
  | none => rfl
  | some ban =>
    have hactive := all_expires fun expires hexpires => hside expires (by
      rw [hban]
      exact hexpires)
    rw [Option.map_some, Option.filter_some, Option.filter_some, hactive]
    split <;> rfl

theorem rowToBan_activeBan (h : BansAgree db mem) (id : AccountId) (now : Nat)
    (scope : BanScope) :
    ((mem.activeBan id now scope).map banRow).map (rowToBan id) =
      mem.activeBan id now scope := by
  cases hactive : mem.activeBan id now scope with
  | none => rfl
  | some ban =>
    obtain ⟨haccount, _, hban⟩ :=
      h.keyed id scope ban (Option.filter_eq_some_iff.mp hactive).1
    rw [Option.map_some, Option.map_some, ← haccount, rowToBan_banRow hban]

theorem find_node (h : BansAgree db mem) (p : BanRow → Bool) :
    (db.bans.filter p).find? (fun row => row.scope ≠ "network".toList) =
      (db.bans.filter p).find? fun row => row.scope = scopeStr .node := by
  refine List.find?_congr fun row hrow => decide_eq_decide.mpr ?_
  obtain ⟨scope, hscope⟩ := h.scopes row (List.mem_filter.mp hrow).1
  rw [hscope, ne_eq, scopeStr_eq_network, scopeStr_inj]
  cases scope <;> decide

theorem banGet_eq (h : BansAgree db mem) {id : AccountId} (hid : id < 2 ^ 64) {now : Nat}
    (hnetwork : Comparable mem id now .network)
    (hnode : (mem.activeBan id now .network).isSome ∨ Comparable mem id now .node) :
    (db.banGet id now).1 = (mem.banGet id now).1 := by
  have hboth : (db.banGet id now).1 = .ok (((mem.activeBan id now .network).map banRow).or
      ((db.bans.filter (SqliteStorage.banInForce id now)).find?
        fun row => row.scope = scopeStr .node) |>.map (rowToBan id)) := by
    rw [← h.find_inForce hid hnetwork, ← h.find_node]
    simp only [SqliteStorage.banGet, List.head?_append, List.head?_filter]
    rfl
  have hmem : (mem.banGet id now).1 =
      .ok ((mem.activeBan id now .network).or (mem.activeBan id now .node)) := by
    rw [MemoryStorage.banGet]
    cases hactive : mem.activeBan id now .network with
    | some ban => simp [hactive]
    | none => cases hother : mem.activeBan id now .node <;> simp [hactive, hother]
  rw [hboth, hmem]
  refine congrArg Except.ok ?_
  rcases hnode with hactive | hnode
  · obtain ⟨ban, hban⟩ := Option.isSome_iff_exists.mp hactive
    have hrow := h.rowToBan_activeBan id now .network
    rw [hban] at hrow ⊢
    exact hrow
  · rw [h.find_inForce hid hnode, Option.map_or, h.rowToBan_activeBan, h.rowToBan_activeBan]

end BansAgree

/-! ## Characters -/

structure CharactersAgree (db : SqliteStorage) (mem : MemoryStorage) : Prop where
  rows : db.characterRows = mem.characterList.map characterRow
  inU64 : ∀ c ∈ mem.characterList, c.InU64
  names : (mem.characterList.map MemoryStorage.key).Nodup

namespace CharactersAgree

open MemoryStorage

variable {db : SqliteStorage} {mem : MemoryStorage}

theorem of_eq (h : CharactersAgree db mem) {db' : SqliteStorage} {mem' : MemoryStorage}
    (hrows : db'.characterRows = db.characterRows)
    (hlist : mem'.characterList = mem.characterList) : CharactersAgree db' mem' where
  rows := by
    rw [hrows, hlist]
    exact h.rows
  inU64 := hlist ▸ h.inU64
  names := hlist ▸ h.names

theorem map_rows {list : List Character} (hu64 : ∀ c ∈ list, c.InU64) :
    (list.map characterRow).map rowToCharacter = list := by
  rw [List.map_map]
  refine (List.map_congr_left fun c hc => ?_).trans (List.map_id list)
  exact rowToCharacter_characterRow (hu64 c hc)

theorem select_name (h : CharactersAgree db mem) (folded : Text) :
    selectKey CharacterRow.nameLower folded db.characterRows =
      (selectKey key folded mem.characterList).map characterRow := by
  rw [h.rows]
  exact selectKey_map characterRow fun c _ => Iff.rfl

theorem find_name (mem : MemoryStorage) (name : Text) :
    (mem.characterList.find? fun c => c.name.eqIgnoreAsciiCase name) =
      selectKey key name.toAsciiLowercase mem.characterList := by
  refine List.find?_congr fun c _ => ?_
  rw [Bool.eq_iff_iff, eqIgnoreAsciiCase_key, decide_eq_true_eq]

theorem any_name (mem : MemoryStorage) (name : Text) :
    (mem.characterList.any fun c => c.name.eqIgnoreAsciiCase name) =
      (selectKey key name.toAsciiLowercase mem.characterList).isSome := by
  rw [← find_name, Bool.eq_iff_iff, List.find?_isSome, List.any_eq_true]

theorem isCharacterRow_eq {c : Character} (hc : c.InU64) {account : AccountId}
    (haccount : account < 2 ^ 64) (name : Text) :
    SqliteStorage.isCharacterRow account name (characterRow c) = isCharacter account name c := by
  rw [Bool.eq_iff_iff, isCharacter_iff, SqliteStorage.isCharacterRow, Bool.and_eq_true,
    decide_eq_true_eq, decide_eq_true_eq]
  exact and_congr_left fun _ => asI64_inj hc.1 haccount

theorem any_isCharacterRow (h : CharactersAgree db mem) {account : AccountId}
    (haccount : account < 2 ^ 64) (name : Text) :
    db.characterRows.any (SqliteStorage.isCharacterRow account name) =
      mem.characterList.any (isCharacter account name) := by
  rw [h.rows, List.any_map, Bool.eq_iff_iff, List.any_eq_true, List.any_eq_true]
  refine exists_congr fun c => and_congr_right fun hc => ?_
  rw [Function.comp_apply, isCharacterRow_eq (h.inU64 c hc) haccount]

theorem characters_eq (h : CharactersAgree db mem) {account : AccountId}
    (haccount : account < 2 ^ 64) :
    (db.characters account).1 = (mem.characters account).1 := by
  have hfilter : db.characterRows.filter (fun row => row.accountId = asI64 account) =
      (mem.characterList.filter fun c => c.account == account).map characterRow := by
    rw [h.rows, List.filter_map]
    refine congrArg _ (List.filter_congr fun c hc => ?_)
    rw [Bool.eq_iff_iff, beq_iff_eq, Function.comp_apply, decide_eq_true_eq]
    exact asI64_inj (h.inU64 c hc).1 haccount
  refine congrArg Except.ok ?_
  rw [hfilter, map_rows fun c hc => h.inU64 c (List.mem_filter.mp hc).1]

theorem characterByName_eq (h : CharactersAgree db mem) (name : Text) :
    (db.characterByName name).1 = (mem.characterByName name).1 := by
  refine congrArg Except.ok ?_
  rw [h.select_name, find_name]
  cases hfound : selectKey key name.toAsciiLowercase mem.characterList with
  | none => rfl
  | some c => exact congrArg some (rowToCharacter_characterRow (h.inU64 c (of_selectKey hfound).1))

theorem createCharacter (h : CharactersAgree db mem) {c : Character} (hc : c.InU64)
    (hroom : db.characterSeq < maxI64) (hrow : db.hasAccount c.account = true)
    (hacc : c.account ∈ mem.accounts) :
    (db.createCharacter c).1 = (mem.createCharacter c).1 ∧
      CharactersAgree (db.createCharacter c).2 (mem.createCharacter c).2 := by
  have hseq : autoincrement db.characterSeq = .ok (db.characterSeq + 1) := if_pos hroom
  have hselect := h.select_name c.name.toAsciiLowercase
  rw [SqliteStorage.createCharacter, MemoryStorage.createCharacter, hseq,
    if_neg (not_not.mpr hacc), any_name]
  cases hfound : selectKey key c.name.toAsciiLowercase mem.characterList with
  | some taken =>
    rw [hfound] at hselect
    have hinsert : insertOrIgnore CharacterRow.nameLower (characterRow c) db.characterRows =
        none := if_pos (Option.isSome_iff_exists.mpr ⟨_, hselect⟩)
    rw [hinsert]
    refine ⟨rfl, h.of_eq ?_ rfl⟩
    dsimp only
    split <;> rfl
  | none =>
    rw [hfound] at hselect
    have hinsert : insertOrIgnore CharacterRow.nameLower (characterRow c) db.characterRows =
        some (db.characterRows ++ [characterRow c]) :=
      if_neg (Option.not_isSome_iff_eq_none.mpr hselect)
    rw [hinsert]
    have hfree : ¬ (none : Option Character).isSome = true := Bool.false_ne_true
    dsimp only
    rw [if_pos hrow, if_neg hfree]
    refine ⟨rfl, ?_, ?_, nodup_concat h.names hfound⟩
    · rw [h.rows, List.map_append, List.map_singleton]
    · intro d hd
      rcases List.mem_append.mp hd with hd | hd
      · exact h.inU64 d hd
      · rw [List.mem_singleton.mp hd]
        exact hc

theorem updateCharacter (h : CharactersAgree db mem) {c : Character} (hc : c.InU64) :
    (db.updateCharacter c).1 = (mem.updateCharacter c).1 ∧
      CharactersAgree (db.updateCharacter c).2 (mem.updateCharacter c).2 := by
  rw [MemoryStorage.updateCharacter_eq h.names]
  refine ⟨congrArg Except.ok (h.any_isCharacterRow hc.1 c.name), ?_, ?_, ?_⟩
  · show db.characterRows.map _ = _
    rw [h.rows, List.map_map, List.map_map]
    refine List.map_congr_left fun d hd => ?_
    rw [Function.comp_apply, Function.comp_apply, updated,
      isCharacterRow_eq (h.inU64 d hd) hc.1]
    split <;> rfl
  · intro d hd
    obtain ⟨old, hold, rfl⟩ := List.mem_map.mp hd
    rw [updated]
    split
    · exact ⟨(h.inU64 old hold).1, (h.inU64 old hold).2.1, hc.2.2⟩
    · exact h.inU64 old hold
  · have hcomp : MemoryStorage.key ∘ updated c = MemoryStorage.key := funext (key_updated c)
    show ((mem.characterList.map (updated c)).map MemoryStorage.key).Nodup
    rw [List.map_map, hcomp]
    exact h.names

theorem deleteCharacter (h : CharactersAgree db mem) {account : AccountId}
    (haccount : account < 2 ^ 64) (name : Text) :
    (db.deleteCharacter account name).1 = (mem.deleteCharacter account name).1 ∧
      CharactersAgree (db.deleteCharacter account name).2
        (mem.deleteCharacter account name).2 := by
  refine ⟨congrArg Except.ok ?_, ?_, fun c hc => h.inU64 c (List.mem_filter.mp hc).1,
    nodup_filter h.names _⟩
  · rw [h.any_isCharacterRow haccount, Bool.eq_iff_iff, bne_iff_ne, ne_eq,
      List.length_filter_eq_length_iff, List.any_eq_true]
    simp
  · show db.characterRows.filter _ = _
    rw [h.rows, List.filter_map]
    refine congrArg _ (List.filter_congr fun c hc => ?_)
    rw [Function.comp_apply, isCharacterRow_eq (h.inU64 c hc) haccount]

theorem deleteAccount (h : CharactersAgree db mem) {id : AccountId} (hid : id < 2 ^ 64) :
    CharactersAgree (db.deleteAccount id).2 (mem.deleteAccount id).2 := by
  refine ⟨?_, fun c hc => h.inU64 c (List.mem_filter.mp hc).1, nodup_filter h.names _⟩
  show db.characterRows.filter _ = _
  rw [h.rows, List.filter_map]
  refine congrArg _ (List.filter_congr fun c hc => ?_)
  rw [Bool.eq_iff_iff, Function.comp_apply, decide_eq_true_eq, bne_iff_ne]
  exact not_congr (asI64_inj (h.inU64 c hc).1 hid)

end CharactersAgree

/-! ## The two stores -/

/-- The rows of every table are those of the in-memory store. -/
structure Agree (listed : List Account) (db : SqliteStorage) (mem : MemoryStorage) : Prop where
  accounts : AccountsAgree listed db mem
  attrs : AttrsAgree listed db mem
  bans : BansAgree db mem
  characters : CharactersAgree db mem

/-- The integers of a call are of the types that it gives them. -/
def Call.InU64 : Call → Prop
  | .accountById id | .setCredential id _ | .attrsGet id _ | .attrsAll id | .attrsPut id _
  | .banClear id _ | .deleteAccount id | .characters id | .deleteCharacter id _ => id < 2 ^ 64
  | .createAccount req => req.createdAt < 2 ^ 64
  | .banPut ban => ban.InU64
  | .banGet id now => id < 2 ^ 64 ∧ now < 2 ^ 64
  | .listAccounts offset limit => offset < 2 ^ 64 ∧ limit < 2 ^ 32
  | .createCharacter c | .updateCharacter c => c.InU64
  | .accountByName _ | .accountCount | .characterByName _ | .flush _ => True

def Call.NamesAccount (mem : MemoryStorage) : Call → Prop
  | .attrsPut id _ => id ∈ mem.accounts
  | .banPut ban => ban.account ∈ mem.accounts
  | .createCharacter c => c.account ∈ mem.accounts
  | _ => True

/-- The call does not meet a `u64` that is no `i64` where the order counts, and a table that a row
is put into has an id for it. -/
def Exact (db : SqliteStorage) (mem : MemoryStorage) : Call → Prop
  | .createAccount req => validateAccountName req.name = .ok () → db.accountSeq < maxI64
  | .createCharacter _ => db.characterSeq < maxI64
  | .banGet id now => Comparable mem id now .network ∧
      ((mem.activeBan id now .network).isSome ∨ Comparable mem id now .node)
  | .listAccounts offset limit => offset < 2 ^ 63 ∨ limit = 0 ∨ mem.accounts = ∅
  | _ => True

namespace Agree

variable {accounts : List Account} {db : SqliteStorage} {mem : MemoryStorage}

theorem new (ignoredUsesId : Bool) : Agree [] (.new ignoredUsesId) .new where
  accounts :=
    { rows := rfl
      ascending := List.Pairwise.nil
      seq := rfl
      room := by decide
      within := fun a ha => absurd ha List.not_mem_nil
      lookup := fun id a => by
        rw [MemoryStorage.new, Finmap.lookup_empty]
        exact iff_of_false (fun ha => by cases ha) fun ha => absurd ha.1 List.not_mem_nil
      byName := fun folded id => by
        rw [MemoryStorage.new, Finmap.lookup_empty]
        exact iff_of_false (fun ha => by cases ha) fun ha =>
          absurd ha.choose_spec.1 List.not_mem_nil }
  attrs :=
    { canonical := fun row hrow => absurd hrow List.not_mem_nil
      owned := fun row hrow => absurd hrow List.not_mem_nil
      value := fun id _ key => by
        rw [MemoryStorage.new, Finmap.lookup_empty]
        rfl
      unique := List.nodup_nil }
  bans :=
    { rows := fun id _ scope => by
        rw [MemoryStorage.new, Finmap.lookup_empty]
        rfl
      scopes := fun row hrow => absurd hrow List.not_mem_nil
      keyed := fun id scope ban hban => by
        rw [MemoryStorage.new, Finmap.lookup_empty] at hban
        cases hban
      unique := List.nodup_nil }
  characters := ⟨rfl, fun c hc => absurd hc List.not_mem_nil, List.nodup_nil⟩

theorem accountWhere_eq (h : Agree accounts db mem) (id : AccountId) :
    db.accountWhere ((mem.accounts.lookup id).map accountRow) =
      (.ok (mem.accounts.lookup id), db) := by
  cases hlookup : mem.accounts.lookup id with
  | none => rfl
  | some a =>
    rw [Option.map_some, SqliteStorage.accountWhere,
      h.accounts.rowToAccount_ok ((h.accounts.lookup id a).mp hlookup).1]
    rfl

theorem accountByName (h : Agree accounts db mem) (name : Text) :
    db.accountByName name = ((mem.accountByName name).1, db) := by
  rw [SqliteStorage.accountByName, h.accounts.select_name, MemoryStorage.accountByName]
  cases mem.byName.lookup name.toAsciiLowercase with
  | none => rfl
  | some id => exact h.accountWhere_eq id

theorem accountById (h : Agree accounts db mem) {id : AccountId} (hid : id < 2 ^ 64) :
    db.accountById id = ((mem.accountById id).1, db) := by
  rw [SqliteStorage.accountById, h.accounts.select_id hid]
  exact h.accountWhere_eq id

theorem createAccount (h : Agree accounts db mem) {req : NewAccount}
    (htime : req.createdAt < 2 ^ 64)
    (hroom : validateAccountName req.name = .ok () → db.accountSeq < maxI64) :
    (db.createAccount req).1 = (mem.createAccount req).1 ∧
      ∃ accounts', Agree accounts' (db.createAccount req).2 (mem.createAccount req).2 := by
  rw [SqliteStorage.createAccount, MemoryStorage.createAccount]
  cases hvalid : validateAccountName req.name with
  | error e => exact ⟨rfl, accounts, h⟩
  | ok =>
    have hroom := hroom hvalid
    have hseq : autoincrement db.accountSeq = .ok (db.accountSeq + 1) := if_pos hroom
    have hselect := h.accounts.select_name req.name.toAsciiLowercase
    rw [hseq]
    dsimp only
    by_cases htaken : req.name.toAsciiLowercase ∈ mem.byName
    · rw [if_pos htaken]
      obtain ⟨id, hid⟩ := Finmap.mem_iff.mp htaken
      obtain ⟨a, ha, haid, _⟩ := (h.accounts.byName _ id).mp hid
      rw [hid, Option.bind_some, (h.accounts.lookup id a).mpr ⟨ha, haid⟩] at hselect
      have hinsert (row : AccountRow) (hrow : row.nameLower = req.name.toAsciiLowercase) :
          insertOrIgnore AccountRow.nameLower row db.accounts = none :=
        if_pos (Option.isSome_iff_exists.mpr ⟨_, hrow ▸ hselect⟩)
      rw [hinsert _ rfl]
      exact ⟨rfl, accounts, h⟩
    · rw [if_neg htaken]
      have hfree := Finmap.lookup_eq_none.mpr htaken
      rw [hfree, Option.bind_none] at hselect
      obtain ⟨hnext, hlt⟩ := h.accounts.nextId_succ hroom
      have hid := h.accounts.id_enroll hroom req
      have hrowId : asI64 (mem.enroll req).1.id = db.accountSeq + 1 := by
        rw [hid, asI64_of_lt hlt, h.accounts.seq]
        rfl
      have hrow : accountRow (mem.enroll req).1 = ⟨db.accountSeq + 1, req.name,
          req.name.toAsciiLowercase, credentialColumns req.credential, asI64 req.createdAt⟩ := by
        rw [← hrowId]
        rfl
      have hinsert : insertOrIgnore AccountRow.nameLower (accountRow (mem.enroll req).1)
          db.accounts = some (db.accounts ++ [accountRow (mem.enroll req).1]) :=
        if_neg (Option.not_isSome_iff_eq_none.mpr hselect)
      have hattrs := insertAttrs_new req.attrs fun row hmem =>
        hrowId ▸ h.attrs.notMem_enroll h.accounts hroom req hmem
      rw [← hrow, hinsert]
      dsimp only
      rw [hattrs]
      refine ⟨?_, accounts ++ [(mem.enroll req).1], ?_, ?_, ?_, ?_⟩
      · rw [← hrowId, asU64_asI64 (hid ▸ Nat.lt_trans hlt (by decide))]
        rfl
      · exact h.accounts.enroll hroom htime htaken _
      · exact h.attrs.enroll h.accounts hroom req (by rw [hrowId])
      · exact h.bans.of_eq rfl rfl
      · exact h.characters.of_eq rfl rfl

theorem setCredential (h : Agree accounts db mem) {id : AccountId} (hid : id < 2 ^ 64)
    (credential : Credential) :
    (db.setCredential id credential).1 = (mem.setCredential id credential).1 ∧
      ∃ accounts', Agree accounts' (db.setCredential id credential).2
        (mem.setCredential id credential).2 := by
  have hhas := h.accounts.hasAccount_iff hid
  rw [SqliteStorage.setCredential, MemoryStorage.setCredential]
  cases hlookup : mem.accounts.lookup id with
  | none =>
    have hmissing : ¬ db.hasAccount id = true :=
      mt hhas.mp (Finmap.lookup_eq_none.mp hlookup)
    rw [if_neg hmissing]
    exact ⟨rfl, accounts, h⟩
  | some a =>
    have hthere : db.hasAccount id = true :=
      hhas.mpr (Finmap.mem_of_lookup_eq_some hlookup)
    rw [if_pos hthere]
    refine ⟨rfl, accounts.map (AccountsAgree.withCredential id credential),
      h.accounts.setCredential hid hlookup credential, ?_, h.bans.of_eq rfl rfl,
      h.characters.of_eq rfl rfl⟩
    refine h.attrs.of_eq (fun b hb => ?_) rfl rfl
    exact ⟨_, List.mem_map_of_mem hb, AccountsAgree.withCredential_id id credential b⟩

theorem attrsPut (h : Agree accounts db mem) {id : AccountId} (hid : id < 2 ^ 64)
    (hmem : id ∈ mem.accounts) (attrs : AttrMap) :
    (db.attrsPut id attrs).1 = (mem.attrsPut id attrs).1 ∧
      Agree accounts (db.attrsPut id attrs).2 (mem.attrsPut id attrs).2 := by
  obtain ⟨a, ha⟩ := Finmap.mem_iff.mp hmem
  obtain ⟨hacc, rfl⟩ := (h.accounts.lookup id a).mp ha
  rw [SqliteStorage.attrsPut, MemoryStorage.attrsPut,
    if_pos ((h.accounts.hasAccount_iff hid).mpr hmem)]
  split
  · exact ⟨rfl, h⟩
  · exact ⟨rfl, h.accounts.of_eq rfl rfl rfl rfl rfl, h.attrs.attrsPut hacc hid attrs,
      h.bans.of_eq rfl rfl, h.characters.of_eq rfl rfl⟩

theorem listAccounts (h : Agree accounts db mem) {offset limit : Nat}
    (hexact : offset < 2 ^ 63 ∨ limit = 0 ∨ mem.accounts = ∅) :
    (db.listAccounts offset limit).1 = (mem.listAccounts offset limit).1 := by
  have hmem : (mem.listAccounts offset limit).1 = .ok ((accounts.drop offset).take limit) := by
    rw [MemoryStorage.listAccounts]
    dsimp only
    rw [h.accounts.sort_keys, ← List.map_drop, ← List.map_take]
    refine congrArg Except.ok (h.accounts.filterMap_lookup fun a ha => ?_)
    exact List.mem_of_mem_drop (List.mem_of_mem_take ha)
  have hdb : (db.listAccounts offset limit).1 =
      .ok ((accounts.drop (asI64 offset).toNat).take limit) := by
    rw [SqliteStorage.listAccounts, h.accounts.rows, ← List.map_drop, ← List.map_take]
    refine h.accounts.mapM_rows fun a ha => ?_
    exact List.mem_of_mem_drop (List.mem_of_mem_take ha)
  rw [hmem, hdb]
  refine congrArg Except.ok ?_
  rcases hexact with hoffset | rfl | hnone
  · rw [asI64_of_lt hoffset]
    rfl
  · rw [List.take_zero, List.take_zero]
  · have hnil : accounts = [] := by
      refine List.eq_nil_iff_forall_not_mem.mpr fun a ha => ?_
      have hlookup := (h.accounts.lookup a.id a).mpr ⟨ha, rfl⟩
      rw [hnone, Finmap.lookup_empty] at hlookup
      cases hlookup
    rw [hnil, List.drop_nil, List.drop_nil]

theorem deleteAccount (h : Agree accounts db mem) {id : AccountId} (hid : id < 2 ^ 64) :
    Agree (accounts.filter fun a => a.id ≠ id) (db.deleteAccount id).2 (mem.deleteAccount id).2 :=
  ⟨h.accounts.deleteAccount hid, h.attrs.deleteAccount hid, h.bans.deleteAccount hid,
    h.characters.deleteAccount hid⟩

theorem of_characters (h : Agree accounts db mem) {db' : SqliteStorage} {mem' : MemoryStorage}
    (hdb : db' = { db with
      characterRows := db'.characterRows
      characterSeq := db'.characterSeq })
    (hmem : mem' = { mem with characterList := mem'.characterList })
    (hcharacters : CharactersAgree db' mem') : Agree accounts db' mem' where
  accounts := by
    rw [hdb, hmem]
    exact h.accounts.of_eq rfl rfl rfl rfl rfl
  attrs := by
    rw [hdb, hmem]
    exact h.attrs.of_eq (fun a ha => ⟨a, ha, rfl⟩) rfl rfl
  bans := by
    rw [hdb, hmem]
    exact h.bans.of_eq rfl rfl
  characters := hcharacters

theorem createCharacter (h : Agree accounts db mem) {c : Character} (hc : c.InU64)
    (hroom : db.characterSeq < maxI64) (hacc : c.account ∈ mem.accounts) :
    (db.createCharacter c).1 = (mem.createCharacter c).1 ∧
      Agree accounts (db.createCharacter c).2 (mem.createCharacter c).2 := by
  have hrow := (h.accounts.hasAccount_iff hc.1).mpr hacc
  obtain ⟨hanswer, hcharacters⟩ := h.characters.createCharacter hc hroom hrow hacc
  refine ⟨hanswer, h.of_characters ?_ ?_ hcharacters⟩
  · unfold SqliteStorage.createCharacter
    split
    · rfl
    · split
      · dsimp only
        split <;> rfl
      · split <;> rfl
  · unfold MemoryStorage.createCharacter
    split
    · rfl
    · split <;> rfl

theorem answer (h : Agree accounts db mem) {c : Call} (hu64 : c.InU64)
    (hnames : c.NamesAccount mem) (hexact : Exact db mem c) :
    (Storage.answer db c).1 = (Storage.answer mem c).1 ∧
      ∃ accounts', Agree accounts' (Storage.answer db c).2 (Storage.answer mem c).2 := by
  cases c with
  | accountByName name =>
    have hdb : Storage.answer db (.accountByName name) =
        (db.accountByName name).map .account id := rfl
    rw [hdb, h.accountByName name]
    exact ⟨rfl, accounts, h⟩
  | accountById id =>
    have hdb : Storage.answer db (.accountById id) = (db.accountById id).map .account fun s => s :=
      rfl
    rw [hdb, h.accountById hu64]
    exact ⟨rfl, accounts, h⟩
  | createAccount req =>
    obtain ⟨hanswer, hagree⟩ := h.createAccount hu64 hexact
    exact ⟨congrArg Reply.created hanswer, hagree⟩
  | setCredential id credential =>
    obtain ⟨hanswer, hagree⟩ := h.setCredential hu64 credential
    exact ⟨congrArg Reply.done hanswer, hagree⟩
  | attrsGet id keys =>
    have hmem : (Storage.answer mem (.attrsGet id keys)) =
        (.attrs (.ok (Map.pick ((mem.attrs.lookup id).getD ∅) ∅ keys)), mem) :=
      congrArg (Prod.map Reply.attrs fun s => s) (mem.attrsGet_eq id keys)
    rw [hmem]
    exact ⟨congrArg (fun out => Reply.attrs (.ok out)) (h.attrs.pickAttrs_eq hu64 ∅ keys),
      accounts, h⟩
  | attrsAll id =>
    exact ⟨congrArg (fun out => Reply.attrs (.ok out)) (h.attrs.attrsAll_eq hu64), accounts, h⟩
  | attrsPut id attrs =>
    obtain ⟨hanswer, hagree⟩ := h.attrsPut hu64 hnames attrs
    exact ⟨congrArg Reply.done hanswer, accounts, hagree⟩
  | banPut ban =>
    have hdb : db.banPut ban =
        (.ok (), { db with bans := upsert BanRow.primaryKey (banRow ban) db.bans }) :=
      if_pos ((h.accounts.hasAccount_iff hu64.1).mpr hnames)
    have hanswer : Storage.answer db (.banPut ban) = (db.banPut ban).map .done id := rfl
    rw [hanswer, hdb]
    exact ⟨rfl, accounts, h.accounts.of_eq rfl rfl rfl rfl rfl,
      h.attrs.of_eq (fun a ha => ⟨a, ha, rfl⟩) rfl rfl, h.bans.banPut hu64,
      h.characters.of_eq rfl rfl⟩
  | banGet id now =>
    exact ⟨congrArg Reply.ban (h.bans.banGet_eq hu64.1 hexact.1 hexact.2), accounts, h⟩
  | banClear id scope =>
    exact ⟨rfl, accounts, h.accounts.of_eq rfl rfl rfl rfl rfl,
      h.attrs.of_eq (fun a ha => ⟨a, ha, rfl⟩) rfl rfl, h.bans.banClear hu64 scope,
      h.characters.of_eq rfl rfl⟩
  | accountCount =>
    have hcount : db.accounts.length = mem.accounts.len := by
      rw [h.accounts.rows, List.length_map, h.accounts.len_accounts]
    exact ⟨congrArg (fun n => Reply.count (.ok n)) hcount, accounts, h⟩
  | listAccounts offset limit =>
    exact ⟨congrArg Reply.accounts (h.listAccounts hexact), accounts, h⟩
  | deleteAccount id => exact ⟨rfl, _, h.deleteAccount hu64⟩
  | characters id =>
    exact ⟨congrArg Reply.characters (h.characters.characters_eq hu64), accounts, h⟩
  | characterByName name =>
    exact ⟨congrArg Reply.character (h.characters.characterByName_eq name), accounts, h⟩
  | createCharacter c =>
    obtain ⟨hanswer, hagree⟩ := h.createCharacter hu64 hexact hnames
    exact ⟨congrArg Reply.done hanswer, accounts, hagree⟩
  | updateCharacter c =>
    obtain ⟨hanswer, hcharacters⟩ := h.characters.updateCharacter hu64
    refine ⟨congrArg Reply.changed hanswer, accounts, h.of_characters rfl ?_ hcharacters⟩
    show (mem.updateCharacter c).2 =
      { mem with characterList := (mem.updateCharacter c).2.characterList }
    rw [MemoryStorage.updateCharacter_eq h.characters.names]
  | deleteCharacter id name =>
    obtain ⟨hanswer, hcharacters⟩ := h.characters.deleteCharacter hu64 name
    exact ⟨congrArg Reply.changed hanswer, accounts, h.of_characters rfl rfl hcharacters⟩
  | flush drain => exact ⟨rfl, accounts, h⟩

end Agree

/-! ## Runs -/

/-- A call that is well typed, stores nothing for an account that is not there, and is exact. -/
def Faithful (p : SqliteStorage × MemoryStorage) (c : Call) : Prop :=
  c.InU64 ∧ c.NamesAccount p.2 ∧ Exact p.1 p.2 c

/-- **SQLite answers as the in-memory reference**, call by call, along every run whose calls are
exact: no ban is looked for at a time on the other side of the largest `i64` than its expiry, no
page starts beyond that, and the ids of the tables are not used up. -/
theorem sqlite_answers (ignoredUsesId : Bool) (calls : List Call)
    (h : Along (both answer answer) Faithful (SqliteStorage.new ignoredUsesId, MemoryStorage.new)
      calls) :
    answers answer (SqliteStorage.new ignoredUsesId) calls =
      answers answer MemoryStorage.new calls := by
  refine (lockstep (R := fun db mem => ∃ accounts, Agree accounts db mem) ?_
    ⟨[], Agree.new ignoredUsesId⟩ h).1
  rintro db mem c ⟨accounts, hagree⟩ ⟨hu64, hnames, hexact⟩
  exact hagree.answer hu64 hnames hexact

def dragoon : NewAccount := ⟨"Dragoon".toList, .xsha1 (Vector.replicate 20 0), 0, ∅⟩

def flooding (expires : Nat) : Ban := ⟨1, .node, "flooding".toList, 100, some expires⟩

theorem sqlite_answers_flooding :
    answers answer (SqliteStorage.new true)
        [.createAccount dragoon, .banPut (flooding 200), .banGet 1 150, .banGet 1 200] =
      answers answer MemoryStorage.new
        [.createAccount dragoon, .banPut (flooding 200), .banGet 1 150, .banGet 1 200] := by
  refine sqlite_answers true _ ⟨⟨?_, trivial, fun _ => by decide⟩, ⟨⟨?_, ?_, ?_⟩, ?_, trivial⟩,
    ⟨?_, trivial, ?_, Or.inr ?_⟩, ⟨?_, trivial, ?_, Or.inr ?_⟩, trivial⟩
  · show 0 < 2 ^ 64
    decide
  · show 1 < 2 ^ 64
    decide
  · show 100 < 2 ^ 64
    decide
  · rintro e ⟨⟩
    decide
  · show (1 : Nat) ∈ _
    decide
  · show 1 < 2 ^ 64 ∧ 150 < 2 ^ 64
    decide
  · decide
  · decide
  · show 1 < 2 ^ 64 ∧ 200 < 2 ^ 64
    decide
  · decide
  · decide

/-- A ban that ends after the largest `i64` is not in force. -/
theorem lasting_ban_lapses :
    ¬ ∀ ignoredUsesId calls,
      Along (both answer answer) (fun p c => c.InU64 ∧ c.NamesAccount p.2)
          (SqliteStorage.new ignoredUsesId, MemoryStorage.new) calls →
        answers answer (SqliteStorage.new ignoredUsesId) calls =
          answers answer MemoryStorage.new calls := by
  intro h
  have hanswers := h true
    [.createAccount dragoon, .banPut (flooding (2 ^ 63)), .banGet 1 150] (by
      refine ⟨⟨?_, trivial⟩, ⟨⟨?_, ?_, ?_⟩, ?_⟩, ⟨?_, trivial⟩, trivial⟩
      · show 0 < 2 ^ 64
        decide
      · show 1 < 2 ^ 64
        decide
      · show 100 < 2 ^ 64
        decide
      · rintro e ⟨⟩
        decide
      · show (1 : Nat) ∈ _
        decide
      · show 1 < 2 ^ 64 ∧ 150 < 2 ^ 64
        decide)
  obtain ⟨_, hanswers⟩ := List.cons.inj hanswers
  obtain ⟨_, hanswers⟩ := List.cons.inj hanswers
  obtain ⟨hlast, _⟩ := List.cons.inj hanswers
  exact absurd (Reply.ban.inj hlast) (by decide)

end CommandCenter.Storage
