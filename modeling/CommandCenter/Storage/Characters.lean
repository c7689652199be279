import CommandCenter.Storage.Memory

/-!
# The characters of a store

Names of realm characters are unique realm-wide, whatever their case, and every character belongs
to an account. The in-memory backend keeps a store so.

* `tidy_createCharacter`, `tidy_updateCharacter`, `tidy_deleteCharacter`, `tidy_deleteAccount`.
* `updateCharacter_eq`: an update overwrites the one character of that account and name.
-/

namespace CommandCenter.Storage.MemoryStorage

open Rust CommandCenter.Core

/-- The name that a character is found by. -/
def key (c : Character) : Text := c.name.toAsciiLowercase

/-- Names are unique, every character has an account, and an account is under its id. -/
structure Tidy (s : MemoryStorage) : Prop where
  names : (s.characterList.map key).Nodup
  owners : ∀ c ∈ s.characterList, c.account ∈ s.accounts
  ids : ∀ id a, s.accounts.lookup id = some a → a.id = id

variable {s : MemoryStorage}

theorem tidy_new : Tidy new where
  names := List.nodup_nil
  owners _ h := nomatch h
  ids id a h := by
    rw [new, Finmap.lookup_empty] at h
    cases h

theorem eqIgnoreAsciiCase_key {c : Character} {name : Text} :
    c.name.eqIgnoreAsciiCase name = true ↔ key c = name.toAsciiLowercase :=
  Text.eqIgnoreAsciiCase_iff

theorem isCharacter_iff {account : AccountId} {name : Text} {c : Character} :
    isCharacter account name c = true ↔ c.account = account ∧ key c = name.toAsciiLowercase := by
  rw [isCharacter, Bool.and_eq_true, beq_iff_eq, eqIgnoreAsciiCase_key]

/-- A character is found by its name. -/
theorem Tidy.eq_of_key (h : s.Tidy) {c d : Character} (hc : c ∈ s.characterList)
    (hd : d ∈ s.characterList) (hkey : key c = key d) : c = d :=
  List.inj_on_of_nodup_map h.names hc hd hkey

/-! ## The calls keep a store tidy -/

/-- A store that lost characters, and no account that one belongs to. -/
theorem Tidy.filter (h : s.Tidy) (p : Character → Bool) {s' : MemoryStorage}
    (hlist : s'.characterList = s.characterList.filter p)
    (hacc : ∀ c ∈ s'.characterList, c.account ∈ s.accounts → c.account ∈ s'.accounts)
    (hids : ∀ id a, s'.accounts.lookup id = some a → a.id = id) : s'.Tidy := by
  refine ⟨?_, fun c hc => hacc c hc ?_, hids⟩
  · rw [hlist]
    exact h.names.sublist (List.filter_sublist.map key)
  · rw [hlist] at hc
    exact h.owners c (List.mem_filter.mp hc).1

/-- A store whose characters have other fields. -/
theorem Tidy.map (h : s.Tidy) {f : Character → Character} (hkey : ∀ c, key (f c) = key c)
    (haccount : ∀ c, (f c).account = c.account) {s' : MemoryStorage}
    (hlist : s'.characterList = s.characterList.map f) (hacc : s'.accounts = s.accounts) :
    s'.Tidy := by
  refine ⟨?_, fun c hc => ?_, hacc ▸ h.ids⟩
  · have hcomp : key ∘ f = key := funext hkey
    rw [hlist, List.map_map, hcomp]
    exact h.names
  · rw [hlist] at hc
    obtain ⟨d, hd, rfl⟩ := List.mem_map.mp hc
    rw [haccount, hacc]
    exact h.owners d hd

theorem tidy_createCharacter (h : s.Tidy) (c : Character) : (s.createCharacter c).2.Tidy := by
  unfold createCharacter
  split
  · exact h
  · rename_i hacc
    split
    · exact h
    · rename_i htaken
      have hfree : key c ∉ s.characterList.map key := by
        intro hmem
        obtain ⟨d, hd, hkey⟩ := List.mem_map.mp hmem
        exact htaken (List.any_eq_true.mpr ⟨d, hd, eqIgnoreAsciiCase_key.mpr hkey⟩)
      refine ⟨?_, fun d hd => ?_, h.ids⟩
      · rw [List.map_append, List.map_singleton]
        exact h.names.append (List.nodup_singleton _) (List.disjoint_singleton.mpr hfree)
      · rcases List.mem_append.mp hd with hd | hd
        · exact h.owners d hd
        · rw [List.mem_singleton.mp hd]
          exact not_not.mp hacc

theorem tidy_deleteCharacter (h : s.Tidy) (account : AccountId) (name : Text) :
    (s.deleteCharacter account name).2.Tidy := h.filter _ rfl (fun _ _ hacc => hacc) h.ids

theorem tidy_deleteAccount (h : s.Tidy) (id : AccountId) : (s.deleteAccount id).2.Tidy := by
  refine h.filter _ rfl (fun c hc hacc => ?_) fun other a ha => ?_
  · have hne : c.account ≠ id := by simpa using (List.mem_filter.mp hc).2
    exact Finmap.mem_erase.mpr ⟨hne, hacc⟩
  · by_cases hother : other = id
    · subst hother
      rw [deleteAccount, Finmap.lookup_erase] at ha
      cases ha
    · rw [deleteAccount, Finmap.lookup_erase_ne hother] at ha
      exact h.ids other a ha

theorem createAccount_eq (req : NewAccount) : (s.createAccount req).2 = s ∨
    ∃ account : Account, (s.createAccount req).2.characterList = s.characterList ∧
      (s.createAccount req).2.accounts = s.accounts.insert account.id account := by
  rcases createAccount_cases s req with ⟨e, h⟩ | h
  · have heq : s.createAccount req = (.error e, s) := h s.attrs
    exact Or.inl (congrArg Prod.snd heq)
  · have heq : s.createAccount req = (s.enroll req).map .ok id := h s.attrs
    rw [heq]
    exact Or.inr ⟨(s.enroll req).1, rfl, rfl⟩

theorem tidy_createAccount (h : s.Tidy) (req : NewAccount) : (s.createAccount req).2.Tidy := by
  rcases createAccount_eq (s := s) req with heq | ⟨account, hlist, hacc⟩
  · rw [heq]
    exact h
  · refine ⟨hlist ▸ h.names, fun c hc => ?_, fun id a ha => ?_⟩
    · rw [hacc]
      exact Finmap.mem_insert.mpr (Or.inr (h.owners c (hlist ▸ hc)))
    · rw [hacc] at ha
      by_cases hid : id = account.id
      · rw [hid, Finmap.lookup_insert] at ha
        rw [hid, Option.some.inj ha]
      · rw [Finmap.lookup_insert_of_ne _ hid] at ha
        exact h.ids id a ha

/-! ## Updates -/

/-- To change the first element with `p` is to change each, where no two have it. -/
theorem modify_findIdx {α : Type} {p : α → Bool} (f : α → α) {l : List α}
    (h : l.Pairwise fun a b => ¬ (p a = true ∧ p b = true)) :
    (match l.findIdx? p with
      | none => l
      | some i => l.modify i f) = l.map fun x => if p x then f x else x := by
  induction l with
  | nil => rfl
  | cons a l ih =>
    obtain ⟨ha, hl⟩ := List.pairwise_cons.mp h
    rw [List.findIdx?_cons, List.map_cons]
    by_cases hp : p a = true
    · have hothers : l.map (fun x => if p x then f x else x) = l := by
        rw [List.map_congr_left (g := id)]
        · exact List.map_id l
        · exact fun x hx => if_neg fun hpx => ha x hx ⟨hp, hpx⟩
      rw [if_pos hp, if_pos hp, hothers]
      rfl
    · rw [if_neg hp, if_neg hp, ← ih hl]
      cases l.findIdx? p <;> rfl

def updated (character c : Character) : Character :=
  if isCharacter character.account character.name c then overwrite c character else c

theorem pairwise_isCharacter (hnames : (s.characterList.map key).Nodup) (account : AccountId)
    (name : Text) :
    s.characterList.Pairwise fun a b =>
      ¬ (isCharacter account name a = true ∧ isCharacter account name b = true) := by
  refine (List.pairwise_map.mp hnames).imp fun hne hboth => hne ?_
  rw [(isCharacter_iff.mp hboth.1).2, (isCharacter_iff.mp hboth.2).2]

/-- An update overwrites the one character of that account and name. -/
theorem updateCharacter_eq (hnames : (s.characterList.map key).Nodup) (character : Character) :
    s.updateCharacter character =
      (.ok (s.characterList.any (isCharacter character.account character.name)),
        { s with characterList := s.characterList.map (updated character) }) := by
  have hlist := modify_findIdx (fun slot => overwrite slot character)
    (pairwise_isCharacter hnames character.account character.name)
  rw [updateCharacter]
  split
  · rename_i hnone
    rw [hnone] at hlist
    have hany : s.characterList.any (isCharacter character.account character.name) = false := by
      rw [List.any_eq_false]
      exact fun c hc => by simpa using List.findIdx?_eq_none_iff.mp hnone c hc
    rw [hany]
    exact congrArg (fun l => (Except.ok false, { s with characterList := l })) hlist
  · rename_i i hsome
    rw [hsome] at hlist
    have hany : s.characterList.any (isCharacter character.account character.name) = true := by
      have hget := List.findIdx?_eq_some_iff_getElem.mp hsome
      exact List.any_eq_true.mpr ⟨_, List.getElem_mem hget.1, hget.2.1⟩
    rw [hany]
    exact congrArg (fun l => (Except.ok true, { s with characterList := l })) hlist

@[simp] theorem key_updated (character c : Character) : key (updated character c) = key c := by
  unfold updated
  split <;> rfl

@[simp] theorem account_updated (character c : Character) :
    (updated character c).account = c.account := by
  unfold updated
  split <;> rfl

theorem tidy_updateCharacter (h : s.Tidy) (character : Character) :
    (s.updateCharacter character).2.Tidy := by
  rw [updateCharacter_eq h.names]
  exact h.map (key_updated character) (account_updated character) rfl rfl

end CommandCenter.Storage.MemoryStorage

namespace CommandCenter.Storage

open Rust CommandCenter.Core MemoryStorage

structure CharacterStore where
  store : MemoryStorage
  tidy : store.Tidy

namespace CharacterStore

def new : CharacterStore := ⟨.new, tidy_new⟩

def ofAccount (a : Account) (characters : List Character)
    (howner : ∀ c ∈ characters, c.account = a.id) (hnames : (characters.map key).Nodup) :
    CharacterStore where
  store := { MemoryStorage.new with
    accounts := Finmap.singleton a.id a
    characterList := characters }
  tidy := by
    refine ⟨hnames, fun c hc => ?_, fun id account h => ?_⟩
    · rw [howner c hc]
      exact (Finmap.mem_singleton _ _ _).mpr rfl
    · have h : (Finmap.singleton a.id a : Map AccountId Account).lookup id = some account := h
      have hid := (Finmap.mem_singleton _ _ _).mp (Finmap.mem_of_lookup_eq_some h)
      rw [hid, Finmap.lookup_singleton_eq] at h
      rw [hid, ← Option.some.inj h]

def list (s : CharacterStore) : List Character := s.store.characterList

def characters (s : CharacterStore) (account : AccountId) : Result (List Character) :=
  (s.store.characters account).1

def characterByName (s : CharacterStore) (name : Text) : Result (Option Character) :=
  (s.store.characterByName name).1

def createCharacter (s : CharacterStore) (c : Character) : Result Unit × CharacterStore :=
  ((s.store.createCharacter c).1, ⟨_, tidy_createCharacter s.tidy c⟩)

def updateCharacter (s : CharacterStore) (c : Character) : Result Bool × CharacterStore :=
  ((s.store.updateCharacter c).1, ⟨_, tidy_updateCharacter s.tidy c⟩)

def deleteCharacter (s : CharacterStore) (account : AccountId) (name : Text) :
    Result Bool × CharacterStore :=
  ((s.store.deleteCharacter account name).1, ⟨_, tidy_deleteCharacter s.tidy account name⟩)

def createAccount (s : CharacterStore) (req : NewAccount) : CharacterStore :=
  ⟨(s.store.createAccount req).2, tidy_createAccount s.tidy req⟩

def deleteAccount (s : CharacterStore) (id : AccountId) : CharacterStore :=
  ⟨(s.store.deleteAccount id).2, tidy_deleteAccount s.tidy id⟩

/-! ### One account -/

def owned (s : CharacterStore) (account : AccountId) : List Character :=
  s.list.filter fun c => c.account == account

variable {s : CharacterStore} {c : Character} {account b : AccountId} {name : Text}

theorem characters_eq (s : CharacterStore) (account : AccountId) :
    s.characters account = .ok (s.owned account) := rfl

theorem mem_owned : c ∈ s.owned account ↔ c ∈ s.list ∧ c.account = account := by
  simp [owned]

theorem createCharacter_cases (s : CharacterStore) (c : Character) :
    ((s.createCharacter c).1 = .ok () ∧ (s.createCharacter c).2.list = s.list ++ [c] ∧
      ∀ d ∈ s.list, key d ≠ key c) ∨
    ((s.createCharacter c).1 ≠ .ok () ∧ (s.createCharacter c).2 = s) := by
  have hmk {store : MemoryStorage} {h : store.Tidy} (heq : store = s.store) :
      (⟨store, h⟩ : CharacterStore) = s := by
    subst heq
    rfl
  by_cases haccount : c.account ∉ s.store.accounts
  · have hrefused : s.store.createCharacter c = (.error .noSuchAccount, s.store) := by
      rw [MemoryStorage.createCharacter, if_pos haccount]
    refine .inr ⟨?_, hmk ?_⟩
    · show (s.store.createCharacter c).1 ≠ _
      rw [hrefused]
      simp
    · rw [hrefused]
  · by_cases htaken : s.store.characterList.any fun d => d.name.eqIgnoreAsciiCase c.name
    · have hrefused : s.store.createCharacter c = (.error .nameTaken, s.store) := by
        rw [MemoryStorage.createCharacter, if_neg haccount, if_pos htaken]
      refine .inr ⟨?_, hmk ?_⟩
      · show (s.store.createCharacter c).1 ≠ _
        rw [hrefused]
        simp
      · rw [hrefused]
    · have hmade : s.store.createCharacter c =
          (.ok (), { s.store with characterList := s.store.characterList ++ [c] }) := by
        rw [MemoryStorage.createCharacter, if_neg haccount, if_neg htaken]
      refine .inl ⟨congrArg Prod.fst hmade, ?_, fun d hd hkey => ?_⟩
      · exact congrArg (fun r => r.2.characterList) hmade
      · exact htaken (List.any_eq_true.mpr ⟨d, hd, eqIgnoreAsciiCase_key.mpr hkey⟩)

theorem list_updateCharacter (s : CharacterStore) (c : Character) :
    (s.updateCharacter c).2.list = s.list.map (updated c) :=
  congrArg (fun r => r.2.characterList) (updateCharacter_eq s.tidy.names c)

theorem list_deleteCharacter (s : CharacterStore) (account : AccountId) (name : Text) :
    (s.deleteCharacter account name).2.list =
      s.list.filter fun c => !isCharacter account name c := rfl

theorem deleteCharacter_fst (s : CharacterStore) (account : AccountId) (name : Text) :
    (s.deleteCharacter account name).1 =
      .ok ((s.owned account).any (isCharacter account name)) := by
  have hlength : ((s.list.filter fun c => !isCharacter account name c).length != s.list.length) =
      s.list.any (isCharacter account name) := by
    rw [Bool.eq_iff_iff, bne_iff_ne, ne_eq, List.length_filter_eq_length_iff]
    simp
  have hany : s.list.any (isCharacter account name) =
      (s.owned account).any (isCharacter account name) := by
    rw [owned, List.any_filter]
    congr 1
    funext c
    rw [isCharacter, ← Bool.and_assoc, Bool.and_self]
  exact congrArg Except.ok (hlength.trans hany)

theorem owned_createCharacter_of_ne (h : b ≠ c.account) :
    (s.createCharacter c).2.owned b = s.owned b := by
  rcases createCharacter_cases s c with ⟨-, hlist, -⟩ | ⟨-, hsame⟩
  · rw [owned, hlist, List.filter_append, List.filter_cons_of_neg, List.filter_nil,
      List.append_nil]
    · rfl
    · simpa using h.symm
  · rw [hsame]

theorem owned_createCharacter (h : (s.createCharacter c).1 = .ok ()) :
    (s.createCharacter c).2.owned c.account = s.owned c.account ++ [c] := by
  rcases createCharacter_cases s c with ⟨-, hlist, -⟩ | ⟨hrefused, -⟩
  · rw [owned, hlist, List.filter_append, owned]
    simp
  · exact absurd h hrefused

theorem createCharacter_of_refused (h : (s.createCharacter c).1 ≠ .ok ()) :
    (s.createCharacter c).2 = s := by
  rcases createCharacter_cases s c with ⟨hmade, -⟩ | ⟨-, hsame⟩
  · exact absurd hmade h
  · exact hsame

theorem owned_updateCharacter (s : CharacterStore) (c : Character) (b : AccountId) :
    (s.updateCharacter c).2.owned b = (s.owned b).map (updated c) := by
  rw [owned, list_updateCharacter, List.filter_map, owned]
  congr 2
  funext d
  simp

theorem owned_updateCharacter_of_ne (h : b ≠ c.account) :
    (s.updateCharacter c).2.owned b = s.owned b := by
  rw [owned_updateCharacter, List.map_congr_left (g := id), List.map_id]
  intro d hd
  have hnot : isCharacter c.account c.name d = false := by
    rw [Bool.eq_false_iff]
    intro his
    exact h ((mem_owned.mp hd).2.symm.trans (isCharacter_iff.mp his).1)
  rw [updated, hnot]
  rfl

theorem owned_deleteCharacter_of_ne (h : b ≠ account) :
    (s.deleteCharacter account name).2.owned b = s.owned b := by
  rw [owned, list_deleteCharacter, List.filter_filter, owned]
  apply List.filter_congr
  intro d _
  by_cases hd : d.account = b
  · simp [isCharacter, hd, h]
  · simp [hd]

/-- A store that lost characters has no more of an account. -/
theorem length_owned_le {s' : CharacterStore} (h : s'.list.Sublist s.list) (b : AccountId) :
    (s'.owned b).length ≤ (s.owned b).length :=
  (h.filter _).length_le

theorem list_createAccount (s : CharacterStore) (req : NewAccount) :
    (s.createAccount req).list = s.list := by
  show (s.store.createAccount req).2.characterList = _
  rcases createAccount_eq (s := s.store) req with hsame | ⟨_, hlist, -⟩
  · rw [hsame]
    rfl
  · exact hlist

/-- Where names are unique, the character of a name is found. -/
theorem find?_eq_some_iff {l : List Character} (hl : (l.map key).Nodup) :
    l.find? (fun c => c.name.eqIgnoreAsciiCase name) = some c ↔
      c ∈ l ∧ c.name.eqIgnoreAsciiCase name = true := by
  constructor
  · intro h
    exact ⟨List.mem_of_find?_eq_some h, by simpa using List.find?_some h⟩
  · rintro ⟨hc, hname⟩
    cases hfind : l.find? fun c => c.name.eqIgnoreAsciiCase name with
    | none => exact absurd hname (List.find?_eq_none.mp hfind c hc)
    | some d =>
      have hd : d.name.eqIgnoreAsciiCase name = true := by simpa using List.find?_some hfind
      have hkey : key d = key c := by
        rw [eqIgnoreAsciiCase_key.mp hd, eqIgnoreAsciiCase_key.mp hname]
      rw [List.inj_on_of_nodup_map hl (List.mem_of_find?_eq_some hfind) hc hkey]

/-- A character looked up by its name and seen to be the account's is looked up among the
account's. -/
theorem filter_find? (s : CharacterStore) (account : AccountId) (name : Text)
    (p : Character → Bool) :
    (s.list.find? fun c => c.name.eqIgnoreAsciiCase name).filter
        (fun c => c.account == account && p c) =
      ((s.owned account).find? fun c => c.name.eqIgnoreAsciiCase name).filter p := by
  have howned : ((s.owned account).map key).Nodup :=
    s.tidy.names.sublist (List.filter_sublist.map key)
  ext c
  simp only [Option.filter_eq_some_iff, find?_eq_some_iff s.tidy.names,
    find?_eq_some_iff howned, mem_owned, list, Bool.and_eq_true, beq_iff_eq]
  constructor
  · rintro ⟨⟨hc, hname⟩, haccount, hp⟩
    exact ⟨⟨⟨hc, haccount⟩, hname⟩, hp⟩
  · rintro ⟨⟨⟨hc, haccount⟩, hname⟩, hp⟩
    exact ⟨⟨hc, hname⟩, haccount, hp⟩

end CharacterStore

end CommandCenter.Storage
