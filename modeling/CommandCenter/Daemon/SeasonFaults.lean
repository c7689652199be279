import CommandCenter.Daemon.Season

/-!
# A season that ends over a backend that fails

The walk of `EndLadderSeason` stops at the first call to the backend that fails.

* `endSeason_swept`: a walk ends some characters, and counts those that it ends.
* `endSeason_ok`: a walk that does not stop ends them all.
* `endSeasonWith_sound`: over a backend that does not fail, it is the walk of `endLadderSeason`.
-/

namespace CommandCenter.Daemon

open Rust CommandCenter.Core Proto.D2 Formats.D2s
open Storage (Account Character CharacterStore MemoryStorage Result StorageError)
open Storage.MemoryStorage (key Tidy)

/-- Which calls fail, by their number. -/
abbrev Faults := Nat → Option StorageError

/-- A backend of which some calls fail, without effect. -/
structure Faulty where
  store : MemoryStorage
  faults : Faults
  calls : Nat

namespace Faulty

def call {α : Type} (b : Faulty) (op : MemoryStorage → Result α × MemoryStorage) :
    Result α × Faulty :=
  match b.faults b.calls with
  | some e => (.error e, { b with calls := b.calls + 1 })
  | none =>
    let (result, store) := op b.store
    (result, { b with store, calls := b.calls + 1 })

theorem call_cases {α : Type} (b : Faulty) (op : MemoryStorage → Result α × MemoryStorage) :
    (∃ e, (b.call op).1 = .error e ∧ (b.call op).2.store = b.store) ∨
      ((b.call op).1 = (op b.store).1 ∧ (b.call op).2.store = (op b.store).2) := by
  unfold call
  split
  · rename_i e _
    exact Or.inl ⟨e, rfl, rfl⟩
  · exact Or.inr ⟨rfl, rfl⟩

/-- The characters of an account leave the ladder. -/
def endCharacters (n : Changed) : List Character → Faulty → Result Changed × Faulty
  | [], b => (.ok n, b)
  | c :: rest, b =>
    if !hasBit c.status Status.ladder then endCharacters n rest b
    else
      match b.call fun s => s.updateCharacter (offLadder c) with
      | (.ok _, b) => endCharacters (n.count (offLadder c)) rest b
      | (.error e, b) => (.error e, b)

def endAccounts (n : Changed) : List Account → Faulty → Result Changed × Faulty
  | [], b => (.ok n, b)
  | account :: rest, b =>
    match b.call fun s => s.characters account.id with
    | (.error e, b) => (.error e, b)
    | (.ok characters, b) =>
      match endCharacters n characters b with
      | (.ok n, b) => endAccounts n rest b
      | (.error e, b) => (.error e, b)

theorem endCharacters_accounts (n : Changed) (cs : List Character) (b : Faulty) :
    (endCharacters n cs b).2.store.accounts = b.store.accounts := by
  induction cs generalizing n b with
  | nil => rfl
  | cons c rest ih =>
    rw [endCharacters]
    split
    · exact ih n b
    · have hupdate : (b.call fun s => s.updateCharacter (offLadder c)).2.store.accounts =
          b.store.accounts := by
        rcases b.call_cases fun s => s.updateCharacter (offLadder c) with ⟨_, _, h⟩ | ⟨_, h⟩
        · rw [h]
        · rw [h, MemoryStorage.updateCharacter_accounts]
      split
      · rename_i b' heq
        rw [ih, ← hupdate, heq]
      · rename_i b' heq
        rw [← hupdate, heq]

theorem endAccounts_accounts (n : Changed) (accounts : List Account) (b : Faulty) :
    (endAccounts n accounts b).2.store.accounts = b.store.accounts := by
  induction accounts generalizing n b with
  | nil => rfl
  | cons account rest ih =>
    rw [endAccounts]
    have hread : (b.call fun s => s.characters account.id).2.store = b.store := by
      rcases b.call_cases fun s => s.characters account.id with ⟨_, _, h⟩ | ⟨_, h⟩ <;> exact h
    split
    · rename_i b' heq
      rw [← hread, heq]
    · rename_i characters b' heq
      have hsame : b'.store = b.store := by rw [← hread, heq]
      have hend := endCharacters_accounts n characters b'
      split
      · rename_i b'' heq'
        rw [ih, ← hsame, ← hend, heq']
      · rename_i b'' heq'
        rw [← hsame, ← hend, heq']

theorem length_page {b b' : Faulty} {offset : Nat} {page : List Account}
    (h : (b.call fun s => s.listAccounts offset accountPage) = (.ok page, b')) :
    b'.store = b.store ∧ page.length ≤ (accountIds b.store).length - offset := by
  rcases b.call_cases fun s => s.listAccounts offset accountPage with
    ⟨e, hresult, _⟩ | ⟨hresult, hstore⟩
  · rw [h] at hresult
    cases hresult
  · rw [h] at hresult hstore
    have hpage : b.store.listAccounts offset accountPage = (.ok page, b'.store) :=
      Prod.ext hresult.symm hstore.symm
    exact length_listAccounts hpage

/-- The season ends for the accounts from `offset`. -/
def endSeasonFrom (n : Changed) (offset : Nat) (b : Faulty) : Result Changed × Faulty :=
  match _hpage : b.call fun s => s.listAccounts offset accountPage with
  | (.error e, b) => (.error e, b)
  | (.ok [], b) => (.ok n, b)
  | (.ok (account :: page), b) =>
    match _hend : endAccounts n (account :: page) b with
    | (.ok n, b) => endSeasonFrom n (offset + (account :: page).length) b
    | (.error e, b) => (.error e, b)
termination_by (accountIds b.store).length - offset
decreasing_by
  obtain ⟨hsame, hlen⟩ := length_page _hpage
  have hacc := congrArg (fun r => r.2.store.accounts) _hend
  rw [endAccounts_accounts] at hacc
  dsimp only at hacc
  simp only [List.length_cons, accountIds, ← hacc, hsame] at hlen ⊢
  omega

end Faulty

/-- The walk over a backend that fails as given. -/
def endSeasonWith (faults : Faults) (s : MemoryStorage) : Result Changed × MemoryStorage :=
  let (result, b) := Faulty.endSeasonFrom (0, 0) 0 ⟨s, faults, 0⟩
  (result, b.store)

/-! ## What a walk does -/

def softLadder (c : Character) : Bool :=
  hasBit c.status Status.ladder && !hasBit c.status Status.hardcore

def hardLadder (c : Character) : Bool :=
  hasBit c.status Status.ladder && hasBit c.status Status.hardcore

/-- How many characters there are to count, in the range of a counter. -/
def left (p : Character → Bool) (s : MemoryStorage) : UInt32 := .ofNat (s.characterList.countP p)

/-- Some characters are ended, and with each that is, a counter goes up. -/
structure Swept (n : Changed) (s : MemoryStorage) (result : Result Changed) (s' : MemoryStorage) :
    Prop where
  ended : ∃ f : Character → Character, (∀ d, f d = d ∨ f d = ended d) ∧ s' = withCharacters s f
  counted : ∀ n', result = .ok n' → n'.1 + left softLadder s' = n.1 + left softLadder s ∧
    n'.2 + left hardLadder s' = n.2 + left hardLadder s

namespace Swept

variable {n n₁ : Changed} {s s₁ s₂ : MemoryStorage} {result : Result Changed}

theorem refl (n : Changed) (s : MemoryStorage) : Swept n s (.ok n) s where
  ended := ⟨id, fun _ => Or.inl rfl, (withCharacters_id fun _ _ => rfl).symm⟩
  counted n' h := by
    obtain rfl := Except.ok.inj h
    exact ⟨rfl, rfl⟩

theorem failed (n : Changed) (s : MemoryStorage) (e : StorageError) : Swept n s (.error e) s where
  ended := ⟨id, fun _ => Or.inl rfl, (withCharacters_id fun _ _ => rfl).symm⟩
  counted n' h := by cases h

theorem trans (h : Swept n s (.ok n₁) s₁) (h' : Swept n₁ s₁ result s₂) : Swept n s result s₂ where
  ended := by
    obtain ⟨f, hf, rfl⟩ := h.ended
    obtain ⟨g, hg, rfl⟩ := h'.ended
    refine ⟨g ∘ f, fun d => ?_, withCharacters_withCharacters s f g⟩
    rcases hf d with hfd | hfd <;> rcases hg (f d) with hgd | hgd
    · exact Or.inl (hgd.trans hfd)
    · exact Or.inr (hgd.trans (congrArg _ hfd))
    · exact Or.inr (hgd.trans hfd)
    · refine Or.inr (hgd.trans ?_)
      rw [hfd, ended_ended]
  counted n' hn' := by
    obtain ⟨hsoft, hhard⟩ := h.counted n₁ rfl
    obtain ⟨hsoft', hhard'⟩ := h'.counted n' hn'
    exact ⟨hsoft'.trans hsoft, hhard'.trans hhard⟩

theorem tidy (h : Swept n s result s₁) (hs : s.Tidy) : s₁.Tidy := by
  obtain ⟨f, hf, rfl⟩ := h.ended
  refine tidy_withCharacters hs (fun d => ?_) fun d => ?_
  · rcases hf d with hd | hd <;> rw [hd]
    exact key_ended d
  · rcases hf d with hd | hd <;> rw [hd]
    exact account_ended d

end Swept

theorem countP_replace {l : List Character} (hnodup : l.Nodup) {c c' : Character} (hc : c ∈ l)
    {p : Character → Bool} (hp : p c' = false) :
    (l.map fun d => if d = c then c' else d).countP p + (if p c then 1 else 0) = l.countP p := by
  obtain ⟨before, after, rfl⟩ := List.append_of_mem hc
  obtain ⟨_, hafter, hdisjoint⟩ := List.nodup_append.mp hnodup
  have hsame {part : List Character} (hpart : c ∉ part) :
      (part.map fun d => if d = c then c' else d) = part := by
    rw [List.map_congr_left (g := id), List.map_id]
    intro d hd
    refine if_neg fun hdc => hpart ?_
    rw [← hdc]
    exact hd
  have hbefore : c ∉ before := fun h => hdisjoint c h c List.mem_cons_self rfl
  rw [List.map_append, List.map_cons, hsame hbefore, hsame (List.nodup_cons.mp hafter).1,
    if_pos rfl, List.countP_append, List.countP_append, List.countP_cons, List.countP_cons,
    if_neg (by rw [hp]; exact Bool.false_ne_true)]
  omega

theorem hardcore_offLadder (c : Character) :
    hasBit (offLadder c).status Status.hardcore = hasBit c.status Status.hardcore := by
  have hmask : ~~~Status.ladder &&& Status.hardcore = Status.hardcore := by decide
  show hasBit (c.status &&& ~~~Status.ladder) Status.hardcore = _
  rw [hasBit, UInt8.and_assoc, hmask]
  rfl

theorem swept_update (n : Changed) {s : MemoryStorage} (h : s.Tidy) {c : Character}
    (hc : c ∈ s.characterList) (hladder : hasBit c.status Status.ladder = true) :
    Swept n s (.ok (n.count (offLadder c)))
      (withCharacters s fun d => if d = c then offLadder c else d) where
  ended := by
    refine ⟨_, fun d => ?_, rfl⟩
    by_cases hd : d = c
    · subst hd
      right
      rw [if_pos rfl, ended, if_pos hladder]
    · exact Or.inl (if_neg hd)
  counted n' hn' := by
    obtain rfl := Except.ok.inj hn'
    have hoff : hasBit (offLadder c).status Status.ladder = false := hasBit_clear _ _
    have hnodup : s.characterList.Nodup := h.names.of_map
    have hcount {p : Character → Bool} (hp : p (offLadder c) = false) :
        (s.characterList.map fun d => if d = c then offLadder c else d).countP p +
          (if p c then 1 else 0) = s.characterList.countP p := countP_replace hnodup hc hp
    have hsoft := hcount (p := softLadder) (by rw [softLadder, hoff]; rfl)
    have hhard := hcount (p := hardLadder) (by rw [hardLadder, hoff]; rfl)
    have hstep {k : UInt32} {a b : Nat} (hab : a + 1 = b) : k + 1 + .ofNat a = k + .ofNat b := by
      rw [← hab, UInt32.ofNat_add, UInt32.add_assoc, UInt32.add_comm 1]
      rfl
    have hsame {k : UInt32} {a b : Nat} (hab : a + 0 = b) : k + .ofNat a = k + .ofNat b := by
      rw [← hab, Nat.add_zero]
    rw [Changed.count, hardcore_offLadder]
    cases hhc : hasBit c.status Status.hardcore with
    | false =>
      have hcsoft : softLadder c = true := by rw [softLadder, hladder, hhc]; rfl
      have hchard : hardLadder c = false := by rw [hardLadder, hladder, hhc]; rfl
      rw [hcsoft] at hsoft
      rw [hchard] at hhard
      exact ⟨hstep hsoft, hsame hhard⟩
    | true =>
      have hcsoft : softLadder c = false := by rw [softLadder, hladder, hhc]; rfl
      have hchard : hardLadder c = true := by rw [hardLadder, hladder, hhc]; rfl
      rw [hcsoft] at hsoft
      rw [hchard] at hhard
      exact ⟨hsame hsoft, hstep hhard⟩

namespace Faulty

variable {n n' : Changed} {b : Faulty}

theorem endCharacters_swept (n : Changed) {cs : List Character} {b : Faulty} (h : b.store.Tidy)
    (hcs : ∀ c ∈ cs, c ∈ b.store.characterList) (hkeys : (cs.map key).Nodup) :
    Swept n b.store (endCharacters n cs b).1 (endCharacters n cs b).2.store := by
  induction cs generalizing n b with
  | nil => exact .refl n b.store
  | cons c rest ih =>
    have hc : c ∈ b.store.characterList := hcs c List.mem_cons_self
    have hrestIn : ∀ d ∈ rest, d ∈ b.store.characterList :=
      fun d hd => hcs d (List.mem_cons_of_mem c hd)
    obtain ⟨hfresh, hrest⟩ := List.nodup_cons.mp hkeys
    rw [endCharacters]
    split
    · exact ih n h hrestIn hrest
    · rename_i hladder
      have hladder : hasBit c.status Status.ladder = true := by simpa using hladder
      have hupdate := swept_update n h hc hladder
      rcases b.call_cases fun s => s.updateCharacter (offLadder c) with
        ⟨e, hresult, hstore⟩ | ⟨hresult, hstore⟩
      · split
        · rename_i heq
          rw [heq] at hresult
          cases hresult
        · rename_i e' b' heq
          rw [heq] at hstore
          rw [hstore]
          exact .failed n b.store e'
      · rw [update_stored h hc] at hresult hstore
        split
        · rename_i b' heq
          rw [heq] at hstore
          dsimp only at hstore
          rw [← hstore] at hupdate
          refine hupdate.trans (ih _ (hupdate.tidy h) (fun d hd => ?_) hrest)
          rw [hstore]
          refine List.mem_map.mpr ⟨d, hrestIn d hd, if_neg fun hdc => hfresh ?_⟩
          rw [← hdc]
          exact List.mem_map_of_mem hd
        · rename_i heq
          rw [heq] at hresult
          cases hresult

theorem endAccounts_swept (n : Changed) (accounts : List Account) {b : Faulty}
    (h : b.store.Tidy) :
    Swept n b.store (endAccounts n accounts b).1 (endAccounts n accounts b).2.store := by
  induction accounts generalizing n b with
  | nil => exact .refl n b.store
  | cons account rest ih =>
    rw [endAccounts]
    have howned := List.filter_sublist (l := b.store.characterList)
      (p := fun c => c.account == account.id)
    rcases b.call_cases fun s => s.characters account.id with
      ⟨e, hresult, hstore⟩ | ⟨hresult, hstore⟩
    · split
      · rename_i e' b' heq
        rw [heq] at hstore
        rw [hstore]
        exact .failed n b.store e'
      · rename_i heq
        rw [heq] at hresult
        cases hresult
    · split
      · rename_i heq
        rw [heq] at hresult
        cases hresult
      · rename_i characters b' heq
        rw [heq] at hresult hstore
        obtain rfl : characters = _ := Except.ok.inj hresult
        have hsame : b'.store = b.store := hstore
        have hend := endCharacters_swept n (b := b') (hsame ▸ h)
          (fun c hc => hsame ▸ howned.subset hc) (h.names.sublist (howned.map key))
        rw [hsame] at hend
        split
        · rename_i n₁ b'' heq'
          rw [heq'] at hend
          exact hend.trans (ih n₁ (hend.tidy h))
        · rename_i e' b'' heq'
          rw [heq'] at hend
          exact hend

theorem endSeasonFrom_eq (n : Changed) (offset : Nat) (b : Faulty) : endSeasonFrom n offset b =
    match b.call fun s => s.listAccounts offset accountPage with
    | (.error e, b) => (.error e, b)
    | (.ok [], b) => (.ok n, b)
    | (.ok (account :: page), b) =>
      match endAccounts n (account :: page) b with
      | (.ok n, b) => endSeasonFrom n (offset + (account :: page).length) b
      | (.error e, b) => (.error e, b) := by
  rw [endSeasonFrom]
  split
  · rename_i hpage
    rw [hpage]
  · rename_i hpage
    rw [hpage]
  · rename_i hpage
    rw [hpage]
    dsimp only
    split
    · rename_i hend
      rw [hend]
    · rename_i hend
      rw [hend]

theorem listAccounts_store {offset : Nat} {result : Result (List Account)} {b b' : Faulty}
    (h : (b.call fun s => s.listAccounts offset accountPage) = (result, b')) :
    b'.store = b.store := by
  rcases b.call_cases fun s => s.listAccounts offset accountPage with ⟨_, _, hstore⟩ | ⟨_, hstore⟩
  · rw [h] at hstore
    exact hstore
  · rw [h] at hstore
    exact hstore

theorem endSeasonFrom_swept (n : Changed) (offset : Nat) {b : Faulty} (h : b.store.Tidy) :
    Swept n b.store (endSeasonFrom n offset b).1 (endSeasonFrom n offset b).2.store := by
  induction n, offset, b using endSeasonFrom.induct with
  | case1 n offset b e b₁ hpage =>
    rw [endSeasonFrom_eq, hpage]
    dsimp only
    rw [listAccounts_store hpage]
    exact .failed n b.store e
  | case2 n offset b b₁ hpage =>
    rw [endSeasonFrom_eq, hpage]
    dsimp only
    rw [listAccounts_store hpage]
    exact .refl n b.store
  | case3 n offset b account page b₁ hpage n₁ b₂ hend ih =>
    have hsame := listAccounts_store hpage
    have hswept := endAccounts_swept n (account :: page) (hsame ▸ h : b₁.store.Tidy)
    rw [hend, hsame] at hswept
    rw [endSeasonFrom_eq, hpage]
    dsimp only
    rw [hend]
    exact hswept.trans (ih (hswept.tidy h))
  | case4 n offset b account page b₁ hpage e b₂ hend =>
    have hsame := listAccounts_store hpage
    have hswept := endAccounts_swept n (account :: page) (hsame ▸ h : b₁.store.Tidy)
    rw [hend, hsame] at hswept
    rw [endSeasonFrom_eq, hpage]
    dsimp only
    rw [hend]
    exact hswept

/-! ## A walk that does not stop -/

theorem call_ok {α : Type} {op : MemoryStorage → Result α × MemoryStorage} {value : α}
    {b b' : Faulty} (h : b.call op = (.ok value, b')) : op b.store = (.ok value, b'.store) := by
  rcases b.call_cases op with ⟨e, hresult, _⟩ | ⟨hresult, hstore⟩
  · rw [h] at hresult
    cases hresult
  · rw [h] at hresult hstore
    exact Prod.ext hresult.symm hstore.symm

theorem endCharacters_ok {cs : List Character} {b b' : Faulty}
    (h : endCharacters n cs b = (.ok n', b')) :
    Daemon.endCharacters n cs b.store = (.ok n', b'.store) := by
  induction cs generalizing n b with
  | nil =>
    obtain ⟨hn, rfl⟩ := Prod.mk.inj h
    obtain rfl := Except.ok.inj hn
    rfl
  | cons c rest ih =>
    rw [endCharacters] at h
    rw [Daemon.endCharacters]
    split at h
    · rename_i hladder
      rw [if_pos hladder]
      exact ih h
    · rename_i hladder
      rw [if_neg hladder]
      split at h
      · rename_i b₁ hcall
        rw [call_ok hcall]
        exact ih h
      · cases h

theorem endAccounts_ok {accounts : List Account} {b b' : Faulty}
    (h : endAccounts n accounts b = (.ok n', b')) :
    Daemon.endAccounts n accounts b.store = (.ok n', b'.store) := by
  induction accounts generalizing n b with
  | nil =>
    obtain ⟨hn, rfl⟩ := Prod.mk.inj h
    obtain rfl := Except.ok.inj hn
    rfl
  | cons account rest ih =>
    rw [endAccounts] at h
    rw [Daemon.endAccounts]
    split at h
    · cases h
    · rename_i characters b₁ hcall
      rw [call_ok hcall]
      dsimp only
      split at h
      · rename_i n₁ b₂ hend
        rw [endCharacters_ok hend]
        exact ih h
      · cases h

theorem endSeasonFrom_ok {offset : Nat} {b' : Faulty}
    (h : endSeasonFrom n offset b = (.ok n', b')) :
    Daemon.endSeasonFrom n offset b.store = (.ok n', b'.store) := by
  induction n, offset, b using endSeasonFrom.induct with
  | case1 n offset b e b₁ hpage =>
    rw [endSeasonFrom_eq, hpage] at h
    cases h
  | case2 n offset b b₁ hpage =>
    rw [endSeasonFrom_eq, hpage] at h
    obtain ⟨hn, rfl⟩ := Prod.mk.inj h
    obtain rfl := Except.ok.inj hn
    exact endSeasonFrom_nil (call_ok hpage)
  | case3 n offset b account page b₁ hpage n₁ b₂ hend ih =>
    rw [endSeasonFrom_eq, hpage] at h
    dsimp only at h
    rw [hend] at h
    rw [endSeasonFrom_cons (call_ok hpage) (endAccounts_ok hend)]
    exact ih h
  | case4 n offset b account page b₁ hpage e b₂ hend =>
    rw [endSeasonFrom_eq, hpage] at h
    dsimp only at h
    rw [hend] at h
    cases h

/-! ## A backend that does not fail -/

def Sound (b : Faulty) : Prop := ∀ k, b.faults k = none

theorem Sound.call {α : Type} (h : b.Sound) (op : MemoryStorage → Result α × MemoryStorage)
    {value : α} (hop : (op b.store).1 = .ok value) :
    ∃ b', b.call op = (.ok value, b') ∧ b'.Sound := by
  unfold Faulty.call
  rw [h b.calls]
  exact ⟨_, Prod.ext hop rfl, h⟩

theorem endCharacters_answers (n : Changed) (cs : List Character) {b : Faulty} (h : b.Sound) :
    ∃ n' b', endCharacters n cs b = (.ok n', b') ∧ b'.Sound := by
  induction cs generalizing n b with
  | nil => exact ⟨n, b, rfl, h⟩
  | cons c rest ih =>
    rw [endCharacters]
    split
    · exact ih n h
    · have hupdate : ∃ found, (b.store.updateCharacter (offLadder c)).1 = .ok found := by
        unfold MemoryStorage.updateCharacter
        split
        · exact ⟨false, rfl⟩
        · exact ⟨true, rfl⟩
      obtain ⟨found, hfound⟩ := hupdate
      obtain ⟨b', hcall, hb'⟩ := h.call (fun s => s.updateCharacter (offLadder c)) hfound
      rw [hcall]
      exact ih _ hb'

theorem endAccounts_answers (n : Changed) (accounts : List Account) {b : Faulty} (h : b.Sound) :
    ∃ n' b', endAccounts n accounts b = (.ok n', b') ∧ b'.Sound := by
  induction accounts generalizing n b with
  | nil => exact ⟨n, b, rfl, h⟩
  | cons account rest ih =>
    obtain ⟨b₁, hcall, hb₁⟩ := h.call (fun s => s.characters account.id) rfl
    obtain ⟨n₁, b₂, hend, hb₂⟩ := endCharacters_answers n
      (b.store.characterList.filter fun c => c.account == account.id) hb₁
    rw [endAccounts, hcall]
    dsimp only
    rw [hend]
    exact ih n₁ hb₂

theorem endSeasonFrom_answers (n : Changed) (offset : Nat) {b : Faulty} (h : b.Sound) :
    ∃ n' b', endSeasonFrom n offset b = (.ok n', b') := by
  induction n, offset, b using endSeasonFrom.induct with
  | case1 n offset b e b₁ hpage =>
    obtain ⟨_, hcall, _⟩ := h.call (fun s => s.listAccounts offset accountPage) rfl
    rw [hpage] at hcall
    cases hcall
  | case2 n offset b b₁ hpage =>
    rw [endSeasonFrom_eq, hpage]
    exact ⟨n, b₁, rfl⟩
  | case3 n offset b account page b₁ hpage n₁ b₂ hend ih =>
    rw [endSeasonFrom_eq, hpage]
    dsimp only
    rw [hend]
    obtain ⟨b₁', hcall, hb₁⟩ := h.call (fun s => s.listAccounts offset accountPage) rfl
    obtain rfl : b₁ = b₁' := congrArg Prod.snd (hpage.symm.trans hcall)
    obtain ⟨_, b₂', hend', hb₂⟩ := endAccounts_answers n (account :: page) hb₁
    obtain rfl : b₂ = b₂' := congrArg Prod.snd (hend.symm.trans hend')
    exact ih hb₂
  | case4 n offset b account page b₁ hpage e b₂ hend =>
    obtain ⟨b₁', hcall, hb₁⟩ := h.call (fun s => s.listAccounts offset accountPage) rfl
    obtain rfl : b₁ = b₁' := congrArg Prod.snd (hpage.symm.trans hcall)
    obtain ⟨_, b₂', hend', hb₂⟩ := endAccounts_answers n (account :: page) hb₁
    rw [hend] at hend'
    cases hend'

end Faulty

section Walk

variable {faults : Faults} {n : Changed} {s s' : MemoryStorage} {result : Result Changed}

/-- A walk ends some characters, and counts those that it ends. -/
theorem endSeason_swept (h : s.Tidy) (hwalk : endSeasonWith faults s = (result, s')) :
    Swept (0, 0) s result s' := by
  have hswept := Faulty.endSeasonFrom_swept (0, 0) 0 (b := ⟨s, faults, 0⟩) h
  obtain ⟨rfl, rfl⟩ := Prod.mk.inj hwalk
  exact hswept

/-- A walk that does not stop ends every character, and counts all that were on the ladder. -/
theorem endSeason_ok (h : s.Tidy) (hwalk : endSeasonWith faults s = (.ok n, s')) :
    s' = withCharacters s ended ∧ n.1 = left softLadder s ∧ n.2 = left hardLadder s := by
  have hfaultless : endLadderSeason s = (.ok n, s') := by
    obtain ⟨hresult, rfl⟩ := Prod.mk.inj hwalk
    exact Faulty.endSeasonFrom_ok (Prod.ext hresult rfl)
  obtain ⟨n', hall⟩ := endLadderSeason_eq h
  obtain rfl : s' = withCharacters s ended := (Prod.mk.inj (hfaultless.symm.trans hall)).2
  have hnone {p : Character → Bool} (hp : ∀ c, p c = true → hasBit c.status Status.ladder = true) :
      left p (withCharacters s ended) = 0 := by
    have hzero : (s.characterList.map ended).countP p = 0 := by
      rw [List.countP_eq_zero]
      intro d hd hpd
      obtain ⟨c, _, rfl⟩ := List.mem_map.mp hd
      have hladder := hp _ hpd
      rw [ladder_ended] at hladder
      cases hladder
    exact congrArg UInt32.ofNat hzero
  obtain ⟨hsoft, hhard⟩ := (endSeason_swept h hwalk).counted n rfl
  rw [hnone (p := softLadder) fun c hc => (Bool.and_eq_true_iff.mp hc).1, UInt32.add_zero,
    UInt32.zero_add] at hsoft
  rw [hnone (p := hardLadder) fun c hc => (Bool.and_eq_true_iff.mp hc).1, UInt32.add_zero,
    UInt32.zero_add] at hhard
  exact ⟨rfl, hsoft, hhard⟩

/-- Without failures, it is the walk of `endLadderSeason`. -/
theorem endSeasonWith_sound (s : MemoryStorage) :
    endSeasonWith (fun _ => none) s = endLadderSeason s := by
  obtain ⟨n, b, h⟩ := Faulty.endSeasonFrom_answers (0, 0) 0 (b := ⟨s, fun _ => none, 0⟩)
    fun _ => rfl
  have hwalk : endSeasonWith (fun _ => none) s = (.ok n, b.store) := by
    rw [endSeasonWith, h]
  rw [hwalk]
  exact (Faulty.endSeasonFrom_ok h).symm

theorem endSeasonWith_fails (s : MemoryStorage) (e : StorageError) :
    endSeasonWith (fun _ => some e) s = (.error e, s) := by
  rw [endSeasonWith, Faulty.endSeasonFrom_eq]
  rfl

end Walk

end CommandCenter.Daemon
