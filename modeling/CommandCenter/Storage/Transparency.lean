import CommandCenter.Library.Run
import CommandCenter.Storage.Memory
import CommandCenter.Library.Overlay
import CommandCenter.Storage.WriteBehind

/-!
# Write-behind buffering is invisible

A write-behind layer over a `MemoryStorage` is compared with a `MemoryStorage` that gets the
same calls at once, a `Ledger`. `WriteBehind.Mirrors` relates the two: they agree but for the
attributes, and there the ledger's are the backend's with the buffer laid over them.

A buffered write outlives an account under the same id. `create_account` replaces the attributes
of the id it hands out, so the layer shows if it hands out an id for which writes are buffered.
It never does while its `u64` counter does not come round.

* `WriteBehind.Mirrors.call`, `WriteBehind.Mirrors.flushNow`, `WriteBehind.Mirrors.tick`: the
  relation is kept by every event.
* `WriteBehind.invisible`: calls are answered alike, and a flush makes the stores equal.
* `WriteBehind.reissued_id`: a run in which the counter comes round and they are not.
-/

/-!
## The ids that a store hands out

A `Ledger` is a `MemoryStorage` used directly, with the ids that its `create_account` has
returned. It answers as the store does.

* `Ledger.answers_eq`, `Ledger.after_store`: the ids make no difference to the store.
* `Ledger.Numbered.answer`: the ids are those of a counter that starts at one.
* `Ledger.Numbered.fresh`: the next id is a new one while the counter has not come round.
-/

namespace CommandCenter.Storage

open Rust CommandCenter.Core Library

/-- A store used directly, with the ids that `create_account` has returned. -/
structure Ledger where
  store : MemoryStorage
  issued : List AccountId

namespace Ledger

def new : Ledger := ⟨MemoryStorage.new, []⟩

/-- The ids with the one that this reply returns. -/
def issue (issued : List AccountId) : Reply → List AccountId
  | .created (.ok account) => account.id :: issued
  | _ => issued

def answer (l : Ledger) (c : Call) : Reply × Ledger :=
  let result := Storage.answer l.store c
  (result.1, ⟨result.2, issue l.issued result.1⟩)

/-- Attributes are put under an id that an earlier `create_account` returned. -/
def WritesIssued (l : Ledger) : Call → Prop
  | .attrsPut id _ => id ∈ l.issued
  | _ => True

theorem answers_eq (l : Ledger) (calls : List Call) :
    answers answer l calls = answers Storage.answer l.store calls := by
  induction calls generalizing l with
  | nil => rfl
  | cons c calls ih => exact congrArg _ (ih _)

theorem after_store (l : Ledger) (calls : List Call) :
    (after answer l calls).store = after Storage.answer l.store calls := by
  induction calls generalizing l with
  | nil => rfl
  | cons c calls ih => exact ih _

theorem length_issued_le (l : Ledger) (c : Call) :
    l.issued.length ≤ (l.answer c).2.issued.length := by
  change _ ≤ (issue l.issued (Storage.answer l.store c).1).length
  unfold issue
  split
  · exact Nat.le_succ _
  · exact Nat.le_refl _

/-- The ids are those of the counter, from one on. -/
structure Numbered (l : Ledger) : Prop where
  next : l.store.nextId = UInt64.ofNat l.issued.length
  issued : ∀ id ∈ l.issued, ∃ i, 1 ≤ i ∧ i ≤ l.issued.length ∧ id = i % 2 ^ 64

/-- While the counter has not come round, the next id is a new one. -/
theorem Numbered.fresh {l : Ledger} (h : l.Numbered) (hroom : l.issued.length < 2 ^ 64) :
    (l.store.nextId + 1).toNat ∉ l.issued := by
  intro hmem
  obtain ⟨i, hpos, hle, hi⟩ := h.issued _ hmem
  rw [h.next, UInt64.toNat_add, UInt64.toNat_ofNat'] at hi
  have hcount : (l.issued.length % 2 ^ 64 + 1) % 2 ^ 64 = i % 2 ^ 64 := hi
  omega

theorem answer_idle (s : MemoryStorage) {c : Call} (hc : ∀ req, c ≠ .createAccount req) :
    (Storage.answer s c).2.nextId = s.nextId ∧
      ∀ issued, issue issued (Storage.answer s c).1 = issued := by
  cases c with
  | createAccount req => exact absurd rfl (hc req)
  | setCredential account credential =>
    simp only [Storage.answer, Storage.setCredential, MemoryStorage.setCredential]
    split <;> exact ⟨rfl, fun _ => rfl⟩
  | attrsGet account keys =>
    simp only [Storage.answer, Storage.attrsGet, MemoryStorage.attrsGet]
    split <;> exact ⟨rfl, fun _ => rfl⟩
  | attrsPut account attrs =>
    simp only [Storage.answer, Storage.attrsPut, MemoryStorage.attrsPut]
    split <;> exact ⟨rfl, fun _ => rfl⟩
  | createCharacter character =>
    simp only [Storage.answer, Storage.createCharacter, MemoryStorage.createCharacter]
    split
    · exact ⟨rfl, fun _ => rfl⟩
    · split <;> exact ⟨rfl, fun _ => rfl⟩
  | updateCharacter character =>
    simp only [Storage.answer, Storage.updateCharacter, MemoryStorage.updateCharacter]
    split <;> exact ⟨rfl, fun _ => rfl⟩
  | _ => exact ⟨rfl, fun _ => rfl⟩

theorem numbered_new : Numbered new := ⟨rfl, fun _ h => absurd h List.not_mem_nil⟩

theorem answer_of_idle (l : Ledger) {c : Call} (hc : ∀ req, c ≠ .createAccount req) :
    (l.answer c).2 = ⟨(Storage.answer l.store c).2, l.issued⟩ :=
  congrArg _ ((answer_idle l.store hc).2 l.issued)

theorem answer_of_eq {l : Ledger} {c : Call} {reply : Reply} {store : MemoryStorage}
    (h : Storage.answer l.store c = (reply, store)) :
    l.answer c = (reply, ⟨store, issue l.issued reply⟩) := by
  rw [answer, h]

theorem answer_refused {l : Ledger} {req : NewAccount} {e : StorageError}
    (h : l.store.createAccount req = (.error e, l.store)) :
    l.answer (.createAccount req) = (.created (.error e), l) :=
  answer_of_eq (congrArg (Prod.map Reply.created id) h)

theorem answer_enrolled {l : Ledger} {req : NewAccount}
    (h : l.store.createAccount req = (l.store.enroll req).map .ok id) :
    l.answer (.createAccount req) = (.created (.ok (l.store.enroll req).1),
      ⟨(l.store.enroll req).2, (l.store.enroll req).1.id :: l.issued⟩) :=
  answer_of_eq (congrArg (Prod.map Reply.created id) h)

theorem Numbered.answer {l : Ledger} (h : l.Numbered) (c : Call) : (l.answer c).2.Numbered := by
  by_cases hc : ∃ req, c = .createAccount req
  · obtain ⟨req, rfl⟩ := hc
    rcases l.store.createAccount_cases req with ⟨e, hrefused⟩ | henrolled
    · rw [answer_refused (hrefused l.store.attrs)]
      exact h
    · rw [answer_enrolled (henrolled l.store.attrs)]
      have hnext : l.store.nextId + 1 = UInt64.ofNat (l.issued.length + 1) := by
        rw [h.next, UInt64.ofNat_add]
        rfl
      refine ⟨hnext, fun id hid => ?_⟩
      rcases List.mem_cons.mp hid with rfl | hold
      · refine ⟨l.issued.length + 1, by omega, Nat.le_refl _, ?_⟩
        change (l.store.nextId + 1).toNat = _
        rw [hnext, UInt64.toNat_ofNat']
      · obtain ⟨i, hpos, hle, hi⟩ := h.issued id hold
        exact ⟨i, hpos, Nat.le_succ_of_le hle, hi⟩
  · have hidle : ∀ req, c ≠ .createAccount req := fun req he => hc ⟨req, he⟩
    rw [answer_of_idle l hidle]
    exact ⟨(answer_idle l.store hidle).1.trans h.next, h.issued⟩

end Ledger

/-! ## The relation -/

namespace WriteBehind

/-- The ledger's store is the backend with what is buffered laid over its attributes. Only ids
that were issued have anything buffered, and never nothing. -/
structure Mirrors (s : WriteBehind MemoryStorage) (l : Ledger) : Prop where
  store : l.store = s.backend.withAttrs l.store.attrs
  attrs : Overlays l.store.attrs s.backend.attrs s.dirty
  nonempty : ∀ id pending, s.dirty.lookup id = some pending → pending ≠ ∅
  issued : ∀ id ∈ s.dirty, id ∈ l.issued
  numbered : l.Numbered

theorem mirrors_new (policy : FlushPolicy) (nowMs : Nat) :
    (new MemoryStorage.new policy nowMs).Mirrors Ledger.new := by
  constructor
  · rfl
  · exact .refl ∅
  · intro id pending h
    cases h
  · intro id h
    exact absurd h Finmap.notMem_empty
  · exact Ledger.numbered_new

/-- A call that is not about attributes goes to the backend alone. -/
theorem answer_through {B : Type} [Storage B] (s : WriteBehind B) {c : Call}
    (hc : c.aboutAttrs = false) (hflush : ∀ drain, c ≠ .flush drain) :
    answer s c = s.through (answer s.backend c) := by
  cases c with
  | createAccount | attrsGet | attrsAll | attrsPut | deleteAccount => cases hc
  | flush drain => exact absurd rfl (hflush drain)
  | _ => rfl

theorem Mirrors.call_plain {s : WriteBehind MemoryStorage} {l : Ledger} (h : s.Mirrors l)
    {c : Call} (hc : c.aboutAttrs = false) (hflush : ∀ drain, c ≠ .flush drain) :
    (answer s c).1 = (l.answer c).1 ∧ (answer s c).2.Mirrors (l.answer c).2 := by
  have hidle : ∀ req, c ≠ .createAccount req := by
    rintro req rfl
    cases hc
  obtain ⟨hanswer, hkept⟩ := s.backend.answer_withAttrs l.store.attrs hc
  rw [← h.store] at hanswer
  have hnumbered := h.numbered.answer c
  rw [answer_through s hc hflush]
  rw [Ledger.answer_of_idle l hidle] at hnumbered ⊢
  rw [hanswer] at hnumbered ⊢
  refine ⟨congrArg Prod.fst hanswer.symm, ?_⟩
  constructor
  · rfl
  · change Overlays l.store.attrs (answer s.backend c).2.attrs s.dirty
    rw [hkept]
    exact h.attrs
  · exact h.nonempty
  · exact h.issued
  · exact hnumbered

theorem Mirrors.backend_eq {s : WriteBehind MemoryStorage} {l : Ledger} (h : s.Mirrors l) :
    s.backend = l.store.withAttrs s.backend.attrs :=
  (congrArg (fun m => m.withAttrs s.backend.attrs) h.store).symm

theorem Mirrors.createAccount {s : WriteBehind MemoryStorage} {l : Ledger} (h : s.Mirrors l)
    (req : NewAccount) (hroom : (l.answer (.createAccount req)).2.issued.length ≤ 2 ^ 64) :
    (answer s (.createAccount req)).1 = (l.answer (.createAccount req)).1 ∧
      (answer s (.createAccount req)).2.Mirrors (l.answer (.createAccount req)).2 := by
  have hnumbered := h.numbered.answer (.createAccount req)
  have hthrough : answer s (.createAccount req) =
      s.through ((s.backend.createAccount req).map .created id) := rfl
  rw [hthrough, h.backend_eq]
  rcases l.store.createAccount_cases req with ⟨e, hrefused⟩ | henrolled
  · rw [Ledger.answer_refused (hrefused l.store.attrs), hrefused, ← h.backend_eq]
    exact ⟨rfl, h⟩
  · rw [Ledger.answer_enrolled (henrolled l.store.attrs)] at hnumbered hroom ⊢
    rw [henrolled, MemoryStorage.enroll_withAttrs]
    refine ⟨rfl, rfl, ?_, h.nonempty, fun id hid => ?_, hnumbered⟩
    · change Overlays (if req.attrs.isEmpty then l.store.attrs else
          l.store.attrs.insert (l.store.enroll req).1.id req.attrs)
        (if req.attrs.isEmpty then s.backend.attrs else
          s.backend.attrs.insert (l.store.enroll req).1.id req.attrs) s.dirty
      split
      · exact h.attrs
      · -- Nothing is buffered under an id that was never issued.
        refine h.attrs.insert (fun hmem => ?_) req.attrs
        exact h.numbered.fresh (Nat.lt_of_succ_le hroom) (h.issued _ hmem)
    · exact List.mem_cons_of_mem _ (h.issued id hid)

/-- A read sees the buffer over the backend. -/
theorem attrsGet_eq (s : WriteBehind MemoryStorage) (id : AccountId) (keys : List AttrKey) :
    s.attrsGet id keys = (.ok (Map.pick (((s.backend.attrs.lookup id).getD ∅).extend
      ((s.dirty.lookup id).getD ∅)) ∅ keys), s) := by
  have hget : Storage.attrsGet s.backend id keys = s.backend.attrsGet id keys := rfl
  rw [attrsGet, hget, MemoryStorage.attrsGet_eq, ← Map.pick_pick]
  cases s.dirty.lookup id with
  | none => rw [Option.getD_none, Map.pick_empty]
  | some pending => rfl

theorem attrsAll_eq (s : WriteBehind MemoryStorage) (id : AccountId) :
    s.attrsAll id = (.ok (((s.backend.attrs.lookup id).getD ∅).extend
      ((s.dirty.lookup id).getD ∅)), s) := by
  have hall : Storage.attrsAll s.backend id = s.backend.attrsAll id := rfl
  rw [attrsAll, hall, MemoryStorage.attrsAll]
  cases s.dirty.lookup id with
  | none => rw [Option.getD_none, extend_empty]
  | some pending => rfl

theorem Mirrors.attrsGet {s : WriteBehind MemoryStorage} {l : Ledger} (h : s.Mirrors l)
    (account : AccountId) (keys : List AttrKey) :
    (answer s (.attrsGet account keys)).1 = (l.answer (.attrsGet account keys)).1 ∧
      (answer s (.attrsGet account keys)).2.Mirrors (l.answer (.attrsGet account keys)).2 := by
  have hlow : answer s (.attrsGet account keys) = (s.attrsGet account keys).map .attrs id := rfl
  have hhigh : l.answer (.attrsGet account keys) =
      (.attrs (.ok (Map.pick ((l.store.attrs.lookup account).getD ∅) ∅ keys)), l) :=
    Ledger.answer_of_eq (congrArg (Prod.map Reply.attrs id)
      (l.store.attrsGet_eq account keys))
  rw [hlow, hhigh, attrsGet_eq, ← h.attrs.getD]
  exact ⟨rfl, h⟩

theorem Mirrors.attrsAll {s : WriteBehind MemoryStorage} {l : Ledger} (h : s.Mirrors l)
    (account : AccountId) :
    (answer s (.attrsAll account)).1 = (l.answer (.attrsAll account)).1 ∧
      (answer s (.attrsAll account)).2.Mirrors (l.answer (.attrsAll account)).2 := by
  have hlow : answer s (.attrsAll account) = (s.attrsAll account).map .attrs id := rfl
  have hhigh : l.answer (.attrsAll account) =
      (.attrs (.ok ((l.store.attrs.lookup account).getD ∅)), l) := rfl
  rw [hlow, hhigh, attrsAll_eq, ← h.attrs.getD]
  exact ⟨rfl, h⟩

theorem Mirrors.attrsPut {s : WriteBehind MemoryStorage} {l : Ledger} (h : s.Mirrors l)
    (account : AccountId) (attrs : AttrMap) (hissued : account ∈ l.issued) :
    (answer s (.attrsPut account attrs)).1 = (l.answer (.attrsPut account attrs)).1 ∧
      (answer s (.attrsPut account attrs)).2.Mirrors
        (l.answer (.attrsPut account attrs)).2 := by
  have hnumbered := h.numbered.answer (.attrsPut account attrs)
  have hlow : answer s (.attrsPut account attrs) = (s.attrsPut account attrs).map .done id := rfl
  have hhigh : Storage.answer l.store (.attrsPut account attrs) =
      (l.store.attrsPut account attrs).map .done id := rfl
  rw [hlow]
  by_cases hempty : attrs.isEmpty = true
  · rw [WriteBehind.attrsPut, if_pos hempty]
    rw [MemoryStorage.attrsPut, if_pos hempty] at hhigh
    rw [Ledger.answer_of_eq hhigh]
    exact ⟨rfl, h⟩
  · have hne : attrs ≠ ∅ := fun he => hempty (Map.isEmpty_iff.mpr he)
    rw [WriteBehind.attrsPut, if_neg hempty]
    rw [MemoryStorage.attrsPut, if_neg hempty] at hhigh
    rw [Ledger.answer_of_eq hhigh] at hnumbered ⊢
    refine ⟨rfl, ?_, ?_, ?_, ?_, hnumbered⟩
    · exact congrArg (fun m => m.withAttrs (l.store.attrs.extendAt account attrs)) h.store
    · exact h.attrs.extendAt account attrs
    · exact Map.extendAt_ne_empty h.nonempty account hne
    · intro id hid
      rcases Map.mem_extendAt.mp hid with rfl | hold
      · exact hissued
      · exact h.issued id hold

theorem deleteAccount_eq (s : WriteBehind MemoryStorage) (account : AccountId) :
    (s.deleteAccount account).1 = .ok () ∧
      (s.deleteAccount account).2.backend = (s.backend.deleteAccount account).2 ∧
      (s.deleteAccount account).2.dirty = s.dirty.erase account := by
  unfold deleteAccount
  split
  · exact ⟨rfl, rfl, rfl⟩
  · rename_i habsent
    exact ⟨rfl, rfl, (Map.erase_of_notMem habsent).symm⟩

theorem Mirrors.deleteAccount {s : WriteBehind MemoryStorage} {l : Ledger} (h : s.Mirrors l)
    (account : AccountId) :
    (answer s (.deleteAccount account)).1 = (l.answer (.deleteAccount account)).1 ∧
      (answer s (.deleteAccount account)).2.Mirrors (l.answer (.deleteAccount account)).2 := by
  obtain ⟨hreply, hbackend, hdirty⟩ := s.deleteAccount_eq account
  have hlow : answer s (.deleteAccount account) = (s.deleteAccount account).map .done id := rfl
  have hhigh : l.answer (.deleteAccount account) =
      (.done (.ok ()), ⟨(l.store.deleteAccount account).2, l.issued⟩) := rfl
  have hnumbered := h.numbered.answer (.deleteAccount account)
  rw [hlow, hhigh]
  refine ⟨congrArg Reply.done hreply, ?_, ?_, fun id pending hlookup => ?_, fun id hid => ?_,
    hnumbered⟩
  · change (l.store.deleteAccount account).2 = (s.deleteAccount account).2.backend.withAttrs _
    rw [hbackend]
    exact congrArg (fun m => (MemoryStorage.deleteAccount m account).2) h.store
  · change Overlays (l.store.attrs.erase account) (s.deleteAccount account).2.backend.attrs
      (s.deleteAccount account).2.dirty
    rw [hbackend, hdirty]
    exact h.attrs.erase account
  · change (s.deleteAccount account).2.dirty.lookup id = some pending at hlookup
    rw [hdirty] at hlookup
    by_cases hid : id = account
    · rw [hid, Finmap.lookup_erase] at hlookup
      cases hlookup
    · rw [Finmap.lookup_erase_ne hid] at hlookup
      exact h.nonempty id pending hlookup
  · change id ∈ (s.deleteAccount account).2.dirty at hid
    rw [hdirty] at hid
    exact h.issued id (Finmap.mem_erase.mp hid).2

/-! ## Flushing -/

/-- The memory backend takes every batch. -/
theorem foldl_write (m : MemoryStorage) {pending : List (Σ _ : AccountId, AttrMap)}
    (hpending : ∀ e ∈ pending, e.2 ≠ ∅) :
    pending.foldl Flushing.write ⟨m, ∅, none⟩ =
      ⟨m.withAttrs (pending.foldl (fun attrs e => attrs.extendAt e.1 e.2) m.attrs), ∅, none⟩ := by
  induction pending generalizing m with
  | nil => rfl
  | cons e pending ih =>
    have hne : ¬ e.2.isEmpty = true := fun h =>
      hpending e List.mem_cons_self (Map.isEmpty_iff.mp h)
    have hput : Storage.attrsPut m e.1 e.2 = (.ok (), m.withAttrs (m.attrs.extendAt e.1 e.2)) :=
      if_neg hne
    have hwrite : Flushing.write ⟨m, ∅, none⟩ e =
        ⟨m.withAttrs (m.attrs.extendAt e.1 e.2), ∅, none⟩ := by
      rw [Flushing.write, hput]
    rw [List.foldl_cons, hwrite, ih _ fun x hx => hpending x (List.mem_cons_of_mem _ hx)]
    rfl

theorem Mirrors.flushNow {s : WriteBehind MemoryStorage} {l : Ledger} (h : s.Mirrors l)
    (nowMs : Nat) (drain : Drain) :
    (s.flushNow nowMs drain).1 = .ok () ∧ (s.flushNow nowMs drain).2.backend = l.store ∧
      (s.flushNow nowMs drain).2.Mirrors l := by
  have hpending : ∀ e ∈ drain.order s.dirty, e.2 ≠ ∅ := fun e he =>
    h.nonempty e.1 e.2 (drain.mem_order.mp he)
  have hattrs : (drain.order s.dirty).foldl (fun attrs e => attrs.extendAt e.1 e.2)
      s.backend.attrs = l.store.attrs := by
    apply Overlays.settle_all (drain.nodupKeys s.dirty)
    rw [drain.toFinmap_order]
    exact h.attrs
  have hflush : s.flushNow nowMs drain = (.ok (),
      { s with
        backend := l.store
        dirty := ∅
        dirtyAttrs := 0
        lastFlushMs := nowMs
        flushes := s.flushes + 1 }) := by
    rw [WriteBehind.flushNow, foldl_write s.backend hpending, hattrs, ← h.store]
    rfl
  rw [hflush]
  refine ⟨rfl, rfl, rfl, .refl l.store.attrs, fun id pending hlookup => ?_, fun id hid => ?_,
    h.numbered⟩
  · cases hlookup
  · exact absurd hid Finmap.notMem_empty

theorem Mirrors.tick {s : WriteBehind MemoryStorage} {l : Ledger} (h : s.Mirrors l)
    (nowMs : Nat) (drain : Drain) : (s.tick nowMs drain).2.Mirrors l := by
  obtain ⟨hok, _, hflushed⟩ := h.flushNow nowMs drain
  unfold WriteBehind.tick
  split
  · exact ⟨h.store, h.attrs, h.nonempty, h.issued, h.numbered⟩
  · split
    · split
      · rename_i hflush
        rw [hflush] at hflushed
        exact hflushed
      · rename_i hflush
        rw [hflush] at hok
        cases hok
    · exact h

theorem Mirrors.flush {s : WriteBehind MemoryStorage} {l : Ledger} (h : s.Mirrors l)
    (drain : Drain) :
    (answer s (.flush drain)).1 = (l.answer (.flush drain)).1 ∧
      (answer s (.flush drain)).2.Mirrors (l.answer (.flush drain)).2 := by
  obtain ⟨hok, _, hflushed⟩ := h.flushNow s.lastFlushMs drain
  exact ⟨congrArg Reply.done hok, hflushed⟩

/-! ## Runs -/

theorem Mirrors.call {s : WriteBehind MemoryStorage} {l : Ledger} (h : s.Mirrors l) {c : Call}
    (hwrites : l.WritesIssued c) (hroom : (l.answer c).2.issued.length ≤ 2 ^ 64) :
    (answer s c).1 = (l.answer c).1 ∧ (answer s c).2.Mirrors (l.answer c).2 := by
  cases c with
  | createAccount req => exact h.createAccount req hroom
  | attrsGet account keys => exact h.attrsGet account keys
  | attrsAll account => exact h.attrsAll account
  | attrsPut account attrs => exact h.attrsPut account attrs hwrites
  | deleteAccount account => exact h.deleteAccount account
  | flush drain => exact h.flush drain
  | _ => exact h.call_plain rfl (by simp)

theorem Mirrors.run {s : WriteBehind MemoryStorage} {l : Ledger} (h : s.Mirrors l)
    {events : List Event}
    (hwrites : Along (fun l c => (l.answer c).2) Ledger.WritesIssued l
      (events.filterMap Event.call?))
    (hfew : (after Ledger.answer l (events.filterMap Event.call?)).issued.length ≤ 2 ^ 64) :
    (answers handle s events).reduceOption =
        answers Ledger.answer l (events.filterMap Event.call?) ∧
      (after handle s events).Mirrors (after Ledger.answer l (events.filterMap Event.call?)) := by
  have hroom := along_of_le (fun l : Ledger => l.issued.length) Ledger.length_issued_le hfew
  refine simulation (R := Mirrors) (fun s l e c h he hc => ?_) (fun s l e h he => ?_) h
    (hwrites.and hroom)
  · cases e with
    | call c' =>
      obtain rfl : c' = c := Option.some.inj he
      obtain ⟨hreply, hmirrors⟩ := h.call hc.1 hc.2
      exact ⟨congrArg some hreply, hmirrors⟩
    | tick | flushNow => cases he
  · cases e with
    | call c => cases he
    | tick nowMs drain => exact ⟨rfl, h.tick nowMs drain⟩
    | flushNow nowMs drain => exact ⟨rfl, (h.flushNow nowMs drain).2.2⟩

/-- **Write-behind buffering is invisible.** Whatever the calls, with ticks and flushes between
them at any times, as long as attributes are put under ids that `create_account` returned and
it returns no more than there are: the calls are answered as a `MemoryStorage` used directly
answers them, and a flush succeeds and makes the backend equal to that store. -/
theorem invisible (policy : FlushPolicy) (startMs : Nat) (events : List Event)
    (hwrites : Along (fun l c => (l.answer c).2) Ledger.WritesIssued Ledger.new
      (events.filterMap Event.call?))
    (hfew : (after Ledger.answer Ledger.new
      (events.filterMap Event.call?)).issued.length ≤ 2 ^ 64) :
    (answers handle (new MemoryStorage.new policy startMs) events).reduceOption =
        answers answer MemoryStorage.new (events.filterMap Event.call?) ∧
      ∀ nowMs drain,
        let flushed := (after handle (new MemoryStorage.new policy startMs) events).flushNow
          nowMs drain
        flushed.1 = .ok () ∧
          flushed.2.backend = after answer MemoryStorage.new (events.filterMap Event.call?) := by
  obtain ⟨hreplies, hmirrors⟩ := (mirrors_new policy startMs).run hwrites hfew
  rw [Ledger.answers_eq] at hreplies
  refine ⟨hreplies, fun nowMs drain => ?_⟩
  obtain ⟨hok, hbackend, _⟩ := hmirrors.flushNow nowMs drain
  exact ⟨hok, hbackend.trans (Ledger.after_store _ _)⟩

def zealot : NewAccount := ⟨"zealot".toList, .xsha1 (Vector.replicate 20 0), 0, ∅⟩

/-- The account's profile is written, read before and after a tick, and flushed. -/
theorem invisible_zealot :
    (answers handle (new MemoryStorage.new .default 0)
      [.call (.createAccount zealot), .call (.attrsPut 1 (location "here".toList)),
        .call (.attrsAll 1), .tick 40000 .ascending, .call (.attrsAll 1)]).reduceOption =
      answers answer MemoryStorage.new
        [.createAccount zealot, .attrsPut 1 (location "here".toList), .attrsAll 1, .attrsAll 1] :=
  (invisible .default 0
    [.call (.createAccount zealot), .call (.attrsPut 1 (location "here".toList)),
      .call (.attrsAll 1), .tick 40000 .ascending, .call (.attrsAll 1)]
    ⟨trivial, by change (1 : Nat) ∈ _; decide, trivial, trivial, trivial⟩ (by decide)).1

/-! ## When the counter comes round -/

def newcomer (attrs : AttrMap) : NewAccount :=
  ⟨"newcomer".toList, .xsha1 (Vector.replicate 20 0), 0, attrs⟩

/-- Accounts created and deleted, one after another, under the ids from two on. -/
def churn (n : Nat) : List Call :=
  (List.range n).flatMap fun i => [.createAccount (newcomer ∅), .deleteAccount ((i + 2) % 2 ^ 64)]

theorem churn_succ (n : Nat) : churn (n + 1) =
    churn n ++ [.createAccount (newcomer ∅), .deleteAccount ((n + 2) % 2 ^ 64)] := by
  rw [churn, churn, List.range_succ, List.flatMap_append]
  rfl

/-- A store after `n` rounds: the name is free again and the counter has moved on. -/
structure Churned (m : MemoryStorage) (n : Nat) : Prop where
  next : m.nextId = UInt64.ofNat (n + 1)
  free : "newcomer".toList ∉ m.byName

theorem Churned.enrolled {m : MemoryStorage} {n : Nat} (h : Churned m n) (attrs : AttrMap) :
    m.createAccount (newcomer attrs) = (m.enroll (newcomer attrs)).map .ok id ∧
      (m.enroll (newcomer attrs)).1.id = (n + 2) % 2 ^ 64 := by
  constructor
  · have hname : validateAccountName (newcomer attrs).name = .ok () := by
      change validateAccountName "newcomer".toList = _
      decide
    have hfree : (newcomer attrs).name.toAsciiLowercase ∉ m.byName := h.free
    rw [MemoryStorage.createAccount, hname]
    exact if_neg hfree
  · change (m.nextId + 1).toNat = _
    have hnext : m.nextId + 1 = UInt64.ofNat (n + 2) := by
      rw [h.next, UInt64.ofNat_add (n + 1) 1]
      rfl
    rw [hnext, UInt64.toNat_ofNat']

theorem Churned.round {m : MemoryStorage} {n : Nat} (h : Churned m n) :
    Churned (after answer m
      [.createAccount (newcomer ∅), .deleteAccount ((n + 2) % 2 ^ 64)]) (n + 1) := by
  obtain ⟨hcreate, hid⟩ := h.enrolled ∅
  have hafter : after answer m
      [.createAccount (newcomer ∅), .deleteAccount ((n + 2) % 2 ^ 64)] =
        ((m.createAccount (newcomer ∅)).2.deleteAccount ((n + 2) % 2 ^ 64)).2 := rfl
  rw [hafter, hcreate, ← hid]
  constructor
  · change m.nextId + 1 = UInt64.ofNat (n + 1 + 1)
    rw [h.next, UInt64.ofNat_add (n + 1) 1]
    rfl
  · have hlookup : (m.enroll (newcomer ∅)).2.accounts.lookup (m.enroll (newcomer ∅)).1.id =
        some (m.enroll (newcomer ∅)).1 := Finmap.lookup_insert _
    change "newcomer".toList ∉ MemoryStorage.byName
      ((m.enroll (newcomer ∅)).2.deleteAccount (m.enroll (newcomer ∅)).1.id).2
    simp only [MemoryStorage.deleteAccount, hlookup]
    exact Finmap.notMem_erase_self

theorem churned_run {m : MemoryStorage} (h : Churned m 0) (n : Nat) :
    Churned (after answer m (churn n)) n := by
  induction n with
  | zero => exact h
  | succ n ih =>
    rw [churn_succ, after_append]
    exact ih.round

/-- What is buffered for account 1 stays while other accounts come and go. -/
theorem dirty_churn (s : WriteBehind MemoryStorage) {pending : AttrMap} {n : Nat}
    (hn : n < 2 ^ 64) (h : s.dirty.lookup 1 = some pending) :
    (after handle s ((churn n).map Event.call)).dirty.lookup 1 = some pending := by
  induction n with
  | zero => exact h
  | succ n ih =>
    have hne : (1 : AccountId) ≠ (n + 2) % 2 ^ 64 := by
      have hmod : (n + 2) % 2 ^ 64 ≠ 1 := by omega
      exact hmod.symm
    rw [churn_succ, List.map_append, after_append]
    generalize after handle s ((churn n).map Event.call) = s' at ih
    obtain ⟨_, _, hdirty⟩ :=
      (answer s' (.createAccount (newcomer ∅))).2.deleteAccount_eq ((n + 2) % 2 ^ 64)
    change ((answer s' (.createAccount (newcomer ∅))).2.deleteAccount
      ((n + 2) % 2 ^ 64)).2.dirty.lookup 1 = _
    rw [hdirty, Finmap.lookup_erase_ne hne]
    exact ih (by omega)

/-- One account puts an attribute, others are created and deleted, and the next account has an
attribute of its own. -/
def reissue (rounds : Nat) : List Call :=
  [.createAccount zealot, .attrsPut 1 (location "here".toList)] ++ churn rounds ++
    [.createAccount (newcomer (location "there".toList))]

theorem direct_reissue {n : Nat} (hn : (n + 2) % 2 ^ 64 = 1) :
    (answer (after answer MemoryStorage.new (reissue n)) (.attrsAll 1)).1 =
      .attrs (.ok (location "there".toList)) := by
  have hstart : Churned (after answer MemoryStorage.new
      [.createAccount zealot, .attrsPut 1 (location "here".toList)]) 0 :=
    ⟨rfl, by decide⟩
  have hchurned := churned_run hstart n
  rw [← after_append] at hchurned
  rw [reissue, after_append]
  generalize after answer MemoryStorage.new _ = m at hchurned
  obtain ⟨hcreate, hid⟩ := hchurned.enrolled (location "there".toList)
  rw [hn] at hid
  change Reply.attrs (.ok ((Finmap.lookup 1
    (m.createAccount (newcomer (location "there".toList))).2.attrs).getD ∅)) = _
  rw [hcreate, ← hid]
  change Reply.attrs (.ok ((Finmap.lookup _ (Finmap.insert
    (m.enroll (newcomer (location "there".toList))).1.id (location "there".toList)
    m.attrs)).getD ∅)) = _
  rw [Finmap.lookup_insert]
  rfl

theorem buffered_reissue {n : Nat} (hn : n < 2 ^ 64) :
    ∃ stored, (answer (after handle (new MemoryStorage.new .default 0)
        ((reissue n).map Event.call)) (.attrsAll 1)).1 =
      .attrs (.ok (Map.extend stored (location "here".toList))) := by
  have hstart : (after handle (new MemoryStorage.new .default 0)
      ([.createAccount zealot, .attrsPut 1 (location "here".toList)].map
        Event.call)).dirty.lookup 1 = some (location "here".toList) := by decide
  have hdirty := dirty_churn _ hn hstart
  rw [← after_append, ← List.map_append] at hdirty
  rw [reissue, List.map_append, after_append]
  generalize after handle (new MemoryStorage.new .default 0) _ = s at hdirty
  have hafter : (after handle s
      ([.createAccount (newcomer (location "there".toList))].map Event.call)).dirty = s.dirty := rfl
  generalize after handle s _ = s' at hafter
  refine ⟨(s'.backend.attrs.lookup 1).getD ∅, ?_⟩
  change Reply.attrs (s'.attrsAll 1).1 = _
  rw [attrsAll_eq, hafter, hdirty]
  rfl

/-- The attributes of the id are read in the end. -/
def readReissued (rounds : Nat) : List Call := reissue rounds ++ [.attrsAll 1]

theorem writesIssued_readReissued (n : Nat) :
    Along (fun l c => (l.answer c).2) Ledger.WritesIssued Ledger.new (readReissued n) := by
  have hput : (1 : AccountId) ∈ (Ledger.new.answer (.createAccount zealot)).2.issued := by decide
  have hchurn : ∀ c ∈ churn n, ∀ l : Ledger, l.WritesIssued c := by
    intro c hc l
    obtain ⟨i, _, hi⟩ := List.mem_flatMap.mp hc
    rcases List.mem_cons.mp hi with rfl | hi
    · trivial
    · obtain rfl := List.mem_singleton.mp hi
      trivial
  rw [readReissued, reissue, List.append_assoc, List.append_assoc]
  refine ⟨trivial, hput, along_of_forall fun c hc l => ?_⟩
  have hc : c ∈ churn n ++
      [.createAccount (newcomer (location "there".toList)), .attrsAll 1] := hc
  rcases List.mem_append.mp hc with hc | hc
  · exact hchurn c hc l
  · rcases List.mem_cons.mp hc with rfl | hc
    · trivial
    · obtain rfl := List.mem_singleton.mp hc
      trivial

theorem answers_readReissued {n : Nat} (hlt : n < 2 ^ 64) (hn : (n + 2) % 2 ^ 64 = 1) :
    (answers handle (new MemoryStorage.new .default 0)
        ((readReissued n).map Event.call)).reduceOption ≠
      answers answer MemoryStorage.new (readReissued n) := by
  intro he
  obtain ⟨stored, hlow⟩ := buffered_reissue hlt
  have hlast : (handle (after handle (new MemoryStorage.new .default 0)
      ((reissue n).map Event.call)) (.call (.attrsAll 1))).1 =
        some (.attrs (.ok (Map.extend stored (location "here".toList)))) :=
    congrArg some hlow
  rw [readReissued, List.map_append, List.map_singleton, answers_concat, answers_concat,
    direct_reissue hn, hlast, List.reduceOption_append, List.reduceOption_singleton] at he
  have hreply := List.append_inj_right' he rfl
  have hmaps : Map.extend stored (location "here".toList) = location "there".toList := by
    simpa using hreply
  have hlookup := Map.lookup_extend stored (location "here".toList)
    (AttrKey.new "profile/location".toList)
  rw [hmaps, location, location, Finmap.lookup_singleton_eq, Finmap.lookup_singleton_eq] at hlookup
  have hplaces : "there".toList = "here".toList := Option.some.inj hlookup
  exact absurd hplaces (by decide)

theorem filterMap_call (calls : List Call) :
    (calls.map Event.call).filterMap Event.call? = calls := by
  rw [List.filterMap_map]
  exact List.filterMap_some

theorem reissued_of {n : Nat} (hlt : n < 2 ^ 64) (hn : (n + 2) % 2 ^ 64 = 1) :
    Along (fun l c => (l.answer c).2) Ledger.WritesIssued Ledger.new
        (((readReissued n).map Event.call).filterMap Event.call?) ∧
      (answers handle (new MemoryStorage.new .default 0)
        ((readReissued n).map Event.call)).reduceOption ≠
      answers answer MemoryStorage.new
        (((readReissued n).map Event.call).filterMap Event.call?) := by
  rw [filterMap_call]
  exact ⟨writesIssued_readReissued n, answers_readReissued hlt hn⟩

/-- The first account's buffered attribute is read as the attribute of the account that is given
its id again. -/
theorem reissued_id :
    Along (fun l c => (l.answer c).2) Ledger.WritesIssued Ledger.new
        (((readReissued (2 ^ 64 - 1)).map Event.call).filterMap Event.call?) ∧
      (answers handle (new MemoryStorage.new .default 0)
        ((readReissued (2 ^ 64 - 1)).map Event.call)).reduceOption ≠
      answers answer MemoryStorage.new
        (((readReissued (2 ^ 64 - 1)).map Event.call).filterMap Event.call?) :=
  reissued_of (by omega) (by omega)

end WriteBehind

end CommandCenter.Storage
