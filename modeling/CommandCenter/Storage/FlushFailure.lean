import CommandCenter.Library.Overlay
import CommandCenter.Storage.Memory
import CommandCenter.Storage.WriteBehind
import CommandCenter.Library.Run

/-!
# Flushing to a backend that refuses writes

A backend may refuse to write the attributes of an account: the call changes nothing and returns
an error. `KeepsAttrs` says that it does no more than that, and that it lays what it accepts over
what it has. A backend may refuse whatever it likes and change its mind between two writes.

* `WriteBehind.foldl_write_spec`: what the loop of
  `flush_now` leaves of one account's attributes.
* `WriteBehind.effect`: what an event does to the layer.
* `WriteBehind.counted`: the number of buffered attributes is right in every reachable state.
* `WriteBehind.flush_loses_nothing`: nothing is lost by a flush, whatever it fails to write.
-/

namespace CommandCenter.Storage

open Rust CommandCenter.Core Library

/-! ## Reading attributes -/

/-- One of the two ways of reading an account's attributes. -/
inductive AttrRead where
  | all
  | get (keys : List AttrKey)

def AttrRead.of {S : Type} [Storage S] (read : AttrRead) (s : S) (id : AccountId) :
    Result AttrMap :=
  match read with
  | all => (Storage.attrsAll s id).1
  | get keys => (Storage.attrsGet s id keys).1

/-- What was read with other attributes laid over it. -/
def AttrRead.lay (read : AttrRead) (pending out : AttrMap) : AttrMap :=
  match read with
  | all => out.extend pending
  | get keys => pending.pick out keys

/-- What the layer relies on in a backend: an `attrs_put` either changes nothing and is refused,
or lays the attributes over those of the account; and a flush moves nothing. -/
structure KeepsAttrs (B : Type) [Storage B] : Prop where
  refused : ∀ (b : B) id attrs e, (Storage.attrsPut b id attrs).1 = .error e →
    (Storage.attrsPut b id attrs).2 = b
  accepted : ∀ (b : B) id attrs, (Storage.attrsPut b id attrs).1 = .ok () →
    ∀ (read : AttrRead) x, read.of (Storage.attrsPut b id attrs).2 x =
      if x = id then (read.of b x).map (read.lay attrs) else read.of b x
  flush : ∀ (b : B) drain (read : AttrRead) x,
    read.of (Storage.flush b drain).2 x = read.of b x

namespace WriteBehind

variable {B : Type} [Storage B]

/-- A read sees what is buffered over what the backend returns. -/
theorem of_eq (s : WriteBehind B) (read : AttrRead) (id : AccountId) :
    read.of s id = match s.dirty.lookup id with
      | some pending => (read.of s.backend id).map (read.lay pending)
      | none => read.of s.backend id := by
  cases read with
  | all =>
    change (s.attrsAll id).1 = match s.dirty.lookup id with
      | some pending => (Storage.attrsAll s.backend id).1.map fun out => out.extend pending
      | none => (Storage.attrsAll s.backend id).1
    unfold attrsAll
    rcases Storage.attrsAll s.backend id with ⟨e | out, backend⟩
    · cases s.dirty.lookup id <;> rfl
    · cases s.dirty.lookup id <;> rfl
  | get keys =>
    change (s.attrsGet id keys).1 = match s.dirty.lookup id with
      | some pending =>
        (Storage.attrsGet s.backend id keys).1.map fun out => pending.pick out keys
      | none => (Storage.attrsGet s.backend id keys).1
    unfold attrsGet
    rcases Storage.attrsGet s.backend id keys with ⟨e | out, backend⟩
    · cases s.dirty.lookup id <;> rfl
    · cases s.dirty.lookup id <;> rfl

/-! ## The loop of a flush -/

/-- The accounts whose write the backend refuses while it is given what is pending. -/
def refusals : B → List (Σ _ : AccountId, AttrMap) → List AccountId
  | _, [] => []
  | b, e :: pending =>
    match Storage.attrsPut b e.1 e.2 with
    | (.ok (), b) => refusals b pending
    | (.error _, b) => e.1 :: refusals b pending

theorem refusals_subset (b : B) (pending : List (Σ _ : AccountId, AttrMap)) :
    refusals b pending ⊆ pending.keys := by
  induction pending generalizing b with
  | nil => exact List.Subset.refl []
  | cons e pending ih =>
    intro id hid
    unfold refusals at hid
    split at hid
    · exact List.mem_cons_of_mem _ (ih _ hid)
    · rcases List.mem_cons.mp hid with rfl | hid
      · exact List.mem_cons_self
      · exact List.mem_cons_of_mem _ (ih _ hid)

theorem write_cases (h : KeepsAttrs B) (f : Flushing B) (e : Σ _ : AccountId, AttrMap) :
    (∃ err, Storage.attrsPut f.backend e.1 e.2 = (.error err, f.backend) ∧
      f.write e = ⟨f.backend, f.dirty.extendAt e.1 e.2, f.firstErr.or (some err)⟩) ∨
    ∃ b, Storage.attrsPut f.backend e.1 e.2 = (.ok (), b) ∧ f.write e = { f with backend := b } ∧
      ∀ (read : AttrRead) x, read.of b x =
        if x = e.1 then (read.of f.backend x).map (read.lay e.2) else read.of f.backend x := by
  have hrefused := h.refused f.backend e.1 e.2
  have haccepted := h.accepted f.backend e.1 e.2
  unfold Flushing.write
  generalize Storage.attrsPut f.backend e.1 e.2 = put at hrefused haccepted ⊢
  obtain ⟨err | ok, b⟩ := put
  · obtain rfl : b = f.backend := hrefused err rfl
    exact Or.inl ⟨err, rfl, rfl⟩
  · exact Or.inr ⟨b, rfl, rfl, haccepted rfl⟩

theorem write_other (h : KeepsAttrs B) (f : Flushing B) {e : Σ _ : AccountId, AttrMap}
    {id : AccountId} (hid : id ≠ e.1) :
    (f.write e).dirty.lookup id = f.dirty.lookup id ∧
      ∀ read : AttrRead, read.of (f.write e).backend id = read.of f.backend id := by
  rcases write_cases h f e with ⟨err, -, hwrite⟩ | ⟨b, -, hwrite, hread⟩
  · rw [hwrite]
    exact ⟨Finmap.lookup_insert_of_ne _ hid, fun read => rfl⟩
  · rw [hwrite]
    refine ⟨rfl, fun read => ?_⟩
    change read.of b id = _
    rw [hread, if_neg hid]

theorem foldl_write_other (h : KeepsAttrs B) (f : Flushing B)
    {pending : List (Σ _ : AccountId, AttrMap)} {id : AccountId} (hid : id ∉ pending.keys) :
    (pending.foldl Flushing.write f).dirty.lookup id = f.dirty.lookup id ∧
      ∀ read : AttrRead, read.of (pending.foldl Flushing.write f).backend id =
        read.of f.backend id := by
  induction pending generalizing f with
  | nil => exact ⟨rfl, fun read => rfl⟩
  | cons e pending ih =>
    have hne : id ≠ e.1 := fun he => hid (he ▸ List.mem_cons_self)
    obtain ⟨hdirty, hread⟩ := write_other h f hne
    obtain ⟨hdirty', hread'⟩ := ih (f.write e) fun hmem => hid (List.mem_cons_of_mem _ hmem)
    exact ⟨hdirty'.trans hdirty, fun read => (hread' read).trans (hread read)⟩

/-- What the loop makes of an account's attributes: the backend refused them and they are back in
the buffer, or it has them. -/
theorem foldl_write_spec (h : KeepsAttrs B) (f : Flushing B)
    {pending : List (Σ _ : AccountId, AttrMap)} (hnodup : pending.NodupKeys) {id : AccountId}
    {attrs : AttrMap} (hmem : ⟨id, attrs⟩ ∈ pending) (hid : id ∉ f.dirty) :
    (id ∈ refusals f.backend pending ∧
      (pending.foldl Flushing.write f).dirty.lookup id = some attrs ∧
      ∀ read : AttrRead, read.of (pending.foldl Flushing.write f).backend id =
        read.of f.backend id) ∨
    (id ∉ refusals f.backend pending ∧
      (pending.foldl Flushing.write f).dirty.lookup id = none ∧
      ∀ read : AttrRead, read.of (pending.foldl Flushing.write f).backend id =
        (read.of f.backend id).map (read.lay attrs)) := by
  induction pending generalizing f with
  | nil => cases hmem
  | cons e pending ih =>
    obtain ⟨hfresh, hnodup⟩ := List.nodupKeys_cons.mp hnodup
    rw [List.foldl_cons]
    rcases List.mem_cons.mp hmem with rfl | hmem
    · -- Its turn: the writes that follow are about other accounts.
      obtain ⟨hdirty, hread⟩ := foldl_write_other h (f.write ⟨id, attrs⟩) hfresh
      rw [hdirty]
      rcases write_cases h f ⟨id, attrs⟩ with ⟨err, hput, hwrite⟩ | ⟨b, hput, hwrite, hlaid⟩
      · refine Or.inl ⟨?_, ?_, fun read => ?_⟩
        · rw [refusals, hput]
          exact List.mem_cons_self
        · rw [hwrite, Map.extendAt, Finmap.lookup_insert, Finmap.lookup_eq_none.mpr hid]
          exact congrArg some (empty_extend attrs)
        · rw [hread, hwrite]
      · refine Or.inr ⟨?_, ?_, fun read => ?_⟩
        · rw [refusals, hput]
          exact fun hrefused => hfresh (refusals_subset b pending hrefused)
        · rw [hwrite]
          exact Finmap.lookup_eq_none.mpr hid
        · rw [hread, hwrite]
          exact (hlaid read id).trans (if_pos rfl)
    · have hne : id ≠ e.1 := by
        rintro rfl
        exact hfresh (List.mem_keys.mpr ⟨attrs, hmem⟩)
      obtain ⟨hdirty, hread⟩ := write_other h f hne
      have hstill : id ∉ (f.write e).dirty := by
        rw [← Finmap.lookup_eq_none, hdirty, Finmap.lookup_eq_none]
        exact hid
      have hsame : id ∈ refusals f.backend (e :: pending) ↔
          id ∈ refusals (f.write e).backend pending := by
        rcases write_cases h f e with ⟨err, hput, hwrite⟩ | ⟨b, hput, hwrite, -⟩
        · rw [refusals, hput, hwrite]
          simp [hne]
        · rw [refusals, hput, hwrite]
      rw [hsame]
      simpa only [hread] using ih (f.write e) hnodup hmem hstill

/-! ## A flush -/

/-- The accounts whose write fails in a flush. -/
def failed (s : WriteBehind B) (drain : Drain) : List AccountId :=
  refusals s.backend (drain.order s.dirty)

/-- What the loop of `flush_now` leaves. -/
def flushed (s : WriteBehind B) (drain : Drain) : Flushing B :=
  (drain.order s.dirty).foldl Flushing.write ⟨s.backend, ∅, none⟩

theorem flushNow_eq (h : KeepsAttrs B) (s : WriteBehind B) (nowMs : Nat) (drain : Drain) :
    (s.flushNow nowMs drain).2.dirty = (s.flushed drain).dirty ∧
      (s.flushNow nowMs drain).2.dirtyAttrs = countDirty (s.flushed drain).dirty ∧
      ∀ (read : AttrRead) id, read.of (s.flushNow nowMs drain).2.backend id =
        read.of (s.flushed drain).backend id := by
  unfold flushNow
  dsimp only
  split
  · exact ⟨rfl, rfl, fun read id => rfl⟩
  · exact ⟨rfl, rfl, fun read id => h.flush _ drain read id⟩

/-- A flush keeps buffered just what it failed to write, and what is read is the same. -/
theorem flushNow_spec (h : KeepsAttrs B) (s : WriteBehind B) (nowMs : Nat) (drain : Drain)
    (id : AccountId) :
    ((s.flushNow nowMs drain).2.dirty.lookup id =
      if id ∈ s.failed drain then s.dirty.lookup id else none) ∧
    (id ∈ s.failed drain → id ∈ s.dirty) ∧
    ∀ read : AttrRead, read.of (s.flushNow nowMs drain).2 id = read.of s id := by
  obtain ⟨hdirty, -, hread⟩ := flushNow_eq h s nowMs drain
  cases hpending : s.dirty.lookup id with
  | none =>
    have hout : id ∉ (drain.order s.dirty).keys := by
      intro hmem
      obtain ⟨attrs, hattrs⟩ := List.mem_keys.mp hmem
      rw [drain.mem_order.mp hattrs] at hpending
      cases hpending
    obtain ⟨hlookup, hsame⟩ := foldl_write_other h ⟨s.backend, ∅, none⟩ hout
    have hnot : id ∉ s.failed drain := fun hfailed => hout (refusals_subset _ _ hfailed)
    have hnone : (s.flushNow nowMs drain).2.dirty.lookup id = none := by
      rw [hdirty]
      exact hlookup
    refine ⟨by rw [hnone, if_neg hnot], fun hfailed => absurd hfailed hnot, fun read => ?_⟩
    rw [of_eq, of_eq, hnone, hpending, hread]
    exact hsame read
  | some attrs =>
    have hmem : ⟨id, attrs⟩ ∈ drain.order s.dirty := drain.mem_order.mpr hpending
    have hdirty_mem : id ∈ s.dirty := Finmap.mem_of_lookup_eq_some hpending
    rcases foldl_write_spec h ⟨s.backend, ∅, none⟩ (drain.nodupKeys s.dirty) hmem
      Finmap.notMem_empty with ⟨hrefused, hlookup, hsame⟩ | ⟨haccepted, hlookup, hlaid⟩
    · have hfailed : id ∈ s.failed drain := hrefused
      have hback : (s.flushNow nowMs drain).2.dirty.lookup id = some attrs := by
        rw [hdirty]
        exact hlookup
      refine ⟨by rw [hback, if_pos hfailed], fun _ => hdirty_mem, fun read => ?_⟩
      rw [of_eq, of_eq, hback, hpending, hread]
      exact congrArg (Except.map (read.lay attrs)) (hsame read)
    · have hfailed : id ∉ s.failed drain := haccepted
      have hgone : (s.flushNow nowMs drain).2.dirty.lookup id = none := by
        rw [hdirty]
        exact hlookup
      refine ⟨by rw [hgone, if_neg hfailed], fun _ => hdirty_mem, fun read => ?_⟩
      rw [of_eq, of_eq, hgone, hpending, hread]
      exact hlaid read

/-! ## Runs -/

def Event.stamp? : Event → Option Nat
  | call _ => none
  | tick nowMs _ | flushNow nowMs _ => some nowMs

/-- What an event does to the layer. -/
inductive Effect (s : WriteBehind B) : Event → WriteBehind B → Prop
  | put (id : AccountId) (attrs : AttrMap) :
    Effect s (.call (.attrsPut id attrs)) (s.attrsPut id attrs).2
  | delete (id : AccountId) : Effect s (.call (.deleteAccount id)) (s.deleteAccount id).2
  | flush (e : Event) (drain : Drain) (hcall : ∀ c, e = .call c → c = .flush drain) :
    Effect s e (s.flushNow (e.stamp?.getD s.lastFlushMs) drain).2
  | idle (nowMs : Nat) (drain : Drain) (hempty : s.dirty = ∅) :
    Effect s (.tick nowMs drain) { s with lastFlushMs := nowMs }
  | early (nowMs : Nat) (drain : Drain) (hdue : s.due nowMs = false) :
    Effect s (.tick nowMs drain) s
  | through (c : Call) (hput : ∀ id attrs, c ≠ .attrsPut id attrs) :
    Effect s (.call c) { s with backend := (answer s.backend c).2 }

theorem effect_tick (s : WriteBehind B) (nowMs : Nat) (drain : Drain) :
    s.Effect (.tick nowMs drain) (s.tick nowMs drain).2 := by
  unfold tick
  split
  · rename_i hempty
    exact .idle nowMs drain (Map.isEmpty_iff.mp hempty)
  · split
    · have hflush : s.Effect (.tick nowMs drain) (s.flushNow nowMs drain).2 :=
        .flush (.tick nowMs drain) drain fun c he => by cases he
      generalize s.flushNow nowMs drain = result at hflush ⊢
      obtain ⟨e | ok, s'⟩ := result
      · exact hflush
      · exact hflush
    · rename_i hdue
      exact .early nowMs drain (Bool.eq_false_of_not_eq_true hdue)

theorem effect_answer (s : WriteBehind B) (c : Call) :
    s.Effect (.call c) (answer s c).2 := by
  cases c with
  | attrsPut id attrs => exact .put id attrs
  | deleteAccount id => exact .delete id
  | flush drain => exact .flush (.call (.flush drain)) drain fun c he => (Event.call.inj he).symm
  | attrsAll id =>
    have heq : (answer s (.attrsAll id)).2 =
        { s with backend := (answer s.backend (.attrsAll id)).2 } := by
      change (s.attrsAll id).2 = { s with backend := (Storage.attrsAll s.backend id).2 }
      unfold attrsAll
      rcases Storage.attrsAll s.backend id with ⟨e | out, backend⟩
      · rfl
      · cases s.dirty.lookup id <;> rfl
    rw [heq]
    exact .through _ (by simp)
  | attrsGet id keys =>
    have heq : (answer s (.attrsGet id keys)).2 =
        { s with backend := (answer s.backend (.attrsGet id keys)).2 } := by
      change (s.attrsGet id keys).2 = { s with backend := (Storage.attrsGet s.backend id keys).2 }
      unfold attrsGet
      rcases Storage.attrsGet s.backend id keys with ⟨e | out, backend⟩
      · rfl
      · cases s.dirty.lookup id <;> rfl
    rw [heq]
    exact .through _ (by simp)
  | _ => exact .through _ (by simp)

theorem effect (s : WriteBehind B) (e : Event) : s.Effect e (s.handle e).2 := by
  cases e with
  | call c => exact s.effect_answer c
  | tick nowMs drain => exact s.effect_tick nowMs drain
  | flushNow nowMs drain => exact .flush (.flushNow nowMs drain) drain fun c he => by cases he

theorem backend_deleteAccount (s : WriteBehind B) (x : AccountId) :
    (s.deleteAccount x).2.backend = (answer s.backend (.deleteAccount x)).2 := by
  unfold deleteAccount
  split <;> rfl

/-- The states of a run, in which `backend_mut` may change the backend at any time. -/
inductive Reachable : WriteBehind B → Prop
  | new (backend : B) (policy : FlushPolicy) (nowMs : Nat) :
    Reachable (.new backend policy nowMs)
  | handle {s : WriteBehind B} (e : Event) : Reachable s → Reachable (s.handle e).2
  | backendMut {s : WriteBehind B} (backend : B) : Reachable s → Reachable { s with backend }

/-- `dirty_attrs` is the number of buffered attributes. -/
def Counted (s : WriteBehind B) : Prop := s.dirtyAttrs = countDirty s.dirty

theorem counted_flushNow (s : WriteBehind B) (nowMs : Nat) (drain : Drain) :
    (s.flushNow nowMs drain).2.Counted := by
  unfold flushNow
  dsimp only
  split
  · rfl
  · rfl

omit [Storage B] in
theorem Counted.attrsPut {s : WriteBehind B} (h : s.Counted) (id : AccountId)
    (attrs : AttrMap) : (s.attrsPut id attrs).2.Counted := by
  unfold WriteBehind.attrsPut
  split
  · exact h
  · change s.dirtyAttrs + _ = total (s.dirty.extendAt id attrs)
    rw [total_extendAt, h]
    rfl

theorem Counted.deleteAccount {s : WriteBehind B} (h : s.Counted) (id : AccountId) :
    (s.deleteAccount id).2.Counted := by
  unfold WriteBehind.deleteAccount
  split
  · rfl
  · exact h

theorem Counted.handle {s : WriteBehind B} (h : s.Counted) (e : Event) :
    (s.handle e).2.Counted := by
  have heffect := s.effect e
  generalize (s.handle e).2 = s' at heffect ⊢
  cases heffect with
  | put id attrs => exact h.attrsPut id attrs
  | delete id => exact h.deleteAccount id
  | flush e drain => exact s.counted_flushNow _ drain
  | idle | early | through => exact h

/-- The number of buffered attributes is right in every reachable state. -/
theorem counted {s : WriteBehind B} (hs : s.Reachable) : s.Counted := by
  induction hs with
  | new backend policy nowMs => rfl
  | handle e _ ih => exact ih.handle e
  | backendMut backend _ ih => exact ih

/-- **A flush loses nothing.** Whatever writes the backend refuses: what is read of every account
is the same after the flush as before, the buffer holds the accounts whose write failed, with what
it held for them, and the number of buffered attributes is right before and after. -/
theorem flush_loses_nothing (h : KeepsAttrs B) {s : WriteBehind B} (hs : s.Reachable)
    (nowMs : Nat) (drain : Drain) :
    (∀ id, ((s.flushNow nowMs drain).2.attrsAll id).1 = (s.attrsAll id).1) ∧
    (∀ id keys, ((s.flushNow nowMs drain).2.attrsGet id keys).1 = (s.attrsGet id keys).1) ∧
    (∀ id, id ∈ (s.flushNow nowMs drain).2.dirty ↔ id ∈ s.failed drain) ∧
    (∀ id ∈ s.failed drain,
      (s.flushNow nowMs drain).2.dirty.lookup id = s.dirty.lookup id) ∧
    (s.flushNow nowMs drain).2.dirtyAttrs = countDirty (s.flushNow nowMs drain).2.dirty ∧
    s.dirtyAttrs = countDirty s.dirty := by
  have hspec := flushNow_spec h s nowMs drain
  refine ⟨fun id => (hspec id).2.2 .all, fun id keys => (hspec id).2.2 (.get keys), fun id => ?_,
    fun id hfailed => ?_, s.counted_flushNow nowMs drain, counted hs⟩
  · obtain ⟨hlookup, hbuffered, -⟩ := hspec id
    rw [← not_iff_not, ← Finmap.lookup_eq_none, hlookup]
    constructor
    · intro hnone hfailed
      rw [if_pos hfailed, Finmap.lookup_eq_none] at hnone
      exact hnone (hbuffered hfailed)
    · exact fun hnot => if_neg hnot
  · rw [(hspec id).1, if_pos hfailed]

end WriteBehind

/-! ## A backend that refuses -/

theorem MemoryStorage.of_attrsPut (m : MemoryStorage) (id : AccountId) (attrs : AttrMap)
    (read : AttrRead) (x : AccountId) : read.of (m.attrsPut id attrs).2 x =
      if x = id then (read.of m x).map (read.lay attrs) else read.of m x := by
  have hlookup : ((m.attrsPut id attrs).2.attrs.lookup x).getD ∅ =
      if x = id then ((m.attrs.lookup x).getD ∅).extend attrs else (m.attrs.lookup x).getD ∅ := by
    unfold MemoryStorage.attrsPut
    by_cases hempty : attrs.isEmpty = true
    · rw [if_pos hempty, Map.isEmpty_iff.mp hempty, extend_empty, ite_self]
    · rw [if_neg hempty]
      by_cases hx : x = id
      · subst hx
        rw [if_pos rfl, Map.extendAt, Finmap.lookup_insert]
        rfl
      · rw [if_neg hx, Map.extendAt, Finmap.lookup_insert_of_ne _ hx]
  have hof : ∀ s : MemoryStorage, read.of s x =
      .ok (read.lay ((s.attrs.lookup x).getD ∅) ∅) := by
    intro s
    cases read with
    | all => exact congrArg Except.ok (empty_extend _).symm
    | get keys => exact congrArg Prod.fst (s.attrsGet_eq x keys)
  rw [hof, hof, hlookup]
  split
  · cases read with
    | all => exact congrArg Except.ok (extend_assoc ∅ _ attrs).symm
    | get keys => exact congrArg Except.ok (Map.pick_pick _ attrs keys).symm
  · rfl

theorem MemoryStorage.keepsAttrs : KeepsAttrs MemoryStorage where
  refused m id attrs e h := by
    change (m.attrsPut id attrs).1 = .error e at h
    unfold MemoryStorage.attrsPut at h
    split at h <;> cases h
  accepted m id attrs _ read x := m.of_attrsPut id attrs read x
  flush m drain read x := rfl

/-- A `MemoryStorage` that refuses to put the attributes of some accounts, and to delete them. -/
structure Refusing where
  store : MemoryStorage
  refuses : AccountId → Bool

namespace Refusing

/-- A call that the store answers. -/
def through {α : Type} (s : Refusing) (result : α × MemoryStorage) : α × Refusing :=
  (result.1, { s with store := result.2 })

/-- A call about the account that the store answers if it does not refuse the account. -/
def unlessRefused (s : Refusing) (id : AccountId) (result : Result Unit × MemoryStorage) :
    Result Unit × Refusing :=
  if s.refuses id then (.error (.backend "disk on fire".toList), s) else s.through result

instance : Storage Refusing where
  accountByName s name := s.through (s.store.accountByName name)
  accountById s id := s.through (s.store.accountById id)
  createAccount s req := s.through (s.store.createAccount req)
  setCredential s id credential := s.through (s.store.setCredential id credential)
  attrsGet s id keys := s.through (s.store.attrsGet id keys)
  attrsAll s id := s.through (s.store.attrsAll id)
  attrsPut s id attrs := s.unlessRefused id (s.store.attrsPut id attrs)
  banPut s ban := s.through (s.store.banPut ban)
  banGet s id now := s.through (s.store.banGet id now)
  banClear s id scope := s.through (s.store.banClear id scope)
  accountCount s := s.through s.store.accountCount
  listAccounts s offset limit := s.through (s.store.listAccounts offset limit)
  deleteAccount s id := s.unlessRefused id (s.store.deleteAccount id)
  characters s account := s.through (s.store.characters account)
  characterByName s name := s.through (s.store.characterByName name)
  createCharacter s character := s.through (s.store.createCharacter character)
  updateCharacter s character := s.through (s.store.updateCharacter character)
  deleteCharacter s account name := s.through (s.store.deleteCharacter account name)
  flush s drain := s.through (s.store.flush drain)

theorem unlessRefused_of_refused {s : Refusing} {id : AccountId} (h : s.refuses id = true)
    (result : Result Unit × MemoryStorage) :
    s.unlessRefused id result = (.error (.backend "disk on fire".toList), s) := by
  rw [unlessRefused, if_pos h]

theorem unlessRefused_of_not {s : Refusing} {id : AccountId} (h : ¬ s.refuses id = true)
    (result : Result Unit × MemoryStorage) : s.unlessRefused id result = s.through result := by
  rw [unlessRefused, if_neg h]

theorem attrsPut_eq (s : Refusing) (id : AccountId) (attrs : AttrMap) :
    Storage.attrsPut s id attrs = s.unlessRefused id (s.store.attrsPut id attrs) := rfl

theorem keepsAttrs : KeepsAttrs Refusing where
  refused s id attrs e h := by
    rw [attrsPut_eq] at h ⊢
    by_cases hrefuses : s.refuses id = true
    · rw [unlessRefused_of_refused hrefuses]
    · rw [unlessRefused_of_not hrefuses] at h ⊢
      exact congrArg (Refusing.mk · s.refuses) (MemoryStorage.keepsAttrs.refused _ _ _ _ h)
  accepted s id attrs h read x := by
    rw [attrsPut_eq] at h ⊢
    by_cases hrefuses : s.refuses id = true
    · rw [unlessRefused_of_refused hrefuses] at h
      cases h
    · have hstore : ∀ s : Refusing, read.of s x = read.of s.store x := by
        intro s
        cases read <;> rfl
      rw [unlessRefused_of_not hrefuses, hstore, hstore]
      exact s.store.of_attrsPut id attrs read x
  flush s drain read x := rfl

end Refusing

namespace WriteBehind

/-- Two accounts' locations are buffered, and the backend refuses those of the first. -/
def halfRefused : WriteBehind Refusing :=
  (((new ⟨MemoryStorage.new, fun id => id == 1⟩ .default 0).handle
    (.call (.attrsPut 1 (location "here".toList)))).2.handle
    (.call (.attrsPut 2 (location "there".toList)))).2

/-- The first account's location is still read after the flush. -/
theorem flush_loses_nothing_halfRefused :
    ((halfRefused.flushNow 5 .ascending).2.attrsAll 1).1 = .ok (location "here".toList) ∧
      ∀ id, id ∈ (halfRefused.flushNow 5 .ascending).2.dirty ↔
        id ∈ halfRefused.failed .ascending := by
  have hs : halfRefused.Reachable := .handle _ (.handle _ (.new _ _ _))
  have h := flush_loses_nothing Refusing.keepsAttrs hs 5 .ascending
  refine ⟨?_, h.2.2.1⟩
  rw [h.1 1]
  rfl

end WriteBehind

/-!
## Calls that fail

A call that changes something may fail in the backend without effect. The layer passes the error
on. It has changed nothing itself, but for `delete_account`, which drops what is buffered for the
account before it asks the backend.

* `WriteBehind.failed_call_unnoticed`: when a failed call is not noticed by those who read.
* `WriteBehind.lost_location`: a failed deletion that is.
-/

def Call.reads : Call → Bool
  | .accountByName _ | .accountById _ | .attrsGet _ _ | .attrsAll _ | .banGet _ _
  | .accountCount | .listAccounts _ _ | .characters _ | .characterByName _ => true
  | _ => false

/-- Whether the call is made to change something. -/
def Call.mutates : Call → Bool
  | .createAccount _ | .setCredential _ _ | .attrsPut _ _ | .banPut _ | .banClear _ _
  | .deleteAccount _ | .createCharacter _ | .updateCharacter _ | .deleteCharacter _ _ => true
  | _ => false

/-- Whether the call returned an error. -/
def Reply.isErr : Reply → Bool
  | account result => !result.isOk
  | created result => !result.isOk
  | done result => !result.isOk
  | attrs result => !result.isOk
  | ban result => !result.isOk
  | count result => !result.isOk
  | accounts result => !result.isOk
  | character result => !result.isOk
  | characters result => !result.isOk
  | changed result => !result.isOk

namespace WriteBehind

variable {B : Type} [Storage B]

/-- Whatever comes after, a read returns in `s'` what it returns in `s`. -/
def Unnoticed (s s' : WriteBehind B) : Prop :=
  ∀ (events : List Event) (read : Call), read.reads = true →
    (answer (after handle s' events) read).1 = (answer (after handle s events) read).1

omit [Storage B] in
theorem eq_of_backend {s : WriteBehind B} {b : B} (h : b = s.backend) :
    { s with backend := b } = s := by
  subst h
  rfl

theorem attrsPut_succeeds (s : WriteBehind B) (id : AccountId) (attrs : AttrMap) :
    (answer s (.attrsPut id attrs)).1 = .done (.ok ()) := by
  change Reply.done (s.attrsPut id attrs).1 = _
  unfold attrsPut
  split <;> rfl

theorem deleteAccount_dirty (s : WriteBehind B) (id : AccountId) :
    (answer s (.deleteAccount id)).2.dirty = s.dirty.erase id := by
  change (s.deleteAccount id).2.dirty = _
  unfold deleteAccount
  split
  · rfl
  · rename_i habsent
    exact (Map.erase_of_notMem habsent).symm

/-- If nothing is buffered for the account, a deletion that fails without effect changes
nothing. -/
theorem deleteAccount_unchanged {s : WriteBehind B} {id : AccountId} (hid : id ∉ s.dirty)
    (hback : (answer s.backend (.deleteAccount id)).2 = s.backend) :
    (answer s (.deleteAccount id)).2 = s := by
  change (s.deleteAccount id).2 = s
  unfold deleteAccount
  rw [if_neg hid]
  exact eq_of_backend hback

/-- **A failed call is not noticed unless it is a deletion that drops what is buffered**: when the
backend's call has no effect and an error is returned, later reads and the account's buffered
attributes are as if there had been no call, just if the call is not the deletion of an account
for which attributes are buffered. -/
theorem failed_call_unnoticed (s : WriteBehind B) {c : Call} (hc : c.mutates = true)
    (herr : (answer s c).1.isErr = true) (hback : (answer s.backend c).2 = s.backend) :
    (s.Unnoticed (answer s c).2 ∧
      ∀ id, c = .deleteAccount id → (answer s c).2.dirty.lookup id = s.dirty.lookup id) ↔
    ∀ id, c = .deleteAccount id → id ∉ s.dirty := by
  constructor
  · rintro ⟨-, hkept⟩ id rfl
    have hlookup := hkept id rfl
    rw [deleteAccount_dirty, Finmap.lookup_erase] at hlookup
    exact Finmap.lookup_eq_none.mp hlookup.symm
  · intro hclean
    have hsame : (answer s c).2 = s := by
      have heffect := s.effect_answer c
      generalize hafter : (answer s c).2 = s' at heffect
      cases heffect with
      | put id attrs =>
        rw [attrsPut_succeeds] at herr
        cases herr
      | delete id =>
        rw [← hafter]
        exact deleteAccount_unchanged (hclean id rfl) hback
      | flush _ drain hcall =>
        obtain rfl := hcall c rfl
        cases hc
      | through => exact eq_of_backend hback
    rw [hsame]
    exact ⟨fun events read _ => rfl, fun id _ => rfl⟩

/-- A password change for an account that is not there. -/
theorem failed_setCredential_unnoticed :
    halfRefused.Unnoticed (answer halfRefused (.setCredential 7 (.xsha1 (.replicate 20 0)))).2 :=
  ((failed_call_unnoticed halfRefused (c := .setCredential 7 (.xsha1 (.replicate 20 0))) rfl rfl
    rfl).mpr fun id he => by cases he).1

/-- The backend refuses to delete the first account, and its location is no longer read. -/
theorem lost_location :
    (answer halfRefused (.deleteAccount 1)).1.isErr = true ∧
      (answer halfRefused.backend (.deleteAccount 1)).2 = halfRefused.backend ∧
      (halfRefused.attrsAll 1).1 = .ok (location "here".toList) ∧
      ((answer halfRefused (.deleteAccount 1)).2.attrsAll 1).1 = .ok ∅ :=
  ⟨rfl, rfl, rfl, rfl⟩

end WriteBehind

end CommandCenter.Storage
