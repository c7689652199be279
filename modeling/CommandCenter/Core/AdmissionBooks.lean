import CommandCenter.Core.Admission

/-!
# The admission table keeps the books

The table counts the live connections: `AdmissionTable.Counts` says that its maps count the
multiset of the classes and addresses of the live connections, and every event of the traffic
preserves it.

* `Traffic.Effect`, `Traffic.step_effect`: the four things an event can do.
* `Traffic.counts_run`: the maps are exact in every state, whatever the limits and the
  allowlist.
* `Traffic.total_run`: so is the total, while fewer than `2 ^ 32` connections are live.
* `Traffic.classBound_run`, `Traffic.ipBound_run`: with fixed limits, the ceilings hold.
* `Traffic.admission_books`: all of this for every run.
-/

namespace CommandCenter.Core

open Rust Library

namespace AdmissionTable

/-- The maps of the table count the classes and addresses in `m`. -/
structure Counts (t : AdmissionTable) (m : Multiset (ClientClass × IpAddr)) : Prop where
  perIp : t.perIp.Counts m
  perClass : t.perClass.Counts (m.map Prod.fst)

theorem counts_new : new.Counts 0 := ⟨Tally.counts_empty, Tally.counts_empty⟩

theorem Counts.ipCount {t : AdmissionTable} {m : Multiset (ClientClass × IpAddr)}
    (h : t.Counts m) (client : ClientClass) (ip : IpAddr) :
    (t.ipCount client ip).toNat = m.count (client, ip) := h.perIp.count _

theorem Counts.classCount {t : AdmissionTable} {m : Multiset (ClientClass × IpAddr)}
    (h : t.Counts m) (client : ClientClass) :
    (t.classCount client).toNat = (m.map Prod.fst).count client := h.perClass.count _

theorem Counts.trackedEntries {t : AdmissionTable} {m : Multiset (ClientClass × IpAddr)}
    (h : t.Counts m) : t.trackedEntries = m.toFinset.card := h.perIp.card_keys

theorem wouldAdmit_ok {t : AdmissionTable} {client : ClientClass} {ip : IpAddr}
    {limits : ConnLimits} (h : t.wouldAdmit client ip limits = .ok ()) :
    t.classCount client < limits.global ∧
      (ip ∉ t.allowlist → t.ipCount client ip < limits.perIp) := by
  unfold wouldAdmit at h
  split at h
  · cases h
  · rename_i hglobal
    split at h
    · cases h
    · rename_i hip
      refine ⟨UInt32.not_le.mp hglobal, fun hlist => UInt32.not_le.mp fun hle => ?_⟩
      exact hip ⟨hlist, hle⟩

/-- An address has at most the connections of the class. -/
theorem count_le_count_fst (m : Multiset (ClientClass × IpAddr)) (client : ClientClass)
    (ip : IpAddr) : m.count (client, ip) ≤ (m.map Prod.fst).count client := by
  rw [Multiset.count_map, Multiset.count_eq_card_filter_eq]
  refine Multiset.card_le_card (Multiset.monotone_filter_right m fun x hx => ?_)
  exact congrArg Prod.fst hx

theorem Counts.add {t : AdmissionTable} {m : Multiset (ClientClass × IpAddr)} (h : t.Counts m)
    {client : ClientClass} {ip : IpAddr} {limit : UInt32}
    (hroom : (m.map Prod.fst).count client < limit.toNat) :
    (t.add client ip).Counts ((client, ip) ::ₘ m) := by
  have hlimit := limit.toNat_lt
  have hip := count_le_count_fst m client ip
  constructor
  · exact h.perIp.increment (by omega)
  · rw [Multiset.map_cons]
    exact h.perClass.increment (by omega)

theorem Counts.remove {t : AdmissionTable} {m : Multiset (ClientClass × IpAddr)}
    (h : t.Counts m) {client : ClientClass} {ip : IpAddr} (hmem : (client, ip) ∈ m) :
    (t.remove client ip).Counts (m.erase (client, ip)) := by
  constructor
  · exact h.perIp.decrement hmem
  · rw [Multiset.map_erase_of_mem Prod.fst m hmem]
    exact h.perClass.decrement (Multiset.mem_map_of_mem Prod.fst hmem)

theorem admitConnection_error {t : AdmissionTable} {client : ClientClass} {ip : IpAddr}
    {limits : ConnLimits} {rejection : Rejection}
    (h : (t.admitConnection client ip limits).1 = .error rejection) :
    (t.admitConnection client ip limits).2 = t := by
  unfold admitConnection at h ⊢
  split at h
  · rfl
  · cases h

theorem reclassify_error {t : AdmissionTable} {ip : IpAddr} {source target : ClientClass}
    {limits : ConnLimits} {rejection : Rejection}
    (h : (t.reclassify ip source target limits).1 = .error rejection) :
    (t.reclassify ip source target limits).2 = t := by
  unfold reclassify at h ⊢
  split at h
  · cases h
  · rename_i hne
    rw [if_neg hne]
    split at h
    · rfl
    · cases h

end AdmissionTable

namespace Traffic

/-- The class and address of every live connection. -/
def held (s : Traffic) : Multiset (ClientClass × IpAddr) :=
  (s.live : Multiset Connection).map fun conn => (conn.client, conn.ip)

/-! ## The effect of an event -/

/-- What an event does to the table and to the connections it counts. -/
inductive Effect (s s' : Traffic) : Event → Prop where
  | idle (e : Event) (hip : s'.table.perIp = s.table.perIp)
      (hclass : s'.table.perClass = s.table.perClass) (htotal : s'.table.total = s.table.total)
      (hheld : s'.held = s.held) : Effect s s' e
  | admitted (id : Nat) (client : ClientClass) (ip : IpAddr) (limits : ConnLimits)
      (hok : s.table.wouldAdmit client ip limits = .ok ())
      (htable : s'.table = s.table.add client ip)
      (hheld : s'.held = (client, ip) ::ₘ s.held) : Effect s s' (.admission id client ip limits)
  | moved (id : Nat) (source target : ClientClass) (ip : IpAddr) (limits : ConnLimits)
      (hne : source ≠ target) (hmem : (source, ip) ∈ s.held)
      (hok : s.table.wouldAdmit target ip limits = .ok ())
      (htable : s'.table = (s.table.remove source ip).add target ip)
      (hheld : s'.held = (target, ip) ::ₘ s.held.erase (source, ip)) :
      Effect s s' (.reclassify id target limits)
  | released (id : Nat) (client : ClientClass) (ip : IpAddr) (hmem : (client, ip) ∈ s.held)
      (htable : s'.table = s.table.remove client ip)
      (hheld : s'.held = s.held.erase (client, ip)) : Effect s s' (.release id)

theorem mem_held {s : Traffic} {conn : Connection} (h : conn ∈ s.live) :
    (conn.client, conn.ip) ∈ s.held :=
  Multiset.mem_map_of_mem (fun conn : Connection => (conn.client, conn.ip)) h

theorem held_cons (s : Traffic) (table : AdmissionTable) (conn : Connection) :
    held ⟨table, conn :: s.live⟩ = (conn.client, conn.ip) ::ₘ s.held := by
  simp [held]

theorem held_erase {s : Traffic} (table : AdmissionTable) {conn : Connection}
    (h : conn ∈ s.live) :
    held ⟨table, s.live.erase conn⟩ = s.held.erase (conn.client, conn.ip) := by
  unfold held
  rw [← Multiset.coe_erase]
  exact Multiset.map_erase_of_mem (fun conn : Connection => (conn.client, conn.ip)) _ h

theorem held_replace {s : Traffic} (table : AdmissionTable) {conn : Connection}
    (h : conn ∈ s.live) (target : ClientClass) :
    held ⟨table, { conn with client := target } :: s.live.erase conn⟩ =
      (target, conn.ip) ::ₘ s.held.erase (conn.client, conn.ip) := by
  rw [← held_erase table h]
  exact held_cons ⟨table, s.live.erase conn⟩ table _

theorem find_mem {s : Traffic} {id : Nat} {conn : Connection} (h : s.find id = some conn) :
    conn ∈ s.live := List.mem_of_find?_eq_some h

theorem effect_of_unchanged {s : Traffic} {e : Event} (h : s.step e = s) :
    Effect s (s.step e) e := by
  rw [h]
  exact .idle e rfl rfl rfl rfl

theorem step_effect (s : Traffic) (e : Event) : Effect s (s.step e) e := by
  cases e with
  | admission id client ip limits =>
    cases hfind : s.find id with
    | some conn =>
      exact effect_of_unchanged (by simp [step, hfind])
    | none =>
      cases hok : s.table.wouldAdmit client ip limits with
      | error rejection =>
        apply effect_of_unchanged
        simp [step, hfind, AdmissionTable.admitConnection, hok]
      | ok u =>
        have hstep : s.step (.admission id client ip limits) =
            ⟨s.table.add client ip, ⟨id, client, ip⟩ :: s.live⟩ := by
          simp [step, hfind, AdmissionTable.admitConnection, hok]
        rw [hstep]
        exact .admitted id client ip limits hok rfl (held_cons s _ _)
  | reclassify id target limits =>
    cases hfind : s.find id with
    | none =>
      exact effect_of_unchanged (by simp [step, hfind])
    | some conn =>
      have hmem := find_mem hfind
      by_cases hsame : conn.client = target
      · have hstep : s.step (.reclassify id target limits) =
            ⟨s.table, { conn with client := target } :: s.live.erase conn⟩ := by
          simp [step, hfind, AdmissionTable.reclassify, hsame]
        rw [hstep]
        refine .idle _ rfl rfl rfl ?_
        rw [held_replace s.table hmem target, ← hsame]
        exact Multiset.cons_erase (mem_held hmem)
      · cases hok : s.table.wouldAdmit target conn.ip limits with
        | error rejection =>
          apply effect_of_unchanged
          simp [step, hfind, AdmissionTable.reclassify, hsame, hok]
        | ok u =>
          have hstep : s.step (.reclassify id target limits) =
              ⟨(s.table.remove conn.client conn.ip).add target conn.ip,
                { conn with client := target } :: s.live.erase conn⟩ := by
            simp [step, hfind, AdmissionTable.reclassify, hsame, hok]
          rw [hstep]
          exact .moved id conn.client target conn.ip limits hsame (mem_held hmem) hok rfl
            (held_replace _ hmem target)
  | release id =>
    cases hfind : s.find id with
    | none =>
      exact effect_of_unchanged (by simp [step, hfind])
    | some conn =>
      have hmem := find_mem hfind
      have hstep : s.step (.release id) =
          ⟨s.table.remove conn.client conn.ip, s.live.erase conn⟩ := by
        simp [step, hfind, AdmissionTable.release]
      rw [hstep]
      exact .released id conn.client conn.ip (mem_held hmem) rfl (held_erase _ hmem)
  | setAllowlist ips => exact .idle _ rfl rfl rfl rfl
  | bindAccount client account limits =>
    have hbind : (s.table.bindAccount client account limits).2.perIp = s.table.perIp ∧
        (s.table.bindAccount client account limits).2.perClass = s.table.perClass ∧
        (s.table.bindAccount client account limits).2.total = s.table.total := by
      unfold AdmissionTable.bindAccount
      split <;> exact ⟨rfl, rfl, rfl⟩
    exact .idle _ hbind.1 hbind.2.1 hbind.2.2 rfl
  | releaseAccount client account => exact .idle _ rfl rfl rfl rfl

/-! ## The maps and the total -/

theorem counts_step {s : Traffic} (h : s.table.Counts s.held) (e : Event) :
    (s.step e).table.Counts (s.step e).held := by
  have heffect := s.step_effect e
  generalize s.step e = s' at heffect
  cases heffect with
  | idle _ hip hclass _ hheld =>
    rw [hheld]
    exact ⟨hip ▸ h.perIp, hclass ▸ h.perClass⟩
  | admitted id client ip limits hok htable hheld =>
    have hroom := UInt32.lt_iff_toNat_lt.mp (AdmissionTable.wouldAdmit_ok hok).1
    rw [h.classCount] at hroom
    rw [htable, hheld]
    exact h.add hroom
  | moved id source target ip limits hne hmem hok htable hheld =>
    have hroom := UInt32.lt_iff_toNat_lt.mp (AdmissionTable.wouldAdmit_ok hok).1
    rw [h.classCount] at hroom
    rw [htable, hheld]
    refine (h.remove hmem).add (lt_of_le_of_lt ?_ hroom)
    exact Multiset.count_le_of_le _ (Multiset.map_le_map (Multiset.erase_le _ _))
  | released id client ip hmem htable hheld =>
    rw [htable, hheld]
    exact h.remove hmem

theorem counts_run (events : List Event) :
    (run step new events).table.Counts (run step new events).held :=
  run_invariant (P := fun s : Traffic => s.table.Counts s.held) (fun _ e h => counts_step h e)
    AdmissionTable.counts_new events

@[simp] theorem card_held (s : Traffic) : s.held.card = s.live.length := by simp [held]

theorem total_step {s : Traffic} {e : Event} (h : s.table.total.toNat = s.held.card)
    (hafter : (s.step e).held.card < 2 ^ 32) :
    (s.step e).table.total.toNat = (s.step e).held.card := by
  have heffect := s.step_effect e
  generalize s.step e = s' at heffect hafter
  cases heffect with
  | idle _ _ _ htotal hheld => rw [htotal, hheld, h]
  | admitted id client ip limits _ htable hheld =>
    rw [hheld, Multiset.card_cons] at hafter
    rw [htable, hheld, Multiset.card_cons, ← h]
    exact toNat_succ (h ▸ hafter)
  | moved id source target ip limits _ hmem _ htable hheld =>
    have hpos : 0 < s.held.card := Multiset.card_pos_iff_exists_mem.mpr ⟨_, hmem⟩
    rw [hheld, Multiset.card_cons, Multiset.card_erase_of_mem hmem] at hafter
    rw [htable, hheld, Multiset.card_cons, Multiset.card_erase_of_mem hmem, ← h]
    have hsub : (saturatingSub s.table.total 1).toNat = s.table.total.toNat - 1 :=
      toNat_saturatingSub _ _
    rw [← h] at hafter
    change (saturatingSub s.table.total 1 + 1).toNat = _
    rw [toNat_succ (by rw [hsub]; exact hafter), hsub]
    rfl
  | released id client ip hmem htable hheld =>
    rw [htable, hheld, Multiset.card_erase_of_mem hmem, ← h]
    exact toNat_saturatingSub _ _

theorem total_run {events : List Event}
    (h : Always step (fun s => s.live.length < 2 ^ 32) new events) :
    (run step new events).table.total.toNat = (run step new events).live.length := by
  rw [← card_held]
  refine (Always.keeps (P := fun s : Traffic => s.table.total.toNat = s.held.card) ?_ rfl h).last
  intro s e hs _ hafter
  exact total_step hs (card_held _ ▸ hafter)

/-! ## The ceilings -/

/-- The event consults the limits of its class. -/
def Event.Uses (limits : ClientClass → ConnLimits) : Event → Prop
  | .admission _ client _ l => l = limits client
  | .reclassify _ target l => l = limits target
  | .release _ | .setAllowlist _ | .bindAccount _ _ _ | .releaseAccount _ _ => True

/-- The event does not put the address on the allowlist. -/
def Event.Spares (ip : IpAddr) : Event → Prop
  | .setAllowlist ips => ip ∉ ips
  | .admission _ _ _ _ | .reclassify _ _ _ | .release _ | .bindAccount _ _ _
  | .releaseAccount _ _ => True

theorem bound_step {K : Type*} [DecidableEq K] {g : ClientClass × IpAddr → K} {k : K}
    {bound : Nat} {limits : ClientClass → ConnLimits} {s : Traffic} {e : Event}
    (he : e.Uses limits)
    (hadmitted : ∀ client ip, s.table.wouldAdmit client ip (limits client) = .ok () →
      g (client, ip) = k → (s.held.map g).count k < bound)
    (h : (s.held.map g).count k ≤ bound) : ((s.step e).held.map g).count k ≤ bound := by
  have hfewer : ∀ x, ((s.held.erase x).map g).count k ≤ (s.held.map g).count k := fun x =>
    Multiset.count_le_of_le _ (Multiset.map_le_map (Multiset.erase_le _ _))
  have heffect := s.step_effect e
  generalize s.step e = s' at heffect
  cases heffect with
  | idle _ _ _ _ hheld =>
    rw [hheld]
    exact h
  | admitted id client ip l hok _ hheld =>
    obtain rfl : l = limits client := he
    rw [hheld, Multiset.map_cons]
    by_cases hk : g (client, ip) = k
    · rw [hk, Multiset.count_cons_self]
      exact hadmitted client ip hok hk
    · rw [Multiset.count_cons_of_ne (Ne.symm hk)]
      exact h
  | moved id source target ip l _ _ hok _ hheld =>
    obtain rfl : l = limits target := he
    rw [hheld, Multiset.map_cons]
    by_cases hk : g (target, ip) = k
    · rw [hk, Multiset.count_cons_self]
      exact lt_of_le_of_lt (hfewer _) (hadmitted target ip hok hk)
    · rw [Multiset.count_cons_of_ne (Ne.symm hk)]
      exact (hfewer _).trans h
  | released id client ip _ _ hheld =>
    rw [hheld]
    exact (hfewer _).trans h

theorem allowlist_step {s : Traffic} {e : Event} {ip : IpAddr} (h : ip ∉ s.table.allowlist)
    (he : e.Spares ip) : ip ∉ (s.step e).table.allowlist := by
  cases e with
  | setAllowlist ips => exact he
  | admission id client addr limits =>
    cases hfind : s.find id with
    | some conn => simpa [step, hfind] using h
    | none =>
      cases hok : s.table.wouldAdmit client addr limits <;>
        simpa [step, hfind, AdmissionTable.admitConnection, hok] using h
  | reclassify id target limits =>
    cases hfind : s.find id with
    | none => simpa [step, hfind] using h
    | some conn =>
      by_cases hsame : conn.client = target
      · simpa [step, hfind, AdmissionTable.reclassify, hsame] using h
      · cases hok : s.table.wouldAdmit target conn.ip limits <;>
          simpa [step, hfind, AdmissionTable.reclassify, hsame, hok] using h
  | release id =>
    cases hfind : s.find id <;> simpa [step, hfind, AdmissionTable.release] using h
  | bindAccount client account limits =>
    by_cases hfull : limits.perAccount ≤ s.table.accountCount client account <;>
      simpa [step, AdmissionTable.bindAccount, hfull] using h
  | releaseAccount client account => exact h

theorem classBound_run {limits : ClientClass → ConnLimits} {events : List Event}
    (h : ∀ e ∈ events, e.Uses limits) (client : ClientClass) :
    (run step new events).table.classCount client ≤ (limits client).global := by
  let P : Traffic → Prop := fun s => s.table.Counts s.held ∧
    (s.held.map Prod.fst).count client ≤ (limits client).global.toNat
  have hrun : P (run step new events) := by
    refine (Along.always (P := P) ?_ ⟨AdmissionTable.counts_new, Nat.zero_le _⟩
      (along_of_forall fun e he _ => h e he)).last
    rintro s e ⟨hcounts, hbound⟩ he
    refine ⟨counts_step hcounts e, bound_step he (fun entering ip hok hk => ?_) hbound⟩
    obtain rfl : entering = client := hk
    have hroom := UInt32.lt_iff_toNat_lt.mp (AdmissionTable.wouldAdmit_ok hok).1
    rwa [hcounts.classCount] at hroom
  rw [UInt32.le_iff_toNat_le, hrun.1.classCount]
  exact hrun.2

theorem ipBound_run {limits : ClientClass → ConnLimits} {events : List Event}
    (h : ∀ e ∈ events, e.Uses limits) {ip : IpAddr} (hip : ∀ e ∈ events, e.Spares ip)
    (client : ClientClass) :
    (run step new events).table.ipCount client ip ≤ (limits client).perIp := by
  let P : Traffic → Prop := fun s => s.table.Counts s.held ∧ ip ∉ s.table.allowlist ∧
    s.held.count (client, ip) ≤ (limits client).perIp.toNat
  have hrun : P (run step new events) := by
    have halong : Along step (fun _ e => e.Uses limits ∧ e.Spares ip) new events :=
      along_of_forall fun e he _ => ⟨h e he, hip e he⟩
    refine (Along.always (P := P) ?_ ⟨AdmissionTable.counts_new, ?_, Nat.zero_le _⟩
      halong).last
    · rintro s e ⟨hcounts, hlist, hbound⟩ ⟨huses, hspares⟩
      refine ⟨counts_step hcounts e, allowlist_step hlist hspares, ?_⟩
      rw [← Multiset.map_id (s.step e).held]
      rw [← Multiset.map_id s.held] at hbound
      refine bound_step huses (fun entering addr hok hk => ?_) hbound
      obtain ⟨rfl, rfl⟩ : entering = client ∧ addr = ip := Prod.mk.inj hk
      have hroom := UInt32.lt_iff_toNat_lt.mp ((AdmissionTable.wouldAdmit_ok hok).2 hlist)
      rwa [hcounts.ipCount, ← Multiset.map_id s.held] at hroom
    · exact List.not_mem_nil
  rw [UInt32.le_iff_toNat_le, hrun.1.ipCount]
  exact hrun.2.2

/-! ## The books of a run -/

/-- The number of live connections of a class from an address. -/
def liveAt (s : Traffic) (client : ClientClass) (ip : IpAddr) : Nat :=
  s.live.countP fun conn => conn.client = client ∧ conn.ip = ip

/-- The number of live connections of a class. -/
def liveOf (s : Traffic) (client : ClientClass) : Nat :=
  s.live.countP fun conn => conn.client = client

/-- The distinct pairs of a class and an address that are live. -/
def livePairs (s : Traffic) : Finset (ClientClass × IpAddr) :=
  (s.live.map fun conn => (conn.client, conn.ip)).toFinset

theorem liveAt_eq (s : Traffic) (client : ClientClass) (ip : IpAddr) :
    s.liveAt client ip = s.held.count (client, ip) := by
  rw [liveAt, held, Multiset.count_map, ← Multiset.countP_eq_card_filter, Multiset.coe_countP]
  apply List.countP_congr
  intro conn _
  simp only [decide_eq_true_eq, Prod.mk.injEq, eq_comm (a := client), eq_comm (a := ip)]

theorem liveOf_eq (s : Traffic) (client : ClientClass) :
    s.liveOf client = (s.held.map Prod.fst).count client := by
  rw [liveOf, held, Multiset.map_map, Multiset.count_map, ← Multiset.countP_eq_card_filter,
    Multiset.coe_countP]
  apply List.countP_congr
  intro conn _
  simp only [decide_eq_true_eq, Function.comp_apply, eq_comm (a := client)]

theorem livePairs_eq (s : Traffic) : s.livePairs = s.held.toFinset := by
  rw [livePairs, held, Multiset.map_coe]
  rfl

/-- The counters of the table are the numbers of live connections. -/
structure Exact (s : Traffic) : Prop where
  ipCount : ∀ client ip, (s.table.ipCount client ip).toNat = s.liveAt client ip
  classCount : ∀ client, (s.table.classCount client).toNat = s.liveOf client
  trackedEntries : s.table.trackedEntries = s.livePairs.card

/-- **The admission table keeps the books.** -/
theorem admission_books :
    (∀ events, (run step new events).Exact) ∧
    (∀ events, Always step (fun s => s.live.length < 2 ^ 32) new events →
      (run step new events).table.total.toNat = (run step new events).live.length) ∧
    (∀ (table : AdmissionTable) client ip limits rejection,
      (table.admitConnection client ip limits).1 = .error rejection →
        (table.admitConnection client ip limits).2 = table) ∧
    (∀ (table : AdmissionTable) ip source target limits rejection,
      (table.reclassify ip source target limits).1 = .error rejection →
        (table.reclassify ip source target limits).2 = table) ∧
    ∀ (limits : ClientClass → ConnLimits) events, (∀ e ∈ events, e.Uses limits) →
      (∀ client, (run step new events).table.classCount client ≤ (limits client).global) ∧
        ∀ client ip, (∀ e ∈ events, e.Spares ip) →
          (run step new events).table.ipCount client ip ≤ (limits client).perIp := by
  refine ⟨fun events => ?_, fun events => total_run, ?_, ?_, fun limits events h => ?_⟩
  · have hcounts := counts_run events
    constructor
    · intro client ip
      rw [hcounts.ipCount, liveAt_eq]
    · intro client
      rw [hcounts.classCount, liveOf_eq]
    · rw [hcounts.trackedEntries, livePairs_eq]
  · intro table client ip limits rejection herr
    exact AdmissionTable.admitConnection_error herr
  · intro table ip source target limits rejection herr
    exact AdmissionTable.reclassify_error herr
  · exact ⟨classBound_run h, fun client ip hip => ipBound_run h hip client⟩

/-! ## A total beyond its range -/

/-- A crowd of `n` connections of one class from one address, under consecutive ids. -/
def crowd (client : ClientClass) (ip : IpAddr) (limits : ConnLimits) (start n : Nat) :
    List Event :=
  (List.range' start n).map fun id => .admission id client ip limits

theorem step_newcomer {s : Traffic} {client : ClientClass} (ip : IpAddr)
    (hcounts : s.table.Counts s.held) {id : Nat} {limits : ConnLimits} (hid : s.find id = none)
    (hglobal : s.liveOf client < limits.global.toNat)
    (hip : s.liveOf client < limits.perIp.toNat) :
    s.step (.admission id client ip limits) =
      ⟨s.table.add client ip, ⟨id, client, ip⟩ :: s.live⟩ := by
  have hclass : ¬ limits.global ≤ s.table.classCount client := by
    rw [UInt32.le_iff_toNat_le, hcounts.classCount, ← liveOf_eq]
    omega
  have haddr : ¬ limits.perIp ≤ s.table.ipCount client ip := by
    have hle := AdmissionTable.count_le_count_fst s.held client ip
    rw [UInt32.le_iff_toNat_le, hcounts.ipCount]
    rw [← liveOf_eq] at hle
    omega
  have hok : s.table.wouldAdmit client ip limits = .ok () := by
    rw [AdmissionTable.wouldAdmit, if_neg hclass, if_neg fun h => haddr h.2]
  simp [step, hid, AdmissionTable.admitConnection, hok]

/-- What `n` newcomers of one class, under ids from `start` on, make of `s`. -/
structure Grown (client : ClientClass) (start n : Nat) (s s' : Traffic) : Prop where
  counts : s'.table.Counts s'.held
  ids : ∀ conn ∈ s'.live, conn.id < start + n
  live : s'.live.length = s.live.length + n
  /-- The total wraps. -/
  total : s'.table.total.toNat = (s.table.total.toNat + n) % 2 ^ 32
  ofClass : s'.liveOf client = s.liveOf client + n
  others : ∀ other, other ≠ client → s'.liveOf other = s.liveOf other

theorem Grown.none {s : Traffic} (client : ClientClass) {start : Nat}
    (hcounts : s.table.Counts s.held) (hids : ∀ conn ∈ s.live, conn.id < start) :
    Grown client start 0 s s where
  counts := hcounts
  ids := hids
  live := rfl
  total := (Nat.mod_eq_of_lt s.table.total.toNat_lt).symm
  ofClass := rfl
  others _ _ := rfl

theorem Grown.one {s : Traffic} {client : ClientClass} (ip : IpAddr) {start : Nat}
    {limits : ConnLimits} (hcounts : s.table.Counts s.held)
    (hids : ∀ conn ∈ s.live, conn.id < start) (hglobal : s.liveOf client < limits.global.toNat)
    (hip : s.liveOf client < limits.perIp.toNat) :
    Grown client start 1 s (s.step (.admission start client ip limits)) := by
  have hid : s.find start = Option.none := by
    apply List.find?_eq_none.mpr
    intro conn hconn
    have hlt := hids conn hconn
    simp only [beq_iff_eq]
    omega
  have hcounts' := counts_step hcounts (.admission start client ip limits)
  rw [step_newcomer ip hcounts hid hglobal hip] at hcounts' ⊢
  refine ⟨hcounts', fun conn hconn => ?_, rfl, UInt32.toNat_add _ _, ?_, fun other hne => ?_⟩
  · rcases List.mem_cons.mp hconn with rfl | hold
    · exact Nat.lt_succ_self start
    · exact Nat.lt_succ_of_lt (hids conn hold)
  · simp [liveOf]
  · simp [liveOf, Ne.symm hne]

theorem Grown.trans {client : ClientClass} {start m n : Nat} {s₁ s₂ s₃ : Traffic}
    (h₁ : Grown client start m s₁ s₂) (h₂ : Grown client (start + m) n s₂ s₃) :
    Grown client start (m + n) s₁ s₃ where
  counts := h₂.counts
  ids conn hconn := by
    rw [← Nat.add_assoc]
    exact h₂.ids conn hconn
  live := by rw [h₂.live, h₁.live, Nat.add_assoc]
  total := by rw [h₂.total, h₁.total, Nat.mod_add_mod, Nat.add_assoc]
  ofClass := by rw [h₂.ofClass, h₁.ofClass, Nat.add_assoc]
  others other hne := (h₂.others other hne).trans (h₁.others other hne)

theorem run_crowd (client : ClientClass) (ip : IpAddr) (limits : ConnLimits) (start n : Nat)
    {s : Traffic} (hcounts : s.table.Counts s.held) (hids : ∀ conn ∈ s.live, conn.id < start)
    (hglobal : s.liveOf client + n ≤ limits.global.toNat)
    (hip : s.liveOf client + n ≤ limits.perIp.toNat) :
    Grown client start n s (run step s (crowd client ip limits start n)) := by
  induction n generalizing start s with
  | zero => exact .none client hcounts hids
  | succ n ih =>
    have hone : Grown client start 1 s (s.step (.admission start client ip limits)) :=
      .one ip hcounts hids (by omega) (by omega)
    have hrest := ih (start + 1) hone.counts hone.ids
      (by rw [hone.ofClass]; omega) (by rw [hone.ofClass]; omega)
    have hall := hone.trans hrest
    rw [Nat.add_comm 1 n] at hall
    exact hall

def widest : ConnLimits := ⟨0xFFFFFFFF, 0xFFFFFFFF, 0xFFFFFFFF⟩

/-- `2 ^ 32` connections of two classes. -/
def fullHouse : List Event :=
  crowd .gateway (.v4 1) widest 0 (2 ^ 31) ++ crowd .bnftp (.v4 1) widest (2 ^ 31) (2 ^ 31)

/-- An address is on the allowlist while it connects twice under a ceiling of one. -/
def delisted : List Event :=
  [.setAllowlist [.v4 1], .admission 1 .gateway (.v4 1) ⟨1, 1, 9⟩,
    .admission 2 .gateway (.v4 1) ⟨1, 1, 9⟩, .setAllowlist []]

/-- The total wraps at `2 ^ 32` live connections, and an address that is taken off the
allowlist keeps what it had over its ceiling. -/
theorem total_wraps :
    (run step new fullHouse).table.total.toNat ≠ (run step new fullHouse).live.length ∧
      .v4 1 ∉ (run step new delisted).table.allowlist ∧
      ¬ (run step new delisted).table.ipCount .gateway (.v4 1) ≤ 1 := by
  constructor
  · have hwide : widest.global.toNat = 2 ^ 32 - 1 ∧ widest.perIp.toNat = 2 ^ 32 - 1 := by decide
    have h₁ := run_crowd .gateway (.v4 1) widest 0 (2 ^ 31) (s := new)
      AdmissionTable.counts_new (fun _ h => absurd h List.not_mem_nil)
      (by change 0 + 2 ^ 31 ≤ _; omega) (by change 0 + 2 ^ 31 ≤ _; omega)
    rw [fullHouse, run_append]
    generalize run step new (crowd .gateway (.v4 1) widest 0 (2 ^ 31)) = s at h₁
    have hnone : s.liveOf .bnftp = 0 := h₁.others .bnftp (by decide)
    have hids : ∀ conn ∈ s.live, conn.id < 2 ^ 31 := by
      intro conn hconn
      have hlt := h₁.ids conn hconn
      omega
    have h₂ := run_crowd .bnftp (.v4 1) widest (2 ^ 31) (2 ^ 31) h₁.counts hids
      (by omega) (by omega)
    have hlive : new.live.length = 0 := rfl
    have htotal : new.table.total.toNat = 0 := rfl
    rw [h₂.total, h₂.live, h₁.total, h₁.live, hlive, htotal]
    decide
  · decide

end Traffic

/-!
## Live connections by their ids

No two live connections have one id, so what an event does to the connections is what it does to
the one that it is about.

* `Traffic.distinct_run`: the ids of every run.
* `Traffic.find_admitted`, `Traffic.find_moved`, `Traffic.find_released`: who is live after an
  event.
* `Traffic.card_le_global`, `Traffic.card_le_perIp`: any set of live connections of a class is
  within its ceilings.
-/

namespace Traffic

variable {s : Traffic} {id : Nat} {conn : Connection}

/-- No two live connections have one id. -/
def Distinct (s : Traffic) : Prop := (s.live.map Connection.id).Nodup

theorem find_id (h : s.find id = some conn) : conn.id = id := by
  have hid := List.find?_some h
  exact beq_iff_eq.mp hid

theorem find_cons (table : AdmissionTable) (conn : Connection) (live : List Connection) (j : Nat) :
    find ⟨table, conn :: live⟩ j = if conn.id = j then some conn else find ⟨table, live⟩ j := by
  unfold find
  rw [List.find?_cons]
  by_cases h : conn.id = j
  · rw [if_pos h, beq_iff_eq.mpr h]
  · rw [if_neg h, beq_eq_false_iff_ne.mpr h]

theorem find_none_iff : s.find id = none ↔ id ∉ s.live.map Connection.id := by
  unfold find
  rw [List.find?_eq_none, List.mem_map]
  constructor
  · rintro h ⟨conn, hmem, hid⟩
    exact h conn hmem (beq_iff_eq.mpr hid)
  · intro h conn hmem hid
    exact h ⟨conn, hmem, beq_iff_eq.mp hid⟩

/-- A connection that is gone is not found, and every other is. -/
theorem find_erase (table table' : AdmissionTable) {live : List Connection}
    (hdistinct : (live.map Connection.id).Nodup) (hmem : conn ∈ live) (j : Nat) :
    find ⟨table, live.erase conn⟩ j = if conn.id = j then none else find ⟨table', live⟩ j := by
  induction live with
  | nil => cases hmem
  | cons first rest ih =>
    obtain ⟨hfirst, hrest⟩ := List.nodup_cons.mp hdistinct
    by_cases hsame : first = conn
    · rw [hsame, List.erase_cons_head, find_cons]
      rw [hsame] at hfirst
      by_cases hj : conn.id = j
      · rw [if_pos hj]
        exact find_none_iff.mpr (hj ▸ hfirst)
      · rw [if_neg hj, if_neg hj]
        rfl
    · have hmem : conn ∈ rest := (List.mem_cons.mp hmem).resolve_left (Ne.symm hsame)
      have hne : first.id ≠ conn.id := fun hid =>
        hfirst (hid ▸ List.mem_map_of_mem hmem)
      rw [List.erase_cons_tail (by simpa using hsame), find_cons, find_cons, ih hrest hmem]
      by_cases hj : first.id = j
      · rw [if_pos hj, if_pos hj, if_neg fun h => hne (hj.trans h.symm)]
      · rw [if_neg hj, if_neg hj]

theorem distinct_step (h : s.Distinct) (e : Event) : (s.step e).Distinct := by
  have herase (conn : Connection) : ((s.live.erase conn).map Connection.id).Nodup :=
    h.sublist (List.erase_sublist.map _)
  cases e with
  | admission id client ip limits =>
    rw [step]
    split
    · rename_i hnone _
      exact List.nodup_cons.mpr ⟨find_none_iff.mp hnone, h⟩
    · exact h
    · exact h
  | reclassify id target limits =>
    rw [step]
    split
    · exact h
    · rename_i conn hfind
      split
      · refine List.nodup_cons.mpr ⟨fun hmem => ?_, herase conn⟩
        have hgone := find_erase s.table s.table h (find_mem hfind) conn.id
        rw [if_pos rfl] at hgone
        exact find_none_iff.mp hgone hmem
      · exact h
  | release id =>
    rw [step]
    split
    · exact h
    · exact herase _
  | setAllowlist ips => exact h
  | bindAccount client account limits => exact h
  | releaseAccount client account => exact h

theorem distinct_run (events : List Event) : (run step new events).Distinct :=
  run_invariant (P := Distinct) (fun _ e h => distinct_step h e) (by exact List.nodup_nil) events

/-! ## Who is live -/

theorem find_admitted (h : s.find id = none) (client : ClientClass) (ip : IpAddr)
    (limits : ConnLimits) :
    (s.step (.admission id client ip limits)).table =
        (s.table.admitConnection client ip limits).2 ∧
      ∀ j, (s.step (.admission id client ip limits)).find j =
        if j = id ∧ (s.table.admitConnection client ip limits).1 = .ok ()
          then some ⟨id, client, ip⟩ else s.find j := by
  rw [step, h]
  cases hadmit : s.table.admitConnection client ip limits with
  | mk result table =>
    cases result with
    | ok u =>
      refine ⟨rfl, fun j => ?_⟩
      show find ⟨table, ⟨id, client, ip⟩ :: s.live⟩ j = _
      rw [find_cons]
      by_cases hj : id = j
      · rw [if_pos hj, if_pos ⟨hj.symm, rfl⟩]
      · rw [if_neg hj, if_neg fun h => hj h.1.symm]
        rfl
    | error rejection =>
      refine ⟨rfl, fun j => ?_⟩
      rw [if_neg (by rintro ⟨_, ⟨⟩⟩)]
      rfl

theorem find_moved (hdistinct : s.Distinct) (h : s.find id = some conn) (target : ClientClass)
    (limits : ConnLimits) :
    (s.step (.reclassify id target limits)).table =
        (s.table.reclassify conn.ip conn.client target limits).2 ∧
      ∀ j, (s.step (.reclassify id target limits)).find j =
        if j = id ∧ (s.table.reclassify conn.ip conn.client target limits).1 = .ok ()
          then some { conn with client := target } else s.find j := by
  have hid := find_id h
  rw [step, h]
  dsimp only
  cases hmove : s.table.reclassify conn.ip conn.client target limits with
  | mk result table =>
    cases result with
    | ok u =>
      refine ⟨rfl, fun j => ?_⟩
      show find ⟨table, { conn with client := target } :: s.live.erase conn⟩ j = _
      rw [find_cons]
      by_cases hj : id = j
      · rw [if_pos (hid.trans hj), if_pos ⟨hj.symm, rfl⟩]
      · rw [if_neg fun h => hj (hid.symm.trans h), if_neg fun h => hj h.1.symm,
          find_erase _ s.table hdistinct (find_mem h), if_neg fun h => hj (hid.symm.trans h)]
    | error rejection =>
      refine ⟨rfl, fun j => ?_⟩
      rw [if_neg (by rintro ⟨_, ⟨⟩⟩)]
      rfl

theorem find_released (hdistinct : s.Distinct) (h : s.find id = some conn) :
    (s.step (.release id)).table = s.table.release conn.client conn.ip ∧
      ∀ j, (s.step (.release id)).find j = if j = id then none else s.find j := by
  have hid := find_id h
  rw [step, h]
  refine ⟨rfl, fun j => ?_⟩
  show find ⟨_, s.live.erase conn⟩ j = _
  rw [find_erase _ s.table hdistinct (find_mem h), hid]
  by_cases hj : id = j
  · rw [if_pos hj, if_pos hj.symm]
  · rw [if_neg hj, if_neg fun h => hj h.symm]

/-! ## The ceilings of a set of connections -/

theorem card_le_countP (S : Finset Nat) (p : Connection → Bool)
    (h : ∀ id ∈ S, ∃ conn, s.find id = some conn ∧ p conn = true) :
    S.card ≤ s.live.countP p := by
  have hsub : S ⊆ ((s.live.filter p).map Connection.id).toFinset := by
    intro id hid
    obtain ⟨conn, hfind, hp⟩ := h id hid
    rw [List.mem_toFinset, List.mem_map]
    exact ⟨conn, List.mem_filter.mpr ⟨find_mem hfind, hp⟩, find_id hfind⟩
  calc S.card ≤ ((s.live.filter p).map Connection.id).toFinset.card := Finset.card_le_card hsub
    _ ≤ ((s.live.filter p).map Connection.id).length := List.toFinset_card_le _
    _ = s.live.countP p := by rw [List.length_map, ← List.countP_eq_length_filter]

variable {limits : ClientClass → ConnLimits} {events : List Event}

theorem card_le_global (huses : ∀ e ∈ events, e.Uses limits) (client : ClientClass)
    (S : Finset Nat)
    (h : ∀ id ∈ S, ∃ conn, (run step new events).find id = some conn ∧ conn.client = client) :
    S.card ≤ (limits client).global.toNat := by
  have hcard := card_le_countP S (fun conn => conn.client = client) fun id hid =>
    (h id hid).imp fun conn hconn => ⟨hconn.1, decide_eq_true hconn.2⟩
  have hcounts := counts_run events
  have hbound := UInt32.le_iff_toNat_le.mp (classBound_run huses client)
  rw [hcounts.classCount, ← liveOf_eq] at hbound
  exact hcard.trans hbound

theorem card_le_perIp (huses : ∀ e ∈ events, e.Uses limits) {ip : IpAddr}
    (hspares : ∀ e ∈ events, e.Spares ip) (client : ClientClass) (S : Finset Nat)
    (h : ∀ id ∈ S, ∃ conn, (run step new events).find id = some conn ∧ conn.client = client ∧
      conn.ip = ip) : S.card ≤ (limits client).perIp.toNat := by
  have hcard := card_le_countP S (fun conn => conn.client = client ∧ conn.ip = ip) fun id hid =>
    (h id hid).imp fun conn hconn => ⟨hconn.1, decide_eq_true hconn.2⟩
  have hcounts := counts_run events
  have hbound := UInt32.le_iff_toNat_le.mp (ipBound_run huses hspares client)
  rw [hcounts.ipCount, ← liveAt_eq] at hbound
  exact hcard.trans hbound

end Traffic

end CommandCenter.Core
