import CommandCenter.Daemon.RealmServer

/-!
# How many characters an account has

`MCP_CHARCREATE` counts the characters of the account and then, if there are fewer than
`max_characters`, makes one (`crates/bnetccd/src/realm.rs`). Other connections of the account do
the same in between.

* `sound_counting`: a character is asked for after a count below the bound.
* `length_owned_step`: an account gains a character only where one is created.
* `quota_kept`: the bound holds in every state just if each character that is created finds room;
  it does so where the count went through and the account gained no character since.
-/

namespace CommandCenter.Daemon

open Rust Proto D2 Library
open CommandCenter.Core (AccountId)
open Storage (Account Character CharacterStore)

/-! ## The count -/

/-- The characters that were counted; a count that fails is read as none. -/
def countOf (owned : Except Text (List Character)) : Nat :=
  (owned.toOption.map List.length).getD 0

/-- A character is asked for after a count below the bound. -/
def counting (cfg : RealmConfig) : Promise Mcp Frame RealmReply (List Frame) where
  asks log q := ∀ c, q = .createCharacter c → ∃ before owned now,
    log = before ++ [.asked (.characters c.account) owned, .asked .nowSecs now] ∧
      countOf owned < cfg.maxCharacters
  tells _ _ := True
  inv _ _ := True

theorem keeps_charCreate_counting (cfg : RealmConfig) (m : Mcp) (frame : Frame)
    (log : List RealmDeed) :
    (m.charCreate cfg frame).Keeps (counting cfg).watch (fun _ _ => True) log := by
  unfold Mcp.charCreate
  cases Reader.read Mcp.readCharCreate frame with
  | error e => trivial
  | ok request =>
    refine Asking.keeps_ite (fun _ => trivial) fun _ => ?_
    refine ⟨fun c h => (by cases h), fun owned _ => ?_⟩
    refine Asking.keeps_ite (fun _ => trivial) fun hroom => ?_
    refine ⟨fun c h => (by cases h), fun now _ => ?_⟩
    refine ⟨fun c h => ?_, fun made _ => ?_⟩
    · cases h
      refine ⟨log, owned, now, ?_, Nat.lt_of_not_le hroom⟩
      simp [Promise.watch]
    · rcases made with (_ | _) | _ <;> trivial

theorem sound_counting (cfg : RealmConfig) : (counting cfg).Sound (realm cfg) :=
  sound_creating (keeps_charCreate_counting cfg)

/-! ## Where an account gains a character -/

section Growth

variable {cfg : RealmConfig} {w : RealmWorld} {event : RealmEvent} {c : Character}
  {account : AccountId}

/-- A request to create a character is handled now, and goes through. -/
def Creates (w : RealmWorld) (event : RealmEvent) (c : Character) : Prop :=
  ∃ i x, event = .turn i x ∧ Service.asking w i = some (.createCharacter c) ∧ x.fault = none ∧
    (w.node.store.createCharacter c).1 = .ok ()

theorem length_owned_change (n : RealmNode) (change : RealmNode.Change) (account : AccountId) :
    ((n.change change).store.owned account).length ≤ (n.store.owned account).length := by
  cases change with
  | mintRealmTicket id ticket =>
    rw [RealmNode.change]
    split <;> exact Nat.le_refl _
  | revokeRealmTicket id => exact Nat.le_refl _
  | createAccount req =>
    apply CharacterStore.length_owned_le
    show (n.store.createAccount req).list.Sublist _
    rw [CharacterStore.list_createAccount]
  | deleteUser id =>
    apply CharacterStore.length_owned_le
    exact List.filter_sublist
  | endLadderSeason =>
    show ((RealmNode.endSeason n.store).list.filter _).length ≤ _
    rw [RealmNode.list_endSeason, List.filter_map, List.length_map, CharacterStore.owned]
    apply Nat.le_of_eq
    congr 2
    funext c
    simp

theorem length_owned_answer {n : RealmNode} {x : Outside} {q : RealmRequest}
    (h : ∀ c, q = .createCharacter c → x.fault = none → (n.store.createCharacter c).1 = .ok () →
      c.account ≠ account) :
    ((n.answer x q).2.store.owned account).length ≤ (n.store.owned account).length := by
  cases hfault : x.fault with
  | some why => cases q <;> simp [RealmNode.answer, hfault]
  | none =>
    cases q with
    | createCharacter c =>
      simp only [RealmNode.answer, hfault]
      by_cases hmade : (n.store.createCharacter c).1 = .ok ()
      · have hne := h c rfl hfault hmade
        rw [CharacterStore.owned_createCharacter_of_ne hne.symm]
      · rw [CharacterStore.createCharacter_of_refused hmade]
    | updateCharacter c =>
      simp only [RealmNode.answer, hfault]
      rw [CharacterStore.owned_updateCharacter, List.length_map]
    | deleteCharacter id name =>
      simp only [RealmNode.answer, hfault]
      apply CharacterStore.length_owned_le
      exact List.filter_sublist
    | characters id => simp [RealmNode.answer, hfault]
    | _ => exact Nat.le_refl _

/-- An account gains a character only where one of it is created. -/
theorem length_owned_step (h : ∀ c, Creates w event c → c.account ≠ account) :
    (((realm cfg).step w event).node.store.owned account).length ≤
      (w.node.store.owned account).length := by
  rcases (realm cfg).step_node (w := w) event with
    hnode | ⟨i, x, q, rfl, hq, hnode⟩ | ⟨e, rfl, hnode⟩
  · rw [hnode]
  · rw [hnode]
    refine length_owned_answer fun c heq hfault hmade => ?_
    exact h c ⟨i, x, rfl, heq ▸ hq, hfault, hmade⟩
  · rw [hnode]
    exact length_owned_change w.node e account

theorem owned_of_creates (h : Creates w event c) :
    ((realm cfg).step w event).node.store.owned c.account =
      w.node.store.owned c.account ++ [c] := by
  obtain ⟨i, x, rfl, hq, hfault, hmade⟩ := h
  obtain ⟨next, -, hstep⟩ := (realm cfg).step_turn hq x
  have hnode : ((realm cfg).step w (.turn i x)).node.store =
      (w.node.store.createCharacter c).2 := by
    rw [hstep, Service.settle_node]
    show (w.node.answer x (.createCharacter c)).2.store = _
    simp only [RealmNode.answer, hfault]
  rw [hnode, CharacterStore.owned_createCharacter hmade]

end Growth

/-! ## Runs -/

/-- No account has more characters than it may. -/
def WithinQuota (cfg : RealmConfig) (w : RealmWorld) : Prop :=
  ∀ account, (w.node.store.owned account).length ≤ cfg.maxCharacters

/-- A character that is created now finds room. -/
def FindsRoom (cfg : RealmConfig) (w : RealmWorld) (event : RealmEvent) : Prop :=
  ∀ c, Creates w event c → (w.node.store.owned c.account).length < cfg.maxCharacters

/-- None of the account's characters was created. -/
def NoneCreated (account : AccountId) (log : List (ConnId × RealmDeed)) : Prop :=
  ∀ i c, (i, .asked (.createCharacter c) (.ok ())) ∈ log → c.account ≠ account

/-- A character is created after a count that went through, and since which none of the account's
characters was created. -/
def Undisturbed (w : RealmWorld) (event : RealmEvent) : Prop :=
  ∀ i x c, event = .turn i x → Service.asking w i = some (.createCharacter c) →
    ∀ before owned since, w.log = before ++ (i, .asked (.characters c.account) owned) :: since →
      (∀ q answer, .asked q answer ∈ deeds since i → q = .nowSecs) →
        (∃ l, owned = .ok l) ∧ NoneCreated c.account since

/-- Where none was created since a count, there are no more than were counted. -/
def Counted (w : RealmWorld) : Prop :=
  ∀ before i account l since, w.log = before ++ (i, .asked (.characters account) (.ok l)) :: since →
    NoneCreated account since → (w.node.store.owned account).length ≤ l.length

section Run

variable {cfg : RealmConfig} {w : RealmWorld} {event : RealmEvent}

theorem noted_of_creates (cfg : RealmConfig) {c : Character} (h : Creates w event c) :
    ∃ i tail, ((realm cfg).step w event).log =
      w.log ++ (i, .asked (.createCharacter c) (.ok ())) :: tail := by
  obtain ⟨i, x, rfl, hq, hfault, hmade⟩ := h
  obtain ⟨tail, hlog⟩ := (realm cfg).asked_step hq x
  have hanswer : ((realm cfg).answer w.node x (.createCharacter c)).1 = .ok () := by
    show (w.node.answer x (.createCharacter c)).1 = _
    simp only [RealmNode.answer, hfault, hmade]
    rfl
  rw [hanswer] at hlog
  exact ⟨i, tail, hlog⟩

theorem counted_step (h : Counted w) : Counted ((realm cfg).step w event) := by
  intro before i account l since hsplit hnone
  obtain ⟨tail, hlog, htail⟩ := (realm cfg).step_log (w := w) event
  rw [hlog] at hsplit
  have hgrow (hnone : NoneCreated account tail) :
      (((realm cfg).step w event).node.store.owned account).length ≤
        (w.node.store.owned account).length := by
    refine length_owned_step fun c hcreates => ?_
    obtain ⟨j, rest, hnoted⟩ := noted_of_creates cfg hcreates
    refine hnone j c ?_
    rw [List.append_cancel_left (hlog.symm.trans hnoted)]
    exact List.mem_cons_self
  -- the count is answered now
  have hnow (hcount : (i, .asked (.characters account) (.ok l)) ∈ tail) :
      (((realm cfg).step w event).node.store.owned account).length ≤ l.length := by
    obtain ⟨x, rfl, hq, hanswer⟩ := htail _ _ _ hcount
    have hl : l = w.node.store.owned account := by
      have hanswer : Except.ok l = (w.node.answer x (.characters account)).1 := hanswer
      cases hfault : x.fault with
      | some why => simp [RealmNode.answer, hfault] at hanswer
      | none =>
        simp only [RealmNode.answer, hfault, CharacterStore.characters_eq] at hanswer
        exact Except.ok.inj hanswer
    rw [hl]
    refine length_owned_step fun c hcreates => ?_
    obtain ⟨j, x', heq, hq', -⟩ := hcreates
    cases heq
    rw [hq] at hq'
    cases hq'
  rcases List.append_eq_append_iff.mp hsplit with ⟨extra, -, htail'⟩ | ⟨extra, hbefore, hrest⟩
  · apply hnow
    rw [htail']
    exact List.mem_append_right _ List.mem_cons_self
  · cases extra with
    | nil =>
      apply hnow
      rw [← List.nil_append tail, ← hrest]
      exact List.mem_cons_self
    | cons entry extra =>
      obtain ⟨rfl, rfl⟩ := List.cons.inj hrest
      have hearlier : NoneCreated account extra :=
        fun j c hc => hnone j c (List.mem_append_left _ hc)
      have hlater : NoneCreated account tail :=
        fun j c hc => hnone j c (List.mem_append_right _ hc)
      exact (hgrow hlater).trans (h before i account l extra hbefore hearlier)

theorem findsRoom_of_undisturbed (hkept : (counting cfg).Kept w) (hcounted : Counted w)
    (h : Undisturbed w event) : FindsRoom cfg w event := by
  rintro c ⟨i, x, rfl, hq, -, -⟩
  obtain ⟨before, owned, now, hdeeds, hroom⟩ := hkept.asking hq c rfl
  obtain ⟨earlier, since, hlog, hsince⟩ := deeds_eq_append_cons hdeeds
  have honly : ∀ q answer, .asked q answer ∈ deeds since i → q = .nowSecs := by
    intro q answer hasked
    rw [hsince] at hasked
    cases List.mem_singleton.mp hasked
    rfl
  obtain ⟨⟨l, rfl⟩, hnone⟩ := h i x c rfl hq earlier owned since hlog honly
  exact Nat.lt_of_le_of_lt (hcounted earlier i c.account l since hlog hnone) hroom

theorem withinQuota_step (h : WithinQuota cfg w) :
    WithinQuota cfg ((realm cfg).step w event) ↔ FindsRoom cfg w event := by
  constructor
  · intro h' c hcreates
    have hlen := h' c.account
    rw [owned_of_creates hcreates, List.length_append, List.length_singleton] at hlen
    omega
  · intro hroom account
    by_cases hcreated : ∃ c, Creates w event c ∧ c.account = account
    · obtain ⟨c, hcreates, rfl⟩ := hcreated
      rw [owned_of_creates hcreates, List.length_append, List.length_singleton]
      have hlt := hroom c hcreates
      omega
    · refine (length_owned_step fun c hcreates haccount => ?_).trans (h account)
      exact hcreated ⟨c, hcreates, haccount⟩

/-- **How many characters an account has.** Over a store whose accounts have no more than they may,
that stays so just as long as each character that is created finds room; which it does wherever the
count before it went through and none of the account's characters was created since. -/
theorem quota_kept (cfg : RealmConfig) (node : RealmNode)
    (hnode : ∀ account, (node.store.owned account).length ≤ cfg.maxCharacters)
    (events : List RealmEvent) :
    (Always (realm cfg).step (WithinQuota cfg) (RealmWorld.new node) events ↔
      Along (realm cfg).step (FindsRoom cfg) (RealmWorld.new node) events) ∧
    (Along (realm cfg).step Undisturbed (RealmWorld.new node) events →
      Always (realm cfg).step (WithinQuota cfg) (RealmWorld.new node) events) := by
  have hnew : WithinQuota cfg (RealmWorld.new node) := hnode
  have hiff : Always (realm cfg).step (WithinQuota cfg) (RealmWorld.new node) events ↔
      Along (realm cfg).step (FindsRoom cfg) (RealmWorld.new node) events := by
    refine always_iff_along (J := fun _ => True) (fun _ _ _ => trivial) ?_ trivial hnew events
    exact fun w event _ h => withinQuota_step h
  refine ⟨hiff, fun hcalm => hiff.mpr ?_⟩
  refine Along.along (J := fun w => (counting cfg).Kept w ∧ Counted w) ?_ ?_ ?_ hcalm
  · rintro w event ⟨hkept, hcounted⟩ -
    exact ⟨(sound_counting cfg).step hkept event, counted_step hcounted⟩
  · rintro w event ⟨hkept, hcounted⟩ hcalm
    exact findsRoom_of_undisturbed hkept hcounted hcalm
  · refine ⟨Promise.kept_new trivial, fun before i account l since hlog => ?_⟩
    have hlog := congrArg List.length hlog
    simp [RealmWorld.new, Service.new] at hlog

end Run

/-! ## Two connections of one account -/

def raceRealm : RealmConfig := ⟨[], 1, false, id⟩

def racer : Account := ⟨1, "racer".toList, .xsha1 (.replicate 20 0), 0⟩

/-- An account without characters, which has logged in. -/
def raceNode : RealmNode where
  store := .ofAccount racer [] (by decide) (by decide)
  tickets := (∅ : Map UInt64 RealmTicket).insert 7 ⟨0, racer, Product.d2xp⟩

def raceCreate (name : Text) : Frame :=
  ⟨Mcp.Msg.charCreate, Writer.u32 0 ++ Writer.u16 0 ++ Writer.cstr name.asBytes⟩

/-- Two connections count before either creates. -/
def race : List RealmEvent :=
  [.input 0 startupFrame, .turn 0 .unlinked, .input 1 startupFrame, .turn 1 .unlinked,
    .input 0 (raceCreate "alpha".toList), .input 1 (raceCreate "bravo".toList),
    .turn 0 .unlinked, .turn 1 .unlinked, .turn 0 .unlinked, .turn 1 .unlinked,
    .turn 0 .unlinked, .turn 1 .unlinked]

/-- One connection creates a character, and asks for another. -/
def oneByOne : List RealmEvent :=
  [.input 0 startupFrame, .turn 0 .unlinked, .input 0 (raceCreate "alpha".toList),
    .turn 0 .unlinked, .turn 0 .unlinked, .turn 0 .unlinked,
    .input 0 (raceCreate "bravo".toList), .turn 0 .unlinked, .turn 0 .unlinked]

/-- Neither was a character created nor did a count fail. -/
def quiet : RealmDeed → Bool
  | .asked (.createCharacter _) (.ok _) => false
  | .asked (.characters _) (.error _) => false
  | _ => true

/-- A test of `Undisturbed`, for a realm in which no character was created before. -/
def undisturbed (w : RealmWorld) : RealmEvent → Bool
  | .turn i _ =>
    match Service.asking w i with
    | some (.createCharacter _) => w.log.all fun entry => quiet entry.2
    | _ => true
  | _ => true

theorem undisturbed_sound {w : RealmWorld} {event : RealmEvent} (h : undisturbed w event = true) :
    Undisturbed w event := by
  rintro i x c rfl hq before owned since hlog -
  rw [undisturbed, hq] at h
  have hquiet := List.all_eq_true.mp h
  rw [hlog] at hquiet
  constructor
  · cases owned with
    | ok l => exact ⟨l, rfl⟩
    | error e => exact nomatch hquiet _ (List.mem_append_right _ List.mem_cons_self)
  · intro j c' hmade
    exact nomatch hquiet _ (List.mem_append_right _ (List.mem_cons_of_mem _ hmade))

theorem oneByOne_undisturbed :
    Along (realm raceRealm).step Undisturbed (RealmWorld.new raceNode) oneByOne := by
  have h : Along (realm raceRealm).step (fun w event => undisturbed w event = true)
      (RealmWorld.new raceNode) oneByOne := by decide
  exact Along.imp (fun _ _ => undisturbed_sound) h

theorem raceNode_within (account : AccountId) :
    (raceNode.store.owned account).length ≤ raceRealm.maxCharacters := Nat.zero_le _

theorem race_owned :
    ((run (realm raceRealm).step (RealmWorld.new raceNode) race).node.store.owned 1).length =
      2 := by
  decide

/-- Two connections that start from an account without characters, and one that does. -/
theorem quota_kept_race :
    (Always (realm raceRealm).step (WithinQuota raceRealm) (RealmWorld.new raceNode) race ↔
      Along (realm raceRealm).step (FindsRoom raceRealm) (RealmWorld.new raceNode) race) ∧
    Always (realm raceRealm).step (WithinQuota raceRealm) (RealmWorld.new raceNode) oneByOne :=
  ⟨(quota_kept raceRealm raceNode raceNode_within race).1,
    (quota_kept raceRealm raceNode raceNode_within oneByOne).2 oneByOne_undisturbed⟩

/-- They have two where one is the most. -/
theorem quota_broken :
    (∀ account, (raceNode.store.owned account).length ≤ raceRealm.maxCharacters) ∧
      ¬ Always (realm raceRealm).step (WithinQuota raceRealm) (RealmWorld.new raceNode) race := by
  refine ⟨raceNode_within, fun h => ?_⟩
  have hlast := h.last 1
  rw [race_owned] at hlast
  exact absurd hlast (by decide)

end CommandCenter.Daemon
