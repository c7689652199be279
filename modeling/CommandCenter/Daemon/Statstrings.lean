import CommandCenter.Daemon.RealmQuota
import CommandCenter.Import.Characters
import CommandCenter.Proto.Statstring

/-!
# The statstrings of a realm

Logins of any product over the realm connections and the store that these share: which statstring
a login is advertised with (`set_statstring`, `adopt_realm_character` and `show_record` of
`crates/bnetccd/src/session.rs`), and how the names that go into it get there, by `MCP_CHARCREATE`
or by an import. What is done at chat entry between the answer to a request and the next changes
nothing else that the statstring depends on.

* `names_step`: a character is of a valid name, or of the name of a save.
* `bounded_adopted_iff`: the statstring of a realm character.
* `statstrings_bounded`: no statstring overruns a Diablo II client in a run whose realm name and
  imported names fit.
-/

namespace CommandCenter.Daemon

open Rust Proto D2 Library Statstring
open CommandCenter.Core (AccountId)
open Storage (Account Character CharacterStore)
open Import (PlannedCharacter Charinfo Charsave readCharacters)

/-- Set the statstring of a session, or else the bare tag of it. -/
def setStatstring (statstring : List UInt8) : List UInt8 :=
  if d2IsSafe statstring then statstring
  else if 4 ≤ statstring.length then statstring.take 4 else []

/-- A login, as far as its statstring goes. -/
structure Login where
  product : Option FourCc
  account : Option Account
  statstring : List UInt8

/-- A login that has sent nothing yet. -/
def Login.new : Login := ⟨none, none, []⟩

namespace Login

/-- The product tells which client it is, by `SID_AUTH_INFO` or `SID_STARTVERSIONING`. -/
def identify (s : Login) (product : FourCc) : Login :=
  { s with product := some product, statstring := setStatstring (buildDefault product) }

/-- The strings of a `SID_ENTERCHAT`, of which the second names a realm character. -/
def readEnterchat : Reader (List UInt8) := do
  let _ ← Reader.cstr usernameMax
  Reader.cstr 128

/-- The character that a `SID_ENTERCHAT` names, if it is the account's. -/
def realmCharacter (realm : Option Text) (node : RealmNode) (x : Outside) (account : Account)
    (frame : Frame) : Option (Text × Character) := do
  let realm ← realm
  let stat ← (Reader.read readEnterchat frame).toOption
  let (realm_name, char_name) ← parseEnterchatStatstring stat
  if realm_name.eqIgnoreAsciiCase realm then
    let c ← (node.answer x (.characterByName char_name)).1
    if c.account = account.id then some (realm, c) else none
  else none

/-- A Diablo II client is shown by its realm character. -/
def adoptRealmCharacter (s : Login) (realm : Option Text) (node : RealmNode) (x : Outside)
    (account : Account) (frame : Frame) : Login :=
  match s.product.filter fun p => p = Product.d2dv ∨ p = Product.d2xp with
  | none => s
  | some product =>
    match realmCharacter realm node x account frame with
    | none => s
    | some (realm, c) =>
      { s with statstring := setStatstring (chatStatstring (portrait c) product realm c.name) }

/-- The products whose users are shown with their record. -/
def recorded : List FourCc :=
  [Product.star, Product.sexp, Product.jstr, Product.sshr, Product.w2bn]

/-- A StarCraft or Warcraft II user is shown by the record that the ladder has. -/
def showRecord (s : Login) (record : Record) : Login :=
  match s.product.filter (· ∈ recorded) with
  | none => s
  | some product => { s with statstring := setStatstring (buildStarcraft product record) }

/-- `SID_ENTERCHAT`, of an account that has logged on. -/
def enterChat (s : Login) (realm : Option Text) (node : RealmNode) (x : Outside) (frame : Frame)
    (record : Record) : Login :=
  match s.account with
  | none => s
  | some account => (s.adoptRealmCharacter realm node x account frame).showRecord record

end Login

/-- The logins, the realm with its store, and the statstrings that clients have been sent. -/
structure LoginWorld where
  realm : RealmWorld
  logins : ConnId → Login
  sent : List (List UInt8)

inductive LoginEvent where
  | realm (event : RealmEvent)
  /-- A character that an import has read is created. -/
  | imported (charinfo : Charinfo) (charsave : Charsave) (attempt : Import.Attempt) (j : Nat)
      (account : AccountId)
  | identify (i : ConnId) (product : FourCc)
  | logOn (i : ConnId) (account : Account)
  /-- The record is what the account's attributes and the ladders say then. -/
  | enterChat (i : ConnId) (frame : Frame) (x : Outside) (record : Record)
  /-- A game of the login is reported. -/
  | gameResult (i : ConnId) (record : Record)
  /-- The login joins a channel, and is an occupant there for others to see. -/
  | joinChannel (i : ConnId)

namespace LoginWorld

/-- An empty store, and no login. -/
def new : LoginWorld := ⟨RealmWorld.new ⟨.new, ∅⟩, fun _ => .new, []⟩

def setLogin (w : LoginWorld) (i : ConnId) (s : Login) : LoginWorld :=
  { w with logins := Function.update w.logins i s }

def step (cfg : RealmConfig) (realm : Option Text) (w : LoginWorld) : LoginEvent → LoginWorld
  | .realm event => { w with realm := (Daemon.realm cfg).step w.realm event }
  | .imported charinfo charsave attempt j account =>
    match (readCharacters charinfo charsave).1[j]? with
    | none => w
    | some c =>
      let node := w.realm.node
      let store := (node.store.createCharacter (attempt.character j c account)).2
      { w with realm := { w.realm with node := { node with store } } }
  | .identify i product => w.setLogin i ((w.logins i).identify product)
  | .logOn i account => w.setLogin i { w.logins i with account := some account }
  | .enterChat i frame x record =>
    let s := (w.logins i).enterChat realm w.realm.node x frame record
    { w.setLogin i s with sent := w.sent ++ [s.statstring] }
  | .gameResult i record => w.setLogin i ((w.logins i).showRecord record)
  | .joinChannel i => { w with sent := w.sent ++ [(w.logins i).statstring] }

end LoginWorld

/-! ## Names -/

/-- What a client copies of the name fits, and the name has no zero. -/
def NameFits (name : Text) : Prop :=
  Text.len (name.takeWhile (· ≠ ',')) ≤ 15 ∧ '\x00' ∉ name

/-- A realm connection creates characters of valid names only. -/
def naming : Promise Mcp Frame RealmReply (List Frame) :=
  creating fun _ c => validCharacterName c.name = true

section Names

variable {cfg : RealmConfig}

theorem keeps_charCreate_naming (cfg : RealmConfig) (m : Mcp) (frame : Frame)
    (log : List RealmDeed) :
    (m.charCreate cfg frame).Keeps naming.watch (fun _ _ => True) log := by
  unfold Mcp.charCreate
  cases Reader.read Mcp.readCharCreate frame with
  | error e => trivial
  | ok request =>
    obtain ⟨heroClass, status, name⟩ := request
    refine Asking.keeps_ite (fun _ => trivial) fun hvalid => ?_
    refine ⟨fun c h => (by cases h), fun owned _ => ?_⟩
    refine Asking.keeps_ite (fun _ => trivial) fun hroom => ?_
    refine ⟨fun c h => (by cases h), fun now _ => ?_⟩
    refine ⟨fun c h => ?_, fun made _ => ?_⟩
    · cases h
      by_contra hname
      exact hvalid (by simp [hname])
    · rcases made with (_ | _) | _ <;> trivial

theorem sound_naming (cfg : RealmConfig) : naming.Sound (realm cfg) :=
  sound_creating (keeps_charCreate_naming cfg)

theorem names_answer {n : RealmNode} {x : Outside} {q : RealmRequest}
    (h : ∀ c ∈ n.store.list, NameFits c.name)
    (hq : ∀ c, q = .createCharacter c → validCharacterName c.name = true) :
    ∀ c ∈ (n.answer x q).2.store.list, NameFits c.name := by
  cases hfault : x.fault with
  | some why => cases q <;> simpa [RealmNode.answer, hfault] using h
  | none =>
    cases q with
    | createCharacter d =>
      simp only [RealmNode.answer, hfault]
      intro c hc
      rcases CharacterStore.createCharacter_cases n.store d with ⟨-, hlist, -⟩ | ⟨-, hsame⟩
      · rw [hlist] at hc
        rcases List.mem_append.mp hc with hc | hc
        · exact h c hc
        · rw [List.mem_singleton.mp hc]
          exact fits_of_valid (hq d rfl)
      · rw [hsame] at hc
        exact h c hc
    | updateCharacter d =>
      simp only [RealmNode.answer, hfault]
      intro c hc
      rw [CharacterStore.list_updateCharacter] at hc
      obtain ⟨b, hb, rfl⟩ := List.mem_map.mp hc
      unfold Storage.MemoryStorage.updated
      split
      · exact h b hb
      · exact h b hb
    | deleteCharacter id name =>
      simp only [RealmNode.answer, hfault]
      exact fun c hc => h c (List.mem_filter.mp hc).1
    | characters id => simpa [RealmNode.answer, hfault] using h
    | _ => exact h

theorem names_change {n : RealmNode} (h : ∀ c ∈ n.store.list, NameFits c.name)
    (change : RealmNode.Change) : ∀ c ∈ (n.change change).store.list, NameFits c.name := by
  cases change with
  | mintRealmTicket id ticket =>
    rw [RealmNode.change]
    split <;> exact h
  | revokeRealmTicket id => exact h
  | createAccount req =>
    intro c hc
    have hc : c ∈ (n.store.createAccount req).list := hc
    rw [CharacterStore.list_createAccount] at hc
    exact h c hc
  | deleteUser id => exact fun c hc => h c (List.mem_filter.mp hc).1
  | endLadderSeason =>
    intro c hc
    have hc : c ∈ (RealmNode.endSeason n.store).list := hc
    rw [RealmNode.list_endSeason] at hc
    obtain ⟨b, hb, rfl⟩ := List.mem_map.mp hc
    unfold ended
    split
    · exact h b hb
    · exact h b hb

/-- A character of the store is of a name that fits, where imported ones are. -/
theorem names_step {w : RealmWorld} (hkept : naming.Kept w)
    (h : ∀ c ∈ w.characters, NameFits c.name) (event : RealmEvent) :
    ∀ c ∈ RealmWorld.characters ((realm cfg).step w event), NameFits c.name := by
  unfold RealmWorld.characters
  rcases (realm cfg).step_node (w := w) event with
    hnode | ⟨i, x, q, rfl, hq, hnode⟩ | ⟨e, rfl, hnode⟩
  · rw [hnode]
    exact h
  · rw [hnode]
    exact names_answer h (hkept.asking hq)
  · rw [hnode]
    exact names_change h e

end Names

/-! ## Statstrings -/

section Bounds

theorem bounded_setStatstring {statstring : List UInt8}
    (h : d2IsSafe statstring = true → Bounded statstring) : Bounded (setStatstring statstring) := by
  unfold setStatstring
  split
  · rename_i hsafe
    exact h hsafe
  · split
    · apply bounded_bare
      rw [List.length_take]
      omega
    · exact bounded_bare (Nat.zero_le _)

theorem bounded_of_no_comma {tag extra : List UInt8} (hlen : tag.length = 4)
    (hextra : tag ∈ d2Tags → comma ∉ extra) : Bounded (setStatstring (tag ++ extra)) := by
  refine bounded_setStatstring fun hsafe => ?_
  have htake : (tag ++ extra).take 4 = tag := by
    rw [← hlen, List.take_left]
  by_cases htag : tag ∈ d2Tags
  · apply bounded_bare
    have hdrop : (tag ++ extra).drop 4 = extra := by
      rw [← hlen, List.drop_left]
    have hshort : ¬ (tag ++ extra).length < 4 := by
      rw [List.length_append]
      omega
    rw [d2IsSafe, if_neg hshort, htake, if_neg (not_not.mpr htag), hdrop,
      List.count_eq_zero.mpr (hextra htag)] at hsafe
    have hfour : (tag ++ extra).length = 4 := by simpa using hsafe
    omega
  · apply bounded_of_tag
    rw [htake]
    exact htag

theorem bounded_default (product : FourCc) : Bounded (setStatstring (buildDefault product)) := by
  have hlen := length_productTag product
  have hbare : Bounded (setStatstring (productTag product)) := by
    have h := @bounded_of_no_comma _ [] hlen fun _ => List.not_mem_nil
    rwa [List.append_nil] at h
  unfold buildDefault
  dsimp only
  split
  · exact hbare
  · split
    · exact hbare
    · split
      · exact bounded_of_no_comma hlen fun _ => by decide
      · rw [List.append_assoc]
        refine bounded_of_no_comma hlen fun htag hmem => ?_
        rcases List.mem_append.mp hmem with h | h
        · revert h
          decide
        · exact comma_notMem_d2Tags _ htag h

theorem tag_recorded : ∀ product ∈ Login.recorded,
    productTag product ∉ d2Tags ∧ Text.asBytes (Text.fromUtf8Lossy (productTag product)) =
      productTag product := by
  decide

theorem bounded_starcraft {product : FourCc} (h : product ∈ Login.recorded) (record : Record) :
    Bounded (setStatstring (buildStarcraft product record)) := by
  obtain ⟨htag, hbytes⟩ := tag_recorded product h
  have hsplit : ∃ extra, buildStarcraft product record = productTag product ++ extra := by
    unfold buildStarcraft
    simp only [Text.asBytes, List.append_assoc, List.flatMap_append] at hbytes ⊢
    rw [hbytes]
    exact ⟨_, rfl⟩
  obtain ⟨extra, hextra⟩ := hsplit
  rw [hextra]
  exact bounded_of_no_comma (length_productTag product) fun h => absurd h htag

end Bounds

/-! ## Realms -/

/-- The name of a realm is copied within its field, or no client can name it in its chat
statstring. -/
def RealmFits (name : Text) : Prop := ',' ∈ name ∨ name.len ≤ 105 ∨ 126 < name.len

theorem len_eq_of_eqIgnoreAsciiCase {s t : Text} (h : s.eqIgnoreAsciiCase t = true) :
    s.len = t.len := by
  have hlen := congrArg List.length (Text.uppercase_asBytes_eq h)
  rwa [List.length_map, List.length_map, length_asBytes, length_asBytes] at hlen

section Realms

variable {node : RealmNode} {x : Outside} {account : Account} {frame : Frame} {realm name : Text}
  {c : Character}

theorem length_readEnterchat {stat : List UInt8}
    (h : (Reader.read Login.readEnterchat frame).toOption = some stat) : stat.length ≤ 128 := by
  cases hread : Reader.read Login.readEnterchat frame with
  | error e =>
    rw [hread] at h
    cases h
  | ok read =>
    rw [hread] at h
    obtain rfl := Option.some.inj h
    obtain ⟨rest, hrun⟩ := Taking.run'_eq_ok.mp hread
    obtain ⟨username, _, -, hrun⟩ := Taking.bind_ok hrun
    exact Reader.cstr_length hrun

/-- The realm that is named ends before a comma, and the name behind it is not empty. -/
theorem parseEnterchat_spec {stat : List UInt8}
    (h : parseEnterchatStatstring stat = some (realm, name)) :
    ',' ∉ realm ∧ realm.len + 2 ≤ stat.length := by
  simp only [parseEnterchatStatstring, Option.bind_eq_bind, Option.bind_eq_some_iff] at h
  obtain ⟨text, htext, ⟨realm', name'⟩, hsplit, h⟩ := h
  split at h
  · rename_i hne
    obtain ⟨rfl, rfl⟩ := Prod.mk.inj (Option.some.inj h)
    obtain ⟨rfl, hcomma⟩ := Text.splitOnce_spec hsplit
    refine ⟨hcomma, ?_⟩
    have hpos : 0 < name'.length := List.length_pos_iff.mpr hne.2
    have hlen := Text.length_le_len name'
    rw [← Text.asBytes_of_fromUtf8 htext, length_asBytes, Text.len_append]
    have hcons : Text.len (',' :: name') = 1 + name'.len := by
      rw [Text.len, List.map_cons, List.sum_cons]
      rfl
    show realm'.len + 2 ≤ realm'.len + Text.len (',' :: name')
    omega
  · cases h

theorem mem_of_characterByName (h : (node.answer x (.characterByName name)).1 = some c) :
    c ∈ node.store.list := by
  have h : (if x.fault.isSome then none
      else (node.store.characterByName name).toOption.getD none) = some c := h
  split at h
  · cases h
  · exact List.mem_of_find?_eq_some h

theorem realmCharacter_spec {offered : Option Text}
    (h : Login.realmCharacter offered node x account frame = some (realm, c)) :
    offered = some realm ∧ ',' ∉ realm ∧ realm.len ≤ 126 ∧ c ∈ node.store.list := by
  unfold Login.realmCharacter at h
  simp only [Option.bind_eq_bind, Option.bind_eq_some_iff] at h
  obtain ⟨realm', rfl, stat, hstat, ⟨realm_name, char_name⟩, hparse, h⟩ := h
  split at h
  · rename_i hsame
    obtain ⟨c', hc', h⟩ := Option.bind_eq_some_iff.mp h
    split at h
    · obtain ⟨rfl, rfl⟩ := Prod.mk.inj (Option.some.inj h)
      obtain ⟨hcomma, hlen⟩ := parseEnterchat_spec hparse
      have hrealm : ',' ∉ realm' := by
        intro hmem
        have hlower := Text.eqIgnoreAsciiCase_iff.mp hsame
        have hmem := (Text.mem_toAsciiLowercase_iff (c := ',') (by decide)).mpr hmem
        rw [← hlower] at hmem
        exact hcomma ((Text.mem_toAsciiLowercase_iff (by decide)).mp hmem)
      refine ⟨rfl, hrealm, ?_, mem_of_characterByName hc'⟩
      have hshort := length_readEnterchat hstat
      have hsameLen : realm_name.len = realm'.len := len_eq_of_eqIgnoreAsciiCase hsame
      have hlen : realm_name.len + 2 ≤ stat.length := hlen
      omega
    · cases h
  · cases h

/-- **What a login that adopts a realm character is advertised with** is within bounds where the
names of the realm and of the character are. -/
theorem bounded_adopted_iff {s : Login} {product : FourCc} {offered : Option Text}
    (hproduct : (s.product.filter fun p => p = Product.d2dv ∨ p = Product.d2xp) = some product)
    (hfound : Login.realmCharacter offered node x account frame = some (realm, c))
    (hzero : '\x00' ∉ c.name) :
    Bounded (s.adoptRealmCharacter offered node x account frame).statstring ↔
      realm.len ≤ 105 ∧ Text.len (c.name.takeWhile (· ≠ ',')) ≤ 15 := by
  obtain ⟨-, hcomma, -, -⟩ := realmCharacter_spec hfound
  have htag : productTag product ∈ d2Tags := by
    rcases of_decide_eq_true (Option.filter_eq_some_iff.mp hproduct).2 with rfl | rfl <;> decide
  have hsafe := d2IsSafe_chatStatstring (portrait c) product realm c.name
  have hset : (s.adoptRealmCharacter offered node x account frame).statstring =
      chatStatstring (portrait c) product realm c.name := by
    unfold Login.adoptRealmCharacter
    rw [hproduct]
    dsimp only
    rw [hfound]
    dsimp only
    rw [setStatstring, if_pos hsafe]
  rw [hset]
  exact bounded_chatStatstring_iff (portrait c) htag hcomma hzero

/-- A login that adopts a realm character is advertised within bounds, where the realm's name
fits. -/
theorem bounded_adopt {s : Login} {offered : Option Text} (hs : Bounded s.statstring)
    (hrealm : ∀ realm ∈ offered, RealmFits realm)
    (hnames : ∀ c ∈ node.store.list, NameFits c.name) :
    Bounded (s.adoptRealmCharacter offered node x account frame).statstring := by
  cases hproduct : s.product.filter fun p => p = Product.d2dv ∨ p = Product.d2xp with
  | none =>
    unfold Login.adoptRealmCharacter
    rw [hproduct]
    exact hs
  | some product =>
    cases hfound : Login.realmCharacter offered node x account frame with
    | none =>
      unfold Login.adoptRealmCharacter
      rw [hproduct]
      dsimp only
      rw [hfound]
      exact hs
    | some adopted =>
      obtain ⟨realm, c⟩ := adopted
      obtain ⟨hoffered, hcomma, hlen, hc⟩ := realmCharacter_spec hfound
      obtain ⟨hname, hzero⟩ := hnames c hc
      refine (bounded_adopted_iff hproduct hfound hzero).mpr ⟨?_, hname⟩
      rcases hrealm realm hoffered with h | h | h
      · exact absurd h hcomma
      · exact h
      · exact absurd hlen (Nat.not_le.mpr h)

end Realms

theorem bounded_showRecord {s : Login} (hs : Bounded s.statstring) (record : Record) :
    Bounded (s.showRecord record).statstring := by
  unfold Login.showRecord
  split
  · exact hs
  · rename_i product hproduct
    have hrecorded : product ∈ Login.recorded :=
      of_decide_eq_true (Option.filter_eq_some_iff.mp hproduct).2
    dsimp only
    exact bounded_starcraft hrecorded record

/-! ## Runs -/

/-- What an import reads has a name that fits, and so has the realm that characters are adopted
in. -/
def Meets (offered : Option Text) (_ : LoginWorld) : LoginEvent → Prop
  | .imported charinfo charsave _ j _ =>
    ∀ c, (readCharacters charinfo charsave).1[j]? = some c →
      Text.len (c.name.takeWhile (· ≠ ',')) ≤ 15
  | .enterChat _ _ _ _ => ∀ name ∈ offered, RealmFits name
  | _ => True

/-- No statstring that a login is advertised with overruns a Diablo II client. -/
def AllBounded (w : LoginWorld) : Prop :=
  (∀ i, Bounded (w.logins i).statstring) ∧ ∀ statstring ∈ w.sent, Bounded statstring

/-- What every step keeps. -/
structure Fitting (w : LoginWorld) : Prop where
  kept : naming.Kept w.realm
  names : ∀ c ∈ w.realm.characters, NameFits c.name
  bounded : AllBounded w

section Run

variable {cfg : RealmConfig} {offered : Option Text} {w : LoginWorld}

theorem fitting_new : Fitting .new where
  kept := Promise.kept_new trivial
  names _ hc := nomatch hc
  bounded := ⟨fun _ => bounded_bare (Nat.zero_le _), fun _ h => nomatch h⟩

theorem allBounded_setLogin (h : AllBounded w) {i : ConnId} {s : Login}
    (hs : Bounded s.statstring) : AllBounded (w.setLogin i s) := by
  refine ⟨fun j => ?_, h.2⟩
  show Bounded (Function.update w.logins i s j).statstring
  by_cases hj : j = i
  · rw [hj, Function.update_self]
    exact hs
  · rw [Function.update_of_ne hj]
    exact h.1 j

theorem names_imported {n : RealmNode} (h : ∀ c ∈ n.store.list, NameFits c.name)
    {d : Character} (hd : NameFits d.name) :
    ∀ c ∈ (n.store.createCharacter d).2.list, NameFits c.name := by
  intro c hc
  rcases CharacterStore.createCharacter_cases n.store d with ⟨-, hlist, -⟩ | ⟨-, hsame⟩
  · rw [hlist] at hc
    rcases List.mem_append.mp hc with hc | hc
    · exact h c hc
    · rw [List.mem_singleton.mp hc]
      exact hd
  · rw [hsame] at hc
    exact h c hc

theorem fitting_step (h : Fitting w) (event : LoginEvent) (hmeets : Meets offered w event) :
    Fitting (w.step cfg offered event) := by
  cases event with
  | realm event =>
    exact ⟨(sound_naming cfg).step h.kept event, names_step h.kept h.names event, h.bounded⟩
  | imported charinfo charsave attempt j account =>
    unfold LoginWorld.step
    dsimp only
    cases hread : (readCharacters charinfo charsave).1[j]? with
    | none => exact h
    | some c =>
      obtain ⟨save, -, hname⟩ :=
        Import.name_of_mem_readCharacters (List.mem_of_getElem? hread)
      have hfits : NameFits c.name := ⟨hmeets c hread, hname ▸ Import.zero_notMem_name save⟩
      exact ⟨h.kept, names_imported h.names hfits, h.bounded⟩
  | identify i product =>
    exact ⟨h.kept, h.names, allBounded_setLogin h.bounded (bounded_default product)⟩
  | logOn i account =>
    exact ⟨h.kept, h.names, allBounded_setLogin h.bounded (h.bounded.1 i)⟩
  | enterChat i frame x record =>
    have hentered : Bounded
        ((w.logins i).enterChat offered w.realm.node x frame record).statstring := by
      unfold Login.enterChat
      split
      · exact h.bounded.1 i
      · exact bounded_showRecord (bounded_adopt (h.bounded.1 i) hmeets h.names) record
    refine ⟨h.kept, h.names, (allBounded_setLogin h.bounded hentered).1, fun statstring hmem => ?_⟩
    rcases List.mem_append.mp hmem with hmem | hmem
    · exact h.bounded.2 statstring hmem
    · rw [List.mem_singleton.mp hmem]
      exact hentered
  | gameResult i record =>
    exact ⟨h.kept, h.names,
      allBounded_setLogin h.bounded (bounded_showRecord (h.bounded.1 i) record)⟩
  | joinChannel i =>
    refine ⟨h.kept, h.names, h.bounded.1, fun statstring hmem => ?_⟩
    rcases List.mem_append.mp hmem with hmem | hmem
    · exact h.bounded.2 statstring hmem
    · rw [List.mem_singleton.mp hmem]
      exact h.bounded.1 i

/-- **No statstring overruns a Diablo II client** in a run in which the names of the realm and of
what is imported fit. -/
theorem statstrings_bounded (cfg : RealmConfig) (offered : Option Text) (events : List LoginEvent)
    (h : Along (LoginWorld.step cfg offered) (Meets offered) .new events) :
    Always (LoginWorld.step cfg offered) AllBounded .new events := by
  have hstep (w : LoginWorld) (event : LoginEvent) (hw : Fitting w) (hmeets : Meets offered w event) :
      Fitting (w.step cfg offered event) := fitting_step hw event hmeets
  have hfitting : Always (LoginWorld.step cfg offered) Fitting .new events :=
    Along.always hstep fitting_new h
  exact hfitting.imp fun w hw => hw.bounded

end Run

/-! ## A realm with a long name -/

/-- A client enters chat as the character that it has made. -/
def enterAs (realm : Text) : Frame :=
  ⟨Sid.enterChat, Writer.cstr [] ++ Writer.cstr (realm ++ ",alpha".toList).asBytes⟩

/-- An account of a realm is made with a character, and logs in to chat. -/
def entering (realm : Text) : List LoginEvent :=
  [.realm (.other (.createAccount ⟨racer.name, racer.credential, 0, ∅⟩)),
    .realm (.other (.mintRealmTicket 7 ⟨0, racer, Product.d2xp⟩)),
    .realm (.input 0 startupFrame), .realm (.turn 0 .unlinked),
    .realm (.input 0 (raceCreate "alpha".toList)), .realm (.turn 0 .unlinked),
    .realm (.turn 0 .unlinked), .realm (.turn 0 .unlinked),
    .identify 0 Product.d2xp, .logOn 0 racer,
    .enterChat 0 (enterAs realm) .unlinked ⟨0, 0, 0, 0, 0, 0⟩]

/-- In a realm with a short name the client is sent what it can copy. -/
theorem statstrings_bounded_bncc :
    Always (LoginWorld.step raceRealm (some "bncc".toList)) AllBounded .new
      (entering "bncc".toList) := by
  apply statstrings_bounded raceRealm (some "bncc".toList) (entering "bncc".toList)
  apply along_of_forall
  intro event hevent w
  cases event with
  | imported _ _ _ _ _ => simp [entering] at hevent
  | enterChat _ _ _ _ =>
    rintro name hname
    obtain rfl := Option.some.inj hname
    exact .inr (.inl (by decide))
  | _ => trivial

def longRealm : Text := .replicate 106 'a'

theorem entering_longRealm :
    ((run (LoginWorld.step raceRealm (some longRealm)) .new (entering longRealm)).logins
      0).statstring = chatStatstring ⟨0, 0, 1, 0⟩ Product.d2xp longRealm "alpha".toList := by
  decide +kernel

/-- The realm's name alone overruns the client. -/
theorem overrun_longRealm :
    ¬ Always (LoginWorld.step raceRealm (some longRealm)) AllBounded .new
      (entering longRealm) := by
  intro h
  have hlast := h.last.1 0
  rw [entering_longRealm] at hlast
  have hfits := (bounded_chatStatstring_iff _ (by decide) (by decide) (by decide)).mp hlast
  exact absurd hfits.1 (by decide)

end CommandCenter.Daemon
