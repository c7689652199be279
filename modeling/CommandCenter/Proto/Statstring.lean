import CommandCenter.Proto.D2
import CommandCenter.Proto.Product
import CommandCenter.Rust.Utf8

/-!
# Statstrings

What a user is shown by, from `crates/bnetcc-proto/src/statstring.rs`, and the statstring of a
Diablo II realm character, from `crates/bnetcc-proto/src/d2.rs`.

* `Bounded`: a Diablo II client copies a statstring within its fields.
* `bounded_of_tag`, `bounded_bare`, `bounded_chatStatstring_iff`: which ones it does.
-/

namespace CommandCenter.Proto

open Rust

namespace Statstring

/-- The product's tag, the code reversed. -/
def productTag (product : FourCc) : List UInt8 := product.asAscii.reverse

/-- The statstring of a user without stored stats. -/
def buildDefault (product : FourCc) : List UInt8 :=
  let reversed := productTag product
  if product = Product.war3 ∨ product = Product.w3xp then reversed
  else if product = Product.d2dv ∨ product = Product.d2xp then reversed
  else if product = Product.drtl ∨ product = Product.dshr then
    reversed ++ Text.asBytes " 1 0 0 30 10 20 25 0 0".toList
  else reversed ++ Text.asBytes " 0 0 0 0 0 0 0 0 ".toList ++ reversed

/-- The tags under which a Diablo II client parses a statstring. -/
def d2Tags : List (List UInt8) :=
  ["VD2D", "PX2D", "TS2D"].map fun tag => Text.asBytes tag.toList

def comma : UInt8 := 44

/-- Whether a statstring may be put in front of a Diablo II client. -/
def d2IsSafe (statstring : List UInt8) : Bool :=
  if statstring.length < 4 then true
  else if statstring.take 4 ∉ d2Tags then true
  else statstring.length = 4 || 2 ≤ (statstring.drop 4).count comma

/-- A StarCraft or Warcraft II player's record. -/
structure Record where
  rating : UInt32
  rank : UInt32
  wins : UInt32
  highRating : UInt32
  ironRating : UInt32
  ironRank : UInt32

/-- The statstring that shows a record. -/
def buildStarcraft (product : FourCc) (record : Record) : List UInt8 :=
  let tag := Text.fromUtf8Lossy (productTag product)
  let number (n : UInt32) : Text := ' ' :: Nat.toDigits 10 n.toNat
  Text.asBytes (tag ++ number record.rating ++ number record.rank ++ number record.wins ++
    number 0 ++ number 0 ++ number record.highRating ++ number record.ironRating ++
    number record.ironRank ++ ' ' :: tag)

/-- The chat statstring of a realm character: `<product><realm>,<name>,<portrait>`. -/
def chatStatstring (p : D2.Portrait) (product : FourCc) (realm name : Text) : List UInt8 :=
  productTag product ++ realm.asBytes ++ [comma] ++ name.asBytes ++ [comma] ++
    p.encode [0x84, 0x80]

/-- The `Realm,CharacterName` that a client enters chat with. -/
def parseEnterchatStatstring (raw : List UInt8) : Option (Text × Text) := do
  let text ← Text.fromUtf8 raw
  let (realm, name) ← text.splitOnce ','
  if realm ≠ [] ∧ name ≠ [] then some (realm, name) else none

/-! ## What a client copies -/

/-- A statstring under a tag of Diablo II is the tag alone, or the two parts of it that a client
copies up to a comma fit into the fields that they are copied to. -/
def Bounded (statstring : List UInt8) : Prop :=
  ∀ tag ∈ d2Tags, tag <+: statstring → statstring = tag ∨
    ∃ realm name portrait, statstring = tag ++ realm ++ [comma] ++ name ++ [comma] ++ portrait ∧
      comma ∉ realm ∧ realm.length ≤ 105 ∧ comma ∉ name ∧ name.length ≤ 15 ∧ 0 ∉ portrait

section Forms

theorem length_of_mem_d2Tags : ∀ tag ∈ d2Tags, tag.length = 4 := by decide

theorem comma_notMem_d2Tags : ∀ tag ∈ d2Tags, comma ∉ tag := by decide

theorem length_productTag (product : FourCc) : (productTag product).length = 4 := rfl

/-- Under another tag nothing is copied. -/
theorem bounded_of_tag {statstring : List UInt8} (h : statstring.take 4 ∉ d2Tags) :
    Bounded statstring := by
  intro tag htag hbegins
  have htake : statstring.take 4 = tag := by
    rw [← length_of_mem_d2Tags tag htag]
    exact (List.prefix_iff_eq_take.mp hbegins).symm
  exact absurd (htake ▸ htag) h

theorem bounded_bare {statstring : List UInt8} (h : statstring.length ≤ 4) :
    Bounded statstring := by
  intro tag htag hbegins
  refine .inl (hbegins.eq_of_length_le ?_).symm
  rw [length_of_mem_d2Tags tag htag]
  exact h

theorem comma_notMem_asBytes {s : Text} (h : ',' ∉ s) : comma ∉ s.asBytes := by
  intro hmem
  obtain ⟨c, hc, hval⟩ := Text.exists_of_mem_asBytes (by decide) hmem
  have hcomma : c = ',' := Char.ext (UInt32.toNat_inj.mp hval)
  exact h (hcomma ▸ hc)

theorem zero_notMem_asBytes {s : Text} (h : '\x00' ∉ s) : 0 ∉ s.asBytes := by
  intro hmem
  obtain ⟨c, hc, hval⟩ := Text.exists_of_mem_asBytes (by decide) hmem
  have hzero : c = '\x00' := Char.ext (UInt32.toNat_inj.mp hval)
  exact h (hzero ▸ hc)

theorem zero_notMem_push14 (v : UInt32) : 0 ∉ D2.push14 v := by
  have hhigh : ∀ n : UInt32, 0 ≠ ((n &&& 0x7F) ||| 0x80).toUInt8 := by
    intro n hn
    have hbit := congrArg (fun b : UInt8 => b.toNat.testBit 7) hn
    have h256 : (256 : Nat) = 2 ^ 8 := rfl
    simp [h256] at hbit
    exact absurd hbit.2 (by decide)
  intro h
  rcases List.mem_cons.mp h with h | h
  · exact hhigh _ h
  · exact hhigh _ (List.mem_singleton.mp h)

theorem zero_notMem_encode (p : D2.Portrait) : 0 ∉ p.encode [0x84, 0x80] := by
  have hclass : 0 ≠ min p.heroClass D2.HeroClass.assassin + 1 := by
    show 0 ≠ (if p.heroClass ≤ 6 then p.heroClass else 6) + 1
    split
    · rename_i hle
      intro h
      have hnat := congrArg UInt8.toNat h
      rw [UInt8.toNat_add] at hnat
      have hle : p.heroClass.toNat ≤ 6 := UInt8.le_iff_toNat_le.mp hle
      have hone : (1 : UInt8).toNat = 1 := rfl
      have hzero : (0 : UInt8).toNat = 0 := rfl
      omega
    · decide
  have hlevel : 0 ≠ min (max p.level 1) 99 := by
    have hmax : 0 ≠ if p.level ≤ 1 then 1 else p.level := by
      split
      · decide
      · rename_i hlow
        intro h
        exact hlow (h ▸ by decide)
    show 0 ≠ if (if p.level ≤ 1 then 1 else p.level) ≤ 99 then
      (if p.level ≤ 1 then 1 else p.level) else 99
    generalize (if p.level ≤ 1 then 1 else p.level) = n at hmax ⊢
    split
    · exact hmax
    · decide
  have hfill : (0 : UInt8) ∉ List.replicate 11 0xFF := by decide
  unfold D2.Portrait.encode
  simp only [List.mem_append, List.mem_singleton, hclass, hlevel, hfill, zero_notMem_push14,
    or_false]
  decide

theorem length_asBytes (s : Text) : s.asBytes.length = s.len := by
  rw [Text.asBytes, List.length_flatMap, Text.len]
  congr 1
  exact List.map_congr_left fun c _ => String.length_utf8EncodeChar c

/-- What a client copies of a name ends at a comma: at the one behind the name, or at one that the
name itself has. -/
theorem exists_copied (name : Text) (portrait : List UInt8) :
    ∃ rest, name.asBytes ++ comma :: portrait =
        Text.asBytes (name.takeWhile (· ≠ ',')) ++ comma :: rest ∧
      ('\x00' ∉ name → 0 ∉ portrait → 0 ∉ rest) := by
  have happend := List.takeWhile_append_dropWhile (p := (· ≠ ',')) (l := name)
  cases hrest : name.dropWhile (· ≠ ',') with
  | nil =>
    rw [hrest, List.append_nil] at happend
    refine ⟨portrait, ?_, fun _ hportrait => hportrait⟩
    rw [happend]
  | cons c rest =>
    have hc : c = ',' := by
      have hhead := List.head?_dropWhile_not (· ≠ ',') name
      rw [hrest] at hhead
      simpa using hhead
    rw [hrest, hc] at happend
    refine ⟨Text.asBytes rest ++ comma :: portrait, ?_, ?_⟩
    · conv => lhs; rw [← happend]
      rw [Text.asBytes, List.flatMap_append, List.flatMap_cons, List.append_assoc]
      simp only [Text.asBytes, List.append_assoc]
      rfl
    · intro hzero hportrait hmem
      rcases List.mem_append.mp hmem with hmem | hmem
      · refine zero_notMem_asBytes (fun h => hzero ?_) hmem
        rw [← happend]
        exact List.mem_append_right _ (List.mem_cons_of_mem _ h)
      · rcases List.mem_cons.mp hmem with h | h
        · exact absurd h (by decide)
        · exact hportrait h

theorem split_unique {α : Type} {sep : α} {s t rest rest' : List α} (hs : sep ∉ s) (ht : sep ∉ t)
    (h : s ++ sep :: rest = t ++ sep :: rest') : s = t ∧ rest = rest' := by
  induction s generalizing t with
  | nil =>
    cases t with
    | nil => exact ⟨rfl, (List.cons.inj h).2⟩
    | cons a t => exact absurd (List.mem_cons.mpr (.inl (List.cons.inj h).1)) ht
  | cons b s ih =>
    cases t with
    | nil => exact absurd (List.mem_cons.mpr (.inl (List.cons.inj h).1.symm)) hs
    | cons a t =>
      obtain ⟨rfl, htail⟩ := List.cons.inj h
      obtain ⟨rfl, hrest⟩ := ih (fun hmem => hs (List.mem_cons_of_mem _ hmem))
        (fun hmem => ht (List.mem_cons_of_mem _ hmem)) htail
      exact ⟨rfl, hrest⟩

theorem chatStatstring_eq (p : D2.Portrait) (product : FourCc) (realm name : Text) :
    chatStatstring p product realm name = productTag product ++
      (realm.asBytes ++ comma :: (name.asBytes ++ comma :: p.encode [0x84, 0x80])) := by
  unfold chatStatstring
  simp only [List.append_assoc, List.cons_append, List.nil_append]

/-- **The two fields of a realm character's statstring** are what is in front of its commas. A name
with a comma of its own is copied up to there. -/
theorem bounded_chatStatstring_iff (p : D2.Portrait) {product : FourCc} {realm name : Text}
    (hproduct : productTag product ∈ d2Tags) (hrealm : ',' ∉ realm) (hzero : '\x00' ∉ name) :
    Bounded (chatStatstring p product realm name) ↔
      realm.len ≤ 105 ∧ Text.len (name.takeWhile (· ≠ ',')) ≤ 15 := by
  have hpart : comma ∉ Text.asBytes (name.takeWhile (· ≠ ',')) :=
    comma_notMem_asBytes fun hmem => by simpa using List.mem_takeWhile_imp hmem
  obtain ⟨portrait, hcopied, hportrait⟩ := exists_copied name (p.encode [0x84, 0x80])
  have heq := chatStatstring_eq p product realm name
  rw [hcopied] at heq
  have hbegins : productTag product <+: chatStatstring p product realm name := by
    rw [heq]
    exact List.prefix_append _ _
  constructor
  · intro h
    rcases h _ hproduct hbegins with hbare | ⟨r, n, rest, hsplit, hr, hrlen, hn, hnlen, -⟩
    · have hlen := congrArg List.length (heq.symm.trans hbare)
      simp only [List.length_append, List.length_cons] at hlen
      omega
    · rw [heq] at hsplit
      simp only [List.append_assoc, List.cons_append, List.nil_append] at hsplit
      obtain ⟨hrealmEq, hrest⟩ :=
        split_unique (comma_notMem_asBytes hrealm) hr (List.append_cancel_left hsplit)
      obtain ⟨hnameEq, -⟩ := split_unique hpart hn hrest
      rw [← length_asBytes, ← length_asBytes, hrealmEq, hnameEq]
      exact ⟨hrlen, hnlen⟩
  · rintro ⟨hrealmLen, hnameLen⟩ tag htag hofTag
    have hlen : tag.length = (productTag product).length := by
      rw [length_of_mem_d2Tags tag htag, length_productTag]
    obtain rfl : tag = productTag product :=
      (List.prefix_of_prefix_length_le hofTag hbegins hlen.le).eq_of_length hlen
    rw [← length_asBytes] at hrealmLen hnameLen
    refine .inr ⟨_, _, portrait, ?_, comma_notMem_asBytes hrealm, hrealmLen, hpart, hnameLen,
      hportrait hzero (zero_notMem_encode p)⟩
    rw [heq]
    simp only [List.append_assoc, List.cons_append, List.nil_append]

theorem d2IsSafe_chatStatstring (p : D2.Portrait) (product : FourCc) (realm name : Text) :
    d2IsSafe (chatStatstring p product realm name) = true := by
  have hdrop : (chatStatstring p product realm name).drop 4 =
      realm.asBytes ++ comma :: (name.asBytes ++ comma :: p.encode [0x84, 0x80]) := by
    rw [chatStatstring_eq, ← length_productTag product, List.drop_left]
  have hcount : 2 ≤ ((chatStatstring p product realm name).drop 4).count comma := by
    rw [hdrop, List.count_append, List.count_cons_self, List.count_append, List.count_cons_self]
    omega
  unfold d2IsSafe
  split
  · rfl
  · split
    · rfl
    · rw [decide_eq_true hcount, Bool.or_true]

theorem fits_of_valid {name : Text} (h : D2.validCharacterName name = true) :
    Text.len (name.takeWhile (· ≠ ',')) ≤ 15 ∧ '\x00' ∉ name := by
  have hsafe : ∀ c ∈ name, c ≠ ',' ∧ c ≠ '\x00' := by
    intro c hc
    rcases D2.mem_validCharacterName h hc with halpha | hpunctuation
    · constructor
      · rintro rfl
        exact absurd halpha (by decide)
      · rintro rfl
        exact absurd halpha (by decide)
    · constructor
      · rintro rfl
        exact absurd hpunctuation (by decide)
      · rintro rfl
        exact absurd hpunctuation (by decide)
  have hlen : name.len ≤ D2.nameMax := by
    unfold D2.validCharacterName at h
    simp only [Bool.and_eq_true, decide_eq_true_eq] at h
    exact h.1.1.2
  refine ⟨?_, fun hmem => (hsafe _ hmem).2 rfl⟩
  rw [List.takeWhile_eq_self_iff.mpr fun c hc => decide_eq_true (hsafe c hc).1]
  exact hlen

end Forms

end Statstring

end CommandCenter.Proto
