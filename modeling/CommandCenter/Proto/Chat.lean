import CommandCenter.Rust.Text
import CommandCenter.Library.Words

/-!
# Chat events

`crates/bnetcc-proto/src/chat.rs`. An event is its fields; the ping, which is always zero here,
and the bytes it is encoded as are left out. The text of some events is a statstring or a name
that need not be UTF-8, so it is bytes.
-/

namespace CommandCenter.Proto

open Rust

/-- Maximum chat text including the NUL terminator. -/
def chatTextMax : Nat := 224

/-- Maximum channel name length. -/
def channelNameMax : Nat := 31

/-- `SID_CHATEVENT` event identifiers. -/
inductive EventId where
  | showUser
  | join
  | leave
  | whisper
  | talk
  | broadcast
  | channel
  | userFlags
  | whisperSent
  | channelFull
  | channelDoesNotExist
  | channelRestricted
  | info
  | error
  | emote
  deriving DecidableEq

/-- A `SID_CHATEVENT` frame. -/
structure ChatEvent where
  event : EventId
  flags : UInt32
  username : Text
  text : List UInt8
  deriving DecidableEq

/-- A byte that is neither a control byte nor DEL. -/
def printable (b : UInt8) : Bool := 0x20 ≤ b && b != 0x7F

/-- Clean chat text arriving from a client. -/
def sanitizeChatText (input : List UInt8) : List UInt8 :=
  (input.filter printable).take (chatTextMax - 1)

/-- Each run of spaces becomes one, and none is left at the front. -/
def collapseSpaces : Bool → List UInt8 → List UInt8
  | _, [] => []
  | lastSpace, b :: rest =>
    let c := Text.byteToAsciiLowercase b
    if c = 0x20 then
      if lastSpace then collapseSpaces true rest else c :: collapseSpaces true rest
    else c :: collapseSpaces false rest

def normalizeChannelName (name : List UInt8) : List UInt8 :=
  ((collapseSpaces true (name.filter printable)).rdropWhile (· == 0x20)).take channelNameMax

/-!
## The keys of channels

`normalize_channel_name` drops what is not printable, folds the case, leaves one space between
words, and cuts the result to 31 bytes. It cuts last: where the 31st byte is the space behind a
word, that space stays at the end, and a second call would drop it.

* `normalizeChannelName_eq`: a key is the words of the name, spaced, and cut.
* `normalizeChannelName_of_isKey`: what has the form of a key is left alone.
* `normalizeChannelName_iff`: when a key has that form, and is the key of its channel.
-/

open Library

/-- The words of a name in lower case. -/
def nameWords (name : List UInt8) : List (List UInt8) :=
  words 0x20 ((name.filter printable).map Text.byteToAsciiLowercase)

/-- The first words of the name, with a space between each two, take 30 bytes, and another word
follows. -/
def CutsAtSpace (name : List UInt8) : Prop :=
  ∃ k, 0 < k ∧ k < (nameWords name).length ∧
    (unwords 0x20 ((nameWords name).take k)).length = channelNameMax - 1

/-- At most 31 bytes, none a control byte or in upper case; no space at either end and no two
together. -/
structure IsKey (key : List UInt8) : Prop where
  length : key.length ≤ channelNameMax
  printable : ∀ b ∈ key, printable b = true
  lower : ∀ b ∈ key, ¬ (65 ≤ b ∧ b ≤ 90)
  spaced : Spaced 0x20 key

theorem byteToAsciiLowercase_lower (b : UInt8) :
    ¬ (65 ≤ Text.byteToAsciiLowercase b ∧ Text.byteToAsciiLowercase b ≤ 90) := by
  unfold Text.byteToAsciiLowercase
  split
  · rename_i h
    simp only [UInt8.le_iff_toNat_le] at h ⊢
    intro hupper
    rw [UInt8.toNat_add] at hupper
    change (65 : Nat) ≤ b.toNat ∧ b.toNat ≤ 90 at h
    change (65 : Nat) ≤ (b.toNat + 32) % 2 ^ 8 ∧ (b.toNat + 32) % 2 ^ 8 ≤ 90 at hupper
    omega
  · assumption

theorem printable_byteToAsciiLowercase {b : UInt8} (h : printable b = true) :
    printable (Text.byteToAsciiLowercase b) = true := by
  unfold Text.byteToAsciiLowercase
  split
  · rename_i hupper
    simp only [UInt8.le_iff_toNat_le] at hupper
    change (65 : Nat) ≤ b.toNat ∧ b.toNat ≤ 90 at hupper
    have hsum : (b + 32).toNat = b.toNat + 32 := by
      rw [UInt8.toNat_add]
      change (b.toNat + 32) % 2 ^ 8 = _
      omega
    rw [printable, Bool.and_eq_true, decide_eq_true_eq, bne_iff_ne, UInt8.le_iff_toNat_le, hsum]
    refine ⟨Nat.le_add_left _ _, fun hdel => ?_⟩
    rw [hdel] at hsum
    change 127 = b.toNat + 32 at hsum
    omega
  · exact h

/-- The loop squeezes the name in lower case. -/
theorem collapseSpaces_eq (lastSpace : Bool) (name : List UInt8) :
    collapseSpaces lastSpace name =
      squeeze 0x20 lastSpace (name.map Text.byteToAsciiLowercase) := by
  induction name generalizing lastSpace with
  | nil => rfl
  | cons b name ih =>
    rw [List.map_cons, collapseSpaces, squeeze]
    simp only [ih]

/-- A key is the words of the name, with a space between each two, cut to 31 bytes. -/
theorem normalizeChannelName_eq (name : List UInt8) :
    normalizeChannelName name = (unwords 0x20 (nameWords name)).take channelNameMax := by
  rw [normalizeChannelName, collapseSpaces_eq, squeeze_eq, nameWords]

/-! ## The form of a key -/

/-- What has the form of a key is left alone. -/
theorem normalizeChannelName_of_isKey {key : List UInt8} (h : IsKey key) :
    normalizeChannelName key = key := by
  have hfilter : key.filter printable = key := List.filter_eq_self.mpr h.printable
  have hlower : key.map Text.byteToAsciiLowercase = key := by
    refine (List.map_congr_left fun b hb => ?_).trans (List.map_id key)
    exact if_neg (h.lower b hb)
  have hback : key.rdropWhile (· == 0x20) = key := by
    rw [List.rdropWhile_eq_self_iff]
    intro hne hlast
    refine h.spaced.back ?_
    rw [List.getLast?_eq_some_getLast hne, beq_iff_eq.mp hlast]
  rw [normalizeChannelName, collapseSpaces_eq, hfilter, hlower, squeeze_of_spaced h.spaced, hback,
    List.take_of_length_le h.length]

theorem normalizeChannelName_front (name : List UInt8) : normalizeChannelName name <+:
    squeeze 0x20 true ((name.filter printable).map Text.byteToAsciiLowercase) := by
  rw [normalizeChannelName, collapseSpaces_eq]
  exact (List.take_prefix _ _).trans (List.rdropWhile_prefix _ _)

theorem mem_normalizeChannelName {name : List UInt8} {b : UInt8}
    (h : b ∈ normalizeChannelName name) :
    ∃ c ∈ name, printable c = true ∧ Text.byteToAsciiLowercase c = b := by
  have hmem := ((normalizeChannelName_front name).sublist.trans (squeeze_sublist true _)).mem h
  obtain ⟨c, hc, hcb⟩ := List.mem_map.mp hmem
  obtain ⟨hname, hprintable⟩ := List.mem_filter.mp hc
  exact ⟨c, hname, hprintable, hcb⟩

theorem getLast?_normalizeChannelName (name : List UInt8) :
    (normalizeChannelName name).getLast? = some 0x20 ↔ CutsAtSpace name := by
  have hcut : CutsAtSpace name ↔
      (unwords 0x20 (nameWords name))[channelNameMax - 1]? = some 0x20 :=
    (getElem?_unwords (fun w hw => (words_spec _ w hw).2) _).symm
  have hback : (unwords 0x20 (nameWords name)).getLast? ≠ some 0x20 := by
    rw [nameWords, ← squeeze_eq]
    intro hlast
    have hne : (squeeze 0x20 true ((name.filter printable).map
        Text.byteToAsciiLowercase)).rdropWhile (· == 0x20) ≠ [] := by
      intro hnil
      rw [hnil] at hlast
      cases hlast
    refine List.rdropWhile_last_not _ _ hne ?_
    rw [List.getLast?_eq_some_getLast hne] at hlast
    exact beq_iff_eq.mpr (Option.some.inj hlast)
  rw [hcut, normalizeChannelName_eq, List.getLast?_take, if_neg (by decide)]
  cases (unwords 0x20 (nameWords name))[channelNameMax - 1]? with
  | none => exact iff_of_false hback (by simp)
  | some b => rfl

theorem isKey_normalizeChannelName {name : List UInt8} (h : ¬ CutsAtSpace name) :
    IsKey (normalizeChannelName name) where
  length := List.length_take_le _ _
  printable b hb := by
    obtain ⟨c, -, hprintable, rfl⟩ := mem_normalizeChannelName hb
    exact printable_byteToAsciiLowercase hprintable
  lower b hb := by
    obtain ⟨c, -, -, rfl⟩ := mem_normalizeChannelName hb
    exact byteToAsciiLowercase_lower c
  spaced := by
    obtain ⟨rest, hrest⟩ := normalizeChannelName_front name
    refine ⟨fun hfront => ?_, fun hback => h ((getLast?_normalizeChannelName name).mp hback), ?_⟩
    · have hsqueezed := squeeze_front (0x20 : UInt8)
        ((name.filter printable).map Text.byteToAsciiLowercase)
      rw [← hrest, List.head?_append, hfront] at hsqueezed
      exact hsqueezed rfl
    · exact List.IsChain.prefix (squeeze_apart true _) (normalizeChannelName_front name)

/-- **When a key is the key of its channel.** For every name: what `normalize_channel_name` makes
of it is left alone by a second call and has the form of a key, just if the name is not cut to 31
bytes at the space behind a word. -/
theorem normalizeChannelName_iff (name : List UInt8) :
    (normalizeChannelName (normalizeChannelName name) = normalizeChannelName name ∧
      IsKey (normalizeChannelName name)) ↔ ¬ CutsAtSpace name := by
  constructor
  · rintro ⟨-, hkey⟩ hcut
    exact hkey.spaced.back ((getLast?_normalizeChannelName name).mpr hcut)
  · intro hcut
    have hkey := isKey_normalizeChannelName hcut
    exact ⟨normalizeChannelName_of_isKey hkey, hkey⟩

/-- A word of thirty letters and another: the key ends with a space, and its own key does not. -/
theorem normalizeChannelName_cut :
    normalizeChannelName (List.replicate 30 0x61 ++ [0x20, 0x62]) =
        List.replicate 30 0x61 ++ [0x20] ∧
      normalizeChannelName (normalizeChannelName (List.replicate 30 0x61 ++ [0x20, 0x62])) ≠
        normalizeChannelName (List.replicate 30 0x61 ++ [0x20, 0x62]) := by
  decide

end CommandCenter.Proto
