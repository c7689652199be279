import CommandCenter.Rust.Num
import CommandCenter.Rust.Slice
import CommandCenter.Rust.Utf8
import Mathlib.Data.Countable.Basic
import Mathlib.Logic.Equiv.List

/-!
# Beacons

The tracking packet of `crates/bnetccd/src/tracker.rs`, with the server's own block behind it. The
JSON of the block comes from another crate. `ExtensionJson` holds what the beacon relies on: that a
block is written, and read back from what it was written as. `none` is a panic.

* `received_eq_fit_iff`: what is read of a field is the text cut to whole characters, unless the
  end of the field falls within one.
* `beacon_iff`: a beacon says what the server said just if no field ends within a character.
-/

namespace CommandCenter.Daemon

open Rust

def PACKET_VERSION : UInt16 := 2

def PACKET_SIZE : Nat := 464

/-- `BNCC`. -/
def EXTENSION_MAGIC : List UInt8 := [0x42, 0x4E, 0x43, 0x43]

def MAX_BEACON : Nat := 1200

/-- What a server can say that the standard packet cannot. -/
structure Extension where
  host : Text
  products : List Text
  links : List Text
deriving DecidableEq

/-- `Extension::default`. -/
def Extension.default : Extension := ⟨[], [], []⟩

/-- `serde_json::to_vec` and `serde_json::from_slice` on the block. -/
structure ExtensionJson where
  toVec : Extension → Option (List UInt8)
  fromSlice : List UInt8 → Option Extension
  fromSlice_toVec : ∀ x, ∃ body, toVec x = some body ∧ fromSlice body = some x

theorem countable_extension : Countable Extension := by
  have hchar : Countable Char := by
    have hinj : Function.Injective Char.toNat := by
      intro c d h
      rw [← Text.ofNat_val c, ← Text.ofNat_val d]
      exact congrArg Char.ofNat h
    exact hinj.countable
  have hinj : Function.Injective fun x : Extension => (x.host, x.products, x.links) := by
    intro x y h
    cases x
    cases y
    simpa using h
  have htext : Countable Text := inferInstanceAs (Countable (List Char))
  exact hinj.countable

/-- A server that says its name and two of its games. -/
def europe : Extension := ⟨"eu.bnet.cc".toList, ["STAR".toList, "W2BN".toList], []⟩

def europeJson : List UInt8 :=
  Text.asBytes "\x7b\"host\":\"eu.bnet.cc\",\"products\":[\"STAR\",\"W2BN\"]\x7d".toList

open Classical in
/-- The block of that server, and numbers for those of all others. -/
theorem exists_extensionJson : ∃ json : ExtensionJson, json.toVec europe = some europeJson := by
  have hcountable := countable_extension
  obtain ⟨number, hnumber⟩ := exists_injective_nat Extension
  obtain ⟨body, hbody⟩ : ∃ body : Extension → List UInt8, ∀ x,
      body x = if x = europe then europeJson else List.replicate (number x) 0 := ⟨_, fun _ => rfl⟩
  have hzeros : ∀ n, europeJson ≠ List.replicate n 0 := by
    intro n h
    have hhead : europeJson.head? = some 0x7B := by decide
    rw [h, List.head?_replicate] at hhead
    split at hhead
    · cases hhead
    · exact absurd hhead (by decide)
  have hinj : Function.Injective body := by
    intro x y h
    rw [hbody, hbody] at h
    split at h
    · split at h
      · rename_i hx hy
        rw [hx, hy]
      · exact absurd h (hzeros _)
    · split at h
      · exact absurd h.symm (hzeros _)
      · apply hnumber
        simpa using congrArg List.length h
  refine ⟨⟨fun x => some (body x), Function.partialInv body, fun x =>
    ⟨_, rfl, Function.partialInv_left hinj x⟩⟩, ?_⟩
  exact congrArg some ((hbody europe).trans (if_pos rfl))

structure TrackPacket where
  serverPort : UInt16
  flags : UInt32
  software : Text
  version : Text
  platform : Text
  serverDesc : Text
  location : Text
  url : Text
  contactName : Text
  contactEmail : Text
  activeUsers : UInt32
  activeChannels : UInt32
  activeGames : UInt32
  uptime : UInt32
  totalGames : UInt32
  totalLogins : UInt32

/-- Write `s` into an `n`-byte field: truncated to fit, then null-padded. -/
def putStr (b : List UInt8) (s : Text) (n : Nat) : List UInt8 :=
  let bytes := s.asBytes
  let take := min bytes.length n
  b ++ bytes.take take ++ List.replicate (n - take) 0

/-- Read an `n`-byte field at `off`, with the offset behind it. -/
def getStr (buf : List UInt8) (off n : Nat) : Option (Text × Nat) := do
  let raw ← slice buf off (off + n)
  let stop := (raw.findIdx? (· == 0)).getD n
  return (Text.fromUtf8Lossy (raw.take stop), off + n)

def beU16 (buf : List UInt8) (o : Nat) : Option UInt16 := do
  return fromBeBytes16 (← buf[o]?) (← buf[o + 1]?)

def beU32 (buf : List UInt8) (o : Nat) : Option UInt32 := do
  return fromBeBytes (← buf[o]?) (← buf[o + 1]?) (← buf[o + 2]?) (← buf[o + 3]?)

namespace TrackPacket

def encode (p : TrackPacket) : List UInt8 :=
  let b := toBeBytes16 PACKET_VERSION ++ toBeBytes16 p.serverPort ++ toBeBytes p.flags
  let b := putStr b p.software 32
  let b := putStr b p.version 16
  let b := putStr b p.platform 32
  let b := putStr b p.serverDesc 64
  let b := putStr b p.location 64
  let b := putStr b p.url 96
  let b := putStr b p.contactName 64
  let b := putStr b p.contactEmail 64
  b ++ toBeBytes p.activeUsers ++ toBeBytes p.activeChannels ++ toBeBytes p.activeGames ++
    toBeBytes p.uptime ++ toBeBytes p.totalGames ++ toBeBytes p.totalLogins

/-- The packet, and the block behind it when there is anything in it to send and it fits. -/
def encodeWith (json : ExtensionJson) (p : TrackPacket) (x : Extension) : List UInt8 :=
  let b := p.encode
  if x = .default then b
  else
    match json.toVec x with
    | none => b
    | some body =>
      if MAX_BEACON < b.length + EXTENSION_MAGIC.length + body.length then b
      else b ++ EXTENSION_MAGIC ++ body

/-- The block of a beacon that carries one. -/
def extension (json : ExtensionJson) (buf : List UInt8) : Option Extension := do
  let rest ← if PACKET_SIZE ≤ buf.length then some (buf.drop PACKET_SIZE) else none
  let body ← stripPrefix EXTENSION_MAGIC rest
  json.fromSlice body

def decode (buf : List UInt8) : Option (Option TrackPacket) :=
  if buf.length < PACKET_SIZE then some none
  else do
    let version ← beU16 buf 0
    if version ≠ PACKET_VERSION then return none
    else
      let serverPort ← beU16 buf 2
      let flags ← beU32 buf 4
      let (software, o) ← getStr buf 8 32
      let (version, o) ← getStr buf o 16
      let (platform, o) ← getStr buf o 32
      let (serverDesc, o) ← getStr buf o 64
      let (location, o) ← getStr buf o 64
      let (url, o) ← getStr buf o 96
      let (contactName, o) ← getStr buf o 64
      let (contactEmail, o) ← getStr buf o 64
      let activeUsers ← beU32 buf o
      let activeChannels ← beU32 buf (o + 4)
      let activeGames ← beU32 buf (o + 4 + 4)
      let uptime ← beU32 buf (o + 4 + 4 + 4)
      let totalGames ← beU32 buf (o + 4 + 4 + 4 + 4)
      let totalLogins ← beU32 buf (o + 4 + 4 + 4 + 4 + 4)
      return some ⟨serverPort, flags, software, version, platform, serverDesc, location, url,
        contactName, contactEmail, activeUsers, activeChannels, activeGames, uptime, totalGames,
        totalLogins⟩

end TrackPacket

/-! ## One field -/

/-- The longest prefix of whole characters that fits `n` bytes and has no NUL. -/
def fit : Nat → Text → Text
  | _, [] => []
  | n, c :: s =>
    if c = '\x00' then [] else if c.utf8Size ≤ n then c :: fit (n - c.utf8Size) s else []

/-- Up to byte `n` there are whole characters alone: the text ends, a NUL comes, or a character ends
there. -/
def EndsWhole (n : Nat) (s : Text) : Prop :=
  ∃ t u, s = t ++ u ∧ t.len ≤ n ∧ (u = [] ∨ u.head? = some '\x00' ∨ t.len = n)

theorem fit_prefix (n : Nat) (s : Text) : fit n s <+: s := by
  induction s generalizing n with
  | nil => simp [fit]
  | cons c s ih =>
    unfold fit
    split
    · simp
    · split
      · simpa using ih _
      · simp

theorem fit_spec (n : Nat) (s : Text) : (fit n s).len ≤ n ∧ '\x00' ∉ fit n s := by
  induction s generalizing n with
  | nil => simp [fit, Text.len]
  | cons c s ih =>
    unfold fit
    split
    · simp [Text.len]
    · rename_i hc
      split
      · rename_i hsize
        obtain ⟨hlen, hnul⟩ := ih (n - c.utf8Size)
        simp only [Text.len, List.map_cons, List.sum_cons, List.mem_cons, not_or] at hlen ⊢
        exact ⟨by omega, Ne.symm hc, hnul⟩
      · simp [Text.len]

theorem prefix_fit {n : Nat} {s t : Text} (h : t <+: s) (hlen : t.len ≤ n) (hnul : '\x00' ∉ t) :
    t <+: fit n s := by
  induction s generalizing n t with
  | nil =>
    rw [List.prefix_nil.mp h]
    exact List.nil_prefix
  | cons c s ih =>
    cases t with
    | nil => exact List.nil_prefix
    | cons d t =>
      obtain ⟨rfl, ht⟩ := List.cons_prefix_cons.mp h
      rw [List.mem_cons, not_or] at hnul
      simp only [Text.len, List.map_cons, List.sum_cons] at hlen
      rw [fit, if_neg (Ne.symm hnul.1), if_pos (by omega)]
      refine List.cons_prefix_cons.mpr ⟨rfl, ih ht ?_ hnul.2⟩
      simp only [Text.len]
      omega

theorem endsWhole_nil (n : Nat) : EndsWhole n [] := ⟨[], [], rfl, Nat.zero_le n, Or.inl rfl⟩

theorem endsWhole_cons {n : Nat} {c : Char} {s : Text} :
    EndsWhole n (c :: s) ↔
      c = '\x00' ∨ n = 0 ∨ c.utf8Size ≤ n ∧ EndsWhole (n - c.utf8Size) s := by
  have hsize : 0 < c.utf8Size := c.utf8Size_pos
  constructor
  · rintro ⟨t, u, hs, hlen, hu⟩
    cases t with
    | nil =>
      obtain rfl : c :: s = u := hs
      rcases hu with hu | hu | hu
      · cases hu
      · exact Or.inl (Option.some.inj hu)
      · exact Or.inr (Or.inl hu.symm)
    | cons d t =>
      obtain ⟨rfl, rfl⟩ := List.cons.inj hs
      simp only [Text.len, List.map_cons, List.sum_cons] at hlen hu
      refine Or.inr (Or.inr ⟨by omega, t, u, rfl, ?_, ?_⟩)
      · simp only [Text.len]
        omega
      · rcases hu with hu | hu | hu
        · exact Or.inl hu
        · exact Or.inr (Or.inl hu)
        · refine Or.inr (Or.inr ?_)
          simp only [Text.len]
          omega
  · rintro (rfl | rfl | ⟨hn, t, u, rfl, hlen, hu⟩)
    · exact ⟨[], _, rfl, Nat.zero_le n, Or.inr (Or.inl rfl)⟩
    · exact ⟨[], _, rfl, Nat.le_refl 0, Or.inr (Or.inr rfl)⟩
    · refine ⟨c :: t, u, rfl, ?_, ?_⟩
      · simp only [Text.len, List.map_cons, List.sum_cons] at hlen ⊢
        omega
      · rcases hu with hu | hu | hu
        · exact Or.inl hu
        · exact Or.inr (Or.inl hu)
        · refine Or.inr (Or.inr ?_)
          simp only [Text.len, List.map_cons, List.sum_cons] at hu ⊢
          omega

def field (s : Text) (n : Nat) : List UInt8 :=
  s.asBytes.take n ++ List.replicate (n - s.asBytes.length) 0

def received (n : Nat) (s : Text) : Text := Text.fromUtf8Lossy ((field s n).takeWhile (· != 0))

theorem putStr_eq (b : List UInt8) (s : Text) (n : Nat) : putStr b s n = b ++ field s n := by
  have htake : s.asBytes.take (min s.asBytes.length n) = s.asBytes.take n := by
    rw [Nat.min_comm, ← List.take_eq_take_min]
  have hpad : n - min s.asBytes.length n = n - s.asBytes.length := by omega
  simp only [putStr, htake, hpad, field, List.append_assoc]

theorem length_field (s : Text) (n : Nat) : (field s n).length = n := by
  rw [field, List.length_append, List.length_take, List.length_replicate]
  omega

theorem asBytes_cons (c : Char) (s : Text) :
    Text.asBytes (c :: s) = String.utf8EncodeChar c ++ Text.asBytes s := List.flatMap_cons

theorem encodeChar_ne_zero {c : Char} (hc : c ≠ '\x00') :
    ∀ b ∈ String.utf8EncodeChar c, b ≠ 0 := by
  have hval : c.val.toNat ≠ 0 := by
    intro h
    apply hc
    rw [← Text.ofNat_val c, h]
  have hbyte : ∀ m : Nat, m % 256 ≠ 0 → UInt8.ofNat m ≠ 0 := by
    intro m hm h
    apply hm
    rw [← UInt8.toNat_ofNat', h]
    rfl
  intro b hb
  rw [String.utf8EncodeChar] at hb
  split at hb
  · rw [List.mem_singleton.mp hb]
    exact hbyte _ (by omega)
  · split at hb
    · rcases List.mem_cons.mp hb with rfl | hb
      · exact hbyte _ (by omega)
      · rw [List.mem_singleton.mp hb]
        exact hbyte _ (by omega)
    · split at hb
      · simp only [List.mem_cons, List.not_mem_nil, or_false] at hb
        rcases hb with rfl | rfl | rfl <;> exact hbyte _ (by omega)
      · simp only [List.mem_cons, List.not_mem_nil, or_false] at hb
        rcases hb with rfl | rfl | rfl | rfl <;> exact hbyte _ (by omega)

theorem received_nil (n : Nat) : received n [] = [] := by
  have hzeros : field [] n = List.replicate n 0 := by simp [field, Text.asBytes]
  rw [received, hzeros]
  cases n <;> rfl

/-- A field of a text that begins with a character other than NUL. -/
theorem received_cons {c : Char} (hc : c ≠ '\x00') (n : Nat) (s : Text) :
    received n (c :: s) =
      if c.utf8Size ≤ n then c :: received (n - c.utf8Size) s
      else if n = 0 then [] else ['\uFFFD'] := by
  have hsize : (String.utf8EncodeChar c).length = c.utf8Size := String.length_utf8EncodeChar c
  have hne := encodeChar_ne_zero hc
  split
  · rename_i hn
    have hfield : field (c :: s) n = String.utf8EncodeChar c ++ field s (n - c.utf8Size) := by
      have hlength : n - (c.utf8Size + (Text.asBytes s).length) =
          n - c.utf8Size - (Text.asBytes s).length := by omega
      rw [field, field, asBytes_cons, List.take_append, hsize, List.length_append, hsize, hlength,
        List.take_of_length_le (by omega), List.append_assoc]
    have hwhile : (String.utf8EncodeChar c ++ field s (n - c.utf8Size)).takeWhile (· != 0) =
        String.utf8EncodeChar c ++ (field s (n - c.utf8Size)).takeWhile (· != 0) :=
      List.takeWhile_append_of_pos fun b hb => by simpa using hne b hb
    rw [received, hfield, hwhile, Text.fromUtf8Lossy, Text.decodeUtf8_encodeChar]
    rfl
  · rename_i hn
    have hfield : field (c :: s) n = (String.utf8EncodeChar c).take n := by
      have hpad : n - (c.utf8Size + (Text.asBytes s).length) = 0 := by omega
      rw [field, asBytes_cons, List.length_append, hsize, hpad,
        List.take_append_of_le_length (by omega)]
      simp
    have hwhile : ((String.utf8EncodeChar c).take n).takeWhile (· != 0) =
        (String.utf8EncodeChar c).take n :=
      List.takeWhile_eq_self_iff.mpr fun b hb => by simpa using hne b (List.mem_of_mem_take hb)
    rw [received, hfield, hwhile]
    split
    · rename_i hzero
      rw [hzero]
      rfl
    · rename_i hzero
      exact Text.fromUtf8Lossy_part c (by omega) (by omega)

theorem received_nul (n : Nat) (s : Text) : received n ('\x00' :: s) = [] := by
  have hbytes : Text.asBytes ('\x00' :: s) = 0 :: Text.asBytes s := rfl
  rw [received, field, hbytes]
  cases n with
  | zero => simp [Text.fromUtf8Lossy, Text.decodeUtf8]
  | succ n => rfl

/-- A text is read back, cut, just if its field ends with a whole character. -/
theorem received_eq_fit_iff (n : Nat) (s : Text) : received n s = fit n s ↔ EndsWhole n s := by
  induction s generalizing n with
  | nil => exact iff_of_true (received_nil n) (endsWhole_nil n)
  | cons c s ih =>
    rw [endsWhole_cons]
    by_cases hc : c = '\x00'
    · subst hc
      rw [received_nul]
      exact iff_of_true rfl (Or.inl rfl)
    · rw [received_cons hc, fit, if_neg hc]
      by_cases hn : c.utf8Size ≤ n
      · have hpos : n ≠ 0 := by
          have hsize : 0 < c.utf8Size := c.utf8Size_pos
          omega
        simp [hn, hc, hpos, ih]
      · simp [hn, hc]

/-! ## The packet -/

/-- What stands in a packet from an offset on. -/
def RestAt (buf : List UInt8) (off : Nat) (rest : List UInt8) : Prop :=
  off ≤ buf.length ∧ buf.drop off = rest

section Reading

variable {buf rest : List UInt8} {off : Nat}

theorem RestAt.skip {part : List UInt8} (h : RestAt buf off (part ++ rest)) :
    RestAt buf (off + part.length) rest := by
  obtain ⟨hoff, hdrop⟩ := h
  have hlength := congrArg List.length hdrop
  rw [List.length_drop, List.length_append] at hlength
  refine ⟨by omega, ?_⟩
  rw [← List.drop_drop, hdrop, List.drop_left]

theorem RestAt.getElem? (h : RestAt buf off rest) (i : Nat) : buf[off + i]? = rest[i]? := by
  rw [← h.2, List.getElem?_drop]

theorem RestAt.field {s : Text} {n : Nat} (h : RestAt buf off (field s n ++ rest)) :
    RestAt buf (off + n) rest := by
  have hskip := h.skip
  rwa [length_field] at hskip

theorem RestAt.word {v : UInt32} (h : RestAt buf off (toBeBytes v ++ rest)) : RestAt buf (off + 4) rest :=
  h.skip

theorem takeWhile_eq_take (raw : List UInt8) :
    raw.take ((raw.findIdx? (· == 0)).getD raw.length) = raw.takeWhile (· != 0) := by
  induction raw with
  | nil => rfl
  | cons b raw ih =>
    rw [List.findIdx?_cons, List.takeWhile_cons]
    by_cases hb : b = 0
    · simp [hb]
    · have hgetD : ((raw.findIdx? (· == 0)).map (· + 1)).getD (raw.length + 1) =
          (raw.findIdx? (· == 0)).getD raw.length + 1 := by
        cases raw.findIdx? (· == 0) <;> rfl
      simp [hb, hgetD, ih]

/-- A field is read, and the offset goes on behind it. -/
theorem RestAt.getStr {s : Text} {n : Nat} (h : RestAt buf off (Daemon.field s n ++ rest)) :
    getStr buf off n = some (received n s, off + n) := by
  have hend := h.field.1
  have hraw : (buf.take (off + n)).drop off = Daemon.field s n := by
    have hsub : off + n - off = n := by omega
    rw [List.drop_take, hsub, h.2, List.take_left' (length_field s n)]
  have hwhile := takeWhile_eq_take (Daemon.field s n)
  rw [length_field] at hwhile
  rw [Daemon.getStr, slice_eq (by omega) hend, hraw]
  exact congrArg (fun text => some (text, off + n)) (congrArg Text.fromUtf8Lossy hwhile)

theorem RestAt.beU32 {v : UInt32} (h : RestAt buf off (toBeBytes v ++ rest)) :
    beU32 buf off = some v := by
  have h0 := h.getElem? 0
  rw [Nat.add_zero] at h0
  rw [Daemon.beU32, h0, h.getElem? 1, h.getElem? 2, h.getElem? 3]
  exact congrArg some (fromBeBytes_toBeBytes v)

theorem RestAt.beU16 {v : UInt16} (h : RestAt buf off (toBeBytes16 v ++ rest)) :
    beU16 buf off = some v := by
  have h0 := h.getElem? 0
  rw [Nat.add_zero] at h0
  rw [Daemon.beU16, h0, h.getElem? 1]
  exact congrArg some (fromBeBytes16_toBeBytes16 v)

end Reading

namespace TrackPacket

/-- The texts of a packet, with the widths of their fields. -/
def texts (p : TrackPacket) : List (Text × Nat) :=
  [(p.software, 32), (p.version, 16), (p.platform, 32), (p.serverDesc, 64), (p.location, 64),
    (p.url, 96), (p.contactName, 64), (p.contactEmail, 64)]

/-- The packet with a text made of each text and the width of its field. -/
def withTexts (f : Nat → Text → Text) (p : TrackPacket) : TrackPacket :=
  { p with
    software := f 32 p.software
    version := f 16 p.version
    platform := f 32 p.platform
    serverDesc := f 64 p.serverDesc
    location := f 64 p.location
    url := f 96 p.url
    contactName := f 64 p.contactName
    contactEmail := f 64 p.contactEmail }

theorem withTexts_eq_iff {f g : Nat → Text → Text} {p : TrackPacket} :
    p.withTexts f = p.withTexts g ↔ ∀ t ∈ p.texts, f t.2 t.1 = g t.2 t.1 := by
  simp [withTexts, texts, mk.injEq]

theorem encode_eq (p : TrackPacket) :
    p.encode = toBeBytes16 PACKET_VERSION ++ (toBeBytes16 p.serverPort ++ (toBeBytes p.flags ++
      (field p.software 32 ++ (field p.version 16 ++ (field p.platform 32 ++
      (field p.serverDesc 64 ++ (field p.location 64 ++ (field p.url 96 ++
      (field p.contactName 64 ++ (field p.contactEmail 64 ++ (toBeBytes p.activeUsers ++
      (toBeBytes p.activeChannels ++ (toBeBytes p.activeGames ++ (toBeBytes p.uptime ++
      (toBeBytes p.totalGames ++ toBeBytes p.totalLogins))))))))))))))) := by
  simp only [encode, putStr_eq, List.append_assoc]

/-- A packet has one size. -/
theorem length_encode (p : TrackPacket) : p.encode.length = PACKET_SIZE := by
  simp [encode_eq, length_field, toBeBytes16, toBeBytes, PACKET_SIZE]

/-- A packet is read back with what is received of each text, whatever follows it. -/
theorem decode_encode_append (p : TrackPacket) (rest : List UInt8) :
    decode (p.encode ++ rest) = some (some (p.withTexts received)) := by
  have hlength : ¬ (p.encode ++ rest).length < PACKET_SIZE := by
    rw [List.length_append, length_encode]
    omega
  obtain ⟨buf, hbuf⟩ : ∃ buf, buf = p.encode ++ rest := ⟨_, rfl⟩
  have h0 : RestAt buf 0 (p.encode ++ rest) := ⟨Nat.zero_le _, hbuf⟩
  rw [encode_eq] at h0
  simp only [List.append_assoc] at h0
  have h2 : RestAt buf 2 _ := h0.skip
  have h4 : RestAt buf 4 _ := h2.skip
  have h8 : RestAt buf 8 _ := h4.word
  have h40 := h8.field
  have h56 := h40.field
  have h88 := h56.field
  have h152 := h88.field
  have h216 := h152.field
  have h312 := h216.field
  have h376 := h312.field
  have h440 := h376.field
  have h444 := h440.word
  have h448 := h444.word
  have h452 := h448.word
  have h456 := h452.word
  have h460 := h456.word
  rw [← hbuf] at hlength ⊢
  rw [decode, if_neg hlength]
  refine Option.bind_eq_some_iff.mpr ⟨_, h0.beU16, ?_⟩
  refine (if_neg (not_not_intro rfl)).trans ?_
  refine Option.bind_eq_some_iff.mpr ⟨_, h2.beU16, ?_⟩
  refine Option.bind_eq_some_iff.mpr ⟨_, h4.beU32, ?_⟩
  refine Option.bind_eq_some_iff.mpr ⟨_, h8.getStr, ?_⟩
  refine Option.bind_eq_some_iff.mpr ⟨_, h40.getStr, ?_⟩
  refine Option.bind_eq_some_iff.mpr ⟨_, h56.getStr, ?_⟩
  refine Option.bind_eq_some_iff.mpr ⟨_, h88.getStr, ?_⟩
  refine Option.bind_eq_some_iff.mpr ⟨_, h152.getStr, ?_⟩
  refine Option.bind_eq_some_iff.mpr ⟨_, h216.getStr, ?_⟩
  refine Option.bind_eq_some_iff.mpr ⟨_, h312.getStr, ?_⟩
  refine Option.bind_eq_some_iff.mpr ⟨_, h376.getStr, ?_⟩
  refine Option.bind_eq_some_iff.mpr ⟨_, h440.beU32, ?_⟩
  refine Option.bind_eq_some_iff.mpr ⟨_, h444.beU32, ?_⟩
  refine Option.bind_eq_some_iff.mpr ⟨_, h448.beU32, ?_⟩
  refine Option.bind_eq_some_iff.mpr ⟨_, h452.beU32, ?_⟩
  refine Option.bind_eq_some_iff.mpr ⟨_, h456.beU32, ?_⟩
  exact Option.bind_eq_some_iff.mpr ⟨_, h460.beU32, rfl⟩

theorem isSome_bind {α β : Type} {x : Option α} {a : α} {f : α → Option β} (h : x = some a)
    (hf : (f a).isSome) : (x.bind f).isSome := by
  rw [h]
  exact hf

/-- No bytes make the reader panic. -/
theorem decode_ne_none (buf : List UInt8) : decode buf ≠ none := by
  by_cases hlength : buf.length < PACKET_SIZE
  · simp [decode, hlength]
  · have hsize : 464 ≤ buf.length := Nat.le_of_not_lt hlength
    have hstr : ∀ off n, off + n ≤ 464 → ∃ s, getStr buf off n = some (s, off + n) := by
      intro off n h
      rw [getStr, slice_eq (by omega) (by omega)]
      exact ⟨_, rfl⟩
    have hbyte : ∀ o, o < 464 → ∃ b, buf[o]? = some b := by
      intro o ho
      exact ⟨_, List.getElem?_eq_getElem (by omega)⟩
    have hu32 : ∀ o, o + 3 < 464 → ∃ v, beU32 buf o = some v := by
      intro o ho
      obtain ⟨a, ha⟩ := hbyte o (by omega)
      obtain ⟨b, hb⟩ := hbyte (o + 1) (by omega)
      obtain ⟨c, hc⟩ := hbyte (o + 2) (by omega)
      obtain ⟨d, hd⟩ := hbyte (o + 3) (by omega)
      simp [beU32, ha, hb, hc, hd]
    have hu16 : ∀ o, o + 1 < 464 → ∃ v, beU16 buf o = some v := by
      intro o ho
      obtain ⟨a, ha⟩ := hbyte o (by omega)
      obtain ⟨b, hb⟩ := hbyte (o + 1) (by omega)
      simp [beU16, ha, hb]
    obtain ⟨version, h0⟩ := hu16 0 (by omega)
    obtain ⟨_, h2⟩ := hu16 2 (by omega)
    obtain ⟨_, h4⟩ := hu32 4 (by omega)
    obtain ⟨_, h8⟩ := hstr 8 32 (by omega)
    obtain ⟨_, h40⟩ := hstr (8 + 32) 16 (by omega)
    obtain ⟨_, h56⟩ := hstr (8 + 32 + 16) 32 (by omega)
    obtain ⟨_, h88⟩ := hstr (8 + 32 + 16 + 32) 64 (by omega)
    obtain ⟨_, h152⟩ := hstr (8 + 32 + 16 + 32 + 64) 64 (by omega)
    obtain ⟨_, h216⟩ := hstr (8 + 32 + 16 + 32 + 64 + 64) 96 (by omega)
    obtain ⟨_, h312⟩ := hstr (8 + 32 + 16 + 32 + 64 + 64 + 96) 64 (by omega)
    obtain ⟨_, h376⟩ := hstr (8 + 32 + 16 + 32 + 64 + 64 + 96 + 64) 64 (by omega)
    obtain ⟨_, h440⟩ := hu32 440 (by omega)
    obtain ⟨_, h444⟩ := hu32 444 (by omega)
    obtain ⟨_, h448⟩ := hu32 448 (by omega)
    obtain ⟨_, h452⟩ := hu32 452 (by omega)
    obtain ⟨_, h456⟩ := hu32 456 (by omega)
    obtain ⟨_, h460⟩ := hu32 460 (by omega)
    rw [decode, if_neg hlength, ← Option.isSome_iff_ne_none]
    refine isSome_bind h0 ?_
    by_cases hversion : version ≠ PACKET_VERSION
    · exact (congrArg Option.isSome (if_pos hversion)).trans rfl
    · refine (congrArg Option.isSome (if_neg hversion)).trans ?_
      refine isSome_bind h2 ?_
      refine isSome_bind h4 ?_
      refine isSome_bind h8 ?_
      refine isSome_bind h40 ?_
      refine isSome_bind h56 ?_
      refine isSome_bind h88 ?_
      refine isSome_bind h152 ?_
      refine isSome_bind h216 ?_
      refine isSome_bind h312 ?_
      refine isSome_bind h376 ?_
      refine isSome_bind h440 ?_
      refine isSome_bind h444 ?_
      refine isSome_bind h448 ?_
      refine isSome_bind h452 ?_
      refine isSome_bind h456 ?_
      exact isSome_bind h460 rfl

/-! ## The block behind it -/

section Block

variable (json : ExtensionJson)

def Fits (x : Extension) : Prop :=
  x ≠ .default ∧ ∀ body, json.toVec x = some body →
    PACKET_SIZE + EXTENSION_MAGIC.length + body.length ≤ MAX_BEACON

theorem encodeWith_of_fits {p : TrackPacket} {x : Extension} (h : Fits json x) :
    ∃ body, json.fromSlice body = some x ∧
      p.encodeWith json x = p.encode ++ (EXTENSION_MAGIC ++ body) ∧
      (p.encodeWith json x).length ≤ MAX_BEACON := by
  obtain ⟨body, hbody, hread⟩ := json.fromSlice_toVec x
  have hfits := h.2 body hbody
  have hencode : p.encodeWith json x = p.encode ++ (EXTENSION_MAGIC ++ body) := by
    simp only [encodeWith, if_neg h.1, hbody, length_encode, if_neg (Nat.not_lt.mpr hfits),
      List.append_assoc]
  refine ⟨body, hread, hencode, ?_⟩
  rw [hencode, List.length_append, List.length_append, length_encode]
  omega

theorem encodeWith_of_not_fits {p : TrackPacket} {x : Extension} (h : ¬ Fits json x) :
    p.encodeWith json x = p.encode := by
  unfold encodeWith
  by_cases hx : x = .default
  · simp only [if_pos hx]
  · obtain ⟨body, hbody, _⟩ := json.fromSlice_toVec x
    have hlarge : MAX_BEACON < p.encode.length + EXTENSION_MAGIC.length + body.length := by
      rw [length_encode]
      by_contra hsmall
      apply h
      refine ⟨hx, fun body' hbody' => ?_⟩
      rw [hbody] at hbody'
      cases hbody'
      omega
    simp only [if_neg hx, hbody, if_pos hlarge]

theorem extension_encode_append (p : TrackPacket) (rest : List UInt8) :
    extension json (p.encode ++ rest) =
      (stripPrefix EXTENSION_MAGIC rest).bind json.fromSlice := by
  have hlength : PACKET_SIZE ≤ (p.encode ++ rest).length := by
    rw [List.length_append, length_encode]
    omega
  have hdrop : (p.encode ++ rest).drop PACKET_SIZE = rest := List.drop_left' p.length_encode
  rw [extension, if_pos hlength, hdrop]
  rfl

open Classical in
/-- A beacon says what the server said. -/
structure Says (p : TrackPacket) (x : Extension) : Prop where
  size : p.encode.length = PACKET_SIZE
  reads : decode p.encode = some (some (p.withTexts fit))
  undisturbed : p.encode <+: p.encodeWith json x
  bounded : (p.encodeWith json x).length ≤ MAX_BEACON
  block : extension json (p.encodeWith json x) = if Fits json x then some x else none
  total : ∀ buf, decode buf ≠ none

/-- A beacon says what the server said just if every text ends with a whole character, or with a
NUL, within its field. -/
theorem beacon_iff (p : TrackPacket) (x : Extension) :
    Says json p x ↔ ∀ t ∈ p.texts, EndsWhole t.2 t.1 := by
  have hreads : decode p.encode = some (some (p.withTexts fit)) ↔
      ∀ t ∈ p.texts, EndsWhole t.2 t.1 := by
    have hdecode := p.decode_encode_append []
    rw [List.append_nil] at hdecode
    rw [hdecode, Option.some_inj, Option.some_inj, withTexts_eq_iff]
    exact forall₂_congr fun t _ => received_eq_fit_iff t.2 t.1
  rw [← hreads]
  constructor
  · exact Says.reads
  · intro h
    by_cases hfits : Fits json x
    · obtain ⟨body, hread, hencode, hlength⟩ := p.encodeWith_of_fits json hfits
      refine ⟨p.length_encode, h, hencode ▸ List.prefix_append _ _, hlength, ?_, decode_ne_none⟩
      rw [hencode, extension_encode_append, if_pos hfits, stripPrefix_eq_some.mpr rfl]
      exact hread
    · have hencode := p.encodeWith_of_not_fits json hfits
      refine ⟨p.length_encode, h, hencode ▸ List.prefix_refl _, ?_, ?_, decode_ne_none⟩
      · rw [hencode, length_encode]
        decide
      · have hnone := extension_encode_append json p []
        rw [List.append_nil] at hnone
        rw [hencode, hnone, if_neg hfits]
        rfl

end Block

/-- Characters of two bytes do not fill a field of odd width. -/
theorem not_endsWhole_accents (k : Nat) : ¬ EndsWhole (2 * k + 1) (List.replicate (k + 1) 'é') := by
  have hsize : 'é'.utf8Size = 2 := rfl
  have hnul : 'é' ≠ '\x00' := by decide
  induction k with
  | zero =>
    intro h
    rw [List.replicate_succ, endsWhole_cons, hsize] at h
    rcases h with h | h | ⟨h, _⟩
    · exact hnul h
    · omega
    · omega
  | succ k ih =>
    intro h
    rw [List.replicate_succ, endsWhole_cons, hsize] at h
    rcases h with h | h | ⟨_, h⟩
    · exact hnul h
    · omega
    · have hrest : 2 * (k + 1) + 1 - 2 = 2 * k + 1 := by omega
      rw [hrest] at h
      exact ih h

/-- A server whose place takes 65 bytes, the last two of them one character. -/
def accented : TrackPacket where
  serverPort := 6112
  flags := 0
  software := []
  version := []
  platform := []
  serverDesc := []
  location := 'a' :: List.replicate 32 'é'
  url := []
  contactName := []
  contactEmail := []
  activeUsers := 0
  activeChannels := 0
  activeGames := 0
  uptime := 0
  totalGames := 0
  totalLogins := 0

theorem not_endsWhole_accented : ¬ EndsWhole 64 accented.location := by
  have hsize : 'a'.utf8Size = 1 := rfl
  rw [accented, endsWhole_cons, hsize]
  rintro (h | h | ⟨_, h⟩)
  · exact absurd h (by decide)
  · omega
  · exact not_endsWhole_accents 31 h

/-- Its beacon says another place, one that ends with a replacement character. -/
theorem not_says_accented :
    decode accented.encode ≠ some (some (accented.withTexts fit)) ∧
      ¬ ∀ json p x, Says json p x := by
  have hreads : decode accented.encode ≠ some (some (accented.withTexts fit)) := by
    have hdecode := accented.decode_encode_append []
    rw [List.append_nil] at hdecode
    rw [hdecode]
    intro h
    have hplace : received 64 accented.location = fit 64 accented.location :=
      congrArg location (Option.some.inj (Option.some.inj h))
    rw [received_eq_fit_iff] at hplace
    exact not_endsWhole_accented hplace
  refine ⟨hreads, fun h => ?_⟩
  obtain ⟨json, _⟩ := exists_extensionJson
  exact hreads (h json accented .default).reads

/-- A server whose place is short enough. -/
def skane : TrackPacket := { accented with software := "bnetccd".toList, location := "Skåne".toList }

/-- The block goes with its beacon, and is read back from it. -/
theorem beacon_europe : ∃ json : ExtensionJson, json.toVec europe = some europeJson ∧
    Fits json europe ∧ Says json skane europe ∧
      extension json (skane.encodeWith json europe) = some europe ∧
        ¬ Says json accented europe := by
  obtain ⟨json, hjson⟩ := exists_extensionJson
  have hfits : Fits json europe := by
    refine ⟨by decide, fun body hbody => ?_⟩
    obtain rfl : europeJson = body := Option.some.inj (hjson.symm.trans hbody)
    decide
  have hshort : ∀ t ∈ skane.texts, t.1.len ≤ t.2 := by decide
  have hsays : Says json skane europe := (beacon_iff json skane europe).mpr fun t ht =>
    ⟨t.1, [], (List.append_nil _).symm, hshort t ht, Or.inl rfl⟩
  refine ⟨json, hjson, hfits, hsays, hsays.block.trans (if_pos hfits), fun h => ?_⟩
  have hplace := (beacon_iff json accented europe).mp h (accented.location, 64) (by simp [texts])
  exact not_endsWhole_accented hplace

end TrackPacket

end CommandCenter.Daemon
