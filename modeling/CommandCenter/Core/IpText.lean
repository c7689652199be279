import CommandCenter.Core.Admission

/-!
# Addresses as text

`Display` of `std::net::IpAddr`, by which a table whose keys have to be strings is keyed. Every
address is written as parts between colons, and the parts are read back: a run of zeros that is
left out is as long as it must be to make eight segments.

* `IpAddr.toText_eq`: the parts of an address.
* `IpAddr.segmentsOf_parts`: reading them back.
* `IpAddr.toText_injective`: no two addresses have one text.
-/

namespace CommandCenter.Core

open Rust

/-! ## Digits -/

/-- The last `width` digits in a base, the highest first. -/
def bigEndian (base : Nat) : Nat → Nat → List Nat
  | 0, _ => []
  | width + 1, n => bigEndian base width (n / base) ++ [n % base]

theorem length_bigEndian (base width n : Nat) : (bigEndian base width n).length = width := by
  induction width generalizing n with
  | zero => rfl
  | succ width ih => rw [bigEndian, List.length_append, ih, List.length_singleton]

theorem bigEndian_injective {base width m n : Nat} (hm : m < base ^ width) (hn : n < base ^ width)
    (h : bigEndian base width m = bigEndian base width n) : m = n := by
  induction width generalizing m n with
  | zero =>
    rw [Nat.pow_zero] at hm hn
    omega
  | succ width ih =>
    have hparts := List.append_inj h (by rw [length_bigEndian, length_bigEndian])
    have hdiv := ih (Nat.div_lt_of_lt_mul (by rwa [Nat.pow_succ'] at hm))
      (Nat.div_lt_of_lt_mul (by rwa [Nat.pow_succ'] at hn)) hparts.1
    have hmod := List.cons.inj hparts.2
    rw [← Nat.div_add_mod m base, ← Nat.div_add_mod n base, hdiv, hmod.1]

/-- The value of a hexadecimal digit. -/
def hexValue (c : Char) : Nat := if c.isDigit then c.toNat - '0'.toNat else c.toNat - 'a'.toNat + 10

/-- The value of hexadecimal digits. -/
def ofHex (text : Text) : Nat := text.foldl (fun n c => 16 * n + hexValue c) 0

theorem hexValue_digitChar : ∀ d < 16, hexValue (Nat.digitChar d) = d := by decide

theorem toDigits_sixteen (n : Nat) :
    (∀ c ∈ Nat.toDigits 16 n, ∃ d < 16, c = Nat.digitChar d) ∧ ofHex (Nat.toDigits 16 n) = n := by
  induction n using Nat.strongRecOn with
  | ind n ih =>
    rw [Nat.toDigits_eq_if (by decide)]
    split
    · rename_i hlt
      refine ⟨fun c hc => ⟨n, hlt, List.mem_singleton.mp hc⟩, ?_⟩
      exact (Nat.zero_add _).trans (hexValue_digitChar n hlt)
    · rename_i hle
      obtain ⟨hdigits, hvalue⟩ := ih (n / 16) (by omega)
      have hlast : n % 16 < 16 := Nat.mod_lt n (by decide)
      constructor
      · intro c hc
        rcases List.mem_append.mp hc with hc | hc
        · exact hdigits c hc
        · exact ⟨n % 16, hlast, List.mem_singleton.mp hc⟩
      · rw [ofHex, List.foldl_append]
        change 16 * ofHex (Nat.toDigits 16 (n / 16)) + hexValue (Nat.digitChar (n % 16)) = n
        rw [hvalue, hexValue_digitChar _ hlast]
        omega

namespace IpAddr

/-! ## The texts -/

/-- `Ipv4Addr::octets`. -/
def octets (addr : UInt32) : List Nat := bigEndian 256 4 addr.toNat

/-- `Ipv6Addr::segments`. -/
def segments (addr : BitVec 128) : List Nat := bigEndian 65536 8 addr.toNat

/-- `Display` of `Ipv4Addr`. -/
def textV4 (addr : UInt32) : Text := ['.'].intercalate ((octets addr).map (Nat.toDigits 10))

/-- `Ipv6Addr::to_ipv4_mapped`. -/
def toIpv4Mapped (addr : BitVec 128) : Option UInt32 :=
  if addr.toNat / 2 ^ 32 = 0xFFFF then some (.ofNat (addr.toNat % 2 ^ 32)) else none

structure Span where
  start : Nat
  len : Nat

/-- The longest run of zeros, the first of them if they are several, and the run at the end. -/
def spans (segments : List Nat) : Span × Span :=
  segments.zipIdx.foldl (fun found segment =>
    if segment.1 = 0 then
      let current : Span :=
        ⟨if found.2.len = 0 then segment.2 else found.2.start, found.2.len + 1⟩
      (if found.1.len < current.len then current else found.1, current)
    else (found.1, ⟨0, 0⟩)) (⟨0, 0⟩, ⟨0, 0⟩)

def zeroes (segments : List Nat) : Span := (spans segments).1

/-- Segments with colons between them. -/
def fmtSubslice (segments : List Nat) : Text := [':'].intercalate (segments.map (Nat.toDigits 16))

/-- `Display` of `Ipv6Addr`. -/
def textV6 (addr : BitVec 128) : Text :=
  match toIpv4Mapped addr with
  | some ipv4 => "::ffff:".toList ++ textV4 ipv4
  | none =>
    let span := zeroes (segments addr)
    if 1 < span.len then
      fmtSubslice ((segments addr).take span.start) ++ "::".toList ++
        fmtSubslice ((segments addr).drop (span.start + span.len))
    else fmtSubslice (segments addr)

/-- `IpAddr::to_string`. -/
def toText : IpAddr → Text
  | v4 addr => textV4 addr
  | v6 addr => textV6 addr

/-! ## A run of zeros -/

/-- The run is in the list, and it is of zeros. -/
def Span.Zeros (span : Span) (segments : List Nat) : Prop :=
  ∃ before after, segments = before ++ List.replicate span.len 0 ++ after ∧
    before.length = span.start

theorem spans_append (segments : List Nat) (segment : Nat) :
    spans (segments ++ [segment]) =
      if segment = 0 then
        let current : Span := ⟨if (spans segments).2.len = 0 then segments.length
          else (spans segments).2.start, (spans segments).2.len + 1⟩
        (if (spans segments).1.len < current.len then current else (spans segments).1, current)
      else ((spans segments).1, ⟨0, 0⟩) := by
  unfold spans
  rw [List.zipIdx_append, List.foldl_append]
  simp

theorem zeros_spans (segments : List Nat) :
    (spans segments).1.Zeros segments ∧ ((spans segments).2.len ≠ 0 →
      ∃ before, segments = before ++ List.replicate (spans segments).2.len 0 ∧
        before.length = (spans segments).2.start) := by
  induction segments using List.reverseRecOn with
  | nil => exact ⟨⟨[], [], rfl, rfl⟩, fun hne => absurd rfl hne⟩
  | append_singleton segments segment ih =>
    obtain ⟨⟨before, after, hlist, hstart⟩, hcurrent⟩ := ih
    have hlonger : (spans segments).1.Zeros (segments ++ [segment]) := by
      refine ⟨before, after ++ [segment], ?_, hstart⟩
      rw [← List.append_assoc, ← hlist]
    rw [spans_append]
    split
    · rename_i hzero
      have hrun : ∃ before, segments ++ [segment] =
          before ++ List.replicate ((spans segments).2.len + 1) 0 ∧ before.length =
            if (spans segments).2.len = 0 then segments.length
              else (spans segments).2.start := by
        split
        · rename_i hempty
          exact ⟨segments, by rw [hempty, hzero]; rfl, rfl⟩
        · rename_i hne
          obtain ⟨before, hlist, hstart⟩ := hcurrent hne
          refine ⟨before, ?_, hstart⟩
          rw [List.replicate_succ', ← List.append_assoc, ← hlist, hzero]
      refine ⟨?_, fun _ => hrun⟩
      dsimp only
      split
      · obtain ⟨before, hlist, hstart⟩ := hrun
        exact ⟨before, [], by rw [List.append_nil]; exact hlist, hstart⟩
      · exact hlonger
    · exact ⟨hlonger, fun hne => absurd rfl hne⟩

theorem Span.Zeros.split {span : Span} {segments : List Nat} (h : span.Zeros segments) :
    segments = segments.take span.start ++ List.replicate span.len 0 ++
      segments.drop (span.start + span.len) := by
  obtain ⟨before, after, rfl, hstart⟩ := h
  have htake : (before ++ List.replicate span.len 0 ++ after).take span.start = before := by
    rw [← hstart, List.append_assoc, List.take_left]
  have hdrop : (before ++ List.replicate span.len 0 ++ after).drop (span.start + span.len) =
      after := by
    have hlength : (before ++ List.replicate span.len 0).length = span.start + span.len := by
      rw [List.length_append, List.length_replicate, hstart]
    rw [← hlength, List.drop_left]
  rw [htake, hdrop]

/-! ## The parts of an address -/

/-- The parts before or after a run that is left out: a single empty one if there are none. -/
def outer (segments : List Nat) : List Text :=
  if segments = [] then [[]] else segments.map (Nat.toDigits 16)

/-- What stands between the colons. -/
def parts : IpAddr → List Text
  | v4 addr => [textV4 addr]
  | v6 addr =>
    match toIpv4Mapped addr with
    | some ipv4 => [[], [], "ffff".toList, textV4 ipv4]
    | none =>
      let span := zeroes (segments addr)
      if 1 < span.len then
        outer ((segments addr).take span.start) ++ [] ::
          outer ((segments addr).drop (span.start + span.len))
      else (segments addr).map (Nat.toDigits 16)

theorem fmtSubslice_eq (segments : List Nat) :
    fmtSubslice segments = [':'].intercalate (outer segments) := by
  unfold fmtSubslice outer
  split
  · rename_i hnil
    rw [hnil]
    rfl
  · rfl

theorem outer_ne_nil (segments : List Nat) : outer segments ≠ [] := by
  unfold outer
  split
  · exact List.cons_ne_nil _ _
  · rename_i hne
    exact fun h => hne (List.map_eq_nil_iff.mp h)

/-- Lists of parts with a colon between them. -/
theorem intercalate_append {before after : List Text} (hbefore : before ≠ [])
    (hafter : after ≠ []) :
    [':'].intercalate (before ++ after) =
      [':'].intercalate before ++ ':' :: [':'].intercalate after := by
  induction before with
  | nil => exact absurd rfl hbefore
  | cons part rest ih =>
    cases rest with
    | nil =>
      rw [List.singleton_append, List.intercalate_cons_of_ne_nil hafter,
        List.intercalate_singleton, List.append_assoc]
      rfl
    | cons next rest =>
      have hrest := ih (List.cons_ne_nil next rest)
      rw [List.cons_append, List.intercalate_cons_of_ne_nil (by simp), hrest,
        List.intercalate_cons_of_ne_nil (List.cons_ne_nil next rest)]
      simp

theorem toText_eq (ip : IpAddr) : ip.toText = [':'].intercalate ip.parts := by
  cases ip with
  | v4 addr => exact (List.intercalate_singleton).symm
  | v6 addr =>
    rw [toText, textV6, parts]
    split
    · rw [List.intercalate_cons_cons, List.intercalate_cons_cons, List.intercalate_cons_cons,
        List.intercalate_singleton]
      rfl
    · dsimp only
      split
      · rw [intercalate_append (outer_ne_nil _) (List.cons_ne_nil _ _),
          List.intercalate_cons_of_ne_nil (outer_ne_nil _), fmtSubslice_eq, fmtSubslice_eq]
        simp
      · rfl

theorem isDigit_of_mem_octet {addr : UInt32} {text : Text}
    (h : text ∈ (octets addr).map (Nat.toDigits 10)) {c : Char} (hc : c ∈ text) :
    c.isDigit = true := by
  obtain ⟨n, -, rfl⟩ := List.mem_map.mp h
  exact isDigit_of_mem_digits hc

theorem mem_textV4 {addr : UInt32} {c : Char} (h : c ∈ textV4 addr) :
    c.isDigit = true ∨ c = '.' := by
  rcases mem_intercalate h with hdot | ⟨part, hpart, hc⟩
  · exact .inr hdot
  · exact .inl (isDigit_of_mem_octet hpart hc)

theorem dot_mem_textV4 (addr : UInt32) : '.' ∈ textV4 addr := by
  have hoctets : octets addr = [addr.toNat / 256 / 256 / 256 % 256, addr.toNat / 256 / 256 % 256,
    addr.toNat / 256 % 256, addr.toNat % 256] := rfl
  rw [textV4, hoctets, List.map_cons, List.map_cons, List.intercalate_cons_cons]
  simp

theorem mem_outer {segments : List Nat} {part : Text} (h : part ∈ outer segments) {c : Char}
    (hc : c ∈ part) : ∃ d < 16, c = Nat.digitChar d := by
  unfold outer at h
  split at h
  · rw [List.mem_singleton.mp h] at hc
    cases hc
  · obtain ⟨n, -, rfl⟩ := List.mem_map.mp h
    exact (toDigits_sixteen n).1 c hc

/-! ## Reading the parts back -/

/-- The segments that parts stand for. -/
def segmentsOf (parts : List Text) : List Nat :=
  if [] ∈ parts then
    let before := parts.takeWhile (· ≠ [])
    let after := (parts.reverse.takeWhile (· ≠ [])).reverse
    before.map ofHex ++ List.replicate (8 - before.length - after.length) 0 ++ after.map ofHex
  else parts.map ofHex

theorem takeWhile_outer (segments : List Nat) (rest : List Text) :
    (outer segments ++ [] :: rest).takeWhile (· ≠ []) = segments.map (Nat.toDigits 16) := by
  unfold outer
  split
  · rename_i hnil
    rw [hnil]
    simp
  · rw [List.takeWhile_append_of_pos]
    · simp
    · intro part hpart
      obtain ⟨n, -, rfl⟩ := List.mem_map.mp hpart
      simp [Nat.toDigits_ne_nil]

theorem outer_reverse (segments : List Nat) :
    (outer segments).reverse = outer segments.reverse := by
  unfold outer
  by_cases hnil : segments = []
  · rw [hnil]
    rfl
  · rw [if_neg hnil, if_neg (by simpa using hnil), List.map_reverse]

theorem map_ofHex (segments : List Nat) :
    (segments.map (Nat.toDigits 16)).map ofHex = segments := by
  rw [List.map_map]
  exact (List.map_congr_left fun n _ => (toDigits_sixteen n).2).trans (List.map_id segments)

/-- What is left out is as long as it must be. -/
theorem segmentsOf_outer (before after : List Nat) :
    segmentsOf (outer before ++ [] :: outer after) =
      before ++ List.replicate (8 - before.length - after.length) 0 ++ after := by
  have hreverse : (outer before ++ [] :: outer after).reverse =
      outer after.reverse ++ [] :: outer before.reverse := by
    rw [List.reverse_append, List.reverse_cons, outer_reverse, outer_reverse, List.append_assoc]
    rfl
  rw [segmentsOf, if_pos (by simp), hreverse, takeWhile_outer, takeWhile_outer]
  dsimp only
  rw [map_ofHex, ← List.map_reverse, List.reverse_reverse, map_ofHex, List.length_map,
    List.length_map]

theorem segmentsOf_parts {addr : BitVec 128} (h : toIpv4Mapped addr = none) :
    segmentsOf (v6 addr).parts = segments addr := by
  have hlength : (segments addr).length = 8 := length_bigEndian _ _ _
  rw [parts, h]
  dsimp only
  split
  · have hsplit := ((zeros_spans (segments addr)).1).split
    rw [← zeroes] at hsplit
    have hlengths := congrArg List.length hsplit
    rw [List.length_append, List.length_append, List.length_replicate, hlength] at hlengths
    have hrun : 8 - ((segments addr).take (zeroes (segments addr)).start).length -
        ((segments addr).drop ((zeroes (segments addr)).start +
          (zeroes (segments addr)).len)).length = (zeroes (segments addr)).len := by
      omega
    rw [segmentsOf_outer, hrun]
    exact hsplit.symm
  · rw [segmentsOf, if_neg, map_ofHex]
    intro hmem
    obtain ⟨n, -, hn⟩ := List.mem_map.mp hmem
    exact Nat.toDigits_ne_nil hn

theorem segments_injective : Function.Injective segments := by
  intro a b h
  have hnat := bigEndian_injective (a.isLt.trans_eq (by decide)) (b.isLt.trans_eq (by decide)) h
  exact BitVec.eq_of_toNat_eq hnat

theorem octets_injective : Function.Injective octets := by
  intro a b h
  have hnat := bigEndian_injective (a.toNat_lt.trans_eq (by decide))
    (b.toNat_lt.trans_eq (by decide)) h
  exact UInt32.toNat_inj.mp hnat

theorem textV4_injective : Function.Injective textV4 := by
  intro a b h
  have hsplit {addr : UInt32} :
      (textV4 addr).splitOn '.' = (octets addr).map (Nat.toDigits 10) := by
    apply List.splitOn_intercalate
    · intro part hpart hdot
      exact absurd (isDigit_of_mem_octet hpart hdot) (by decide)
    · intro hnil
      have hlength := congrArg List.length (List.map_eq_nil_iff.mp hnil)
      rw [octets, length_bigEndian] at hlength
      cases hlength
  have hoctets : (octets a).map (Nat.toDigits 10) = (octets b).map (Nat.toDigits 10) := by
    rw [← hsplit, ← hsplit, h]
  exact octets_injective (List.map_injective_iff.mpr toDigits_injective hoctets)

theorem toIpv4Mapped_inj {a b : BitVec 128} {ipv4 : UInt32} (ha : toIpv4Mapped a = some ipv4)
    (hb : toIpv4Mapped b = some ipv4) : a = b := by
  have hparts {addr : BitVec 128} (h : toIpv4Mapped addr = some ipv4) :
      addr.toNat = 0xFFFF * 2 ^ 32 + ipv4.toNat := by
    unfold toIpv4Mapped at h
    split at h
    · rename_i hmapped
      rw [← Option.some.inj h, UInt32.toNat_ofNat']
      omega
    · cases h
  exact BitVec.eq_of_toNat_eq ((hparts ha).trans (hparts hb).symm)

/-! ## No two addresses have one text -/

theorem mem_parts {addr : BitVec 128} (h : toIpv4Mapped addr = none) {part : Text}
    (hpart : part ∈ (v6 addr).parts) {c : Char} (hc : c ∈ part) :
    ∃ d < 16, c = Nat.digitChar d := by
  rw [parts, h] at hpart
  dsimp only at hpart
  split at hpart
  · rw [List.mem_append, List.mem_cons] at hpart
    rcases hpart with hbefore | rfl | hafter
    · exact mem_outer hbefore hc
    · cases hc
    · exact mem_outer hafter hc
  · obtain ⟨n, -, rfl⟩ := List.mem_map.mp hpart
    exact (toDigits_sixteen n).1 c hc

theorem notMem_textV4 (addr : UInt32) : ':' ∉ textV4 addr := by
  intro hmem
  rcases mem_textV4 hmem with hdigit | hdot
  · exact absurd hdigit (by decide)
  · exact absurd hdot (by decide)

theorem notMem_parts (ip : IpAddr) : ∀ part ∈ ip.parts, ':' ∉ part := by
  intro part hpart
  cases ip with
  | v4 addr =>
    rw [List.mem_singleton.mp hpart]
    exact notMem_textV4 addr
  | v6 addr =>
    cases hmapped : toIpv4Mapped addr with
    | some ipv4 =>
      rw [parts, hmapped] at hpart
      simp only [List.mem_cons, List.not_mem_nil, or_false] at hpart
      rcases hpart with rfl | rfl | rfl | rfl
      · exact List.not_mem_nil
      · exact List.not_mem_nil
      · decide
      · exact notMem_textV4 ipv4
    | none =>
      intro hcolon
      obtain ⟨d, hd, hdigit⟩ := mem_parts hmapped hpart hcolon
      have hnot : ∀ d < 16, ':' ≠ Nat.digitChar d := by decide
      exact hnot d hd hdigit

theorem one_lt_length_parts (addr : BitVec 128) : 1 < (v6 addr).parts.length := by
  have hlength : (segments addr).length = 8 := length_bigEndian _ _ _
  rw [parts]
  split
  · exact Nat.succ_lt_succ (Nat.succ_pos _)
  · dsimp only
    split
    · have hbefore := List.length_pos_of_ne_nil
        (outer_ne_nil ((segments addr).take (zeroes (segments addr)).start))
      rw [List.length_append, List.length_cons]
      omega
    · rw [List.length_map, hlength]
      decide

theorem mem_parts_mapped {addr : BitVec 128} {ipv4 : UInt32}
    (h : toIpv4Mapped addr = some ipv4) : textV4 ipv4 ∈ (v6 addr).parts := by
  rw [parts, h]
  simp

theorem parts_ne_of_mapped {a b : BitVec 128} {ipv4 : UInt32} (ha : toIpv4Mapped a = some ipv4)
    (hb : toIpv4Mapped b = none) : (v6 a).parts ≠ (v6 b).parts := by
  intro h
  have hmem := mem_parts_mapped ha
  rw [h] at hmem
  obtain ⟨d, hd, hdigit⟩ := mem_parts hb hmem (dot_mem_textV4 ipv4)
  have hnot : ∀ d < 16, '.' ≠ Nat.digitChar d := by decide
  exact hnot d hd hdigit

theorem partsV6_injective {a b : BitVec 128} (h : (v6 a).parts = (v6 b).parts) : a = b := by
  cases ha : toIpv4Mapped a with
  | some ipv4 =>
    cases hb : toIpv4Mapped b with
    | some other =>
      rw [parts, ha, parts, hb] at h
      have htext : textV4 ipv4 = textV4 other := by simpa using h
      rw [textV4_injective htext] at ha
      exact toIpv4Mapped_inj ha hb
    | none => exact absurd h (parts_ne_of_mapped ha hb)
  | none =>
    cases hb : toIpv4Mapped b with
    | some other => exact absurd h.symm (parts_ne_of_mapped hb ha)
    | none =>
      apply segments_injective
      rw [← segmentsOf_parts ha, ← segmentsOf_parts hb, h]

theorem parts_injective : Function.Injective parts := by
  intro a b h
  cases a with
  | v4 a =>
    cases b with
    | v4 b => exact congrArg v4 (textV4_injective (List.cons.inj h).1)
    | v6 b =>
      have hlength := one_lt_length_parts b
      rw [← h] at hlength
      exact absurd hlength (by decide : ¬ 1 < 1)
  | v6 a =>
    cases b with
    | v4 b =>
      have hlength := one_lt_length_parts a
      rw [h] at hlength
      exact absurd hlength (by decide : ¬ 1 < 1)
    | v6 b => exact congrArg v6 (partsV6_injective h)

theorem toText_injective : Function.Injective toText := by
  intro a b h
  have hsplit (ip : IpAddr) : ip.toText.splitOn ':' = ip.parts := by
    rw [toText_eq]
    apply List.splitOn_intercalate
    · exact ip.notMem_parts
    · intro hnil
      cases ip with
      | v4 addr => cases hnil
      | v6 addr =>
        have hlength := one_lt_length_parts addr
        rw [hnil] at hlength
        cases hlength
  apply parts_injective
  rw [← hsplit, ← hsplit, h]

end IpAddr

end CommandCenter.Core
