import CommandCenter.Formats.Zip

/-!
# Bundles are read back

What the writer makes of some entries is first laid out: their records one after another, then the
directory with the place of each. Every part is read as it was written, wherever it lies.

* `store_eq`: the layout.
* `unzip_store`: the entries are found again.
-/

namespace CommandCenter.Formats.Zip

open Rust Library ZipReader

/-! ## The layout -/

section Layout

def Entry.header (e : Entry) : Header where
  version := 20
  flags := 0
  method := 0
  time := 0
  date := DOS_DATE
  crc := (crc32 e.data).toNat
  packed := e.data.length
  size := e.data.length
  name := e.bytes.length
  extra := 0

def Entry.common (e : Entry) : List UInt8 := Zip.common (crc32 e.data) e.data.length e.bytes.length

def Entry.record (e : Entry) : List UInt8 := leBytes 4 0x04034B50 ++ e.common ++ e.bytes ++ e.data

/-- The entry of the directory for an entry that lies somewhere. -/
def centralRecord (placed : Nat × Entry) : List UInt8 :=
  leBytes 4 0x02014B50 ++ leBytes 2 20 ++ placed.2.common ++ leBytes 2 0 ++ leBytes 2 0 ++
    leBytes 2 0 ++ leBytes 4 0 ++ leBytes 4 placed.1 ++ placed.2.bytes

/-- The entries with their places, from a place on. -/
def placed : (offset : Nat) → List Entry → List (Nat × Entry)
  | _, [] => []
  | offset, e :: entries => (offset, e) :: placed (offset + e.record.length) entries

def locals (entries : List Entry) : List UInt8 := entries.flatMap Entry.record

def directory (offset : Nat) (entries : List Entry) : List UInt8 :=
  (placed offset entries).flatMap centralRecord

def endRecord (count size offset : Nat) : List UInt8 :=
  leBytes 4 0x06054B50 ++ leBytes 2 0 ++ leBytes 2 0 ++ leBytes 2 count ++ leBytes 2 count ++
    leBytes 4 size ++ leBytes 4 offset ++ leBytes 2 0

theorem length_common (e : Entry) : e.common.length = 26 := by
  simp [Entry.common, common]

theorem length_record (e : Entry) : e.record.length = 30 + e.bytes.length + e.data.length := by
  simp only [Entry.record, List.length_append, length_leBytes, length_common]

theorem length_endRecord (count size offset : Nat) : (endRecord count size offset).length = 22 := by
  simp only [endRecord, List.length_append, length_leBytes]

theorem length_placed (offset : Nat) (entries : List Entry) :
    (placed offset entries).length = entries.length := by
  induction entries generalizing offset with
  | nil => rfl
  | cons e entries ih => rw [placed, List.length_cons, List.length_cons, ih]

def bundleLength (entries : List Entry) : Nat :=
  (locals entries).length + (directory 0 entries).length + 22

theorem foldlM_storeEntry {entries : List Entry} (hnames : ∀ e ∈ entries, e.bytes.length < 2 ^ 16)
    {s : Streams} (hsize : s.out.length + (locals entries).length < 2 ^ 32) :
    entries.foldlM storeEntry s =
      some ⟨s.out ++ locals entries, s.central ++ directory s.out.length entries⟩ := by
  induction entries generalizing s with
  | nil =>
    show some s = _
    rw [locals, directory, placed, List.flatMap_nil, List.flatMap_nil, List.append_nil,
      List.append_nil]
  | cons e entries ih =>
    rw [List.forall_mem_cons] at hnames
    have hlocals : locals (e :: entries) = e.record ++ locals entries := List.flatMap_cons
    rw [hlocals, List.length_append, length_record] at hsize
    have hentry : storeEntry s e =
        some ⟨s.out ++ e.record, s.central ++ centralRecord (s.out.length, e)⟩ := by
      unfold storeEntry
      rw [u32_eq (by omega), u32_eq (by omega), u16_eq hnames.1]
      simp only [Entry.record, centralRecord, Entry.common, List.append_assoc, Option.bind_eq_bind,
        Option.bind_some, Option.pure_def]
    have hmore : (s.out ++ e.record).length + (locals entries).length < 2 ^ 32 := by
      rw [List.length_append, length_record]
      omega
    rw [List.foldlM_cons, hentry, Option.bind_eq_bind, Option.bind_some, ih hnames.2 hmore, hlocals,
      List.append_assoc, List.append_assoc, List.length_append]
    rfl

/-- A bundle that is not too long is the records of its entries, the directory and its end. -/
theorem store_eq {entries : List Entry} (hcount : entries.length ≤ 65535)
    (hnames : ∀ e ∈ entries, e.bytes.length < 2 ^ 16) (hsize : bundleLength entries < 2 ^ 32) :
    store entries = some (locals entries ++ directory 0 entries ++
      endRecord entries.length (directory 0 entries).length (locals entries).length) := by
  unfold bundleLength at hsize
  have hall : entries.foldlM storeEntry ⟨[], []⟩ = some ⟨locals entries, directory 0 entries⟩ :=
    foldlM_storeEntry hnames (by
      show 0 + (locals entries).length < 2 ^ 32
      omega)
  unfold store
  rw [if_pos hcount, hall]
  simp only [Option.bind_eq_bind, Option.bind_some]
  rw [u32_eq (by omega), u32_eq (by omega)]
  simp only [endRecord, List.append_assoc, Option.bind_some, Option.pure_def]

end Layout

/-! ## Parts are read back -/

section Parts

theorem reads_bytes (part : List UInt8) : Reads (bytes part.length) part part := by
  intro rest
  unfold bytes
  rw [if_pos (by rw [List.length_append]; omega), List.take_left, List.drop_left]

theorem reads_number {count v : Nat} (h : v < 256 ^ count) :
    Reads (number count) (leBytes count v) v := by
  have hpart := reads_bytes (leBytes count v)
  rw [length_leBytes] at hpart
  have hread := hpart.map leValue
  rw [leValue_leBytes h] at hread
  exact hread

theorem reads_signature {value : Nat} (h : value < 256 ^ 4) :
    Reads (signature value) (leBytes 4 value) () := by
  intro rest
  unfold signature
  rw [(reads_number h).bind_append, if_pos rfl]
  rfl

theorem reads_header {e : Entry} (hname : e.bytes.length < 2 ^ 16) (hdata : e.data.length < 2 ^ 32) :
    Reads readHeader e.common e.header := by
  have hcrc : Reads (number 4) (leBytes 4 (crc32 e.data).toNat) (crc32 e.data).toNat :=
    reads_number (crc32 e.data).toNat_lt
  have hzero : Reads (number 2) (leBytes 2 0) 0 := reads_number (by decide)
  have hversion : Reads (number 2) (leBytes 2 20) 20 := reads_number (by decide)
  have hdate : Reads (number 2) (leBytes 2 DOS_DATE) DOS_DATE := reads_number (by decide)
  have hsize : Reads (number 4) (leBytes 4 e.data.length) e.data.length := reads_number hdata
  have hlength : Reads (number 2) (leBytes 2 e.bytes.length) e.bytes.length := reads_number hname
  intro rest
  unfold readHeader Entry.common common
  simp only [List.append_assoc]
  rw [hversion.bind_append, hzero.bind_append, hzero.bind_append, hzero.bind_append,
    hdate.bind_append, hcrc.bind_append, hsize.bind_append, hsize.bind_append, hlength.bind_append,
    hzero.bind_append]
  rfl

theorem reads_nothing : Reads (bytes 0) [] [] := reads_bytes []

theorem reads_record {p : Nat × Entry} (hname : p.2.bytes.length < 2 ^ 16)
    (hdata : p.2.data.length < 2 ^ 32) (hplace : p.1 < 2 ^ 32) :
    Reads readRecord (centralRecord p) ⟨p.2.header, p.1, p.2.bytes⟩ := by
  have hsignature : Reads (signature 0x02014B50) (leBytes 4 0x02014B50) () :=
    reads_signature (by decide)
  have hversion : Reads (number 2) (leBytes 2 20) 20 := reads_number (by decide)
  have hzero : Reads (number 2) (leBytes 2 0) 0 := reads_number (by decide)
  have hexternal : Reads (number 4) (leBytes 4 0) 0 := reads_number (by decide)
  have hoffset : Reads (number 4) (leBytes 4 p.1) p.1 := reads_number hplace
  intro rest
  unfold readRecord centralRecord
  simp only [List.append_assoc]
  rw [hsignature.bind_append, hversion.bind_append, (reads_header hname hdata).bind_append,
    hzero.bind_append, hzero.bind_append, hzero.bind_append, hexternal.bind_append,
    hoffset.bind_append]
  show ((bytes p.2.bytes.length >>= _) : ZipReader Record) _ = _
  rw [(reads_bytes p.2.bytes).bind_append]
  show ((bytes 0 >>= _) : ZipReader Record) ([] ++ rest) = _
  rw [reads_nothing.bind_append]
  show ((bytes 0 >>= _) : ZipReader Record) ([] ++ rest) = _
  rw [reads_nothing.bind_append]
  rfl

theorem reads_local {e : Entry} (hname : e.bytes.length < 2 ^ 16) (hdata : e.data.length < 2 ^ 32) :
    Reads readLocal e.record ⟨e.header, e.bytes, e.data⟩ := by
  have hsignature : Reads (signature 0x04034B50) (leBytes 4 0x04034B50) () :=
    reads_signature (by decide)
  intro rest
  unfold readLocal Entry.record
  simp only [List.append_assoc]
  rw [hsignature.bind_append, (reads_header hname hdata).bind_append]
  show ((bytes e.bytes.length >>= _) : ZipReader Local) _ = _
  rw [(reads_bytes e.bytes).bind_append]
  show ((bytes 0 >>= _) : ZipReader Local) ([] ++ (e.data ++ rest)) = _
  rw [reads_nothing.bind_append]
  show ((bytes e.data.length >>= _) : ZipReader Local) _ = _
  rw [(reads_bytes e.data).bind_append]
  rfl

theorem reads_end {count size offset : Nat} (hcount : count < 2 ^ 16) (hsize : size < 2 ^ 32)
    (hoffset : offset < 2 ^ 32) :
    Reads readEnd (endRecord count size offset) ⟨count, size, offset⟩ := by
  have hsignature : Reads (signature 0x06054B50) (leBytes 4 0x06054B50) () :=
    reads_signature (by decide)
  have hzero : Reads (number 2) (leBytes 2 0) 0 := reads_number (by decide)
  have hentries : Reads (number 2) (leBytes 2 count) count := reads_number hcount
  have hlength : Reads (number 4) (leBytes 4 size) size := reads_number hsize
  have hplace : Reads (number 4) (leBytes 4 offset) offset := reads_number hoffset
  intro rest
  unfold readEnd endRecord
  simp only [List.append_assoc]
  rw [hsignature.bind_append, hzero.bind_append, hzero.bind_append, hentries.bind_append,
    hentries.bind_append, hlength.bind_append, hplace.bind_append, hzero.bind_append]
  rfl

end Parts

/-! ## A bundle is read back -/

section RoundTrip

theorem split_at_placed {entries : List Entry} {offset : Nat} {p : Nat × Entry}
    (h : p ∈ placed offset entries) : p.2 ∈ entries ∧ ∃ before after,
      locals entries = before ++ (p.2.record ++ after) ∧ p.1 = offset + before.length := by
  induction entries generalizing offset with
  | nil => cases h
  | cons e entries ih =>
    have hlocals : locals (e :: entries) = e.record ++ locals entries := List.flatMap_cons
    rw [hlocals]
    rcases List.mem_cons.mp h with rfl | hmem
    · exact ⟨List.mem_cons_self, [], locals entries, rfl, rfl⟩
    · obtain ⟨hp, before, after, hsplit, hplace⟩ := ih hmem
      refine ⟨List.mem_cons_of_mem e hp, e.record ++ before, after, ?_, ?_⟩
      · rw [hsplit, List.append_assoc]
      · rw [hplace, List.length_append, Nat.add_assoc]

theorem map_placed {α : Type} (f : Entry → α) (offset : Nat) (entries : List Entry) :
    (placed offset entries).map (fun p => f p.2) = entries.map f := by
  induction entries generalizing offset with
  | nil => rfl
  | cons e entries ih => rw [placed, List.map_cons, List.map_cons, ih]

def Entry.found (e : Entry) : Found := ⟨e.name, e.data, e.data.length, (crc32 e.data).toNat⟩

theorem find_record {zip : List UInt8} {p : Nat × Entry} (hname : p.2.bytes.length < 2 ^ 16)
    (hdata : p.2.data.length < 2 ^ 32) {rest : List UInt8}
    (hzip : zip.drop p.1 = p.2.record ++ rest) :
    find zip ⟨p.2.header, p.1, p.2.bytes⟩ = .ok p.2.found := by
  have hlocal : readLocal.run' (zip.drop p.1) = .ok ⟨p.2.header, p.2.bytes, p.2.data⟩ :=
    Taking.run'_eq_ok.mpr ⟨rest, by rw [hzip, reads_local hname hdata]⟩
  have htext : Text.fromUtf8Lossy p.2.bytes = p.2.name :=
    Text.fromUtf8Lossy_asBytes p.2.name
  unfold find
  dsimp only
  rw [hlocal, htext]
  show (if p.2.header ≠ p.2.header ∨ p.2.bytes ≠ p.2.bytes then throw ZipFault.differs
    else if p.2.name.asBytes ≠ p.2.bytes then throw ZipFault.name
    else pure p.2.found : Except ZipFault Found) = _
  rw [if_neg (by simp), if_neg (fun hne => hne rfl)]
  rfl

theorem data_le {entries : List Entry} {e : Entry} (he : e ∈ entries) :
    e.data.length ≤ (locals entries).length := by
  obtain ⟨before, after, rfl⟩ := List.append_of_mem he
  rw [locals, List.flatMap_append, List.flatMap_cons, List.length_append, List.length_append,
    length_record]
  omega

theorem reads_directory {entries : List Entry} (hnames : ∀ e ∈ entries, e.bytes.length < 2 ^ 16)
    (hsize : (locals entries).length < 2 ^ 32) :
    Reads (readRecord.times entries.length) (directory 0 entries)
      ((placed 0 entries).map fun p => ⟨p.2.header, p.1, p.2.bytes⟩) := by
  have hall : Reads (readRecord.times (placed 0 entries).length) (directory 0 entries)
      ((placed 0 entries).map fun p => ⟨p.2.header, p.1, p.2.bytes⟩) := by
    refine Reads.times (placed 0 entries) fun p hp => ?_
    obtain ⟨hmem, before, after, hsplit, hplace⟩ := split_at_placed hp
    have hle := data_le hmem
    have hbefore := congrArg List.length hsplit
    rw [List.length_append] at hbefore
    exact reads_record (hnames p.2 hmem) (by omega) (by omega)
  rw [length_placed] at hall
  exact hall

/-- Every entry is found by its record. -/
theorem mapM_find {entries : List Entry} (hnames : ∀ e ∈ entries, e.bytes.length < 2 ^ 16)
    (hsize : (locals entries).length < 2 ^ 32) (rest : List UInt8) :
    ((placed 0 entries).map fun p => (⟨p.2.header, p.1, p.2.bytes⟩ : Record)).mapM
      (find (locals entries ++ rest)) = .ok (entries.map Entry.found) := by
  rw [List.mapM_map, ← map_placed Entry.found 0 entries]
  refine mapM_eq_map fun p hp => ?_
  obtain ⟨hmem, before, after, hsplit, hplace⟩ := split_at_placed hp
  have hle := data_le hmem
  have hzip : (locals entries ++ rest).drop p.1 = p.2.record ++ (after ++ rest) := by
    rw [hplace, Nat.zero_add, hsplit, List.append_assoc, List.append_assoc, List.drop_left]
  exact find_record (hnames p.2 hmem) (by omega) hzip

/-- A bundle of entries is read back from its end record: every entry in order with its name, its
data, its length and its checksum. -/
theorem unzip_store {entries : List Entry} (hcount : entries.length ≤ 65535)
    (hnames : ∀ e ∈ entries, e.bytes.length < 65536) (hsize : bundleLength entries < 2 ^ 32) :
    ∃ zip, store entries = some zip ∧ unzip zip = .ok (entries.map Entry.found) := by
  refine ⟨_, store_eq hcount hnames hsize, ?_⟩
  unfold bundleLength at hsize
  have hlocals : (locals entries).length < 2 ^ 32 := by omega
  have hread := reads_end (show entries.length < 2 ^ 16 by omega)
    (show (directory 0 entries).length < 2 ^ 32 by omega) hlocals []
  have hlast := length_endRecord entries.length (directory 0 entries).length (locals entries).length
  generalize endRecord entries.length (directory 0 entries).length (locals entries).length = last at *
  rw [List.append_nil] at hread
  have hlength : (locals entries ++ directory 0 entries ++ last).length - 22 =
      (locals entries ++ directory 0 entries).length := by
    rw [List.length_append, hlast, Nat.add_sub_cancel]
  have hend : readEnd.run' ((locals entries ++ directory 0 entries ++ last).drop
      (locals entries ++ directory 0 entries).length) =
        .ok ⟨entries.length, (directory 0 entries).length, (locals entries).length⟩ := by
    rw [List.drop_left]
    exact Taking.run'_eq_ok.mpr ⟨[], hread⟩
  have hdirectory : ((locals entries ++ directory 0 entries ++ last).take
      ((locals entries).length + (directory 0 entries).length)).drop (locals entries).length =
        directory 0 entries := by
    rw [← List.length_append, List.take_left, List.drop_left]
  have hrecords := reads_directory hnames hlocals []
  rw [List.append_nil] at hrecords
  unfold unzip
  rw [hlength, hend]
  show (if (locals entries).length + (directory 0 entries).length ≠
    (locals entries ++ directory 0 entries).length then throw ZipFault.directory
    else _ : Except ZipFault (List Found)) = _
  rw [if_neg (fun hne => hne List.length_append.symm)]
  dsimp only
  rw [hdirectory]
  show Except.bind (readRecord.times entries.length (directory 0 entries)) _ = _
  rw [hrecords]
  show (if ([] : List UInt8) ≠ [] then throw ZipFault.directory
    else _ : Except ZipFault (List Found)) = _
  rw [if_neg (fun hne => hne rfl), List.append_assoc]
  exact mapM_find hnames hlocals _

/-- Two files, one of them in a directory. -/
theorem unzip_store_two : ∃ zip,
    store [⟨"a.txt".toList, [104, 105]⟩, ⟨"dir/b.bin".toList, [1, 2, 3]⟩] = some zip ∧
      unzip zip = .ok ([⟨"a.txt".toList, [104, 105]⟩, ⟨"dir/b.bin".toList, [1, 2, 3]⟩].map
        Entry.found) :=
  unzip_store (by decide) (by decide) (by decide)

end RoundTrip

end CommandCenter.Formats.Zip
