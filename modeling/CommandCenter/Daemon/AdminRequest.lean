import CommandCenter.Library.ReadUntil
import CommandCenter.Library.UrlEncoded
import CommandCenter.Rust.Fields
import CommandCenter.Rust.Map
import CommandCenter.Rust.Utf8

/-!
# Requests to the admin panel

`read_request` of the panel's web server: the bytes of a connection come in reads of up to 4096,
until the blank line behind the header block is among them, and from then until there is as much
of a body as the header says, but never more than `MAX_REQUEST_BYTES`.

* `find_append`: a blank line that has come stays where it is.
* `urlDecode_encode`, `lookup_parseForm`: what a browser encodes is decoded to itself.
-/

namespace CommandCenter.Daemon.Admin

open Rust
open Library (Stopped readUntil)
open Library.UrlEncoded (serialize lastValue)

def maxRequestBytes : Nat := 64 * 1024

structure Request where
  method : Text
  path : Text
  query : Map Text Text
  cookies : Map Text Text
  form : Map Text Text

/-- What one call of `read` puts into its buffer. -/
structure Read where
  bytes : List UInt8
  nonempty : bytes ≠ []
  fits : bytes.length ≤ 4096

/-- How the reads end: the peer closes its side, or a read fails or never comes back. -/
inductive Ending where
  | closed
  | failed
  deriving DecidableEq

def received (reads : List Read) : List UInt8 := reads.flatMap Read.bytes

/-- `haystack.windows(needle.len()).position(..)`. -/
def find (haystack needle : List UInt8) : Option Nat :=
  if needle <+: haystack then some 0
  else
    match haystack with
    | [] => none
    | _ :: rest => (find rest needle).map (· + 1)

def crlfcrlf : List UInt8 := [13, 10, 13, 10]

/-! ## Forms -/

def hexVal (c : UInt8) : Option UInt8 :=
  if 48 ≤ c ∧ c ≤ 57 then some (c - 48)
  else if 97 ≤ c ∧ c ≤ 102 then some (c - 97 + 10)
  else if 65 ≤ c ∧ c ≤ 70 then some (c - 65 + 10)
  else none

/-- The loop of `url_decode`: a percent sign with fewer than two hexadecimal digits behind it
stands for itself. -/
def urlDecodeBytes : List UInt8 → List UInt8
  | [] => []
  | b :: rest =>
    if b = 43 then 32 :: urlDecodeBytes rest
    else if b = 37 then
      match rest with
      | h :: l :: tail =>
        match hexVal h, hexVal l with
        | some high, some low => (high * 16 + low) :: urlDecodeBytes tail
        | _, _ => b :: urlDecodeBytes (h :: l :: tail)
      | short => b :: urlDecodeBytes short
    else b :: urlDecodeBytes rest

def urlDecode (s : Text) : Text := Text.fromUtf8Lossy (urlDecodeBytes s.asBytes)

/-- One round of the loop of `parse_form`. -/
def insertPair (m : Map Text Text) (pair : Text) : Map Text Text :=
  if pair = [] then m
  else
    let (k, v) := (pair.splitOnce '=').getD (pair, [])
    m.insert (urlDecode k) (urlDecode v)

def parseForm (body : Text) : Map Text Text := (body.splitOn '&').foldl insertPair ∅

/-! ## The header block -/

/-- `str::split("\r\n")`. -/
def splitCrlf : Text → List Text
  | [] => [[]]
  | '\r' :: '\n' :: rest => [] :: splitCrlf rest
  | c :: rest =>
    match splitCrlf rest with
    | [] => [[c]]
    | line :: lines => (c :: line) :: lines

/-- The pairs of a `Cookie` header. -/
def insertCookie (cookies : Map Text Text) (pair : Text) : Map Text Text :=
  match (Text.trim pair).splitOnce '=' with
  | some (ck, cv) => cookies.insert (Text.trim ck) (Text.trim cv)
  | none => cookies

/-- What the loop over the header lines keeps. -/
structure Headers where
  content_length : Nat
  cookies : Map Text Text

def readHeader (headers : Headers) (line : Text) : Headers :=
  match line.splitOnce ':' with
  | none => headers
  | some (k, v) =>
    let key := (Text.trim k).toAsciiLowercase
    if key = "content-length".toList then
      { headers with content_length := (parseUsize (Text.trim v)).getD 0 }
    else if key = "cookie".toList then
      { headers with cookies := (v.splitOn ';').foldl insertCookie headers.cookies }
    else headers

/-- A header block that begins with a request line. -/
structure Head where
  method : Text
  path : Text
  query : Map Text Text
  headers : Headers

def blockLines (block : List UInt8) : List Text := splitCrlf (Text.fromUtf8Lossy block)

def parseHead (block : List UInt8) : Option Head := do
  let lines := blockLines block
  let rl ← lines.head?.map Text.splitWhitespace
  let method ← rl[0]?
  let raw_path ← rl[1]?
  let (path, query) :=
    match raw_path.splitOnce '?' with
    | some (p, q) => (p, parseForm q)
    | none => (raw_path, ∅)
  some { method, path, query, headers := lines.tail.foldl readHeader ⟨0, ∅⟩ }

/-! ## Reading a request -/

/-- `find(&buf, b"\r\n\r\n")` and the blank line. -/
def headerEnd (buf : List UInt8) : Option Nat := (find buf crlfcrlf).map (· + 4)

/-- The loop that reads the body: at the end of the connection it keeps what there is. -/
def readBody (content_length : Nat) (body : List UInt8) (rest : List Read)
    (ending : Ending) : Option (List UInt8) :=
  match readUntil Read.bytes (fun body => decide (content_length ≤ body.length)) maxRequestBytes body
    rest with
  | .enough body _ => some body
  | .tooLong => none
  | .ended body =>
    match ending with
    | .closed => some body
    | .failed => none

/-- The request of a header block and a body. -/
def Head.request (head : Head) (body : List UInt8) : Request where
  method := head.method
  path := head.path
  query := head.query
  cookies := head.headers.cookies
  form := if head.method = "POST".toList then parseForm (Text.fromUtf8Lossy body) else ∅

def readRequest (reads : List Read) (ending : Ending) : Option Request :=
  match readUntil Read.bytes (fun buf => (headerEnd buf).isSome) maxRequestBytes [] reads with
  | .enough buf rest => do
    let header_end ← headerEnd buf
    let head ← parseHead (buf.take header_end)
    let content_length := min head.headers.content_length maxRequestBytes
    let body ← readBody content_length (buf.drop header_end) rest ending
    some (head.request (body.take content_length))
  | _ => none

/-! ## Blank lines -/

section Find

theorem find_spec {haystack needle : List UInt8} {p : Nat} (h : find haystack needle = some p) :
    needle <+: haystack.drop p ∧ ∀ q < p, ¬ needle <+: haystack.drop q := by
  induction haystack generalizing p with
  | nil =>
    rw [find] at h
    split at h
    · rename_i hbegins
      cases h
      exact ⟨hbegins, fun q hq => by omega⟩
    · cases h
  | cons b rest ih =>
    rw [find] at h
    split at h
    · rename_i hbegins
      cases h
      exact ⟨hbegins, fun q hq => by omega⟩
    · rename_i hbegins
      obtain ⟨p, hp, rfl⟩ := Option.map_eq_some_iff.mp h
      refine ⟨(ih hp).1, fun q hq => ?_⟩
      cases q with
      | zero => exact hbegins
      | succ q => exact (ih hp).2 q (by omega)

theorem find_eq_some {haystack needle : List UInt8} {p : Nat} (hp : needle <+: haystack.drop p)
    (hfirst : ∀ q < p, ¬ needle <+: haystack.drop q) : find haystack needle = some p := by
  induction haystack generalizing p with
  | nil =>
    rw [List.drop_nil] at hp
    cases p with
    | zero => exact if_pos hp
    | succ p => exact absurd hp (hfirst 0 (Nat.succ_pos p))
  | cons b rest ih =>
    cases p with
    | zero => exact if_pos hp
    | succ p =>
      have hhead : ¬ needle <+: b :: rest := hfirst 0 (Nat.succ_pos p)
      rw [find, if_neg hhead]
      show (find rest needle).map (· + 1) = some (p + 1)
      rw [ih hp fun q hq => hfirst (q + 1) (by omega)]
      rfl

theorem length_of_find {haystack needle : List UInt8} {p : Nat}
    (h : find haystack needle = some p) (hne : needle ≠ []) :
    p + needle.length ≤ haystack.length := by
  have hlen := (find_spec h).1.length_le
  have hpos : 0 < needle.length := List.length_pos_iff.mpr hne
  rw [List.length_drop] at hlen
  omega

/-- What is found stays where it is when more is read. -/
theorem find_append {haystack needle : List UInt8} {p : Nat} (h : find haystack needle = some p)
    (hne : needle ≠ []) (more : List UInt8) : find (haystack ++ more) needle = some p := by
  have hlen := length_of_find h hne
  obtain ⟨hp, hfirst⟩ := find_spec h
  refine find_eq_some ?_ fun q hq hbegins => hfirst q hq ?_
  · rw [List.drop_append_of_le_length (by omega)]
    exact hp.trans (List.prefix_append _ _)
  · rw [List.drop_append_of_le_length (by omega)] at hbegins
    refine List.prefix_of_prefix_length_le hbegins (List.prefix_append _ _) ?_
    rw [List.length_drop]
    omega

theorem headerEnd_append {buf : List UInt8} {n : Nat} (h : headerEnd buf = some n)
    (more : List UInt8) : headerEnd (buf ++ more) = some n := by
  obtain ⟨p, hp, rfl⟩ := Option.map_eq_some_iff.mp h
  rw [headerEnd, find_append hp (List.cons_ne_nil _ _)]
  rfl

theorem headerEnd_le {buf : List UInt8} {n : Nat} (h : headerEnd buf = some n) :
    n ≤ buf.length := by
  obtain ⟨p, hp, rfl⟩ := Option.map_eq_some_iff.mp h
  exact length_of_find hp (List.cons_ne_nil _ _)

end Find

/-! ## Forms read back -/

section Forms

open Library.UrlEncoded

theorem hexVal_hexUpper : ∀ n < 16, hexVal (.ofNat (hexUpper n).val.toNat) = some (.ofNat n) := by
  decide

theorem asBytes_percent (b : UInt8) : Text.asBytes (percent b) =
    [37, .ofNat (hexUpper (b.toNat / 16)).val.toNat, .ofNat (hexUpper (b.toNat % 16)).val.toNat] := by
  rw [Text.asBytes_of_ascii fun c hc => (percent_safe hc).1]
  rfl

theorem urlDecodeBytes_percent (b : UInt8) (rest : List UInt8) :
    urlDecodeBytes (Text.asBytes (percent b) ++ rest) = b :: urlDecodeBytes rest := by
  have hb : b.toNat < 256 := b.toNat_lt
  have hvalue : (.ofNat (b.toNat / 16) * 16 + .ofNat (b.toNat % 16) : UInt8) = b := by
    rw [← UInt8.toNat_inj]
    simp only [UInt8.toNat_add, UInt8.toNat_mul, UInt8.toNat_ofNat']
    have h16 : (16 : UInt8).toNat = 16 := rfl
    rw [h16]
    omega
  rw [asBytes_percent, List.cons_append, List.cons_append, List.singleton_append, urlDecodeBytes,
    if_neg (by decide), if_pos rfl]
  simp only [hexVal_hexUpper _ (show b.toNat / 16 < 16 by omega),
    hexVal_hexUpper _ (show b.toNat % 16 < 16 by omega), hvalue]

theorem urlDecodeBytes_percents (bytes rest : List UInt8) :
    urlDecodeBytes (Text.asBytes (bytes.flatMap percent) ++ rest) = bytes ++ urlDecodeBytes rest := by
  induction bytes with
  | nil => rfl
  | cons b bytes ih =>
    rw [List.flatMap_cons, Text.asBytes, List.flatMap_append, List.append_assoc]
    exact (urlDecodeBytes_percent b _).trans (congrArg (List.cons b) ih)

theorem urlDecodeBytes_cons {b : UInt8} (h : b ≠ 37) (rest : List UInt8) :
    urlDecodeBytes (b :: rest) = (if b = 43 then 32 else b) :: urlDecodeBytes rest := by
  by_cases hplus : b = 43
  · rcases rest with _ | ⟨c, _ | ⟨d, rest⟩⟩ <;> simp [urlDecodeBytes, hplus]
  · rcases rest with _ | ⟨c, _ | ⟨d, rest⟩⟩ <;> simp [urlDecodeBytes, hplus, h]

theorem urlDecodeBytes_kept {c : Char} (h : Kept c) (rest : List UInt8) :
    urlDecodeBytes (Text.asBytes [c] ++ rest) = String.utf8EncodeChar c ++ urlDecodeBytes rest := by
  obtain ⟨hlow, hpercent, hplus, -, -⟩ := h.safe
  have hbyte : String.utf8EncodeChar c = [.ofNat c.val.toNat] := if_pos (Nat.le_of_lt_succ hlow)
  have hne : ∀ d : Char, d.val.toNat < 128 → c ≠ d →
      UInt8.ofNat c.val.toNat ≠ .ofNat d.val.toNat := by
    intro d hd hcd heq
    have hnat := congrArg UInt8.toNat heq
    rw [Text.toNat_ofNat_byte (by omega), Text.toNat_ofNat_byte (by omega)] at hnat
    exact hcd (Char.ext (UInt32.toNat_inj.mp hnat))
  rw [Text.asBytes, List.flatMap_singleton, hbyte, List.singleton_append,
    urlDecodeBytes_cons (hne '%' (by decide) hpercent)]
  exact congrArg (· :: urlDecodeBytes rest) (if_neg (hne '+' (by decide) hplus))

theorem urlDecodeBytes_encode (s : Text) (rest : List UInt8) :
    urlDecodeBytes (Text.asBytes (encode s) ++ rest) = s.asBytes ++ urlDecodeBytes rest := by
  have hchar : ∀ (c : Char) (rest : List UInt8),
      urlDecodeBytes (Text.asBytes (encodeChar c) ++ rest) =
        String.utf8EncodeChar c ++ urlDecodeBytes rest := by
    intro c rest
    unfold encodeChar
    split
    · rename_i hblank
      rw [hblank]
      exact urlDecodeBytes_cons (by decide) rest
    · split
      · rename_i hkept
        exact urlDecodeBytes_kept hkept rest
      · exact urlDecodeBytes_percents _ rest
  induction s with
  | nil => rfl
  | cons c s ih =>
    have hsplit : Text.asBytes (encode (c :: s)) =
        Text.asBytes (encodeChar c) ++ Text.asBytes (encode s) := List.flatMap_append
    rw [hsplit, List.append_assoc, hchar, ih, ← List.append_assoc]
    rfl

/-- **What a browser encodes is decoded to itself.** -/
theorem urlDecode_encode (s : Text) : urlDecode (encode s) = s := by
  have h := urlDecodeBytes_encode s []
  rw [List.append_nil] at h
  rw [urlDecode, h, urlDecodeBytes, List.append_nil, Text.fromUtf8Lossy_asBytes]

theorem insertPair_encode (m : Map Text Text) (name v : Text) :
    insertPair m (encode name ++ '=' :: encode v) = m.insert name v := by
  have hne : encode name ++ '=' :: encode v ≠ [] := by
    intro h
    cases (List.append_eq_nil_iff.mp h).2
  have heq : '=' ∉ encode name := fun h => (encode_safe h).2.2 rfl
  rw [insertPair, if_neg hne, Text.splitOnce_append heq]
  simp only [Option.getD_some, urlDecode_encode]

theorem parseForm_serialize (fields : List (Text × Text)) :
    parseForm (serialize fields) = fields.foldl (fun m field => m.insert field.1 field.2) ∅ := by
  by_cases hne : fields = []
  · rw [hne]
    rfl
  · have hamp : ∀ pair ∈ fields.map fun field => encode field.1 ++ '=' :: encode field.2,
        '&' ∉ pair := by
      intro pair hpair hmem
      obtain ⟨field, -, rfl⟩ := List.mem_map.mp hpair
      rcases List.mem_append.mp hmem with h | h
      · exact (encode_safe h).2.1 rfl
      · rcases List.mem_cons.mp h with h | h
        · cases h
        · exact (encode_safe h).2.1 rfl
    rw [parseForm, serialize, List.splitOn_intercalate _ hamp (by simpa using hne),
      List.foldl_map]
    simp only [insertPair_encode]

/-- **A form maps each name to its last value.** -/
theorem lookup_parseForm (fields : List (Text × Text)) (name : Text) :
    (parseForm (serialize fields)).lookup name = lastValue fields name := by
  have hfold : ∀ m : Map Text Text,
      (fields.foldl (fun m field => m.insert field.1 field.2) m).lookup name =
        (lastValue fields name).or (m.lookup name) := by
    induction fields with
    | nil => exact fun m => rfl
    | cons field fields ih =>
      intro m
      rw [List.foldl_cons, ih, lastValue_cons, Option.or_assoc]
      congr 1
      by_cases h : field.1 = name
      · rw [← h, Finmap.lookup_insert, if_pos rfl, Option.some_or]
      · rw [Finmap.lookup_insert_of_ne _ (Ne.symm h), if_neg h, Option.none_or]
  rw [parseForm_serialize, hfold, Finmap.lookup_empty, Option.or_none]

end Forms

end CommandCenter.Daemon.Admin
