import CommandCenter.Daemon.AdminRequest

/-!
# Requests that are acted on in part

The body of a request is cut at `MAX_REQUEST_BYTES`, a length of 2^64 or more counts as none, and
a connection that ends within the body ends the body. In each case a request is answered of which
only a part has come.

* `contentLength_eq`: the length that is read is the one the header states, below 2^64.
* `readRequest_eq_some_iff`: what is answered.
* `actsOnWhole_iff`: only whole requests are acted on, unless one of the three cases occurs.
-/

namespace CommandCenter.Daemon.Admin

open Rust
open Library (readUntil readUntil_spec readUntil_enough_iff readUntil_eq_ended)
open Library.UrlEncoded (serialize lastValue)

/-! ## The length a header block states -/

/-- `str::parse` into a number of any size. -/
def parseNat (s : Text) : Option Nat :=
  let digits := if s.head? = some '+' then s.tail else s
  let n := digits.foldl (fun n c => 10 * n + (c.toNat - '0'.toNat)) 0
  if digits ≠ [] ∧ digits.all Char.isDigit then some n else none

/-- The value of a `Content-Length` header. -/
def lengthField (line : Text) : Option Text :=
  (line.splitOnce ':').bind fun kv =>
    if (Text.trim kv.1).toAsciiLowercase = "content-length".toList then some (Text.trim kv.2)
    else none

/-- The last header of that name counts; one without a number states that there is no body. -/
def stateLength (n : Nat) (line : Text) : Nat :=
  match lengthField line with
  | some v => (parseNat v).getD 0
  | none => n

def statedLength (block : List UInt8) : Nat := (blockLines block).tail.foldl stateLength 0

/-- The length that a `usize` has room for. -/
def usizeOrZero (n : Nat) : Nat := if n < 2 ^ 64 then n else 0

theorem parseUsize_getD (s : Text) :
    (parseUsize s).getD 0 = usizeOrZero ((parseNat s).getD 0) := by
  unfold parseUsize parseU64 parseNat
  dsimp only
  generalize (if s.head? = some '+' then s.tail else s) = digits
  generalize digits.foldl (fun n c => 10 * n + (c.toNat - '0'.toNat)) 0 = n
  by_cases hdigits : digits ≠ [] ∧ digits.all Char.isDigit = true
  · rw [if_pos hdigits]
    by_cases hn : n < 2 ^ 64
    · rw [if_pos ⟨hdigits.1, hdigits.2, hn⟩]
      show (UInt64.ofNat n).toNat = usizeOrZero n
      rw [usizeOrZero, if_pos hn, UInt64.toNat_ofNat_of_lt' hn]
    · rw [if_neg fun h => hn h.2.2]
      exact (if_neg hn).symm
  · rw [if_neg hdigits, if_neg fun h => hdigits ⟨h.1, h.2.1⟩]
    rfl

theorem readHeader_content_length {headers : Headers} {n : Nat}
    (h : headers.content_length = usizeOrZero n) (line : Text) :
    (readHeader headers line).content_length = usizeOrZero (stateLength n line) := by
  unfold readHeader stateLength lengthField
  cases line.splitOnce ':' with
  | none => exact h
  | some kv =>
    dsimp only [Option.bind_some]
    split
    · exact parseUsize_getD _
    · split <;> exact h

theorem contentLength_eq {block : List UInt8} {head : Head} (h : parseHead block = some head) :
    head.headers.content_length = usizeOrZero (statedLength block) := by
  have hfold : ∀ (lines : List Text) (headers : Headers) (n : Nat),
      headers.content_length = usizeOrZero n →
      (lines.foldl readHeader headers).content_length =
        usizeOrZero (lines.foldl stateLength n) := by
    intro lines
    induction lines with
    | nil => exact fun headers n hn => hn
    | cons line lines ih => exact fun headers n hn => ih _ _ (readHeader_content_length hn line)
  simp only [parseHead, Option.bind_eq_bind, Option.bind_eq_some_iff] at h
  obtain ⟨rl, -, method, -, raw_path, -, h⟩ := h
  rw [← Option.some.inj h]
  exact hfold _ _ _ rfl

/-! ## What is answered -/

/-- The header block is whole within the first `MAX_REQUEST_BYTES` bytes that are read. -/
def HeaderComes (reads : List Read) (n : Nat) : Prop :=
  ∃ part, part <+: reads ∧ headerEnd (received part) = some n ∧
    (received part).length ≤ maxRequestBytes

/-- The body of a request ends with `length` bytes, or with the connection. -/
def BodyEnds (reads : List Read) (ending : Ending) (n length : Nat) : Prop :=
  (∃ part, part <+: reads ∧ n + length ≤ (received part).length ∧
    (received part).length ≤ n + maxRequestBytes) ∨
  ending = .closed ∧ (received reads).length < n + length

theorem received_append (reads more : List Read) :
    received (reads ++ more) = received reads ++ received more := List.flatMap_append

theorem received_part {part reads : List Read} (h : part <+: reads) :
    received part <+: received reads := by
  obtain ⟨rest, rfl⟩ := h
  rw [received_append]
  exact List.prefix_append _ _

theorem HeaderComes.headerEnd_received {reads : List Read} {n : Nat} (h : HeaderComes reads n) :
    headerEnd (received reads) = some n := by
  obtain ⟨part, ⟨rest, rfl⟩, hend, -⟩ := h
  rw [received_append]
  exact headerEnd_append hend _

theorem headerComes_iff {reads : List Read} {n : Nat} :
    HeaderComes reads n ↔ ∃ front rest, reads = front ++ rest ∧
      headerEnd (received front) = some n ∧ (received front).length ≤ maxRequestBytes ∧
      readUntil Read.bytes (fun buf => (headerEnd buf).isSome) maxRequestBytes [] reads =
        .enough (received front) rest := by
  constructor
  · rintro ⟨part, hpart, hend, hlen⟩
    have hsome : (headerEnd (received part)).isSome = true :=
      Option.isSome_iff_exists.mpr ⟨n, hend⟩
    obtain ⟨all, rest, hread⟩ : ∃ all rest, readUntil Read.bytes
        (fun buf => (headerEnd buf).isSome) maxRequestBytes [] reads = .enough all rest :=
      (readUntil_enough_iff (Nat.zero_le _)).mpr ⟨part, hpart, hsome, hlen⟩
    obtain ⟨henough, hall, front, rfl, rfl⟩ := readUntil_spec (Nat.zero_le _) hread
    obtain ⟨m, hm⟩ := Option.isSome_iff_exists.mp henough
    have hcomes : HeaderComes (front ++ rest) n := ⟨part, hpart, hend, hlen⟩
    have hsame := hcomes.headerEnd_received
    rw [received_append, headerEnd_append (show headerEnd (received front) = some m from hm)] at hsame
    exact ⟨front, rest, rfl, hm.trans hsame, hall, hread⟩
  · rintro ⟨front, rest, rfl, hend, hlen, -⟩
    exact ⟨front, List.prefix_append _ _, hend, hlen⟩

section Body

variable {front rest : List Read} {n length : Nat}

theorem drop_received (hn : n ≤ (received front).length) :
    (received (front ++ rest)).drop n =
      (received front).drop n ++ rest.flatMap Read.bytes := by
  rw [received_append, List.drop_append_of_le_length hn]
  rfl

/-- There is enough of the body after some read just if there is within what is kept. -/
theorem bodyReads_iff (hn : n ≤ (received front).length)
    (hfront : (received front).length ≤ maxRequestBytes) :
    (∃ body more, readUntil Read.bytes (fun body => decide (length ≤ body.length)) maxRequestBytes
        ((received front).drop n) rest = .enough body more) ↔
      ∃ part, part <+: front ++ rest ∧ n + length ≤ (received part).length ∧
        (received part).length ≤ n + maxRequestBytes := by
  have hgot : ((received front).drop n).length ≤ maxRequestBytes := by
    rw [List.length_drop]
    omega
  rw [readUntil_enough_iff hgot]
  constructor
  · rintro ⟨part, ⟨more, rfl⟩, henough, hlimit⟩
    have hlen : ((received front).drop n ++ part.flatMap Read.bytes).length =
        (received (front ++ part)).length - n := by
      rw [← drop_received hn, List.length_drop]
    have hle : n ≤ (received (front ++ part)).length := by
      rw [received_append, List.length_append]
      omega
    rw [decide_eq_true_eq, hlen] at henough
    rw [hlen] at hlimit
    refine ⟨front ++ part, ⟨more, List.append_assoc _ _ _⟩, by omega, by omega⟩
  · rintro ⟨part, hpart, hlow, hhigh⟩
    rcases List.prefix_or_prefix_of_prefix hpart (List.prefix_append front rest) with
      hin | ⟨tail, rfl⟩
    · have hle := (received_part hin).length_le
      refine ⟨[], List.nil_prefix, ?_, ?_⟩
      · rw [List.flatMap_nil, List.append_nil, decide_eq_true_eq, List.length_drop]
        omega
      · rwa [List.flatMap_nil, List.append_nil]
    · refine ⟨tail, (List.prefix_append_right_inj front).mp hpart, ?_, ?_⟩
      · rw [← drop_received hn, decide_eq_true_eq, List.length_drop]
        omega
      · rw [← drop_received hn, List.length_drop]
        omega

/-- The connection ends first just if what is sent is too short. -/
theorem bodyEnded_iff (hn : n ≤ (received front).length)
    (hfront : (received front).length ≤ maxRequestBytes) (hlength : length ≤ maxRequestBytes)
    {body : List UInt8} :
    readUntil Read.bytes (fun body => decide (length ≤ body.length)) maxRequestBytes
        ((received front).drop n) rest = .ended body ↔
      body = (received (front ++ rest)).drop n ∧
        (received (front ++ rest)).length < n + length := by
  have hgot : ((received front).drop n).length ≤ maxRequestBytes := by
    rw [List.length_drop]
    omega
  have htotal : n ≤ (received (front ++ rest)).length := by
    rw [received_append, List.length_append]
    omega
  rw [readUntil_eq_ended hgot, ← drop_received hn]
  refine and_congr_right ?_
  rintro rfl
  rw [List.length_drop]
  constructor
  · rintro ⟨-, hnever⟩
    have hshort := hnever rest List.prefix_rfl
    rw [← drop_received hn, decide_eq_true_eq, List.length_drop] at hshort
    omega
  · intro hshort
    refine ⟨by omega, fun part hpart henough => ?_⟩
    have hle := (received_part ((List.prefix_append_right_inj front).mpr hpart)).length_le
    rw [← drop_received hn, decide_eq_true_eq, List.length_drop] at henough
    omega

theorem readBody_eq_some_iff {ending : Ending} (hn : n ≤ (received front).length)
    (hfront : (received front).length ≤ maxRequestBytes) (hlength : length ≤ maxRequestBytes)
    {body : List UInt8} :
    (readBody length ((received front).drop n) rest ending).map (List.take length) = some body ↔
      BodyEnds (front ++ rest) ending n length ∧
        ((received (front ++ rest)).drop n).take length = body := by
  have hgot : ((received front).drop n).length ≤ maxRequestBytes := by
    rw [List.length_drop]
    omega
  have hreads : _ ↔ ∃ part, part <+: front ++ rest ∧ n + length ≤ (received part).length ∧
    (received part).length ≤ n + maxRequestBytes := bodyReads_iff hn hfront
  have hended : ∀ {all}, _ ↔ all = (received (front ++ rest)).drop n ∧
    (received (front ++ rest)).length < n + length := bodyEnded_iff hn hfront hlength
  unfold readBody BodyEnds
  rw [← hreads]
  cases hread : readUntil Read.bytes (fun body => decide (length ≤ body.length)) maxRequestBytes
      ((received front).drop n) rest with
  | enough all more =>
    obtain ⟨henough, -, part, rfl, rfl⟩ := readUntil_spec hgot hread
    have htake : ((received (front ++ (part ++ more))).drop n).take length =
        ((received front).drop n ++ part.flatMap Read.bytes).take length := by
      rw [drop_received hn, List.flatMap_append, ← List.append_assoc]
      exact List.take_append_of_le_length (of_decide_eq_true henough)
    rw [htake]
    exact ⟨fun h => ⟨.inl ⟨_, _, rfl⟩, Option.some.inj h⟩, fun h => congrArg some h.2⟩
  | tooLong =>
    refine iff_of_false (fun h => by cases h) ?_
    rintro ⟨⟨_, _, h⟩ | ⟨-, hshort⟩, -⟩
    · cases h
    · have h := hread.symm.trans (hended.mpr ⟨rfl, hshort⟩)
      cases h
  | ended all =>
    obtain ⟨rfl, hshort⟩ := hended.mp hread
    cases ending with
    | closed => exact ⟨fun h => ⟨.inr ⟨rfl, hshort⟩, Option.some.inj h⟩, fun h => congrArg some h.2⟩
    | failed =>
      refine iff_of_false (fun h => by cases h) ?_
      rintro ⟨⟨_, _, h⟩ | ⟨h, -⟩, -⟩
      · cases h
      · cases h

end Body

/-- The bytes of a body that are used. -/
def usedLength (stated : Nat) : Nat := min (usizeOrZero stated) maxRequestBytes

section Answers

variable {front rest : List Read} {ending : Ending} {n : Nat} {r : Request}

/-- A header block that comes with `front` is parsed, and the body is read behind it. -/
theorem readRequest_of_header (hend : headerEnd (received front) = some n)
    (hread : readUntil Read.bytes (fun buf => (headerEnd buf).isSome) maxRequestBytes []
      (front ++ rest) = .enough (received front) rest) :
    readRequest (front ++ rest) ending = some r ↔
      ∃ head, parseHead ((received front).take n) = some head ∧
        ∃ body, (readBody (usedLength (statedLength ((received front).take n)))
          ((received front).drop n) rest ending).map
            (List.take (usedLength (statedLength ((received front).take n)))) = some body ∧
          head.request body = r := by
  unfold readRequest
  rw [hread]
  simp only [hend, Option.bind_eq_bind, Option.bind_some, Option.bind_eq_some_iff]
  refine exists_congr fun head => and_congr_right fun hhead => ?_
  have hused : min head.headers.content_length maxRequestBytes =
      usedLength (statedLength ((received front).take n)) := by
    rw [contentLength_eq hhead]
    rfl
  simp only [hused, Option.map_eq_some_iff, Option.some.injEq]
  constructor
  · rintro ⟨body, hbody, hr⟩
    exact ⟨_, ⟨body, hbody, rfl⟩, hr⟩
  · rintro ⟨_, ⟨body, hbody, rfl⟩, hr⟩
    exact ⟨body, hbody, hr⟩

/-- What is answered, and from which bytes. -/
theorem readRequest_eq_some_iff {reads : List Read} :
    readRequest reads ending = some r ↔
      ∃ n head, HeaderComes reads n ∧ parseHead ((received reads).take n) = some head ∧
        BodyEnds reads ending n (usedLength (statedLength ((received reads).take n))) ∧
        head.request (((received reads).drop n).take
          (usedLength (statedLength ((received reads).take n)))) = r := by
  constructor
  · intro h
    cases hread : readUntil Read.bytes (fun buf => (headerEnd buf).isSome) maxRequestBytes []
        reads with
    | enough buf rest =>
      obtain ⟨henough, hlen, front, rfl, rfl⟩ := readUntil_spec (Nat.zero_le _) hread
      obtain ⟨n, hend⟩ : ∃ n, headerEnd (received front) = some n :=
        Option.isSome_iff_exists.mp henough
      have hblock : (received (front ++ rest)).take n = (received front).take n := by
        rw [received_append, List.take_append_of_le_length (headerEnd_le hend)]
      obtain ⟨head, hhead, body, hbody, hr⟩ := (readRequest_of_header hend hread).mp h
      obtain ⟨hends, rfl⟩ :=
        (readBody_eq_some_iff (headerEnd_le hend) hlen (Nat.min_le_right _ _)).mp hbody
      rw [← hblock] at hhead hends hr
      exact ⟨n, head, ⟨front, List.prefix_append _ _, hend, hlen⟩, hhead, hends, hr⟩
    | tooLong =>
      rw [readRequest, hread] at h
      cases h
    | ended got =>
      rw [readRequest, hread] at h
      cases h
  · rintro ⟨n, head, hcomes, hhead, hends, hr⟩
    obtain ⟨front, rest, rfl, hend, hlen, hread⟩ := headerComes_iff.mp hcomes
    have hblock : (received (front ++ rest)).take n = (received front).take n := by
      rw [received_append, List.take_append_of_le_length (headerEnd_le hend)]
    rw [hblock] at hhead hends hr
    exact (readRequest_of_header hend hread).mpr ⟨head, hhead, _,
      (readBody_eq_some_iff (headerEnd_le hend) hlen (Nat.min_le_right _ _)).mpr ⟨hends, rfl⟩, hr⟩

end Answers

/-! ## Whole requests -/

/-- A stream has the whole header block and behind it as much of a body as this states. -/
def HoldsRequest (stream : List UInt8) : Prop :=
  ∃ n, headerEnd stream = some n ∧ n + statedLength (stream.take n) ≤ stream.length

/-- The body behind a header block of `n` bytes. -/
def sentBody (stream : List UInt8) (n : Nat) : List UInt8 :=
  (stream.drop n).take (statedLength (stream.take n))

/-- What a panel that acts on whole requests alone does with a connection. -/
structure ActsOnWhole (reads : List Read) (ending : Ending) : Prop where
  whole : ∀ r, readRequest reads ending = some r → HoldsRequest (received reads)
  anyCut : HoldsRequest (received reads) → (received reads).length ≤ maxRequestBytes →
    ∀ reads' ending', received reads' = received reads →
      readRequest reads' ending' = readRequest reads ending
  form : ∀ r n fields, readRequest reads ending = some r → r.method = "POST".toList →
    headerEnd (received reads) = some n →
    n + statedLength ((received reads).take n) ≤ (received reads).length →
    sentBody (received reads) n = Text.asBytes (serialize fields) →
    ∀ name, r.form.lookup name = lastValue fields name

/-- A body is taken to end before the length that is stated: this is no `usize`, or the
connection is closed within it, or a read ends where the most that is kept ends. -/
def CutShort (reads : List Read) (ending : Ending) (n stated : Nat) : Prop :=
  2 ^ 64 ≤ stated ∨
  (ending = .closed ∧ (received reads).length < n + min stated maxRequestBytes) ∨
  maxRequestBytes < stated ∧ ∃ part, part <+: reads ∧
    (received part).length = n + maxRequestBytes

/-- The fields that are sent have another value for some name than the bytes that are used. -/
def LosesField (body used : List UInt8) : Prop :=
  ∃ fields name, body = Text.asBytes (serialize fields) ∧
    (parseForm (Text.fromUtf8Lossy used)).lookup name ≠ lastValue fields name

/-- A request is acted on of which only a part has come or is used. -/
def ActsOnPart (reads : List Read) (ending : Ending) : Prop :=
  ∃ n head, HeaderComes reads n ∧ parseHead ((received reads).take n) = some head ∧
    CutShort reads ending n (statedLength ((received reads).take n)) ∧
    ((received reads).length < n + statedLength ((received reads).take n) ∨
      head.method = "POST".toList ∧ LosesField (sentBody (received reads) n)
        (((received reads).drop n).take
          (usedLength (statedLength ((received reads).take n)))))

/-- No body is cut short. -/
def BodiesWhole (reads : List Read) (ending : Ending) : Prop :=
  ∀ n, HeaderComes reads n → ¬ CutShort reads ending n (statedLength ((received reads).take n))

section Whole

variable {reads : List Read} {ending : Ending} {n stated : Nat}

theorem usedLength_of_lt (h : stated < 2 ^ 64) :
    usedLength stated = min stated maxRequestBytes := by
  rw [usedLength, usizeOrZero, if_pos h]

theorem maxRequestBytes_lt : maxRequestBytes < 2 ^ 64 := by decide

theorem CutShort.bodyEnds (hcomes : HeaderComes reads n)
    (h : CutShort reads ending n stated) : BodyEnds reads ending n (usedLength stated) := by
  by_cases hlarge : 2 ^ 64 ≤ stated
  · obtain ⟨part, hpart, hend, hlen⟩ := hcomes
    have hle := headerEnd_le hend
    have hzero : usedLength stated = 0 := by
      rw [usedLength, usizeOrZero, if_neg (Nat.not_lt.mpr hlarge), Nat.zero_min]
    exact .inl ⟨part, hpart, by omega, by omega⟩
  · rw [usedLength_of_lt (Nat.not_le.mp hlarge)]
    rcases h with h | h | ⟨hmax, part, hpart, hlen⟩
    · exact absurd h hlarge
    · exact .inr h
    · exact .inl ⟨part, hpart, by omega, by omega⟩

theorem BodyEnds.cutShort (h : BodyEnds reads ending n (usedLength stated))
    (hless : usedLength stated < stated ∨ (received reads).length < n + stated) :
    CutShort reads ending n stated := by
  by_cases hlarge : 2 ^ 64 ≤ stated
  · exact .inl hlarge
  · rw [usedLength_of_lt (Nat.not_le.mp hlarge)] at h hless
    rcases h with ⟨part, hpart, hlow, hhigh⟩ | h
    · have hle := (received_part hpart).length_le
      have hmax : maxRequestBytes < stated := by omega
      exact .inr (.inr ⟨hmax, part, hpart, by omega⟩)
    · exact .inr (.inl h)

theorem readRequest_of_holds (h : HoldsRequest (received reads))
    (hlen : (received reads).length ≤ maxRequestBytes) {r : Request} :
    readRequest reads ending = some r ↔
      ∃ n head, headerEnd (received reads) = some n ∧
        parseHead ((received reads).take n) = some head ∧
        head.request (sentBody (received reads) n) = r := by
  obtain ⟨m, hm, hwhole⟩ := h
  have hcomes : HeaderComes reads m := ⟨reads, List.prefix_rfl, hm, hlen⟩
  have hused : usedLength (statedLength ((received reads).take m)) =
      statedLength ((received reads).take m) := by
    have hmax := maxRequestBytes_lt
    rw [usedLength_of_lt (by omega)]
    omega
  rw [readRequest_eq_some_iff]
  refine exists_congr fun n => exists_congr fun head => ⟨?_, ?_⟩
  · rintro ⟨hn, hhead, -, hr⟩
    obtain rfl : m = n := Option.some.inj (hm.symm.trans hn.headerEnd_received)
    rw [hused] at hr
    exact ⟨hm, hhead, hr⟩
  · rintro ⟨hn, hhead, hr⟩
    obtain rfl : m = n := Option.some.inj (hm.symm.trans hn)
    rw [hused]
    exact ⟨hcomes, hhead, .inl ⟨reads, List.prefix_rfl, hwhole, by omega⟩, hr⟩

theorem lookup_form {fields : List (Text × Text)}
    (hbody : sentBody (received reads) n = Text.asBytes (serialize fields))
    (hused : usedLength (statedLength ((received reads).take n)) =
      statedLength ((received reads).take n)) (name : Text) :
    (parseForm (Text.fromUtf8Lossy (((received reads).drop n).take
      (usedLength (statedLength ((received reads).take n)))))).lookup name =
      lastValue fields name := by
  rw [hused]
  show (parseForm (Text.fromUtf8Lossy (sentBody (received reads) n))).lookup name = _
  rw [hbody, Text.fromUtf8Lossy_asBytes, lookup_parseForm]

theorem BodiesWhole.not_actsOnPart (h : BodiesWhole reads ending) : ¬ ActsOnPart reads ending := by
  rintro ⟨n, _, hcomes, _, hcut, _⟩
  exact h n hcomes hcut

theorem not_actsOnPart (h : ActsOnWhole reads ending) : ¬ ActsOnPart reads ending := by
  rintro ⟨n, head, hcomes, hhead, hcut, hpart⟩
  have hr : readRequest reads ending = some _ :=
    readRequest_eq_some_iff.mpr ⟨n, head, hcomes, hhead, hcut.bodyEnds hcomes, rfl⟩
  obtain ⟨m, hm, hwhole⟩ := h.whole _ hr
  obtain rfl : m = n := Option.some.inj (hm.symm.trans hcomes.headerEnd_received)
  rcases hpart with hshort | ⟨hpost, fields, name, hbody, hne⟩
  · omega
  · have hform := h.form _ m fields hr hpost hm hwhole hbody name
    rw [Head.request, if_pos hpost] at hform
    exact hne hform

theorem actsOnWhole_of_not_part (h : ¬ ActsOnPart reads ending) : ActsOnWhole reads ending := by
  refine ⟨fun r hr => ?_, fun hwhole hlen reads' ending' heq => ?_,
    fun r n fields hr hpost hend hwhole hbody name => ?_⟩
  · obtain ⟨n, head, hcomes, hhead, hends, -⟩ := readRequest_eq_some_iff.mp hr
    refine ⟨n, hcomes.headerEnd_received, ?_⟩
    by_contra hshort
    rw [Nat.not_le] at hshort
    exact h ⟨n, head, hcomes, hhead, hends.cutShort (.inr hshort), .inl hshort⟩
  · refine Option.ext fun r => ?_
    rw [readRequest_of_holds hwhole hlen, readRequest_of_holds (heq ▸ hwhole) (heq ▸ hlen), heq]
  · obtain ⟨m, head, hcomes, hhead, hends, rfl⟩ := readRequest_eq_some_iff.mp hr
    obtain rfl : m = n := Option.some.inj (hcomes.headerEnd_received.symm.trans hend)
    have hmethod : head.method = "POST".toList := hpost
    rw [Head.request, if_pos hmethod]
    by_contra hne
    have hless : usedLength (statedLength ((received reads).take m)) ≠
        statedLength ((received reads).take m) := fun hused => hne (lookup_form hbody hused name)
    have hle : usedLength (statedLength ((received reads).take m)) ≤
        statedLength ((received reads).take m) := by
      unfold usedLength usizeOrZero
      split <;> omega
    exact h ⟨m, head, hcomes, hhead, hends.cutShort (.inl (Nat.lt_of_le_of_ne hle hless)),
      .inr ⟨hmethod, fields, name, hbody, hne⟩⟩

end Whole

/-- **Only whole requests are acted on**, where no body is cut short, and where one is just if the
request is not acted on in part. -/
theorem actsOnWhole_iff (reads : List Read) (ending : Ending) :
    (BodiesWhole reads ending → ActsOnWhole reads ending) ∧
      (ActsOnWhole reads ending ↔ ¬ ActsOnPart reads ending) :=
  ⟨fun h => actsOnWhole_of_not_part h.not_actsOnPart, not_actsOnPart, actsOnWhole_of_not_part⟩

/-- A settings form of which the first field alone has come when the connection is closed. -/
def cutShort : Read where
  bytes := Text.asBytes ("POST /settings/config HTTP/1.1\r\nContent-Length: 27\r\n\r\n" ++
    "admins=root").toList
  nonempty := by decide +kernel
  fits := by decide +kernel

/-- The second field, with what separates it from the first. -/
def secondField : Read where
  bytes := Text.asBytes "&address=0.0.0.0".toList
  nonempty := by decide +kernel
  fits := by decide +kernel

/-- A form that comes in two reads is acted on as a whole. -/
theorem actsOnWhole_twoReads : ActsOnWhole [cutShort, secondField] .closed := by
  have hend : headerEnd (received [cutShort, secondField]) = some 54 := by decide +kernel
  have hstated : statedLength ((received [cutShort, secondField]).take 54) = 27 := by decide +kernel
  have hlength : (received [cutShort, secondField]).length = 81 := by decide +kernel
  refine (actsOnWhole_iff [cutShort, secondField] .closed).1 fun n hcomes => ?_
  obtain rfl : 54 = n := Option.some.inj (hend.symm.trans hcomes.headerEnd_received)
  rw [hstated]
  rintro (hlarge | ⟨_, hshort⟩ | ⟨hmax, _⟩)
  · omega
  · rw [hlength] at hshort
    omega
  · exact absurd hmax (by decide)

/-- The first field is acted on as if it were all of the form. -/
theorem not_actsOnWhole_cutShort : ¬ ActsOnWhole [cutShort] .closed := by
  intro h
  have hend : headerEnd (received [cutShort]) = some 54 := by decide +kernel
  have hshort : (received [cutShort]).length <
      54 + min (statedLength ((received [cutShort]).take 54)) maxRequestBytes := by decide +kernel
  have hhead : (parseHead ((received [cutShort]).take 54)).isSome = true := by decide +kernel
  have hcomes : HeaderComes [cutShort] 54 :=
    ⟨_, List.prefix_rfl, hend, by decide +kernel⟩
  obtain ⟨head, hhead⟩ := Option.isSome_iff_exists.mp hhead
  obtain ⟨n, hn, hwhole⟩ := h.whole _ (readRequest_eq_some_iff.mpr
    ⟨54, head, hcomes, hhead, CutShort.bodyEnds hcomes (.inr (.inl ⟨rfl, hshort⟩)), rfl⟩)
  obtain rfl : 54 = n := Option.some.inj (hend.symm.trans hn)
  exact Nat.not_lt.mpr ((Nat.add_le_add_left (Nat.min_le_left _ _) 54).trans hwhole) hshort

end CommandCenter.Daemon.Admin
