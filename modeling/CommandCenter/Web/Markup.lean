import CommandCenter.Library.Html
import CommandCenter.Web.Php

/-!
# The formatting language of posts

What `markup.php` makes of a post: paragraphs, lists and headings, and within a line code spans,
links, bold and italic. A link is held out of the later rewrites by a marker of control characters,
which a post may hold too.

* `markupLinks_built`: the five rewrites of a line, one after another.
* `markup_spec`: a page of escaped text and of the tags that are written here.
-/

namespace CommandCenter.Web

open Library

/-! ## Within a line -/

/-- `/(\x60[^\x60]+\x60)/`, a code span between its marks. -/
def codeSpan : Pattern UInt8 :=
  .group (seqs [is '\x60', .run (· != '\x60'.toUInt8) 1 none false, is '\x60'])

/-- `https?:\/\/` -/
def scheme : Pattern UInt8 :=
  seqs [literal "http", .run (· == 's'.toUInt8) 0 (some 1) false, literal "://"]

/-- `/\[([^\]]+)\]\(((?:https?:\/\/|\/)[^\s)]+)\)/` -/
def explicitLink : Pattern UInt8 :=
  seqs [is '[', .group (.run (· != ']'.toUInt8) 1 none false), literal "](",
    .group (.seq (.or scheme (is '/'))
      (.run (fun b => !space b && b != ')'.toUInt8) 1 none false)), is ')']

/-- `/\bhttps?:\/\/[^\s<]+[^\s<.,;:!?)]/` -/
def bareLink : Pattern UInt8 :=
  seqs [boundary, scheme, .run (fun b => !space b && b != '<'.toUInt8) 1 none false,
    one fun b => !space b && !(str "<.,;:!?)").contains b]

/-- `/\*\*(.+?)\*\*/` -/
def bold : Pattern UInt8 := seqs [literal "**", .group (.run anyByte 1 none true), literal "**"]

/-- A byte that no mark of italic text may stand next to. -/
def starOrWord (b : UInt8) : Bool := b == '*'.toUInt8 || word b

/-- `/(?<![*\w])\*(?!\s)(.+?)(?<!\s)\*(?![*\w])/` -/
def italic : Pattern UInt8 :=
  seqs [notBehind starOrWord, is '*', notBefore space, .group (.run anyByte 1 none true),
    notBehind space, is '*', notBefore starOrWord]

/-- `/\x01(\d+)\x02/` -/
def linkMarker : Pattern UInt8 :=
  seqs [one (· == 1), .group (.run (fun b => 48 ≤ b && b ≤ 57) 1 none false), one (· == 2)]

def anchorTag (url : Str) : Str := str "<a href=\"" ++ url ++ str "\" rel=\"noopener\">"

/-- The marker that stands for a link, which is put to the links there are. -/
def holdOut (url text : Str) (links : List Str) : Str × List Str :=
  ([1] ++ str (toString links.length) ++ [2], links ++ [anchorTag url ++ text ++ str "</a>"])

/-- `(int)` of digits. -/
def number (digits : Str) : Nat := digits.foldl (fun n b => n * 10 + (b.toNat - 48)) 0

/-- The text with its links held out, and the links. -/
def holdOutLinks (escaped : Str) : Str × List Str :=
  let explicit := pregReplace explicitLink
    (fun links m => holdOut (capture m 2) (capture m 1) links) [] escaped
  pregReplace bareLink (fun links m => holdOut m.text m.text links) explicit.2 explicit.1

/-- `preg_replace` by what the first group has captured, between two tags. -/
def between (p : Pattern UInt8) (opening closing : String) (s : Str) : Str :=
  (pregReplace p (fun _ m => (str opening ++ capture m 1 ++ str closing, ())) () s).1

def markupLinks (escaped : Str) : Str :=
  let held := holdOutLinks escaped
  let marked := between italic "<i>" "</i>" (between bold "<b>" "</b>" held.1)
  (pregReplace linkMarker (fun _ m => (held.2.getD (number (capture m 1)) [], ())) () marked).1

/-- One part of a line: a code span, or text that is formatted. -/
def markupPart (part : Str) : Str :=
  if 2 < part.length ∧ part.head? = some '\x60'.toUInt8 ∧ part.getLast? = some '\x60'.toUInt8 then
    str "<code>" ++ h (part.drop 1).dropLast ++ str "</code>"
  else markupLinks (h part)

def markupInline (line : Str) : Str := ((pregSplit codeSpan line).map markupPart).flatten

/-! ## Lines -/

/-- `/^\s{0,3}#{1,6}\s+(.+?)\s*#*\s*$/` -/
def heading : Pattern UInt8 :=
  seqs [start, .run space 0 (some 3) false, .run (· == '#'.toUInt8) 1 (some 6) false,
    .run space 1 none false, .group (.run anyByte 1 none true), .run space 0 none false,
    .run (· == '#'.toUInt8) 0 none false, .run space 0 none false, stop]

/-- `/^\s*[-*+]\s+(.*)$/` -/
def listItem : Pattern UInt8 :=
  seqs [start, .run space 0 none false, one (str "-*+").contains, .run space 1 none false,
    .group (.run anyByte 0 none false), stop]

structure Page where
  html : List Str
  paragraph : List Str
  list : List Str

def paragraphHtml (paragraph : List Str) : Str :=
  str "<p>" ++ implode (str "<br>\n") (paragraph.map markupInline) ++ str "</p>"

def listHtml (list : List Str) : Str :=
  str "<ul class=\"post-list\">" ++
    (list.map fun item => str "<li>" ++ markupInline item ++ str "</li>").flatten ++ str "</ul>"

def headingHtml (text : Str) : Str :=
  str "<h3 class=\"post-h\">" ++ markupInline text ++ str "</h3>"

/-- The closure `$flush`: the paragraph, then the list. -/
def Page.flush (page : Page) : Page :=
  let html := if page.paragraph = [] then page.html
    else page.html ++ [paragraphHtml page.paragraph]
  ⟨if page.list = [] then html else html ++ [listHtml page.list], [], []⟩

def Page.line (page : Page) (line : Str) : Page :=
  if trim line = [] then page.flush
  else match pregMatch heading line with
    | some m => { page.flush with html := page.flush.html ++ [headingHtml (capture m 1)] }
    | none =>
      match pregMatch listItem line with
      | some m =>
        let page := if page.paragraph = [] then page else page.flush
        { page with list := page.list ++ [capture m 1] }
      | none =>
        let page := if page.list = [] then page else page.flush
        { page with paragraph := page.paragraph ++ [line] }

def markup (text : Str) : Str :=
  let source := strReplace [13] [10] (strReplace [13, 10] [10] (trim text))
  implode [10] ((lines source).foldl Page.line ⟨[], [], []⟩).flush.html

/-! ## What fits the patterns -/

section Fitting

variable {p : Pattern UInt8} {more : List (Pattern UInt8)} {w : Str} {caps : List Str}

@[simp] theorem fits_nil : (seqs []).Fits w caps ↔ w = [] ∧ caps = [] := by
  constructor
  · intro h
    cases h
    exact ⟨rfl, rfl⟩
  · rintro ⟨rfl, rfl⟩
    exact .here

@[simp] theorem fits_cons : (seqs (p :: more)).Fits w caps ↔
    ∃ v first, p.Fits v first ∧ ∃ u rest, (seqs more).Fits u rest ∧ w = v ++ u ∧
      caps = first ++ rest := by
  constructor
  · intro h
    cases h with
    | seq ha hb => exact ⟨_, _, ha, _, _, hb, rfl, rfl⟩
  · rintro ⟨v, first, ha, u, rest, hb, rfl, rfl⟩
    exact .seq ha hb

@[simp] theorem fits_here {test : Place UInt8 → Bool} :
    (Pattern.here test).Fits w caps ↔ w = [] ∧ caps = [] := by
  constructor
  · intro h
    cases h
    exact ⟨rfl, rfl⟩
  · rintro ⟨rfl, rfl⟩
    exact .here

@[simp] theorem fits_run {kind : UInt8 → Bool} {least : Nat} {most : Option Nat} {lazy : Bool} :
    (Pattern.run kind least most lazy).Fits w caps ↔ caps = [] ∧ (∀ c ∈ w, kind c = true) ∧
      least ≤ w.length ∧ ∀ n ∈ most, w.length ≤ n := by
  constructor
  · intro h
    cases h with
    | run hkind hleast hmost => exact ⟨rfl, hkind, hleast, hmost⟩
  · rintro ⟨rfl, hkind, hleast, hmost⟩
    exact .run hkind hleast hmost

@[simp] theorem fits_group :
    (Pattern.group p).Fits w caps ↔ caps = [w] ∧ ∃ inner, p.Fits w inner := by
  constructor
  · intro h
    cases h with
    | group ha => exact ⟨rfl, _, ha⟩
  · rintro ⟨rfl, inner, ha⟩
    exact .group ha

@[simp] theorem fits_one {kind : UInt8 → Bool} :
    (one kind).Fits w caps ↔ ∃ b, kind b = true ∧ w = [b] ∧ caps = [] := by
  unfold one
  rw [fits_run]
  constructor
  · rintro ⟨rfl, hkind, hleast, hmost⟩
    obtain ⟨b, rfl⟩ := List.length_eq_one_iff.mp (Nat.le_antisymm (hmost 1 rfl) hleast)
    exact ⟨b, hkind b List.mem_cons_self, rfl, rfl⟩
  · rintro ⟨b, hb, rfl, rfl⟩
    simp [hb]

@[simp] theorem fits_is {c : Char} : (is c).Fits w caps ↔ w = [c.toUInt8] ∧ caps = [] := by
  simp [is]

@[simp] theorem fits_literal {s : String} : (literal s).Fits w caps ↔ w = str s ∧ caps = [] := by
  unfold literal str
  induction s.toList generalizing w caps with
  | nil => simp
  | cons c letters ih => simp [ih, and_comm]

/-- What the value of an `href` may begin with. -/
def Linked (url : Str) : Prop := str "http://" <+: url ∨ str "https://" <+: url ∨ str "/" <+: url

theorem Linked.append {url : Str} (h : Linked url) (s : Str) : Linked (url ++ s) :=
  h.imp (·.trans (List.prefix_append _ _))
    (·.imp (·.trans (List.prefix_append _ _)) (·.trans (List.prefix_append _ _)))

theorem fits_scheme (h : scheme.Fits w caps) : Linked w ∧ caps = [] := by
  simp only [scheme, fits_cons, fits_literal, fits_run, fits_nil] at h
  obtain ⟨_, _, ⟨rfl, rfl⟩, _, _, ⟨letters, _, ⟨rfl, hkind, -, hmost⟩, _, _,
    ⟨_, _, ⟨rfl, rfl⟩, _, _, ⟨rfl, rfl⟩, rfl, rfl⟩, rfl, rfl⟩, rfl, rfl⟩ := h
  refine ⟨?_, rfl⟩
  cases letters with
  | nil => exact .inl (List.prefix_refl _)
  | cons b letters =>
    have hlen : letters.length + 1 ≤ 1 := hmost 1 rfl
    obtain rfl := List.length_eq_zero_iff.mp (Nat.le_zero.mp (Nat.le_of_succ_le_succ hlen))
    obtain rfl := beq_iff_eq.mp (hkind b List.mem_cons_self)
    exact .inr (.inl (List.prefix_refl _))

theorem fits_explicitLink (h : explicitLink.Fits w caps) :
    ∃ text url, caps = [text, url] ∧ w = str "[" ++ text ++ str "](" ++ url ++ str ")" ∧
      Linked url := by
  simp [explicitLink, str] at h ⊢
  obtain ⟨text, url, ⟨-, inner, hurl⟩, hw, hcaps⟩ := h
  refine ⟨text, url, hcaps, hw, ?_⟩
  cases hurl with
  | seq hbegin _ =>
    refine Linked.append ?_ _
    cases hbegin with
    | left hscheme => exact (fits_scheme hscheme).1
    | right hslash =>
      obtain ⟨rfl, -⟩ := fits_is.mp hslash
      exact .inr (.inr (List.prefix_refl _))

theorem fits_bareLink (h : bareLink.Fits w caps) : Linked w := by
  simp only [bareLink, boundary, fits_cons, fits_here] at h
  obtain ⟨_, _, ⟨rfl, rfl⟩, _, _, ⟨url, _, hscheme, _, _, -, rfl, -⟩, rfl, -⟩ := h
  exact (fits_scheme hscheme).1.append _

theorem fits_bold (h : bold.Fits w caps) :
    ∃ inside, caps = [inside] ∧ w = str "**" ++ inside ++ str "**" := by
  simp [bold] at h ⊢
  obtain ⟨inside, -, hw, hcaps⟩ := h
  exact ⟨inside, hcaps, hw⟩

theorem fits_italic (h : italic.Fits w caps) :
    ∃ inside, caps = [inside] ∧ w = '*'.toUInt8 :: inside ++ ['*'.toUInt8] := by
  simp [italic, notBehind, notBefore] at h ⊢
  obtain ⟨inside, -, hw, hcaps⟩ := h
  exact ⟨inside, hcaps, hw⟩

theorem fits_linkMarker (h : linkMarker.Fits w caps) :
    ∃ digits, caps = [digits] ∧ w = 1 :: digits ++ [2] := by
  simp [linkMarker] at h ⊢
  obtain ⟨digits, -, hw, hcaps⟩ := h
  exact ⟨digits, hcaps, hw⟩

end Fitting

/-! ## The rewrites of a line -/

/-- The tags that are written, links apart. -/
def fixedTags : List Str :=
  ["<p>", "</p>", "<br>", "<ul class=\"post-list\">", "</ul>", "<li>", "</li>",
    "<h3 class=\"post-h\">", "</h3>", "<code>", "</code>", "<b>", "</b>", "<i>", "</i>",
    "</a>"].map str

/-- A tag that is written. What a link leads to is plain, and of a scheme that is allowed. -/
inductive IsTag : Str → Prop
  | fixed {tag : Str} (h : tag ∈ fixedTags) : IsTag tag
  | anchor {url : Str} (hplain : ∀ b ∈ url, Plain b) (hlinked : Linked url) :
      IsTag (anchorTag url)

/-- The tags of bold and italic text. -/
def IsMark (tag : Str) : Prop := tag ∈ ["<b>", "</b>", "<i>", "</i>"].map str

instance : DecidablePred IsMark := fun _ => inferInstanceAs (Decidable (_ ∈ _))

/-- Text that is escaped, and tags. -/
abbrev Marked (s : Str) : Prop := Built Plain IsTag s

theorem marked_tag {s : String} (h : str s ∈ fixedTags) : Marked (str s) :=
  .of_block (.fixed h)

theorem marked_link {url text : Str} (hurl : ∀ b ∈ url, Plain b) (hlinked : Linked url)
    (htext : ∀ b ∈ text, Plain b) : Marked (anchorTag url ++ text ++ str "</a>") :=
  ((Built.of_block (.anchor hurl hlinked)).append (.of_letters htext)).append
    (marked_tag (by decide))

section Rewrites

variable {p : Pattern UInt8} {s : Str} {letter : UInt8 → Prop}

/-- Where a text consists of letters of a kind, so do its gaps and what is found in it. -/
theorem letters_findAll (h : ∀ b ∈ s, letter b) :
    (∀ r ∈ (p.findAll s).1, (∀ b ∈ r.1, letter b) ∧ ∀ b ∈ r.2.text, letter b) ∧
      ∀ b ∈ (p.findAll s).2, letter b := by
  obtain ⟨hsplit, -⟩ := p.findAll_spec s
  rw [hsplit, List.forall_mem_append] at h
  refine ⟨fun r hr => ?_, h.2⟩
  have hboth : ∀ b ∈ r.1 ++ r.2.text, letter b := fun b hb =>
    h.1 b (List.mem_flatMap.mpr ⟨r, hr, hb⟩)
  exact List.forall_mem_append.mp hboth

theorem fits_findAll {r : Str × Found UInt8} (hr : r ∈ (p.findAll s).1) :
    p.Fits r.2.text r.2.captures := (p.findAll_spec s).2 r hr

theorem plain_digit {c : Char} (h : c.isDigit = true) : Plain c.toUInt8 := by
  simp only [Char.isDigit, Bool.and_eq_true, decide_eq_true_eq, UInt32.le_iff_toNat_le] at h
  have hlow : 48 ≤ c.toNat := h.1
  have hhigh : c.toNat ≤ 57 := h.2
  have hnat : c.toUInt8.toNat = c.toNat % 256 := UInt8.toNat_ofNat'
  have hother {b : UInt8} (hb : 57 < b.toNat ∨ b.toNat < 48) : c.toUInt8 ≠ b := by
    intro heq
    rw [heq] at hnat
    omega
  exact ⟨hother (.inl (by decide)), hother (.inl (by decide)), hother (.inr (by decide))⟩

theorem plain_toString (n : Nat) : ∀ b ∈ str (toString n), Plain b := by
  intro b hb
  obtain ⟨c, hc, rfl⟩ := List.mem_map.mp hb
  have hdigits : (toString n).toList = Nat.toDigits 10 n := Nat.toList_repr
  rw [hdigits] at hc
  exact plain_digit (Nat.isDigit_of_mem_toDigits (by decide) (by decide) hc)

/-- What stands for a link is plain, and the links stay links. -/
theorem holdOut_spec {url text : Str} {links : List Str} (hurl : ∀ b ∈ url, Plain b)
    (hlinked : Linked url) (htext : ∀ b ∈ text, Plain b) (hlinks : ∀ link ∈ links, Marked link) :
    (∀ b ∈ (holdOut url text links).1, Plain b) ∧
      ∀ link ∈ (holdOut url text links).2, Marked link := by
  constructor
  · simp only [holdOut, List.forall_mem_append]
    exact ⟨⟨plain_literal (by decide), plain_toString _⟩, plain_literal (by decide)⟩
  · simp only [holdOut, List.forall_mem_append, List.forall_mem_singleton]
    exact ⟨hlinks, marked_link hurl hlinked htext⟩

theorem holdOutLinks_spec (h : ∀ b ∈ s, Plain b) :
    (∀ b ∈ (holdOutLinks s).1, Plain b) ∧ ∀ link ∈ (holdOutLinks s).2, Marked link := by
  have happend (s t : Str) (hs : ∀ b ∈ s, Plain b) (ht : ∀ b ∈ t, Plain b) :
      ∀ b ∈ s ++ t, Plain b := List.forall_mem_append.mpr ⟨hs, ht⟩
  have hexplicit := letters_findAll (p := explicitLink) h
  have hnone : ∀ link ∈ ([] : List Str), Marked link := by simp
  obtain ⟨hfirst, hlinks⟩ := Pattern.replace_spec
    (f := fun links m => holdOut (capture m 2) (capture m 1) links)
    (I := fun links => ∀ link ∈ links, Marked link) happend
    (fun r hr => (hexplicit.1 r hr).1) hexplicit.2 hnone fun links hlinks r hr => by
      obtain ⟨text, url, hcaptures, htext, hlinked⟩ := fits_explicitLink (fits_findAll hr)
      have hplain := (hexplicit.1 r hr).2
      rw [htext] at hplain
      simp only [List.forall_mem_append] at hplain
      rw [capture, capture, hcaptures]
      exact holdOut_spec hplain.1.2 hlinked hplain.1.1.1.2 hlinks
  have hbare := letters_findAll (p := bareLink) hfirst
  exact Pattern.replace_spec (I := fun links => ∀ link ∈ links, Marked link) happend
    (fun r hr => (hbare.1 r hr).1) hbare.2 hlinks fun links hlinks r hr =>
      have hplain := (hbare.1 r hr).2
      holdOut_spec hplain (fits_bareLink (fits_findAll hr)) hplain hlinks

theorem between_bold (h : ∀ b ∈ s, Plain b) : Built Plain IsMark (between bold "<b>" "</b>" s) := by
  have hbold := letters_findAll (p := bold) h
  refine (Pattern.replace_spec (I := fun _ => True) (fun _ _ => Built.append)
    (fun r hr => .of_letters (hbold.1 r hr).1) (.of_letters hbold.2) trivial ?_).1
  intro _ _ r hr
  obtain ⟨inside, hcaptures, htext⟩ := fits_bold (fits_findAll hr)
  have hplain := (hbold.1 r hr).2
  rw [htext] at hplain
  simp only [List.forall_mem_append] at hplain
  rw [capture, hcaptures]
  have hopen : IsMark (str "<b>") := by decide
  have hclose : IsMark (str "</b>") := by decide
  exact ⟨((Built.of_block hopen).append (.of_letters hplain.1.2)).append (.of_block hclose), trivial⟩

/-- Text between two bytes that no block has is replaced, by what its own inside allows. -/
theorem replaced_built {block block' : Str → Prop} {f : Found UInt8 → Str}
    (hmarks : ∀ w caps, p.Fits w caps → ∃ a b inside, caps = [inside] ∧ w = a :: inside ++ [b] ∧
      ∀ t, block t → a ∉ t ∧ b ∉ t)
    (hmono : ∀ t, block t → block' t)
    (hf : ∀ m, Built Plain block (capture m 1) → Built Plain block' (f m))
    (h : Built Plain block s) : Built Plain block' (pregReplace p (fun _ m => (f m, ())) () s).1 := by
  rw [(p.findAll_spec s).1] at h
  obtain ⟨hall, hlast⟩ := Built.cuts (fun m => capture m 1) (fun r hr => by
    obtain ⟨a, b, inside, hcaptures, htext, hnot⟩ := hmarks _ _ (fits_findAll hr)
    refine ⟨a, b, ?_, fun t ht => (hnot t ht).1, fun t ht => (hnot t ht).2⟩
    rw [capture, hcaptures]
    exact htext) h
  exact (Pattern.replace_spec (I := fun _ => True) (fun _ _ => Built.append)
    (fun r hr => (hall r hr).1.mono hmono) (hlast.mono hmono) trivial
    fun _ _ r hr => ⟨hf r.2 (hall r hr).2, trivial⟩).1

theorem notMem_mark {t : Str} (h : IsMark t) : '*'.toUInt8 ∉ t ∧ 1 ∉ t ∧ 2 ∉ t := by
  have hall : ∀ t ∈ ["<b>", "</b>", "<i>", "</i>"].map str,
      '*'.toUInt8 ∉ t ∧ 1 ∉ t ∧ 2 ∉ t := by decide
  exact hall t h

theorem isTag_mark {t : Str} (h : IsMark t) : IsTag t := by
  have hall : ∀ t ∈ ["<b>", "</b>", "<i>", "</i>"].map str, t ∈ fixedTags := by decide
  exact .fixed (hall t h)

theorem between_italic (h : Built Plain IsMark s) :
    Built Plain IsMark (between italic "<i>" "</i>" s) := by
  refine replaced_built (fun w caps hfits => ?_) (fun _ ht => ht) (fun m hinside => ?_) h
  · obtain ⟨inside, hcaptures, htext⟩ := fits_italic hfits
    exact ⟨_, _, inside, hcaptures, htext, fun t ht => ⟨(notMem_mark ht).1, (notMem_mark ht).1⟩⟩
  · have hopen : IsMark (str "<i>") := by decide
    have hclose : IsMark (str "</i>") := by decide
    exact ((Built.of_block hopen).append hinside).append (.of_block hclose)

/-- The links put back. -/
theorem restored_built {links : List Str} (h : Built Plain IsMark s)
    (hlinks : ∀ link ∈ links, Marked link) :
    Marked (pregReplace linkMarker
      (fun _ m => (links.getD (number (capture m 1)) [], ())) () s).1 := by
  refine replaced_built (fun w caps hfits => ?_) (fun _ ht => isTag_mark ht) (fun m _ => ?_) h
  · obtain ⟨digits, hcaptures, htext⟩ := fits_linkMarker hfits
    exact ⟨_, _, digits, hcaptures, htext, fun t ht => (notMem_mark ht).2⟩
  · rw [List.getD_eq_getElem?_getD]
    cases hlink : links[number (capture m 1)]? with
    | none => exact .nil
    | some link => exact hlinks link (List.mem_of_getElem? hlink)

/-- The five rewrites of a line. -/
theorem markupLinks_built (h : ∀ b ∈ s, Plain b) : Marked (markupLinks s) := by
  obtain ⟨hheld, hlinks⟩ := holdOutLinks_spec h
  exact restored_built (between_italic (between_bold hheld)) hlinks

theorem markupPart_built (part : Str) : Marked (markupPart part) := by
  unfold markupPart
  split
  · exact ((marked_tag (by decide)).append (.of_letters (plain_h _))).append
      (marked_tag (by decide))
  · exact markupLinks_built (plain_h part)

theorem markupInline_built (line : Str) : Marked (markupInline line) := by
  refine Built.flatten fun part hpart => ?_
  obtain ⟨source, -, rfl⟩ := List.mem_map.mp hpart
  exact markupPart_built source

end Rewrites

/-! ## A page -/

section Pages

variable {separator : Str} {parts : List Str} {page : Page}

theorem marked_implode (hseparator : Marked separator) (h : ∀ part ∈ parts, Marked part) :
    Marked (implode separator parts) := by
  unfold implode
  induction parts with
  | nil => exact .nil
  | cons part parts ih =>
    rw [List.forall_mem_cons] at h
    cases parts with
    | nil =>
      rw [List.intercalate_singleton]
      exact h.1
    | cons next parts =>
      rw [List.intercalate_cons_cons]
      exact (h.1.append hseparator).append (ih h.2)

theorem marked_paragraphHtml (paragraph : List Str) : Marked (paragraphHtml paragraph) := by
  have hbreak : Marked (str "<br>\n") :=
    (marked_tag (s := "<br>") (by decide)).append (.of_letters (plain_literal (by decide)))
  refine ((marked_tag (by decide)).append (marked_implode hbreak fun part hpart => ?_)).append
    (marked_tag (by decide))
  obtain ⟨line, -, rfl⟩ := List.mem_map.mp hpart
  exact markupInline_built line

theorem marked_listHtml (list : List Str) : Marked (listHtml list) := by
  refine ((marked_tag (by decide)).append (.flatten fun part hpart => ?_)).append
    (marked_tag (by decide))
  obtain ⟨item, -, rfl⟩ := List.mem_map.mp hpart
  exact ((marked_tag (by decide)).append (markupInline_built item)).append (marked_tag (by decide))

theorem marked_headingHtml (text : Str) : Marked (headingHtml text) :=
  ((marked_tag (by decide)).append (markupInline_built text)).append (marked_tag (by decide))

/-- What a page has been made of so far. -/
def Page.Marked (page : Page) : Prop := ∀ part ∈ page.html, Web.Marked part

theorem Page.Marked.flush (h : page.Marked) : page.flush.Marked := by
  have hparagraph : ∀ part ∈ (if page.paragraph = [] then page.html
      else page.html ++ [paragraphHtml page.paragraph]), Web.Marked part := by
    split
    · exact h
    · rw [List.forall_mem_append, List.forall_mem_singleton]
      exact ⟨h, marked_paragraphHtml _⟩
  unfold Page.Marked Page.flush
  dsimp only
  split
  · exact hparagraph
  · rw [List.forall_mem_append, List.forall_mem_singleton]
    exact ⟨hparagraph, marked_listHtml _⟩

theorem Page.Marked.line (h : page.Marked) (line : Str) : (page.line line).Marked := by
  unfold Page.line
  split
  · exact h.flush
  · split
    · unfold Page.Marked
      dsimp only
      rw [List.forall_mem_append, List.forall_mem_singleton]
      exact ⟨h.flush, marked_headingHtml _⟩
    · split
      · dsimp only
        split
        · exact h
        · exact h.flush
      · dsimp only
        split
        · exact h
        · exact h.flush

theorem Page.Marked.lines (h : page.Marked) (lines : List Str) :
    (lines.foldl Page.line page).Marked := by
  induction lines generalizing page with
  | nil => exact h
  | cons line lines ih => exact ih (h.line line)

theorem markup_marked (text : Str) : Marked (markup text) := by
  have hempty : Page.Marked ⟨[], [], []⟩ := by simp [Page.Marked]
  exact marked_implode (.of_letters (plain_literal (by decide))) (hempty.lines _).flush

end Pages

/-! ## What a browser reads -/

/-- The bytes as characters. Those of ASCII decide what is a tag. -/
def characters (s : Str) : List Char := s.map Char.ofUInt8

def readTag (name : String) (attrs : List (String × String)) :
    List Char × List (List Char × List Char) :=
  (name.toList, attrs.map fun a => (a.1.toList, a.2.toList))

/-- `fixedTags`, read. -/
def readTags : List (List Char × List (List Char × List Char)) :=
  [readTag "p" [], readTag "/p" [], readTag "br" [], readTag "ul" [("class", "post-list")],
    readTag "/ul" [], readTag "li" [], readTag "/li" [], readTag "h3" [("class", "post-h")],
    readTag "/h3" [], readTag "code" [], readTag "/code" [], readTag "b" [], readTag "/b" [],
    readTag "i" [], readTag "/i" [], readTag "/a" []]

/-- What a browser may read in a page: a character that marks nothing up, one of the tags, or the
tag of a link that leads where it may. -/
def Allowed : Html.Token → Prop
  | .char c => c ≠ '<' ∧ c ≠ '>' ∧ c ≠ '"'
  | .tag name attrs => (name, attrs) ∈ readTags ∨
      name = "a".toList ∧ ∃ url, (∀ b ∈ url, Plain b) ∧ Linked url ∧
        attrs = [("href".toList, characters url), ("rel".toList, "noopener".toList)]

section Reading

variable {s : Str}

theorem ofUInt8_ne {b : UInt8} {c : Char} (hc : c.toNat < 256) (h : b ≠ c.toUInt8) :
    Char.ofUInt8 b ≠ c := by
  rintro rfl
  refine h (UInt8.toNat.inj ?_)
  have hnat : (Char.ofUInt8 b).toUInt8.toNat = (Char.ofUInt8 b).toNat % 256 := UInt8.toNat_ofNat'
  have hbyte : (Char.ofUInt8 b).toNat = b.toNat := UInt8.toNat_toUInt32 b
  omega

theorem allowed_char {b : UInt8} (h : Plain b) : Allowed (.char (Char.ofUInt8 b)) :=
  ⟨ofUInt8_ne (by decide) h.1, ofUInt8_ne (by decide) h.2.1, ofUInt8_ne (by decide) h.2.2⟩

theorem reads_fixed {tag : Str} (h : tag ∈ fixedTags) :
    ∃ t ∈ readTags, Html.Reads .data (characters tag) [.tag t.1 t.2] .data := by
  have hall : ∀ tag ∈ fixedTags, ∃ t ∈ readTags,
      Html.Reads .data (characters tag) [.tag t.1 t.2] .data := by decide
  exact hall tag h

theorem reads_anchor {url : Str} (h : ∀ b ∈ url, Plain b) :
    Html.Reads .data (characters (anchorTag url)) [.tag "a".toList
      [("href".toList, characters url), ("rel".toList, "noopener".toList)]] .data := by
  have hquote : '"' ∉ characters url := by
    intro hmem
    obtain ⟨b, hb, heq⟩ := List.mem_map.mp hmem
    exact (allowed_char (h b hb)).2.2 heq
  have hopen : Html.Reads .data (characters (str "<a href=\"")) []
      (.attributeValueQuoted "a".toList [] "href".toList '"' []) := by decide
  have hclose (value : List Char) : Html.Reads
      (.attributeValueQuoted "a".toList [] "href".toList '"' value)
      (characters (str "\" rel=\"noopener\">"))
      [.tag "a".toList [("href".toList, value), ("rel".toList, "noopener".toList)]] .data :=
    ⟨rfl, rfl⟩
  unfold characters anchorTag
  rw [List.map_append, List.map_append]
  exact (hopen.append (Html.reads_value _ _ _ _ hquote)).append (hclose _)

theorem marked_reads (h : Marked s) :
    ∃ ts, Html.Reads .data (characters s) ts .data ∧ ∀ t ∈ ts, Allowed t := by
  induction h with
  | nil => exact ⟨[], ⟨rfl, rfl⟩, by simp⟩
  | @letter b s hb _ ih =>
    obtain ⟨ts, hreads, hall⟩ := ih
    have hstep : Html.step .data (Char.ofUInt8 b) = ([.char (Char.ofUInt8 b)], .data) :=
      if_neg (allowed_char hb).1
    exact ⟨_, Html.Reads.cons hstep hreads, List.forall_mem_cons.mpr ⟨allowed_char hb, hall⟩⟩
  | @block tag s htag _ ih =>
    obtain ⟨ts, hreads, hall⟩ := ih
    unfold characters
    rw [List.map_append]
    cases htag with
    | fixed hfixed =>
      obtain ⟨t, ht, htag⟩ := reads_fixed hfixed
      exact ⟨_, htag.append hreads, List.forall_mem_cons.mpr ⟨.inl ht, hall⟩⟩
    | @anchor url hplain hlinked =>
      exact ⟨_, (reads_anchor hplain).append hreads,
        List.forall_mem_cons.mpr ⟨.inr ⟨rfl, url, hplain, hlinked, rfl⟩, hall⟩⟩

end Reading

/-- **Whatever a post holds, it is escaped text and the tags that are written here**: so a browser
reads no other tag, no other attribute and no link of another scheme. -/
theorem markup_spec (text : Str) : Built Plain IsTag (markup text) ∧
    ∀ token ∈ Html.tokens .data (characters (markup text)), Allowed token := by
  refine ⟨markup_marked text, ?_⟩
  obtain ⟨ts, hreads, hall⟩ := marked_reads (markup_marked text)
  rw [hreads.1]
  exact hall

end CommandCenter.Web
