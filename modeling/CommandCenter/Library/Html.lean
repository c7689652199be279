import Mathlib.Data.List.Basic

/-!
# Reading a page

The part of a browser's tokenizer that pages of plain elements need: characters, and tags with
attributes whose values may be quoted. Values and text are as they stand in the page; `unescape`
undoes the character references for the characters that mark up a page. A script that is an
attribute's value is read as far as its string literals.

* `Reads.append`, `reads_chars`, `reads_value`: a page piece by piece.
* `Inert`: a piece of a page that leaves the tokenizer between tags and lacks an attribute.
* `unescape_append`, `isPlain_append`, `withoutStrings_plain`: values and scripts piece by piece.
-/

namespace CommandCenter.Library.Html

inductive Token where
  | char (c : Char)
  /-- A tag, a closing one with its `/`. -/
  | tag (name : List Char) (attrs : List (List Char × List Char))
  deriving DecidableEq

inductive Mode where
  | data
  | tagOpen
  | tagName (name : List Char)
  | beforeAttributeName (name : List Char) (attrs : List (List Char × List Char))
  | attributeName (name : List Char) (attrs : List (List Char × List Char)) (attr : List Char)
  | afterAttributeName (name : List Char) (attrs : List (List Char × List Char))
      (attr : List Char)
  | beforeAttributeValue (name : List Char) (attrs : List (List Char × List Char))
      (attr : List Char)
  | attributeValueQuoted (name : List Char) (attrs : List (List Char × List Char))
      (attr : List Char) (quote : Char) (value : List Char)
  | attributeValueUnquoted (name : List Char) (attrs : List (List Char × List Char))
      (attr value : List Char)
  deriving DecidableEq

def isSpace (c : Char) : Bool := c = ' ' || c = '\n' || c = '\t' || c = '\r'

/-- Whether a tag begins with this character after its `<`. -/
def opensTag (c : Char) : Bool := c.isAlpha || c = '/' || c = '!'

def step : Mode → Char → List Token × Mode
  | .data, c => if c = '<' then ([], .tagOpen) else ([.char c], .data)
  | .tagOpen, c =>
    if opensTag c then ([], .tagName [c])
    else if c = '<' then ([.char '<'], .tagOpen)
    else ([.char '<', .char c], .data)
  | .tagName name, c =>
    if c = '>' then ([.tag name []], .data)
    else if isSpace c then ([], .beforeAttributeName name [])
    else ([], .tagName (name ++ [c]))
  | .beforeAttributeName name attrs, c =>
    if c = '>' then ([.tag name attrs], .data)
    else if isSpace c then ([], .beforeAttributeName name attrs)
    else ([], .attributeName name attrs [c])
  | .attributeName name attrs attr, c =>
    if c = '>' then ([.tag name (attrs ++ [(attr, [])])], .data)
    else if isSpace c then ([], .afterAttributeName name attrs attr)
    else if c = '=' then ([], .beforeAttributeValue name attrs attr)
    else ([], .attributeName name attrs (attr ++ [c]))
  | .afterAttributeName name attrs attr, c =>
    if c = '>' then ([.tag name (attrs ++ [(attr, [])])], .data)
    else if isSpace c then ([], .afterAttributeName name attrs attr)
    else if c = '=' then ([], .beforeAttributeValue name attrs attr)
    else ([], .attributeName name (attrs ++ [(attr, [])]) [c])
  | .beforeAttributeValue name attrs attr, c =>
    if c = '>' then ([.tag name (attrs ++ [(attr, [])])], .data)
    else if isSpace c then ([], .beforeAttributeValue name attrs attr)
    else if c = '"' ∨ c = '\'' then ([], .attributeValueQuoted name attrs attr c [])
    else ([], .attributeValueUnquoted name attrs attr [c])
  | .attributeValueQuoted name attrs attr quote value, c =>
    if c = quote then ([], .beforeAttributeName name (attrs ++ [(attr, value)]))
    else ([], .attributeValueQuoted name attrs attr quote (value ++ [c]))
  | .attributeValueUnquoted name attrs attr value, c =>
    if c = '>' then ([.tag name (attrs ++ [(attr, value)])], .data)
    else if isSpace c then ([], .beforeAttributeName name (attrs ++ [(attr, value)]))
    else ([], .attributeValueUnquoted name attrs attr (value ++ [c]))

def tokens : Mode → List Char → List Token
  | _, [] => []
  | m, c :: page => (step m c).1 ++ tokens (step m c).2 page

/-- The state after a piece of a page. -/
def after (m : Mode) (piece : List Char) : Mode := piece.foldl (fun m c => (step m c).2) m

/-- A piece takes the tokenizer from one state to another and emits these tokens. -/
def Reads (m : Mode) (piece : List Char) (ts : List Token) (m' : Mode) : Prop :=
  tokens m piece = ts ∧ after m piece = m'

instance (m : Mode) (piece : List Char) (ts : List Token) (m' : Mode) :
    Decidable (Reads m piece ts m') := inferInstanceAs (Decidable (_ ∧ _))

section Pieces

variable {m m' m'' : Mode} {piece rest : List Char} {ts us : List Token}

theorem after_append (m : Mode) (piece rest : List Char) :
    after m (piece ++ rest) = after (after m piece) rest := List.foldl_append

theorem tokens_append (m : Mode) (piece rest : List Char) :
    tokens m (piece ++ rest) = tokens m piece ++ tokens (after m piece) rest := by
  induction piece generalizing m with
  | nil => rfl
  | cons c piece ih =>
    rw [List.cons_append, tokens, tokens, ih, List.append_assoc]
    rfl

theorem Reads.append (h : Reads m piece ts m') (h' : Reads m' rest us m'') :
    Reads m (piece ++ rest) (ts ++ us) m'' := by
  constructor
  · rw [tokens_append, h.1, h.2, h'.1]
  · rw [after_append, h.2, h'.2]

theorem Reads.cons {c : Char} (hstep : step m c = (ts, m')) (h : Reads m' rest us m'') :
    Reads m (c :: rest) (ts ++ us) m'' := by
  constructor
  · rw [tokens, hstep, h.1]
  · rw [after, List.foldl_cons, hstep]
    exact h.2

/-- Between tags, text without a `<` is read as it stands. -/
theorem reads_chars (h : '<' ∉ piece) : Reads .data piece (piece.map .char) .data := by
  induction piece with
  | nil => exact ⟨rfl, rfl⟩
  | cons c piece ih =>
    rw [List.mem_cons, not_or] at h
    have hstep : step .data c = ([.char c], .data) := if_neg (Ne.symm h.1)
    exact Reads.cons hstep (ih h.2)

/-- Within a quoted value, text without the quote is read as it stands. -/
theorem reads_value (name : List Char) (attrs : List (List Char × List Char))
    (attr value : List Char) {quote : Char} (h : quote ∉ piece) :
    Reads (.attributeValueQuoted name attrs attr quote value) piece []
      (.attributeValueQuoted name attrs attr quote (value ++ piece)) := by
  induction piece generalizing value with
  | nil =>
    rw [List.append_nil]
    exact ⟨rfl, rfl⟩
  | cons c piece ih =>
    rw [List.mem_cons, not_or] at h
    have hrest := ih (value ++ [c]) h.2
    rw [List.append_assoc, List.singleton_append] at hrest
    have hstep : step (.attributeValueQuoted name attrs attr quote value) c =
        ([], .attributeValueQuoted name attrs attr quote (value ++ [c])) := if_neg (Ne.symm h.1)
    exact Reads.cons hstep hrest

theorem reads_literal {literal : List Char} (h : Reads m literal ts m') :
    Reads m (String.ofList literal).toList ts m' := by
  rw [String.toList_ofList]
  exact h

end Pieces

/-! ## Attributes of a name -/

def Token.attrs : Token → List (List Char × List Char)
  | .char _ => []
  | .tag _ attrs => attrs

def Lacks (attr : List Char) (ts : List Token) : Prop := ∀ t ∈ ts, ∀ a ∈ t.attrs, a.1 ≠ attr

/-- A whole number of tags and texts, none with the attribute. -/
def Inert (attr piece : List Char) : Prop :=
  after .data piece = .data ∧ Lacks attr (tokens .data piece)

instance (attr : List Char) (ts : List Token) : Decidable (Lacks attr ts) :=
  inferInstanceAs (Decidable (∀ t ∈ ts, ∀ a ∈ t.attrs, a.1 ≠ attr))

instance (attr piece : List Char) : Decidable (Inert attr piece) :=
  inferInstanceAs (Decidable (_ ∧ _))

section Inert

variable {attr piece rest : List Char}

theorem lacks_append {first second : List Token} :
    Lacks attr (first ++ second) ↔ Lacks attr first ∧ Lacks attr second := List.forall_mem_append

theorem lacks_chars : Lacks attr (piece.map .char) := by
  intro t ht a ha
  obtain ⟨c, _, rfl⟩ := List.mem_map.mp ht
  cases ha

theorem Inert.reads (h : Inert attr piece) : Reads .data piece (tokens .data piece) .data :=
  ⟨rfl, h.1⟩

theorem Reads.inert {ts : List Token} (h : Reads .data piece ts .data) (hlacks : Lacks attr ts) :
    Inert attr piece := ⟨h.2, h.1.symm ▸ hlacks⟩

theorem Inert.nil : Inert attr [] := ⟨rfl, fun _ h => by cases h⟩

theorem Inert.append (h : Inert attr piece) (h' : Inert attr rest) : Inert attr (piece ++ rest) :=
  (h.reads.append h'.reads).inert (lacks_append.mpr ⟨h.2, h'.2⟩)

theorem Inert.cons {pieces : List (List Char)} (h : Inert attr piece)
    (h' : Inert attr pieces.flatten) : Inert attr (piece :: pieces).flatten := h.append h'

theorem inert_chars (h : '<' ∉ piece) : Inert attr piece := (reads_chars h).inert lacks_chars

theorem inert_literal {literal : List Char} (h : Inert attr literal) :
    Inert attr (String.ofList literal).toList := by
  rw [String.toList_ofList]
  exact h

theorem inert_value {name last value : List Char} {attrs : List (List Char × List Char)}
    (hpiece : Reads .data piece [] (.attributeValueQuoted name attrs last '"' []))
    (hattrs : ∀ a ∈ attrs, a.1 ≠ attr) (hlast : last ≠ attr) (hvalue : '"' ∉ value) :
    Inert attr (piece ++ value ++ ['"', '>']) := by
  have hclose : Reads (.attributeValueQuoted name attrs last '"' ([] ++ value)) ['"', '>']
      [.tag name (attrs ++ [(last, value)])] .data := ⟨rfl, rfl⟩
  refine ((hpiece.append (reads_value name attrs last [] hvalue)).append hclose).inert ?_
  intro t ht a ha
  obtain rfl := List.mem_singleton.mp ht
  rcases List.mem_append.mp ha with ha | ha
  · exact hattrs a ha
  · obtain rfl := List.mem_singleton.mp ha
    exact hlast

end Inert

/-! ## Character references -/

/-- Undo the references for the characters that mark up a page. -/
def unescape : List Char → List Char
  | '&' :: 'a' :: 'm' :: 'p' :: ';' :: rest => '&' :: unescape rest
  | '&' :: 'l' :: 't' :: ';' :: rest => '<' :: unescape rest
  | '&' :: 'g' :: 't' :: ';' :: rest => '>' :: unescape rest
  | '&' :: 'q' :: 'u' :: 'o' :: 't' :: ';' :: rest => '"' :: unescape rest
  | c :: rest => c :: unescape rest
  | [] => []

theorem unescape_cons {c : Char} (hc : c ≠ '&') (rest : List Char) :
    unescape (c :: rest) = c :: unescape rest := by
  conv_lhs => unfold unescape
  split <;> simp_all

theorem unescape_append {piece : List Char} (h : '&' ∉ piece) (rest : List Char) :
    unescape (piece ++ rest) = piece ++ unescape rest := by
  induction piece with
  | nil => rfl
  | cons c piece ih =>
    rw [List.mem_cons, not_or] at h
    rw [List.cons_append, unescape_cons (Ne.symm h.1), ih h.2, List.cons_append]

/-! ## String literals of a script -/

/-- No quote, and no backslash that is not itself escaped. -/
def isPlain : List Char → Bool
  | [] => true
  | '\'' :: _ => false
  | '\\' :: '\\' :: rest => isPlain rest
  | '\\' :: _ => false
  | _ :: rest => isPlain rest

/-- A script without what its single-quoted literals hold. -/
def withoutStrings : Bool → List Char → List Char
  | _, [] => []
  | false, c :: rest => c :: withoutStrings (c = '\'') rest
  | true, '\'' :: rest => '\'' :: withoutStrings false rest
  | true, '\\' :: _ :: rest => withoutStrings true rest
  | true, _ :: rest => withoutStrings true rest

/-- Neither a quote nor a backslash. -/
def Unquoted (piece : List Char) : Prop := '\'' ∉ piece ∧ '\\' ∉ piece

instance (piece : List Char) : Decidable (Unquoted piece) :=
  inferInstanceAs (Decidable (_ ∧ _))

section Scripts

variable {piece message rest : List Char} {c : Char}

theorem unquoted_cons : Unquoted (c :: piece) ↔ c ≠ '\'' ∧ c ≠ '\\' ∧ Unquoted piece := by
  unfold Unquoted
  rw [List.mem_cons, List.mem_cons, not_or, not_or, eq_comm, @eq_comm _ '\\']
  tauto

theorem isPlain_cons (hquote : c ≠ '\'') (hbackslash : c ≠ '\\') :
    isPlain (c :: rest) = isPlain rest := by
  conv_lhs => unfold isPlain
  split <;> simp_all

theorem isPlain_backslash (hbackslash : c ≠ '\\') : isPlain ('\\' :: c :: rest) = false := by
  unfold isPlain
  split <;> grind

theorem isPlain_append (h : Unquoted piece) : isPlain (piece ++ rest) = isPlain rest := by
  induction piece with
  | nil => rfl
  | cons c piece ih =>
    obtain ⟨hquote, hbackslash, h⟩ := unquoted_cons.mp h
    rw [List.cons_append, isPlain_cons hquote hbackslash, ih h]

theorem isPlain_followed (h : Unquoted rest) : isPlain (message ++ rest) = isPlain message := by
  fun_induction isPlain message with
  | case1 =>
    have hempty : isPlain (rest ++ []) = isPlain [] := isPlain_append h
    rw [List.append_nil] at hempty
    exact hempty
  | case2 => rfl
  | case3 message ih => exact ih
  | case4 message hpair =>
    cases message with
    | nil =>
      cases rest with
      | nil => rfl
      | cons c rest => exact isPlain_backslash (unquoted_cons.mp h).2.1
    | cons c message =>
      refine isPlain_backslash fun hc => ?_
      rw [hc] at hpair
      exact hpair message rfl
  | case5 c message hquote hpair hbackslash ih =>
    rw [List.cons_append, isPlain_cons (by simpa using hquote) (by simpa using hbackslash), ih]

theorem withoutStrings_code (h : '\'' ∉ piece) (rest : List Char) :
    withoutStrings false (piece ++ rest) = piece ++ withoutStrings false rest := by
  induction piece with
  | nil => rfl
  | cons c piece ih =>
    rw [List.mem_cons, not_or] at h
    rw [List.cons_append, withoutStrings, decide_eq_false (Ne.symm h.1), ih h.2, List.cons_append]

/-- A plain message ends where its literal ends. -/
theorem withoutStrings_plain (h : isPlain message = true) :
    withoutStrings true (message ++ '\'' :: rest) = '\'' :: withoutStrings false rest := by
  fun_induction isPlain message with
  | case1 => rfl
  | case2 => cases h
  | case3 message ih => exact ih h
  | case4 => cases h
  | case5 c message hquote hpair hbackslash ih =>
    rw [List.cons_append, ← ih h]
    conv_lhs => unfold withoutStrings
    split <;> simp_all

end Scripts

end CommandCenter.Library.Html
