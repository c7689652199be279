import CommandCenter.Daemon.UserPage

/-!
# What a name may do to the user page

The page is read piece by piece. A piece without a name is inert; an escaped name is text between
tags and part of a value within one, so that it ends up in two places of its row: the text of the
first cell, and the messages of the two forms that ask for confirmation.

* `unescape_htmlEscape`, `reads_userRow`, `reads_renderUsers`: a name and a page as they are read.
* `contained_iff`: which names stay inside the messages.
-/

namespace CommandCenter.Daemon.UserPage

open Rust CommandCenter.Core Library Html

/-! ## Escaped text -/

theorem htmlEscape_cons (c : Char) (s : Text) :
    htmlEscape (c :: s) = htmlEscape [c] ++ htmlEscape s := by
  rw [← List.singleton_append]
  unfold htmlEscape replace
  rw [List.flatMap_append, List.flatMap_append, List.flatMap_append, List.flatMap_append]

theorem htmlEscape_single {c : Char} (hamp : c ≠ '&') (hlt : c ≠ '<') (hgt : c ≠ '>')
    (hquot : c ≠ '"') : htmlEscape [c] = [c] := by
  unfold htmlEscape replace
  rw [List.flatMap_singleton, if_neg hamp, List.flatMap_singleton, if_neg hlt,
    List.flatMap_singleton, if_neg hgt, List.flatMap_singleton, if_neg hquot]

theorem htmlEscape_cases (c : Char) :
    c = '&' ∧ htmlEscape [c] = "&amp;".toList ∨ c = '<' ∧ htmlEscape [c] = "&lt;".toList ∨
      c = '>' ∧ htmlEscape [c] = "&gt;".toList ∨ c = '"' ∧ htmlEscape [c] = "&quot;".toList ∨
      c ≠ '&' ∧ c ≠ '<' ∧ c ≠ '"' ∧ htmlEscape [c] = [c] := by
  by_cases hamp : c = '&'
  · subst hamp
    exact Or.inl ⟨rfl, by decide⟩
  by_cases hlt : c = '<'
  · subst hlt
    exact Or.inr (Or.inl ⟨rfl, by decide⟩)
  by_cases hgt : c = '>'
  · subst hgt
    exact Or.inr (Or.inr (Or.inl ⟨rfl, by decide⟩))
  by_cases hquot : c = '"'
  · subst hquot
    exact Or.inr (Or.inr (Or.inr (Or.inl ⟨rfl, by decide⟩)))
  · exact Or.inr (Or.inr (Or.inr (Or.inr
      ⟨hamp, hlt, hquot, htmlEscape_single hamp hlt hgt hquot⟩)))

theorem notMem_htmlEscape (s : Text) : '<' ∉ htmlEscape s ∧ '"' ∉ htmlEscape s := by
  induction s with
  | nil => decide
  | cons c s ih =>
    rw [htmlEscape_cons, List.mem_append, List.mem_append, not_or, not_or]
    have hc : '<' ∉ htmlEscape [c] ∧ '"' ∉ htmlEscape [c] := by
      rcases htmlEscape_cases c with ⟨_, h⟩ | ⟨_, h⟩ | ⟨_, h⟩ | ⟨_, h⟩ | ⟨_, hlt, hquot, h⟩
      · rw [h]
        decide
      · rw [h]
        decide
      · rw [h]
        decide
      · rw [h]
        decide
      · rw [h, List.mem_singleton, List.mem_singleton]
        exact ⟨Ne.symm hlt, Ne.symm hquot⟩
    exact ⟨⟨hc.1, ih.1⟩, hc.2, ih.2⟩

/-- The browser undoes the escapes. -/
theorem unescape_htmlEscape (s rest : Text) :
    unescape (htmlEscape s ++ rest) = s ++ unescape rest := by
  induction s with
  | nil => rfl
  | cons c s ih =>
    rw [htmlEscape_cons, List.append_assoc, List.cons_append, ← ih]
    rcases htmlEscape_cases c with ⟨rfl, h⟩ | ⟨rfl, h⟩ | ⟨rfl, h⟩ | ⟨rfl, h⟩ | ⟨hamp, _, _, h⟩
    · rw [h]
      rfl
    · rw [h]
      rfl
    · rw [h]
      rfl
    · rw [h]
      rfl
    · rw [h]
      exact unescape_cons hamp _

/-! ## Pieces without a name -/

def onsubmit : Text := "onsubmit".toList

theorem isDigit_decimal {n : Nat} {c : Char} (hc : c ∈ decimal n) : c.isDigit = true :=
  isDigit_of_mem_digits hc

theorem notMem_decimal {c : Char} (hc : c.isDigit = false) (n : Nat) : c ∉ decimal n := by
  intro hmem
  rw [isDigit_decimal hmem] at hc
  cases hc

theorem notMem_ago (nowMs secs : Nat) : '<' ∉ ago nowMs secs := by
  have hdecimal (n : Nat) : '<' ∉ decimal n := notMem_decimal (by decide) n
  unfold ago
  repeat' split
  · decide
  · decide
  · exact List.not_mem_append (hdecimal _) (by decide)
  · exact List.not_mem_append (hdecimal _) (by decide)
  · exact List.not_mem_append (hdecimal _) (by decide)

theorem inert_decimal (n : Nat) : Inert onsubmit (decimal n) :=
  inert_chars (notMem_decimal (by decide) n)

theorem inert_htmlEscape (s : Text) : Inert onsubmit (htmlEscape s) :=
  inert_chars (notMem_htmlEscape s).1

theorem inert_flashHtml (flash : Option (Bool × Text)) : Inert onsubmit (flashHtml flash) := by
  unfold flashHtml
  split
  · rename_i m
    exact ((inert_literal (by decide)).append (inert_htmlEscape m)).append
      (inert_literal (by decide))
  · rename_i m
    unfold errBanner
    split
    · exact Inert.nil
    · exact ((inert_literal (by decide)).append (inert_htmlEscape m)).append
        (inert_literal (by decide))
  · exact Inert.nil

set_option maxRecDepth 8000 in
theorem inert_pageTop : Inert onsubmit pageTop.flatten := by
  unfold pageTop
  repeat' refine Inert.cons (inert_literal (by decide)) ?_
  exact Inert.nil

theorem inert_idField (id : AccountId) : Inert onsubmit (idField id) := by
  have hvalue : '"' ∉ decimal id := notMem_decimal (by decide) id
  have hopen : Reads .data "<input type=\"hidden\" name=\"id\" value=\"".toList []
      (.attributeValueQuoted "input".toList
        [("type".toList, "hidden".toList), ("name".toList, "id".toList)] "value".toList '"' []) :=
    reads_literal (by decide)
  exact inert_value hopen (by decide) (by decide) hvalue

set_option maxRecDepth 8000 in
theorem inert_checkbox (on : Bool) :
    Inert onsubmit (checkbox "staff".toList on "Staff".toList) ∧
      Inert onsubmit (checkbox "speaker".toList on "Speaker".toList) ∧
      Inert onsubmit (checkbox "guest".toList on "Guest".toList) := by
  cases on <;> decide

theorem inert_ago (nowMs secs : Nat) : Inert onsubmit (ago nowMs secs) :=
  inert_chars (notMem_ago nowMs secs)

theorem inert_badge (staff : Bool) : Inert onsubmit (badge staff) := by
  unfold badge
  split
  · exact inert_literal (by decide)
  · exact Inert.nil

set_option maxRecDepth 8000 in
theorem inert_cells (nowMs : Nat) (u : UserSummary) : Inert onsubmit (cells nowMs u) := by
  refine .cons (inert_literal (by decide)) <| .cons (inert_badge _) <|
    .cons (inert_literal (by decide)) <| .cons (inert_ago nowMs _) <|
    .cons (inert_literal (by decide)) <| .cons (inert_ago nowMs _) <|
    .cons (inert_literal (by decide)) <| .cons (inert_decimal u.wins) <|
    .cons (inert_literal (by decide)) <| .cons (inert_decimal u.losses) <|
    .cons (inert_literal (by decide)) <| .cons (inert_idField u.id) <|
    .cons (inert_literal (by decide)) ?_
  exact .cons (inert_checkbox _).1 <| .cons (inert_checkbox _).2.1 <|
    .cons (inert_checkbox _).2.2 <| .cons (inert_literal (by decide)) Inert.nil

set_option maxRecDepth 8000 in
theorem inert_resetFields (u : UserSummary) : Inert onsubmit (resetFields u) :=
  .cons (inert_literal (by decide)) <| .cons (inert_idField u.id) <|
    .cons (inert_literal (by decide)) <| .cons (by decide) <|
    .cons (inert_literal (by decide)) Inert.nil

set_option maxRecDepth 8000 in
theorem inert_deleteFields (u : UserSummary) : Inert onsubmit (deleteFields u) :=
  .cons (inert_literal (by decide)) <| .cons (inert_idField u.id) <|
    .cons (inert_literal (by decide)) Inert.nil

set_option maxRecDepth 8000 in
theorem inert_tableTop : Inert onsubmit tableTop.flatten :=
  .cons (inert_literal (by decide)) <| .cons (inert_literal (by decide +kernel)) Inert.nil

set_option maxRecDepth 8000 in
theorem inert_emptyRow (users : List UserSummary) : Inert onsubmit (emptyRow users) := by
  unfold emptyRow
  split
  · exact inert_literal (by decide)
  · exact Inert.nil

theorem inert_offsetLink (offset : UInt64) {label : Text} (h : '<' ∉ label) :
    Inert onsubmit (offsetLink offset label) := by
  have hvalue : '"' ∉ "/users?offset=".toList ++ decimal offset.toNat :=
    List.not_mem_append (by decide) (notMem_decimal (by decide) _)
  have hopen : Reads .data "<a href=\"".toList []
      (.attributeValueQuoted "a".toList [] "href".toList '"' []) := reads_literal (by decide)
  have hlink : Inert onsubmit ("<a href=\"".toList ++
      ("/users?offset=".toList ++ decimal offset.toNat) ++ ['"', '>']) :=
    inert_value hopen (by decide) (by decide) hvalue
  exact (hlink.append (inert_chars h)).append (inert_literal (by decide))

theorem inert_pageBottom (offset : UInt64) (hasNext : Bool) :
    Inert onsubmit (pageBottom offset hasNext) := by
  have hprev : Inert onsubmit (prevLink offset) := by
    unfold prevLink
    split
    · exact inert_offsetLink _ (by decide)
    · exact inert_literal (by decide)
  have hnext : Inert onsubmit (nextLink offset hasNext) := by
    unfold nextLink
    split
    · exact inert_offsetLink _ (by decide)
    · exact inert_literal (by decide)
  unfold pageBottom
  exact (((((inert_literal (by decide)).append hprev).append hnext).append
    (inert_literal (by decide))).append (inert_decimal _)).append (inert_literal (by decide))

/-! ## Rows -/

/-- The tag of a form that asks for confirmation. -/
def confirmTag (action message : Text) : Token :=
  .tag "form".toList [("method".toList, "post".toList), ("action".toList, action),
    ("class".toList, "inline".toList), (onsubmit, confirmScript message)]

theorem reads_confirmForm {action message : Text} (haction : '"' ∉ action)
    (hmessage : '"' ∉ message) :
    Reads .data (confirmForm action message) [confirmTag action message] .data := by
  have hopen : Reads .data "<form method=\"post\" action=\"".toList []
      (.attributeValueQuoted "form".toList [("method".toList, "post".toList)] "action".toList '"'
        []) := reads_literal (by decide)
  have hmiddle : Reads
      (.attributeValueQuoted "form".toList [("method".toList, "post".toList)] "action".toList '"'
        ([] ++ action)) "\" class=\"inline\" onsubmit=\"".toList []
      (.attributeValueQuoted "form".toList [("method".toList, "post".toList),
        ("action".toList, action), ("class".toList, "inline".toList)] onsubmit '"' []) := ⟨rfl, rfl⟩
  have hclose : Reads
      (.attributeValueQuoted "form".toList [("method".toList, "post".toList),
        ("action".toList, action), ("class".toList, "inline".toList)] onsubmit '"'
        ([] ++ confirmScript message)) "\">".toList [confirmTag action message] .data := ⟨rfl, rfl⟩
  have hscript : '"' ∉ confirmScript message :=
    List.not_mem_append (List.not_mem_append (by decide) hmessage) (by decide)
  exact (((hopen.append (reads_value _ _ _ [] haction)).append hmiddle).append
    (reads_value _ _ _ [] hscript)).append hclose

def rowTokens (nowMs : Nat) (u : UserSummary) : List Token :=
  tokens .data "<tr>\n<td><b>".toList ++ (htmlEscape u.name).map .char ++
    tokens .data (cells nowMs u) ++
    [confirmTag "/users/reset".toList (resetMessage (htmlEscape u.name))] ++
    tokens .data (resetFields u) ++
    [confirmTag "/users/delete".toList (deleteMessage (htmlEscape u.name))] ++
    tokens .data (deleteFields u)

theorem reads_userRow (nowMs : Nat) (u : UserSummary) :
    Reads .data (userRow nowMs u) (rowTokens nowMs u) .data := by
  have hname := notMem_htmlEscape u.name
  have hopen : Inert onsubmit "<tr>\n<td><b>".toList := inert_literal (by decide)
  have hreset : '"' ∉ resetMessage (htmlEscape u.name) :=
    List.not_mem_append (List.not_mem_append (by decide) hname.2) (by decide)
  have hdelete : '"' ∉ deleteMessage (htmlEscape u.name) :=
    List.not_mem_append (List.not_mem_append (by decide) hname.2) (by decide)
  exact (((((hopen.reads.append (reads_chars hname.1)).append (inert_cells nowMs u).reads).append
    (reads_confirmForm (by decide) hreset)).append (inert_resetFields u).reads).append
    (reads_confirmForm (by decide) hdelete)).append (inert_deleteFields u).reads

theorem reads_userRows (nowMs : Nat) (users : List UserSummary) :
    Reads .data (users.flatMap (userRow nowMs)) (users.flatMap (rowTokens nowMs)) .data := by
  induction users with
  | nil => exact ⟨rfl, rfl⟩
  | cons u users ih =>
    rw [List.flatMap_cons, List.flatMap_cons]
    exact (reads_userRow nowMs u).append ih

/-- What comes before the rows. -/
def tableStart (users : List UserSummary) (flash : Option (Bool × Text)) : Text :=
  pageTop.flatten ++ flashHtml flash ++ tableTop.flatten ++ emptyRow users

theorem inert_tableStart (users : List UserSummary) (flash : Option (Bool × Text)) :
    Inert onsubmit (tableStart users flash) :=
  ((inert_pageTop.append (inert_flashHtml flash)).append inert_tableTop).append
    (inert_emptyRow users)

/-- A page as it is read. -/
theorem reads_renderUsers (nowMs : Nat) (users : List UserSummary) (offset : UInt64)
    (hasNext : Bool) (flash : Option (Bool × Text)) :
    Reads .data (renderUsers nowMs users offset hasNext flash)
      (tokens .data (tableStart users flash) ++ users.flatMap (rowTokens nowMs) ++
        tokens .data (pageBottom offset hasNext)) .data :=
  ((inert_tableStart users flash).reads.append (reads_userRows nowMs users)).append
    (inert_pageBottom offset hasNext).reads

/-! ## Scripts -/

theorem unescape_around {before after : Text} (hbefore : '&' ∉ before) (hafter : '&' ∉ after)
    (name : Text) : unescape (before ++ htmlEscape name ++ after) = before ++ name ++ after := by
  have hend : unescape after = after := by
    have happend := unescape_append hafter []
    rw [List.append_nil] at happend
    exact happend.trans (List.append_nil after)
  rw [List.append_assoc, unescape_append hbefore, unescape_htmlEscape, hend, List.append_assoc]

theorem unescape_confirmScript (name : Text) :
    unescape (confirmScript (resetMessage (htmlEscape name))) =
        confirmScript (resetMessage name) ∧
      unescape (confirmScript (deleteMessage (htmlEscape name))) =
        confirmScript (deleteMessage name) := by
  have hscript (start before after stop : Text) (hstart : '&' ∉ start ++ before)
      (hstop : '&' ∉ after ++ stop) :
      unescape (start ++ (before ++ htmlEscape name ++ after) ++ stop) =
        start ++ (before ++ name ++ after) ++ stop := by
    have haround := unescape_around hstart hstop name
    simp only [List.append_assoc] at haround ⊢
    exact haround
  exact ⟨hscript _ _ _ _ (by decide) (by decide), hscript _ _ _ _ (by decide) (by decide)⟩

theorem isPlain_messages (name : Text) :
    isPlain (resetMessage name) = isPlain name ∧ isPlain (deleteMessage name) = isPlain name :=
  ⟨(isPlain_followed (by decide)).trans (isPlain_append (by decide)),
    (isPlain_followed (by decide)).trans (isPlain_append (by decide))⟩

theorem confirmScript_inj {first second : Text} (h : confirmScript first = confirmScript second) :
    first = second :=
  List.append_cancel_left (List.append_cancel_right h)

theorem withoutStrings_confirmScript {message : Text} (h : isPlain message = true) :
    withoutStrings false (confirmScript message) = "return confirm('')".toList := by
  have hpieces : confirmScript message =
      "return confirm(".toList ++ '\'' :: (message ++ '\'' :: [')']) := by
    have hopen : "return confirm('".toList = "return confirm(".toList ++ ['\''] := by decide
    have hclose : "')".toList = ['\'', ')'] := by decide
    have hassoc (start : Text) : start ++ ['\''] ++ message ++ ['\'', ')'] =
        start ++ '\'' :: (message ++ '\'' :: [')']) := by
      simp only [List.append_assoc, List.cons_append, List.nil_append]
    exact (congrArg₂ (fun start stop => start ++ message ++ stop) hopen hclose).trans (hassoc _)
  have hrest : withoutStrings true (message ++ '\'' :: [')']) =
      '\'' :: withoutStrings false [')'] := withoutStrings_plain h
  rw [hpieces, withoutStrings_code (by decide)]
  show _ ++ '\'' :: withoutStrings true (message ++ '\'' :: [')']) = _
  rw [hrest]
  decide

theorem onsubmit_rowTokens {nowMs : Nat} {u : UserSummary} {t : Token} {a : Text × Text}
    (ht : t ∈ rowTokens nowMs u) (ha : a ∈ t.attrs) (hname : a.1 = onsubmit) :
    ∃ message, (message = resetMessage u.name ∨ message = deleteMessage u.name) ∧
      unescape a.2 = confirmScript message := by
  have hconfirm {action message : Text} (ht : t ∈ [confirmTag action message]) :
      a.2 = confirmScript message := by
    obtain rfl := List.mem_singleton.mp ht
    have haction : "action".toList ≠ onsubmit := by decide
    rcases List.mem_cons.mp ha with rfl | ha
    · exact absurd hname (by decide)
    rcases List.mem_cons.mp ha with rfl | ha
    · exact absurd hname haction
    rcases List.mem_cons.mp ha with rfl | ha
    · exact absurd hname (by decide)
    obtain rfl := List.mem_singleton.mp ha
    rfl
  have hinert {piece : Text} (h : Inert onsubmit piece) (ht : t ∈ tokens .data piece) : False :=
    h.2 t ht a ha hname
  have hopen : Inert onsubmit "<tr>\n<td><b>".toList := inert_literal (by decide)
  unfold rowTokens at ht
  rcases List.mem_append.mp ht with ht | ht
  · rcases List.mem_append.mp ht with ht | ht
    · rcases List.mem_append.mp ht with ht | ht
      · rcases List.mem_append.mp ht with ht | ht
        · rcases List.mem_append.mp ht with ht | ht
          · rcases List.mem_append.mp ht with ht | ht
            · exact (hinert hopen ht).elim
            · exact absurd hname (lacks_chars t ht a ha)
          · exact (hinert (inert_cells nowMs u) ht).elim
        · refine ⟨resetMessage u.name, Or.inl rfl, ?_⟩
          rw [hconfirm ht, (unescape_confirmScript u.name).1]
      · exact (hinert (inert_resetFields u) ht).elim
    · refine ⟨deleteMessage u.name, Or.inr rfl, ?_⟩
      rw [hconfirm ht, (unescape_confirmScript u.name).2]
  · exact (hinert (inert_deleteFields u) ht).elim

/-! ## Pages -/

/-- The lists differ in nothing but the names. -/
def SameButNames (users others : List UserSummary) : Prop :=
  List.Forall₂ (fun u v => v = { u with name := v.name }) users others

/-- A tag's attributes, with a script as far as its code goes. -/
def withoutMessage (a : Text × Text) : Text × Text :=
  if a.1 = onsubmit then (a.1, withoutStrings false (unescape a.2)) else a

/-- The tags, attributes and scripts of a page. -/
def skeleton (ts : List Token) : List (Text × List (Text × Text)) :=
  ts.filterMap fun
    | .char _ => none
    | .tag name attrs => some (name, attrs.map withoutMessage)

/-- The names stay where they belong. -/
structure Contained (nowMs : Nat) (users : List UserSummary) (offset : UInt64) (hasNext : Bool)
    (flash : Option (Bool × Text)) : Prop where
  /-- A name is text in its row, and in the messages of its two forms. -/
  placed : tokens .data (renderUsers nowMs users offset hasNext flash) =
    tokens .data (tableStart users flash) ++ users.flatMap (rowTokens nowMs) ++
      tokens .data (pageBottom offset hasNext)
  confirms : ∀ t ∈ tokens .data (renderUsers nowMs users offset hasNext flash), ∀ a ∈ t.attrs,
    a.1 = onsubmit →
      ∃ message, unescape a.2 = confirmScript message ∧ isPlain message = true
  alike : ∀ others, SameButNames users others → (∀ u ∈ others, isPlain u.name = true) →
    skeleton (tokens .data (renderUsers nowMs others offset hasNext flash)) =
      skeleton (tokens .data (renderUsers nowMs users offset hasNext flash))

section Pages

variable {nowMs : Nat} {users others : List UserSummary} {offset : UInt64} {hasNext : Bool}
  {flash : Option (Bool × Text)}

theorem skeleton_append (first second : List Token) :
    skeleton (first ++ second) = skeleton first ++ skeleton second := List.filterMap_append

theorem skeleton_chars (s : Text) : skeleton (s.map .char) = [] := by
  rw [skeleton, List.filterMap_map]
  exact List.filterMap_eq_nil_iff.mpr fun c _ => rfl

theorem skeleton_confirmTag (action : Text) {message shown : Text}
    (hscript : unescape (confirmScript message) = confirmScript shown)
    (hplain : isPlain shown = true) :
    skeleton [confirmTag action message] =
      [("form".toList, [("method".toList, "post".toList), ("action".toList, action),
        ("class".toList, "inline".toList), (onsubmit, "return confirm('')".toList)])] := by
  have hmethod : withoutMessage ("method".toList, "post".toList) =
      ("method".toList, "post".toList) := if_neg (by decide)
  have haction : withoutMessage ("action".toList, action) = ("action".toList, action) :=
    if_neg (show ¬ "action".toList = onsubmit by decide)
  have hclass : withoutMessage ("class".toList, "inline".toList) =
      ("class".toList, "inline".toList) := if_neg (by decide)
  have honsubmit : withoutMessage (onsubmit, confirmScript message) =
      (onsubmit, withoutStrings false (unescape (confirmScript message))) := if_pos rfl
  rw [hscript, withoutStrings_confirmScript hplain] at honsubmit
  exact congrArg (fun attrs => [("form".toList, attrs)])
    (congrArg₂ List.cons hmethod (congrArg₂ List.cons haction (congrArg₂ List.cons hclass
      (congrArg₂ List.cons honsubmit rfl))))

theorem skeleton_rowTokens {u : UserSummary} (hplain : isPlain u.name = true) {name : Text}
    (hname : isPlain name = true) :
    skeleton (rowTokens nowMs { u with name }) = skeleton (rowTokens nowMs u) := by
  have hreset (name : Text) (hplain : isPlain name = true) :=
    skeleton_confirmTag "/users/reset".toList (unescape_confirmScript name).1
      ((isPlain_messages name).1.trans hplain)
  have hdelete (name : Text) (hplain : isPlain name = true) :=
    skeleton_confirmTag "/users/delete".toList (unescape_confirmScript name).2
      ((isPlain_messages name).2.trans hplain)
  unfold rowTokens
  simp only [skeleton_append, skeleton_chars, hreset _ hplain, hreset _ hname, hdelete _ hplain,
    hdelete _ hname]
  rfl

theorem skeleton_rows (hsame : SameButNames users others)
    (husers : ∀ u ∈ users, isPlain u.name = true) (hothers : ∀ u ∈ others, isPlain u.name = true) :
    skeleton (others.flatMap (rowTokens nowMs)) = skeleton (users.flatMap (rowTokens nowMs)) := by
  induction hsame with
  | nil => rfl
  | @cons u v users others huv _ ih =>
    have hu := husers u List.mem_cons_self
    have hv := hothers v List.mem_cons_self
    rw [List.flatMap_cons, List.flatMap_cons, skeleton_append, skeleton_append,
      ih (fun w hw => husers w (List.mem_cons_of_mem u hw))
        (fun w hw => hothers w (List.mem_cons_of_mem v hw)), huv, skeleton_rowTokens hu hv]

theorem contained_of_plain (hplain : ∀ u ∈ users, isPlain u.name = true) :
    Contained nowMs users offset hasNext flash where
  placed := (reads_renderUsers nowMs users offset hasNext flash).1
  confirms t ht a ha hname := by
    rw [(reads_renderUsers nowMs users offset hasNext flash).1] at ht
    rcases List.mem_append.mp ht with ht | ht
    · rcases List.mem_append.mp ht with ht | ht
      · exact absurd hname ((inert_tableStart users flash).2 t ht a ha)
      · obtain ⟨u, hu, ht⟩ := List.mem_flatMap.mp ht
        obtain ⟨message, hmessage, hscript⟩ := onsubmit_rowTokens ht ha hname
        refine ⟨message, hscript, ?_⟩
        rcases hmessage with rfl | rfl
        · exact (isPlain_messages u.name).1.trans (hplain u hu)
        · exact (isPlain_messages u.name).2.trans (hplain u hu)
    · exact absurd hname ((inert_pageBottom offset hasNext).2 t ht a ha)
  alike others hsame hothers := by
    have hstart : tableStart others flash = tableStart users flash := by
      cases hsame <;> rfl
    rw [(reads_renderUsers nowMs others offset hasNext flash).1,
      (reads_renderUsers nowMs users offset hasNext flash).1, skeleton_append, skeleton_append,
      skeleton_append, skeleton_append, skeleton_rows hsame hplain hothers, hstart]

theorem Contained.plain (h : Contained nowMs users offset hasNext flash) {u : UserSummary}
    (hu : u ∈ users) : isPlain u.name = true := by
  have hrow : confirmTag "/users/reset".toList (resetMessage (htmlEscape u.name)) ∈
      rowTokens nowMs u :=
    List.mem_append_left _ (List.mem_append_left _ (List.mem_append_left _
      (List.mem_append_right _ (List.mem_singleton_self _))))
  have hpage := h.placed.symm ▸ List.mem_append_left (tokens .data (pageBottom offset hasNext))
    (List.mem_append_right (tokens .data (tableStart users flash))
      (List.mem_flatMap.mpr ⟨u, hu, hrow⟩))
  obtain ⟨message, hscript, hplain⟩ := h.confirms _ hpage
    (onsubmit, confirmScript (resetMessage (htmlEscape u.name)))
    (List.mem_cons_of_mem _ (List.mem_cons_of_mem _ (List.mem_cons_of_mem _
      List.mem_cons_self))) rfl
  rw [(unescape_confirmScript u.name).1] at hscript
  rw [← confirmScript_inj hscript] at hplain
  exact (isPlain_messages u.name).1.symm.trans hplain

/-- **Names stay in the text and the messages of the user page** exactly if each is plain: without
a quote, and without a backslash but in pairs. -/
theorem contained_iff (nowMs : Nat) (users : List UserSummary) (offset : UInt64) (hasNext : Bool)
    (flash : Option (Bool × Text)) :
    Contained nowMs users offset hasNext flash ↔ ∀ u ∈ users, isPlain u.name = true :=
  ⟨fun h _ hu => h.plain hu, contained_of_plain⟩

/-- A name that calls `alert` as soon as one of the forms of its row is sent. -/
theorem alert_called :
    ¬ ∀ (nowMs : Nat) (users : List UserSummary) (offset : UInt64) (hasNext : Bool)
        (flash : Option (Bool × Text)),
      (∀ u ∈ users, Storage.validateAccountName u.name = .ok ()) →
      Contained nowMs users offset hasNext flash := by
  intro h
  have hcontained := h 0 [⟨1, "');alert(1)//".toList, 0, none, 0, 0, 0⟩] 0 false none
    fun u hu => by
      obtain rfl := List.mem_singleton.mp hu
      decide
  exact absurd (hcontained.plain List.mem_cons_self) (by decide)

end Pages

end CommandCenter.Daemon.UserPage
