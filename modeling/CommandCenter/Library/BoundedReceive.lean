import CommandCenter.Library.Framing

/-!
# Receivers that refuse what does not fit

A receiver that decodes the frames it has, reads a piece of the stream only when they are used
up, and refuses a piece with which its unread input would exceed `cap`. `Pulls` says what one
call of it does.

* `Fits`: every piece ends at most `cap` symbols behind a frame that was whole before it.
* `results_iff`: such a receiver delivers a stream of frames, and then its end, just if each
  piece fits.
-/

namespace CommandCenter.Library

variable {σ α χ F E E' : Type*}

/-- One call of the receiver `pull`, from a state and the pieces yet to come. -/
structure Pulls (unread : σ → List α) (data : χ → List α) (decode : σ → Except E (Option F) × σ)
    (append : σ → χ → σ) (cap : Nat) (closed : E')
    (pull : σ → List χ → Except E' F × σ × List χ) : Prop where
  found : ∀ s f s' cs, decode s = (.ok (some f), s') → pull s cs = (.ok f, s', cs)
  ended : ∀ s s', decode s = (.ok none, s') → (pull s []).1 = .error closed
  read : ∀ s s' c cs, decode s = (.ok none, s') → (unread s).length + (data c).length ≤ cap →
    data c ≠ [] → pull s (c :: cs) = pull (append s c) cs
  refused : ∀ s s' c cs, decode s = (.ok none, s') →
    cap < (unread s).length + (data c).length → ∃ e, (pull s (c :: cs)).1 = .error e

/-- What `n` calls return. -/
def results (pull : σ → List χ → Except E' F × σ × List χ) :
    Nat → σ → List χ → List (Except E' F)
  | 0, _, _ => []
  | n + 1, s, cs =>
    let (r, s', cs') := pull s cs
    r :: results pull n s' cs'

/-- Every piece ends at most `cap` symbols behind a frame that was whole before it. The stream
begins with `held` symbols that are not part of a piece. -/
def Fits (wire : F → List α) (data : χ → List α) (cap held : Nat) (fs : List F) (cs : List χ) :
    Prop :=
  ∀ before c after, cs = before ++ c :: after → ∃ done rest, fs = done ++ rest ∧
    (done.flatMap wire).length ≤ held + (before.flatMap data).length ∧
    held + (before.flatMap data).length + (data c).length ≤ (done.flatMap wire).length + cap

section Rules

variable {unread : σ → List α} {data : χ → List α} {decode : σ → Except E (Option F) × σ}
  {append : σ → χ → σ} {wire : F → List α} {Ok : F → Prop} {cap : Nat} {closed : E'}
  {pull : σ → List χ → Except E' F × σ × List χ}

theorem fits_cons_frame {f : F} {fs : List F} {held : Nat} {cs : List χ} :
    Fits wire data cap ((wire f).length + held) (f :: fs) cs ↔ Fits wire data cap held fs cs := by
  constructor
  · intro h before c after hcs
    obtain ⟨done, rest, hsplit, hwhole, hfits⟩ := h before c after hcs
    cases done with
    | nil =>
      refine ⟨[], fs, rfl, Nat.zero_le _, ?_⟩
      simp only [List.flatMap_nil, List.length_nil] at hfits ⊢
      omega
    | cons g done =>
      obtain ⟨rfl, rfl⟩ := List.cons.inj hsplit
      rw [List.flatMap_cons, List.length_append] at hwhole hfits
      exact ⟨done, rest, rfl, by omega, by omega⟩
  · intro h before c after hcs
    obtain ⟨done, rest, rfl, hwhole, hfits⟩ := h before c after hcs
    refine ⟨f :: done, rest, rfl, ?_, ?_⟩
    · rw [List.flatMap_cons, List.length_append]
      omega
    · rw [List.flatMap_cons, List.length_append]
      omega

theorem fits_cons_piece {f : F} {fs : List F} {held : Nat} {c : χ} {cs : List χ}
    (hwaiting : held < (wire f).length) :
    Fits wire data cap held (f :: fs) (c :: cs) ↔
      held + (data c).length ≤ cap ∧
        Fits wire data cap (held + (data c).length) (f :: fs) cs := by
  constructor
  · intro h
    constructor
    · obtain ⟨done, rest, hsplit, hwhole, hfits⟩ := h [] c cs rfl
      cases done with
      | nil => simpa using hfits
      | cons g done =>
        obtain ⟨rfl, rfl⟩ := List.cons.inj hsplit
        simp only [List.flatMap_cons, List.length_append, List.flatMap_nil,
          List.length_nil] at hwhole
        omega
    · intro before d after hcs
      obtain ⟨done, rest, hsplit, hwhole, hfits⟩ := h (c :: before) d after (by rw [hcs]; rfl)
      rw [List.flatMap_cons, List.length_append] at hwhole hfits
      exact ⟨done, rest, hsplit, by omega, by omega⟩
  · rintro ⟨hcap, h⟩ before d after hcs
    cases before with
    | nil =>
      obtain ⟨rfl, rfl⟩ := List.cons.inj hcs
      exact ⟨[], f :: fs, rfl, Nat.zero_le _, by simpa using hcap⟩
    | cons b before =>
      obtain ⟨rfl, rfl⟩ := List.cons.inj hcs
      obtain ⟨done, rest, hsplit, hwhole, hfits⟩ := h before d after rfl
      refine ⟨done, rest, hsplit, ?_, ?_⟩
      · rw [List.flatMap_cons, List.length_append]
        omega
      · rw [List.flatMap_cons, List.length_append]
        omega

theorem results_found (hpulls : Pulls unread data decode append cap closed pull) {s s' : σ} {f : F}
    (h : decode s = (.ok (some f), s')) (n : Nat) (cs : List χ) :
    results pull (n + 1) s cs = .ok f :: results pull n s' cs := by
  rw [results, hpulls.found s f s' cs h]

theorem results_read (hpulls : Pulls unread data decode append cap closed pull) {s s' : σ}
    (h : decode s = (.ok none, s')) {c : χ} (hcap : (unread s).length + (data c).length ≤ cap)
    (hc : data c ≠ []) (n : Nat) (cs : List χ) :
    results pull (n + 1) s (c :: cs) = results pull (n + 1) (append s c) cs := by
  rw [results, hpulls.read s s' c cs h hcap hc]
  rfl

/-- A receiver at the end of its stream says so. -/
theorem results_ended (hdecodes : Decodes unread decode wire Ok)
    (hpulls : Pulls unread data decode append cap closed pull) {s : σ} (h : unread s = []) :
    results pull 1 s [] = [.error closed] := by
  simp only [results, hpulls.ended s s (hdecodes.empty s h)]

theorem whole_or_part {s : σ} {f : F} {fs : List F} {tail : List α}
    (h : unread s ++ tail = wire f ++ fs.flatMap wire) :
    (∃ rest, unread s = wire f ++ rest ∧ rest ++ tail = fs.flatMap wire) ∨
      ∃ rest, rest ≠ [] ∧ unread s ++ rest = wire f ∧ (unread s).length < (wire f).length := by
  rcases List.append_eq_append_iff.mp h with ⟨rest, hwire, htail⟩ | ⟨rest, hunread, hfs⟩
  · cases rest with
    | nil =>
      rw [List.append_nil] at hwire
      exact Or.inl ⟨[], by rw [hwire, List.append_nil], htail⟩
    | cons x rest =>
      refine Or.inr ⟨x :: rest, List.cons_ne_nil x rest, hwire.symm, ?_⟩
      rw [hwire, List.length_append, List.length_cons]
      omega
  · exact Or.inl ⟨rest, hunread, hfs.symm⟩

/-- **A stream of frames is delivered just if every piece fits.** The induction is on the frames
to come, and for each of them on the pieces to come. -/
theorem results_iff (hdecodes : Decodes unread decode wire Ok)
    (hpulls : Pulls unread data decode append cap closed pull)
    (happend : ∀ s c, unread (append s c) = unread s ++ data c)
    {fs : List F} (hfs : ∀ f ∈ fs, Ok f) {s : σ} {cs : List χ} (hcs : ∀ c ∈ cs, data c ≠ [])
    (hstream : unread s ++ cs.flatMap data = fs.flatMap wire) :
    results pull (fs.length + 1) s cs = fs.map .ok ++ [.error closed] ↔
      Fits wire data cap (unread s).length fs cs := by
  induction fs generalizing s cs with
  | nil =>
    obtain ⟨hempty, hrest⟩ : unread s = [] ∧ cs.flatMap data = [] :=
      List.append_eq_nil_iff.mp hstream
    have hnone : cs = [] := by
      apply List.eq_nil_iff_forall_not_mem.mpr
      intro c hc
      exact hcs c hc (List.flatMap_eq_nil_iff.mp hrest c hc)
    obtain rfl := hnone
    constructor
    · intro _ before c after h
      exact absurd h.symm (List.append_ne_nil_of_right_ne_nil before (List.cons_ne_nil c after))
    · intro _
      exact results_ended hdecodes hpulls hempty
  | cons f fs ih =>
    have hf : Ok f := hfs f List.mem_cons_self
    have hrest : ∀ g ∈ fs, Ok g := fun g hg => hfs g (List.mem_cons_of_mem f hg)
    -- A frame that is whole is returned, whatever is still to come.
    have hwhole : ∀ {s : σ} {cs : List χ}, (∀ c ∈ cs, data c ≠ []) → ∀ rest,
        unread s = wire f ++ rest → rest ++ cs.flatMap data = fs.flatMap wire →
        (results pull ((f :: fs).length + 1) s cs = (f :: fs).map .ok ++ [.error closed] ↔
          Fits wire data cap (unread s).length (f :: fs) cs) := by
      intro s cs hcs rest hunread hfs'
      obtain ⟨s', hdecode, hs'⟩ := hdecodes.whole s f rest hf hunread
      have hlen : (unread s).length = (wire f).length + (unread s').length := by
        rw [hunread, hs', List.length_append]
      rw [List.length_cons, results_found hpulls hdecode, hlen, fits_cons_frame,
        ← ih hrest hcs (by rw [hs', hfs'])]
      simp only [List.map_cons, List.cons_append, List.cons.injEq, true_and]
    induction cs generalizing s with
    | nil =>
      rw [List.flatMap_nil, List.append_nil] at hstream
      exact hwhole hcs (fs.flatMap wire) hstream (List.append_nil _)
    | cons c cs ihc =>
      rcases whole_or_part hstream with ⟨rest, hunread, hfs'⟩ | ⟨rest, hne, hpart, hwaiting⟩
      · exact hwhole hcs rest hunread hfs'
      · have hdecode := hdecodes.part s f rest hf hne hpart
        have hc : data c ≠ [] := hcs c List.mem_cons_self
        rw [fits_cons_piece hwaiting]
        by_cases hcap : (unread s).length + (data c).length ≤ cap
        · have hlen : (unread (append s c)).length = (unread s).length + (data c).length := by
            rw [happend, List.length_append]
          have hmore : unread (append s c) ++ cs.flatMap data = (f :: fs).flatMap wire := by
            rw [happend, List.append_assoc]
            exact hstream
          rw [results_read hpulls hdecode hcap hc, and_iff_right hcap, ← hlen]
          exact ihc (fun d hd => hcs d (List.mem_cons_of_mem c hd)) hmore
        · obtain ⟨e, he⟩ := hpulls.refused s s c cs hdecode (Nat.lt_of_not_le hcap)
          constructor
          · intro h
            rw [results, List.map_cons, List.cons_append, List.cons.injEq, he] at h
            cases h.1
          · intro h
            exact absurd h.1 hcap

end Rules

end CommandCenter.Library
