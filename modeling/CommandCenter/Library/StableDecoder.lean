import Mathlib.Data.List.Basic

/-!
# Decoders that do not change their mind

A receiver appends the pieces of a stream to a state `s` whose unread input is `unread s`, and
after each calls a decoder until it asks for more or fails. What comes out is the frames so far,
and the error if there was one; after an error nothing more is read.

A decoder is `Stable` if what it decides on some input it decides on every longer one.

* `Yields`: the loop of `decodeAll` as a relation; `Stable.decodeAll_eq`, `yields_of_decodeAll`.
* `feed_cut`: two ways of cutting a stream have the same outcome.
* `feed_forall`: what holds of every frame and every error of the decoder.
-/

namespace CommandCenter.Library

variable {σ α χ F E : Type*}

/-- Call the decoder until it asks for more or fails. -/
def decodeAll (decode : σ → Except E (Option F) × σ) : Nat → σ → Option ((List F × Option E) × σ)
  | 0, _ => none
  | fuel + 1, s =>
    match decode s with
    | (.error e, s') => some (([], some e), s')
    | (.ok none, s') => some (([], none), s')
    | (.ok (some f), s') => (decodeAll decode fuel s').map fun r => ((f :: r.1.1, r.1.2), r.2)

/-- Append the pieces one by one, and decode all after each until the decoder fails. -/
def feed (decode : σ → Except E (Option F) × σ) (append : σ → χ → σ) (fuel : σ → Nat) :
    σ → List χ → Option ((List F × Option E) × σ)
  | s, [] => some (([], none), s)
  | s, c :: cs =>
    match decodeAll decode (fuel (append s c)) (append s c) with
    | some ((fs, none), s') =>
      (feed decode append fuel s' cs).map fun r => ((fs ++ r.1.1, r.1.2), r.2)
    | other => other

/-- The loop of `decodeAll`, from a state to the state it ends in. -/
inductive Yields (decode : σ → Except E (Option F) × σ) : σ → List F → Option E → σ → Prop
  | wait {s s' : σ} (h : decode s = (.ok none, s')) : Yields decode s [] none s'
  | fail {s s' : σ} {e : E} (h : decode s = (.error e, s')) : Yields decode s [] (some e) s'
  | frame {s s' t : σ} {f : F} {fs : List F} {err : Option E}
    (h : decode s = (.ok (some f), s')) (hrest : Yields decode s' fs err t) :
    Yields decode s (f :: fs) err t

/-- What the decoder decides on some input it decides on every longer one. -/
structure Stable (unread : σ → List α) (decode : σ → Except E (Option F) × σ) : Prop where
  waits : ∀ s s', decode s = (.ok none, s') → unread s' = unread s
  alike : ∀ s s' t, decode s = (.ok none, s') → unread t = unread s →
    ∃ t', decode t = (.ok none, t')
  consumes : ∀ s f s', decode s = (.ok (some f), s') → (unread s').length < (unread s).length
  frame : ∀ s f s' t more, decode s = (.ok (some f), s') → unread t = unread s ++ more →
    ∃ t', decode t = (.ok (some f), t') ∧ unread t' = unread s' ++ more
  fail : ∀ s e s' t more, decode s = (.error e, s') → unread t = unread s ++ more →
    ∃ t', decode t = (.error e, t')

section Rules

variable {unread : σ → List α} {decode : σ → Except E (Option F) × σ}

/-! ## The loop -/

theorem Yields.unique {s s₁ s₂ : σ} {fs₁ fs₂ : List F} {err₁ err₂ : Option E}
    (h₁ : Yields decode s fs₁ err₁ s₁) (h₂ : Yields decode s fs₂ err₂ s₂) :
    fs₁ = fs₂ ∧ err₁ = err₂ ∧ s₁ = s₂ := by
  induction h₁ generalizing fs₂ with
  | wait h =>
    cases h₂ with
    | wait h' | fail h' | frame h' =>
      rw [h] at h'
      cases h' <;> exact ⟨rfl, rfl, rfl⟩
  | fail h =>
    cases h₂ with
    | wait h' | fail h' | frame h' =>
      rw [h] at h'
      cases h' <;> exact ⟨rfl, rfl, rfl⟩
  | frame h _ ih =>
    cases h₂ with
    | wait h' | fail h' =>
      rw [h] at h'
      cases h'
    | frame h' hrest =>
      rw [h] at h'
      obtain ⟨hf, rfl⟩ := Prod.mk.inj h'
      obtain rfl := Option.some.inj (Except.ok.inj hf)
      obtain ⟨rfl, herr, hs⟩ := ih hrest
      exact ⟨rfl, herr, hs⟩

/-- The loop ends, since every frame consumes some input. -/
theorem Stable.exists_yields (h : Stable unread decode) (s : σ) :
    ∃ fs err s', Yields decode s fs err s' := by
  induction hn : (unread s).length using Nat.strongRecOn generalizing s with
  | _ n ih =>
    match hdecode : decode s with
    | (.error e, s') => exact ⟨[], some e, s', .fail hdecode⟩
    | (.ok none, s') => exact ⟨[], none, s', .wait hdecode⟩
    | (.ok (some f), s') =>
      have hlt : (unread s').length < n := hn ▸ h.consumes s f s' hdecode
      obtain ⟨fs, err, t, hrest⟩ := ih _ hlt s' rfl
      exact ⟨f :: fs, err, t, .frame hdecode hrest⟩

/-- With fuel for each symbol and one more, `decodeAll` runs the loop. -/
theorem Stable.decodeAll_eq (h : Stable unread decode) {s s' : σ} {fs : List F} {err : Option E}
    (hyields : Yields decode s fs err s') {fuel : Nat} (hfuel : (unread s).length < fuel) :
    decodeAll decode fuel s = some ((fs, err), s') := by
  induction hyields generalizing fuel with
  | wait hdecode =>
    obtain ⟨fuel, rfl⟩ : ∃ n, fuel = n + 1 := ⟨fuel - 1, by omega⟩
    rw [decodeAll, hdecode]
  | fail hdecode =>
    obtain ⟨fuel, rfl⟩ : ∃ n, fuel = n + 1 := ⟨fuel - 1, by omega⟩
    rw [decodeAll, hdecode]
  | frame hdecode _ ih =>
    obtain ⟨fuel, rfl⟩ : ∃ n, fuel = n + 1 := ⟨fuel - 1, by omega⟩
    have hlt := h.consumes _ _ _ hdecode
    have hrest := ih (show _ < fuel by omega)
    rw [decodeAll, hdecode]
    simp only [hrest, Option.map_some]

/-- What `decodeAll` returns comes of the loop. -/
theorem yields_of_decodeAll {n : Nat} {s s' : σ} {out : List F × Option E}
    (h : decodeAll decode n s = some (out, s')) : Yields decode s out.1 out.2 s' := by
  induction n generalizing s out with
  | zero => cases h
  | succ n ih =>
    unfold decodeAll at h
    split at h
    · rename_i hdecode
      cases h
      exact .fail hdecode
    · rename_i hdecode
      cases h
      exact .wait hdecode
    · rename_i f t hdecode
      obtain ⟨r, hr, heq⟩ := Option.map_eq_some_iff.mp h
      cases heq
      exact .frame hdecode (ih hr)

/-! ## More input -/

/-- After the loop has asked for more, the decoder still does. -/
theorem Yields.waiting (h : Stable unread decode) {s s' : σ} {fs : List F} {err : Option E}
    (hyields : Yields decode s fs err s') (herr : err = none) :
    ∃ t, decode s' = (.ok none, t) := by
  induction hyields with
  | @wait s s' hdecode => exact h.alike s s' s' hdecode (h.waits s s' hdecode)
  | fail => cases herr
  | frame _ _ ih => exact ih herr

/-- An error comes out of every longer input after the same frames. -/
theorem Yields.fail_append (h : Stable unread decode) {s s' : σ} {fs : List F} {err : Option E}
    (hyields : Yields decode s fs err s') {e : E} (herr : err = some e) {t : σ} {more : List α}
    (ht : unread t = unread s ++ more) : ∃ t', Yields decode t fs err t' := by
  induction hyields generalizing t with
  | wait => cases herr
  | fail hdecode =>
    obtain ⟨t', hdecode'⟩ := h.fail _ _ _ t more hdecode ht
    exact ⟨t', .fail hdecode'⟩
  | frame hdecode _ ih =>
    obtain ⟨t₁, hdecode₁, ht₁⟩ := h.frame _ _ _ t more hdecode ht
    obtain ⟨t', hrest⟩ := ih herr ht₁
    exact ⟨t', .frame hdecode₁ hrest⟩

/-- On a longer input the loop goes through the same frames, and on from what was left. -/
theorem Yields.append (h : Stable unread decode) {s s' : σ} {fs : List F} {err : Option E}
    (hyields : Yields decode s fs err s') (herr : err = none) {t : σ} {more : List α}
    (ht : unread t = unread s ++ more) :
    ∃ t₁, unread t₁ = unread s' ++ more ∧
      ∀ gs err' t', Yields decode t₁ gs err' t' → Yields decode t (fs ++ gs) err' t' := by
  induction hyields generalizing t with
  | @wait s s' hdecode => exact ⟨t, by rw [ht, h.waits s s' hdecode], fun _ _ _ hrest => hrest⟩
  | fail => cases herr
  | frame hdecode _ ih =>
    obtain ⟨t₁, hdecode₁, ht₁⟩ := h.frame _ _ _ t more hdecode ht
    obtain ⟨t₂, ht₂, hrest⟩ := ih herr ht₁
    exact ⟨t₂, ht₂, fun gs err' t' hgs => .frame hdecode₁ (hrest gs err' t' hgs)⟩

/-! ## Streams -/

variable {append : σ → χ → σ} {data : χ → List α} {fuel : σ → Nat}

/-- What comes out of the pieces comes out of the whole. -/
theorem feed_spec (h : Stable unread decode)
    (happend : ∀ s c, unread (append s c) = unread s ++ data c)
    (hfuel : ∀ s, (unread s).length < fuel s) {s s₀ : σ} (hwaiting : decode s = (.ok none, s₀))
    (cs : List χ) :
    ∃ fs err s', feed decode append fuel s cs = some ((fs, err), s') ∧
      ∀ t, unread t = unread s ++ cs.flatMap data →
        ∃ t', Yields decode t fs err t' ∧ (err = none → unread t' = unread s') := by
  induction cs generalizing s s₀ with
  | nil =>
    refine ⟨[], none, s, rfl, fun t ht => ?_⟩
    rw [List.flatMap_nil, List.append_nil] at ht
    obtain ⟨t', hdecode⟩ := h.alike s s₀ t hwaiting ht
    exact ⟨t', .wait hdecode, fun _ => (h.waits t t' hdecode).trans ht⟩
  | cons c cs ih =>
    obtain ⟨fs, err, s₁, hyields⟩ := h.exists_yields (append s c)
    have hdecodeAll := h.decodeAll_eq hyields (hfuel (append s c))
    have hunread : ∀ t, unread t = unread s ++ (c :: cs).flatMap data →
        unread t = unread (append s c) ++ cs.flatMap data := by
      intro t ht
      rw [ht, happend, List.flatMap_cons, List.append_assoc]
    cases err with
    | some e =>
      refine ⟨fs, some e, s₁, by rw [feed, hdecodeAll], fun t ht => ?_⟩
      obtain ⟨t', hfail⟩ := hyields.fail_append h rfl (hunread t ht)
      exact ⟨t', hfail, fun hnone => by cases hnone⟩
    | none =>
      obtain ⟨s₂, hstill⟩ := hyields.waiting h rfl
      obtain ⟨gs, err, s', hfeed, hrest⟩ := ih hstill
      refine ⟨fs ++ gs, err, s', by simp only [feed, hdecodeAll, hfeed, Option.map_some],
        fun t ht => ?_⟩
      obtain ⟨t₁, ht₁, hgo⟩ := hyields.append h rfl (hunread t ht)
      obtain ⟨t', ht', hleft⟩ := hrest t₁ ht₁
      exact ⟨t', hgo gs err t' ht', hleft⟩

theorem unread_foldl (happend : ∀ s c, unread (append s c) = unread s ++ data c) (s : σ)
    (cs : List χ) : unread (cs.foldl append s) = unread s ++ cs.flatMap data := by
  induction cs generalizing s with
  | nil => exact (List.append_nil _).symm
  | cons c cs ih => rw [List.foldl_cons, ih, happend, List.flatMap_cons, List.append_assoc]

/-- **However a stream is cut**, the same frames come out, the same error or none, and if there is
none the same input is left. -/
theorem feed_cut (h : Stable unread decode)
    (happend : ∀ s c, unread (append s c) = unread s ++ data c)
    (hfuel : ∀ s, (unread s).length < fuel s) {s s₀ : σ} (hwaiting : decode s = (.ok none, s₀))
    {cs ds : List χ} (hsame : cs.flatMap data = ds.flatMap data) :
    ∃ fs err s₁ s₂, feed decode append fuel s cs = some ((fs, err), s₁) ∧
      feed decode append fuel s ds = some ((fs, err), s₂) ∧
      (err = none → unread s₁ = unread s₂) := by
  obtain ⟨fs, err, s₁, hfeed₁, hwhole₁⟩ := feed_spec h happend hfuel hwaiting cs
  obtain ⟨gs, err', s₂, hfeed₂, hwhole₂⟩ := feed_spec h happend hfuel hwaiting ds
  have hcs := unread_foldl happend s cs
  obtain ⟨t₁, hyields₁, hleft₁⟩ := hwhole₁ _ hcs
  obtain ⟨t₂, hyields₂, hleft₂⟩ := hwhole₂ _ (hsame ▸ hcs)
  obtain ⟨rfl, rfl, rfl⟩ := hyields₁.unique hyields₂
  exact ⟨fs, err, s₁, s₂, hfeed₁, hfeed₂, fun hnone =>
    (hleft₁ hnone).symm.trans (hleft₂ hnone)⟩

theorem Yields.forall {P : F → Prop} {Q : E → σ → Prop}
    (hframe : ∀ s f s', decode s = (.ok (some f), s') → P f)
    (hfail : ∀ s e s', decode s = (.error e, s') → Q e s') {s s' : σ} {fs : List F}
    {err : Option E} (hyields : Yields decode s fs err s') :
    (∀ f ∈ fs, P f) ∧ ∀ e, err = some e → Q e s' := by
  induction hyields with
  | wait => exact ⟨fun f hf => absurd hf List.not_mem_nil, fun e he => by cases he⟩
  | fail hdecode =>
    refine ⟨fun f hf => absurd hf List.not_mem_nil, fun e he => ?_⟩
    obtain rfl := Option.some.inj he
    exact hfail _ _ _ hdecode
  | frame hdecode _ ih =>
    refine ⟨fun f hf => ?_, ih.2⟩
    rcases List.mem_cons.mp hf with rfl | hf
    · exact hframe _ _ _ hdecode
    · exact ih.1 f hf

/-- What holds of every frame and of every error, with the state it leaves, holds of what comes
out of a stream. -/
theorem feed_forall {P : F → Prop} {Q : E → σ → Prop}
    (hframe : ∀ s f s', decode s = (.ok (some f), s') → P f)
    (hfail : ∀ s e s', decode s = (.error e, s') → Q e s') {s s' : σ} {cs : List χ}
    {fs : List F} {err : Option E}
    (hfeed : feed decode append fuel s cs = some ((fs, err), s')) :
    (∀ f ∈ fs, P f) ∧ ∀ e, err = some e → Q e s' := by
  induction cs generalizing s fs with
  | nil =>
    cases hfeed
    exact ⟨fun f hf => absurd hf List.not_mem_nil, fun e he => by cases he⟩
  | cons c cs ih =>
    unfold feed at hfeed
    split at hfeed
    · rename_i gs t hdecodeAll
      obtain ⟨r, hr, heq⟩ := Option.map_eq_some_iff.mp hfeed
      cases heq
      obtain ⟨hfirst, -⟩ := (yields_of_decodeAll hdecodeAll).forall hframe hfail
      obtain ⟨hlater, herr⟩ := ih hr
      refine ⟨fun f hf => ?_, herr⟩
      rcases List.mem_append.mp hf with hf | hf
      · exact hfirst f hf
      · exact hlater f hf
    · exact (yields_of_decodeAll hfeed).forall hframe hfail

end Rules

end CommandCenter.Library
