import Mathlib.Data.List.Basic

/-!
# Decoding frames from a stream that arrives in pieces

A receiver holds a state `s` whose unread input is `unread s`. A decoder takes at most one frame
off it; `drain` calls it until it asks for more, and `receive` appends the pieces of a stream one
by one and drains after each. The loop has fuel, and `none` says that it ran out.

`Decodes` says what a decoder owes to an encoding: it takes a whole frame off the front of the
input, and it leaves a proper part of a frame alone.

* `drain_spec`: on part of a stream of frames, what `drain` takes and what it leaves.
* `receive_spec`: however the stream is cut, the frames come out in order and nothing is left.
-/

namespace CommandCenter.Library

variable {σ α χ F E : Type*}

/-- Decode until more input is needed. -/
def drain (decode : σ → Except E (Option F) × σ) : Nat → σ → Option (Except E (List F) × σ)
  | 0, _ => none
  | fuel + 1, s =>
    match decode s with
    | (.error e, s') => some (.error e, s')
    | (.ok none, s') => some (.ok [], s')
    | (.ok (some f), s') =>
      match drain decode fuel s' with
      | some (.ok fs, s'') => some (.ok (f :: fs), s'')
      | other => other

/-- Append the pieces of a stream one by one, and drain after each. -/
def receive (decode : σ → Except E (Option F) × σ) (append : σ → χ → σ) (fuel : σ → Nat) :
    σ → List χ → Option (Except E (List F) × σ)
  | s, [] => some (.ok [], s)
  | s, c :: cs =>
    match drain decode (fuel (append s c)) (append s c) with
    | some (.ok fs, s') =>
      match receive decode append fuel s' cs with
      | some (.ok gs, s'') => some (.ok (fs ++ gs), s'')
      | other => other
    | other => other

/-- The decoder takes the frames of the encoding `wire` off the unread input. -/
structure Decodes (unread : σ → List α) (decode : σ → Except E (Option F) × σ)
    (wire : F → List α) (Ok : F → Prop) : Prop where
  nonempty : ∀ f, Ok f → wire f ≠ []
  whole : ∀ s f rest, Ok f → unread s = wire f ++ rest →
    ∃ s', decode s = (.ok (some f), s') ∧ unread s' = rest
  part : ∀ s f rest, Ok f → rest ≠ [] → unread s ++ rest = wire f → decode s = (.ok none, s)
  empty : ∀ s, unread s = [] → decode s = (.ok none, s)

section Rules

variable {unread : σ → List α} {decode : σ → Except E (Option F) × σ} {wire : F → List α}
  {Ok : F → Prop}

/-- The unread input is not yet a whole frame. -/
def Waiting (unread : σ → List α) (wire : F → List α) (s : σ) (fs : List F) : Prop :=
  ∀ f ∈ fs.head?, (unread s).length < (wire f).length

theorem Waiting.eq_nil {s : σ} {fs : List F} (h : Waiting unread wire s fs)
    (hstream : unread s = fs.flatMap wire) : fs = [] := by
  cases fs with
  | nil => rfl
  | cons f fs =>
    have hlt := h f rfl
    rw [hstream, List.flatMap_cons, List.length_append] at hlt
    omega

/-- Drain a part of a stream of frames: the frames that it holds come out in order, and less
than a frame is left. -/
theorem drain_spec (hdecodes : Decodes unread decode wire Ok) {fs : List F}
    (hfs : ∀ f ∈ fs, Ok f) {s : σ} {tail : List α} (hstream : unread s ++ tail = fs.flatMap wire)
    {fuel : Nat} (hfuel : (unread s).length < fuel) :
    ∃ done rest s', fs = done ++ rest ∧ drain decode fuel s = some (.ok done, s') ∧
      unread s' ++ tail = rest.flatMap wire ∧ Waiting unread wire s' rest := by
  induction fs generalizing s fuel with
  | nil =>
    obtain ⟨hempty, _⟩ : unread s = [] ∧ tail = [] := by simpa using hstream
    obtain ⟨fuel, rfl⟩ : ∃ n, fuel = n + 1 := ⟨fuel - 1, by omega⟩
    refine ⟨[], [], s, rfl, ?_, hstream, fun f hf => by cases hf⟩
    rw [drain, hdecodes.empty s hempty]
  | cons f fs ih =>
    have hf : Ok f := hfs f List.mem_cons_self
    obtain ⟨fuel, rfl⟩ : ∃ n, fuel = n + 1 := ⟨fuel - 1, by omega⟩
    have hfront : unread s ++ tail = wire f ++ fs.flatMap wire := hstream
    by_cases hlen : (wire f).length ≤ (unread s).length
    · -- The first frame is whole.
      obtain ⟨rest, hrest⟩ : ∃ rest, unread s = wire f ++ rest := by
        obtain ⟨rest, hrest⟩ := List.prefix_of_prefix_length_le
          (List.prefix_append (wire f) (fs.flatMap wire)) (hfront ▸ List.prefix_append _ tail) hlen
        exact ⟨rest, hrest.symm⟩
      obtain ⟨s₁, hdecode, hunread⟩ := hdecodes.whole s f rest hf hrest
      have hpos := List.length_pos_of_ne_nil (hdecodes.nonempty f hf)
      have hshort : (unread s₁).length < fuel := by
        rw [hrest, List.length_append] at hfuel
        rw [hunread]
        omega
      have htail : unread s₁ ++ tail = fs.flatMap wire := by
        rw [hrest, List.append_assoc] at hfront
        rw [hunread]
        exact List.append_cancel_left hfront
      obtain ⟨done, left, s₂, hsplit, hdrain, hleft, hwaiting⟩ :=
        ih (fun g hg => hfs g (List.mem_cons_of_mem f hg)) htail hshort
      refine ⟨f :: done, left, s₂, by rw [hsplit]; rfl, ?_, hleft, hwaiting⟩
      rw [drain, hdecode]
      simp only [hdrain]
    · -- Only a part of the first frame is there.
      obtain ⟨rest, hrest⟩ : ∃ rest, unread s ++ rest = wire f :=
        List.prefix_of_prefix_length_le (hfront ▸ List.prefix_append _ tail)
          (List.prefix_append (wire f) (fs.flatMap wire)) (by omega)
      have hne : rest ≠ [] := by
        rintro rfl
        rw [List.append_nil] at hrest
        exact hlen (hrest ▸ Nat.le_refl _)
      refine ⟨[], f :: fs, s, rfl, ?_, hstream, fun g hg => ?_⟩
      · rw [drain, hdecodes.part s f rest hf hne hrest]
      · obtain rfl : f = g := Option.some.inj hg
        omega

/-- **However a stream of frames is cut**, receiving the pieces yields the frames in order and
leaves nothing unread. -/
theorem receive_spec (hdecodes : Decodes unread decode wire Ok) {append : σ → χ → σ}
    {data : χ → List α} (happend : ∀ s c, unread (append s c) = unread s ++ data c)
    {fuel : σ → Nat} (hfuel : ∀ s, (unread s).length < fuel s) {fs : List F}
    (hfs : ∀ f ∈ fs, Ok f) {s : σ} (hwaiting : Waiting unread wire s fs) {cs : List χ}
    (hstream : unread s ++ cs.flatMap data = fs.flatMap wire) :
    ∃ s', receive decode append fuel s cs = some (.ok fs, s') ∧ unread s' = [] := by
  induction cs generalizing s fs with
  | nil =>
    rw [List.flatMap_nil, List.append_nil] at hstream
    obtain rfl := hwaiting.eq_nil hstream
    exact ⟨s, rfl, hstream⟩
  | cons c cs ih =>
    have hmore : unread (append s c) ++ cs.flatMap data = fs.flatMap wire := by
      rw [happend, List.append_assoc]
      exact hstream
    obtain ⟨done, rest, s₁, rfl, hdrain, hleft, hwaiting⟩ :=
      drain_spec hdecodes hfs hmore (hfuel (append s c))
    obtain ⟨s₂, hreceive, hempty⟩ :=
      ih (fun f hf => hfs f (List.mem_append_right done hf)) hwaiting hleft
    refine ⟨s₂, ?_, hempty⟩
    rw [receive, hdrain]
    simp only [hreceive]

end Rules

end CommandCenter.Library
