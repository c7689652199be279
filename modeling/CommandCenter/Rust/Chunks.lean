import Mathlib.Data.List.Basic

/-!
# Slices piece by piece

`chunks_exact`, and `collect` of what may fail.

* `flatten_chunksExact`, `chunksExact_flatMap`: a slice of whole chunks.
* `mapM_eq_map`, `mapM_ne_none`: where every call gives something.
-/

namespace CommandCenter.Rust

/-! ## Calls that may fail -/

section Calls

variable {α β : Type}

theorem mapM_eq_map {m : Type → Type} [Monad m] [LawfulMonad m] {f : α → m β} {g : α → β}
    {l : List α} (h : ∀ a ∈ l, f a = pure (g a)) : l.mapM f = pure (l.map g) := by
  induction l with
  | nil => exact List.mapM_nil
  | cons a l ih =>
    rw [List.forall_mem_cons] at h
    rw [List.mapM_cons, h.1, ih h.2, pure_bind, pure_bind, List.map_cons]

theorem mapM_ne_none {f : α → Option β} {l : List α} : l.mapM f ≠ none ↔ ∀ a ∈ l, f a ≠ none := by
  induction l with
  | nil =>
    constructor
    · intro _ a ha
      cases ha
    · intro _
      exact Option.some_ne_none _
  | cons a l ih =>
    rw [List.mapM_cons, List.forall_mem_cons, ← ih]
    cases f a with
    | none => simp
    | some b =>
      cases l.mapM f with
      | none => simp
      | some bs => simp

theorem mapM_some {f : α → Option β} {l : List α} {l' : List β} (h : l.mapM f = some l') {b : β}
    (hb : b ∈ l') : ∃ a ∈ l, f a = some b := by
  induction l generalizing l' with
  | nil =>
    obtain rfl := Option.some.inj h
    cases hb
  | cons a l ih =>
    rw [List.mapM_cons] at h
    obtain ⟨first, hfirst, h⟩ := Option.bind_eq_some_iff.mp h
    obtain ⟨rest, hrest, h⟩ := Option.bind_eq_some_iff.mp h
    obtain rfl := Option.some.inj h
    rcases List.mem_cons.mp hb with rfl | hmem
    · exact ⟨a, List.mem_cons_self, hfirst⟩
    · obtain ⟨a', ha', hf⟩ := ih hrest hmem
      exact ⟨a', List.mem_cons_of_mem a ha', hf⟩

theorem length_mapM {f : α → Option β} {l : List α} {l' : List β} (h : l.mapM f = some l') :
    l'.length = l.length := by
  induction l generalizing l' with
  | nil =>
    obtain rfl := Option.some.inj h
    rfl
  | cons a l ih =>
    rw [List.mapM_cons] at h
    obtain ⟨first, _, h⟩ := Option.bind_eq_some_iff.mp h
    obtain ⟨rest, hrest, h⟩ := Option.bind_eq_some_iff.mp h
    obtain rfl := Option.some.inj h
    rw [List.length_cons, List.length_cons, ih hrest]

end Calls

/-! ## Chunks -/

def chunksExact {α : Type} (n : Nat) (s : List α) : List (List α) :=
  (List.range (s.length / n)).map fun i => (s.drop (i * n)).take n

section Chunks

variable {α β : Type} {n : Nat}

theorem length_of_mem_chunksExact {s chunk : List α} (h : chunk ∈ chunksExact n s) :
    chunk.length = n := by
  obtain ⟨i, hi, rfl⟩ := List.mem_map.mp h
  rw [List.mem_range] at hi
  have hroom : (i + 1) * n ≤ s.length :=
    Nat.le_trans (Nat.mul_le_mul_right n hi) (Nat.div_mul_le_self s.length n)
  rw [Nat.succ_mul] at hroom
  rw [List.length_take, List.length_drop]
  omega

theorem chunksExact_nil : chunksExact n ([] : List α) = [] := by
  rw [chunksExact, List.length_nil, Nat.zero_div]
  rfl

theorem chunksExact_append {chunk : List α} (hn : 0 < n) (h : chunk.length = n) (s : List α) :
    chunksExact n (chunk ++ s) = chunk :: chunksExact n s := by
  have hcount : (chunk ++ s).length / n = s.length / n + 1 := by
    rw [List.length_append, h, Nat.add_div_left _ hn]
  unfold chunksExact
  rw [hcount, List.range_succ_eq_map, List.map_cons, List.map_map, Nat.zero_mul, List.drop_zero,
    List.take_left' h]
  congr 1
  refine List.map_congr_left fun i _ => ?_
  show ((chunk ++ s).drop ((i + 1) * n)).take n = _
  rw [Nat.succ_mul, Nat.add_comm, ← List.drop_drop, List.drop_left' h]

theorem flatten_chunksExact {k : Nat} {s : List α} (h : s.length = k * n) :
    (chunksExact n s).flatten = s := by
  induction k generalizing s with
  | zero =>
    rw [Nat.zero_mul, List.length_eq_zero_iff] at h
    rw [h, chunksExact_nil]
    rfl
  | succ k ih =>
    rw [Nat.succ_mul] at h
    rcases Nat.eq_zero_or_pos n with rfl | hn
    · exact ih h
    · have hlength : (s.drop n).length = k * n := by
        rw [List.length_drop]
        omega
      have hchunk : (s.take n).length = n := by
        rw [List.length_take]
        omega
      have hcut := chunksExact_append hn hchunk (s.drop n)
      rw [List.take_append_drop] at hcut
      rw [hcut, List.flatten_cons, ih hlength, List.take_append_drop]

/-- Pieces of one length are the chunks. -/
theorem chunksExact_flatMap (hn : 0 < n) {f : β → List α} {l : List β}
    (h : ∀ b ∈ l, (f b).length = n) : chunksExact n (l.flatMap f) = l.map f := by
  induction l with
  | nil => exact chunksExact_nil
  | cons b l ih =>
    rw [List.forall_mem_cons] at h
    rw [List.flatMap_cons, chunksExact_append hn h.1, ih h.2, List.map_cons]

theorem length_flatMap_of {f : β → List α} {l : List β} (h : ∀ b ∈ l, (f b).length = n) :
    (l.flatMap f).length = l.length * n := by
  induction l with
  | nil => exact (Nat.zero_mul n).symm
  | cons b l ih =>
    rw [List.forall_mem_cons] at h
    rw [List.flatMap_cons, List.length_append, h.1, ih h.2, List.length_cons, Nat.succ_mul,
      Nat.add_comm]

theorem drop_flatMap_of {f : β → List α} {l : List β} (h : ∀ b ∈ l, (f b).length = n) (k : Nat) :
    (l.flatMap f).drop (k * n) = (l.drop k).flatMap f := by
  induction k generalizing l with
  | zero => rw [Nat.zero_mul, List.drop_zero, List.drop_zero]
  | succ k ih =>
    cases l with
    | nil => rw [List.flatMap_nil, List.drop_nil, List.drop_nil, List.flatMap_nil]
    | cons b l =>
      rw [List.forall_mem_cons] at h
      rw [Nat.succ_mul, Nat.add_comm, ← List.drop_drop, List.flatMap_cons, List.drop_left' h.1,
        ih h.2, List.drop_succ_cons]

theorem take_flatMap_of {f : β → List α} {l : List β} (h : ∀ b ∈ l, (f b).length = n) (k : Nat) :
    (l.flatMap f).take (k * n) = (l.take k).flatMap f := by
  induction k generalizing l with
  | zero => rw [Nat.zero_mul, List.take_zero, List.take_zero, List.flatMap_nil]
  | succ k ih =>
    cases l with
    | nil => rw [List.flatMap_nil, List.take_nil, List.take_nil, List.flatMap_nil]
    | cons b l =>
      rw [List.forall_mem_cons] at h
      have hfirst : (f b).length ≤ (k + 1) * n := by
        rw [h.1, Nat.succ_mul]
        exact Nat.le_add_left _ _
      have hrest : (k + 1) * n - (f b).length = k * n := by
        rw [h.1, Nat.succ_mul, Nat.add_sub_cancel]
      rw [List.flatMap_cons, List.take_append, List.take_of_length_le hfirst, hrest, ih h.2,
        List.take_succ_cons, List.flatMap_cons]

/-- One of the pieces, and those behind it. -/
theorem drop_rows {f : Nat → List α} {h y : Nat} (hf : ∀ y ∈ List.range h, (f y).length = n)
    (hy : y < h) : ∃ rest, ((List.range h).flatMap f).drop (y * n) = f y ++ rest := by
  have hlt : y < (List.range h).length := by
    rw [List.length_range]
    exact hy
  refine ⟨((List.range h).drop (y + 1)).flatMap f, ?_⟩
  rw [drop_flatMap_of hf, List.drop_eq_getElem_cons hlt, List.flatMap_cons, List.getElem_range]

end Chunks

end CommandCenter.Rust
