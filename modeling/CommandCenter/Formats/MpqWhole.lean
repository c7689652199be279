import CommandCenter.Formats.Mpq

/-!
# Members that are read whole

Each sector is expanded into zeros, so a sector that has too little leaves some of them.

* `expands_iff`: what is expanded is whole just when nothing is missing.
* `readSectors_spec`: the loop gives the parts of the sectors, one after another.
* `readsWhole_iff`: a member is read whole just when nothing is missing of a sector that can be read.
-/

namespace CommandCenter.Formats.Mpq

open Rust

/-! ## One sector -/

theorem length_decryptFrom (seed key : UInt32) (data : List UInt8) :
    (decryptFrom seed key data).length = data.length := by
  induction hlen : data.length using Nat.strong_induction_on generalizing seed key data with
  | h n ih =>
    subst hlen
    rcases data with _ | ⟨a, _ | ⟨b, _ | ⟨c, _ | ⟨d, rest⟩⟩⟩⟩
    · rfl
    · rfl
    · rfl
    · rfl
    · rw [decryptFrom, List.length_append, ih _ (by simp; omega) _ _ rest rfl]
      simp [toBeBytes]
      omega

theorem length_decryptWith (key : Option UInt32) (f : UInt32 → UInt32) (data : List UInt8) :
    (decryptWith key f data).length = data.length := by
  cases key with
  | none => rfl
  | some k => exact length_decryptFrom _ _ data

section Expand

variable {blk : Block} {s : Sector} {bytes part : List UInt8}

def Expands (blk : Block) (s : Sector) (part : List UInt8) : Prop :=
  expand s.stored (List.replicate s.want 0) blk = some (.ok part)

inductive Says (blk : Block) (s : Sector) : List UInt8 → Prop where
  | as_is : AsIs blk s → Says blk s s.stored
  | stream {stream : List UInt8} : ¬ AsIs blk s → streamOf blk s.stored = .ok stream →
      (t : Pkware.Stream stream s.want) → Says blk s (Pkware.expand t.tokens)

theorem expand_as_is (h : AsIs blk s) : expand s.stored (List.replicate s.want 0) blk =
    some (.ok (Pkware.fitted (List.replicate s.want 0) s.stored)) := by
  have hcond : s.stored.length = (List.replicate s.want (0 : UInt8)).length ∨ ¬ blk.compressed := by
    rwa [List.length_replicate]
  have hfitted : s.stored.take (min s.stored.length s.want) ++
      (List.replicate s.want (0 : UInt8)).drop (min s.stored.length s.want) =
        Pkware.fitted (List.replicate s.want 0) s.stored := by
    rw [Pkware.fitted, List.length_replicate]
    rcases Nat.le_total s.stored.length s.want with hle | hle
    · rw [Nat.min_eq_left hle, List.take_length, List.take_of_length_le hle]
    · rw [Nat.min_eq_right hle, List.drop_replicate, List.drop_replicate, Nat.sub_self,
        Nat.sub_eq_zero_of_le hle]
  rw [expand, if_pos hcond, List.length_replicate, ← hfitted]
  rfl

theorem expand_stream (h : ¬ AsIs blk s) : expand s.stored (List.replicate s.want 0) blk =
    ((liftM (streamOf blk s.stored) : Checked Error (List UInt8)) >>= fun stream =>
      Prod.snd <$> (Pkware.explode stream (List.replicate s.want 0)).adapt Error.pkware) := by
  have hcond : ¬ (s.stored.length = (List.replicate s.want (0 : UInt8)).length ∨
      ¬ blk.compressed) := by
    rwa [List.length_replicate]
  rw [expand, if_neg hcond]
  rfl

theorem explode_zeros {stream out : List UInt8} {room n : Nat} :
    Pkware.explode stream (List.replicate room 0) = some (.ok (n, out)) ↔
      ∃ t : Pkware.Stream stream room, n = min room (Pkware.expand t.tokens).length ∧
        out = Pkware.fitted (List.replicate room 0) (Pkware.expand t.tokens) := by
  have hexplode : Pkware.explode stream (List.replicate room 0) = some (.ok (n, out)) ↔ _ :=
    Pkware.explode_eq_ok
  rwa [List.length_replicate] at hexplode

theorem expands_iff : Expands blk s part ↔
    ∃ bytes, Says blk s bytes ∧ part = Pkware.fitted (List.replicate s.want 0) bytes := by
  unfold Expands
  by_cases h : AsIs blk s
  · rw [expand_as_is h]
    constructor
    · intro hpart
      exact ⟨s.stored, .as_is h, (Except.ok.inj (Option.some.inj hpart)).symm⟩
    · rintro ⟨_, hsays, rfl⟩
      cases hsays with
      | as_is _ => rfl
      | stream hnot => exact absurd h hnot
  · rw [expand_stream h, Checked.bind_eq_ok]
    constructor
    · rintro ⟨stream, hstream, hexplode⟩
      obtain ⟨⟨n, out⟩, hread, rfl⟩ := Checked.map_eq_ok.mp hexplode
      obtain ⟨t, _, rfl⟩ := explode_zeros.mp (Checked.adapt_eq_ok.mp hread)
      exact ⟨_, .stream h (Checked.lift_eq_ok.mp hstream) t, rfl⟩
    · rintro ⟨_, hsays, rfl⟩
      cases hsays with
      | as_is hnot => exact absurd hnot h
      | stream _ hstream t =>
        have hexplode := explode_zeros.mpr ⟨t, rfl, rfl⟩
        exact ⟨_, Checked.lift_eq_ok.mpr hstream,
          Checked.map_eq_ok.mpr ⟨_, Checked.adapt_eq_ok.mpr hexplode, rfl⟩⟩

theorem expand_ne_none : expand s.stored (List.replicate s.want 0) blk ≠ none := by
  by_cases h : AsIs blk s
  · rw [expand_as_is h]
    exact Option.some_ne_none _
  · rw [expand_stream h]
    refine Checked.bind_ne_none.mpr ⟨Checked.lift_ne_none _, fun stream _ => ?_⟩
    exact Checked.map_ne_none.mpr (Checked.adapt_ne_none.mpr (Pkware.explode_ne_none _ _))

theorem readable_iff : Readable blk s ↔ ∃ part, Expands blk s part := by
  simp only [expands_iff]
  constructor
  · rintro (h | ⟨stream, hstream, ⟨t⟩⟩)
    · exact ⟨_, _, .as_is h, rfl⟩
    · by_cases h : AsIs blk s
      · exact ⟨_, _, .as_is h, rfl⟩
      · exact ⟨_, _, .stream h hstream t, rfl⟩
  · rintro ⟨_, _, hsays, _⟩
    cases hsays with
    | as_is h => exact .inl h
    | stream _ hstream t => exact .inr ⟨_, hstream, ⟨t⟩⟩

theorem length_expands (h : Expands blk s part) : part.length = s.want := by
  obtain ⟨bytes, _, rfl⟩ := expands_iff.mp h
  rw [Pkware.length_fitted, List.length_replicate]

/-- Streams of the same bytes are as long as each other, as far as there is room. -/
theorem full_unique {stream : List UInt8} {room : Nat} (t u : Pkware.Stream stream room)
    (h : room ≤ (Pkware.expand t.tokens).length) : room ≤ (Pkware.expand u.tokens).length := by
  have ht := explode_zeros.mpr ⟨t, rfl, rfl⟩
  have hu := explode_zeros.mpr ⟨u, rfl, rfl⟩
  have hsame := congrArg Prod.fst (Except.ok.inj (Option.some.inj (ht.symm.trans hu)))
  have hmin : min room (Pkware.expand t.tokens).length = min room (Pkware.expand u.tokens).length :=
    hsame
  omega

/-- Nothing is added to bytes that are enough. -/
theorem fitted_zeros {room : Nat} (h : room ≤ bytes.length) :
    Pkware.fitted (List.replicate room 0) bytes = bytes.take room := by
  rw [Pkware.fitted, List.length_replicate, List.drop_eq_nil_of_le (by rwa [List.length_replicate]),
    List.append_nil]

theorem expands_whole (h : Expands blk s part) : Whole blk s part ↔ Full blk s := by
  have hlength := length_expands h
  obtain ⟨bytes, hsays, rfl⟩ := expands_iff.mp h
  constructor
  · intro hwhole
    constructor
    · intro hasIs
      rw [← hwhole.as_is hasIs, hlength]
    · intro hnot stream hstream t
      obtain ⟨stream', hstream', u, hfull, _⟩ := hwhole.stream hnot
      obtain rfl := Except.ok.inj (hstream.symm.trans hstream')
      exact full_unique u t hfull
  · intro hfull
    cases hsays with
    | as_is hasIs =>
      have hall : Pkware.fitted (List.replicate s.want 0) s.stored = s.stored := by
        rw [fitted_zeros (Nat.le_of_eq (hfull.as_is hasIs).symm), ← hfull.as_is hasIs, List.take_length]
      exact ⟨hlength, fun _ => hall, fun hnot => absurd hasIs hnot⟩
    | stream hnot hstream t =>
      have henough := hfull.stream hnot _ hstream t
      exact ⟨hlength, fun hasIs => absurd hasIs hnot,
        fun _ => ⟨_, hstream, t, henough, fitted_zeros henough⟩⟩

end Expand

/-! ## The loop over the sectors -/

section Loop

variable {blk : Block} {key : Option UInt32} {sector_size count : Nat} {offsets : List Nat}
  {raw₀ : List UInt8}

/-- The sectors fill the member, and there is an offset for each of them and the end. -/
structure Layout (blk : Block) (sector_size count : Nat) (offsets : List Nat) : Prop where
  before : ∀ i < count, i * sector_size < blk.unpacked.toNat
  after : blk.unpacked.toNat ≤ count * sector_size
  offsets_length : offsets.length = count + 1

/-- The sectors from one on are as they were, and so are their places in the output. -/
structure Reading (blk : Block) (sector_size : Nat) (offsets : List Nat) (raw₀ : List UInt8) (i : Nat)
    (raw out : List UInt8) : Prop where
  raw_length : raw.length = raw₀.length
  raw_drop : ∀ start, offsets[i]? = some start → raw.drop start = raw₀.drop start
  out_length : out.length = blk.unpacked.toNat
  out_drop : out.drop (i * sector_size) = List.replicate (blk.unpacked.toNat - i * sector_size) 0

theorem sectorAt_eq {i start stop : Nat} (hstart : offsets[i]? = some start)
    (hstop : offsets[i + 1]? = some stop) :
    sectorAt blk key sector_size offsets raw₀ i = (slice raw₀ start stop).map fun stored =>
      ⟨decryptWith key (· + .ofNat i) stored,
        min sector_size (blk.unpacked.toNat - i * sector_size)⟩ := by
  rw [sectorAt, hstart, hstop]
  show ((slice raw₀ start stop).bind fun stored => _) = _
  cases slice raw₀ start stop <;> rfl

theorem slice_of_drop {raw : List UInt8} {start stop : Nat} (hlength : raw.length = raw₀.length)
    (hdrop : raw.drop start = raw₀.drop start) : slice raw start stop = slice raw₀ start stop := by
  unfold slice
  rw [hlength, List.drop_take, List.drop_take, hdrop]

/-- The sectors that follow a sector are as they were. -/
theorem drop_splice {raw sector : List UInt8} {start stop : Nat} (hstart : start ≤ stop)
    (hstop : stop ≤ raw.length) (hsector : sector.length = stop - start) :
    (raw.take start ++ sector ++ raw.drop stop).drop stop = raw.drop stop := by
  have hlength : (raw.take start ++ sector).length = stop := by
    rw [List.length_append, List.length_take, hsector]
    omega
  exact List.drop_left' hlength

theorem length_splice {raw sector : List UInt8} {start stop : Nat} (hstart : start ≤ stop)
    (hstop : stop ≤ raw.length) (hsector : sector.length = stop - start) :
    (raw.take start ++ sector ++ raw.drop stop).length = raw.length := by
  rw [List.length_append, List.length_append, List.length_take, hsector, List.length_drop]
  omega

theorem reading_next {i start stop : Nat} {raw out sector dst : List UInt8}
    (hstop : offsets[i + 1]? = some stop) (hread : Reading blk sector_size offsets raw₀ i raw out)
    (hplace : i * sector_size < blk.unpacked.toNat) (hle : start ≤ stop) (hraw : stop ≤ raw.length)
    (hsector : sector.length = stop - start)
    (hdst : dst.length = min sector_size (blk.unpacked.toNat - i * sector_size))
    (hsame : raw.drop start = raw₀.drop start) :
    Reading blk sector_size offsets raw₀ (i + 1) (raw.take start ++ sector ++ raw.drop stop)
      (out.take (i * sector_size) ++ dst ++ out.drop (i * sector_size +
        min sector_size (blk.unpacked.toNat - i * sector_size))) := by
  have hout := hread.out_length
  have hsucc : (i + 1) * sector_size = i * sector_size + sector_size := Nat.succ_mul i sector_size
  constructor
  · rw [length_splice hle hraw hsector, hread.raw_length]
  · intro next hnext
    obtain rfl := Option.some.inj (hstop.symm.trans hnext)
    have hrest := congrArg (List.drop (stop - start)) hsame
    rw [List.drop_drop, List.drop_drop, Nat.add_sub_cancel' hle] at hrest
    rw [drop_splice hle hraw hsector, hrest]
  · rw [length_splice (by omega) (by omega) (by omega), hout]
  · rw [hsucc]
    rcases Nat.le_total sector_size (blk.unpacked.toNat - i * sector_size) with hfull | hlast
    · rw [Nat.min_eq_left hfull] at hdst ⊢
      rw [drop_splice (by omega) (by omega) (by omega), ← List.drop_drop, hread.out_drop,
        List.drop_replicate, Nat.sub_sub]
    · have hzero : blk.unpacked.toNat - (i * sector_size + sector_size) = 0 := by omega
      rw [hzero, List.replicate_zero]
      apply List.drop_eq_nil_of_le
      rw [length_splice (by omega) (by omega) (by omega), hout]
      omega

/-- The output up to the next sector is what there was and the sector. -/
theorem take_splice {i : Nat} {out dst : List UInt8} (hout : out.length = blk.unpacked.toNat)
    (hplace : i * sector_size < blk.unpacked.toNat)
    (hdst : dst.length = min sector_size (blk.unpacked.toNat - i * sector_size)) :
    (out.take (i * sector_size) ++ dst ++ out.drop (i * sector_size +
      min sector_size (blk.unpacked.toNat - i * sector_size))).take ((i + 1) * sector_size) =
        out.take (i * sector_size) ++ dst := by
  have hsucc : (i + 1) * sector_size = i * sector_size + sector_size := Nat.succ_mul i sector_size
  have hlength : (out.take (i * sector_size) ++ dst).length =
      i * sector_size + min sector_size (blk.unpacked.toNat - i * sector_size) := by
    rw [List.length_append, List.length_take, hdst]
    omega
  rcases Nat.le_total sector_size (blk.unpacked.toNat - i * sector_size) with hfull | hlast
  · rw [Nat.min_eq_left hfull] at hlength ⊢
    exact List.take_left' (by rw [hlength, hsucc])
  · rw [List.drop_eq_nil_of_le (by omega), List.append_nil]
    exact List.take_of_length_le (by omega)

theorem readSectors_step (hlayout : Layout blk sector_size count offsets) {i : Nat} (hi : i < count)
    (is : List Nat) {raw out : List UInt8} (hread : Reading blk sector_size offsets raw₀ i raw out) :
    (sectorAt blk key sector_size offsets raw₀ i = none ∧
      readSectors blk key sector_size offsets (i :: is) raw out = some (.error .badSectorTable)) ∨
    ∃ s raw', sectorAt blk key sector_size offsets raw₀ i = some s ∧
      s.want = min sector_size (blk.unpacked.toNat - i * sector_size) ∧
      readSectors blk key sector_size offsets (i :: is) raw out =
        (expand s.stored (List.replicate s.want 0) blk >>= fun dst =>
          readSectors blk key sector_size offsets is raw'
            (out.take (i * sector_size) ++ dst ++ out.drop (i * sector_size + s.want))) ∧
      ∀ dst : List UInt8, dst.length = s.want → Reading blk sector_size offsets raw₀ (i + 1) raw'
        (out.take (i * sector_size) ++ dst ++ out.drop (i * sector_size + s.want)) := by
  have hplace := hlayout.before i hi
  have hlt : i + 1 < offsets.length := by
    rw [hlayout.offsets_length]
    omega
  have hstart := List.getElem?_eq_getElem (Nat.lt_of_succ_lt hlt)
  have hstop := List.getElem?_eq_getElem hlt
  have hsame := hread.raw_drop _ hstart
  generalize offsets[i] = start at hstart hsame
  generalize offsets[i + 1] = stop at hstop
  have hslice : slice raw start stop = slice raw₀ start stop := slice_of_drop hread.raw_length hsame
  have hunfold : readSectors blk key sector_size offsets (i :: is) raw out =
      if stop < start ∨ raw.length < stop then throw .badSectorTable
      else
        (liftM (slice raw start stop) : Checked Error (List UInt8)) >>= fun stored =>
          (liftM (slice out (i * sector_size) (i * sector_size +
            min sector_size (blk.unpacked.toNat - i * sector_size))) :
              Checked Error (List UInt8)) >>= fun dst =>
            expand (decryptWith key (· + .ofNat i) stored) dst blk >>= fun dst =>
              readSectors blk key sector_size offsets is
                (raw.take start ++ decryptWith key (· + .ofNat i) stored ++ raw.drop stop)
                (out.take (i * sector_size) ++ dst ++ out.drop (i * sector_size +
                  min sector_size (blk.unpacked.toNat - i * sector_size))) := by
    rw [readSectors, hstart, hstop]
    rfl
  rw [sectorAt_eq hstart hstop, hunfold]
  by_cases hbad : stop < start ∨ raw.length < stop
  · left
    have hnone : slice raw₀ start stop = none := by
      unfold slice
      rw [if_neg (by rw [← hread.raw_length]; omega)]
    rw [if_pos hbad, hnone]
    exact ⟨rfl, rfl⟩
  · right
    have hle : start ≤ stop := by omega
    have hraw : stop ≤ raw.length := by omega
    have hstored := slice_eq hle hraw
    have hlength : ((raw.take stop).drop start).length = stop - start := by
      rw [List.length_drop, List.length_take]
      omega
    have hzeros : slice out (i * sector_size) (i * sector_size +
        min sector_size (blk.unpacked.toNat - i * sector_size)) =
          some (List.replicate (min sector_size (blk.unpacked.toNat - i * sector_size)) 0) := by
      have hout := hread.out_length
      rw [slice_eq (by omega) (by omega), List.drop_take, hread.out_drop, List.take_replicate]
      congr 2
      omega
    rw [if_neg hbad, ← hslice, hstored, hzeros]
    refine ⟨_, _, rfl, rfl, rfl, fun dst hdst => ?_⟩
    exact reading_next hstop hread hplace hle hraw (by rw [length_decryptWith, hlength]) hdst hsame

/-- The sectors from one on are read when they are all there and can be expanded. -/
theorem readSectors_spec (hlayout : Layout blk sector_size count offsets) {i n : Nat}
    (hn : i + n = count) {raw out : List UInt8}
    (hread : Reading blk sector_size offsets raw₀ i raw out) :
    readSectors blk key sector_size offsets (List.range' i n) raw out ≠ none ∧
      ∀ all, readSectors blk key sector_size offsets (List.range' i n) raw out = some (.ok all) ↔
        ∃ sectors parts,
          (List.range' i n).mapM (sectorAt blk key sector_size offsets raw₀) = some sectors ∧
          List.Forall₂ (Expands blk) sectors parts ∧
          all = out.take (i * sector_size) ++ parts.flatten := by
  induction n generalizing i raw out with
  | zero =>
    have hafter := hlayout.after
    refine ⟨Option.some_ne_none _, fun all => ?_⟩
    have hend : out.take (i * sector_size) = out := by
      apply List.take_of_length_le
      rw [hread.out_length]
      rw [Nat.add_zero] at hn
      rwa [hn]
    rw [hend]
    constructor
    · intro h
      obtain rfl := Except.ok.inj (Option.some.inj h)
      exact ⟨[], [], rfl, .nil, (List.append_nil _).symm⟩
    · rintro ⟨sectors, parts, hsectors, hparts, rfl⟩
      obtain rfl := Option.some.inj hsectors
      cases hparts
      rw [List.flatten_nil, List.append_nil]
      rfl
  | succ n ih =>
    rw [List.range'_succ, List.mapM_cons]
    rcases readSectors_step hlayout (by omega) (List.range' (i + 1) n) hread with
      ⟨hnone, hbad⟩ | ⟨s, raw', hsector, hwant, hstep, hnext⟩
    · rw [hbad, hnone]
      refine ⟨Option.some_ne_none _, fun all => ?_⟩
      constructor
      · intro h
        cases Option.some.inj h
      · rintro ⟨_, _, hsectors, _⟩
        cases hsectors
    · rw [hstep, hsector]
      have hrest := fun dst hdst => ih (by omega) (hnext dst hdst)
      have htake : ∀ dst : List UInt8, dst.length = s.want →
          (out.take (i * sector_size) ++ dst ++ out.drop (i * sector_size + s.want)).take
            ((i + 1) * sector_size) = out.take (i * sector_size) ++ dst := by
        intro dst hdst
        rw [hwant] at hdst ⊢
        exact take_splice hread.out_length (hlayout.before i (by omega)) hdst
      refine ⟨Checked.bind_ne_none.mpr ⟨expand_ne_none, fun dst hdst =>
        (hrest dst (length_expands hdst)).1⟩, fun all => ?_⟩
      rw [Checked.bind_eq_ok]
      constructor
      · rintro ⟨dst, hdst, hall⟩
        have hlength := length_expands hdst
        obtain ⟨sectors, parts, hsectors, hparts, rfl⟩ := (hrest dst hlength).2 all |>.mp hall
        refine ⟨s :: sectors, dst :: parts, ?_, .cons hdst hparts, ?_⟩
        · rw [hsectors]
          rfl
        · rw [htake dst hlength, List.flatten_cons, List.append_assoc]
      · rintro ⟨_, _, hsectors, hparts, rfl⟩
        cases hmore : (List.range' (i + 1) n).mapM (sectorAt blk key sector_size offsets raw₀) with
        | none =>
          rw [hmore] at hsectors
          cases hsectors
        | some sectors =>
          rw [hmore] at hsectors
          obtain rfl := Option.some.inj hsectors
          cases hparts with
          | @cons _ dst _ parts hdst hparts =>
            have hlength := length_expands hdst
            refine ⟨dst, hdst, ((hrest dst hlength).2 _).mpr ⟨sectors, parts, hmore, hparts, ?_⟩⟩
            rw [htake dst hlength, List.flatten_cons, List.append_assoc]

end Loop

/-! ## Members -/

section Members

variable {archive : Archive} {name : Text}

/-- A member's sectors are as many as it takes to hold it. -/
theorem count_spec (blk : Block) (h : 0 < archive.sector_size) (hpos : 0 < blk.unpacked.toNat) :
    ∃ count, archive.count blk = some count ∧
      (∀ i < count, i * archive.sector_size < blk.unpacked.toNat) ∧
        blk.unpacked.toNat ≤ count * archive.sector_size := by
  refine ⟨(blk.unpacked.toNat + archive.sector_size - 1) / archive.sector_size, if_neg (Nat.ne_of_gt h),
    fun i hi => ?_, ?_⟩
  · have hle := (Nat.le_div_iff_mul_le h).mp hi
    rw [Nat.succ_mul] at hle
    omega
  · have hmod := Nat.div_add_mod (blk.unpacked.toNat + archive.sector_size - 1) archive.sector_size
    have hlt := Nat.mod_lt (blk.unpacked.toNat + archive.sector_size - 1) h
    rw [Nat.mul_comm] at hmod
    omega

theorem length_offsets {blk : Block} {key : Option UInt32} {raw : List UInt8} {count : Nat}
    {offsets : List Nat} (h : archive.offsets blk key raw count = .ok offsets) :
    offsets.length = count + 1 := by
  have hentries : count + 1 ≤ blk.entries count := Nat.le_add_right _ _
  unfold Archive.offsets at h
  split at h
  · dsimp only at h
    split at h
    · cases h
    · rename_i hroom
      split at h
      · cases h
      · obtain rfl := Except.ok.inj h
        have htable : (count + 1) * 4 ≤
            (decryptWith key (· - 1) (raw.take (blk.entries count * 4))).length := by
          rw [length_decryptWith, List.length_take]
          omega
        rw [List.length_take]
        exact Nat.min_eq_left (length_leWords htable)
  · obtain rfl := Except.ok.inj h
    rw [List.length_map, List.length_range]

theorem reading_start (blk : Block) (sector_size : Nat) (offsets : List Nat) (raw : List UInt8) :
    Reading blk sector_size offsets raw 0 raw (List.replicate blk.unpacked.toNat 0) := by
  refine ⟨rfl, fun _ _ => rfl, List.length_replicate, ?_⟩
  rw [Nat.zero_mul, List.drop_zero, Nat.sub_zero]

theorem read_several {blk : Block} {key : Option UInt32} {raw : List UInt8}
    (h : 0 < archive.sector_size) (hpos : 0 < blk.unpacked.toNat) :
    let read := (liftM (archive.count blk) : Checked Error Nat) >>= fun count =>
      (liftM (archive.offsets blk key raw count) : Checked Error (List Nat)) >>= fun offsets =>
        some <$> readSectors blk key archive.sector_size offsets (List.range count) raw
          (List.replicate blk.unpacked.toNat 0)
    read ≠ none ∧ ∀ out, read = some (.ok (some out)) ↔ ∃ sectors parts,
      ((archive.count blk).bind fun count => (archive.offsets blk key raw count).toOption.bind
        fun offsets => (List.range count).mapM (sectorAt blk key archive.sector_size offsets raw)) =
          some sectors ∧ List.Forall₂ (Expands blk) sectors parts ∧ out = parts.flatten := by
  intro read
  obtain ⟨count, hcount, hbefore, hafter⟩ := count_spec blk h hpos
  cases hoffsets : archive.offsets blk key raw count with
  | error e =>
    have hread : read = some (.error e) := by
      show (liftM (archive.count blk) : Checked Error Nat) >>= _ = _
      rw [hcount]
      show (liftM (archive.offsets blk key raw count) : Checked Error (List Nat)) >>= _ = _
      rw [hoffsets]
      rfl
    rw [hread, hcount]
    refine ⟨Option.some_ne_none _, fun out => ?_⟩
    constructor
    · intro hok
      cases Option.some.inj hok
    · rintro ⟨sectors, _, hsectors, _⟩
      rw [Option.bind_some, hoffsets] at hsectors
      cases hsectors
  | ok offsets =>
    have hread : read = some <$> readSectors blk key archive.sector_size offsets (List.range count)
        raw (List.replicate blk.unpacked.toNat 0) := by
      show (liftM (archive.count blk) : Checked Error Nat) >>= _ = _
      rw [hcount]
      show (liftM (archive.offsets blk key raw count) : Checked Error (List Nat)) >>= _ = _
      rw [hoffsets]
      rfl
    have hlayout : Layout blk archive.sector_size count offsets :=
      ⟨hbefore, hafter, length_offsets hoffsets⟩
    have hstart := reading_start blk archive.sector_size offsets raw
    have hrun : readSectors blk key archive.sector_size offsets (List.range' 0 count) raw
        (List.replicate blk.unpacked.toNat 0) ≠ none ∧ _ :=
      readSectors_spec hlayout (Nat.zero_add count) hstart
    rw [← List.range_eq_range'] at hrun
    obtain ⟨hsafe, hspec⟩ := hrun
    rw [hread, hcount]
    refine ⟨Checked.map_ne_none.mpr hsafe, fun out => ?_⟩
    rw [Option.bind_some, hoffsets]
    constructor
    · intro hok
      obtain ⟨all, hall, hout⟩ := Checked.map_eq_ok.mp hok
      obtain rfl := Option.some.inj hout
      obtain ⟨sectors, parts, hsectors, hparts, rfl⟩ := (hspec all).mp hall
      refine ⟨sectors, parts, hsectors, hparts, ?_⟩
      rw [Nat.zero_mul, List.take_zero, List.nil_append]
    · rintro ⟨sectors, parts, hsectors, hparts, rfl⟩
      refine Checked.map_eq_ok.mpr ⟨_, (hspec _).mpr ⟨sectors, parts, hsectors, hparts, ?_⟩, rfl⟩
      rw [Nat.zero_mul, List.take_zero, List.nil_append]

/-- A member that is there is read when its sectors are and can be expanded, and is their parts. -/
theorem read_spec (h : 0 < archive.sector_size) {blk : Block} (hlookup : archive.lookup name = some blk) :
    archive.read name ≠ none ∧ ∀ out, archive.read name = some (.ok (some out)) ↔
      ∃ sectors parts, archive.sectors blk name = some sectors ∧
        List.Forall₂ (Expands blk) sectors parts ∧ out = parts.flatten := by
  unfold Archive.read Archive.sectors
  rw [hlookup]
  dsimp only
  cases hraw : archive.raw blk with
  | error e =>
    refine ⟨Option.some_ne_none _, fun out => ?_⟩
    constructor
    · intro hread
      cases Option.some.inj hread
    · rintro ⟨_, _, hsectors, _⟩
      cases hsectors
  | ok raw =>
    show (if blk.unpacked.toNat = 0 then _ else _ : Checked Error (Option (List UInt8))) ≠ none ∧
      ∀ out, (if blk.unpacked.toNat = 0 then _ else _ : Checked Error (Option (List UInt8))) = _ ↔
        ∃ sectors parts, (if blk.unpacked.toNat = 0 then _ else _ : Option (List Sector)) = _ ∧ _
    by_cases hempty : blk.unpacked.toNat = 0
    · rw [if_pos hempty, if_pos hempty, hempty]
      refine ⟨Option.some_ne_none _, fun out => ?_⟩
      constructor
      · intro hread
        obtain rfl := Option.some.inj (Except.ok.inj (Option.some.inj hread))
        exact ⟨[], [], rfl, .nil, rfl⟩
      · rintro ⟨sectors, parts, hsectors, hparts, rfl⟩
        obtain rfl := Option.some.inj hsectors
        cases hparts
        rfl
    · rw [if_neg hempty, if_neg hempty]
      by_cases hsingle : (blk.flags &&& flags.SINGLE_UNIT != 0) = true
      · rw [if_pos hsingle, if_pos hsingle]
        have hread : ((expand (decryptWith (blk.key name) id raw)
            (List.replicate blk.unpacked.toNat 0) blk >>= fun out => pure (some out)) :
              Checked Error (Option (List UInt8))) =
            some <$> expand (decryptWith (blk.key name) id raw)
              (List.replicate blk.unpacked.toNat 0) blk := bind_pure_comp _ _
        rw [hread]
        let s : Sector := ⟨decryptWith (blk.key name) id raw, blk.unpacked.toNat⟩
        have hsafe : expand s.stored (List.replicate s.want 0) blk ≠ none := expand_ne_none
        refine ⟨Checked.map_ne_none.mpr hsafe, fun out => ?_⟩
        constructor
        · intro hok
          obtain ⟨part, hpart, hout⟩ := Checked.map_eq_ok.mp hok
          obtain rfl := Option.some.inj hout
          exact ⟨[s], [part], rfl, .cons hpart .nil, (List.append_nil _).symm⟩
        · rintro ⟨sectors, parts, hsectors, hparts, rfl⟩
          obtain rfl := Option.some.inj hsectors
          cases hparts with
          | @cons _ part _ _ hpart hparts =>
            cases hparts
            exact Checked.map_eq_ok.mpr ⟨part, hpart, congrArg some (List.append_nil _).symm⟩
      · rw [if_neg hsingle, if_neg hsingle]
        exact read_several h (Nat.pos_of_ne_zero hempty)

theorem forall₂_iff_of_expands {blk : Block} {sectors : List Sector} {parts : List (List UInt8)}
    (h : List.Forall₂ (Expands blk) sectors parts) :
    List.Forall₂ (Whole blk) sectors parts ↔ ∀ s ∈ sectors, Full blk s := by
  induction h with
  | nil =>
    constructor
    · intro _ s hmem
      cases hmem
    · intro _
      exact .nil
  | cons hexpands _ ih =>
    rw [List.forall₂_cons, List.forall_mem_cons, ih, expands_whole hexpands]

theorem readable_all {blk : Block} {sectors : List Sector} :
    (∀ s ∈ sectors, Readable blk s) ↔ ∃ parts, List.Forall₂ (Expands blk) sectors parts := by
  induction sectors with
  | nil =>
    constructor
    · intro _
      exact ⟨[], .nil⟩
    · intro _ s hmem
      cases hmem
  | cons s sectors ih =>
    rw [List.forall_mem_cons, ih, readable_iff]
    constructor
    · rintro ⟨⟨part, hpart⟩, parts, hparts⟩
      exact ⟨part :: parts, .cons hpart hparts⟩
    · rintro ⟨_, hparts⟩
      cases hparts with
      | cons hpart hparts => exact ⟨⟨_, hpart⟩, _, hparts⟩

theorem sectorAt_want {blk : Block} {key : Option UInt32} {sector_size i : Nat} {offsets : List Nat}
    {raw : List UInt8} {s : Sector} (h : sectorAt blk key sector_size offsets raw i = some s) :
    s.want = min sector_size (blk.unpacked.toNat - i * sector_size) := by
  obtain ⟨_, _, h⟩ := Option.bind_eq_some_iff.mp h
  obtain ⟨_, _, h⟩ := Option.bind_eq_some_iff.mp h
  obtain ⟨_, _, h⟩ := Option.bind_eq_some_iff.mp h
  obtain rfl := Option.some.inj h
  rfl

theorem sum_want {blk : Block} {key : Option UInt32} {sector_size count : Nat} {offsets : List Nat}
    {raw : List UInt8} (hafter : blk.unpacked.toNat ≤ count * sector_size) {i n : Nat}
    (hn : i + n = count) {sectors : List Sector}
    (h : (List.range' i n).mapM (sectorAt blk key sector_size offsets raw) = some sectors) :
    (sectors.map Sector.want).sum = blk.unpacked.toNat - i * sector_size := by
  induction n generalizing i sectors with
  | zero =>
    obtain rfl := Option.some.inj h
    rw [Nat.add_zero] at hn
    rw [hn, Nat.sub_eq_zero_of_le hafter]
    rfl
  | succ n ih =>
    rw [List.range'_succ, List.mapM_cons] at h
    obtain ⟨s, hs, h⟩ := Option.bind_eq_some_iff.mp h
    obtain ⟨more, hmore, h⟩ := Option.bind_eq_some_iff.mp h
    obtain rfl := Option.some.inj h
    rw [List.map_cons, List.sum_cons, sectorAt_want hs, ih (by omega) hmore, Nat.succ_mul]
    omega

theorem sectors_want (h : 0 < archive.sector_size) {blk : Block} {sectors : List Sector}
    (hsectors : archive.sectors blk name = some sectors) :
    (sectors.map Sector.want).sum = blk.unpacked.toNat := by
  obtain ⟨raw, _, hsectors⟩ := Option.bind_eq_some_iff.mp hsectors
  split at hsectors
  · rename_i hempty
    obtain rfl := Option.some.inj hsectors
    exact hempty.symm
  · rename_i hempty
    split at hsectors
    · obtain rfl := Option.some.inj hsectors
      exact Nat.add_zero _
    · obtain ⟨count, hcount, hsectors⟩ := Option.bind_eq_some_iff.mp hsectors
      obtain ⟨offsets, _, hsectors⟩ := Option.bind_eq_some_iff.mp hsectors
      obtain ⟨count', hcount', _, hafter⟩ := count_spec blk h (Nat.pos_of_ne_zero hempty)
      obtain rfl := Option.some.inj (hcount.symm.trans hcount')
      rw [List.range_eq_range'] at hsectors
      rw [sum_want hafter (Nat.zero_add count) hsectors, Nat.zero_mul, Nat.sub_zero]

theorem length_flatten {blk : Block} {sectors : List Sector} {parts : List (List UInt8)}
    (h : List.Forall₂ (Expands blk) sectors parts) :
    parts.flatten.length = (sectors.map Sector.want).sum := by
  induction h with
  | nil => rfl
  | cons hexpands _ ih =>
    rw [List.flatten_cons, List.length_append, length_expands hexpands, ih, List.map_cons,
      List.sum_cons]

theorem parts_unique {sectors : List Sector} {parts parts' : List (List UInt8)}
    (h : List.Forall₂ (fun s part => part.length = s.want) sectors parts)
    (h' : List.Forall₂ (fun s part => part.length = s.want) sectors parts')
    (hflatten : parts.flatten = parts'.flatten) : parts = parts' := by
  induction h generalizing parts' with
  | nil =>
    cases h'
    rfl
  | cons hpart _ ih =>
    cases h' with
    | cons hpart' hparts' =>
      rw [List.flatten_cons, List.flatten_cons] at hflatten
      obtain ⟨rfl, hrest⟩ := List.append_inj hflatten (hpart.trans hpart'.symm)
      rw [ih hparts' hrest]

theorem readsWhole_of_none (hlookup : archive.lookup name = none) :
    archive.read name ≠ none ∧ archive.ReadsWhole name := by
  have hread : archive.read name = some (.ok none) := by
    unfold Archive.read
    rw [hlookup]
    rfl
  rw [Archive.ReadsWhole, hread]
  refine ⟨Option.some_ne_none _, fun out hout => ?_⟩
  cases Except.ok.inj (Option.some.inj hout)

theorem readsWhole_of_some (h : 0 < archive.sector_size) {blk : Block}
    (hlookup : archive.lookup name = some blk) :
    archive.ReadsWhole name ↔ ∀ sectors, archive.sectors blk name = some sectors →
      (∀ s ∈ sectors, Readable blk s) → ∀ s ∈ sectors, Full blk s := by
  obtain ⟨_, hread⟩ := read_spec h hlookup
  constructor
  · intro hwhole sectors hsectors hreadable
    obtain ⟨parts, hparts⟩ := readable_all.mp hreadable
    obtain ⟨blk', sectors', parts', hblk', hsectors', _, hflatten, hall⟩ :=
      hwhole _ ((hread _).mpr ⟨sectors, parts, hsectors, hparts, rfl⟩)
    obtain rfl := Option.some.inj (hlookup.symm.trans hblk')
    obtain rfl := Option.some.inj (hsectors.symm.trans hsectors')
    have hlengths := hparts.imp fun s part hpart => length_expands hpart
    obtain rfl := parts_unique hlengths (hall.imp fun s part hpart => hpart.length) hflatten
    exact (forall₂_iff_of_expands hparts).mp hall
  · intro hfull out hout
    obtain ⟨sectors, parts, hsectors, hparts, rfl⟩ := (hread out).mp hout
    have hreadable := readable_all.mpr ⟨parts, hparts⟩
    have hall := (forall₂_iff_of_expands hparts).mpr (hfull sectors hsectors hreadable)
    refine ⟨blk, sectors, parts, hlookup, hsectors, ?_, rfl, hall⟩
    rw [length_flatten hparts, sectors_want h hsectors]

/-- A member is read whole just when no sector is short, of those of a member whose sectors can all be
read. There is no panic. -/
theorem readsWhole_iff (archive : Archive) (name : Text) (h : 0 < archive.sector_size) :
    archive.read name ≠ none ∧ (archive.ReadsWhole name ↔ ∀ blk sectors,
      archive.lookup name = some blk → archive.sectors blk name = some sectors →
        (∀ s ∈ sectors, Readable blk s) → ∀ s ∈ sectors, Full blk s) := by
  cases hlookup : archive.lookup name with
  | none =>
    obtain ⟨hsafe, hwhole⟩ := readsWhole_of_none hlookup
    refine ⟨hsafe, fun _ blk _ hblk => ?_, fun _ => hwhole⟩
    cases hblk
  | some blk =>
    refine ⟨(read_spec h hlookup).1, ?_⟩
    rw [readsWhole_of_some h hlookup]
    constructor
    · intro hfull blk' sectors hblk
      obtain rfl := Option.some.inj hblk
      exact hfull sectors
    · intro hfull sectors
      exact hfull blk sectors rfl

end Members

/-! ## A short member -/

def archiveOf (name : Text) (blk : Block) (file : List UInt8) : Archive where
  file := file
  base := 0
  sector_size := 512
  hashes := [⟨hash name .NameA, hash name .NameB, 0⟩]
  blocks := [blk]

theorem lookup_archiveOf (name : Text) {blk : Block} (file : List UInt8)
    (h : (blk.flags &&& flags.EXISTS != 0 && blk.flags &&& flags.DELETE_MARKER == 0) = true) :
    (archiveOf name blk file).lookup name = some blk := by
  have hstart : (hash name .TableOffset).toNat % (archiveOf name blk file).hashes.length = 0 :=
    Nat.mod_one _
  have hempty : (0 : UInt32) ≠ HASH_EMPTY := by decide
  have hdeleted : (0 : UInt32) ≠ HASH_DELETED := by decide
  have hne : (archiveOf name blk file).hashes ≠ [] := List.cons_ne_nil _ _
  unfold Archive.lookup
  rw [if_neg hne]
  dsimp only
  rw [hstart]
  show find [blk] (hash name .NameA) (hash name .NameB) [⟨hash name .NameA, hash name .NameB, 0⟩] = _
  rw [find, if_neg hempty, if_neg hdeleted, if_pos ⟨rfl, rfl⟩]
  show (some blk).filter _ = _
  rw [Option.filter_some, if_pos h]

/-- Two bytes are stored of four, and the other two are zeros. -/
theorem not_readsWhole_stored :
    ¬ (archiveOf ['a'] ⟨0, 2, 4, flags.EXISTS⟩ [1, 2]).ReadsWhole ['a'] := by
  have hpos : 0 < (archiveOf ['a'] ⟨0, 2, 4, flags.EXISTS⟩ [1, 2]).sector_size := Nat.succ_pos 511
  have hlookup : (archiveOf ['a'] ⟨0, 2, 4, flags.EXISTS⟩ [1, 2]).lookup ['a'] =
      some ⟨0, 2, 4, flags.EXISTS⟩ := lookup_archiveOf ['a'] [1, 2] rfl
  have hsectors : (archiveOf ['a'] ⟨0, 2, 4, flags.EXISTS⟩ [1, 2]).sectors
      ⟨0, 2, 4, flags.EXISTS⟩ ['a'] = some [⟨[1, 2], 4⟩] := rfl
  have hasIs : AsIs ⟨0, 2, 4, flags.EXISTS⟩ ⟨[1, 2], 4⟩ := by
    right
    decide
  rw [readsWhole_of_some hpos hlookup]
  intro hfull
  have hshort := hfull _ hsectors (by simp only [List.forall_mem_singleton]; exact .inl hasIs)
    ⟨[1, 2], 4⟩ List.mem_cons_self
  cases hshort.as_is hasIs

/-- Four bytes are stored of four. -/
theorem readsWhole_stored :
    (archiveOf ['a'] ⟨0, 4, 4, flags.EXISTS⟩ [1, 2, 3, 4]).ReadsWhole ['a'] := by
  have hlookup : (archiveOf ['a'] ⟨0, 4, 4, flags.EXISTS⟩ [1, 2, 3, 4]).lookup ['a'] =
      some ⟨0, 4, 4, flags.EXISTS⟩ := lookup_archiveOf ['a'] [1, 2, 3, 4] rfl
  have hall : (archiveOf ['a'] ⟨0, 4, 4, flags.EXISTS⟩ [1, 2, 3, 4]).sectors
      ⟨0, 4, 4, flags.EXISTS⟩ ['a'] = some [⟨[1, 2, 3, 4], 4⟩] := rfl
  refine (readsWhole_iff _ _ (Nat.succ_pos 511)).2.mpr fun blk sectors hblk hsectors _ => ?_
  obtain rfl := Option.some.inj (hlookup.symm.trans hblk)
  obtain rfl := Option.some.inj (hall.symm.trans hsectors)
  rw [List.forall_mem_singleton]
  exact ⟨fun _ => rfl, fun hnot => absurd (.inl rfl) hnot⟩

end CommandCenter.Formats.Mpq
