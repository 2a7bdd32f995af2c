import TeraSlab.Allocator.Replay

/-!
# What a replayed entry does to the free bytes

Restarting gives back the regions and the high-water mark that were persisted. A replayed
allocation takes its bytes out of the first free region it meets and leaves what lies past that
region; a replayed free adds its bytes when none of them is free, and does nothing otherwise.
-/

namespace TeraSlab.Allocator

open Foundations

theorem divCeil_mul_of_dvd {x b : Nat} (h : b ∣ x) : divCeil x b * b = x := by
  rw [divCeil, if_pos (Nat.mod_eq_zero_of_dvd h)]
  exact Nat.div_mul_cancel h

theorem wrap64_lt (x : Nat) : wrap64 x < 2 ^ 64 := Nat.mod_lt _ (by decide)

theorem wrap64_of_lt {x : Nat} (h : x < 2 ^ 64) : wrap64 x = x := Nat.mod_eq_of_lt h

namespace SlotAllocator

variable {a b : SlotAllocator} {o n x size : Nat} {r : FreeRegion}

theorem alignment_dvd : recordAlign ∣ a.alignment ∧ a.alignment ∣ 2 ^ 64 := by
  obtain ⟨k, hk⟩ := a.geometry.alignment_pow
  have hmin := a.geometry.alignment_min
  have hmax := a.geometry.alignment_max
  rw [hk] at hmin hmax
  have hlo : 3 ≤ k := by
    by_contra hlt
    have : 2 ^ k ≤ 2 ^ 2 := Nat.pow_le_pow_right (by decide) (by omega)
    omega
  have hhi : k ≤ 62 := (Nat.pow_le_pow_iff_right (by decide)).mp hmax
  rw [alignment, hk]
  exact ⟨pow_dvd_pow 2 hlo, pow_dvd_pow 2 (by omega)⟩

theorem alignment_dvd_alignUp (size : Nat) : a.alignment ∣ a.alignUp size :=
  (Nat.dvd_mod_iff alignment_dvd.2).mpr (Nat.dvd_mul_left ..)

theorem alignUp_of_dvd (h : a.alignment ∣ size) (hlt : size < 2 ^ 64) : a.alignUp size = size := by
  rw [alignUp, divCeil_mul_of_dvd h, wrap64_of_lt hlt]

/-- Rounding a small record to the record granularity keeps it within its block. -/
theorem roundRecord_le (h : size ≤ a.alignment) :
    divCeil size recordAlign * recordAlign ≤ a.alignment := by
  obtain ⟨k, hk⟩ := (alignment_dvd (a := a)).1
  have hlt := divCeil_mul_lt size recordAlign (by decide)
  simp only [recordAlign] at *
  omega

/-- Sizes in the redo log are aligned already, and rounding them again changes nothing. -/
theorem alignReservation_idem (size : Nat) :
    a.alignReservation (a.alignReservation size) = a.alignReservation size := by
  have hmax : a.alignment ≤ 2 ^ 62 := a.geometry.alignment_max
  have hup : ∀ size, a.alignUp (a.alignUp size) = a.alignUp size := fun size =>
    alignUp_of_dvd (alignment_dvd_alignUp size) (wrap64_lt _)
  unfold alignReservation
  cases hp : a.packed with
  | false => simp [hup]
  | true =>
    simp only [Bool.not_true, Bool.false_eq_true, if_false]
    by_cases hs : size ≤ a.alignment
    · have hle := roundRecord_le hs
      have hround : wrap64 (divCeil size recordAlign * recordAlign) =
          divCeil size recordAlign * recordAlign := wrap64_of_lt (by omega)
      simp only [if_pos hs, hround, if_pos hle]
      rw [divCeil_mul_of_dvd (Nat.dvd_mul_left ..), hround]
    · split_ifs
      · have hdvd := (alignment_dvd (a := a)).1.trans (alignment_dvd_alignUp size)
        rw [divCeil_mul_of_dvd hdvd]
        exact wrap64_of_lt (wrap64_lt _)
      · exact hup size

/-! ### Restart -/

theorem loadFreelist_spec {l : List FreeRegion} (hl : l.Pairwise (·.offset < ·.offset)) :
    (loadFreelist l).Ordered ∧ ∀ r, r ∈ (loadFreelist l).regions ↔ r ∈ l := by
  have hfold : ∀ fl : FreelistBackend, fl.Ordered →
      (∀ f ∈ fl.regions, ∀ r ∈ l, f.offset < r.offset) →
      (l.foldl (fun (fl : FreelistBackend) r => fl.insert r.offset r.size) fl).Ordered ∧
      ∀ r, r ∈ (l.foldl (fun (fl : FreelistBackend) r => fl.insert r.offset r.size) fl).regions ↔
        r ∈ fl.regions ∨ r ∈ l := by
    induction l with
    | nil => exact fun fl hord _ => ⟨hord, by simp⟩
    | cons x xs ih =>
      intro fl hord hlt
      obtain ⟨hx, hxs⟩ := List.pairwise_cons.mp hl
      have hno : ∀ f ∈ fl.regions, f.offset ≠ x.offset := fun f hf =>
        (hlt f hf x List.mem_cons_self).ne
      have hreg := FreelistBackend.regions_insert (s := x.size) hord hno
      obtain ⟨hord', hmem⟩ := ih hxs (fl.insert x.offset x.size) (hord.insert hno) (by
        rw [hreg]
        rintro f (rfl | hf) r hr
        · exact hx r hr
        · exact hlt f hf r (List.mem_cons_of_mem _ hr))
      refine ⟨hord', fun r => (hmem r).trans ?_⟩
      rw [hreg, Set.mem_insert_iff, List.mem_cons, or_assoc, or_left_comm]
  obtain ⟨hord, hmem⟩ := hfold .new .new (by simp)
  obtain ⟨hord', hreg⟩ := FreelistBackend.maybePromote_spec hord
  refine ⟨hord', fun r => ?_⟩
  rw [loadFreelist, hreg, hmem]
  simp

theorem restart_ok (h : a.Valid) (hb : a.restart = .ok b) :
    b.Valid ∧ b.freelist.regions = a.freelist.regions ∧ b.nextOffset = a.nextOffset ∧
      b.geometry = a.geometry ∧ b.packed = a.packed ∧ b.redoDeviceId = a.redoDeviceId := by
  unfold restart persist recover at hb
  split_ifs at hb with hlen
  · simp [bind, Except.bind] at hb
  have hcount : a.freelist.iterOffsetOrder.length = a.freelist.len := by
    cases hf : a.freelist <;> simp [FreelistBackend.iterOffsetOrder, FreelistBackend.len]
  simp only [bind, Except.bind, hcount, hlen, if_false, pure, Except.pure,
    Except.ok.injEq] at hb
  subst hb
  obtain ⟨hord, hmem⟩ := loadFreelist_spec h.ordered.sorted
  have hreg : (loadFreelist a.freelist.iterOffsetOrder).regions = a.freelist.regions :=
    Set.ext hmem
  refine ⟨⟨hord, ?_, ?_, ?_, h.start_le, h.nextOffset_le⟩, hreg, rfl, rfl, rfl, rfl⟩
  · exact hreg ▸ h.separated
  · exact hreg ▸ h.start
  · exact hreg ▸ h.below

/-! ### Replayed allocations -/

theorem overlapping_eq_none (h : a.Valid) (hn : a.overlapping o n = none) :
    ∀ f ∈ a.freelist.regions, ¬ f.Meets ⟨o, n⟩ := by
  intro f hf hm
  simp only [Extent.Meets, Extent.stop] at hm
  unfold overlapping at hn
  split at hn
  · simp at hn
  next hprev =>
  rcases lt_or_ge f.offset (o + 1) with hlt | hge
  · -- a region that starts at or before `o` and meets the range holds `o`, so it is the last one
    obtain ⟨p, -, hp, hplt, hlast⟩ := h.exists_prevBefore hf hlt
    have hout : ¬ (o < p.stop ∧ p.offset < o + n) := by simpa [hp] using hprev
    rcases hlast with rfl | hlast
    · simp only [Extent.stop] at hout
      omega
    · simp only [Extent.stop] at hlast
      omega
  · obtain ⟨q, hqm, hq, hle⟩ := h.exists_nextFrom hf (show o ≤ f.offset by omega)
    have hqpos := h.separated.pos q hqm
    have hqge := (FreelistBackend.nextFrom_eq_some h.ordered hq).2.1
    have hout : ¬ (q.offset < o + n ∧ o < q.stop) := by simpa [hq] using hn
    simp only [Extent.stop] at hout
    omega

theorem overlapping_eq_some (h : a.Valid) (hpos : 0 < n) (hn : a.overlapping o n = some r) :
    r ∈ a.freelist.regions ∧ r.Meets ⟨o, n⟩ ∧
      ∀ f ∈ a.freelist.regions, f.Meets ⟨o, n⟩ → r.offset ≤ f.offset := by
  unfold overlapping at hn
  split at hn
  · next p hprev =>
    obtain rfl := Option.some.inj hn
    obtain ⟨hp, hmeet⟩ := Option.filter_eq_some_iff.mp hprev
    simp only [decide_eq_true_eq] at hmeet
    obtain ⟨hpm, hplt, -⟩ := FreelistBackend.prevBefore_eq_some h.ordered hp
    refine ⟨hpm, ⟨hmeet.2, hmeet.1, h.separated.pos p hpm, hpos⟩, fun f hf hm => ?_⟩
    by_contra hlt
    -- two regions that hold `o` are equal
    have hne : f ≠ p := fun he => hlt (he ▸ le_rfl)
    have := h.separated.apart f hf p hpm hne
    simp only [Extent.Meets, Extent.stop] at *
    omega
  · next hprev =>
    obtain ⟨hq, hmeet⟩ := Option.filter_eq_some_iff.mp hn
    simp only [decide_eq_true_eq] at hmeet
    obtain ⟨hqm, hqge, hmin⟩ := FreelistBackend.nextFrom_eq_some h.ordered hq
    refine ⟨hqm, ⟨hmeet.1, hmeet.2, h.separated.pos r hqm, hpos⟩, fun f hf hm => ?_⟩
    rcases lt_or_ge f.offset o with hlt | hge
    · obtain ⟨p, -, hp, hplt, hlast⟩ := h.exists_prevBefore hf (Nat.lt_succ_of_lt hlt)
      have hout : ¬ (o < p.stop ∧ p.offset < o + n) := by simpa [hp] using hprev
      simp only [Extent.Meets, Extent.stop] at hm hout hlast
      rcases hlast with rfl | hlast
      · omega
      · omega
    · exact hmin f hf hge

/-- Adding a possibly empty extent that keeps its distance from every region. -/
theorem insert_part {fl : FreelistBackend} (lo hi : Nat) (h : fl.Ordered)
    (hs : Separated fl.regions)
    (hfar : lo < hi → ∀ f ∈ fl.regions, f.stop < lo ∨ hi < f.offset) :
    let fl' := if lo < hi then fl.insert lo (hi - lo) else fl
    fl'.Ordered ∧ Separated fl'.regions ∧
      (∀ f ∈ fl'.regions, f ∈ fl.regions ∨ (lo = f.offset ∧ hi = f.stop)) ∧
      cover fl'.regions = Set.Ico lo hi ∪ cover fl.regions := by
  dsimp only
  split_ifs with hlt
  · have hstop : (Extent.mk lo (hi - lo)).stop = hi := by
      simp only [Extent.stop]
      omega
    have hno : ∀ f ∈ fl.regions, f.offset ≠ lo := by
      intro f hf
      have := hfar hlt f hf
      simp only [Extent.stop] at this
      omega
    rw [FreelistBackend.regions_insert h hno]
    refine ⟨h.insert hno, hs.insert (by simp only; omega) ?_, ?_, ?_⟩
    · exact fun f hf => hstop.symm ▸ hfar hlt f hf
    · rintro f (rfl | hf)
      · exact Or.inr ⟨rfl, hstop.symm⟩
      · exact Or.inl hf
    · rw [cover_insert, Extent.bytes, hstop]
  · refine ⟨h, hs, fun f hf => Or.inl hf, ?_⟩
    rw [Set.Ico_eq_empty hlt, Set.empty_union]

/-- Carving takes the bytes of the range out of the first free region it meets, and leaves those
past it. -/
theorem carveAllocation_spec (h : a.Valid) (hpos : 0 < n) :
    (a.carveAllocation o n).2.Valid ∧
      ((a.carveAllocation o n).2.freeBytes =
        {x | x ∈ a.freeBytes ∧ (x ∉ (Extent.mk o n).bytes ∨ PastFirst a ⟨o, n⟩ x)}) ∧
      ∃ fl, (a.carveAllocation o n).2 = { a with freelist := fl } := by
  unfold carveAllocation
  cases hov : a.overlapping o n with
  | none =>
    refine ⟨h, ?_, a.freelist, rfl⟩
    ext x
    refine ⟨fun hx => ⟨hx, Or.inl fun hx' => ?_⟩, And.left⟩
    obtain ⟨f, hf, hxf⟩ := hx
    exact overlapping_eq_none h hov f hf (Extent.meets_iff.mpr ⟨x, hxf, hx'⟩)
  | some r =>
    obtain ⟨hr, hmeet, hfirst⟩ := overlapping_eq_some h hpos hov
    have hreg := FreelistBackend.regions_remove_mem h.ordered hr
    have hsep : Separated (a.freelist.remove r.offset).2.regions :=
      hreg ▸ h.separated.mono Set.sdiff_subset
    have hothers : ∀ f ∈ (a.freelist.remove r.offset).2.regions,
        f ∈ a.freelist.regions ∧ (f.stop < r.offset ∨ r.stop < f.offset) := by
      intro f hf
      rw [hreg] at hf
      exact ⟨hf.1, h.separated.apart f hf.1 r hr hf.2⟩
    have hm := hmeet
    simp only [Extent.Meets, Extent.stop] at hm
    -- the part before the range, then the part after it
    obtain ⟨hord₁, hsep₁, hmem₁, hcov₁⟩ := insert_part r.offset o
      h.ordered.remove hsep (fun hlt f hf => by
        have := (hothers f hf).2
        simp only [Extent.stop] at this ⊢
        omega)
    obtain ⟨hord₂, hsep₂, hmem₂, hcov₂⟩ := insert_part (o + n) r.stop
      hord₁ hsep₁ (fun hlt f hf => by
        rcases hmem₁ f hf with hf | ⟨-, hf⟩
        · have := (hothers f hf).2
          omega
        · omega)
    obtain ⟨hord₃, hreg₃⟩ := FreelistBackend.maybePromote_spec hord₂
    obtain ⟨hord₄, hreg₄⟩ := FreelistBackend.maybeDemote_spec hord₃
    rw [hreg₃] at hreg₄
    rw [hcov₁, hreg, h.separated.cover_diff_singleton hr] at hcov₂
    have hin := fun x (hx : x ∈ r.bytes) => h.bounds ⟨r, hr, hx⟩
    refine ⟨h.of_cover hord₄ (hreg₄ ▸ hsep₂) fun x hx => ?_, ?_, _, rfl⟩
    · rw [hreg₄, hcov₂] at hx
      rcases hx with ⟨hlo, hhi⟩ | ⟨hlo, hhi⟩ | hx
      · exact hin x ⟨by omega, hhi⟩
      · exact hin x ⟨hlo, by simp only [Extent.stop]; omega⟩
      · exact h.bounds hx.1
    · ext x
      simp only [freeBytes, hreg₄, hcov₂, Set.mem_union, Set.mem_Ico, Set.mem_sdiff,
        Set.mem_ofPred_eq, Extent.mem_bytes, Extent.stop] at *
      constructor
      · rintro (hx | hx | ⟨⟨f, hf, hxf⟩, hxr⟩)
        · exact ⟨⟨r, hr, by simp only [Extent.mem_bytes, Extent.stop]; omega⟩, Or.inl (by omega)⟩
        · exact ⟨⟨r, hr, by simp only [Extent.mem_bytes, Extent.stop]; omega⟩, Or.inl (by omega)⟩
        · refine ⟨⟨f, hf, hxf⟩, ?_⟩
          by_cases hx : o ≤ x ∧ x < o + n
          · have hfm : f.Meets ⟨o, n⟩ := Extent.meets_iff.mpr ⟨x, hxf, hx⟩
            have hne : r ≠ f := by
              rintro rfl
              exact hxr hxf
            have hle := hfirst f hf hfm
            have hof : r.offset ≠ f.offset := fun he => hne (h.separated.eq_of_offset hr hf he)
            exact Or.inr ⟨f, hf, hxf, r, hr, hmeet, by omega⟩
          · exact Or.inl hx
      · rintro ⟨⟨f, hf, hxf⟩, hor⟩
        by_cases hfr : f = r
        · subst hfr
          simp only [Extent.mem_bytes, Extent.stop] at hxf
          rcases hor with hx | ⟨g, hg, hxg, f', hf', hfm, hlt⟩
          · omega
          have hge := hfirst f' hf' hfm
          have : g = f := h.separated.eq_of_mem_bytes hg hf hxg hxf
          subst this
          omega
        · refine Or.inr (Or.inr ⟨⟨f, hf, hxf⟩, fun hxr => hfr ?_⟩)
          exact h.separated.eq_of_mem_bytes hf hr hxf hxr

theorem valid_bump (h : a.Valid) (hn : n ≤ a.deviceSize) :
    { a with nextOffset := max a.nextOffset n }.Valid :=
  ⟨h.ordered, h.separated, h.start, fun f hf => (h.below f hf).trans (le_max_left ..),
    h.start_le.trans (le_max_left ..), max_le h.nextOffset_le (le_max_of_le_left hn)⟩

theorem replayAllocate_spec (h : a.Valid) (hpos : 0 < n) (halign : a.alignReservation n = n)
    (hstart : dataRegionOffset ≤ o) (hfits : o + n ≤ a.deviceSize) :
    (a.replayAllocate o n).2.Valid ∧
      ((a.replayAllocate o n).2.freeBytes =
        {x | x ∈ a.freeBytes ∧ (x ∉ (Extent.mk o n).bytes ∨ PastFirst a ⟨o, n⟩ x)}) ∧
      ∃ fl, (a.replayAllocate o n).2 =
        { a with freelist := fl, nextOffset := max a.nextOffset (o + n) } := by
  have hmax : a.deviceSize ≤ 2 ^ 63 := a.geometry.deviceSize_max
  obtain ⟨hv, hbytes, fl, hfl⟩ := carveAllocation_spec (o := o) (valid_bump h hfits) hpos
  have hrep : (a.replayAllocate o n).2 =
      (carveAllocation { a with nextOffset := max a.nextOffset (o + n) } o n).2 := by
    simp only [replayAllocate, halign, u64Max]
    rw [if_neg (by omega), if_neg (by omega)]
  rw [hrep]
  exact ⟨hv, hbytes, fl, hfl⟩

/-! ### Replayed frees -/

theorem replayFree_of_disjoint (hpos : 0 < n) (halign : a.alignReservation n = n)
    (hstart : dataRegionOffset ≤ o) (hfits : o + n ≤ a.deviceSize) (h : a.Valid)
    (hd : Disjoint (Extent.mk o n).bytes a.freeBytes) :
    (a.replayFree o n).2 = { a with freelist := a.freelist.insertCoalesced o n } := by
  have hmax : a.deviceSize ≤ 2 ^ 63 := a.geometry.deviceSize_max
  have hout : ∀ r ∈ a.freelist.regions, ∀ x, r.offset ≤ x → x < r.stop → ¬ (o ≤ x ∧ x < o + n) :=
    fun r hr x hlo hhi hx => Set.disjoint_left.mp hd hx ⟨r, hr, hlo, hhi⟩
  simp only [replayFree, halign, u64Max]
  rw [if_neg (by omega), if_neg, if_neg (by omega), if_neg, if_neg]
  · intro hn
    obtain ⟨r, hr, hlt⟩ := (Option.any_eq_true ..).mp hn
    obtain ⟨hmem, hge, -⟩ := FreelistBackend.nextFrom_eq_some h.ordered hr
    have hrpos := h.separated.pos r hmem
    simp only [decide_eq_true_eq] at hlt
    exact hout r hmem r.offset le_rfl (by simp only [Extent.stop]; omega) (by omega)
  · intro hp
    obtain ⟨r, hr, hlt⟩ := (Option.any_eq_true ..).mp hp
    obtain ⟨hmem, hle, -⟩ := FreelistBackend.prevBefore_eq_some h.ordered hr
    simp only [decide_eq_true_eq] at hlt
    exact hout r hmem o (by omega) hlt (by omega)
  · intro hp
    obtain ⟨r, hr, hin⟩ := (Option.any_eq_true ..).mp hp
    obtain ⟨hmem, -, -⟩ := FreelistBackend.prevBefore_eq_some h.ordered hr
    simp only [decide_eq_true_eq] at hin
    exact hout r hmem o hin.1 (by omega) (by omega)

/-- A replayed free of a region that holds a free byte is already applied or dropped. -/
theorem replayFree_of_not_disjoint (h : a.Valid) (halign : a.alignReservation n = n)
    (hd : ¬ Disjoint (Extent.mk o n).bytes a.freeBytes) : (a.replayFree o n).2 = a := by
  simp only [replayFree, halign]
  split_ifs with h₁ h₂ h₃ h₄ h₅ <;> try rfl
  refine absurd (disjoint_of_neighbours h (fun r hr => ?_) (fun r hr => ?_)) hd
  · simpa [hr] using h₄
  · simpa [hr] using h₅

end SlotAllocator

end TeraSlab.Allocator
