import TeraSlab.Allocator.FreelistSpec
import TeraSlab.Allocator.SlotAllocator

/-!
# What the allocator does to the free bytes

The allocator is described by the set of bytes its freelist covers and by its high-water mark.
Each operation gets one lemma in these terms: a reservation removes its bytes from the free set
or takes them above the high-water mark, and a free puts its bytes back.
-/

namespace TeraSlab.Allocator

open Foundations

namespace FreelistBackend

variable {fl : FreelistBackend} {o s : Nat} {r : FreeRegion}

theorem regions_remove_mem (h : fl.Ordered) (hr : r ∈ fl.regions) :
    (fl.remove r.offset).2.regions = fl.regions \ {r} := by
  ext r'
  rw [mem_regions_remove h, Set.mem_sdiff, Set.mem_singleton_iff]
  refine and_congr_right fun hr' => not_congr ⟨fun ho => h.eq_of_offset hr' hr ho, ?_⟩
  exact fun he => he ▸ rfl

section

variable (h : fl.Ordered) (hs : Separated fl.regions) (hpos : 0 < s)
include h hs hpos

/-- After merging with the next region nothing starts where the merged region stops. -/
theorem mergeNext_spec (hfar : ∀ r ∈ fl.regions, r.stop ≤ o ∨ o + s ≤ r.offset) :
    let out := fl.mergeNext o s
    out.2.Ordered ∧ Separated out.2.regions ∧ 0 < out.1 ∧
      (∀ r ∈ out.2.regions, r.stop ≤ o ∨ o + out.1 < r.offset) ∧
      (Extent.mk o out.1).bytes ∪ cover out.2.regions =
        (Extent.mk o s).bytes ∪ cover fl.regions := by
  unfold mergeNext
  cases hnext : fl.nextFrom (o + s) with
  | none =>
    refine ⟨h, hs, hpos, fun r hr => ?_, rfl⟩
    have hlt := nextFrom_eq_none h hnext r hr
    exact (hfar r hr).imp_right (by omega)
  | some next =>
    obtain ⟨hmem, hge, hmin⟩ := nextFrom_eq_some h hnext
    by_cases hadj : next.offset = o + s
    · simp only [if_pos hadj]
      have hmerge := hs.merge_next (e := ⟨o, s⟩) hfar hmem hadj
      rw [← regions_remove_mem h hmem] at hmerge
      refine ⟨h.remove, hs.mono ?_, by omega, ?_, hmerge.2⟩
      · rw [regions_remove_mem h hmem]
        exact Set.sdiff_subset
      · simpa [Nat.add_assoc] using hmerge.1
    · simp only [if_neg hadj]
      refine ⟨h, hs, hpos, fun r hr => ?_, trivial⟩
      rcases hfar r hr with hle | hle
      · exact Or.inl hle
      · have := hmin r hr hle
        exact Or.inr (by omega)

/-- After merging with the previous region the result keeps its distance from every region. -/
theorem mergePrev_spec (hfar : ∀ r ∈ fl.regions, r.stop ≤ o ∨ o + s < r.offset) {o' s' : Nat}
    {fl' : FreelistBackend} (hm : fl.mergePrev o s = ((o', s'), fl')) :
    fl'.Ordered ∧ Separated fl'.regions ∧ 0 < s' ∧
      (∀ r ∈ fl'.regions, r.stop < o' ∨ o' + s' < r.offset) ∧
      (Extent.mk o' s').bytes ∪ cover fl'.regions = (Extent.mk o s).bytes ∪ cover fl.regions := by
  unfold mergePrev at hm
  cases hprev : fl.prevBefore o with
  | none =>
    simp only [hprev, Prod.mk.injEq] at hm
    obtain ⟨⟨rfl, rfl⟩, rfl⟩ := hm
    refine ⟨h, hs, hpos, fun r hr => ?_, rfl⟩
    have hge := prevBefore_eq_none h hprev r hr
    have hp := hs.pos r hr
    have := hfar r hr
    simp only [Extent.stop] at this ⊢
    omega
  | some prev =>
    obtain ⟨hmem, hlt, hmax⟩ := prevBefore_eq_some h hprev
    simp only [hprev] at hm
    split_ifs at hm with hadj
    · obtain ⟨⟨rfl, rfl⟩, rfl⟩ := hm
      have hmerge := hs.merge_prev (e := ⟨o, s⟩) hfar hmem hadj
      rw [← regions_remove_mem h hmem] at hmerge
      refine ⟨h.remove, hs.mono ?_, by omega, fun r hr => ?_, hmerge.2⟩
      · rw [regions_remove_mem h hmem]
        exact Set.sdiff_subset
      have := hmerge.1 r hr
      simp only [Extent.stop] at this hadj ⊢
      omega
    · obtain ⟨⟨rfl, rfl⟩, rfl⟩ := hm
      refine ⟨h, hs, hpos, fun r hr => ?_, rfl⟩
      rcases hfar r hr with hle | hgt
      · refine Or.inl (lt_of_le_of_ne hle fun hstop => ?_)
        -- a region that stops at `o` would be the one `prevBefore` found
        have hrlt : r.offset < o := by
          have := hs.pos r hr
          simp only [Extent.stop] at hstop
          omega
        have hle' := hmax r hr hrlt
        have hne : r ≠ prev := fun he => hadj (by rw [← he]; exact hstop)
        have := hs.apart r hr prev hmem hne
        simp only [Extent.stop] at *
        omega
      · exact Or.inr hgt

/-- Putting a region back that shares no byte with the freelist adds exactly its bytes. -/
theorem insertCoalesced_spec (hd : Disjoint (Extent.mk o s).bytes (cover fl.regions)) :
    (fl.insertCoalesced o s).Ordered ∧ Separated (fl.insertCoalesced o s).regions ∧
      cover (fl.insertCoalesced o s).regions = (Extent.mk o s).bytes ∪ cover fl.regions := by
  obtain ⟨h₁, hs₁, hpos₁, hfar₁, hcov₁⟩ := mergeNext_spec h hs hpos fun r hr =>
    hs.stop_le_or (e := ⟨o, s⟩) hpos hd hr
  obtain ⟨⟨⟨o', s'⟩, fl'⟩, hm⟩ : ∃ c, fl.coalesceAdjacent o s = c := ⟨_, rfl⟩
  obtain ⟨h₂, hs₂, hpos₂, hfar₂, hcov₂⟩ := mergePrev_spec h₁ hs₁ hpos₁ hfar₁ hm
  have hno : ∀ r ∈ fl'.regions, r.offset ≠ o' := by
    intro r hr
    have := hfar₂ r hr
    simp only [Extent.stop] at this
    omega
  obtain ⟨hord, hreg⟩ := maybePromote_spec (h₂.insert (s := s') hno)
  simp only [insertCoalesced, hm]
  refine ⟨hord, ?_, ?_⟩ <;> rw [hreg, regions_insert h₂ hno]
  · exact hs₂.insert hpos₂ hfar₂
  · rw [cover_insert, hcov₂, hcov₁]

end

end FreelistBackend

theorem le_divCeil_mul (x b : Nat) (hb : 0 < b) : x ≤ divCeil x b * b := by
  have hdiv := Nat.div_add_mod x b
  have hmod := Nat.mod_lt x hb
  unfold divCeil
  split_ifs with h
  · rw [Nat.mul_comm]
    omega
  · rw [Nat.add_mul, Nat.mul_comm (x / b)]
    omega

theorem divCeil_mul_lt (x b : Nat) (hb : 0 < b) : divCeil x b * b < x + b := by
  have hdiv := Nat.div_add_mod x b
  unfold divCeil
  split_ifs with h
  · rw [Nat.mul_comm]
    omega
  · rw [Nat.add_mul, Nat.mul_comm (x / b)]
    omega

namespace SlotAllocator

variable {a a' : SlotAllocator} {n o size : Nat} {res : Reservation} {journal : Option String}
  {e : AllocatorError}

def freeBytes (a : SlotAllocator) : Set Nat := cover a.freelist.regions

structure Valid (a : SlotAllocator) : Prop where
  ordered : a.freelist.Ordered
  separated : Separated a.freelist.regions
  start : ∀ r ∈ a.freelist.regions, dataRegionOffset ≤ r.offset
  below : ∀ r ∈ a.freelist.regions, r.stop ≤ a.nextOffset
  start_le : dataRegionOffset ≤ a.nextOffset
  nextOffset_le : a.nextOffset ≤ max a.deviceSize dataRegionOffset

theorem valid_new (g : Geometry) (redoLog : Bool) (redoDeviceId : Nat) (packed appendOnly : Bool) :
    (new g redoLog redoDeviceId packed appendOnly).Valid where
  ordered := FreelistBackend.Ordered.new
  separated := by simpa [new] using Separated.empty
  start := by simp [new]
  below := by simp [new]
  start_le := le_rfl
  nextOffset_le := le_max_right _ _

theorem Valid.bounds (h : a.Valid) {x : Nat} (hx : x ∈ a.freeBytes) :
    dataRegionOffset ≤ x ∧ x < a.nextOffset := by
  obtain ⟨r, hr, hlo, hhi⟩ := hx
  have := h.start r hr
  have := h.below r hr
  omega

/-- The bounds of a region are those of its first and its last byte. -/
theorem Valid.of_cover (h : a.Valid) {fl : FreelistBackend} (hord : fl.Ordered)
    (hsep : Separated fl.regions)
    (hbounds : ∀ x ∈ cover fl.regions, dataRegionOffset ≤ x ∧ x < a.nextOffset) :
    { a with freelist := fl }.Valid := by
  refine ⟨hord, hsep, fun r hr => ?_, fun r hr => ?_, h.start_le, h.nextOffset_le⟩
  all_goals have hpos := hsep.pos r hr
  · exact (hbounds r.offset ⟨r, hr, le_rfl, by simp only [Extent.stop]; omega⟩).1
  · have := hbounds (r.stop - 1) ⟨r, hr, by simp only [Extent.mem_bytes, Extent.stop]; omega⟩
    exact Nat.le_of_pred_lt this.2

/-- The block bump of packed mode never moves the append point down. -/
theorem Valid.le_appendPoint (h : a.Valid) : a.nextOffset ≤ a.appendPoint n := by
  have hmin := a.geometry.alignment_min
  have hmax := a.geometry.alignment_max
  have hsize := a.geometry.deviceSize_max
  have hle := h.nextOffset_le
  simp only [deviceSize, dataRegionOffset] at hle
  unfold appendPoint
  split_ifs
  · have hlo := le_divCeil_mul a.nextOffset a.alignment (by unfold alignment; omega)
    have hhi := divCeil_mul_lt a.nextOffset a.alignment (by unfold alignment; omega)
    unfold wrap64
    rw [Nat.mod_eq_of_lt (by unfold alignment at *; omega)]
    exact hlo
  · exact le_rfl

theorem appendPoint_zero : a.appendPoint 0 = a.nextOffset := by
  have hmin := a.geometry.alignment_min
  have hlt : a.nextOffset % a.alignment < a.alignment :=
    Nat.mod_lt _ (by unfold alignment; omega)
  have hbump : a.needBump 0 = false := by simp [needBump, hlt.le]
  simp [appendPoint, hbump]

/-- What a successful reservation can be: the head of a free region, or fresh space at or above
the high-water mark. -/
inductive Reserved (a : SlotAllocator) (n : Nat) : Nat → Reservation → SlotAllocator → Prop
  | fromFreelist {o m : Nat} {fl : FreelistBackend} (mem : ⟨o, m⟩ ∈ a.freelist.regions)
      (le : n ≤ m) (ordered : fl.Ordered)
      (regions : ∀ r, r ∈ fl.regions ↔
        (r ∈ a.freelist.regions ∧ r.offset ≠ o) ∨ (n < m ∧ r = ⟨o + n, m - n⟩)) :
      Reserved a n o (.fromFreelist o m) { a with freelist := fl }
  | fromHighWater {o : Nat} (above : a.nextOffset ≤ o) (fits : o + n ≤ a.deviceSize)
      (empty : n = 0 → o = a.nextOffset) :
      Reserved a n o (.fromHighWater a.nextOffset) { a with nextOffset := o + n }

theorem fromFreelist_none {fl : FreelistBackend} (hf : a.fromFreelist n = (none, fl)) :
    fl = a.freelist := by
  unfold fromFreelist at hf
  split_ifs at hf
  · exact (Prod.mk.inj hf).2.symm
  · exact FreelistBackend.bestFit_none hf
  · exact FreelistBackend.bestFit_none hf

theorem fromFreelist_some (h : a.Valid) {m : Nat} {fl : FreelistBackend}
    (hf : a.fromFreelist n = (some (o, m), fl)) :
    Reserved a n o (.fromFreelist o m) { a with freelist := fl.maybeDemote } := by
  have hbest : ∃ block, a.freelist.bestFit n block = (some (o, m), fl) := by
    unfold fromFreelist at hf
    split_ifs at hf
    · simp at hf
    · exact ⟨_, hf⟩
    · exact ⟨_, hf⟩
  obtain ⟨block, hbest⟩ := hbest
  obtain ⟨hfit, hord, hreg⟩ := FreelistBackend.bestFit_some h.ordered h.separated hbest
  obtain ⟨hord', hreg'⟩ := FreelistBackend.maybeDemote_spec hord
  exact .fromFreelist hfit.mem hfit.fits.1 hord' fun r => by rw [hreg', hreg]

theorem reserveAligned_ok (h : a.Valid) (hr : a.reserveAligned n = (.ok (o, res), a')) :
    Reserved a n o res a' := by
  unfold reserveAligned at hr
  split at hr
  · next ro rs fl hf =>
    obtain ⟨⟨rfl, rfl⟩, rfl⟩ := by simpa using hr
    exact fromFreelist_some h hf
  · next fl hf =>
    obtain rfl := fromFreelist_none hf
    simp only at hr
    split_ifs at hr with hfull
    · simp at hr
    · obtain ⟨⟨rfl, rfl⟩, rfl⟩ := by simpa using hr
      exact .fromHighWater h.le_appendPoint (by omega) fun hn => hn ▸ appendPoint_zero

/-- A reservation fails only when the device is full, and then changes nothing. -/
theorem reserveAligned_error (hr : a.reserveAligned n = (.error e, a')) :
    a' = a ∧ ∃ largest, e = .deviceFull n largest := by
  unfold reserveAligned at hr
  split at hr
  · simp at hr
  · next fl hf =>
    obtain rfl := fromFreelist_none hf
    simp only at hr
    split_ifs at hr with hfull
    · obtain ⟨rfl, rfl⟩ := by simpa using hr
      exact ⟨rfl, _, rfl⟩
    · simp at hr

namespace Reserved

theorem nextOffset_le (h : a.Valid) (hr : Reserved a n o res a') :
    a.nextOffset ≤ a'.nextOffset ∧ dataRegionOffset ≤ o ∧ o + n ≤ a'.nextOffset := by
  cases hr with
  | fromFreelist mem le _ _ =>
    have := h.below _ mem
    have := h.start _ mem
    simp only [Extent.stop] at *
    exact ⟨le_rfl, by omega, by omega⟩
  | fromHighWater above fits _ =>
    have := h.start_le
    exact ⟨by simp only; omega, by omega, le_rfl⟩

/-- The bytes handed out were free, or lie above every byte used so far. -/
theorem bytes_subset (hr : Reserved a n o res a') :
    (Extent.mk o n).bytes ⊆ a.freeBytes ∨ a.nextOffset ≤ o := by
  cases hr with
  | fromFreelist mem le _ _ =>
    refine Or.inl fun x hx => ⟨_, mem, ?_⟩
    simp only [Extent.mem_bytes, Extent.stop] at hx ⊢
    omega
  | fromHighWater above fits _ => exact Or.inr above

/-- A reservation takes exactly its bytes out of the free set. -/
theorem freeBytes_eq (h : a.Valid) (hr : Reserved a n o res a') :
    a'.freeBytes = a.freeBytes \ (Extent.mk o n).bytes := by
  ext x
  cases hr with
  | @fromFreelist m fl mem le ordered regions =>
    simp only [freeBytes, mem_cover, regions, Set.mem_sdiff]
    constructor
    · rintro ⟨r, ⟨hr, hne⟩ | ⟨hlt, rfl⟩, hx⟩
      · refine ⟨⟨r, hr, hx⟩, fun hx' => hne ?_⟩
        have : r = ⟨o, m⟩ := h.separated.eq_of_mem_bytes hr mem hx (by
          simp only [Extent.mem_bytes, Extent.stop] at hx' ⊢
          omega)
        rw [this]
      · simp only [Extent.mem_bytes, Extent.stop] at hx ⊢
        exact ⟨⟨_, mem, by simp only; omega⟩, by omega⟩
    · rintro ⟨⟨r, hr, hx⟩, hnot⟩
      by_cases ho : r.offset = o
      · obtain rfl := h.separated.eq_of_offset hr mem ho
        simp only [Extent.mem_bytes, Extent.stop] at hx hnot
        exact ⟨_, Or.inr ⟨by omega, rfl⟩, by simp only [Extent.mem_bytes, Extent.stop]; omega⟩
      · exact ⟨r, Or.inl ⟨hr, ho⟩, hx⟩
  | fromHighWater above fits _ =>
    refine ⟨fun hx => ⟨hx, fun hx' => ?_⟩, And.left⟩
    have hlt := h.bounds hx
    simp only [Extent.mem_bytes] at hx'
    omega

theorem valid (h : a.Valid) (hr : Reserved a n o res a') : a'.Valid := by
  cases hr with
  | @fromFreelist m fl mem le ordered regions =>
    have hfree := freeBytes_eq h (.fromFreelist mem le ordered regions)
    refine h.of_cover ordered ?_ fun x hx => h.bounds (hfree.subset hx).1
    by_cases hlt : n < m
    · have hfl : fl.regions = insert ⟨o + n, m - n⟩ (a.freelist.regions \ {⟨o, m⟩}) := by
        ext r
        simp only [regions, hlt, true_and, Set.mem_insert_iff, Set.mem_sdiff,
          Set.mem_singleton_iff]
        rw [or_comm]
        refine or_congr_right (and_congr_right fun hr => not_congr ⟨fun ho => ?_, ?_⟩)
        · exact h.separated.eq_of_offset hr mem ho
        · exact fun he => he ▸ rfl
      rw [hfl]
      exact h.separated.replace mem (by simp only; omega) (by simp only; omega)
        (by simp only [Extent.stop]; omega)
    · refine h.separated.mono fun r hr => ?_
      exact (((regions r).mp hr).resolve_right fun hr => hlt hr.1).1
  | fromHighWater above fits _ =>
    have hstart := h.start_le
    refine ⟨h.ordered, h.separated, h.start, fun r hr => ?_, ?_, ?_⟩
    · have := h.below r hr
      simp only
      omega
    · simp only
      omega
    · exact le_max_of_le_left fits

theorem config_eq (hr : Reserved a n o res a') :
    a'.geometry = a.geometry ∧ a'.redoLog = a.redoLog ∧ a'.redoDeviceId = a.redoDeviceId ∧
      a'.packed = a.packed ∧ a'.appendOnly = a.appendOnly := by
  cases hr <;> exact ⟨rfl, rfl, rfl, rfl, rfl⟩

end Reserved

section Neighbours

variable {r : FreeRegion} (h : a.Valid) (hr : r ∈ a.freelist.regions)
include h hr

/-- A region that starts before an offset is the last one that does, or stops before it. -/
theorem Valid.exists_prevBefore (hlt : r.offset < o) :
    ∃ p ∈ a.freelist.regions, a.freelist.prevBefore o = some p ∧ p.offset < o ∧
      (r = p ∨ r.stop < p.offset) := by
  cases hp : a.freelist.prevBefore o with
  | none =>
    have := FreelistBackend.prevBefore_eq_none h.ordered hp r hr
    omega
  | some p =>
    obtain ⟨hmem, hplt, hmax⟩ := FreelistBackend.prevBefore_eq_some h.ordered hp
    have hle := hmax r hr hlt
    refine ⟨p, hmem, rfl, hplt, or_iff_not_imp_left.mpr fun hne => ?_⟩
    have := h.separated.apart r hr p hmem hne
    simp only [Extent.stop] at this ⊢
    omega

theorem Valid.exists_nextFrom (hge : o ≤ r.offset) :
    ∃ q ∈ a.freelist.regions, a.freelist.nextFrom o = some q ∧ q.offset ≤ r.offset := by
  cases hq : a.freelist.nextFrom o with
  | none =>
    have := FreelistBackend.nextFrom_eq_none h.ordered hq r hr
    omega
  | some q =>
    obtain ⟨hmem, -, hmin⟩ := FreelistBackend.nextFrom_eq_some h.ordered hq
    exact ⟨q, hmem, rfl, hmin r hr hge⟩

end Neighbours

/-- The two neighbour queries decide whether a range holds a free byte. -/
theorem disjoint_of_neighbours (h : a.Valid)
    (hprev : ∀ r, a.freelist.prevBefore (o + 1) = some r → r.stop ≤ o)
    (hnext : ∀ r, a.freelist.nextFrom o = some r → o + n ≤ r.offset) :
    Disjoint (Extent.mk o n).bytes a.freeBytes := by
  rw [Set.disjoint_left]
  rintro x ⟨hlo, hhi⟩ ⟨r, hr, hrlo, hrhi⟩
  simp only [Extent.stop] at hlo hhi
  rcases lt_or_ge r.offset o with hlt | hge
  · obtain ⟨p, -, hp, hplt, hlast⟩ := h.exists_prevBefore hr (Nat.lt_succ_of_lt hlt)
    have hple := hprev p hp
    rcases hlast with rfl | hlast
    · omega
    · omega
  · obtain ⟨q, -, hq, hle⟩ := h.exists_nextFrom hr hge
    have := hnext q hq
    omega

/-- A range that passes the checks lies in the data region and holds no free byte. -/
theorem checkFree_eq_none (h : a.Valid) (hc : a.checkFree o n = none) :
    0 < n ∧ dataRegionOffset ≤ o ∧ o + n ≤ a.deviceSize ∧
      Disjoint (Extent.mk o n).bytes a.freeBytes := by
  unfold checkFree at hc
  split_ifs at hc with hrange
  split at hc
  · simp at hc
  next hcont =>
  split at hc
  · simp at hc
  next hnext =>
  refine ⟨by omega, by omega, by omega, disjoint_of_neighbours h (fun r hr => ?_) fun r hr => ?_⟩
  · have hlt := (FreelistBackend.prevBefore_eq_some h.ordered hr).2.1
    have hout : ¬ (r.offset ≤ o ∧ o < r.stop) := by simpa [freeRegionContaining, hr] using hcont
    omega
  · simpa [hr] using hnext

theorem free_ok (hf : (a.free o size journal).result = .ok ()) :
    a.checkFree o (a.alignReservation size) = none ∧
      a.free o size journal =
        ⟨.ok (), { a with freelist := a.freelist.insertCoalesced o (a.alignReservation size) },
          if a.redoLog then [.freeRegion o (a.alignReservation size) a.redoDeviceId] else []⟩ := by
  unfold free at hf ⊢
  cases hc : a.checkFree o (a.alignReservation size) with
  | some e => simp [hc] at hf
  | none =>
    simp only [hc] at hf ⊢
    refine ⟨trivial, ?_⟩
    split_ifs at hf ⊢
    · cases journal with
      | none => rfl
      | some e => simp at hf
    · rfl

theorem free_error (hf : (a.free o size journal).result = .error e) :
    (a.free o size journal).state = a := by
  unfold free at hf ⊢
  cases hc : a.checkFree o (a.alignReservation size) with
  | some e => simp [hc]
  | none =>
    simp only [hc] at hf ⊢
    split_ifs at hf ⊢
    cases journal with
    | none => simp at hf
    | some e => rfl

/-- Freeing a range below the high-water mark keeps the freelist well formed and adds exactly
the freed bytes. -/
theorem valid_insertCoalesced (h : a.Valid) (hpos : 0 < n) (hstart : dataRegionOffset ≤ o)
    (hbelow : o + n ≤ a.nextOffset) (hd : Disjoint (Extent.mk o n).bytes a.freeBytes) :
    { a with freelist := a.freelist.insertCoalesced o n }.Valid ∧
      cover (a.freelist.insertCoalesced o n).regions = (Extent.mk o n).bytes ∪ a.freeBytes := by
  obtain ⟨hord, hsep, hcov⟩ := FreelistBackend.insertCoalesced_spec h.ordered h.separated hpos hd
  refine ⟨h.of_cover hord hsep fun x hx => ?_, hcov⟩
  rcases hcov.subset hx with ⟨hlo, hhi⟩ | hx
  · exact ⟨hstart.trans hlo, hhi.trans_le hbelow⟩
  · exact h.bounds hx

end SlotAllocator

end TeraSlab.Allocator
