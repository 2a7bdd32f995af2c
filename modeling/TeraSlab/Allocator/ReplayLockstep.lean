import TeraSlab.Allocator.ReplayExact

/-!
# Replay from the state of the checkpoint

When the header was persisted just before the first entry that is replayed, the allocator follows
the run entry by entry: after each of them it has the free bytes and the high-water mark that the
run had. What a region handed out passes for during the replay is read off that.
-/

namespace TeraSlab.Allocator

open Foundations

variable {g : SlotAllocator} {t t' : Trace} {op : AllocOp}

/-! ## Reservation sizes -/

theorem divCeil_mono {x y b : Nat} (hb : 0 < b) (h : x ≤ y) : divCeil x b ≤ divCeil y b := by
  have hlt := divCeil_mul_lt x b hb
  have hle := le_divCeil_mul y b hb
  by_contra hn
  have hmul : (divCeil y b + 1) * b ≤ divCeil x b * b := Nat.mul_le_mul_right b (by omega)
  rw [Nat.add_mul] at hmul
  omega

namespace SlotAllocator

variable {a : SlotAllocator} {size size' : Nat}

theorem alignUp_eq (h : size < 2 ^ 32) :
    a.alignUp size = divCeil size a.alignment * a.alignment := by
  have hmin := a.geometry.alignment_min
  have hmax : a.alignment ≤ 2 ^ 62 := a.geometry.alignment_max
  have hlt := divCeil_mul_lt size a.alignment (by unfold alignment; omega)
  exact wrap64_of_lt (by omega)

theorem alignReservation_small (h : size < 2 ^ 32) (hpacked : a.packed = true)
    (hsize : size ≤ a.alignment) :
    a.alignReservation size = divCeil size recordAlign * recordAlign := by
  have hlt := divCeil_mul_lt size recordAlign (by decide)
  have halign : recordAlign = 8 := rfl
  rw [alignReservation, if_neg (by simp [hpacked]), if_pos hsize]
  exact wrap64_of_lt (by omega)

theorem alignReservation_large (hlarge : a.packed = true → a.alignment < size) :
    a.alignReservation size = a.alignUp size := by
  unfold alignReservation
  split_ifs with hpacked hsize
  · rfl
  · exact absurd (hlarge (by simpa using hpacked)) (by omega)
  · rfl

theorem le_alignReservation (h : size < 2 ^ 32) : size ≤ a.alignReservation size := by
  have hmin : 512 ≤ a.alignment := a.geometry.alignment_min
  by_cases hsmall : a.packed = true ∧ size ≤ a.alignment
  · rw [alignReservation_small h hsmall.1 hsmall.2]
    exact le_divCeil_mul size recordAlign (by decide)
  · rw [alignReservation_large (by simpa using hsmall), alignUp_eq h]
    exact le_divCeil_mul size a.alignment (by omega)

/-- A part of a record, from its start, needs no more space than the record. -/
theorem alignReservation_mono (hle : size ≤ size') (h : size' < 2 ^ 32) :
    a.alignReservation size ≤ a.alignReservation size' := by
  have hmin : 512 ≤ a.alignment := a.geometry.alignment_min
  by_cases hsmall : a.packed = true ∧ size ≤ a.alignment
  · rw [alignReservation_small (by omega) hsmall.1 hsmall.2]
    by_cases hsmall' : size' ≤ a.alignment
    · rw [alignReservation_small h hsmall.1 hsmall']
      exact Nat.mul_le_mul_right _ (divCeil_mono (by decide) hle)
    have := roundRecord_le hsmall.2
    have := le_alignReservation (a := a) h
    omega
  · have hlarge : a.packed = true → a.alignment < size := by simpa using hsmall
    rw [alignReservation_large hlarge, alignReservation_large fun hp => (hlarge hp).trans_le hle,
      alignUp_eq (by omega), alignUp_eq h]
    exact Nat.mul_le_mul_right _ (divCeil_mono (by omega) hle)

end SlotAllocator

/-! ## Following the run -/

/-- The replaying allocator is where the run is. -/
structure InStep (g : SlotAllocator) (t : Trace) : Prop where
  valid : g.Valid
  config : SameConfig g t.allocator
  freeBytes : g.freeBytes = t.allocator.freeBytes
  nextOffset : g.nextOffset = t.allocator.nextOffset

theorem inStep_restart (h : t.Inv) (hg : t.allocator.restart = .ok g) : InStep g t := by
  obtain ⟨hv, hreg, hnext, hgeo, hpacked, hid⟩ := SlotAllocator.restart_ok h.valid hg
  exact ⟨hv, ⟨hgeo, hpacked, hid⟩, congrArg cover hreg, hnext⟩

/-- A range that is free as a whole, or not at all, meets at most one free region: between two of
them there is a byte that is not free. -/
theorem meetsAtMostOne_of_subset {r : Extent} (hv : g.Valid)
    (h : r.bytes ⊆ g.freeBytes ∨ Disjoint r.bytes g.freeBytes) : MeetsAtMostOne g r := by
  rcases h with hsub | hdis
  · have hgap : ∀ f ∈ g.freelist.regions, ∀ f' ∈ g.freelist.regions, f.Meets r → f'.Meets r →
        ¬ f.stop < f'.offset := by
      intro f hf f' hf' hm hm' hlt
      obtain ⟨x, hxf, hxr⟩ := Extent.meets_iff.mp hm
      obtain ⟨y, hyf, hyr⟩ := Extent.meets_iff.mp hm'
      rw [Extent.mem_bytes] at hxf hxr hyf hyr
      obtain ⟨f'', hf'', hz⟩ := hsub (Extent.mem_bytes.mpr
        (⟨by omega, by omega⟩ : r.offset ≤ f.stop ∧ f.stop < r.stop))
      rw [Extent.mem_bytes] at hz
      have hne : f ≠ f'' := by
        rintro rfl
        omega
      have := hv.separated.apart f hf f'' hf'' hne
      omega
    intro f hf f' hf' hm hm'
    by_contra hne
    rcases hv.separated.apart f hf f' hf' hne with hlt | hlt
    · exact hgap f hf f' hf' hm hm' hlt
    · exact hgap f' hf' f hf hm' hm hlt
  · intro f hf f' hf' hm
    obtain ⟨x, hxf, hxr⟩ := Extent.meets_iff.mp hm
    exact absurd ⟨f, hf, hxf⟩ (Set.disjoint_left.mp hdis hxr)

theorem disjoint_freeBytes_of_le {o n : Nat} (hv : g.Valid) (h : g.nextOffset ≤ o) :
    Disjoint (Extent.mk o n).bytes g.freeBytes := by
  refine Set.disjoint_left.mpr ?_
  rintro x hx ⟨f, hf, hxf⟩
  have hbelow := hv.below f hf
  rw [Extent.mem_bytes] at hx hxf
  dsimp only at hx
  omega

/-- The replayed entry takes the allocator to where the operation took the run. -/
theorem InStep.perform (h : InStep g t) (hinv : t.Inv) (hp : t.perform op = some t')
    {e : RegionRedoOp} (hlog : t'.log = t.log ++ [e]) : InStep (g.replayRedo e).2 t' := by
  obtain ⟨-, hcfg, -⟩ := Trace.perform_spec hinv hp
  have hfollow : Following t.allocator g t.space := ⟨h.valid, h.config, h.nextOffset.ge⟩
  have hback : SameConfig t.allocator t'.allocator :=
    ⟨hcfg.geometry.symm, hcfg.packed.symm, hcfg.redoDeviceId.symm⟩
  cases op with
  | allocate size =>
    obtain ⟨-, -, o, n, -, -, -, hlog', hstep, -, hbytes⟩ := Trace.perform_allocate hinv hp
    obtain rfl : RegionRedoOp.allocateRegion o n t.allocator.redoDeviceId = e := by
      simpa using hlog'.symm.trans hlog
    obtain ⟨hf, hfree, hnext⟩ := replay_allocate hfollow hstep
    have hone : MeetsAtMostOne g ⟨o, n⟩ := by
      refine meetsAtMostOne_of_subset h.valid (hbytes.imp (h.freeBytes ▸ ·) fun hle => ?_)
      exact disjoint_freeBytes_of_le h.valid (h.nextOffset.le.trans hle)
    have hspace : t'.space.free = t.space.free \ (Extent.mk o n).bytes ∧
        t'.space.next = max t.space.next (o + n) := by
      generalize t'.space = u at hstep
      cases hstep
      exact ⟨rfl, rfl⟩
    refine ⟨hf.valid, hf.config.trans hback, ?_, ?_⟩
    · rw [hfree]
      change _ = t'.space.free
      rw [hspace.1]
      ext x
      simp only [Set.mem_ofPred_eq, Set.mem_sdiff, h.freeBytes]
      refine and_congr_right fun _ => ⟨fun hx hxr => ?_, Or.inl⟩
      exact hone.not_pastFirst hxr (hx.resolve_left (not_not.mpr hxr))
    · rw [hnext, h.nextOffset]
      exact hspace.2.symm
  | free o size =>
    obtain ⟨-, -, hmem, -, hlog', hstep⟩ := Trace.perform_free hinv hp
    obtain rfl : RegionRedoOp.freeRegion o (t.allocator.alignReservation size)
        t.allocator.redoDeviceId = e := by simpa using hlog'.symm.trans hlog
    obtain ⟨hf, hfree, -, hnext⟩ := replay_free hfollow hinv.sound hstep
    have hdis : Disjoint (Extent.mk o (t.allocator.alignReservation size)).bytes g.freeBytes :=
      h.freeBytes ▸ hinv.sound.notFree _ hmem
    have hspace : t'.space.free =
        (Extent.mk o (t.allocator.alignReservation size)).bytes ∪ t.space.free ∧
        t'.space.next = t.space.next := by
      generalize t'.space = u at hstep
      cases hstep
      exact ⟨rfl, rfl⟩
    refine ⟨hf.valid, hf.config.trans hback, ?_, ?_⟩
    · rw [hfree hdis, h.freeBytes]
      exact hspace.1.symm
    · rw [hnext, h.nextOffset]
      exact hspace.2.symm

/-- A region handed out passes for allocated, as a whole and in every part from its start. -/
theorem InStep.isAllocatedRange (h : InStep g t) (hinv : t.Inv) {o n size : Nat}
    (hmem : ⟨o, n⟩ ∈ t.live) (hstart : dataRegionOffset ≤ o) (hpos : 0 < g.alignReservation size)
    (hle : g.alignReservation size ≤ n) : g.isAllocatedRange o size := by
  have hbelow := hinv.safe.below _ hmem
  have hdis := hinv.sound.notFree _ hmem
  have hnext := hinv.valid.nextOffset_le
  have hmax := t.allocator.geometry.deviceSize_max
  have hsize : g.deviceSize = t.allocator.deviceSize := h.config.deviceSize
  have hdev : t.allocator.deviceSize ≤ 2 ^ 63 := hmax
  have hfit : o + g.alignReservation size ≤ t.allocator.nextOffset := by
    simp only [Extent.stop] at hbelow
    omega
  have hbig : (u64Max : Nat) = 2 ^ 64 - 1 := rfl
  unfold SlotAllocator.isAllocatedRange
  rw [if_neg (by omega), if_neg (by rw [h.nextOffset, hsize]; omega)]
  simp only [Bool.not_eq_true', List.any_eq_false, decide_eq_true_eq, not_and]
  intro f hf hlo hhi
  have hfpos := h.valid.separated.pos f hf
  have hbyte : max o f.offset ∈ (Extent.mk o n).bytes := by
    rw [Extent.mem_bytes]
    simp only [Extent.stop] at hhi ⊢
    omega
  refine Set.disjoint_left.mp hdis hbyte ?_
  change _ ∈ t.allocator.freeBytes
  rw [← h.freeBytes]
  refine ⟨f, hf, ?_⟩
  rw [Extent.mem_bytes]
  simp only [Extent.stop] at hhi ⊢
  omega

/-- The offset of a region handed out is in no free region. -/
theorem InStep.freeRegionContaining (h : InStep g t) (hinv : t.Inv) {o n : Nat} (hpos : 0 < n)
    (hmem : ⟨o, n⟩ ∈ t.live) : g.freeRegionContaining o = none := by
  cases hc : g.freeRegionContaining o with
  | none => rfl
  | some f =>
    exfalso
    obtain ⟨hprev, hrange⟩ := Option.filter_eq_some_iff.mp hc
    obtain ⟨hf, -⟩ := FreelistBackend.prevBefore_eq_some h.valid.ordered hprev
    have hbyte : o ∈ (Extent.mk o n).bytes := by
      rw [Extent.mem_bytes]
      simp only [Extent.stop]
      omega
    have hfree : o ∈ g.freeBytes := ⟨f, hf, by simpa using hrange⟩
    exact Set.disjoint_left.mp (hinv.sound.notFree _ hmem) hbyte (h.freeBytes.subset hfree)

/-! ## Whole blocks -/

/-- The high-water mark is at the end of a block, and a block is free as a whole or not at all. -/
structure Space.Blocks (block : Nat) (s : Space) : Prop where
  next : block ∣ s.next
  free : ∀ x y, x / block = y / block → x ∈ s.free → y ∈ s.free

/-- A range of whole blocks holds each byte with its block. -/
theorem mem_bytes_of_div_eq {block o n x y : Nat} (hpos : 0 < block) (ho : block ∣ o)
    (hn : block ∣ n) (h : x / block = y / block) (hx : x ∈ (Extent.mk o n).bytes) :
    y ∈ (Extent.mk o n).bytes := by
  obtain ⟨i, rfl⟩ := ho
  obtain ⟨j, rfl⟩ := hn
  have hmem : ∀ z, z ∈ (Extent.mk (block * i) (block * j)).bytes ↔
      i ≤ z / block ∧ z / block < i + j := by
    intro z
    rw [Nat.le_div_iff_mul_le hpos, Nat.div_lt_iff_lt_mul hpos, Nat.mul_comm i,
      Nat.mul_comm (i + j),
      Nat.mul_add]
    rfl
  rwa [hmem, ← h, ← hmem]

theorem Space.Blocks.step {c : SlotAllocator} {s u : Space} {e : RegionRedoOp} {block : Nat}
    (h : s.Blocks block) (hstep : Space.Step c s e u) (hpos : 0 < block)
    (ho : block ∣ e.region.offset) (hn : block ∣ e.region.size) : u.Blocks block := by
  have hbytes : ∀ {x y}, x / block = y / block → x ∈ e.region.bytes → y ∈ e.region.bytes :=
    fun hxy hx => mem_bytes_of_div_eq hpos ho hn hxy hx
  cases hstep with
  | allocate =>
    refine ⟨?_, fun x y hxy hx => ⟨h.free x y hxy hx.1, fun hy => hx.2 (hbytes hxy.symm hy)⟩⟩
    exact max_rec' (block ∣ ·) h.next (Nat.dvd_add ho hn)
  | free => exact ⟨h.next, fun x y hxy hx => hx.imp (hbytes hxy) (h.free x y hxy)⟩

namespace SlotAllocator

variable {a : SlotAllocator} {o n size : Nat}

theorem alignment_pos (a : SlotAllocator) : 0 < a.alignment :=
  Nat.lt_of_lt_of_le (by decide) a.geometry.alignment_min

theorem dvd_alignReservation (hpacked : a.packed = false) (h : size < 2 ^ 32) :
    a.alignment ∣ a.alignReservation size := by
  rw [alignReservation_large (by simp [hpacked]), alignUp_eq h]
  exact Nat.dvd_mul_left ..

/-- A free region starts with a block: the byte before it is not free. -/
theorem dvd_region (hv : a.Valid)
    (hfree : ∀ x y, x / a.alignment = y / a.alignment → x ∈ a.freeBytes → y ∈ a.freeBytes)
    {r : Extent} (hr : r ∈ a.freelist.regions) : a.alignment ∣ r.offset := by
  by_contra hdvd
  obtain ⟨x, hx⟩ : ∃ x, r.offset = x + 1 :=
    Nat.exists_eq_succ_of_ne_zero fun hzero => hdvd (hzero ▸ Nat.dvd_zero _)
  have hpos := hv.separated.pos r hr
  have hfirst : r.offset ∈ a.freeBytes :=
    ⟨r, hr, by simp only [Extent.mem_bytes, Extent.stop]; omega⟩
  have hsame : r.offset / a.alignment = x / a.alignment := by
    rw [hx] at hdvd ⊢
    exact Nat.succ_div_of_not_dvd hdvd
  obtain ⟨r', hr', hlo, hhi⟩ := hfree _ _ hsame hfirst
  have hne : r ≠ r' := by
    rintro rfl
    omega
  have hapart := hv.separated.apart r hr r' hr' hne
  simp only [Extent.stop] at hapart hhi
  omega

theorem dvd_reserveAligned {res : Reservation} {a' : SlotAllocator} (hv : a.Valid)
    (hpacked : a.packed = false) (hnext : a.alignment ∣ a.nextOffset)
    (hfree : ∀ x y, x / a.alignment = y / a.alignment → x ∈ a.freeBytes → y ∈ a.freeBytes)
    (hres : a.reserveAligned n = (.ok (o, res), a')) : a.alignment ∣ o := by
  unfold reserveAligned at hres
  split at hres
  · next ro rs fl hf =>
    obtain ⟨⟨rfl, rfl⟩, rfl⟩ := by simpa using hres
    cases fromFreelist_some hv hf with
    | fromFreelist mem => exact dvd_region hv hfree mem
  · simp only at hres
    split_ifs at hres
    · simp at hres
    · obtain ⟨⟨rfl, rfl⟩, rfl⟩ := by simpa using hres
      simpa [appendPoint, hpacked] using hnext

end SlotAllocator

theorem SameConfig.alignment {a b : SlotAllocator} (h : SameConfig a b) :
    a.alignment = b.alignment := congrArg Geometry.alignment h.geometry

/-! An allocator that is not packed hands out and takes back whole blocks. -/

section

variable (h : t.Inv) (hpacked : t.allocator.packed = false)
  (hblocks : t.space.Blocks t.allocator.alignment) {size o : Nat} (hlt : size < 2 ^ 32)
include h hpacked hblocks hlt

theorem Trace.blocks_allocate (hp : t.perform (.allocate size) = some t')
    (hlive : t'.live = ⟨o, t.allocator.alignReservation size⟩ :: t.live) :
    t.allocator.alignment ∣ o ∧ t'.space.Blocks t'.allocator.alignment := by
  obtain ⟨-, hcfg, o', n, hres, rfl, hlive', -, hstep, -⟩ := perform_allocate h hp
  obtain rfl : o = o' := by simpa using hlive.symm.trans hlive'
  obtain ⟨res, a', hres, -⟩ := SlotAllocator.allocate_ok hres
  have ho := SlotAllocator.dvd_reserveAligned h.valid hpacked hblocks.next hblocks.free hres
  rw [hcfg.alignment]
  exact ⟨ho, hblocks.step hstep t.allocator.alignment_pos ho
    (SlotAllocator.dvd_alignReservation hpacked hlt)⟩

theorem Trace.blocks_free (hp : t.perform (.free o size) = some t')
    (ho : t.allocator.alignment ∣ o) : t'.space.Blocks t'.allocator.alignment := by
  obtain ⟨-, hcfg, -, -, -, hstep⟩ := perform_free h hp
  rw [hcfg.alignment]
  exact hblocks.step hstep t.allocator.alignment_pos ho
    (SlotAllocator.dvd_alignReservation hpacked hlt)

end

end TeraSlab.Allocator
