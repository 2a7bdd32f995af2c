import TeraSlab.Allocator.Space

/-!
# Runs of the space and replayed entries

A run of successful operations of the allocator is a run of the space along the entries it
logged. Replaying such entries, one after the other, keeps the replaying allocator well formed
and changes the bytes of the entries only.
-/

namespace TeraSlab.Allocator

open Foundations

structure SameConfig (a b : SlotAllocator) : Prop where
  geometry : a.geometry = b.geometry
  packed : a.packed = b.packed
  redoDeviceId : a.redoDeviceId = b.redoDeviceId

theorem SameConfig.symm {a b : SlotAllocator} (h : SameConfig a b) : SameConfig b a :=
  ⟨h.geometry.symm, h.packed.symm, h.redoDeviceId.symm⟩

theorem SameConfig.trans {a b c : SlotAllocator} (h : SameConfig a b) (h' : SameConfig b c) :
    SameConfig a c :=
  ⟨h.geometry.trans h'.geometry, h.packed.trans h'.packed, h.redoDeviceId.trans h'.redoDeviceId⟩

theorem SameConfig.alignReservation {a b : SlotAllocator} (h : SameConfig a b) (n : Nat) :
    a.alignReservation n = b.alignReservation n := by
  unfold SlotAllocator.alignReservation SlotAllocator.alignUp SlotAllocator.alignment
  rw [h.geometry, h.packed]

theorem SameConfig.deviceSize {a b : SlotAllocator} (h : SameConfig a b) :
    a.deviceSize = b.deviceSize := congrArg Geometry.deviceSize h.geometry

/-! ### Runs of the allocator are runs of the space -/

theorem SlotAllocator.allocate_ok {a : SlotAllocator} {size o : Nat}
    (h : (a.allocate size none).result = .ok o) :
    ∃ res a', a.reserveAligned (a.alignReservation size) = (.ok (o, res), a') ∧
      a.allocate size none = ⟨.ok o, a',
        if a'.redoLog then [.allocateRegion o (a.alignReservation size) a'.redoDeviceId]
        else []⟩ := by
  unfold allocate at h ⊢
  cases hres : a.reserveAligned (a.alignReservation size) with
  | mk result a' =>
    cases result with
    | error e => simp [hres] at h
    | ok x =>
      obtain ⟨o', res⟩ := x
      simp only [hres] at h ⊢
      refine ⟨res, a', ?_⟩
      split_ifs at h ⊢ with hlog
      · obtain rfl := Except.ok.inj h
        exact ⟨rfl, rfl⟩
      · obtain rfl := Except.ok.inj h
        exact ⟨rfl, rfl⟩

namespace Trace

variable {t t' : Trace} {op : AllocOp} {ops : List AllocOp}

def space (t : Trace) : Space := ⟨t.allocator.freeBytes, t.allocator.nextOffset, t.live⟩

structure Inv (t : Trace) : Prop where
  valid : t.allocator.Valid
  safe : Safe t.allocator t.live
  logging : t.allocator.redoLog = true

theorem inv_new (g : Geometry) (id : Nat) (packed appendOnly : Bool) :
    (new g id packed appendOnly).Inv where
  valid := SlotAllocator.valid_new ..
  safe := ⟨.nil, by simp [new], by simp [new]⟩
  logging := rfl

theorem Inv.sound (h : t.Inv) : t.space.Sound :=
  ⟨h.safe.disjoint, fun _ hr => h.safe.disjoint_freeBytes hr, h.safe.below⟩

theorem step_of_reserved {a a' : SlotAllocator} {n o : Nat} {res : Reservation}
    {live : List AllocatedRegion} (hv : a.Valid) (hs : Safe a live)
    (hr : SlotAllocator.Reserved a n o res a') (halign : a.alignReservation n = n) :
    Space.Step a ⟨a.freeBytes, a.nextOffset, live⟩ (.allocateRegion o n a.redoDeviceId)
      ⟨a'.freeBytes, a'.nextOffset, ⟨o, n⟩ :: live⟩ := by
  have hsafe := hs.reserve hv hr
  obtain ⟨hle, hstart, hstop⟩ := hr.nextOffset_le hv
  have hnext : a'.nextOffset = max a.nextOffset (o + n) := by
    cases hr with
    | fromFreelist => exact (max_eq_left hstop).symm
    | fromHighWater above _ _ => exact (max_eq_right hle).symm
  have hbound : a'.nextOffset ≤ max a.deviceSize dataRegionOffset := by
    have h' := (hr.valid hv).nextOffset_le
    rwa [SlotAllocator.deviceSize, hr.config_eq.1] at h'
  rw [hr.freeBytes_eq hv, hnext]
  refine .allocate halign hstart (fun hpos => ?_) (fun hn => ?_) (fun r hr' hm => ?_)
  · omega
  · cases hr with
    | fromFreelist => simpa [hn] using hstop
    | fromHighWater _ _ empty => exact (empty hn).le
  · exact (List.pairwise_cons.mp hsafe.disjoint).1 r hr' hm.symm

section

variable {size o : Nat} (h : t.Inv)
include h

/-- What a successful allocation hands out was free as a whole, or lies above the mark. -/
theorem perform_allocate (hp : t.perform (.allocate size) = some t') :
    t'.Inv ∧ SameConfig t'.allocator t.allocator ∧ ∃ o n,
      (t.allocator.allocate size none).result = .ok o ∧
      n = t.allocator.alignReservation size ∧ t'.live = ⟨o, n⟩ :: t.live ∧
      t'.log = t.log ++ [.allocateRegion o n t.allocator.redoDeviceId] ∧
      Space.Step t.allocator t.space (.allocateRegion o n t.allocator.redoDeviceId) t'.space ∧
      dataRegionOffset ≤ o ∧
      ((Extent.mk o n).bytes ⊆ t.allocator.freeBytes ∨ t.allocator.nextOffset ≤ o) := by
  unfold perform at hp
  cases hout : (t.allocator.allocate size none).result with
  | error e => simp [hout] at hp
  | ok o =>
    simp only [hout, Option.some.injEq] at hp
    subst hp
    obtain ⟨res, a', hres, heq⟩ := SlotAllocator.allocate_ok hout
    have hreserved := SlotAllocator.reserveAligned_ok h.valid hres
    obtain ⟨hgeo, hlog, hid, hpack, -⟩ := hreserved.config_eq
    rw [heq]
    refine ⟨⟨hreserved.valid h.valid, h.safe.reserve h.valid hreserved, hlog.trans h.logging⟩,
      ⟨hgeo, hpack, hid⟩, o, _, rfl, rfl, rfl, ?_, ?_, (hreserved.nextOffset_le h.valid).2.1,
      hreserved.bytes_subset⟩
    · simp [hlog, h.logging, hid]
    · exact step_of_reserved h.valid h.safe hreserved (SlotAllocator.alignReservation_idem size)

theorem perform_free (hp : t.perform (.free o size) = some t') :
    t'.Inv ∧ SameConfig t'.allocator t.allocator ∧
      ⟨o, t.allocator.alignReservation size⟩ ∈ t.live ∧
      t'.live = t.live.erase ⟨o, t.allocator.alignReservation size⟩ ∧
      t'.log = t.log ++
        [.freeRegion o (t.allocator.alignReservation size) t.allocator.redoDeviceId] ∧
      Space.Step t.allocator t.space (.freeRegion o (t.allocator.alignReservation size)
        t.allocator.redoDeviceId) t'.space := by
  simp only [perform] at hp
  split_ifs at hp with hmem
  cases hout : (t.allocator.free o size none).result with
  | error e => simp [hout] at hp
  | ok u =>
    simp only [hout, Option.some.injEq] at hp
    subst hp
    have hsafe := free_safe none h.valid (h.safe.perm (List.perm_cons_erase hmem)) rfl
    obtain ⟨hcheck, heq⟩ := SlotAllocator.free_ok hout
    obtain ⟨hpos, hstart, hfits, hdis⟩ := SlotAllocator.checkFree_eq_none h.valid hcheck
    obtain ⟨-, hcov⟩ := SlotAllocator.valid_insertCoalesced h.valid hpos hstart
      (h.safe.below _ hmem) hdis
    rw [heq] at hsafe ⊢
    refine ⟨⟨hsafe.1, hsafe.2, h.logging⟩, ⟨rfl, rfl, rfl⟩, hmem, rfl, by simp [h.logging], ?_⟩
    have hstep := Space.Step.free (c := t.allocator) (s := t.space) hmem hpos
      (SlotAllocator.alignReservation_idem size) hstart hfits
    simpa [space, SlotAllocator.freeBytes, hcov] using hstep

theorem perform_spec (hp : t.perform op = some t') :
    t'.Inv ∧ SameConfig t'.allocator t.allocator ∧
      ∃ e, t'.log = t.log ++ [e] ∧ Space.Step t.allocator t.space e t'.space := by
  cases op with
  | allocate size =>
    obtain ⟨hinv, hcfg, o, n, -, -, -, hlog, hstep, -⟩ := perform_allocate h hp
    exact ⟨hinv, hcfg, _, hlog, hstep⟩
  | free o size =>
    obtain ⟨hinv, hcfg, -, -, hlog, hstep⟩ := perform_free h hp
    exact ⟨hinv, hcfg, _, hlog, hstep⟩

end

theorem step_of_sameConfig {c d : SlotAllocator} {s u : Space} {e : RegionRedoOp}
    (hc : SameConfig c d) (h : Space.Step c s e u) : Space.Step d s e u := by
  cases h with
  | allocate aligned start fits empty fresh =>
    rw [hc.redoDeviceId]
    exact .allocate (hc.alignReservation _ ▸ aligned) start (hc.deviceSize ▸ fits) empty fresh
  | free mem pos aligned start fits =>
    rw [hc.redoDeviceId]
    exact .free mem pos (hc.alignReservation _ ▸ aligned) start (hc.deviceSize ▸ fits)

theorem run_of_sameConfig {c d : SlotAllocator} {s u : Space} {es : List RegionRedoOp}
    (hc : SameConfig c d) (h : Space.Run c s es u) : Space.Run d s es u := by
  induction h with
  | nil s => exact .nil s
  | cons hstep _ ih => exact .cons (step_of_sameConfig hc hstep) ih

/-- A run of successful operations is a run of the space along the entries it logged. -/
theorem performAll_spec (h : t.Inv) (hp : t.performAll ops = some t') :
    t'.Inv ∧ SameConfig t'.allocator t.allocator ∧
      ∃ es, t'.log = t.log ++ es ∧ Space.Run t.allocator t.space es t'.space := by
  induction ops generalizing t with
  | nil =>
    obtain rfl := Option.some.inj hp
    exact ⟨h, ⟨rfl, rfl, rfl⟩, [], by simp, .nil _⟩
  | cons op ops ih =>
    obtain ⟨u, hu, hp⟩ := Option.bind_eq_some_iff.mp hp
    obtain ⟨hinv, hcfg, e, hlog, hstep⟩ := perform_spec h hu
    obtain ⟨hinv', hcfg', es, hlog', hrun⟩ := ih hinv hp
    refine ⟨hinv', hcfg'.trans hcfg, e :: es, ?_, .cons hstep (run_of_sameConfig hcfg hrun)⟩
    rw [hlog', hlog, List.append_assoc, List.singleton_append]

end Trace

/-! ### One replayed entry -/

section Replay

variable {c g : SlotAllocator} {s u t : Space} {o n id x : Nat} {es : List RegionRedoOp}
  {e : RegionRedoOp}

/-- The replaying allocator is well formed, configured like the run's, and its high-water mark is
not below the one of the run. -/
structure Following (c g : SlotAllocator) (s : Space) : Prop where
  valid : g.Valid
  config : SameConfig g c
  next_le : s.next ≤ g.nextOffset

/-- A replayed allocation: the bytes of the region leave the first free region it meets. -/
theorem replay_allocate (h : Following c g s) (hstep : Space.Step c s (.allocateRegion o n id) u) :
    Following c (g.replayRedo (.allocateRegion o n id)).2 u ∧
      ((g.replayRedo (.allocateRegion o n id)).2.freeBytes =
        {x | x ∈ g.freeBytes ∧ (x ∉ (Extent.mk o n).bytes ∨ PastFirst g ⟨o, n⟩ x)}) ∧
      (g.replayRedo (.allocateRegion o n id)).2.nextOffset = max g.nextOffset (o + n) := by
  cases hstep with
  | allocate aligned start fits empty fresh =>
    have halign : g.alignReservation n = n := (h.config.alignReservation n).trans aligned
    have hredo : (g.replayRedo (.allocateRegion o n c.redoDeviceId)).2 =
        (g.replayAllocate o n).2 := by
      simp [SlotAllocator.replayRedo, h.config.redoDeviceId]
    rw [hredo]
    rcases Nat.eq_zero_or_pos n with rfl | hpos
    · -- an empty region is dropped, and changes nothing
      have hsame : (g.replayAllocate o 0).2 = g := by
        simp [SlotAllocator.replayAllocate, halign]
      have hmax : max g.nextOffset (o + 0) = g.nextOffset :=
        max_eq_left ((empty rfl).trans h.next_le)
      rw [hsame, hmax]
      refine ⟨⟨h.valid, h.config, max_le h.next_le ?_⟩, ?_, rfl⟩
      · exact (empty rfl).trans h.next_le
      · simp [Extent.stop]
    · obtain ⟨hv, hbytes, fl, hfl⟩ := SlotAllocator.replayAllocate_spec h.valid hpos halign start
        (h.config.deviceSize ▸ fits hpos)
      refine ⟨⟨hv, ?_, ?_⟩, hbytes, by rw [hfl]⟩
      · rw [hfl]
        exact ⟨h.config.geometry, h.config.packed, h.config.redoDeviceId⟩
      · rw [hfl]
        exact max_le_max_right _ h.next_le

section

variable (h : Following c g s) (hs : s.Sound)
include h hs

/-- A replayed free: all bytes of the region are added when none is free, and none otherwise. -/
theorem replay_free (hstep : Space.Step c s (.freeRegion o n id) u) :
    let g' := (g.replayRedo (.freeRegion o n id)).2
    Following c g' u ∧
      (Disjoint (Extent.mk o n).bytes g.freeBytes →
        g'.freeBytes = (Extent.mk o n).bytes ∪ g.freeBytes) ∧
      (¬ Disjoint (Extent.mk o n).bytes g.freeBytes → g'.freeBytes = g.freeBytes) ∧
      g'.nextOffset = g.nextOffset := by
  cases hstep with
  | free mem pos aligned start fits =>
    have halign : g.alignReservation n = n := (h.config.alignReservation n).trans aligned
    have hredo : (g.replayRedo (.freeRegion o n c.redoDeviceId)).2 = (g.replayFree o n).2 := by
      simp [SlotAllocator.replayRedo, h.config.redoDeviceId]
    rw [hredo]
    by_cases hd : Disjoint (Extent.mk o n).bytes g.freeBytes
    · obtain ⟨hv, hcov⟩ := SlotAllocator.valid_insertCoalesced h.valid pos start
        ((hs.below _ mem).trans h.next_le) hd
      rw [SlotAllocator.replayFree_of_disjoint pos halign start (h.config.deviceSize ▸ fits)
        h.valid hd]
      refine ⟨⟨hv, ⟨h.config.geometry, h.config.packed, h.config.redoDeviceId⟩, h.next_le⟩,
        fun _ => hcov, fun hn => absurd hd hn, rfl⟩
    · rw [SlotAllocator.replayFree_of_not_disjoint h.valid halign hd]
      exact ⟨⟨h.valid, h.config, h.next_le⟩, fun hd' => absurd hd' hd, fun _ => rfl, rfl⟩

/-- A replayed entry keeps following the run, and leaves the bytes outside its region alone. -/
theorem replay_step (hstep : Space.Step c s e u) : Following c (g.replayRedo e).2 u ∧
      (x ∉ e.region.bytes → (x ∈ (g.replayRedo e).2.freeBytes ↔ x ∈ g.freeBytes)) ∧
      (g.replayRedo e).2.nextOffset ≤ max g.nextOffset u.next := by
  cases e with
  | allocateRegion o n id =>
    obtain ⟨hf, hbytes, hnext⟩ := replay_allocate h hstep
    refine ⟨hf, fun hx => ?_, ?_⟩
    · rw [hbytes]
      exact ⟨And.left, fun hg => ⟨hg, Or.inl hx⟩⟩
    rw [hnext]
    cases hstep with
    | allocate => exact max_le_max_left _ (le_max_right ..)
  | freeRegion o n id =>
    obtain ⟨hf, hdis, hnot, hnext⟩ := replay_free h hs hstep
    refine ⟨hf, fun hx => ?_, hnext ▸ le_max_left ..⟩
    by_cases hd : Disjoint (Extent.mk o n).bytes g.freeBytes
    · rw [hdis hd]
      exact ⟨fun hg => hg.resolve_left hx, Or.inr⟩
    · rw [hnot hd]

theorem replayAll_spec (hrun : Space.Run c s es t) : Following c (g.replayAll es) t ∧
      (¬ Touched es x → (x ∈ (g.replayAll es).freeBytes ↔ x ∈ g.freeBytes)) ∧
      (g.replayAll es).nextOffset ≤ max g.nextOffset t.next := by
  induction hrun generalizing g with
  | nil => exact ⟨h, fun _ => Iff.rfl, le_max_left ..⟩
  | @cons s u t e es hstep hrun ih =>
    obtain ⟨hf, hframe, hnext⟩ := replay_step (x := x) h hs hstep
    obtain ⟨hf', hframe', hnext'⟩ := ih hf (hstep.sound hs)
    refine ⟨hf', fun hx => ?_, ?_⟩
    · rw [touched_cons, not_or] at hx
      exact (hframe' hx.2).trans (hframe hx.1)
    · have := hrun.next_le
      exact hnext'.trans (max_le (hnext.trans (max_le_max_left _ this)) (le_max_right ..))

end

end Replay

end TeraSlab.Allocator
