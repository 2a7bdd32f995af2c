import TeraSlab.Allocator.ReplayStep

/-!
# When replay is exact

Entries of a run are replayed onto an allocator state persisted somewhere along the run. The
replayed state has the free bytes and the high-water mark of the end of the run exactly when the
entries are replay safe.

A byte that no entry touches keeps its state. For the others the last entry that touches a byte
decides, so the argument follows the disagreement between the replayed and the true state and
shows that every byte in disagreement is still to be touched.
-/

namespace TeraSlab.Allocator

open Foundations

variable {c g : SlotAllocator} {s u t : Space} {o n id : Nat} {es : List RegionRedoOp}
  {e : RegionRedoOp}

/-- How far a replay may be off before the entries `es`: a byte in disagreement is still to be
touched, and freeing a live region will do what it should or be made good by later entries. -/
structure Agreeing (g : SlotAllocator) (s : Space) (es : List RegionRedoOp) : Prop where
  bytes : ∀ x, (x ∈ g.freeBytes ↔ x ∈ s.free) ∨ Touched es x
  live : ∀ r ∈ s.live, FreedIn es r → Disjoint r.bytes g.freeBytes ∨
    ∀ x ∈ r.bytes, x ∉ g.freeBytes → AllocatedBy (afterFree r es) x

variable {r : Extent}

/-- When one free region at most meets a range, no byte of the range is past the first. -/
theorem MeetsAtMostOne.not_pastFirst (h : MeetsAtMostOne g r) {x : Nat}
    (hx : x ∈ r.bytes) : ¬ PastFirst g r x := by
  rintro ⟨f, hf, hxf, f', hf', hm, hlt⟩
  have heq := h f hf f' hf' (Extent.meets_iff.mpr ⟨x, hxf, hx⟩) hm
  exact absurd (congrArg Extent.offset heq) hlt.ne'

theorem PastFirst.mem_freeBytes {x : Nat} (h : PastFirst g r x) :
    x ∈ g.freeBytes := by
  obtain ⟨f, hf, hxf, -⟩ := h
  exact ⟨f, hf, hxf⟩

/-- An entry keeps the agreement on a live region whose bytes it does not touch. -/
theorem disjoint_or_allocated_congr {g' : SlotAllocator} {later : List RegionRedoOp}
    (hsame : ∀ x ∈ r.bytes, (x ∈ g'.freeBytes ↔ x ∈ g.freeBytes))
    (h : Disjoint r.bytes g.freeBytes ∨
      ∀ x ∈ r.bytes, x ∉ g.freeBytes → AllocatedBy later x) :
    Disjoint r.bytes g'.freeBytes ∨
      ∀ x ∈ r.bytes, x ∉ g'.freeBytes → AllocatedBy later x := by
  rcases h with hd | ha
  · refine Or.inl (Set.disjoint_left.mpr fun x hx hg => ?_)
    exact Set.disjoint_left.mp hd hx ((hsame x hx).mp hg)
  · exact Or.inr fun x hx hg => ha x hx fun hg' => hg ((hsame x hx).mpr hg')

theorem Agreeing.allocate (h : Agreeing g s (.allocateRegion o n id :: es))
    (hf : Following c g s) (hstep : Space.Step c s (.allocateRegion o n id) u)
    (hsafe : MeetsAtMostOne g ⟨o, n⟩ ∨ GivenBack g ⟨o, n⟩ es) :
    Agreeing (g.replayRedo (.allocateRegion o n id)).2 u es := by
  obtain ⟨-, hbytes, -⟩ := replay_allocate hf hstep
  cases hstep with
  | allocate aligned start fits empty fresh =>
    constructor
    · intro x
      by_cases hx : x ∈ (Extent.mk o n).bytes
      · rcases hsafe with hone | hback
        · refine Or.inl ⟨fun hg => ?_, fun hu => absurd hx hu.2⟩
          rw [hbytes] at hg
          exact absurd hg.2 (not_or.mpr ⟨not_not_intro hx, hone.not_pastFirst hx⟩)
        · exact Or.inr (hback.1.touched hx)
      · rcases h.bytes x with hiff | ht
        · refine Or.inl ?_
          rw [hbytes]
          exact ⟨fun hg => ⟨hiff.mp hg.1, hx⟩, fun hu => ⟨hiff.mpr hu.1, Or.inl hx⟩⟩
        · exact Or.inr ((touched_cons.mp ht).resolve_left hx)
    · intro r hr hfreed
      rcases List.mem_cons.mp hr with rfl | hr
      · -- the region just allocated
        rcases hsafe with hone | hback
        · refine Or.inl (Set.disjoint_left.mpr fun x hx hg => ?_)
          rw [hbytes] at hg
          exact absurd hg.2 (not_or.mpr ⟨not_not_intro hx, hone.not_pastFirst hx⟩)
        · refine Or.inr fun x hx hg => hback.2 x hx fun hpast => hg ?_
          rw [hbytes]
          exact ⟨hpast.mem_freeBytes, Or.inr hpast⟩
      · refine disjoint_or_allocated_congr (fun x hx => ?_)
          (h.live r hr (freedIn_cons_allocate.mpr hfreed))
        have hout : x ∉ (Extent.mk o n).bytes := fun hx' =>
          fresh r hr (Extent.meets_iff.mpr ⟨x, hx, hx'⟩)
        rw [hbytes]
        exact ⟨And.left, fun hg => ⟨hg, Or.inl hout⟩⟩

theorem Agreeing.free (h : Agreeing g s (.freeRegion o n id :: es)) (hs : s.Sound)
    (hf : Following c g s) (hstep : Space.Step c s (.freeRegion o n id) u) :
    Agreeing (g.replayRedo (.freeRegion o n id)).2 u es := by
  obtain ⟨-, hdis, hnot, -⟩ := replay_free hf hs hstep
  have hframe := fun x => (replay_step (x := x) hf hs hstep).2.1
  cases hstep with
  | free mem pos aligned start fits =>
    constructor
    · intro x
      by_cases hx : x ∈ (Extent.mk o n).bytes
      · by_cases hd : Disjoint (Extent.mk o n).bytes g.freeBytes
        · rw [hdis hd]
          exact Or.inl ⟨fun _ => Or.inl hx, fun _ => Or.inl hx⟩
        -- the entry is dropped: the bytes it should have freed are allocated again later
        rw [hnot hd]
        by_cases hg : x ∈ g.freeBytes
        · exact Or.inl ⟨fun _ => Or.inl hx, fun _ => hg⟩
        have hlater := (h.live _ mem (by simp)).resolve_left hd x hx hg
        simp only [afterFree, if_true] at hlater
        exact Or.inr hlater.touched
      · rcases h.bytes x with hiff | ht
        · refine Or.inl ((hframe x hx).trans (hiff.trans ?_))
          exact ⟨Or.inr, fun hu => hu.resolve_left hx⟩
        · exact Or.inr ((touched_cons.mp ht).resolve_left hx)
    · intro r hr hfreed
      have haway := hs.not_meets_erase mem r hr
      by_cases hpos : 0 < r.size
      · have hne : r ≠ ⟨o, n⟩ := by
          rintro rfl
          exact haway (Extent.meets_iff.mpr
            ⟨o, ⟨le_rfl, by simp only [Extent.stop]; omega⟩,
              ⟨le_rfl, by simp only [Extent.stop]; omega⟩⟩)
        have hlive := h.live r (List.mem_of_mem_erase hr) (freedIn_cons_free.mpr (Or.inr hfreed))
        simp only [afterFree, if_neg hne.symm] at hlive
        refine disjoint_or_allocated_congr (fun x hx => hframe x fun hx' => haway ?_) hlive
        exact Extent.meets_iff.mpr ⟨x, hx, hx'⟩
      · refine Or.inl (Set.disjoint_left.mpr fun x hx => ?_)
        simp only [Extent.mem_bytes, Extent.stop] at hx
        omega

/-- Replay safe entries bring an agreeing replay to the end of the run. -/
theorem Agreeing.replayAll_freeBytes (h : Agreeing g s es) (hs : s.Sound) (hf : Following c g s)
    (hrun : Space.Run c s es t) (hsafe : ReplaySafe g es) :
    (g.replayAll es).freeBytes = t.free := by
  induction hrun generalizing g with
  | nil s =>
    ext x
    exact (h.bytes x).resolve_right (by simp [Touched])
  | @cons s u t e es hstep hrun ih =>
    have hf' := (replay_step (x := 0) hf hs hstep).1
    cases e with
    | allocateRegion o n id =>
      exact ih (h.allocate hf hstep hsafe.1) (hstep.sound hs) hf' hsafe.2
    | freeRegion o n id =>
      exact ih (h.free hs hf hstep) (hstep.sound hs) hf' hsafe.2

/-- A replay that starts from a state of the run agrees with the run: the bytes in disagreement
are those the run has touched up to that state. -/
theorem agreeing_of_persisted {mid post : List RegionRedoOp} (hs : s.Sound)
    (hmid : Space.Run c s mid u) (hg : g.freeBytes = u.free) : Agreeing g s (mid ++ post) := by
  constructor
  · intro x
    rw [hg]
    by_cases ht : Touched mid x
    · exact Or.inr (touched_append.mpr (Or.inl ht))
    · exact Or.inl (hmid.free_iff ht)
  · intro r hr hfreed
    rw [hg]
    by_cases hm : FreedIn mid r
    · -- freed before the state was persisted: what is not free then was allocated again
      refine Or.inr fun x hx hu => ?_
      obtain ⟨before, id, heq, hnot⟩ := hm.split
      rw [heq] at hmid
      obtain ⟨v, hbefore, hrest⟩ := Space.Run.append_iff.mp hmid
      cases hrest with
      | @cons _ w _ _ _ hstep hlater =>
        have hw : x ∈ w.free := by
          cases hstep with
          | free => exact Or.inl hx
        obtain ⟨o, n, id', hmem, hxb⟩ := hlater.allocatedBy hw hu
        refine ⟨o, n, id', ?_, hxb⟩
        rw [afterFree_append hm]
        exact List.mem_append_left _ hmem
    · exact Or.inl ((hmid.sound hs).notFree r (hmid.live_of_not_freed hs hr hm).1)

/-- Two free regions that meet a range leave a byte of it past the first. -/
theorem exists_pastFirst (hv : g.Valid) (h : ¬ MeetsAtMostOne g r) :
    ∃ x ∈ r.bytes, PastFirst g r x := by
  unfold MeetsAtMostOne at h
  push Not at h
  obtain ⟨f, hf, f', hf', hm, hm', hne⟩ := h
  have hoff : f.offset ≠ f'.offset := fun he => hne (hv.separated.eq_of_offset hf hf' he)
  rcases lt_or_gt_of_ne hoff with hlt | hlt
  · obtain ⟨x, hx, hxr⟩ := Extent.meets_iff.mp hm'
    exact ⟨x, hxr, f', hf', hx, f, hf, hm, hlt⟩
  · obtain ⟨x, hx, hxr⟩ := Extent.meets_iff.mp hm
    exact ⟨x, hxr, f, hf, hx, f', hf', hm', hlt⟩

/-- A live region with a free byte left in the replay: it is freed again, and its bytes that are
not free in the replay are allocated after that, or else the replay ends wrong. -/
theorem givenBack_of_freeBytes (hs : s.Sound) (hf : Following c g s)
    (hrun : Space.Run c s es t) (hr : r ∈ s.live) (heq : (g.replayAll es).freeBytes = t.free)
    {x : Nat} (hx : x ∈ r.bytes) (hxg : x ∈ g.freeBytes) :
    FreedIn es r ∧ ∀ y ∈ r.bytes, y ∉ g.freeBytes → AllocatedBy (afterFree r es) y := by
  by_cases hfreed : FreedIn es r
  · refine ⟨hfreed, fun y hy hyg => ?_⟩
    by_contra hnot
    obtain ⟨before, id, hsplit, hbefore⟩ := hfreed.split
    generalize afterFree r es = later at *
    subst hsplit
    obtain ⟨v, hrun₁, hrest⟩ := Space.Run.append_iff.mp hrun
    have haway := (hrun₁.live_of_not_freed hs hr hbefore).2
    have hv := fun z => replayAll_spec (x := z) hf hs hrun₁
    cases hrest with
    | @cons _ w _ _ _ hstep hlater =>
      have hsv := hrun₁.sound hs
      have hyw : y ∈ w.free := by
        cases hstep with
        | free => exact Or.inl hy
      -- the free is dropped, since `x` is still free in the replay
      obtain ⟨hfw, -, hdrop, -⟩ := replay_free (hv 0).1 hsv hstep
      have hnd : ¬ Disjoint (Extent.mk r.offset r.size).bytes (g.replayAll before).freeBytes :=
        fun hd => Set.disjoint_left.mp hd hx (((hv x).2.1 (haway x hx)).mpr hxg)
      have hyv : y ∉ (g.replayAll before).freeBytes := fun h =>
        hyg (((hv y).2.1 (haway y hy)).mp h)
      have huntouched := hlater.not_touched (hstep.sound hsv) hyw hnot
      have hend := (replayAll_spec (x := y) hfw (hstep.sound hsv) hlater).2.1 huntouched
      rw [hdrop hnd] at hend
      have hyt : y ∈ t.free := (hlater.free_iff huntouched).mpr hyw
      rw [← heq, SlotAllocator.replayAll, List.foldl_append] at hyt
      exact hyv (hend.mp hyt)
  · -- never freed: the byte stays free in the replay and allocated in the run
    exfalso
    obtain ⟨hrt, haway⟩ := hrun.live_of_not_freed hs hr hfreed
    have hxt : x ∈ (g.replayAll es).freeBytes :=
      ((replayAll_spec hf hs hrun).2.1 (haway x hx)).mpr hxg
    exact Set.disjoint_left.mp ((hrun.sound hs).notFree r hrt) hx (heq ▸ hxt)

/-- Only replay safe entries bring a replay to the free bytes of the end of the run. -/
theorem replaySafe_of_freeBytes (hs : s.Sound) (hf : Following c g s)
    (hrun : Space.Run c s es t) (heq : (g.replayAll es).freeBytes = t.free) :
    ReplaySafe g es := by
  induction hrun generalizing g with
  | nil => trivial
  | @cons s u t e es hstep hrun ih =>
    have hf' := (replay_step (x := 0) hf hs hstep).1
    refine ⟨?_, ih (hstep.sound hs) hf' heq⟩
    cases e with
    | freeRegion => trivial
    | allocateRegion o n id =>
      refine or_iff_not_imp_left.mpr fun hmany => ?_
      obtain ⟨x, hx, hpast⟩ := exists_pastFirst hf.valid hmany
      obtain ⟨-, hbytes, -⟩ := replay_allocate hf hstep
      have hlive : (⟨o, n⟩ : AllocatedRegion) ∈ u.live := by
        cases hstep with
        | allocate => exact List.mem_cons_self
      obtain ⟨hfreed, hback⟩ := givenBack_of_freeBytes (hstep.sound hs) hf' hrun hlive heq hx
        (by rw [hbytes]; exact ⟨hpast.mem_freeBytes, Or.inr hpast⟩)
      refine ⟨hfreed, fun y hy hnot => hback y hy fun hyg => ?_⟩
      rw [hbytes] at hyg
      exact hyg.2.elim (fun hy' => hy' hy) hnot

/-- The replayed allocator `a` is where the run `t` ended: the same free bytes, the same
high-water mark, and no byte of a region still allocated is free. -/
structure ReplayedTo (a : SlotAllocator) (t : Trace) : Prop where
  freeBytes : a.freeBytes = t.allocator.freeBytes
  nextOffset : a.nextOffset = t.allocator.nextOffset
  allocated : ∀ r ∈ t.live, Disjoint r.bytes a.freeBytes

/-- Replaying the entries of `o_k … o_n` onto the state persisted after `o_j` gives the free
bytes and the high-water mark reached after `o_n` exactly when the entries are replay safe. The
operations before `o_k` are `pre`, those up to `o_j` are `mid` and the rest is `post`. -/
theorem replay_exact_iff (g : Geometry) (id : Nat) (packed appendOnly : Bool)
    (pre mid post : List AllocOp) (t₁ t₂ t₃ : Trace) (b : SlotAllocator)
    (hpre : (Trace.new g id packed appendOnly).performAll pre = some t₁)
    (hmid : t₁.performAll mid = some t₂) (hpost : t₂.performAll post = some t₃)
    (hrestart : t₂.allocator.restart = .ok b) :
    ReplayedTo (b.replayAll (t₃.log.drop t₁.log.length)) t₃ ↔
      ReplaySafe b (t₃.log.drop t₁.log.length) := by
  obtain ⟨hinv₁, -, -⟩ := Trace.performAll_spec (Trace.inv_new g id packed appendOnly) hpre
  obtain ⟨hinv₂, hcfg₂, mids, hlog₂, hrun₂⟩ := Trace.performAll_spec hinv₁ hmid
  obtain ⟨hinv₃, hcfg₃, posts, hlog₃, hrun₃⟩ := Trace.performAll_spec hinv₂ hpost
  obtain ⟨hbv, hbreg, hbnext, hbgeo, hbpacked, hbid⟩ :=
    SlotAllocator.restart_ok hinv₂.valid hrestart
  have hentries : t₃.log.drop t₁.log.length = mids ++ posts := by
    rw [hlog₃, hlog₂, List.append_assoc, List.drop_left]
  have hrun : Space.Run t₁.allocator t₁.space (mids ++ posts) t₃.space :=
    Space.Run.append_iff.mpr ⟨_, hrun₂, Trace.run_of_sameConfig hcfg₂ hrun₃⟩
  have hf : Following t₁.allocator b t₁.space :=
    ⟨hbv, SameConfig.trans ⟨hbgeo, hbpacked, hbid⟩ hcfg₂, hbnext ▸ hrun₂.next_le⟩
  have hbytes : b.freeBytes = t₂.space.free := congrArg cover hbreg
  have hnext : (b.replayAll (mids ++ posts)).nextOffset = t₃.allocator.nextOffset := by
    obtain ⟨hend, -, hle⟩ := replayAll_spec (x := 0) hf hinv₁.sound hrun
    refine le_antisymm (hle.trans (max_le ?_ le_rfl)) hend.next_le
    exact hbnext ▸ hrun₃.next_le
  rw [hentries]
  constructor
  · exact fun h => replaySafe_of_freeBytes hinv₁.sound hf hrun h.freeBytes
  intro hsafe
  have hend : (b.replayAll (mids ++ posts)).freeBytes = t₃.allocator.freeBytes :=
    (agreeing_of_persisted hinv₁.sound hrun₂ hbytes).replayAll_freeBytes hinv₁.sound hf
      hrun hsafe
  exact ⟨hend, hnext, fun r hr => hend ▸ hinv₃.safe.disjoint_freeBytes hr⟩

/-- A region is allocated, freed and allocated again, and the header is written after the free:
the first two entries are already in it. -/
theorem replay_exact_iff_reused_region : ∃ t₁ t₂ t₃ b,
    (Trace.new System.smallDevice 0 false false).performAll [] = some t₁ ∧
    t₁.performAll [.allocate 4096, .free 1048576 4096] = some t₂ ∧
    t₂.performAll [.allocate 4096] = some t₃ ∧ t₂.allocator.restart = .ok b ∧
    ReplayedTo (b.replayAll (t₃.log.drop t₁.log.length)) t₃ := by
  refine ⟨_, _, _, _, rfl, rfl, rfl, rfl, ?_⟩
  refine (replay_exact_iff System.smallDevice 0 false false [] [.allocate 4096, .free 1048576 4096]
    [.allocate 4096] _ _ _ _ rfl rfl rfl rfl).mpr ?_
  refine ⟨Or.inl ?_, trivial, Or.inl ?_, trivial⟩
  all_goals
    intro f hf f' hf' _ _
    exact (List.mem_singleton.mp hf).trans (List.mem_singleton.mp hf').symm

/-- Three neighbours are handed out and the middle one is freed before `o_k`. Then the outer two
are freed and all three are handed out as one region, and the header is written. Replaying the
two frees onto it leaves two free regions inside the allocated one, of which the replayed
allocation removes the first only. -/
theorem replay_leaves_allocated_bytes_free : ∃ t₁ t₂ t₃ b,
    (Trace.new System.smallDevice 0 false false).performAll
      [.allocate 4096, .allocate 4096, .allocate 4096, .free 1052672 4096] = some t₁ ∧
    t₁.performAll [.free 1048576 4096, .free 1056768 4096, .allocate 12288] = some t₂ ∧
    t₂.performAll [] = some t₃ ∧ t₂.allocator.restart = .ok b ∧
    ¬ ReplayedTo (b.replayAll (t₃.log.drop t₁.log.length)) t₃ := by
  refine ⟨_, _, _, _, rfl, rfl, rfl, rfl, fun h => ?_⟩
  have hout := h.allocated ⟨1048576, 12288⟩ List.mem_cons_self
  have hin : 1056768 ∈ (Extent.mk 1048576 12288).bytes := ⟨by decide, by decide⟩
  refine Set.disjoint_left.mp hout hin ?_
  exact ⟨⟨1056768, 4096⟩, List.mem_singleton_self _, by decide, by decide⟩

end TeraSlab.Allocator
