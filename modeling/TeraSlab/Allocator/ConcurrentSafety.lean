import TeraSlab.Allocator.Concurrent

/-!
# Safety of concurrent reservations

The invariant of the shared allocator, one lemma for each call and the induction over whole runs.
-/

namespace TeraSlab.Allocator

open Foundations

def Reservation.Matches (r : AllocatedRegion) : Reservation → Prop
  | .fromFreelist allocOffset regionSize =>
    allocOffset = r.offset ∧ r.size ≤ regionSize ∧ 0 < regionSize
  | .fromHighWater previousNextOffset =>
    dataRegionOffset ≤ previousNextOffset ∧ previousNextOffset ≤ r.offset

/-- The rollback records of a batch, in the order of reservation. Undoing one of them gives back
nothing that the batch reserved before it. -/
inductive Recorded : List AllocatedRegion → List (Nat × Reservation) → Prop
  | nil : Recorded [] []
  | snoc {rs : List AllocatedRegion} {us : List (Nat × Reservation)} {r : AllocatedRegion}
      {res : Reservation} : Recorded rs us → res.Matches r → (∀ r' ∈ rs, res.Avoids r') →
      Recorded (rs ++ [r]) (us ++ [(r.size, res)])

variable {a a' : SlotAllocator} {n o : Nat} {res : Reservation} {r : AllocatedRegion}
  {held others held' : List AllocatedRegion}

theorem Safe.perm (h : Safe a held) (hp : held.Perm held') : Safe a held' where
  disjoint := (hp.pairwise_iff fun {_ _} hn hm => hn hm.symm).mp h.disjoint
  offFreelist r hr := h.offFreelist r (hp.mem_iff.mpr hr)
  below r hr := h.below r (hp.mem_iff.mpr hr)

theorem Safe.of_sublist (h : Safe a held) (hs : held'.Sublist held) : Safe a held' where
  disjoint := h.disjoint.sublist hs
  offFreelist r hr := h.offFreelist r (hs.subset hr)
  below r hr := h.below r (hs.subset hr)

theorem Safe.disjoint_freeBytes (h : Safe a held) (hr : r ∈ held) :
    Disjoint r.bytes a.freeBytes := by
  rw [Set.disjoint_left]
  rintro x hx ⟨f, hf, hxf⟩
  exact h.offFreelist r hr f hf (Extent.meets_iff.mpr ⟨x, hx, hxf⟩)

theorem offFreelist_of_disjoint (h : ∀ r ∈ held, Disjoint r.bytes a.freeBytes) :
    ∀ r ∈ held, ∀ f ∈ a.freelist.iterOffsetOrder, ¬ r.Meets f := by
  intro r hr f hf hm
  obtain ⟨x, hx, hxf⟩ := Extent.meets_iff.mp hm
  exact Set.disjoint_left.mp (h r hr) hx ⟨f, hf, hxf⟩

/-- A reservation adds a region that is disjoint from everything held. -/
theorem Safe.reserve (hv : a.Valid) (h : Safe a held) (hr : SlotAllocator.Reserved a n o res a') :
    Safe a' (⟨o, n⟩ :: held) := by
  have hbytes := hr.freeBytes_eq hv
  have hle := hr.nextOffset_le hv
  refine ⟨List.pairwise_cons.mpr ⟨fun r' hr' => ?_, h.disjoint⟩, offFreelist_of_disjoint ?_, ?_⟩
  · rw [Extent.not_meets_iff]
    rcases hr.bytes_subset with hsub | habove
    · exact ((h.disjoint_freeBytes hr').mono_right hsub).symm
    have hlt := h.below r' hr'
    rw [Set.disjoint_left]
    rintro x ⟨hlo, -⟩ ⟨-, hhi⟩
    simp only at hlo
    omega
  · intro r' hr'
    rw [hbytes]
    rcases List.mem_cons.mp hr' with rfl | hr'
    · exact Set.disjoint_sdiff_right
    · exact (h.disjoint_freeBytes hr').mono_right Set.sdiff_subset
  · intro r' hr'
    rcases List.mem_cons.mp hr' with rfl | hr'
    · exact hle.2.2
    · exact (h.below r' hr').trans hle.1

theorem reserved_matches (hv : a.Valid) (hr : SlotAllocator.Reserved a n o res a') :
    res.Matches ⟨o, n⟩ := by
  cases hr with
  | fromFreelist mem le _ _ => exact ⟨rfl, le, hv.separated.pos _ mem⟩
  | fromHighWater above _ _ => exact ⟨hv.start_le, above⟩

/-- Undoing a reservation gives back nothing that was held when it was made. -/
theorem Safe.avoids (h : Safe a held) (hr : SlotAllocator.Reserved a n o res a') :
    ∀ r ∈ held, res.Avoids r := by
  intro r hmem
  cases hr with
  | fromFreelist mem _ _ _ => exact h.offFreelist r hmem _ mem
  | fromHighWater _ _ _ => exact h.below r hmem

/-- A reservation can be undone right away. -/
theorem undoClear_of_reserved (hv : a.Valid) (h : Safe a held)
    (hr : SlotAllocator.Reserved a n o res a') : UndoClear a' held n res := by
  refine ⟨h.avoids hr, ?_⟩
  cases hr with
  | @fromFreelist m fl mem le ordered regions =>
    refine ⟨hv.below _ mem, fun f hf hm => ?_⟩
    rcases (regions f).mp hf with ⟨hf, hne⟩ | ⟨hlt, rfl⟩
    · obtain ⟨x, hx, hx'⟩ := Extent.meets_iff.mp hm
      exact absurd (congrArg Extent.offset (hv.separated.eq_of_mem_bytes hf mem hx hx')) hne
    · exact ⟨hlt, rfl⟩
  | fromHighWater _ _ _ => exact fun f hf => hv.below f hf

/-- Dropping the region that starts at an offset keeps the allocator well formed. -/
theorem valid_remove (hv : a.Valid) :
    { a with freelist := (a.freelist.remove o).2 }.Valid := by
  have hsub : (a.freelist.remove o).2.regions ⊆ a.freelist.regions := fun f hf =>
    ((FreelistBackend.mem_regions_remove hv.ordered).mp hf).1
  exact ⟨hv.ordered.remove, hv.separated.mono hsub, fun f hf => hv.start f (hsub hf),
    fun f hf => hv.below f (hsub hf), hv.start_le, hv.nextOffset_le⟩

/-- Undoing a reservation taken from the freelist: the remainder of the split leaves the freelist
and the whole region comes back. -/
theorem rollback_fromFreelist {m : Nat} (hv : a.Valid) (hpos : 0 < m)
    (hstart : dataRegionOffset ≤ o) (hbelow : o + m ≤ a.nextOffset)
    (hfree : ∀ f ∈ a.freelist.regions, f.Meets ⟨o, m⟩ → n < m ∧ f.offset = o + n) :
    (a.rollbackReservation n (.fromFreelist o m)).Valid ∧
      (a.rollbackReservation n (.fromFreelist o m)).freeBytes = (Extent.mk o m).bytes ∪
        cover {f | f ∈ a.freelist.regions ∧ ¬ (n < m ∧ f.offset = o + n)} := by
  -- the allocator with the remainder taken out
  obtain ⟨b, hbv, hbreg, hbnext, hroll⟩ : ∃ b : SlotAllocator, b.Valid ∧
      b.freelist.regions = {f | f ∈ a.freelist.regions ∧ ¬ (n < m ∧ f.offset = o + n)} ∧
      b.nextOffset = a.nextOffset ∧ a.rollbackReservation n (.fromFreelist o m) =
        { b with freelist := b.freelist.insertCoalesced o m } := by
    by_cases hlt : n < m
    · refine ⟨{ a with freelist := (a.freelist.remove (o + n)).2 }, valid_remove hv, ?_, rfl, ?_⟩
      · ext f
        simp [FreelistBackend.mem_regions_remove hv.ordered, hlt]
      · simp [SlotAllocator.rollbackReservation, hlt]
    · refine ⟨a, hv, ?_, rfl, ?_⟩
      · simp [hlt]
      · simp [SlotAllocator.rollbackReservation, hlt]
  have hdis : Disjoint (Extent.mk o m).bytes b.freeBytes := by
    rw [Set.disjoint_left, SlotAllocator.freeBytes, hbreg]
    rintro x hx ⟨f, ⟨hf, hne⟩, hxf⟩
    exact hne (hfree f hf (Extent.meets_iff.mpr ⟨x, hxf, hx⟩))
  obtain ⟨hv', hcov⟩ :=
    SlotAllocator.valid_insertCoalesced hbv hpos hstart (hbnext ▸ hbelow) hdis
  rw [hroll]
  exact ⟨hv', hcov.trans (by rw [SlotAllocator.freeBytes, hbreg])⟩

/-- Undoing a reservation, under the condition, returns its region and keeps everything else. -/
theorem undo_safe (hv : a.Valid) (h : Safe a (r :: held)) (hstart : dataRegionOffset ≤ r.offset)
    (hm : res.Matches r) (havoid : ∀ r' ∈ held, res.Avoids r')
    (hclear : UndoClear a others r.size res) :
    (a.rollbackReservation r.size res).Valid ∧ Safe (a.rollbackReservation r.size res) held := by
  have hheld := h.of_sublist (List.sublist_cons_self r held)
  cases res with
  | fromFreelist allocOffset m =>
    obtain ⟨rfl, hsize, hpos⟩ := hm
    obtain ⟨-, hbelow, hfree⟩ := hclear
    obtain ⟨hv', hbytes⟩ := rollback_fromFreelist hv hpos hstart hbelow hfree
    refine ⟨hv', hheld.disjoint, offFreelist_of_disjoint fun r' hr' => ?_, hheld.below⟩
    rw [hbytes]
    refine Set.disjoint_union_right.mpr ⟨Extent.not_meets_iff.mp (havoid r' hr'), ?_⟩
    refine (hheld.disjoint_freeBytes hr').mono_right ?_
    rintro x ⟨f, hf, hx⟩
    exact ⟨f, hf.1, hx⟩
  | fromHighWater p =>
    obtain ⟨hlo, hhi⟩ := hm
    obtain ⟨-, hfree⟩ := hclear
    have hnext := h.below r List.mem_cons_self
    have hbound := hv.nextOffset_le
    refine ⟨⟨hv.ordered, hv.separated, hv.start, hfree, hlo, ?_⟩, hheld.disjoint,
      hheld.offFreelist, havoid⟩
    simp only [Extent.stop] at hnext
    simp only [SlotAllocator.rollbackReservation]
    exact le_trans (by omega) hbound

/-- Rolling a batch back, under the condition, returns its regions and keeps everything the
other requests hold. -/
theorem rollbackAll_safe {rs : List AllocatedRegion} {us : List (Nat × Reservation)}
    (hrec : Recorded rs us) (hv : a.Valid) (h : Safe a (rs ++ others))
    (hstart : ∀ r ∈ rs, dataRegionOffset ≤ r.offset)
    (hclear : RollbackClear a others us.reverse) :
    (a.rollbackAll us).Valid ∧ Safe (a.rollbackAll us) others := by
  induction hrec generalizing a with
  | nil => exact ⟨hv, h⟩
  | @snoc rs us r res _ hmatch hearlier ih =>
    rw [List.reverse_append] at hclear
    obtain ⟨hundo, hrest⟩ : UndoClear a others r.size res ∧
        RollbackClear (a.rollbackReservation r.size res) others us.reverse := hclear
    have hperm : (rs ++ [r] ++ others).Perm (r :: (rs ++ others)) := by
      simp
    have havoid : ∀ r' ∈ rs ++ others, res.Avoids r' := by
      intro r' hr'
      exact (List.mem_append.mp hr').elim (hearlier r') (hundo.1 r')
    obtain ⟨hv', h'⟩ := undo_safe hv (h.perm hperm) (hstart r (by simp)) hmatch havoid hundo
    have hroll : a.rollbackAll (us ++ [(r.size, res)]) =
        (a.rollbackReservation r.size res).rollbackAll us := by
      simp [SlotAllocator.rollbackAll]
    rw [hroll]
    exact ih hv' h' (fun r' hr' => hstart r' (by simp [hr'])) hrest

variable {sizes : List Nat} {size : Nat}

/-- An allocation hands out one region, or fails and changes nothing that is held. -/
theorem allocate_safe (size : Nat) (journal : Option String) (hv : a.Valid) (h : Safe a held) :
    (a.allocate size journal).state.Valid ∧
      match (a.allocate size journal).result with
      | .ok offset =>
        dataRegionOffset ≤ offset ∧
          Safe (a.allocate size journal).state (⟨offset, a.alignReservation size⟩ :: held)
      | .error _ => Safe (a.allocate size journal).state held := by
  unfold SlotAllocator.allocate
  cases hres : a.reserveAligned (a.alignReservation size) with
  | mk result b =>
    cases result with
    | error e =>
      obtain ⟨rfl, -⟩ := SlotAllocator.reserveAligned_error hres
      simpa [hres] using ⟨hv, h⟩
    | ok x =>
      obtain ⟨o, res⟩ := x
      have hreserved := SlotAllocator.reserveAligned_ok hv hres
      have hstart := (hreserved.nextOffset_le hv).2.1
      have hsafe := h.reserve hv hreserved
      have hvalid := hreserved.valid hv
      simp only [hres]
      split_ifs
      · cases journal with
        | none => exact ⟨hvalid, hstart, hsafe⟩
        | some e =>
          -- the append failed, and the reservation is undone at once
          exact undo_safe (r := ⟨o, a.alignReservation size⟩) hvalid hsafe hstart
            (reserved_matches hv hreserved) (h.avoids hreserved)
            (undoClear_of_reserved hv h hreserved)
      · exact ⟨hvalid, hstart, hsafe⟩

/-- Freeing a held region returns its bytes, or fails and changes nothing. -/
theorem free_safe (journal : Option String) (hv : a.Valid) (h : Safe a (r :: held))
    (hsize : a.alignReservation size = r.size) : (a.free r.offset size journal).state.Valid ∧
      match (a.free r.offset size journal).result with
      | .ok _ => Safe (a.free r.offset size journal).state held
      | .error _ => (a.free r.offset size journal).state = a := by
  cases hf : (a.free r.offset size journal).result with
  | error e =>
    rw [SlotAllocator.free_error hf]
    exact ⟨hv, rfl⟩
  | ok u =>
    obtain ⟨hcheck, heq⟩ := SlotAllocator.free_ok hf
    rw [hsize] at hcheck heq
    obtain ⟨hpos, hstart, -, hdis⟩ := SlotAllocator.checkFree_eq_none hv hcheck
    have hheld := h.of_sublist (List.sublist_cons_self r held)
    obtain ⟨hv', hcov⟩ := SlotAllocator.valid_insertCoalesced hv hpos hstart
      (h.below r List.mem_cons_self) hdis
    rw [heq]
    refine ⟨hv', hheld.disjoint, offFreelist_of_disjoint fun r' hr' => ?_, hheld.below⟩
    have hne : ¬ r'.Meets r := fun hm =>
      (List.pairwise_cons.mp h.disjoint).1 r' hr' hm.symm
    simp only [SlotAllocator.freeBytes, hcov]
    exact Set.disjoint_union_right.mpr
      ⟨Extent.not_meets_iff.mp hne, hheld.disjoint_freeBytes hr'⟩

/-- The same free regions below the same high-water mark of the same device. -/
def SameSpace (a b : SlotAllocator) : Prop :=
  a.freelist.regions = b.freelist.regions ∧ a.nextOffset = b.nextOffset ∧ a.geometry = b.geometry

theorem UndoClear.of_sameSpace {b : SlotAllocator} (hs : SameSpace b a)
    (h : UndoClear a others n res) : UndoClear b others n res := by
  refine ⟨h.1, ?_⟩
  have hmem : ∀ f, f ∈ b.freelist.iterOffsetOrder ↔ f ∈ a.freelist.iterOffsetOrder :=
    Set.ext_iff.mp hs.1
  cases res with
  | fromFreelist allocOffset m =>
    exact ⟨hs.2.1 ▸ h.2.1, fun f hf => h.2.2 f ((hmem f).mp hf)⟩
  | fromHighWater p => exact fun f hf => h.2 f ((hmem f).mp hf)

/-- Undoing a reservation before anything else happens restores the space it was taken from. -/
theorem rollback_restores {b : SlotAllocator} (hv : a.Valid)
    (hr : SlotAllocator.Reserved a n o res a') (hbv : b.Valid) (hs : SameSpace b a') :
    (b.rollbackReservation n res).Valid ∧ SameSpace (b.rollbackReservation n res) a := by
  have hclear :=
    (undoClear_of_reserved hv (⟨.nil, by simp, by simp⟩ : Safe a []) hr).of_sameSpace hs
  have hstart := (hr.nextOffset_le hv).2.1
  cases hr with
  | @fromFreelist m fl mem le ordered regions =>
    have hpos := hv.separated.pos _ mem
    obtain ⟨hv', hbytes⟩ := rollback_fromFreelist hbv hpos hstart hclear.2.1 hclear.2.2
    refine ⟨hv', hv'.separated.eq_of_cover_eq hv.separated ?_, hs.2⟩
    -- what stays in the freelist beside the remainder are the other regions
    have hrest : {f | f ∈ b.freelist.regions ∧ ¬ (n < m ∧ f.offset = o + n)} =
        a.freelist.regions \ {⟨o, m⟩} := by
      ext f
      simp only [hs.1, regions, Set.mem_ofPred_eq, Set.mem_sdiff, Set.mem_singleton_iff]
      constructor
      · rintro ⟨⟨hf, hne⟩ | ⟨hlt, rfl⟩, hn⟩
        · exact ⟨hf, fun he => hne (he ▸ rfl)⟩
        · exact absurd ⟨hlt, rfl⟩ hn
      · rintro ⟨hf, hne⟩
        refine ⟨Or.inl ⟨hf, fun ho => hne (hv.separated.eq_of_offset hf mem ho)⟩, ?_⟩
        rintro ⟨hlt, ho⟩
        have := hv.separated.apart f hf _ mem hne
        simp only [Extent.stop] at this
        omega
    rw [SlotAllocator.freeBytes, hrest, ← cover_insert, Set.insert_sdiff_singleton,
      Set.insert_eq_of_mem mem] at hbytes
    exact hbytes
  | fromHighWater above fits _ =>
    refine ⟨⟨hbv.ordered, hbv.separated, hbv.start, hclear.2, hv.start_le, ?_⟩, hs.1, rfl, hs.2.2⟩
    simpa [SlotAllocator.rollbackReservation, SlotAllocator.deviceSize, hs.2.2] using
      hv.nextOffset_le

/-- A batch beside what the other requests hold: how to undo its reservations is recorded, and
that can be done at once. -/
structure Batched (a : SlotAllocator) (others : List AllocatedRegion)
    (p : PendingBatchAllocation) : Prop where
  safe : Safe a (p.held ++ others)
  start : ∀ r ∈ p.held, dataRegionOffset ≤ r.offset
  recorded : Recorded p.held p.rollback
  clear : ∀ b : SlotAllocator, b.Valid → SameSpace b a → RollbackClear b others p.rollback.reverse

theorem batched_nil (h : Safe a others) : Batched a others ⟨[], [], []⟩ :=
  ⟨h, fun _ hr => absurd hr List.not_mem_nil, .nil, fun _ _ _ => trivial⟩

theorem reserveBatchLoop_batched {q : PendingBatchAllocation}
    {out : Except AllocatorError PendingBatchAllocation} (hv : a.Valid) (h : Batched a others q)
    (hr : SlotAllocator.reserveBatchLoop a sizes q = (out, a')) :
    a'.Valid ∧ ∃ p, out = .ok p ∧ Batched a' others p := by
  induction sizes generalizing a q with
  | nil =>
    obtain ⟨rfl, rfl⟩ := Prod.mk.inj hr
    exact ⟨hv, q, rfl, h⟩
  | cons size sizes ih =>
    unfold SlotAllocator.reserveBatchLoop at hr
    cases hres : a.reserveAligned (a.alignReservation size) with
    | mk result c =>
      simp only [hres] at hr
      cases result with
      | error e =>
        obtain ⟨rfl, largest, rfl⟩ := SlotAllocator.reserveAligned_error hres
        refine ih hv ⟨?_, ?_, ?_, ?_⟩ hr <;> try rw [PendingBatchAllocation.held_append_none]
        · exact h.safe
        · exact h.start
        · exact h.recorded
        · exact h.clear
      | ok x =>
        obtain ⟨o, res⟩ := x
        have hreserved := SlotAllocator.reserveAligned_ok hv hres
        refine ih (hreserved.valid hv) ⟨?_, ?_, ?_, fun b hb hs => ?_⟩ hr <;>
          try rw [PendingBatchAllocation.held_append_some]
        · rw [List.append_assoc]
          exact (h.safe.reserve hv hreserved).perm List.perm_middle.symm
        · exact forall_mem_concat.mpr ⟨h.start, (hreserved.nextOffset_le hv).2.1⟩
        · refine .snoc (r := ⟨o, a.alignReservation size⟩) h.recorded
            (reserved_matches hv hreserved) fun r' hr' => ?_
          exact h.safe.avoids hreserved r' (List.mem_append_left _ hr')
        · obtain ⟨hbv, hbs⟩ := rollback_restores hv hreserved hb hs
          simp only [List.reverse_append]
          refine ⟨?_, h.clear _ hbv hbs⟩
          have hothers := h.safe.of_sublist (List.sublist_append_right q.held others)
          exact (undoClear_of_reserved hv hothers hreserved).of_sameSpace hs

namespace System

variable {s : System} {c : Call} {index : Nat} {journal : Option String}

structure Inv (s : System) : Prop where
  valid : s.allocator.Valid
  safe : Safe s.allocator s.handedOut
  start : ∀ r ∈ s.handedOut, dataRegionOffset ≤ r.offset
  recorded : ∀ p ∈ s.pending, Recorded p.held p.rollback

theorem inv_new (hv : a.Valid) : (new a).Inv where
  valid := hv
  safe := ⟨List.Pairwise.nil, by simp [new, handedOut], by simp [new, handedOut]⟩
  start := by simp [new, handedOut]
  recorded := by simp [new]

theorem perm_cons_eraseIdx {α : Type*} {l : List α} {x : α} (h : l[index]? = some x) :
    (x :: l.eraseIdx index).Perm l := by
  obtain ⟨hlt, rfl⟩ := List.getElem?_eq_some_iff.mp h
  exact List.getElem_cons_eraseIdx_perm hlt

theorem handedOut_pending_perm {p : PendingBatchAllocation} (h : s.pending[index]? = some p) :
    s.handedOut.Perm (p.held ++
      (s.live ++ (s.pending.eraseIdx index).flatMap PendingBatchAllocation.held)) := by
  have hp : (s.pending.flatMap PendingBatchAllocation.held).Perm
      (p.held ++ (s.pending.eraseIdx index).flatMap PendingBatchAllocation.held) := by
    simpa using ((perm_cons_eraseIdx h).flatMap_right PendingBatchAllocation.held).symm
  exact (hp.append_left s.live).trans (List.perm_append_comm_assoc ..)

section

variable (h : s.Inv)
include h

theorem inv_step_allocate : (s.step (.allocate size journal)).Inv := by
  have halloc := allocate_safe size journal h.valid h.safe
  unfold step
  cases hres : (s.allocator.allocate size journal).result with
  | error e =>
    simp only [hres] at halloc ⊢
    exact ⟨halloc.1, halloc.2, h.start, h.recorded⟩
  | ok offset =>
    simp only [hres] at halloc ⊢
    refine ⟨halloc.1, halloc.2.2, fun r hr => ?_, h.recorded⟩
    rcases List.mem_cons.mp hr with rfl | hr
    · exact halloc.2.1
    · exact h.start r hr

theorem inv_step_free : (s.step (.free index size journal)).Inv := by
  unfold step
  cases hget : s.live[index]? with
  | none => simpa only [hget] using h
  | some r =>
    simp only [hget]
    split_ifs with hsize
    · have hperm : s.handedOut.Perm _ := ((perm_cons_eraseIdx hget).append_right _).symm
      have hfree := free_safe journal h.valid (h.safe.perm hperm) hsize
      cases hres : (s.allocator.free r.offset size journal).result with
      | error e =>
        simp only [hres] at hfree ⊢
        rw [hfree.2]
        exact h
      | ok u =>
        simp only [hres] at hfree ⊢
        refine ⟨hfree.1, hfree.2, fun r' hr' => h.start r' ?_, h.recorded⟩
        exact hperm.mem_iff.mpr (List.mem_cons_of_mem _ hr')
    · exact h

theorem inv_step_reserveBatch : (s.step (.reserveBatch sizes)).Inv := by
  unfold step
  cases hres : s.allocator.reserveBatch sizes with
  | mk out b =>
    obtain ⟨hv, p, rfl, hp⟩ := reserveBatchLoop_batched h.valid (batched_nil h.safe) hres
    simp only [hres]
    have hperm : (p.held ++ s.handedOut).Perm
        (handedOut { s with allocator := b, pending := p :: s.pending }) := by
      simpa [handedOut] using List.perm_append_comm_assoc ..
    refine ⟨hv, hp.safe.perm hperm, fun r hr => ?_, fun q hq => ?_⟩
    · rcases List.mem_append.mp (hperm.mem_iff.mpr hr) with hr | hr
      · exact hp.start r hr
      · exact h.start r hr
    · rcases List.mem_cons.mp hq with rfl | hq
      · exact hp.recorded
      · exact h.recorded q hq

theorem inv_step_commitPending : (s.step (.commitPending index)).Inv := by
  unfold step
  cases hget : s.pending[index]? with
  | none => simpa only [hget] using h
  | some p =>
    simp only [hget]
    have hperm : s.handedOut.Perm (handedOut ⟨s.allocator, p.held ++ s.live,
        s.pending.eraseIdx index⟩) := by
      simpa [handedOut] using handedOut_pending_perm hget
    refine ⟨h.valid, h.safe.perm hperm, fun r hr => h.start r (hperm.mem_iff.mpr hr), ?_⟩
    exact fun q hq => h.recorded q ((List.eraseIdx_sublist ..).subset hq)

theorem inv_step_rollbackPending (hc : s.CallClear (.rollbackPending index)) :
    (s.step (.rollbackPending index)).Inv := by
  unfold step
  cases hget : s.pending[index]? with
  | none => simpa only [hget] using h
  | some p =>
    simp only [hget]
    have hperm := handedOut_pending_perm hget
    have hclear := hc p hget
    have hmem : p ∈ s.pending := List.mem_of_getElem? hget
    obtain ⟨hv, hsafe⟩ := rollbackAll_safe (h.recorded p hmem) h.valid (h.safe.perm hperm)
      (fun r hr => h.start r (hperm.mem_iff.mpr (List.mem_append_left _ hr))) hclear
    refine ⟨hv, hsafe, fun r hr => h.start r (hperm.mem_iff.mpr (List.mem_append_right _ hr)), ?_⟩
    exact fun q hq => h.recorded q ((List.eraseIdx_sublist ..).subset hq)

theorem inv_step (hc : s.CallClear c) : (s.step c).Inv := by
  cases c with
  | allocate size journal => exact inv_step_allocate h
  | free index size journal => exact inv_step_free h
  | reserveBatch sizes => exact inv_step_reserveBatch h
  | commitPending index => exact inv_step_commitPending h
  | rollbackPending index => exact inv_step_rollbackPending h hc

/-- A batch rolled back before any other call meets the condition: the create path was written
for one request at a time, where this is the only order. -/
theorem callClear_rollback_after_reserve :
    (s.step (.reserveBatch sizes)).CallClear (.rollbackPending 0) := by
  intro p hp
  unfold step at hp ⊢
  cases hres : s.allocator.reserveBatch sizes with
  | mk out b =>
    obtain ⟨hv, q, rfl, hq⟩ := reserveBatchLoop_batched h.valid (batched_nil h.safe) hres
    simp only [hres] at hp ⊢
    obtain rfl := Option.some.inj hp
    exact hq.clear b hv ⟨rfl, rfl, rfl⟩

end

/-- Whatever the interleaving of the users' calls, the handed-out regions never overlap each
other or the freelist and stay below the high-water mark, as long as each rollback is clear of
what the other requests hold. -/
theorem safe_of_clear_rollbacks (g : Geometry) (redoLog : Bool) (redoDeviceId : Nat)
    (packed appendOnly : Bool) (calls : List Call)
    (hclear : Guarded step CallClear
      (new (.new g redoLog redoDeviceId packed appendOnly)) calls) :
    (after (.new g redoLog redoDeviceId packed appendOnly) calls).RegionsSafe :=
  (hclear.invariant (fun _ _ h hc => inv_step h hc)
    (inv_new (SlotAllocator.valid_new ..))).safe

def smallDevice : Geometry where
  deviceSize := 2 ^ 24
  alignment := 4096
  alignment_pow := ⟨12, rfl⟩
  alignment_min := by decide
  alignment_max := by decide
  deviceSize_max := by decide

/-- The later of two pending batches is rolled back and the earlier one is committed: the
rollback is clear. -/
theorem safe_of_clear_rollbacks_two_batches :
    (after (.new smallDevice true 0 false false)
      [.reserveBatch [4096], .reserveBatch [4096], .rollbackPending 0,
        .commitPending 0]).RegionsSafe := by
  refine safe_of_clear_rollbacks smallDevice true 0 false false _
    ⟨trivial, trivial, ?_, trivial, trivial⟩
  intro p hp
  obtain rfl := Option.some.inj hp
  refine ⟨⟨?_, ?_⟩, trivial⟩
  · intro r hr
    obtain rfl := List.mem_singleton.mp hr
    exact le_rfl
  · intro f hf
    exact absurd hf List.not_mem_nil

/-- The earlier of two batches is rolled back after the later one was committed. The high-water
mark falls below the committed region, and the second of the next two allocations hands the
region out again. -/
theorem rollback_of_earlier_batch_unsafe :
    ¬ (after (.new smallDevice true 0 false false)
      [.reserveBatch [4096], .reserveBatch [4096], .commitPending 0, .rollbackPending 0,
        .allocate 4096 none, .allocate 4096 none]).RegionsSafe := by
  intro h
  have hdis := h.disjoint
  exact absurd hdis (by decide)

/-- A request that no other runs beside. -/
inductive Request where
  | allocate (size : Nat) (journal : Option String)
  | free (index size : Nat) (journal : Option String)
  | create (sizes : List Nat) (journaled : Bool)

def Request.calls : Request → List Call
  | .allocate size journal => [.allocate size journal]
  | .free index size journal => [.free index size journal]
  | .create sizes true => [.reserveBatch sizes, .commitPending 0]
  | .create sizes false => [.reserveBatch sizes, .rollbackPending 0]

/-- One request at a time, freelist and handed-out regions stay sound. -/
theorem valid_safe_of_requests (g : Geometry) (redoLog packed appendOnly : Bool)
    (redoDeviceId : Nat) (requests : List Request) :
    let s := after (.new g redoLog redoDeviceId packed appendOnly) (requests.flatMap Request.calls)
    s.allocator.Valid ∧ s.RegionsSafe := by
  intro s
  suffices h : s.Inv from ⟨h.valid, h.safe⟩
  dsimp only [s, after, run]
  rw [List.foldl_flatMap]
  refine List.foldlRecOn requests _ (inv_new (SlotAllocator.valid_new ..)) fun s h request _ => ?_
  cases request with
  | allocate => exact inv_step_allocate h
  | free => exact inv_step_free h
  | create sizes journaled =>
    have hb : (s.step (.reserveBatch sizes)).Inv := inv_step_reserveBatch h
    cases journaled with
    | false => exact inv_step_rollbackPending hb (callClear_rollback_after_reserve h)
    | true => exact inv_step_commitPending hb

end System

end TeraSlab.Allocator
