import TeraSlab.Allocator.ConcurrentSafety
import TeraSlab.Allocator.SegmentBatch

/-!
# Interleaved batches of the segment allocator

Along a run the regions that are handed out stay disjoint and settled. The newest batches, while
they are the last to have moved the cursor, can be taken back one after the other: the allocator
that was remembered before each, with the bytes that died since, still stands behind all other
regions.
-/

namespace TeraSlab.Allocator

open Foundations

namespace SegmentAllocator

variable {a b before : SegmentAllocator} {e : Extent} {i : Nat} {live : List Extent}
  {p : SegmentPending} {undo : List SegmentAllocator} {pending : List SegmentPending}

/-- The earlier allocator with the dead bytes and the pin of the later one. -/
def takenBack (before a : SegmentAllocator) : SegmentAllocator :=
  { before with
    segments := fun i => ⟨(before.segments i).used, (a.segments i).dead⟩
    pinned := a.pinned }

structure Undoable (a : SegmentAllocator) (live : List Extent) (before : SegmentAllocator)
    (p : SegmentPending) : Prop where
  geometry : a.geometry = before.geometry
  segmentSize : a.segmentSize = before.segmentSize
  segmentCount : a.segmentCount = before.segmentCount
  packed : a.packed = before.packed
  rollback : p.rollback = before.mark
  confined : a.freeSegments = before.freeSegments → before.openSegment ≤ a.openSegment ∧
    ∀ i, i < before.openSegment ∨ a.openSegment < i →
      (a.segments i).used = (before.segments i).used
  holding : (before.takenBack a).Holding (live.filter (· ∉ p.held))

/-- The batch took no segment for reuse and opened only segments that were empty. -/
def OpenedEmpty (before a : SegmentAllocator) : Prop :=
  before.freeSegments = a.freeSegments ∧
    ∀ j ∈ List.range (a.openSegment + 1), before.openSegment < j → (before.segments j).used = 0

instance : Decidable (before.OpenedEmpty a) := inferInstanceAs (Decidable (_ ∧ _))

/-- Putting the cursor back then gives the earlier allocator, up to the bytes that died since. -/
theorem Undoable.restoreCursor (h : a.Undoable live before p) (hempty : before.OpenedEmpty a) :
    a.restoreCursor p.rollback = before.takenBack a := by
  obtain ⟨hfree, hzero⟩ := hempty
  obtain ⟨hle, hused⟩ := h.confined hfree.symm
  have hsegments : ∀ i, (a.restoreCursor before.mark).segments i =
      (before.takenBack a).segments i := by
    intro i
    show (if i = before.openSegment then _ else if before.openSegment < i ∧ i ≤ a.openSegment then _
      else a.segments i) = SegmentMeta.mk _ _
    split_ifs with heq hmid
    · rw [heq]
      rfl
    · rw [hzero i (List.mem_range.mpr (by omega)) hmid.1]
    · rw [← hused i (by omega)]
  rw [h.rollback]
  unfold SegmentAllocator.restoreCursor takenBack at *
  simp only [mk.injEq]
  exact ⟨h.geometry, h.segmentSize, h.segmentCount, funext hsegments, hfree.symm, rfl, rfl,
    h.packed, trivial⟩

theorem takenBack_of_extends (h : a.Extends b) : a.takenBack b = a := by
  have hsegments : (fun i => SegmentMeta.mk (a.segments i).used (b.segments i).dead) =
      a.segments := funext fun i => by rw [h.dead]
  rw [takenBack, hsegments, h.pinned]

/-- The batches for which an allocator is remembered can be taken back, newest first. -/
def Unwinds : SegmentAllocator → List Extent → List SegmentAllocator → List SegmentPending → Prop
  | _, _, [], _ => True
  | _, _, _ :: _, [] => False
  | a, live, before :: undo, p :: pending =>
    a.Undoable live before p ∧
      Unwinds (before.takenBack a) (live.filter (· ∉ p.held)) undo pending

/-- A batch can be taken back right after it was reserved. -/
theorem Unwinds.reserve {sizes : List Nat} (h : a.Holding live)
    (hunwinds : a.Unwinds live undo pending)
    (hafter : (a.reserveBatch sizes).2.Holding ((a.reserveBatch sizes).1.held ++ live)) :
    (a.reserveBatch sizes).2.Unwinds ((a.reserveBatch sizes).1.held ++ live) (a :: undo)
      ((a.reserveBatch sizes).1 :: pending) := by
  have hext : a.Extends (a.reserveBatch sizes).2 := extends_reserveLoop sizes a
  have hold : ((a.reserveBatch sizes).1.held ++ live).filter
      (· ∉ (a.reserveBatch sizes).1.held) = live := by
    have hnodup := List.nodup_append.mp hafter.nodup
    rw [List.filter_append, List.filter_eq_nil_iff.mpr (by simp), List.nil_append,
      List.filter_eq_self]
    intro e he
    simpa using fun hmem => hnodup.2.2 e hmem e he rfl
  have hback := takenBack_of_extends hext
  refine ⟨⟨hext.geometry, hext.segmentSize, hext.segmentCount, hext.packed, rfl, hext.confined,
    ?_⟩, ?_⟩ <;> rw [hold, hback]
  · exact h
  · exact hunwinds

theorem free_eq {offset size : Nat} (h : a.free offset size = .ok b)
    (he : e = ⟨offset, a.alignReservation size⟩) :
    b = a.bury (a.home e) e.size := by
  subst he
  obtain ⟨seg, hseg, rfl⟩ := free_ok h
  obtain ⟨-, rfl⟩ := segmentOf_eq_some hseg
  rfl

theorem takenBack_bury (i n : Nat) :
    before.takenBack (a.bury i n) = (before.takenBack a).bury i n := by
  unfold takenBack bury
  congr 1
  funext j
  dsimp only
  by_cases hj : j = i
  · rw [hj, Function.update_self, Function.update_self]
  · rw [Function.update_of_ne hj, Function.update_of_ne hj]

theorem Undoable.home (h : a.Undoable live before p) (e : Extent) :
    (before.takenBack a).home e = a.home e := by
  rw [SegmentAllocator.home, SegmentAllocator.home, h.segmentSize]
  rfl

theorem Undoable.free (h : a.Undoable live before p) (he : e ∈ live.filter (· ∉ p.held)) :
    (a.bury (a.home e) e.size).Undoable (live.filter (· ≠ e)) before p := by
  have hfreed := h.holding.free he
  refine ⟨h.geometry, h.segmentSize, h.segmentCount, h.packed, h.rollback, fun hfree => ?_, ?_⟩
  · obtain ⟨hle, hconf⟩ := h.confined hfree
    exact ⟨hle, fun i hi => (a.used_bury _ _ i).trans (hconf i hi)⟩
  · rw [List.filter_comm, takenBack_bury, ← h.home]
    exact hfreed

/-- Of the batches that can be taken back, those after the one whose region is freed remain. -/
theorem Unwinds.free (h : a.Unwinds live undo pending) (he : e ∈ live) :
    (a.bury (a.home e) e.size).Unwinds (live.filter (· ≠ e))
      (undo.take (pending.findIdx fun p => e ∈ p.held)) pending := by
  induction undo generalizing a live pending with
  | nil =>
    rw [List.take_nil]
    trivial
  | cons before undo ih =>
    cases pending with
    | nil => exact h.elim
    | cons p pending =>
      by_cases hheld : e ∈ p.held
      · rw [List.findIdx_cons, decide_eq_true hheld]
        trivial
      · have hmem : e ∈ live.filter (· ∉ p.held) := List.mem_filter.mpr ⟨he, by simpa using hheld⟩
        rw [List.findIdx_cons, decide_eq_false hheld]
        refine ⟨h.1.free hmem, ?_⟩
        rw [List.filter_comm, takenBack_bury, ← h.1.home]
        exact ih h.2 hmem

theorem Unwinds.pin (h : a.Unwinds live undo pending) (pinned : Bool) :
    (a.setLifecyclePinned pinned).Unwinds live undo pending := by
  induction undo generalizing a live pending with
  | nil => trivial
  | cons before undo ih =>
    cases pending with
    | nil => exact h.elim
    | cons p pending =>
      obtain ⟨hfirst, hrest⟩ := h
      exact ⟨⟨hfirst.geometry, hfirst.segmentSize, hfirst.segmentCount, hfirst.packed,
        hfirst.rollback, hfirst.confined, hfirst.holding.congr rfl rfl rfl rfl rfl⟩, ih hrest⟩

/-- The batches newer than a committed one can still be taken back. -/
theorem Unwinds.commit (h : a.Unwinds live undo pending) (batch : Nat) :
    a.Unwinds live (undo.take batch) (pending.eraseIdx batch) := by
  induction undo generalizing a live pending batch with
  | nil =>
    rw [List.take_nil]
    trivial
  | cons before undo ih =>
    cases pending with
    | nil => exact h.elim
    | cons p pending =>
      cases batch with
      | zero => trivial
      | succ batch => exact ⟨h.1, ih h.2 batch⟩

theorem reclaim_eq_self {liveOffsets : List Nat}
    (h : (a.reclaimFullyDeadSegments liveOffsets).1 = []) :
    (a.reclaimFullyDeadSegments liveOffsets).2 = a := by
  have hnone : a.fullyDead liveOffsets = [] := h
  simp [reclaimFullyDeadSegments, hnone]

end SegmentAllocator

namespace SegmentSystem

open SegmentAllocator

variable {s : SegmentSystem} {call : SegmentCall}

/-- An allocation under a pin does not run into a segment that is up for reuse. The batch that is
taken back is the newest, is the last to have moved the cursor but for others that were taken back,
and opened only empty segments, none of them for reuse. -/
def Allowed (s : SegmentSystem) : SegmentCall → Prop
  | .allocate size => s.allocator.PinClear [size]
  | .reserveBatch sizes => s.allocator.PinClear sizes
  | .rollbackPending batch => batch < s.pending.length →
    batch = 0 ∧ ∃ before ∈ s.undo.head?, before.OpenedEmpty s.allocator
  | _ => True

instance : ∀ call, Decidable (Allowed s call)
  | .allocate _ | .reserveBatch _ => inferInstanceAs (Decidable (PinClear _ _))
  | .rollbackPending _ => inferInstanceAs (Decidable (_ → _))
  | .free .. | .commitPending _ | .reclaimFullyDeadSegments _ | .setLifecyclePinned _ =>
    .isTrue trivial

/-- The regions that are handed out are sound, and so they are without the newest batches. -/
structure Sound (s : SegmentSystem) : Prop where
  holding : s.allocator.Holding s.live
  unwinds : s.allocator.Unwinds s.live s.undo s.pending

theorem Sound.free (h : s.Sound) (offset size : Nat) : (s.step (.free offset size)).Sound := by
  let e : Extent := ⟨offset, s.allocator.alignReservation size⟩
  by_cases hmem : e ∈ s.live
  · cases hfree : s.allocator.free offset size with
    | error _ =>
      have hstep : s.step (.free offset size) = s := (if_pos hmem).trans (by rw [hfree])
      rw [hstep]
      exact h
    | ok b =>
      have hstep : s.step (.free offset size) =
          { s with
            allocator := b
            live := s.live.filter (· ≠ e)
            undo := s.undo.take (s.pending.findIdx fun p => e ∈ p.held) } :=
        (if_pos hmem).trans (by rw [hfree])
      rw [hstep, free_eq (e := e) hfree rfl]
      exact ⟨h.holding.free hmem, h.unwinds.free hmem⟩
  · have hstep : s.step (.free offset size) = s := if_neg hmem
    rw [hstep]
    exact h

/-- Taking the newest batch back leaves the allocator it found, but for what died since. -/
theorem Sound.rollback {before : SegmentAllocator} {undo : List SegmentAllocator}
    {p : SegmentPending} {rest : List SegmentPending} (h : s.Sound)
    (hundo : s.undo = before :: undo) (hpending : s.pending = p :: rest)
    (hempty : before.OpenedEmpty s.allocator) :
    (s.step (.rollbackPending 0)).Sound ∧
      (s.step (.rollbackPending 0)).allocator = before.takenBack s.allocator := by
  obtain ⟨hundoable, hrest⟩ : s.allocator.Unwinds s.live (before :: undo) (p :: rest) :=
    hundo ▸ hpending ▸ h.unwinds
  have hstep : s.step (.rollbackPending 0) =
      { allocator := before.takenBack s.allocator
        live := s.live.filter (· ∉ p.held)
        pending := rest
        undo := undo } := by
    simp [step, hpending, hundo, hundoable.restoreCursor hempty]
  rw [hstep]
  exact ⟨⟨hundoable.holding, hrest⟩, rfl⟩

theorem Sound.step (h : s.Sound) (hcall : s.Allowed call) : (s.step call).Sound := by
  cases call with
  | allocate size => exact ⟨(h.holding.allocateRegion hcall.cases).1, trivial⟩
  | free offset size => exact h.free offset size
  | reserveBatch sizes =>
    have hafter := h.holding.reserveLoop hcall.cases
    exact ⟨hafter, .reserve h.holding h.unwinds hafter⟩
  | commitPending batch => exact ⟨h.holding, h.unwinds.commit batch⟩
  | rollbackPending batch =>
    by_cases hlt : batch < s.pending.length
    · obtain ⟨rfl, before, hbefore, hempty⟩ := hcall hlt
      obtain ⟨undo, hundo⟩ := List.head?_eq_some_iff.mp hbefore
      cases hpending : s.pending with
      | nil =>
        rw [hpending] at hlt
        exact absurd hlt (Nat.not_lt_zero 0)
      | cons p rest => exact (h.rollback hundo hpending hempty).1
    · have hnone : s.pending[batch]? = none := List.getElem?_eq_none (not_lt.mp hlt)
      rw [SegmentSystem.step, hnone]
      exact h
  | reclaimFullyDeadSegments liveOffsets =>
    refine ⟨h.holding.reclaim liveOffsets, ?_⟩
    dsimp only [SegmentSystem.step]
    split_ifs with hnone
    · rw [reclaim_eq_self hnone]
      exact h.unwinds
    · trivial
  | setLifecyclePinned pinned =>
    exact ⟨h.holding.congr rfl rfl rfl rfl rfl, h.unwinds.pin pinned⟩

theorem Sound.run {calls : List SegmentCall} (h : s.Sound)
    (hcalls : Guarded SegmentSystem.step Allowed s calls) :
    (Foundations.run SegmentSystem.step s calls).Sound :=
  hcalls.invariant (fun _ _ hs hcall => hs.step hcall) h

/-- The region lies in one segment that is not up for reuse, and behind the cursor if that is the
open one. -/
def Kept (a : SegmentAllocator) (e : Extent) : Prop :=
  ∃ i, a.segmentStart i ≤ e.offset ∧ e.stop ≤ a.segmentStart i + a.segmentSize ∧
    i ∉ a.freeSegments ∧ (i = a.openSegment → e.stop ≤ a.cursor)

/-- What the calls on a fresh allocator must leave behind. -/
structure HandsOutDisjoint (a : SegmentAllocator) (calls : List SegmentCall) : Prop where
  /-- No two regions that are handed out share a byte. -/
  disjoint : (run step ⟨a, [], [], []⟩ calls).live.Pairwise fun e f => Disjoint e.bytes f.bytes
  /-- No segment of such a region is up for reuse or opened again. -/
  kept : ∀ e ∈ (run step ⟨a, [], [], []⟩ calls).live,
    Kept (run step ⟨a, [], [], []⟩ calls).allocator e
  /-- Taking a batch back right after it was reserved leaves the allocator as it was. -/
  restores : ∀ front sizes back,
    calls = front ++ .reserveBatch sizes :: .rollbackPending 0 :: back →
    (run step ⟨a, [], [], []⟩ (front ++ [.reserveBatch sizes, .rollbackPending 0])).allocator =
      (run step ⟨a, [], [], []⟩ front).allocator

theorem Sound.restores {sizes : List Nat} (h : s.Sound)
    (hreserve : s.Allowed (.reserveBatch sizes))
    (hrollback : (s.step (.reserveBatch sizes)).Allowed (.rollbackPending 0)) :
    ((s.step (.reserveBatch sizes)).step (.rollbackPending 0)).allocator = s.allocator := by
  obtain ⟨-, before, hbefore, hempty⟩ := hrollback (Nat.succ_pos _)
  have hbefore' : before = s.allocator := (Option.some.inj hbefore).symm
  subst hbefore'
  rw [((h.step hreserve).rollback rfl rfl hempty).2]
  exact takenBack_of_extends (extends_reserveLoop sizes s.allocator)

theorem sound_new {g : Geometry} {segmentSize : Nat} {packed : Bool} {a : SegmentAllocator}
    (h : SegmentAllocator.new g segmentSize packed = .ok a) : Sound ⟨a, [], [], []⟩ := by
  refine ⟨⟨(tidy_new h).toOrderly, nofun, List.Pairwise.nil, fun i => ?_⟩, trivial⟩
  unfold SegmentAllocator.new at h
  dsimp only at h
  split at h
  · cases h
  · cases h
    exact le_rfl

theorem handsOutDisjoint_of_allowed (g : Geometry) (segmentSize : Nat) (packed : Bool)
    (a : SegmentAllocator) (ha : SegmentAllocator.new g segmentSize packed = .ok a)
    (calls : List SegmentCall) (hcalls : Guarded step Allowed ⟨a, [], [], []⟩ calls) :
    HandsOutDisjoint a calls := by
  have hnew := sound_new ha
  have hend := hnew.run hcalls
  refine ⟨hend.holding.disjoint, fun e he => ?_, ?_⟩
  · obtain ⟨i, hi⟩ := hend.holding.settled e he
    exact ⟨i, hi.start, hi.stop, hi.kept, hi.behind⟩
  rintro front sizes back rfl
  rw [guarded_append] at hcalls
  obtain ⟨hfront, hreserve, hrollback, -⟩ := hcalls
  rw [run_append]
  exact (hnew.run hfront).restores hreserve hrollback

def fourBlocks : Geometry where
  deviceSize := dataRegionOffset + 4 * 4096
  alignment := 4096
  alignment_pow := System.smallDevice.alignment_pow
  alignment_min := System.smallDevice.alignment_min
  alignment_max := System.smallDevice.alignment_max
  deviceSize_max := by decide

def fourSegments : SegmentAllocator where
  geometry := fourBlocks
  segmentSize := 4096
  segmentCount := 4
  segments := fun _ => .default
  freeSegments := []
  openSegment := 0
  cursor := dataRegionOffset
  packed := false
  pinned := false

/-- Two batches are taken back while a region is freed in between, and a segment is reused. -/
theorem handsOutDisjoint_demo :
    let calls := [.allocate 4096, .reserveBatch [4096], .reserveBatch [4096],
      .free dataRegionOffset 4096, .rollbackPending 0, .rollbackPending 0, .allocate 4096,
      .setLifecyclePinned true, .setLifecyclePinned false, .reclaimFullyDeadSegments [],
      .allocate 4096]
    HandsOutDisjoint fourSegments calls ∧
      (run step ⟨fourSegments, [], [], []⟩ calls).live =
        [⟨dataRegionOffset, 4096⟩, ⟨dataRegionOffset + 4096, 4096⟩] := by
  intro calls
  exact ⟨handsOutDisjoint_of_allowed fourBlocks 4096 false _ rfl calls (by decide),
    by decide⟩

/-- Three segments are in use, and the first is reclaimed and opened again. A batch then jumps over
the other two, and taking it back marks them as empty, so the next allocation is placed over a
region that is handed out. -/
theorem rollback_hands_out_again :
    ¬ HandsOutDisjoint fourSegments
      [.allocate 4096, .allocate 4096, .allocate 4096, .free dataRegionOffset 4096,
        .reclaimFullyDeadSegments [], .allocate 4096, .reserveBatch [4096], .rollbackPending 0,
        .allocate 4096] := by
  rintro ⟨hdisjoint, -, -⟩
  -- The region in segment 1 is handed out twice.
  have hself := (List.pairwise_cons.mp hdisjoint).1 ⟨dataRegionOffset + 4096, 4096⟩ (by decide)
  exact absurd hself (Extent.not_meets_iff.not.mp (by decide))

end SegmentSystem

end TeraSlab.Allocator
