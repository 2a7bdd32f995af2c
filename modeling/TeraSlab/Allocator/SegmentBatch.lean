import TeraSlab.Allocator.SegmentAllocator
import TeraSlab.Foundations.Run

/-!
# Batches of the segment allocator

A batch of regions is reserved in one call and committed or taken back in a later one. Taking it
back puts the cursor where it was before the batch and resets every segment between the two open
segments to empty; the list of segments for reuse stays as it is.

Between the calls others may allocate, free, reserve and reclaim. As long as every batch that is
taken back was, but for later batches that are taken back themselves, the last to move the cursor,
took no segment from the list for reuse and jumped over no segment in use, and as long as no
allocation under a backup's pin runs into a segment that is up for reuse, all regions that were
handed out and neither freed nor taken back share no byte.
-/

namespace TeraSlab.Allocator

open Foundations

/-- What the allocator remembers to take a batch back. -/
structure SegmentRollback where
  preCursor : Nat
  preOpenSegment : Nat
  preOpenUsed : Nat

/-- A batch that is neither committed nor taken back: one region, or none, for each size. -/
structure SegmentPending where
  regions : List (Option Extent)
  rollback : SegmentRollback

def SegmentPending.held (p : SegmentPending) : List Extent := p.regions.reduceOption

namespace SegmentAllocator

def allocateRegion (a : SegmentAllocator) (size : Nat) : Option Extent × SegmentAllocator :=
  match a.allocate size with
  | (.ok offset, b) => (some ⟨offset, a.alignReservation size⟩, b)
  | (.error _, b) => (none, b)

def reserveLoop : List Nat → SegmentAllocator → List (Option Extent) × SegmentAllocator
  | [], a => ([], a)
  | size :: sizes, a =>
    let (region, a) := a.allocateRegion size
    let (regions, a) := reserveLoop sizes a
    (region :: regions, a)

variable (a : SegmentAllocator)

def mark : SegmentRollback where
  preCursor := a.cursor
  preOpenSegment := a.openSegment
  preOpenUsed := (a.segments a.openSegment).used

def reserveBatch (sizes : List Nat) : SegmentPending × SegmentAllocator :=
  let (regions, b) := reserveLoop sizes a
  (⟨regions, a.mark⟩, b)

def restoreCursor (r : SegmentRollback) : SegmentAllocator :=
  { a with
    segments := fun i =>
      if i = r.preOpenSegment then { a.segments i with used := r.preOpenUsed }
      else if r.preOpenSegment < i ∧ i ≤ a.openSegment then { a.segments i with used := 0 }
      else a.segments i
    openSegment := r.preOpenSegment
    cursor := r.preCursor }

end SegmentAllocator

/-! ## Interleaved calls -/

/-- The allocator, the regions that are handed out, and the batches that are neither committed nor
taken back, newest first. For the newest ones the allocators before them are remembered: those
since which only later ones of these batches moved the cursor, no segment was reclaimed and none of
the batch's regions was freed. -/
structure SegmentSystem where
  allocator : SegmentAllocator
  live : List Extent := []
  pending : List SegmentPending := []
  undo : List SegmentAllocator := []

inductive SegmentCall where
  | allocate (size : Nat)
  | free (offset size : Nat)
  | reserveBatch (sizes : List Nat)
  | commitPending (batch : Nat)
  | rollbackPending (batch : Nat)
  | reclaimFullyDeadSegments (liveOffsets : List Nat)
  | setLifecyclePinned (pinned : Bool)

namespace SegmentSystem

open SegmentAllocator

def step (s : SegmentSystem) : SegmentCall → SegmentSystem
  | .allocate size =>
    let (region, b) := s.allocator.allocateRegion size
    { s with allocator := b, live := region.toList ++ s.live, undo := [] }
  | .free offset size =>
    let e : Extent := ⟨offset, s.allocator.alignReservation size⟩
    if e ∈ s.live then
      match s.allocator.free offset size with
      | .ok b =>
        { s with
          allocator := b
          live := s.live.filter (· ≠ e)
          undo := s.undo.take (s.pending.findIdx fun p => e ∈ p.held) }
      | .error _ => s
    else s
  | .reserveBatch sizes =>
    let (p, b) := s.allocator.reserveBatch sizes
    { allocator := b
      live := p.held ++ s.live
      pending := p :: s.pending
      undo := s.allocator :: s.undo }
  | .commitPending batch =>
    { s with
      pending := s.pending.eraseIdx batch
      undo := s.undo.take batch }
  | .rollbackPending batch =>
    match s.pending[batch]? with
    | none => s
    | some p =>
      { allocator := s.allocator.restoreCursor p.rollback
        live := s.live.filter (· ∉ p.held)
        pending := s.pending.eraseIdx batch
        undo := if batch = 0 then s.undo.tail else [] }
  | .reclaimFullyDeadSegments liveOffsets =>
    { s with
      allocator := (s.allocator.reclaimFullyDeadSegments liveOffsets).2
      undo := if (s.allocator.reclaimFullyDeadSegments liveOffsets).1 = [] then s.undo else [] }
  | .setLifecyclePinned pinned =>
    { s with allocator := s.allocator.setLifecyclePinned pinned }

end SegmentSystem

namespace SegmentAllocator

variable {a b c : SegmentAllocator} {e : Extent} {i n size : Nat} {sizes : List Nat}
  {live live' : List Extent}

/-! ### What a batch changes -/

/-- The second allocator comes from the first by allocations. As long as no segment is taken for
reuse, the open segment only moves up, and no segment outside its way is written. -/
structure Extends (a b : SegmentAllocator) : Prop where
  geometry : b.geometry = a.geometry
  segmentSize : b.segmentSize = a.segmentSize
  segmentCount : b.segmentCount = a.segmentCount
  packed : b.packed = a.packed
  pinned : b.pinned = a.pinned
  dead : ∀ i, (b.segments i).dead = (a.segments i).dead
  free : b.freeSegments <:+ a.freeSegments
  confined : b.freeSegments = a.freeSegments → a.openSegment ≤ b.openSegment ∧
    ∀ i, i < a.openSegment ∨ b.openSegment < i → (b.segments i).used = (a.segments i).used

theorem Extends.refl (a : SegmentAllocator) : a.Extends a :=
  ⟨rfl, rfl, rfl, rfl, rfl, fun _ => rfl, List.suffix_rfl, fun _ => ⟨le_rfl, fun _ _ => rfl⟩⟩

theorem Extends.trans (h : a.Extends b) (h' : b.Extends c) : a.Extends c := by
  refine ⟨h'.geometry.trans h.geometry, h'.segmentSize.trans h.segmentSize,
    h'.segmentCount.trans h.segmentCount, h'.packed.trans h.packed, h'.pinned.trans h.pinned,
    fun i => (h'.dead i).trans (h.dead i), h'.free.trans h.free, fun hsame => ?_⟩
  have hmid : b.freeSegments = a.freeSegments :=
    h.free.eq_of_length_le (hsame ▸ h'.free.length_le)
  obtain ⟨hle, hused⟩ := h.confined hmid
  obtain ⟨hle', hused'⟩ := h'.confined (hsame.trans hmid.symm)
  exact ⟨hle.trans hle', fun i hi => (hused' i (by omega)).trans (hused i (by omega))⟩

theorem extends_advance (h : a.advanceToNextSegment = some b) : a.Extends b := by
  obtain ⟨hsegments, hsize, hcount, hgeometry, hpacked⟩ := advance_frame h
  refine ⟨hgeometry, hsize, hcount, hpacked, advance_pinned h, fun i => by rw [hsegments], ?_, ?_⟩
  · obtain ⟨reused, rest, -, hfree, rfl⟩ | ⟨next, -, -, -, -, rfl⟩ := advance_cases h
    · rw [hfree]
      exact List.suffix_cons reused rest
    · exact List.suffix_rfl
  · intro hsame
    refine ⟨?_, fun i _ => by rw [hsegments]⟩
    obtain ⟨reused, rest, -, hfree, rfl⟩ | ⟨next, -, hlt, -, -, rfl⟩ := advance_cases h
    · rw [hfree] at hsame
      exact absurd hsame.symm (List.cons_ne_self reused rest)
    · exact hlt.le

theorem extends_opens (h : a.Opens b) : a.Extends b := by
  induction h with
  | refl => exact .refl a
  | tail _ hstep ih => exact ih.trans (extends_advance hstep)

section

variable (a) (size) (sizes) (n)

theorem extends_append : a.Extends (a.append n) := by
  refine ⟨rfl, rfl, rfl, rfl, rfl, fun i => ?_, List.suffix_rfl, fun _ => ⟨le_rfl, fun i hi => ?_⟩⟩
  · show (Function.update a.segments a.openSegment _ i).dead = _
    by_cases heq : i = a.openSegment
    · rw [heq, Function.update_self]
    · rw [Function.update_of_ne heq]
  · have hne : i ≠ a.openSegment := by
      rintro rfl
      exact hi.elim (lt_irrefl _) (lt_irrefl _)
    rw [used_append, if_neg hne, Nat.add_zero]

inductive Takes (a : SegmentAllocator) (size : Nat) : Option Extent → SegmentAllocator → Prop
  | full (c : SegmentAllocator) (h : a.Opens c) : a.Takes size none c
  | placed (c : SegmentAllocator) (h : a.Opens c) (hpos : 0 < a.alignReservation size)
      (hfit : c.placement (a.alignReservation size) + a.alignReservation size ≤ c.segmentEnd) :
      a.Takes size
        (some ⟨c.placement (a.alignReservation size), a.alignReservation size⟩)
        (c.append (a.alignReservation size))

theorem takes : a.Takes size (a.allocateRegion size).1 (a.allocateRegion size).2 := by
  unfold allocateRegion
  split
  case h_1 offset b h =>
    obtain ⟨hpos, c, hopens, hfit, rfl, rfl⟩ := allocate_ok h
    exact .placed c hopens hpos hfit
  case h_2 e b h => exact .full b (allocate_error h)

theorem extends_allocateRegion : a.Extends (a.allocateRegion size).2 := by
  have htakes := a.takes size
  generalize a.allocateRegion size = r at htakes
  obtain ⟨region, b⟩ := r
  cases htakes with
  | full c h => exact extends_opens h
  | placed c h hpos hfit => exact (extends_opens h).trans (extends_append c _)

theorem extends_reserveLoop (a : SegmentAllocator) : a.Extends (reserveLoop sizes a).2 := by
  induction sizes generalizing a with
  | nil => exact .refl a
  | cons size sizes ih => exact (extends_allocateRegion a size).trans (ih _)

/-! ### The bytes that are held in a segment -/

def home (a : SegmentAllocator) (e : Extent) : Nat := (e.offset - dataRegionOffset) / a.segmentSize

def heldIn (a : SegmentAllocator) (live : List Extent) (i : Nat) : Nat :=
  ((live.filter fun e => a.home e = i).map Extent.size).sum

theorem heldIn_cons (e : Extent) (live : List Extent) (i : Nat) :
    a.heldIn (e :: live) i = (if a.home e = i then e.size else 0) + a.heldIn live i := by
  by_cases h : a.home e = i <;> simp [heldIn, h]

end

theorem heldIn_congr (hsize : b.segmentSize = a.segmentSize) : b.heldIn = a.heldIn := by
  have hhome : b.home = a.home := funext fun e => by rw [home, home, hsize]
  funext live i
  rw [heldIn, heldIn, hhome]

theorem heldIn_perm (h : live.Perm live') (i : Nat) : a.heldIn live i = a.heldIn live' i :=
  ((h.filter _).map _).sum_nat

theorem heldIn_filter_ne (hnodup : live.Nodup) (he : e ∈ live) (i : Nat) :
    a.heldIn (live.filter (· ≠ e)) i + (if a.home e = i then e.size else 0) = a.heldIn live i := by
  have hfilter : live.filter (· ≠ e) = live.erase e := by
    rw [hnodup.erase_eq_filter]
    exact List.filter_congr fun f _ => by by_cases hf : f = e <;> simp [hf]
  rw [hfilter, heldIn_perm (List.perm_cons_erase he), heldIn_cons, Nat.add_comm]

theorem size_le_heldIn (he : e ∈ live) : e.size ≤ a.heldIn live (a.home e) := by
  rw [heldIn_perm (List.perm_cons_erase he), heldIn_cons, if_pos rfl]
  exact Nat.le_add_right _ _

/-- The regions that are handed out: they share no byte, each is settled, and no segment counts
more dead bytes than it has besides them. -/
structure Holding (a : SegmentAllocator) (live : List Extent) : Prop where
  orderly : a.Orderly
  settled : ∀ e ∈ live, a.Settled e
  disjoint : live.Pairwise fun e f => Disjoint e.bytes f.bytes
  accounts : ∀ i, a.heldIn live i + (a.segments i).dead ≤ (a.segments i).used

section

variable (h : a.Holding live)
include h

theorem Holding.ne {f : Extent} (he : e ∈ live)
    (hdisj : Disjoint e.bytes f.bytes) : e ≠ f := by
  rintro rfl
  obtain ⟨i, hi⟩ := h.settled e he
  have hpos := hi.pos
  have hmem : e.offset ∈ e.bytes := ⟨le_rfl, by rw [Extent.stop]; omega⟩
  exact Set.disjoint_left.mp hdisj hmem hmem

theorem Holding.nodup : live.Nodup :=
  h.disjoint.imp_of_mem fun he _ hdisj => h.ne he hdisj

/-- Only the counters, the list for reuse and the cursor matter. -/
theorem Holding.congr (hsize : b.segmentSize = a.segmentSize)
    (hsegments : b.segments = a.segments) (hfree : b.freeSegments = a.freeSegments)
    (hopen : b.openSegment = a.openSegment) (hcursor : b.cursor = a.cursor) : b.Holding live := by
  have hstart : ∀ i, b.segmentStart i = a.segmentStart i := fun i => by
    rw [segmentStart, segmentStart, hsize]
  refine ⟨⟨hfree ▸ h.orderly.nodup, ?_, ?_, ?_⟩, fun e he => ?_, h.disjoint, fun i => ?_⟩
  · rw [hfree, hsegments]
    exact h.orderly.empty
  · rw [hopen, hfree]
    exact h.orderly.sealed
  · rw [hstart, hopen, hcursor]
    exact h.orderly.inside
  · obtain ⟨i, hi⟩ := h.settled e he
    refine ⟨i, hi.pos, (hstart i).symm ▸ hi.start, ?_, hsegments ▸ hi.used, hfree ▸ hi.kept, ?_⟩
    · rw [hstart, hsize]
      exact hi.stop
    · rw [hopen, hcursor]
      exact hi.behind
  · rw [heldIn_congr hsize, hsegments]
    exact h.accounts i

theorem Holding.opens (hopens : a.Opens b) (ho : b.Orderly) :
    b.Holding live := by
  obtain ⟨hsegments, hsize, -⟩ := opens_frame hopens
  refine ⟨ho, fun e he => (h.settled e he).opens hopens, h.disjoint, fun i => ?_⟩
  rw [heldIn_congr hsize, hsegments]
  exact h.accounts i

theorem Holding.append (hpos : 0 < n)
    (hfit : a.placement n + n ≤ a.segmentEnd) :
    (a.append n).Holding (⟨a.placement n, n⟩ :: live) := by
  have hplace := a.cursor_le_placement n
  have hsettled := settled_append h.orderly hpos hfit
  refine ⟨h.orderly.append, List.forall_mem_cons.mpr ⟨hsettled, fun e he => ?_⟩,
    List.pairwise_cons.mpr ⟨fun e he => ?_, h.disjoint⟩, fun i => ?_⟩
  · exact ((h.settled e he).append h.orderly hfit).1
  · exact ((h.settled e he).append h.orderly hfit).2.symm
  · have hhome : (a.append n).home ⟨a.placement n, n⟩ = a.openSegment :=
      div_of_inside (a := a) hpos (h.orderly.inside.trans hplace) hfit
    have hheld : (a.append n).heldIn live i = a.heldIn live i := rfl
    have haccounts := h.accounts i
    rw [heldIn_cons, hhome, hheld, used_append, (extends_append a n).dead]
    by_cases hi : i = a.openSegment
    · rw [if_pos hi.symm, if_pos hi]
      dsimp only
      omega
    · rw [if_neg (Ne.symm hi), if_neg hi]
      omega

theorem Holding.free (he : e ∈ live) :
    (a.bury (a.home e) e.size).Holding (live.filter (· ≠ e)) := by
  refine ⟨h.orderly.bury _ _, fun f hf => (h.settled f (List.mem_of_mem_filter hf)).bury _ _,
    h.disjoint.filter _, fun i => ?_⟩
  have hsplit := heldIn_filter_ne (a := a) h.nodup he i
  have haccounts := h.accounts i
  show a.heldIn (live.filter (· ≠ e)) i + (Function.update a.segments (a.home e) _ i).dead ≤
    (Function.update a.segments (a.home e) _ i).used
  by_cases hi : i = a.home e
  · rw [hi, Function.update_self]
    rw [if_pos hi.symm] at hsplit
    rw [hi] at hsplit haccounts
    dsimp only
    omega
  · rw [Function.update_of_ne hi]
    omega

theorem Holding.reclaim (liveOffsets : List Nat) :
    (a.reclaimFullyDeadSegments liveOffsets).2.Holding live := by
  -- A segment in which something is held has bytes that are not dead.
  have hnot : ∀ i ∈ a.fullyDead liveOffsets, a.heldIn live i = 0 := by
    intro i hi
    obtain ⟨-, -, -, -, hdead, -⟩ := mem_fullyDead.mp hi
    have := h.accounts i
    omega
  refine ⟨h.orderly.reclaim, fun e he => (h.settled e he).reclaim fun i hi hof => ?_, h.disjoint,
    fun i => ?_⟩
  · have heq : a.home e = i := (segmentOf_eq_some hof).2
    have hle := size_le_heldIn (a := a) he
    obtain ⟨j, hj⟩ := h.settled e he
    have hpos := hj.pos
    rw [heq, hnot i hi] at hle
    omega
  · show a.heldIn live i +
        (if i ∈ a.fullyDead liveOffsets then SegmentMeta.default else a.segments i).dead ≤
      (if i ∈ a.fullyDead liveOffsets then SegmentMeta.default else a.segments i).used
    split_ifs with hi
    · rw [hnot i hi]
      exact le_rfl
    · exact h.accounts i

end

/-! ### Allocating under a pin -/

def stays : List Nat → SegmentAllocator → Bool
  | [], _ => true
  | size :: sizes, a =>
    let n := a.alignReservation size
    if n = 0 ∨ a.segmentSize < n then stays sizes a
    else a.placement n + n ≤ a.segmentEnd && stays sizes (a.append n)

/-- While the lifecycle is pinned, the allocations stay in the open segment, or the frontier is
past every segment that is up for reuse. -/
def PinClear (a : SegmentAllocator) (sizes : List Nat) : Prop :=
  a.pinned = true → stays sizes a = true ∨
    ∀ j ∈ a.freeSegments, j ≤ max a.openSegment a.highestUsed

instance : Decidable (a.PinClear sizes) := inferInstanceAs (Decidable (_ → _))

theorem lastUsed_eq_some {segments : Nat → SegmentMeta} {j : Nat}
    (h : lastUsed segments n = some j) : j < n ∧ 0 < (segments j).used := by
  induction n with
  | zero => exact absurd h nofun
  | succ n ih =>
    rw [lastUsed] at h
    split_ifs at h with hn
    · obtain rfl := Option.some.inj h
      exact ⟨Nat.lt_succ_self n, hn⟩
    · exact ⟨(ih h).1.trans (Nat.lt_succ_self n), (ih h).2⟩

theorem PinClear.cases (h : a.PinClear sizes) : a.Clear ∨ stays sizes a = true := by
  by_cases hstays : stays sizes a = true
  · exact .inr hstays
  refine .inl fun hpin j hj => ?_
  have hle := (h hpin).resolve_left hstays j hj
  rcases le_max_iff.mp hle with hle | hle
  · exact .inl hle
  unfold highestUsed at hle
  cases hlast : lastUsed a.segments a.segmentCount with
  | none =>
    rw [hlast] at hle
    exact .inl hle
  | some k =>
    rw [hlast] at hle
    obtain ⟨hk, hused⟩ := lastUsed_eq_some hlast
    exact .inr ⟨k, hk, hle, hused⟩

theorem allocateRegion_of_stays (h : stays (size :: sizes) a = true) :
    (a.allocateRegion size = (none, a) ∧ stays sizes a = true) ∨
      0 < a.alignReservation size ∧
        a.placement (a.alignReservation size) + a.alignReservation size ≤ a.segmentEnd ∧
        a.allocateRegion size =
          (some ⟨a.placement (a.alignReservation size), a.alignReservation size⟩,
            a.append (a.alignReservation size)) ∧
        stays sizes (a.append (a.alignReservation size)) = true := by
  unfold stays at h
  by_cases hbad : a.alignReservation size = 0 ∨ a.segmentSize < a.alignReservation size
  · rw [if_pos hbad] at h
    have hallocate : a.allocate size = (.error (.deviceFull (a.alignReservation size)
        a.openSegmentRemaining a.openSegment a.segmentSize), a) := if_pos hbad
    exact .inl ⟨by rw [allocateRegion, hallocate], h⟩
  · rw [if_neg hbad, Bool.and_eq_true, decide_eq_true_eq] at h
    have hallocate : a.allocate size = (.ok (a.placement (a.alignReservation size)),
        a.append (a.alignReservation size)) := by
      rw [allocate, if_neg hbad, allocateLoop, if_pos h.1]
    exact .inr ⟨by omega, h.1, by rw [allocateRegion, hallocate], h.2⟩

theorem Holding.allocateRegion (h : a.Holding live)
    (hsafe : a.Clear ∨ stays (size :: sizes) a = true) :
    (a.allocateRegion size).2.Holding ((a.allocateRegion size).1.toList ++ live) ∧
      ((a.allocateRegion size).2.Clear ∨ stays sizes (a.allocateRegion size).2 = true) := by
  rcases hsafe with hclear | hstays
  · have htakes := a.takes size
    generalize a.allocateRegion size = r at htakes
    obtain ⟨region, b⟩ := r
    cases htakes with
    | full c hopens =>
      obtain ⟨ho, hc⟩ := h.orderly.opens hopens hclear
      exact ⟨h.opens hopens ho, .inl hc⟩
    | placed c hopens hpos hfit =>
      obtain ⟨ho, hc⟩ := h.orderly.opens hopens hclear
      exact ⟨(h.opens hopens ho).append hpos hfit, .inl (hc.append _)⟩
  · rcases allocateRegion_of_stays hstays with ⟨heq, hrest⟩ | ⟨hpos, hfit, heq, hrest⟩
    · rw [heq]
      exact ⟨h, .inr hrest⟩
    · rw [heq]
      exact ⟨h.append hpos hfit, .inr hrest⟩

theorem Holding.perm (h : a.Holding live) (hperm : live.Perm live') : a.Holding live' := by
  refine ⟨h.orderly, fun e he => h.settled e (hperm.mem_iff.mpr he), ?_, fun i => ?_⟩
  · exact (hperm.pairwise_iff fun hdisj => hdisj.symm).mp h.disjoint
  · rw [← heldIn_perm hperm]
    exact h.accounts i

theorem Holding.reserveLoop (h : a.Holding live) (hsafe : a.Clear ∨ stays sizes a = true) :
    (reserveLoop sizes a).2.Holding ((reserveLoop sizes a).1.reduceOption ++ live) := by
  induction sizes generalizing a live with
  | nil => exact h
  | cons size sizes ih =>
    obtain ⟨hfirst, hsafe'⟩ := h.allocateRegion hsafe
    have hrest := ih hfirst hsafe'
    show (SegmentAllocator.reserveLoop sizes (a.allocateRegion size).2).2.Holding
      (((a.allocateRegion size).1 ::
        (SegmentAllocator.reserveLoop sizes (a.allocateRegion size).2).1).reduceOption ++ live)
    refine hrest.perm ?_
    cases (a.allocateRegion size).1 with
    | none => exact .refl _
    | some e => exact List.perm_middle

end SegmentAllocator

end TeraSlab.Allocator
