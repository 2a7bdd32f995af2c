import TeraSlab.Recovery.SegmentReuse

/-!
# Online backup

A backup pins the segment lifecycle and copies the segments up to the open one, then those opened
since, in rounds, until few enough are left; the rest is copied while mutations are stalled. Other
requests are served between any two of its looks at the allocator; they are given as the traffic,
one list of steps for each look.

The open segment only moves up while the lifecycle is pinned. It need not be the highest segment
with live records when the backup starts: a reclaimed segment may have been opened below others.
-/

namespace TeraSlab.Backup

open Foundations TeraSlab.Allocator TeraSlab.Index TeraSlab.Recovery

structure BackupParams where
  minHeadroomSegments : Nat
  abortHeadroomSegments : Nat
  stallCopyMaxSegments : Nat
  maxCatchupRounds : Nat

inductive BackupError where
  | insufficientHeadroom (have_ need : Nat)
  | catchupExceeded (rounds : Nat)
deriving DecidableEq, Repr

/-- Segments never opened that are left past the frontier. -/
def virginHeadroomSegments (a : SegmentAllocator) : Nat :=
  a.segmentCount - (max a.openSegment a.highestUsed + 1)

structure BackupRun where
  store : SegmentStore
  clock : Nat
  copied : List Nat

namespace BackupRun

variable (sh : Sharding) (traffic : Nat → List SegmentStep) (p : BackupParams)

def openSegment (r : BackupRun) : Nat := r.store.allocator.openSegment

/-- Look at the allocator after the requests served since the last look. -/
def sample (r : BackupRun) : BackupRun :=
  { r with store := run (SegmentStore.step sh) r.store (traffic r.clock), clock := r.clock + 1 }

def copySegments : List Nat → BackupRun → Except BackupError BackupRun
  | [], r => .ok r
  | k :: ks, r =>
    let r := r.sample sh traffic
    let headroom := virginHeadroomSegments r.store.allocator
    if headroom < p.abortHeadroomSegments then
      .error (.insufficientHeadroom headroom p.abortHeadroomSegments)
    else copySegments ks { r with copied := r.copied ++ [k] }

def segmentRange (start stop : Nat) : List Nat := List.range' start (stop + 1 - start)

def catchUp : Nat → Nat → BackupRun → Except BackupError (Nat × BackupRun)
  | 0, base, r =>
    let r := r.sample sh traffic
    if r.openSegment - base ≤ p.stallCopyMaxSegments then .ok (base, r)
    else .error (.catchupExceeded p.maxCatchupRounds)
  | left + 1, base, r =>
    let r := r.sample sh traffic
    if r.openSegment - base ≤ p.stallCopyMaxSegments then .ok (base, r)
    else
      match copySegments sh traffic p (segmentRange (base + 1) r.openSegment) r with
      | .error e => .error e
      | .ok r' => catchUp left r.openSegment r'

/-- The final stall: no request is served while the rest is copied. -/
def finalStall (base : Nat) (r : BackupRun) : Except BackupError BackupRun :=
  let r := r.sample sh traffic
  if base < r.openSegment then
    copySegments sh (fun _ => []) p (segmentRange (base + 1) r.openSegment) r
  else .ok r

end BackupRun

open BackupRun in
def runBackup (sh : Sharding) (traffic : Nat → List SegmentStep) (p : BackupParams)
    (s : SegmentStore) : Except BackupError BackupRun :=
  let headroom := virginHeadroomSegments s.allocator
  if headroom < p.minHeadroomSegments then
    .error (.insufficientHeadroom headroom p.minHeadroomSegments)
  else
    let pinned : SegmentStore := { s with allocator := s.allocator.setLifecyclePinned true }
    let r := sample sh traffic ⟨pinned, 0, []⟩
    match copySegments sh traffic p (segmentRange 0 r.openSegment) r with
    | .error e => .error e
    | .ok r' =>
      match catchUp sh traffic p p.maxCatchupRounds r.openSegment r' with
      | .error e => .error e
      | .ok (base, r'') => finalStall sh traffic p base r''

/-- The segments of the records that are live at the stall are in the image. -/
def Complete (r : BackupRun) : Prop :=
  ∀ key e i, r.store.index.lookup key = some e → r.store.allocator.segmentOf e.offset = some i →
    i ∈ r.copied

/-- No live record lies above the open segment. -/
def OpenHighest (s : SegmentStore) : Prop :=
  ∀ key e i, s.index.lookup key = some e → s.allocator.segmentOf e.offset = some i →
    i ≤ s.allocator.openSegment

/-! ### The frontier of a pinned allocator -/

section Frontier

variable {a b : SegmentAllocator} {s : SegmentStore}

def Ahead (a b : SegmentAllocator) : Prop :=
  b.pinned = true ∧ a.openSegment ≤ b.openSegment

theorem Ahead.refl (h : a.pinned = true) : Ahead a a := ⟨h, le_rfl⟩

theorem Ahead.trans {c : SegmentAllocator} (h : Ahead a b) (h' : Ahead b c) : Ahead a c :=
  ⟨h'.1, h.2.trans h'.2⟩

theorem ahead_opens (hpin : a.pinned = true) (h : a.Opens b) : Ahead a b := by
  induction h with
  | refl => exact .refl hpin
  | tail _ hstep ih =>
    obtain ⟨reused, rest, hno, -⟩ | ⟨next, -, hlt, -, -, rfl⟩ :=
      SegmentAllocator.advance_cases hstep
    · rw [ih.1] at hno
      cases hno
    · exact ⟨ih.1, ih.2.trans hlt.le⟩

theorem ahead_allocate {size : Nat} {res : Except SegmentAllocatorError Nat}
    (hpin : a.pinned = true) (h : a.allocate size = (res, b)) : Ahead a b := by
  cases res with
  | error e => exact ahead_opens hpin (SegmentAllocator.allocate_error h)
  | ok offset =>
    obtain ⟨c, hopens, -, -, rfl⟩ := (SegmentAllocator.allocate_ok h).placed
    exact (ahead_opens hpin hopens).trans (.refl (ahead_opens hpin hopens).1)

theorem ahead_freed (e : Extent) (hpin : a.pinned = true) : Ahead a (freed a e) := by
  unfold freed
  split
  case h_1 b hb =>
    obtain ⟨seg, -, rfl⟩ := SegmentAllocator.free_ok hb
    exact .refl hpin
  case h_2 => exact .refl hpin

theorem ahead_relocateRecord (key : TxKey) (hpin : s.allocator.pinned = true) :
    Ahead s.allocator (s.relocateRecord key).allocator := by
  unfold SegmentStore.relocateRecord
  split
  · exact .refl hpin
  split
  case h_1 hfail => exact ahead_allocate hpin hfail
  case h_2 hok =>
    have halloc := ahead_allocate hpin hok
    exact halloc.trans (ahead_freed _ halloc.1)

/-- While the lifecycle is pinned, a step does not open a lower segment. -/
theorem ahead_step (sh : Sharding) (st : SegmentStep) (hpin : s.allocator.pinned = true) :
    Ahead s.allocator (s.step sh st).allocator := by
  cases st with
  | create key size =>
    dsimp only [SegmentStore.step, SegmentStore.create]
    split
    · exact .refl hpin
    split
    case h_1 hfail => exact ahead_allocate hpin hfail
    case h_2 hok => exact ahead_allocate hpin hok
  | spend key => exact ahead_relocateRecord key hpin
  | delete key =>
    dsimp only [SegmentStore.step, SegmentStore.delete]
    split
    · exact .refl hpin
    · exact ahead_freed _ hpin
  | compact key =>
    dsimp only [SegmentStore.step]
    split
    · exact ahead_relocateRecord key hpin
    · exact .refl hpin
  | installSnapshot =>
    dsimp only [SegmentStore.step]
    split
    · split <;> exact .refl hpin
    · exact .refl hpin
  | fence | beginSnapshot | snapshotShard | reclaim | persistHeader | redoFence =>
    dsimp only [SegmentStore.step]
    split <;> exact .refl hpin

theorem ahead_run (sh : Sharding) (steps : List SegmentStep) (hpin : s.allocator.pinned = true) :
    Ahead s.allocator (run (SegmentStore.step sh) s steps).allocator := by
  induction steps generalizing s with
  | nil => exact .refl hpin
  | cons st steps ih =>
    have hstep := ahead_step sh st hpin
    exact hstep.trans (ih hstep.1)

end Frontier

/-! ### The segments in the image -/

namespace BackupRun

variable {sh : Sharding} {traffic : Nat → List SegmentStep} {p : BackupParams} {r r' : BackupRun}
  {base : Nat} {ks : List Nat}

structure Through (base : Nat) (r : BackupRun) : Prop where
  pinned : r.store.allocator.pinned = true
  base_le : base ≤ r.openSegment
  copied : ∀ i, i ∈ r.copied ↔ i ≤ base

section

variable (sh) (traffic)

theorem ahead_sample (hpin : r.store.allocator.pinned = true) :
    Ahead r.store.allocator (r.sample sh traffic).store.allocator :=
  ahead_run sh (traffic r.clock) hpin

theorem Through.sample (h : r.Through base) : (r.sample sh traffic).Through base :=
  have hahead := ahead_sample sh traffic h.pinned
  ⟨hahead.1, h.base_le.trans hahead.2, h.copied⟩

end

theorem copySegments_ok (hpin : r.store.allocator.pinned = true)
    (h : copySegments sh traffic p ks r = .ok r') :
    Ahead r.store.allocator r'.store.allocator ∧ r'.copied = r.copied ++ ks := by
  induction ks generalizing r with
  | nil =>
    cases h
    exact ⟨.refl hpin, (List.append_nil _).symm⟩
  | cons k ks ih =>
    rw [copySegments] at h
    split at h
    · cases h
    have hahead := ahead_sample sh traffic hpin
    obtain ⟨hrest, hcopied⟩ := ih
      (r := { r.sample sh traffic with copied := (r.sample sh traffic).copied ++ [k] }) hahead.1 h
    refine ⟨hahead.trans hrest, ?_⟩
    rw [hcopied, List.append_assoc]
    rfl

theorem mem_segmentRange {start stop i : Nat} :
    i ∈ segmentRange start stop ↔ start ≤ i ∧ i ≤ stop := by
  rw [segmentRange, List.mem_range'_1]
  omega

/-- Copying what was opened since brings the image up to the open segment that was seen. -/
theorem Through.copySegments (h : r.Through base)
    (hok : BackupRun.copySegments sh traffic p (segmentRange (base + 1) r.openSegment) r = .ok r') :
    r'.Through r.openSegment := by
  obtain ⟨hahead, hcopied⟩ := copySegments_ok h.pinned hok
  refine ⟨hahead.1, hahead.2, fun i => ?_⟩
  have hbase := h.base_le
  rw [hcopied, List.mem_append, h.copied, mem_segmentRange]
  omega

theorem through_initial (hpin : r.store.allocator.pinned = true) (hnone : r.copied = [])
    (hok : BackupRun.copySegments sh traffic p (segmentRange 0 r.openSegment) r = .ok r') :
    r'.Through r.openSegment := by
  obtain ⟨hahead, hcopied⟩ := copySegments_ok hpin hok
  refine ⟨hahead.1, hahead.2, fun i => ?_⟩
  rw [hcopied, hnone, List.nil_append, mem_segmentRange]
  omega

theorem Through.catchUp {left base' : Nat} (h : r.Through base)
    (hok : BackupRun.catchUp sh traffic p left base r = .ok (base', r')) : r'.Through base' := by
  induction left generalizing base r with
  | zero =>
    rw [BackupRun.catchUp] at hok
    split at hok
    · cases hok
      exact h.sample sh traffic
    · cases hok
  | succ left ih =>
    rw [BackupRun.catchUp] at hok
    split at hok
    · cases hok
      exact h.sample sh traffic
    split at hok
    · cases hok
    case h_2 hcopy => exact ih ((h.sample sh traffic).copySegments hcopy) hok

theorem copySegments_quiet (h : BackupRun.copySegments sh (fun _ => []) p ks r = .ok r') :
    r'.store = r.store := by
  induction ks generalizing r with
  | nil =>
    cases h
    rfl
  | cons k ks ih =>
    rw [BackupRun.copySegments] at h
    split at h
    · cases h
    · exact (ih h).trans rfl

/-- After the final stall the image has the segments up to the one open then. -/
theorem Through.finalStall (h : r.Through base)
    (hok : BackupRun.finalStall sh traffic p base r = .ok r') : r'.Through r'.openSegment := by
  have hsample := h.sample sh traffic
  rw [BackupRun.finalStall] at hok
  by_cases hopen : base < (r.sample sh traffic).openSegment
  · rw [if_pos hopen] at hok
    have hstore : r'.store = (r.sample sh traffic).store := copySegments_quiet hok
    rw [openSegment, hstore]
    exact hsample.copySegments hok
  · rw [if_neg hopen] at hok
    cases hok
    have hbase := hsample.base_le
    have heq : (r.sample sh traffic).openSegment = base := by omega
    rw [heq]
    exact hsample

end BackupRun

open BackupRun in
/-- The image of a backup has exactly the segments up to the one that is open at the stall. -/
theorem runBackup_through {sh : Sharding} {traffic : Nat → List SegmentStep} {p : BackupParams}
    {s : SegmentStore} {r : BackupRun} (h : runBackup sh traffic p s = .ok r) :
    r.Through r.openSegment := by
  unfold runBackup at h
  dsimp only at h
  split at h
  · cases h
  split at h
  · cases h
  case h_2 r₁ hcopy =>
    split at h
    · cases h
    case h_2 base r₂ hcatch =>
      have hthrough := through_initial (ahead_sample sh traffic rfl).1 rfl hcopy
      exact (hthrough.catchUp hcatch).finalStall h

/-- A backup has the segments of all live records exactly when, at the stall, none of them lies
above the open segment. -/
theorem complete_iff_openHighest (sh : Sharding) (traffic : Nat → List SegmentStep)
    (p : BackupParams) (s : SegmentStore) {r : BackupRun}
    (h : runBackup sh traffic p s = .ok r) : Complete r ↔ OpenHighest r.store := by
  have hcopied := (runBackup_through h).copied
  constructor
  · intro hc key e i he hi
    exact (hcopied i).mp (hc key e i he hi)
  · intro ho key e i he hi
    exact (hcopied i).mpr (ho key e i he hi)

/-- The traffic of a store that is not used during the backup. -/
def quiet : Nat → List SegmentStep := fun _ => []

/-- Traffic that opens the last segment before the copy starts. -/
def oneCreate (n : Nat) : List SegmentStep :=
  if n = 0 then [.create (SegmentStore.keyOf 3) (5 * 2 ^ 20)] else []

def smallParams : BackupParams := ⟨1, 0, 1, 1⟩

def appendOnlyStore : SegmentStore :=
  run (SegmentStore.step SegmentStore.oneShard) (.new SegmentStore.threeSegments)
    [.create (SegmentStore.keyOf 1) (5 * 2 ^ 20), .create (SegmentStore.keyOf 2) (5 * 2 ^ 20)]

theorem complete_appendOnly : ∃ r,
    runBackup SegmentStore.oneShard oneCreate smallParams appendOnlyStore = .ok r ∧
      Complete r := by
  obtain ⟨r, hr, hall⟩ : ∃ r,
      runBackup SegmentStore.oneShard oneCreate smallParams appendOnlyStore = .ok r ∧
        ∀ p ∈ r.store.index.entries, ∀ i ∈ r.store.allocator.segmentOf p.2.offset,
          i ≤ r.store.allocator.openSegment := ⟨_, rfl, by decide +kernel⟩
  refine ⟨r, hr, (complete_iff_openHighest _ _ _ _ hr).mpr fun key e i he hi => ?_⟩
  exact hall ⟨key, e⟩ (AList.mem_lookup_iff.mp he) i hi

/-- The first of two records is deleted, its segment is reclaimed, and a third record opens it
again, below the segment of the second. -/
def reusedStore : SegmentStore :=
  run (SegmentStore.step SegmentStore.oneShard) (.new SegmentStore.threeSegments)
    [.create (SegmentStore.keyOf 1) (5 * 2 ^ 20), .create (SegmentStore.keyOf 2) (5 * 2 ^ 20),
      .delete (SegmentStore.keyOf 1), .fence, .beginSnapshot, .snapshotShard, .installSnapshot,
      .reclaim, .persistHeader, .redoFence, .create (SegmentStore.keyOf 3) (5 * 2 ^ 20)]

/-- The image of the reused store does not have the segment of the second record. -/
theorem backup_misses_live_segment : ∃ r,
    runBackup SegmentStore.oneShard quiet smallParams reusedStore = .ok r ∧
      ¬ Complete r := by
  refine ⟨_, rfl, fun h => ?_⟩
  have := h (SegmentStore.keyOf 2) ⟨dataRegionOffset + 5 * 2 ^ 20, 5 * 2 ^ 20⟩ 1
    (by decide +kernel) (by decide +kernel)
  exact absurd this (by decide +kernel)

end TeraSlab.Backup
