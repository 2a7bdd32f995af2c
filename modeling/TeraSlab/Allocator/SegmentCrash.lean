import TeraSlab.Allocator.ReplayLockstep
import TeraSlab.Allocator.SegmentAllocator

/-!
# Crash recovery of the segment allocator

The header keeps the cursor, the open segment and the table of used and dead bytes of one moment.
After a crash `recover` reads it back, `recoverAllocatorFrontiers` moves the cursor behind the
highest live record and rebuilds the list of reusable segments from the live records. The table
itself is not rebuilt: a segment filled since the header was written keeps its old counters.
-/

namespace TeraSlab.Allocator

open Foundations

/-! ### The persisted header -/

inductive SegmentHeaderError where
  | segmentTableOverflow (entries max : Nat)
  | corruptedHeader (reason : String)
deriving DecidableEq, Repr

/-- What the header block of a store holds, once its checksum was found right. -/
structure SegmentHeader where
  packed : Bool
  segmentSize : Nat
  segmentCount : Nat
  openSegment : Nat
  cursor : Nat
  entries : List SegmentMeta
deriving DecidableEq, Repr

def segTableOffset : Nat := 72

def segEntrySize : Nat := 16

def maxPersistedSegments : Nat := (dataRegionOffset - segTableOffset) / segEntrySize

namespace SegmentAllocator

variable (a : SegmentAllocator)

def serializeHeader : Except SegmentHeaderError SegmentHeader :=
  let highestUsed := (lastUsed a.segments a.segmentCount).getD 0
  let entryCount := max a.openSegment highestUsed + 1
  if maxPersistedSegments < entryCount then
    .error (.segmentTableOverflow entryCount maxPersistedSegments)
  else
    .ok { packed := a.packed, segmentSize := a.segmentSize, segmentCount := a.segmentCount,
          openSegment := a.openSegment, cursor := a.cursor,
          entries := (List.range entryCount).map a.segments }

def recover (g : Geometry) (h : SegmentHeader) : Except SegmentHeaderError SegmentAllocator :=
  let dataCapacity := g.deviceSize - dataRegionOffset
  let entryCount := h.entries.length
  let openStart := dataRegionOffset + h.openSegment * h.segmentSize
  let segments := fun i => h.entries.getD i .default
  let gaps := (List.range entryCount).filter fun i => (segments i).used = 0 ∧ i ≠ h.openSegment
  if h.segmentSize = 0 ∨ h.segmentSize % g.alignment ≠ 0 ∨ dataCapacity < h.segmentSize then
    .error (.corruptedHeader "invalid segment_size")
  else if h.segmentCount ≠ dataCapacity / h.segmentSize % 2 ^ 32 then
    .error (.corruptedHeader "segment_count disagrees with device geometry")
  else if entryCount = 0 ∨ maxPersistedSegments < entryCount ∨ h.segmentCount < entryCount ∨
      h.segmentCount ≤ h.openSegment ∨ entryCount ≤ h.openSegment then
    .error (.corruptedHeader "entry_count/open_segment inconsistent")
  else if h.cursor < openStart ∨ openStart + h.segmentSize < h.cursor then
    .error (.corruptedHeader "cursor outside open segment")
  else if ∃ i ∈ gaps, (segments i).dead ≠ 0 then
    .error (.corruptedHeader "segment has dead bytes but zero used")
  else
    .ok { geometry := g, segmentSize := h.segmentSize, segmentCount := h.segmentCount, segments,
          freeSegments := gaps, openSegment := h.openSegment, cursor := h.cursor,
          packed := h.packed, pinned := false }

/-! ### Moving the frontier behind the live records -/

def setCursorAtLeast (stop : Nat) : SegmentAllocator :=
  if stop ≤ a.cursor then a
  else
    let stop := min stop a.geometry.deviceSize
    if stop ≤ a.cursor then a
    else
      let idx := (stop - dataRegionOffset) / a.segmentSize
      { a with cursor := stop, openSegment := min (idx % 2 ^ 32) (a.segmentCount - 1) }

/-- The segments up to the frontier that hold no live record, the open one apart. -/
def recoveredHoles (liveOffsets : List Nat) : List Nat :=
  (List.range (max a.openSegment a.highestUsed + 1)).filter fun idx =>
    idx ≠ a.openSegment ∧ ∀ offset ∈ liveOffsets, a.segmentOf offset ≠ some idx

def reconcileRecoveredFreeList (liveOffsets : List Nat) : SegmentAllocator :=
  let holes := a.recoveredHoles liveOffsets
  { a with
    segments := fun idx => if idx ∈ holes then .default else a.segments idx
    freeSegments := holes }

def highestRecord : List Extent → Option Extent
  | [] => none
  | e :: es =>
    match highestRecord es with
    | none => some e
    | some f => if f.offset ≤ e.offset then some e else some f

/-- Move the cursor behind the live record with the highest offset, to the next block. -/
def liftCursor (live : List Extent) : SegmentAllocator :=
  match highestRecord live with
  | none => a
  | some last =>
    let align := a.geometry.alignment
    a.setCursorAtLeast (divCeil last.stop align * align)

/-- Recover the frontier from the live records: offset and `record_size` of every index entry. -/
def recoverAllocatorFrontiers (live : List Extent) : SegmentAllocator :=
  (a.liftCursor live).reconcileRecoveredFreeList (live.map Extent.offset)

/-- A reservation that finds no segment to reuse opens one that holds none of the records. -/
def OpensVacant (live : List Extent) (alignedSize : Nat) : Nat → SegmentAllocator → Prop
  | 0, _ => True
  | fuel + 1, a => a.placement alignedSize + alignedSize ≤ a.segmentEnd ∨
      ∀ b ∈ a.advanceToNextSegment,
        (a.pinned = true ∨ a.freeSegments = [] →
          ∀ e ∈ live, a.segmentOf e.offset ≠ some b.openSegment) ∧
        OpensVacant live alignedSize fuel b

instance OpensVacant.decidable (live : List Extent) (n : Nat) :
    ∀ fuel a, Decidable (OpensVacant live n fuel a)
  | 0, _ => isTrue trivial
  | fuel + 1, _ =>
    have := OpensVacant.decidable live n fuel
    inferInstanceAs (Decidable (_ ∨ _))

end SegmentAllocator

/-! ### Before the crash -/

structure SegmentLog where
  allocator : SegmentAllocator
  records : List Extent

inductive SegmentLogCall where
  | allocate (size : UInt64)
  /-- Free the record at this place of the list. -/
  | free (place : Nat)
  | reclaim
deriving DecidableEq, Repr

namespace SegmentLog

def step (s : SegmentLog) : SegmentLogCall → SegmentLog
  | .allocate size =>
    match s.allocator.allocate size.toNat with
    | (.ok offset, b) => ⟨b, ⟨offset, size.toNat⟩ :: s.records⟩
    | (.error _, b) => ⟨b, s.records⟩
  | .free place =>
    match s.records[place]? with
    | none => s
    | some r =>
      match s.allocator.free r.offset r.size with
      | .ok b => ⟨b, s.records.eraseIdx place⟩
      | .error _ => s
  | .reclaim =>
    ⟨(s.allocator.reclaimFullyDeadSegments (s.records.map Extent.offset)).2, s.records⟩

end SegmentLog

/-! ### After the crash -/

/-- The recovered allocator and the recovered records that are still live. -/
structure RecoveredLog where
  allocator : SegmentAllocator
  live : List Extent

inductive RecoveredCall where
  | allocate (size : UInt64)
  | free (offset size : Nat)
  /-- Reclaim with the offsets of the live recovered records and of the other live records. -/
  | reclaim (others : List Nat)
  | pin (pinned : Bool)
deriving DecidableEq, Repr

namespace RecoveredLog

def step (s : RecoveredLog) : RecoveredCall → RecoveredLog
  | .allocate size => ⟨(s.allocator.allocate size.toNat).2, s.live⟩
  | .free offset size =>
    match s.allocator.free offset size with
    | .ok b => ⟨b, s.live.filter fun e => e.offset ≠ offset⟩
    | .error _ => s
  | .reclaim others =>
    ⟨(s.allocator.reclaimFullyDeadSegments (s.live.map Extent.offset ++ others)).2, s.live⟩
  | .pin pinned => ⟨s.allocator.setLifecyclePinned pinned, s.live⟩

/-- The region an allocation hands out touches no live recovered record, and no segment that a
step leaves reusable holds one. -/
def Spares (s : RecoveredLog) (call : RecoveredCall) : Prop :=
  (∀ size, call = .allocate size → ∀ offset b,
    s.allocator.allocate size.toNat = (.ok offset, b) → ∀ e ∈ s.live,
      Disjoint e.bytes (Extent.mk offset (s.allocator.alignReservation size.toNat)).bytes) ∧
  ∀ e ∈ (s.step call).live, ∀ i ∈ (s.step call).allocator.freeSegments,
    (s.step call).allocator.segmentOf e.offset ≠ some i

/-- An allocation opens no segment past the ones that count bytes while a live recovered record
lies there. -/
def Counted (s : RecoveredLog) : RecoveredCall → Prop
  | .allocate size =>
    let alignedSize := s.allocator.alignReservation size.toNat
    alignedSize ≤ s.allocator.segmentSize →
      SegmentAllocator.OpensVacant s.live alignedSize (s.allocator.openings + 1) s.allocator
  | _ => True

instance (s : RecoveredLog) : ∀ call, Decidable (s.Counted call)
  | .allocate _ => inferInstanceAs (Decidable (_ → _))
  | .free _ _ => isTrue trivial
  | .reclaim _ => isTrue trivial
  | .pin _ => isTrue trivial

end RecoveredLog

/-! ### What a history keeps -/

variable {live : List Nat} {a b : SegmentAllocator} {e : Extent} {i n size offset : Nat}

namespace SegmentAllocator

structure Bounded (a : SegmentAllocator) : Prop where
  openSegment : a.openSegment < a.segmentCount
  free : ∀ i ∈ a.freeSegments, i < a.segmentCount

def Within (a : SegmentAllocator) (e : Extent) : Prop :=
  ∃ i < a.segmentCount, a.segmentStart i ≤ e.offset ∧ e.stop ≤ a.segmentStart i + a.segmentSize

structure SameLayout (a b : SegmentAllocator) : Prop where
  geometry : b.geometry = a.geometry
  segmentSize : b.segmentSize = a.segmentSize
  segmentCount : b.segmentCount = a.segmentCount

section

variable (h : a.SameLayout b)
include h

theorem SameLayout.symm : b.SameLayout a :=
  ⟨h.geometry.symm, h.segmentSize.symm, h.segmentCount.symm⟩

theorem SameLayout.trans {c : SegmentAllocator} (h' : b.SameLayout c) : a.SameLayout c :=
  ⟨h'.geometry.trans h.geometry, h'.segmentSize.trans h.segmentSize,
    h'.segmentCount.trans h.segmentCount⟩

theorem SameLayout.segmentStart (i : Nat) : b.segmentStart i = a.segmentStart i := by
  rw [SegmentAllocator.segmentStart, SegmentAllocator.segmentStart, h.segmentSize]

theorem SameLayout.within (he : a.Within e) : b.Within e := by
  obtain ⟨i, hi, hstart, hstop⟩ := he
  refine ⟨i, h.segmentCount ▸ hi, ?_, ?_⟩
  · rwa [h.segmentStart]
  · rwa [h.segmentStart, h.segmentSize]

end

theorem Opens.sameLayout (h : a.Opens b) : a.SameLayout b := by
  obtain ⟨-, hsize, hcount, hg, -⟩ := opens_frame h
  exact ⟨hg, hsize, hcount⟩

theorem sameLayout_allocate (a : SegmentAllocator) (size : Nat) :
    a.SameLayout (a.allocate size).2 := by
  rcases h : a.allocate size with ⟨_ | offset, b⟩
  · exact (allocate_error h).sameLayout
  · obtain ⟨c, hopens, -, -, rfl⟩ := (allocate_ok h).placed
    exact hopens.sameLayout.trans ⟨rfl, rfl, rfl⟩

theorem sameLayout_free (h : a.free offset size = .ok b) : a.SameLayout b := by
  obtain ⟨seg, -, rfl⟩ := free_ok h
  exact ⟨rfl, rfl, rfl⟩

theorem Bounded.advance (hb : a.Bounded) (h : a.advanceToNextSegment = some b) : b.Bounded := by
  obtain ⟨reused, rest, -, hfree, rfl⟩ | ⟨next, -, -, hcount, -, rfl⟩ := advance_cases h
  · have hmem := hb.free
    rw [hfree] at hmem
    exact ⟨hmem reused List.mem_cons_self, fun i hi => hmem i (List.mem_cons_of_mem _ hi)⟩
  · exact ⟨hcount, hb.free⟩

theorem Bounded.opens (hb : a.Bounded) (h : a.Opens b) : b.Bounded := by
  induction h with
  | refl => exact hb
  | tail _ hstep ih => exact ih.advance hstep

theorem Bounded.allocated (hb : a.Bounded) (h : a.Allocated size offset b) : b.Bounded := by
  obtain ⟨c, hopens, -, -, rfl⟩ := h.placed
  exact ⟨(hb.opens hopens).openSegment, (hb.opens hopens).free⟩

theorem Bounded.reclaim (hb : a.Bounded) :
    (a.reclaimFullyDeadSegments live).2.Bounded := by
  refine ⟨hb.openSegment, fun i hi => ?_⟩
  rcases List.mem_append.mp hi with hi | hi
  · exact hb.free i hi
  · exact (mem_fullyDead.mp hi).2.1

theorem within_allocated (ht : a.Tidy) (hb : a.Bounded) (h : a.Allocated size offset b) :
    b.Within ⟨offset, a.alignReservation size⟩ := by
  obtain ⟨c, hopens, hfit, rfl, rfl⟩ := h.placed
  have hinside := (ht.opens hopens).inside
  have hplace := c.cursor_le_placement (a.alignReservation size)
  exact ⟨c.openSegment, (hb.opens hopens).openSegment, hinside.trans hplace, hfit⟩

/-- Rounding a 64-bit size up to a power of two gives a size that is no smaller, or wraps to
zero. -/
theorem le_wrap64_divCeil {block : Nat} (hblock : block ∣ 2 ^ 64) (hsize : size < 2 ^ 64) :
    wrap64 (divCeil size block * block) = 0 ∨ size ≤ wrap64 (divCeil size block * block) := by
  have hpos : 0 < block := Nat.pos_of_dvd_of_pos hblock (by decide)
  have hle : divCeil size block * block ≤ 2 ^ 64 := by
    have := Nat.mul_le_mul_right block (divCeil_mono hpos hsize.le)
    rwa [divCeil_mul_of_dvd hblock] at this
  rcases hle.eq_or_lt with heq | hlt
  · left
    rw [heq, wrap64, Nat.mod_self]
  right
  rw [wrap64_of_lt hlt]
  exact le_divCeil_mul size block hpos

theorem le_reservation (hsize : size < 2 ^ 64) (hpos : 0 < a.alignReservation size) :
    size ≤ a.alignReservation size := by
  have hblock : a.geometry.alignment ∣ 2 ^ 64 := by
    obtain ⟨k, hk⟩ := a.geometry.alignment_pow
    have hmax := a.geometry.alignment_max
    rw [hk] at hmax ⊢
    exact Nat.pow_dvd_pow 2 (by have := (Nat.pow_le_pow_iff_right (by decide)).mp hmax; omega)
  have hrecord : recordAlign ∣ 2 ^ 64 := by decide
  have hrounds : a.alignReservation size = 0 ∨ size ≤ a.alignReservation size := by
    unfold alignReservation
    dsimp only
    split_ifs
    · exact le_wrap64_divCeil hblock hsize
    · exact le_wrap64_divCeil hrecord hsize
    · exact le_wrap64_divCeil hblock hsize
  omega

theorem alignReservation_zero (a : SegmentAllocator) : a.alignReservation 0 = 0 := by
  simp [alignReservation, divCeil, wrap64]

theorem Settled.shrink (h : a.Settled ⟨offset, n⟩) (hpos : 0 < size) (hle : size ≤ n) :
    a.Settled ⟨offset, size⟩ := by
  obtain ⟨i, hi⟩ := h
  have hstop := hi.stop
  have hbehind := hi.behind
  rw [Extent.stop_mk] at hstop hbehind
  refine ⟨i, hpos, hi.start, ?_, hi.used, hi.kept, fun h => ?_⟩
  · rw [Extent.stop_mk]
    omega
  rw [Extent.stop_mk]
  omega

theorem Within.shrink (h : a.Within ⟨offset, n⟩) (hle : size ≤ n) : a.Within ⟨offset, size⟩ := by
  obtain ⟨i, hi, hstart, hstop⟩ := h
  rw [Extent.stop_mk] at hstop
  refine ⟨i, hi, hstart, ?_⟩
  rw [Extent.stop_mk]
  omega

end SegmentAllocator

variable {g : Geometry} {packed : Bool}

namespace SegmentLog

open SegmentAllocator

variable {s : SegmentLog}

theorem sameLayout_step (s : SegmentLog) (call : SegmentLogCall) :
    s.allocator.SameLayout (s.step call).allocator := by
  cases call with
  | allocate size =>
    have hlayout := s.allocator.sameLayout_allocate size.toNat
    rw [step]
    split <;> rename_i hcall <;> rwa [hcall] at hlayout
  | free place =>
    rw [step]
    split
    · exact ⟨rfl, rfl, rfl⟩
    split
    case h_1 hfree => exact sameLayout_free hfree
    case h_2 => exact ⟨rfl, rfl, rfl⟩
  | reclaim => exact ⟨rfl, rfl, rfl⟩

theorem sameLayout_run (s : SegmentLog) (calls : List SegmentLogCall) :
    s.allocator.SameLayout (Foundations.run step s calls).allocator := by
  induction calls generalizing s with
  | nil => exact ⟨rfl, rfl, rfl⟩
  | cons call calls ih => exact (s.sameLayout_step call).trans (ih (s.step call))

/-- Along a history the records are settled, lie in one segment each and share no byte. -/
structure Sound (s : SegmentLog) : Prop where
  tidy : s.allocator.Tidy
  bounded : s.allocator.Bounded
  settled : ∀ r ∈ s.records, s.allocator.Settled r
  within : ∀ r ∈ s.records, s.allocator.Within r
  disjoint : s.records.Pairwise fun e f => Disjoint e.bytes f.bytes

theorem Sound.allocate (h : s.Sound) (size : UInt64) : (s.step (.allocate size)).Sound := by
  have hlayout := s.allocator.sameLayout_allocate size.toNat
  rw [step]
  rcases hcall : s.allocator.allocate size.toNat with ⟨_ | offset, b⟩
  · rw [hcall] at hlayout
    have hopens := allocate_error hcall
    exact ⟨h.tidy.opens hopens, h.bounded.opens hopens,
      fun r hr => (h.settled r hr).opens hopens, fun r hr => hlayout.within (h.within r hr),
      h.disjoint⟩
  · rw [hcall] at hlayout
    have hok := allocate_ok hcall
    have hle := le_reservation size.toNat_lt hok.pos
    have hpos : 0 < size.toNat := by
      rcases Nat.eq_zero_or_pos size.toNat with hzero | hpos
      · have := hok.pos
        rw [hzero, alignReservation_zero] at this
        omega
      · exact hpos
    refine ⟨h.tidy.allocated hok, h.bounded.allocated hok, ?_, ?_, ?_⟩
    · intro r hr
      rcases List.mem_cons.mp hr with rfl | hr
      · exact (settled_allocated h.tidy hok).shrink hpos hle
      · exact ((h.settled r hr).allocated h.tidy hok).1
    · intro r hr
      rcases List.mem_cons.mp hr with rfl | hr
      · exact (within_allocated h.tidy h.bounded hok).shrink hle
      · exact hlayout.within (h.within r hr)
    · refine List.pairwise_cons.mpr ⟨fun r hr => ?_, h.disjoint⟩
      have hdisj := ((h.settled r hr).allocated h.tidy hok).2
      refine (hdisj.mono_right ?_).symm
      intro x hx
      rw [Extent.mem_bytes, Extent.stop_mk] at hx ⊢
      dsimp only at hx ⊢
      omega

theorem Sound.free (h : s.Sound) (place : Nat) : (s.step (.free place)).Sound := by
  rw [step]
  split
  · exact h
  case h_2 r _ =>
    split
    case h_1 b hfree =>
      have hsub : s.records.eraseIdx place ⊆ s.records := (List.eraseIdx_sublist ..).subset
      have hlayout := sameLayout_free hfree
      refine ⟨h.tidy.free hfree, ?_,
        fun r hr => (h.settled r (hsub hr)).free hfree,
        fun r hr => hlayout.within (h.within r (hsub hr)),
        h.disjoint.sublist (List.eraseIdx_sublist ..)⟩
      obtain ⟨seg, -, rfl⟩ := free_ok hfree
      exact ⟨h.bounded.openSegment, h.bounded.free⟩
    case h_2 => exact h

theorem Sound.reclaim (h : s.Sound) : (s.step .reclaim).Sound := by
  refine ⟨h.tidy.reclaim, h.bounded.reclaim,
    fun r hr => (h.settled r hr).reclaim ?_, h.within, h.disjoint⟩
  intro i hi
  exact (mem_fullyDead.mp hi).2.2.2.2.2 r.offset (List.mem_map_of_mem hr)

theorem Sound.step (h : s.Sound) (call : SegmentLogCall) : (s.step call).Sound := by
  cases call with
  | allocate size => exact h.allocate size
  | free place => exact h.free place
  | reclaim => exact h.reclaim

theorem Sound.run (h : s.Sound) (calls : List SegmentLogCall) :
    (Foundations.run SegmentLog.step s calls).Sound :=
  List.foldlRecOn calls _ h fun _ h call _ => h.step call

theorem sound_new {segmentSize : Nat} (h : SegmentAllocator.new g segmentSize packed = .ok a)
    (hcount : 0 < a.segmentCount) : Sound ⟨a, []⟩ := by
  have hopen : a.openSegment = 0 ∧ a.freeSegments = [] := by
    unfold SegmentAllocator.new at h
    dsimp only at h
    split at h
    · cases h
    · cases h
      exact ⟨rfl, rfl⟩
  refine ⟨tidy_new h, ⟨hopen.1 ▸ hcount, ?_⟩, nofun, nofun, .nil⟩
  rw [hopen.2]
  exact nofun

/-- Of two records the one that starts later stops later. -/
theorem Sound.stop_le (h : s.Sound) {f : Extent} (he : e ∈ s.records) (hf : f ∈ s.records)
    (hle : e.offset ≤ f.offset) : e.stop ≤ f.stop := by
  by_cases heq : e = f
  · rw [heq]
  have hdisj := h.disjoint.forall he hf heq
  obtain ⟨j, hj⟩ := h.settled f hf
  have hpos' := hj.pos
  have := Extent.not_meets_iff.mpr hdisj
  unfold Extent.Meets Extent.stop at this
  unfold Extent.stop
  omega

end SegmentLog

/-! ### The recovered allocator -/

namespace SegmentAllocator

theorem serializeHeader_ok {h : SegmentHeader} (hok : a.serializeHeader = .ok h) :
    h.segmentSize = a.segmentSize ∧ h.segmentCount = a.segmentCount := by
  unfold serializeHeader at hok
  dsimp only at hok
  split at hok
  · cases hok
  · cases hok
    exact ⟨rfl, rfl⟩

structure Recovered (g : Geometry) (h : SegmentHeader) (a : SegmentAllocator) : Prop where
  geometry : a.geometry = g
  segmentSize : a.segmentSize = h.segmentSize
  segmentCount : a.segmentCount = h.segmentCount
  inside : a.segmentStart a.openSegment ≤ a.cursor
  bounded : a.openSegment < a.segmentCount
  device : dataRegionOffset ≤ g.deviceSize
  capacity : a.segmentCount * a.segmentSize ≤ g.deviceSize - dataRegionOffset

theorem recover_ok {h : SegmentHeader} (hok : recover g h = .ok a) :
    Recovered g h a := by
  unfold recover at hok
  dsimp only at hok
  split_ifs at hok with hsize hcount hentries hcursor hgaps
  cases hok
  refine ⟨rfl, rfl, rfl, ?_, ?_, by omega, ?_⟩
  · dsimp only [segmentStart]
    omega
  · dsimp only
    omega
  · have heq := not_not.mp hcount
    calc h.segmentCount * h.segmentSize
        ≤ (g.deviceSize - dataRegionOffset) / h.segmentSize * h.segmentSize := by
          rw [heq]
          exact Nat.mul_le_mul_right _ (Nat.mod_le _ _)
      _ ≤ g.deviceSize - dataRegionOffset := Nat.div_mul_le_self _ _

def Inside (a : SegmentAllocator) : Prop := a.segmentStart a.openSegment ≤ a.cursor

/-- The region lies in a segment that is not reusable, behind the cursor if it is the open one.
Unlike a settled region its segment may count no bytes. -/
structure PlacedIn (a : SegmentAllocator) (i : Nat) (e : Extent) : Prop where
  pos : 0 < e.size
  bounded : i < a.segmentCount
  start : a.segmentStart i ≤ e.offset
  stop : e.stop ≤ a.segmentStart i + a.segmentSize
  kept : i ∉ a.freeSegments
  behind : i = a.openSegment → e.stop ≤ a.cursor

theorem PlacedIn.segmentOf (h : a.PlacedIn i e) : a.segmentOf e.offset = some i :=
  segmentOf_of_inside h.pos h.bounded h.start h.stop

section

variable (a) (stop : Nat)

theorem setCursorAtLeast_cases :
    (min stop a.geometry.deviceSize ≤ a.cursor ∧ a.setCursorAtLeast stop = a) ∨
      ∃ idx ≤ (min stop a.geometry.deviceSize - dataRegionOffset) / a.segmentSize,
        a.setCursorAtLeast stop =
          { a with cursor := min stop a.geometry.deviceSize, openSegment := idx } := by
  unfold setCursorAtLeast
  by_cases hle : stop ≤ a.cursor
  · exact .inl ⟨by omega, if_pos hle⟩
  rw [if_neg hle]
  by_cases hle' : min stop a.geometry.deviceSize ≤ a.cursor
  · exact .inl ⟨hle', if_pos hle'⟩
  · rw [if_neg hle']
    exact .inr ⟨_, (Nat.min_le_left _ _).trans (Nat.mod_le _ _), rfl⟩

theorem sameLayout_setCursorAtLeast : a.SameLayout (a.setCursorAtLeast stop) := by
  obtain ⟨-, heq⟩ | ⟨idx, -, heq⟩ := a.setCursorAtLeast_cases stop <;> rw [heq] <;>
    exact ⟨rfl, rfl, rfl⟩

theorem le_cursor_setCursorAtLeast :
    min stop a.geometry.deviceSize ≤ (a.setCursorAtLeast stop).cursor := by
  obtain ⟨hle, heq⟩ | ⟨idx, -, heq⟩ := a.setCursorAtLeast_cases stop <;> rw [heq]
  exact hle

end

theorem inside_setCursorAtLeast (stop : Nat) (hstop : dataRegionOffset ≤ stop)
    (hdevice : dataRegionOffset ≤ a.geometry.deviceSize)
    (hinside : a.Inside) : (a.setCursorAtLeast stop).Inside := by
  obtain ⟨-, heq⟩ | ⟨idx, hidx, heq⟩ := a.setCursorAtLeast_cases stop <;> rw [heq]
  · exact hinside
  show dataRegionOffset + idx * a.segmentSize ≤ min stop a.geometry.deviceSize
  have hmul := Nat.mul_le_mul_right a.segmentSize hidx
  have hdiv := Nat.div_mul_le_self (min stop a.geometry.deviceSize - dataRegionOffset)
    a.segmentSize
  omega

theorem mem_recoveredHoles (h : i ∈ a.recoveredHoles live) :
    i ≠ a.openSegment ∧ ∀ offset ∈ live, a.segmentOf offset ≠ some i := by
  have := (List.mem_filter.mp h).2
  simpa using this

theorem highestRecord_max {es : List Extent} (he : e ∈ es) :
    ∃ last ∈ es, highestRecord es = some last ∧ e.offset ≤ last.offset := by
  induction es generalizing e with
  | nil => cases he
  | cons f es ih =>
    cases es with
    | nil =>
      rw [List.mem_singleton] at he
      exact ⟨f, List.mem_cons_self, rfl, he ▸ le_rfl⟩
    | cons f' es =>
      obtain ⟨last, hmem, hlast, -⟩ := ih List.mem_cons_self
      have hmax : ∀ e ∈ f' :: es, e.offset ≤ last.offset := by
        intro e he
        obtain ⟨last', -, hlast', hle⟩ := ih he
        cases hlast.symm.trans hlast'
        exact hle
      rw [highestRecord, hlast]
      by_cases hle : last.offset ≤ f.offset
      · refine ⟨f, List.mem_cons_self, if_pos hle, ?_⟩
        rcases List.mem_cons.mp he with rfl | he
        · exact le_rfl
        · exact (hmax e he).trans hle
      · refine ⟨last, List.mem_cons_of_mem _ hmem, if_neg hle, ?_⟩
        rcases List.mem_cons.mp he with rfl | he
        · omega
        · exact hmax e he

theorem sameLayout_liftCursor (a : SegmentAllocator) (live : List Extent) :
    a.SameLayout (a.liftCursor live) := by
  unfold liftCursor
  split
  · exact ⟨rfl, rfl, rfl⟩
  · exact a.sameLayout_setCursorAtLeast _

theorem Recovered.stop_le {h : SegmentHeader} (hrec : Recovered g h a)
    (he : a.Within e) : dataRegionOffset ≤ e.stop ∧ e.stop ≤ g.deviceSize := by
  obtain ⟨i, hi, hstart, hstop⟩ := he
  have hmul := Nat.mul_le_mul_right a.segmentSize (Nat.succ_le_of_lt hi)
  have hcap := hrec.capacity
  have hdev := hrec.device
  rw [Nat.succ_mul] at hmul
  unfold segmentStart at hstart hstop
  unfold Extent.stop at hstop ⊢
  omega

section LiftCursor

variable {h : SegmentHeader} {live : List Extent} (hrec : Recovered g h a)
  (hwithin : ∀ e ∈ live, a.Within e)
include hrec hwithin

theorem inside_liftCursor : (a.liftCursor live).Inside := by
  have halign := a.geometry.alignment_min
  cases live with
  | nil => exact hrec.inside
  | cons e es =>
    obtain ⟨last, hmem, hlast, -⟩ := highestRecord_max (List.mem_cons_self (a := e) (l := es))
    have hstop := (hrec.stop_le (hwithin last hmem)).1
    rw [liftCursor, hlast]
    refine inside_setCursorAtLeast _ (hstop.trans (le_divCeil_mul _ _ (by omega))) ?_ hrec.inside
    rw [hrec.geometry]
    exact hrec.device

/-- Of live records that do not overlap, the one with the highest offset stops last, and the
cursor ends up behind it. -/
theorem stop_le_cursor_liftCursor
    (horder : ∀ e ∈ live, ∀ f ∈ live, e.offset ≤ f.offset → e.stop ≤ f.stop) (he : e ∈ live) :
    e.stop ≤ (a.liftCursor live).cursor := by
  have halign := a.geometry.alignment_min
  obtain ⟨last, hmem, hlast, hle⟩ := highestRecord_max he
  have hstop := horder e he last hmem hle
  have hdevice := (hrec.stop_le (hwithin last hmem)).2
  have hround := le_divCeil_mul last.stop a.geometry.alignment (by omega)
  rw [liftCursor, hlast]
  refine le_trans ?_ (a.le_cursor_setCursorAtLeast _)
  rw [hrec.geometry] at hround ⊢
  omega

end LiftCursor

theorem placedIn_reconcile (hpos : 0 < e.size) (he : a.Within e)
    (hmem : e.offset ∈ live) (hstop : e.stop ≤ a.cursor) :
    ∃ i, (a.reconcileRecoveredFreeList live).PlacedIn i e := by
  obtain ⟨i, hi, hstart, hend⟩ := he
  refine ⟨i, hpos, hi, hstart, hend, fun hhole => ?_, fun _ => hstop⟩
  exact (mem_recoveredHoles hhole).2 _ hmem (segmentOf_of_inside hpos hi hstart hend)

/-! ### What a later call does -/

section Advance

variable (h : a.advanceToNextSegment = some b)
include h

theorem inside_advance : b.Inside := by
  obtain ⟨reused, rest, -, -, rfl⟩ | ⟨next, -, -, -, -, rfl⟩ := advance_cases h <;> exact le_rfl

/-- A segment that is reused holds no placed region. -/
theorem PlacedIn.advance (he : a.PlacedIn i e)
    (hvacant : a.pinned = true ∨ a.freeSegments = [] →
      a.segmentOf e.offset ≠ some b.openSegment) : b.PlacedIn i e := by
  obtain ⟨reused, rest, -, hfree, rfl⟩ | ⟨next, hno, -, -, -, rfl⟩ := advance_cases h
  · have hkept := hfree ▸ he.kept
    refine ⟨he.pos, he.bounded, he.start, he.stop, fun hi => hkept (.tail _ hi), ?_⟩
    rintro rfl
    exact absurd (.head _) hkept
  · refine ⟨he.pos, he.bounded, he.start, he.stop, he.kept, ?_⟩
    rintro rfl
    exact absurd he.segmentOf (hvacant hno)

end Advance

theorem inside_opens (hinside : a.Inside) (h : a.Opens b) : b.Inside := by
  cases h with
  | refl => exact hinside
  | tail _ hstep => exact inside_advance hstep

section Append

variable (hinside : a.Inside)
include hinside

theorem inside_append (n : Nat) : (a.append n).Inside :=
  hinside.trans ((a.cursor_le_placement n).trans (Nat.le_add_right _ n))

theorem PlacedIn.append (he : a.PlacedIn i e) (hfit : a.placement n + n ≤ a.segmentEnd) :
    (a.append n).PlacedIn i e ∧ Disjoint e.bytes (Extent.mk (a.placement n) n).bytes := by
  obtain ⟨hbehind, hdisj⟩ := disjoint_append hinside hfit he.start he.stop he.behind
  exact ⟨⟨he.pos, he.bounded, he.start, he.stop, he.kept, hbehind⟩, hdisj⟩

end Append

theorem inside_allocate (hinside : a.Inside) (size : Nat) : (a.allocate size).2.Inside := by
  rcases h : a.allocate size with ⟨_ | offset, b⟩
  · exact inside_opens hinside (allocate_error h)
  · obtain ⟨c, hopens, -, -, rfl⟩ := (allocate_ok h).placed
    exact inside_append (inside_opens hinside hopens) _

section Vacant

variable {live : List Extent} (hmem : e ∈ live)
include hmem

theorem PlacedIn.allocateLoop {fuel : Nat} (he : a.PlacedIn i e) (hinside : a.Inside)
    (hvacant : OpensVacant live n fuel a) :
    (allocateLoop n fuel a).2.PlacedIn i e ∧
      ∀ offset b, SegmentAllocator.allocateLoop n fuel a = (.ok offset, b) →
        Disjoint e.bytes (Extent.mk offset n).bytes := by
  induction fuel generalizing a with
  | zero => exact ⟨he, fun _ _ h => by cases h⟩
  | succ fuel ih =>
    rw [SegmentAllocator.allocateLoop]
    by_cases hfit : a.placement n + n ≤ a.segmentEnd
    · rw [if_pos hfit]
      refine ⟨(he.append hinside hfit).1, fun _ _ h => ?_⟩
      cases h
      exact (he.append hinside hfit).2
    rw [if_neg hfit]
    split
    case h_1 b hb =>
      obtain ⟨hopen, hrest⟩ := hvacant.resolve_left hfit b hb
      exact ih (he.advance hb fun hno => hopen hno e hmem) (inside_advance hb) hrest
    case h_2 => exact ⟨he, fun _ _ h => by cases h⟩

/-- A placed region is not handed out again, unless its segment is opened past the ones that count
bytes. -/
theorem PlacedIn.allocate (he : a.PlacedIn i e) (hinside : a.Inside)
    (hvacant : a.alignReservation size ≤ a.segmentSize →
      OpensVacant live (a.alignReservation size) (a.openings + 1) a) :
    (a.allocate size).2.PlacedIn i e ∧ ∀ offset b, a.allocate size = (.ok offset, b) →
      Disjoint e.bytes (Extent.mk offset (a.alignReservation size)).bytes := by
  rw [SegmentAllocator.allocate]
  split
  · exact ⟨he, fun _ _ h => by cases h⟩
  · exact he.allocateLoop hmem hinside (hvacant (by omega))

end Vacant

theorem PlacedIn.reclaim (he : a.PlacedIn i e) (hmem : e.offset ∈ live) :
    (a.reclaimFullyDeadSegments live).2.PlacedIn i e := by
  refine ⟨he.pos, he.bounded, he.start, he.stop, fun hfree => ?_, he.behind⟩
  rcases List.mem_append.mp hfree with hfree | hfree
  · exact he.kept hfree
  · exact (mem_fullyDead.mp hfree).2.2.2.2.2 _ hmem he.segmentOf

end SegmentAllocator

namespace RecoveredLog

open SegmentAllocator

variable {s : RecoveredLog} {call : RecoveredCall}

structure Held (s : RecoveredLog) : Prop where
  inside : s.allocator.segmentStart s.allocator.openSegment ≤ s.allocator.cursor
  placed : ∀ e ∈ s.live, ∃ i, s.allocator.PlacedIn i e

theorem Held.not_reusable (h : s.Held) :
    ∀ e ∈ s.live, ∀ i ∈ s.allocator.freeSegments, s.allocator.segmentOf e.offset ≠ some i := by
  intro e he i hi hof
  obtain ⟨j, hj⟩ := h.placed e he
  cases hj.segmentOf.symm.trans hof
  exact hj.kept hi

theorem Held.placed_allocate (h : s.Held) {size : UInt64} (hcounted : s.Counted (.allocate size))
    (he : e ∈ s.live) : ∃ i, (s.allocator.allocate size.toNat).2.PlacedIn i e ∧
      ∀ offset b, s.allocator.allocate size.toNat = (.ok offset, b) →
        Disjoint e.bytes (Extent.mk offset (s.allocator.alignReservation size.toNat)).bytes := by
  obtain ⟨i, hi⟩ := h.placed e he
  exact ⟨i, hi.allocate he h.inside hcounted⟩

theorem Held.step (h : s.Held) (hcounted : s.Counted call) : (s.step call).Held := by
  cases call with
  | allocate size =>
    refine ⟨inside_allocate h.inside size.toNat, fun e he => ?_⟩
    obtain ⟨i, hi, -⟩ := h.placed_allocate hcounted he
    exact ⟨i, hi⟩
  | free offset size =>
    rw [RecoveredLog.step]
    split
    case h_1 b hfree =>
      obtain ⟨seg, -, rfl⟩ := free_ok hfree
      refine ⟨h.inside, fun e he => ?_⟩
      obtain ⟨i, hi⟩ := h.placed e (List.mem_of_mem_filter he)
      exact ⟨i, hi.pos, hi.bounded, hi.start, hi.stop, hi.kept, hi.behind⟩
    case h_2 => exact h
  | reclaim others =>
    refine ⟨h.inside, fun e he => ?_⟩
    obtain ⟨i, hi⟩ := h.placed e he
    exact ⟨i, hi.reclaim (List.mem_append_left _ (List.mem_map_of_mem he))⟩
  | pin pinned =>
    refine ⟨h.inside, fun e he => ?_⟩
    obtain ⟨i, hi⟩ := h.placed e he
    exact ⟨i, hi.pos, hi.bounded, hi.start, hi.stop, hi.kept, hi.behind⟩

theorem Held.spares (h : s.Held) (hcounted : s.Counted call) : s.Spares call := by
  refine ⟨?_, (h.step hcounted).not_reusable⟩
  rintro size rfl offset b hok e he
  obtain ⟨i, -, hdisj⟩ := h.placed_allocate hcounted he
  exact hdisj offset b hok

/-- Recovery from a header of the history leaves every live record placed. -/
theorem held_recovered {segmentSize : Nat} {recovered : SegmentAllocator}
    {before after : List SegmentLogCall} {header : SegmentHeader} {live : List Extent}
    (hnew : SegmentAllocator.new g segmentSize packed = .ok a)
    (hheader : (run SegmentLog.step ⟨a, []⟩ before).allocator.serializeHeader = .ok header)
    (hlive : live ⊆ (run SegmentLog.step ⟨a, []⟩ (before ++ after)).records)
    (hrecover : recover g header = .ok recovered) :
    Held ⟨recovered.recoverAllocatorFrontiers live, live⟩ := by
  have hrec := recover_ok hrecover
  obtain ⟨hsize, hcount⟩ := serializeHeader_ok hheader
  have hbefore := SegmentLog.sameLayout_run ⟨a, []⟩ before
  have hcommon : a.segmentSize = recovered.segmentSize ∧
      a.segmentCount = recovered.segmentCount := by
    rw [hrec.segmentSize, hrec.segmentCount, hsize, hcount]
    exact ⟨hbefore.segmentSize.symm, hbefore.segmentCount.symm⟩
  have hsound : (run SegmentLog.step ⟨a, []⟩ (before ++ after)).Sound :=
    (SegmentLog.sound_new hnew (by have := hrec.bounded; omega)).run _
  have hend := (SegmentLog.sameLayout_run ⟨a, []⟩ (before ++ after)).symm
  have hwithin : ∀ e ∈ live, recovered.Within e := by
    intro e he
    obtain ⟨i, hi, hstart, hstop⟩ := hend.within (hsound.within e (hlive he))
    unfold segmentStart at hstart hstop
    rw [hcommon.1] at hstart hstop
    exact ⟨i, hcommon.2 ▸ hi, hstart, hstop⟩
  refine ⟨inside_liftCursor hrec hwithin, fun e he => ?_⟩
  obtain ⟨i, hi⟩ := hsound.settled e (hlive he)
  refine placedIn_reconcile hi.pos ?_ (List.mem_map_of_mem he) ?_
  · exact (recovered.sameLayout_liftCursor live).within (hwithin e he)
  · exact stop_le_cursor_liftCursor hrec hwithin
      (fun e he f hf => hsound.stop_le (hlive he) (hlive hf)) he

/-- After every history, from every header written along it and with any of its records live:
as long as no segment past the ones that count bytes is opened while a live recovered record lies
there, no later allocation touches such a record and no segment that holds one becomes
reusable. -/
theorem spares_live_of_counted (g : Geometry) (segmentSize : Nat) (packed : Bool)
    (a recovered : SegmentAllocator) (before after : List SegmentLogCall) (header : SegmentHeader)
    (live : List Extent) (later : List RecoveredCall)
    (hnew : SegmentAllocator.new g segmentSize packed = .ok a)
    (hheader : (run SegmentLog.step ⟨a, []⟩ before).allocator.serializeHeader = .ok header)
    (hlive : live ⊆ (run SegmentLog.step ⟨a, []⟩ (before ++ after)).records)
    (hrecover : recover g header = .ok recovered)
    (hcounted : Guarded step Counted ⟨recovered.recoverAllocatorFrontiers live, live⟩ later) :
    Guarded step Spares ⟨recovered.recoverAllocatorFrontiers live, live⟩ later :=
  hcounted.of_invariant (fun _ _ h hc => ⟨h.spares hc, h.step hc⟩)
    (held_recovered hnew hheader hlive hrecover)

def fourSegments : Geometry where
  deviceSize := dataRegionOffset + 4096
  alignment := 512
  alignment_pow := ⟨9, rfl⟩
  alignment_min := le_rfl
  alignment_max := by decide
  deviceSize_max := by decide

theorem spares_live_demo : ∃ a header recovered,
    SegmentAllocator.new fourSegments 1024 false = .ok a ∧
    (run SegmentLog.step ⟨a, []⟩ [.allocate 1024, .allocate 512]).allocator.serializeHeader =
      .ok header ∧
    recover fourSegments header = .ok recovered ∧
    Guarded step Spares
      ⟨recovered.recoverAllocatorFrontiers [⟨dataRegionOffset + 1024, 512⟩],
        [⟨dataRegionOffset + 1024, 512⟩]⟩
      [.allocate 1024, .reclaim [], .allocate 512, .allocate 1024] := by
  refine ⟨_, _, _, rfl, rfl, rfl, ?_⟩
  exact spares_live_of_counted fourSegments 1024 false _ _ [.allocate 1024, .allocate 512]
    [.free 1] _ _ _ rfl rfl (by decide +kernel) rfl (by decide +kernel)

/-- The header is written before the first record. Records fill the first three segments and half
of the last one, and the first two are freed. After recovery two segments are reused, and the
third allocation opens the segment that holds the third record. -/
theorem uncounted_segment_reopened : ∃ a header recovered,
    SegmentAllocator.new fourSegments 1024 false = .ok a ∧
    (run SegmentLog.step ⟨a, []⟩ []).allocator.serializeHeader = .ok header ∧
    recover fourSegments header = .ok recovered ∧
    [⟨dataRegionOffset + 3072, 512⟩, ⟨dataRegionOffset + 2048, 1024⟩] ⊆
      (run SegmentLog.step ⟨a, []⟩ ([] ++ [.allocate 1024, .allocate 1024, .allocate 1024,
        .allocate 512, .free 3, .free 2])).records ∧
    ¬ Guarded step Spares
      ⟨recovered.recoverAllocatorFrontiers
          [⟨dataRegionOffset + 3072, 512⟩, ⟨dataRegionOffset + 2048, 1024⟩],
        [⟨dataRegionOffset + 3072, 512⟩, ⟨dataRegionOffset + 2048, 1024⟩]⟩
      [.allocate 1024, .allocate 1024, .allocate 1024] := by
  refine ⟨_, _, _, rfl, rfl, rfl, by decide +kernel, ?_⟩
  rintro ⟨-, -, ⟨hdisj, -⟩, -⟩
  have := hdisj 1024 rfl (dataRegionOffset + 2048) _ (by rfl)
    ⟨dataRegionOffset + 2048, 1024⟩ (by decide)
  exact absurd (Extent.not_meets_iff.mpr this) (by decide +kernel)

end RecoveredLog

end TeraSlab.Allocator
