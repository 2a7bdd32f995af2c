import TeraSlab.Foundations.Placement
import TeraSlab.Redo.Linear
import TeraSlab.Redo.RingReopen

/-!
# Reservations

A batch for several logs is admitted before it is committed: the log says whether the batch would
fit, counting what admitted batches have reserved, and the batch reserves its own distance. The
commit measures the batch again from the real cursor, without the reservations.

The reservation is the distance of the batch from the cursor it was admitted at, rounded up to a
block. What a commit takes depends on where the other batches have left the cursor: a flush rounds
the cursor up, not the distance, and in a segment ring the order of the batches decides where the
segments end.
-/

namespace TeraSlab.Redo

open Foundations RingLog

variable {crc : List UInt8 → UInt32} {g : Geometry} {s : System} {oldest seg : Nat}

namespace RingLog

/-- The loop of `ring_batch_fits_reserved` over the reservation: where it leaves the cursor. -/
def consumeReserved (g : Geometry) (oldest : Nat) : Nat → Nat → Nat → Nat → Option (Nat × Nat)
  | 0, seg, off, _ => some (seg, off)
  | fuel + 1, seg, off, rem =>
    if rem = 0 then some (seg, off)
    else
      let segFree := g.segmentSize - off
      if rem < segFree then some (seg, off + rem)
      else if g.next seg = oldest then none
      else consumeReserved g oldest fuel (g.next seg) 0 (rem - segFree)

def ringBatchFitsReserved (g : Geometry) (log : RingLog) (lens : List Nat) (reserved : Nat) :
    Bool :=
  -- every round but the first takes a whole segment off the reservation
  match consumeReserved g log.oldestSeg (reserved + 2) log.activeSeg
      (log.writePosInSeg + log.buffer.length) reserved with
  | none => false
  | some (seg, off) => batchFits g log.oldestSeg seg off lens

/-- The replay in `batch_reservation_bytes`: the distance the cursor moves, wasted tails counted. -/
def forwardDistance (seg : Nat) : Nat → Nat → List Nat → Nat
  | _, distance, [] => distance
  | off, distance, len :: lens =>
    if seg < off + len then forwardDistance seg len (distance + (seg - off) + len) lens
    else forwardDistance seg (off + len) (distance + len) lens

end RingLog

namespace System

variable (crc g)

def ringPosition (s : System) : Nat :=
  g.sealedCount s.log.oldestSeg s.log.activeSeg * g.segmentSize +
    (s.log.writePosInSeg + s.log.buffer.length)

/-- Append the operations in order, or nothing when one of them fails. -/
def tryAppendAll : System → List RedoOp → Option System
  | s, [] => some s
  | s, op :: ops =>
    match s.tryAppend crc g op with
    | none => none
    | some s => tryAppendAll s ops

def tryAppendAtomic (s : System) (ops : List RedoOp) : Option System :=
  if ops.isEmpty then some s
  else if s.log.ringBatchFits g (ops.map entryLen) then s.tryAppendAll crc g ops
  else none

end System

inductive Layout where
  | linear (r : Region)
  | ring (g : Geometry)

namespace Layout

def align : Layout → Nat
  | linear r => r.align
  | ring g => g.align

/-- The end of the space for appends, from the start of the region or of the oldest segment. -/
def capacity : Layout → Nat
  | linear r => r.appendCapacity
  | ring g => g.segmentCount * g.segmentSize

def placed (pos : Nat) (ops : List RedoOp) : Layout → Nat
  | linear _ => pos + (ops.map entryLen).sum
  | ring g => placeAll g.segmentSize pos (ops.map entryLen)

def Accepts (ops : List RedoOp) : Layout → Prop
  | linear _ => True
  | ring g => ∀ len ∈ ops.map entryLen, len ≤ g.segmentSize

end Layout

inductive RedoLog where
  | linear (r : Region) (s : LinearSystem)
  | ring (g : Geometry) (s : System)

namespace RedoLog

def wouldFit (reserved : Nat) (ops : List RedoOp) : RedoLog → Bool
  | linear r s =>
    s.log.writePos + s.log.buffer.length + reserved + (ops.map entryLen).sum ≤ r.appendCapacity
  | ring g s => s.log.ringBatchFitsReserved g (ops.map entryLen) reserved

def batchReservationBytes (reserved : Nat) (ops : List RedoOp) : RedoLog → Nat
  | linear r _ => roundUp (ops.map entryLen).sum r.align
  | ring g s =>
    roundUp (forwardDistance g.segmentSize
      ((s.log.writePosInSeg + s.log.buffer.length + reserved) % g.segmentSize) 0
      (ops.map entryLen)) g.align

def appendAtomic (crc : List UInt8 → UInt32) (ops : List RedoOp) : RedoLog → Option RedoLog
  | linear r s => (s.log.appendAtomic crc r ops).map fun log => linear r { s with log := log }
  | ring g s => (s.tryAppendAtomic crc g ops).map (ring g)

def flush : RedoLog → RedoLog
  | linear r s => linear r (s.flush r)
  | ring g s => ring g (s.flush g)

/-- The first batch commits, then the second, with or without a flush between them. -/
def commitsBoth (crc : List UInt8 → UInt32) (log : RedoLog) (first second : List RedoOp)
    (flushBetween : Bool) : Bool :=
  match log.appendAtomic crc first with
  | none => false
  | some log => ((if flushBetween then log.flush else log).appendAtomic crc second).isSome

/-- Both batches commit, in both orders, with a flush between them or without. -/
def AllCommit (crc : List UInt8 → UInt32) (log : RedoLog) (a b : List RedoOp) : Prop :=
  ∀ flushBetween, log.commitsBoth crc a b flushBetween = true ∧
    log.commitsBoth crc b a flushBetween = true

/-! ## Positions -/

def layout : RedoLog → Layout
  | linear r _ => .linear r
  | ring g _ => .ring g

/-- The cursor behind the buffered bytes, from the start of the region or of the oldest segment. -/
def position : RedoLog → Nat
  | linear _ s => s.log.writePos + s.log.buffer.length
  | ring g s => s.ringPosition g

def buffer : RedoLog → List UInt8
  | linear _ s => s.log.buffer
  | ring _ s => s.log.buffer

/-- Where a flush behind the batch leaves the cursor. -/
def flushedEnd (log : RedoLog) (ops : List RedoOp) : Nat :=
  if log.buffer = [] ∧ ops = [] then log.position
  else roundUp (log.layout.placed log.position ops) log.layout.align

/-- In either order the second batch ends within the capacity when it is placed from the block
boundary behind the first one. -/
def PaddedFits (log : RedoLog) (a b : List RedoOp) : Prop :=
  log.layout.placed (log.flushedEnd a) b ≤ log.layout.capacity ∧
    log.layout.placed (log.flushedEnd b) a ≤ log.layout.capacity

instance (log : RedoLog) (a b : List RedoOp) : Decidable (log.PaddedFits a b) :=
  inferInstanceAs (Decidable (_ ∧ _))

end RedoLog

/-! ## The ring -/

namespace Geometry

/-- The ring is full when every segment before the active one is live. -/
theorem next_eq_iff (ho : oldest < g.segmentCount) (hs : seg < g.segmentCount) :
    g.next seg = oldest ↔ g.sealedCount oldest seg + 1 = g.segmentCount := by
  rw [sealedCount_eq ho hs, next_eq hs]
  split_ifs <;> omega

end Geometry

namespace RingLog

variable {off : Nat}

structure InRange (g : Geometry) (log : RingLog) : Prop where
  active_lt : log.activeSeg < g.segmentCount
  oldest_lt : log.oldestSeg < g.segmentCount
  used_le : log.writePosInSeg + log.buffer.length ≤ g.segmentSize

/-- Positions in the ring end with its last segment. -/
theorem position_le (oldest seg : Nat) (hoff : off ≤ g.segmentSize) :
    g.sealedCount oldest seg * g.segmentSize + off ≤ g.segmentCount * g.segmentSize := by
  have hcount : (g.sealedCount oldest seg + 1) * g.segmentSize ≤ g.segmentCount * g.segmentSize :=
    Nat.mul_le_mul_right _ (g.sealedCount_lt oldest seg)
  rw [Nat.succ_mul] at hcount
  omega

section

variable (ho : oldest < g.segmentCount) (hs : seg < g.segmentCount) (hoff : off ≤ g.segmentSize)
include ho hs hoff

/-- The measuring loop places the batch. -/
theorem batchFits_iff (lens : List Nat) :
    batchFits g oldest seg off lens = true ↔ (∀ len ∈ lens, len ≤ g.segmentSize) ∧
      placeAll g.segmentSize (g.sealedCount oldest seg * g.segmentSize + off) lens ≤
        g.segmentCount * g.segmentSize := by
  induction lens generalizing seg off with
  | nil => simpa [batchFits, placeAll] using position_le oldest seg hoff
  | cons len lens ih =>
    rw [batchFits]
    by_cases hlong : g.segmentSize < len
    · simp only [if_pos hlong, List.mem_cons, forall_eq_or_imp]
      constructor
      · intro h
        cases h
      · intro h
        omega
    have hlen : len ≤ g.segmentSize := Nat.le_of_not_lt hlong
    have hplace := @place_mul_add g.segmentSize len (g.sealedCount oldest seg) off
      g.segmentSize_pos hoff hlen
    have hcons : placeAll g.segmentSize (g.sealedCount oldest seg * g.segmentSize + off)
        (len :: lens) = placeAll g.segmentSize (place g.segmentSize
          (g.sealedCount oldest seg * g.segmentSize + off) len) lens := rfl
    rw [if_neg hlong, hcons, hplace, List.forall_mem_cons]
    by_cases hroll : g.segmentSize < off + len
    · rw [if_pos hroll, if_neg (show ¬ off + len ≤ g.segmentSize by omega)]
      by_cases hfull : g.next seg = oldest
      · -- The next segment is live: the item would end behind the last segment.
        have hcount := (Geometry.next_eq_iff ho hs).mp hfull
        have hend := le_placeAll g.segmentSize_pos
          ((g.sealedCount oldest seg + 1) * g.segmentSize + len) lens
        rw [if_pos hfull, hcount]
        rw [hcount] at hend
        constructor
        · intro h
          cases h
        · intro h
          omega
      · rw [if_neg hfull, ih (g.next_lt seg) hlen, Geometry.sealedCount_next ho hs hfull]
        tauto
    · rw [if_neg hroll, if_pos (by omega), ih hs (by omega), Nat.add_assoc]
      tauto

/-- Consuming a reservation moves the cursor by it. -/
theorem consumeReserved_spec {fuel rem : Nat}
    (hfuel : rem < fuel ∨ off < g.segmentSize ∧ rem ≤ fuel) {seg' off' : Nat}
    (h : consumeReserved g oldest fuel seg off rem = some (seg', off')) :
    seg' < g.segmentCount ∧ off' ≤ g.segmentSize ∧
      g.sealedCount oldest seg' * g.segmentSize + off' =
        g.sealedCount oldest seg * g.segmentSize + off + rem := by
  induction fuel generalizing seg off rem with
  | zero =>
    cases h
    exact ⟨hs, hoff, by omega⟩
  | succ fuel ih =>
    rw [consumeReserved] at h
    dsimp only at h
    split at h
    · cases h
      exact ⟨hs, hoff, by omega⟩
    split at h
    · cases h
      exact ⟨hs, by omega, by omega⟩
    split at h
    · cases h
    rename_i hfull
    have hsize := g.segmentSize_pos
    have hrest := ih (g.next_lt seg) (Nat.zero_le _) (.inr ⟨hsize, by omega⟩) h
    rw [Geometry.sealedCount_next ho hs hfull, Nat.succ_mul] at hrest
    exact ⟨hrest.1, hrest.2.1, by omega⟩

end

/-- The replay measures the placement. -/
theorem forwardDistance_spec (hoff : off ≤ g.segmentSize) {lens : List Nat}
    (hlens : ∀ len ∈ lens, len ≤ g.segmentSize) (k distance : Nat) :
    k * g.segmentSize + off + forwardDistance g.segmentSize off distance lens =
      distance + placeAll g.segmentSize (k * g.segmentSize + off) lens := by
  induction lens generalizing off distance k with
  | nil =>
    show k * g.segmentSize + off + distance = distance + (k * g.segmentSize + off)
    omega
  | cons len lens ih =>
    have hlen := hlens len List.mem_cons_self
    have hrest := fun l hl => hlens l (List.mem_cons_of_mem len hl)
    have hplace := @place_mul_add g.segmentSize len k off g.segmentSize_pos hoff hlen
    show _ = distance + placeAll g.segmentSize
      (place g.segmentSize (k * g.segmentSize + off) len) lens
    rw [hplace, forwardDistance]
    by_cases hroll : g.segmentSize < off + len
    · have hnext := ih hlen hrest (k + 1) (distance + (g.segmentSize - off) + len)
      rw [if_pos hroll, if_neg (by omega)]
      rw [Nat.succ_mul] at hnext ⊢
      omega
    · have hnext := ih (by omega : off + len ≤ g.segmentSize) hrest k (distance + len)
      rw [if_neg hroll, if_pos (by omega)]
      rw [← Nat.add_assoc] at hnext
      omega

end RingLog

namespace System

theorem writeOut_cursor (g : Geometry) (s : System) :
    (s.writeOut g).log.activeSeg = s.log.activeSeg ∧
    (s.writeOut g).log.oldestSeg = s.log.oldestSeg ∧ (s.writeOut g).log.buffer = [] ∧
    (s.writeOut g).log.writePosInSeg = if s.log.buffer = [] then s.log.writePosInSeg
      else roundUp (s.log.writePosInSeg + s.log.buffer.length) g.align := by
  unfold writeOut prepareFlush
  by_cases hnil : s.log.buffer = []
  · simp [hnil]
  · rw [if_neg (by simpa using hnil), if_neg hnil]
    exact ⟨rfl, rfl, rfl, roundUp_block g.align_pos _ _⟩

/-- An append places its entry, or fails because there is no place. -/
theorem tryAppend_spec (h : s.log.InRange g) (op : RedoOp) :
    (s.tryAppend crc g op = none ∧ (g.segmentSize < entryLen op ∨
      g.segmentCount * g.segmentSize < place g.segmentSize (s.ringPosition g) (entryLen op))) ∨
    ∃ s', s.tryAppend crc g op = some s' ∧ entryLen op ≤ g.segmentSize ∧ s'.log.InRange g ∧
      s'.ringPosition g = place g.segmentSize (s.ringPosition g) (entryLen op) ∧
      s'.log.buffer ≠ [] := by
  have hpos := entryLen_pos op
  have hbytes := fun log => length_bufferEntry crc log op
  have hne := fun log => bufferEntry_ne_nil crc log op
  unfold System.tryAppend
  by_cases hlong : g.segmentSize < entryLen op
  · exact .inl ⟨if_pos hlong, .inl hlong⟩
  have hlen : entryLen op ≤ g.segmentSize := Nat.le_of_not_lt hlong
  have hplace := @place_mul_add g.segmentSize (entryLen op)
    (g.sealedCount s.log.oldestSeg s.log.activeSeg) _ g.segmentSize_pos h.used_le hlen
  rw [if_neg hlong, ringPosition, hplace]
  by_cases hroll : s.log.needsRoll g op = true
  · have hover : ¬ s.log.writePosInSeg + s.log.buffer.length + entryLen op ≤ g.segmentSize := by
      simpa [needsRoll] using hroll
    rw [if_pos hroll, if_neg hover]
    by_cases hfull : g.next s.log.activeSeg = s.log.oldestSeg
    · left
      have hcount := (Geometry.next_eq_iff h.oldest_lt h.active_lt).mp hfull
      refine ⟨if_pos (by simpa [ringFull] using hfull), .inr ?_⟩
      rw [hcount]
      omega
    · right
      obtain ⟨hactive, holdest, hbuffer, -⟩ := s.writeOut_cursor g
      have hlength : (((s.writeOut g).log.advance g).bufferEntry crc op).buffer.length =
          entryLen op := by
        rw [hbytes]
        simp [advance, hbuffer]
      refine ⟨_, if_neg (by simpa [ringFull] using hfull), hlen, ⟨g.next_lt _, ?_, ?_⟩, ?_, hne _⟩
      · exact holdest ▸ h.oldest_lt
      · show 0 + (((s.writeOut g).log.advance g).bufferEntry crc op).buffer.length ≤ _
        omega
      · show g.sealedCount (s.writeOut g).log.oldestSeg (g.next (s.writeOut g).log.activeSeg) *
          g.segmentSize + (0 + _) = _
        rw [hlength, hactive, holdest, Geometry.sealedCount_next h.oldest_lt h.active_lt hfull,
          Nat.zero_add]
  · right
    have hfit : s.log.writePosInSeg + s.log.buffer.length + entryLen op ≤ g.segmentSize := by
      simpa [needsRoll] using hroll
    rw [if_neg hroll, if_pos hfit]
    refine ⟨_, rfl, hlen, ⟨h.active_lt, h.oldest_lt, ?_⟩, ?_, hne _⟩
    · show s.log.writePosInSeg + (s.log.bufferEntry crc op).buffer.length ≤ _
      rw [hbytes]
      omega
    · show _ + (s.log.writePosInSeg + (s.log.bufferEntry crc op).buffer.length) = _
      rw [hbytes]
      simp only [RingLog.bufferEntry]
      omega

/-- A batch is placed behind the cursor, or there is no place for it. -/
def Places (g : Geometry) (s : System) (ops : List RedoOp) (result : Option System) : Prop :=
  (result = none ∧ ((∀ len ∈ ops.map entryLen, len ≤ g.segmentSize) →
    g.segmentCount * g.segmentSize <
      placeAll g.segmentSize (s.ringPosition g) (ops.map entryLen))) ∨
  ∃ s', result = some s' ∧ s'.log.InRange g ∧
    s'.ringPosition g = placeAll g.segmentSize (s.ringPosition g) (ops.map entryLen) ∧
    (s'.log.buffer = [] ↔ s.log.buffer = [] ∧ ops = [])

theorem tryAppendAll_spec (h : s.log.InRange g) (ops : List RedoOp) :
    Places g s ops (s.tryAppendAll crc g ops) := by
  induction ops generalizing s with
  | nil => exact .inr ⟨s, rfl, h, rfl, by simp⟩
  | cons op ops ih =>
    rw [tryAppendAll]
    rcases @tryAppend_spec crc g s h op with ⟨hnone, hwhy⟩ | ⟨s', hsome, -, hrange, hplace, hne⟩
    · left
      rw [hnone]
      refine ⟨rfl, fun hlens => ?_⟩
      have hlen := hlens (entryLen op) List.mem_cons_self
      exact (hwhy.resolve_left (by omega)).trans_le (le_placeAll g.segmentSize_pos _ _)
    · rw [hsome]
      rcases ih hrange with ⟨hnone, hwhy⟩ | ⟨t, hall, hrange', hplace', hbuffer⟩
      · left
        refine ⟨hnone, fun hlens => ?_⟩
        have hend := hwhy fun len hmem => hlens len (List.mem_cons_of_mem _ hmem)
        rwa [hplace] at hend
      · right
        refine ⟨t, hall, hrange', by rw [hplace', hplace]; rfl, ?_⟩
        simp [hbuffer, hne]

theorem tryAppendAtomic_spec (h : s.log.InRange g) (ops : List RedoOp) :
    Places g s ops (s.tryAppendAtomic crc g ops) := by
  unfold tryAppendAtomic
  split
  · rename_i hnil
    rw [List.isEmpty_iff.mp hnil]
    exact .inr ⟨s, rfl, h, rfl, by simp⟩
  have hfits := batchFits_iff h.oldest_lt h.active_lt h.used_le (ops.map entryLen)
  split
  · exact tryAppendAll_spec h ops
  rename_i hnot
  refine .inl ⟨rfl, fun hlens => ?_⟩
  by_contra hle
  exact hnot (hfits.mpr ⟨hlens, Nat.le_of_not_lt hle⟩)

theorem flush_spec (h : s.log.InRange g) :
    (s.flush g).log.InRange g ∧ (s.flush g).log.buffer = [] ∧
      (s.flush g).ringPosition g = if s.log.buffer = [] then s.ringPosition g
        else roundUp (s.ringPosition g) g.align := by
  have hsame : (s.flush g).log = (s.writeOut g).log := by
    unfold System.flush writeOut prepareFlush
    split <;> rfl
  obtain ⟨hactive, holdest, hbuffer, hcursor⟩ := s.writeOut_cursor g
  have hdvd : g.align ∣ g.sealedCount s.log.oldestSeg s.log.activeSeg * g.segmentSize :=
    g.align_dvd.mul_left _
  rw [ringPosition, hsame, hactive, holdest, hbuffer, hcursor]
  refine ⟨⟨?_, ?_, ?_⟩, rfl, ?_⟩
  · rw [hactive]
    exact h.active_lt
  · rw [holdest]
    exact h.oldest_lt
  · have hused := h.used_le
    rw [hbuffer, hcursor]
    split
    · exact (Nat.le_add_right _ _).trans hused
    · exact roundUp_le g.align_dvd hused
  · split
    · rename_i hnil
      rw [ringPosition, hnil]
    · rw [ringPosition, roundUp_add g.align_pos hdvd]
      rfl

end System

/-! ## The linear log -/

namespace LinearLog

variable {r : Region}

theorem appendAll_spec (log : LinearLog) (ops : List RedoOp) :
    (log.appendAll crc r ops = none ∧
      r.appendCapacity < log.writePos + log.buffer.length + (ops.map entryLen).sum) ∨
    ∃ log', log.appendAll crc r ops = some log' ∧
      log'.writePos + log'.buffer.length =
        log.writePos + log.buffer.length + (ops.map entryLen).sum ∧
      (log'.buffer = [] ↔ log.buffer = [] ∧ ops = []) := by
  induction ops generalizing log with
  | nil => exact .inr ⟨log, rfl, rfl, by simp⟩
  | cons op ops ih =>
    rw [appendAll, append, appendWithCapacity, List.map_cons, List.sum_cons]
    by_cases hfull : r.appendCapacity < log.writePos + log.buffer.length + entryLen op
    · rw [if_pos hfull]
      exact .inl ⟨rfl, by omega⟩
    rw [if_neg hfull]
    have hbytes := length_bufferEntry crc log op
    have hne : (log.bufferEntry crc op).buffer ≠ [] := by
      have hpos := entryLen_pos op
      exact List.ne_nil_of_length_pos (by omega)
    have hwrite : (log.bufferEntry crc op).writePos = log.writePos := rfl
    rcases ih (log.bufferEntry crc op) with ⟨hnone, hwhy⟩ | ⟨log', hsome, hend, hbuffer⟩
    · exact .inl ⟨hnone, by omega⟩
    · refine .inr ⟨log', hsome, by omega, ?_⟩
      simp [hbuffer, hne]

theorem appendAtomic_spec (log : LinearLog) (ops : List RedoOp) :
    (log.appendAtomic crc r ops = none ∧
      r.appendCapacity < log.writePos + log.buffer.length + (ops.map entryLen).sum) ∨
    ∃ log', log.appendAtomic crc r ops = some log' ∧
      log'.writePos + log'.buffer.length =
        log.writePos + log.buffer.length + (ops.map entryLen).sum ∧
      (log'.buffer = [] ↔ log.buffer = [] ∧ ops = []) ∧
      (ops ≠ [] → log.writePos + log.buffer.length + (ops.map entryLen).sum ≤
        r.appendCapacity) := by
  unfold appendAtomic
  split
  · rename_i hnil
    rw [List.isEmpty_iff.mp hnil]
    exact .inr ⟨log, rfl, rfl, by simp, fun hne => absurd rfl hne⟩
  split
  · rename_i hfull
    exact .inl ⟨rfl, hfull⟩
  rcases @appendAll_spec crc r log ops with ⟨hnone, hwhy⟩ | ⟨log', hsome, hend, hbuffer⟩
  · omega
  · exact .inr ⟨log', hsome, hend, hbuffer, fun _ => by omega⟩

end LinearLog

namespace Region

/-- The space for appends is whole blocks. -/
theorem align_dvd_appendCapacity (r : Region) : r.align ∣ r.appendCapacity := by
  apply Nat.dvd_sub r.align_dvd
  unfold fenceReserveBytes
  split
  · exact Nat.dvd_mul_left _ _
  · exact Nat.dvd_zero _

end Region

/-! ## Runs of a ring -/

namespace System

theorem inRange_tryAppend {s' : System} {op : RedoOp} (h : s.log.InRange g)
    (hstep : s.tryAppend crc g op = some s') : s'.log.InRange g := by
  rcases @tryAppend_spec crc g s h op with ⟨hnone, -⟩ | ⟨t, hsome, -, hrange, -⟩
  · cases hstep.symm.trans hnone
  · cases hstep.symm.trans hsome
    exact hrange

theorem inRange_reclaimLoop {fuel : Nat} {log : RingLog} {freedThrough : Nat} {freed : Bool}
    (h : log.InRange g) : (log.reclaimLoop g fuel freedThrough freed).1.InRange g := by
  induction fuel generalizing log freedThrough freed with
  | zero => exact h
  | succ fuel ih =>
    rw [reclaimLoop]
    split
    · exact h
    split
    · exact h
    · exact ih ⟨h.active_lt, g.next_lt _, h.used_le⟩

/-- Every call keeps the cursor in its segment. -/
theorem inRange_step (h : s.log.InRange g) (call : RingCall) :
    (s.step crc g call).log.InRange g := by
  have hkeeps (s s' : System) (op : RedoOp) (h : s.log.InRange g) (_ : True)
      (hstep : s.tryAppend crc g op = some s') : s'.log.InRange g := inRange_tryAppend h hstep
  cases call with
  | append op => exact keeps_append hkeeps h trivial
  | appendAtomic ops => exact keeps_appendAtomic hkeeps h fun _ _ => trivial
  | flush => exact (flush_spec h).1
  | setFence throughSequence =>
    show (s.setFence throughSequence).log.InRange g
    unfold setFence
    dsimp only
    split
    · exact h
    · exact ⟨h.active_lt, h.oldest_lt, h.used_le⟩
  | reclaim =>
    have hloop : (s.log.reclaimLoop g g.segmentCount 0 false).1.InRange g := inRange_reclaimLoop h
    show (s.reclaim g).log.InRange g
    unfold reclaim
    split
    rename_i hsplit
    rw [hsplit] at hloop
    split
    · exact ⟨hloop.active_lt, hloop.oldest_lt, hloop.used_le⟩
    · exact h

theorem inRange_run (h : s.log.InRange g) (calls : List RingCall) :
    (run (System.step crc g) s calls).log.InRange g := by
  induction calls generalizing s with
  | nil => exact h
  | cons call calls ih => exact ih (inRange_step h call)

end System

/-! ## Either layout -/

namespace Layout

variable {l : Layout} {pos pos' : Nat} {ops : List RedoOp}

section

variable (l) (pos) (ops)

theorem align_pos : 0 < l.align :=
  match l with
  | linear r => r.align_pos
  | ring g => g.align_pos

theorem align_dvd_capacity : l.align ∣ l.capacity :=
  match l with
  | linear r => r.align_dvd_appendCapacity
  | ring g => g.align_dvd.mul_left _

theorem placed_nil : l.placed pos [] = pos := by
  cases l <;> rfl

theorem le_placed : pos ≤ l.placed pos ops :=
  match l with
  | linear _ => Nat.le_add_right _ _
  | ring g => le_placeAll g.segmentSize_pos _ _

end

theorem placed_mono (haccepts : l.Accepts ops) (h : pos ≤ pos') :
    l.placed pos ops ≤ l.placed pos' ops :=
  match l with
  | linear _ => Nat.add_le_add_right h _
  | ring g => placeAll_mono g.segmentSize_pos haccepts h

end Layout

namespace RedoLog

variable {log log' : RedoLog} {ops a b : List RedoOp}

/-- The cursor of a ring is in its segment. -/
def WellFormed : RedoLog → Prop
  | linear _ _ => True
  | ring g s => s.log.InRange g

theorem reachedRing_wellFormed (crc : List UInt8 → UInt32) (g : Geometry) (calls : List RingCall) :
    (ring g (reachedRing crc g calls)).WellFormed := by
  have hzero : 0 < g.segmentCount := g.segmentCount_pos
  exact System.inRange_run ⟨hzero, hzero, Nat.zero_le _⟩ calls

theorem appendAtomic_spec (h : log.WellFormed) (ops : List RedoOp) :
    (log.appendAtomic crc ops = none ∧
      (log.layout.Accepts ops → log.layout.capacity < log.layout.placed log.position ops)) ∨
    ∃ log', log.appendAtomic crc ops = some log' ∧ log'.WellFormed ∧ log'.layout = log.layout ∧
      log'.position = log.layout.placed log.position ops ∧
      (log'.buffer = [] ↔ log.buffer = [] ∧ ops = []) ∧
      (ops ≠ [] → log.layout.placed log.position ops ≤ log.layout.capacity) := by
  cases log with
  | linear r s =>
    rcases @LinearLog.appendAtomic_spec crc r s.log ops with
      ⟨hnone, hwhy⟩ | ⟨log, hsome, hend, hbuffer, hroom⟩
    · exact .inl ⟨by rw [appendAtomic, hnone]; rfl, fun _ => hwhy⟩
    refine .inr ⟨linear r { s with log := log }, ?_, trivial, rfl, hend, hbuffer, hroom⟩
    rw [appendAtomic, hsome]
    rfl
  | ring g s =>
    rcases @System.tryAppendAtomic_spec crc g s h ops with
      ⟨hnone, hwhy⟩ | ⟨s', hsome, hrange, hend, hbuffer⟩
    · exact .inl ⟨by rw [appendAtomic, hnone]; rfl, hwhy⟩
    refine .inr ⟨ring g s', ?_, hrange, rfl, hend, hbuffer, fun _ => ?_⟩
    · rw [appendAtomic, hsome]
      rfl
    show placeAll _ (s.ringPosition g) _ ≤ _
    rw [← hend]
    exact position_le _ _ hrange.used_le

theorem flush_spec (h : log.WellFormed) :
    log.flush.WellFormed ∧ log.flush.layout = log.layout ∧
      log.flush.position = if log.buffer = [] then log.position
        else roundUp log.position log.layout.align := by
  cases log with
  | linear r s =>
    refine ⟨trivial, rfl, ?_⟩
    show (s.flush r).log.writePos + (s.flush r).log.buffer.length =
      if s.log.buffer = [] then s.log.writePos + s.log.buffer.length
        else roundUp (s.log.writePos + s.log.buffer.length) r.align
    unfold LinearSystem.flush
    by_cases hnil : s.log.buffer = []
    · simp [hnil]
    · rw [if_neg (by simpa using hnil), if_neg hnil]
      exact roundUp_block r.align_pos _ _
  | ring g s =>
    obtain ⟨hrange, -, hend⟩ := System.flush_spec h
    exact ⟨hrange, rfl, hend⟩

/-- A batch that would fit ends within the capacity when it is placed behind what is reserved. -/
theorem wouldFit_spec (h : log.WellFormed) {reserved : Nat}
    (hfit : log.wouldFit reserved ops = true) :
    log.layout.Accepts ops ∧
      log.layout.placed (log.position + reserved) ops ≤ log.layout.capacity := by
  cases log with
  | linear r s => exact ⟨trivial, of_decide_eq_true hfit⟩
  | ring g s =>
    simp only [wouldFit, ringBatchFitsReserved] at hfit
    split at hfit
    · cases hfit
    rename_i seg off hconsume
    obtain ⟨hseg, hoff, hend⟩ := consumeReserved_spec h.oldest_lt h.active_lt h.used_le
      (.inl (by omega)) hconsume
    rw [batchFits_iff h.oldest_lt hseg hoff, hend] at hfit
    exact hfit

/-- What a batch reserves: its distance from behind what is reserved, in whole blocks. -/
theorem batchReservationBytes_eq (haccepts : log.layout.Accepts ops) (reserved : Nat) :
    log.batchReservationBytes reserved ops =
      roundUp (log.layout.placed (log.position + reserved) ops - (log.position + reserved))
        log.layout.align := by
  cases log with
  | linear r s =>
    show roundUp _ r.align = roundUp (_ + (ops.map entryLen).sum - _) r.align
    rw [Nat.add_sub_cancel_left]
  | ring g s =>
    set used := s.log.writePosInSeg + s.log.buffer.length with hused
    set count := g.sealedCount s.log.oldestSeg s.log.activeSeg with hcount
    have hoff := (Nat.mod_lt (used + reserved) g.segmentSize_pos).le
    have hspec := forwardDistance_spec hoff haccepts (count + (used + reserved) / g.segmentSize) 0
    have hpos : (count + (used + reserved) / g.segmentSize) * g.segmentSize +
        (used + reserved) % g.segmentSize = count * g.segmentSize + used + reserved := by
      have hdiv := Nat.div_add_mod (used + reserved) g.segmentSize
      rw [Nat.mul_comm] at hdiv
      rw [Nat.add_mul]
      omega
    rw [hpos, Nat.zero_add] at hspec
    show roundUp (forwardDistance g.segmentSize ((used + reserved) % g.segmentSize) 0 _) g.align =
      roundUp (placeAll _ (count * g.segmentSize + used + reserved) _ -
        (count * g.segmentSize + used + reserved)) g.align
    rw [← hspec, Nat.add_sub_cancel_left]

section

variable (log) (ops)

theorem placed_le_flushedEnd : log.layout.placed log.position ops ≤ log.flushedEnd ops := by
  unfold flushedEnd
  split
  · rename_i hnil
    rw [hnil.2, Layout.placed_nil]
  · exact le_roundUp log.layout.align_pos

theorem flushedEnd_le :
    log.flushedEnd ops ≤ roundUp (log.layout.placed log.position ops) log.layout.align := by
  unfold flushedEnd
  split
  · exact (log.layout.le_placed _ _).trans (le_roundUp log.layout.align_pos)
  · exact le_rfl

end

/-- The second batch commits when it ends within the capacity from where the first one, or the
flush behind it, has left the cursor. -/
theorem commitsBoth_iff (h : log.WellFormed) (ha : log.layout.Accepts a)
    (hb : log.layout.Accepts b) (hroom : log.layout.placed log.position a ≤ log.layout.capacity)
    (flushBetween : Bool) :
    log.commitsBoth crc a b flushBetween = true ↔
      log.layout.placed (if flushBetween then log.flushedEnd a
        else log.layout.placed log.position a) b ≤ log.layout.capacity := by
  rcases @appendAtomic_spec crc log h a with
    ⟨-, hwhy⟩ | ⟨log₁, hsome, hwf, hlayout, hpos, hbuffer, -⟩
  · have hfull := hwhy ha
    omega
  -- The cursor in front of the second batch.
  obtain ⟨log₂, hlog₂, hwf₂, hlayout₂, hpos₂⟩ : ∃ log₂,
      (if flushBetween then log₁.flush else log₁) = log₂ ∧ log₂.WellFormed ∧
      log₂.layout = log.layout ∧
      log₂.position = if flushBetween then log.flushedEnd a
        else log.layout.placed log.position a := by
    cases flushBetween with
    | false => exact ⟨log₁, rfl, hwf, hlayout, hpos⟩
    | true =>
      obtain ⟨hwf', hlayout', hpos'⟩ := flush_spec hwf
      refine ⟨log₁.flush, rfl, hwf', hlayout'.trans hlayout, ?_⟩
      rw [hpos', hlayout, hpos, if_pos rfl, flushedEnd]
      simp only [hbuffer]
      split
      · rename_i hnil
        rw [hnil.2, Layout.placed_nil]
      · rfl
  have hend : log₂.position ≤ log.layout.capacity := by
    have hflushed := log.flushedEnd_le a
    have hround := roundUp_le log.layout.align_dvd_capacity hroom
    rw [hpos₂]
    split <;> omega
  rw [commitsBoth, hsome]
  dsimp only
  rw [hlog₂, ← hpos₂]
  rcases @appendAtomic_spec crc log₂ hwf₂ b with ⟨hnone, hwhy⟩ | ⟨log₃, hsome₃, -, -, -, -, hfit⟩
  · rw [hnone]
    rw [hlayout₂] at hwhy
    have hfull := hwhy hb
    simp only [Option.isSome_none, Bool.false_eq_true, false_iff]
    omega
  · rw [hsome₃]
    rw [hlayout₂] at hfit
    simp only [Option.isSome_some, true_iff]
    by_cases hnil : b = []
    · rw [hnil, Layout.placed_nil]
      exact hend
    · exact hfit hnil

/-! ## Admitted batches -/

section Admitted

variable {reserved : Nat} (h : log.WellFormed) (ha : log.wouldFit reserved a = true)
  (hb : log.wouldFit (reserved + log.batchReservationBytes reserved a) b = true)

include h ha in
/-- A batch that would fit behind the reservations fits at the cursor. -/
theorem room_of_wouldFit : log.layout.placed log.position a ≤ log.layout.capacity := by
  obtain ⟨haccepts, hroom⟩ := wouldFit_spec h ha
  exact (Layout.placed_mono haccepts (Nat.le_add_right _ _)).trans hroom

include h ha hb in
/-- The second batch fits behind the end of the first one, in whole blocks from the cursor. -/
theorem room_behind : log.layout.placed (log.position + reserved +
    roundUp (log.layout.placed (log.position + reserved) a - (log.position + reserved))
      log.layout.align) b ≤ log.layout.capacity := by
  have hroom := (wouldFit_spec h hb).2
  rwa [batchReservationBytes_eq (wouldFit_spec h ha).1, ← Nat.add_assoc] at hroom

include h ha hb in
/-- In the order of admission, and without a flush, both batches commit. -/
theorem commitsBoth_admitted : log.commitsBoth crc a b false = true := by
  obtain ⟨haccepts, -⟩ := wouldFit_spec h ha
  obtain ⟨haccepts', -⟩ := wouldFit_spec h hb
  rw [commitsBoth_iff h haccepts haccepts' (room_of_wouldFit h ha)]
  refine (Layout.placed_mono haccepts' ?_).trans (room_behind h ha hb)
  have hmono := Layout.placed_mono haccepts (Nat.le_add_right log.position reserved)
  have hround := @le_roundUp (log.layout.placed (log.position + reserved) a -
    (log.position + reserved)) log.layout.align log.layout.align_pos
  simp only [Bool.false_eq_true, if_false]
  omega

include h ha hb in
/-- From a block boundary they commit with a flush between them as well. -/
theorem commitsBoth_admitted_flush (hdvd : log.layout.align ∣ log.position + reserved) :
    log.commitsBoth crc a b true = true := by
  obtain ⟨haccepts, -⟩ := wouldFit_spec h ha
  obtain ⟨haccepts', -⟩ := wouldFit_spec h hb
  rw [commitsBoth_iff h haccepts haccepts' (room_of_wouldFit h ha)]
  refine (Layout.placed_mono haccepts' ?_).trans (room_behind h ha hb)
  have hle := log.layout.le_placed (log.position + reserved) a
  rw [if_pos rfl, ← roundUp_add log.layout.align_pos hdvd, Nat.add_sub_cancel' hle]
  exact (log.flushedEnd_le a).trans (roundUp_mono log.layout.align_pos
    (Layout.placed_mono haccepts (Nat.le_add_right _ _)))

/-- On a linear log, from a block boundary, they commit in the other order too. -/
theorem paddedFits_linear {r : Region} {s : LinearSystem}
    (hdvd : r.align ∣ (linear r s).position + reserved)
    (hb : (linear r s).wouldFit (reserved + (linear r s).batchReservationBytes reserved a)
      b = true) :
    (linear r s).PaddedFits a b := by
  have hroom : (linear r s).position + (reserved + roundUp (a.map entryLen).sum r.align) +
    (b.map entryLen).sum ≤ r.appendCapacity := of_decide_eq_true hb
  set pos := (linear r s).position with hpos
  -- In whole blocks both batches fit one behind the other.
  have hblocks : pos + reserved + roundUp (a.map entryLen).sum r.align +
      roundUp (b.map entryLen).sum r.align ≤ r.appendCapacity := by
    rw [← roundUp_add r.align_pos (Nat.dvd_add hdvd (dvd_roundUp _ _))]
    exact roundUp_le r.align_dvd_appendCapacity (by omega)
  have hend : ∀ ops : List RedoOp, (linear r s).flushedEnd ops ≤
      pos + reserved + roundUp (ops.map entryLen).sum r.align := by
    intro ops
    rw [← roundUp_add r.align_pos hdvd]
    refine ((linear r s).flushedEnd_le ops).trans (roundUp_mono r.align_pos ?_)
    show pos + (ops.map entryLen).sum ≤ _
    omega
  have hround := fun ops : List RedoOp => @le_roundUp (ops.map entryLen).sum r.align r.align_pos
  have hfirst := hend a
  have hsecond := hend b
  have hlen := hround a
  refine ⟨?_, ?_⟩
  · show (linear r s).flushedEnd a + (b.map entryLen).sum ≤ r.appendCapacity
    omega
  · show (linear r s).flushedEnd b + (a.map entryLen).sum ≤ r.appendCapacity
    omega

end Admitted

/-- Two admitted batches commit in every order, with a flush between them or without, exactly when
the second one still fits from the block boundary behind the first, in either order. In the order
of admission they commit without a flush, and from a block boundary with one; on a linear log they
then commit in the other order too. -/
theorem reservation_commits_iff (crc : List UInt8 → UInt32) (log : RedoLog)
    (h : log.WellFormed) (reserved : Nat) (a b : List RedoOp)
    (ha : log.wouldFit reserved a = true)
    (hb : log.wouldFit (reserved + log.batchReservationBytes reserved a) b = true) :
    (log.AllCommit crc a b ↔ log.PaddedFits a b) ∧
    log.commitsBoth crc a b false = true ∧
    (log.layout.align ∣ log.position + reserved → log.commitsBoth crc a b true = true ∧
      ∀ r s, log = linear r s → log.AllCommit crc a b) := by
  obtain ⟨haccepts, -⟩ := wouldFit_spec h ha
  obtain ⟨haccepts', -⟩ := wouldFit_spec h hb
  have hfirst := @commitsBoth_iff crc log a b h haccepts haccepts' (room_of_wouldFit h ha)
  have hsecond := @commitsBoth_iff crc log b a h haccepts' haccepts (room_of_wouldFit h hb)
  have hpadded : log.AllCommit crc a b ↔ log.PaddedFits a b := by
    constructor
    · intro hall
      exact ⟨(hfirst true).mp (hall true).1, (hsecond true).mp (hall true).2⟩
    intro hfits flushBetween
    rw [hfirst, hsecond]
    cases flushBetween with
    | true => exact hfits
    | false =>
      exact ⟨(Layout.placed_mono haccepts' (log.placed_le_flushedEnd a)).trans hfits.1,
        (Layout.placed_mono haccepts (log.placed_le_flushedEnd b)).trans hfits.2⟩
  refine ⟨hpadded, commitsBoth_admitted h ha hb, fun hdvd => ?_⟩
  refine ⟨commitsBoth_admitted_flush h ha hb hdvd, ?_⟩
  rintro r s rfl
  exact hpadded.mpr (paddedFits_linear hdvd hb)

/-! ## Two logs -/

def entryOf (key : UInt8) (recordLen : Nat) : RedoOp :=
  .create ⟨.replicate 32 key⟩ 0 4096 1 false (List.replicate recordLen 5) []

def shortLinear : RedoLog :=
  let r : Region :=
    ⟨512, 1024, sectorRing.align_pos, sectorRing.segmentSize_pos, sectorRing.align_dvd⟩
  linear r (reachedLinear weightedSum r [.append (.setLocked ⟨.replicate 32 1⟩ true)])

def emptyRing : RedoLog := ring sectorRing (reachedRing weightedSum sectorRing [])

theorem reservation_commits_ring :
    emptyRing.WellFormed ∧ emptyRing.wouldFit 0 [entryOf 1 331] = true ∧
      emptyRing.wouldFit (0 + emptyRing.batchReservationBytes 0 [entryOf 1 331])
        [entryOf 2 431, entryOf 3 931] = true ∧
      emptyRing.PaddedFits [entryOf 1 331] [entryOf 2 431, entryOf 3 931] ∧
      emptyRing.AllCommit weightedSum [entryOf 1 331] [entryOf 2 431, entryOf 3 931] := by
  have hwf : emptyRing.WellFormed := reachedRing_wellFormed weightedSum sectorRing []
  have ha : emptyRing.wouldFit 0 [entryOf 1 331] = true := by decide +kernel
  have hb : emptyRing.wouldFit (0 + emptyRing.batchReservationBytes 0 [entryOf 1 331])
      [entryOf 2 431, entryOf 3 931] = true := by decide +kernel
  have hfits : emptyRing.PaddedFits [entryOf 1 331] [entryOf 2 431, entryOf 3 931] := by
    decide +kernel
  exact ⟨hwf, ha, hb, hfits,
    (reservation_commits_iff weightedSum emptyRing hwf 0 _ _ ha hb).1.mpr hfits⟩

/-- On the linear log the flush between two admitted batches rounds up past the reservation; on the
ring the second batch, committed first, leaves no segment for the first. -/
theorem reservation_over_admits :
    (shortLinear.wouldFit 0 [entryOf 1 431] = true ∧
      shortLinear.wouldFit (shortLinear.batchReservationBytes 0 [entryOf 1 431])
        [.checkpoint] = true ∧
      shortLinear.commitsBoth weightedSum [entryOf 1 431] [.checkpoint] true = false) ∧
    emptyRing.wouldFit 0 [entryOf 1 331] = true ∧
      emptyRing.wouldFit (emptyRing.batchReservationBytes 0 [entryOf 1 331])
        [entryOf 2 431, entryOf 3 931, entryOf 4 931] = true ∧
      emptyRing.commitsBoth weightedSum [entryOf 2 431, entryOf 3 931, entryOf 4 931]
        [entryOf 1 331] false = false := by
  decide +kernel

end RedoLog

end TeraSlab.Redo
