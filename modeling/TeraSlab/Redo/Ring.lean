import TeraSlab.Foundations.Blocks
import TeraSlab.Redo.Entry

/-!
# The segment ring

The entries region of the log is divided into equal segments. Appends fill the active segment and
roll to the next one in ring order; a checkpoint fence in the header covers a prefix of the
sequence numbers, and segments that hold only covered entries are given back. A segment that is
given back keeps its bytes until it is written again.

A flush writes the buffered frames at the cursor of the active segment, padded with zeros to a
block boundary, and then the header. Opening the log scans the segments from the oldest to the
active one.

Sequence numbers are unbounded here and take 64 bits in a frame.
-/

namespace TeraSlab.Redo

open Foundations

/-- What `format_ring` admits. -/
structure Geometry where
  align : Nat
  segmentSize : Nat
  segmentCount : Nat
  align_pos : 0 < align
  segmentSize_pos : 0 < segmentSize
  align_dvd : align ∣ segmentSize
  segmentCount_ge : 3 ≤ segmentCount

structure RingHeader where
  nextSequence : Nat
  checkpointSeq : Nat
  oldestSeg : Nat
  activeSeg : Nat
  writePosInSeg : Nat

/-- The redo region: the header block and the bytes of every segment. -/
structure Disk where
  header : RingHeader
  segment : Nat → List UInt8

/-- What one flush puts on the device: a run of blocks of a segment, then the header block. -/
structure FlushWrite where
  seg : Nat
  offset : Nat
  bytes : List UInt8
  header : RingHeader

namespace Disk

def write (disk : Disk) (w : FlushWrite) : Disk where
  header := w.header
  segment := Function.update disk.segment w.seg (overwrite (disk.segment w.seg) w.offset w.bytes)

/-- The part of a write a crash keeps, block by block. -/
structure Kept where
  header : Bool
  block : Nat → Bool

def writeKept (g : Geometry) (disk : Disk) (w : FlushWrite) (keep : Kept) : Disk where
  header := if keep.header then w.header else disk.header
  segment := Function.update disk.segment w.seg
    (overwriteKept g.align keep.block (disk.segment w.seg) w.offset w.bytes)

end Disk

structure RingLog where
  nextSequence : Nat
  checkpointSeq : Nat
  activeSeg : Nat
  oldestSeg : Nat
  writePosInSeg : Nat
  segMaxSeq : Nat → Nat
  buffer : List UInt8
  entriesCache : List RedoEntry
  pendingEntries : List RedoEntry

def Geometry.next (g : Geometry) (seg : Nat) : Nat := (seg + 1) % g.segmentCount

/-- How many segments before the active one hold entries. -/
def Geometry.sealedCount (g : Geometry) (oldest active : Nat) : Nat :=
  (active + g.segmentCount - oldest) % g.segmentCount

def Geometry.sealedSegs (g : Geometry) (oldest active : Nat) : List Nat :=
  (List.range (g.sealedCount oldest active)).map fun k => (oldest + k) % g.segmentCount

namespace RingLog

/-! ## Flushing -/

/-- `build_header_buf`. -/
def header (log : RingLog) : RingHeader where
  nextSequence := log.nextSequence
  checkpointSeq := log.checkpointSeq
  oldestSeg := log.oldestSeg
  activeSeg := log.activeSeg
  writePosInSeg := log.writePosInSeg

structure PreparedFlush where
  raw : List UInt8
  intra : Nat
  seg : Nat
  dataOffset : Nat
  header : RingHeader

/-- Take the buffer out of the log and move the cursor behind its last block. -/
def prepareFlush (g : Geometry) (log : RingLog) : Option (RingLog × PreparedFlush) :=
  if log.buffer.isEmpty then none
  else
    let alignedOffset := log.writePosInSeg / g.align * g.align
    let intra := log.writePosInSeg - alignedOffset
    let log' := { log with
      writePosInSeg := alignedOffset + roundUp (intra + log.buffer.length) g.align
      buffer := []
      entriesCache := log.entriesCache ++ log.pendingEntries
      pendingEntries := [] }
    some (log', ⟨log.buffer, intra, log.activeSeg, alignedOffset, log'.header⟩)

/-- The aligned block of a prepared flush: what already lies in front of the cursor in its first
block, the frames, and zeros. -/
def commitFlush (g : Geometry) (disk : Disk) (p : PreparedFlush) : FlushWrite where
  seg := p.seg
  offset := p.dataOffset
  bytes := ((disk.segment p.seg).drop p.dataOffset).take p.intra ++ p.raw ++
    List.replicate (roundUp (p.intra + p.raw.length) g.align - (p.intra + p.raw.length)) 0
  header := p.header

/-! ## Appending -/

def bufferEntry (crc : List UInt8 → UInt32) (log : RingLog) (op : RedoOp) : RingLog :=
  let entry : RedoEntry := ⟨.ofNat log.nextSequence, op⟩
  { log with
    nextSequence := log.nextSequence + 1
    buffer := log.buffer ++ entry.serialize crc
    pendingEntries := log.pendingEntries ++ [entry]
    segMaxSeq := Function.update log.segMaxSeq log.activeSeg
      (max (log.segMaxSeq log.activeSeg) log.nextSequence) }

/-- Length of an operation's entry, as the capacity checks compute it. -/
def entryLen (op : RedoOp) : Nat := entryHeaderSize + entryOverhead + op.serializedDataLen

section

variable (crc : List UInt8 → UInt32) (log : RingLog) (op : RedoOp)

theorem length_bufferEntry :
    (log.bufferEntry crc op).buffer.length = log.buffer.length + entryLen op := by
  rw [bufferEntry, List.length_append]
  exact congrArg _ (RedoEntry.length_serialize crc _)

theorem entryLen_pos : 0 < entryLen op := by
  unfold entryLen entryHeaderSize
  omega

theorem bufferEntry_ne_nil : (log.bufferEntry crc op).buffer ≠ [] := by
  have hpos := entryLen_pos op
  apply List.ne_nil_of_length_pos
  rw [length_bufferEntry]
  omega

end

/-- The operation does not fit the active segment any more. -/
def needsRoll (g : Geometry) (log : RingLog) (op : RedoOp) : Bool :=
  g.segmentSize < log.writePosInSeg + log.buffer.length + entryLen op

def ringFull (g : Geometry) (log : RingLog) : Bool := g.next log.activeSeg == log.oldestSeg

/-- Move on to the next segment; the buffer has been written. -/
def advance (g : Geometry) (log : RingLog) : RingLog :=
  { log with activeSeg := g.next log.activeSeg, writePosInSeg := 0 }

/-- `ring_batch_fits`: place entries of these lengths from a cursor, rolling at segment ends. -/
def batchFits (g : Geometry) (oldest : Nat) : Nat → Nat → List Nat → Bool
  | _, _, [] => true
  | seg, off, len :: lens =>
    if g.segmentSize < len then false
    else if g.segmentSize < off + len then
      if g.next seg = oldest then false else batchFits g oldest (g.next seg) len lens
    else batchFits g oldest seg (off + len) lens

def ringBatchFits (g : Geometry) (log : RingLog) (lens : List Nat) : Bool :=
  batchFits g log.oldestSeg log.activeSeg (log.writePosInSeg + log.buffer.length) lens

/-! ## Fence and reclaim -/

/-- `reclaim_covered_segments`: the loop over the segments before the active one; the highest
sequence number given back, and whether any segment was. -/
def reclaimLoop (g : Geometry) : Nat → RingLog → Nat → Bool → RingLog × Nat × Bool
  | 0, log, freedThrough, freed => (log, freedThrough, freed)
  | fuel + 1, log, freedThrough, freed =>
    if log.oldestSeg = log.activeSeg then (log, freedThrough, freed)
    else if log.checkpointSeq < log.segMaxSeq log.oldestSeg then (log, freedThrough, freed)
    else
      reclaimLoop g fuel
        { log with
          segMaxSeq := Function.update log.segMaxSeq log.oldestSeg 0
          oldestSeg := g.next log.oldestSeg }
        (max freedThrough (log.segMaxSeq log.oldestSeg)) true

/-! ## Opening -/

inductive RingError where
  | corruptRingSegment (seg offset : Nat)
deriving DecidableEq

/-- The scan of one segment from a position, with the last sequence number seen (0 for none). -/
def scanLoop (crc : List UInt8 → UInt32) (g : Geometry) (buf : List UInt8) (seg : Nat)
    (isActive : Bool) : Nat → Nat → Nat → Except RingError (List RedoEntry × Nat × Nat)
  | 0, pos, prevSeq => .ok ([], pos, prevSeq)
  | fuel + 1, pos, prevSeq =>
    match RedoEntry.deserialize crc (buf.drop pos) with
    | some (entry, consumed) =>
      if prevSeq ≠ 0 ∧ entry.sequence.toNat ≤ prevSeq then .ok ([], pos, prevSeq)
      else
        match scanLoop crc g buf seg isActive fuel (pos + consumed) entry.sequence.toNat with
        | .error err => .error err
        | .ok (entries, stop, last) => .ok (entry :: entries, stop, last)
    | none =>
      if (buf.drop pos).length < entryHeaderSize then .ok ([], pos, prevSeq)
      else if len32At (buf.drop pos) 0 ≠ 0 then
        -- a torn frame: the end of the active segment, corruption anywhere else
        if isActive then .ok ([], pos, prevSeq) else .error (.corruptRingSegment seg pos)
      else if pos % g.align = 0 then .ok ([], pos, prevSeq)
      else
        let padEnd := min (roundUp pos g.align) g.segmentSize
        if ((buf.drop pos).take (padEnd - pos)).all (· == 0) then
          scanLoop crc g buf seg isActive fuel padEnd prevSeq
        else if isActive then .ok ([], pos, prevSeq) else .error (.corruptRingSegment seg pos)

def scanSegment (crc : List UInt8 → UInt32) (g : Geometry) (disk : Disk) (seg prevSeq : Nat)
    (isActive : Bool) : Except RingError (List RedoEntry × Nat × Nat) :=
  match scanLoop crc g (disk.segment seg) seg isActive (g.segmentSize + 1) 0 prevSeq with
  | .error err => .error err
  | .ok (entries, pos, last) => .ok (entries, min (roundUp pos g.align) g.segmentSize, last)

def scanSealed (crc : List UInt8 → UInt32) (g : Geometry) (disk : Disk) :
    List Nat → Nat → (Nat → Nat) → Except RingError (List RedoEntry × Nat × (Nat → Nat))
  | [], prevSeq, segMax => .ok ([], prevSeq, segMax)
  | seg :: segs, prevSeq, segMax =>
    match scanSegment crc g disk seg prevSeq false with
    | .error err => .error err
    | .ok (entries, _, last) =>
      let segMax := match entries.getLast? with
        | some e => Function.update segMax seg e.sequence.toNat
        | none => segMax
      match scanSealed crc g disk segs last segMax with
      | .error err => .error err
      | .ok (more, last, segMax) => .ok (entries ++ more, last, segMax)

def «open» (crc : List UInt8 → UInt32) (g : Geometry) (disk : Disk) : Except RingError RingLog :=
  let h := disk.header
  match scanSealed crc g disk (g.sealedSegs h.oldestSeg h.activeSeg) 0 (fun _ => 0) with
  | .error err => .error err
  | .ok (older, prevSeq, segMax) =>
    match scanSegment crc g disk h.activeSeg prevSeq true with
    | .error err => .error err
    | .ok (entries, tail, last) =>
      .ok {
        nextSequence := max (max h.nextSequence 1) (last + 1)
        checkpointSeq := h.checkpointSeq
        activeSeg := h.activeSeg
        oldestSeg := h.oldestSeg
        writePosInSeg := tail
        segMaxSeq := match entries.getLast? with
          | some e => Function.update segMax h.activeSeg e.sequence.toNat
          | none => segMax
        buffer := []
        entriesCache := older ++ entries
        pendingEntries := [] }

def recover (log : RingLog) : List RedoEntry :=
  log.entriesCache.filter fun e => decide (log.checkpointSeq < e.sequence.toNat)

end RingLog

end TeraSlab.Redo
