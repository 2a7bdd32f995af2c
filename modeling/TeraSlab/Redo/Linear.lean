import TeraSlab.Foundations.Run
import TeraSlab.Redo.Ring

/-!
# The linear log

The entries region is one run of blocks. Appends go to the write position; a compaction copies the
entries above its fence to a place that holds no live bytes, behind the tail or in front of the
live window, and moves the start of the live window there with one header write. What a compaction
leaves behind keeps its bytes until it is written again; only a reset clears the region.

The scan on opening reads the region in pieces and carries an incomplete frame over to the next
piece; it sees what a scan of the whole region sees, and is modelled as such.
-/

namespace TeraSlab.Redo

open Foundations RingLog

/-- The entries region of a linear log: whole blocks. -/
structure Region where
  align : Nat
  size : Nat
  align_pos : 0 < align
  size_pos : 0 < size
  align_dvd : align ∣ size

structure LinearHeader where
  nextSequence : Nat
  checkpointSeq : Nat
  logicalStart : Nat

structure LinearDisk where
  header : LinearHeader
  region : List UInt8

structure LinearLog where
  nextSequence : Nat
  checkpointSeq : Nat
  writePos : Nat
  logicalStart : Nat
  buffer : List UInt8
  entriesCache : List RedoEntry
  pendingEntries : List RedoEntry

namespace Region

/-- `fence_reserve_bytes`: room at the end that only reclaim markers may use. -/
def fenceReserveBytes (r : Region) : Nat := if 64 * r.align ≤ r.size then 2 * r.align else 0

def appendCapacity (r : Region) : Nat := r.size - r.fenceReserveBytes

end Region

namespace LinearLog

def header (log : LinearLog) : LinearHeader where
  nextSequence := log.nextSequence
  checkpointSeq := log.checkpointSeq
  logicalStart := log.logicalStart

/-! ## Appending -/

def bufferEntry (crc : List UInt8 → UInt32) (log : LinearLog) (op : RedoOp) : LinearLog :=
  let entry : RedoEntry := ⟨.ofNat log.nextSequence, op⟩
  { log with
    nextSequence := log.nextSequence + 1
    buffer := log.buffer ++ entry.serialize crc
    pendingEntries := log.pendingEntries ++ [entry] }

theorem length_bufferEntry (crc : List UInt8 → UInt32) (log : LinearLog) (op : RedoOp) :
    (log.bufferEntry crc op).buffer.length = log.buffer.length + entryLen op := by
  rw [bufferEntry, List.length_append]
  exact congrArg _ (RedoEntry.length_serialize crc _)

def appendWithCapacity (crc : List UInt8 → UInt32) (entriesCapacity : Nat) (log : LinearLog)
    (op : RedoOp) : Option LinearLog :=
  if entriesCapacity < log.writePos + log.buffer.length + entryLen op then none
  else some (log.bufferEntry crc op)

def append (crc : List UInt8 → UInt32) (r : Region) (log : LinearLog) (op : RedoOp) :
    Option LinearLog := log.appendWithCapacity crc r.appendCapacity op

def appendReclaimMarker (crc : List UInt8 → UInt32) (r : Region) (log : LinearLog) (op : RedoOp) :
    Option LinearLog := log.appendWithCapacity crc r.size op

def appendAll (crc : List UInt8 → UInt32) (r : Region) : LinearLog → List RedoOp → Option LinearLog
  | log, [] => some log
  | log, op :: ops =>
    match log.append crc r op with
    | none => none
    | some log => appendAll crc r log ops

/-- `append_atomic`: the whole batch is measured before anything is buffered. -/
def appendAtomic (crc : List UInt8 → UInt32) (r : Region) (log : LinearLog) (ops : List RedoOp) :
    Option LinearLog :=
  if ops.isEmpty then some log
  else if r.appendCapacity < log.writePos + log.buffer.length + (ops.map entryLen).sum then none
  else log.appendAll crc r ops

/-! ## Flushing -/

def flushed (r : Region) (log : LinearLog) : LinearLog :=
  let alignedOffset := log.writePos / r.align * r.align
  let intra := log.writePos - alignedOffset
  { log with
    writePos := alignedOffset + roundUp (intra + log.buffer.length) r.align
    buffer := []
    entriesCache := log.entriesCache ++ log.pendingEntries
    pendingEntries := [] }

/-- The region after a flush: what lies in front of the cursor in its block, the frames, zeros. -/
def writeBuffer (r : Region) (log : LinearLog) (region : List UInt8) : List UInt8 :=
  let alignedOffset := log.writePos / r.align * r.align
  let intra := log.writePos - alignedOffset
  let total := intra + log.buffer.length
  overwrite region alignedOffset
    ((region.drop alignedOffset).take intra ++ log.buffer ++
      List.replicate (roundUp total r.align - total) 0)

/-! ## Compaction -/

/-- A recovery marker that fences nothing above the given sequence number. -/
def coveredMarker (throughSequence : Nat) : RedoOp → Bool
  | .recoveryProgress markerThrough => decide (markerThrough.toNat ≤ throughSequence)
  | _ => false

/-- The entries a compaction keeps: none when only covered markers are left. -/
def retained (log : LinearLog) (throughSequence : Nat) : List RedoEntry :=
  let above := log.entriesCache.filter fun e => decide (throughSequence < e.sequence.toNat)
  if above.all fun e => coveredMarker throughSequence e.op then [] else above

/-- The copy a compaction writes, where to, and the length of its content. -/
structure Staged where
  newStart : Nat
  contentLen : Nat
  contentAligned : Nat
  bytes : List UInt8

/-- The place for the copy of the retained entries, behind the tail or in the stale front gap. -/
def stage (crc : List UInt8 → UInt32) (r : Region) (log : LinearLog) (retained : List RedoEntry) :
    Option Staged :=
  let bytes := retained.flatMap (RedoEntry.serialize crc)
  let contentAligned := roundUp (bytes.length + entryHeaderSize) r.align
  let totalWithTail := contentAligned + r.align
  let copy := bytes ++ List.replicate (totalWithTail - bytes.length) 0
  if log.writePos + totalWithTail ≤ r.size then
    some ⟨log.writePos, bytes.length, contentAligned, copy⟩
  else if totalWithTail ≤ log.logicalStart then some ⟨0, bytes.length, contentAligned, copy⟩
  else none

/-! ## Opening -/

inductive LinearError where
  | sequenceOutOfOrder (offset previous current : Nat)
deriving DecidableEq

/-- The scan from a position: the last sequence number seen, and whether a pad was skipped just
before. -/
def scanLoop (crc : List UInt8 → UInt32) (r : Region) (region : List UInt8) :
    Nat → Nat → Option Nat → Bool → Except LinearError (List RedoEntry × Nat)
  | 0, pos, _, _ => .ok ([], pos)
  | fuel + 1, pos, prevSeq, justSkippedPad =>
    match RedoEntry.deserialize crc (region.drop pos) with
    | some (entry, consumed) =>
      if prevSeq.any fun prev => decide (entry.sequence.toNat ≤ prev) then
        if justSkippedPad then .ok ([], pos)
        else .error (.sequenceOutOfOrder pos (prevSeq.getD 0) entry.sequence.toNat)
      else
        match scanLoop crc r region fuel (pos + consumed) (some entry.sequence.toNat) false with
        | .error err => .error err
        | .ok (entries, tail) => .ok (entry :: entries, tail)
    | none =>
      if (region.drop pos).length < entryHeaderSize then .ok ([], pos)
      else if len32At (region.drop pos) 0 ≠ 0 then .ok ([], pos)
      else if pos % r.align = 0 then .ok ([], pos)
      else
        let padEnd := roundUp pos r.align
        if (region.drop pos).length < padEnd - pos then .ok ([], pos)
        else if ((region.drop pos).take (padEnd - pos)).all (· == 0) then
          scanLoop crc r region fuel padEnd prevSeq true
        else .ok ([], pos)

def «open» (crc : List UInt8 → UInt32) (r : Region) (disk : LinearDisk) :
    Except LinearError LinearLog :=
  let start := disk.header.logicalStart
  match scanLoop crc r disk.region (r.size + 1) start none false with
  | .error err => .error err
  | .ok (entries, tailPos) =>
    let next := max disk.header.nextSequence 1
    .ok {
      nextSequence := match entries.getLast? with
        | some last => max next (last.sequence.toNat + 1)
        | none => next
      checkpointSeq := disk.header.checkpointSeq
      writePos := tailPos
      logicalStart := start
      buffer := []
      entriesCache := entries
      pendingEntries := [] }

end LinearLog

/-! ## The log and its device -/

/-- A log, its device, and what has happened: the entries flushed so far, where the last frame
written ends, the largest fence of a completed compaction, and the largest sequence number given
back. -/
structure LinearSystem where
  log : LinearLog
  disk : LinearDisk
  flushed : List RedoEntry
  lastEnd : Nat
  fence : Nat
  reclaimed : Nat

namespace LinearSystem

def format (r : Region) : LinearSystem where
  log := {
    nextSequence := 1
    checkpointSeq := 0
    writePos := 0
    logicalStart := 0
    buffer := []
    entriesCache := []
    pendingEntries := [] }
  disk := ⟨⟨1, 0, 0⟩, List.replicate r.size 0⟩
  flushed := []
  lastEnd := 0
  fence := 0
  reclaimed := 0

variable (crc : List UInt8 → UInt32) (r : Region)

def append (s : LinearSystem) (op : RedoOp) : LinearSystem :=
  { s with log := (s.log.append crc r op).getD s.log }

def flush (s : LinearSystem) : LinearSystem :=
  if s.log.buffer.isEmpty then s
  else
    { s with
      log := s.log.flushed r
      disk := ⟨(s.log.flushed r).header, s.log.writeBuffer r s.disk.region⟩
      flushed := s.flushed ++ s.log.pendingEntries
      lastEnd := s.log.writePos + s.log.buffer.length }

def writeHeader (s : LinearSystem) : LinearSystem :=
  { s with disk := { s.disk with header := s.log.header } }

def checkpointFence (s : LinearSystem) (throughSequence : UInt64) : LinearSystem :=
  match s.log.appendReclaimMarker crc r (.recoveryProgress throughSequence) with
  | none => s
  | some log =>
    let s := ({ s with log := log } : LinearSystem).flush r
    if s.log.checkpointSeq < throughSequence.toNat then
      { s with log := { s.log with checkpointSeq := throughSequence.toNat } }.writeHeader
    else s

def reset (s : LinearSystem) (fence : Nat) : LinearSystem :=
  { s with
    log := { s.log with
      writePos := 0
      logicalStart := 0
      buffer := []
      entriesCache := []
      pendingEntries := [] }
    disk := { s.disk with region := List.replicate r.size 0 }
    lastEnd := 0
    fence := max s.fence fence
    reclaimed := max s.reclaimed (min fence (s.log.nextSequence - 1)) }.writeHeader

def flip (s : LinearSystem) (throughSequence : Nat) (staged : LinearLog.Staged)
    (retained : List RedoEntry) : LinearSystem :=
  { s with
    log := { s.log with
      writePos := staged.newStart + staged.contentAligned
      logicalStart := staged.newStart
      buffer := []
      entriesCache := retained
      pendingEntries := [] }
    disk := { s.disk with region := overwrite s.disk.region staged.newStart staged.bytes }
    lastEnd := staged.newStart + staged.contentLen
    fence := max s.fence throughSequence
    reclaimed := max s.reclaimed (min throughSequence (s.log.nextSequence - 1)) }.writeHeader

/-- `compact_prefix_through`; without room for the copy it stops after its flush. -/
def compactPrefixThrough (s : LinearSystem) (throughSequence : Nat) : LinearSystem :=
  let s := s.flush r
  let retained := s.log.retained throughSequence
  if retained.isEmpty then s.reset r throughSequence
  else
    match s.log.stage crc r retained with
    | none => s
    | some staged => s.flip throughSequence staged retained

/-- The device when a compaction is cut short after some blocks of its copy. -/
def cutCompaction (s : LinearSystem) (throughSequence : Nat) (keep : Nat → Bool) : LinearDisk :=
  let s := s.flush r
  let retained := s.log.retained throughSequence
  if retained.isEmpty then s.disk
  else
    match s.log.stage crc r retained with
    | none => s.disk
    | some staged =>
      { s.disk with
        region := overwriteKept r.align keep s.disk.region staged.newStart staged.bytes }

end LinearSystem

inductive LinearCall where
  | append (op : RedoOp)
  | flush
  | checkpointFence (throughSequence : UInt64)
  | compactPrefixThrough (throughSequence : Nat)
  | reset

def LinearSystem.step (crc : List UInt8 → UInt32) (r : Region) (s : LinearSystem) :
    LinearCall → LinearSystem
  | .append op => s.append crc r op
  | .flush => s.flush r
  | .checkpointFence throughSequence => s.checkpointFence crc r throughSequence
  | .compactPrefixThrough throughSequence => s.compactPrefixThrough crc r throughSequence
  | .reset => s.reset r (s.log.nextSequence - 1)

def reachedLinear (crc : List UInt8 → UInt32) (r : Region) (calls : List LinearCall) :
    LinearSystem :=
  Foundations.run (LinearSystem.step crc r) (LinearSystem.format r) calls

end TeraSlab.Redo
