import TeraSlab.Foundations.Run
import TeraSlab.Redo.Ring

/-!
# A ring log and its device

The log in memory, what the device holds for certain, and the writes since the last sync. Beside
the state stands what has happened: the entries written so far, in order and for each segment, and
the entries whose flush has returned.
-/

namespace TeraSlab.Redo

open Foundations RingLog

structure System where
  log : RingLog
  durable : Disk
  unsynced : List FlushWrite
  flushed : List RedoEntry
  written : Nat → List RedoEntry
  acked : List RedoEntry

namespace System

def image (s : System) : Disk := s.unsynced.foldl Disk.write s.durable

/-- `format_ring` on a zeroed region. -/
def format (g : Geometry) : System where
  log := {
    nextSequence := 1
    checkpointSeq := 0
    activeSeg := 0
    oldestSeg := 0
    writePosInSeg := 0
    segMaxSeq := fun _ => 0
    buffer := []
    entriesCache := []
    pendingEntries := [] }
  durable := ⟨⟨1, 0, 0, 0, 0⟩, fun _ => List.replicate g.segmentSize 0⟩
  unsynced := []
  flushed := []
  written := fun _ => []
  acked := []

/-- `flush_pwrite_no_sync`. -/
def writeOut (g : Geometry) (s : System) : System :=
  match s.log.prepareFlush g with
  | none => s
  | some (log, p) =>
    { s with
      log := log
      unsynced := s.unsynced ++ [commitFlush g s.image p]
      flushed := s.flushed ++ s.log.pendingEntries
      written := Function.update s.written s.log.activeSeg
        (s.written s.log.activeSeg ++ s.log.pendingEntries) }

def sync (s : System) : System := { s with durable := s.image, unsynced := [] }

def flush (g : Geometry) (s : System) : System :=
  let s' := if s.log.buffer.isEmpty then s else (s.writeOut g).sync
  { s' with acked := s'.flushed }

def writeHeader (s : System) : System :=
  { s with durable := { s.image with header := s.log.header }, unsynced := [] }

section

variable (crc : List UInt8 → UInt32) (g : Geometry)

def tryAppend (s : System) (op : RedoOp) : Option System :=
  if g.segmentSize < entryLen op then none
  else if s.log.needsRoll g op then
    if s.log.ringFull g then none
    else
      let s := s.writeOut g
      some { s with log := (s.log.advance g).bufferEntry crc op }
  else some { s with log := s.log.bufferEntry crc op }

def appendAll : System → List RedoOp → System
  | s, [] => s
  | s, op :: ops =>
    match s.tryAppend crc g op with
    | none => s
    | some s => appendAll s ops

def appendAtomic (s : System) (ops : List RedoOp) : System :=
  if s.log.ringBatchFits g (ops.map entryLen) then s.appendAll crc g ops else s

end

def setFence (s : System) (throughSequence : Nat) : System :=
  let fence := max throughSequence s.log.checkpointSeq
  if fence = s.log.checkpointSeq then s
  else { s with log := { s.log with checkpointSeq := fence } }.writeHeader

def reclaim (g : Geometry) (s : System) : System :=
  let (log, freedThrough, freed) := s.log.reclaimLoop g g.segmentCount 0 false
  if freed then
    { s with log := { log with
        entriesCache := log.entriesCache.filter
          fun e => decide (freedThrough < e.sequence.toNat) } }.writeHeader
  else s

end System

inductive RingCall where
  | append (op : RedoOp)
  | appendAtomic (ops : List RedoOp)
  | flush
  | setFence (throughSequence : Nat)
  | reclaim

def System.step (crc : List UInt8 → UInt32) (g : Geometry) (s : System) : RingCall → System
  | .append op => (s.tryAppend crc g op).getD s
  | .appendAtomic ops => s.appendAtomic crc g ops
  | .flush => s.flush g
  | .setFence throughSequence => s.setFence throughSequence
  | .reclaim => s.reclaim g

namespace System

variable (crc : List UInt8 → UInt32) (g : Geometry)

/-- The single appends of a batch, each with the state it starts from. -/
def appendsAll : System → List RedoOp → List (System × RedoOp)
  | _, [] => []
  | s, op :: ops =>
    (s, op) :: match s.tryAppend crc g op with
      | none => []
      | some s => appendsAll s ops

def appends (s : System) : RingCall → List (System × RedoOp)
  | .append op => [(s, op)]
  | .appendAtomic ops =>
    if s.log.ringBatchFits g (ops.map entryLen) then s.appendsAll crc g ops else []
  | _ => []

section Keeps

variable {crc g} {P : System → Prop} {C : System → RedoOp → Prop} {s : System}
  (hkeeps : ∀ s s' op, P s → C s op → s.tryAppend crc g op = some s' → P s')
include hkeeps

theorem keeps_append {op : RedoOp} (h : P s) (hop : C s op) :
    P ((s.tryAppend crc g op).getD s) := by
  cases hstep : s.tryAppend crc g op with
  | none => exact h
  | some s' => exact hkeeps s s' op h hop hstep

/-- What an append keeps under a condition, a batch keeps whose appends all meet it. -/
theorem keeps_appendAtomic {ops : List RedoOp} (h : P s)
    (hops : ∀ p ∈ s.appends crc g (.appendAtomic ops), C p.1 p.2) :
    P (s.appendAtomic crc g ops) := by
  unfold appendAtomic
  split
  · rename_i hfits
    simp only [appends, hfits, if_true] at hops
    clear hfits
    induction ops generalizing s with
    | nil => exact h
    | cons op ops ih =>
      rw [appendAll]
      cases hstep : s.tryAppend crc g op with
      | none => exact h
      | some s' =>
        simp only [appendsAll, hstep, List.mem_cons, forall_eq_or_imp] at hops
        exact ih (hkeeps s s' op h hops.1 hstep) hops.2
  · exact h

end Keeps

end System

def reachedRing (crc : List UInt8 → UInt32) (g : Geometry) (calls : List RingCall) : System :=
  run (System.step crc g) (System.format g) calls

end TeraSlab.Redo
