import TeraSlab.Allocator.Freelist

/-!
# The slot allocator

`SlotAllocator` hands out device space from the freelist first and from the high-water mark
otherwise. Allocations and frees are journaled in the redo log before the caller sees them; the
outcome of that append is an argument here, and a failed append takes the reservation back. The
batch entry points reserve in memory only and leave the caller to commit or to roll back.
-/

namespace TeraSlab.Allocator

open Foundations

def dataRegionOffset : Nat := 1024 * 1024

/-- Reservation granularity of small records in packed mode. -/
def recordAlign : Nat := 8

/-- Size and I/O alignment of a block device. Devices are files or memory buffers, so their
sizes and buffer layouts stay below the signed 64-bit range. -/
structure Geometry where
  deviceSize : Nat
  alignment : Nat
  alignment_pow : ∃ k, alignment = 2 ^ k
  alignment_min : 512 ≤ alignment
  alignment_max : alignment ≤ 2 ^ 62
  deviceSize_max : deviceSize ≤ 2 ^ 63

inductive AllocatorError where
  | deviceFull (requested largestFree : Nat)
  | invalidFree (offset size : Nat)
  | doubleFree (offset size freeOffset freeSize : Nat)
  | redoLogFailure (detail : String)
  | freelistOverflow (entries max : Nat)
  | corruptedHeader
  deriving DecidableEq, Repr

/-- Where a reservation came from, kept so that it can be taken back. -/
inductive Reservation where
  | fromFreelist (allocOffset regionSize : Nat)
  | fromHighWater (previousNextOffset : Nat)
  deriving DecidableEq, Repr

abbrev AllocatedRegion := Extent

inductive RegionRedoOp where
  | allocateRegion (offset size deviceId : Nat)
  | freeRegion (offset size deviceId : Nat)
  deriving DecidableEq, Repr

structure SlotAllocator where
  geometry : Geometry
  freelist : FreelistBackend
  nextOffset : Nat
  redoLog : Bool
  redoDeviceId : Nat
  packed : Bool
  appendOnly : Bool

/-- The regions of a batch, reserved in memory and not journaled yet. -/
structure PendingBatchAllocation where
  regions : List (Option AllocatedRegion)
  rollback : List (Nat × Reservation)
  allocRedoOps : List RegionRedoOp
  deriving DecidableEq, Repr

def divCeil (a b : Nat) : Nat := if a % b = 0 then a / b else a / b + 1

/-- Reduction to the 64-bit words of the source. -/
def wrap64 (n : Nat) : Nat := n % 2 ^ 64

/-- Merge a region with the free region that starts where it stops. Returns the merged size. -/
def FreelistBackend.mergeNext (fl : FreelistBackend) (offset size : Nat) :
    Nat × FreelistBackend :=
  match fl.nextFrom (offset + size) with
  | some next =>
    if next.offset = offset + size then (size + next.size, (fl.remove next.offset).2)
    else (size, fl)
  | none => (size, fl)

/-- Merge a region with the free region that stops where it starts. -/
def FreelistBackend.mergePrev (fl : FreelistBackend) (offset size : Nat) :
    (Nat × Nat) × FreelistBackend :=
  match fl.prevBefore offset with
  | some prev =>
    if prev.offset + prev.size = offset then
      ((prev.offset, size + prev.size), (fl.remove prev.offset).2)
    else ((offset, size), fl)
  | none => ((offset, size), fl)

/-- Merge `[offset, offset + size)` with the free regions that touch it. The merged neighbours
leave the freelist; the caller inserts the result. -/
def FreelistBackend.coalesceAdjacent (fl : FreelistBackend) (offset size : Nat) :
    (Nat × Nat) × FreelistBackend :=
  let merged := fl.mergeNext offset size
  merged.2.mergePrev offset merged.1

/-- Put a region back: merge it with its neighbours, insert the result, promote if needed. -/
def FreelistBackend.insertCoalesced (fl : FreelistBackend) (offset size : Nat) :
    FreelistBackend :=
  let merged := fl.coalesceAdjacent offset size
  (merged.2.insert merged.1.1 merged.1.2).maybePromote

namespace SlotAllocator

/-- A fresh allocator on a device. The redo log, the store tag and the two modes are set once,
before the first allocation. -/
def new (g : Geometry) (redoLog : Bool) (redoDeviceId : Nat) (packed appendOnly : Bool) :
    SlotAllocator :=
  { geometry := g, freelist := .new, nextOffset := dataRegionOffset, redoLog, redoDeviceId,
    packed, appendOnly }

variable (a : SlotAllocator)

def alignment : Nat := a.geometry.alignment

def deviceSize : Nat := a.geometry.deviceSize

def alignUp (size : Nat) : Nat := wrap64 (divCeil size a.alignment * a.alignment)

/-- The reservation size of `size` bytes: device blocks, except that packed mode rounds what
fits one block to the record granularity only. -/
def alignReservation (size : Nat) : Nat :=
  if !a.packed then a.alignUp size
  else if size ≤ a.alignment then wrap64 (divCeil size recordAlign * recordAlign)
  else a.alignUp size

/-- Would the reservation violate the packed placement rule at the high-water mark: a small
record straddling two blocks, or a large one starting inside a block? -/
def needBump (alignedSize : Nat) : Bool :=
  if alignedSize ≤ a.alignment then a.alignment < a.nextOffset % a.alignment + alignedSize
  else a.nextOffset % a.alignment ≠ 0

def appendPoint (alignedSize : Nat) : Nat :=
  if a.packed && a.needBump alignedSize then
    wrap64 (divCeil a.nextOffset a.alignment * a.alignment)
  else a.nextOffset

/-- The freelist's answer to a reservation. Append-only mode never asks. -/
def fromFreelist (alignedSize : Nat) : Option (Nat × Nat) × FreelistBackend :=
  if a.appendOnly then (none, a.freelist)
  else a.freelist.bestFit alignedSize (if a.packed then some a.alignment else none)

def reserveAligned (alignedSize : Nat) :
    Except AllocatorError (Nat × Reservation) × SlotAllocator :=
  match a.fromFreelist alignedSize with
  | (some (regionOffset, regionSize), freelist) =>
    (.ok (regionOffset, .fromFreelist regionOffset regionSize),
      { a with freelist := freelist.maybeDemote })
  | (none, freelist) =>
    let offset := a.appendPoint alignedSize
    -- one test for the overflow of `checked_add` and for the device bound
    if u64Max < offset + alignedSize ∨ a.deviceSize < offset + alignedSize then
      (.error (.deviceFull alignedSize freelist.largest), { a with freelist })
    else
      (.ok (offset, .fromHighWater a.nextOffset),
        { a with freelist, nextOffset := offset + alignedSize })

def rollbackReservation (alignedSize : Nat) : Reservation → SlotAllocator
  | .fromFreelist allocOffset regionSize =>
    let freelist :=
      if alignedSize < regionSize then (a.freelist.remove (allocOffset + alignedSize)).2
      else a.freelist
    { a with freelist := freelist.insertCoalesced allocOffset regionSize }
  | .fromHighWater previousNextOffset => { a with nextOffset := previousNextOffset }

def rollbackAll (reservations : List (Nat × Reservation)) : SlotAllocator :=
  reservations.reverse.foldl (fun a r => a.rollbackReservation r.1 r.2) a

/-- What a call returns, the state it leaves and the redo entries it made durable. -/
structure Outcome (α : Type) where
  result : Except AllocatorError α
  state : SlotAllocator
  journaled : List RegionRedoOp

/-- Allocate at least `size` bytes. `journal` is the error of the redo append, if it fails. -/
def allocate (size : Nat) (journal : Option String) : Outcome Nat :=
  let alignedSize := a.alignReservation size
  match a.reserveAligned alignedSize with
  | (.error e, a') => ⟨.error e, a', []⟩
  | (.ok (offset, reservation), a') =>
    if a'.redoLog then
      match journal with
      | none => ⟨.ok offset, a', [.allocateRegion offset alignedSize a'.redoDeviceId]⟩
      | some e =>
        ⟨.error (.redoLogFailure ("allocate redo append/flush failed: " ++ e)),
          a'.rollbackReservation alignedSize reservation, []⟩
    else ⟨.ok offset, a', []⟩

/-- Reserve the regions of a batch one after the other. An item that does not fit is skipped;
any other error takes the reservations made so far back. -/
def reserveBatchLoop : SlotAllocator → List Nat → PendingBatchAllocation →
    Except AllocatorError PendingBatchAllocation × SlotAllocator
  | a, [], acc => (.ok acc, a)
  | a, size :: sizes, acc =>
    let alignedSize := a.alignReservation size
    match a.reserveAligned alignedSize with
    | (.ok (offset, reservation), a') =>
      reserveBatchLoop a' sizes
        { regions := acc.regions ++ [some ⟨offset, alignedSize⟩]
          rollback := acc.rollback ++ [(alignedSize, reservation)]
          allocRedoOps :=
            acc.allocRedoOps ++ [.allocateRegion offset alignedSize a'.redoDeviceId] }
    | (.error (.deviceFull _ _), a') =>
      reserveBatchLoop a' sizes { acc with regions := acc.regions ++ [none] }
    | (.error e, a') => (.error e, a'.rollbackAll acc.rollback)

def reserveBatch (sizes : List Nat) :
    Except AllocatorError PendingBatchAllocation × SlotAllocator :=
  reserveBatchLoop a sizes ⟨[], [], []⟩

/-- The reservations are in the freelist already; committing only records metrics. -/
def commitPending (_pending : PendingBatchAllocation) : SlotAllocator := a

def rollbackPending (pending : PendingBatchAllocation) : SlotAllocator :=
  a.rollbackAll pending.rollback

def freeRegionContaining (offset : Nat) : Option FreeRegion :=
  (a.freelist.prevBefore (offset + 1)).filter fun r => r.offset ≤ offset ∧ offset < r.stop

/-- The checks of a free, made before anything is journaled: the range lies in the data region
and meets no free region. -/
def checkFree (offset alignedSize : Nat) : Option AllocatorError :=
  if alignedSize = 0 ∨ u64Max < offset + alignedSize ∨ offset < dataRegionOffset ∨
      a.deviceSize < offset + alignedSize then
    some (.invalidFree offset alignedSize)
  else
    match a.freeRegionContaining offset with
    | some r => some (.doubleFree offset alignedSize r.offset r.size)
    | none =>
      match (a.freelist.nextFrom offset).filter fun r => r.offset < offset + alignedSize with
      | some r => some (.doubleFree offset alignedSize r.offset r.size)
      | none => none

/-- Return a region to the freelist. The release is journaled first; when that fails the
freelist is left as it was. -/
def free (offset size : Nat) (journal : Option String) : Outcome Unit :=
  let alignedSize := a.alignReservation size
  match a.checkFree offset alignedSize with
  | some e => ⟨.error e, a, []⟩
  | none =>
    let a' := { a with freelist := a.freelist.insertCoalesced offset alignedSize }
    if a.redoLog then
      match journal with
      | none => ⟨.ok (), a', [.freeRegion offset alignedSize a.redoDeviceId]⟩
      | some e => ⟨.error (.redoLogFailure ("free redo append/flush failed: " ++ e)), a, []⟩
    else ⟨.ok (), a', []⟩

end SlotAllocator

end TeraSlab.Allocator
