import TeraSlab.Allocator.SlotAllocatorSpec

/-!
# Persisting, recovering and replaying the allocator

A checkpoint writes the freelist and the high-water mark to the device header. After a crash the
allocator is rebuilt from the header and the region entries of the redo log are replayed onto it.
The header may be newer than the first entries replayed, so every entry has to cope with a
freelist that already reflects later operations.
-/

namespace TeraSlab.Allocator

open Foundations

/-- Byte offset of the freelist entries in the device header. -/
def freelistOffset : Nat := 48

/-- How many free regions the device header can hold. -/
def maxPersistedFreeRegions : Nat := (dataRegionOffset - freelistOffset) / 16

/-- The contents of the device header. Its magic, version and checksum only decide whether the
header is accepted; the version carries the packed mode. -/
structure PersistedHeader where
  nextOffset : Nat
  packed : Bool
  regions : List FreeRegion

namespace SlotAllocator

variable (a : SlotAllocator)

def persist : Except AllocatorError PersistedHeader :=
  if maxPersistedFreeRegions < a.freelist.len then
    .error (.freelistOverflow a.freelist.len maxPersistedFreeRegions)
  else .ok ⟨a.nextOffset, a.packed, a.freelist.iterOffsetOrder⟩

def loadFreelist (regions : List FreeRegion) : FreelistBackend :=
  (regions.foldl (fun (fl : FreelistBackend) r => fl.insert r.offset r.size) .new).maybePromote

def recover (g : Geometry) (header : PersistedHeader) : Except AllocatorError SlotAllocator :=
  if maxPersistedFreeRegions < header.regions.length then .error .corruptedHeader
  else .ok
    { geometry := g
      freelist := loadFreelist header.regions
      nextOffset := header.nextOffset
      redoLog := false
      redoDeviceId := 0
      packed := header.packed
      appendOnly := false }

/-- The allocator a restart finds for the state `a`: its persisted header, recovered and tagged
with its store again. -/
def restart : Except AllocatorError SlotAllocator := do
  let header ← a.persist
  let b ← recover a.geometry header
  return { b with redoLog := a.redoLog, redoDeviceId := a.redoDeviceId }

/-- The free region `carveAllocation` works on: the one that holds the first byte of the range,
else the first one that starts inside it. -/
def overlapping (offset size : Nat) : Option FreeRegion :=
  match (a.freelist.prevBefore (offset + 1)).filter fun r =>
      offset < r.stop ∧ r.offset < offset + size with
  | some r => some r
  | none => (a.freelist.nextFrom offset).filter fun r =>
      r.offset < offset + size ∧ offset < r.stop

/-- Cut the range out of the one free region found to overlap it. -/
def carveAllocation (offset size : Nat) : Bool × SlotAllocator :=
  match a.overlapping offset size with
  | none => (false, a)
  | some r =>
    let fl := (a.freelist.remove r.offset).2
    let fl := if r.offset < offset then fl.insert r.offset (offset - r.offset) else fl
    let fl := if offset + size < r.stop then fl.insert (offset + size) (r.stop - (offset + size))
      else fl
    (true, { a with freelist := fl.maybePromote.maybeDemote })

def replayAllocate (offset size : Nat) : Bool × SlotAllocator :=
  let alignedSize := a.alignReservation size
  if u64Max < offset + alignedSize then (false, a)
  else if alignedSize = 0 ∨ offset < dataRegionOffset ∨ a.deviceSize < offset + alignedSize then
    (false, a)
  else
    let bumped := decide (a.nextOffset < offset + alignedSize)
    let a' := { a with nextOffset := max a.nextOffset (offset + alignedSize) }
    let (carved, a'') := a'.carveAllocation offset alignedSize
    (bumped || carved, a'')

def replayFree (offset size : Nat) : Bool × SlotAllocator :=
  let alignedSize := a.alignReservation size
  let prev := a.freelist.prevBefore (offset + 1)
  if alignedSize = 0 ∨ u64Max < offset + alignedSize then (false, a)
  -- already free: the entry is reflected in the header
  else if prev.any fun r => r.offset ≤ offset ∧ offset + alignedSize ≤ r.stop then (false, a)
  else if offset < dataRegionOffset ∨ a.deviceSize < offset + alignedSize then (false, a)
  -- partly free: the entry is dropped
  else if prev.any fun r => offset < r.stop then (false, a)
  else if (a.freelist.nextFrom offset).any fun r => r.offset < offset + alignedSize then (false, a)
  else (true, { a with freelist := a.freelist.insertCoalesced offset alignedSize })

/-- Apply one redo entry. Entries of other stores are skipped. -/
def replayRedo : RegionRedoOp → Bool × SlotAllocator
  | .allocateRegion offset size deviceId =>
    if deviceId ≠ a.redoDeviceId then (false, a) else a.replayAllocate offset size
  | .freeRegion offset size deviceId =>
    if deviceId ≠ a.redoDeviceId then (false, a) else a.replayFree offset size

/-- The range lies below the high-water mark and meets no free region. -/
def isAllocatedRange (offset size : Nat) : Bool :=
  let alignedSize := a.alignReservation size
  if u64Max < offset + alignedSize then false
  else if alignedSize = 0 ∨ offset < dataRegionOffset ∨ a.nextOffset < offset + alignedSize ∨
      a.deviceSize < offset + alignedSize then
    false
  else !a.freelist.iterOffsetOrder.any fun r => r.offset < offset + alignedSize ∧ offset < r.stop

def reserveRecoveredLiveRegion (offset size : Nat) : SlotAllocator :=
  let alignedSize := a.alignReservation size
  if u64Max < offset + alignedSize then a
  else
    match a.freeRegionContaining offset with
    | none => a
    | some r =>
      if alignedSize = 0 ∨ r.stop < offset + alignedSize then a
      else
        let fl := (a.freelist.remove r.offset).2
        let fl := if r.offset < offset then fl.insert r.offset (offset - r.offset) else fl
        let fl := if offset + alignedSize < r.stop then
            fl.insert (offset + alignedSize) (r.stop - (offset + alignedSize))
          else fl
        { a with freelist := fl.maybeDemote }

def replayAll (ops : List RegionRedoOp) : SlotAllocator :=
  ops.foldl (fun a op => (a.replayRedo op).2) a

end SlotAllocator

/-! ### Runs of successful operations -/

inductive AllocOp where
  | allocate (size : Nat)
  | free (offset size : Nat)
  deriving DecidableEq, Repr

/-- The allocator of a run, the regions handed out and not freed, and the redo entries so far. -/
structure Trace where
  allocator : SlotAllocator
  live : List AllocatedRegion
  log : List RegionRedoOp

namespace Trace

def new (g : Geometry) (redoDeviceId : Nat) (packed appendOnly : Bool) : Trace :=
  ⟨.new g true redoDeviceId packed appendOnly, [], []⟩

/-- A successful operation. A free names a region that is handed out. -/
def perform (t : Trace) : AllocOp → Option Trace
  | .allocate size =>
    let out := t.allocator.allocate size none
    match out.result with
    | .ok offset =>
      some ⟨out.state, ⟨offset, t.allocator.alignReservation size⟩ :: t.live,
        t.log ++ out.journaled⟩
    | .error _ => none
  | .free offset size =>
    if ⟨offset, t.allocator.alignReservation size⟩ ∈ t.live then
      let out := t.allocator.free offset size none
      match out.result with
      | .ok _ =>
        some ⟨out.state, t.live.erase ⟨offset, t.allocator.alignReservation size⟩,
          t.log ++ out.journaled⟩
      | .error _ => none
    else none

def performAll (t : Trace) (ops : List AllocOp) : Option Trace := ops.foldlM perform t

end Trace

def MeetsAtMostOne (a : SlotAllocator) (r : Extent) : Prop :=
  ∀ f ∈ a.freelist.iterOffsetOrder, ∀ f' ∈ a.freelist.iterOffsetOrder,
    f.Meets r → f'.Meets r → f = f'

/-- The byte lies in a free region past the first one that meets the range. -/
def PastFirst (a : SlotAllocator) (r : Extent) (x : Nat) : Prop :=
  ∃ f ∈ a.freelist.iterOffsetOrder, x ∈ f.bytes ∧
    ∃ f' ∈ a.freelist.iterOffsetOrder, f'.Meets r ∧ f'.offset < f.offset

def AllocatedBy (ops : List RegionRedoOp) (x : Nat) : Prop :=
  ∃ o n id, .allocateRegion o n id ∈ ops ∧ x ∈ (Extent.mk o n).bytes

def FreedIn (ops : List RegionRedoOp) (r : Extent) : Prop :=
  ∃ id, .freeRegion r.offset r.size id ∈ ops

def afterFree (r : Extent) : List RegionRedoOp → List RegionRedoOp
  | [] => []
  | .allocateRegion _ _ _ :: ops => afterFree r ops
  | .freeRegion o n _ :: ops => if (⟨o, n⟩ : Extent) = r then ops else afterFree r ops

/-- The entries free the region again, and after that they allocate every byte of it that is not
past the first free region it meets now. -/
def GivenBack (a : SlotAllocator) (r : Extent) (ops : List RegionRedoOp) : Prop :=
  FreedIn ops r ∧ ∀ x ∈ r.bytes, ¬ PastFirst a r x → AllocatedBy (afterFree r ops) x

/-- The condition on a replay, checked in the state before each entry: an allocated region meets
at most one free region, or what that leaves behind is made good by the later entries. -/
def ReplaySafe : SlotAllocator → List RegionRedoOp → Prop
  | _, [] => True
  | a, op :: ops =>
    (match op with
      | .allocateRegion o n _ => MeetsAtMostOne a ⟨o, n⟩ ∨ GivenBack a ⟨o, n⟩ ops
      | .freeRegion _ _ _ => True) ∧
    ReplaySafe (a.replayRedo op).2 ops

end TeraSlab.Allocator
