import TeraSlab.Allocator.ReplayExact
import TeraSlab.Redo.CreateOps
import Mathlib.Data.List.AList

/-!
# Recovering the primary index

The primary index says at which offset of the device a record lies. Recovery starts from the index
of the last checkpoint and the allocator state persisted with it, and replays the redo tail: the
entries of the allocator, and the entries of creates. A create entry carries the record, or only
the place where it was written.

A delete leaves no entry that names its key: it overwrites the header of the record, takes the key
out of the index and frees the region, and only the free is in the log.

The device is read at the offset of a header: there is a record's header, or nothing that passes
for one. The bytes inside a record and the marker of a deleted one do not.
-/

namespace TeraSlab.Recovery

open Foundations TeraSlab.Allocator TeraSlab.Index TeraSlab.Redo

def recordSizeFor (utxoCount : Nat) : Nat := metadataSize + utxoCount * utxoSlotSize

/-- The fields of a record's header that recovery reads. -/
structure Header where
  key : TxKey
  utxoCount : Nat
  recordSize : Nat
deriving DecidableEq

/-- What the offsets of the device read as. -/
abbrev Device := Nat → Option Header

/-- Write a record with zeros behind it, `len` bytes in all. -/
def Device.writeRecord (d : Device) (offset len : Nat) (h : Header) : Device := fun x =>
  if x = offset then some h
  else if offset < x ∧ x < offset + len then none
  else d x

/-- Overwrite the header of a record by the marker of a deleted one. -/
def Device.writeMarker (d : Device) (offset : Nat) : Device := Function.update d offset none

/-- An entry of the redo tail. The fields of a create entry for the parents of a conflicting
transaction are bound and not used by its replay. -/
inductive TailEntry where
  | region (op : RegionRedoOp)
  | create (key : TxKey) (offset utxoCount : Nat) (record : Header)
  | createV2 (key : TxKey) (offset utxoCount : Nat)

abbrev PrimaryIndex := AList fun _ : TxKey => Nat

abbrev OffsetOwners := AList fun _ : Nat => TxKey

structure Recovered where
  allocator : SlotAllocator
  index : PrimaryIndex
  owners : OffsetOwners
  device : Device

def buildOffsetOwners (index : PrimaryIndex) : OffsetOwners :=
  index.entries.foldl (fun owners e => owners.insert e.2 e.1) ∅

namespace Recovered

variable (r : Recovered)

def registerUniqueOffset (key : TxKey) (offset : Nat) : Recovered :=
  let index :=
    match r.owners.lookup offset with
    | some stale => if stale ≠ key then r.index.erase stale else r.index
    | none => r.index
  { r with index := index.insert key offset, owners := r.owners.insert offset key }

/-- The record is written again, in whole blocks, and read back; there is no result for an entry
that stops the recovery. -/
def replayCreate (key : TxKey) (offset utxoCount : Nat) (record : Header) : Option Recovered :=
  if (r.index.lookup key).isSome then some r
  else if record.recordSize < metadataSize then none
  -- The device refuses a write that does not start with a block.
  else if ¬ r.allocator.alignment ∣ offset then none
  else
    let align := r.allocator.alignment
    let alignedLen := divCeil record.recordSize align * align
    let r := { r with device := r.device.writeRecord offset alignedLen record }
    match r.device offset with
    | none => none
    | some h =>
      if h.utxoCount ≠ utxoCount then none
      else if h.key ≠ key then none
      else some (r.registerUniqueOffset key offset)

/-- The record is only read: where the offset reads as something else the entry is dropped. -/
def replayCreateV2 (key : TxKey) (offset utxoCount : Nat) : Recovered :=
  if (r.index.lookup key).isSome then r
  else
    match r.device offset with
    | none => r
    | some h =>
      if h.key ≠ key ∨ h.utxoCount ≠ utxoCount then r else r.registerUniqueOffset key offset

def replayTailEntry : TailEntry → Option Recovered
  | .region op => some { r with allocator := (r.allocator.replayRedo op).2 }
  | .create key offset utxoCount record =>
    if !r.allocator.isAllocatedRange offset record.recordSize then none
    else r.replayCreate key offset utxoCount record
  | .createV2 key offset utxoCount =>
    if !r.allocator.isAllocatedRange offset (recordSizeFor utxoCount) then none
    else r.replayCreateV2 key offset utxoCount

def replayTail (tail : List TailEntry) : Option Recovered := tail.foldlM replayTailEntry r

end Recovered

def reconcileFreelistAgainstLiveIndex (device : Device) :
    SlotAllocator → List (Σ _ : TxKey, Nat) → Option SlotAllocator
  | a, [] => some a
  | a, ⟨_, offset⟩ :: entries =>
    if (a.freeRegionContaining offset).isNone then
      reconcileFreelistAgainstLiveIndex device a entries
    else
      match device offset with
      | none => none
      | some h =>
        reconcileFreelistAgainstLiveIndex device
          (a.reserveRecoveredLiveRegion offset h.recordSize) entries

/-- Recover from a checkpoint and the redo tail, over what the device holds. -/
def recoverAll (allocator : SlotAllocator) (index : PrimaryIndex) (device : Device)
    (tail : List TailEntry) : Option Recovered :=
  match Recovered.replayTail ⟨allocator, index, buildOffsetOwners index, device⟩ tail with
  | none => none
  | some r =>
    (reconcileFreelistAgainstLiveIndex r.device r.allocator r.index.entries).map fun allocator =>
      { r with allocator }

end TeraSlab.Recovery
