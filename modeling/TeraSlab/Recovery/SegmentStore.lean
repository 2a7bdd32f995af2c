import TeraSlab.Allocator.SegmentAllocator
import TeraSlab.Index.MinedIndex
import TeraSlab.Foundations.Run
import Mathlib.Data.List.AList

/-!
# The segment store and its fuzzy checkpoints

A store on the segment allocator never writes a record in place: a spend appends the new image and
repoints the index, and no entry of the redo log says so. The checkpoint takes its fence, compacts,
captures the index shard by shard, installs the captured index, reclaims the fully dead segments,
persists the allocator header and moves the redo fence; the operations go on between these steps.

After a crash the index is the installed one. A create of the redo tail adds its key if the index
does not have it.
-/

namespace TeraSlab.Recovery

open Foundations TeraSlab.Allocator TeraSlab.Index

/-- How the keys are spread over the shards of the primary index. -/
structure Sharding where
  count : Nat
  shardOf : TxKey → Nat
  shardOf_lt : ∀ key, shardOf key < count

/-- How far a checkpoint has come. The fence is kept as the number of entries of the redo tail
that were there when it was taken. -/
inductive CheckpointPhase where
  | idle
  | compacting (fence : Nat)
  | snapshotting (fence next : Nat) (captured : TxKey → Option Extent)
  | installed (fence : Nat)
  | reclaimed (fence : Nat)
  | persisted (fence : Nat)

/-- The offset and the record size of each record are in `index`; `device` says of which record's
image a byte is part. -/
structure SegmentStore where
  allocator : SegmentAllocator
  index : AList fun _ : TxKey => Extent
  device : Nat → Option TxKey
  snapshot : TxKey → Option Extent
  tail : List (TxKey × Extent)
  phase : CheckpointPhase

/-- The operations of the store and the steps of a checkpoint. -/
inductive SegmentStep where
  | create (key : TxKey) (size : Nat)
  | spend (key : TxKey)
  | delete (key : TxKey)
  | fence
  | compact (key : TxKey)
  | beginSnapshot
  | snapshotShard
  | installSnapshot
  | reclaim
  | persistHeader
  | redoFence

def setOwner (device : Nat → Option TxKey) (r : Extent) (owner : Option TxKey) :
    Nat → Option TxKey := fun x => if r.offset ≤ x ∧ x < r.stop then owner else device x

def firstCreate (tail : List (TxKey × Extent)) (key : TxKey) : Option Extent :=
  (tail.find? fun p => p.1 = key).map Prod.snd

/-- The state after a free, which fails only on a region the allocator did not hand out. -/
def freed (a : SegmentAllocator) (e : Extent) : SegmentAllocator :=
  match a.free e.offset e.size with
  | .ok b => b
  | .error _ => a

namespace SegmentStore

def new (a : SegmentAllocator) : SegmentStore := ⟨a, ∅, fun _ => none, fun _ => none, [], .idle⟩

variable (s : SegmentStore)

def region (e : Extent) : Extent := ⟨e.offset, s.allocator.alignReservation e.size⟩

def named (key : TxKey) : Option Extent := (s.snapshot key).or (firstCreate s.tail key)

def writeRecord (a : SegmentAllocator) (key : TxKey) (e : Extent) : SegmentStore :=
  { s with
    allocator := a
    index := s.index.insert key e
    device := setOwner s.device (s.region e) (some key) }

def create (key : TxKey) (size : Nat) : SegmentStore :=
  if (s.index.lookup key).isSome then s
  else
    match s.allocator.allocate size with
    | (.error _, a) => { s with allocator := a }
    | (.ok offset, a) =>
      { s.writeRecord a key ⟨offset, size⟩ with tail := s.tail ++ [(key, ⟨offset, size⟩)] }

/-- Append the record's image, repoint the index, count the old image as dead. -/
def relocateRecord (key : TxKey) : SegmentStore :=
  match s.index.lookup key with
  | none => s
  | some old =>
    match s.allocator.allocate old.size with
    | (.error _, a) => { s with allocator := a }
    | (.ok offset, a) => s.writeRecord (freed a old) key ⟨offset, old.size⟩

/-- The header is overwritten with a marker, so the bytes are no longer the image of a record. -/
def delete (key : TxKey) : SegmentStore :=
  match s.index.lookup key with
  | none => s
  | some old =>
    { s with
      allocator := freed s.allocator old
      index := s.index.erase key
      device := setOwner s.device (s.region old) none }

def liveOffsets : List Nat := s.index.entries.map fun p => p.2.offset

def step (sh : Sharding) (s : SegmentStore) : SegmentStep → SegmentStore
  | .create key size => s.create key size
  | .spend key => s.relocateRecord key
  | .delete key => s.delete key
  | .fence =>
    match s.phase with
    | .idle => { s with phase := .compacting s.tail.length }
    | _ => s
  | .compact key =>
    match s.phase with
    | .compacting _ => s.relocateRecord key
    | _ => s
  | .beginSnapshot =>
    match s.phase with
    | .compacting fence => { s with phase := .snapshotting fence 0 fun _ => none }
    | _ => s
  | .snapshotShard =>
    match s.phase with
    | .snapshotting fence next captured =>
      { s with phase := .snapshotting fence (next + 1) fun key =>
          if sh.shardOf key = next then s.index.lookup key else captured key }
    | _ => s
  | .installSnapshot =>
    match s.phase with
    | .snapshotting fence next captured =>
      if next = sh.count then { s with snapshot := captured, phase := .installed fence } else s
    | _ => s
  | .reclaim =>
    match s.phase with
    | .installed fence =>
      { s with
        allocator := (s.allocator.reclaimFullyDeadSegments s.liveOffsets).2
        phase := .reclaimed fence }
    | _ => s
  | .persistHeader =>
    match s.phase with
    | .reclaimed fence => { s with phase := .persisted fence }
    | _ => s
  | .redoFence =>
    match s.phase with
    | .persisted fence => { s with tail := s.tail.drop fence, phase := .idle }
    | _ => s

/-- Every live record has an extent after a crash, and the bytes there are still its image. -/
def Intact : Prop :=
  ∀ key ∈ s.index.keys, ∃ e, s.named key = some e ∧
    ∀ x ∈ (s.region e).bytes, s.device x = some key

/-- A key is created only when no extent is left for it from an earlier record, and no segment is
reclaimed that holds the extent of a live record after a crash. -/
def StepClear : SegmentStep → Prop
  | .create key _ => key ∈ s.index.keys ∨ s.named key = none
  | .reclaim =>
    ∀ i ∈ s.allocator.fullyDead s.liveOffsets, ∀ key ∈ s.index.keys,
      (s.named key).bind (fun e => s.allocator.segmentOf e.offset) ≠ some i
  | _ => True

instance : ∀ st, Decidable (s.StepClear st)
  | .create _ _ => inferInstanceAs (Decidable (_ ∨ _))
  | .reclaim => inferInstanceAs (Decidable (∀ _ ∈ _, ∀ _ ∈ _, _ ≠ _))
  | .spend _ | .delete _ | .fence | .compact _ | .beginSnapshot | .snapshotShard
  | .installSnapshot | .persistHeader | .redoFence => isTrue trivial

end SegmentStore

end TeraSlab.Recovery
