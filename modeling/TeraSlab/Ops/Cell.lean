import TeraSlab.Ops.DeleteEval
import TeraSlab.Index.MinedIndex

/-!
# The state behind one transaction

Operations on a transaction run under its stripe lock and touch only its cell: the record on the
device, the transaction's places in the delete-at-height and preservation indexes, and its slot in
the mined index. The mined index is shared, so the cell holds the whole shard.

The flags that the evaluation of delete-at-height reads are cached in the mined entry. The device
is the authority for all of them but `lastSpentAll`, whose authority is the cache.
-/

namespace TeraSlab.Ops

open Foundations Index

def deviceDeFlags (flags : TxFlags) (hasPreserveUntil : Bool) : Flags :=
  (if flags.external then minedExternal else 0) |||
    (if flags.conflicting then minedConflicting else 0) |||
    (if flags.lastSpentAll then minedLastSpentAll else 0) |||
    (if flags.reassigned then minedReassigned else 0) |||
    (if hasPreserveUntil then minedPreserved else 0)

def txFlagsFromDeFlags (de : Flags) : TxFlags where
  external := de &&& minedExternal ≠ 0
  conflicting := de &&& minedConflicting ≠ 0
  lastSpentAll := de &&& minedLastSpentAll ≠ 0
  reassigned := de &&& minedReassigned ≠ 0

/-- How a store writes: log-structured stores move a record on a spend, the others overwrite it;
a store with direct access maps the device into memory. -/
structure StoreConfig where
  logStructured : Bool
  directAccess : Bool

/-- The allocator's answer to a request for space, with its message when there is none. -/
abbrev Room := Except String Unit

def minedSlotAbsent : SpendError :=
  .storageError "mined_slot present in primary index but absent from MinedIndex"

/-- A record without a slot in the mined index reads as unmined since height 0. -/
def minedBlockEntriesAt (mined : MinedShard) (key : TxKey) (minedSlot : Option Nat) :
    Except SpendError (List BlockEntry × Nat) :=
  match minedSlot with
  | none => .ok ([], 0)
  | some slot =>
    match mined.readBlockEntries key slot with
    | some state => .ok state
    | none => .error minedSlotAbsent

def setAllSpentAt (mined : MinedShard) (minedSlot : Option Nat) (allSpent : Bool) : MinedShard :=
  match minedSlot with
  | none => mined
  | some slot => mined.setAllSpent slot allSpent

/-- Copy the footer's flags, all but `lastSpentAll`, into the cache. -/
def mirrorDeFlags (mined : MinedShard) (key : TxKey) (r : Record) : MinedShard :=
  match r.minedSlot with
  | none => mined
  | some slot =>
    mined.reseedDeFlags key slot
      (deviceDeFlags r.metadata.flags (r.metadata.preserveUntil ≠ 0))

def cacheAuthoritativeLsa (mined : MinedShard) (key : TxKey) (r : Record) : Bool :=
  match r.minedSlot.bind (mined.readDeFlags key) with
  | some de => de &&& minedLastSpentAll ≠ 0
  | none => r.metadata.flags.lastSpentAll

def setCacheLsa (mined : MinedShard) (key : TxKey) (minedSlot : Option Nat)
    (patch : Option DahPatch) : MinedShard :=
  match minedSlot, patch with
  | some slot, some patch => mined.setDeFlag key slot minedLastSpentAll patch.lastSpentAll
  | _, _ => mined

/-- Move a transaction between heights of a secondary index, where 0 stands for no entry: the
entry is removed only when the caller names an old height, whatever the index holds. -/
def updateHeightIndex (entry : Option Nat) (oldHeight newHeight : Nat) : Option Nat :=
  if oldHeight = newHeight then entry
  else
    let entry := if oldHeight ≠ 0 then none else entry
    if newHeight ≠ 0 then some newHeight else entry

/-- What the stripe lock of a transaction protects. -/
structure Cell where
  record : Option Record
  mined : MinedShard
  dahHeight : Option Nat
  preserveHeight : Option Nat

def Record.settled (r : Record) (deleteAtHeight : Nat) (lastSpentAll : Bool) : Record :=
  { r with metadata :=
    { r.metadata with
      deleteAtHeight
      flags := { r.metadata.flags with lastSpentAll } } }

def Record.applyDahPatch (r : Record) (patch : Option DahPatch) : Record :=
  match patch with
  | none => r
  | some patch => r.settled patch.newDeleteAtHeight patch.lastSpentAll

namespace Cell

def updateDahIndex (c : Cell) (oldHeight newHeight : Nat) : Cell :=
  { c with dahHeight := updateHeightIndex c.dahHeight oldHeight newHeight }

def updatePreserveIndex (c : Cell) (oldPreserve newPreserve : Nat) : Cell :=
  { c with preserveHeight := updateHeightIndex c.preserveHeight oldPreserve newPreserve }

/-- The record with `lastSpentAll` as the cache has it. -/
def sourceLsa (c : Cell) (key : TxKey) (r : Record) : Record :=
  { r with metadata :=
    { r.metadata with flags :=
      { r.metadata.flags with lastSpentAll := cacheAuthoritativeLsa c.mined key r } } }

/-- Evaluate a changed record, not yet written, against the mined state: the blocks it is recorded
in, the signal and the patch. -/
def evaluate (c : Cell) (key : TxKey) (r : Record)
    (currentBlockHeight blockHeightRetention : Nat) :
    Except SpendError (List BlockEntry × Signal × Option DahPatch) :=
  match minedBlockEntriesAt c.mined key r.minedSlot with
  | .error e => .error e
  | .ok (entries, unminedSince) =>
    match evaluateDeleteAtHeight (c.sourceLsa key r) (!entries.isEmpty) unminedSince
      currentBlockHeight blockHeightRetention with
    | .error e => .error e
    | .ok (signal, patch) => .ok (entries, signal, patch)

/-- Write an evaluated record with its patch, and bring the caches and the index after it. The
index moves from the height on the device to the patched one. -/
def commit (c : Cell) (key : TxKey) (r : Record) (patch : Option DahPatch) : Cell :=
  let r' := (c.sourceLsa key r).applyDahPatch patch
  { c with
    record := some r'
    mined := setCacheLsa (mirrorDeFlags c.mined key r') key r'.minedSlot patch
  }.updateDahIndex r.metadata.deleteAtHeight r'.metadata.deleteAtHeight

end Cell

end TeraSlab.Ops
