import TeraSlab.Redo.Operation

/-!
# Replaying redo entries

Recovery replays the entries of the redo tail in order. An entry is not run again as the operation
it was written for: each arm looks at the record on the device and either writes what the operation
left behind, or skips when the slot or the field shows that there is nothing to do.

An entry is replayed on the record that the index has for its key, and names a slot of that record.
The entries that create, move or delete a record work on the index and are not replayed here. Slots
on the device are intact: rebuilding a torn slot from its entry is left out, as is the time of the
last update.
-/

namespace TeraSlab.Recovery

open Ops Redo

inductive ReplayCause where
  | ioError
deriving DecidableEq

inductive ReplayResult where
  | applied
  | skipped
  | failed (cause : ReplayCause)
deriving DecidableEq

def ReplayResult.isFailed : ReplayResult → Bool
  | .failed _ => true
  | _ => false

@[simp] theorem isFailed_applied : ReplayResult.applied.isFailed = false := rfl

@[simp] theorem isFailed_skipped : ReplayResult.skipped.isFailed = false := rfl

/-- What a spend or unspend entry says about the footer. -/
structure ReplayDerivedContext where
  targetGeneration : Nat

/-! ## Slots -/

/-- Count the spent slots, and take the generation of the entry. -/
def recomputeReplayMetadata (r : Record) (derived : Option ReplayDerivedContext) : Record :=
  { r with metadata :=
    { r.metadata with
      spentUtxos := r.countStatus .spent
      generation := (derived.map (·.targetGeneration)).getD r.metadata.generation } }

@[simp] theorem recomputeReplayMetadata_slots (r : Record)
    (derived : Option ReplayDerivedContext) :
    (recomputeReplayMetadata r derived).slots = r.slots := rfl

def replaySpend (r : Record) (offset : Nat) (spendingData : SpendingData)
    (derived : Option ReplayDerivedContext) (utxoHash : Option Hash) : Record × ReplayResult :=
  match r.slots[offset]? with
  | none => (r, .failed .ioError)
  | some slot =>
    if slot.status = .spent ∧ slot.spendingData = spendingData then
      (recomputeReplayMetadata r derived, .skipped)
    else if utxoHash.any (slot.hash ≠ ·) then (r, .skipped)
    else
      (recomputeReplayMetadata (r.writeSlot offset (.newSpent slot.hash spendingData)) derived,
        .applied)

def replayUnspend (r : Record) (offset : Nat) (expectedSpendingData : Option SpendingData)
    (derived : Option ReplayDerivedContext) (utxoHash : Option Hash) : Record × ReplayResult :=
  match r.slots[offset]? with
  | none => (r, .failed .ioError)
  | some slot =>
    if slot.status = .unspent then (recomputeReplayMetadata r derived, .skipped)
    else if slot.status ≠ .spent then (r, .skipped)
    else if utxoHash.any (slot.hash ≠ ·) then (r, .skipped)
    else if expectedSpendingData.any (slot.spendingData ≠ ·) then (r, .skipped)
    else (recomputeReplayMetadata (r.writeSlot offset (.newUnspent slot.hash)) derived, .applied)

/-- Freezing and unfreezing build the new slot from the hash alone. -/
def replayFreeze (r : Record) (offset : Nat) (expectedHash : Option Hash) :
    Record × ReplayResult :=
  match r.slots[offset]? with
  | none => (r, .failed .ioError)
  | some slot =>
    if expectedHash.any (slot.hash ≠ ·) then (r, .skipped)
    else if slot.status = .frozen then (r, .skipped)
    else if slot.status ≠ .unspent then (r, .skipped)
    else (r.writeSlot offset (.newFrozen slot.hash), .applied)

def replayUnfreeze (r : Record) (offset : Nat) (expectedHash : Option Hash) :
    Record × ReplayResult :=
  match r.slots[offset]? with
  | none => (r, .failed .ioError)
  | some slot =>
    if expectedHash.any (slot.hash ≠ ·) then (r, .skipped)
    else if slot.status = .unspent then (r, .skipped)
    else if slot.status ≠ .frozen then (r, .skipped)
    else (r.writeSlot offset (.newUnspent slot.hash), .applied)

/-- The height a reassigned output becomes spendable at, as replay computes it. -/
def saturatingHeight (blockHeight spendableAfter : UInt32) : Nat :=
  min (blockHeight.toNat + spendableAfter.toNat) (2 ^ 32 - 1)

/-- A reassignment; only the later form of the entry names the hash before it. -/
def replayReassign (r : Record) (offset : Nat) (newHash : Hash)
    (blockHeight spendableAfter : UInt32) (priorUtxoHash : Option Hash) : Record × ReplayResult :=
  match r.slots[offset]? with
  | none => (r, .failed .ioError)
  | some slot =>
    if slot.hash = newHash ∧ slot.status = .unspent then (r, .skipped)
    else if priorUtxoHash.any fun prior => slot.status ≠ .frozen ∨ slot.hash ≠ prior then
      (r, .skipped)
    else
      (r.writeSlot offset
        (.newUnspentWithCooldown newHash (saturatingHeight blockHeight spendableAfter)), .applied)

def replayPruneSlot (r : Record) (offset : Nat) : Record × ReplayResult :=
  match r.slots[offset]? with
  | none => (r, .failed .ioError)
  | some slot =>
    if slot.status = .pruned then (r, .skipped)
    else (r.writeSlot offset { slot with status := .pruned }, .applied)

/-- The counters move by one for every entry that is applied. -/
def replayPruneSlotIfSpentBy (r : Record) (offset : Nat) (child : Hash) : Record × ReplayResult :=
  match r.slots[offset]? with
  | none => (r, .failed .ioError)
  | some slot =>
    if slot.status = .pruned then (r, .skipped)
    else if slot.status ≠ .spent ∨ childTxid slot.spendingData ≠ child then (r, .skipped)
    else
      let r := r.writeSlot offset { slot with status := .pruned }
      ({ r with metadata :=
        { r.metadata with
          spentUtxos := r.metadata.spentUtxos - 1
          prunedUtxos := min (r.metadata.prunedUtxos + 1) (2 ^ 32 - 1) }.bump }, .applied)

/-! ## Footer fields -/

/-- The target is within the next half of the generations, modulo `2 ^ 32`. -/
def generationTargetAhead (current target : Nat) : Bool :=
  let delta := (target + (2 ^ 32 - current)) % 2 ^ 32
  delta ≠ 0 && delta < 2 ^ 31

def generationAtOrAhead (current target : Nat) : Bool := !generationTargetAhead current target

def withMetadata (r : Record) (m : TxMetadata) : Record × ReplayResult :=
  ({ r with metadata := m }, .applied)

def replaySetConflicting (r : Record) (value : Bool) : Record × ReplayResult :=
  let m := r.metadata
  if m.flags.conflicting = value then (r, .skipped)
  else withMetadata r { m with flags := { m.flags with conflicting := value } }

def replaySetLocked (r : Record) (value : Bool) : Record × ReplayResult :=
  let m := r.metadata
  if m.flags.locked = value then (r, .skipped)
  else
    withMetadata r { m with
      deleteAtHeight := if value then 0 else m.deleteAtHeight
      flags := { m.flags with locked := value } }

def replayPreserveUntil (r : Record) (blockHeight : Nat) : Record × ReplayResult :=
  let m := r.metadata
  if m.preserveUntil = blockHeight then (r, .skipped)
  else withMetadata r { m with preserveUntil := blockHeight, deleteAtHeight := 0 }

def replayExpirePreservation (r : Record) (deleteAtHeight : Nat) : Record × ReplayResult :=
  let m := r.metadata
  if m.preserveUntil = 0 ∧ m.deleteAtHeight = deleteAtHeight then (r, .skipped)
  else withMetadata r { m with preserveUntil := 0, deleteAtHeight }

/-- A target generation of 0 counts only when it lies ahead. -/
def replayMarkOnLongestChain (r : Record) (onLongestChain : Bool) (currentBlockHeight : Nat)
    (generation : Nat) : Record × ReplayResult :=
  let m := r.metadata
  let hasGenerationToken := generation ≠ 0 || generationTargetAhead m.generation generation
  let targetUnmined := if onLongestChain then 0 else currentBlockHeight
  if hasGenerationToken then
    if generationAtOrAhead m.generation generation then (r, .skipped)
    else withMetadata r { m with unminedSince := targetUnmined, generation }
  else if m.unminedSince = targetUnmined then (r, .skipped)
  else withMetadata r { m with unminedSince := targetUnmined }

/-! ## Compensations -/

def statusOfByte (byte : UInt8) : UtxoStatus :=
  if byte = 0x00 then .unspent
  else if byte = 0x01 then .spent
  else if byte = 0x02 then .pruned
  else if byte = 0xFF then .frozen
  else .unknown byte

def replayCompensateReassign (r : Record) (offset : Nat) (priorUtxoHash : Hash) :
    Record × ReplayResult :=
  match r.slots[offset]? with
  | none => (r, .failed .ioError)
  | some slot =>
    if slot.hash = priorUtxoHash ∧ slot.status = .unspent then (r, .skipped)
    else (r.writeSlot offset (.newUnspent priorUtxoHash), .applied)

def replayCompensatePrune (r : Record) (offset : Nat) (priorStatus : UInt8) :
    Record × ReplayResult :=
  match r.slots[offset]? with
  | none => (r, .failed .ioError)
  | some slot =>
    if slot.status.byte = priorStatus then (r, .skipped)
    else (r.writeSlot offset { slot with status := statusOfByte priorStatus }, .applied)

def replayCompensateSetLocked (r : Record) (priorLocked : Bool) (priorDeleteAtHeight : Nat) :
    Record × ReplayResult :=
  let m := r.metadata
  if m.flags.locked = priorLocked ∧ m.deleteAtHeight = priorDeleteAtHeight then (r, .skipped)
  else
    withMetadata r { m with
      deleteAtHeight := priorDeleteAtHeight
      flags := { m.flags with locked := priorLocked } }

/-! ## Entries -/

/-- `replay_entry` on the record of the entry's key; there is no result for an entry that creates,
moves or deletes a record. -/
def replayEntry (r : Record) : RedoOp → Option (Record × ReplayResult)
  | .spend _ offset spendingData _ => replaySpend r offset.toNat spendingData none none
  | .spendV2 _ offset spendingData _ _ _ targetGeneration _ utxoHash =>
    replaySpend r offset.toNat spendingData (some ⟨targetGeneration.toNat⟩) utxoHash
  | .unspend _ offset spendingData _ => replayUnspend r offset.toNat spendingData none none
  | .unspendV2 _ offset spendingData _ _ _ targetGeneration _ utxoHash =>
    replayUnspend r offset.toNat (some spendingData) (some ⟨targetGeneration.toNat⟩) utxoHash
  | .freeze _ offset => replayFreeze r offset.toNat none
  | .freezeV2 _ offset utxoHash => replayFreeze r offset.toNat (some utxoHash)
  | .unfreeze _ offset => replayUnfreeze r offset.toNat none
  | .unfreezeV2 _ offset utxoHash => replayUnfreeze r offset.toNat (some utxoHash)
  | .reassign _ offset newHash blockHeight spendableAfter =>
    replayReassign r offset.toNat newHash blockHeight spendableAfter none
  | .reassignV2 _ offset newHash blockHeight spendableAfter priorUtxoHash =>
    replayReassign r offset.toNat newHash blockHeight spendableAfter (some priorUtxoHash)
  | .pruneSlot _ offset => replayPruneSlot r offset.toNat
  | .pruneSlotIfSpentBy _ offset child => replayPruneSlotIfSpentBy r offset.toNat child
  | .setConflicting _ value _ _ => replaySetConflicting r value
  | .setLocked _ value => replaySetLocked r value
  | .preserveUntil _ blockHeight => replayPreserveUntil r blockHeight.toNat
  | .expirePreservation _ deleteAtHeight => replayExpirePreservation r deleteAtHeight.toNat
  | .markOnLongestChain _ onLongestChain currentBlockHeight _ generation =>
    replayMarkOnLongestChain r onLongestChain currentBlockHeight.toNat generation.toNat
  | .compensateReassign _ offset priorUtxoHash =>
    replayCompensateReassign r offset.toNat priorUtxoHash
  | .compensatePrune _ offset priorStatus => replayCompensatePrune r offset.toNat priorStatus
  | .compensateSetLocked _ priorLocked priorDeleteAtHeight =>
    replayCompensateSetLocked r priorLocked priorDeleteAtHeight.toNat
  | .replicaCreate .. | .create .. | .createV2 .. | .relocate .. | .delete .. => none
  -- Mined state, children lists, secondary indexes, regions and markers leave the record alone.
  | .setMinedBatch .. | .appendConflictingChild .. | .removeConflictingChild ..
  | .appendDeletedChild .. | .secondaryDahUpdate .. | .allocateRegion .. | .freeRegion ..
  | .hashtableResizeBegin .. | .hashtableResizeCommit .. | .compensateUnsetMined ..
  | .recoveryProgress .. | .checkpoint => some (r, .skipped)

/-- Replay the entries in order. A failed read stops the recovery. -/
def replayLog : Record → List RedoOp → Option Record
  | r, [] => some r
  | r, entry :: entries =>
    match replayEntry r entry with
    | none => none
    | some (_, .failed _) => none
    | some (r, _) => replayLog r entries

theorem replayLog_cons {r r' : Record} {entry : RedoOp} {entries : List RedoOp}
    {result : ReplayResult} (h : replayEntry r entry = some (r', result))
    (hresult : result.isFailed = false) :
    replayLog r (entry :: entries) = replayLog r' entries := by
  rw [replayLog, h]
  cases result with
  | applied | skipped => rfl
  | failed cause => cases hresult

end TeraSlab.Recovery
