import TeraSlab.Foundations.Bytes
import TeraSlab.Index.MinedIndex
import TeraSlab.Ops.Record

/-!
# Redo operations

The operations the redo log records, the type byte and the layout of the data of each, and the
decoder that reads an operation back from its type byte and data.

The decoder tests how long the data is and then reads every field at a fixed position. It limits
the lists a corrupt entry could claim: a batch of mined transactions, the bytes of a created record
and the conflicting parents of a created record.
-/

namespace TeraSlab.Redo

open Foundations TeraSlab.Index TeraSlab.Ops

inductive RedoOp where
  | spend (txKey : TxKey) (offset : UInt32) (spendingData : SpendingData) (newSpentCount : UInt32)
  | spendV2 (txKey : TxKey) (offset : UInt32) (spendingData : SpendingData)
      (newSpentCount currentBlockHeight blockHeightRetention targetGeneration : UInt32)
      (updatedAt : UInt64) (utxoHash : Option Hash)
  | unspend (txKey : TxKey) (offset : UInt32) (spendingData : Option SpendingData)
      (newSpentCount : UInt32)
  | unspendV2 (txKey : TxKey) (offset : UInt32) (spendingData : SpendingData)
      (newSpentCount currentBlockHeight blockHeightRetention targetGeneration : UInt32)
      (updatedAt : UInt64) (utxoHash : Option Hash)
  | setMinedBatch (blockId blockHeight subtreeIdx : UInt32) (onLongestChain : Bool)
      (currentBlockHeight blockHeightRetention : UInt32) (unset : Bool) (txids : List TxKey)
  | freeze (txKey : TxKey) (offset : UInt32)
  | freezeV2 (txKey : TxKey) (offset : UInt32) (utxoHash : Hash)
  | unfreeze (txKey : TxKey) (offset : UInt32)
  | unfreezeV2 (txKey : TxKey) (offset : UInt32) (utxoHash : Hash)
  | reassign (txKey : TxKey) (offset : UInt32) (newHash : Hash)
      (blockHeight spendableAfter : UInt32)
  | reassignV2 (txKey : TxKey) (offset : UInt32) (newHash : Hash)
      (blockHeight spendableAfter : UInt32) (priorUtxoHash : Hash)
  | pruneSlot (txKey : TxKey) (offset : UInt32)
  | pruneSlotIfSpentBy (txKey : TxKey) (offset : UInt32) (childTxid : Hash)
  | replicaCreate (txKey : TxKey) (deviceId : UInt8) (recordOffset : UInt64) (utxoCount : UInt32)
  | create (txKey : TxKey) (deviceId : UInt8) (recordOffset : UInt64) (utxoCount : UInt32)
      (isConflicting : Bool) (recordBytes : List UInt8) (parentTxids : List Hash)
  | createV2 (txKey : TxKey) (deviceId : UInt8) (recordOffset : UInt64) (utxoCount : UInt32)
      (isConflicting : Bool) (parentTxids : List Hash)
  | relocate (txKey : TxKey) (deviceId : UInt8) (recordOffset : UInt64) (utxoCount : UInt32)
  | delete (txKey : TxKey) (recordOffset recordSize : UInt64)
  | setConflicting (txKey : TxKey) (value : Bool)
      (currentBlockHeight blockHeightRetention : UInt32)
  | appendConflictingChild (parentKey : TxKey) (childTxid : Hash)
  | removeConflictingChild (parentKey : TxKey) (childTxid : Hash)
  | appendDeletedChild (parentKey : TxKey) (childTxid : Hash)
  | setLocked (txKey : TxKey) (value : Bool)
  | preserveUntil (txKey : TxKey) (blockHeight : UInt32)
  | expirePreservation (txKey : TxKey) (deleteAtHeight : UInt32)
  | markOnLongestChain (txKey : TxKey) (onLongestChain : Bool)
      (currentBlockHeight blockHeightRetention generation : UInt32)
  | secondaryDahUpdate (txKey : TxKey) (oldHeight newHeight : UInt32)
  | allocateRegion (offset size : UInt64) (deviceId : UInt8)
  | freeRegion (offset size : UInt64) (deviceId : UInt8)
  | hashtableResizeBegin (tmpPathBytes : List UInt8) (newCapacity : UInt64)
  | hashtableResizeCommit (newCapacity : UInt64)
  | compensateUnsetMined (txKey : TxKey) (blockId blockHeight subtreeIdx : UInt32)
  | compensateReassign (txKey : TxKey) (offset : UInt32) (priorUtxoHash : Hash)
  | compensatePrune (txKey : TxKey) (offset : UInt32) (priorStatus : UInt8)
  | compensateSetLocked (txKey : TxKey) (priorLocked : Bool) (priorDeleteAtHeight : UInt32)
  | recoveryProgress (throughSequence : UInt64)
  | checkpoint
deriving DecidableEq

/-! ## Encoding -/

def putU8 (b : UInt8) : List UInt8 := [b]
def putU16 (n : Nat) : List UInt8 := toLe 2 n
def putU32 (v : UInt32) : List UInt8 := toLe 4 v.toNat
def putU64 (v : UInt64) : List UInt8 := toLe 8 v.toNat
def putBool (b : Bool) : List UInt8 := putU8 (if b then 1 else 0)
def putBytes {n : Nat} (v : Vector UInt8 n) : List UInt8 := v.toList
def putKey (key : TxKey) : List UInt8 := putBytes key.txid
/-- `len as u32`: the high bits of a longer length are dropped. -/
def putLen32 (n : Nat) : List UInt8 := toLe 4 n

namespace RedoOp

def opType : RedoOp → UInt8
  | spend .. => 1
  | spendV2 _ _ _ _ _ _ _ _ (some _) => 35
  | spendV2 _ _ _ _ _ _ _ _ none => 30
  | unspend .. => 2
  | unspendV2 _ _ _ _ _ _ _ _ (some _) => 36
  | unspendV2 _ _ _ _ _ _ _ _ none => 31
  | setMinedBatch .. => 42
  | freeze .. => 4
  | freezeV2 .. => 32
  | unfreeze .. => 5
  | unfreezeV2 .. => 33
  | reassign .. => 6
  | reassignV2 .. => 38
  | pruneSlot .. => 7
  | pruneSlotIfSpentBy .. => 27
  | replicaCreate .. => 9
  | create .. => 22
  | createV2 .. => 39
  | relocate .. => 40
  | delete .. => 10
  | setConflicting .. => 12
  | appendConflictingChild .. => 28
  | removeConflictingChild .. => 37
  | appendDeletedChild .. => 34
  | setLocked .. => 13
  | preserveUntil .. => 14
  | expirePreservation .. => 44
  | markOnLongestChain .. => 15
  | secondaryDahUpdate .. => 17
  | allocateRegion .. => 18
  | freeRegion .. => 19
  | hashtableResizeBegin .. => 20
  | hashtableResizeCommit .. => 21
  | compensateUnsetMined .. => 23
  | compensateReassign .. => 24
  | compensatePrune .. => 25
  | compensateSetLocked .. => 26
  | recoveryProgress .. => 29
  | checkpoint => 11

/-- How many bytes of data the operation takes, by arithmetic on its fields. -/
def serializedDataLen : RedoOp → Nat
  | spend .. => 32 + 4 + 36 + 4
  | spendV2 _ _ _ _ _ _ _ _ utxoHash | unspendV2 _ _ _ _ _ _ _ _ utxoHash =>
    32 + 4 + 36 + 4 + 4 + 4 + 4 + 8 + if utxoHash.isSome then 32 else 0
  | unspend _ _ spendingData _ => 32 + 4 + if spendingData.isSome then 36 + 4 else 4
  | setMinedBatch _ _ _ _ _ _ _ txids => 26 + txids.length * 32
  | freeze .. | unfreeze .. | pruneSlot .. => 32 + 4
  | pruneSlotIfSpentBy .. => 32 + 4 + 32
  | freezeV2 .. | unfreezeV2 .. => 32 + 4 + 32
  | reassign .. => 32 + 4 + 32 + 4 + 4
  | reassignV2 .. => 32 + 4 + 32 + 4 + 4 + 32
  | replicaCreate .. => 32 + 1 + 8 + 4
  | create _ _ _ _ _ recordBytes parentTxids =>
    32 + 1 + 8 + 4 + 1 + 4 + recordBytes.length + 2 + parentTxids.length * 32
  | createV2 _ _ _ _ _ parentTxids => 32 + 1 + 8 + 4 + 1 + 2 + parentTxids.length * 32
  | relocate .. => 32 + 1 + 8 + 4
  | delete .. => 32 + 8 + 8
  | setConflicting .. => 32 + 1 + 4 + 4
  | appendConflictingChild .. | removeConflictingChild .. | appendDeletedChild .. => 32 + 32
  | setLocked .. => 32 + 1
  | preserveUntil .. => 32 + 4
  | expirePreservation .. => 32 + 4
  | markOnLongestChain .. => 32 + 1 + 4 + 4 + 4
  | secondaryDahUpdate .. => 32 + 4 + 4
  | allocateRegion .. | freeRegion .. => 8 + 8 + 1
  | hashtableResizeBegin tmpPathBytes _ => 8 + 4 + tmpPathBytes.length
  | hashtableResizeCommit .. => 8
  | compensateUnsetMined .. => 32 + 4 + 4 + 4
  | compensateReassign .. => 32 + 4 + 32
  | compensatePrune .. => 32 + 4 + 1
  | compensateSetLocked .. => 32 + 1 + 4
  | recoveryProgress .. => 8
  | checkpoint => 0

/-- The data of the operation, without type byte, sequence number and length. -/
def serializeData : RedoOp → List UInt8
  | spend txKey offset spendingData newSpentCount =>
    putKey txKey ++ putU32 offset ++ putBytes spendingData ++ putU32 newSpentCount
  | spendV2 txKey offset spendingData newSpentCount currentBlockHeight blockHeightRetention
      targetGeneration updatedAt utxoHash
  | unspendV2 txKey offset spendingData newSpentCount currentBlockHeight blockHeightRetention
      targetGeneration updatedAt utxoHash =>
    putKey txKey ++ putU32 offset ++ putBytes spendingData ++ putU32 newSpentCount ++
      putU32 currentBlockHeight ++ putU32 blockHeightRetention ++ putU32 targetGeneration ++
      putU64 updatedAt ++
      match utxoHash with
      | some hash => putBytes hash
      | none => []
  | unspend txKey offset spendingData newSpentCount =>
    putKey txKey ++ putU32 offset ++
      match spendingData with
      | some spendingData => putBytes spendingData ++ putU32 newSpentCount
      | none => putU32 newSpentCount
  | setMinedBatch blockId blockHeight subtreeIdx onLongestChain currentBlockHeight
      blockHeightRetention unset txids =>
    putU32 blockId ++ putU32 blockHeight ++ putU32 subtreeIdx ++ putBool onLongestChain ++
      putU32 currentBlockHeight ++ putU32 blockHeightRetention ++ putBool unset ++
      putLen32 txids.length ++ txids.flatMap putKey
  | freeze txKey offset | unfreeze txKey offset | pruneSlot txKey offset =>
    putKey txKey ++ putU32 offset
  | pruneSlotIfSpentBy txKey offset childTxid => putKey txKey ++ putU32 offset ++ putBytes childTxid
  | freezeV2 txKey offset utxoHash | unfreezeV2 txKey offset utxoHash =>
    putKey txKey ++ putU32 offset ++ putBytes utxoHash
  | reassign txKey offset newHash blockHeight spendableAfter =>
    putKey txKey ++ putU32 offset ++ putBytes newHash ++ putU32 blockHeight ++
      putU32 spendableAfter
  | reassignV2 txKey offset newHash blockHeight spendableAfter priorUtxoHash =>
    putKey txKey ++ putU32 offset ++ putBytes newHash ++ putU32 blockHeight ++
      putU32 spendableAfter ++ putBytes priorUtxoHash
  | replicaCreate txKey deviceId recordOffset utxoCount
  | relocate txKey deviceId recordOffset utxoCount =>
    putKey txKey ++ putU8 deviceId ++ putU64 recordOffset ++ putU32 utxoCount
  | create txKey deviceId recordOffset utxoCount isConflicting recordBytes parentTxids =>
    putKey txKey ++ putU8 deviceId ++ putU64 recordOffset ++ putU32 utxoCount ++
      putBool isConflicting ++ putLen32 recordBytes.length ++ recordBytes ++
      putU16 parentTxids.length ++ parentTxids.flatMap putBytes
  | createV2 txKey deviceId recordOffset utxoCount isConflicting parentTxids =>
    putKey txKey ++ putU8 deviceId ++ putU64 recordOffset ++ putU32 utxoCount ++
      putBool isConflicting ++ putU16 parentTxids.length ++ parentTxids.flatMap putBytes
  | delete txKey recordOffset recordSize =>
    putKey txKey ++ putU64 recordOffset ++ putU64 recordSize
  | setConflicting txKey value currentBlockHeight blockHeightRetention =>
    putKey txKey ++ putBool value ++ putU32 currentBlockHeight ++ putU32 blockHeightRetention
  | appendConflictingChild parentKey childTxid | removeConflictingChild parentKey childTxid
  | appendDeletedChild parentKey childTxid => putKey parentKey ++ putBytes childTxid
  | setLocked txKey value => putKey txKey ++ putBool value
  | preserveUntil txKey blockHeight => putKey txKey ++ putU32 blockHeight
  | expirePreservation txKey deleteAtHeight => putKey txKey ++ putU32 deleteAtHeight
  | markOnLongestChain txKey onLongestChain currentBlockHeight blockHeightRetention generation =>
    putKey txKey ++ putBool onLongestChain ++ putU32 currentBlockHeight ++
      putU32 blockHeightRetention ++ putU32 generation
  | secondaryDahUpdate txKey oldHeight newHeight =>
    putKey txKey ++ putU32 oldHeight ++ putU32 newHeight
  | allocateRegion offset size deviceId | freeRegion offset size deviceId =>
    putU64 offset ++ putU64 size ++ putU8 deviceId
  | hashtableResizeBegin tmpPathBytes newCapacity =>
    putU64 newCapacity ++ putLen32 tmpPathBytes.length ++ tmpPathBytes
  | hashtableResizeCommit newCapacity => putU64 newCapacity
  | compensateUnsetMined txKey blockId blockHeight subtreeIdx =>
    putKey txKey ++ putU32 blockId ++ putU32 blockHeight ++ putU32 subtreeIdx
  | compensateReassign txKey offset priorUtxoHash =>
    putKey txKey ++ putU32 offset ++ putBytes priorUtxoHash
  | compensatePrune txKey offset priorStatus => putKey txKey ++ putU32 offset ++ putU8 priorStatus
  | compensateSetLocked txKey priorLocked priorDeleteAtHeight =>
    putKey txKey ++ putBool priorLocked ++ putU32 priorDeleteAtHeight
  | recoveryProgress throughSequence => putU64 throughSequence
  | checkpoint => []

end RedoOp

/-! ## Decoding -/

def maxSetMinedBatchTxids : Nat := 1000000
def maxCreateParents : Nat := 64
def maxCreateRecordBytes : Nat := 1024 * 1024

def u16At (data : List UInt8) (i : Nat) : Nat := leAt 2 data i
def u32At (data : List UInt8) (i : Nat) : UInt32 := .ofNat (leAt 4 data i)
def u64At (data : List UInt8) (i : Nat) : UInt64 := .ofNat (leAt 8 data i)
def boolAt (data : List UInt8) (i : Nat) : Bool := byteAt data i != 0
def keyAt (data : List UInt8) (i : Nat) : TxKey := ⟨bytesAt 32 data i⟩
def len32At (data : List UInt8) (i : Nat) : Nat := leAt 4 data i

/-- The operation if the data holds at least so many bytes. -/
def atLeast (data : List UInt8) (size : Nat) (op : Option RedoOp) : Option RedoOp :=
  if size ≤ data.length then op else none

namespace RedoOp

def readSetMinedBatch (data : List UInt8) : Option RedoOp :=
  let count := len32At data 22
  if maxSetMinedBatchTxids < count then none
  else if data.length < 26 + count * 32 then none
  else some (setMinedBatch (u32At data 0) (u32At data 4) (u32At data 8) (boolAt data 12)
    (u32At data 13) (u32At data 17) (boolAt data 21) ((fieldsAt 32 count data 26).map TxKey.mk))

def readCreate (data : List UInt8) : Option RedoOp :=
  let recordLen := len32At data 46
  if maxCreateRecordBytes < recordLen then none
  else
    let recordEnd := 50 + recordLen
    if data.length < recordEnd + 2 then none
    else
      let parents := u16At data recordEnd
      if data.length < recordEnd + 2 + parents * 32 then none
      else if maxCreateParents < parents then none
      else some (create (keyAt data 0) (byteAt data 32) (u64At data 33) (u32At data 41)
        (boolAt data 45) ((data.drop 50).take recordLen) (fieldsAt 32 parents data (recordEnd + 2)))

def readCreateV2 (data : List UInt8) : Option RedoOp :=
  let parents := u16At data 46
  if data.length < 48 + parents * 32 then none
  else if maxCreateParents < parents then none
  else some (createV2 (keyAt data 0) (byteAt data 32) (u64At data 33) (u32At data 41)
    (boolAt data 45) (fieldsAt 32 parents data 48))

def readHashtableResizeBegin (data : List UInt8) : Option RedoOp :=
  let pathLen := len32At data 8
  if data.length < 12 + pathLen then none
  else some (hashtableResizeBegin ((data.drop 12).take pathLen) (u64At data 0))

/-- The fields `OP_SPEND_V2`, `OP_SPEND_V3`, `OP_UNSPEND_V2` and `OP_UNSPEND_V3` share. -/
def readSpendFields {α : Type}
    (make : TxKey → UInt32 → SpendingData → UInt32 → UInt32 → UInt32 → UInt32 → UInt64 → α)
    (data : List UInt8) : α :=
  make (keyAt data 0) (u32At data 32) (bytesAt 36 data 36) (u32At data 72) (u32At data 76)
    (u32At data 80) (u32At data 84) (u64At data 88)

def deserialize (opType : UInt8) (data : List UInt8) : Option RedoOp :=
  match opType with
  | 1 => atLeast data 76 <| some <|
    spend (keyAt data 0) (u32At data 32) (bytesAt 36 data 36) (u32At data 72)
  | 35 => atLeast data 128 <| some <| readSpendFields spendV2 data (some (bytesAt 32 data 96))
  | 30 => atLeast data 96 <| some <| readSpendFields spendV2 data none
  | 2 =>
    -- two layouts share the byte: the longer one carries the expected spending data
    if 76 ≤ data.length then
      some (unspend (keyAt data 0) (u32At data 32) (some (bytesAt 36 data 36)) (u32At data 72))
    else atLeast data 40 <| some <| unspend (keyAt data 0) (u32At data 32) none (u32At data 36)
  | 36 => atLeast data 128 <| some <| readSpendFields unspendV2 data (some (bytesAt 32 data 96))
  | 31 => atLeast data 96 <| some <| readSpendFields unspendV2 data none
  | 42 => atLeast data 26 <| readSetMinedBatch data
  | 32 => atLeast data 68 <| some <| freezeV2 (keyAt data 0) (u32At data 32) (bytesAt 32 data 36)
  | 33 => atLeast data 68 <| some <| unfreezeV2 (keyAt data 0) (u32At data 32) (bytesAt 32 data 36)
  | 4 => atLeast data 36 <| some <| freeze (keyAt data 0) (u32At data 32)
  | 5 => atLeast data 36 <| some <| unfreeze (keyAt data 0) (u32At data 32)
  | 7 => atLeast data 36 <| some <| pruneSlot (keyAt data 0) (u32At data 32)
  | 27 => atLeast data 68 <| some <|
    pruneSlotIfSpentBy (keyAt data 0) (u32At data 32) (bytesAt 32 data 36)
  | 6 => atLeast data 76 <| some <|
    reassign (keyAt data 0) (u32At data 32) (bytesAt 32 data 36) (u32At data 68) (u32At data 72)
  | 38 => atLeast data 108 <| some <|
    reassignV2 (keyAt data 0) (u32At data 32) (bytesAt 32 data 36) (u32At data 68)
      (u32At data 72) (bytesAt 32 data 76)
  | 9 => atLeast data 45 <| some <|
    replicaCreate (keyAt data 0) (byteAt data 32) (u64At data 33) (u32At data 41)
  | 22 => atLeast data 52 <| readCreate data
  | 39 => atLeast data 48 <| readCreateV2 data
  | 40 => atLeast data 45 <| some <|
    relocate (keyAt data 0) (byteAt data 32) (u64At data 33) (u32At data 41)
  | 10 => atLeast data 48 <| some <| delete (keyAt data 0) (u64At data 32) (u64At data 40)
  | 12 => atLeast data 41 <| some <|
    setConflicting (keyAt data 0) (boolAt data 32) (u32At data 33) (u32At data 37)
  | 28 => atLeast data 64 <| some <| appendConflictingChild (keyAt data 0) (bytesAt 32 data 32)
  | 37 => atLeast data 64 <| some <| removeConflictingChild (keyAt data 0) (bytesAt 32 data 32)
  | 34 => atLeast data 64 <| some <| appendDeletedChild (keyAt data 0) (bytesAt 32 data 32)
  | 13 => atLeast data 33 <| some <| setLocked (keyAt data 0) (boolAt data 32)
  | 14 => atLeast data 36 <| some <| preserveUntil (keyAt data 0) (u32At data 32)
  | 44 => atLeast data 36 <| some <| expirePreservation (keyAt data 0) (u32At data 32)
  | 15 => atLeast data 45 <| some <|
    markOnLongestChain (keyAt data 0) (boolAt data 32) (u32At data 33) (u32At data 37)
      (u32At data 41)
  | 17 => atLeast data 40 <| some <|
    secondaryDahUpdate (keyAt data 0) (u32At data 32) (u32At data 36)
  | 18 => atLeast data 17 <| some <| allocateRegion (u64At data 0) (u64At data 8) (byteAt data 16)
  | 19 => atLeast data 17 <| some <| freeRegion (u64At data 0) (u64At data 8) (byteAt data 16)
  | 20 => atLeast data 12 <| readHashtableResizeBegin data
  | 21 => atLeast data 8 <| some <| hashtableResizeCommit (u64At data 0)
  | 23 => atLeast data 44 <| some <|
    compensateUnsetMined (keyAt data 0) (u32At data 32) (u32At data 36) (u32At data 40)
  | 24 => atLeast data 68 <| some <|
    compensateReassign (keyAt data 0) (u32At data 32) (bytesAt 32 data 36)
  | 25 => atLeast data 37 <| some <|
    compensatePrune (keyAt data 0) (u32At data 32) (byteAt data 36)
  | 26 => atLeast data 37 <| some <|
    compensateSetLocked (keyAt data 0) (boolAt data 32) (u32At data 33)
  | 29 => atLeast data 8 <| some <| recoveryProgress (u64At data 0)
  | 11 => some checkpoint
  | _ => none

end RedoOp

end TeraSlab.Redo
