import TeraSlab.Redo.Entry

/-!
# The operations a create logs

A create item from the wire becomes a record image: the metadata header, one slot per output and
the cold data. The create path logs either the image itself or only where it lies, followed by the
block the transaction was mined in if the item names one.

The bytes of the metadata header are a parameter; everything here depends on their number only.
-/

namespace TeraSlab.Redo

open Foundations TeraSlab.Index TeraSlab.Ops

def metadataSize : Nat := 256
def utxoSlotSize : Nat := 73

def maxUtxoHashesPerCreateItem : Nat := 131072
def maxColdDataPerItem : Nat := 4 * 1024 * 1024
def maxParentTxidsPerCreateItem : Nat := 65536

structure MinedBlockInfo where
  blockId : UInt32
  blockHeight : UInt32
  subtreeIdx : UInt32

/-- A create item as the wire decoder hands it out, with the limits it checked. -/
structure WireCreateItem where
  txid : Hash
  utxoHashes : List Hash
  coldData : List UInt8
  external : Bool
  frozen : Bool
  conflicting : Bool
  blockHeight : UInt32
  mined : Option MinedBlockInfo
  parentTxids : List Hash
  utxoHashes_le : utxoHashes.length ≤ maxUtxoHashesPerCreateItem
  coldData_le : coldData.length ≤ maxColdDataPerItem
  parentTxids_le : parentTxids.length ≤ maxParentTxidsPerCreateItem

/-- A length-prefixed section and the position behind it. -/
def takeColdDataSection (coldData : List UInt8) (pos : Nat) : Option (List UInt8 × Nat) :=
  if coldData.length < pos + 4 then none
  else
    let stop := pos + 4 + len32At coldData pos
    if coldData.length < stop then none
    else some ((coldData.drop (pos + 4)).take (len32At coldData pos), stop)

/-- Inputs, outputs and inpoints; a missing section reads as an empty one. -/
def parseColdDataFields (coldData : List UInt8) : List UInt8 × List UInt8 × List UInt8 :=
  if coldData.length < 12 then ([], [], [])
  else
    match takeColdDataSection coldData 0 with
    | none => ([], [], [])
    | some (inputs, pos) =>
      match takeColdDataSection coldData pos with
      | none => (inputs, [], [])
      | some (outputs, pos) =>
        match takeColdDataSection coldData pos with
        | none => (inputs, outputs, [])
        | some (inpoints, _) => (inputs, outputs, inpoints)

def buildColdData (inputs outputs inpoints : List UInt8) : List UInt8 :=
  if inputs.isEmpty && outputs.isEmpty && inpoints.isEmpty then []
  else
    putLen32 inputs.length ++ inputs ++ putLen32 outputs.length ++ outputs ++
      putLen32 inpoints.length ++ inpoints

def WireCreateItem.recordColdData (item : WireCreateItem) : List UInt8 :=
  if item.external then []
  else
    let (inputs, outputs, inpoints) := parseColdDataFields item.coldData
    buildColdData inputs outputs inpoints

def slotBytes (crc : List UInt8 → UInt32) (slot : UtxoSlot) : List UInt8 :=
  let payload := putBytes slot.hash ++ putU8 slot.status.byte ++ putBytes slot.spendingData
  payload ++ putU32 (crc payload)

section

variable (crc : List UInt8 → UInt32) (header : WireCreateItem → Vector UInt8 metadataSize)

/-- The record image, or nothing for an item without outputs. -/
def buildCreateRecordBytes (item : WireCreateItem) : Option (List UInt8 × UInt32) :=
  let utxoCount := UInt32.ofNat item.utxoHashes.length
  if utxoCount = 0 then none
  else
    let slots := item.utxoHashes.map
      (if item.frozen then UtxoSlot.newFrozen else UtxoSlot.newUnspent)
    some (putBytes (header item) ++ slots.flatMap (slotBytes crc) ++ item.recordColdData, utxoCount)

/-- What the create path logs for one item placed at an offset of a store. The image is embedded
unless redo is buffered and the store shares the log's device. -/
def createRedoOps (buffered selfSufficient : Bool) (deviceId : UInt8) (recordOffset : UInt64)
    (item : WireCreateItem) : Option (List RedoOp) :=
  match buildCreateRecordBytes crc header item with
  | none => none
  | some (recordBytes, utxoCount) =>
    let parentTxids := if item.conflicting then item.parentTxids else []
    let create :=
      if buffered && !selfSufficient then
        RedoOp.createV2 ⟨item.txid⟩ deviceId recordOffset utxoCount item.conflicting parentTxids
      else
        RedoOp.create ⟨item.txid⟩ deviceId recordOffset utxoCount item.conflicting recordBytes
          parentTxids
    let mined := item.mined.toList.filter (·.blockId != 0)
    some (create :: mined.map fun info =>
      .setMinedBatch info.blockId info.blockHeight info.subtreeIdx true item.blockHeight 0 false
        [⟨item.txid⟩])

end

theorem length_slotBytes (crc : List UInt8 → UInt32) (slot : UtxoSlot) :
    (slotBytes crc slot).length = utxoSlotSize := by
  simp [slotBytes, utxoSlotSize]

theorem length_flatMap_slotBytes (crc : List UInt8 → UInt32) (slots : List UtxoSlot) :
    (slots.flatMap (slotBytes crc)).length = slots.length * utxoSlotSize := by
  induction slots with
  | nil => simp
  | cons slot slots ih =>
    rw [List.flatMap_cons, List.length_append, length_slotBytes, ih, List.length_cons,
      Nat.succ_mul, Nat.add_comm]

def WireCreateItem.recordSize (item : WireCreateItem) : Nat :=
  metadataSize + item.utxoHashes.length * utxoSlotSize + item.recordColdData.length

theorem length_buildCreateRecordBytes {crc : List UInt8 → UInt32}
    {header : WireCreateItem → Vector UInt8 metadataSize} {item : WireCreateItem}
    {recordBytes : List UInt8} {utxoCount : UInt32}
    (h : buildCreateRecordBytes crc header item = some (recordBytes, utxoCount)) :
    recordBytes.length = item.recordSize := by
  unfold buildCreateRecordBytes at h
  dsimp only at h
  split at h
  · cases h
  cases h
  rw [List.length_append, List.length_append, length_flatMap_slotBytes, length_putBytes,
    List.length_map, WireCreateItem.recordSize]

end TeraSlab.Redo
