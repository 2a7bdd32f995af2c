import TeraSlab.Redo.CreateOps
import TeraSlab.Redo.Frames

/-!
# Which entries can be read back

An entry can be read back exactly when its operation is within the limits of the decoder. The
encoder and the create path do not enforce these limits: a conflicting create may name more parents
than the decoder admits, and a record image may be larger. Such an entry reads as a torn tail and
hides every entry behind it.
-/

namespace TeraSlab.Redo

open Foundations TeraSlab.Index TeraSlab.Ops

variable {data : List UInt8} {op : RedoOp}

namespace RedoOp

theorem fits_of_readSetMinedBatch (h : readSetMinedBatch data = some op) : op.Fits := by
  unfold readSetMinedBatch at h
  dsimp only at h
  split_ifs at h
  cases h
  simpa [Fits] using Nat.le_of_not_lt ‹¬ maxSetMinedBatchTxids < _›

theorem fits_of_readCreate (h : readCreate data = some op) : op.Fits := by
  unfold readCreate at h
  dsimp only at h
  split_ifs at h
  cases h
  have hrecord := Nat.le_of_not_lt ‹¬ maxCreateRecordBytes < _›
  have hparents := Nat.le_of_not_lt ‹¬ maxCreateParents < _›
  refine ⟨(List.length_take_le _ _).trans hrecord, ?_⟩
  rwa [length_fieldsAt]

theorem fits_of_readCreateV2 (h : readCreateV2 data = some op) : op.Fits := by
  unfold readCreateV2 at h
  dsimp only at h
  split_ifs at h
  cases h
  simpa [Fits] using Nat.le_of_not_lt ‹¬ maxCreateParents < _›

theorem fits_of_readHashtableResizeBegin (h : readHashtableResizeBegin data = some op)
    (hlen : entryOverhead + op.serializedDataLen < 2 ^ 32) : op.Fits := by
  unfold readHashtableResizeBegin at h
  dsimp only at h
  split_ifs at h
  cases h
  exact hlen

theorem atLeast_eq_some {size : Nat} {result : Option RedoOp}
    (h : atLeast data size result = some op) : result = some op := by
  unfold atLeast at h
  split at h
  · exact h
  · cases h

/-- Whatever the decoder gives out is within its limits, if its length fits the length word. -/
theorem fits_of_deserialize {opType : UInt8} (h : deserialize opType data = some op)
    (hlen : entryOverhead + op.serializedDataLen < 2 ^ 32) : op.Fits := by
  unfold deserialize at h
  split at h
  -- an operation without a list, one with a list, the checkpoint, an unknown byte
  all_goals first
    | (cases atLeast_eq_some h; trivial)
    | exact fits_of_readSetMinedBatch (atLeast_eq_some h)
    | exact fits_of_readCreate (atLeast_eq_some h)
    | exact fits_of_readCreateV2 (atLeast_eq_some h)
    | exact fits_of_readHashtableResizeBegin (atLeast_eq_some h) hlen
    | (cases h; trivial)
    | cases h
    | skip
  -- the two layouts of an unspend
  split at h
  · cases h; trivial
  · cases atLeast_eq_some h; trivial

end RedoOp

/-- In front of any bytes the entry is read back with its length, and the capacity checks count
that length. -/
def Recoverable (crc : List UInt8 → UInt32) (e : RedoEntry) : Prop :=
  (∀ rest, RedoEntry.deserialize crc (e.serialize crc ++ rest) =
    some (e, (e.serialize crc).length)) ∧ (e.serialize crc).length = e.serializedLen

theorem recoverable_iff_fits (crc : List UInt8 → UInt32) (e : RedoEntry) :
    Recoverable crc e ↔ e.op.Fits := by
  constructor
  · intro h
    obtain ⟨hlength, -, -, opType, opData, hop⟩ := RedoEntry.deserialize_some (h.1 [])
    -- the length word cannot name more than a word
    have hlen := hlength.trans_lt (Nat.add_lt_add_left (leAt_lt 4 _ 0) _)
    rw [RedoEntry.length_serialize, RedoEntry.serializedLen, Nat.add_assoc] at hlen
    exact RedoOp.fits_of_deserialize hop (Nat.lt_of_add_lt_add_left hlen)
  · intro h
    exact ⟨e.deserialize_serialize crc h, e.length_serialize crc⟩

/-- What the create path would have to check: the parents of a conflicting item, and the record
image where it is embedded. -/
def WireCreateItem.Loggable (item : WireCreateItem) (buffered selfSufficient : Bool) : Prop :=
  (item.conflicting = true → item.parentTxids.length ≤ maxCreateParents) ∧
  ((buffered && !selfSufficient) = false → item.recordSize ≤ maxCreateRecordBytes)

theorem createRedoOps_fit_iff {crc : List UInt8 → UInt32}
    {header : WireCreateItem → Vector UInt8 metadataSize} {buffered selfSufficient : Bool}
    {deviceId : UInt8} {recordOffset : UInt64} {item : WireCreateItem} {ops : List RedoOp}
    (h : createRedoOps crc header buffered selfSufficient deviceId recordOffset item = some ops) :
    (∀ op ∈ ops, op.Fits) ↔ item.Loggable buffered selfSufficient := by
  unfold createRedoOps at h
  split at h
  · cases h
  rename_i recordBytes utxoCount hbuild
  have hsize := length_buildCreateRecordBytes hbuild
  cases h
  have hmined : ∀ op ∈ (item.mined.toList.filter (·.blockId != 0)).map
      (fun info => RedoOp.setMinedBatch info.blockId info.blockHeight info.subtreeIdx true
        item.blockHeight 0 false [⟨item.txid⟩]), op.Fits := by
    intro op hop
    obtain ⟨info, -, rfl⟩ := List.mem_map.mp hop
    exact show 1 ≤ 1000000 by norm_num
  rw [List.forall_mem_cons, and_iff_left hmined, WireCreateItem.Loggable]
  cases hb : buffered && !selfSufficient <;> cases hc : item.conflicting <;>
    simp [RedoOp.Fits, hsize, and_comm]

/-- Every entry, and every entry the create path logs, is read back exactly when it is within the
limits of the decoder. -/
theorem logged_entries_recoverable_iff (crc : List UInt8 → UInt32)
    (header : WireCreateItem → Vector UInt8 metadataSize) :
    (∀ e : RedoEntry, Recoverable crc e ↔ e.op.Fits) ∧
    ∀ (buffered selfSufficient : Bool) (deviceId : UInt8) (recordOffset : UInt64)
      (item : WireCreateItem) (ops : List RedoOp),
      createRedoOps crc header buffered selfSufficient deviceId recordOffset item = some ops →
      ((∀ op ∈ ops, ∀ sequence, Recoverable crc ⟨sequence, op⟩) ↔
        item.Loggable buffered selfSufficient) := by
  refine ⟨recoverable_iff_fits crc, ?_⟩
  intro buffered selfSufficient deviceId recordOffset item ops hops
  rw [← createRedoOps_fit_iff hops]
  refine forall₂_congr fun op _ => ?_
  constructor
  · intro h
    exact (recoverable_iff_fits crc ⟨0, op⟩).mp (h 0)
  · intro h sequence
    exact (recoverable_iff_fits crc ⟨sequence, op⟩).mpr h

def itemWithParents (parents : List Hash) (h : parents.length ≤ maxParentTxidsPerCreateItem) :
    WireCreateItem where
  txid := .replicate 32 7
  utxoHashes := [.replicate 32 1]
  coldData := []
  external := false
  frozen := false
  conflicting := true
  blockHeight := 100
  mined := none
  parentTxids := parents
  utxoHashes_le := by simp [maxUtxoHashesPerCreateItem]
  coldData_le := by simp [maxColdDataPerItem]
  parentTxids_le := h

theorem logged_entries_recoverable_two_parents :
    ∃ ops, createRedoOps (fun _ => 0) (fun _ => .replicate _ 0) false true 0 4096
      (itemWithParents (List.replicate 2 (.replicate 32 9)) (by decide)) = some ops ∧
      ∀ op ∈ ops, ∀ sequence, Recoverable (fun _ => 0) ⟨sequence, op⟩ := by
  refine ⟨_, rfl, ?_⟩
  refine ((logged_entries_recoverable_iff (fun _ => 0) (fun _ => .replicate _ 0)).2 false true 0
    4096 (itemWithParents (List.replicate 2 (.replicate 32 9)) (by decide)) _ rfl).mpr ?_
  constructor <;> intro _ <;> decide

/-- A conflicting create with 65 parents is accepted and logged, and cannot be read back, whatever
the checksum and the header bytes are. -/
theorem crowded_create_unreadable :
    ¬ ∃ (crc : List UInt8 → UInt32) (header : WireCreateItem → Vector UInt8 metadataSize),
      ∀ op ops, createRedoOps crc header false true 0 4096
        (itemWithParents (List.replicate 65 (.replicate 32 9)) (by decide)) = some (op :: ops) →
        ∃ sequence, Recoverable crc ⟨sequence, op⟩ := by
  rintro ⟨crc, header, hreadable⟩
  obtain ⟨sequence, h⟩ := hreadable _ _ rfl
  have hfits : 65 ≤ 64 := ((recoverable_iff_fits crc ⟨sequence, _⟩).mp h).2
  omega

end TeraSlab.Redo
