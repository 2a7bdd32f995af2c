import TeraSlab.Redo.Operation

/-!
# Redo entries

An entry on the device is a length word, a sequence number, a type byte, the data of the operation
and a checksum. Reading back an entry in front of arbitrary bytes gives the entry and its length,
for every operation whose lists the decoder admits and whose length word does not overflow.

The checksum function is a parameter: a round trip only needs that both sides compute the same.
-/

namespace TeraSlab.Redo

open Foundations TeraSlab.Index TeraSlab.Ops

structure RedoEntry where
  sequence : UInt64
  op : RedoOp
deriving DecidableEq

def entryHeaderSize : Nat := 4
def entryOverhead : Nat := 13
def entryChecksumSize : Nat := 4

namespace RedoEntry

/-- The length of the entry on the device, by arithmetic. -/
def serializedLen (e : RedoEntry) : Nat := entryHeaderSize + entryOverhead + e.op.serializedDataLen

/-- Sequence number, type byte and data: what the checksum covers. -/
def content (e : RedoEntry) : List UInt8 :=
  putU64 e.sequence ++ putU8 e.op.opType ++ e.op.serializeData

def serialize (crc : List UInt8 → UInt32) (e : RedoEntry) : List UInt8 :=
  let payload := e.content ++ putU32 (crc e.content)
  putLen32 payload.length ++ payload

/-- The entry at the front of the bytes and the bytes it takes. -/
def deserialize (crc : List UInt8 → UInt32) (data : List UInt8) : Option (RedoEntry × Nat) :=
  if data.length < entryHeaderSize then none
  else
    let length := len32At data 0
    if length = 0 then none
    else
      let total := entryHeaderSize + length
      if data.length < total ∨ length < entryOverhead then none
      else
        let payload := (data.drop entryHeaderSize).take length
        let contentLen := length - entryChecksumSize
        if u32At payload contentLen ≠ crc (payload.take contentLen) then none
        else
          match RedoOp.deserialize (byteAt payload 8) ((payload.take contentLen).drop 9) with
          | none => none
          | some op => some (⟨u64At payload 0, op⟩, total)

end RedoEntry

/-! ## Fields -/

section Fields

variable {xs ys : List UInt8} {i n : Nat}

@[simp] theorem length_putU8 (b : UInt8) : (putU8 b).length = 1 := by simp [putU8]
@[simp] theorem length_putU16 (n : Nat) : (putU16 n).length = 2 := length_toLe _ _
@[simp] theorem length_putU32 (v : UInt32) : (putU32 v).length = 4 := length_toLe _ _
@[simp] theorem length_putU64 (v : UInt64) : (putU64 v).length = 8 := length_toLe _ _
@[simp] theorem length_putLen32 (n : Nat) : (putLen32 n).length = 4 := length_toLe _ _
@[simp] theorem length_putBool (b : Bool) : (putBool b).length = 1 := length_putU8 _
@[simp] theorem length_putBytes (v : Vector UInt8 n) : (putBytes v).length = n := v.length_toList
@[simp] theorem length_putKey (key : TxKey) : (putKey key).length = 32 := length_putBytes _

section

variable (h : xs.length ≤ i)
include h

@[simp] theorem u16At_skip : u16At (xs ++ ys) i = u16At ys (i - xs.length) :=
  leAt_append_right h

@[simp] theorem u32At_skip : u32At (xs ++ ys) i = u32At ys (i - xs.length) :=
  congrArg UInt32.ofNat (leAt_append_right h)

@[simp] theorem u64At_skip : u64At (xs ++ ys) i = u64At ys (i - xs.length) :=
  congrArg UInt64.ofNat (leAt_append_right h)

@[simp] theorem len32At_skip :
    len32At (xs ++ ys) i = len32At ys (i - xs.length) := leAt_append_right h

@[simp] theorem boolAt_skip :
    boolAt (xs ++ ys) i = boolAt ys (i - xs.length) :=
  congrArg (· != 0) (byteAt_append_right h)

@[simp] theorem byteAt_skip :
    byteAt (xs ++ ys) i = byteAt ys (i - xs.length) := byteAt_append_right h

@[simp] theorem bytesAt_skip :
    bytesAt n (xs ++ ys) i = bytesAt n ys (i - xs.length) := bytesAt_append_right h

@[simp] theorem fieldsAt_skip (count : Nat) :
    fieldsAt n count (xs ++ ys) i = fieldsAt n count ys (i - xs.length) :=
  fieldsAt_append_right count h

end

@[simp] theorem byteAt_putU8 (b : UInt8) (ys : List UInt8) : byteAt (putU8 b ++ ys) 0 = b := rfl

@[simp] theorem byteAt_putU8_end (b : UInt8) : byteAt (putU8 b) 0 = b := rfl

@[simp] theorem u16At_putU16 (n : Nat) (ys : List UInt8) :
    u16At (putU16 n ++ ys) 0 = n % 2 ^ 16 := leAt_toLe 2 n ys

@[simp] theorem len32At_putLen32 (n : Nat) (ys : List UInt8) :
    len32At (putLen32 n ++ ys) 0 = n % 2 ^ 32 := leAt_toLe 4 n ys

@[simp] theorem u32At_putU32 (v : UInt32) (ys : List UInt8) : u32At (putU32 v ++ ys) 0 = v := by
  have hv : v.toNat % 256 ^ 4 = v.toNat := Nat.mod_eq_of_lt v.toNat_lt
  rw [u32At, putU32, leAt_toLe, hv, UInt32.ofNat_toNat]

@[simp] theorem u64At_putU64 (v : UInt64) (ys : List UInt8) : u64At (putU64 v ++ ys) 0 = v := by
  have hv : v.toNat % 256 ^ 8 = v.toNat := Nat.mod_eq_of_lt v.toNat_lt
  rw [u64At, putU64, leAt_toLe, hv, UInt64.ofNat_toNat]

@[simp] theorem u32At_putU32_end (v : UInt32) : u32At (putU32 v) 0 = v := by
  simpa using u32At_putU32 v []

@[simp] theorem u64At_putU64_end (v : UInt64) : u64At (putU64 v) 0 = v := by
  simpa using u64At_putU64 v []

@[simp] theorem boolAt_putBool_end (b : Bool) : boolAt (putBool b) 0 = b := by
  cases b <;> rfl

@[simp] theorem bytesAt_putBytes_end (v : Vector UInt8 n) : bytesAt n (putBytes v) 0 = v := by
  simpa [putBytes] using bytesAt_toList v []

@[simp] theorem boolAt_putBool (b : Bool) (ys : List UInt8) : boolAt (putBool b ++ ys) 0 = b := by
  cases b <;> rfl

@[simp] theorem bytesAt_putBytes (v : Vector UInt8 n) (ys : List UInt8) :
    bytesAt n (putBytes v ++ ys) 0 = v := bytesAt_toList v ys

@[simp] theorem keyAt_putKey (key : TxKey) (ys : List UInt8) : keyAt (putKey key ++ ys) 0 = key :=
  congrArg TxKey.mk (bytesAt_toList key.txid ys)

@[simp] theorem length_flatMap_putBytes (vs : List (Vector UInt8 n)) :
    (vs.flatMap putBytes).length = vs.length * n := length_flatMap_toList vs

theorem flatMap_putKey (keys : List TxKey) :
    keys.flatMap putKey = (keys.map TxKey.txid).flatMap putBytes := by
  rw [List.flatMap_map]
  rfl

@[simp] theorem fieldsAt_putBytes (vs : List (Vector UInt8 n)) (ys : List UInt8) :
    fieldsAt n vs.length (vs.flatMap putBytes ++ ys) 0 = vs := fieldsAt_flatMap vs ys

@[simp] theorem fieldsAt_putBytes_end (vs : List (Vector UInt8 n)) :
    fieldsAt n vs.length (vs.flatMap putBytes) 0 = vs := by
  simpa using fieldsAt_putBytes vs []

end Fields

namespace RedoOp

/-- The lists of the operation are within the decoder's limits, and the length word of its entry
does not overflow. -/
def Fits : RedoOp → Prop
  | setMinedBatch _ _ _ _ _ _ _ txids => txids.length ≤ maxSetMinedBatchTxids
  | create _ _ _ _ _ recordBytes parentTxids =>
    recordBytes.length ≤ maxCreateRecordBytes ∧ parentTxids.length ≤ maxCreateParents
  | createV2 _ _ _ _ _ parentTxids => parentTxids.length ≤ maxCreateParents
  | hashtableResizeBegin tmpPathBytes _ =>
    entryOverhead + (8 + 4 + tmpPathBytes.length) < 2 ^ 32
  | _ => True

instance : DecidablePred Fits := fun op => by
  cases op <;> unfold Fits <;> infer_instance

/-- The arithmetic the capacity checks use is exact. -/
theorem length_serializeData (op : RedoOp) : op.serializeData.length = op.serializedDataLen := by
  cases op with
  | spendV2 _ _ _ _ _ _ _ _ utxoHash => cases utxoHash <;> simp [serializeData, serializedDataLen]
  | unspendV2 _ _ _ _ _ _ _ _ utxoHash =>
    cases utxoHash <;> simp [serializeData, serializedDataLen]
  | unspend _ _ spendingData _ => cases spendingData <;> simp [serializeData, serializedDataLen]
  | setMinedBatch _ _ _ _ _ _ _ txids =>
    have hkeys := length_flatMap_putBytes (txids.map TxKey.txid)
    rw [List.length_map] at hkeys
    simp only [serializeData, serializedDataLen, flatMap_putKey, List.length_append, hkeys,
      length_putU32, length_putBool, length_putLen32]
  | create | createV2 | hashtableResizeBegin => simp [serializeData, serializedDataLen]; omega
  | _ => simp [serializeData, serializedDataLen]

section

variable {op : RedoOp} {txKey : TxKey} {deviceId : UInt8} {recordOffset : UInt64}
  {blockId blockHeight subtreeIdx current retention utxoCount : UInt32}
  {onLongestChain unset isConflicting : Bool} {parentTxids : List Hash}

theorem deserialize_setMinedBatch {txids : List TxKey}
    (hop : op = setMinedBatch blockId blockHeight subtreeIdx onLongestChain current retention unset
      txids) (h : txids.length ≤ maxSetMinedBatchTxids) :
    readSetMinedBatch op.serializeData = some op := by
  have hmod : txids.length % 4294967296 = txids.length :=
    Nat.mod_eq_of_lt (by unfold maxSetMinedBatchTxids at h; omega)
  have hkeys := fieldsAt_putBytes_end (txids.map TxKey.txid)
  have hsize := (length_serializeData op).trans (congrArg serializedDataLen hop)
  rw [List.length_map] at hkeys
  have hcount : len32At op.serializeData 22 = txids.length := by
    simp [hop, serializeData, hmod]
  simp only [readSetMinedBatch, hcount, hsize, serializedDataLen]
  rw [if_neg (by omega), if_neg (by omega)]
  simp [hop, serializeData, flatMap_putKey, hkeys, show TxKey.mk ∘ TxKey.txid = id from rfl]

theorem deserialize_create {recordBytes : List UInt8}
    (hop : op = create txKey deviceId recordOffset utxoCount isConflicting recordBytes parentTxids)
    (hrecord : recordBytes.length ≤ maxCreateRecordBytes)
    (hparents : parentTxids.length ≤ maxCreateParents) :
    readCreate op.serializeData = some op := by
  set data := op.serializeData with hdata
  rw [hop] at hdata
  -- the record starts right after the fifty bytes of fixed fields
  obtain ⟨fixed, hfixed, hsplit⟩ : ∃ fixed : List UInt8, fixed.length = 50 ∧
      data = fixed ++
        (recordBytes ++ (putU16 parentTxids.length ++ parentTxids.flatMap putBytes)) :=
    ⟨putKey txKey ++ putU8 deviceId ++ putU64 recordOffset ++ putU32 utxoCount ++
      putBool isConflicting ++ putLen32 recordBytes.length, by simp, by simp [hdata, serializeData]⟩
  have hlen : len32At data 46 = recordBytes.length := by
    have hmod : recordBytes.length % 4294967296 = recordBytes.length :=
      Nat.mod_eq_of_lt (by unfold maxCreateRecordBytes at hrecord; omega)
    simp [hdata, serializeData, hmod]
  have hcount : u16At data (50 + recordBytes.length) = parentTxids.length := by
    have hmod : parentTxids.length % 65536 = parentTxids.length :=
      Nat.mod_eq_of_lt (by unfold maxCreateParents at hparents; omega)
    rw [hsplit, u16At_skip (by omega), hfixed, Nat.add_sub_cancel_left, u16At_skip le_rfl,
      Nat.sub_self, u16At_putU16]
    exact hmod
  have hrecordAt : (data.drop 50).take recordBytes.length = recordBytes := by
    rw [hsplit, ← hfixed, List.drop_left, List.take_left]
  have hparentsAt : fieldsAt 32 parentTxids.length data (50 + recordBytes.length + 2) =
      parentTxids := by
    rw [hsplit, fieldsAt_skip (by omega), hfixed, Nat.add_assoc, Nat.add_sub_cancel_left,
      fieldsAt_skip (by omega), Nat.add_sub_cancel_left, fieldsAt_skip (by simp), length_putU16,
      Nat.sub_self, fieldsAt_putBytes_end]
  have hsize : data.length = 52 + recordBytes.length + parentTxids.length * 32 := by
    rw [hdata, length_serializeData, serializedDataLen]
    omega
  simp only [readCreate, hlen, hcount, hrecordAt, hparentsAt]
  rw [if_neg (by omega), if_neg (by omega), if_neg (by omega), if_neg (by omega)]
  simp [hdata, hop, serializeData]

theorem deserialize_createV2
    (hop : op = createV2 txKey deviceId recordOffset utxoCount isConflicting parentTxids)
    (hparents : parentTxids.length ≤ maxCreateParents) :
    readCreateV2 op.serializeData = some op := by
  have hmod : parentTxids.length % 65536 = parentTxids.length :=
    Nat.mod_eq_of_lt (by unfold maxCreateParents at hparents; omega)
  have hsize := (length_serializeData op).trans (congrArg serializedDataLen hop)
  have hcount : u16At op.serializeData 46 = parentTxids.length := by
    simp [hop, serializeData, hmod]
  simp only [readCreateV2, hcount, hsize, serializedDataLen]
  rw [if_neg (by omega), if_neg (by omega)]
  simp [hop, serializeData]

theorem deserialize_hashtableResizeBegin {tmpPathBytes : List UInt8} {newCapacity : UInt64}
    (hop : op = hashtableResizeBegin tmpPathBytes newCapacity)
    (h : tmpPathBytes.length < 2 ^ 32) : readHashtableResizeBegin op.serializeData = some op := by
  have hmod : tmpPathBytes.length % 4294967296 = tmpPathBytes.length := Nat.mod_eq_of_lt h
  have hpath : (op.serializeData.drop 12).take tmpPathBytes.length = tmpPathBytes := by
    have hfixed : (putU64 newCapacity ++ putLen32 tmpPathBytes.length).length = 12 := by simp
    rw [hop, serializeData, ← hfixed, List.drop_left, List.take_length]
  have hsize := (length_serializeData op).trans (congrArg serializedDataLen hop)
  have hlen : len32At op.serializeData 8 = tmpPathBytes.length := by
    simp [hop, serializeData, hmod]
  simp only [readHashtableResizeBegin, hlen, hpath, hsize, serializedDataLen]
  simp [hop, serializeData]

end

/-- Every operation within the limits is read back from its type byte and data. -/
theorem deserialize_serializeData {op : RedoOp} (h : op.Fits) :
    deserialize op.opType op.serializeData = some op := by
  cases op with
  | spendV2 _ _ _ _ _ _ _ _ utxoHash | unspendV2 _ _ _ _ _ _ _ _ utxoHash =>
    cases utxoHash <;> simp [deserialize, opType, serializeData, atLeast, readSpendFields]
  | unspend _ _ spendingData _ =>
    cases spendingData <;> simp [deserialize, opType, serializeData, atLeast]
  | setMinedBatch _ _ _ _ _ _ _ txids =>
    simp only [deserialize, opType, atLeast, length_serializeData, serializedDataLen]
    rw [if_pos (by omega), deserialize_setMinedBatch rfl h]
  | create _ _ _ _ _ recordBytes parentTxids =>
    simp only [deserialize, opType, atLeast, length_serializeData, serializedDataLen]
    rw [if_pos (by omega), deserialize_create rfl h.1 h.2]
  | createV2 _ _ _ _ _ parentTxids =>
    simp only [deserialize, opType, atLeast, length_serializeData, serializedDataLen]
    rw [if_pos (by omega), deserialize_createV2 rfl h]
  | hashtableResizeBegin tmpPathBytes newCapacity =>
    have hpath : tmpPathBytes.length < 2 ^ 32 := by
      have hfits : entryOverhead + (8 + 4 + tmpPathBytes.length) < 2 ^ 32 := h
      omega
    simp only [deserialize, opType, atLeast, length_serializeData, serializedDataLen]
    rw [if_pos (by omega), deserialize_hashtableResizeBegin rfl hpath]
  | _ => simp [deserialize, opType, serializeData, atLeast]

/-- Within the limits the length word does not overflow. -/
theorem Fits.length_lt {op : RedoOp} (h : op.Fits) :
    entryOverhead + op.serializedDataLen < 2 ^ 32 := by
  cases op with
  | spendV2 _ _ _ _ _ _ _ _ utxoHash | unspendV2 _ _ _ _ _ _ _ _ utxoHash =>
    cases utxoHash <;> simp [serializedDataLen, entryOverhead]
  | unspend _ _ spendingData _ => cases spendingData <;> simp [serializedDataLen, entryOverhead]
  | setMinedBatch _ _ _ _ _ _ _ txids =>
    have hlist : txids.length ≤ 1000000 := h
    simp only [serializedDataLen, entryOverhead]
    omega
  | create _ _ _ _ _ recordBytes parentTxids =>
    have hrecord : recordBytes.length ≤ 1024 * 1024 := h.1
    have hparents : parentTxids.length ≤ 64 := h.2
    simp only [serializedDataLen, entryOverhead]
    omega
  | createV2 _ _ _ _ _ parentTxids =>
    have hparents : parentTxids.length ≤ 64 := h
    simp only [serializedDataLen, entryOverhead]
    omega
  | hashtableResizeBegin => exact h
  | _ => simp [serializedDataLen, entryOverhead]

end RedoOp

namespace RedoEntry

variable (crc : List UInt8 → UInt32) (e : RedoEntry)

theorem length_content : e.content.length = 9 + e.op.serializedDataLen := by
  simp [content, RedoOp.length_serializeData]
  omega

/-- An entry takes the bytes the capacity checks count. -/
theorem length_serialize : (e.serialize crc).length = e.serializedLen := by
  simp [serialize, length_content, serializedLen, entryHeaderSize, entryOverhead]
  omega

theorem len32At_serialize (rest : List UInt8) :
    len32At (e.serialize crc ++ rest) 0 = (entryOverhead + e.op.serializedDataLen) % 2 ^ 32 := by
  have hlen : (e.content ++ putU32 (crc e.content)).length =
      entryOverhead + e.op.serializedDataLen := by
    rw [List.length_append, length_content, length_putU32, entryOverhead]
    omega
  rw [serialize, List.append_assoc, len32At_putLen32, hlen]

theorem deserialize_serialize (h : e.op.Fits) (rest : List UInt8) :
    deserialize crc (e.serialize crc ++ rest) = some (e, (e.serialize crc).length) := by
  set payload := e.content ++ putU32 (crc e.content) with hpayload
  have hlen : payload.length = entryOverhead + e.op.serializedDataLen := by
    rw [hpayload, List.length_append, length_content, length_putU32, entryOverhead]
    omega
  have hcontent : payload.length - entryChecksumSize = e.content.length := by
    rw [hpayload, List.length_append, length_putU32, entryChecksumSize, Nat.add_sub_cancel]
  have hword : len32At (e.serialize crc ++ rest) 0 = payload.length := by
    rw [len32At_serialize, hlen, Nat.mod_eq_of_lt h.length_lt]
  have htotal : (e.serialize crc ++ rest).length = 4 + payload.length + rest.length := by
    rw [List.length_append, length_serialize, serializedLen, hlen, entryHeaderSize]
    omega
  have hslice : ((e.serialize crc ++ rest).drop entryHeaderSize).take payload.length = payload := by
    have hword : (putLen32 payload.length).length = entryHeaderSize := length_putLen32 _
    rw [serialize, ← hpayload, List.append_assoc, ← hword, List.drop_left, List.take_left]
  have hpos : 13 ≤ payload.length := by rw [hlen]; exact Nat.le_add_right _ _
  have htake : payload.take e.content.length = e.content := List.take_left
  have hcrc : u32At payload e.content.length = crc e.content := by
    rw [hpayload, u32At_skip le_rfl, Nat.sub_self, u32At_putU32_end]
  have hfields : payload = putU64 e.sequence ++ (putU8 e.op.opType ++
      (e.op.serializeData ++ putU32 (crc e.content))) := by
    simp [hpayload, content]
  have hseq : u64At payload 0 = e.sequence := by
    rw [hfields, u64At_putU64]
  have htype : byteAt payload 8 = e.op.opType := by
    rw [hfields, byteAt_skip (by simp), length_putU64, Nat.sub_self, byteAt_putU8]
  have hdata : e.content.drop 9 = e.op.serializeData := by
    have hfixed : (putU64 e.sequence ++ putU8 e.op.opType).length = 9 := by simp
    rw [content, ← hfixed, List.drop_left]
  have hlength : (e.serialize crc).length = entryHeaderSize + payload.length := by
    rw [length_serialize, serializedLen, hlen, Nat.add_assoc]
  have hheader : entryHeaderSize = 4 := rfl
  simp only [deserialize, hword, hslice, hcontent, htake, hcrc, hseq, htype, hdata,
    RedoOp.deserialize_serializeData h, hlength]
  rw [if_neg (by omega), if_neg (by omega), if_neg (by omega), if_neg (by simp)]

end RedoEntry

end TeraSlab.Redo
