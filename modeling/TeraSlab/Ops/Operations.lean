import TeraSlab.Ops.Cell

/-!
# The operations of the engine

Each operation takes the cell of its transaction to the cell it leaves behind and a result. An
operation that fails after it has written something leaves the written part behind.
-/

namespace TeraSlab.Ops

open Foundations Index

structure MinedBlockInfo where
  blockId : Nat
  blockHeight : Nat
  subtreeIdx : Nat

/-- A request to create a record; the number of outputs is a 32-bit number on the wire. -/
structure CreateRequest where
  utxoHashes : List Hash
  utxoHashes_lt : utxoHashes.length < 2 ^ 32
  isCoinbase : Bool := false
  spendingHeight : Nat := 0
  isExternal : Bool := false
  hasExternalRef : Bool := false
  blockHeight : Nat := 0
  minedBlockInfos : List MinedBlockInfo := []
  frozen : Bool := false
  conflicting : Bool := false
  locked : Bool := false

structure CreateResponse where
  utxoCount : Nat

structure SpendRequest where
  offset : Nat
  utxoHash : Hash
  spendingData : SpendingData
  ignoreConflicting : Bool := false
  ignoreLocked : Bool := false
  currentBlockHeight : Nat
  blockHeightRetention : Nat

structure SpendResponse where
  signal : Signal
  blockIds : List Nat

structure SpendItem where
  offset : Nat
  utxoHash : Hash
  spendingData : SpendingData
  idx : Nat

structure SpendMultiRequest where
  spends : List SpendItem
  ignoreConflicting : Bool := false
  ignoreLocked : Bool := false
  currentBlockHeight : Nat
  blockHeightRetention : Nat

structure SpendMultiResponse where
  signal : Signal
  blockIds : List Nat
  errors : SortedMap Nat SpendError
  spentCount : Nat
  generation : Nat

structure UnspendRequest where
  offset : Nat
  utxoHash : Hash
  spendingData : SpendingData
  currentBlockHeight : Nat
  blockHeightRetention : Nat

structure SignalResponse where
  signal : Signal
  generation : Nat

structure SetMinedSharedParams where
  blockId : Nat
  blockHeight : Nat := 0
  subtreeIdx : Nat := 0
  currentBlockHeight : Nat
  blockHeightRetention : Nat
  onLongestChain : Bool := false
  unsetMined : Bool := false

structure MarkOnLongestChainRequest where
  onLongestChain : Bool
  currentBlockHeight : Nat
  blockHeightRetention : Nat

structure ReassignRequest where
  offset : Nat
  utxoHash : Hash
  newUtxoHash : Hash
  blockHeight : Nat
  spendableAfter : Nat

structure SetConflictingRequest where
  value : Bool
  currentBlockHeight : Nat
  blockHeightRetention : Nat

structure PreservationExpiry where
  deleteAtHeight : Nat
  generation : Nat
  priorPreserveUntil : Nat

structure SetLockedResponse where
  generation : Nat
  priorLocked : Bool
  priorDeleteAtHeight : Nat

/-- What a spend of a slot that passed the checks is. -/
inductive SpendKind where
  | fresh
  | repeated
deriving DecidableEq

namespace Cell

/-! ### Creation -/

def createSlots (req : CreateRequest) : List UtxoSlot :=
  req.utxoHashes.map fun hash => if req.frozen then .newFrozen hash else .newUnspent hash

/-- A new record counts as unmined since its creation unless it comes with blocks. -/
def createRecord (req : CreateRequest) (minedSlot : Nat) : Record where
  metadata :=
    { spendingHeight := req.spendingHeight
      unminedSince := if req.minedBlockInfos.isEmpty then req.blockHeight else 0
      flags :=
        { isCoinbase := req.isCoinbase
          external := req.isExternal
          conflicting := req.conflicting
          locked := req.locked } }
  slots := createSlots req
  slots_lt := by simpa [createSlots] using req.utxoHashes_lt
  minedSlot := some minedSlot
  deletedChildren := []

def seedMinedIndexFromInfos (mined : MinedShard) (key : TxKey) (slot unminedSince : Nat)
    (infos : List MinedBlockInfo) : MinedShard :=
  infos.foldl (fun mined info =>
    (mined.applySetMined key slot info.blockId info.blockHeight info.subtreeIdx
      (unminedSince = 0)).1) mined

def create (c : Cell) (key : TxKey) (room : Room) (req : CreateRequest) :
    Cell × Except CreateError CreateResponse :=
  if req.utxoHashes.length = 0 then (c, .error .invalidUtxoCount)
  else if c.record.isSome then (c, .error .duplicateTxId)
  else if req.isExternal && !req.hasExternalRef then (c, .error .missingExternalRef)
  else
    match room with
    | .error _ => (c, .error .deviceFull)
    | .ok () =>
      let unminedSince := if req.minedBlockInfos.isEmpty then req.blockHeight else 0
      let (mined, slot) := c.mined.allocCreated key unminedSince
      let mined := seedMinedIndexFromInfos mined key slot unminedSince req.minedBlockInfos
      let r := createRecord req slot
      ({ c with record := some r, mined := mirrorDeFlags mined key r },
        .ok ⟨req.utxoHashes.length⟩)

/-! ### Spends -/

def checkUnlocked (c : Cell) (key : TxKey) (r : Record) : Except SpendError Unit :=
  match minedBlockEntriesAt c.mined key r.minedSlot with
  | .error e => .error e
  | .ok (entries, _) => if entries.isEmpty then .error .locked else .ok ()

def checkRecord (c : Cell) (key : TxKey) (r : Record) (ignoreConflicting ignoreLocked : Bool)
    (height : Nat) : Except SpendError Unit :=
  if r.metadata.flags.conflicting && !ignoreConflicting then .error .conflicting
  else
    match if r.metadata.flags.locked && !ignoreLocked then c.checkUnlocked key r else .ok () with
    | .error e => .error e
    | .ok () =>
      if r.metadata.flags.isCoinbase && 0 < r.metadata.spendingHeight &&
          height < r.metadata.spendingHeight then
        .error (.coinbaseImmature r.metadata.spendingHeight height)
      else .ok ()

def checkSlot (r : Record) (slot : UtxoSlot) (offset : Nat) (utxoHash : Hash)
    (spendingData : SpendingData) (height : Nat) : Except SpendError SpendKind :=
  if slot.hash ≠ utxoHash then .error (.utxoHashMismatch offset)
  else
    match slot.status with
    | .unspent =>
      if slot.reassignmentCooldown ≠ 0 ∧ height < slot.reassignmentCooldown then
        .error (.frozenUntil offset slot.reassignmentCooldown)
      else .ok .fresh
    | .spent =>
      if slot.spendingData = spendingData then
        if childTxid spendingData ∈ r.deletedChildren then
          .error (.deletedChildren offset r.deletedChildren.length)
        else .ok .repeated
      else if slot.spendingData = frozenMarker then .error (.frozen offset)
      else .error (.alreadySpent offset slot.spendingData)
    | .pruned => .error (.pruned offset slot.spendingData)
    | .frozen => .error (.frozen offset)
    | .unknown byte => .error (.storageError ("unknown status byte: " ++ hexByte byte))

/-- A log-structured store writes a spent record to a new place. -/
def relocate (cfg : StoreConfig) (room : Room) : Except SpendError Unit :=
  match cfg.logStructured, room with
  | true, .error detail => .error (.storageError ("relocate: allocate new offset: " ++ detail))
  | _, _ => .ok ()

/-- The mined index learns at once that the last output of a record is spent. -/
def markAllSpent (c : Cell) (r : Record) : Cell :=
  if r.allSpent then { c with mined := setAllSpentAt c.mined r.minedSlot true } else c

def validateSpend (c : Cell) (key : TxKey) (req : SpendRequest) :
    Except SpendError (Record × SpendKind) :=
  if req.spendingData = frozenMarker then .error (.reservedSpendingData req.offset)
  else
    match c.record with
    | none => .error .txNotFound
    | some r =>
      match c.checkRecord key r req.ignoreConflicting req.ignoreLocked req.currentBlockHeight with
      | .error e => .error e
      | .ok () =>
        match r.slots[req.offset]? with
        | none => .error (.utxoNotFound req.offset)
        | some slot =>
          match checkSlot r slot req.offset req.utxoHash req.spendingData
            req.currentBlockHeight with
          | .error e => .error e
          | .ok kind => .ok (r, kind)

/-- The footer after a number of slots became spent. -/
def countSpent (r : Record) (spentUtxos : Nat) : Record :=
  { r with metadata := { r.metadata with spentUtxos }.bump }

/-- A fresh spend. Nothing is written to the device before the evaluation has succeeded. -/
def applySpend (c : Cell) (cfg : StoreConfig) (key : TxKey) (room : Room) (r : Record)
    (req : SpendRequest) : Cell × Except SpendError SpendResponse :=
  let r := countSpent r ((r.metadata.spentUtxos + 1) % 2 ^ 32)
  let c := c.markAllSpent r
  match c.evaluate key r req.currentBlockHeight req.blockHeightRetention with
  | .error e => (c, .error e)
  | .ok (entries, signal, patch) =>
    match relocate cfg room with
    | .error e => (c, .error e)
    | .ok () =>
      (c.commit key (r.writeSlot req.offset (.newSpent req.utxoHash req.spendingData)) patch,
        .ok ⟨signal, entries.map (·.blockId)⟩)

def spend (c : Cell) (cfg : StoreConfig) (key : TxKey) (room : Room) (req : SpendRequest) :
    Cell × Except SpendError SpendResponse :=
  match c.validateSpend key req with
  | .error e => (c, .error e)
  | .ok (r, .fresh) => c.applySpend cfg key room r req
  | .ok (r, .repeated) =>
    match minedBlockEntriesAt c.mined key r.minedSlot with
    | .error e => (c, .error e)
    | .ok (entries, _) => (c, .ok ⟨.none, entries.map (·.blockId)⟩)

/-- The outcome of the validation loop of a batch so far. -/
structure Batch where
  errors : SortedMap Nat SpendError := .empty
  validSpends : List (Nat × UtxoSlot) := []
  spentCount : Nat := 0
  idempotentCount : Nat := 0

namespace Batch

def fail (b : Batch) (item : SpendItem) (e : SpendError) : Batch :=
  { b with errors := b.errors.insert item.idx e }

/-- The slot an item sees: an earlier item of the batch may have spent it. -/
def slotAt (b : Batch) (r : Record) (offset : Nat) : Option UtxoSlot :=
  if offset < r.utxoCount then
    match b.validSpends.reverse.find? (·.1 = offset) with
    | some prev => some prev.2
    | none => r.slots[offset]?
  else none

def checkItem (b : Batch) (r : Record) (height : Nat) (item : SpendItem) :
    Except SpendError SpendKind :=
  if item.spendingData = frozenMarker then .error (.reservedSpendingData item.offset)
  else
    match b.slotAt r item.offset with
    | none => .error (.utxoNotFound item.offset)
    | some slot => checkSlot r slot item.offset item.utxoHash item.spendingData height

def addItem (r : Record) (height : Nat) (b : Batch) (item : SpendItem) : Batch :=
  match b.checkItem r height item with
  | .error e => b.fail item e
  | .ok .repeated => { b with idempotentCount := b.idempotentCount + 1 }
  | .ok .fresh =>
    { b with
      validSpends := b.validSpends ++ [(item.offset, .newSpent item.utxoHash item.spendingData)]
      spentCount := b.spentCount + 1 }

def ofItems (r : Record) (height : Nat) (items : List SpendItem) : Batch :=
  items.foldl (addItem r height) {}

end Batch

def prepareSpendMulti (c : Cell) (key : TxKey) (req : SpendMultiRequest) :
    Except SpendError (Record × Batch × List BlockEntry) :=
  match c.record with
  | none => .error .txNotFound
  | some r =>
    match c.checkRecord key r req.ignoreConflicting req.ignoreLocked req.currentBlockHeight with
    | .error e => .error e
    | .ok () =>
      let batch := Batch.ofItems r req.currentBlockHeight req.spends
      match minedBlockEntriesAt c.mined key r.minedSlot with
      | .error e => .error e
      | .ok (entries, _) => .ok (r, batch, entries)

/-- The footer check of a batch: the counter must stay within the number of slots. -/
def checkSpentCount (r : Record) (spentCount : Nat) : Except SpendError Nat :=
  let preSpent := r.metadata.spentUtxos
  let newSpent := preSpent + spentCount
  if 2 ^ 32 ≤ newSpent then
    .error (.storageError ("spent_utxos overflow: " ++ toString preSpent ++ " + " ++
      toString spentCount ++ " > u32::MAX"))
  else if r.utxoCount < newSpent then
    .error (.storageError ("spent_utxos invariant violated: " ++ toString newSpent ++
      " > utxo_count=" ++ toString r.utxoCount))
  else .ok newSpent

/-- Apply a validated batch. A store that overwrites in place writes the slots first, before any
of the checks that follow. -/
def applyLocked (c : Cell) (cfg : StoreConfig) (key : TxKey) (room : Room) (r : Record)
    (batch : Batch) (entries : List BlockEntry) (req : SpendMultiRequest) :
    Cell × Except SpendError SpendMultiResponse :=
  let blockIds := entries.map (·.blockId)
  if batch.spentCount = 0 then
    (c, .ok ⟨.none, blockIds, batch.errors, batch.spentCount, r.metadata.generation⟩)
  else
    let written := r.writeSlots batch.validSpends
    let c := if cfg.logStructured then c else { c with record := some written }
    match checkSpentCount r batch.spentCount with
    | .error e => (c, .error e)
    | .ok newSpent =>
      let r := countSpent r newSpent
      let c := c.markAllSpent r
      match c.evaluate key r req.currentBlockHeight req.blockHeightRetention with
      | .error e => (c, .error e)
      | .ok (_, signal, patch) =>
        match relocate cfg room with
        | .error e => (c, .error e)
        | .ok () =>
          (c.commit key (countSpent written newSpent) patch,
            .ok ⟨signal, blockIds, batch.errors, batch.spentCount, r.metadata.generation⟩)

def spendMulti (c : Cell) (cfg : StoreConfig) (key : TxKey) (room : Room)
    (req : SpendMultiRequest) : Cell × Except SpendError SpendMultiResponse :=
  match c.prepareSpendMulti key req with
  | .error e => (c, .error e)
  | .ok (r, batch, entries) => c.applyLocked cfg key room r batch entries req

/-! ### Unspends -/

/-- The slot that an unspend, a freeze, an unfreeze or a reassignment names. -/
def slotFor (r : Record) (offset : Nat) (utxoHash : Hash) : Except SpendError UtxoSlot :=
  match r.slots[offset]? with
  | none => .error (.utxoNotFound offset)
  | some slot => if slot.hash ≠ utxoHash then .error (.utxoHashMismatch offset) else .ok slot

def ownsSpend (slot : UtxoSlot) (spendingData : SpendingData) : Bool :=
  slot.status = .spent && slot.spendingData ≠ frozenMarker && slot.spendingData = spendingData

def validateUnspend (c : Cell) (req : UnspendRequest) : Except SpendError (Record × UtxoSlot) :=
  match c.record with
  | none => .error .txNotFound
  | some r =>
    match slotFor r req.offset req.utxoHash with
    | .error e => .error e
    | .ok slot =>
      match slot.status with
      | .pruned => .error (.pruned req.offset slot.spendingData)
      | .unknown byte => .error (.storageError ("unknown status: " ++ hexByte byte))
      | _ => .ok (r, slot)

/-- An unspend by the owner of the spend: the slot is cleared before the evaluation. -/
def clearSpend (c : Cell) (key : TxKey) (r : Record) (req : UnspendRequest) :
    Cell × Except SpendError SignalResponse :=
  if r.metadata.spentUtxos = 0 then
    (c, .error (.storageError ("metadata spent_utxos is zero while slot " ++
      toString req.offset ++ " is spent")))
  else
    let written := r.writeSlot req.offset (.newUnspent req.utxoHash)
    let c := { c with
      record := some written
      mined := setAllSpentAt c.mined r.minedSlot false }
    let r := countSpent written (r.metadata.spentUtxos - 1)
    match c.evaluate key r req.currentBlockHeight req.blockHeightRetention with
    | .error e => (c, .error e)
    | .ok (_, signal, patch) => (c.commit key r patch, .ok ⟨signal, r.metadata.generation⟩)

/-- An unspend by anybody else only evaluates the record, and writes it when its height moved. -/
def keepSpend (c : Cell) (key : TxKey) (r : Record) (req : UnspendRequest) :
    Cell × Except SpendError SignalResponse :=
  match c.evaluate key r req.currentBlockHeight req.blockHeightRetention with
  | .error e => (c, .error e)
  | .ok (_, signal, patch) =>
    (if patchedDah r.metadata.deleteAtHeight patch ≠ r.metadata.deleteAtHeight then
        c.commit key r patch
      else c,
      .ok ⟨signal, r.metadata.generation⟩)

def unspend (c : Cell) (key : TxKey) (req : UnspendRequest) :
    Cell × Except SpendError SignalResponse :=
  match c.validateUnspend req with
  | .error e => (c, .error e)
  | .ok (r, slot) =>
    if ownsSpend slot req.spendingData then c.clearSpend key r req else c.keepSpend key r req

/-! ### Mined state -/

def SetMinedSharedParams.transition (req : SetMinedSharedParams) : MinedTransition :=
  if req.unsetMined then .unset req.blockId req.currentBlockHeight
  else .set req.blockId req.blockHeight req.subtreeIdx req.onLongestChain

/-- The transition on the record's slot; a record without one reads as never mined. -/
def applyTransitionAt (mined : MinedShard) (key : TxKey) (minedSlot : Option Nat)
    (t : MinedTransition) : MinedShard × Except SpendError MinedTransitionState :=
  match minedSlot with
  | none => (mined, .ok ⟨[], 0, 0, false⟩)
  | some slot =>
    match mined.applyMinedTransition key slot t with
    | (mined, .applied state) => (mined, .ok state)
    | (mined, .blockEntriesFull) => (mined, .error (.blockEntriesFull maxBlockEntries))
    | (mined, .slotAbsent) => (mined, .error minedSlotAbsent)

/-- Record or remove a block. Only the mined index and the delete-at-height index change: the
evaluation takes the height of the index for the old one and leaves the footer as it is. -/
def setMinedInner (c : Cell) (key : TxKey) (req : SetMinedSharedParams) :
    Cell × Except SpendError SpendResponse :=
  match c.record with
  | none => (c, .error .txNotFound)
  | some r =>
    match applyTransitionAt c.mined key r.minedSlot (SetMinedSharedParams.transition req) with
    | (mined, .error e) => ({ c with mined }, .error e)
    | (mined, .ok state) =>
      let oldDah := c.dahHeight.getD 0
      match evaluateDahFromRam (txFlagsFromDeFlags state.deFlags) state.allSpent
        (!state.blockEntries.isEmpty) state.unminedSince (state.deFlags &&& minedPreserved ≠ 0)
        oldDah req.currentBlockHeight req.blockHeightRetention with
      | .error e => ({ c with mined }, .error e)
      | .ok (signal, patch) =>
        ({ c with mined := setCacheLsa mined key r.minedSlot patch }.updateDahIndex oldDah
            (patchedDah oldDah patch),
          .ok ⟨signal, state.blockEntries.map (·.blockId)⟩)

def setLongestChainAt (mined : MinedShard) (key : TxKey) (minedSlot : Option Nat)
    (onLongestChain : Bool) (currentHeight : Nat) : MinedShard :=
  match minedSlot with
  | none => mined
  | some slot => mined.setLongestChain key slot onLongestChain currentHeight

def withUnminedSince (r : Record) (unminedSince : Nat) : Record :=
  { r with metadata := { r.metadata with unminedSince }.bump }

def markOnLongestChain (c : Cell) (key : TxKey) (req : MarkOnLongestChainRequest) :
    Cell × Except SpendError SignalResponse :=
  match c.record with
  | none => (c, .error .txNotFound)
  | some r =>
    let unminedSince := if req.onLongestChain then 0 else req.currentBlockHeight
    let r := withUnminedSince r unminedSince
    match minedBlockEntriesAt c.mined key r.minedSlot with
    | .error e => (c, .error e)
    | .ok (entries, _) =>
      match evaluateDeleteAtHeight (c.sourceLsa key r) (!entries.isEmpty) unminedSince
        req.currentBlockHeight req.blockHeightRetention with
      | .error e => (c, .error e)
      | .ok (signal, patch) =>
        let c := c.commit key r patch
        ({ c with
            mined := setLongestChainAt c.mined key r.minedSlot req.onLongestChain
              req.currentBlockHeight },
          .ok ⟨signal, r.metadata.generation⟩)

/-! ### Conflicts, locks and preservation -/

def withConflicting (r : Record) (value : Bool) : Record :=
  { r with metadata :=
    { r.metadata with flags := { r.metadata.flags with conflicting := value } }.bump }

/-- With direct access a preserved record counts as having no height, and its footer is written
that way. -/
def setConflictingDirect (c : Cell) (key : TxKey) (r : Record) (entries : List BlockEntry)
    (unminedSince : Nat) (req : SetConflictingRequest) :
    Cell × Except SpendError SignalResponse :=
  let m := r.metadata
  let hasPreserve : Bool := m.preserveUntil ≠ 0
  let oldDah := if hasPreserve then 0 else m.deleteAtHeight
  let r := c.sourceLsa key (withConflicting r req.value)
  match evaluateDahCached r.metadata.flags m.spentUtxos r.utxoCount
    (if entries.isEmpty then 0 else 1) unminedSince hasPreserve
    (if hasPreserve then m.preserveUntil else m.deleteAtHeight) req.currentBlockHeight
    req.blockHeightRetention with
  | .error e => (c, .error e)
  | .ok (signal, patch) =>
    let newDah := patchedDah oldDah patch
    let r := r.settled newDah ((patch.map (·.lastSpentAll)).getD r.metadata.flags.lastSpentAll)
    ({ c with
        record := some r
        mined := mirrorDeFlags (setCacheLsa c.mined key r.minedSlot patch) key r
      }.updateDahIndex oldDah newDah,
      .ok ⟨signal, r.metadata.generation⟩)

def setConflictingSlow (c : Cell) (key : TxKey) (r : Record) (entries : List BlockEntry)
    (unminedSince : Nat) (req : SetConflictingRequest) :
    Cell × Except SpendError SignalResponse :=
  let r := withConflicting r req.value
  match evaluateDeleteAtHeight (c.sourceLsa key r) (!entries.isEmpty) unminedSince
    req.currentBlockHeight req.blockHeightRetention with
  | .error e => (c, .error e)
  | .ok (signal, patch) => (c.commit key r patch, .ok ⟨signal, r.metadata.generation⟩)

def setConflicting (c : Cell) (cfg : StoreConfig) (key : TxKey) (req : SetConflictingRequest) :
    Cell × Except SpendError SignalResponse :=
  match c.record with
  | none => (c, .error .txNotFound)
  | some r =>
    match minedBlockEntriesAt c.mined key r.minedSlot with
    | .error e => (c, .error e)
    | .ok (entries, unminedSince) =>
      if cfg.directAccess then c.setConflictingDirect key r entries unminedSince req
      else c.setConflictingSlow key r entries unminedSince req

def withLocked (r : Record) (value : Bool) : Record :=
  { r with metadata :=
    { r.metadata with
      deleteAtHeight := if value then 0 else r.metadata.deleteAtHeight
      flags := { r.metadata.flags with locked := value } }.bump }

/-- Locking evicts the record from the sweep: the index moves from the height it holds. -/
def setLocked (c : Cell) (value : Bool) : Cell × Except SpendError SetLockedResponse :=
  match c.record with
  | none => (c, .error .txNotFound)
  | some r =>
    let authoritativeDah := c.dahHeight.getD 0
    let r' := withLocked r value
    ({ c with record := some r' }.updateDahIndex authoritativeDah
        (if value then 0 else authoritativeDah),
      .ok ⟨r'.metadata.generation, r.metadata.flags.locked, authoritativeDah⟩)

def withPreserveUntil (r : Record) (deleteAtHeight preserveUntil : Nat) : Record :=
  { r with metadata := { r.metadata with deleteAtHeight, preserveUntil }.bump }

def preserveUntil (c : Cell) (key : TxKey) (blockHeight : Nat) :
    Cell × Except SpendError SignalResponse :=
  match c.record with
  | none => (c, .error .txNotFound)
  | some r =>
    let oldDah := r.metadata.deleteAtHeight
    let r' := withPreserveUntil r 0 blockHeight
    let c := { c with record := some r', mined := mirrorDeFlags c.mined key r' }
    let c := if oldDah ≠ 0 then c.updateDahIndex oldDah 0 else c
    (c.updatePreserveIndex r.metadata.preserveUntil blockHeight,
      .ok ⟨externalSignal r'.metadata.flags .preserve, r'.metadata.generation⟩)

def commitPreservationExpiry (c : Cell) (key : TxKey) (r : Record) (newDah : Nat) : Cell × Nat :=
  let r' := withPreserveUntil r newDah 0
  let c := { c with record := some r', mined := mirrorDeFlags c.mined key r' }
  ((c.updatePreserveIndex r.metadata.preserveUntil 0).updateDahIndex r.metadata.deleteAtHeight
    newDah, r'.metadata.generation)

def expirePreservationSetDah (c : Cell) (key : TxKey)
    (currentBlockHeight blockHeightRetention : Nat) :
    Cell × Except SpendError (Option PreservationExpiry) :=
  if blockHeightRetention = 0 then (c, .ok none)
  else
    match c.record with
    | none => (c, .ok none)
    | some r =>
      let preserve := r.metadata.preserveUntil
      if preserve = 0 ∨ currentBlockHeight < preserve then (c, .ok none)
      else
        match minedBlockEntriesAt c.mined key r.minedSlot with
        | .error e => (c, .error e)
        | .ok (entries, unminedSince) =>
          let newDah :=
            if sweepEligibleWithMined r (!entries.isEmpty) unminedSince then
              checkedNewDah currentBlockHeight blockHeightRetention
            else .ok 0
          match newDah with
          | .error e => (c, .error e)
          | .ok newDah =>
            let (c, generation) := c.commitPreservationExpiry key r newDah
            (c, .ok (some ⟨newDah, generation, preserve⟩))

/-! ### Pruning -/

/-- Remember a pruned child, as far as the list of at most 255 children and the device have room;
a failure is only logged. -/
def appendDeletedChild (c : Cell) (room : Room) (child : Hash) : Cell :=
  match c.record, room with
  | some r, .ok () =>
    if child ∈ r.deletedChildren ∨ 255 < r.deletedChildren.length + 1 then c
    else
      let r := { r with
        deletedChildren := r.deletedChildren ++ [child]
        metadata := r.metadata.bump }
      { c with record := some r }
  | _, _ => c

def countPruned (r : Record) : Record :=
  { r with metadata :=
    { r.metadata with
      spentUtxos := r.metadata.spentUtxos - 1
      prunedUtxos := r.metadata.prunedUtxos + 1 }.bump }

/-- The slot of a pruned child. The evaluation may only lower the record's height. -/
def pruneSpent (c : Cell) (key : TxKey) (room : Room) (r : Record) (offset : Nat)
    (slot : UtxoSlot) (child : Hash) : Cell × Except SpendError Bool :=
  let r := r.writeSlot offset { slot with status := .pruned }
  let c := { c with record := some r }
  if r.metadata.spentUtxos = 0 then
    (c, .error (.storageError "prune_slot_if_spent_by_child: spent_utxos underflow"))
  else if 2 ^ 32 ≤ r.metadata.prunedUtxos + 1 then
    (c, .error (.storageError "prune_slot_if_spent_by_child: pruned_utxos overflow"))
  else
    let r := countPruned r
    let c := { c with mined := setAllSpentAt c.mined r.minedSlot false }
    match c.evaluate key r 0 1 with
    | .error e => (c, .error e)
    | .ok (_, _, patch) =>
      let patch := patch.filter (·.newDeleteAtHeight < r.metadata.deleteAtHeight)
      ((c.commit key r patch).appendDeletedChild room child, .ok true)

def pruneSlotIfSpentByChild (c : Cell) (key : TxKey) (room : Room) (offset : Nat)
    (child : Hash) : Cell × Except SpendError Bool :=
  match c.record with
  | none => (c, .ok false)
  | some r =>
    match r.slots[offset]? with
    | none => (c, .ok false)
    | some slot =>
      if slot.status ≠ .spent ∨ childTxid slot.spendingData ≠ child then (c, .ok false)
      else c.pruneSpent key room r offset slot child

/-- Flip a slot to pruned and leave the counters alone. -/
def pruneSlot (c : Cell) (offset : Nat) : Cell × Except SpendError Bool :=
  match c.record with
  | none => (c, .ok false)
  | some r =>
    match r.slots[offset]? with
    | none => (c, .ok false)
    | some slot =>
      if slot.status = .pruned then (c, .ok false)
      else ({ c with record := some (r.writeSlot offset { slot with status := .pruned }) },
        .ok true)

/-! ### Freezing and reassignment -/

def writeSlotBump (c : Cell) (r : Record) (offset : Nat) (slot : UtxoSlot) :
    Cell × Except SpendError Nat :=
  let r := r.writeSlot offset slot
  let r := { r with metadata := r.metadata.bump }
  ({ c with record := some r }, .ok r.metadata.generation)

def freeze (c : Cell) (offset : Nat) (utxoHash : Hash) : Cell × Except SpendError Nat :=
  match c.record with
  | none => (c, .error .txNotFound)
  | some r =>
    match slotFor r offset utxoHash with
    | .error e => (c, .error e)
    | .ok slot =>
      match slot.status with
      | .frozen => (c, .error (.alreadyFrozen offset))
      | .spent => (c, .error (.alreadySpent offset slot.spendingData))
      | .unspent =>
        let cooldown := slot.reassignmentCooldown
        c.writeSlotBump r offset
          (if cooldown = 0 then .newFrozen utxoHash else .newFrozenWithCooldown utxoHash cooldown)
      | status => (c, .error (.storageError ("unexpected status " ++ hexByte status.byte)))

def unfreeze (c : Cell) (offset : Nat) (utxoHash : Hash) : Cell × Except SpendError Nat :=
  match c.record with
  | none => (c, .error .txNotFound)
  | some r =>
    match slotFor r offset utxoHash with
    | .error e => (c, .error e)
    | .ok slot =>
      if slot.status ≠ .frozen then (c, .error (.notFrozen offset))
      else
        let cooldown := slot.reassignmentCooldown
        c.writeSlotBump r offset
          (if cooldown = 0 ∨ cooldown = 2 ^ 32 - 1 then .newUnspent utxoHash
            else .newUnspentWithCooldown utxoHash cooldown)

def validateReassign (c : Cell) (key : TxKey) (req : ReassignRequest) :
    Except SpendError (Record × Nat) :=
  match c.record with
  | none => .error .txNotFound
  | some r =>
    if r.utxoCount ≤ req.offset then .error (.utxoNotFound req.offset)
    else
      match c.checkRecord key r false false req.blockHeight with
      | .error e => .error e
      | .ok () =>
        match slotFor r req.offset req.utxoHash with
        | .error e => .error e
        | .ok slot =>
          if slot.status ≠ .frozen then .error (.notFrozen req.offset)
          else if 2 ^ 32 ≤ req.blockHeight + req.spendableAfter then
            .error (.reassignOverflow req.blockHeight req.spendableAfter)
          else .ok (r, req.blockHeight + req.spendableAfter)

def withReassigned (r : Record) : Record :=
  { r with metadata :=
    { r.metadata with flags := { r.metadata.flags with reassigned := true } }.bump }

def reassign (c : Cell) (key : TxKey) (req : ReassignRequest) : Cell × Except SpendError Nat :=
  match c.validateReassign key req with
  | .error e => (c, .error e)
  | .ok (r, spendableHeight) =>
    let r := withReassigned
      (r.writeSlot req.offset (.newUnspentWithCooldown req.newUtxoHash spendableHeight))
    ({ c with record := some r, mined := mirrorDeFlags c.mined key r },
      .ok r.metadata.generation)

end Cell

end TeraSlab.Ops
