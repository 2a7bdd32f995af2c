import TeraSlab.Ops.Sweep
import TeraSlab.Recovery.TombstoneLog

/-!
# Create images on a replica

A master ships a record as a create image: the output hashes and a string of metadata bytes, whose
first 46 bytes are the creation's own fields, followed by the lifecycle fields (from the generation
on), the blocks, the parents and the reference to external data. A replica creates the record from
the image. When it has the record already, an image with the same payload goes on to the lifecycle
fields; a migration's image with another payload goes on as well unless its generation is lower,
and any other image replaces the record.

An image behind the record is dropped by a guard that reads the record before the image is applied.
No lock is held in between, and the lifecycle fields are then written without regard to the
generation that the record has by that time. When the record came after the guard looked, an older
image leaves it alone only if its payload differs and its generation is lower as a plain number, or
if it is too short to carry lifecycle fields.

The blob store is left out.
-/

namespace TeraSlab.Replication

open Foundations Index Ops Recovery

/-- The fields of the footer that are set at creation and that no operation reads. -/
structure CoreMetadata where
  txVersion : Nat
  locktime : Nat
  fee : Nat
  sizeInBytes : Nat
  extendedSize : Nat
  createdAt : Nat
  updatedAt : Nat
deriving DecidableEq

/-- The record of a transaction on a replica, with the rest of its footer. -/
structure ReplicaCell where
  cell : Cell
  core : CoreMetadata

/-- What a create operation of the replication stream carries. -/
structure CreateImage where
  metadataBytes : List UInt8
  utxoHashes : List Hash
  utxoHashes_lt : utxoHashes.length < 2 ^ 32
  isExternal : Bool

def createFlagLocked : UInt8 := 0x01

def createFlagConflicting : UInt8 := 0x02

def createFlagFrozen : UInt8 := 0x04

def createFlagReassigned : UInt8 := 0x10

/-- The block entries from a position on, and the position behind them. -/
def blockInfosAt (m : List UInt8) : Nat → Nat → List MinedBlockInfo × Nat
  | 0, pos => ([], pos)
  | count + 1, pos =>
    if m.length < pos + 12 then ([], pos)
    else
      let info := ⟨leAt 4 m pos, leAt 4 m (pos + 4), leAt 4 m (pos + 8)⟩
      let (infos, pos) := blockInfosAt m count (pos + 12)
      (info :: infos, pos)

/-- The position behind the parents that are listed from a position on. -/
def parentsEnd (m : List UInt8) : Nat → Nat → Nat
  | 0, pos => pos
  | count + 1, pos => if m.length < pos + 32 then pos else parentsEnd m count (pos + 32)

namespace CreateImage

variable (image : CreateImage)

def flag (mask : UInt8) : Bool :=
  46 ≤ image.metadataBytes.length && byteAt image.metadataBytes 45 &&& mask ≠ 0

def blocks : List MinedBlockInfo × Nat :=
  if 75 ≤ image.metadataBytes.length then
    blockInfosAt image.metadataBytes (byteAt image.metadataBytes 74).toNat 75
  else ([], 75)

def hasExternalRef : Bool :=
  let m := image.metadataBytes
  let pos := image.blocks.2
  let pos := if pos + 2 ≤ m.length then parentsEnd m (leAt 2 m pos) (pos + 2) else pos
  75 ≤ m.length && image.isExternal && pos + 65 ≤ m.length

def request : CreateRequest where
  utxoHashes := image.utxoHashes
  utxoHashes_lt := image.utxoHashes_lt
  isCoinbase := 46 ≤ image.metadataBytes.length && byteAt image.metadataBytes 32 ≠ 0
  spendingHeight := if 46 ≤ image.metadataBytes.length then leAt 4 image.metadataBytes 33 else 0
  isExternal := image.isExternal
  hasExternalRef := image.hasExternalRef
  blockHeight := if 75 ≤ image.metadataBytes.length then leAt 4 image.metadataBytes 70 else 0
  minedBlockInfos := image.blocks.1
  frozen := image.flag createFlagFrozen
  conflicting := image.flag createFlagConflicting
  locked := image.flag createFlagLocked

/-- The other fields of the request. A short image gets defaults and the present time. -/
def core (now : Nat) : CoreMetadata :=
  let m := image.metadataBytes
  if 46 ≤ m.length then
    { txVersion := leAt 4 m 0, locktime := leAt 4 m 4, fee := leAt 8 m 8
      sizeInBytes := leAt 8 m 16, extendedSize := leAt 8 m 24, createdAt := leAt 8 m 37
      updatedAt := now }
  else
    { txVersion := 1, locktime := 0, fee := 0, sizeInBytes := 0, extendedSize := 0
      createdAt := now, updatedAt := now }

end CreateImage

def incomingCreateGeneration (m : List UInt8) : Option Nat :=
  if 50 ≤ m.length then some (leAt 4 m 46) else none

inductive ReplicaCreateError where
  | replaceDelete (e : DeleteError)
  | replaceCreate (e : CreateError)
  | create (e : CreateError)
  | restoreReassigned (e : SpendError)
  | restoreLifecycle (e : SpendError)
deriving DecidableEq

/-- The generation guard, on the record that it reads. -/
def staleOp (image : CreateImage) (seen : Option Record) : Bool :=
  match incomingCreateGeneration image.metadataBytes, seen with
  | some masterGen, some r =>
    r.metadata.generation ≠ masterGen && generationAtOrAhead r.metadata.generation masterGen
  | _, _ => false

/-- A migration does not bring a deleted record back. -/
def tombstoneBlocks (tombstones : TombstoneLog) (key : TxKey) (image : CreateImage)
    (isMigration present : Bool) : Bool :=
  isMigration && !present && tombstones.blocksHealApply key
    (.ofNat ((incomingCreateGeneration image.metadataBytes).getD 0))

/-- The record was made from the same request, as far as the image tells. -/
def existingCreatePayloadMatches (s : ReplicaCell) (r : Record) (image : CreateImage)
    (now : Nat) : Bool :=
  let req := image.request
  let core := image.core now
  r.utxoCount = req.utxoHashes.length &&
    (!(46 ≤ image.metadataBytes.length) ||
      s.core.txVersion = core.txVersion && s.core.locktime = core.locktime &&
      s.core.fee = core.fee && s.core.sizeInBytes = core.sizeInBytes &&
      s.core.extendedSize = core.extendedSize &&
      r.metadata.spendingHeight = req.spendingHeight &&
      s.core.createdAt = core.createdAt &&
      r.metadata.flags.isCoinbase = req.isCoinbase &&
      r.metadata.flags.external = req.isExternal &&
      r.metadata.flags.conflicting = req.conflicting &&
      r.metadata.flags.locked = req.locked) &&
    r.slots.map (·.hash) = req.utxoHashes

namespace ReplicaCell

def create (s : ReplicaCell) (key : TxKey) (room : Room) (image : CreateImage) (now : Nat) :
    ReplicaCell × Except CreateError CreateResponse :=
  match s.cell.create key room image.request with
  | (cell, .ok response) => (⟨cell, image.core now⟩, .ok response)
  | (cell, .error e) => ({ s with cell }, .error e)

def setReassignedForHeal (s : ReplicaCell) (key : TxKey) : ReplicaCell × Except SpendError Unit :=
  match s.cell.record with
  | none => (s, .error .txNotFound)
  | some r =>
    if r.metadata.flags.reassigned then (s, .ok ())
    else
      let r := { r with metadata :=
        { r.metadata with flags := { r.metadata.flags with reassigned := true } } }
      ({ s with cell :=
        { s.cell with record := some r, mined := mirrorDeFlags s.cell.mined key r } }, .ok ())

/-- Write the lifecycle fields of an image over those of the record, and bring the caches and
indexes after them. -/
def restoreMigratedLifecycle (s : ReplicaCell) (key : TxKey) (generation updatedAt unminedSince
    deleteAtHeight preserveUntil : Nat) : ReplicaCell × Except SpendError Unit :=
  match s.cell.record with
  | none => (s, .error .txNotFound)
  | some r =>
    let r' := { r with metadata :=
      { r.metadata with generation, unminedSince, deleteAtHeight, preserveUntil } }
    let cell := { s.cell with
      record := some r'
      mined := Cell.setLongestChainAt (mirrorDeFlags s.cell.mined key r') key r'.minedSlot
        (unminedSince = 0) unminedSince }
    let cell := cell.updateDahIndex r.metadata.deleteAtHeight deleteAtHeight
    let cell := cell.updatePreserveIndex r.metadata.preserveUntil preserveUntil
    ({ cell, core := { s.core with updatedAt } }, .ok ())

def applyCreateLifecycle (s : ReplicaCell) (key : TxKey) (image : CreateImage)
    (isMigration : Bool) : ReplicaCell × Except ReplicaCreateError Unit :=
  let m := image.metadataBytes
  if 70 ≤ m.length then
    match s.restoreMigratedLifecycle key (leAt 4 m 46) (leAt 8 m 50) (leAt 4 m 58) (leAt 4 m 62)
      (leAt 4 m 66) with
    | (s, .ok ()) => (s, .ok ())
    | (s, .error e) =>
      if e = .txNotFound ∧ isMigration then (s, .ok ()) else (s, .error (.restoreLifecycle e))
  else (s, .ok ())

/-- What follows once the record is there: the reassigned flag, then the lifecycle fields. -/
def applyRest (s : ReplicaCell) (key : TxKey) (image : CreateImage) (isMigration : Bool) :
    ReplicaCell × Except ReplicaCreateError Unit :=
  if image.flag createFlagReassigned then
    match s.setReassignedForHeal key with
    | (s, .ok ()) => s.applyCreateLifecycle key image isMigration
    | (s, .error e) => (s, .error (.restoreReassigned e))
  else s.applyCreateLifecycle key image isMigration

def replace (s : ReplicaCell) (key : TxKey) (room : Room) (image : CreateImage) (now : Nat) :
    ReplicaCell × Except ReplicaCreateError Unit :=
  match s.cell.deleteInner key true none with
  | (cell, .error (.storageError detail)) =>
    ({ s with cell }, .error (.replaceDelete (.storageError detail)))
  | (cell, .error .notDue) => ({ s with cell }, .error (.replaceDelete .notDue))
  | (cell, _) =>
    match create { s with cell } key room image now with
    | (s, .ok _) => s.applyRest key image false
    | (s, .error e) => (s, .error (.replaceCreate e))

def applyCreateReplica (s : ReplicaCell) (key : TxKey) (tombstones : TombstoneLog) (room : Room)
    (image : CreateImage) (isMigration : Bool) (now : Nat) :
    ReplicaCell × Except ReplicaCreateError Unit :=
  if tombstoneBlocks tombstones key image isMigration s.cell.record.isSome then (s, .ok ())
  else
    match s.create key room image now with
    | (s, .ok _) => s.applyRest key image isMigration
    | (s, .error .duplicateTxId) =>
      match s.cell.record with
      | none =>
        if isMigration then s.applyRest key image isMigration else s.replace key room image now
      | some r =>
        if existingCreatePayloadMatches s r image now then s.applyRest key image isMigration
        else if isMigration then
          match incomingCreateGeneration image.metadataBytes with
          | some incoming =>
            if incoming < r.metadata.generation then (s, .ok ())
            else s.applyRest key image isMigration
          | none => s.applyRest key image isMigration
        else s.replace key room image now
    | (s, .error e) => (s, .error (.create e))

/-- A create of the stream as it arrives. The guards have read the record `seen`, and then whether
it is `present`; the apply meets the record that is there afterwards. -/
def applyOpJournal (s : ReplicaCell) (seen : Option Record) (present : Bool) (key : TxKey)
    (tombstones : TombstoneLog) (room : Room) (image : CreateImage) (isMigration : Bool)
    (now : Nat) : ReplicaCell × Except ReplicaCreateError Unit :=
  if staleOp image seen then (s, .ok ())
  else if tombstoneBlocks tombstones key image isMigration present then (s, .ok ())
  else s.applyCreateReplica key tombstones room image isMigration now

end ReplicaCell

/-! ### A migration's image on a record that is there -/

variable {s : ReplicaCell} {key : TxKey} {r : Record} {image : CreateImage} {h now : Nat}

def CreateImage.restored (image : CreateImage) (r : Record) : Record :=
  let m := image.metadataBytes
  let r := if image.flag createFlagReassigned then
    { r with metadata := { r.metadata with flags := { r.metadata.flags with reassigned := true } } }
    else r
  if 70 ≤ m.length then
    { r with metadata :=
      { r.metadata with
        generation := leAt 4 m 46
        unminedSince := leAt 4 m 58
        deleteAtHeight := leAt 4 m 62
        preserveUntil := leAt 4 m 66 } }
  else r

/-- The fields of the record that a newer generation owns are as they were. -/
structure Untouched (r r' : Record) : Prop where
  generation : r'.metadata.generation = r.metadata.generation
  slots : r'.slots = r.slots
  spentUtxos : r'.metadata.spentUtxos = r.metadata.spentUtxos
  flags : r'.metadata.flags = r.metadata.flags
  deleteAtHeight : r'.metadata.deleteAtHeight = r.metadata.deleteAtHeight
  unminedSince : r'.metadata.unminedSince = r.metadata.unminedSince
  preserveUntil : r'.metadata.preserveUntil = r.metadata.preserveUntil

theorem Untouched.refl (r : Record) : Untouched r r := ⟨rfl, rfl, rfl, rfl, rfl, rfl, rfl⟩

namespace ReplicaCell

theorem applyCreateLifecycle_record (hrec : s.cell.record = some r) :
    (s.applyCreateLifecycle key image true).1.cell.record =
      some (if 70 ≤ image.metadataBytes.length then
        { r with metadata :=
          { r.metadata with
            generation := leAt 4 image.metadataBytes 46
            unminedSince := leAt 4 image.metadataBytes 58
            deleteAtHeight := leAt 4 image.metadataBytes 62
            preserveUntil := leAt 4 image.metadataBytes 66 } }
        else r) := by
  unfold applyCreateLifecycle
  dsimp only
  split_ifs
  · simp only [restoreMigratedLifecycle, hrec]
    rfl
  · exact hrec

theorem applyRest_record (hrec : s.cell.record = some r) :
    (s.applyRest key image true).1.cell.record = some (image.restored r) := by
  unfold applyRest CreateImage.restored
  by_cases hflag : image.flag createFlagReassigned = true
  · rw [if_pos hflag, if_pos hflag]
    by_cases hold : r.metadata.flags.reassigned = true
    · have hset : s.setReassignedForHeal key = (s, .ok ()) := by
        simp [setReassignedForHeal, hrec, hold]
      have hsame : { r.metadata.flags with reassigned := true } = r.metadata.flags := by
        rw [← hold]
      rw [hset, hsame]
      exact applyCreateLifecycle_record hrec
    · have hset : s.setReassignedForHeal key = ({ s with cell :=
          { s.cell with
            record := some { r with metadata :=
              { r.metadata with flags := { r.metadata.flags with reassigned := true } } }
            mined := mirrorDeFlags s.cell.mined key { r with metadata :=
              { r.metadata with flags := { r.metadata.flags with reassigned := true } } } } },
          .ok ()) := by
        simp [setReassignedForHeal, hrec, hold]
      rw [hset]
      exact applyCreateLifecycle_record rfl
  · rw [if_neg hflag, if_neg hflag]
    exact applyCreateLifecycle_record hrec

/-- What an older image leaves of the record, by the arm it takes. -/
theorem applyCreateReplica_record (hrec : s.cell.record = some r)
    (hin : incomingCreateGeneration image.metadataBytes = some h) (tombstones : TombstoneLog)
    (room : Room) :
    (s.applyCreateReplica key tombstones room image true now).1.cell.record =
      some (if image.utxoHashes = [] ∨
          existingCreatePayloadMatches s r image now = false ∧ h < r.metadata.generation then r
        else image.restored r) := by
  have htomb : tombstoneBlocks tombstones key image true s.cell.record.isSome = false := by
    simp [tombstoneBlocks, hrec]
  unfold applyCreateReplica
  rw [htomb, if_neg Bool.false_ne_true]
  by_cases hnil : image.utxoHashes = []
  · have hcreate : s.create key room image now = (s, .error .invalidUtxoCount) := by
      simp [create, Cell.create, CreateImage.request, hnil]
    rw [hcreate, if_pos (.inl hnil)]
    exact hrec
  · have hcreate : s.create key room image now = (s, .error .duplicateTxId) := by
      simp [create, Cell.create, CreateImage.request, hnil, hrec]
    rw [hcreate]
    simp only [hrec, hin, if_true]
    by_cases hmatch : existingCreatePayloadMatches s r image now = true
    · rw [if_pos hmatch, if_neg (by simp [hnil, hmatch])]
      exact applyRest_record hrec
    rw [if_neg hmatch]
    by_cases hlt : h < r.metadata.generation
    · rw [if_pos hlt, if_pos (.inr ⟨by simpa using hmatch, hlt⟩)]
      exact hrec
    · rw [if_neg hlt, if_neg (by simp [hnil, hlt])]
      exact applyRest_record hrec

/-- The image has no outputs, or another payload and a lower generation, or it is too short for
lifecycle fields and does not mark the record as reassigned. -/
def Spares (s : ReplicaCell) (r : Record) (image : CreateImage) (h now : Nat) : Prop :=
  image.utxoHashes = [] ∨
    (existingCreatePayloadMatches s r image now = false ∧ h < r.metadata.generation) ∨
    (image.metadataBytes.length < 70 ∧
      (image.flag createFlagReassigned → r.metadata.flags.reassigned))

theorem untouched_restored_iff (hin : incomingCreateGeneration image.metadataBytes = some h)
    (hne : h ≠ r.metadata.generation) :
    Untouched r (image.restored r) ↔ image.metadataBytes.length < 70 ∧
      (image.flag createFlagReassigned → r.metadata.flags.reassigned) := by
  have hgen : leAt 4 image.metadataBytes 46 = h := by
    unfold incomingCreateGeneration at hin
    split_ifs at hin
    exact Option.some.inj hin
  unfold CreateImage.restored
  constructor
  · intro hkeep
    by_cases hlong : 70 ≤ image.metadataBytes.length
    · have hsame := hkeep.generation
      rw [if_pos hlong] at hsame
      exact absurd (hgen.symm.trans hsame) hne
    · refine ⟨by omega, fun hflag => ?_⟩
      have hsame := hkeep.flags
      rw [if_neg hlong, if_pos hflag] at hsame
      exact (congrArg TxFlags.reassigned hsame).symm
  · rintro ⟨hshort, hmark⟩
    rw [if_neg (by omega)]
    split_ifs with hflag
    · have hsame : { r.metadata.flags with reassigned := true } = r.metadata.flags := by
        rw [← hmark hflag]
      rw [hsame]
      exact .refl r
    · exact .refl r

/-- The guards drop an operation on what they have read. -/
def Dropped (tombstones : TombstoneLog) (key : TxKey) (image : CreateImage)
    (seen : Option Record) (present : Bool) : Prop :=
  staleOp image seen ∨ tombstoneBlocks tombstones key image true present

theorem incomingCreateGeneration_lt {m : List UInt8} (hin : incomingCreateGeneration m = some h) :
    h < 2 ^ 32 := by
  unfold incomingCreateGeneration at hin
  split_ifs at hin
  exact Option.some.inj hin ▸ leAt_lt 4 _ _

theorem ne_of_generationTargetAhead {g : Nat} (hlt : h < 2 ^ 32)
    (hbehind : generationTargetAhead h g) : h ≠ g := by
  rintro rfl
  simp only [generationTargetAhead, Bool.and_eq_true, decide_eq_true_eq] at hbehind
  omega

/-- The guard that has read the newer record drops the image. -/
theorem staleOp_of_behind (hin : incomingCreateGeneration image.metadataBytes = some h)
    (hr : r.metadata.generation < 2 ^ 32)
    (hbehind : generationTargetAhead h r.metadata.generation) : staleOp image (some r) := by
  have hlt := incomingCreateGeneration_lt hin
  have hne := ne_of_generationTargetAhead hlt hbehind
  simp only [staleOp, hin, generationAtOrAhead, generationTargetAhead, Bool.and_eq_true,
    decide_eq_true_eq, Bool.not_eq_true', Bool.and_eq_false_iff, decide_eq_false_iff_not] at *
  omega

theorem demoHashes_lt : [demoHash].length < 2 ^ 32 := by
  decide

def demoImage (version generation : UInt8) : CreateImage where
  metadataBytes := version :: .replicate 45 0 ++ generation :: .replicate 23 0
  utxoHashes := [demoHash]
  utxoHashes_lt := demoHashes_lt
  isExternal := false

def emptyReplica : ReplicaCell where
  cell := { record := none, mined := .empty, dahHeight := none, preserveHeight := none }
  core := ⟨1, 0, 0, 0, 0, 0, 0⟩

/-- A replica on which one source has put the record at generation 5. -/
def demoReplica : ReplicaCell :=
  (emptyReplica.applyOpJournal none false demoKey {} (.ok ()) (demoImage 1 5) true 6).1

theorem demoReplica_generation :
    demoReplica.cell.record.map (·.metadata.generation) = some 5 := by
  decide

end ReplicaCell

end TeraSlab.Replication
