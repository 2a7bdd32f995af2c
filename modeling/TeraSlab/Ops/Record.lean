import Mathlib.Tactic

/-!
# Transaction records

A record on the device is a metadata footer followed by one slot per output. The spending data of a
slot names the spending transaction once the slot is spent; before that its first four bytes hold
the height from which a reassigned output may be spent.
-/

namespace TeraSlab.Ops

abbrev Hash := Vector UInt8 32

/-- The spending transaction's id and input number. -/
abbrev SpendingData := Vector UInt8 36

inductive UtxoStatus where
  | unspent
  | spent
  | pruned
  | frozen
  | unknown (byte : UInt8)
deriving DecidableEq

def UtxoStatus.byte : UtxoStatus → UInt8
  | .unspent => 0x00
  | .spent => 0x01
  | .pruned => 0x02
  | .frozen => 0xFF
  | .unknown byte => byte

def hexByte (b : UInt8) : String :=
  "0x" ++ String.ofList [Nat.digitChar (b.toNat / 16), Nat.digitChar (b.toNat % 16)]

structure UtxoSlot where
  hash : Hash
  status : UtxoStatus
  spendingData : SpendingData
deriving DecidableEq

def frozenMarker : SpendingData := Vector.replicate 36 0xFF

def childTxid (d : SpendingData) : Hash := Vector.ofFn fun i => d[i.val]

/-- Overwrite the first four bytes by a height, little-endian. -/
def withHeight (d : SpendingData) (height : Nat) : SpendingData :=
  (((d.set 0 (.ofNat height)).set 1 (.ofNat (height / 2 ^ 8))).set 2
    (.ofNat (height / 2 ^ 16))).set 3 (.ofNat (height / 2 ^ 24))

namespace UtxoSlot

def newUnspent (hash : Hash) : UtxoSlot := ⟨hash, .unspent, Vector.replicate 36 0⟩

def newFrozen (hash : Hash) : UtxoSlot := ⟨hash, .frozen, frozenMarker⟩

def newFrozenWithCooldown (hash : Hash) (cooldown : Nat) : UtxoSlot :=
  ⟨hash, .frozen, withHeight frozenMarker cooldown⟩

def newUnspentWithCooldown (hash : Hash) (cooldown : Nat) : UtxoSlot :=
  ⟨hash, .unspent, withHeight (Vector.replicate 36 0) cooldown⟩

/-- The height in the first four bytes of the spending data, little-endian. -/
def reassignmentCooldown (s : UtxoSlot) : Nat :=
  s.spendingData[0].toNat + 2 ^ 8 * s.spendingData[1].toNat +
    2 ^ 16 * s.spendingData[2].toNat + 2 ^ 24 * s.spendingData[3].toNat

def newSpent (hash : Hash) (spendingData : SpendingData) : UtxoSlot := ⟨hash, .spent, spendingData⟩

section

variable (hash : Hash) (d : SpendingData) (cooldown : Nat)

@[simp] theorem newUnspent_status : (newUnspent hash).status = .unspent := rfl

@[simp] theorem newFrozen_status : (newFrozen hash).status = .frozen := rfl

@[simp] theorem newFrozenWithCooldown_status :
    (newFrozenWithCooldown hash cooldown).status = .frozen := rfl

@[simp] theorem newUnspentWithCooldown_status :
    (newUnspentWithCooldown hash cooldown).status = .unspent := rfl

@[simp] theorem newSpent_status : (newSpent hash d).status = .spent := rfl

@[simp] theorem newSpent_spendingData : (newSpent hash d).spendingData = d := rfl

theorem reassignmentCooldown_lt (s : UtxoSlot) : s.reassignmentCooldown < 2 ^ 32 := by
  have h0 := s.spendingData[0].toNat_lt
  have h1 := s.spendingData[1].toNat_lt
  have h2 := s.spendingData[2].toNat_lt
  have h3 := s.spendingData[3].toNat_lt
  unfold reassignmentCooldown
  omega

theorem reassignmentCooldown_withHeight (status : UtxoStatus) (d : SpendingData) {height : Nat}
    (h : height < 2 ^ 32) :
    (UtxoSlot.mk hash status (withHeight d height)).reassignmentCooldown = height := by
  simp only [reassignmentCooldown, withHeight, Vector.getElem_set]
  norm_num
  omega

end

end UtxoSlot

structure TxFlags where
  isCoinbase : Bool := false
  conflicting : Bool := false
  locked : Bool := false
  external : Bool := false
  lastSpentAll : Bool := false
  reassigned : Bool := false
deriving DecidableEq

/-- The footer fields that the operations read; the number of outputs is that of the slots. -/
structure TxMetadata where
  spentUtxos : Nat := 0
  prunedUtxos : Nat := 0
  generation : Nat := 0
  spendingHeight : Nat := 0
  unminedSince : Nat := 0
  deleteAtHeight : Nat := 0
  preserveUntil : Nat := 0
  flags : TxFlags := {}
deriving DecidableEq

/-- Every change of a record moves its generation by one, modulo `2 ^ 32`. -/
def TxMetadata.bump (m : TxMetadata) : TxMetadata :=
  { m with generation := (m.generation + 1) % 2 ^ 32 }

structure Record where
  metadata : TxMetadata
  slots : List UtxoSlot
  slots_lt : slots.length < 2 ^ 32
  minedSlot : Option Nat
  deletedChildren : List Hash

namespace Record

def utxoCount (r : Record) : Nat := r.slots.length

def writeSlot (r : Record) (offset : Nat) (slot : UtxoSlot) : Record :=
  { r with slots := r.slots.set offset slot, slots_lt := by simpa using r.slots_lt }

def writeSlots (r : Record) (slots : List (Nat × UtxoSlot)) : Record :=
  slots.foldl (fun r w => r.writeSlot w.1 w.2) r

def countStatus (r : Record) (status : UtxoStatus) : Nat := r.slots.countP (·.status = status)

/-- Every slot is spent, by the record's own counter. -/
def allSpent (r : Record) : Bool := r.metadata.spentUtxos = r.utxoCount

variable (r : Record) (offset : Nat) (slot : UtxoSlot)

@[simp] theorem writeSlot_slots : (r.writeSlot offset slot).slots = r.slots.set offset slot := rfl

@[simp] theorem writeSlot_metadata : (r.writeSlot offset slot).metadata = r.metadata := rfl

@[simp] theorem writeSlot_minedSlot : (r.writeSlot offset slot).minedSlot = r.minedSlot := rfl

@[simp] theorem utxoCount_writeSlot : (r.writeSlot offset slot).utxoCount = r.utxoCount := by
  simp [utxoCount]

end Record

/-- What a mutation asks its caller to do about the external data of the record. -/
inductive Signal where
  | none
  | allSpent
  | notAllSpent
  | deleteAtHeightSet
  | deleteAtHeightUnset
  | preserve
deriving DecidableEq

inductive SpendError where
  | txNotFound
  | conflicting
  | locked
  | coinbaseImmature (spendingHeight currentHeight : Nat)
  | utxoNotFound (offset : Nat)
  | utxoHashMismatch (offset : Nat)
  | alreadySpent (offset : Nat) (spendingData : SpendingData)
  | frozen (offset : Nat)
  | frozenUntil (offset spendableAtHeight : Nat)
  | pruned (offset : Nat) (spendingData : SpendingData)
  | alreadyFrozen (offset : Nat)
  | notFrozen (offset : Nat)
  | storageError (detail : String)
  | dahOverflow (currentHeight retention : Nat)
  | reassignOverflow (blockHeight spendableAfter : Nat)
  | deletedChildren (offset childCount : Nat)
  | reservedSpendingData (offset : Nat)
  | blockEntriesFull (cap : Nat)
deriving DecidableEq

inductive CreateError where
  | deviceFull
  | duplicateTxId
  | invalidUtxoCount
  | missingExternalRef
deriving DecidableEq

end TeraSlab.Ops
