import TeraSlab.Ops.Operations
import TeraSlab.Foundations.Run

/-!
# The engine

The engine keeps a cell for every transaction; the mined index is shared by all of them. A call
names a transaction and an operation on it, and replaces the transaction's cell by the one the
operation leaves behind.
-/

namespace TeraSlab.Ops

open Foundations Index

inductive EngineOp where
  | create (room : Room) (req : CreateRequest)
  | spend (room : Room) (req : SpendRequest)
  | spendMulti (room : Room) (req : SpendMultiRequest)
  | unspend (req : UnspendRequest)
  | setMined (req : SetMinedSharedParams)
  | markOnLongestChain (req : MarkOnLongestChainRequest)
  | setConflicting (req : SetConflictingRequest)
  | setLocked (value : Bool)
  | preserveUntil (blockHeight : Nat)
  | expirePreservationSetDah (currentBlockHeight blockHeightRetention : Nat)
  | pruneSlotIfSpentByChild (room : Room) (offset : Nat) (child : Hash)
  | pruneSlot (offset : Nat)
  | freeze (offset : Nat) (utxoHash : Hash)
  | unfreeze (offset : Nat) (utxoHash : Hash)
  | reassign (req : ReassignRequest)

inductive Outcome where
  | create (result : Except CreateError CreateResponse)
  | blocks (result : Except SpendError SpendResponse)
  | batch (result : Except SpendError SpendMultiResponse)
  | signal (result : Except SpendError SignalResponse)
  | locked (result : Except SpendError SetLockedResponse)
  | expiry (result : Except SpendError (Option PreservationExpiry))
  | pruned (result : Except SpendError Bool)
  | generation (result : Except SpendError Nat)

def Outcome.isOk : Outcome → Bool
  | .create result => result.isOk
  | .blocks result => result.isOk
  | .batch result => result.isOk
  | .signal result => result.isOk
  | .locked result => result.isOk
  | .expiry result => result.isOk
  | .pruned result => result.isOk
  | .generation result => result.isOk

def Cell.perform (c : Cell) (cfg : StoreConfig) (key : TxKey) : EngineOp → Cell × Outcome
  | .create room req => (c.create key room req).map id .create
  | .spend room req => (c.spend cfg key room req).map id .blocks
  | .spendMulti room req => (c.spendMulti cfg key room req).map id .batch
  | .unspend req => (c.unspend key req).map id .signal
  | .setMined req => (c.setMinedInner key req).map id .blocks
  | .markOnLongestChain req => (c.markOnLongestChain key req).map id .signal
  | .setConflicting req => (c.setConflicting cfg key req).map id .signal
  | .setLocked value => (c.setLocked value).map id .locked
  | .preserveUntil blockHeight => (c.preserveUntil key blockHeight).map id .signal
  | .expirePreservationSetDah cur ret => (c.expirePreservationSetDah key cur ret).map id .expiry
  | .pruneSlotIfSpentByChild room offset child =>
    (c.pruneSlotIfSpentByChild key room offset child).map id .pruned
  | .pruneSlot offset => (c.pruneSlot offset).map id .pruned
  | .freeze offset utxoHash => (c.freeze offset utxoHash).map id .generation
  | .unfreeze offset utxoHash => (c.unfreeze offset utxoHash).map id .generation
  | .reassign req => (c.reassign key req).map id .generation

def Cell.next (c : Cell) (cfg : StoreConfig) (key : TxKey) (op : EngineOp) : Cell :=
  (c.perform cfg key op).1

def Cell.Succeeds (c : Cell) (cfg : StoreConfig) (key : TxKey) (op : EngineOp) : Prop :=
  (c.perform cfg key op).2.isOk

structure Engine where
  records : TxKey → Option Record
  mined : MinedShard
  dahIndex : TxKey → Option Nat
  preserveIndex : TxKey → Option Nat

structure Call where
  key : TxKey
  op : EngineOp

namespace Engine

def empty : Engine := ⟨fun _ => none, .empty, fun _ => none, fun _ => none⟩

def cell (s : Engine) (key : TxKey) : Cell :=
  ⟨s.records key, s.mined, s.dahIndex key, s.preserveIndex key⟩

def put (s : Engine) (key : TxKey) (c : Cell) : Engine where
  records := Function.update s.records key c.record
  mined := c.mined
  dahIndex := Function.update s.dahIndex key c.dahHeight
  preserveIndex := Function.update s.preserveIndex key c.preserveHeight

/-- The configuration of the store is that of the device the record lives on. -/
def step (cfg : TxKey → StoreConfig) (s : Engine) (call : Call) : Engine :=
  s.put call.key ((s.cell call.key).next (cfg call.key) call.key call.op)

@[simp] theorem cell_put (s : Engine) (key : TxKey) (c : Cell) : (s.put key c).cell key = c := by
  simp [cell, put]

theorem cell_step (cfg : TxKey → StoreConfig) (s : Engine) (call : Call) :
    (step cfg s call).cell call.key =
      (s.cell call.key).next (cfg call.key) call.key call.op :=
  cell_put ..

def Succeeds (s : Engine) (cfg : TxKey → StoreConfig) (call : Call) : Prop :=
  (s.cell call.key).Succeeds (cfg call.key) call.key call.op

instance (s : Engine) (cfg : TxKey → StoreConfig) (call : Call) : Decidable (s.Succeeds cfg call) :=
  inferInstanceAs (Decidable (_ = true))

end Engine

def reached (cfg : TxKey → StoreConfig) (calls : List Call) : Engine :=
  run (Engine.step cfg) .empty calls

/-! ### Calls on a record with one output

The runs that show a hypothesis to be satisfiable, or a behaviour to occur, are on this record. -/

def demoKey : TxKey := ⟨.replicate 32 7⟩

def demoHash : Hash := .replicate 32 1

def demoCreate : EngineOp :=
  .create (.ok ()) { utxoHashes := [demoHash], utxoHashes_lt := by simp, blockHeight := 5 }

/-- Spend the output by the transaction whose bytes all have this value. -/
def demoSpend (byte : UInt8) (currentBlockHeight : Nat) : EngineOp :=
  .spend (.ok ())
    { offset := 0
      utxoHash := demoHash
      spendingData := .replicate 36 byte
      currentBlockHeight
      blockHeightRetention := 100 }

def demoUnspend (byte : UInt8) (currentBlockHeight : Nat) : EngineOp :=
  .unspend
    { offset := 0
      utxoHash := demoHash
      spendingData := .replicate 36 byte
      currentBlockHeight
      blockHeightRetention := 100 }

def demoMined (currentBlockHeight : Nat) : EngineOp :=
  .setMined
    { blockId := 3
      currentBlockHeight
      blockHeightRetention := 100
      onLongestChain := true }

def demoCalls (ops : List EngineOp) : List Call := ops.map (⟨demoKey, ·⟩)

/-- Records are updated in place, and the device gives direct access. -/
def demoConfig : TxKey → StoreConfig := fun _ => ⟨false, true⟩

def demoRun (ops : List EngineOp) : Cell :=
  (run (Engine.step demoConfig) .empty (demoCalls ops)).cell demoKey

end TeraSlab.Ops
