import Mathlib.Tactic
import TeraSlab.Foundations.SortedMap

/-!
# The mined index

One shard of the in-memory store of mined state. A transaction owns a slot; the slot's entry holds
its first block inline, and every further block lives in the shard's overflow map. A slot whose
transaction is unmined is also listed, with its key, in the bucket of the height it became unmined
at. Block id 0 marks an empty inline tuple.

Hash maps are modelled by sorted maps: no operation depends on their iteration order. The free list
is a stack whose top is the head of the list.
-/

namespace TeraSlab.Index

open Foundations

structure TxKey where
  txid : Vector UInt8 32
deriving DecidableEq

/-- The first four bytes of the transaction id, little-endian. -/
def keyFp (key : TxKey) : Nat :=
  key.txid[0].toNat + 2 ^ 8 * key.txid[1].toNat + 2 ^ 16 * key.txid[2].toNat +
    2 ^ 24 * key.txid[3].toNat

structure BlockEntry where
  blockId : Nat
  blockHeight : Nat
  subtreeIdx : Nat
deriving DecidableEq

abbrev Flags := BitVec 8

def minedAllSpent : Flags := 1
def minedHasOverflow : Flags := 2
def minedExternal : Flags := 4
def minedConflicting : Flags := 8
def minedLastSpentAll : Flags := 16
def minedReassigned : Flags := 32
def minedPreserved : Flags := 64

/-- The cached inputs of the delete-at-height evaluation. -/
def minedDeFlagMask : Flags :=
  minedExternal ||| minedConflicting ||| minedLastSpentAll ||| minedReassigned ||| minedPreserved

/-- The part of `minedDeFlagMask` whose truth lives on the device. -/
def minedDeDeviceMask : Flags :=
  minedExternal ||| minedConflicting ||| minedReassigned ||| minedPreserved

/-- One transaction's mined state; `unminedSince` is 0 when it is mined on the longest chain. -/
structure MinedEntry where
  blockId : Nat := 0
  blockHeight : Nat := 0
  subtreeIdx : Nat := 0
  unminedSince : Nat := 0
  flags : Flags := 0
  keyFp : Nat := 0
deriving DecidableEq

structure MinedApplyResult where
  changed : Bool
  newUnminedSince : Nat
deriving DecidableEq

inductive MinedTransition where
  | set (blockId blockHeight subtreeIdx : Nat) (onLongestChain : Bool)
  | unset (blockId currentHeight : Nat)
deriving DecidableEq

structure MinedTransitionState where
  blockEntries : List BlockEntry
  unminedSince : Nat
  deFlags : Flags
  allSpent : Bool
deriving DecidableEq

inductive MinedTransitionOutcome where
  | applied (state : MinedTransitionState)
  | blockEntriesFull
  | slotAbsent
deriving DecidableEq

/-- The largest number of distinct blocks a slot records. -/
def maxBlockEntries : Nat := 255

/-- `Vec::swap_remove`: the last element takes the place of the removed one. -/
def swapRemove {α : Type*} (v : List α) (pos : Nat) : List α :=
  match v.getLast? with
  | some last => (v.set pos last).dropLast
  | none => v

def removeBlock (blocks : List BlockEntry) (blockId : Nat) : List BlockEntry :=
  match blocks.findIdx? (·.blockId = blockId) with
  | some pos => swapRemove blocks pos
  | none => blocks

structure MinedShard where
  entries : List MinedEntry
  live : List Bool
  free : List Nat
  overflow : SortedMap Nat (List BlockEntry)
  unmined : SortedMap Nat (SortedMap Nat TxKey)

namespace MinedShard

def empty : MinedShard := ⟨[], [], [], .empty, .empty⟩

def alloc (s : MinedShard) (e : MinedEntry) : MinedShard × Nat :=
  match s.free with
  | slot :: free =>
    ({ s with entries := s.entries.set slot e, live := s.live.set slot true, free }, slot)
  | [] =>
    ({ s with entries := s.entries ++ [e], live := s.live ++ [true] }, s.entries.length)

def get (s : MinedShard) (slot : Nat) : Option MinedEntry :=
  if s.live[slot]? = some true then s.entries[slot]? else none

/-- Write through `get_mut`: nothing happens on a slot that is not live. -/
def update (s : MinedShard) (slot : Nat) (f : MinedEntry → MinedEntry) : MinedShard :=
  { s with entries := if s.live[slot]? = some true then s.entries.modify slot f else s.entries }

def dropFromBucket (s : MinedShard) (slot height : Nat) : MinedShard :=
  match s.unmined.get? height with
  | some bucket =>
    let bucket := bucket.erase slot
    { s with unmined :=
        if bucket.isEmpty then s.unmined.erase height else s.unmined.insert height bucket }
  | none => s

def freeSlot (s : MinedShard) (slot : Nat) : MinedShard :=
  if s.live[slot]? = some true then
    let s :=
      match s.entries[slot]? with
      | some entry =>
        if entry.unminedSince ≠ 0 then s.dropFromBucket slot entry.unminedSince else s
      | none => s
    { s with
      live := s.live.set slot false
      overflow := s.overflow.erase slot
      free := slot :: s.free }
  else s

def addToBucket (s : MinedShard) (slot height : Nat) (key : TxKey) : MinedShard :=
  let bucket := (s.unmined.get? height).getD .empty
  { s with unmined := s.unmined.insert height (bucket.insert slot key) }

def setUnmined (s : MinedShard) (slot oldHeight newHeight : Nat) (key : TxKey) : MinedShard :=
  if oldHeight = newHeight then s
  else
    let s := if oldHeight ≠ 0 then s.dropFromBucket slot oldHeight else s
    if newHeight ≠ 0 then s.addToBucket slot newHeight key else s

def settleUnmined (s : MinedShard) (slot : Nat) (onLongestChain : Bool) (key : TxKey) :
    MinedShard × Nat :=
  let oldUnmined := ((s.get slot).map (·.unminedSince)).getD 0
  let newUnminedSince := if onLongestChain then 0 else oldUnmined
  let s := if onLongestChain then s.update slot ({ · with unminedSince := 0 }) else s
  (if oldUnmined ≠ newUnminedSince then s.setUnmined slot oldUnmined newUnminedSince key else s,
    newUnminedSince)

def recordBlock (s : MinedShard) (slot inlineBlockId : Nat) (b : BlockEntry) : MinedShard :=
  if inlineBlockId = 0 then
    s.update slot fun e =>
      { e with blockId := b.blockId, blockHeight := b.blockHeight, subtreeIdx := b.subtreeIdx }
  else
    let blocks := (s.overflow.get? slot).getD []
    { s with overflow := s.overflow.insert slot (blocks ++ [b]) }.update slot fun e =>
      { e with flags := e.flags ||| minedHasOverflow }

def hasBlockId (s : MinedShard) (slot blockId : Nat) : Bool :=
  (s.get slot).any (fun e => e.blockId ≠ 0 && e.blockId = blockId) ||
    (s.overflow.get? slot).any (·.any (·.blockId = blockId))

def applySetMined (s : MinedShard) (key : TxKey) (slot blockId blockHeight subtreeIdx : Nat)
    (onLongestChain : Bool) : MinedShard × MinedApplyResult :=
  match s.get slot with
  | none => (s, ⟨false, 0⟩)
  | some e =>
    if s.hasBlockId slot blockId then
      let (s, newUnminedSince) := s.settleUnmined slot onLongestChain key
      (s, ⟨false, newUnminedSince⟩)
    else
      let s := s.recordBlock slot e.blockId ⟨blockId, blockHeight, subtreeIdx⟩
      let (s, newUnminedSince) := s.settleUnmined slot onLongestChain key
      (s, ⟨true, newUnminedSince⟩)

/-- Remove the inline tuple and backfill it with the first overflow block. -/
def unsetInline (s : MinedShard) (slot : Nat) : MinedShard :=
  match s.overflow.get? slot with
  | some (b :: rest) =>
    let s := { s with overflow :=
      if rest.isEmpty then s.overflow.erase slot else s.overflow.insert slot rest }
    s.update slot fun e =>
      { e with
        blockId := b.blockId, blockHeight := b.blockHeight, subtreeIdx := b.subtreeIdx
        flags := if rest.isEmpty then e.flags &&& ~~~minedHasOverflow else e.flags }
  | _ =>
    { s with overflow := s.overflow.erase slot }.update slot fun e =>
      { e with blockId := 0, blockHeight := 0, subtreeIdx := 0 }

def unsetOverflow (s : MinedShard) (slot blockId : Nat) (blocks : List BlockEntry) : MinedShard :=
  let blocks := removeBlock blocks blockId
  if blocks.isEmpty then
    { s with overflow := s.overflow.erase slot }.update slot fun e =>
      { e with flags := e.flags &&& ~~~minedHasOverflow }
  else { s with overflow := s.overflow.insert slot blocks }

/-- The end of an unset: a transaction left without blocks is unmined from `currentHeight` on. -/
def settleUnset (s : MinedShard) (slot currentHeight : Nat) (key : TxKey) : MinedShard :=
  if (s.get slot).any (·.blockId ≠ 0) || (s.overflow.get? slot).isSome then s
  else
    let oldUnmined := ((s.get slot).map (·.unminedSince)).getD 0
    (s.update slot ({ · with unminedSince := currentHeight })).setUnmined slot oldUnmined
      currentHeight key

def applyUnset (s : MinedShard) (key : TxKey) (slot blockId currentHeight : Nat) : MinedShard :=
  match s.get slot with
  | none => s
  | some e =>
    if e.blockId = blockId then (s.unsetInline slot).settleUnset slot currentHeight key
    else
      match s.overflow.get? slot with
      | some blocks => (s.unsetOverflow slot blockId blocks).settleUnset slot currentHeight key
      | none => s

def allocCreated (s : MinedShard) (key : TxKey) (blockHeight : Nat) : MinedShard × Nat :=
  let (s, slot) := s.alloc { unminedSince := blockHeight, keyFp := keyFp key }
  (s.setUnmined slot 0 blockHeight key, slot)

def inlineBlock (e : MinedEntry) : List BlockEntry :=
  if e.blockId ≠ 0 then [⟨e.blockId, e.blockHeight, e.subtreeIdx⟩] else []

def entryFor (s : MinedShard) (key : TxKey) (slot : Nat) : Option MinedEntry :=
  (s.get slot).filter (fun e => e.keyFp = keyFp key)

def blocksOf (s : MinedShard) (slot : Nat) (e : MinedEntry) : List BlockEntry :=
  inlineBlock e ++ (s.overflow.get? slot).getD []

def readBlockEntries (s : MinedShard) (key : TxKey) (slot : Nat) :
    Option (List BlockEntry × Nat) :=
  (s.entryFor key slot).map fun e => (s.blocksOf slot e, e.unminedSince)

def readMinedState (s : MinedShard) (key : TxKey) (slot : Nat) : Option MinedTransitionState :=
  (s.entryFor key slot).map fun e =>
    ⟨s.blocksOf slot e, e.unminedSince, e.flags &&& minedDeFlagMask,
      decide (e.flags &&& minedAllSpent ≠ 0)⟩

def blockEntryCount (s : MinedShard) (slot : Nat) : Nat :=
  (if (s.get slot).any (·.blockId ≠ 0) then 1 else 0) +
    ((s.overflow.get? slot).map List.length).getD 0

def applyMinedTransition (s : MinedShard) (key : TxKey) (slot : Nat) (t : MinedTransition) :
    MinedShard × MinedTransitionOutcome :=
  let readBack (s : MinedShard) :=
    match s.readMinedState key slot with
    | some state => (s, MinedTransitionOutcome.applied state)
    | none => (s, .slotAbsent)
  match s.entryFor key slot with
  | none => (s, .slotAbsent)
  | some _ =>
    match t with
    | .set blockId blockHeight subtreeIdx onLongestChain =>
      if !s.hasBlockId slot blockId && s.blockEntryCount slot ≥ maxBlockEntries then
        (s, .blockEntriesFull)
      else
        readBack (s.applySetMined key slot blockId blockHeight subtreeIdx onLongestChain).1
    | .unset blockId currentHeight => readBack (s.applyUnset key slot blockId currentHeight)

def setLongestChain (s : MinedShard) (key : TxKey) (slot : Nat) (onLongestChain : Bool)
    (currentHeight : Nat) : MinedShard :=
  match s.get slot with
  | none => s
  | some e =>
    let newUnmined := if onLongestChain then 0 else currentHeight
    (s.update slot ({ · with unminedSince := newUnmined })).setUnmined slot e.unminedSince
      newUnmined key

def setAllSpent (s : MinedShard) (slot : Nat) (allSpent : Bool) : MinedShard :=
  s.update slot fun e =>
    { e with flags :=
      if allSpent then e.flags ||| minedAllSpent else e.flags &&& ~~~minedAllSpent }

def writeFlags (s : MinedShard) (key : TxKey) (slot : Nat) (f : Flags → Flags) : MinedShard :=
  match s.entryFor key slot with
  | none => s
  | some _ => s.update slot fun e => { e with flags := f e.flags }

def setDeFlag (s : MinedShard) (key : TxKey) (slot : Nat) (flagMask : Flags) (on : Bool) :
    MinedShard :=
  s.writeFlags key slot fun flags => if on then flags ||| flagMask else flags &&& ~~~flagMask

def reseedDeFlags (s : MinedShard) (key : TxKey) (slot : Nat) (deFlags : Flags) : MinedShard :=
  s.writeFlags key slot fun flags =>
    (flags &&& ~~~minedDeDeviceMask) ||| (deFlags &&& minedDeDeviceMask)

def restoreDeFlags (s : MinedShard) (key : TxKey) (slot : Nat) (deFlags : Flags) : MinedShard :=
  s.writeFlags key slot fun flags =>
    (flags &&& ~~~minedDeFlagMask) ||| (deFlags &&& minedDeFlagMask)

def readDeFlags (s : MinedShard) (key : TxKey) (slot : Nat) : Option Flags :=
  (s.entryFor key slot).map (·.flags &&& minedDeFlagMask)

end MinedShard

end TeraSlab.Index
