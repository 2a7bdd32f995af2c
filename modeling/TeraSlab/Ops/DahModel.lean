import TeraSlab.Ops.Cell

/-!
# Deletion heights in the abstract

What the sweep sees of a record is whether it may delete it, the height and the preservation in its
footer, and its entries in the two secondary indexes. Every operation is one of a few events on
this view. Most of them evaluate the footer's height and move the index from the old height of the
footer to the new one; mining a block evaluates the height in the index instead, and leaves the
footer behind.
-/

namespace TeraSlab.Ops

/-- What decides whether the sweep may delete a record. -/
structure Traits where
  conflicting : Bool
  reassigned : Bool
  allSpent : Bool
  hasBlocks : Bool
  unminedSince : Nat

namespace Traits

/-- Every output is spent, and the transaction is in a block of the longest chain. -/
def ready (t : Traits) : Bool :=
  t.allSpent && !t.reassigned && t.hasBlocks && t.unminedSince = 0

def sweepable (t : Traits) : Bool := t.conflicting || t.ready

end Traits

/-- What the sweep sees of a record. -/
structure DahView where
  traits : Traits
  deleteAtHeight : Nat
  preserveUntil : Nat
  index : Option Nat
  preserveIndex : Option Nat

/-- What can happen to a record; an evaluation comes with the traits it leads to and the height it
may set. -/
inductive DahEvent where
  | idle
  | evaluate (traits : Traits) (newDah : Nat)
  | mine (traits : Traits) (newDah : Nat)
  | prune
  | reassign
  | lock
  | preserve (height : Nat)
  | expire (newDah : Nat)

namespace DahView

/-- The outcome of an evaluation; a preserved record keeps its height. -/
def settle (v : DahView) (t : Traits) (existing newDah : Nat) : Nat :=
  if v.preserveUntil ≠ 0 then existing else nextDah t.conflicting t.ready existing newDah

def moveTo (v : DahView) (t : Traits) (height : Nat) : DahView :=
  { v with
    traits := t
    deleteAtHeight := height
    index := updateHeightIndex v.index v.deleteAtHeight height }

def step (v : DahView) : DahEvent → DahView
  | .idle => v
  | .evaluate t newDah => v.moveTo t (v.settle t v.deleteAtHeight newDah)
  | .mine t newDah =>
    let old := v.index.getD 0
    { v with traits := t, index := updateHeightIndex v.index old (v.settle t old newDah) }
  | .prune =>
    -- A pruned slot may only lower the height.
    v.moveTo { v.traits with allSpent := false }
      (if v.preserveUntil ≠ 0 ∨ v.traits.conflicting then v.deleteAtHeight else 0)
  | .reassign => { v with traits := { v.traits with reassigned := true } }
  | .lock => { v with deleteAtHeight := 0, index := updateHeightIndex v.index (v.index.getD 0) 0 }
  | .preserve height =>
    { v.moveTo v.traits 0 with
      preserveUntil := height
      preserveIndex := updateHeightIndex v.preserveIndex v.preserveUntil height }
  | .expire newDah =>
    { v.moveTo v.traits (if v.traits.sweepable then newDah else 0) with
      preserveUntil := 0
      preserveIndex := updateHeightIndex v.preserveIndex v.preserveUntil 0 }

variable {v : DahView} (t : Traits) (existing newDah : Nat)

theorem settle_of_preserved (hp : v.preserveUntil ≠ 0) : v.settle t existing newDah = existing :=
  if_pos hp

theorem settle_of_not_preserved (hp : v.preserveUntil = 0) :
    v.settle t existing newDah = nextDah t.conflicting t.ready existing newDah :=
  if_neg (not_not.mpr hp)

end DahView

/-! ### Moving an index entry -/

theorem updateHeightIndex_self (entry : Option Nat) (height : Nat) :
    updateHeightIndex entry height height = entry := by
  simp [updateHeightIndex]

/-- An entry can only be removed by a caller that names its height. -/
theorem updateHeightIndex_zero {old : Nat} (entry : Option Nat) (h : old ≠ 0) :
    updateHeightIndex entry old 0 = none := by
  simp [updateHeightIndex, h]

theorem updateHeightIndex_of_ne {old new : Nat} (entry : Option Nat) (h : old ≠ new)
    (hnew : new ≠ 0) : updateHeightIndex entry old new = some new := by
  simp [updateHeightIndex, h, hnew]

theorem updateHeightIndex_ne_zero {entry : Option Nat} (h : entry ≠ some 0) (old new : Nat) :
    updateHeightIndex entry old new ≠ some 0 := by
  unfold updateHeightIndex
  grind

theorem nextDah_of_not {t : Traits} (h : t.sweepable = false) (existing newDah : Nat) :
    nextDah t.conflicting t.ready existing newDah = 0 := by
  simp only [Traits.sweepable, Bool.or_eq_false_iff] at h
  simp [nextDah, h.1, h.2]

/-- A record the sweep may delete is given a height. -/
theorem nextDah_ne_zero {t : Traits} (h : t.sweepable) (existing : Nat) {newDah : Nat}
    (hnew : newDah ≠ 0) : nextDah t.conflicting t.ready existing newDah ≠ 0 := by
  simp only [Traits.sweepable, Bool.or_eq_true] at h
  unfold nextDah
  split_ifs <;> grind

/-- An evaluation keeps the height, sets the new one or takes it away. -/
theorem nextDah_cases (conflicting eligible : Bool) (existing newDah : Nat) :
    nextDah conflicting eligible existing newDah = existing ∨
      nextDah conflicting eligible existing newDah = newDah ∨
      nextDah conflicting eligible existing newDah = 0 := by
  unfold nextDah
  split_ifs <;> simp

end TeraSlab.Ops
