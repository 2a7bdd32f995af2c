import TeraSlab.Ops.Operations

/-!
# What passed checks say

One lemma per validation says what holds when it succeeds. The items of a batch are checked one
after the other, each against the slots as the items before it leave them.
-/

namespace TeraSlab.Ops

open Foundations Index

variable {c : Cell} {key : TxKey} {r : Record} {height : Nat}

/-! ### Checks -/

theorem checkRecord_ok {ignoreConflicting ignoreLocked : Bool}
    (h : c.checkRecord key r ignoreConflicting ignoreLocked height = .ok ()) :
    r.metadata.flags.conflicting = true → ignoreConflicting = true := by
  unfold Cell.checkRecord at h
  grind

variable {s : UtxoSlot} {utxoHash : Hash} {offset : Nat} {d : SpendingData}

theorem checkSlot_fresh (h : Cell.checkSlot r s offset utxoHash d height = .ok .fresh) :
    s.hash = utxoHash ∧ s.status = .unspent ∧
      (s.reassignmentCooldown = 0 ∨ s.reassignmentCooldown ≤ height) := by
  unfold Cell.checkSlot at h
  grind

theorem checkSlot_repeated (h : Cell.checkSlot r s offset utxoHash d height = .ok .repeated) :
    s.status = .spent ∧ s.spendingData = d := by
  unfold Cell.checkSlot at h
  grind

theorem validateSpend_ok {req : SpendRequest} {kind : SpendKind}
    (h : c.validateSpend key req = .ok (r, kind)) :
    c.record = some r ∧ req.spendingData ≠ frozenMarker ∧
      (r.metadata.flags.conflicting = true → req.ignoreConflicting = true) ∧
      ∃ s, r.slots[req.offset]? = some s ∧
        Cell.checkSlot r s req.offset req.utxoHash req.spendingData req.currentBlockHeight =
          .ok kind := by
  unfold Cell.validateSpend at h
  have hrecord := @checkRecord_ok c key r req.currentBlockHeight req.ignoreConflicting
    req.ignoreLocked
  grind

theorem validateUnspend_ok {req : UnspendRequest}
    (h : c.validateUnspend req = .ok (r, s)) :
    c.record = some r ∧ r.slots[req.offset]? = some s ∧ s.hash = req.utxoHash ∧
      s.status ≠ .pruned := by
  unfold Cell.validateUnspend Cell.slotFor at h
  grind

theorem slotFor_ok (h : Cell.slotFor r offset utxoHash = .ok s) :
    r.slots[offset]? = some s ∧ s.hash = utxoHash := by
  unfold Cell.slotFor at h
  grind

theorem validateReassign_ok {req : ReassignRequest}
    (h : c.validateReassign key req = .ok (r, height)) :
    c.record = some r ∧ r.metadata.flags.conflicting = false ∧
      height = req.blockHeight + req.spendableAfter ∧ height < 2 ^ 32 ∧
      ∃ s, r.slots[req.offset]? = some s ∧ s.status = .frozen := by
  unfold Cell.validateReassign at h
  split at h
  · cases h
  rename_i r₀ hr
  split at h
  · cases h
  split at h
  · cases h
  rename_i hcheck
  split at h
  · cases h
  rename_i s hs
  split_ifs at h with hfrozen hover
  obtain ⟨rfl, rfl⟩ : r₀ = r ∧ req.blockHeight + req.spendableAfter = height := by
    simpa using h
  have hconf := checkRecord_ok hcheck
  exact ⟨hr, by simpa using hconf, rfl, by omega, s, (slotFor_ok hs).1,
    not_not.mp hfrozen⟩

/-! ### Batches -/

section

variable (r) (ws : List (Nat × UtxoSlot)) (height) (b : Cell.Batch)

theorem writeSlots_concat (w : Nat × UtxoSlot) :
    r.writeSlots (ws ++ [w]) = (r.writeSlots ws).writeSlot w.1 w.2 := by
  simp [Record.writeSlots]

theorem writeSlots_metadata :
    (r.writeSlots ws).metadata = r.metadata ∧ (r.writeSlots ws).minedSlot = r.minedSlot ∧
      (r.writeSlots ws).utxoCount = r.utxoCount := by
  induction ws using List.reverseRecOn with
  | nil => exact ⟨rfl, rfl, rfl⟩
  | append_singleton ws w ih => simpa [writeSlots_concat] using ih

/-- An item sees the slots as the earlier items of its batch leave them. -/
theorem slotAt_eq (r : Record) (offset : Nat) :
    b.slotAt r offset = (r.writeSlots b.validSpends).slots[offset]? := by
  have hlen : ∀ ws, (r.writeSlots ws).slots.length = r.utxoCount :=
    fun ws => (writeSlots_metadata r ws).2.2
  by_cases hlt : offset < r.utxoCount
  · rw [Cell.Batch.slotAt, if_pos hlt]
    induction b.validSpends using List.reverseRecOn with
    | nil => rfl
    | append_singleton ws w ih =>
      rw [writeSlots_concat, Record.writeSlot_slots]
      by_cases hw : w.1 = offset
      · simp [hw, hlen, hlt]
      · simpa [hw] using ih
  · rw [Cell.Batch.slotAt, if_neg hlt, List.getElem?_eq_none (by rw [hlen]; omega)]

/-- What one item of a batch does to the slots: nothing, or it spends one that is unspent. -/
theorem addItem_cases (item : SpendItem) : ((b.addItem r height item).validSpends = b.validSpends ∧
      (b.addItem r height item).spentCount = b.spentCount) ∨
    (∃ s, (r.writeSlots b.validSpends).slots[item.offset]? = some s ∧
      b.checkItem r height item = .ok .fresh ∧
      Cell.checkSlot r s item.offset item.utxoHash item.spendingData height = .ok .fresh ∧
      (b.addItem r height item).validSpends =
        b.validSpends ++ [(item.offset, .newSpent item.utxoHash item.spendingData)] ∧
      (b.addItem r height item).spentCount = b.spentCount + 1) := by
  have hslot := slotAt_eq b r item.offset
  unfold Cell.Batch.addItem Cell.Batch.fail
  unfold Cell.Batch.checkItem
  grind

end

end TeraSlab.Ops
