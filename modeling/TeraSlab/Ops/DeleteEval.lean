import TeraSlab.Ops.Record

/-!
# Evaluation of delete-at-height

Every operation that may change whether a record is ready for deletion evaluates the height at
which the sweep may delete it. The evaluation either fails, when the height does not fit in 32
bits, or returns a patch for the record; `nextDah` is the height the patched record carries.
-/

namespace TeraSlab.Ops

structure DahPatch where
  newDeleteAtHeight : Nat
  lastSpentAll : Bool
deriving DecidableEq

abbrev DahEvalResult := Except SpendError (Signal × Option DahPatch)

def checkedNewDah (currentBlockHeight blockHeightRetention : Nat) : Except SpendError Nat :=
  if currentBlockHeight + blockHeightRetention < 2 ^ 32 then
    .ok (currentBlockHeight + blockHeightRetention)
  else .error (.dahOverflow currentBlockHeight blockHeightRetention)

/-- A signal that only the owner of external data hears. -/
def externalSignal (flags : TxFlags) (signal : Signal) : Signal :=
  if flags.external then signal else .none

/-- The decision for a record that is not preserved, once the new height is known. -/
def decideDah (flags : TxFlags) (allSpent hasBlocks : Bool)
    (unminedSince existingDah newDah : Nat) :
    Signal × Option DahPatch :=
  if flags.conflicting then
    if existingDah = 0 then
      (externalSignal flags .deleteAtHeightSet, some ⟨newDah, flags.lastSpentAll⟩)
    else (.none, none)
  else
    let allSpent := allSpent && !flags.reassigned
    if allSpent && hasBlocks && unminedSince = 0 then
      if existingDah = 0 ∨ existingDah < newDah then
        (externalSignal flags .deleteAtHeightSet, some ⟨newDah, true⟩)
      else if !flags.lastSpentAll then (.none, some ⟨existingDah, true⟩)
      else (.none, none)
    else if existingDah ≠ 0 then
      (externalSignal flags .deleteAtHeightUnset, some ⟨0, false⟩)
    else if allSpent ≠ flags.lastSpentAll then
      (if allSpent then .allSpent else .notAllSpent, some ⟨0, allSpent⟩)
    else (.none, none)

def evaluateDahFromRam (flags : TxFlags) (allSpent hasBlocks : Bool) (unminedSince : Nat)
    (hasPreserveUntil : Bool) (deleteAtHeight currentBlockHeight blockHeightRetention : Nat) :
    DahEvalResult :=
  if blockHeightRetention = 0 then .ok (.none, none)
  else if hasPreserveUntil then .ok (.none, none)
  else
    match checkedNewDah currentBlockHeight blockHeightRetention with
    | .error e => .error e
    | .ok newDah =>
      .ok (decideDah flags allSpent hasBlocks unminedSince deleteAtHeight newDah)

def evaluateDahCached (flags : TxFlags) (spentUtxos utxoCount blockEntryCount unminedSince : Nat)
    (hasPreserveUntil : Bool) (dahOrPreserve currentBlockHeight blockHeightRetention : Nat) :
    DahEvalResult :=
  evaluateDahFromRam flags (spentUtxos = utxoCount) (0 < blockEntryCount) unminedSince
    hasPreserveUntil dahOrPreserve currentBlockHeight blockHeightRetention

def evaluateDeleteAtHeight (r : Record) (hasBlocks : Bool)
    (unminedSince currentBlockHeight blockHeightRetention : Nat) : DahEvalResult :=
  evaluateDahFromRam r.metadata.flags r.allSpent hasBlocks unminedSince
    (r.metadata.preserveUntil ≠ 0) r.metadata.deleteAtHeight currentBlockHeight
    blockHeightRetention

/-- Whether the sweep may delete a record in the given mined state. -/
def sweepEligibleWithMined (r : Record) (hasBlocks : Bool) (unminedSince : Nat) : Bool :=
  if r.metadata.flags.conflicting then true
  else if r.metadata.flags.reassigned then false
  else r.allSpent && hasBlocks && unminedSince = 0

/-- The height an evaluated record carries: a conflicting record keeps its first height, an
eligible one keeps the larger height, any other has none. -/
def nextDah (conflicting eligible : Bool) (existing new : Nat) : Nat :=
  if conflicting then if existing = 0 then new else existing
  else if eligible then if existing < new then new else existing
  else 0

def patchedDah (existing : Nat) (patch : Option DahPatch) : Nat :=
  (patch.map (·.newDeleteAtHeight)).getD existing

theorem patchedDah_decideDah (flags : TxFlags) (allSpent hasBlocks : Bool)
    (unminedSince existing : Nat) {new : Nat} (hnew : new ≠ 0) :
    patchedDah existing (decideDah flags allSpent hasBlocks unminedSince existing new).2 =
      nextDah flags.conflicting
        (allSpent && !flags.reassigned && hasBlocks && unminedSince = 0) existing new := by
  simp only [decideDah, nextDah, patchedDah]
  split_ifs <;> grind

variable {unminedSince existing cur ret : Nat} {allSpent hasBlocks preserve : Bool}
  {flags : TxFlags}

/-- An evaluation fails only when the record is to be deleted past the last height. -/
theorem evaluateDahFromRam_error {e : SpendError}
    (h : evaluateDahFromRam flags allSpent hasBlocks unminedSince preserve existing cur ret =
      .error e) :
    e = .dahOverflow cur ret ∧ ret ≠ 0 ∧ preserve = false ∧ 2 ^ 32 ≤ cur + ret := by
  simp only [evaluateDahFromRam, checkedNewDah] at h
  grind

theorem evaluateDahFromRam_ok {signal : Signal} {patch : Option DahPatch} (hret : ret ≠ 0)
    (h : evaluateDahFromRam flags allSpent hasBlocks unminedSince preserve existing cur ret =
      .ok (signal, patch)) :
    patchedDah existing patch = if preserve then existing else
      nextDah flags.conflicting
        (allSpent && !flags.reassigned && hasBlocks && unminedSince = 0) existing (cur + ret) := by
  have hnew : cur + ret ≠ 0 := by omega
  have hpatch := patchedDah_decideDah flags allSpent hasBlocks unminedSince existing hnew
  simp only [evaluateDahFromRam, checkedNewDah, if_neg hret] at h
  cases preserve with
  | true =>
    obtain ⟨-, rfl⟩ : Signal.none = signal ∧ none = patch := by simpa using h
    rfl
  | false => grind

end TeraSlab.Ops
