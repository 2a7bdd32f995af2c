import TeraSlab.Ops.Operations
import TeraSlab.Index.MinedView

/-!
# What the helpers of the operations do

A record is backed by its slot in the mined index when the slot is live and carries the record's
key. The reads of a backed record succeed, an evaluation can then only fail by overflow, and a
commit changes the record's height, the cached flags and the index entry, and nothing else.
-/

namespace TeraSlab.Ops

open Foundations Index MinedShard

variable {c c' : Cell} {key : TxKey} {r : Record} {slot : Nat} {st : MinedTransitionState}
  {patch : Option DahPatch} {hasBlocks : Bool} {signal : Signal} {e : SpendError}

/-- The record's slot in the mined index shows the given state. -/
structure Backed (mined : MinedShard) (key : TxKey) (r : Record) (slot : Nat)
    (st : MinedTransitionState) : Prop where
  minedSlot : r.minedSlot = some slot
  view : mined.readMinedState key slot = some st

/-- The cached flags are those of the footer. -/
def CacheAgrees (r : Record) (st : MinedTransitionState) : Prop :=
  st.deFlags &&& minedDeDeviceMask =
    deviceDeFlags r.metadata.flags (r.metadata.preserveUntil ≠ 0) &&& minedDeDeviceMask

/-- Every output is spent, and the transaction is in a block of the longest chain. -/
def ready (r : Record) (st : MinedTransitionState) : Bool :=
  r.allSpent && !r.metadata.flags.reassigned && !st.blockEntries.isEmpty && st.unminedSince = 0

def sweepable (r : Record) (st : MinedTransitionState) : Bool :=
  sweepEligibleWithMined r (!st.blockEntries.isEmpty) st.unminedSince

theorem sweepable_eq (r : Record) (st : MinedTransitionState) :
    sweepable r st = (r.metadata.flags.conflicting || ready r st) := by
  simp only [sweepable, sweepEligibleWithMined, ready]
  grind

theorem minedBlockEntriesAt_backed (h : Backed c.mined key r slot st) :
    minedBlockEntriesAt c.mined key r.minedSlot = .ok (st.blockEntries, st.unminedSince) := by
  simp only [minedBlockEntriesAt, h.minedSlot, readBlockEntries_of_view h.view]

/-! ### Evaluation -/

theorem evaluateDeleteAtHeight_error {unminedSince cur ret : Nat}
    (h : evaluateDeleteAtHeight (c.sourceLsa key r) hasBlocks unminedSince cur ret = .error e) :
    e = .dahOverflow cur ret ∧ ret ≠ 0 ∧ r.metadata.preserveUntil = 0 ∧ 2 ^ 32 ≤ cur + ret := by
  obtain ⟨he, hret, hp, hov⟩ := evaluateDahFromRam_error h
  exact ⟨he, hret, not_not.mp (of_decide_eq_false hp), hov⟩

theorem evaluateDeleteAtHeight_ok {unminedSince cur ret : Nat} (hret : ret ≠ 0)
    (h : evaluateDeleteAtHeight (c.sourceLsa key r) hasBlocks unminedSince cur ret =
      .ok (signal, patch)) :
    patchedDah r.metadata.deleteAtHeight patch =
      if r.metadata.preserveUntil ≠ 0 then r.metadata.deleteAtHeight else
        nextDah r.metadata.flags.conflicting
          (r.allSpent && !r.metadata.flags.reassigned && hasBlocks && unminedSince = 0)
          r.metadata.deleteAtHeight (cur + ret) := by
  have hdah := evaluateDahFromRam_ok hret h
  simp only [decide_eq_true_eq] at hdah
  exact hdah

theorem evaluate_error {cur ret : Nat} (hb : Backed c.mined key r slot st)
    (h : c.evaluate key r cur ret = .error e) :
    e = .dahOverflow cur ret ∧ ret ≠ 0 ∧ r.metadata.preserveUntil = 0 ∧ 2 ^ 32 ≤ cur + ret := by
  simp only [Cell.evaluate, minedBlockEntriesAt_backed hb] at h
  split at h
  · rename_i e' he
    obtain rfl : e' = e := by simpa using h
    exact evaluateDeleteAtHeight_error he
  · cases h

theorem evaluate_ok {cur ret : Nat} {entries : List BlockEntry} (hb : Backed c.mined key r slot st)
    (hret : ret ≠ 0) (h : c.evaluate key r cur ret = .ok (entries, signal, patch)) :
    patchedDah r.metadata.deleteAtHeight patch =
      if r.metadata.preserveUntil ≠ 0 then r.metadata.deleteAtHeight else
        nextDah r.metadata.flags.conflicting (ready r st) r.metadata.deleteAtHeight
          (cur + ret) := by
  simp only [Cell.evaluate, minedBlockEntriesAt_backed hb] at h
  split at h
  · cases h
  rename_i signal' patch' he
  obtain ⟨-, -, rfl⟩ : _ ∧ _ ∧ patch' = patch := by simpa using h
  exact evaluateDeleteAtHeight_ok hret he

/-! ### The caches -/

theorem setAllSpentAt_backed (h : Backed c.mined key r slot st) (allSpent : Bool) :
    Elsewhere c.mined (setAllSpentAt c.mined r.minedSlot allSpent) slot ∧
      Backed (setAllSpentAt c.mined r.minedSlot allSpent) key r slot { st with allSpent } := by
  obtain ⟨hels, hview⟩ := setAllSpent_view h.view allSpent
  simp only [setAllSpentAt, h.minedSlot]
  exact ⟨hels, h.minedSlot, hview⟩

variable {mined : MinedShard}

section

variable (h : Backed mined key r slot st)
include h

theorem mirrorDeFlags_backed : Elsewhere mined (mirrorDeFlags mined key r) slot ∧
      ∃ de, Backed (mirrorDeFlags mined key r) key r slot { st with deFlags := de } ∧
        CacheAgrees r { st with deFlags := de } := by
  obtain ⟨hels, de, hview, hde⟩ := reseedDeFlags_view h.view
    (deviceDeFlags r.metadata.flags (r.metadata.preserveUntil ≠ 0))
  simp only [mirrorDeFlags, h.minedSlot]
  exact ⟨hels, de, ⟨h.minedSlot, hview⟩, hde⟩

theorem setCacheLsa_backed (patch : Option DahPatch) :
    Elsewhere mined (setCacheLsa mined key r.minedSlot patch) slot ∧
      ∃ de, Backed (setCacheLsa mined key r.minedSlot patch) key r slot { st with deFlags := de } ∧
        de &&& minedDeDeviceMask = st.deFlags &&& minedDeDeviceMask := by
  cases patch with
  | none =>
    simp only [setCacheLsa, h.minedSlot]
    exact ⟨.refl _ _, st.deFlags, h, rfl⟩
  | some patch =>
    obtain ⟨hels, de, hview, hde⟩ := setDeFlag_view h.view patch.lastSpentAll
    simp only [setCacheLsa, h.minedSlot]
    exact ⟨hels, de, ⟨h.minedSlot, hview⟩, hde⟩

theorem lsaMirror_backed {r' : Record} (hslot : r'.minedSlot = r.minedSlot)
    (patch : Option DahPatch) :
    Elsewhere mined (mirrorDeFlags (setCacheLsa mined key r'.minedSlot patch) key r') slot ∧
      ∃ de, Backed (mirrorDeFlags (setCacheLsa mined key r'.minedSlot patch) key r') key r' slot
          { st with deFlags := de } ∧ CacheAgrees r' { st with deFlags := de } := by
  have h' : Backed mined key r' slot st := ⟨hslot ▸ h.minedSlot, h.view⟩
  obtain ⟨hels, de, hback, -⟩ := setCacheLsa_backed h' patch
  obtain ⟨hels', de', hback', hagree⟩ := mirrorDeFlags_backed hback
  exact ⟨hels.trans hels', de', hback', hagree⟩

end

/-! ### Commits -/

theorem applyDahPatch_eq (r : Record) (patch : Option DahPatch) :
    ∃ l, r.applyDahPatch patch = r.settled (patchedDah r.metadata.deleteAtHeight patch) l := by
  cases patch with
  | none => exact ⟨r.metadata.flags.lastSpentAll, rfl⟩
  | some patch => exact ⟨patch.lastSpentAll, rfl⟩

theorem commit_eq (c : Cell) (key : TxKey) (r : Record) (patch : Option DahPatch) :
    ∃ l r', r' = r.settled (patchedDah r.metadata.deleteAtHeight patch) l ∧
      c.commit key r patch =
        { record := some r'
          mined := setCacheLsa (mirrorDeFlags c.mined key r') key r.minedSlot patch
          dahHeight := updateHeightIndex c.dahHeight r.metadata.deleteAtHeight
            (patchedDah r.metadata.deleteAtHeight patch)
          preserveHeight := c.preserveHeight } := by
  obtain ⟨l, hl⟩ := applyDahPatch_eq (c.sourceLsa key r) patch
  refine ⟨l, (c.sourceLsa key r).applyDahPatch patch, hl, ?_⟩
  simp only [Cell.commit, Cell.updateDahIndex]
  rw [hl]
  rfl

/-- A commit keeps the record backed, and leaves it with the footer's flags in the cache. -/
theorem commit_spec (hb : Backed c.mined key r slot st) (patch : Option DahPatch) :
    ∃ l r' de, r' = r.settled (patchedDah r.metadata.deleteAtHeight patch) l ∧
      (c.commit key r patch).record = some r' ∧
      Elsewhere c.mined (c.commit key r patch).mined slot ∧
      Backed (c.commit key r patch).mined key r' slot { st with deFlags := de } ∧
      CacheAgrees r' { st with deFlags := de } ∧
      (c.commit key r patch).dahHeight =
        updateHeightIndex c.dahHeight r.metadata.deleteAtHeight r'.metadata.deleteAtHeight ∧
      (c.commit key r patch).preserveHeight = c.preserveHeight := by
  obtain ⟨l, r', hr', hc⟩ := commit_eq c key r patch
  have hm : r'.minedSlot = r.minedSlot := by rw [hr']; rfl
  have hb' : Backed c.mined key r' slot st := ⟨hm ▸ hb.minedSlot, hb.view⟩
  obtain ⟨hels, de, hback, hagree⟩ := mirrorDeFlags_backed hb'
  obtain ⟨hels', de', hback', hde'⟩ := setCacheLsa_backed hback patch
  rw [hc]
  refine ⟨l, r', de', hr', rfl, ?_, ?_, hde'.trans hagree, ?_, rfl⟩
  · rw [← hm]
    exact hels.trans hels'
  · rw [← hm]
    exact hback'
  · rw [hr']
    rfl

end TeraSlab.Ops
