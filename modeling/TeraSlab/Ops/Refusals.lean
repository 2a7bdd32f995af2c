import TeraSlab.Ops.SlotCounters

/-!
# Operations that are refused

An operation that reports an error of its own, not one of the storage, leaves the record, its
places in the indexes and the cached flags as they were, as long as the height it evaluates fits in
32 bits. The spends, the unspend and the recording of a block write before they evaluate: when the
height does not fit they fail with these writes in place, a spend and a logged batch with the cached
mark of a record that is all spent, a batch and an unspend with their slots, and a block with its
transition of the index.
-/

namespace TeraSlab.Ops

open Foundations Index

/-- An error that does not come from the storage. -/
def Refuses {α : Type*} : Except SpendError α → Prop
  | .error (.storageError _) | .ok _ => False
  | .error _ => True

/-- A client's operation is refused; a batch is when none of its items is spent. -/
def Outcome.Refused : Outcome → Prop
  | .batch (.ok response) => response.spentCount = 0
  | .batch result => Refuses result
  | .blocks result => Refuses result
  | .signal result => Refuses result
  | .locked result => Refuses result
  | .generation result => Refuses result
  | .create _ | .expiry _ | .pruned _ => False

/-- Whether the index of conflicting transactions names the transaction afterwards. -/
def EngineOp.conflictingAfter (was ok : Bool) : EngineOp → Bool
  | .create _ req => was || ok && req.conflicting
  | .setConflicting req => if ok then req.value else was
  | _ => was

def HeightFits (currentBlockHeight blockHeightRetention : Nat) : Prop :=
  blockHeightRetention = 0 ∨ currentBlockHeight + blockHeightRetention < 2 ^ 32

/-- A refused operation has left a write behind: its height does not fit, and what it wrote before
it found that out was not there already. -/
def Cell.Torn (c : Cell) (cfg : StoreConfig) (key : TxKey) : EngineOp → Prop
  | .spend _ req =>
    ¬ HeightFits req.currentBlockHeight req.blockHeightRetention ∧
      ∃ r, c.validateSpend key req = .ok (r, .fresh) ∧
        c.markAllSpent (countSpent r ((r.metadata.spentUtxos + 1) % 2 ^ 32)) ≠ c
  | .spendMulti _ req =>
    ¬ HeightFits req.currentBlockHeight req.blockHeightRetention ∧
      ∃ r batch entries, c.prepareSpendMulti key req = .ok (r, batch, entries) ∧
        batch.spentCount ≠ 0 ∧ (cfg.logStructured = false ∨
          c.markAllSpent (countSpent r (r.metadata.spentUtxos + batch.spentCount)) ≠ c)
  | .unspend req =>
    ¬ HeightFits req.currentBlockHeight req.blockHeightRetention ∧ c.clears req
  | .setMined req =>
    ¬ HeightFits req.currentBlockHeight req.blockHeightRetention ∧
      ∃ r, c.record = some r ∧
        (applyTransitionAt c.mined key r.minedSlot (SetMinedSharedParams.transition req)).1
          ≠ c.mined
  | _ => False

/-- If the operation is refused the cell is as it was. -/
def Cell.Keeps {α : Type*} (c : Cell) (out : Cell × Except SpendError α) : Prop :=
  Refuses out.2 → out.1 = c

variable {c : Cell} {cfg : StoreConfig} {key : TxKey} {r : Record} {cur ret : Nat} {e : SpendError}
  {α : Type*} {room : Room}

theorem evaluateDahFromRam_fits {flags : TxFlags} {allSpent hasBlocks preserve : Bool}
    {unminedSince existing : Nat} (hfits : HeightFits cur ret) :
    evaluateDahFromRam flags allSpent hasBlocks unminedSince preserve existing cur ret ≠
      .error e := by
  intro h
  have := evaluateDahFromRam_error h
  grind [HeightFits]

/-- An evaluation fails because of the height, or because of the storage. -/
theorem evaluate_refuses (h : c.evaluate key r cur ret = .error e)
    (hrefuses : Refuses (.error e : Except SpendError α)) : ¬ HeightFits cur ret := by
  intro hfits
  unfold Cell.evaluate at h
  split at h
  · rename_i hmined
    cases h
    unfold minedBlockEntriesAt at hmined
    grind [Refuses, minedSlotAbsent]
  · grind [evaluateDeleteAtHeight, evaluateDahFromRam_fits]

theorem relocate_storage (h : Cell.relocate cfg room = .error e) :
    ¬ Refuses (.error e : Except SpendError α) := by
  unfold Cell.relocate at h
  grind [Refuses]

theorem spend_refused {req : SpendRequest} (h : Refuses (c.spend cfg key room req).2) :
    (c.spend cfg key room req).1 = c ↔ ¬ c.Torn cfg key (.spend room req) := by
  unfold Cell.spend at h ⊢
  unfold Cell.Torn
  split at h
  · simp [*]
  · rename_i hv
    simp only [Cell.applySpend] at h ⊢
    split at h
    · rename_i heval
      simp [hv, evaluate_refuses heval h]
    split at h
    · exact absurd h (relocate_storage ‹_›)
    · exact h.elim
  · rename_i hv
    split <;> simp [hv]

/-- A batch that spends something changes the slots. -/
theorem writeSlots_ne (req : SpendMultiRequest) (hcount : (batchOf r req).spentCount ≠ 0) :
    r.writeSlots (batchOf r req).validSpends ≠ r := by
  intro hsame
  have hspent := (countStatus_batch r req.currentBlockHeight req.spends).1
  unfold batchOf at hsame hcount
  rw [hsame] at hspent
  omega

theorem markAllSpent_record (c : Cell) (r : Record) : (c.markAllSpent r).record = c.record := by
  unfold Cell.markAllSpent
  split_ifs <;> rfl

theorem spendMulti_refused {req : SpendMultiRequest}
    (h : (Outcome.batch (c.spendMulti cfg key room req).2).Refused) :
    (c.spendMulti cfg key room req).1 = c ↔ ¬ c.Torn cfg key (.spendMulti room req) := by
  unfold Cell.spendMulti at h ⊢
  unfold Cell.Torn
  split at h
  · simp [*]
  rename_i r batch entries hprep
  obtain ⟨hrec, rfl, -⟩ := prepareSpendMulti_ok hprep
  simp only [Cell.applyLocked] at h ⊢
  by_cases hzero : (batchOf r req).spentCount = 0
  · simp [hprep, hzero]
  rw [if_neg hzero] at h ⊢
  split at h
  · rename_i hcount
    unfold Cell.checkSpentCount at hcount
    grind [Outcome.Refused, Refuses]
  rename_i newSpent hcount
  obtain rfl := checkSpentCount_ok hcount
  split at h
  · rename_i heval
    simp only [evaluate_refuses heval h, hprep, not_false_eq_true, true_and]
    by_cases hcfg : cfg.logStructured = true
    · simp [hcfg, hzero]
    · refine iff_of_false ?_ (by simp [hcfg, hzero])
      intro hsame
      rw [if_neg hcfg] at hsame
      have hrecord := congrArg Cell.record hsame
      rw [markAllSpent_record, hrec] at hrecord
      exact writeSlots_ne req hzero (Option.some.inj hrecord)
  split at h
  · exact absurd h (relocate_storage ‹_›)
  · exact absurd h hzero

theorem unspend_refused {req : UnspendRequest} (h : Refuses (c.unspend key req).2) :
    (c.unspend key req).1 = c ↔ ¬ c.Torn cfg key (.unspend req) := by
  unfold Cell.unspend at h ⊢
  unfold Cell.Torn Cell.clears
  split at h
  · simp [*]
  rename_i r slot hv
  simp only [hv]
  split_ifs at h ⊢ with howns
  · unfold Cell.clearSpend at h ⊢
    split_ifs at h ⊢ with hzero
    · simp [hzero]
    dsimp only at h ⊢
    split at h
    · rename_i heval
      refine iff_of_false ?_ (by simp [evaluate_refuses heval h, howns, hzero])
      -- The slot was spent, and is not any more.
      intro hsame
      obtain ⟨hrec, hslot, -⟩ := validateUnspend_ok hv
      have hrecord := congrArg Cell.record hsame
      have hspent : slot.status = .spent := by
        unfold Cell.ownsSpend at howns
        grind
      have hcount := countStatus_set hslot
        (Record.writeSlot_slots r req.offset (.newUnspent req.utxoHash)) .spent
      rw [Option.some.inj (hrecord.trans hrec), hspent] at hcount
      simp at hcount
    · exact h.elim
  · grind [Cell.keepSpend, Refuses]

/-- A transition that has no room for the block leaves the index. -/
theorem applyTransitionAt_refuses {mined mined' : MinedShard} {slot : Option Nat}
    {t : MinedTransition} (h : Cell.applyTransitionAt mined key slot t = (mined', .error e))
    (hrefuses : Refuses (.error e : Except SpendError α)) : mined' = mined := by
  unfold Cell.applyTransitionAt at h
  split at h
  · cases h
  split at h
  · cases h
  · rename_i hfull
    unfold MinedShard.applyMinedTransition at hfull
    grind
  · grind [Refuses, minedSlotAbsent]

theorem with_mined_eq_iff (hrec : c.record = some r) (mined : MinedShard) :
    { c with record := some r, mined } = c ↔ mined = c.mined := by
  cases c
  simp [← hrec]

theorem setMinedInner_refused {req : SetMinedSharedParams}
    (h : Refuses (c.setMinedInner key req).2) :
    (c.setMinedInner key req).1 = c ↔ ¬ c.Torn cfg key (.setMined req) := by
  unfold Cell.setMinedInner at h ⊢
  simp only [Cell.Torn]
  split at h
  · simp [*]
  rename_i r hrec
  simp only [hrec, Option.some.injEq, exists_eq_left']
  split at h
  · rename_i hfails
    have hsame := applyTransitionAt_refuses hfails h
    rw [hfails]
    exact iff_of_true ((with_mined_eq_iff hrec _).mpr hsame) fun hwrote => hwrote.2 hsame
  · rename_i hstate
    dsimp only at h ⊢
    split at h
    · rename_i heval
      have hfits : ¬ HeightFits req.currentBlockHeight req.blockHeightRetention :=
        fun hfits => evaluateDahFromRam_fits hfits heval
      simp [with_mined_eq_iff hrec, hstate, hfits]
    · exact h.elim

theorem setConflicting_keeps (req : SetConflictingRequest) :
    c.Keeps (c.setConflicting cfg key req) := by
  unfold Cell.setConflicting Cell.setConflictingDirect Cell.setConflictingSlow
  grind [Cell.Keeps, Refuses]

theorem isOk_of_refuses {result : Except SpendError α} (h : Refuses result) :
    result.isOk = false := by
  cases result with
  | ok => exact h.elim
  | error => rfl

def Unchanged (c : Cell) (cfg : StoreConfig) (key : TxKey) (op : EngineOp) : Prop :=
  c.next cfg key op = c ∧
    ∀ was, op.conflictingAfter was (c.perform cfg key op).2.isOk = was

/-- A refused operation leaves everything as it was exactly when it has not written before its
height turned out not to fit. -/
theorem refused_unchanged_iff (c : Cell) (cfg : StoreConfig) (key : TxKey) (op : EngineOp)
    (h : (c.perform cfg key op).2.Refused) : Unchanged c cfg key op ↔ ¬ c.Torn cfg key op := by
  cases op with
  | create | expirePreservationSetDah | pruneSlotIfSpentByChild | pruneSlot => exact h.elim
  | spend room req => exact (and_iff_left fun _ => rfl).trans (spend_refused h)
  | spendMulti room req => exact (and_iff_left fun _ => rfl).trans (spendMulti_refused h)
  | unspend req => exact (and_iff_left fun _ => rfl).trans (unspend_refused h)
  | setMined req => exact (and_iff_left fun _ => rfl).trans (setMinedInner_refused h)
  | markOnLongestChain req =>
    have hkeeps : c.Keeps (c.markOnLongestChain key req) := by
      unfold Cell.markOnLongestChain
      grind [Cell.Keeps, Refuses]
    exact iff_of_true ⟨hkeeps h, fun _ => rfl⟩ not_false
  | setConflicting req =>
    have hok : (c.perform cfg key (.setConflicting req)).2.isOk = false := isOk_of_refuses h
    exact iff_of_true ⟨setConflicting_keeps req h, fun _ => by rw [hok]; rfl⟩ not_false
  | setLocked value =>
    have hkeeps : c.Keeps (c.setLocked value) := by
      unfold Cell.setLocked
      grind [Cell.Keeps, Refuses]
    exact iff_of_true ⟨hkeeps h, fun _ => rfl⟩ not_false
  | preserveUntil height =>
    have hkeeps : c.Keeps (c.preserveUntil key height) := by
      unfold Cell.preserveUntil
      grind [Cell.Keeps, Refuses]
    exact iff_of_true ⟨hkeeps h, fun _ => rfl⟩ not_false
  | freeze offset hash =>
    have hkeeps : c.Keeps (c.freeze offset hash) := by
      unfold Cell.freeze
      grind [Cell.Keeps, Refuses, Cell.writeSlotBump]
    exact iff_of_true ⟨hkeeps h, fun _ => rfl⟩ not_false
  | unfreeze offset hash =>
    have hkeeps : c.Keeps (c.unfreeze offset hash) := by
      unfold Cell.unfreeze
      grind [Cell.Keeps, Refuses, Cell.writeSlotBump]
    exact iff_of_true ⟨hkeeps h, fun _ => rfl⟩ not_false
  | reassign req =>
    have hkeeps : c.Keeps (c.reassign key req) := by
      unfold Cell.reassign
      grind [Cell.Keeps, Refuses]
    exact iff_of_true ⟨hkeeps h, fun _ => rfl⟩ not_false

/-- An unspend of a missing transaction, at a height that does not fit, changes nothing. -/
theorem refused_unspend_missing :
    Unchanged (demoRun []) (demoConfig demoKey) demoKey (demoUnspend 1 (2 ^ 32 - 1)) :=
  (refused_unchanged_iff (demoRun []) (demoConfig demoKey) demoKey (demoUnspend 1 (2 ^ 32 - 1))
    trivial).mpr fun h => Bool.false_ne_true h.2

/-- An unspend whose height does not fit is refused with its slot cleared. -/
theorem refused_unspend_clears :
    let c := demoRun [demoCreate, demoSpend 1 20]
    (c.perform (demoConfig demoKey) demoKey (demoUnspend 1 (2 ^ 32 - 1))).2.Refused ∧
      ¬ Unchanged c (demoConfig demoKey) demoKey (demoUnspend 1 (2 ^ 32 - 1)) := by
  intro c
  refine ⟨trivial, fun h => ?_⟩
  have := congrArg (fun c => c.record.map fun r => r.slots.map (·.status)) h.1
  revert this
  decide

end TeraSlab.Ops
