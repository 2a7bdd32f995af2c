import TeraSlab.Ops.CellSpec
import TeraSlab.Ops.Checks
import TeraSlab.Ops.Engine

/-!
# The outcomes of the operations

One lemma per operation lists the ways it can leave the cell of a record: as it was, at the point
where it failed, or with a changed record written.
-/

namespace TeraSlab.Ops

open Foundations Index

variable {c c' : Cell} {cfg : StoreConfig} {key : TxKey} {r : Record}

def batchOf (r : Record) (req : SpendMultiRequest) : Cell.Batch :=
  .ofItems r req.currentBlockHeight req.spends

def frozenForm (s : UtxoSlot) : UtxoSlot :=
  if s.reassignmentCooldown = 0 then .newFrozen s.hash
  else .newFrozenWithCooldown s.hash s.reassignmentCooldown

def thawedForm (s : UtxoSlot) : UtxoSlot :=
  if s.reassignmentCooldown = 0 ∨ s.reassignmentCooldown = 2 ^ 32 - 1 then .newUnspent s.hash
  else .newUnspentWithCooldown s.hash s.reassignmentCooldown

def prunes (r : Record) (offset : Nat) (child : Hash) : Bool :=
  (r.slots[offset]?).any fun s => s.status = .spent && childTxid s.spendingData = child

/-- The evaluation of `r₁` succeeds, and `r₂` is committed with its patch. -/
def Commits (key : TxKey) (c : Cell) (r₁ r₂ : Record) (cur ret : Nat) (c' : Cell) : Prop :=
  ∃ entries signal patch, c.evaluate key r₁ cur ret = .ok (entries, signal, patch) ∧
    c' = c.commit key r₂ patch

/-- The evaluation fails, or the record has no room to move to. -/
def Hindered (cfg : StoreConfig) (key : TxKey) (c : Cell) (r : Record) (cur ret : Nat)
    (room : Room) : Prop :=
  (∃ e, c.evaluate key r cur ret = .error e) ∨ ∃ e, Cell.relocate cfg room = .error e

/-- The named slot is rewritten if it has the status, and otherwise nothing happens. -/
def RewritesSlot (c : Cell) (r : Record) (offset : Nat) (hash : Hash) (status : UtxoStatus)
    (f : UtxoSlot → UtxoSlot) (out : Cell × Except SpendError Nat) : Prop :=
  out.1 = c ∧ out.2.isOk = false ∨ ∃ s, r.slots[offset]? = some s ∧ s.hash = hash ∧
    s.status = status ∧ out.2.isOk = true ∧ out.1 = (c.writeSlotBump r offset (f s)).1

theorem RewritesSlot.of_isOk {offset : Nat} {hash : Hash} {status : UtxoStatus}
    {f : UtxoSlot → UtxoSlot} {out : Cell × Except SpendError Nat}
    (h : RewritesSlot c r offset hash status f out) (hok : out.2.isOk) :
    ∃ s, r.slots[offset]? = some s ∧ s.hash = hash ∧ s.status = status ∧
      out.1 = (c.writeSlotBump r offset (f s)).1 := by
  rcases h with ⟨-, hfail⟩ | ⟨s, hs, hhash, hstatus, -, hc'⟩
  · rw [hfail] at hok
    cases hok
  · exact ⟨s, hs, hhash, hstatus, hc'⟩

def SpendRequest.Checks (req : SpendRequest) (r : Record) (s : UtxoSlot)
    (kind : SpendKind) : Prop :=
  r.slots[req.offset]? = some s ∧ req.spendingData ≠ frozenMarker ∧
    Cell.checkSlot r s req.offset req.utxoHash req.spendingData req.currentBlockHeight = .ok kind

theorem prepareSpendMulti_ok {req : SpendMultiRequest} {batch : Cell.Batch}
    {entries : List BlockEntry} (h : c.prepareSpendMulti key req = .ok (r, batch, entries)) :
    c.record = some r ∧ batch = batchOf r req ∧
      (r.metadata.flags.conflicting = true → req.ignoreConflicting = true) := by
  unfold Cell.prepareSpendMulti at h
  split at h
  · cases h
  rename_i r₀ hr
  split at h
  · cases h
  rename_i hcheck
  split at h
  · cases h
  · obtain ⟨rfl, rfl, -⟩ : r₀ = r ∧ _ = batch ∧ _ := by simpa using h
    exact ⟨hr, rfl, checkRecord_ok hcheck⟩

theorem checkSpentCount_error {n : Nat} {e : SpendError}
    (h : Cell.checkSpentCount r n = .error e) : r.utxoCount < r.metadata.spentUtxos + n := by
  have hlt : r.utxoCount < 2 ^ 32 := r.slots_lt
  unfold Cell.checkSpentCount at h
  grind

theorem checkSpentCount_ok {n m : Nat} (h : Cell.checkSpentCount r n = .ok m) :
    m = r.metadata.spentUtxos + n := by
  unfold Cell.checkSpentCount at h
  grind

section

variable (hrec : c.record = some r)
include hrec

theorem spend_cases (cfg : StoreConfig) (key : TxKey) (room : Room) (req : SpendRequest) :
    let out := c.spend cfg key room req
    let r₁ := Cell.countSpent r ((r.metadata.spentUtxos + 1) % 2 ^ 32)
    let c₁ := c.markAllSpent r₁
    out.1 = c ∧ (out.2.isOk → ∃ s, req.Checks r s .repeated) ∨
    ∃ s, req.Checks r s .fresh ∧
      (out.2.isOk = false ∧ out.1 = c₁ ∧
          Hindered cfg key c₁ r₁ req.currentBlockHeight req.blockHeightRetention room ∨
        out.2.isOk = true ∧
          Commits key c₁ r₁ (r₁.writeSlot req.offset (.newSpent req.utxoHash req.spendingData))
            req.currentBlockHeight req.blockHeightRetention out.1) := by
  unfold Cell.spend
  split
  · exact .inl ⟨rfl, nofun⟩
  · rename_i r₀ hv
    obtain ⟨hrec₀, hd, -, s, hs, hcheck⟩ := validateSpend_ok hv
    cases hrec.symm.trans hrec₀
    refine .inr ⟨s, ⟨hs, hd, hcheck⟩, ?_⟩
    unfold Cell.applySpend
    dsimp only
    split
    · exact .inl ⟨rfl, rfl, .inl ⟨_, ‹_›⟩⟩
    rename_i patch heval
    split
    · exact .inl ⟨rfl, rfl, .inr ⟨_, ‹_›⟩⟩
    · exact .inr ⟨rfl, _, _, _, heval, rfl⟩
  · rename_i r₀ hv
    obtain ⟨hrec₀, hd, -, s, hs, hcheck⟩ := validateSpend_ok hv
    cases hrec.symm.trans hrec₀
    split <;> exact .inl ⟨rfl, fun _ => ⟨s, hs, hd, hcheck⟩⟩

theorem spendMulti_cases (cfg : StoreConfig) (key : TxKey) (room : Room)
    (req : SpendMultiRequest) :
    let out := c.spendMulti cfg key room req
    let written := r.writeSlots (batchOf r req).validSpends
    let newSpent := r.metadata.spentUtxos + (batchOf r req).spentCount
    let r₁ := Cell.countSpent r newSpent
    let c₁ := if cfg.logStructured then c else { c with record := some written }
    let c₂ := c₁.markAllSpent r₁
    out.1 = c ∧ (out.2.isOk → (batchOf r req).spentCount = 0) ∨
    (∃ entries, c.prepareSpendMulti key req = .ok (r, batchOf r req, entries)) ∧
      (batchOf r req).spentCount ≠ 0 ∧
      (out.2.isOk = false ∧ (out.1 = c₁ ∧ r.utxoCount < newSpent ∨ out.1 = c₂ ∧
          Hindered cfg key c₂ r₁ req.currentBlockHeight req.blockHeightRetention room) ∨
        out.2.isOk = true ∧ Commits key c₂ r₁ (Cell.countSpent written newSpent)
          req.currentBlockHeight req.blockHeightRetention out.1) := by
  unfold Cell.spendMulti
  split
  · exact .inl ⟨rfl, nofun⟩
  rename_i r₀ batch entries hv
  obtain ⟨hrec₀, rfl, -⟩ := prepareSpendMulti_ok hv
  cases hrec.symm.trans hrec₀
  unfold Cell.applyLocked
  dsimp only
  by_cases hzero : (batchOf r req).spentCount = 0
  · rw [if_pos hzero]
    exact .inl ⟨rfl, fun _ => hzero⟩
  rw [if_neg hzero]
  refine .inr ⟨⟨entries, hv⟩, hzero, ?_⟩
  split
  · exact .inl ⟨rfl, .inl ⟨rfl, checkSpentCount_error ‹_›⟩⟩
  rename_i newSpent hnew
  obtain rfl := checkSpentCount_ok hnew
  split
  · exact .inl ⟨rfl, .inr ⟨rfl, .inl ⟨_, ‹_›⟩⟩⟩
  rename_i patch heval
  split
  · exact .inl ⟨rfl, .inr ⟨rfl, .inr ⟨_, ‹_›⟩⟩⟩
  · exact .inr ⟨rfl, _, _, _, heval, rfl⟩

theorem unspend_cases (key : TxKey) (req : UnspendRequest) :
    let out := c.unspend key req
    let written := r.writeSlot req.offset (.newUnspent req.utxoHash)
    let r₁ := Cell.countSpent written (r.metadata.spentUtxos - 1)
    let c₁ : Cell :=
      { c with record := some written, mined := setAllSpentAt c.mined r.minedSlot false }
    out.1 = c ∧ out.2.isOk = false ∨ ∃ s, c.validateUnspend req = .ok (r, s) ∧
      (Cell.ownsSpend s req.spendingData = true ∧ r.metadata.spentUtxos ≠ 0 ∧
          (out.2.isOk = false ∧ out.1 = c₁ ∧
              (∃ e, c₁.evaluate key r₁ req.currentBlockHeight req.blockHeightRetention = .error e) ∨
            out.2.isOk = true ∧
              Commits key c₁ r₁ r₁ req.currentBlockHeight req.blockHeightRetention out.1) ∨
        Cell.ownsSpend s req.spendingData = false ∧ out.2.isOk = true ∧
          ∃ entries signal patch, c.evaluate key r req.currentBlockHeight
              req.blockHeightRetention = .ok (entries, signal, patch) ∧
            out.1 = if patchedDah r.metadata.deleteAtHeight patch ≠ r.metadata.deleteAtHeight then
              c.commit key r patch else c) := by
  unfold Cell.unspend
  split
  · exact .inl ⟨rfl, rfl⟩
  rename_i r₀ s hv
  obtain ⟨hrec₀, -⟩ := validateUnspend_ok hv
  cases hrec.symm.trans hrec₀
  by_cases howns : Cell.ownsSpend s req.spendingData
  · rw [if_pos howns]
    unfold Cell.clearSpend
    by_cases hzero : r.metadata.spentUtxos = 0
    · rw [if_pos hzero]
      exact .inl ⟨rfl, rfl⟩
    rw [if_neg hzero]
    refine .inr ⟨s, hv, .inl ⟨howns, hzero, ?_⟩⟩
    dsimp only
    split
    · exact .inl ⟨rfl, rfl, _, ‹_›⟩
    · exact .inr ⟨rfl, _, _, _, ‹_›, rfl⟩
  · rw [if_neg howns]
    unfold Cell.keepSpend
    split
    · exact .inl ⟨rfl, rfl⟩
    · exact .inr ⟨s, hv, .inr ⟨Bool.eq_false_iff.mpr howns, rfl, _, _, _, ‹_›, rfl⟩⟩

theorem pruneSlotIfSpentByChild_cases (key : TxKey) (room : Room) (offset : Nat) (child : Hash) :
    let out := c.pruneSlotIfSpentByChild key room offset child
    out.1 = c ∧ prunes r offset child = false ∨
    ∃ s, r.slots[offset]? = some s ∧ s.status = .spent ∧ prunes r offset child = true ∧
      let written := r.writeSlot offset { s with status := .pruned }
      let r₁ := Cell.countPruned written
      let c₁ : Cell :=
        { c with record := some written, mined := setAllSpentAt c.mined r.minedSlot false }
      (out.2.isOk = false ∧ out.1 = { c with record := some written } ∧
          (r.metadata.spentUtxos = 0 ∨ 2 ^ 32 ≤ r.metadata.prunedUtxos + 1) ∨
        r.metadata.spentUtxos ≠ 0 ∧ (out.2.isOk = false ∧ out.1 = c₁ ∧
            (∃ e, c₁.evaluate key r₁ 0 1 = .error e) ∨
          out.2.isOk = true ∧ ∃ entries signal patch,
            c₁.evaluate key r₁ 0 1 = .ok (entries, signal, patch) ∧
            out.1 = (c₁.commit key r₁ (patch.filter
              (·.newDeleteAtHeight < r.metadata.deleteAtHeight))).appendDeletedChild
                room child)) := by
  simp only [Cell.pruneSlotIfSpentByChild, hrec]
  split
  · exact .inl ⟨rfl, by simp [prunes, *]⟩
  rename_i s hs
  by_cases hmiss : s.status ≠ .spent ∨ childTxid s.spendingData ≠ child
  · rw [if_pos hmiss]
    refine .inl ⟨rfl, ?_⟩
    simp only [prunes, hs, Option.any_some]
    grind
  rw [if_neg hmiss]
  simp only [not_or, not_not] at hmiss
  refine .inr ⟨s, hs, hmiss.1, by simp [prunes, hs, hmiss], ?_⟩
  unfold Cell.pruneSpent
  dsimp only
  split_ifs with hzero hmax
  · exact .inl ⟨rfl, rfl, .inl hzero⟩
  · exact .inl ⟨rfl, rfl, .inr hmax⟩
  · refine .inr ⟨hzero, ?_⟩
    split
    · exact .inl ⟨rfl, rfl, _, ‹_›⟩
    · exact .inr ⟨rfl, _, _, _, ‹_›, rfl⟩

theorem freeze_cases (offset : Nat) (utxoHash : Hash) :
    RewritesSlot c r offset utxoHash .unspent frozenForm (c.freeze offset utxoHash) := by
  simp only [RewritesSlot, Cell.freeze, hrec]
  split
  · exact .inl ⟨rfl, rfl⟩
  rename_i s hfor
  obtain ⟨hs, rfl⟩ := slotFor_ok hfor
  split
  · exact .inl ⟨rfl, rfl⟩
  · exact .inl ⟨rfl, rfl⟩
  · exact .inr ⟨s, hs, rfl, ‹_›, rfl, rfl⟩
  · exact .inl ⟨rfl, rfl⟩

theorem unfreeze_cases (offset : Nat) (utxoHash : Hash) :
    RewritesSlot c r offset utxoHash .frozen thawedForm (c.unfreeze offset utxoHash) := by
  simp only [RewritesSlot, Cell.unfreeze, hrec]
  split
  · exact .inl ⟨rfl, rfl⟩
  rename_i s hfor
  obtain ⟨hs, rfl⟩ := slotFor_ok hfor
  by_cases hstatus : s.status = .frozen
  · rw [if_neg (not_not.mpr hstatus)]
    exact .inr ⟨s, hs, rfl, hstatus, rfl, rfl⟩
  · rw [if_pos hstatus]
    exact .inl ⟨rfl, rfl⟩

end

end TeraSlab.Ops
