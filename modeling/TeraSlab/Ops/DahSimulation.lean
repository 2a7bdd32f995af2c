import TeraSlab.Ops.SlotCounters
import TeraSlab.Ops.DahModel

/-!
# Operations as events on deletion heights

An operation that succeeds, with a retention, is an event on the view the sweep has of its record.
This holds as long as the caches of the mined index agree with the record, which every such
operation preserves.
-/

namespace TeraSlab.Ops

open Foundations Index MinedShard

variable {c c' : Cell} {cfg : StoreConfig} {key : TxKey} {r r' : Record} {slot : Nat}
  {st st' : MinedTransitionState} {t : Traits}

/-! ### The view of a record -/

def traitsOf (r : Record) (st : MinedTransitionState) : Traits where
  conflicting := r.metadata.flags.conflicting
  reassigned := r.metadata.flags.reassigned
  allSpent := r.allSpent
  hasBlocks := !st.blockEntries.isEmpty
  unminedSince := st.unminedSince

def viewOf (c : Cell) (r : Record) (st : MinedTransitionState) : DahView where
  traits := traitsOf r st
  deleteAtHeight := r.metadata.deleteAtHeight
  preserveUntil := r.metadata.preserveUntil
  index := c.dahHeight
  preserveIndex := c.preserveHeight

/-- The mined index agrees with the record about what it caches of it. -/
structure Coherent (key : TxKey) (c : Cell) (r : Record) (slot : Nat) (st : MinedTransitionState) :
    Prop where
  record : c.record = some r
  backed : Backed c.mined key r slot st
  agrees : CacheAgrees r st
  allSpent : st.allSpent = r.allSpent
  preserved : r.metadata.preserveUntil ≠ 0 → r.metadata.deleteAtHeight = 0

/-- The operation takes a record from the sweep that may have been in its reach. -/
def evicts (c : Cell) (r : Record) (t : Traits) : EngineOp → Bool
  | .unspend req => !t.conflicting && c.clears req
  | .pruneSlotIfSpentByChild _ offset child => !t.conflicting && prunes r offset child
  | .markOnLongestChain req =>
    !t.conflicting && !req.onLongestChain && req.currentBlockHeight ≠ 0
  | .setConflicting req => !req.value && !t.ready
  | .preserveUntil height => height ≠ 0
  | _ => false

/-- The operation has a retention, if it takes one, and keeps the counters exact. -/
def EngineOp.retains : EngineOp → Bool
  | .spend _ req => req.blockHeightRetention ≠ 0
  | .spendMulti _ req => req.blockHeightRetention ≠ 0
  | .unspend req => req.blockHeightRetention ≠ 0
  | .setMined req => req.blockHeightRetention ≠ 0
  | .markOnLongestChain req => req.blockHeightRetention ≠ 0
  | .setConflicting req => req.blockHeightRetention ≠ 0
  | .expirePreservationSetDah _ ret => ret ≠ 0
  | .pruneSlot _ => false
  | _ => true

theorem flipsFrom_of_retains {op : EngineOp} (h : op.retains) (r : Record) :
    flipsFrom r op = none := by
  cases op with
  | pruneSlot offset => cases h
  | _ => rfl

inductive Triggers (c : Cell) (r : Record) (t : Traits) : EngineOp → DahEvent → Prop where
  | idle {op : EngineOp} (h : evicts c r t op = false)
      (hop : ∀ req, op ≠ .markOnLongestChain req) : Triggers c r t op .idle
  | spend {room : Room} {req : SpendRequest} (allSpent : Bool) (h : t.allSpent = false) :
      Triggers c r t (.spend room req)
        (.evaluate { t with allSpent } (req.currentBlockHeight + req.blockHeightRetention))
  | spendMulti {room : Room} {req : SpendMultiRequest} (allSpent : Bool)
      (h : t.allSpent = false) :
      Triggers c r t (.spendMulti room req)
        (.evaluate { t with allSpent } (req.currentBlockHeight + req.blockHeightRetention))
  | unspend {req : UnspendRequest} (h : c.clears req) :
      Triggers c r t (.unspend req)
        (.evaluate { t with allSpent := false }
          (req.currentBlockHeight + req.blockHeightRetention))
  | keep {req : UnspendRequest} (h : c.clears req = false) :
      Triggers c r t (.unspend req)
        (.evaluate t (req.currentBlockHeight + req.blockHeightRetention))
  | setMined {req : SetMinedSharedParams} (hasBlocks : Bool) (unminedSince : Nat) :
      Triggers c r t (.setMined req)
        (.mine { t with hasBlocks, unminedSince }
          (req.currentBlockHeight + req.blockHeightRetention))
  | mark {req : MarkOnLongestChainRequest} :
      Triggers c r t (.markOnLongestChain req)
        (.evaluate
          { t with unminedSince := if req.onLongestChain then 0 else req.currentBlockHeight }
          (req.currentBlockHeight + req.blockHeightRetention))
  | setConflicting {req : SetConflictingRequest} :
      Triggers c r t (.setConflicting req)
        (.evaluate { t with conflicting := req.value }
          (req.currentBlockHeight + req.blockHeightRetention))
  | lock : Triggers c r t (.setLocked true) .lock
  | preserve {height : Nat} : Triggers c r t (.preserveUntil height) (.preserve height)
  | expire {cur ret : Nat} (h : r.metadata.preserveUntil ≠ 0) :
      Triggers c r t (.expirePreservationSetDah cur ret) (.expire (cur + ret))
  | prune {room : Room} {offset : Nat} {child : Hash} (h : prunes r offset child) :
      Triggers c r t (.pruneSlotIfSpentByChild room offset child) .prune
  | reassign {req : ReassignRequest} (hconf : t.conflicting = false)
      (hspent : t.allSpent = false) : Triggers c r t (.reassign req) .reassign

/-- The operation is an event on the view of the record, and the caches agree afterwards. -/
def Simulates (key : TxKey) (slot : Nat) (c : Cell) (r : Record) (st : MinedTransitionState)
    (op : EngineOp) (c' : Cell) : Prop :=
  ∃ r' st' e, Triggers c r (traitsOf r st) op e ∧ Coherent key c' r' slot st' ∧
    viewOf c' r' st' = (viewOf c r st).step e

/-! ### Cached flags -/

theorem deviceDeFlags_bits (flags : TxFlags) (preserved : Bool) :
    decide (deviceDeFlags flags preserved &&& minedConflicting ≠ 0) = flags.conflicting ∧
      decide (deviceDeFlags flags preserved &&& minedReassigned ≠ 0) = flags.reassigned ∧
      decide (deviceDeFlags flags preserved &&& minedPreserved ≠ 0) = preserved := by
  unfold deviceDeFlags
  cases flags.external <;> cases flags.conflicting <;> cases flags.lastSpentAll <;>
    cases flags.reassigned <;> cases preserved <;> decide

section

variable (h : CacheAgrees r st)
include h

/-- A cached flag other than `lastSpentAll` is the footer's. -/
theorem CacheAgrees.and (bit : Flags) (hbit : minedDeDeviceMask &&& bit = bit) :
    st.deFlags &&& bit =
      deviceDeFlags r.metadata.flags (r.metadata.preserveUntil ≠ 0) &&& bit := by
  rw [← hbit, ← BitVec.and_assoc, ← BitVec.and_assoc, h]

theorem CacheAgrees.conflicting :
    (txFlagsFromDeFlags st.deFlags).conflicting = r.metadata.flags.conflicting := by
  simp only [txFlagsFromDeFlags, h.and minedConflicting (by decide)]
  exact (deviceDeFlags_bits _ _).1

theorem CacheAgrees.reassigned :
    (txFlagsFromDeFlags st.deFlags).reassigned = r.metadata.flags.reassigned := by
  simp only [txFlagsFromDeFlags, h.and minedReassigned (by decide)]
  exact (deviceDeFlags_bits _ _).2.1

theorem CacheAgrees.preserved :
    decide (st.deFlags &&& minedPreserved ≠ 0) = decide (r.metadata.preserveUntil ≠ 0) := by
  simp only [h.and minedPreserved (by decide)]
  exact (deviceDeFlags_bits _ _).2.2

end

/-! ### Operations that evaluate the footer -/

/-- The heights of the footer and the entries of the indexes are the same. -/
structure SameHeights (c : Cell) (r : Record) (c' : Cell) (r' : Record) : Prop where
  deleteAtHeight : r'.metadata.deleteAtHeight = r.metadata.deleteAtHeight
  preserveUntil : r'.metadata.preserveUntil = r.metadata.preserveUntil
  dahHeight : c'.dahHeight = c.dahHeight
  preserveHeight : c'.preserveHeight = c.preserveHeight

variable {patch : Option DahPatch} {offset : Nat}

/-- A commit of a changed record moves the footer and the index to the patched height. -/
theorem commit_coherent (st : MinedTransitionState)
    (hb : Backed c'.mined key r' slot st') (hall : st'.allSpent = r'.allSpent)
    (hsame : SameHeights c r c' r')
    (hpres : r.metadata.preserveUntil ≠ 0 → patchedDah r'.metadata.deleteAtHeight patch = 0) :
    ∃ r'' st'', Coherent key (c'.commit key r' patch) r'' slot st'' ∧
      viewOf (c'.commit key r' patch) r'' st'' =
        (viewOf c r st).moveTo (traitsOf r' st') (patchedDah r'.metadata.deleteAtHeight patch) := by
  obtain ⟨l, r'', de, hr'', hrec, -, hback, hagree, hdah, hpreserve⟩ := commit_spec hb patch
  refine ⟨r'', { st' with deFlags := de }, ⟨hrec, hback, hagree, ?_, ?_⟩, ?_⟩
  · rw [hr'']
    exact hall
  · rw [hr'']
    exact fun hp => hpres (hsame.preserveUntil ▸ hp)
  · rw [viewOf, hdah, hpreserve, hr'', hsame.dahHeight, hsame.preserveHeight]
    simp only [DahView.moveTo, viewOf, ← hsame.deleteAtHeight, ← hsame.preserveUntil]
    rfl

theorem evaluate_settle {cur ret : Nat} {entries : List BlockEntry}
    {signal : Signal} (st : MinedTransitionState) (hsame : SameHeights c r c' r')
    (hb : Backed c'.mined key r' slot st') (hret : ret ≠ 0)
    (heval : c'.evaluate key r' cur ret = .ok (entries, signal, patch)) :
    patchedDah r.metadata.deleteAtHeight patch =
      (viewOf c r st).settle (traitsOf r' st') r.metadata.deleteAtHeight (cur + ret) := by
  have hpatch := evaluate_ok hb hret heval
  rw [hsame.preserveUntil, hsame.deleteAtHeight] at hpatch
  exact hpatch

/-- A commit of an evaluated record is an evaluation of the view. -/
theorem Coherent.commit {newDah : Nat} (h : Coherent key c r slot st)
    (hb : Backed c'.mined key r' slot st') (hall : st'.allSpent = r'.allSpent)
    (hsame : SameHeights c r c' r') (ht : traitsOf r' st' = t)
    (hpatch : patchedDah r.metadata.deleteAtHeight patch =
      (viewOf c r st).settle t r.metadata.deleteAtHeight newDah) :
    ∃ r'' st'', Coherent key (c'.commit key r' patch) r'' slot st'' ∧
      viewOf (c'.commit key r' patch) r'' st'' = (viewOf c r st).step (.evaluate t newDah) := by
  have hpres : r.metadata.preserveUntil ≠ 0 →
      patchedDah r'.metadata.deleteAtHeight patch = 0 := by
    intro hp
    rw [hsame.deleteAtHeight, hpatch, DahView.settle]
    exact (if_pos hp).trans (h.preserved hp)
  obtain ⟨r'', st'', hcoh, hview⟩ := commit_coherent st hb hall hsame hpres
  refine ⟨r'', st'', hcoh, hview.trans ?_⟩
  rw [ht, hsame.deleteAtHeight, hpatch]
  rfl

theorem Counted.not_allSpent {s : UtxoSlot} (h : Counted r 0 0) (hslot : r.slots[offset]? = some s)
    (hne : s.status ≠ .spent) : r.allSpent = false := by
  have hpos := countStatus_pos hslot
  have hle := countStatus_add_le r hne.symm
  have hspent := h.spent
  simp only [Record.allSpent, decide_eq_false_iff_not]
  omega

theorem markAllSpent_backed (hb : Backed c.mined key r slot st) (r' : Record)
    (hslot : r'.minedSlot = r.minedSlot) (hall : st.allSpent = false) :
    Backed (c.markAllSpent r').mined key r' slot { st with allSpent := r'.allSpent } := by
  have hb' : Backed c.mined key r' slot st := ⟨hslot ▸ hb.minedSlot, hb.view⟩
  unfold Cell.markAllSpent
  split_ifs with h
  · rw [h]
    exact (setAllSpentAt_backed hb' true).2
  · rw [Bool.eq_false_iff.mpr h, ← hall]
    exact hb'

theorem markAllSpent_dahHeight (c : Cell) (r : Record) :
    (c.markAllSpent r).dahHeight = c.dahHeight ∧
      (c.markAllSpent r).preserveHeight = c.preserveHeight := by
  unfold Cell.markAllSpent
  split_ifs <;> exact ⟨rfl, rfl⟩

theorem Counted.not_allSpent_of_batch (h : Counted r 0 0) {req : SpendMultiRequest}
    (hbatch : (batchOf r req).spentCount ≠ 0) : r.allSpent = false := by
  have hle := h.batch_le req
  simp only [Record.allSpent, decide_eq_false_iff_not]
  omega

/-- Taking the mark away is right once a spent output is gone from the counter. -/
theorem unmark_backed (r' : Record) (hb : Backed c.mined key r slot st)
    (hcount : Counted r 0 0) (h0 : r.metadata.spentUtxos ≠ 0) (hslot : r'.minedSlot = r.minedSlot)
    (hslots : r'.utxoCount = r.utxoCount)
    (hspent : r'.metadata.spentUtxos = r.metadata.spentUtxos - 1) :
    r'.allSpent = false ∧ Backed (setAllSpentAt c.mined r.minedSlot false) key r' slot
      { st with allSpent := false } := by
  refine ⟨?_, hslot.trans hb.minedSlot, (setAllSpentAt_backed hb false).2.view⟩
  have hle := hcount.spent_le
  simp only [Record.allSpent, decide_eq_false_iff_not]
  omega

/-- The traits depend on the footer and the number of slots. -/
theorem traitsOf_congr (hmeta : r'.metadata = r.metadata) (hcount : r'.utxoCount = r.utxoCount)
    (st : MinedTransitionState) : traitsOf r' st = traitsOf r st := by
  simp only [traitsOf, Record.allSpent, hmeta, hcount]

theorem patchedDah_filter (existing : Nat) (patch : Option DahPatch) :
    patchedDah existing (patch.filter (·.newDeleteAtHeight < existing)) =
      min existing (patchedDah existing patch) := by
  cases patch with
  | none => simp [patchedDah]
  | some patch =>
    by_cases h : patch.newDeleteAtHeight < existing
    · simp [patchedDah, Option.filter, h, le_of_lt h]
    · simp [patchedDah, Option.filter, h, not_lt.mp h]

section

variable (h : Coherent key c r slot st)
include h

/-- An evaluated record that is committed with other slots is an evaluation of the view. -/
theorem Coherent.commits {c₁ : Cell} {r₁ r₂ : Record} {st₁ : MinedTransitionState} {cur ret : Nat}
    (hc : Commits key c₁ r₁ r₂ cur ret c') (hret : ret ≠ 0) (hb : Backed c₁.mined key r₁ slot st₁)
    (hall : st₁.allSpent = r₁.allSpent) (hsame : SameHeights c r c₁ r₁)
    (hmeta : r₂.metadata = r₁.metadata) (hslot : r₂.minedSlot = r₁.minedSlot)
    (hslots : r₂.utxoCount = r₁.utxoCount) :
    ∃ r' st', Coherent key c' r' slot st' ∧
      viewOf c' r' st' = (viewOf c r st).step (.evaluate (traitsOf r₁ st₁) (cur + ret)) := by
  obtain ⟨_, _, patch, heval, rfl⟩ := hc
  have htraits := fun st => traitsOf_congr hmeta hslots st
  exact h.commit ⟨hslot.trans hb.minedSlot, hb.view⟩
    (hall.trans (congrArg Traits.allSpent (htraits st)).symm)
    ⟨hmeta ▸ hsame.1, hmeta ▸ hsame.2, hsame.3, hsame.4⟩ (htraits _)
    (evaluate_settle st hsame hb hret heval)

theorem spend_simulates (hcount : Counted r 0 0) {room : Room}
    {req : SpendRequest} (hret : req.blockHeightRetention ≠ 0)
    (hok : (c.spend cfg key room req).2.isOk) :
    Simulates key slot c r st (.spend room req) (c.spend cfg key room req).1 := by
  rcases spend_cases h.record cfg key room req with
    ⟨hsame, -⟩ | ⟨s, ⟨hs, -, hcheck⟩, ⟨hfail, -⟩ | ⟨-, hcommit⟩⟩
  · rw [hsame]
    exact ⟨r, st, .idle, .idle rfl nofun, h, rfl⟩
  · rw [hfail] at hok
    cases hok
  · have hnot : r.allSpent = false := hcount.not_allSpent hs (by simp [checkSlot_fresh hcheck])
    have hb := markAllSpent_backed h.backed
      (Cell.countSpent r ((r.metadata.spentUtxos + 1) % 2 ^ 32)) rfl (h.allSpent.trans hnot)
    obtain ⟨hindex, hpindex⟩ := markAllSpent_dahHeight c
      (Cell.countSpent r ((r.metadata.spentUtxos + 1) % 2 ^ 32))
    obtain ⟨r', st', hcoh, hview⟩ := h.commits hcommit hret hb rfl ⟨rfl, rfl, hindex, hpindex⟩ rfl
      rfl (Record.utxoCount_writeSlot ..)
    exact ⟨r', st', _, .spend _ hnot, hcoh, hview⟩

theorem spendMulti_simulates (hcount : Counted r 0 0) {room : Room}
    {req : SpendMultiRequest} (hret : req.blockHeightRetention ≠ 0)
    (hok : (c.spendMulti cfg key room req).2.isOk) :
    Simulates key slot c r st (.spendMulti room req) (c.spendMulti cfg key room req).1 := by
  rcases spendMulti_cases h.record cfg key room req with
    ⟨hsame, -⟩ | ⟨-, hzero, ⟨hfail, -⟩ | ⟨-, hcommit⟩⟩
  · rw [hsame]
    exact ⟨r, st, .idle, .idle rfl nofun, h, rfl⟩
  · rw [hfail] at hok
    cases hok
  have hwritten := writeSlots_metadata r (batchOf r req).validSpends
  have hnot := hcount.not_allSpent_of_batch hzero
  generalize r.writeSlots (batchOf r req).validSpends = written at hwritten hcommit
  generalize hc₁ : (if cfg.logStructured then c else { c with record := some written }) = c₁
    at hcommit
  have hb₁ : Backed c₁.mined key r slot st := by
    rw [← hc₁]
    split_ifs <;> exact h.backed
  generalize hr₂ : Cell.countSpent r (r.metadata.spentUtxos + (batchOf r req).spentCount) = r₂
    at hcommit
  have hb₂ := markAllSpent_backed hb₁ r₂ (hr₂ ▸ rfl) (h.allSpent.trans hnot)
  have hsame : SameHeights c r (c₁.markAllSpent r₂) r₂ := by
    obtain ⟨hindex, hpindex⟩ := markAllSpent_dahHeight c₁ r₂
    refine ⟨hr₂ ▸ rfl, hr₂ ▸ rfl, hindex.trans ?_, hpindex.trans ?_⟩ <;>
      (rw [← hc₁]; split_ifs <;> rfl)
  subst hr₂
  obtain ⟨r', st', hcoh, hview⟩ := h.commits hcommit hret hb₂ rfl hsame
    (by simp only [Cell.countSpent, hwritten.1]) hwritten.2.1 hwritten.2.2
  exact ⟨r', st', _, .spendMulti _ hnot, hcoh, hview⟩

theorem unspend_simulates (hcount : Counted r 0 0)
    {req : UnspendRequest} (hret : req.blockHeightRetention ≠ 0)
    (hok : (c.unspend key req).2.isOk) :
    Simulates key slot c r st (.unspend req) (c.unspend key req).1 := by
  have hsame : SameHeights c r c r := ⟨rfl, rfl, rfl, rfl⟩
  rcases unspend_cases h.record key req with ⟨-, hfail⟩ | ⟨s, hv,
    ⟨howns, h0, ⟨hfail, -⟩ | ⟨-, hcommit⟩⟩ | ⟨howns, -, _, _, patch, heval, hc'⟩⟩
  · rw [hfail] at hok
    cases hok
  · rw [hfail] at hok
    cases hok
  · generalize hr₁ : Cell.countSpent (r.writeSlot req.offset (.newUnspent req.utxoHash))
      (r.metadata.spentUtxos - 1) = r₁ at hcommit
    obtain ⟨hall, hb₁⟩ := unmark_backed r₁ h.backed hcount h0 (hr₁ ▸ rfl)
      (hr₁ ▸ Record.utxoCount_writeSlot ..) (hr₁ ▸ rfl)
    obtain ⟨r', st', hcoh, hview⟩ := h.commits hcommit hret hb₁ hall.symm
      ⟨hr₁ ▸ rfl, hr₁ ▸ rfl, rfl, rfl⟩ rfl rfl rfl
    refine ⟨r', st', _, .unspend (by simp [Cell.clears, hv, howns, h0]), hcoh, hview.trans ?_⟩
    rw [traitsOf, hall, ← hr₁]
    rfl
  · have hclears : c.clears req = false := by simp [Cell.clears, hv, howns]
    have hpatch := evaluate_settle st hsame h.backed hret heval
    rw [hc']
    split_ifs with hmoved
    · obtain ⟨r', st', hcoh, hview⟩ := h.commit h.backed h.allSpent hsame rfl hpatch
      exact ⟨r', st', _, .keep hclears, hcoh, hview⟩
    -- The height stays, so that the evaluation changes nothing.
    refine ⟨r, st, _, .keep hclears, h, ?_⟩
    rw [not_not.mp hmoved] at hpatch
    simp only [DahView.step, DahView.moveTo, viewOf] at hpatch ⊢
    rw [← hpatch, updateHeightIndex_self]

theorem Coherent.setLongestChain (onLongestChain : Bool) (currentHeight : Nat) :
    Coherent key { c with
        mined := Cell.setLongestChainAt c.mined key r.minedSlot onLongestChain
          currentHeight } r slot
      { st with unminedSince := if onLongestChain then 0 else currentHeight } :=
  ⟨h.record, (setLongestChainAt_backed h.backed onLongestChain currentHeight).2, h.agrees,
    h.allSpent, h.preserved⟩

theorem markOnLongestChain_simulates {req : MarkOnLongestChainRequest}
    (hret : req.blockHeightRetention ≠ 0)
    (hok : (c.markOnLongestChain key req).2.isOk) :
    Simulates key slot c r st (.markOnLongestChain req) (c.markOnLongestChain key req).1 := by
  simp only [Cell.markOnLongestChain, h.record] at hok ⊢
  generalize hr₁ : Cell.withUnminedSince r
    (if req.onLongestChain then 0 else req.currentBlockHeight) = r₁ at hok ⊢
  have hb₁ : Backed c.mined key r₁ slot st := ⟨hr₁ ▸ h.backed.minedSlot, h.backed.view⟩
  have hsame : SameHeights c r c r₁ := ⟨hr₁ ▸ rfl, hr₁ ▸ rfl, rfl, rfl⟩
  rw [minedBlockEntriesAt_backed hb₁] at hok ⊢
  dsimp only at hok ⊢
  split at hok
  · cases hok
  rename_i patch heval
  have hpatch := evaluateDeleteAtHeight_ok hret heval
  have hpres : r.metadata.preserveUntil ≠ 0 →
      patchedDah r₁.metadata.deleteAtHeight patch = 0 := by
    intro hp
    rw [hpatch, hsame.preserveUntil, hsame.deleteAtHeight, if_pos hp]
    exact h.preserved hp
  obtain ⟨r', st', hcoh, hview⟩ :=
    commit_coherent st hb₁ (h.allSpent.trans (hr₁ ▸ rfl)) hsame hpres
  have hcoh' := hcoh.setLongestChain req.onLongestChain req.currentBlockHeight
  rw [hcoh.backed.minedSlot, ← hb₁.minedSlot] at hcoh'
  refine ⟨r', _, _, .mark, hcoh', ?_⟩
  rw [hpatch, hsame.preserveUntil, hsame.deleteAtHeight] at hview
  have htraits := congrArg (fun v : DahView => { v with
    traits := { v.traits with
      unminedSince := if req.onLongestChain then 0 else req.currentBlockHeight } }) hview
  refine Eq.trans ?_ (htraits.trans ?_)
  · rfl
  · rw [← hr₁]
    rfl

/-- With direct access a preserved record keeps no height, as it had none. -/
theorem setConflictingDirect_simulates {req : SetConflictingRequest}
    (hret : req.blockHeightRetention ≠ 0)
    (hok : (c.setConflictingDirect key r st.blockEntries st.unminedSince req).2.isOk) :
    Simulates key slot c r st (.setConflicting req)
      (c.setConflictingDirect key r st.blockEntries st.unminedSince req).1 := by
  unfold Cell.setConflictingDirect at hok ⊢
  dsimp only at hok ⊢
  split at hok
  · cases hok
  rename_i signal patch heval
  generalize hold : (if decide (r.metadata.preserveUntil ≠ 0) then 0
    else r.metadata.deleteAtHeight) = old at hok ⊢
  have hold' : old = r.metadata.deleteAtHeight := by
    rw [← hold]
    split_ifs with hp
    · exact (h.preserved (of_decide_eq_true hp)).symm
    · rfl
  have hpatch : patchedDah old patch = (viewOf c r st).settle
      { traitsOf r st with conflicting := req.value } r.metadata.deleteAtHeight
      (req.currentBlockHeight + req.blockHeightRetention) := by
    rw [hold']
    by_cases hp : r.metadata.preserveUntil = 0
    · have hdah := evaluateDahFromRam_ok hret heval
      simp only [hp, ne_eq, not_true_eq_false, decide_false, Bool.false_eq_true, if_false] at hdah
      have hblocks : decide (0 < if st.blockEntries.isEmpty then 0 else 1) =
          !st.blockEntries.isEmpty := by
        cases st.blockEntries.isEmpty <;> rfl
      rw [hdah, DahView.settle_of_not_preserved _ _ _ hp, hblocks]
      rfl
    · rw [DahView.settle_of_preserved _ _ _ hp]
      simp only [evaluateDahCached, evaluateDahFromRam, if_neg hret, hp, ne_eq, not_false_eq_true,
        decide_true, if_true, Except.ok.injEq, Prod.mk.injEq] at heval
      rw [← heval.2]
      rfl
  generalize hr₂ : ((c.sourceLsa key (Cell.withConflicting r req.value)).settled
    (patchedDah old patch) ((patch.map (·.lastSpentAll)).getD (c.sourceLsa key
      (Cell.withConflicting r req.value)).metadata.flags.lastSpentAll)) = r₂
  have hslot : r₂.minedSlot = r.minedSlot := hr₂ ▸ rfl
  obtain ⟨-, de, hb, hagree⟩ := lsaMirror_backed h.backed hslot patch
  refine ⟨r₂, _, _, .setConflicting, ⟨rfl, hb, hagree, ?_, ?_⟩, ?_⟩
  · rw [← hr₂]
    exact h.allSpent
  · intro hp
    replace hp : r.metadata.preserveUntil ≠ 0 := by rwa [← hr₂] at hp
    have hzero : patchedDah old patch = 0 := by
      rw [hpatch, DahView.settle_of_preserved _ _ _ hp, h.preserved hp]
    rw [← hr₂]
    exact hzero
  · refine Eq.trans ?_ (congrArg ((viewOf c r st).moveTo _) hpatch)
    rw [viewOf, ← hr₂, hold']
    rfl

theorem setConflicting_simulates {req : SetConflictingRequest}
    (hret : req.blockHeightRetention ≠ 0) (hok : (c.setConflicting cfg key req).2.isOk) :
    Simulates key slot c r st (.setConflicting req) (c.setConflicting cfg key req).1 := by
  simp only [Cell.setConflicting, h.record, minedBlockEntriesAt_backed h.backed] at hok ⊢
  split_ifs at hok ⊢
  · exact setConflictingDirect_simulates h hret hok
  simp only [Cell.setConflictingSlow] at hok ⊢
  split at hok
  · cases hok
  rename_i patch heval
  have hb₁ : Backed c.mined key (Cell.withConflicting r req.value) slot st :=
    ⟨h.backed.minedSlot, h.backed.view⟩
  obtain ⟨r', st', hcoh, hview⟩ := h.commit hb₁ h.allSpent ⟨rfl, rfl, rfl, rfl⟩ rfl
    (evaluateDeleteAtHeight_ok hret heval)
  exact ⟨r', st', _, .setConflicting, hcoh, hview⟩

/-! ### Operations on the indexes -/

theorem setMinedInner_simulates {req : SetMinedSharedParams}
    (hret : req.blockHeightRetention ≠ 0) (hok : (c.setMinedInner key req).2.isOk) :
    Simulates key slot c r st (.setMined req) (c.setMinedInner key req).1 := by
  simp only [Cell.setMinedInner, h.record, Cell.applyTransitionAt, h.backed.minedSlot] at hok ⊢
  rcases transition_view h.backed.view (Cell.SetMinedSharedParams.transition req) with
    hfull | ⟨mined, st', happ, -, hview, hde, hall⟩
  · rw [hfull] at hok
    cases hok
  rw [happ] at hok ⊢
  dsimp only at hok ⊢
  have hb' : Backed mined key r slot st' := ⟨h.backed.minedSlot, hview⟩
  have hagree : CacheAgrees r st' := by
    rw [CacheAgrees, hde]
    exact h.agrees
  split at hok
  · cases hok
  rename_i patch heval
  have hpatch := evaluateDahFromRam_ok hret heval
  rw [hagree.conflicting, hagree.reassigned, hagree.preserved, hall, h.allSpent] at hpatch
  obtain ⟨-, de, hb'', hde''⟩ := setCacheLsa_backed hb' patch
  rw [h.backed.minedSlot] at hb''
  refine ⟨r, _, _, .setMined (!st'.blockEntries.isEmpty) st'.unminedSince,
    ⟨rfl, hb'', hde''.trans hagree, hall.trans h.allSpent, h.preserved⟩, ?_⟩
  have hsettle : patchedDah (c.dahHeight.getD 0) patch = (viewOf c r st).settle
      { traitsOf r st with
        hasBlocks := !st'.blockEntries.isEmpty
        unminedSince := st'.unminedSince } (c.dahHeight.getD 0)
      (req.currentBlockHeight + req.blockHeightRetention) := by
    simp only [decide_eq_true_eq] at hpatch
    exact hpatch
  rw [hsettle]
  rfl

theorem setLocked_simulates (value : Bool) :
    Simulates key slot c r st (.setLocked value) (c.setLocked value).1 := by
  simp only [Cell.setLocked, h.record]
  cases value with
  | false =>
    refine ⟨Cell.withLocked r false, st, .idle, .idle rfl (by simp),
      ⟨rfl, ⟨h.backed.minedSlot, h.backed.view⟩, h.agrees, h.allSpent, h.preserved⟩, ?_⟩
    simp only [Bool.false_eq_true, if_false, Cell.updateDahIndex, viewOf, updateHeightIndex_self]
    rfl
  | true =>
    exact ⟨Cell.withLocked r true, st, .lock, .lock,
      ⟨rfl, ⟨h.backed.minedSlot, h.backed.view⟩, h.agrees, h.allSpent, fun _ => rfl⟩, rfl⟩

theorem preserveUntil_simulates (height : Nat) :
    Simulates key slot c r st (.preserveUntil height) (c.preserveUntil key height).1 := by
  simp only [Cell.preserveUntil, h.record]
  generalize hr' : Cell.withPreserveUntil r 0 height = r'
  have hb' : Backed c.mined key r' slot st := ⟨hr' ▸ h.backed.minedSlot, h.backed.view⟩
  obtain ⟨-, de, hb'', hagree⟩ := mirrorDeFlags_backed hb'
  refine ⟨r', { st with deFlags := de }, _, .preserve, ⟨?_, ?_, hagree, ?_, ?_⟩, ?_⟩
  · split_ifs <;> rfl
  · split_ifs <;> exact hb''
  · rw [← hr']
    exact h.allSpent
  · exact fun _ => hr' ▸ rfl
  · have hindex : (if r.metadata.deleteAtHeight ≠ 0 then
        updateHeightIndex c.dahHeight r.metadata.deleteAtHeight 0 else c.dahHeight) =
        updateHeightIndex c.dahHeight r.metadata.deleteAtHeight 0 := by
      split_ifs with hdah
      · rfl
      · rw [not_not.mp hdah, updateHeightIndex_self]
    rw [← hr']
    simp only [DahView.step, DahView.moveTo, viewOf]
    rw [← hindex]
    split_ifs <;> rfl

theorem expirePreservationSetDah_simulates {cur ret : Nat}
    (hok : (c.expirePreservationSetDah key cur ret).2.isOk) :
    Simulates key slot c r st (.expirePreservationSetDah cur ret)
      (c.expirePreservationSetDah key cur ret).1 := by
  have hidle : Simulates key slot c r st (.expirePreservationSetDah cur ret) c :=
    ⟨r, st, .idle, .idle rfl nofun, h, rfl⟩
  unfold Cell.expirePreservationSetDah at hok ⊢
  by_cases hret : ret = 0
  · rwa [if_pos hret]
  rw [if_neg hret, h.record] at hok ⊢
  dsimp only at hok ⊢
  by_cases hdue : r.metadata.preserveUntil = 0 ∨ cur < r.metadata.preserveUntil
  · rwa [if_pos hdue]
  rw [if_neg hdue, minedBlockEntriesAt_backed h.backed] at hok ⊢
  dsimp only at hok ⊢
  split at hok
  · cases hok
  rename_i newDah hnew
  have hpres := (not_or.mp hdue).1
  have hnewDah : newDah = if (traitsOf r st).sweepable then cur + ret else 0 := by
    have hsweep : sweepEligibleWithMined r (!st.blockEntries.isEmpty) st.unminedSince =
      (traitsOf r st).sweepable := sweepable_eq r st
    unfold checkedNewDah at hnew
    grind
  have hb' : Backed c.mined key (Cell.withPreserveUntil r newDah 0) slot st :=
    ⟨h.backed.minedSlot, h.backed.view⟩
  obtain ⟨-, de, hb'', hagree⟩ := mirrorDeFlags_backed hb'
  refine ⟨_, { st with deFlags := de }, _, .expire hpres,
    ⟨rfl, hb'', hagree, h.allSpent, fun h0 => absurd rfl h0⟩, ?_⟩
  rw [DahView.step, show (viewOf c r st).traits = traitsOf r st from rfl, ← hnewDah]
  rfl

/-! ### Operations on slots -/

/-- Remembering a pruned child changes nothing the sweep sees. -/
theorem Coherent.appendDeletedChild (room : Room) (child : Hash) :
    ∃ r', Coherent key (c.appendDeletedChild room child) r' slot st ∧
      viewOf (c.appendDeletedChild room child) r' st = viewOf c r st := by
  unfold Cell.appendDeletedChild
  split
  · rename_i r₀ hrec₀
    cases h.record.symm.trans hrec₀
    split_ifs
    · exact ⟨r, h, rfl⟩
    · exact ⟨_, ⟨rfl, ⟨h.backed.minedSlot, h.backed.view⟩, h.agrees, h.allSpent, h.preserved⟩, rfl⟩
  · exact ⟨r, h, rfl⟩

theorem pruneSlotIfSpentByChild_simulates (hcount : Counted r 0 0)
    (room : Room) (offset : Nat) (child : Hash)
    (hok : (c.pruneSlotIfSpentByChild key room offset child).2.isOk) :
    Simulates key slot c r st (.pruneSlotIfSpentByChild room offset child)
      (c.pruneSlotIfSpentByChild key room offset child).1 := by
  rcases pruneSlotIfSpentByChild_cases h.record key room offset child with ⟨hsame, hnot⟩ | ⟨s, -, -,
    hprunes, ⟨hfail, -⟩ | ⟨h0, ⟨hfail, -⟩ | ⟨-, _, _, patch, heval, hc'⟩⟩⟩
  · rw [hsame]
    exact ⟨r, st, .idle, .idle (by simp [evicts, hnot]) nofun, h, rfl⟩
  · rw [hfail] at hok
    cases hok
  · rw [hfail] at hok
    cases hok
  generalize hr₁ : Cell.countPruned (r.writeSlot offset { s with status := .pruned }) = r₁
    at heval hc'
  generalize hc₁ : ({ c with
      record := some (r.writeSlot offset { s with status := .pruned })
      mined := setAllSpentAt c.mined r.minedSlot false } : Cell) = c₁ at heval hc'
  obtain ⟨hall, hb₁⟩ := unmark_backed r₁ h.backed hcount h0 (hr₁ ▸ rfl)
    (hr₁ ▸ Record.utxoCount_writeSlot ..) (hr₁ ▸ rfl)
  rw [show setAllSpentAt c.mined r.minedSlot false = c₁.mined from hc₁ ▸ rfl] at hb₁
  have hsame : SameHeights c r c₁ r₁ := ⟨hr₁ ▸ rfl, hr₁ ▸ rfl, hc₁ ▸ rfl, hc₁ ▸ rfl⟩
  have ht : traitsOf r₁ { st with allSpent := false } =
      { traitsOf r st with allSpent := false } := by
    rw [traitsOf, hall, ← hr₁]
    rfl
  have hpatch := evaluate_settle st hsame hb₁ Nat.one_ne_zero heval
  rw [ht] at hpatch
  -- The patch counts only if it lowers the height, which it does unless the record conflicts.
  have hmin : patchedDah r.metadata.deleteAtHeight
      (patch.filter (·.newDeleteAtHeight < r.metadata.deleteAtHeight)) =
      if r.metadata.preserveUntil ≠ 0 ∨ r.metadata.flags.conflicting
      then r.metadata.deleteAtHeight else 0 := by
    rw [patchedDah_filter, hpatch]
    by_cases hp : r.metadata.preserveUntil = 0
    · rw [DahView.settle_of_not_preserved _ _ _ hp]
      simp only [nextDah, Traits.ready, traitsOf]
      grind
    · rw [DahView.settle_of_preserved _ _ _ hp, if_pos (.inl hp), min_self]
  rw [← hsame.deleteAtHeight] at hmin hc'
  obtain ⟨r', st', hcoh, hview⟩ := commit_coherent st hb₁ hall.symm hsame fun hp => by
    rw [hmin, if_pos (.inl hp), hsame.deleteAtHeight, h.preserved hp]
  obtain ⟨r'', hcoh', hview'⟩ := hcoh.appendDeletedChild room child
  rw [hc']
  refine ⟨r'', st', _, .prune hprunes, hcoh', hview'.trans (hview.trans ?_)⟩
  rw [hmin, ht, hsame.deleteAtHeight]
  rfl

/-- Writing a slot without moving the counters changes nothing the sweep sees. -/
theorem RewritesSlot.simulates {hash : Hash} {status : UtxoStatus} {f : UtxoSlot → UtxoSlot}
    {out : Cell × Except SpendError Nat} (hout : RewritesSlot c r offset hash status f out)
    (hok : out.2.isOk) (op : EngineOp) (hev : evicts c r (traitsOf r st) op = false)
    (hop : ∀ req, op ≠ .markOnLongestChain req) : Simulates key slot c r st op out.1 := by
  obtain ⟨s, -, -, -, hc'⟩ := hout.of_isOk hok
  rw [hc']
  have hall : (r.writeSlot offset (f s)).allSpent = r.allSpent := by simp [Record.allSpent]
  refine ⟨_, st, .idle, .idle hev hop, ⟨rfl, ⟨h.backed.minedSlot, h.backed.view⟩, h.agrees,
    h.allSpent.trans hall.symm, h.preserved⟩, ?_⟩
  simp only [viewOf, traitsOf, DahView.step]
  rw [← hall]
  rfl

theorem reassign_simulates (hcount : Counted r 0 0)
    {req : ReassignRequest} (hok : (c.reassign key req).2.isOk) :
    Simulates key slot c r st (.reassign req) (c.reassign key req).1 := by
  unfold Cell.reassign at hok ⊢
  split at hok
  · cases hok
  rename_i r₀ height hv
  obtain ⟨hrec₀, hconf, -, -, s, hs, hstatus⟩ := validateReassign_ok hv
  cases h.record.symm.trans hrec₀
  have hnot : r.allSpent = false := hcount.not_allSpent hs (by simp [hstatus])
  generalize hr' : Cell.withReassigned (r.writeSlot req.offset
    (.newUnspentWithCooldown req.newUtxoHash height)) = r'
  have hb' : Backed c.mined key r' slot st := ⟨hr' ▸ h.backed.minedSlot, h.backed.view⟩
  obtain ⟨-, de, hb'', hagree⟩ := mirrorDeFlags_backed hb'
  have hall : r'.allSpent = r.allSpent := by
    rw [← hr']
    show decide (_ = (r.writeSlot _ _).utxoCount) = _
    rw [Record.utxoCount_writeSlot]
    rfl
  refine ⟨r', { st with deFlags := de }, .reassign, .reassign hconf hnot,
    ⟨rfl, hb'', hagree, h.allSpent.trans hall.symm, ?_⟩, ?_⟩
  · rw [← hr']
    exact h.preserved
  simp only [viewOf, traitsOf, DahView.step]
  rw [hall, ← hr']
  rfl

end

/-! ### Every operation -/

/-- An operation that succeeds on a record, with a retention, is an event on its view. -/
theorem next_simulates (h : Coherent key c r slot st) (hcount : Counted r 0 0) (op : EngineOp)
    (hret : op.retains) (hok : c.Succeeds cfg key op) :
    Simulates key slot c r st op (c.next cfg key op) := by
  cases op with
  | create room req =>
    -- The record exists already.
    have hok : (c.create key room req).2.isOk := hok
    simp only [Cell.create, h.record, Option.isSome_some, if_true] at hok
    split_ifs at hok <;> cases hok
  | spend room req => exact spend_simulates h hcount (by simpa [EngineOp.retains] using hret) hok
  | spendMulti room req =>
    exact spendMulti_simulates h hcount (by simpa [EngineOp.retains] using hret) hok
  | unspend req => exact unspend_simulates h hcount (by simpa [EngineOp.retains] using hret) hok
  | setMined req => exact setMinedInner_simulates h (by simpa [EngineOp.retains] using hret) hok
  | markOnLongestChain req =>
    exact markOnLongestChain_simulates h (by simpa [EngineOp.retains] using hret) hok
  | setConflicting req =>
    exact setConflicting_simulates h (by simpa [EngineOp.retains] using hret) hok
  | setLocked value => exact setLocked_simulates h value
  | preserveUntil height => exact preserveUntil_simulates h height
  | expirePreservationSetDah cur ret => exact expirePreservationSetDah_simulates h hok
  | pruneSlotIfSpentByChild room offset child =>
    exact pruneSlotIfSpentByChild_simulates h hcount room offset child hok
  | pruneSlot offset => cases hret
  | freeze offset hash => exact (freeze_cases h.record offset hash).simulates h hok _ rfl (by simp)
  | unfreeze offset hash =>
    exact (unfreeze_cases h.record offset hash).simulates h hok _ rfl (by simp)
  | reassign req => exact reassign_simulates h hcount hok

/-! ### The view along a run -/

/-- The record of the transaction is coherent and counted, and its view has a property; a
transaction without a record is in neither index. -/
def Viewed (s : Engine) (key : TxKey) (P : DahView → Prop) : Prop :=
  match s.records key with
  | none => s.dahIndex key = none ∧ s.preserveIndex key = none
  | some r => ∃ slot st, Coherent key (s.cell key) r slot st ∧ Counted r 0 0 ∧
      P (viewOf (s.cell key) r st)

def freshView (conflicting hasBlocks : Bool) (unminedSince : Nat) : DahView where
  traits := ⟨conflicting, false, false, hasBlocks, unminedSince⟩
  deleteAtHeight := 0
  preserveUntil := 0
  index := none
  preserveIndex := none

section Runs

variable {cfg : TxKey → StoreConfig} {s : Engine} {call : Call} {P Q : DahView → Prop}
  {req : CreateRequest}

theorem viewed_empty (key : TxKey) (P : DahView → Prop) : Viewed .empty key P := ⟨rfl, rfl⟩

/-- A created record has an output, and none is spent. -/
theorem Created.not_allSpent (h : Created key c c' req slot st) :
    (Cell.createRecord req slot).allSpent = false := by
  have hpos : 0 < req.utxoHashes.length := List.length_pos_of_ne_nil h.utxoHashes
  simp only [Record.allSpent, Record.utxoCount, Cell.createRecord, Cell.createSlots,
    List.length_map, decide_eq_false_iff_not]
  omega

theorem Created.viewed (h : Created key c c' req slot st) (hindex : c.dahHeight = none)
    (hpindex : c.preserveHeight = none) : Coherent key c' (Cell.createRecord req slot) slot st ∧
      viewOf c' (Cell.createRecord req slot) st =
        freshView req.conflicting (!st.blockEntries.isEmpty) st.unminedSince := by
  have hall := h.not_allSpent
  refine ⟨⟨h.record, h.backed, h.agrees, h.allSpent.trans hall.symm, fun h0 => absurd rfl h0⟩, ?_⟩
  rw [viewOf, traitsOf, hall, h.dahHeight, h.preserveHeight, hindex, hpindex]
  rfl

/-- A property of the view is followed through a step of the engine by looking at the event that
the step is for the record. -/
theorem Viewed.step (h : Viewed s key P) (hlink : Linked s)
    (hscope : call.key = key → call.op.retains ∧ s.Succeeds cfg call)
    (hfresh : s.records key = none → ∀ conflicting hasBlocks unminedSince,
      Q (freshView conflicting hasBlocks unminedSince))
    (hother : call.key ≠ key → ∀ v, P v → Q v)
    (hevent : ∀ r slot st e, call.key = key → s.records key = some r →
      Coherent key (s.cell key) r slot st → Triggers (s.cell key) r (traitsOf r st) call.op e →
      P (viewOf (s.cell key) r st) → Q ((viewOf (s.cell key) r st).step e)) :
    Viewed (s.step cfg call) key Q := by
  by_cases hkey : call.key = key
  · subst hkey
    obtain ⟨hret, hok⟩ := hscope rfl
    rcases hlink.step_cases cfg call with
      ⟨hrec, hidle⟩ | ⟨hrec, room, req, slot, st, -, hcreated⟩ |
      ⟨r, r', slot, hrec, hlead, -, hstep⟩
    · simpa only [Viewed, hidle, hrec] using h
    · simp only [Viewed, hrec] at h
      obtain ⟨hcoh, hview⟩ := hcreated.viewed h.1 h.2
      simp only [Viewed, records_step, hcreated.record, Engine.cell_step]
      exact ⟨slot, st, hcoh, counted_createRecord req slot, hview ▸ hfresh hrec _ _ _⟩
    · simp only [Viewed, hrec] at h
      obtain ⟨slot', st, hcoh, hcount, hP⟩ := h
      obtain ⟨r'', st', e, htrig, hcoh', hview⟩ := next_simulates hcoh hcount call.op hret hok
      cases hlead.record.symm.trans hcoh'.record
      simp only [Viewed, records_step, hlead.record, Engine.cell_step]
      refine ⟨slot', st', hcoh', ?_, hview ▸ hevent r slot' st e rfl hrec hcoh htrig hP⟩
      have hop := flipsFrom_of_retains hret r
      simpa [tallySpent, tallyFlipped, hop] using
        hstep.counted (fun hfail => absurd (hfail.symm.trans hok) (by decide)) hcount
  · have hne : key ≠ call.key := Ne.symm hkey
    simp only [Viewed, records_step_of_ne hne]
    cases hrec : s.records key with
    | none =>
      simp only [Viewed, hrec] at h
      exact ⟨(dahIndex_step_of_ne hne).trans h.1, (preserveIndex_step_of_ne hne).trans h.2⟩
    | some r =>
      simp only [Viewed, hrec] at h
      obtain ⟨slot, st, hcoh, hcount, hP⟩ := h
      refine ⟨slot, st, ⟨(records_step_of_ne hne).trans hrec,
        hlink.backed_step_of_ne hne hrec hcoh.backed, hcoh.agrees, hcoh.allSpent, hcoh.preserved⟩,
        hcount, ?_⟩
      have hview : viewOf ((s.step cfg call).cell key) r st = viewOf (s.cell key) r st := by
        simp only [viewOf, Engine.cell, dahIndex_step_of_ne hne, preserveIndex_step_of_ne hne]
      rw [hview]
      exact hother hkey _ hP

end Runs

end TeraSlab.Ops
