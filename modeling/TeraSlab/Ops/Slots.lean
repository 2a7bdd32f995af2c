import TeraSlab.Ops.Outcomes

/-!
# What an operation can do to the slots of a record

`SlotStep` lists every change of a record's slots and counters that an operation can make, with the
state of the slot that allows it. `next_slots` says that there are no others, for a record that is
backed by its slot in the mined index, and that the record stays backed.
-/

namespace TeraSlab.Ops

open Foundations Index MinedShard

variable {c c' c'' : Cell} {cfg : StoreConfig} {key : TxKey} {r r' r'' : Record} {slot : Nat}
  {st : MinedTransitionState}

/-- The evaluation of the record fails, as the new height does not fit in 32 bits. -/
def Overflows (r : Record) (currentBlockHeight blockHeightRetention : Nat) : Prop :=
  blockHeightRetention ≠ 0 ∧ r.metadata.preserveUntil = 0 ∧
    2 ^ 32 ≤ currentBlockHeight + blockHeightRetention

instance (r : Record) (cur ret : Nat) : Decidable (Overflows r cur ret) :=
  inferInstanceAs (Decidable (_ ∧ _ ∧ _))

structure SameSlots (r r' : Record) : Prop where
  slots : r'.slots = r.slots
  spentUtxos : r'.metadata.spentUtxos = r.metadata.spentUtxos
  prunedUtxos : r'.metadata.prunedUtxos = r.metadata.prunedUtxos

@[simp] theorem frozenForm_status (s : UtxoSlot) : (frozenForm s).status = .frozen := by
  unfold frozenForm
  split_ifs <;> rfl

@[simp] theorem thawedForm_status (s : UtxoSlot) : (thawedForm s).status = .unspent := by
  unfold thawedForm
  split_ifs <;> rfl

structure WritesSlot (r r' : Record) (offset : Nat) (s' : UtxoSlot) (spent pruned : Nat) :
    Prop where
  slots : r'.slots = r.slots.set offset s'
  spentUtxos : r'.metadata.spentUtxos = spent
  prunedUtxos : r'.metadata.prunedUtxos = pruned

/-- The unspend comes from the owner of the spend, and clears the slot. -/
def Cell.clears (c : Cell) (req : UnspendRequest) : Bool :=
  match c.validateUnspend req with
  | .ok (r, s) => ownsSpend s req.spendingData && r.metadata.spentUtxos ≠ 0
  | .error _ => false

/-- The operation fails after it has written slots: an unspend that clears its slot, or a batch of
a store that writes in place, whose evaluation overflows. -/
def Cell.tears (c : Cell) (cfg : StoreConfig) (key : TxKey) : EngineOp → Bool
  | .unspend req =>
    c.clears req && match c.record with
    | some r => decide (Overflows r req.currentBlockHeight req.blockHeightRetention)
    | none => false
  | .spendMulti _ req =>
    match c.prepareSpendMulti key req with
    | .ok (r, batch, _) =>
      !cfg.logStructured && batch.spentCount ≠ 0 &&
        decide (Overflows r req.currentBlockHeight req.blockHeightRetention)
    | .error _ => false
  | _ => false

def flipsFrom (r : Record) : EngineOp → Option UtxoStatus
  | .pruneSlot offset => (r.slots[offset]?.map (·.status)).filter (· ≠ .pruned)
  | _ => none

/-- The changes an operation can make to the slots and counters of a record; the flag says whether
it succeeded. -/
inductive SlotStep (cfg : StoreConfig) (key : TxKey) (c : Cell) (r : Record) :
    EngineOp → Bool → Record → Prop where
  | keep {op : EngineOp} {ok : Bool} {r' : Record} (h : SameSlots r r')
      (hop : flipsFrom r op = none) : SlotStep cfg key c r op ok r'
  | spend {room : Room} {req : SpendRequest} {s : UtxoSlot} {r' : Record}
      (hslot : r.slots[req.offset]? = some s)
      (hcheck : Cell.checkSlot r s req.offset req.utxoHash req.spendingData
        req.currentBlockHeight = .ok .fresh)
      (h : WritesSlot r r' req.offset (.newSpent req.utxoHash req.spendingData)
        ((r.metadata.spentUtxos + 1) % 2 ^ 32) r.metadata.prunedUtxos) :
      SlotStep cfg key c r (.spend room req) true r'
  | batch {room : Room} {req : SpendMultiRequest} {r' : Record}
      (hslots : r'.slots = (r.writeSlots (batchOf r req).validSpends).slots)
      (hspent : r'.metadata.spentUtxos = r.metadata.spentUtxos + (batchOf r req).spentCount)
      (hpruned : r'.metadata.prunedUtxos = r.metadata.prunedUtxos) :
      SlotStep cfg key c r (.spendMulti room req) true r'
  /-- A batch that failed after its slots were written in place. -/
  | tornBatch {room : Room} {req : SpendMultiRequest} {r' : Record}
      (hcause : r.utxoCount < r.metadata.spentUtxos + (batchOf r req).spentCount ∨
        c.tears cfg key (.spendMulti room req))
      (hslots : r'.slots = (r.writeSlots (batchOf r req).validSpends).slots)
      (hspent : r'.metadata.spentUtxos = r.metadata.spentUtxos)
      (hpruned : r'.metadata.prunedUtxos = r.metadata.prunedUtxos) :
      SlotStep cfg key c r (.spendMulti room req) false r'
  | unspend {req : UnspendRequest} {s : UtxoSlot} {r' : Record}
      (hslot : r.slots[req.offset]? = some s) (howns : Cell.ownsSpend s req.spendingData)
      (hspent : r.metadata.spentUtxos ≠ 0) (hclears : c.clears req)
      (h : WritesSlot r r' req.offset (.newUnspent s.hash) (r.metadata.spentUtxos - 1)
        r.metadata.prunedUtxos) :
      SlotStep cfg key c r (.unspend req) true r'
  /-- An unspend that failed after it had cleared its slot. -/
  | tornUnspend {req : UnspendRequest} {s : UtxoSlot} {r' : Record}
      (hslot : r.slots[req.offset]? = some s) (howns : Cell.ownsSpend s req.spendingData)
      (hcause : c.tears cfg key (.unspend req))
      (h : WritesSlot r r' req.offset (.newUnspent s.hash) r.metadata.spentUtxos
        r.metadata.prunedUtxos) :
      SlotStep cfg key c r (.unspend req) false r'
  | pruneChild {room : Room} {offset : Nat} {child : Hash} {s : UtxoSlot} {r' : Record}
      (hslot : r.slots[offset]? = some s) (hstatus : s.status = .spent)
      (hspent : r.metadata.spentUtxos ≠ 0)
      (h : WritesSlot r r' offset { s with status := .pruned } (r.metadata.spentUtxos - 1)
        (r.metadata.prunedUtxos + 1)) :
      SlotStep cfg key c r (.pruneSlotIfSpentByChild room offset child) true r'
  /-- A prune that failed because the counters do not match the slots. -/
  | tornPrune {room : Room} {offset : Nat} {child : Hash} {s : UtxoSlot} {r' : Record}
      (hslot : r.slots[offset]? = some s) (hstatus : s.status = .spent)
      (hcause : r.metadata.spentUtxos = 0 ∨ 2 ^ 32 ≤ r.metadata.prunedUtxos + 1)
      (h : WritesSlot r r' offset { s with status := .pruned } r.metadata.spentUtxos
        r.metadata.prunedUtxos) :
      SlotStep cfg key c r (.pruneSlotIfSpentByChild room offset child) false r'
  | prune {offset : Nat} {s : UtxoSlot} {r' : Record}
      (hslot : r.slots[offset]? = some s) (hstatus : s.status ≠ .pruned)
      (h : WritesSlot r r' offset { s with status := .pruned } r.metadata.spentUtxos
        r.metadata.prunedUtxos) :
      SlotStep cfg key c r (.pruneSlot offset) true r'
  | freeze {offset : Nat} {utxoHash : Hash} {s : UtxoSlot} {r' : Record}
      (hslot : r.slots[offset]? = some s) (hstatus : s.status = .unspent)
      (h : WritesSlot r r' offset (frozenForm s) r.metadata.spentUtxos r.metadata.prunedUtxos) :
      SlotStep cfg key c r (.freeze offset utxoHash) true r'
  | unfreeze {offset : Nat} {utxoHash : Hash} {s : UtxoSlot} {r' : Record}
      (hslot : r.slots[offset]? = some s) (hstatus : s.status = .frozen)
      (h : WritesSlot r r' offset (thawedForm s) r.metadata.spentUtxos r.metadata.prunedUtxos) :
      SlotStep cfg key c r (.unfreeze offset utxoHash) true r'
  | reassign {req : ReassignRequest} {s : UtxoSlot} {r' : Record}
      (hslot : r.slots[req.offset]? = some s) (hstatus : s.status = .frozen)
      (hheight : req.blockHeight + req.spendableAfter < 2 ^ 32)
      (h : WritesSlot r r' req.offset
        (.newUnspentWithCooldown req.newUtxoHash (req.blockHeight + req.spendableAfter))
        r.metadata.spentUtxos r.metadata.prunedUtxos) :
      SlotStep cfg key c r (.reassign req) true r'

/-! ### The record stays backed -/

/-- The cell goes on to hold the given record, backed by the same slot, and the rest of the mined
index is left alone. -/
structure Leads (key : TxKey) (slot : Nat) (c c' : Cell) (r' : Record) : Prop where
  record : c'.record = some r'
  elsewhere : Elsewhere c.mined c'.mined slot
  backed : ∃ st', Backed c'.mined key r' slot st'

theorem Leads.refl (hrec : c.record = some r) (hb : Backed c.mined key r slot st) :
    Leads key slot c c r :=
  ⟨hrec, .refl _ _, st, hb⟩

theorem Leads.trans (h : Leads key slot c c' r') (h' : Leads key slot c' c'' r'') :
    Leads key slot c c'' r'' :=
  ⟨h'.record, h.elsewhere.trans h'.elsewhere, h'.backed⟩

section

variable (hb : Backed c.mined key r slot st) (hc : c'.record = some r')
include hb hc

/-- Only the record and the secondary indexes change. -/
theorem leads_record (hmined : c'.mined = c.mined) (hslot : r'.minedSlot = r.minedSlot) :
    Leads key slot c c' r' :=
  ⟨hc, hmined ▸ .refl _ _, st, hslot ▸ hb.minedSlot, hmined ▸ hb.view⟩

/-- The record is written and its flags are copied to the cache. -/
theorem leads_mirror (hmined : c'.mined = mirrorDeFlags c.mined key r')
    (hslot : r'.minedSlot = r.minedSlot) : Leads key slot c c' r' := by
  have hb' : Backed c.mined key r' slot st := ⟨hslot ▸ hb.minedSlot, hb.view⟩
  obtain ⟨hels, de, hback, -⟩ := mirrorDeFlags_backed hb'
  exact ⟨hc, hmined ▸ hels, _, hmined ▸ hback⟩

theorem leads_lsaMirror {patch : Option DahPatch}
    (hmined : c'.mined = mirrorDeFlags (setCacheLsa c.mined key r'.minedSlot patch) key r')
    (hslot : r'.minedSlot = r.minedSlot) : Leads key slot c c' r' := by
  obtain ⟨hels, de, hback, -⟩ := lsaMirror_backed hb hslot patch
  exact ⟨hc, hmined ▸ hels, _, hmined ▸ hback⟩

end

theorem leads_setAllSpent (hrec : c'.record = some r) (hb : Backed c.mined key r slot st)
    (allSpent : Bool) (hmined : c'.mined = setAllSpentAt c.mined r.minedSlot allSpent) :
    Leads key slot c c' r := by
  obtain ⟨hels, hback⟩ := setAllSpentAt_backed hb allSpent
  exact ⟨hrec, hmined ▸ hels, _, hmined ▸ hback⟩

theorem leads_commit (hb : Backed c.mined key r slot st) (patch : Option DahPatch) :
    ∃ r', SameSlots r r' ∧ Leads key slot c (c.commit key r patch) r' := by
  obtain ⟨l, r', de, rfl, hrec, hels, hback, -⟩ := commit_spec hb patch
  exact ⟨r.settled _ l, ⟨rfl, rfl, rfl⟩, hrec, hels, _, hback⟩

theorem leads_markAllSpent (hrec : c.record = some r) (hb : Backed c.mined key r slot st)
    (hslot : r'.minedSlot = r.minedSlot) : Leads key slot c (c.markAllSpent r') r := by
  unfold Cell.markAllSpent
  split_ifs
  · exact leads_setAllSpent hrec hb true (by rw [hslot])
  · exact .refl hrec hb

/-! ### The operations -/

theorem Commits.leads {r₁ r₂ : Record} {cur ret : Nat} (h : Commits key c r₁ r₂ cur ret c')
    (hb : Backed c.mined key r₂ slot st) : ∃ r', SameSlots r₂ r' ∧ Leads key slot c c' r' := by
  obtain ⟨-, -, patch, -, rfl⟩ := h
  exact leads_commit hb patch

theorem ownsSpend_iff {s : UtxoSlot} {d : SpendingData} :
    Cell.ownsSpend s d = true ↔
      s.status = .spent ∧ s.spendingData ≠ frozenMarker ∧ s.spendingData = d := by
  simp [Cell.ownsSpend, and_assoc]

/-- A batch that fails leaves the slots as they were, or as written in place. -/
theorem failedBatch_slots {room : Room} {req : SpendMultiRequest}
    (hlead : Leads key slot c c' (if cfg.logStructured then r
      else r.writeSlots (batchOf r req).validSpends))
    (hcause : cfg.logStructured = false →
      r.utxoCount < r.metadata.spentUtxos + (batchOf r req).spentCount ∨
        c.tears cfg key (.spendMulti room req)) :
    ∃ r', Leads key slot c c' r' ∧ SlotStep cfg key c r (.spendMulti room req) false r' := by
  have hwritten := writeSlots_metadata r (batchOf r req).validSpends
  by_cases hcfg : cfg.logStructured
  · rw [if_pos hcfg] at hlead
    exact ⟨r, hlead, .keep ⟨rfl, rfl, rfl⟩ rfl⟩
  rw [if_neg hcfg] at hlead
  refine ⟨_, hlead, .tornBatch (hcause (Bool.eq_false_iff.mpr hcfg)) rfl ?_ ?_⟩
  · rw [hwritten.1]
  · rw [hwritten.1]

theorem setLongestChainAt_backed {mined : MinedShard} (h : Backed mined key r slot st)
    (onLongestChain : Bool) (currentHeight : Nat) :
    Elsewhere mined
        (Cell.setLongestChainAt mined key r.minedSlot onLongestChain currentHeight) slot ∧
      Backed (Cell.setLongestChainAt mined key r.minedSlot onLongestChain currentHeight) key r
        slot { st with unminedSince := if onLongestChain then 0 else currentHeight } := by
  obtain ⟨hels, hview⟩ := setLongestChain_view h.view onLongestChain currentHeight
  simp only [Cell.setLongestChainAt, h.minedSlot]
  exact ⟨hels, h.minedSlot, hview⟩

section

variable (hrec : c.record = some r) (hb : Backed c.mined key r slot st)
include hrec hb

theorem spend_slots (room : Room) (req : SpendRequest) :
    ∃ r', Leads key slot c (c.spend cfg key room req).1 r' ∧
      SlotStep cfg key c r (.spend room req) (c.spend cfg key room req).2.isOk r' := by
  have hmark : Leads key slot c (c.markAllSpent
    (Cell.countSpent r ((r.metadata.spentUtxos + 1) % 2 ^ 32))) r := leads_markAllSpent hrec hb rfl
  rcases spend_cases hrec cfg key room req with
    ⟨hsame, -⟩ | ⟨s, ⟨hs, -, hcheck⟩, ⟨-, hfail, -⟩ | ⟨hok, hcommit⟩⟩
  · rw [hsame]
    exact ⟨r, .refl hrec hb, .keep ⟨rfl, rfl, rfl⟩ rfl⟩
  · rw [hfail]
    exact ⟨r, hmark, .keep ⟨rfl, rfl, rfl⟩ rfl⟩
  · obtain ⟨st', hback⟩ := hmark.backed
    obtain ⟨r', hsame, hlead⟩ := hcommit.leads ⟨hback.minedSlot, hback.view⟩
    rw [hok]
    exact ⟨r', hmark.trans hlead,
      .spend hs hcheck ⟨hsame.slots, hsame.spentUtxos, hsame.prunedUtxos⟩⟩

theorem spendMulti_slots (room : Room) (req : SpendMultiRequest) :
    ∃ r', Leads key slot c (c.spendMulti cfg key room req).1 r' ∧
      SlotStep cfg key c r (.spendMulti room req) (c.spendMulti cfg key room req).2.isOk r' := by
  have hwritten := writeSlots_metadata r (batchOf r req).validSpends
  have hcases := spendMulti_cases hrec cfg key room req
  generalize hwr : r.writeSlots (batchOf r req).validSpends = written at hwritten hcases
  dsimp only at hcases
  generalize hc₁ : (if cfg.logStructured then c else { c with record := some written }) = c₁
    at hcases
  generalize hr₁ : (if cfg.logStructured then r else written) = r₁
  have hmined : r₁.minedSlot = r.minedSlot := by grind
  have hlead₁ : Leads key slot c c₁ r₁ := leads_record hb (by grind) (by grind) hmined
  obtain ⟨st₁, hb₁⟩ := hlead₁.backed
  have hlead₂ : Leads key slot c (c₁.markAllSpent
      (Cell.countSpent r (r.metadata.spentUtxos + (batchOf r req).spentCount))) r₁ :=
    hlead₁.trans (leads_markAllSpent hlead₁.record hb₁ hmined.symm)
  obtain ⟨st₂, hb₂⟩ := hlead₂.backed
  have hfail : ∀ {c'}, Leads key slot c c' r₁ → _ →
      ∃ r', Leads key slot c c' r' ∧ SlotStep cfg key c r (.spendMulti room req) false r' :=
    fun hlead => failedBatch_slots (hwr.symm ▸ hr₁.symm ▸ hlead)
  rcases hcases with ⟨hsame, -⟩ | ⟨⟨entries, hprep⟩, hcount, ⟨hok, hc'⟩ | ⟨hok, hcommit⟩⟩
  · rw [hsame]
    exact ⟨r, .refl hrec hb, .keep ⟨rfl, rfl, rfl⟩ rfl⟩
  · rw [hok]
    rcases hc' with ⟨hc', hbig⟩ | ⟨hc', ⟨e, he⟩ | ⟨e, he⟩⟩ <;> rw [hc']
    · exact hfail hlead₁ fun _ => .inl hbig
    · obtain ⟨-, hret, hp, hov⟩ :=
        evaluate_error (r := Cell.countSpent r _) ⟨hb.minedSlot, hb₂.view⟩ he
      have hover : Overflows r req.currentBlockHeight req.blockHeightRetention := ⟨hret, hp, hov⟩
      exact hfail hlead₂ fun hcfg => .inr (by simp [Cell.tears, hprep, hcfg, hcount, hover])
    · exact hfail hlead₂ fun hcfg => by simp [Cell.relocate, hcfg] at he
  · obtain ⟨r', hsame, hlead⟩ := hcommit.leads ⟨hwritten.2.1.trans hb.minedSlot, hb₂.view⟩
    rw [hok]
    refine ⟨r', hlead₂.trans hlead, .batch (hwr ▸ hsame.slots) hsame.spentUtxos ?_⟩
    rw [hsame.prunedUtxos, ← hwritten.1]
    rfl

theorem unspend_slots (req : UnspendRequest) :
    ∃ r', Leads key slot c (c.unspend key req).1 r' ∧
      SlotStep cfg key c r (.unspend req) (c.unspend key req).2.isOk r' := by
  rcases unspend_cases hrec key req with ⟨hsame, -⟩ | ⟨s, hv, ⟨howns, h0, hclear⟩ | ⟨-, -, hkeep⟩⟩
  · rw [hsame]
    exact ⟨r, .refl hrec hb, .keep ⟨rfl, rfl, rfl⟩ rfl⟩
  · obtain ⟨-, hs, hhash, -⟩ := validateUnspend_ok hv
    have hclears : c.clears req = true := by simp [Cell.clears, hv, howns, h0]
    generalize hwr : r.writeSlot req.offset (.newUnspent req.utxoHash) = written at hclear
    have hbw : Backed c.mined key written slot st := ⟨hwr ▸ hb.minedSlot, hb.view⟩
    generalize hc₁ : ({ c with
      record := some written, mined := setAllSpentAt c.mined r.minedSlot false } : Cell) = c₁
      at hclear
    have hlead₁ : Leads key slot c c₁ written :=
      leads_setAllSpent (hc₁ ▸ rfl) hbw false (hc₁ ▸ hwr ▸ rfl)
    obtain ⟨st₁, hb₁⟩ := hlead₁.backed
    rcases hclear with ⟨hok, hc', e, he⟩ | ⟨hok, hcommit⟩
    · obtain ⟨-, hret, hp, hov⟩ :=
        evaluate_error (r := Cell.countSpent written _) ⟨hb₁.minedSlot, hb₁.view⟩ he
      have hover : Overflows r req.currentBlockHeight req.blockHeightRetention :=
        ⟨hret, by rw [← hp, ← hwr]; rfl, hov⟩
      rw [hc', hok]
      refine ⟨written, hlead₁,
        .tornUnspend hs howns (by simp [Cell.tears, hclears, hrec, hover]) ?_⟩
      rw [hhash, ← hwr]
      exact ⟨rfl, rfl, rfl⟩
    · obtain ⟨r', hsame, hlead⟩ := hcommit.leads ⟨hb₁.minedSlot, hb₁.view⟩
      rw [hok]
      refine ⟨r', hlead₁.trans hlead, .unspend hs howns h0 hclears ⟨?_, hsame.spentUtxos, ?_⟩⟩
      · rw [hsame.slots, hhash, ← hwr]
        rfl
      · rw [hsame.prunedUtxos, ← hwr]
        rfl
  · obtain ⟨-, -, patch, -, hc'⟩ := hkeep
    obtain ⟨r', hsame, hlead⟩ := leads_commit hb patch
    rw [hc']
    split_ifs
    · exact ⟨r', hlead, .keep hsame rfl⟩
    · exact ⟨r, .refl hrec hb, .keep ⟨rfl, rfl, rfl⟩ rfl⟩

theorem setMinedInner_slots (req : SetMinedSharedParams) :
    ∃ r', Leads key slot c (c.setMinedInner key req).1 r' ∧ SameSlots r r' := by
  refine ⟨r, ?_, rfl, rfl, rfl⟩
  have htrans := transition_view hb.view (Cell.SetMinedSharedParams.transition req)
  simp only [Cell.setMinedInner, hrec, Cell.applyTransitionAt, hb.minedSlot]
  rcases htrans with hfull | ⟨mined, st', happ, hels, hview, -⟩
  · rw [hfull]
    exact ⟨rfl, .refl _ _, st, hb⟩
  rw [happ]
  dsimp only
  have hb' : Backed mined key r slot st' := ⟨hb.minedSlot, hview⟩
  split
  · exact ⟨rfl, hels, st', hb'⟩
  rename_i patch _
  obtain ⟨hels', de, hb'', -⟩ := setCacheLsa_backed hb' patch
  rw [hb.minedSlot] at hels' hb''
  exact ⟨rfl, hels.trans hels', _, hb''⟩

theorem markOnLongestChain_slots (req : MarkOnLongestChainRequest) :
    ∃ r', Leads key slot c (c.markOnLongestChain key req).1 r' ∧ SameSlots r r' := by
  simp only [Cell.markOnLongestChain, hrec]
  generalize hr₁ : Cell.withUnminedSince r
    (if req.onLongestChain then 0 else req.currentBlockHeight) = r₁
  have hsame₁ : SameSlots r r₁ := hr₁ ▸ ⟨rfl, rfl, rfl⟩
  have hb₁ : Backed c.mined key r₁ slot st := ⟨hr₁ ▸ hb.minedSlot, hb.view⟩
  rw [minedBlockEntriesAt_backed hb₁]
  dsimp only
  split
  · exact ⟨r, .refl hrec hb, rfl, rfl, rfl⟩
  rename_i patch _
  obtain ⟨r', hsame, hlead⟩ := leads_commit hb₁ patch
  obtain ⟨st', hb'⟩ := hlead.backed
  obtain ⟨hels, hback⟩ := setLongestChainAt_backed hb' req.onLongestChain req.currentBlockHeight
  rw [hb'.minedSlot, ← hb₁.minedSlot] at hels hback
  exact ⟨r', ⟨hlead.record, hlead.elsewhere.trans hels, _, hback⟩,
    hsame.slots.trans hsame₁.slots, hsame.spentUtxos.trans hsame₁.spentUtxos,
    hsame.prunedUtxos.trans hsame₁.prunedUtxos⟩

theorem setConflicting_slots (req : SetConflictingRequest) :
    ∃ r', Leads key slot c (c.setConflicting cfg key req).1 r' ∧ SameSlots r r' := by
  have hb₁ : Backed c.mined key (Cell.withConflicting r req.value) slot st :=
    ⟨hb.minedSlot, hb.view⟩
  simp only [Cell.setConflicting, hrec, minedBlockEntriesAt_backed hb]
  split_ifs
  · simp only [Cell.setConflictingDirect]
    split
    · exact ⟨r, .refl hrec hb, rfl, rfl, rfl⟩
    · exact ⟨_, leads_lsaMirror hb rfl rfl rfl, rfl, rfl, rfl⟩
  · simp only [Cell.setConflictingSlow]
    split
    · exact ⟨r, .refl hrec hb, rfl, rfl, rfl⟩
    rename_i patch _
    obtain ⟨r', hsame, hlead⟩ := leads_commit hb₁ patch
    exact ⟨r', hlead, hsame.slots, hsame.spentUtxos, hsame.prunedUtxos⟩

theorem setLocked_slots
    (value : Bool) : ∃ r', Leads key slot c (c.setLocked value).1 r' ∧ SameSlots r r' := by
  simp only [Cell.setLocked, hrec]
  exact ⟨_, leads_record hb rfl rfl rfl, rfl, rfl, rfl⟩

theorem preserveUntil_slots (blockHeight : Nat) :
    ∃ r', Leads key slot c (c.preserveUntil key blockHeight).1 r' ∧ SameSlots r r' := by
  simp only [Cell.preserveUntil, hrec]
  refine ⟨Cell.withPreserveUntil r 0 blockHeight, ?_, rfl, rfl, rfl⟩
  split_ifs
  · exact leads_mirror hb rfl rfl rfl
  · exact leads_mirror hb rfl rfl rfl

theorem expirePreservationSetDah_slots (cur ret : Nat) :
    ∃ r', Leads key slot c (c.expirePreservationSetDah key cur ret).1 r' ∧ SameSlots r r' := by
  have hsame : ∃ r', Leads key slot c c r' ∧ SameSlots r r' := ⟨r, .refl hrec hb, rfl, rfl, rfl⟩
  simp only [Cell.expirePreservationSetDah, hrec, minedBlockEntriesAt_backed hb]
  split
  · exact hsame
  split
  · exact hsame
  split
  · exact hsame
  · exact ⟨_, leads_mirror hb rfl rfl rfl, rfl, rfl, rfl⟩

/-- Remembering a pruned child does not touch slots or counters. -/
theorem appendDeletedChild_slots (room : Room) (child : Hash) :
    ∃ r', Leads key slot c (c.appendDeletedChild room child) r' ∧ SameSlots r r' := by
  have hsame : ∃ r', Leads key slot c c r' ∧ SameSlots r r' := ⟨r, .refl hrec hb, rfl, rfl, rfl⟩
  unfold Cell.appendDeletedChild
  split
  · rename_i r₀ hrec₀
    cases hrec.symm.trans hrec₀
    split_ifs
    · exact hsame
    · exact ⟨_, leads_record hb rfl rfl rfl, rfl, rfl, rfl⟩
  · exact hsame

theorem pruneSlotIfSpentByChild_slots (room : Room) (offset : Nat) (child : Hash) :
    ∃ r', Leads key slot c (c.pruneSlotIfSpentByChild key room offset child).1 r' ∧
      SlotStep cfg key c r (.pruneSlotIfSpentByChild room offset child)
        (c.pruneSlotIfSpentByChild key room offset child).2.isOk r' := by
  rcases pruneSlotIfSpentByChild_cases hrec key room offset child with
    ⟨hsame, -⟩ | ⟨s, hs, hstatus, -, hcases⟩
  · rw [hsame]
    exact ⟨r, .refl hrec hb, .keep ⟨rfl, rfl, rfl⟩ rfl⟩
  generalize hwr : r.writeSlot offset { s with status := .pruned } = written at hcases
  have hbw : Backed c.mined key written slot st := ⟨hwr ▸ hb.minedSlot, hb.view⟩
  have hspent : written.metadata.spentUtxos = r.metadata.spentUtxos := hwr ▸ rfl
  have hpruned : written.metadata.prunedUtxos = r.metadata.prunedUtxos := hwr ▸ rfl
  have hslots : written.slots = r.slots.set offset { s with status := .pruned } := hwr ▸ rfl
  dsimp only at hcases
  generalize hc₁ : ({ c with
    record := some written, mined := setAllSpentAt c.mined r.minedSlot false } : Cell) = c₁
    at hcases
  have hlead₁ : Leads key slot c c₁ written :=
    leads_setAllSpent (hc₁ ▸ rfl) hbw false (hc₁ ▸ hwr ▸ rfl)
  obtain ⟨st₁, hb₁⟩ := hlead₁.backed
  have hb₂ : Backed c₁.mined key (Cell.countPruned written) slot st₁ := ⟨hb₁.minedSlot, hb₁.view⟩
  rcases hcases with ⟨hok, hc', hcause⟩ | ⟨h0, ⟨-, -, e, he⟩ | ⟨hok, -, -, patch, -, hc'⟩⟩
  · rw [hc', hok]
    exact ⟨written, leads_record hbw rfl rfl rfl,
      .tornPrune hs hstatus hcause ⟨hslots, hspent, hpruned⟩⟩
  · -- The evaluation at height 0 with a retention of 1 cannot overflow.
    obtain ⟨-, -, -, hov⟩ := evaluate_error hb₂ he
    omega
  · obtain ⟨r₃, hsame₃, hlead₃⟩ := leads_commit hb₂
      (patch.filter (·.newDeleteAtHeight < r.metadata.deleteAtHeight))
    obtain ⟨st₃, hb₃⟩ := hlead₃.backed
    obtain ⟨r', hlead, hsame⟩ := appendDeletedChild_slots hlead₃.record hb₃ room child
    rw [hc', hok]
    refine ⟨r', hlead₁.trans (hlead₃.trans hlead), .pruneChild hs hstatus h0 ⟨?_, ?_, ?_⟩⟩
    · exact hsame.slots.trans (hsame₃.slots.trans hslots)
    · rw [hsame.spentUtxos, hsame₃.spentUtxos, ← hspent]
      rfl
    · rw [hsame.prunedUtxos, hsame₃.prunedUtxos, ← hpruned]
      rfl

theorem pruneSlot_slots (offset : Nat) :
    ∃ r', Leads key slot c (c.pruneSlot offset).1 r' ∧
      SlotStep cfg key c r (.pruneSlot offset) (c.pruneSlot offset).2.isOk r' := by
  simp only [Cell.pruneSlot, hrec]
  split
  · rename_i hs
    exact ⟨r, .refl hrec hb, .keep ⟨rfl, rfl, rfl⟩ (by simp [flipsFrom, hs])⟩
  rename_i s hs
  split_ifs with hstatus
  · exact ⟨r, .refl hrec hb, .keep ⟨rfl, rfl, rfl⟩ (by simp [flipsFrom, hs, hstatus])⟩
  · exact ⟨_, leads_record hb rfl rfl rfl, .prune hs hstatus ⟨rfl, rfl, rfl⟩⟩

theorem RewritesSlot.slots {offset : Nat} {hash : Hash} {status : UtxoStatus}
    {f : UtxoSlot → UtxoSlot} {out : Cell × Except SpendError Nat} {op : EngineOp}
    (hout : RewritesSlot c r offset hash status f out) (hop : flipsFrom r op = none)
    (hstep : ∀ {s r'}, r.slots[offset]? = some s → s.status = status →
      WritesSlot r r' offset (f s) r.metadata.spentUtxos r.metadata.prunedUtxos →
      SlotStep cfg key c r op true r') :
    ∃ r', Leads key slot c out.1 r' ∧ SlotStep cfg key c r op out.2.isOk r' := by
  rcases hout with ⟨hc', hok⟩ | ⟨s, hs, -, hstatus, hok, hc'⟩ <;> rw [hc', hok]
  · exact ⟨r, .refl hrec hb, .keep ⟨rfl, rfl, rfl⟩ hop⟩
  · exact ⟨_, leads_record hb rfl rfl rfl, hstep hs hstatus ⟨rfl, rfl, rfl⟩⟩

theorem reassign_slots (req : ReassignRequest) :
    ∃ r', Leads key slot c (c.reassign key req).1 r' ∧
      SlotStep cfg key c r (.reassign req) (c.reassign key req).2.isOk r' := by
  unfold Cell.reassign
  split
  · exact ⟨r, .refl hrec hb, .keep ⟨rfl, rfl, rfl⟩ rfl⟩
  rename_i r₀ height hv
  obtain ⟨hrec₀, -, rfl, hlt, s, hs, hstatus⟩ := validateReassign_ok hv
  cases hrec.symm.trans hrec₀
  exact ⟨_, leads_mirror hb rfl rfl rfl, .reassign hs hstatus hlt ⟨rfl, rfl, rfl⟩⟩

/-- What an operation does to a record that exists and is backed by its mined slot. -/
theorem next_slots (cfg : StoreConfig) (op : EngineOp) :
    ∃ r', Leads key slot c (c.next cfg key op) r' ∧
      SlotStep cfg key c r op (c.perform cfg key op).2.isOk r' := by
  have hkeep : ∀ {c' : Cell} {op : EngineOp} {ok : Bool}, flipsFrom r op = none →
      (∃ r', Leads key slot c c' r' ∧ SameSlots r r') →
      ∃ r', Leads key slot c c' r' ∧ SlotStep cfg key c r op ok r' := by
    rintro c' op ok hop ⟨r', hlead, hsame⟩
    exact ⟨r', hlead, .keep hsame hop⟩
  cases op with
  | create room req =>
    have hsame : (c.create key room req).1 = c := by
      simp only [Cell.create, hrec]
      grind
    have hlead : Leads key slot c (c.create key room req).1 r := hsame.symm ▸ .refl hrec hb
    exact hkeep rfl ⟨r, hlead, rfl, rfl, rfl⟩
  | spend room req => exact spend_slots hrec hb room req
  | spendMulti room req => exact spendMulti_slots hrec hb room req
  | unspend req => exact unspend_slots hrec hb req
  | setMined req => exact hkeep rfl (setMinedInner_slots hrec hb req)
  | markOnLongestChain req => exact hkeep rfl (markOnLongestChain_slots hrec hb req)
  | setConflicting req => exact hkeep rfl (setConflicting_slots hrec hb req)
  | setLocked value => exact hkeep rfl (setLocked_slots hrec hb value)
  | preserveUntil blockHeight => exact hkeep rfl (preserveUntil_slots hrec hb blockHeight)
  | expirePreservationSetDah cur ret =>
    exact hkeep rfl (expirePreservationSetDah_slots hrec hb cur ret)
  | pruneSlotIfSpentByChild room offset child =>
    exact pruneSlotIfSpentByChild_slots hrec hb room offset child
  | pruneSlot offset => exact pruneSlot_slots hrec hb offset
  | freeze offset hash => exact (freeze_cases hrec offset hash).slots hrec hb rfl .freeze
  | unfreeze offset hash => exact (unfreeze_cases hrec offset hash).slots hrec hb rfl .unfreeze
  | reassign req => exact reassign_slots hrec hb req

end

end TeraSlab.Ops
