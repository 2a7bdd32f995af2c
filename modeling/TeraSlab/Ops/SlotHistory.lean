import TeraSlab.Ops.Linked

/-!
# The history of a slot

`SlotChange` lists what an operation can do to one slot of a record, so that a property of a slot
is followed through a run by looking at that slot alone. A spend of the slot is accepted on its own
or as an item of a batch; either way the slot is spent by it afterwards.
-/

namespace TeraSlab.Ops

open Foundations Index

variable {c : Cell} {cfg : StoreConfig} {key : TxKey} {r r' : Record} {s u : UtxoSlot}
  {offset : Nat} {b : Cell.Batch}

/-! ### Changes -/

/-- The changes an operation can make to the slot at an offset. -/
inductive SlotChange (cfg : StoreConfig) (key : TxKey) (c : Cell) (op : EngineOp) (ok : Bool)
    (offset : Nat) (s : UtxoSlot) : UtxoSlot → Prop where
  | same : SlotChange cfg key c op ok offset s s
  | spend {hash : Hash} {d : SpendingData} (hstatus : s.status = .unspent) :
      SlotChange cfg key c op ok offset s (.newSpent hash d)
  | unspend {req : UnspendRequest} (hop : op = .unspend req) (hoffset : req.offset = offset)
      (howns : Cell.ownsSpend s req.spendingData) (hclears : c.clears req)
      (hok : ok = true ∨ c.tears cfg key op) :
      SlotChange cfg key c op ok offset s (.newUnspent s.hash)
  | prune (hstatus : s.status ≠ .pruned) :
      SlotChange cfg key c op ok offset s { s with status := .pruned }
  | freeze (hstatus : s.status = .unspent) : SlotChange cfg key c op ok offset s (frozenForm s)
  | unfreeze {hash : Hash} (hop : op = .unfreeze offset hash) (hstatus : s.status = .frozen) :
      SlotChange cfg key c op ok offset s (thawedForm s)
  | reassign {req : ReassignRequest} (hop : op = .reassign req) (hoffset : req.offset = offset)
      (hok : ok = true) (hstatus : s.status = .frozen) :
      SlotChange cfg key c op ok offset s
        (.newUnspentWithCooldown req.newUtxoHash (req.blockHeight + req.spendableAfter))

/-- An operation that writes one slot changes that slot and no other. -/
theorem WritesSlot.slot {offset' spent pruned : Nat} {s₀ : UtxoSlot}
    (hw : WritesSlot r r' offset' u spent pruned) (hslot : r.slots[offset']? = some s₀)
    (hs : r.slots[offset]? = some s) :
    (offset' = offset ∧ s₀ = s ∧ r'.slots[offset]? = some u) ∨ r'.slots[offset]? = some s := by
  rw [hw.slots]
  by_cases h : offset' = offset
  · subst h
    obtain ⟨hlt, -⟩ := List.getElem?_eq_some_iff.mp hs
    exact .inl ⟨rfl, Option.some.inj (hslot.symm.trans hs), by simp [hlt]⟩
  · exact .inr (by simp [h, hs])

/-- The items of a batch leave alone a slot that is not unspent. -/
theorem foldl_addItem_keeps {height : Nat} (items : List SpendItem)
    (hs : (r.writeSlots b.validSpends).slots[offset]? = some s) (hne : s.status ≠ .unspent) :
    (r.writeSlots (items.foldl (Cell.Batch.addItem r height) b).validSpends).slots[offset]? =
      some s := by
  induction items generalizing b with
  | nil => exact hs
  | cons item items ih =>
    refine ih ?_
    rcases addItem_cases r height b item with ⟨hws, -⟩ | ⟨s₀, hs₀, -, hcheck, hws, -⟩
    · rw [hws, hs]
    rw [hws, writeSlots_concat, Record.writeSlot_slots]
    have hoffset : item.offset ≠ offset := by
      rintro rfl
      cases hs₀.symm.trans hs
      exact hne (checkSlot_fresh hcheck).2.1
    simp [hoffset, hs]

/-- A batch leaves a slot alone, or spends it when it is unspent. -/
theorem batch_slot (height : Nat) (items : List SpendItem) (hs : r.slots[offset]? = some s) :
    (r.writeSlots (Cell.Batch.ofItems r height items).validSpends).slots[offset]? = some s ∨
      s.status = .unspent ∧ ∃ hash d,
        (r.writeSlots (Cell.Batch.ofItems r height items).validSpends).slots[offset]? =
          some (.newSpent hash d) := by
  induction items using List.reverseRecOn with
  | nil => exact .inl hs
  | append_singleton items item ih =>
    simp only [Cell.Batch.ofItems, List.foldl_concat] at ih ⊢
    generalize List.foldl (Cell.Batch.addItem r height) {} items = b at ih ⊢
    rcases addItem_cases r height b item with ⟨hws, -⟩ | ⟨s₀, hs₀, -, hcheck, hws, -⟩
    · rw [hws]
      exact ih
    rw [hws, writeSlots_concat, Record.writeSlot_slots]
    by_cases hoffset : item.offset = offset
    · subst hoffset
      obtain ⟨hlt, -⟩ := List.getElem?_eq_some_iff.mp hs₀
      have hfresh := (checkSlot_fresh hcheck).2.1
      refine .inr ⟨?_, item.utxoHash, item.spendingData, by simp [hlt]⟩
      -- The item saw an unspent slot, which no earlier item has written.
      rcases ih with ih | ⟨hstatus, -⟩
      · cases hs₀.symm.trans ih
        exact hfresh
      · exact hstatus
    · simpa [hoffset] using ih

theorem SlotStep.slot {op : EngineOp} {ok : Bool} (hstep : SlotStep cfg key c r op ok r')
    (hs : r.slots[offset]? = some s) :
    ∃ s', r'.slots[offset]? = some s' ∧ SlotChange cfg key c op ok offset s s' := by
  -- A written slot at another offset leaves this one as it was.
  have hwrite : ∀ {offset' spent pruned : Nat} {s₀ u : UtxoSlot},
      WritesSlot r r' offset' u spent pruned → r.slots[offset']? = some s₀ →
      (offset' = offset → s₀ = s → SlotChange cfg key c op ok offset s u) →
      ∃ s', r'.slots[offset]? = some s' ∧ SlotChange cfg key c op ok offset s s' := by
    intro offset' spent pruned s₀ u hw hslot hchange
    rcases hw.slot hslot hs with ⟨hoffset, hs₀, hu⟩ | hsame
    · exact ⟨u, hu, hchange hoffset hs₀⟩
    · exact ⟨s, hsame, .same⟩
  have hbatch : ∀ {req : SpendMultiRequest},
      r'.slots = (r.writeSlots (batchOf r req).validSpends).slots →
      ∃ s', r'.slots[offset]? = some s' ∧ SlotChange cfg key c op ok offset s s' := by
    intro req hslots
    rw [hslots]
    rcases batch_slot req.currentBlockHeight req.spends hs with
      hsame | ⟨hstatus, hash, d, hspent⟩
    · exact ⟨s, hsame, .same⟩
    · exact ⟨_, hspent, .spend hstatus⟩
  cases hstep with
  | keep hsame _ => exact ⟨s, hsame.slots ▸ hs, .same⟩
  | spend hslot hcheck hw =>
    refine hwrite hw hslot ?_
    rintro - rfl
    exact .spend (checkSlot_fresh hcheck).2.1
  | batch hslots _ _ => exact hbatch hslots
  | tornBatch _ hslots _ _ => exact hbatch hslots
  | unspend hslot howns _ hclears hw =>
    refine hwrite hw hslot ?_
    rintro hoffset rfl
    exact .unspend rfl hoffset howns hclears (.inl rfl)
  | tornUnspend hslot howns hcause hw =>
    refine hwrite hw hslot ?_
    rintro hoffset rfl
    have hclears : c.clears _ = true := (Bool.and_eq_true_iff.mp hcause).1
    exact .unspend rfl hoffset howns hclears (.inr hcause)
  | pruneChild hslot hstatus _ hw | tornPrune hslot hstatus _ hw =>
    refine hwrite hw hslot ?_
    rintro - rfl
    exact .prune (by simp [hstatus])
  | prune hslot hstatus hw =>
    refine hwrite hw hslot ?_
    rintro - rfl
    exact .prune hstatus
  | freeze hslot hstatus hw =>
    refine hwrite hw hslot ?_
    rintro - rfl
    exact .freeze hstatus
  | unfreeze hslot hstatus hw =>
    refine hwrite hw hslot ?_
    rintro rfl rfl
    exact .unfreeze rfl hstatus
  | reassign hslot hstatus _ hw =>
    refine hwrite hw hslot ?_
    rintro hoffset rfl
    exact .reassign rfl hoffset rfl hstatus

/-! ### Accepted spends -/

/-- The operation accepts a spend of the slot at an offset, with the given spending data and at the
given height: on its own, or as an item of a batch that passes the validation loop. -/
inductive Cell.Accepts (c : Cell) (cfg : StoreConfig) (key : TxKey) :
    EngineOp → Nat → SpendingData → Nat → SpendKind → Prop where
  | spend {room : Room} {req : SpendRequest} {r : Record} {kind : SpendKind}
      (hok : c.Succeeds cfg key (.spend room req)) (h : c.validateSpend key req = .ok (r, kind)) :
      Accepts c cfg key (.spend room req) req.offset req.spendingData req.currentBlockHeight kind
  | item {room : Room} {req : SpendMultiRequest} {r : Record} {kind : SpendKind}
      {before after : List SpendItem} {item : SpendItem}
      (hok : c.Succeeds cfg key (.spendMulti room req)) (hrec : c.record = some r)
      (hitems : req.spends = before ++ item :: after)
      (h : (Batch.ofItems r req.currentBlockHeight before).checkItem r req.currentBlockHeight item =
        .ok kind) :
      Accepts c cfg key (.spendMulti room req) item.offset item.spendingData
        req.currentBlockHeight kind

variable {room : Room} {req : SpendRequest}

theorem Cell.accepts_of_succeeds (h : c.Succeeds cfg key (.spend room req)) :
    ∃ kind, c.Accepts cfg key (.spend room req) req.offset req.spendingData
      req.currentBlockHeight kind := by
  have hok : (c.spend cfg key room req).2.isOk := h
  unfold Cell.spend at hok
  split at hok
  · cases hok
  · exact ⟨.fresh, .spend h ‹_›⟩
  · exact ⟨.repeated, .spend h ‹_›⟩

theorem commit_sameSlots (c : Cell) (key : TxKey) (r : Record) (patch : Option DahPatch) :
    ∃ r', (c.commit key r patch).record = some r' ∧ SameSlots r r' := by
  obtain ⟨l, r', hr', hc⟩ := commit_eq c key r patch
  exact ⟨r', by rw [hc], by rw [hr']; exact ⟨rfl, rfl, rfl⟩⟩

theorem Commits.sameSlots {r₁ r₂ : Record} {cur ret : Nat} {c' : Cell}
    (h : Commits key c r₁ r₂ cur ret c') : ∃ r', c'.record = some r' ∧ SameSlots r₂ r' := by
  obtain ⟨-, -, patch, -, rfl⟩ := h
  exact commit_sameSlots c key r₂ patch

theorem length_validSpends (r : Record) (height : Nat) (items : List SpendItem) :
    (Cell.Batch.ofItems r height items).validSpends.length =
      (Cell.Batch.ofItems r height items).spentCount := by
  induction items using List.reverseRecOn with
  | nil => rfl
  | append_singleton items item ih =>
    simp only [Cell.Batch.ofItems, List.foldl_concat] at ih ⊢
    rcases addItem_cases r height (items.foldl (Cell.Batch.addItem r height) {}) item with
      ⟨hws, hn⟩ | ⟨_, -, -, -, hws, hn⟩
    · rw [hws, hn, ih]
    · rw [hws, hn, List.length_append, ih, List.length_singleton]

theorem spendMulti_succeeds {req : SpendMultiRequest} (hrec : c.record = some r)
    (h : (c.spendMulti cfg key room req).2.isOk) :
    ∃ r', (c.spendMulti cfg key room req).1.record = some r' ∧
      r'.slots = (r.writeSlots (batchOf r req).validSpends).slots := by
  rcases spendMulti_cases hrec cfg key room req with
    ⟨hsame, hcount⟩ | ⟨-, -, ⟨hfail, -⟩ | ⟨-, hcommit⟩⟩
  · have hnil : (batchOf r req).validSpends = [] :=
      List.eq_nil_of_length_eq_zero ((length_validSpends ..).trans (hcount h))
    exact ⟨r, by rw [hsame, hrec], by rw [hnil]; rfl⟩
  · rw [hfail] at h
    cases h
  · obtain ⟨r', hrec', hsame⟩ := hcommit.sameSlots
    exact ⟨r', hrec', hsame.slots⟩

theorem checkItem_ok {height : Nat} {item : SpendItem} {kind : SpendKind}
    (h : b.checkItem r height item = .ok kind) :
    ∃ s, (r.writeSlots b.validSpends).slots[item.offset]? = some s ∧
      Cell.checkSlot r s item.offset item.utxoHash item.spendingData height = .ok kind := by
  have hslot := slotAt_eq b r item.offset
  unfold Cell.Batch.checkItem at h
  grind

section

variable {op : EngineOp} {d : SpendingData} {height : Nat} {kind : SpendKind}
    (h : c.Accepts cfg key op offset d height kind) (hrec : c.record = some r)
include h hrec

/-- What the slot was before an accepted spend; an item of a batch may repeat an earlier one. -/
theorem Cell.Accepts.before :
    ∃ s, r.slots[offset]? = some s ∧
      (s.status = .unspent ∧ (kind = .fresh → s.reassignmentCooldown ≤ height) ∨
        kind = .repeated ∧ s.status = .spent ∧ s.spendingData = d) := by
  have hchecked : ∀ {s : UtxoSlot} {hash : Hash}, checkSlot r s offset hash d height = .ok kind →
      s.status = .unspent ∧ (kind = .fresh → s.reassignmentCooldown ≤ height) ∨
        kind = .repeated ∧ s.status = .spent ∧ s.spendingData = d := by
    intro s hash hcheck
    cases kind with
    | fresh =>
      obtain ⟨-, hstatus, hcooldown⟩ := checkSlot_fresh hcheck
      exact .inl ⟨hstatus, fun _ => by omega⟩
    | repeated => exact .inr ⟨rfl, checkSlot_repeated hcheck⟩
  cases h with
  | spend _ hv =>
    obtain ⟨hrec₀, -, -, s, hs, hcheck⟩ := validateSpend_ok hv
    cases hrec.symm.trans hrec₀
    exact ⟨s, hs, hchecked hcheck⟩
  | @item room req r₀ kind before after item _ hrec₀ _ hitem =>
    cases hrec.symm.trans hrec₀
    obtain ⟨s₁, hs₁, hcheck⟩ := checkItem_ok hitem
    have hlen := (writeSlots_metadata r
      (Batch.ofItems r req.currentBlockHeight before).validSpends).2.2
    obtain ⟨s, hs⟩ : ∃ s, r.slots[item.offset]? = some s := by
      obtain ⟨hlt, -⟩ := List.getElem?_eq_some_iff.mp hs₁
      exact ⟨_, List.getElem?_eq_getElem (lt_of_lt_of_eq hlt hlen)⟩
    refine ⟨s, hs, ?_⟩
    rcases batch_slot req.currentBlockHeight before hs with hsame | ⟨hstatus, hash, d, hspent⟩
    · cases hsame.symm.trans hs₁
      exact hchecked hcheck
    -- An earlier item has spent the slot, so that this one repeats it.
    cases hspent.symm.trans hs₁
    rcases hchecked hcheck with ⟨hfresh, -⟩ | ⟨rfl, -⟩
    · cases hfresh
    · exact .inl ⟨hstatus, nofun⟩

theorem Cell.Accepts.after :
    ∃ r' s', (c.next cfg key op).record = some r' ∧ r'.slots[offset]? = some s' ∧
      s'.status = .spent ∧ s'.spendingData = d := by
  cases h with
  | @spend room req r₀ kind hok hv =>
    replace hok : (c.spend cfg key room req).2.isOk := hok
    show ∃ r' s', (c.spend cfg key room req).1.record = some r' ∧ _
    rcases spend_cases hrec cfg key room req with
      ⟨hsame, hchecks⟩ | ⟨s, ⟨hs, -⟩, ⟨hfail, -⟩ | ⟨-, hcommit⟩⟩
    · obtain ⟨s, hs, -, hcheck⟩ := hchecks hok
      exact ⟨r, s, by rw [hsame, hrec], hs, checkSlot_repeated hcheck⟩
    · rw [hfail] at hok
      cases hok
    · obtain ⟨r', hrec', hsame⟩ := hcommit.sameSlots
      obtain ⟨hlt, -⟩ := List.getElem?_eq_some_iff.mp hs
      refine ⟨r', .newSpent req.utxoHash req.spendingData, hrec', ?_, rfl, rfl⟩
      rw [hsame.slots]
      simp [Cell.countSpent, hlt]
  | @item room req r₀ kind before after item hok hrec₀ hitems hitem =>
    cases hrec.symm.trans hrec₀
    obtain ⟨r', hrec', hslots⟩ := spendMulti_succeeds hrec hok
    obtain ⟨s₁, hs₁, hcheck⟩ := checkItem_ok hitem
    -- The item leaves the slot spent, and the later items leave it alone.
    obtain ⟨s', hs', hstatus, hd⟩ : ∃ s', (r.writeSlots ((Batch.ofItems r req.currentBlockHeight
        before).addItem r req.currentBlockHeight item).validSpends).slots[item.offset]? = some s' ∧
        s'.status = .spent ∧ s'.spendingData = item.spendingData := by
      unfold Batch.addItem
      rw [hitem]
      cases kind with
      | fresh =>
        obtain ⟨hlt, -⟩ := List.getElem?_eq_some_iff.mp hs₁
        refine ⟨.newSpent item.utxoHash item.spendingData, ?_, rfl, rfl⟩
        rw [writeSlots_concat, Record.writeSlot_slots]
        simp [hlt]
      | repeated => exact ⟨s₁, hs₁, checkSlot_repeated hcheck⟩
    refine ⟨r', s', hrec', ?_, hstatus, hd⟩
    rw [hslots, batchOf, hitems, Batch.ofItems, List.foldl_append, List.foldl_cons]
    exact foldl_addItem_keeps after hs' (by simp [hstatus])

end

/-! ### The slot in a run -/

def Engine.slot (s : Engine) (key : TxKey) (offset : Nat) : Option UtxoSlot :=
  (s.records key).bind (·.slots[offset]?)

def Engine.Accepts (s : Engine) (cfg : TxKey → StoreConfig) (call : Call) (key : TxKey)
    (offset : Nat) (d : SpendingData) (height : Nat) (kind : SpendKind) : Prop :=
  call.key = key ∧ (s.cell key).Accepts (cfg key) key call.op offset d height kind

theorem Engine.slot_eq_some {s : Engine} :
    s.slot key offset = some u ↔ ∃ r, s.records key = some r ∧ r.slots[offset]? = some u := by
  simp [Engine.slot, Option.bind_eq_some_iff]

section Runs

variable {cfg : TxKey → StoreConfig} {s : Engine} {call : Call} {d : SpendingData} {height : Nat}
  {kind : SpendKind}

theorem Linked.slot_step (h : Linked s) (cfg : TxKey → StoreConfig) (call : Call)
    (hs : s.slot key offset = some u) :
    ∃ u', (s.step cfg call).slot key offset = some u' ∧
      (u' = u ∨ call.key = key ∧ SlotChange (cfg key) key (s.cell key) call.op
        ((s.cell key).perform (cfg key) key call.op).2.isOk offset u u') := by
  obtain ⟨r, hrec, hu⟩ := Engine.slot_eq_some.mp hs
  by_cases hkey : call.key = key
  · subst hkey
    rcases h.step_cases cfg call with
      ⟨hnone, -⟩ | ⟨hnone, -⟩ | ⟨r₀, r', slot, hrec₀, hlead, -, hstep⟩
    · simp [hrec] at hnone
    · simp [hrec] at hnone
    · cases hrec.symm.trans hrec₀
      obtain ⟨u', hu', hchange⟩ := hstep.slot hu
      refine ⟨u', Engine.slot_eq_some.mpr ⟨r', ?_, hu'⟩, .inr ⟨rfl, hchange⟩⟩
      rw [records_step, hlead.record]
  · exact ⟨u, by rw [Engine.slot, records_step_of_ne (Ne.symm hkey)]; exact hs, .inl rfl⟩

theorem Cell.Accepts.record {op : EngineOp} {cfg : StoreConfig}
    (h : c.Accepts cfg key op offset d height kind) : ∃ r, c.record = some r := by
  cases h with
  | spend _ hv => exact ⟨_, (validateSpend_ok hv).1⟩
  | item _ hrec _ _ => exact ⟨_, hrec⟩

theorem Engine.accepts_of_succeeds (h : s.Succeeds cfg ⟨key, .spend room req⟩) :
    ∃ kind, s.Accepts cfg ⟨key, .spend room req⟩ key req.offset req.spendingData
      req.currentBlockHeight kind := by
  obtain ⟨kind, hacc⟩ := Cell.accepts_of_succeeds h
  exact ⟨kind, rfl, hacc⟩

theorem Engine.accepts_fresh (h : s.Succeeds cfg ⟨key, .spend room req⟩)
    (hunspent : (s.slot key req.offset).any (·.status = .unspent)) :
    s.Accepts cfg ⟨key, .spend room req⟩ key req.offset req.spendingData
      req.currentBlockHeight .fresh := by
  obtain ⟨kind, -, hacc⟩ := Engine.accepts_of_succeeds h
  cases kind with
  | fresh => exact ⟨rfl, hacc⟩
  | repeated =>
    cases hacc with
    | spend _ hv =>
      obtain ⟨hrec, -, -, u, hu, hcheck⟩ := validateSpend_ok hv
      have hrec : s.records key = some _ := hrec
      simp [Engine.slot, hrec, hu, (checkSlot_repeated hcheck).1] at hunspent

theorem Engine.Accepts.before (h : s.Accepts cfg call key offset d height kind) :
    ∃ u, s.slot key offset = some u ∧
      (u.status = .unspent ∧ (kind = .fresh → u.reassignmentCooldown ≤ height) ∨
        kind = .repeated ∧ u.status = .spent ∧ u.spendingData = d) := by
  obtain ⟨-, h⟩ := h
  obtain ⟨r, hrec⟩ := h.record
  obtain ⟨u, hu, hcases⟩ := h.before hrec
  exact ⟨u, Engine.slot_eq_some.mpr ⟨r, hrec, hu⟩, hcases⟩

theorem Engine.Accepts.after (h : s.Accepts cfg call key offset d height kind) :
    ∃ u, (s.step cfg call).slot key offset = some u ∧ u.status = .spent ∧ u.spendingData = d := by
  obtain ⟨rfl, h⟩ := h
  obtain ⟨r, hrec⟩ := h.record
  obtain ⟨r', u, hrec', hu, hspent⟩ := h.after hrec
  exact ⟨u, Engine.slot_eq_some.mpr ⟨r', (records_step ..).trans hrec', hu⟩, hspent⟩

end Runs

end TeraSlab.Ops
