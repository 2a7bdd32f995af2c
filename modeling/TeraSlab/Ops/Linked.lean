import TeraSlab.Ops.Slots

/-!
# Records and their slots in the mined index

In every state of the engine each record is backed by a slot of its own in the mined index. An
operation on one transaction therefore changes neither another record nor what its owner sees in
the mined index, and can only do to its own record what `SlotStep` lists.
-/

namespace TeraSlab.Ops

open Foundations Index MinedShard

variable {c : Cell} {cfg : TxKey → StoreConfig} {key : TxKey} {r : Record} {slot : Nat}
  {st : MinedTransitionState}

/-! ### Creation -/

theorem seedMinedIndexFromInfos_backed {mined : MinedShard} (h : Backed mined key r slot st)
    (unminedSince : Nat) (infos : List MinedBlockInfo) :
    Elsewhere mined (Cell.seedMinedIndexFromInfos mined key slot unminedSince infos) slot ∧
      ∃ st', Backed (Cell.seedMinedIndexFromInfos mined key slot unminedSince infos) key r slot
          st' ∧ st'.allSpent = st.allSpent := by
  induction infos generalizing mined st with
  | nil => exact ⟨.refl _ _, st, h, rfl⟩
  | cons info infos ih =>
    obtain ⟨e, he, -⟩ := readMinedState_eq_some.mp h.view
    obtain ⟨hels, st₁, hview, -, hall⟩ := (applySetMined_keepsFlags he key info.blockId
      info.blockHeight info.subtreeIdx (unminedSince = 0)).view he h.view
    obtain ⟨hels', st', hback, hall'⟩ := ih ⟨h.minedSlot, hview⟩
    exact ⟨hels.trans hels', st', hback, hall'.trans hall⟩

theorem Shaped.of_backed {mined mined' : MinedShard} {r' : Record} {st' : MinedTransitionState}
    (hs : mined.Shaped) (hels : Elsewhere mined mined' slot) (h : Backed mined key r slot st)
    (h' : Backed mined' key r' slot st') : mined'.Shaped := by
  obtain ⟨e, he, -⟩ := readMinedState_eq_some.mp h.view
  obtain ⟨e', he', -⟩ := readMinedState_eq_some.mp h'.view
  exact hs.of_elsewhere hels he he'

structure Created (key : TxKey) (c c' : Cell) (req : CreateRequest) (slot : Nat)
    (st : MinedTransitionState) : Prop where
  utxoHashes : req.utxoHashes ≠ []
  record : c'.record = some (Cell.createRecord req slot)
  fresh : c.mined.get slot = none
  elsewhere : ∀ k, ∀ i ≠ slot, c'.mined.readMinedState k i = c.mined.readMinedState k i
  shaped : c'.mined.Shaped
  backed : Backed c'.mined key (Cell.createRecord req slot) slot st
  agrees : CacheAgrees (Cell.createRecord req slot) st
  allSpent : st.allSpent = false
  dahHeight : c'.dahHeight = c.dahHeight
  preserveHeight : c'.preserveHeight = c.preserveHeight

theorem create_cases (hs : c.mined.Shaped) (key : TxKey) (room : Room) (req : CreateRequest) :
    ((c.create key room req).1 = c ∧ (c.create key room req).2.isOk = false) ∨
      ∃ slot st, Created key c (c.create key room req).1 req slot st := by
  unfold Cell.create
  split
  · exact .inl ⟨rfl, rfl⟩
  rename_i h0
  split
  · exact .inl ⟨rfl, rfl⟩
  split
  · exact .inl ⟨rfl, rfl⟩
  split
  · exact .inl ⟨rfl, rfl⟩
  right
  dsimp only
  generalize (if req.minedBlockInfos.isEmpty then req.blockHeight else 0) = unminedSince
  obtain ⟨mined, slot, heq, hdead, hothers, hshaped, st₀, hview, hall⟩ :=
    allocCreated_view hs key unminedSince
  have hb₀ : Backed mined key (Cell.createRecord req slot) slot st₀ := ⟨rfl, hview⟩
  obtain ⟨hels₁, st₁, hb₁, hall₁⟩ :=
    seedMinedIndexFromInfos_backed hb₀ unminedSince req.minedBlockInfos
  obtain ⟨hels₂, de, hb₂, hagree⟩ := mirrorDeFlags_backed hb₁
  have hels := hels₁.trans hels₂
  rw [heq]
  refine ⟨slot, _, fun h => h0 (by simp [h]), rfl, hdead, ?_, ?_, hb₂, hagree,
    hall₁.trans hall, rfl, rfl⟩
  · exact fun k i hi => (hels.view hi k).trans (hothers k i hi)
  · exact Shaped.of_backed hshaped hels hb₀ hb₂

/-- Without a record only a creation changes anything. -/
theorem next_of_none (hrec : c.record = none) (cfg : StoreConfig) {op : EngineOp}
    (hop : ∀ room req, op ≠ .create room req) : c.next cfg key op = c := by
  cases op with
  | create room req => exact absurd rfl (hop room req)
  | spend room req =>
    simp only [Cell.next, Cell.perform, Cell.spend, Cell.validateSpend, hrec, Prod.map, id]
    grind
  | expirePreservationSetDah cur ret =>
    simp only [Cell.next, Cell.perform, Cell.expirePreservationSetDah, hrec, Prod.map, id]
    grind
  | spendMulti | unspend | setMined | markOnLongestChain | setConflicting | setLocked
  | preserveUntil | pruneSlotIfSpentByChild | pruneSlot | freeze | unfreeze | reassign =>
    simp [Cell.next, Cell.perform, Cell.spendMulti, Cell.prepareSpendMulti, Cell.unspend,
      Cell.validateUnspend, Cell.setMinedInner, Cell.markOnLongestChain, Cell.setConflicting,
      Cell.setLocked, Cell.preserveUntil, Cell.pruneSlotIfSpentByChild, Cell.pruneSlot,
      Cell.freeze, Cell.unfreeze, Cell.reassign, Cell.validateReassign, hrec]

/-! ### The invariant -/

/-- Every record is backed by a slot of its own. -/
structure Linked (s : Engine) : Prop where
  shaped : s.mined.Shaped
  backed : ∀ key r, s.records key = some r → ∃ slot st, Backed s.mined key r slot st
  own : ∀ key key' r r', s.records key = some r → s.records key' = some r' →
    r.minedSlot = r'.minedSlot → key = key'

theorem linked_empty : Linked .empty :=
  ⟨shaped_empty, fun _ _ h => (nomatch h), fun _ _ _ _ h => (nomatch h)⟩

variable {s : Engine} {call : Call}

@[simp] theorem records_step_of_ne (h : key ≠ call.key) :
    (Engine.step cfg s call).records key = s.records key := by
  simp [Engine.step, Engine.put, h]

theorem dahIndex_step_of_ne (h : key ≠ call.key) :
    (Engine.step cfg s call).dahIndex key = s.dahIndex key := by
  simp [Engine.step, Engine.put, h]

theorem preserveIndex_step_of_ne (h : key ≠ call.key) :
    (Engine.step cfg s call).preserveIndex key = s.preserveIndex key := by
  simp [Engine.step, Engine.put, h]

theorem records_step (cfg : TxKey → StoreConfig) (s : Engine) (call : Call) :
    (Engine.step cfg s call).records call.key =
      ((s.cell call.key).next (cfg call.key) call.key call.op).record := by
  simp [Engine.step, Engine.put]

/-- A step of the engine, seen from the transaction it is about. -/
inductive StepCase (cfg : TxKey → StoreConfig) (s : Engine) (call : Call) : Prop where
  | idle (hrec : s.records call.key = none) (h : Engine.step cfg s call = s)
  | create (hrec : s.records call.key = none) (room : Room) (req : CreateRequest) (slot : Nat)
      (st : MinedTransitionState) (hop : call.op = .create room req)
      (h : Created call.key (s.cell call.key)
        ((s.cell call.key).next (cfg call.key) call.key call.op) req slot st)
  | change (r r' : Record) (slot : Nat) (hrec : s.records call.key = some r)
      (hlead : Leads call.key slot (s.cell call.key)
        ((s.cell call.key).next (cfg call.key) call.key call.op) r')
      (hback : ∃ st, Backed s.mined call.key r slot st)
      (hstep : SlotStep (cfg call.key) call.key (s.cell call.key) r call.op
        ((s.cell call.key).perform (cfg call.key) call.key call.op).2.isOk r')

theorem Engine.put_cell (s : Engine) (key : TxKey) : s.put key (s.cell key) = s := by
  simp [Engine.put, Engine.cell]

theorem Linked.step_cases (h : Linked s) (cfg : TxKey → StoreConfig) (call : Call) :
    StepCase cfg s call := by
  cases hrec : s.records call.key with
  | none =>
    by_cases hop : ∃ room req, call.op = .create room req
    · obtain ⟨room, req, hop⟩ := hop
      have hnext : (s.cell call.key).next (cfg call.key) call.key call.op =
          ((s.cell call.key).create call.key room req).1 := by
        rw [hop]
        rfl
      have hshaped : (s.cell call.key).mined.Shaped := h.shaped
      rcases create_cases hshaped call.key room req with ⟨hsame, -⟩ | ⟨slot, st, hcreated⟩
      · refine .idle hrec ?_
        rw [Engine.step, hnext, hsame, Engine.put_cell]
      · exact .create hrec room req slot st hop (hnext ▸ hcreated)
    · refine .idle hrec ?_
      rw [Engine.step, next_of_none hrec (cfg call.key) fun room req h => hop ⟨room, req, h⟩,
        Engine.put_cell]
  | some r =>
    obtain ⟨slot, st, hb⟩ := h.backed call.key r hrec
    obtain ⟨r', hlead, hstep⟩ := next_slots (c := s.cell call.key) hrec hb (cfg call.key) call.op
    exact .change r r' slot hrec hlead ⟨st, hb⟩ hstep

/-- The owner of another record sees the same mined state before and after the step. -/
theorem Linked.backed_step_of_ne (h : Linked s) (hkey : key ≠ call.key)
    (hrec : s.records key = some r) (hb : Backed s.mined key r slot st) :
    Backed (Engine.step cfg s call).mined key r slot st := by
  refine ⟨hb.minedSlot, ?_⟩
  rcases h.step_cases cfg call with
    ⟨-, hidle⟩ | ⟨-, room, req, slot', st', -, hcreated⟩ | ⟨r₁, r', slot', hrec₁, hlead, hb₁, -⟩
  · rw [hidle]
    exact hb.view
  · have hne : slot ≠ slot' := by
      rintro rfl
      obtain ⟨e, he, -⟩ := readMinedState_eq_some.mp hb.view
      exact absurd (he.symm.trans hcreated.fresh) (by simp)
    exact (hcreated.elsewhere key slot hne).trans hb.view
  · have hne : slot ≠ slot' := by
      rintro rfl
      obtain ⟨st₁, hb₁⟩ := hb₁
      exact hkey (h.own key call.key r r₁ hrec hrec₁ (hb.minedSlot.trans hb₁.minedSlot.symm))
    exact (hlead.elsewhere.view hne key).trans hb.view

theorem Linked.step (h : Linked s) (cfg : TxKey → StoreConfig) (call : Call) :
    Linked (Engine.step cfg s call) := by
  -- It is enough to know the new record and that its slot is not another record's.
  have hnew : ∀ {r' : Record} {slot : Nat} {st' : MinedTransitionState},
      (Engine.step cfg s call).mined.Shaped →
      (Engine.step cfg s call).records call.key = some r' →
      Backed (Engine.step cfg s call).mined call.key r' slot st' →
      (∀ key r, key ≠ call.key → s.records key = some r → r.minedSlot ≠ some slot) →
      Linked (Engine.step cfg s call) := by
    intro r' slot st' hshaped hrec' hb' hown
    refine ⟨hshaped, fun key r hr => ?_, fun key key' r₁ r₂ hr₁ hr₂ hslot => ?_⟩
    · by_cases hkey : key = call.key
      · subst hkey
        cases hrec'.symm.trans hr
        exact ⟨slot, st', hb'⟩
      · rw [records_step_of_ne hkey] at hr
        obtain ⟨slot', st, hb⟩ := h.backed key r hr
        exact ⟨slot', st, h.backed_step_of_ne hkey hr hb⟩
    · by_cases hkey : key = call.key
      · by_cases hkey' : key' = call.key
        · rw [hkey, hkey']
        subst hkey
        cases hrec'.symm.trans hr₁
        rw [records_step_of_ne hkey'] at hr₂
        exact absurd (hslot.symm.trans hb'.minedSlot) (hown key' r₂ hkey' hr₂)
      · rw [records_step_of_ne hkey] at hr₁
        by_cases hkey' : key' = call.key
        · subst hkey'
          cases hrec'.symm.trans hr₂
          exact absurd (hslot.trans hb'.minedSlot) (hown key r₁ hkey hr₁)
        · rw [records_step_of_ne hkey'] at hr₂
          exact h.own key key' r₁ r₂ hr₁ hr₂ hslot
  rcases h.step_cases cfg call with
    ⟨-, hidle⟩ | ⟨-, room, req, slot, st, -, hcreated⟩ | ⟨r₁, r', slot, hrec₁, hlead, hb₁, -⟩
  · rw [hidle]
    exact h
  · refine hnew hcreated.shaped ((records_step ..).trans hcreated.record) hcreated.backed ?_
    intro key r _ hr hslot
    obtain ⟨slot', st', hb⟩ := h.backed key r hr
    obtain rfl : slot' = slot := Option.some.inj (hb.minedSlot.symm.trans hslot)
    obtain ⟨e, he, -⟩ := readMinedState_eq_some.mp hb.view
    exact absurd (he.symm.trans hcreated.fresh) (by simp)
  · obtain ⟨st₁, hb₁⟩ := hb₁
    obtain ⟨st', hb'⟩ := hlead.backed
    refine hnew (Shaped.of_backed h.shaped hlead.elsewhere hb₁ hb')
      ((records_step ..).trans hlead.record) hb' ?_
    intro key r hkey hr hslot
    exact hkey (h.own key call.key r r₁ hr hrec₁ (hslot.trans hb₁.minedSlot.symm))

/-- No call removes a record. -/
theorem Linked.records_step_some (h : Linked s) (cfg : TxKey → StoreConfig) (call : Call)
    (hrec : s.records key = some r) : ∃ r', (Engine.step cfg s call).records key = some r' := by
  by_cases hkey : key = call.key
  · subst hkey
    rcases h.step_cases cfg call with
      ⟨hnone, -⟩ | ⟨hnone, -⟩ | ⟨r₁, r', slot, -, hlead, -, -⟩
    · simp [hrec] at hnone
    · simp [hrec] at hnone
    · exact ⟨r', (records_step ..).trans hlead.record⟩
  · exact ⟨r, (records_step_of_ne hkey).trans hrec⟩

/-- Every state of the engine is linked. -/
theorem linked_run (cfg : TxKey → StoreConfig) (calls : List Call) :
    Linked (run (Engine.step cfg) .empty calls) :=
  List.foldlRecOn calls _ linked_empty fun _ h call _ => h.step cfg call

end TeraSlab.Ops
