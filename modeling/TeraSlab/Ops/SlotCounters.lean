import TeraSlab.Ops.Linked

/-!
# The slot counters of a record

A record counts its spent and its pruned slots. `prune_slot` flips a slot without touching the
counters, so a record counts as spent also the slots that `prune_slot` took from spent, and does not
count as pruned any slot that `prune_slot` flipped. Up to these slots, which a tally follows, the
counters are exact in every state reached without a torn operation.
-/

namespace TeraSlab.Ops

open Foundations Index

variable {cfg : StoreConfig} {key : TxKey} {c : Cell} {r r' : Record} {offset : Nat}

/-! ### Counting slots -/

/-- Overwriting a slot moves the counts of the two statuses involved. -/
theorem countStatus_set {s s' : UtxoSlot} (hslot : r.slots[offset]? = some s)
    (hslots : r'.slots = r.slots.set offset s') (status : UtxoStatus) :
    r'.countStatus status + (if s.status = status then 1 else 0) =
      r.countStatus status + (if s'.status = status then 1 else 0) := by
  obtain ⟨hlt, rfl⟩ := List.getElem?_eq_some_iff.mp hslot
  have hpos : r.slots[offset].status = status → 0 < r.countStatus status := fun h =>
    List.countP_pos_iff.mpr ⟨_, List.getElem_mem hlt, by simpa using h⟩
  simp only [Record.countStatus, hslots, List.countP_set hlt, decide_eq_true_eq] at hpos ⊢
  split_ifs <;> grind

theorem countStatus_congr (h : r'.slots = r.slots) (status : UtxoStatus) :
    r'.countStatus status = r.countStatus status := by
  simp only [Record.countStatus, h]

theorem countStatus_pos {s : UtxoSlot} (hslot : r.slots[offset]? = some s) :
    0 < r.countStatus s.status :=
  List.countP_pos_iff.mpr ⟨s, List.mem_of_getElem? hslot, by simp⟩

/-- A slot has one status. -/
theorem countP_status_add_le {a b : UtxoStatus} (hab : a ≠ b) (slots : List UtxoSlot) :
    slots.countP (fun s => s.status = a) + slots.countP (fun s => s.status = b) ≤
      slots.length := by
  induction slots with
  | nil => simp
  | cons s slots ih =>
    simp only [List.countP_cons, List.length_cons, decide_eq_true_eq]
    split_ifs <;> grind

theorem countStatus_add_le (r : Record) {a b : UtxoStatus} (hab : a ≠ b) :
    r.countStatus a + r.countStatus b ≤ r.utxoCount := countP_status_add_le hab r.slots

/-- The slots a batch writes were unspent, and become spent. -/
theorem countStatus_batch (r : Record) (height : Nat) (items : List SpendItem) :
    (r.writeSlots (Cell.Batch.ofItems r height items).validSpends).countStatus .spent =
        r.countStatus .spent + (Cell.Batch.ofItems r height items).spentCount ∧
      (r.writeSlots (Cell.Batch.ofItems r height items).validSpends).countStatus .pruned =
        r.countStatus .pruned := by
  induction items using List.reverseRecOn with
  | nil => exact ⟨rfl, rfl⟩
  | append_singleton items item ih =>
    simp only [Cell.Batch.ofItems, List.foldl_concat] at ih ⊢
    generalize List.foldl (Cell.Batch.addItem r height) {} items = b at ih ⊢
    rcases addItem_cases r height b item with ⟨hws, hn⟩ | ⟨s, hs, -, hcheck, hws, hn⟩
    · rw [hws, hn]
      exact ih
    obtain ⟨-, hstatus, -⟩ := checkSlot_fresh hcheck
    rw [hws, hn, writeSlots_concat]
    have hset := countStatus_set hs (Record.writeSlot_slots (r.writeSlots b.validSpends)
      item.offset (.newSpent item.utxoHash item.spendingData))
    have hspent := hset .spent
    have hpruned := hset .pruned
    simp only [hstatus, UtxoSlot.newSpent_status] at hspent hpruned
    grind

/-! ### One operation -/

/-- The counters are exact up to the slots flipped by `prune_slot`. -/
structure Counted (r : Record) (fromSpent flipped : Nat) : Prop where
  spent : r.metadata.spentUtxos = r.countStatus .spent + fromSpent
  pruned : r.metadata.prunedUtxos + flipped = r.countStatus .pruned
  le : fromSpent ≤ flipped

instance (r : Record) (fromSpent flipped : Nat) : Decidable (Counted r fromSpent flipped) :=
  decidable_of_iff (r.metadata.spentUtxos = r.countStatus .spent + fromSpent ∧
      r.metadata.prunedUtxos + flipped = r.countStatus .pruned ∧ fromSpent ≤ flipped)
    ⟨fun h => ⟨h.1, h.2.1, h.2.2⟩, fun h => ⟨h.spent, h.pruned, h.le⟩⟩

variable {k m : Nat}

theorem Counted.spent_le (h : Counted r k m) : r.metadata.spentUtxos ≤ r.utxoCount := by
  have hle := countStatus_add_le r (a := .spent) (b := .pruned) (by decide)
  have := h.spent
  have := h.pruned
  have := h.le
  omega

theorem Counted.of_same (h : Counted r k m) (hsame : SameSlots r r') :
    Counted r' k m where
  spent := by rw [hsame.spentUtxos, h.spent, countStatus_congr hsame.slots]
  pruned := by rw [hsame.prunedUtxos, h.pruned, countStatus_congr hsame.slots]
  le := h.le

/-- A batch never spends more slots than the counter has room for. -/
theorem Counted.batch_le (h : Counted r k m) (req : SpendMultiRequest) :
    r.metadata.spentUtxos + (batchOf r req).spentCount ≤ r.utxoCount := by
  obtain ⟨hspent, hpruned⟩ := countStatus_batch r req.currentBlockHeight req.spends
  have hle := countStatus_add_le (r.writeSlots (batchOf r req).validSpends)
    (a := .spent) (b := .pruned) (by decide)
  rw [batchOf, hspent, hpruned, (writeSlots_metadata r _).2.2] at hle
  have h1 := h.spent
  have h2 := h.pruned
  have h3 := h.le
  rw [batchOf]
  omega

/-- An operation that writes one slot keeps the counters exact when it moves them as it moves the
counts. -/
theorem Counted.of_writes {k' m' spent pruned : Nat} {s s' : UtxoSlot} (h : Counted r k m)
    (hslot : r.slots[offset]? = some s) (hw : WritesSlot r r' offset s' spent pruned)
    (hspent : spent + (if s.status = .spent then 1 else 0) + k =
      r.metadata.spentUtxos + (if s'.status = .spent then 1 else 0) + k')
    (hpruned : pruned + (if s.status = .pruned then 1 else 0) + m' =
      r.metadata.prunedUtxos + (if s'.status = .pruned then 1 else 0) + m)
    (hle : k' ≤ m') : Counted r' k' m' := by
  have hs := countStatus_set hslot hw.slots .spent
  have hp := countStatus_set hslot hw.slots .pruned
  have h1 := h.spent
  have h2 := h.pruned
  refine ⟨?_, ?_, hle⟩
  · rw [hw.spentUtxos]
    omega
  · rw [hw.prunedUtxos]
    omega

def tallySpent (r : Record) (op : EngineOp) : Nat := if flipsFrom r op = some .spent then 1 else 0

def tallyFlipped (r : Record) (op : EngineOp) : Nat := if (flipsFrom r op).isSome then 1 else 0

theorem SlotStep.counted {op : EngineOp} {ok : Bool}
    (hstep : SlotStep cfg key c r op ok r') (htorn : ok = false → c.tears cfg key op = false)
    (h : Counted r k m) : Counted r' (k + tallySpent r op) (m + tallyFlipped r op) := by
  have hnone : ∀ {k' m' : Nat}, flipsFrom r op = none → Counted r' k' m' →
      Counted r' (k' + tallySpent r op) (m' + tallyFlipped r op) := by
    intro k' m' hop h'
    simpa [tallySpent, tallyFlipped, hop] using h'
  have hlt : r.utxoCount < 2 ^ 32 := r.slots_lt
  have hspent := h.spent
  have hpruned := h.pruned
  have hkm := h.le
  cases hstep with
  | keep hsame hop => exact hnone hop (h.of_same hsame)
  | spend hslot hcheck hw =>
    obtain ⟨-, hstatus, -⟩ := checkSlot_fresh hcheck
    -- The counter cannot wrap: an unspent slot is not among the counted ones.
    have hsum := countStatus_add_le r' (a := .spent) (b := .pruned) (by decide)
    have hset := countStatus_set hslot hw.slots
    have hs := hset .spent
    have hp := hset .pruned
    simp only [hstatus, UtxoSlot.newSpent_status] at hs hp
    have hcount : r'.utxoCount = r.utxoCount := by simp [Record.utxoCount, hw.slots]
    have hmod : (r.metadata.spentUtxos + 1) % 2 ^ 32 = r.metadata.spentUtxos + 1 :=
      Nat.mod_eq_of_lt (by grind)
    rw [hmod] at hw
    refine hnone rfl (h.of_writes hslot hw ?_ ?_ h.le) <;> simp [hstatus]
  | @batch room req r' hslots hspent' hpruned' =>
    obtain ⟨hs, hp⟩ := countStatus_batch r req.currentBlockHeight req.spends
    refine hnone rfl ⟨?_, ?_, h.le⟩
    · rw [hspent', hspent, countStatus_congr hslots, batchOf, hs]
      omega
    · rw [hpruned', hpruned, countStatus_congr hslots, batchOf, hp]
  | @tornBatch room req r' hcause hslots hspent' hpruned' =>
    have hle := h.batch_le req
    rcases hcause with hlt' | htears
    · omega
    · simp [htorn rfl] at htears
  | unspend hslot howns h0 _ hw =>
    obtain ⟨hstatus, -⟩ := ownsSpend_iff.mp howns
    refine hnone rfl (h.of_writes hslot hw ?_ ?_ h.le)
    · simp only [hstatus, UtxoSlot.newUnspent_status]
      grind
    · simp [hstatus]
  | tornUnspend hslot howns hcause hw => simp [htorn rfl] at hcause
  | pruneChild hslot hstatus h0 hw =>
    refine hnone rfl (h.of_writes hslot hw ?_ ?_ h.le)
    · grind
    · simp [hstatus]
  | tornPrune hslot hstatus hcause hw =>
    have hpos := countStatus_pos hslot
    have hsum := countStatus_add_le r (a := .spent) (b := .pruned) (by decide)
    rw [hstatus] at hpos
    omega
  | @prune offset s r' hslot hstatus hw =>
    have hflip : flipsFrom r (.pruneSlot offset) = some s.status := by
      simp [flipsFrom, hslot, hstatus]
    refine h.of_writes hslot hw ?_ ?_ ?_
    · simp only [tallySpent, hflip, Option.some.injEq]
      grind
    · simp [tallyFlipped, hflip, hstatus]
      omega
    · simp only [tallySpent, tallyFlipped, hflip]
      grind
  | freeze hslot hstatus hw | unfreeze hslot hstatus hw | reassign hslot hstatus _ hw =>
    refine hnone rfl (h.of_writes hslot hw ?_ ?_ h.le) <;> simp [hstatus]

/-! ### Whole runs -/

/-- What the run adds up for the record of the transaction. -/
def tally (cfg : TxKey → StoreConfig) (key : TxKey) (count : Record → EngineOp → Nat) :
    Engine → List Call → Nat
  | _, [] => 0
  | s, call :: calls =>
    (if call.key = key then (s.records key).elim 0 (count · call.op) else 0) +
      tally cfg key count (s.step cfg call) calls

/-- The call does not fail with its slots already written. -/
def Untorn (cfg : TxKey → StoreConfig) (s : Engine) (call : Call) : Prop :=
  (s.cell call.key).tears (cfg call.key) call.key call.op = false

instance (cfg : TxKey → StoreConfig) (s : Engine) (call : Call) : Decidable (Untorn cfg s call) :=
  inferInstanceAs (Decidable (_ = _))

/-- The record of the transaction is counted, and nothing is tallied before there is one. -/
def CountedAt (s : Engine) (key : TxKey) (fromSpent flipped : Nat) : Prop :=
  match s.records key with
  | none => fromSpent = 0 ∧ flipped = 0
  | some r => Counted r fromSpent flipped

theorem counted_createRecord (req : CreateRequest) (slot : Nat) :
    Counted (Cell.createRecord req slot) 0 0 := by
  have hcount : ∀ status, status ≠ .unspent → status ≠ .frozen →
      (Cell.createRecord req slot).countStatus status = 0 := by
    intro status hu hf
    refine List.countP_eq_zero.mpr fun s hs => ?_
    obtain ⟨hash, -, rfl⟩ := List.mem_map.mp hs
    split
    · simp [Ne.symm hf]
    · simp [Ne.symm hu]
  exact ⟨(hcount .spent (by decide) (by decide)).symm,
    (hcount .pruned (by decide) (by decide)).symm, Nat.le_refl 0⟩

section Runs

variable {cfg : TxKey → StoreConfig} {s : Engine} {call : Call} {k m : Nat}

theorem CountedAt.step (h : CountedAt s key k m) (hlink : Linked s) (hu : Untorn cfg s call) :
    CountedAt (s.step cfg call) key
      (k + if call.key = key then (s.records key).elim 0 (tallySpent · call.op) else 0)
      (m + if call.key = key then (s.records key).elim 0 (tallyFlipped · call.op) else 0) := by
  split_ifs with hkey
  · subst hkey
    rcases hlink.step_cases cfg call with
      ⟨hrec, hidle⟩ | ⟨hrec, room, req, slot, st, -, hcreated⟩ |
      ⟨r, r', slot, hrec, hlead, -, hstep⟩
    · rw [hidle]
      simpa [hrec] using h
    · simp only [CountedAt, hrec] at h
      simpa [CountedAt, records_step, hcreated.record, hrec, h] using counted_createRecord req slot
    · simp only [CountedAt, hrec] at h
      simpa [CountedAt, records_step, hlead.record, hrec] using hstep.counted (fun _ => hu) h
  · simpa [CountedAt, records_step_of_ne (Ne.symm hkey)] using h

/-- After every run without a torn call, `spent_utxos` counts the spent slots and those that
`prune_slot` took from spent, and `pruned_utxos` counts the pruned slots that `prune_slot` did not
flip. -/
theorem counters_of_untorn (cfg : TxKey → StoreConfig) (calls : List Call)
    (h : Guarded (Engine.step cfg) (Untorn cfg) .empty calls) (key : TxKey) (r : Record)
    (hrec : (run (Engine.step cfg) .empty calls).records key = some r) :
    r.metadata.spentUtxos = r.countStatus .spent + tally cfg key tallySpent .empty calls ∧
      r.metadata.prunedUtxos + tally cfg key tallyFlipped .empty calls = r.countStatus .pruned := by
  -- The tally of the rest of the run is added to what is tallied so far.
  have hrun : ∀ (calls : List Call) (s : Engine) (k m : Nat), Linked s → CountedAt s key k m →
      Guarded (Engine.step cfg) (Untorn cfg) s calls →
      CountedAt (run (Engine.step cfg) s calls) key (k + tally cfg key tallySpent s calls)
        (m + tally cfg key tallyFlipped s calls) := by
    intro calls
    induction calls with
    | nil => exact fun s k m _ h _ => h
    | cons call calls ih =>
      intro s k m hlink hcount hg
      simpa only [tally, run_cons, Nat.add_assoc] using
        ih _ _ _ (hlink.step cfg call) (hcount.step hlink hg.1) hg.2
  have hend := hrun calls .empty 0 0 linked_empty ⟨rfl, rfl⟩ h
  simp only [CountedAt, hrec, Nat.zero_add] at hend
  exact ⟨hend.spent, hend.pruned⟩

/-- A run in which both tallies move. -/
theorem counters_of_untorn_demo :
    let calls := demoCalls [demoCreate, demoSpend 1 10, .pruneSlot 0]
    ((run (Engine.step demoConfig) .empty calls).records demoKey).isSome ∧
      ∀ r, (run (Engine.step demoConfig) .empty calls).records demoKey = some r →
        r.metadata.spentUtxos =
            r.countStatus .spent + tally demoConfig demoKey tallySpent .empty calls ∧
          r.metadata.prunedUtxos + tally demoConfig demoKey tallyFlipped .empty calls =
            r.countStatus .pruned := by
  intro calls
  exact ⟨by decide, counters_of_untorn demoConfig calls (by decide) demoKey⟩

/-- `prune_slot` leaves the counters as they are, so they do not count the slots by status. -/
theorem counters_after_pruneSlot :
    (demoRun [demoCreate, .pruneSlot 0]).record.map
        (fun r => (r.metadata.prunedUtxos, r.countStatus .pruned)) = some (0, 1) ∧
      (demoRun [demoCreate, demoSpend 1 10, .pruneSlot 0]).record.map
        (fun r => (r.metadata.spentUtxos, r.countStatus .spent)) = some (1, 0) := by
  decide

end Runs

end TeraSlab.Ops
