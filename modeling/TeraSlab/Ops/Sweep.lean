import TeraSlab.Ops.DoubleSpend
import TeraSlab.Ops.SlotCounters

/-!
# Deletion and the sweep

A delete takes the record of a transaction away, its slot in the mined index and its places in the
secondary indexes with it. A client's delete is unconditional. The sweep deletes with a height to
check against: under the stripe lock the record must be neither preserved nor locked, be due in the
delete-at-height index, and be conflicting or else all spent, in a block and on the longest chain.

That all outputs are spent is read from the counter. The counter never exceeds the number of slots
that are spent or pruned, unless an unspend cleared a slot and failed before it wrote the footer.

The log of deletion tombstones and the index of conflicting transactions are left out.
-/

namespace TeraSlab.Ops

open Foundations Index MinedShard

inductive DeleteError where
  | txNotFound
  | notDue
  | storageError (detail : String)
deriving DecidableEq

def Cell.recordDueForSweep (c : Cell) (key : TxKey) (r : Record) (currentBlockHeight : Nat) :
    Bool :=
  if r.metadata.preserveUntil ≠ 0 then false
  else if r.metadata.flags.locked then false
  else
    let dah := c.dahHeight.getD 0
    if dah = 0 then false
    else if currentBlockHeight < dah then false
    else
      match minedBlockEntriesAt c.mined key r.minedSlot with
      | .ok (entries, unmined) => sweepEligibleWithMined r (!entries.isEmpty) unmined
      | .error _ => false

/-- The cell without its record. The entry in the delete-at-height index goes when the footer or
the index has a height, the one in the preservation index when the footer has. -/
def Cell.removed (c : Cell) (r : Record) : Cell :=
  let liveDah := c.dahHeight.getD 0
  let deviceDah := r.metadata.deleteAtHeight
  { record := none
    mined := match r.minedSlot with
      | some slot => c.mined.freeSlot slot
      | none => c.mined
    dahHeight :=
      if deviceDah ≠ 0 ∨ liveDah ≠ 0 then updateHeightIndex c.dahHeight (max deviceDah liveDah) 0
      else c.dahHeight
    preserveHeight :=
      if r.metadata.preserveUntil ≠ 0 then
        updateHeightIndex c.preserveHeight r.metadata.preserveUntil 0
      else c.preserveHeight }

def Cell.deleteInner (c : Cell) (key : TxKey) (writeHealthy : Bool) (dueGuard : Option Nat) :
    Cell × Except DeleteError Unit :=
  if dueGuard.isSome ∧ ¬ writeHealthy then
    (c, .error (.storageError
      "node write-unhealthy (redo log poisoned); sweep-delete refused (fail-closed)"))
  else
    match c.record with
    | none => (c, .error .txNotFound)
    | some r =>
      if dueGuard.any fun height => !c.recordDueForSweep key r height then (c, .error .notDue)
      else (c.removed r, .ok ())

/-- An operation on a transaction, or its deletion. -/
inductive SweepInput where
  | call (call : Call)
  | delete (key : TxKey) (writeHealthy : Bool) (dueGuard : Option Nat)

namespace Engine

def deleteResult (s : Engine) (key : TxKey) (writeHealthy : Bool) (dueGuard : Option Nat) :
    Except DeleteError Unit :=
  ((s.cell key).deleteInner key writeHealthy dueGuard).2

def stepOrDelete (cfg : TxKey → StoreConfig) (s : Engine) : SweepInput → Engine
  | .call call => s.step cfg call
  | .delete key writeHealthy dueGuard =>
    s.put key ((s.cell key).deleteInner key writeHealthy dueGuard).1

end Engine

/-! ### The slots of a record that counts as spent -/

variable {cfg : TxKey → StoreConfig} {s : Engine} {key : TxKey} {r r' : Record} {c : Cell}

/-- Two statuses that fill the counts fill the slots. -/
theorem status_of_countStatus {a b : UtxoStatus} (hab : a ≠ b)
    (h : r.utxoCount ≤ r.countStatus a + r.countStatus b) :
    ∀ slot ∈ r.slots, slot.status = a ∨ slot.status = b := by
  have hle := countP_status_add_le hab
  simp only [Record.utxoCount, Record.countStatus] at h
  generalize r.slots = slots at h
  induction slots with
  | nil => simp
  | cons s slots ih =>
    refine List.forall_mem_cons.mpr ⟨?_, ih ?_⟩
    · grind
    · grind

/-- The counter of spent outputs is covered by slots that are spent or pruned. -/
def Covered (r : Record) : Prop :=
  r.metadata.spentUtxos ≤ r.countStatus .spent + r.countStatus .pruned

theorem Covered.status (h : Covered r) (hall : r.allSpent) :
    ∀ slot ∈ r.slots, slot.status = .spent ∨ slot.status = .pruned := by
  have heq : r.metadata.spentUtxos = r.utxoCount := by simpa [Record.allSpent] using hall
  exact status_of_countStatus (by decide) (heq ▸ h)

/-- Writing one slot keeps the counter covered if it takes off the counter what it uncovers. -/
theorem Covered.of_writes {offset spent pruned : Nat} {slot slot' : UtxoSlot} (h : Covered r)
    (hslot : r.slots[offset]? = some slot) (hw : WritesSlot r r' offset slot' spent pruned)
    (hspent : spent + (if slot.status = .spent ∨ slot.status = .pruned then 1 else 0) ≤
      r.metadata.spentUtxos + if slot'.status = .spent ∨ slot'.status = .pruned then 1 else 0) :
    Covered r' := by
  have hs := countStatus_set hslot hw.slots .spent
  have hp := countStatus_set hslot hw.slots .pruned
  have h1 : r.metadata.spentUtxos ≤ r.countStatus .spent + r.countStatus .pruned := h
  rw [Covered, hw.spentUtxos]
  grind

theorem SlotStep.covered {cfg : StoreConfig} {op : EngineOp} {ok : Bool}
    (hstep : SlotStep cfg key c r op ok r')
    (htorn : ∀ req, op = .unspend req → c.tears cfg key op = false) (h : Covered r) :
    Covered r' := by
  have hcov : r.metadata.spentUtxos ≤ r.countStatus .spent + r.countStatus .pruned := h
  cases hstep with
  | keep hsame hop =>
    rw [Covered, hsame.spentUtxos, countStatus_congr hsame.slots, countStatus_congr hsame.slots]
    exact h
  | spend hslot hcheck hw =>
    have hle := Nat.mod_le (r.metadata.spentUtxos + 1) (2 ^ 32)
    refine h.of_writes hslot hw ?_
    obtain ⟨-, hstatus, -⟩ := checkSlot_fresh hcheck
    simpa [hstatus] using hle
  | @batch _ req _ hslots hspent | @tornBatch _ req _ _ hslots hspent =>
    -- In a torn batch the slots are spent and the counter has not followed: it still is covered.
    obtain ⟨hs, hp⟩ := countStatus_batch r req.currentBlockHeight req.spends
    rw [Covered, hspent, countStatus_congr hslots, countStatus_congr hslots, batchOf, hs, hp]
    omega
  | unspend hslot howns h0 _ hw =>
    obtain ⟨hstatus, -⟩ := ownsSpend_iff.mp howns
    refine h.of_writes hslot hw ?_
    simp [hstatus]
    omega
  | @tornUnspend req _ _ hslot howns hcause hw => simp [htorn req rfl] at hcause
  | pruneChild hslot hstatus _ hw | tornPrune hslot hstatus _ hw | freeze hslot hstatus hw
  | unfreeze hslot hstatus hw | reassign hslot hstatus _ hw =>
    exact h.of_writes hslot hw (by simp [hstatus])
  | prune hslot hstatus hw =>
    refine h.of_writes hslot hw ?_
    grind

/-! ### Runs with deletes -/

/-- The delete is refused and changes nothing, or removes the record. -/
theorem deleteInner_cases (c : Cell) (key : TxKey) (writeHealthy : Bool) (dueGuard : Option Nat) :
    ((c.deleteInner key writeHealthy dueGuard).1 = c ∧
        (c.deleteInner key writeHealthy dueGuard).2.isOk = false) ∨
      ∃ r, c.record = some r ∧
        (∀ height ∈ dueGuard, c.recordDueForSweep key r height) ∧
        (c.deleteInner key writeHealthy dueGuard).1 = c.removed r := by
  unfold Cell.deleteInner
  split_ifs with hwrite
  · exact .inl ⟨rfl, rfl⟩
  cases hrec : c.record with
  | none => exact .inl ⟨rfl, rfl⟩
  | some r =>
    dsimp only
    split_ifs with hdue
    · exact .inl ⟨rfl, rfl⟩
    refine .inr ⟨r, rfl, ?_, rfl⟩
    rintro height rfl
    simpa using hdue

/-- Removing a record frees its slot, which was nobody else's. -/
theorem Linked.removed (h : Linked s) (hrec : s.records key = some r) :
    Linked (s.put key ((s.cell key).removed r)) := by
  obtain ⟨slot, st, hb⟩ := h.backed key r hrec
  obtain ⟨e, he, -⟩ := readMinedState_eq_some.mp hb.view
  obtain ⟨hget, hover, -, hshaped⟩ := freeSlot_spec h.shaped he
  have hmined : (s.put key ((s.cell key).removed r)).mined = s.mined.freeSlot slot := by
    simp [Engine.put, Cell.removed, hb.minedSlot, Engine.cell]
  have hrecords : (s.put key ((s.cell key).removed r)).records =
      Function.update s.records key none := rfl
  have hkept : ∀ {key' r'}, (s.put key ((s.cell key).removed r)).records key' = some r' →
      key' ≠ key ∧ s.records key' = some r' := by
    intro key' r' hr'
    rw [hrecords, Function.update_apply] at hr'
    split_ifs at hr' with hkey
    exact ⟨hkey, hr'⟩
  refine ⟨hmined ▸ hshaped, fun key' r' hr' => ?_, fun key' key'' r' r'' hr' hr'' hslot => ?_⟩
  · obtain ⟨hkey, hr'⟩ := hkept hr'
    obtain ⟨slot', st', hb'⟩ := h.backed key' r' hr'
    have hne : slot' ≠ slot := by
      rintro rfl
      exact hkey (h.own key' key r' r hr' hrec (hb'.minedSlot.trans hb.minedSlot.symm))
    refine ⟨slot', st', hb'.minedSlot, ?_⟩
    rw [hmined, ← hb'.view]
    simp only [readMinedState, entryFor, blocksOf, hget, hover, if_neg hne]
  · exact h.own key' key'' r' r'' (hkept hr').2 (hkept hr'').2 hslot

structure Sweepable (s : Engine) : Prop where
  linked : Linked s
  covered : ∀ key r, s.records key = some r → Covered r

/-- No unspend fails after it has cleared its slot. -/
def NotTorn (cfg : TxKey → StoreConfig) (s : Engine) : SweepInput → Prop
  | .call call => tornUnspend cfg s call = false
  | .delete .. => True

instance : ∀ input, Decidable (NotTorn cfg s input)
  | .call _ => inferInstanceAs (Decidable (_ = _))
  | .delete .. => .isTrue trivial

theorem Sweepable.call {call : Call} (h : Sweepable s) (htorn : tornUnspend cfg s call = false) :
    Sweepable (s.step cfg call) := by
  refine ⟨h.linked.step cfg call, fun key r hr => ?_⟩
  by_cases hkey : key = call.key
  · subst hkey
    rcases h.linked.step_cases cfg call with
      ⟨-, hidle⟩ | ⟨hrec, room, req, slot, st, -, hcreated⟩ | ⟨r₀, r', slot, hrec, hlead, -, hstep⟩
    · rw [hidle] at hr
      exact h.covered _ r hr
    · rw [records_step, hcreated.record] at hr
      obtain rfl := Option.some.inj hr
      have hcount := counted_createRecord req slot
      rw [Covered, hcount.spent]
      omega
    · rw [records_step, hlead.record] at hr
      obtain rfl := Option.some.inj hr
      refine hstep.covered (fun req hop => ?_) (h.covered _ r₀ hrec)
      simpa [tornUnspend, hop] using htorn
  · rw [records_step_of_ne hkey] at hr
    exact h.covered key r hr

theorem Sweepable.delete (h : Sweepable s) (key : TxKey) (writeHealthy : Bool)
    (dueGuard : Option Nat) :
    Sweepable (s.stepOrDelete cfg (.delete key writeHealthy dueGuard)) := by
  rw [Engine.stepOrDelete]
  rcases deleteInner_cases (s.cell key) key writeHealthy dueGuard with
    ⟨hsame, -⟩ | ⟨r, hrec, -, hremoved⟩
  · rw [hsame, Engine.put_cell]
    exact h
  rw [hremoved]
  refine ⟨h.linked.removed hrec, fun key' r' hr' => h.covered key' r' ?_⟩
  have hrecords : (s.put key ((s.cell key).removed r)).records =
      Function.update s.records key none := rfl
  rw [hrecords, Function.update_apply] at hr'
  split_ifs at hr'
  exact hr'

theorem Sweepable.step {input : SweepInput} (h : Sweepable s) (htorn : NotTorn cfg s input) :
    Sweepable (s.stepOrDelete cfg input) := by
  cases input with
  | call call => exact h.call htorn
  | delete key writeHealthy dueGuard => exact h.delete key writeHealthy dueGuard

/-- Nothing of the record is needed any more: it is a conflicting one, or all its outputs are spent
and it is in a block of the longest chain. -/
structure Dispensable (s : Engine) (key : TxKey) (r : Record) : Prop where
  preserveUntil : r.metadata.preserveUntil = 0
  locked : r.metadata.flags.locked = false
  done : r.metadata.flags.conflicting ∨
    (∀ slot ∈ r.slots, slot.status = .spent ∨ slot.status = .pruned) ∧
      ∃ entries, minedBlockEntriesAt s.mined key r.minedSlot = .ok (entries, 0) ∧ entries ≠ []

theorem Covered.dispensable {height : Nat} (h : Covered r)
    (hdue : (s.cell key).recordDueForSweep key r height) : Dispensable s key r := by
  unfold Cell.recordDueForSweep at hdue
  dsimp only at hdue
  split_ifs at hdue with hpreserved hlocked hzero hlate
  refine ⟨not_not.mp hpreserved, by simpa using hlocked, ?_⟩
  split at hdue
  case h_2 => exact absurd hdue nofun
  case h_1 entries unmined hmined =>
    unfold sweepEligibleWithMined at hdue
    split_ifs at hdue with hconflicting hreassigned
    · exact .inl hconflicting
    simp only [Bool.and_eq_true, decide_eq_true_eq] at hdue
    obtain ⟨⟨hall, hblocks⟩, hmain⟩ := hdue
    subst hmain
    exact .inr ⟨h.status hall, entries, hmined, by rintro rfl; simp at hblocks⟩

/-- Every delete of the sweep that succeeds takes away a record that nobody needs. -/
def SweepsDispensable (cfg : TxKey → StoreConfig) (inputs : List SweepInput) : Prop :=
  ∀ front key writeHealthy height back,
    inputs = front ++ .delete key writeHealthy (some height) :: back →
    ((run (Engine.stepOrDelete cfg) .empty front).deleteResult key writeHealthy
      (some height)).isOk →
    ∃ r, (run (Engine.stepOrDelete cfg) .empty front).records key = some r ∧
      Dispensable (run (Engine.stepOrDelete cfg) .empty front) key r

theorem sweepsDispensable_of_notTorn (cfg : TxKey → StoreConfig) (inputs : List SweepInput)
    (htorn : Guarded (Engine.stepOrDelete cfg) (NotTorn cfg) .empty inputs) :
    SweepsDispensable cfg inputs := by
  intro front key writeHealthy height back hinputs hok
  rw [hinputs, guarded_append] at htorn
  have hempty : Sweepable .empty := ⟨linked_empty, nofun⟩
  have hsweep := htorn.1.invariant (fun _ _ h hc => h.step hc) hempty
  generalize run (Engine.stepOrDelete cfg) .empty front = s at hsweep hok ⊢
  rcases deleteInner_cases (s.cell key) key writeHealthy (some height) with
    ⟨-, hfail⟩ | ⟨r, hrec, hdue, -⟩
  · exact absurd (hok.symm.trans hfail) nofun
  · exact ⟨r, hrec, (hsweep.covered key r hrec).dispensable (hdue height rfl)⟩

/-- A record is created, mined and spent, and the sweep deletes it once it is due. -/
theorem sweepsDispensable_demo :
    let inputs := (demoCalls [demoCreate, demoMined 11, demoSpend 1 20]).map .call ++
      [.delete demoKey true (some 100), .delete demoKey true (some 120)]
    SweepsDispensable demoConfig inputs ∧
      (run (Engine.stepOrDelete demoConfig) .empty inputs).records demoKey = none := by
  intro inputs
  exact ⟨sweepsDispensable_of_notTorn demoConfig inputs (by decide), by decide⟩

/-- An unspend clears the only slot and fails, with the counter still at one: the sweep deletes a
record with an unspent output. -/
theorem sweep_deletes_unspent :
    ¬ SweepsDispensable demoConfig
      ((demoCalls [demoCreate, demoMined 11, demoSpend 1 20, demoUnspend 1 (2 ^ 32 - 1)]).map
        .call ++
        [.delete demoKey true (some 120)]) := by
  let calls := demoCalls [demoCreate, demoMined 11, demoSpend 1 20, demoUnspend 1 (2 ^ 32 - 1)]
  have hleft : ((run (Engine.stepOrDelete demoConfig) .empty (calls.map .call)).records
      demoKey).map (fun r => (r.metadata.flags.conflicting, r.slots.map (·.status))) =
        some (false, [.unspent]) := by decide
  intro h
  obtain ⟨r, hrec, hdisp⟩ := h (calls.map .call) demoKey true 120 [] rfl (by decide)
  rw [hrec] at hleft
  obtain ⟨hconflicting, hslots⟩ := Prod.mk.inj (Option.some.inj hleft)
  obtain ⟨slot, hslot⟩ := List.map_eq_singleton_iff.mp hslots
  rcases hdisp.done with hconf | ⟨hstatus, -⟩
  · exact absurd (hconf.symm.trans hconflicting) nofun
  · have := hstatus slot (by simp [hslot.1])
    simp [hslot.2] at this

end TeraSlab.Ops
