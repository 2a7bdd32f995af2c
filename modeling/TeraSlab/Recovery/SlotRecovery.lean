import TeraSlab.Recovery.Replay
import TeraSlab.Recovery.SlotCounting
import TeraSlab.Ops.Cooldown
import TeraSlab.Ops.SlotCounters

/-!
# Crash recovery of the slots of a record

A run of slot operations on a record, the redo entries they left, and a crash after the slot writes
of some of them. Both the live run and the replay act on each slot alone, so that the slots recover
exactly when every one of them does.
-/

namespace TeraSlab.Recovery

open Foundations Ops Redo TeraSlab.Index

variable {cfg : StoreConfig} {key : TxKey} {c : Cell} {r : Record} {op : EngineOp}
  {ops : List EngineOp}

/-! ## Slot operations and their entries -/

def slotOp : EngineOp → Option (Nat × SlotOp)
  | .spend _ req => some (req.offset, .spend req.utxoHash req.spendingData)
  | .unspend req => some (req.offset, .unspend req.utxoHash req.spendingData)
  | .freeze offset utxoHash => some (offset, .freeze utxoHash)
  | .unfreeze offset utxoHash => some (offset, .unfreeze utxoHash)
  | .reassign req =>
    some (req.offset,
      .reassign req.utxoHash req.newUtxoHash (req.blockHeight + req.spendableAfter))
  | .pruneSlotIfSpentByChild _ offset child => some (offset, .prune child)
  | _ => none

def NamesSlot (slots : List UtxoSlot) (op : EngineOp) : Prop :=
  ∃ offset sop, slotOp op = some (offset, sop) ∧ offset < slots.length

theorem NamesSlot.of_length {slots slots' : List UtxoSlot} {op : EngineOp}
    (h : NamesSlot slots op) (hlen : slots'.length = slots.length) : NamesSlot slots' op := by
  obtain ⟨offset, sop, hop, hlt⟩ := h
  exact ⟨offset, sop, hop, hlen.symm ▸ hlt⟩

def slotOpsAt (offset : Nat) (ops : List EngineOp) : List SlotOp :=
  ops.filterMap fun op => (slotOp op).bind fun named =>
    if named.1 = offset then some named.2 else none

/-- The redo entry of a slot operation. The counts, heights, generation and time in the entry differ
between a master and a replica; the replay of a slot reads none of them. -/
inductive Journals (key : TxKey) : EngineOp → RedoOp → Prop where
  | spend {room : Room} {req : SpendRequest} {offset : UInt32} (hoffset : offset.toNat = req.offset)
      (newSpentCount height retention generation : UInt32) (updatedAt : UInt64) :
      Journals key (.spend room req) (.spendV2 key offset req.spendingData newSpentCount height
        retention generation updatedAt (some req.utxoHash))
  | unspend {req : UnspendRequest} {offset : UInt32} (hoffset : offset.toNat = req.offset)
      (newSpentCount height retention generation : UInt32) (updatedAt : UInt64) :
      Journals key (.unspend req) (.unspendV2 key offset req.spendingData newSpentCount height
        retention generation updatedAt (some req.utxoHash))
  | freeze {slot : Nat} {utxoHash : Hash} {offset : UInt32} (hoffset : offset.toNat = slot) :
      Journals key (.freeze slot utxoHash) (.freezeV2 key offset utxoHash)
  | unfreeze {slot : Nat} {utxoHash : Hash} {offset : UInt32} (hoffset : offset.toNat = slot) :
      Journals key (.unfreeze slot utxoHash) (.unfreezeV2 key offset utxoHash)
  | reassign {req : ReassignRequest} {offset blockHeight spendableAfter : UInt32}
      (hoffset : offset.toNat = req.offset) (hheight : blockHeight.toNat = req.blockHeight)
      (hafter : spendableAfter.toNat = req.spendableAfter) :
      Journals key (.reassign req) (.reassignV2 key offset req.newUtxoHash blockHeight
        spendableAfter req.utxoHash)
  | prune {room : Room} {slot : Nat} {child : Hash} {offset : UInt32}
      (hoffset : offset.toNat = slot) :
      Journals key (.pruneSlotIfSpentByChild room slot child) (.pruneSlotIfSpentBy key offset child)

/-! ## One live step -/

def HasSlots (c : Cell) (slots : List UtxoSlot) : Prop :=
  ∃ r, c.record = some r ∧ r.slots = slots

/-- A successful operation takes the slot at an offset as the given slot operation does. -/
def StepsSlot (r : Record) (c' : Cell) (offset : Nat) (sop : SlotOp) : Prop :=
  ∃ s, r.slots[offset]? = some s ∧ sop.Accepted s ∧
    HasSlots c' (r.slots.set offset (sop.live s))

def HasCounts (c : Cell) : Prop := ∃ r, c.record = some r ∧ Counted r 0 0

theorem HasSlots.eq {slots slots' : List UtxoSlot} (h : HasSlots c slots)
    (h' : HasSlots c slots') : slots = slots' := by
  obtain ⟨r, hr, rfl⟩ := h
  obtain ⟨r', hr', rfl⟩ := h'
  cases hr.symm.trans hr'
  rfl

variable {offset : Nat} {s : UtxoSlot}

/-- A slot that is written back as it was read leaves the record's slots. -/
theorem slots_writeBack (hs : r.slots[offset]? = some s) : r.slots.set offset s = r.slots := by
  rw [← (List.getElem?_eq_some_iff.mp hs).2, List.set_getElem_self]

variable {utxoHash : Hash}

theorem checkSlot_hash {height : Nat} {d : SpendingData} {kind : SpendKind}
    (h : Cell.checkSlot r s offset utxoHash d height = .ok kind) : s.hash = utxoHash := by
  unfold Cell.checkSlot at h
  grind

variable {sop : SlotOp} {child : Hash} {room : Room} {c' : Cell}

theorem stepsSlot_of_writes {r' : Record} {spent pruned : Nat} (hs : r.slots[offset]? = some s)
    (hacc : sop.Accepted s) (hrec : c'.record = some r')
    (hw : WritesSlot r r' offset (sop.live s) spent pruned)
    (hspent : Counted r 0 0 → spent + (if s.status = .spent then 1 else 0) =
      r.metadata.spentUtxos + (if (sop.live s).status = .spent then 1 else 0))
    (hpruned : pruned + (if s.status = .pruned then 1 else 0) =
      r.metadata.prunedUtxos + (if (sop.live s).status = .pruned then 1 else 0)) :
    StepsSlot r c' offset sop ∧ (Counted r 0 0 → HasCounts c') :=
  ⟨⟨s, hs, hacc, r', hrec, hw.slots⟩,
    fun h => ⟨r', hrec, h.of_writes hs hw (hspent h) hpruned le_rfl⟩⟩

theorem stepsSlot_of_same {r' : Record} (hs : r.slots[offset]? = some s) (hacc : sop.Accepted s)
    (hlive : sop.live s = s) (hrec : c'.record = some r') (hsame : SameSlots r r') :
    StepsSlot r c' offset sop ∧ (Counted r 0 0 → HasCounts c') :=
  ⟨⟨s, hs, hacc, r', hrec, by rw [hlive, slots_writeBack hs, hsame.slots]⟩,
    fun h => ⟨r', hrec, h.of_same hsame⟩⟩

theorem spend_stepsSlot {req : SpendRequest} (hrec : c.record = some r)
    (hok : (c.spend cfg key room req).2.isOk) : StepsSlot r (c.spend cfg key room req).1 req.offset
      (.spend req.utxoHash req.spendingData) ∧
      (Counted r 0 0 → HasCounts (c.spend cfg key room req).1) := by
  rcases spend_cases hrec cfg key room req with
    ⟨hsame, hchecks⟩ | ⟨s, ⟨hs, hd, hcheck⟩, ⟨hfail, -⟩ | ⟨-, hcommit⟩⟩
  · obtain ⟨s, hs, hd, hcheck⟩ := hchecks hok
    obtain ⟨hstatus, hdata⟩ := checkSlot_repeated hcheck
    have hself : (SlotOp.spend req.utxoHash req.spendingData).live s = s := by
      obtain ⟨hash, status, data⟩ := s
      obtain rfl : hash = req.utxoHash := checkSlot_hash hcheck
      obtain rfl : status = .spent := hstatus
      obtain rfl : data = req.spendingData := hdata
      rfl
    exact stepsSlot_of_same hs ⟨checkSlot_hash hcheck, hd, .inr ⟨hstatus, hdata⟩⟩ hself
      (hsame.symm ▸ hrec) ⟨rfl, rfl, rfl⟩
  · rw [hfail] at hok
    cases hok
  · obtain ⟨hhash, hstatus, -⟩ := checkSlot_fresh hcheck
    obtain ⟨r', hrec', hsame⟩ := hcommit.sameSlots
    have hw : WritesSlot r r' req.offset (.newSpent req.utxoHash req.spendingData)
        ((r.metadata.spentUtxos + 1) % 2 ^ 32) r.metadata.prunedUtxos :=
      ⟨hsame.slots, hsame.spentUtxos, hsame.prunedUtxos⟩
    refine stepsSlot_of_writes hs ⟨hhash, hd, .inl hstatus⟩ hrec' hw (fun h => ?_) ?_
    · -- The slot is unspent, so that the counter is below the number of slots.
      have hunspent := countStatus_pos hs
      have hle := countStatus_add_le r (a := .spent) (b := .unspent) (by decide)
      rw [hstatus] at hunspent
      have hspent := h.spent
      have hcount : r.utxoCount < 2 ^ 32 := r.slots_lt
      rw [Nat.mod_eq_of_lt (by omega)]
      simp [SlotOp.live, hstatus]
    · simp [SlotOp.live, hstatus]

theorem validateUnspend_status {req : UnspendRequest}
    (h : c.validateUnspend req = .ok (r, s)) :
    s.status = .unspent ∨ s.status = .spent ∨ s.status = .frozen := by
  unfold Cell.validateUnspend at h
  split at h
  · cases h
  split at h
  · cases h
  split at h
  · cases h
  · cases h
  · rename_i s₀ _ _ hpruned hunknown
    obtain ⟨-, rfl⟩ : _ ∧ s₀ = s := by simpa using h
    cases hstatus : s₀.status with
    | pruned => exact absurd hstatus hpruned
    | unknown byte => exact absurd hstatus (hunknown byte)
    | _ => simp

theorem unspend_stepsSlot {req : UnspendRequest} (hrec : c.record = some r)
    (hok : (c.unspend key req).2.isOk) :
    StepsSlot r (c.unspend key req).1 req.offset (.unspend req.utxoHash req.spendingData) ∧
      (Counted r 0 0 → HasCounts (c.unspend key req).1) := by
  rcases unspend_cases hrec key req with ⟨-, hfail⟩ | ⟨s, hv, hcases⟩
  · rw [hfail] at hok
    cases hok
  obtain ⟨-, hs, hhash, -⟩ := validateUnspend_ok hv
  have hacc : (SlotOp.unspend req.utxoHash req.spendingData).Accepted s :=
    ⟨hhash, validateUnspend_status hv⟩
  rcases hcases with ⟨howns, hzero, ⟨hfail, -⟩ | ⟨-, hcommit⟩⟩ | ⟨howns, -, -, -, patch, -, hc'⟩
  · rw [hfail] at hok
    cases hok
  · obtain ⟨hstatus, -⟩ := ownsSpend_iff.mp howns
    have hlive : (SlotOp.unspend req.utxoHash req.spendingData).live s =
      .newUnspent req.utxoHash := by rw [SlotOp.live, if_pos howns]
    obtain ⟨r', hrec', hsame⟩ := hcommit.sameSlots
    refine stepsSlot_of_writes hs hacc hrec'
      ⟨hlive ▸ hsame.slots, hsame.spentUtxos, hsame.prunedUtxos⟩ (fun _ => ?_) ?_
    · simp [hlive, hstatus, Cell.countSpent, TxMetadata.bump]
      omega
    · simp [hlive, hstatus, Cell.countSpent, TxMetadata.bump]
  · have hlive : (SlotOp.unspend req.utxoHash req.spendingData).live s = s := by
      rw [SlotOp.live, if_neg (Bool.eq_false_iff.mp howns)]
    rw [hc']
    split_ifs
    · obtain ⟨r', hrec', hsame⟩ := commit_sameSlots c key r patch
      exact stepsSlot_of_same hs hacc hlive hrec' hsame
    · exact stepsSlot_of_same hs hacc hlive hrec ⟨rfl, rfl, rfl⟩

theorem rewritesSlot_stepsSlot {status : UtxoStatus} {out : Cell × Except SpendError Nat}
    (hout : RewritesSlot c r offset utxoHash status sop.live out) (hok : out.2.isOk)
    (hacc : ∀ s : UtxoSlot, s.hash = utxoHash ∧ s.status = status → sop.Accepted s) :
    StepsSlot r out.1 offset sop := by
  obtain ⟨s, hs, hhash, hstatus, hc'⟩ := hout.of_isOk hok
  rw [hc']
  exact ⟨s, hs, hacc s ⟨hhash, hstatus⟩, _, rfl, rfl⟩

theorem validateReassign_hash {req : ReassignRequest} {height : Nat}
    (h : c.validateReassign key req = .ok (r, height)) :
    ∃ s, r.slots[req.offset]? = some s ∧ s.hash = req.utxoHash ∧ s.status = .frozen := by
  obtain ⟨hrec, -, -, -, s, hs, hstatus⟩ := validateReassign_ok h
  refine ⟨s, hs, ?_, hstatus⟩
  unfold Cell.validateReassign Cell.slotFor at h
  grind

section

variable (hrec : c.record = some r)
include hrec

theorem reassign_stepsSlot {req : ReassignRequest} (hok : (c.reassign key req).2.isOk) :
    StepsSlot r (c.reassign key req).1 req.offset
      (.reassign req.utxoHash req.newUtxoHash (req.blockHeight + req.spendableAfter)) := by
  unfold Cell.reassign at hok ⊢
  split at hok
  · cases hok
  rename_i r₀ height hv
  obtain ⟨hrec₀, -, rfl, -⟩ := validateReassign_ok hv
  cases hrec.symm.trans hrec₀
  obtain ⟨s, hs, hhash, hstatus⟩ := validateReassign_hash hv
  exact ⟨s, hs, ⟨hhash, hstatus⟩, _, rfl, rfl⟩

theorem appendDeletedChild_sameSlots (room : Room) (child : Hash) :
    ∃ r', (c.appendDeletedChild room child).record = some r' ∧ SameSlots r r' := by
  unfold Cell.appendDeletedChild
  split
  · rename_i r₀ hrec₀
    cases hrec.symm.trans hrec₀
    split
    · exact ⟨r, hrec, rfl, rfl, rfl⟩
    · exact ⟨_, rfl, rfl, rfl, rfl⟩
  · exact ⟨r, hrec, rfl, rfl, rfl⟩

theorem pruneSlotIfSpentByChild_stepsSlot (hlt : offset < r.slots.length)
    (hok : (c.pruneSlotIfSpentByChild key room offset child).2.isOk) :
    StepsSlot r (c.pruneSlotIfSpentByChild key room offset child).1 offset (.prune child) ∧
      (Counted r 0 0 → HasCounts (c.pruneSlotIfSpentByChild key room offset child).1) := by
  rcases pruneSlotIfSpentByChild_cases hrec key room offset child with ⟨hsame, hskips⟩ | ⟨s, hs,
    hstatus, hprunes, ⟨hfail, -⟩ | ⟨hzero, ⟨hfail, -⟩ | ⟨-, -, -, patch, -, hc'⟩⟩⟩
  · have hs : r.slots[offset]? = some r.slots[offset] := List.getElem?_eq_getElem hlt
    refine stepsSlot_of_same hs trivial ?_ (hsame.symm ▸ hrec) ⟨rfl, rfl, rfl⟩
    simp only [prunes, hs, Option.any_some] at hskips
    rw [SlotOp.live, if_neg (by simpa using hskips)]
  · rw [hfail] at hok
    cases hok
  · rw [hfail] at hok
    cases hok
  have hlive : (SlotOp.prune child).live s = { s with status := .pruned } := by
    simp only [prunes, hs, Option.any_some] at hprunes
    rw [SlotOp.live, if_pos (by simpa using hprunes)]
  obtain ⟨r₂, hrec₂, hsame₂⟩ := commit_sameSlots _ key
    (Cell.countPruned (r.writeSlot offset { s with status := .pruned })) _
  obtain ⟨r', hrec', hsame⟩ := appendDeletedChild_sameSlots hrec₂ room child
  have hw : WritesSlot r r' offset { s with status := .pruned } (r.metadata.spentUtxos - 1)
      (r.metadata.prunedUtxos + 1) := ⟨hsame.slots.trans hsame₂.slots,
    hsame.spentUtxos.trans hsame₂.spentUtxos, hsame.prunedUtxos.trans hsame₂.prunedUtxos⟩
  rw [hc']
  refine stepsSlot_of_writes hs trivial hrec' (hlive ▸ hw) (fun _ => ?_) ?_
  · simp only [hlive, hstatus, if_true, reduceCtorEq, if_false]
    omega
  · simp [hlive, hstatus]

/-- Every successful slot operation acts on its slot as `SlotOp.live` says, and on no other, and
the counters follow a spend, an unspend or a prune. -/
theorem next_stepsSlot (hop : slotOp op = some (offset, sop)) (hlt : offset < r.slots.length)
    (hok : c.Succeeds cfg key op) : StepsSlot r (c.next cfg key op) offset sop ∧
      (sop.movesCounters → Counted r 0 0 → HasCounts (c.next cfg key op)) := by
  cases op <;> simp only [slotOp, Option.some.injEq, Prod.mk.injEq, reduceCtorEq] at hop <;>
    obtain ⟨rfl, rfl⟩ := hop
  case spend => exact (spend_stepsSlot hrec hok).imp_right fun h _ => h
  case unspend => exact (unspend_stepsSlot hrec hok).imp_right fun h _ => h
  case pruneSlotIfSpentByChild =>
    exact (pruneSlotIfSpentByChild_stepsSlot hrec hlt hok).imp_right fun h _ => h
  case freeze => exact ⟨rewritesSlot_stepsSlot (freeze_cases hrec ..) hok fun _ => id, nofun⟩
  case unfreeze => exact ⟨rewritesSlot_stepsSlot (unfreeze_cases hrec ..) hok fun _ => id, nofun⟩
  case reassign => exact ⟨reassign_stepsSlot hrec hok, nofun⟩

end

/-! ## One replayed entry -/

def ReplaysTo (r : Record) (entry : RedoOp) (slots : List UtxoSlot) : Prop :=
  (replayEntry r entry).map (fun out => (out.1.slots, out.2.isFailed)) = some (slots, false)

def SpentExact (r : Record) : Prop := r.metadata.spentUtxos = r.countStatus .spent

def SlotOp.recounts (t : UtxoSlot) : SlotOp → Prop
  | .spend hash _ => t.hash = hash
  | .unspend hash d =>
    t.status = .unspent ∨ t.status = .spent ∧ t.hash = hash ∧ t.spendingData = d
  | _ => False

structure Replayed (r r' : Record) (offset : Nat) (t : UtxoSlot) (sop : SlotOp) : Prop where
  slots : r'.slots = r.slots.set offset (sop.replay t)
  pruned : r'.metadata.prunedUtxos =
    if sop.prunes t then min (r.metadata.prunedUtxos + 1) (2 ^ 32 - 1) else r.metadata.prunedUtxos
  exact : SpentExact r → SpentExact r'
  recount : sop.recounts t → SpentExact r'

/-- The entry is replayed without failing, as `Replayed` says. -/
def ReplaysAs (r : Record) (entry : RedoOp) (offset : Nat) (t : UtxoSlot) (sop : SlotOp) : Prop :=
  ∃ r' result, replayEntry r entry = some (r', result) ∧ result.isFailed = false ∧
    Replayed r r' offset t sop

section

variable {offset : UInt32} {t : UtxoSlot} {hash : Hash} {d : SpendingData}
    (ht : r.slots[offset.toNat]? = some t) (count height retention generation : UInt32)
    (updatedAt : UInt64)
include ht

theorem replaySpend_replaysAs :
    ReplaysAs r (.spendV2 key offset d count height retention generation updatedAt (some hash))
      offset.toNat t (.spend hash d) := by
  have hreplay : replayEntry r (.spendV2 key offset d count height retention generation updatedAt
      (some hash)) = replaySpend r offset.toNat d (some ⟨generation.toNat⟩) (some hash) := rfl
  simp only [replaySpend, ht] at hreplay
  by_cases hspent : t.status = .spent ∧ t.spendingData = d
  · rw [if_pos hspent] at hreplay
    refine ⟨_, _, hreplay, rfl, ?_, rfl, fun _ => rfl, fun _ => rfl⟩
    simp [SlotOp.replay, hspent, slots_writeBack ht]
  · rw [if_neg hspent] at hreplay
    by_cases hhash : t.hash = hash
    · rw [if_neg (by simp [hhash])] at hreplay
      refine ⟨_, _, hreplay, rfl, ?_, rfl, fun _ => rfl, fun _ => rfl⟩
      simp [SlotOp.replay, hspent, hhash]
    · rw [if_pos (by simp [hhash])] at hreplay
      refine ⟨_, _, hreplay, rfl, ?_, rfl, id, fun h => absurd h hhash⟩
      simp [SlotOp.replay, hspent, hhash, slots_writeBack ht]

theorem replayUnspend_replaysAs :
    ReplaysAs r (.unspendV2 key offset d count height retention generation updatedAt (some hash))
      offset.toNat t (.unspend hash d) := by
  have hreplay : replayEntry r (.unspendV2 key offset d count height retention generation updatedAt
      (some hash)) =
        replayUnspend r offset.toNat (some d) (some ⟨generation.toNat⟩) (some hash) := rfl
  simp only [replayUnspend, ht] at hreplay
  by_cases hunspent : t.status = .unspent
  · rw [if_pos hunspent] at hreplay
    refine ⟨_, _, hreplay, rfl, ?_, rfl, fun _ => rfl, fun _ => rfl⟩
    simp [SlotOp.replay, hunspent, slots_writeBack ht]
  · rw [if_neg hunspent] at hreplay
    by_cases hhit : t.status = .spent ∧ t.hash = hash ∧ t.spendingData = d
    · obtain ⟨hspent, hhash, hd⟩ := hhit
      rw [if_neg (by simp [hspent]), if_neg (by simp [hhash]), if_neg (by simp [hd])] at hreplay
      refine ⟨_, _, hreplay, rfl, ?_, rfl, fun _ => rfl, fun _ => rfl⟩
      simp [SlotOp.replay, hspent, hhash, hd]
    · have hskip : replayEntry r (.unspendV2 key offset d count height retention generation
          updatedAt (some hash)) = some (r, .skipped) := by
        rw [hreplay]
        by_cases hspent : t.status = .spent
        · by_cases hhash : t.hash = hash
          · have hd : t.spendingData ≠ d := fun hd => hhit ⟨hspent, hhash, hd⟩
            simp [hspent, hhash, hd]
          · simp [hspent, hhash]
        · simp [hspent]
      refine ⟨_, _, hskip, rfl, ?_, rfl, id, fun h => absurd h (not_or.mpr ⟨hunspent, hhit⟩)⟩
      have hsame : (SlotOp.unspend hash d).replay t = t := by
        simp only [SlotOp.replay]
        grind
      rw [hsame, slots_writeBack ht]

end

variable {t : UtxoSlot} {entry : RedoOp} {hash : Hash}

theorem replayPrune_replaysAs {offset : UInt32} (ht : r.slots[offset.toNat]? = some t) :
    ReplaysAs r (.pruneSlotIfSpentBy key offset child) offset.toNat t (.prune child) := by
  have hreplay : replayEntry r (.pruneSlotIfSpentBy key offset child) =
      replayPruneSlotIfSpentBy r offset.toNat child := rfl
  simp only [replayPruneSlotIfSpentBy, ht] at hreplay
  by_cases hhit : t.status = .spent ∧ childTxid t.spendingData = child
  · have hprunes : (SlotOp.prune child).prunes t := by simp [SlotOp.prunes, hhit]
    rw [if_neg (by simp [hhit]), if_neg (by simp [hhit])] at hreplay
    refine ⟨_, _, hreplay, rfl, ?_, ?_, ?_, by simp [SlotOp.recounts]⟩
    · simp [SlotOp.replay, hhit]
    · simp [hprunes, TxMetadata.bump]
    · intro h
      have hset := countStatus_set ht (Record.writeSlot_slots r offset.toNat
        { t with status := .pruned }) .spent
      simp only [hhit.1, reduceCtorEq, if_true, if_false] at hset
      have hsub : r.metadata.spentUtxos - 1 =
          (r.writeSlot offset.toNat { t with status := .pruned }).countStatus .spent := by
        unfold SpentExact at h
        omega
      exact hsub
  · have hskip : replayEntry r (.pruneSlotIfSpentBy key offset child) = some (r, .skipped) := by
      rw [hreplay]
      by_cases hspent : t.status = .spent
      · have hchild : childTxid t.spendingData ≠ child := fun h => hhit ⟨hspent, h⟩
        simp [hspent, hchild]
      · simp [hspent]
    have hprunes : (SlotOp.prune child).prunes t = false := by simpa [SlotOp.prunes] using hhit
    refine ⟨_, _, hskip, rfl, ?_, by simp [hprunes], id, by simp [SlotOp.recounts]⟩
    rw [SlotOp.replay, if_neg hhit, slots_writeBack ht]

theorem ReplaysAs.replaysTo (h : ReplaysAs r entry offset t sop) :
    ReplaysTo r entry (r.slots.set offset (sop.replay t)) := by
  obtain ⟨r', result, hreplay, hresult, hreplayed⟩ := h
  simp [ReplaysTo, hreplay, hresult, hreplayed.slots]

theorem replayFreeze_replaysTo {offset : UInt32} (ht : r.slots[offset.toNat]? = some t) :
    ReplaysTo r (.freezeV2 key offset hash)
      (r.slots.set offset.toNat ((SlotOp.freeze hash).replay t)) := by
  simp only [ReplaysTo, replayEntry, replayFreeze, ht, SlotOp.replay]
  by_cases hhash : t.hash = hash
  · by_cases hunspent : t.status = .unspent
    · simp [hhash, hunspent]
    · simp [hhash, hunspent, slots_writeBack ht]
  · simp [hhash, slots_writeBack ht]

theorem replayUnfreeze_replaysTo {offset : UInt32} (ht : r.slots[offset.toNat]? = some t) :
    ReplaysTo r (.unfreezeV2 key offset hash)
      (r.slots.set offset.toNat ((SlotOp.unfreeze hash).replay t)) := by
  simp only [ReplaysTo, replayEntry, replayUnfreeze, ht, SlotOp.replay]
  by_cases hhash : t.hash = hash
  · by_cases hfrozen : t.status = .frozen
    · simp [hhash, hfrozen]
    · simp [hhash, hfrozen, slots_writeBack ht]
  · simp [hhash, slots_writeBack ht]

theorem replayReassign_replaysTo {offset blockHeight spendableAfter : UInt32}
    {prior new : Hash} (ht : r.slots[offset.toNat]? = some t)
    (hover : blockHeight.toNat + spendableAfter.toNat < 2 ^ 32) :
    ReplaysTo r (.reassignV2 key offset new blockHeight spendableAfter prior)
      (r.slots.set offset.toNat
        ((SlotOp.reassign prior new (blockHeight.toNat + spendableAfter.toNat)).replay t)) := by
  have hheight : saturatingHeight blockHeight spendableAfter =
      blockHeight.toNat + spendableAfter.toNat := Nat.min_eq_left (by omega)
  simp only [ReplaysTo, replayEntry, replayReassign, ht, SlotOp.replay, hheight]
  by_cases hdone : t.hash = new ∧ t.status = .unspent
  · simp [hdone, slots_writeBack ht]
  by_cases hother : t.status ≠ .frozen ∨ t.hash ≠ prior
  · simp [hdone, hother, slots_writeBack ht]
  · simp [hdone, hother]

/-- The replay of an entry acts on its slot as `SlotOp.replay` says, and on no other. -/
theorem Journals.replaysTo (h : Journals key op entry) (hop : slotOp op = some (offset, sop))
    (ht : r.slots[offset]? = some t)
    (hover : ∀ req, op = .reassign req → req.blockHeight + req.spendableAfter < 2 ^ 32) :
    ReplaysTo r entry (r.slots.set offset (sop.replay t)) := by
  cases h with
  | spend hoffset count height retention generation updatedAt =>
    cases hop
    rw [← hoffset] at ht ⊢
    exact (replaySpend_replaysAs ht ..).replaysTo
  | unspend hoffset count height retention generation updatedAt =>
    cases hop
    rw [← hoffset] at ht ⊢
    exact (replayUnspend_replaysAs ht ..).replaysTo
  | freeze hoffset =>
    cases hop
    rw [← hoffset] at ht ⊢
    exact replayFreeze_replaysTo ht
  | unfreeze hoffset =>
    cases hop
    rw [← hoffset] at ht ⊢
    exact replayUnfreeze_replaysTo ht
  | @reassign req _ blockHeight spendableAfter hoffset hheight hafter =>
    cases hop
    have hlt := hover req rfl
    rw [← hheight, ← hafter] at hlt ⊢
    rw [← hoffset] at ht ⊢
    exact replayReassign_replaysTo ht hlt
  | prune hoffset =>
    cases hop
    rw [← hoffset] at ht ⊢
    exact (replayPrune_replaysAs ht).replaysTo

/-! ## Runs -/

theorem slotOpsAt_nil (offset : Nat) : slotOpsAt offset [] = [] := rfl

theorem slotOpsAt_cons {named : Nat × SlotOp} (hop : slotOp op = some named) (offset : Nat) :
    slotOpsAt offset (op :: ops) =
      if named.1 = offset then named.2 :: slotOpsAt offset ops else slotOpsAt offset ops := by
  unfold slotOpsAt
  split <;> simp_all

theorem slotOpsAt_append (offset : Nat) (pre post : List EngineOp) :
    slotOpsAt offset (pre ++ post) = slotOpsAt offset pre ++ slotOpsAt offset post :=
  List.filterMap_append

def EachSlot (f : UtxoSlot → SlotOp → UtxoSlot) (ops : List EngineOp)
    (slots slots' : List UtxoSlot) : Prop :=
  ∀ offset, slots'[offset]? = slots[offset]?.map (run f · (slotOpsAt offset ops))

theorem eachSlot_nil (f : UtxoSlot → SlotOp → UtxoSlot) (slots : List UtxoSlot) :
    EachSlot f [] slots slots := by
  intro offset
  simp [slotOpsAt_nil]

variable {f : UtxoSlot → SlotOp → UtxoSlot}

theorem EachSlot.cons {slots slots' : List UtxoSlot} (hop : slotOp op = some (offset, sop))
    (hs : slots[offset]? = some s) (h : EachSlot f ops (slots.set offset (f s sop)) slots') :
    EachSlot f (op :: ops) slots slots' := by
  intro other
  rw [h other, slotOpsAt_cons hop]
  by_cases hother : offset = other
  · subst hother
    obtain ⟨hlt, rfl⟩ := List.getElem?_eq_some_iff.mp hs
    simp [hlt]
  · simp [hother]

theorem EachSlot.length_eq {slots slots' : List UtxoSlot}
    (h : EachSlot f ops slots slots') : slots'.length = slots.length := by
  refine le_antisymm ?_ ?_ <;> refine Nat.le_of_not_lt fun hlt => ?_
  · have := h slots.length
    simp [hlt] at this
  · have := h slots'.length
    simp [hlt] at this

def AllSucceed (cfg : StoreConfig) (key : TxKey) (c : Cell) (ops : List EngineOp) : Prop :=
  Guarded (Cell.next · cfg key) (Cell.Succeeds · cfg key) c ops

instance AllSucceed.decidable (cfg : StoreConfig) (key : TxKey) (c : Cell) (ops : List EngineOp) :
    Decidable (AllSucceed cfg key c ops) :=
  @Guarded.decidable _ _ _ _ (fun _ _ => inferInstanceAs (Decidable (_ = true))) c ops

theorem run_eachSlot {slots : List UtxoSlot} (hslots : HasSlots c slots)
    (hnames : ∀ op ∈ ops, NamesSlot slots op) (hok : AllSucceed cfg key c ops) :
    (∀ offset s, slots[offset]? = some s → AllAccepted s (slotOpsAt offset ops)) ∧
      ∃ slots', HasSlots (run (Cell.next · cfg key) c ops) slots' ∧
        EachSlot SlotOp.live ops slots slots' := by
  induction ops generalizing c slots with
  | nil => exact ⟨fun _ _ _ => trivial, slots, hslots, eachSlot_nil _ slots⟩
  | cons op ops ih =>
    obtain ⟨r, hrec, rfl⟩ := hslots
    obtain ⟨offset, sop, hop, hlt⟩ := hnames op List.mem_cons_self
    obtain ⟨⟨s, hs, hacc, hnext⟩, -⟩ := next_stepsSlot hrec hop hlt hok.1
    have hrest : ∀ op ∈ ops, NamesSlot (r.slots.set offset (sop.live s)) op :=
      fun op hmem => (hnames op (List.mem_cons_of_mem _ hmem)).of_length List.length_set
    obtain ⟨haccs, slots', hslots', heach⟩ := ih hnext hrest hok.2
    refine ⟨?_, slots', hslots', heach.cons hop hs⟩
    intro other t ht
    rw [slotOpsAt_cons hop]
    by_cases hother : offset = other
    · subst hother
      cases hs.symm.trans ht
      rw [if_pos rfl]
      exact ⟨hacc, haccs offset (sop.live s) (by simp [hlt])⟩
    · rw [if_neg hother]
      exact haccs other t (by simpa [hother] using ht)

/-- The height of a successful reassignment fits into 32 bits. -/
def HeightFits (op : EngineOp) : Prop :=
  ∀ req, op = .reassign req → req.blockHeight + req.spendableAfter < 2 ^ 32

theorem heightFits_of_succeeds (hok : c.Succeeds cfg key op) : HeightFits op := by
  rintro req rfl
  replace hok : (c.reassign key req).2.isOk := hok
  unfold Cell.reassign at hok
  split at hok
  · cases hok
  rename_i hv
  obtain ⟨-, -, rfl, hlt, -⟩ := validateReassign_ok hv
  exact hlt

theorem allSucceed_heightFits (hok : AllSucceed cfg key c ops) : ∀ op ∈ ops, HeightFits op := by
  induction ops generalizing c with
  | nil => simp
  | cons op ops ih =>
    intro op' hmem
    rcases List.mem_cons.mp hmem with rfl | hmem
    · exact heightFits_of_succeeds hok.1
    · exact ih hok.2 op' hmem

theorem replayLog_eachSlot {entries : List RedoOp}
    (hjournal : List.Forall₂ (Journals key) ops entries)
    (hnames : ∀ op ∈ ops, NamesSlot r.slots op) (hfits : ∀ op ∈ ops, HeightFits op) :
    ∃ r', replayLog r entries = some r' ∧ EachSlot SlotOp.replay ops r.slots r'.slots := by
  induction hjournal generalizing r with
  | nil => exact ⟨r, rfl, eachSlot_nil _ r.slots⟩
  | @cons op entry ops entries hentry _ ih =>
    obtain ⟨offset, sop, hop, hlt⟩ := hnames op List.mem_cons_self
    have hs : r.slots[offset]? = some r.slots[offset] := List.getElem?_eq_getElem hlt
    have hto := hentry.replaysTo hop hs (hfits op List.mem_cons_self)
    obtain ⟨⟨r₁, result⟩, hreplay, hout⟩ := Option.map_eq_some_iff.mp hto
    obtain ⟨hslots, hresult⟩ := Prod.mk.inj hout
    have hrest : ∀ op ∈ ops, NamesSlot r₁.slots op :=
      fun op hmem => (hnames op (List.mem_cons_of_mem _ hmem)).of_length
        ((congrArg List.length hslots).trans List.length_set)
    obtain ⟨r', hr', heach⟩ := ih hrest fun op hmem => hfits op (List.mem_cons_of_mem _ hmem)
    rw [hslots] at heach
    exact ⟨r', (replayLog_cons hreplay hresult).trans hr', heach.cons hop hs⟩

/-! ## Recovery -/

/-- After every crash that leaves the slots of the device as some of the operations left them, the
replay of all entries gives the slots of the live run. -/
def SlotsRecover (cfg : StoreConfig) (key : TxKey) (c : Cell) (ops : List EngineOp)
    (entries : List RedoOp) : Prop :=
  ∀ k (crashed : Record), HasSlots (run (Cell.next · cfg key) c (ops.take k)) crashed.slots →
    ∃ r', replayLog crashed entries = some r' ∧
      HasSlots (run (Cell.next · cfg key) c ops) r'.slots

/-- The slots recover after every crash exactly when every freeze and unfreeze that carries a
cooldown over is followed by a spend or reassignment of its slot, and no unspend names the reserved
data of a slot that is spent with it. -/
theorem slots_recover_iff {entries : List RedoOp} (hrec : c.record = some r)
    (hnames : ∀ op ∈ ops, NamesSlot r.slots op) (hok : AllSucceed cfg key c ops)
    (hjournal : List.Forall₂ (Journals key) ops entries) :
    SlotsRecover cfg key c ops entries ↔
      ∀ offset s, r.slots[offset]? = some s → Restorable s (slotOpsAt offset ops) := by
  have hslots : HasSlots c r.slots := ⟨r, hrec, rfl⟩
  have hfits := allSucceed_heightFits hok
  obtain ⟨haccs, final, hfinal, hlive⟩ := run_eachSlot hslots hnames hok
  constructor
  · intro h offset s hs
    obtain ⟨r', hr', hlast⟩ := h 0 r hslots
    obtain ⟨r'', hr'', heach⟩ := replayLog_eachSlot hjournal hnames hfits
    cases hr'.symm.trans hr''
    have heq := (heach offset).symm.trans (hlast.eq hfinal ▸ hlive offset)
    rw [hs] at heq
    exact ((replay_eq_iff (haccs offset s hs) (.inl rfl)).mp (Option.some.inj heq)).2
  · intro hrest k crashed hcrashed
    have hpre : ∀ op ∈ ops.take k, NamesSlot r.slots op :=
      fun op hmem => hnames op (List.mem_of_mem_take hmem)
    have hsplit : ops.take k ++ ops.drop k = ops := List.take_append_drop k ops
    have hokpre : AllSucceed cfg key c (ops.take k) :=
      (guarded_append.mp (by rw [hsplit]; exact hok)).1
    obtain ⟨-, slots', hslots', hmid⟩ := run_eachSlot hslots hpre hokpre
    obtain rfl := hslots'.eq hcrashed
    obtain ⟨r', hr', heach⟩ := replayLog_eachSlot hjournal
      (fun op hmem => (hnames op hmem).of_length hmid.length_eq) hfits
    refine ⟨r', hr', ?_⟩
    have hsame : r'.slots = final := by
      refine List.ext_getElem? fun offset => ?_
      rw [heach offset, hmid offset, hlive offset, Option.map_map]
      cases hs : r.slots[offset]? with
      | none => rfl
      | some s =>
        have hops : slotOpsAt offset (ops.take k) ++ slotOpsAt offset (ops.drop k) =
            slotOpsAt offset ops := by rw [← slotOpsAt_append, hsplit]
        have hacc := haccs offset s hs
        have hres := hrest offset s hs
        rw [← hops] at hacc hres ⊢
        exact congrArg some (slot_recovers hacc hres)
    rw [hsame]
    exact hfinal

def frozenCell : Cell := demoRun [demoCreate, .freeze 0 demoHash]

/-- Reassign the frozen output, with a cooldown, and freeze it again. -/
def refreezeOps : List EngineOp := [.reassign demoReassign, .freeze 0 demoHash]

def refreezeEntries : List RedoOp :=
  [.reassignV2 demoKey 0 demoHash 10 100 demoHash, .freezeV2 demoKey 0 demoHash]

theorem refreeze_journals : List.Forall₂ (Journals demoKey) refreezeOps refreezeEntries :=
  .cons (@Journals.reassign demoKey demoReassign 0 10 100 rfl rfl rfl)
    (.cons (@Journals.freeze demoKey 0 demoHash 0 rfl) .nil)

/-- Another reassignment renews the slot, so that the forgotten cooldown does not matter. -/
theorem slots_recover_reassigned :
    SlotsRecover ⟨false, true⟩ demoKey frozenCell (refreezeOps ++ [.reassign demoReassign])
      (refreezeEntries ++ [.reassignV2 demoKey 0 demoHash 10 100 demoHash]) := by
  have hview : frozenCell.record.map (·.slots) = some [.newFrozen demoHash] := by decide +kernel
  obtain ⟨r, hr, hslots⟩ := Option.map_eq_some_iff.mp hview
  refine (slots_recover_iff hr ?_ ?_ ?_).mpr ?_
  · intro op hmem
    simp only [refreezeOps, List.mem_append, List.mem_cons, List.not_mem_nil, or_false] at hmem
    rcases hmem with (rfl | rfl) | rfl <;> exact ⟨0, _, rfl, by simp [hslots]⟩
  · decide +kernel
  · exact .cons (@Journals.reassign demoKey demoReassign 0 10 100 rfl rfl rfl)
      (.cons (@Journals.freeze demoKey 0 demoHash 0 rfl)
        (.cons (@Journals.reassign demoKey demoReassign 0 10 100 rfl rfl rfl) .nil))
  · intro offset s hs
    rw [hslots] at hs
    rcases offset with _ | offset
    · obtain rfl : UtxoSlot.newFrozen demoHash = s := by simpa using hs
      decide +kernel
    · simp at hs

/-- After a crash that lost both writes, the replayed freeze does not know the cooldown that the
reassignment before it has set: the output comes back frozen without one. -/
theorem freeze_replay_forgets_cooldown :
    AllSucceed ⟨false, true⟩ demoKey frozenCell refreezeOps ∧
      List.Forall₂ (Journals demoKey) refreezeOps refreezeEntries ∧
      ¬ SlotsRecover ⟨false, true⟩ demoKey frozenCell refreezeOps refreezeEntries := by
  refine ⟨by decide +kernel, refreeze_journals, fun h => ?_⟩
  have hrec : frozenCell.record.isSome := by decide +kernel
  obtain ⟨r, hr⟩ := Option.isSome_iff_exists.mp hrec
  obtain ⟨r', hreplay, final, hfinal, hslots⟩ := h 0 r ⟨r, hr, rfl⟩
  have hreplayed : (frozenCell.record.bind (replayLog · refreezeEntries)).map (·.slots) =
      some [.newFrozen demoHash] := by decide +kernel
  have hlive : (run (Cell.next · ⟨false, true⟩ demoKey) frozenCell refreezeOps).record.map
      (·.slots) = some [.newFrozenWithCooldown demoHash 110] := by decide +kernel
  have hne : [UtxoSlot.newFrozen demoHash] ≠ [.newFrozenWithCooldown demoHash 110] := by
    decide +kernel
  rw [hr, Option.bind_some, hreplay] at hreplayed
  rw [hfinal] at hlive
  exact hne ((Option.some.inj hreplayed).symm.trans (hslots.symm.trans (Option.some.inj hlive)))

end TeraSlab.Recovery
