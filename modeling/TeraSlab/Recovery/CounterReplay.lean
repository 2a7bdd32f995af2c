import TeraSlab.Recovery.SlotRecovery

/-!
# The counters of a record in a replay

Spend and unspend entries count the spent slots afresh, but a prune entry that hits adds one to the
number of pruned slots, and a spend entry that overwrites a pruned slot takes nothing away. So the
footer gets ahead of the pruned slots by one at each spend of a pruned slot, and a quiet replay
leaves both alone.
-/

namespace TeraSlab.Recovery

open Foundations Ops Redo TeraSlab.Index

variable {cfg : StoreConfig} {key : TxKey} {c : Cell} {r r' : Record} {op : EngineOp}
  {ops : List EngineOp} {entry : RedoOp} {entries : List RedoOp} {offset : Nat} {sop : SlotOp}
  {t : UtxoSlot}

/-! ## One entry -/

theorem Journals.replaysAs (h : Journals key op entry) (hop : slotOp op = some (offset, sop))
    (hmoves : sop.movesCounters) (ht : r.slots[offset]? = some t) :
    ReplaysAs r entry offset t sop := by
  cases h with
  | spend hoffset count height retention generation updatedAt =>
    cases hop
    rw [← hoffset] at ht ⊢
    exact replaySpend_replaysAs ht ..
  | unspend hoffset count height retention generation updatedAt =>
    cases hop
    rw [← hoffset] at ht ⊢
    exact replayUnspend_replaysAs ht ..
  | prune hoffset =>
    cases hop
    rw [← hoffset] at ht ⊢
    exact replayPrune_replaysAs ht
  | _ =>
    cases hop
    cases hmoves

/-! ## A whole replay -/

/-- The operation is a spend, an unspend or a prune of one of the slots. -/
def CountsSlot (slots : List UtxoSlot) (op : EngineOp) : Prop :=
  ∃ offset sop, slotOp op = some (offset, sop) ∧ offset < slots.length ∧ sop.movesCounters

inductive ReplayRun : Record → List EngineOp → Record → Prop where
  | nil (r : Record) : ReplayRun r [] r
  | cons {r r₁ r' : Record} {op : EngineOp} {ops : List EngineOp} {offset : Nat} {sop : SlotOp}
      {t : UtxoSlot} (hop : slotOp op = some (offset, sop)) (hmoves : sop.movesCounters)
      (ht : r.slots[offset]? = some t) (h : Replayed r r₁ offset t sop)
      (rest : ReplayRun r₁ ops r') : ReplayRun r (op :: ops) r'

theorem CountsSlot.of_length {slots slots' : List UtxoSlot} (h : CountsSlot slots op)
    (hlen : slots'.length = slots.length) : CountsSlot slots' op := by
  obtain ⟨offset, sop, hop, hlt, hmoves⟩ := h
  exact ⟨offset, sop, hop, by omega, hmoves⟩

theorem replayLog_run (hjournal : List.Forall₂ (Journals key) ops entries)
    (hnames : ∀ op ∈ ops, CountsSlot r.slots op) :
    ∃ r', replayLog r entries = some r' ∧ ReplayRun r ops r' := by
  induction hjournal generalizing r with
  | nil => exact ⟨r, rfl, .nil r⟩
  | @cons op entry ops entries hentry _ ih =>
    obtain ⟨offset, sop, hop, hlt, hmoves⟩ := hnames op List.mem_cons_self
    have ht : r.slots[offset]? = some r.slots[offset] := List.getElem?_eq_getElem hlt
    obtain ⟨r₁, result, hreplay, hresult, hreplayed⟩ := hentry.replaysAs hop hmoves ht
    have hrest : ∀ op ∈ ops, CountsSlot r₁.slots op := fun op hmem =>
      (hnames op (List.mem_cons_of_mem _ hmem)).of_length (by simp [hreplayed.slots])
    obtain ⟨r', hr', hrun⟩ := ih hrest
    exact ⟨r', (replayLog_cons hreplay hresult).trans hr', .cons hop hmoves ht hreplayed hrun⟩

theorem ReplayRun.eachSlot (h : ReplayRun r ops r') :
    EachSlot SlotOp.replay ops r.slots r'.slots := by
  induction h with
  | nil r => exact eachSlot_nil _ r.slots
  | cons hop _ ht h _ ih =>
    rw [h.slots] at ih
    exact ih.cons hop ht

theorem ReplayRun.spentExact (h : ReplayRun r ops r') (hr : SpentExact r) : SpentExact r' := by
  induction h with
  | nil r => exact hr
  | cons _ _ _ h _ ih => exact ih (h.exact hr)

def EveryEntry (guard : UtxoSlot → SlotOp → Prop) (slots : List UtxoSlot) (ops : List EngineOp) :
    Prop :=
  ∀ offset t, slots[offset]? = some t → Guarded SlotOp.replay guard t (slotOpsAt offset ops)

theorem everyEntry_cons {guard : UtxoSlot → SlotOp → Prop} {slots : List UtxoSlot}
    (hop : slotOp op = some (offset, sop)) (ht : slots[offset]? = some t) :
    EveryEntry guard slots (op :: ops) ↔
      guard t sop ∧ EveryEntry guard (slots.set offset (sop.replay t)) ops := by
  obtain ⟨hlt, rfl⟩ := List.getElem?_eq_some_iff.mp ht
  constructor
  · intro h
    have hfirst := h offset _ ht
    rw [slotOpsAt_cons hop, if_pos rfl] at hfirst
    refine ⟨hfirst.1, fun other u hu => ?_⟩
    by_cases hother : offset = other
    · subst hother
      obtain rfl : sop.replay slots[offset] = u := by simpa [hlt] using hu
      exact hfirst.2
    · have hrest := h other u (by simpa [hother] using hu)
      rwa [slotOpsAt_cons hop, if_neg hother] at hrest
  · rintro ⟨hguard, hrest⟩ other u hu
    rw [slotOpsAt_cons hop]
    by_cases hother : offset = other
    · subst hother
      obtain rfl : slots[offset] = u := by simpa [hlt] using hu
      rw [if_pos rfl]
      exact ⟨hguard, hrest offset _ (by simp [hlt])⟩
    · rw [if_neg hother]
      exact hrest other u (by simpa [hother] using hu)

def SpendsMatch (t : UtxoSlot) (sop : SlotOp) : Prop :=
  ∀ hash d, sop = .spend hash d → hash = t.hash

def NoRespend (t : UtxoSlot) (sop : SlotOp) : Prop := sop.isSpend → t.status ≠ .pruned

theorem replay_pruned_iff (hmoves : sop.movesCounters) (hmatch : SpendsMatch t sop) :
    (sop.replay t).status = .pruned ↔
      sop.prunes t ∨ (t.status = .pruned ∧ sop.isSpend = false) := by
  cases sop with
  | spend hash d =>
    obtain rfl := hmatch hash d rfl
    simp only [SlotOp.replay, SlotOp.prunes, SlotOp.isSpend]
    grind [UtxoSlot.newSpent_status]
  | unspend hash d =>
    simp only [SlotOp.replay, SlotOp.prunes, SlotOp.isSpend]
    grind [UtxoSlot.newUnspent_status]
  | prune child =>
    simp only [SlotOp.replay, SlotOp.prunes, SlotOp.isSpend]
    grind
  | _ => cases hmoves

/-- How far the footer is ahead of the pruned slots moves by one at a spend of a pruned slot. -/
theorem Replayed.pruned_ahead (h : Replayed r r' offset t sop) (ht : r.slots[offset]? = some t)
    (hmoves : sop.movesCounters) (hmatch : SpendsMatch t sop) :
    (r'.metadata.prunedUtxos + r.countStatus .pruned =
        r.metadata.prunedUtxos + r'.countStatus .pruned +
          if sop.isSpend ∧ t.status = .pruned then 1 else 0) ∨
      2 ^ 32 - 1 ≤ r'.metadata.prunedUtxos := by
  have hset := countStatus_set ht h.slots .pruned
  have hiff := replay_pruned_iff hmoves hmatch
  have hpruned := h.pruned
  have hexclusive : sop.prunes t → sop.isSpend = false ∧ t.status ≠ .pruned := by
    cases sop with
    | prune child =>
      intro hp
      have hp : t.status = .spent ∧ childTxid t.spendingData = child := by
        simpa [SlotOp.prunes] using hp
      exact ⟨rfl, by simp [hp.1]⟩
    | _ => simp [SlotOp.prunes]
  by_cases hp : sop.prunes t
  · obtain ⟨hspend, hne⟩ := hexclusive hp
    rw [if_pos hp] at hpruned
    simp only [hiff.mpr (.inl hp), hne, hspend, if_true, if_false, Bool.false_eq_true,
      false_and] at hset ⊢
    omega
  · rw [if_neg hp] at hpruned
    by_cases hstatus : t.status = .pruned
    · cases hspend : sop.isSpend with
      | true =>
        have hne : (sop.replay t).status ≠ .pruned := by
          simp [hiff, hp, hspend]
        simp only [hstatus, hne, if_true, if_false, and_self] at hset ⊢
        omega
      | false =>
        have heq : (sop.replay t).status = .pruned := hiff.mpr (.inr ⟨hstatus, hspend⟩)
        simp only [hstatus, heq, if_true, Bool.false_eq_true, false_and, if_false] at hset ⊢
        omega
    · have hne : (sop.replay t).status ≠ .pruned := by simp [hiff, hp, hstatus]
      simp only [hstatus, hne, if_false, and_false] at hset ⊢
      omega

theorem Replayed.pruned_le (h : Replayed r r' offset t sop)
    (hmax : r.metadata.prunedUtxos ≤ 2 ^ 32 - 1) :
    r.metadata.prunedUtxos ≤ r'.metadata.prunedUtxos ∧
      r'.metadata.prunedUtxos ≤ 2 ^ 32 - 1 := by
  rw [h.pruned]
  split_ifs
  · omega
  · omega

section

variable (h : ReplayRun r ops r')
include h

theorem ReplayRun.pruned_le (hmax : r.metadata.prunedUtxos ≤ 2 ^ 32 - 1) :
    r.metadata.prunedUtxos ≤ r'.metadata.prunedUtxos := by
  induction h with
  | nil r => exact le_rfl
  | cons _ _ _ h _ ih =>
    obtain ⟨hle, hmax₁⟩ := h.pruned_le hmax
    exact hle.trans (ih hmax₁)

/-- A quiet replay leaves the number of pruned slots and the footer's count of them alone. -/
theorem ReplayRun.quiet (hquiet : EveryEntry (fun t sop => sop.Quiet t) r.slots ops)
    (hmatch : EveryEntry SpendsMatch r.slots ops) :
    r'.metadata.prunedUtxos = r.metadata.prunedUtxos ∧
      r'.countStatus .pruned = r.countStatus .pruned := by
  induction h with
  | nil r => exact ⟨rfl, rfl⟩
  | @cons r r₁ r' op ops offset sop t hop hmoves ht h rest ih =>
    rw [everyEntry_cons hop ht, ← h.slots] at hquiet hmatch
    obtain ⟨hsame, hcount⟩ := ih hquiet.2 hmatch.2
    have hprunes := hquiet.1.1
    have hset := countStatus_set ht h.slots .pruned
    have hiff := replay_pruned_iff hmoves hmatch.1
    have hstatus : (sop.replay t).status = .pruned ↔ t.status = .pruned := by
      have hspend := hquiet.1.2
      grind
    refine ⟨by rw [hsame, h.pruned, hprunes]; rfl, ?_⟩
    simp only [hstatus] at hset
    omega

/-- The footer is at its limit, or as far ahead of the pruned slots as it was, or further. -/
theorem ReplayRun.pruned_ahead (hmatch : EveryEntry SpendsMatch r.slots ops)
    (hmax : r.metadata.prunedUtxos ≤ 2 ^ 32 - 1) :
    (r.metadata.prunedUtxos + r'.countStatus .pruned ≤
        r'.metadata.prunedUtxos + r.countStatus .pruned ∧
      (EveryEntry NoRespend r.slots ops ↔
        r'.metadata.prunedUtxos + r.countStatus .pruned =
          r.metadata.prunedUtxos + r'.countStatus .pruned)) ∨
      2 ^ 32 - 1 ≤ r'.metadata.prunedUtxos := by
  induction h with
  | nil r => exact .inl ⟨le_rfl, fun _ => rfl, fun _ _ _ _ => trivial⟩
  | @cons r r₁ r' op ops offset sop t hop hmoves ht h rest ih =>
    rw [everyEntry_cons hop ht, ← h.slots] at hmatch
    rw [everyEntry_cons hop ht, ← h.slots]
    obtain ⟨-, hmax₁⟩ := h.pruned_le hmax
    rcases h.pruned_ahead ht hmoves hmatch.1 with hstep | hstep
    · refine (ih hmatch.2 hmax₁).imp (fun ⟨hle, hiff⟩ => ?_) id
      by_cases hrespend : sop.isSpend ∧ t.status = .pruned
      · rw [if_pos hrespend] at hstep
        refine ⟨by omega, fun hno => absurd hrespend.2 (hno.1 hrespend.1), fun heq => ?_⟩
        omega
      · rw [if_neg hrespend] at hstep
        have hno : NoRespend t sop := fun hspend hstatus => hrespend ⟨hspend, hstatus⟩
        refine ⟨by omega, ?_⟩
        rw [hiff]
        constructor
        · rintro ⟨-, heq⟩
          omega
        · intro heq
          exact ⟨hno, by omega⟩
    · exact .inr (hstep.trans (rest.pruned_le hmax₁))

/-- The replay counts the spent slots afresh at an entry that recounts. -/
theorem ReplayRun.spentExact_of_recounts {front back : List EngineOp}
    (hops : ops = front ++ op :: back) (hop : slotOp op = some (offset, sop))
    (ht : r.slots[offset]? = some t)
    (hrecounts : sop.recounts (run SlotOp.replay t (slotOpsAt offset front))) : SpentExact r' := by
  induction h generalizing front t with
  | nil r => simp at hops
  | @cons r r₁ r' op₁ ops offset₁ sop₁ t₁ hop₁ hmoves₁ ht₁ h rest ih =>
    rcases front with _ | ⟨op₂, front⟩
    · obtain ⟨rfl, rfl⟩ := List.cons.inj hops
      obtain ⟨rfl, rfl⟩ : offset₁ = offset ∧ sop₁ = sop := by simpa [hop₁] using hop
      cases ht₁.symm.trans ht
      exact rest.spentExact (h.recount hrecounts)
    · obtain ⟨rfl, rfl⟩ := List.cons.inj hops
      rw [slotOpsAt_cons hop₁] at hrecounts
      by_cases hsame : offset₁ = offset
      · subst hsame
        cases ht₁.symm.trans ht
        rw [if_pos rfl] at hrecounts
        obtain ⟨hlt, -⟩ := List.getElem?_eq_some_iff.mp ht
        exact ih rfl (by simp [h.slots, hlt]) hrecounts
      · rw [if_neg hsame] at hrecounts
        exact ih rfl (by simpa [h.slots, hsame] using ht) hrecounts

end

end TeraSlab.Recovery
