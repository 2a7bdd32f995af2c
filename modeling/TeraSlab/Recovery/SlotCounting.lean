import TeraSlab.Recovery.SlotReplay

/-!
# Pruned slots in a replay

Spends, unspends and prunes never change the hash of a slot, so the first spend entry brings a
replayed slot back to where the live slot was, whatever it was before. A replay that prunes the slot
before that, or that finds it pruned, overwrites the pruned slot by the spend: the slot is pruned
once more, or no longer, and the footer has counted it.

A replay is quiet when neither happens. After every crash it is, when no prune of the run hit the
slot and no prune entry stands before the spend by its child.
-/

namespace TeraSlab.Recovery

open Foundations Ops

namespace SlotOp

def movesCounters : SlotOp → Bool
  | .spend .. => true
  | .unspend .. => true
  | .prune _ => true
  | _ => false

def isSpend : SlotOp → Bool
  | .spend .. => true
  | _ => false

def prunes (s : UtxoSlot) : SlotOp → Bool
  | .prune child => s.status = .spent && childTxid s.spendingData = child
  | _ => false

def Quiet (t : UtxoSlot) (op : SlotOp) : Prop :=
  op.prunes t = false ∧ (op.isSpend → t.status ≠ .pruned)

theorem Quiet.of_not_isSpend {t : UtxoSlot} {op : SlotOp} (hprunes : op.prunes t = false)
    (hspend : op.isSpend = false) : op.Quiet t :=
  ⟨hprunes, by simp [hspend]⟩

end SlotOp

/-- No prune of the run hits the slot. -/
def NeverPrunes (s : UtxoSlot) (ops : List SlotOp) : Prop :=
  Guarded SlotOp.live (fun s op => op.prunes s = false) s ops

/-- A prune stands before a spend by the child it names, with no spend in front of it and no unspend
of that spend. -/
def Overtaken (ops : List SlotOp) : Prop :=
  ∃ front child mid hash d back, ops = front ++ .prune child :: (mid ++ .spend hash d :: back) ∧
    childTxid d = child ∧ (∀ op ∈ front, op.isSpend = false) ∧ ∀ hash, .unspend hash d ∉ front

variable {s t u : UtxoSlot} {op : SlotOp} {ops front back : List SlotOp} {d : SpendingData}

/-! ## Hashes -/

theorem replay_hash (hop : op.movesCounters) (t : UtxoSlot) : (op.replay t).hash = t.hash := by
  cases op with
  | spend | unspend | prune =>
    simp only [SlotOp.replay]
    split_ifs <;> rfl
  | _ => cases hop

theorem live_hash (hop : op.movesCounters) (hacc : op.Accepted s) : (op.live s).hash = s.hash := by
  cases op with
  | spend hash d => exact hacc.1.symm
  | unspend hash d =>
    simp only [SlotOp.live]
    split_ifs
    · exact hacc.1.symm
    · rfl
  | prune child =>
    simp only [SlotOp.live]
    split_ifs <;> rfl
  | _ => cases hop

theorem run_live_hash (hops : ∀ op ∈ ops, op.movesCounters) (hacc : AllAccepted s ops) :
    (run SlotOp.live s ops).hash = s.hash := by
  induction ops generalizing s with
  | nil => rfl
  | cons op ops ih =>
    obtain ⟨hop, hrest⟩ := List.forall_mem_cons.mp hops
    rw [run_cons, ih hrest hacc.2, live_hash hop hacc.1]

theorem run_replay_hash (hops : ∀ op ∈ ops, op.movesCounters) :
    (run SlotOp.replay t ops).hash = t.hash := by
  induction ops generalizing t with
  | nil => rfl
  | cons op ops ih =>
    obtain ⟨hop, hrest⟩ := List.forall_mem_cons.mp hops
    rw [run_cons, ih hrest, replay_hash hop]

/-- The replay of a spend gives the live slot, from any slot with its hash. -/
theorem replay_spend {hash : Hash} (hacc : (SlotOp.spend hash d).Accepted s)
    (hhash : t.hash = s.hash) : (SlotOp.spend hash d).replay t = (SlotOp.spend hash d).live s := by
  obtain ⟨thash, status, data⟩ := t
  obtain rfl : thash = hash := hhash.trans hacc.1
  simp only [SlotOp.replay, SlotOp.live]
  split_ifs with hspent hne
  · obtain ⟨rfl, rfl⟩ := hspent
    rfl
  · exact absurd rfl hne
  · rfl

/-! ## Replay from the live slot -/

theorem not_carriesCooldown (hop : op.movesCounters) : op.carriesCooldown s = false := by
  cases op <;> first | rfl | cases hop

/-- The replay is where the live run is, or has cleared a slot with the reserved data. -/
theorem same_or_cleared_step (hop : op.movesCounters) (hacc : op.Accepted s)
    (h : t = s ∨ Cleared s t) : op.replay t = op.live s ∨ Cleared (op.live s) (op.replay t) := by
  rcases h with rfl | h
  · rcases replay_self hacc with ⟨-, -, heq⟩ | ⟨hcarry, -⟩ | ⟨-, hcleared⟩
    · exact .inl heq
    · rw [not_carriesCooldown hop] at hcarry
      cases hcarry
    · exact .inr hcleared
  · exact .inr (h.step hacc)

theorem quiet_of_same_or_cleared (hacc : op.Accepted s) (hprune : op.prunes s = false)
    (h : t = s ∨ Cleared s t) : op.Quiet t := by
  rcases h with rfl | ⟨-, -, hunspent⟩
  · refine ⟨hprune, fun hspend hpruned => ?_⟩
    cases op with
    | spend hash d => simp [SlotOp.Accepted, hpruned] at hacc
    | _ => cases hspend
  · refine ⟨?_, fun _ => by simp [hunspent]⟩
    cases op with
    | prune child => simp [SlotOp.prunes, hunspent]
    | _ => rfl

section

variable (hops : ∀ op ∈ ops, op.movesCounters) (hacc : AllAccepted s ops)
  (hprune : NeverPrunes s ops)
include hops hacc hprune

theorem quiet_run_of_same_or_cleared (h : t = s ∨ Cleared s t) :
    Guarded SlotOp.replay (fun t op => op.Quiet t) t ops := by
  induction ops generalizing s t with
  | nil => trivial
  | cons op ops ih =>
    obtain ⟨hop, hrest⟩ := List.forall_mem_cons.mp hops
    refine ⟨quiet_of_same_or_cleared hacc.1 hprune.1 h, ?_⟩
    exact ih hrest hacc.2 hprune.2 (same_or_cleared_step hop hacc.1 h)

/-! ## Replay from the slot of a crash -/

/-- A replay is quiet when a pruned slot meets no spend entry, and a spent one no prune by its child
before a spend or its own unspend. -/
theorem quiet_run (hhash : t.hash = s.hash)
    (hpruned : t.status = .pruned → ∀ op ∈ ops, op.isSpend = false)
    (hspent : ∀ front child back, ops = front ++ .prune child :: back →
      t.status = .spent → childTxid t.spendingData = child →
        (∃ op ∈ front, op.isSpend) ∨ ∃ hash, .unspend hash t.spendingData ∈ front) :
    Guarded SlotOp.replay (fun t op => op.Quiet t) t ops := by
  induction ops generalizing s t with
  | nil => trivial
  | cons op ops ih =>
    obtain ⟨hop, hrest⟩ := List.forall_mem_cons.mp hops
    have hhash' : (op.replay t).hash = (op.live s).hash := by
      rw [replay_hash hop, live_hash hop hacc.1, hhash]
    -- An entry that leaves the slot alone leaves both conditions to the later ones.
    have hskip : op.Quiet t → op.replay t = t → op.isSpend = false →
        (t.status = .spent → ∀ hash, op ≠ .unspend hash t.spendingData) →
        Guarded SlotOp.replay (fun t op => op.Quiet t) t (op :: ops) := by
      intro hquiet hreplay hspend hown
      refine ⟨hquiet, ?_⟩
      rw [hreplay] at hhash' ⊢
      refine ih hrest hacc.2 hprune.2 hhash'
        (fun hp op hmem => hpruned hp op (List.mem_cons_of_mem _ hmem)) ?_
      intro front child back heq hs hchild
      rcases hspent (op :: front) child back (by rw [heq]; rfl) hs hchild with
        hex | ⟨hash, hmem⟩
      · exact .inl (((List.exists_mem_cons_iff ..).mp hex).resolve_left (by simp [hspend]))
      · exact .inr ⟨hash, (List.mem_cons.mp hmem).resolve_left (hown hs hash ·.symm)⟩
    cases op with
    | spend hash d =>
      refine ⟨⟨rfl, fun _ hp => ?_⟩, ?_⟩
      · exact absurd (hpruned hp _ List.mem_cons_self) (by simp [SlotOp.isSpend])
      · exact quiet_run_of_same_or_cleared hrest hacc.2 hprune.2 (.inl (replay_spend hacc.1 hhash))
    | unspend hash d =>
      by_cases hhit : t.status = .spent ∧ t.spendingData = d
      · have hreplay : (SlotOp.unspend hash d).replay t = .newUnspent t.hash := by
          simp [SlotOp.replay, hhit, hhash, hacc.1.1]
        refine ⟨.of_not_isSpend rfl rfl, ?_⟩
        rw [hreplay] at hhash' ⊢
        exact ih hrest hacc.2 hprune.2 hhash' (fun hp => by cases hp) fun _ _ _ _ hs => by cases hs
      · have hreplay : (SlotOp.unspend hash d).replay t = t := by
          simp only [SlotOp.replay]
          grind
        refine hskip (.of_not_isSpend rfl rfl) hreplay rfl fun hs hash' heq => hhit ⟨hs, ?_⟩
        exact (SlotOp.unspend.inj heq).2.symm
    | prune child =>
      have hquiet : (SlotOp.prune child).prunes t = false := by
        by_contra hhit
        have hhit : t.status = .spent ∧ childTxid t.spendingData = child := by
          simpa [SlotOp.prunes] using hhit
        rcases hspent [] child ops rfl hhit.1 hhit.2 with ⟨op, hmem, -⟩ | ⟨hash, hmem⟩ <;>
          cases hmem
      have hreplay : (SlotOp.prune child).replay t = t := by
        refine if_neg ?_
        simpa [SlotOp.prunes] using hquiet
      exact hskip (.of_not_isSpend hquiet rfl) hreplay rfl (by simp)
    | _ => cases hop

end

theorem live_of_not_prunes {child : Hash} (h : (SlotOp.prune child).prunes s = false) :
    (SlotOp.prune child).live s = s := by
  refine if_neg ?_
  simpa [SlotOp.prunes] using h

theorem pruned_origin (hops : ∀ op ∈ ops, op.movesCounters) (hprune : NeverPrunes s ops)
    (h : (run SlotOp.live s ops).status = .pruned) : s.status = .pruned := by
  induction ops generalizing s with
  | nil => exact h
  | cons op ops ih =>
    obtain ⟨hop, hrest⟩ := List.forall_mem_cons.mp hops
    have hlive := ih hrest hprune.2 h
    cases op with
    | spend hash d => cases hlive
    | unspend hash d =>
      simp only [SlotOp.live] at hlive
      split at hlive
      · cases hlive
      · exact hlive
    | prune child => rwa [live_of_not_prunes hprune.1] at hlive
    | _ => cases hop

/-- Only prunes succeed on a pruned slot. -/
theorem not_isSpend_of_pruned (hacc : AllAccepted s ops) (h : s.status = .pruned) :
    ∀ op ∈ ops, op.isSpend = false := by
  induction ops generalizing s with
  | nil => simp
  | cons op ops ih =>
    obtain ⟨hop, hacc⟩ := hacc
    cases op with
    | prune child =>
      have hlive : (SlotOp.prune child).live s = s := if_neg (by simp [h])
      rw [hlive] at hacc
      intro op hmem
      rcases List.mem_cons.mp hmem with rfl | hmem
      · rfl
      · exact ih hacc h op hmem
    | _ => simp [SlotOp.Accepted, h] at hop

/-- A spent slot stays as it is without spends, its own unspend and a prune that hits. -/
theorem run_live_of_spent (hops : ∀ op ∈ ops, op.movesCounters) (hprune : NeverPrunes s ops)
    (hspend : ∀ op ∈ ops, op.isSpend = false)
    (hunspend : ∀ hash, .unspend hash s.spendingData ∉ ops) :
    run SlotOp.live s ops = s := by
  induction ops with
  | nil => rfl
  | cons op ops ih =>
    obtain ⟨hop, hrest⟩ := List.forall_mem_cons.mp hops
    obtain ⟨hnot, hnots⟩ := List.forall_mem_cons.mp hspend
    have hlive : op.live s = s := by
      cases op with
      | spend hash d => cases hnot
      | unspend hash d =>
        refine if_neg fun howns => hunspend hash ?_
        obtain ⟨-, -, hd⟩ : s.status = .spent ∧ s.spendingData ≠ frozenMarker ∧
            s.spendingData = d := by simpa [Cell.ownsSpend, and_assoc] using howns
        rw [hd]
        exact List.mem_cons_self
      | prune child => exact live_of_not_prunes hprune.1
      | _ => cases hop
    have hprunes := hprune.2
    rw [hlive] at hprunes
    rw [run_cons, hlive]
    exact ih hrest hprunes hnots fun hash hmem => hunspend hash (List.mem_cons_of_mem _ hmem)

/-- After every crash the replay is quiet, when no prune hits and none is overtaken. -/
theorem crash_quiet {pre post : List SlotOp} (hops : ∀ op ∈ pre ++ post, op.movesCounters)
    (hacc : AllAccepted s (pre ++ post)) (hprune : NeverPrunes s (pre ++ post))
    (hover : ¬ Overtaken (pre ++ post)) :
    Guarded SlotOp.replay (fun t op => op.Quiet t) (run SlotOp.live s pre) (pre ++ post) := by
  have hpre : ∀ op ∈ pre, op.movesCounters :=
    fun op hmem => hops op (List.mem_append_left _ hmem)
  have haccs := guarded_append.mp hacc
  have hprunes := guarded_append.mp hprune
  refine quiet_run hops hacc hprune (run_live_hash hpre haccs.1) ?_ ?_
  · intro hpruned
    exact not_isSpend_of_pruned hacc (pruned_origin hpre hprunes.1 hpruned)
  intro front child back heq hspent hchild
  by_contra hcon
  push Not at hcon
  obtain ⟨hspend, hunspend⟩ := hcon
  have hspend : ∀ op ∈ front, op.isSpend = false := fun op hmem => by simpa using hspend op hmem
  have hhit : (SlotOp.prune child).prunes (run SlotOp.live s front) = false := by
    rw [heq] at hprune
    exact (guarded_append.mp hprune).2.1
  rcases List.append_eq_append_iff.mp heq with ⟨later, rfl, hpost⟩ | ⟨later, rfl, hpre'⟩
  · -- The prune comes after the crash, with the slot as it was then.
    have hlater : NeverPrunes (run SlotOp.live s pre) later := by
      rw [hpost] at hprunes
      exact (guarded_append.mp hprunes.2).1
    have hsame := run_live_of_spent
      (fun op hmem => hops op (by rw [hpost]; simp [hmem])) hlater
      (fun op hmem => hspend op (List.mem_append_right _ hmem))
      fun hash hmem => hunspend hash (List.mem_append_right _ hmem)
    rw [run_append, hsame] at hhit
    simp [SlotOp.prunes, hspent, hchild] at hhit
  · -- The prune comes before the crash, so that the spend of the slot is in between.
    rcases later with _ | ⟨op, mid⟩
    · rw [List.append_nil] at hspent hchild
      simp [SlotOp.prunes, hspent, hchild] at hhit
    obtain ⟨rfl, rfl⟩ := List.cons.inj hpre'
    have hmid := (guarded_append.mp haccs.1).2.2
    have hrun : run SlotOp.live s (front ++ .prune child :: mid) =
        run SlotOp.live (run SlotOp.live s front) mid := by
      rw [run_append, run_cons, live_of_not_prunes hhit]
    rw [live_of_not_prunes hhit] at hmid
    rw [hrun] at hspent hchild hunspend
    rcases spent_origin hmid hspent with heq' | hmem
    · rw [heq'] at hspent hchild
      simp [SlotOp.prunes, hspent, hchild] at hhit
    generalize run SlotOp.live (run SlotOp.live s front) mid = u at hchild hunspend hmem
    obtain ⟨mid, back', rfl⟩ := List.append_of_mem hmem
    exact hover ⟨front, child, mid, u.hash, u.spendingData, back' ++ post, by simp, hchild,
      hspend, hunspend⟩

/-! ## Replaying once more -/

def ReservedSpend (s : UtxoSlot) : Prop := s.status = .spent ∧ s.spendingData = frozenMarker

theorem not_reservedSpend_live (hop : op.movesCounters) (hacc : op.Accepted s)
    (h : ¬ ReservedSpend s) : ¬ ReservedSpend (op.live s) := by
  rintro ⟨hspent, hdata⟩
  cases op with
  | spend hash d => exact hacc.2.1 hdata
  | unspend | prune =>
    simp only [SlotOp.live] at hspent hdata
    split at hspent
    · cases hspent
    · rw [if_neg ‹_›] at hdata
      exact h ⟨hspent, hdata⟩
  | _ => cases hop

section

variable (hops : ∀ op ∈ ops, op.movesCounters)
include hops

theorem run_replay_of_not_reservedSpend (hacc : AllAccepted s ops) (h : ¬ ReservedSpend s) :
    run SlotOp.replay s ops = run SlotOp.live s ops := by
  induction ops generalizing s with
  | nil => rfl
  | cons op ops ih =>
    obtain ⟨hop, hrest⟩ := List.forall_mem_cons.mp hops
    have heq : op.replay s = op.live s := by
      rcases replay_self hacc.1 with ⟨-, -, heq⟩ | ⟨hcarry, -⟩ | ⟨hres, -⟩
      · exact heq
      · rw [not_carriesCooldown hop] at hcarry
        cases hcarry
      · cases op with
        | unspend hash d =>
          have hres : (s.status = .spent ∧ s.spendingData = d) ∧ d = frozenMarker := by
            simpa [SlotOp.namesReserved] using hres
          exact absurd ⟨hres.1.1, hres.1.2.trans hres.2⟩ h
        | _ => cases hres
    rw [run_cons, run_cons, heq]
    exact ih hrest hacc.2 (not_reservedSpend_live hop hacc.1 h)

/-- With a spend among the entries the replay ends at the live slot, from any slot with its
hash. -/
theorem run_replay_of_spend (hacc : AllAccepted s ops) (hhash : t.hash = s.hash)
    (hspend : ∃ op ∈ ops, op.isSpend) : run SlotOp.replay t ops = run SlotOp.live s ops := by
  induction ops generalizing s t with
  | nil => simp at hspend
  | cons op ops ih =>
    obtain ⟨hop, hrest⟩ := List.forall_mem_cons.mp hops
    rw [run_cons, run_cons]
    cases hisSpend : op.isSpend with
    | true =>
      cases op with
      | spend hash d =>
        rw [replay_spend hacc.1 hhash]
        refine run_replay_of_not_reservedSpend hrest hacc.2 ?_
        exact fun h => hacc.1.2.1 h.2
      | _ => cases hisSpend
    | false =>
      refine ih hrest hacc.2 ?_ ?_
      · rw [replay_hash hop, live_hash hop hacc.1, hhash]
      · exact ((List.exists_mem_cons_iff ..).mp hspend).resolve_left (by simp [hisSpend])

omit hops in
/-- Only a spend entry changes a slot that is not spent. -/
theorem replay_of_not_isSpend (hop : op.movesCounters) (hspend : op.isSpend = false)
    (ht : t.status ≠ .spent) : op.replay t = t ∧ op.Quiet t := by
  cases op with
  | spend hash d => cases hspend
  | unspend hash d => exact ⟨by simp [SlotOp.replay, ht], .of_not_isSpend rfl rfl⟩
  | prune child =>
    exact ⟨if_neg (by simp [ht]), .of_not_isSpend (by simp [SlotOp.prunes, ht]) rfl⟩
  | _ => cases hop

/-- Without a spend among the entries a quiet replay is done after one pass. -/
theorem run_replay_settles (hspend : ∀ op ∈ ops, op.isSpend = false)
    (hquiet : Guarded SlotOp.replay (fun t op => op.Quiet t) t ops) :
    (run SlotOp.replay t ops = t ∨ (run SlotOp.replay t ops).status = .unspent) ∧
      ∀ op ∈ ops, op.replay (run SlotOp.replay t ops) = run SlotOp.replay t ops ∧
        op.Quiet (run SlotOp.replay t ops) := by
  induction ops generalizing t with
  | nil => exact ⟨.inl rfl, by simp⟩
  | cons op ops ih =>
    obtain ⟨hop, hrest⟩ := List.forall_mem_cons.mp hops
    obtain ⟨hnot, hnots⟩ := List.forall_mem_cons.mp hspend
    obtain ⟨hend, hall⟩ := ih hrest hnots hquiet.2
    rw [run_cons]
    have hcases : op.replay t = t ∨ (op.replay t).status = .unspent := by
      cases op with
      | spend hash d => cases hnot
      | unspend hash d =>
        simp only [SlotOp.replay]
        split_ifs <;> simp
      | prune child =>
        refine .inl (if_neg ?_)
        simpa [SlotOp.prunes] using hquiet.1.1
      | _ => cases hop
    have hfirst : (run SlotOp.replay (op.replay t) ops = t ∧ op.replay t = t) ∨
        (run SlotOp.replay (op.replay t) ops).status = .unspent := by
      rcases hend with hend | hend
      · rcases hcases with hsame | hclear
        · exact .inl ⟨hend.trans hsame, hsame⟩
        · exact .inr (by rw [hend]; exact hclear)
      · exact .inr hend
    refine ⟨hfirst.imp And.left id, fun op' hmem => ?_⟩
    rcases List.mem_cons.mp hmem with rfl | hmem
    · rcases hfirst with ⟨hrun, hsame⟩ | hclear
      · rw [hrun]
        exact ⟨hsame, hquiet.1⟩
      · exact replay_of_not_isSpend hop hnot (by simp [hclear])
    · exact hall op' hmem

end

theorem run_replay_fixed (h : ∀ op ∈ ops, op.replay t = t ∧ op.Quiet t) :
    run SlotOp.replay t ops = t ∧ Guarded SlotOp.replay (fun t op => op.Quiet t) t ops := by
  induction ops with
  | nil => exact ⟨rfl, trivial⟩
  | cons op ops ih =>
    obtain ⟨⟨hop, hquiet⟩, hrest⟩ := List.forall_mem_cons.mp h
    obtain ⟨hrun, hguarded⟩ := ih hrest
    refine ⟨by rw [run_cons, hop, hrun], hquiet, ?_⟩
    rw [hop]
    exact hguarded

/-- A second pass over the entries is quiet as well, and changes nothing. -/
theorem second_pass {pre post : List SlotOp} (hops : ∀ op ∈ pre ++ post, op.movesCounters)
    (hacc : AllAccepted s (pre ++ post)) (hprune : NeverPrunes s (pre ++ post))
    (hover : ¬ Overtaken (pre ++ post)) :
    let once := run SlotOp.replay (run SlotOp.live s pre) (pre ++ post)
    run SlotOp.replay once (pre ++ post) = once ∧
      Guarded SlotOp.replay (fun t op => op.Quiet t) once (pre ++ post) := by
  intro once
  by_cases hspend : ∃ op ∈ pre ++ post, op.isSpend
  · have hpre : ∀ op ∈ pre, op.movesCounters :=
      fun op hmem => hops op (List.mem_append_left _ hmem)
    have honce : once = run SlotOp.live s (pre ++ post) := run_replay_of_spend hops hacc
      (run_live_hash hpre (guarded_append.mp hacc).1) hspend
    have hquiet : Guarded SlotOp.replay (fun t op => op.Quiet t)
        (run SlotOp.live s (pre ++ post)) ((pre ++ post) ++ []) :=
      crash_quiet (by simpa using hops) (by simpa using hacc) (by simpa using hprune)
        (by simpa using hover)
    rw [honce]
    rw [List.append_nil] at hquiet
    exact ⟨run_replay_of_spend hops hacc (run_live_hash hops hacc) hspend, hquiet⟩
  · have hspend : ∀ op ∈ pre ++ post, op.isSpend = false := by
      intro op hmem
      by_contra h
      exact hspend ⟨op, hmem, by simpa using h⟩
    exact run_replay_fixed (run_replay_settles hops hspend (crash_quiet hops hacc hprune hover)).2

/-! ## Overtaken prunes -/

/-- A pruned slot stays pruned up to the next spend entry. -/
theorem not_guarded_of_pruned (hops : ∀ op ∈ ops, op.movesCounters) (ht : t.status = .pruned)
    (hspend : ∃ op ∈ ops, op.isSpend) :
    ¬ Guarded SlotOp.replay (fun t op => op.isSpend → t.status ≠ .pruned) t ops := by
  induction ops with
  | nil => simp at hspend
  | cons op ops ih =>
    rintro ⟨hop, hrest⟩
    cases hisSpend : op.isSpend with
    | true => exact hop hisSpend ht
    | false =>
      obtain ⟨hmoves, hmoves'⟩ := List.forall_mem_cons.mp hops
      rw [(replay_of_not_isSpend hmoves hisSpend (by simp [ht])).1] at hrest
      refine ih hmoves' ?_ hrest
      exact ((List.exists_mem_cons_iff ..).mp hspend).resolve_left (by simp [hisSpend])

/-- The replay of an overtaken prune prunes the spend of the crash, and the next spend entry
overwrites the pruned slot. -/
theorem not_guarded_of_overtaken (hops : ∀ op ∈ ops, op.movesCounters) (hstatus : t.status = .spent)
    (hdata : t.spendingData = d) (heq : ops = front ++ .prune (childTxid d) :: back)
    (hfront : ∀ op ∈ front, op.isSpend = false) (hunspend : ∀ hash, .unspend hash d ∉ front)
    (hback : ∃ op ∈ back, op.isSpend) :
    ¬ Guarded SlotOp.replay (fun t op => op.isSpend → t.status ≠ .pruned) t ops := by
  subst heq
  induction front with
  | nil =>
    rintro ⟨-, hrest⟩
    have hpruned : (SlotOp.prune (childTxid d)).replay t = { t with status := .pruned } :=
      if_pos ⟨hstatus, by rw [hdata]⟩
    rw [hpruned] at hrest
    exact not_guarded_of_pruned (List.forall_mem_cons.mp hops).2 rfl hback hrest
  | cons op front ih =>
    rintro ⟨-, hrest⟩
    have hlater : ∃ op ∈ front ++ .prune (childTxid d) :: back, op.isSpend := by
      obtain ⟨op', hmem, hop'⟩ := hback
      exact ⟨op', by simp [hmem], hop'⟩
    obtain ⟨hop, hops'⟩ := List.forall_mem_cons.mp hops
    obtain ⟨hnot, hnots⟩ := List.forall_mem_cons.mp hfront
    have hcases : op.replay t = t ∨ op.replay t = { t with status := .pruned } := by
      cases op with
      | spend hash d => cases hnot
      | unspend hash d' =>
        refine .inl ?_
        have hne : t.spendingData ≠ d' := by
          rintro rfl
          exact hunspend hash (hdata ▸ List.mem_cons_self)
        simp [SlotOp.replay, hne]
      | prune child =>
        simp only [SlotOp.replay]
        split_ifs
        · exact .inr rfl
        · exact .inl rfl
      | _ => cases hop
    rcases hcases with hsame | hpruned
    · rw [hsame] at hrest
      exact ih hnots (fun hash hmem => hunspend hash (List.mem_cons_of_mem _ hmem)) hops' hrest
    · rw [hpruned] at hrest
      exact not_guarded_of_pruned hops' rfl hlater hrest

end TeraSlab.Recovery
