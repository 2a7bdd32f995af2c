import TeraSlab.Recovery.CounterReplay
import TeraSlab.Redo.CreateOps

/-!
# Crash recovery of the counters of a record

The number of pruned slots is right after a replay when the replay is quiet in every slot, and when
the footer of the crash had it right.

The footer of the last operation before the crash may be lost. A lost spend or unspend is counted
afresh by its own entry; a prune whose slot was written is skipped, and nobody counts it.
-/

namespace TeraSlab.Recovery

open Foundations Ops Redo TeraSlab.Index

variable {cfg : StoreConfig} {key : TxKey} {c : Cell} {r r' : Record} {op : EngineOp}
  {ops : List EngineOp} {entry : RedoOp} {entries : List RedoOp} {offset : Nat} {sop : SlotOp}
  {t : UtxoSlot}

/-! ## The live run -/

theorem run_hasCounts (hrec : c.record = some r) (h : Counted r 0 0)
    (hnames : ∀ op ∈ ops, CountsSlot r.slots op) (hok : AllSucceed cfg key c ops) :
    HasCounts (run (Cell.next · cfg key) c ops) := by
  induction ops generalizing c r with
  | nil => exact ⟨r, hrec, h⟩
  | cons op ops ih =>
    obtain ⟨offset, sop, hop, hlt, hmoves⟩ := hnames op List.mem_cons_self
    obtain ⟨⟨s, -, -, r₁, hrec₁, hslots⟩, hcounts⟩ := next_stepsSlot hrec hop hlt hok.1
    obtain ⟨r₁', hrec₁', h₁⟩ := hcounts hmoves h
    cases hrec₁.symm.trans hrec₁'
    exact ih hrec₁ h₁ (fun op hmem => (hnames op (List.mem_cons_of_mem _ hmem)).of_length
      (by simp [hslots])) hok.2

/-! ## Crashes -/

def CountersRight (r : Record) : Prop :=
  r.metadata.spentUtxos = r.countStatus .spent ∧ r.metadata.prunedUtxos = r.countStatus .pruned

/-- A record on the device after a crash: that of some point of the run, or that point's footer with
the slot of the next operation already written. -/
def CrashesTo (cfg : StoreConfig) (key : TxKey) (c : Cell) (ops : List EngineOp)
    (crashed : Record) : Prop :=
  ∃ k before after, (run (Cell.next · cfg key) c (ops.take k)).record = some before ∧
    (after = before ∨ (run (Cell.next · cfg key) c (ops.take (k + 1))).record = some after) ∧
    crashed.slots = after.slots ∧ crashed.metadata = before.metadata

/-- After every crash the replay of all entries leaves the counters right, and a second replay does
not change them. -/
def CountersRestored (cfg : StoreConfig) (key : TxKey) (c : Cell) (ops : List EngineOp)
    (entries : List RedoOp) : Prop :=
  ∀ crashed, CrashesTo cfg key c ops crashed →
    ∃ r', replayLog crashed entries = some r' ∧ CountersRight r' ∧
      ∃ r'', replayLog r' entries = some r'' ∧
        r''.metadata.spentUtxos = r'.metadata.spentUtxos ∧
        r''.metadata.prunedUtxos = r'.metadata.prunedUtxos

/-- A run of successful spends, unspends and prunes on the slots of a record whose counters are
right, with the redo entries it left. The size of a record fits into its 32-bit field. -/
structure CountedRun (cfg : StoreConfig) (key : TxKey) (c : Cell) (r : Record)
    (ops : List EngineOp) (entries : List RedoOp) : Prop where
  record : c.record = some r
  counters : CountersRight r
  size : metadataSize + r.slots.length * utxoSlotSize < 2 ^ 32
  names : ∀ op ∈ ops, CountsSlot r.slots op
  succeeds : AllSucceed cfg key c ops
  journals : List.Forall₂ (Journals key) ops entries

theorem slotOpsAt_eq_append_cons {front back : List SlotOp}
    (h : slotOpsAt offset ops = front ++ sop :: back) :
    ∃ pre op post, ops = pre ++ op :: post ∧ slotOpsAt offset pre = front ∧
      slotOp op = some (offset, sop) ∧ slotOpsAt offset post = back := by
  obtain ⟨pre, rest, rfl, hpre, hrest⟩ := List.filterMap_eq_append_iff.mp h
  obtain ⟨skipped, op, post, rfl, hskipped, hop, hpost⟩ := List.filterMap_eq_cons_iff.mp hrest
  refine ⟨pre ++ skipped, op, post, by simp, ?_, ?_, hpost⟩
  · rw [slotOpsAt_append, slotOpsAt, hpre, slotOpsAt, List.filterMap_eq_nil_iff.mpr hskipped,
      List.append_nil]
  obtain ⟨named, hnamed, hif⟩ := Option.bind_eq_some_iff.mp hop
  split at hif
  · rename_i heq
    rw [hnamed, ← heq, ← Option.some.inj hif]
  · cases hif

variable {pre post : List EngineOp} {s : UtxoSlot} {sops : List SlotOp}

namespace CountedRun

section

variable (h : CountedRun cfg key c r ops entries)
include h

theorem namesSlot :
    ∀ op ∈ ops, NamesSlot r.slots op := by
  intro op hmem
  obtain ⟨offset, sop, hop, hlt, -⟩ := h.names op hmem
  exact ⟨offset, sop, hop, hlt⟩

theorem movesCounters (offset : Nat) :
    ∀ sop ∈ slotOpsAt offset ops, sop.movesCounters := by
  intro sop hmem
  obtain ⟨front, back, heq⟩ := List.append_of_mem hmem
  obtain ⟨pre, op, post, rfl, -, hop, -⟩ := slotOpsAt_eq_append_cons heq
  obtain ⟨offset', sop', hop', -, hmoves⟩ := h.names op (by simp)
  obtain ⟨-, rfl⟩ : offset = offset' ∧ sop = sop' := by simpa [hop] using hop'
  exact hmoves

theorem accepted (hs : r.slots[offset]? = some s) : AllAccepted s (slotOpsAt offset ops) :=
  (run_eachSlot ⟨r, h.record, rfl⟩ h.namesSlot h.succeeds).1 offset s hs

/-- The record after the first operations, its slots and its counters. -/
theorem reaches (hops : ops = pre ++ post) :
    ∃ rₖ, (run (Cell.next · cfg key) c pre).record = some rₖ ∧ CountersRight rₖ ∧
      EachSlot SlotOp.live pre r.slots rₖ.slots := by
  subst hops
  have hok : AllSucceed cfg key c pre := (guarded_append.mp h.succeeds).1
  have hcounted : Counted r 0 0 :=
    ⟨h.counters.1, h.counters.2, le_rfl⟩
  obtain ⟨-, slots', ⟨rₖ, hrec, rfl⟩, heach⟩ := run_eachSlot ⟨r, h.record, rfl⟩
    (fun op hmem => h.namesSlot op (List.mem_append_left _ hmem)) hok
  obtain ⟨rₖ', hrec', hcount⟩ := run_hasCounts h.record hcounted
    (fun op hmem => h.names op (List.mem_append_left _ hmem)) hok
  cases hrec.symm.trans hrec'
  exact ⟨rₖ, hrec, ⟨hcount.spent, hcount.pruned⟩, heach⟩

end

end CountedRun

/-- The spend entries of a slot carry the hash that it keeps. -/
theorem spendsMatch_of_accepted (hops : ∀ sop ∈ sops, sop.movesCounters) (hacc : AllAccepted s sops)
    (hhash : t.hash = s.hash) : Guarded SlotOp.replay SpendsMatch t sops := by
  induction sops generalizing s t with
  | nil => trivial
  | cons sop sops ih =>
    obtain ⟨hop, hrest⟩ := List.forall_mem_cons.mp hops
    refine ⟨?_, ih hrest hacc.2 ?_⟩
    · rintro hash d rfl
      exact hacc.1.1.symm.trans hhash.symm
    · rw [replay_hash hop, live_hash hop hacc.1, hhash]

namespace CountedRun

variable {crashed before after : Record}

section

variable (h : CountedRun cfg key c r ops entries)
include h

/-- The spend entries match the slots of every point of the run, and of a replay from there. -/
theorem spendsMatch (hops : ops = pre ++ post)
    (heach : EachSlot SlotOp.live pre r.slots crashed.slots) :
    EveryEntry SpendsMatch crashed.slots ops := by
  intro offset t ht
  rw [heach offset, Option.map_eq_some_iff] at ht
  obtain ⟨s, hs, rfl⟩ := ht
  have hmoves := h.movesCounters offset
  have hacc := h.accepted hs
  refine spendsMatch_of_accepted hmoves hacc ?_
  rw [hops, slotOpsAt_append] at hmoves hacc
  exact run_live_hash (fun sop hmem => hmoves sop (List.mem_append_left _ hmem))
    (guarded_append.mp hacc).1

/-- The number of pruned slots stays below what the footer can hold. -/
theorem countPruned_lt (hlen : crashed.slots.length = r.slots.length) :
    crashed.countStatus .pruned < 2 ^ 32 - 1 := by
  have hle : crashed.countStatus .pruned ≤ crashed.slots.length := List.countP_le_length
  have hsize := h.size
  simp only [metadataSize, utxoSlotSize] at hsize
  omega

/-! ### When the counters are restored -/

/-- No replay from a point of the run spends a pruned slot, when the counters are restored. -/
theorem noRespend (hrestored : CountersRestored cfg key c ops entries) (hops : ops = pre ++ post)
    (heach : EachSlot SlotOp.live pre r.slots crashed.slots) :
    EveryEntry NoRespend crashed.slots ops := by
  obtain ⟨rₖ, hrec, hright, heachₖ⟩ := h.reaches hops
  have hslots : crashed.slots = rₖ.slots :=
    List.ext_getElem? fun offset => (heach offset).trans (heachₖ offset).symm
  have hcrash : CrashesTo cfg key c ops rₖ := by
    refine ⟨pre.length, rₖ, rₖ, ?_, .inl rfl, rfl, rfl⟩
    rw [hops, List.take_left]
    exact hrec
  obtain ⟨r', hr', hright', -⟩ := hrestored rₖ hcrash
  have hlen := heachₖ.length_eq
  obtain ⟨r₁, hr₁, hrun⟩ := replayLog_run h.journals
    fun op hmem => (h.names op hmem).of_length hlen
  cases hr'.symm.trans hr₁
  have hlt := h.countPruned_lt hlen
  have hlt' : r'.countStatus .pruned < 2 ^ 32 - 1 :=
    h.countPruned_lt (hrun.eachSlot.length_eq.trans hlen)
  rw [hslots]
  rcases hrun.pruned_ahead (h.spendsMatch hops heachₖ) (by rw [hright.2]; omega) with
    ⟨-, hiff⟩ | hmax
  · exact hiff.mpr (by rw [hright.2, hright'.2]; omega)
  · rw [hright'.2] at hmax
    omega

end

theorem slots_next (hop : slotOp op = some (offset, sop)) (hs : r.slots[offset]? = some s)
    (heach : EachSlot SlotOp.live pre r.slots before.slots)
    (heach' : EachSlot SlotOp.live (pre ++ [op]) r.slots after.slots) :
    before.slots[offset]? = some (run SlotOp.live s (slotOpsAt offset pre)) ∧
      after.slots =
        before.slots.set offset (sop.live (run SlotOp.live s (slotOpsAt offset pre))) := by
  have hslot : before.slots[offset]? = some (run SlotOp.live s (slotOpsAt offset pre)) := by
    rw [heach offset, hs]
    rfl
  refine ⟨hslot, List.ext_getElem? fun other => ?_⟩
  rw [heach' other, slotOpsAt_append, slotOpsAt_cons hop]
  obtain ⟨hlt, -⟩ := List.getElem?_eq_some_iff.mp hslot
  by_cases hother : offset = other
  · subst hother
    simp [hs, hlt, slotOpsAt_nil, run_append]
  · simp [hother, slotOpsAt_nil, heach other]

/-- A prune that hits makes one more pruned slot. -/
theorem countPruned_prune (hslot : before.slots[offset]? = some t)
    (hset : after.slots = before.slots.set offset (sop.live t)) (hprunes : sop.prunes t) :
    after.countStatus .pruned = before.countStatus .pruned + 1 := by
  have hcounts := countStatus_set hslot hset .pruned
  cases sop with
  | prune child =>
    have hhit : t.status = .spent ∧ childTxid t.spendingData = child := by
      simpa [SlotOp.prunes] using hprunes
    have hlive : ((SlotOp.prune child).live t).status = .pruned := by
      rw [SlotOp.live, if_pos hhit]
    simp only [hhit.1, hlive, reduceCtorEq, if_true, if_false] at hcounts
    omega
  | _ => cases hprunes

section

variable (h : CountedRun cfg key c r ops entries)
    (hrestored : CountersRestored cfg key c ops entries) {s : UtxoSlot}
    (hs : r.slots[offset]? = some s)
include h hrestored hs

theorem neverPrunes : NeverPrunes s (slotOpsAt offset ops) := by
  by_contra hnot
  obtain ⟨front, sop, back, heq, hprunes⟩ := not_guarded hnot
  obtain ⟨pre, op, post, hops, rfl, hop, -⟩ := slotOpsAt_eq_append_cons heq
  have hprunes : sop.prunes (run SlotOp.live s (slotOpsAt offset pre)) := by simpa using hprunes
  have hnext : ops = (pre ++ [op]) ++ post := by simp [hops]
  obtain ⟨before, hbefore, hright, heach⟩ := h.reaches hops
  obtain ⟨after, hafter, -, heach'⟩ := h.reaches hnext
  obtain ⟨hslot, hset⟩ := slots_next hop hs heach heach'
  -- The footer of the prune is lost: its slot is pruned, but not counted.
  obtain ⟨crashed, hslots, hfooter⟩ : ∃ crashed : Record, crashed.slots = after.slots ∧
      crashed.metadata = before.metadata := ⟨{ after with metadata := before.metadata }, rfl, rfl⟩
  have hcrash : CrashesTo cfg key c ops crashed := by
    refine ⟨pre.length, before, after, ?_, .inr ?_, hslots, hfooter⟩
    · rw [hops, List.take_left]
      exact hbefore
    have hlen : (pre ++ [op]).length = pre.length + 1 := by simp
    rw [← hlen, hnext, List.take_left]
    exact hafter
  have hcount : crashed.countStatus .pruned = before.countStatus .pruned + 1 :=
    (countStatus_congr hslots .pruned).trans (countPruned_prune hslot hset hprunes)
  rw [← hslots] at heach'
  obtain ⟨r', hr', hright', -⟩ := hrestored crashed hcrash
  have hlen := heach'.length_eq
  obtain ⟨r₁, hr₁, hrun⟩ := replayLog_run h.journals
    fun op hmem => (h.names op hmem).of_length hlen
  cases hr'.symm.trans hr₁
  have hlt' := h.countPruned_lt (hrun.eachSlot.length_eq.trans hlen)
  have hltb := h.countPruned_lt heach.length_eq
  have hno := h.noRespend hrestored hnext heach'
  have hahead := hrun.pruned_ahead (h.spendsMatch hnext heach')
  rw [hfooter, hright.2, hcount, hright'.2] at hahead
  rcases hahead (by omega) with ⟨-, hiff⟩ | hmax
  · have := hiff.mp hno
    omega
  · omega

theorem not_overtaken : ¬ Overtaken (slotOpsAt offset ops) := by
  rintro ⟨front, child, mid, hash, d, back, heq, hchild, hfront, hunspend⟩
  -- The crash is right after the spend.
  have hsplit : slotOpsAt offset ops = (front ++ .prune child :: mid) ++ .spend hash d :: back := by
    rw [heq]
    simp
  obtain ⟨pre, op, post, hops, hpre, hop, -⟩ := slotOpsAt_eq_append_cons hsplit
  have hnext : ops = (pre ++ [op]) ++ post := by simp [hops]
  obtain ⟨rₖ, -, -, heach⟩ := h.reaches hnext
  have hslot : rₖ.slots[offset]? = some (.newSpent hash d) := by
    rw [heach offset, hs, slotOpsAt_append, slotOpsAt_cons hop, if_pos rfl, slotOpsAt_nil,
      Option.map_some, run_append]
    rfl
  have hspend : ∃ op ∈ mid ++ SlotOp.spend hash d :: back, op.isSpend :=
    ⟨.spend hash d, by simp, rfl⟩
  have hguard := h.noRespend hrestored hnext heach offset _ hslot
  rw [← hchild] at heq
  exact not_guarded_of_overtaken (h.movesCounters offset) (UtxoSlot.newSpent_status hash d)
    (UtxoSlot.newSpent_spendingData hash d) heq hfront hunspend hspend hguard

end

/-! ### When no slot is pruned twice -/

variable {pre post : List EngineOp}

/-- No prune of the run hits a slot, and no prune is overtaken by the spend of its child. -/
def PrunesSafely (r : Record) (ops : List EngineOp) : Prop :=
  ∀ offset s, r.slots[offset]? = some s →
      NeverPrunes s (slotOpsAt offset ops) ∧ ¬ Overtaken (slotOpsAt offset ops)

section

variable (h : CountedRun cfg key c r ops entries) (hops : ops = pre ++ post)
    (heach : EachSlot SlotOp.live pre r.slots crashed.slots)
include h hops heach

theorem crash_quiet (hsafe : PrunesSafely r ops) :
    EveryEntry (fun t sop => sop.Quiet t) crashed.slots ops := by
  intro offset t ht
  rw [heach offset, Option.map_eq_some_iff] at ht
  obtain ⟨s, hs, rfl⟩ := ht
  obtain ⟨hprune, hover⟩ := hsafe offset s hs
  have hmoves := h.movesCounters offset
  have hacc := h.accepted hs
  rw [hops, slotOpsAt_append] at hmoves hacc hprune hover ⊢
  exact Recovery.crash_quiet hmoves hacc hprune hover

/-- A second pass is quiet, and leaves the slots as they are. -/
theorem second_pass (hreplay : EachSlot SlotOp.replay ops crashed.slots r'.slots)
    (hsafe : PrunesSafely r ops) :
    EveryEntry (fun t sop => sop.Quiet t) r'.slots ops ∧ EveryEntry SpendsMatch r'.slots ops ∧
      EachSlot SlotOp.replay ops r'.slots r'.slots := by
  have hpass : ∀ offset s, r.slots[offset]? = some s →
      let once := run SlotOp.replay (run SlotOp.live s (slotOpsAt offset pre))
        (slotOpsAt offset ops)
      run SlotOp.replay once (slotOpsAt offset ops) = once ∧
        Guarded SlotOp.replay (fun t sop => sop.Quiet t) once (slotOpsAt offset ops) ∧
        Guarded SlotOp.replay SpendsMatch once (slotOpsAt offset ops) := by
    intro offset s hs once
    obtain ⟨hprune, hover⟩ := hsafe offset s hs
    have hmoves := h.movesCounters offset
    have hacc := h.accepted hs
    have hhash : once.hash = s.hash := by
      rw [run_replay_hash hmoves]
      rw [hops, slotOpsAt_append] at hmoves hacc
      exact run_live_hash (fun sop hmem => hmoves sop (List.mem_append_left _ hmem))
        (guarded_append.mp hacc).1
    have hmatch := spendsMatch_of_accepted hmoves hacc hhash
    rw [hops, slotOpsAt_append] at hmoves hacc hprune hover
    have hsecond := Recovery.second_pass hmoves hacc hprune hover
    rw [← slotOpsAt_append, ← hops] at hsecond
    exact ⟨hsecond.1, hsecond.2, hmatch⟩
  have hslot : ∀ offset t, r'.slots[offset]? = some t → ∃ s, r.slots[offset]? = some s ∧
      t = run SlotOp.replay (run SlotOp.live s (slotOpsAt offset pre)) (slotOpsAt offset ops) := by
    intro offset t ht
    rw [hreplay offset, heach offset, Option.map_map, Option.map_eq_some_iff] at ht
    obtain ⟨s, hs, rfl⟩ := ht
    exact ⟨s, hs, rfl⟩
  refine ⟨fun offset t ht => ?_, fun offset t ht => ?_, fun offset => ?_⟩
  · obtain ⟨s, hs, rfl⟩ := hslot offset t ht
    exact (hpass offset s hs).2.1
  · obtain ⟨s, hs, rfl⟩ := hslot offset t ht
    exact (hpass offset s hs).2.2
  · cases ht : r'.slots[offset]? with
    | none => rfl
    | some t =>
      obtain ⟨s, hs, rfl⟩ := hslot offset t ht
      exact congrArg some (hpass offset s hs).1.symm

end

section

variable (h : CountedRun cfg key c r ops entries)
include h

/-- The entry of an operation whose footer is lost counts the spent slots afresh, when the
operation changed their number. -/
theorem recounts_lost (hops : ops = pre ++ op :: post) (hop : slotOp op = some (offset, sop))
    (hs : r.slots[offset]? = some s) (hprune : NeverPrunes s (slotOpsAt offset ops))
    (hchanged : sop.live (run SlotOp.live s (slotOpsAt offset pre)) ≠
      run SlotOp.live s (slotOpsAt offset pre)) :
    sop.recounts (run SlotOp.replay (run SlotOp.live s (slotOpsAt offset (pre ++ [op])))
      (slotOpsAt offset pre)) := by
  have hmoves := h.movesCounters offset
  have hacc := h.accepted hs
  rw [hops, slotOpsAt_append, slotOpsAt_cons hop, if_pos rfl] at hmoves hacc hprune
  have hmovesPre : ∀ sop ∈ slotOpsAt offset pre, sop.movesCounters :=
    fun sop hmem => hmoves sop (List.mem_append_left _ hmem)
  obtain ⟨haccPre, hsop, -⟩ := guarded_append.mp hacc
  have hmovesSop : sop.movesCounters := hmoves sop (by simp)
  have hhash := run_live_hash hmovesPre haccPre
  have hlast : run SlotOp.live s (slotOpsAt offset (pre ++ [op])) =
      sop.live (run SlotOp.live s (slotOpsAt offset pre)) := by
    rw [slotOpsAt_append, slotOpsAt_cons hop, if_pos rfl, slotOpsAt_nil, run_append]
    rfl
  rw [hlast]
  cases sop with
  | spend hash d =>
    exact (run_replay_hash hmovesPre).trans ((live_hash hmovesSop hsop).trans hsop.1)
  | unspend hash d =>
    have howns : Cell.ownsSpend (run SlotOp.live s (slotOpsAt offset pre)) d := by
      by_contra hnot
      exact hchanged (if_neg hnot)
    obtain ⟨hstatus, -, hdata⟩ := ownsSpend_iff.mp howns
    have hlive : (SlotOp.unspend hash d).live (run SlotOp.live s (slotOpsAt offset pre)) =
        .newUnspent hash := if_pos howns
    rw [hlive]
    by_cases hspend : ∃ sop ∈ slotOpsAt offset pre, sop.isSpend
    · -- A spend of the slot brings the replay to the live slot, which the unspend clears.
      have hsame := run_replay_of_spend (t := .newUnspent hash) hmovesPre haccPre
        (hsop.1.symm.trans hhash) hspend
      rw [hsame]
      exact .inr ⟨hstatus, hsop.1, hdata⟩
    · have hnot : ∀ sop ∈ slotOpsAt offset pre, sop.isSpend = false := by
        intro sop hmem
        by_contra hsp
        exact hspend ⟨sop, hmem, by simpa using hsp⟩
      -- An unspent slot is left alone up to the next spend entry.
      have hfixed := run_replay_fixed fun sop hmem => @replay_of_not_isSpend (.newUnspent hash) sop
        (hmovesPre sop hmem) (hnot sop hmem) (by simp)
      rw [hfixed.1]
      exact .inl rfl
  | prune child =>
    have hhit := (guarded_append.mp hprune).2.1
    exact absurd (live_of_not_prunes hhit) hchanged
  | _ => cases hmovesSop

/-- The counters are restored from a record whose pruned slots are counted, if the replay counts the
spent ones. -/
theorem restored_from (hops : ops = pre ++ post)
    (heach : EachSlot SlotOp.live pre r.slots crashed.slots) (hsafe : PrunesSafely r ops)
    (hpruned : crashed.metadata.prunedUtxos = crashed.countStatus .pruned)
    (hspent : ∀ r', ReplayRun crashed ops r' → SpentExact r') :
    ∃ r', replayLog crashed entries = some r' ∧ CountersRight r' ∧
      ∃ r'', replayLog r' entries = some r'' ∧
        r''.metadata.spentUtxos = r'.metadata.spentUtxos ∧
        r''.metadata.prunedUtxos = r'.metadata.prunedUtxos := by
  have hlen := heach.length_eq
  obtain ⟨r', hr', hrun⟩ := replayLog_run h.journals
    fun op hmem => (h.names op hmem).of_length hlen
  have hlen' := hrun.eachSlot.length_eq.trans hlen
  obtain ⟨r'', hr'', hrun'⟩ := replayLog_run h.journals
    fun op hmem => (h.names op hmem).of_length hlen'
  obtain ⟨hfooter, hcount⟩ :=
    hrun.quiet (h.crash_quiet hops heach hsafe) (h.spendsMatch hops heach)
  obtain ⟨hquiet, hmatch, hfixed⟩ := h.second_pass hops heach hrun.eachSlot hsafe
  have hexact := hspent r' hrun
  have hslots : r''.slots = r'.slots :=
    List.ext_getElem? fun offset => (hrun'.eachSlot offset).trans (hfixed offset).symm
  refine ⟨r', hr', ⟨hexact, by rw [hfooter, hcount, hpruned]⟩, r'', hr'', ?_, ?_⟩
  · exact ((hrun'.spentExact hexact).trans (countStatus_congr hslots .spent)).trans hexact.symm
  · exact (hrun'.quiet hquiet hmatch).1

/-- The slots and counts at a crash that lost the footer of an operation. -/
theorem restored_lost (hops : ops = pre ++ op :: post) (hright : CountersRight before)
    (heach : EachSlot SlotOp.live pre r.slots before.slots)
    (heach' : EachSlot SlotOp.live (pre ++ [op]) r.slots crashed.slots)
    (hfooter : crashed.metadata = before.metadata) (hsafe : PrunesSafely r ops) :
    crashed.metadata.prunedUtxos = crashed.countStatus .pruned ∧
      ∀ r', ReplayRun crashed ops r' → SpentExact r' := by
  obtain ⟨offset, sop, hop, hlt, hmoves⟩ := h.names op (by simp [hops])
  have hs : r.slots[offset]? = some r.slots[offset] := List.getElem?_eq_getElem hlt
  generalize r.slots[offset] = s at hs
  obtain ⟨hslot, hset⟩ := slots_next hop hs heach heach'
  have hprune := (hsafe offset s hs).1
  by_cases hchanged : sop.live (run SlotOp.live s (slotOpsAt offset pre)) =
      run SlotOp.live s (slotOpsAt offset pre)
  · -- The operation left its slot alone.
    rw [hchanged, slots_writeBack hslot] at hset
    have hcount := countStatus_congr hset
    refine ⟨by rw [hfooter, hright.2, hcount], fun r' hrun => hrun.spentExact ?_⟩
    rw [SpentExact, hfooter, hright.1, hcount]
  · refine ⟨?_, fun r' hrun => ?_⟩
    · have hcounts := countStatus_set hslot hset .pruned
      rw [hfooter, hright.2]
      have hacc := h.accepted hs
      rw [hops, slotOpsAt_append, slotOpsAt_cons hop, if_pos rfl] at hacc hprune
      have hsop := (guarded_append.mp hacc).2.1
      have hnot := (guarded_append.mp hprune).2.1
      cases sop with
      | spend hash d =>
        have hbefore : (run SlotOp.live s (slotOpsAt offset pre)).status ≠ .pruned := by
          rcases hsop.2.2 with hu | ⟨hsp, -⟩
          · simp [hu]
          · simp [hsp]
        simp only [hbefore, SlotOp.live, UtxoSlot.newSpent_status, reduceCtorEq, if_false]
          at hcounts
        omega
      | unspend hash d =>
        have hbefore : (run SlotOp.live s (slotOpsAt offset pre)).status ≠ .pruned := by
          rcases hsop.2 with hu | hsp | hf
          · simp [hu]
          · simp [hsp]
          · simp [hf]
        have hlive : (SlotOp.unspend hash d).live (run SlotOp.live s (slotOpsAt offset pre)) =
            .newUnspent hash := by
          refine if_pos ?_
          by_contra hnotOwns
          exact hchanged (if_neg hnotOwns)
        simp only [hbefore, hlive, UtxoSlot.newUnspent_status, reduceCtorEq, if_false] at hcounts
        omega
      | prune child => exact absurd (live_of_not_prunes hnot) hchanged
      | _ => cases hmoves
    · have hcrashed : crashed.slots[offset]? =
          some (run SlotOp.live s (slotOpsAt offset (pre ++ [op]))) := by
        rw [heach' offset, hs]
        rfl
      exact hrun.spentExact_of_recounts hops hop hcrashed
        (h.recounts_lost hops hop hs hprune hchanged)

end

end CountedRun

/-- The counters are restored after every crash exactly when no prune of the run hits a slot, and no
prune entry is overtaken by the spend of the child it names. -/
theorem counters_restored_iff (h : CountedRun cfg key c r ops entries) :
    CountersRestored cfg key c ops entries ↔
      ∀ offset s, r.slots[offset]? = some s →
        NeverPrunes s (slotOpsAt offset ops) ∧ ¬ Overtaken (slotOpsAt offset ops) := by
  constructor
  · intro hrestored offset s hs
    exact ⟨h.neverPrunes hrestored hs, h.not_overtaken hrestored hs⟩
  rintro hsafe crashed ⟨k, before, after, hbefore, hafter, hslots, hfooter⟩
  have hsplit : ops = ops.take k ++ ops.drop k := (List.take_append_drop k ops).symm
  obtain ⟨rₖ, hrec, hright, heach⟩ := h.reaches hsplit
  cases hbefore.symm.trans hrec
  by_cases hlost : k < ops.length ∧ after ≠ before
  · -- The footer of the operation after the first `k` is lost.
    obtain ⟨hk, hne⟩ := hlost
    have hops : ops = ops.take k ++ ops[k] :: ops.drop (k + 1) := by
      rw [← List.drop_eq_getElem_cons hk]
      exact hsplit
    have htake : ops.take k ++ [ops[k]] = ops.take (k + 1) := List.take_append_getElem hk
    have hnext : ops = (ops.take k ++ [ops[k]]) ++ ops.drop (k + 1) := by simp
    obtain ⟨after', hrec', -, heach'⟩ := h.reaches hnext
    rw [htake] at hrec'
    cases (hafter.resolve_left hne).symm.trans hrec'
    rw [← hslots] at heach'
    obtain ⟨hpruned, hspent⟩ := h.restored_lost hops hright heach heach' hfooter hsafe
    exact h.restored_from hnext heach' hsafe hpruned hspent
  · have hsame : after = before := by
      by_contra hne
      have hk : ops.length ≤ k := Nat.le_of_not_lt fun hk => hlost ⟨hk, hne⟩
      have htake : ops.take (k + 1) = ops.take k := by
        rw [List.take_of_length_le hk, List.take_of_length_le (hk.trans k.le_succ)]
      rw [htake] at hafter
      exact hne (Option.some.inj ((hafter.resolve_left hne).symm.trans hbefore))
    subst hsame
    have hcount := countStatus_congr hslots
    rw [← hslots] at heach
    refine h.restored_from hsplit heach hsafe ?_ fun r' hrun => hrun.spentExact ?_
    · rw [hfooter, hright.2, hcount]
    · rw [SpentExact, hfooter, hright.1, hcount]

def unspentCell : Cell := demoRun [demoCreate]

def demoSpendEntry (byte : UInt8) : RedoOp :=
  .spendV2 demoKey 0 (.replicate 36 byte) 1 10 100 1 0 (some demoHash)

def demoUnspendEntry (byte : UInt8) : RedoOp :=
  .unspendV2 demoKey 0 (.replicate 36 byte) 0 10 100 2 0 (some demoHash)

theorem demoSpend_journals (byte : UInt8) (height : Nat) :
    Journals demoKey (demoSpend byte height) (demoSpendEntry byte) := .spend rfl ..

/-- A spend, its unspend and another spend: the counters are right after every crash. -/
theorem counters_restored_respent :
    CountersRestored ⟨false, true⟩ demoKey unspentCell
      [demoSpend 1 10, demoUnspend 1 10, demoSpend 2 10]
      [demoSpendEntry 1, demoUnspendEntry 1, demoSpendEntry 2] := by
  have hview : unspentCell.record.map (fun r => (r.slots, r.metadata.spentUtxos,
      r.metadata.prunedUtxos)) = some ([.newUnspent demoHash], 0, 0) := by decide +kernel
  obtain ⟨r, hr, hview⟩ := Option.map_eq_some_iff.mp hview
  rw [Prod.mk.injEq, Prod.mk.injEq] at hview
  obtain ⟨hslots, hspent, hpruned⟩ := hview
  have hlen : 0 < r.slots.length := by simp [hslots]
  refine (counters_restored_iff ⟨hr, ⟨?_, ?_⟩, ?_, ?_, ?_, ?_⟩).mpr ?_
  · simp [hspent, Record.countStatus, hslots]
  · simp [hpruned, Record.countStatus, hslots]
  · simp [hslots, metadataSize, utxoSlotSize]
  · intro op hmem
    simp only [List.mem_cons, List.not_mem_nil, or_false] at hmem
    rcases hmem with rfl | rfl | rfl <;> exact ⟨0, _, rfl, hlen, rfl⟩
  · decide +kernel
  · exact .cons (demoSpend_journals ..)
      (.cons (.unspend rfl ..) (.cons (demoSpend_journals ..) .nil))
  · intro offset s hs
    rcases offset with _ | offset
    · refine ⟨⟨rfl, rfl, rfl, trivial⟩, ?_⟩
      rintro ⟨front, child, mid, hash, d, back, heq, -⟩
      have hmem : SlotOp.prune child ∈
          slotOpsAt 0 [demoSpend 1 10, demoUnspend 1 10, demoSpend 2 10] := by simp [heq]
      simp [slotOpsAt, slotOp, demoSpend, demoUnspend] at hmem
    · simp [hslots] at hs

/-- A spend and the prune of its child, both applied before the crash: the replayed spend takes the
pruned slot back, the replayed prune counts it once more, and the footer says 2 for one slot. -/
theorem replayed_prune_counts_twice :
    let ops := [demoSpend 1 10, .pruneSlotIfSpentByChild (.ok ()) 0 (.replicate 32 1)]
    let entries := [demoSpendEntry 1, .pruneSlotIfSpentBy demoKey 0 (.replicate 32 1)]
    AllSucceed ⟨false, true⟩ demoKey unspentCell ops ∧
      List.Forall₂ (Journals demoKey) ops entries ∧
      ¬ CountersRestored ⟨false, true⟩ demoKey unspentCell ops entries := by
  intro ops entries
  refine ⟨by decide +kernel, .cons (demoSpend_journals ..) (.cons (.prune rfl) .nil), fun h => ?_⟩
  have hrec : (run (Cell.next · ⟨false, true⟩ demoKey) unspentCell ops).record.isSome := by
    decide +kernel
  obtain ⟨r, hr⟩ := Option.isSome_iff_exists.mp hrec
  obtain ⟨r', hreplay, ⟨-, hpruned⟩, -⟩ := h r ⟨2, r, r, hr, .inl rfl, rfl, rfl⟩
  have hcounts : ((run (Cell.next · ⟨false, true⟩ demoKey) unspentCell ops).record.bind
      (replayLog · entries)).map (fun r => (r.metadata.prunedUtxos, r.countStatus .pruned)) =
        some (2, 1) := by decide +kernel
  rw [hr, Option.bind_some, hreplay, Option.map_some, Option.some.injEq, Prod.mk.injEq] at hcounts
  omega

end TeraSlab.Recovery
