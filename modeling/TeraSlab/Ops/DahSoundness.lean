import TeraSlab.Ops.DahSimulation

/-!
# Soundness of the delete-at-height index

The sweep can drain an entry of the delete-at-height index when its record is not preserved and may
be deleted. Mining a block plants an entry without writing the height to the footer, and the
operations that evict a record move the index from the height of the footer: an entry is left behind
exactly when the footer has no height. In a run without such an eviction the index is sound.
-/

namespace TeraSlab.Ops

open Foundations Index

/-! ### Events -/

namespace DahView

variable {v : DahView} {e : DahEvent}

/-- An entry in the delete-at-height index is one the sweep can drain. -/
def Drainable (v : DahView) : Prop := v.index ≠ none → v.preserveUntil = 0 ∧ v.traits.sweepable

structure Sound (v : DahView) : Prop where
  drainable : v.Drainable
  preserved : v.preserveUntil ≠ 0 → v.deleteAtHeight = 0
  index_ne : v.index ≠ some 0
  preserveIndex : v.preserveIndex = if v.preserveUntil = 0 then none else some v.preserveUntil

/-- What the operations promise about their events. -/
def Admits (v : DahView) : DahEvent → Prop
  | .reassign => v.traits.sweepable = false
  | .expire _ => v.preserveUntil ≠ 0
  | _ => True

/-- The event leaves the record where the sweep may not delete it. -/
def Evicts (v : DahView) : DahEvent → Prop
  | .evaluate t _ => t.sweepable = false
  | .prune => v.traits.conflicting = false
  | .preserve height => height ≠ 0
  | _ => False

/-- A record that is evicted from the index has its height in the footer. -/
def Clear (v : DahView) (e : DahEvent) : Prop := v.index ≠ none → v.Evicts e → v.deleteAtHeight ≠ 0

theorem Sound.index_eq_none (h : v.Sound) (hs : v.traits.sweepable = false) : v.index = none := by
  by_contra hne
  simpa [hs] using (h.drainable hne).2

theorem Sound.index_of_preserved (h : v.Sound) (hp : v.preserveUntil ≠ 0) : v.index = none := by
  by_contra hne
  exact hp (h.drainable hne).1

variable {t : Traits} {height newDah : Nat}

theorem Sound.moveTo (h : v.Sound) (hkept : v.preserveUntil ≠ 0 → height = v.deleteAtHeight)
    (hzero : v.preserveUntil = 0 → t.sweepable = false → height = 0)
    (hclear : v.index ≠ none → t.sweepable = false → v.deleteAtHeight ≠ 0) :
    (v.moveTo t height).Sound where
  drainable := by
    intro hindex
    by_cases hp : v.preserveUntil = 0
    · refine ⟨hp, ?_⟩
      by_contra hs
      replace hs : t.sweepable = false := Bool.eq_false_iff.mpr hs
      obtain rfl := hzero hp hs
      by_cases hdah : v.deleteAtHeight = 0
      · rw [DahView.moveTo, hdah, updateHeightIndex_self] at hindex
        exact hclear hindex hs hdah
      · exact hindex (updateHeightIndex_zero v.index hdah)
    · rw [DahView.moveTo, hkept hp, updateHeightIndex_self] at hindex
      exact absurd (h.index_of_preserved hp) hindex
  preserved := fun hp => (hkept hp).trans (h.preserved hp)
  index_ne := updateHeightIndex_ne_zero h.index_ne _ _
  preserveIndex := h.preserveIndex

theorem Sound.clear_of_moveTo (h : v.Sound)
    (hzero : v.preserveUntil = 0 → t.sweepable = false → height = 0)
    (hd : (v.moveTo t height).Drainable) :
    v.index ≠ none → t.sweepable = false → v.deleteAtHeight ≠ 0 := by
  intro hindex hs hdah
  have hheight := hzero (h.drainable hindex).1 hs
  rw [hheight] at hd
  have hmoved : (v.moveTo t 0).index = v.index := by
    rw [DahView.moveTo, hdah, updateHeightIndex_self]
  have := (hd (hmoved ▸ hindex)).2
  simp [DahView.moveTo, hs] at this

theorem settle_eq_zero (hp : v.preserveUntil = 0) (hs : t.sweepable = false)
    (existing newDah : Nat) : v.settle t existing newDah = 0 := by
  rw [settle_of_not_preserved t _ _ hp, nextDah_of_not hs]

theorem Sound.mine (h : v.Sound) : (v.step (.mine t newDah)).Sound where
  drainable := by
    intro hindex
    by_cases hp : v.preserveUntil = 0
    · refine ⟨hp, ?_⟩
      by_contra hs
      replace hs : t.sweepable = false := Bool.eq_false_iff.mpr hs
      simp only [step, settle_eq_zero hp hs] at hindex
      -- The index is moved from the height it holds, so that it cannot keep its entry.
      cases hi : v.index with
      | none => simp [hi, updateHeightIndex_self] at hindex
      | some height =>
        have hne : height ≠ 0 := fun h0 => h.index_ne (h0 ▸ hi)
        exact hindex (by simpa [hi] using updateHeightIndex_zero _ hne)
    · simp only [step, settle_of_preserved t _ _ hp, updateHeightIndex_self] at hindex
      exact absurd (h.index_of_preserved hp) hindex
  preserved := h.preserved
  index_ne := updateHeightIndex_ne_zero h.index_ne _ _
  preserveIndex := h.preserveIndex

theorem Sound.lock (h : v.Sound) : (v.step .lock).Sound where
  drainable := by
    intro hindex
    simp only [step] at hindex
    cases hi : v.index with
    | none => simp [hi, updateHeightIndex_self] at hindex
    | some height =>
      have hne : height ≠ 0 := fun h0 => h.index_ne (h0 ▸ hi)
      exact absurd (by simpa [hi] using updateHeightIndex_zero _ hne) hindex
  preserved := fun _ => rfl
  index_ne := updateHeightIndex_ne_zero h.index_ne _ _
  preserveIndex := h.preserveIndex

theorem updateHeightIndex_tracks {entry : Option Nat} {old : Nat} (new : Nat)
    (h : entry = if old = 0 then none else some old) :
    updateHeightIndex entry old new = if new = 0 then none else some new := by
  unfold updateHeightIndex
  grind

theorem Sound.preserve (h : v.Sound) (hc : v.Clear (.preserve height)) :
    (v.step (.preserve height)).Sound where
  drainable := by
    intro hindex
    by_cases hdah : v.deleteAtHeight = 0
    · simp only [step, DahView.moveTo, hdah, updateHeightIndex_self] at hindex
      have hheight : height = 0 := by
        by_contra hne
        exact hc hindex hne hdah
      exact ⟨hheight, (h.drainable hindex).2⟩
    · exact absurd (updateHeightIndex_zero v.index hdah) hindex
  preserved := fun _ => rfl
  index_ne := updateHeightIndex_ne_zero h.index_ne _ _
  preserveIndex := updateHeightIndex_tracks height h.preserveIndex

theorem Sound.expire (h : v.Sound) (hp : v.preserveUntil ≠ 0) :
    (v.step (.expire newDah)).Sound where
  drainable := by
    intro hindex
    refine ⟨rfl, ?_⟩
    by_contra hs
    replace hs : v.traits.sweepable = false := Bool.eq_false_iff.mpr hs
    simp only [step, DahView.moveTo, hs, h.preserved hp] at hindex
    exact hindex (by simpa [updateHeightIndex_self] using h.index_of_preserved hp)
  preserved := fun h0 => absurd rfl h0
  index_ne := updateHeightIndex_ne_zero h.index_ne _ _
  preserveIndex := updateHeightIndex_tracks 0 h.preserveIndex

theorem sweepable_pruned (t : Traits) :
    ({ t with allSpent := false } : Traits).sweepable = t.conflicting := by
  simp [Traits.sweepable, Traits.ready]

theorem Sound.step (h : v.Sound) (ha : v.Admits e) (hc : v.Clear e) : (v.step e).Sound := by
  cases e with
  | idle => exact h
  | evaluate t newDah =>
    exact h.moveTo (fun hp => settle_of_preserved t _ _ hp)
      (fun hp hs => settle_eq_zero hp hs _ _) hc
  | mine t newDah => exact h.mine
  | prune =>
    refine h.moveTo (fun hp => if_pos (.inl hp)) (fun hp hs => if_neg ?_) ?_
    · rw [sweepable_pruned] at hs
      simp [hp, hs]
    · rw [sweepable_pruned]
      exact hc
  | reassign =>
    have hnone := h.index_eq_none ha
    exact ⟨fun hindex => absurd hnone hindex, h.preserved, h.index_ne, h.preserveIndex⟩
  | lock => exact h.lock
  | preserve height => exact h.preserve hc
  | expire newDah => exact h.expire ha

/-- An event that is not clear leaves an entry behind that the sweep cannot drain. -/
theorem Sound.clear_of_drainable (h : v.Sound) (hd : (v.step e).Drainable) : v.Clear e := by
  cases e with
  | evaluate t newDah => exact h.clear_of_moveTo (fun hp hs => settle_eq_zero hp hs _ _) hd
  | prune =>
    have hclear := h.clear_of_moveTo (fun hp hs => if_neg ?_) hd
    · rwa [sweepable_pruned] at hclear
    · rw [sweepable_pruned] at hs
      simp [hp, hs]
  | preserve height =>
    intro hindex hne hdah
    have hmoved : (v.step (.preserve height)).index = v.index := by
      simp only [DahView.step, DahView.moveTo, hdah, updateHeightIndex_self]
    exact hne (hd (hmoved ▸ hindex)).1
  | idle | mine | reassign | lock | expire => exact fun _ hev => hev.elim

end DahView

/-! ### Calls -/

/-- The calls on the transaction succeed, with a retention, and none is a `prune_slot`. -/
def InScope (cfg : TxKey → StoreConfig) (key : TxKey) (s : Engine) (call : Call) : Prop :=
  call.key = key → call.op.retains ∧ s.Succeeds cfg call

instance (cfg : TxKey → StoreConfig) (key : TxKey) (s : Engine) (call : Call) :
    Decidable (InScope cfg key s call) := inferInstanceAs (Decidable (_ → _ ∧ _))

/-- The sweep can drain the transaction's entry in the delete-at-height index. -/
def IndexSound (s : Engine) (key : TxKey) : Prop :=
  ∀ height, s.dahIndex key = some height → ∃ r entries unminedSince,
    s.records key = some r ∧ r.metadata.preserveUntil = 0 ∧ s.preserveIndex key = none ∧
      minedBlockEntriesAt s.mined key r.minedSlot = .ok (entries, unminedSince) ∧
      sweepEligibleWithMined r (!entries.isEmpty) unminedSince

def Engine.traits (s : Engine) (key : TxKey) (r : Record) : Option Traits :=
  match minedBlockEntriesAt s.mined key r.minedSlot with
  | .error _ => none
  | .ok (entries, unminedSince) =>
    some ⟨r.metadata.flags.conflicting, r.metadata.flags.reassigned, r.allSpent, !entries.isEmpty,
      unminedSince⟩

/-- The call does not evict a record that has an entry in the index and no height in its footer. -/
def clearEviction (s : Engine) (call : Call) : Bool :=
  (s.records call.key).all fun r => (s.traits call.key r).all fun t =>
    (s.dahIndex call.key).isNone || r.metadata.deleteAtHeight ≠ 0 ||
      !evicts (s.cell call.key) r t call.op

variable {cfg : TxKey → StoreConfig} {s : Engine} {call : Call} {key : TxKey} {c : Cell}
  {r : Record} {slot : Nat} {st : MinedTransitionState} {t : Traits} {op : EngineOp} {e : DahEvent}
  {v : DahView}

theorem Coherent.traits (h : Coherent key (s.cell key) r slot st) :
    s.traits key r = some (traitsOf r st) := by
  have hread := minedBlockEntriesAt_backed h.backed
  rw [Engine.traits]
  change minedBlockEntriesAt s.mined key r.minedSlot = _ at hread
  rw [hread]
  rfl

/-- The event of an operation evicts a record in the reach of the sweep when the operation does. -/
theorem Triggers.evicts_iff (h : Triggers c r t op e) (hv : v.traits = t) (hs : t.sweepable) :
    v.Evicts e ↔ evicts c r t op = true := by
  subst hv
  simp only [Traits.sweepable, Traits.ready] at hs
  cases h with
  | idle h _ => simp [DahView.Evicts, h]
  | spend | spendMulti | mark | setConflicting =>
    simp only [DahView.Evicts, evicts, Traits.sweepable, Traits.ready]
    grind
  | unspend h | keep h =>
    simp only [DahView.Evicts, evicts, h, Traits.sweepable, Traits.ready]
    grind
  | prune h => simp [DahView.Evicts, evicts, h]
  | setMined | lock | preserve | expire | reassign => simp [DahView.Evicts, evicts]

theorem Triggers.admits (h : Triggers c r t op e) (hv : v.traits = t)
    (hp : v.preserveUntil = r.metadata.preserveUntil) : v.Admits e := by
  subst hv
  cases h with
  | expire h => exact fun h0 => h (hp.symm.trans h0)
  | reassign hconf hspent => simp [DahView.Admits, Traits.sweepable, Traits.ready, hconf, hspent]
  | _ => trivial

/-- The condition on the call is the condition on its event. -/
theorem clear_iff (h : Coherent key (s.cell key) r slot st) (hkey : call.key = key)
    (hrec : s.records key = some r)
    (htrig : Triggers (s.cell key) r (traitsOf r st) call.op e)
    (hsound : (viewOf (s.cell key) r st).Sound) :
    (viewOf (s.cell key) r st).Clear e ↔ clearEviction s call := by
  subst hkey
  have hclear : clearEviction s call ↔ s.dahIndex call.key = none ∨
      r.metadata.deleteAtHeight ≠ 0 ∨
        ¬evicts (s.cell call.key) r (traitsOf r st) call.op = true := by
    simp [clearEviction, hrec, h.traits, or_assoc]
  have hev : s.dahIndex call.key ≠ none → ((viewOf (s.cell call.key) r st).Evicts e ↔
      evicts (s.cell call.key) r (traitsOf r st) call.op = true) :=
    fun hindex => htrig.evicts_iff rfl (hsound.drainable hindex).2
  have hview : (viewOf (s.cell call.key) r st).Clear e ↔ (s.dahIndex call.key ≠ none →
    (viewOf (s.cell call.key) r st).Evicts e → r.metadata.deleteAtHeight ≠ 0) := Iff.rfl
  grind

theorem Viewed.indexSound (h : Viewed s key DahView.Sound) : IndexSound s key := by
  intro height hindex
  unfold Viewed at h
  split at h
  · simp [h.1] at hindex
  rename_i r hrec
  obtain ⟨slot, st, hcoh, -, hsound⟩ := h
  have hne : (viewOf (s.cell key) r st).index ≠ none := by
    intro hnone
    exact absurd (hindex.symm.trans hnone) (by simp)
  obtain ⟨hpres, hsweep⟩ := hsound.drainable hne
  refine ⟨r, st.blockEntries, st.unminedSince, hrec, hpres, ?_,
    minedBlockEntriesAt_backed hcoh.backed, ?_⟩
  · exact hsound.preserveIndex.trans (if_pos hpres)
  · exact (sweepable_eq r st).trans hsweep

theorem IndexSound.drainable (h : IndexSound s key) (hrec : s.records key = some r)
    (hcoh : Coherent key (s.cell key) r slot st) : (viewOf (s.cell key) r st).Drainable := by
  intro hindex
  obtain ⟨height, hheight⟩ := Option.ne_none_iff_exists'.mp hindex
  obtain ⟨r', entries, unminedSince, hrec', hpres, -, hread, hsweep⟩ := h height hheight
  cases hrec.symm.trans hrec'
  obtain ⟨rfl, rfl⟩ : st.blockEntries = entries ∧ st.unminedSince = unminedSince := by
    simpa using (minedBlockEntriesAt_backed hcoh.backed).symm.trans hread
  exact ⟨hpres, (sweepable_eq r st).symm.trans hsweep⟩

section

variable (hlink : Linked s) (h : Viewed s key DahView.Sound) (hscope : InScope cfg key s call)
include hlink h hscope

theorem sound_step (hclear : call.key = key → clearEviction s call) :
    Viewed (s.step cfg call) key DahView.Sound := by
  refine h.step hlink hscope (fun _ _ _ _ => ?_) (fun _ _ hv => hv) ?_
  · exact ⟨fun hne => absurd rfl hne, fun hne => absurd rfl hne, nofun, rfl⟩
  intro r slot st e hkey hrec hcoh htrig hsound
  exact hsound.step (htrig.admits rfl rfl) ((clear_iff hcoh hkey hrec htrig hsound).mpr
    (hclear hkey))

/-- A step that leaves the index sound does not evict a record without a height in its footer. -/
theorem clearEviction_of_indexSound (hsound' : IndexSound (s.step cfg call) key)
    (hkey : call.key = key) : clearEviction s call := by
  subst hkey
  cases hrec : s.records call.key with
  | none => simp [clearEviction, hrec]
  | some r =>
    have hviewed : Viewed (s.step cfg call) call.key fun v =>
        v.Drainable → clearEviction s call := by
      refine h.step hlink hscope (fun hnone => ?_) (fun hne => absurd rfl hne) ?_
      · simp [hrec] at hnone
      · intro r slot st e _ hrec hcoh htrig hsound hdrain
        exact (clear_iff hcoh rfl hrec htrig hsound).mp (hsound.clear_of_drainable hdrain)
    obtain ⟨r', hrec'⟩ := hlink.records_step_some cfg call hrec
    simp only [Viewed, hrec'] at hviewed
    obtain ⟨slot, st, hcoh, -, himp⟩ := hviewed
    exact himp (hsound'.drainable hrec' hcoh)

end

/-- Along calls on the transaction that succeed with a retention, the index is sound after every
step exactly when no call evicts a record that has an entry in the index and no height in its
footer. -/
theorem indexSound_iff_clearEviction (cfg : TxKey → StoreConfig) (key : TxKey) (calls : List Call)
    (hscope : Guarded (Engine.step cfg) (InScope cfg key) .empty calls) :
    Guarded (Engine.step cfg) (fun s call => IndexSound (s.step cfg call) key) .empty calls ↔
      Guarded (Engine.step cfg) (fun s call => call.key = key → clearEviction s call) .empty
        calls := by
  have hstep : ∀ s call, Linked s ∧ Viewed s key DahView.Sound →
      InScope cfg key s call ∧ (call.key = key → clearEviction s call) →
      Linked (s.step cfg call) ∧ Viewed (s.step cfg call) key DahView.Sound :=
    fun s call ⟨hlink, h⟩ ⟨hin, hclear⟩ => ⟨hlink.step cfg call, sound_step hlink h hin hclear⟩
  have hcond : ∀ s call, Linked s ∧ Viewed s key DahView.Sound →
      (InScope cfg key s call ∧ IndexSound (s.step cfg call) key ↔
        InScope cfg key s call ∧ (call.key = key → clearEviction s call)) := by
    rintro s call ⟨hlink, h⟩
    refine and_congr_right fun hin => ⟨clearEviction_of_indexSound hlink h hin, fun hclear => ?_⟩
    exact (sound_step hlink h hin hclear).indexSound
  have hiff : Guarded (Engine.step cfg)
      (fun s call => InScope cfg key s call ∧ IndexSound (s.step cfg call) key) .empty calls ↔
      Guarded (Engine.step cfg)
        (fun s call => InScope cfg key s call ∧ (call.key = key → clearEviction s call)) .empty
        calls :=
    guarded_iff_of_invariant hstep hcond ⟨linked_empty, viewed_empty key _⟩
  rw [guarded_and, guarded_and, and_congr_right_iff] at hiff
  exact hiff hscope

/-- A record that is mined before it is spent has its height in the footer as well, so that an
unspend and a preservation take it out of the index. -/
theorem indexSound_iff_clearEviction_demo :
    Guarded (Engine.step demoConfig)
      (fun s call => IndexSound (s.step demoConfig call) demoKey) .empty
      (demoCalls [demoCreate, demoMined 11, demoSpend 1 20, demoUnspend 1 21, demoSpend 2 22,
        .preserveUntil 500, .expirePreservationSetDah 600 100]) :=
  (indexSound_iff_clearEviction demoConfig demoKey _ (by decide)).mpr (by decide)

/-- A record that is spent before it is mined has its height in the index only, where a
preservation leaves it. -/
theorem preserved_record_left_in_index :
    let calls := demoCalls [demoCreate, demoSpend 1 10, demoMined 11, .preserveUntil 500]
    Guarded (Engine.step demoConfig) (InScope demoConfig demoKey) .empty calls ∧
      ¬Guarded (Engine.step demoConfig)
        (fun s call => IndexSound (s.step demoConfig call) demoKey) .empty calls := by
  refine ⟨by decide, fun h => ?_⟩
  obtain ⟨r, -, -, hrec, hpres, -⟩ := h.2.2.2.1 111 (by decide)
  have hpres' : (demoRun [demoCreate, demoSpend 1 10, demoMined 11,
      .preserveUntil 500]).record.map (·.metadata.preserveUntil) = some 500 := by decide
  have hrec' : (demoRun [demoCreate, demoSpend 1 10, demoMined 11, .preserveUntil 500]).record =
    some r := hrec
  simp [hrec', hpres] at hpres'

end TeraSlab.Ops
