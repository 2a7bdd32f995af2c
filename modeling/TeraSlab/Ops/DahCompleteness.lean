import TeraSlab.Ops.DahSoundness

/-!
# Completeness of the delete-at-height index

A record with every output spent, in a block of the longest chain, must be found by the sweep. The
operations that evaluate the footer insert nothing when the footer has a height at least as large as
the new one, although unmining a block has taken the entry out of the index. Only
`mark_on_longest_chain` can meet a record in that state; in a run in which it never does, every such
record is in the index.
-/

namespace TeraSlab.Ops

open Foundations Index

/-! ### Events -/

namespace DahView

variable {v : DahView} {t : Traits} {bound newDah : Nat}

/-- A record that is ready for deletion has an entry in the index. -/
def Listed (v : DahView) : Prop := v.traits.ready → v.index ≠ none

structure Complete (v : DahView) (bound : Nat) : Prop where
  listed : v.Listed
  footer : v.traits.conflicting = false → v.deleteAtHeight ≠ 0 → v.traits.allSpent
  indexed : v.traits.conflicting → v.deleteAtHeight ≠ 0 → v.index ≠ none
  index_le : ∀ height, v.index = some height → height ≤ bound
  index_ne : v.index ≠ some 0
  preserveUntil : v.preserveUntil = 0
  reassigned : v.traits.reassigned = false

/-- The footer does not hide the record from an evaluation that finds it ready. -/
def Inserts (v : DahView) (t : Traits) (newDah : Nat) : Prop :=
  t.conflicting = false → t.ready → v.index = none → v.deleteAtHeight < newDah

theorem Complete.mono {bound' : Nat} (h : v.Complete bound) (hle : bound ≤ bound') :
    v.Complete bound' :=
  { h with index_le := fun height hindex => (h.index_le height hindex).trans hle }

/-- A moved entry is the old one or has the new height. -/
theorem updateHeightIndex_le {entry : Option Nat} {old new : Nat}
    (hentry : ∀ height, entry = some height → height ≤ bound) (hnew : old ≠ new → new ≤ bound) :
    ∀ height, updateHeightIndex entry old new = some height → height ≤ bound := by
  intro height h
  unfold updateHeightIndex at h
  grind

/-- An evaluation that moves a height moves it to the new one or to none. -/
theorem nextDah_le {existing : Nat} (hle : newDah ≤ bound)
    (hne : existing ≠ nextDah t.conflicting t.ready existing newDah) :
    nextDah t.conflicting t.ready existing newDah ≤ bound := by
  rcases nextDah_cases t.conflicting t.ready existing newDah with heq | heq | heq
  · exact absurd heq.symm hne
  · rw [heq]
    exact hle
  · rw [heq]
    exact Nat.zero_le _

theorem ready_allSpent (h : t.ready) : t.allSpent := by
  simp only [Traits.ready, Bool.and_eq_true] at h
  exact h.1.1.1

section

variable (h : v.Complete bound) (hnew : newDah ≠ 0) (hle : newDah ≤ bound)
    (hconf : t.conflicting = v.traits.conflicting) (hre : t.reassigned = false)
include h hnew hle hconf hre

theorem Complete.evaluate
    (hins : v.Inserts t newDah) : (v.step (.evaluate t newDah)).Complete bound := by
  -- A conflicting record that has been evaluated is in the index.
  have hconflicting : t.conflicting →
      (v.step (.evaluate t newDah)).index ≠ none := by
    intro hc
    have hindexed := h.indexed (hconf ▸ hc)
    simp only [step, moveTo, settle_of_not_preserved t _ _ h.preserveUntil, nextDah, if_pos hc]
    by_cases hdah : v.deleteAtHeight = 0
    · rw [if_pos hdah, updateHeightIndex_of_ne _ (hdah ▸ hnew.symm) hnew]
      simp
    · rw [if_neg hdah, updateHeightIndex_self]
      exact hindexed hdah
  refine ⟨fun hready => ?_, fun hc hdah => ?_, fun hc _ => hconflicting hc, ?_,
    updateHeightIndex_ne_zero h.index_ne _ _, h.preserveUntil, hre⟩
  · by_cases hc : t.conflicting
    · exact hconflicting hc
    replace hready : t.ready = true := hready
    have hins' := hins (Bool.eq_false_iff.mpr hc) hready
    simp only [step, moveTo, settle_of_not_preserved t _ _ h.preserveUntil, nextDah,
      if_neg hc, if_pos hready]
    by_cases hlt : v.deleteAtHeight < newDah
    · rw [if_pos hlt, updateHeightIndex_of_ne _ hlt.ne hnew]
      simp
    · rw [if_neg hlt, updateHeightIndex_self]
      exact fun hnone => hlt (hins' hnone)
  · replace hc : t.conflicting = false := hc
    simp only [step, moveTo, settle_of_not_preserved t _ _ h.preserveUntil, nextDah, hc] at hdah
    refine ready_allSpent ?_
    by_contra hready
    replace hready : ¬t.ready = true := hready
    simp [hready] at hdah
  · refine updateHeightIndex_le h.index_le fun hne => ?_
    rw [settle_of_not_preserved t _ _ h.preserveUntil] at hne ⊢
    exact nextDah_le hle hne

theorem Complete.mine
    (hspent : t.allSpent = v.traits.allSpent) : (v.step (.mine t newDah)).Complete bound := by
  -- The evaluation starts from the height in the index, which therefore cannot be missing.
  have hindex : t.sweepable → (v.step (.mine t newDah)).index ≠ none := by
    intro hs
    simp only [step, settle_of_not_preserved t _ _ h.preserveUntil]
    generalize hnext : nextDah t.conflicting t.ready (v.index.getD 0) newDah = next
    have hpos : next ≠ 0 := hnext ▸ nextDah_ne_zero hs _ hnew
    by_cases heq : v.index.getD 0 = next
    · rw [heq, updateHeightIndex_self]
      intro hnone
      rw [hnone] at heq
      exact hpos heq.symm
    · rw [updateHeightIndex_of_ne _ heq hpos]
      simp
  refine ⟨fun hready => hindex ?_, fun hc hdah => ?_, fun hc _ => hindex ?_, ?_,
    updateHeightIndex_ne_zero h.index_ne _ _, h.preserveUntil, hre⟩
  · replace hready : t.ready = true := hready
    simp [Traits.sweepable, hready]
  · exact hspent.trans (h.footer (hconf ▸ hc) hdah)
  · replace hc : t.conflicting = true := hc
    simp [Traits.sweepable, hc]
  · refine updateHeightIndex_le h.index_le fun hne => ?_
    rw [settle_of_not_preserved t _ _ h.preserveUntil] at hne ⊢
    exact nextDah_le hle hne

end

/-- An evaluation that lists a ready record inserts it or finds its entry. -/
theorem inserts_of_listed (h : (v.step (.evaluate t newDah)).Listed) (hp : v.preserveUntil = 0) :
    v.Inserts t newDah := by
  intro hc hready hnone
  by_contra hlt
  refine h hready ?_
  simp only [step, moveTo, settle_of_not_preserved t _ _ hp, nextDah, hc, hready, if_neg hlt,
    Bool.false_eq_true, if_false, if_true, updateHeightIndex_self, hnone]

end DahView

/-! ### Calls -/

/-- The operations along which the index is complete: all of them succeed, with a retention. -/
def EngineOp.spendsOrMines : EngineOp → Bool
  | .create .. | .spend .. | .spendMulti .. | .unspend _ | .setMined _
  | .markOnLongestChain _ => true
  | _ => false

def EngineOp.newDah : EngineOp → Nat
  | .spend _ req => req.currentBlockHeight + req.blockHeightRetention
  | .spendMulti _ req => req.currentBlockHeight + req.blockHeightRetention
  | .unspend req => req.currentBlockHeight + req.blockHeightRetention
  | .setMined req => req.currentBlockHeight + req.blockHeightRetention
  | .markOnLongestChain req => req.currentBlockHeight + req.blockHeightRetention
  | _ => 0

/-- The largest height that the calls on the transaction may have set. -/
def maxNewDah (key : TxKey) (calls : List Call) : Nat :=
  calls.foldl (fun bound call => if call.key = key then max bound call.op.newDah else bound) 0

/-- The calls on the transaction create its record, spend, unspend, or change its mined state. -/
def SpendsOrMines (cfg : TxKey → StoreConfig) (key : TxKey) (s : Engine) (call : Call) : Prop :=
  call.key = key → call.op.spendsOrMines ∧ call.op.retains ∧ s.Succeeds cfg call

instance (cfg : TxKey → StoreConfig) (key : TxKey) (s : Engine) (call : Call) :
    Decidable (SpendsOrMines cfg key s call) := inferInstanceAs (Decidable (_ → _ ∧ _ ∧ _))

/-- A record with every output spent, in a block of the longest chain, is in the index with a height
up to the bound. -/
def IndexComplete (s : Engine) (key : TxKey) (bound : Nat) : Prop :=
  ∀ r entries unminedSince, s.records key = some r →
    minedBlockEntriesAt s.mined key r.minedSlot = .ok (entries, unminedSince) →
    r.allSpent → entries ≠ [] → unminedSince = 0 →
    ∃ height, s.dahIndex key = some height ∧ height ≤ bound

/-- The call does not put a record on the longest chain that is then ready, out of the index, and
has a height in its footer that is not below the new one. -/
def clearMark (s : Engine) (call : Call) : Bool :=
  match call.op with
  | .markOnLongestChain req =>
    (s.records call.key).all fun r => (s.traits call.key r).all fun t =>
      t.conflicting || (s.dahIndex call.key).isSome ||
        r.metadata.deleteAtHeight < req.currentBlockHeight + req.blockHeightRetention ||
        !({ t with
          unminedSince := if req.onLongestChain then 0 else req.currentBlockHeight } : Traits).ready
  | _ => true

variable {cfg : TxKey → StoreConfig} {s : Engine} {call : Call} {key : TxKey} {r : Record}
  {slot bound : Nat} {st : MinedTransitionState} {e : DahEvent}

theorem newDah_ne_zero {op : EngineOp} (hop : op.spendsOrMines) (hret : op.retains)
    (hcreate : ∀ room req, op ≠ .create room req) : op.newDah ≠ 0 := by
  cases op <;> simp_all [EngineOp.spendsOrMines, EngineOp.retains, EngineOp.newDah]

/-- A mark on the longest chain inserts a ready record exactly when it is clear. -/
theorem clearMark_iff {req : MarkOnLongestChainRequest}
    (hcoh : Coherent key (s.cell key) r slot st) (hrec : s.records key = some r) :
    clearMark s ⟨key, .markOnLongestChain req⟩ ↔
      (viewOf (s.cell key) r st).Inserts
        { traitsOf r st with
          unminedSince := if req.onLongestChain then 0 else req.currentBlockHeight }
        (req.currentBlockHeight + req.blockHeightRetention) := by
  have hindex : (viewOf (s.cell key) r st).index = s.dahIndex key := rfl
  have hdah : (viewOf (s.cell key) r st).deleteAtHeight = r.metadata.deleteAtHeight := rfl
  simp only [clearMark, hrec, hcoh.traits, Option.all_some, DahView.Inserts, hindex, hdah]
  cases s.dahIndex key with
  | none =>
    grind
  | some height => simp

theorem complete_event (hkey : call.key = key) (hop : call.op.spendsOrMines)
    (hret : call.op.retains) (hrec : s.records key = some r)
    (hcoh : Coherent key (s.cell key) r slot st)
    (htrig : Triggers (s.cell key) r (traitsOf r st) call.op e) (hclear : clearMark s call)
    (h : (viewOf (s.cell key) r st).Complete bound) :
    ((viewOf (s.cell key) r st).step e).Complete (max bound call.op.newDah) := by
  obtain ⟨key', op⟩ := call
  obtain rfl : key' = key := hkey
  have h' := h.mono (Nat.le_max_left bound op.newDah)
  have hle := Nat.le_max_right bound op.newDah
  have hnew := newDah_ne_zero hop hret
  cases htrig with
  | idle => exact h'
  | spend allSpent hspent | spendMulti allSpent hspent =>
    refine h'.evaluate (hnew nofun) hle rfl h.reassigned fun hconf _ _ => ?_
    -- The footer of a record that is not all spent has no height.
    have hdah : r.metadata.deleteAtHeight = 0 := by
      by_contra hne
      have := h.footer hconf hne
      exact absurd (hspent.symm.trans this) (by decide)
    exact lt_of_eq_of_lt hdah (Nat.pos_of_ne_zero (hnew nofun))
  | unspend =>
    refine h'.evaluate (hnew nofun) hle rfl h.reassigned fun _ hready _ => ?_
    exact absurd (DahView.ready_allSpent hready) (by simp)
  | keep =>
    refine h'.evaluate (hnew nofun) hle rfl h.reassigned fun _ hready hnone => ?_
    exact absurd hnone (h.listed hready)
  | setMined => exact h'.mine (hnew nofun) hle rfl h.reassigned rfl
  | mark =>
    exact h'.evaluate (hnew nofun) hle rfl h.reassigned ((clearMark_iff hcoh hrec).mp hclear)
  | setConflicting | lock | preserve | expire | prune | reassign => cases hop

/-- The invariant along a run: the view of the record is complete up to the heights used. -/
theorem complete_step (hlink : Linked s) (h : Viewed s key (·.Complete bound))
    (hscope : SpendsOrMines cfg key s call) (hclear : call.key = key → clearMark s call) :
    Viewed (s.step cfg call) key
      (·.Complete (if call.key = key then max bound call.op.newDah else bound)) := by
  refine h.step hlink (fun hkey => (hscope hkey).2) (fun _ _ _ _ => ?_) (fun hne v hv => ?_) ?_
  · exact ⟨fun hready => absurd (DahView.ready_allSpent hready) (by simp [freshView]),
      fun _ hne => absurd rfl hne, fun _ hne => absurd rfl hne, nofun, nofun, rfl, rfl⟩
  · rwa [if_neg hne]
  · intro r slot st e hkey hrec hcoh htrig hv
    rw [if_pos hkey]
    obtain ⟨hop, hret, -⟩ := hscope hkey
    exact complete_event hkey hop hret hrec hcoh htrig (hclear hkey) hv

theorem Viewed.indexComplete (h : Viewed s key (·.Complete bound)) : IndexComplete s key bound := by
  intro r entries unminedSince hrec hread hspent hentries hmined
  simp only [Viewed, hrec] at h
  obtain ⟨slot, st, hcoh, -, hv⟩ := h
  obtain ⟨rfl, rfl⟩ : st.blockEntries = entries ∧ st.unminedSince = unminedSince := by
    simpa using (minedBlockEntriesAt_backed hcoh.backed).symm.trans hread
  have hready : (traitsOf r st).ready := by
    have hre : r.metadata.flags.reassigned = false := hv.reassigned
    simp [Traits.ready, traitsOf, hspent, hentries, hmined, hre]
  obtain ⟨height, hheight⟩ := Option.ne_none_iff_exists'.mp (hv.listed hready)
  exact ⟨height, hheight, hv.index_le height hheight⟩

theorem maxNewDah_concat (key : TxKey) (calls : List Call) (call : Call) :
    maxNewDah key (calls ++ [call]) = if call.key = key
      then max (maxNewDah key calls) call.op.newDah else maxNewDah key calls := by
  simp [maxNewDah]

theorem complete_run {calls : List Call}
    (hscope : Guarded (Engine.step cfg) (SpendsOrMines cfg key) .empty calls)
    (hclear : Guarded (Engine.step cfg) (fun s call => call.key = key → clearMark s call) .empty
      calls) : Viewed (reached cfg calls) key (·.Complete (maxNewDah key calls)) := by
  induction calls using List.reverseRecOn with
  | nil => exact viewed_empty key _
  | append_singleton calls call ih =>
    rw [guarded_append] at hscope hclear
    rw [maxNewDah_concat, reached, run_append]
    exact complete_step (linked_run cfg calls) (ih hscope.1 hclear.1) hscope.2.1 hclear.2.1

theorem clearMark_of_indexComplete {bound' : Nat} (hlink : Linked s)
    (h : Viewed s key (·.Complete bound)) (hscope : SpendsOrMines cfg key s call)
    (hcomplete : IndexComplete (s.step cfg call) key bound') (hkey : call.key = key) :
    clearMark s call := by
  obtain ⟨key', op⟩ := call
  obtain rfl : key' = key := hkey
  by_cases hmark : ∃ req, op = .markOnLongestChain req
  swap
  · cases op with
    | markOnLongestChain req => exact absurd ⟨req, rfl⟩ hmark
    | _ => rfl
  obtain ⟨req, rfl⟩ := hmark
  cases hrec : s.records key' with
  | none => simp [clearMark, hrec]
  | some r =>
    have hviewed : Viewed (s.step cfg ⟨key', .markOnLongestChain req⟩) key' fun v =>
        v.traits.reassigned = false ∧
          (v.Listed → clearMark s ⟨key', .markOnLongestChain req⟩) := by
      refine h.step hlink (fun hkey => (hscope hkey).2) (fun hnone => ?_)
        (fun hne => absurd rfl hne) ?_
      · simp [hrec] at hnone
      intro r slot st e _ hrec hcoh htrig hv
      cases htrig with
      | idle _ hop => exact absurd rfl (hop req)
      | mark =>
        refine ⟨hv.reassigned, fun hlisted => (clearMark_iff hcoh hrec).mpr ?_⟩
        exact DahView.inserts_of_listed hlisted hv.preserveUntil
    obtain ⟨r', hrec'⟩ := hlink.records_step_some cfg ⟨key', .markOnLongestChain req⟩ hrec
    simp only [Viewed, hrec'] at hviewed
    obtain ⟨slot, st, hcoh, -, hre, himp⟩ := hviewed
    refine himp fun hready hnone => ?_
    simp only [Traits.ready, Bool.and_eq_true, decide_eq_true_eq] at hready
    obtain ⟨⟨⟨hspent, -⟩, hblocks⟩, hmined⟩ := hready
    obtain ⟨height, hheight, -⟩ := hcomplete r' _ _ hrec' (minedBlockEntriesAt_backed hcoh.backed)
      hspent (by simpa [viewOf, traitsOf] using hblocks) hmined
    exact absurd (hheight.symm.trans hnone) (by simp)

/-- Along calls on the transaction that create, spend, unspend or change the mined state, with
success and a retention, the index is complete after every call exactly when every
`mark_on_longest_chain` is clear. -/
theorem indexComplete_iff_clearMark (cfg : TxKey → StoreConfig) (key : TxKey) (calls : List Call)
    (hscope : Guarded (Engine.step cfg) (SpendsOrMines cfg key) .empty calls) :
    (∀ before after, calls = before ++ after →
      IndexComplete (reached cfg before) key (maxNewDah key before)) ↔
      Guarded (Engine.step cfg) (fun s call => call.key = key → clearMark s call) .empty calls := by
  constructor
  · intro hcomplete
    induction calls using List.reverseRecOn with
    | nil => trivial
    | append_singleton calls call ih =>
      rw [guarded_append] at hscope ⊢
      have hclear := ih hscope.1 fun before after hcalls =>
        hcomplete before (after ++ [call]) (by rw [hcalls, List.append_assoc])
      have hlast := hcomplete (calls ++ [call]) [] (List.append_nil _).symm
      rw [reached, run_append] at hlast
      exact ⟨hclear, clearMark_of_indexComplete (linked_run cfg calls)
        (complete_run hscope.1 hclear) hscope.2.1 hlast, trivial⟩
  · intro hclear before after hcalls
    rw [hcalls, guarded_append] at hscope hclear
    exact (complete_run hscope.1 hclear.1).indexComplete

def demoMark (onLongestChain : Bool) (currentBlockHeight : Nat) : EngineOp :=
  .markOnLongestChain { onLongestChain, currentBlockHeight, blockHeightRetention := 100 }

/-- A reorganisation that takes the record off the longest chain and puts it back at a larger
height. -/
theorem indexComplete_iff_clearMark_demo :
    IndexComplete (reached demoConfig (demoCalls [demoCreate, demoMined 11, demoSpend 1 20,
      demoMark false 21, demoMark true 22])) demoKey 122 :=
  (indexComplete_iff_clearMark demoConfig demoKey
    (demoCalls [demoCreate, demoMined 11, demoSpend 1 20, demoMark false 21, demoMark true 22])
    (by decide)).mpr (by decide) _ [] (List.append_nil _).symm

/-- Record another block, off the longest chain, and remove the first one. -/
def demoReorg : List EngineOp :=
  [.setMined
      { blockId := 3, currentBlockHeight := 20, blockHeightRetention := 100, unsetMined := true },
    .setMined { blockId := 4, currentBlockHeight := 19, blockHeightRetention := 100 }]

/-- After its block is unmined and another one recorded off the longest chain, a spent record put
back on the chain at a lower height is not in the index. -/
theorem marked_record_missing_from_index :
    let calls := demoCalls ([demoCreate, demoMined 11, demoSpend 1 20] ++ demoReorg ++
      [demoMark true 19])
    Guarded (Engine.step demoConfig) (SpendsOrMines demoConfig demoKey) .empty calls ∧
      ¬∀ before after, calls = before ++ after →
        IndexComplete (reached demoConfig before) demoKey (maxNewDah demoKey before) := by
  refine ⟨by decide, fun h => ?_⟩
  have hlast := h _ [] (List.append_nil _).symm
  generalize hs : reached demoConfig _ = s at hlast
  have hnone : s.dahIndex demoKey = none := by
    rw [← hs]
    decide
  have hready : ((s.records demoKey).bind (s.traits demoKey)).map
      (fun t => (t.allSpent, t.hasBlocks, t.unminedSince)) = some (true, true, 0) := by
    rw [← hs]
    decide
  cases hrec : s.records demoKey with
  | none => simp [hrec] at hready
  | some r =>
    cases hread : minedBlockEntriesAt s.mined demoKey r.minedSlot with
    | error e => simp [hrec, Engine.traits, hread] at hready
    | ok state =>
      simp only [hrec, Option.bind_some, Engine.traits, hread, Option.map_some, Option.some.injEq,
        Prod.mk.injEq] at hready
      obtain ⟨hspent, hblocks, hmined⟩ := hready
      obtain ⟨height, hheight, -⟩ := hlast r state.1 state.2 hrec hread hspent
        (by simpa using hblocks) hmined
      simp [hnone] at hheight

end TeraSlab.Ops
