import TeraSlab.Recovery.SlotRecovery

/-!
# Crash recovery of the lifecycle fields of a record

The flags that lock a record, mark it as conflicting or as reassigned, the height it is preserved
until, and its generation. The live operations move the generation with every change; of the redo
entries only the one for the longest chain has a field for it. A replica, which writes the entry
after the operation, puts the new generation there; the dispatcher writes it before and leaves 0.
-/

namespace TeraSlab.Recovery

open Foundations Ops Redo TeraSlab.Index

variable {cfg : StoreConfig} {key : TxKey} {c : Cell} {r : Record} {op : EngineOp}
  {ops : List EngineOp} {entry : RedoOp} {entries : List RedoOp}

/-! ## The fields on their own -/

structure Lifecycle where
  locked : Bool
  conflicting : Bool
  reassigned : Bool
  preserveUntil : Nat
  generation : Nat

/-- What an operation writes to the fields; the end of a preservation writes the height 0. -/
inductive LifecycleOp where
  | slot
  | reassign
  | lock (value : Bool)
  | conflict (value : Bool)
  | preserve (blockHeight : Nat)
  | mark (token : Nat)

/-- A generation gives way to one that lies ahead of it. -/
def adopt (generation token : Nat) : Nat :=
  if generationTargetAhead generation token then token else generation

theorem generationAtOrAhead_adopt (generation : Nat) {token : Nat} (h : token < 2 ^ 32) :
    generationAtOrAhead (adopt generation token) token := by
  unfold adopt
  split_ifs with hahead
  · simp only [generationAtOrAhead, generationTargetAhead, Bool.not_eq_true',
      Bool.and_eq_false_iff, decide_eq_false_iff_not]
    omega
  · simp [generationAtOrAhead, hahead]

namespace LifecycleOp

/-- The fields but for the generation, which moves by one. -/
def live (l : Lifecycle) (op : LifecycleOp) : Lifecycle :=
  let l := { l with generation := (l.generation + 1) % 2 ^ 32 }
  match op with
  | .slot | .mark _ => l
  | .reassign => { l with reassigned := true }
  | .lock value => { l with locked := value }
  | .conflict value => { l with conflicting := value }
  | .preserve blockHeight => { l with preserveUntil := blockHeight }

/-- Replay leaves the mark of a reassignment out, and the generation but for the one that the entry
for the longest chain names. -/
def replay (l : Lifecycle) : LifecycleOp → Lifecycle
  | .slot | .reassign => l
  | .lock value => { l with locked := value }
  | .conflict value => { l with conflicting := value }
  | .preserve blockHeight => { l with preserveUntil := blockHeight }
  | .mark token => { l with generation := adopt l.generation token }

def isReassign : LifecycleOp → Bool
  | .reassign => true
  | _ => false

def token : LifecycleOp → Option Nat
  | .mark token => some token
  | _ => none

end LifecycleOp

section Fields

variable {l l' : Lifecycle} {lops : List LifecycleOp}

structure SettingsAgree (l l' : Lifecycle) : Prop where
  locked : l.locked = l'.locked
  conflicting : l.conflicting = l'.conflicting
  preserveUntil : l.preserveUntil = l'.preserveUntil

theorem SettingsAgree.step (h : SettingsAgree l l') (lop : LifecycleOp) :
    SettingsAgree (lop.live l) (lop.replay l') := by
  obtain ⟨hlocked, hconflicting, hpreserve⟩ := h
  cases lop <;> constructor <;> first | assumption | rfl

theorem SettingsAgree.run (h : SettingsAgree l l') (lops : List LifecycleOp) :
    SettingsAgree (run LifecycleOp.live l lops) (run LifecycleOp.replay l' lops) :=
  List.foldl_rel h fun lop _ _ _ h => h.step lop

theorem live_generation (l : Lifecycle) (lop : LifecycleOp) :
    (lop.live l).generation = (l.generation + 1) % 2 ^ 32 := by
  cases lop <;> rfl

theorem run_live_generation (h : l.generation < 2 ^ 32) (lops : List LifecycleOp) :
    (run LifecycleOp.live l lops).generation = (l.generation + lops.length) % 2 ^ 32 := by
  induction lops generalizing l with
  | nil => exact (Nat.mod_eq_of_lt h).symm
  | cons lop lops ih =>
    have hstep := live_generation l lop
    rw [run_cons, ih (by omega), hstep, List.length_cons]
    omega

section

variable (l) (lops)

theorem run_live_reassigned : (run LifecycleOp.live l lops).reassigned =
      (l.reassigned || lops.any LifecycleOp.isReassign) := by
  induction lops generalizing l with
  | nil => simp
  | cons lop lops ih =>
    rw [run_cons, ih, List.any_cons]
    cases lop <;> simp [LifecycleOp.live, LifecycleOp.isReassign]

theorem run_replay_reassigned : (run LifecycleOp.replay l lops).reassigned = l.reassigned := by
  induction lops generalizing l with
  | nil => rfl
  | cons lop lops ih =>
    rw [run_cons, ih]
    cases lop <;> rfl

theorem run_replay_generation : (run LifecycleOp.replay l lops).generation =
      run adopt l.generation (lops.filterMap LifecycleOp.token) := by
  induction lops generalizing l with
  | nil => rfl
  | cons lop lops ih =>
    rw [run_cons, ih]
    cases lop <;> rfl

end

end Fields

/-! ## Operations and their entries -/

def lifecycle (r : Record) : Lifecycle where
  locked := r.metadata.flags.locked
  conflicting := r.metadata.flags.conflicting
  reassigned := r.metadata.flags.reassigned
  preserveUntil := r.metadata.preserveUntil
  generation := r.metadata.generation

/-- The fields that an entry is about. -/
def lifecycleOp : RedoOp → Option LifecycleOp
  | .freezeV2 .. | .unfreezeV2 .. => some .slot
  | .reassignV2 .. => some .reassign
  | .setLocked _ value => some (.lock value)
  | .setConflicting _ value _ _ => some (.conflict value)
  | .preserveUntil _ blockHeight => some (.preserve blockHeight.toNat)
  | .expirePreservation .. => some (.preserve 0)
  | .markOnLongestChain _ _ _ _ generation => some (.mark generation.toNat)
  | _ => none

/-- The redo entry of an operation on the cell. A preservation that does not end leaves no entry.
The generation in an entry for the longest chain is any: it depends on the writer. -/
inductive Logs (key : TxKey) (c : Cell) : EngineOp → RedoOp → Prop where
  | freeze {slot : Nat} {utxoHash : Hash} {offset : UInt32} (hoffset : offset.toNat = slot) :
      Logs key c (.freeze slot utxoHash) (.freezeV2 key offset utxoHash)
  | unfreeze {slot : Nat} {utxoHash : Hash} {offset : UInt32} (hoffset : offset.toNat = slot) :
      Logs key c (.unfreeze slot utxoHash) (.unfreezeV2 key offset utxoHash)
  | reassign {req : ReassignRequest} {offset blockHeight spendableAfter : UInt32}
      (hoffset : offset.toNat = req.offset) (hheight : blockHeight.toNat = req.blockHeight)
      (hafter : spendableAfter.toNat = req.spendableAfter) :
      Logs key c (.reassign req)
        (.reassignV2 key offset req.newUtxoHash blockHeight spendableAfter req.utxoHash)
  | setLocked (value : Bool) : Logs key c (.setLocked value) (.setLocked key value)
  | setConflicting {req : SetConflictingRequest} {height retention : UInt32}
      (hheight : height.toNat = req.currentBlockHeight)
      (hretention : retention.toNat = req.blockHeightRetention) :
      Logs key c (.setConflicting req) (.setConflicting key req.value height retention)
  | preserveUntil {blockHeight : Nat} {height : UInt32} (hheight : height.toNat = blockHeight) :
      Logs key c (.preserveUntil blockHeight) (.preserveUntil key height)
  | expirePreservation {cur ret : Nat} {expiry : PreservationExpiry} {deleteAtHeight : UInt32}
      (hexpiry : (c.expirePreservationSetDah key cur ret).2 = .ok (some expiry))
      (hheight : deleteAtHeight.toNat = expiry.deleteAtHeight) :
      Logs key c (.expirePreservationSetDah cur ret) (.expirePreservation key deleteAtHeight)
  | markOnLongestChain {req : MarkOnLongestChainRequest} {height retention generation : UInt32}
      (hheight : height.toNat = req.currentBlockHeight)
      (hretention : retention.toNat = req.blockHeightRetention) :
      Logs key c (.markOnLongestChain req)
        (.markOnLongestChain key req.onLongestChain height retention generation)

/-- A run of operations that succeed, each with its entry. -/
inductive Logged (cfg : StoreConfig) (key : TxKey) : Cell → List EngineOp → List RedoOp → Prop where
  | nil (c : Cell) : Logged cfg key c [] []
  | cons {c : Cell} {op : EngineOp} {entry : RedoOp} {ops : List EngineOp} {entries : List RedoOp}
      (hok : c.Succeeds cfg key op) (hlog : Logs key c op entry)
      (hrest : Logged cfg key (c.next cfg key op) ops entries) :
      Logged cfg key c (op :: ops) (entry :: entries)

/-! ## One live step -/

def HasLifecycle (c : Cell) (count : Nat) (l : Lifecycle) : Prop :=
  ∃ r, c.record = some r ∧ r.slots.length = count ∧ lifecycle r = l

theorem commit_lifecycle (c : Cell) (key : TxKey) (r : Record) (patch : Option DahPatch) :
    HasLifecycle (c.commit key r patch) r.slots.length (lifecycle r) := by
  cases patch with
  | none => exact ⟨_, rfl, rfl, rfl⟩
  | some patch => exact ⟨_, rfl, rfl, rfl⟩

theorem rewritesSlot_lifecycle {offset : Nat} {hash : Hash} {status : UtxoStatus}
    {f : UtxoSlot → UtxoSlot} {out : Cell × Except SpendError Nat}
    (hout : RewritesSlot c r offset hash status f out) (hok : out.2.isOk) :
    HasLifecycle out.1 r.slots.length (LifecycleOp.slot.live (lifecycle r)) := by
  obtain ⟨s, -, -, -, hc'⟩ := hout.of_isOk hok
  rw [hc']
  exact ⟨_, rfl, List.length_set, rfl⟩

section

variable (hrec : c.record = some r)
include hrec

theorem reassign_lifecycle {req : ReassignRequest}
    (hok : (c.reassign key req).2.isOk) :
    HasLifecycle (c.reassign key req).1 r.slots.length
      (LifecycleOp.reassign.live (lifecycle r)) := by
  unfold Cell.reassign at hok ⊢
  split at hok
  · cases hok
  rename_i hv
  cases hrec.symm.trans (validateReassign_ok hv).1
  exact ⟨_, rfl, List.length_set, rfl⟩

theorem setLocked_lifecycle (value : Bool) :
    HasLifecycle (c.setLocked value).1 r.slots.length
      ((LifecycleOp.lock value).live (lifecycle r)) := by
  unfold Cell.setLocked
  simp only [hrec]
  exact ⟨_, rfl, rfl, rfl⟩

theorem setConflicting_lifecycle {req : SetConflictingRequest}
    (hok : (c.setConflicting cfg key req).2.isOk) :
    HasLifecycle (c.setConflicting cfg key req).1 r.slots.length
      ((LifecycleOp.conflict req.value).live (lifecycle r)) := by
  unfold Cell.setConflicting at hok ⊢
  simp only [hrec] at hok ⊢
  split at hok
  · cases hok
  by_cases hdirect : cfg.directAccess
  · rw [if_pos hdirect] at hok ⊢
    unfold Cell.setConflictingDirect at hok ⊢
    dsimp only at hok ⊢
    split at hok
    · cases hok
    · exact ⟨_, rfl, rfl, rfl⟩
  · rw [if_neg hdirect] at hok ⊢
    unfold Cell.setConflictingSlow at hok ⊢
    dsimp only at hok ⊢
    split at hok
    · cases hok
    · exact commit_lifecycle c key (Cell.withConflicting r req.value) _

theorem preserveUntil_lifecycle (blockHeight : Nat) :
    HasLifecycle (c.preserveUntil key blockHeight).1 r.slots.length
      ((LifecycleOp.preserve blockHeight).live (lifecycle r)) := by
  unfold Cell.preserveUntil
  simp only [hrec]
  split <;> exact ⟨_, rfl, rfl, rfl⟩

theorem expirePreservation_lifecycle {cur ret : Nat} {expiry : PreservationExpiry}
    (hexpiry : (c.expirePreservationSetDah key cur ret).2 = .ok (some expiry)) :
    HasLifecycle (c.expirePreservationSetDah key cur ret).1 r.slots.length
      ((LifecycleOp.preserve 0).live (lifecycle r)) := by
  unfold Cell.expirePreservationSetDah at hexpiry ⊢
  simp only [hrec] at hexpiry ⊢
  by_cases hret : ret = 0
  · rw [if_pos hret] at hexpiry
    cases hexpiry
  rw [if_neg hret] at hexpiry ⊢
  by_cases hactive : r.metadata.preserveUntil = 0 ∨ cur < r.metadata.preserveUntil
  · rw [if_pos hactive] at hexpiry
    cases hexpiry
  rw [if_neg hactive] at hexpiry ⊢
  split at hexpiry
  · cases hexpiry
  split at hexpiry
  · cases hexpiry
  · exact ⟨_, rfl, rfl, rfl⟩

theorem markOnLongestChain_lifecycle {req : MarkOnLongestChainRequest} {token : Nat}
    (hok : (c.markOnLongestChain key req).2.isOk) :
    HasLifecycle (c.markOnLongestChain key req).1 r.slots.length
      ((LifecycleOp.mark token).live (lifecycle r)) := by
  unfold Cell.markOnLongestChain at hok ⊢
  simp only [hrec] at hok ⊢
  split at hok
  · cases hok
  split at hok
  · cases hok
  · exact commit_lifecycle c key _ _

end

theorem Logs.next_lifecycle (hlog : Logs key c op entry) (hrec : c.record = some r)
    (hok : c.Succeeds cfg key op) :
    ∃ lop, lifecycleOp entry = some lop ∧
      HasLifecycle (c.next cfg key op) r.slots.length (lop.live (lifecycle r)) := by
  cases hlog with
  | freeze => exact ⟨_, rfl, rewritesSlot_lifecycle (freeze_cases hrec ..) hok⟩
  | unfreeze => exact ⟨_, rfl, rewritesSlot_lifecycle (unfreeze_cases hrec ..) hok⟩
  | reassign => exact ⟨_, rfl, reassign_lifecycle hrec hok⟩
  | setLocked value => exact ⟨_, rfl, setLocked_lifecycle hrec value⟩
  | setConflicting => exact ⟨_, rfl, setConflicting_lifecycle hrec hok⟩
  | preserveUntil hheight => exact ⟨_, rfl, hheight ▸ preserveUntil_lifecycle hrec _⟩
  | expirePreservation hexpiry => exact ⟨_, rfl, expirePreservation_lifecycle hrec hexpiry⟩
  | markOnLongestChain => exact ⟨_, rfl, markOnLongestChain_lifecycle hrec hok⟩

/-! ## One replayed entry -/

def ReplaysFields (t : Record) (entry : RedoOp) (l : Lifecycle) : Prop :=
  ∃ t' result, replayEntry t entry = some (t', result) ∧ result.isFailed = false ∧
    t'.slots.length = t.slots.length ∧ lifecycle t' = l

section Replay

variable {t : Record} {offset : UInt32}

/-- The entries of slots leave the fields alone. -/
theorem replaySlot_fields (hlt : offset.toNat < t.slots.length) :
    (∀ hash, ReplaysFields t (.freezeV2 key offset hash) (lifecycle t)) ∧
      (∀ hash, ReplaysFields t (.unfreezeV2 key offset hash) (lifecycle t)) ∧
      ∀ new blockHeight spendableAfter prior, ReplaysFields t
        (.reassignV2 key offset new blockHeight spendableAfter prior) (lifecycle t) := by
  simp only [ReplaysFields, replayEntry, replayFreeze, replayUnfreeze, replayReassign,
    List.getElem?_eq_getElem hlt]
  refine ⟨fun _ => ?_, fun _ => ?_, fun _ _ _ _ => ?_⟩ <;> split_ifs
  all_goals first
    | exact ⟨_, _, rfl, rfl, rfl, rfl⟩
    | exact ⟨_, _, rfl, rfl, List.length_set, rfl⟩

/-- An entry that is skipped where the record has its value, and writes it otherwise. -/
theorem replaysFields_of_ite {p : Prop} [Decidable p] {m : TxMetadata} {l : Lifecycle}
    (hreplay : replayEntry t entry = some (if p then (t, .skipped) else withMetadata t m))
    (hskip : p → lifecycle t = l) (hwrite : lifecycle (withMetadata t m).1 = l) :
    ReplaysFields t entry l := by
  by_cases hp : p
  · exact ⟨t, _, hreplay.trans (by rw [if_pos hp]), rfl, rfl, hskip hp⟩
  · exact ⟨{ t with metadata := m }, _, hreplay.trans (by rw [if_neg hp]; rfl), rfl, rfl, hwrite⟩

theorem replaySetLocked_fields (value : Bool) :
    ReplaysFields t (.setLocked key value) ((LifecycleOp.lock value).replay (lifecycle t)) :=
  replaysFields_of_ite rfl (fun h => by simp [LifecycleOp.replay, lifecycle, h]) rfl

theorem replaySetConflicting_fields (value : Bool) (height retention : UInt32) :
    ReplaysFields t (.setConflicting key value height retention)
      ((LifecycleOp.conflict value).replay (lifecycle t)) :=
  replaysFields_of_ite rfl (fun h => by simp [LifecycleOp.replay, lifecycle, h]) rfl

theorem replayPreserveUntil_fields (height : UInt32) :
    ReplaysFields t (.preserveUntil key height)
      ((LifecycleOp.preserve height.toNat).replay (lifecycle t)) :=
  replaysFields_of_ite rfl (fun h => by simp [LifecycleOp.replay, lifecycle, h]) rfl

theorem replayExpirePreservation_fields (deleteAtHeight : UInt32) :
    ReplaysFields t (.expirePreservation key deleteAtHeight)
      ((LifecycleOp.preserve 0).replay (lifecycle t)) :=
  replaysFields_of_ite rfl (fun h => by simp [LifecycleOp.replay, lifecycle, h.1]) rfl

/-- The generation lies ahead of the record, and is adopted; or it does not, and the entry is
skipped or counts as one that names none. -/
theorem replayMarkOnLongestChain_fields (onLongestChain : Bool)
    (height retention generation : UInt32) :
    ReplaysFields t (.markOnLongestChain key onLongestChain height retention generation)
      ((LifecycleOp.mark generation.toNat).replay (lifecycle t)) := by
  simp only [ReplaysFields, replayEntry, replayMarkOnLongestChain, generationAtOrAhead]
  by_cases hahead : generationTargetAhead t.metadata.generation generation.toNat
  · simp only [hahead, Bool.or_true, if_true, Bool.not_true, Bool.false_eq_true, if_false]
    exact ⟨_, _, rfl, rfl, rfl, by simp [LifecycleOp.replay, lifecycle, adopt, hahead]⟩
  have hkept : (LifecycleOp.mark generation.toNat).replay (lifecycle t) = lifecycle t := by
    simp [LifecycleOp.replay, lifecycle, adopt, hahead]
  simp only [hkept, hahead, Bool.not_false, if_true]
  split_ifs <;> exact ⟨_, _, rfl, rfl, rfl, rfl⟩

theorem Logs.replays {lop : LifecycleOp} (hlog : Logs key c op entry) (hrec : c.record = some r)
    (hok : c.Succeeds cfg key op) (hlen : t.slots.length = r.slots.length)
    (hop : lifecycleOp entry = some lop) : ReplaysFields t entry (lop.replay (lifecycle t)) := by
  have hrange : ∀ {offset : UInt32} {slot : Nat} {s : UtxoSlot}, offset.toNat = slot →
      r.slots[slot]? = some s → offset.toNat < t.slots.length := by
    intro offset slot s hoffset hs
    obtain ⟨hlt, -⟩ := List.getElem?_eq_some_iff.mp hs
    omega
  cases hlog <;> obtain rfl := Option.some.inj hop
  case freeze hoffset =>
    obtain ⟨s, hs, -⟩ := (freeze_cases hrec ..).of_isOk hok
    exact (replaySlot_fields (hrange hoffset hs)).1 _
  case unfreeze hoffset =>
    obtain ⟨s, hs, -⟩ := (unfreeze_cases hrec ..).of_isOk hok
    exact (replaySlot_fields (hrange hoffset hs)).2.1 _
  case reassign hoffset _ _ =>
    obtain ⟨s, hs, -⟩ := reassign_stepsSlot hrec hok
    exact (replaySlot_fields (hrange hoffset hs)).2.2 ..
  case setLocked value => exact replaySetLocked_fields value
  case setConflicting => exact replaySetConflicting_fields ..
  case preserveUntil => exact replayPreserveUntil_fields _
  case expirePreservation => exact replayExpirePreservation_fields _
  case markOnLongestChain => exact replayMarkOnLongestChain_fields ..

end Replay

/-! ## Runs -/

def reassigns : EngineOp → Bool
  | .reassign _ => true
  | _ => false

theorem Logs.isReassign {lop : LifecycleOp} (hlog : Logs key c op entry)
    (hop : lifecycleOp entry = some lop) : reassigns op = lop.isReassign := by
  cases hlog <;> cases hop <;> rfl

/-- All entries of a run are about the fields; the live run and the replay act on them as
`LifecycleOp.live` and `LifecycleOp.replay` say. -/
theorem Logged.fields {t : Record} (h : Logged cfg key c ops entries) (hrec : c.record = some r)
    (hlen : t.slots.length = r.slots.length) :
    ∃ lops final t', entries.map lifecycleOp = lops.map some ∧
      ops.any reassigns = lops.any LifecycleOp.isReassign ∧
      (run (Cell.next · cfg key) c ops).record = some final ∧
      lifecycle final = run LifecycleOp.live (lifecycle r) lops ∧
      replayLog t entries = some t' ∧
      lifecycle t' = run LifecycleOp.replay (lifecycle t) lops := by
  induction h generalizing r t with
  | nil c => exact ⟨[], r, t, rfl, rfl, hrec, rfl, rfl, rfl⟩
  | @cons c op entry ops entries hok hlog _ ih =>
    obtain ⟨lop, hop, r₁, hrec₁, hlen₁, hlive⟩ := hlog.next_lifecycle hrec hok
    obtain ⟨t₁, result, hreplay, hresult, hlen₂, hfields⟩ := hlog.replays hrec hok hlen hop
    obtain ⟨lops, final, t', hops, hany, hfinal, hrun, hlog', hrun'⟩ :=
      ih hrec₁ (hlen₂.trans (hlen.trans hlen₁.symm))
    refine ⟨lop :: lops, final, t', by simp [hop, hops], ?_, hfinal, ?_, ?_, ?_⟩
    · rw [List.any_cons, List.any_cons, hany, hlog.isReassign hop]
    · rw [hrun, hlive, run_cons]
    · rw [replayLog_cons hreplay hresult, hlog']
    · rw [hrun', hfields, run_cons]

/-! ## Recovery -/

/-- Replayed over the record from before the run, the entries give the flags and the preservation of
the live run, and a generation that is not behind. -/
def LifecycleRestored (cfg : StoreConfig) (key : TxKey) (c : Cell) (r : Record)
    (ops : List EngineOp) (entries : List RedoOp) : Prop :=
  ∃ r' final, replayLog r entries = some r' ∧
    (run (Cell.next · cfg key) c ops).record = some final ∧
    r'.metadata.flags.locked = final.metadata.flags.locked ∧
    r'.metadata.flags.conflicting = final.metadata.flags.conflicting ∧
    r'.metadata.flags.reassigned = final.metadata.flags.reassigned ∧
    r'.metadata.preserveUntil = final.metadata.preserveUntil ∧
    generationAtOrAhead r'.metadata.generation final.metadata.generation

/-- The generations that the entries for the longest chain name. -/
def tokens (entries : List RedoOp) : List Nat :=
  entries.filterMap fun entry => (lifecycleOp entry).bind LifecycleOp.token

theorem tokens_eq {lops : List LifecycleOp} (h : entries.map lifecycleOp = lops.map some) :
    tokens entries = lops.filterMap LifecycleOp.token := by
  have hmap := congrArg (List.filterMap fun lop : Option LifecycleOp =>
    lop.bind LifecycleOp.token) h
  rwa [List.filterMap_map, List.filterMap_map] at hmap

/-- The live generation, an operation for each entry on, is not ahead of the one that has taken over
what the entries name. -/
def KeepsUp (generation : Nat) (entries : List RedoOp) : Prop :=
  generationAtOrAhead (run adopt generation (tokens entries))
    ((generation + entries.length) % 2 ^ 32)

instance (generation : Nat) (entries : List RedoOp) : Decidable (KeepsUp generation entries) :=
  inferInstanceAs (Decidable (_ = true))

/-- A run on a replica keeps up if it ends with the longest chain. -/
theorem keepsUp_concat (generation : Nat) (entries : List RedoOp) (key : TxKey)
    (onLongestChain : Bool) (height retention : UInt32) {token : UInt32}
    (htoken : token.toNat = (generation + (entries.length + 1)) % 2 ^ 32) :
    KeepsUp generation
      (entries ++ [.markOnLongestChain key onLongestChain height retention token]) := by
  have htokens : tokens (entries ++ [.markOnLongestChain key onLongestChain height retention
      token]) = tokens entries ++ [token.toNat] := by
    simp [tokens, lifecycleOp, LifecycleOp.token]
  rw [KeepsUp, htokens, run_append, List.length_append, List.length_singleton, ← htoken]
  exact generationAtOrAhead_adopt _ token.toNat_lt

instance (c : Cell) (cfg : StoreConfig) (key : TxKey) (op : EngineOp) :
    Decidable (c.Succeeds cfg key op) :=
  inferInstanceAs (Decidable (_ = true))

def lateRecord : Record where
  metadata := { generation := 2 ^ 32 - 2 }
  slots := [.newUnspent demoHash]
  slots_lt := by simp
  minedSlot := none
  deletedChildren := []

def lateCell : Cell := ⟨some lateRecord, .empty, none, none⟩

end TeraSlab.Recovery
