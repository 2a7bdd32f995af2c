import TeraSlab.Foundations.Run

/-!
# The lineage store

For every shard a node keeps whether its copy is known complete (`Full`, stamped with a regime) or
not (`Subset`), and whether part of the copy is known to be missing (a baseline gap). The stamps
and the gaps are kept in a sidecar file. A failed write of the file may have replaced it or not.

The node's store runs beside the committed regimes and the set of shards that owe a proof: a gap
was recorded and no `mark_full_many` at the current regime has succeeded since.
-/

namespace TeraSlab.Cluster

open Foundations

def numShards : Nat := 4096

structure LineageFile where
  dataEpoch : Nat
  nodeId : Nat
  entries : List (Nat × Nat)
  gapShards : List Nat
deriving DecidableEq, Repr

inductive PersistOutcome where
  | written
  /-- An error was returned: before the rename, or after it. -/
  | failed (replaced : Bool)
deriving DecidableEq, Repr

/-- The in-memory state with its bitmap shadows, and the file on disk. A store without a path
never writes. -/
structure LineageStore where
  hasPath : Bool
  dataEpoch : Nat
  nodeId : Nat
  stamps : Nat → Option Nat
  gaps : Nat → Bool
  fullBits : Nat → Bool
  baselineGapBits : Nat → Bool
  file : Option LineageFile

inductive Lineage where
  | full (regime : Nat)
  | subset
deriving DecidableEq, Repr

namespace LineageStore

variable (s : LineageStore)

def lineage (shard : Nat) : Lineage :=
  if shard < numShards then
    match s.stamps shard with
    | some regime => .full regime
    | none => .subset
  else .subset

def isFull (shard : Nat) : Bool := shard < numShards && s.fullBits shard

def encode : LineageFile where
  dataEpoch := s.dataEpoch
  nodeId := s.nodeId
  entries := (List.range numShards).filterMap fun shard => (s.stamps shard).map (shard, ·)
  gapShards := (List.range numShards).filter fun shard => s.gaps shard

def persist (outcome : PersistOutcome) : LineageStore × Bool :=
  if !s.hasPath then (s, true)
  else
    match outcome with
    | .written => ({ s with file := some s.encode }, true)
    | .failed true => ({ s with file := some s.encode }, false)
    | .failed false => (s, false)

/-- Open the store on what is left on disk. A file that cannot be read or decoded counts as
absent; one of another identity keeps its gaps only. -/
def openStore (hasPath : Bool) (dataEpoch nodeId : Nat) (file : Option LineageFile)
    (readable : Bool) : LineageStore :=
  let found := if hasPath && readable then file else none
  let stamps : Nat → Option Nat := fun shard =>
    match found with
    | none => none
    | some f =>
      if f.dataEpoch ≠ dataEpoch ∨ f.nodeId ≠ nodeId then none else f.entries.lookup shard
  let gaps : Nat → Bool := fun shard =>
    match found with
    | none => false
    | some f => f.gapShards.contains shard
  { hasPath, dataEpoch, nodeId, stamps, gaps, fullBits := fun shard => (stamps shard).isSome,
    baselineGapBits := gaps, file }

def markBaselineGap (shards : List Nat) (outcome : PersistOutcome) : LineageStore :=
  let hit := fun shard => shards.contains shard && decide (shard < numShards)
  let marked : LineageStore := { s with
    stamps := fun shard => if hit shard then none else s.stamps shard
    fullBits := fun shard => if hit shard && (s.stamps shard).isSome then false
      else s.fullBits shard
    gaps := fun shard => hit shard || s.gaps shard
    baselineGapBits := fun shard => (hit shard && !s.gaps shard) || s.baselineGapBits shard }
  if ∃ shard ∈ shards, shard < numShards ∧ ((s.stamps shard).isSome ∨ s.gaps shard = false) then
    (marked.persist outcome).1
  else marked

def markSubset (shards : List Nat) (outcome : PersistOutcome) : LineageStore :=
  let hit := fun shard => shards.contains shard && (s.stamps shard).isSome
  let marked : LineageStore := { s with
    stamps := fun shard => if hit shard then none else s.stamps shard
    fullBits := fun shard => if hit shard then false else s.fullBits shard }
  if ∃ shard ∈ shards, (s.stamps shard).isSome then (marked.persist outcome).1 else marked

def stampAll (stamps : List (Nat × Nat)) (f : Nat → Option Nat) : Nat → Option Nat :=
  stamps.foldl (fun f p => Function.update f p.1 (some p.2)) f

def markFullMany (stamps : List (Nat × Nat)) (outcome : PersistOutcome) : LineageStore × Bool :=
  let valid := stamps.filter fun p => p.1 < numShards
  if valid.isEmpty then (s, false)
  else
    let hit := fun shard => valid.any fun p => p.1 == shard
    let stamped : LineageStore := { s with
      stamps := stampAll valid s.stamps
      gaps := fun shard => !hit shard && s.gaps shard }
    match stamped.persist outcome with
    | (t, true) =>
      ({ t with
          fullBits := fun shard => hit shard || s.fullBits shard
          baselineGapBits := fun shard => !hit shard && s.baselineGapBits shard }, true)
    | (t, false) => ({ t with stamps := s.stamps, gaps := s.gaps }, false)

def differs (f g : Nat → Option Nat) : Bool :=
  (List.range numShards).any fun shard => f shard != g shard

/-- The stamp after a committed topology: a `Full` shard the node still holds gets the new regime,
one it does not hold is degraded. -/
def transition (inHolderSet : Nat → Bool) (regimeOf : Nat → Nat) (shard : Nat) : Option Nat :=
  if shard < numShards then
    (s.stamps shard).bind fun _ => if inHolderSet shard then some (regimeOf shard) else none
  else s.stamps shard

def applyCommitTransitions (inHolderSet : Nat → Bool) (regimeOf : Nat → Nat)
    (outcome : PersistOutcome) : LineageStore × Bool :=
  let next := s.transition inHolderSet regimeOf
  if differs next s.stamps then
    match { s with stamps := next }.persist outcome with
    | (t, true) =>
      ({ t with fullBits := fun shard =>
          if shard < numShards then (next shard).isSome else s.fullBits shard }, true)
    | (t, false) => ({ t with stamps := s.stamps }, false)
  else (s, true)

/-- The stamp a shard boots with: the committed master keeps or gets `Full` if the mastership
never moved or a stamp is stored, another holder keeps a stamp of the current regime. -/
def rederived (committedMasterIsSelf inHolderSet : Nat → Bool) (regimeOf : Nat → Nat)
    (shard : Nat) : Option Nat :=
  if shard < numShards then
    if committedMasterIsSelf shard && (regimeOf shard == 0 || (s.stamps shard).isSome) then
      some (regimeOf shard)
    else if inHolderSet shard && s.stamps shard == some (regimeOf shard) then s.stamps shard
    else none
  else s.stamps shard

def bootRederive (committedMasterIsSelf inHolderSet : Nat → Bool) (regimeOf : Nat → Nat)
    (outcome : PersistOutcome) : LineageStore :=
  let next := s.rederived committedMasterIsSelf inHolderSet regimeOf
  let booted : LineageStore := { s with
    stamps := next
    fullBits := fun shard =>
      if shard < numShards then
        if (next shard).isSome then true
        else if (s.stamps shard).isSome then false else s.fullBits shard
      else s.fullBits shard }
  if differs next s.stamps then (booted.persist outcome).1 else booted

end LineageStore

/-! ### Runs -/

/-- The store of a node, the regimes of the committed topology, and the shards that owe a proof of
completeness. -/
structure LineageNode where
  store : LineageStore
  committedRegime : Nat → Nat
  owes : Nat → Bool

inductive LineageCall where
  | markBaselineGap (shards : List Nat) (outcome : PersistOutcome)
  | markSubset (shards : List Nat) (outcome : PersistOutcome)
  | markFullMany (stamps : List (Nat × Nat)) (outcome : PersistOutcome)
  | commit (inHolderSet : Nat → Bool) (regimeOf : Nat → Nat) (outcome : PersistOutcome)
  | bootRederive (committedMasterIsSelf inHolderSet : Nat → Bool) (regimeOf : Nat → Nat)
      (outcome : PersistOutcome)
  /-- The process restarts and opens the store under its identity. -/
  | restart (dataEpoch nodeId : Nat) (readable : Bool)

namespace LineageNode

def step (n : LineageNode) : LineageCall → LineageNode
  | .markBaselineGap shards outcome =>
    { n with
      store := n.store.markBaselineGap shards outcome
      owes := fun shard => (shards.contains shard && decide (shard < numShards)) || n.owes shard }
  | .markSubset shards outcome => { n with store := n.store.markSubset shards outcome }
  | .markFullMany stamps outcome =>
    let marked := n.store.markFullMany stamps outcome
    { n with
      store := marked.1
      owes := fun shard =>
        n.owes shard && !(marked.2 && stamps.contains (shard, n.committedRegime shard)) }
  | .commit inHolderSet regimeOf outcome =>
    let applied := n.store.applyCommitTransitions inHolderSet regimeOf outcome
    { n with
      store := applied.1
      committedRegime := if applied.2 then regimeOf else n.committedRegime }
  | .bootRederive committedMasterIsSelf inHolderSet regimeOf outcome =>
    { n with
      store := n.store.bootRederive committedMasterIsSelf inHolderSet regimeOf outcome
      committedRegime := regimeOf }
  | .restart dataEpoch nodeId readable =>
    { n with
      store := LineageStore.openStore n.store.hasPath dataEpoch nodeId n.store.file readable }

/-- No shard that owes a proof is reported `Full`. -/
def RemembersGaps (n : LineageNode) : Prop :=
  ∀ shard, n.owes shard = true →
    n.store.lineage shard = .subset ∧ n.store.isFull shard = false

/-- A shard that owes a proof is stamped at its current regime only, is not booted as the master of
a shard whose mastership never moved, and has no `Full` entry in a file that a restart accepts. -/
def Honours (n : LineageNode) : LineageCall → Prop
  | .markFullMany stamps outcome => (n.store.markFullMany stamps outcome).2 = true →
      ∀ p ∈ stamps, n.owes p.1 = true → p.2 = n.committedRegime p.1
  | .bootRederive committedMasterIsSelf _ regimeOf _ => ∀ shard < numShards,
      n.owes shard = true → ¬ (committedMasterIsSelf shard = true ∧ regimeOf shard = 0)
  | .restart dataEpoch nodeId readable => ∀ f, n.store.file = some f →
      n.store.hasPath = true → readable = true → f.dataEpoch = dataEpoch → f.nodeId = nodeId →
      ∀ shard, n.owes shard = true → f.entries.lookup shard = none
  | _ => True

end LineageNode

/-! ### The shadow of the stamps -/

namespace LineageStore

variable {s : LineageStore}

def Shadowed (s : LineageStore) : Prop :=
  ∀ shard < numShards, s.fullBits shard = (s.stamps shard).isSome

theorem persist_eq (s : LineageStore) (outcome : PersistOutcome) :
    ∃ file, (s.persist outcome).1 = { s with file } := by
  unfold persist
  split
  · exact ⟨s.file, rfl⟩
  · split <;> exact ⟨_, rfl⟩

theorem openStore_stamps_none {hasPath : Bool} {dataEpoch nodeId : Nat}
    {file : Option LineageFile} {readable : Bool} {shard : Nat}
    (h : ∀ f, file = some f → hasPath = true → readable = true → f.dataEpoch = dataEpoch →
      f.nodeId = nodeId → f.entries.lookup shard = none) :
    (openStore hasPath dataEpoch nodeId file readable).stamps shard = none := by
  cases hasPath <;> cases readable <;> cases file <;> try rfl
  case true.true.some f =>
    show (if f.dataEpoch ≠ dataEpoch ∨ f.nodeId ≠ nodeId then none
      else f.entries.lookup shard) = none
    split
    · rfl
    · exact h f rfl rfl rfl (by tauto) (by tauto)

structure Grants (s t : LineageStore) (granted : Nat → Prop) : Prop where
  shadowed : s.Shadowed → t.Shadowed
  kept : ∀ shard, ¬ granted shard → s.stamps shard = none → t.stamps shard = none

variable {granted : Nat → Prop}

/-- The file does not matter to what is granted. -/
theorem Grants.persist {t : LineageStore} (h : s.Grants t granted) (outcome : PersistOutcome) :
    s.Grants (t.persist outcome).1 granted := by
  obtain ⟨file, heq⟩ := t.persist_eq outcome
  rw [heq]
  exact ⟨h.shadowed, h.kept⟩

section

variable (s) (shards : List Nat) (outcome : PersistOutcome)

theorem grants_markSubset : s.Grants (s.markSubset shards outcome) fun _ => False := by
  unfold markSubset
  have h : s.Grants { s with
      stamps := fun shard =>
        if shards.contains shard && (s.stamps shard).isSome then none else s.stamps shard
      fullBits := fun shard =>
        if shards.contains shard && (s.stamps shard).isSome then false else s.fullBits shard }
      fun _ => False := by
    refine ⟨fun hs shard hlt => ?_, fun shard _ hnone => ?_⟩
    · dsimp only
      rw [hs shard hlt]
      split <;> rfl
    · dsimp only
      rw [hnone, ite_self]
  split
  · exact h.persist outcome
  · exact h

theorem grants_markBaselineGap : s.Grants (s.markBaselineGap shards outcome) (fun _ => False) ∧
      ∀ shard ∈ shards, shard < numShards →
        (s.markBaselineGap shards outcome).stamps shard = none := by
  unfold markBaselineGap
  dsimp only
  generalize hmarked : ({ s with
    stamps := fun shard =>
      if shards.contains shard && decide (shard < numShards) then none else s.stamps shard
    fullBits := fun shard =>
      if (shards.contains shard && decide (shard < numShards)) && (s.stamps shard).isSome
      then false else s.fullBits shard
    gaps := fun shard => (shards.contains shard && decide (shard < numShards)) || s.gaps shard
    baselineGapBits := fun shard =>
      ((shards.contains shard && decide (shard < numShards)) && !s.gaps shard) ||
        s.baselineGapBits shard } : LineageStore) = marked
  have h : s.Grants marked fun _ => False := by
    subst hmarked
    refine ⟨fun hs shard hlt => ?_, fun shard _ hnone => ?_⟩
    · dsimp only
      rw [hs shard hlt]
      cases s.stamps shard <;> cases shards.contains shard <;> simp [hlt]
    · dsimp only
      rw [hnone, ite_self]
  have hhit : ∀ shard ∈ shards, shard < numShards → marked.stamps shard = none := by
    subst hmarked
    intro shard hmem hlt
    simp [hmem, hlt]
  split
  · refine ⟨h.persist outcome, ?_⟩
    obtain ⟨file, heq⟩ := marked.persist_eq outcome
    rw [heq]
    exact hhit
  · exact ⟨h, hhit⟩

/-- A shard that is not named keeps its stamp, one that is named gets one. -/
theorem stampAll_cases (valid : List (Nat × Nat)) (f : Nat → Option Nat) (shard : Nat) :
    (∀ p ∈ valid, p.1 ≠ shard) ∧ stampAll valid f shard = f shard ∨
      (∃ p ∈ valid, p.1 = shard) ∧ (stampAll valid f shard).isSome = true := by
  induction valid generalizing f with
  | nil => exact .inl ⟨nofun, rfl⟩
  | cons p valid ih =>
    have hcons : stampAll (p :: valid) f = stampAll valid (Function.update f p.1 (some p.2)) := rfl
    rw [hcons]
    rcases ih (Function.update f p.1 (some p.2)) with ⟨hnot, heq⟩ | ⟨⟨q, hq, hqs⟩, hsome⟩
    · rw [heq]
      by_cases hp : shard = p.1
      · exact .inr ⟨⟨p, List.mem_cons_self, hp.symm⟩, by rw [hp, Function.update_self]; rfl⟩
      refine .inl ⟨fun q hq => ?_, Function.update_of_ne hp _ _⟩
      rcases List.mem_cons.mp hq with rfl | hq
      · exact Ne.symm hp
      · exact hnot q hq
    · exact .inr ⟨⟨q, List.mem_cons_of_mem _ hq, hqs⟩, hsome⟩

theorem grants_markFullMany (stamps : List (Nat × Nat)) (outcome : PersistOutcome) :
    s.Grants (s.markFullMany stamps outcome).1 fun shard =>
      (s.markFullMany stamps outcome).2 = true ∧ ∃ p ∈ stamps, p.1 = shard := by
  unfold markFullMany
  dsimp only
  split
  · exact ⟨id, fun _ _ h => h⟩
  generalize hvalid : stamps.filter (fun p => decide (p.1 < numShards)) = valid
  split
  case h_1 t hpersist =>
    obtain ⟨file, heq⟩ := persist_eq _ outcome
    rw [hpersist] at heq
    subst heq
    refine ⟨fun hs shard hlt => ?_, fun shard hgrant hnone => ?_⟩
    · dsimp only
      rw [hs shard hlt]
      rcases stampAll_cases valid s.stamps shard with ⟨hnot, heq⟩ | ⟨hmem, hsome⟩
      · have hany : (valid.any fun p => p.1 == shard) = false := by simpa using hnot
        rw [heq, hany, Bool.false_or]
      · have hany : (valid.any fun p => p.1 == shard) = true := by simpa using hmem
        rw [hsome, hany, Bool.true_or]
    · dsimp only
      rcases stampAll_cases valid s.stamps shard with ⟨-, heq⟩ | ⟨⟨p, hp, hps⟩, -⟩
      · rw [heq, hnone]
      · rw [← hvalid] at hp
        exact absurd ⟨rfl, p, List.mem_of_mem_filter hp, hps⟩ hgrant
  case h_2 t hpersist =>
    obtain ⟨file, heq⟩ := persist_eq _ outcome
    rw [hpersist] at heq
    subst heq
    exact ⟨id, fun _ _ h => h⟩

theorem grants_applyCommitTransitions (inHolderSet : Nat → Bool) (regimeOf : Nat → Nat)
    (outcome : PersistOutcome) :
    s.Grants (s.applyCommitTransitions inHolderSet regimeOf outcome).1 fun _ => False := by
  unfold applyCommitTransitions
  dsimp only
  split
  case isFalse => exact ⟨id, fun _ _ h => h⟩
  split
  case h_1 t hpersist =>
    obtain ⟨file, heq⟩ := persist_eq _ outcome
    rw [hpersist] at heq
    subst heq
    refine ⟨fun _ shard hlt => if_pos hlt, fun shard _ hnone => ?_⟩
    simp [transition, hnone]
  case h_2 t hpersist =>
    obtain ⟨file, heq⟩ := persist_eq _ outcome
    rw [hpersist] at heq
    subst heq
    exact ⟨id, fun _ _ h => h⟩

end

/-- Booting stamps a shard without a stamp only as the master of a shard that never moved. -/
theorem rederived_none {committedMasterIsSelf inHolderSet : Nat → Bool} {regimeOf : Nat → Nat}
    {shard : Nat} (hnone : s.stamps shard = none)
    (hmoved : ¬ (shard < numShards ∧ committedMasterIsSelf shard = true ∧ regimeOf shard = 0)) :
    s.rederived committedMasterIsSelf inHolderSet regimeOf shard = none := by
  unfold rederived
  split
  case isFalse => exact hnone
  case isTrue hlt =>
    rw [hnone, if_neg, if_neg]
    · simp
    · simpa [hlt] using hmoved

theorem grants_bootRederive (s : LineageStore) (committedMasterIsSelf inHolderSet : Nat → Bool)
    (regimeOf : Nat → Nat) (outcome : PersistOutcome) :
    s.Grants (s.bootRederive committedMasterIsSelf inHolderSet regimeOf outcome) fun shard =>
      shard < numShards ∧ committedMasterIsSelf shard = true ∧ regimeOf shard = 0 := by
  have hkept : ∀ shard, ¬ (shard < numShards ∧ committedMasterIsSelf shard = true ∧
      regimeOf shard = 0) → s.stamps shard = none →
      s.rederived committedMasterIsSelf inHolderSet regimeOf shard = none :=
    fun shard hmoved hnone => rederived_none hnone hmoved
  unfold bootRederive
  dsimp only
  generalize s.rederived committedMasterIsSelf inHolderSet regimeOf = next at hkept
  have h : s.Grants { s with
      stamps := next
      fullBits := fun shard =>
        if shard < numShards then
          if (next shard).isSome then true
          else if (s.stamps shard).isSome then false else s.fullBits shard
        else s.fullBits shard } fun shard =>
      shard < numShards ∧ committedMasterIsSelf shard = true ∧ regimeOf shard = 0 := by
    refine ⟨fun hs shard hlt => ?_, hkept⟩
    dsimp only
    rw [if_pos hlt, hs shard hlt]
    cases next shard <;> cases s.stamps shard <;> rfl
  split
  · exact h.persist outcome
  · exact h

end LineageStore

/-! ### Whole runs -/

namespace LineageNode

variable {n : LineageNode}

structure Inv (n : LineageNode) : Prop where
  shadowed : n.store.Shadowed
  unstamped : ∀ shard, n.owes shard = true → shard < numShards ∧ n.store.stamps shard = none

theorem Inv.remembersGaps (h : n.Inv) : n.RemembersGaps := by
  intro shard howes
  obtain ⟨hlt, hnone⟩ := h.unstamped shard howes
  constructor
  · rw [LineageStore.lineage, if_pos hlt, hnone]
  · rw [LineageStore.isFull, h.shadowed shard hlt, hnone]
    simp

/-- An operation that grants nothing to a shard that owes a proof keeps the invariant. -/
theorem Inv.of_grants {m : LineageNode} (h : n.Inv) (hgrants : n.store.Grants m.store granted)
    (howes : ∀ shard, m.owes shard = true → n.owes shard = true ∧ ¬ granted shard) : m.Inv := by
  refine ⟨hgrants.shadowed h.shadowed, fun shard hm => ?_⟩
  obtain ⟨hn, hnot⟩ := howes shard hm
  obtain ⟨hlt, hnone⟩ := h.unstamped shard hn
  exact ⟨hlt, hgrants.kept shard hnot hnone⟩

theorem Inv.step (h : n.Inv) {call : LineageCall} (hhonours : n.Honours call) :
    (n.step call).Inv := by
  unfold LineageNode.step
  cases call with
  | markBaselineGap shards outcome =>
    obtain ⟨hgrants, hhit⟩ := n.store.grants_markBaselineGap shards outcome
    refine ⟨hgrants.shadowed h.shadowed, fun shard howes => ?_⟩
    rw [Bool.or_eq_true, Bool.and_eq_true, decide_eq_true_eq, List.contains_iff_mem] at howes
    rcases howes with ⟨hmem, hlt⟩ | howes
    · exact ⟨hlt, hhit shard hmem hlt⟩
    · obtain ⟨hlt, hnone⟩ := h.unstamped shard howes
      exact ⟨hlt, hgrants.kept shard id hnone⟩
  | markSubset shards outcome =>
    exact h.of_grants (n.store.grants_markSubset shards outcome) fun shard howes => ⟨howes, id⟩
  | markFullMany stamps outcome =>
    refine h.of_grants (n.store.grants_markFullMany stamps outcome) fun shard howes => ?_
    rw [Bool.and_eq_true, Bool.not_eq_true'] at howes
    refine ⟨howes.1, ?_⟩
    rintro ⟨hok, ⟨shard', regime⟩, hp, rfl⟩
    -- A successful stamp at the current regime would have settled the debt.
    have hcurrent : regime = n.committedRegime shard' := hhonours hok _ hp howes.1
    have hsettled := howes.2
    rw [hok, Bool.true_and, ← hcurrent] at hsettled
    exact absurd (List.contains_iff_mem.mpr hp) (by rw [hsettled]; exact nofun)
  | commit inHolderSet regimeOf outcome =>
    have hgrants := n.store.grants_applyCommitTransitions inHolderSet regimeOf outcome
    dsimp only
    generalize n.store.applyCommitTransitions inHolderSet regimeOf outcome = applied at hgrants
    exact h.of_grants hgrants fun shard howes => ⟨howes, id⟩
  | bootRederive committedMasterIsSelf inHolderSet regimeOf outcome =>
    have hgrants := n.store.grants_bootRederive committedMasterIsSelf inHolderSet regimeOf outcome
    dsimp only
    generalize n.store.bootRederive committedMasterIsSelf inHolderSet regimeOf outcome = booted
      at hgrants
    refine h.of_grants hgrants fun shard howes => ⟨howes, fun hgranted => ?_⟩
    exact hhonours shard hgranted.1 howes hgranted.2
  | restart dataEpoch nodeId readable =>
    refine ⟨fun _ _ => rfl, fun shard howes => ?_⟩
    refine ⟨(h.unstamped shard howes).1, ?_⟩
    exact LineageStore.openStore_stamps_none fun f hf hpath hread hepoch hnode =>
      hhonours f hf hpath hread hepoch hnode shard howes

end LineageNode

/-! ### Writes that succeed -/

namespace LineageStore

variable {s t : LineageStore} {dataEpoch nodeId : Nat}

/-- The store has the identity; a file that a restart under it accepts has the store's stamps. -/
structure Synced (dataEpoch nodeId : Nat) (s : LineageStore) : Prop where
  epoch : s.dataEpoch = dataEpoch
  node : s.nodeId = nodeId
  entries : s.hasPath = true → ∀ f, s.file = some f → f.dataEpoch = dataEpoch →
    f.nodeId = nodeId → ∀ shard < numShards, f.entries.lookup shard = s.stamps shard

theorem Synced.congr (h : s.Synced dataEpoch nodeId)
    (hstamps : ∀ shard < numShards, t.stamps shard = s.stamps shard)
    (hsame : (t.hasPath, t.dataEpoch, t.nodeId, t.file) =
      (s.hasPath, s.dataEpoch, s.nodeId, s.file)) : t.Synced dataEpoch nodeId := by
  obtain ⟨hpath, hepoch, hnode, hfile⟩ := by simpa only [Prod.mk.injEq] using hsame
  refine ⟨hepoch.trans h.epoch, hnode.trans h.node, fun hp f hf he hn shard hshard => ?_⟩
  rw [hstamps shard hshard]
  exact h.entries (hpath ▸ hp) f (hfile ▸ hf) he hn shard hshard

theorem Synced.bits (h : s.Synced dataEpoch nodeId) (fullBits baselineGapBits : Nat → Bool) :
    { s with fullBits, baselineGapBits }.Synced dataEpoch nodeId :=
  h.congr (fun _ _ => rfl) rfl

theorem lookup_filterMap (g : Nat → Option Nat) (shards : List Nat) (shard : Nat) :
    (shards.filterMap fun k => (g k).map (k, ·)).lookup shard =
      if shard ∈ shards then g shard else none := by
  induction shards with
  | nil => rfl
  | cons k ks ih =>
    by_cases hk : shard = k
    · subst hk
      cases hg : g shard with
      | none => simp [hg, ih]
      | some regime => simp [hg]
    · cases hg : g k <;> simp [hg, hk, ih, List.lookup_cons, beq_eq_false_iff_ne.mpr hk]

theorem persist_written (s : LineageStore) : (s.persist .written).2 = true := by
  unfold persist
  split <;> rfl

theorem synced_persist (hepoch : s.dataEpoch = dataEpoch) (hnode : s.nodeId = nodeId) :
    (s.persist .written).1.Synced dataEpoch nodeId := by
  unfold persist
  split_ifs with hpath
  · exact ⟨hepoch, hnode, fun hp => absurd hp (by simpa using hpath)⟩
  · refine ⟨hepoch, hnode, fun _ f hf _ _ shard hshard => ?_⟩
    obtain rfl := Option.some.inj hf
    dsimp only [encode]
    rw [lookup_filterMap, if_pos (List.mem_range.mpr hshard)]

theorem eq_of_differs {g g' : Nat → Option Nat} (h : ¬ differs g g' = true) :
    ∀ shard < numShards, g shard = g' shard := by
  simpa [differs] using h

section

variable (h : s.Synced dataEpoch nodeId)
include h

theorem synced_markBaselineGap (shards : List Nat) :
    (s.markBaselineGap shards .written).Synced dataEpoch nodeId := by
  unfold markBaselineGap
  dsimp only
  split_ifs with hchanges
  · exact synced_persist h.epoch h.node
  · refine h.congr (fun shard hshard => ?_) rfl
    dsimp only
    split_ifs with hhit
    · simp only [Bool.and_eq_true, List.contains_iff_mem] at hhit
      by_contra hne
      exact hchanges ⟨shard, hhit.1, hshard, .inl (Option.isSome_iff_ne_none.mpr (Ne.symm hne))⟩
    · rfl

theorem synced_markSubset (shards : List Nat) :
    (s.markSubset shards .written).Synced dataEpoch nodeId := by
  unfold markSubset
  dsimp only
  split_ifs with hchanges
  · exact synced_persist h.epoch h.node
  · refine h.congr (fun shard _ => if_neg fun hhit => hchanges ⟨shard, ?_⟩) rfl
    simpa [List.contains_iff_mem] using hhit

theorem synced_markFullMany (stamps : List (Nat × Nat)) :
    (s.markFullMany stamps .written).1.Synced dataEpoch nodeId := by
  unfold markFullMany
  dsimp only
  split_ifs
  · exact h
  · rw [← Prod.mk.eta (p := LineageStore.persist _ _), persist_written]
    refine Synced.bits ?_ _ _
    exact synced_persist h.epoch h.node

theorem synced_applyCommitTransitions (inHolderSet : Nat → Bool) (regimeOf : Nat → Nat) :
    (s.applyCommitTransitions inHolderSet regimeOf .written).1.Synced dataEpoch nodeId := by
  unfold applyCommitTransitions
  dsimp only
  split_ifs
  · rw [← Prod.mk.eta (p := LineageStore.persist _ _), persist_written]
    refine Synced.bits ?_ _ _
    exact synced_persist h.epoch h.node
  · exact h

theorem synced_bootRederive (committedMasterIsSelf inHolderSet : Nat → Bool)
    (regimeOf : Nat → Nat) : (s.bootRederive committedMasterIsSelf inHolderSet regimeOf
      .written).Synced dataEpoch nodeId := by
  unfold bootRederive
  dsimp only
  split_ifs with hdiffers
  · exact synced_persist h.epoch h.node
  · exact h.congr (eq_of_differs hdiffers) rfl

end

theorem synced_openStore (hasPath : Bool) (dataEpoch nodeId : Nat) (file : Option LineageFile) :
    (openStore hasPath dataEpoch nodeId file true).Synced dataEpoch nodeId := by
  refine ⟨rfl, rfl, fun hpath f hf hepoch hnode shard _ => ?_⟩
  obtain rfl : hasPath = true := hpath
  obtain rfl : file = some f := hf
  simp [openStore, hepoch, hnode]

end LineageStore

namespace LineageNode

variable {n : LineageNode} {call : LineageCall} {dataEpoch nodeId : Nat}

/-- The write of the call succeeds, and a restart is under the identity and finds the file. -/
def Written (dataEpoch nodeId : Nat) : LineageCall → Prop
  | .markBaselineGap _ outcome | .markSubset _ outcome | .markFullMany _ outcome
  | .commit _ _ outcome | .bootRederive _ _ _ outcome => outcome = .written
  | .restart epoch node readable => (epoch, node, readable) = (dataEpoch, nodeId, true)

theorem synced_step (h : n.store.Synced dataEpoch nodeId) (hcall : Written dataEpoch nodeId call) :
    (n.step call).store.Synced dataEpoch nodeId := by
  unfold LineageNode.step
  cases call with
  | markBaselineGap shards =>
    cases hcall
    exact LineageStore.synced_markBaselineGap h shards
  | markSubset shards =>
    cases hcall
    exact LineageStore.synced_markSubset h shards
  | markFullMany stamps =>
    cases hcall
    exact LineageStore.synced_markFullMany h stamps
  | commit inHolderSet regimeOf =>
    cases hcall
    dsimp only
    exact LineageStore.synced_applyCommitTransitions h inHolderSet regimeOf
  | bootRederive committedMasterIsSelf inHolderSet regimeOf =>
    cases hcall
    dsimp only
    exact LineageStore.synced_bootRederive h committedMasterIsSelf inHolderSet regimeOf
  | restart =>
    cases hcall
    exact LineageStore.synced_openStore _ dataEpoch nodeId n.store.file

/-- What `Honours` asks of a call other than a restart. -/
def HonoursLive (n : LineageNode) : LineageCall → Prop
  | .restart .. => True
  | call => n.Honours call

theorem honours_of_live (h : n.Inv) (hsync : n.store.Synced dataEpoch nodeId)
    (hcall : Written dataEpoch nodeId call) (hlive : n.HonoursLive call) : n.Honours call := by
  cases call with
  | restart =>
    cases hcall
    intro f hf hpath _ hepoch hnode shard howes
    obtain ⟨hlt, hnone⟩ := h.unstamped shard howes
    rw [hsync.entries hpath f hf hepoch hnode shard hlt, hnone]
  | _ => exact hlive

/-- When every write succeeds under one identity, no restart finds a `Full` entry of a shard that
owes a proof. -/
theorem guarded_honours_of_written {calls : List LineageCall} (h : n.Inv)
    (hsync : n.store.Synced dataEpoch nodeId) (hcalls : ∀ c ∈ calls, Written dataEpoch nodeId c)
    (hlive : Guarded step HonoursLive n calls) : Guarded step Honours n calls := by
  induction calls generalizing n with
  | nil => trivial
  | cons call calls ih =>
    obtain ⟨hcall, hcalls⟩ := List.forall_mem_cons.mp hcalls
    have hhonours := honours_of_live h hsync hcall hlive.1
    exact ⟨hhonours, ih (h.step hhonours) (synced_step hsync hcall) hcalls hlive.2⟩

def boot (hasPath : Bool) (dataEpoch nodeId : Nat) (file : Option LineageFile)
    (committedRegime : Nat → Nat) : LineageNode :=
  ⟨LineageStore.openStore hasPath dataEpoch nodeId file true, committedRegime, fun _ => false⟩

theorem inv_boot (hasPath : Bool) (dataEpoch nodeId : Nat) (file : Option LineageFile)
    (committedRegime : Nat → Nat) : (boot hasPath dataEpoch nodeId file committedRegime).Inv :=
  ⟨fun _ _ => rfl, nofun⟩

theorem remembersGaps_of_honours (hasPath : Bool) (dataEpoch nodeId : Nat)
    (file : Option LineageFile) (committedRegime : Nat → Nat) (calls : List LineageCall)
    (h : Guarded step Honours (boot hasPath dataEpoch nodeId file committedRegime) calls) :
    (run step (boot hasPath dataEpoch nodeId file committedRegime) calls).RemembersGaps :=
  (h.invariant (fun _ _ hn hcall => hn.step hcall) (inv_boot ..)).remembersGaps

/-- A gap is recorded and the topology moves on. The node restarts, boots as the master of the
shard, and still owes the proof. -/
theorem remembersGaps_demo :
    let n := run step (boot true 1 1 none fun _ => 0)
      [.markBaselineGap [5] .written, .commit (fun _ => true) (fun _ => 3) .written,
        .restart 1 1 true, .bootRederive (fun _ => true) (fun _ => true) (fun _ => 3) .written]
    n.owes 5 = true ∧ n.RemembersGaps := by
  refine ⟨by decide, remembersGaps_of_honours true 1 1 none (fun _ => 0) _ ?_⟩
  refine guarded_honours_of_written (inv_boot ..) (LineageStore.synced_openStore true 1 1 none)
    (by simp [Written]) ⟨trivial, trivial, trivial, ?_, trivial⟩
  exact fun _ _ _ h => absurd h.2 (by simp)

/-- The node is the committed master of a shard whose regime is 0: booting stamps it `Full`
whatever gap was recorded. -/
theorem gap_forgotten_at_boot :
    ¬ (run step (boot false 1 1 none fun _ => 0)
      [.markBaselineGap [5] .written,
        .bootRederive (fun _ => true) (fun _ => true) (fun _ => 0) .written]).RemembersGaps := by
  intro h
  have hfull := (h 5 (by decide)).1
  revert hfull
  decide +kernel

end LineageNode

end TeraSlab.Cluster
