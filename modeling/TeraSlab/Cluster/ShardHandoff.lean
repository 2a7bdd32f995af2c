import Mathlib.Data.List.Sort
import Mathlib.Tactic
import TeraSlab.Cluster.Lineage

/-!
# Handing shards over to new masters

A topology change computes a new shard table and begins a handoff: a shard whose master moves is
served by the old assignment until its copy is committed or rolled back. The new handoff takes the
target assignments of the table as the old ones, also those of shards that are still being copied.

The ghost set of a shard has the nodes that are known to hold its complete data.
-/

namespace TeraSlab.Cluster

abbrev NodeId := UInt64

abbrev Shard := Fin numShards

structure ShardAssignment where
  master : NodeId
  replicas : List NodeId

namespace ShardAssignment

/-- The override of a committed regime: a replica changes places with the master, any other node
puts the old master behind the replicas. -/
def overrideMaster (current : ShardAssignment) (master : NodeId) : ShardAssignment :=
  if current.master = master then current
  else match current.replicas.findIdx? (· = master) with
    | some pos => ⟨master, current.replicas.set pos current.master⟩
    | none =>
      ⟨master, if current.master ∈ current.replicas then current.replicas
        else current.replicas ++ [current.master]⟩

end ShardAssignment

/-! ### Placement -/

def w6Seed : UInt64 := 0x5EEDC0DE13579BDF

def hrwWeight (shard : Shard) (node : NodeId) : UInt64 :=
  let x := w6Seed ^^^ (UInt64.ofNat shard <<< 48) ^^^ (node * 0x9E3779B97F4A7C15)
  let x := (x ^^^ (x >>> 30)) * 0xBF58476D1CE4E5B9
  let x := (x ^^^ (x >>> 27)) * 0x94D049BB133111EB
  x ^^^ (x >>> 31)

/-- What a shard table is computed from: the members, of which there is at least one, the
replication factor, the placement version and the committed overrides. -/
structure Placement where
  members : List NodeId
  members_ne_nil : members ≠ []
  replicationFactor : UInt8
  placementVersion : UInt16
  overrideMap : List (Shard × NodeId)

namespace Placement

variable (p : Placement) (shard : Shard)

/-- Version 1: round robin over the sorted members. -/
def roundRobin : ShardAssignment :=
  let members := p.members.insertionSort (· ≤ ·)
  let n := members.length
  let master := members.getD (shard % n) 0
  ⟨master, ((List.range' 1 (min p.replicationFactor.toNat n - 1)).map fun r =>
    members.getD ((shard + r) % n) 0).filter (· ≠ master)⟩

/-- Version 2: the members by descending weight, ties by ascending id. -/
def rendezvous : ShardAssignment :=
  let ranked := (p.members.map fun node => (hrwWeight shard node, node)).insertionSort fun a b =>
    b.1 < a.1 ∨ b.1 = a.1 ∧ a.2 ≤ b.2
  let nodes := ranked.map Prod.snd
  ⟨nodes.headD 0, (nodes.drop 1).take (p.replicationFactor.toNat - 1)⟩

def computeWithEpoch : ShardAssignment :=
  if 2 ≤ p.placementVersion then p.rendezvous shard else p.roundRobin shard

/-- The assignment of the shard in the computed table, refined by the overrides. -/
def assignment : ShardAssignment :=
  p.overrideMap.foldl (fun a o => if o.1 = shard then a.overrideMaster o.2 else a)
    (p.computeWithEpoch shard)

end Placement

/-! ### The shard table -/

inductive HandoffState where
  | servingCurrent
  | copying
  | commitReady
  | servingNew
deriving DecidableEq

structure ShardTable where
  assignments : Shard → ShardAssignment
  prevAssignments : Option (Shard → ShardAssignment)
  handoffState : Option (Shard → HandoffState)
  masterSubset : Shard → Bool

namespace ShardTable

variable (t : ShardTable)

def compute (p : Placement) : ShardTable := ⟨p.assignment, none, none, fun _ => false⟩

def isSubsetMaster (shard : Shard) : Bool := t.masterSubset shard

def shardHandoffState (shard : Shard) : HandoffState :=
  match t.handoffState with
  | some hs => hs shard
  | none => .servingNew

def effectiveAssignment (shard : Shard) : ShardAssignment :=
  match t.handoffState, t.prevAssignments with
  | some hs, some prev => if hs shard = .servingNew then t.assignments shard else prev shard
  | _, _ => t.assignments shard

def Moves (new : ShardTable) (shard : Shard) : Prop :=
  (t.assignments shard).master ≠ (new.assignments shard).master

instance (new : ShardTable) (shard : Shard) : Decidable (t.Moves new shard) :=
  inferInstanceAs (Decidable (_ ≠ _))

/-- `begin_handoff` takes every shard to have data. -/
def beginHandoffWith (new : ShardTable) (shardHasData : Shard → Bool) : ShardTable :=
  let copied := fun shard => t.Moves new shard ∧ shardHasData shard = true
  if ∀ shard, ¬copied shard then ⟨new.assignments, none, none, fun _ => false⟩
  else
    ⟨new.assignments, some t.assignments,
      some fun shard => if copied shard then .copying else .servingNew,
      fun shard => t.Moves new shard⟩

def clearIfServing : ShardTable :=
  match t.handoffState with
  | some hs =>
    if ∀ shard, hs shard = .servingNew then { t with prevAssignments := none, handoffState := none }
    else t
  | none => t

def commitShard (shard : Shard) : ShardTable :=
  clearIfServing { t with
    masterSubset := Function.update t.masterSubset shard false
    handoffState := t.handoffState.map fun hs => Function.update hs shard .servingNew }

def markCommitReady (shard : Shard) : ShardTable :=
  { t with handoffState := t.handoffState.map fun hs =>
      if hs shard = .copying then Function.update hs shard .commitReady else hs }

def rollbackShard (shard : Shard) : ShardTable :=
  match t.prevAssignments, t.handoffState with
  | some prev, some hs =>
    if hs shard = .servingNew then t.clearIfServing
    else clearIfServing { t with
      assignments := Function.update t.assignments shard (prev shard)
      handoffState := some (Function.update hs shard .servingNew)
      masterSubset := Function.update t.masterSubset shard false }
  | _, _ => t

variable {t} {shard other : Shard}

theorem effectiveAssignment_eq :
    t.effectiveAssignment shard =
      if t.shardHandoffState shard = .servingNew then t.assignments shard
      else t.prevAssignments.getD t.assignments shard := by
  unfold effectiveAssignment shardHandoffState
  cases t.handoffState <;> cases t.prevAssignments <;> simp

theorem effectiveAssignment_of_serving (h : t.shardHandoffState shard = .servingNew) :
    t.effectiveAssignment shard = t.assignments shard := by
  rw [effectiveAssignment_eq, if_pos h]

/-- What routing and rollback see of a shard. -/
structure SameShard (t u : ShardTable) (shard : Shard) : Prop where
  serving : u.shardHandoffState shard = .servingNew ↔ t.shardHandoffState shard = .servingNew
  effective : u.effectiveAssignment shard = t.effectiveAssignment shard
  subset : u.isSubsetMaster shard = t.isSubsetMaster shard

theorem SameShard.trans {u v : ShardTable} (h₁ : SameShard t u shard) (h₂ : SameShard u v shard) :
    SameShard t v shard :=
  ⟨h₂.serving.trans h₁.serving, h₂.effective.trans h₁.effective, h₂.subset.trans h₁.subset⟩

theorem clearIfServing_same : SameShard t t.clearIfServing shard := by
  unfold clearIfServing
  split
  case h_2 => exact ⟨Iff.rfl, rfl, rfl⟩
  case h_1 hs hstate =>
    split_ifs with hall
    · have hserving : t.shardHandoffState shard = .servingNew := by
        simp [shardHandoffState, hstate, hall]
      exact ⟨⟨fun _ => hserving, fun _ => rfl⟩, (effectiveAssignment_of_serving hserving).symm, rfl⟩
    · exact ⟨Iff.rfl, rfl, rfl⟩

/-- Changing only the handoff state of a shard between states that both serve or both do not serve
the new assignment is not seen. -/
theorem handoffState_same {hs : Option (Shard → HandoffState)} {subset : Shard → Bool}
    (hserving : shardHandoffState { t with handoffState := hs } shard = .servingNew ↔
      t.shardHandoffState shard = .servingNew) (hsubset : subset shard = t.masterSubset shard) :
    SameShard t { t with handoffState := hs, masterSubset := subset } shard := by
  refine ⟨hserving, ?_, hsubset⟩
  rw [effectiveAssignment_eq, effectiveAssignment_eq]
  exact if_congr hserving rfl rfl

theorem markCommitReady_same : SameShard t (t.markCommitReady other) shard := by
  refine handoffState_same ?_ rfl
  cases hs : t.handoffState with
  | none => simp [shardHandoffState, hs]
  | some state =>
    simp only [shardHandoffState, hs, Option.map_some]
    split_ifs with hcopying
    · by_cases heq : shard = other
      · simp [heq, hcopying]
      · simp [heq]
    · rfl

theorem commitShard_self :
    (t.commitShard shard).shardHandoffState shard = .servingNew ∧
      (t.commitShard shard).effectiveAssignment shard = t.assignments shard := by
  have hserving : shardHandoffState { t with
      masterSubset := Function.update t.masterSubset shard false
      handoffState := t.handoffState.map fun hs => Function.update hs shard .servingNew } shard =
      .servingNew := by
    cases hs : t.handoffState <;> simp [shardHandoffState]
  exact ⟨clearIfServing_same.serving.mpr hserving,
    clearIfServing_same.effective.trans (effectiveAssignment_of_serving hserving)⟩

theorem commitShard_same (h : shard ≠ other) : SameShard t (t.commitShard other) shard := by
  refine .trans (handoffState_same ?_ (by simp [h])) clearIfServing_same
  cases hs : t.handoffState <;> simp [shardHandoffState, hs, h]

section

variable (t) (new : ShardTable) (shardHasData : Shard → Bool) (shard) (other)

/-- A rollback changes nothing of a shard that routing sees, except that a shard in handoff stays
with the old assignment for good. -/
theorem rollbackShard_cases : SameShard t (t.rollbackShard other) shard ∨
      t.shardHandoffState shard ≠ .servingNew ∧
      (t.rollbackShard other).shardHandoffState shard = .servingNew ∧
      (t.rollbackShard other).effectiveAssignment shard = t.effectiveAssignment shard := by
  unfold rollbackShard
  split
  case h_2 => exact .inl ⟨Iff.rfl, rfl, rfl⟩
  case h_1 prev hs hprev hstate =>
    split_ifs with hserving
    · exact .inl clearIfServing_same
    by_cases heq : shard = other
    · subst heq
      refine .inr ⟨by simpa [shardHandoffState, hstate] using hserving,
        clearIfServing_same.serving.mpr (by simp [shardHandoffState]), ?_⟩
      rw [clearIfServing_same.effective]
      simp [effectiveAssignment, hprev, hstate, hserving]
    · refine .inl (.trans ⟨?_, ?_, ?_⟩ clearIfServing_same)
      · simp [shardHandoffState, hstate, heq]
      · simp [effectiveAssignment, hprev, hstate, heq]
      · simp [isSubsetMaster, heq]

theorem beginHandoffWith_cases : (∀ s, t.Moves new s → shardHasData s = false) ∧
      t.beginHandoffWith new shardHasData = ⟨new.assignments, none, none, fun _ => false⟩ ∨
    ¬(∀ s, t.Moves new s → shardHasData s = false) ∧
      t.beginHandoffWith new shardHasData = ⟨new.assignments, some t.assignments,
        some fun s => if t.Moves new s ∧ shardHasData s = true then .copying else .servingNew,
        fun s => t.Moves new s⟩ := by
  have hiff : (∀ s, ¬(t.Moves new s ∧ shardHasData s = true)) ↔
      ∀ s, t.Moves new s → shardHasData s = false := by
    simp only [not_and, Bool.not_eq_true]
  unfold beginHandoffWith
  by_cases h : ∀ s, t.Moves new s → shardHasData s = false
  · exact .inl ⟨h, if_pos (hiff.mpr h)⟩
  · exact .inr ⟨h, if_neg (mt hiff.mp h)⟩

/-- Beginning the same handoff once more drops the one that runs. -/
theorem beginHandoffWith_repeated :
    (t.beginHandoffWith new shardHasData).beginHandoffWith new shardHasData =
      ⟨new.assignments, none, none, fun _ => false⟩ := by
  have hassign : (t.beginHandoffWith new shardHasData).assignments = new.assignments := by
    rcases beginHandoffWith_cases t new shardHasData with ⟨-, h⟩ | ⟨-, h⟩ <;> rw [h]
  have hstay : ∀ shard, ¬(t.beginHandoffWith new shardHasData).Moves new shard := by
    intro shard hmoves
    exact hmoves (by rw [hassign])
  rcases beginHandoffWith_cases (t.beginHandoffWith new shardHasData) new shardHasData with
    ⟨-, h⟩ | ⟨h, -⟩
  · exact h
  · exact absurd (fun shard hmoves => absurd hmoves (hstay shard)) h

end

end ShardTable

/-! ### Who holds a shard -/

/-- A shard table with the nodes known to hold the complete data of each shard. -/
structure TrackedTable where
  table : ShardTable
  holders : Shard → Finset NodeId

inductive HandoffStep where
  | beginHandoffWith (p : Placement) (shardHasData : Shard → Bool)
  | markCommitReady (shard : Shard)
  | commitShard (shard : Shard)
  | rollbackShard (shard : Shard)

namespace TrackedTable

def init (p : Placement) : TrackedTable :=
  ⟨.compute p, fun shard => {(p.assignment shard).master}⟩

def step (t : TrackedTable) : HandoffStep → TrackedTable
  | .beginHandoffWith p shardHasData =>
    { t with table := t.table.beginHandoffWith (.compute p) shardHasData }
  | .markCommitReady shard => { t with table := t.table.markCommitReady shard }
  | .commitShard shard =>
    ⟨t.table.commitShard shard, Function.update t.holders shard
      (insert (t.table.assignments shard).master (t.holders shard))⟩
  | .rollbackShard shard => { t with table := t.table.rollbackShard shard }

/-- A shard that is not waiting for data is served by a node that holds all of it. -/
def ServedByHolder (t : TrackedTable) : Prop :=
  ∀ shard, t.table.isSubsetMaster shard = false →
    (t.table.effectiveAssignment shard).master ∈ t.holders shard

/-- A handoff begins only when the target masters it takes for old ones hold their shards. It
takes them so for shards that keep their master and for shards that are to be copied, and only
those of shards in handoff or still waiting for data are in doubt. A handoff that copies nothing
moves shards to holders only. -/
def TargetsHeld (t : TrackedTable) : HandoffStep → Prop
  | .beginHandoffWith p shardHasData =>
    (∀ shard, t.table.shardHandoffState shard ≠ .servingNew ∨ t.table.isSubsetMaster shard = true →
      ¬t.table.Moves (.compute p) shard ∨ shardHasData shard = true →
      (t.table.assignments shard).master ∈ t.holders shard) ∧
    ((∀ shard, t.table.Moves (.compute p) shard → shardHasData shard = false) →
      ∀ shard, t.table.Moves (.compute p) shard → (p.assignment shard).master ∈ t.holders shard)
  | _ => True

def Inv (t : TrackedTable) : Prop :=
  ∀ shard, t.table.shardHandoffState shard ≠ .servingNew ∨ t.table.isSubsetMaster shard = false →
    (t.table.effectiveAssignment shard).master ∈ t.holders shard

theorem inv_init (p : Placement) : (init p).Inv := by
  intro shard _
  exact Finset.mem_singleton_self _

theorem inv_of_same {t u : ShardTable} {shard : Shard} {holders : Finset NodeId}
    (hsame : ShardTable.SameShard t u shard)
    (h : t.shardHandoffState shard ≠ .servingNew ∨ t.isSubsetMaster shard = false →
      (t.effectiveAssignment shard).master ∈ holders)
    (hu : u.shardHandoffState shard ≠ .servingNew ∨ u.isSubsetMaster shard = false) :
    (u.effectiveAssignment shard).master ∈ holders := by
  rw [hsame.effective]
  rw [ne_eq, hsame.serving, hsame.subset] at hu
  exact h hu

variable {t : TrackedTable}

theorem Inv.beginHandoffWith (h : t.Inv) {p : Placement} {shardHasData : Shard → Bool}
    (hheld : t.TargetsHeld (.beginHandoffWith p shardHasData)) :
    (t.step (.beginHandoffWith p shardHasData)).Inv := by
  -- the masters that are taken for old ones hold their shards
  have hold : ∀ shard, ¬t.table.Moves (.compute p) shard ∨ shardHasData shard = true →
      (t.table.assignments shard).master ∈ t.holders shard := by
    intro shard hused
    by_cases hdoubt : t.table.shardHandoffState shard ≠ .servingNew ∨
        t.table.isSubsetMaster shard = true
    · exact hheld.1 shard hdoubt hused
    rw [not_or, not_not, Bool.not_eq_true] at hdoubt
    rw [← ShardTable.effectiveAssignment_of_serving hdoubt.1]
    exact h shard (.inr hdoubt.2)
  intro shard
  have hstay : ¬t.table.Moves (.compute p) shard →
      ((ShardTable.compute p).assignments shard).master ∈ t.holders shard := by
    intro hstay
    rw [← show (t.table.assignments shard).master = _ from not_not.mp hstay]
    exact hold shard (.inl hstay)
  simp only [step]
  rcases ShardTable.beginHandoffWith_cases t.table (.compute p) shardHasData with
    ⟨hnone, heq⟩ | ⟨-, heq⟩
  · intro _
    rw [heq]
    by_cases hmoves : t.table.Moves (.compute p) shard
    · exact hheld.2 hnone shard hmoves
    · exact hstay hmoves
  · rw [heq]
    intro hseen
    by_cases hcopied : t.table.Moves (.compute p) shard ∧ shardHasData shard = true
    · simpa [ShardTable.effectiveAssignment, hcopied] using hold shard (.inr hcopied.2)
    have hmoves : ¬t.table.Moves (.compute p) shard := by
      simpa [ShardTable.shardHandoffState, ShardTable.isSubsetMaster, hcopied] using hseen
    simpa [ShardTable.effectiveAssignment, hcopied] using hstay hmoves

theorem Inv.step (h : t.Inv) {i : HandoffStep} (hheld : t.TargetsHeld i) : (t.step i).Inv := by
  cases i with
  | beginHandoffWith p shardHasData => exact h.beginHandoffWith hheld
  | markCommitReady other =>
    intro shard
    exact inv_of_same ShardTable.markCommitReady_same (h shard)
  | commitShard other =>
    intro shard hseen
    by_cases heq : shard = other
    · subst heq
      simp [TrackedTable.step, ShardTable.commitShard_self.2]
    · simpa [TrackedTable.step, heq] using
        inv_of_same (ShardTable.commitShard_same heq) (h shard) hseen
  | rollbackShard other =>
    intro shard hseen
    rcases ShardTable.rollbackShard_cases t.table shard other with
      hsame | ⟨hpending, -, heq⟩
    · exact inv_of_same hsame (h shard) hseen
    · rw [show (t.step (.rollbackShard other)).table.effectiveAssignment shard = _ from heq]
      exact h shard (.inl hpending)

theorem servedByHolder_of_targetsHeld (p : Placement) (steps : List HandoffStep)
    (hsteps : Foundations.Guarded TrackedTable.step TargetsHeld (init p) steps) :
    (Foundations.run TrackedTable.step (init p) steps).ServedByHolder := by
  have hinv := hsteps.invariant (I := Inv) (fun _ _ hs hg => hs.step hg) (inv_init p)
  intro shard hsubset
  exact hinv shard (.inr hsubset)

/-- Node 2 joins node 1. Shard 1 is committed and shard 3 rolled back. -/
theorem servedByHolder_join :
    (Foundations.run TrackedTable.step (init ⟨[1], by decide, 1, 1, []⟩)
      [.beginHandoffWith ⟨[2, 1], by decide, 1, 1, []⟩ fun _ => true,
        .markCommitReady ⟨1, by decide⟩, .commitShard ⟨1, by decide⟩,
        .rollbackShard ⟨3, by decide⟩]).ServedByHolder := by
  refine servedByHolder_of_targetsHeld _ _ ⟨⟨?_, ?_⟩, trivial, trivial, trivial, trivial⟩
  · rintro shard (h | h)
    · exact absurd rfl h
    · cases h
  · intro hnone shard hmoves
    exact absurd (hnone shard hmoves) Bool.true_eq_false.mp

/-- The topology with node 2 is activated once more while shard 1 is being copied: the handoff
that runs is dropped, and node 2 serves the shard without its data. -/
theorem repeated_activation_serves_early :
    ¬(Foundations.run TrackedTable.step (init ⟨[1], by decide, 1, 1, []⟩)
      [.beginHandoffWith ⟨[2, 1], by decide, 1, 1, []⟩ fun _ => true,
        .beginHandoffWith ⟨[2, 1], by decide, 1, 1, []⟩ fun _ => true]).ServedByHolder := by
  intro h
  have hserved := h ⟨1, by decide⟩
  simp only [Foundations.run_cons, Foundations.run_nil, step,
    ShardTable.beginHandoffWith_repeated] at hserved
  exact absurd (hserved rfl) (by decide)

end TrackedTable

end TeraSlab.Cluster
