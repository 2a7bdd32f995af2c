import TeraSlab.Cluster.ShardHandoff

/-!
# The quorum of a replicated write

`build_replication_targets` resolves the nodes that are to get the ops of each key of a batch.
`replicate_all_ops_with_barrier` sends to all of them and judges the acks key by key. A batch is
modelled by its keys: the ops of a key go to all targets of the key alike. How each send ends, the
admission permit and the local fsync are inputs.
-/

namespace TeraSlab.Replication

open Cluster

/-- What the fan-out reads of the cluster. -/
structure ClusterView (A : Type*) where
  selfId : NodeId
  replicationFactor : Nat
  targetAssignment : Nat → ShardAssignment
  nodeAddr : NodeId → Option A
  /-- the new side of an open outbound window of a shard -/
  dualWriteTargets : Nat → List NodeId

inductive AckPolicy where
  | writeAll
  | writeMajority
deriving DecidableEq

/-- The acks a write needs from its replica targets. The local copy is one more copy. -/
def requiredReplicaAcks (replicaTargets : Nat) : AckPolicy → Nat
  | .writeAll => replicaTargets
  | .writeMajority => (replicaTargets + 1) / 2 + 1 - 1

inductive TargetError where
  | replicaCount (shard found expected : Nat)
  | replicaAddress (shard : Nat) (node : NodeId)
  | masterAddress (shard : Nat) (node : NodeId)

inductive ReplicationOutcome where
  | notApplicable
  | full
  | degraded

inductive FanoutError (κ : Type*) where
  | resolution (errors : List TargetError)
  | noTargets (replicationFactor : Nat)
  | admission
  | localDurability
  | handoff (shard targets : Nat)
  | quorum (key : κ) (required acked targets : Nat)

inductive KeyVerdict where
  | durable
  | failed (required acked targets : Nat)
  | degradedBestEffort (acked targets : Nat)

/-- What happens to a fan-out, and the policy it is judged by. -/
structure Fanout (A : Type*) where
  sendOk : A → Bool
  permit : Bool
  localDurable : Bool
  ackPolicy : Option AckPolicy
  bestEffort : Bool

variable {A κ : Type*} [DecidableEq A]

def pushNew (acc : List A) (a : A) : List A := if a ∈ acc then acc else acc ++ [a]

namespace ClusterView

variable (v : ClusterView A) (shard : Nat)

def holders : List NodeId :=
  (v.targetAssignment shard).replicas ++ [(v.targetAssignment shard).master]

def others : List NodeId := (v.holders shard).filter (· ≠ v.selfId)

/-- The addresses of the replicas, then of the master, each once. -/
def regularTargets : List A := ((v.others shard).filterMap v.nodeAddr).foldl pushNew []

/-- The addresses of the new side of the shard's open window. A node without a known address is
left out: the migration stream will reach it. -/
def handoffTargets : List A :=
  ((v.dualWriteTargets shard).filter (· ≠ v.selfId)).filterMap v.nodeAddr

/-- The addresses of new-side nodes that are no holders. -/
def dualWriteOnly : List A :=
  ((v.dualWriteTargets shard).filter fun n =>
    n ≠ v.selfId && !(n = (v.targetAssignment shard).master ||
      (v.targetAssignment shard).replicas.contains n)).filterMap v.nodeAddr

/-- The errors of a key of the shard; a missing address counts only with replication. -/
def targetErrors : List TargetError :=
  let a := v.targetAssignment shard
  if v.replicationFactor ≤ 1 then []
  else if a.replicas.length < v.replicationFactor - 1 then
    [.replicaCount shard a.replicas.length (v.replicationFactor - 1)]
  else
    (a.replicas.filter fun n => n ≠ v.selfId && (v.nodeAddr n).isNone).map
        (.replicaAddress shard) ++
      ([a.master].filter fun n => n ≠ v.selfId && (v.nodeAddr n).isNone).map (.masterAddress shard)

def keyAddrs : List A := v.regularTargets shard ++ v.dualWriteOnly shard

variable (shardForKey : κ → Nat)

def byAddr (keys : List κ) : List (A × κ) :=
  keys.flatMap fun key => (v.keyAddrs (shardForKey key)).map (·, key)

def acked (keys : List κ) (env : Fanout A) (a : A) : Bool :=
  (v.byAddr shardForKey keys).any (·.1 = a) && env.sendOk a

end ClusterView

def classifyPerKeyReplication (targets : List A) (acked : A → Bool) (policy : Option AckPolicy)
    (bestEffort : Bool) : KeyVerdict :=
  if targets.isEmpty then .durable
  else
    let keyAcks := (targets.filter acked).length
    if bestEffort then
      if keyAcks = 0 then .degradedBestEffort keyAcks targets.length else .durable
    else
      let required := (policy.map (requiredReplicaAcks targets.length)).getD 0
      if required ≤ keyAcks then .durable else .failed required keyAcks targets.length

def judgeKeys (targets : κ → List A) (acked : A → Bool) (env : Fanout A) :
    List κ → Bool → Except (FanoutError κ) ReplicationOutcome
  | [], degraded => .ok (if degraded then .degraded else .full)
  | key :: keys, degraded =>
    match classifyPerKeyReplication (targets key) acked env.ackPolicy env.bestEffort with
    | .durable => judgeKeys targets acked env keys degraded
    | .degradedBestEffort .. => judgeKeys targets acked env keys true
    | .failed required acked targets => .error (.quorum key required acked targets)

def replicateAllOps (v : ClusterView A) (shardForKey : κ → Nat) (keys : List κ) (env : Fanout A) :
    Except (FanoutError κ) ReplicationOutcome :=
  let errors := keys.flatMap fun key => v.targetErrors (shardForKey key)
  let acked := v.acked shardForKey keys env
  if keys.isEmpty then .ok .notApplicable
  else if !errors.isEmpty then .error (.resolution errors)
  else if (v.byAddr shardForKey keys).isEmpty then
    if 1 < v.replicationFactor then .error (.noTargets v.replicationFactor)
    else .ok .notApplicable
  else if !env.permit then .error .admission
  else if !env.localDurable then .error .localDurability
  else
    -- a shard with an open window needs an ack of its new side
    match (keys.map shardForKey).find? fun shard =>
      !(v.handoffTargets shard).isEmpty && !(v.handoffTargets shard).any acked &&
        !env.bestEffort with
    | some shard => .error (.handoff shard (v.handoffTargets shard).length)
    | none => judgeKeys (fun key => v.regularTargets (shardForKey key)) acked env keys false

/-! ### What a full outcome says -/

theorem foldl_pushNew (xs acc : List A) (h : acc.Nodup) :
    (xs.foldl pushNew acc).Nodup ∧ ∀ a, a ∈ xs.foldl pushNew acc ↔ a ∈ acc ∨ a ∈ xs := by
  induction xs generalizing acc with
  | nil => simp [h]
  | cons x xs ih =>
    have hnodup : (pushNew acc x).Nodup := by
      unfold pushNew
      split_ifs with hx
      · exact h
      · exact List.nodup_append.mpr ⟨h, List.nodup_singleton x, by grind⟩
    obtain ⟨hn, hmem⟩ := ih (pushNew acc x) hnodup
    refine ⟨hn, fun a => ?_⟩
    rw [List.foldl_cons, hmem]
    unfold pushNew
    split_ifs with hx <;> grind

omit [DecidableEq A] in
theorem judgeKeys_full {targets : κ → List A} {acked : A → Bool} {env : Fanout A} {keys : List κ}
    {degraded : Bool} (hstrict : env.bestEffort = false)
    (h : judgeKeys targets acked env keys degraded = .ok .full) {key : κ} (hkey : key ∈ keys) :
    (env.ackPolicy.map (requiredReplicaAcks (targets key).length)).getD 0 ≤
      ((targets key).filter acked).length ∨ targets key = [] := by
  induction keys generalizing degraded with
  | nil => cases hkey
  | cons k ks ih =>
    unfold judgeKeys at h
    split at h
    next hverdict =>
      rcases List.mem_cons.mp hkey with rfl | hmem
      · unfold classifyPerKeyReplication at hverdict
        grind
      · exact ih h hmem
    next hverdict =>
      unfold classifyPerKeyReplication at hverdict
      grind
    next => cases h

namespace ClusterView

variable {v : ClusterView A} {shard : Nat} {shardForKey : κ → Nat} {keys : List κ}
  {env : Fanout A} {key : κ}

/-- A node holds a key's write: this node does, and one that acked a send with the key's ops. -/
def Holds (v : ClusterView A) (shardForKey : κ → Nat) (env : Fanout A) (key : κ)
    (n : NodeId) : Prop :=
  n = v.selfId ∨ ∃ a ∈ v.keyAddrs (shardForKey key), v.nodeAddr n = some a ∧ env.sendOk a = true

instance (n : NodeId) : Decidable (v.Holds shardForKey env key n) :=
  inferInstanceAs (Decidable (_ ∨ _))

def copies (v : ClusterView A) (shard : Nat) : Finset NodeId :=
  insert v.selfId (v.holders shard).toFinset

theorem nodup_regularTargets : (v.regularTargets shard).Nodup :=
  (foldl_pushNew _ [] List.nodup_nil).1

theorem mem_regularTargets {a : A} :
    a ∈ v.regularTargets shard ↔ ∃ n ∈ v.others shard, v.nodeAddr n = some a := by
  rw [regularTargets, (foldl_pushNew _ [] List.nodup_nil).2]
  simp

theorem of_full (hstrict : env.bestEffort = false)
    (h : replicateAllOps v shardForKey keys env = .ok .full) (hkey : key ∈ keys) :
    v.targetErrors (shardForKey key) = [] ∧
      (v.handoffTargets (shardForKey key) ≠ [] →
        ∃ a ∈ v.handoffTargets (shardForKey key), v.acked shardForKey keys env a = true) ∧
      judgeKeys (fun key => v.regularTargets (shardForKey key)) (v.acked shardForKey keys env) env
        keys false = .ok .full := by
  unfold replicateAllOps at h
  dsimp only at h
  split_ifs at h with hempty herrors hnone hrf hpermit hlocal
  any_goals cases h
  split at h
  next => cases h
  next hgate =>
    refine ⟨?_, fun hne => ?_, h⟩
    · have hnil : ∀ key ∈ keys, v.targetErrors (shardForKey key) = [] := by simpa using herrors
      exact hnil key hkey
    · have hshard := List.find?_eq_none.mp hgate _ (List.mem_map_of_mem hkey)
      simpa [hstrict, hne] using hshard

omit [DecidableEq A] in
theorem exists_addr {p : A → Bool} {o : Option A} (h : o.any p = true) :
    ∃ a, o = some a ∧ p a = true := by
  cases o with
  | none => cases h
  | some a => exact ⟨a, rfl, h⟩

theorem length_acked (hinj : ∀ m n a, v.nodeAddr m = some a → v.nodeAddr n = some a → m = n)
    (shard : Nat) (p : A → Bool) : ((v.regularTargets shard).filter p).length =
      ((v.others shard).toFinset.filter fun n => (v.nodeAddr n).any p = true).card := by
  have hnodup : (((v.regularTargets shard).filter p).map some).Nodup :=
    (nodup_regularTargets.filter p).map (Option.some_injective A)
  have himage : (((v.regularTargets shard).filter p).map some).toFinset =
      ((v.others shard).toFinset.filter fun n => (v.nodeAddr n).any p = true).image v.nodeAddr := by
    ext o
    simp only [List.mem_toFinset, List.mem_map, List.mem_filter, mem_regularTargets,
      Finset.mem_image, Finset.mem_filter]
    constructor
    · rintro ⟨a, ⟨⟨n, hn, haddr⟩, hp⟩, rfl⟩
      exact ⟨n, ⟨hn, by simp [haddr, hp]⟩, haddr⟩
    rintro ⟨n, ⟨hn, hp⟩, rfl⟩
    obtain ⟨a, haddr, hp⟩ := exists_addr hp
    exact ⟨a, ⟨⟨n, hn, haddr⟩, hp⟩, haddr.symm⟩
  rw [← List.length_map some, ← List.toFinset_card_of_nodup hnodup, himage]
  apply Finset.card_image_of_injOn
  intro m hm n _ heq
  obtain ⟨a, ha, _⟩ := exists_addr (Finset.mem_filter.mp hm).2
  exact hinj m n a ha (heq ▸ ha)

/-- An acked target of a key holds its write. -/
theorem acked_eq (hkey : key ∈ keys) {a : A} (ha : a ∈ v.keyAddrs (shardForKey key)) :
    v.acked shardForKey keys env a = env.sendOk a := by
  have hany : (v.byAddr shardForKey keys).any (·.1 = a) = true :=
    List.any_eq_true.mpr
      ⟨(a, key), List.mem_flatMap.mpr ⟨key, hkey, List.mem_map_of_mem ha⟩, by simp⟩
  rw [acked, hany, Bool.true_and]

omit [DecidableEq A] in
/-- With replication, or if the addresses are known anyway, every other holder has one. -/
theorem known_of_errors (herrors : v.targetErrors shard = [])
    (hknown : 1 < v.replicationFactor ∨ ∀ n ∈ v.holders shard, (v.nodeAddr n).isSome = true)
    {n : NodeId} (hn : n ∈ v.others shard) : (v.nodeAddr n).isSome = true := by
  obtain ⟨hholder, hself⟩ := List.mem_filter.mp hn
  rcases hknown with hrf | hknown
  · unfold targetErrors at herrors
    rw [if_neg (by omega)] at herrors
    split_ifs at herrors
    rw [List.append_eq_nil_iff, List.map_eq_nil_iff, List.map_eq_nil_iff, List.filter_eq_nil_iff,
      List.filter_eq_nil_iff] at herrors
    rcases List.mem_append.mp hholder with hmem | hmem
    · have := herrors.1 n hmem
      grind
    · have := herrors.2 n hmem
      grind
  · exact hknown n hholder

omit [DecidableEq A] in
theorem card_copies (v : ClusterView A) (shard : Nat) :
    (v.copies shard).card = (v.others shard).toFinset.card + 1 := by
  have hcopies : v.copies shard = insert v.selfId (v.others shard).toFinset := by
    ext n
    simp only [copies, others, Finset.mem_insert, List.mem_toFinset, List.mem_filter]
    grind
  rw [hcopies, Finset.card_insert_of_notMem]
  simp [others]

/-- This node holds every write, and so do the holders that acked. -/
theorem card_holding (shardForKey : κ → Nat) (env : Fanout A) (hkey : key ∈ keys)
    (hinj : ∀ m n a, v.nodeAddr m = some a → v.nodeAddr n = some a → m = n) :
    ((v.regularTargets (shardForKey key)).filter (v.acked shardForKey keys env)).length + 1 ≤
      ((v.copies (shardForKey key)).filter (v.Holds shardForKey env key)).card := by
  rw [length_acked hinj]
  set acking := (v.others (shardForKey key)).toFinset.filter fun n =>
    (v.nodeAddr n).any (v.acked shardForKey keys env) = true
  have hself : v.selfId ∉ acking := by simp [acking, others]
  rw [← Finset.card_insert_of_notMem hself]
  apply Finset.card_le_card
  intro n hn
  rcases Finset.mem_insert.mp hn with rfl | hn
  · exact Finset.mem_filter.mpr ⟨Finset.mem_insert_self _ _, .inl rfl⟩
  obtain ⟨hother, hany⟩ := Finset.mem_filter.mp hn
  obtain ⟨a, haddr, hacked⟩ := exists_addr hany
  have hmem := List.mem_toFinset.mp hother
  have ha : a ∈ v.keyAddrs (shardForKey key) :=
    List.mem_append_left _ (mem_regularTargets.mpr ⟨n, hmem, haddr⟩)
  refine Finset.mem_filter.mpr ⟨?_, .inr ⟨a, ha, haddr, (acked_eq hkey ha).symm.trans hacked⟩⟩
  exact Finset.mem_insert_of_mem (List.mem_toFinset.mpr (List.mem_filter.mp hmem).1)

/-- The targets of a key are as many as the other holders. -/
theorem length_regularTargets
    (hinj : ∀ m n a, v.nodeAddr m = some a → v.nodeAddr n = some a → m = n)
    (hknown : ∀ n ∈ v.others shard, (v.nodeAddr n).isSome = true) :
    (v.regularTargets shard).length = (v.others shard).toFinset.card := by
  have hlen := length_acked hinj shard fun _ => true
  rw [List.filter_true] at hlen
  rw [hlen, Finset.filter_true_of_mem]
  intro n hn
  obtain ⟨a, ha⟩ := Option.isSome_iff_exists.mp (hknown n (List.mem_toFinset.mp hn))
  simp [ha]

end ClusterView

open ClusterView in
/-- A full outcome without best effort: of the copies of each key, those of its holders and of this
node, a strict majority has the write under `WriteMajority`, and all have it under `WriteAll`. A
shard with an open window whose new side has a known address got an ack from there. -/
theorem full_outcome_quorum (v : ClusterView A) (shardForKey : κ → Nat) (keys : List κ)
    (env : Fanout A) (hstrict : env.bestEffort = false)
    (hinj : ∀ m n a, v.nodeAddr m = some a → v.nodeAddr n = some a → m = n)
    (h : replicateAllOps v shardForKey keys env = .ok .full) (key : κ) (hkey : key ∈ keys)
    (hknown : 1 < v.replicationFactor ∨
      ∀ n ∈ v.holders (shardForKey key), (v.nodeAddr n).isSome = true) :
    (env.ackPolicy = some .writeMajority → (v.copies (shardForKey key)).card <
      2 * ((v.copies (shardForKey key)).filter (v.Holds shardForKey env key)).card) ∧
    (env.ackPolicy = some .writeAll →
      ∀ n ∈ v.copies (shardForKey key), v.Holds shardForKey env key n) ∧
    ((∃ n ∈ v.dualWriteTargets (shardForKey key), n ≠ v.selfId ∧ (v.nodeAddr n).isSome = true) →
      ∃ n ∈ v.dualWriteTargets (shardForKey key), ∃ a,
        v.nodeAddr n = some a ∧ v.acked shardForKey keys env a = true) := by
  obtain ⟨herrors, hgate, hjudge⟩ := of_full hstrict h hkey
  have hother := fun n hn => known_of_errors herrors hknown (n := n) hn
  have hcard := card_copies v (shardForKey key)
  have hlen := length_regularTargets hinj hother
  have hholding := card_holding shardForKey env hkey hinj
  have hacks := (judgeKeys_full hstrict hjudge hkey).imp_right List.length_eq_zero_iff.mpr
  refine ⟨fun hpolicy => ?_, fun hpolicy => ?_, fun hwindow => ?_⟩
  · simp only [hpolicy, Option.map_some, Option.getD_some, requiredReplicaAcks] at hacks
    omega
  · -- every copy is counted, so every copy is held
    have hall : (v.copies (shardForKey key)).card ≤
        ((v.copies (shardForKey key)).filter (v.Holds shardForKey env key)).card := by
      simp only [hpolicy, Option.map_some, Option.getD_some, requiredReplicaAcks] at hacks
      omega
    have heq := Finset.eq_of_subset_of_card_le (Finset.filter_subset _ _) hall
    intro n hn
    rw [← heq] at hn
    exact (Finset.mem_filter.mp hn).2
  · obtain ⟨n, hn, hself, hsome⟩ := hwindow
    obtain ⟨a, ha⟩ := Option.isSome_iff_exists.mp hsome
    have hmem : a ∈ v.handoffTargets (shardForKey key) :=
      List.mem_filterMap.mpr ⟨n, List.mem_filter.mpr ⟨hn, by simpa using hself⟩, ha⟩
    obtain ⟨a', ha', hacked⟩ := hgate (List.ne_nil_of_mem hmem)
    obtain ⟨n', hn', haddr⟩ := List.mem_filterMap.mp ha'
    exact ⟨n', (List.mem_filter.mp hn').1, a', haddr, hacked⟩

/-- Node 1 owns the shard with replicas 2 and 3, and node 3 does not answer. -/
def threeHolders : ClusterView NodeId := ⟨1, 3, fun _ => ⟨1, [2, 3]⟩, some, fun _ => []⟩

theorem full_outcome_quorum_three :
    (threeHolders.copies 0).card <
      2 * ((threeHolders.copies 0).filter
        (threeHolders.Holds id ⟨(· = 2), true, true, some .writeMajority, false⟩ 0)).card :=
  (full_outcome_quorum threeHolders id [0] ⟨(· = 2), true, true, some .writeMajority, false⟩ rfl
    (fun _ _ _ h h' => Option.some.inj (h.trans h'.symm)) rfl 0 (by decide)
    (.inl (by decide))).1 rfl

/-- Node 9 hands its shard over to nodes 1 and 2. -/
def outgoingOwner : ClusterView NodeId := ⟨9, 2, fun _ => ⟨1, [2]⟩, some, fun _ => []⟩

/-- Node 1 hands its shard over to node 5, whose address it does not know. -/
def unknownNewSide : ClusterView NodeId :=
  ⟨1, 2, fun _ => ⟨1, [2]⟩, fun n => if n = 5 then none else some n, fun _ => [5]⟩

/-- Nodes 2, 3 and 4 are known by one address. -/
def sharedAddress : ClusterView NodeId :=
  ⟨1, 5, fun _ => ⟨1, [2, 3, 4, 5]⟩, fun n => some (max n 4), fun _ => []⟩

/-- Without replication, the addresses of nodes 2 and 3 may be missing. -/
def unreplicated : ClusterView NodeId :=
  ⟨1, 1, fun _ => ⟨1, [2, 3, 4]⟩, fun n => if n = 4 then some 4 else none, fun _ => []⟩

/-- The outgoing owner answers success when one of the two holders has the write. A window whose new
side has no known address needs no ack. Holders that share an address count as one target, and
without replication those without an address count as none: two of five copies, or two of four, are
then enough. -/
theorem full_without_majority :
    (replicateAllOps outgoingOwner id [0] ⟨(· = 1), true, true, some .writeMajority, false⟩ =
        .ok .full ∧
      ¬ (outgoingOwner.holders 0).toFinset.card < 2 * ((outgoingOwner.holders 0).toFinset.filter
        (outgoingOwner.Holds id ⟨(· = 1), true, true, some .writeMajority, false⟩ 0)).card) ∧
    (replicateAllOps unknownNewSide id [0] ⟨fun _ => true, true, true, some .writeMajority, false⟩ =
        .ok .full ∧
      ¬ ∃ n ∈ unknownNewSide.dualWriteTargets 0, (unknownNewSide.nodeAddr n).isSome = true) ∧
    (replicateAllOps sharedAddress id [0] ⟨(· = 5), true, true, some .writeMajority, false⟩ =
        .ok .full ∧
      ¬ (sharedAddress.copies 0).card < 2 * ((sharedAddress.copies 0).filter
        (sharedAddress.Holds id ⟨(· = 5), true, true, some .writeMajority, false⟩ 0)).card) ∧
    (replicateAllOps unreplicated id [0] ⟨(· = 4), true, true, some .writeMajority, false⟩ =
        .ok .full ∧
      ¬ (unreplicated.copies 0).card < 2 * ((unreplicated.copies 0).filter
        (unreplicated.Holds id ⟨(· = 4), true, true, some .writeMajority, false⟩ 0)).card) :=
  ⟨⟨rfl, by decide⟩, ⟨rfl, by decide⟩, ⟨rfl, by decide⟩, rfl, by decide⟩

end TeraSlab.Replication
