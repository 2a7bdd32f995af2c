import TeraSlab.Recovery.MinedReplay

/-!
# Mined state after a crash

A crash leaves the redo entries, a snapshot of the mined index by transaction and one of the primary
index. The mined snapshot is taken while operations go on: every transaction is captured at a time
of its own, at or after the fence. Recovery replays the entries above the fence over it, and so runs
some operations on states that already have them.

A transaction that no create above the fence made gets its single slot and its blocks back. The
height since which it is unmined comes out right exactly when an operation after the capture sets
it, or when the operations between the fence and the capture, run again on the captured state, leave
it. One that was created above the fence is built from its last create, if the record is found.
-/

namespace TeraSlab.Recovery

open Foundations TeraSlab.Index

/-! ### The primary index -/

/-- What replay of the primary index does to the entry of a transaction: a create whose record is
found registers a missing one without a slot, and a delete removes it. -/
def primaryStep (metadata : Metadata) (key : TxKey) (p : Option (Option Nat)) :
    MinedOp → Option (Option Nat)
  | .create k blockHeight mined place =>
    if k = key ∧ p = none ∧ (metadata.createdUnmined? key blockHeight mined place).isSome
    then some none else p
  | .delete k => if k = key then none else p
  | _ => p

variable {route : TxKey → Nat} {metadata : Metadata} {key : TxKey} {ops : List MinedOp}
  {op : MinedOp}

namespace MinedOp

variable {x y : Option MinedState} {p : Option (Option Nat)}

theorem foldl_step_of_not (h : ∀ op ∈ ops, ¬ op.Creates key ∧ ¬ op.Deletes key) :
    ops.foldl (step key) x = x.map (·.applyAll (ops.flatMap (events key))) := by
  induction ops generalizing x with
  | nil => simp
  | cons op ops ih =>
    obtain ⟨hc, hd⟩ := h op List.mem_cons_self
    rw [List.foldl_cons, ih fun op hop => h op (List.mem_cons_of_mem _ hop),
      step_of_not hc hd, Option.map_map]
    congr 1
    funext m
    simp [MinedState.applyAll_append]

theorem foldl_replayStep_of_not (hc : ∀ op ∈ ops, ¬ op.Creates key) :
    ops.foldl (replayStep metadata key) x = ops.foldl (step key) x := by
  induction ops generalizing x with
  | nil => rfl
  | cons op ops ih =>
    rw [List.foldl_cons, List.foldl_cons, replayStep_of_not (hc op List.mem_cons_self)]
    exact ih fun op hop => hc op (List.mem_cons_of_mem _ hop)

/-- The operations split at the last create of the transaction. -/
theorem exists_lastCreate (h : ∃ op ∈ ops, op.Creates key) :
    ∃ earlier blockHeight mined place later,
      ops = earlier ++ .create key blockHeight mined place :: later ∧
        ∀ op ∈ later, ¬ op.Creates key := by
  induction ops with
  | nil => simp at h
  | cons op ops ih =>
    by_cases hlater : ∃ op ∈ ops, op.Creates key
    · obtain ⟨earlier, blockHeight, mined, place, later, rfl, hlast⟩ := ih hlater
      exact ⟨op :: earlier, blockHeight, mined, place, later, rfl, hlast⟩
    have hop := ((List.exists_mem_cons_iff ..).mp h).resolve_right hlater
    cases op with
    | create k blockHeight mined place =>
      obtain rfl : k = key := hop
      exact ⟨[], blockHeight, mined, place, ops, rfl, fun op hop hc => hlater ⟨op, hop, hc⟩⟩
    | _ => exact hop.elim

/-- A transaction without a create is there in the end only if it was there and is not deleted. -/
theorem not_deletes_of_isSome (hc : ∀ op ∈ ops, ¬ op.Creates key)
    (hx : (ops.foldl (step key) x).isSome) : x.isSome ∧ ∀ op ∈ ops, ¬ op.Deletes key := by
  induction ops generalizing x with
  | nil => simpa using hx
  | cons op ops ih =>
    obtain ⟨hsome, hd⟩ := ih (fun op hop => hc op (List.mem_cons_of_mem _ hop)) hx
    have hop := hc op List.mem_cons_self
    by_cases hdel : op.Deletes key
    · cases op with
      | delete k => simp [step, show k = key from hdel] at hsome
      | _ => exact hdel.elim
    · rw [step_of_not hop hdel, Option.isSome_map] at hsome
      exact ⟨hsome, List.forall_mem_cons.mpr ⟨hdel, hd⟩⟩

theorem isSome_foldl_step (hx : x.isSome) (hd : ∀ op ∈ ops, ¬ op.Deletes key) :
    (ops.foldl (step key) x).isSome := by
  induction ops generalizing x with
  | nil => exact hx
  | cons op ops ih =>
    refine ih ?_ fun op hop => hd op (List.mem_cons_of_mem _ hop)
    by_cases hc : op.Creates key
    · cases op with
      | create k => simp [step, show k = key from hc]
      | _ => exact hc.elim
    · rw [step_of_not hc (hd op List.mem_cons_self), Option.isSome_map]
      exact hx

theorem primaryStep_of_not (hc : ¬ op.Creates key) (hd : ¬ op.Deletes key) :
    primaryStep metadata key p op = p := by
  cases op with
  | create => exact if_neg fun h => hc h.1
  | delete k => exact if_neg hd
  | _ => rfl

/-- After a create or a delete, the primary index knows the transaction only if it is live. -/
theorem isSome_step_of_primaryStep (h : op.Creates key ∨ op.Deletes key)
    (hp : (primaryStep metadata key p op).isSome) : (op.step key x).isSome := by
  cases op with
  | create k =>
    have hk : k = key := h.resolve_right id
    simp [step, hk]
  | delete k =>
    have hk : k = key := h.resolve_left id
    simp [primaryStep, hk] at hp
  | _ => exact h.elim False.elim False.elim

/-- The primary index knows the transaction in the end only if it is live then. -/
theorem isSome_foldl_step_of_primaryStep
    (h : (p.isSome → x.isSome) ∨ ∃ op ∈ ops, op.Creates key ∨ op.Deletes key)
    (hp : (ops.foldl (primaryStep metadata key) p).isSome) :
    (ops.foldl (step key) x).isSome := by
  induction ops generalizing p x with
  | nil => exact (h.resolve_right (by simp)) hp
  | cons op ops ih =>
    by_cases hop : op.Creates key ∨ op.Deletes key
    · exact ih (.inl (isSome_step_of_primaryStep hop)) hp
    obtain ⟨hc, hd⟩ := not_or.mp hop
    rw [List.foldl_cons, primaryStep_of_not hc hd] at hp
    rw [List.foldl_cons, step_of_not hc hd]
    refine ih (h.imp (fun himp hp => ?_) fun hex => ?_) hp
    · rw [Option.isSome_map]
      exact himp hp
    · exact ((List.exists_mem_cons_iff ..).mp hex).resolve_left hop

theorem join_primaryStep (hp : p.join = none) : (primaryStep metadata key p op).join = none := by
  cases op with
  | create | delete =>
    rw [primaryStep]
    split_ifs
    · rfl
    · exact hp
  | _ => exact hp

theorem join_foldl_primaryStep (hp : p.join = none) :
    (ops.foldl (primaryStep metadata key) p).join = none := by
  induction ops generalizing p with
  | nil => exact hp
  | cons op ops ih => exact ih (join_primaryStep hp)

/-- The primary index names no slot for a transaction that was deleted. -/
theorem join_of_deletes (h : ∃ op ∈ ops, op.Deletes key) :
    (ops.foldl (primaryStep metadata key) p).join = none := by
  induction ops generalizing p with
  | nil => simp at h
  | cons op ops ih =>
    rw [List.foldl_cons]
    by_cases hop : op.Deletes key
    · refine join_foldl_primaryStep ?_
      cases op with
      | delete k => simp [primaryStep, show k = key from hop]
      | _ => exact hop.elim
    · exact ih ((List.exists_mem_cons_iff ..).mp h |>.resolve_left hop)

end MinedOp

/-! ### The tail -/

section Tail

variable {live : TxKey → Nat} {r : MinedRecovery} {t : MinedTable}
  {states states' : TxKey → Option MinedState} {primary : TxKey → Option (Option Nat)}

theorem applyCreate_primary (route : TxKey → Nat) (r : MinedRecovery) (k : TxKey)
    (unminedSince : Nat) (hk : key ≠ k) :
    (r.applyCreate route k unminedSince).primary key = r.primary key := by
  rw [MinedRecovery.applyCreate]
  split_ifs
  · exact Function.update_of_ne hk ..
  · rfl

theorem replayEntry_primary (route : TxKey → Nat) (r : MinedRecovery) (hc : ¬ op.Creates key) :
    (r.replayEntry route metadata op).primary key = r.primary key := by
  cases op with
  | create k blockHeight mined place =>
    have hk : key ≠ k := Ne.symm hc
    have hcreate := fun u => applyCreate_primary route r k u hk
    cases hu : metadata.createdUnmined? k blockHeight mined place <;> cases mined <;>
      simp only [MinedRecovery.replayEntry, hu, apply_ite MinedRecovery.primary, ite_self,
        hcreate]
  | _ => rfl

/-- Every create of the transaction is one whose record recovery finds. -/
def AllFound (metadata : Metadata) (ops : List MinedOp) (key : TxKey) : Prop :=
  ∀ blockHeight mined place, .create key blockHeight mined place ∈ ops →
    (metadata.createdUnmined? key blockHeight mined place).isSome

/-- A transaction that is live after the operation is reached after its replay, unless its create
was skipped. -/
theorem reached_replayEntry (hfound : AllFound metadata [op] key)
    (hr : states' key ≠ none → Mirrors.Reached r.primary key (states key))
    (hkey : op.step key (states' key) ≠ none) :
    Mirrors.Reached (r.replayEntry route metadata op).primary key
      (op.replayStep metadata key (states key)) := by
  by_cases hc : op.Creates key
  · cases op with
    | create k blockHeight mined place =>
      obtain rfl : k = key := hc
      have hu := hfound blockHeight mined place List.mem_cons_self
      obtain ⟨unminedSince, hu⟩ := Option.isSome_iff_exists.mp hu
      exact .inl (by simp [MinedOp.replayStep, hu])
    | _ => exact hc.elim
  rw [Mirrors.Reached, replayEntry_primary route r hc, MinedOp.replayStep_of_not hc]
  by_cases hd : op.Deletes key
  · cases op with
    | delete k => simp [MinedOp.step, show k = key from hd] at hkey
    | _ => exact hd.elim
  rw [MinedOp.step_of_not hc hd] at hkey ⊢
  exact (hr fun hnone => hkey (by rw [hnone, Option.map_none])).map

theorem tracks_foldl (ht : Tracks live t states') (hsound : ∀ op ∈ ops, op.Sound)
    (hadmits : Guarded (MinedTable.perform live) (MinedTable.Admits live) t ops) :
    Tracks live (ops.foldl (MinedTable.perform live) t) fun key =>
      ops.foldl (MinedOp.step key) (states' key) := by
  induction ops generalizing t states' with
  | nil => exact ht
  | cons op ops ih =>
    obtain ⟨hop, hsound⟩ := List.forall_mem_cons.mp hsound
    exact ih (ht.perform hop hadmits.1) hsound hadmits.2

/-- The live index and recovery, side by side. -/
def sideBySide (live route : TxKey → Nat) (metadata : Metadata) (s : MinedTable × MinedRecovery)
    (op : MinedOp) : MinedTable × MinedRecovery :=
  (s.1.perform live op, s.2.replayEntry route metadata op)

/-- The replay of an operation meets no slot of another transaction. That is left to show for the
transactions of the operation that were missing, and for those with a create that is skipped. -/
def Meets (route : TxKey → Nat) (metadata : Metadata) (found : TxKey → Prop)
    (s : MinedTable × MinedRecovery) (op : MinedOp) : Prop :=
  ∀ key ∈ op.meets metadata, (s.1.slots key).isSome ∧ found key ∨ s.2.Finds route key

theorem mirrors_foldl {found : TxKey → Prop}
    (hfound : ∀ key, found key → AllFound metadata ops key)
    (hm : Mirrors route primary r states) (ht : Tracks live t states')
    (hsound : ∀ op ∈ ops, op.Sound)
    (hadmits : Guarded (MinedTable.perform live) (MinedTable.Admits live) t ops)
    (hmeets : Guarded (sideBySide live route metadata) (Meets route metadata found) (t, r) ops)
    (hr : ∀ key, found key → states' key ≠ none →
      Mirrors.Reached r.primary key (states key)) :
    Mirrors route primary (ops.foldl (MinedRecovery.replayEntry route metadata) r) fun key =>
      ops.foldl (MinedOp.replayStep metadata key) (states key) := by
  induction ops generalizing t states states' r with
  | nil => exact hm
  | cons op ops ih =>
    obtain ⟨hop, hsound⟩ := List.forall_mem_cons.mp hsound
    have hfinds : ∀ key ∈ op.meets metadata, r.Finds route key := by
      intro key hkey
      refine (hmeets.1 key hkey).elim (fun ⟨hlive, hf⟩ => ?_) id
      have hne := Option.isSome_iff_ne_none.mp (ht.slots_isSome ▸ hlive)
      exact hm.finds_of_reached (hr key hf hne)
    refine ih (fun key hf h m p hmem => hfound key hf h m p (List.mem_cons_of_mem _ hmem))
      (hm.replayEntry hop hfinds) (ht.perform hop hadmits.1) hsound hadmits.2 hmeets.2 ?_
    intro key hf hkey
    refine reached_replayEntry (fun h m p hmem => hfound key hf h m p ?_) (hr key hf) hkey
    exact List.mem_cons.mpr (.inl (List.mem_singleton.mp hmem))

end Tail

/-! ### A crash -/

/-- A history of journaled operations, and what a crash leaves of it. The mined snapshot captures
each of the transactions it scanned at a time of its own, and the primary snapshot likewise; a
transaction that is live from the fence on is scanned. -/
structure MinedCrash (route : TxKey → Nat) where
  history : List MinedOp
  sound : ∀ op ∈ history, op.Sound
  admits : Guarded (MinedTable.perform route) (MinedTable.Admits route) .empty history
  fence : Nat
  scanned : List TxKey
  scanned_nodup : scanned.Nodup
  time : TxKey → Nat
  fence_le_time : ∀ key, fence ≤ time key
  scanned_of_live : ∀ key,
    (∀ n, fence ≤ n → ((MinedTable.after route (history.take n)).slots key).isSome) →
    key ∈ scanned
  allSpent : TxKey → Bool
  deFlags : TxKey → Option Flags
  redoFence : Nat
  redoFence_le : redoFence ≤ fence
  primary : TxKey → Option (Option Nat)
  primaryTime : TxKey → Nat
  redoFence_le_time : ∀ key, redoFence ≤ primaryTime key
  isSome_primary : ∀ key, (primary key).isSome =
    ((MinedTable.after route (history.take (primaryTime key))).slots key).isSome
  metadata : Metadata

namespace MinedCrash

variable (c : MinedCrash route) (recoveryRoute : TxKey → Nat)

/-- The live index after the first operations of the history. -/
def liveAt (n : Nat) : MinedTable := MinedTable.after route (c.history.take n)

def live : MinedTable := MinedTable.after route c.history

def tail : List MinedOp := c.history.drop c.fence

def capture (key : TxKey) : Option MinedByKeyEntry :=
  ((c.liveAt (c.time key)).read route key).map fun m =>
    ⟨key, m.unminedSince, m.blocks, c.allSpent key, c.deFlags key⟩

def snapshot : List MinedByKeyEntry := c.scanned.filterMap c.capture

/-- The primary index that recovery has rebuilt before the mined index. -/
def recoveredPrimary (key : TxKey) : Option (Option Nat) :=
  (c.history.drop c.redoFence).foldl (primaryStep c.metadata key) (c.primary key)

def recovered : MinedRecovery :=
  MinedRecovery.recoverMinedIndex recoveryRoute c.metadata c.recoveredPrimary c.snapshot c.tail

/-- No replayed operation goes to the slot of another transaction. -/
def NoStray : Prop :=
  Guarded (sideBySide route recoveryRoute c.metadata)
    (Meets recoveryRoute c.metadata (AllFound c.metadata c.tail))
    (c.liveAt c.fence, MinedRecovery.restore recoveryRoute c.recoveredPrimary c.snapshot) c.tail

/-- The transaction has exactly one live slot after recovery, the primary index names it, and it has
the blocks and the height that the live index had at the crash. -/
def RestoredAt (key : TxKey) : Prop :=
  ∃ slot m m', (c.recovered recoveryRoute).primary key = some (some slot) ∧
    (∀ i s, Occupies ((c.recovered recoveryRoute).table.arena i) key s ↔
      i = recoveryRoute key ∧ s = slot) ∧
    (c.recovered recoveryRoute).read recoveryRoute key = some m ∧
    c.live.read route key = some m' ∧
    (∀ b, b ∈ m.blocks ↔ b ∈ m'.blocks) ∧ m.unminedSince = m'.unminedSince

def Restored : Prop :=
  ∀ key, ((c.recovered recoveryRoute).primary key).isSome → c.RestoredAt recoveryRoute key

/-- What happens to a transaction between the fence and its capture. -/
def capturedEvents (key : TxKey) : List MinedEvent :=
  (c.tail.take (c.time key - c.fence)).flatMap (MinedOp.events key)

/-- What happens to a transaction after its capture. -/
def laterEvents (key : TxKey) : List MinedEvent :=
  (c.history.drop (c.time key)).flatMap (MinedOp.events key)

/-- The height of the transaction survives the second run of the captured operations: a later one
sets it, or they leave the captured state's. -/
def Settles (key : TxKey) : Prop :=
  ∀ m, (c.liveAt (c.time key)).read route key = some m →
    m.AssignsIn (c.laterEvents key) ∨
      (m.applyAll (c.capturedEvents key)).unminedSince = m.unminedSince

/-- What the snapshot has of the transaction. -/
def captured (key : TxKey) : Option MinedState :=
  if key ∈ c.scanned then (c.liveAt (c.time key)).read route key else none

/-- The operations above the fence, run on the captured state of the transaction, end with the state
that it had at the crash. -/
def Converges (key : TxKey) : Prop :=
  ∃ n m, c.tail.foldl (MinedOp.replayStep c.metadata key) (c.captured key) = some n ∧
    c.live.read route key = some m ∧
    (∀ b, b ∈ n.blocks ↔ b ∈ m.blocks) ∧ n.unminedSince = m.unminedSince

/-- A transaction that is not created above the fence keeps its height over the second run. For one
that is, its last create counts: if the record was found, then with the height of the create, unless
an operation sets it afterwards. If the create was skipped, the captured state must be enough. -/
def Settled (key : TxKey) : Prop :=
  ((∀ op ∈ c.tail, ¬ op.Creates key) → c.Settles key) ∧
    ∀ earlier blockHeight mined place later,
      c.tail = earlier ++ .create key blockHeight mined place :: later →
      (∀ op ∈ later, ¬ op.Creates key) →
      match c.metadata.createdUnmined? key blockHeight mined place with
      | none => c.Converges key
      | some unminedSince =>
        (createdState blockHeight mined).AssignsIn (later.flatMap (MinedOp.events key)) ∨
          createdState unminedSince mined = createdState blockHeight mined

/-- The state of a transaction after the first operations. -/
def stateAt (n : Nat) (key : TxKey) : Option MinedState :=
  (c.history.take n).foldl (MinedOp.step key) none

def state (key : TxKey) : Option MinedState := c.history.foldl (MinedOp.step key) none

variable (key : TxKey)

theorem tracks_liveAt (n : Nat) : Tracks route (c.liveAt n) (c.stateAt n) := by
  have hadmits := c.admits
  rw [← List.take_append_drop n c.history, guarded_append] at hadmits
  exact tracks_foldl Tracks.empty (fun op hop => c.sound op (List.mem_of_mem_take hop)) hadmits.1

theorem tracks_live : Tracks route c.live c.state := tracks_foldl Tracks.empty c.sound c.admits

theorem state_eq (n : Nat) :
    c.state key = (c.history.drop n).foldl (MinedOp.step key) (c.stateAt n key) := by
  rw [stateAt, ← List.foldl_append, List.take_append_drop, state]

theorem stateAt_eq {n n' : Nat} (hle : n ≤ n') :
    c.stateAt n' key =
      ((c.history.drop n).take (n' - n)).foldl (MinedOp.step key) (c.stateAt n key) := by
  rw [stateAt, stateAt, ← List.foldl_append, ← List.take_add, Nat.add_sub_cancel' hle]

/-- The recovered primary index knows only transactions that were live at the crash. -/
theorem isSome_state (hp : (c.recoveredPrimary key).isSome) : (c.state key).isSome := by
  rw [c.state_eq key c.redoFence]
  refine MinedOp.isSome_foldl_step_of_primaryStep ?_ hp
  by_cases htouched : ∃ op ∈ c.history.drop c.redoFence, op.Creates key ∨ op.Deletes key
  · exact .inr htouched
  refine .inl (Eq.mp ?_)
  have hsame := c.stateAt_eq key (c.redoFence_le_time key)
  rw [MinedOp.foldl_step_of_not] at hsame
  · rw [c.isSome_primary, ← liveAt, (c.tracks_liveAt _).slots_isSome, hsame, Option.isSome_map]
  · intro op hop
    exact not_or.mp fun h => htouched ⟨op, List.mem_of_mem_take hop, h⟩

variable {f : TxKey → Option MinedByKeyEntry} {es : List TxKey}

theorem find?_filterMap (hf : ∀ k e, f k = some e → e.txid = k) :
    (es.filterMap f).find? (·.txid = key) = if key ∈ es then f key else none := by
  induction es with
  | nil => rfl
  | cons k es ih =>
    cases hk : f k with
    | none =>
      rw [List.filterMap_cons_none hk, ih]
      by_cases heq : key = k
      · simp [heq, hk]
      · simp [heq]
    | some e =>
      rw [List.filterMap_cons_some hk, List.find?_cons]
      by_cases heq : key = k
      · simp [heq, hk, hf k e hk]
      · simp [heq, hf k e hk, Ne.symm heq, ih]

theorem map_txid_filterMap_sublist (hf : ∀ k e, f k = some e → e.txid = k) :
    ((es.filterMap f).map (·.txid)).Sublist es := by
  induction es with
  | nil => exact .slnil
  | cons k es ih =>
    cases hk : f k with
    | none =>
      rw [List.filterMap_cons_none hk]
      exact ih.cons k
    | some e =>
      rw [List.filterMap_cons_some hk, List.map_cons, hf k e hk]
      exact ih.cons_cons k

theorem txid_capture (k : TxKey) (e : MinedByKeyEntry) (he : c.capture k = some e) :
    e.txid = k := by
  obtain ⟨m, -, rfl⟩ := Option.map_eq_some_iff.mp he
  rfl

theorem find?_snapshot :
    c.snapshot.find? (·.txid = key) = if key ∈ c.scanned then c.capture key else none :=
  find?_filterMap key c.txid_capture

theorem snapshot_nodup : (c.snapshot.map (·.txid)).Nodup :=
  c.scanned_nodup.sublist (map_txid_filterMap_sublist c.txid_capture)

theorem snapshot_sound : ∀ e ∈ c.snapshot, e.Sound := by
  intro e he
  obtain ⟨key, -, hcapture⟩ := List.mem_filterMap.mp he
  obtain ⟨m, hm, rfl⟩ := Option.map_eq_some_iff.mp hcapture
  exact (c.tracks_liveAt _).read_sound hm

/-- The states that recovery starts the tail with. -/
def restoredState : Option MinedState := Mirrors.restored c.recoveredPrimary c.snapshot key

theorem mirrors_restore : Mirrors recoveryRoute c.recoveredPrimary
    (MinedRecovery.restore recoveryRoute c.recoveredPrimary c.snapshot) c.restoredState := by
  have hrestore := (Mirrors.empty recoveryRoute c.recoveredPrimary).restore c.snapshot_sound
    c.snapshot_nodup fun _ _ => rfl
  exact ⟨hrestore.tracks.congr fun key => Option.or_none, hrestore.pointed, hrestore.present⟩

/-- A transaction that the primary index knows is restored as it was captured. -/
theorem restoredState_eq (hp : (c.recoveredPrimary key).isSome) :
    c.restoredState key = c.captured key := by
  rw [restoredState, Mirrors.restored, if_pos hp, find?_snapshot, captured]
  split_ifs with hscan
  · rw [capture, Option.map_map]
    exact Option.map_id'
  · rfl

/-- A transaction that is live at the fence and not deleted afterwards is captured. -/
theorem scanned_of_not_deletes (hx : (c.stateAt c.fence key).isSome)
    (hd : ∀ op ∈ c.tail, ¬ op.Deletes key) :
    key ∈ c.scanned ∧ (c.stateAt (c.time key) key).isSome := by
  have hlive : ∀ n, c.fence ≤ n → (c.stateAt n key).isSome := by
    intro n hn
    rw [c.stateAt_eq key hn]
    exact MinedOp.isSome_foldl_step hx fun op hop => hd op (List.mem_of_mem_take hop)
  refine ⟨c.scanned_of_live key fun n hn => ?_, hlive _ (c.fence_le_time key)⟩
  rw [← liveAt, (c.tracks_liveAt n).slots_isSome]
  exact hlive n hn

/-- After the restore, replay reaches every transaction that was live at the fence. -/
theorem reached_restore (hx : c.stateAt c.fence key ≠ none) :
    Mirrors.Reached (MinedRecovery.restore recoveryRoute c.recoveredPrimary c.snapshot).primary key
      (c.restoredState key) := by
  by_contra hnot
  obtain ⟨hstate, hjoin⟩ := not_or.mp hnot
  have hnone := not_not.mp hstate
  rw [MinedRecovery.restore, (c.mirrors_restore recoveryRoute).restore_primary (fun _ => rfl) hnone]
    at hjoin
  have hd : ∀ op ∈ c.tail, ¬ op.Deletes key := by
    intro op hop hdel
    refine hjoin (MinedOp.join_of_deletes ⟨op, ?_, hdel⟩)
    exact (List.drop_sublist_drop_left _ c.redoFence_le).mem hop
  obtain ⟨hscan, hcaptured⟩ :=
    c.scanned_of_not_deletes key (Option.isSome_iff_ne_none.mpr hx) hd
  obtain ⟨m, hm⟩ := Option.isSome_iff_exists.mp hcaptured
  obtain ⟨y, hy, -⟩ := (c.tracks_liveAt (c.time key)).read hm
  have hp : (c.recoveredPrimary key).isSome := by
    rw [Option.isSome_iff_ne_none]
    rintro heq
    exact hjoin (by rw [heq]; rfl)
  rw [c.restoredState_eq key hp, captured, if_pos hscan, hy] at hnone
  exact Option.some_ne_none y hnone

theorem mirrors_recovered (h : c.NoStray recoveryRoute) :
    Mirrors recoveryRoute c.recoveredPrimary (c.recovered recoveryRoute) fun key =>
      c.tail.foldl (MinedOp.replayStep c.metadata key) (c.restoredState key) := by
  have hadmits := c.admits
  rw [← List.take_append_drop c.fence c.history, guarded_append] at hadmits
  exact mirrors_foldl (fun _ => id) (c.mirrors_restore recoveryRoute) (c.tracks_liveAt c.fence)
    (fun op hop => c.sound op (List.mem_of_mem_drop hop)) hadmits.2 h
    fun key _ => c.reached_restore recoveryRoute key

/-- The primary index and the table agree on the slot of a transaction with a state. -/
theorem restoredAt_iff_converges (h : c.NoStray recoveryRoute)
    (hp : (c.recoveredPrimary key).isSome) :
    c.RestoredAt recoveryRoute key ↔ c.Converges key := by
  have hmirrors := c.mirrors_recovered recoveryRoute h
  have hstate := c.restoredState_eq key hp
  -- what the table has of a transaction with a state
  have hslot : ∀ n, c.tail.foldl (MinedOp.replayStep c.metadata key) (c.captured key) = some n →
      ∃ slot n', (c.recovered recoveryRoute).primary key = some (some slot) ∧
        (∀ i s, Occupies ((c.recovered recoveryRoute).table.arena i) key s ↔
          i = recoveryRoute key ∧ s = slot) ∧
        (c.recovered recoveryRoute).read recoveryRoute key = some n' ∧
        n'.blocks.Perm n.blocks ∧ n'.unminedSince = n.unminedSince := by
    intro n hn
    rw [← hstate] at hn
    obtain ⟨n', hread, hperm, hu⟩ := hmirrors.tracks.read hn
    obtain ⟨slot, hslot, hshows, honly⟩ := hmirrors.tracks.exists_slot hn
    have hprimary : (c.recovered recoveryRoute).primary key = some (some slot) := by
      refine (hmirrors.pointed key slot hslot).resolve_left fun hnone => ?_
      have hpresent := hmirrors.present key
      simp [hnone, hp] at hpresent
    refine ⟨slot, n', hprimary, fun i s => ⟨fun hocc => ?_, ?_⟩, ?_, hperm, hu⟩
    · have hi := hmirrors.tracks.routed key i s hocc
      exact ⟨hi, honly s (hi ▸ hocc)⟩
    · rintro ⟨rfl, rfl⟩
      exact hshows.occupies
    · rw [← hread]
      simp [MinedRecovery.read, MinedTable.read, hprimary, hslot]
  constructor
  · rintro ⟨slot, a, m, -, hocc, ha, hm, hblocks, hu⟩
    cases hn : c.tail.foldl (MinedOp.replayStep c.metadata key) (c.captured key) with
    | none =>
      have hkeeps := hmirrors.tracks.keeps key
      rw [← hstate] at hn
      rw [hn, hmirrors.tracks.slots_eq_none_iff.mpr hn] at hkeeps
      exact (hkeeps slot ((hocc _ _).mpr ⟨rfl, rfl⟩)).elim
    | some n =>
      obtain ⟨-, n', -, -, hread, hperm, hu'⟩ := hslot n hn
      cases ha.symm.trans hread
      exact ⟨n, m, hn, hm, fun b => hperm.mem_iff.symm.trans (hblocks b), hu'.symm.trans hu⟩
  · rintro ⟨n, m, hn, hm, hblocks, hu⟩
    obtain ⟨slot, n', hprimary, hocc, hread, hperm, hu'⟩ := hslot n hn
    exact ⟨slot, n', m, hprimary, hocc, hread, hm, fun b => hperm.mem_iff.trans (hblocks b),
      hu'.trans hu⟩

/-- Where the blocks come out right, the height decides. -/
theorem converges_iff {n m : MinedState} (hnodup : n.ids.Nodup)
    (hn : c.tail.foldl (MinedOp.replayStep c.metadata key) (c.captured key) = some n)
    (hm : c.state key = some m) (hsame : n.SameBlocks m) :
    c.Converges key ↔ n.unminedSince = m.unminedSince := by
  obtain ⟨m', hread, hperm, hu⟩ := c.tracks_live.read hm
  constructor
  · rintro ⟨a, a', ha, ha', -, heq⟩
    cases ha.symm.trans hn
    cases ha'.symm.trans hread
    rw [heq, hu]
  · intro heq
    refine ⟨n, m', hn, hread, fun b => ?_, heq.trans hu.symm⟩
    rw [hperm.mem_iff]
    exact hsame.mem_iff hnodup (c.tracks_live.nodup hm) b

theorem sameBlocks_createdState (u u' : Nat) (mined : Option BlockEntry) :
    (createdState u mined).SameBlocks (createdState u' mined) := by
  cases mined <;> exact fun _ => rfl

theorem createdState_eq_iff {u u' : Nat} {mined : Option BlockEntry} :
    createdState u mined = createdState u' mined ↔
      (createdState u mined).unminedSince = (createdState u' mined).unminedSince := by
  cases mined <;> simp [createdState]

theorem nodup_createdState (u : Nat) (mined : Option BlockEntry) :
    (createdState u mined).ids.Nodup := by
  cases mined <;> simp [createdState, MinedState.ids]

/-- A transaction is built again from its last create above the fence. -/
theorem converges_iff_of_found {earlier later : List MinedOp} {blockHeight unminedSince : Nat}
    {mined : Option BlockEntry} {place : Option (Nat × Nat)} (hx : (c.state key).isSome)
    (htail : c.tail = earlier ++ .create key blockHeight mined place :: later)
    (hlast : ∀ op ∈ later, ¬ op.Creates key)
    (hu : c.metadata.createdUnmined? key blockHeight mined place = some unminedSince) :
    c.Converges key ↔
      (createdState blockHeight mined).AssignsIn (later.flatMap (MinedOp.events key)) ∨
        createdState unminedSince mined = createdState blockHeight mined := by
  have hstate := c.state_eq key c.fence
  rw [← tail, htail, List.foldl_append, List.foldl_cons, MinedOp.step, if_pos rfl] at hstate
  obtain ⟨-, hd⟩ := MinedOp.not_deletes_of_isSome hlast (hstate ▸ hx)
  have hnot : ∀ op ∈ later, ¬ op.Creates key ∧ ¬ op.Deletes key :=
    fun op hop => ⟨hlast op hop, hd op hop⟩
  rw [MinedOp.foldl_step_of_not hnot, Option.map_some] at hstate
  have hn : c.tail.foldl (MinedOp.replayStep c.metadata key) (c.captured key) =
      some ((createdState unminedSince mined).applyAll (later.flatMap (MinedOp.events key))) := by
    rw [htail, List.foldl_append, List.foldl_cons, MinedOp.replayStep, if_pos rfl, hu,
      MinedOp.foldl_replayStep_of_not hlast, MinedOp.foldl_step_of_not hnot, Option.map_some]
  have hsame := sameBlocks_createdState unminedSince blockHeight mined
  rw [c.converges_iff key (MinedState.nodup_applyAll (nodup_createdState ..)) hn hstate
    (hsame.applyAll _), hsame.unminedSince_applyAll, hsame.assignsIn_iff, createdState_eq_iff]

/-- The captured events and the later ones are those of the tail. -/
theorem flatMap_tail :
    c.tail.flatMap (MinedOp.events key) = c.capturedEvents key ++ c.laterEvents key := by
  have hdrop : c.history.drop (c.time key) = c.tail.drop (c.time key - c.fence) := by
    rw [tail, List.drop_drop, Nat.add_sub_cancel' (c.fence_le_time key)]
  rw [capturedEvents, laterEvents, hdrop, ← List.flatMap_append, List.take_append_drop]

/-- A transaction that is not created above the fence is built again from its captured state. -/
theorem converges_iff_settles (hx : (c.state key).isSome)
    (hc : ∀ op ∈ c.tail, ¬ op.Creates key) : c.Converges key ↔ c.Settles key := by
  have hstate := c.state_eq key c.fence
  obtain ⟨hfence, hd⟩ := MinedOp.not_deletes_of_isSome hc (hstate ▸ hx)
  obtain ⟨hscan, -⟩ := c.scanned_of_not_deletes key hfence hd
  obtain ⟨m₀, hm₀⟩ := Option.isSome_iff_exists.mp hfence
  have hnot : ∀ op ∈ c.tail, ¬ op.Creates key ∧ ¬ op.Deletes key :=
    fun op hop => ⟨hc op hop, hd op hop⟩
  -- the state at the capture, and what is read and restored of it
  have hcaptured : c.stateAt (c.time key) key = some (m₀.applyAll (c.capturedEvents key)) := by
    rw [c.stateAt_eq key (c.fence_le_time key), hm₀, ← tail,
      MinedOp.foldl_step_of_not fun op hop => hnot op (List.mem_of_mem_take hop)]
    rfl
  obtain ⟨y, hread, hperm, hu⟩ := (c.tracks_liveAt (c.time key)).read hcaptured
  have hy : y.SameBlocks (m₀.applyAll (c.capturedEvents key)) :=
    MinedState.sameBlocks_of_perm hperm ((c.tracks_liveAt _).read_sound hread).1
  have hn : c.tail.foldl (MinedOp.replayStep c.metadata key) (c.captured key) =
      some (y.applyAll (c.capturedEvents key ++ c.laterEvents key)) := by
    rw [captured, if_pos hscan, hread, MinedOp.foldl_replayStep_of_not hc,
      MinedOp.foldl_step_of_not hnot, c.flatMap_tail key]
    rfl
  have hm : c.state key =
      some ((m₀.applyAll (c.capturedEvents key)).applyAll (c.laterEvents key)) := by
    rw [hstate, hm₀]
    refine (MinedOp.foldl_step_of_not hnot).trans ?_
    rw [c.flatMap_tail key, Option.map_some, MinedState.applyAll_append]
  -- running the captured events again keeps the blocks
  obtain ⟨hblocks, hheight⟩ :=
    MinedState.applyAll_again m₀ (c.capturedEvents key) (c.laterEvents key)
  have hagain := hy.applyAll (c.capturedEvents key ++ c.laterEvents key)
  have hnodup := ((c.tracks_liveAt (c.time key)).read_sound hread).1
  rw [c.converges_iff key (MinedState.nodup_applyAll hnodup) hn hm (hagain.trans hblocks),
    hy.unminedSince_applyAll.mpr (.inr hu), hheight, Settles, hread]
  simp only [Option.some.injEq, forall_eq', hy.assignsIn_iff, hu,
    hy.unminedSince_applyAll.mpr (.inr hu)]

theorem converges_iff_settled (hp : (c.recoveredPrimary key).isSome) :
    c.Converges key ↔ c.Settled key := by
  have hx := c.isSome_state key hp
  have hlast : ∀ earlier blockHeight mined place later,
      c.tail = earlier ++ .create key blockHeight mined place :: later →
      (∀ op ∈ later, ¬ op.Creates key) → (c.Converges key ↔
        match c.metadata.createdUnmined? key blockHeight mined place with
        | none => c.Converges key
        | some unminedSince =>
          (createdState blockHeight mined).AssignsIn (later.flatMap (MinedOp.events key)) ∨
            createdState unminedSince mined = createdState blockHeight mined) := by
    intro earlier blockHeight mined place later htail hlast
    cases hu : c.metadata.createdUnmined? key blockHeight mined place with
    | none => exact Iff.rfl
    | some unminedSince => exact c.converges_iff_of_found key hx htail hlast hu
  constructor
  · intro h
    exact ⟨fun hc => (c.converges_iff_settles key hx hc).mp h,
      fun earlier blockHeight mined place later htail hl =>
        (hlast earlier blockHeight mined place later htail hl).mp h⟩
  · rintro ⟨hsettles, hcreated⟩
    by_cases hc : ∃ op ∈ c.tail, op.Creates key
    · obtain ⟨earlier, blockHeight, mined, place, later, htail, hl⟩ :=
        MinedOp.exists_lastCreate hc
      exact (hlast earlier blockHeight mined place later htail hl).mpr
        (hcreated earlier blockHeight mined place later htail hl)
    have hc' : ∀ op ∈ c.tail, ¬ op.Creates key := fun op hop hcr => hc ⟨op, hop, hcr⟩
    exact (c.converges_iff_settles key hx hc').mpr (hsettles hc')

def oneShard : TxKey → Nat := fun _ => 0

def lateKey : TxKey := ⟨Vector.replicate 32 7⟩

def blockA : BlockEntry := ⟨1, 20, 0⟩

def blockB : BlockEntry := ⟨2, 21, 0⟩

/-- The transaction is created below the fence, and captured at the end of the history. -/
def capturedLate (ops : List MinedOp) (metadata : Metadata) (hsound : ∀ op ∈ ops, op.Sound)
    (hadmits : Guarded (MinedTable.perform oneShard) (MinedTable.Admits oneShard) .empty
      (.create lateKey 10 none none :: ops)) : MinedCrash oneShard where
  history := .create lateKey 10 none none :: ops
  sound := List.forall_mem_cons.mpr ⟨by simp [MinedOp.Sound], hsound⟩
  admits := hadmits
  metadata := metadata
  fence := 1
  scanned := [lateKey]
  scanned_nodup := List.nodup_singleton _
  time _ := ops.length + 1
  fence_le_time _ := Nat.le_add_left ..
  scanned_of_live key h := by
    have hlive := h 1 le_rfl
    have hslots : (MinedTable.after oneShard
        ((MinedOp.create lateKey 10 none none :: ops).take 1)).slots =
          Function.update (fun _ => none) lateKey (some 0) := by rfl
    rw [hslots] at hlive
    by_contra hnot
    have hne : key ≠ lateKey := fun heq => hnot (List.mem_singleton.mpr heq)
    rw [Function.update_of_ne hne] at hlive
    exact Bool.noConfusion hlive
  allSpent _ := false
  deFlags _ := some 0
  redoFence := 1
  redoFence_le := le_rfl
  primary key :=
    ((MinedTable.after oneShard (.create lateKey 10 none none :: ops)).slots key).map some
  primaryTime _ := ops.length + 1
  redoFence_le_time _ := Nat.le_add_left ..
  isSome_primary key := by
    rw [Option.isSome_map, List.take_of_length_le (by simp)]

/-- A reorganisation unsets the only block at height 30 and the transaction is mined off the longest
chain. Replayed over the captured state, the unset finds the second block there and leaves the
height that the first set cleared. -/
def reorganised : MinedCrash oneShard :=
  capturedLate [.setMined [lateKey] blockA true, .unsetMined [lateKey] 1 30,
    .setMined [lateKey] blockB false] (fun _ => none) (by decide +kernel) (by decide +kernel)

def missingKey : TxKey := ⟨Vector.replicate 32 8⟩

def placedKey : TxKey := ⟨Vector.replicate 32 9⟩

/-- The first set also names a transaction that is missing. Another transaction is created with its
record at offset 4096 of device 0. -/
def minedAndUnset : MinedCrash oneShard :=
  capturedLate [.setMined [lateKey, missingKey] blockA true,
      .create placedKey 12 none (some (0, 4096)), .unsetMined [lateKey] 1 30]
    (fun place => if place = (0, 4096) then some (placedKey, 12) else none)
    (by decide +kernel) (by decide +kernel)

theorem minedAndUnset_known (key : TxKey) (hp : (minedAndUnset.recoveredPrimary key).isSome) :
    key = lateKey ∨ key = placedKey := by
  have hslots : (MinedTable.after oneShard minedAndUnset.history).slots =
      Function.update (Function.update (fun _ => none) lateKey (some 0)) placedKey (some 1) := by
    rfl
  by_contra hnot
  obtain ⟨hlate, hplaced⟩ := not_or.mp hnot
  have hprimary : minedAndUnset.primary key = none := by
    refine Option.map_eq_none_iff.mpr ((congrFun hslots key).trans ?_)
    rw [Function.update_of_ne hplaced, Function.update_of_ne hlate]
  have hnone : minedAndUnset.recoveredPrimary key = none := by
    rw [recoveredPrimary, hprimary]
    exact if_neg fun h => hplaced h.1.symm
  simp [hnone] at hp

end MinedCrash

end TeraSlab.Recovery
