import TeraSlab.Recovery.Existence

/-!
# Keys registered at unique places

Beside the primary index, recovery keeps the key last registered at each place: a store and an
offset in it. When another key is registered there, the index loses the key it finds. The owner of
a place is not forgotten when its record moves or is deleted.

A replay carries the registrations of the snapshot and of the entries so far, the newest first.
-/

namespace TeraSlab.Recovery

open Foundations TeraSlab.Index TeraSlab.Redo

abbrev Place := Nat × Nat

/-- The entries that register or delete a key, each with what its replay finds: the header read
back at the place, or whether the marker of a deleted record was written. -/
inductive KeyEntry where
  | replicaCreate (key : TxKey) (place : Place) (utxoCount : Nat) (read : Option Header)
  | create (key : TxKey) (place : Place) (utxoCount recordLen : Nat) (read : Option Header)
  | createV2 (key : TxKey) (place : Place) (utxoCount : Nat) (read : Option Header)
  | relocate (key : TxKey) (place : Place) (utxoCount : Nat) (read : Option Header)
  | delete (key : TxKey) (written : Bool)

def KeyEntry.target : KeyEntry → Option (TxKey × Place)
  | replicaCreate key place .. | create key place .. | createV2 key place ..
  | relocate key place .. => some (key, place)
  | delete .. => none

structure KeyReplay where
  index : AList fun _ : TxKey => Place
  owners : AList fun _ : Place => TxKey
  stopped : Bool
  registered : List (TxKey × Place)

namespace KeyReplay

/-- Over a snapshot of the index, with the owners that `build_offset_owners` finds in it. -/
def start (snapshot : AList fun _ : TxKey => Place) : KeyReplay where
  index := snapshot
  owners := snapshot.entries.foldl (fun owners e => owners.insert e.2 e.1) ∅
  stopped := false
  registered := snapshot.entries.map fun e => (e.1, e.2)

variable (r : KeyReplay) (key : TxKey) (place : Place) (utxoCount : Nat) (read : Option Header)

def registerUniqueOffset : KeyReplay :=
  let index :=
    match r.owners.lookup place with
    | some stale => if stale ≠ key then r.index.erase stale else r.index
    | none => r.index
  { r with index := index.insert key place, owners := r.owners.insert place key }

/-- A failure that ends the replay. -/
def stop : KeyReplay := { r with stopped := true }

def registerRead (missing wrong : KeyReplay) : KeyReplay :=
  match read with
  | none => missing
  | some h =>
    if h.utxoCount ≠ utxoCount ∨ h.key ≠ key then wrong else r.registerUniqueOffset key place

/-- That a replica does not have the record is tolerated. -/
def replayReplicaCreate : KeyReplay :=
  if (r.index.lookup key).isSome then r
  else r.registerRead key place utxoCount read r r.stop

def replayCreate (recordLen : Nat) : KeyReplay :=
  if (r.index.lookup key).isSome then r
  else if recordLen < metadataSize then r.stop
  else r.registerRead key place utxoCount read r.stop r.stop

def replayCreateV2 : KeyReplay :=
  if (r.index.lookup key).isSome then r else r.registerRead key place utxoCount read r r

def replayRelocate : KeyReplay :=
  if (r.index.lookup key).isNone then r else r.registerRead key place utxoCount read r r

def replayDelete (written : Bool) : KeyReplay :=
  if written then { r with index := r.index.erase key } else r.stop

def replayEntry : KeyEntry → KeyReplay
  | .replicaCreate key place utxoCount read => r.replayReplicaCreate key place utxoCount read
  | .create key place utxoCount recordLen read => r.replayCreate key place utxoCount read recordLen
  | .createV2 key place utxoCount read => r.replayCreateV2 key place utxoCount read
  | .relocate key place utxoCount read => r.replayRelocate key place utxoCount read
  | .delete key written => r.replayDelete key written

/-- The key and the place of an entry that is in the index after its replay. -/
def registration (e : KeyEntry) : Option (TxKey × Place) :=
  e.target.filter fun t => (r.replayEntry e).index.lookup t.1 = some t.2

def step (r : KeyReplay) (e : KeyEntry) : KeyReplay :=
  if r.stopped then r
  else { r.replayEntry e with registered := (r.registration e).toList ++ r.registered }

/-- The key that was registered last at the place. -/
def lastAt : Option TxKey := (r.registered.find? (·.2 = place)).map (·.1)

/-- The entry deletes the key, or registers another one at the place. -/
def Takes (e : KeyEntry) (key : TxKey) (place : Place) : Prop :=
  (∃ written, e = .delete key written) ∨ ∃ key' ≠ key, e.target = some (key', place)

/-- A key that goes from the index is deleted, or was at the place that is registered. -/
def EvictsAlias (r : KeyReplay) (e : KeyEntry) : Prop :=
  ∀ key place, r.index.lookup key = some place → (r.step e).index.lookup key = none →
    Takes e key place

/-- Every step evicts true aliases only, no two keys end at one place, and a key that was in the
index is missing in the end only if an entry took it from the last place that it had. -/
structure EvictsOnlyAliases (r : KeyReplay) (log : List KeyEntry) : Prop where
  evicts : Guarded step EvictsAlias r log
  distinct : ∀ key key' place, (run step r log).index.lookup key = some place →
    (run step r log).index.lookup key' = some place → key = key'
  missing : ∀ key front, front <+: log → key ∈ (run step r front).index →
    key ∉ (run step r log).index →
    ∃ before e after place, log = before ++ e :: after ∧ Takes e key place ∧
      (run step r before).index.lookup key = some place ∧
      ∀ mid, mid <+: after → key ∉ (run step r (before ++ e :: mid)).index

/-- The key that was registered last at the place of a registration is still there, or not in the
index, if it is another one. -/
def Unmoved (r : KeyReplay) (e : KeyEntry) : Prop :=
  ∀ t ∈ r.registration e, ∀ k ∈ r.lastAt t.2, k ≠ t.1 → ∀ p ∈ r.index.lookup k, p = t.2

instance (r : KeyReplay) (e : KeyEntry) : Decidable (r.Unmoved e) :=
  inferInstanceAs (Decidable (∀ t ∈ r.registration e, _))

variable {r key place} {e : KeyEntry}

theorem lookup_registerUniqueOffset (k : TxKey) :
    (r.registerUniqueOffset key place).index.lookup k =
      if k = key then some place
      else if r.owners.lookup place = some k then none else r.index.lookup k := by
  simp only [registerUniqueOffset]
  split_ifs with hkey howner
  · rw [hkey, AList.lookup_insert]
  · simp [AList.lookup_insert_ne hkey, howner, hkey]
  · rw [AList.lookup_insert_ne hkey]
    split
    · split_ifs
      · exact AList.lookup_erase_ne (by grind)
      · rfl
    · rfl

/-- An entry registers its key, or keeps the owners and all of the index but a key it deletes. -/
theorem replayEntry_cases (r : KeyReplay) (e : KeyEntry) :
    ((r.replayEntry e).owners = r.owners ∧ ∀ k,
        (r.replayEntry e).index.lookup k = r.index.lookup k ∨
        (r.replayEntry e).index.lookup k = none ∧ ∃ written, e = .delete k written) ∨
      ∃ key place, e.target = some (key, place) ∧
        r.replayEntry e = r.registerUniqueOffset key place := by
  cases e <;> rename_i found <;> cases found <;>
    grind [replayEntry, replayReplicaCreate, replayCreate, replayCreateV2, replayRelocate,
      replayDelete, registerRead, stop, KeyEntry.target, AList.lookup_erase, AList.lookup_erase_ne]

/-- The owner of a place is the key that the index has there, if any, and was registered there
last. -/
structure Inv (r : KeyReplay) : Prop where
  owned : ∀ key place, r.index.lookup key = some place → r.owners.lookup place = some key
  last : ∀ key place, r.owners.lookup place = some key → r.lastAt place = some key

/-- An entry that registers its key at the place ends with the key there. -/
theorem registration_eq (htarget : e.target = some (key, place))
    (heq : r.replayEntry e = r.registerUniqueOffset key place) :
    r.registration e = some (key, place) := by
  rw [registration, htarget, heq]
  simp [lookup_registerUniqueOffset]

theorem Inv.owned_replayEntry (h : r.Inv) (e : KeyEntry) (k : TxKey) (p : Place)
    (hk : (r.replayEntry e).index.lookup k = some p) :
    (r.replayEntry e).owners.lookup p = some k := by
  have hown := h.owned k p
  rcases r.replayEntry_cases e with ⟨howners, hindex⟩ | ⟨key, place, htarget, heq⟩
  · grind
  · rw [heq] at hk ⊢
    replace hk := (lookup_registerUniqueOffset k).symm.trans hk
    show (r.owners.insert place key).lookup p = some k
    grind [AList.lookup_insert, AList.lookup_insert_ne]

theorem Inv.step (h : r.Inv) (e : KeyEntry) : (r.step e).Inv := by
  unfold KeyReplay.step
  split_ifs
  · exact h
  refine ⟨h.owned_replayEntry e, fun k p hp => ?_⟩
  replace hp : (r.replayEntry e).owners.lookup p = some k := hp
  cases hreg : r.registration e with
  | none =>
    rcases r.replayEntry_cases e with ⟨howners, -⟩ | ⟨key, place, htarget, heq⟩
    · exact h.last k p (howners ▸ hp)
    · cases hreg.symm.trans (registration_eq htarget heq)
  | some t =>
    obtain ⟨htarget, hlookup⟩ := Option.filter_eq_some_iff.mp hreg
    have htop := h.owned_replayEntry e t.1 t.2 (of_decide_eq_true hlookup)
    by_cases hplace : t.2 = p
    · subst hplace
      cases hp.symm.trans htop
      simp [lastAt]
    · have hkeep : r.owners.lookup p = some k := by
        rcases r.replayEntry_cases e with ⟨howners, -⟩ | ⟨key, place, htarget', heq⟩
        · exact howners ▸ hp
        · cases htarget.symm.trans htarget'
          rw [heq] at hp
          exact (AList.lookup_insert_ne (Ne.symm hplace)).symm.trans hp
      simpa [lastAt, hplace] using h.last k p hkeep

theorem Inv.evictsAlias (h : r.Inv) (hunmoved : r.Unmoved e) : r.EvictsAlias e := by
  intro k p hk hgone
  unfold KeyReplay.step at hgone
  split_ifs at hgone
  · simp [hk] at hgone
  rcases r.replayEntry_cases e with ⟨-, hindex⟩ | ⟨key, place, htarget, heq⟩
  · exact .inl ((hindex k).resolve_left (by grind)).2
  · rw [heq] at hgone
    replace hgone := (lookup_registerUniqueOffset k).symm.trans hgone
    have hne : k ≠ key := by grind
    have hown : r.owners.lookup place = some k := by grind
    have hplace := hunmoved _ (registration_eq htarget heq) k (h.last k place hown) hne p hk
    exact .inr ⟨key, hne.symm, hplace ▸ htarget⟩

theorem inv_start {snapshot : AList fun _ : TxKey => Place}
    (hplaces : (snapshot.entries.map (·.2)).Nodup) : (start snapshot).Inv := by
  have howners := @lookup_foldl_insert _ _ _ _ snapshot.entries fun k k' p hk hk' =>
    congrArg Sigma.fst (List.inj_on_of_nodup_map hplaces hk hk' rfl)
  refine ⟨fun key place hkey => ?_, fun key place hplace => ?_⟩
  · exact (howners key place).mpr (AList.mem_lookup_iff.mp hkey)
  · have hmem : (key, place) ∈ (start snapshot).registered :=
      List.mem_map.mpr ⟨_, (howners key place).mp hplace, rfl⟩
    obtain ⟨t, ht⟩ : ∃ t, (start snapshot).registered.find? (·.2 = place) = some t :=
      Option.isSome_iff_exists.mp (List.find?_isSome.mpr ⟨_, hmem, by simp⟩)
    obtain ⟨e, he, rfl⟩ := List.mem_map.mp (List.mem_of_find?_eq_some ht)
    obtain rfl : e.2 = place := by simpa using List.find?_some ht
    rw [lastAt, ht]
    exact (congrArg some (Option.some.inj (hplace.symm.trans ((howners e.1 e.2).mpr he)))).symm

/-- Replay over a snapshot with distinct places evicts only true aliases when no entry registers a
key at a place whose last key was another one and has left for a different place. -/
theorem evictsOnlyAliases_of_unmoved (snapshot : AList fun _ : TxKey => Place)
    (log : List KeyEntry) (hplaces : (snapshot.entries.map (·.2)).Nodup)
    (hunmoved : Guarded step Unmoved (start snapshot) log) :
    (start snapshot).EvictsOnlyAliases log := by
  have hinv := inv_start hplaces
  have hevicts : Guarded step EvictsAlias (start snapshot) log :=
    hunmoved.of_invariant (fun r e h hu => ⟨h.evictsAlias hu, h.step e⟩) hinv
  refine ⟨hevicts, fun key key' place hkey hkey' => ?_, fun key front hfront hhad hgone => ?_⟩
  · have hend := hunmoved.invariant (fun r e h _ => h.step e) hinv
    exact Option.some.inj ((hend.owned key place hkey).symm.trans (hend.owned key' place hkey'))
  · obtain ⟨before, e, after, rfl, hbefore, hall⟩ :=
      exists_last_step (P := fun r : KeyReplay => key ∈ r.index) hfront hhad hgone
    obtain ⟨place, hplace⟩ := Option.isSome_iff_exists.mp (AList.lookup_isSome.mpr hbefore)
    refine ⟨before, e, after, place, rfl, ?_, hplace, hall⟩
    refine (guarded_append.mp hevicts).2.1 key place hplace (AList.lookup_eq_none.mpr ?_)
    have := hall [] List.nil_prefix
    rwa [run_append] at this

def someKey (byte : UInt8) : TxKey := ⟨.replicate 32 byte⟩

def oneRecord : AList fun _ : TxKey => Place := (∅ : AList _).insert (someKey 1) (0, 4096)

/-- A stale entry of the snapshot makes way for the record that is at its place. -/
theorem evictsOnlyAliases_reused : (start oneRecord).EvictsOnlyAliases
    [.createV2 (someKey 2) (0, 4096) 1 (some ⟨someKey 2, 1, 0⟩)] :=
  evictsOnlyAliases_of_unmoved _ _ (by decide +kernel) (by decide +kernel)

/-- A record moves, and another one is created at the place it left: the first one is lost. -/
theorem relocated_key_evicted : ¬ (start oneRecord).EvictsOnlyAliases
    [.relocate (someKey 1) (0, 8192) 1 (some ⟨someKey 1, 1, 0⟩),
      .createV2 (someKey 2) (0, 4096) 1 (some ⟨someKey 2, 1, 0⟩)] := by
  intro h
  rcases h.evicts.2.1 (someKey 1) (0, 8192) (by decide +kernel) (by decide +kernel) with
    ⟨_, heq⟩ | ⟨_, _, heq⟩
  · cases heq
  · simp [KeyEntry.target] at heq

end KeyReplay

end TeraSlab.Recovery
