import TeraSlab.Recovery.MinedTracking

/-!
# Recovery of the mined index

The mined index lives in memory. After a crash it is rebuilt from a snapshot by transaction and the
redo entries above the fence of the snapshot: `restore` gives every transaction of the snapshot that
the recovered primary index knows a fresh slot, and `replay` runs the entries over the result. A
replayed operation goes to the slot that recovery itself gave the transaction, or else to the one
that the primary index still names. A create without the bytes of its record is replayed from what
the device has at its place, and skipped when the record there is another's.

The rebuilt index mirrors a map from transactions to states, which the replayed operations change in
the way the live ones change the live states, except for the creates that are skipped.
-/

namespace TeraSlab.Recovery

open Foundations TeraSlab.Index

structure MinedByKeyEntry where
  txid : TxKey
  unminedSince : Nat
  blockEntries : List BlockEntry
  allSpent : Bool
  deFlags : Option Flags

namespace MinedByKeyEntry

def state (e : MinedByKeyEntry) : MinedState := ⟨e.blockEntries, e.unminedSince⟩

def Sound (e : MinedByKeyEntry) : Prop :=
  e.state.ids.Nodup ∧ ∀ b ∈ e.blockEntries, b.blockId ≠ 0

end MinedByKeyEntry

/-- The metadata that can be read from the devices: whose record is at a place, and the height since
which that one is unmined. -/
abbrev Metadata := Nat × Nat → Option (TxKey × Nat)

namespace Metadata

variable (metadata : Metadata)

def readMetadataForKey (key : TxKey) (place : Nat × Nat) : Option Nat :=
  ((metadata place).filter (·.1 = key)).map (·.2)

/-- The height that the replay of a create starts from, which the bytes in the entry give or else
the device. -/
def createdUnmined? (key : TxKey) (blockHeight : Nat) (mined : Option BlockEntry) :
    Option (Nat × Nat) → Option Nat
  | none => some (createdUnmined blockHeight mined)
  | some place => metadata.readMetadataForKey key place

end Metadata

/-- The state of recovery: the rebuilt table, whose `slots` are those that recovery gave out, and
the slots of the primary index, in which a transaction may have none. -/
structure MinedRecovery where
  table : MinedTable
  primary : TxKey → Option (Option Nat)

namespace MinedRecovery

variable (route : TxKey → Nat) (r : MinedRecovery)

def restoreEntry (e : MinedByKeyEntry) : MinedRecovery :=
  if (r.primary e.txid).isSome then
    let slot := r.table.nextSlot route e.txid e.unminedSince
    let t := r.table.allocFor route e.txid e.unminedSince
    let t := e.blockEntries.foldl (fun t b => t.call route e.txid
      (.applySetMined e.txid slot b (e.unminedSince = 0))) t
    let t := if e.allSpent then t.call route e.txid (.setAllSpent slot true) else t
    let t := match e.deFlags with
      | none => t
      | some deFlags => t.call route e.txid (.restoreDeFlags e.txid slot deFlags)
    { table := t, primary := Function.update r.primary e.txid (some (some slot)) }
  else r

/-- A created transaction gets a fresh slot, and the one that recovery gave it before is freed. -/
def applyCreate (key : TxKey) (unminedSince : Nat) : MinedRecovery :=
  let slot := r.table.nextSlot route key unminedSince
  let t := r.table.allocFor route key unminedSince
  { table := match r.table.slots key with
      | none => t
      | some stale => t.call route key (.free stale)
    primary := if (r.primary key).isSome then Function.update r.primary key (some (some slot))
      else r.primary }

def replayCall (primary : TxKey → Option (Option Nat)) (t : MinedTable) (key : TxKey)
    (c : Nat → ShardCall) : MinedTable :=
  match (t.slots key).or (primary key).join with
  | none => t
  | some slot => t.call route key (c slot)

def replayEntry (metadata : Metadata) (r : MinedRecovery) : MinedOp → MinedRecovery
  | .create key blockHeight mined place =>
    let r := match metadata.createdUnmined? key blockHeight mined place with
      | none => r
      | some unminedSince => r.applyCreate route key unminedSince
    match mined with
    | none => r
    | some b =>
      if b.blockId = 0 then r
      else { r with table := replayCall route r.primary r.table key
                      (.applySetMined key · b true) }
  | .setMined txids b onLongestChain =>
    { r with table := txids.foldl (fun t key => replayCall route r.primary t key
                        (.applySetMined key · b onLongestChain)) r.table }
  | .unsetMined txids blockId currentHeight =>
    { r with table := txids.foldl (fun t key => replayCall route r.primary t key
                        (.applyUnset key · blockId currentHeight)) r.table }
  | .markOnLongestChain key onLongestChain currentHeight =>
    { r with table := replayCall route r.primary r.table key
                        (.setLongestChain key · onLongestChain currentHeight) }
  | .delete key => { r with table := r.table.delete route key }

def restore (primary : TxKey → Option (Option Nat)) (entries : List MinedByKeyEntry) :
    MinedRecovery :=
  entries.foldl (restoreEntry route) ⟨.empty, primary⟩

def recoverMinedIndex (metadata : Metadata) (primary : TxKey → Option (Option Nat))
    (entries : List MinedByKeyEntry) (tail : List MinedOp) : MinedRecovery :=
  tail.foldl (replayEntry route metadata) (restore route primary entries)

/-- What a reader sees of a transaction after recovery. -/
def read (key : TxKey) : Option MinedState :=
  (r.primary key).join.bind fun slot =>
    ((r.table.arena (route key)).shard.readBlockEntries key slot).map fun b => ⟨b.1, b.2⟩

/-- The primary index names no live slot for the transaction. -/
def Vacant (primary : TxKey → Option (Option Nat)) (t : MinedTable) (key : TxKey) : Prop :=
  ∀ slot ∈ (primary key).join, (t.arena (route key)).shard.get slot = none

/-- A call for the transaction goes to the slot that recovery gave it or to none. -/
def Finds (key : TxKey) : Prop :=
  (r.table.slots key).isSome ∨ Vacant route r.primary r.table key

instance : DecidablePred (Finds route r) := fun _ =>
  inferInstanceAs (Decidable (_ ∨ ∀ _ ∈ _, _))

end MinedRecovery

namespace MinedOp

variable (metadata : Metadata)

/-- The transactions for whose slots the replay of the operation looks. -/
def meets : MinedOp → List TxKey
  | .create key blockHeight mined place =>
    match metadata.createdUnmined? key blockHeight mined place with
    | none => mined.toList.map fun _ => key
    | some _ => []
  | .setMined txids .. | .unsetMined txids .. => txids
  | .markOnLongestChain key .. => [key]
  | .delete _ => []

/-- What the replay of the operation does to the state that recovery has of a transaction. -/
def replayStep (key : TxKey) (x : Option MinedState) : MinedOp → Option MinedState
  | .create k blockHeight mined place =>
    if k = key then
      match metadata.createdUnmined? key blockHeight mined place with
      | none => x.map (·.applyAll (mined.toList.map (.set · true)))
      | some unminedSince => some (createdState unminedSince mined)
    else x
  | op => op.step key x

variable {metadata} {key : TxKey} {op : MinedOp} {x : Option MinedState}

theorem replayStep_of_not (hc : ¬ op.Creates key) :
    op.replayStep metadata key x = op.step key x := by
  cases op with
  | create k =>
    have hk : ¬ k = key := hc
    simp only [replayStep, step, if_neg hk]
  | _ => rfl

end MinedOp

theorem update_eq_some_iff {f : TxKey → Option Nat} {k key : TxKey} {i slot : Nat} :
    Function.update f key (some slot) k = some i ↔
      k = key ∧ slot = i ∨ k ≠ key ∧ f k = some i := by
  by_cases hk : k = key <;> simp [hk]

/-! ### Mirroring -/

variable {route : TxKey → Nat} {r : MinedRecovery} {states : TxKey → Option MinedState}
  {primary : TxKey → Option (Option Nat)} {key : TxKey} {m : MinedState}

/-- The rebuilt table tracks the states, the primary index names its slots, and knows the
transactions it knew at the start. -/
structure Mirrors (route : TxKey → Nat) (primary : TxKey → Option (Option Nat))
    (r : MinedRecovery) (states : TxKey → Option MinedState) : Prop where
  tracks : Tracks route r.table states
  pointed : ∀ key slot, r.table.slots key = some slot →
    r.primary key = none ∨ r.primary key = some (some slot)
  present : ∀ key, (r.primary key).isSome = (primary key).isSome

namespace Tracks

variable {t : MinedTable} {slot : Nat} {c : Nat → ShardCall} {e : MinedEvent}

section

variable (h : Tracks route t states)
include h

theorem call_slot {c : ShardCall} {m' : MinedState} (hslot : t.slots key = some slot)
    (hm : states key = some m)
    (hmoves : ∀ o : OwnedShard, o.Inv → Shows o slot key m → Moves o (o.step c) slot key m') :
    Tracks route (t.call route key c) (Function.update states key (some m')) := by
  obtain ⟨slot', hslot', hk⟩ := h.exists_slot hm
  obtain rfl : slot' = slot := Option.some.inj (hslot'.symm.trans hslot)
  exact h.call hk hslot (hmoves _ (h.inv _) hk.1)

theorem applyBlocks {bs : List BlockEntry} (hslot : t.slots key = some slot)
    (hm : states key = some m) (onLongestChain : Bool) (hbs : ∀ b ∈ bs, b.blockId ≠ 0) :
    Tracks route (bs.foldl (fun t b => t.call route key
        (.applySetMined key slot b onLongestChain)) t)
      (Function.update states key (some (m.applyAll (bs.map fun b => .set b onLongestChain)))) ∧
    (bs.foldl (fun t b => t.call route key
        (.applySetMined key slot b onLongestChain)) t).slots = t.slots := by
  induction bs generalizing t states m with
  | nil =>
    refine ⟨h.congr fun k => ?_, rfl⟩
    rw [List.map_nil, MinedState.applyAll_nil, ← hm, Function.update_eq_self]
  | cons b bs ih =>
    have hcall := h.call_slot hslot hm fun o hinv hshows =>
      Moves.applySetMined hinv hshows b onLongestChain (hbs b List.mem_cons_self)
    obtain ⟨htracks, hslots⟩ := ih hcall hslot (Function.update_self ..)
      fun b hb => hbs b (List.mem_cons_of_mem _ hb)
    rw [Function.update_idem] at htracks
    exact ⟨htracks, hslots⟩

/-- A create that is replayed over a slot that recovery gave the transaction before. -/
theorem recreate (unminedSince : Nat) : Tracks route (match t.slots key with
        | none => t.allocFor route key unminedSince
        | some stale => (t.allocFor route key unminedSince).call route key (.free stale))
      (Function.update states key (some ⟨[], unminedSince⟩)) := by
  cases hx : states key with
  | none =>
    rw [h.slots_eq_none_iff.mpr hx]
    exact h.alloc hx unminedSince
  | some m =>
    obtain ⟨stale, hstale, hshows, honly⟩ := h.exists_slot hx
    have hinv := h.inv (route key)
    obtain ⟨slot, rfl, hdead, hfresh, hrest⟩ := allocCreated_cases key unminedSince hinv
    have hne : stale ≠ ((t.arena (route key)).shard.allocCreated key unminedSince).2 := by
      rintro heq
      obtain ⟨e, he, -⟩ := hshows.entry
      simp [← heq, he] at hdead
    have hserves := serves_allocCreated key unminedSince hinv
    have howner := (hrest stale hne).1.trans hshows.owner
    have hkeeps : Keeps (((t.arena (route key)).step (.allocCreated key unminedSince)).step
        (.free stale)) key (some ((t.arena (route key)).shard.allocCreated key unminedSince).2)
        (some ⟨[], unminedSince⟩) := by
      refine ⟨hfresh.free hserves.inv hne.symm, fun i hocc => ?_⟩
      obtain ⟨hi, hocc⟩ := occupies_free hserves.inv hocc
      exact (occupies_allocCreated key unminedSince hinv hocc).resolve_right
        fun hocc => hi (honly i hocc)
    have hserve := h.serve (hserves.trans (serves_free hserves.inv howner)) hkeeps
    rw [hstale]
    simpa [MinedTable.call, MinedTable.allocFor, MinedTable.setSlot, MinedTable.nextSlot]
      using hserve

/-- A replayed call goes to the slot that recovery gave the transaction. Without one it is dropped,
or meets a free slot and does nothing. In either case the free slots stay free. -/
theorem replayCall (primary : TxKey → Option (Option Nat)) (c : Nat → ShardCall) (e : MinedEvent)
    (hfinds : (t.slots key).isSome ∨ MinedRecovery.Vacant route primary t key)
    (hfree : ∀ (o : OwnedShard) slot, o.shard.get slot = none → o.step (c slot) = o)
    (hmoves : ∀ (o : OwnedShard) slot m, o.Inv → Shows o slot key m →
      Moves o (o.step (c slot)) slot key (m.apply e)) :
    Tracks route (MinedRecovery.replayCall route primary t key c)
        (Function.update states key ((states key).map (·.apply e))) ∧
      ∀ i slot, (t.arena i).shard.get slot = none →
        ((MinedRecovery.replayCall route primary t key c).arena i).shard.get slot = none := by
  cases hm : states key with
  | none =>
    have hslot := h.slots_eq_none_iff.mpr hm
    have hvacant := hfinds.resolve_left (by simp [hslot])
    have hsame : MinedRecovery.replayCall route primary t key c = t := by
      rw [MinedRecovery.replayCall, hslot, Option.none_or]
      cases hp : (primary key).join with
      | none => rfl
      | some slot =>
        dsimp only
        rw [MinedTable.call, hfree _ slot (hvacant slot hp), Function.update_eq_self]
    rw [hsame, Option.map_none, ← hm, Function.update_eq_self]
    exact ⟨h, fun _ _ => id⟩
  | some m =>
    obtain ⟨slot, hslot, hk⟩ := h.exists_slot hm
    have hmove := hmoves _ slot m (h.inv (route key)) hk.1
    rw [MinedRecovery.replayCall, hslot]
    refine ⟨h.call hk hslot hmove, fun i s hs => ?_⟩
    dsimp only [Option.some_or, MinedTable.call]
    by_cases hi : i = route key
    · subst hi
      have hne : s ≠ slot := by
        rintro rfl
        obtain ⟨e, he, -⟩ := hk.1.entry
        simp [he] at hs
      rw [Function.update_self, hmove.elsewhere.get s hne]
      exact hs
    · rw [Function.update_of_ne hi]
      exact hs

/-- The flags of a restored slot do not change the state it shows. -/
theorem restoreFlags (hslot : t.slots key = some slot) (hm : states key = some m) (allSpent : Bool)
    (deFlags : Option Flags) :
    let t₁ := if allSpent then t.call route key (.setAllSpent slot true) else t
    let t₂ := match deFlags with
      | none => t₁
      | some deFlags => t₁.call route key (.restoreDeFlags key slot deFlags)
    Tracks route t₂ states ∧ t₂.slots = t.slots := by
  intro t₁ t₂
  have hkeep : ∀ {t : MinedTable} {c : ShardCall}, Tracks route t states →
      t.slots key = some slot → (∀ o : OwnedShard, o.Inv → Shows o slot key m →
        Moves o (o.step c) slot key m) → Tracks route (t.call route key c) states := by
    intro t c h hslot hmoves
    have hcall := h.call_slot hslot hm hmoves
    rwa [← hm, Function.update_eq_self] at hcall
  have hspent : Tracks route t₁ states ∧ t₁.slots = t.slots := by
    unfold t₁
    split_ifs
    · exact ⟨hkeep h hslot fun o hinv hshows => Moves.setAllSpent hinv hshows true, rfl⟩
    · exact ⟨h, rfl⟩
  cases deFlags with
  | none => exact hspent
  | some deFlags =>
    exact ⟨hkeep hspent.1 (hspent.2 ▸ hslot) fun o hinv hshows =>
      Moves.restoreDeFlags hinv hshows deFlags, hspent.2⟩

end

end Tracks

namespace Mirrors

variable {e : MinedByKeyEntry} {es : List MinedByKeyEntry} {op : MinedOp}

theorem empty (route : TxKey → Nat) (primary : TxKey → Option (Option Nat)) :
    Mirrors route primary ⟨.empty, primary⟩ fun _ => none :=
  ⟨Tracks.empty, fun _ _ hslot => by simp [MinedTable.empty] at hslot, fun _ => rfl⟩

variable {states' : TxKey → Option MinedState} {t : MinedTable}

/-- Recovery gives a transaction a slot and, when the primary index knows it, notes it there. -/
theorem point (h : Mirrors route primary r states) {slot : Nat} (ht : Tracks route t states')
    (hslots : t.slots = Function.update r.table.slots key (some slot)) :
    Mirrors route primary ⟨t, if (r.primary key).isSome
      then Function.update r.primary key (some (some slot)) else r.primary⟩ states' where
  tracks := ht
  pointed k s hs := by
    dsimp only at hs ⊢
    rw [hslots] at hs
    rcases update_eq_some_iff.mp hs with ⟨rfl, rfl⟩ | ⟨hk, hs⟩
    · split_ifs with hp
      · exact .inr (Function.update_self ..)
      · exact .inl (Option.not_isSome_iff_eq_none.mp hp)
    · split_ifs with hp
      · rw [Function.update_of_ne hk]
        exact h.pointed k s hs
      · exact h.pointed k s hs
  present k := by
    rw [← h.present]
    dsimp only
    split_ifs with hp
    · by_cases hk : k = key
      · subst hk
        simp [hp]
      · rw [Function.update_of_ne hk]
    · rfl

theorem restoreEntry (h : Mirrors route primary r states) (he : e.Sound)
    (hx : states e.txid = none) :
    Mirrors route primary (r.restoreEntry route e)
      (if (primary e.txid).isSome then Function.update states e.txid (some e.state)
        else states) := by
  by_cases hp : (primary e.txid).isSome
  · have halloc := h.tracks.alloc hx e.unminedSince
    have hslot : (r.table.allocFor route e.txid e.unminedSince).slots e.txid =
        some (r.table.nextSlot route e.txid e.unminedSince) := by
      simp [MinedTable.allocFor, MinedTable.setSlot]
    obtain ⟨hblocks, hslots⟩ := halloc.applyBlocks hslot (Function.update_self ..)
      (e.unminedSince = 0) he.2
    rw [Function.update_idem, MinedState.applyAll_rebuild e.unminedSince [] e.blockEntries he.1]
      at hblocks
    obtain ⟨htracks, hslots'⟩ := hblocks.restoreFlags (hslots ▸ hslot) (Function.update_self ..)
      e.allSpent e.deFlags
    have hpoint := h.point htracks (hslots'.trans hslots)
    rw [← h.present] at hp
    rw [if_pos hp] at hpoint
    rw [if_pos (h.present _ ▸ hp), MinedRecovery.restoreEntry, if_pos hp]
    exact hpoint
  · rw [if_neg hp, MinedRecovery.restoreEntry, if_neg (h.present _ ▸ hp)]
    exact h

theorem restoreEntry_primary (r : MinedRecovery) (e : MinedByKeyEntry) (hk : key ≠ e.txid) :
    (r.restoreEntry route e).primary key = r.primary key := by
  by_cases hp : (r.primary e.txid).isSome
  · rw [MinedRecovery.restoreEntry, if_pos hp]
    exact Function.update_of_ne hk ..
  · rw [MinedRecovery.restoreEntry, if_neg hp]

/-- The state that a snapshot gives to a transaction the primary index knows. -/
def restored (primary : TxKey → Option (Option Nat)) (es : List MinedByKeyEntry) (key : TxKey) :
    Option MinedState :=
  if (primary key).isSome then (es.find? (·.txid = key)).map (·.state) else none

theorem restore (h : Mirrors route primary r states) (hes : ∀ e ∈ es, e.Sound)
    (hnodup : (es.map (·.txid)).Nodup) (hx : ∀ e ∈ es, states e.txid = none) :
    Mirrors route primary (es.foldl (MinedRecovery.restoreEntry route) r) fun key =>
      (restored primary es key).or (states key) := by
  induction es generalizing r states with
  | nil => exact ⟨h.tracks.congr fun key => by simp [restored], h.pointed, h.present⟩
  | cons e es ih =>
    obtain ⟨hnot, hnodup⟩ := List.nodup_cons.mp hnodup
    have hne : ∀ e' ∈ es, e'.txid ≠ e.txid := fun e' he' heq =>
      hnot (List.mem_map.mpr ⟨e', he', heq⟩)
    have hone := h.restoreEntry (hes e List.mem_cons_self) (hx e List.mem_cons_self)
    have hrest := ih hone (fun e' he' => hes e' (List.mem_cons_of_mem _ he')) hnodup
      fun e' he' => by
        have hx' := hx e' (List.mem_cons_of_mem _ he')
        split_ifs
        · rwa [Function.update_of_ne (hne e' he')]
        · exact hx'
    refine ⟨hrest.tracks.congr fun key => ?_, hrest.pointed, hrest.present⟩
    by_cases hk : e.txid = key
    · subst hk
      have hfind : es.find? (·.txid = e.txid) = none := by
        simpa [List.find?_eq_none] using hne
      by_cases hp : (primary e.txid).isSome
      · simp [restored, hp, hfind]
      · simp [restored, hp]
    · by_cases hp : (primary e.txid).isSome
      · simp [restored, hp, hk, Function.update_of_ne (Ne.symm hk)]
      · simp [restored, hp, hk]

/-- The primary index keeps what it has for a transaction that is not restored. -/
theorem restore_primary (h : Mirrors route primary (es.foldl (MinedRecovery.restoreEntry route) r)
      states) (hr : ∀ key, r.primary key = primary key) (hkey : restored primary es key = none) :
    (es.foldl (MinedRecovery.restoreEntry route) r).primary key = primary key := by
  by_cases hp : (primary key).isSome
  · rw [restored, if_pos hp, Option.map_eq_none_iff, List.find?_eq_none] at hkey
    rw [← hr]
    clear h hr hp
    induction es generalizing r with
    | nil => rfl
    | cons e es ih =>
      rw [List.foldl_cons, ih fun e' he' => hkey e' (List.mem_cons_of_mem _ he')]
      have hne := hkey e List.mem_cons_self
      exact restoreEntry_primary r e fun heq => hne (by simpa using heq.symm)
  · have hnone := h.present key
    rw [Bool.not_eq_true] at hp
    rw [hp, Option.isSome_eq_false_iff, Option.isNone_iff_eq_none] at hnone
    rw [Option.isSome_eq_false_iff, Option.isNone_iff_eq_none] at hp
    rw [hnone, hp]

theorem applyCreate (h : Mirrors route primary r states) (key : TxKey) (unminedSince : Nat) :
    Mirrors route primary (r.applyCreate route key unminedSince)
      (Function.update states key (some ⟨[], unminedSince⟩)) := by
  refine h.point (h.tracks.recreate unminedSince) ?_
  cases r.table.slots key <;> rfl

/-- A table with other states in the same slots. -/
theorem of_slots (h : Mirrors route primary r states) (ht : Tracks route t states')
    (hslots : t.slots = r.table.slots) : Mirrors route primary { r with table := t } states' :=
  ⟨ht, fun key slot hslot => h.pointed key slot (hslots ▸ hslot), h.present⟩

theorem replayCall_slots (t : MinedTable) (c : Nat → ShardCall) :
    (MinedRecovery.replayCall route primary t key c).slots = t.slots := by
  unfold MinedRecovery.replayCall
  split <;> rfl

theorem foldl_replayCall_slots (txids : List TxKey) (t : MinedTable)
    (c : TxKey → Nat → ShardCall) :
    (txids.foldl (fun t key => MinedRecovery.replayCall route primary t key (c key)) t).slots =
      t.slots := by
  induction txids generalizing t with
  | nil => rfl
  | cons key txids ih => rw [List.foldl_cons, ih, replayCall_slots]

/-- The transaction has a state, or the primary index names no slot for it. -/
def Reached (primary : TxKey → Option (Option Nat)) (key : TxKey) (x : Option MinedState) : Prop :=
  x ≠ none ∨ (primary key).join = none

theorem Reached.map {x : Option MinedState} {f : MinedState → MinedState}
    (h : Reached primary key x) : Reached primary key (x.map f) :=
  h.imp (fun hx => by simpa using hx) id

theorem finds_of_reached (h : Mirrors route primary r states)
    (hx : Reached r.primary key (states key)) : r.Finds route key := by
  refine hx.imp (fun hne => ?_) fun hnone slot hslot => ?_
  · rw [h.tracks.slots_isSome, Option.isSome_iff_ne_none]
    exact hne
  · simp [hnone] at hslot

section

variable (h : Mirrors route primary r states) {c : TxKey → Nat → ShardCall} {e : MinedEvent}
  (hfree : ∀ key (o : OwnedShard) slot, o.shard.get slot = none → o.step (c key slot) = o)
  (hmoves : ∀ key (o : OwnedShard) slot m, o.Inv → Shows o slot key m →
    Moves o (o.step (c key slot)) slot key (m.apply e))
include h hfree hmoves

theorem replayOne (hfinds : r.Finds route key) :
    Mirrors route primary
      { r with table := MinedRecovery.replayCall route r.primary r.table key (c key) }
      (Function.update states key ((states key).map (·.apply e))) :=
  h.of_slots (h.tracks.replayCall _ _ _ hfinds (hfree key) (hmoves key)).1 (replayCall_slots ..)

theorem replayBatch {txids : List TxKey} (hfinds : ∀ key ∈ txids, r.Finds route key) :
    Mirrors route primary
      { r with table := txids.foldl (fun t key =>
          MinedRecovery.replayCall route r.primary t key (c key)) r.table }
      fun key => (states key).map (·.applyAll (List.replicate (txids.count key) e)) := by
  refine h.of_slots (h.tracks.foldl (fun t key _ => (t.slots key).isSome ∨
    MinedRecovery.Vacant route r.primary t key) (fun _ _ _ => id) ?_ hfinds)
    (foldl_replayCall_slots ..)
  intro t states key ht hkey
  obtain ⟨htracks, hkept⟩ := ht.replayCall r.primary (c key) e hkey (hfree key) (hmoves key)
  refine ⟨htracks, fun other _ hother => ?_⟩
  rw [replayCall_slots]
  exact hother.imp_right fun hvacant slot hslot => hkept _ _ (hvacant slot hslot)

end

theorem delete (h : Mirrors route primary r states) (key : TxKey) :
    Mirrors route primary { r with table := r.table.delete route key }
      (Function.update states key none) := by
  refine ⟨h.tracks.delete, fun k slot hslot => ?_, h.present⟩
  refine h.pointed k slot ?_
  cases hkey : r.table.slots key with
  | none => simpa [MinedTable.delete, hkey] using hslot
  | some stale =>
    simp only [MinedTable.delete, hkey, MinedTable.setSlot] at hslot
    by_cases hk : k = key
    · simp [hk] at hslot
    · rwa [Function.update_of_ne hk] at hslot

/-- The block that the transaction was created in is set by the entry that follows the create. -/
theorem replayCompanion (h : Mirrors route primary r states) {b : BlockEntry}
    (hb : b.blockId ≠ 0) (hfinds : r.Finds route key) :
    Mirrors route primary
      ⟨MinedRecovery.replayCall route r.primary r.table key (.applySetMined key · b true),
        r.primary⟩
      (Function.update states key ((states key).map (·.apply (.set b true)))) :=
  h.replayOne (c := fun k => (.applySetMined k · b true))
    (fun k o slot hs => by simp [OwnedShard.step, MinedShard.applySetMined, hs])
    (fun k o slot m hinv hshows => Moves.applySetMined hinv hshows b true hb) hfinds

variable {metadata : Metadata}

theorem replayCreate (h : Mirrors route primary r states) {blockHeight : Nat}
    {mined : Option BlockEntry} {place : Option (Nat × Nat)}
    (hmined : ∀ b ∈ mined, b.blockId ≠ 0)
    (hfinds : ∀ k ∈ (MinedOp.create key blockHeight mined place).meets metadata,
      r.Finds route k) :
    Mirrors route primary
      (r.replayEntry route metadata (.create key blockHeight mined place))
      (Function.update states key
        ((MinedOp.create key blockHeight mined place).replayStep metadata key (states key))) := by
  rw [MinedOp.replayStep, if_pos rfl]
  cases hu : metadata.createdUnmined? key blockHeight mined place with
  | none =>
    cases mined with
    | none =>
      simp only [MinedRecovery.replayEntry, hu, Option.toList_none, List.map_nil,
        MinedState.applyAll_nil, Option.map_id', Function.update_eq_self]
      exact h
    | some b =>
      have hb := hmined b rfl
      simp only [MinedRecovery.replayEntry, hu, if_neg hb]
      exact h.replayCompanion hb (hfinds key (by simp [MinedOp.meets, hu]))
  | some unminedSince =>
    have hcreate := h.applyCreate key unminedSince
    cases mined with
    | none =>
      simp only [MinedRecovery.replayEntry, hu]
      exact hcreate
    | some b =>
      have hb := hmined b rfl
      have hset := hcreate.replayCompanion hb
        (@Mirrors.finds_of_reached _ _ _ _ key hcreate (.inl (by simp)))
      simp only [MinedRecovery.replayEntry, hu, if_neg hb]
      rw [Function.update_idem, Function.update_self] at hset
      exact hset

theorem replayEntry (h : Mirrors route primary r states) (hop : op.Sound)
    (hfinds : ∀ key ∈ op.meets metadata, r.Finds route key) :
    Mirrors route primary (r.replayEntry route metadata op) fun key =>
      op.replayStep metadata key (states key) := by
  cases op with
  | create key blockHeight mined place =>
    have hcreate := h.replayCreate hop hfinds
    refine ⟨hcreate.tracks.congr fun k => ?_, hcreate.pointed, hcreate.present⟩
    by_cases hk : k = key
    · rw [hk, Function.update_self]
    · rw [Function.update_of_ne hk, MinedOp.replayStep, if_neg (Ne.symm hk)]
  | setMined txids b onLongestChain =>
    exact h.replayBatch (c := fun k => (.applySetMined k · b onLongestChain))
      (fun k o slot hs => by simp [OwnedShard.step, MinedShard.applySetMined, hs])
      (fun k o slot m hinv hshows => Moves.applySetMined hinv hshows b onLongestChain hop) hfinds
  | unsetMined txids blockId currentHeight =>
    exact h.replayBatch (c := fun k => (.applyUnset k · blockId currentHeight))
      (fun k o slot hs => by simp [OwnedShard.step, MinedShard.applyUnset, hs])
      (fun k o slot m hinv hshows => Moves.applyUnset hinv hshows blockId currentHeight hop) hfinds
  | markOnLongestChain key onLongestChain currentHeight =>
    have hmark := h.replayOne (c := fun k => (.setLongestChain k · onLongestChain currentHeight))
      (fun k o slot hs => by simp [OwnedShard.step, MinedShard.setLongestChain, hs])
      (fun k o slot m hinv hshows =>
        Moves.setLongestChain hinv hshows onLongestChain currentHeight)
      (hfinds key List.mem_cons_self)
    refine ⟨hmark.tracks.congr fun k => ?_, hmark.pointed, hmark.present⟩
    by_cases hk : k = key
    · subst hk
      simp [MinedOp.replayStep, MinedOp.step, MinedOp.events, MinedState.applyAll]
    · simp [MinedOp.replayStep, MinedOp.step, MinedOp.events, Function.update_of_ne hk, Ne.symm hk]
  | delete key =>
    have hdelete := h.delete key
    refine ⟨hdelete.tracks.congr fun k => ?_, hdelete.pointed, hdelete.present⟩
    simp only [MinedOp.replayStep, MinedOp.step, Function.update_apply, eq_comm]

end Mirrors

end TeraSlab.Recovery
