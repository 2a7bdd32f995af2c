import TeraSlab.Index.MinedRefinement
import TeraSlab.Index.MinedRepresentation
import TeraSlab.Index.MinedState

/-!
# The mined index behind the primary index

The mined index is split into shards, and every call for a transaction goes to the shard its id is
routed to. The primary index keeps the slot of each transaction. `MinedTable` is the two together,
with the owner of each slot noted beside the shard, and the operations of the engine on it.

A table tracks a map from transactions to mined states when the slot of every transaction in the
map shows its state, and no other slot is live.
-/

namespace TeraSlab.Recovery

open Foundations TeraSlab.Index

/-- An operation of the engine on mined state, as it is journaled. A create may carry the block the
transaction is already mined in. Its entry has the bytes of the record, or else the device and the
offset at which the record is. -/
inductive MinedOp where
  | create (key : TxKey) (blockHeight : Nat) (mined : Option BlockEntry)
      (place : Option (Nat × Nat))
  | setMined (txids : List TxKey) (block : BlockEntry) (onLongestChain : Bool)
  | unsetMined (txids : List TxKey) (blockId currentHeight : Nat)
  | markOnLongestChain (key : TxKey) (onLongestChain : Bool) (currentHeight : Nat)
  | delete (key : TxKey)

structure MinedTable where
  arena : Nat → OwnedShard
  slots : TxKey → Option Nat

def createdUnmined (blockHeight : Nat) (mined : Option BlockEntry) : Nat :=
  if mined.isSome then 0 else blockHeight

namespace MinedTable

def empty : MinedTable := ⟨fun _ => .empty, fun _ => none⟩

variable (route : TxKey → Nat) (t : MinedTable)

def call (key : TxKey) (c : ShardCall) : MinedTable :=
  { t with arena := Function.update t.arena (route key) ((t.arena (route key)).step c) }

/-- The slot that the next allocation for the transaction returns. -/
def nextSlot (key : TxKey) (blockHeight : Nat) : Nat :=
  ((t.arena (route key)).shard.allocCreated key blockHeight).2

def setSlot (key : TxKey) (slot : Option Nat) : MinedTable :=
  { t with slots := Function.update t.slots key slot }

def allocFor (key : TxKey) (unminedSince : Nat) : MinedTable :=
  (t.call route key (.allocCreated key unminedSince)).setSlot key
    (some (t.nextSlot route key unminedSince))

def create (key : TxKey) (blockHeight : Nat) (mined : Option BlockEntry) : MinedTable :=
  let unminedSince := createdUnmined blockHeight mined
  let slot := t.nextSlot route key unminedSince
  let t := t.allocFor route key unminedSince
  match mined with
  | none => t
  | some b => t.call route key (.applySetMined key slot b (unminedSince = 0))

def setMinedInner (key : TxKey) (tr : MinedTransition) : MinedTable :=
  match t.slots key with
  | none => t
  | some slot => t.call route key (.applyMinedTransition key slot tr)

def markOnLongestChain (key : TxKey) (onLongestChain : Bool) (currentHeight : Nat) : MinedTable :=
  match t.slots key with
  | none => t
  | some slot => t.call route key (.setLongestChain key slot onLongestChain currentHeight)

def delete (key : TxKey) : MinedTable :=
  match t.slots key with
  | none => t
  | some slot => (t.call route key (.free slot)).setSlot key none

def perform (t : MinedTable) : MinedOp → MinedTable
  | .create key blockHeight mined _ =>
    if (t.slots key).isSome then t else t.create route key blockHeight mined
  | .setMined txids b onLongestChain =>
    txids.foldl (fun t key => t.setMinedInner route key
      (.set b.blockId b.blockHeight b.subtreeIdx onLongestChain)) t
  | .unsetMined txids blockId currentHeight =>
    txids.foldl (fun t key => t.setMinedInner route key (.unset blockId currentHeight)) t
  | .markOnLongestChain key onLongestChain currentHeight =>
    t.markOnLongestChain route key onLongestChain currentHeight
  | .delete key => t.delete route key

def after (history : List MinedOp) : MinedTable := history.foldl (perform route) empty

def read (key : TxKey) : Option MinedState :=
  (t.slots key).bind fun slot =>
    ((t.arena (route key)).shard.readBlockEntries key slot).map fun r => ⟨r.1, r.2⟩

end MinedTable

/-! ### Slots and states -/

/-- The slot is live and was allocated for the transaction. -/
def Occupies (o : OwnedShard) (key : TxKey) (slot : Nat) : Prop :=
  (∃ e, o.shard.get slot = some e) ∧ o.owner slot = some key

structure Shows (o : OwnedShard) (slot : Nat) (key : TxKey) (m : MinedState) : Prop where
  owner : o.owner slot = some key
  entry : ∃ e, o.shard.get slot = some e ∧ e.keyFp = keyFp key ∧
    (o.shard.blocksOf slot e).Perm m.blocks ∧ e.unminedSince = m.unminedSince
  nodup : m.ids.Nodup

variable {o o' o'' : OwnedShard} {slot : Nat} {key : TxKey} {m m' m'' : MinedState}

namespace Shows

variable {s' : MinedShard} {e e' : MinedEntry}

theorem ids_perm (hperm : (o.shard.blocksOf slot e).Perm m.blocks) (id : Nat) :
    id ∈ (o.shard.blocksOf slot e).map (·.blockId) ↔ id ∈ m.ids :=
  (hperm.map _).mem_iff

theorem calledByOwner (h : Shows o slot key m) : o.CalledByOwner key slot := fun _ _ => h.owner

theorem occupies (h : Shows o slot key m) : Occupies o key slot := by
  obtain ⟨e, he, -⟩ := h.entry
  exact ⟨⟨e, he⟩, h.owner⟩

theorem congr (h : Shows o slot key m) (howner : o'.owner slot = o.owner slot)
    (hget : o'.shard.get slot = o.shard.get slot)
    (hover : o'.shard.overflow.get? slot = o.shard.overflow.get? slot) : Shows o' slot key m := by
  obtain ⟨e, he, hfp, hperm, hu⟩ := h.entry
  refine ⟨howner.trans h.owner, ⟨e, hget.trans he, hfp, ?_, hu⟩, h.nodup⟩
  rw [MinedShard.blocksOf, hover]
  exact hperm

/-- The inline block is the one to unset when it is the last one. -/
theorem inline_of_last (ht : o.shard.Tidy slot) (he : o.shard.get slot = some e)
    (hperm : (o.shard.blocksOf slot e).Perm m.blocks) {blockId : Nat} (hmem : blockId ∈ m.ids)
    (hlast : m.without blockId = []) : e.blockId = blockId := by
  by_contra hne
  have hids : blockId ∈ (o.shard.blocksOf slot e).map (·.blockId) := (ids_perm hperm _).mpr hmem
  by_cases h0 : e.blockId = 0
  · simp [MinedShard.blocksOf, MinedShard.inlineBlock, h0, ht.overflow_eq_none he h0] at hids
  have hinline : ⟨e.blockId, e.blockHeight, e.subtreeIdx⟩ ∈ o.shard.blocksOf slot e := by
    simp [MinedShard.blocksOf, MinedShard.inlineBlock, h0]
  have hkept : ⟨e.blockId, e.blockHeight, e.subtreeIdx⟩ ∈ m.without blockId :=
    List.mem_filter.mpr ⟨hperm.mem_iff.mp hinline, by simpa using hne⟩
  rw [hlast] at hkept
  exact List.not_mem_nil hkept

end Shows

/-- A call that gives the slot of a transaction a new state and leaves the other slots alone. -/
structure Moves (o o' : OwnedShard) (slot : Nat) (key : TxKey) (m' : MinedState) : Prop where
  owners : o'.owner = o.owner
  elsewhere : MinedShard.Elsewhere o.shard o'.shard slot
  inv : o'.Inv
  shows : Shows o' slot key m'

namespace Moves

section

variable (hinv : o.Inv) (h : Shows o slot key m)
include hinv h

section

variable (b : BlockEntry) (onLongestChain : Bool)

theorem applySetMined (hb : b.blockId ≠ 0) :
    Moves o (o.step (.applySetMined key slot b onLongestChain)) slot key
      (m.apply (.set b onLongestChain)) := by
  obtain ⟨e, he, hfp, hperm, hu⟩ := h.entry
  obtain ⟨s', e', hs', hedit, hblocks, hu', -⟩ :=
    MinedShard.applySetMined_spec he (hinv.tidy slot) key b onLongestChain
  have hstep : o.step (.applySetMined key slot b onLongestChain) = { o with shard := s' } := by
    rw [OwnedShard.step, hs']
  refine ⟨rfl, ?_, OwnedShard.inv_step hinv _ ⟨h.calledByOwner, hb⟩, ?_⟩
  · rw [hstep]
    exact hedit.elsewhere
  rw [hstep]
  refine ⟨h.owner, ⟨e', hedit.get, hedit.keyFp.trans hfp, ?_, ?_⟩, MinedState.nodup_apply h.nodup⟩
  · have hadded : MinedShard.added e b = [b] := by simp [MinedShard.added, hb]
    rw [hblocks, hadded]
    simp only [MinedState.apply, Shows.ids_perm hperm]
    split_ifs
    · exact hperm
    · exact hperm.append_right [b]
  · rw [hu', hu]
    rfl

theorem applyUnset (blockId currentHeight : Nat)
    (hb : blockId ≠ 0) :
    Moves o (o.step (.applyUnset key slot blockId currentHeight)) slot key
      (m.apply (.unset blockId currentHeight)) := by
  obtain ⟨e, he, hfp, hperm, hu⟩ := h.entry
  have hhead : ∀ b ∈ ((o.shard.overflow.get? slot).getD []).head?, b.blockId ≠ 0 := by
    intro b hb
    exact hinv.nonzero slot e he b (List.mem_append_right _ (List.mem_of_mem_head? hb))
  obtain ⟨s', e', hs', hedit, hperm', hu', -⟩ :=
    MinedShard.applyUnset_spec he (hinv.tidy slot) key blockId currentHeight fun _ => hhead
  have hnodup : ((o.shard.blocksOf slot e).map (·.blockId)).Nodup :=
    (hperm.map _).nodup_iff.mpr h.nodup
  rw [TrackedShard.eraseP_eq_filter hnodup] at hperm'
  have hblocks : (s'.blocksOf slot e').Perm (m.without blockId) := hperm'.trans (hperm.filter _)
  have hstep : o.step (.applyUnset key slot blockId currentHeight) = { o with shard := s' } := by
    rw [OwnedShard.step, hs']
  refine ⟨rfl, ?_, OwnedShard.inv_step hinv _ ⟨h.calledByOwner, hb⟩, ?_⟩
  · rw [hstep]
    exact hedit.elsewhere
  rw [hstep]
  refine ⟨h.owner, ⟨e', hedit.get, hedit.keyFp.trans hfp, hblocks, ?_⟩,
    MinedState.nodup_apply h.nodup⟩
  have hiff : e.blockId = blockId ∧ s'.blocksOf slot e' = [] ↔
      blockId ∈ m.ids ∧ m.without blockId = [] := by
    constructor
    · rintro ⟨rfl, hnil⟩
      refine ⟨(Shows.ids_perm hperm _).mp ?_, List.nil_perm.mp (hnil ▸ hblocks)⟩
      simp [MinedShard.blocksOf, MinedShard.inlineBlock, hb]
    · rintro ⟨hmem, hlast⟩
      exact ⟨Shows.inline_of_last (hinv.tidy slot) he hperm hmem hlast,
        List.perm_nil.mp (hlast ▸ hblocks)⟩
  rw [hu', hu]
  exact if_congr hiff rfl rfl

theorem setLongestChain (currentHeight : Nat) :
    Moves o (o.step (.setLongestChain key slot onLongestChain currentHeight)) slot key
      (m.apply (.mark onLongestChain currentHeight)) := by
  obtain ⟨e, he, hfp, hperm, hu⟩ := h.entry
  have hedit := MinedShard.edit_setLongestChain he key onLongestChain currentHeight
  refine ⟨rfl, hedit.elsewhere, OwnedShard.inv_step hinv _ h.calledByOwner, h.owner,
    ⟨_, hedit.get, hfp, ?_, rfl⟩, h.nodup⟩
  rw [OwnedShard.step, MinedShard.setLongestChain_eq he, MinedShard.blocksOf_moveUnmined]
  exact hperm

/-- A set that finds room does what `applySetMined` does. -/
theorem transition_set (hb : b.blockId ≠ 0)
    (hroom : b.blockId ∈ m.ids ∨ m.blocks.length < maxBlockEntries) :
    Moves o (o.step (.applyMinedTransition key slot
      (.set b.blockId b.blockHeight b.subtreeIdx onLongestChain))) slot key
      (m.apply (.set b onLongestChain)) := by
  obtain ⟨e, he, hfp, hperm, -⟩ := h.entry
  obtain ⟨s', e', hs', hedit, -⟩ :=
    MinedShard.applySetMined_spec he (hinv.tidy slot) key b onLongestChain
  have hroom' : b.blockId ∈ (o.shard.blocksOf slot e).map (·.blockId) ∨
      (o.shard.blocksOf slot e).length < maxBlockEntries :=
    hroom.imp (Shows.ids_perm hperm _).mpr fun hlt => hperm.length_eq ▸ hlt
  have happly := MinedShard.transition_set_applied
    (MinedShard.entryFor_eq_some.mpr ⟨he, hfp⟩) hroom' hs' hedit
  have hstep : o.step (.applyMinedTransition key slot
      (.set b.blockId b.blockHeight b.subtreeIdx onLongestChain)) =
        o.step (.applySetMined key slot b onLongestChain) := by
    rw [OwnedShard.step, OwnedShard.step, happly, hs']
  rw [hstep]
  exact applySetMined hinv h b onLongestChain hb

end

theorem transition_unset (blockId currentHeight : Nat)
    (hb : blockId ≠ 0) :
    Moves o (o.step (.applyMinedTransition key slot (.unset blockId currentHeight))) slot key
      (m.apply (.unset blockId currentHeight)) := by
  have hmoves := applyUnset hinv h blockId currentHeight hb
  obtain ⟨e, he, hfp, -⟩ := h.entry
  have happly : (o.shard.applyMinedTransition key slot (.unset blockId currentHeight)).1 =
      o.shard.applyUnset key slot blockId currentHeight :=
    MinedShard.transition_unset_state (MinedShard.entryFor_eq_some.mpr ⟨he, hfp⟩)
  have hstep : o.step (.applyMinedTransition key slot (.unset blockId currentHeight)) =
      o.step (.applyUnset key slot blockId currentHeight) := by
    rw [OwnedShard.step, OwnedShard.step, happly]
  rw [hstep]
  exact hmoves

/-- A write of the slot's flags that keeps the overflow flag keeps its state. -/
theorem flags {f : Flags → Flags}
    (hf : ∀ x, f x &&& minedHasOverflow = x &&& minedHasOverflow) :
    Moves o { o with shard := o.shard.update slot fun e => { e with flags := f e.flags } } slot key
      m := by
  obtain ⟨e, he, hfp, hperm, hu⟩ := h.entry
  have hedit := MinedShard.edit_flags he key (hf e.flags)
  exact ⟨rfl, hedit.elsewhere, OwnedShard.inv_flags hinv slot hf, h.owner,
    ⟨_, hedit.get, hfp, hperm, hu⟩, h.nodup⟩

theorem setAllSpent (allSpent : Bool) :
    Moves o (o.step (.setAllSpent slot allSpent)) slot key m :=
  flags hinv h (OwnedShard.hasOverflow_set_clear rfl allSpent)

theorem restoreDeFlags (deFlags : Flags) :
    Moves o (o.step (.restoreDeFlags key slot deFlags)) slot key m := by
  obtain ⟨e, he, hfp, -⟩ := h.entry
  have hstep : o.step (.restoreDeFlags key slot deFlags) = { o with
      shard := o.shard.update slot fun e => { e with
        flags := (e.flags &&& ~~~minedDeFlagMask) ||| (deFlags &&& minedDeFlagMask) } } := by
    simp only [OwnedShard.step, MinedShard.restoreDeFlags, MinedShard.writeFlags,
      MinedShard.entryFor_eq_some.mpr ⟨he, hfp⟩]
  rw [hstep]
  exact flags hinv h (OwnedShard.hasOverflow_replace rfl deFlags)

end

end Moves

/-! ### Calls on behalf of a transaction -/

/-- Calls that leave the slots of all other transactions alone. -/
structure Serves (o o' : OwnedShard) (key : TxKey) : Prop where
  inv : o'.Inv
  shows : ∀ slot other m, other ≠ key → Shows o slot other m → Shows o' slot other m
  occupies : ∀ slot other, other ≠ key → Occupies o' other slot → Occupies o other slot

namespace Serves

theorem trans (h : Serves o o' key) (h' : Serves o' o'' key) : Serves o o'' key where
  inv := h'.inv
  shows slot other m hne hshows := h'.shows slot other m hne (h.shows slot other m hne hshows)
  occupies slot other hne hocc := h.occupies slot other hne (h'.occupies slot other hne hocc)

theorem of_moves (h : Moves o o' slot key m) : Serves o o' key where
  inv := h.inv
  shows i other m' hne hshows := by
    have hi : i ≠ slot := by
      rintro rfl
      exact hne (Option.some.inj ((h.owners ▸ hshows.owner).symm.trans h.shows.owner))
    exact hshows.congr (by rw [h.owners]) (h.elsewhere.get i hi) (h.elsewhere.overflow i hi)
  occupies i other hne hocc := by
    obtain ⟨⟨e, he⟩, howner⟩ := hocc
    have hi : i ≠ slot := by
      rintro rfl
      exact hne (Option.some.inj (howner.symm.trans h.shows.owner))
    exact ⟨⟨e, h.elsewhere.get i hi ▸ he⟩, h.owners ▸ howner⟩

end Serves

/-- The slot and the state of the transaction, or none of both, and no other slot is its. -/
def Keeps (o : OwnedShard) (key : TxKey) : Option Nat → Option MinedState → Prop
  | some slot, some m => Shows o slot key m ∧ ∀ i, Occupies o key i → i = slot
  | none, none => ∀ i, ¬ Occupies o key i
  | _, _ => False

namespace Keeps

variable {p : Option Nat} {other : TxKey} {x : Option MinedState}

theorem of_serves (h : Keeps o other p x) (hs : Serves o o' key) (hne : other ≠ key) :
    Keeps o' other p x := by
  cases p with
  | none =>
    cases x with
    | none => exact fun i hocc => h i (hs.occupies i other hne hocc)
    | some m => exact h.elim
  | some slot =>
    cases x with
    | none => exact h.elim
    | some m =>
      exact ⟨hs.shows slot other m hne h.1, fun i hocc => h.2 i (hs.occupies i other hne hocc)⟩

theorem of_moves (h : Keeps o key (some slot) (some m)) (hm : Moves o o' slot key m') :
    Keeps o' key (some slot) (some m') := by
  refine ⟨hm.shows, fun i hocc => ?_⟩
  by_contra hi
  obtain ⟨⟨e, he⟩, howner⟩ := hocc
  exact hi (h.2 i ⟨⟨e, hm.elsewhere.get i hi ▸ he⟩, hm.owners ▸ howner⟩)

end Keeps

section Allocation

variable (key) (unminedSince : Nat)

theorem allocCreated_cases (hinv : o.Inv) :
    let o' := o.step (.allocCreated key unminedSince)
    ∃ slot, (o.shard.allocCreated key unminedSince).2 = slot ∧ o.shard.get slot = none ∧
      Shows o' slot key ⟨[], unminedSince⟩ ∧
      ∀ i ≠ slot, o'.owner i = o.owner i ∧ o'.shard.get i = o.shard.get i ∧
        o'.shard.overflow.get? i = o.shard.overflow.get? i := by
  obtain ⟨s', slot, hs', hdead, hget, hover, -⟩ :=
    MinedShard.allocCreated_spec hinv.shaped key unminedSince
  have hnone := (hinv.tidy slot).overflow_of_dead hdead
  have hstep : o.step (.allocCreated key unminedSince) =
      ⟨s', Function.update o.owner slot (some key)⟩ := by
    simp only [OwnedShard.step, hs']
  rw [hstep]
  refine ⟨slot, by rw [hs'], hdead, ⟨by simp, ⟨_, by rw [hget, if_pos rfl], rfl, ?_, rfl⟩, ?_⟩, ?_⟩
  · simp [MinedShard.blocksOf, MinedShard.inlineBlock, hover, hnone]
  · exact List.nodup_nil
  · intro i hi
    exact ⟨Function.update_of_ne hi _ _, by rw [hget, if_neg hi], by rw [hover]⟩

theorem serves_allocCreated (hinv : o.Inv) :
    Serves o (o.step (.allocCreated key unminedSince)) key := by
  obtain ⟨slot, -, hdead, hshows, hrest⟩ := allocCreated_cases key unminedSince hinv
  refine ⟨OwnedShard.inv_allocCreated hinv key unminedSince, ?_, ?_⟩
  · intro i other m hne h
    have hi : i ≠ slot := by
      rintro rfl
      obtain ⟨e, he, -⟩ := h.entry
      simp [hdead] at he
    obtain ⟨howner, hget, hover⟩ := hrest i hi
    exact h.congr howner hget hover
  · intro i other hne hocc
    have hi : i ≠ slot := by
      rintro rfl
      exact hne (Option.some.inj (hocc.2.symm.trans hshows.owner))
    obtain ⟨howner, hget, -⟩ := hrest i hi
    exact ⟨hget ▸ hocc.1, howner ▸ hocc.2⟩

/-- A slot of the transaction after the allocation is the new one or was its before. -/
theorem occupies_allocCreated (hinv : o.Inv) {i : Nat}
    (hocc : Occupies (o.step (.allocCreated key unminedSince)) key i) :
    i = (o.shard.allocCreated key unminedSince).2 ∨ Occupies o key i := by
  obtain ⟨slot, rfl, -, -, hrest⟩ := allocCreated_cases key unminedSince hinv
  by_cases hi : i = (o.shard.allocCreated key unminedSince).2
  · exact .inl hi
  · obtain ⟨howner, hget, -⟩ := hrest i hi
    exact .inr ⟨hget ▸ hocc.1, howner ▸ hocc.2⟩

variable {key}

theorem free_cases (hinv : o.Inv) (slot : Nat) :
    (o.step (.free slot)).shard.get slot = none ∧ (o.step (.free slot)).owner = o.owner ∧
      ∀ i ≠ slot, (o.step (.free slot)).shard.get i = o.shard.get i ∧
        (o.step (.free slot)).shard.overflow.get? i = o.shard.overflow.get? i := by
  refine ⟨?_, rfl, ?_⟩ <;> cases he : o.shard.get slot with
  | none =>
    simp [OwnedShard.step, MinedShard.freeSlot_of_dead hinv.shaped he, he]
  | some e =>
    obtain ⟨hget, hover, -⟩ := MinedShard.freeSlot_spec hinv.shaped he
    simp +contextual [OwnedShard.step, hget, hover]

theorem occupies_free (hinv : o.Inv) {other : TxKey} {i : Nat}
    (hocc : Occupies (o.step (.free slot)) other i) : i ≠ slot ∧ Occupies o other i := by
  obtain ⟨hdead, howner, hrest⟩ := free_cases hinv slot
  obtain ⟨⟨e, he⟩, hown⟩ := hocc
  have hi : i ≠ slot := by
    rintro rfl
    simp [hdead] at he
  exact ⟨hi, ⟨e, (hrest i hi).1 ▸ he⟩, howner ▸ hown⟩

theorem Shows.free {i : Nat} (hinv : o.Inv) (h : Shows o i key m) (hi : i ≠ slot) :
    Shows (o.step (.free slot)) i key m := by
  obtain ⟨-, howner, hrest⟩ := free_cases hinv slot
  exact h.congr (by rw [howner]) (hrest i hi).1 (hrest i hi).2

theorem serves_free (hinv : o.Inv) (howner : o.owner slot = some key) :
    Serves o (o.step (.free slot)) key where
  inv := OwnedShard.inv_free hinv slot
  shows _ _ _ hne h := h.free hinv fun hi =>
    hne (Option.some.inj ((hi ▸ h.owner).symm.trans howner))
  occupies _ _ _ hocc := (occupies_free hinv hocc).2

end Allocation

end TeraSlab.Recovery
