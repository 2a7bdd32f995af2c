import TeraSlab.Foundations.Run
import TeraSlab.Index.MinedIndexSpec

/-!
# The representation invariant of the mined index

A shard's entries, liveness bits, overflow map, height buckets and free list are written one after
the other. The invariant says how they fit together; it holds after every sequence of calls made
the way the engine makes them: a call on a live slot carries the key the slot was created for,
block ids are not 0, and a flag write stays within the cached evaluation flags.
-/

namespace TeraSlab.Index

open Foundations

def MinedTransition.blockId : MinedTransition → Nat
  | .set blockId .. => blockId
  | .unset blockId _ => blockId

inductive ShardCall where
  | allocCreated (key : TxKey) (blockHeight : Nat)
  | free (slot : Nat)
  | applySetMined (key : TxKey) (slot : Nat) (block : BlockEntry) (onLongestChain : Bool)
  | applyUnset (key : TxKey) (slot blockId currentHeight : Nat)
  | applyMinedTransition (key : TxKey) (slot : Nat) (transition : MinedTransition)
  | setLongestChain (key : TxKey) (slot : Nat) (onLongestChain : Bool) (currentHeight : Nat)
  | setAllSpent (slot : Nat) (allSpent : Bool)
  | setDeFlag (key : TxKey) (slot : Nat) (flagMask : Flags) (on : Bool)
  | reseedDeFlags (key : TxKey) (slot : Nat) (deFlags : Flags)
  | restoreDeFlags (key : TxKey) (slot : Nat) (deFlags : Flags)

/-- A shard, and the key each of its slots was last created for. -/
structure OwnedShard where
  shard : MinedShard
  owner : Nat → Option TxKey

namespace OwnedShard

def empty : OwnedShard := ⟨.empty, fun _ => none⟩

def step (o : OwnedShard) : ShardCall → OwnedShard
  | .allocCreated key blockHeight =>
    let (shard, slot) := o.shard.allocCreated key blockHeight
    ⟨shard, Function.update o.owner slot (some key)⟩
  | .free slot => { o with shard := o.shard.freeSlot slot }
  | .applySetMined key slot b onLongestChain =>
    { o with shard := (o.shard.applySetMined key slot b.blockId b.blockHeight b.subtreeIdx
        onLongestChain).1 }
  | .applyUnset key slot blockId currentHeight =>
    { o with shard := o.shard.applyUnset key slot blockId currentHeight }
  | .applyMinedTransition key slot transition =>
    { o with shard := (o.shard.applyMinedTransition key slot transition).1 }
  | .setLongestChain key slot onLongestChain currentHeight =>
    { o with shard := o.shard.setLongestChain key slot onLongestChain currentHeight }
  | .setAllSpent slot allSpent => { o with shard := o.shard.setAllSpent slot allSpent }
  | .setDeFlag key slot flagMask on =>
    { o with shard := o.shard.setDeFlag key slot flagMask on }
  | .reseedDeFlags key slot deFlags =>
    { o with shard := o.shard.reseedDeFlags key slot deFlags }
  | .restoreDeFlags key slot deFlags =>
    { o with shard := o.shard.restoreDeFlags key slot deFlags }

def CalledByOwner (o : OwnedShard) (key : TxKey) (slot : Nat) : Prop :=
  ∀ e, o.shard.get slot = some e → o.owner slot = some key

/-- How the engine calls a shard: it looks the slot up under the key while it holds the record's
lock, it never names block 0, and its flag writes name cached evaluation flags. -/
def Admissible (o : OwnedShard) : ShardCall → Prop
  | .allocCreated .. | .free _ | .setAllSpent .. | .reseedDeFlags .. | .restoreDeFlags .. => True
  | .applySetMined key slot b _ => o.CalledByOwner key slot ∧ b.blockId ≠ 0
  | .applyUnset key slot blockId _ => o.CalledByOwner key slot ∧ blockId ≠ 0
  | .applyMinedTransition key slot t => o.CalledByOwner key slot ∧ t.blockId ≠ 0
  | .setLongestChain key slot .. => o.CalledByOwner key slot
  | .setDeFlag _ _ flagMask _ => flagMask &&& ~~~minedDeFlagMask = 0

structure Representation (o : OwnedShard) : Prop where
  owned : ∀ slot e, o.shard.get slot = some e → ∃ key, o.owner slot = some key
  bucket : ∀ h slot key, o.shard.listed h slot = some key ↔
    ∃ e, o.shard.get slot = some e ∧ e.unminedSince = h ∧ h ≠ 0 ∧ o.owner slot = some key
  hasOverflow : ∀ slot e, o.shard.get slot = some e →
    (e.flags &&& minedHasOverflow ≠ 0 ↔ ∃ v, o.shard.overflow.get? slot = some v ∧ v ≠ [])
  inline : ∀ slot e v, o.shard.get slot = some e → o.shard.overflow.get? slot = some v →
    v ≠ [] → e.blockId ≠ 0
  free_nodup : o.shard.free.Nodup
  mem_free : ∀ slot, slot ∈ o.shard.free ↔
    slot < o.shard.entries.length ∧ o.shard.get slot = none

structure Inv (o : OwnedShard) : Prop where
  shaped : o.shard.Shaped
  tidy : ∀ slot, o.shard.Tidy slot
  flagged : ∀ slot, o.shard.Flagged slot
  placed : ∀ slot, o.shard.Placed o.owner slot
  owned : ∀ slot e, o.shard.get slot = some e → ∃ key, o.owner slot = some key
  nonzero : ∀ slot e, o.shard.get slot = some e →
    ∀ b ∈ o.shard.blocksOf slot e, b.blockId ≠ 0

variable {o : OwnedShard} {s' : MinedShard} {slot : Nat} {key : TxKey} {e e' : MinedEntry}
  {mask : Flags}

theorem Inv.representation (h : o.Inv) : o.Representation where
  owned := h.owned
  bucket k slot key := h.placed slot k key
  hasOverflow slot e he := by
    rw [h.flagged slot e he, Option.isSome_iff_exists]
    exact exists_congr fun v => ⟨fun hv => ⟨hv, (h.tidy slot v hv).1⟩, And.left⟩
  inline slot e v he hv _ := (h.tidy slot).blockId_ne_zero he hv
  free_nodup := h.shaped.free_nodup
  mem_free := h.shaped.mem_free

theorem inv_empty : empty.Inv where
  shaped := MinedShard.shaped_empty
  tidy _ _ hv := by simp [empty, MinedShard.empty] at hv
  flagged _ _ he := by simp [empty, MinedShard.empty, MinedShard.get] at he
  placed _ _ _ := by simp [empty, MinedShard.empty, MinedShard.get, MinedShard.listed]
  owned _ _ he := by simp [empty, MinedShard.empty, MinedShard.get] at he
  nonzero _ _ he := by simp [empty, MinedShard.empty, MinedShard.get] at he

section

variable (h : o.Inv)
include h

/-- An edit of a live slot on behalf of its owner keeps the invariant. -/
theorem Inv.edit (he : o.shard.get slot = some e) (hkey : o.owner slot = some key)
    (hedit : MinedShard.Edit o.shard s' slot key e e')
    (hblocks : ∀ b ∈ s'.blocksOf slot e', b.blockId ≠ 0) : Inv { o with shard := s' } := by
  have hs := hedit.elsewhere
  refine ⟨h.shaped.of_elsewhere hs he hedit.get, fun i => ?_, fun i => ?_, fun i => ?_, ?_, ?_⟩
  · by_cases hi : i = slot
    · exact hi ▸ hedit.tidy (h.tidy slot)
    · simpa only [MinedShard.Tidy, hs.overflow i hi, hs.get i hi] using h.tidy i
  · by_cases hi : i = slot
    · exact hi ▸ hedit.flagged (h.tidy slot) (h.flagged slot)
    · simpa only [MinedShard.Flagged, hs.overflow i hi, hs.get i hi] using h.flagged i
  · by_cases hi : i = slot
    · exact hi ▸ hedit.placed o.owner hkey (h.placed slot)
    · simpa only [MinedShard.Placed, hs.listed i hi, hs.get i hi] using h.placed i
  · intro i e₀ he₀
    by_cases hi : i = slot
    · exact ⟨key, hi ▸ hkey⟩
    · exact h.owned i e₀ (hs.get i hi ▸ he₀)
  · intro i e₀ he₀ b hb
    by_cases hi : i = slot
    · subst hi
      cases hedit.get.symm.trans he₀
      exact hblocks b hb
    · rw [MinedShard.blocksOf, hs.overflow i hi] at hb
      exact h.nonzero i e₀ (hs.get i hi ▸ he₀) b hb

theorem inv_allocCreated (key : TxKey) (blockHeight : Nat) :
    (o.step (.allocCreated key blockHeight)).Inv := by
  obtain ⟨s', slot, hs', hdead, hget, hover, hlisted, hshaped⟩ :=
    MinedShard.allocCreated_spec h.shaped key blockHeight
  have hnone := (h.tidy slot).overflow_of_dead hdead
  simp only [step, hs']
  refine ⟨hshaped, fun i => ?_, fun i => ?_, fun i => ?_, ?_, ?_⟩
  · have hi := h.tidy i
    simp only [MinedShard.Tidy, hover, hget] at hi ⊢
    grind
  · have hi := h.flagged i
    simp only [MinedShard.Flagged, hover, hget] at hi ⊢
    grind
  · have hi := h.placed i
    simp only [MinedShard.Placed, hlisted, hget, Function.update_apply] at hi ⊢
    grind
  · intro i e he
    by_cases hi : i = slot
    · exact ⟨key, by simp [hi]⟩
    · rw [hget, if_neg hi] at he
      simpa [Function.update_of_ne hi] using h.owned i e he
  · have hi := h.nonzero
    simp only [MinedShard.blocksOf, MinedShard.inlineBlock, hover, hget] at hi ⊢
    grind

theorem inv_free (slot : Nat) : (o.step (.free slot)).Inv := by
  cases hget : o.shard.get slot with
  | none =>
    rw [step, MinedShard.freeSlot_of_dead h.shaped hget]
    exact h
  | some e =>
    obtain ⟨hget', hover, hlisted, hshaped⟩ := MinedShard.freeSlot_spec h.shaped hget
    simp only [step]
    refine ⟨hshaped, fun i => ?_, fun i => ?_, fun i => ?_, ?_, ?_⟩
    · have hi := h.tidy i
      simp only [MinedShard.Tidy, hover, hget'] at hi ⊢
      grind
    · have hi := h.flagged i
      simp only [MinedShard.Flagged, hover, hget'] at hi ⊢
      grind
    · have hi := h.placed i
      simp only [MinedShard.Placed, hlisted, hget'] at hi ⊢
      grind
    · have hi := h.owned
      grind
    · have hi := h.nonzero
      simp only [MinedShard.blocksOf, hover, hget'] at hi ⊢
      grind

theorem inv_applySetMined (b : BlockEntry) (onLongestChain : Bool) (hkey : o.CalledByOwner key slot)
    (hb : b.blockId ≠ 0) :
    Inv { o with shard := (o.shard.applySetMined key slot b.blockId b.blockHeight b.subtreeIdx
      onLongestChain).1 } := by
  cases hget : o.shard.get slot with
  | none => simpa [MinedShard.applySetMined, hget] using h
  | some e =>
    obtain ⟨s', e', hs', hedit, hblocks, -, -⟩ := MinedShard.applySetMined_spec hget (h.tidy slot)
      key b onLongestChain
    rw [hs']
    refine h.edit hget (hkey e hget) hedit fun c hc => ?_
    have hold := h.nonzero slot e hget
    grind [MinedShard.added]

theorem inv_applyUnset (blockId currentHeight : Nat) (hkey : o.CalledByOwner key slot) :
    Inv { o with shard := o.shard.applyUnset key slot blockId currentHeight } := by
  cases hget : o.shard.get slot with
  | none => simpa [MinedShard.applyUnset, hget] using h
  | some e =>
    have hhead : ∀ b ∈ ((o.shard.overflow.get? slot).getD []).head?, b.blockId ≠ 0 := by
      intro b hb
      exact h.nonzero slot e hget b (List.mem_append_right _ (List.mem_of_mem_head? hb))
    obtain ⟨s', e', hs', hedit, hperm, -, -⟩ := MinedShard.applyUnset_spec hget (h.tidy slot)
      key blockId currentHeight (fun _ => hhead)
    rw [hs']
    refine h.edit hget (hkey e hget) hedit fun c hc => ?_
    exact h.nonzero slot e hget c (List.mem_of_mem_eraseP (hperm.mem_iff.mp hc))

theorem inv_transition (t : MinedTransition) (hkey : o.CalledByOwner key slot)
    (ht : t.blockId ≠ 0) :
    (o.step (.applyMinedTransition key slot t)).Inv := by
  rcases o.shard.transition_state key slot t with hs | hs
  · simpa only [step, hs] using h
  simp only [step, hs]
  cases t with
  | set blockId blockHeight subtreeIdx onLongestChain =>
    exact inv_applySetMined h ⟨blockId, blockHeight, subtreeIdx⟩ onLongestChain hkey ht
  | unset blockId currentHeight => exact inv_applyUnset h blockId currentHeight hkey

theorem inv_setLongestChain (hkey : o.CalledByOwner key slot) (onLongestChain : Bool)
    (currentHeight : Nat) :
    (o.step (.setLongestChain key slot onLongestChain currentHeight)).Inv := by
  cases hget : o.shard.get slot with
  | none => simpa [step, MinedShard.setLongestChain, hget] using h
  | some e =>
    refine h.edit hget (hkey e hget) (MinedShard.edit_setLongestChain hget key ..) ?_
    rw [MinedShard.setLongestChain_eq hget, MinedShard.blocksOf_moveUnmined]
    exact h.nonzero slot e hget

variable {f : Flags → Flags}

/-- Any write of a slot's flags that keeps the overflow flag keeps the invariant. -/
theorem inv_flags (slot : Nat) (hf : ∀ x, f x &&& minedHasOverflow = x &&& minedHasOverflow) :
    Inv { o with shard := o.shard.update slot fun e => { e with flags := f e.flags } } := by
  cases hget : o.shard.get slot with
  | none => simpa [MinedShard.update_eq_self hget] using h
  | some e =>
    obtain ⟨key, hkey⟩ := h.owned slot e hget
    exact h.edit hget hkey (MinedShard.edit_flags hget key (hf _)) (h.nonzero slot e hget)

theorem inv_writeFlags (key : TxKey) (slot : Nat)
    (hf : ∀ x, f x &&& minedHasOverflow = x &&& minedHasOverflow) :
    Inv { o with shard := o.shard.writeFlags key slot f } := by
  unfold MinedShard.writeFlags
  cases o.shard.entryFor key slot with
  | none => exact h
  | some e => exact inv_flags h slot hf

end

/-- The overflow flag is bit 1. -/
theorem hasOverflow_congr {x y : Flags} (h : x[1] = y[1]) :
    x &&& minedHasOverflow = y &&& minedHasOverflow := by
  ext i hi
  have hbit : ∀ i (hi : i < 8), minedHasOverflow[i] = decide (i = 1) := by decide
  by_cases h1 : i = 1
  · subst h1
    simp [h]
  · simp [hbit i hi, h1]

theorem hasOverflow_set_clear (hm : mask[1] = false) (on : Bool) (x : Flags) :
    (if on then x ||| mask else x &&& ~~~mask) &&& minedHasOverflow =
      x &&& minedHasOverflow := by
  apply hasOverflow_congr
  cases on <;> simp [hm]

/-- Replacing the bits under a mask without the overflow flag keeps the overflow flag. -/
theorem hasOverflow_replace (hm : mask[1] = false) (y x : Flags) :
    (x &&& ~~~mask ||| y &&& mask) &&& minedHasOverflow = x &&& minedHasOverflow := by
  apply hasOverflow_congr
  simp [hm]

theorem inv_step (h : o.Inv) (c : ShardCall) (hc : o.Admissible c) : (o.step c).Inv := by
  cases c with
  | allocCreated key blockHeight => exact inv_allocCreated h key blockHeight
  | free slot => exact inv_free h slot
  | applySetMined key slot b onLongestChain =>
    exact inv_applySetMined h b onLongestChain hc.1 hc.2
  | applyUnset key slot blockId currentHeight =>
    exact inv_applyUnset h blockId currentHeight hc.1
  | applyMinedTransition key slot t => exact inv_transition h t hc.1 hc.2
  | setLongestChain key slot onLongestChain currentHeight =>
    exact inv_setLongestChain h hc onLongestChain currentHeight
  | setAllSpent slot allSpent =>
    exact inv_flags h slot (hasOverflow_set_clear rfl allSpent)
  | setDeFlag key slot flagMask on =>
    have hbit : flagMask[1] = false := by
      have hmask := congrArg (·[1]) (hc : flagMask &&& ~~~minedDeFlagMask = 0)
      have hde : (~~~minedDeFlagMask)[1] = true := rfl
      simpa [BitVec.getElem_and, hde] using hmask
    exact inv_writeFlags h key slot (hasOverflow_set_clear hbit on)
  | reseedDeFlags key slot deFlags | restoreDeFlags key slot deFlags =>
    exact inv_writeFlags h key slot (hasOverflow_replace rfl deFlags)

/-- After every sequence of admissible calls from the empty shard, the parts fit together. -/
theorem representation_of_admissible {calls : List ShardCall}
    (h : Guarded step Admissible empty calls) : (run step empty calls).Representation :=
  (h.invariant (I := Inv) (fun _ c hi hc => inv_step hi c hc) inv_empty).representation

/-- A transaction mined in two blocks that loses the first one, after a flag write. -/
def reorgCalls : List ShardCall :=
  let key : TxKey := ⟨Vector.replicate 32 1⟩
  [.allocCreated key 5, .applySetMined key 0 ⟨7, 10, 0⟩ true,
    .setDeFlag key 0 minedLastSpentAll true, .applySetMined key 0 ⟨8, 10, 1⟩ false,
    .applyUnset key 0 7 11, .setLongestChain key 0 false 12]

theorem representation_of_admissible_reorg :
    Guarded step Admissible empty reorgCalls ∧ (run step empty reorgCalls).Representation := by
  have h : Guarded step Admissible empty reorgCalls :=
    ⟨trivial, ⟨fun _ _ => rfl, by decide⟩,
      (by decide : minedLastSpentAll &&& ~~~minedDeFlagMask = 0), ⟨fun _ _ => rfl, by decide⟩,
      ⟨fun _ _ => rfl, by decide⟩, fun _ _ => rfl, trivial⟩
  exact ⟨h, representation_of_admissible h⟩

end OwnedShard

end TeraSlab.Index
