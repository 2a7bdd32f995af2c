import TeraSlab.Index.MinedIndex

/-!
# What the operations of a mined-index shard do

One lemma per primitive says what it does to the three things a slot owns: its entry, its overflow
list and its places in the height buckets. `Elsewhere` says that every other slot keeps all three.
-/

namespace TeraSlab.Index

open Foundations

/-- Removal by swapping keeps the elements that removal by shifting keeps. -/
theorem swapRemove_perm {α : Type*} {v : List α} {pos : Nat} (h : pos < v.length) :
    (swapRemove v pos).Perm (v.eraseIdx pos) := by
  obtain rfl | ⟨init, last, rfl⟩ := v.eq_nil_or_concat
  · simp at h
  rw [List.concat_eq_append] at h ⊢
  simp only [swapRemove, List.getLast?_concat]
  obtain hlt | rfl : pos < init.length ∨ pos = init.length := by grind
  · rw [List.set_append_left _ _ hlt, List.dropLast_concat, List.eraseIdx_append_of_lt_length hlt]
    exact (List.set_perm_cons_eraseIdx hlt last).trans (List.perm_append_singleton _ _).symm
  · simp [List.eraseIdx_append_of_length_le]

theorem removeBlock_perm (v : List BlockEntry) (blockId : Nat) :
    (removeBlock v blockId).Perm (v.eraseP (·.blockId = blockId)) := by
  rw [List.eraseP_eq_eraseIdx, removeBlock]
  cases hpos : v.findIdx? (·.blockId = blockId) with
  | none => rfl
  | some pos => exact swapRemove_perm (List.findIdx?_eq_some_iff_findIdx_eq.mp hpos).1

namespace MinedShard

variable {s s' s'' : MinedShard} {slot : Nat}

def listed (s : MinedShard) (h slot : Nat) : Option TxKey :=
  (s.unmined.get? h).bind (·.get? slot)

variable {f : MinedEntry → MinedEntry}

theorem get_update {i : Nat} :
    (s.update slot f).get i = if i = slot then (s.get slot).map f else s.get i := by
  simp only [get, update]
  grind

section

variable (f)

@[simp] theorem update_overflow : (s.update slot f).overflow = s.overflow := rfl

@[simp] theorem listed_update (h i : Nat) : (s.update slot f).listed h i = s.listed h i := rfl

@[simp] theorem length_update : (s.update slot f).entries.length = s.entries.length := by
  simp only [update]
  split_ifs <;> simp

end

theorem dropFromBucket_eq (s : MinedShard) (slot h : Nat) :
    ∃ unmined, s.dropFromBucket slot h = { s with unmined } := by
  unfold dropFromBucket
  split
  · exact ⟨_, rfl⟩
  · exact ⟨_, rfl⟩

theorem listed_dropFromBucket {h' h i : Nat} :
    (s.dropFromBucket slot h').listed h i =
      if h = h' ∧ i = slot then none else s.listed h i := by
  unfold dropFromBucket
  cases hb : s.unmined.get? h' with
  | none => grind [listed]
  | some bucket =>
    simp only [listed]
    split_ifs with hempty hc hc
    · rw [SortedMap.get?_erase, if_pos hc.1, Option.bind_none]
    · have := SortedMap.get?_eq_none_of_isEmpty hempty i
      grind [SortedMap.get?_erase]
    · grind [SortedMap.get?_insert, SortedMap.get?_erase]
    · grind [SortedMap.get?_insert, SortedMap.get?_erase]

variable {key : TxKey}

theorem listed_addToBucket {h' h i : Nat} :
    (s.addToBucket slot h' key).listed h i =
      if h = h' ∧ i = slot then some key else s.listed h i := by
  simp only [addToBucket, listed, SortedMap.get?_insert]
  cases hb : s.unmined.get? h' <;> grind [SortedMap.get?_insert, SortedMap.get?_empty]

theorem setUnmined_eq (s : MinedShard) (slot old new : Nat) (key : TxKey) :
    ∃ unmined, s.setUnmined slot old new key = { s with unmined } := by
  obtain ⟨u, hu⟩ := dropFromBucket_eq s slot old
  simp only [setUnmined, addToBucket, hu]
  split_ifs <;> exact ⟨_, rfl⟩

theorem listed_setUnmined {old new h i : Nat} (hne : old ≠ new) :
    (s.setUnmined slot old new key).listed h i =
      if i = slot ∧ h = new ∧ new ≠ 0 then some key
      else if i = slot ∧ h = old ∧ old ≠ 0 then none
      else s.listed h i := by
  simp only [setUnmined, if_neg hne]
  grind [listed_addToBucket, listed_dropFromBucket]

@[simp] theorem get_setUnmined {old new i : Nat} :
    (s.setUnmined slot old new key).get i = s.get i := by
  obtain ⟨u, hu⟩ := setUnmined_eq s slot old new key
  rw [hu]
  rfl

@[simp] theorem overflow_setUnmined {old new : Nat} :
    (s.setUnmined slot old new key).overflow = s.overflow := by
  obtain ⟨u, hu⟩ := setUnmined_eq s slot old new key
  rw [hu]

structure Elsewhere (s s' : MinedShard) (slot : Nat) : Prop where
  live : s'.live = s.live
  free : s'.free = s.free
  length : s'.entries.length = s.entries.length
  get : ∀ i ≠ slot, s'.get i = s.get i
  overflow : ∀ i ≠ slot, s'.overflow.get? i = s.overflow.get? i
  listed : ∀ i ≠ slot, ∀ h, s'.listed h i = s.listed h i

theorem Elsewhere.refl (s : MinedShard) (slot : Nat) : Elsewhere s s slot :=
  ⟨rfl, rfl, rfl, fun _ _ => rfl, fun _ _ => rfl, fun _ _ _ => rfl⟩

theorem Elsewhere.trans (h : Elsewhere s s' slot) (h' : Elsewhere s' s'' slot) :
    Elsewhere s s'' slot where
  live := h'.live.trans h.live
  free := h'.free.trans h.free
  length := h'.length.trans h.length
  get i hi := (h'.get i hi).trans (h.get i hi)
  overflow i hi := (h'.overflow i hi).trans (h.overflow i hi)
  listed i hi k := (h'.listed i hi k).trans (h.listed i hi k)

section

variable (s) (slot) (f)

theorem Elsewhere.update : Elsewhere s (s.update slot f) slot where
  live := rfl
  free := rfl
  length := length_update f
  get i hi := by rw [get_update, if_neg hi]
  overflow _ _ := rfl
  listed _ _ _ := rfl

theorem Elsewhere.setUnmined (old new : Nat) (key : TxKey) :
    Elsewhere s (s.setUnmined slot old new key) slot := by
  have hlisted : ∀ i ≠ slot, ∀ h, (s.setUnmined slot old new key).listed h i = s.listed h i := by
    intro i hi h
    by_cases hne : old = new
    · rw [MinedShard.setUnmined, if_pos hne]
    · grind [listed_setUnmined]
  obtain ⟨u, hu⟩ := setUnmined_eq s slot old new key
  rw [hu] at hlisted ⊢
  exact ⟨rfl, rfl, rfl, fun _ _ => rfl, fun _ _ => rfl, hlisted⟩

theorem Elsewhere.insertOverflow (v : List BlockEntry) :
    Elsewhere s { s with overflow := s.overflow.insert slot v } slot where
  __ := Elsewhere.refl s slot
  overflow i hi := by rw [SortedMap.get?_insert, if_neg hi]

end

/-- The slot's overflow list is never empty, and it stands behind an occupied inline tuple. -/
def Tidy (s : MinedShard) (slot : Nat) : Prop :=
  ∀ v, s.overflow.get? slot = some v → v ≠ [] ∧ ∃ e, s.get slot = some e ∧ e.blockId ≠ 0

def Flagged (s : MinedShard) (slot : Nat) : Prop :=
  ∀ e, s.get slot = some e →
    (e.flags &&& minedHasOverflow ≠ 0 ↔ (s.overflow.get? slot).isSome)

def Placed (s : MinedShard) (owner : Nat → Option TxKey) (slot : Nat) : Prop :=
  ∀ h key, s.listed h slot = some key ↔
    ∃ e, s.get slot = some e ∧ e.unminedSince = h ∧ h ≠ 0 ∧ owner slot = some key

/-- An operation on a live slot that keeps what ties the slot's data together. -/
structure Edit (s s' : MinedShard) (slot : Nat) (key : TxKey) (e e' : MinedEntry) : Prop where
  elsewhere : Elsewhere s s' slot
  get : s'.get slot = some e'
  keyFp : e'.keyFp = e.keyFp
  tidy : s.Tidy slot → s'.Tidy slot
  flagged : s.Tidy slot → s.Flagged slot → s'.Flagged slot
  placed : ∀ owner : Nat → Option TxKey, owner slot = some key →
    s.Placed owner slot → s'.Placed owner slot

variable {e e' e'' : MinedEntry} {key : TxKey}

theorem Edit.refl (key : TxKey) (he : s.get slot = some e) : Edit s s slot key e e :=
  ⟨.refl s slot, he, rfl, id, fun _ h => h, fun _ _ h => h⟩

theorem Edit.trans (h : Edit s s' slot key e e') (h' : Edit s' s'' slot key e' e'') :
    Edit s s'' slot key e e'' where
  elsewhere := h.elsewhere.trans h'.elsewhere
  get := h'.get
  keyFp := h'.keyFp.trans h.keyFp
  tidy ht := h'.tidy (h.tidy ht)
  flagged ht hf := h'.flagged (h.tidy ht) (h.flagged ht hf)
  placed owner hk hp := h'.placed owner hk (h.placed owner hk hp)

/-- Writing the entry's height and moving the slot to the bucket of that height. -/
def moveUnmined (s : MinedShard) (slot : Nat) (e : MinedEntry) (new : Nat) (key : TxKey) :
    MinedShard :=
  (s.update slot ({ · with unminedSince := new })).setUnmined slot e.unminedSince new key

theorem edit_moveUnmined (new : Nat) (key : TxKey) (he : s.get slot = some e) :
    Edit s (s.moveUnmined slot e new key) slot key e { e with unminedSince := new } := by
  have hget : (s.moveUnmined slot e new key).get slot = some { e with unminedSince := new } := by
    simp [moveUnmined, get_update, he]
  have hover : (s.moveUnmined slot e new key).overflow = s.overflow := by simp [moveUnmined]
  refine ⟨(Elsewhere.update ..).trans (.setUnmined ..), hget, rfl, ?_, ?_, ?_⟩
  · intro ht v hv
    obtain ⟨hne, e₀, he₀, hid⟩ := ht v (hover ▸ hv)
    obtain rfl : e = e₀ := Option.some.inj (he.symm.trans he₀)
    exact ⟨hne, _, hget, hid⟩
  · intro _ hf e₀ he₀
    cases hget.symm.trans he₀
    rw [hover]
    exact hf e he
  · intro owner hk hp h k
    have hold := hp h k
    rw [hget, moveUnmined]
    by_cases hne : e.unminedSince = new
    · simp only [setUnmined, if_pos hne, listed_update, hold]
      grind
    · grind [listed_setUnmined, listed_update]

@[simp] theorem blocksOf_moveUnmined (new : Nat) :
    (s.moveUnmined slot e new key).blocksOf slot { e with unminedSince := new } =
      s.blocksOf slot e := by
  simp [blocksOf, inlineBlock, moveUnmined]

section

variable (he : s.get slot = some e)
include he

theorem settleUnmined_eq (onLongestChain : Bool) (key : TxKey) :
    s.settleUnmined slot onLongestChain key =
      (if onLongestChain then s.moveUnmined slot e 0 key else s,
        if onLongestChain then 0 else e.unminedSince) := by
  cases onLongestChain with
  | false => simp [settleUnmined, he]
  | true =>
    by_cases h0 : e.unminedSince = 0
    · simp [settleUnmined, moveUnmined, he, setUnmined, h0]
    · simp [settleUnmined, moveUnmined, he, h0]

theorem settleUnset_eq (ht : s.Tidy slot) (currentHeight : Nat) (key : TxKey) :
    s.settleUnset slot currentHeight key =
      if s.blocksOf slot e = [] then s.moveUnmined slot e currentHeight key else s := by
  have hblocks : ((s.get slot).any (·.blockId ≠ 0) || (s.overflow.get? slot).isSome) = true ↔
      s.blocksOf slot e ≠ [] := by
    cases hv : s.overflow.get? slot with
    | none => simp [blocksOf, inlineBlock, he, hv]
    | some v => simp [blocksOf, hv, (ht v hv).1]
  by_cases h : s.blocksOf slot e = []
  · rw [settleUnset, if_neg (by simpa only [not_not] using hblocks.not.mpr (not_not.mpr h)),
      if_pos h, he]
    rfl
  · rw [settleUnset, if_pos (hblocks.mpr h), if_neg h]

theorem hasBlockId_iff (blockId : Nat) :
    s.hasBlockId slot blockId ↔ blockId ∈ (s.blocksOf slot e).map (·.blockId) := by
  cases hv : s.overflow.get? slot <;> simp [hasBlockId, blocksOf, inlineBlock, he, hv]

theorem blockEntryCount_eq : s.blockEntryCount slot = (s.blocksOf slot e).length := by
  have hinline : (inlineBlock e).length = if e.blockId ≠ 0 then 1 else 0 := by grind [inlineBlock]
  cases hv : s.overflow.get? slot <;> simp [blockEntryCount, blocksOf, hinline, he, hv]

end

def otherFlags (e : MinedEntry) : Flags := e.flags &&& ~~~minedHasOverflow

theorem hasOverflow_or (f : Flags) : (f ||| minedHasOverflow) &&& minedHasOverflow ≠ 0 := by
  revert f
  decide

theorem hasOverflow_clear (f : Flags) : (f &&& ~~~minedHasOverflow) &&& minedHasOverflow = 0 := by
  revert f
  decide

/-- Rewriting the slot's entry and overflow list together, with its height and key kept. -/
theorem edit_rewrite {o : SortedMap Nat (List BlockEntry)}
    (key : TxKey) (he : s.get slot = some e)
    (ho : ∀ i ≠ slot, o.get? i = s.overflow.get? i)
    (hu : (f e).unminedSince = e.unminedSince) (hk : (f e).keyFp = e.keyFp)
    (htidy : s.Tidy slot → ∀ v, o.get? slot = some v → v ≠ [] ∧ (f e).blockId ≠ 0)
    (hflag : s.Tidy slot →
      (e.flags &&& minedHasOverflow ≠ 0 ↔ (s.overflow.get? slot).isSome) →
      ((f e).flags &&& minedHasOverflow ≠ 0 ↔ (o.get? slot).isSome)) :
    Edit s ({ s with overflow := o }.update slot f) slot key e (f e) := by
  have hget : ({ s with overflow := o }.update slot f).get slot = some (f e) := by
    rw [get_update, if_pos rfl]
    exact congrArg (Option.map f) he
  have hoverflow : Elsewhere s { s with overflow := o } slot :=
    { Elsewhere.refl s slot with overflow := ho }
  refine ⟨hoverflow.trans (.update ..), hget, hk, ?_, ?_, ?_⟩
  · intro ht v hv
    obtain ⟨hne, hid⟩ := htidy ht v hv
    exact ⟨hne, _, hget, hid⟩
  · intro ht hf e₀ he₀
    cases hget.symm.trans he₀
    exact hflag ht (hf e he)
  · intro owner _ hp h k
    have hold := hp h k
    rw [he] at hold
    rw [hget]
    exact hold.trans (by simp only [Option.some.injEq, exists_eq_left', hu])

theorem Tidy.overflow_eq_none (ht : s.Tidy slot) (he : s.get slot = some e)
    (h0 : e.blockId = 0) : s.overflow.get? slot = none := by
  refine Option.eq_none_iff_forall_ne_some.mpr fun v hv => ?_
  obtain ⟨-, e₀, he₀, hid⟩ := ht v hv
  exact hid (Option.some.inj (he.symm.trans he₀) ▸ h0)

theorem Tidy.overflow_of_dead (ht : s.Tidy slot) (hdead : s.get slot = none) :
    s.overflow.get? slot = none := by
  refine Option.eq_none_iff_forall_ne_some.mpr fun v hv => ?_
  obtain ⟨-, e, he, -⟩ := ht v hv
  simp [hdead] at he

theorem Tidy.blockId_ne_zero (ht : s.Tidy slot) (he : s.get slot = some e)
    {v : List BlockEntry} (hv : s.overflow.get? slot = some v) : e.blockId ≠ 0 := by
  intro h0
  simp [ht.overflow_eq_none he h0] at hv

/-- What recording a block adds to the recorded ones: block 0 is lost in an empty inline tuple. -/
def added (e : MinedEntry) (b : BlockEntry) : List BlockEntry :=
  if e.blockId = 0 ∧ b.blockId = 0 then [] else [b]

section

variable (he : s.get slot = some e)
include he

theorem recordBlock_spec (ht : s.Tidy slot) (key : TxKey) (b : BlockEntry) :
    ∃ e', Edit s (s.recordBlock slot e.blockId b) slot key e e' ∧
      (s.recordBlock slot e.blockId b).blocksOf slot e' = s.blocksOf slot e ++ added e b ∧
      e'.unminedSince = e.unminedSince ∧ otherFlags e' = otherFlags e := by
  by_cases h0 : e.blockId = 0
  · -- An empty inline tuple has no overflow behind it.
    have hnone := ht.overflow_eq_none he h0
    rw [recordBlock, if_pos h0]
    refine ⟨_, edit_rewrite (o := s.overflow) key he (fun _ _ => rfl) rfl rfl ?_ ?_, ?_, rfl, rfl⟩
    · intro _ v hv
      simp [hnone] at hv
    · exact fun _ h => h
    · by_cases hb : b.blockId = 0 <;> simp [blocksOf, inlineBlock, added, hnone, h0, hb]
  · rw [recordBlock, if_neg h0]
    refine ⟨_, edit_rewrite key he ?_ rfl rfl ?_ ?_, ?_, rfl, ?_⟩
    · intro i hi
      rw [SortedMap.get?_insert, if_neg hi]
    · intro _ v hv
      rw [SortedMap.get?_insert, if_pos rfl] at hv
      exact ⟨by simp [← Option.some.inj hv], h0⟩
    · intro _ _
      exact iff_of_true (hasOverflow_or _) (by simp [SortedMap.get?_insert])
    · simp [blocksOf, inlineBlock, added, SortedMap.get?_insert, h0]
    · simp only [otherFlags]
      generalize e.flags = f
      revert f
      decide

/-- Unsetting the inline block leaves the blocks behind it, unless block 0 comes next. -/
theorem unsetInline_spec (ht : s.Tidy slot) (key : TxKey)
    (hb : ∀ b ∈ ((s.overflow.get? slot).getD []).head?, b.blockId ≠ 0) :
    ∃ e', Edit s (s.unsetInline slot) slot key e e' ∧
      (s.unsetInline slot).blocksOf slot e' = (s.blocksOf slot e).tail ∧
      e'.unminedSince = e.unminedSince ∧ otherFlags e' = otherFlags e := by
  cases hv : s.overflow.get? slot with
  | none =>
    simp only [unsetInline, hv]
    refine ⟨_, edit_rewrite key he ?_ rfl rfl ?_ ?_, ?_, rfl, rfl⟩
    · intro i hi
      rw [SortedMap.get?_erase, if_neg hi]
    · intro _ v hv
      simp [SortedMap.get?_erase] at hv
    · intro _ h
      simpa [SortedMap.get?_erase, hv] using h
    · simp [blocksOf, inlineBlock, SortedMap.get?_erase, hv]
      split_ifs <;> rfl
  | some v =>
    obtain ⟨hne, e₀, he₀, hid⟩ := ht v hv
    obtain rfl : e = e₀ := Option.some.inj (he.symm.trans he₀)
    obtain ⟨b, rest, rfl⟩ := List.exists_cons_of_ne_nil hne
    have hb0 : b.blockId ≠ 0 := hb b (by simp [hv])
    simp only [unsetInline, hv]
    refine ⟨_, edit_rewrite key he ?_ rfl rfl ?_ ?_, ?_, rfl, ?_⟩
    · intro i hi
      split_ifs
      · rw [SortedMap.get?_erase, if_neg hi]
      · rw [SortedMap.get?_insert, if_neg hi]
    · intro _ v hv
      refine ⟨?_, hb0⟩
      rintro rfl
      cases rest <;> simp [SortedMap.get?_erase, SortedMap.get?_insert] at hv
    · intro _ h
      cases rest with
      | nil => simp [SortedMap.get?_erase, hasOverflow_clear]
      | cons c rest => simpa [SortedMap.get?_insert, hv] using h
    · cases rest <;>
        simp [blocksOf, inlineBlock, SortedMap.get?_erase, SortedMap.get?_insert, hv, hid, hb0]
    · simp only [otherFlags]
      split_ifs
      · generalize e.flags = f
        revert f
        decide
      · rfl

/-- Unsetting an overflow block removes it, up to the order of the rest. -/
theorem unsetOverflow_spec (key : TxKey) (blockId : Nat) {v : List BlockEntry}
    (hv : s.overflow.get? slot = some v) (hid : e.blockId ≠ 0) :
    ∃ e', Edit s (s.unsetOverflow slot blockId v) slot key e e' ∧
      ((s.unsetOverflow slot blockId v).blocksOf slot e').Perm
        (inlineBlock e ++ v.eraseP (·.blockId = blockId)) ∧
      e'.unminedSince = e.unminedSince ∧ otherFlags e' = otherFlags e := by
  have hperm := removeBlock_perm v blockId
  unfold unsetOverflow
  generalize removeBlock v blockId = w at hperm ⊢
  by_cases hempty : w.isEmpty
  · obtain rfl := List.isEmpty_iff.mp hempty
    refine ⟨_, edit_rewrite key he ?_ rfl rfl ?_ ?_, ?_, rfl, ?_⟩
    · intro i hi
      rw [SortedMap.get?_erase, if_neg hi]
    · intro _ v hv
      simp [SortedMap.get?_erase] at hv
    · intro _ _
      simp [SortedMap.get?_erase, hasOverflow_clear]
    · simpa [blocksOf, inlineBlock, SortedMap.get?_erase] using hperm.append_left (inlineBlock e)
    · simp only [otherFlags, BitVec.and_assoc, BitVec.and_self]
  · have hne : w ≠ [] := fun h => hempty (by simp [h])
    simp only [hempty, Bool.false_eq_true, if_false]
    refine ⟨e, ⟨.insertOverflow .., he, rfl, ?_, ?_, fun _ _ h => h⟩, ?_, rfl, rfl⟩
    · intro _ x hx
      rw [SortedMap.get?_insert, if_pos rfl] at hx
      exact ⟨Option.some.inj hx ▸ hne, e, he, hid⟩
    · intro _ hf e₀ he₀
      simpa [SortedMap.get?_insert, hv] using hf e₀ he₀
    · simpa [blocksOf, SortedMap.get?_insert] using hperm.append_left (inlineBlock e)

/-- A set of a recorded block changes no block; a set of a new one adds it behind the others. -/
theorem applySetMined_spec (ht : s.Tidy slot) (key : TxKey) (b : BlockEntry)
    (onLongestChain : Bool) :
    ∃ s' e', (s.applySetMined key slot b.blockId b.blockHeight b.subtreeIdx onLongestChain).1 = s' ∧
      Edit s s' slot key e e' ∧
      s'.blocksOf slot e' = (if b.blockId ∈ (s.blocksOf slot e).map (·.blockId)
        then s.blocksOf slot e else s.blocksOf slot e ++ added e b) ∧
      e'.unminedSince = (if onLongestChain then 0 else e.unminedSince) ∧
      otherFlags e' = otherFlags e := by
  have hsettle : ∀ {t : MinedShard} {e₁ : MinedEntry}, Edit s t slot key e e₁ →
      e₁.unminedSince = e.unminedSince → otherFlags e₁ = otherFlags e →
      ∃ e', Edit s (t.settleUnmined slot onLongestChain key).1 slot key e e' ∧
        (t.settleUnmined slot onLongestChain key).1.blocksOf slot e' = t.blocksOf slot e₁ ∧
        e'.unminedSince = (if onLongestChain then 0 else e.unminedSince) ∧
        otherFlags e' = otherFlags e := by
    intro t e₁ hedit hu hf
    rw [settleUnmined_eq hedit.get]
    cases onLongestChain with
    | false => exact ⟨e₁, hedit, rfl, hu, hf⟩
    | true => exact ⟨_, hedit.trans (edit_moveUnmined 0 key hedit.get), by simp, rfl, hf⟩
  by_cases hhas : s.hasBlockId slot b.blockId
  · obtain ⟨e', hedit, hblocks, hu, hf⟩ := hsettle (Edit.refl key he) rfl rfl
    refine ⟨_, e', rfl, ?_⟩
    rw [if_pos ((hasBlockId_iff he _).mp hhas)]
    simpa [applySetMined, he, hhas] using ⟨hedit, hblocks, hu, hf⟩
  · obtain ⟨e₁, hedit₁, hblocks₁, hu₁, hf₁⟩ := recordBlock_spec he ht key b
    obtain ⟨e', hedit, hblocks, hu, hf⟩ := hsettle hedit₁ hu₁ hf₁
    refine ⟨_, e', rfl, ?_⟩
    rw [if_neg (fun h => hhas ((hasBlockId_iff he _).mpr h)), ← hblocks₁]
    simpa [applySetMined, he, hhas] using ⟨hedit, hblocks, hu, hf⟩

end

/-- A slot left without blocks by an unset of its inline block becomes unmined. -/
theorem settleUnset_spec (key : TxKey) (currentHeight : Nat) {t : MinedShard} {e₁ : MinedEntry}
    (hedit : Edit s t slot key e e₁) (ht : s.Tidy slot) :
    ∃ e', Edit s (t.settleUnset slot currentHeight key) slot key e e' ∧
      (t.settleUnset slot currentHeight key).blocksOf slot e' = t.blocksOf slot e₁ ∧
      e'.unminedSince = (if t.blocksOf slot e₁ = [] then currentHeight else e₁.unminedSince) ∧
      otherFlags e' = otherFlags e₁ := by
  rw [settleUnset_eq hedit.get (hedit.tidy ht)]
  split_ifs
  · exact ⟨_, hedit.trans (edit_moveUnmined _ key hedit.get), by simp, rfl, rfl⟩
  · exact ⟨e₁, hedit, rfl, rfl, rfl⟩

section

variable (he : s.get slot = some e)
include he

/-- Unsetting the inline block in front of block 0 loses block 0. -/
theorem unsetInline_zero (key : TxKey) (currentHeight : Nat) {b : BlockEntry}
    {rest : List BlockEntry} (hv : s.overflow.get? slot = some (b :: rest)) (hb : b.blockId = 0) :
    ∃ e', ((s.unsetInline slot).settleUnset slot currentHeight key).get slot = some e' ∧
      e'.keyFp = e.keyFp ∧
      ((s.unsetInline slot).settleUnset slot currentHeight key).blocksOf slot e' = rest := by
  have hget : ∃ e₁, (s.unsetInline slot).get slot = some e₁ ∧ e₁.keyFp = e.keyFp ∧
      e₁.blockId = 0 := by
    simp only [unsetInline, hv, get_update, if_true]
    rw [show ∀ o, ({ s with overflow := o } : MinedShard).get slot = some e from fun _ => he]
    exact ⟨_, rfl, rfl, hb⟩
  have hover : ((s.unsetInline slot).overflow.get? slot).getD [] = rest := by
    cases rest <;> simp [unsetInline, hv, SortedMap.get?_erase, SortedMap.get?_insert]
  obtain ⟨e₁, he₁, hk, h0⟩ := hget
  unfold settleUnset
  split_ifs
  · exact ⟨e₁, he₁, hk, by simp [blocksOf, inlineBlock, h0, hover]⟩
  · refine ⟨{ e₁ with unminedSince := currentHeight }, by simp [get_update, he₁], hk, ?_⟩
    simp [blocksOf, inlineBlock, h0, hover]

/-- An unset removes the block, if it is recorded. A transaction whose last block goes becomes
unmined at the given height. -/
theorem applyUnset_spec (ht : s.Tidy slot) (key : TxKey) (blockId currentHeight : Nat)
    (hb : e.blockId = blockId → ∀ b ∈ ((s.overflow.get? slot).getD []).head?, b.blockId ≠ 0) :
    ∃ s' e', s.applyUnset key slot blockId currentHeight = s' ∧ Edit s s' slot key e e' ∧
      (s'.blocksOf slot e').Perm ((s.blocksOf slot e).eraseP (·.blockId = blockId)) ∧
      e'.unminedSince = (if e.blockId = blockId ∧ s'.blocksOf slot e' = [] then currentHeight
        else e.unminedSince) ∧
      otherFlags e' = otherFlags e := by
  by_cases hid : e.blockId = blockId
  · subst hid
    obtain ⟨e₁, hedit₁, hblocks₁, hu₁, hf₁⟩ := unsetInline_spec he ht key (hb rfl)
    obtain ⟨e', hedit, hblocks, hu, hf⟩ := settleUnset_spec key currentHeight hedit₁ ht
    refine ⟨_, e', by simp [applyUnset, he], hedit, ?_, ?_, hf.trans hf₁⟩
    · rw [hblocks, hblocks₁]
      by_cases h0 : e.blockId = 0
      · simp [blocksOf, inlineBlock, h0, ht.overflow_eq_none he h0]
      · simp [blocksOf, inlineBlock, h0]
    · simp [hu, hblocks, hu₁]
  · cases hv : s.overflow.get? slot with
    | none =>
      refine ⟨s, e, by simp [applyUnset, he, hid, hv], Edit.refl key he, ?_, by simp [hid], rfl⟩
      grind [blocksOf, inlineBlock]
    | some v =>
      have h0 := ht.blockId_ne_zero he hv
      obtain ⟨e₁, hedit₁, hperm₁, hu₁, hf₁⟩ := unsetOverflow_spec he key blockId hv h0
      obtain ⟨e', hedit, hblocks, hu, hf⟩ := settleUnset_spec key currentHeight hedit₁ ht
      refine ⟨_, e', by simp [applyUnset, he, hid, hv], hedit, ?_, ?_, hf.trans hf₁⟩
      · rw [hblocks]
        simpa [blocksOf, inlineBlock, h0, hid, hv] using hperm₁
      have hne : (s.unsetOverflow slot blockId v).blocksOf slot e₁ ≠ [] := by
        intro h
        simp [h, inlineBlock, h0] at hperm₁
      rw [hu, if_neg hne, hu₁, if_neg (fun h => hid h.1)]

theorem setLongestChain_eq (onLongestChain : Bool) (currentHeight : Nat) :
    s.setLongestChain key slot onLongestChain currentHeight =
      s.moveUnmined slot e (if onLongestChain then 0 else currentHeight) key := by
  simp only [setLongestChain, he]
  rfl

theorem edit_setLongestChain (key : TxKey) (onLongestChain : Bool) (currentHeight : Nat) :
    Edit s (s.setLongestChain key slot onLongestChain currentHeight) slot key e
      { e with unminedSince := if onLongestChain then 0 else currentHeight } := by
  rw [setLongestChain_eq he]
  exact edit_moveUnmined _ key he

end

theorem update_eq_self (h : s.get slot = none) :
    s.update slot f = s := by
  unfold update
  split_ifs with hlive
  · have hnone : s.entries[slot]? = none := by simpa [get, hlive] using h
    have hlen := List.getElem?_eq_none_iff.mp hnone
    rw [List.modify_eq_self (by omega)]
  · rfl

theorem edit_flags {f : Flags → Flags} (he : s.get slot = some e) (key : TxKey)
    (hf : f e.flags &&& minedHasOverflow = e.flags &&& minedHasOverflow) :
    Edit s (s.update slot fun e => { e with flags := f e.flags }) slot key e
      { e with flags := f e.flags } := by
  refine edit_rewrite (o := s.overflow) (f := fun e => { e with flags := f e.flags }) key he
    (fun _ _ => rfl) rfl rfl ?_ ?_
  · intro ht v hv
    obtain ⟨hne, e₀, he₀, hid⟩ := ht v hv
    exact ⟨hne, Option.some.inj (he.symm.trans he₀) ▸ hid⟩
  · intro _ h
    rwa [hf]

theorem entryFor_eq_some : s.entryFor key slot = some e ↔
    s.get slot = some e ∧ e.keyFp = keyFp key := by
  simp [entryFor, Option.filter_eq_some_iff]

theorem entryFor_of_edit (he : s.entryFor key slot = some e) (hedit : Edit s s' slot key e e') :
    s'.entryFor key slot = some e' :=
  entryFor_eq_some.mpr ⟨hedit.get, hedit.keyFp.trans (entryFor_eq_some.mp he).2⟩

theorem transition_absent (t : MinedTransition) (he : s.entryFor key slot = none) :
    s.applyMinedTransition key slot t = (s, .slotAbsent) := by
  simp [applyMinedTransition, he]

def readBack (s : MinedShard) (slot : Nat) (e : MinedEntry) : MinedTransitionState :=
  ⟨s.blocksOf slot e, e.unminedSince, e.flags &&& minedDeFlagMask,
    decide (e.flags &&& minedAllSpent ≠ 0)⟩

section

variable (he : s.entryFor key slot = some e)
include he

variable {onLongestChain : Bool} {blockId currentHeight : Nat}

theorem transition_set_full {blockHeight subtreeIdx : Nat}
    (hnew : blockId ∉ (s.blocksOf slot e).map (·.blockId))
    (hfull : maxBlockEntries ≤ (s.blocksOf slot e).length) :
    s.applyMinedTransition key slot (.set blockId blockHeight subtreeIdx onLongestChain) =
      (s, .blockEntriesFull) := by
  have hget := (entryFor_eq_some.mp he).1
  have hhas : s.hasBlockId slot blockId = false := by
    simpa using (hasBlockId_iff hget blockId).not.mpr hnew
  simp [applyMinedTransition, he, hhas, blockEntryCount_eq hget, hfull]

theorem transition_set_applied {b : BlockEntry}
    (hroom : b.blockId ∈ (s.blocksOf slot e).map (·.blockId) ∨
      (s.blocksOf slot e).length < maxBlockEntries)
    (hs' : (s.applySetMined key slot b.blockId b.blockHeight b.subtreeIdx onLongestChain).1 = s')
    (hedit : Edit s s' slot key e e') : s.applyMinedTransition key slot
      (.set b.blockId b.blockHeight b.subtreeIdx onLongestChain) =
        (s', .applied (s'.readBack slot e')) := by
  have hget := (entryFor_eq_some.mp he).1
  have hcap : ¬ ((!s.hasBlockId slot b.blockId && s.blockEntryCount slot ≥ maxBlockEntries)
      = true) := by
    rw [blockEntryCount_eq hget]
    rcases hroom with hmem | hlt
    · simp [(hasBlockId_iff hget _).mpr hmem]
    · simp [hlt]
  simp only [applyMinedTransition, he, if_neg hcap, hs', readMinedState,
    entryFor_of_edit he hedit, Option.map_some, readBack]

theorem transition_unset (hs' : s.applyUnset key slot blockId currentHeight = s')
    (hedit : Edit s s' slot key e e') :
    s.applyMinedTransition key slot (.unset blockId currentHeight) =
      (s', .applied (s'.readBack slot e')) := by
  simp only [applyMinedTransition, he, hs', readMinedState, entryFor_of_edit he hedit,
    Option.map_some, readBack]

/-- A set is refused when a new block finds the slot full, and applied otherwise. -/
theorem transition_set_spec (ht : s.Tidy slot)
    (b : BlockEntry) (onLongestChain : Bool) :
    (b.blockId ∉ (s.blocksOf slot e).map (·.blockId) ∧
      maxBlockEntries ≤ (s.blocksOf slot e).length ∧
      s.applyMinedTransition key slot
        (.set b.blockId b.blockHeight b.subtreeIdx onLongestChain) = (s, .blockEntriesFull)) ∨
    ((b.blockId ∈ (s.blocksOf slot e).map (·.blockId) ∨
      (s.blocksOf slot e).length < maxBlockEntries) ∧
      ∃ s' e', s.applyMinedTransition key slot
        (.set b.blockId b.blockHeight b.subtreeIdx onLongestChain) =
          (s', .applied (s'.readBack slot e')) ∧
      Edit s s' slot key e e' ∧
      s'.blocksOf slot e' = (if b.blockId ∈ (s.blocksOf slot e).map (·.blockId)
        then s.blocksOf slot e else s.blocksOf slot e ++ added e b) ∧
      e'.unminedSince = (if onLongestChain then 0 else e.unminedSince) ∧
      otherFlags e' = otherFlags e) := by
  by_cases hroom : b.blockId ∈ (s.blocksOf slot e).map (·.blockId) ∨
      (s.blocksOf slot e).length < maxBlockEntries
  · obtain ⟨s', e', hs', hedit, hrest⟩ :=
      applySetMined_spec (entryFor_eq_some.mp he).1 ht key b onLongestChain
    exact .inr ⟨hroom, s', e', transition_set_applied he hroom hs' hedit, hedit, hrest⟩
  · obtain ⟨hnew, hfull⟩ := not_or.mp hroom
    exact .inl ⟨hnew, not_lt.mp hfull, transition_set_full he hnew (not_lt.mp hfull)⟩

theorem transition_unset_state :
    (s.applyMinedTransition key slot (.unset blockId currentHeight)).1 =
      s.applyUnset key slot blockId currentHeight := by
  simp only [applyMinedTransition, he]
  split <;> rfl

end

/-- A transition leaves the shard alone or runs its set or unset. -/
theorem transition_state (s : MinedShard) (key : TxKey) (slot : Nat) (t : MinedTransition) :
    (s.applyMinedTransition key slot t).1 = s ∨
      (s.applyMinedTransition key slot t).1 = match t with
        | .set blockId blockHeight subtreeIdx onLongestChain =>
          (s.applySetMined key slot blockId blockHeight subtreeIdx onLongestChain).1
        | .unset blockId currentHeight => s.applyUnset key slot blockId currentHeight := by
  cases he : s.entryFor key slot with
  | none => exact .inl (by rw [transition_absent t he])
  | some e =>
    simp only [applyMinedTransition, he]
    grind

/-- The entry arrays have one length, and the free list holds each dead slot once. -/
structure Shaped (s : MinedShard) : Prop where
  length : s.live.length = s.entries.length
  free_nodup : s.free.Nodup
  mem_free : ∀ slot, slot ∈ s.free ↔ slot < s.entries.length ∧ s.get slot = none

theorem Shaped.of_elsewhere (h : s.Shaped) (hs : Elsewhere s s' slot) (he : s.get slot = some e)
    (he' : s'.get slot = some e') : s'.Shaped where
  length := by rw [hs.live, hs.length, h.length]
  free_nodup := hs.free ▸ h.free_nodup
  mem_free i := by
    rw [hs.free, h.mem_free, hs.length]
    by_cases hi : i = slot
    · simp [hi, he, he']
    · rw [hs.get i hi]

theorem shaped_empty : empty.Shaped where
  length := rfl
  free_nodup := List.nodup_nil
  mem_free i := by simp [empty]

theorem get_eq_some_lt (he : s.get slot = some e) : slot < s.entries.length := by
  grind [get]

/-- A slot handed out was not live, and only its entry changes. -/
theorem alloc_spec (h : s.Shaped) (e : MinedEntry) :
    s.get (s.alloc e).2 = none ∧
      (∀ i, (s.alloc e).1.get i = if i = (s.alloc e).2 then some e else s.get i) ∧
      (s.alloc e).1.overflow = s.overflow ∧ (s.alloc e).1.unmined = s.unmined ∧
      (s.alloc e).1.Shaped := by
  have hlen := h.length
  have hget : ∀ i, (s.alloc e).1.get i = if i = (s.alloc e).2 then some e else s.get i := by
    intro i
    have hmem := h.mem_free
    cases hfree : s.free <;> simp only [alloc, hfree, get] <;> grind
  cases hfree : s.free with
  | nil =>
    have hdead : s.get (s.alloc e).2 = none := by
      simp only [alloc, hfree, get]
      grind
    refine ⟨hdead, hget, by simp [alloc, hfree], by simp [alloc, hfree], ?_, ?_, ?_⟩
    · simp [alloc, hfree, hlen]
    · simp [alloc, hfree]
    · intro i
      have hold := h.mem_free i
      rw [hget i]
      simp only [alloc, hfree] at hold ⊢
      grind
  | cons slot free =>
    obtain ⟨hlt, hdead⟩ := (h.mem_free slot).mp (by simp [hfree])
    have hnodup := h.free_nodup
    refine ⟨by simpa [alloc, hfree] using hdead, hget, by simp [alloc, hfree],
      by simp [alloc, hfree], ?_, ?_, ?_⟩
    · simp [alloc, hfree, hlen]
    · simp only [hfree, List.nodup_cons] at hnodup
      simpa [alloc, hfree] using hnodup.2
    · intro i
      have hold := h.mem_free i
      rw [hget i]
      simp only [alloc, hfree, List.length_set] at hold ⊢
      grind

theorem Shaped.setUnmined (h : s.Shaped) {old new : Nat} :
    (s.setUnmined slot old new key).Shaped := by
  obtain ⟨u, hu⟩ := setUnmined_eq s slot old new key
  rw [hu]
  exact ⟨h.length, h.free_nodup, h.mem_free⟩

/-- A created transaction gets a dead slot with no blocks, listed at its height. -/
theorem allocCreated_spec (h : s.Shaped) (key : TxKey) (blockHeight : Nat) :
    ∃ s' slot, s.allocCreated key blockHeight = (s', slot) ∧ s.get slot = none ∧
      (∀ i, s'.get i = if i = slot
        then some { unminedSince := blockHeight, keyFp := keyFp key } else s.get i) ∧
      s'.overflow = s.overflow ∧
      (∀ k i, s'.listed k i =
        if i = slot ∧ k = blockHeight ∧ k ≠ 0 then some key else s.listed k i) ∧
      s'.Shaped := by
  have hspec := alloc_spec h { unminedSince := blockHeight, keyFp := keyFp key }
  rcases halloc : s.alloc { unminedSince := blockHeight, keyFp := keyFp key } with ⟨t, slot⟩
  simp only [halloc] at hspec
  obtain ⟨hdead, hget, hover, hunmined, hshaped⟩ := hspec
  have hlisted : ∀ k i, t.listed k i = s.listed k i := fun k i => by simp only [listed, hunmined]
  refine ⟨t.setUnmined slot 0 blockHeight key, slot, by simp only [allocCreated, halloc], hdead,
    ?_, by simpa using hover, ?_, hshaped.setUnmined⟩
  · intro i
    rw [get_setUnmined, hget]
  intro k i
  by_cases h0 : 0 = blockHeight
  · rw [setUnmined, if_pos h0, hlisted, if_neg (by grind)]
  · rw [listed_setUnmined h0, hlisted]
    grind

theorem freeSlot_of_dead (h : s.Shaped) (hdead : s.get slot = none) : s.freeSlot slot = s := by
  have hlen := h.length
  have hlive : s.live[slot]? ≠ some true := by grind [get]
  rw [freeSlot, if_neg hlive]

theorem freeSlot_eq (he : s.get slot = some e) :
    ∃ u, s.freeSlot slot =
      { s with
        live := s.live.set slot false
        overflow := s.overflow.erase slot
        free := slot :: s.free
        unmined := u } ∧
      ∀ k i, { s with unmined := u }.listed k i =
        if i = slot ∧ k = e.unminedSince ∧ k ≠ 0 then none else s.listed k i := by
  have hlive : s.live[slot]? = some true := by grind [get]
  have hentry : s.entries[slot]? = some e := by grind [get]
  by_cases h0 : e.unminedSince = 0
  · refine ⟨s.unmined, by simp [freeSlot, hlive, hentry, h0], fun k i => ?_⟩
    rw [if_neg (by grind)]
  obtain ⟨u, hu⟩ := dropFromBucket_eq s slot e.unminedSince
  refine ⟨u, by simp [freeSlot, hlive, hentry, h0, hu], fun k i => ?_⟩
  rw [← hu, listed_dropFromBucket]
  grind

theorem freeSlot_spec (h : s.Shaped) (he : s.get slot = some e) :
    (∀ i, (s.freeSlot slot).get i = if i = slot then none else s.get i) ∧
      (∀ i, (s.freeSlot slot).overflow.get? i =
        if i = slot then none else s.overflow.get? i) ∧
      (∀ k i, (s.freeSlot slot).listed k i =
        if i = slot ∧ k = e.unminedSince ∧ k ≠ 0 then none else s.listed k i) ∧
      (s.freeSlot slot).Shaped := by
  have hlt := get_eq_some_lt he
  have hlen := h.length
  obtain ⟨u, hu, hlisted⟩ := freeSlot_eq he
  have hget : ∀ i, (s.freeSlot slot).get i = if i = slot then none else s.get i := by
    intro i
    simp only [hu, get]
    grind
  refine ⟨hget, fun i => by rw [hu, SortedMap.get?_erase], ?_, ?_, ?_, ?_⟩
  · intro k i
    rw [hu]
    exact hlisted k i
  · simp [hu, hlen]
  · rw [hu]
    refine List.nodup_cons.mpr ⟨fun hmem => ?_, h.free_nodup⟩
    simpa [he] using ((h.mem_free slot).mp hmem).2
  · intro i
    rw [hget i, hu, List.mem_cons, h.mem_free i]
    grind

end MinedShard

end TeraSlab.Index
