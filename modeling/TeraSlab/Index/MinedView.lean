import TeraSlab.Index.MinedIndexSpec

/-!
# What readers of the mined index see

A reader sees a slot through `readMinedState`. Every operation on a slot changes what its owner
sees in one way only, and no operation changes what the owners of other slots see. None of this
needs the slot's data to be tidy, so it holds for every sequence of blocks.
-/

namespace TeraSlab.Index

open Foundations

namespace MinedShard

variable {s s' s'' : MinedShard} {slot : Nat} {key : TxKey} {e e' e'' : MinedEntry}
  {st : MinedTransitionState}

/-- An operation on a live slot that keeps its owner. -/
structure Rewrites (s s' : MinedShard) (slot : Nat) (e e' : MinedEntry) : Prop where
  elsewhere : Elsewhere s s' slot
  get : s'.get slot = some e'
  keyFp : e'.keyFp = e.keyFp

theorem Rewrites.refl (he : s.get slot = some e) : Rewrites s s slot e e := ⟨.refl s slot, he, rfl⟩

theorem Rewrites.trans (h : Rewrites s s' slot e e') (h' : Rewrites s' s'' slot e' e'') :
    Rewrites s s'' slot e e'' :=
  ⟨h.elsewhere.trans h'.elsewhere, h'.get, h'.keyFp.trans h.keyFp⟩

theorem Edit.rewrites (h : Edit s s' slot key e e') : Rewrites s s' slot e e' :=
  ⟨h.elsewhere, h.get, h.keyFp⟩

theorem rewrites_update {o : SortedMap Nat (List BlockEntry)} {f : MinedEntry → MinedEntry}
    (he : s.get slot = some e) (ho : ∀ i ≠ slot, o.get? i = s.overflow.get? i)
    (hk : (f e).keyFp = e.keyFp) :
    Rewrites s ({ s with overflow := o }.update slot f) slot e (f e) := by
  have hget : ({ s with overflow := o }.update slot f).get slot = some (f e) := by
    rw [get_update, if_pos rfl]
    exact congrArg (Option.map f) he
  have hover : Elsewhere s { s with overflow := o } slot :=
    { Elsewhere.refl s slot with overflow := ho }
  exact ⟨hover.trans (.update ..), hget, hk⟩

/-- The operation keeps the flags that the delete-at-height evaluation reads. -/
def KeepsFlags (s s' : MinedShard) (slot : Nat) (e : MinedEntry) : Prop :=
  ∃ e', Rewrites s s' slot e e' ∧ otherFlags e' = otherFlags e

theorem KeepsFlags.trans (h : Rewrites s s' slot e e') (hf : otherFlags e' = otherFlags e)
    (h' : KeepsFlags s' s'' slot e') : KeepsFlags s s'' slot e := by
  obtain ⟨e'', hr, hf'⟩ := h'
  exact ⟨e'', h.trans hr, hf'.trans hf⟩

section

variable (he : s.get slot = some e)
include he

theorem recordBlock_keepsFlags (inline : Nat) (b : BlockEntry) :
    KeepsFlags s (s.recordBlock slot inline b) slot e := by
  unfold recordBlock
  split_ifs with h0
  · exact ⟨_, rewrites_update (o := s.overflow) he (fun _ _ => rfl) rfl, rfl⟩
  refine ⟨_, rewrites_update he (fun i hi => ?_) rfl, ?_⟩
  · rw [SortedMap.get?_insert, if_neg hi]
  simp only [otherFlags]
  generalize e.flags = f
  revert f
  decide

theorem settleUnmined_keepsFlags (onLongestChain : Bool)
    (key : TxKey) : KeepsFlags s (s.settleUnmined slot onLongestChain key).1 slot e := by
  rw [settleUnmined_eq he]
  cases onLongestChain with
  | false => exact ⟨e, .refl he, rfl⟩
  | true => exact ⟨_, (edit_moveUnmined 0 key he).rewrites, rfl⟩

theorem applySetMined_keepsFlags (key : TxKey)
    (blockId blockHeight subtreeIdx : Nat) (onLongestChain : Bool) :
    KeepsFlags s (s.applySetMined key slot blockId blockHeight subtreeIdx onLongestChain).1
      slot e := by
  simp only [applySetMined, he]
  split_ifs
  · exact settleUnmined_keepsFlags he onLongestChain key
  · obtain ⟨e', hr, hf⟩ := recordBlock_keepsFlags he e.blockId ⟨blockId, blockHeight, subtreeIdx⟩
    exact .trans hr hf (settleUnmined_keepsFlags hr.get onLongestChain key)

theorem unsetInline_keepsFlags :
    KeepsFlags s (s.unsetInline slot) slot e := by
  unfold unsetInline
  split
  · refine ⟨_, rewrites_update he (fun i hi => ?_) rfl, ?_⟩
    · split_ifs
      · rw [SortedMap.get?_erase, if_neg hi]
      · rw [SortedMap.get?_insert, if_neg hi]
    · simp only [otherFlags]
      split_ifs
      · generalize e.flags = f
        revert f
        decide
      · rfl
  · refine ⟨_, rewrites_update he (fun i hi => ?_) rfl, rfl⟩
    rw [SortedMap.get?_erase, if_neg hi]

theorem unsetOverflow_keepsFlags (blockId : Nat)
    (blocks : List BlockEntry) : KeepsFlags s (s.unsetOverflow slot blockId blocks) slot e := by
  unfold unsetOverflow
  generalize removeBlock blocks blockId = w
  by_cases hempty : w.isEmpty
  · simp only [hempty, if_true]
    refine ⟨_, rewrites_update he (fun i hi => ?_) rfl, ?_⟩
    · rw [SortedMap.get?_erase, if_neg hi]
    · simp only [otherFlags, BitVec.and_assoc, BitVec.and_self]
  · simp only [hempty, Bool.false_eq_true, if_false]
    exact ⟨e, ⟨.insertOverflow .., he, rfl⟩, rfl⟩

theorem settleUnset_keepsFlags (currentHeight : Nat) (key : TxKey) :
    KeepsFlags s (s.settleUnset slot currentHeight key) slot e := by
  unfold settleUnset
  split_ifs
  · exact ⟨e, .refl he, rfl⟩
  · rw [he]
    exact ⟨_, (edit_moveUnmined currentHeight key he).rewrites, rfl⟩

theorem applyUnset_keepsFlags (key : TxKey)
    (blockId currentHeight : Nat) :
    KeepsFlags s (s.applyUnset key slot blockId currentHeight) slot e := by
  simp only [applyUnset, he]
  split_ifs
  · obtain ⟨e', hr, hf⟩ := unsetInline_keepsFlags he
    exact .trans hr hf (settleUnset_keepsFlags hr.get currentHeight key)
  · cases hv : s.overflow.get? slot with
    | none => exact ⟨e, .refl he, rfl⟩
    | some blocks =>
      obtain ⟨e', hr, hf⟩ := unsetOverflow_keepsFlags he blockId blocks
      exact .trans hr hf (settleUnset_keepsFlags hr.get currentHeight key)

end

/-! ### The owner's view -/

theorem readMinedState_eq_some : s.readMinedState key slot = some st ↔
    ∃ e, s.get slot = some e ∧ e.keyFp = keyFp key ∧ s.readBack slot e = st := by
  simp only [readMinedState, Option.map_eq_some_iff, entryFor_eq_some, readBack, and_assoc]

theorem readBlockEntries_of_view (h : s.readMinedState key slot = some st) :
    s.readBlockEntries key slot = some (st.blockEntries, st.unminedSince) := by
  obtain ⟨e, he, hk, rfl⟩ := readMinedState_eq_some.mp h
  simp [readBlockEntries, entryFor_eq_some.mpr ⟨he, hk⟩, readBack]

theorem Elsewhere.view (h : Elsewhere s s' slot) {i : Nat} (hi : i ≠ slot) (key : TxKey) :
    s'.readMinedState key i = s.readMinedState key i := by
  simp only [readMinedState, entryFor, blocksOf, h.get i hi, h.overflow i hi]

theorem otherFlags_view (h : otherFlags e' = otherFlags e) :
    e'.flags &&& minedDeFlagMask = e.flags &&& minedDeFlagMask ∧
      e'.flags &&& minedAllSpent = e.flags &&& minedAllSpent := by
  have hmask : ∀ f m : Flags, ~~~minedHasOverflow &&& m = m →
      f &&& m = (f &&& ~~~minedHasOverflow) &&& m := by
    intro f m hm
    rw [BitVec.and_assoc, hm]
  constructor
  · rw [hmask e'.flags _ (by decide), hmask e.flags _ (by decide)]
    exact congrArg (· &&& minedDeFlagMask) h
  · rw [hmask e'.flags _ (by decide), hmask e.flags _ (by decide)]
    exact congrArg (· &&& minedAllSpent) h

/-- The flags in the owner's view stay, and nobody else sees a change. -/
theorem KeepsFlags.view (h : KeepsFlags s s' slot e) (he : s.get slot = some e)
    (hv : s.readMinedState key slot = some st) :
    Elsewhere s s' slot ∧ ∃ st', s'.readMinedState key slot = some st' ∧
      st'.deFlags = st.deFlags ∧ st'.allSpent = st.allSpent := by
  obtain ⟨e', hr, hf⟩ := h
  obtain ⟨e₀, he₀, hk, rfl⟩ := readMinedState_eq_some.mp hv
  cases he.symm.trans he₀
  obtain ⟨hde, hall⟩ := otherFlags_view hf
  refine ⟨hr.elsewhere, _, readMinedState_eq_some.mpr ⟨e', hr.get, hr.keyFp.trans hk, rfl⟩,
    hde, ?_⟩
  simp only [readBack, hall]

section

variable (hv : s.readMinedState key slot = some st)
include hv

/-- A transition on a slot that its caller owns is applied, with the caller's new view as its
answer, or refused because the slot is full. -/
theorem transition_view (t : MinedTransition) :
    s.applyMinedTransition key slot t = (s, .blockEntriesFull) ∨
      ∃ s' st', s.applyMinedTransition key slot t = (s', .applied st') ∧ Elsewhere s s' slot ∧
        s'.readMinedState key slot = some st' ∧ st'.deFlags = st.deFlags ∧
        st'.allSpent = st.allSpent := by
  obtain ⟨e, he, hk, -⟩ := readMinedState_eq_some.mp hv
  have hfor := entryFor_eq_some.mpr ⟨he, hk⟩
  cases t with
  | set blockId blockHeight subtreeIdx onLongestChain =>
    obtain ⟨hels, st', hst', hde, hall⟩ :=
      (applySetMined_keepsFlags he key blockId blockHeight subtreeIdx onLongestChain).view he hv
    simp only [applyMinedTransition, hfor, hst']
    split_ifs
    · exact .inl rfl
    · exact .inr ⟨_, st', rfl, hels, hst', hde, hall⟩
  | unset blockId currentHeight =>
    obtain ⟨hels, st', hst', hde, hall⟩ :=
      (applyUnset_keepsFlags he key blockId currentHeight).view he hv
    simp only [applyMinedTransition, hfor, hst']
    exact .inr ⟨_, st', rfl, hels, hst', hde, hall⟩

theorem setLongestChain_view (onLongestChain : Bool)
    (currentHeight : Nat) :
    Elsewhere s (s.setLongestChain key slot onLongestChain currentHeight) slot ∧
      (s.setLongestChain key slot onLongestChain currentHeight).readMinedState key slot =
        some { st with unminedSince := if onLongestChain then 0 else currentHeight } := by
  obtain ⟨e, he, hk, rfl⟩ := readMinedState_eq_some.mp hv
  have hedit := edit_setLongestChain he key onLongestChain currentHeight
  refine ⟨hedit.elsewhere, readMinedState_eq_some.mpr ⟨_, hedit.get, hk, ?_⟩⟩
  simp only [setLongestChain, he, readBack]
  congr 1
  exact blocksOf_moveUnmined _

theorem flags_view {f : Flags → Flags} :
    ∃ flags : Flags, st.deFlags = flags &&& minedDeFlagMask ∧
      st.allSpent = decide (flags &&& minedAllSpent ≠ 0) ∧
      Elsewhere s (s.update slot fun e => { e with flags := f e.flags }) slot ∧
      (s.update slot fun e => { e with flags := f e.flags }).readMinedState key slot =
        some { st with
          deFlags := f flags &&& minedDeFlagMask
          allSpent := decide (f flags &&& minedAllSpent ≠ 0) } := by
  obtain ⟨e, he, hk, rfl⟩ := readMinedState_eq_some.mp hv
  have hr := rewrites_update (o := s.overflow)
    (f := fun e => { e with flags := f e.flags }) he (fun _ _ => rfl) rfl
  exact ⟨e.flags, rfl, rfl, hr.elsewhere, readMinedState_eq_some.mpr ⟨_, hr.get, hk, rfl⟩⟩

theorem writeFlags_of_view (f : Flags → Flags) :
    s.writeFlags key slot f = s.update slot fun e => { e with flags := f e.flags } := by
  obtain ⟨e, he, hk, -⟩ := readMinedState_eq_some.mp hv
  simp only [writeFlags, entryFor_eq_some.mpr ⟨he, hk⟩]

end

/-- Bits under a mask come from the second word, the others from the first. -/
theorem merge_and_mask (a b m : Flags) : ((a &&& ~~~m) ||| (b &&& m)) &&& m = b &&& m := by
  ext i hi
  simp only [BitVec.getElem_and, BitVec.getElem_or, BitVec.getElem_not]
  cases m[i] <;> simp

theorem merge_and_of_disjoint (a b : Flags) {m k : Flags} (h : ~~~m &&& k = k)
    (h0 : m &&& k = 0) : ((a &&& ~~~m) ||| (b &&& m)) &&& k = a &&& k := by
  rw [BitVec.and_or_distrib_right, BitVec.and_assoc, BitVec.and_assoc, h, h0]
  simp

section

variable (hv : s.readMinedState key slot = some st)
include hv

theorem setAllSpent_view (allSpent : Bool) : Elsewhere s (s.setAllSpent slot allSpent) slot ∧
      (s.setAllSpent slot allSpent).readMinedState key slot = some { st with allSpent } := by
  have hflags : ∀ (on : Bool) (f : Flags),
      (if on then f ||| minedAllSpent else f &&& ~~~minedAllSpent) &&& minedDeFlagMask =
        f &&& minedDeFlagMask ∧
      decide ((if on then f ||| minedAllSpent else f &&& ~~~minedAllSpent) &&& minedAllSpent ≠ 0)
        = on := by decide
  obtain ⟨flags, hde, -, hels, hst⟩ := flags_view hv
    (f := fun flags => if allSpent then flags ||| minedAllSpent else flags &&& ~~~minedAllSpent)
  rw [(hflags allSpent flags).1, (hflags allSpent flags).2, ← hde] at hst
  exact ⟨hels, hst⟩

/-- Copying the footer's flags leaves the owner's view with exactly these flags. -/
theorem reseedDeFlags_view (deFlags : Flags) : Elsewhere s (s.reseedDeFlags key slot deFlags) slot ∧
      ∃ de, (s.reseedDeFlags key slot deFlags).readMinedState key slot =
          some { st with deFlags := de } ∧
        de &&& minedDeDeviceMask = deFlags &&& minedDeDeviceMask := by
  rw [reseedDeFlags, writeFlags_of_view hv]
  obtain ⟨flags, -, hall, hels, hst⟩ := flags_view hv
    (f := fun flags => (flags &&& ~~~minedDeDeviceMask) ||| (deFlags &&& minedDeDeviceMask))
  rw [merge_and_of_disjoint flags deFlags (k := minedAllSpent) (by decide) (by decide),
    ← hall] at hst
  refine ⟨hels, _, hst, ?_⟩
  rw [BitVec.and_assoc, show minedDeFlagMask &&& minedDeDeviceMask = minedDeDeviceMask by decide,
    merge_and_mask]

/-- Caching `lastSpentAll` leaves the owner's other flags alone. -/
theorem setDeFlag_view (on : Bool) : Elsewhere s (s.setDeFlag key slot minedLastSpentAll on) slot ∧
      ∃ de, (s.setDeFlag key slot minedLastSpentAll on).readMinedState key slot =
          some { st with deFlags := de } ∧
        de &&& minedDeDeviceMask = st.deFlags &&& minedDeDeviceMask := by
  have hflags : ∀ (on : Bool) (f : Flags),
      ((if on then f ||| minedLastSpentAll else f &&& ~~~minedLastSpentAll) &&& minedDeFlagMask)
        &&& minedDeDeviceMask = (f &&& minedDeFlagMask) &&& minedDeDeviceMask ∧
      (if on then f ||| minedLastSpentAll else f &&& ~~~minedLastSpentAll) &&& minedAllSpent =
        f &&& minedAllSpent := by decide
  rw [setDeFlag, writeFlags_of_view hv]
  obtain ⟨flags, hde, hall, hels, hst⟩ := flags_view hv
    (f := fun flags => if on then flags ||| minedLastSpentAll else flags &&& ~~~minedLastSpentAll)
  rw [(hflags on flags).2, ← hall] at hst
  exact ⟨hels, _, hst, hde ▸ (hflags on flags).1⟩

end

/-- A created transaction gets a slot nobody else sees, without blocks or flags. -/
theorem allocCreated_view (h : s.Shaped) (key : TxKey) (blockHeight : Nat) :
    ∃ s' slot, s.allocCreated key blockHeight = (s', slot) ∧ s.get slot = none ∧
      (∀ k, ∀ i ≠ slot, s'.readMinedState k i = s.readMinedState k i) ∧ s'.Shaped ∧
      ∃ st, s'.readMinedState key slot = some st ∧ st.allSpent = false := by
  obtain ⟨s', slot, heq, hdead, hget, hover, -, hshaped⟩ := allocCreated_spec h key blockHeight
  refine ⟨s', slot, heq, hdead, fun k i hi => ?_, hshaped, ?_⟩
  · simp only [readMinedState, entryFor, blocksOf, hget, if_neg hi, hover]
  · refine ⟨_, readMinedState_eq_some.mpr ⟨_, by rw [hget, if_pos rfl], rfl, rfl⟩, ?_⟩
    simp [readBack]

end MinedShard

end TeraSlab.Index
