import Mathlib.Data.Finset.Card
import TeraSlab.Foundations.Run
import TeraSlab.Index.MinedIndexSpec

/-!
# The mined index refines a map from transactions to sets of blocks

The abstract index keeps, for each live slot, the set of blocks recorded for its transaction. A set
adds a block with a new id unless the set is full, an unset removes the block with the id. The
shard's reads agree with the abstract index as long as no step moves block 0 into an inline tuple,
where 0 means that the tuple is empty.
-/

namespace TeraSlab.Index

open Foundations

structure Recorded where
  keyFp : Nat
  blocks : Finset BlockEntry

namespace Recorded

def ids (r : Recorded) : Finset Nat := r.blocks.image (·.blockId)

def Full (r : Recorded) : Prop := maxBlockEntries ≤ r.ids.card

instance (r : Recorded) : Decidable r.Full := inferInstanceAs (Decidable (_ ≤ _))

def add (r : Recorded) (b : BlockEntry) : Recorded :=
  if b.blockId ∈ r.ids ∨ r.Full then r else { r with blocks := insert b r.blocks }

def remove (r : Recorded) (blockId : Nat) : Recorded :=
  { r with blocks := r.blocks.filter (·.blockId ≠ blockId) }

end Recorded

/-- The abstract index: what is recorded for the transaction of each live slot. -/
abbrev BlockMap := Nat → Option Recorded

namespace BlockMap

def modify (m : BlockMap) (key : TxKey) (slot : Nat) (f : Recorded → Recorded) : BlockMap :=
  Function.update m slot ((m slot).map fun r => if r.keyFp = keyFp key then f r else r)

end BlockMap

/-- The calls that create, mine, unmine and free a transaction. -/
inductive MinedCall where
  | allocCreated (key : TxKey) (blockHeight : Nat)
  | transition (key : TxKey) (slot : Nat) (t : MinedTransition)
  | setLongestChain (key : TxKey) (slot : Nat) (onLongestChain : Bool) (currentHeight : Nat)
  | free (slot : Nat)

/-- A shard beside the abstract index fed with the same calls. -/
structure TrackedShard where
  shard : MinedShard
  recorded : BlockMap

namespace TrackedShard

def empty : TrackedShard := ⟨.empty, fun _ => none⟩

def step (t : TrackedShard) : MinedCall → TrackedShard
  | .allocCreated key blockHeight =>
    let (shard, slot) := t.shard.allocCreated key blockHeight
    ⟨shard, Function.update t.recorded slot (some ⟨keyFp key, ∅⟩)⟩
  | .transition key slot (.set blockId blockHeight subtreeIdx onLongestChain) =>
    ⟨(t.shard.applyMinedTransition key slot
        (.set blockId blockHeight subtreeIdx onLongestChain)).1,
      t.recorded.modify key slot (·.add ⟨blockId, blockHeight, subtreeIdx⟩)⟩
  | .transition key slot (.unset blockId currentHeight) =>
    ⟨(t.shard.applyMinedTransition key slot (.unset blockId currentHeight)).1,
      t.recorded.modify key slot (·.remove blockId)⟩
  | .setLongestChain key slot onLongestChain currentHeight =>
    { t with shard := t.shard.setLongestChain key slot onLongestChain currentHeight }
  | .free slot => ⟨t.shard.freeSlot slot, Function.update t.recorded slot none⟩

/-- Reads return every recorded block once and no other block. -/
structure Faithful (t : TrackedShard) : Prop where
  read : ∀ key slot r, t.recorded slot = some r → r.keyFp = keyFp key →
    ∃ bs unminedSince, t.shard.readBlockEntries key slot = some (bs, unminedSince) ∧
      (bs.map (·.blockId)).Nodup ∧ bs.toFinset = r.blocks
  absent : ∀ key slot, (∀ r, t.recorded slot = some r → r.keyFp ≠ keyFp key) →
    t.shard.readBlockEntries key slot = none

/-- An accepted set is visible in the blocks it returns. -/
def AcceptedVisible (t : TrackedShard) : MinedCall → Prop
  | .transition key slot (.set blockId blockHeight subtreeIdx onLongestChain) =>
    ∀ state, (t.shard.applyMinedTransition key slot
        (.set blockId blockHeight subtreeIdx onLongestChain)).2 = .applied state →
      blockId ∈ state.blockEntries.map (·.blockId)
  | _ => True

/-- A set is refused as full exactly when 255 other ids are recorded, and then changes nothing. -/
def RefusedExactly (t : TrackedShard) : MinedCall → Prop
  | .transition key slot (.set blockId blockHeight subtreeIdx onLongestChain) =>
    let out := t.shard.applyMinedTransition key slot
      (.set blockId blockHeight subtreeIdx onLongestChain)
    (out.2 = .blockEntriesFull ↔
      ∃ r, t.recorded slot = some r ∧ r.keyFp = keyFp key ∧ (r.ids.erase blockId).card = 255) ∧
    (out.2 = .blockEntriesFull → out.1 = t.shard)
  | _ => True

structure Refines (t : TrackedShard) (c : MinedCall) : Prop where
  faithful : (t.step c).Faithful
  visible : t.AcceptedVisible c
  refused : t.RefusedExactly c

/-- The step does not put block 0 into an inline tuple: it does not set block 0 on a slot without
an inline block, and it does not unset the inline block in front of block 0. -/
def Clear (t : TrackedShard) : MinedCall → Prop
  | .transition key slot (.set blockId ..) =>
    ∀ e, t.shard.entryFor key slot = some e → blockId = 0 → e.blockId ≠ 0
  | .transition key slot (.unset blockId _) =>
    ∀ e, t.shard.entryFor key slot = some e → e.blockId = blockId →
      ∀ b ∈ ((t.shard.overflow.get? slot).getD []).head?, b.blockId ≠ 0
  | _ => True

structure Matches (s : MinedShard) (slot : Nat) (e : MinedEntry) (r : Recorded) : Prop where
  keyFp : r.keyFp = e.keyFp
  nodup : ((s.blocksOf slot e).map (·.blockId)).Nodup
  blocks : (s.blocksOf slot e).toFinset = r.blocks
  length : (s.blocksOf slot e).length ≤ maxBlockEntries

structure Inv (t : TrackedShard) : Prop where
  shaped : t.shard.Shaped
  tidy : ∀ slot, t.shard.Tidy slot
  live : ∀ slot e, t.shard.get slot = some e →
    ∃ r, t.recorded slot = some r ∧ Matches t.shard slot e r
  dead : ∀ slot, t.shard.get slot = none → t.recorded slot = none

variable {t : TrackedShard} {s' s : MinedShard} {slot : Nat} {key : TxKey} {e e' : MinedEntry}
  {r r' : Recorded}

theorem Matches.ids (h : Matches s' slot e r) :
    r.ids = ((s'.blocksOf slot e).map (·.blockId)).toFinset := by
  ext i
  simp [Recorded.ids, ← h.blocks]

theorem Matches.mem_ids (h : Matches s' slot e r) (blockId : Nat) :
    blockId ∈ r.ids ↔ blockId ∈ (s'.blocksOf slot e).map (·.blockId) := by
  rw [h.ids, List.mem_toFinset]

theorem Matches.congr (h : Matches s slot e r) (hk : e'.keyFp = e.keyFp)
    (hblocks : s'.blocksOf slot e' = s.blocksOf slot e) : Matches s' slot e' r :=
  ⟨h.keyFp.trans hk.symm, hblocks ▸ h.nodup, hblocks ▸ h.blocks, hblocks ▸ h.length⟩

theorem Matches.card_ids (h : Matches s' slot e r) :
    r.ids.card = (s'.blocksOf slot e).length := by
  rw [h.ids, List.toFinset_card_of_nodup h.nodup, List.length_map]

theorem Inv.entryFor (h : t.Inv) (hr : t.recorded slot = some r) (hk : r.keyFp = keyFp key) :
    ∃ e, t.shard.entryFor key slot = some e ∧ Matches t.shard slot e r := by
  cases hget : t.shard.get slot with
  | none => simp [h.dead slot hget] at hr
  | some e =>
    obtain ⟨r', hr', hm⟩ := h.live slot e hget
    cases hr.symm.trans hr'
    exact ⟨e, MinedShard.entryFor_eq_some.mpr ⟨hget, hm.keyFp ▸ hk⟩, hm⟩

theorem Inv.recorded (h : t.Inv) (he : t.shard.entryFor key slot = some e) :
    ∃ r, t.recorded slot = some r ∧ r.keyFp = keyFp key ∧ Matches t.shard slot e r := by
  obtain ⟨hget, hk⟩ := MinedShard.entryFor_eq_some.mp he
  obtain ⟨r, hr, hm⟩ := h.live slot e hget
  exact ⟨r, hr, hm.keyFp.trans hk, hm⟩

theorem Inv.faithful (h : t.Inv) : t.Faithful where
  read key slot r hr hk := by
    obtain ⟨e, he, hm⟩ := h.entryFor hr hk
    exact ⟨_, _, by rw [MinedShard.readBlockEntries, he, Option.map_some], hm.nodup, hm.blocks⟩
  absent key slot hnone := by
    rw [MinedShard.readBlockEntries, Option.map_eq_none_iff]
    refine Option.eq_none_iff_forall_ne_some.mpr fun e he => ?_
    obtain ⟨r, hr, hk, -⟩ := h.recorded he
    exact hnone r hr hk

theorem inv_empty : empty.Inv where
  shaped := MinedShard.shaped_empty
  tidy _ _ hv := by simp [empty, MinedShard.empty] at hv
  live _ _ he := by simp [empty, MinedShard.empty, MinedShard.get] at he
  dead _ _ := rfl

/-- An edit of one live slot, matched by the abstract index, keeps the invariant. -/
theorem Inv.edit (h : t.Inv) (he : t.shard.get slot = some e)
    (hedit : MinedShard.Edit t.shard s' slot key e e') (hm : Matches s' slot e' r') :
    Inv ⟨s', Function.update t.recorded slot (some r')⟩ := by
  have hs := hedit.elsewhere
  refine ⟨h.shaped.of_elsewhere hs he hedit.get, fun i => ?_, fun i e₀ he₀ => ?_, fun i hi₀ => ?_⟩
  · by_cases hi : i = slot
    · exact hi ▸ hedit.tidy (h.tidy slot)
    · simpa only [MinedShard.Tidy, hs.overflow i hi, hs.get i hi] using h.tidy i
  · by_cases hi : i = slot
    · subst hi
      cases hedit.get.symm.trans he₀
      exact ⟨r', by simp, hm⟩
    · obtain ⟨r, hr, hm⟩ := h.live i e₀ (hs.get i hi ▸ he₀)
      exact ⟨r, by simpa [hi] using hr,
        hm.congr rfl (by simp only [MinedShard.blocksOf, hs.overflow i hi])⟩
  · have hi : i ≠ slot := by
      rintro rfl
      simp [hedit.get] at hi₀
    simpa [hi] using h.dead i (hs.get i hi ▸ hi₀)

variable {f : Recorded → Recorded} {m : BlockMap} {b : BlockEntry}

theorem modify_eq_self (h : ∀ r, m slot = some r → r.keyFp = keyFp key → f r = r) :
    m.modify key slot f = m := by
  refine Function.update_eq_self_iff.mpr ?_
  cases hm : m slot with
  | none => rfl
  | some r => grind

theorem modify_eq_update (hr : m slot = some r) (hk : r.keyFp = keyFp key) :
    m.modify key slot f = Function.update m slot (some (f r)) := by
  simp [BlockMap.modify, hr, hk]

theorem inv_allocCreated (h : t.Inv) (key : TxKey) (blockHeight : Nat) :
    (t.step (.allocCreated key blockHeight)).Inv := by
  obtain ⟨s', slot, hs', hdead, hget, hover, -, hshaped⟩ :=
    MinedShard.allocCreated_spec h.shaped key blockHeight
  have hnone := (h.tidy slot).overflow_of_dead hdead
  simp only [step, hs']
  refine ⟨hshaped, fun i => ?_, fun i e he => ?_, fun i hi₀ => ?_⟩
  · have hi := h.tidy i
    simp only [MinedShard.Tidy, hover, hget] at hi ⊢
    grind
  · by_cases hi : i = slot
    · subst hi
      obtain rfl : _ = e := by simpa [hget] using he
      refine ⟨_, Function.update_self .., rfl, ?_, ?_, ?_⟩
      all_goals simp [MinedShard.blocksOf, MinedShard.inlineBlock, hover, hnone]
    · rw [hget, if_neg hi] at he
      obtain ⟨r, hr, hm⟩ := h.live i e he
      exact ⟨r, by simpa [hi] using hr, hm.congr rfl (by simp only [MinedShard.blocksOf, hover])⟩
  · grind [h.dead i, Function.update_apply]

theorem inv_free (h : t.Inv) (slot : Nat) : (t.step (.free slot)).Inv := by
  cases hget : t.shard.get slot with
  | none =>
    have hrec : Function.update t.recorded slot none = t.recorded :=
      Function.update_eq_self_iff.mpr (h.dead slot hget).symm
    rw [step, MinedShard.freeSlot_of_dead h.shaped hget, hrec]
    exact h
  | some e =>
    obtain ⟨hget', hover, -, hshaped⟩ := MinedShard.freeSlot_spec h.shaped hget
    simp only [step]
    refine ⟨hshaped, fun i => ?_, fun i e he => ?_, fun i hi₀ => ?_⟩
    · have hi := h.tidy i
      simp only [MinedShard.Tidy, hover, hget'] at hi ⊢
      grind
    · have hi : i ≠ slot := by grind
      rw [hget', if_neg hi] at he
      obtain ⟨r, hr, hm⟩ := h.live i e he
      exact ⟨r, by simpa [hi] using hr,
        hm.congr rfl (by simp only [MinedShard.blocksOf, hover, if_neg hi])⟩
    · grind [h.dead i, Function.update_apply]

theorem inv_setLongestChain (h : t.Inv) (key : TxKey) (slot : Nat) (onLongestChain : Bool)
    (currentHeight : Nat) :
    (t.step (.setLongestChain key slot onLongestChain currentHeight)).Inv := by
  cases hget : t.shard.get slot with
  | none => simpa [step, MinedShard.setLongestChain, hget] using h
  | some e =>
    obtain ⟨r, hr, hm⟩ := h.live slot e hget
    have hedit := MinedShard.edit_setLongestChain hget key onLongestChain currentHeight
    have hinv := h.edit hget hedit (hm.congr rfl (by
      rw [MinedShard.setLongestChain_eq hget, MinedShard.blocksOf_moveUnmined]))
    rwa [Function.update_eq_self_iff.mpr hr.symm] at hinv

theorem step_absent (h : t.Inv) (tr : MinedTransition) (he : t.shard.entryFor key slot = none) :
    t.step (.transition key slot tr) = t := by
  have hmod : ∀ f, t.recorded.modify key slot f = t.recorded := by
    intro f
    refine modify_eq_self fun r hr hk => ?_
    obtain ⟨e, he', -⟩ := h.entryFor hr hk
    simp [he] at he'
  cases tr <;> simp [step, MinedShard.transition_absent _ he, hmod]

theorem Matches.card_erase (h : Matches s' slot e r) (blockId : Nat) :
    (r.ids.erase blockId).card = 255 ↔
      blockId ∉ (s'.blocksOf slot e).map (·.blockId) ∧
        maxBlockEntries ≤ (s'.blocksOf slot e).length := by
  have hcard := h.card_ids
  have hlen := h.length
  have hmem := h.mem_ids blockId
  simp only [maxBlockEntries] at hlen ⊢
  by_cases hid : blockId ∈ r.ids
  · rw [Finset.card_erase_of_mem hid, hcard]
    simp only [← hmem, hid, not_true_eq_false, false_and, iff_false]
    omega
  · rw [Finset.erase_eq_of_notMem hid, hcard, ← hmem]
    simp only [hid, not_false_eq_true, true_and]
    omega

theorem Matches.full (h : Matches s' slot e r) :
    r.Full ↔ maxBlockEntries ≤ (s'.blocksOf slot e).length := by
  rw [Recorded.Full, h.card_ids]

/-- A block added behind the others is added to the recorded set. -/
theorem Matches.add (h : Matches s slot e r) (hk : e'.keyFp = e.keyFp)
    (hroom : b.blockId ∈ (s.blocksOf slot e).map (·.blockId) ∨
      (s.blocksOf slot e).length < maxBlockEntries)
    (hblocks : s'.blocksOf slot e' =
      if b.blockId ∈ (s.blocksOf slot e).map (·.blockId) then s.blocksOf slot e
      else s.blocksOf slot e ++ [b]) :
    Matches s' slot e' (r.add b) := by
  by_cases hmem : b.blockId ∈ (s.blocksOf slot e).map (·.blockId)
  · rw [if_pos hmem] at hblocks
    rw [Recorded.add, if_pos (.inl ((h.mem_ids _).mpr hmem))]
    exact h.congr hk hblocks
  · have hlt := hroom.resolve_left hmem
    have hnew : ¬ (b.blockId ∈ r.ids ∨ r.Full) := by
      rw [h.mem_ids, h.full]
      exact not_or.mpr ⟨hmem, not_le.mpr hlt⟩
    rw [if_neg hmem] at hblocks
    rw [Recorded.add, if_neg hnew]
    refine ⟨h.keyFp.trans hk.symm, ?_, ?_, ?_⟩
    · rw [hblocks, List.map_append, List.nodup_append]
      exact ⟨h.nodup, by simp, by grind⟩
    · rw [hblocks, List.toFinset_append, h.blocks, Finset.union_comm]
      rfl
    · rw [hblocks, List.length_append]
      exact hlt

/-- At most one block has the id. -/
theorem eraseP_eq_filter {bs : List BlockEntry} {blockId : Nat}
    (h : (bs.map (·.blockId)).Nodup) :
    bs.eraseP (·.blockId = blockId) = bs.filter (·.blockId ≠ blockId) := by
  induction bs with
  | nil => rfl
  | cons b bs ih =>
    obtain ⟨hb, hbs⟩ := List.nodup_cons.mp h
    by_cases hid : b.blockId = blockId
    · have hrest : bs.filter (·.blockId ≠ blockId) = bs := by
        refine List.filter_eq_self.mpr fun c hc => ?_
        simpa using fun hcid : c.blockId = blockId =>
          hb (List.mem_map.mpr ⟨c, hc, hcid.trans hid.symm⟩)
      simpa [hid] using hrest.symm
    · simp [hid, ih hbs]

/-- A block removed from the list, in any order of the rest, is removed from the recorded set. -/
theorem Matches.remove {blockId : Nat} (h : Matches s slot e r) (hk : e'.keyFp = e.keyFp)
    (hperm : (s'.blocksOf slot e').Perm ((s.blocksOf slot e).eraseP (·.blockId = blockId))) :
    Matches s' slot e' (r.remove blockId) := by
  rw [eraseP_eq_filter h.nodup] at hperm
  have hsub : ((s.blocksOf slot e).filter (·.blockId ≠ blockId)).Sublist (s.blocksOf slot e) :=
    List.filter_sublist
  refine ⟨h.keyFp.trans hk.symm, ?_, ?_, ?_⟩
  · exact ((hperm.map _).nodup_iff).mpr (h.nodup.sublist (hsub.map _))
  · rw [List.toFinset_eq_of_perm _ _ hperm, List.toFinset_filter, h.blocks]
    simp [Recorded.remove]
  · rw [hperm.length_eq]
    exact hsub.length_le.trans h.length

section

variable (h : t.Inv)
include h

theorem refusedExactly_set (key : TxKey) (slot : Nat) (b : BlockEntry) (onLongestChain : Bool) :
    t.RefusedExactly (.transition key slot
      (.set b.blockId b.blockHeight b.subtreeIdx onLongestChain)) := by
  cases he : t.shard.entryFor key slot with
  | none =>
    simp only [RefusedExactly, MinedShard.transition_absent _ he, reduceCtorEq, false_iff,
      false_implies, and_true]
    rintro ⟨r, hr, hk, -⟩
    obtain ⟨e, he', -⟩ := h.entryFor hr hk
    simp [he] at he'
  | some e =>
    obtain ⟨r, hr, hk, hm⟩ := h.recorded he
    have hexists : (∃ r, t.recorded slot = some r ∧ r.keyFp = keyFp key ∧
        (r.ids.erase b.blockId).card = 255) ↔ (r.ids.erase b.blockId).card = 255 := by
      simp [hr, hk]
    simp only [RefusedExactly, hexists, hm.card_erase]
    rcases MinedShard.transition_set_spec he (h.tidy slot) b onLongestChain with
      ⟨hnew, hfull, heq⟩ | ⟨hroom, s', e', heq, -⟩
    · simp [heq, hfull, hnew]
    · simp only [heq, reduceCtorEq, false_iff, false_implies, and_true, not_and, not_le]
      exact fun hnew => hroom.resolve_left hnew

/-- A set that does not lose block 0 keeps the invariant and is visible. -/
theorem set_of_clear (b : BlockEntry) (onLongestChain : Bool) :
    let c := .transition key slot (.set b.blockId b.blockHeight b.subtreeIdx onLongestChain)
    t.Clear c → (t.step c).Inv ∧ t.AcceptedVisible c := by
  dsimp only
  intro hclear
  cases he : t.shard.entryFor key slot with
  | none =>
    rw [step_absent h _ he]
    exact ⟨h, by simp [AcceptedVisible, MinedShard.transition_absent _ he]⟩
  | some e =>
    obtain ⟨r, hr, hk, hm⟩ := h.recorded he
    have hget := (MinedShard.entryFor_eq_some.mp he).1
    have hadded : MinedShard.added e b = [b] := by
      have hb := hclear e he
      grind [MinedShard.added]
    simp only [step, AcceptedVisible, modify_eq_update hr hk]
    rcases MinedShard.transition_set_spec he (h.tidy slot) b onLongestChain with
      ⟨hnew, hfull, heq⟩ | ⟨hroom, s', e', heq, hedit, hblocks, -, -⟩
    · have hadd : r.add b = r := if_pos (.inr (hm.full.mpr hfull))
      rw [heq, hadd, Function.update_eq_self_iff.mpr hr.symm]
      exact ⟨h, by simp⟩
    · rw [heq]
      rw [hadded] at hblocks
      refine ⟨h.edit hget hedit (hm.add hedit.keyFp hroom hblocks), ?_⟩
      · rintro state ⟨⟩
        simp only [MinedShard.readBack, hblocks]
        split_ifs with hmem
        · exact hmem
        · simp

/-- An unset that does not move block 0 into the inline tuple keeps the invariant. -/
theorem inv_unset (blockId currentHeight : Nat)
    (hclear : t.Clear (.transition key slot (.unset blockId currentHeight))) :
    (t.step (.transition key slot (.unset blockId currentHeight))).Inv := by
  cases he : t.shard.entryFor key slot with
  | none =>
    rw [step_absent h _ he]
    exact h
  | some e =>
    obtain ⟨r, hr, hk, hm⟩ := h.recorded he
    have hget := (MinedShard.entryFor_eq_some.mp he).1
    obtain ⟨s', e', hs', hedit, hperm, -, -⟩ := MinedShard.applyUnset_spec hget (h.tidy slot) key
      blockId currentHeight (hclear e he)
    simp only [step, modify_eq_update hr hk, MinedShard.transition_unset he hs' hedit]
    exact h.edit hget hedit (hm.remove hedit.keyFp hperm)

theorem inv_step (c : MinedCall) (hc : t.Clear c) : (t.step c).Inv := by
  cases c with
  | allocCreated key blockHeight => exact inv_allocCreated h key blockHeight
  | free slot => exact inv_free h slot
  | setLongestChain key slot onLongestChain currentHeight =>
    exact inv_setLongestChain h key slot onLongestChain currentHeight
  | transition key slot tr =>
    cases tr with
    | set blockId blockHeight subtreeIdx onLongestChain =>
      exact (set_of_clear h ⟨blockId, blockHeight, subtreeIdx⟩ onLongestChain hc).1
    | unset blockId currentHeight => exact inv_unset h blockId currentHeight hc

theorem refines_of_clear (c : MinedCall) (hc : t.Clear c) : t.Refines c := by
  have hfaithful := (inv_step h c hc).faithful
  cases c with
  | transition key slot tr =>
    cases tr with
    | set blockId blockHeight subtreeIdx onLongestChain =>
      exact ⟨hfaithful, (set_of_clear h ⟨blockId, blockHeight, subtreeIdx⟩ onLongestChain hc).2,
        refusedExactly_set h key slot ⟨blockId, blockHeight, subtreeIdx⟩ onLongestChain⟩
    | unset => exact ⟨hfaithful, trivial, trivial⟩
  | _ => exact ⟨hfaithful, trivial, trivial⟩

/-- Block 0 set on a slot without blocks is accepted and not visible. -/
theorem set_zero_invisible {blockHeight subtreeIdx : Nat} {onLongestChain : Bool}
    (he : t.shard.entryFor key slot = some e) (h0 : e.blockId = 0) :
    ¬ t.AcceptedVisible (.transition key slot (.set 0 blockHeight subtreeIdx onLongestChain)) := by
  have hget := (MinedShard.entryFor_eq_some.mp he).1
  have hempty : t.shard.blocksOf slot e = [] := by
    simp [MinedShard.blocksOf, MinedShard.inlineBlock, h0, (h.tidy slot).overflow_eq_none hget h0]
  intro hvisible
  rcases MinedShard.transition_set_spec he (h.tidy slot) ⟨0, blockHeight, subtreeIdx⟩
    onLongestChain with ⟨-, hfull, -⟩ | ⟨-, s', e', heq, -, hblocks, -⟩
  · simp [hempty, maxBlockEntries] at hfull
  · have hmem := hvisible _ (congrArg Prod.snd heq)
    simp [MinedShard.readBack, hblocks, hempty, MinedShard.added, h0] at hmem

/-- After the inline block in front of block 0 is unset, reads miss block 0. -/
theorem unset_zero_unfaithful {currentHeight : Nat} (he : t.shard.entryFor key slot = some e)
    (hb : b ∈ ((t.shard.overflow.get? slot).getD []).head?) (hb0 : b.blockId = 0) :
    ¬ (t.step (.transition key slot (.unset e.blockId currentHeight))).Faithful := by
  obtain ⟨hget, hfp⟩ := MinedShard.entryFor_eq_some.mp he
  obtain ⟨r, hr, hk, hm⟩ := h.recorded he
  obtain ⟨rest, hv⟩ : ∃ rest, t.shard.overflow.get? slot = some (b :: rest) := by
    cases hv : t.shard.overflow.get? slot with
    | none => simp [hv] at hb
    | some v => cases v <;> simp_all
  have hid := (h.tidy slot).blockId_ne_zero hget hv
  have hblocks : t.shard.blocksOf slot e =
      ⟨e.blockId, e.blockHeight, e.subtreeIdx⟩ :: b :: rest := by
    simp [MinedShard.blocksOf, MinedShard.inlineBlock, hid, hv]
  obtain ⟨e', he', hk', hrest⟩ := MinedShard.unsetInline_zero hget key currentHeight hv hb0
  intro hf
  have hstep : t.step (.transition key slot (.unset e.blockId currentHeight)) =
      ⟨(t.shard.unsetInline slot).settleUnset slot currentHeight key,
        Function.update t.recorded slot (some (r.remove e.blockId))⟩ := by
    simp [step, modify_eq_update hr hk, MinedShard.transition_unset_state he,
      MinedShard.applyUnset, hget]
  rw [hstep] at hf
  obtain ⟨bs, u, hread, -, hset⟩ := hf.read key slot (r.remove e.blockId) (by simp) hk
  obtain ⟨rfl, -⟩ : rest = bs ∧ e'.unminedSince = u := by
    rw [MinedShard.readBlockEntries,
      MinedShard.entryFor_eq_some.mpr ⟨he', hk'.trans hfp⟩, Option.map_some, hrest] at hread
    simpa using hread
  have hmem : b ∈ rest := by
    rw [← List.mem_toFinset, hset, Recorded.remove, ← hm.blocks, hblocks]
    simp [hb0, Ne.symm hid]
  have hnodup := hm.nodup
  rw [hblocks] at hnodup
  exact absurd (List.mem_map_of_mem hmem) (List.nodup_cons.mp (List.nodup_cons.mp hnodup).2).1

theorem clear_of_refines (c : MinedCall) (hc : t.Refines c) : t.Clear c := by
  cases c with
  | transition key slot tr =>
    cases tr with
    | set blockId blockHeight subtreeIdx onLongestChain =>
      rintro e he rfl h0
      exact set_zero_invisible h he h0 hc.visible
    | unset blockId currentHeight =>
      rintro e he rfl b hb hb0
      exact unset_zero_unfaithful h he hb hb0 hc.faithful
  | _ => trivial

end

/-- From the empty shard, every step of a run keeps to the abstract index exactly when no step
puts block 0 into an inline tuple. -/
theorem refines_iff_clear (calls : List MinedCall) :
    Guarded step Refines empty calls ↔ Guarded step Clear empty calls :=
  guarded_iff_of_invariant (I := Inv) (fun _ c hi hc => inv_step hi c hc)
    (fun _ c hi => ⟨clear_of_refines hi c, refines_of_clear hi c⟩) inv_empty

/-- A block 0 set on a created transaction is accepted and then missing from the read-back. -/
theorem set_zero_not_visible :
    let key : TxKey := ⟨Vector.replicate 32 1⟩
    ¬ Guarded step Refines empty
      [.allocCreated key 5, .transition key 0 (.set 0 10 0 true)] := by
  intro key h
  have he : (empty.step (.allocCreated key 5)).shard.entryFor key 0 =
      some { unminedSince := 5, keyFp := keyFp key } :=
    MinedShard.entryFor_eq_some.mpr ⟨rfl, rfl⟩
  exact set_zero_invisible (inv_allocCreated inv_empty key 5) he rfl h.2.1.visible

end TrackedShard

end TeraSlab.Index
