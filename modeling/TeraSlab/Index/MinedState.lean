import TeraSlab.Index.MinedIndex

/-!
# The mined state of one transaction

What the mined index keeps for a transaction: the blocks it was mined in, and the height since
which it is unmined, 0 if it is not. A block is recorded once; a transaction whose last block is
unset becomes unmined.

Operations that are applied a second time, to the state they left, find the same blocks again.
The height may come out differently: an operation that set it may not do so the second time.
-/

namespace TeraSlab.Index

structure MinedState where
  blocks : List BlockEntry
  unminedSince : Nat
deriving DecidableEq

inductive MinedEvent where
  | set (block : BlockEntry) (onLongestChain : Bool)
  | unset (blockId currentHeight : Nat)
  | mark (onLongestChain : Bool) (currentHeight : Nat)
deriving DecidableEq

namespace MinedState

def ids (m : MinedState) : List Nat := m.blocks.map (·.blockId)

def without (m : MinedState) (blockId : Nat) : List BlockEntry :=
  m.blocks.filter (·.blockId ≠ blockId)

def apply (m : MinedState) : MinedEvent → MinedState
  | .set b onLongestChain =>
    ⟨if b.blockId ∈ m.ids then m.blocks else m.blocks ++ [b],
      if onLongestChain then 0 else m.unminedSince⟩
  | .unset blockId currentHeight =>
    ⟨m.without blockId,
      if blockId ∈ m.ids ∧ m.without blockId = [] then currentHeight else m.unminedSince⟩
  | .mark onLongestChain currentHeight =>
    { m with unminedSince := if onLongestChain then 0 else currentHeight }

def applyAll (m : MinedState) (es : List MinedEvent) : MinedState := es.foldl apply m

def Assigns (m : MinedState) : MinedEvent → Prop
  | .set _ onLongestChain => onLongestChain = true
  | .unset blockId _ => blockId ∈ m.ids ∧ m.without blockId = []
  | .mark .. => True

instance (m : MinedState) : ∀ e, Decidable (m.Assigns e)
  | .set _ onLongestChain => inferInstanceAs (Decidable (onLongestChain = true))
  | .unset blockId _ => inferInstanceAs (Decidable (blockId ∈ m.ids ∧ m.without blockId = []))
  | .mark .. => isTrue trivial

def AssignsIn : MinedState → List MinedEvent → Prop
  | _, [] => False
  | m, e :: es => m.Assigns e ∨ (m.apply e).AssignsIn es

instance AssignsIn.decidable : ∀ m es, Decidable (AssignsIn m es)
  | _, [] => isFalse id
  | m, e :: es =>
    have := AssignsIn.decidable (m.apply e) es
    inferInstanceAs (Decidable (m.Assigns e ∨ (m.apply e).AssignsIn es))

variable {m m' : MinedState} {e : MinedEvent} {es : List MinedEvent} {id : Nat}

@[simp] theorem applyAll_nil : m.applyAll [] = m := rfl

@[simp] theorem applyAll_cons : m.applyAll (e :: es) = (m.apply e).applyAll es := rfl

theorem applyAll_append (es es' : List MinedEvent) :
    m.applyAll (es ++ es') = (m.applyAll es).applyAll es' := List.foldl_append

/-- A state is built again from its blocks and its height. -/
theorem applyAll_rebuild (u : Nat) (pre bs : List BlockEntry)
    (h : ((pre ++ bs).map (·.blockId)).Nodup) :
    (⟨pre, u⟩ : MinedState).applyAll (bs.map fun b => .set b (u = 0)) = ⟨pre ++ bs, u⟩ := by
  induction bs generalizing pre with
  | nil => simp
  | cons b bs ih =>
    have hnew : b.blockId ∉ (⟨pre, u⟩ : MinedState).ids := by
      rw [List.map_append, List.map_cons] at h
      exact fun hmem => (List.disjoint_of_nodup_append h hmem) List.mem_cons_self
    have hstep : (⟨pre, u⟩ : MinedState).apply (.set b (u = 0)) = ⟨pre ++ [b], u⟩ := by
      simp only [apply, if_neg hnew, decide_eq_true_eq, mk.injEq, true_and]
      split_ifs with hu
      · exact hu.symm
      · rfl
    rw [List.map_cons, applyAll_cons, hstep, ih _ (by simpa using h)]
    simp

/-! ### The block with an id -/

def find (m : MinedState) (id : Nat) : Option BlockEntry := m.blocks.find? (·.blockId = id)

def findStep (id : Nat) (o : Option BlockEntry) : MinedEvent → Option BlockEntry
  | .set b _ => if b.blockId = id then o.or (some b) else o
  | .unset blockId _ => if blockId = id then none else o
  | .mark .. => o

theorem mem_ids_iff : id ∈ m.ids ↔ (m.find id).isSome := by
  simp [ids, find, List.find?_isSome]

theorem find_apply : (m.apply e).find id = findStep id (m.find id) e := by
  cases e with
  | set b onLongestChain =>
    by_cases hmem : b.blockId ∈ m.ids
    · simp only [apply, find, findStep, if_pos hmem]
      split_ifs with hid
      · rw [Option.or_of_isSome]
        exact hid ▸ mem_ids_iff.mp hmem
      · rfl
    · simp only [apply, find, findStep, if_neg hmem, List.find?_append]
      by_cases hid : b.blockId = id
      · simp [hid]
      · simp [hid]
  | unset blockId currentHeight =>
    simp only [apply, find, findStep, without, List.find?_filter]
    by_cases hid : blockId = id
    · subst hid
      simp
    rw [if_neg hid]
    congr 1
    funext b
    by_cases hb : b.blockId = id
    · simp [hb, Ne.symm hid]
    · simp [hb]
  | mark onLongestChain currentHeight => rfl

theorem mem_ids_set (m : MinedState) (b : BlockEntry) (onLongestChain : Bool) :
    b.blockId ∈ (m.apply (.set b onLongestChain)).ids := by
  rw [mem_ids_iff, find_apply]
  simp [findStep]

theorem find_applyAll : (m.applyAll es).find id = es.foldl (findStep id) (m.find id) := by
  induction es generalizing m with
  | nil => rfl
  | cons e es ih => rw [applyAll_cons, ih, find_apply, List.foldl_cons]

/-- Events fill in a missing block, or leave the same block whatever there was. -/
theorem foldl_findStep (id : Nat) (es : List MinedEvent) :
    ∃ c, (∀ o, es.foldl (findStep id) o = o.or c) ∨ (∀ o, es.foldl (findStep id) o = c) := by
  induction es using List.reverseRecOn with
  | nil => exact ⟨none, .inl fun o => by simp⟩
  | append_singleton es e ih =>
    obtain ⟨c, hc⟩ := ih
    simp only [List.foldl_append, List.foldl_cons, List.foldl_nil]
    cases e with
    | set b onLongestChain =>
      by_cases hid : b.blockId = id
      · refine ⟨c.or (some b), hc.imp ?_ ?_⟩ <;> intro h o <;>
          simp [findStep, hid, h]
      · simp only [findStep, if_neg hid]
        exact ⟨c, hc⟩
    | unset blockId currentHeight =>
      by_cases hid : blockId = id
      · exact ⟨none, .inr fun o => if_pos hid⟩
      · simp only [findStep, if_neg hid]
        exact ⟨c, hc⟩
    | mark onLongestChain currentHeight => exact ⟨c, hc⟩

def SameBlocks (m m' : MinedState) : Prop := ∀ id, m.find id = m'.find id

section

variable (h : m.SameBlocks m')
include h

theorem SameBlocks.symm : m'.SameBlocks m := fun id => (h id).symm

theorem SameBlocks.trans {m'' : MinedState} (h' : m'.SameBlocks m'') :
    m.SameBlocks m'' := fun id => (h id).trans (h' id)

theorem SameBlocks.apply (e : MinedEvent) : (m.apply e).SameBlocks (m'.apply e) := by
  intro id
  rw [find_apply, find_apply, h id]

theorem SameBlocks.applyAll (es : List MinedEvent) :
    (m.applyAll es).SameBlocks (m'.applyAll es) := by
  intro id
  rw [find_applyAll, find_applyAll, h id]

end

/-- Applied again to the state they left, events find the same blocks. -/
theorem sameBlocks_again (m : MinedState) (es : List MinedEvent) :
    ((m.applyAll es).applyAll es).SameBlocks (m.applyAll es) := by
  intro id
  rw [find_applyAll, find_applyAll]
  obtain ⟨c, hc | hc⟩ := foldl_findStep id es
  · rw [hc, hc, Option.or_assoc, Option.or_self]
  · rw [hc, hc]

theorem without_eq_nil_iff : m.without id = [] ↔ ∀ i ≠ id, m.find i = none := by
  simp only [without, find, List.filter_eq_nil_iff, List.find?_eq_none]
  constructor
  · intro h i hi b hb
    have := h b hb
    simp only [ne_eq, decide_not, Bool.not_eq_true', decide_eq_false_iff_not, not_not] at this
    simp only [this, decide_eq_true_eq]
    exact hi.symm
  · intro h b hb hne
    simp only [ne_eq, decide_not, Bool.not_eq_true', decide_eq_false_iff_not] at hne
    exact h b.blockId hne b hb (decide_eq_true rfl)

/-! ### The height -/

theorem SameBlocks.assigns_iff (h : m.SameBlocks m') : m.Assigns e ↔ m'.Assigns e := by
  cases e with
  | set | mark => exact Iff.rfl
  | unset blockId currentHeight =>
    simp only [Assigns, mem_ids_iff, without_eq_nil_iff, h blockId]
    exact and_congr_right fun _ => forall₂_congr fun i _ => by rw [h i]

theorem unminedSince_of_not_assigns (h : ¬ m.Assigns e) :
    (m.apply e).unminedSince = m.unminedSince := by
  cases e with
  | set b onLongestChain => exact if_neg h
  | unset blockId currentHeight => exact if_neg h
  | mark onLongestChain currentHeight => exact absurd trivial h

theorem SameBlocks.unminedSince_of_assigns (h : m.SameBlocks m') (he : m.Assigns e) :
    (m.apply e).unminedSince = (m'.apply e).unminedSince := by
  have he' := h.assigns_iff.mp he
  cases e with
  | set | unset => exact (if_pos he).trans (if_pos he').symm
  | mark onLongestChain currentHeight => rfl

/-- With the same blocks, the heights agree in the end when one of the events sets it, or when they
agreed before. -/
theorem SameBlocks.unminedSince_applyAll (h : m.SameBlocks m') :
    (m.applyAll es).unminedSince = (m'.applyAll es).unminedSince ↔
      m.AssignsIn es ∨ m.unminedSince = m'.unminedSince := by
  induction es generalizing m m' with
  | nil => simp [AssignsIn]
  | cons e es ih =>
    rw [applyAll_cons, applyAll_cons, ih (h.apply e), AssignsIn]
    by_cases he : m.Assigns e
    · simp [he, h.unminedSince_of_assigns he]
    have he' := mt h.assigns_iff.mpr he
    rw [unminedSince_of_not_assigns he, unminedSince_of_not_assigns he']
    simp [he]

theorem SameBlocks.assignsIn_iff (h : m.SameBlocks m') : m.AssignsIn es ↔ m'.AssignsIn es := by
  induction es generalizing m m' with
  | nil => exact Iff.rfl
  | cons e es ih => exact or_congr h.assigns_iff (ih (h.apply e))

/-- Events that a state already has are applied to it again, and then further ones: the blocks come
out right, and the height does when a further event sets it or applying the first ones again does
not change it. -/
theorem applyAll_again (m : MinedState) (es es' : List MinedEvent) :
    ((m.applyAll es).applyAll (es ++ es')).SameBlocks ((m.applyAll es).applyAll es') ∧
      (((m.applyAll es).applyAll (es ++ es')).unminedSince =
          ((m.applyAll es).applyAll es').unminedSince ↔
        (m.applyAll es).AssignsIn es' ∨
          ((m.applyAll es).applyAll es).unminedSince = (m.applyAll es).unminedSince) := by
  have hsame := sameBlocks_again m es
  rw [applyAll_append]
  refine ⟨hsame.applyAll es', ?_⟩
  rw [eq_comm, hsame.symm.unminedSince_applyAll, eq_comm]

/-! ### Each block once -/

theorem nodup_apply (h : m.ids.Nodup) : (m.apply e).ids.Nodup := by
  cases e with
  | set b onLongestChain =>
    by_cases hmem : b.blockId ∈ m.ids
    · simp only [apply, if_pos hmem]
      exact h
    simp only [apply, if_neg hmem]
    rw [ids, List.map_append]
    exact List.Nodup.append h (List.nodup_singleton _) (List.disjoint_singleton.mpr hmem)
  | unset blockId currentHeight => exact h.sublist (List.filter_sublist.map _)
  | mark onLongestChain currentHeight => exact h

theorem nodup_applyAll (h : m.ids.Nodup) : (m.applyAll es).ids.Nodup := by
  induction es generalizing m with
  | nil => exact h
  | cons e es ih => exact ih (nodup_apply h)

theorem mem_blocks_iff (h : m.ids.Nodup) {b : BlockEntry} :
    b ∈ m.blocks ↔ m.find b.blockId = some b := by
  unfold find
  unfold ids at h
  generalize m.blocks = blocks at h
  induction blocks with
  | nil => simp
  | cons c bs ih =>
    obtain ⟨hc, hbs⟩ := List.nodup_cons.mp h
    by_cases hid : c.blockId = b.blockId
    · have hnot : b ∉ bs := fun hb => hc (List.mem_map.mpr ⟨b, hb, hid.symm⟩)
      simp [hid, hnot, eq_comm]
    · have hne : b ≠ c := fun heq => hid (heq ▸ rfl)
      simp [hid, hne, ih hbs]

theorem SameBlocks.mem_iff (h : m.SameBlocks m') (hm : m.ids.Nodup) (hm' : m'.ids.Nodup)
    (b : BlockEntry) : b ∈ m.blocks ↔ b ∈ m'.blocks := by
  rw [mem_blocks_iff hm, mem_blocks_iff hm', h b.blockId]

theorem sameBlocks_of_perm (h : m.blocks.Perm m'.blocks) (hm : m.ids.Nodup) :
    m.SameBlocks m' := by
  have hm' : m'.ids.Nodup := (h.map _).nodup_iff.mp hm
  have hsub : ∀ {a c : MinedState}, (∀ b, b ∈ a.blocks → b ∈ c.blocks) → c.ids.Nodup →
      ∀ id b, a.find id = some b → c.find id = some b := by
    intro a c hac hc id b hfind
    have hid : b.blockId = id := by simpa using List.find?_some hfind
    rw [← hid]
    exact (mem_blocks_iff hc).mp (hac b (List.mem_of_find?_eq_some hfind))
  intro id
  ext b
  exact ⟨hsub (fun _ => h.mem_iff.mp) hm' id b, hsub (fun _ => h.mem_iff.mpr) hm id b⟩

end MinedState

end TeraSlab.Index
