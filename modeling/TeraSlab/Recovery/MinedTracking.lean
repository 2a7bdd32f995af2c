import TeraSlab.Recovery.MinedTable

/-!
# The live mined index tracks the history

The state of each transaction is a function of the operations on it. A table tracks a map from
transactions to states when every transaction of the map has exactly one live slot, which shows its
state, and the others have none. The live index tracks the states its history gives, also where an
operation of the history names a transaction that is not there.
-/

namespace TeraSlab.Recovery

open Foundations TeraSlab.Index

/-! ### The state of one transaction -/

def createdState (blockHeight : Nat) : Option BlockEntry → MinedState
  | none => ⟨[], blockHeight⟩
  | some b => ⟨[b], 0⟩

namespace MinedOp

/-- What the operation does to the state of an existing transaction. -/
def events (key : TxKey) : MinedOp → List MinedEvent
  | .setMined txids b onLongestChain =>
    List.replicate (txids.count key) (.set b onLongestChain)
  | .unsetMined txids blockId currentHeight =>
    List.replicate (txids.count key) (.unset blockId currentHeight)
  | .markOnLongestChain k onLongestChain currentHeight =>
    if k = key then [.mark onLongestChain currentHeight] else []
  | .create .. | .delete _ => []

def Creates (key : TxKey) : MinedOp → Prop
  | .create k .. => k = key
  | _ => False

instance (key : TxKey) : DecidablePred (Creates key)
  | .create k .. => inferInstanceAs (Decidable (k = key))
  | .setMined .. | .unsetMined .. | .markOnLongestChain .. | .delete _ => isFalse id

def Deletes (key : TxKey) : MinedOp → Prop
  | .delete k => k = key
  | _ => False

instance (key : TxKey) : DecidablePred (Deletes key)
  | .delete k => inferInstanceAs (Decidable (k = key))
  | .setMined .. | .unsetMined .. | .markOnLongestChain .. | .create .. => isFalse id

def step (key : TxKey) (x : Option MinedState) : MinedOp → Option MinedState
  | .create k blockHeight mined _ => if k = key then some (createdState blockHeight mined) else x
  | .delete k => if k = key then none else x
  | op => x.map (·.applyAll (op.events key))

variable {key : TxKey} {op : MinedOp} {x : Option MinedState}

theorem step_of_not (hc : ¬ op.Creates key) (hd : ¬ op.Deletes key) :
    op.step key x = x.map (·.applyAll (op.events key)) := by
  cases op with
  | create k => simp [step, events, if_neg (show ¬ k = key from hc)]
  | delete k => simp [step, events, if_neg (show ¬ k = key from hd)]
  | setMined | unsetMined | markOnLongestChain => rfl

end MinedOp

/-! ### Tracking -/

variable {route : TxKey → Nat} {t : MinedTable} {states states' : TxKey → Option MinedState}
  {key : TxKey} {slot : Nat} {m m' : MinedState}

structure Tracks (route : TxKey → Nat) (t : MinedTable) (states : TxKey → Option MinedState) :
    Prop where
  inv : ∀ i, (t.arena i).Inv
  keeps : ∀ key, Keeps (t.arena (route key)) key (t.slots key) (states key)
  routed : ∀ key i slot, Occupies (t.arena i) key slot → i = route key

namespace Tracks

variable {x : Option MinedState} {p : Option Nat} {o' : OwnedShard}

theorem empty : Tracks route .empty fun _ => none where
  inv _ := OwnedShard.inv_empty
  keeps _ i hocc := by
    obtain ⟨⟨e, he⟩, -⟩ := hocc
    simp [MinedTable.empty, OwnedShard.empty, MinedShard.empty, MinedShard.get] at he
  routed _ _ _ hocc := by
    obtain ⟨⟨e, he⟩, -⟩ := hocc
    simp [MinedTable.empty, OwnedShard.empty, MinedShard.empty, MinedShard.get] at he

section

variable (h : Tracks route t states)
include h

theorem congr (heq : ∀ key, states key = states' key) :
    Tracks route t states' := by
  obtain rfl : states = states' := funext heq
  exact h

theorem slots_eq_none_iff : t.slots key = none ↔ states key = none := by
  have hkeeps := h.keeps key
  cases hslot : t.slots key <;> cases hx : states key <;> simp_all [Keeps]

theorem slots_isSome : (t.slots key).isSome = (states key).isSome := by
  rw [Bool.eq_iff_iff, Option.isSome_iff_ne_none, Option.isSome_iff_ne_none, ne_eq,
    h.slots_eq_none_iff]

theorem exists_slot (hm : states key = some m) :
    ∃ slot, t.slots key = some slot ∧ Keeps (t.arena (route key)) key (some slot) (some m) := by
  have hkeeps := h.keeps key
  cases hslot : t.slots key with
  | none =>
    rw [hslot, hm] at hkeeps
    exact hkeeps.elim
  | some slot => exact ⟨slot, rfl, hm ▸ hslot ▸ hkeeps⟩

theorem serve (hs : Serves (t.arena (route key)) o' key)
    (hk : Keeps o' key p x) :
    Tracks route ⟨Function.update t.arena (route key) o', Function.update t.slots key p⟩
      (Function.update states key x) where
  inv i := by
    by_cases hi : i = route key
    · subst hi
      simpa using hs.inv
    · simpa [Function.update_of_ne hi] using h.inv i
  keeps other := by
    by_cases hother : other = key
    · subst hother
      simpa using hk
    have hkeeps := h.keeps other
    dsimp only
    rw [Function.update_of_ne hother, Function.update_of_ne hother]
    by_cases hi : route other = route key
    · simp only [hi, Function.update_self] at hkeeps ⊢
      exact hkeeps.of_serves hs hother
    · rw [Function.update_of_ne hi]
      exact hkeeps
  routed other i slot hocc := by
    dsimp only at hocc
    by_cases hi : i = route key
    · subst hi
      rw [Function.update_self] at hocc
      by_cases hother : other = key
      · rw [hother]
      · exact h.routed other _ slot (hs.occupies slot other hother hocc)
    · rw [Function.update_of_ne hi] at hocc
      exact h.routed other i slot hocc

end

section

variable (h : Tracks route t states)
include h

theorem call {c : ShardCall} (hk : Keeps (t.arena (route key)) key (some slot) (some m))
    (hslot : t.slots key = some slot)
    (hm : Moves (t.arena (route key)) ((t.arena (route key)).step c) slot key m') :
    Tracks route (t.call route key c) (Function.update states key (some m')) := by
  have hserve := h.serve (Serves.of_moves hm) (hk.of_moves hm)
  rwa [← hslot, Function.update_eq_self] at hserve

theorem read (hm : states key = some m) : ∃ r, t.read route key = some r ∧ r.blocks.Perm m.blocks ∧
      r.unminedSince = m.unminedSince := by
  obtain ⟨slot, hslot, hshows, -⟩ := h.exists_slot hm
  obtain ⟨e, he, hfp, hperm, hu⟩ := hshows.entry
  refine ⟨⟨(t.arena (route key)).shard.blocksOf slot e, e.unminedSince⟩, ?_, hperm, hu⟩
  simp [MinedTable.read, hslot, MinedShard.readBlockEntries,
    MinedShard.entryFor_eq_some.mpr ⟨he, hfp⟩]

/-- What the table reads names each block once, and none is block 0. -/
theorem read_sound {r : MinedState} (hr : t.read route key = some r) :
    r.ids.Nodup ∧ ∀ b ∈ r.blocks, b.blockId ≠ 0 := by
  cases hx : states key with
  | none => simp [MinedTable.read, h.slots_eq_none_iff.mpr hx] at hr
  | some m =>
    obtain ⟨slot, hslot, hshows, -⟩ := h.exists_slot hx
    obtain ⟨e, he, hfp, hperm, -⟩ := hshows.entry
    simp only [MinedTable.read, hslot, Option.bind_some, MinedShard.readBlockEntries,
      MinedShard.entryFor_eq_some.mpr ⟨he, hfp⟩, Option.map_some, Option.some.injEq] at hr
    subst hr
    exact ⟨(hperm.map _).nodup_iff.mpr hshows.nodup, (h.inv _).nonzero slot e he⟩

theorem nodup (hm : states key = some m) : m.ids.Nodup := by
  obtain ⟨slot, -, hshows, -⟩ := h.exists_slot hm
  exact hshows.nodup

end

theorem foldl {f : MinedTable → TxKey → MinedTable} {e : MinedEvent}
    (good : MinedTable → TxKey → Option MinedState → Prop)
    (hgood : ∀ t key x, good t key x → good t key (x.map (·.apply e)))
    (hf : ∀ t states key, Tracks route t states → good t key (states key) →
      Tracks route (f t key) (Function.update states key ((states key).map (·.apply e))) ∧
        ∀ other x, good t other x → good (f t key) other x)
    {txids : List TxKey} (h : Tracks route t states)
    (hall : ∀ key ∈ txids, good t key (states key)) :
    Tracks route (txids.foldl f t) fun key =>
      (states key).map (·.applyAll (List.replicate (txids.count key) e)) := by
  induction txids generalizing t states with
  | nil => exact h.congr fun key => by simp
  | cons k txids ih =>
    obtain ⟨hstep, hkept⟩ := hf t states k h (hall k List.mem_cons_self)
    refine (ih hstep fun key hkey => hkept key _ ?_).congr fun key => ?_
    · by_cases hk : key = k
      · subst hk
        rw [Function.update_self]
        exact hgood t key _ (hall key List.mem_cons_self)
      · rw [Function.update_of_ne hk]
        exact hall key (List.mem_cons_of_mem k hkey)
    · by_cases hk : key = k
      · subst hk
        rw [Function.update_self, List.count_cons_self, List.replicate_succ, Option.map_map]
        rfl
      · rw [Function.update_of_ne hk, List.count_cons_of_ne (Ne.symm hk)]

end Tracks

/-! ### The live index -/

namespace MinedOp

/-- The operation does not name block 0. -/
def Sound : MinedOp → Prop
  | .create _ _ mined _ => ∀ b ∈ mined, b.blockId ≠ 0
  | .setMined _ b _ => b.blockId ≠ 0
  | .unsetMined _ blockId _ => blockId ≠ 0
  | .markOnLongestChain .. | .delete _ => True

instance : DecidablePred Sound
  | .create .. => inferInstanceAs (Decidable (∀ _ ∈ _, _))
  | .setMined .. | .unsetMined .. => inferInstanceAs (Decidable (_ ≠ 0))
  | .markOnLongestChain .. | .delete _ => isTrue trivial

end MinedOp

namespace MinedTable

variable (route t)

/-- The engine journals the operation: a create finds the transaction absent, and a set finds room
for the block in those of its transactions that are there. -/
def Admits : MinedOp → Prop
  | .create key .. => t.slots key = none
  | .setMined txids b _ => ∀ key ∈ txids, (t.read route key).all fun m =>
      b.blockId ∈ m.ids ∨ m.blocks.length < maxBlockEntries
  | .unsetMined .. | .markOnLongestChain .. | .delete _ => True

instance : DecidablePred (Admits route t)
  | .create .. => inferInstanceAs (Decidable (_ = none))
  | .setMined .. => inferInstanceAs (Decidable (∀ _ ∈ _, _))
  | .unsetMined .. | .markOnLongestChain .. | .delete _ => isTrue trivial

end MinedTable

namespace Tracks

section

variable (h : Tracks route t states)
include h

theorem alloc (hx : states key = none) (unminedSince : Nat) :
    Tracks route (t.allocFor route key unminedSince)
      (Function.update states key (some ⟨[], unminedSince⟩)) := by
  have hinv := h.inv (route key)
  have hkeeps := h.keeps key
  rw [h.slots_eq_none_iff.mpr hx, hx] at hkeeps
  obtain ⟨slot, rfl, -, hshows, -⟩ := allocCreated_cases key unminedSince hinv
  refine h.serve (serves_allocCreated key unminedSince hinv) ⟨hshows, fun i hocc => ?_⟩
  exact (occupies_allocCreated key unminedSince hinv hocc).resolve_right (hkeeps i)

theorem delete :
    Tracks route (t.delete route key) (Function.update states key none) := by
  cases hx : states key with
  | none =>
    rw [MinedTable.delete, h.slots_eq_none_iff.mpr hx, ← hx, Function.update_eq_self]
    exact h
  | some m =>
    obtain ⟨slot, hslot, hshows, honly⟩ := h.exists_slot hx
    have hinv := h.inv (route key)
    rw [MinedTable.delete, hslot]
    refine h.serve (serves_free hinv hshows.owner) fun i hocc => ?_
    obtain ⟨hi, hocc⟩ := occupies_free hinv hocc
    exact hi (honly i hocc)

/-- The set that a create mined at creation makes, on the slot that was just allocated. -/
theorem create (hx : states key = none) (blockHeight : Nat)
    (mined : Option BlockEntry) (hmined : ∀ b ∈ mined, b.blockId ≠ 0) :
    Tracks route (t.create route key blockHeight mined)
      (Function.update states key (some (createdState blockHeight mined))) := by
  have halloc := h.alloc hx (createdUnmined blockHeight mined)
  cases mined with
  | none => exact halloc
  | some b =>
    obtain ⟨slot, hslot, hk⟩ := halloc.exists_slot (Function.update_self ..)
    have hmoves := Moves.applySetMined (halloc.inv (route key)) hk.1 b true (hmined b rfl)
    have hcall := halloc.call hk hslot hmoves
    rw [Function.update_idem] at hcall
    obtain rfl : t.nextSlot route key 0 = slot := by
      simpa [MinedTable.allocFor, MinedTable.setSlot, createdUnmined] using hslot
    exact hcall

variable {b : BlockEntry}

/-- A call to the slot of the transaction, which a missing transaction does not have. -/
theorem callLive {c : Nat → ShardCall} {e : MinedEvent}
    (hmoves : ∀ (o : OwnedShard) slot m, states key = some m → o.Inv → Shows o slot key m →
      Moves o (o.step (c slot)) slot key (m.apply e)) :
    Tracks route (match t.slots key with
        | none => t
        | some slot => t.call route key (c slot))
      (Function.update states key ((states key).map (·.apply e))) := by
  cases hm : states key with
  | none =>
    rw [h.slots_eq_none_iff.mpr hm, Option.map_none, ← hm, Function.update_eq_self]
    exact h
  | some m =>
    obtain ⟨slot, hslot, hk⟩ := h.exists_slot hm
    rw [hslot]
    exact h.call hk hslot (hmoves _ slot m hm (h.inv _) hk.1)

end

def HasRoom (b : BlockEntry) (x : Option MinedState) : Prop :=
  ∀ m, x = some m → b.blockId ∈ m.ids ∨ m.blocks.length < maxBlockEntries

/-- A set keeps the room for its own block. -/
theorem HasRoom.apply {onLongestChain : Bool} {x : Option MinedState} :
    HasRoom b (x.map (·.apply (.set b onLongestChain))) := by
  intro m' hm'
  obtain ⟨m, -, rfl⟩ := Option.map_eq_some_iff.mp hm'
  exact .inl (m.mem_ids_set b onLongestChain)

theorem hasRoom (h : Tracks route t states)
    (hall : (t.read route key).all fun m => b.blockId ∈ m.ids ∨ m.blocks.length < maxBlockEntries) :
    HasRoom b (states key) := by
  intro m hm
  obtain ⟨r, hr, hperm, -⟩ := h.read hm
  simp only [hr, Option.all_some, Bool.decide_or, Bool.or_eq_true, decide_eq_true_eq] at hall
  exact hall.imp (hperm.map _).mem_iff.mp fun hlt => hperm.length_eq ▸ hlt

theorem perform (h : Tracks route t states) {op : MinedOp} (hop : op.Sound)
    (hadmits : t.Admits route op) :
    Tracks route (t.perform route op) fun key => op.step key (states key) := by
  cases op with
  | create key blockHeight mined =>
    have hslot : t.slots key = none := hadmits
    rw [MinedTable.perform, hslot]
    refine (h.create (h.slots_eq_none_iff.mp hslot) blockHeight mined hop).congr fun k => ?_
    simp only [MinedOp.step, Function.update_apply, eq_comm]
  | setMined txids b onLongestChain =>
    refine h.foldl (fun _ _ => HasRoom b) (fun _ _ _ _ => HasRoom.apply) ?_ fun key hkey =>
      h.hasRoom (hadmits key hkey)
    intro t states key ht hroom
    exact ⟨ht.callLive fun o slot m hm hinv hshows =>
      Moves.transition_set hinv hshows b onLongestChain hop (hroom m hm), fun _ _ => id⟩
  | unsetMined txids blockId currentHeight =>
    refine h.foldl (fun _ _ _ => True) (fun _ _ _ => id) ?_ fun _ _ => trivial
    intro t states key ht _
    exact ⟨ht.callLive fun o slot m _ hinv hshows =>
      Moves.transition_unset hinv hshows blockId currentHeight hop, fun _ _ => id⟩
  | markOnLongestChain key onLongestChain currentHeight =>
    have hcall := h.callLive (e := .mark onLongestChain currentHeight)
      (c := (.setLongestChain key · onLongestChain currentHeight)) fun o slot m _ hinv hshows =>
        Moves.setLongestChain hinv hshows onLongestChain currentHeight
    refine hcall.congr fun k => ?_
    by_cases hk : k = key
    · subst hk
      simp [MinedOp.step, MinedOp.events, MinedState.applyAll]
    · simp [MinedOp.step, MinedOp.events, Function.update_of_ne hk, Ne.symm hk]
  | delete key =>
    refine h.delete.congr fun k => ?_
    simp only [MinedOp.step, Function.update_apply, eq_comm]

end Tracks

end TeraSlab.Recovery
