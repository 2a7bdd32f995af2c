import TeraSlab.Ops.SlotHistory

/-!
# The cooldown of a reassigned output

A reassigned output may not be spent below a height, which its slot keeps through every freeze and
unfreeze. The height is given up when an unspend clears the slot, and when an unfreeze finds the
height that stands for no cooldown in a frozen slot.
-/

namespace TeraSlab.Ops

open Foundations Index

variable {cfg : TxKey → StoreConfig} {s : Engine} {call : Call} {key : TxKey} {offset height : Nat}

/-- The call takes the height out of the slot: another reassignment of it, an unspend that clears
it, or an unfreeze that takes the height for the marker of a frozen slot. -/
def dropsCooldown (s : Engine) (key : TxKey) (offset : Nat) (call : Call) : Bool :=
  call.key = key && match call.op with
    | .reassign req => req.offset = offset
    | .unspend req => req.offset = offset && (s.cell key).clears req
    | .unfreeze offset' _ =>
      offset' = offset && (s.slot key offset).any (·.reassignmentCooldown = 2 ^ 32 - 1)
    | _ => false

def Cooling (s : Engine) (key : TxKey) (offset height : Nat) : Prop :=
  ∃ u, s.slot key offset = some u ∧
    (u.status = .unspent ∨ u.status = .frozen → u.reassignmentCooldown = height)

theorem frozenForm_cooldown {u : UtxoSlot} (h : u.reassignmentCooldown ≠ 0) :
    (frozenForm u).reassignmentCooldown = u.reassignmentCooldown := by
  rw [frozenForm, if_neg h]
  exact UtxoSlot.reassignmentCooldown_withHeight _ _ _ u.reassignmentCooldown_lt

theorem thawedForm_cooldown {u : UtxoSlot} (h : u.reassignmentCooldown ≠ 0)
    (hmax : u.reassignmentCooldown ≠ 2 ^ 32 - 1) :
    (thawedForm u).reassignmentCooldown = u.reassignmentCooldown := by
  rw [thawedForm, if_neg (not_or.mpr ⟨h, hmax⟩)]
  exact UtxoSlot.reassignmentCooldown_withHeight _ _ _ u.reassignmentCooldown_lt

section

variable (h : Cooling s key offset height) (hlink : Linked s) (hpos : height ≠ 0)
include h hlink hpos

theorem Cooling.step (hkeep : dropsCooldown s key offset call = false) :
    Cooling (s.step cfg call) key offset height := by
  obtain ⟨u, hu, hcool⟩ := h
  obtain ⟨u', hu', rfl | ⟨rfl, hchange⟩⟩ := hlink.slot_step cfg call hu
  · exact ⟨u', hu', hcool⟩
  refine ⟨u', hu', ?_⟩
  cases hchange with
  | same => exact hcool
  | spend _ => simp
  | unspend hop hoffset _ hclears _ => simp [dropsCooldown, hop, hoffset, hclears] at hkeep
  | prune _ => simp
  | freeze hstatus =>
    have hu : u.reassignmentCooldown = height := hcool (.inl hstatus)
    exact fun _ => (frozenForm_cooldown (hu ▸ hpos)).trans hu
  | unfreeze hop hstatus =>
    have hcool' : u.reassignmentCooldown = height := hcool (.inr hstatus)
    have hmax : u.reassignmentCooldown ≠ 2 ^ 32 - 1 := by
      simpa [dropsCooldown, hop, hu] using hkeep
    exact fun _ => (thawedForm_cooldown (hcool' ▸ hpos) hmax).trans hcool'
  | reassign hop hoffset _ _ => simp [dropsCooldown, hop, hoffset] at hkeep

theorem Cooling.run {calls : List Call}
    (hg : Guarded (Engine.step cfg) (fun s call => dropsCooldown s key offset call = false)
      s calls) :
    Cooling (run (Engine.step cfg) s calls) key offset height := by
  refine (Guarded.invariant (I := fun s => Linked s ∧ Cooling s key offset height) ?_
    ⟨hlink, h⟩ hg).2
  exact fun s call ⟨hlink, h⟩ hkeep => ⟨hlink.step cfg call, h.step hlink hpos hkeep⟩

end

theorem cooling_of_reassign {req : ReassignRequest} (h : s.Succeeds cfg ⟨key, .reassign req⟩) :
    Cooling (s.step cfg ⟨key, .reassign req⟩) key req.offset
      (req.blockHeight + req.spendableAfter) := by
  have hok : ((s.cell key).reassign key req).2.isOk := h
  have hrec' := records_step cfg s ⟨key, .reassign req⟩
  have hnext : (s.cell key).next (cfg key) key (.reassign req) =
    ((s.cell key).reassign key req).1 := rfl
  rw [hnext] at hrec'
  unfold Cell.reassign at hok hrec'
  split at hok
  · cases hok
  rename_i r height hv
  obtain ⟨-, -, rfl, hlt, u, hu, -⟩ := validateReassign_ok hv
  obtain ⟨hlen, -⟩ := List.getElem?_eq_some_iff.mp hu
  rw [hv] at hrec'
  refine ⟨.newUnspentWithCooldown req.newUtxoHash (req.blockHeight + req.spendableAfter),
    Engine.slot_eq_some.mpr ⟨_, hrec', ?_⟩, fun _ => ?_⟩
  · simp [Cell.withReassigned, hlen]
  · exact UtxoSlot.reassignmentCooldown_withHeight _ _ _ hlt

/-- After a reassignment, and as long as no call takes the height out of the slot, no spend below
the height is accepted as a new one. -/
theorem cooldown_respected (cfg : TxKey → StoreConfig) (before after : List Call) (key : TxKey)
    (req : ReassignRequest)
    (hok : (reached cfg before).Succeeds cfg ⟨key, .reassign req⟩)
    (hkeep : Guarded (Engine.step cfg)
      (fun s call => dropsCooldown s key req.offset call = false)
      (reached cfg (before ++ [⟨key, .reassign req⟩])) after)
    (front back : List Call) (call : Call) (hafter : after = front ++ call :: back)
    (d : SpendingData) (height : Nat)
    (hacc : (reached cfg (before ++ ⟨key, .reassign req⟩ :: front)).Accepts cfg call
      key req.offset d
      height .fresh) :
    req.blockHeight + req.spendableAfter ≤ height := by
  by_cases hpos : req.blockHeight + req.spendableAfter = 0
  · omega
  subst hafter
  rw [reached, run_append] at hkeep hacc
  have hcool := (cooling_of_reassign hok).run ((linked_run cfg before).step cfg _) hpos
    (guarded_append.mp hkeep).1
  obtain ⟨u, hu, hcooldown⟩ := hcool
  obtain ⟨u', hu', hcases⟩ := hacc.before
  cases hu.symm.trans hu'
  rcases hcases with ⟨hunspent, hle⟩ | ⟨hkind, -⟩
  · rw [← hcooldown (.inl hunspent)]
    exact hle rfl
  · cases hkind

/-- Reassign the output of the record, to be spent from height 110 on. -/
def demoReassign : ReassignRequest :=
  { offset := 0
    utxoHash := demoHash
    newUtxoHash := demoHash
    blockHeight := 10
    spendableAfter := 100 }

/-- The height survives a freeze and an unfreeze, and the output is spent at it. -/
theorem cooldown_respected_demo :
    demoReassign.blockHeight + demoReassign.spendableAfter ≤ 110 := by
  refine cooldown_respected demoConfig (demoCalls [demoCreate, .freeze 0 demoHash])
    (demoCalls [.freeze 0 demoHash, .unfreeze 0 demoHash, demoSpend 1 110]) demoKey demoReassign
    (by decide) (by decide) (demoCalls [.freeze 0 demoHash, .unfreeze 0 demoHash]) []
    ⟨demoKey, demoSpend 1 110⟩ rfl (.replicate 36 1) 110 ?_
  exact Engine.accepts_fresh (by decide) (by decide)

/-- An unspend gives the height up: after a spend at height 110 and its unspend, a spend at height
50 is accepted as a new one. -/
theorem unspend_gives_up_cooldown :
    let before := demoCalls [demoCreate, .freeze 0 demoHash]
    let between := demoCalls [demoSpend 1 110, demoUnspend 1 110]
    (reached demoConfig before).Succeeds demoConfig ⟨demoKey, .reassign demoReassign⟩ ∧
      (reached demoConfig (before ++ ⟨demoKey, .reassign demoReassign⟩ :: between)).Accepts
        demoConfig ⟨demoKey, demoSpend 2 50⟩ demoKey demoReassign.offset (.replicate 36 2) 50
        .fresh ∧
      50 < demoReassign.blockHeight + demoReassign.spendableAfter := by
  refine ⟨by decide, ?_, by decide⟩
  exact Engine.accepts_fresh (by decide) (by decide)

end TeraSlab.Ops
