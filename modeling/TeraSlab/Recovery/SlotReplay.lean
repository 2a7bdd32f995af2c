import TeraSlab.Ops.Slots

/-!
# Replay of one slot

The operations on a slot and their redo entries, seen from that slot alone. Replaying the entries
from the slot they started from follows the live run step by step, but for two slips: freezing and
unfreezing forget a cooldown, until the slot is spent or reassigned, and an unspend that names the
reserved spending data clears a slot which the live engine leaves alone.

A crash leaves the slot as it was after some of the operations, and the replay starts over from the
first. Its slot may then stay ahead of the live one, or be cleared or pruned on the way, but the
spend that it lost is still to come.
-/

namespace TeraSlab.Recovery

open Foundations Ops

/-- An operation on a slot, with what its redo entry says about it. -/
inductive SlotOp where
  | spend (hash : Hash) (d : SpendingData)
  | unspend (hash : Hash) (d : SpendingData)
  | freeze (hash : Hash)
  | unfreeze (hash : Hash)
  | reassign (prior new : Hash) (height : Nat)
  | prune (child : Hash)
deriving DecidableEq

namespace SlotOp

def Accepted (s : UtxoSlot) : SlotOp → Prop
  | .spend hash d =>
    s.hash = hash ∧ d ≠ frozenMarker ∧
      (s.status = .unspent ∨ s.status = .spent ∧ s.spendingData = d)
  | .unspend hash _ =>
    s.hash = hash ∧ (s.status = .unspent ∨ s.status = .spent ∨ s.status = .frozen)
  | .freeze hash => s.hash = hash ∧ s.status = .unspent
  | .unfreeze hash => s.hash = hash ∧ s.status = .frozen
  | .reassign prior _ _ => s.hash = prior ∧ s.status = .frozen
  | .prune _ => True

def live (s : UtxoSlot) : SlotOp → UtxoSlot
  | .spend hash d => .newSpent hash d
  | .unspend hash d => if Cell.ownsSpend s d then .newUnspent hash else s
  | .freeze _ => frozenForm s
  | .unfreeze _ => thawedForm s
  | .reassign _ new height => .newUnspentWithCooldown new height
  | .prune child =>
    if s.status = .spent ∧ childTxid s.spendingData = child then { s with status := .pruned }
    else s

def replay (s : UtxoSlot) : SlotOp → UtxoSlot
  | .spend hash d =>
    if s.status = .spent ∧ s.spendingData = d then s
    else if s.hash ≠ hash then s
    else .newSpent s.hash d
  | .unspend hash d =>
    if s.status ≠ .spent then s
    else if s.hash ≠ hash then s
    else if s.spendingData ≠ d then s
    else .newUnspent s.hash
  | .freeze hash => if s.hash = hash ∧ s.status = .unspent then .newFrozen s.hash else s
  | .unfreeze hash => if s.hash = hash ∧ s.status = .frozen then .newUnspent s.hash else s
  | .reassign prior new height =>
    if s.hash = new ∧ s.status = .unspent then s
    else if s.status ≠ .frozen ∨ s.hash ≠ prior then s
    else .newUnspentWithCooldown new height
  | .prune child =>
    if s.status = .spent ∧ childTxid s.spendingData = child then { s with status := .pruned }
    else s

def hasCooldown (s : UtxoSlot) : Bool :=
  s.reassignmentCooldown ≠ 0 && s.reassignmentCooldown ≠ 2 ^ 32 - 1

/-- The operation carries a cooldown over that its entry does not know. -/
def carriesCooldown (s : UtxoSlot) : SlotOp → Bool
  | .freeze _ => hasCooldown s
  | .unfreeze _ => hasCooldown s
  | _ => false

/-- The operation writes spending data that does not depend on the slot. -/
def renews : SlotOp → Bool
  | .spend .. => true
  | .reassign .. => true
  | _ => false

def namesReserved (s : UtxoSlot) : SlotOp → Bool
  | .unspend _ d => s.status = .spent && s.spendingData = d && d = frozenMarker
  | _ => false

end SlotOp

/-- Every operation succeeds on the slot as those before it leave it. -/
def AllAccepted (s : UtxoSlot) (ops : List SlotOp) : Prop :=
  Guarded SlotOp.live SlotOp.Accepted s ops

/-- The slot is renewed after every freeze and unfreeze that carries a cooldown over, and no unspend
names the reserved data of a slot that is spent with it. -/
def Restorable : UtxoSlot → List SlotOp → Prop
  | _, [] => True
  | s, op :: ops =>
    (op.carriesCooldown s → ops.any SlotOp.renews) ∧ ¬ op.namesReserved s ∧
      Restorable (op.live s) ops

instance Restorable.decidable : ∀ s ops, Decidable (Restorable s ops)
  | _, [] => isTrue trivial
  | s, op :: ops =>
    have := Restorable.decidable (op.live s) ops
    inferInstanceAs (Decidable ((_ → _) ∧ ¬ _ ∧ Restorable _ ops))

variable {s t u : UtxoSlot} {op : SlotOp} {ops : List SlotOp}

/-! ## Cooldowns -/

@[simp] theorem frozenForm_hash (s : UtxoSlot) : (frozenForm s).hash = s.hash := by
  unfold frozenForm
  split <;> rfl

@[simp] theorem thawedForm_hash (s : UtxoSlot) : (thawedForm s).hash = s.hash := by
  unfold thawedForm
  split <;> rfl

theorem withHeight_frozenMarker : withHeight frozenMarker (2 ^ 32 - 1) = frozenMarker := by
  decide +kernel

theorem frozenForm_of_not_hasCooldown (h : SlotOp.hasCooldown s = false) :
    frozenForm s = .newFrozen s.hash := by
  by_cases hzero : s.reassignmentCooldown = 0
  · exact if_pos hzero
  have hmax : s.reassignmentCooldown = 2 ^ 32 - 1 := by
    simpa [SlotOp.hasCooldown, hzero] using h
  rw [frozenForm, if_neg hzero, hmax, UtxoSlot.newFrozenWithCooldown, withHeight_frozenMarker]
  rfl

theorem thawedForm_of_not_hasCooldown (h : SlotOp.hasCooldown s = false) :
    thawedForm s = .newUnspent s.hash := by
  refine if_pos ?_
  simp [SlotOp.hasCooldown] at h
  tauto

theorem hasCooldown_frozenForm (h : SlotOp.hasCooldown s) : SlotOp.hasCooldown (frozenForm s) := by
  have hne : s.reassignmentCooldown ≠ 0 := by simp [SlotOp.hasCooldown] at h; exact h.1
  have hread : (frozenForm s).reassignmentCooldown = s.reassignmentCooldown := by
    rw [frozenForm, if_neg hne]
    exact UtxoSlot.reassignmentCooldown_withHeight _ _ _ s.reassignmentCooldown_lt
  simpa only [SlotOp.hasCooldown, hread] using h

theorem hasCooldown_thawedForm (h : SlotOp.hasCooldown s) : SlotOp.hasCooldown (thawedForm s) := by
  have hne : ¬ (s.reassignmentCooldown = 0 ∨ s.reassignmentCooldown = 2 ^ 32 - 1) := by
    simp [SlotOp.hasCooldown] at h
    tauto
  have hread : (thawedForm s).reassignmentCooldown = s.reassignmentCooldown := by
    rw [thawedForm, if_neg hne]
    exact UtxoSlot.reassignmentCooldown_withHeight _ _ _ s.reassignmentCooldown_lt
  simpa only [SlotOp.hasCooldown, hread] using h

/-! ## Replay from the start -/

/-- The replayed slot is the live one without its cooldown. -/
def Forgot (s t : UtxoSlot) : Prop :=
  SlotOp.hasCooldown s ∧ (s.status = .unspent ∧ t = .newUnspent s.hash ∨
    s.status = .frozen ∧ t = .newFrozen s.hash)

def Cleared (s t : UtxoSlot) : Prop :=
  s.spendingData = frozenMarker ∧ (s.status = .spent ∨ s.status = .pruned) ∧ t.status = .unspent

theorem hasCooldown_newUnspent (hash : Hash) : SlotOp.hasCooldown (.newUnspent hash) = false := by
  simp [SlotOp.hasCooldown, UtxoSlot.reassignmentCooldown, UtxoSlot.newUnspent]

theorem hasCooldown_newFrozen (hash : Hash) : SlotOp.hasCooldown (.newFrozen hash) = false := by
  simp [SlotOp.hasCooldown, UtxoSlot.reassignmentCooldown, UtxoSlot.newFrozen, frozenMarker]

theorem Forgot.ne (h : Forgot s t) : t ≠ s := by
  rintro rfl
  obtain ⟨hcool, ⟨-, ht⟩ | ⟨-, ht⟩⟩ := h
  · rw [ht, hasCooldown_newUnspent] at hcool
    cases hcool
  · rw [ht, hasCooldown_newFrozen] at hcool
    cases hcool

theorem Cleared.ne (h : Cleared s t) : t ≠ s := by
  rintro rfl
  obtain ⟨-, hs, ht⟩ := h
  simp [ht] at hs

theorem forgot_frozenForm (h : SlotOp.hasCooldown s) : Forgot (frozenForm s) (.newFrozen s.hash) :=
  ⟨hasCooldown_frozenForm h, .inr (by simp)⟩

theorem forgot_thawedForm (h : SlotOp.hasCooldown s) : Forgot (thawedForm s) (.newUnspent s.hash) :=
  ⟨hasCooldown_thawedForm h, .inl (by simp)⟩

theorem replay_self (h : op.Accepted s) :
    (op.carriesCooldown s = false ∧ op.namesReserved s = false ∧ op.replay s = op.live s) ∨
    (op.carriesCooldown s ∧ op.namesReserved s = false ∧ Forgot (op.live s) (op.replay s)) ∨
    (op.namesReserved s ∧ Cleared (op.live s) (op.replay s)) := by
  cases op with
  | spend hash d =>
    obtain ⟨rfl, -, hstatus | ⟨hstatus, rfl⟩⟩ := h
    · exact .inl ⟨rfl, rfl, by simp [SlotOp.replay, SlotOp.live, hstatus]⟩
    · refine .inl ⟨rfl, rfl, ?_⟩
      simp [SlotOp.replay, SlotOp.live, UtxoSlot.newSpent, ← hstatus]
  | unspend hash d =>
    obtain ⟨rfl, hstatus⟩ := h
    by_cases hd : s.status = .spent ∧ s.spendingData = d
    · obtain ⟨hspent, rfl⟩ := hd
      by_cases hres : s.spendingData = frozenMarker
      · refine .inr (.inr ⟨by simp [SlotOp.namesReserved, hspent, hres], ?_⟩)
        simp [Cleared, SlotOp.live, SlotOp.replay, Cell.ownsSpend, hspent, hres]
      · refine .inl ⟨rfl, by simp [SlotOp.namesReserved, hres], ?_⟩
        simp [SlotOp.live, SlotOp.replay, Cell.ownsSpend, hspent, hres]
    · refine .inl ⟨rfl, ?_, ?_⟩
      · simp only [SlotOp.namesReserved, Bool.and_eq_false_iff, decide_eq_false_iff_not]
        tauto
      · simp only [SlotOp.live, SlotOp.replay, Cell.ownsSpend]
        grind
  | freeze hash =>
    obtain ⟨rfl, hstatus⟩ := h
    have hreplay : (SlotOp.freeze s.hash).replay s = .newFrozen s.hash := if_pos ⟨rfl, hstatus⟩
    rw [hreplay]
    cases hcool : SlotOp.hasCooldown s with
    | false => exact .inl ⟨hcool, rfl, (frozenForm_of_not_hasCooldown hcool).symm⟩
    | true => exact .inr (.inl ⟨hcool, rfl, forgot_frozenForm hcool⟩)
  | unfreeze hash =>
    obtain ⟨rfl, hstatus⟩ := h
    have hreplay : (SlotOp.unfreeze s.hash).replay s = .newUnspent s.hash := if_pos ⟨rfl, hstatus⟩
    rw [hreplay]
    cases hcool : SlotOp.hasCooldown s with
    | false => exact .inl ⟨hcool, rfl, (thawedForm_of_not_hasCooldown hcool).symm⟩
    | true => exact .inr (.inl ⟨hcool, rfl, forgot_thawedForm hcool⟩)
  | reassign prior new height =>
    obtain ⟨rfl, hstatus⟩ := h
    exact .inl ⟨rfl, rfl, by simp [SlotOp.replay, SlotOp.live, hstatus]⟩
  | prune child => exact .inl ⟨rfl, rfl, rfl⟩

/-- A forgotten cooldown does not matter once the slot is renewed, and stays forgotten until
then. -/
theorem Forgot.step (h : Forgot s t) (hop : op.Accepted s) :
    op.namesReserved s = false ∧
      (op.renews ∧ op.replay t = op.live s ∧ op.carriesCooldown s = false ∨
        op.renews = false ∧ Forgot (op.live s) (op.replay t)) := by
  obtain ⟨hcool, ⟨hstatus, rfl⟩ | ⟨hstatus, rfl⟩⟩ := h
  · cases op with
    | spend hash d =>
      obtain ⟨rfl, -, -⟩ := hop
      exact ⟨rfl, .inl ⟨rfl, by simp [SlotOp.replay, SlotOp.live, UtxoSlot.newUnspent], rfl⟩⟩
    | unspend hash d =>
      refine ⟨by simp [SlotOp.namesReserved, hstatus], .inr ⟨rfl, ?_⟩⟩
      simpa [SlotOp.live, SlotOp.replay, Cell.ownsSpend, hstatus] using ⟨hcool, .inl ⟨hstatus, rfl⟩⟩
    | freeze hash =>
      obtain ⟨rfl, -⟩ := hop
      rw [SlotOp.replay, if_pos ⟨rfl, rfl⟩]
      exact ⟨rfl, .inr ⟨rfl, forgot_frozenForm hcool⟩⟩
    | unfreeze | reassign => simp [SlotOp.Accepted, hstatus] at hop
    | prune child =>
      refine ⟨rfl, .inr ⟨rfl, ?_⟩⟩
      simpa [SlotOp.live, SlotOp.replay, hstatus] using ⟨hcool, .inl ⟨hstatus, rfl⟩⟩
  · cases op with
    | spend | freeze => simp [SlotOp.Accepted, hstatus] at hop
    | unspend hash d =>
      refine ⟨by simp [SlotOp.namesReserved, hstatus], .inr ⟨rfl, ?_⟩⟩
      simpa [SlotOp.live, SlotOp.replay, Cell.ownsSpend, hstatus] using ⟨hcool, .inr ⟨hstatus, rfl⟩⟩
    | unfreeze hash =>
      obtain ⟨rfl, -⟩ := hop
      rw [SlotOp.replay, if_pos ⟨rfl, rfl⟩]
      exact ⟨rfl, .inr ⟨rfl, forgot_thawedForm hcool⟩⟩
    | reassign prior new height =>
      obtain ⟨rfl, -⟩ := hop
      exact ⟨rfl, .inl ⟨rfl, by simp [SlotOp.replay, SlotOp.live, UtxoSlot.newFrozen], rfl⟩⟩
    | prune child =>
      refine ⟨rfl, .inr ⟨rfl, ?_⟩⟩
      simpa [SlotOp.live, SlotOp.replay, hstatus] using ⟨hcool, .inr ⟨hstatus, rfl⟩⟩

theorem Cleared.step (h : Cleared s t) (hop : op.Accepted s) :
    Cleared (op.live s) (op.replay t) := by
  obtain ⟨hdata, hstatus, ht⟩ := h
  cases op with
  | spend hash d =>
    obtain ⟨-, hd, hunspent | ⟨-, rfl⟩⟩ := hop
    · simp [hunspent] at hstatus
    · exact absurd hdata hd
  | unspend hash d =>
    have hlive : (SlotOp.unspend hash d).live s = s := if_neg (by simp [Cell.ownsSpend, hdata])
    have hreplay : (SlotOp.unspend hash d).replay t = t := if_pos (by simp [ht])
    rw [hlive, hreplay]
    exact ⟨hdata, hstatus, ht⟩
  | freeze | unfreeze | reassign => simp [hop.2] at hstatus
  | prune child =>
    have hreplay : (SlotOp.prune child).replay t = t := if_neg (by simp [ht])
    rw [hreplay, SlotOp.live]
    split
    · exact ⟨hdata, .inr rfl, ht⟩
    · exact ⟨hdata, hstatus, ht⟩

theorem Cleared.run_ne (h : Cleared s t) (hops : AllAccepted s ops) :
    run SlotOp.replay t ops ≠ run SlotOp.live s ops := by
  induction ops generalizing s t with
  | nil => exact h.ne
  | cons op ops ih => exact ih (h.step hops.1) hops.2

/-- From the start, or from a slot that only lacks its cooldown, the replay ends where the live run
does exactly when every forgotten cooldown is renewed and nothing reserved is cleared. -/
theorem replay_eq_iff (hops : AllAccepted s ops) (h : t = s ∨ Forgot s t) :
    run SlotOp.replay t ops = run SlotOp.live s ops ↔
      (Forgot s t → ops.any SlotOp.renews) ∧ Restorable s ops := by
  induction ops generalizing s t with
  | nil =>
    rcases h with rfl | h
    · simp only [run_nil, Restorable, and_true, true_iff]
      exact fun hf => absurd rfl hf.ne
    · simp [h, h.ne, Restorable]
  | cons op ops ih =>
    obtain ⟨hop, hops⟩ := hops
    rw [run_cons, run_cons, Restorable, List.any_cons]
    rcases h with rfl | h
    · have hne : ¬ Forgot t t := fun hf => hf.ne rfl
      rcases replay_self hop with ⟨hcarry, hres, heq⟩ | ⟨hcarry, hres, hforgot⟩ | ⟨hres, hcleared⟩
      · have hne' : ¬ Forgot (op.live t) (op.replay t) := fun hf => hf.ne heq
        simp [ih hops (.inl heq), hne, hne', hcarry, hres]
      · simp [ih hops (.inr hforgot), hne, hforgot, hcarry, hres]
      · simp [hcleared.run_ne hops, hres]
    · obtain ⟨hres, ⟨hrenews, heq, hcarry⟩ | ⟨hrenews, hforgot⟩⟩ := h.step hop
      · have hne' : ¬ Forgot (op.live s) (op.replay t) := fun hf => hf.ne heq
        simp [ih hops (.inl heq), hne', hrenews, hcarry, hres]
      · simp only [ih hops (.inr hforgot), hforgot, h, hrenews, hres, Bool.false_or]
        tauto

/-! ## Replay after a crash -/

/-- A spent slot was spent from the start, or its spend is in the run. -/
theorem spent_origin (hops : AllAccepted s ops)
    (hspent : (run SlotOp.live s ops).status = .spent) :
    run SlotOp.live s ops = s ∨
      .spend (run SlotOp.live s ops).hash (run SlotOp.live s ops).spendingData ∈ ops := by
  induction ops generalizing s with
  | nil => exact .inl rfl
  | cons op ops ih =>
    rw [run_cons] at hspent ⊢
    rcases ih hops.2 hspent with heq | hmem
    · rw [heq] at hspent ⊢
      cases op with
      | spend hash d => exact .inr List.mem_cons_self
      | unspend | prune =>
        simp only [SlotOp.live] at hspent ⊢
        split at hspent
        · cases hspent
        · exact .inl (if_neg ‹_›)
      | freeze | unfreeze | reassign => simp [SlotOp.live] at hspent
    · exact .inr (List.mem_cons_of_mem op hmem)

theorem pruned_final (hops : AllAccepted s ops) (hpruned : s.status = .pruned) :
    run SlotOp.live s ops = s := by
  induction ops generalizing s with
  | nil => rfl
  | cons op ops ih =>
    obtain ⟨hop, hops⟩ := hops
    have hlive : op.live s = s := by
      cases op with
      | prune child => exact if_neg (by simp [hpruned])
      | _ => simp [SlotOp.Accepted, hpruned] at hop
    rw [hlive] at hops
    rw [run_cons, hlive, ih hops hpruned]

/-- What an entry can do to any slot: nothing, what its operation did, the same without the
cooldown, or it clears or prunes a spend that may be a later one. -/
theorem replay_cases (hop : op.Accepted s) (t : UtxoSlot) :
    op.replay t = t ∨ op.replay t = op.live s ∨
      (op.carriesCooldown s ∧ Forgot (op.live s) (op.replay t)) ∨
      (t.status = .spent ∧
        (op = .unspend t.hash t.spendingData ∧ op.replay t = .newUnspent t.hash ∨
          op = .prune (childTxid t.spendingData) ∧
            op.replay t = { t with status := .pruned })) := by
  have hself := replay_self hop
  cases op with
  | spend | reassign =>
    simp only [SlotOp.replay, SlotOp.live]
    grind
  | unspend | prune =>
    simp only [SlotOp.replay]
    grind
  | freeze | unfreeze =>
    -- A slot that the entry changes gets what the slot of the operation would get.
    simp only [SlotOp.replay, SlotOp.Accepted, SlotOp.namesReserved] at hop hself ⊢
    grind

/-- The slot is cleared or pruned, and its spend is still to be replayed. -/
def Stale (t : UtxoSlot) (ops : List SlotOp) : Prop :=
  (t.status = .unspent ∨ t.status = .pruned) ∧ ∃ d, .spend t.hash d ∈ ops

/-- Where the replay of operations that had reached the device can be: `s` is the live slot at that
point, `u` the slot of the crash, `pre` what is left up to the crash and `post` what comes after. -/
inductive CatchesUp (s t u : UtxoSlot) (pre post : List SlotOp) : Prop where
  | same (h : t = s)
  | forgot (h : Forgot s t) (hrenews : (pre ++ post).any SlotOp.renews)
  | ahead (h : t = u)
  | stale (h : Stale t pre)

variable {pre post : List SlotOp}

theorem CatchesUp.step (h : CatchesUp s t u (op :: pre) post)
    (hop : op.Accepted s) (hpre : AllAccepted (op.live s) pre)
    (hrun : run SlotOp.live (op.live s) pre = u)
    (hcarry : op.carriesCooldown s → (pre ++ post).any SlotOp.renews)
    (hres : op.namesReserved s = false) :
    CatchesUp (op.live s) (op.replay t) u pre post := by
  cases h with
  | same h =>
    subst h
    rcases replay_self hop with ⟨-, -, heq⟩ | ⟨hc, -, hforgot⟩ | ⟨hres', -⟩
    · exact .same heq
    · exact .forgot hforgot (hcarry hc)
    · simp [hres] at hres'
  | forgot h hrenews =>
    obtain ⟨-, ⟨-, heq, -⟩ | ⟨hop', hforgot⟩⟩ := h.step hop
    · exact .same heq
    · exact .forgot hforgot (by simpa [hop'] using hrenews)
  | ahead h =>
    subst h
    rcases replay_cases hop t with heq | heq | ⟨hc, hforgot⟩ | ⟨hspent, hcases⟩
    · exact .ahead heq
    · exact .same heq
    · exact .forgot hforgot (hcarry hc)
    · have horigin := spent_origin hpre (hrun ▸ hspent)
      rw [hrun] at horigin
      rcases hcases with ⟨rfl, heq⟩ | ⟨rfl, heq⟩
      · rw [heq]
        by_cases howns : Cell.ownsSpend s t.spendingData
        · exact .same (if_pos howns).symm
        have hlive : (SlotOp.unspend t.hash t.spendingData).live s = s := if_neg howns
        rw [hlive] at horigin ⊢
        rcases horigin with rfl | hmem
        · simp [SlotOp.namesReserved, hspent] at hres
          simp [Cell.ownsSpend, hspent, hres] at howns
        · exact .stale ⟨.inl rfl, t.spendingData, hmem⟩
      · rw [heq]
        by_cases hprunes : s.status = .spent ∧ childTxid s.spendingData = childTxid t.spendingData
        · -- A pruned slot stays pruned, but the slot of the crash is spent.
          have hlive : (SlotOp.prune (childTxid t.spendingData)).live s =
              { s with status := .pruned } := if_pos hprunes
          rw [hlive] at hpre hrun
          rw [← hrun, pruned_final hpre rfl] at hspent
          cases hspent
        · have hlive : (SlotOp.prune (childTxid t.spendingData)).live s = s := if_neg hprunes
          rw [hlive] at horigin ⊢
          rcases horigin with rfl | hmem
          · exact absurd ⟨hspent, rfl⟩ hprunes
          · exact .stale ⟨.inr rfl, t.spendingData, hmem⟩
  | stale h =>
    obtain ⟨hstatus, d, hmem⟩ := h
    rcases replay_cases hop t with heq | heq | ⟨hc, hforgot⟩ | ⟨hspent, -⟩
    · rw [heq]
      rcases List.mem_cons.mp hmem with rfl | hmem
      · -- The entry of the lost spend is not skipped.
        have hspends : (SlotOp.spend t.hash d).replay t = .newSpent t.hash d := by
          simp only [SlotOp.replay]
          grind
        rw [hspends] at heq
        rw [← heq] at hstatus
        simp at hstatus
      · exact .stale ⟨hstatus, d, hmem⟩
    · exact .same heq
    · exact .forgot hforgot (hcarry hc)
    · simp [hspent] at hstatus

theorem CatchesUp.run (h : CatchesUp s t u pre post)
    (hpre : AllAccepted s pre) (hrun : Foundations.run SlotOp.live s pre = u)
    (hrest : Restorable s (pre ++ post)) :
    Foundations.run SlotOp.replay t pre = u ∨
      Forgot u (Foundations.run SlotOp.replay t pre) ∧ post.any SlotOp.renews := by
  induction pre generalizing s t with
  | nil =>
    obtain rfl : s = u := hrun
    cases h with
    | same h => exact .inl h
    | forgot h hrenews => exact .inr ⟨h, hrenews⟩
    | ahead h => exact .inl h
    | stale h => simp [Stale] at h
  | cons op pre ih =>
    obtain ⟨hcarry, hres, hrest⟩ := hrest
    have hstep := h.step hpre.1 hpre.2 hrun hcarry (Bool.eq_false_iff.mpr hres)
    exact ih hstep hpre.2 hrun hrest

theorem Restorable.append (h : Restorable s (pre ++ post)) :
    Restorable (run SlotOp.live s pre) post := by
  induction pre generalizing s with
  | nil => exact h
  | cons op pre ih => exact ih h.2.2

/-- After every crash the replay of all entries ends where the live run ended, when every cooldown
carried over is renewed and nothing reserved is cleared. -/
theorem slot_recovers (hops : AllAccepted s (pre ++ post))
    (hrest : Restorable s (pre ++ post)) :
    run SlotOp.replay (run SlotOp.live s pre) (pre ++ post) = run SlotOp.live s (pre ++ post) := by
  obtain ⟨hpre, hpost⟩ := guarded_append.mp hops
  have hcatch := CatchesUp.run (.ahead rfl) hpre rfl hrest
  rw [run_append, run_append]
  refine (replay_eq_iff hpost ?_).mpr ⟨?_, hrest.append⟩
  · exact hcatch.imp id And.left
  intro hforgot
  rcases hcatch with heq | ⟨-, hrenews⟩
  · exact absurd heq hforgot.ne
  · exact hrenews

end TeraSlab.Recovery
