import TeraSlab.Ops.SlotHistory

/-!
# No output is spent twice

After an accepted spend a slot is held by its spending data until an unspend that names the data
clears it. An unspend that fails has cleared the slot all the same when its evaluation overflowed;
in a run without such an unspend no output is spent twice. A pruned slot is never spent again.
-/

namespace TeraSlab.Ops

open Foundations Index

variable {cfg : TxKey → StoreConfig} {s : Engine} {call : Call} {key : TxKey} {offset : Nat}
  {d d' : SpendingData}

/-- An unspend of the slot that names the spending data succeeds. -/
def Releases (cfg : TxKey → StoreConfig) (s : Engine) (call : Call) (key : TxKey) (offset : Nat)
    (d : SpendingData) : Prop :=
  call.key = key ∧ s.Succeeds cfg call ∧
    ∃ req, call.op = .unspend req ∧ req.offset = offset ∧ req.spendingData = d

/-- The call is an unspend that clears its slot and fails. -/
def tornUnspend (cfg : TxKey → StoreConfig) (s : Engine) (call : Call) : Bool :=
  match call.op with
  | .unspend _ => (s.cell call.key).tears (cfg call.key) call.key call.op
  | _ => false

/-- What the spends accepted along the calls must satisfy. -/
structure NoDoubleSpend (cfg : TxKey → StoreConfig) (calls : List Call) : Prop where
  /-- Between two accepted spends with different spending data the first one is released. -/
  exclusive : ∀ before call between call' after key offset d d' height height' kind kind',
    calls = before ++ call :: between ++ call' :: after →
    (reached cfg before).Accepts cfg call key offset d height kind →
    (reached cfg (before ++ call :: between)).Accepts cfg call' key offset d' height' kind' →
    d' ≠ d → ∃ front u back, between = front ++ u :: back ∧
      Releases cfg (reached cfg (before ++ call :: front)) u key offset d
  /-- One batch does not accept two spends of a slot with different spending data. -/
  batch : ∀ before call after key offset d d' height height' kind kind',
    calls = before ++ call :: after →
    (reached cfg before).Accepts cfg call key offset d height kind →
    (reached cfg before).Accepts cfg call key offset d' height' kind' → d' = d
  /-- A pruned slot stays pruned. -/
  pruned : ∀ before after key offset u, calls = before ++ after →
    (reached cfg before).slot key offset = some u → u.status = .pruned →
    ∃ u', (reached cfg calls).slot key offset = some u' ∧ u'.status = .pruned
  /-- A pruned or frozen slot accepts no spend. -/
  closed : ∀ before call after key offset u d height kind, calls = before ++ call :: after →
    (reached cfg before).slot key offset = some u → u.status = .pruned ∨ u.status = .frozen →
    ¬(reached cfg before).Accepts cfg call key offset d height kind

/-! ### Held slots -/

def Held (s : Engine) (key : TxKey) (offset : Nat) (d : SpendingData) : Prop :=
  ∃ u, s.slot key offset = some u ∧ (u.status = .pruned ∨ u.status = .spent ∧ u.spendingData = d)

theorem Held.eq_of_accepts {height : Nat} {kind : SpendKind} (h : Held s key offset d)
    (hacc : s.Accepts cfg call key offset d' height kind) : d' = d := by
  obtain ⟨u, hu, hheld⟩ := h
  obtain ⟨u', hu', hcases⟩ := hacc.before
  cases hu.symm.trans hu'
  rcases hheld with hp | ⟨hspent, rfl⟩
  · rcases hcases with ⟨hunspent, -⟩ | ⟨-, hspent, -⟩
    · simp [hp] at hunspent
    · simp [hp] at hspent
  · rcases hcases with ⟨hunspent, -⟩ | ⟨-, -, hd⟩
    · simp [hspent] at hunspent
    · exact hd.symm

theorem Held.step (h : Held s key offset d) (hlink : Linked s)
    (huntorn : tornUnspend cfg s call = false) :
    Releases cfg s call key offset d ∨ Held (s.step cfg call) key offset d := by
  obtain ⟨u, hu, hheld⟩ := h
  obtain ⟨u', hu', rfl | ⟨hkey, hchange⟩⟩ := hlink.slot_step cfg call hu
  · exact .inr ⟨u', hu', hheld⟩
  have hne : u.status ≠ .unspent ∧ u.status ≠ .frozen := by
    rcases hheld with hp | ⟨hspent, -⟩ <;> simp [*]
  cases hchange with
  | same => exact .inr ⟨u, hu', hheld⟩
  | spend hstatus => exact absurd hstatus hne.1
  | @unspend req hop hoffset howns _ hok =>
    obtain ⟨hspent, -, hd⟩ := ownsSpend_iff.mp howns
    subst hkey
    have hok' : s.Succeeds cfg call := by
      simp only [tornUnspend, hop] at huntorn
      simpa [hop, huntorn, Engine.Succeeds, Cell.Succeeds] using hok
    rcases hheld with hp | ⟨-, rfl⟩
    · simp [hp] at hspent
    · exact .inl ⟨rfl, hok', req, hop, hoffset, hd.symm⟩
  | prune _ => exact .inr ⟨_, hu', .inl rfl⟩
  | freeze hstatus => exact absurd hstatus hne.1
  | unfreeze _ hstatus | reassign _ _ _ hstatus => exact absurd hstatus hne.2

theorem Held.run {calls : List Call} (h : Held s key offset d) (hlink : Linked s)
    (hg : Guarded (Engine.step cfg) (fun s call => tornUnspend cfg s call = false) s calls) :
    (∃ front u back, calls = front ++ u :: back ∧
      Releases cfg (Foundations.run (Engine.step cfg) s front) u key offset d) ∨
      Held (Foundations.run (Engine.step cfg) s calls) key offset d := by
  induction calls generalizing s with
  | nil => exact .inr h
  | cons call calls ih =>
    rcases h.step hlink hg.1 with hrel | hheld
    · exact .inl ⟨[], call, calls, rfl, hrel⟩
    rcases ih hheld (hlink.step cfg call) hg.2 with ⟨front, u, back, rfl, hrel⟩ | hend
    · exact .inl ⟨call :: front, u, back, rfl, hrel⟩
    · exact .inr hend

theorem pruned_step {u : UtxoSlot} (hlink : Linked s) (hu : s.slot key offset = some u)
    (hp : u.status = .pruned) (cfg : TxKey → StoreConfig) (call : Call) :
    ∃ u', (s.step cfg call).slot key offset = some u' ∧ u'.status = .pruned := by
  obtain ⟨u', hu', rfl | ⟨-, hchange⟩⟩ := hlink.slot_step cfg call hu
  · exact ⟨u', hu', hp⟩
  refine ⟨u', hu', ?_⟩
  cases hchange with
  | same => exact hp
  | unspend _ _ howns _ _ =>
    have := (ownsSpend_iff.mp howns).1
    simp_all
  | prune _ => rfl
  | spend hstatus | freeze hstatus | unfreeze _ hstatus | reassign _ _ _ hstatus => simp_all

theorem pruned_run {u : UtxoSlot} (hlink : Linked s) (hu : s.slot key offset = some u)
    (hp : u.status = .pruned) (cfg : TxKey → StoreConfig) (calls : List Call) :
    ∃ u', (run (Engine.step cfg) s calls).slot key offset = some u' ∧ u'.status = .pruned := by
  induction calls generalizing s u with
  | nil => exact ⟨u, hu, hp⟩
  | cons call calls ih =>
    obtain ⟨u', hu', hp'⟩ := pruned_step hlink hu hp cfg call
    exact ih (hlink.step cfg call) hu' hp'

/-! ### Whole runs -/

/-- In a run in which no unspend is torn, no output is spent twice. -/
theorem noDoubleSpend_of_untorn (cfg : TxKey → StoreConfig) (calls : List Call)
    (h : Guarded (Engine.step cfg) (fun s call => tornUnspend cfg s call = false) .empty calls) :
    NoDoubleSpend cfg calls where
  exclusive := by
    intro before call between call' after key offset d d' height height' kind kind' hcalls hacc
      hacc' hne
    subst hcalls
    have hg := (guarded_append.mp (guarded_append.mp h).1).2.2
    obtain ⟨u, hu, hspent⟩ := hacc.after
    have hheld : Held ((reached cfg before).step cfg call) key offset d := ⟨u, hu, .inr hspent⟩
    have hlink := (linked_run cfg before).step cfg call
    rcases hheld.run hlink hg with ⟨front, u, back, rfl, hrel⟩ | hend
    · refine ⟨front, u, back, rfl, ?_⟩
      rwa [reached, run_append]
    · rw [reached, run_append] at hacc'
      exact absurd (hend.eq_of_accepts hacc') hne
  batch := by
    intro before call after key offset d d' height height' kind kind' _ hacc hacc'
    obtain ⟨u, hu, -, hd⟩ := hacc.after
    obtain ⟨u', hu', -, hd'⟩ := hacc'.after
    cases hu.symm.trans hu'
    exact hd'.symm.trans hd
  pruned := by
    intro before after key offset u hcalls hu hp
    rw [reached, hcalls, run_append]
    exact pruned_run (linked_run cfg before) hu hp cfg after
  closed := by
    intro before call after key offset u d height kind _ hu hclosed hacc
    obtain ⟨u', hu', hcases⟩ := hacc.before
    cases hu.symm.trans hu'
    rcases hcases with ⟨hunspent, -⟩ | ⟨-, hspent, -⟩
    · simp [hunspent] at hclosed
    · simp [hspent] at hclosed

/-- A run with a repeated spend, a release and a second spend. -/
theorem noDoubleSpend_of_untorn_demo :
    let calls := demoCalls [demoCreate, demoSpend 1 20, demoSpend 1 21, demoUnspend 1 22,
      demoSpend 2 23]
    Guarded (Engine.step demoConfig) (fun s call => s.Succeeds demoConfig call) .empty calls ∧
      NoDoubleSpend demoConfig calls := by
  intro calls
  exact ⟨by decide, noDoubleSpend_of_untorn demoConfig calls (by decide)⟩

/-- An unspend at a height close to the limit fails with its slot cleared, after which the output
is spent again. -/
theorem torn_unspend_double_spends :
    ¬NoDoubleSpend demoConfig
      (demoCalls [demoCreate, demoSpend 1 20, demoUnspend 1 (2 ^ 32 - 1), demoSpend 2 21]) := by
  intro h
  obtain ⟨kind, hfirst⟩ : ∃ kind, (reached demoConfig (demoCalls [demoCreate])).Accepts demoConfig
      ⟨demoKey, demoSpend 1 20⟩ demoKey 0 (.replicate 36 1) 20 kind :=
    Engine.accepts_of_succeeds (by decide)
  obtain ⟨kind', hsecond⟩ : ∃ kind, (reached demoConfig (demoCalls [demoCreate, demoSpend 1 20,
      demoUnspend 1 (2 ^ 32 - 1)])).Accepts demoConfig
      ⟨demoKey, demoSpend 2 21⟩ demoKey 0 (.replicate 36 2) 21 kind :=
    Engine.accepts_of_succeeds (by decide)
  obtain ⟨front, u, back, hbetween, -, hok, -⟩ := h.exclusive (demoCalls [demoCreate]) _
    (demoCalls [demoUnspend 1 (2 ^ 32 - 1)]) _ [] _ _ _ _ _ _ _ _ rfl hfirst hsecond (by decide)
  -- The only call in between is the unspend that failed.
  obtain ⟨rfl, rfl, -⟩ : front = [] ∧ u = ⟨demoKey, demoUnspend 1 (2 ^ 32 - 1)⟩ ∧ back = [] := by
    cases front with
    | nil => simpa [demoCalls, eq_comm] using hbetween
    | cons _ front => simp [demoCalls] at hbetween
  exact absurd hok (by decide)

end TeraSlab.Ops
