import TeraSlab.Foundations.Run

/-!
# Votes and commits across crashes

A vote reply votes in memory, takes a snapshot of the state, writes it to the state file and
answers. A durable commit holds the commit lock: it takes a snapshot of the state to come, writes
it and then applies the commit. A proposer retry votes for its own proposal and broadcasts it. A
crash leaves the file that was written last.
-/

namespace TeraSlab.Cluster

open Foundations

/-- A commit; the type stands for the regime block without its rebase marker. -/
structure TopologyCommit (ρ : Type*) where
  term : Nat
  members : List Nat
  placementVersion : Nat
  committedPeak : Nat
  regimeBlock : ρ
  rebase : Bool
deriving DecidableEq

def TopologyCommit.installed {ρ : Type*} (c : TopologyCommit ρ) : TopologyCommit ρ :=
  { c with placementVersion := max c.placementVersion 1, rebase := false }

structure PersistedTopologyState (ρ : Type*) where
  votedTerm : Nat
  committed : TopologyCommit ρ
deriving DecidableEq

/-- How far a call has come. -/
inductive DurableCall (ρ : Type*) where
  | idle
  | voted (term : Nat)
  | voteSnapshot (term : Nat) (state : PersistedTopologyState ρ)
  | votePersisted (term : Nat)
  | commitSnapshot (state : PersistedTopologyState ρ)
  | commitPersisted (state : PersistedTopologyState ρ)
  | retryDerived (term : Nat)
  | retryStored (term : Nat)

/-- Does the call hold the commit lock? -/
def DurableCall.inCommit {ρ : Type*} : DurableCall ρ → Bool
  | .commitSnapshot _ | .commitPersisted _ => true
  | _ => false

/-- A node with its state file. `backed` are the terms it voted for towards others, `applied` the
commits it reported as applied. -/
structure DurableNode (ρ : Type*) where
  memory : PersistedTopologyState ρ
  file : PersistedTopologyState ρ
  calls : Nat → DurableCall ρ
  commitLocked : Bool
  backed : List Nat
  applied : List (TopologyCommit ρ)

/-- What happens next. `ok` says whether the checks of the call, the write or the install hook
succeed. -/
inductive DurableInput (ρ : Type*) where
  | handlePropose (call term : Nat) (ok : Bool)
  | handleCommitDurable (call : Nat) (commit : TopologyCommit ρ) (ok : Bool)
  | retryProposal (call : Nat)
  | advance (call : Nat) (ok : Bool)
  | crash

namespace DurableNode

variable {ρ : Type*} {s : DurableNode ρ}

def goto (s : DurableNode ρ) (call : Nat) (c : DurableCall ρ) : DurableNode ρ :=
  { s with calls := Function.update s.calls call c }

/-- A step of a call that is on its way. -/
def advance (s : DurableNode ρ) (call : Nat) (ok : Bool) : DurableCall ρ → DurableNode ρ
  | .idle => s
  | .voted term => s.goto call (.voteSnapshot term s.memory)
  | .voteSnapshot term state =>
    if ok then { s with file := state }.goto call (.votePersisted term) else s.goto call .idle
  | .votePersisted term => { s with backed := term :: s.backed }.goto call .idle
  | .commitSnapshot state =>
    if ok then { s with file := state }.goto call (.commitPersisted state)
    else { s with commitLocked := false }.goto call .idle
  | .commitPersisted state =>
    if ok ∧ s.memory.committed.term < state.committed.term then
      { s with
        memory := { s.memory with committed := state.committed }
        commitLocked := false
        applied := state.committed :: s.applied }.goto call .idle
    else { s with commitLocked := false }.goto call .idle
  | .retryDerived term =>
    { s with memory := { s.memory with votedTerm := term } }.goto call (.retryStored term)
  | .retryStored term => { s with backed := term :: s.backed }.goto call .idle

def step (s : DurableNode ρ) : DurableInput ρ → DurableNode ρ
  | .handlePropose call term ok =>
    match s.calls call with
    | .idle =>
      if ok ∧ s.memory.votedTerm < term then
        { s with memory := { s.memory with votedTerm := term } }.goto call (.voted term)
      else s
    | _ => s
  | .handleCommitDurable call commit ok =>
    match s.calls call with
    | .idle =>
      if ok ∧ s.commitLocked = false ∧ s.memory.committed.term < commit.term then
        { s with commitLocked := true }.goto call
          (.commitSnapshot { s.memory with committed := commit.installed })
      else s
    | _ => s
  | .retryProposal call =>
    match s.calls call with
    | .idle => s.goto call (.retryDerived (max s.memory.committed.term s.memory.votedTerm + 1))
    | _ => s
  | .advance call ok => s.advance call ok (s.calls call)
  | .crash => { s with memory := s.file, calls := fun _ => .idle, commitLocked := false }

def Keeps (c : TopologyCommit ρ) (state : PersistedTopologyState ρ) : Prop :=
  c.term < state.committed.term ∨ state.committed = c

/-- What the node said to others, a crash restores. -/
def Survives (s : DurableNode ρ) : Prop :=
  (∀ term ∈ s.backed, term ≤ s.file.votedTerm) ∧ ∀ c ∈ s.applied, Keeps c s.file

/-- A snapshot is written only over a file whose vote is not newer. A vote writes its own only when
no commit is between its write and its apply, and none was applied since the snapshot. A retry does
not lower the vote, and is broadcast once the file has its own. -/
def InOrder (s : DurableNode ρ) : DurableInput ρ → Prop
  | .advance call ok =>
    match s.calls call with
    | .voteSnapshot _ state => ok = true → s.file.votedTerm ≤ state.votedTerm ∧
        state.committed = s.memory.committed ∧
        ∀ other written, s.calls other ≠ .commitPersisted written
    | .commitSnapshot state => ok = true → s.file.votedTerm ≤ state.votedTerm
    | .retryDerived term => s.memory.votedTerm ≤ term
    | .retryStored term => term ≤ s.file.votedTerm
    | _ => True
  | _ => True

/-! ### The invariant -/

def Call (s : DurableNode ρ) : DurableCall ρ → Prop
  | .voted term => term ≤ s.memory.votedTerm
  | .voteSnapshot term state => term ≤ state.votedTerm
  | .votePersisted term => term ≤ s.file.votedTerm
  | .commitSnapshot state => s.memory.committed.term < state.committed.term
  | .commitPersisted state => s.file.committed = state.committed
  | _ => True

structure Inv (s : DurableNode ρ) : Prop where
  survives : s.Survives
  memory : ∀ c ∈ s.applied, Keeps c s.memory
  calls : ∀ call, s.Call (s.calls call)
  lock : ∀ call, (s.calls call).inCommit = true →
    s.commitLocked = true ∧ ∀ other ≠ call, (s.calls other).inCommit = false

variable {c : DurableCall ρ} {call term : Nat} {t : DurableNode ρ}

/-- A step of one call keeps the invariant if it keeps what holds of the other calls. -/
theorem Inv.goto (hcalls : t.calls = s.calls) (hsurvives : t.Survives)
    (hmemory : ∀ c ∈ t.applied, Keeps c t.memory) (hcall : t.Call c)
    (hothers : ∀ other ≠ call, t.Call (s.calls other))
    (hlock : ∀ other, (Function.update s.calls call c other).inCommit = true →
      t.commitLocked = true ∧
        ∀ i ≠ other, (Function.update s.calls call c i).inCommit = false) :
    (t.goto call c).Inv := by
  have hupdate : (t.goto call c).calls = Function.update s.calls call c := by rw [← hcalls]; rfl
  refine ⟨hsurvives, hmemory, fun other => ?_, by rwa [hupdate]⟩
  rw [hupdate]
  by_cases hne : other = call
  · rw [hne, Function.update_self]
    exact hcall
  · rw [Function.update_of_ne hne]
    exact hothers other hne

/-- The lock stays with the call that holds it while another call moves on. -/
theorem Inv.lock_outside (h : s.Inv) (hc : c.inCommit = false) (other : Nat)
    (hother : (Function.update s.calls call c other).inCommit = true) :
    s.commitLocked = true ∧ ∀ i ≠ other, (Function.update s.calls call c i).inCommit = false := by
  have hne : other ≠ call := by
    rintro rfl
    rw [Function.update_self, hc] at hother
    cases hother
  rw [Function.update_of_ne hne] at hother
  refine ⟨(h.lock other hother).1, fun i hi => ?_⟩
  by_cases heq : i = call
  · rw [heq, Function.update_self, hc]
  · rw [Function.update_of_ne heq]
    exact (h.lock other hother).2 i hi

/-- The call that holds the lock, or takes it, is the only one to hold it. -/
theorem lock_inside (hothers : ∀ other ≠ call, (s.calls other).inCommit = false) {locked : Bool}
    (hlocked : c.inCommit = true → locked = true) (other : Nat)
    (hother : (Function.update s.calls call c other).inCommit = true) :
    locked = true ∧ ∀ i ≠ other, (Function.update s.calls call c i).inCommit = false := by
  by_cases heq : other = call
  · rw [heq, Function.update_self] at hother
    refine ⟨hlocked hother, fun i hi => ?_⟩
    rw [Function.update_of_ne (heq ▸ hi)]
    exact hothers i (heq ▸ hi)
  · rw [Function.update_of_ne heq, hothers other heq] at hother
    cases hother

section Call

variable (h : s.Call c) (hmemory : s.memory.votedTerm ≤ t.memory.votedTerm)
  (hfile : s.file.votedTerm ≤ t.file.votedTerm)
include h hmemory hfile

/-- What holds of a call outlives a step that takes no vote back and leaves alone the commit that
the call has yet to write or to apply. -/
theorem Call.mono
    (hsnapshot : ∀ state, c = .commitSnapshot state → t.memory.committed = s.memory.committed)
    (hwritten : ∀ state, c = .commitPersisted state → t.file.committed = s.file.committed) :
    t.Call c := by
  cases c with
  | voted v => exact le_trans h hmemory
  | votePersisted v => exact le_trans h hfile
  | commitSnapshot state =>
    rw [Call, hsnapshot state rfl]
    exact h
  | commitPersisted state => exact (hwritten state rfl).trans h
  | _ => exact h

theorem Call.outside (hc : c.inCommit = false) : t.Call c :=
  h.mono hmemory hfile (by rintro _ rfl; cases hc) (by rintro _ rfl; cases hc)

end Call

/-- A vote in memory keeps what holds of every call. -/
theorem Inv.vote (h : s.Inv) (hle : s.memory.votedTerm ≤ term) (call : Nat)
    (hc : c.inCommit = false)
    (hcall : Call { s with memory := { s.memory with votedTerm := term } } c) :
    ({ s with memory := { s.memory with votedTerm := term } }.goto call c).Inv := by
  refine .goto rfl h.survives h.memory hcall (fun other _ => ?_) (h.lock_outside hc)
  exact (h.calls other).mono hle le_rfl (fun _ _ => rfl) fun _ _ => rfl

/-- A call moves on outside the commit lock, and nothing else changes. -/
theorem Inv.move (h : s.Inv) (call : Nat) (hc : c.inCommit = false) (hcall : s.Call c) :
    (s.goto call c).Inv :=
  .goto rfl h.survives h.memory hcall (fun other _ => h.calls other) (h.lock_outside hc)

theorem Inv.back (h : s.Inv) (hterm : term ≤ s.file.votedTerm) (call : Nat) :
    ({ s with backed := term :: s.backed }.goto call .idle).Inv :=
  .goto rfl ⟨List.forall_mem_cons.mpr ⟨hterm, h.survives.1⟩, h.survives.2⟩ h.memory trivial
    (fun other _ => h.calls other) (h.lock_outside rfl)

variable {state : PersistedTopologyState ρ}

theorem Inv.writeVote (h : s.Inv) (hterm : term ≤ state.votedTerm)
    (hfile : s.file.votedTerm ≤ state.votedTerm) (hsame : state.committed = s.memory.committed)
    (hnone : ∀ other written, s.calls other ≠ .commitPersisted written) (call : Nat) :
    ({ s with file := state }.goto call (.votePersisted term)).Inv := by
  have hkeeps : ∀ c ∈ s.applied, Keeps c state := by
    intro c hmem
    rw [Keeps, hsame]
    exact h.memory c hmem
  refine .goto rfl ⟨fun v hv => (h.survives.1 v hv).trans hfile, hkeeps⟩ h.memory hterm
    (fun other _ => ?_) (h.lock_outside rfl)
  exact (h.calls other).mono le_rfl hfile (fun _ _ => rfl) fun written hc =>
    absurd hc (hnone other written)

/-- A commit that is newer than the one in memory keeps every commit that was applied. -/
theorem Inv.keeps_newer (h : s.Inv) (hnewer : s.memory.committed.term < state.committed.term) :
    ∀ c ∈ s.applied, Keeps c state := by
  intro c hmem
  left
  rcases h.memory c hmem with hlt | heq
  · exact hlt.trans hnewer
  · exact heq ▸ hnewer

section Commit

variable (h : s.Inv) (hin : (s.calls call).inCommit = true)
include h hin

theorem Inv.writeCommit (hnewer : s.memory.committed.term < state.committed.term)
    (hfile : s.file.votedTerm ≤ state.votedTerm) :
    ({ s with file := state }.goto call (.commitPersisted state)).Inv := by
  obtain ⟨hlocked, hothers⟩ := h.lock call hin
  refine .goto rfl ⟨fun v hv => (h.survives.1 v hv).trans hfile, h.keeps_newer hnewer⟩ h.memory rfl
    (fun other hne => ?_) (lock_inside hothers fun _ => hlocked)
  exact (h.calls other).outside le_rfl hfile (hothers other hne)

theorem Inv.release : ({ s with commitLocked := false }.goto call .idle).Inv :=
  .goto rfl h.survives h.memory trivial (fun other _ => h.calls other)
    (lock_inside (h.lock call hin).2 nofun)

theorem Inv.apply (hwritten : s.file.committed = state.committed)
    (hnewer : s.memory.committed.term < state.committed.term) :
    ({ s with
      memory := { s.memory with committed := state.committed }
      commitLocked := false
      applied := state.committed :: s.applied }.goto call .idle).Inv := by
  obtain ⟨-, hothers⟩ := h.lock call hin
  refine .goto rfl ⟨h.survives.1, List.forall_mem_cons.mpr ⟨.inr hwritten, h.survives.2⟩⟩
    (List.forall_mem_cons.mpr ⟨.inr rfl, h.keeps_newer hnewer⟩) trivial (fun other hne => ?_)
    (lock_inside hothers nofun)
  exact (h.calls other).outside le_rfl le_rfl (hothers other hne)

end Commit

theorem Inv.advance (h : s.Inv) {ok : Bool} (horder : s.InOrder (.advance call ok)) :
    (s.advance call ok (s.calls call)).Inv := by
  have hcall := h.calls call
  cases hc : s.calls call with
  | idle => exact h
  | voted term =>
    rw [hc] at hcall
    exact h.move call rfl hcall
  | voteSnapshot term state =>
    simp only [InOrder, hc] at horder hcall
    unfold DurableNode.advance
    split_ifs with hok
    · obtain ⟨hfile, hsame, hnone⟩ := horder hok
      exact h.writeVote hcall hfile hsame hnone call
    · exact h.move call rfl trivial
  | votePersisted term =>
    rw [hc] at hcall
    exact h.back hcall call
  | commitSnapshot state =>
    simp only [InOrder, hc] at horder hcall
    have hin : (s.calls call).inCommit = true := by rw [hc]; rfl
    unfold DurableNode.advance
    split_ifs with hok
    · exact h.writeCommit hin hcall (horder hok)
    · exact h.release hin
  | commitPersisted state =>
    rw [hc] at hcall
    have hin : (s.calls call).inCommit = true := by rw [hc]; rfl
    unfold DurableNode.advance
    dsimp only
    split_ifs with hok
    · exact h.apply hin hcall hok.2
    · exact h.release hin
  | retryDerived term =>
    simp only [InOrder, hc] at horder
    exact h.vote horder call rfl trivial
  | retryStored term =>
    simp only [InOrder, hc] at horder
    exact h.back horder call

theorem Inv.step (h : s.Inv) {input : DurableInput ρ} (horder : s.InOrder input) :
    (s.step input).Inv := by
  unfold DurableNode.step
  cases input with
  | advance call ok => exact h.advance horder
  | crash => exact ⟨h.survives, h.survives.2, fun _ => trivial, fun _ h => by cases h⟩
  | retryProposal call =>
    dsimp only
    split
    · exact h.move call rfl trivial
    · exact h
  | handlePropose call term ok =>
    dsimp only
    split
    · split_ifs with hok
      · exact h.vote hok.2.le call rfl le_rfl
      · exact h
    · exact h
  | handleCommitDurable call commit ok =>
    dsimp only
    split
    · split_ifs with hok
      · refine .goto rfl h.survives h.memory hok.2.2 (fun other _ => h.calls other)
          (lock_inside (fun other _ => ?_) fun _ => rfl)
        -- Nobody holds a lock that is free.
        by_contra hin
        have hlocked := (h.lock other (Bool.eq_true_of_not_eq_false hin)).1
        rw [hok.2.1] at hlocked
        cases hlocked
      · exact h
    · exact h

def start (file : PersistedTopologyState ρ) : DurableNode ρ :=
  ⟨file, file, fun _ => .idle, false, [], []⟩

theorem survives_of_inOrder (file : PersistedTopologyState ρ) (inputs : List (DurableInput ρ))
    (h : Guarded step InOrder (start file) inputs) :
    (run step (start file) inputs).Survives := by
  have hinit : (start file).Inv :=
    ⟨⟨nofun, nofun⟩, nofun, fun _ => trivial, fun _ h => by cases h⟩
  exact (h.invariant (I := Inv) (fun _ _ hs hg => hs.step hg) hinit).survives

/-- A vote takes its snapshot, and a commit its own before the vote has written; a crash follows the
commit. -/
theorem survives_demo :
    (run step (start (⟨1, ⟨1, [1], 1, 1, (), false⟩⟩ : PersistedTopologyState Unit))
      [.handlePropose 0 2 true, .advance 0 true,
        .handleCommitDurable 1 ⟨2, [1, 2], 2, 2, (), false⟩ true, .advance 0 true, .advance 0 true,
        .advance 1 true, .advance 1 true, .crash]).Survives := by
  refine survives_of_inOrder _ _ ⟨trivial, trivial, trivial, fun _ => ⟨by decide, rfl, ?_⟩,
    trivial, fun _ => by decide, trivial, trivial, trivial⟩
  rintro (_ | _ | other) written hwritten <;> cases hwritten

/-- A retry is broadcast, and the node crashes: nothing has written its vote. -/
theorem retried_vote_forgotten :
    ¬ (run step (start (⟨1, ⟨1, [1], 1, 1, (), false⟩⟩ : PersistedTopologyState Unit))
      [.retryProposal 0, .advance 0 true, .advance 0 true, .crash]).Survives := by
  intro h
  exact absurd (h.1 2 (by decide)) (by decide)

end DurableNode

end TeraSlab.Cluster
