import TeraSlab.Foundations.Run

/-!
# One proposal per term

A `TopologyAuthority` votes for proposals of other nodes and for its own. `handle_propose` and
`on_membership_changed` read and store `voted_term` under the `vote_decision` lock. The other
producers of proposals load it, derive a term and store it, each in a step of its own. The checks
that come before the vote decision are inputs: they only say whether the call gets there.
-/

namespace TeraSlab.Cluster

open Foundations

/-- What the vote decision reads of a proposal. -/
structure TopologyTerm (δ ω : Type*) where
  term : Nat
  members : List Nat
  overrideMap : ω
  digest : δ

/-- The functions that make a proposal and vote for it. -/
inductive Producer where
  | onMembershipChanged
  | retryProposal
  | checkTimeout
  | upgradeProposal
  | proposeShrink
  | proposeSameMembersTerm
deriving DecidableEq

def Producer.locks : Producer → Bool
  | .onMembershipChanged => true
  | _ => false

inductive VoteCall (δ ω : Type*) where
  /-- `handle_propose` with the committed term it read -/
  | propose (p : TopologyTerm δ ω) (committed : Nat)
  /-- a producer with the committed term it read -/
  | produce (who : Producer) (committed : Nat)
  /-- a producer without the lock that has derived its term and not stored it -/
  | derived (who : Producer) (term : Nat)
  /-- a producer that has stored its term and not recorded its vote -/
  | stored (who : Producer) (term : Nat)

/-- One node's authority. `backed` are the votes it accepted and the self-votes it recorded, as
term and digest. -/
structure VotingNode (δ ω : Type*) where
  selfId : Nat
  committedTerm : Nat
  votedTerm : Nat
  committedMembers : List Nat
  overrideMap : ω
  calls : List (VoteCall δ ω)
  backed : List (Nat × δ)

inductive VoteInput (δ ω : Type*) where
  | handlePropose (p : TopologyTerm δ ω)
  | produce (who : Producer)
  /-- the next step of a call in flight; `members` and `overrideMap` are those of a proposal of
  this node -/
  | advance (call : Nat) (checks : Bool) (members : List Nat) (overrideMap : ω)
  | commit (term : Nat) (members : List Nat) (overrideMap : ω)

/-- The node has not voted at the term of a producer that is about to store it, or later. -/
def VoteCall.NotOvertaken {δ ω : Type*} (votedTerm : Nat) : VoteCall δ ω → Prop
  | .derived _ term => votedTerm < term
  | _ => True

instance {δ ω : Type*} (votedTerm : Nat) : ∀ c : VoteCall δ ω, Decidable (c.NotOvertaken votedTerm)
  | .derived _ term => inferInstanceAs (Decidable (votedTerm < term))
  | .propose .. => isTrue trivial
  | .produce .. => isTrue trivial
  | .stored .. => isTrue trivial

namespace VotingNode

variable {δ ω : Type*}

/-- The node backs at most one proposal per term. -/
def BacksOne (s : VotingNode δ ω) : Prop :=
  ∀ b ∈ s.backed, ∀ b' ∈ s.backed, b.1 = b'.1 → b.2 = b'.2

instance [DecidableEq δ] (s : VotingNode δ ω) : Decidable s.BacksOne :=
  inferInstanceAs (Decidable (∀ b ∈ _, ∀ b' ∈ _, _ → _))

/-- A producer without the lock stores its term only if the node has not voted at that term or a
later one since the producer loaded `voted_term`. -/
def Unraced (s : VotingNode δ ω) : VoteInput δ ω → Prop
  | .advance call _ _ _ => ∀ c ∈ s.calls[call]?, c.NotOvertaken s.votedTerm
  | _ => True

instance (s : VotingNode δ ω) : ∀ input, Decidable (s.Unraced input)
  | .advance call _ _ _ => inferInstanceAs (Decidable (∀ c ∈ s.calls[call]?, _))
  | .handlePropose _ => isTrue trivial
  | .produce _ => isTrue trivial
  | .commit .. => isTrue trivial

/-! ### The terms taken -/

def claimed : VoteCall δ ω → Option Nat
  | .stored _ term => some term
  | _ => none

/-- The terms the node has backed a proposal at, or is about to. -/
def taken (s : VotingNode δ ω) : List Nat := s.backed.map Prod.fst ++ s.calls.filterMap claimed

structure Inv (s : VotingNode δ ω) : Prop where
  nodup : s.taken.Nodup
  bounded : ∀ t ∈ s.taken, t ≤ s.votedTerm

variable {s s' : VotingNode δ ω}

theorem Inv.backsOne (h : s.Inv) : s.BacksOne := by
  intro b hb b' hb' heq
  have hnodup := (List.nodup_append.mp h.nodup).1
  rw [List.inj_on_of_nodup_map hnodup hb hb' heq]

theorem Inv.of_subperm (h : s.Inv) (hsub : s'.taken.Subperm s.taken)
    (hvoted : s.votedTerm ≤ s'.votedTerm) : s'.Inv where
  nodup := by
    obtain ⟨l, hperm, hl⟩ := hsub
    exact hperm.nodup_iff.mp (h.nodup.sublist hl)
  bounded t ht := (h.bounded t (hsub.subset ht)).trans hvoted

/-- A term past `voted_term` is taken, and `voted_term` moves there. -/
theorem Inv.take (h : s.Inv) {t : Nat} (hsub : s'.taken.Subperm (t :: s.taken))
    (hlt : s.votedTerm < t) (hvoted : s'.votedTerm = t) : s'.Inv := by
  have hnew : t ∉ s.taken := fun hmem => absurd (h.bounded t hmem) (by omega)
  obtain ⟨l, hperm, hl⟩ := hsub
  refine ⟨hperm.nodup_iff.mp ((List.nodup_cons.mpr ⟨hnew, h.nodup⟩).sublist hl), fun u hu => ?_⟩
  rcases List.mem_cons.mp (hl.subset (hperm.mem_iff.mpr hu)) with rfl | hmem
  · exact hvoted.ge
  · exact (h.bounded u hmem).trans (by omega)

/-- A call that steps takes its own term away from those in flight. -/
theorem taken_perm {call : Nat} {c : VoteCall δ ω} (hc : s.calls[call]? = some c) :
    (s.backed.map Prod.fst ++ (c :: s.calls.eraseIdx call).filterMap claimed).Perm s.taken := by
  obtain ⟨hlt, rfl⟩ := List.getElem?_eq_some_iff.mp hc
  exact ((List.getElem_cons_eraseIdx_perm hlt).filterMap claimed).append_left _

/-! ### Steps -/

variable [DecidableEq δ] [DecidableEq ω] {computeDigest : Nat → List Nat → ω → δ}

/-- The vote decision of `handle_propose`. A node in a cluster of its own joins a larger one even
if its committed term is not behind. -/
def accepts (s : VotingNode δ ω) (p : TopologyTerm δ ω) (committed : Nat) : Bool :=
  (committed < p.term && s.votedTerm < p.term) ||
    (1 < p.members.length && (0 < committed && s.committedMembers.length ≤ 1) &&
      p.members.contains s.selfId && s.votedTerm < p.term &&
      !(p.overrideMap ≠ s.overrideMap))

def stepCall (computeDigest : Nat → List Nat → ω → δ) (s : VotingNode δ ω)
    (others : List (VoteCall δ ω)) (checks : Bool) (members : List Nat) (overrideMap : ω) :
    VoteCall δ ω → VotingNode δ ω
  | .propose p committed =>
    let validDigest := p.digest = computeDigest p.term p.members p.overrideMap
    if validDigest ∧ checks = true ∧ s.accepts p committed = true then
      { s with votedTerm := p.term, calls := others, backed := (p.term, p.digest) :: s.backed }
    else { s with calls := others }
  | .produce who committed =>
    if who.locks then
      let newTerm := max s.committedTerm s.votedTerm + 1
      { s with votedTerm := newTerm, calls := .stored who newTerm :: others }
    else { s with calls := .derived who (max committed s.votedTerm + 1) :: others }
  | .derived who term => { s with votedTerm := term, calls := .stored who term :: others }
  | .stored who term =>
    -- a node that shrinks itself away does not vote for that
    if who = .proposeShrink ∧ members.contains s.selfId = false then { s with calls := others }
    else
      { s with
        calls := others
        backed := (term, computeDigest term members overrideMap) :: s.backed }

def step (computeDigest : Nat → List Nat → ω → δ) (s : VotingNode δ ω) :
    VoteInput δ ω → VotingNode δ ω
  | .handlePropose p => { s with calls := .propose p s.committedTerm :: s.calls }
  | .produce who => { s with calls := .produce who s.committedTerm :: s.calls }
  | .advance call checks members overrideMap =>
    match s.calls[call]? with
    | some c =>
      s.stepCall computeDigest (s.calls.eraseIdx call) checks members overrideMap c
    | none => s
  | .commit term members overrideMap =>
    if s.committedTerm < term then
      { s with committedTerm := term, committedMembers := members, overrideMap }
    else s

theorem Inv.stepCall (h : s.Inv) {call : Nat} {c : VoteCall δ ω} (hc : s.calls[call]? = some c)
    (hraced : c.NotOvertaken s.votedTerm) (checks : Bool)
    (members : List Nat) (overrideMap : ω) :
    (s.stepCall computeDigest (s.calls.eraseIdx call) checks members overrideMap c).Inv := by
  have hperm := taken_perm hc
  have hrest : (s.backed.map Prod.fst ++ (s.calls.eraseIdx call).filterMap claimed).Subperm
      s.taken := by
    refine .trans (List.Sublist.subperm ?_) hperm.subperm
    exact List.Sublist.append_left ((List.sublist_cons_self ..).filterMap claimed) _
  cases c with
  | propose p committed =>
    unfold VotingNode.stepCall
    dsimp only
    split_ifs with haccept
    · have hlt : s.votedTerm < p.term := by
        have := haccept.2.2
        simp only [accepts] at this
        grind
      exact h.take ((List.subperm_cons _).mpr hrest) hlt rfl
    · exact h.of_subperm hrest le_rfl
  | produce who committed =>
    unfold VotingNode.stepCall
    dsimp only
    split_ifs
    · refine h.take (t := max s.committedTerm s.votedTerm + 1) ?_ (by omega) rfl
      exact .trans List.perm_middle.subperm ((List.subperm_cons _).mpr hrest)
    · exact h.of_subperm hrest le_rfl
  | derived who term =>
    refine h.take ?_ hraced rfl
    exact .trans List.perm_middle.subperm ((List.subperm_cons _).mpr hrest)
  | stored who term =>
    unfold VotingNode.stepCall
    dsimp only
    split_ifs
    · exact h.of_subperm hrest le_rfl
    · refine h.of_subperm (.trans ?_ hperm.subperm) le_rfl
      exact List.perm_middle.symm.subperm

theorem Inv.step (h : s.Inv) {input : VoteInput δ ω} (hraced : s.Unraced input) :
    (s.step computeDigest input).Inv := by
  cases input with
  | handlePropose | produce => exact h.of_subperm (List.Subperm.refl _) le_rfl
  | advance call checks members overrideMap =>
    unfold VotingNode.step
    dsimp only
    split
    next c hc => exact h.stepCall hc (hraced c hc) checks members overrideMap
    next => exact h
  | commit term members overrideMap =>
    unfold VotingNode.step
    dsimp only
    split_ifs
    · exact h.of_subperm (List.Subperm.refl _) le_rfl
    · exact h

/-- A node that starts with any committed state and any last vote backs one proposal per term in
every run in which no vote overtakes a producer between its load and its store. -/
theorem backsOne_of_unraced (computeDigest : Nat → List Nat → ω → δ)
    (selfId committedTerm votedTerm : Nat) (members : List Nat) (overrideMap : ω)
    (inputs : List (VoteInput δ ω))
    (h : Guarded (step computeDigest) Unraced
      ⟨selfId, committedTerm, votedTerm, members, overrideMap, [], []⟩ inputs) :
    (Foundations.run (step computeDigest)
      ⟨selfId, committedTerm, votedTerm, members, overrideMap, [], []⟩ inputs).BacksOne := by
  have hinit : Inv (⟨selfId, committedTerm, votedTerm, members, overrideMap, [], []⟩ :
      VotingNode δ ω) := ⟨List.nodup_nil, fun _ ht => absurd ht List.not_mem_nil⟩
  exact (Guarded.invariant (I := Inv) (fun _ _ hs hg => hs.step hg) hinit h).backsOne

def listDigest (term : Nat) (members : List Nat) (_ : Unit) : List Nat := term :: members

/-- A retry that runs alone, and a vote at a later term. -/
theorem backsOne_demo :
    (Foundations.run (step listDigest) (⟨1, 1, 1, [1], (), [], []⟩ : VotingNode (List Nat) Unit)
      [.produce .retryProposal, .advance 0 true [1, 2] (), .advance 0 true [1, 2] (),
        .advance 0 true [1, 2] (), .handlePropose ⟨3, [1, 2, 3], (), [3, 1, 2, 3]⟩,
        .advance 0 true [] ()]).BacksOne :=
  backsOne_of_unraced listDigest 1 1 1 [1] () _ (by decide)

/-- A retry loads `voted_term`, the node votes for another proposal at the next term, and the
retry then votes for its own at that term. -/
theorem two_proposals_backed :
    ¬ (Foundations.run (step listDigest) (⟨1, 1, 1, [1], (), [], []⟩ : VotingNode (List Nat) Unit)
      [.produce .retryProposal, .advance 0 true [1, 2] (),
        .handlePropose ⟨2, [1, 2, 3], (), [2, 1, 2, 3]⟩, .advance 0 true [] (),
        .advance 0 true [1, 2] (), .advance 0 true [1, 2] ()]).BacksOne := by decide

end VotingNode

end TeraSlab.Cluster
