import TeraSlab.Foundations.Run
import TeraSlab.Replication.Quorum

/-!
# The recorded ack positions

The `AckTracker` keeps one redo position per replica address, the largest it was told. A send that
is acked records the end of its redo range, and a catch-up pass the last entry that it read from the
redo device. Mutations of clients run at the same time: they journal, send and finish in any order.
-/

namespace TeraSlab.Replication

open Foundations

/-- A redo entry with the targets of its key's fan-out. -/
structure FannedEntry (A : Type*) where
  sequence : Nat
  targets : List A
deriving DecidableEq

inductive Fate where
  | pending
  | succeeded
  | compensated
deriving DecidableEq

/-- A client mutation, with the addresses that acked it so far. -/
structure Mutation (A : Type*) where
  entries : List (FannedEntry A)
  acked : List A
  fate : Fate

/-- A master with its ack tracker and the entries that its redo device holds, and the entries each
replica has applied. -/
structure AckedMaster (A : Type*) where
  nextSequence : Nat
  mutations : List (Mutation A)
  flushed : Nat → Bool
  lastAcked : A → Nat
  applied : A → Nat → Bool

inductive AckStep (A : Type*) where
  | start
  /-- the next redo entry of a mutation -/
  | journal (mutation : Nat) (targets : List A)
  /-- an entry reaches the redo device -/
  | flush (sequence : Nat)
  /-- the send of a mutation to an address ends -/
  | send (mutation : Nat) (addr : A) (ok : Bool)
  /-- the acks of a mutation are judged, after all of its sends -/
  | finish (mutation : Nat)
  /-- a catch-up pass that reads the redo device up to `through`; an entry that cannot be converted
  into an operation, as its record is gone, is passed over -/
  | catchUp (addr : A) (through : Nat) (convertible : Nat → Bool)

namespace Mutation

variable {A : Type*}

def redoHigh (m : Mutation A) : Nat := m.entries.foldr (fun e high => max e.sequence high) 0

def names [DecidableEq A] (m : Mutation A) (addr : A) : Bool :=
  m.entries.any fun e => e.targets.contains addr

theorem redoHigh_lt {m : Mutation A} {bound : Nat} (hpos : 0 < bound)
    (h : ∀ e ∈ m.entries, e.sequence < bound) : m.redoHigh < bound := by
  obtain ⟨entries, acked, fate⟩ := m
  induction entries with
  | nil => exact hpos
  | cons x xs ih =>
    obtain ⟨hx, hxs⟩ := List.forall_mem_cons.mp h
    exact max_lt hx (ih hxs)

end Mutation

namespace AckedMaster

variable {A : Type*} [DecidableEq A]

def recordAck (s : AckedMaster A) (addr : A) (through : Nat) : AckedMaster A :=
  { s with lastAcked := fun a => if a = addr then max (s.lastAcked a) through else s.lastAcked a }

def apply (s : AckedMaster A) (addr : A) (p : Nat → Bool) : AckedMaster A :=
  { s with applied := fun a seq => s.applied a seq || (a = addr && p seq) }

def meetsPolicy (m : Mutation A) (policy : Option AckPolicy) (bestEffort : Bool) : Bool :=
  m.entries.all fun e =>
    match classifyPerKeyReplication e.targets (m.acked.contains ·) policy bestEffort with
    | .failed .. => false
    | _ => true

/-- The entries that a catch-up pass reads. -/
def seen (s : AckedMaster A) (addr : A) (through : Nat) : List Nat :=
  (List.range (through + 1)).filter fun seq => s.lastAcked addr < seq && s.flushed seq

def step (policy : Option AckPolicy) (bestEffort : Bool) (s : AckedMaster A) :
    AckStep A → AckedMaster A
  | .start => { s with mutations := s.mutations ++ [⟨[], [], .pending⟩] }
  | .journal i targets =>
    match s.mutations[i]? with
    | some m =>
      if m.fate = .pending then
        let entry : FannedEntry A := ⟨s.nextSequence, targets⟩
        { s with
          nextSequence := s.nextSequence + 1
          mutations := s.mutations.set i { m with entries := entry :: m.entries } }
      else s
    | none => s
  | .flush seq =>
    if seq < s.nextSequence then
      { s with flushed := fun other => other = seq || s.flushed other }
    else s
  | .send i addr ok =>
    match s.mutations[i]? with
    | some m =>
      if m.fate = .pending ∧ m.names addr ∧ ok then
        let sent := m.entries.filter fun e => e.targets.contains addr
        let s := s.apply addr fun seq => sent.any (·.sequence = seq)
        { s with mutations := s.mutations.set i { m with acked := addr :: m.acked } }.recordAck addr
          m.redoHigh
      else s
    | none => s
  | .finish i =>
    match s.mutations[i]? with
    | some m =>
      if m.fate = .pending then
        let fate := if meetsPolicy m policy bestEffort then .succeeded else .compensated
        { s with mutations := s.mutations.set i { m with fate } }
      else s
    | none => s
  | .catchUp addr through convertible =>
    match (s.seen addr through).getLast? with
    | some last =>
      (s.apply addr fun seq => (s.seen addr through).contains seq && convertible seq).recordAck addr
        last
    | none => s

/-- The entry reached the replica, or its mutation was undone on the master. -/
def Settled (s : AckedMaster A) (m : Mutation A) (e : FannedEntry A) (a : A) : Prop :=
  s.applied a e.sequence = true ∨ m.fate = .compensated

instance (s : AckedMaster A) (m : Mutation A) (e : FannedEntry A) (a : A) :
    Decidable (s.Settled m e a) := inferInstanceAs (Decidable (_ ∨ _))

/-- What lies at or below the recorded position of an address is settled there. -/
def Truthful (s : AckedMaster A) : Prop :=
  ∀ m ∈ s.mutations, ∀ e ∈ m.entries, ∀ a ∈ e.targets, e.sequence ≤ s.lastAcked a → s.Settled m e a

instance (s : AckedMaster A) : Decidable s.Truthful :=
  inferInstanceAs (Decidable (∀ m ∈ _, ∀ e ∈ _, ∀ a ∈ _, _ → _))

/-- Mutations take turns at an address: each starts there when the others that name it are over, and
are undone or have been recorded. A catch-up pass reads and converts all entries that name its
address, up to the last entry that it reads, but for those undone. -/
def InTurn (s : AckedMaster A) : AckStep A → Prop
  | .journal i targets => ∀ a ∈ targets, ∀ m ∈ s.mutations.eraseIdx i, m.names a →
      m.fate = .compensated ∨ m.fate = .succeeded ∧
        ∀ e ∈ m.entries, a ∈ e.targets → e.sequence ≤ s.lastAcked a
  | .catchUp addr through convertible => ∀ last ∈ (s.seen addr through).getLast?,
      ∀ m ∈ s.mutations, ∀ e ∈ m.entries, addr ∈ e.targets → s.lastAcked addr < e.sequence →
        e.sequence ≤ last → m.fate = .compensated ∨ s.flushed e.sequence ∧ convertible e.sequence
  | _ => True

instance (s : AckedMaster A) : ∀ input, Decidable (s.InTurn input)
  | .journal .. => inferInstanceAs (Decidable (∀ a ∈ _, ∀ m ∈ _, _ → _))
  | .catchUp .. => inferInstanceAs (Decidable (∀ last ∈ _, ∀ m ∈ _, ∀ e ∈ _, _ → _ → _ → _))
  | .start => isTrue trivial
  | .flush _ => isTrue trivial
  | .send .. => isTrue trivial
  | .finish _ => isTrue trivial

/-! ### Steps -/

/-- The log bounds the entries and the recorded positions, and where a pending mutation names an
address, the others are settled. -/
structure Inv (s : AckedMaster A) : Prop where
  truthful : s.Truthful
  entries_lt : ∀ m ∈ s.mutations, ∀ e ∈ m.entries, e.sequence < s.nextSequence
  flushed_lt : ∀ seq, s.flushed seq → seq < s.nextSequence
  acked_lt : ∀ a, s.lastAcked a < s.nextSequence
  alone : ∀ {i j : Nat} {m m' : Mutation A}, s.mutations[i]? = some m →
    s.mutations[j]? = some m' → i ≠ j → m.fate = .pending → ∀ a, m.names a →
    ∀ e ∈ m'.entries, a ∈ e.targets → s.Settled m' e a

/-- A step that journals nothing: mutations only go on, and replicas only gain entries. -/
structure Advances (s s' : AckedMaster A) : Prop where
  nextSequence : s'.nextSequence = s.nextSequence
  applied : ∀ a seq, s.applied a seq → s'.applied a seq
  mutations : ∀ (j : Nat) (m' : Mutation A), s'.mutations[j]? = some m' →
    ∃ m : Mutation A, s.mutations[j]? = some m ∧ m.entries = m'.entries ∧
      (m'.fate = .pending → m.fate = .pending) ∧
      (m.fate = .compensated → m'.fate = .compensated)

variable {s s' : AckedMaster A}

omit [DecidableEq A] in
theorem Advances.of_set {i : Nat} {m m₁ : Mutation A} (hm : s.mutations[i]? = some m)
    (hmutations : s'.mutations = s.mutations.set i m₁) (hentries : m.entries = m₁.entries)
    (hpending : m.fate = .pending) (hnext : s'.nextSequence = s.nextSequence)
    (happlied : ∀ a seq, s.applied a seq → s'.applied a seq) : Advances s s' := by
  refine ⟨hnext, happlied, fun j m' hm' => ?_⟩
  rw [hmutations, List.getElem?_set] at hm'
  split_ifs at hm' with hij hlt
  · subst hij
    cases hm'
    exact ⟨m, hm, hentries, fun _ => hpending, fun hcomp => by simp [hpending] at hcomp⟩
  · exact ⟨m', hm', rfl, id, id⟩

omit [DecidableEq A] in
theorem Advances.of_mutations (hnext : s'.nextSequence = s.nextSequence)
    (happlied : ∀ a seq, s.applied a seq → s'.applied a seq)
    (hmutations : s'.mutations = s.mutations) : Advances s s' :=
  ⟨hnext, happlied, fun _ m' hm' => ⟨m', hmutations ▸ hm', rfl, id, id⟩⟩

/-- Such a step has to answer only for the entries that it passes. -/
theorem Inv.advance (h : s.Inv) (hadv : Advances s s')
    (hflushed : ∀ seq, s'.flushed seq → seq < s.nextSequence)
    (hacked : ∀ a, s'.lastAcked a < s.nextSequence)
    (hnew : ∀ (j : Nat) (m : Mutation A), s.mutations[j]? = some m →
      ∀ e ∈ m.entries, ∀ a ∈ e.targets,
      s.lastAcked a < e.sequence → e.sequence ≤ s'.lastAcked a →
        s'.applied a e.sequence ∨ m.fate = .compensated) : s'.Inv := by
  have hnames : ∀ {m m' : Mutation A}, m.entries = m'.entries → ∀ a, m.names a = m'.names a :=
    fun hentries a => by rw [Mutation.names, Mutation.names, hentries]
  refine ⟨fun m' hm' e he a ha hle => ?_, fun m' hm' e he => ?_, hadv.nextSequence ▸ hflushed,
    hadv.nextSequence ▸ hacked, fun {i j m m'} hi hj hij hpending a hname e he ha => ?_⟩
  · obtain ⟨j, hj⟩ := List.getElem?_of_mem hm'
    obtain ⟨m, hm, hentries, -, hcomp⟩ := hadv.mutations j m' hj
    rw [← hentries] at he
    refine Or.imp_right hcomp ?_
    by_cases hold : e.sequence ≤ s.lastAcked a
    · exact (h.truthful m (List.mem_of_getElem? hm) e he a ha hold).imp_left (hadv.applied a _)
    · exact hnew j m hm e he a ha (not_le.mp hold) hle
  · obtain ⟨j, hj⟩ := List.getElem?_of_mem hm'
    obtain ⟨m, hm, hentries, -⟩ := hadv.mutations j m' hj
    rw [hadv.nextSequence]
    exact h.entries_lt m (List.mem_of_getElem? hm) e (hentries ▸ he)
  · obtain ⟨m₀, hm₀, hentries, hpend, -⟩ := hadv.mutations i m hi
    obtain ⟨m₀', hm₀', hentries', -, hcomp⟩ := hadv.mutations j m' hj
    have hsettled := h.alone hm₀ hm₀' hij (hpend hpending) a (hnames hentries a ▸ hname) e
      (hentries' ▸ he) ha
    exact hsettled.imp (hadv.applied a _) hcomp

theorem applied_apply (s : AckedMaster A) (addr : A) (p : Nat → Bool) (a : A) (seq : Nat)
    (h : s.applied a seq) : (s.apply addr p).applied a seq := by
  simp [apply, h]

/-- The recorded positions after an ack. -/
theorem lastAcked_recordAck {addr a : A} {through seq : Nat} (hlt : s.lastAcked a < seq)
    (hle : seq ≤ (s.recordAck addr through).lastAcked a) : a = addr ∧ seq ≤ through := by
  simp only [recordAck] at hle
  split_ifs at hle with haddr
  · exact ⟨haddr, by omega⟩
  · omega

theorem Inv.recordAck_lt (h : s.Inv) {addr : A} {through : Nat} (hlt : through < s.nextSequence)
    (a : A) : (s.recordAck addr through).lastAcked a < s.nextSequence := by
  have hold := h.acked_lt a
  simp only [recordAck]
  split_ifs
  · exact max_lt hold hlt
  · exact hold

/-- The mutation reaches the address alone: what the ack passes there is settled, or its own. -/
theorem Inv.send (h : s.Inv) {i : Nat} {m : Mutation A} (hm : s.mutations[i]? = some m)
    (hpending : m.fate = .pending) {addr : A} (hname : m.names addr) :
    (recordAck { s.apply addr fun seq =>
        (m.entries.filter fun e => e.targets.contains addr).any (·.sequence = seq) with
      mutations := s.mutations.set i { m with acked := addr :: m.acked } }
        addr m.redoHigh).Inv := by
  have hhigh := Mutation.redoHigh_lt (Nat.zero_lt_of_lt (h.acked_lt addr))
    (h.entries_lt m (List.mem_of_getElem? hm))
  refine h.advance (.of_set hm rfl rfl hpending rfl (applied_apply s addr _)) h.flushed_lt
    (h.recordAck_lt hhigh) fun j m' hm' e he a ha hlt hle => ?_
  obtain ⟨rfl, -⟩ := lastAcked_recordAck hlt hle
  by_cases hij : i = j
  · subst hij
    cases hm.symm.trans hm'
    refine .inl ?_
    simp only [recordAck, apply, Bool.or_eq_true, Bool.and_eq_true, List.any_eq_true]
    exact .inr ⟨by simp, e, by simpa using ⟨he, ha⟩, by simp⟩
  · exact (h.alone hm hm' hij hpending a hname e he ha).imp_left fun happlied => by
      simp [recordAck, apply, happlied]

omit [DecidableEq A] in
theorem mem_seen {addr : A} {through seq : Nat} :
    seq ∈ s.seen addr through ↔ seq ≤ through ∧ s.lastAcked addr < seq ∧ s.flushed seq := by
  simp [seen]

theorem Inv.catchUp (h : s.Inv) {addr : A} {through last : Nat} {convertible : Nat → Bool}
    (hlast : (s.seen addr through).getLast? = some last)
    (hreads : s.InTurn (.catchUp addr through convertible)) :
    ((s.apply addr fun seq => (s.seen addr through).contains seq && convertible seq).recordAck addr
      last).Inv := by
  obtain ⟨hthrough, -, hflushed⟩ := mem_seen.mp (List.mem_of_getLast? hlast)
  refine h.advance (.of_mutations rfl (applied_apply s addr _) rfl) h.flushed_lt
    (h.recordAck_lt (h.flushed_lt last hflushed)) fun j m hm e he a ha hlt hle => ?_
  obtain ⟨rfl, hpassed⟩ := lastAcked_recordAck hlt hle
  refine (hreads last hlast m (List.mem_of_getElem? hm) e he ha hlt hpassed).symm.imp_left ?_
  rintro ⟨hf, hc⟩
  have hread := mem_seen.mpr ⟨hpassed.trans hthrough, hlt, hf⟩
  simp [recordAck, apply, hread, hc]

theorem Inv.journal (h : s.Inv) {i : Nat} {m : Mutation A} (hm : s.mutations[i]? = some m)
    {targets : List A} (hturn : s.InTurn (.journal i targets)) :
    Inv { s with
      nextSequence := s.nextSequence + 1
      mutations := s.mutations.set i
        { m with entries := ⟨s.nextSequence, targets⟩ :: m.entries } } := by
  have hmem := List.mem_of_getElem? hm
  obtain ⟨hlt, -⟩ := List.getElem?_eq_some_iff.mp hm
  have hothers : ∀ {j : Nat} {m' : Mutation A}, s.mutations[j]? = some m' → i ≠ j →
      m' ∈ s.mutations.eraseIdx i := fun hm' hij =>
    List.mem_eraseIdx_iff_getElem?.mpr ⟨_, hij.symm, hm'⟩
  refine ⟨fun m' hm' e he a ha hle => ?_, fun m' hm' e he => ?_, fun seq hf => ?_, fun a => ?_,
    fun {k j m₁ m₂} hk hj hkj hpending a hname e he ha => ?_⟩
  · rcases List.mem_or_eq_of_mem_set hm' with hm' | rfl
    · exact h.truthful m' hm' e he a ha hle
    rcases List.mem_cons.mp he with rfl | he
    · exact absurd hle (not_le.mpr (h.acked_lt a))
    · exact h.truthful m hmem e he a ha hle
  · rcases List.mem_or_eq_of_mem_set hm' with hm' | rfl
    · exact (h.entries_lt m' hm' e he).trans (Nat.lt_succ_self _)
    rcases List.mem_cons.mp he with rfl | he
    · exact Nat.lt_succ_self _
    · exact (h.entries_lt m hmem e he).trans (Nat.lt_succ_self _)
  · exact (h.flushed_lt seq hf).trans (Nat.lt_succ_self _)
  · exact (h.acked_lt a).trans (Nat.lt_succ_self _)
  · dsimp only at hk hj
    by_cases hik : i = k
    · -- the mutation itself is pending; at an address that the new entry names it has its turn
      subst hik
      rw [List.getElem?_set_self hlt] at hk
      rw [List.getElem?_set_ne hkj] at hj
      cases hk
      simp only [Mutation.names, List.any_cons, Bool.or_eq_true, List.contains_iff_mem] at hname
      rcases hname with hnew | hname
      · have hm₂ : m₂.names a := List.any_eq_true.mpr ⟨e, he, by simpa using ha⟩
        rcases hturn a hnew m₂ (hothers hj hkj) hm₂ with hcomp | ⟨-, hrecorded⟩
        · exact .inr hcomp
        · exact h.truthful m₂ (List.mem_of_getElem? hj) e he a ha (hrecorded e he ha)
      · exact h.alone hm hj hkj hpending a hname e he ha
    rw [List.getElem?_set_ne hik] at hk
    by_cases hij : i = j
    · -- another mutation is pending there, so the new entry does not name the address
      subst hij
      rw [List.getElem?_set_self hlt] at hj
      cases hj
      rcases List.mem_cons.mp he with rfl | he
      · rcases hturn a ha m₁ (hothers hk hkj.symm) hname with hcomp | ⟨hdone, -⟩
        · simp [hpending] at hcomp
        · simp [hpending] at hdone
      · exact h.alone hk hm hkj hpending a hname e he ha
    · rw [List.getElem?_set_ne hij] at hj
      exact h.alone hk hj hkj hpending a hname e he ha

theorem Inv.start (h : s.Inv) :
    Inv { s with mutations := s.mutations ++ [⟨[], [], .pending⟩] } := by
  have hcases : ∀ {m : Mutation A}, m ∈ s.mutations ++ [⟨[], [], .pending⟩] → ∀ e ∈ m.entries,
      m ∈ s.mutations := by
    intro m hm e he
    rcases List.mem_append.mp hm with hm | hm
    · exact hm
    · simp [List.mem_singleton.mp hm] at he
  refine ⟨fun m hm e he => h.truthful m (hcases hm e he) e he,
    fun m hm e he => h.entries_lt m (hcases hm e he) e he, h.flushed_lt, h.acked_lt,
    fun {i j m m'} hi hj hij hpending a hname e he => ?_⟩
  obtain ⟨e₀, he₀, -⟩ := List.any_eq_true.mp hname
  simp only [List.getElem?_append, List.getElem?_singleton] at hi hj
  split_ifs at hi hj
  · exact h.alone hi hj hij hpending a hname e he
  · cases hj
    cases he
  · cases hi
    cases he₀
  · cases hi
    cases he₀

theorem Inv.step (h : s.Inv) (policy : Option AckPolicy) (bestEffort : Bool) {input : AckStep A}
    (hturn : s.InTurn input) : (s.step policy bestEffort input).Inv := by
  unfold AckedMaster.step
  cases input with
  | start => exact h.start
  | journal i targets =>
    dsimp only
    split
    next m hm =>
      split_ifs
      · exact h.journal hm hturn
      · exact h
    next => exact h
  | flush seq =>
    dsimp only
    split_ifs with hlt
    · refine h.advance (.of_mutations rfl (fun _ _ => id) rfl) (fun other hf => ?_) h.acked_lt
        fun j m _ e _ a _ hnew hle => absurd hle (not_le.mpr hnew)
      rcases Bool.or_eq_true_iff.mp hf with heq | hf
      · exact of_decide_eq_true heq ▸ hlt
      · exact h.flushed_lt other hf
    · exact h
  | send i addr ok =>
    dsimp only
    split
    next m hm =>
      split_ifs with hsend
      · exact h.send hm hsend.1 hsend.2.1
      · exact h
    next => exact h
  | finish i =>
    dsimp only
    split
    next m hm =>
      split_ifs with hpending
      all_goals first
        | exact h.advance (.of_set hm rfl rfl hpending rfl fun _ _ => id) h.flushed_lt h.acked_lt
            fun j m _ e _ a _ hnew hle => absurd hle (not_le.mpr hnew)
        | exact h
    next => exact h
  | catchUp addr through convertible =>
    dsimp only
    split
    next last hlast => exact h.catchUp hlast hturn
    next => exact h

def init : AckedMaster A := ⟨1, [], fun _ => false, fun _ => 0, fun _ _ => false⟩

/-- The recorded positions are truthful in every run in which mutations take turns at an address and
catch-up passes leave out nothing that names theirs. -/
theorem truthful_of_inTurn (policy : Option AckPolicy) (bestEffort : Bool)
    (inputs : List (AckStep A))
    (h : Guarded (AckedMaster.step policy bestEffort) InTurn (init : AckedMaster A) inputs) :
    (Foundations.run (AckedMaster.step policy bestEffort) init inputs).Truthful := by
  have hinit : (init : AckedMaster A).Inv := by
    constructor <;> simp [init, Truthful]
  exact (Guarded.invariant (I := Inv) (fun _ _ hs hg => hs.step policy bestEffort hg) hinit
    h).truthful

/-- The first mutation succeeds by majority without address 7, which a catch-up pass brings up to
date before the second one is sent there. -/
theorem truthful_demo :
    (Foundations.run (AckedMaster.step (some .writeMajority) false) (init : AckedMaster Nat)
      [.start, .journal 0 [7, 8], .send 0 7 false, .send 0 8 true, .flush 1, .finish 0,
        .catchUp 7 5 (fun _ => true), .start, .journal 1 [7, 8], .journal 1 [8], .send 1 7 true,
        .send 1 8 true, .finish 1]).Truthful :=
  truthful_of_inTurn (some .writeMajority) false _ (by decide)

/-- Without the pass the second mutation is acked at address 7, and the recorded position passes the
entry that never got there. A pass that reads past an entry it cannot convert does the same. -/
theorem missed_entry_passed :
    ¬ (Foundations.run (AckedMaster.step (some .writeMajority) false) (init : AckedMaster Nat)
        [.start, .journal 0 [7, 8], .send 0 7 false, .send 0 8 true, .finish 0, .start,
          .journal 1 [7, 8], .send 1 7 true]).Truthful ∧
      ¬ (Foundations.run (AckedMaster.step (some .writeMajority) false) (init : AckedMaster Nat)
        [.start, .journal 0 [7, 8], .send 0 7 false, .send 0 8 true, .flush 1, .finish 0,
          .catchUp 7 5 (fun _ => false)]).Truthful := by
  decide

end AckedMaster

end TeraSlab.Replication
