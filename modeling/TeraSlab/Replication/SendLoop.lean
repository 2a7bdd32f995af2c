import TeraSlab.Foundations.Run

/-!
# Sending operations to a replica

A master numbers the operations that it sends to a replica, and the replica keeps the highest number
that it has applied. The replica answers a batch at or below that watermark without applying it,
refuses a batch that starts beyond the next number, and leaves out the operations of a batch that
are at or below the watermark. When an exchange fails the master gives up the numbers of the batch,
since the replica may have applied it; when the replica reports a gap the master labels the batch
anew with the number that the replica expects.

A batch whose exchange failed may still reach the replica, on its old connection and while another
batch is on its way. A gap makes the master use the numbers of such a batch again. If the old batch
is then applied first, the replica takes the new one for a duplicate: the send succeeds, and its
operations are not applied. Sends are sound as long as the watermark has not moved in between the
numbers of a batch when the batch that the master waits for arrives.

Migration batches and batches outside of the numbering are left out.
-/

namespace TeraSlab.Replication

open Foundations

variable {Op : Type}

/-- A batch of the stream, with the call of the master that it was sent by. -/
structure ReplicaBatch (Op : Type) where
  call : Nat
  firstSequence : Nat
  ops : List Op
deriving DecidableEq

inductive ReplicaAck where
  | ok (throughSequence : Nat)
  | gap (expectedSequence receivedFirstSequence : Nat)
  | busy (firstSequence : Nat)
  | error (failedSequence : Nat)
  | missingRecord (failedSequence : Nat)
deriving DecidableEq

inductive ApplyOutcome where
  | applied
  /-- The watermark moved, but could not be written. -/
  | trackerFailed
  | failed (index : Nat)
  | missing (index : Nat)
  | logFull
deriving DecidableEq

inductive Admission where
  | answer (ack : ReplicaAck)
  | apply (skipCount : Nat)
deriving DecidableEq

namespace ReplicaBatch

variable (b : ReplicaBatch Op)

def lastSequence : Nat := b.firstSequence + (b.ops.length - 1)

def admission (alreadyApplied : Nat) : Admission :=
  if b.ops.isEmpty then .answer (.ok alreadyApplied)
  else if b.lastSequence ≤ alreadyApplied then .answer (.ok alreadyApplied)
  else if alreadyApplied + 1 < b.firstSequence then
    .answer (.gap (alreadyApplied + 1) b.firstSequence)
  else if b.firstSequence ≤ alreadyApplied then
    .apply (alreadyApplied + 1 - b.firstSequence)
  else .apply 0

def applyAck : ApplyOutcome → ReplicaAck
  | .applied => .ok b.lastSequence
  | .trackerFailed => .error b.lastSequence
  | .failed index => .error (b.firstSequence + index)
  | .missing index => .missingRecord (b.firstSequence + index)
  | .logFull => .busy b.firstSequence

end ReplicaBatch

inductive SendStage where
  | ready
  | sent
  | applying (skipCount : Nat)
  | answered (ack : ReplicaAck)
deriving DecidableEq

/-- A call of the master that has not returned. -/
structure Sending (Op : Type) where
  call : Nat
  ops : List Op
  next : Nat
  probing : Bool
  renegAttempts : Nat
  busyRetries : Nat
  stage : SendStage
deriving DecidableEq

/-- The batch that the call sends: an empty one to learn the watermark, or the operations. -/
def Sending.batch (m : Sending Op) : ReplicaBatch Op :=
  if m.probing then ⟨m.call, 0, []⟩ else ⟨m.call, m.next, m.ops⟩

def maxSequenceRenegotiations : Nat := 2

def maxBusyRetries : Nat := 4

/-- One master and one replica. A batch that was left behind has its skip count once the replica
applies it. -/
structure ReplicaStream (Op : Type) where
  nextSequence : Option Nat
  calls : Nat
  sending : Option (Sending Op)
  left : List (ReplicaBatch Op × Option Nat)
  watermark : Nat
  /-- The batches that were applied, each with the number of operations left out. -/
  applied : List (ReplicaBatch Op × Nat)
  /-- The calls that returned success, with their operations. -/
  succeeded : List (Nat × List Op)
deriving DecidableEq

inductive StreamInput (Op : Type) where
  | call (ops : List Op)
  | send
  /-- A write failed and was repeated on a new connection. -/
  | resend
  | arrive
  | finish (outcome : ApplyOutcome)
  | receive
  /-- The exchange fails: no connection, no answer in time, or a refusal. -/
  | fail
  | arriveLate (i : Nat)
  | finishLate (i : Nat) (outcome : ApplyOutcome)

namespace ReplicaStream

variable (s : ReplicaStream Op)

def start (watermark : Nat) : ReplicaStream Op := ⟨none, 0, none, [], watermark, [], []⟩

/-- The replica's state after the application of a batch. The watermark does not go back. -/
def complete (b : ReplicaBatch Op) (skipCount : Nat) : ApplyOutcome → ReplicaStream Op
  | .applied | .trackerFailed =>
    { s with
      watermark := max s.watermark b.lastSequence
      applied := (b, skipCount) :: s.applied }
  | .failed _ | .missing _ | .logFull => s

/-- The call returns an error. The numbers of its batch are given up. -/
def burn (m : Sending Op) : ReplicaStream Op :=
  { s with nextSequence := some (m.batch.lastSequence + 1), sending := none }

/-- Label the batch anew, or return an error when that was tried before. -/
def renegotiate (m : Sending Op) (next : Nat) : ReplicaStream Op :=
  if maxSequenceRenegotiations ≤ m.renegAttempts + 1 then { s with sending := none }
  else
    { s with
      nextSequence := some next
      sending := some { m with next, renegAttempts := m.renegAttempts + 1, stage := .ready } }

def react (m : Sending Op) (ack : ReplicaAck) : ReplicaStream Op :=
  if m.probing then
    match ack with
    | .ok throughSequence =>
      { s with
        nextSequence := some (throughSequence + 1)
        sending := some { m with next := throughSequence + 1, probing := false, stage := .ready } }
    | _ => { s with sending := none }
  else
    match ack with
    | .ok throughSequence =>
      if throughSequence = m.batch.lastSequence then
        { s with
          nextSequence := some (m.batch.lastSequence + 1)
          sending := none
          succeeded := (m.call, m.ops) :: s.succeeded }
      else s.renegotiate m (throughSequence + 1)
    | .gap expectedSequence _ => s.renegotiate m expectedSequence
    | .busy _ =>
      if maxBusyRetries ≤ m.busyRetries then s.burn m
      else { s with sending := some { m with busyRetries := m.busyRetries + 1, stage := .ready } }
    | .error _ | .missingRecord _ => s.burn m

/-- The exchange of a call fails. What the replica has of the batch, or may yet get, is left. -/
def abandon (m : Sending Op) : ReplicaStream Op :=
  let s := if m.probing then { s with sending := none } else s.burn m
  match m.stage with
  | .sent => { s with left := s.left ++ [(m.batch, none)] }
  | .applying skipCount => { s with left := s.left ++ [(m.batch, some skipCount)] }
  | .ready | .answered _ => s

def step (s : ReplicaStream Op) : StreamInput Op → ReplicaStream Op
  | .call ops =>
    match s.sending with
    | some _ => s
    | none =>
      { s with
        calls := s.calls + 1
        sending := some ⟨s.calls, ops, s.nextSequence.getD 0, s.nextSequence.isNone, 0, 0,
          .ready⟩ }
  | .send =>
    match s.sending with
    | some m => if m.stage = .ready then { s with sending := some { m with stage := .sent } } else s
    | none => s
  | .resend =>
    match s.sending with
    | some m => if m.stage = .sent then { s with left := s.left ++ [(m.batch, none)] } else s
    | none => s
  | .arrive =>
    match s.sending with
    | some m =>
      if m.stage = .sent then
        match m.batch.admission s.watermark with
        | .answer ack => { s with sending := some { m with stage := .answered ack } }
        | .apply skipCount => { s with sending := some { m with stage := .applying skipCount } }
      else s
    | none => s
  | .finish outcome =>
    match s.sending with
    | some m =>
      match m.stage with
      | .applying skipCount =>
        { s.complete m.batch skipCount outcome with
          sending := some { m with stage := .answered (m.batch.applyAck outcome) } }
      | _ => s
    | none => s
  | .receive =>
    match s.sending with
    | some m =>
      match m.stage with
      | .answered ack => s.react m ack
      | _ => s
    | none => s
  | .fail =>
    match s.sending with
    | some m => s.abandon m
    | none => s
  | .arriveLate i =>
    match s.left[i]? with
    | some (b, none) =>
      match b.admission s.watermark with
      | .answer _ => { s with left := s.left.eraseIdx i }
      | .apply skipCount => { s with left := s.left.set i (b, some skipCount) }
    | _ => s
  | .finishLate i outcome =>
    match s.left[i]? with
    | some (b, some skipCount) =>
      { s.complete b skipCount outcome with left := s.left.eraseIdx i }
    | _ => s

/-- Every operation of the call was handled in some batch. -/
def Handled (applied : List (ReplicaBatch Op × Nat)) (call : Nat) (ops : List Op) : Prop :=
  ∀ i < ops.length, ∃ a ∈ applied, a.1.call = call ∧ a.1.ops = ops ∧ a.2 ≤ i

/-- Every operation of every call that returned success was handled. -/
def SendsApplied : Prop := ∀ c ∈ s.succeeded, Handled s.applied c.1 c.2

/-- When the batch that the master waits for arrives, the watermark is below its numbers or beyond
them, or a copy of the batch was applied whole. -/
def Clear (s : ReplicaStream Op) : StreamInput Op → Prop
  | .arrive => ∀ m ∈ s.sending, m.stage = .sent →
    m.batch.ops = [] ∨ s.watermark < m.batch.firstSequence ∨
      m.batch.lastSequence < s.watermark ∨ (m.batch, 0) ∈ s.applied
  | _ => True

variable {s} {b : ReplicaBatch Op} {w : Nat} {applied : List (ReplicaBatch Op × Nat)}

/-! ### Success means applied -/

theorem Handled.mono {applied' : List (ReplicaBatch Op × Nat)} {call : Nat} {ops : List Op}
    (h : Handled applied call ops) (hsub : applied ⊆ applied') : Handled applied' call ops := by
  intro i hi
  obtain ⟨a, ha, hrest⟩ := h i hi
  exact ⟨a, hsub ha, hrest⟩

section

variable (b) (skipCount : Nat) (outcome : ApplyOutcome)

theorem subset_applied_complete : s.applied ⊆ (s.complete b skipCount outcome).applied := by
  cases outcome <;> simp [complete]

@[simp] theorem succeeded_complete : (s.complete b skipCount outcome).succeeded = s.succeeded := by
  cases outcome <;> rfl

end

/-- The operations of a batch are handled when it is applied whole. -/
theorem handled_of_mem {m : Sending Op} (hprobe : m.probing = false)
    (hmem : (m.batch, 0) ∈ applied) :
    Handled applied m.call m.ops := by
  have hbatch : m.batch = ⟨m.call, m.next, m.ops⟩ := by simp [Sending.batch, hprobe]
  intro i _
  exact ⟨_, hmem, by rw [hbatch], by rw [hbatch], Nat.zero_le i⟩

/-- What holds of the call in progress: a batch that is being applied leaves nothing out unless a
copy was applied whole, and an answer that will be taken for success is one. -/
structure Sound (s : ReplicaStream Op) : Prop where
  sendsApplied : s.SendsApplied
  applying : ∀ m ∈ s.sending, ∀ k, m.stage = .applying k → k = 0 ∨ (m.batch, 0) ∈ s.applied
  answered : ∀ m ∈ s.sending, m.probing = false →
    m.stage = .answered (.ok m.batch.lastSequence) → Handled s.applied m.call m.ops

theorem sound_start (watermark : Nat) : (start watermark : ReplicaStream Op).Sound := by
  constructor <;> simp [start, SendsApplied]

/-- A step that answers nothing keeps what holds. -/
theorem Sound.of_waiting {s' : ReplicaStream Op} (h : s.Sound)
    (hsucc : s'.succeeded = s.succeeded) (hsub : s.applied ⊆ s'.applied)
    (hsend : ∀ m ∈ s'.sending, m.stage = .ready ∨ m.stage = .sent ∨ m ∈ s.sending) :
    s'.Sound := by
  refine ⟨fun c hc => ?_, fun m hm k hk => ?_, fun m hm hprobe hans => ?_⟩
  · rw [hsucc] at hc
    exact (h.sendsApplied c hc).mono hsub
  · rcases hsend m hm with hready | hsent | hold
    · simp [hready] at hk
    · simp [hsent] at hk
    · exact (h.applying m hold k hk).imp_right (hsub ·)
  · rcases hsend m hm with hready | hsent | hold
    · simp [hready] at hans
    · simp [hsent] at hans
    · exact (h.answered m hold hprobe hans).mono hsub

/-- A batch above the watermark is not taken for a duplicate. -/
theorem admission_below (hops : b.ops ≠ []) (hlt : w < b.firstSequence) : b.admission w =
      if w + 1 < b.firstSequence then .answer (.gap (w + 1) b.firstSequence) else .apply 0 := by
  have hfirst : b.firstSequence ≤ b.lastSequence := Nat.le_add_right ..
  unfold ReplicaBatch.admission
  rw [if_neg (by simpa using hops), if_neg (by omega)]
  split_ifs
  · rfl
  · omega
  · rfl

/-- A batch whose numbers are all passed is answered with the watermark. -/
theorem admission_past (hlt : b.lastSequence < w) : b.admission w = .answer (.ok w) := by
  unfold ReplicaBatch.admission
  split_ifs
  · rfl
  · rfl
  all_goals omega

/-- What the arrival of a batch at a clear watermark comes to. -/
theorem admission_clear {m : Sending Op} (hprobe : m.probing = false)
    (hclear : m.batch.ops = [] ∨ s.watermark < m.batch.firstSequence ∨
      m.batch.lastSequence < s.watermark ∨ (m.batch, 0) ∈ s.applied) :
    (∀ k, m.batch.admission s.watermark = .apply k → k = 0 ∨ (m.batch, 0) ∈ s.applied) ∧
      (m.batch.admission s.watermark = .answer (.ok m.batch.lastSequence) →
        Handled s.applied m.call m.ops) := by
  by_cases hnil : m.batch.ops = []
  · have hops : m.ops = [] := by simpa [Sending.batch, hprobe] using hnil
    refine ⟨fun k hk => ?_, fun _ => by simp [Handled, hops]⟩
    simp [ReplicaBatch.admission, hnil] at hk
  rcases hclear.resolve_left hnil with hbelow | hpast | hcopy
  · rw [admission_below hnil hbelow]
    split_ifs
    · simp
    · simp
  · rw [admission_past hpast]
    refine ⟨by simp, fun hans => ?_⟩
    simp only [Admission.answer.injEq, ReplicaAck.ok.injEq] at hans
    omega
  · exact ⟨fun _ _ => .inr hcopy, fun _ => handled_of_mem hprobe hcopy⟩

section

variable (h : s.Sound) {m : Sending Op} (hm : m ∈ s.sending)
include h hm

theorem Sound.arrive (hsent : m.stage = .sent)
    (hclear : s.Clear .arrive) : (s.step .arrive).Sound := by
  have hclear := hclear m hm hsent
  have hstep : s.step .arrive = match m.batch.admission s.watermark with
      | .answer ack => { s with sending := some { m with stage := .answered ack } }
      | .apply skipCount => { s with sending := some { m with stage := .applying skipCount } } := by
    simp only [step, Option.mem_def.mp hm, hsent, if_true]
  rw [hstep]
  match hadm : m.batch.admission s.watermark with
  | .answer ack =>
    refine ⟨h.sendsApplied, by simp, ?_⟩
    intro m' hm' hprobe hans
    obtain rfl := Option.some.inj hm'
    simp only [SendStage.answered.injEq] at hans
    exact (admission_clear (m := m) hprobe hclear).2 (hans ▸ hadm)
  | .apply skipCount =>
    refine ⟨h.sendsApplied, ?_, by simp⟩
    intro m' hm' k hk
    obtain rfl := Option.some.inj hm'
    obtain rfl := SendStage.applying.inj hk
    have hprobe : m.probing = false := by
      by_contra hprobe
      rw [Bool.not_eq_false] at hprobe
      simp [ReplicaBatch.admission, Sending.batch, hprobe] at hadm
    exact (admission_clear hprobe hclear).1 _ hadm

/-- An application that ends keeps what holds: an answer of success has applied the batch. -/
theorem Sound.finish {k : Nat}
    (hstage : m.stage = .applying k) (outcome : ApplyOutcome) :
    (s.step (.finish outcome)).Sound := by
  have hstep : s.step (.finish outcome) = { s.complete m.batch k outcome with
      sending := some { m with stage := .answered (m.batch.applyAck outcome) } } := by
    simp only [step, Option.mem_def.mp hm, hstage]
  have hsub : s.applied ⊆ (s.complete m.batch k outcome).applied :=
    subset_applied_complete m.batch k outcome
  rw [hstep]
  refine ⟨fun c hc => ?_, by simp, ?_⟩
  · exact (h.sendsApplied c (by simpa using hc)).mono hsub
  intro m' hm' hprobe hans
  obtain rfl := Option.some.inj hm'
  have hdone : outcome = .applied := by cases outcome <;> simp_all [ReplicaBatch.applyAck]
  have hcopy : (m.batch, 0) ∈ (s.complete m.batch k outcome).applied := by
    rcases h.applying m hm k hstage with rfl | hmem
    · rw [hdone]
      exact List.mem_cons_self
    · exact hsub hmem
  exact handled_of_mem (m := m) hprobe hcopy

theorem Sound.receive {ack : ReplicaAck}
    (hstage : m.stage = .answered ack) : (s.step .receive).Sound := by
  have hstep : s.step .receive = s.react m ack := by
    simp only [step, Option.mem_def.mp hm, hstage]
  have hburn : (s.burn m).Sound := h.of_waiting rfl (List.Subset.refl _) (by simp [burn])
  have hreneg (next : Nat) : (s.renegotiate m next).Sound := by
    unfold renegotiate
    split_ifs <;> exact h.of_waiting rfl (List.Subset.refl _) (by simp)
  rw [hstep]
  unfold react
  cases hprobe : m.probing with
  | true =>
    rw [if_pos rfl]
    split <;> exact h.of_waiting rfl (List.Subset.refl _) (by simp)
  | false =>
    rw [if_neg Bool.false_ne_true]
    split
    · split_ifs with hlast
      · refine ⟨?_, by simp, by simp⟩
        subst hlast
        exact List.forall_mem_cons.mpr ⟨h.answered m hm hprobe hstage, h.sendsApplied⟩
      · exact hreneg _
    · exact hreneg _
    · split_ifs
      · exact hburn
      · exact h.of_waiting rfl (List.Subset.refl _) (by simp)
    · exact hburn
    · exact hburn

end

theorem Sound.abandon (h : s.Sound) (m : Sending Op) : (s.abandon m).Sound := by
  have hend : (if m.probing then { s with sending := none } else s.burn m).Sound := by
    split_ifs <;> exact h.of_waiting rfl (List.Subset.refl _) (by simp [burn])
  have hnone : ∀ m' ∈ (if m.probing then { s with sending := none } else s.burn m).sending,
      False := by
    split_ifs <;> simp [burn]
  unfold ReplicaStream.abandon
  generalize (if m.probing then { s with sending := none } else s.burn m) = s' at hend hnone
  split
  · exact hend.of_waiting rfl (List.Subset.refl _) fun m' hm' => absurd hm' (hnone m')
  · exact hend.of_waiting rfl (List.Subset.refl _) fun m' hm' => absurd hm' (hnone m')
  · exact hend
  · exact hend

theorem Sound.step (h : s.Sound) (i : StreamInput Op) (hclear : s.Clear i) :
    (ReplicaStream.step s i).Sound := by
  have hsame : s.applied ⊆ s.applied := List.Subset.refl _
  cases i with
  | call ops =>
    simp only [ReplicaStream.step]
    split
    · exact h
    · exact h.of_waiting rfl hsame (by simp)
  | send =>
    simp only [ReplicaStream.step]
    split
    · split_ifs
      · exact h.of_waiting rfl hsame (by simp)
      · exact h
    · exact h
  | resend =>
    simp only [ReplicaStream.step]
    split
    · split_ifs
      · exact h.of_waiting rfl hsame fun m hm => .inr (.inr hm)
      · exact h
    · exact h
  | arrive =>
    match hs : s.sending with
    | none => simpa [ReplicaStream.step, hs] using h
    | some m =>
      by_cases hsent : m.stage = .sent
      · exact h.arrive hs hsent hclear
      · simpa [ReplicaStream.step, hs, hsent] using h
  | finish outcome =>
    match hs : s.sending with
    | none => simpa [ReplicaStream.step, hs] using h
    | some m =>
      match hstage : m.stage with
      | .applying k => exact h.finish hs hstage outcome
      | .ready | .sent | .answered _ => simpa [ReplicaStream.step, hs, hstage] using h
  | receive =>
    match hs : s.sending with
    | none => simpa [ReplicaStream.step, hs] using h
    | some m =>
      match hstage : m.stage with
      | .answered ack => exact h.receive hs hstage
      | .ready | .sent | .applying _ => simpa [ReplicaStream.step, hs, hstage] using h
  | fail =>
    simp only [ReplicaStream.step]
    split
    · exact h.abandon _
    · exact h
  | arriveLate i =>
    simp only [ReplicaStream.step]
    split
    · split <;> exact h.of_waiting rfl hsame fun m hm => .inr (.inr hm)
    · exact h
  | finishLate i outcome =>
    simp only [ReplicaStream.step]
    split
    · rename_i b skipCount hleft
      refine h.of_waiting (succeeded_complete b skipCount outcome)
        (subset_applied_complete b skipCount outcome) fun m hm => .inr (.inr ?_)
      cases outcome <;> exact hm
    · exact h

/-- In every run in which the watermark is clear of each batch that the master waits for, whenever
a call returned success every one of its operations was handled. -/
theorem sendsApplied_of_clear (watermark : Nat) (inputs : List (StreamInput Op))
    (hclear : Guarded step Clear (start watermark) inputs) :
    (Foundations.run step (start watermark) inputs).SendsApplied :=
  (hclear.invariant (fun _ i h hi => h.step i hi) (sound_start watermark)).sendsApplied

/-- The exchange of a batch that the replica gets and answers. -/
def exchange (outcome : ApplyOutcome) : List (StreamInput Op) :=
  [.send, .arrive, .finish outcome, .receive]

instance Clear.decidable [DecidableEq Op] (s : ReplicaStream Op) : ∀ i, Decidable (s.Clear i)
  | .arrive => inferInstanceAs (Decidable (∀ _ ∈ _, _ → _))
  | .call _ | .send | .resend | .finish _ | .receive | .fail | .arriveLate _ | .finishLate _ _ =>
    isTrue trivial

instance SendsApplied.decidable [DecidableEq Op] (s : ReplicaStream Op) :
    Decidable s.SendsApplied :=
  inferInstanceAs (Decidable (∀ _ ∈ _, ∀ _ < _, ∃ _ ∈ _, _))

/-- A call learns the watermark and sends; another one finds the log full once. -/
theorem sendsApplied_demo :
    (Foundations.run step (start 7) ([.call [10, 11]] ++ exchange .applied ++ exchange .applied ++
      [.call [12]] ++ exchange .logFull ++ exchange .applied)).SendsApplied :=
  sendsApplied_of_clear 7 _ (by decide)

/-- The first call gives up on its batch, and the second one labels its own anew after a gap. The
first batch then arrives before the second, which is taken for a duplicate. -/
theorem relabelled_send_not_applied :
    ¬ (Foundations.run step (start 0) ([.call [10]] ++ exchange .applied ++ [.send, .fail] ++
      [.call [20]] ++ exchange .applied ++ [.arriveLate 0, .finishLate 0 .applied] ++
      exchange .applied)).SendsApplied := by
  decide

end ReplicaStream

end TeraSlab.Replication
