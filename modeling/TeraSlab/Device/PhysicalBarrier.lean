import TeraSlab.Foundations.Run

/-!
# The coalesced barrier of a physical device

Calls of `PhysicalBarrier::barrier` interleave with writes to the device. A call leads a sync, or
waits behind the one in flight. A sync that fails may drop writes for good; a call that waited
behind it and then leads the next sync answers with that sync's outcome alone.
-/

namespace TeraSlab.Device

open Foundations

variable {ω : Type*}

/-- A write to any of the sub-devices; a dropped one names the sync that dropped it. -/
inductive WriteState where
  | pending
  | completed
  | durable
  | dropped (generation : Nat)
  deriving DecidableEq

/-- The sync that the leader runs without the lock. -/
inductive BarrierPhase (ω : Type*) where
  | starting
  | running (covers : ω → Bool)
  | ended (res : Except String Unit)

inductive BarrierCall where
  | idle
  | waiting (target earliestCovering : Nat)
  | leading
  | returned (res : Except String Unit)

/-- `BarrierState` with the device's writes and the calls; `leader` is the call that set
`leader_busy`, and `before` the writes completed when a call began. -/
structure PhysicalBarrier (ω : Type*) where
  epoch : Nat := 0
  leader : Option (Nat × BarrierPhase ω) := none
  lastErr : Option String := none
  lastFailedEpoch : Nat := 0
  writes : ω → WriteState := fun _ => .pending
  calls : Nat → BarrierCall := fun _ => .idle
  before : Nat → ω → Bool := fun _ _ => false

namespace PhysicalBarrier

def leaderBusy (st : PhysicalBarrier ω) : Bool := st.leader.isSome

def coalescedBarrierError (msg : String) : String := "coalesced device barrier failed: " ++ msg

def followerOutcome (st : PhysicalBarrier ω) (earliestCovering : Nat) : Except String Unit :=
  if earliestCovering ≤ st.lastFailedEpoch then
    .error (coalescedBarrierError (st.lastErr.getD "qualifying sync generation failed"))
  else .ok ()

def goto (st : PhysicalBarrier ω) (call : Nat) (next : BarrierCall) : PhysicalBarrier ω :=
  { st with calls := Function.update st.calls call next }

/-- The body of the loop in `barrier`, up to the wait or the sync. -/
def turn (st : PhysicalBarrier ω) (call target earliestCovering : Nat) : PhysicalBarrier ω :=
  if target ≤ st.epoch then st.goto call (.returned (st.followerOutcome earliestCovering))
  else if st.leaderBusy then st.goto call (.waiting target earliestCovering)
  else { st.goto call .leading with leader := some (call, .starting) }

/-- The lock section in which a call begins. -/
def enter (st : PhysicalBarrier ω) (call : Nat) : PhysicalBarrier ω :=
  turn
    { st with before := fun other w =>
        if other = call then st.writes w ≠ .pending else st.before other w }
    call (st.epoch + if st.leaderBusy then 2 else 1) (st.epoch + 1)

/-- The lock section after the sync. -/
def finish (st : PhysicalBarrier ω) (call : Nat) (res : Except String Unit) : PhysicalBarrier ω :=
  { st.goto call (.returned res) with
    epoch := st.epoch + 1
    leader := none
    lastErr := match res with | .ok _ => none | .error e => some e
    lastFailedEpoch := match res with | .ok _ => st.lastFailedEpoch | .error _ => st.epoch + 1 }

/-- What a sync does to a write: success makes a covered one durable, failure may drop it. -/
def settle (generation : Nat) (res : Except String Unit) (covered drop : Bool) (w : WriteState) :
    WriteState :=
  match res with
  | .ok _ => if w = .completed ∧ covered then .durable else w
  | .error _ => if w = .completed ∧ drop then .dropped generation else w

inductive Step (ω : Type*) where
  | write (w : ω)
  | enter (call : Nat)
  | wake (call : Nat)
  | beginSync
  | endSync (res : Except String Unit) (drops : ω → Bool)
  | finish

def step [DecidableEq ω] (st : PhysicalBarrier ω) : Step ω → PhysicalBarrier ω
  | .write w => if st.writes w = .pending then
      { st with writes := Function.update st.writes w .completed } else st
  | .enter call => match st.calls call with
    | .idle => st.enter call
    | _ => st
  | .wake call => match st.calls call with
    | .waiting target earliest => st.turn call target earliest
    | _ => st
  | .beginSync => match st.leader with
    | some (call, .starting) =>
      { st with leader := some (call, .running fun w => st.writes w ≠ .pending) }
    | _ => st
  | .endSync res drops => match st.leader with
    | some (call, .running covers) =>
      { st with
        leader := some (call, .ended res)
        writes := fun w => settle (st.epoch + 1) res (covers w) (drops w) (st.writes w) }
    | _ => st
  | .finish => match st.leader with
    | some (call, .ended res) => st.finish call res
    | _ => st

/-- A call that returned `Ok` has every write completed before it on stable storage. -/
def Durable (st : PhysicalBarrier ω) : Prop :=
  ∀ call w, st.calls call = .returned (.ok ()) → st.before call w → st.writes w = .durable

/-- The write was dropped by a sync that has already been counted. -/
def DroppedBefore (epoch : Nat) : WriteState → Prop
  | .dropped generation => generation ≤ epoch
  | _ => False

/-- No call begins after a write was lost, and a call that waited leads only if no sync failed
since it began. -/
def Guard (st : PhysicalBarrier ω) : Step ω → Prop
  | .enter _ => ∀ w, ¬ DroppedBefore st.epoch (st.writes w)
  | .wake call => ∀ target earliest, st.calls call = .waiting target earliest →
      st.epoch < target → st.leaderBusy = false → st.lastFailedEpoch < earliest
  | _ => True

/-- What a waiting call knows of a write completed before it: only a sync from
`earliestCovering` on can have dropped it, and the sync of its target covers it. -/
def Awaits (st : PhysicalBarrier ω) (target earliest : Nat) (w : ω) : Prop :=
  (∀ generation, st.writes w = .dropped generation → earliest ≤ generation) ∧
    (target ≤ st.epoch → st.lastFailedEpoch < earliest → st.writes w = .durable) ∧
    ∀ call phase, target ≤ st.epoch + 1 → st.leader = some (call, phase) → match phase with
      | .running covers => covers w
      | .ended (.ok _) => st.writes w ≠ .completed
      | _ => True

/-- What the sync in flight does for a write completed before its leader began. -/
def Carried (w : ω) (value : WriteState) : BarrierPhase ω → Prop
  | .starting => ∀ generation, value ≠ .dropped generation
  | .running covers => covers w ∧ ∀ generation, value ≠ .dropped generation
  | .ended (.ok _) => value = .durable
  | .ended (.error _) => True

structure Inv (st : PhysicalBarrier ω) : Prop where
  failed_le : st.lastFailedEpoch ≤ st.epoch
  dropped : ∀ w generation, st.writes w = .dropped generation →
    generation ≤ st.lastFailedEpoch ∨
      generation = st.epoch + 1 ∧ ∃ call e, st.leader = some (call, .ended (.error e))
  started : ∀ call w, st.before call w → st.writes w ≠ .pending
  waiting : ∀ call target earliest, st.calls call = .waiting target earliest →
    earliest ≤ target ∧ earliest ≤ st.epoch + 1 ∧
      ∀ w, st.before call w → st.Awaits target earliest w
  leading : ∀ call phase, st.leader = some (call, phase) → st.calls call = .leading ∧
    ∀ w, st.before call w → Carried w (st.writes w) phase
  returned : st.Durable

variable {st : PhysicalBarrier ω}

theorem inv_init : Inv ({} : PhysicalBarrier ω) := by
  constructor <;> simp [Durable]

/-- A turn of the loop keeps the invariant when the call leads only with its writes in place. -/
theorem Inv.turn (h : Inv st) {call target earliest : Nat} (hcall : st.calls call ≠ .leading)
    (hearliest : earliest ≤ target ∧ earliest ≤ st.epoch + 1)
    (hawaits : ∀ w, st.before call w → st.Awaits target earliest w)
    (hlead : st.epoch < target → st.leaderBusy = false →
      ∀ w, st.before call w → Carried w (st.writes w) .starting) :
    Inv (st.turn call target earliest) := by
  obtain ⟨hfailed, hdropped, hstarted, hwaiting, hleading, hreturned⟩ := h
  unfold PhysicalBarrier.turn goto
  split_ifs with hreached hbusy
  · constructor <;> grind [Durable, followerOutcome, Awaits]
  · constructor <;> grind [Durable, Awaits]
  · constructor <;> grind [Durable, leaderBusy, Awaits]

variable [DecidableEq ω]

section

variable (h : Inv st)
include h

theorem Inv.write (w : ω) : Inv (st.step (.write w)) := by
  obtain ⟨hfailed, hdropped, hstarted, hwaiting, hleading, hreturned⟩ := h
  rw [step]
  split_ifs with hw
  · -- A write that some call waits for has already completed.
    have hsame {call v} (hv : st.before call v) : v ≠ w := by grind
    constructor <;> grind [Carried, Durable, Awaits]
  · constructor <;> assumption

theorem Inv.beginSync : Inv (st.step .beginSync) := by
  obtain ⟨hfailed, hdropped, hstarted, hwaiting, hleading, hreturned⟩ := h
  rw [step]
  split
  case h_2 => constructor <;> assumption
  case h_1 call hleader => constructor <;> grind [Carried, Durable, Awaits]

theorem Inv.endSync (res : Except String Unit) (drops : ω → Bool) :
    Inv (st.step (.endSync res drops)) := by
  obtain ⟨hfailed, hdropped, hstarted, hwaiting, hleading, hreturned⟩ := h
  rw [step]
  split
  case h_2 => constructor <;> assumption
  case h_1 call covers hleader =>
    obtain ⟨hcall, hcarried⟩ := hleading call _ hleader
    constructor
    case leading =>
      rintro _ _ ⟨rfl, rfl⟩
      refine ⟨hcall, fun v hv => ?_⟩
      cases hvalue : st.writes v <;> cases res <;> grind [Carried, settle]
    all_goals cases res <;> grind [Durable, Awaits, settle]

theorem Inv.finish : Inv (st.step .finish) := by
  obtain ⟨hfailed, hdropped, hstarted, hwaiting, hleading, hreturned⟩ := h
  rw [step]
  split
  case h_2 => constructor <;> assumption
  case h_1 call res hleader =>
    unfold PhysicalBarrier.finish goto
    constructor
    case waiting =>
      intro other target earliest hother
      obtain ⟨htarget, hepoch, hawaits⟩ := hwaiting other target earliest (by grind)
      refine ⟨htarget, Nat.le_succ_of_le hepoch, fun v hv => ?_⟩
      cases hvalue : st.writes v <;> cases res <;> grind [Awaits]
    all_goals cases res <;> grind [Carried, Durable]

theorem Inv.wake (call : Nat) (hg : st.Guard (.wake call)) : Inv (st.step (.wake call)) := by
  rw [step]
  split
  case h_2 => exact h
  case h_1 target earliest hcall =>
    obtain ⟨htarget, hepoch, hawaits⟩ := h.waiting _ _ _ hcall
    refine h.turn (by simp [hcall]) ⟨htarget, hepoch⟩ hawaits
      fun hlt hbusy w hw generation hlost => ?_
    have hfailed := hg target earliest hcall hlt hbusy
    have hearliest := (hawaits w hw).1 generation hlost
    have hdropped := h.dropped w generation hlost
    grind [leaderBusy]

theorem Inv.enter (call : Nat) (hg : st.Guard (.enter call)) : Inv (st.step (.enter call)) := by
  rw [step]
  split
  case h_2 => exact h
  case h_1 hcall =>
    have hkept w generation (hw : st.writes w = .dropped generation) : st.epoch < generation := by
      simpa [hw, DroppedBefore] using hg w
    obtain ⟨hfailed, hdropped, hstarted, hwaiting, hleading, hreturned⟩ := h
    refine Inv.turn ?_ (by simp [hcall]) ⟨by split <;> simp, le_rfl⟩ ?_ ?_
    · constructor <;> grind [Durable, Awaits]
    · grind [leaderBusy, Awaits]
    · grind [leaderBusy, Carried]

theorem Inv.step {s : Step ω} (hg : st.Guard s) : Inv (st.step s) := by
  cases s with
  | write w => exact h.write w
  | enter call => exact h.enter call hg
  | wake call => exact h.wake call hg
  | beginSync => exact h.beginSync
  | endSync res drops => exact h.endSync res drops
  | finish => exact h.finish

end

/-- In every run in which no call begins after a write was lost and none leads after a sync that
failed since it began, a call that returns `Ok` has every earlier write on stable storage. -/
theorem barrier_durable (steps : List (Step ω))
    (hg : Guarded PhysicalBarrier.step Guard ({} : PhysicalBarrier ω) steps) :
    (run PhysicalBarrier.step ({} : PhysicalBarrier ω) steps).Durable :=
  (Guarded.invariant (I := Inv) (fun _ _ h hg => h.step hg) inv_init hg).returned

/-- A call waits behind the sync in flight and leads the next one, which succeeds. -/
def waitThenLead (first : Except String Unit) : List (Step Unit) :=
  [.enter 0, .beginSync, .write (), .enter 1, .endSync first fun _ => true, .finish, .wake 1,
    .beginSync, .endSync (.ok ()) fun _ => false, .finish]

theorem barrier_durable_waitThenLead :
    (run PhysicalBarrier.step {} (waitThenLead (.ok ()))).Durable :=
  barrier_durable _ ⟨fun _ => id, trivial, trivial, fun _ => id, trivial, trivial,
    fun | _, _, rfl, _, _ => by decide, trivial, trivial, trivial, trivial⟩

/-- The sync in flight fails and drops the write of the call that waits. -/
theorem barrier_reports_dropped_write :
    ¬ (run PhysicalBarrier.step {} (waitThenLead (.error "io"))).Durable := by
  intro h
  exact absurd (h 1 () rfl rfl) (by decide)

end PhysicalBarrier

end TeraSlab.Device
