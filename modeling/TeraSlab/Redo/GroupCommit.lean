import TeraSlab.Redo.RingDurable
import TeraSlab.Redo.RingReopen

/-!
# Two-phase flushes

`GroupCommit::flush` takes the buffer and a snapshot of the header out of the log under the log
lock, and writes and syncs both without it. Flushers and the checkpoint exclude each other by a
guard; appends, rolls and direct flushes only take the log lock and can come in between. A direct
flush, a fence and a reclaim hold the log lock from their write to their sync.

While a flush is between its two phases the log is where it will be once the flush is written, so
that nothing is lost as long as no roll and no direct flush comes between the phases, and no flush
is acknowledged that finds nothing to write while something waits for a sync.
-/

namespace TeraSlab.Redo

open Foundations RingLog

/-- Where the flusher that holds the guard is. -/
inductive FlushPhase where
  | idle
  | prepared (p : PreparedFlush) (entries : List RedoEntry) (sync : Bool)
  | written (sync : Bool)

/-- Who holds the log lock across a write and its sync. -/
inductive LockHolder where
  | free
  | directFlush
  /-- A fence or a reclaim: the header is written and not synced. -/
  | header
deriving DecidableEq

structure GroupCommit where
  base : System
  phase : FlushPhase
  holder : LockHolder

/-- The atomic steps of the threads: what runs under the log lock, and the device operations of a
flusher that runs without it. -/
inductive GroupCall where
  | append (op : RedoOp)
  | appendAtomic (ops : List RedoOp)
  | directFlush
  | directSync
  /-- The first phase of `flush`, or of `flush_no_sync`. -/
  | prepare (sync : Bool)
  | commit
  | finish
  | setFence (throughSequence : Nat)
  | reclaim
  | headerSync

namespace GroupCommit

variable (crc : List UInt8 → UInt32) (g : Geometry)

def settled (s : GroupCommit) : System :=
  match s.phase with
  | .prepared p entries _ =>
    { s.base with
      unsynced := s.base.unsynced ++ [commitFlush g s.base.image p]
      flushed := s.base.flushed ++ entries
      written := Function.update s.base.written p.seg (s.base.written p.seg ++ entries) }
  | _ => s.base

/-- What runs under the log lock. -/
def locked (s : GroupCommit) : GroupCall → GroupCommit
  | .append op => { s with base := (s.base.tryAppend crc g op).getD s.base }
  | .appendAtomic ops => { s with base := s.base.appendAtomic crc g ops }
  | .directFlush =>
    if s.base.log.buffer.isEmpty then { s with base := { s.base with acked := s.base.flushed } }
    else { s with base := s.base.writeOut g, holder := .directFlush }
  | .prepare sync =>
    match s.phase with
    | .idle =>
      match s.base.log.prepareFlush g with
      | none =>
        -- nothing buffered: the flush returns at once
        if sync then { s with base := { s.base with acked := s.base.flushed } } else s
      | some (log, p) =>
        { s with
          base := { s.base with log := log }
          phase := .prepared p s.base.log.pendingEntries sync }
    | _ => s
  | .setFence throughSequence =>
    match s.phase with
    | .idle =>
      if throughSequence ≤ s.base.log.checkpointSeq then s
      else
        { s with
          base := { s.base with log := (s.base.setFence throughSequence).log }
          holder := .header }
    | _ => s
  | .reclaim =>
    match s.phase with
    | .idle =>
      if (s.base.log.reclaimLoop g g.segmentCount 0 false).2.2 then
        { s with base := { s.base with log := (s.base.reclaim g).log }, holder := .header }
      else s
    | _ => s
  | _ => s

/-- One step; a thread that is not at this point, or waits for the guard or the log lock, does
nothing. -/
def step (s : GroupCommit) : GroupCall → GroupCommit
  | .commit =>
    match s.phase with
    | .prepared _ _ sync => { s with base := s.settled g, phase := .written sync }
    | _ => s
  | .finish =>
    match s.phase with
    | .written true =>
      { s with base := { s.base.sync with acked := s.base.flushed }, phase := .idle }
    | .written false => { s with phase := .idle }
    | _ => s
  | .directSync =>
    match s.holder with
    | .directFlush =>
      { s with base := { s.base.sync with acked := s.base.flushed }, holder := .free }
    | _ => s
  | .headerSync =>
    match s.holder with
    | .header => { s with base := s.base.writeHeader, holder := .free }
    | _ => s
  | call =>
    match s.holder with
    | .free => s.locked crc g call
    | _ => s

def InFlight (s : GroupCommit) : Prop :=
  match s.phase with
  | .prepared .. => True
  | _ => False

instance (s : GroupCommit) : Decidable s.InFlight :=
  match h : s.phase with
  | .idle => isFalse (by simp [InFlight, h])
  | .prepared .. => isTrue (by simp [InFlight, h])
  | .written _ => isFalse (by simp [InFlight, h])

/-- With nothing buffered, nothing waits for a sync. -/
def EmptySynced (s : System) : Prop := s.log.buffer = [] → s.unsynced.isEmpty = true

instance (s : System) : Decidable (EmptySynced s) := inferInstanceAs (Decidable (_ → _))

def LockedClean (s : GroupCommit) : GroupCall → Prop
  | .append op => s.base.AppendQuiet crc g op ∧ (s.InFlight → s.base.rolls g op = false)
  | .appendAtomic ops => ∀ p ∈ s.base.appends crc g (.appendAtomic ops),
      p.1.AppendQuiet crc g p.2 ∧ (s.InFlight → p.1.rolls g p.2 = false)
  | .directFlush => ¬ s.InFlight ∧ s.base.FlushClean crc g ∧ EmptySynced s.base
  | .prepare sync => s.base.FlushClean crc g ∧ (sync = true → EmptySynced s.base)
  | .setFence _ | .reclaim => s.base.CursorOld crc
  | .commit | .finish | .directSync | .headerSync => True

instance (s : GroupCommit) (call : GroupCall) : Decidable (s.LockedClean crc g call) :=
  match call with
  | .append _ | .directFlush | .prepare _ => inferInstanceAs (Decidable (_ ∧ _))
  | .appendAtomic _ => inferInstanceAs (Decidable (∀ _ ∈ _, _))
  | .setFence _ | .reclaim => inferInstanceAs (Decidable (s.base.CursorOld crc))
  | .commit | .finish | .directSync | .headerSync => inferInstanceAs (Decidable True)

def CallClean (s : GroupCommit) (call : GroupCall) : Prop :=
  s.holder = .free → s.LockedClean crc g call

instance (s : GroupCommit) (call : GroupCall) : Decidable (s.CallClean crc g call) :=
  inferInstanceAs (Decidable (_ → _))

/-- Once the prepared flush is written, nothing acknowledged is in danger. -/
def Held (s : GroupCommit) : Prop :=
  ∃ dropped first last, Durable crc g False (s.settled g) dropped first last

/-- Between the write of a header and its sync nothing acknowledged is in danger, with the log
that was there before and with the one that is written. -/
structure Headed (s : GroupCommit) : Prop where
  idle : s.phase = .idle
  before : ∃ log dropped first last, log.checkpointSeq ≤ s.base.log.checkpointSeq ∧
    Durable crc g False { s.base with log := log } dropped first last
  after : ∃ dropped first last, Durable crc g False s.base.writeHeader dropped first last

def Safe (s : GroupCommit) : Prop :=
  match s.holder with
  | .free => s.Held crc g
  | .directFlush => ¬ s.InFlight ∧ s.Held crc g
  | .header => s.Headed crc g

variable {crc g} {s : GroupCommit} {sync : Bool}

theorem settled_of_not_inFlight (h : ¬ s.InFlight) : s.settled g = s.base := by
  unfold settled
  split
  · rename_i hphase
    exact absurd (by simp [InFlight, hphase]) h
  · rfl

theorem Held.base (h : s.Held crc g) (hidle : ¬ s.InFlight) :
    ∃ dropped first last, Durable crc g False s.base dropped first last := by
  obtain ⟨dropped, first, last, hdur⟩ := h
  rw [settled_of_not_inFlight hidle] at hdur
  exact ⟨dropped, first, last, hdur⟩

theorem held_of_base {base : System} {dropped : List RedoEntry} {first last : Node}
    (hidle : ¬ s.InFlight) (h : Durable crc g False base dropped first last) :
    ({ s with base := base } : GroupCommit).Held crc g := by
  have hidle' : ¬ ({ s with base := base } : GroupCommit).InFlight := hidle
  refine ⟨dropped, first, last, ?_⟩
  rw [settled_of_not_inFlight hidle']
  exact h

theorem not_inFlight_of_idle (h : s.phase = .idle) : ¬ s.InFlight := by simp [InFlight, h]

theorem log_settled : (s.settled g).log = s.base.log := by
  unfold settled
  split <;> rfl

theorem settled_durable (g : Geometry) (s : GroupCommit) :
    (s.settled g).durable = s.base.durable ∧ (s.settled g).acked = s.base.acked := by
  unfold settled
  split <;> exact ⟨rfl, rfl⟩

/-- What is prepared does not depend on the log that goes on. -/
theorem settled_withLog (log : RingLog) :
    ({ s with base := { s.base with log := log } } : GroupCommit).settled g =
      { s.settled g with log := log } := by
  unfold settled
  dsimp only
  split <;> rfl

theorem Held.append (h : s.Held crc g) {op : RedoOp} (hquiet : s.base.AppendQuiet crc g op)
    (hflight : s.InFlight → s.base.rolls g op = false) {base : System}
    (hstep : s.base.tryAppend crc g op = some base) :
    ({ s with base := base } : GroupCommit).Held crc g := by
  obtain ⟨dropped, first, last, hdur⟩ := h
  by_cases hin : s.InFlight
  · rcases System.tryAppend_cases hstep with ⟨hrolls, -⟩ | ⟨hroom, rfl⟩
    · rw [hflight hin] at hrolls
      cases hrolls
    refine ⟨dropped, first, last, ?_⟩
    rw [settled_withLog, ← log_settled (g := g)]
    refine ⟨hdur.ring.bufferEntry hquiet.1.1 ?_ ?_, hdur.chain, hdur.acked⟩
    · rw [log_settled]
      exact hquiet.1.2.1
    · rw [log_settled]
      exact hroom
  · rw [settled_of_not_inFlight hin] at hdur
    obtain ⟨last', hdur'⟩ := hdur.tryAppend hquiet hstep
    exact held_of_base hin hdur'

/-- Preparing and committing a flush is writing the buffer out. -/
theorem settled_prepare {log : RingLog} {p : PreparedFlush}
    (hprep : s.base.log.prepareFlush g = some (log, p)) :
    (⟨{ s.base with log := log }, .prepared p s.base.log.pendingEntries sync, s.holder⟩ :
      GroupCommit).settled g = s.base.writeOut g := by
  have hseg : p.seg = s.base.log.activeSeg := by
    unfold prepareFlush at hprep
    split at hprep
    · cases hprep
    · cases hprep
      rfl
  unfold settled System.writeOut
  rw [hprep]
  dsimp only
  rw [hseg]
  rfl

theorem Held.prepare (h : s.Held crc g) (hflush : s.base.FlushClean crc g)
    (hempty : sync = true → EmptySynced s.base) :
    (s.locked crc g (.prepare sync)).holder = s.holder ∧
      (s.locked crc g (.prepare sync)).Held crc g := by
  unfold locked
  dsimp only
  split
  · rename_i hphase
    have hidle := not_inFlight_of_idle hphase
    obtain ⟨dropped, first, last, hbase⟩ := h.base hidle
    split
    · rename_i hnone
      have hbuf : s.base.log.buffer = [] := by
        unfold prepareFlush at hnone
        split at hnone
        · rename_i hnil
          simpa using hnil
        · cases hnone
      split
      · rename_i hsync
        have hsynced : s.base.unsynced = [] := List.isEmpty_iff.mp (hempty hsync hbuf)
        exact ⟨rfl, held_of_base hidle (hbase.acknowledge hsynced)⟩
      · exact ⟨rfl, h⟩
    · rename_i log p hprep
      have hbuf : s.base.log.buffer ≠ [] := by
        intro hnil
        simp [prepareFlush, hnil] at hprep
      obtain ⟨hpad, hold⟩ := hflush hbuf
      obtain ⟨last', -, -, hdur'⟩ := hbase.writeOut hbuf hpad hold
      refine ⟨rfl, dropped, first, last', ?_⟩
      rw [settled_prepare hprep]
      exact hdur'
  · exact ⟨rfl, h⟩

theorem Held.safe (h : s.Held crc g) (hfree : s.holder = .free) : s.Safe crc g := by
  rw [Safe, hfree]
  exact h

theorem Held.directFlush (h : s.Held crc g) (hfree : s.holder = .free)
    (hclean : s.LockedClean crc g .directFlush) : (s.locked crc g .directFlush).Safe crc g := by
  obtain ⟨hidle, hflush, hempty⟩ := hclean
  obtain ⟨dropped, first, last, hdur⟩ := h.base hidle
  unfold locked
  dsimp only
  split
  · rename_i hbuf
    have hsynced := List.isEmpty_iff.mp (hempty (List.isEmpty_iff.mp hbuf))
    exact (held_of_base hidle (hdur.acknowledge hsynced)).safe hfree
  · rename_i hbuf
    have hbuf' : s.base.log.buffer ≠ [] := by simpa using hbuf
    obtain ⟨hpad, hold⟩ := hflush hbuf'
    obtain ⟨last', -, -, hdur'⟩ := hdur.writeOut hbuf' hpad hold
    exact ⟨hidle, held_of_base hidle hdur'⟩

section Header

variable (h : s.Held crc g) (hfree : s.holder = .free) (hold : s.base.CursorOld crc)
include h hfree hold

theorem Held.setFence (throughSequence : Nat) :
    (s.locked crc g (.setFence throughSequence)).Safe crc g := by
  unfold locked
  dsimp only
  split
  · rename_i hphase
    obtain ⟨dropped, first, last, hdur⟩ := h.base (not_inFlight_of_idle hphase)
    obtain ⟨first', last', hdur'⟩ := hdur.setFence hold throughSequence
    split
    · exact h.safe hfree
    have hraised : ¬ max throughSequence s.base.log.checkpointSeq = s.base.log.checkpointSeq := by
      omega
    rw [System.setFence, if_neg hraised] at hdur' ⊢
    exact ⟨hphase, ⟨_, _, _, _, Nat.le_max_right _ _, hdur⟩, ⟨_, _, _, hdur'⟩⟩
  · exact h.safe hfree

theorem Held.reclaim : (s.locked crc g .reclaim).Safe crc g := by
  unfold locked
  dsimp only
  split
  · rename_i hphase
    obtain ⟨dropped, first, last, hdur⟩ := h.base (not_inFlight_of_idle hphase)
    obtain ⟨dropped', first', last', hdur'⟩ := hdur.reclaim hold
    obtain ⟨-, -, hfence⟩ := Ring.cursor_reclaimLoop (g := g) g.segmentCount s.base.log 0 false
    split
    · rename_i hfreed
      unfold System.reclaim at hdur' ⊢
      dsimp only at hdur' ⊢
      rw [if_pos hfreed] at hdur' ⊢
      exact ⟨hphase, ⟨_, _, _, _, hfence.ge, hdur⟩, ⟨_, _, _, hdur'⟩⟩
    · exact h.safe hfree
  · exact h.safe hfree

end Header

theorem Held.locked {call : GroupCall} (h : s.Held crc g) (hfree : s.holder = .free)
    (hclean : s.LockedClean crc g call) : (s.locked crc g call).Safe crc g := by
  have hkeeps (base base' : System) (op : RedoOp)
      (h : (⟨base, s.phase, s.holder⟩ : GroupCommit).Held crc g)
      (hop : base.AppendQuiet crc g op ∧ (s.InFlight → base.rolls g op = false))
      (hstep : base.tryAppend crc g op = some base') :
      (⟨base', s.phase, s.holder⟩ : GroupCommit).Held crc g := h.append hop.1 hop.2 hstep
  cases call with
  | append op => exact Held.safe (System.keeps_append hkeeps h hclean) hfree
  | appendAtomic ops => exact Held.safe (System.keeps_appendAtomic hkeeps h hclean) hfree
  | directFlush => exact h.directFlush hfree hclean
  | prepare sync =>
    obtain ⟨hholder, hheld⟩ := h.prepare hclean.1 hclean.2
    exact hheld.safe (hholder.trans hfree)
  | setFence throughSequence => exact h.setFence hfree hclean throughSequence
  | reclaim => exact h.reclaim hfree hclean
  | _ => exact h.safe hfree

/-- Who waits for a sync of the header has waited for the guard, too. -/
theorem Safe.held (h : s.Safe crc g) (hphase : s.phase ≠ .idle) :
    s.holder ≠ .header ∧ s.Held crc g := by
  unfold Safe at h
  split at h
  · exact ⟨by simp [*], h⟩
  · exact ⟨by simp [*], h.2⟩
  · exact absurd h.idle hphase

theorem Held.safe_of_not_inFlight (h : s.Held crc g) (hidle : ¬ s.InFlight)
    (hholder : s.holder ≠ .header) : s.Safe crc g := by
  unfold Safe
  split
  · exact h
  · exact ⟨hidle, h⟩
  · exact absurd ‹_› hholder

theorem Safe.commit (h : s.Safe crc g) : (s.step crc g .commit).Safe crc g := by
  unfold GroupCommit.step
  dsimp only
  split
  · rename_i hphase
    obtain ⟨hholder, hheld⟩ := h.held (by simp [hphase])
    exact Held.safe_of_not_inFlight hheld id hholder
  · exact h

theorem Safe.finish (h : s.Safe crc g) : (s.step crc g .finish).Safe crc g := by
  unfold GroupCommit.step
  dsimp only
  split
  · rename_i hphase
    obtain ⟨hholder, hheld⟩ := h.held (by simp [hphase])
    obtain ⟨dropped, first, last, hdur⟩ := hheld.base (by simp [InFlight, hphase])
    refine Held.safe_of_not_inFlight ?_ (not_inFlight_of_idle rfl) hholder
    exact ⟨dropped, last, last, hdur.sync.acknowledge rfl⟩
  · rename_i hphase
    obtain ⟨hholder, hheld⟩ := h.held (by simp [hphase])
    refine Held.safe_of_not_inFlight ?_ (not_inFlight_of_idle rfl) hholder
    exact hheld.base (by simp [InFlight, hphase])
  · exact h

theorem Safe.directSync (h : s.Safe crc g) : (s.step crc g .directSync).Safe crc g := by
  unfold GroupCommit.step
  dsimp only
  split
  · rename_i hholder
    rw [Safe, hholder] at h
    obtain ⟨dropped, first, last, hdur⟩ := h.2.base h.1
    exact held_of_base h.1 (hdur.sync.acknowledge rfl)
  · exact h

theorem Safe.headerSync (h : s.Safe crc g) : (s.step crc g .headerSync).Safe crc g := by
  unfold GroupCommit.step
  dsimp only
  split
  · rename_i hholder
    rw [Safe, hholder] at h
    obtain ⟨dropped, first, last, hdur⟩ := h.after
    exact held_of_base (not_inFlight_of_idle h.idle) hdur
  · exact h

theorem Safe.step {call : GroupCall} (h : s.Safe crc g) (hclean : s.CallClean crc g call) :
    (s.step crc g call).Safe crc g := by
  cases call with
  | commit => exact h.commit
  | finish => exact h.finish
  | directSync => exact h.directSync
  | headerSync => exact h.headerSync
  | _ =>
    unfold GroupCommit.step
    dsimp only
    split
    · rename_i hfree
      rw [Safe, hfree] at h
      exact h.locked hfree (hclean hfree)
    · exact h

def format (g : Geometry) : GroupCommit := ⟨System.format g, .idle, .free⟩

theorem format_safe (crc : List UInt8 → UInt32) (g : Geometry) : (format g).Safe crc g := by
  refine ⟨[], _, _, (Ring.format crc g).durable ?_ rfl rfl (by simp [System.format])⟩
  intro r hread
  have hnone : RedoEntry.deserialize crc (List.replicate g.segmentSize 0) = none :=
    RedoEntry.deserialize_zero (leAt_replicate_zero _ _ _)
  have hread' : r ∈ RedoEntry.deserialize crc (List.replicate g.segmentSize 0) := hread
  rw [hnone] at hread'
  cases hread'

/-- The writes that have reached the device form a chain, prepared flush or not. -/
theorem Held.chain (h : s.Held crc g) : ∃ dropped first last n,
    Durable crc g False (s.settled g) dropped first last ∧
      Chain crc g False s.base.durable first s.base.unsynced n := by
  obtain ⟨dropped, first, last, hdur⟩ := h
  have hchain := hdur.chain
  unfold settled at hchain
  split at hchain
  · obtain ⟨n, hn⟩ := hchain.init
    exact ⟨dropped, first, last, n, hdur, hn⟩
  · exact ⟨dropped, first, last, last, hdur, hchain⟩

end GroupCommit

/-- The coordinator after a list of steps on a freshly formatted ring. -/
def reachedGroup (crc : List UInt8 → UInt32) (g : Geometry) (calls : List GroupCall) :
    GroupCommit :=
  run (GroupCommit.step crc g) (GroupCommit.format g) calls

def CleanGroupRun (crc : List UInt8 → UInt32) (g : Geometry) (calls : List GroupCall) : Prop :=
  Guarded (GroupCommit.step crc g) (GroupCommit.CallClean crc g) (GroupCommit.format g) calls

instance (crc : List UInt8 → UInt32) (g : Geometry) (calls : List GroupCall) :
    Decidable (CleanGroupRun crc g calls) :=
  inferInstanceAs (Decidable (Guarded _ _ _ _))

def GroupCommit.HeaderKept (s : GroupCommit) (keep : Nat → Disk.Kept) : Prop :=
  s.holder = .header ∧ (keep s.base.unsynced.length).header = true

instance (s : GroupCommit) (keep : Nat → Disk.Kept) : Decidable (s.HeaderKept keep) :=
  inferInstanceAs (Decidable (_ ∧ _))

def GroupCommit.leftBy (g : Geometry) (s : GroupCommit) (keep : Nat → Disk.Kept) : Disk :=
  let disk := s.base.durable.survive g s.base.unsynced keep
  if s.HeaderKept keep then { disk with header := s.base.log.header } else disk

/-- The crash is clean; one that keeps the header of a fence or reclaim keeps all blocks that were
written before it. -/
def GroupCommit.CrashClean (crc : List UInt8 → UInt32) (g : Geometry) (s : GroupCommit)
    (keep : Nat → Disk.Kept) : Prop :=
  if s.HeaderKept keep then ∀ i < s.base.unsynced.length, ∀ b, (keep i).block b = true
  else CleanCrash crc (s.leftBy g keep).segment s.base.unsynced keep

/-- Opening what a crash leaves recovers every acknowledged entry above the fence. -/
def GroupCommit.Recovers (crc : List UInt8 → UInt32) (g : Geometry) (s : GroupCommit)
    (keep : Nat → Disk.Kept) : Prop :=
  ∃ log, RingLog.open crc g (s.leftBy g keep) = .ok log ∧
    ∀ e ∈ s.base.acked, s.base.log.checkpointSeq < e.sequence.toNat → e ∈ log.recover

namespace GroupCommit

variable {crc : List UInt8 → UInt32} {g : Geometry} {s : GroupCommit} {keep : Nat → Disk.Kept}

theorem Held.recovers (h : s.Held crc g) (hnot : ¬ s.HeaderKept keep)
    (hcrash : s.CrashClean crc g keep) : s.Recovers crc g keep := by
  obtain ⟨dropped, first, last, n, hdur, hchain⟩ := h.chain
  obtain ⟨hdurable, hacked⟩ := s.settled_durable g
  rw [← hdurable] at hchain
  have hleft : s.leftBy g keep = (s.settled g).durable.survive g s.base.unsynced keep := by
    rw [hdurable]
    exact if_neg hnot
  rw [CrashClean, if_neg hnot, hleft] at hcrash
  obtain ⟨log, hopen, hfence, hrecover⟩ := hdur.reopen hchain hcrash
  rw [hacked, hfence, log_settled] at hrecover
  exact ⟨log, hleft ▸ hopen, hrecover⟩

/-- Until its sync the header of a fence or reclaim is on the device or not: a crash leaves what it
leaves before the write, or after the sync. -/
theorem Headed.recovers (h : s.Headed crc g) (hcrash : s.CrashClean crc g keep) :
    s.Recovers crc g keep := by
  obtain ⟨old, dropped, first, last, hle, hdur⟩ := h.before
  by_cases hkept : s.HeaderKept keep
  · obtain ⟨dropped', first', last', hafter⟩ := h.after
    rw [CrashClean, if_pos hkept] at hcrash
    have hnone : CleanCrash crc (s.base.writeHeader.durable.survive g [] keep).segment [] keep :=
      trivial
    have hleft : s.leftBy g keep = s.base.writeHeader.durable := by
      have hsegment := hdur.chain.survive_blocks hcrash
      rw [leftBy, if_pos hkept]
      exact congrArg (Disk.mk s.base.log.header) hsegment
    obtain ⟨log, hopen, hfence, hrecover⟩ := hafter.reopen hafter.chain hnone
    exact ⟨log, hleft ▸ hopen, fun e he hlt => hrecover e he (hfence ▸ hlt)⟩
  · rw [CrashClean, if_neg hkept, leftBy, if_neg hkept] at hcrash
    obtain ⟨log, hopen, hfence, hrecover⟩ := hdur.reopen hdur.chain hcrash
    refine ⟨log, ?_, fun e he hlt => hrecover e he ?_⟩
    · rw [leftBy, if_neg hkept]
      exact hopen
    · rw [hfence]
      exact hle.trans_lt hlt

end GroupCommit

theorem two_phase_flush_recovers (crc : List UInt8 → UInt32) (g : Geometry)
    (calls : List GroupCall) (keep : Nat → Disk.Kept) (hclean : CleanGroupRun crc g calls)
    (hcrash : (reachedGroup crc g calls).CrashClean crc g keep) :
    (reachedGroup crc g calls).Recovers crc g keep := by
  have hsafe : (reachedGroup crc g calls).Safe crc g :=
    hclean.invariant (fun s call h => h.step) (GroupCommit.format_safe crc g)
  unfold GroupCommit.Safe at hsafe
  split at hsafe
  · rename_i hholder
    exact hsafe.recovers (by simp [GroupCommit.HeaderKept, hholder]) hcrash
  · rename_i hholder
    exact hsafe.2.recovers (by simp [GroupCommit.HeaderKept, hholder]) hcrash
  · exact hsafe.recovers hcrash

/-! ## Two runs -/

/-- An entry is appended between the phases of a flush, the log rolls on, a fence covers two
entries, and the crash comes after a flush that was not synced. -/
def overlappingCalls : List GroupCall :=
  [.append (.setLocked ⟨.replicate 32 1⟩ true), .prepare true,
    .append (.setLocked ⟨.replicate 32 2⟩ true), .commit, .finish, .directFlush, .directSync,
    .append (.setLocked ⟨.replicate 32 3⟩ true), .prepare true, .commit, .finish, .setFence 2,
    .headerSync, .reclaim, .headerSync, .append (.setLocked ⟨.replicate 32 4⟩ true),
    .prepare false, .commit, .finish]

def nothingKept : Nat → Disk.Kept := fun _ => ⟨false, fun _ => false⟩

theorem two_phase_flush_recovers_overlapping :
    CleanGroupRun weightedSum twoBlockRing overlappingCalls ∧
      (reachedGroup weightedSum twoBlockRing overlappingCalls).Recovers weightedSum twoBlockRing
        nothingKept := by
  have hclean : CleanGroupRun weightedSum twoBlockRing overlappingCalls := by decide +kernel
  refine ⟨hclean, two_phase_flush_recovers weightedSum twoBlockRing overlappingCalls nothingKept
    hclean ?_⟩
  exact cleanCrash_of_lost (fun _ => rfl) (by decide +kernel)

instance GroupCommit.Recovers.decidable (crc : List UInt8 → UInt32) (g : Geometry)
    (s : GroupCommit) (keep : Nat → Disk.Kept) : Decidable (s.Recovers crc g keep) :=
  inferInstanceAs (Decidable (∃ log, _ = Except.ok log ∧ _))

/-- A flush takes an entry of 600 bytes and the header out of the log; before it writes them, a
strict commit rolls on to the next segment and is flushed and acknowledged. -/
def staleHeaderCalls : List GroupCall :=
  [.append (.create ⟨.replicate 32 7⟩ 0 4096 1 false (List.replicate 531 5) []), .prepare true,
    .appendAtomic [.checkpoint], .directFlush, .directSync, .commit]

def allKept : Nat → Disk.Kept := fun _ => ⟨true, fun _ => true⟩

/-- The stale header names the segment before, and the acknowledged entry is not read. -/
theorem stale_header_hides_acknowledged :
    ¬ (reachedGroup weightedSum sectorRing staleHeaderCalls).Recovers weightedSum sectorRing
      allKept := by
  decide +kernel

end TeraSlab.Redo
