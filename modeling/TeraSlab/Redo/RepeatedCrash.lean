import TeraSlab.Redo.RingDurable
import TeraSlab.Redo.RingReopen

/-!
# Repeated crashes of a ring

A log is appended to and flushed; now and then, also in the middle of a flush, it crashes, and is
opened again on whatever the crash left. As long as every crash damages the un-synced writes at the
start of one of them, and every flush and roll is clean, each of these openings succeeds and
recovers every entry acknowledged so far.

A crash that cuts a flush in the middle of a block is not survived: the log goes on behind the torn
frame, and the next opening stops in front of it.
-/

namespace TeraSlab.Redo

open Foundations RingLog

inductive CrashCall where
  | append (op : RedoOp)
  | appendAtomic (ops : List RedoOp)
  | flush
  /-- A crash, possibly between the writes of a flush and its sync, and the opening after it. -/
  | crash (midFlush : Bool) (keep : Nat → Disk.Kept)

namespace System

variable (crc : List UInt8 → UInt32) (g : Geometry)

def atCrash (s : System) (midFlush : Bool) : System := if midFlush then s.writeOut g else s

def leftBy (s : System) (midFlush : Bool) (keep : Nat → Disk.Kept) : Disk :=
  (s.atCrash g midFlush).durable.survive g (s.atCrash g midFlush).unsynced keep

/-- A log opened on a device; what it has read counts as written. -/
def reopened (s : System) (disk : Disk) (log : RingLog) : System where
  log := log
  durable := disk
  unsynced := []
  flushed := log.entriesCache
  written := fun _ => []
  acked := s.acked

def crashStep (s : System) : CrashCall → System
  | .append op => (s.tryAppend crc g op).getD s
  | .appendAtomic ops => s.appendAtomic crc g ops
  | .flush => s.flush g
  | .crash midFlush keep =>
    match RingLog.open crc g (s.leftBy g midFlush keep) with
    | .ok log => s.reopened (s.leftBy g midFlush keep) log
    | .error _ => s

def CrashClean (s : System) : CrashCall → Prop
  | .append op => s.AppendQuiet crc g op
  | .appendAtomic ops => ∀ p ∈ s.appends crc g (.appendAtomic ops), p.1.AppendQuiet crc g p.2
  | .flush => s.FlushClean crc g
  | .crash midFlush keep =>
    (midFlush = true → s.FlushClean crc g) ∧
      CleanCrash crc (s.leftBy g midFlush keep).segment (s.atCrash g midFlush).unsynced keep

variable {crc g} {s s' : System} {op : RedoOp}

/-- What every call keeps: with nothing buffered, nothing waits for a sync. -/
def Steady (crc : List UInt8 → UInt32) (g : Geometry) (s : System) : Prop :=
  (∃ first last, Durable crc g True s [] first last) ∧ (s.log.buffer = [] → s.unsynced = [])

theorem buffer_tryAppend (h : s.tryAppend crc g op = some s') : s'.log.buffer ≠ [] := by
  rcases tryAppend_cases h with ⟨-, -, -, -, rfl⟩ | ⟨-, rfl⟩
  · exact RingLog.bufferEntry_ne_nil crc _ op
  · exact RingLog.bufferEntry_ne_nil crc _ op

theorem Steady.tryAppend (h : s.Steady crc g) (hquiet : s.AppendQuiet crc g op)
    (hstep : s.tryAppend crc g op = some s') : s'.Steady crc g := by
  obtain ⟨⟨first, last, hdur⟩, -⟩ := h
  obtain ⟨last', hdur'⟩ := hdur.tryAppend hquiet hstep
  exact ⟨⟨first, last', hdur'⟩, fun hnil => absurd hnil (buffer_tryAppend hstep)⟩

theorem Steady.flush (h : s.Steady crc g) (hflush : s.FlushClean crc g) :
    (s.flush g).Steady crc g := by
  obtain ⟨⟨first, last, hdur⟩, hsynced⟩ := h
  refine ⟨?_, ?_⟩
  · exact hdur.flush hflush hsynced
  unfold System.flush
  split
  · exact hsynced
  · exact fun _ => rfl

theorem acked_atCrash (midFlush : Bool) : (s.atCrash g midFlush).acked = s.acked := by
  unfold System.atCrash System.writeOut
  split
  · split <;> rfl
  · rfl

/-- What is durable at the moment of a crash. -/
theorem Steady.atCrash (h : s.Steady crc g) {midFlush : Bool}
    (hflush : midFlush = true → s.FlushClean crc g) :
    ∃ first last, Durable crc g True (s.atCrash g midFlush) [] first last := by
  obtain ⟨⟨first, last, hdur⟩, -⟩ := h
  unfold System.atCrash
  split
  · rename_i hmid
    by_cases hbuf : s.log.buffer = []
    · rw [writeOut_of_empty hbuf]
      exact ⟨first, last, hdur⟩
    obtain ⟨hpad, hold⟩ := hflush hmid hbuf
    obtain ⟨last', -, -, hdur'⟩ := hdur.writeOut hbuf hpad hold
    exact ⟨first, last', hdur'⟩
  · exact ⟨first, last, hdur⟩

end System

variable {keep : Nat → Disk.Kept}

/-- The log opened on what a clean crash leaves goes on from there. -/
theorem Durable.reopened {crc : List UInt8 → UInt32} {g : Geometry} {s : System} {first last : Node}
    (h : Durable crc g True s [] first last)
    (hclean : CleanCrash crc (s.durable.survive g s.unsynced keep).segment s.unsynced keep) :
    ∃ log, RingLog.open crc g (s.durable.survive g s.unsynced keep) = .ok log ∧
      (s.reopened (s.durable.survive g s.unsynced keep) log).Steady crc g := by
  obtain ⟨m, hon, hfrom, hto⟩ := h.chain.survive hclean
  obtain ⟨segMax, hopen, hcontent, hrecent⟩ := hon.open_eq (.inl trivial)
  have hasc : Ascends 0 m.entries :=
    ascends_append.mpr ⟨hon.holds.sealed.ascends, hon.holds.parses.ascends⟩
  refine ⟨_, hopen, ⟨m, m, ⟨hon.holds, rfl, rfl, .here rfl rfl, rfl, by simp [System.reopened],
    hon.holds.cur_le, rfl, by simp, ?_, ?_, ?_, by simp [System.reopened], hcontent, hrecent,
    by simp [System.reopened]⟩, .nil hon, ?_⟩,
    fun _ => rfl⟩
  · show Ascends 0 (m.entries ++ [])
    rwa [List.append_nil]
  · show ∀ e ∈ m.entries ++ [], _
    rw [List.append_nil]
    intro e he
    have hflushed : e ∈ s.flushed := by
      rw [h.ring.history]
      exact hto.subset he
    have hrange := (h.ring.range e (List.mem_append_left _ hflushed)).1
    have hle := hasc.le_lastSeq.2 e he
    refine ⟨hrange, ?_⟩
    show _ < max (max _ 1) (lastSeq 0 m.entries + 1)
    omega
  · show 0 < max (max _ 1) (lastSeq 0 m.entries + 1)
    omega
  · intro e he
    exact (h.acked e he).imp_right fun hfirst => hfrom.subset hfirst

namespace System

variable {crc : List UInt8 → UInt32} {g : Geometry} {s : System}

theorem format_steady (crc : List UInt8 → UInt32) (g : Geometry) : (format g).Steady crc g := by
  have hring := Ring.format crc g
  refine ⟨⟨⟨[], [], 0⟩, ⟨[], [], 0⟩, hring, .nil ⟨hring.holds, .inl ?_⟩, by simp [format]⟩,
    fun _ => rfl⟩
  refine stops_undecoded (Nat.dvd_zero _) (RedoEntry.deserialize_zero ?_)
  exact leAt_replicate_zero _ _ _

theorem Steady.crashStep {call : CrashCall} (h : s.Steady crc g)
    (hclean : s.CrashClean crc g call) :
    (s.crashStep crc g call).Steady crc g := by
  have hkeeps (s s' : System) (op : RedoOp) (h : s.Steady crc g)
      (hquiet : s.AppendQuiet crc g op) (hstep : s.tryAppend crc g op = some s') :
      s'.Steady crc g := h.tryAppend hquiet hstep
  cases call with
  | append op => exact keeps_append hkeeps h hclean
  | appendAtomic ops => exact keeps_appendAtomic hkeeps h hclean
  | flush => exact h.flush hclean
  | crash midFlush keep =>
    obtain ⟨first, last, hdur⟩ := h.atCrash hclean.1
    obtain ⟨log, hopen, hsteady⟩ := hdur.reopened hclean.2
    have hacked : (s.atCrash g midFlush).acked = s.acked := acked_atCrash midFlush
    show (match RingLog.open crc g (s.leftBy g midFlush keep) with
      | .ok log => s.reopened (s.leftBy g midFlush keep) log
      | .error _ => s).Steady crc g
    rw [leftBy, hopen]
    simpa only [System.reopened, hacked] using hsteady

end System

def reachedCrash (crc : List UInt8 → UInt32) (g : Geometry) (calls : List CrashCall) : System :=
  run (System.crashStep crc g) (System.format g) calls

def CleanCrashRun (crc : List UInt8 → UInt32) (g : Geometry) (calls : List CrashCall) : Prop :=
  Guarded (System.crashStep crc g) (System.CrashClean crc g) (System.format g) calls

/-- The opening after a crash succeeds and recovers every acknowledged entry above the fence. -/
def Recovers (crc : List UInt8 → UInt32) (g : Geometry) (s : System) (midFlush : Bool)
    (keep : Nat → Disk.Kept) : Prop :=
  ∃ log, RingLog.open crc g (s.leftBy g midFlush keep) = .ok log ∧
    ∀ e ∈ s.acked, log.checkpointSeq < e.sequence.toNat → e ∈ log.recover

theorem every_reopen_recovers (crc : List UInt8 → UInt32) (g : Geometry)
    (before after : List CrashCall) (midFlush : Bool) (keep : Nat → Disk.Kept)
    (hclean : CleanCrashRun crc g (before ++ .crash midFlush keep :: after)) :
    Recovers crc g (reachedCrash crc g before) midFlush keep := by
  obtain ⟨hbefore, hcrash, -⟩ := guarded_append.mp hclean
  have hsteady : (reachedCrash crc g before).Steady crc g :=
    hbefore.invariant (fun s call h => h.crashStep) (System.format_steady crc g)
  obtain ⟨first, last, hdur⟩ := hsteady.atCrash hcrash.1
  obtain ⟨log, hopen, -, hrecover⟩ := hdur.reopen hdur.chain hcrash.2
  refine ⟨log, hopen, ?_⟩
  rw [System.acked_atCrash] at hrecover
  exact hrecover

/-! ## Two runs -/

/-- A crash that keeps no header and tears the first write at its start. -/
theorem crashClean_of_lost {crc : List UInt8 → UInt32} {g : Geometry} {s : System} {midFlush : Bool}
    (hlost : ∀ i, (keep i).header = false) (hflush : midFlush = true → s.FlushClean crc g)
    (hnone : ∀ w ∈ (s.atCrash g midFlush).unsynced.head?,
      RedoEntry.deserialize crc (((s.leftBy g midFlush keep).segment w.seg).drop w.offset) = none) :
    s.CrashClean crc g (.crash midFlush keep) :=
  ⟨hflush, cleanCrash_of_lost hlost hnone⟩

def secondBlockOnly : Nat → Disk.Kept := fun _ => ⟨false, fun b => b == 1⟩

def tornCalls : List CrashCall :=
  [.append (.setLocked ⟨.replicate 32 1⟩ true), .flush,
    .append (.create ⟨.replicate 32 7⟩ 0 4096 1 false [] []), .crash true secondBlockOnly,
    .append (.setLocked ⟨.replicate 32 2⟩ true), .flush]

theorem every_reopen_recovers_torn :
    CleanCrashRun weightedSum twoBlockRing (tornCalls ++ [.crash false secondBlockOnly]) ∧
      Recovers weightedSum twoBlockRing (reachedCrash weightedSum twoBlockRing tornCalls) false
        secondBlockOnly := by
  have hclean : CleanCrashRun weightedSum twoBlockRing
      (tornCalls ++ [.crash false secondBlockOnly]) := by
    refine ⟨?_, ?_, ?_, crashClean_of_lost (fun _ => rfl) ?_ ?_, ?_, ?_,
      crashClean_of_lost (fun _ => rfl) ?_ ?_, trivial⟩
    · show System.AppendQuiet _ _ _ _
      decide +kernel
    · show System.FlushClean _ _ _
      decide +kernel
    · show System.AppendQuiet _ _ _ _
      decide +kernel
    · decide +kernel
    · decide +kernel
    · show System.AppendQuiet _ _ _ _
      decide +kernel
    · show System.FlushClean _ _ _
      decide +kernel
    · decide +kernel
    · decide +kernel
  exact ⟨hclean, every_reopen_recovers weightedSum twoBlockRing tornCalls [] false secondBlockOnly
    hclean⟩

instance Recovers.decidable (crc : List UInt8 → UInt32) (g : Geometry) (s : System)
    (midFlush : Bool) (keep : Nat → Disk.Kept) : Decidable (Recovers crc g s midFlush keep) :=
  inferInstanceAs (Decidable (∃ log, _ = Except.ok log ∧ _))

def firstSectorOnly : Nat → Disk.Kept := fun _ => ⟨true, fun b => b == 0⟩

/-- Two entries of 50 and 600 bytes are cut between their two sectors; an entry is appended and
flushed after the opening. -/
def cutCalls : List CrashCall :=
  [.append (.setLocked ⟨.replicate 32 1⟩ true),
    .append (.create ⟨.replicate 32 7⟩ 0 4096 1 false (List.replicate 531 5) []),
    .crash true firstSectorOnly, .append .checkpoint, .flush]

/-- The entry flushed after the torn tail is lost at the next opening, whatever that crash keeps. -/
theorem cut_flush_hides_acknowledged :
    ¬ Recovers weightedSum sectorRing (reachedCrash weightedSum sectorRing cutCalls) false
      firstSectorOnly := by
  decide +kernel

end TeraSlab.Redo
