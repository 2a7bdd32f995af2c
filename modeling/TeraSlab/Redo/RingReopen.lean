import TeraSlab.Redo.RingSteps

/-!
# Reopening a ring

Opening the device of a ring after any calls recovers exactly the entries that were flushed and
lie above the fence, as long as no flush leaves a pad of one to three bytes and every segment is
sealed where a scan can stop.
-/

namespace TeraSlab.Redo

open Foundations RingLog

variable {crc : List UInt8 → UInt32} {g : Geometry} {s : System}

namespace System

section

variable (crc g)

/-- The condition on a call: its appends are clean, and a flush leaves no short pad. -/
def CallClean (s : System) (call : RingCall) : Prop :=
  (∀ p ∈ s.appends crc g call, p.1.AppendClean crc g p.2) ∧
    match call with
    | .flush => s.PadClean g
    | _ => True

instance (s : System) (call : RingCall) : Decidable (s.CallClean crc g call) :=
  match call with
  | .append _ | .appendAtomic _ | .flush | .setFence _ | .reclaim =>
    inferInstanceAs (Decidable (_ ∧ _))

/-- The checksum rejects what was never written, in every state an append of the call starts
from. -/
def CallGenuine (s : System) (call : RingCall) : Prop :=
  ∀ p ∈ s.appends crc g call, p.1.Genuine crc g

end

theorem Sound.step {call : RingCall} (h : s.Sound crc g) (hclean : s.CallClean crc g call)
    (hgen : s.CallGenuine crc g call) : (s.step crc g call).Sound crc g := by
  obtain ⟨happends, hflush⟩ := hclean
  have hkeeps (s s' : System) (op : RedoOp) (h : s.Sound crc g)
      (hop : s.AppendClean crc g op ∧ s.Genuine crc g) (hstep : s.tryAppend crc g op = some s') :
      s'.Sound crc g := h.tryAppend hop.2 hop.1 hstep
  have hops := fun p hp => And.intro (happends p hp) (hgen p hp)
  cases call with
  | append op => exact keeps_append hkeeps h (hops (s, op) List.mem_cons_self)
  | appendAtomic ops => exact keeps_appendAtomic hkeeps h hops
  | flush => exact h.flush hflush
  | setFence throughSequence => exact h.setFence throughSequence
  | reclaim => exact h.reclaim

theorem format_sound (crc : List UInt8 → UInt32) (g : Geometry) : (format g).Sound crc g :=
  ⟨[], [], [], 0, Ring.format crc g⟩

end System

namespace Ring

variable {dropped : List RedoEntry} {content : List (Nat × List RedoEntry)}
  {recent : List RedoEntry} {cur : Nat}

section

variable (h : Ring crc g s dropped content recent cur)
include h

/-- With live entries on the device, the scan of the active segment reads the recent ones. -/
theorem scan_live (hgen : s.Genuine crc g)
    (hne : entriesOf content ++ recent ≠ []) :
    scanSegment crc g s.image s.image.header.activeSeg (lastSeq 0 (entriesOf content)) true =
      .ok (recent, min (roundUp cur g.align) g.segmentSize,
        lastSeq (lastSeq 0 (entriesOf content)) recent) := by
  refine scanSegment_parses (h.holds.size _) h.holds.parses ?_
  rw [← lastSeq_append]
  refine h.stops_of_quiet hne h.holds.cur_dvd (.inr (.inr (.inr rfl))) ?_
  intro r hread
  exact h.flushed_le_last hne
    (h.written _ r.1 (hgen _ h.holds.active_lt cur h.holds.cur_le r.1 r.2 hread))

/-- With nothing live on the device, the scan reads at most entries the fence covers. -/
theorem scan_covered (hgen : s.Genuine crc g)
    (hnil : entriesOf content ++ recent = []) (prev : Nat) :
    ∃ es stop last, scanSegment crc g s.image s.image.header.activeSeg prev true =
      .ok (es, stop, last) ∧ ∀ e ∈ es, e.sequence.toNat ≤ s.log.checkpointSeq := by
  obtain ⟨es, stop, last, hscan, hmem⟩ := @scanLoop_active crc g
    (s.image.segment s.image.header.activeSeg) s.image.header.activeSeg 0 prev (g.segmentSize + 1)
  refine ⟨es, _, last, by rw [scanSegment, hscan], ?_⟩
  intro e he
  obtain ⟨p, n, hread⟩ := hmem e he
  refine h.flushed_covered hnil (h.written _ e (hgen _ h.holds.active_lt p ?_ e n hread))
  by_contra hp
  rw [List.drop_eq_nil_of_le (by rw [h.holds.size]; omega)] at hread
  cases hread

/-- The entries above the fence are all live. -/
theorem filter_flushed :
    (s.flushed.filter fun e => decide (s.log.checkpointSeq < e.sequence.toNat)) =
      (entriesOf content ++ recent).filter
        fun e => decide (s.log.checkpointSeq < e.sequence.toNat) := by
  have hdropped : (dropped.filter fun e => decide (s.log.checkpointSeq < e.sequence.toNat)) = [] :=
    List.filter_eq_nil_iff.mpr fun e he => by
      have hcovered := h.covered e he
      simp only [decide_eq_true_eq]
      omega
  rw [h.history, List.filter_append, hdropped, List.nil_append]

theorem open_recover (hgen : s.Genuine crc g) :
    ∃ log, RingLog.open crc g s.image = .ok log ∧
      log.recover = s.flushed.filter fun e => decide (s.log.checkpointSeq < e.sequence.toNat) := by
  have hfence := h.fence
  by_cases hnil : entriesOf content ++ recent = []
  · obtain ⟨es, stop, last, hscan, hcovered⟩ :=
      h.scan_covered hgen hnil (lastSeq 0 (entriesOf content))
    obtain ⟨segMax, hopen, -⟩ :=
      open_eq h.holds.sealed h.holds.segs h.holds.nodup_segs h.holds.active_not_mem hscan
    refine ⟨_, hopen, ?_⟩
    rw [h.filter_flushed, hnil, recover, hfence, (List.append_eq_nil_iff.mp hnil).1,
      List.filter_nil, List.filter_eq_nil_iff]
    intro e he
    simpa using hcovered e he
  · obtain ⟨segMax, hopen, -⟩ := open_eq h.holds.sealed h.holds.segs h.holds.nodup_segs
      h.holds.active_not_mem (h.scan_live hgen hnil)
    refine ⟨_, hopen, ?_⟩
    rw [h.filter_flushed, recover, hfence]

end

end Ring

/-- The checksum rejects what was never written, whenever the log looks at its device. -/
def GenuineRun (crc : List UInt8 → UInt32) (g : Geometry) (calls : List RingCall) : Prop :=
  Guarded (System.step crc g) (System.CallGenuine crc g) (System.format g) calls ∧
    (reachedRing crc g calls).Genuine crc g

def CleanRun (crc : List UInt8 → UInt32) (g : Geometry) (calls : List RingCall) : Prop :=
  Guarded (System.step crc g) (System.CallClean crc g) (System.format g) calls

instance (crc : List UInt8 → UInt32) (g : Geometry) (calls : List RingCall) :
    Decidable (CleanRun crc g calls) :=
  inferInstanceAs (Decidable (Guarded _ _ _ _))

instance decidableExistsOk {ε α : Type*} (x : Except ε α) (P : α → Prop) [DecidablePred P] :
    Decidable (∃ a, x = .ok a ∧ P a) :=
  match x with
  | .ok a => decidable_of_iff (P a) (by simp)
  | .error _ => isFalse (by simp)

/-- Reopening recovers exactly the flushed entries above the fence, in order. -/
def Reopens (crc : List UInt8 → UInt32) (g : Geometry) (s : System) : Prop :=
  ∃ log, RingLog.open crc g s.image = .ok log ∧
    log.recover = s.flushed.filter fun e => decide (s.log.checkpointSeq < e.sequence.toNat)

instance (crc : List UInt8 → UInt32) (g : Geometry) (s : System) : Decidable (Reopens crc g s) :=
  inferInstanceAs (Decidable (∃ log, _ = Except.ok log ∧ _))

theorem clean_reopen_recovers (crc : List UInt8 → UInt32) (g : Geometry) (calls : List RingCall)
    (hgen : GenuineRun crc g calls) (hclean : CleanRun crc g calls) :
    Reopens crc g (reachedRing crc g calls) := by
  have hsound : (reachedRing crc g calls).Sound crc g := by
    refine Guarded.invariant ?_ (System.format_sound crc g) (guarded_and.mpr ⟨hclean, hgen.1⟩)
    intro s call hs hcall
    exact hs.step hcall.1 hcall.2
  obtain ⟨dropped, content, recent, cur, hring⟩ := hsound
  exact hring.open_recover hgen.2

/-! ## Two runs -/

namespace System

/-- Every suffix of every segment either does not decode or is a frame written there. -/
def GenuineTails (crc : List UInt8 → UInt32) (g : Geometry) (s : System) : Prop :=
  ∀ seg < g.segmentCount, ∀ t ∈ (s.image.segment seg).tails,
    ∀ r ∈ RedoEntry.deserialize crc t, r.1 ∈ s.written seg

instance (crc : List UInt8 → UInt32) (g : Geometry) (s : System) :
    Decidable (s.GenuineTails crc g) :=
  inferInstanceAs (Decidable (∀ _ < _, ∀ _ ∈ _, ∀ _ ∈ _, _))

theorem GenuineTails.genuine (h : s.GenuineTails crc g) : s.Genuine crc g := by
  intro seg hseg pos _ e n hread
  exact h seg hseg _ ((List.mem_tails _ _).mpr (List.drop_suffix pos _)) (e, n) hread

end System

theorem genuineRun_of_tails {calls : List RingCall}
    (hcalls : Guarded (System.step crc g)
      (fun s call => ∀ p ∈ s.appends crc g call, p.1.GenuineTails crc g)
      (System.format g) calls)
    (hlast : (reachedRing crc g calls).GenuineTails crc g) : GenuineRun crc g calls := by
  refine ⟨?_, hlast.genuine⟩
  exact hcalls.mono fun s call h p hp => (h p hp).genuine

/-- A checksum the kernel evaluates quickly. -/
def weightedSum (bytes : List UInt8) : UInt32 :=
  .ofNat (bytes.foldl (fun acc b => (31 * acc + b.toNat) % 4294967291) 7)

def tinyRing : Geometry where
  align := 64
  segmentSize := 64
  segmentCount := 3
  align_pos := by decide
  segmentSize_pos := by decide
  align_dvd := by decide
  segmentCount_ge := by decide

def twoBlockRing : Geometry where
  align := 64
  segmentSize := 128
  segmentCount := 3
  align_pos := by decide
  segmentSize_pos := by decide
  align_dvd := by decide
  segmentCount_ge := by decide

/-- Four rolls, the last of them into a segment that was given back. -/
def wrappingCalls : List RingCall :=
  [.append (.setLocked ⟨.replicate 32 1⟩ true), .flush,
    .appendAtomic [.setLocked ⟨.replicate 32 2⟩ true, .setLocked ⟨.replicate 32 3⟩ false], .flush,
    .setFence 2, .reclaim, .append (.setLocked ⟨.replicate 32 4⟩ true), .flush]

theorem clean_reopen_wrapped :
    GenuineRun weightedSum tinyRing wrappingCalls ∧ CleanRun weightedSum tinyRing wrappingCalls ∧
      Reopens weightedSum tinyRing (reachedRing weightedSum tinyRing wrappingCalls) := by
  have hgen : GenuineRun weightedSum tinyRing wrappingCalls :=
    genuineRun_of_tails (by decide +kernel) (by decide +kernel)
  have hclean : CleanRun weightedSum tinyRing wrappingCalls := by decide +kernel
  exact ⟨hgen, hclean, clean_reopen_recovers weightedSum tinyRing wrappingCalls hgen hclean⟩

def sectorRing : Geometry where
  align := 512
  segmentSize := 1024
  segmentCount := 3
  align_pos := by decide
  segmentSize_pos := by decide
  align_dvd := by decide
  segmentCount_ge := by decide

/-- A create whose entry takes 511 bytes is flushed, then one more entry. -/
def shortPadCalls : List RingCall :=
  [.append (.create ⟨.replicate 32 7⟩ 0 4096 1 false (List.replicate 442 5) []), .flush,
    .append .checkpoint, .flush]

/-- A pad of one byte hides every entry flushed behind it. -/
theorem short_pad_hides_flushed :
    GenuineRun weightedSum sectorRing shortPadCalls ∧
      ¬ Reopens weightedSum sectorRing (reachedRing weightedSum sectorRing shortPadCalls) := by
  refine ⟨genuineRun_of_tails (by decide +kernel) (by decide +kernel), by decide +kernel⟩

end TeraSlab.Redo
