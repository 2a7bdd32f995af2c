import TeraSlab.Redo.RingCrash

/-!
# What is durable of a ring

The writes since the last sync lead from the durable device to the one the log works on, and every
acknowledged entry is on the durable device or covered by the fence. Appends, flushes and syncs keep
this, so that after a clean crash the device opens with every acknowledged entry above the fence.
-/

namespace TeraSlab.Redo

open Foundations RingLog

variable {crc : List UInt8 → UInt32} {g : Geometry} {fresh : Prop} {s : System}
  {dropped : List RedoEntry} {first last : Node}

/-- The log, its device and the chain of writes since the last sync. -/
structure Durable (crc : List UInt8 → UInt32) (g : Geometry) (fresh : Prop) (s : System)
    (dropped : List RedoEntry) (first last : Node) : Prop where
  ring : Ring crc g s dropped last.content last.recent last.cur
  chain : Chain crc g fresh s.durable first s.unsynced last
  acked : ∀ e ∈ s.acked, e ∈ dropped ∨ e ∈ first.entries

namespace System

/-- A write of the buffer, if there is one, leaves no short pad and nothing newer behind it. -/
def FlushClean (crc : List UInt8 → UInt32) (g : Geometry) (s : System) : Prop :=
  s.log.buffer ≠ [] → s.PadClean g ∧ s.BehindOld crc g

instance (crc : List UInt8 → UInt32) (g : Geometry) (s : System) : Decidable (s.FlushClean crc g) :=
  inferInstanceAs (Decidable (_ → _))

/-- An append whose roll, if it makes one, seals a segment a scan can read. -/
def AppendQuiet (crc : List UInt8 → UInt32) (g : Geometry) (s : System) (op : RedoOp) : Prop :=
  s.AppendClean crc g op ∧ (s.rolls g op = true → s.BehindOld crc g)

instance (crc : List UInt8 → UInt32) (g : Geometry) (s : System) (op : RedoOp) :
    Decidable (s.AppendQuiet crc g op) := inferInstanceAs (Decidable (_ ∧ (_ → _)))

end System

namespace Durable

section

variable (h : Durable crc g fresh s dropped first last)
include h

theorem step_writeOut {content' : List (Nat × List RedoEntry)} {recent' : List RedoEntry}
    (h' : Ring crc g (s.writeOut g) dropped content' recent'
      (roundUp (s.log.writePosInSeg + s.log.buffer.length) g.align)) :
    last.Step crc g s.image (s.log.flushWrite g)
      ⟨content', recent', roundUp (s.log.writePosInSeg + s.log.buffer.length) g.align⟩ := by
  have hring := h.ring
  have hle := le_roundUp (n := s.log.writePosInSeg + s.log.buffer.length) g.align_pos
  have hround : roundUp (s.log.writePosInSeg + s.log.buffer.length) g.align =
      s.log.writePosInSeg + roundUp s.log.buffer.length g.align :=
    roundUp_add g.align_pos hring.cursor_dvd
  refine ⟨hring.oldest.symm, rfl, hring.fence.symm, ?_, ?_, ?_⟩
  · have hbytes : (s.log.flushWrite g).bytes.length = roundUp s.log.buffer.length g.align := by
      simp only [RingLog.flushWrite, List.length_append, List.length_replicate]
      omega
    have hfit := roundUp_le g.align_dvd hring.room
    show s.log.writePosInSeg + (s.log.flushWrite g).bytes.length ≤ _
    omega
  · refine ⟨s.log.pendingEntries, ?_⟩
    have hhist := h'.history
    rw [hring.flushed_writeOut, hring.history, List.append_assoc] at hhist
    exact (List.append_cancel_left hhist)
  · cases hring.place with
    | here hactive hcursor =>
      refine .inl ⟨hactive, hcursor, ?_⟩
      show last.cur ≤ roundUp _ _
      omega
    | next hactive hcursor hfree hrecent hstop =>
      exact .inr ⟨hactive, hcursor, hfree, hrecent, hstop⟩

/-- Writing the buffer out adds one write to the chain. -/
theorem writeOut (hne : s.log.buffer ≠ [])
    (hpad : s.PadClean g) (hold : s.BehindOld crc g) :
    ∃ last', last'.cur = roundUp (s.log.writePosInSeg + s.log.buffer.length) g.align ∧
      last'.recent ≠ [] ∧ Durable crc g fresh (s.writeOut g) dropped first last' := by
  have hring := h.ring
  obtain ⟨content', recent', hrecent, hring'⟩ := hring.writeOut hne hpad
  refine ⟨⟨content', recent', _⟩, rfl, hrecent, hring', ?_, ?_⟩
  · have hon : (⟨content', recent', roundUp (s.log.writePosInSeg + s.log.buffer.length) g.align⟩ :
        Node).On crc g fresh (s.writeOut g).image := by
      refine ⟨hring'.holds, .inl ?_⟩
      have hactive : (s.writeOut g).image.header.activeSeg = s.log.activeSeg := by
        rw [System.image_writeOut hring.cursor_dvd hne]
        rfl
      rw [hactive]
      exact hring.stops_written hold hring' rfl hrecent (.inr rfl)
    rw [System.image_writeOut hring.cursor_dvd hne] at hon
    have hchain := h.chain.concat (h.step_writeOut hring') hon
    rw [System.writeOut_eq hring.cursor_dvd hne]
    exact hchain
  · rw [System.writeOut_eq hring.cursor_dvd hne]
    exact h.acked

/-- The log after its buffer is written, with entries in its active segment. -/
theorem written_here (hpad : s.PadClean g)
    (hold : s.BehindOld crc g) (hused : 0 < s.log.writePosInSeg + s.log.buffer.length) :
    ∃ last', last'.cur = roundUp (s.log.writePosInSeg + s.log.buffer.length) g.align ∧
      last'.recent ≠ [] ∧ Durable crc g fresh (s.writeOut g) dropped first last' := by
  by_cases hbuf : s.log.buffer = []
  · rw [System.writeOut_of_empty hbuf]
    rw [hbuf, List.length_nil, Nat.add_zero] at hused ⊢
    cases h.ring.place with
    | here hactive hcursor =>
      rw [roundUp_eq_self h.ring.cursor_dvd g.align_pos]
      exact ⟨last, hcursor.symm, h.ring.holds.cur_eq.resolve_left (by omega), h⟩
    | next _ hcursor => omega
  · exact h.writeOut hbuf hpad hold

theorem roll (hpad : s.PadClean g)
    (hquiet : s.SealQuiet crc g) (hold : s.BehindOld crc g)
    (hused : 0 < s.log.writePosInSeg + s.log.buffer.length)
    (hfree : g.next s.log.activeSeg ≠ s.log.oldestSeg) :
    ∃ last', Durable crc g fresh
      { s.writeOut g with log := (s.writeOut g).log.advance g } dropped first last' := by
  obtain ⟨last', hcur, hne, hdur⟩ := h.written_here hpad hold hused
  exact ⟨last', h.ring.roll hdur.ring hcur hne hold hpad hquiet hused hfree, hdur.chain, hdur.acked⟩

theorem tryAppend {op : RedoOp}
    (hquiet : s.AppendQuiet crc g op) {s' : System} (hstep : s.tryAppend crc g op = some s') :
    ∃ last', Durable crc g fresh s' dropped first last' := by
  obtain ⟨⟨hfits, hseq, hroll⟩, hold⟩ := hquiet
  rcases System.tryAppend_cases hstep with ⟨hrolls, hlen, hused, hfree, rfl⟩ | ⟨hroom, rfl⟩
  · obtain ⟨hpad, hseal⟩ := hroll hrolls
    obtain ⟨last', hdur⟩ := h.roll hpad hseal (hold hrolls) hused hfree
    exact ⟨last', hdur.ring.bufferEntry hfits (h.ring.nextSequence_advance.trans_lt hseq)
      (h.ring.room_advance hlen), hdur.chain, hdur.acked⟩
  · exact ⟨last, h.ring.bufferEntry hfits hseq hroom, h.chain, h.acked⟩

/-- Once everything is synced, everything flushed may be acknowledged. -/
theorem acknowledge (hsynced : s.unsynced = []) :
    Durable crc g fresh { s with acked := s.flushed } dropped first last := by
  refine ⟨h.ring.congr rfl rfl rfl rfl, h.chain, ?_⟩
  have hchain := h.chain
  rw [hsynced] at hchain
  cases hchain with
  | nil _ =>
    intro e he
    have he' : e ∈ s.flushed := he
    rw [h.ring.history] at he'
    exact List.mem_append.mp he'

theorem sync :
    Durable crc g fresh s.sync dropped last last := by
  refine ⟨h.ring.congr rfl rfl rfl rfl, .nil h.chain.on_last, ?_⟩
  intro e he
  exact (h.acked e he).imp_right fun hfirst => h.chain.entries_le.subset hfirst

/-- A flush: the chain starts again at what it has written. -/
theorem flush (hflush : s.FlushClean crc g)
    (hsynced : s.log.buffer = [] → s.unsynced = []) :
    ∃ first' last', Durable crc g fresh (s.flush g) dropped first' last' := by
  unfold System.flush
  by_cases hbuf : s.log.buffer = []
  · simp only [hbuf, List.isEmpty_nil, if_true]
    exact ⟨first, last, h.acknowledge (hsynced hbuf)⟩
  have hempty : s.log.buffer.isEmpty = false := by simpa using hbuf
  obtain ⟨hpad, hold⟩ := hflush hbuf
  obtain ⟨last', -, -, hdur⟩ := h.writeOut hbuf hpad hold
  simp only [hempty, Bool.false_eq_true, if_false]
  exact ⟨last', last', hdur.sync.acknowledge rfl⟩

end

end Durable

/-! ## Opening what a crash leaves -/

namespace Node

variable {disk : Disk} {m : Node}

/-- Where its scan ends the device opens, with exactly its entries. -/
theorem On.open_eq (h : m.On crc g fresh disk) (hlive : fresh ∨ m.entries ≠ []) :
    ∃ segMax, RingLog.open crc g disk = .ok {
        nextSequence := max (max disk.header.nextSequence 1) (lastSeq 0 m.entries + 1)
        checkpointSeq := disk.header.checkpointSeq
        activeSeg := disk.header.activeSeg
        oldestSeg := disk.header.oldestSeg
        writePosInSeg := m.cur
        segMaxSeq := segMax
        buffer := []
        entriesCache := m.entries
        pendingEntries := [] } ∧
      (∀ p ∈ m.content, ∀ e ∈ p.2, e.sequence.toNat ≤ segMax p.1) ∧
      ∀ e ∈ m.recent, e.sequence.toNat ≤ segMax disk.header.activeSeg := by
  have hstop := h.ends.resolve_right fun hempty => hlive.elim hempty.1 fun hne => hne hempty.2
  have hcur : min (roundUp m.cur g.align) g.segmentSize = m.cur := by
    rw [roundUp_eq_self h.holds.cur_dvd g.align_pos]
    exact min_eq_left h.holds.cur_le
  rw [entries, lastSeq_append] at hstop
  have hscan := scanSegment_parses (h.holds.size _) h.holds.parses hstop
  rw [hcur, ← lastSeq_append] at hscan
  obtain ⟨segMax, hopen, hcontent, hrecent⟩ := Redo.open_eq h.holds.sealed h.holds.segs
    h.holds.nodup_segs h.holds.active_not_mem hscan
  exact ⟨segMax, hopen, hcontent, hrecent h.holds.parses.weaken.ascends⟩

/-- With no entries on it the device opens as well. -/
theorem On.open_ok (h : m.On crc g fresh disk) : ∃ log, RingLog.open crc g disk = .ok log ∧
    log.checkpointSeq = disk.header.checkpointSeq ∧
    (m.entries ≠ [] → log.entriesCache = m.entries) := by
  by_cases hne : m.entries = []
  · obtain ⟨es, stop, last, hscan, -⟩ := @scanLoop_active crc g
      (disk.segment disk.header.activeSeg) disk.header.activeSeg 0
      (lastSeq 0 (entriesOf m.content)) (g.segmentSize + 1)
    have hsegment : scanSegment crc g disk disk.header.activeSeg
        (lastSeq 0 (entriesOf m.content)) true =
        .ok (es, min (roundUp stop g.align) g.segmentSize, last) := by rw [scanSegment, hscan]
    obtain ⟨segMax, hopen, -⟩ := Redo.open_eq h.holds.sealed h.holds.segs h.holds.nodup_segs
      h.holds.active_not_mem hsegment
    exact ⟨_, hopen, rfl, fun h => absurd hne h⟩
  · obtain ⟨segMax, hopen, -⟩ := h.open_eq (.inr hne)
    exact ⟨_, hopen, rfl, fun _ => rfl⟩

end Node

namespace Durable

variable {keep : Nat → Disk.Kept}

/-- After a clean crash the device opens with every acknowledged entry above the fence. The crash
may come before the last of the writes. -/
theorem reopen (h : Durable crc g fresh s dropped first last) {ws : List FlushWrite} {n : Node}
    (hws : Chain crc g fresh s.durable first ws n)
    (hclean : CleanCrash crc (s.durable.survive g ws keep).segment ws keep) :
    ∃ log, RingLog.open crc g (s.durable.survive g ws keep) = .ok log ∧
      log.checkpointSeq = s.log.checkpointSeq ∧
      ∀ e ∈ s.acked, log.checkpointSeq < e.sequence.toNat → e ∈ log.recover := by
  obtain ⟨m, hon, hfrom, -⟩ := hws.survive hclean
  obtain ⟨log, hopen, hfence, hcache⟩ := hon.open_ok
  have hcheckpoint : log.checkpointSeq = s.log.checkpointSeq := by
    rw [hfence, (hws.survive_oldest_fence keep).2, ← h.chain.fence_last]
    exact h.ring.fence
  refine ⟨log, hopen, hcheckpoint, ?_⟩
  intro e he habove
  rcases h.acked e he with hdropped | hfirst
  · have hcovered := h.ring.covered e hdropped
    omega
  have hmem : e ∈ m.entries := hfrom.subset hfirst
  rw [recover, hcache (List.ne_nil_of_mem hmem)]
  exact List.mem_filter.mpr ⟨hmem, by simpa using habove⟩

end Durable

/-! ## Header writes -/

/-- A frame that decodes at the cursor is no newer than the last entry written. -/
def System.CursorOld (crc : List UInt8 → UInt32) (s : System) : Prop :=
  ∀ r ∈ RedoEntry.deserialize crc ((s.image.segment s.log.activeSeg).drop s.log.writePosInSeg),
    r.1.sequence.toNat ≤ lastSeq 0 s.flushed

instance (crc : List UInt8 → UInt32) (s : System) : Decidable (s.CursorOld crc) :=
  inferInstanceAs (Decidable (∀ _ ∈ _, _))

namespace Ring

variable {content : List (Nat × List RedoEntry)} {recent : List RedoEntry} {cur : Nat}

section

variable (h : Ring crc g s dropped content recent cur) (hold : s.CursorOld crc)
    (hactive : s.log.activeSeg = s.image.header.activeSeg)
include h hold hactive

/-- A device whose header names the active segment ends at the cursor. -/
theorem on_cursor :
    (⟨content, recent, cur⟩ : Node).On crc g False s.image := by
  refine ⟨h.holds, ?_⟩
  by_cases hnil : entriesOf content ++ recent = []
  · exact .inr ⟨not_false, hnil⟩
  refine .inl (h.stops_of_quiet hnil h.holds.cur_dvd (.inr (.inr (.inr rfl))) ?_)
  intro r hread
  rw [← hactive, ← h.cursor_eq hactive] at hread
  have hle := hold r hread
  rwa [h.history, lastSeq_append_of_ne_nil _ hnil] at hle

/-- After a sync everything written may be acknowledged. -/
theorem durable (hsynced : s.unsynced = [])
    (hacked : ∀ e ∈ s.acked, e ∈ s.flushed) :
    Durable crc g False s dropped ⟨content, recent, cur⟩ ⟨content, recent, cur⟩ := by
  have himage : s.image = s.durable := by rw [System.image, hsynced, List.foldl_nil]
  refine ⟨h, ?_, ?_⟩
  · rw [hsynced, ← himage]
    exact .nil (h.on_cursor hold hactive)
  intro e he
  have hmem := hacked e he
  rw [h.history] at hmem
  exact List.mem_append.mp hmem

end

end Ring

namespace Durable

theorem acked_flushed (h : Durable crc g fresh s dropped first last) {e : RedoEntry}
    (he : e ∈ s.acked) : e ∈ s.flushed := by
  rw [h.ring.history]
  exact List.mem_append.mpr ((h.acked e he).imp_right fun hfirst =>
    h.chain.entries_le.subset hfirst)

section

variable (h : Durable crc g False s dropped first last) (hold : s.CursorOld crc)
include h hold

theorem setFence (throughSequence : Nat) :
    ∃ first' last', Durable crc g False (s.setFence throughSequence) dropped first' last' := by
  unfold System.setFence
  dsimp only
  split
  · exact ⟨first, last, h⟩
  obtain ⟨content', recent', cur', hring⟩ :=
    h.ring.writeHeader (Nat.le_max_right throughSequence s.log.checkpointSeq)
  exact ⟨_, _, hring.durable hold rfl rfl fun e he => h.acked_flushed he⟩

theorem reclaim :
    ∃ dropped' first' last', Durable crc g False (s.reclaim g) dropped' first' last' := by
  rcases s.reclaim_cases g with hsame | ⟨cache, hfreed⟩
  · rw [hsame]
    exact ⟨dropped, first, last, h⟩
  obtain ⟨dropped', content', recent', cur', hring⟩ := h.ring.reclaim cache
  obtain ⟨hactive, hcursor, -⟩ := Ring.cursor_reclaimLoop (g := g) g.segmentCount s.log 0 false
  rw [hfreed]
  refine ⟨dropped', _, _, hring.durable ?_ rfl rfl fun e he => h.acked_flushed he⟩
  show ∀ r ∈ RedoEntry.deserialize crc ((s.image.segment
    (s.log.reclaimLoop g g.segmentCount 0 false).1.activeSeg).drop
    (s.log.reclaimLoop g g.segmentCount 0 false).1.writePosInSeg), _
  rw [hactive, hcursor]
  exact hold

end

end Durable

end TeraSlab.Redo
