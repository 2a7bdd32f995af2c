import TeraSlab.Redo.RingDisk
import TeraSlab.Redo.RingSystem

/-!
# The invariant of a ring log

What the device holds, relative to the log in memory. The header on the device either names the
active segment of the log, or the log has rolled on since and has not yet written to its new
segment; then the segment the header names is complete and a scan stops behind its entries.
-/

namespace TeraSlab.Redo

open Foundations RingLog

/-- Where the log appends, relative to what the device holds. -/
inductive Place (crc : List UInt8 → UInt32) (g : Geometry) (log : RingLog) (disk : Disk)
    (content : List (Nat × List RedoEntry)) (recent : List RedoEntry) (cur : Nat) : Prop where
  | here (hactive : log.activeSeg = disk.header.activeSeg) (hcursor : log.writePosInSeg = cur)
  | next (hactive : log.activeSeg = g.next disk.header.activeSeg) (hcursor : log.writePosInSeg = 0)
      (hfree : g.next disk.header.activeSeg ≠ disk.header.oldestSeg) (hne : recent ≠ [])
      (hstop : Stops crc g.align (disk.segment disk.header.activeSeg) false cur
        (lastSeq 0 (entriesOf content ++ recent)))

/-- The log and its device agree; `dropped` are the entries of segments given back. -/
structure Ring (crc : List UInt8 → UInt32) (g : Geometry) (s : System) (dropped : List RedoEntry)
    (content : List (Nat × List RedoEntry)) (recent : List RedoEntry) (cur : Nat) : Prop where
  holds : s.image.Holds crc g content recent cur
  oldest : s.image.header.oldestSeg = s.log.oldestSeg
  fence : s.image.header.checkpointSeq = s.log.checkpointSeq
  place : Place crc g s.log s.image content recent cur
  buffer : s.log.buffer = frames crc s.log.pendingEntries
  fits : ∀ e ∈ s.log.pendingEntries, e.op.Fits
  room : s.log.writePosInSeg + s.log.buffer.length ≤ g.segmentSize
  history : s.flushed = dropped ++ (entriesOf content ++ recent)
  covered : ∀ e ∈ dropped, e.sequence.toNat ≤ s.log.checkpointSeq
  ascends : Ascends 0 (s.flushed ++ s.log.pendingEntries)
  range : ∀ e ∈ s.flushed ++ s.log.pendingEntries,
    0 < e.sequence.toNat ∧ e.sequence.toNat < s.log.nextSequence
  next_pos : 0 < s.log.nextSequence
  written : ∀ seg, ∀ e ∈ s.written seg, e ∈ s.flushed
  bound_content : ∀ p ∈ content, ∀ e ∈ p.2, e.sequence.toNat ≤ s.log.segMaxSeq p.1
  bound_recent : ∀ e ∈ recent, e.sequence.toNat ≤ s.log.segMaxSeq s.image.header.activeSeg
  bound_pending : ∀ e ∈ s.log.pendingEntries, e.sequence.toNat ≤ s.log.segMaxSeq s.log.activeSeg

section Lists

theorem lastSeq_append_of_ne_nil (es : List RedoEntry) {es' : List RedoEntry} (h : es' ≠ [])
    (prev : Nat) : lastSeq prev (es ++ es') = lastSeq 0 es' := by
  rw [lastSeq_append]
  exact lastSeq_of_ne_nil h _ _

end Lists

variable {crc : List UInt8 → UInt32} {g : Geometry} {s : System} {dropped : List RedoEntry}
  {content : List (Nat × List RedoEntry)} {recent : List RedoEntry} {cur : Nat}

namespace Ring

/-- The invariant sees the log, the device with every write applied, and what was written. -/
theorem congr {s' : System} (h : Ring crc g s dropped content recent cur) (hlog : s'.log = s.log)
    (himage : s'.image = s.image) (hflushed : s'.flushed = s.flushed)
    (hwritten : s'.written = s.written) : Ring crc g s' dropped content recent cur := by
  constructor
  all_goals simp only [hlog, himage, hflushed, hwritten]
  exacts [h.holds, h.oldest, h.fence, h.place, h.buffer, h.fits, h.room, h.history, h.covered,
    h.ascends, h.range, h.next_pos, h.written, h.bound_content, h.bound_recent, h.bound_pending]

theorem format (crc : List UInt8 → UInt32) (g : Geometry) :
    Ring crc g (System.format g) [] [] [] 0 := by
  have hpos := g.segmentCount_pos
  refine ⟨⟨fun _ => List.length_replicate, hpos, hpos, (Geometry.sealedSegs_self hpos).symm, .nil 0,
    .done 0 0, Nat.dvd_zero _, .inl rfl⟩, rfl, rfl, .here rfl rfl, rfl, ?_, Nat.zero_le _, rfl, ?_,
    trivial, ?_, Nat.one_pos, ?_, ?_, ?_, ?_⟩
  all_goals simp [System.format]

section

variable (h : Ring crc g s dropped content recent cur)
include h

theorem active_lt :
    s.log.activeSeg < g.segmentCount := by
  cases h.place with
  | here hactive => exact hactive ▸ h.holds.active_lt
  | next hactive => exact hactive ▸ g.next_lt _

theorem cursor_dvd :
    g.align ∣ s.log.writePosInSeg := by
  cases h.place with
  | here _ hcursor => exact hcursor ▸ h.holds.cur_dvd
  | next _ hcursor => exact hcursor ▸ Nat.dvd_zero _

/-- Every entry on the device precedes what is buffered. -/
theorem ascends_pending :
    Ascends (lastSeq 0 (entriesOf content ++ recent)) s.log.pendingEntries := by
  have hasc := (ascends_append.mp h.ascends).2
  rw [h.history] at hasc
  by_cases hne : entriesOf content ++ recent = []
  · rw [hne]
    exact hasc.weaken
  · rwa [lastSeq_append_of_ne_nil _ hne] at hasc

/-- What has been written is at or below the last live sequence number, if there is one. -/
theorem flushed_le_last
    (hne : entriesOf content ++ recent ≠ []) {e : RedoEntry} (he : e ∈ s.flushed) :
    e.sequence.toNat ≤ lastSeq 0 (entriesOf content ++ recent) := by
  have hasc := (ascends_append.mp h.ascends).1
  rw [← lastSeq_append_of_ne_nil dropped hne 0, ← h.history]
  exact hasc.le_lastSeq.2 e he

theorem last_pos (hne : entriesOf content ++ recent ≠ []) :
    lastSeq 0 (entriesOf content ++ recent) ≠ 0 := by
  obtain ⟨e, hmem, heq⟩ := lastSeq_mem hne 0
  have hflushed : e ∈ s.flushed := h.history ▸ List.mem_append_right _ hmem
  have hpos := (h.range e (List.mem_append_left _ hflushed)).1
  omega

/-- With nothing live on the device everything written is covered by the fence. -/
theorem flushed_covered
    (hnil : entriesOf content ++ recent = []) {e : RedoEntry} (he : e ∈ s.flushed) :
    e.sequence.toNat ≤ s.log.checkpointSeq := by
  have hhist := h.history
  rw [hnil, List.append_nil] at hhist
  exact h.covered e (hhist ▸ he)

end

/-! ## Buffering an entry -/

theorem bufferEntry (h : Ring crc g s dropped content recent cur) {op : RedoOp} (hfits : op.Fits)
    (hseq : s.log.nextSequence < 2 ^ 64)
    (hroom : s.log.writePosInSeg + s.log.buffer.length + entryLen op ≤ g.segmentSize) :
    Ring crc g { s with log := s.log.bufferEntry crc op } dropped content recent cur := by
  have hseqNat : (UInt64.ofNat s.log.nextSequence).toNat = s.log.nextSequence :=
    UInt64.toNat_ofNat_of_lt' hseq
  have hlen : ((⟨.ofNat s.log.nextSequence, op⟩ : RedoEntry).serialize crc).length = entryLen op :=
    RedoEntry.length_serialize crc _
  have hmono : ∀ seg n, n ≤ s.log.segMaxSeq seg → n ≤ (s.log.bufferEntry crc op).segMaxSeq seg := by
    intro seg n hn
    by_cases hseg : seg = s.log.activeSeg
    · subst hseg
      simp only [RingLog.bufferEntry, Function.update_self]
      omega
    · simpa only [RingLog.bufferEntry, Function.update_of_ne hseg] using hn
  have hplace : Place crc g (s.log.bufferEntry crc op) s.image content recent cur := by
    cases h.place with
    | here hactive hcursor => exact .here hactive hcursor
    | next hactive hcursor hfree hne hstop => exact .next hactive hcursor hfree hne hstop
  refine ⟨h.holds, h.oldest, h.fence, hplace, ?_, forall_mem_concat.mpr ⟨h.fits, hfits⟩, ?_,
    h.history, h.covered, ?_, ?_, Nat.succ_pos _, h.written,
    fun p hp e he => hmono _ _ (h.bound_content p hp e he),
    fun e he => hmono _ _ (h.bound_recent e he),
    forall_mem_concat.mpr ⟨fun e he => hmono _ _ (h.bound_pending e he), ?_⟩⟩
  · show s.log.buffer ++ _ = frames crc (s.log.pendingEntries ++ [_])
    rw [frames_append, ← h.buffer, frames_cons]
    simp [frames]
  · show s.log.writePosInSeg + (s.log.buffer ++ _).length ≤ _
    rw [List.length_append, hlen]
    omega
  · show Ascends 0 (s.flushed ++ (s.log.pendingEntries ++ [_]))
    rw [← List.append_assoc]
    exact h.ascends.concat fun e he => hseqNat.symm ▸ (h.range e he).2
  · show ∀ e ∈ s.flushed ++ (s.log.pendingEntries ++ [_]), _ ∧ _ < s.log.nextSequence + 1
    rw [← List.append_assoc]
    exact forall_mem_concat.mpr ⟨fun e he => (h.range e he).imp_right Nat.lt_succ_of_lt,
      hseqNat.symm ▸ h.next_pos, hseqNat.trans_lt (Nat.lt_succ_self _)⟩
  · simp only [RingLog.bufferEntry, Function.update_self]
    omega

end Ring

/-! ## Writing the buffer out -/

def RingLog.afterFlush (g : Geometry) (log : RingLog) : RingLog :=
  { log with
    writePosInSeg := log.writePosInSeg + roundUp log.buffer.length g.align
    buffer := []
    entriesCache := log.entriesCache ++ log.pendingEntries
    pendingEntries := [] }

/-- What a flush from a block boundary writes. -/
def RingLog.flushWrite (g : Geometry) (log : RingLog) : FlushWrite where
  seg := log.activeSeg
  offset := log.writePosInSeg
  bytes := log.buffer ++
    List.replicate (roundUp log.buffer.length g.align - log.buffer.length) 0
  header := (log.afterFlush g).header

theorem prepareFlush_eq {log : RingLog} (hdvd : g.align ∣ log.writePosInSeg)
    (hne : log.buffer ≠ []) :
    log.prepareFlush g = some (log.afterFlush g,
      ⟨log.buffer, 0, log.activeSeg, log.writePosInSeg, (log.afterFlush g).header⟩) := by
  have hbase : log.writePosInSeg / g.align * g.align = log.writePosInSeg := Nat.div_mul_cancel hdvd
  simp [prepareFlush, hne, hbase, RingLog.afterFlush]

namespace System

theorem writeOut_eq (hdvd : g.align ∣ s.log.writePosInSeg) (hne : s.log.buffer ≠ []) :
    s.writeOut g = { s with
      log := s.log.afterFlush g
      unsynced := s.unsynced ++ [s.log.flushWrite g]
      flushed := s.flushed ++ s.log.pendingEntries
      written := Function.update s.written s.log.activeSeg
        (s.written s.log.activeSeg ++ s.log.pendingEntries) } := by
  rw [writeOut, prepareFlush_eq hdvd hne]
  dsimp only
  simp [commitFlush, RingLog.flushWrite]

theorem writeOut_of_empty (h : s.log.buffer = []) : s.writeOut g = s := by
  simp [writeOut, prepareFlush, h]

theorem image_writeOut (hdvd : g.align ∣ s.log.writePosInSeg) (hne : s.log.buffer ≠ []) :
    (s.writeOut g).image = s.image.write (s.log.flushWrite g) := by
  rw [writeOut_eq hdvd hne]
  exact List.foldl_concat ..

end System

namespace Ring

section

variable (h : Ring crc g s dropped content recent cur)
include h

theorem flushWrite_bytes :
    (s.log.flushWrite g).bytes = paddedFrames crc g.align s.log.pendingEntries := by
  simp only [RingLog.flushWrite, paddedFrames, h.buffer]

theorem pending_ne_nil (hne : s.log.buffer ≠ []) :
    s.log.pendingEntries ≠ [] :=
  fun hnil => hne (by rw [h.buffer, hnil]; rfl)

/-- The parts of the invariant a flush changes without looking at the device. -/
theorem of_writeOut (hne : s.log.buffer ≠ [])
    {content' : List (Nat × List RedoEntry)} {recent' : List RedoEntry}
    (hholds : (s.writeOut g).image.Holds crc g content' recent'
      (roundUp (s.log.writePosInSeg + s.log.buffer.length) g.align))
    (hentries : entriesOf content' ++ recent' =
      entriesOf content ++ recent ++ s.log.pendingEntries)
    (hcontent : ∀ p ∈ content', ∀ e ∈ p.2, e.sequence.toNat ≤ s.log.segMaxSeq p.1)
    (hrecent : ∀ e ∈ recent', e.sequence.toNat ≤ s.log.segMaxSeq s.log.activeSeg) :
    Ring crc g (s.writeOut g) dropped content' recent'
      (roundUp (s.log.writePosInSeg + s.log.buffer.length) g.align) := by
  have hdvd := h.cursor_dvd
  have hround : roundUp (s.log.writePosInSeg + s.log.buffer.length) g.align =
      s.log.writePosInSeg + roundUp s.log.buffer.length g.align := roundUp_add g.align_pos hdvd
  have hcur := hholds.cur_le
  have himage := System.image_writeOut hdvd hne
  rw [himage] at hholds
  rw [System.writeOut_eq hdvd hne] at himage ⊢
  refine ⟨by rw [himage]; exact hholds, by rw [himage]; rfl, by rw [himage]; rfl,
    .here (by rw [himage]; rfl) hround.symm, rfl, by simp [RingLog.afterFlush], ?_, ?_,
    h.covered, ?_, ?_, h.next_pos, ?_, hcontent, by rw [himage]; exact hrecent,
    by simp [RingLog.afterFlush]⟩
  · show s.log.writePosInSeg + roundUp s.log.buffer.length g.align + 0 ≤ _
    omega
  · rw [h.history, hentries]
    simp
  · show Ascends 0 (s.flushed ++ s.log.pendingEntries ++ [])
    rw [List.append_nil]
    exact h.ascends
  · show ∀ e ∈ s.flushed ++ s.log.pendingEntries ++ [], _
    rw [List.append_nil]
    exact h.range
  · intro seg e he
    by_cases hseg : seg = s.log.activeSeg
    · subst hseg
      simp only [Function.update_self, List.mem_append] at he
      exact List.mem_append.mpr (he.imp_left (h.written _ e))
    · simp only [Function.update_of_ne hseg] at he
      exact List.mem_append_left _ (h.written seg e he)

/-- Writing the buffer out keeps the invariant; the header then names the active segment. -/
theorem writeOut (hne : s.log.buffer ≠ [])
    (hpad : PadOk g.align (s.log.writePosInSeg + s.log.buffer.length)) :
    ∃ content' recent', recent' ≠ [] ∧
      Ring crc g (s.writeOut g) dropped content' recent'
        (roundUp (s.log.writePosInSeg + s.log.buffer.length) g.align) := by
  have hdvd := h.cursor_dvd
  have hbytes := h.flushWrite_bytes
  have hpend := h.pending_ne_nil hne
  have hlen : s.log.buffer.length = (frames crc s.log.pendingEntries).length :=
    congrArg List.length h.buffer
  have hroom := h.room
  rw [hlen] at hpad hroom
  cases hplace : h.place with
  | here hactive hcursor =>
    refine ⟨content, recent ++ s.log.pendingEntries, by simp [hpend], ?_⟩
    refine h.of_writeOut hne ?_ (by simp) h.bound_content ?_
    · rw [System.image_writeOut hdvd hne, hlen, hcursor]
      exact h.holds.write_here hactive hcursor hbytes hpend h.oldest.symm hactive
        (hcursor ▸ hroom) h.fits h.ascends_pending (hcursor ▸ hpad)
    · exact List.forall_mem_append.mpr ⟨hactive ▸ h.bound_recent, h.bound_pending⟩
  | next hactive hcursor hfree hrecent hstop =>
    rw [hcursor, Nat.zero_add] at hpad hroom
    refine ⟨content ++ [(s.image.header.activeSeg, recent)], s.log.pendingEntries, hpend, ?_⟩
    refine h.of_writeOut hne ?_ (by rw [entriesOf_concat]) ?_ h.bound_pending
    · rw [System.image_writeOut hdvd hne, hlen, hcursor, Nat.zero_add]
      exact h.holds.write_next hrecent hstop hfree hactive hcursor hbytes hpend h.oldest.symm
        hactive hroom h.fits h.ascends_pending hpad
    · exact forall_mem_concat.mpr ⟨h.bound_content, h.bound_recent⟩

end

end Ring

end TeraSlab.Redo
