import TeraSlab.Redo.RingInvariant

/-!
# What the calls of a ring log keep

A roll is harmless when the segment it seals ends where a scan can stop: at its end, in front of a
zero length word, or in front of a whole frame left from an earlier use of the segment. A flush is
harmless when it does not leave a pad of one to three bytes. Under these conditions every call keeps
the device readable.
-/

namespace TeraSlab.Redo

open Foundations RingLog

variable {crc : List UInt8 → UInt32} {g : Geometry} {s : System} {dropped : List RedoEntry}
  {content : List (Nat × List RedoEntry)} {recent : List RedoEntry} {cur : Nat}

namespace System

/-- The append moves on to the next segment. -/
def rolls (g : Geometry) (s : System) (op : RedoOp) : Bool :=
  entryLen op ≤ g.segmentSize && s.log.needsRoll g op && !s.log.ringFull g

/-- The bytes of the active segment behind its last block, once the buffer is written. -/
def behindBuffer (g : Geometry) (s : System) : List UInt8 :=
  (s.image.segment s.log.activeSeg).drop
    (roundUp (s.log.writePosInSeg + s.log.buffer.length) g.align)

/-- A scan that arrives there stops: at the end of the segment, a zero word or a whole frame. -/
def SealQuiet (crc : List UInt8 → UInt32) (g : Geometry) (s : System) : Prop :=
  (s.behindBuffer g).length < entryHeaderSize ∨ len32At (s.behindBuffer g) 0 = 0 ∨
    (RedoEntry.deserialize crc (s.behindBuffer g)).isSome

/-- The buffer, once written, leaves no pad of one to three bytes. -/
def PadClean (g : Geometry) (s : System) : Prop :=
  PadOk g.align (s.log.writePosInSeg + s.log.buffer.length)

def AppendClean (crc : List UInt8 → UInt32) (g : Geometry) (s : System) (op : RedoOp) : Prop :=
  op.Fits ∧ s.log.nextSequence < 2 ^ 64 ∧ (s.rolls g op = true → s.PadClean g ∧ s.SealQuiet crc g)

instance (crc : List UInt8 → UInt32) (g : Geometry) (s : System) : Decidable (s.SealQuiet crc g) :=
  inferInstanceAs (Decidable (_ ∨ _ ∨ _))

instance (g : Geometry) (s : System) : Decidable (s.PadClean g) :=
  inferInstanceAs (Decidable (PadOk _ _))

instance (crc : List UInt8 → UInt32) (g : Geometry) (s : System) (op : RedoOp) :
    Decidable (s.AppendClean crc g op) :=
  inferInstanceAs (Decidable (_ ∧ _ ∧ (_ → _)))

/-- A frame that decodes behind the buffer is no newer than the last entry appended. -/
def BehindOld (crc : List UInt8 → UInt32) (g : Geometry) (s : System) : Prop :=
  ∀ r ∈ RedoEntry.deserialize crc (s.behindBuffer g),
    r.1.sequence.toNat ≤ lastSeq 0 (s.flushed ++ s.log.pendingEntries)

instance (crc : List UInt8 → UInt32) (g : Geometry) (s : System) : Decidable (s.BehindOld crc g) :=
  inferInstanceAs (Decidable (∀ _ ∈ _, _))

/-- A frame that decodes in a segment has been written to that segment. -/
def Genuine (crc : List UInt8 → UInt32) (g : Geometry) (s : System) : Prop :=
  ∀ seg < g.segmentCount, ∀ pos ≤ g.segmentSize, ∀ e n,
    RedoEntry.deserialize crc ((s.image.segment seg).drop pos) = some (e, n) → e ∈ s.written seg

end System

namespace Ring

section

variable (h : Ring crc g s dropped content recent cur)
include h

theorem pending_eq_nil (hbuf : s.log.buffer = []) :
    s.log.pendingEntries = [] := frames_eq_nil.mp (h.buffer.symm.trans hbuf)

/-- Where the last block of a segment ends the scan stops, when what lies behind is quiet. -/
theorem stops_of_quiet
    (hne : entriesOf content ++ recent ≠ []) {buf : List UInt8} {pos : Nat} {isActive : Bool}
    (hdvd : g.align ∣ pos)
    (hquiet : (buf.drop pos).length < entryHeaderSize ∨ len32At (buf.drop pos) 0 = 0 ∨
      (RedoEntry.deserialize crc (buf.drop pos)).isSome ∨ isActive = true)
    (hstale : ∀ r ∈ RedoEntry.deserialize crc (buf.drop pos),
      r.1.sequence.toNat ≤ lastSeq 0 (entriesOf content ++ recent)) :
    Stops crc g.align buf isActive pos (lastSeq 0 (entriesOf content ++ recent)) := by
  unfold Stops
  cases hread : RedoEntry.deserialize crc (buf.drop pos) with
  | some r => exact ⟨h.last_pos hne, hstale r hread⟩
  | none =>
    rw [hread, List.length_drop, entryHeaderSize] at hquiet
    simp only [Option.isSome_none, Bool.false_eq_true, false_or] at hquiet
    by_cases hword : len32At (buf.drop pos) 0 = 0
    · exact .inr (.inr ⟨hword, hdvd⟩)
    rcases hquiet with hshort | hzero | hact
    · exact .inl (by omega)
    · exact absurd hzero hword
    · exact .inr (.inl ⟨hword, hact⟩)

theorem advance (hbuf : s.log.buffer = [])
    (hactive : s.log.activeSeg = s.image.header.activeSeg) (hne : recent ≠ [])
    (hfree : g.next s.log.activeSeg ≠ s.log.oldestSeg)
    (hstop : Stops crc g.align (s.image.segment s.log.activeSeg) false cur
      (lastSeq 0 (entriesOf content ++ recent))) :
    Ring crc g { s with log := s.log.advance g } dropped content recent cur := by
  have hpend := h.pending_eq_nil hbuf
  refine ⟨h.holds, h.oldest, h.fence, ?_, h.buffer, h.fits, ?_, h.history, h.covered, h.ascends,
    h.range, h.next_pos, h.written, h.bound_content, h.bound_recent, ?_⟩
  · refine .next (congrArg g.next hactive) rfl ?_ hne (hactive ▸ hstop)
    show g.next s.image.header.activeSeg ≠ s.image.header.oldestSeg
    rw [← hactive, h.oldest]
    exact hfree
  · show 0 + s.log.buffer.length ≤ _
    rw [hbuf]
    exact Nat.zero_le _
  · intro e he
    have he' : e ∈ s.log.pendingEntries := he
    rw [hpend] at he'
    exact absurd he' (List.not_mem_nil)

theorem cursor_eq
    (hactive : s.log.activeSeg = s.image.header.activeSeg) : s.log.writePosInSeg = cur := by
  cases h.place with
  | here _ hcursor => exact hcursor
  | next hnext =>
    have hlt := h.holds.active_lt
    have hge := g.segmentCount_ge
    rw [hactive, Geometry.next_eq hlt] at hnext
    split_ifs at hnext <;> omega

/-- Writing the buffer out leaves the bytes behind its last block alone. -/
theorem drop_writeOut :
    ((s.writeOut g).image.segment s.log.activeSeg).drop
      (roundUp (s.log.writePosInSeg + s.log.buffer.length) g.align) = s.behindBuffer g := by
  by_cases hbuf : s.log.buffer = []
  · rw [System.writeOut_of_empty hbuf, System.behindBuffer]
  have hdvd := h.cursor_dvd
  have hroom := h.room
  have hround : roundUp (s.log.writePosInSeg + s.log.buffer.length) g.align =
      s.log.writePosInSeg + roundUp s.log.buffer.length g.align := roundUp_add g.align_pos hdvd
  have hle := le_roundUp (n := s.log.buffer.length) g.align_pos
  have hwrite : (s.image.write (s.log.flushWrite g)).segment s.log.activeSeg =
      overwrite (s.image.segment s.log.activeSeg) s.log.writePosInSeg
        (s.log.flushWrite g).bytes := Disk.Holds.segment_write (s.log.flushWrite g)
  rw [System.image_writeOut hdvd hbuf, hwrite]
  refine drop_overwrite ?_ ?_
  · rw [h.holds.size]
    omega
  · simp only [RingLog.flushWrite, List.length_append, List.length_replicate, hround]
    omega

/-- The log after its buffer is written: the header names the active segment, which holds entries
whenever it is used at all. -/
theorem written_here (hpad : s.PadClean g)
    (hused : 0 < s.log.writePosInSeg + s.log.buffer.length) :
    ∃ content' recent', recent' ≠ [] ∧
      Ring crc g (s.writeOut g) dropped content' recent'
        (roundUp (s.log.writePosInSeg + s.log.buffer.length) g.align) ∧
      s.log.activeSeg = (s.writeOut g).image.header.activeSeg := by
  by_cases hbuf : s.log.buffer = []
  · rw [System.writeOut_of_empty hbuf]
    rw [hbuf, List.length_nil, Nat.add_zero] at hused ⊢
    cases h.place with
    | here hactive hcursor =>
      rw [roundUp_eq_self h.cursor_dvd g.align_pos, hcursor]
      exact ⟨content, recent, h.holds.cur_eq.resolve_left (by omega), h, hactive⟩
    | next _ hcursor => omega
  · obtain ⟨content', recent', hne, hring⟩ := h.writeOut hbuf hpad
    refine ⟨content', recent', hne, hring, ?_⟩
    rw [System.image_writeOut h.cursor_dvd hbuf]
    rfl

theorem flushed_writeOut :
    (s.writeOut g).flushed = s.flushed ++ s.log.pendingEntries := by
  by_cases hbuf : s.log.buffer = []
  · rw [System.writeOut_of_empty hbuf, h.pending_eq_nil hbuf, List.append_nil]
  · rw [System.writeOut_eq h.cursor_dvd hbuf]

/-- Under the checksum assumption whatever decodes behind the buffer is old. -/
theorem behindOld (hgen : s.Genuine crc g) :
    s.BehindOld crc g := by
  intro r hread
  have hmem := h.written _ r.1
    (hgen _ h.active_lt _ (roundUp_le g.align_dvd h.room) r.1 r.2 hread)
  exact h.ascends.le_lastSeq.2 r.1 (List.mem_append_left _ hmem)

/-- Once the buffer is written, the scan of its segment stops behind it. -/
theorem stops_written {content' : List (Nat × List RedoEntry)} {recent' : List RedoEntry}
    {cur' : Nat} (hold : s.BehindOld crc g)
    (h' : Ring crc g (s.writeOut g) dropped content' recent' cur')
    (hcur : cur' = roundUp (s.log.writePosInSeg + s.log.buffer.length) g.align)
    (hne : recent' ≠ []) {isActive : Bool} (hquiet : s.SealQuiet crc g ∨ isActive = true) :
    Stops crc g.align ((s.writeOut g).image.segment s.log.activeSeg) isActive cur'
      (lastSeq 0 (entriesOf content' ++ recent')) := by
  have hdrop := h.drop_writeOut
  rw [← hcur] at hdrop
  refine h'.stops_of_quiet (by simp [hne]) h'.holds.cur_dvd ?_ ?_
  · rw [hdrop]
    unfold System.SealQuiet at hquiet
    tauto
  · intro r hread
    rw [hdrop] at hread
    have hle := hold r hread
    rwa [← h.flushed_writeOut, h'.history, lastSeq_append_of_ne_nil _ (by simp [hne])] at hle

theorem log_writeOut :
    (s.writeOut g).log.activeSeg = s.log.activeSeg ∧
      (s.writeOut g).log.oldestSeg = s.log.oldestSeg ∧
      (s.writeOut g).log.nextSequence = s.log.nextSequence ∧ (s.writeOut g).log.buffer = [] := by
  by_cases hbuf : s.log.buffer = []
  · rw [System.writeOut_of_empty hbuf]
    exact ⟨rfl, rfl, rfl, hbuf⟩
  · rw [System.writeOut_eq h.cursor_dvd hbuf]
    exact ⟨rfl, rfl, rfl, rfl⟩

/-- A roll behind the written buffer leaves the device readable. -/
theorem roll {content' : List (Nat × List RedoEntry)} {recent' : List RedoEntry} {cur' : Nat}
    (h' : Ring crc g (s.writeOut g) dropped content' recent' cur')
    (hcur : cur' = roundUp (s.log.writePosInSeg + s.log.buffer.length) g.align)
    (hne : recent' ≠ []) (hold : s.BehindOld crc g)
    (hpad : s.PadClean g) (hquiet : s.SealQuiet crc g)
    (hused : 0 < s.log.writePosInSeg + s.log.buffer.length)
    (hfree : g.next s.log.activeSeg ≠ s.log.oldestSeg) :
    Ring crc g { s.writeOut g with log := (s.writeOut g).log.advance g } dropped content' recent'
      cur' := by
  obtain ⟨-, -, -, -, hactive⟩ := h.written_here hpad hused
  obtain ⟨hseg, holdest, -, hbuf⟩ := h.log_writeOut
  refine h'.advance hbuf (hseg.trans hactive) hne ?_ ?_
  · rw [hseg, holdest]
    exact hfree
  · rw [hseg]
    exact h.stops_written hold h' hcur hne (.inl hquiet)

theorem nextSequence_advance :
    ((s.writeOut g).log.advance g).nextSequence ≤ s.log.nextSequence :=
  h.log_writeOut.2.2.1.le

variable {op : RedoOp}

/-- The segment a roll moves to is empty. -/
theorem room_advance (hlen : entryLen op ≤ g.segmentSize) :
    ((s.writeOut g).log.advance g).writePosInSeg + ((s.writeOut g).log.advance g).buffer.length +
      entryLen op ≤ g.segmentSize := by
  have hempty : ((s.writeOut g).log.advance g).buffer = [] := h.log_writeOut.2.2.2
  rw [hempty, List.length_nil]
  exact (Nat.zero_add _).le.trans hlen

end

end Ring

/-! ## The calls -/

namespace System

variable (crc g)

def Sound (s : System) : Prop :=
  ∃ dropped content recent cur, Ring crc g s dropped content recent cur

variable {crc g} {s' : System}

/-- An append either rolls first or finds room in the active segment. -/
theorem tryAppend_cases (h : s.tryAppend crc g op = some s') :
    (s.rolls g op = true ∧ entryLen op ≤ g.segmentSize ∧
        0 < s.log.writePosInSeg + s.log.buffer.length ∧
        g.next s.log.activeSeg ≠ s.log.oldestSeg ∧
        s' = { s.writeOut g with log := ((s.writeOut g).log.advance g).bufferEntry crc op }) ∨
      (s.log.writePosInSeg + s.log.buffer.length + entryLen op ≤ g.segmentSize ∧
        s' = { s with log := s.log.bufferEntry crc op }) := by
  unfold System.tryAppend at h
  split at h
  · cases h
  split at h
  · rename_i hneeds
    split at h
    · cases h
    rename_i hfull
    have hover : g.segmentSize < s.log.writePosInSeg + s.log.buffer.length + entryLen op := by
      simpa [needsRoll] using hneeds
    cases h
    refine .inl ⟨?_, by omega, by omega, by simpa [ringFull] using hfull, rfl⟩
    simp only [rolls, Bool.and_eq_true, decide_eq_true_eq, Bool.not_eq_true']
    exact ⟨⟨by omega, hneeds⟩, by simpa using hfull⟩
  · rename_i hneeds
    cases h
    exact .inr ⟨by simpa [needsRoll] using hneeds, rfl⟩

theorem Sound.tryAppend (h : s.Sound crc g) (hgen : s.Genuine crc g)
    (hclean : s.AppendClean crc g op) (hstep : s.tryAppend crc g op = some s') :
    s'.Sound crc g := by
  obtain ⟨dropped, content, recent, cur, hring⟩ := h
  obtain ⟨hfits, hseq, hroll⟩ := hclean
  rcases tryAppend_cases hstep with ⟨hrolls, hlen, hused, hfree, rfl⟩ | ⟨hroom, rfl⟩
  · obtain ⟨hpad, hquiet⟩ := hroll hrolls
    obtain ⟨content', recent', hne, hwritten, -⟩ := hring.written_here hpad hused
    have hrolled := hring.roll hwritten rfl hne (hring.behindOld hgen) hpad hquiet hused hfree
    exact ⟨dropped, content', recent', _, hrolled.bufferEntry hfits
      (hring.nextSequence_advance.trans_lt hseq) (hring.room_advance hlen)⟩
  · exact ⟨dropped, content, recent, cur, hring.bufferEntry hfits hseq hroom⟩

theorem Sound.congr (h : s.Sound crc g) (hlog : s'.log = s.log) (himage : s'.image = s.image)
    (hflushed : s'.flushed = s.flushed) (hwritten : s'.written = s.written) : s'.Sound crc g := by
  obtain ⟨dropped, content, recent, cur, hring⟩ := h
  exact ⟨dropped, content, recent, cur, hring.congr hlog himage hflushed hwritten⟩

theorem Sound.flush (h : s.Sound crc g) (hpad : s.PadClean g) : (s.flush g).Sound crc g := by
  unfold System.flush
  split
  · exact h.congr rfl rfl rfl rfl
  rename_i hbuf
  obtain ⟨dropped, content, recent, cur, hring⟩ := h
  obtain ⟨content', recent', -, hring'⟩ := hring.writeOut (by simpa using hbuf) hpad
  have hsound : (s.writeOut g).Sound crc g := ⟨dropped, content', recent', _, hring'⟩
  exact hsound.congr rfl rfl rfl rfl

end System

namespace Ring

theorem writeHeader (h : Ring crc g s dropped content recent cur) {fence : Nat}
    (hfence : s.log.checkpointSeq ≤ fence) :
    ∃ content' recent' cur', Ring crc g
      ({ s with log := { s.log with checkpointSeq := fence } } : System).writeHeader
      dropped content' recent' cur' := by
  have hcovered : ∀ e ∈ dropped, e.sequence.toNat ≤ fence := fun e he =>
    (h.covered e he).trans hfence
  cases h.place with
  | here hactive hcursor =>
    refine ⟨content, recent, cur, h.holds.header_here h.oldest.symm hactive, rfl, rfl,
      .here rfl hcursor, h.buffer, h.fits, h.room, h.history, hcovered, h.ascends, h.range,
      h.next_pos, h.written, h.bound_content, ?_, h.bound_pending⟩
    intro e he
    show _ ≤ s.log.segMaxSeq s.log.activeSeg
    rw [hactive]
    exact h.bound_recent e he
  | next hactive hcursor hfree hne hstop =>
    refine ⟨content ++ [(s.image.header.activeSeg, recent)], [], 0,
      h.holds.header_next hne hstop hfree h.oldest.symm hactive, rfl, rfl, .here rfl hcursor,
      h.buffer, h.fits, h.room, ?_, hcovered, h.ascends, h.range, h.next_pos, h.written, ?_,
      by simp, h.bound_pending⟩
    · rw [entriesOf_concat, List.append_nil]
      exact h.history
    · exact forall_mem_concat.mpr ⟨h.bound_content, h.bound_recent⟩

/-- One segment given back: its entries are all covered by the fence. -/
theorem reclaim_one {log : RingLog}
    (h : Ring crc g ({ s with log := log } : System).writeHeader dropped content recent cur)
    (hne : log.oldestSeg ≠ log.activeSeg)
    (hcov : log.segMaxSeq log.oldestSeg ≤ log.checkpointSeq) :
    ∃ dropped' content', Ring crc g
      ({ s with log := { log with
          segMaxSeq := Function.update log.segMaxSeq log.oldestSeg 0
          oldestSeg := g.next log.oldestSeg } } : System).writeHeader
      dropped' content' recent cur := by
  have ho : log.oldestSeg < g.segmentCount := h.holds.oldest_lt
  have ha : log.activeSeg < g.segmentCount := h.holds.active_lt
  have hsegs : content.map Prod.fst = log.oldestSeg :: g.sealedSegs (g.next log.oldestSeg)
      log.activeSeg := h.holds.segs.trans (Geometry.sealedSegs_cons ho ha hne)
  obtain ⟨⟨seg, es⟩, content', rfl⟩ : ∃ p rest, content = p :: rest := by
    cases content with
    | nil => simp at hsegs
    | cons p rest => exact ⟨p, rest, rfl⟩
  obtain ⟨rfl, hrest⟩ : seg = log.oldestSeg ∧
      content'.map Prod.fst = g.sealedSegs (g.next log.oldestSeg) log.activeSeg := by
    simpa using hsegs
  have hcursor : log.writePosInSeg = cur := h.cursor_eq rfl
  -- the segment given back is not among the live ones any more
  have hout : ∀ p ∈ content', p.1 ≠ log.oldestSeg := by
    intro p hp heq
    have hmem : log.oldestSeg ∈ g.sealedSegs (g.next log.oldestSeg) log.activeSeg :=
      hrest ▸ heq ▸ List.mem_map_of_mem hp
    rw [Geometry.mem_sealedSegs (g.next_lt _) ha ho, Geometry.sealedCount_eq (g.next_lt _) ho,
      Geometry.sealedCount_eq (g.next_lt _) ha, Geometry.next_eq ho] at hmem
    split_ifs at hmem <;> omega
  have hactive : Function.update log.segMaxSeq log.oldestSeg 0 log.activeSeg =
      log.segMaxSeq log.activeSeg := Function.update_of_ne hne.symm ..
  refine ⟨dropped ++ es, content', h.holds.header_tail rfl rfl, rfl, rfl, .here rfl hcursor,
    h.buffer, h.fits, h.room, ?_, ?_, h.ascends, h.range, h.next_pos, h.written, ?_, ?_, ?_⟩
  · have hhist : s.flushed = dropped ++ (entriesOf ((log.oldestSeg, es) :: content') ++ recent) :=
      h.history
    show s.flushed = _
    rw [hhist, entriesOf_cons]
    simp
  · intro e he
    rcases List.mem_append.mp he with he | he
    · exact h.covered e he
    · exact (h.bound_content (log.oldestSeg, es) List.mem_cons_self e he).trans hcov
  · intro p hp e he
    show _ ≤ Function.update log.segMaxSeq log.oldestSeg 0 p.1
    rw [Function.update_of_ne (hout p hp)]
    exact h.bound_content p (List.mem_cons_of_mem _ hp) e he
  · exact fun e he => (h.bound_recent e he).trans_eq hactive.symm
  · exact fun e he => (h.bound_pending e he).trans_eq hactive.symm

/-- Giving segments back changes neither the active segment nor its cursor nor the fence. -/
theorem cursor_reclaimLoop (fuel : Nat) (log : RingLog) (freedThrough : Nat) (freed : Bool) :
    (log.reclaimLoop g fuel freedThrough freed).1.activeSeg = log.activeSeg ∧
      (log.reclaimLoop g fuel freedThrough freed).1.writePosInSeg = log.writePosInSeg ∧
      (log.reclaimLoop g fuel freedThrough freed).1.checkpointSeq = log.checkpointSeq := by
  induction fuel generalizing log freedThrough freed with
  | zero => exact ⟨rfl, rfl, rfl⟩
  | succ fuel ih =>
    rw [RingLog.reclaimLoop]
    split
    · exact ⟨rfl, rfl, rfl⟩
    split
    · exact ⟨rfl, rfl, rfl⟩
    · exact ih _ _ _

theorem reclaimLoop {fuel : Nat} {log : RingLog} {freedThrough : Nat} {freed : Bool}
    (h : Ring crc g ({ s with log := log } : System).writeHeader dropped content recent cur) :
    ∃ dropped' content', Ring crc g
      ({ s with log := (log.reclaimLoop g fuel freedThrough freed).1 } : System).writeHeader
      dropped' content' recent cur := by
  induction fuel generalizing log freedThrough freed dropped content with
  | zero => exact ⟨dropped, content, h⟩
  | succ fuel ih =>
    rw [RingLog.reclaimLoop]
    split
    · exact ⟨dropped, content, h⟩
    rename_i hne
    split
    · exact ⟨dropped, content, h⟩
    obtain ⟨dropped', content', h'⟩ := h.reclaim_one hne (by omega)
    exact ih h'

/-- Giving segments back, whatever becomes of the entries kept in memory. -/
theorem reclaim (h : Ring crc g s dropped content recent cur) (cache : List RedoEntry) :
    ∃ dropped' content' recent' cur', Ring crc g
      ({ s with log := { (s.log.reclaimLoop g g.segmentCount 0 false).1 with
          entriesCache := cache } } : System).writeHeader dropped' content' recent' cur' := by
  obtain ⟨content', recent', cur', hwrite⟩ := h.writeHeader le_rfl
  obtain ⟨dropped', content'', hloop⟩ :=
    @Ring.reclaimLoop _ _ s _ _ _ _ g.segmentCount s.log 0 false hwrite
  exact ⟨dropped', content'', recent', cur', hloop.holds, hloop.oldest, hloop.fence,
    .here rfl (hloop.cursor_eq rfl), hloop.buffer, hloop.fits, hloop.room, hloop.history,
    hloop.covered, hloop.ascends, hloop.range, hloop.next_pos, hloop.written,
    hloop.bound_content, hloop.bound_recent, hloop.bound_pending⟩

end Ring

namespace System

/-- A reclaim does nothing, or gives segments back and writes the header. -/
theorem reclaim_cases (g : Geometry) (s : System) : s.reclaim g = s ∨
    ∃ cache, s.reclaim g = ({ s with log := { (s.log.reclaimLoop g g.segmentCount 0 false).1 with
      entriesCache := cache } } : System).writeHeader := by
  unfold System.reclaim
  dsimp only
  split
  · exact .inr ⟨_, rfl⟩
  · exact .inl rfl

theorem Sound.setFence (h : s.Sound crc g) (throughSequence : Nat) :
    (s.setFence throughSequence).Sound crc g := by
  unfold System.setFence
  dsimp only
  split
  · exact h
  obtain ⟨dropped, content, recent, cur, hring⟩ := h
  obtain ⟨content', recent', cur', hring'⟩ :=
    hring.writeHeader (Nat.le_max_right throughSequence s.log.checkpointSeq)
  exact ⟨dropped, content', recent', cur', hring'⟩

theorem Sound.reclaim (h : s.Sound crc g) : (s.reclaim g).Sound crc g := by
  obtain ⟨dropped, content, recent, cur, hring⟩ := h
  rcases s.reclaim_cases g with hsame | ⟨cache, hfreed⟩
  · rw [hsame]
    exact ⟨dropped, content, recent, cur, hring⟩
  obtain ⟨dropped', content', recent', cur', hring'⟩ := hring.reclaim cache
  rw [hfreed]
  exact ⟨dropped', content', recent', cur', hring'⟩

end System

end TeraSlab.Redo
