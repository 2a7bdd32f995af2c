import TeraSlab.Redo.Frames
import TeraSlab.Redo.Linear

/-!
# The live window of a linear log

The window from the logical start to the write position holds whole frames and pads. Behind it the
scan stops: at the end of the region, at bytes that are no frame, or, after a pad, at a stale frame.
A stale frame right behind frames that fill their last block is an error instead.
-/

namespace TeraSlab.Redo

open Foundations LinearLog

variable {crc : List UInt8 → UInt32} {r : Region} {region : List UInt8}
  {pos prev stop tail fuel : Nat} {es : List RedoEntry}

/-- What the scan carries: the last sequence number, 0 standing for none. -/
def seqBefore (prev : Nat) : Option Nat := if prev = 0 then none else some prev

theorem any_seqBefore (prev seq : Nat) :
    ((seqBefore prev).any fun p => decide (seq ≤ p)) = true ↔ prev ≠ 0 ∧ seq ≤ prev := by
  unfold seqBefore
  split <;> simp_all

theorem scanLoop_pad {last : Option Nat} {skipped : Bool} (hmid : ¬ r.align ∣ pos)
    (hfour : pos + 4 ≤ roundUp pos r.align) (hfit : roundUp pos r.align ≤ region.length)
    (hzero : (region.drop pos).take (roundUp pos r.align - pos) =
      List.replicate (roundUp pos r.align - pos) 0) :
    scanLoop crc r region (fuel + 1) pos last skipped =
      scanLoop crc r region fuel (roundUp pos r.align) last true := by
  have hword : len32At (region.drop pos) 0 = 0 := by
    have hfirst := congrArg (List.take 4) hzero
    rw [List.take_take, min_eq_left (by omega), List.take_replicate, min_eq_left (by omega)]
      at hfirst
    exact RedoEntry.len32At_of_zeros hfirst
  rw [scanLoop, RedoEntry.deserialize_zero hword]
  rw [if_neg (by rw [List.length_drop, entryHeaderSize]; omega), if_neg (by simpa using hword),
    if_neg (fun hmod => hmid (Nat.dvd_of_mod_eq_zero hmod)),
    if_neg (by rw [List.length_drop]; omega), if_pos (by simp [hzero])]

/-- The scan reads a stretch that parses, and goes on behind it. -/
theorem scanLoop_window (hsize : region.length = r.size)
    (h : Parses crc r.align region pos prev es stop) (hpos : ∀ e ∈ es, 0 < e.sequence.toNat)
    (hstop : ∀ skipped fuel, region.length < stop + fuel →
      scanLoop crc r region fuel stop (seqBefore (lastSeq prev es)) skipped
        = .ok ([], tail))
    (skipped : Bool) (hle : pos ≤ region.length) (hfuel : region.length < pos + fuel) :
    scanLoop crc r region fuel pos (seqBefore prev) skipped = .ok (es, tail) := by
  induction h generalizing fuel skipped with
  | done pos prev => exact hstop skipped fuel hfuel
  | @entry pos prev n stop e es hread hnew hrest ih =>
    obtain ⟨fuel, rfl⟩ := Nat.exists_eq_add_of_lt (show 0 < fuel by omega)
    have hlong := RedoEntry.pos_of_deserialize hread
    have hfit := (RedoEntry.deserialize_some hread).2.2.1
    rw [List.length_drop] at hfit
    have hseq := hpos e List.mem_cons_self
    have hrec := ih (fun e' he' => hpos e' (List.mem_cons_of_mem e he')) hstop false
      (by omega) (show region.length < pos + n + (0 + fuel) by omega)
    have hbefore : seqBefore e.sequence.toNat = some e.sequence.toNat := if_neg (by omega)
    rw [hbefore] at hrec
    have hnot : ¬ ((seqBefore prev).any fun p => decide (e.sequence.toNat ≤ p)) = true := by
      rw [any_seqBefore]
      omega
    rw [scanLoop, hread]
    dsimp only
    rw [if_neg hnot, hrec]
  | @pad pos prev stop es hmid hfour hfit hzero hrest ih =>
    obtain ⟨fuel, rfl⟩ := Nat.exists_eq_add_of_lt (show 0 < fuel by omega)
    have hrec := ih hpos hstop true hfit
      (show region.length < roundUp pos r.align + (0 + fuel) by omega)
    rw [scanLoop_pad hmid hfour hfit hzero, hrec]

/-- Behind the tail the scan stops: no frame is read there, or one no newer than the live entries
and behind a pad. -/
def Quiet (crc : List UInt8 → UInt32) (r : Region) (region : List UInt8) (live : List RedoEntry)
    (fin : Nat) : Prop :=
  ∀ read ∈ RedoEntry.deserialize crc (region.drop (roundUp fin r.align)),
    ¬ r.align ∣ fin ∧ ∃ e ∈ live, read.1.sequence ≤ e.sequence

/-- The region holds the live entries from the start on, the last one ending at `fin`, a pad up to
the next block, and a tail where the scan stops. -/
structure LiveWindow (crc : List UInt8 → UInt32) (r : Region) (region : List UInt8) (start : Nat)
    (live : List RedoEntry) (fin : Nat) : Prop where
  size : region.length = r.size
  start_le : start ≤ r.size
  positive : ∀ e ∈ live, 0 < e.sequence.toNat
  parses : Parses crc r.align region start 0 live fin
  pad : PadOk r.align fin
  zeros : (region.drop fin).take (roundUp fin r.align - fin) =
    List.replicate (roundUp fin r.align - fin) 0
  quiet : Quiet crc r region live fin

namespace LiveWindow

variable {region' : List UInt8} {start fin : Nat} {live : List RedoEntry}

section

variable (h : LiveWindow crc r region start live fin)
include h

theorem fin_le : fin ≤ r.size := by
  have hle := h.parses.le_length (h.size ▸ h.start_le)
  rwa [h.size] at hle

theorem tail_le : roundUp fin r.align ≤ r.size :=
  roundUp_le r.align_dvd h.fin_le

/-- At the tail the scan stops, with a pad skipped before it or without. -/
theorem stops_tail (skipped : Bool)
    (hskip : skipped = true ∨ r.align ∣ fin) (fuel : Nat) :
    scanLoop crc r region (fuel + 1) (roundUp fin r.align) (seqBefore (lastSeq 0 live)) skipped =
      .ok ([], roundUp fin r.align) := by
  have hblock : roundUp fin r.align % r.align = 0 :=
    Nat.mod_eq_zero_of_dvd (dvd_roundUp fin r.align)
  rw [scanLoop]
  cases hread : RedoEntry.deserialize crc (region.drop (roundUp fin r.align)) with
  | none =>
    rw [if_pos hblock, ite_self, ite_self]
  | some read =>
    -- Only behind a pad may a stale frame follow.
    obtain ⟨hmid, e, he, hold⟩ := h.quiet read hread
    have hlast := h.parses.ascends.le_lastSeq.2 e he
    have hpos := h.positive e he
    rw [UInt64.le_iff_toNat_le] at hold
    have hstale := (any_seqBefore (lastSeq 0 live) read.1.sequence.toNat).mpr ⟨by omega, by omega⟩
    dsimp only
    rw [if_pos hstale, if_pos (hskip.resolve_right hmid)]

/-- From the end of the last frame the scan passes the pad and stops. -/
theorem stops_fin (skipped : Bool) (hfuel : region.length < fin + fuel) :
    scanLoop crc r region fuel fin (seqBefore (lastSeq 0 live)) skipped =
      .ok ([], roundUp fin r.align) := by
  have hfin := h.fin_le
  have hsize := h.size
  obtain ⟨fuel, rfl⟩ := Nat.exists_eq_add_of_lt (show 0 < fuel by omega)
  by_cases hdvd : r.align ∣ fin
  · have hstop := h.stops_tail skipped (.inr hdvd) (0 + fuel)
    rwa [roundUp_eq_self hdvd r.align_pos] at hstop ⊢
  have hfour : fin + 4 ≤ roundUp fin r.align :=
    h.pad.resolve_left fun heq => hdvd (heq ▸ dvd_roundUp fin r.align)
  have htail := h.tail_le
  obtain ⟨fuel, rfl⟩ := Nat.exists_eq_add_of_lt (show 0 < fuel by omega)
  rw [Nat.zero_add, scanLoop_pad hdvd hfour (by omega) h.zeros]
  exact h.stops_tail true (.inl rfl) (0 + fuel)

/-- Opening reads exactly the live entries. -/
theorem open_eq (header : LinearHeader)
    (hstart : header.logicalStart = start) :
    ∃ log, LinearLog.open crc r ⟨header, region⟩ = .ok log ∧ log.entriesCache = live ∧
      log.nextSequence = match live.getLast? with
        | some last => max (max header.nextSequence 1) (last.sequence.toNat + 1)
        | none => max header.nextSequence 1 := by
  have hscan : scanLoop crc r region (r.size + 1) start none false =
      .ok (live, roundUp fin r.align) :=
    scanLoop_window h.size h.parses h.positive (fun skipped _ => h.stops_fin skipped) false
      (h.size ▸ h.start_le) (by rw [h.size]; omega)
  rw [← hstart] at hscan
  exact ⟨_, by rw [LinearLog.open, hscan], rfl, rfl⟩

/-- The window with the pad behind it parses up to the tail. -/
theorem parses_tail :
    Parses crc r.align region start 0 live (roundUp fin r.align) := by
  have htail := h.tail_le
  by_cases hround : roundUp fin r.align = fin
  · rw [hround]
    exact h.parses
  have hmid : ¬ r.align ∣ fin := fun hdvd => hround (roundUp_eq_self hdvd r.align_pos)
  have hpad : Parses crc r.align region fin (lastSeq 0 live) [] (roundUp fin r.align) :=
    .pad hmid (h.pad.resolve_left hround) (by rw [h.size]; exact htail) h.zeros (.done _ _)
  simpa using h.parses.trans hpad

/-- A region with the same bytes in the window reads the same, if its tail is quiet. -/
theorem congr (hsize : region'.length = r.size)
    (hsame : ∀ p n, start ≤ p → p + n ≤ roundUp fin r.align →
      (region'.drop p).take n = (region.drop p).take n)
    (hquiet : Quiet crc r region' live fin) : LiveWindow crc r region' start live fin where
  size := hsize
  start_le := h.start_le
  positive := h.positive
  parses := by
    have hround := @le_roundUp fin r.align r.align_pos
    refine h.parses.congr_window (fun p n hp hn => hsame p n hp (by omega)) ?_
    rw [hsize]
    exact h.fin_le
  pad := h.pad
  zeros := by
    have hround := @le_roundUp fin r.align r.align_pos
    rw [hsame fin _ h.parses.le (by omega), h.zeros]
  quiet := hquiet

end

end LiveWindow

section Written

variable {rest : List UInt8} {zeros : Nat}

/-- Frames with zeros behind them, as a flush or a compaction leaves them. -/
theorem liveWindow_written (before : List RedoEntry) {start fin : Nat}
    (hsize : region.length = r.size) (hstart : start ≤ r.size)
    (hbefore : Parses crc r.align region start 0 before pos)
    (hfits : ∀ e ∈ es, e.op.Fits) (hasc : Ascends 0 (before ++ es))
    (hpositive : ∀ e ∈ before ++ es, 0 < e.sequence.toNat)
    (hbytes : region.drop pos = frames crc es ++ (List.replicate zeros 0 ++ rest))
    (hfin : fin = pos + (frames crc es).length) (hpad : PadOk r.align fin)
    (hzeros : roundUp fin r.align - fin ≤ zeros)
    (hquiet : Quiet crc r region (before ++ es) fin) :
    LiveWindow crc r region start (before ++ es) fin where
  size := hsize
  start_le := hstart
  positive := hpositive
  parses := by
    rw [hfin]
    exact hbefore.trans (parses_frames hfits (ascends_append.mp hasc).2 hbytes)
  pad := hpad
  zeros := by
    rw [hfin, ← List.drop_drop, hbytes, List.drop_left, ← hfin,
      List.take_append_of_le_length (by rw [List.length_replicate]; exact hzeros),
      List.take_replicate, min_eq_left hzeros]
  quiet := hquiet

/-- A flush extends the window. -/
theorem LiveWindow.extend {start fin : Nat} {live : List RedoEntry}
    (h : LiveWindow crc r region start live fin)
    (hfits : ∀ e ∈ es, e.op.Fits) (hasc : Ascends 0 (live ++ es))
    (hpositive : ∀ e ∈ live ++ es, 0 < e.sequence.toNat)
    (hfin : stop = roundUp fin r.align + (frames crc es).length) (hroom : stop ≤ r.size)
    (hpad : PadOk r.align stop) (hquiet : Quiet crc r region (live ++ es) stop) :
    LiveWindow crc r (overwrite region (roundUp fin r.align)
      (frames crc es ++ List.replicate (roundUp stop r.align - stop) 0)) start
        (live ++ es) stop := by
  have htail := h.tail_le
  have hsize := h.size
  have hstop : roundUp stop r.align ≤ r.size := roundUp_le r.align_dvd hroom
  have hround := @le_roundUp stop r.align r.align_pos
  have hlen : roundUp fin r.align +
      (frames crc es ++ List.replicate (roundUp stop r.align - stop) 0).length =
        roundUp stop r.align := by
    rw [List.length_append, List.length_replicate]
    omega
  have hnew : (overwrite region (roundUp fin r.align)
      (frames crc es ++ List.replicate (roundUp stop r.align - stop) 0)).length = region.length :=
    length_overwrite (hlen.trans_le (hsize ▸ hstop))
  refine liveWindow_written live (hnew.trans hsize) h.start_le ?_ hfits hasc hpositive
    (by rw [drop_overwrite_pos (hsize ▸ htail), List.append_assoc]) hfin hpad le_rfl ?_
  · refine h.parses_tail.congr (take_overwrite (hsize ▸ htail) le_rfl) ?_
    rw [hnew, hsize]
    exact htail
  · unfold Quiet
    rw [drop_overwrite (hsize ▸ htail) hlen.le]
    exact hquiet

/-- The copy a compaction stages is a window of its own, when a length word fits behind its last
frame. -/
theorem liveWindow_staged (hsize : region.length = r.size) (hdvd : r.align ∣ pos)
    (hfits : ∀ e ∈ es, e.op.Fits) (hasc : Ascends 0 es)
    (hpositive : ∀ e ∈ es, 0 < e.sequence.toNat)
    (hword : (frames crc es).length + 4 ≤ roundUp (frames crc es).length r.align)
    (hroom : pos + (roundUp (frames crc es).length r.align + r.align) ≤ r.size) :
    LiveWindow crc r (overwrite region pos (frames crc es ++ List.replicate
      (roundUp (frames crc es).length r.align + r.align - (frames crc es).length) 0)) pos es
      (pos + (frames crc es).length) := by
  set len := (frames crc es).length with hlen
  have hpos : pos ≤ region.length := by omega
  have hlt := @roundUp_lt len r.align r.align_pos
  have hround : roundUp (pos + len) r.align = pos + roundUp len r.align :=
    roundUp_add r.align_pos hdvd
  have hnew : (overwrite region pos (frames crc es ++ List.replicate
      (roundUp len r.align + r.align - len) 0)).length = region.length := by
    apply length_overwrite
    rw [List.length_append, List.length_replicate]
    omega
  have hdrop := @drop_overwrite_pos _ region (frames crc es ++ List.replicate
    (roundUp len r.align + r.align - len) 0) pos hpos
  rw [List.append_assoc] at hdrop
  refine liveWindow_written [] (hnew.trans hsize) (by omega) (.done _ _) hfits hasc
    hpositive hdrop rfl (.inr (by omega)) (by omega) ?_
  -- The block behind the copy starts with a zero length word.
  intro read hread
  have hbehind : (overwrite region pos (frames crc es ++ List.replicate
      (roundUp len r.align + r.align - len) 0)).drop (roundUp (pos + len) r.align) =
        List.replicate r.align 0 ++ region.drop (pos + (frames crc es ++ List.replicate
          (roundUp len r.align + r.align - len) 0).length) := by
    have hskip : roundUp len r.align = len + (roundUp len r.align - len) := by omega
    have hleft : roundUp len r.align + r.align - len - (roundUp len r.align - len) = r.align := by
      omega
    rw [hround, ← List.drop_drop, hdrop, hskip, ← List.drop_drop, hlen, List.drop_left, ← hlen,
      List.drop_append_of_le_length (by rw [List.length_replicate]; omega), List.drop_replicate,
      ← hskip, hleft]
  rw [hbehind, RedoEntry.deserialize_zero (RedoEntry.len32At_of_zeros ?_)] at hread
  · cases hread
  · rw [List.take_append_of_le_length (by rw [List.length_replicate]; omega), List.take_replicate,
      min_eq_left (by omega)]

end Written

end TeraSlab.Redo
