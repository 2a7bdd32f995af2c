import TeraSlab.Redo.LinearWindow
import TeraSlab.Redo.RingReopen

/-!
# Reopening a linear log

Opening the device of a linear log after any calls, or inside a compaction, yields the flushed
entries no compaction has given back, in order. A compaction that has only markers of its own fence
or older ones left above it gives those back too.

The calls must leave the tail where the scan can find it: no pad of one to three bytes, no frame
right behind frames that fill their last block, no bytes of a record that read as a frame that was
never flushed, and room for a length word in the last block of a compaction's copy.
-/

namespace TeraSlab.Redo

open Foundations LinearLog

variable {crc : List UInt8 → UInt32} {r : Region} {s : LinearSystem}

namespace LinearSystem

section Conditions

variable (crc r)

/-- What reads as a frame behind the tail lies behind a pad, and was flushed at some time. -/
def Leftover (s : LinearSystem) (region : List UInt8) (fin : Nat) : Prop :=
  ∀ read ∈ RedoEntry.deserialize crc (region.drop (roundUp fin r.align)),
    ¬ r.align ∣ fin ∧ read.1 ∈ s.flushed

instance (s : LinearSystem) (region : List UInt8) (fin : Nat) :
    Decidable (s.Leftover crc r region fin) :=
  inferInstanceAs (Decidable (∀ _ ∈ _, ¬ _ ∧ _))

def FlushClean (s : LinearSystem) : Prop :=
  s.log.buffer ≠ [] →
    PadOk r.align (s.log.writePos + s.log.buffer.length) ∧
      s.Leftover crc r s.disk.region (s.log.writePos + s.log.buffer.length)

instance (s : LinearSystem) : Decidable (s.FlushClean crc r) :=
  inferInstanceAs (Decidable (_ → _ ∧ _))

/-- The flush of a compaction is clean, and a length word fits behind its copy. -/
def CompactClean (s : LinearSystem) (throughSequence : Nat) : Prop :=
  s.FlushClean crc r ∧
    ((s.flush r).log.retained throughSequence = [] ∨
      (frames crc ((s.flush r).log.retained throughSequence)).length + 4 ≤
        roundUp (frames crc ((s.flush r).log.retained throughSequence)).length r.align)

def CallClean (s : LinearSystem) : LinearCall → Prop
  | .append op => op.Fits ∧ s.log.nextSequence < 2 ^ 64
  | .flush => s.FlushClean crc r
  | .checkpointFence throughSequence =>
    s.log.nextSequence < 2 ^ 64 ∧
      ∀ log ∈ s.log.appendReclaimMarker crc r (.recoveryProgress throughSequence),
        ({ s with log := log } : LinearSystem).FlushClean crc r
  | .compactPrefixThrough throughSequence => s.CompactClean crc r throughSequence
  | .reset => True

instance (s : LinearSystem) : DecidablePred (s.CallClean crc r)
  | .append op => inferInstanceAs (Decidable (op.Fits ∧ _))
  | .flush => inferInstanceAs (Decidable (s.FlushClean crc r))
  | .checkpointFence _ => inferInstanceAs (Decidable (_ ∧ ∀ _ ∈ _, _))
  | .compactPrefixThrough _ => inferInstanceAs (Decidable (s.FlushClean crc r ∧ (_ ∨ _)))
  | .reset => inferInstanceAs (Decidable True)

/-- A compaction cut short: its flush is clean, and so is what its copy left behind the tail. -/
def CutClean (s : LinearSystem) (throughSequence : Nat) (keep : Nat → Bool) : Prop :=
  s.FlushClean crc r ∧
    (s.flush r).Leftover crc r (s.cutCompaction crc r throughSequence keep).region
      (s.flush r).lastEnd

instance (s : LinearSystem) (throughSequence : Nat) (keep : Nat → Bool) :
    Decidable (s.CutClean crc r throughSequence keep) := inferInstanceAs (Decidable (_ ∧ _))

end Conditions

/-! ## The entries -/

variable {op : RedoOp}

/-- A marker a larger fence leaves uncovered is uncovered. -/
theorem coveredMarker_of_le {fence fence' : Nat} (hle : fence ≤ fence')
    (h : coveredMarker fence' op = false) : coveredMarker fence op = false := by
  cases op with
  | recoveryProgress markerThrough =>
    simp only [coveredMarker, decide_eq_false_iff_not] at h ⊢
    omega
  | _ => rfl

structure History (s : LinearSystem) : Prop where
  fits : ∀ e ∈ s.log.entriesCache ++ s.log.pendingEntries, e.op.Fits
  ascends : Ascends 0 (s.flushed ++ s.log.pendingEntries)
  range : ∀ e ∈ s.flushed ++ s.log.pendingEntries,
    0 < e.sequence.toNat ∧ e.sequence.toNat < s.log.nextSequence
  sublist : s.log.entriesCache.Sublist s.flushed
  newest : s.log.entriesCache ≠ [] →
    ∀ e ∈ s.flushed, ∃ e' ∈ s.log.entriesCache, e.sequence.toNat ≤ e'.sequence.toNat
  above : ∀ e ∈ s.log.entriesCache ++ s.log.pendingEntries, s.reclaimed < e.sequence.toNat
  complete : ∀ e ∈ s.flushed, s.reclaimed < e.sequence.toNat → coveredMarker s.fence e.op = false →
    e ∈ s.log.entriesCache
  reclaimed_lt : s.reclaimed < s.log.nextSequence
  header_above : ∀ e ∈ s.flushed, e.sequence.toNat < s.disk.header.nextSequence
  header_pos : 0 < s.disk.header.nextSequence
  header_le : s.disk.header.nextSequence ≤ s.log.nextSequence

variable {throughSequence : Nat}

namespace History

section

variable (h : s.History)
include h

/-- Entries of the cache and of the buffer are among those handed out. -/
theorem range_live {e : RedoEntry} (he : e ∈ s.log.entriesCache ++ s.log.pendingEntries) :
    0 < e.sequence.toNat ∧ e.sequence.toNat < s.log.nextSequence := by
  apply h.range
  rcases List.mem_append.mp he with he | he
  · exact List.mem_append_left _ (h.sublist.subset he)
  · exact List.mem_append_right _ he

theorem ascends_live : Ascends 0 (s.log.entriesCache ++ s.log.pendingEntries) :=
  h.ascends.sublist (h.sublist.append (.refl _))

/-- What is flushed is older than what is in the buffer. -/
theorem flushed_lt {e p : RedoEntry} (he : e ∈ s.flushed) (hp : p ∈ s.log.pendingEntries) :
    e.sequence.toNat < p.sequence.toNat := by
  have hpair := h.ascends.sublist
    ((List.singleton_sublist.mpr he).append (List.singleton_sublist.mpr hp))
  have hpos := (h.range e (List.mem_append_left _ he)).1
  exact hpair.2.1.resolve_left (by omega)

theorem bufferEntry (hfits : op.Fits) (hseq : s.log.nextSequence < 2 ^ 64) :
    ({ s with log := s.log.bufferEntry crc op } : LinearSystem).History := by
  have hseqNat : (UInt64.ofNat s.log.nextSequence).toNat = s.log.nextSequence :=
    UInt64.toNat_ofNat_of_lt' hseq
  refine ⟨?_, ?_, ?_, h.sublist, h.newest, ?_, h.complete,
    h.reclaimed_lt.trans (Nat.lt_succ_self _),
    h.header_above, h.header_pos, h.header_le.trans (Nat.le_succ _)⟩ <;>
    rw [LinearLog.bufferEntry, ← List.append_assoc]
  · exact forall_mem_concat.mpr ⟨h.fits, hfits⟩
  · exact h.ascends.concat fun e he => hseqNat.symm ▸ (h.range e he).2
  · exact forall_mem_concat.mpr ⟨fun e he => (h.range e he).imp_right Nat.lt_succ_of_lt,
      hseqNat.symm ▸ h.header_pos.trans_le h.header_le, hseqNat.trans_lt (Nat.lt_succ_self _)⟩
  · exact forall_mem_concat.mpr ⟨h.above, hseqNat.symm ▸ h.reclaimed_lt⟩

theorem flush : (s.flush r).History := by
  unfold LinearSystem.flush
  split
  · exact h
  have hpos := h.header_pos.trans_le h.header_le
  refine ⟨?_, ?_, ?_, h.sublist.append (List.Sublist.refl _), fun hne e he => ?_, ?_, ?_,
    h.reclaimed_lt, ?_, hpos, le_rfl⟩
  · simpa [LinearLog.flushed] using h.fits
  · simpa [LinearLog.flushed] using h.ascends
  · simpa [LinearLog.flushed] using h.range
  · rcases List.mem_append.mp he with he | he
    · by_cases hcache : s.log.entriesCache = []
      · simp only [LinearLog.flushed, hcache, List.nil_append] at hne ⊢
        obtain ⟨p, hp⟩ := List.exists_mem_of_ne_nil _ hne
        exact ⟨p, hp, (h.flushed_lt he hp).le⟩
      · obtain ⟨e', he', hle⟩ := h.newest hcache e he
        exact ⟨e', List.mem_append_left _ he', hle⟩
    · exact ⟨e, List.mem_append_right _ he, le_rfl⟩
  · simpa [LinearLog.flushed] using h.above
  · intro e he habove hmark
    rcases List.mem_append.mp he with he | he
    · exact List.mem_append_left _ (h.complete e he habove hmark)
    · exact List.mem_append_right _ he
  · exact fun e he => (h.range e he).2

theorem writeHeader : s.writeHeader.History :=
  ⟨h.fits, h.ascends, h.range, h.sublist, h.newest, h.above, h.complete, h.reclaimed_lt,
    fun e he => (h.range e (List.mem_append_left _ he)).2, h.header_pos.trans_le h.header_le,
    le_rfl⟩

/-- A compaction replaces the cache by what it keeps of it. -/
theorem giveBack (log : LinearLog) (hpending : log.pendingEntries = [])
    (hnext : log.nextSequence = s.log.nextSequence)
    (hsub : log.entriesCache.Sublist s.log.entriesCache)
    (habove : ∀ e ∈ log.entriesCache, throughSequence < e.sequence.toNat)
    (hkept : ∀ e ∈ s.flushed, e ∈ s.log.entriesCache → throughSequence < e.sequence.toNat →
      coveredMarker throughSequence e.op = false → e ∈ log.entriesCache)
    (hall : log.entriesCache ≠ [] → ∀ e ∈ s.log.entriesCache,
      throughSequence < e.sequence.toNat → e ∈ log.entriesCache)
    (region : List UInt8) (lastEnd : Nat) : ({ s with
      log := log
      disk := { s.disk with region := region }
      lastEnd := lastEnd
      fence := max s.fence throughSequence
      reclaimed := max s.reclaimed (min throughSequence (s.log.nextSequence - 1)) } :
        LinearSystem).History := by
  have hcache : ∀ e ∈ log.entriesCache ++ log.pendingEntries,
      e ∈ log.entriesCache ∧ e ∈ s.log.entriesCache ++ s.log.pendingEntries := by
    intro e he
    rw [hpending, List.append_nil] at he
    exact ⟨he, List.mem_append_left _ (hsub.subset he)⟩
  refine ⟨?_, ?_, ?_, hsub.trans h.sublist, fun hne e he => ?_, ?_, ?_, ?_, h.header_above,
    h.header_pos, ?_⟩
  · exact fun e he => h.fits e (hcache e he).2
  · rw [hpending, List.append_nil]
    exact h.ascends.sublist (List.sublist_append_left _ _)
  · intro e he
    rw [hpending, List.append_nil] at he
    rw [hnext]
    exact h.range e (List.mem_append_left _ he)
  · obtain ⟨x, hx⟩ := List.exists_mem_of_ne_nil _ hne
    obtain ⟨e', he', hle⟩ := h.newest (List.ne_nil_of_mem (hsub.subset hx)) e he
    by_cases hthrough : throughSequence < e'.sequence.toNat
    · exact ⟨e', hall hne e' he' hthrough, hle⟩
    · exact ⟨x, hx, by have := habove x hx; omega⟩
  · intro e he
    have hold := h.above e (hcache e he).2
    have hnew := habove e (hcache e he).1
    show max s.reclaimed (min throughSequence (s.log.nextSequence - 1)) < _
    omega
  · intro e he hgone hmark
    have hlast := (h.range e (List.mem_append_left _ he)).2
    have hgone : max s.reclaimed (min throughSequence (s.log.nextSequence - 1)) <
      e.sequence.toNat := hgone
    have hfence := coveredMarker_of_le (le_max_left s.fence throughSequence) hmark
    have hthrough := coveredMarker_of_le (le_max_right s.fence throughSequence) hmark
    exact hkept e he (h.complete e he (by omega) hfence) (by omega) hthrough
  · show max s.reclaimed (min throughSequence (s.log.nextSequence - 1)) < log.nextSequence
    have hold := h.reclaimed_lt
    omega
  · rw [hnext]
    exact h.header_le

end

end History

/-! ## The bytes -/

structure Sound (crc : List UInt8 → UInt32) (r : Region) (s : LinearSystem) : Prop where
  history : s.History
  window : LiveWindow crc r s.disk.region s.log.logicalStart s.log.entriesCache s.lastEnd
  start : s.disk.header.logicalStart = s.log.logicalStart
  cursor : s.log.writePos = roundUp s.lastEnd r.align
  buffer : s.log.buffer = frames crc s.log.pendingEntries
  room : s.log.writePos + s.log.buffer.length ≤ r.size

variable {log : LinearLog} {staged : Staged} {capacity : Nat}

/-- A flush from a block boundary writes the frames and a pad. -/
theorem writeBuffer_eq (hdvd : r.align ∣ log.writePos)
    (region : List UInt8) :
    log.writeBuffer r region = overwrite region log.writePos (log.buffer ++ List.replicate
      (roundUp (log.writePos + log.buffer.length) r.align -
        (log.writePos + log.buffer.length)) 0) := by
  have hblock : log.writePos / r.align * r.align = log.writePos := Nat.div_mul_cancel hdvd
  have hpad : roundUp (log.writePos + log.buffer.length) r.align -
      (log.writePos + log.buffer.length) =
        roundUp log.buffer.length r.align - log.buffer.length := by
    rw [roundUp_add r.align_pos hdvd]
    omega
  simp only [writeBuffer, hblock, Nat.sub_self, Nat.zero_add, List.take_zero, List.nil_append, hpad]

theorem flushed_writePos (hdvd : r.align ∣ log.writePos) :
    (log.flushed r).writePos = roundUp (log.writePos + log.buffer.length) r.align := by
  have hblock : log.writePos / r.align * r.align = log.writePos := Nat.div_mul_cancel hdvd
  rw [roundUp_add r.align_pos hdvd]
  simp only [LinearLog.flushed, hblock, Nat.sub_self, Nat.zero_add]

/-- A compaction keeps what lies above its fence, or nothing when only covered markers do. -/
theorem retained_cases (log : LinearLog) (throughSequence : Nat) :
    (log.retained throughSequence = [] ∧ ∀ e ∈ log.entriesCache,
      throughSequence < e.sequence.toNat → coveredMarker throughSequence e.op = true) ∨
    (log.retained throughSequence ≠ [] ∧ log.retained throughSequence = log.entriesCache.filter
      fun e => decide (throughSequence < e.sequence.toNat)) := by
  by_cases hall : (log.entriesCache.filter fun e => decide
      (throughSequence < e.sequence.toNat)).all (fun e => coveredMarker throughSequence e.op) = true
  · left
    refine ⟨by rw [retained, if_pos hall], ?_⟩
    intro e he habove
    exact List.all_eq_true.mp hall e (List.mem_filter.mpr ⟨he, by simpa using habove⟩)
  · right
    have hkept : log.retained throughSequence = log.entriesCache.filter
        fun e => decide (throughSequence < e.sequence.toNat) := by rw [retained, if_neg hall]
    refine ⟨?_, hkept⟩
    intro hnil
    rw [hkept] at hnil
    rw [hnil] at hall
    exact hall rfl

/-- Where a copy goes: behind the tail or in front of the live window. -/
theorem stage_cases {kept : List RedoEntry} (h : log.stage crc r kept = some staged) :
    staged.contentLen = (frames crc kept).length ∧
    staged.contentAligned = roundUp ((frames crc kept).length + entryHeaderSize) r.align ∧
    staged.bytes = frames crc kept ++
      List.replicate (staged.contentAligned + r.align - (frames crc kept).length) 0 ∧
    ((staged.newStart = log.writePos ∧
        log.writePos + (staged.contentAligned + r.align) ≤ r.size) ∨
      (staged.newStart = 0 ∧ staged.contentAligned + r.align ≤ log.logicalStart)) := by
  unfold stage at h
  dsimp only at h
  split at h
  · rename_i hroom
    cases h
    exact ⟨rfl, rfl, rfl, .inl ⟨rfl, hroom⟩⟩
  split at h
  · rename_i hgap
    cases h
    exact ⟨rfl, rfl, rfl, .inr ⟨rfl, hgap⟩⟩
  · cases h

namespace Sound

section

variable (h : s.Sound crc r)
include h

theorem cursor_dvd : r.align ∣ s.log.writePos :=
  h.cursor ▸ dvd_roundUp _ _

theorem positive : ∀ e ∈ s.log.entriesCache ++ s.log.pendingEntries, 0 < e.sequence.toNat :=
  fun _ he => (h.history.range_live he).1

theorem appendWithCapacity (hcap : capacity ≤ r.size) (hfits : op.Fits)
    (hseq : s.log.nextSequence < 2 ^ 64)
    (happend : s.log.appendWithCapacity crc capacity op = some log) :
    ({ s with log := log } : LinearSystem).Sound crc r := by
  unfold LinearLog.appendWithCapacity at happend
  split at happend
  · cases happend
  cases happend
  have hlen := s.log.length_bufferEntry crc op
  refine ⟨h.history.bufferEntry hfits hseq, h.window, h.start, h.cursor, ?_, ?_⟩
  · show s.log.buffer ++ _ = frames crc (s.log.pendingEntries ++ [_])
    rw [frames_append, ← h.buffer, frames_cons]
    simp [frames]
  · show s.log.writePos + (s.log.bufferEntry crc op).buffer.length ≤ r.size
    omega

theorem flush (hclean : s.FlushClean crc r) : (s.flush r).Sound crc r := by
  have hhistory := h.history.flush (r := r)
  unfold LinearSystem.flush at hhistory ⊢
  split
  · exact h
  rename_i hbuffer
  rw [if_neg hbuffer] at hhistory
  obtain ⟨hpad, hleft⟩ := hclean (by simpa using hbuffer)
  have hfin : s.log.writePos + s.log.buffer.length =
      roundUp s.lastEnd r.align + (frames crc s.log.pendingEntries).length := by
    rw [h.cursor, h.buffer]
  -- A frame behind the tail was flushed before, so it is older than the entries of the buffer.
  have hquiet : Quiet crc r s.disk.region (s.log.entriesCache ++ s.log.pendingEntries)
      (s.log.writePos + s.log.buffer.length) := by
    intro read hread
    obtain ⟨hmid, hmem⟩ := hleft read hread
    obtain ⟨p, hp⟩ := List.exists_mem_of_ne_nil s.log.pendingEntries fun hnil =>
      hbuffer (by rw [h.buffer, hnil]; rfl)
    exact ⟨hmid, p, List.mem_append_right _ hp,
      UInt64.le_iff_toNat_le.mpr (h.history.flushed_lt hmem hp).le⟩
  have hwindow := h.window.extend
    (fun e he => h.history.fits e (List.mem_append_right _ he)) h.history.ascends_live h.positive
    hfin h.room hpad hquiet
  have hwrite := flushed_writePos h.cursor_dvd
  refine ⟨hhistory, ?_, rfl, hwrite, rfl, ?_⟩
  · rw [← h.cursor, ← h.buffer, ← writeBuffer_eq h.cursor_dvd] at hwindow
    exact hwindow
  rw [hwrite]
  exact roundUp_le r.align_dvd h.room

theorem checkpoint (n : Nat) :
    ({ s with log := { s.log with checkpointSeq := n } } : LinearSystem).writeHeader.Sound crc r :=
  have hhistory : ({ s with log := { s.log with checkpointSeq := n } } : LinearSystem).History :=
    ⟨h.history.fits, h.history.ascends, h.history.range, h.history.sublist, h.history.newest,
      h.history.above, h.history.complete, h.history.reclaimed_lt, h.history.header_above,
      h.history.header_pos,
      h.history.header_le⟩
  ⟨hhistory.writeHeader, h.window, rfl, h.cursor, h.buffer, h.room⟩

theorem checkpointFence {throughSequence : UInt64}
    (hclean : s.CallClean crc r (.checkpointFence throughSequence)) :
    (s.checkpointFence crc r throughSequence).Sound crc r := by
  obtain ⟨hseq, hflush⟩ := hclean
  unfold LinearSystem.checkpointFence
  cases hmarker : s.log.appendReclaimMarker crc r (.recoveryProgress throughSequence) with
  | none => exact h
  | some log =>
    have hfits : RedoOp.Fits (.recoveryProgress throughSequence) := trivial
    have hflushed := (h.appendWithCapacity le_rfl hfits hseq hmarker).flush (hflush log hmarker)
    dsimp only
    split
    · exact hflushed.checkpoint _
    · exact hflushed

end

theorem window_zeros (crc : List UInt8 → UInt32) (r : Region) :
    LiveWindow crc r (List.replicate r.size 0) 0 [] 0 where
  size := List.length_replicate
  start_le := Nat.zero_le _
  positive := by simp
  parses := .done 0 0
  pad := .inl (roundUp_eq_self (Nat.dvd_zero _) r.align_pos)
  zeros := by
    rw [roundUp_eq_self (Nat.dvd_zero _) r.align_pos]
    rfl
  quiet := by
    intro read hread
    rw [roundUp_eq_self (Nat.dvd_zero _) r.align_pos, List.drop_zero,
      RedoEntry.deserialize_zero (leAt_replicate_zero 4 r.size 0)] at hread
    cases hread

/-- A reset may drop the cache when all of it is given back. -/
theorem reset (h : s.Sound crc r)
    (hcovered : ∀ e ∈ s.log.entriesCache, throughSequence < e.sequence.toNat →
      coveredMarker throughSequence e.op = true) :
    (s.reset r throughSequence).Sound crc r := by
  have hnone : ∀ e ∈ s.flushed, e ∈ s.log.entriesCache → throughSequence < e.sequence.toNat →
      coveredMarker throughSequence e.op = false → e ∈ [] := by
    intro e _ he habove hmark
    rw [hcovered e he habove] at hmark
    cases hmark
  have hhistory := h.history.giveBack
    { s.log with
      writePos := 0
      logicalStart := 0
      buffer := []
      entriesCache := []
      pendingEntries := [] }
    rfl rfl (List.nil_sublist _) (by simp) hnone (absurd rfl) (List.replicate r.size 0) 0
  refine ⟨hhistory.writeHeader, window_zeros crc r, rfl, ?_, rfl, Nat.zero_le _⟩
  exact (roundUp_eq_self (Nat.dvd_zero _) r.align_pos).symm

/-- The header flip makes the staged copy the live window. -/
theorem flip (h : s.Sound crc r)
    (hword : (frames crc (s.log.retained throughSequence)).length + 4 ≤
      roundUp (frames crc (s.log.retained throughSequence)).length r.align)
    (hkept : s.log.retained throughSequence =
      s.log.entriesCache.filter fun e => decide (throughSequence < e.sequence.toNat))
    (hstage : s.log.stage crc r (s.log.retained throughSequence) = some staged) :
    (s.flip throughSequence staged (s.log.retained throughSequence)).Sound crc r := by
  obtain ⟨hlen, haligned, hbytes, hplace⟩ := stage_cases hstage
  have hsub : (s.log.retained throughSequence).Sublist s.log.entriesCache :=
    hkept ▸ List.filter_sublist
  have habove : ∀ e ∈ s.log.retained throughSequence, throughSequence < e.sequence.toNat := by
    intro e he
    rw [hkept] at he
    simpa using (List.mem_filter.mp he).2
  have hall : ∀ e ∈ s.log.entriesCache, throughSequence < e.sequence.toNat →
      e ∈ s.log.retained throughSequence :=
    fun e he hgt => hkept ▸ List.mem_filter.mpr ⟨he, by simpa using hgt⟩
  have hlive : ∀ e ∈ s.log.retained throughSequence,
      e ∈ s.log.entriesCache ++ s.log.pendingEntries :=
    fun e he => List.mem_append_left _ (hsub.subset he)
  have hround : staged.contentAligned =
      roundUp (frames crc (s.log.retained throughSequence)).length r.align := by
    rw [haligned]
    apply Nat.le_antisymm
    · exact roundUp_le (dvd_roundUp _ _) hword
    · exact roundUp_le (dvd_roundUp _ _) ((Nat.le_add_right _ _).trans (le_roundUp r.align_pos))
  have hroom : staged.newStart + (staged.contentAligned + r.align) ≤ r.size := by
    rcases hplace with ⟨hnew, hfit⟩ | ⟨hnew, hfit⟩
    · rw [hnew]
      exact hfit
    · have hstart := h.window.start_le
      omega
  have hdvd : r.align ∣ staged.newStart := by
    rcases hplace with ⟨hnew, -⟩ | ⟨hnew, -⟩
    · exact hnew ▸ h.cursor_dvd
    · exact hnew ▸ Nat.dvd_zero _
  have hwindow := liveWindow_staged h.window.size hdvd
    (fun e he => h.history.fits e (hlive e he))
    (h.history.ascends_live.sublist (hsub.trans (List.sublist_append_left _ _)))
    (fun e he => h.positive e (hlive e he)) hword (hround ▸ hroom)
  have hhistory := h.history.giveBack
    { s.log with
      writePos := staged.newStart + staged.contentAligned
      logicalStart := staged.newStart
      buffer := []
      entriesCache := s.log.retained throughSequence
      pendingEntries := [] }
    rfl rfl hsub habove (fun e _ he hgt _ => hall e he hgt) (fun _ => hall)
    (overwrite s.disk.region staged.newStart staged.bytes) (staged.newStart + staged.contentLen)
  refine ⟨hhistory.writeHeader, ?_, rfl, ?_, rfl, ?_⟩
  · rw [← hround, ← hbytes, ← hlen] at hwindow
    exact hwindow
  · show staged.newStart + staged.contentAligned =
      roundUp (staged.newStart + staged.contentLen) r.align
    rw [roundUp_add r.align_pos hdvd, hround, hlen]
  · show staged.newStart + staged.contentAligned + 0 ≤ r.size
    omega

theorem compactPrefixThrough (h : s.Sound crc r)
    (hclean : s.CompactClean crc r throughSequence) :
    (s.compactPrefixThrough crc r throughSequence).Sound crc r := by
  obtain ⟨hflush, hword⟩ := hclean
  have hflushed := h.flush hflush
  unfold LinearSystem.compactPrefixThrough
  dsimp only
  rcases retained_cases (s.flush r).log throughSequence with ⟨hnil, hcovered⟩ | ⟨hne, hkept⟩
  · rw [hnil]
    exact hflushed.reset hcovered
  rw [if_neg (by simpa using hne)]
  cases hstage : (s.flush r).log.stage crc r ((s.flush r).log.retained throughSequence) with
  | none => exact hflushed
  | some staged => exact hflushed.flip (hword.resolve_left hne) hkept hstage

theorem step (h : s.Sound crc r) {call : LinearCall} (hclean : s.CallClean crc r call) :
    (s.step crc r call).Sound crc r := by
  cases call with
  | append op =>
    show ({ s with log := (s.log.append crc r op).getD s.log } : LinearSystem).Sound crc r
    cases happend : s.log.append crc r op with
    | none => exact h
    | some log => exact h.appendWithCapacity (Nat.sub_le _ _) hclean.1 hclean.2 happend
  | flush => exact h.flush hclean
  | checkpointFence throughSequence => exact h.checkpointFence hclean
  | compactPrefixThrough throughSequence => exact h.compactPrefixThrough hclean
  | reset =>
    refine h.reset ?_
    intro e he habove
    have hlast := (h.history.range_live (List.mem_append_left _ he)).2
    omega

end Sound

/-! ## The sequence counter -/

/-- The counter does not go back, and the header keeps its value or takes that of the log. -/
def Grows (s s' : LinearSystem) : Prop :=
  s.log.nextSequence ≤ s'.log.nextSequence ∧
    (s'.disk.header.nextSequence = s.disk.header.nextSequence ∨
      s.log.nextSequence ≤ s'.disk.header.nextSequence)

section Grows

theorem Grows.refl (s : LinearSystem) : s.Grows s := ⟨le_rfl, .inl rfl⟩

theorem Grows.trans {s' s'' : LinearSystem} (h : s.Grows s') (h' : s'.Grows s'') :
    s.Grows s'' := by
  unfold Grows at h h' ⊢
  omega

theorem grows_appendWithCapacity (h : s.log.appendWithCapacity crc capacity op = some log) :
    s.Grows { s with log := log } := by
  unfold LinearLog.appendWithCapacity at h
  split at h
  · cases h
  cases h
  exact ⟨Nat.le_succ _, .inl rfl⟩

theorem grows_flush : s.Grows (s.flush r) := by
  unfold LinearSystem.flush
  split
  · exact .refl s
  · exact ⟨le_rfl, .inr le_rfl⟩

theorem grows_step (call : LinearCall) : s.Grows (s.step crc r call) := by
  cases call with
  | append op =>
    show s.Grows { s with log := (s.log.append crc r op).getD s.log }
    cases happend : s.log.append crc r op with
    | none => exact .refl s
    | some log => exact grows_appendWithCapacity happend
  | flush => exact grows_flush
  | checkpointFence throughSequence =>
    show s.Grows (s.checkpointFence crc r throughSequence)
    unfold LinearSystem.checkpointFence
    cases hmarker : s.log.appendReclaimMarker crc r (.recoveryProgress throughSequence) with
    | none => exact .refl s
    | some log =>
      have hflushed := (grows_appendWithCapacity hmarker).trans (grows_flush (r := r))
      dsimp only
      split
      · exact hflushed.trans ⟨le_rfl, .inr le_rfl⟩
      · exact hflushed
  | compactPrefixThrough throughSequence =>
    show s.Grows (s.compactPrefixThrough crc r throughSequence)
    unfold LinearSystem.compactPrefixThrough
    dsimp only
    split
    · exact grows_flush.trans ⟨le_rfl, .inr le_rfl⟩
    split
    · exact grows_flush
    · exact grows_flush.trans ⟨le_rfl, .inr le_rfl⟩
  | reset => exact ⟨le_rfl, .inr le_rfl⟩

theorem grows_run (calls : List LinearCall) :
    s.Grows (run (LinearSystem.step crc r) s calls) := by
  induction calls generalizing s with
  | nil => exact .refl s
  | cons call calls ih => exact (grows_step call).trans ih

end Grows

/-! ## Opening -/

/-- Opening the device succeeds and yields, in order, flushed entries that were not given back, and
all of them but covered markers; its counter is above every flushed entry. -/
def Yields (crc : List UInt8 → UInt32) (r : Region) (s : LinearSystem) (disk : LinearDisk) : Prop :=
  ∃ log, LinearLog.open crc r disk = .ok log ∧
    log.entriesCache.Sublist s.flushed ∧
    (∀ e ∈ s.flushed, s.reclaimed < e.sequence.toNat → coveredMarker s.fence e.op = false →
      e ∈ log.entriesCache) ∧
    (∀ e ∈ log.entriesCache, s.reclaimed < e.sequence.toNat) ∧
    ∀ e ∈ s.flushed, e.sequence.toNat < log.nextSequence

/-- Opening the later device gives a counter no smaller than opening the earlier one. -/
def NextKept (crc : List UInt8 → UInt32) (r : Region) (disk disk' : LinearDisk) : Prop :=
  ∀ log log', LinearLog.open crc r disk = .ok log → LinearLog.open crc r disk' = .ok log' →
    log.nextSequence ≤ log'.nextSequence

namespace Sound

variable {s' : LinearSystem}

section

variable (h : s.Sound crc r) {region : List UInt8}
    (hwindow : LiveWindow crc r region s.log.logicalStart s.log.entriesCache s.lastEnd)
include h hwindow

/-- A device with the header and the live window of a sound system opens to its flushed cache. -/
theorem open_eq :
    ∃ log, LinearLog.open crc r ⟨s.disk.header, region⟩ = .ok log ∧
      log.entriesCache = s.log.entriesCache ∧
      log.nextSequence = s.disk.header.nextSequence := by
  obtain ⟨log, hopen, hcache, hnext⟩ := hwindow.open_eq s.disk.header h.start
  refine ⟨log, hopen, hcache, ?_⟩
  have hpos := h.history.header_pos
  rw [hnext]
  split
  · rename_i last hlast
    have hmem := h.history.sublist.subset (List.mem_of_getLast? hlast)
    have habove := h.history.header_above last hmem
    omega
  · omega

theorem yields :
    s.Yields crc r ⟨s.disk.header, region⟩ := by
  obtain ⟨log, hopen, hcache, hnext⟩ := h.open_eq hwindow
  refine ⟨log, hopen, hcache ▸ h.history.sublist, hcache ▸ h.history.complete, ?_, ?_⟩
  · intro e he
    rw [hcache] at he
    exact h.history.above e (List.mem_append_left _ he)
  · rw [hnext]
    exact h.history.header_above

end

theorem nextKept (h : s.Sound crc r) (h' : s'.Sound crc r) (hgrows : s.Grows s')
    {region : List UInt8}
    (hwindow : LiveWindow crc r region s'.log.logicalStart s'.log.entriesCache s'.lastEnd) :
    NextKept crc r s.disk ⟨s'.disk.header, region⟩ := by
  intro log log' hlog hlog'
  obtain ⟨before, hbefore, -, hnext⟩ := h.open_eq h.window
  obtain ⟨after, hafter, -, hnext'⟩ := h'.open_eq hwindow
  have hle := h.history.header_le
  rw [hlog] at hbefore
  rw [hlog'] at hafter
  cases hbefore
  cases hafter
  have hheader := hgrows.2
  omega

/-- The copy of a cut compaction leaves the live window alone. -/
theorem cut_window (h : s.Sound crc r) {keep : Nat → Bool}
    (hclean : s.CutClean crc r throughSequence keep) :
    LiveWindow crc r (s.cutCompaction crc r throughSequence keep).region
      (s.flush r).log.logicalStart (s.flush r).log.entriesCache (s.flush r).lastEnd := by
  obtain ⟨hflush, hleft⟩ := hclean
  have hflushed := h.flush hflush
  unfold cutCompaction at hleft ⊢
  dsimp only at hleft ⊢
  split at hleft
  · rename_i hnil
    rw [if_pos hnil]
    exact hflushed.window
  rename_i hne
  rw [if_neg hne]
  cases hstage : (s.flush r).log.stage crc r ((s.flush r).log.retained throughSequence) with
  | none => exact hflushed.window
  | some staged =>
    rw [hstage] at hleft
    obtain ⟨-, haligned, hbytes, hplace⟩ := stage_cases hstage
    have hsize := hflushed.window.size
    have hcache : (s.flush r).log.entriesCache ≠ [] := by
      intro hnil
      simp [retained, hnil] at hne
    refine hflushed.window.congr (length_overwriteKept.trans hsize) ?_ fun read hread => ?_
    swap
    · obtain ⟨hmid, hmem⟩ := hleft read hread
      obtain ⟨e, he, hle⟩ := hflushed.history.newest hcache read.1 hmem
      exact ⟨hmid, e, he, UInt64.le_iff_toNat_le.mpr hle⟩
    intro p n hp hn
    rcases hplace with ⟨hnew, -⟩ | ⟨hnew, hgap⟩
    · -- Behind the tail: the bytes before it stay.
      have hsame := @take_overwriteKept _ (s.flush r).disk.region staged.bytes staged.newStart
        (p + n) keep r.align (by rw [hnew, hflushed.cursor]; exact hn)
      rw [List.take_drop, List.take_drop, hsame]
    · -- In the front gap: the bytes from the start of the window on stay.
      have hlen : staged.bytes.length ≤ (s.flush r).log.logicalStart := by
        rw [hbytes, List.length_append, List.length_replicate]
        have hround := @le_roundUp ((frames crc
          ((s.flush r).log.retained throughSequence)).length + entryHeaderSize) r.align r.align_pos
        omega
      rw [drop_overwriteKept (by omega) (by omega)]

end Sound

section

variable (crc) (r) (s) (throughSequence)

/-- The header a cut compaction leaves is that of its flush. -/
theorem cutCompaction_eq (keep : Nat → Bool) : s.cutCompaction crc r throughSequence keep =
      ⟨(s.flush r).disk.header, (s.cutCompaction crc r throughSequence keep).region⟩ := by
  unfold cutCompaction
  dsimp only
  split
  · rfl
  · split <;> rfl

theorem format_sound_linear : (format r).Sound crc r where
  history := by
    refine ⟨?_, trivial, ?_, List.Sublist.refl _, ?_, ?_, ?_, ?_, ?_, ?_, le_rfl⟩ <;> simp [format]
  window := Sound.window_zeros crc r
  start := rfl
  cursor := (roundUp_eq_self (Nat.dvd_zero _) r.align_pos).symm
  buffer := rfl
  room := Nat.zero_le _

end

end LinearSystem

def CleanLinearRun (crc : List UInt8 → UInt32) (r : Region) (calls : List LinearCall) : Prop :=
  Guarded (LinearSystem.step crc r) (LinearSystem.CallClean crc r) (LinearSystem.format r) calls

instance (crc : List UInt8 → UInt32) (r : Region) (calls : List LinearCall) :
    Decidable (CleanLinearRun crc r calls) :=
  inferInstanceAs (Decidable (Guarded _ _ _ _))

theorem reachedLinear_sound {calls : List LinearCall} (hclean : CleanLinearRun crc r calls) :
    (reachedLinear crc r calls).Sound crc r :=
  hclean.invariant (fun _ _ hs hcall => hs.step hcall) (LinearSystem.format_sound_linear crc r)

def smallRegion : Region where
  align := 64
  size := 448
  align_pos := tinyRing.align_pos
  size_pos := by decide
  align_dvd := by decide

/-- A compaction behind the tail, one into the front gap, and entries behind its copy. -/
def relocatingCalls : List LinearCall :=
  [.append (.setLocked ⟨.replicate 32 1⟩ true), .flush,
    .append (.setLocked ⟨.replicate 32 2⟩ true), .append .checkpoint, .flush,
    .checkpointFence 1, .compactPrefixThrough 2, .append (.setLocked ⟨.replicate 32 3⟩ false),
    .flush, .compactPrefixThrough 4, .append .checkpoint, .flush,
    .append (.setLocked ⟨.replicate 32 4⟩ false)]

/-- Opening yields exactly the flushed entries above the largest fence. -/
def YieldsAbove (crc : List UInt8 → UInt32) (r : Region) (s : LinearSystem) : Prop :=
  ∃ log, LinearLog.open crc r s.disk = .ok log ∧
    log.entriesCache = s.flushed.filter fun e => decide (s.fence < e.sequence.toNat)

instance YieldsAbove.decidable (crc : List UInt8 → UInt32) (r : Region) (s : LinearSystem) :
    Decidable (YieldsAbove crc r s) :=
  inferInstanceAs (Decidable (∃ log, _ = Except.ok log ∧ _))

def sectorRegion : Region where
  align := 512
  size := 2560
  align_pos := sectorRing.align_pos
  size_pos := by decide
  align_dvd := by decide

def markerCalls : List LinearCall :=
  [.append (.setLocked ⟨.replicate 32 1⟩ true), .flush, .checkpointFence 1, .compactPrefixThrough 1]

/-- Two entries that fill a block. -/
def fillingCalls : List LinearCall :=
  [.append (.setLocked ⟨.replicate 32 1⟩ true),
    .append (.create ⟨.replicate 32 7⟩ 0 4096 1 false (List.replicate 393 5) []), .flush]

/-- The error that opening ends with. -/
def openError (crc : List UInt8 → UInt32) (r : Region) (disk : LinearDisk) : Option LinearError :=
  match LinearLog.open crc r disk with
  | .ok _ => none
  | .error err => some err

end TeraSlab.Redo
