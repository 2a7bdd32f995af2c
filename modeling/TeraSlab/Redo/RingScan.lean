import TeraSlab.Redo.Frames
import TeraSlab.Redo.Ring

/-!
# Scanning the ring

The scan of a segment reads exactly the entries of a stretch that parses, provided it stops behind
them: at a stale frame, at a zero length word on a block boundary, at the end of the segment, or, in
the active segment, at a torn frame. Opening a ring whose sealed segments all stop without an error
therefore reads the entries of every segment in order.
-/

namespace TeraSlab.Redo

open Foundations RingLog

variable {crc : List UInt8 → UInt32} {g : Geometry} {buf : List UInt8} {seg pos prev stop : Nat}
  {isActive : Bool} {es : List RedoEntry}

/-- The scan ends at this position without an error. -/
def Stops (crc : List UInt8 → UInt32) (align : Nat) (buf : List UInt8) (isActive : Bool)
    (pos prev : Nat) : Prop :=
  match RedoEntry.deserialize crc (buf.drop pos) with
  | some (e, _) => prev ≠ 0 ∧ e.sequence.toNat ≤ prev
  | none =>
    buf.length < pos + 4 ∨ (len32At (buf.drop pos) 0 ≠ 0 ∧ isActive = true) ∨
      (len32At (buf.drop pos) 0 = 0 ∧ align ∣ pos)

/-- The scan ends at a block boundary where nothing decodes. -/
theorem stops_undecoded (hdvd : g.align ∣ pos)
    (hnone : RedoEntry.deserialize crc (buf.drop pos) = none) :
    Stops crc g.align buf true pos prev := by
  unfold Stops
  rw [hnone]
  by_cases hword : len32At (buf.drop pos) 0 = 0
  · exact .inr (.inr ⟨hword, hdvd⟩)
  · exact .inr (.inl ⟨hword, rfl⟩)

theorem scanLoop_stops (h : Stops crc g.align buf isActive pos prev) (fuel : Nat) :
    scanLoop crc g buf seg isActive (fuel + 1) pos prev = .ok ([], pos, prev) := by
  unfold Stops at h
  rw [scanLoop]
  cases hread : RedoEntry.deserialize crc (buf.drop pos) with
  | some r =>
    simp only [hread] at h
    exact if_pos h
  | none =>
    simp only [hread] at h
    rcases h with hshort | ⟨hword, hact⟩ | ⟨hword, hdvd⟩
    · rw [if_pos (by rw [List.length_drop, entryHeaderSize]; omega)]
    · rw [if_pos hword, if_pos hact, ite_self]
    · simp [hword, Nat.mod_eq_zero_of_dvd hdvd]

theorem scanLoop_parses (hsize : buf.length = g.segmentSize)
    (h : Parses crc g.align buf pos prev es stop)
    (hstop : Stops crc g.align buf isActive stop (lastSeq prev es)) {fuel : Nat}
    (hpos : pos ≤ buf.length) (hfuel : buf.length < pos + fuel) :
    scanLoop crc g buf seg isActive fuel pos prev = .ok (es, stop, lastSeq prev es) := by
  induction h generalizing fuel with
  | done pos prev =>
    obtain ⟨fuel, rfl⟩ := Nat.exists_eq_add_of_lt (show 0 < fuel by omega)
    rw [Nat.zero_add]
    exact scanLoop_stops hstop fuel
  | @entry pos prev n stop e es hread hnew hrest ih =>
    obtain ⟨fuel, rfl⟩ := Nat.exists_eq_add_of_lt (show 0 < fuel by omega)
    have hlong := RedoEntry.pos_of_deserialize hread
    have hfit := (RedoEntry.deserialize_some hread).2.2.1
    rw [List.length_drop] at hfit
    have hrec : scanLoop crc g buf seg isActive (0 + fuel) (pos + n) e.sequence.toNat =
        .ok (es, stop, lastSeq e.sequence.toNat es) := ih hstop (by omega) (by omega)
    rw [scanLoop, hread]
    dsimp only
    rw [if_neg (by omega), hrec]
    rfl
  | @pad pos prev stop es hmid hfour hfit hzero hrest ih =>
    obtain ⟨fuel, rfl⟩ := Nat.exists_eq_add_of_lt (show 0 < fuel by omega)
    have hrec : scanLoop crc g buf seg isActive (0 + fuel) (roundUp pos g.align) prev =
        .ok (es, stop, lastSeq prev es) := ih hstop hfit (by omega)
    have hword : len32At (buf.drop pos) 0 = 0 := by
      have hfirst := congrArg (List.take 4) hzero
      rw [List.take_take, min_eq_left (by omega), List.take_replicate, min_eq_left (by omega)]
        at hfirst
      rw [len32At, leAt, List.drop_zero, hfirst]
      rfl
    have hpadEnd : min (roundUp pos g.align) g.segmentSize = roundUp pos g.align :=
      min_eq_left (hsize ▸ hfit)
    rw [scanLoop, RedoEntry.deserialize_zero hword]
    rw [if_neg (by rw [List.length_drop, entryHeaderSize]; omega), if_neg (by simpa using hword),
      if_neg (fun hmod => hmid (Nat.dvd_of_mod_eq_zero hmod)), hpadEnd, if_pos (by simp [hzero]),
      hrec]

/-- The scan of the active segment never fails, and reads only frames that decode. -/
theorem scanLoop_active (fuel : Nat) :
    ∃ es stop last, scanLoop crc g buf seg true fuel pos prev = .ok (es, stop, last) ∧
      ∀ e ∈ es, ∃ p n, RedoEntry.deserialize crc (buf.drop p) = some (e, n) := by
  induction fuel generalizing pos prev with
  | zero => exact ⟨[], pos, prev, rfl, by simp⟩
  | succ fuel ih =>
    rw [scanLoop]
    cases hread : RedoEntry.deserialize crc (buf.drop pos) with
    | some r =>
      obtain ⟨e, n⟩ := r
      dsimp only
      split
      · exact ⟨[], pos, prev, rfl, by simp⟩
      obtain ⟨es, stop, last, hok, hmem⟩ := @ih (pos + n) e.sequence.toNat
      rw [hok]
      refine ⟨e :: es, stop, last, rfl, ?_⟩
      intro e' he'
      rcases List.mem_cons.mp he' with rfl | he'
      · exact ⟨pos, n, hread⟩
      · exact hmem e' he'
    | none =>
      dsimp only
      split
      · exact ⟨[], pos, prev, rfl, by simp⟩
      split
      · exact ⟨[], pos, prev, rfl, by simp⟩
      split
      · exact ⟨[], pos, prev, rfl, by simp⟩
      split
      · exact ih
      · exact ⟨[], pos, prev, rfl, by simp⟩

theorem scanSegment_parses {disk : Disk} (hsize : (disk.segment seg).length = g.segmentSize)
    (h : Parses crc g.align (disk.segment seg) 0 prev es stop)
    (hstop : Stops crc g.align (disk.segment seg) isActive stop (lastSeq prev es)) :
    scanSegment crc g disk seg prev isActive =
      .ok (es, min (roundUp stop g.align) g.segmentSize, lastSeq prev es) := by
  rw [scanSegment, scanLoop_parses hsize h hstop (Nat.zero_le _) (by omega)]

/-! ## The sealed segments -/

def entriesOf (content : List (Nat × List RedoEntry)) : List RedoEntry := content.flatMap Prod.snd

theorem entriesOf_cons (seg : Nat) (es : List RedoEntry) (content : List (Nat × List RedoEntry)) :
    entriesOf ((seg, es) :: content) = es ++ entriesOf content := rfl

theorem entriesOf_concat (content : List (Nat × List RedoEntry)) (seg : Nat)
    (es : List RedoEntry) : entriesOf (content ++ [(seg, es)]) = entriesOf content ++ es := by
  simp [entriesOf]

inductive Sealed (crc : List UInt8 → UInt32) (g : Geometry) (disk : Disk) :
    Nat → List (Nat × List RedoEntry) → Prop where
  | nil (prev : Nat) : Sealed crc g disk prev []
  | cons {prev seg stop : Nat} {es : List RedoEntry} {content : List (Nat × List RedoEntry)}
      (hsize : (disk.segment seg).length = g.segmentSize)
      (hparse : Parses crc g.align (disk.segment seg) 0 prev es stop) (hne : es ≠ [])
      (hstop : Stops crc g.align (disk.segment seg) false stop (lastSeq prev es))
      (hrest : Sealed crc g disk (lastSeq prev es) content) :
      Sealed crc g disk prev ((seg, es) :: content)

namespace Sealed

variable {disk disk' : Disk} {content : List (Nat × List RedoEntry)}

section

variable (h : Sealed crc g disk prev content)
include h

theorem ascends : Ascends prev (entriesOf content) := by
  induction h with
  | nil prev => trivial
  | cons hsize hparse hne hstop hrest ih => exact ascends_append.mpr ⟨hparse.ascends, ih⟩

theorem congr (hsame : ∀ seg ∈ content.map Prod.fst, disk'.segment seg = disk.segment seg) :
    Sealed crc g disk' prev content := by
  induction h with
  | nil prev => exact .nil prev
  | cons hsize hparse hne hstop hrest ih =>
    have hseg := hsame _ List.mem_cons_self
    refine .cons (hseg ▸ hsize) (hseg ▸ hparse) hne (hseg ▸ hstop) (ih ?_)
    intro seg hmem
    exact hsame seg (List.mem_cons_of_mem _ hmem)

theorem concat (hsize : (disk.segment seg).length = g.segmentSize)
    (hparse : Parses crc g.align (disk.segment seg) 0 (lastSeq prev (entriesOf content)) es stop)
    (hne : es ≠ [])
    (hstop : Stops crc g.align (disk.segment seg) false stop
      (lastSeq (lastSeq prev (entriesOf content)) es)) :
    Sealed crc g disk prev (content ++ [(seg, es)]) := by
  induction h with
  | nil prev => exact .cons hsize hparse hne hstop (.nil _)
  | cons hsize' hparse' hne' hstop' hrest ih =>
    rw [entriesOf_cons, lastSeq_append] at hparse hstop
    exact .cons hsize' hparse' hne' hstop' (ih hparse hstop)

end

theorem tail (h : Sealed crc g disk prev ((seg, es) :: content)) : Sealed crc g disk 0 content := by
  cases h with
  | cons hsize hparse hne hstop hrest =>
    cases hrest with
    | nil prev => exact .nil 0
    | cons hsize hparse hne hstop hrest =>
      rw [lastSeq_of_ne_nil hne _ 0] at hstop hrest
      exact .cons hsize hparse.weaken hne hstop hrest

/-- The scan of the sealed segments reads their entries, and notes for each segment a number its
entries do not exceed. -/
theorem scanSealed_eq (h : Sealed crc g disk prev content) (hnodup : (content.map Prod.fst).Nodup)
    (segMax : Nat → Nat) :
    ∃ segMax', scanSealed crc g disk (content.map Prod.fst) prev segMax =
        .ok (entriesOf content, lastSeq prev (entriesOf content), segMax') ∧
      (∀ seg, seg ∉ content.map Prod.fst → segMax' seg = segMax seg) ∧
      ∀ p ∈ content, ∀ e ∈ p.2, e.sequence.toNat ≤ segMax' p.1 := by
  induction h generalizing segMax with
  | nil prev => exact ⟨segMax, rfl, fun _ _ => rfl, by simp⟩
  | @cons prev seg stop es content hsize hparse hne hstop hrest ih =>
    rw [List.map_cons, List.nodup_cons] at hnodup
    obtain ⟨last, hlast, hseq⟩ := exists_getLast hne prev
    obtain ⟨segMax', hok, hkeep, hbound⟩ :=
      ih hnodup.2 (Function.update segMax seg last.sequence.toNat)
    refine ⟨segMax', ?_, ?_, ?_⟩
    · rw [List.map_cons, scanSealed, scanSegment_parses hsize hparse hstop]
      dsimp only
      rw [hlast]
      rw [hok, entriesOf_cons, lastSeq_append]
    · intro seg' hseg'
      rw [List.map_cons, List.mem_cons, not_or] at hseg'
      rw [hkeep seg' hseg'.2, Function.update_of_ne hseg'.1]
    · intro p hp e he
      rcases List.mem_cons.mp hp with rfl | hp
      · rw [hkeep _ hnodup.1, Function.update_self, hseq]
        exact hparse.ascends.le_lastSeq.2 e he
      · exact hbound p hp e he

end Sealed

/-- Opening reads the sealed segments and the active one up to where its scan stops. -/
theorem open_eq {disk : Disk} {content : List (Nat × List RedoEntry)}
    (hsealed : Sealed crc g disk 0 content)
    (hsegs : content.map Prod.fst =
      g.sealedSegs disk.header.oldestSeg disk.header.activeSeg)
    (hnodup : (content.map Prod.fst).Nodup) (hactive : disk.header.activeSeg ∉ content.map Prod.fst)
    {last : Nat} {entries : List RedoEntry}
    (hscan : scanSegment crc g disk disk.header.activeSeg (lastSeq 0 (entriesOf content)) true =
      .ok (entries, stop, last)) :
    ∃ segMax, RingLog.open crc g disk = .ok {
        nextSequence := max (max disk.header.nextSequence 1) (last + 1)
        checkpointSeq := disk.header.checkpointSeq
        activeSeg := disk.header.activeSeg
        oldestSeg := disk.header.oldestSeg
        writePosInSeg := stop
        segMaxSeq := segMax
        buffer := []
        entriesCache := entriesOf content ++ entries
        pendingEntries := [] } ∧
      (∀ p ∈ content, ∀ e ∈ p.2, e.sequence.toNat ≤ segMax p.1) ∧
      (Ascends 0 entries → ∀ e ∈ entries, e.sequence.toNat ≤ segMax disk.header.activeSeg) := by
  obtain ⟨segMax, hok, -, hbound⟩ := hsealed.scanSealed_eq hnodup (fun _ => 0)
  rw [hsegs] at hok
  simp only [RingLog.open, hok, hscan]
  refine ⟨_, rfl, ?_, ?_⟩
  · intro p hp e he
    have hne : p.1 ≠ disk.header.activeSeg := by
      intro heq
      exact hactive (heq ▸ List.mem_map_of_mem hp)
    cases entries.getLast? with
    | none => exact hbound p hp e he
    | some last =>
      show _ ≤ Function.update segMax disk.header.activeSeg last.sequence.toNat p.1
      rw [Function.update_of_ne hne]
      exact hbound p hp e he
  · intro hasc e he
    obtain ⟨last, hlast, hseq⟩ := exists_getLast (List.ne_nil_of_mem he) 0
    rw [hlast]
    show _ ≤ Function.update segMax disk.header.activeSeg last.sequence.toNat disk.header.activeSeg
    rw [Function.update_self, hseq]
    exact hasc.le_lastSeq.2 e he

end TeraSlab.Redo
