import TeraSlab.Redo.RingScan

/-!
# What the device of a ring holds

The sealed segments between the oldest and the active one hold their entries, and the active
segment holds its entries up to a block boundary. This file states how a flush, a roll, a header
write and a reclaim change that.
-/

namespace TeraSlab.Redo

open Foundations RingLog

/-! ## Segments in ring order -/

namespace Geometry

variable {g : Geometry} {oldest active seg : Nat}

theorem segmentCount_pos (g : Geometry) : 0 < g.segmentCount :=
  (by omega : 0 < 3).trans_le g.segmentCount_ge

theorem next_lt (g : Geometry) (seg : Nat) : g.next seg < g.segmentCount :=
  Nat.mod_lt _ g.segmentCount_pos

theorem next_eq (h : seg < g.segmentCount) :
    g.next seg = if seg + 1 = g.segmentCount then 0 else seg + 1 := by
  unfold next
  split
  · rename_i heq
    rw [heq, Nat.mod_self]
  · exact Nat.mod_eq_of_lt (by omega)

theorem sealedCount_eq (ho : oldest < g.segmentCount) (ha : active < g.segmentCount) :
    g.sealedCount oldest active =
      if oldest ≤ active then active - oldest else active + g.segmentCount - oldest := by
  unfold sealedCount
  split
  · have hsub : active + g.segmentCount - oldest = active - oldest + g.segmentCount := by omega
    rw [hsub, Nat.add_mod_right, Nat.mod_eq_of_lt (by omega)]
  · exact Nat.mod_eq_of_lt (by omega)

theorem sealedCount_lt (g : Geometry) (oldest active : Nat) :
    g.sealedCount oldest active < g.segmentCount := Nat.mod_lt _ g.segmentCount_pos

section

variable (ho : oldest < g.segmentCount)
include ho

theorem sealedSegs_self : g.sealedSegs oldest oldest = [] := by
  have hzero : g.sealedCount oldest oldest = 0 := by simp [sealedCount_eq ho ho]
  simp [sealedSegs, hzero]

theorem add_mod_eq {k : Nat} (hk : k < g.segmentCount) :
    (oldest + k) % g.segmentCount =
      if oldest + k < g.segmentCount then oldest + k else oldest + k - g.segmentCount := by
  split
  · rename_i h
    exact Nat.mod_eq_of_lt h
  · rw [Nat.mod_eq_sub_mod (by omega), Nat.mod_eq_of_lt (by omega)]

theorem mem_sealedSegs (ha : active < g.segmentCount)
    (hs : seg < g.segmentCount) :
    seg ∈ g.sealedSegs oldest active ↔ g.sealedCount oldest seg < g.sealedCount oldest active := by
  have hcount := g.sealedCount_lt oldest active
  simp only [sealedSegs, List.mem_map, List.mem_range]
  constructor
  · rintro ⟨k, hk, rfl⟩
    rw [add_mod_eq ho (by omega)] at hs ⊢
    rw [sealedCount_eq ho hs]
    split_ifs <;> omega
  · intro h
    refine ⟨g.sealedCount oldest seg, h, ?_⟩
    rw [add_mod_eq ho (by omega), sealedCount_eq ho hs]
    split_ifs <;> omega

theorem active_not_mem_sealedSegs (ha : active < g.segmentCount) :
    active ∉ g.sealedSegs oldest active := by
  rw [mem_sealedSegs ho ha ha]
  exact Nat.lt_irrefl _

theorem nodup_sealedSegs (active : Nat) :
    (g.sealedSegs oldest active).Nodup := by
  refine List.Nodup.map_on ?_ List.nodup_range
  intro i hi j hj heq
  have hcount := g.sealedCount_lt oldest active
  rw [List.mem_range] at hi hj
  rw [add_mod_eq ho (by omega), add_mod_eq ho (by omega)] at heq
  split_ifs at heq <;> omega

section

variable (ha : active < g.segmentCount) (hne : g.next active ≠ oldest)
include ha hne

theorem sealedCount_next :
    g.sealedCount oldest (g.next active) = g.sealedCount oldest active + 1 := by
  rw [sealedCount_eq ho (g.next_lt active), sealedCount_eq ho ha]
  rw [next_eq ha] at hne ⊢
  split_ifs at hne ⊢ <;> omega

theorem next_not_mem_sealedSegs : g.next active ∉ g.sealedSegs oldest active := by
  rw [mem_sealedSegs ho ha (g.next_lt active), sealedCount_next ho ha hne]
  omega

theorem sealedSegs_next :
    g.sealedSegs oldest (g.next active) = g.sealedSegs oldest active ++ [active] := by
  have hlast : (oldest + g.sealedCount oldest active) % g.segmentCount = active := by
    rw [add_mod_eq ho (g.sealedCount_lt oldest active), sealedCount_eq ho ha]
    split_ifs <;> omega
  rw [sealedSegs, sealedCount_next ho ha hne, List.range_succ, List.map_append, sealedSegs]
  simp [hlast]

end

/-- The oldest segment comes first. -/
theorem sealedSegs_cons (ha : active < g.segmentCount)
    (hne : oldest ≠ active) :
    g.sealedSegs oldest active = oldest :: g.sealedSegs (g.next oldest) active := by
  have hcount : g.sealedCount oldest active = g.sealedCount (g.next oldest) active + 1 := by
    rw [sealedCount_eq ho ha, sealedCount_eq (g.next_lt oldest) ha, next_eq ho]
    split_ifs <;> omega
  rw [sealedSegs, hcount, List.range_succ_eq_map, List.map_cons, List.map_map, sealedSegs]
  refine congrArg₂ _ (Nat.mod_eq_of_lt ho) (List.map_congr_left fun k _ => ?_)
  have hassoc : oldest + (k + 1) = oldest + 1 + k := by omega
  rw [Function.comp_apply, Nat.succ_eq_add_one, hassoc, next, Nat.mod_add_mod]

end

end Geometry

/-! ## Contents of the device -/

/-- The device holds these entries in its sealed segments and those in the active one, up to a
position of the active segment. -/
structure Disk.Holds (crc : List UInt8 → UInt32) (g : Geometry) (disk : Disk)
    (content : List (Nat × List RedoEntry)) (recent : List RedoEntry) (cur : Nat) : Prop where
  size : ∀ seg, (disk.segment seg).length = g.segmentSize
  oldest_lt : disk.header.oldestSeg < g.segmentCount
  active_lt : disk.header.activeSeg < g.segmentCount
  segs : content.map Prod.fst = g.sealedSegs disk.header.oldestSeg disk.header.activeSeg
  sealed : Sealed crc g disk 0 content
  parses : Parses crc g.align (disk.segment disk.header.activeSeg) 0 (lastSeq 0 (entriesOf content))
    recent cur
  cur_dvd : g.align ∣ cur
  cur_eq : cur = 0 ∨ recent ≠ []

/-- The bytes a flush writes for these entries from a block boundary on. -/
def paddedFrames (crc : List UInt8 → UInt32) (align : Nat) (es : List RedoEntry) : List UInt8 :=
  frames crc es ++
    List.replicate (roundUp (frames crc es).length align - (frames crc es).length) 0

theorem length_paddedFrames {crc : List UInt8 → UInt32} {align : Nat} (halign : 0 < align)
    (es : List RedoEntry) :
    (paddedFrames crc align es).length = roundUp (frames crc es).length align := by
  have hle := le_roundUp (n := (frames crc es).length) halign
  rw [paddedFrames, List.length_append, List.length_replicate]
  omega

theorem parses_overwrite {crc : List UInt8 → UInt32} {align pos prev : Nat} {buf : List UInt8}
    {es : List RedoEntry} (halign : 0 < align) (hdvd : align ∣ pos)
    (hfits : ∀ e ∈ es, e.op.Fits) (hasc : Ascends prev es)
    (hpad : PadOk align (pos + (frames crc es).length)) (hpos : pos ≤ buf.length) :
    Parses crc align (overwrite buf pos (paddedFrames crc align es)) pos prev es
      (roundUp (pos + (frames crc es).length) align) := by
  have hround : roundUp (pos + (frames crc es).length) align - (pos + (frames crc es).length) =
      roundUp (frames crc es).length align - (frames crc es).length := by
    rw [roundUp_add halign hdvd]
    omega
  refine parses_of_written (buf.drop (pos + (paddedFrames crc align es).length)) halign hfits hasc
    hpad ?_
  rw [drop_overwrite_pos hpos, hround]
  rfl

namespace Disk.Holds

variable {crc : List UInt8 → UInt32} {g : Geometry} {disk : Disk}
  {content : List (Nat × List RedoEntry)} {recent es : List RedoEntry} {cur : Nat} {w : FlushWrite}

section

variable (h : disk.Holds crc g content recent cur)
include h

theorem cur_le : cur ≤ g.segmentSize :=
  h.size disk.header.activeSeg ▸ h.parses.le_length (Nat.zero_le _)

theorem room (hfit : cur + (frames crc es).length ≤ g.segmentSize) :
    cur + roundUp (frames crc es).length g.align ≤ g.segmentSize := by
  rw [← roundUp_add g.align_pos h.cur_dvd]
  exact roundUp_le g.align_dvd hfit

theorem nodup_segs : (content.map Prod.fst).Nodup := by
  rw [h.segs]
  exact Geometry.nodup_sealedSegs h.oldest_lt _

theorem active_not_mem :
    disk.header.activeSeg ∉ content.map Prod.fst := by
  rw [h.segs]
  exact Geometry.active_not_mem_sealedSegs h.oldest_lt h.active_lt

end

theorem segment_write_ne {seg : Nat} (hne : seg ≠ w.seg) :
    (disk.write w).segment seg = disk.segment seg := Function.update_of_ne hne _ _

theorem segment_write (w : FlushWrite) :
    (disk.write w).segment w.seg = overwrite (disk.segment w.seg) w.offset w.bytes :=
  Function.update_self _ _ _

theorem size_write (hsize : ∀ seg, (disk.segment seg).length = g.segmentSize)
    (hfit : w.offset + w.bytes.length ≤ g.segmentSize) (seg : Nat) :
    ((disk.write w).segment seg).length = g.segmentSize := by
  by_cases hseg : seg = w.seg
  · rw [hseg, segment_write, length_overwrite (by rw [hsize]; exact hfit), hsize]
  · rw [segment_write_ne hseg, hsize]

variable {header : RingHeader}

section

variable (h : disk.Holds crc g content recent cur)
include h

theorem write_here (hseg : w.seg = disk.header.activeSeg)
    (hoffset : w.offset = cur) (hbytes : w.bytes = paddedFrames crc g.align es) (hne : es ≠ [])
    (holdest : w.header.oldestSeg = disk.header.oldestSeg)
    (hactive : w.header.activeSeg = disk.header.activeSeg)
    (hfit : cur + (frames crc es).length ≤ g.segmentSize) (hfits : ∀ e ∈ es, e.op.Fits)
    (hasc : Ascends (lastSeq 0 (entriesOf content ++ recent)) es)
    (hpad : PadOk g.align (cur + (frames crc es).length)) :
    (disk.write w).Holds crc g content (recent ++ es)
      (roundUp (cur + (frames crc es).length) g.align) := by
  have hroom := h.room hfit
  have hsize := h.size disk.header.activeSeg
  have hactiveSeg : (disk.write w).segment disk.header.activeSeg =
      overwrite (disk.segment disk.header.activeSeg) cur (paddedFrames crc g.align es) := by
    rw [← hseg, segment_write, hoffset, hbytes]
  refine ⟨size_write h.size ?_, ?_, ?_, ?_, ?_, ?_, dvd_roundUp _ _, .inr (by simp [hne])⟩
  · rw [hoffset, hbytes, length_paddedFrames g.align_pos]
    exact hroom
  · exact holdest ▸ h.oldest_lt
  · exact hactive ▸ h.active_lt
  · show _ = g.sealedSegs w.header.oldestSeg w.header.activeSeg
    rw [holdest, hactive, h.segs]
  · refine h.sealed.congr fun seg hmem => segment_write_ne ?_
    rintro rfl
    rw [h.segs, hseg] at hmem
    exact Geometry.active_not_mem_sealedSegs h.oldest_lt h.active_lt hmem
  · show Parses crc g.align ((disk.write w).segment w.header.activeSeg) _ _ _ _
    rw [hactive, hactiveSeg]
    have hold : Parses crc g.align (overwrite (disk.segment disk.header.activeSeg) cur
        (paddedFrames crc g.align es)) 0 (lastSeq 0 (entriesOf content)) recent cur := by
      refine h.parses.congr (take_overwrite (hsize ▸ h.cur_le) le_rfl) ?_
      rw [length_overwrite (by rw [length_paddedFrames g.align_pos, hsize]; exact hroom), hsize]
      exact h.cur_le
    rw [lastSeq_append] at hasc
    exact hold.trans (parses_overwrite g.align_pos h.cur_dvd hfits hasc hpad (hsize ▸ h.cur_le))

theorem sealed_concat (hne : recent ≠ [])
    (hstop : Stops crc g.align (disk.segment disk.header.activeSeg) false cur
      (lastSeq 0 (entriesOf content ++ recent))) :
    Sealed crc g disk 0 (content ++ [(disk.header.activeSeg, recent)]) := by
  rw [lastSeq_append] at hstop
  exact h.sealed.concat (h.size _) h.parses hne hstop

/-- A header write that leaves the live segments alone. -/
theorem header_here (holdest : header.oldestSeg = disk.header.oldestSeg)
    (hactive : header.activeSeg = disk.header.activeSeg) :
    ({ disk with header := header } : Disk).Holds crc g content recent cur :=
  ⟨h.size, holdest ▸ h.oldest_lt, hactive ▸ h.active_lt,
    by rw [h.segs]; exact holdest ▸ hactive ▸ rfl, h.sealed.congr fun _ _ => rfl,
    by rw [hactive]; exact h.parses, h.cur_dvd, h.cur_eq⟩

variable (hrecent : recent ≠ [])
  (hstop : Stops crc g.align (disk.segment disk.header.activeSeg) false cur
    (lastSeq 0 (entriesOf content ++ recent)))
  (hfree : g.next disk.header.activeSeg ≠ disk.header.oldestSeg)
include hrecent hstop hfree

/-- A header write that names the segment after the active one, with nothing in it yet. -/
theorem header_next (holdest : header.oldestSeg = disk.header.oldestSeg)
    (hactive : header.activeSeg = g.next disk.header.activeSeg) :
    ({ disk with header := header } : Disk).Holds crc g
      (content ++ [(disk.header.activeSeg, recent)]) [] 0 := by
  refine ⟨h.size, holdest ▸ h.oldest_lt, hactive ▸ g.next_lt _, ?_,
    (h.sealed_concat hrecent hstop).congr fun _ _ => rfl, .done _ _, Nat.dvd_zero _, .inl rfl⟩
  rw [List.map_append, h.segs, holdest, hactive,
    Geometry.sealedSegs_next h.oldest_lt h.active_lt hfree]
  rfl

theorem write_next (hseg : w.seg = g.next disk.header.activeSeg) (hoffset : w.offset = 0)
    (hbytes : w.bytes = paddedFrames crc g.align es) (hne : es ≠ [])
    (holdest : w.header.oldestSeg = disk.header.oldestSeg)
    (hactive : w.header.activeSeg = g.next disk.header.activeSeg)
    (hfit : (frames crc es).length ≤ g.segmentSize) (hfits : ∀ e ∈ es, e.op.Fits)
    (hasc : Ascends (lastSeq 0 (entriesOf content ++ recent)) es)
    (hpad : PadOk g.align (frames crc es).length) :
    (disk.write w).Holds crc g (content ++ [(disk.header.activeSeg, recent)]) es
      (roundUp (frames crc es).length g.align) := by
  -- The header write alone leaves the next segment empty; the frames then go into it.
  have hempty := h.header_next hrecent hstop hfree holdest hactive
  have hzero : 0 + (frames crc es).length = (frames crc es).length := Nat.zero_add _
  have hwritten := hempty.write_here (hseg.trans hactive.symm) hoffset hbytes hne rfl rfl
    (hzero.symm ▸ hfit) hfits (by rwa [entriesOf_concat, List.append_nil]) (hzero.symm ▸ hpad)
  rwa [List.nil_append, hzero] at hwritten

end

/-- The oldest segment is given back. -/
theorem header_tail {seg : Nat} (h : disk.Holds crc g ((seg, es) :: content) recent cur)
    (holdest : header.oldestSeg = g.next disk.header.oldestSeg)
    (hactive : header.activeSeg = disk.header.activeSeg) :
    ({ disk with header := header } : Disk).Holds crc g content recent cur := by
  have hne : disk.header.oldestSeg ≠ disk.header.activeSeg := by
    intro heq
    have hsegs := h.segs
    rw [heq, Geometry.sealedSegs_self h.active_lt] at hsegs
    simp at hsegs
  have hsegs := h.segs
  rw [Geometry.sealedSegs_cons h.oldest_lt h.active_lt hne, List.map_cons] at hsegs
  refine ⟨h.size, holdest ▸ g.next_lt _, hactive ▸ h.active_lt, ?_,
    h.sealed.tail.congr fun _ _ => rfl, ?_, h.cur_dvd, h.cur_eq⟩
  · rw [holdest, hactive]
    exact (List.cons.inj hsegs).2
  · rw [hactive]
    have hparse := h.parses
    rw [entriesOf_cons, lastSeq_append] at hparse
    cases hcontent : entriesOf content with
    | nil => exact hparse.weaken
    | cons e rest =>
      rw [hcontent] at hparse
      exact hparse

end Disk.Holds

end TeraSlab.Redo
