import TeraSlab.Redo.RingSteps

/-!
# What a crash leaves of a ring

A crash keeps an arbitrary part of the writes since the last sync: some blocks of each, and its
header block or not. The writes since the last sync form a chain of device states, each of them
readable. A crash is clean when it damages the writes from some one of them on, in such a way that
this first damaged write does not decode at its start, and no header of a later segment is kept;
then what is left is readable up to one of the states of the chain.
-/

namespace TeraSlab.Redo

open Foundations RingLog

variable {crc : List UInt8 → UInt32} {g : Geometry} {fresh : Prop} {disk : Disk} {w : FlushWrite}
  {ws : List FlushWrite} {keep : Nat → Disk.Kept} {seg : Nat}

namespace Disk

def survive (g : Geometry) : Disk → List FlushWrite → (Nat → Kept) → Disk
  | disk, [], _ => disk
  | disk, w :: ws, keep => survive g (disk.writeKept g w (keep 0)) ws fun i => keep (i + 1)

theorem segment_writeKept_ne {k : Kept} (hne : seg ≠ w.seg) :
    (disk.writeKept g w k).segment seg = disk.segment seg := Function.update_of_ne hne _ _

theorem segment_writeKept (w : FlushWrite) (k : Kept) :
    (disk.writeKept g w k).segment w.seg =
      overwriteKept g.align k.block (disk.segment w.seg) w.offset w.bytes :=
  Function.update_self _ _ _

theorem survive_segment_ne (h : ∀ w ∈ ws, w.seg ≠ seg) :
    (disk.survive g ws keep).segment seg = disk.segment seg := by
  induction ws generalizing disk keep with
  | nil => rfl
  | cons w ws ih =>
    rw [survive, ih fun w' hw' => h w' (List.mem_cons_of_mem w hw')]
    exact segment_writeKept_ne (h w List.mem_cons_self).symm

theorem survive_take {n : Nat} (h : ∀ w ∈ ws, w.seg = seg → n ≤ w.offset) :
    ((disk.survive g ws keep).segment seg).take n = (disk.segment seg).take n := by
  induction ws generalizing disk keep with
  | nil => rfl
  | cons w ws ih =>
    rw [survive, ih fun w' hw' => h w' (List.mem_cons_of_mem w hw')]
    by_cases hseg : seg = w.seg
    · subst hseg
      rw [segment_writeKept, take_overwriteKept (h w List.mem_cons_self rfl)]
    · rw [segment_writeKept_ne hseg]

theorem survive_length :
    ((disk.survive g ws keep).segment seg).length = (disk.segment seg).length := by
  induction ws generalizing disk keep with
  | nil => rfl
  | cons w ws ih =>
    rw [survive, ih]
    by_cases hseg : seg = w.seg
    · subst hseg
      rw [segment_writeKept, length_overwriteKept]
    · rw [segment_writeKept_ne hseg]

theorem survive_header :
    (disk.survive g ws keep).header = disk.header ∨
      ∃ i w, ws[i]? = some w ∧ (keep i).header = true ∧
        (disk.survive g ws keep).header = w.header := by
  induction ws generalizing disk keep with
  | nil => exact .inl rfl
  | cons w ws ih =>
    rw [survive]
    rcases @ih (disk.writeKept g w (keep 0)) (fun i => keep (i + 1)) with
      hbase | ⟨i, w', hw, hk, hh⟩
    · cases hkept : (keep 0).header with
      | true =>
        refine .inr ⟨0, w, rfl, hkept, ?_⟩
        rw [hbase, writeKept, hkept]
        rfl
      | false =>
        refine .inl ?_
        rw [hbase, writeKept, hkept]
        rfl
    · exact .inr ⟨i + 1, w', hw, hk, hh⟩

/-- Another header before the writes is still there afterwards, or makes no difference. -/
theorem survive_withHeader (header : RingHeader) :
    ({ disk with header := header } : Disk).survive g ws keep = disk.survive g ws keep ∨
      (({ disk with header := header } : Disk).survive g ws keep =
          { disk.survive g ws keep with header := header } ∧
        (disk.survive g ws keep).header = disk.header) := by
  induction ws generalizing disk keep with
  | nil => exact .inr ⟨rfl, rfl⟩
  | cons w ws ih =>
    cases hkept : (keep 0).header with
    | true =>
      refine .inl ?_
      rw [survive, survive]
      simp [writeKept, hkept]
    | false =>
      have hsame : ({ disk with header := header } : Disk).writeKept g w (keep 0) =
          { disk.writeKept g w (keep 0) with header := header } := by
        simp [writeKept, hkept]
      have hbase : (disk.writeKept g w (keep 0)).header = disk.header := by
        simp [writeKept, hkept]
      have hrest := @ih (disk.writeKept g w (keep 0)) fun i => keep (i + 1)
      rw [hbase] at hrest
      rw [survive, survive, hsame]
      exact hrest

theorem writeKept_all {k : Kept} (hall : ∀ b, k.block b = true)
    (hfit : w.offset + w.bytes.length ≤ (disk.segment w.seg).length) : disk.writeKept g w k =
      if k.header then disk.write w else { disk.write w with header := disk.header } := by
  rw [writeKept, overwriteKept_all hall hfit]
  cases k.header <;> rfl

end Disk

/-- A crash damages the writes from some one of them on: that one does not decode at its start, and
no header of another segment is kept. `segment` are the segments that are left. -/
def CleanCrash (crc : List UInt8 → UInt32) (segment : Nat → List UInt8) :
    List FlushWrite → (Nat → Disk.Kept) → Prop
  | [], _ => True
  | w :: ws, keep =>
    ((∀ b, (keep 0).block b = true) ∧ CleanCrash crc segment ws fun i => keep (i + 1)) ∨
      (RedoEntry.deserialize crc ((segment w.seg).drop w.offset) = none ∧
        ∀ i w', (w :: ws)[i]? = some w' → (keep i).header = true → w'.seg = w.seg)

/-- A crash that keeps no header and tears the first write at its start is clean. -/
theorem cleanCrash_of_lost {segment : Nat → List UInt8} (hlost : ∀ i, (keep i).header = false)
    (hnone : ∀ w ∈ ws.head?, RedoEntry.deserialize crc ((segment w.seg).drop w.offset) = none) :
    CleanCrash crc segment ws keep := by
  cases ws with
  | nil => trivial
  | cons w ws =>
    refine .inr ⟨hnone w rfl, ?_⟩
    intro i w' _ hkept
    rw [hlost i] at hkept
    cases hkept

structure Node where
  content : List (Nat × List RedoEntry)
  recent : List RedoEntry
  cur : Nat

namespace Node

def entries (n : Node) : List RedoEntry := entriesOf n.content ++ n.recent

/-- The device holds these entries and the scan of the active segment ends behind them; on a ring
that has never given back a segment also when there are none. -/
structure On (crc : List UInt8 → UInt32) (g : Geometry) (fresh : Prop) (disk : Disk) (n : Node) :
    Prop where
  holds : disk.Holds crc g n.content n.recent n.cur
  ends : Stops crc g.align (disk.segment disk.header.activeSeg) true n.cur (lastSeq 0 n.entries) ∨
    ¬ fresh ∧ n.entries = []

/-- One write takes the device from one state to the next. -/
structure Step (crc : List UInt8 → UInt32) (g : Geometry) (disk : Disk) (n : Node) (w : FlushWrite)
    (n' : Node) : Prop where
  oldest : w.header.oldestSeg = disk.header.oldestSeg
  active : w.header.activeSeg = w.seg
  fence : w.header.checkpointSeq = disk.header.checkpointSeq
  fit : w.offset + w.bytes.length ≤ g.segmentSize
  entries : n.entries <+: n'.entries
  place : (w.seg = disk.header.activeSeg ∧ w.offset = n.cur ∧ n.cur ≤ n'.cur) ∨
    (w.seg = g.next disk.header.activeSeg ∧ w.offset = 0 ∧
      g.next disk.header.activeSeg ≠ disk.header.oldestSeg ∧ n.recent ≠ [] ∧
      Stops crc g.align (disk.segment disk.header.activeSeg) false n.cur (lastSeq 0 n.entries))

end Node

/-- The states of the device along a list of writes. -/
inductive Chain (crc : List UInt8 → UInt32) (g : Geometry) (fresh : Prop) :
    Disk → Node → List FlushWrite → Node → Prop where
  | nil {disk : Disk} {n : Node} (hon : n.On crc g fresh disk) : Chain crc g fresh disk n [] n
  | cons {disk : Disk} {n n' n'' : Node} {w : FlushWrite} {ws : List FlushWrite}
      (hon : n.On crc g fresh disk) (hstep : n.Step crc g disk w n')
      (hrest : Chain crc g fresh (disk.write w) n' ws n'') : Chain crc g fresh disk n (w :: ws) n''

variable {n n' n'' : Node}

namespace Chain

section

variable (h : Chain crc g fresh disk n ws n')
include h

theorem on : n.On crc g fresh disk := by
  cases h with
  | nil hon => exact hon
  | cons hon _ _ => exact hon

theorem on_last : n'.On crc g fresh (ws.foldl Disk.write disk) := by
  induction h with
  | nil hon => exact hon
  | cons _ _ _ ih => exact ih

theorem concat (hstep : n'.Step crc g (ws.foldl Disk.write disk) w n'')
    (hon : n''.On crc g fresh ((ws.foldl Disk.write disk).write w)) :
    Chain crc g fresh disk n (ws ++ [w]) n'' := by
  induction h with
  | nil hon' => exact .cons hon' hstep (.nil hon)
  | cons hon' hstep' _ ih => exact .cons hon' hstep' (ih hstep hon)

end

theorem init (h : Chain crc g fresh disk n (ws ++ [w]) n') :
    ∃ m, Chain crc g fresh disk n ws m := by
  induction ws generalizing disk n with
  | nil => exact ⟨n, .nil h.on⟩
  | cons w' ws ih =>
    cases h with
    | cons hon hstep hrest =>
      obtain ⟨m, hm⟩ := ih hrest
      exact ⟨m, .cons hon hstep hm⟩

theorem entries_le (h : Chain crc g fresh disk n ws n') : n.entries <+: n'.entries := by
  induction h with
  | nil _ => exact List.prefix_refl _
  | cons _ hstep _ ih => exact hstep.entries.trans ih

/-- No write touches a sealed segment or the entries of the active one. -/
theorem untouched (h : Chain crc g fresh disk n ws n') : ∀ w ∈ ws,
    w.seg ∉ g.sealedSegs disk.header.oldestSeg disk.header.activeSeg ∧
      (w.seg = disk.header.activeSeg → n.cur ≤ w.offset) := by
  induction h with
  | nil _ => simp
  | @cons disk n n₁ n₂ w ws hon hstep hrest ih =>
    have ho := hon.holds.oldest_lt
    have ha := hon.holds.active_lt
    have hold : (disk.write w).header.oldestSeg = disk.header.oldestSeg := hstep.oldest
    have hact : (disk.write w).header.activeSeg = w.seg := hstep.active
    rw [hold, hact] at ih
    intro w' hw'
    rcases hstep.place with ⟨hseg, hoffset, hcur⟩ | ⟨hseg, hoffset, hfree, -, -⟩
    · rw [hseg] at ih
      rcases List.mem_cons.mp hw' with rfl | hw'
      · rw [hseg]
        exact ⟨Geometry.active_not_mem_sealedSegs ho ha, fun _ => hoffset.ge⟩
      · exact ⟨(ih w' hw').1, fun heq => hcur.trans ((ih w' hw').2 heq)⟩
    · rw [hseg, Geometry.sealedSegs_next ho ha hfree] at ih
      rcases List.mem_cons.mp hw' with rfl | hw'
      · rw [hseg]
        refine ⟨Geometry.next_not_mem_sealedSegs ho ha hfree, fun heq => ?_⟩
        have hge := g.segmentCount_ge
        rw [Geometry.next_eq ha] at heq
        split_ifs at heq <;> omega
      · have hmem := (ih w' hw').1
        simp only [List.mem_append, List.mem_singleton, not_or] at hmem
        exact ⟨hmem.1, fun heq => absurd heq hmem.2⟩

/-- A write that opens a new segment leaves the one before it alone, as do those after it. -/
theorem untouched_active (h : Chain crc g fresh disk n (w :: ws) n')
    (hseg : w.seg = g.next disk.header.activeSeg)
    (hfree : g.next disk.header.activeSeg ≠ disk.header.oldestSeg) :
    ∀ w' ∈ w :: ws, w'.seg ≠ disk.header.activeSeg := by
  cases h with
  | cons hon hstep hrest =>
    have ho := hon.holds.oldest_lt
    have ha := hon.holds.active_lt
    have hold : (disk.write w).header.oldestSeg = disk.header.oldestSeg := hstep.oldest
    have hact : (disk.write w).header.activeSeg = w.seg := hstep.active
    intro w' hw'
    rcases List.mem_cons.mp hw' with rfl | hw'
    · intro heq
      have hge := g.segmentCount_ge
      rw [hseg, Geometry.next_eq ha] at heq
      split_ifs at heq <;> omega
    · have hmem := (hrest.untouched w' hw').1
      rw [hold, hact, hseg, Geometry.sealedSegs_next ho ha hfree] at hmem
      simp only [List.mem_append, List.mem_singleton, not_or] at hmem
      exact hmem.2

end Chain

/-- What a device holds only depends on its live part. -/
theorem Disk.Holds.frame {disk' : Disk} {content : List (Nat × List RedoEntry)}
    {recent : List RedoEntry} {cur : Nat} (h : disk.Holds crc g content recent cur)
    (hlen : ∀ seg, (disk'.segment seg).length = (disk.segment seg).length)
    (holdest : disk'.header.oldestSeg = disk.header.oldestSeg)
    (hactive : disk'.header.activeSeg = disk.header.activeSeg)
    (hsealed : ∀ seg ∈ g.sealedSegs disk.header.oldestSeg disk.header.activeSeg,
      disk'.segment seg = disk.segment seg)
    (htake : (disk'.segment disk.header.activeSeg).take cur =
      (disk.segment disk.header.activeSeg).take cur) :
    disk'.Holds crc g content recent cur := by
  refine ⟨fun seg => (hlen seg).trans (h.size seg), holdest ▸ h.oldest_lt, hactive ▸ h.active_lt,
    ?_, h.sealed.congr fun seg hmem => hsealed seg (h.segs ▸ hmem), ?_, h.cur_dvd, h.cur_eq⟩
  · rw [holdest, hactive, h.segs]
  rw [hactive]
  refine h.parses.congr htake ?_
  rw [hlen, h.size]
  exact h.cur_le

namespace Chain

section

variable (h : Chain crc g fresh disk n ws n')
include h

/-- Whatever is left of the writes, with a header for the same segments it holds what the device
held before them. -/
theorem holds_survive (keep : Nat → Disk.Kept)
    {header : RingHeader} (holdest : header.oldestSeg = disk.header.oldestSeg)
    (hactive : header.activeSeg = disk.header.activeSeg) :
    ({ disk.survive g ws keep with header := header } : Disk).Holds crc g n.content n.recent
      n.cur := by
  have huntouched := h.untouched
  refine h.on.holds.frame (fun seg => Disk.survive_length) holdest hactive ?_ ?_
  · intro seg hmem
    refine Disk.survive_segment_ne fun w hw heq => ?_
    exact (huntouched w hw).1 (heq ▸ hmem)
  · exact Disk.survive_take fun w hw => (huntouched w hw).2

/-- Every write of a chain carries the header of its own segment. -/
theorem headers : ∀ w ∈ ws,
    w.header.oldestSeg = disk.header.oldestSeg ∧ w.header.activeSeg = w.seg ∧
      w.header.checkpointSeq = disk.header.checkpointSeq := by
  induction h with
  | nil _ => simp
  | @cons disk n n₁ n₂ w ws hon hstep hrest ih =>
    have hold : (disk.write w).header.oldestSeg = disk.header.oldestSeg := hstep.oldest
    have hfence : (disk.write w).header.checkpointSeq = disk.header.checkpointSeq := hstep.fence
    rw [hold, hfence] at ih
    intro w' hw'
    rcases List.mem_cons.mp hw' with rfl | hw'
    · exact ⟨hstep.oldest, hstep.active, hstep.fence⟩
    · exact ih w' hw'

theorem fence_last :
    (ws.foldl Disk.write disk).header.checkpointSeq = disk.header.checkpointSeq := by
  induction h with
  | nil _ => rfl
  | cons _ hstep _ ih => exact ih.trans hstep.fence

/-- The oldest segment and the fence are the same whichever header is left. -/
theorem survive_oldest_fence (keep : Nat → Disk.Kept) :
    (disk.survive g ws keep).header.oldestSeg = disk.header.oldestSeg ∧
      (disk.survive g ws keep).header.checkpointSeq = disk.header.checkpointSeq := by
  rcases @Disk.survive_header g disk ws keep with hbase | ⟨i, w, hw, -, hheader⟩
  · rw [hbase]
    exact ⟨rfl, rfl⟩
  have hw' := h.headers w (List.mem_of_getElem? hw)
  rw [hheader]
  exact ⟨hw'.1, hw'.2.2⟩

end

/-- The first damaged write: what was there before it is still there. -/
theorem survive_damaged (h : Chain crc g fresh disk n (w :: ws) n')
    (hnone : RedoEntry.deserialize crc
      (((disk.survive g (w :: ws) keep).segment w.seg).drop w.offset) = none)
    (hheaders : ∀ i w', (w :: ws)[i]? = some w' → (keep i).header = true → w'.seg = w.seg) :
    ∃ m : Node, m.On crc g fresh (disk.survive g (w :: ws) keep) ∧ m.entries = n.entries := by
  obtain ⟨holdest, -⟩ := h.survive_oldest_fence keep
  have hactive : (disk.survive g (w :: ws) keep).header.activeSeg = disk.header.activeSeg ∨
      (disk.survive g (w :: ws) keep).header.activeSeg = w.seg := by
    rcases @Disk.survive_header g disk (w :: ws) keep with hbase | ⟨i, w', hw, hkept, hheader⟩
    · exact .inl (by rw [hbase])
    · rw [hheader, (h.headers w' (List.mem_of_getElem? hw)).2.1, hheaders i w' hw hkept]
      exact .inr rfl
  have hsame := h
  cases h with
  | cons hon hstep hrest =>
    rcases hstep.place with ⟨hseg, hoffset, -⟩ | ⟨hseg, hoffset, hfree, hrecent, hstop⟩
    · rw [hseg, or_self] at hactive
      refine ⟨n, ⟨hsame.holds_survive keep holdest hactive, .inl ?_⟩, rfl⟩
      rw [hactive]
      rw [hseg, hoffset] at hnone
      exact stops_undecoded hon.holds.cur_dvd hnone
    · have hsegment : (disk.survive g (w :: ws) keep).segment disk.header.activeSeg =
          disk.segment disk.header.activeSeg :=
        Disk.survive_segment_ne (hsame.untouched_active hseg hfree)
      rcases hactive with hactive | hactive
      · refine ⟨n, ⟨hsame.holds_survive keep holdest hactive, ?_⟩, rfl⟩
        rw [hactive, hsegment]
        exact hon.ends
      · refine ⟨⟨n.content ++ [(disk.header.activeSeg, n.recent)], [], 0⟩, ⟨?_, .inl ?_⟩, ?_⟩
        · have hbefore : ({ disk.survive g (w :: ws) keep with header := disk.header } : Disk).Holds
              crc g n.content n.recent n.cur := hsame.holds_survive keep rfl rfl
          refine hbefore.header_next hrecent ?_ hfree holdest (hactive.trans hseg)
          rw [hsegment]
          exact hstop
        · rw [hactive]
          rw [hoffset] at hnone
          exact stops_undecoded (Nat.dvd_zero _) hnone
        · simp [Node.entries, entriesOf_concat]

/-- A first write whose blocks are all kept: only its header may be missing. -/
theorem survive_whole (h : Chain crc g fresh disk n (w :: ws) n')
    (hall : ∀ b, (keep 0).block b = true) :
    disk.survive g (w :: ws) keep = (disk.write w).survive g ws (fun i => keep (i + 1)) ∨
      (disk.survive g (w :: ws) keep =
          { (disk.write w).survive g ws (fun i => keep (i + 1)) with header := disk.header } ∧
        ((disk.write w).survive g ws fun i => keep (i + 1)).header = w.header) := by
  cases h with
  | cons hon hstep hrest =>
    have hfit : w.offset + w.bytes.length ≤ (disk.segment w.seg).length := by
      rw [hon.holds.size]
      exact hstep.fit
    rw [Disk.survive, Disk.writeKept_all hall hfit]
    split
    · exact .inl rfl
    · exact Disk.survive_withHeader disk.header

/-- Where all blocks are kept, only the headers may be missing. -/
theorem survive_blocks (h : Chain crc g fresh disk n ws n')
    (hall : ∀ i < ws.length, ∀ b, (keep i).block b = true) :
    (disk.survive g ws keep).segment = (ws.foldl Disk.write disk).segment := by
  induction h generalizing keep with
  | nil _ => rfl
  | cons hon hstep hrest ih =>
    have hchain := Chain.cons hon hstep hrest
    have htail := @ih (fun i => keep (i + 1)) fun i hi => hall (i + 1) (Nat.succ_lt_succ hi)
    rcases hchain.survive_whole (hall 0 (Nat.succ_pos _)) with hsame | ⟨hsame, -⟩ <;> rw [hsame]
    · exact htail
    · exact htail

/-- After a clean crash the device is readable: it holds what was synced, and perhaps more. -/
theorem survive (h : Chain crc g fresh disk n ws n')
    (hclean : CleanCrash crc (disk.survive g ws keep).segment ws keep) :
    ∃ m : Node, m.On crc g fresh (disk.survive g ws keep) ∧ n.entries <+: m.entries ∧
      m.entries <+: n'.entries := by
  induction h generalizing keep with
  | nil hon => exact ⟨_, hon, List.prefix_refl _, List.prefix_refl _⟩
  | @cons disk n n₁ n₂ w ws hon hstep hrest ih =>
    have hchain : Chain crc g fresh disk n (w :: ws) n₂ := .cons hon hstep hrest
    rcases hclean with ⟨hall, hclean⟩ | ⟨hnone, hheaders⟩
    · rcases hchain.survive_whole hall with hsame | ⟨hsame, hheader⟩
      · rw [hsame] at hclean ⊢
        obtain ⟨m, hm, hfrom, hto⟩ := ih hclean
        exact ⟨m, hm, hstep.entries.trans hfrom, hto⟩
      · have hsegment : (disk.survive g (w :: ws) keep).segment =
            ((disk.write w).survive g ws fun i => keep (i + 1)).segment := by rw [hsame]
        rw [hsegment] at hclean
        obtain ⟨m, hm, hfrom, hto⟩ := ih hclean
        rcases hstep.place with ⟨hseg, -, -⟩ | ⟨hseg, -, hfree, -, -⟩
        · -- the older header names the same segment
          have hactive : disk.header.activeSeg =
              ((disk.write w).survive g ws fun i => keep (i + 1)).header.activeSeg := by
            rw [hheader, hstep.active, hseg]
          have holdest : disk.header.oldestSeg =
              ((disk.write w).survive g ws fun i => keep (i + 1)).header.oldestSeg := by
            rw [hheader, hstep.oldest]
          rw [hsame]
          refine ⟨m, ⟨hm.holds.header_here holdest hactive, ?_⟩, hstep.entries.trans hfrom, hto⟩
          rw [hactive]
          exact hm.ends
        · -- the older header names the segment before
          have hold : (disk.survive g (w :: ws) keep).header = disk.header := by rw [hsame]
          refine ⟨n, ⟨hchain.holds_survive keep (congrArg _ hold) (congrArg _ hold), ?_⟩,
            List.prefix_refl _, hchain.entries_le⟩
          rw [hold, Disk.survive_segment_ne (hchain.untouched_active hseg hfree)]
          exact hon.ends
    · obtain ⟨m, hm, hentries⟩ := hchain.survive_damaged hnone hheaders
      exact ⟨m, hm, hentries ▸ List.prefix_refl _, hentries ▸ hchain.entries_le⟩

end Chain

end TeraSlab.Redo
