import TeraSlab.Allocator.ConcurrentSafety
import TeraSlab.Allocator.ReplaySpec

/-!
# Device space as a set of bytes

What an allocator is for, without its freelist: a set of free bytes, a high-water mark and the
regions handed out. Every redo entry is one step on this space, and a run of successful
operations of the allocator is a run of the space along the entries it logged.
-/

namespace TeraSlab.Allocator

open Foundations

/-- The free bytes, the high-water mark and the regions handed out. -/
structure Space where
  free : Set Nat
  next : Nat
  live : List AllocatedRegion

namespace Space

/-- One logged operation, for allocators with the configuration of `c`. -/
inductive Step (c : SlotAllocator) : Space → RegionRedoOp → Space → Prop
  | allocate {s : Space} {o n : Nat} (aligned : c.alignReservation n = n)
      (start : dataRegionOffset ≤ o) (fits : 0 < n → o + n ≤ c.deviceSize)
      (empty : n = 0 → o ≤ s.next) (fresh : ∀ r ∈ s.live, ¬ r.Meets ⟨o, n⟩) :
      Step c s (.allocateRegion o n c.redoDeviceId)
        ⟨s.free \ (Extent.mk o n).bytes, max s.next (o + n), ⟨o, n⟩ :: s.live⟩
  | free {s : Space} {o n : Nat} (mem : ⟨o, n⟩ ∈ s.live) (pos : 0 < n)
      (aligned : c.alignReservation n = n) (start : dataRegionOffset ≤ o)
      (fits : o + n ≤ c.deviceSize) :
      Step c s (.freeRegion o n c.redoDeviceId)
        ⟨(Extent.mk o n).bytes ∪ s.free, s.next, s.live.erase ⟨o, n⟩⟩

inductive Run (c : SlotAllocator) : Space → List RegionRedoOp → Space → Prop
  | nil (s : Space) : Run c s [] s
  | cons {s u t : Space} {op : RegionRedoOp} {ops : List RegionRedoOp} :
      Step c s op u → Run c u ops t → Run c s (op :: ops) t

/-- The regions handed out are disjoint, hold no free byte and lie below the high-water mark. -/
structure Sound (s : Space) : Prop where
  disjoint : s.live.Pairwise fun r r' => ¬ r.Meets r'
  notFree : ∀ r ∈ s.live, Disjoint r.bytes s.free
  below : ∀ r ∈ s.live, r.stop ≤ s.next

end Space

def RegionRedoOp.region : RegionRedoOp → Extent
  | .allocateRegion o n _ => ⟨o, n⟩
  | .freeRegion o n _ => ⟨o, n⟩

def Touched (ops : List RegionRedoOp) (x : Nat) : Prop := ∃ op ∈ ops, x ∈ op.region.bytes

variable {ops : List RegionRedoOp}

@[simp] theorem touched_cons {op : RegionRedoOp} {x : Nat} :
    Touched (op :: ops) x ↔ x ∈ op.region.bytes ∨ Touched ops x := by
  simp [Touched]

theorem touched_append {ops' : List RegionRedoOp} {x : Nat} :
    Touched (ops ++ ops') x ↔ Touched ops x ∨ Touched ops' x := by
  simp only [Touched, List.mem_append, or_and_right, exists_or]

theorem AllocatedBy.touched {x : Nat} (h : AllocatedBy ops x) :
    Touched ops x := by
  obtain ⟨o, n, id, hmem, hx⟩ := h
  exact ⟨_, hmem, hx⟩

@[simp] theorem freedIn_cons_free {o n id : Nat} {r : Extent} :
    FreedIn (.freeRegion o n id :: ops) r ↔ r = ⟨o, n⟩ ∨ FreedIn ops r := by
  simp [FreedIn, Extent.ext_iff, exists_or]

@[simp] theorem freedIn_cons_allocate {o n id : Nat} {r : Extent} :
    FreedIn (.allocateRegion o n id :: ops) r ↔ FreedIn ops r := by
  simp [FreedIn]

section

variable {ops : List RegionRedoOp} {r : Extent} (h : FreedIn ops r)
include h

/-- The entries up to the first free of the region, and those after it. -/
theorem FreedIn.split :
    ∃ before id, ops = before ++ .freeRegion r.offset r.size id :: afterFree r ops ∧
      ¬ FreedIn before r := by
  induction ops with
  | nil => simp [FreedIn] at h
  | cons op ops ih =>
    cases op with
    | allocateRegion o n id =>
      obtain ⟨before, id', heq, hnot⟩ := ih (freedIn_cons_allocate.mp h)
      refine ⟨.allocateRegion o n id :: before, id', ?_, by simpa using hnot⟩
      simpa [afterFree] using heq
    | freeRegion o n id =>
      by_cases hr : r = ⟨o, n⟩
      · subst hr
        exact ⟨[], id, by simp [afterFree], by simp [FreedIn]⟩
      obtain ⟨before, id', heq, hnot⟩ := ih ((freedIn_cons_free.mp h).resolve_left hr)
      refine ⟨.freeRegion o n id :: before, id', ?_, by simpa [hr] using hnot⟩
      simpa [afterFree, Ne.symm hr] using heq

theorem afterFree_append
    (ops' : List RegionRedoOp) : afterFree r (ops ++ ops') = afterFree r ops ++ ops' := by
  induction ops with
  | nil => simp [FreedIn] at h
  | cons op ops ih =>
    cases op with
    | allocateRegion o n id =>
      simpa [afterFree] using ih (freedIn_cons_allocate.mp h)
    | freeRegion o n id =>
      by_cases hr : r = ⟨o, n⟩
      · simp [afterFree, hr]
      · simpa [afterFree, Ne.symm hr] using ih ((freedIn_cons_free.mp h).resolve_left hr)

theorem FreedIn.touched {x : Nat}
    (hx : x ∈ r.bytes) : Touched ops x := by
  obtain ⟨id, hmem⟩ := h
  exact ⟨_, hmem, hx⟩

end

namespace Space

variable {c : SlotAllocator} {s u t : Space} {op : RegionRedoOp} {ops ops' : List RegionRedoOp}
  {r : AllocatedRegion} {x : Nat}

theorem Run.append_iff : Run c s (ops ++ ops') t ↔ ∃ u, Run c s ops u ∧ Run c u ops' t := by
  induction ops generalizing s with
  | nil =>
    refine ⟨fun h => ⟨s, .nil s, h⟩, ?_⟩
    rintro ⟨u, h, h'⟩
    cases h
    exact h'
  | cons op ops ih =>
    constructor
    · intro h
      cases h with
      | cons hstep hrun =>
        obtain ⟨u, h₁, h₂⟩ := ih.mp hrun
        exact ⟨u, .cons hstep h₁, h₂⟩
    · rintro ⟨u, h₁, h₂⟩
      cases h₁ with
      | cons hstep hrun => exact .cons hstep (ih.mpr ⟨u, hrun, h₂⟩)

/-- A live region shares no byte with what is live beside it. -/
theorem Sound.not_meets_erase (h : s.Sound) (hr : r ∈ s.live) :
    ∀ r' ∈ s.live.erase r, ¬ r'.Meets r := by
  have hp := (List.perm_cons_erase hr).pairwise_iff (R := fun r r' : Extent => ¬ r.Meets r')
    (fun {_ _} hn hm => hn hm.symm)
  intro r' hr' hm
  exact (List.pairwise_cons.mp (hp.mp h.disjoint)).1 r' hr' hm.symm

theorem Step.sound (h : s.Sound) (hstep : Step c s op t) : t.Sound := by
  cases hstep with
  | @allocate o n aligned start fits empty fresh =>
    refine ⟨List.pairwise_cons.mpr ⟨fun r hr hm => fresh r hr hm.symm, h.disjoint⟩, ?_, ?_⟩
    · intro r hr
      rcases List.mem_cons.mp hr with rfl | hr
      · exact Set.disjoint_sdiff_right
      · exact (h.notFree r hr).mono_right Set.sdiff_subset
    · intro r hr
      rcases List.mem_cons.mp hr with rfl | hr
      · exact le_max_right ..
      · exact (h.below r hr).trans (le_max_left ..)
  | @free o n mem pos aligned start fits =>
    have hsub : ∀ r ∈ s.live.erase ⟨o, n⟩, r ∈ s.live := fun r hr => List.mem_of_mem_erase hr
    refine ⟨h.disjoint.sublist List.erase_sublist, fun r hr => ?_,
      fun r hr => h.below r (hsub r hr)⟩
    refine Set.disjoint_union_right.mpr ⟨?_, h.notFree r (hsub r hr)⟩
    exact Extent.not_meets_iff.mp (h.not_meets_erase mem r hr)

theorem Run.sound (h : s.Sound) (hrun : Run c s ops t) : t.Sound := by
  induction hrun with
  | nil => exact h
  | cons hstep _ ih => exact ih (hstep.sound h)

/-- A step leaves the bytes outside its region alone. -/
theorem Step.free_iff (hstep : Step c s op t) (hx : x ∉ op.region.bytes) :
    x ∈ t.free ↔ x ∈ s.free := by
  cases hstep with
  | allocate => exact ⟨And.left, fun h => ⟨h, hx⟩⟩
  | free => exact ⟨fun h => h.resolve_left hx, Or.inr⟩

theorem Run.free_iff (hrun : Run c s ops t) (hx : ¬ Touched ops x) :
    x ∈ t.free ↔ x ∈ s.free := by
  induction hrun with
  | nil => exact Iff.rfl
  | cons hstep _ ih =>
    rw [touched_cons, not_or] at hx
    exact (ih hx.2).trans (hstep.free_iff hx.1)

theorem Step.next_le (hstep : Step c s op t) : s.next ≤ t.next := by
  cases hstep with
  | allocate => exact le_max_left ..
  | free => exact le_rfl

theorem Run.next_le (hrun : Run c s ops t) : s.next ≤ t.next := by
  induction hrun with
  | nil => exact le_rfl
  | cons hstep _ ih => exact hstep.next_le.trans ih

/-- A free byte that is not free at the end was allocated on the way. -/
theorem Run.allocatedBy (hrun : Run c s ops t) (hx : x ∈ s.free) (hx' : x ∉ t.free) :
    AllocatedBy ops x := by
  induction hrun with
  | nil => exact absurd hx hx'
  | @cons s u t op ops hstep _ ih =>
    by_cases hu : x ∈ u.free
    · obtain ⟨o, n, id, hmem, hxb⟩ := ih hu hx'
      exact ⟨o, n, id, List.mem_cons_of_mem _ hmem, hxb⟩
    · cases hstep with
      | @allocate o n =>
        refine ⟨o, n, _, List.mem_cons_self, ?_⟩
        by_contra hxb
        exact hu ⟨hx, hxb⟩
      | free => exact absurd (Or.inr hx) hu

/-- A live region that is not freed stays live, and no entry touches its bytes. -/
theorem Run.live_of_not_freed (hs : s.Sound) (hrun : Run c s ops t) (hr : r ∈ s.live)
    (hnot : ¬ FreedIn ops r) : r ∈ t.live ∧ ∀ x ∈ r.bytes, ¬ Touched ops x := by
  induction hrun with
  | nil => exact ⟨hr, fun x _ => by simp [Touched]⟩
  | @cons s u t op ops hstep _ ih =>
    have hlater : ¬ FreedIn ops r := fun ⟨id, h⟩ => hnot ⟨id, List.mem_cons_of_mem _ h⟩
    obtain ⟨hu, haway⟩ : r ∈ u.live ∧ ∀ x ∈ r.bytes, x ∉ op.region.bytes := by
      cases hstep with
      | @allocate o n aligned start fits empty fresh =>
        refine ⟨List.mem_cons_of_mem _ hr, fun x hx hx' => fresh r hr ?_⟩
        exact Extent.meets_iff.mpr ⟨x, hx, hx'⟩
      | @free o n mem pos aligned start fits =>
        have hne : r ≠ ⟨o, n⟩ := by
          rintro rfl
          exact hnot ⟨_, List.mem_cons_self⟩
        have hmem : r ∈ s.live.erase ⟨o, n⟩ := (List.mem_erase_of_ne hne).mpr hr
        refine ⟨hmem, fun x hx hx' => hs.not_meets_erase mem r hmem ?_⟩
        exact Extent.meets_iff.mpr ⟨x, hx, hx'⟩
    obtain ⟨ht, hout⟩ := ih (hstep.sound hs) hu hlater
    exact ⟨ht, fun x hx => by rw [touched_cons, not_or]; exact ⟨haway x hx, hout x hx⟩⟩

/-- A free byte that is never allocated again is never touched. -/
theorem Run.not_touched (hs : s.Sound) (hrun : Run c s ops t) (hx : x ∈ s.free)
    (hnot : ¬ AllocatedBy ops x) : ¬ Touched ops x := by
  induction hrun with
  | nil => simp [Touched]
  | @cons s u t op ops hstep _ ih =>
    have hlater : ¬ AllocatedBy ops x := fun ⟨o, n, id, h, hb⟩ =>
      hnot ⟨o, n, id, List.mem_cons_of_mem _ h, hb⟩
    have haway : x ∉ op.region.bytes := by
      intro hxb
      cases hstep with
      | @allocate o n => exact hnot ⟨o, n, _, List.mem_cons_self, hxb⟩
      | free mem => exact Set.disjoint_left.mp (hs.notFree _ mem) hxb hx
    rw [touched_cons, not_or]
    exact ⟨haway, ih (hstep.sound hs) ((hstep.free_iff haway).mpr hx) hlater⟩

end Space

end TeraSlab.Allocator
