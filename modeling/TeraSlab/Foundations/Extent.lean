import Mathlib.Data.Set.Lattice
import Mathlib.Order.Interval.Set.Basic
import Mathlib.Tactic
import Mathlib.Order.CompletePartialOrder

/-!
# Extents and separated families of extents

An extent is a byte range given by its offset and its size. A family of extents is separated
when its members are nonempty and any two of them leave at least one byte between them, so the
members are the maximal runs of the bytes they cover. The lemmas say how inserting, removing,
splitting and merging members acts on the covered bytes.
-/

namespace Foundations

@[ext]
structure Extent where
  offset : Nat
  size : Nat
  deriving DecidableEq, Repr

namespace Extent

def stop (e : Extent) : Nat := e.offset + e.size

def bytes (e : Extent) : Set Nat := Set.Ico e.offset e.stop

@[simp] theorem stop_mk (o s : Nat) : (Extent.mk o s).stop = o + s := rfl

@[simp] theorem mem_bytes {e : Extent} {x : Nat} :
    x ∈ e.bytes ↔ e.offset ≤ x ∧ x < e.stop := Iff.rfl

def Meets (e f : Extent) : Prop := e.offset < f.stop ∧ f.offset < e.stop ∧ 0 < e.size ∧ 0 < f.size

instance (e f : Extent) : Decidable (e.Meets f) := inferInstanceAs (Decidable (_ ∧ _))

theorem meets_iff {e f : Extent} : e.Meets f ↔ ∃ x, x ∈ e.bytes ∧ x ∈ f.bytes := by
  simp only [Meets, mem_bytes, stop]
  constructor
  · rintro ⟨h₁, h₂, h₃, h₄⟩
    exact ⟨max e.offset f.offset, by omega, by omega⟩
  · rintro ⟨x, hx, hy⟩
    omega

theorem not_meets_iff {e f : Extent} : ¬ e.Meets f ↔ Disjoint e.bytes f.bytes := by
  rw [meets_iff, Set.disjoint_left]
  push Not
  rfl

theorem Meets.symm {e f : Extent} (h : e.Meets f) : f.Meets e := ⟨h.2.1, h.1, h.2.2.2, h.2.2.1⟩

end Extent

def cover (S : Set Extent) : Set Nat := {x | ∃ r ∈ S, x ∈ r.bytes}

theorem mem_cover {S : Set Extent} {x : Nat} : x ∈ cover S ↔ ∃ r ∈ S, x ∈ r.bytes := Iff.rfl

theorem bytes_subset_cover {S : Set Extent} {r : Extent} (h : r ∈ S) : r.bytes ⊆ cover S :=
  fun _ hx => ⟨r, h, hx⟩

theorem cover_insert (e : Extent) (S : Set Extent) : cover (insert e S) = e.bytes ∪ cover S := by
  ext x
  simp only [mem_cover, Set.mem_insert_iff, Set.mem_union, exists_eq_or_imp]

/-- Nonempty members with a gap between any two of them. -/
structure Separated (S : Set Extent) : Prop where
  pos : ∀ r ∈ S, 0 < r.size
  apart : ∀ r ∈ S, ∀ r' ∈ S, r ≠ r' → r.stop < r'.offset ∨ r'.stop < r.offset

namespace Separated

variable {S T : Set Extent} {e r r' : Extent}

theorem empty : Separated ∅ := ⟨by simp, by simp⟩

section

variable (h : Separated S)
include h

theorem mono (hT : T ⊆ S) : Separated T :=
  ⟨fun r hr => h.pos r (hT hr), fun r hr r' hr' => h.apart r (hT hr) r' (hT hr')⟩

theorem eq_of_mem_bytes (hr : r ∈ S) (hr' : r' ∈ S) {x : Nat}
    (hx : x ∈ r.bytes) (hx' : x ∈ r'.bytes) : r = r' := by
  by_contra hne
  have := h.apart r hr r' hr' hne
  simp only [Extent.mem_bytes] at hx hx'
  omega

theorem eq_of_offset (hr : r ∈ S) (hr' : r' ∈ S)
    (ho : r.offset = r'.offset) : r = r' := by
  have hp := h.pos r hr
  have hp' := h.pos r' hr'
  refine h.eq_of_mem_bytes (x := r.offset) hr hr' ?_ ?_ <;>
    simp only [Extent.mem_bytes, Extent.stop] <;> omega

theorem cover_diff_singleton (hr : r ∈ S) :
    cover (S \ {r}) = cover S \ r.bytes := by
  ext x
  constructor
  · rintro ⟨r', ⟨hr', hne⟩, hx⟩
    exact ⟨⟨r', hr', hx⟩, fun hx' => hne (h.eq_of_mem_bytes hr' hr hx hx')⟩
  · rintro ⟨⟨r', hr', hx⟩, hn⟩
    exact ⟨r', ⟨hr', fun he => hn (he ▸ hx)⟩, hx⟩

/-- Adding a nonempty extent that keeps its distance from every member. -/
theorem insert (hpos : 0 < e.size)
    (hfar : ∀ r ∈ S, r.stop < e.offset ∨ e.stop < r.offset) : Separated (insert e S) := by
  refine ⟨?_, ?_⟩
  · rintro r (rfl | hr)
    · exact hpos
    · exact h.pos r hr
  · rintro r (rfl | hr) r' (rfl | hr') hne
    · exact absurd rfl hne
    · exact (hfar r' hr').symm
    · exact hfar r hr
    · exact h.apart r hr r' hr' hne

/-- Replacing a member by a nonempty part of it. -/
theorem replace (hr : r ∈ S) (hpos : 0 < e.size)
    (hlo : r.offset ≤ e.offset) (hhi : e.stop ≤ r.stop) :
    Separated (Insert.insert e (S \ {r})) := by
  refine (h.mono Set.sdiff_subset).insert hpos ?_
  rintro r' ⟨hr', hne⟩
  have := h.apart r' hr' r hr hne
  omega

/-- A member that touches no byte of `e` ends before `e` or starts after it. -/
theorem stop_le_or (hpos : 0 < e.size) (hd : Disjoint e.bytes (cover S))
    (hr : r ∈ S) : r.stop ≤ e.offset ∨ e.stop ≤ r.offset := by
  have hpos' := h.pos r hr
  have hn := Extent.not_meets_iff.mpr (hd.mono_right (bytes_subset_cover hr))
  simp only [Extent.Meets, Extent.stop] at hn ⊢
  omega

theorem cover_merge {m : Extent} (hr : r ∈ S) (hm : m.bytes = e.bytes ∪ r.bytes) :
    m.bytes ∪ cover (S \ {r}) = e.bytes ∪ cover S := by
  rw [h.cover_diff_singleton hr, hm, Set.union_assoc,
    Set.union_sdiff_cancel (bytes_subset_cover hr)]

theorem merge_next (he : ∀ r ∈ S, r.stop ≤ e.offset ∨ e.stop ≤ r.offset)
    (hr : r ∈ S) (hadj : r.offset = e.stop) :
    (∀ r' ∈ S \ {r}, r'.stop ≤ e.offset ∨ e.stop + r.size < r'.offset) ∧
      (Extent.mk e.offset (e.size + r.size)).bytes ∪ cover (S \ {r}) = e.bytes ∪ cover S := by
  constructor
  · rintro r' ⟨hr', hne⟩
    have hfar := he r' hr'
    have := h.apart r' hr' r hr hne
    simp only [Extent.stop] at *
    omega
  · refine h.cover_merge hr (Set.ext fun x => ?_)
    simp only [Set.mem_union, Extent.mem_bytes, Extent.stop] at *
    omega

theorem merge_prev (he : ∀ r ∈ S, r.stop ≤ e.offset ∨ e.stop < r.offset)
    (hr : r ∈ S) (hadj : r.stop = e.offset) :
    (∀ r' ∈ S \ {r}, r'.stop < r.offset ∨ e.stop < r'.offset) ∧
      (Extent.mk r.offset (e.size + r.size)).bytes ∪ cover (S \ {r}) = e.bytes ∪ cover S := by
  constructor
  · rintro r' ⟨hr', hne⟩
    have hfar := he r' hr'
    have := h.apart r' hr' r hr hne
    simp only [Extent.stop] at *
    omega
  · refine h.cover_merge hr (Set.ext fun x => ?_)
    simp only [Set.mem_union, Extent.mem_bytes, Extent.stop] at *
    omega

/-- The bytes on both sides of a member are not covered. -/
theorem not_mem_cover_stop (hr : r ∈ S) : r.stop ∉ cover S := by
  rintro ⟨r', hr', hlo, hhi⟩
  have hne : r ≠ r' := by
    rintro rfl
    omega
  have := h.apart r hr r' hr' hne
  simp only [Extent.stop] at *
  omega

end

/-- The covered bytes determine a separated family: its members are their maximal runs. -/
theorem subset_of_cover_subset (hS : Separated S) (hT : Separated T) (hcov : cover S = cover T) :
    S ⊆ T := by
  intro r hr
  have hpos := hS.pos r hr
  obtain ⟨r', hr', hlo, hhi⟩ : r.offset ∈ cover T :=
    hcov ▸ ⟨r, hr, le_rfl, by simp only [Extent.stop]; omega⟩
  -- both ends of `r'` agree with those of `r`, since the bytes just outside are not covered
  have hstop : r'.stop = r.stop := by
    have h₁ : r.stop ∉ r'.bytes := fun h =>
      hS.not_mem_cover_stop hr (hcov ▸ bytes_subset_cover hr' h)
    have h₂ : r'.stop ∉ r.bytes := fun h =>
      hT.not_mem_cover_stop hr' (hcov ▸ bytes_subset_cover hr h)
    simp only [Extent.mem_bytes, Extent.stop] at *
    omega
  have hoff : r'.offset = r.offset := by
    obtain ⟨r'', hr'', hlo', hhi'⟩ : r'.offset ∈ cover S := by
      rw [hcov]
      exact bytes_subset_cover hr' ⟨le_rfl, by omega⟩
    by_cases he : r'' = r
    · subst he
      omega
    have hbetween := hS.not_mem_cover_stop hr''
    have h₃ : r''.stop ∉ r'.bytes := fun h =>
      hbetween (hcov ▸ bytes_subset_cover hr' h)
    have := hS.apart r'' hr'' r hr he
    simp only [Extent.mem_bytes, Extent.stop] at *
    omega
  have heq : r' = r := by
    refine Extent.ext hoff ?_
    simp only [Extent.stop] at hstop
    omega
  exact heq ▸ hr'

theorem eq_of_cover_eq (hS : Separated S) (hT : Separated T) (hcov : cover S = cover T) :
    S = T :=
  Set.Subset.antisymm (hS.subset_of_cover_subset hT hcov)
    (hT.subset_of_cover_subset hS hcov.symm)

end Separated

end Foundations
