import TeraSlab.Allocator.SlotAllocatorSpec
import Mathlib.Logic.Relation

/-!
# The segment allocator

The data region is carved into segments of one size. `SegmentAllocator` appends to the open
segment; when a record does not fit there, it opens a reclaimed segment, or the one past the
highest used segment. Freeing a region only counts its bytes as dead. A segment whose bytes are
all dead and that no live record lies in is reclaimed for reuse. While a backup has pinned the
lifecycle, nothing is reclaimed and no reclaimed segment is opened.
-/

namespace TeraSlab.Allocator

open Foundations

inductive SegmentAllocatorError where
  | deviceFull (requested remaining openSegment segmentSize : Nat)
  | invalidSegmentSize (segmentSize alignment dataCapacity : Nat)
  | invalidFree (offset size : Nat)
deriving DecidableEq, Repr

/-- The bytes the cursor has passed in a segment, and those of them that were freed. -/
structure SegmentMeta where
  used : Nat
  dead : Nat
deriving DecidableEq, Repr

def SegmentMeta.default : SegmentMeta := ⟨0, 0⟩

structure SegmentAllocator where
  geometry : Geometry
  segmentSize : Nat
  segmentCount : Nat
  segments : Nat → SegmentMeta
  freeSegments : List Nat
  openSegment : Nat
  cursor : Nat
  packed : Bool
  pinned : Bool

namespace SegmentAllocator

/-- A fresh allocator. The mode is set once, before the first allocation. -/
def new (g : Geometry) (segmentSize : Nat) (packed : Bool) :
    Except SegmentAllocatorError SegmentAllocator :=
  let dataCapacity := g.deviceSize - dataRegionOffset
  if segmentSize = 0 ∨ segmentSize % g.alignment ≠ 0 ∨ dataCapacity < segmentSize then
    .error (.invalidSegmentSize segmentSize g.alignment dataCapacity)
  else
    .ok { geometry := g, segmentSize, segmentCount := dataCapacity / segmentSize % 2 ^ 32,
          segments := fun _ => .default, freeSegments := [], openSegment := 0,
          cursor := dataRegionOffset, packed, pinned := false }

variable (a : SegmentAllocator)

def segmentStart (id : Nat) : Nat := dataRegionOffset + id * a.segmentSize

/-- The segment that owns a byte of the device. -/
def segmentOf (offset : Nat) : Option Nat :=
  if offset < dataRegionOffset then none
  else
    let idx := (offset - dataRegionOffset) / a.segmentSize
    if a.segmentCount ≤ idx then none else some idx

def alignReservation (size : Nat) : Nat :=
  let block := a.geometry.alignment
  if !a.packed then wrap64 (divCeil size block * block)
  else if size ≤ block then wrap64 (divCeil size recordAlign * recordAlign)
  else wrap64 (divCeil size block * block)

/-- Would a small record straddle two blocks, or a large one start inside a block? -/
def needBump (alignedSize : Nat) : Bool :=
  let block := a.geometry.alignment
  if alignedSize ≤ block then block < a.cursor % block + alignedSize else a.cursor % block ≠ 0

/-- Where a reservation goes in the open segment: at the cursor, moved to the next block boundary
when packed mode needs it. -/
def placement (alignedSize : Nat) : Nat :=
  if a.packed && a.needBump alignedSize then
    divCeil a.cursor a.geometry.alignment * a.geometry.alignment
  else a.cursor

def segmentEnd : Nat := a.segmentStart a.openSegment + a.segmentSize

def openSegmentRemaining : Nat := a.segmentEnd - a.cursor

def lastUsed (segments : Nat → SegmentMeta) : Nat → Option Nat
  | 0 => none
  | n + 1 => if 0 < (segments n).used then some n else lastUsed segments n

def highestUsed : Nat := (lastUsed a.segments a.segmentCount).getD a.openSegment

def openAt (idx : Nat) : SegmentAllocator :=
  { a with openSegment := idx, cursor := a.segmentStart idx }

def advanceToNextSegment : Option SegmentAllocator :=
  match a.pinned, a.freeSegments with
  | false, reused :: rest => some { a.openAt reused with freeSegments := rest }
  | _, _ =>
    let next := max a.openSegment a.highestUsed + 1
    if a.segmentCount ≤ next then none else some (a.openAt next)

/-- Take a reservation in the open segment; the gap before it counts as used. -/
def append (alignedSize : Nat) : SegmentAllocator :=
  let stop := a.placement alignedSize + alignedSize
  let old := a.segments a.openSegment
  { a with
    segments := Function.update a.segments a.openSegment
      { old with used := old.used + (stop - a.cursor) }
    cursor := stop }

/-- Place the reservation in the first segment it fits, opening one segment after the other. -/
def allocateLoop (alignedSize : Nat) :
    Nat → SegmentAllocator → Except SegmentAllocatorError Nat × SegmentAllocator
  | 0, a => (.error (.deviceFull alignedSize a.openSegmentRemaining a.openSegment a.segmentSize), a)
  | fuel + 1, a =>
    if a.placement alignedSize + alignedSize ≤ a.segmentEnd then
      (.ok (a.placement alignedSize), a.append alignedSize)
    else
      match a.advanceToNextSegment with
      | some b => allocateLoop alignedSize fuel b
      | none =>
        (.error (.deviceFull alignedSize a.openSegmentRemaining a.openSegment a.segmentSize), a)

def openings : Nat :=
  if a.pinned || a.freeSegments.isEmpty then a.segmentCount - a.openSegment
  else a.freeSegments.length + a.segmentCount

def allocate (size : Nat) : Except SegmentAllocatorError Nat × SegmentAllocator :=
  let alignedSize := a.alignReservation size
  if alignedSize = 0 ∨ a.segmentSize < alignedSize then
    (.error (.deviceFull alignedSize a.openSegmentRemaining a.openSegment a.segmentSize), a)
  else allocateLoop alignedSize (a.openings + 1) a

def free (offset size : Nat) : Except SegmentAllocatorError SegmentAllocator :=
  let alignedSize := a.alignReservation size
  if alignedSize = 0 ∨ offset < dataRegionOffset ∨
      a.geometry.deviceSize < offset + alignedSize then
    .error (.invalidFree offset alignedSize)
  else
    match a.segmentOf offset with
    | none => .error (.invalidFree offset alignedSize)
    | some seg =>
      let old := a.segments seg
      .ok { a with
        segments := Function.update a.segments seg { old with dead := old.dead + alignedSize } }

def fullyDead (liveOffsets : List Nat) : List Nat :=
  if a.pinned then []
  else
    (List.range a.segmentCount).filter fun idx =>
      idx ≠ a.openSegment ∧ 0 < (a.segments idx).used ∧
        (a.segments idx).used ≤ (a.segments idx).dead ∧
        ∀ offset ∈ liveOffsets, a.segmentOf offset ≠ some idx

def reclaimFullyDeadSegments (liveOffsets : List Nat) : List Nat × SegmentAllocator :=
  let reclaimed := a.fullyDead liveOffsets
  (reclaimed,
    { a with
      segments := fun idx => if idx ∈ reclaimed then .default else a.segments idx
      freeSegments := a.freeSegments ++ reclaimed })

def setLifecyclePinned (pinned : Bool) : SegmentAllocator := { a with pinned }

variable {a} {b : SegmentAllocator} {n i : Nat}

/-! ### Opening a segment -/

theorem lt_lastUsed {segments : Nat → SegmentMeta} (hi : i < n) (hused : 0 < (segments i).used) :
    ∃ j, lastUsed segments n = some j ∧ i ≤ j := by
  induction n with
  | zero => omega
  | succ n ih =>
    by_cases hn : 0 < (segments n).used
    · exact ⟨n, if_pos hn, by omega⟩
    have hne : i ≠ n := fun h => hn (h ▸ hused)
    rw [lastUsed, if_neg hn]
    exact ih (by omega)

theorem le_highestUsed (hi : i < a.segmentCount) (hused : 0 < (a.segments i).used) :
    i ≤ a.highestUsed := by
  obtain ⟨j, hj, hij⟩ := lt_lastUsed hi hused
  rw [highestUsed, hj]
  exact hij

theorem advance_cases (h : a.advanceToNextSegment = some b) :
    (∃ reused rest, a.pinned = false ∧ a.freeSegments = reused :: rest ∧
        b = { a.openAt reused with freeSegments := rest }) ∨
      (∃ next, (a.pinned = true ∨ a.freeSegments = []) ∧ a.openSegment < next ∧
        next < a.segmentCount ∧ (∀ i < a.segmentCount, 0 < (a.segments i).used → i < next) ∧
        b = a.openAt next) := by
  have hnext : ∀ i < a.segmentCount, 0 < (a.segments i).used →
      i < max a.openSegment a.highestUsed + 1 := by
    intro i hi hused
    have := le_highestUsed hi hused
    omega
  unfold advanceToNextSegment at h
  split at h
  case h_1 reused rest hpin hfree =>
    exact .inl ⟨reused, rest, hpin, hfree, (Option.some.inj h).symm⟩
  case h_2 hno =>
    by_cases hfull : a.segmentCount ≤ max a.openSegment a.highestUsed + 1
    · rw [if_pos hfull] at h
      cases h
    rw [if_neg hfull] at h
    refine .inr ⟨_, ?_, by omega, by omega, hnext, (Option.some.inj h).symm⟩
    cases hpin : a.pinned with
    | true => exact .inl rfl
    | false =>
      cases hfree : a.freeSegments with
      | nil => exact .inr rfl
      | cons reused rest => exact absurd hfree (hno reused rest hpin)

theorem openings_advance (h : a.advanceToNextSegment = some b) : b.openings < a.openings := by
  obtain ⟨reused, rest, hpin, hfree, rfl⟩ | ⟨next, hno, hlt, hcount, -, rfl⟩ := advance_cases h
  · have ha : a.openings = rest.length + 1 + a.segmentCount := by simp [openings, hpin, hfree]
    rw [ha, openings]
    split_ifs <;> dsimp only [openAt] <;> omega
  · have hcond : (a.pinned || a.freeSegments.isEmpty) = true := by
      rcases hno with hno | hno <;> simp [hno]
    have hcond' : ((a.openAt next).pinned || (a.openAt next).freeSegments.isEmpty) = true := hcond
    rw [openings, openings, if_pos hcond, if_pos hcond']
    dsimp only [openAt]
    omega

/-! ### What an allocation does -/

def Opens : SegmentAllocator → SegmentAllocator → Prop :=
  Relation.ReflTransGen fun a b => a.advanceToNextSegment = some b

/-- The allocation succeeded: segments were opened until the reservation fit. -/
theorem allocateLoop_ok {fuel offset : Nat} (h : allocateLoop n fuel a = (.ok offset, b)) :
    ∃ c, a.Opens c ∧ c.placement n + n ≤ c.segmentEnd ∧ offset = c.placement n ∧
      b = c.append n := by
  induction fuel generalizing a with
  | zero => cases h
  | succ fuel ih =>
    rw [allocateLoop] at h
    by_cases hfit : a.placement n + n ≤ a.segmentEnd
    · rw [if_pos hfit] at h
      cases h
      exact ⟨a, .refl, hfit, rfl, rfl⟩
    · rw [if_neg hfit] at h
      split at h
      case h_1 d hd =>
        obtain ⟨c, hc, hrest⟩ := ih h
        exact ⟨c, .head hd hc, hrest⟩
      case h_2 => cases h

/-- The allocation failed: segments were opened until there was no other one. -/
theorem allocateLoop_error {fuel : Nat} {e : SegmentAllocatorError} (hfuel : a.openings < fuel)
    (h : allocateLoop n fuel a = (.error e, b)) :
    a.Opens b ∧ b.advanceToNextSegment = none := by
  induction fuel generalizing a with
  | zero => omega
  | succ fuel ih =>
    rw [allocateLoop] at h
    by_cases hfit : a.placement n + n ≤ a.segmentEnd
    · rw [if_pos hfit] at h
      cases h
    rw [if_neg hfit] at h
    split at h
    case h_1 d hd =>
      obtain ⟨hopens, hlast⟩ := ih (by have := openings_advance hd; omega) h
      exact ⟨.head hd hopens, hlast⟩
    case h_2 hd =>
      cases h
      exact ⟨.refl, hd⟩

/-- A region was handed out: the reservation fit behind the cursor of some opened segment. -/
structure Allocated (a : SegmentAllocator) (size offset : Nat) (b : SegmentAllocator) : Prop where
  pos : 0 < a.alignReservation size
  placed : ∃ c, a.Opens c ∧
    c.placement (a.alignReservation size) + a.alignReservation size ≤ c.segmentEnd ∧
    offset = c.placement (a.alignReservation size) ∧ b = c.append (a.alignReservation size)

theorem allocate_ok {size offset : Nat} (h : a.allocate size = (.ok offset, b)) :
    a.Allocated size offset b := by
  unfold allocate at h
  by_cases hbad : a.alignReservation size = 0 ∨ a.segmentSize < a.alignReservation size
  · rw [if_pos hbad] at h
    cases h
  · rw [if_neg hbad] at h
    exact ⟨by omega, allocateLoop_ok h⟩

theorem allocate_error {size : Nat} {e : SegmentAllocatorError}
    (h : a.allocate size = (.error e, b)) : a.Opens b := by
  unfold allocate at h
  by_cases hbad : a.alignReservation size = 0 ∨ a.segmentSize < a.alignReservation size
  · rw [if_pos hbad] at h
    cases h
    exact .refl
  · rw [if_neg hbad] at h
    exact (allocateLoop_error (Nat.lt_succ_self _) h).1

theorem cursor_le_placement (a : SegmentAllocator) (n : Nat) : a.cursor ≤ a.placement n := by
  unfold placement
  split
  · exact le_divCeil_mul _ _ (by have := a.geometry.alignment_min; omega)
  · exact le_rfl

/-! ### Settled regions -/

structure SettledIn (a : SegmentAllocator) (i : Nat) (e : Extent) : Prop where
  pos : 0 < e.size
  start : a.segmentStart i ≤ e.offset
  stop : e.stop ≤ a.segmentStart i + a.segmentSize
  used : 0 < (a.segments i).used
  kept : i ∉ a.freeSegments
  behind : i = a.openSegment → e.stop ≤ a.cursor

/-- No allocation is placed over the region as long as its segment is not reclaimed. -/
def Settled (a : SegmentAllocator) (e : Extent) : Prop := ∃ i, a.SettledIn i e

/-- What holds of an allocator that was never pinned: a segment up for reuse is empty, is listed
once and is not the open one. -/
structure Orderly (a : SegmentAllocator) : Prop where
  nodup : a.freeSegments.Nodup
  empty : ∀ i ∈ a.freeSegments, (a.segments i).used = 0
  sealed : a.openSegment ∉ a.freeSegments
  inside : a.segmentStart a.openSegment ≤ a.cursor

structure Tidy (a : SegmentAllocator) : Prop extends a.Orderly where
  unpinned : a.pinned = false

/-- The frontier is past every segment up for reuse, or a reclaimed segment is opened first. -/
def Clear (a : SegmentAllocator) : Prop :=
  a.pinned = true → ∀ j ∈ a.freeSegments,
    j ≤ a.openSegment ∨ ∃ k < a.segmentCount, j ≤ k ∧ 0 < (a.segments k).used

theorem Tidy.clear (ht : a.Tidy) : a.Clear := fun hpin => absurd (ht.unpinned.symm.trans hpin) nofun

theorem Orderly.tidy (ho : a.Orderly) (hpin : a.pinned = false) : a.Tidy := ⟨ho, hpin⟩

variable {e r : Extent} {j : Nat}

theorem segmentStart_add_le (h : i < j) : a.segmentStart i + a.segmentSize ≤ a.segmentStart j := by
  have := Nat.mul_le_mul_right a.segmentSize (Nat.succ_le_of_lt h)
  rw [Nat.succ_mul] at this
  unfold segmentStart
  omega

theorem disjoint_of_ne (hne : i ≠ j) (he : a.segmentStart i ≤ e.offset)
    (he' : e.stop ≤ a.segmentStart i + a.segmentSize) (hr : a.segmentStart j ≤ r.offset)
    (hr' : r.stop ≤ a.segmentStart j + a.segmentSize) : Disjoint e.bytes r.bytes := by
  rw [Set.disjoint_left]
  intro x hx hx'
  rw [Extent.mem_bytes] at hx hx'
  rcases Nat.lt_or_gt_of_ne hne with h | h
  · have := a.segmentStart_add_le h
    omega
  · have := a.segmentStart_add_le h
    omega

/-- A region's segment can be told from its offset. -/
theorem div_of_inside (hpos : 0 < e.size) (hstart : a.segmentStart i ≤ e.offset)
    (hstop : e.stop ≤ a.segmentStart i + a.segmentSize) :
    (e.offset - dataRegionOffset) / a.segmentSize = i := by
  unfold segmentStart at hstart hstop
  rw [Extent.stop] at hstop
  apply Nat.div_eq_of_lt_le
  · omega
  · rw [Nat.succ_mul]
    omega

theorem segmentOf_of_inside (hpos : 0 < e.size) (hi : i < a.segmentCount)
    (hstart : a.segmentStart i ≤ e.offset) (hstop : e.stop ≤ a.segmentStart i + a.segmentSize) :
    a.segmentOf e.offset = some i := by
  have hdata := hstart
  unfold segmentStart at hdata
  rw [segmentOf, if_neg (by omega)]
  rw [div_of_inside hpos hstart hstop, if_neg (by omega)]

theorem segmentOf_eq_some {offset : Nat} (h : a.segmentOf offset = some i) :
    i < a.segmentCount ∧ (offset - dataRegionOffset) / a.segmentSize = i := by
  unfold segmentOf at h
  dsimp only at h
  split_ifs at h with hdata hcount
  obtain rfl := Option.some.inj h
  exact ⟨not_le.mp hcount, rfl⟩

theorem SettledIn.segmentOf (h : a.SettledIn i e) (hi : i < a.segmentCount) :
    a.segmentOf e.offset = some i :=
  segmentOf_of_inside h.pos hi h.start h.stop

section Advance

variable (h : a.advanceToNextSegment = some b)
include h

theorem advance_frame : b.segments = a.segments ∧ b.segmentSize = a.segmentSize ∧
    b.segmentCount = a.segmentCount ∧ b.geometry = a.geometry ∧ b.packed = a.packed := by
  obtain ⟨reused, rest, -, -, rfl⟩ | ⟨next, -, -, -, -, rfl⟩ := advance_cases h <;>
    exact ⟨rfl, rfl, rfl, rfl, rfl⟩

theorem advance_pinned : b.pinned = a.pinned := by
  obtain ⟨reused, rest, -, -, rfl⟩ | ⟨next, -, -, -, -, rfl⟩ := advance_cases h <;> rfl

theorem Orderly.advance (ho : a.Orderly) (hc : a.Clear) : b.Orderly ∧ b.Clear := by
  obtain ⟨reused, rest, hpin, hfree, rfl⟩ | ⟨next, hno, hlt, hcount, hused, rfl⟩ := advance_cases h
  · have hnodup := ho.nodup
    rw [hfree, List.nodup_cons] at hnodup
    refine ⟨⟨hnodup.2, fun i hi => ho.empty i ?_, hnodup.1, le_rfl⟩,
      fun hpin' => absurd (hpin.symm.trans hpin') nofun⟩
    rw [hfree]
    exact List.mem_cons_of_mem _ hi
  · -- What is up for reuse lies below the frontier, and the opened segment is past it.
    have hbelow : ∀ j ∈ a.freeSegments, j < next := by
      intro j hj
      rcases hno with hpin | hnil
      · rcases hc hpin j hj with hle | ⟨k, hk, hjk, hkused⟩
        · omega
        · have := hused k hk hkused
          omega
      · exact absurd hj (by rw [hnil]; exact List.not_mem_nil)
    refine ⟨⟨ho.nodup, ho.empty, fun hmem => ?_, le_rfl⟩, fun _ j hj => .inl (hbelow j hj).le⟩
    exact absurd (hbelow next hmem) (lt_irrefl _)

/-- A segment that counts bytes and is not up for reuse is not opened. -/
theorem kept_advance (hkept : i ∉ a.freeSegments) (hused : 0 < (a.segments i).used) :
    i ∉ b.freeSegments ∧ i ≠ b.openSegment := by
  obtain ⟨reused, rest, -, hfree, rfl⟩ | ⟨next, -, -, hcount, hbelow, rfl⟩ := advance_cases h
  · rw [hfree, List.mem_cons, not_or] at hkept
    exact hkept.symm
  · refine ⟨hkept, ?_⟩
    rintro rfl
    exact absurd (hbelow _ hcount hused) (lt_irrefl _)

theorem Settled.advance (he : a.Settled e) : b.Settled e := by
  obtain ⟨i, hi⟩ := he
  obtain ⟨hkept, hne⟩ := kept_advance h hi.kept hi.used
  obtain ⟨reused, rest, -, -, rfl⟩ | ⟨next, -, -, -, -, rfl⟩ := advance_cases h <;>
    exact ⟨i, hi.pos, hi.start, hi.stop, hi.used, hkept, fun heq => absurd heq hne⟩

end Advance

section Opens

variable (h : a.Opens b)
include h

theorem opens_frame : b.segments = a.segments ∧ b.segmentSize = a.segmentSize ∧
    b.segmentCount = a.segmentCount ∧ b.geometry = a.geometry ∧ b.packed = a.packed := by
  induction h with
  | refl => exact ⟨rfl, rfl, rfl, rfl, rfl⟩
  | tail _ hstep ih =>
    obtain ⟨h₁, h₂, h₃, h₄, h₅⟩ := advance_frame hstep
    exact ⟨h₁.trans ih.1, h₂.trans ih.2.1, h₃.trans ih.2.2.1, h₄.trans ih.2.2.2.1,
      h₅.trans ih.2.2.2.2⟩

theorem opens_alignReservation (size : Nat) :
    b.alignReservation size = a.alignReservation size := by
  obtain ⟨-, -, -, hg, hp⟩ := opens_frame h
  simp only [alignReservation, hg, hp]

theorem opens_pinned : b.pinned = a.pinned := by
  induction h with
  | refl => rfl
  | tail _ hstep ih => exact (advance_pinned hstep).trans ih

theorem Orderly.opens (ho : a.Orderly) (hc : a.Clear) : b.Orderly ∧ b.Clear := by
  induction h with
  | refl => exact ⟨ho, hc⟩
  | tail _ hstep ih => exact ih.1.advance hstep ih.2

theorem Tidy.opens (ht : a.Tidy) : b.Tidy :=
  (ht.toOrderly.opens h ht.clear).1.tidy ((opens_pinned h).trans ht.unpinned)

theorem Settled.opens (he : a.Settled e) : b.Settled e := by
  induction h with
  | refl => exact he
  | tail _ hstep ih => exact ih.advance hstep

end Opens

/-! ### Appending to the open segment -/

section Append

theorem used_append (a : SegmentAllocator) (n i : Nat) :
    ((a.append n).segments i).used =
      (a.segments i).used + if i = a.openSegment then a.placement n + n - a.cursor else 0 := by
  show (Function.update a.segments a.openSegment _ i).used = _
  by_cases heq : i = a.openSegment
  · rw [heq, Function.update_self, if_pos rfl]
  · rw [Function.update_of_ne heq, if_neg heq, Nat.add_zero]

/-- A region behind the cursor, or in another segment, shares no byte with the new one. -/
theorem disjoint_append (hinside : a.segmentStart a.openSegment ≤ a.cursor)
    (hfit : a.placement n + n ≤ a.segmentEnd) (hstart : a.segmentStart i ≤ e.offset)
    (hstop : e.stop ≤ a.segmentStart i + a.segmentSize)
    (hbehind : i = a.openSegment → e.stop ≤ a.cursor) :
    (i = a.openSegment → e.stop ≤ (a.append n).cursor) ∧
      Disjoint e.bytes (Extent.mk (a.placement n) n).bytes := by
  have hplace := a.cursor_le_placement n
  refine ⟨fun heq => (hbehind heq).trans (hplace.trans (Nat.le_add_right _ n)), ?_⟩
  by_cases heq : i = a.openSegment
  · have hbehind := hbehind heq
    rw [Set.disjoint_left]
    intro x hx hx'
    rw [Extent.mem_bytes] at hx hx'
    have := hx'.1
    dsimp only at this
    omega
  · exact disjoint_of_ne heq hstart hstop (hinside.trans hplace) hfit

variable (ho : a.Orderly) (hpos : 0 < n) (hfit : a.placement n + n ≤ a.segmentEnd)
include ho

theorem Orderly.append : (a.append n).Orderly := by
  have hplace := a.cursor_le_placement n
  have hinside := ho.inside
  refine ⟨ho.nodup, ?_, ho.sealed, ?_⟩
  · intro i hi
    have hne : i ≠ a.openSegment := fun heq => ho.sealed (heq ▸ hi)
    rw [used_append, if_neg hne]
    exact ho.empty i hi
  · show a.segmentStart a.openSegment ≤ a.placement n + n
    omega

include hfit

/-- The settled regions stay settled, and the new region shares no byte with them. -/
theorem Settled.append (he : a.Settled e) :
    (a.append n).Settled e ∧ Disjoint e.bytes (Extent.mk (a.placement n) n).bytes := by
  obtain ⟨i, hi⟩ := he
  obtain ⟨hbehind, hdisj⟩ := disjoint_append ho.inside hfit hi.start hi.stop hi.behind
  refine ⟨⟨i, hi.pos, hi.start, hi.stop, ?_, hi.kept, hbehind⟩, hdisj⟩
  rw [used_append]
  exact Nat.add_pos_left hi.used _

include hpos

theorem settled_append : (a.append n).Settled ⟨a.placement n, n⟩ := by
  have hplace := a.cursor_le_placement n
  have hinside := ho.inside
  refine ⟨a.openSegment, hpos, hinside.trans hplace, hfit, ?_, ho.sealed, fun _ => le_rfl⟩
  rw [used_append, if_pos rfl]
  omega

end Append

theorem Clear.append (hc : a.Clear) (n : Nat) : (a.append n).Clear := by
  intro hpin j hj
  refine (hc hpin j hj).imp_right ?_
  rintro ⟨k, hk, hjk, hkused⟩
  exact ⟨k, hk, hjk, by rw [used_append]; exact Nat.add_pos_left hkused _⟩

/-! ### Allocating, freeing and reclaiming -/

section Allocated

variable {size offset : Nat} (ht : a.Tidy) (h : a.Allocated size offset b)
include ht h

theorem Tidy.allocated : b.Tidy := by
  obtain ⟨c, hopens, -, -, rfl⟩ := h.placed
  exact (ht.opens hopens).toOrderly.append.tidy (ht.opens hopens).unpinned

theorem settled_allocated : b.Settled ⟨offset, a.alignReservation size⟩ := by
  obtain ⟨c, hopens, hfit, rfl, rfl⟩ := h.placed
  exact settled_append (ht.opens hopens).toOrderly h.pos hfit

/-- No settled region is handed out again. -/
theorem Settled.allocated (he : a.Settled e) :
    b.Settled e ∧ Disjoint e.bytes (Extent.mk offset (a.alignReservation size)).bytes := by
  obtain ⟨c, hopens, hfit, rfl, rfl⟩ := h.placed
  exact (he.opens hopens).append (ht.opens hopens).toOrderly hfit

end Allocated

variable {offset size : Nat}

/-- Count bytes of a segment as dead. -/
def bury (a : SegmentAllocator) (seg n : Nat) : SegmentAllocator :=
  { a with
    segments := Function.update a.segments seg
      { a.segments seg with dead := (a.segments seg).dead + n } }

section

variable (seg n : Nat)

theorem used_bury (a : SegmentAllocator) (i : Nat) :
    ((a.bury seg n).segments i).used = (a.segments i).used := by
  dsimp only [bury]
  by_cases heq : i = seg
  · rw [heq, Function.update_self]
  · rw [Function.update_of_ne heq]

theorem Orderly.bury (ho : a.Orderly) : (a.bury seg n).Orderly :=
  ⟨ho.nodup, fun i hi => (a.used_bury seg n i).trans (ho.empty i hi), ho.sealed, ho.inside⟩

theorem Settled.bury (he : a.Settled e) : (a.bury seg n).Settled e := by
  obtain ⟨i, hi⟩ := he
  exact ⟨i, hi.pos, hi.start, hi.stop, (a.used_bury seg n i).symm ▸ hi.used, hi.kept, hi.behind⟩

end

section

variable (h : a.free offset size = .ok b)
include h

theorem free_ok :
    ∃ seg, a.segmentOf offset = some seg ∧ b = a.bury seg (a.alignReservation size) := by
  unfold free at h
  dsimp only at h
  split at h
  · cases h
  split at h
  · cases h
  case h_2 seg hseg => exact ⟨seg, hseg, (Except.ok.inj h).symm⟩

theorem Tidy.free (ht : a.Tidy) : b.Tidy := by
  obtain ⟨seg, -, rfl⟩ := free_ok h
  exact (ht.toOrderly.bury seg _).tidy ht.unpinned

theorem Settled.free (he : a.Settled e) : b.Settled e := by
  obtain ⟨seg, -, rfl⟩ := free_ok h
  exact he.bury seg _

end

variable {live : List Nat}

theorem mem_fullyDead : i ∈ a.fullyDead live ↔
    a.pinned = false ∧ i < a.segmentCount ∧ i ≠ a.openSegment ∧ 0 < (a.segments i).used ∧
      (a.segments i).used ≤ (a.segments i).dead ∧
      ∀ offset ∈ live, a.segmentOf offset ≠ some i := by
  unfold fullyDead
  cases a.pinned <;> simp

theorem Orderly.reclaim (ho : a.Orderly) :
    (a.reclaimFullyDeadSegments live).2.Orderly := by
  refine ⟨?_, ?_, ?_, ho.inside⟩
  · refine List.nodup_append.mpr ⟨ho.nodup, ?_, ?_⟩
    · unfold fullyDead
      split
      · exact List.nodup_nil
      · exact List.nodup_range.filter _
    · rintro i hi j hj rfl
      have := (mem_fullyDead.mp hj).2.2.2.1
      have := ho.empty i hi
      omega
  · intro i hi
    show (if i ∈ a.fullyDead live then SegmentMeta.default else a.segments i).used = 0
    split
    · rfl
    case isFalse hnot => exact ho.empty i ((List.mem_append.mp hi).resolve_right hnot)
  · intro hmem
    rcases List.mem_append.mp hmem with hmem | hmem
    · exact ho.sealed hmem
    · exact (mem_fullyDead.mp hmem).2.2.1 rfl

theorem Tidy.reclaim (ht : a.Tidy) :
    (a.reclaimFullyDeadSegments live).2.Tidy :=
  ht.toOrderly.reclaim.tidy ht.unpinned

/-- A region stays settled unless its segment is reclaimed. -/
theorem Settled.reclaim (he : a.Settled e)
    (hnot : ∀ i ∈ a.fullyDead live, a.segmentOf e.offset ≠ some i) :
    (a.reclaimFullyDeadSegments live).2.Settled e := by
  obtain ⟨i, hi⟩ := he
  have hmem : i ∉ a.fullyDead live := fun hmem =>
    hnot i hmem (hi.segmentOf (mem_fullyDead.mp hmem).2.1)
  refine ⟨i, hi.pos, hi.start, hi.stop, ?_, ?_, hi.behind⟩
  · show 0 < (if i ∈ a.fullyDead live then SegmentMeta.default else a.segments i).used
    rw [if_neg hmem]
    exact hi.used
  · intro hfree
    rcases List.mem_append.mp hfree with hfree | hfree
    · exact hi.kept hfree
    · exact hmem hfree

theorem tidy_new {g : Geometry} {segmentSize : Nat} {packed : Bool}
    (h : new g segmentSize packed = .ok a) : a.Tidy := by
  unfold new at h
  dsimp only at h
  split at h
  · cases h
  · cases h
    exact ⟨⟨List.nodup_nil, by simp, List.not_mem_nil, by simp [segmentStart]⟩, rfl⟩

end SegmentAllocator

end TeraSlab.Allocator
