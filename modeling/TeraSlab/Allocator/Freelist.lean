import TeraSlab.Foundations.Extent
import TeraSlab.Foundations.SortedMap

/-!
# The hybrid freelist

The freelist keeps its regions in a vector sorted by offset while there are few of them, and in
an offset map with a size-ordered index beside it when there are many. Both representations are
modelled, with the promotion and demotion between them.
-/

namespace TeraSlab.Allocator

open Foundations

abbrev FreeRegion := Extent

/-- Entry count above which the freelist moves from the vector to the maps. -/
def promoteThreshold : Nat := 64

/-- Entry count below which the freelist moves from the maps back to the vector. -/
def demoteThreshold : Nat := 32

def u64Max : Nat := 2 ^ 64 - 1

inductive FreelistBackend where
  /-- Sorted by offset. -/
  | small (v : List FreeRegion)
  /-- Sizes by offset, and the pairs of size and offset in lexicographic order. -/
  | large (byOffset : SortedMap Nat Nat) (bySize : SortedMap (Nat ×ₗ Nat) Unit)

namespace FreelistBackend

def new : FreelistBackend := small []

def iterOffsetOrder : FreelistBackend → List FreeRegion
  | small v => v
  | large byOffset _ => byOffset.entries.map fun e => ⟨e.1, e.2⟩

def len : FreelistBackend → Nat
  | small v => v.length
  | large byOffset _ => byOffset.entries.length

def largest : FreelistBackend → Nat
  | small v => (v.map (·.size)).foldl max 0
  | large _ bySize => (bySize.entries.getLast?.map fun e => (ofLex e.1).1).getD 0

/-- The packed placement rule: a small allocation stays within one block, a large one starts on
a block boundary. Without a block every offset qualifies. -/
def qualifies (alignedSize : Nat) (block : Option Nat) (offset : Nat) : Bool :=
  match block with
  | none => true
  | some block =>
    if alignedSize ≤ block then offset % block + alignedSize ≤ block else offset % block = 0

/-- The scan over the vector: index of the qualifying region with the least waste, the first
one among equals. -/
def bestFitScan (alignedSize : Nat) (block : Option Nat) :
    List FreeRegion → Nat → Option Nat → Nat → Option Nat
  | [], _, bestIdx, _ => bestIdx
  | region :: rest, i, bestIdx, bestWaste =>
    if alignedSize ≤ region.size ∧ qualifies alignedSize block region.offset ∧
        region.size - alignedSize < bestWaste then
      if region.size - alignedSize = 0 then some i
      else bestFitScan alignedSize block rest (i + 1) (some i) (region.size - alignedSize)
    else bestFitScan alignedSize block rest (i + 1) bestIdx bestWaste

/-- Take `alignedSize` bytes from the head of the best fitting region. Returns the offset and
the full size of the region it came from. -/
def bestFit (fl : FreelistBackend) (alignedSize : Nat) (block : Option Nat) :
    Option (Nat × Nat) × FreelistBackend :=
  match fl with
  | small v =>
    match bestFitScan alignedSize block v 0 none u64Max with
    | none => (none, small v)
    | some idx =>
      match v[idx]? with
      | none => (none, small v)
      | some region =>
        (some (region.offset, region.size),
          small (if region.size = alignedSize then v.eraseIdx idx
            else v.set idx ⟨region.offset + alignedSize, region.size - alignedSize⟩))
  | large byOffset bySize =>
    match bySize.entries.find? fun e =>
        toLex (alignedSize, 0) ≤ e.1 ∧ qualifies alignedSize block (ofLex e.1).2 with
    | none => (none, large byOffset bySize)
    | some e =>
      let regionSize := (ofLex e.1).1
      let regionOffset := (ofLex e.1).2
      let byOffset' := byOffset.erase regionOffset
      let bySize' := bySize.erase e.1
      (some (regionOffset, regionSize),
        if alignedSize < regionSize then
          large (byOffset'.insert (regionOffset + alignedSize) (regionSize - alignedSize))
            (bySize'.insert (toLex (regionSize - alignedSize, regionOffset + alignedSize)) ())
        else large byOffset' bySize')

/-- Insert a region. Neighbours are not merged. -/
def insert (fl : FreelistBackend) (offset size : Nat) : FreelistBackend :=
  match fl with
  | small v =>
    small (v.takeWhile (·.offset < offset) ++ ⟨offset, size⟩ :: v.dropWhile (·.offset < offset))
  | large byOffset bySize =>
    large (byOffset.insert offset size) (bySize.insert (toLex (size, offset)) ())

def remove (fl : FreelistBackend) (offset : Nat) : Option Nat × FreelistBackend :=
  match fl with
  | small v =>
    match v.dropWhile (·.offset < offset) with
    | [] => (none, small v)
    | region :: rest =>
      if region.offset = offset then
        (some region.size, small (v.takeWhile (·.offset < offset) ++ rest))
      else (none, small v)
  | large byOffset bySize =>
    match byOffset.get? offset with
    | none => (none, large byOffset bySize)
    | some size => (some size, large (byOffset.erase offset) (bySize.erase (toLex (size, offset))))

def nextFrom (fl : FreelistBackend) (boundary : Nat) : Option FreeRegion :=
  match fl with
  | small v => (v.dropWhile (·.offset < boundary)).head?
  | large byOffset _ => (byOffset.firstFrom boundary).map fun e => ⟨e.1, e.2⟩

def prevBefore (fl : FreelistBackend) (offset : Nat) : Option FreeRegion :=
  match fl with
  | small v => (v.takeWhile (·.offset < offset)).getLast?
  | large byOffset _ => (byOffset.lastBefore offset).map fun e => ⟨e.1, e.2⟩

def maybePromote : FreelistBackend → FreelistBackend
  | small v =>
    if promoteThreshold < v.length then
      large (v.foldl (fun m r => m.insert r.offset r.size) SortedMap.empty)
        (v.foldl (fun m r => m.insert (toLex (r.size, r.offset)) ()) SortedMap.empty)
    else small v
  | large byOffset bySize => large byOffset bySize

def maybeDemote : FreelistBackend → FreelistBackend
  | small v => small v
  | large byOffset bySize =>
    if byOffset.entries.length < demoteThreshold then
      small (byOffset.entries.map fun e => ⟨e.1, e.2⟩)
    else large byOffset bySize

def regions (fl : FreelistBackend) : Set FreeRegion := {r | r ∈ fl.iterOffsetOrder}

/-- What the representation guarantees: the vector is sorted, and the size index lists exactly
the regions of the offset map. -/
def Ordered : FreelistBackend → Prop
  | small v => v.Pairwise (·.offset < ·.offset)
  | large byOffset bySize =>
    ∀ s o, (toLex (s, o), ()) ∈ bySize.entries ↔ (o, s) ∈ byOffset.entries

@[simp] theorem mem_regions_small {v : List FreeRegion} {r : FreeRegion} :
    r ∈ (small v).regions ↔ r ∈ v := Iff.rfl

@[simp] theorem mem_regions_large {m : SortedMap Nat Nat} {b : SortedMap (Nat ×ₗ Nat) Unit}
    {r : FreeRegion} : r ∈ (large m b).regions ↔ (r.offset, r.size) ∈ m.entries := by
  simp only [regions, iterOffsetOrder, Set.mem_ofPred_eq, List.mem_map, Prod.exists]
  constructor
  · rintro ⟨o, s, h, rfl⟩
    exact h
  · exact fun h => ⟨_, _, h, rfl⟩

end FreelistBackend

end TeraSlab.Allocator
