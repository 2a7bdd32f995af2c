import Mathlib.Data.List.ReduceOption
import TeraSlab.Allocator.SlotAllocatorSpec
import TeraSlab.Foundations.Run

/-!
# Concurrent users of one allocator

Create batches and deletes share an allocator, each call being one atomic step. A system state is
the allocator with the regions its users hold: those returned or committed, and those of batches
still pending. The rollback of a batch restores absolute values recorded when it was reserved, so
it is safe only when no other request has touched the space it puts back in the meantime. The
condition is stated on the state before the rollback, and every interleaving whose rollbacks meet
it keeps the handed-out regions disjoint.
-/

namespace TeraSlab.Allocator

open Foundations

def PendingBatchAllocation.held (p : PendingBatchAllocation) : List AllocatedRegion :=
  p.regions.reduceOption

variable {rs : List (Option AllocatedRegion)}

variable {us : List (Nat × Reservation)}

variable {ops : List RegionRedoOp}

@[simp] theorem PendingBatchAllocation.held_append_some {r : AllocatedRegion} :
    held ⟨rs ++ [some r], us, ops⟩ = rs.reduceOption ++ [r] := by
  simp [held, List.reduceOption_append]

@[simp] theorem PendingBatchAllocation.held_append_none :
    held ⟨rs ++ [none], us, ops⟩ = rs.reduceOption := by
  simp [held, List.reduceOption_append]

structure System where
  allocator : SlotAllocator
  /-- Returned by `allocate` or committed, and not freed. -/
  live : List AllocatedRegion
  pending : List PendingBatchAllocation

/-- The calls of the users. A free names a live region by its position, with a size that the
allocator rounds to the region's; a batch is named by its position among the pending ones. -/
inductive Call where
  | allocate (size : Nat) (journal : Option String)
  | free (index size : Nat) (journal : Option String)
  | reserveBatch (sizes : List Nat)
  | commitPending (index : Nat)
  | rollbackPending (index : Nat)

namespace System

def new (a : SlotAllocator) : System := ⟨a, [], []⟩

/-- Every region handed out and neither freed nor rolled back. -/
def handedOut (s : System) : List AllocatedRegion :=
  s.live ++ s.pending.flatMap PendingBatchAllocation.held

def step (s : System) : Call → System
  | .allocate size journal =>
    let out := s.allocator.allocate size journal
    match out.result with
    | .ok offset =>
      { s with
        allocator := out.state
        live := ⟨offset, s.allocator.alignReservation size⟩ :: s.live }
    | .error _ => { s with allocator := out.state }
  | .free index size journal =>
    match s.live[index]? with
    | none => s
    | some r =>
      if s.allocator.alignReservation size = r.size then
        let out := s.allocator.free r.offset size journal
        match out.result with
        | .ok _ => { s with allocator := out.state, live := s.live.eraseIdx index }
        | .error _ => { s with allocator := out.state }
      else s
  | .reserveBatch sizes =>
    match s.allocator.reserveBatch sizes with
    | (.ok p, a) => { s with allocator := a, pending := p :: s.pending }
    | (.error _, a) => { s with allocator := a }
  | .commitPending index =>
    match s.pending[index]? with
    | none => s
    | some p =>
      { allocator := s.allocator.commitPending p
        live := p.held ++ s.live
        pending := s.pending.eraseIdx index }
  | .rollbackPending index =>
    match s.pending[index]? with
    | none => s
    | some p =>
      { s with
        allocator := s.allocator.rollbackPending p
        pending := s.pending.eraseIdx index }

/-- The state after the users' calls, from an allocator nobody holds a region of. -/
def after (a : SlotAllocator) (calls : List Call) : System := run step (new a) calls

end System

/-- No two regions overlap, none overlaps a free region, and none reaches past the high-water
mark. -/
structure Safe (a : SlotAllocator) (held : List AllocatedRegion) : Prop where
  disjoint : held.Pairwise fun r r' => ¬ r.Meets r'
  offFreelist : ∀ r ∈ held, ∀ f ∈ a.freelist.iterOffsetOrder, ¬ r.Meets f
  below : ∀ r ∈ held, r.stop ≤ a.nextOffset

def System.RegionsSafe (s : System) : Prop := Safe s.allocator s.handedOut

/-- Undoing the reservation gives back no byte of `r`. -/
def Reservation.Avoids (r : Extent) : Reservation → Prop
  | .fromFreelist allocOffset regionSize => ¬ r.Meets ⟨allocOffset, regionSize⟩
  | .fromHighWater previousNextOffset => r.stop ≤ previousNextOffset

/-- The condition under which one reservation can be undone: nothing that another request holds
is given back, and no free region either, except the remainder of the split that the undo
removes. A region put back lies below the high-water mark. -/
def UndoClear (a : SlotAllocator) (others : List AllocatedRegion) (alignedSize : Nat)
    (res : Reservation) : Prop :=
  (∀ r ∈ others, res.Avoids r) ∧
    match res with
    | .fromFreelist allocOffset regionSize =>
      allocOffset + regionSize ≤ a.nextOffset ∧
        ∀ f ∈ a.freelist.iterOffsetOrder, f.Meets ⟨allocOffset, regionSize⟩ →
          alignedSize < regionSize ∧ f.offset = allocOffset + alignedSize
    | .fromHighWater previousNextOffset =>
      ∀ f ∈ a.freelist.iterOffsetOrder, f.stop ≤ previousNextOffset

/-- The undo condition along a whole rollback, reservations listed in the order of their undo. -/
def RollbackClear : SlotAllocator → List AllocatedRegion → List (Nat × Reservation) → Prop
  | _, _, [] => True
  | a, others, (alignedSize, res) :: rest =>
    UndoClear a others alignedSize res ∧
      RollbackClear (a.rollbackReservation alignedSize res) others rest

/-- What a call must meet in the state it is made in: a rollback is clear of everything the other
requests hold. Every other call is unrestricted. -/
def System.CallClear (s : System) : Call → Prop
  | .rollbackPending index =>
    ∀ p ∈ s.pending[index]?,
      RollbackClear s.allocator
        (s.live ++ (s.pending.eraseIdx index).flatMap PendingBatchAllocation.held)
        p.rollback.reverse
  | _ => True

end TeraSlab.Allocator
