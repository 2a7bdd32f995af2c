import TeraSlab.Recovery.IndexReplay
import TeraSlab.Allocator.ReplayLockstep

/-!
# The record store

Creates and deletes of records in a store that keeps a record where it was created: the allocator,
the primary index, the device and the redo tail since the last checkpoint. An operation that is not
acknowledged has no result here. Each record has its own blocks: in a packed store the replay of a
create, which writes whole blocks, fails.
-/

namespace TeraSlab.Recovery

open Foundations TeraSlab.Allocator TeraSlab.Index TeraSlab.Redo

/-- How a create is logged: with its record, or index-only, with the place of the record. -/
inductive CreateForm where
  | embedded
  | indexOnly
deriving DecidableEq

structure CreateItem where
  key : TxKey
  utxoCount : Nat
  coldSize : Nat
  form : CreateForm
  size_lt : recordSizeFor utxoCount + coldSize < 2 ^ 32

def CreateItem.recordSize (item : CreateItem) : Nat := recordSizeFor item.utxoCount + item.coldSize

def CreateItem.header (item : CreateItem) : Header := ⟨item.key, item.utxoCount, item.recordSize⟩

def CreateItem.entry (item : CreateItem) (offset : Nat) : TailEntry :=
  match item.form with
  | .embedded => .create item.key offset item.utxoCount item.header
  | .indexOnly => .createV2 item.key offset item.utxoCount

inductive StoreOp where
  | create (item : CreateItem)
  | delete (key : TxKey)

structure Store where
  trace : Trace
  index : PrimaryIndex
  device : Device
  tail : List TailEntry

namespace Store

def empty (g : Geometry) (redoDeviceId : Nat) (appendOnly : Bool) : Store :=
  ⟨.new g redoDeviceId false appendOnly, ∅, fun _ => none, []⟩

variable (s : Store)

/-- The log has the region of a record before the record. -/
def create (item : CreateItem) : Option Store :=
  if (s.index.lookup item.key).isSome then none
  else
    match (s.trace.allocator.allocate item.recordSize none).result,
      s.trace.perform (.allocate item.recordSize) with
    | .ok offset, some trace =>
      some
        { trace
          index := s.index.insert item.key offset
          device := s.device.writeRecord offset (s.trace.allocator.alignReservation item.recordSize)
            item.header
          tail := s.tail ++ (trace.log.drop s.trace.log.length).map .region ++
            [item.entry offset] }
    | _, _ => none

/-- Only the free of the region is logged. -/
def delete (key : TxKey) : Option Store :=
  match s.index.lookup key with
  | none => none
  | some offset =>
    match s.device offset with
    | none => none
    | some h =>
      if h.key ≠ key then none
      else
        (s.trace.perform (.free offset h.recordSize)).map fun trace =>
          { trace
            index := s.index.erase key
            device := s.device.writeMarker offset
            tail := s.tail ++ (trace.log.drop s.trace.log.length).map .region }

def perform : StoreOp → Option Store
  | .create item => s.create item
  | .delete key => s.delete key

def performAll (ops : List StoreOp) : Option Store := ops.foldlM perform s

def checkpointed : Store := { s with tail := [] }

end Store

/-! ## Well-formed stores -/

section Invariant

variable {s s' : Store} {item : CreateItem} {key : TxKey} {offset : Nat} {h : Header}

structure Store.WellFormed (s : Store) : Prop where
  inv : s.trace.Inv
  unpacked : s.trace.allocator.packed = false
  blocks : s.trace.space.Blocks s.trace.allocator.alignment
  header : ∀ key offset, s.index.lookup key = some offset →
    ∃ h, s.device offset = some h ∧ h.key = key
  indexed : ∀ offset h, s.device offset = some h → s.index.lookup h.key = some offset
  sized : ∀ offset h, s.device offset = some h →
    recordSizeFor h.utxoCount ≤ h.recordSize ∧ h.recordSize < 2 ^ 32
  region : ∀ offset h, s.device offset = some h →
    dataRegionOffset ≤ offset ∧ s.trace.allocator.alignment ∣ offset ∧
      ⟨offset, s.trace.allocator.alignReservation h.recordSize⟩ ∈ s.trace.live

theorem Store.wellFormed_empty {g : Geometry} (hg : g.alignment ∣ dataRegionOffset) (id : Nat)
    (appendOnly : Bool) : (Store.empty g id appendOnly).WellFormed where
  inv := Trace.inv_new g id false appendOnly
  unpacked := rfl
  blocks := by
    refine ⟨hg, fun x y _ hx => ?_⟩
    obtain ⟨r, hr, -⟩ := hx
    simp [Store.empty, Trace.new, SlotAllocator.new] at hr
  header key offset h := by simp [Store.empty] at h
  indexed offset h hd := by simp [Store.empty] at hd
  sized offset h hd := by simp [Store.empty] at hd
  region offset h hd := by simp [Store.empty] at hd

/-- Two keys are never at the same offset. -/
theorem Store.WellFormed.injective (hs : s.WellFormed) {key' : TxKey}
    (h : s.index.lookup key = some offset) (h' : s.index.lookup key' = some offset) :
    key = key' := by
  obtain ⟨hd, hdev, rfl⟩ := hs.header key offset h
  obtain ⟨hd', hdev', rfl⟩ := hs.header key' offset h'
  rw [Option.some.inj (hdev.symm.trans hdev')]

/-! ### What an operation does -/

def Store.created (s : Store) (item : CreateItem) (trace : Trace) (offset : Nat) : Store where
  trace := trace
  index := s.index.insert item.key offset
  device := s.device.writeRecord offset (s.trace.allocator.alignReservation item.recordSize)
    item.header
  tail := s.tail ++ [.region (.allocateRegion offset
    (s.trace.allocator.alignReservation item.recordSize) s.trace.allocator.redoDeviceId),
    item.entry offset]

theorem Store.created_tail (s : Store) (item : CreateItem) (trace : Trace) (offset : Nat) :
    (s.created item trace offset).tail =
      (s.tail ++ [.region (.allocateRegion offset
        (s.trace.allocator.alignReservation item.recordSize) s.trace.allocator.redoDeviceId)]) ++
        [item.entry offset] := by
  simp [Store.created]

theorem Store.create_eq (hinv : s.trace.Inv) (h : s.create item = some s') :
    s.index.lookup item.key = none ∧
      ∃ offset trace, s.trace.perform (.allocate item.recordSize) = some trace ∧
        trace.live = ⟨offset, s.trace.allocator.alignReservation item.recordSize⟩ :: s.trace.live ∧
        trace.log = s.trace.log ++ [.allocateRegion offset
          (s.trace.allocator.alignReservation item.recordSize) s.trace.allocator.redoDeviceId] ∧
        dataRegionOffset ≤ offset ∧ s' = s.created item trace offset := by
  unfold Store.create at h
  split_ifs at h with hkey
  refine ⟨by simpa using hkey, ?_⟩
  split at h
  · rename_i offset trace hres hp
    obtain ⟨-, -, o, n, hres', rfl, hlive, hlog, -, hstart, -⟩ := Trace.perform_allocate hinv hp
    obtain rfl : offset = o := by simpa using hres.symm.trans hres'
    refine ⟨offset, trace, hp, hlive, hlog, hstart, ?_⟩
    rw [← Option.some.inj h]
    simp [Store.created, hlog]
  · cases h

def Store.deleted (s : Store) (key : TxKey) (h : Header) (trace : Trace) (offset : Nat) :
    Store where
  trace := trace
  index := s.index.erase key
  device := s.device.writeMarker offset
  tail := s.tail ++ [.region (.freeRegion offset
    (s.trace.allocator.alignReservation h.recordSize) s.trace.allocator.redoDeviceId)]

theorem Store.delete_eq (hinv : s.trace.Inv) (hdel : s.delete key = some s') :
    ∃ offset h trace, s.index.lookup key = some offset ∧ s.device offset = some h ∧ h.key = key ∧
      s.trace.perform (.free offset h.recordSize) = some trace ∧
      trace.live = s.trace.live.erase
        ⟨offset, s.trace.allocator.alignReservation h.recordSize⟩ ∧
      trace.log = s.trace.log ++ [.freeRegion offset
        (s.trace.allocator.alignReservation h.recordSize) s.trace.allocator.redoDeviceId] ∧
      s' = s.deleted key h trace offset := by
  unfold Store.delete at hdel
  split at hdel
  · cases hdel
  rename_i offset hkey
  split at hdel
  · cases hdel
  rename_i h hdev
  split_ifs at hdel with hne
  obtain ⟨trace, hp, hs'⟩ := Option.map_eq_some_iff.mp hdel
  obtain ⟨-, -, -, hlive, hlog, -⟩ := Trace.perform_free hinv hp
  refine ⟨offset, h, trace, hkey, hdev, not_not.mp hne, hp, hlive, hlog, ?_⟩
  rw [← hs']
  simp [Store.deleted, hlog]

/-! ### The operations keep stores well formed -/

theorem Device.writeRecord_eq_some {d : Device} {len : Nat} {record : Header} {x : Nat}
    (hx : d.writeRecord offset len record x = some h) :
    (x = offset ∧ h = record) ∨ (x ≠ offset ∧ d x = some h) := by
  unfold Device.writeRecord at hx
  split_ifs at hx with heq
  · exact .inl ⟨heq, (Option.some.inj hx).symm⟩
  · exact .inr ⟨heq, hx⟩

theorem Device.writeMarker_eq_some {d : Device} {x : Nat} (hx : d.writeMarker offset x = some h) :
    x ≠ offset ∧ d x = some h := by
  by_cases heq : x = offset
  · simp [Device.writeMarker, heq] at hx
  · exact ⟨heq, by simpa [Device.writeMarker, heq] using hx⟩

theorem CreateItem.recordSizeFor_le (item : CreateItem) :
    recordSizeFor item.utxoCount ≤ item.recordSize := Nat.le_add_right ..

theorem recordSizeFor_pos (utxoCount : Nat) : 0 < recordSizeFor utxoCount := by
  simp [recordSizeFor, metadataSize]

/-- The space of a record is not empty. -/
theorem Store.WellFormed.region_pos (hs : s.WellFormed) (hdev : s.device offset = some h) :
    0 < s.trace.allocator.alignReservation h.recordSize := by
  obtain ⟨hle, hlt⟩ := hs.sized offset h hdev
  have hpos := recordSizeFor_pos h.utxoCount
  have := SlotAllocator.le_alignReservation (a := s.trace.allocator) hlt
  omega

theorem Store.WellFormed.create (hs : s.WellFormed) (h : s.create item = some s') :
    s'.WellFormed := by
  obtain ⟨hfresh, offset, trace, hp, hlive, -, hstart, rfl⟩ := Store.create_eq hs.inv h
  obtain ⟨hinv, hcfg, -⟩ := Trace.perform_spec hs.inv hp
  obtain ⟨hdvd, hblocks⟩ := Trace.blocks_allocate hs.inv hs.unpacked hs.blocks item.size_lt hp hlive
  have hsize : item.recordSize ≤ s.trace.allocator.alignReservation item.recordSize :=
    SlotAllocator.le_alignReservation item.size_lt
  have hpos : 0 < item.recordSize := (recordSizeFor_pos _).trans_le item.recordSizeFor_le
  -- no record starts inside the new region
  have hclear : ∀ x h, s.device x = some h →
      ¬ (offset ≤ x ∧ x < offset + s.trace.allocator.alignReservation item.recordSize) := by
    intro x h hx hin
    have hpos := hs.region_pos hx
    have hdis := (List.pairwise_cons.mp (hlive ▸ hinv.safe.disjoint)).1 _ (hs.region x h hx).2.2
    refine hdis ⟨?_, ?_, ?_, hpos⟩ <;> simp only [Extent.stop] <;> omega
  have hne : ∀ x h, s.device x = some h → h.key ≠ item.key := by
    rintro x h hx heq
    rw [← heq, hs.indexed x h hx] at hfresh
    cases hfresh
  refine ⟨hinv, hcfg.packed.trans hs.unpacked, hblocks, ?_, ?_, ?_, ?_⟩
  · intro key x hx
    by_cases hkey : key = item.key
    · subst hkey
      obtain rfl : offset = x := by simpa [Store.created] using hx
      exact ⟨item.header, by simp [Store.created, Device.writeRecord], rfl⟩
    · replace hx : s.index.lookup key = some x := by
        simpa [Store.created, AList.lookup_insert_ne hkey] using hx
      obtain ⟨h, hdev, rfl⟩ := hs.header key x hx
      refine ⟨h, ?_, rfl⟩
      have hout := hclear x h hdev
      simp only [Store.created, Device.writeRecord]
      rw [if_neg (by omega), if_neg (by omega), hdev]
  · intro x h hx
    rcases Device.writeRecord_eq_some hx with ⟨rfl, rfl⟩ | ⟨-, hx⟩
    · exact AList.lookup_insert _
    · exact (AList.lookup_insert_ne (hne x h hx)).trans (hs.indexed x h hx)
  · intro x h hx
    rcases Device.writeRecord_eq_some hx with ⟨rfl, rfl⟩ | ⟨-, hx⟩
    · exact ⟨item.recordSizeFor_le, item.size_lt⟩
    · exact hs.sized x h hx
  · intro x h hx
    simp only [Store.created, hcfg.alignReservation, hcfg.alignment, hlive]
    rcases Device.writeRecord_eq_some hx with ⟨rfl, rfl⟩ | ⟨-, hx⟩
    · exact ⟨hstart, hdvd, List.mem_cons_self⟩
    · exact (hs.region x h hx).imp_right (And.imp_right (List.mem_cons_of_mem _))

theorem Store.WellFormed.delete (hs : s.WellFormed) (hdel : s.delete key = some s') :
    s'.WellFormed := by
  obtain ⟨offset, h, trace, hkey, hdev, rfl, hp, hlive, -, rfl⟩ := Store.delete_eq hs.inv hdel
  obtain ⟨hinv, hcfg, -⟩ := Trace.perform_spec hs.inv hp
  have hblocks := Trace.blocks_free hs.inv hs.unpacked hs.blocks (hs.sized offset h hdev).2 hp
    (hs.region offset h hdev).2.1
  refine ⟨hinv, hcfg.packed.trans hs.unpacked, hblocks, ?_, ?_, ?_, ?_⟩
  · intro key x hx
    have hne : key ≠ h.key := by
      rintro rfl
      simp [Store.deleted] at hx
    replace hx : s.index.lookup key = some x := by
      simpa [Store.deleted, AList.lookup_erase_ne hne] using hx
    obtain ⟨h', hdev', rfl⟩ := hs.header key x hx
    refine ⟨h', ?_, rfl⟩
    have hother : x ≠ offset := by
      rintro rfl
      exact hne (hs.injective hx hkey)
    simpa [Store.deleted, Device.writeMarker, hother] using hdev'
  · intro x h' hx
    obtain ⟨hother, hx⟩ := Device.writeMarker_eq_some hx
    have hne : h'.key ≠ h.key := by
      intro heq
      have := hs.indexed x h' hx
      rw [heq, hkey] at this
      exact hother (Option.some.inj this).symm
    exact (AList.lookup_erase_ne hne).trans (hs.indexed x h' hx)
  · intro x h' hx
    exact hs.sized x h' (Device.writeMarker_eq_some hx).2
  · intro x h' hx
    obtain ⟨hother, hx⟩ := Device.writeMarker_eq_some hx
    simp only [Store.deleted, hcfg.alignReservation, hcfg.alignment, hlive]
    refine (hs.region x h' hx).imp_right (And.imp_right (List.mem_erase_of_ne ?_).mpr)
    intro heq
    exact hother (congrArg Extent.offset heq)

theorem Store.WellFormed.checkpointed (hs : s.WellFormed) : s.checkpointed.WellFormed :=
  ⟨hs.1, hs.2, hs.3, hs.4, hs.5, hs.6, hs.7⟩

theorem Store.WellFormed.perform (hs : s.WellFormed) {op : StoreOp} (h : s.perform op = some s') :
    s'.WellFormed := by
  cases op with
  | create item => exact hs.create h
  | delete key => exact hs.delete h

end Invariant

end TeraSlab.Recovery
