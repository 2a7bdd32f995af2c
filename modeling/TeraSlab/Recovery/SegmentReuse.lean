import TeraSlab.Recovery.SegmentStore
import TeraSlab.Allocator.ConcurrentSafety

/-!
# Segment reuse and the records recovery needs

An extent is safe for a record when the allocator does not place anything over it and its bytes are
the record's image. The invariant says that the extents in the index are safe, that the extent of
every live record after a crash is safe, and that this stays so when the running checkpoint
installs what it has captured and moves the redo fence.

What breaks it is reclaim: it asks the current index which segments are still needed, and not the
installed one.
-/

namespace TeraSlab.Recovery

open Foundations TeraSlab.Allocator TeraSlab.Index

variable {s t : SegmentStore} {sh : Sharding} {key : TxKey} {e : Extent} {a b : SegmentAllocator}
  {n : Nat}

theorem firstCreate_append (l l' : List (TxKey × Extent)) :
    firstCreate (l ++ l') key = (firstCreate l key).or (firstCreate l' key) := by
  unfold firstCreate
  rw [List.find?_append, Option.map_or]

@[simp] theorem firstCreate_self : firstCreate [(key, e)] key = some e := by
  simp [firstCreate]

variable {key' : TxKey} {l : List (TxKey × Extent)}

/-- The creates before the fence do not matter when none of them is of the key. -/
theorem firstCreate_drop (h : firstCreate (l.take n) key = none) :
    firstCreate (l.drop n) key = firstCreate l key := by
  conv_rhs => rw [← List.take_append_drop n l, firstCreate_append, h, Option.none_or]

theorem firstCreate_take (n : Nat) (h : firstCreate l key = none) :
    firstCreate (l.take n) key = none := by
  rw [← List.take_append_drop n l, firstCreate_append, Option.or_eq_none_iff] at h
  exact h.1

theorem freed_tidy (ht : a.Tidy) : (freed a e).Tidy := by
  unfold freed
  split
  case h_1 b hb => exact ht.free hb
  case h_2 => exact ht

theorem freed_settled {r : Extent} (hr : a.Settled r) : (freed a e).Settled r := by
  unfold freed
  split
  case h_1 b hb => exact hr.free hb
  case h_2 => exact hr

theorem freed_alignReservation (size : Nat) :
    (freed a e).alignReservation size = a.alignReservation size := by
  unfold freed
  split
  case h_1 b hb =>
    obtain ⟨seg, -, rfl⟩ := SegmentAllocator.free_ok hb
    rfl
  case h_2 => rfl

theorem allocated_alignReservation {size offset : Nat} (h : a.Allocated size offset b) (n : Nat) :
    b.alignReservation n = a.alignReservation n := by
  obtain ⟨c, hopens, -, -, rfl⟩ := h.placed
  exact SegmentAllocator.opens_alignReservation hopens n

namespace SegmentStore

/-- The extent still has the image of the record, and nothing will be placed over it. -/
def Safe (s : SegmentStore) (key : TxKey) (e : Extent) : Prop :=
  s.allocator.Settled (s.region e) ∧ ∀ x ∈ (s.region e).bytes, s.device x = some key

/-- What the running checkpoint has set up: the extents it will install are safe, and so are those
left when the redo fence moves. -/
def PhaseInv (sh : Sharding) (s : SegmentStore) : CheckpointPhase → Prop
  | .idle => True
  | .compacting fence => fence ≤ s.tail.length
  | .snapshotting fence next captured =>
    fence ≤ s.tail.length ∧ ∀ key, sh.shardOf key < next →
      (captured key ≠ none → s.named key ≠ none) ∧
      (key ∈ s.index.keys → captured key = none → firstCreate (s.tail.take fence) key = none) ∧
      (key ∈ s.index.keys →
        ∃ e, (captured key).or (firstCreate s.tail key) = some e ∧ s.Safe key e)
  | .installed fence | .reclaimed fence | .persisted fence =>
    fence ≤ s.tail.length ∧ ∀ key ∈ s.index.keys,
      s.snapshot key = none → firstCreate (s.tail.take fence) key = none

structure Inv (sh : Sharding) (s : SegmentStore) : Prop where
  tidy : s.allocator.Tidy
  live : ∀ key e, s.index.lookup key = some e → s.Safe key e
  named : ∀ key ∈ s.index.keys, ∃ e, s.named key = some e ∧ s.Safe key e
  phase : s.PhaseInv sh s.phase

theorem Inv.intact (h : s.Inv sh) : s.Intact := by
  intro key hkey
  obtain ⟨e, he, hsafe⟩ := h.named key hkey
  exact ⟨e, he, hsafe.2⟩

theorem mem_keys_of_lookup (h : s.index.lookup key = some e) : key ∈ s.index.keys := by
  have hsome : (s.index.lookup key).isSome := by rw [h]; rfl
  exact AList.mem_keys.mp (AList.lookup_isSome.mp hsome)

theorem lookup_of_mem_keys (h : key ∈ s.index.keys) : ∃ e, s.index.lookup key = some e :=
  Option.isSome_iff_exists.mp (AList.lookup_isSome.mpr (AList.mem_keys.mpr h))

/-! ### Operations -/

/-- A step that leaves the checkpoint alone, keeps the safe extents of the keys it leaves and adds
creates to the redo tail. A key it adds to the index is one that nothing was left of, so the create
that adds it is the first of its key, and the running checkpoint has not captured the key. -/
theorem Inv.of_extends (h : s.Inv sh) (htidy : t.allocator.Tidy)
    (hlive : ∀ key e, t.index.lookup key = some e → t.Safe key e)
    (hkeys : ∀ key ∈ t.index.keys, key ∈ s.index.keys ∨
      s.named key = none ∧ ∃ e, firstCreate l key = some e ∧ t.Safe key e)
    (hsafe : ∀ key ∈ t.index.keys, ∀ e, s.Safe key e → t.Safe key e)
    (hsnapshot : t.snapshot = s.snapshot) (htail : t.tail = s.tail ++ l)
    (hphase : t.phase = s.phase) : t.Inv sh := by
  have hnamed : ∀ key, t.named key = (s.named key).or (firstCreate l key) := by
    intro key
    rw [SegmentStore.named, SegmentStore.named, hsnapshot, htail, firstCreate_append,
      Option.or_assoc]
  have hlen : ∀ {fence}, fence ≤ s.tail.length → fence ≤ t.tail.length := by
    intro fence hle
    rw [htail, List.length_append]
    omega
  have hbefore : ∀ {fence}, fence ≤ s.tail.length → ∀ key ∈ t.index.keys,
      (key ∈ s.index.keys → firstCreate (s.tail.take fence) key = none) →
      firstCreate (t.tail.take fence) key = none := by
    intro fence hle key hkey hold
    rw [htail, List.take_append_of_le_length hle]
    rcases hkeys key hkey with hmem | ⟨hnone, -⟩
    · exact hold hmem
    · exact firstCreate_take fence (Option.or_eq_none_iff.mp hnone).2
  refine ⟨htidy, hlive, fun key hkey => ?_, ?_⟩
  · rw [hnamed]
    rcases hkeys key hkey with hmem | ⟨hnone, hcreated⟩
    · obtain ⟨e, he, hs⟩ := h.named key hmem
      exact ⟨e, by rw [he, Option.some_or], hsafe key hkey e hs⟩
    · rwa [hnone, Option.none_or]
  have hp := h.phase
  rw [hphase]
  cases hcase : s.phase with
  | idle => trivial
  | compacting fence =>
    rw [hcase] at hp
    exact hlen hp
  | snapshotting fence next captured =>
    rw [hcase] at hp
    refine ⟨hlen hp.1, fun key hlt => ?_⟩
    obtain ⟨h₁, h₂, h₃⟩ := hp.2 key hlt
    refine ⟨fun hc => ?_, fun hkey hc => hbefore hp.1 key hkey fun hmem => h₂ hmem hc,
      fun hkey => ?_⟩
    · rw [hnamed]
      exact fun hnone => h₁ hc (Option.or_eq_none_iff.mp hnone).1
    rw [htail, firstCreate_append, ← Option.or_assoc]
    rcases hkeys key hkey with hmem | ⟨hnone, hcreated⟩
    · obtain ⟨e, he, hs⟩ := h₃ hmem
      exact ⟨e, by rw [he, Option.some_or], hsafe key hkey e hs⟩
    · have hc : captured key = none := not_not.mp fun hc => h₁ hc hnone
      rwa [hc, (Option.or_eq_none_iff.mp hnone).2]
  | installed fence | reclaimed fence | persisted fence =>
    rw [hcase] at hp
    exact ⟨hlen hp.1, fun key hkey hs =>
      hbefore hp.1 key hkey fun hmem => hp.2 key hmem (hsnapshot ▸ hs)⟩

/-- An allocation that fails may have opened segments. -/
theorem Inv.opens (h : s.Inv sh) (hopens : s.allocator.Opens a) :
    ({ s with allocator := a } : SegmentStore).Inv sh := by
  have hsafe : ∀ key e, s.Safe key e → ({ s with allocator := a } : SegmentStore).Safe key e := by
    rintro key e ⟨hsettled, hbytes⟩
    have hregion : ({ s with allocator := a } : SegmentStore).region e = s.region e := by
      simp only [region, SegmentAllocator.opens_alignReservation hopens]
    refine ⟨?_, ?_⟩ <;> rw [hregion]
    · exact hsettled.opens hopens
    · exact hbytes
  exact h.of_extends (h.tidy.opens hopens) (fun key e he => hsafe key e (h.live key e he))
    (fun _ => .inl) (fun key _ e => hsafe key e) rfl (List.append_nil _).symm rfl

section Write

variable {size offset : Nat} (htidy : s.allocator.Tidy)
  (halloc : s.allocator.Allocated size offset a) (hsettled : ∀ r, a.Settled r → b.Settled r)
  (halign : ∀ n, b.alignReservation n = a.alignReservation n)
include halloc halign

theorem region_writeRecord : (s.writeRecord b key ⟨offset, size⟩).region e = s.region e := by
  simp only [region, writeRecord, halign, allocated_alignReservation halloc]

include htidy hsettled

/-- The extents that were safe stay safe when a region just handed out is written. -/
theorem Safe.writeRecord (hsafe : s.Safe key' e) :
    (s.writeRecord b key ⟨offset, size⟩).Safe key' e := by
  obtain ⟨hset, hdisj⟩ := hsafe.1.allocated htidy halloc
  refine ⟨?_, fun x hx => ?_⟩
  · rw [region_writeRecord halloc halign]
    exact hsettled _ hset
  rw [region_writeRecord halloc halign] at hx
  have hout : ¬ (offset ≤ x ∧ x < offset + s.allocator.alignReservation size) :=
    Set.disjoint_left.mp hdisj hx
  exact (if_neg hout).trans (hsafe.2 x hx)

/-- The region just handed out and written is safe. -/
theorem safe_writeRecord :
    (s.writeRecord b key ⟨offset, size⟩).Safe key ⟨offset, size⟩ := by
  refine ⟨?_, fun x hx => ?_⟩
  · rw [region_writeRecord halloc halign]
    exact hsettled _ (SegmentAllocator.settled_allocated htidy halloc)
  · rw [region_writeRecord halloc halign] at hx
    exact if_pos hx

theorem live_writeRecord (hlive : ∀ key e, s.index.lookup key = some e → s.Safe key e)
    (he : (s.writeRecord b key ⟨offset, size⟩).index.lookup key' = some e) :
    (s.writeRecord b key ⟨offset, size⟩).Safe key' e := by
  by_cases heq : key' = key
  · subst heq
    have he : (s.index.insert key' ⟨offset, size⟩).lookup key' = some e := he
    rw [AList.lookup_insert] at he
    cases he
    exact safe_writeRecord htidy halloc hsettled halign
  · have he : (s.index.insert key ⟨offset, size⟩).lookup key' = some e := he
    rw [AList.lookup_insert_ne heq] at he
    exact (hlive key' e he).writeRecord htidy halloc hsettled halign

end Write

theorem mem_keys_writeRecord
    (h : key' ∈ (s.writeRecord a key e).index.keys) : key' = key ∨ key' ∈ s.index.keys := by
  rcases (AList.mem_insert _).mp (AList.mem_keys.mpr h) with rfl | hmem
  · exact .inl rfl
  · exact .inr (AList.mem_keys.mp hmem)

theorem Inv.relocateRecord (h : s.Inv sh) (key : TxKey) : (s.relocateRecord key).Inv sh := by
  unfold SegmentStore.relocateRecord
  cases hlook : s.index.lookup key with
  | none => exact h
  | some old =>
    dsimp only
    split
    case h_1 error a hfail => exact h.opens (SegmentAllocator.allocate_error hfail)
    case h_2 offset a hok =>
      have halloc := SegmentAllocator.allocate_ok hok
      have hsettled : ∀ r, a.Settled r → (freed a old).Settled r := fun _ => freed_settled
      refine h.of_extends (freed_tidy (h.tidy.allocated halloc)) (fun key' e he => ?_)
        (fun key' hkey' => .inl ?_) (fun key' _ e hs => ?_) rfl (List.append_nil _).symm rfl
      · exact live_writeRecord h.tidy halloc hsettled freed_alignReservation h.live he
      · rcases mem_keys_writeRecord hkey' with rfl | hmem
        · exact mem_keys_of_lookup hlook
        · exact hmem
      · exact hs.writeRecord h.tidy halloc hsettled freed_alignReservation

/-- The bytes of a safe extent of another record are not those of the deleted one. -/
theorem Inv.delete (h : s.Inv sh) (key : TxKey) : (s.delete key).Inv sh := by
  unfold SegmentStore.delete
  cases hlook : s.index.lookup key with
  | none => exact h
  | some old =>
    have hold := (h.live key old hlook).2
    have hsafe : ∀ key' e, key' ≠ key → s.Safe key' e → SegmentStore.Safe
        { s with
          allocator := freed s.allocator old
          index := s.index.erase key
          device := setOwner s.device (s.region old) none } key' e := by
      rintro key' e hne ⟨hsettled, hbytes⟩
      refine ⟨?_, fun x hx => ?_⟩
      · simp only [region, freed_alignReservation]
        exact freed_settled hsettled
      simp only [region, freed_alignReservation] at hx
      have hout : ¬ x ∈ (s.region old).bytes := by
        intro hx'
        have heq := (hbytes x hx).symm.trans (hold x hx')
        exact hne (Option.some.inj heq)
      exact (if_neg hout).trans (hbytes x hx)
    have hne : ∀ key', key' ∈ (s.index.erase key).keys → key' ≠ key ∧ key' ∈ s.index.keys := by
      intro key' hmem
      have := (AList.mem_erase).mp (AList.mem_keys.mpr hmem)
      exact ⟨this.1, AList.mem_keys.mp this.2⟩
    refine h.of_extends (freed_tidy h.tidy) (fun key' e he => ?_)
      (fun key' hkey' => .inl (hne key' hkey').2)
      (fun key' hkey' e => hsafe key' e (hne key' hkey').1) rfl (List.append_nil _).symm rfl
    have hkey' : key' ≠ key := by
      rintro rfl
      rw [AList.lookup_erase] at he
      cases he
    rw [AList.lookup_erase_ne hkey'] at he
    exact hsafe key' e hkey' (h.live key' e he)

theorem Inv.create (h : s.Inv sh) {size : Nat} (hclear : key ∈ s.index.keys ∨ s.named key = none) :
    (s.create key size).Inv sh := by
  unfold SegmentStore.create
  split
  case isTrue => exact h
  case isFalse hnew =>
    split
    case h_1 error a hfail => exact h.opens (SegmentAllocator.allocate_error hfail)
    case h_2 offset a hok =>
      have hnone : s.named key = none := hclear.resolve_left fun hmem =>
        hnew (AList.lookup_isSome.mpr (AList.mem_keys.mpr hmem))
      have halloc := SegmentAllocator.allocate_ok hok
      refine h.of_extends (l := [(key, ⟨offset, size⟩)]) (h.tidy.allocated halloc)
        (fun key' e he => ?_) (fun key' hkey' => ?_) (fun key' _ e hs => ?_) rfl rfl rfl
      · exact live_writeRecord h.tidy halloc (fun _ => id) (fun _ => rfl) h.live he
      · rcases mem_keys_writeRecord (a := a) hkey' with rfl | hmem
        · exact .inr ⟨hnone, _, firstCreate_self,
            safe_writeRecord h.tidy halloc (fun _ => id) fun _ => rfl⟩
        · exact .inl hmem
      · exact hs.writeRecord h.tidy halloc (fun _ => id) fun _ => rfl

/-! ### The steps of a checkpoint -/

section

variable (h : s.Inv sh)
include h

theorem Inv.fence : (s.step sh .fence).Inv sh := by
  dsimp only [step]
  split
  · exact ⟨h.tidy, h.live, h.named, le_rfl⟩
  · exact h

theorem Inv.beginSnapshot : (s.step sh .beginSnapshot).Inv sh := by
  have hp := h.phase
  dsimp only [step]
  split
  case h_1 fence hcase =>
    rw [hcase] at hp
    exact ⟨h.tidy, h.live, h.named, hp, fun key hlt => absurd hlt (Nat.not_lt_zero _)⟩
  · exact h

/-- A captured extent is that of the index. -/
theorem Inv.snapshotShard : (s.step sh .snapshotShard).Inv sh := by
  have hp := h.phase
  dsimp only [step]
  split
  case h_1 fence next captured hcase =>
    rw [hcase] at hp
    refine ⟨h.tidy, h.live, h.named, hp.1, fun key hlt => ?_⟩
    by_cases heq : sh.shardOf key = next
    · simp only [heq, if_true]
      refine ⟨fun hc => ?_, fun hkey hc => ?_, fun hkey => ?_⟩
      · obtain ⟨e, he⟩ := Option.ne_none_iff_exists'.mp hc
        obtain ⟨e', he', -⟩ := h.named key (mem_keys_of_lookup he)
        exact fun hnone => Option.some_ne_none e' (he'.symm.trans hnone)
      · obtain ⟨e, he⟩ := lookup_of_mem_keys hkey
        exact absurd (he.symm.trans hc) (Option.some_ne_none e)
      · obtain ⟨e, he⟩ := lookup_of_mem_keys hkey
        exact ⟨e, by rw [he, Option.some_or], h.live key e he⟩
    · simp only [heq, if_false]
      exact hp.2 key (by omega)
  · exact h

/-- Once every shard is captured, the captured extents may become those of recovery. -/
theorem Inv.installSnapshot : (s.step sh .installSnapshot).Inv sh := by
  have hp := h.phase
  dsimp only [step]
  split
  case h_1 fence next captured hcase =>
    rw [hcase] at hp
    split
    case isTrue hall =>
      have hlt : ∀ key, sh.shardOf key < next := fun key => hall ▸ sh.shardOf_lt key
      exact ⟨h.tidy, h.live, fun key hkey => (hp.2 key (hlt key)).2.2 hkey, hp.1,
        fun key hkey => (hp.2 key (hlt key)).2.1 hkey⟩
    case isFalse => exact h
  · exact h

/-- The current index protects the extents in it, the condition on the step those of recovery. -/
theorem Inv.reclaim (hclear : s.StepClear .reclaim) :
    (s.step sh .reclaim).Inv sh := by
  have hp := h.phase
  dsimp only [step]
  split
  case h_1 fence hcase =>
    rw [hcase] at hp
    have hsafe : ∀ key e, s.Safe key e →
        (∀ i ∈ s.allocator.fullyDead s.liveOffsets, s.allocator.segmentOf e.offset ≠ some i) →
        SegmentStore.Safe
          { s with
            allocator := (s.allocator.reclaimFullyDeadSegments s.liveOffsets).2
            phase := .reclaimed fence } key e := by
      rintro key e ⟨hsettled, hbytes⟩ hnot
      exact ⟨hsettled.reclaim hnot, hbytes⟩
    refine ⟨h.tidy.reclaim, fun key e he => ?_, fun key hkey => ?_, hp⟩
    · refine hsafe key e (h.live key e he) fun i hi => ?_
      refine (SegmentAllocator.mem_fullyDead.mp hi).2.2.2.2.2 e.offset ?_
      exact List.mem_map.mpr ⟨⟨key, e⟩, AList.mem_lookup_iff.mp he, rfl⟩
    · obtain ⟨e, he, hs⟩ := h.named key hkey
      refine ⟨e, he, hsafe key e hs fun i hi => ?_⟩
      have := hclear i hi key hkey
      rwa [he, Option.bind_some] at this
  · exact h

theorem Inv.persistHeader : (s.step sh .persistHeader).Inv sh := by
  have hp := h.phase
  dsimp only [step]
  split
  case h_1 fence hcase =>
    rw [hcase] at hp
    exact ⟨h.tidy, h.live, h.named, hp⟩
  · exact h

/-- A record that the installed index does not have was created after the fence. -/
theorem Inv.redoFence : (s.step sh .redoFence).Inv sh := by
  have hp := h.phase
  dsimp only [step]
  split
  case h_1 fence hcase =>
    rw [hcase] at hp
    refine ⟨h.tidy, h.live, fun key hkey => ?_, trivial⟩
    obtain ⟨e, he, hs⟩ := h.named key hkey
    refine ⟨e, ?_, hs⟩
    rw [SegmentStore.named] at he ⊢
    cases hsnap : s.snapshot key with
    | some e' =>
      rw [hsnap, Option.some_or] at he
      exact he
    | none =>
      rw [hsnap] at he
      rw [firstCreate_drop (hp.2 key hkey hsnap)]
      exact he
  · exact h

theorem Inv.step (st : SegmentStep) (hclear : s.StepClear st) :
    (s.step sh st).Inv sh := by
  cases st with
  | create key size => exact h.create hclear
  | spend key => exact h.relocateRecord key
  | delete key => exact h.delete key
  | fence => exact h.fence
  | compact key =>
    dsimp only [SegmentStore.step]
    split
    · exact h.relocateRecord key
    · exact h
  | beginSnapshot => exact h.beginSnapshot
  | snapshotShard => exact h.snapshotShard
  | installSnapshot => exact h.installSnapshot
  | reclaim => exact h.reclaim hclear
  | persistHeader => exact h.persistHeader
  | redoFence => exact h.redoFence

end

theorem inv_new (ht : a.Tidy) : (new a).Inv sh := by
  refine ⟨ht, fun key e he => ?_, fun key hkey => ?_, trivial⟩
  · cases he
  · cases hkey

/-- In every run in which no key is created while recovery still has an extent for it, and no
reclaimed segment holds the extent recovery has for a live record, the bytes recovery needs are
intact in every state. -/
theorem intact_of_clear_steps (sh : Sharding) {g : Geometry} {segmentSize : Nat} {packed : Bool}
    (ha : SegmentAllocator.new g segmentSize packed = .ok a) (steps : List SegmentStep)
    (hclear : Guarded (SegmentStore.step sh) StepClear (new a) steps) :
    (run (SegmentStore.step sh) (new a) steps).Intact :=
  (hclear.invariant (fun _ st h hc => h.step st hc)
    (inv_new (SegmentAllocator.tidy_new ha))).intact

def threeSegments : SegmentAllocator where
  geometry := System.smallDevice
  segmentSize := 5 * 2 ^ 20
  segmentCount := 3
  segments := fun _ => .default
  freeSegments := []
  openSegment := 0
  cursor := dataRegionOffset
  packed := false
  pinned := false

theorem new_threeSegments :
    SegmentAllocator.new System.smallDevice (5 * 2 ^ 20) false = .ok threeSegments := rfl

def oneShard : Sharding := ⟨1, fun _ => 0, fun _ => Nat.one_pos⟩

def keyOf (byte : UInt8) : TxKey := ⟨.replicate 32 byte⟩

/-- A record moves before the checkpoint captures it, and its old segment is used again. -/
def moveBeforeSnapshot : List SegmentStep :=
  [.create (keyOf 1) (5 * 2 ^ 20), .spend (keyOf 1), .fence, .beginSnapshot, .snapshotShard,
    .installSnapshot, .reclaim, .persistHeader, .redoFence, .create (keyOf 2) (5 * 2 ^ 20)]

theorem intact_moveBeforeSnapshot :
    (run (SegmentStore.step oneShard) (new threeSegments) moveBeforeSnapshot).Intact :=
  intact_of_clear_steps oneShard new_threeSegments moveBeforeSnapshot (by decide +kernel)

/-- The record moves after the checkpoint captured it. -/
def moveAfterSnapshot : List SegmentStep :=
  [.create (keyOf 1) (5 * 2 ^ 20), .fence, .beginSnapshot, .snapshotShard, .spend (keyOf 1),
    .installSnapshot, .reclaim, .create (keyOf 2) (5 * 2 ^ 20)]

/-- Reclaim finds the old segment dead, the next create is placed there, and the installed index
still has the moved record there. -/
theorem move_after_snapshot_overwritten :
    ¬ (run (SegmentStore.step oneShard) (new threeSegments) moveAfterSnapshot).Intact := by
  intro h
  obtain ⟨e, he, hbytes⟩ := h (keyOf 1) (by decide +kernel)
  have hnamed : (run (SegmentStore.step oneShard) (new threeSegments) moveAfterSnapshot).named
      (keyOf 1) = some ⟨dataRegionOffset, 5 * 2 ^ 20⟩ := by decide +kernel
  cases hnamed.symm.trans he
  have howner := hbytes dataRegionOffset (Extent.mem_bytes.mpr (by decide +kernel))
  exact absurd howner (by decide +kernel)

end SegmentStore

end TeraSlab.Recovery
