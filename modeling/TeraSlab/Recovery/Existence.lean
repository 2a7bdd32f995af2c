import TeraSlab.Recovery.RecordStore

/-!
# Which records exist after a recovery

A history of creates and deletes after a checkpoint, a crash that loses nothing of the device and of
the log, and the index that recovery builds. A delete is not in the log under its key, so that
recovery does not see it; it is made good only where the create of the record is one that recovery
checks against the device.
-/

namespace TeraSlab.Recovery

open Foundations TeraSlab.Allocator TeraSlab.Index TeraSlab.Redo

variable {s s' t : Store} {key : TxKey} {offset : Nat} {op : StoreOp} {ops : List StoreOp}

def TailEntry.formFor (key : TxKey) : TailEntry → Option CreateForm
  | .region _ => none
  | .create k .. => if k = key then some .embedded else none
  | .createV2 k .. => if k = key then some .indexOnly else none

def latestForm (key : TxKey) (tail : List TailEntry) : Option CreateForm :=
  tail.reverse.findSome? (·.formFor key)

/-- An acknowledged delete of the history finds that the latest create entry of its key in the
redo tail is index-only. -/
def DeletesIndexOnly (s : Store) (ops : List StoreOp) : Prop :=
  ∀ front key back s', ops = front ++ .delete key :: back → s.performAll front = some s' →
    latestForm key s'.tail = some .indexOnly

/-- Recovery succeeds, the recovered index has the records that the store has, where the store has
them, and the device has the record of the key there. -/
def ExistenceRestored (b : SlotAllocator) (index : PrimaryIndex) (s : Store) : Prop :=
  ∃ r, recoverAll b index s.device s.tail = some r ∧
    (∀ key, r.index.lookup key = s.index.lookup key) ∧
    ∀ key offset, r.index.lookup key = some offset →
      ∃ h, r.device offset = some h ∧ h.key = key

/-! ## Runs -/

theorem latestForm_append (key : TxKey) (tail : List TailEntry) (e : TailEntry) :
    latestForm key (tail ++ [e]) = (e.formFor key).or (latestForm key tail) := by
  rw [latestForm, List.reverse_append, List.reverse_singleton, List.singleton_append,
    List.findSome?_cons]
  cases e.formFor key <;> rfl

theorem formFor_entry_self (item : CreateItem) (offset : Nat) :
    (item.entry offset).formFor item.key = some item.form := by
  unfold CreateItem.entry
  cases item.form <;> simp [TailEntry.formFor]

theorem formFor_entry_of_ne (item : CreateItem) (offset : Nat) (h : key ≠ item.key) :
    (item.entry offset).formFor key = none := by
  unfold CreateItem.entry
  cases item.form <;> simp [TailEntry.formFor, h.symm]

theorem latestForm_created_self (s : Store) (item : CreateItem) (trace : Trace) (offset : Nat) :
    latestForm item.key (s.created item trace offset).tail = some item.form := by
  rw [Store.created_tail, latestForm_append, formFor_entry_self, Option.some_or]

theorem latestForm_created_of_ne (s : Store) {item : CreateItem} (trace : Trace) (offset : Nat)
    (h : key ≠ item.key) :
    latestForm key (s.created item trace offset).tail = latestForm key s.tail := by
  rw [Store.created_tail, latestForm_append, formFor_entry_of_ne item offset h,
    Option.none_or, latestForm_append]
  rfl

theorem latestForm_deleted (s : Store) (key' : TxKey) (h : Header) (trace : Trace) (offset : Nat) :
    latestForm key (s.deleted key' h trace offset).tail = latestForm key s.tail :=
  latestForm_append ..

/-- A run whose deletes are all of keys that were created index-only. -/
inductive Tracked : Store → List StoreOp → Store → Prop where
  | nil (s : Store) : Tracked s [] s
  | create {s s' t : Store} {item : CreateItem} {ops : List StoreOp}
      (hp : s.create item = some s') (hrest : Tracked s' ops t) : Tracked s (.create item :: ops) t
  | delete {s s' t : Store} {key : TxKey} {ops : List StoreOp} (hp : s.delete key = some s')
      (hform : latestForm key s.tail = some .indexOnly) (hrest : Tracked s' ops t) :
      Tracked s (.delete key :: ops) t

theorem tracked_of_deletesIndexOnly (hp : s.performAll ops = some t)
    (hdel : DeletesIndexOnly s ops) : Tracked s ops t := by
  induction ops generalizing s with
  | nil =>
    obtain rfl := Option.some.inj hp
    exact .nil s
  | cons op ops ih =>
    obtain ⟨u, hu, hrest⟩ := Option.bind_eq_some_iff.mp hp
    have htracked : Tracked u ops t := by
      refine ih hrest ?_
      rintro front key back s' rfl hs'
      refine hdel (op :: front) key back s' rfl ?_
      exact Option.bind_eq_some_iff.mpr ⟨u, hu, hs'⟩
    cases op with
    | create item => exact .create hu htracked
    | delete key => exact .delete hu (hdel [] key ops s rfl rfl) htracked

theorem Tracked.wellFormed (h : Tracked s ops t) (hs : s.WellFormed) : t.WellFormed := by
  induction h with
  | nil s => exact hs
  | create hp _ ih => exact ih (hs.create hp)
  | delete hp _ _ ih => exact ih (hs.delete hp)

theorem Tracked.sameConfig (h : Tracked s ops t) (hs : s.WellFormed) :
    SameConfig t.trace.allocator s.trace.allocator := by
  induction h with
  | nil s => exact ⟨rfl, rfl, rfl⟩
  | create hp _ ih =>
    obtain ⟨-, o, trace, htrace, -, -, -, rfl⟩ := Store.create_eq hs.inv hp
    exact (ih (hs.create hp)).trans (Trace.perform_spec hs.inv htrace).2.1
  | delete hp _ _ ih =>
    obtain ⟨o, h, trace, -, -, rfl, htrace, -, -, rfl⟩ := Store.delete_eq hs.inv hp
    exact (ih (hs.delete hp)).trans (Trace.perform_spec hs.inv htrace).2.1

/-- A record that was not created index-only since the checkpoint stays. -/
theorem Tracked.kept (h : Tracked s ops t) (hs : s.WellFormed)
    (hkey : s.index.lookup key = some offset) (hform : latestForm key s.tail ≠ some .indexOnly) :
    t.index.lookup key = some offset ∧ t.device offset = s.device offset := by
  induction h with
  | nil s => exact ⟨hkey, rfl⟩
  | @create s s' t item ops hp _ ih =>
    have hs' := hs.create hp
    obtain ⟨hfresh, o, trace, -, -, -, -, rfl⟩ := Store.create_eq hs.inv hp
    have hne : key ≠ item.key := by
      rintro rfl
      rw [hkey] at hfresh
      cases hfresh
    have hkey' : (s.created item trace o).index.lookup key = some offset :=
      (AList.lookup_insert_ne hne).trans hkey
    obtain ⟨hindex, hdevice⟩ := ih hs' hkey' (by rwa [latestForm_created_of_ne s trace o hne])
    obtain ⟨h, hdev, rfl⟩ := hs'.header key offset hkey'
    refine ⟨hindex, hdevice.trans ?_⟩
    rcases Device.writeRecord_eq_some hdev with ⟨-, rfl⟩ | ⟨-, hold⟩
    · exact absurd rfl hne
    · exact hdev.trans hold.symm
  | @delete s s' t key' ops hp hform' _ ih =>
    have hs' := hs.delete hp
    obtain ⟨o, h, trace, hkey₁, hdev₁, rfl, -, -, -, rfl⟩ := Store.delete_eq hs.inv hp
    have hne : key ≠ h.key := by
      rintro rfl
      exact hform hform'
    have hkey' : (s.deleted h.key h trace o).index.lookup key = some offset :=
      (AList.lookup_erase_ne hne).trans hkey
    obtain ⟨hindex, hdevice⟩ := ih hs' hkey' (by rwa [latestForm_deleted])
    have hother : offset ≠ o := by
      rintro rfl
      exact hne (hs.injective hkey hkey₁)
    exact ⟨hindex, hdevice.trans (Function.update_of_ne hother ..)⟩

/-! ## The owners of offsets -/

theorem lookup_foldl_insert {K P : Type} [DecidableEq K] [DecidableEq P] {l : List (Σ _ : K, P)}
    (huniq : ∀ k k' p, ⟨k, p⟩ ∈ l → ⟨k', p⟩ ∈ l → k = k') (k : K) (p : P) :
    (l.foldl (fun owners e => owners.insert e.2 e.1) (∅ : AList fun _ : P => K)).lookup p = some k ↔
      ⟨k, p⟩ ∈ l := by
  -- the entry inserted last decides about its place
  induction l using List.reverseRecOn with
  | nil => simp
  | append_singleton l e ih =>
    rw [List.foldl_concat]
    by_cases hp : p = e.2
    · subst hp
      rw [AList.lookup_insert]
      constructor
      · intro heq
        simp [← Option.some.inj heq]
      · exact fun hin => congrArg some (huniq e.1 k e.2 (by simp) hin)
    · rw [AList.lookup_insert_ne hp,
        ih fun k k' p hk hk' => huniq k k' p (by simp [hk]) (by simp [hk'])]
      simp [Sigma.ext_iff, hp]

def Matched (index : PrimaryIndex) (owners : OffsetOwners) : Prop :=
  ∀ key offset, owners.lookup offset = some key ↔ index.lookup key = some offset

theorem matched_buildOffsetOwners {index : PrimaryIndex}
    (hinj : ∀ key key' offset, index.lookup key = some offset → index.lookup key' = some offset →
      key = key') : Matched index (buildOffsetOwners index) := by
  intro key offset
  refine (lookup_foldl_insert (fun k k' o hk hk' => ?_) key offset).trans AList.mem_lookup_iff.symm
  exact hinj k k' o (AList.mem_lookup_iff.mpr hk) (AList.mem_lookup_iff.mpr hk')

theorem Matched.register {r : Recovered} (h : Matched r.index r.owners)
    (hkey : r.index.lookup key = none)
    (hfree : ∀ key', r.index.lookup key' = some offset → key' = key) :
    (r.registerUniqueOffset key offset).index = r.index.insert key offset ∧
      Matched (r.registerUniqueOffset key offset).index
        (r.registerUniqueOffset key offset).owners := by
  have hnone : r.owners.lookup offset = none := by
    cases hown : r.owners.lookup offset with
    | none => rfl
    | some stale =>
      have hstale := (h stale offset).mp hown
      rw [hfree stale hstale, hkey] at hstale
      cases hstale
  have hindex : (r.registerUniqueOffset key offset).index = r.index.insert key offset := by
    simp [Recovered.registerUniqueOffset, hnone]
  refine ⟨hindex, ?_⟩
  rw [hindex]
  intro k o
  change (r.owners.insert offset key).lookup o = some k ↔ _
  by_cases ho : o = offset
  · subst ho
    rw [AList.lookup_insert]
    by_cases hk : k = key
    · subst hk
      simp
    rw [AList.lookup_insert_ne hk]
    constructor
    · rintro heq
      exact absurd (Option.some.inj heq).symm hk
    · exact fun hin => absurd (hfree k hin) hk
  · rw [AList.lookup_insert_ne ho, h k o]
    by_cases hk : k = key
    · subst hk
      rw [AList.lookup_insert, hkey]
      simp [Ne.symm ho]
    · rw [AList.lookup_insert_ne hk]

/-! ## Replay along a run -/

/-- The replay of the entries up to the state `u` of a run that ends in `t`, over a device that
reads as a part of what `t` left. All that it has registered is right in `t`. -/
structure Follows (d : Device) (t u : Store) (r : Recovered) : Prop where
  device_le : ∀ x h, r.device x = some h → t.device x = some h
  device_ge : ∀ x h, d x = some h → r.device x = some h
  index_le : ∀ key offset, r.index.lookup key = some offset → t.index.lookup key = some offset
  matched : Matched r.index r.owners
  kept : ∀ key offset, u.index.lookup key = some offset →
    latestForm key u.tail ≠ some .indexOnly → r.index.lookup key = some offset
  found : ∀ x h, u.device x = some h → d x = some h → r.index.lookup h.key = some x

variable {b : SlotAllocator}

section Replay

variable {d : Device} {u : Store} {r : Recovered} {item : CreateItem} {trace : Trace}

/-- No record of a well-formed store starts inside another one. -/
theorem Store.WellFormed.not_inside (hs : s.WellFormed) {x : Nat} {h h' : Header}
    (hdev : s.device offset = some h) (hdev' : s.device x = some h') :
    ¬ (offset < x ∧ x < offset + s.trace.allocator.alignReservation h.recordSize) := by
  rintro ⟨hlt, hstop⟩
  have hpos := hs.region_pos hdev
  have hpos' := hs.region_pos hdev'
  have hne : (⟨offset, s.trace.allocator.alignReservation h.recordSize⟩ : Extent) ≠
      ⟨x, s.trace.allocator.alignReservation h'.recordSize⟩ := by
    intro heq
    exact hlt.ne (congrArg Extent.offset heq)
  refine hs.inv.sound.not_meets_erase (hs.region offset h hdev).2.2 _
    ((List.mem_erase_of_ne hne.symm).mpr (hs.region x h' hdev').2.2) ⟨?_, ?_, hpos', hpos⟩
  all_goals simp only [Extent.stop]; omega

/-- A create carries the replay over, when the record is registered as far as it has to be. -/
theorem Follows.created {r' : Recovered} (hr : Follows d t u r)
    (hle : ∀ x h, r'.device x = some h → t.device x = some h)
    (hge : ∀ x h, d x = some h → r'.device x = some h)
    (hindex : ∀ key offset, r'.index.lookup key = some offset → t.index.lookup key = some offset)
    (hmatched : Matched r'.index r'.owners)
    (hmono : ∀ key offset, r.index.lookup key = some offset → r'.index.lookup key = some offset)
    (hkept : item.form = .embedded → r'.index.lookup item.key = some offset)
    (hfound : d offset = some item.header → r'.index.lookup item.key = some offset) :
    Follows d t (u.created item trace offset) r' where
  device_le := hle
  device_ge := hge
  index_le := hindex
  matched := hmatched
  kept key o hkey hform := by
    by_cases heq : key = item.key
    · subst heq
      obtain rfl : offset = o := by simpa [Store.created] using hkey
      rw [latestForm_created_self] at hform
      cases hitem : item.form with
      | embedded => exact hkept hitem
      | indexOnly => exact absurd (congrArg some hitem) hform
    · rw [latestForm_created_of_ne u trace offset heq] at hform
      exact hmono key o (hr.kept key o ((AList.lookup_insert_ne heq).symm.trans hkey) hform)
  found x h hdev hd := by
    rcases Device.writeRecord_eq_some hdev with ⟨rfl, rfl⟩ | ⟨-, hold⟩
    · exact hfound hd
    · exact hmono h.key x (hr.found x h hold hd)

/-- The replay registers a record that is right in `t`. -/
theorem Follows.created_register (hr : Follows d t u r) (ht : t.WellFormed) {r₁ : Recovered}
    (hindex : r₁.index = r.index) (howners : r₁.owners = r.owners)
    (hle : ∀ x h, r₁.device x = some h → t.device x = some h)
    (hge : ∀ x h, d x = some h → r₁.device x = some h)
    (hkey : r.index.lookup item.key = none) (hlast : t.index.lookup item.key = some offset) :
    Follows d t (u.created item trace offset) (r₁.registerUniqueOffset item.key offset) := by
  have hsame : Matched r₁.index r₁.owners := hindex ▸ howners ▸ hr.matched
  obtain ⟨hinsert, hmatched⟩ := hsame.register (hindex ▸ hkey) fun key' h =>
    ht.injective (hr.index_le key' offset (hindex ▸ h)) hlast
  have hself : (r₁.registerUniqueOffset item.key offset).index.lookup item.key = some offset := by
    rw [hinsert, AList.lookup_insert]
  have hother : ∀ key, key ≠ item.key →
      (r₁.registerUniqueOffset item.key offset).index.lookup key = r.index.lookup key := by
    intro key hne
    rw [hinsert, AList.lookup_insert_ne hne, hindex]
  refine hr.created hle hge ?_ hmatched ?_ (fun _ => hself) fun _ => hself
  · intro key o hk
    by_cases heq : key = item.key
    · subst heq
      rw [← hk, hself]
      exact hlast
    · exact hr.index_le key o (by rwa [hother key heq] at hk)
  · intro key o hk
    have hne : key ≠ item.key := by
      rintro rfl
      rw [hkey] at hk
      cases hk
    rwa [hother key hne]

section

variable (hr : Follows d t u r) (ht : t.WellFormed) (hd : ∀ x h, d x = some h → t.device x = some h)
include hr ht hd

theorem Follows.replayCreate (hlast : t.index.lookup item.key = some offset)
    (hdev : t.device offset = some item.header) (hcfg : SameConfig r.allocator t.trace.allocator) :
    ∃ r', r.replayCreate item.key offset item.utxoCount item.header = some r' ∧
      Follows d t (u.created item trace offset) r' := by
  unfold Recovered.replayCreate
  cases hkey : r.index.lookup item.key with
  | some o =>
    obtain rfl : o = offset := by simpa using (hr.index_le _ _ hkey).symm.trans hlast
    exact ⟨r, by simp, hr.created hr.device_le hr.device_ge hr.index_le hr.matched
      (fun _ _ h => h) (fun _ => hkey) fun _ => hkey⟩
  | none =>
    have hsize : ¬ item.header.recordSize < metadataSize := by
      have := item.recordSizeFor_le
      simp only [recordSizeFor] at this
      simp only [CreateItem.header]
      omega
    have hdvd : r.allocator.alignment ∣ offset := hcfg.alignment ▸ (ht.region offset _ hdev).2.1
    have hlen : divCeil item.header.recordSize r.allocator.alignment * r.allocator.alignment =
        t.trace.allocator.alignReservation item.header.recordSize := by
      rw [SlotAllocator.alignReservation_large (by simp [ht.unpacked]),
        @SlotAllocator.alignUp_eq _ item.header.recordSize item.size_lt, hcfg.alignment]
    rw [if_neg (by simp), if_neg hsize, if_neg (not_not.mpr hdvd)]
    dsimp only
    rw [hlen]
    generalize hlen' : t.trace.allocator.alignReservation item.header.recordSize = len
    have hread : r.device.writeRecord offset len item.header offset = some item.header := if_pos rfl
    refine ⟨{ r with device := r.device.writeRecord offset len item.header }.registerUniqueOffset
      item.key offset, ?_, ?_⟩
    · simp only [hread]
      simp [CreateItem.header]
    refine hr.created_register ht rfl rfl ?_ ?_ hkey hlast
    · intro x h hx
      rcases Device.writeRecord_eq_some hx with ⟨rfl, rfl⟩ | ⟨-, hx⟩
      · exact hdev
      · exact hr.device_le x h hx
    · intro x h hx
      simp only [Device.writeRecord]
      split_ifs with heq hin
      · subst heq
        exact hdev.symm.trans (hd x h hx)
      · exact absurd (hlen' ▸ hin) (ht.not_inside hdev (hd x h hx))
      · exact hr.device_ge x h hx

theorem Follows.replayCreateV2 (hform : item.form = .indexOnly) :
    Follows d t (u.created item trace offset)
      (r.replayCreateV2 item.key offset item.utxoCount) := by
  have hskip : (d offset = some item.header → r.index.lookup item.key = some offset) →
      Follows d t (u.created item trace offset) r := fun hfound =>
    hr.created hr.device_le hr.device_ge hr.index_le hr.matched (fun _ _ h => h)
      (fun h => by rw [hform] at h; cases h) hfound
  unfold Recovered.replayCreateV2
  cases hkey : r.index.lookup item.key with
  | some o =>
    refine hskip fun hx => ?_
    have hlast := ht.indexed offset _ (hd offset _ hx)
    rw [← hlast]
    exact hkey.trans (hr.index_le _ _ hkey).symm
  | none =>
    simp only [Option.isSome_none, Bool.false_eq_true, if_false]
    cases hread : r.device offset with
    | none =>
      refine hskip fun hx => ?_
      rw [hr.device_ge offset _ hx] at hread
      cases hread
    | some h =>
      dsimp only
      split_ifs with hother
      · refine hskip fun hx => ?_
        obtain rfl : item.header = h := by simpa using (hr.device_ge offset _ hx).symm.trans hread
        simp [CreateItem.header] at hother
      · obtain ⟨hsame, -⟩ := not_or.mp hother
        have hlast := ht.indexed offset h (hr.device_le offset h hread)
        rw [not_not.mp hsame] at hlast
        exact hr.created_register ht rfl rfl hr.device_le hr.device_ge hkey hlast

end

theorem replayCreate_allocator {r' : Recovered} {count : Nat} {record : Header}
    (h : r.replayCreate key offset count record = some r') : r'.allocator = r.allocator := by
  unfold Recovered.replayCreate at h
  split_ifs at h
  · rw [Option.some.inj h]
  dsimp only at h
  split at h
  · cases h
  split_ifs at h
  rw [← Option.some.inj h]
  rfl

theorem replayCreateV2_allocator (r : Recovered) (key : TxKey) (offset count : Nat) :
    (r.replayCreateV2 key offset count).allocator = r.allocator := by
  unfold Recovered.replayCreateV2
  split_ifs
  · rfl
  split
  · rfl
  · split_ifs <;> rfl

/-- The part of a region just handed out that the replay of its create asks for is allocated. -/
theorem gate_open (halloc : InStep r.allocator trace) (hinv : trace.Inv)
    (hcfg : SameConfig trace.allocator u.trace.allocator)
    (hlive : trace.live =
      ⟨offset, u.trace.allocator.alignReservation item.recordSize⟩ :: u.trace.live)
    (hstart : dataRegionOffset ≤ offset) {size : Nat} (hpos : 0 < size)
    (hle : size ≤ item.recordSize) : r.allocator.isAllocatedRange offset size := by
  have hlt : size < 2 ^ 32 := hle.trans_lt item.size_lt
  refine halloc.isAllocatedRange hinv (hlive ▸ List.mem_cons_self) hstart ?_ ?_
  · exact hpos.trans_le (SlotAllocator.le_alignReservation hlt)
  · rw [halloc.config.alignReservation, hcfg.alignReservation]
    exact SlotAllocator.alignReservation_mono hle item.size_lt

section

variable (hr : Follows d t u r) (halloc : InStep r.allocator u.trace) (hu : u.WellFormed)
include hr halloc hu

theorem Follows.create (ht : t.WellFormed) (hd : ∀ x h, d x = some h → t.device x = some h)
    {u' : Store} (hp : u.create item = some u') (hrest : Tracked u' ops t) :
    ∃ new r', u'.tail = u.tail ++ new ∧ r.replayTail new = some r' ∧ Follows d t u' r' ∧
      InStep r'.allocator u'.trace := by
  have hu' := hu.create hp
  obtain ⟨-, offset, trace, htrace, hlive, hlog, hstart, rfl⟩ := Store.create_eq hu.inv hp
  obtain ⟨hinv, hcfg, -⟩ := Trace.perform_spec hu.inv htrace
  replace halloc := halloc.perform hu.inv htrace hlog
  -- the entry of the region changes the allocator only
  generalize hop : RegionRedoOp.allocateRegion offset _ _ = op at halloc
  generalize hr₁ : { r with allocator := (r.allocator.replayRedo op).2 } = r₁
  replace hr : Follows d t u r₁ := by
    subst hr₁
    exact ⟨hr.1, hr.2, hr.3, hr.4, hr.5, hr.6⟩
  replace halloc : InStep r₁.allocator trace := hr₁ ▸ halloc
  refine ⟨[.region op, item.entry offset], ?_⟩
  have hreplay : r.replayTail [.region op, item.entry offset] =
      (r₁.replayTailEntry (item.entry offset)) := by
    simp [Recovered.replayTail, Recovered.replayTailEntry, hr₁]
  rw [hreplay]
  have htail : (u.created item trace offset).tail = u.tail ++ [.region op, item.entry offset] := by
    rw [← hop]
    rfl
  cases hform : item.form with
  | embedded =>
    have hkey : (u.created item trace offset).index.lookup item.key = some offset :=
      AList.lookup_insert _
    obtain ⟨hlast, hdev⟩ := hrest.kept hu' hkey (by rw [latestForm_created_self, hform]; simp)
    have hself : (u.created item trace offset).device offset = some item.header := if_pos rfl
    obtain ⟨r', hr', hfollows⟩ := hr.replayCreate ht hd hlast (hdev.trans hself)
      (halloc.config.trans (hrest.sameConfig hu').symm)
    have hgate : r₁.allocator.isAllocatedRange offset item.header.recordSize :=
      gate_open halloc hinv hcfg hlive hstart
        ((recordSizeFor_pos _).trans_le item.recordSizeFor_le) le_rfl
    refine ⟨r', htail, ?_, hfollows, ?_⟩
    · simp only [CreateItem.entry, hform, Recovered.replayTailEntry]
      rw [if_neg (by simpa using hgate)]
      exact hr'
    · rw [replayCreate_allocator hr']
      exact halloc
  | indexOnly =>
    have hgate := gate_open halloc hinv hcfg hlive hstart (recordSizeFor_pos _)
      item.recordSizeFor_le
    refine ⟨_, htail, ?_, hr.replayCreateV2 ht hd hform, ?_⟩
    · simp only [CreateItem.entry, hform, Recovered.replayTailEntry]
      rw [if_neg (by simpa using hgate)]
    · rw [replayCreateV2_allocator]
      exact halloc

theorem Follows.delete {u' : Store} (hp : u.delete key = some u') :
    ∃ new r', u'.tail = u.tail ++ new ∧ r.replayTail new = some r' ∧ Follows d t u' r' ∧
      InStep r'.allocator u'.trace ∧ r'.index = r.index := by
  obtain ⟨offset, h, trace, hkey, hdev, rfl, htrace, -, hlog, rfl⟩ := Store.delete_eq hu.inv hp
  refine ⟨[.region _], _, rfl, rfl, ?_, halloc.perform hu.inv htrace hlog, rfl⟩
  refine ⟨hr.device_le, hr.device_ge, hr.index_le, hr.matched, ?_, ?_⟩
  · intro key o hk hform
    rw [latestForm_deleted] at hform
    have hne : key ≠ h.key := by
      rintro rfl
      simp [Store.deleted] at hk
    exact hr.kept key o ((AList.lookup_erase_ne hne).symm.trans hk) hform
  · exact fun x h' hx hdx => hr.found x h' (Device.writeMarker_eq_some hx).2 hdx

end

theorem Recovered.replayTail_trans {r₁ r' : Recovered} {tail tail' : List TailEntry}
    (h : r.replayTail tail = some r₁) (h' : r₁.replayTail tail' = some r') :
    r.replayTail (tail ++ tail') = some r' := by
  rw [replayTail, List.foldlM_append]
  exact Option.bind_eq_some_iff.mpr ⟨r₁, h, h'⟩

/-- The replay of a whole run. -/
theorem Tracked.follows (h : Tracked u ops t) (hu : u.WellFormed)
    (hd : ∀ x h, d x = some h → t.device x = some h) (hr : Follows d t u r)
    (halloc : InStep r.allocator u.trace) :
    ∃ new r', t.tail = u.tail ++ new ∧ r.replayTail new = some r' ∧ Follows d t t r' ∧
      InStep r'.allocator t.trace := by
  have ht := h.wellFormed hu
  induction h generalizing r with
  | nil s => exact ⟨[], r, by simp, rfl, hr, halloc⟩
  | create hp hrest ih =>
    obtain ⟨new, r₁, htail, hreplay, hr₁, halloc₁⟩ := hr.create halloc hu ht hd hp hrest
    obtain ⟨new', r', htail', hreplay', hr', halloc'⟩ := ih (hu.create hp) hd hr₁ halloc₁ ht
    exact ⟨_, r', by rw [htail', htail, List.append_assoc],
      Recovered.replayTail_trans hreplay hreplay', hr', halloc'⟩
  | delete hp _ _ ih =>
    obtain ⟨new, r₁, htail, hreplay, hr₁, halloc₁, -⟩ := hr.delete halloc hu hp
    obtain ⟨new', r', htail', hreplay', hr', halloc'⟩ := ih (hu.delete hp) hd hr₁ halloc₁ ht
    exact ⟨_, r', by rw [htail', htail, List.append_assoc],
      Recovered.replayTail_trans hreplay hreplay', hr', halloc'⟩

/-- The replay from a checkpoint, over a device that reads as a part of what the run left. -/
theorem Tracked.replayTail (h : Tracked s.checkpointed ops t)
    (hs : s.WellFormed) (hb : s.trace.allocator.restart = .ok b)
    (hd : ∀ x h, d x = some h → t.device x = some h) :
    ∃ r, Recovered.replayTail ⟨b, s.index, buildOffsetOwners s.index, d⟩ t.tail = some r ∧
      Follows d t t r ∧ InStep r.allocator t.trace := by
  have hs' := hs.checkpointed
  have hstart : Follows d t s.checkpointed ⟨b, s.index, buildOffsetOwners s.index, d⟩ := by
    refine ⟨hd, fun _ _ h => h, ?_, ?_, fun _ _ h _ => h, fun x h hx _ => hs.indexed x h hx⟩
    · intro key offset hkey
      exact (h.kept hs' hkey (by simp [Store.checkpointed, latestForm])).1
    · exact matched_buildOffsetOwners fun _ _ _ => hs.injective
  obtain ⟨new, r, htail, hreplay, hr, halloc⟩ :=
    h.follows hs' hd hstart (inStep_restart hs.inv hb)
  refine ⟨r, ?_, hr, halloc⟩
  rw [htail]
  exact hreplay

end Replay

/-! ## Recovery -/

theorem reconcile_of_allocated {d : Device} {a : SlotAllocator}
    {entries : List (Σ _ : TxKey, Nat)}
    (h : ∀ e ∈ entries, a.freeRegionContaining e.2 = none) :
    reconcileFreelistAgainstLiveIndex d a entries = some a := by
  induction entries with
  | nil => rfl
  | cons e entries ih =>
    rw [reconcileFreelistAgainstLiveIndex, h _ List.mem_cons_self]
    exact ih fun e he => h e (List.mem_cons_of_mem _ he)

section

variable (h : Tracked s.checkpointed ops t) (hs : s.WellFormed)
  (hb : s.trace.allocator.restart = .ok b)
include h hs hb

/-- After a tracked run recovery finds every record. -/
theorem Tracked.existenceRestored : ExistenceRestored b s.index t := by
  have ht := h.wellFormed hs.checkpointed
  obtain ⟨r, hreplay, hr, halloc⟩ := h.replayTail (d := t.device) hs hb fun _ _ h => h
  have hindex : ∀ key, r.index.lookup key = t.index.lookup key := by
    intro key
    cases hkey : t.index.lookup key with
    | none =>
      cases hrk : r.index.lookup key with
      | none => rfl
      | some offset =>
        have := hr.index_le key offset hrk
        rw [hkey] at this
        cases this
    | some offset =>
      obtain ⟨h, hdev, rfl⟩ := ht.header key offset hkey
      exact hr.found offset h hdev hdev
  have hfree : ∀ e ∈ r.index.entries, r.allocator.freeRegionContaining e.2 = none := by
    rintro ⟨key, offset⟩ he
    have hkey := hr.index_le key offset (AList.mem_lookup_iff.mpr he)
    obtain ⟨h, hdev, -⟩ := ht.header key offset hkey
    exact halloc.freeRegionContaining ht.inv (ht.region_pos hdev) (ht.region offset h hdev).2.2
  refine ⟨r, ?_, hindex, ?_⟩
  · rw [recoverAll, hreplay]
    simp [reconcile_of_allocated hfree]
  intro key offset hkey
  obtain ⟨h, hdev, rfl⟩ := ht.header key offset (hr.index_le key offset hkey)
  exact ⟨h, hr.device_ge offset h hdev, rfl⟩

/-- A delete of a record that was not created index-only since the checkpoint is undone by
recovery, or makes it fail. -/
theorem Tracked.not_existenceRestored (hp : t.delete key = some s')
    (hform : latestForm key t.tail ≠ some .indexOnly) : ¬ ExistenceRestored b s.index s' := by
  have ht := h.wellFormed hs.checkpointed
  rintro ⟨r', hrecover, hindex, -⟩
  obtain ⟨offset, header, trace, hkey, hdev, rfl, -, -, -, rfl⟩ := Store.delete_eq ht.inv hp
  have hd : ∀ x h, (t.deleted header.key header trace offset).device x = some h →
      t.device x = some h := fun _ _ hx => (Device.writeMarker_eq_some hx).2
  obtain ⟨r, hreplay, hr, -⟩ := h.replayTail hs hb hd
  have hkept := hr.kept header.key offset hkey hform
  have hreplay' : Recovered.replayTail ⟨b, s.index, buildOffsetOwners s.index,
      (t.deleted header.key header trace offset).device⟩
      (t.deleted header.key header trace offset).tail =
      some { r with allocator := (r.allocator.replayRedo (.freeRegion offset
        (t.trace.allocator.alignReservation header.recordSize)
        t.trace.allocator.redoDeviceId)).2 } := by
    exact Recovered.replayTail_trans hreplay rfl
  rw [recoverAll, hreplay'] at hrecover
  obtain ⟨a, -, rfl⟩ := Option.map_eq_some_iff.mp hrecover
  have hgone : (t.deleted header.key header trace offset).index.lookup header.key = none :=
    AList.lookup_erase _ _
  have hstill := hindex header.key
  rw [hgone] at hstill
  exact absurd (hkept.symm.trans hstill) (by simp)

end

theorem Store.WellFormed.performAll (hs : s.WellFormed) (h : s.performAll ops = some t) :
    t.WellFormed := by
  induction ops generalizing s with
  | nil =>
    obtain rfl := Option.some.inj h
    exact hs
  | cons op ops ih =>
    obtain ⟨u, hu, hrest⟩ := Option.bind_eq_some_iff.mp h
    exact ih (hs.perform hu) hrest

theorem Store.performAll_append {front back : List StoreOp} :
    s.performAll (front ++ back) = (s.performAll front).bind (·.performAll back) :=
  List.foldlM_append

/-- Recovery finds the records of the store after a crash at any point of the history exactly when
every delete is of a record that was created since the checkpoint, with an index-only entry. -/
theorem existence_restored_iff {g : Geometry} (hg : g.alignment ∣ dataRegionOffset) {id : Nat}
    {appendOnly : Bool} {pre tail : List StoreOp} {b : SlotAllocator}
    (hpre : (Store.empty g id appendOnly).performAll pre = some s)
    (hb : s.trace.allocator.restart = .ok b) (htail : s.checkpointed.performAll tail = some t) :
    (∀ front back s', tail = front ++ back → s.checkpointed.performAll front = some s' →
      ExistenceRestored b s.index s') ↔ DeletesIndexOnly s.checkpointed tail := by
  have hs : s.WellFormed := (Store.wellFormed_empty hg id appendOnly).performAll hpre
  constructor
  · intro h front
    -- the deletes before this one are already known to be of index-only creates
    induction hn : front.length using Nat.strong_induction_on generalizing front with
    | _ n ih =>
      rintro key back s' rfl hs'
      by_contra hform
      have htracked : Tracked s.checkpointed front s' := by
        refine tracked_of_deletesIndexOnly hs' ?_
        rintro front₁ key₁ back₁ s₁ rfl hs₁
        refine ih front₁.length ?_ front₁ rfl key₁ (back₁ ++ .delete key :: back) s₁ (by simp) hs₁
        rw [← hn, List.length_append, List.length_cons]
        omega
      rw [Store.performAll_append, hs', Option.bind_some] at htail
      obtain ⟨s'', hdel, -⟩ := Option.bind_eq_some_iff.mp htail
      refine htracked.not_existenceRestored hs hb hdel hform (h (front ++ [.delete key]) back s''
        (by simp) ?_)
      rw [Store.performAll_append, hs', Option.bind_some]
      exact Option.bind_eq_some_iff.mpr ⟨s'', hdel, rfl⟩
  · rintro h front back s' rfl hs'
    refine (tracked_of_deletesIndexOnly hs' ?_).existenceRestored hs hb
    rintro front₁ key back₁ s₁ rfl hs₁
    exact h front₁ key (back₁ ++ back) s₁ (by simp) hs₁

def smallItem (byte : UInt8) (form : CreateForm) : CreateItem where
  key := ⟨.replicate 32 byte⟩
  utxoCount := 1
  coldSize := 0
  form := form
  size_lt := by decide

def smallStore : Store := .empty System.smallDevice 0 false

/-- A record from before the checkpoint stays, one from after it comes and goes. -/
theorem existence_restored_passing : ∃ s t b,
    smallStore.performAll [.create (smallItem 1 .embedded)] = some s ∧
      s.trace.allocator.restart = .ok b ∧
      s.checkpointed.performAll
        [.create (smallItem 2 .indexOnly), .delete (smallItem 2 .indexOnly).key] = some t ∧
      ExistenceRestored b s.index t := by
  obtain ⟨s, t, b, hs, hb, ht⟩ : ∃ s t b,
      smallStore.performAll [.create (smallItem 1 .embedded)] = some s ∧
        s.trace.allocator.restart = .ok b ∧
        s.checkpointed.performAll
          [.create (smallItem 2 .indexOnly), .delete (smallItem 2 .indexOnly).key] = some t :=
    ⟨_, _, _, rfl, rfl, rfl⟩
  refine ⟨s, t, b, hs, hb, ht,
    (existence_restored_iff (by decide) hs hb ht).mpr ?_ _ [] t (by simp) ht⟩
  intro front key back s' hsplit hs'
  have hwell : s.checkpointed.trace.Inv :=
    ((Store.wellFormed_empty (g := System.smallDevice) (by decide) 0 false).performAll hs).inv
  match front, hsplit with
  | [.create _], rfl =>
    obtain ⟨u, hu, hlast⟩ := Option.bind_eq_some_iff.mp hs'
    obtain rfl := Option.some.inj hlast
    obtain ⟨-, offset, trace, -, -, -, -, rfl⟩ := Store.create_eq hwell hu
    exact latestForm_created_self ..
  | _ :: _ :: front, hsplit => simp at hsplit

/-- The delete of a record from before the checkpoint makes recovery fail: the index still has the
record, its region is free, and its header does not read. -/
theorem deleted_snapshot_record_fails_recovery : ∃ s t b,
    smallStore.performAll [.create (smallItem 1 .embedded)] = some s ∧
      s.trace.allocator.restart = .ok b ∧
      s.checkpointed.performAll [.delete (smallItem 1 .embedded).key] = some t ∧
      recoverAll b s.index t.device t.tail = none ∧ ¬ ExistenceRestored b s.index t := by
  refine ⟨_, _, _, rfl, rfl, rfl, rfl, ?_⟩
  rintro ⟨r, hr, -⟩
  cases hr

end TeraSlab.Recovery
