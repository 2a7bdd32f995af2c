import TeraSlab.Index.HashTableSteps

/-!
# The hash table as a map

Along a run of calls, the table answers every lookup with the last entry that was inserted for the
key and not removed since, and a call that reports a full table changes no other answer, as long as
three things do not happen: a new key displaces buckets of a full table; an entry that is inserted
if absent is there, but further from its home than one step past the capped distance; a removal
moves an entry that is just at the capped distance from its home.

Each of them can happen. Seventeen keys in sixteen buckets do the first: the insertion that reports
the full table has displaced buckets before, and drops what it then has in hand.
-/

namespace TeraSlab.Index.HashTable

open Foundations RobinHood

inductive Call where
  | insert (key : TxKey) (entry : TxIndexEntry)
  | insertIfAbsent (key : TxKey) (entry : TxIndexEntry)
  | remove (key : TxKey)
  | resize (newCapacity : Nat)

inductive Answer where
  | inserted (old : Option TxIndexEntry)
  | added (fresh : Bool)
  | removed (old : Option TxIndexEntry)
  | resized

def Call.key? : Call → Option TxKey
  | .insert key _ => some key
  | .insertIfAbsent key _ => some key
  | .remove key => some key
  | .resize _ => none

def call (fuel : Nat) (t : HashTable) : Call → Option (HashTable × Except HashTableError Answer)
  | .insert key entry => (t.insert fuel key entry).map fun (t, r) => (t, r.map .inserted)
  | .insertIfAbsent key entry =>
    (t.insertIfAbsent fuel key entry).map fun (t, r) => (t, r.map .added)
  | .remove key => some ((t.remove key).1, .ok (.removed (t.remove key).2))
  | .resize newCapacity =>
    (t.resize fuel newCapacity).map fun (t, r) => (t, r.map fun _ => .resized)

def Returns (t : HashTable) (c : Call) (t' : HashTable) (r : Except HashTableError Answer) : Prop :=
  ∃ fuel, t.call fuel c = some (t', r)

abbrev History := List (Call × Except HashTableError Answer)

/-- The tables that calls lead to, each made where a condition holds. -/
inductive Reached (guard : HashTable → Call → Prop) (t₀ : HashTable) : History → HashTable → Prop
  | start : Reached guard t₀ [] t₀
  | call {h : History} {t t' : HashTable} {c : Call} {r : Except HashTableError Answer} :
      Reached guard t₀ h t → guard t c → t.Returns c t' r → Reached guard t₀ ((c, r) :: h) t'

/-- The last entry that was inserted for the key and not removed since. A call that reported an
error does not count. -/
def expected : History → TxKey → Option TxIndexEntry
  | [], _ => none
  | (_, .error _) :: h, key => expected h key
  | (.insert k entry, .ok _) :: h, key => if key = k then some entry else expected h key
  | (.insertIfAbsent k entry, .ok _) :: h, key =>
    if key = k then some ((expected h key).getD entry) else expected h key
  | (.remove k, .ok _) :: h, key => if key = k then none else expected h key
  | (.resize _, .ok _) :: h, key => expected h key

/-- A new key finds an empty bucket, or displaces none. -/
def Fits (t : HashTable) (key : TxKey) : Prop :=
  t.find key = none → t.HasRoom ∨ t.NoneGivesWay key

def Permits (t : HashTable) : Call → Prop
  | .insert key _ => t.Fits key
  | .insertIfAbsent key _ => t.Fits key ∧ ∀ found ∈ t.find key, found.2 ≤ maxStoredProbe + 1
  | .remove key => ∀ found ∈ t.find key, t.MovesNoneAtCap found.1
  | .resize _ => True

variable {t t' : HashTable} {fuel : Nat} {c : Call} {r : Except HashTableError Answer}

/-! ### What a call does -/

theorem call_mono {fuel' : Nat} {x : HashTable × Except HashTableError Answer} (hle : fuel ≤ fuel')
    (hrun : t.call fuel c = some x) : t.call fuel' c = some x := by
  cases c with
  | insert key entry =>
    obtain ⟨y, hy, rfl⟩ := Option.map_eq_some_iff.mp hrun
    simp [call, insert_mono hle hy]
  | insertIfAbsent key entry =>
    obtain ⟨y, hy, rfl⟩ := Option.map_eq_some_iff.mp hrun
    have hy' : t.insertIfAbsent fuel' key entry = some y := insertIfAbsentLoop_mono hle hy
    simp [call, hy']
  | remove key => exact hrun
  | resize newCapacity =>
    obtain ⟨y, hy, rfl⟩ := Option.map_eq_some_iff.mp hrun
    simp [call, resize_mono hle hy]

theorem Returns.unique {t'' : HashTable} {r' : Except HashTableError Answer}
    (h : t.Returns c t' r) (h' : t.Returns c t'' r') : t' = t'' ∧ r = r' := by
  obtain ⟨fuel, hrun⟩ := h
  obtain ⟨fuel', hrun'⟩ := h'
  have hsame := (call_mono (le_max_left fuel fuel') hrun).symm.trans
    (call_mono (le_max_right fuel fuel') hrun')
  exact Prod.mk.inj (Option.some.inj hsame)

def Effect (t t' : HashTable) : Call → Except HashTableError Answer → Prop
  | _, .error _ => t' = t
  | .insert key entry, .ok _ => ∀ q e, t'.Stores q e ↔
      (t.Stores q e ∧ q ≠ key.txidLo) ∨ (q = key.txidLo ∧ e = entry)
  | .insertIfAbsent key entry, .ok _ => ∀ q e, t'.Stores q e ↔
      t.Stores q e ∨ (q = key.txidLo ∧ e = entry ∧ ∀ e', ¬ t.Stores q e')
  | .remove key, .ok _ => ∀ q e, t'.Stores q e ↔ t.Stores q e ∧ q ≠ key.txidLo
  | .resize _, .ok _ => ∀ q e, t'.Stores q e ↔ t.Stores q e

/-- A permitted call returns, and has its effect. -/
theorem Reads.exists_returns {s : Nat} (h : t.Reads s) (hperm : t.Permits c) :
    ∃ t' r, t.Returns c t' r ∧ (∃ s, t'.Reads s) ∧ t.Effect t' c r := by
  cases c with
  | insert key entry =>
    match hfind : t.find key with
    | some (idx, dist) =>
      obtain ⟨t', hrun, hsets⟩ := h.insert_present hfind entry
      exact ⟨t', .ok (.inserted (some (t.bucket idx).entry)), ⟨0, by rw [call, hrun]; rfl⟩,
        hsets.reads, hsets.stores⟩
    | none =>
      by_cases hroom : t.HasRoom
      · obtain ⟨t', hrun, hadds⟩ := h.insert_new hfind hroom le_rfl entry
        exact ⟨t', .ok (.inserted none), ⟨_, by rw [call, hrun]; rfl⟩, hadds.reads,
          (hadds.sets (h.find_eq_none.mp hfind)).stores⟩
      · have hrun := insert_full hfind hroom ((hperm hfind).resolve_left hroom) le_rfl entry
        exact ⟨t, .error _, ⟨_, by rw [call, hrun]; rfl⟩, ⟨s, h⟩, rfl⟩
  | insertIfAbsent key entry =>
    match hfind : t.find key with
    | some (idx, dist) =>
      have hrun := h.insertIfAbsent_present hfind (hperm.2 _ hfind) le_rfl entry
      refine ⟨t, .ok (.added false), ⟨_, by rw [call, hrun]; rfl⟩, ⟨s, h⟩, fun q e => ?_⟩
      constructor
      · exact .inl
      rintro (hold | ⟨rfl, -, hnone⟩)
      · exact hold
      · exact absurd (stores_of_find hfind) (hnone _)
    | none =>
      by_cases hroom : t.HasRoom
      · obtain ⟨t', hrun, hadds⟩ := h.insertIfAbsent_new hfind hroom le_rfl entry
        refine ⟨t', .ok (.added true), ⟨_, by rw [call, hrun]; rfl⟩, hadds.reads, fun q e => ?_⟩
        rw [hadds.stores]
        constructor
        · rintro (hold | ⟨rfl, rfl⟩)
          · exact .inl hold
          · exact .inr ⟨rfl, rfl, h.find_eq_none.mp hfind⟩
        · rintro (hold | ⟨hq, he, -⟩)
          · exact .inl hold
          · exact .inr ⟨hq, he⟩
      · have hrun := h.insertIfAbsent_full hfind hroom
          ((hperm.1 hfind).resolve_left hroom) le_rfl entry
        exact ⟨t, .error _, ⟨_, by rw [call, hrun]; rfl⟩, ⟨s, h⟩, rfl⟩
  | remove key =>
    refine ⟨(t.remove key).1, .ok (.removed (t.remove key).2), ⟨0, rfl⟩, ?_⟩
    match hfind : t.find key with
    | some (idx, dist) =>
      obtain ⟨-, -, hreads, hstores⟩ := h.remove hfind (hperm _ hfind)
      exact ⟨⟨s, hreads⟩, hstores⟩
    | none =>
      have hsame : (t.remove key).1 = t := by rw [HashTable.remove, hfind]
      refine ⟨⟨s, hsame.symm ▸ h⟩, fun q e => ?_⟩
      rw [hsame]
      refine ⟨fun hq => ⟨hq, ?_⟩, And.left⟩
      rintro rfl
      exact h.find_eq_none.mp hfind e hq
  | resize newCapacity =>
    obtain ⟨t', hrun, hreads, hstores⟩ := h.resize newCapacity le_rfl
    exact ⟨t', .ok .resized, ⟨_, by rw [call, hrun]; rfl⟩, hreads, hstores⟩

/-! ### Runs -/

structure Mirrors (keys : Set TxKey) (h : History) (t : HashTable) : Prop where
  reads : ∃ s, t.Reads s
  stores : ∀ key ∈ keys, ∀ e, t.Stores key.txidLo e ↔ expected h key = some e

variable {keys : Set TxKey} {h : History} {t₀ : HashTable}

theorem Mirrors.getEntry (hm : Mirrors keys h t) {key : TxKey} (hkey : key ∈ keys) :
    t.getEntry key = expected h key := by
  obtain ⟨s, hs⟩ := hm.reads
  ext e
  rw [hs.getEntry_eq_some, hm.stores key hkey]

def Call.Within (keys : Set TxKey) (c : Call) : Prop := ∀ key ∈ c.key?, key ∈ keys

theorem Mirrors.effect (hm : Mirrors keys h t) (hkeys : keys.InjOn TxKey.txidLo)
    (hin : c.Within keys) (hreads : ∃ s, t'.Reads s) (heff : t.Effect t' c r) :
    Mirrors keys ((c, r) :: h) t' := by
  refine ⟨hreads, fun key hkey e => ?_⟩
  have hold := hm.stores key hkey e
  have hsame {k : TxKey} (hk : k ∈ keys) : key.txidLo = k.txidLo ↔ key = k :=
    ⟨fun heq => hkeys hkey hk heq, fun heq => heq ▸ rfl⟩
  cases r with
  | error err =>
    have hsame : t' = t := by cases c <;> exact heff
    rw [hsame, hold]
    cases c <;> rfl
  | ok answer =>
    cases c with
    | insert k entry =>
      rw [heff, hold, ne_eq, hsame (hin k rfl)]
      by_cases hk : key = k <;> simp [expected, hk, eq_comm]
    | insertIfAbsent k entry =>
      rw [heff, hold, hsame (hin k rfl)]
      by_cases hk : key = k
      · have hnone : (∀ e', ¬ t.Stores key.txidLo e') ↔ expected h key = none := by
          simp only [hm.stores key hkey]
          exact Option.eq_none_iff_forall_ne_some.symm
        rw [hnone]
        cases hexp : expected h key with
        | none => simp [expected, hk, hk ▸ hexp, eq_comm]
        | some e' => simp [expected, hk, hk ▸ hexp]
      · simp [expected, hk]
    | remove k =>
      rw [heff, hold, ne_eq, hsame (hin k rfl)]
      by_cases hk : key = k <;> simp [expected, hk]
    | resize newCapacity =>
      rw [heff, hold]
      rfl

theorem mirrors_new (keys : Set TxKey) (hash : UInt64 → UInt64) (initialCapacity : Nat) :
    Mirrors keys [] (new hash initialCapacity) where
  reads := ⟨0, reads_new hash initialCapacity⟩
  stores := by
    intro key _ e
    simp [not_stores_new, expected]

theorem Reached.mirrors (hkeys : keys.InjOn TxKey.txidLo) (hstart : Mirrors keys [] t₀)
    (hrun : Reached (fun t c => c.Within keys ∧ t.Permits c) t₀ h t) : Mirrors keys h t := by
  induction hrun with
  | start => exact hstart
  | call _ hguard hreturns ih =>
    obtain ⟨s, hs⟩ := ih.reads
    obtain ⟨t'', r', hreturns', hreads, heff⟩ := hs.exists_returns hguard.2
    obtain ⟨rfl, rfl⟩ := hreturns.unique hreturns'
    exact ih.effect hkeys hguard.1 hreads heff

/-- When the call reports a full table, every other key keeps its answer. -/
def FullHarmless (keys : Set TxKey) (t : HashTable) (c : Call) : Prop :=
  ∀ t' e, t.Returns c t' (.error e) →
    ∀ key ∈ keys, key ∉ c.key? → t'.getEntry key = t.getEntry key

/-- Along every run of permitted calls about keys that the table can tell apart, every lookup is
answered as expected, and the next permitted call returns and is harmless if it reports a full
table. -/
theorem refinesMap_of_permitted (hash : UInt64 → UInt64) (initialCapacity : Nat)
    (keys : Set TxKey) (hkeys : keys.InjOn TxKey.txidLo) (h : History) (t : HashTable)
    (hrun : Reached (fun t c => c.Within keys ∧ t.Permits c) (new hash initialCapacity) h t) :
    (∀ key ∈ keys, t.getEntry key = expected h key) ∧
      ∀ c : Call, c.Within keys → t.Permits c →
        (∃ t' r, t.Returns c t' r) ∧ FullHarmless keys t c := by
  have hm := hrun.mirrors hkeys (mirrors_new keys hash initialCapacity)
  refine ⟨fun key hkey => hm.getEntry hkey, fun c hin hperm => ?_⟩
  obtain ⟨s, hs⟩ := hm.reads
  obtain ⟨t', r, hreturns, hreads, heff⟩ := hs.exists_returns hperm
  refine ⟨⟨t', r, hreturns⟩, fun t'' e hfull key hkey hne => ?_⟩
  obtain ⟨rfl, rfl⟩ := hfull.unique hreturns
  have hsame : t'' = t := by cases c <;> exact heff
  rw [hsame]

/-- The key whose id starts with a byte, and is zero behind it. -/
def byteKey (b : UInt8) : TxKey := ⟨.ofFn fun j : Fin 32 => if j.val = 0 then b else 0⟩

theorem injOn_byteKey : (Set.range byteKey).InjOn TxKey.txidLo := by
  rintro _ ⟨b, rfl⟩ _ ⟨b', rfl⟩ hsame
  have hfirst := congrArg (fun v : StoredTxid => v[0]) hsame
  have hb : b = b' := by simpa [TxKey.txidLo, byteKey] using hfirst
  rw [hb]

def byteEntry (b : UInt8) : TxIndexEntry :=
  ⟨0, 8 * b.toNat, 0, Dvd.intro _ rfl, by have := b.toNat_lt; omega⟩

theorem insert_within (b : UInt8) (entry : TxIndexEntry) :
    (Call.insert (byteKey b) entry).Within (Set.range byteKey) :=
  fun _ hkey => ⟨b, Option.some.inj hkey⟩

/-- The keys are inserted in turn, each into a table that passes the check. -/
def insertBytes (check : HashTable → Bool) : HashTable → List UInt8 → Option HashTable
  | t, [] => some t
  | t, b :: bs =>
    if check t then (t.insert 1000 (byteKey b) (byteEntry b)).bind fun x => insertBytes check x.1 bs
    else none

theorem Reached.insertBytes {guard : HashTable → Call → Prop} {check : HashTable → Bool}
    {bs : List UInt8} (hguard : ∀ t b, check t = true →
      guard t (.insert (byteKey b) (byteEntry b)))
    (hrun : Reached guard t₀ h t) (hall : insertBytes check t bs = some t') :
    ∃ h', h'.length = h.length + bs.length ∧ Reached guard t₀ h' t' := by
  induction bs generalizing t h with
  | nil =>
    obtain rfl := Option.some.inj hall
    exact ⟨h, rfl, hrun⟩
  | cons b bs ih =>
    unfold HashTable.insertBytes at hall
    split_ifs at hall with hcheck
    obtain ⟨⟨t₁, r⟩, hinsert, hrest⟩ := Option.bind_eq_some_iff.mp hall
    obtain ⟨h', hlength, hrun'⟩ := ih (hrun.call (hguard t b hcheck)
      ⟨1000, by rw [HashTable.call, hinsert]; rfl⟩) hrest
    exact ⟨h', by rw [hlength, List.length_cons, List.length_cons]; omega, hrun'⟩

instance : DecidablePred HasRoom := fun t =>
  inferInstanceAs (Decidable (∃ j < t.capacity, (t.bucket j).isEmpty = true))

/-- The third key displaces the second. When the first is removed, the two move back by one. -/
theorem refinesMap_insert_remove :
    ∃ h t, Reached (fun t c => c.Within (Set.range byteKey) ∧ t.Permits c)
        (new (seededHash 0) 16) h t ∧ h.length = 4 ∧
      [4, 7, 1].map (fun b => t.find (byteKey b)) = [none, some (4, 0), some (5, 0)] ∧
      ∀ key ∈ Set.range byteKey, t.getEntry key = expected h key := by
  have hrun : (insertBytes (decide <| HasRoom ·) (new (seededHash 0) 16) [4, 1, 7]).map (fun t =>
      (t.capacity, [4, 7, 1].map fun b =>
        (t.find (byteKey b), (t.remove (byteKey 4)).1.find (byteKey b)))) =
      some (16, [(some (4, 0), none), (some (5, 1), some (4, 0)), (some (6, 1), some (5, 0))]) := by
    decide +kernel
  obtain ⟨t, hall, hfound⟩ := Option.map_eq_some_iff.mp hrun
  simp only [List.map_cons, List.map_nil, Prod.mk.injEq, List.cons.injEq, and_true] at hfound
  obtain ⟨hcap, ⟨-, h₄⟩, ⟨-, h₇⟩, -, h₁⟩ := hfound
  obtain ⟨h, hlength, hreached⟩ : ∃ h, h.length = 0 + 3 ∧
      Reached (fun t c => c.Within (Set.range byteKey) ∧ t.Permits c) (new (seededHash 0) 16) h t :=
    Reached.insertBytes
      (fun t b hroom => ⟨insert_within b _, fun _ => .inl (of_decide_eq_true hroom)⟩) .start hall
  have hpermits : t.Permits (.remove (byteKey 4)) := by
    intro found _ i _ _ _
    have hlt : t.distanceAt ((found.1 + i) % t.capacity) < t.capacity :=
      offset_lt t.capacity_pos
    have hmax : 16 < maxStoredProbe := by decide
    omega
  have hlast := hreached.call (c := .remove (byteKey 4))
    ⟨fun _ hkey => ⟨4, Option.some.inj hkey⟩, hpermits⟩ ⟨0, rfl⟩
  exact ⟨_, _, hlast, by simp [hlength], by simp [h₄, h₇, h₁],
    (refinesMap_of_permitted (seededHash 0) 16 (Set.range byteKey) injOn_byteKey _ _ hlast).1⟩

/-- What is known of a key after some insertions, and whether one more reports a full table. -/
def insertBytesThen (bs : List UInt8) (b : UInt8) (key : TxKey) :
    Option (Option TxIndexEntry × Bool × Option TxIndexEntry) :=
  (insertBytes (fun _ => true) (new (seededHash 0) 16) bs).bind fun t =>
    (t.insert 1000 (byteKey b) (byteEntry b)).map fun (t', r) =>
      (t.getEntry key, r.toBool, t'.getEntry key)

/-- Sixteen keys fill a table. The insertion of a seventeenth reports that it is full, and the
sixteenth is gone. -/
theorem full_drops_key :
    (Set.range byteKey).InjOn TxKey.txidLo ∧
      ¬ ∀ h t, Reached (fun _ c => c.Within (Set.range byteKey)) (new (seededHash 0) 16) h t →
        ∀ c : Call, c.Within (Set.range byteKey) → FullHarmless (Set.range byteKey) t c := by
  refine ⟨injOn_byteKey, fun hall => ?_⟩
  have hthen : insertBytesThen [1, 2, 3, 4, 5, 6, 7, 8, 9, 10, 11, 12, 13, 14, 15, 16] 17
      (byteKey 16) = some (some (byteEntry 16), false, none) := by decide +kernel
  obtain ⟨t, hfill, hlast⟩ := Option.bind_eq_some_iff.mp hthen
  obtain ⟨⟨t', r⟩, hinsert, hanswer⟩ := Option.map_eq_some_iff.mp hlast
  obtain ⟨hbefore, hreport, hafter⟩ := by simpa only [Prod.mk.injEq] using hanswer
  obtain ⟨h, -, hrun⟩ := Reached.insertBytes (fun _ b _ => insert_within b _) .start hfill
  match r with
  | .ok old => simp [Except.toBool] at hreport
  | .error e =>
    have hkeep := hall h t hrun (.insert (byteKey 17) (byteEntry 17)) (insert_within 17 _) t' e
      ⟨1000, by rw [call, hinsert]; rfl⟩ (byteKey 16) ⟨16, rfl⟩
      (by
        intro hmem
        have hsame : byteKey 17 = byteKey 16 := Option.some.inj hmem
        exact absurd hsame (by decide))
    rw [hbefore, hafter] at hkeep
    exact absurd hkeep (by simp)

end TeraSlab.Index.HashTable
