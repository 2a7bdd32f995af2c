import TeraSlab.Index.HashTableRows

/-!
# What the hash table's operations do

An insertion of a new key into a table with an empty bucket adds the key. A removal takes a key out
if it moves no entry from just the capped distance. A larger table takes over what a table has.
-/

namespace TeraSlab.Index.HashTable

open Foundations RobinHood

structure Adds (t t' : HashTable) (p : StoredTxid) (entry : TxIndexEntry) : Prop where
  capacity : t'.capacity = t.capacity
  hash : t'.hash = t.hash
  reads : ∃ s, t'.Reads s
  stores : ∀ q e, t'.Stores q e ↔ t.Stores q e ∨ (q = p ∧ e = entry)

variable {t : HashTable} {idx s a i e fuel : Nat} {key : TxKey} {entry : TxIndexEntry} {c : Carry}

/-! ### Insertion -/

variable {b : Bucket} {c' : Carry}

theorem exchange_of_lt (hb : t.bucket idx = b) (hempty : b.isEmpty = false)
    (hlt : b.probeDistance < c.dist) :
    t.exchange idx c = (t.setBucket idx (.setEntry c.key c.entry (capProbe c.dist)),
      ⟨b.storedKey, b.entry, b.probeDistance⟩) := by
  simp [exchange, hb, Bucket.isOccupied_eq, hempty, hlt]

theorem exchange_of_le (hb : t.bucket idx = b) (hle : c.dist ≤ b.probeDistance) :
    t.exchange idx c = (t, c) := by
  simp [exchange, hb, Nat.not_lt.mpr hle]

theorem insertLoop_of_empty (hempty : (t.bucket idx).isEmpty) :
    insertLoop (fuel + 1) t idx c = some (t.occupy idx c, .ok ()) := by
  rw [insertLoop, if_pos hempty]

theorem insertLoop_of_exchange {t' : HashTable} (hempty : (t.bucket idx).isEmpty = false)
    (hex : t.exchange idx c = (t', c')) (hdist : c'.dist + 1 < t'.capacity) :
    insertLoop (fuel + 1) t idx c =
      insertLoop fuel t' (t'.next idx) { c' with dist := c'.dist + 1 } := by
  rw [insertLoop, if_neg (by simp [hempty]), hex]
  simp [Nat.not_le.mpr hdist]

theorem row_setEntry (hs : s < t.capacity) (ha : a < t.capacity) (c : Carry) :
    (t.setBucket ((s + a) % t.capacity) (.setEntry c.key c.entry (capProbe c.dist))).row s =
      put maxStoredProbe (t.row s) a c.key.txidLo c.entry c.dist := by
  rw [row_setBucket hs ha, Bucket.cell_setEntry]
  rfl

/-- What is in hand is added to the table if there is an empty bucket further on. -/
theorem Reads.insertLoop_adds (h : t.Reads s)
    (hcar : Carried t.capacity maxStoredProbe (t.homeFrom s) (t.row s) c.key.txidLo i c.dist)
    (hie : i ≤ e) (he : e < t.capacity) (hempty : t.row s e = none) (hfuel : e - i < fuel) :
    ∃ t', insertLoop fuel t ((s + i) % t.capacity) c = some (t', .ok ()) ∧
      t.Adds t' c.key.txidLo c.entry := by
  induction fuel generalizing t i c with
  | zero => omega
  | succ fuel ih =>
    have hi : i < t.capacity := hie.trans_lt he
    match hb : t.row s i with
    | none =>
      -- The bucket takes what is in hand.
      have hfree : (t.bucket ((s + i) % t.capacity)).isEmpty := by
        rwa [row_of_lt hi, Bucket.cell_eq_none] at hb
      have hrow : (t.occupy ((s + i) % t.capacity) c).row s =
          put maxStoredProbe (t.row s) i c.key.txidLo c.entry c.dist := row_setEntry h.lt hi c
      have hreads : (t.occupy ((s + i) % t.capacity) c).Reads s :=
        ⟨h.lt, hrow ▸ h.ordered.put hcar hi (by simp [hb])⟩
      refine ⟨_, insertLoop_of_empty hfree, rfl, rfl, ⟨s, hreads⟩, fun q e => ?_⟩
      rw [hreads.stores, hrow, h.stores]
      exact holds_put_empty hi hb
    | some d =>
      obtain ⟨hfull, rfl⟩ := bucket_of_mem_row hi hb
      have hne : e ≠ i := by
        rintro rfl
        rw [hb] at hempty
        exact absurd hempty (by simp)
      by_cases hlt : (t.bucket ((s + i) % t.capacity)).probeDistance < c.dist
      · -- The bucket is nearer to its home, and goes on in place of what was in hand.
        have hrow := row_setEntry h.lt hi c
        have hreads : (t.setBucket ((s + i) % t.capacity)
            (.setEntry c.key c.entry (capProbe c.dist))).Reads s :=
          ⟨h.lt, hrow ▸ h.ordered.put hcar hi fun b hb' => by
            rw [Option.mem_unique hb' hb]
            exact hlt.le⟩
        have hnext := hcar.displaced h.ordered (v := c.entry) hi hb hlt
        have hdist : (t.bucket ((s + i) % t.capacity)).probeDistance + 1 < t.capacity := by
          have hle := hnext.le
          dsimp only at hle
          omega
        rw [insertLoop_of_exchange hfull (exchange_of_lt rfl hfull hlt) hdist]
        obtain ⟨t', hrun, hadds⟩ := ih hreads (i := i + 1)
          (c := ⟨(t.bucket ((s + i) % t.capacity)).storedKey, _, _⟩)
          (by rw [hrow, Bucket.txidLo_storedKey]; exact hnext) (by omega) he
          (by rw [hrow, put_of_ne hne]; exact hempty) (by omega)
        refine ⟨t', t.next_add_mod s i ▸ hrun, hadds.capacity, hadds.hash, hadds.reads,
          fun q e => ?_⟩
        rw [hadds.stores, hreads.stores, hrow, h.stores, Bucket.txidLo_storedKey]
        exact holds_exchange hi hb
      · have hle : c.dist ≤ (t.bucket ((s + i) % t.capacity)).probeDistance := by omega
        have hnext := hcar.skip hb hle
        have hdist : c.dist + 1 < t.capacity := by
          have hle := hnext.le
          omega
        rw [insertLoop_of_exchange hfull (exchange_of_le rfl hle) hdist, next_add_mod]
        exact ih (c := { c with dist := c.dist + 1 }) h hnext (by omega) he hempty (by omega)

def HasRoom (t : HashTable) : Prop := ∃ j < t.capacity, (t.bucket j).isEmpty

theorem occupied_of_full (hfull : ¬ t.HasRoom) (hidx : idx < t.capacity) :
    (t.bucket idx).isEmpty = false := by
  by_contra hempty
  exact hfull ⟨idx, hidx, by simpa using hempty⟩

/-- The occupied buckets have distinct ids. -/
theorem Reads.bucket_inj (h : t.Reads s) {j : Nat} (hidx : idx < t.capacity) (hj : j < t.capacity)
    (hocc : (t.bucket idx).isEmpty = false) (hocc' : (t.bucket j).isEmpty = false)
    (hkey : (t.bucket idx).txidLo = (t.bucket j).txidLo) : idx = j := by
  have hoff := h.ordered.inj _ (offset_lt t.capacity_pos) _ (offset_lt t.capacity_pos) _
    (h.mem_row_offset hidx hocc) _ (h.mem_row_offset hj hocc') hkey
  rw [← add_offset_mod h.lt.le hidx, hoff, add_offset_mod h.lt.le hj]

/-- A table with an empty bucket may be read so that its last position is empty. -/
theorem Reads.exists_last_empty (h : t.Reads s) (hroom : t.HasRoom) :
    ∃ r, t.Reads r ∧ t.row r (t.capacity - 1) = none := by
  obtain ⟨j, hj, hempty⟩ := hroom
  have hpos := t.capacity_pos
  have hoff : offset t.capacity s j < t.capacity := offset_lt hpos
  have hat : (s + offset t.capacity s j) % t.capacity = j := add_offset_mod h.lt.le hj
  have hnone : t.row s (offset t.capacity s j) = none := by
    rw [row_of_lt hoff, hat, Bucket.cell_eq_none]
    exact hempty
  refine ⟨_, h.behind hoff hnone, ?_⟩
  have hsum : s + (offset t.capacity s j + 1) + (t.capacity - 1) =
      s + offset t.capacity s j + t.capacity := by omega
  rw [row_of_lt (by omega), Nat.mod_add_mod, hsum, Nat.add_mod_right, hat, Bucket.cell_eq_none]
  exact hempty

/-- A new key is added to a table with an empty bucket. -/
theorem Reads.insertLoop_new (h : t.Reads s) (habsent : ∀ e, ¬ t.Stores key.txidLo e)
    (hroom : t.HasRoom) (hfuel : t.capacity ≤ fuel) :
    ∃ t', insertLoop fuel t (t.bucketIndex key) ⟨key, entry, 0⟩ = some (t', .ok ()) ∧
      t.Adds t' key.txidLo entry := by
  obtain ⟨r, hr, hlast⟩ := h.exists_last_empty hroom
  have hhome : t.homeFrom r key.txidLo < t.capacity := offset_lt t.capacity_pos
  have hcar : Carried t.capacity maxStoredProbe (t.homeFrom r) (t.row r) key.txidLo
      (t.homeFrom r key.txidLo) 0 :=
    .start fun a ha c hc hkey => habsent c.value (hr.stores.mpr ⟨a, ha, c, hc, hkey, rfl⟩)
  rw [bucketIndex_eq, ← add_homeFrom hr.lt]
  exact hr.insertLoop_adds (c := ⟨key, entry, 0⟩) hcar (by omega) (by omega) hlast (by omega)

def NoneGivesWay (t : HashTable) (key : TxKey) : Prop :=
  ∀ j < t.capacity, j ≤ (t.bucket ((t.bucketIndex key + j) % t.capacity)).probeDistance

/-- A full table in which no bucket gives way is left as it is. -/
theorem insertLoop_full (hfull : ¬ t.HasRoom) (hnone : t.NoneGivesWay key)
    (hfuel : t.capacity ≤ fuel) :
    insertLoop fuel t (t.bucketIndex key) ⟨key, entry, 0⟩ =
      some (t, .error (.full t.count t.capacity)) := by
  suffices hwalk : ∀ {left j : Nat}, j < t.capacity → t.capacity - j ≤ left →
      insertLoop left t ((t.bucketIndex key + j) % t.capacity) ⟨key, entry, j⟩ =
        some (t, .error (.full t.count t.capacity)) by
    have hstart := hwalk t.capacity_pos (by omega : t.capacity - 0 ≤ fuel)
    rwa [Nat.add_zero, Nat.mod_eq_of_lt (t.bucketIndex_lt key)] at hstart
  intro left
  induction left with
  | zero =>
    intro j hj hleft
    omega
  | succ left ih =>
    intro j hj hleft
    have hocc := occupied_of_full hfull (Nat.mod_lt (t.bucketIndex key + j) t.capacity_pos)
    have hex : t.exchange ((t.bucketIndex key + j) % t.capacity) ⟨key, entry, j⟩ = _ :=
      exchange_of_le rfl (hnone j hj)
    by_cases hend : j + 1 < t.capacity
    · rw [insertLoop_of_exchange hocc hex hend, next_add_mod]
      exact ih hend (by omega)
    · rw [insertLoop, if_neg (by simp [hocc]), hex]
      simp [Nat.not_lt.mp hend]

/-- An insertion into a full table of 256 buckets or more never returns: a bucket gives way before
the count of steps comes up to the capacity. -/
theorem insertLoop_never_returns (hcap : maxStoredProbe + 1 < t.capacity)
    (hocc : ∀ j < t.capacity, (t.bucket j).isEmpty = false)
    (hprobe : ∀ j < t.capacity, (t.bucket j).probeDistance ≤ maxStoredProbe)
    (hidx : idx < t.capacity) (hdist : c.dist ≤ maxStoredProbe + 1) :
    insertLoop fuel t idx c = none := by
  induction fuel generalizing t idx c with
  | zero => rfl
  | succ fuel ih =>
    have hnext : t.next idx < t.capacity := t.next_eq idx ▸ Nat.mod_lt _ t.capacity_pos
    have hle := hprobe idx hidx
    by_cases hlt : (t.bucket idx).probeDistance < c.dist
    · rw [insertLoop_of_exchange (hocc idx hidx) (exchange_of_lt rfl (hocc idx hidx) hlt)
        (by dsimp only [setBucket]; omega)]
      refine ih hcap (fun j hj => ?_) (fun j hj => ?_) hnext (by dsimp only; omega) <;>
        rw [bucket_setBucket hidx] <;> split_ifs
      · exact (Bucket.mem_cell.mp (Bucket.cell_setEntry c.key c.entry c.dist)).1
      · exact hocc j hj
      · exact min_le_right ..
      · exact hprobe j hj
    · rw [insertLoop_of_exchange (hocc idx hidx) (exchange_of_le rfl (by omega)) (by omega)]
      exact ih hcap hocc hprobe hnext (by dsimp only; omega)

variable {r : HashTable × Except HashTableError Unit} {fuel' : Nat} {may : Bool} {bs : List Bucket}

section

variable (hle : fuel ≤ fuel')
include hle

/-- More fuel does not change a result. -/
theorem insertLoop_mono (hrun : insertLoop fuel t idx c = some r) :
    insertLoop fuel' t idx c = some r := by
  induction fuel generalizing t idx c fuel' with
  | zero => simp [insertLoop] at hrun
  | succ fuel ih =>
    obtain ⟨fuel', rfl⟩ : ∃ k, fuel' = k + 1 := ⟨fuel' - 1, by omega⟩
    rw [insertLoop] at hrun ⊢
    dsimp only at hrun ⊢
    split_ifs at hrun ⊢ with hempty hend
    · exact hrun
    · exact hrun
    · exact ih (by omega) hrun

theorem insert_mono {r : HashTable × Except HashTableError (Option TxIndexEntry)}
    (hrun : t.insert fuel key entry = some r) : t.insert fuel' key entry = some r := by
  unfold insert at hrun ⊢
  split at hrun
  · exact hrun
  obtain ⟨r', hloop, hr⟩ := Option.map_eq_some_iff.mp hrun
  rw [insertLoop_mono hle hloop]
  exact congrArg some hr

theorem copyEntriesInto_mono (hrun : copyEntriesInto fuel bs t = some r) :
    copyEntriesInto fuel' bs t = some r := by
  induction bs generalizing t with
  | nil => exact hrun
  | cons b bs ih =>
    unfold copyEntriesInto at hrun ⊢
    split_ifs at hrun ⊢ with hocc
    · match hins : t.insert fuel b.storedKey b.entry with
      | none => simp [hins] at hrun
      | some (t', .error e) =>
        rw [insert_mono hle hins]
        simpa [hins] using hrun
      | some (t', .ok old) =>
        rw [insert_mono hle hins]
        rw [hins] at hrun
        exact ih hrun
    · exact ih hrun

theorem resize_mono {newCapacity : Nat} (hrun : t.resize fuel newCapacity = some r) :
    t.resize fuel' newCapacity = some r := by
  unfold resize at hrun ⊢
  split_ifs at hrun ⊢ with hsmall
  · exact hrun
  match hcopy : copyEntriesInto fuel t.buckets (new t.hash (tableCapacity newCapacity)) with
  | none => simp [hcopy] at hrun
  | some copied =>
    rw [copyEntriesInto_mono hle hcopy]
    rwa [hcopy] at hrun

/-! ### Insertion of an absent key -/

theorem insertIfAbsentLoop_mono {r : HashTable × Except HashTableError Bool}
    (hrun : insertIfAbsentLoop key fuel t idx c may = some r) :
    insertIfAbsentLoop key fuel' t idx c may = some r := by
  induction fuel generalizing t idx c may fuel' with
  | zero => simp [insertIfAbsentLoop] at hrun
  | succ fuel ih =>
    obtain ⟨fuel', rfl⟩ : ∃ k, fuel' = k + 1 := ⟨fuel' - 1, by omega⟩
    rw [insertIfAbsentLoop] at hrun ⊢
    dsimp only at hrun ⊢
    split_ifs at hrun ⊢ with hempty hfound hend
    · exact hrun
    · exact hrun
    · exact hrun
    · exact ih (by omega) hrun

end


/-- The insertion goes on over a bucket that does not have the key. It looks for the key as long as
no bucket has given way. -/
theorem insertIfAbsentLoop_of_exchange {t' : HashTable} (hempty : (t.bucket idx).isEmpty = false)
    (hmatch : (may && (t.bucket idx).keyMatches key) = false) (hex : t.exchange idx c = (t', c')) :
    insertIfAbsentLoop key (fuel + 1) t idx c may =
      if t'.capacity ≤ c'.dist + 1 then some (t', .error (.full t'.count t'.capacity))
      else insertIfAbsentLoop key fuel t' (t'.next idx) { c' with dist := c'.dist + 1 }
        (may && !decide ((t.bucket idx).probeDistance < c.dist)) := by
  rw [insertIfAbsentLoop]
  simp only [hempty, hex, Bucket.isOccupied_eq, Bool.false_eq_true, if_false, Bool.not_false,
    Bool.and_true, Bool.true_and]
  have hskip : (may && !(decide ((t.bucket idx).probeDistance < maxStoredProbe) &&
      decide ((t.bucket idx).probeDistance < c.dist)) && (t.bucket idx).keyMatches key) =
      false := by
    rw [Bool.and_right_comm, hmatch, Bool.false_and]
  have hmay : (may && !(decide ((t.bucket idx).probeDistance < maxStoredProbe) &&
      decide ((t.bucket idx).probeDistance < c.dist)) &&
      !decide ((t.bucket idx).probeDistance < c.dist)) =
      (may && !decide ((t.bucket idx).probeDistance < c.dist)) := by
    cases decide ((t.bucket idx).probeDistance < c.dist) <;> simp
  simp only [hskip, hmay, Bool.false_eq_true, if_false]

/-- For a key that the table does not have, the two insertions are the same. -/
theorem insertIfAbsentLoop_eq (hidx : idx < t.capacity)
    (habsent : may → ∀ e, ¬ t.Stores key.txidLo e) : insertIfAbsentLoop key fuel t idx c may =
      (insertLoop fuel t idx c).map fun (t, r) => (t, r.map fun _ => true) := by
  induction fuel generalizing t idx c may with
  | zero => rfl
  | succ fuel ih =>
    have hnext {t : HashTable} : t.next idx < t.capacity :=
      t.next_eq idx ▸ Nat.mod_lt _ t.capacity_pos
    by_cases hempty : (t.bucket idx).isEmpty
    · rw [insertLoop_of_empty hempty, insertIfAbsentLoop]
      simp [hempty]
      rfl
    · have hocc : (t.bucket idx).isEmpty = false := by simpa using hempty
      have hmatch : (may && (t.bucket idx).keyMatches key) = false := by
        by_contra hboth
        rw [Bool.not_eq_false, Bool.and_eq_true] at hboth
        exact habsent hboth.1 _ ⟨idx, hidx, _, Bucket.cell_of_isEmpty_eq_false hocc,
          of_decide_eq_true hboth.2, rfl⟩
      obtain ⟨⟨t', c'⟩, hex⟩ : ∃ p, t.exchange idx c = p := ⟨_, rfl⟩
      rw [insertIfAbsentLoop_of_exchange hocc hmatch hex, insertLoop, if_neg hempty, hex]
      dsimp only
      split_ifs with hend
      · rfl
      · -- where the key may still be ahead, nothing was exchanged
        refine ih hnext fun hmay => ?_
        obtain ⟨hmay, hle⟩ : may = true ∧ c.dist ≤ (t.bucket idx).probeDistance := by
          simpa using hmay
        cases hex.symm.trans (exchange_of_le rfl hle)
        exact habsent hmay

theorem insertIfAbsentLoop_hit (hb : t.bucket idx = b) (hempty : b.isEmpty = false)
    (hle : min c.dist maxStoredProbe ≤ b.probeDistance) (heq : b.txidLo = key.txidLo) :
    insertIfAbsentLoop key (fuel + 1) t idx c true = some (t, .ok false) := by
  have hruled : (decide (b.probeDistance < maxStoredProbe) && decide (b.probeDistance < c.dist)) =
      false := by
    simp only [Bool.and_eq_false_iff, decide_eq_false_iff_not]
    omega
  have hmatch : b.keyMatches key = true := decide_eq_true heq
  rw [insertIfAbsentLoop]
  simp [hb, hempty, Bucket.isOccupied_eq, hruled, hmatch]

variable {d : Cell StoredTxid TxIndexEntry} {dist : Nat}

/-- A key that is at most one step further than the cap from its home is found. -/
theorem Reads.insertIfAbsentLoop_present (h : t.Reads s)
    (ha : a < t.capacity) (hd : d ∈ t.row s a) (hkey : d.key = key.txidLo)
    (hnear : a - t.homeFrom s d.key ≤ maxStoredProbe + 1) (hhome : t.homeFrom s d.key ≤ i)
    (hi : i ≤ a) (hfuel : a - i < fuel) :
    insertIfAbsentLoop key fuel t ((s + i) % t.capacity)
      ⟨key, entry, i - t.homeFrom s d.key⟩ true = some (t, .ok false) := by
  induction fuel generalizing i with
  | zero => omega
  | succ fuel ih =>
    rcases Nat.eq_or_lt_of_le hi with rfl | hlt
    · obtain ⟨hocc, hcell⟩ := bucket_of_mem_row ha hd
      have hprobe := h.ordered.probe i ha d hd
      rw [hcell] at hkey hprobe
      rw [hcell]
      exact insertIfAbsentLoop_hit rfl hocc hprobe.ge hkey
    · obtain ⟨b, hb, hocc, hne, hle⟩ := h.on_path ha hd hlt hhome
      have hpass : i - t.homeFrom s d.key ≤ b.probeDistance := by omega
      have hmatch : (true && (t.bucket ((s + i) % t.capacity)).keyMatches key) = false := by
        rw [hb, Bool.true_and]
        exact decide_eq_false (hkey ▸ hne)
      have hex : t.exchange ((s + i) % t.capacity) ⟨key, entry, i - t.homeFrom s d.key⟩ = _ :=
        exchange_of_le hb hpass
      rw [insertIfAbsentLoop_of_exchange (by rw [hb]; exact hocc) hmatch hex,
        if_neg (by dsimp only; omega), next_add_mod, hb]
      dsimp only
      rw [decide_eq_false (by omega), ← Nat.sub_add_comm hhome]
      exact ih (by omega) hlt (by omega)

/-! ### Calls of the insertions -/

structure Sets (t t' : HashTable) (p : StoredTxid) (entry : TxIndexEntry) : Prop where
  reads : ∃ s, t'.Reads s
  stores : ∀ q e, t'.Stores q e ↔ (t.Stores q e ∧ q ≠ p) ∨ (q = p ∧ e = entry)

theorem Adds.sets {t' : HashTable} {p : StoredTxid} (h : t.Adds t' p entry)
    (habsent : ∀ e, ¬ t.Stores p e) : t.Sets t' p entry where
  reads := h.reads
  stores := by
    intro q e
    have hne : t.Stores q e → q ≠ p := by
      rintro hq rfl
      exact habsent e hq
    rw [h.stores]
    tauto

/-- A key that the table has gets the new entry. -/
theorem Reads.insert_present (h : t.Reads s) (hfind : t.find key = some (idx, dist))
    (entry : TxIndexEntry) :
    ∃ t', (∀ fuel, t.insert fuel key entry = some (t', .ok (some (t.bucket idx).entry))) ∧
      t.Sets t' key.txidLo entry := by
  obtain ⟨hkey, a, hoff, hat, hmem, hpos⟩ := h.found hfind
  have hrow := row_setEntry h.lt hoff ⟨key, entry, dist⟩
  rw [hat] at hrow
  have hprobe : min dist maxStoredProbe = (t.bucket idx).probeDistance :=
    hpos ▸ (h.ordered.probe a hoff _ hmem).symm
  have hreads : (t.setBucket idx (.setEntry key entry (capProbe dist))).Reads s :=
    ⟨h.lt, hrow ▸ hkey ▸ h.ordered.reput hoff hmem hprobe⟩
  refine ⟨_, fun fuel => by rw [insert, hfind], ⟨s, hreads⟩, fun q e => ?_⟩
  rw [hreads.stores, hrow, h.stores, ← hkey]
  exact h.ordered.holds_reput hoff hmem

theorem Reads.insert_new (h : t.Reads s) (hfind : t.find key = none) (hroom : t.HasRoom)
    (hfuel : t.capacity ≤ fuel) (entry : TxIndexEntry) :
    ∃ t', t.insert fuel key entry = some (t', .ok none) ∧ t.Adds t' key.txidLo entry := by
  obtain ⟨t', hrun, hadds⟩ := h.insertLoop_new (h.find_eq_none.mp hfind) hroom hfuel
  exact ⟨t', by rw [insert, hfind, hrun]; rfl, hadds⟩

theorem insert_full (hfind : t.find key = none) (hfull : ¬ t.HasRoom) (hnone : t.NoneGivesWay key)
    (hfuel : t.capacity ≤ fuel) (entry : TxIndexEntry) :
    t.insert fuel key entry = some (t, .error (.full t.count t.capacity)) := by
  rw [insert, hfind, insertLoop_full hfull hnone hfuel]
  rfl

theorem Reads.insertIfAbsent_new (h : t.Reads s) (hfind : t.find key = none) (hroom : t.HasRoom)
    (hfuel : t.capacity ≤ fuel) (entry : TxIndexEntry) :
    ∃ t', t.insertIfAbsent fuel key entry = some (t', .ok true) ∧ t.Adds t' key.txidLo entry := by
  have habsent := h.find_eq_none.mp hfind
  obtain ⟨t', hrun, hadds⟩ := h.insertLoop_new habsent hroom hfuel
  refine ⟨t', ?_, hadds⟩
  rw [insertIfAbsent, insertIfAbsentLoop_eq (t.bucketIndex_lt key) fun _ => habsent, hrun]
  rfl

theorem Reads.insertIfAbsent_full (h : t.Reads s) (hfind : t.find key = none) (hfull : ¬ t.HasRoom)
    (hnone : t.NoneGivesWay key) (hfuel : t.capacity ≤ fuel) (entry : TxIndexEntry) :
    t.insertIfAbsent fuel key entry = some (t, .error (.full t.count t.capacity)) := by
  rw [insertIfAbsent,
    insertIfAbsentLoop_eq (t.bucketIndex_lt key) fun _ => h.find_eq_none.mp hfind,
    insertLoop_full hfull hnone hfuel]
  rfl

theorem Reads.insertIfAbsent_present (h : t.Reads s) (hfind : t.find key = some (idx, dist))
    (hnear : dist ≤ maxStoredProbe + 1) (hfuel : t.capacity ≤ fuel) (entry : TxIndexEntry) :
    t.insertIfAbsent fuel key entry = some (t, .ok false) := by
  obtain ⟨hkey, a, hoff, hat, hmem, hpos⟩ := h.found hfind
  have hle := h.ordered.home_le _ hoff _ hmem
  have hwalk : insertIfAbsentLoop key fuel t
      ((s + t.homeFrom s (t.bucket idx).txidLo) % t.capacity) ⟨key, entry,
        t.homeFrom s (t.bucket idx).txidLo - t.homeFrom s (t.bucket idx).txidLo⟩ true =
      some (t, .ok false) := by
    apply h.insertIfAbsentLoop_present hoff hmem hkey <;> dsimp only at hpos hle ⊢ <;> omega
  rw [insertIfAbsent, bucketIndex_eq, ← hkey, ← add_homeFrom h.lt]
  rwa [Nat.sub_self] at hwalk

/-! ### Removal -/

def Moves (b : Bucket) : Prop := b.isEmpty = false ∧ b.probeDistance ≠ 0

def distanceAt (t : HashTable) (p : Nat) : Nat :=
  offset t.capacity (t.home (t.bucket p).txidLo) p

/-- Of the buckets that are moved when a bucket is freed, none is just at the capped distance. -/
def MovesNoneAtCap (t : HashTable) (idx : Nat) : Prop :=
  ∀ i < t.capacity, 0 < i → (∀ j ≤ i, 0 < j → Moves (t.bucket ((idx + j) % t.capacity))) →
    t.distanceAt ((idx + i) % t.capacity) ≠ maxStoredProbe

theorem Reads.distanceAt_eq (h : t.Reads s)
    (ha : a < t.capacity) (hd : d ∈ t.row s a) :
    t.distanceAt ((s + a) % t.capacity) = a - t.homeFrom s d.key := by
  obtain ⟨-, hcell⟩ := bucket_of_mem_row ha hd
  have hle := h.ordered.home_le a ha d hd
  have hat := add_homeFrom h.lt d.key
  rw [hcell] at hle hat ⊢
  have hlt := t.home_lt (t.bucket ((s + a) % t.capacity)).txidLo
  apply add_mod_inj hlt.le (offset_lt t.capacity_pos) (by omega)
  rw [add_offset_mod hlt.le (Nat.mod_lt _ t.capacity_pos), ← hat, Nat.mod_add_mod, Nat.add_assoc,
    Nat.add_sub_cancel' hle]

/-- The bucket ends a shift: it is empty, or at its home. -/
theorem stops_iff :
    (b.isEmpty || (b.isOccupied && decide (b.probeDistance = 0))) = true ↔
      ∀ d ∈ b.cell, d.probe = 0 := by
  rw [Bucket.isOccupied_eq]
  cases hempty : b.isEmpty with
  | true => simp [Bucket.cell, hempty]
  | false => simp [Bucket.cell, hempty]

variable {row : Row StoredTxid TxIndexEntry} {home : StoredTxid → Nat}

/-- The first position of an ordered row ends a shift that comes round to it. -/
theorem probe_first {n cap : Nat} (h : Ordered n cap home row) (hcap : 1 < cap) (hn : 0 < n)
    (hai : a + i + 1 = n) (hrun : ∀ x, a < x → x ≤ a + i → ∃ d ∈ row x, d.probe ≠ 0)
    (hd : d ∈ sliding cap row a i 0) : d.probe = 0 := by
  by_cases hin : a = 0 ∧ 0 < i
  · -- The cell was at the second position, and moved home.
    obtain ⟨rfl, hi⟩ := hin
    obtain ⟨d', hd', hne⟩ := hrun 1 (by omega) (by omega)
    have hprobe := h.probe 1 (by omega) d' hd'
    have hmoved : sliding cap row 0 i 0 = (row 1).map (.nearer cap) := if_pos (by omega)
    rw [hmoved, Option.mem_def, Option.map_eq_some_iff] at hd
    obtain ⟨d'', hd'', rfl⟩ := hd
    rw [Option.mem_unique hd'' hd']
    unfold Cell.nearer
    dsimp only
    split_ifs <;> omega
  · have hsame : sliding cap row a i 0 = row 0 := if_neg (by omega)
    rw [hsame] at hd
    have hprobe := h.probe 0 hn d hd
    omega

/-- Where a shift ends, and the row that it leaves. -/
theorem shiftLoop_row {steps : Nat} (h : Ordered t.capacity maxStoredProbe home row)
    (hs : s < t.capacity) (hrow : t.row s = sliding maxStoredProbe row a i)
    (hai : a + i < t.capacity) (hrun : ∀ x, a < x → x ≤ a + i → ∃ d ∈ row x, d.probe ≠ 0)
    (hsteps : t.capacity - (a + i) ≤ steps) :
    let out := shiftLoop steps t ((s + (a + i)) % t.capacity)
    ∃ m, a + m < t.capacity ∧ (∀ x, a < x → x ≤ a + m → ∃ d ∈ row x, d.probe ≠ 0) ∧
      (a + m + 1 < t.capacity → ∀ d ∈ row (a + m + 1), d.probe = 0) ∧
      out.capacity = t.capacity ∧ out.hash = t.hash ∧
      out.row s = shifted maxStoredProbe row a m := by
  dsimp only
  induction steps generalizing t i with
  | zero => omega
  | succ steps ih =>
    have hstop : (t.setBucket ((s + (a + i)) % t.capacity) .empty).row s =
        shifted maxStoredProbe row a i := by
      rw [row_setBucket hs hai, hrow, shifted_eq_update, Bucket.cell_empty]
    obtain ⟨b, hb⟩ : ∃ b, t.bucket (t.next ((s + (a + i)) % t.capacity)) = b := ⟨_, rfl⟩
    have hcell : b.cell = if a + i + 1 < t.capacity then row (a + i + 1)
        else sliding maxStoredProbe row a i 0 := by
      rw [← hb, next_add_mod]
      split_ifs with hlast
      · rw [← row_of_lt (t := t) hlast, hrow, sliding_of_le (by omega)]
      have hround : (s + (a + i + 1)) % t.capacity = (s + 0) % t.capacity := by
        have hsum : a + i + 1 = t.capacity := by omega
        rw [hsum, Nat.add_mod_right, Nat.add_zero]
      rw [hround, ← row_of_lt t.capacity_pos, hrow]
    rw [shiftLoop, hb]
    by_cases hend : ∀ d ∈ b.cell, d.probe = 0
    · rw [if_pos (stops_iff.mpr hend)]
      refine ⟨i, hai, hrun, fun hlast d hd => ?_, rfl, rfl, hstop⟩
      rw [hcell, if_pos hlast] at hend
      exact hend d hd
    · rw [if_neg (mt stops_iff.mp hend)]
      have hlast : a + i + 1 < t.capacity := by
        by_contra hlast
        rw [hcell, if_neg hlast] at hend
        exact hend fun d hd => probe_first h (by decide) t.capacity_pos (by omega) hrun hd
      rw [hcell, if_pos hlast] at hend
      push Not at hend
      have hnext : (t.setBucket ((s + (a + i)) % t.capacity) b.shiftedBack).row s =
          sliding maxStoredProbe row a (i + 1) := by
        rw [row_setBucket hs hai, hrow, sliding_succ, Bucket.cell_shiftedBack, hcell, if_pos hlast]
      have hrun' : ∀ x, a < x → x ≤ a + (i + 1) → ∃ d ∈ row x, d.probe ≠ 0 := by
        intro x hax hxi
        rcases Nat.eq_or_lt_of_le hxi with rfl | hlt
        · exact hend
        · exact hrun x hax (by omega)
      rw [next_add_mod]
      exact ih (t := t.setBucket _ _) h hs hnext hlast hrun'
        (by dsimp only [setBucket]; omega)

theorem Reads.remove (h : t.Reads s) (hfind : t.find key = some (idx, dist))
    (hcap : t.MovesNoneAtCap idx) :
    (t.remove key).1.capacity = t.capacity ∧ (t.remove key).1.hash = t.hash ∧
      (t.remove key).1.Reads s ∧
      ∀ q e, (t.remove key).1.Stores q e ↔ t.Stores q e ∧ q ≠ key.txidLo := by
  obtain ⟨hkey, a, hoff, hat, hmem, -⟩ := h.found hfind
  have hremove : (t.remove key).1 =
      shiftLoop t.capacity { t with count := t.count - 1 } ((s + (a + 0)) % t.capacity) := by
    rw [HashTable.remove, hfind, Nat.add_zero, hat]
  obtain ⟨m, hlt, hrun, hstop, hsame, hhash, hrow⟩ :=
    shiftLoop_row (t := { t with count := t.count - 1 }) (a := a) (i := 0) h.ordered h.lt
      sliding_zero.symm hoff (fun x hax hxa => absurd hxa (by omega))
      (Nat.sub_le t.capacity (a + 0))
  rw [← hremove] at hsame hhash hrow
  have hmov : Movable t.capacity maxStoredProbe (t.homeFrom s) (t.row s) a m := by
    refine ⟨hlt, fun x hax hxm => ?_, hstop⟩
    obtain ⟨d, hd, hne⟩ := hrun x hax hxm
    refine ⟨d, hd, hne, ?_⟩
    have hx : x < t.capacity := hxm.trans_lt hlt
    have hpos (j : Nat) : (idx + j) % t.capacity = (s + (a + j)) % t.capacity := by
      rw [← hat, Nat.mod_add_mod, Nat.add_assoc]
    have hdist := hcap (x - a) (by omega) (by omega) fun j hj hj0 => by
      obtain ⟨d', hd', hne'⟩ := hrun (a + j) (by omega) (by omega)
      obtain ⟨hocc, hcell⟩ := bucket_of_mem_row (by omega) hd'
      rw [hpos]
      exact ⟨hocc, by rw [hcell] at hne'; exact hne'⟩
    rwa [hpos, Nat.add_sub_cancel' hax.le, h.distanceAt_eq hx hd] at hdist
  have hreads : (t.remove key).1.Reads s := by
    have hord := h.ordered.shifted (by decide) hmov
    refine ⟨hsame ▸ h.lt, ?_⟩
    have hhome : (t.remove key).1.homeFrom s = t.homeFrom s := by
      unfold homeFrom HashTable.home
      rw [hsame, hhash]
    rw [hsame, hhome, hrow]
    exact hord
  refine ⟨hsame, hhash, hreads, fun q e => ?_⟩
  rw [hreads.stores, hsame, hrow, h.stores, h.ordered.holds_shifted hmov hmem, hkey]

/-! ### Resizing -/

theorem bucket_new (hash : UInt64 → UInt64) (cap i : Nat) : (new hash cap).bucket i = .empty := by
  unfold bucket new
  simp only [List.getD_eq_getElem?_getD, List.getElem?_replicate]
  split_ifs <;> rfl

theorem reads_new (hash : UInt64 → UInt64) (cap : Nat) : (new hash cap).Reads 0 where
  lt := (new hash cap).capacity_pos
  ordered := by
    have hrow : (new hash cap).row 0 = fun _ => none := by
      funext a
      unfold row rotate
      split_ifs with ha
      · rw [cells, bucket_new, Bucket.cell_empty]
      · rfl
    rw [hrow]
    exact ordered_empty

theorem not_stores_new {hash : UInt64 → UInt64} {cap : Nat} {p : StoredTxid} :
    ¬ (new hash cap).Stores p entry := by
  rintro ⟨a, -, c, hc, -⟩
  rw [cells, bucket_new, Bucket.cell_empty] at hc
  exact absurd hc (by simp)

theorem Reads.hasRoom (h : t.Reads s) {ids : Finset StoredTxid}
    (hids : ∀ p e, t.Stores p e → p ∈ ids) (hcard : ids.card < t.capacity) : t.HasRoom := by
  by_contra hfull
  have hle : (Finset.range t.capacity).card ≤ ids.card := by
    apply Finset.card_le_card_of_injOn fun j => (t.bucket j).txidLo
    · intro j hj
      have hj : j < t.capacity := by simpa using hj
      exact hids _ _ ⟨j, hj, _, Bucket.cell_of_isEmpty_eq_false (occupied_of_full hfull hj), rfl,
        rfl⟩
    · intro j hj j' hj' hkey
      have hj : j < t.capacity := by simpa using hj
      have hj' : j' < t.capacity := by simpa using hj'
      exact h.bucket_inj hj hj' (occupied_of_full hfull hj) (occupied_of_full hfull hj') hkey
  rw [Finset.card_range] at hle
  omega

/-- Buckets with distinct new ids are copied into a table that is large enough. -/
theorem Reads.copyEntriesInto (h : t.Reads s)
    (hdistinct : bs.Pairwise fun b b' =>
      b.isEmpty = false → b'.isEmpty = false → b.txidLo ≠ b'.txidLo)
    (ids : Finset StoredTxid) (hnew : ∀ b ∈ bs, b.isEmpty = false → ∀ e, ¬ t.Stores b.txidLo e)
    (hids : ∀ p e, t.Stores p e → p ∈ ids) (hcard : ids.card + bs.length < t.capacity)
    (hfuel : t.capacity ≤ fuel) :
    ∃ t', HashTable.copyEntriesInto fuel bs t = some (t', .ok ()) ∧ (∃ s, t'.Reads s) ∧
      ∀ q e, t'.Stores q e ↔
        t.Stores q e ∨ ∃ b ∈ bs, b.isEmpty = false ∧ b.txidLo = q ∧ b.entry = e := by
  induction bs generalizing t s ids with
  | nil => exact ⟨t, rfl, ⟨s, h⟩, by simp⟩
  | cons b bs ih =>
    have hdistinct' := (List.pairwise_cons.mp hdistinct).2
    have hnew' : ∀ b' ∈ bs, b'.isEmpty = false → ∀ e, ¬ t.Stores b'.txidLo e :=
      fun b' hb' => hnew b' (List.mem_cons_of_mem b hb')
    rw [List.length_cons] at hcard
    cases hb : b.isEmpty with
    | true =>
      have hskip : HashTable.copyEntriesInto fuel (b :: bs) t =
          HashTable.copyEntriesInto fuel bs t := by
        simp [HashTable.copyEntriesInto, Bucket.isOccupied_eq, hb]
      obtain ⟨t', hrun, hreads, hstores⟩ := ih h hdistinct' ids hnew' hids (by omega) hfuel
      refine ⟨t', hskip ▸ hrun, hreads, fun q e => ?_⟩
      rw [hstores, List.exists_mem_cons_iff]
      simp [hb]
    | false =>
      have habsent : ∀ e, ¬ t.Stores b.storedKey.txidLo e := by
        rw [Bucket.txidLo_storedKey]
        exact hnew b List.mem_cons_self hb
      obtain ⟨t₁, hstep, hadds⟩ := h.insert_new (h.find_eq_none.mpr habsent)
        (h.hasRoom hids (by omega)) hfuel b.entry
      have hstores₁ := hadds.stores
      rw [Bucket.txidLo_storedKey] at hstores₁
      obtain ⟨s₁, hreads₁⟩ := hadds.reads
      obtain ⟨t', hrun, hreads, hstores⟩ := ih hreads₁ hdistinct' (Insert.insert b.txidLo ids)
        (by
          intro b' hb' hocc e he
          rcases (hstores₁ _ e).mp he with hold | ⟨hkey, -⟩
          · exact hnew' b' hb' hocc e hold
          · exact (List.pairwise_cons.mp hdistinct).1 b' hb' hb hocc hkey.symm)
        (by
          intro p e he
          rcases (hstores₁ p e).mp he with hold | ⟨rfl, -⟩
          · exact Finset.mem_insert_of_mem (hids p e hold)
          · exact Finset.mem_insert_self ..)
        (by
          have := Finset.card_insert_le b.txidLo ids
          have := hadds.capacity
          omega)
        (hadds.capacity.trans_le hfuel)
      have hcopy : HashTable.copyEntriesInto fuel (b :: bs) t =
          HashTable.copyEntriesInto fuel bs t₁ := by
        simp [HashTable.copyEntriesInto, Bucket.isOccupied_eq, hb, hstep]
      refine ⟨t', hcopy ▸ hrun, hreads, fun q e => ?_⟩
      have hhead : (q = b.txidLo ∧ e = b.entry) ↔
          (b.isEmpty = false ∧ b.txidLo = q ∧ b.entry = e) :=
        ⟨fun ⟨hq, he⟩ => ⟨hb, hq.symm, he.symm⟩, fun ⟨_, hq, he⟩ => ⟨hq.symm, he.symm⟩⟩
      rw [hstores, hstores₁, List.exists_mem_cons_iff, or_assoc, hhead]

theorem Reads.resize (h : t.Reads s) (newCapacity : Nat)
    (hfuel : tableCapacity (tableCapacity newCapacity) ≤ fuel) :
    ∃ t', t.resize fuel newCapacity = some (t', .ok ()) ∧ (∃ s, t'.Reads s) ∧
      ∀ q e, t'.Stores q e ↔ t.Stores q e := by
  by_cases hle : tableCapacity newCapacity ≤ t.capacity
  · exact ⟨t, by rw [HashTable.resize, if_pos hle], ⟨s, h⟩, fun q e => Iff.rfl⟩
  have hget (i : Nat) (hi : i < t.buckets.length) : t.bucket i = t.buckets[i] := by
    simp [bucket, hi]
  have hdistinct : t.buckets.Pairwise fun b b' => b.isEmpty = false → b'.isEmpty = false →
      b.txidLo ≠ b'.txidLo := by
    rw [List.pairwise_iff_getElem]
    intro i j hi hj hij hocc hocc' hkey
    rw [← hget i hi] at hocc hkey
    rw [← hget j hj] at hocc' hkey
    rw [t.length_buckets] at hi hj
    have heq := h.bucket_inj hi hj hocc hocc' hkey
    omega
  have hcap := le_tableCapacity (tableCapacity newCapacity)
  obtain ⟨t', hrun, hreads, hstores⟩ := (reads_new t.hash
    (tableCapacity newCapacity)).copyEntriesInto hdistinct ∅
    (fun _ _ _ _ => not_stores_new) (fun _ _ he => absurd he not_stores_new)
    (by rw [Finset.card_empty, t.length_buckets]; dsimp only [new]; omega) hfuel
  refine ⟨t', by rw [HashTable.resize, if_neg hle, hrun], hreads, fun q e => ?_⟩
  rw [hstores]
  constructor
  · rintro (hold | ⟨b, hb, hocc, rfl, rfl⟩)
    · exact absurd hold not_stores_new
    obtain ⟨i, hi, rfl⟩ := List.getElem_of_mem hb
    rw [← hget i hi] at hocc ⊢
    exact ⟨i, t.length_buckets ▸ hi, _, Bucket.cell_of_isEmpty_eq_false hocc, rfl, rfl⟩
  · rintro ⟨i, hi, c, hc, rfl, rfl⟩
    obtain ⟨hocc, rfl⟩ := Bucket.mem_cell.mp hc
    have hi' : i < t.buckets.length := t.length_buckets.symm ▸ hi
    exact .inr ⟨t.bucket i, by rw [hget i hi']; exact List.getElem_mem hi', hocc, rfl, rfl⟩

end TeraSlab.Index.HashTable
