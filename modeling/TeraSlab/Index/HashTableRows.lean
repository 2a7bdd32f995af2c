import TeraSlab.Index.HashTable

/-!
# The hash table as a Robin Hood row

Read from a suitable bucket on, the buckets of a table are an ordered row, and the search finds a
key exactly when the row has it.
-/

namespace TeraSlab.Index

open Foundations RobinHood

/-- What the table knows of a key. -/
abbrev StoredTxid := Vector UInt8 storedTxidLen

namespace Bucket

variable (b : Bucket)

def cell : Option (Cell StoredTxid TxIndexEntry) :=
  if b.isEmpty then none else some ⟨b.txidLo, b.entry, b.probeDistance⟩

@[simp] theorem cell_empty : empty.cell = none := rfl

theorem isOccupied_eq : b.isOccupied = !b.isEmpty := by
  unfold isOccupied isEmpty
  by_cases h : b.probeDistance = bucketEmptySentinel <;> simp [h]

theorem cell_eq_none : b.cell = none ↔ b.isEmpty := by
  unfold cell
  split_ifs with h <;> simp [h]

variable {b}

theorem mem_cell {c : Cell StoredTxid TxIndexEntry} :
    c ∈ b.cell ↔ b.isEmpty = false ∧ c = ⟨b.txidLo, b.entry, b.probeDistance⟩ := by
  unfold cell
  split_ifs with h
  · simp [h]
  · simp [h, eq_comm]

theorem cell_of_isEmpty_eq_false (h : b.isEmpty = false) :
    ⟨b.txidLo, b.entry, b.probeDistance⟩ ∈ b.cell := mem_cell.mpr ⟨h, rfl⟩

@[simp] theorem txidLo_storedKey : b.storedKey.txidLo = b.txidLo := by
  simp [TxKey.txidLo, storedKey, Vector.getD]

theorem entry_setEntry (key : TxKey) (entry : TxIndexEntry) (d : Nat) :
    (setEntry key entry d).entry = entry := by
  obtain ⟨deviceId, off, minedSlot, hdvd, hlt⟩ := entry
  have hoff : decodeOffset (encodeOffset off) = off := by
    simp only [decodeOffset, encodeOffset, BitVec.toNat_ofNat, Nat.shiftLeft_eq,
      Nat.shiftRight_eq_div_pow]
    omega
  simp only [Bucket.entry, setEntry, hoff]

theorem cell_setEntry (key : TxKey) (entry : TxIndexEntry) (d : Nat) :
    (setEntry key entry (capProbe d)).cell =
      some ⟨key.txidLo, entry, min d maxStoredProbe⟩ := by
  have hne : (setEntry key entry (capProbe d)).isEmpty = false := by
    have hle : capProbe d ≤ 254 := min_le_right ..
    exact decide_eq_false (by unfold bucketEmptySentinel; dsimp only [setEntry]; omega)
  unfold cell
  rw [hne, entry_setEntry]
  rfl

theorem cell_shiftedBack : b.shiftedBack.cell = b.cell.map (.nearer maxStoredProbe) := by
  unfold shiftedBack
  split_ifs with h
  · have hold : b.isEmpty = false := by
      unfold maxStoredProbe at h
      simp [isEmpty]
      omega
    have hnew : isEmpty { b with probeDistance := b.probeDistance - 1 } = false := by
      unfold maxStoredProbe at h
      simp [isEmpty]
      omega
    unfold cell
    rw [hold, hnew]
    simp only [Bool.false_eq_true, if_false, Option.map_some, Cell.nearer, h, if_true]
    rfl
  · unfold cell
    split_ifs with hempty
    · rfl
    · simp [Cell.nearer, h]

end Bucket

namespace HashTable

variable {t : HashTable} {idx : Nat} {key : TxKey} {entry : TxIndexEntry}

section

variable (t) (idx)

theorem capacity_pos : 0 < t.capacity := by
  obtain ⟨k, hk⟩ := t.isPowerOfTwo
  rw [hk]
  exact Nat.two_pow_pos k

theorem and_mask (x : Nat) : x &&& t.mask = x % t.capacity := by
  obtain ⟨k, hk⟩ := t.isPowerOfTwo
  rw [mask, hk, Nat.and_two_pow_sub_one_eq_mod]

theorem next_eq : t.next idx = (idx + 1) % t.capacity :=
  t.and_mask (idx + 1)

theorem next_add_mod (s i : Nat) : t.next ((s + i) % t.capacity) = (s + (i + 1)) % t.capacity := by
  rw [next_eq, Nat.mod_add_mod, Nat.add_assoc]

end

@[simp] theorem bucket_setBucket (hidx : idx < t.capacity) (b : Bucket) (j : Nat) :
    (t.setBucket idx b).bucket j = if j = idx then b else t.bucket j := by
  have hlen : idx < t.buckets.length := t.length_buckets.symm ▸ hidx
  unfold bucket setBucket
  rw [List.getD_eq_getElem?_getD, List.getD_eq_getElem?_getD, List.getElem?_set]
  by_cases hj : j = idx
  · subst hj
    rw [if_pos rfl, if_pos hlen, if_pos rfl, Option.getD_some]
  · rw [if_neg (Ne.symm hj), if_neg hj]

/-- The bucket in which the search for a stored id starts. -/
def home (t : HashTable) (p : StoredTxid) : Nat :=
  (t.hash (.ofNat (fromLe (List.ofFn fun i : Fin 8 => p[i.val])))).toNat %
    t.capacity

theorem home_lt (t : HashTable) (p : StoredTxid) : t.home p < t.capacity :=
  Nat.mod_lt _ t.capacity_pos

theorem bucketIndex_eq (t : HashTable) (key : TxKey) : t.bucketIndex key = t.home key.txidLo := by
  have hbytes : (fun i : Fin 8 => key.txidLo[i.val]) = fun i : Fin 8 => key.txid[i.val] := by
    simp [TxKey.txidLo]
  rw [bucketIndex, and_mask, home, hbytes]
  rfl

def cells (t : HashTable) : Row StoredTxid TxIndexEntry := fun i => (t.bucket i).cell

def row (t : HashTable) (s : Nat) : Row StoredTxid TxIndexEntry := rotate t.capacity s t.cells

/-- The home of an id in the row from a bucket on. -/
def homeFrom (t : HashTable) (s : Nat) (p : StoredTxid) : Nat := offset t.capacity s (t.home p)

structure Reads (t : HashTable) (s : Nat) : Prop where
  lt : s < t.capacity
  ordered : Ordered t.capacity maxStoredProbe (t.homeFrom s) (t.row s)

def Stores (t : HashTable) (p : StoredTxid) (entry : TxIndexEntry) : Prop :=
  Holds t.capacity t.cells p entry

variable {s a i d : Nat} {p : StoredTxid}

theorem row_of_lt (ha : a < t.capacity) :
    t.row s a = (t.bucket ((s + a) % t.capacity)).cell := rotate_of_lt ha

theorem add_homeFrom (hs : s < t.capacity) (p : StoredTxid) :
    (s + t.homeFrom s p) % t.capacity = t.home p := add_offset_mod hs.le (t.home_lt p)

theorem Reads.stores (h : t.Reads s) :
    t.Stores p entry ↔ Holds t.capacity (t.row s) p entry := (holds_rotate h.lt.le).symm

/-- The table may be read from the bucket behind any empty one. -/
theorem Reads.behind (h : t.Reads s) (ha : a < t.capacity) (hempty : t.row s a = none) :
    t.Reads ((s + (a + 1)) % t.capacity) where
  lt := Nat.mod_lt _ t.capacity_pos
  ordered := by
    have hrot := h.ordered.rotate (fun _ => offset_lt t.capacity_pos) ha hempty
    have hhome : (fun p => offset t.capacity (a + 1) (t.homeFrom s p)) =
        t.homeFrom ((s + (a + 1)) % t.capacity) :=
      funext fun p => offset_offset h.lt.le ha (t.home_lt p)
    have hrow : rotate t.capacity (a + 1) (t.row s) = t.row ((s + (a + 1)) % t.capacity) :=
      rotate_rotate
    rwa [hhome, hrow] at hrot

theorem row_setBucket (hs : s < t.capacity) (ha : a < t.capacity) (b : Bucket) :
    (t.setBucket ((s + a) % t.capacity) b).row s = Function.update (t.row s) a b.cell := by
  have hmod : (s + a) % t.capacity < t.capacity := Nat.mod_lt _ t.capacity_pos
  funext j
  by_cases hj : j < t.capacity
  · have hcell : (t.setBucket ((s + a) % t.capacity) b).row s j =
        ((t.setBucket ((s + a) % t.capacity) b).bucket ((s + j) % t.capacity)).cell :=
      row_of_lt hj
    rw [hcell, bucket_setBucket hmod]
    by_cases hja : j = a
    · subst hja
      rw [if_pos rfl, Function.update_self]
    have hne : (s + j) % t.capacity ≠ (s + a) % t.capacity := fun heq =>
      hja (add_mod_inj hs.le hj ha heq)
    rw [if_neg hne, Function.update_of_ne hja, row_of_lt hj]
  · have hja : j ≠ a := by omega
    rw [Function.update_of_ne hja]
    exact (if_neg hj).trans (if_neg hj).symm

/-! ### The search -/

theorem findLoop_sound {left dist : Nat} (hidx : idx < t.capacity)
    (hfind : t.findLoop key left idx dist = some (i, d)) :
    i < t.capacity ∧ (t.bucket i).isEmpty = false ∧ (t.bucket i).txidLo = key.txidLo := by
  induction left generalizing idx dist with
  | zero => simp [findLoop] at hfind
  | succ left ih =>
    unfold findLoop at hfind
    dsimp only at hfind
    split_ifs at hfind with hempty hpast hmatch hend
    · obtain ⟨rfl, rfl⟩ := Prod.mk.inj (Option.some.inj hfind)
      rw [Bool.and_eq_true] at hmatch
      exact ⟨hidx, by simpa using hempty, of_decide_eq_true hmatch.2⟩
    · exact ih (t.next_eq idx ▸ Nat.mod_lt _ t.capacity_pos) hfind

theorem bucketIndex_lt (t : HashTable) (key : TxKey) : t.bucketIndex key < t.capacity :=
  t.bucketIndex_eq key ▸ t.home_lt _

variable {c : Cell StoredTxid TxIndexEntry}

theorem bucket_of_mem_row (ha : a < t.capacity) (hc : c ∈ t.row s a) :
    (t.bucket ((s + a) % t.capacity)).isEmpty = false ∧
      c = ⟨(t.bucket ((s + a) % t.capacity)).txidLo, (t.bucket ((s + a) % t.capacity)).entry,
        (t.bucket ((s + a) % t.capacity)).probeDistance⟩ := by
  rw [row_of_lt ha] at hc
  exact Bucket.mem_cell.mp hc

section

variable {left dist : Nat} {b : Bucket} (hb : t.bucket idx = b) (hempty : b.isEmpty = false)
    (hle : min dist maxStoredProbe ≤ b.probeDistance)
include hb hempty hle

/-- The search goes on over a bucket that is as far from its home as the count, or capped. -/
theorem findLoop_pass (hne : b.txidLo ≠ key.txidLo) (hdist : dist + 1 < t.capacity) :
    t.findLoop key (left + 1) idx dist = t.findLoop key left (t.next idx) (dist + 1) := by
  have hruled : ¬ (b.probeDistance < maxStoredProbe ∧ b.probeDistance < dist) := by omega
  rw [findLoop]
  simp only [hb, hempty, Bucket.keyMatches, hne, Bucket.isOccupied_eq]
  simp [hruled, Nat.not_le.mpr hdist]

theorem findLoop_hit
    (heq : b.txidLo = key.txidLo) : t.findLoop key (left + 1) idx dist = some (idx, dist) := by
  have hruled : ¬ (b.probeDistance < maxStoredProbe ∧ b.probeDistance < dist) := by omega
  rw [findLoop]
  simp only [hb, hempty, Bucket.keyMatches, heq, Bucket.isOccupied_eq]
  simp [hruled]

end

section

variable (h : t.Reads s) (ha : a < t.capacity) (hc : c ∈ t.row s a)
include h ha hc

/-- On the way from its home to its bucket, a key meets other keys that do not rule it out. -/
theorem Reads.on_path (hi : i < a) (hhome : t.homeFrom s c.key ≤ i) :
    ∃ b, t.bucket ((s + i) % t.capacity) = b ∧ b.isEmpty = false ∧ b.txidLo ≠ c.key ∧
      min (i - t.homeFrom s c.key) maxStoredProbe ≤ b.probeDistance := by
  obtain ⟨d, hd, hle⟩ := h.ordered.path a ha c hc i hi hhome
  obtain ⟨hempty, hcell⟩ := bucket_of_mem_row (hi.trans ha) hd
  refine ⟨_, rfl, hempty, fun hkey => ?_, by rw [hcell] at hle; exact hle⟩
  have := h.ordered.inj i (hi.trans ha) a ha d hd c hc (by rw [hcell]; exact hkey)
  omega

theorem Reads.findLoop_eq (hkey : c.key = key.txidLo) (left : Nat) (hhome : t.homeFrom s c.key ≤ i)
    (hi : i ≤ a) (hleft : a - i < left) :
    t.findLoop key left ((s + i) % t.capacity) (i - t.homeFrom s c.key) =
      some ((s + a) % t.capacity, a - t.homeFrom s c.key) := by
  induction left generalizing i with
  | zero => omega
  | succ left ih =>
    rcases Nat.eq_or_lt_of_le hi with rfl | hlt
    · obtain ⟨hempty, hcell⟩ := bucket_of_mem_row ha hc
      have hprobe := h.ordered.probe i ha c hc
      rw [hcell] at hkey hprobe
      rw [hcell]
      exact findLoop_hit rfl hempty hprobe.ge hkey
    · obtain ⟨b, hb, hempty, hne, hle⟩ := h.on_path ha hc hlt hhome
      rw [findLoop_pass hb hempty hle (hkey ▸ hne) (by omega), next_add_mod,
        ← Nat.sub_add_comm hhome]
      exact ih (by omega) hlt (by omega)

/-- The search finds a key that the table has, in its bucket. -/
theorem Reads.find_eq (hkey : c.key = key.txidLo) :
    t.find key = some ((s + a) % t.capacity, a - t.homeFrom s c.key) := by
  have hle := h.ordered.home_le a ha c hc
  have hloop := h.findLoop_eq ha hc hkey t.capacity le_rfl hle (by omega)
  rwa [add_homeFrom h.lt, Nat.sub_self, hkey, ← bucketIndex_eq, ← hkey] at hloop

end

theorem Reads.mem_row_offset (h : t.Reads s) {p : Nat} (hp : p < t.capacity)
    (hempty : (t.bucket p).isEmpty = false) :
    ⟨(t.bucket p).txidLo, (t.bucket p).entry, (t.bucket p).probeDistance⟩ ∈
      t.row s (offset t.capacity s p) := by
  rw [row_of_lt (offset_lt t.capacity_pos), add_offset_mod h.lt.le hp]
  exact Bucket.cell_of_isEmpty_eq_false hempty

theorem Reads.found (h : t.Reads s) (hfind : t.find key = some (i, d)) :
    (t.bucket i).txidLo = key.txidLo ∧ ∃ a < t.capacity, (s + a) % t.capacity = i ∧
      ⟨(t.bucket i).txidLo, (t.bucket i).entry, (t.bucket i).probeDistance⟩ ∈ t.row s a ∧
      d = a - t.homeFrom s (t.bucket i).txidLo := by
  obtain ⟨hi, hempty, hkey⟩ := findLoop_sound (t.bucketIndex_lt key) hfind
  have hoff : offset t.capacity s i < t.capacity := offset_lt t.capacity_pos
  have hmem := h.mem_row_offset hi hempty
  have hpos := h.find_eq hoff hmem hkey
  rw [hfind, Option.some.injEq, Prod.mk.injEq] at hpos
  exact ⟨hkey, _, hoff, add_offset_mod h.lt.le hi, hmem, hpos.2⟩

theorem stores_of_find (hfind : t.find key = some (i, d)) :
    t.Stores key.txidLo (t.bucket i).entry := by
  obtain ⟨hi, hempty, hkey⟩ := findLoop_sound (t.bucketIndex_lt key) hfind
  exact ⟨i, hi, _, Bucket.cell_of_isEmpty_eq_false hempty, hkey, rfl⟩

theorem Reads.find_eq_none (h : t.Reads s) :
    t.find key = none ↔ ∀ entry, ¬ t.Stores key.txidLo entry := by
  constructor
  · rintro hnone entry hstores
    obtain ⟨a, ha, c, hc, hkey, -⟩ := h.stores.mp hstores
    rw [h.find_eq ha hc hkey] at hnone
    exact absurd hnone (by simp)
  · intro hnot
    match hfind : t.find key with
    | none => rfl
    | some (i, d) => exact absurd (stores_of_find hfind) (hnot _)

theorem Reads.stores_unique (h : t.Reads s) {e e' : TxIndexEntry} (he : t.Stores p e)
    (he' : t.Stores p e') : e = e' := by
  obtain ⟨a, ha, c, hc, rfl, rfl⟩ := h.stores.mp he
  exact ((h.ordered.holds_cell ha hc).mp (h.stores.mp he')).symm

theorem Reads.getEntry_eq_some (h : t.Reads s) :
    t.getEntry key = some entry ↔ t.Stores key.txidLo entry := by
  unfold getEntry
  match hfind : t.find key with
  | none =>
    have hnot := h.find_eq_none.mp hfind entry
    simp [hnot]
  | some (i, d) =>
    have hstores := stores_of_find hfind
    constructor
    · rintro heq
      rw [← Option.some.inj heq]
      exact hstores
    · intro he
      rw [Option.map_some, h.stores_unique hstores he]

end HashTable

end TeraSlab.Index
