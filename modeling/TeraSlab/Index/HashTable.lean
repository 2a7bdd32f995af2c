import Mathlib.Data.Vector.Basic
import TeraSlab.Foundations.Bytes
import TeraSlab.Foundations.RobinHood
import TeraSlab.Index.MinedIndex

/-!
# The primary hash table

Open addressing with Robin Hood displacement and backward-shift deletion. A bucket keeps the first
12 bytes of a transaction id, the locator of the record and the distance from the key's home
bucket, stored up to 254; the value 255 marks an empty bucket.

The hash is any function of the first eight bytes of the id. An insertion ends at an empty bucket
or when its count of steps comes up to the capacity; since it takes over the stored distance of a
bucket that it displaces, the count may never get there. Insertions are therefore run with fuel,
and have no result when the fuel is used up.
-/

namespace TeraSlab.Index

open Foundations

/-- The locator of a record. Offsets are multiples of 8 below `2 ^ 51`. -/
structure TxIndexEntry where
  deviceId : UInt8
  recordOffset : Nat
  minedSlot : UInt32
  dvd_recordOffset : 8 ∣ recordOffset
  recordOffset_lt : recordOffset < 2 ^ 51
deriving DecidableEq

abbrev storedTxidLen : Nat := 12

def bucketEmptySentinel : Nat := 0xFF

def maxStoredProbe : Nat := bucketEmptySentinel - 1

def capProbe (dist : Nat) : Nat := min dist maxStoredProbe

structure Bucket where
  probeDistance : Nat
  txidLo : Vector UInt8 storedTxidLen
  deviceId : UInt8
  offsetDiv8 : BitVec 48
  minedSlot : UInt32

def encodeOffset (off : Nat) : BitVec 48 := .ofNat 48 (off >>> 3)

def decodeOffset (b : BitVec 48) : Nat := b.toNat <<< 3

/-- The part of the transaction id that a bucket stores. -/
def TxKey.txidLo (key : TxKey) : Vector UInt8 storedTxidLen :=
  .ofFn fun i : Fin storedTxidLen => key.txid[i.val]

namespace Bucket

variable (b : Bucket)

def empty : Bucket := ⟨bucketEmptySentinel, .replicate storedTxidLen 0, 0, 0, 0xFFFFFFFF⟩

def isEmpty : Bool := b.probeDistance = bucketEmptySentinel

def isOccupied : Bool := b.probeDistance ≠ bucketEmptySentinel

def keyMatches (key : TxKey) : Bool := b.txidLo = key.txidLo

def storedKey : TxKey := ⟨.ofFn fun i => b.txidLo.getD i 0⟩

def entry : TxIndexEntry where
  deviceId := b.deviceId
  recordOffset := decodeOffset b.offsetDiv8
  minedSlot := b.minedSlot
  dvd_recordOffset := by simp [decodeOffset, Nat.shiftLeft_eq]
  recordOffset_lt := by
    have := b.offsetDiv8.isLt
    rw [decodeOffset, Nat.shiftLeft_eq]
    omega

def setEntry (key : TxKey) (entry : TxIndexEntry) (probeDist : Nat) : Bucket :=
  ⟨probeDist, key.txidLo, entry.deviceId, encodeOffset entry.recordOffset, entry.minedSlot⟩

/-- The bucket moved one place back. A capped distance may still be too long to store. -/
def shiftedBack : Bucket :=
  if b.probeDistance < maxStoredProbe then { b with probeDistance := b.probeDistance - 1 } else b

end Bucket

def TxKey.hashInput (key : TxKey) : UInt64 :=
  .ofNat (fromLe (List.ofFn fun i : Fin 8 => key.txid[i.val]))

def splitmix64Finalize (x : UInt64) : UInt64 :=
  let x := (x ^^^ (x >>> 30)) * 0xbf58476d1ce4e5b9
  let x := (x ^^^ (x >>> 27)) * 0x94d049bb133111eb
  x ^^^ (x >>> 31)

def seededHash (seed h : UInt64) : UInt64 := splitmix64Finalize (h ^^^ seed)

inductive HashTableError where
  | full (count capacity : Nat)
deriving DecidableEq

structure HashTable where
  buckets : List Bucket
  capacity : Nat
  count : Nat
  maxProbe : Nat
  hash : UInt64 → UInt64
  length_buckets : buckets.length = capacity
  isPowerOfTwo : capacity.isPowerOfTwo

/-- What an insertion has in hand. -/
structure Carry where
  key : TxKey
  entry : TxIndexEntry
  dist : Nat

def nextPowerOfTwo (n : Nat) : Nat := if n ≤ 1 then 1 else 2 ^ ((n - 1).log2 + 1)

theorem le_nextPowerOfTwo (n : Nat) : n ≤ nextPowerOfTwo n := by
  unfold nextPowerOfTwo
  split_ifs with h
  · exact h
  · have hlt := Nat.lt_log2_self (n := n - 1)
    omega

def tableCapacity (requested : Nat) : Nat := max (nextPowerOfTwo requested) 16

theorem le_tableCapacity (requested : Nat) : requested ≤ tableCapacity requested :=
  (le_nextPowerOfTwo requested).trans (le_max_left ..)

theorem tableCapacity_isPowerOfTwo (requested : Nat) : (tableCapacity requested).isPowerOfTwo := by
  unfold tableCapacity
  rcases max_choice (nextPowerOfTwo requested) 16 with h | h <;> rw [h]
  · unfold nextPowerOfTwo
    split_ifs
    · exact ⟨0, rfl⟩
    · exact ⟨_, rfl⟩
  · exact ⟨4, rfl⟩

namespace HashTable

def new (hash : UInt64 → UInt64) (initialCapacity : Nat) : HashTable where
  buckets := .replicate (tableCapacity initialCapacity) .empty
  capacity := tableCapacity initialCapacity
  count := 0
  maxProbe := 0
  hash := hash
  length_buckets := List.length_replicate
  isPowerOfTwo := tableCapacity_isPowerOfTwo initialCapacity

variable (t : HashTable)

def mask : Nat := t.capacity - 1

def bucketIndex (key : TxKey) : Nat := (t.hash key.hashInput).toNat &&& t.mask

def bucket (idx : Nat) : Bucket := t.buckets.getD idx .empty

def setBucket (idx : Nat) (b : Bucket) : HashTable :=
  { t with
    buckets := t.buckets.set idx b
    length_buckets := by rw [List.length_set, t.length_buckets] }

def next (idx : Nat) : Nat := (idx + 1) &&& t.mask

def findLoop (key : TxKey) : Nat → Nat → Nat → Option (Nat × Nat)
  | 0, _, _ => none
  | left + 1, idx, dist =>
    let b := t.bucket idx
    if b.isEmpty then none
    -- A capped distance does not tell that the key is not further on.
    else if b.isOccupied && b.probeDistance < maxStoredProbe && b.probeDistance < dist then none
    else if b.isOccupied && b.keyMatches key then some (idx, dist)
    else if t.capacity ≤ dist + 1 then none
    else findLoop key left (t.next idx) (dist + 1)

def find (key : TxKey) : Option (Nat × Nat) := t.findLoop key t.capacity (t.bucketIndex key) 0

def getEntry (key : TxKey) : Option TxIndexEntry :=
  (t.find key).map fun found => (t.bucket found.1).entry

/-- Exchange what is in hand for a bucket that is nearer to its home. -/
def exchange (idx : Nat) (c : Carry) : HashTable × Carry :=
  let b := t.bucket idx
  if b.isOccupied && b.probeDistance < c.dist then
    (t.setBucket idx (.setEntry c.key c.entry (capProbe c.dist)),
      ⟨b.storedKey, b.entry, b.probeDistance⟩)
  else (t, c)

def occupy (idx : Nat) (c : Carry) : HashTable :=
  { t.setBucket idx (.setEntry c.key c.entry (capProbe c.dist)) with
    count := t.count + 1
    maxProbe := max t.maxProbe c.dist }

def insertLoop : Nat → HashTable → Nat → Carry → Option (HashTable × Except HashTableError Unit)
  | 0, _, _, _ => none
  | fuel + 1, t, idx, c =>
    if (t.bucket idx).isEmpty then some (t.occupy idx c, .ok ())
    else
      let (t, c) := t.exchange idx c
      if t.capacity ≤ c.dist + 1 then some (t, .error (.full t.count t.capacity))
      else insertLoop fuel t (t.next idx) { c with dist := c.dist + 1 }

def insert (fuel : Nat) (key : TxKey) (entry : TxIndexEntry) :
    Option (HashTable × Except HashTableError (Option TxIndexEntry)) :=
  match t.find key with
  | some (idx, dist) =>
    some (t.setBucket idx (.setEntry key entry (capProbe dist)), .ok (some (t.bucket idx).entry))
  | none =>
    (insertLoop fuel t (t.bucketIndex key) ⟨key, entry, 0⟩).map fun (t, r) =>
      (t, r.map fun _ => none)

/-- The insertion that looks for the key on its way, until it has displaced a bucket. -/
def insertIfAbsentLoop (key : TxKey) : Nat → HashTable → Nat → Carry → Bool →
    Option (HashTable × Except HashTableError Bool)
  | 0, _, _, _, _ => none
  | fuel + 1, t, idx, c, mayContainOriginal =>
    let b := t.bucket idx
    if b.isEmpty then some (t.occupy idx c, .ok true)
    else
      let ruledOut := b.probeDistance < maxStoredProbe && b.probeDistance < c.dist
      if mayContainOriginal && b.isOccupied && !ruledOut && b.keyMatches key then
        some (t, .ok false)
      else
        let mayContainOriginal := mayContainOriginal && !(b.isOccupied && ruledOut) &&
          !(b.isOccupied && b.probeDistance < c.dist)
        let (t, c) := t.exchange idx c
        if t.capacity ≤ c.dist + 1 then some (t, .error (.full t.count t.capacity))
        else insertIfAbsentLoop key fuel t (t.next idx) { c with dist := c.dist + 1 }
          mayContainOriginal

def insertIfAbsent (fuel : Nat) (key : TxKey) (entry : TxIndexEntry) :
    Option (HashTable × Except HashTableError Bool) :=
  insertIfAbsentLoop key fuel t (t.bucketIndex key) ⟨key, entry, 0⟩ true

def shiftLoop : Nat → HashTable → Nat → HashTable
  | 0, t, emptyIdx => t.setBucket emptyIdx .empty
  | steps + 1, t, emptyIdx =>
    let b := t.bucket (t.next emptyIdx)
    if b.isEmpty || (b.isOccupied && b.probeDistance = 0) then t.setBucket emptyIdx .empty
    else shiftLoop steps (t.setBucket emptyIdx b.shiftedBack) (t.next emptyIdx)

def remove (key : TxKey) : HashTable × Option TxIndexEntry :=
  match t.find key with
  | none => (t, none)
  | some (idx, _) =>
    (shiftLoop t.capacity { t with count := t.count - 1 } idx, some (t.bucket idx).entry)

def copyEntriesInto (fuel : Nat) : List Bucket → HashTable →
    Option (HashTable × Except HashTableError Unit)
  | [], t => some (t, .ok ())
  | b :: bs, t =>
    if b.isOccupied then
      match t.insert fuel b.storedKey b.entry with
      | none => none
      | some (t, .error e) => some (t, .error e)
      | some (t, .ok _) => copyEntriesInto fuel bs t
    else copyEntriesInto fuel bs t

/-- A larger table with the same entries takes the place of the table, unless it fails to fill. -/
def resize (fuel : Nat) (newCapacity : Nat) : Option (HashTable × Except HashTableError Unit) :=
  if tableCapacity newCapacity ≤ t.capacity then some (t, .ok ())
  else
    match copyEntriesInto fuel t.buckets (new t.hash (tableCapacity newCapacity)) with
    | none => none
    | some (_, .error e) => some (t, .error e)
    | some (larger, .ok ()) => some (larger, .ok ())

end HashTable

end TeraSlab.Index
