import TeraSlab.Foundations.CellLog
import TeraSlab.Foundations.Run
import TeraSlab.Recovery.Replay

/-!
# Deletion tombstones

A store remembers the deletes it has executed in a log of tombstones: an index in memory, the
entries that are not on disk yet, and a file of fixed-size cells behind a header. A checkpoint
persists the log: it drops what is past retention and then either rewrites the file from the index
or appends the buffered entries. Loading reads every whole cell of the file, skips the cells that do
not decode and lets the newest entry of a key win.

The shards of the index are one map here, and the order in which a rewrite lists them is that of
the map. A crash in the middle of an append keeps any number of the appended bytes; a rewrite is
there or is not. Failing reads and writes are left out.
-/

namespace TeraSlab.Recovery

open Foundations Index

inductive TombstoneCause where
  | dah
  | clientDelete
  | pruneReplace
deriving DecidableEq

def TombstoneCause.code : TombstoneCause → UInt8
  | .dah => 0
  | .clientDelete => 1
  | .pruneReplace => 2

structure TombValue where
  generation : UInt32
  height : UInt32
  cause : UInt8
deriving DecidableEq

/-! ## The file -/

def tombstoneEntrySize : Nat := 48

def crcOff : Nat := 44

def tombMagic : Nat := 0x54534C31

def tombVersion : Nat := 1

def tombHeaderSize : Nat := 8

inductive TombstoneDecodeError where
  | truncated (got want : Nat)
  | crcMismatch (expected actual : Nat)
deriving DecidableEq

/-- The bytes of an entry that its checksum covers. -/
def entryBody (e : TxKey × TombValue) : List UInt8 :=
  e.1.txid.toList ++ (toLe 4 e.2.generation.toNat ++ (toLe 4 e.2.height.toNat ++
    (e.2.cause :: [0, 0, 0])))

def encodeEntry (crc : List UInt8 → UInt32) (e : TxKey × TombValue) : List UInt8 :=
  entryBody e ++ toLe 4 (crc (entryBody e)).toNat

def decodeEntry (crc : List UInt8 → UInt32) (src : List UInt8) :
    Except TombstoneDecodeError (TxKey × TombValue) :=
  if src.length < tombstoneEntrySize then .error (.truncated src.length tombstoneEntrySize)
  else
    let expected := leAt 4 src crcOff
    let actual := (crc (src.take crcOff)).toNat
    if expected ≠ actual then .error (.crcMismatch expected actual)
    else
      .ok (⟨bytesAt 32 src 0⟩,
        { generation := .ofNat (leAt 4 src 32)
          height := .ofNat (leAt 4 src 36)
          cause := byteAt src 40 })

def tombHeader : List UInt8 := toLe 4 tombMagic ++ toLe 4 tombVersion

/-! ## The log -/

structure TombstoneLog where
  index : AList fun _ : TxKey => TombValue := ∅
  pending : List (TxKey × TombValue) := []
  needsCompaction : Bool := false

/-- A tombstone is expired once `height + retention` is at or below the floor; the sum
saturates. -/
def expired (height retention floor : UInt32) : Bool :=
  min (height.toNat + retention.toNat) (2 ^ 32 - 1) ≤ floor.toNat

inductive TombstoneLoadError where
  | badHeader (magic version : Nat)
deriving DecidableEq

namespace TombstoneLog

def lookup (log : TombstoneLog) (key : TxKey) : Option TombValue := log.index.lookup key

def load (crc : List UInt8 → UInt32) : Option (List UInt8) → Except TombstoneLoadError TombstoneLog
  | none => .ok {}
  | some data =>
    -- A header that was cut off counts as no file.
    if data.length < tombHeaderSize then .ok {}
    else
      let magic := leAt 4 data 0
      let version := leAt 4 data 4
      if magic ≠ tombMagic ∨ version ≠ tombVersion then .error (.badHeader magic version)
      else
        .ok { index := insertAll ∅ (decodeCells tombstoneEntrySize
          (fun cell => (decodeEntry crc cell).toOption) (data.drop tombHeaderSize)) }

def record (log : TombstoneLog) (key : TxKey) (generation height : UInt32)
    (cause : TombstoneCause) : TombstoneLog :=
  let value := { generation, height, cause := cause.code }
  { log with index := log.index.insert key value, pending := log.pending ++ [(key, value)] }

def atOrAhead (log : TombstoneLog) (key : TxKey) (generation : UInt32) : Bool :=
  match log.lookup key with
  | some v => generationAtOrAhead v.generation.toNat generation.toNat
  | none => false

def blocksHealApply (log : TombstoneLog) (key : TxKey) (incomingGeneration : UInt32) : Bool :=
  match log.lookup key with
  | none => false
  | some v =>
    if v.cause = TombstoneCause.dah.code then
      generationAtOrAhead v.generation.toNat incomingGeneration.toNat
    else true

/-- Keep the entries of the index that pass a test; the file is rewritten if one is dropped. -/
def keepOnly (log : TombstoneLog) (keep : TxKey → TombValue → Bool) : TombstoneLog :=
  let index := retain log.index keep
  { log with
    index
    needsCompaction := log.needsCompaction || index.entries.length < log.index.entries.length }

def gc (log : TombstoneLog) (retention lastDurableHeight : UInt32) (isProtected : TxKey → Bool) :
    TombstoneLog :=
  log.keepOnly fun k v => !expired v.height retention lastDurableHeight || isProtected k

def reconcileAgainstLive (log : TombstoneLog) (isLive : TxKey → Bool) : TombstoneLog :=
  log.keepOnly fun k _ => !isLive k

def clear (log : TombstoneLog) (key : TxKey) : TombstoneLog :=
  match log.lookup key with
  | none => log
  | some _ =>
    { index := log.index.erase key
      pending := log.pending.filter fun e => e.1 ≠ key
      needsCompaction := true }

def appendedBytes (crc : List UInt8 → UInt32) (file : Option (List UInt8))
    (entries : List (TxKey × TombValue)) : List UInt8 :=
  (if file.isSome then [] else tombHeader) ++ entries.flatMap (encodeEntry crc)

def appendEntries (crc : List UInt8 → UInt32) (file : Option (List UInt8))
    (entries : List (TxKey × TombValue)) : List UInt8 :=
  file.getD [] ++ appendedBytes crc file entries

def writeAllAtomic (crc : List UInt8 → UInt32) (entries : List (TxKey × TombValue)) : List UInt8 :=
  tombHeader ++ entries.flatMap (encodeEntry crc)

def persist (crc : List UInt8 → UInt32) (retention lastDurableHeight : UInt32)
    (isProtected : TxKey → Bool) (file : Option (List UInt8)) (log : TombstoneLog) :
    Option (List UInt8) × TombstoneLog :=
  let log := log.gc retention lastDurableHeight isProtected
  if log.needsCompaction then
    let all := listing log.index
    let written := insertAll ∅ all
    (some (writeAllAtomic crc all),
      { log with
        pending := log.pending.filter fun e => written.lookup e.1 ≠ some e.2
        needsCompaction := false })
  else if log.pending = [] then (file, log)
  else (some (appendEntries crc file log.pending), { log with pending := [] })

/-- The file when a crash interrupts `persist`: a rewrite is there or is not, and of an append the
first `kept` bytes are there. -/
def interrupted (crc : List UInt8 → UInt32) (retention lastDurableHeight : UInt32)
    (isProtected : TxKey → Bool) (replaced : Bool) (kept : Nat) (file : Option (List UInt8))
    (log : TombstoneLog) : Option (List UInt8) :=
  let log := log.gc retention lastDurableHeight isProtected
  if log.needsCompaction then
    if replaced then some (writeAllAtomic crc (listing log.index)) else file
  else if log.pending = [] then file
  else some (file.getD [] ++ (appendedBytes crc file log.pending).take kept)

end TombstoneLog

/-! ## Runs with crashes -/

structure TombstoneStore where
  file : Option (List UInt8) := none
  log : Option TombstoneLog := some {}

inductive TombstoneInput where
  | record (key : TxKey) (generation height : UInt32) (cause : TombstoneCause)
  | clear (key : TxKey)
  | reconcileAgainstLive (isLive : TxKey → Bool)
  | persist (lastDurableHeight : UInt32) (isProtected : TxKey → Bool)
  | crash
  | crashInPersist (lastDurableHeight : UInt32) (isProtected : TxKey → Bool) (replaced : Bool)
    (kept : Nat)

namespace TombstoneStore

def reload (crc : List UInt8 → UInt32) (file : Option (List UInt8)) : TombstoneStore :=
  { file, log := (TombstoneLog.load crc file).toOption }

def step (crc : List UInt8 → UInt32) (retention : UInt32) (s : TombstoneStore)
    (input : TombstoneInput) : TombstoneStore :=
  match s.log with
  | none => s
  | some log =>
    match input with
    | .record key generation height cause =>
      { s with log := some (log.record key generation height cause) }
    | .clear key => { s with log := some (log.clear key) }
    | .reconcileAgainstLive isLive => { s with log := some (log.reconcileAgainstLive isLive) }
    | .persist floor isProtected =>
      let (file, log) := log.persist crc retention floor isProtected s.file
      { file, log := some log }
    | .crash => reload crc s.file
    | .crashInPersist floor isProtected replaced kept =>
      reload crc (log.interrupted crc retention floor isProtected replaced kept s.file)

end TombstoneStore

end TeraSlab.Recovery
