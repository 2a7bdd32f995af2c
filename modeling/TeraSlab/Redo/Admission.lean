import TeraSlab.Redo.Reservation

/-!
# Admission of a batch

`would_fit` measures a batch and changes nothing. `append_atomic` measures it again and appends one
operation after the other; an append that failed in the middle would leave the ones before it
buffered. `append_preencoded_atomic` buffers bodies that were encoded before the lock was taken, and
rolls without asking whether the ring is full.
-/

namespace TeraSlab.Redo

open Foundations RingLog

/-- The body of an entry, with a placeholder for its sequence number. -/
structure PreEncoded where
  body : List UInt8
  op : RedoOp

inductive AppendError where
  | poisoned
  | logFull
deriving DecidableEq

def RedoEntry.preEncode (op : RedoOp) : PreEncoded :=
  ⟨putU64 0 ++ putU8 op.opType ++ op.serializeData, op⟩

namespace PreEncoded

def len (e : PreEncoded) : Nat := entryHeaderSize + e.body.length + entryChecksumSize

/-- The frame of the body once the sequence number is patched in. -/
def frame (crc : List UInt8 → UInt32) (e : PreEncoded) (seq : Nat) : List UInt8 :=
  let body := putU64 (.ofNat seq) ++ e.body.drop 8
  putLen32 (body.length + entryChecksumSize) ++ body ++ putU32 (crc body)

end PreEncoded

section

variable (crc : List UInt8 → UInt32)

def LinearLog.bufferPreencoded (log : LinearLog) (e : PreEncoded) : LinearLog :=
  { log with
    nextSequence := log.nextSequence + 1
    buffer := log.buffer ++ e.frame crc log.nextSequence
    pendingEntries := log.pendingEntries ++ [⟨.ofNat log.nextSequence, e.op⟩] }

def RingLog.bufferPreencoded (log : RingLog) (e : PreEncoded) : RingLog :=
  { log with
    nextSequence := log.nextSequence + 1
    buffer := log.buffer ++ e.frame crc log.nextSequence
    pendingEntries := log.pendingEntries ++ [⟨.ofNat log.nextSequence, e.op⟩]
    segMaxSeq := Function.update log.segMaxSeq log.activeSeg
      (max (log.segMaxSeq log.activeSeg) log.nextSequence) }

namespace RedoLog

def nextSequence : RedoLog → Nat
  | linear _ s => s.log.nextSequence
  | ring _ s => s.log.nextSequence

/-- The entries in memory, written or not. -/
def entries : RedoLog → List RedoEntry
  | linear _ s => s.log.entriesCache ++ s.log.pendingEntries
  | ring _ s => s.log.entriesCache ++ s.log.pendingEntries

def append (op : RedoOp) : RedoLog → Option RedoLog
  | linear r s => (s.log.append crc r op).map fun log => linear r { s with log := log }
  | ring g s => (s.tryAppend crc g op).map (ring g)

/-- Buffer a body; a ring moves on to the next segment when the active one has no room. -/
def pushPreencoded (e : PreEncoded) : RedoLog → RedoLog
  | linear r s => linear r { s with log := s.log.bufferPreencoded crc e }
  | ring g s =>
    if g.segmentSize < s.log.writePosInSeg + s.log.buffer.length + e.len then
      let s := s.writeOut g
      ring g { s with log := (s.log.advance g).bufferPreencoded crc e }
    else ring g { s with log := s.log.bufferPreencoded crc e }

/-- The check of the atomic appends before they draw a sequence number. -/
def batchFits (lens : List Nat) : RedoLog → Bool
  | linear r s => s.log.writePos + s.log.buffer.length + lens.sum ≤ r.appendCapacity
  | ring g s => s.log.ringBatchFits g lens

abbrev Answer := Except AppendError (Option (Nat × Nat)) × RedoLog

/-- Append the items in order, with the range of the sequence numbers drawn. -/
def appendLoop {α : Type} (push : α → RedoLog → Option RedoLog) :
    List α → Nat → Nat → RedoLog → Answer
  | [], first, last, log => (.ok (some (first, last)), log)
  | x :: xs, first, last, log =>
    let seq := log.nextSequence
    match push x log with
    | none => (.error .logFull, log)
    | some log => appendLoop push xs (min first seq) (max last seq) log

end RedoLog

/-- A log that may have been poisoned. -/
structure PoisonableLog where
  log : RedoLog
  poisoned : Bool

namespace PoisonableLog

def wouldFit (s : PoisonableLog) (ops : List RedoOp) : Bool :=
  !s.poisoned && s.log.wouldFit 0 ops

def atomically {α : Type} (s : PoisonableLog) (len : α → Nat)
    (push : α → RedoLog → Option RedoLog) (xs : List α) : RedoLog.Answer :=
  if s.poisoned then (.error .poisoned, s.log)
  else if xs.isEmpty then (.ok none, s.log)
  else if s.log.batchFits (xs.map len) then RedoLog.appendLoop push xs (2 ^ 64 - 1) 0 s.log
  else (.error .logFull, s.log)

def appendAtomic (s : PoisonableLog) (ops : List RedoOp) : RedoLog.Answer :=
  s.atomically entryLen (RedoLog.append crc) ops

def appendPreencodedAtomic (s : PoisonableLog) (es : List PreEncoded) : RedoLog.Answer :=
  s.atomically PreEncoded.len (fun e log => some (log.pushPreencoded crc e)) es

end PoisonableLog

end

/-! ### One entry -/

variable {crc : List UInt8 → UInt32} {op : RedoOp} {ops : List RedoOp}

theorem len_preEncode (op : RedoOp) : (RedoEntry.preEncode op).len = entryLen op := by
  simp only [PreEncoded.len, RedoEntry.preEncode, List.length_append, length_putU64, length_putU8,
    RedoOp.length_serializeData, entryLen, entryHeaderSize, entryOverhead, entryChecksumSize]
  omega

theorem frame_preEncode (op : RedoOp) (seq : Nat) :
    (RedoEntry.preEncode op).frame crc seq = RedoEntry.serialize crc ⟨.ofNat seq, op⟩ := by
  simp [PreEncoded.frame, RedoEntry.preEncode, RedoEntry.serialize, RedoEntry.content,
    entryChecksumSize, Nat.add_assoc]

theorem ringBatchFits_bufferEntry (g : Geometry) (log : RingLog) (lens : List Nat) :
    (log.bufferEntry crc op).ringBatchFits g lens = RingLog.batchFits g log.oldestSeg log.activeSeg
      (log.writePosInSeg + log.buffer.length + entryLen op) lens := by
  rw [ringBatchFits, length_bufferEntry, Nat.add_assoc]
  rfl

namespace RedoLog

variable {log : RedoLog}

theorem writeOut_entries (g : Geometry) (s : System) :
    (s.writeOut g).log.nextSequence = s.log.nextSequence ∧
      (s.writeOut g).log.entriesCache ++ (s.writeOut g).log.pendingEntries =
        s.log.entriesCache ++ s.log.pendingEntries := by
  unfold System.writeOut prepareFlush
  by_cases hnil : s.log.buffer.isEmpty <;> simp [hnil]

theorem bufferPreencoded_preEncode (log : RingLog) :
    log.bufferPreencoded crc (RedoEntry.preEncode op) = log.bufferEntry crc op := by
  rw [RingLog.bufferPreencoded, frame_preEncode]
  rfl

/-- An operation that is measured to fit is appended, in either way. -/
theorem append_of_batchFits (h : log.batchFits (entryLen op :: ops.map entryLen) = true) :
    ∃ log', log.append crc op = some log' ∧
      log.pushPreencoded crc (RedoEntry.preEncode op) = log' ∧
      log'.batchFits (ops.map entryLen) = true ∧ log'.nextSequence = log.nextSequence + 1 ∧
      log'.entries = log.entries ++ [⟨.ofNat log.nextSequence, op⟩] := by
  cases log with
  | linear r s =>
    have hroom := of_decide_eq_true h
    have hlen := s.log.length_bufferEntry crc op
    rw [List.sum_cons] at hroom
    refine ⟨linear r { s with log := s.log.bufferEntry crc op }, ?_, ?_, ?_, rfl, ?_⟩
    · rw [append, LinearLog.append, LinearLog.appendWithCapacity, if_neg (by omega)]
      rfl
    · rw [pushPreencoded, LinearLog.bufferPreencoded, frame_preEncode]
      rfl
    · refine decide_eq_true ?_
      rw [hlen]
      show s.log.writePos + _ + _ ≤ _
      omega
    · exact (List.append_assoc ..).symm
  | ring g s =>
    simp only [batchFits, ringBatchFits, RingLog.batchFits] at h
    split_ifs at h with hlong hroll hfull
    · obtain ⟨hactive, holdest, hbuffer, -⟩ := s.writeOut_cursor g
      obtain ⟨hnext, hentries⟩ := writeOut_entries g s
      refine ⟨ring g { s.writeOut g with
        log := ((s.writeOut g).log.advance g).bufferEntry crc op }, ?_, ?_, ?_,
        congrArg (· + 1) hnext, ?_⟩
      · simp [append, System.tryAppend, needsRoll, ringFull, hlong, hroll, hfull]
      · simp only [pushPreencoded, len_preEncode, if_pos hroll, bufferPreencoded_preEncode]
      · rw [batchFits, ringBatchFits_bufferEntry]
        simpa [advance, hactive, holdest, hbuffer] using h
      · simp only [entries, RingLog.bufferEntry, advance, ← List.append_assoc, hentries, hnext]
        rfl
    · refine ⟨_, ?_,
      by rw [pushPreencoded, len_preEncode, if_neg hroll, bufferPreencoded_preEncode],
        ?_, rfl, (List.append_assoc ..).symm⟩
      · simp [append, System.tryAppend, needsRoll, hlong, hroll]
      · rw [batchFits, ringBatchFits_bufferEntry]
        exact h

/-- A batch that is measured to fit is appended whole, in either way. -/
theorem appendLoop_of_batchFits (crc : List UInt8 → UInt32) (first last : Nat)
    (h : log.batchFits (ops.map entryLen) = true) :
    ∃ range log', appendLoop (append crc) ops first last log = (.ok range, log') ∧
      appendLoop (fun e log => some (log.pushPreencoded crc e)) (ops.map RedoEntry.preEncode)
        first last log = (.ok range, log') ∧
      log'.entries = log.entries ++
        (ops.zipIdx log.nextSequence).map fun (op, seq) => ⟨.ofNat seq, op⟩ := by
  induction ops generalizing log first last with
  | nil => exact ⟨_, log, rfl, rfl, by simp⟩
  | cons op ops ih =>
    obtain ⟨log', happend, hpush, hfits, hnext, hentries⟩ := append_of_batchFits h
    obtain ⟨range, log'', hloop, hpre, hall⟩ := ih (min first log.nextSequence)
      (max last log.nextSequence) hfits
    refine ⟨range, log'', ?_, ?_, ?_⟩
    · rw [appendLoop, happend]
      exact hloop
    · rw [List.map_cons, appendLoop, hpush]
      exact hpre
    · rw [hall, hentries, hnext]
      simp

/-- On a ring that was measured, no append of a batch fails. -/
theorem appendAll_of_ringBatchFits {g : Geometry} {s : System} (first last : Nat)
    (h : s.log.ringBatchFits g (ops.map entryLen) = true) :
    ∃ t range, s.tryAppendAll crc g ops = some t ∧ s.appendAll crc g ops = t ∧
      appendLoop (append crc) ops first last (ring g s) = (.ok range, ring g t) := by
  induction ops generalizing s first last with
  | nil => exact ⟨s, _, rfl, rfl, rfl⟩
  | cons op ops ih =>
    obtain ⟨log', happend, -, hfits, -⟩ := @append_of_batchFits crc op ops (ring g s) h
    obtain ⟨s', hstep, rfl⟩ := Option.map_eq_some_iff.mp happend
    obtain ⟨t, range, htry, hall, hloop⟩ :=
      ih (min first s.log.nextSequence) (max last s.log.nextSequence) hfits
    refine ⟨t, range, ?_, ?_, ?_⟩
    · rw [System.tryAppendAll, hstep]
      exact htry
    · rw [System.appendAll, hstep]
      exact hall
    · rw [appendLoop, happend]
      exact hloop

end RedoLog

namespace PoisonableLog

/-- `append_atomic` on a ring: the log that goes on after it, the log if it succeeds and the answer
with the log are the same batch. -/
theorem appendAtomic_ring (crc : List UInt8 → UInt32) (g : Geometry) (s : System)
    (ops : List RedoOp) :
    s.appendAtomic crc g ops = (s.tryAppendAtomic crc g ops).getD s ∧
      (appendAtomic crc ⟨.ring g s, false⟩ ops).2 = .ring g (s.appendAtomic crc g ops) ∧
      ((appendAtomic crc ⟨.ring g s, false⟩ ops).1.isOk =
        (s.tryAppendAtomic crc g ops).isSome) := by
  unfold System.appendAtomic System.tryAppendAtomic appendAtomic atomically RedoLog.batchFits
  by_cases hnil : ops = []
  · subst hnil
    simp [System.appendAll]
    rfl
  have hempty : ops.isEmpty = false := by simpa using hnil
  by_cases hfits : s.log.ringBatchFits g (ops.map entryLen) = true
  · obtain ⟨t, range, htry, hall, hloop⟩ :=
      @RedoLog.appendAll_of_ringBatchFits crc ops g s (2 ^ 64 - 1) 0 hfits
    simp only [hempty, hfits, htry, hall, hloop]
    exact ⟨rfl, rfl, rfl⟩
  · simp [hempty, hfits]
    rfl

/-- The answer of `would_fit` is that of `append_atomic`, which buffers every operation or leaves
the log as it was; bodies that were encoded before are appended alike. An empty batch is always
appended, also when a reclaim marker has taken the cursor behind the room for appends. -/
theorem batch_admission (crc : List UInt8 → UInt32) (s : PoisonableLog) (ops : List RedoOp) :
    (ops ≠ [] ∨ s.log.position ≤ s.log.layout.capacity →
      (s.wouldFit ops = true ↔ s.poisoned = false ∧ (s.appendAtomic crc ops).1 ≠ .error .logFull)) ∧
    (∀ e, (s.appendAtomic crc ops).1 = .error e → (s.appendAtomic crc ops).2 = s.log) ∧
    ((s.appendAtomic crc ops).1.isOk → (s.appendAtomic crc ops).2.entries = s.log.entries ++
      (ops.zipIdx s.log.nextSequence).map fun (op, seq) => ⟨.ofNat seq, op⟩) ∧
    s.appendPreencodedAtomic crc (ops.map RedoEntry.preEncode) = s.appendAtomic crc ops := by
  have hlens : (ops.map RedoEntry.preEncode).map PreEncoded.len = ops.map entryLen := by
    simp [len_preEncode]
  have hfit : s.log.wouldFit 0 ops = s.log.batchFits (ops.map entryLen) := by
    cases s.log <;> rfl
  unfold wouldFit appendAtomic appendPreencodedAtomic atomically
  rw [hlens, hfit, List.isEmpty_map]
  split_ifs with hpoisoned hnil hfits
  · exact ⟨fun _ => by simp [hpoisoned], fun _ _ => rfl, nofun, rfl⟩
  · obtain rfl := List.isEmpty_iff.mp hnil
    refine ⟨fun hroom => ?_, nofun, fun _ => by simp, rfl⟩
    have hfits : s.log.batchFits [] = true := by
      cases hlog : s.log with
      | linear r t =>
        rw [hlog] at hroom
        exact decide_eq_true (hroom.resolve_left (absurd rfl))
      | ring g t => rfl
    simp [hpoisoned, hfits]
  · obtain ⟨range, log', hloop, hpre, hentries⟩ := RedoLog.appendLoop_of_batchFits crc
      (2 ^ 64 - 1) 0 hfits
    rw [hloop, hpre]
    exact ⟨fun _ => by simp [hpoisoned, hfits], nofun, fun _ => hentries, rfl⟩
  · exact ⟨fun _ => by simp [hpoisoned, hfits], fun _ _ => rfl, nofun, rfl⟩

/-- A poisoned log admits nothing, and says that it is poisoned rather than full. -/
theorem poisoned_not_full :
    ¬ ∀ (s : PoisonableLog) (ops : List RedoOp),
      s.wouldFit ops = true ↔ (s.appendAtomic weightedSum ops).1 ≠ .error .logFull := by
  intro h
  cases (h ⟨RedoLog.emptyRing, true⟩ []).mpr nofun

end PoisonableLog

end TeraSlab.Redo
