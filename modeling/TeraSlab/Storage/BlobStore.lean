import TeraSlab.Foundations.Bytes
import TeraSlab.Foundations.Run

/-!
# Replacing a blob

A blob is a payload file and a sidecar with the digest and the length of the payload, against which
every read verifies it. The two files are renamed into place, or removed, one after the other. A
call that stops after some of its steps leaves a blob that reads as before or as after the call,
unless it stops with one of the two files exchanged or removed.
-/

namespace TeraSlab.Storage

open Foundations

/-- The files of a key. The names of the temporary files are unique. -/
inductive BlobFile where
  | payload
  | payloadTmp
  | sidecar
  | sidecarTmp
deriving DecidableEq

abbrev Files := BlobFile → Option (List UInt8)

inductive FileStep where
  | write (file : BlobFile) (data : List UInt8)
  | rename (tmpPath finalPath : BlobFile)
  | unlink (file : BlobFile)

def FileStep.perform (files : Files) : FileStep → Files
  | .write file data => Function.update files file (some data)
  | .rename tmpPath finalPath =>
    Function.update (Function.update files finalPath (files tmpPath)) tmpPath none
  | .unlink file => Function.update files file none

inductive BlobError where
  | digestMismatch (key : String) (expected actual : Vector UInt8 32)
  | invalidMeta (key : String)
deriving DecidableEq

def hexKey (key : Vector UInt8 32) : String :=
  String.join (key.toList.map fun b =>
    String.ofList [Nat.digitChar (b.toNat / 16), Nat.digitChar (b.toNat % 16)])

def blobMetaSize : Nat := 40

/-- The digest and the low 64 bits of the length. -/
def encodeMeta (digest : Vector UInt8 32) (length : Nat) : List UInt8 :=
  digest.toList ++ toLe 8 length

def decodeMeta (bytes : List UInt8) : Option (Vector UInt8 32 × Nat) :=
  if bytes.length ≠ blobMetaSize then none else some (bytesAt 32 bytes 0, leAt 8 bytes 32)

def atomicWriteNoDirFsync (tmpPath finalPath : BlobFile) (data : List UInt8) : List FileStep :=
  [.write tmpPath data, .rename tmpPath finalPath]

inductive BlobCall where
  | put (data : List UInt8)
  /-- The finish of a stream whose chunks, together, are in the temporary file. -/
  | finish (written : List UInt8)
  | delete

section

-- Any function may stand for SHA-256.
variable (sha256Of : List UInt8 → Vector UInt8 32)

def BlobCall.steps : BlobCall → List FileStep
  | .put data => atomicWriteNoDirFsync .payloadTmp .payload data ++
      atomicWriteNoDirFsync .sidecarTmp .sidecar (encodeMeta (sha256Of data) data.length)
  | .finish written => .rename .payloadTmp .payload ::
      atomicWriteNoDirFsync .sidecarTmp .sidecar (encodeMeta (sha256Of written) written.length)
  | .delete => [.unlink .sidecar, .unlink .payload]

def readMeta (files : Files) (key : Vector UInt8 32) :
    Except BlobError (Vector UInt8 32 × Nat) :=
  match files .sidecar with
  | none => .error (.invalidMeta (hexKey key))
  | some bytes =>
    match decodeMeta bytes with
    | none => .error (.invalidMeta (hexKey key))
    | some decoded => .ok decoded

def readAndVerify (files : Files) (key : Vector UInt8 32) :
    Except BlobError (Option (List UInt8)) :=
  match files .payload with
  | none => .ok none
  | some data =>
    match readMeta files key with
    | .error e => .error e
    | .ok (expectedSha, expectedLen) =>
      if data.length % 2 ^ 64 ≠ expectedLen then
        .error (.digestMismatch (hexKey key) expectedSha (sha256Of data))
      else if sha256Of data ≠ expectedSha then
        .error (.digestMismatch (hexKey key) expectedSha (sha256Of data))
      else .ok (some data)

/-- What a read answers after the first `n` steps of the call. -/
def BlobCall.readAfter (call : BlobCall) (files : Files) (n : Nat) (key : Vector UInt8 32) :
    Except BlobError (Option (List UInt8)) :=
  readAndVerify sha256Of (run FileStep.perform files ((call.steps sha256Of).take n)) key

/-- The blob is fully stored. -/
structure Stores (files : Files) (data : List UInt8) : Prop where
  payload : files .payload = some data
  sidecar : files .sidecar = some (encodeMeta (sha256Of data) data.length)

end

def BlobCall.payload : BlobCall → Option (List UInt8)
  | .put data | .finish data => some data
  | .delete => none

/-- The old payload, the new one or none. -/
def BlobCall.OldOrNew (call : BlobCall) (old : List UInt8)
    (answer : Except BlobError (Option (List UInt8))) : Prop :=
  answer = .ok none ∨ answer = .ok (some old) ∨ ∃ new ∈ call.payload, answer = .ok (some new)

/-- The call stops between its renames, with a payload that is not the stored one, or between its
unlinks. -/
def BlobCall.TornAt (old : List UInt8) (n : Nat) : BlobCall → Prop
  | .put data => data ≠ old ∧ (n = 2 ∨ n = 3)
  | .finish written => written ≠ old ∧ (n = 1 ∨ n = 2)
  | .delete => n = 1

variable {sha256Of : List UInt8 → Vector UInt8 32} {files : Files} {old new : List UInt8}

theorem decodeMeta_encodeMeta (digest : Vector UInt8 32) (length : Nat) :
    decodeMeta (encodeMeta digest length) = some (digest, length % 2 ^ 64) := by
  have hlen : leAt 8 (digest.toList ++ toLe 8 length) 32 = length % 2 ^ 64 := by
    rw [leAt_append_right (by simp)]
    simpa using leAt_toLe 8 length []
  rw [decodeMeta, if_neg (by simp [encodeMeta, blobMetaSize]), encodeMeta, bytesAt_toList, hlen]

/-- A payload next to the sidecar of another one fails the verification. -/
theorem readAndVerify_cases (key : Vector UInt8 32) (hp : files .payload = some new)
    (hs : files .sidecar = some (encodeMeta (sha256Of old) old.length))
    (hsha : sha256Of new = sha256Of old → new = old) :
    (∃ e, readAndVerify sha256Of files key = .error e ∧ new ≠ old) ∨
      readAndVerify sha256Of files key = .ok (some new) ∧ new = old := by
  simp only [readAndVerify, hp, readMeta, hs, decodeMeta_encodeMeta]
  split_ifs with hlen hne
  · exact .inl ⟨_, rfl, fun h => hlen (h ▸ rfl)⟩
  · exact .inl ⟨_, rfl, fun h => hne (h ▸ rfl)⟩
  · exact .inr ⟨rfl, hsha (not_not.mp hne)⟩

theorem Stores.readAndVerify (h : Stores sha256Of files old) (key : Vector UInt8 32) :
    readAndVerify sha256Of files key = .ok (some old) := by
  rcases readAndVerify_cases key h.payload h.sidecar fun _ => rfl with ⟨-, -, hne⟩ | ⟨hok, -⟩
  · exact absurd rfl hne
  · exact hok

theorem oldOrNew_finish {call : BlobCall} (key : Vector UInt8 32) (h : Stores sha256Of files old)
    (htmp : files .payloadTmp = some new) (hsha : sha256Of new = sha256Of old → new = old)
    (hnew : new ∈ call.payload) (n : Nat) :
    call.OldOrNew old ((BlobCall.finish new).readAfter sha256Of files n key) ↔
      ¬ (new ≠ old ∧ (n = 1 ∨ n = 2)) := by
  -- The payload is the new one, and the sidecar is still that of the old one.
  have hmixed : ∀ f : Files, f .payload = some new → f .sidecar = files .sidecar →
      (call.OldOrNew old (Storage.readAndVerify sha256Of f key) ↔ new = old) := by
    intro f hp hs
    rcases readAndVerify_cases key hp (hs.trans h.sidecar) hsha with ⟨e, he, hne⟩ | ⟨hok, heq⟩
    · simp [BlobCall.OldOrNew, he, hne]
    · exact iff_of_true (.inr (.inr ⟨new, hnew, hok⟩)) heq
  match n with
  | 0 => simp [BlobCall.readAfter, h.readAndVerify key, BlobCall.OldOrNew]
  | 1 | 2 =>
    refine Iff.trans (hmixed _ ?_ rfl) ?_
    · exact htmp
    · simp
  | n + 3 =>
    have hnow : (BlobCall.finish new).readAfter sha256Of files (n + 3) key = .ok (some new) := by
      apply Stores.readAndVerify
      constructor <;> simp [BlobCall.steps, atomicWriteNoDirFsync, FileStep.perform, htmp]
    exact iff_of_true (.inr (.inr ⟨new, hnew, hnow⟩)) (by omega)

/-- A call that stops leaves the old payload, the new one or none to read, exactly when it does not
stop with one of the two files exchanged or removed. -/
theorem oldOrNew_iff (sha256Of : List UInt8 → Vector UInt8 32) (key : Vector UInt8 32)
    (files : Files) (old : List UInt8) (h : Stores sha256Of files old) (call : BlobCall)
    (htmp : ∀ written, call = .finish written → files .payloadTmp = some written)
    (hsha : ∀ new ∈ call.payload, sha256Of new = sha256Of old → new = old) (n : Nat) :
    call.OldOrNew old (call.readAfter sha256Of files n key) ↔ ¬ call.TornAt old n := by
  cases call with
  | put data =>
    match n with
    | 0 => simp [BlobCall.readAfter, h.readAndVerify key, BlobCall.OldOrNew, BlobCall.TornAt]
    | n + 1 =>
      have hst : Stores sha256Of (FileStep.perform files (.write .payloadTmp data)) old :=
        ⟨h.payload, h.sidecar⟩
      refine Iff.trans (oldOrNew_finish key hst rfl (hsha data rfl) rfl n) ?_
      simp [BlobCall.TornAt]
  | finish written => exact oldOrNew_finish key h (htmp written rfl) (hsha written rfl) rfl n
  | delete =>
    match n with
    | 0 => simp [BlobCall.readAfter, h.readAndVerify key, BlobCall.OldOrNew, BlobCall.TornAt]
    | 1 => simp [BlobCall.readAfter, BlobCall.steps, FileStep.perform, readAndVerify, readMeta,
        h.payload, BlobCall.OldOrNew, BlobCall.TornAt]
    | n + 2 => simp [BlobCall.readAfter, BlobCall.steps, FileStep.perform, readAndVerify,
        BlobCall.OldOrNew, BlobCall.TornAt]

def demoSha (data : List UInt8) : Vector UInt8 32 := .replicate 32 (data.headD 0)

def demoFiles : Files
  | .payload => some [1]
  | .sidecar => some (encodeMeta (demoSha [1]) 1)
  | _ => none

/-- A put that stops before it renames its payload. -/
theorem oldOrNew_staged_put :
    (BlobCall.put [2]).OldOrNew [1]
      ((BlobCall.put [2]).readAfter demoSha demoFiles 1 (.replicate 32 7)) :=
  (oldOrNew_iff demoSha (.replicate 32 7) demoFiles [1] ⟨rfl, rfl⟩ (.put [2]) nofun
    (by decide) 1).mpr (by simp [BlobCall.TornAt])

/-- A put that stops after its first rename, and a delete that stops after its first unlink. -/
theorem torn_replacement_unreadable :
    Stores demoSha demoFiles [1] ∧
      (BlobCall.put [2]).readAfter demoSha demoFiles 2 (.replicate 32 7) =
        .error (.digestMismatch (hexKey (.replicate 32 7)) (demoSha [1]) (demoSha [2])) ∧
      BlobCall.delete.readAfter demoSha demoFiles 1 (.replicate 32 7) =
        .error (.invalidMeta (hexKey (.replicate 32 7))) :=
  ⟨⟨rfl, rfl⟩, by decide, by decide⟩

end TeraSlab.Storage
