import TeraSlab.Foundations.Bytes
import TeraSlab.Foundations.Run

/-!
# The inbound fence of a migration target

`MigrationManager` keeps one entry for each source that is to send a shard, and a bitmap of the
shards with a pending entry: the fence. An entry can be marked lost (its source died) or heal
pending (a boot repair is under way). The pending entries are serialized for a restart without
their marks.

The manager runs beside the set of shards that must stay fenced: marked lost or heal pending, with
no completion recorded and no plan that re-acquires the shard since.
-/

namespace TeraSlab.Cluster

open Foundations

structure InboundMigration where
  shard : UInt16
  fromNode : UInt64
  completed : Bool
  lost : Bool
  healPending : Bool
deriving DecidableEq, Repr

def InboundMigration.pending (shard : UInt16) (fromNode : UInt64) : InboundMigration where
  shard := shard
  fromNode := fromNode
  completed := false
  lost := false
  healPending := false

structure MigrationManager where
  inboundMigrations : List InboundMigration
  inboundBitmap : UInt16 → Bool

inductive InboundRestoreError where
  | tooShort (len : Nat)
  | lengthMismatch (count expected actual : Nat)
  | checksumMismatch (stored computed : Nat)
deriving DecidableEq, Repr

def updateFirst (p : InboundMigration → Bool) (f : InboundMigration → InboundMigration) :
    List InboundMigration → List InboundMigration
  | [] => []
  | m :: ms => if p m then f m :: ms else m :: updateFirst p f ms

namespace MigrationManager

def new : MigrationManager := ⟨[], fun _ => false⟩

variable (mgr : MigrationManager)

def setBit (shard : UInt16) : MigrationManager :=
  { mgr with inboundBitmap := Function.update mgr.inboundBitmap shard true }

def push (m : InboundMigration) : MigrationManager :=
  { mgr with inboundMigrations := mgr.inboundMigrations ++ [m] }.setBit m.shard

def rebuild (entries : List InboundMigration) : MigrationManager where
  inboundMigrations := entries
  inboundBitmap := fun shard => entries.any fun m => m.shard == shard && !m.completed

def hasPendingInbound (shard : UInt16) : Bool := mgr.inboundBitmap shard

/-- A task of a plan names this node as the target: the shard is re-acquired. -/
def reacquire (shard : UInt16) (fromNode : UInt64) : MigrationManager :=
  let revived := mgr.inboundMigrations.map fun m =>
    if m.shard == shard then { m with lost := false } else m
  match revived.find? fun m => m.shard == shard && m.fromNode == fromNode with
  | some existing =>
    let next := { mgr with inboundMigrations := revived }
    if existing.completed then next else next.setBit shard
  | none =>
    match revived.find? fun m => m.shard == shard && m.fromNode == 0 with
    | some sentinel =>
      let next := { mgr with
        inboundMigrations := updateFirst (fun m => m.shard == shard && m.fromNode == 0)
          (fun m => { m with fromNode }) revived }
      if sentinel.completed then next else next.setBit shard
    | none => { mgr with inboundMigrations := revived }.push (.pending shard fromNode)

def startInbound (tasks : List (UInt16 × UInt64)) : MigrationManager :=
  tasks.foldl (fun mgr task => mgr.reacquire task.1 task.2) mgr

def markInboundActive (shard : UInt16) : MigrationManager :=
  if mgr.inboundMigrations.any fun m => m.shard == shard then mgr
  else mgr.push (.pending shard 0)

def pendingFrom (shard : UInt16) (fromNode : UInt64) (m : InboundMigration) : Bool :=
  m.shard == shard && m.fromNode == fromNode && !m.completed

def registerInboundSource (shard : UInt16) (fromNode : UInt64) : MigrationManager :=
  if mgr.inboundMigrations.any (pendingFrom shard fromNode) then
    { mgr with
      inboundMigrations := updateFirst (pendingFrom shard fromNode)
        (fun m => { m with lost := false }) mgr.inboundMigrations }
  else mgr.push (.pending shard fromNode)

def registerHealSource (shard : UInt16) (fromNode : UInt64) : MigrationManager :=
  if mgr.inboundMigrations.any (pendingFrom shard fromNode) then
    { mgr with
      inboundMigrations := updateFirst (pendingFrom shard fromNode)
        (fun m => { m with lost := false, healPending := true }) mgr.inboundMigrations }
  else mgr.push { InboundMigration.pending shard fromNode with healPending := true }

def markHealFenceActive (shard : UInt16) : MigrationManager :=
  if mgr.inboundMigrations.any fun m => m.shard == shard then
    let raised := mgr.inboundMigrations.map fun m =>
      if m.shard == shard then { m with healPending := true } else m
    { mgr with inboundMigrations := raised }.setBit shard
  else mgr.push { InboundMigration.pending shard 0 with healPending := true }

def complete (m : InboundMigration) : InboundMigration :=
  { m with completed := true, healPending := false }

def recordCompletedInboundTombstone (shard : UInt16) (fromNode : UInt64) : MigrationManager :=
  if mgr.inboundMigrations.any fun m => m.shard == shard && m.fromNode == fromNode && m.completed
  then mgr
  else { mgr with
    inboundMigrations := mgr.inboundMigrations ++
      [{ InboundMigration.pending shard fromNode with completed := true }] }

/-- Clear the bit of a shard that has no pending entry left. -/
def settleBit (shard : UInt16) : MigrationManager :=
  if mgr.inboundMigrations.any fun m => m.shard == shard && !m.completed then mgr
  else { mgr with inboundBitmap := Function.update mgr.inboundBitmap shard false }

def markInboundComplete (shard : UInt16) : MigrationManager :=
  let plain := fun m : InboundMigration => m.shard == shard && !m.completed && !m.healPending
  let any := fun m : InboundMigration => m.shard == shard && !m.completed
  let next :=
    if mgr.inboundMigrations.any plain then
      { mgr with inboundMigrations := updateFirst plain complete mgr.inboundMigrations }
    else if mgr.inboundMigrations.any any then
      { mgr with inboundMigrations := updateFirst any complete mgr.inboundMigrations }
    else mgr.recordCompletedInboundTombstone shard 0
  next.settleBit shard

def markInboundCompleteAll (shard : UInt16) : MigrationManager :=
  let next :=
    if mgr.inboundMigrations.any fun m => m.shard == shard then
      { mgr with
        inboundMigrations := mgr.inboundMigrations.map fun m =>
          if m.shard == shard then complete m else m }
    else mgr.recordCompletedInboundTombstone shard 0
  { next with inboundBitmap := Function.update next.inboundBitmap shard false }

def markInboundCompleteFromSource (shard : UInt16) (fromNode : UInt64) : MigrationManager :=
  let next :=
    if mgr.inboundMigrations.any (pendingFrom shard fromNode) then
      { mgr with
        inboundMigrations := updateFirst (pendingFrom shard fromNode) complete
          mgr.inboundMigrations }
    else if mgr.inboundMigrations.any (pendingFrom shard 0) then
      { mgr with
        inboundMigrations := updateFirst (pendingFrom shard 0) complete mgr.inboundMigrations }
    else mgr.recordCompletedInboundTombstone shard fromNode
  next.settleBit shard

def markInboundLost (shards : List UInt16) : MigrationManager :=
  { mgr with
    inboundMigrations := mgr.inboundMigrations.map fun m =>
      if !m.completed && !m.lost && shards.contains m.shard then { m with lost := true } else m }

/-- A topology change drops the entries that are neither lost nor heal pending. -/
def clearInbound : MigrationManager :=
  rebuild (mgr.inboundMigrations.filter fun m => !m.completed && (m.lost || m.healPending))

def clearPendingInboundForShards (shards : List UInt16) : MigrationManager :=
  let kept := mgr.inboundMigrations.filter fun m =>
    m.completed || !shards.contains m.shard || m.healPending
  if kept.length < mgr.inboundMigrations.length then rebuild kept
  else { mgr with inboundMigrations := kept }

def clearStaleInbound : MigrationManager :=
  let kept := mgr.inboundMigrations.filter fun m => !m.completed
  if kept.length < mgr.inboundMigrations.length then rebuild kept
  else { mgr with inboundMigrations := kept }

def cleanupCompleted : MigrationManager :=
  rebuild (mgr.inboundMigrations.filter fun m => !m.completed)

/-! ### The persisted state -/

def entryBytes (m : InboundMigration) : List UInt8 :=
  toLe 2 m.shard.toNat ++ toLe 8 m.fromNode.toNat

def serializeInbound (crc32 : List UInt8 → UInt32) : List UInt8 :=
  let pending := mgr.inboundMigrations.filter fun m => !m.completed
  let body := toLe 4 pending.length ++ pending.flatMap entryBytes
  body ++ toLe 4 (crc32 body).toNat

def readEntries : Nat → List UInt8 → List (UInt16 × UInt64)
  | 0, _ => []
  | count + 1, data =>
    (UInt16.ofNat (leAt 2 data 0), UInt64.ofNat (leAt 8 data 2)) ::
      readEntries count (data.drop 10)

def restoreEntry (entry : UInt16 × UInt64) : MigrationManager :=
  if mgr.inboundMigrations.any fun m => m.shard == entry.1 && m.fromNode == entry.2 then mgr
  else mgr.push (.pending entry.1 entry.2)

def restoreInbound (crc32 : List UInt8 → UInt32) (data : List UInt8) :
    Except InboundRestoreError MigrationManager :=
  if data.isEmpty then .ok mgr
  else if data.length = 4 ∧ leAt 4 data 0 = 0 then .ok mgr
  else if data.length < 8 then .error (.tooShort data.length)
  else
    let count := leAt 4 data 0
    let expected := 4 + count * 10 + 4
    if data.length ≠ expected then .error (.lengthMismatch count expected data.length)
    else
      let stored := leAt 4 data (data.length - 4)
      let computed := (crc32 (data.take (data.length - 4))).toNat
      if stored ≠ computed then .error (.checksumMismatch stored computed)
      else .ok ((readEntries count (data.drop 4)).foldl restoreEntry mgr)

/-- The node restarts on what it serialized. It does not come up if that cannot be restored. -/
def restart (crc32 : List UInt8 → UInt32) : MigrationManager :=
  match new.restoreInbound crc32 (mgr.serializeInbound crc32) with
  | .ok restored => restored
  | .error _ => mgr

end MigrationManager

/-! ### Runs -/

structure FencedNode where
  manager : MigrationManager
  owes : UInt16 → Bool

inductive FenceCall where
  | startInbound (tasks : List (UInt16 × UInt64))
  | markInboundActive (shard : UInt16)
  | registerInboundSource (shard : UInt16) (fromNode : UInt64)
  | registerHealSource (shard : UInt16) (fromNode : UInt64)
  | markHealFenceActive (shard : UInt16)
  | markInboundComplete (shard : UInt16)
  | markInboundCompleteAll (shard : UInt16)
  | markInboundCompleteFromSource (shard : UInt16) (fromNode : UInt64)
  | markInboundLost (shards : List UInt16)
  | clearInbound
  | clearPendingInboundForShards (shards : List UInt16)
  | clearStaleInbound
  | cleanupCompleted
  | restart
deriving DecidableEq, Repr

namespace FencedNode

def apply (crc32 : List UInt8 → UInt32) (mgr : MigrationManager) : FenceCall → MigrationManager
  | .startInbound tasks => mgr.startInbound tasks
  | .markInboundActive shard => mgr.markInboundActive shard
  | .registerInboundSource shard fromNode => mgr.registerInboundSource shard fromNode
  | .registerHealSource shard fromNode => mgr.registerHealSource shard fromNode
  | .markHealFenceActive shard => mgr.markHealFenceActive shard
  | .markInboundComplete shard => mgr.markInboundComplete shard
  | .markInboundCompleteAll shard => mgr.markInboundCompleteAll shard
  | .markInboundCompleteFromSource shard fromNode =>
    mgr.markInboundCompleteFromSource shard fromNode
  | .markInboundLost shards => mgr.markInboundLost shards
  | .clearInbound => mgr.clearInbound
  | .clearPendingInboundForShards shards => mgr.clearPendingInboundForShards shards
  | .clearStaleInbound => mgr.clearStaleInbound
  | .cleanupCompleted => mgr.cleanupCompleted
  | .restart => mgr.restart crc32

def marks (mgr : MigrationManager) (shard : UInt16) : FenceCall → Bool
  | .markInboundLost shards => shards.contains shard &&
      mgr.inboundMigrations.any fun m => m.shard == shard && !m.completed
  | .registerHealSource shard' _ => shard' == shard
  | .markHealFenceActive shard' => shard' == shard
  | _ => false

/-- Does the call record a completion of the shard or re-acquire it? -/
def releases (shard : UInt16) : FenceCall → Bool
  | .startInbound tasks => tasks.any fun task => task.1 == shard
  | .markInboundComplete shard' => shard' == shard
  | .markInboundCompleteAll shard' => shard' == shard
  | .markInboundCompleteFromSource shard' _ => shard' == shard
  | _ => false

def step (crc32 : List UInt8 → UInt32) (n : FencedNode) (call : FenceCall) : FencedNode where
  manager := apply crc32 n.manager call
  owes := fun shard =>
    (n.owes shard && !releases shard call) || marks n.manager shard call

/-- Every shard that must stay fenced is fenced. -/
def Fenced (n : FencedNode) : Prop :=
  ∀ shard, n.owes shard = true → n.manager.hasPendingInbound shard = true

def spares (call : FenceCall) (m : InboundMigration) : Bool :=
  match call with
  | .clearInbound => m.lost || m.healPending
  | .clearPendingInboundForShards shards => !shards.contains m.shard || m.healPending
  | _ => true

def rebuilds : FenceCall → Bool
  | .clearInbound | .clearPendingInboundForShards _ | .clearStaleInbound | .cleanupCompleted
  | .restart => true
  | _ => false

/-- A call that rebuilds the fence finds, for each shard that must stay fenced, a pending entry
that it keeps. -/
def Retains (n : FencedNode) (call : FenceCall) : Prop :=
  rebuilds call = true → ∀ shard, n.owes shard = true →
    ∃ m ∈ n.manager.inboundMigrations, m.shard = shard ∧ m.completed = false ∧
      spares call m = true

end FencedNode

/-! ### What the operations do to the bitmap -/

namespace MigrationManager

variable {mgr : MigrationManager} {shard : UInt16} {fromNode : UInt64} {ms : List InboundMigration}

def Shadowed (mgr : MigrationManager) : Prop :=
  ∀ m ∈ mgr.inboundMigrations, m.completed = false → mgr.inboundBitmap m.shard = true

/-- The other entries are the same, and a changed one is of the same shard and is pending only if
the entry it replaces was. -/
theorem mem_updateFirst {p : InboundMigration → Bool} {f : InboundMigration → InboundMigration}
    {m : InboundMigration} (h : m ∈ updateFirst p f ms) :
    m ∈ ms ∨ ∃ m' ∈ ms, p m' = true ∧ m = f m' := by
  induction ms with
  | nil => cases h
  | cons m' ms ih => grind [updateFirst]

/-- What an operation that does not rebuild the bitmap may do: every pending entry keeps its bit,
and no bit is cleared but those of the released shards. -/
structure Keeps (mgr mgr' : MigrationManager) (released : UInt16 → Prop) : Prop where
  shadowed : mgr.Shadowed → mgr'.Shadowed
  kept : ∀ shard, ¬ released shard → mgr.inboundBitmap shard = true →
    mgr'.inboundBitmap shard = true

variable {mgr' mgr'' : MigrationManager} {released : UInt16 → Prop}

theorem Keeps.refl : mgr.Keeps mgr released := ⟨id, fun _ _ hbit => hbit⟩

theorem Keeps.trans (h : mgr.Keeps mgr' released) (h' : mgr'.Keeps mgr'' released) :
    mgr.Keeps mgr'' released :=
  ⟨fun hs => h'.shadowed (h.shadowed hs),
    fun shard hnot hbit => h'.kept shard hnot (h.kept shard hnot hbit)⟩

theorem setBit_self (mgr : MigrationManager) (shard : UInt16) :
    (mgr.setBit shard).inboundBitmap shard = true := Function.update_self _ _ _

theorem setBit_of_true {shard' : UInt16} (h : mgr.inboundBitmap shard' = true) :
    (mgr.setBit shard).inboundBitmap shard' = true := by
  show Function.update mgr.inboundBitmap shard true shard' = true
  by_cases heq : shard' = shard
  · rw [heq, Function.update_self]
  · rw [Function.update_of_ne heq, h]

/-- Entries are changed to entries of the same shard, none of which becomes pending again. -/
theorem keeps_of_entries
    (h : ∀ m ∈ ms, m.completed = false → ∃ m' ∈ mgr.inboundMigrations, m'.shard = m.shard ∧
      m'.completed = false) : mgr.Keeps { mgr with inboundMigrations := ms } released := by
  refine ⟨fun hs m hm hpending => ?_, fun _ _ hbit => hbit⟩
  obtain ⟨m', hm', hshard, hpending'⟩ := h m hm hpending
  rw [← hshard]
  exact hs m' hm' hpending'

section

variable (mgr)

theorem keeps_setBit (shard : UInt16) : mgr.Keeps (mgr.setBit shard) released :=
  ⟨fun hs m hm hpending => setBit_of_true (hs m hm hpending), fun _ _ => setBit_of_true⟩

theorem keeps_push (m : InboundMigration) : mgr.Keeps (mgr.push m) released := by
  refine ⟨fun hs m' hm' hpending => ?_, fun _ _ => setBit_of_true⟩
  rcases List.mem_append.mp hm' with hm' | hm'
  · exact setBit_of_true (hs m' hm' hpending)
  · rw [List.mem_singleton.mp hm']
    exact setBit_self _ _

section

variable {p : InboundMigration → Bool} {f : InboundMigration → InboundMigration}
  (hshard : ∀ m, (f m).shard = m.shard) (hdone : ∀ m, m.completed = true → (f m).completed = true)
include hshard hdone

theorem keeps_of_rewritten
    (hms : ∀ m ∈ ms, m ∈ mgr.inboundMigrations ∨ ∃ m' ∈ mgr.inboundMigrations, f m' = m) :
    mgr.Keeps { mgr with inboundMigrations := ms } released := by
  refine keeps_of_entries fun m hm hpending => ?_
  rcases hms m hm with hm | ⟨m', hm', rfl⟩
  · exact ⟨m, hm, rfl, hpending⟩
  refine ⟨m', hm', (hshard m').symm, ?_⟩
  by_contra hdone'
  rw [hdone m' (Bool.eq_true_of_not_eq_false hdone')] at hpending
  cases hpending

theorem keeps_map :
    mgr.Keeps { mgr with inboundMigrations := mgr.inboundMigrations.map f } released :=
  mgr.keeps_of_rewritten hshard hdone fun _ hm => .inr (List.mem_map.mp hm)

theorem keeps_updateFirst :
    mgr.Keeps { mgr with inboundMigrations := updateFirst p f mgr.inboundMigrations } released :=
  mgr.keeps_of_rewritten hshard hdone fun _ hm =>
    (mem_updateFirst hm).imp_right fun ⟨m', hm', _, h⟩ => ⟨m', hm', h.symm⟩

/-- Either the first entry of a kind is changed, or there is none. -/
theorem keeps_updateFirst_or (hnone : mgr.Keeps mgr' released) :
    mgr.Keeps (if mgr.inboundMigrations.any p then
      { mgr with inboundMigrations := updateFirst p f mgr.inboundMigrations } else mgr')
      released := by
  split
  · exact mgr.keeps_updateFirst hshard hdone
  · exact hnone

end

section

variable (shard) (fromNode)

theorem keeps_tombstone :
    mgr.Keeps (mgr.recordCompletedInboundTombstone shard fromNode) released := by
  unfold recordCompletedInboundTombstone
  split
  · exact .refl
  refine keeps_of_entries fun m hm hpending => ?_
  rcases List.mem_append.mp hm with hm | hm
  · exact ⟨m, hm, rfl, hpending⟩
  · rw [List.mem_singleton.mp hm] at hpending
    cases hpending

theorem keeps_registerInboundSource :
    mgr.Keeps (mgr.registerInboundSource shard fromNode) released :=
  mgr.keeps_updateFirst_or (fun _ => rfl) (fun _ h => h) (mgr.keeps_push _)

theorem keeps_registerHealSource :
    mgr.Keeps (mgr.registerHealSource shard fromNode) released :=
  mgr.keeps_updateFirst_or (fun _ => rfl) (fun _ h => h) (mgr.keeps_push _)

theorem keeps_markHealFenceActive : mgr.Keeps (mgr.markHealFenceActive shard) released := by
  unfold markHealFenceActive
  split
  · refine (mgr.keeps_map ?_ ?_).trans (keeps_setBit _ shard)
    · exact fun m => by split <;> rfl
    · exact fun m h => by split <;> exact h
  · exact mgr.keeps_push _

theorem markHealFenceActive_bit : (mgr.markHealFenceActive shard).inboundBitmap shard = true := by
  unfold markHealFenceActive
  split <;> exact setBit_self _ _

theorem keeps_markInboundActive : mgr.Keeps (mgr.markInboundActive shard) released := by
  unfold markInboundActive
  split
  · exact .refl
  · exact mgr.keeps_push _

theorem keeps_reacquire : mgr.Keeps (mgr.reacquire shard fromNode) released := by
  have hrevived : mgr.Keeps { mgr with inboundMigrations := _ } released :=
    mgr.keeps_map (f := fun m => if m.shard == shard then { m with lost := false } else m)
      (fun m => by split <;> rfl) (fun m h => by split <;> exact h)
  unfold reacquire
  dsimp only
  split
  · split
    · exact hrevived
    · exact hrevived.trans (keeps_setBit _ shard)
  · split
    · have hsentinel := hrevived.trans (keeps_updateFirst _
        (p := fun m => m.shard == shard && m.fromNode == 0)
        (f := fun m => { m with fromNode }) (fun _ => rfl) fun _ h => h)
      split
      · exact hsentinel
      · exact hsentinel.trans (keeps_setBit _ shard)
    · exact hrevived.trans (keeps_push _ _)

end

theorem keeps_startInbound (tasks : List (UInt16 × UInt64)) :
    mgr.Keeps (mgr.startInbound tasks) released := by
  induction tasks generalizing mgr with
  | nil => exact .refl
  | cons task tasks ih => exact (mgr.keeps_reacquire task.1 task.2).trans (ih _)

theorem keeps_markInboundLost (shards : List UInt16) :
    mgr.Keeps (mgr.markInboundLost shards) released :=
  mgr.keeps_map (fun m => by split <;> rfl) (fun m h => by split <;> exact h)

section

variable (hshard : released shard)
include hshard

/-- The bit of a shard without a pending entry is cleared. -/
theorem keeps_clearBit
    (hdone : ∀ m ∈ mgr.inboundMigrations, m.shard = shard → m.completed = true) :
    mgr.Keeps { mgr with inboundBitmap := Function.update mgr.inboundBitmap shard false }
      released := by
  refine ⟨fun hs m hm hpending => ?_, fun shard' hnot hbit => ?_⟩
  · have hne : m.shard ≠ shard := fun heq => by
      rw [hdone m hm heq] at hpending
      cases hpending
    exact (Function.update_of_ne hne ..).trans (hs m hm hpending)
  · have hne : shard' ≠ shard := fun heq => hnot (heq ▸ hshard)
    exact (Function.update_of_ne hne ..).trans hbit

theorem keeps_settleBit : mgr.Keeps (mgr.settleBit shard) released := by
  unfold settleBit
  split
  · exact .refl
  case isFalse hnone =>
    refine mgr.keeps_clearBit hshard fun m hm heq => ?_
    by_contra hpending
    exact hnone (List.any_eq_true.mpr ⟨m, hm, by simp [heq, hpending]⟩)

theorem keeps_markInboundComplete : mgr.Keeps (mgr.markInboundComplete shard) released := by
  refine Keeps.trans ?_ (keeps_settleBit _ hshard)
  exact mgr.keeps_updateFirst_or (fun _ => rfl) (fun _ _ => rfl)
    (mgr.keeps_updateFirst_or (fun _ => rfl) (fun _ _ => rfl) (mgr.keeps_tombstone shard 0))

theorem keeps_markInboundCompleteFromSource (fromNode : UInt64) :
    mgr.Keeps (mgr.markInboundCompleteFromSource shard fromNode) released := by
  refine Keeps.trans ?_ (keeps_settleBit _ hshard)
  exact mgr.keeps_updateFirst_or (fun _ => rfl) (fun _ _ => rfl) (mgr.keeps_updateFirst_or
    (fun _ => rfl) (fun _ _ => rfl) (mgr.keeps_tombstone shard fromNode))

theorem keeps_markInboundCompleteAll :
    mgr.Keeps (mgr.markInboundCompleteAll shard) released := by
  refine Keeps.trans ?_ (keeps_clearBit _ hshard ?_)
  · split
    · exact mgr.keeps_map (fun m => by split <;> rfl) fun m h => by split <;> trivial
    · exact mgr.keeps_tombstone shard 0
  · split
    case isTrue =>
      intro m hm heq
      grind [complete]
    case isFalse hnone =>
      intro m hm heq
      unfold recordCompletedInboundTombstone at hm
      split at hm
      case isTrue hany => grind
      case isFalse => grind [InboundMigration.pending]

end

end

theorem Shadowed.bit_of_any (hs : mgr.Shadowed) {p : InboundMigration → Bool}
    (hany : mgr.inboundMigrations.any p = true)
    (hp : ∀ m ∈ mgr.inboundMigrations, p m = true → m.shard = shard ∧ m.completed = false) :
    mgr.inboundBitmap shard = true := by
  obtain ⟨m, hm, hpm⟩ := List.any_eq_true.mp hany
  obtain ⟨hshard, hpending⟩ := hp m hm hpm
  exact hshard ▸ hs m hm hpending

theorem registerHealSource_bit (hs : mgr.Shadowed) (shard : UInt16) (fromNode : UInt64) :
    (mgr.registerHealSource shard fromNode).inboundBitmap shard = true := by
  unfold registerHealSource
  split
  case isTrue hany => exact hs.bit_of_any hany (by simp +contextual [pendingFrom])
  case isFalse => exact setBit_self _ _

/-! ### Rebuilding and restoring -/

/-- Every entry of the new state has its bit, and so has every pending entry that is spared. -/
def Spared (mgr next : MigrationManager) (spared : InboundMigration → Prop) : Prop :=
  next.Shadowed ∧ ∀ m ∈ mgr.inboundMigrations, m.completed = false → spared m →
    next.inboundBitmap m.shard = true

theorem spared_rebuild {spared : InboundMigration → Prop}
    (hkept : ∀ m ∈ mgr.inboundMigrations, m.completed = false → spared m → m ∈ ms) :
    mgr.Spared (rebuild ms) spared := by
  have hshadowed : (rebuild ms).Shadowed := fun m hm hpending =>
    List.any_eq_true.mpr ⟨m, hm, by simp [hpending]⟩
  exact ⟨hshadowed, fun m hm hpending hsp => hshadowed m (hkept m hm hpending hsp) hpending⟩

/-- The fence is rebuilt only if an entry goes. -/
theorem spared_filter (hs : mgr.Shadowed) {p : InboundMigration → Bool}
    {spared : InboundMigration → Prop}
    (hkept : ∀ m ∈ mgr.inboundMigrations, m.completed = false → spared m →
      m ∈ mgr.inboundMigrations.filter p) :
    mgr.Spared (if (mgr.inboundMigrations.filter p).length < mgr.inboundMigrations.length
      then rebuild (mgr.inboundMigrations.filter p)
      else { mgr with inboundMigrations := mgr.inboundMigrations.filter p }) spared := by
  split
  · exact spared_rebuild hkept
  · exact ⟨fun m hm hpending => hs m (List.mem_of_mem_filter hm) hpending,
      fun m hm hpending _ => hs m hm hpending⟩

theorem length_entryBytes (m : InboundMigration) : (entryBytes m).length = 10 := by
  simp [entryBytes]

theorem readEntries_flatMap (ms : List InboundMigration) (rest : List UInt8) :
    readEntries ms.length (ms.flatMap entryBytes ++ rest) =
      ms.map fun m => (m.shard, m.fromNode) := by
  induction ms with
  | nil => rfl
  | cons m ms ih =>
    have hdrop : ((m :: ms).flatMap entryBytes ++ rest).drop 10 =
        ms.flatMap entryBytes ++ rest := by
      rw [List.flatMap_cons, List.append_assoc, ← length_entryBytes m, List.drop_left]
    have hshard : leAt 2 ((m :: ms).flatMap entryBytes ++ rest) 0 = m.shard.toNat := by
      rw [List.flatMap_cons, entryBytes, List.append_assoc, List.append_assoc, leAt_toLe]
      exact Nat.mod_eq_of_lt m.shard.toNat_lt
    have hfrom : leAt 8 ((m :: ms).flatMap entryBytes ++ rest) 2 = m.fromNode.toNat := by
      rw [List.flatMap_cons, entryBytes, List.append_assoc, List.append_assoc,
        leAt_append_right (by simp), length_toLe, Nat.sub_self, leAt_toLe]
      exact Nat.mod_eq_of_lt m.fromNode.toNat_lt
    rw [List.length_cons, readEntries, hdrop, ih, hshard, hfrom]
    simp

theorem keeps_restoreEntry (mgr : MigrationManager) (entry : UInt16 × UInt64) :
    mgr.Keeps (mgr.restoreEntry entry) fun _ => False := by
  unfold restoreEntry
  split
  · exact .refl
  · exact mgr.keeps_push _

structure Restored (mgr : MigrationManager) : Prop where
  shadowed : mgr.Shadowed
  pending : ∀ m ∈ mgr.inboundMigrations, m.completed = false

theorem Restored.restoreEntry (h : mgr.Restored) (entry : UInt16 × UInt64) :
    (mgr.restoreEntry entry).Restored ∧
      (mgr.restoreEntry entry).inboundBitmap entry.1 = true := by
  refine ⟨⟨(mgr.keeps_restoreEntry entry).shadowed h.shadowed, ?_⟩, ?_⟩
  · unfold MigrationManager.restoreEntry
    split
    · exact h.pending
    exact forall_mem_concat.mpr ⟨h.pending, rfl⟩
  · unfold MigrationManager.restoreEntry
    split
    case isTrue hany =>
      exact h.shadowed.bit_of_any hany (by simp +contextual [h.pending])
    case isFalse => exact setBit_self _ _

theorem Restored.foldl (h : mgr.Restored) (entries : List (UInt16 × UInt64)) :
    let next := entries.foldl MigrationManager.restoreEntry mgr
    next.Restored ∧
      (∀ shard, mgr.inboundBitmap shard = true → next.inboundBitmap shard = true) ∧
      ∀ entry ∈ entries, next.inboundBitmap entry.1 = true := by
  induction entries generalizing mgr with
  | nil => exact ⟨h, fun _ hbit => hbit, nofun⟩
  | cons entry entries ih =>
    obtain ⟨hrestored, hbit⟩ := h.restoreEntry entry
    obtain ⟨hrest, hkept, hall⟩ := ih hrestored
    have hkeeps := mgr.keeps_restoreEntry entry
    refine ⟨hrest, fun shard hs => hkept shard (hkeeps.kept shard id hs), fun entry' hmem => ?_⟩
    rcases List.mem_cons.mp hmem with rfl | hmem
    · exact hkept _ hbit
    · exact hall entry' hmem

/-- What a manager serialized, if it is restored at all, is restored in full. -/
theorem restoreInbound_serialize {crc32 : List UInt8 → UInt32} {restored : MigrationManager}
    (h : new.restoreInbound crc32 (mgr.serializeInbound crc32) = .ok restored) :
    restored = ((mgr.inboundMigrations.filter fun m => !m.completed).map
      fun m => (m.shard, m.fromNode)).foldl MigrationManager.restoreEntry new := by
  generalize hpending : (mgr.inboundMigrations.filter fun m => !m.completed) = pending
  obtain ⟨tail, hdata, htail⟩ : ∃ tail, mgr.serializeInbound crc32 =
      toLe 4 pending.length ++ (pending.flatMap entryBytes ++ tail) ∧ tail.length = 4 := by
    refine ⟨toLe 4 (crc32 (toLe 4 pending.length ++ pending.flatMap entryBytes)).toNat, ?_,
      length_toLe 4 _⟩
    rw [serializeInbound, hpending, List.append_assoc]
  have hbody : (pending.flatMap entryBytes).length = pending.length * 10 := by
    rw [List.length_flatMap, List.map_congr_left fun m _ => length_entryBytes m]
    simp
  have hlength : (mgr.serializeInbound crc32).length = 4 + pending.length * 10 + 4 := by
    rw [hdata, List.length_append, List.length_append, length_toLe, hbody, htail]
    omega
  have hcount : leAt 4 (mgr.serializeInbound crc32) 0 = pending.length % 256 ^ 4 := by
    rw [hdata, leAt_toLe]
  have hdrop : (mgr.serializeInbound crc32).drop 4 = pending.flatMap entryBytes ++ tail := by
    rw [hdata]
    exact List.drop_left' (length_toLe 4 _)
  unfold restoreInbound at h
  rw [if_neg, if_neg (by omega), if_neg (by omega)] at h
  · dsimp only at h
    rw [hdrop, hcount] at h
    split at h
    · cases h
    case isFalse hexpected =>
      -- The declared length matches, so the count was not cut to 32 bits.
      have hall : pending.length % 256 ^ 4 = pending.length := by omega
      split at h
      · cases h
      · rw [hall, readEntries_flatMap] at h
        exact (Except.ok.inj h).symm
  · rw [List.isEmpty_iff_length_eq_zero]
    omega

theorem restored_new : new.Restored := ⟨nofun, nofun⟩

theorem restart_spec (hs : mgr.Shadowed) (crc32 : List UInt8 → UInt32) :
    (mgr.restart crc32).Shadowed ∧ ∀ m ∈ mgr.inboundMigrations, m.completed = false →
      (mgr.restart crc32).inboundBitmap m.shard = true := by
  unfold restart
  split
  case h_1 restored hok =>
    rw [restoreInbound_serialize hok]
    obtain ⟨hrestored, -, hall⟩ := restored_new.foldl
      ((mgr.inboundMigrations.filter fun m => !m.completed).map fun m => (m.shard, m.fromNode))
    refine ⟨hrestored.shadowed, fun m hm hpending => hall (m.shard, m.fromNode) ?_⟩
    exact List.mem_map_of_mem (List.mem_filter.mpr ⟨hm, by simp [hpending]⟩)
  case h_2 => exact ⟨hs, hs⟩

end MigrationManager

/-! ### Whole runs -/

namespace FencedNode

open MigrationManager

variable {n : FencedNode} (crc32 : List UInt8 → UInt32)

/-- Every pending entry and every shard that must stay fenced has its bit set. -/
structure Inv (n : FencedNode) : Prop where
  shadowed : n.manager.Shadowed
  fenced : n.Fenced

variable {call : FenceCall}

/-- A call that does not rebuild the fence clears the bit of a released shard at most. -/
theorem keeps_apply (mgr : MigrationManager) (hcall : rebuilds call = false) :
    mgr.Keeps (apply crc32 mgr call) fun shard => releases shard call = true := by
  cases call with
  | startInbound tasks => exact mgr.keeps_startInbound tasks
  | markInboundActive shard => exact mgr.keeps_markInboundActive shard
  | registerInboundSource shard fromNode => exact mgr.keeps_registerInboundSource shard fromNode
  | registerHealSource shard fromNode => exact mgr.keeps_registerHealSource shard fromNode
  | markHealFenceActive shard => exact mgr.keeps_markHealFenceActive shard
  | markInboundComplete shard => exact mgr.keeps_markInboundComplete (beq_self_eq_true _)
  | markInboundCompleteAll shard => exact mgr.keeps_markInboundCompleteAll (beq_self_eq_true _)
  | markInboundCompleteFromSource shard fromNode =>
    exact mgr.keeps_markInboundCompleteFromSource (beq_self_eq_true _) fromNode
  | markInboundLost shards => exact mgr.keeps_markInboundLost shards
  | clearInbound | clearPendingInboundForShards | clearStaleInbound | cleanupCompleted | restart =>
    cases hcall

variable {mgr : MigrationManager}

/-- A shard that is marked has its bit set afterwards. -/
theorem bit_of_marks (hs : mgr.Shadowed)
    {shard : UInt16} (hmarks : marks mgr shard call = true) :
    (apply crc32 mgr call).inboundBitmap shard = true := by
  cases call with
  | registerHealSource shard' fromNode =>
    rw [← beq_iff_eq.mp hmarks]
    exact registerHealSource_bit hs shard' fromNode
  | markHealFenceActive shard' =>
    rw [← beq_iff_eq.mp hmarks]
    exact mgr.markHealFenceActive_bit shard'
  | markInboundLost shards =>
    obtain ⟨-, hany⟩ := Bool.and_eq_true_iff.mp hmarks
    exact hs.bit_of_any hany (by simp +contextual)
  | _ => cases hmarks

/-- A call that rebuilds the fence keeps the bits of the entries it spares. -/
theorem rebuild_apply (hs : mgr.Shadowed) (hcall : rebuilds call = true) :
    mgr.Spared (apply crc32 mgr call) (spares call · = true) := by
  cases call with
  | clearInbound =>
    refine spared_rebuild fun m hm hpending hspares => ?_
    have hspares : (m.lost || m.healPending) = true := hspares
    exact List.mem_filter.mpr ⟨hm, by simp [hpending, hspares]⟩
  | clearPendingInboundForShards shards =>
    refine spared_filter hs fun m hm hpending hspares => ?_
    have hspares : (!shards.contains m.shard || m.healPending) = true := hspares
    exact List.mem_filter.mpr ⟨hm, by rw [Bool.or_assoc, hspares, Bool.or_true]⟩
  | clearStaleInbound =>
    refine spared_filter hs fun m hm hpending _ => ?_
    exact List.mem_filter.mpr ⟨hm, by simp [hpending]⟩
  | cleanupCompleted =>
    refine spared_rebuild fun m hm hpending _ => ?_
    exact List.mem_filter.mpr ⟨hm, by simp [hpending]⟩
  | restart =>
    obtain ⟨hshadowed, hbits⟩ := restart_spec hs crc32
    exact ⟨hshadowed, fun m hm hpending _ => hbits m hm hpending⟩
  | _ => cases hcall

theorem Inv.step (h : n.Inv) (hretains : n.Retains call) :
    (n.step crc32 call).Inv := by
  cases hcall : rebuilds call with
  | true =>
    obtain ⟨hshadowed, hbits⟩ := rebuild_apply crc32 h.shadowed hcall
    refine ⟨hshadowed, fun shard howes => ?_⟩
    rcases Bool.or_eq_true_iff.mp howes with howes | hmarks
    · obtain ⟨m, hm, rfl, hpending, hspares⟩ :=
        hretains hcall shard (Bool.and_eq_true_iff.mp howes).1
      exact hbits m hm hpending hspares
    · exact bit_of_marks crc32 h.shadowed hmarks
  | false =>
    have hkeeps := keeps_apply crc32 n.manager hcall
    refine ⟨hkeeps.shadowed h.shadowed, fun shard howes => ?_⟩
    rcases Bool.or_eq_true_iff.mp howes with howes | hmarks
    · obtain ⟨howes, hreleases⟩ := Bool.and_eq_true_iff.mp howes
      refine hkeeps.kept shard (fun hr => ?_) (h.fenced shard howes)
      rw [hr] at hreleases
      cases hreleases
    · exact bit_of_marks crc32 h.shadowed hmarks

theorem fenced_of_retains (crc32 : List UInt8 → UInt32) (calls : List FenceCall)
    (h : Guarded (step crc32) Retains ⟨MigrationManager.new, fun _ => false⟩ calls) :
    (run (step crc32) ⟨MigrationManager.new, fun _ => false⟩ calls).Fenced :=
  (h.invariant (I := Inv) (fun _ _ hn hcall => hn.step crc32 hcall)
    ⟨restored_new.shadowed, fun _ h => absurd h Bool.false_ne_true⟩).fenced

/-- A lost shard stays fenced over a topology change, also when another shard is completed. -/
theorem fenced_demo :
    let n := run (step fun _ => 0) ⟨MigrationManager.new, fun _ => false⟩
      [.registerInboundSource 7 2, .markInboundLost [7], .clearInbound,
        .registerInboundSource 8 2, .markInboundComplete 8, .cleanupCompleted]
    n.owes 7 = true ∧ n.Fenced := by
  refine ⟨by decide +kernel, fenced_of_retains _ _ ⟨nofun, nofun, fun _ shard howes => ?_, nofun,
    nofun, fun _ shard howes => ?_, trivial⟩⟩
  all_goals
    have heq : shard = 7 := by
      by_contra hne
      simp [step, marks, releases, hne] at howes
    subst heq
    exact ⟨_, List.mem_cons_self, by decide +kernel, by decide +kernel, by decide +kernel⟩

/-- The shard is marked lost, and an abort of its migration clears the fence. -/
theorem lost_shard_unfenced :
    ¬ (run (step fun _ => 0) ⟨MigrationManager.new, fun _ => false⟩
      [.registerInboundSource 7 2, .markInboundLost [7],
        .clearPendingInboundForShards [7]]).Fenced := by
  intro h
  have := h 7 (by decide +kernel)
  revert this
  decide +kernel

end FencedNode

end TeraSlab.Cluster
