import TeraSlab.Foundations.Patch
import TeraSlab.Foundations.Run

/-!
# The streaming write buffer

`StreamingWriteDevice` buffers the append tail of a device and writes it out in large pieces.
Offsets and lengths are counted in blocks: every call is block aligned. A write, and the flush of
a sync, is one section of the state lock. A read takes the lock twice at most and reads the inner
device outside of it. An inner write may fail after some of its blocks have landed.

A read or sync in flight carries what a device without a buffer held at each moment since the
call began.
-/

namespace TeraSlab.Device

open Foundations

variable {α : Type*}

/-- The flush limits, in blocks. -/
structure StreamConfig where
  flushThreshold : Nat
  flushChunk : Nat
  flushThreshold_pos : 0 < flushThreshold
  flushChunk_pos : 0 < flushChunk

/-- Limits given in bytes are rounded up to whole blocks, one at least. -/
def StreamConfig.new (blockSize flushThreshold flushChunk : Nat) : StreamConfig where
  flushThreshold := max ((flushThreshold + blockSize - 1) / blockSize) 1
  flushChunk := max ((flushChunk + blockSize - 1) / blockSize) 1
  flushThreshold_pos := by omega
  flushChunk_pos := by omega

/-- The inner device and the buffered tail: `buf` covers the blocks from `base` on. -/
structure Stream (α : Type*) where
  inner : Nat → α
  base : Nat
  buf : List α

/-- How an inner write ends: it succeeds, or fails after some blocks have landed. -/
abbrev Fault := Option Nat

namespace Stream

variable (s : Stream α)

def view : Nat → α := patch s.inner s.base s.buf

def stop : Nat := s.base + s.buf.length

/-- Write the blocks in pieces of `chunk`, up to the first inner write that fails. The first
argument bounds the number of pieces. -/
def writePieces (chunk : Nat) :
    Nat → List Fault → (Nat → α) → Nat → List α → (Nat → α) × Bool
  | 0, _, inner, _, _ => (inner, true)
  | fuel + 1, faults, inner, off, blocks =>
    if blocks.isEmpty then (inner, true)
    else
      let take := blocks.take chunk
      match faults.headD none with
      | some landed => (patch inner off (take.take landed), false)
      | none =>
        writePieces chunk fuel faults.tail (patch inner off take) (off + take.length)
          (blocks.drop chunk)

/-- Write out the buffer, up to its last block unless forced. -/
def flushHead (cfg : StreamConfig) (faults : List Fault) (force : Bool) : Stream α × Bool :=
  let flushable := if force then s.buf.length else s.buf.length - 1
  if flushable = 0 then (s, true)
  else
    match writePieces cfg.flushChunk flushable faults s.inner s.base (s.buf.take flushable) with
    | (inner, true) =>
      ({ inner, base := s.base + flushable, buf := s.buf.drop flushable }, true)
    | (inner, false) => ({ s with inner }, false)

/-- Take the blocks into the buffer, or write them through. Returns how many of them took
effect. -/
def accept (cfg : StreamConfig) (faults : List Fault) (offset : Nat) (blocks : List α) :
    Stream α × Bool × Nat :=
  if s.buf.isEmpty then ({ s with base := offset, buf := blocks }, true, blocks.length)
  else if s.base ≤ offset ∧ offset ≤ s.stop then
    let place := offset - s.base
    let overlap := min (s.stop - offset) blocks.length
    let kept := splice s.buf place (blocks.take overlap)
    ({ s with buf := kept ++ blocks.drop overlap }, true, blocks.length)
  else if offset + blocks.length ≤ s.base then
    match faults.headD none with
    | none => ({ s with inner := patch s.inner offset blocks }, true, blocks.length)
    | some landed => ({ s with inner := patch s.inner offset (blocks.take landed) }, false, landed)
  else
    match s.flushHead cfg faults true with
    | (s', true) => ({ s' with base := offset, buf := blocks }, true, blocks.length)
    | (s', false) => (s', false, 0)

/-- The lock section of `pwrite`. -/
def pwrite (cfg : StreamConfig) (faults flushFaults : List Fault) (offset : Nat)
    (blocks : List α) : Stream α × Bool × Nat :=
  match s.accept cfg faults offset blocks with
  | (s', true, landed) =>
    if cfg.flushThreshold ≤ s'.buf.length then
      ((s'.flushHead cfg flushFaults false).1, (s'.flushHead cfg flushFaults false).2, landed)
    else (s', true, landed)
  | (s', false, landed) => (s', false, landed)

/-- Does the buffer hold no block of the range? -/
def Misses (offset len : Nat) : Prop :=
  s.buf.isEmpty = true ∨ offset + len ≤ s.base ∨ s.stop ≤ offset

instance (offset len : Nat) : Decidable (s.Misses offset len) :=
  inferInstanceAs (Decidable (_ ∨ _))

end Stream

/-! ### Reads and syncs in flight -/

/-- A part of a read that is to come from the inner device. -/
structure Gap where
  off : Nat
  start : Nat
  len : Nat
deriving DecidableEq, Repr

inductive ReadPhase where
  /-- Before the first lock section. -/
  | first
  /-- The first section left no gap: the second section is next. -/
  | second
  /-- The whole range is to be read from the inner device. -/
  | whole
  | gaps (below above : Option Gap)
  | done
  | failed
deriving DecidableEq, Repr

/-- A `pread` or `pread_nocache` call. The two differ only in how the inner device is asked. -/
structure Read (α : Type*) where
  offset : Nat
  len : Nat
  /-- What was written to the caller's buffer, by place in it. -/
  buffer : Nat → Option α
  phase : ReadPhase
  seen : List (Nat → α)

namespace Read

def fill (r : Read α) (inner : Nat → α) (g : Gap) : Read α :=
  { r with buffer := fun i =>
      if g.start ≤ i ∧ i < g.start + g.len then some (inner (g.off + (i - g.start)))
      else r.buffer i }

/-- The first lock section: copy what the buffer holds of the range, note the rest. -/
def firstSection (r : Read α) (s : Stream α) : Read α :=
  if s.Misses r.offset r.len then { r with phase := .second }
  else
    let lo := max r.offset s.base
    let hi := min (r.offset + r.len) s.stop
    let copied := fun i =>
      if lo ≤ r.offset + i ∧ r.offset + i < hi then s.buf[r.offset + i - s.base]? else r.buffer i
    let below := if r.offset < lo then some ⟨r.offset, 0, lo - r.offset⟩ else none
    let above :=
      if hi < r.offset + r.len then some ⟨hi, hi - r.offset, r.offset + r.len - hi⟩ else none
    { r with
      buffer := copied
      phase := if below = none ∧ above = none then .second else .gaps below above }

def advance (r : Read α) (s : Stream α) (ok : Bool) : Read α :=
  match r.phase with
  | .first => if r.len = 0 then { r with phase := .done } else r.firstSection s
  | .second => { r with phase := if s.Misses r.offset r.len then .whole else .done }
  | .whole =>
    if ok then { r.fill s.inner ⟨r.offset, 0, r.len⟩ with phase := .done }
    else { r with phase := .failed }
  | .gaps (some below) above =>
    if ok then
      { r.fill s.inner below with phase := if above = none then .done else .gaps none above }
    else { r with phase := .failed }
  | .gaps none (some above) =>
    if ok then { r.fill s.inner above with phase := .done } else { r with phase := .failed }
  | .gaps none none => { r with phase := .done }
  | .done => r
  | .failed => r

end Read

inductive SyncPhase where
  | first
  /-- The buffer was written out: the inner sync is next. -/
  | flushed
  | done
  | failed
deriving DecidableEq, Repr

structure Sync (α : Type*) where
  phase : SyncPhase
  seen : List (Nat → α)

/-! ### Interleavings -/

/-- The device, the calls in flight and what a device without a buffer would hold. -/
structure StreamSystem (α : Type*) where
  stream : Stream α
  device : Nat → α
  reads : List (Read α)
  syncs : List (Sync α)

inductive StreamCall (α : Type*) where
  | pwrite (offset : Nat) (blocks : List α) (faults flushFaults : List Fault)
  | startRead (offset len : Nat)
  | stepRead (place : Nat) (ok : Bool)
  | startSync
  | stepSync (place : Nat) (ok : Bool) (faults : List Fault)

namespace StreamSystem

/-- Every call in flight sees what the device holds now. -/
def observe (s : StreamSystem α) : StreamSystem α :=
  { s with
    reads := s.reads.map fun r =>
      if r.phase = .done then r else { r with seen := s.device :: r.seen }
    syncs := s.syncs.map fun y => { y with seen := s.device :: y.seen } }

def stepSync (cfg : StreamConfig) (s : StreamSystem α) (y : Sync α) (ok : Bool)
    (faults : List Fault) : Stream α × Sync α :=
  match y.phase with
  | .first =>
    let (stream, flushed) := s.stream.flushHead cfg faults true
    (stream, { y with phase := if flushed then .flushed else .failed })
  | .flushed => (s.stream, { y with phase := if ok then .done else .failed })
  | .done => (s.stream, y)
  | .failed => (s.stream, y)

/-- One atomic step: a lock section, an inner read or an inner sync. -/
def act (cfg : StreamConfig) (s : StreamSystem α) : StreamCall α → StreamSystem α
  | .pwrite offset blocks faults flushFaults =>
    if blocks.isEmpty then s
    else
      let (stream, _, landed) := s.stream.pwrite cfg faults flushFaults offset blocks
      { s with stream, device := patch s.device offset (blocks.take landed) }
  | .startRead offset len =>
    { s with reads := s.reads ++ [⟨offset, len, fun _ => none, .first, [s.device]⟩] }
  | .stepRead place ok =>
    { s with reads := s.reads.modify place fun r => r.advance s.stream ok }
  | .startSync => { s with syncs := s.syncs ++ [⟨.first, [s.device]⟩] }
  | .stepSync place ok faults =>
    match s.syncs[place]? with
    | none => s
    | some y =>
      let (stream, y') := s.stepSync cfg y ok faults
      { s with stream, syncs := s.syncs.set place y' }

def step (cfg : StreamConfig) (s : StreamSystem α) (call : StreamCall α) : StreamSystem α :=
  (s.act cfg call).observe

def init (device : Nat → α) : StreamSystem α := ⟨⟨device, 0, []⟩, device, [], []⟩

/-- The block was current at a moment of the call. -/
def Current (seen : List (Nat → α)) (b : Nat) (v : α) : Prop := ∃ d ∈ seen, d b = v

/-- A read that returned filled its buffer, each block with a version current at a moment of the
read. After a sync that returned, the inner device holds of each block a version current at a
moment since the sync began. -/
structure BehavesLikeDevice (s : StreamSystem α) : Prop where
  reads : ∀ r ∈ s.reads, r.phase = .done →
    ∀ i < r.len, ∃ v, r.buffer i = some v ∧ Current r.seen (r.offset + i) v
  syncs : ∀ y ∈ s.syncs, y.phase = .done → ∀ b, Current y.seen b (s.stream.inner b)

/-- No block of a read appears in the buffer between its two lock sections: at the second section
the read has a filled buffer, or the write buffer holds no block of its range. -/
def Steady (s : StreamSystem α) : StreamCall α → Prop
  | .stepRead place _ => ∀ r ∈ s.reads[place]?, r.phase = .second →
      (∀ i < r.len, (r.buffer i).isSome) ∨ s.stream.Misses r.offset r.len
  | _ => True

instance (s : StreamSystem α) : ∀ call, Decidable (s.Steady call)
  | .pwrite _ _ _ _ => isTrue trivial
  | .startRead _ _ => isTrue trivial
  | .stepRead place _ => inferInstanceAs (Decidable (∀ r ∈ s.reads[place]?, r.phase = .second → _))
  | .startSync => isTrue trivial
  | .stepSync _ _ _ => isTrue trivial

end StreamSystem

/-! ### What a lock section does -/

namespace Stream

variable {s : Stream α} {cfg : StreamConfig}

theorem writePieces_spec {chunk : Nat} (hchunk : 0 < chunk) (fuel : Nat) (faults : List Fault)
    (inner : Nat → α) (off : Nat) (blocks : List α) (hfuel : blocks.length ≤ fuel) :
    ∃ k, (writePieces chunk fuel faults inner off blocks).1 = patch inner off (blocks.take k) ∧
      ((writePieces chunk fuel faults inner off blocks).2 = true → blocks.length ≤ k) := by
  induction fuel generalizing faults inner off blocks with
  | zero => exact ⟨0, by simp [writePieces], fun _ => hfuel⟩
  | succ fuel ih =>
    rw [writePieces]
    by_cases hnil : blocks.isEmpty = true
    · rw [if_pos hnil, List.isEmpty_iff.mp hnil]
      exact ⟨0, by simp, fun _ => le_rfl⟩
    rw [if_neg hnil]
    cases faults.headD none with
    | some landed =>
      exact ⟨min landed chunk, by simp only [List.take_take], nofun⟩
    | none =>
      have hdrop : (blocks.drop chunk).length ≤ fuel := by
        rw [List.length_drop]
        omega
      obtain ⟨k, hk, hall⟩ := ih faults.tail (patch inner off (blocks.take chunk))
        (off + (blocks.take chunk).length) (blocks.drop chunk) hdrop
      refine ⟨chunk + k, ?_, fun hok => ?_⟩
      · rw [hk, ← patch_append, ← List.take_add]
      have := hall hok
      rw [List.length_drop] at this
      omega

section

variable (s) (cfg) (faults : List Fault) (force : Bool)

/-- A flush writes a front of the buffer and does not change what a read returns. -/
theorem flushHead_spec :
    (∃ k, (s.flushHead cfg faults force).1.inner = patch s.inner s.base (s.buf.take k)) ∧
      (s.flushHead cfg faults force).1.view = s.view := by
  unfold flushHead
  have hle : (if force = true then s.buf.length else s.buf.length - 1) ≤ s.buf.length := by
    split <;> omega
  generalize (if force = true then s.buf.length else s.buf.length - 1) = flushable at hle
  by_cases hzero : flushable = 0
  · rw [if_pos hzero]
    exact ⟨⟨0, by simp⟩, rfl⟩
  rw [if_neg hzero]
  obtain ⟨k, hk, hall⟩ := writePieces_spec cfg.flushChunk_pos flushable faults s.inner s.base
    (s.buf.take flushable) (by rw [List.length_take]; omega)
  rcases hpieces : writePieces cfg.flushChunk flushable faults s.inner s.base
    (s.buf.take flushable) with ⟨inner, _ | _⟩
  · rw [hpieces, List.take_take] at hk
    refine ⟨⟨_, hk⟩, ?_⟩
    dsimp only at hk ⊢
    rw [view, hk, patch_take_patch, view]
  · rw [hpieces] at hk hall
    have hlen := hall rfl
    rw [List.take_of_length_le hlen] at hk
    refine ⟨⟨_, hk⟩, ?_⟩
    dsimp only at hk ⊢
    have hview : patch (patch s.inner s.base (s.buf.take flushable))
        (s.base + (s.buf.take flushable).length) (s.buf.drop flushable) = s.view := by
      rw [← patch_append, List.take_append_drop, view]
    rw [List.length_take_of_le hle] at hview
    rw [view, hk]
    exact hview

/-- A forced flush that succeeds leaves nothing in the buffer. -/
theorem flushHead_force (hok : (s.flushHead cfg faults true).2 = true) :
    (s.flushHead cfg faults true).1.buf = [] := by
  unfold flushHead at hok ⊢
  rw [if_pos rfl] at hok ⊢
  by_cases hzero : s.buf.length = 0
  · rw [if_pos hzero]
    exact List.length_eq_zero_iff.mp hzero
  rw [if_neg hzero] at hok ⊢
  split at hok
  · exact List.drop_length
  · cases hok

/-- What the inner device holds of a block after a section: the same as before, or what a read
returned before or returns after it. -/
def Carries (s s' : Stream α) : Prop :=
  ∀ b, s'.inner b = s.inner b ∨ s'.inner b = s.view b ∨ s'.inner b = s'.view b

theorem carries_flushHead (b : Nat) : (s.flushHead cfg faults force).1.inner b = s.inner b ∨
      (s.flushHead cfg faults force).1.inner b = s.view b := by
  obtain ⟨⟨k, hk⟩, -⟩ := s.flushHead_spec cfg faults force
  rw [hk, view]
  by_cases hmem : s.base ≤ b ∧ b < s.base + (s.buf.take k).length
  · right
    have hlen : (s.buf.take k).length ≤ s.buf.length := List.length_take_le' _ _
    rw [patch_of_mem hmem.1 hmem.2, patch_of_mem hmem.1 (by omega), List.getElem_take]
  · exact .inl (patch_of_not_mem hmem)

end

theorem view_of_not_mem {b : Nat} (h : ¬ (s.base ≤ b ∧ b < s.base + s.buf.length)) :
    s.view b = s.inner b := patch_of_not_mem h

theorem Misses.view_eq {offset len i : Nat} (h : s.Misses offset len) (hi : i < len) :
    s.view (offset + i) = s.inner (offset + i) := by
  apply view_of_not_mem
  rcases h with h | h | h
  · rw [List.isEmpty_iff.mp h]
    simp
  · omega
  · rw [stop] at h
    omega

section

variable (s) (cfg) (faults flushFaults : List Fault) (offset : Nat) (blocks : List α)

/-- Taking blocks in is, to a reader, writing those that took effect. -/
theorem view_accept : (s.accept cfg faults offset blocks).1.view =
      patch s.view offset (blocks.take (s.accept cfg faults offset blocks).2.2) := by
  unfold accept
  split
  case isTrue hnil =>
    rw [List.take_length, view, view, List.isEmpty_iff.mp hnil, patch_nil]
  split
  case isTrue hin =>
    dsimp only
    rw [List.take_length, view, view]
    have hplace : offset - s.base ≤ s.buf.length := by
      have := hin.2
      rw [stop] at this
      omega
    have hoff : offset = s.base + (offset - s.base) := by omega
    conv_rhs => rw [hoff, patch_patch_splice hplace]
    have hroom : s.stop - offset = s.buf.length - (offset - s.base) := by
      rw [stop]
      omega
    rw [hroom, splice_take_append hplace]
  split
  case isTrue hbelow =>
    cases faults.headD none with
    | none =>
      rw [List.take_length, view, view]
      exact patch_comm (.inl hbelow)
    | some landed =>
      rw [view, view]
      dsimp only
      refine patch_comm (.inl ?_)
      rw [List.length_take]
      omega
  case isFalse =>
    have hflush := (s.flushHead_spec cfg faults true).2
    rcases hcase : s.flushHead cfg faults true with ⟨s', _ | _⟩
    · rw [hcase] at hflush
      rw [List.take_zero, patch_nil]
      exact hflush
    · have hbuf := s.flushHead_force cfg faults (by rw [hcase])
      rw [hcase] at hflush hbuf
      rw [List.take_length, ← hflush, view, view, hbuf, patch_nil]

theorem carries_accept : s.Carries (s.accept cfg faults offset blocks).1 := by
  intro b
  unfold accept
  split
  · exact .inl rfl
  split
  · exact .inl rfl
  split
  case isTrue hbelow =>
    -- A block that landed lies below the buffer, so a read returns it.
    have hlanded : ∀ xs : List α, xs.length ≤ blocks.length →
        patch s.inner offset xs b = s.inner b ∨ patch s.inner offset xs b =
          view { s with inner := patch s.inner offset xs } b := by
      intro xs hlen
      by_cases hmem : offset ≤ b ∧ b < offset + xs.length
      · right
        rw [view_of_not_mem]
        dsimp only
        omega
      · exact .inl (patch_of_not_mem hmem)
    cases faults.headD none with
    | none => exact (hlanded blocks le_rfl).imp_right .inr
    | some landed => exact (hlanded _ (List.length_take_le' _ _)).imp_right .inr
  case isFalse =>
    have hflush := s.carries_flushHead cfg faults true b
    rcases hcase : s.flushHead cfg faults true with ⟨s', _ | _⟩ <;> rw [hcase] at hflush <;>
      exact hflush.imp_right .inl

theorem pwrite_cases :
    let out := s.pwrite cfg faults flushFaults offset blocks
    let accepted := s.accept cfg faults offset blocks
    out.2.2 = accepted.2.2 ∧
      (out.1 = accepted.1 ∨ out.1 = (accepted.1.flushHead cfg flushFaults false).1) := by
  unfold pwrite
  rcases s.accept cfg faults offset blocks with ⟨s', _ | _, landed⟩
  · exact ⟨rfl, .inl rfl⟩
  dsimp only
  split
  · exact ⟨rfl, .inr rfl⟩
  · exact ⟨rfl, .inl rfl⟩

theorem view_pwrite : (s.pwrite cfg faults flushFaults offset blocks).1.view =
      patch s.view offset
        (blocks.take (s.pwrite cfg faults flushFaults offset blocks).2.2) := by
  obtain ⟨hlanded, heq | heq⟩ := s.pwrite_cases cfg faults flushFaults offset blocks
  · rw [hlanded, heq, view_accept]
  · rw [hlanded, heq, (flushHead_spec _ _ _ _).2, view_accept]

theorem carries_pwrite : s.Carries (s.pwrite cfg faults flushFaults offset blocks).1 := by
  have haccept := s.carries_accept cfg faults offset blocks
  obtain ⟨-, heq | heq⟩ := s.pwrite_cases cfg faults flushFaults offset blocks
  · rw [heq]
    exact haccept
  intro b
  rw [heq, (flushHead_spec _ _ _ _).2]
  rcases carries_flushHead (s.accept cfg faults offset blocks).1 cfg flushFaults false b with h | h
  · rw [h]
    exact haccept b
  · exact .inr (.inr h)

end

end Stream

/-! ### What a read in flight holds -/

namespace Read

open StreamSystem (Current)

variable {r : Read α} {s : Stream α} {inner inner' : Nat → α} {device device' : Nat → α} {i : Nat}

/-- The place of the caller's buffer was filled with a version of a moment of the read. -/
def Filled (r : Read α) (i : Nat) : Prop :=
  ∃ v, r.buffer i = some v ∧ Current r.seen (r.offset + i) v

/-- The inner device holds a version of a moment of the read. -/
def InnerSeen (r : Read α) (inner : Nat → α) (i : Nat) : Prop :=
  Current r.seen (r.offset + i) (inner (r.offset + i))

/-- The gap is a part of the range, of which the inner device holds versions of the read. -/
structure Loadable (r : Read α) (inner : Nat → α) (g : Gap) : Prop where
  off : g.off = r.offset + g.start
  seen : ∀ i < r.len, g.start ≤ i → i < g.start + g.len → r.InnerSeen inner i

def Sound (r : Read α) (inner : Nat → α) : Prop :=
  match r.phase with
  | .first => r.buffer = fun _ => none
  | .second => ∀ i < r.len, ∀ v, r.buffer i = some v → Current r.seen (r.offset + i) v
  | .whole => ∀ i < r.len, r.InnerSeen inner i
  | .gaps below above =>
      (∀ g, below = some g ∨ above = some g → r.Loadable inner g) ∧
      ∀ i < r.len, r.Filled i ∨
        ∃ g, (below = some g ∨ above = some g) ∧ g.start ≤ i ∧ i < g.start + g.len
  | .done => ∀ i < r.len, r.Filled i
  | .failed => True

theorem current_cons {seen : List (Nat → α)} {b : Nat} {v : α} (h : Current seen b v) :
    Current (device :: seen) b v := by
  obtain ⟨d, hd, hv⟩ := h
  exact ⟨d, List.mem_cons_of_mem _ hd, hv⟩

theorem current_moved {seen : List (Nat → α)} {b : Nat} (h : Current seen b (inner b))
    (hnow : device ∈ seen)
    (hinner : inner' b = inner b ∨ inner' b = device b ∨ inner' b = device' b) :
    Current (device' :: seen) b (inner' b) := by
  rcases hinner with heq | heq | heq
  · rw [heq]
    exact current_cons h
  · exact ⟨device, List.mem_cons_of_mem _ hnow, heq.symm⟩
  · exact ⟨device', List.mem_cons_self, heq.symm⟩

/-- A moment passes: the inner device may have been given versions that are or were current. -/
theorem Sound.observe (h : r.Sound inner) (hphase : r.phase ≠ .done) (hnow : device ∈ r.seen)
    (hinner : ∀ b, inner' b = inner b ∨ inner' b = device b ∨ inner' b = device' b) :
    Sound { r with seen := device' :: r.seen } inner' := by
  have hseen {i : Nat} (hi : r.InnerSeen inner i) := current_moved hi hnow (hinner _)
  unfold Sound at h ⊢
  dsimp only
  split at h
  case h_1 => exact h
  case h_2 => exact fun i hi v hv => current_cons (h i hi v hv)
  case h_3 => exact fun i hi => hseen (h i hi)
  case h_4 =>
    refine ⟨fun g hg => ⟨(h.1 g hg).off, fun i hi hge hlt => ?_⟩, fun i hi => ?_⟩
    · exact hseen ((h.1 g hg).seen i hi hge hlt)
    refine (h.2 i hi).imp_left ?_
    rintro ⟨v, hv, hcur⟩
    exact ⟨v, hv, current_cons hcur⟩
  case h_5 hdone => exact absurd hdone hphase
  case h_6 => trivial

section Advance

variable (hnow : s.view ∈ r.seen)
include hnow

theorem innerSeen_of_not_mem (h : ¬ (s.base ≤ r.offset + i ∧ r.offset + i < s.stop)) :
    r.InnerSeen s.inner i :=
  ⟨s.view, hnow, Stream.view_of_not_mem h⟩

theorem Sound.firstSection (hempty : r.buffer = fun _ => none) :
    (r.firstSection s).Sound s.inner := by
  unfold Read.firstSection
  by_cases hmiss : s.Misses r.offset r.len
  · rw [if_pos hmiss]
    intro i _ v hv
    rw [hempty] at hv
    cases hv
  · rw [if_neg hmiss]
    -- A place between the two bounds is copied from the buffer, which a read returns now.
    have hcopied : ∀ i, max r.offset s.base ≤ r.offset + i ∧
        r.offset + i < min (r.offset + r.len) s.stop →
        ∃ v, s.buf[r.offset + i - s.base]? = some v ∧ Current r.seen (r.offset + i) v := by
      intro i hi
      have hmem : s.base ≤ r.offset + i ∧ r.offset + i < s.base + s.buf.length := by
        rw [Stream.stop] at hi
        omega
      refine ⟨s.buf[r.offset + i - s.base], List.getElem?_eq_getElem _, s.view, hnow, ?_⟩
      exact patch_of_mem hmem.1 hmem.2
    unfold Sound
    dsimp only
    split
    case h_1 heq => split_ifs at heq
    case h_2 =>
      intro i hi v hv
      split at hv
      case isTrue hin =>
        obtain ⟨v', hv', hcur⟩ := hcopied i hin
        cases hv.symm.trans hv'
        exact hcur
      case isFalse =>
        rw [hempty] at hv
        cases hv
    case h_3 heq => split_ifs at heq
    case h_4 heq =>
      have hoverlap : r.offset < s.stop ∧ s.base < r.offset + r.len := by
        unfold Stream.Misses at hmiss
        omega
      rw [ite_eq_iff] at heq
      obtain ⟨-, heq⟩ | ⟨-, heq⟩ := heq
      · cases heq
      obtain ⟨rfl, rfl⟩ := ReadPhase.gaps.inj heq
      refine ⟨fun g hg => ?_, fun i hi => ?_⟩
      · rcases hg with hg | hg <;> rw [Option.ite_none_right_eq_some] at hg <;>
          obtain ⟨-, hgap⟩ := hg <;> cases hgap
        · refine ⟨(Nat.add_zero _).symm, fun i hi hge hlt => innerSeen_of_not_mem hnow ?_⟩
          dsimp only at hlt ⊢
          omega
        · refine ⟨?_, fun i hi hge hlt => innerSeen_of_not_mem hnow ?_⟩
          · dsimp only
            omega
          · dsimp only at hi hge hlt ⊢
            omega
      · by_cases hin : max r.offset s.base ≤ r.offset + i ∧
            r.offset + i < min (r.offset + r.len) s.stop
        · obtain ⟨v, hv, hcur⟩ := hcopied i hin
          refine .inl ⟨v, ?_, hcur⟩
          dsimp only
          rw [if_pos hin, hv]
        · right
          by_cases hlow : r.offset + i < max r.offset s.base
          · refine ⟨_, .inl (if_pos (by omega)), ?_, ?_⟩ <;> dsimp only <;> omega
          · refine ⟨_, .inr (if_pos (by omega)), ?_, ?_⟩ <;> dsimp only <;> omega
    case h_5 heq => split_ifs at heq
    case h_6 => trivial

omit hnow in
theorem Loadable.filled {g : Gap} (h : r.Loadable inner g) (hi : i < r.len) (hge : g.start ≤ i)
    (hlt : i < g.start + g.len) : (r.fill inner g).Filled i := by
  refine ⟨inner (g.off + (i - g.start)), if_pos ⟨hge, hlt⟩, ?_⟩
  have heq : g.off + (i - g.start) = r.offset + i := by
    rw [h.off]
    omega
  rw [heq]
  exact h.seen i hi hge hlt

omit hnow in
theorem Filled.fill {g : Gap} (h : r.Filled i) (hg : r.Loadable inner g) (hi : i < r.len) :
    (r.fill inner g).Filled i := by
  by_cases hin : g.start ≤ i ∧ i < g.start + g.len
  · exact hg.filled hi hin.1 hin.2
  · obtain ⟨v, hv, hcur⟩ := h
    exact ⟨v, (if_neg hin).trans hv, hcur⟩

theorem Sound.advance (h : r.Sound s.inner) (ok : Bool)
    (hsteady : r.phase = .second →
      (∀ i < r.len, (r.buffer i).isSome) ∨ s.Misses r.offset r.len) :
    (r.advance s ok).Sound s.inner := by
  have hsound := h
  unfold Read.advance
  unfold Sound at h
  cases hphase : r.phase with
  | first =>
    rw [hphase] at h
    by_cases hlen : r.len = 0
    · rw [if_pos hlen]
      intro i hi
      have hi : i < r.len := hi
      omega
    · rw [if_neg hlen]
      exact Sound.firstSection hnow h
  | second =>
    rw [hphase] at h
    by_cases hmiss : s.Misses r.offset r.len
    · rw [if_pos hmiss]
      exact fun i hi => ⟨s.view, hnow, hmiss.view_eq hi⟩
    rw [if_neg hmiss]
    intro i hi
    have hsome := (hsteady hphase).resolve_right hmiss i hi
    obtain ⟨v, hv⟩ := Option.isSome_iff_exists.mp hsome
    exact ⟨v, hv, h i hi v hv⟩
  | whole =>
    rw [hphase] at h
    cases ok with
    | false => trivial
    | true =>
      have hload : r.Loadable s.inner ⟨r.offset, 0, r.len⟩ := ⟨rfl, fun i hi _ _ => h i hi⟩
      exact fun i hi => hload.filled hi (Nat.zero_le i) (by rw [Nat.zero_add]; exact hi)
  | gaps below above =>
    rw [hphase] at h
    obtain ⟨hload, hall⟩ := h
    cases below with
    | some below =>
      cases ok with
      | false => trivial
      | true =>
        have hbelow := hload below (.inl rfl)
        -- The places of the lower gap are filled now, those of the upper one are next.
        have hfilled : ∀ i < r.len, (r.fill s.inner below).Filled i ∨
            ∃ g, above = some g ∧ g.start ≤ i ∧ i < g.start + g.len := by
          intro i hi
          rcases hall i hi with hf | ⟨g, hg | hg, hge, hlt⟩
          · exact .inl (hf.fill hbelow hi)
          · cases hg
            exact .inl (hbelow.filled hi hge hlt)
          · exact .inr ⟨g, hg, hge, hlt⟩
        cases above with
        | none => exact fun i hi => (hfilled i hi).resolve_right (by rintro ⟨g, hg, -⟩; cases hg)
        | some above =>
          refine ⟨fun g hg => ?_, fun i hi => (hfilled i hi).imp_right ?_⟩
          · have hg := hload g (.inr (hg.resolve_left nofun))
            exact ⟨hg.off, hg.seen⟩
          · rintro ⟨g, hg, hrange⟩
            exact ⟨g, .inr hg, hrange⟩
    | none =>
      cases above with
      | none =>
        intro i hi
        refine (hall i hi).resolve_right ?_
        rintro ⟨g, hg | hg, -⟩ <;> cases hg
      | some above =>
        cases ok with
        | false => trivial
        | true =>
          intro i hi
          have habove := hload above (.inr rfl)
          rcases hall i hi with hf | ⟨g, hg | hg, hge, hlt⟩
          · exact hf.fill habove hi
          · cases hg
          · cases hg
            exact habove.filled hi hge hlt
  | done => exact hsound
  | failed => exact hsound

omit hnow in
theorem advance_seen (r : Read α) (s : Stream α) (ok : Bool) : (r.advance s ok).seen = r.seen := by
  unfold Read.advance Read.firstSection Read.fill
  split <;> dsimp only <;> split_ifs <;> rfl

end Advance

end Read

/-! ### Whole runs -/

namespace StreamSystem

variable {s : StreamSystem α} {cfg : StreamConfig}

structure Inv (s : StreamSystem α) : Prop where
  view : s.stream.view = s.device
  reads : ∀ r ∈ s.reads, (r.phase ≠ .done → s.device ∈ r.seen) ∧ r.Sound s.stream.inner
  syncs : ∀ y ∈ s.syncs, s.device ∈ y.seen ∧
    (y.phase = .flushed ∨ y.phase = .done → ∀ b, Current y.seen b (s.stream.inner b))

theorem Inv.behavesLikeDevice (h : s.Inv) : s.BehavesLikeDevice := by
  refine ⟨fun r hr hdone => ?_, fun y hy hdone => (h.syncs y hy).2 (.inr hdone)⟩
  have hsound := (h.reads r hr).2
  unfold Read.Sound at hsound
  rw [hdone] at hsound
  exact hsound

theorem inv_init (device : Nat → α) : (init device).Inv :=
  ⟨patch_nil _ _, nofun, nofun⟩

/-- Once the calls in flight have seen the new contents the invariant holds again. -/
theorem inv_observe {inner device : Nat → α} (hview : s.stream.view = s.device)
    (hinner : ∀ b, s.stream.inner b = inner b ∨ s.stream.inner b = device b ∨
      s.stream.inner b = s.device b)
    (hreads : ∀ r ∈ s.reads, (r.phase ≠ .done → device ∈ r.seen) ∧ r.Sound inner)
    (hsyncs : ∀ y ∈ s.syncs, device ∈ y.seen ∧ (y.phase = .flushed ∨ y.phase = .done →
      ∀ b, Current y.seen b (inner b) ∨ s.stream.inner b = device b)) : s.observe.Inv := by
  refine ⟨hview, fun r hr => ?_, fun y hy => ?_⟩
  · obtain ⟨r, hmem, rfl⟩ := List.mem_map.mp hr
    obtain ⟨hnow, hsound⟩ := hreads r hmem
    by_cases hdone : r.phase = .done
    · rw [if_pos hdone]
      refine ⟨fun h => absurd hdone h, ?_⟩
      unfold Read.Sound at hsound ⊢
      rw [hdone] at hsound ⊢
      exact hsound
    · rw [if_neg hdone]
      exact ⟨fun _ => List.mem_cons_self, hsound.observe hdone (hnow hdone) hinner⟩
  · obtain ⟨y, hmem, rfl⟩ := List.mem_map.mp hy
    obtain ⟨hnow, hflushed⟩ := hsyncs y hmem
    refine ⟨List.mem_cons_self, fun hphase b => ?_⟩
    rcases hflushed hphase b with hcur | heq
    · exact Read.current_moved hcur hnow (hinner b)
    · exact ⟨device, List.mem_cons_of_mem _ hnow, heq.symm⟩

theorem Inv.stepSync (h : s.Inv) (cfg : StreamConfig) {y : Sync α} (hy : y ∈ s.syncs)
    (ok : Bool) (faults : List Fault) :
    let out := s.stepSync cfg y ok faults
    out.1.view = s.device ∧
      (∀ b, out.1.inner b = s.stream.inner b ∨ out.1.inner b = s.device b) ∧
      out.2.seen = y.seen ∧
      (out.2.phase = .flushed ∨ out.2.phase = .done →
        ∀ b, Current y.seen b (s.stream.inner b) ∨ out.1.inner b = s.device b) := by
  have hold : y.phase = .flushed ∨ y.phase = .done → ∀ b,
      Current y.seen b (s.stream.inner b) ∨ s.stream.inner b = s.device b :=
    fun hphase b => .inl ((h.syncs y hy).2 hphase b)
  unfold StreamSystem.stepSync
  cases hphase : y.phase with
  | first =>
    dsimp only
    have hview := (s.stream.flushHead_spec cfg faults true).2.trans h.view
    refine ⟨hview, fun b => ?_, rfl, fun hdone b => .inr ?_⟩
    · rw [← h.view]
      exact s.stream.carries_flushHead cfg faults true b
    -- The section flushed the whole buffer: the inner device holds what a read returns.
    have hok : (s.stream.flushHead cfg faults true).2 = true := by
      by_contra hfail
      rw [if_neg hfail] at hdone
      rcases hdone with hdone | hdone <;> cases hdone
    rw [← hview, Stream.view, s.stream.flushHead_force cfg faults hok, patch_nil]
  | flushed =>
    refine ⟨h.view, fun b => .inl rfl, rfl, fun _ => hold (.inl hphase)⟩
  | done => exact ⟨h.view, fun b => .inl rfl, rfl, fun _ => hold (.inr hphase)⟩
  | failed =>
    refine ⟨h.view, fun b => .inl rfl, rfl, fun hdone => ?_⟩
    rw [hphase] at hdone
    rcases hdone with hdone | hdone <;> cases hdone

theorem Inv.step (h : s.Inv) {call : StreamCall α} (hsteady : s.Steady call) :
    (s.step cfg call).Inv := by
  have hsame : ∀ b, s.stream.inner b = s.stream.inner b ∨ s.stream.inner b = s.device b ∨
      s.stream.inner b = s.device b := fun b => .inl rfl
  have hsyncs : ∀ stream : Stream α, ∀ y ∈ s.syncs, s.device ∈ y.seen ∧
      (y.phase = .flushed ∨ y.phase = .done →
        ∀ b, Current y.seen b (s.stream.inner b) ∨ stream.inner b = s.device b) :=
    fun stream y hy => ⟨(h.syncs y hy).1, fun hphase b => .inl ((h.syncs y hy).2 hphase b)⟩
  rw [StreamSystem.step]
  cases call with
  | pwrite offset blocks faults flushFaults =>
    by_cases hnil : blocks.isEmpty = true
    · rw [act, if_pos hnil]
      exact inv_observe h.view hsame h.reads (hsyncs s.stream)
    rw [act, if_neg hnil]
    have hview := s.stream.view_pwrite cfg faults flushFaults offset blocks
    have hcarries := s.stream.carries_pwrite cfg faults flushFaults offset blocks
    rw [h.view] at hview
    refine inv_observe hview (fun b => ?_) h.reads (hsyncs _)
    have := hcarries b
    rwa [h.view, hview] at this
  | startRead offset len =>
    exact inv_observe h.view hsame (forall_mem_concat.mpr ⟨h.reads,
      fun _ => List.mem_singleton_self _, rfl⟩) (hsyncs s.stream)
  | stepRead place ok =>
    refine inv_observe h.view hsame (fun r' hr' => ?_) (hsyncs s.stream)
    have hr' : r' ∈ s.reads.modify place fun r => r.advance s.stream ok := hr'
    obtain ⟨j, hj⟩ := List.mem_iff_getElem?.mp hr'
    rw [List.getElem?_modify] at hj
    obtain ⟨r, hr, hrr⟩ := Option.map_eq_some_iff.mp hj
    have hmem := List.mem_of_getElem? hr
    obtain ⟨hnow, hsound⟩ := h.reads r hmem
    by_cases hplace : place = j
    · rw [if_pos hplace] at hrr
      rw [← hplace] at hr
      subst hrr
      by_cases hdone : r.phase = .done
      · have hsame : r.advance s.stream ok = r := by rw [Read.advance, hdone]
        exact hsame.symm ▸ h.reads r hmem
      rw [Read.advance_seen]
      refine ⟨fun _ => hnow hdone, hsound.advance ?_ ok (hsteady r hr)⟩
      rw [h.view]
      exact hnow hdone
    · rw [if_neg hplace] at hrr
      exact hrr ▸ h.reads r hmem
  | startSync =>
    refine inv_observe h.view hsame h.reads (forall_mem_concat.mpr ⟨hsyncs s.stream,
      List.mem_singleton_self _, fun hphase => ?_⟩)
    rcases hphase with hphase | hphase <;> cases hphase
  | stepSync place ok faults =>
    rw [act]
    split
    · exact inv_observe h.view hsame h.reads (hsyncs s.stream)
    case h_2 y hy =>
      obtain ⟨hview, hinner, hseen, hflushed⟩ :=
        h.stepSync cfg (List.mem_of_getElem? hy) ok faults
      refine inv_observe hview (fun b => (hinner b).imp_right .inl) h.reads (fun z hz => ?_)
      rcases List.mem_or_eq_of_mem_set hz with hz | rfl
      · exact hsyncs _ z hz
      rw [hseen]
      exact ⟨(h.syncs y (List.mem_of_getElem? hy)).1, hflushed⟩

theorem behavesLikeDevice_of_steady (cfg : StreamConfig) (device : Nat → α)
    (calls : List (StreamCall α)) (h : Guarded (step cfg) Steady (init device) calls) :
    (run (step cfg) (init device) calls).BehavesLikeDevice :=
  (h.invariant (fun _ _ hs hcall => hs.step hcall) (inv_init device)).behavesLikeDevice

/-- A read over the buffered tail and the flushed part below it, with writes in between. -/
def demoCalls : List (StreamCall Nat) :=
  [.pwrite 4 [1, 2, 3] [] [], .startRead 3 4, .stepRead 0 true, .pwrite 0 [8] [] [],
    .stepRead 0 true, .stepRead 0 true, .startSync, .stepSync 0 true [], .stepSync 0 true []]

theorem behavesLikeDevice_demo :
    Guarded (step (StreamConfig.new 512 4096 1024)) Steady (init fun b => b) demoCalls ∧
      (run (step (StreamConfig.new 512 4096 1024)) (init fun b => b)
        demoCalls).BehavesLikeDevice :=
  ⟨by decide +kernel, behavesLikeDevice_of_steady _ _ _ (by decide +kernel)⟩

/-- A read finds nothing buffered, a write buffers the block it wants, and the read then finds it
buffered: it returns without having filled its buffer. -/
theorem unfilled_read_returns :
    ¬ (run (step (StreamConfig.new 512 4096 1024)) (init fun _ => 0)
      [.startRead 0 1, .stepRead 0 true, .pwrite 0 [7] [] [],
        .stepRead 0 true]).BehavesLikeDevice := by
  intro h
  obtain ⟨v, hv, -⟩ := h.reads _ List.mem_cons_self (by decide +kernel) 0 (by decide +kernel)
  cases hv

end StreamSystem

end TeraSlab.Device
