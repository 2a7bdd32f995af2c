import TeraSlab.Foundations.Run

/-!
# Replay defence of gossip messages

A node keeps for every peer the highest sequence number it has accepted from it and a bitmap of the
256 numbers below. A message is accepted when its number is higher than all before, or lies in the
window and is not marked. The numbers belong to an incarnation of the peer: a newer one starts over.

A jump by exactly the size of the window leaves the number that was the highest inside the window
but does not mark it, so that this one number can be accepted again.
-/

namespace TeraSlab.Cluster

open Foundations

/-! ### The bitmap -/

def replayWindowBits : Nat := 256

/-- 256 bits in four words. -/
abbrev Bitmap := Vector (BitVec 64) 4

namespace Bitmap

def zero : Bitmap := Vector.replicate 4 0

variable (b : Bitmap)

def setBit (bit : Nat) : Bitmap :=
  if h : bit / 64 < 4 then b.set (bit / 64) (b[bit / 64] ||| (1#64 <<< (bit % 64))) else b

def testBit (bit : Nat) : Bool :=
  if h : bit / 64 < 4 then b[bit / 64] &&& (1#64 <<< (bit % 64)) ≠ 0#64 else false

/-- One round of the shift: the low part of a word and, across the word boundary, its high part. -/
def shiftWord (wordShift bitShift : Nat) (out : Bitmap) (i : Fin 4) : Bitmap :=
  if h : i + wordShift < 4 then
    if bitShift = 0 then out.set (i + wordShift) (out[i + wordShift] ||| b[i])
    else
      let out := out.set (i + wordShift) (out[i + wordShift] ||| b[i] <<< bitShift)
      if h' : i + wordShift + 1 < 4 then
        out.set (i + wordShift + 1) (out[i + wordShift + 1] ||| b[i] >>> (64 - bitShift))
      else out
  else out

def shiftLeft (shift : Nat) : Bitmap :=
  if shift = 0 then b
  else if replayWindowBits ≤ shift then zero
  else (List.finRange 4).foldl (b.shiftWord (shift / 64) (shift % 64)) zero

/-! A bitmap is the function from positions to bits that `testBit` reads. -/

theorem and_oneShift_ne_zero (w : BitVec 64) {offset : Nat} (h : offset < 64) :
    decide (w &&& (1#64 <<< offset) ≠ 0#64) = w.getLsbD offset := by
  rw [← BitVec.twoPow_eq, BitVec.and_twoPow]
  have hne : BitVec.twoPow 64 offset ≠ 0#64 := by
    intro h0
    have hbit := congrArg (fun bits => bits.getLsbD offset) h0
    simp [h] at hbit
  cases w.getLsbD offset <;> simp [hne]

theorem testBit_of_lt {bit : Nat} (h : bit / 64 < 4) :
    b.testBit bit = b[bit / 64].getLsbD (bit % 64) := by
  rw [testBit, dif_pos h]
  exact and_oneShift_ne_zero _ (Nat.mod_lt _ (by decide))

theorem testBit_zero (bit : Nat) : zero.testBit bit = false := by
  by_cases h : bit / 64 < 4
  · simp [testBit_of_lt, h, zero]
  · simp [testBit, h]

theorem testBit_set_or {j k : Nat} (hj : j < 4) (w : BitVec 64) :
    testBit (b.set j (b[j] ||| w)) k = (b.testBit k || (k / 64 = j && w.getLsbD (k % 64))) := by
  by_cases hk : k / 64 < 4
  · rw [testBit_of_lt _ hk, testBit_of_lt _ hk]
    by_cases hword : j = k / 64
    · subst hword
      simp
    · rw [Vector.getElem_set_ne _ _ hword]
      simp [Ne.symm hword]
  · simp only [testBit, hk, dite_false]
    grind

theorem testBit_setBit {bit k : Nat} (hbit : bit < replayWindowBits) :
    (b.setBit bit).testBit k = (k = bit || b.testBit k) := by
  have hb : bit / 64 < 4 := by
    unfold replayWindowBits at hbit
    omega
  rw [setBit, dif_pos hb, testBit_set_or _ hb, ← BitVec.twoPow_eq, BitVec.getLsbD_twoPow]
  grind

/-- A round of the shift adds the bits of its word, moved. -/
theorem testBit_shiftWord {shift k : Nat} (out : Bitmap) (i : Fin 4) (hk : k < replayWindowBits) :
    (b.shiftWord (shift / 64) (shift % 64) out i).testBit k =
      (out.testBit k || (shift ≤ k && (k - shift) / 64 = i && b.testBit (k - shift))) := by
  unfold replayWindowBits at hk
  have hread : (shift ≤ k && (k - shift) / 64 = i && b.testBit (k - shift)) =
      (shift ≤ k && (k - shift) / 64 = i && b[i].getLsbD ((k - shift) % 64)) := by
    by_cases hi : (k - shift) / 64 = i
    · have hlt : (k - shift) / 64 < 4 := hi ▸ i.isLt
      simp [testBit_of_lt _ hlt, hi]
    · simp [hi]
  unfold shiftWord
  split_ifs with hdst hbit hnext
  · -- Whole words: the word moves as it is.
    rw [testBit_set_or _ hdst]
    grind
  · rw [testBit_set_or _ hnext, testBit_set_or _ hdst, BitVec.getLsbD_shiftLeft,
      BitVec.getLsbD_ushiftRight]
    grind
  · rw [testBit_set_or _ hdst, BitVec.getLsbD_shiftLeft]
    grind
  · grind

/-- A shift by less than the window moves every bit up; what leaves the window is lost. -/
theorem testBit_shiftLeft {shift k : Nat} (hshift : shift < replayWindowBits)
    (hk : k < replayWindowBits) :
    (b.shiftLeft shift).testBit k = (shift ≤ k && b.testBit (k - shift)) := by
  unfold shiftLeft
  by_cases h0 : shift = 0
  · simp [h0]
  rw [if_neg h0, if_neg (not_le.mpr hshift)]
  have hrounds : ∀ (rounds : List (Fin 4)) (out : Bitmap),
      (rounds.foldl (b.shiftWord (shift / 64) (shift % 64)) out).testBit k = (out.testBit k ||
        rounds.any fun i => shift ≤ k && (k - shift) / 64 = i && b.testBit (k - shift)) := by
    intro rounds
    induction rounds with
    | nil => simp
    | cons i rounds ih =>
      intro out
      rw [List.foldl_cons, ih, testBit_shiftWord b out i hk, List.any_cons, Bool.or_assoc]
  have hword : (k - shift) / 64 < 4 := by
    unfold replayWindowBits at hk
    omega
  rw [hrounds, testBit_zero, Bool.false_or, Bool.eq_iff_iff, List.any_eq_true]
  constructor
  · rintro ⟨i, -, hi⟩
    simp only [Bool.and_eq_true] at hi ⊢
    exact ⟨hi.1.1, hi.2⟩
  · intro hbit
    exact ⟨⟨(k - shift) / 64, hword⟩, List.mem_finRange _, by simp [hbit]⟩

end Bitmap

/-! ### The window -/

structure ReplayWindow where
  incarnation : Nat := 0
  highest : Nat := 0
  bitmap : Bitmap := .zero

namespace ReplayWindow

def checkAndRecord (w : ReplayWindow) (seq : Nat) : ReplayWindow × Bool :=
  -- The first message of a peer, or of an incarnation of it.
  if w.highest = 0 ∧ w.bitmap = .zero then ({ w with highest := seq }, true)
  else
    match compare seq w.highest with
    | .gt =>
      let diff := seq - w.highest
      ({ w with
          bitmap := if replayWindowBits ≤ diff then .zero
            else (w.bitmap.shiftLeft diff).setBit (diff - 1)
          highest := seq }, true)
    | .eq => (w, false)
    | .lt =>
      let lag := w.highest - seq
      if replayWindowBits < lag then (w, false)
      else if w.bitmap.testBit (lag - 1) then (w, false)
      else ({ w with bitmap := w.bitmap.setBit (lag - 1) }, true)

def checkAndRecordForIncarnation (w : ReplayWindow) (incarnation seq : Nat) :
    ReplayWindow × Bool :=
  match compare incarnation w.incarnation with
  | .gt => checkAndRecord { incarnation } seq
  | .lt => (w, false)
  | .eq => w.checkAndRecord seq

/-- The window after a message with an incarnation and a sequence number. -/
def offer (w : ReplayWindow) (p : Nat × Nat) : ReplayWindow :=
  (w.checkAndRecordForIncarnation p.1 p.2).1

def accepts (w : ReplayWindow) (p : Nat × Nat) : Bool :=
  (w.checkAndRecordForIncarnation p.1 p.2).2

def accepted (w : ReplayWindow) : List (Nat × Nat) → List (Nat × Nat)
  | [] => []
  | p :: ps => if w.accepts p then p :: (w.offer p).accepted ps else (w.offer p).accepted ps

/-! ### What one message does -/

variable {w : ReplayWindow} {p : Nat × Nat} {seen : Set (Nat × Nat)}

inductive Offered (w : ReplayWindow) (p : Nat × Nat) : ReplayWindow → Bool → Prop where
  /-- The first of a newer incarnation. -/
  | renew (h : w.incarnation < p.1) : Offered w p ⟨p.1, p.2, .zero⟩ true
  | first (h : p.1 = w.incarnation) (h0 : w.highest = 0) (hb : w.bitmap = .zero) :
      Offered w p ⟨p.1, p.2, .zero⟩ true
  | jump (h : p.1 = w.incarnation) (hseq : w.highest < p.2)
      (hfar : replayWindowBits ≤ p.2 - w.highest) : Offered w p ⟨p.1, p.2, .zero⟩ true
  | slide (h : p.1 = w.incarnation) (hseq : w.highest < p.2)
      (hnear : p.2 - w.highest < replayWindowBits) :
      Offered w p ⟨p.1, p.2, (w.bitmap.shiftLeft (p.2 - w.highest)).setBit
        (p.2 - w.highest - 1)⟩ true
  | late (h : p.1 = w.incarnation) (hseq : p.2 < w.highest)
      (hnear : w.highest - p.2 ≤ replayWindowBits)
      (hbit : w.bitmap.testBit (w.highest - p.2 - 1) = false) :
      Offered w p { w with bitmap := w.bitmap.setBit (w.highest - p.2 - 1) } true
  /-- A message that is refused is not newer than what was accepted. -/
  | refuse (h : p.1 < w.incarnation ∨ p.1 = w.incarnation ∧ p.2 ≤ w.highest ∧
      ¬ (w.highest = 0 ∧ w.bitmap = .zero)) : Offered w p w false

theorem checkAndRecord_offered {incarnation seq : Nat} (h : incarnation = w.incarnation) :
    Offered w (incarnation, seq) (w.checkAndRecord seq).1 (w.checkAndRecord seq).2 := by
  subst h
  unfold checkAndRecord
  split_ifs with h0
  · have hw : ({ w with highest := seq } : ReplayWindow) = ⟨w.incarnation, seq, .zero⟩ := by
      rw [← h0.2]
    rw [hw]
    exact .first rfl h0.1 h0.2
  · split
    · rename_i hcmp
      have hlt : w.highest < seq := compare_gt_iff_gt.mp hcmp
      dsimp only
      split_ifs with hfar
      · exact .jump rfl hlt hfar
      · exact .slide rfl hlt (not_le.mp hfar)
    · rename_i hcmp
      have heq : seq = w.highest := compare_eq_iff_eq.mp hcmp
      exact .refuse (.inr ⟨rfl, heq.le, h0⟩)
    · rename_i hcmp
      have hlt : seq < w.highest := compare_lt_iff_lt.mp hcmp
      dsimp only
      split_ifs with hfar hbit
      · exact .refuse (.inr ⟨rfl, hlt.le, h0⟩)
      · exact .refuse (.inr ⟨rfl, hlt.le, h0⟩)
      · exact .late rfl hlt (not_lt.mp hfar) (Bool.eq_false_iff.mpr hbit)

theorem offered (w : ReplayWindow) (p : Nat × Nat) : Offered w p (w.offer p) (w.accepts p) := by
  unfold offer accepts checkAndRecordForIncarnation
  split
  · rename_i hcmp
    have hlt : w.incarnation < p.1 := compare_gt_iff_gt.mp hcmp
    exact .renew hlt
  · rename_i hcmp
    exact .refuse (.inl (compare_lt_iff_lt.mp hcmp))
  · rename_i hcmp
    exact checkAndRecord_offered (compare_eq_iff_eq.mp hcmp)

/-! ### Accepted once -/

/-- The window knows the accepted messages: those of its incarnation that lie in the window are
marked, and there are none of a newer incarnation. -/
structure Covers (w : ReplayWindow) (seen : Set (Nat × Nat)) : Prop where
  incarnation : ∀ p ∈ seen, p.1 ≤ w.incarnation
  highest : ∀ seq, (w.incarnation, seq) ∈ seen → 1 ≤ seq ∧ seq ≤ w.highest
  marked : ∀ seq, (w.incarnation, seq) ∈ seen → seq < w.highest →
    w.highest - seq ≤ replayWindowBits → w.bitmap.testBit (w.highest - seq - 1)

theorem covers_empty : Covers {} ∅ := ⟨nofun, nofun, nofun⟩

/-- The message does not move the window by exactly its size. -/
def NoExactJump (w : ReplayWindow) (p : Nat × Nat) : Prop :=
  p.1 = w.incarnation → w.highest ≠ 0 → p.2 ≠ w.highest + replayWindowBits

instance (w : ReplayWindow) (p : Nat × Nat) : Decidable (NoExactJump w p) :=
  inferInstanceAs (Decidable (_ → _ → _))

/-- What is accepted was not accepted before. -/
theorem Covers.not_seen (h : Covers w seen) (hacc : w.accepts p) : p ∉ seen := by
  intro hp
  have hoff := offered w p
  rw [hacc] at hoff
  generalize w.offer p = w' at hoff
  have hcur : p.1 = w.incarnation → 1 ≤ p.2 ∧ p.2 ≤ w.highest := fun h1 =>
    h.highest p.2 (h1 ▸ hp)
  cases hoff with
  | renew hlt => exact absurd (h.incarnation p hp) (not_le.mpr hlt)
  | first | jump | slide =>
    omega
  | late h1 hseq hnear hbit =>
    have hmark := h.marked p.2 (h1 ▸ hp) hseq hnear
    rw [hbit] at hmark
    cases hmark

/-- A window that starts at the message knows it, when nothing else can be in reach. -/
theorem covers_restart (hseq : 1 ≤ p.2) (hinc : ∀ q ∈ seen, q.1 ≤ p.1)
    (hfar : ∀ seq, (p.1, seq) ∈ seen → 1 ≤ seq ∧ seq + replayWindowBits < p.2) :
    Covers ⟨p.1, p.2, .zero⟩ (insert p seen) := by
  refine ⟨?_, ?_, ?_⟩
  · rintro q (rfl | hq)
    · exact le_refl _
    · exact hinc q hq
  · rintro seq (heq | hq)
    · obtain rfl : seq = p.2 := congrArg Prod.snd heq
      exact ⟨hseq, le_refl _⟩
    · have := hfar seq hq
      exact ⟨this.1, show seq ≤ p.2 by omega⟩
  · rintro seq (heq | hq) hlt hnear
    · obtain rfl : seq = p.2 := congrArg Prod.snd heq
      exact absurd hlt (lt_irrefl _)
    have := hfar seq hq
    dsimp only at hnear
    omega

theorem Covers.step (h : Covers w seen) (hseq : 1 ≤ p.2) (hjump : NoExactJump w p) :
    Covers (w.offer p) (if w.accepts p then insert p seen else seen) := by
  have hoff := offered w p
  generalize w.offer p = w' at hoff ⊢
  generalize w.accepts p = ok at hoff ⊢
  cases hoff with
  | renew hlt =>
    refine covers_restart hseq (fun q hq => (h.incarnation q hq).trans hlt.le) fun seq hmem => ?_
    exact absurd (h.incarnation _ hmem) (not_le.mpr hlt)
  | first h1 h0 hb =>
    refine covers_restart hseq (fun q hq => h1 ▸ h.incarnation q hq) fun seq hmem => ?_
    have := h.highest seq (h1 ▸ hmem)
    omega
  | jump h1 hlt hfar =>
    refine covers_restart hseq (fun q hq => h1 ▸ h.incarnation q hq) fun seq hmem => ?_
    have hle := h.highest seq (h1 ▸ hmem)
    have hne := hjump h1 (by omega)
    exact ⟨hle.1, by omega⟩
  | slide h1 hlt hnear =>
    refine ⟨?_, ?_, ?_⟩
    · rintro q (rfl | hq)
      · exact le_refl _
      · exact h1 ▸ h.incarnation q hq
    · rintro seq (heq | hq)
      · obtain rfl : seq = p.2 := congrArg Prod.snd heq
        exact ⟨hseq, le_refl _⟩
      · have hle := h.highest seq (h1 ▸ hq)
        exact ⟨hle.1, hle.2.trans hlt.le⟩
    · rintro seq (heq | hq) hseq' hreach
      · obtain rfl : seq = p.2 := congrArg Prod.snd heq
        exact absurd hseq' (lt_irrefl _)
      -- The old highest gets its mark now; the others had theirs, and it moves along.
      have hle := (h.highest seq (h1 ▸ hq)).2
      dsimp only at hseq' hreach ⊢
      rw [Bitmap.testBit_setBit _ (by omega)]
      rcases hle.eq_or_lt with rfl | hbelow
      · simp
      have hmark := h.marked seq (h1 ▸ hq) hbelow (by omega)
      rw [Bitmap.testBit_shiftLeft _ hnear (by omega)]
      have hpos : p.2 - seq - 1 - (p.2 - w.highest) = w.highest - seq - 1 := by omega
      rw [hpos, hmark]
      simp
      omega
  | late h1 hlt hnear hbit =>
    have hset : w.highest - p.2 - 1 < replayWindowBits := by omega
    refine ⟨?_, ?_, ?_⟩
    · rintro q (rfl | hq)
      · exact h1.le
      · exact h.incarnation q hq
    · rintro seq (heq | hq)
      · obtain rfl : seq = p.2 := congrArg Prod.snd heq
        exact ⟨hseq, hlt.le⟩
      · exact h.highest seq hq
    · rintro seq (heq | hq) hseq' hreach
      · obtain rfl : seq = p.2 := congrArg Prod.snd heq
        simp [Bitmap.testBit_setBit _ hset]
      · rw [Bitmap.testBit_setBit _ hset, h.marked seq hq hseq' hreach, Bool.or_true]
  | refuse hold => exact h

variable {ps : List (Nat × Nat)}

theorem Covers.accepted_nodup (h : Covers w seen)
    (hseq : ∀ p ∈ ps, 1 ≤ p.2) (hjump : Guarded offer NoExactJump w ps) :
    (w.accepted ps).Nodup ∧ ∀ p ∈ w.accepted ps, p ∉ seen := by
  induction ps generalizing w seen with
  | nil => exact ⟨List.nodup_nil, nofun⟩
  | cons p ps ih =>
    have hstep := h.step (hseq p List.mem_cons_self) hjump.1
    obtain ⟨hnodup, hnot⟩ := ih hstep (fun q hq => hseq q (List.mem_cons_of_mem p hq)) hjump.2
    rw [accepted]
    split_ifs with hacc
    · rw [if_pos hacc] at hnot
      refine ⟨List.nodup_cons.mpr ⟨fun hp => hnot p hp (Set.mem_insert p seen), hnodup⟩, ?_⟩
      rintro q hq
      rcases List.mem_cons.mp hq with rfl | hq
      · exact h.not_seen hacc
      · exact fun hmem => hnot q hq (Set.mem_insert_of_mem p hmem)
    · rw [if_neg hacc] at hnot
      exact ⟨hnodup, hnot⟩

/-! ### The newest message -/

/-- The window is not ahead of the messages that were offered. -/
structure Behind (w : ReplayWindow) (ps : List (Nat × Nat)) : Prop where
  incarnation : w.incarnation = 0 ∨ ∃ p ∈ ps, p.1 = w.incarnation
  highest : w.highest = 0 ∧ w.bitmap = .zero ∨ (w.incarnation, w.highest) ∈ ps

theorem Behind.step (h : Behind w ps) (p : Nat × Nat) :
    Behind (w.offer p) (ps ++ [p]) := by
  have hoff := offered w p
  generalize w.offer p = w' at hoff ⊢
  generalize w.accepts p = ok at hoff
  have hnew : ∀ bitmap, Behind ⟨p.1, p.2, bitmap⟩ (ps ++ [p]) := fun bitmap =>
    ⟨.inr ⟨p, by simp, rfl⟩, .inr (by simp)⟩
  have hold : Behind w (ps ++ [p]) :=
    ⟨h.incarnation.imp_right fun ⟨q, hq, heq⟩ => ⟨q, List.mem_append_left _ hq, heq⟩,
      h.highest.imp_right (List.mem_append_left _)⟩
  cases hoff with
  | renew | first | jump | slide => exact hnew _
  | late h1 hlt hnear hbit =>
    refine ⟨hold.incarnation, hold.highest.elim (fun h0 => ?_) .inr⟩
    omega
  | refuse hold' => exact hold

theorem behind_run (ps : List (Nat × Nat)) : Behind (run offer {} ps) ps := by
  induction ps using List.reverseRecOn with
  | nil => exact ⟨.inl rfl, .inl ⟨rfl, rfl⟩⟩
  | append_singleton ps p ih =>
    rw [run_append]
    exact ih.step p

/-- The message is of no older incarnation than those before it, and its number is higher than
theirs in the same incarnation. -/
def Newest (ps : List (Nat × Nat)) (p : Nat × Nat) : Prop :=
  ∀ q ∈ ps, q.1 ≤ p.1 ∧ (q.1 = p.1 → q.2 < p.2)

theorem Behind.accepts (h : Behind w ps) (hp : Newest ps p) :
    w.accepts p := by
  have hoff := offered w p
  generalize w.offer p = w' at hoff
  generalize hok : w.accepts p = ok at hoff ⊢
  cases hoff with
  | refuse hold =>
    rcases hold with hlt | ⟨h1, hle, hne⟩
    · rcases h.incarnation with h0 | ⟨q, hq, heq⟩
      · omega
      · have := (hp q hq).1
        omega
    · have hmem := h.highest.resolve_left hne
      have := (hp _ hmem).2 h1.symm
      omega
  | _ => rfl

/-! ### Every sequence of messages -/

/-- No message is accepted twice, and the newest one is always accepted. -/
structure RejectsReplays (ps : List (Nat × Nat)) : Prop where
  once : (accepted {} ps).Nodup
  newest : ∀ front p back, ps = front ++ p :: back → Newest front p →
    (run offer {} front).accepts p

theorem rejectsReplays_of_noExactJump (ps : List (Nat × Nat)) (hseq : ∀ p ∈ ps, 1 ≤ p.2)
    (hjump : Guarded offer NoExactJump {} ps) : RejectsReplays ps where
  once := (covers_empty.accepted_nodup hseq hjump).1
  newest front _ _ _ hp := (behind_run front).accepts hp

/-- A jump out of the window, a message from within it and replays. -/
theorem rejectsReplays_demo :
    let ps := [(1, 1), (1, 300), (1, 299), (1, 299), (1, 1), (2, 1), (1, 301)]
    RejectsReplays ps ∧ accepted {} ps = [(1, 1), (1, 300), (1, 299), (2, 1)] := by
  intro ps
  exact ⟨rejectsReplays_of_noExactJump ps (by decide) (by decide), by decide⟩

/-- Message 1 is accepted again after a jump by 256. -/
theorem replay_after_exact_jump : ¬ RejectsReplays [(1, 1), (1, 257), (1, 1)] :=
  fun h => absurd h.once (by decide)

end ReplayWindow

end TeraSlab.Cluster
