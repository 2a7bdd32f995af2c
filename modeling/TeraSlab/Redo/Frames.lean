import TeraSlab.Foundations.Blocks
import TeraSlab.Redo.Entry

/-!
# Frames in a byte region

A region parses from one position to another when it holds whole frames with increasing sequence
numbers and zero pads up to block boundaries. Parsing only looks at the bytes in between, and what
a flush writes parses: its frames, followed by a pad of four bytes or more or by none.

A pad of one to three bytes does not parse: the length word a scan reads there reaches into the
next block.
-/

namespace TeraSlab.Redo

open Foundations

variable {crc : List UInt8 → UInt32} {es : List RedoEntry} {prev align : Nat}

namespace RedoEntry

variable {data data' : List UInt8} {e : RedoEntry} {n : Nat}

section

variable (h : deserialize crc data = some (e, n))
include h

theorem deserialize_some :
    n = entryHeaderSize + len32At data 0 ∧ entryOverhead ≤ len32At data 0 ∧ n ≤ data.length ∧
      ∃ opType opData, RedoOp.deserialize opType opData = some e.op := by
  unfold deserialize at h
  dsimp only at h
  split_ifs at h
  split at h
  · cases h
  case h_2 hop =>
    cases h
    exact ⟨rfl, by omega, by omega, _, _, hop⟩

theorem pos_of_deserialize : 17 ≤ n := by
  obtain ⟨hn, hover, -⟩ := deserialize_some h
  unfold entryHeaderSize at hn
  unfold entryOverhead at hover
  omega

/-- A read depends on the bytes of its frame only. -/
theorem deserialize_congr (htake : data'.take n = data.take n) (hlen : n ≤ data'.length) :
    deserialize crc data' = some (e, n) := by
  obtain ⟨hn, hover, hfit, -⟩ := deserialize_some h
  have hfour : 4 ≤ n := (by omega : 4 ≤ 17).trans (pos_of_deserialize h)
  have hword : len32At data' 0 = len32At data 0 := by
    have htake4 := congrArg (List.take 4) htake
    rw [List.take_take, List.take_take, min_eq_left hfour] at htake4
    simp [len32At, leAt, htake4]
  have hframe : (data'.drop entryHeaderSize).take (len32At data 0) =
      (data.drop entryHeaderSize).take (len32At data 0) := by
    rw [List.take_drop, List.take_drop, ← hn, htake]
  have hdata : ¬ data.length < entryHeaderSize := by omega
  have hdata' : ¬ data'.length < entryHeaderSize := by omega
  have hcond : data'.length < entryHeaderSize + len32At data 0 ∨ len32At data 0 < entryOverhead ↔
      data.length < entryHeaderSize + len32At data 0 ∨ len32At data 0 < entryOverhead := by omega
  rw [← h]
  simp only [deserialize, hword, hframe, if_neg hdata, if_neg hdata', hcond]

end

theorem len32At_of_zeros (h : data.take 4 = List.replicate 4 0) : len32At data 0 = 0 := by
  rw [len32At, leAt, List.drop_zero, h]
  rfl

/-- A zero length word is the end of the frames. -/
theorem deserialize_zero (h : len32At data 0 = 0) : deserialize crc data = none := by
  simp [deserialize, h]

end RedoEntry

def frames (crc : List UInt8 → UInt32) (es : List RedoEntry) : List UInt8 :=
  es.flatMap (RedoEntry.serialize crc)

/-- Sequence numbers increase from the given one on (0 for none yet). -/
def Ascends : Nat → List RedoEntry → Prop
  | _, [] => True
  | prev, e :: es => (prev = 0 ∨ prev < e.sequence.toNat) ∧ Ascends e.sequence.toNat es

def lastSeq : Nat → List RedoEntry → Nat
  | prev, [] => prev
  | _, e :: es => lastSeq e.sequence.toNat es

theorem lastSeq_append (prev : Nat) (es es' : List RedoEntry) :
    lastSeq prev (es ++ es') = lastSeq (lastSeq prev es) es' := by
  induction es generalizing prev with
  | nil => rfl
  | cons e es ih => exact ih _

theorem lastSeq_of_ne_nil (h : es ≠ []) (prev prev' : Nat) :
    lastSeq prev es = lastSeq prev' es := by
  cases es with
  | nil => exact absurd rfl h
  | cons e es => rfl

/-- The last entry of a list carries its last sequence number. -/
theorem exists_getLast (h : es ≠ []) (prev : Nat) :
    ∃ e, es.getLast? = some e ∧ e.sequence.toNat = lastSeq prev es := by
  induction es generalizing prev with
  | nil => exact absurd rfl h
  | cons e es ih =>
    cases es with
    | nil => exact ⟨e, rfl, rfl⟩
    | cons e' es =>
      obtain ⟨last, hlast, hseq⟩ := ih (by simp) e.sequence.toNat
      exact ⟨last, by rw [List.getLast?_cons_cons, hlast], hseq⟩

theorem lastSeq_mem (h : es ≠ []) (prev : Nat) :
    ∃ e ∈ es, e.sequence.toNat = lastSeq prev es := by
  obtain ⟨e, hlast, hseq⟩ := exists_getLast h prev
  exact ⟨e, List.mem_of_getLast? hlast, hseq⟩

theorem ascends_append {es' : List RedoEntry} :
    Ascends prev (es ++ es') ↔ Ascends prev es ∧ Ascends (lastSeq prev es) es' := by
  induction es generalizing prev with
  | nil => simp [Ascends, lastSeq]
  | cons e es ih => simp [Ascends, lastSeq, ih, and_assoc]

/-- An entry with a larger sequence number may come behind. -/
theorem Ascends.concat (h : Ascends 0 es) {e : RedoEntry}
    (hlt : ∀ e' ∈ es, e'.sequence.toNat < e.sequence.toNat) : Ascends 0 (es ++ [e]) := by
  refine ascends_append.mpr ⟨h, ?_, trivial⟩
  by_cases hnil : es = []
  · rw [hnil]
    exact .inl rfl
  · obtain ⟨e', hmem, heq⟩ := lastSeq_mem hnil 0
    exact .inr (heq ▸ hlt e' hmem)

theorem Ascends.weaken (h : Ascends prev es) :
    Ascends 0 es := by
  cases es with
  | nil => trivial
  | cons e es => exact ⟨.inl rfl, h.2⟩

theorem Ascends.sublist {es' : List RedoEntry} (h : Ascends prev es) (hsub : es'.Sublist es) :
    Ascends prev es' := by
  induction hsub generalizing prev with
  | slnil => trivial
  | @cons es' es e hsub ih =>
    have hrest := ih h.2
    cases es' with
    | nil => trivial
    | cons e' es' =>
      refine ⟨?_, hrest.2⟩
      have hfirst := h.1
      have hnext := hrest.1
      omega
  | cons_cons e hsub ih => exact ⟨h.1, ih h.2⟩

theorem Ascends.le_lastSeq (h : Ascends prev es) :
    prev ≤ lastSeq prev es ∧ ∀ e ∈ es, e.sequence.toNat ≤ lastSeq prev es := by
  induction es generalizing prev with
  | nil => simp [lastSeq]
  | cons e es ih =>
    obtain ⟨hfirst, hrest⟩ := h
    obtain ⟨hle, hmem⟩ := ih hrest
    refine ⟨by simp only [lastSeq]; omega, ?_⟩
    intro e' he'
    rcases List.mem_cons.mp he' with rfl | he'
    · exact hle
    · exact hmem e' he'

/-- The region holds whole frames and zero pads between two positions. -/
inductive Parses (crc : List UInt8 → UInt32) (align : Nat) (buf : List UInt8) :
    Nat → Nat → List RedoEntry → Nat → Prop where
  | done (pos prev : Nat) : Parses crc align buf pos prev [] pos
  | entry {pos prev n stop : Nat} {e : RedoEntry} {es : List RedoEntry}
      (hread : RedoEntry.deserialize crc (buf.drop pos) = some (e, n))
      (hnew : prev = 0 ∨ prev < e.sequence.toNat)
      (hrest : Parses crc align buf (pos + n) e.sequence.toNat es stop) :
      Parses crc align buf pos prev (e :: es) stop
  | pad {pos prev stop : Nat} {es : List RedoEntry} (hmid : ¬ align ∣ pos)
      (hfour : pos + 4 ≤ roundUp pos align) (hfit : roundUp pos align ≤ buf.length)
      (hzero : (buf.drop pos).take (roundUp pos align - pos) =
        List.replicate (roundUp pos align - pos) 0)
      (hrest : Parses crc align buf (roundUp pos align) prev es stop) :
      Parses crc align buf pos prev es stop

namespace Parses

variable {buf buf' : List UInt8} {pos stop stop' : Nat} {es' : List RedoEntry}

section

variable (h : Parses crc align buf pos prev es stop)
include h

theorem trans (h' : Parses crc align buf stop (lastSeq prev es) es' stop') :
    Parses crc align buf pos prev (es ++ es') stop' := by
  induction h with
  | done pos prev => exact h'
  | entry hread hnew hrest ih => exact .entry hread hnew (ih h')
  | pad hmid hfour hfit hzero hrest ih => exact .pad hmid hfour hfit hzero (ih h')

theorem ascends : Ascends prev es := by
  induction h with
  | done pos prev => trivial
  | entry hread hnew hrest ih => exact ⟨hnew, ih⟩
  | pad hmid hfour hfit hzero hrest ih => exact ih

theorem le : pos ≤ stop := by
  induction h with
  | done pos prev => exact le_rfl
  | entry hread hnew hrest ih => omega
  | pad hmid hfour hfit hzero hrest ih => omega

theorem le_length (hpos : pos ≤ buf.length) :
    stop ≤ buf.length := by
  induction h with
  | done pos prev => exact hpos
  | entry hread hnew hrest ih =>
    have hfit := (RedoEntry.deserialize_some hread).2.2.1
    rw [List.length_drop] at hfit
    exact ih (by omega)
  | pad hmid hfour hfit hzero hrest ih => exact ih hfit

/-- Only the bytes in between matter. -/
theorem congr_window
    (hdrop : ∀ p n, pos ≤ p → p + n ≤ stop → (buf'.drop p).take n = (buf.drop p).take n)
    (hlen : stop ≤ buf'.length) : Parses crc align buf' pos prev es stop := by
  induction h with
  | done pos prev => exact .done pos prev
  | @entry pos prev n stop e es hread hnew hrest ih =>
    have hstop := hrest.le
    refine .entry ?_ hnew (ih (fun p k hp => hdrop p k (by omega)) hlen)
    refine RedoEntry.deserialize_congr hread (hdrop pos n le_rfl hstop) ?_
    rw [List.length_drop]
    omega
  | @pad pos prev stop es hmid hfour hfit hzero hrest ih =>
    have hstop := hrest.le
    refine .pad hmid hfour (hstop.trans hlen) ?_ (ih (fun p k hp => hdrop p k (by omega)) hlen)
    rw [hdrop pos _ le_rfl (by omega), hzero]

/-- Only the bytes before the end matter. -/
theorem congr (htake : buf'.take stop = buf.take stop)
    (hlen : stop ≤ buf'.length) : Parses crc align buf' pos prev es stop := by
  refine h.congr_window ?_ hlen
  intro p n _ hn
  have hshort := congrArg (List.take (p + n)) htake
  rw [List.take_take, List.take_take, min_eq_left hn] at hshort
  rw [List.take_drop, List.take_drop, hshort]

/-- Without the entries before it a stretch parses as well. -/
theorem weaken : Parses crc align buf pos 0 es stop := by
  induction h with
  | done pos prev => exact .done pos 0
  | entry hread hnew hrest ih => exact .entry hread (.inl rfl) hrest
  | pad hmid hfour hfit hzero hrest ih => exact .pad hmid hfour hfit hzero ih

end

end Parses

section Written

theorem frames_cons (e : RedoEntry) (es : List RedoEntry) :
    frames crc (e :: es) = e.serialize crc ++ frames crc es := rfl

theorem frames_append (es es' : List RedoEntry) :
    frames crc (es ++ es') = frames crc es ++ frames crc es' := List.flatMap_append

theorem frames_eq_nil : frames crc es = [] ↔ es = [] := by
  constructor
  · intro h
    cases es with
    | nil => rfl
    | cons e es =>
      have hlen := congrArg List.length h
      rw [frames_cons, List.length_append, RedoEntry.length_serialize, RedoEntry.serializedLen,
        entryHeaderSize, List.length_nil] at hlen
      omega
  · rintro rfl
    rfl

/-- A flush leaves no pad too short for a length word. -/
def PadOk (align stop : Nat) : Prop :=
  roundUp stop align = stop ∨ stop + 4 ≤ roundUp stop align

instance (align stop : Nat) : Decidable (PadOk align stop) :=
  inferInstanceAs (Decidable (_ ∨ _))

/-- Frames in a row parse up to the end of the last one. -/
theorem parses_frames {buf rest : List UInt8} {pos : Nat} (hfits : ∀ e ∈ es, e.op.Fits)
    (hasc : Ascends prev es) (hbuf : buf.drop pos = frames crc es ++ rest) :
    Parses crc align buf pos prev es (pos + (frames crc es).length) := by
  induction es generalizing pos prev with
  | nil => exact .done pos prev
  | cons e es ih =>
    have hread : RedoEntry.deserialize crc (buf.drop pos) =
        some (e, (e.serialize crc).length) := by
      rw [hbuf, frames_cons, List.append_assoc]
      exact e.deserialize_serialize crc (hfits e List.mem_cons_self) _
    have hrest : buf.drop (pos + (e.serialize crc).length) = frames crc es ++ rest := by
      rw [← List.drop_drop, hbuf, frames_cons, List.append_assoc, List.drop_left]
    rw [frames_cons, List.length_append, ← Nat.add_assoc]
    exact .entry hread hasc.1 (ih (fun e' he' => hfits e' (List.mem_cons_of_mem e he'))
      hasc.2 hrest)

/-- What a flush writes parses: the frames and the pad behind them. -/
theorem parses_of_written {buf : List UInt8} (rest : List UInt8) {pos : Nat} (halign : 0 < align)
    (hfits : ∀ e ∈ es, e.op.Fits) (hasc : Ascends prev es)
    (hpad : PadOk align (pos + (frames crc es).length))
    (hbuf : buf.drop pos = frames crc es ++
      List.replicate
        (roundUp (pos + (frames crc es).length) align - (pos + (frames crc es).length)) 0 ++ rest) :
    Parses crc align buf pos prev es (roundUp (pos + (frames crc es).length) align) := by
  rw [List.append_assoc] at hbuf
  have hframes : Parses crc align buf pos prev es (pos + (frames crc es).length) :=
    parses_frames hfits hasc hbuf
  rcases hpad with hround | hfour
  · rwa [hround]
  have hbehind : buf.drop (pos + (frames crc es).length) = List.replicate
      (roundUp (pos + (frames crc es).length) align - (pos + (frames crc es).length)) 0 ++
        rest := by
    rw [← List.drop_drop, hbuf, List.drop_left]
  have hlen := congrArg List.length hbehind
  rw [List.length_drop, List.length_append, List.length_replicate] at hlen
  have hmid : ¬ align ∣ pos + (frames crc es).length := by
    intro hdvd
    rw [roundUp_eq_self hdvd halign] at hfour
    omega
  rw [← List.append_nil es]
  refine hframes.trans ?_
  rw [List.append_nil]
  refine .pad hmid hfour (by omega) ?_ (.done _ _)
  rw [hbehind]
  simp

end Written

end TeraSlab.Redo
