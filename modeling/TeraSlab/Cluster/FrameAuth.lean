import TeraSlab.Protocol.GetBudget

/-!
# Streaming authentication of frames

`verify_frame_streaming` authenticates a frame while it is read. It holds back the last bytes it has
seen, which are the timestamp and the tag once the body is read, and passes the bytes in front of
them on to the HMAC and to the sink. However the reader splits a body, it answers what `verify`
answers to the whole of it.
-/

namespace TeraSlab.Cluster

open Foundations Protocol

inductive ErrorKind where
  | invalidData
  | permissionDenied
  | unexpectedEof
deriving DecidableEq

def hmacTagLen : Nat := 32
def timestampLen : Nat := 8
def signedSuffixLen : Nat := timestampLen + hmacTagLen
def streamChunkSize : Nat := 8 * 1024

/-- The secret of the cluster, with any function of a key and a byte string for HMAC-SHA256. -/
structure Auth where
  hmac : List UInt8 → List UInt8 → List UInt8
  key : List UInt8
  maxClockSkew : Nat

/-- A reader of a byte string; `most` bounds a read by the number of bytes that are left. -/
structure Reader where
  bytes : List UInt8
  most : Nat → Nat

/-- A read delivers at least one byte, unless none is left. -/
def Reader.read (r : Reader) (want : Nat) : List UInt8 :=
  r.bytes.take (min want (max 1 (r.most r.bytes.length)))

def Reader.skip (r : Reader) (n : Nat) : Reader := { r with bytes := r.bytes.drop n }

/-- The state of the loop over the body: what the HMAC and the sink were given, and the window. -/
structure Stream where
  mac : List UInt8
  sink : List UInt8
  hmacFed : Nat
  tail : List UInt8

namespace Stream

def feedEvicted (s : Stream) (payloadLen : Nat) (bytes : List UInt8) : Stream :=
  { s with
    mac := s.mac ++ bytes
    sink := if s.hmacFed < payloadLen
      then s.sink ++ bytes.take (min (payloadLen - s.hmacFed) bytes.length) else s.sink
    hmacFed := s.hmacFed + bytes.length }

/-- New bytes push those in front out of the window. -/
def slide (s : Stream) (payloadLen : Nat) (new : List UInt8) : Stream :=
  if signedSuffixLen < s.tail.length + new.length then
    let evict := s.tail.length + new.length - signedSuffixLen
    let fromTail := min evict s.tail.length
    let fromNew := evict - fromTail
    let fed := { s.feedEvicted payloadLen (s.tail.take fromTail) with tail := s.tail.drop fromTail }
    let fed := if 0 < fromNew then fed.feedEvicted payloadLen (new.take fromNew) else fed
    { fed with tail := fed.tail ++ new.drop fromNew }
  else { s with tail := s.tail ++ new }

end Stream

/-- Read what remains of the body; the flag says whether all of it came. -/
def readBody (payloadLen remaining : Nat) (reader : Reader) (s : Stream) : Bool × Stream :=
  if remaining = 0 then (true, s)
  else
    let got := reader.read (min remaining streamChunkSize)
    if got.length = 0 then (false, s)
    else readBody payloadLen (remaining - got.length) (reader.skip got.length)
      (s.slide payloadLen got)
termination_by remaining
decreasing_by exact Nat.sub_lt (by omega) (Nat.pos_of_ne_zero ‹_›)

namespace Auth

/-- The tag over what the HMAC was given, and then the age of the timestamp. -/
def checkSuffix (a : Auth) (nowMs : Nat) (mac ts tag : List UInt8) : Except ErrorKind Unit :=
  if a.hmac a.key mac ≠ tag then .error .permissionDenied
  else if a.maxClockSkew < (nowMs - fromLe ts) + (fromLe ts - nowMs) then .error .invalidData
  else .ok ()

def verifyWithNow (a : Auth) (data : List UInt8) (nowMs : Nat) : Except ErrorKind (List UInt8) :=
  if data.length < signedSuffixLen then .error .invalidData
  else
    let head := data.take (data.length - hmacTagLen)
    let tag := data.drop (data.length - hmacTagLen)
    let payload := head.take (head.length - timestampLen)
    let ts := head.drop (head.length - timestampLen)
    (a.checkSuffix nowMs head ts tag).map fun _ => payload

/-- The length of the payload, and what the sink was given. -/
def verifyFrameStreamingWithNow (a : Auth) (reader : Reader) (nowMs : Nat) :
    Except ErrorKind Nat × List UInt8 :=
  if reader.bytes.length < 4 then (.error .unexpectedEof, [])
  else
    let bodyLen := leAt 4 reader.bytes 0
    if bodyLen < signedSuffixLen then (.error .invalidData, [])
    else
      let payloadLen := bodyLen - signedSuffixLen
      if maxFrameSize < payloadLen then (.error .invalidData, [])
      else
        match readBody payloadLen bodyLen (reader.skip 4) ⟨[], [], 0, []⟩ with
        | (false, s) => (.error .unexpectedEof, s.sink)
        | (true, s) =>
          let ts := s.tail.take timestampLen
          ((a.checkSuffix nowMs (s.mac ++ ts) ts (s.tail.drop timestampLen)).map
            fun _ => payloadLen, s.sink)

end Auth

/-! ### The window -/

variable {payloadLen : Nat} {seen : List UInt8} {s : Stream}

/-- The HMAC and the window share what was seen, and the sink was given the payload of the HMAC. -/
structure Stream.Sound (payloadLen : Nat) (seen : List UInt8) (s : Stream) : Prop where
  split : s.mac ++ s.tail = seen
  window : s.tail.length = min signedSuffixLen seen.length
  fed : s.hmacFed = s.mac.length
  sink : s.sink = s.mac.take payloadLen

theorem Stream.feedEvicted_sink (hfed : s.hmacFed = s.mac.length)
    (hsink : s.sink = s.mac.take payloadLen) (bytes : List UInt8) :
    (s.feedEvicted payloadLen bytes).hmacFed = (s.mac ++ bytes).length ∧
      (s.feedEvicted payloadLen bytes).sink = (s.mac ++ bytes).take payloadLen := by
  refine ⟨by simp [feedEvicted, hfed], ?_⟩
  rw [List.take_append, ← hsink, ← hfed]
  unfold feedEvicted
  dsimp only
  split
  · rw [← List.take_take, List.take_length]
  · rw [Nat.sub_eq_zero_of_le (by omega), List.take_zero, List.append_nil]

theorem Stream.Sound.slide (h : s.Sound payloadLen seen) (new : List UInt8) :
    (s.slide payloadLen new).Sound payloadLen (seen ++ new) := by
  obtain ⟨rfl, hwindow, hfed, hsink⟩ := h
  rw [List.length_append] at hwindow
  unfold Stream.slide
  split
  · dsimp only
    generalize hevict : s.tail.length + new.length - signedSuffixLen = evict
    generalize hfrom : min evict s.tail.length = fromTail
    obtain ⟨hfed₁, hsink₁⟩ := feedEvicted_sink hfed hsink (s.tail.take fromTail)
    split
    · -- All of the window goes, and new bytes after it.
      have hall : s.tail.drop fromTail = [] := List.drop_eq_nil_of_le (by omega)
      obtain ⟨hfed₂, hsink₂⟩ := feedEvicted_sink (s := { s.feedEvicted payloadLen
        (s.tail.take fromTail) with tail := s.tail.drop fromTail }) hfed₁ hsink₁
        (new.take (evict - fromTail))
      refine ⟨?_, ?_, hfed₂, hsink₂⟩
      · have htail := List.take_append_drop fromTail s.tail
        rw [hall, List.append_nil] at htail
        simp [feedEvicted, hall, htail]
      · simp [feedEvicted]
        omega
    · have hnone : evict - fromTail = 0 := by omega
      refine ⟨?_, ?_, hfed₁, hsink₁⟩
      · simp only [feedEvicted, hnone, List.drop_zero]
        rw [← List.append_assoc, List.append_assoc s.mac, List.take_append_drop]
      · simp
        omega
  · refine ⟨by simp, ?_, hfed, hsink⟩
    simp only [List.length_append]
    omega

/-! ### The body -/

/-- A read takes a front of the bytes, and some of them if there are any. -/
theorem Reader.read_spec (r : Reader) {want : Nat} (hwant : 0 < want) :
    r.read want = r.bytes.take (r.read want).length ∧ (r.read want).length ≤ want ∧
      ((r.read want).length = 0 → r.bytes.length = 0) := by
  simp only [Reader.read, List.length_take]
  refine ⟨?_, by omega, by omega⟩
  rw [← List.take_eq_take_min]

theorem readBody_spec (remaining : Nat) (reader : Reader) (h : s.Sound payloadLen seen) :
    if reader.bytes.length < remaining then (readBody payloadLen remaining reader s).1 = false
    else (readBody payloadLen remaining reader s).1 = true ∧
      (readBody payloadLen remaining reader s).2.Sound payloadLen
        (seen ++ reader.bytes.take remaining) := by
  induction remaining using Nat.strong_induction_on generalizing reader s seen with
  | _ remaining ih =>
    unfold readBody
    by_cases hzero : remaining = 0
    · simpa [hzero] using h
    have hchunk : 0 < min remaining streamChunkSize := by
      simp only [streamChunkSize]
      omega
    obtain ⟨hfront, hle, hempty⟩ := reader.read_spec hchunk
    rw [if_neg hzero]
    dsimp only
    generalize reader.read (min remaining streamChunkSize) = got at hfront hle hempty
    by_cases hnone : got.length = 0
    · rw [if_pos hnone, if_pos (by omega)]
    have hrest := ih (remaining - got.length) (by omega) (reader.skip got.length) (h.slide got)
    have hlen := congrArg List.length hfront
    rw [List.length_take] at hlen
    rw [if_neg hnone]
    simp only [Reader.skip, List.length_drop] at hrest
    by_cases hshort : reader.bytes.length < remaining
    · rw [if_pos hshort]
      rwa [if_pos (by omega)] at hrest
    · rw [if_neg hshort]
      rw [if_neg (by omega)] at hrest
      have htake := @List.take_add _ reader.bytes got.length (remaining - got.length)
      rw [← hfront, Nat.add_sub_cancel' (by omega)] at htake
      rw [htake, ← List.append_assoc]
      exact hrest

/-- The window holds the suffix of a body that was read, and the HMAC was given its payload. -/
theorem Stream.Sound.verify {data : List UInt8}
    (h : s.Sound (data.length - signedSuffixLen) data) (hlen : signedSuffixLen ≤ data.length)
    (a : Auth) (nowMs : Nat) :
    s.mac.length = data.length - signedSuffixLen ∧ s.sink = s.mac ∧
      a.verifyWithNow data nowMs = (a.checkSuffix nowMs (s.mac ++ s.tail.take timestampLen)
        (s.tail.take timestampLen) (s.tail.drop timestampLen)).map fun _ => s.mac := by
  obtain ⟨rfl, hwindow, -, hsink⟩ := h
  rw [List.length_append] at hwindow hlen hsink
  have hmac : s.mac.length = s.mac.length + s.tail.length - signedSuffixLen := by omega
  have hhead : s.mac.length + s.tail.length - hmacTagLen = s.mac.length + timestampLen := by
    simp only [signedSuffixLen, timestampLen, hmacTagLen] at *
    omega
  have hts : (s.tail.take timestampLen).length = timestampLen := by
    simp only [List.length_take, signedSuffixLen] at *
    omega
  refine ⟨by rwa [List.length_append], ?_, ?_⟩
  · rw [hsink, ← hmac, List.take_length]
  · unfold Auth.verifyWithNow
    rw [List.length_append, if_neg (by omega)]
    simp [hhead, List.take_length_add_append, List.drop_length_add_append, hts]

/-- The body of a complete frame. -/
def frameBody (bytes : List UInt8) : Option (List UInt8) :=
  if 4 + leAt 4 bytes 0 ≤ bytes.length then some ((bytes.drop 4).take (leAt 4 bytes 0)) else none

namespace Auth

/-- Streaming accepts the complete frames whose body is accepted as a whole and whose payload is no
longer than a frame, it rejects the others alike, and what it accepts it has written. -/
theorem streaming_eq_buffered (a : Auth) (reader : Reader) (nowMs : Nat) :
    match frameBody reader.bytes with
    | none => (a.verifyFrameStreamingWithNow reader nowMs).1 = .error .unexpectedEof ∨
        (a.verifyFrameStreamingWithNow reader nowMs).1 = .error .invalidData
    | some body =>
      if body.length - signedSuffixLen ≤ maxFrameSize then
        (a.verifyFrameStreamingWithNow reader nowMs).1 =
            (a.verifyWithNow body nowMs).map List.length ∧
          ∀ payload, a.verifyWithNow body nowMs = .ok payload →
            (a.verifyFrameStreamingWithNow reader nowMs).2 = payload
      else (a.verifyFrameStreamingWithNow reader nowMs).1 = .error .invalidData := by
  unfold verifyFrameStreamingWithNow frameBody
  dsimp only
  generalize leAt 4 reader.bytes 0 = bodyLen
  have hread := @readBody_spec (bodyLen - signedSuffixLen) [] ⟨[], [], 0, []⟩ bodyLen
    (reader.skip 4) ⟨rfl, by simp, rfl, by simp⟩
  have hskip : (reader.skip 4).bytes = reader.bytes.drop 4 := rfl
  rw [hskip, List.length_drop, List.nil_append] at hread
  generalize readBody _ bodyLen _ _ = out at hread ⊢
  obtain ⟨complete, s⟩ := out
  dsimp only at hread
  by_cases hall : 4 + bodyLen ≤ reader.bytes.length
  · rw [if_pos hall, if_neg (by omega)]
    rw [if_neg (by omega)] at hread
    generalize hbody : (reader.bytes.drop 4).take bodyLen = body at hread
    have hlen : body.length = bodyLen := by simp [← hbody]; omega
    obtain ⟨rfl, hsound⟩ := hread
    subst hlen
    dsimp only
    by_cases hshort : body.length < signedSuffixLen
    · rw [if_pos hshort, if_pos (by omega), verifyWithNow, if_pos hshort]
      exact ⟨rfl, nofun⟩
    rw [if_neg hshort]
    by_cases hlong : maxFrameSize < body.length - signedSuffixLen
    · rw [if_pos hlong, if_neg (by omega)]
    obtain ⟨hmac, hsink, hverify⟩ := hsound.verify (by omega) a nowMs
    rw [if_neg hlong, if_pos (by omega), hverify, hsink, ← hmac]
    cases a.checkSuffix nowMs _ _ _ with
    | error e => exact ⟨rfl, nofun⟩
    | ok _ => exact ⟨rfl, fun _ h => Except.ok.inj h⟩
  · rw [if_neg hall]
    by_cases hhead : reader.bytes.length < 4
    · rw [if_pos hhead]
      exact .inl rfl
    rw [if_pos (by omega)] at hread
    subst hread
    rw [if_neg hhead]
    dsimp only
    split_ifs
    · exact .inr rfl
    · exact .inr rfl
    · exact .inl rfl

end Auth

end TeraSlab.Cluster
