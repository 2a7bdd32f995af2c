import TeraSlab.Foundations.Bytes

/-!
# The frame budget of a GET answer

`enforce_get_response_budget` walks the items of a GET answer with the bytes used so far and
replaces an item that does not fit by a bare header. The header is charged but not checked, so the
answer stays within a frame exactly when five bytes are left before every item.
-/

namespace TeraSlab.Protocol

open Foundations

structure WireGetResult where
  status : UInt8
  data : List UInt8

def maxFrameSize : Nat := 16 * 1024 * 1024

/-- `request_id`, `status` and `item_count`. -/
def fixedOverhead : Nat := 8 + 1 + 4

/-- `status` and `data_len` of one item. -/
def itemOverhead : Nat := 5

/-- What stands for an item that does not fit (`ERR_RESPONSE_TOO_LARGE`). -/
def tooLarge : WireGetResult := ⟨38, []⟩

/-- The loop of `enforce_get_response_budget`: the items as they are answered, and how many were
downgraded. The sums saturate in the source; they are only compared with the limit. -/
def budgetLoop : Nat → List WireGetResult → List WireGetResult × Nat
  | _, [] => ([], 0)
  | used, item :: rest =>
    let cost := itemOverhead + item.data.length
    if maxFrameSize < used + cost then
      let (answers, downgraded) := budgetLoop (used + itemOverhead) rest
      (tooLarge :: answers, downgraded + 1)
    else
      let (answers, downgraded) := budgetLoop (used + cost) rest
      (item :: answers, downgraded)

def enforceGetResponseBudget (items : List WireGetResult) : List WireGetResult × Nat :=
  budgetLoop fixedOverhead items

inductive CodecError where
  | fieldOutOfBounds (field : String) (value max : Nat)

def checkedU32Len (field : String) (len : Nat) : Except CodecError Nat :=
  if len < 2 ^ 32 then .ok len else .error (.fieldOutOfBounds field len (2 ^ 32 - 1))

def tryEncodeGetResponse (items : List WireGetResult) : Except CodecError (List UInt8) := do
  let itemCount ← checkedU32Len "get_response.item_count" items.length
  for item in items do
    let _ ← checkedU32Len "get_response.item_data_len" item.data.length
  -- The lengths are checked once more when they are written, which cannot fail here.
  return toLe 4 itemCount ++
    items.flatMap fun item => item.status :: (toLe 4 item.data.length ++ item.data)

inductive FrameError where
  | tooLarge (size max : Nat)

structure ResponseFrame where
  requestId : UInt64
  status : UInt8
  payload : List UInt8

def ResponseFrame.innerLen (frame : ResponseFrame) : Nat := 8 + 1 + frame.payload.length

def ResponseFrame.tryEncode (frame : ResponseFrame) : Except FrameError (List UInt8) :=
  if maxFrameSize < frame.innerLen then
    .error (.tooLarge (min frame.innerLen (2 ^ 32 - 1)) maxFrameSize)
  else
    .ok (toLe 4 frame.innerLen ++ toLe 8 frame.requestId.toNat ++ frame.status :: frame.payload)

/-- The bytes of the items in the payload. -/
def wireSize (items : List WireGetResult) : Nat :=
  (items.map fun item => itemOverhead + item.data.length).sum

/-- The answer is encoded and fits in a response frame. -/
def Encodes (answers : List WireGetResult) : Prop :=
  ∃ payload, tryEncodeGetResponse answers = .ok payload ∧
    ∀ requestId status, ∃ bytes, (ResponseFrame.mk requestId status payload).tryEncode = .ok bytes

/-- Before every item at least a header still fits, when each item that fits is taken in full. -/
def HeadersFit : Nat → List WireGetResult → Prop
  | _, [] => True
  | used, item :: rest =>
    used + itemOverhead ≤ maxFrameSize ∧
      HeadersFit (if maxFrameSize < used + (itemOverhead + item.data.length) then
        used + itemOverhead else used + (itemOverhead + item.data.length)) rest

variable {used : Nat} {item : WireGetResult} {items rest : List WireGetResult}

@[simp] theorem wireSize_cons :
    wireSize (item :: rest) = itemOverhead + item.data.length + wireSize rest := by
  simp [wireSize]

/-- The answer stays within the frame exactly when a header fits before every item. -/
theorem wireSize_budgetLoop_le_iff (hused : used ≤ maxFrameSize) :
    used + wireSize (budgetLoop used items).1 ≤ maxFrameSize ↔ HeadersFit used items := by
  induction items generalizing used with
  | nil => simpa [budgetLoop, wireSize, HeadersFit] using hused
  | cons item rest ih =>
    rw [budgetLoop, HeadersFit]
    split_ifs with hlarge
    · rw [wireSize_cons, tooLarge, List.length_nil]
      by_cases hheader : used + itemOverhead ≤ maxFrameSize
      · rw [← ih hheader]
        omega
      · exact iff_of_false (by omega) fun h => hheader h.1
    · rw [wireSize_cons, ← ih (Nat.not_lt.mp hlarge)]
      omega

/-- An item is answered unchanged, or by a header because it does not fit behind the answers
before it. -/
theorem budgetLoop_keeps {i : Nat} (hi : items[i]? = some item) :
    (budgetLoop used items).1[i]? = some item ∨ (budgetLoop used items).1[i]? = some tooLarge ∧
      maxFrameSize < used + wireSize ((budgetLoop used items).1.take i) +
        (itemOverhead + item.data.length) := by
  induction items generalizing used i with
  | nil => simp at hi
  | cons head rest ih =>
    rw [budgetLoop]
    cases i with
    | zero =>
      obtain rfl : head = item := by simpa using hi
      split_ifs with hlarge
      · exact .inr ⟨rfl, hlarge⟩
      · exact .inl rfl
    | succ i =>
      split_ifs with hlarge
      · simpa [Nat.add_assoc, tooLarge] using @ih (used + itemOverhead) i hi
      · simpa [Nat.add_assoc] using @ih (used + (itemOverhead + head.data.length)) i hi

/-- There is one answer for every item, and none of them is longer than a frame. -/
theorem budgetLoop_bounds (used : Nat) (items : List WireGetResult) :
    (budgetLoop used items).1.length = items.length ∧
      ∀ answer ∈ (budgetLoop used items).1, answer.data.length ≤ maxFrameSize := by
  induction items generalizing used with
  | nil => simp [budgetLoop]
  | cons item rest ih =>
    rw [budgetLoop]
    split_ifs with hlarge
    · obtain ⟨hlength, hrest⟩ := ih (used + itemOverhead)
      exact ⟨congrArg (· + 1) hlength, List.forall_mem_cons.mpr ⟨Nat.zero_le _, hrest⟩⟩
    · obtain ⟨hlength, hrest⟩ := ih (used + (itemOverhead + item.data.length))
      exact ⟨congrArg (· + 1) hlength, List.forall_mem_cons.mpr ⟨by omega, hrest⟩⟩

/-- An answer of few enough items is encoded exactly when it is within the frame. -/
theorem encodes_iff (answers : List WireGetResult) (hcount : answers.length < 2 ^ 32)
    (hlen : ∀ item ∈ answers, item.data.length < 2 ^ 32) :
    Encodes answers ↔ fixedOverhead + wireSize answers ≤ maxFrameSize := by
  have hchecks : tryEncodeGetResponse answers = .ok (toLe 4 answers.length ++
      answers.flatMap fun item => item.status :: (toLe 4 item.data.length ++ item.data)) := by
    have hloop : (forIn answers PUnit.unit fun item _ => do
        let _ ← checkedU32Len "get_response.item_data_len" item.data.length
        pure (ForInStep.yield PUnit.unit)) = Except.ok PUnit.unit := by
      clear hcount
      induction answers with
      | nil => rfl
      | cons item rest ih =>
        rw [List.forall_mem_cons] at hlen
        rw [List.forIn_cons, checkedU32Len, if_pos hlen.1]
        exact ih hlen.2
    rw [tryEncodeGetResponse, checkedU32Len, if_pos hcount, hloop]
    rfl
  have hsize : (answers.flatMap fun item =>
      item.status :: (toLe 4 item.data.length ++ item.data)).length = wireSize answers := by
    simp only [List.length_flatMap, List.length_cons, List.length_append, length_toLe, wireSize]
    exact congrArg List.sum (List.map_congr_left fun item _ => by rw [itemOverhead]; omega)
  have hframe (requestId : UInt64) (status : UInt8) (payload : List UInt8) :
      (∃ bytes, (ResponseFrame.mk requestId status payload).tryEncode = .ok bytes) ↔
        9 + payload.length ≤ maxFrameSize := by
    unfold ResponseFrame.tryEncode ResponseFrame.innerLen
    split_ifs with hlarge
    · simpa using hlarge
    · simpa using hlarge
  simp only [Encodes, hchecks, Except.ok.injEq, exists_eq_left', hframe, List.length_append,
    length_toLe, hsize, forall_const, fixedOverhead]
  omega

/-- The answer to few enough items is encoded exactly when a header fits before every item. -/
theorem encodes_enforce_iff (hcount : items.length < 2 ^ 32) :
    Encodes (enforceGetResponseBudget items).1 ↔ HeadersFit fixedOverhead items := by
  obtain ⟨hlength, hlen⟩ := budgetLoop_bounds fixedOverhead items
  have hencodes := encodes_iff (enforceGetResponseBudget items).1 (hlength.trans_lt hcount)
    fun answer hanswer => (hlen answer hanswer).trans_lt (by decide)
  exact hencodes.trans (wireSize_budgetLoop_le_iff (by decide))

/-- A GET answer is encoded exactly when a header fits before every item; in any case an item is
answered unchanged unless it does not fit behind the answers before it. -/
theorem getResponse_encodes_iff (items : List WireGetResult)
    (hcount : fixedOverhead + itemOverhead * items.length ≤ maxFrameSize) :
    let answers := (enforceGetResponseBudget items).1
    (Encodes answers ↔ HeadersFit fixedOverhead items) ∧ answers.length = items.length ∧
      ∀ i item, items[i]? = some item → answers[i]? = some item ∨
        answers[i]? = some tooLarge ∧ maxFrameSize <
          fixedOverhead + wireSize (answers.take i) + (itemOverhead + item.data.length) := by
  have hitems : items.length < 2 ^ 32 := by
    simp only [itemOverhead, maxFrameSize] at hcount
    omega
  exact ⟨encodes_enforce_iff hitems, (budgetLoop_bounds _ _).1, fun _ _ => budgetLoop_keeps⟩

/-- Of three items, the second is as large as a frame and is answered by its header. -/
theorem getResponse_encodes_three : ∃ large : List UInt8,
    (enforceGetResponseBudget [⟨0, [1]⟩, ⟨0, large⟩, ⟨0, [2, 3]⟩]).1 =
        [⟨0, [1]⟩, tooLarge, ⟨0, [2, 3]⟩] ∧
      Encodes (enforceGetResponseBudget [⟨0, [1]⟩, ⟨0, large⟩, ⟨0, [2, 3]⟩]).1 := by
  obtain ⟨large, hlarge⟩ : ∃ data : List UInt8, data.length = maxFrameSize :=
    ⟨List.replicate _ 0, List.length_replicate⟩
  have hfit := (getResponse_encodes_iff [⟨0, [1]⟩, ⟨0, large⟩, ⟨0, [2, 3]⟩]
    (by simp [fixedOverhead, itemOverhead, maxFrameSize])).1
  refine ⟨large, ?_, hfit.mpr ?_⟩
  · simp [enforceGetResponseBudget, budgetLoop, hlarge, fixedOverhead, itemOverhead, maxFrameSize]
  · simp [HeadersFit, hlarge, fixedOverhead, itemOverhead, maxFrameSize]

/-- Behind a record that fills the frame up to its last byte, the header of a second item goes
over the limit. -/
theorem full_frame_not_encoded : ∃ items : List WireGetResult,
    fixedOverhead + itemOverhead * items.length ≤ maxFrameSize ∧
      ¬ Encodes (enforceGetResponseBudget items).1 := by
  obtain ⟨full, hfull⟩ : ∃ data : List UInt8, data.length = maxFrameSize - 18 :=
    ⟨List.replicate _ 0, List.length_replicate⟩
  refine ⟨[⟨0, full⟩, ⟨0, []⟩], by simp [fixedOverhead, itemOverhead, maxFrameSize], fun h => ?_⟩
  have hheader := ((encodes_enforce_iff (by simp)).mp h).2.1
  simp [hfull, fixedOverhead, itemOverhead, maxFrameSize] at hheader

end TeraSlab.Protocol
