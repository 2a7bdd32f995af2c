import Mathlib.Tactic

/-!
# Byte strings

Little-endian numbers and fixed-width fields at a position of a byte string. Reading a field that
was written at that position gives back its value; a number keeps only the bytes of its field.
-/

namespace Foundations

/-- The low `w` bytes of a number, least significant first. -/
def toLe : Nat → Nat → List UInt8
  | 0, _ => []
  | w + 1, n => UInt8.ofNat n :: toLe w (n / 256)

def fromLe : List UInt8 → Nat
  | [] => 0
  | b :: bs => b.toNat + 256 * fromLe bs

def leAt (w : Nat) (data : List UInt8) (i : Nat) : Nat := fromLe ((data.drop i).take w)

def byteAt (data : List UInt8) (i : Nat) : UInt8 := data.getD i 0

def bytesAt (n : Nat) (data : List UInt8) (i : Nat) : Vector UInt8 n :=
  Vector.ofFn fun j => data.getD (i + j) 0

variable {xs ys : List UInt8} {i n w : Nat}

@[simp] theorem length_toLe (w n : Nat) : (toLe w n).length = w := by
  induction w generalizing n with
  | zero => rfl
  | succ w ih => simp [toLe, ih]

theorem fromLe_toLe (w n : Nat) : fromLe (toLe w n) = n % 256 ^ w := by
  induction w generalizing n with
  | zero => simp [toLe, fromLe, Nat.mod_one]
  | succ w ih =>
    have hbyte : (UInt8.ofNat n).toNat = n % 256 := by simp
    rw [toLe, fromLe, ih, hbyte, pow_succ', Nat.mod_mul]

theorem fromLe_lt (bs : List UInt8) : fromLe bs < 256 ^ bs.length := by
  induction bs with
  | nil => simp [fromLe]
  | cons b bs ih =>
    have hb := b.toNat_lt
    rw [fromLe, List.length_cons, pow_succ']
    omega

theorem leAt_lt (w : Nat) (data : List UInt8) (i : Nat) : leAt w data i < 256 ^ w :=
  (fromLe_lt _).trans_le (Nat.pow_le_pow_right (by norm_num) (by simp))

theorem leAt_replicate_zero (w n i : Nat) : leAt w (List.replicate n 0) i = 0 := by
  have hzero (k : Nat) : fromLe (List.replicate k 0) = 0 := by
    induction k with
    | zero => rfl
    | succ k ih => simp [List.replicate_succ, fromLe, ih]
  rw [leAt, List.drop_replicate, List.take_replicate, hzero]

theorem leAt_append_right (h : xs.length ≤ i) :
    leAt w (xs ++ ys) i = leAt w ys (i - xs.length) := by
  rw [leAt, leAt, List.drop_append, List.drop_eq_nil_of_le h, List.nil_append]

theorem leAt_append_left (h : i + w ≤ xs.length) : leAt w (xs ++ ys) i = leAt w xs i := by
  have hdrop : w ≤ (xs.drop i).length := by simp; omega
  rw [leAt, leAt, List.drop_append_of_le_length (by omega), List.take_append_of_le_length hdrop]

@[simp] theorem leAt_toLe (w n : Nat) (ys : List UInt8) :
    leAt w (toLe w n ++ ys) 0 = n % 256 ^ w := by
  rw [leAt_append_left (by simp), leAt, List.drop_zero, List.take_of_length_le (by simp),
    fromLe_toLe]

theorem byteAt_append_right (h : xs.length ≤ i) :
    byteAt (xs ++ ys) i = byteAt ys (i - xs.length) := by
  rw [byteAt, byteAt, List.getD_eq_getElem?_getD, List.getD_eq_getElem?_getD,
    List.getElem?_append_right h]

theorem bytesAt_append_right (h : xs.length ≤ i) :
    bytesAt n (xs ++ ys) i = bytesAt n ys (i - xs.length) := by
  ext j hj
  have hsub : i + j - xs.length = i - xs.length + j := by omega
  simp only [bytesAt, Vector.getElem_ofFn, List.getD_eq_getElem?_getD]
  rw [List.getElem?_append_right (by omega), hsub]

@[simp] theorem bytesAt_toList (v : Vector UInt8 n) (ys : List UInt8) :
    bytesAt n (v.toList ++ ys) 0 = v := by
  ext j hj
  have hlen : j < v.toList.length := by simpa using hj
  simp only [bytesAt, Vector.getElem_ofFn, Nat.zero_add, List.getD_eq_getElem?_getD]
  rw [List.getElem?_append_left hlen, List.getElem?_eq_getElem hlen]
  simp

def fieldsAt (n count : Nat) (data : List UInt8) (i : Nat) : List (Vector UInt8 n) :=
  (List.range count).map fun k => bytesAt n data (i + k * n)

theorem fieldsAt_append_right (count : Nat) (h : xs.length ≤ i) :
    fieldsAt n count (xs ++ ys) i = fieldsAt n count ys (i - xs.length) := by
  refine List.map_congr_left fun k _ => ?_
  rw [bytesAt_append_right (by omega)]
  congr 1
  omega

@[simp] theorem length_fieldsAt (count : Nat) (data : List UInt8) :
    (fieldsAt n count data i).length = count := by
  simp [fieldsAt]

@[simp] theorem length_flatMap_toList (vs : List (Vector UInt8 n)) :
    (vs.flatMap Vector.toList).length = vs.length * n := by
  induction vs with
  | nil => simp
  | cons v vs ih => simp [ih, Nat.succ_mul, Nat.add_comm]

@[simp] theorem fieldsAt_flatMap (vs : List (Vector UInt8 n)) (ys : List UInt8) :
    fieldsAt n vs.length (vs.flatMap Vector.toList ++ ys) 0 = vs := by
  induction vs with
  | nil => rfl
  | cons v vs ih =>
    have hrest : (List.range vs.length).map
        (fun k => bytesAt n (v.toList ++ (vs.flatMap Vector.toList ++ ys)) (0 + (k + 1) * n)) =
        fieldsAt n vs.length (vs.flatMap Vector.toList ++ ys) 0 := by
      refine List.map_congr_left fun k _ => ?_
      have hle : n ≤ 0 + (k + 1) * n := by rw [Nat.succ_mul]; omega
      rw [bytesAt_append_right (by simpa using hle)]
      simp [Nat.succ_mul]
    rw [List.length_cons, fieldsAt, List.range_succ_eq_map, List.map_cons, List.map_map,
      List.flatMap_cons, List.append_assoc]
    refine congrArg₂ _ (by simp) ?_
    exact hrest.trans ih

end Foundations
