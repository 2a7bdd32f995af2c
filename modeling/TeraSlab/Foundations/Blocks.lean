import Mathlib.Tactic

/-!
# Aligned writes into a byte region

Rounding a position up to a block boundary, overwriting part of a region, and overwriting only some
of the blocks of a write, as a crash may leave it.
-/

namespace Foundations

def roundUp (n align : Nat) : Nat := (n + align - 1) / align * align

def overwrite {α : Type*} (region : List α) (pos : Nat) (data : List α) : List α :=
  region.take pos ++ data ++ region.drop (pos + data.length)

/-- Replace only the kept blocks of the written range. -/
def overwriteKept {α : Type*} (align : Nat) (keep : Nat → Bool) (region : List α) (pos : Nat)
    (data : List α) : List α :=
  ((overwrite region pos data).zip region).zipIdx.map fun cell =>
    if keep ((cell.2 - pos) / align) then cell.1.1 else cell.1.2

section RoundUp

variable {n align m : Nat}

theorem dvd_roundUp (n align : Nat) : align ∣ roundUp n align := Dvd.intro_left _ rfl

theorem le_roundUp (h : 0 < align) : n ≤ roundUp n align := by
  have hdiv := Nat.div_add_mod (n + align - 1) align
  have hmod := Nat.mod_lt (n + align - 1) h
  rw [roundUp, Nat.mul_comm]
  omega

theorem roundUp_le (h : align ∣ m) (hn : n ≤ m) : roundUp n align ≤ m := by
  rcases Nat.eq_zero_or_pos align with rfl | hpos
  · simp [roundUp]
  obtain ⟨k, rfl⟩ := h
  have hk : (n + align - 1) / align ≤ k := by
    rw [Nat.div_le_iff_le_mul hpos]
    rw [Nat.mul_comm] at hn
    omega
  rw [roundUp, Nat.mul_comm align k]
  exact Nat.mul_le_mul_right _ hk

theorem roundUp_eq_self (h : align ∣ n) (hpos : 0 < align) : roundUp n align = n :=
  Nat.le_antisymm (roundUp_le h le_rfl) (le_roundUp hpos)

theorem roundUp_lt (hpos : 0 < align) : roundUp n align < n + align := by
  have hdiv := Nat.div_mul_le_self (n + align - 1) align
  rw [roundUp]
  omega

theorem roundUp_add (hpos : 0 < align) (h : align ∣ m) :
    roundUp (m + n) align = m + roundUp n align := by
  obtain ⟨k, rfl⟩ := h
  have hsub : align * k + n + align - 1 = n + align - 1 + align * k := by omega
  rw [roundUp, roundUp, hsub, Nat.add_mul_div_left _ _ hpos, Nat.add_mul, Nat.mul_comm k]
  omega

end RoundUp

section Overwrite

variable {α : Type*} {region data : List α} {pos n : Nat}

theorem length_overwrite (h : pos + data.length ≤ region.length) :
    (overwrite region pos data).length = region.length := by
  simp [overwrite]
  omega

theorem take_overwrite (h : pos ≤ region.length) (hn : n ≤ pos) :
    (overwrite region pos data).take n = region.take n := by
  rw [overwrite, List.append_assoc, List.take_append_of_le_length (by simp; omega), List.take_take,
    min_eq_left hn]

theorem drop_overwrite_pos (h : pos ≤ region.length) :
    (overwrite region pos data).drop pos = data ++ region.drop (pos + data.length) := by
  have hlen : (region.take pos).length = pos := by simpa using h
  rw [overwrite, List.append_assoc]
  nth_rewrite 1 [← hlen]
  exact List.drop_left

theorem drop_overwrite (h : pos ≤ region.length) (hn : pos + data.length ≤ n) :
    (overwrite region pos data).drop n = region.drop n := by
  obtain ⟨k, rfl⟩ := Nat.exists_eq_add_of_le hn
  rw [Nat.add_assoc, ← List.drop_drop, drop_overwrite_pos h, ← List.drop_drop, List.drop_left,
    List.drop_drop, Nat.add_assoc]

theorem length_le_overwrite : region.length ≤ (overwrite region pos data).length := by
  simp [overwrite]
  omega

variable {keep : Nat → Bool} {align : Nat}

theorem length_overwriteKept :
    (overwriteKept align keep region pos data).length = region.length := by
  rw [overwriteKept, List.length_map, List.length_zipIdx, List.length_zip]
  exact min_eq_right length_le_overwrite

/-- What lies before a write stays, whichever blocks are kept. -/
theorem take_overwriteKept (hn : n ≤ pos) :
    (overwriteKept align keep region pos data).take n = region.take n := by
  apply List.ext_getElem
  · rw [List.length_take, List.length_take, length_overwriteKept]
  intro i hi hi'
  rw [List.length_take] at hi'
  simp only [List.getElem_take, overwriteKept, List.getElem_map, List.getElem_zipIdx,
    List.getElem_zip, overwrite, List.append_assoc]
  rw [List.getElem_append_left (by rw [List.length_take]; omega), List.getElem_take, ite_self]

/-- What lies behind a write stays, whichever blocks are kept. -/
theorem drop_overwriteKept (hpos : pos ≤ region.length) (hn : pos + data.length ≤ n) :
    (overwriteKept align keep region pos data).drop n = region.drop n := by
  apply List.ext_getElem
  · rw [List.length_drop, List.length_drop, length_overwriteKept]
  intro i hi hi'
  have hsame : (overwrite region pos data)[n + i]? = region[n + i]? := by
    rw [← List.getElem?_drop, drop_overwrite hpos hn, List.getElem?_drop]
  rw [List.length_drop] at hi'
  have hlen := @length_le_overwrite _ region data pos
  rw [List.getElem?_eq_getElem (by omega), List.getElem?_eq_getElem (by omega),
    Option.some_inj] at hsame
  simp only [List.getElem_drop, overwriteKept, List.getElem_map, List.getElem_zipIdx,
    List.getElem_zip, hsame, ite_self]

/-- Keeping every block is the whole write. -/
theorem overwriteKept_all (h : ∀ i, keep i = true) (hfit : pos + data.length ≤ region.length) :
    overwriteKept align keep region pos data = overwrite region pos data := by
  apply List.ext_getElem
  · rw [length_overwrite hfit, length_overwriteKept]
  intro i hi hi'
  simp [overwriteKept, h]

end Overwrite

end Foundations
