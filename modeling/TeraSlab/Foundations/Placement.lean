import TeraSlab.Foundations.Blocks

/-!
# Placing items in segments

Items are placed one behind the other on a line that is cut into segments of one size; an item
that does not fit the rest of its segment goes to the start of the next one. Placing from a later
position ends no earlier.
-/

namespace Foundations

def place (size pos len : Nat) : Nat :=
  if pos % size + len ≤ size then pos + len else roundUp pos size + len

def placeAll (size pos : Nat) (lens : List Nat) : Nat := lens.foldl (place size) pos

variable {size pos pos' len : Nat} {lens : List Nat}

theorem roundUp_mono {n m align : Nat} (hpos : 0 < align) (h : n ≤ m) :
    roundUp n align ≤ roundUp m align :=
  roundUp_le (dvd_roundUp m align) (h.trans (le_roundUp hpos))

theorem roundUp_of_le {n align : Nat} (hn : 0 < n) (hle : n ≤ align) : roundUp n align = align := by
  apply Nat.le_antisymm
  · exact roundUp_le (dvd_refl align) hle
  · have hpos : 0 < roundUp n align := hn.trans_le (le_roundUp (hn.trans_le hle))
    exact Nat.le_of_dvd hpos (dvd_roundUp n align)

/-- Rounding up what lies behind the last boundary rounds up the whole. -/
theorem roundUp_block {align : Nat} (hpos : 0 < align) (n m : Nat) :
    n / align * align + roundUp (n - n / align * align + m) align = roundUp (n + m) align := by
  have hle := Nat.div_mul_le_self n align
  rw [← roundUp_add hpos (Nat.dvd_mul_left align _)]
  congr 1
  omega

/-- Placement by segment number and offset; an offset may be at the end of its segment. -/
theorem place_mul_add {k off : Nat} (hsize : 0 < size) (hoff : off ≤ size) (hlen : len ≤ size) :
    place size (k * size + off) len =
      if off + len ≤ size then k * size + off + len else (k + 1) * size + len := by
  have hdvd : size ∣ k * size := Nat.dvd_mul_left size k
  have hsucc : (k + 1) * size = k * size + size := Nat.succ_mul k size
  unfold place
  rcases Nat.lt_or_eq_of_le hoff with hlt | rfl
  · have hmod : (k * size + off) % size = off := by
      rw [Nat.add_comm, Nat.add_mul_mod_self_right, Nat.mod_eq_of_lt hlt]
    rw [hmod]
    by_cases hfit : off + len ≤ size
    · rw [if_pos hfit, if_pos hfit]
    · rw [if_neg hfit, if_neg hfit, roundUp_add hsize hdvd, roundUp_of_le (by omega) hoff, hsucc]
  · rw [← hsucc, Nat.mul_mod_left, if_pos (by omega)]
    split <;> omega

theorem le_place (hsize : 0 < size) (pos len : Nat) : pos + len ≤ place size pos len := by
  have hround := @le_roundUp pos size hsize
  unfold place
  split <;> omega

theorem le_placeAll (hsize : 0 < size) (pos : Nat) (lens : List Nat) :
    pos ≤ placeAll size pos lens := by
  induction lens generalizing pos with
  | nil => exact le_rfl
  | cons len lens ih =>
    have hfirst := le_place hsize pos len
    exact (by omega : pos ≤ place size pos len).trans (ih (place size pos len))

/-- From a later position an item ends no earlier. -/
theorem place_mono (hsize : 0 < size) (hlen : len ≤ size) (h : pos ≤ pos') :
    place size pos len ≤ place size pos' len := by
  have hfar := le_place hsize pos' len
  by_cases hfit : pos % size + len ≤ size
  · rw [place, if_pos hfit]
    omega
  -- The item goes to the next segment. If that starts before the later position, it ends before;
  -- else both positions are in one segment and the item does not fit behind the later one either.
  by_cases hnext : roundUp pos size ≤ pos'
  · rw [place, if_neg hfit]
    omega
  have hmod := Nat.mod_lt pos hsize
  have hpos : pos = pos / size * size + pos % size := by
    have hdiv := Nat.div_add_mod pos size
    rw [Nat.mul_comm] at hdiv
    omega
  have hround : roundUp pos size = pos / size * size + size := by
    nth_rewrite 1 [hpos]
    rw [roundUp_add hsize (Nat.dvd_mul_left size _), roundUp_of_le (by omega) hmod.le]
  obtain ⟨off, hoff⟩ := Nat.exists_eq_add_of_le (show pos / size * size ≤ pos' by omega)
  have hsame : place size pos len = (pos / size + 1) * size + len := by
    nth_rewrite 1 [hpos]
    rw [place_mul_add hsize hmod.le hlen, if_neg hfit]
  rw [hsame, hoff, place_mul_add hsize (by omega) hlen, if_neg (by omega)]

theorem placeAll_mono (hsize : 0 < size) (hlens : ∀ len ∈ lens, len ≤ size) (h : pos ≤ pos') :
    placeAll size pos lens ≤ placeAll size pos' lens := by
  induction lens generalizing pos pos' with
  | nil => exact h
  | cons len lens ih =>
    exact ih (fun l hl => hlens l (List.mem_cons_of_mem len hl))
      (place_mono hsize (hlens len List.mem_cons_self) h)

end Foundations
