import Mathlib.Tactic

/-!
# Writing a run of cells

A device is a function from addresses to cell contents. Patching it at an address writes a list of
cells from there on. The lemmas say how patches compose: consecutive ones merge, a repeated part
is absorbed, disjoint ones commute and an overlapping one can be moved into the list it overlaps.
-/

namespace Foundations

variable {α : Type*}

def patch (f : Nat → α) (start : Nat) (xs : List α) : Nat → α := fun b =>
  if start ≤ b then (xs[b - start]?).getD (f b) else f b

variable {f : Nat → α} {start start' b k : Nat} {xs ys : List α}

@[simp] theorem patch_nil (f : Nat → α) (start : Nat) : patch f start [] = f := by
  funext b
  simp [patch]

theorem patch_of_lt (h : b < start) : patch f start xs b = f b := if_neg (by omega)

theorem patch_of_ge (h : start + xs.length ≤ b) : patch f start xs b = f b := by
  rw [patch, if_pos (by omega), List.getElem?_eq_none (by omega)]
  rfl

theorem patch_of_not_mem (h : ¬ (start ≤ b ∧ b < start + xs.length)) :
    patch f start xs b = f b := by
  rcases Nat.lt_or_ge b start with hlt | hge
  · exact patch_of_lt hlt
  · exact patch_of_ge (by omega)

theorem patch_of_mem (hge : start ≤ b) (hlt : b < start + xs.length) :
    patch f start xs b = xs[b - start] := by
  rw [patch, if_pos hge, List.getElem?_eq_getElem (by omega)]
  rfl

section

variable (f) (start) (xs) (ys)

theorem patch_append :
    patch f start (xs ++ ys) = patch (patch f start xs) (start + xs.length) ys := by
  funext b
  by_cases hx : start ≤ b ∧ b < start + xs.length
  · rw [patch_of_lt hx.2, patch_of_mem hx.1 hx.2,
      patch_of_mem hx.1 (by rw [List.length_append]; omega), List.getElem_append_left]
  by_cases hy : start + xs.length ≤ b ∧ b < start + xs.length + ys.length
  · rw [patch_of_mem hy.1 hy.2, patch_of_mem (by omega) (by rw [List.length_append]; omega),
      List.getElem_append_right (by omega)]
    congr 1
    omega
  · rw [patch_of_not_mem hy, patch_of_not_mem hx,
      patch_of_not_mem (by rw [List.length_append]; omega)]

/-- Writing the front of a list first makes no difference. -/
theorem patch_take_patch (k : Nat) (xs : List α) :
    patch (patch f start (xs.take k)) start xs = patch f start xs := by
  funext b
  by_cases hx : start ≤ b ∧ b < start + xs.length
  · rw [patch_of_mem hx.1 hx.2, patch_of_mem hx.1 hx.2]
  · rw [patch_of_not_mem hx, patch_of_not_mem hx,
      patch_of_not_mem (by rw [List.length_take]; omega)]

end

theorem patch_comm (h : start + xs.length ≤ start' ∨ start' + ys.length ≤ start) :
    patch (patch f start xs) start' ys = patch (patch f start' ys) start xs := by
  funext b
  by_cases hx : start ≤ b ∧ b < start + xs.length
  · rw [patch_of_not_mem (by omega), patch_of_mem hx.1 hx.2, patch_of_mem hx.1 hx.2]
  rw [patch_of_not_mem (b := b) hx]
  by_cases hy : start' ≤ b ∧ b < start' + ys.length
  · rw [patch_of_mem hy.1 hy.2, patch_of_mem hy.1 hy.2]
  · rw [patch_of_not_mem hy, patch_of_not_mem hy, patch_of_not_mem hx]

def splice (xs : List α) (k : Nat) (ys : List α) : List α :=
  xs.take k ++ ys ++ xs.drop (k + ys.length)

/-- Overwriting the cells `xs` has and appending the others. -/
theorem splice_take_append (hk : k ≤ xs.length) :
    splice xs k (ys.take (min (xs.length - k) ys.length)) ++
      ys.drop (min (xs.length - k) ys.length) = splice xs k ys := by
  rcases Nat.le_total ys.length (xs.length - k) with hle | hle
  · rw [Nat.min_eq_right hle, List.take_length, List.drop_length, List.append_nil]
  have hnil : ∀ n, xs.length ≤ n → xs.drop n = [] := fun n => List.drop_eq_nil_of_le
  rw [Nat.min_eq_left hle, splice, splice, List.length_take_of_le hle, hnil _ (by omega),
    hnil _ (by omega), List.append_nil, List.append_nil, List.append_assoc,
    List.take_append_drop]

/-- A patch that starts inside or at the end of another one is part of one longer patch. -/
theorem patch_patch_splice (hk : k ≤ xs.length) :
    patch (patch f start xs) (start + k) ys = patch f start (splice xs k ys) := by
  have hlen : (xs.take k).length = k := List.length_take_of_le hk
  have hxs : patch f start xs = patch (patch f start (xs.take k)) (start + k) (xs.drop k) := by
    conv_lhs => rw [← List.take_append_drop k xs]
    rw [patch_append, hlen]
  rw [splice, List.append_assoc, patch_append, hlen, hxs, patch_append]
  generalize patch f start (xs.take k) = g
  funext b
  by_cases hy : start + k ≤ b ∧ b < start + k + ys.length
  · rw [patch_of_mem hy.1 hy.2, patch_of_lt (by omega), patch_of_mem hy.1 hy.2]
  rw [patch_of_not_mem hy]
  by_cases hx : start + k ≤ b ∧ b < start + k + (xs.drop k).length
  · have hd : (xs.drop (k + ys.length)).length = (xs.drop k).length - ys.length := by
      simp only [List.length_drop]
      omega
    rw [patch_of_mem hx.1 hx.2, patch_of_mem (by omega) (by omega), List.getElem_drop,
      List.getElem_drop]
    congr 1
    omega
  · rw [patch_of_not_mem hx, patch_of_not_mem, patch_of_not_mem hy]
    simp only [List.length_drop] at hx ⊢
    omega

end Foundations
