import Mathlib.Data.List.AList
import Mathlib.Tactic

/-!
# Logs of cells

A log whose file is a string of cells of one width. Reading it decodes every whole cell and skips
those that do not decode; a rest shorter than a cell is ignored, so a torn append loses the entry
it was writing and none before it.

The entries of such a log are replayed into an index, and the newest entry of a key wins.
-/

namespace Foundations

/-! ## Cells -/

section Cells

variable {α β : Type*} {width : Nat} {dec : List β → Option α} {enc : α → List β}
  {xs ys : List β}

def decodeCells (width : Nat) (dec : List β → Option α) (data : List β) : List α :=
  (List.range (data.length / width)).filterMap fun i => dec ((data.drop (width * i)).take width)

theorem decodeCells_append (hpos : 0 < width) (hdvd : width ∣ xs.length) :
    decodeCells width dec (xs ++ ys) = decodeCells width dec xs ++ decodeCells width dec ys := by
  obtain ⟨n, hn⟩ := hdvd
  have hcount : (xs ++ ys).length / width = xs.length / width + ys.length / width := by
    rw [List.length_append, hn, Nat.mul_add_div hpos, Nat.mul_div_cancel_left _ hpos]
  rw [decodeCells, hcount, List.range_add, List.filterMap_append, List.filterMap_map]
  congr 1
  · -- A cell of the first part ends inside it.
    refine List.filterMap_congr fun i hi => ?_
    rw [List.mem_range, hn, Nat.mul_div_cancel_left _ hpos] at hi
    have hend : width * i + width ≤ xs.length := by
      rw [hn, ← Nat.mul_succ]
      exact Nat.mul_le_mul_left _ hi
    rw [List.drop_append_of_le_length (by omega), List.take_append_of_le_length (by simp; omega)]
  · refine List.filterMap_congr fun i _ => ?_
    have hpast : width * (xs.length / width + i) = xs.length + width * i := by
      rw [hn, Nat.mul_div_cancel_left _ hpos, Nat.mul_add]
    rw [Function.comp_apply, hpast, List.drop_append, List.drop_eq_nil_of_le (by omega),
      Nat.add_sub_cancel_left, List.nil_append]

theorem decodeCells_of_lt (h : xs.length < width) : decodeCells width dec xs = [] := by
  rw [decodeCells, Nat.div_eq_of_lt h, List.range_zero, List.filterMap_nil]

theorem decodeCells_cell (hpos : 0 < width) (h : xs.length = width) :
    decodeCells width dec xs = (dec xs).toList := by
  have htake : xs.take width = xs := List.take_of_length_le h.le
  rw [decodeCells, h, Nat.div_self hpos, List.range_one]
  cases hx : dec xs <;> simp [htake, hx]

/-- Of entries whose encodings are cut off somewhere, those whose cell is whole are read back. -/
theorem decodeCells_take (hpos : 0 < width) (hlen : ∀ e, (enc e).length = width)
    (hdec : ∀ e, dec (enc e) = some e) (es : List α) (kept : Nat) :
    decodeCells width dec ((es.flatMap enc).take kept) = es.take (kept / width) := by
  induction es generalizing kept with
  | nil =>
    rw [List.flatMap_nil, List.take_nil, List.take_nil]
    exact decodeCells_of_lt hpos
  | cons e es ih =>
    rw [List.flatMap_cons]
    by_cases hshort : kept < width
    · rw [Nat.div_eq_of_lt hshort, List.take_zero]
      exact decodeCells_of_lt (by simp; omega)
    have hsplit : (enc e ++ es.flatMap enc).take kept =
        enc e ++ (es.flatMap enc).take (kept - width) := by
      rw [List.take_append, List.take_of_length_le (by rw [hlen]; omega), hlen]
    have hdiv : kept / width = (kept - width) / width + 1 := by
      rw [← Nat.add_div_right _ hpos, Nat.sub_add_cancel (by omega)]
    rw [hsplit, decodeCells_append hpos (by rw [hlen]), decodeCells_cell hpos (hlen e), hdec, ih,
      hdiv]
    rfl

theorem length_cells (hlen : ∀ e, (enc e).length = width) (es : List α) :
    (es.flatMap enc).length = es.length * width := by
  induction es with
  | nil => simp
  | cons e es ih => rw [List.flatMap_cons, List.length_append, hlen, ih, List.length_cons]; ring

theorem decodeCells_flatMap (hpos : 0 < width) (hlen : ∀ e, (enc e).length = width)
    (hdec : ∀ e, dec (enc e) = some e) (es : List α) :
    decodeCells width dec (es.flatMap enc) = es := by
  have hall := decodeCells_take hpos hlen hdec es (es.flatMap enc).length
  rwa [List.take_length, length_cells hlen, Nat.mul_div_cancel _ hpos, List.take_length] at hall

end Cells

/-! ## The newest entry of a key -/

section Newest

variable {K V : Type*} [DecidableEq K] {k : K} {v : V} {old : Option V} {es es' : List (K × V)}

/-- The value a key has once the entries are replayed in order. -/
def newest (k : K) (old : Option V) (es : List (K × V)) : Option V :=
  es.foldl (fun o e => if e.1 = k then some e.2 else o) old

theorem newest_cons (e : K × V) :
    newest k old (e :: es) = newest k (if e.1 = k then some e.2 else old) es := rfl

theorem newest_of_absent (h : ∀ e ∈ es, e.1 ≠ k) : newest k old es = old := by
  induction es generalizing old with
  | nil => rfl
  | cons e es ih =>
    rw [newest_cons, if_neg (h e List.mem_cons_self)]
    exact ih fun e' he' => h e' (List.mem_cons_of_mem e he')

/-- Once a key has an entry, what came before does not matter. -/
theorem newest_of_mem (old' : Option V) (h : (k, v) ∈ es) :
    newest k old es = newest k old' es := by
  induction es generalizing old old' with
  | nil => exact absurd h List.not_mem_nil
  | cons e es ih =>
    rw [newest_cons, newest_cons]
    by_cases he : e.1 = k
    · rw [if_pos he, if_pos he]
    · rw [if_neg he, if_neg he]
      exact ih old' ((List.mem_cons.mp h).resolve_left fun heq => he (heq ▸ rfl))

theorem eq_or_mem_of_newest (h : newest k old es = some v) :
    (old = some v ∧ ∀ e ∈ es, e.1 ≠ k) ∨ (k, v) ∈ es := by
  induction es generalizing old with
  | nil => exact .inl ⟨h, nofun⟩
  | cons e es ih =>
    rw [newest_cons] at h
    rcases ih h with ⟨hold, hrest⟩ | hmem
    · split_ifs at hold with he
      · obtain rfl := Option.some.inj hold
        exact .inr (he ▸ List.mem_cons_self)
      · exact .inl ⟨hold, List.forall_mem_cons.mpr ⟨he, hrest⟩⟩
    · exact .inr (List.mem_cons_of_mem e hmem)

theorem exists_newest (v : V) (es : List (K × V)) : ∃ v', newest k (some v) es = some v' := by
  induction es generalizing v with
  | nil => exact ⟨v, rfl⟩
  | cons e es ih =>
    rw [newest_cons]
    split_ifs
    · exact ih e.2
    · exact ih v

def insertAll (index : AList fun _ : K => V) (es : List (K × V)) : AList fun _ : K => V :=
  es.foldl (fun m e => m.insert e.1 e.2) index

theorem lookup_insertAll (index : AList fun _ : K => V) :
    (insertAll index es).lookup k = newest k (index.lookup k) es := by
  induction es generalizing index with
  | nil => rfl
  | cons e es ih =>
    have hinsert : (index.insert e.1 e.2).lookup k =
        if e.1 = k then some e.2 else index.lookup k := by
      split_ifs with he
      · rw [← he, AList.lookup_insert]
      · exact AList.lookup_insert_ne (Ne.symm he)
    rw [newest_cons, ← hinsert]
    exact ih _

def retain (index : AList fun _ : K => V) (keep : K → V → Bool) : AList fun _ : K => V where
  entries := index.entries.filter fun e => keep e.1 e.2
  nodupKeys := index.nodupKeys.sublist List.filter_sublist

variable {index : AList fun _ : K => V}

theorem lookup_retain {keep : K → V → Bool} :
    (retain index keep).lookup k = some v ↔ index.lookup k = some v ∧ keep k v := by
  have hmem : ∀ m : AList fun _ : K => V, m.lookup k = some v ↔ ⟨k, v⟩ ∈ m.entries :=
    fun m => AList.mem_lookup_iff
  rw [hmem, hmem, retain, List.mem_filter]

def listing (index : AList fun _ : K => V) : List (K × V) := index.entries.map fun e => (e.1, e.2)

theorem mem_listing :
    (k, v) ∈ listing index ↔ index.lookup k = some v := by
  have hmem : index.lookup k = some v ↔ ⟨k, v⟩ ∈ index.entries := AList.mem_lookup_iff
  rw [hmem, listing, List.mem_map]
  constructor
  · rintro ⟨⟨k', v'⟩, he, heq⟩
    obtain ⟨rfl, rfl⟩ := Prod.mk.inj heq
    exact he
  · exact fun he => ⟨_, he, rfl⟩

/-- Writing an index out and replaying it gives every value back. -/
theorem newest_listing (h : index.lookup k = some v) :
    newest k old (listing index) = some v := by
  have hmem := mem_listing.mpr h
  rw [newest_of_mem (some v) hmem]
  obtain ⟨v', hnew⟩ := exists_newest v (listing index) (k := k)
  rcases eq_or_mem_of_newest hnew with ⟨hv, -⟩ | hmem'
  · exact hnew.trans hv.symm
  · rw [mem_listing, h] at hmem'
    exact hnew.trans hmem'.symm

end Newest

end Foundations
