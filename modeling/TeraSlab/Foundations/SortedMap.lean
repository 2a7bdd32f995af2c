import Mathlib.Data.Prod.Lex
import Mathlib.Tactic

/-!
# Ordered maps as sorted association lists

`SortedMap K V` holds its entries in strictly increasing key order, as the entries of a balanced
search tree are visited. The operations are those of such a tree: insertion (which replaces the
value of a present key), removal, and the two neighbour queries around a key.
-/

namespace Foundations

section SortedBy

variable {α K : Type*} [LinearOrder K] {f : α → K} {l : List α} {k : K} {x y : α}
  (h : l.Pairwise fun a b => f a < f b)
include h

/-- The predicate `f · < k` cuts the list into what it holds of and the rest. -/
theorem takeWhile_dropWhile_lt : l.takeWhile (f · < k) = l.filter (f · < k) ∧
    l.dropWhile (f · < k) = l.filter (k ≤ f ·) := by
  induction l with
  | nil => exact ⟨rfl, rfl⟩
  | cons a as ih =>
    obtain ⟨ha, has⟩ := List.pairwise_cons.mp h
    by_cases hk : f a < k
    · simp [hk, ih has]
    · have hall : ∀ b ∈ as, k ≤ f b := fun b hb => (not_lt.mp hk).trans (ha b hb).le
      have hself := List.filter_eq_self.mpr fun b hb => decide_eq_true (hall b hb)
      have hnil : as.filter (f · < k) = [] := by simpa using hall
      simp [hk, not_lt.mp hk, hself, hnil]

theorem eq_of_sortedBy (hx : x ∈ l) (hy : y ∈ l) (hf : f x = f y) : x = y :=
  List.inj_on_of_nodup_map (List.pairwise_map.mpr (h.imp fun h => h.ne)) hx hy hf

theorem find?_least {p : α → Bool} (hx : l.find? p = some x) :
    ∀ y ∈ l, p y → f x ≤ f y := by
  obtain ⟨-, as, bs, rfl, has⟩ := List.find?_eq_some_iff_append.mp hx
  have := (List.pairwise_cons.mp (List.pairwise_append.mp h).2.1).1
  grind

theorem getLast?_greatest (hx : l.getLast? = some x) : ∀ y ∈ l, f y ≤ f x := by
  obtain ⟨as, rfl⟩ := List.getLast?_eq_some_iff.mp hx
  intro y hy
  rcases List.mem_append.mp hy with hy | hy
  · exact ((List.pairwise_append.mp h).2.2 y hy x (by simp)).le
  · exact (List.mem_singleton.mp hy ▸ le_rfl)

end SortedBy

/-- Entries in strictly increasing key order. -/
structure SortedMap (K V : Type*) [LinearOrder K] where
  entries : List (K × V)
  sorted : entries.Pairwise (fun a b => a.1 < b.1)

namespace SortedMap

variable {K V : Type*} [LinearOrder K]

/-- Insert into a sorted entry list, replacing the value of an equal key. -/
def insertEntry (k : K) (v : V) : List (K × V) → List (K × V)
  | [] => [(k, v)]
  | e :: es =>
    if k < e.1 then (k, v) :: e :: es
    else if k = e.1 then (k, v) :: es
    else e :: insertEntry k v es

variable {e : K × V} {k : K} {v : V} {es : List (K × V)}

theorem mem_insertEntry (hs : es.Pairwise (fun a b => a.1 < b.1)) :
    e ∈ insertEntry k v es ↔ e = (k, v) ∨ (e ∈ es ∧ e.1 ≠ k) := by
  induction es with
  | nil => simp [insertEntry]
  | cons a as ih =>
    obtain ⟨ha, has⟩ := List.pairwise_cons.mp hs
    simp only [insertEntry]
    split_ifs with hlt heq
    · have hne : ∀ b ∈ a :: as, b.1 ≠ k := by
        rintro b (_ | ⟨_, hb⟩)
        · exact hlt.ne'
        · exact (hlt.trans (ha b hb)).ne'
      rw [List.mem_cons]
      exact or_congr_right ⟨fun h => ⟨h, hne e h⟩, And.left⟩
    · have hne : ∀ b ∈ as, b.1 ≠ k := fun b hb => heq ▸ (ha b hb).ne'
      simp only [List.mem_cons]
      constructor
      · rintro (h | h)
        · exact Or.inl h
        · exact Or.inr ⟨Or.inr h, hne e h⟩
      · rintro (h | ⟨rfl | h, hk⟩)
        · exact Or.inl h
        · exact absurd heq.symm hk
        · exact Or.inr h
    · simp only [List.mem_cons, ih has]
      constructor
      · rintro (rfl | h | h)
        · exact Or.inr ⟨Or.inl rfl, fun h => heq h.symm⟩
        · exact Or.inl h
        · exact Or.inr ⟨Or.inr h.1, h.2⟩
      · rintro (h | ⟨h | h, hk⟩)
        · exact Or.inr (Or.inl h)
        · exact Or.inl h
        · exact Or.inr (Or.inr ⟨h, hk⟩)

theorem sorted_insertEntry (hs : es.Pairwise (fun a b => a.1 < b.1)) :
    (insertEntry k v es).Pairwise (fun a b => a.1 < b.1) := by
  induction es with
  | nil => simp [insertEntry]
  | cons a as ih =>
    obtain ⟨ha, has⟩ := List.pairwise_cons.mp hs
    simp only [insertEntry]
    split_ifs with hlt heq
    · refine List.pairwise_cons.mpr ⟨?_, hs⟩
      rintro b (_ | ⟨_, hb⟩)
      · exact hlt
      · exact hlt.trans (ha b hb)
    · exact List.pairwise_cons.mpr ⟨fun b hb => heq ▸ ha b hb, has⟩
    · refine List.pairwise_cons.mpr ⟨fun b hb => ?_, ih has⟩
      rcases (mem_insertEntry has).mp hb with rfl | ⟨hb, -⟩
      · exact lt_of_le_of_ne (not_lt.mp hlt) (Ne.symm heq)
      · exact ha b hb

def empty : SortedMap K V := ⟨[], List.Pairwise.nil⟩

def insert (m : SortedMap K V) (k : K) (v : V) : SortedMap K V :=
  ⟨insertEntry k v m.entries, sorted_insertEntry m.sorted⟩

def erase (m : SortedMap K V) (k : K) : SortedMap K V :=
  ⟨m.entries.filter (fun e => e.1 ≠ k), m.sorted.filter _⟩

def get? (m : SortedMap K V) (k : K) : Option V := (m.entries.find? (fun e => e.1 = k)).map (·.2)

def isEmpty (m : SortedMap K V) : Bool := m.entries.isEmpty

def firstFrom (m : SortedMap K V) (k : K) : Option (K × V) := m.entries.find? (fun e => k ≤ e.1)

def lastBefore (m : SortedMap K V) (k : K) : Option (K × V) :=
  (m.entries.filter (fun e => e.1 < k)).getLast?

@[simp] theorem entries_empty : (empty : SortedMap K V).entries = [] := rfl

variable {m : SortedMap K V}

@[simp] theorem mem_insert : e ∈ (m.insert k v).entries ↔ e = (k, v) ∨ (e ∈ m.entries ∧ e.1 ≠ k) :=
  mem_insertEntry m.sorted

@[simp] theorem mem_erase :
    e ∈ (m.erase k).entries ↔ e ∈ m.entries ∧ e.1 ≠ k := by
  simp [erase]

theorem eq_of_key {a b : K × V} (ha : a ∈ m.entries) (hb : b ∈ m.entries)
    (h : a.1 = b.1) : a = b := eq_of_sortedBy m.sorted ha hb h

theorem get?_eq_some : m.get? k = some v ↔ (k, v) ∈ m.entries := by
  simp only [get?, Option.map_eq_some_iff]
  constructor
  · rintro ⟨e, he, rfl⟩
    have hk : e.1 = k := by simpa using List.find?_some he
    exact hk ▸ List.mem_of_find?_eq_some he
  · intro h
    cases hf : m.entries.find? (fun e => e.1 = k) with
    | none => exact absurd (List.find?_eq_none.mp hf _ h) (by simp)
    | some e =>
      have hk : e.1 = k := by simpa using List.find?_some hf
      have he : e = (k, v) := eq_of_key (List.mem_of_find?_eq_some hf) h hk
      exact ⟨e, rfl, by rw [he]⟩

@[simp] theorem get?_empty (k : K) : (empty : SortedMap K V).get? k = none := rfl

section

variable {m : SortedMap K V} {k' : K}

theorem get?_insert : (m.insert k v).get? k' = if k' = k then some v else m.get? k' := by
  ext w
  split_ifs with h
  · rw [get?_eq_some, h, mem_insert]
    grind
  · simp [get?_eq_some, h]

theorem get?_erase : (m.erase k).get? k' = if k' = k then none else m.get? k' := by
  ext w
  split_ifs with h <;> simp [get?_eq_some, h]

theorem get?_eq_none_of_isEmpty (h : m.isEmpty) (k : K) :
    m.get? k = none := by
  simp [get?, List.isEmpty_iff.mp h]

end

/-- Entries with distinct new keys, inserted one after the other. -/
theorem mem_foldl_insert {α : Type*} {key : α → K} {w : α → V}
    {v : List α} (hkeys : (v.map key).Nodup)
    (hfresh : ∀ x ∈ v, ∀ e ∈ m.entries, e.1 ≠ key x) :
    e ∈ (v.foldl (fun m x => m.insert (key x) (w x)) m).entries ↔
      e ∈ m.entries ∨ ∃ x ∈ v, e = (key x, w x) := by
  induction v generalizing m with
  | nil => simp
  | cons x xs ih =>
    obtain ⟨hx, hxs⟩ := List.nodup_cons.mp hkeys
    have hfresh' : ∀ y ∈ xs, ∀ e ∈ (m.insert (key x) (w x)).entries, e.1 ≠ key y := by
      intro y hy e he
      rcases mem_insert.mp he with rfl | ⟨he, -⟩
      · exact fun hk => hx (List.mem_map.mpr ⟨y, hy, hk.symm⟩)
      · exact hfresh y (List.mem_cons_of_mem _ hy) e he
    rw [List.foldl_cons, ih hxs hfresh', mem_insert]
    constructor
    · rintro ((rfl | h) | ⟨y, hy, rfl⟩)
      · exact Or.inr ⟨x, List.mem_cons_self, rfl⟩
      · exact Or.inl h.1
      · exact Or.inr ⟨y, List.mem_cons_of_mem _ hy, rfl⟩
    · rintro (h | ⟨y, hy, rfl⟩)
      · exact Or.inl (Or.inr ⟨h, hfresh x List.mem_cons_self e h⟩)
      rcases List.mem_cons.mp hy with rfl | hy
      · exact Or.inl (Or.inl rfl)
      · exact Or.inr ⟨y, hy, rfl⟩

end SortedMap

end Foundations
