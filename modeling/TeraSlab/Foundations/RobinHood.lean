import Mathlib.Tactic

/-!
# Robin Hood rows

A row of positions, each empty or with a cell. A key has a home position, and its cell lies at or
behind the home, with its distance from there recorded up to a cap. A row is ordered when every
position between a home and the cell of its key is taken by a cell that records at least the
distance up to there, or the cap.

A key is put into a row by carrying it from its home on. The key in hand is exchanged for a cell
with a smaller distance, and the first empty position takes what is then in hand. A cell is taken
out by moving the cells behind it one position back. Both keep the row ordered. A cyclic row may
be read from the position behind any empty one.
-/

namespace Foundations.RobinHood

variable {K V : Type*}

structure Cell (K V : Type*) where
  key : K
  value : V
  probe : Nat

abbrev Row (K V : Type*) := Nat → Option (Cell K V)

def Holds (n : Nat) (row : Row K V) (k : K) (v : V) : Prop :=
  ∃ a < n, ∃ c ∈ row a, c.key = k ∧ c.value = v

structure Ordered (n cap : Nat) (home : K → Nat) (row : Row K V) : Prop where
  home_le : ∀ a < n, ∀ c ∈ row a, home c.key ≤ a
  probe : ∀ a < n, ∀ c ∈ row a, c.probe = min (a - home c.key) cap
  path : ∀ a < n, ∀ c ∈ row a, ∀ j < a, home c.key ≤ j →
    ∃ d ∈ row j, min (j - home c.key) cap ≤ d.probe
  inj : ∀ a < n, ∀ b < n, ∀ c ∈ row a, ∀ d ∈ row b, c.key = d.key → a = b

/-- The key is in hand at position `i`, with `d` steps counted since its home. -/
structure Carried (n cap : Nat) (home : K → Nat) (row : Row K V) (k : K) (i d : Nat) : Prop where
  home_le : home k ≤ i
  capped : min d cap = min (i - home k) cap
  le : d ≤ i - home k
  path : ∀ j < i, home k ≤ j → ∃ c ∈ row j, min (j - home k) cap ≤ c.probe
  fresh : ∀ a < n, ∀ c ∈ row a, c.key ≠ k

variable {n cap : Nat} {home : K → Nat} {row : Row K V} {k : K} {v : V} {i d : Nat}
  {c : Cell K V}

theorem ordered_empty : Ordered n cap home (fun _ => (none : Option (Cell K V))) := by
  constructor <;> simp

variable {v' : V} {k' : K} {j : Nat}

section

variable (h : Ordered n cap home row) (hi : i < n) (hc : c ∈ row i)
include h hi hc

/-- The value of a key is determined by its cell. -/
theorem Ordered.holds_cell :
    Holds n row c.key v ↔ v = c.value := by
  constructor
  · rintro ⟨a, ha, b, hb, hkey, rfl⟩
    obtain rfl := h.inj a ha i hi b hb c hc hkey
    rw [Option.mem_unique hb hc]
  · rintro rfl
    exact ⟨i, hi, c, hc, rfl, rfl⟩

end

/-! ### Putting a key into a row -/

theorem Carried.start (hfresh : ∀ a < n, ∀ c ∈ row a, c.key ≠ k) :
    Carried n cap home row k (home k) 0 where
  home_le := le_rfl
  capped := by simp
  le := by simp
  path := fun j hj hle => absurd hj (by omega)
  fresh := hfresh

/-- A cell with at least the distance that is counted is passed. -/
theorem Carried.skip (h : Carried n cap home row k i d) (hc : c ∈ row i) (hle : d ≤ c.probe) :
    Carried n cap home row k (i + 1) (d + 1) where
  home_le := h.home_le.trans (Nat.le_succ i)
  capped := by have := h.capped; have := h.home_le; omega
  le := by have := h.le; have := h.home_le; omega
  path := by
    intro j hj hhome
    rcases Nat.lt_succ_iff_lt_or_eq.mp hj with hlt | rfl
    · exact h.path j hlt hhome
    · have hcap := h.capped
      exact ⟨c, hc, by omega⟩
  fresh := h.fresh

/-- The row with the key in hand put at a position. -/
def put (cap : Nat) (row : Row K V) (i : Nat) (k : K) (v : V) (d : Nat) : Row K V :=
  Function.update row i (some ⟨k, v, min d cap⟩)

theorem put_of_ne (h : j ≠ i) : put cap row i k v d j = row j :=
  Function.update_of_ne h ..

theorem mem_put {a : Nat} {b : Cell K V} :
    b ∈ put cap row i k v d a ↔ (a = i ∧ b = ⟨k, v, min d cap⟩) ∨ (a ≠ i ∧ b ∈ row a) := by
  by_cases ha : a = i
  · subst ha
    simp [put, eq_comm]
  · simp [put_of_ne ha, ha]

/-- A put over a cell with a smaller distance does not shorten any recorded distance. -/
theorem probe_put (h : Ordered n cap home row) (hi : i < n) (hle : ∀ c ∈ row i, c.probe ≤ d)
    {m : Nat} (hj : ∃ b ∈ row j, m ≤ b.probe) : ∃ b ∈ put cap row i k v d j, m ≤ b.probe := by
  obtain ⟨b, hb, hm⟩ := hj
  by_cases hji : j = i
  · subst hji
    have hcap := h.probe j hi b hb
    have hd := hle b hb
    exact ⟨_, mem_put.mpr (.inl ⟨rfl, rfl⟩), by dsimp only; omega⟩
  · exact ⟨b, mem_put.mpr (.inr ⟨hji, hb⟩), hm⟩

/-- A put keeps the order if no other position has the key. -/
theorem Ordered.put_of (h : Ordered n cap home row) (hi : i < n) (hhome : home k ≤ i)
    (hcapped : min d cap = min (i - home k) cap)
    (hpath : ∀ j < i, home k ≤ j → ∃ c ∈ row j, min (j - home k) cap ≤ c.probe)
    (hother : ∀ a < n, a ≠ i → ∀ c ∈ row a, c.key ≠ k) (hle : ∀ c ∈ row i, c.probe ≤ d) :
    Ordered n cap home (put cap row i k v d) where
  home_le := by
    intro a ha b hb
    rcases mem_put.mp hb with ⟨rfl, rfl⟩ | ⟨-, hb⟩
    · exact hhome
    · exact h.home_le a ha b hb
  probe := by
    intro a ha b hb
    rcases mem_put.mp hb with ⟨rfl, rfl⟩ | ⟨-, hb⟩
    · exact hcapped
    · exact h.probe a ha b hb
  path := by
    intro a ha b hb j hj hhome
    apply probe_put h hi hle
    rcases mem_put.mp hb with ⟨rfl, rfl⟩ | ⟨-, hb⟩
    · exact hpath j hj hhome
    · exact h.path a ha b hb j hj hhome
  inj := by
    intro a ha a' ha' b hb b' hb' hkey
    rcases mem_put.mp hb with ⟨rfl, rfl⟩ | ⟨hne, hold⟩ <;>
      rcases mem_put.mp hb' with ⟨rfl, rfl⟩ | ⟨hne', hold'⟩
    · rfl
    · exact absurd hkey.symm (hother a' ha' hne' b' hold')
    · exact absurd hkey (hother a ha hne b hold)
    · exact h.inj a ha a' ha' b hold b' hold' hkey

/-- A cell may be replaced by one with the same key and distance. -/
theorem Ordered.reput (h : Ordered n cap home row) (hi : i < n) (hc : c ∈ row i)
    (hd : min d cap = c.probe) : Ordered n cap home (put cap row i c.key v d) := by
  refine h.put_of hi (h.home_le i hi c hc) (hd.trans (h.probe i hi c hc)) (h.path i hi c hc)
    (fun a ha hne b hb hkey => hne (h.inj a ha i hi b hb c hc hkey)) fun b hb => ?_
  rw [Option.mem_unique hb hc]
  omega

section

variable (h : Ordered n cap home row) (hcar : Carried n cap home row k i d) (hi : i < n)
include h hcar hi

theorem Ordered.put (hle : ∀ c ∈ row i, c.probe ≤ d) :
    Ordered n cap home (put cap row i k v d) :=
  h.put_of hi hcar.home_le hcar.capped hcar.path (fun a ha _ => hcar.fresh a ha) hle

/-- The key of the cell that was exchanged is in hand at the next position. -/
theorem Carried.displaced (hc : c ∈ row i) (hlt : c.probe < d) :
    Carried n cap home (put cap row i k v d) c.key (i + 1) (c.probe + 1) where
  home_le := (h.home_le i hi c hc).trans (Nat.le_succ i)
  capped := by
    have := h.home_le i hi c hc
    have := h.probe i hi c hc
    omega
  le := by
    have := h.home_le i hi c hc
    have := h.probe i hi c hc
    omega
  path := by
    intro j hj hhome
    apply probe_put h hi fun b hb => by rw [Option.mem_unique hb hc]; exact hlt.le
    rcases Nat.lt_succ_iff_lt_or_eq.mp hj with hji | rfl
    · exact h.path i hi c hc j hji hhome
    · exact ⟨c, hc, (h.probe j hi c hc).ge⟩
  fresh := by
    intro a ha b hb
    rcases mem_put.mp hb with ⟨rfl, rfl⟩ | ⟨hne, hb⟩
    · exact (hcar.fresh a hi c hc).symm
    · exact fun hkey => hne (h.inj a ha i hi b hb c hc hkey)

end

/-- What the row holds after a put: the key that was in hand, and what other positions held. -/
theorem holds_put (hi : i < n) :
    Holds n (put cap row i k v d) k' v' ↔
      (k' = k ∧ v' = v) ∨ ∃ a < n, a ≠ i ∧ ∃ c ∈ row a, c.key = k' ∧ c.value = v' := by
  constructor
  · rintro ⟨a, ha, b, hb, rfl, rfl⟩
    rcases mem_put.mp hb with ⟨-, rfl⟩ | ⟨hne, hb⟩
    · exact .inl ⟨rfl, rfl⟩
    · exact .inr ⟨a, ha, hne, b, hb, rfl, rfl⟩
  · rintro (⟨rfl, rfl⟩ | ⟨a, ha, hne, b, hb, hk⟩)
    · exact ⟨i, hi, _, mem_put.mpr (.inl ⟨rfl, rfl⟩), rfl, rfl⟩
    · exact ⟨a, ha, b, mem_put.mpr (.inr ⟨hne, hb⟩), hk⟩

theorem Ordered.holds_reput (h : Ordered n cap home row) (hi : i < n) (hc : c ∈ row i) :
    Holds n (RobinHood.put cap row i c.key v d) k' v' ↔
      (Holds n row k' v' ∧ k' ≠ c.key) ∨ (k' = c.key ∧ v' = v) := by
  rw [holds_put hi, or_comm]
  refine or_congr_left ⟨?_, ?_⟩
  · rintro ⟨a, ha, hne, b, hb, rfl, rfl⟩
    exact ⟨⟨a, ha, b, hb, rfl, rfl⟩, fun hkey => hne (h.inj a ha i hi b hb c hc hkey)⟩
  · rintro ⟨⟨a, ha, b, hb, rfl, rfl⟩, hne⟩
    refine ⟨a, ha, ?_, b, hb, rfl, rfl⟩
    rintro rfl
    exact hne (by rw [Option.mem_unique hb hc])

theorem holds_put_empty (hi : i < n) (hempty : row i = none) :
    Holds n (put cap row i k v d) k' v' ↔ Holds n row k' v' ∨ (k' = k ∧ v' = v) := by
  have hne {a : Nat} {c : Cell K V} (hc : c ∈ row a) : a ≠ i := by
    rintro rfl
    simp [hempty] at hc
  rw [holds_put hi, or_comm]
  refine or_congr_left ⟨?_, ?_⟩
  · rintro ⟨a, ha, -, hrest⟩
    exact ⟨a, ha, hrest⟩
  · rintro ⟨a, ha, c, hc, hk⟩
    exact ⟨a, ha, hne hc, c, hc, hk⟩

/-- What the row holds and what is in hand do not change by an exchange. -/
theorem holds_exchange (hi : i < n) (hc : c ∈ row i) :
    Holds n (put cap row i k v d) k' v' ∨ (k' = c.key ∧ v' = c.value) ↔
      Holds n row k' v' ∨ (k' = k ∧ v' = v) := by
  rw [holds_put hi]
  constructor
  · rintro ((hnew | ⟨a, ha, -, b, hb, hk⟩) | ⟨rfl, rfl⟩)
    · exact .inr hnew
    · exact .inl ⟨a, ha, b, hb, hk⟩
    · exact .inl ⟨i, hi, c, hc, rfl, rfl⟩
  · rintro (⟨a, ha, b, hb, rfl, rfl⟩ | hnew)
    · by_cases hai : a = i
      · subst hai
        rw [Option.mem_unique hb hc]
        exact .inr ⟨rfl, rfl⟩
      · exact .inl (.inr ⟨a, ha, hai, b, hb, rfl, rfl⟩)
    · exact .inl (.inl hnew)

/-! ### Taking a cell out -/

/-- The cell one position nearer to its home. A distance at the cap is left as it is. -/
def Cell.nearer (cap : Nat) (c : Cell K V) : Cell K V :=
  { c with probe := if c.probe < cap then c.probe - 1 else c.probe }

/-- The row with the `m` cells behind position `a` moved one position back. -/
def shifted (cap : Nat) (row : Row K V) (a m : Nat) : Row K V := fun i =>
  if a ≤ i ∧ i < a + m then (row (i + 1)).map (.nearer cap)
  else if i = a + m then none
  else row i

/-- The row while the cells behind position `a` are moved, after `m` of them. -/
def sliding (cap : Nat) (row : Row K V) (a m : Nat) : Row K V := fun i =>
  if a ≤ i ∧ i < a + m then (row (i + 1)).map (.nearer cap) else row i

variable {a m b : Nat}

theorem sliding_zero : sliding cap row a 0 = row := by
  funext i
  exact if_neg (by omega)

theorem sliding_of_le (h : a + m ≤ i) : sliding cap row a m i = row i := if_neg (by omega)

theorem sliding_succ : sliding cap row a (m + 1) =
    Function.update (sliding cap row a m) (a + m) ((row (a + m + 1)).map (.nearer cap)) := by
  funext i
  by_cases hi : i = a + m
  · subst hi
    rw [Function.update_self]
    exact if_pos (by omega)
  · rw [Function.update_of_ne hi]
    unfold sliding
    split_ifs <;> first | rfl | omega

theorem shifted_eq_update : shifted cap row a m =
    Function.update (sliding cap row a m) (a + m) none := by
  funext i
  by_cases hi : i = a + m
  · subst hi
    rw [Function.update_self]
    unfold shifted
    rw [if_neg (by omega), if_pos rfl]
  · rw [Function.update_of_ne hi]
    unfold shifted sliding
    rw [if_neg hi]

theorem mem_shifted {b : Cell K V} :
    b ∈ shifted cap row a m i ↔ (a ≤ i ∧ i < a + m ∧ ∃ c ∈ row (i + 1), b = c.nearer cap) ∨
      ((i < a ∨ a + m < i) ∧ b ∈ row i) := by
  unfold shifted
  split_ifs with hrun hend
  · simp only [Option.mem_def, Option.map_eq_some_iff, hrun, true_and]
    constructor
    · rintro ⟨c, hc, rfl⟩
      exact .inl ⟨c, hc, rfl⟩
    rintro (⟨c, hc, rfl⟩ | ⟨hout, -⟩)
    · exact ⟨c, hc, rfl⟩
    · omega
  · simp only [Option.mem_def, reduceCtorEq, false_iff]
    omega
  · have hout : i < a ∨ a + m < i := by omega
    simp only [hout, true_and]
    exact ⟨.inr, fun h => h.elim (fun hin => absurd ⟨hin.1, hin.2.1⟩ hrun) id⟩

/-- Every cell that is moved is away from its home, and not just at the cap. -/
structure Movable (n cap : Nat) (home : K → Nat) (row : Row K V) (a m : Nat) : Prop where
  lt : a + m < n
  run : ∀ i, a < i → i ≤ a + m → ∃ c ∈ row i, c.probe ≠ 0 ∧ i - home c.key ≠ cap
  stop : a + m + 1 < n → ∀ c ∈ row (a + m + 1), c.probe = 0

/-- A moved cell is behind its home, and records its distance. -/
theorem Ordered.nearer (h : Ordered n cap home row) (hi : i + 1 < n) (hc : c ∈ row (i + 1))
    (hne : c.probe ≠ 0) (hcap : i + 1 - home c.key ≠ cap) :
    home c.key ≤ i ∧ (c.nearer cap).probe = min (i - home c.key) cap := by
  have hprobe := h.probe (i + 1) hi c hc
  refine ⟨by omega, ?_⟩
  unfold Cell.nearer
  dsimp only
  split_ifs <;> omega

/-- No cell behind the moved ones has its home at or before them. -/
theorem Movable.behind (hmov : Movable n cap home row a m) (h : Ordered n cap home row)
    (hcap : 0 < cap) (hb : b < n) (hab : a + m < b) (hc : c ∈ row b) : a + m < home c.key := by
  by_contra hle
  have hstop := hmov.stop (by omega)
  rcases Nat.eq_or_lt_of_le hab with heq | hlt
  · subst heq
    have hzero := hstop c hc
    have hprobe := h.probe _ hb c hc
    omega
  · obtain ⟨e, he, hle'⟩ := h.path b hb c hc (a + m + 1) hlt (by omega)
    have hzero := hstop e he
    omega

/-- A position that a cell passes on its way is taken after the move as well. -/
theorem Movable.path (hmov : Movable n cap home row a m) (h : Ordered n cap home row)
    (hb : b ≤ a + m) (hc : c ∈ row b) {j : Nat} (hj : j + 1 < b) (hhome : home c.key ≤ j) :
    ∃ e ∈ shifted cap row a m j, min (j - home c.key) cap ≤ e.probe := by
  have hbn : b < n := hb.trans_lt hmov.lt
  by_cases hja : j < a
  · obtain ⟨e, he, hle⟩ := h.path b hbn c hc j (by omega) hhome
    exact ⟨e, mem_shifted.mpr (.inr ⟨.inl hja, he⟩), hle⟩
  obtain ⟨e, he, hle⟩ := h.path b hbn c hc (j + 1) hj (by omega)
  refine ⟨e.nearer cap, mem_shifted.mpr (.inl ⟨by omega, by omega, e, he, rfl⟩), ?_⟩
  unfold Cell.nearer
  dsimp only
  split_ifs <;> omega

theorem Ordered.shifted (h : Ordered n cap home row) (hcap : 0 < cap)
    (hmov : Movable n cap home row a m) : Ordered n cap home (shifted cap row a m) := by
  have hlt := hmov.lt
  have hrun {i : Nat} {c : Cell K V} (hi : a ≤ i) (him : i < a + m) (hc : c ∈ row (i + 1)) :
      home c.key ≤ i ∧ (c.nearer cap).probe = min (i - home c.key) cap := by
    obtain ⟨e, he, hne, hcap⟩ := hmov.run (i + 1) (by omega) (by omega)
    obtain rfl := Option.mem_unique hc he
    exact h.nearer (by omega) hc hne hcap
  refine ⟨?_, ?_, ?_, ?_⟩
  · intro i hi b hb
    rcases mem_shifted.mp hb with ⟨hai, him, c, hc, rfl⟩ | ⟨-, hb⟩
    · exact (hrun hai him hc).1
    · exact h.home_le i hi b hb
  · intro i hi b hb
    rcases mem_shifted.mp hb with ⟨hai, him, c, hc, rfl⟩ | ⟨-, hb⟩
    · exact (hrun hai him hc).2
    · exact h.probe i hi b hb
  · intro i hi b hb j hj hhome
    rcases mem_shifted.mp hb with ⟨hai, him, c, hc, rfl⟩ | ⟨hout, hb⟩
    · exact hmov.path h (by omega) hc (by omega) hhome
    obtain ⟨e, he, hle⟩ := h.path i hi b hb j hj hhome
    rcases hout with hia | hia
    · exact ⟨e, mem_shifted.mpr (.inr ⟨.inl (by omega), he⟩), hle⟩
    · have hbehind := hmov.behind h hcap hi hia hb
      exact ⟨e, mem_shifted.mpr (.inr ⟨.inr (by omega), he⟩), hle⟩
  · intro i hi i' hi' b hb b' hb' hkey
    rcases mem_shifted.mp hb with ⟨hai, him, c, hc, rfl⟩ | ⟨hout, hb⟩ <;>
      rcases mem_shifted.mp hb' with ⟨hai', him', c', hc', rfl⟩ | ⟨hout', hb'⟩
    · have := h.inj _ (by omega) _ (by omega) c hc c' hc' hkey
      omega
    · have := h.inj _ (by omega) _ hi' c hc b' hb' hkey
      omega
    · have := h.inj _ hi _ (by omega) b hb c' hc' hkey
      omega
    · exact h.inj i hi i' hi' b hb b' hb' hkey

/-- The shifted row holds what the row held, without the cell that was taken out. -/
theorem Ordered.holds_shifted (h : Ordered n cap home row) (hmov : Movable n cap home row a m)
    (hc : c ∈ row a) :
    Holds n (RobinHood.shifted cap row a m) k' v' ↔ Holds n row k' v' ∧ k' ≠ c.key := by
  have hlt := hmov.lt
  constructor
  · rintro ⟨i, hi, b, hb, rfl, rfl⟩
    rcases mem_shifted.mp hb with ⟨hai, him, e, he, rfl⟩ | ⟨hout, hb⟩
    · refine ⟨⟨i + 1, by omega, e, he, rfl, rfl⟩, fun hkey => ?_⟩
      have := h.inj (i + 1) (by omega) a (by omega) e he c hc hkey
      omega
    · refine ⟨⟨i, hi, b, hb, rfl, rfl⟩, fun hkey => ?_⟩
      have := h.inj i hi a (by omega) b hb c hc hkey
      omega
  · rintro ⟨⟨i, hi, b, hb, rfl, rfl⟩, hne⟩
    have hia : i ≠ a := by
      rintro rfl
      exact hne (by rw [Option.mem_unique hb hc])
    by_cases hin : a < i ∧ i ≤ a + m
    · have hpred : i - 1 + 1 = i := by omega
      exact ⟨i - 1, by omega, b.nearer cap,
        mem_shifted.mpr (.inl ⟨by omega, by omega, b, hpred.symm ▸ hb, rfl⟩), rfl, rfl⟩
    · exact ⟨i, hi, b, mem_shifted.mpr (.inr ⟨by omega, hb⟩), rfl, rfl⟩

/-! ### Reading a cyclic row from elsewhere -/

def rotate (n s : Nat) (row : Row K V) : Row K V := fun a =>
  if a < n then row ((s + a) % n) else none

/-- The place of a position when the row is read from `s` on. -/
def offset (n s p : Nat) : Nat := (p + (n - s)) % n

variable {s p r : Nat}

theorem rotate_of_lt (ha : a < n) : rotate n s row a = row ((s + a) % n) := if_pos ha

theorem offset_lt (hn : 0 < n) : offset n s p < n := Nat.mod_lt _ hn

theorem offset_eq (hs : s ≤ n) (hp : p < n) :
    offset n s p = if s ≤ p then p - s else p + n - s := by
  unfold offset
  split_ifs with h
  · have hsum : p + (n - s) = p - s + n := by omega
    rw [hsum, Nat.add_mod_right, Nat.mod_eq_of_lt (by omega)]
  · rw [Nat.mod_eq_of_lt (by omega)]
    omega

theorem add_mod_eq (hs : s ≤ n) (ha : a < n) :
    (s + a) % n = if s + a < n then s + a else s + a - n := by
  split_ifs with h
  · exact Nat.mod_eq_of_lt h
  · rw [Nat.mod_eq_sub_mod (by omega), Nat.mod_eq_of_lt (by omega)]

theorem add_offset_mod (hs : s ≤ n) (hp : p < n) : (s + offset n s p) % n = p := by
  rw [add_mod_eq hs (offset_lt (by omega)), offset_eq hs hp]
  split_ifs <;> omega

theorem offset_add_mod (hs : s ≤ n) (ha : a < n) : offset n s ((s + a) % n) = a := by
  rw [offset_eq hs (Nat.mod_lt _ (by omega)), add_mod_eq hs ha]
  split_ifs <;> omega

theorem add_mod_inj (hs : s ≤ n) (ha : a < n) (hb : b < n) (h : (s + a) % n = (s + b) % n) :
    a = b := by
  rw [← offset_add_mod hs ha, h, offset_add_mod hs hb]

theorem rotate_rotate : rotate n r (rotate n s row) = rotate n ((s + r) % n) row := by
  funext a
  unfold rotate
  by_cases ha : a < n
  · rw [if_pos ha, if_pos ha, if_pos (Nat.mod_lt _ (by omega))]
    simp [Nat.add_assoc]
  · rw [if_neg ha, if_neg ha]

theorem offset_offset (hs : s ≤ n) (hr : r ≤ n) (hp : p < n) :
    offset n r (offset n s p) = offset n ((s + r) % n) p := by
  have hn : 0 < n := by omega
  have hmod : (s + r) % n < n := Nat.mod_lt _ hn
  apply add_mod_inj hmod.le (offset_lt hn) (offset_lt hn)
  rw [add_offset_mod hmod.le hp, Nat.mod_add_mod, Nat.add_assoc, ← Nat.add_mod_mod,
    add_offset_mod hr (offset_lt hn), add_offset_mod hs hp]

theorem holds_rotate (hs : s ≤ n) : Holds n (rotate n s row) k v ↔ Holds n row k v := by
  constructor
  · rintro ⟨a, ha, c, hc, hk⟩
    rw [rotate_of_lt ha] at hc
    exact ⟨_, Nat.mod_lt _ (by omega), c, hc, hk⟩
  · rintro ⟨a, ha, c, hc, hk⟩
    refine ⟨offset n s a, offset_lt (by omega), c, ?_, hk⟩
    rwa [rotate_of_lt (offset_lt (by omega)), add_offset_mod hs ha]

/-- A cyclic row that is ordered from somewhere is ordered from the position behind any empty
one. -/
theorem Ordered.rotate (h : Ordered n cap home row) (hhome : ∀ k, home k < n) {e : Nat}
    (he : e < n) (hempty : row e = none) :
    Ordered n cap (fun k => offset n (e + 1) (home k)) (rotate n (e + 1) row) := by
  -- No cell has the empty position between its home and itself.
  have hside {p : Nat} {c : Cell K V} (hp : p < n) (hc : c ∈ row p) :
      (e < home c.key ∧ home c.key ≤ p) ∨ (home c.key ≤ p ∧ p < e) := by
    have hle := h.home_le p hp c hc
    have hne : p ≠ e := by
      rintro rfl
      simp [hempty] at hc
    by_contra hcross
    obtain ⟨d, hd, -⟩ := h.path p hp c hc e (by omega) (by omega)
    simp [hempty] at hd
  have hpos {a : Nat} (ha : a < n) : (e + 1 + a) % n = if e + 1 + a < n then e + 1 + a
      else e + 1 + a - n := add_mod_eq he ha
  have hoff (k : K) := offset_eq (s := e + 1) he (hhome k)
  have hmod {a : Nat} (ha : a < n) : (e + 1 + a) % n < n := Nat.mod_lt _ (by omega)
  have hcell {a : Nat} {c : Cell K V} (ha : a < n) (hc : c ∈ RobinHood.rotate n (e + 1) row a) :
      c ∈ row ((e + 1 + a) % n) := by rwa [rotate_of_lt ha] at hc
  refine ⟨?_, ?_, ?_, ?_⟩
  · intro a ha c hc
    have := hside (hmod ha) (hcell ha hc)
    rw [hoff]
    rw [hpos ha] at this
    split_ifs at this ⊢ <;> omega
  · intro a ha c hc
    have hs := hside (hmod ha) (hcell ha hc)
    have hprobe := h.probe _ (hmod ha) c (hcell ha hc)
    rw [hoff]
    rw [hpos ha] at hs hprobe
    split_ifs at hs hprobe ⊢ <;> omega
  · intro a ha c hc j hj hle
    have hs := hside (hmod ha) (hcell ha hc)
    have hpath := h.path _ (hmod ha) c (hcell ha hc) ((e + 1 + j) % n)
    rw [hoff] at hle ⊢
    rw [hpos ha] at hs hpath
    rw [rotate_of_lt (hj.trans ha)]
    rw [hpos (hj.trans ha)] at hpath ⊢
    obtain ⟨d, hd, hmin⟩ := hpath (by split_ifs at hs hle ⊢ <;> omega)
      (by split_ifs at hs hle ⊢ <;> omega)
    refine ⟨d, hd, le_trans ?_ hmin⟩
    split_ifs at hs hle ⊢ <;> omega
  · intro a ha b hb c hc d hd hkey
    have heq := h.inj _ (hmod ha) _ (hmod hb) c (hcell ha hc) d (hcell hb hd) hkey
    exact add_mod_inj (s := e + 1) he ha hb heq

end Foundations.RobinHood
