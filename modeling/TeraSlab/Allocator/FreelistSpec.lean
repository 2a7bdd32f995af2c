import TeraSlab.Allocator.Freelist

/-!
# What the freelist operations do to the regions

Every operation of the freelist has one lemma that says which regions it holds afterwards. The
lemmas cover the vector and the maps together, so nothing above this module looks at the
representation.
-/

namespace TeraSlab.Allocator.FreelistBackend

open Foundations

section Spec

variable {fl : FreelistBackend} {o s : Nat} {r : FreeRegion}

theorem Ordered.new : Ordered new := List.Pairwise.nil

@[simp] theorem regions_new : new.regions = ∅ := by
  ext r
  simp [FreelistBackend.new]

/-- Erasing a region takes its own entry out of the index by size. -/
theorem Ordered.erase {m : SortedMap Nat Nat} {b : SortedMap (Nat ×ₗ Nat) Unit}
    (h : (large m b).Ordered) (hm : (o, s) ∈ m.entries) :
    (large (m.erase o) (b.erase (toLex (s, o)))).Ordered := by
  intro s' o'
  simp only [SortedMap.mem_erase, ne_eq, toLex_inj, Prod.mk.injEq, h s' o']
  refine and_congr_right fun hm' => not_congr ⟨And.right, fun ho => ⟨?_, ho⟩⟩
  exact congrArg Prod.snd (SortedMap.eq_of_key hm' hm ho)

theorem erase_small {l rest : List FreeRegion} {region : FreeRegion}
    (h : (small (l ++ region :: rest)).Ordered) : (small (l ++ rest)).Ordered ∧
      ∀ r, r ∈ (small (l ++ rest)).regions ↔
        r ∈ (small (l ++ region :: rest)).regions ∧ r.offset ≠ region.offset := by
  refine ⟨h.sublist (by simp), fun r => ?_⟩
  obtain ⟨-, hr, hl⟩ := List.pairwise_append.mp h
  have := hl r
  have := (List.pairwise_cons.mp hr).1 r
  simp only [mem_regions_small]
  grind

section

variable (h : fl.Ordered)
include h

theorem Ordered.sorted : fl.iterOffsetOrder.Pairwise (·.offset < ·.offset) := by
  cases fl with
  | small v => exact h
  | large m b => exact List.pairwise_map.mpr m.sorted

theorem Ordered.eq_of_offset {r' : FreeRegion} (hr : r ∈ fl.regions) (hr' : r' ∈ fl.regions)
    (ho : r.offset = r'.offset) : r = r' := eq_of_sortedBy h.sorted hr hr' ho

theorem regions_insert (hno : ∀ r ∈ fl.regions, r.offset ≠ o) :
    (fl.insert o s).regions = Insert.insert ⟨o, s⟩ fl.regions := by
  ext r
  cases fl with
  | small v =>
    simp only [insert, mem_regions_small, takeWhile_dropWhile_lt h, List.mem_append, List.mem_cons,
      List.mem_filter, decide_eq_true_eq, Set.mem_insert_iff]
    have := lt_or_ge r.offset o
    tauto
  | large m b =>
    simp only [insert, mem_regions_large, SortedMap.mem_insert, Set.mem_insert_iff,
      Prod.mk.injEq, Extent.ext_iff]
    refine or_congr_right ⟨And.left, fun hr => ⟨hr, hno r ?_⟩⟩
    exact mem_regions_large.mpr hr

theorem Ordered.insert (hno : ∀ r ∈ fl.regions, r.offset ≠ o) :
    (fl.insert o s).Ordered := by
  cases fl with
  | small v =>
    simp only [insert, takeWhile_dropWhile_lt h]
    refine List.pairwise_append.mpr ⟨h.filter _, List.pairwise_cons.mpr ⟨?_, h.filter _⟩, ?_⟩
    · intro r hr
      obtain ⟨hr, hle⟩ := List.mem_filter.mp hr
      exact lt_of_le_of_ne (by simpa using hle) (hno r hr).symm
    · simp only [List.mem_filter, List.mem_cons, decide_eq_true_eq]
      rintro a ⟨-, ha⟩ b (rfl | ⟨-, hb⟩)
      · exact ha
      · exact ha.trans_le hb
  | large m b =>
    intro s' o'
    have hno' : ∀ s', (o, s') ∉ m.entries := fun s' hs => hno ⟨o, s'⟩ (mem_regions_large.mpr hs) rfl
    simp only [SortedMap.mem_insert, Prod.mk.injEq, toLex_inj, and_true, h s' o', ne_eq]
    constructor
    · rintro (⟨rfl, rfl⟩ | ⟨hm, -⟩)
      · exact Or.inl ⟨rfl, rfl⟩
      · exact Or.inr ⟨hm, fun ho => hno' s' (ho ▸ hm)⟩
    · rintro (⟨rfl, rfl⟩ | ⟨hm, ho⟩)
      · exact Or.inl ⟨rfl, rfl⟩
      · exact Or.inr ⟨hm, fun hso => ho hso.2⟩

/-- `remove` takes out exactly the region that starts at the offset, whether or not there is one. -/
theorem remove_spec :
    (fl.remove o).2.Ordered ∧
      ∀ r, r ∈ (fl.remove o).2.regions ↔ r ∈ fl.regions ∧ r.offset ≠ o := by
  cases fl with
  | small v =>
    have hmem : ∀ r, r ∈ v.dropWhile (·.offset < o) ↔ r ∈ v ∧ o ≤ r.offset := by
      simp [takeWhile_dropWhile_lt h]
    simp only [remove]
    split
    · next hnil =>
      rw [hnil] at hmem
      exact ⟨h, fun r => by have := hmem r; grind [mem_regions_small]⟩
    · next region rest hcons =>
      have hv : v = v.takeWhile (·.offset < o) ++ region :: rest := by
        rw [← hcons, List.takeWhile_append_dropWhile]
      split_ifs with ho
      · subst ho
        have := erase_small (hv ▸ h)
        rwa [← hv] at this
      · refine ⟨h, fun r => ⟨fun hr => ⟨hr, fun hro => ?_⟩, And.left⟩⟩
        have hd : (region :: rest).Pairwise (·.offset < ·.offset) :=
          hcons ▸ h.sublist (List.dropWhile_sublist _)
        have hge := ((hmem region).mp (by simp [hcons])).2
        rcases List.mem_cons.mp (hcons ▸ (hmem r).mpr ⟨hr, hro.ge⟩) with rfl | hrest
        · exact ho hro
        · have := (List.pairwise_cons.mp hd).1 r hrest
          omega
  | large m b =>
    simp only [remove]
    split
    · next hnone =>
      refine ⟨h, fun r => ?_⟩
      simp only [mem_regions_large]
      refine ⟨fun hm => ⟨hm, fun hro => ?_⟩, And.left⟩
      rw [hro, ← SortedMap.get?_eq_some, hnone] at hm
      exact absurd hm (by simp)
    · next size hsome =>
      refine ⟨h.erase (SortedMap.get?_eq_some.mp hsome), fun r => ?_⟩
      simp only [mem_regions_large, SortedMap.mem_erase]

theorem Ordered.remove : (fl.remove o).2.Ordered := (remove_spec h).1

theorem mem_regions_remove :
    r ∈ (fl.remove o).2.regions ↔ r ∈ fl.regions ∧ r.offset ≠ o := (remove_spec h).2 r

theorem nextFrom_eq : fl.nextFrom o = fl.iterOffsetOrder.find? (o ≤ ·.offset) := by
  cases fl with
  | small v => rw [nextFrom, (takeWhile_dropWhile_lt h).2, List.head?_filter, iterOffsetOrder]
  | large m b => simp [nextFrom, SortedMap.firstFrom, iterOffsetOrder, List.find?_map]

theorem prevBefore_eq :
    fl.prevBefore o = (fl.iterOffsetOrder.filter (·.offset < o)).getLast? := by
  cases fl with
  | small v => rw [prevBefore, (takeWhile_dropWhile_lt h).1, iterOffsetOrder]
  | large m b =>
    simp [prevBefore, SortedMap.lastBefore, iterOffsetOrder, List.filter_map, Function.comp_def]

theorem nextFrom_eq_none (hn : fl.nextFrom o = none) :
    ∀ r ∈ fl.regions, r.offset < o := by
  intro r hr
  rw [nextFrom_eq h] at hn
  simpa using List.find?_eq_none.mp hn r hr

theorem nextFrom_eq_some (hn : fl.nextFrom o = some r) :
    r ∈ fl.regions ∧ o ≤ r.offset ∧ ∀ r' ∈ fl.regions, o ≤ r'.offset → r.offset ≤ r'.offset := by
  rw [nextFrom_eq h] at hn
  refine ⟨List.mem_of_find?_eq_some hn, by simpa using List.find?_some hn, fun r' hr' ho => ?_⟩
  exact find?_least h.sorted hn r' hr' (by simpa using ho)

theorem prevBefore_eq_none (hn : fl.prevBefore o = none) :
    ∀ r ∈ fl.regions, o ≤ r.offset := by
  intro r hr
  rw [prevBefore_eq h] at hn
  simpa using List.filter_eq_nil_iff.mp (List.getLast?_eq_none_iff.mp hn) r hr

theorem prevBefore_eq_some (hn : fl.prevBefore o = some r) :
    r ∈ fl.regions ∧ r.offset < o ∧ ∀ r' ∈ fl.regions, r'.offset < o → r'.offset ≤ r.offset := by
  rw [prevBefore_eq h] at hn
  have hmem := List.mem_filter.mp (List.mem_of_getLast? hn)
  refine ⟨hmem.1, by simpa using hmem.2, fun r' hr' ho => ?_⟩
  exact getLast?_greatest (h.sorted.filter _) hn r' (List.mem_filter.mpr ⟨hr', by simpa using ho⟩)

end

/-- Large enough for `a` bytes, and the placement rule lets them start there. -/
def Fits (a : Nat) (block : Option Nat) (r : FreeRegion) : Prop :=
  a ≤ r.size ∧ qualifies a block r.offset

/-- The first one of the smallest fitting regions. -/
structure Best (S : Set FreeRegion) (a : Nat) (block : Option Nat) (r : FreeRegion) : Prop where
  mem : r ∈ S
  fits : Fits a block r
  least : ∀ r' ∈ S, Fits a block r' → r.size < r'.size ∨ r.size = r'.size ∧ r.offset ≤ r'.offset

variable {block : Option Nat} {a : Nat} {v : List FreeRegion}

/-- The scan keeps what it has, or finds the best region, and that one wastes less. -/
theorem bestFitScan_spec (i w : Nat) (best : Option Nat) (hv : (small v).Ordered) :
    (bestFitScan a block v i best w = best ∧ ∀ r ∈ v, Fits a block r → w ≤ r.size - a) ∨
      ∃ j r, bestFitScan a block v i best w = some (i + j) ∧ v[j]? = some r ∧ r.size - a < w ∧
        Best (small v).regions a block r := by
  induction v generalizing i best w with
  | nil => exact .inl ⟨rfl, by simp⟩
  | cons x xs ih =>
    obtain ⟨hx, hxs⟩ := List.pairwise_cons.mp hv
    -- a region found behind `x` is the best one when `x` wastes more
    have later : ∀ {r}, Best (small xs).regions a block r →
        (Fits a block x → r.size - a < x.size - a) → Best (small (x :: xs)).regions a block r := by
      intro r hr hlt
      refine ⟨List.mem_cons_of_mem _ hr.mem, hr.fits, fun r' hr' hfits => ?_⟩
      rcases List.mem_cons.mp hr' with rfl | hr'
      · have := hlt hfits
        exact .inl (by omega)
      · exact hr.least r' hr' hfits
    have here : Fits a block x → (∀ r ∈ xs, Fits a block r → x.size - a ≤ r.size - a) →
        Best (small (x :: xs)).regions a block x := by
      intro hfits hle
      refine ⟨List.mem_cons_self, hfits, fun r' hr' hfits' => ?_⟩
      have := hle r'
      have := hx r'
      grind [Fits, mem_regions_small]
    simp only [bestFitScan]
    split_ifs with hfits hz
    · exact .inr ⟨0, x, rfl, rfl, hfits.2.2, here ⟨hfits.1, hfits.2.1⟩ (by omega)⟩
    · right
      rcases ih (i + 1) (x.size - a) (some i) hxs with
        ⟨heq, hall⟩ | ⟨j, r, heq, hj, hlt, hr⟩
      · exact ⟨0, x, heq, rfl, hfits.2.2, here ⟨hfits.1, hfits.2.1⟩ hall⟩
      · exact ⟨j + 1, r, by rw [heq]; congr 1; omega, hj, by omega, later hr fun _ => hlt⟩
    · have hx : Fits a block x → w ≤ x.size - a := fun h => by
        by_contra hlt
        exact hfits ⟨h.1, h.2, by omega⟩
      refine (ih (i + 1) w best hxs).imp ?_ ?_
      · exact fun h => ⟨h.1, List.forall_mem_cons.mpr ⟨hx, h.2⟩⟩
      · rintro ⟨j, r, heq, hj, hlt, hr⟩
        exact ⟨j + 1, r, by rw [heq]; congr 1; omega, hj, hlt,
          later hr fun h => hlt.trans_le (hx h)⟩


/-- `bestFit` hands out the head of the best region, and leaves the tail of that region and every
other region. It finds none only when every fitting region is too large for a 64-bit waste. -/
def BestFit (fl : FreelistBackend) (a : Nat) (block : Option Nat) : Prop :=
  (fl.bestFit a block = (none, fl) ∧ ∀ r ∈ fl.regions, Fits a block r → u64Max ≤ r.size) ∨
    ∃ o n fl', fl.bestFit a block = (some (o, n), fl') ∧ Best fl.regions a block ⟨o, n⟩ ∧
      fl'.Ordered ∧ ∀ r, r ∈ fl'.regions ↔
        (r ∈ fl.regions ∧ r.offset ≠ o) ∨ (a < n ∧ r = ⟨o + a, n - a⟩)

theorem bestFit_small (h : (small v).Ordered) (hs : Separated (small v).regions) :
    BestFit (small v) a block := by
  unfold BestFit
  rcases @bestFitScan_spec block a v 0 u64Max none h with
    ⟨hscan, hall⟩ | ⟨j, region, hscan, hj, -, hbest⟩
  · refine .inl ⟨by simp only [bestFit, hscan], fun r hr hfits => ?_⟩
    exact (hall r hr hfits).trans (Nat.sub_le ..)
  right
  rw [Nat.zero_add] at hscan
  simp only [bestFit, hscan, hj]
  refine ⟨_, _, _, rfl, hbest, ?_⟩
  -- cut the vector at the chosen region
  obtain ⟨l, rest, rfl, rfl⟩ : ∃ l rest, v = l ++ region :: rest ∧ l.length = j := by
    obtain ⟨hlt, rfl⟩ := List.getElem?_eq_some_iff.mp hj
    exact ⟨v.take j, v.drop (j + 1), by simp, by simp [hlt.le]⟩
  have herase : (l ++ region :: rest).eraseIdx l.length = l ++ rest := by
    simp [List.eraseIdx_append_of_length_le]
  obtain ⟨hord, hothers⟩ := erase_small h
  have ha := hbest.fits.1
  split_ifs with hsize
  · rw [herase]
    refine ⟨hord, fun r => ?_⟩
    simp [hothers, hsize]
  · simp only [List.set_append_right, le_refl, Nat.sub_self, List.set_cons_zero]
    obtain ⟨hl, hr, hlr⟩ := List.pairwise_append.mp h
    obtain ⟨hrest, hr⟩ := List.pairwise_cons.mp hr
    refine ⟨List.pairwise_append.mpr ⟨hl, List.pairwise_cons.mpr ⟨fun r hr => ?_, hr⟩, ?_⟩,
      fun r => ?_⟩
    · have := hrest r hr
      have := hs.apart r (by simp [hr]) region (by simp) (by grind)
      simp only [Extent.stop] at this ⊢
      omega
    · intro x hx y hy
      have := hlr x hx
      grind
    · have := hothers r
      simp only [mem_regions_small] at this ⊢
      grind

theorem bestFit_large {m : SortedMap Nat Nat} {b : SortedMap (Nat ×ₗ Nat) Unit}
    (h : (large m b).Ordered) (hs : Separated (large m b).regions) :
    BestFit (large m b) a block := by
  have hfits : ∀ s o, Fits a block ⟨o, s⟩ ↔ decide (toLex (a, 0) ≤ toLex (s, o) ∧
      qualifies a block o) = true := by
    intro s o
    simp only [Fits, Prod.Lex.toLex_le_toLex, decide_eq_true_eq]
    grind
  unfold BestFit
  simp only [bestFit]
  cases hfind : b.entries.find? fun e =>
      toLex (a, 0) ≤ e.1 ∧ qualifies a block (ofLex e.1).2 with
  | none =>
    refine .inl ⟨rfl, fun r hr hr' => ?_⟩
    have hmem := (h r.size r.offset).mpr (mem_regions_large.mp hr)
    exact absurd ((hfits _ _).mp hr') (List.find?_eq_none.mp hfind _ hmem)
  | some e =>
    right
    obtain ⟨n, o, rfl⟩ : ∃ n o, e = (toLex (n, o), ()) := ⟨_, _, rfl⟩
    have hm := (h _ _).mp (List.mem_of_find?_eq_some hfind)
    have hfound := List.find?_some hfind
    refine ⟨o, n, _, rfl, ⟨mem_regions_large.mpr hm, (hfits n o).mpr hfound,
      fun r hr hr' => ?_⟩, ?_⟩
    · have hmem := (h r.size r.offset).mpr (mem_regions_large.mp hr)
      have hle := find?_least b.sorted hfind _ hmem ((hfits _ _).mp hr')
      simpa [Prod.Lex.toLex_le_toLex] using hle
    have hrest : (large (m.erase o) (b.erase (toLex (n, o)))).Ordered := h.erase hm
    by_cases hlt : a < n
    · have hno : ∀ r ∈ (large (m.erase o) (b.erase (toLex (n, o)))).regions, r.offset ≠ o + a := by
        intro r hr heq
        obtain ⟨hr, hne⟩ := SortedMap.mem_erase.mp (mem_regions_large.mp hr)
        have := hs.apart r (mem_regions_large.mpr hr) ⟨o, n⟩ (mem_regions_large.mpr hm)
          (fun hro => hne (hro ▸ rfl))
        simp only [Extent.stop] at this
        omega
      rw [if_pos (by exact hlt)]
      refine ⟨hrest.insert hno, fun r => ?_⟩
      refine (Set.ext_iff.mp (regions_insert (s := n - a) hrest hno) r).trans ?_
      simp only [Set.mem_insert_iff, mem_regions_large, SortedMap.mem_erase, hlt, true_and]
      tauto
    · rw [if_neg (by exact hlt)]
      exact ⟨hrest, fun r => by simp [hlt]⟩

theorem bestFit_spec (h : fl.Ordered) (hs : Separated fl.regions) : fl.BestFit a block := by
  cases fl with
  | small v => exact bestFit_small h hs
  | large m b => exact bestFit_large h hs

variable {fl' : FreelistBackend} {n : Nat}

theorem bestFit_some (h : fl.Ordered) (hs : Separated fl.regions)
    (hb : fl.bestFit a block = (some (o, n), fl')) :
    Best fl.regions a block ⟨o, n⟩ ∧ fl'.Ordered ∧ ∀ r, r ∈ fl'.regions ↔
      (r ∈ fl.regions ∧ r.offset ≠ o) ∨ (a < n ∧ r = ⟨o + a, n - a⟩) := by
  rcases bestFit_spec h hs with ⟨heq, -⟩ | ⟨_, _, _, heq, hbest⟩
  · cases heq.symm.trans hb
  · cases heq.symm.trans hb
    exact hbest

theorem bestFit_none (hb : fl.bestFit a block = (none, fl')) : fl' = fl := by
  cases fl with
  | small v =>
    simp only [bestFit] at hb
    split at hb
    · simpa using hb.symm
    split at hb
    · simpa using hb.symm
    · simp at hb
  | large m b =>
    simp only [bestFit] at hb
    split at hb
    · simpa using hb.symm
    · simp at hb

/-- Promotion changes the representation only. -/
theorem maybePromote_spec (h : fl.Ordered) :
    fl.maybePromote.Ordered ∧ fl.maybePromote.regions = fl.regions := by
  cases fl with
  | large m b => exact ⟨h, rfl⟩
  | small v =>
    simp only [maybePromote]
    split_ifs with hlen
    · have hoff : (v.map (·.offset)).Nodup := List.pairwise_map.mpr (h.imp fun h => h.ne)
      have hlex : (v.map fun r => toLex (r.size, r.offset)).Nodup := by
        refine List.pairwise_map.mpr (h.imp fun h he => h.ne ?_)
        exact congrArg Prod.snd (toLex_inj.mp he)
      have hm := fun e => SortedMap.mem_foldl_insert (e := e) (w := Extent.size)
        (m := SortedMap.empty)
        hoff (by simp)
      have hb := fun e => SortedMap.mem_foldl_insert (e := e) (w := fun _ => ())
        (m := SortedMap.empty)
        hlex (by simp)
      simp only [SortedMap.entries_empty, List.not_mem_nil, false_or] at hm hb
      refine ⟨fun s o => ?_, ?_⟩
      · rw [hm, hb]
        simp only [toLex_inj, Prod.mk.injEq, and_true]
        exact exists_congr fun r => and_congr_right fun _ => and_comm
      · ext r
        rw [mem_regions_large, hm]
        constructor
        · rintro ⟨x, hx, ho⟩
          exact Extent.ext (congrArg Prod.fst ho) (congrArg Prod.snd ho) ▸ hx
        · exact fun hr => ⟨r, hr, rfl⟩
    · exact ⟨h, rfl⟩

/-- Demotion changes the representation only. -/
theorem maybeDemote_spec (h : fl.Ordered) :
    fl.maybeDemote.Ordered ∧ fl.maybeDemote.regions = fl.regions := by
  cases fl with
  | small v => exact ⟨h, rfl⟩
  | large m b =>
    simp only [maybeDemote]
    split_ifs with hlen
    · exact ⟨List.pairwise_map.mpr m.sorted, rfl⟩
    · exact ⟨h, rfl⟩

end Spec

end TeraSlab.Allocator.FreelistBackend
