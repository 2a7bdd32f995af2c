import Mathlib.Tactic

/-!
# Runs of a step function

A run feeds a list of inputs to a step function. A run is guarded when every step is taken from a
state in which its input meets a condition. An invariant that every guarded step keeps holds at
the end of every guarded run.
-/

namespace Foundations

variable {σ ι : Type*} {step : σ → ι → σ} {guard : σ → ι → Prop}

/-- The state after feeding the inputs one after the other. -/
def run (step : σ → ι → σ) (s : σ) (inputs : List ι) : σ := inputs.foldl step s

/-- Every step of the run meets the guard in the state it is taken from. -/
def Guarded (step : σ → ι → σ) (guard : σ → ι → Prop) : σ → List ι → Prop
  | _, [] => True
  | s, i :: is => guard s i ∧ Guarded step guard (step s i) is

instance Guarded.decidable [∀ s i, Decidable (guard s i)] :
    ∀ s is, Decidable (Guarded step guard s is)
  | _, [] => isTrue trivial
  | s, i :: is =>
    have := Guarded.decidable (step s i) is
    inferInstanceAs (Decidable (guard s i ∧ Guarded step guard (step s i) is))

@[simp] theorem run_nil (s : σ) : run step s [] = s := rfl

@[simp] theorem run_cons (s : σ) (i : ι) (is : List ι) :
    run step s (i :: is) = run step (step s i) is := rfl

theorem run_append (s : σ) (is js : List ι) :
    run step s (is ++ js) = run step (run step s is) js := List.foldl_append

variable {is : List ι} {s : σ} {I : σ → Prop} {guard' P : σ → ι → Prop}

theorem forall_mem_concat {p : ι → Prop} {i : ι} :
    (∀ j ∈ is ++ [i], p j) ↔ (∀ j ∈ is, p j) ∧ p i := by
  simp [or_imp, forall_and]

/-- What every guarded step keeps holds after every guarded run. -/
theorem Guarded.invariant (hstep : ∀ s i, I s → guard s i → I (step s i)) (hs : I s)
    (hg : Guarded step guard s is) : I (run step s is) := by
  induction is generalizing s with
  | nil => exact hs
  | cons i is ih => exact ih (hstep s i hs hg.1) hg.2

theorem Guarded.mono (himp : ∀ s i, guard s i → guard' s i) (hg : Guarded step guard s is) :
    Guarded step guard' s is := by
  induction is generalizing s with
  | nil => trivial
  | cons i is ih => exact ⟨himp s i hg.1, ih hg.2⟩

/-- A property of steps that agrees with the guard wherever the invariant holds is met along the
same runs. -/
theorem guarded_iff_of_invariant (hstep : ∀ s i, I s → guard s i → I (step s i))
    (hP : ∀ s i, I s → (P s i ↔ guard s i)) (hs : I s) :
    Guarded step P s is ↔ Guarded step guard s is := by
  induction is generalizing s with
  | nil => exact Iff.rfl
  | cons i is ih =>
    constructor
    · intro h
      have hi := (hP s i hs).mp h.1
      exact ⟨hi, (ih (hstep s i hs hi)).mp h.2⟩
    · intro h
      exact ⟨(hP s i hs).mpr h.1, (ih (hstep s i hs h.1)).mpr h.2⟩

/-- What a guarded step does from every state with the invariant, every step of a guarded run
does. -/
theorem Guarded.of_invariant (hstep : ∀ s i, I s → guard s i → P s i ∧ I (step s i)) (hs : I s)
    (hg : Guarded step guard s is) : Guarded step P s is := by
  induction is generalizing s with
  | nil => trivial
  | cons i is ih =>
    obtain ⟨hP, hI⟩ := hstep s i hs hg.1
    exact ⟨hP, ih hI hg.2⟩

theorem guarded_append {js : List ι} : Guarded step guard s (is ++ js) ↔
      Guarded step guard s is ∧ Guarded step guard (run step s is) js := by
  induction is generalizing s with
  | nil => simp [Guarded]
  | cons i is ih => simp [Guarded, ih, and_assoc]

theorem guarded_and : Guarded step (fun s i => guard s i ∧ guard' s i) s is ↔
      Guarded step guard s is ∧ Guarded step guard' s is := by
  induction is generalizing s with
  | nil => simp [Guarded]
  | cons i is ih =>
    simp only [Guarded, ih]
    tauto

/-- A run that is not guarded has a step that does not meet the guard. -/
theorem not_guarded (h : ¬ Guarded step guard s is) :
    ∃ front i back, is = front ++ i :: back ∧ ¬ guard (run step s front) i := by
  induction is generalizing s with
  | nil => exact absurd trivial h
  | cons i is ih =>
    by_cases hi : guard s i
    · obtain ⟨front, j, back, rfl, hj⟩ := ih fun hg => h ⟨hi, hg⟩
      exact ⟨i :: front, j, back, rfl, hj⟩
    · exact ⟨[], i, is, rfl, hi⟩

/-- A property that a run has at some point and not in the end is lost for good by some step. -/
theorem exists_last_step {P : σ → Prop} {front : List ι} (hfront : front <+: is)
    (hP : P (run step s front)) (hend : ¬ P (run step s is)) :
    ∃ before i after, is = before ++ i :: after ∧ P (run step s before) ∧
      ∀ mid, mid <+: after → ¬ P (run step s (before ++ i :: mid)) := by
  induction is using List.reverseRecOn with
  | nil => exact absurd (List.prefix_nil.mp hfront ▸ hP) hend
  | append_singleton is i ih =>
    by_cases hlast : P (run step s is)
    · refine ⟨is, i, [], rfl, hlast, fun mid hmid => ?_⟩
      rwa [List.prefix_nil.mp hmid]
    · rcases List.prefix_concat_iff.mp hfront with rfl | hfront
      · exact absurd hP hend
      obtain ⟨before, j, after, rfl, hbefore, hall⟩ := ih hfront hlast
      refine ⟨before, j, after ++ [i], by simp, hbefore, fun mid hmid => ?_⟩
      rcases List.prefix_concat_iff.mp hmid with rfl | hmid
      · simpa using hend
      · exact hall mid hmid

end Foundations
