import Mathlib.Data.List.Infix

/-!
# Runs whose steps meet a condition

A deterministic machine takes one input after the other. A condition on a state
and the input it is about to take is met along a run when every step meets it
where it starts. An invariant that such steps keep holds in every state reached.
-/
namespace SymbiOS.GuardedRun

variable {σ α : Type*} {step : σ → α → σ} {guard : σ → α → Prop} {I : σ → Prop}

def runFrom (step : σ → α → σ) (s : σ) (inputs : List α) : σ := inputs.foldl step s

@[simp] theorem runFrom_nil (s : σ) : runFrom step s [] = s := rfl

@[simp] theorem runFrom_cons (s : σ) (a : α) (inputs : List α) :
    runFrom step s (a :: inputs) = runFrom step (step s a) inputs := rfl

/-- Every step of the run meets the condition in the state it starts from. -/
def Guarded (step : σ → α → σ) (guard : σ → α → Prop) : σ → List α → Prop
  | _, [] => True
  | s, a :: inputs => guard s a ∧ Guarded step guard (step s a) inputs

instance instDecidableGuarded [∀ s a, Decidable (guard s a)] :
    ∀ (s : σ) (inputs : List α), Decidable (Guarded step guard s inputs)
  | _, [] => inferInstanceAs (Decidable True)
  | s, a :: inputs =>
      have := instDecidableGuarded (step s a) inputs
      inferInstanceAs (Decidable (_ ∧ _))

/-- The state reached at the end of a run. -/
theorem Guarded.invariant (hstep : ∀ s a, I s → guard s a → I (step s a)) {s : σ}
    {inputs : List α} (h : Guarded step guard s inputs) (hs : I s) :
    I (runFrom step s inputs) := by
  induction inputs generalizing s with
  | nil => exact hs
  | cons a inputs ih => exact ih h.2 (hstep s a hs h.1)

/-- The part of a run up to some moment is a run. -/
theorem Guarded.of_append {s : σ} {first second : List α}
    (h : Guarded step guard s (first ++ second)) : Guarded step guard s first := by
  induction first generalizing s with
  | nil => trivial
  | cons a first ih => exact ⟨h.1, ih h.2⟩

/-- The states reached on the way. -/
theorem Guarded.invariant_prefix (hstep : ∀ s a, I s → guard s a → I (step s a)) {s : σ}
    {inputs : List α} (h : Guarded step guard s inputs) (hs : I s) {pre : List α}
    (hpre : pre <+: inputs) : I (runFrom step s pre) := by
  obtain ⟨rest, rfl⟩ := hpre
  exact h.of_append.invariant hstep hs

theorem runFrom_append (s : σ) (first second : List α) :
    runFrom step s (first ++ second) = runFrom step (runFrom step s first) second :=
  List.foldl_append

/-- The condition along a run, said of the state before each of its steps. -/
theorem guarded_iff_forall_step {s : σ} {inputs : List α} :
    Guarded step guard s inputs ↔
      ∀ pre a, pre ++ [a] <+: inputs → guard (runFrom step s pre) a := by
  induction inputs generalizing s with
  | nil => simp [Guarded]
  | cons b inputs ih =>
    constructor
    · intro h pre a hpre
      cases pre with
      | nil =>
        obtain ⟨rfl, -⟩ := List.cons_prefix_cons.mp hpre
        exact h.1
      | cons c pre =>
        obtain ⟨rfl, hrest⟩ := List.cons_prefix_cons.mp hpre
        exact ih.mp h.2 pre a hrest
    · intro h
      refine ⟨h [] b (List.cons_prefix_cons.mpr ⟨rfl, List.nil_prefix⟩), ih.mpr ?_⟩
      intro pre a hpre
      exact h (b :: pre) a (List.cons_prefix_cons.mpr ⟨rfl, hpre⟩)

/-- Where a condition decides, step by step, whether a property still holds, it
decides it for the whole run. -/
theorem Guarded.forall_prefix_iff {allowed : σ → α → Prop} {P : σ → Prop} (hP : ∀ s, I s → P s)
    (hstep : ∀ s a, I s → allowed s a →
      (P (step s a) ↔ guard s a) ∧ (guard s a → I (step s a)))
    {s : σ} {inputs : List α} (h : Guarded step allowed s inputs) (hs : I s) :
    (∀ pre, pre <+: inputs → P (runFrom step s pre)) ↔ Guarded step guard s inputs := by
  induction inputs generalizing s with
  | nil =>
    refine iff_of_true (fun pre hpre => ?_) trivial
    rw [List.prefix_nil.mp hpre]
    exact hP s hs
  | cons a inputs ih =>
    obtain ⟨hiff, hnext⟩ := hstep s a hs h.1
    constructor
    · intro hall
      have hguard : guard s a :=
        hiff.mp (hall [a] (List.cons_prefix_cons.mpr ⟨rfl, List.nil_prefix⟩))
      refine ⟨hguard, (ih h.2 (hnext hguard)).mp fun pre hpre => ?_⟩
      exact hall (a :: pre) (List.cons_prefix_cons.mpr ⟨rfl, hpre⟩)
    · rintro ⟨hguard, hrest⟩ pre hpre
      rcases List.prefix_cons_iff.mp hpre with rfl | ⟨tail, rfl, htail⟩
      · exact hP s hs
      · exact (ih h.2 (hnext hguard)).mpr hrest tail htail

/-- What one of the steps establishes, and all of them keep, holds at the end of a run that took
that step. -/
theorem Guarded.established {J : σ → Prop} {a : α}
    (hstep : ∀ s b, I s → guard s b → I (step s b))
    (hset : ∀ s, I s → guard s a → J (step s a))
    (hkeep : ∀ s b, I s → J s → guard s b → J (step s b)) {s : σ} {inputs : List α}
    (h : Guarded step guard s inputs) (hs : I s) (ha : a ∈ inputs) :
    J (runFrom step s inputs) := by
  induction inputs generalizing s with
  | nil => exact absurd ha List.not_mem_nil
  | cons b inputs ih =>
    by_cases hrest : a ∈ inputs
    · exact ih h.2 (hstep s b hs h.1) hrest
    · have hab : b = a := ((List.mem_cons.mp ha).resolve_right hrest).symm
      subst hab
      have hboth := h.2.invariant (I := fun s => I s ∧ J s)
        (fun s b hIJ hg => ⟨hstep s b hIJ.1 hg, hkeep s b hIJ.1 hIJ.2 hg⟩)
        ⟨hstep s b hs h.1, hset s hs h.1⟩
      exact hboth.2

/-- A run is its first part and a run from where that ends. -/
theorem guarded_append {s : σ} {first second : List α} :
    Guarded step guard s (first ++ second) ↔
      Guarded step guard s first ∧ Guarded step guard (runFrom step s first) second := by
  induction first generalizing s with
  | nil => simp [Guarded]
  | cons a first ih => simp [Guarded, ih, and_assoc]

/-- Where every step lowers a measure, up to a credit that it may earn, the
credit earned bounds the length of a run. -/
theorem Guarded.length_add_le {μ credit : σ → ℕ}
    (hstep : ∀ s a, I s → guard s a →
      I (step s a) ∧ μ (step s a) + credit s + 1 ≤ μ s + credit (step s a))
    {s : σ} {inputs : List α} (h : Guarded step guard s inputs) (hs : I s) :
    inputs.length + μ (runFrom step s inputs) + credit s ≤
      μ s + credit (runFrom step s inputs) := by
  induction inputs generalizing s with
  | nil =>
    rw [List.length_nil, runFrom_nil]
    omega
  | cons a inputs ih =>
    obtain ⟨hnext, hdrop⟩ := hstep s a hs h.1
    have hrest := ih h.2 hnext
    simp only [List.length_cons, runFrom_cons]
    omega

/-- Where counted steps lower a measure and no step raises it, it bounds their number. -/
theorem Guarded.countP_add_le {p : α → Bool} {μ : σ → ℕ}
    (hstep : ∀ s a, I s → guard s a →
      I (step s a) ∧ μ (step s a) + (if p a then 1 else 0) ≤ μ s)
    {s : σ} {inputs : List α} (h : Guarded step guard s inputs) (hs : I s) :
    inputs.countP p + μ (runFrom step s inputs) ≤ μ s := by
  induction inputs generalizing s with
  | nil => simp
  | cons a inputs ih =>
    obtain ⟨hnext, hdrop⟩ := hstep s a hs h.1
    have hrest := ih h.2 hnext
    simp only [List.countP_cons, runFrom_cons]
    omega

/-- A condition on the inputs alone is met along the run. -/
theorem Guarded.and_forall {P : α → Prop} {s : σ} {inputs : List α}
    (h : Guarded step guard s inputs) (hP : ∀ a ∈ inputs, P a) :
    Guarded step (fun s a => guard s a ∧ P a) s inputs := by
  induction inputs generalizing s with
  | nil => trivial
  | cons a inputs ih =>
    obtain ⟨ha, hrest⟩ := List.forall_mem_cons.mp hP
    exact ⟨⟨h.1, ha⟩, ih h.2 hrest⟩

/-- A run into a property has a last step that enters it. -/
theorem exists_last_entry {P : σ → Prop} {s : σ} {inputs : List α} (hs : ¬ P s)
    (hend : P (runFrom step s inputs)) :
    ∃ before a after, inputs = before ++ a :: after ∧ ¬ P (runFrom step s before) ∧
      ∀ m, m <+: after → P (runFrom step s (before ++ a :: m)) := by
  induction inputs using List.reverseRecOn with
  | nil => exact absurd hend hs
  | append_singleton inputs a ih =>
    by_cases hlast : P (runFrom step s inputs)
    · obtain ⟨before, b, after, rfl, hbefore, hafter⟩ := ih hlast
      refine ⟨before, b, after ++ [a], by simp, hbefore, fun m hm => ?_⟩
      rcases List.prefix_concat_iff.mp hm with rfl | hm
      · simpa using hend
      · exact hafter m hm
    · refine ⟨inputs, a, [], rfl, hlast, fun m hm => ?_⟩
      rw [List.prefix_nil] at hm
      rwa [hm]

end SymbiOS.GuardedRun
