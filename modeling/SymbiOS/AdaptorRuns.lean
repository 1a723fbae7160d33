import SymbiOS.AdaptorTables
import SymbiOS.GuardedRun

/-!
# Stacks and pages over whole runs of adaptor calls

A stack page belongs to the CPU whose IST entry holds its top, and it is never
the page of the table in use. That much survives every call. Whether a stack is
there when the table in use needs it, and whether the page ledger is exact, is
decided by the calls that fail.
-/
namespace SymbiOS.Adaptor
open SymbiOS.GuardedRun

variable {n : ℕ} {y : Symbols} {k : Addr} {s : State n}

/-- One call of a run. -/
def efStep (y : Symbols) (s : State n) (e : EfCall n) : State n := (efAdaptorInit y e s).2

/-- The tables are coherent, the stacks are pages of ours, and none of them is
the table in use. -/
structure Sound (k : Addr) (s : State n) : Prop extends Coherent k s where
  owned : ∀ c, s.tssIst c ≠ 0#64 → s.tssIst c - PAGE_SIZE ∈ s.pages
  apart : ∀ c, s.tssIst c ≠ 0#64 → s.currentIdt ≠ 0#64 → s.tssIst c - PAGE_SIZE ≠ s.currentIdt

lemma sound_moduleLoad (k : Addr) (idtAt : Addr → Idt) :
    Sound k (moduleLoad k idtAt : State n) where
  toCoherent := coherent_moduleLoad k idtAt
  owned _ h := absurd rfl h
  apart _ h := absurd rfl h

/-- After a complete setup every CPU has a stack. -/
lemma stackTops_ne_zero {e : EfCall n} (ha : e.AllocOk s) (hset : ¬ SetupFails e.stack s)
    (c : Fin n) : stackTops e.stack s c ≠ 0#64 := by
  unfold stackTops
  by_cases hz : s.tssIst c = 0#64
  · cases hstack : e.stack c with
    | none => exact absurd ⟨c, hz, hstack⟩ hset
    | some q => simpa [hz] using (ha.stack c q hstack).top_ne_zero
  · simp [hz]

/-- Where the stack of a CPU comes from once the setup has run. -/
lemma stackTops_cases (e : EfCall n) (s : State n) (c : Fin n)
    (h : stackTops e.stack s c ≠ 0#64) :
    (s.tssIst c ≠ 0#64 ∧ stackTops e.stack s c = s.tssIst c) ∨
    ∃ q, e.stack c = some q ∧ stackTops e.stack s c - PAGE_SIZE = q ∧
      q ∈ newStacks e.stack s (List.finRange n) := by
  by_cases hz : s.tssIst c = 0#64
  · right
    cases hstack : e.stack c with
    | none => simp [stackTops, hz, hstack] at h
    | some q =>
      refine ⟨q, rfl, by simp [stackTops, hz, hstack], ?_⟩
      simp only [newStacks, Finset.mem_biUnion, List.mem_toFinset, List.mem_filter,
        List.mem_finRange, true_and, Option.mem_toFinset]
      exact ⟨c, by simpa using hz, hstack⟩
  · left
    exact ⟨hz, by simp [stackTops, hz]⟩

/-- The stacks of the state in which the vector loops run. -/
lemma Sound.stack_page (h : Sound k s) {e : EfCall n} (ha : e.AllocOk s) (c : Fin n)
    (hc : stackTops e.stack s c ≠ 0#64) :
    stackTops e.stack s c - PAGE_SIZE ∈ s.pages ∪ newStacks e.stack s (List.finRange n) ∧
      (s.currentIdt ≠ 0#64 → stackTops e.stack s c - PAGE_SIZE ≠ s.currentIdt) ∧
      ∀ p ∈ e.clone, stackTops e.stack s c - PAGE_SIZE ≠ p := by
  rcases stackTops_cases e s c hc with ⟨hold, htop⟩ | ⟨q, hq, htop, hnew⟩
  · rw [htop]
    refine ⟨Finset.mem_union_left _ (h.owned c hold), h.apart c hold, fun p hp heq => ?_⟩
    exact (ha.clone p hp).not_owned (heq ▸ h.owned c hold)
  · rw [htop]
    refine ⟨Finset.mem_union_right _ hnew, fun hcur heq => ?_, fun p hp heq => ?_⟩
    · have hloaded := (ha.stack c q hq).not_loaded e.cpu
      rw [h.idtr, State.active, if_neg hcur] at hloaded
      exact hloaded heq.symm
    · exact ha.clone_ne_stack p hp c (heq ▸ hq)

lemma Sound.worked (h : Sound k s) {e : EfCall n} (ha : e.AllocOk s) (p : Addr) (patch : Patch) :
    Sound k (e.worked k p patch s) where
  toCoherent := h.toCoherent.worked e p patch
  owned c hc := Finset.mem_insert_of_mem (h.stack_page ha c hc).1
  apart c hc := (h.stack_page ha c hc).2.1

/-- Every call of `ef_adaptor_init` keeps the stacks and the tables apart. -/
theorem Sound.efAdaptorInit (h : Sound k s) {e : EfCall n} (ha : e.AllocOk s) :
    Sound k (efAdaptorInit y e s).2 := by
  rcases efAdaptorInit_cases y h.toCoherent ha with ⟨_, pages, frees, he⟩ | ⟨_, _, he⟩ |
    ⟨p, _, hc, hp, ⟨patch, _, he⟩ | ⟨patch, pages, frees, _, he⟩ | ⟨patch, _, he⟩ |
      ⟨d, patch, _, _, he⟩⟩
  · rw [he]
    exact ⟨⟨h.idtr, h.origIdt⟩, fun _ hz => absurd rfl hz, fun _ hz => absurd rfl hz⟩
  · rw [he]
    exact ⟨⟨h.idtr, h.origIdt⟩, fun c hz => (h.stack_page ha c hz).1,
      fun c hz => (h.stack_page ha c hz).2.1⟩
  · rw [he]
    exact h.worked ha p patch
  · rw [he]
    exact ⟨h.toCoherent.congr rfl rfl rfl, fun _ hz => absurd rfl hz, fun _ hz => absurd rfl hz⟩
  · have hw := h.worked ha p patch
    obtain ⟨pages, frees, hr, hkeep⟩ := idtAdaptorRelease_frame p (e.worked k p patch s)
    rw [he, hr]
    refine ⟨hw.toCoherent.congr rfl rfl rfl, fun c hz => ?_, hw.apart⟩
    exact hkeep _ (hw.owned c hz) ((h.stack_page ha c hz).2.2 p hc)
  · have hw := h.worked ha p patch
    have hco := (coherent_activate hp.ne_zero (k := k) (s := e.worked k p patch s) rfl).1
    obtain ⟨pages, frees, hr, hkeep⟩ := idtAdaptorActivate_frame p (e.worked k p patch s)
    rw [he]
    rw [hr] at hco ⊢
    refine ⟨hco, fun c hz => ?_, fun c hz _ => (h.stack_page ha c hz).2.2 p hc⟩
    exact hkeep _ (hw.owned c hz) (hw.apart c hz)

/-- Some gate of the table switches to the exception-frame stack. -/
def UsesEfStack (idt : Idt) : Prop := ∃ vec, (idt vec).ist = IST_EF

instance (idt : Idt) : Decidable (UsesEfStack idt) := inferInstanceAs (Decidable (∃ _, _))

/-- If a CPU has a table loaded that switches to the exception-frame stack, every
CPU has such a stack, and it is a page of ours. -/
def StacksReady (s : State n) : Prop :=
  (∃ c, UsesEfStack (s.idtAt (s.idtr c))) →
    ∀ c, s.tssIst c ≠ 0#64 ∧ s.tssIst c - PAGE_SIZE ∈ s.pages

/-- The vectors are in the table, and the call clears the stacks only while no
loaded table needs them: it does so when a stack page is missing, or when, with
its clone, it rejects a vector. -/
structure EfCall.SparesStacks (y : Symbols) (e : EfCall n) (s : State n) : Prop where
  vectors : ∀ v ∈ e.vectors, 0 ≤ v ∧ v < 256
  unused : SetupFails e.stack s ∨
      e.clone ≠ none ∧ (∃ v ∈ e.vectors, ¬ Fine y e.tsthdlr (e.patch s) v) →
    ¬ ∃ c, UsesEfStack (s.idtAt (s.idtr c))

instance (e : EfCall n) (s : State n) : Decidable (e.SparesStacks y s) :=
  decidable_of_iff ((∀ v ∈ e.vectors, 0 ≤ v ∧ v < 256) ∧ (SetupFails e.stack s ∨
      e.clone ≠ none ∧ (∃ v ∈ e.vectors, ¬ Fine y e.tsthdlr (e.patch s) v) →
    ¬ ∃ c, UsesEfStack (s.idtAt (s.idtr c)))) ⟨fun ⟨h1, h2⟩ => ⟨h1, h2⟩, fun ⟨h1, h2⟩ => ⟨h1, h2⟩⟩

/-- A sound state in which no stack is missing. -/
structure Ready (k : Addr) (s : State n) : Prop extends Sound k s where
  ready : UsesEfStack (s.table k) → ∀ c, s.tssIst c ≠ 0#64

lemma Ready.stacksReady (h : Ready k s) : StacksReady s := by
  rintro ⟨c, hc⟩ d
  rw [h.idtr c] at hc
  have hd := h.ready hc d
  exact ⟨hd, h.owned d hd⟩

lemma Ready.step (h : Ready k s) {e : EfCall n} (ha : e.AllocOk s) (hs : e.SparesStacks y s) :
    Ready k (efAdaptorInit y e s).2 := by
  refine ⟨h.toSound.efAdaptorInit ha, ?_⟩
  have hunused (hfail : SetupFails e.stack s ∨
      e.clone ≠ none ∧ ∃ v ∈ e.vectors, ¬ Fine y e.tsthdlr (e.patch s) v) :
      ¬ UsesEfStack (s.table k) := fun huse =>
    hs.unused hfail ⟨e.cpu, by rwa [h.idtr]⟩
  rcases efAdaptorInit_cases y h.toCoherent ha with ⟨hset, pages, frees, he⟩ | ⟨hset, _, he⟩ |
    ⟨p, hset, hc, hp, ⟨patch, _, he⟩ | ⟨patch, pages, frees, hloop, he⟩ | ⟨patch, _, he⟩ |
      ⟨d, patch, _, _, he⟩⟩
  · rw [he]
    exact fun huse => absurd huse (hunused (Or.inl hset))
  · rw [he]
    exact fun _ => stackTops_ne_zero ha hset
  · rw [he]
    exact fun _ => stackTops_ne_zero ha hset
  · -- the loop was stopped, so one of the vectors was rejected
    have hbad : ∃ v ∈ e.vectors, ¬ Fine y e.tsthdlr (e.patch s) v := by
      by_contra hall
      push Not at hall
      obtain ⟨d, patch', hdone⟩ :=
        (processVecs_done_iff y e.tsthdlr e.vectors 0 (e.patch s)).mpr hall
      rw [h.efPatch_eq, hloop] at hdone
      cases hdone
    have htable := h.toCoherent.table_worked hp e patch
    rw [he]
    intro huse
    exact absurd (htable ▸ huse) (hunused (Or.inr ⟨by simp [hc], hbad⟩))
  · obtain ⟨pages, frees, hr, _⟩ := idtAdaptorRelease_frame p (e.worked k p patch s)
    rw [he, hr]
    exact fun _ => stackTops_ne_zero ha hset
  · rw [he, idtAdaptorActivate_tssIst]
    exact fun _ => stackTops_ne_zero ha hset

/-- In every run of `ef_adaptor_init` from module load whose calls clear the
stacks only while no loaded table needs them, the stacks are ready in every state
reached. -/
theorem stacksReady_of_run (y : Symbols) (k : Addr) (idtAt : Addr → Idt)
    (hkernel : ¬ UsesEfStack (idtAt k)) (calls : List (EfCall n))
    (hrun : Guarded (efStep y) (fun s e => e.AllocOk s ∧ e.SparesStacks y s)
      (moduleLoad k idtAt) calls)
    (pre : List (EfCall n)) (hpre : pre <+: calls) :
    StacksReady (runFrom (efStep y) (moduleLoad k idtAt) pre) := by
  have hload : Ready k (moduleLoad k idtAt : State n) :=
    ⟨sound_moduleLoad k idtAt, fun huse => absurd huse hkernel⟩
  have hend := hrun.invariant_prefix (I := Ready k) (fun s e hs hg => hs.step hg.1 hg.2)
    hload hpre
  exact hend.stacksReady

/-- Two calls for two vectors. -/
theorem stacksReady_of_two_vectors :
    StacksReady (runFrom (efStep sampleSymbols) sampleState
      [sampleCall 3 0 1, sampleCall 4 0 4]) :=
  stacksReady_of_run sampleSymbols 0xfffffe0000000000 (fun _ => sampleIdt)
    (fun ⟨vec, h⟩ => sampleIdt_ist vec h) [sampleCall 3 0 1, sampleCall 4 0 4] (by decide) _
    (List.prefix_refl _)

/-- The second call is rejected while vector 3 is on its stub. -/
theorem stacks_missing_after_rejected_call :
    Guarded (efStep sampleSymbols) (fun s e => e.AllocOk s) sampleState
      [sampleCall 3 0 1, sampleCall 3 1 4] ∧
    ¬ StacksReady (runFrom (efStep sampleSymbols) sampleState
      [sampleCall 3 0 1, sampleCall 3 1 4]) := by
  refine ⟨by decide, fun h => ?_⟩
  exact (h ⟨0, 3, by decide⟩ 0).1 (by decide)

end SymbiOS.Adaptor
