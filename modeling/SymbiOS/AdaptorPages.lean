import SymbiOS.AdaptorRuns

/-!
# The page ledger of the adaptors

The pages that the adaptors have allocated and not freed should be the table in
use, when it is theirs, and the stacks. A clone is added and then either becomes
the table in use or is given back. The error path of `ef_adaptor_init` is what
breaks this: it clears an IST entry and frees the address computed from it.
-/
namespace SymbiOS.Adaptor
open SymbiOS.GuardedRun

variable {n : ℕ} {y : Symbols} {k : Addr} {s : State n}

/-- A call of either adaptor. -/
inductive Call (n : ℕ)
  | ef (e : EfCall n)
  | pf (f : PfCall n)

def Call.step (y : Symbols) (s : State n) : Call n → State n
  | .ef e => (efAdaptorInit y e s).2
  | .pf f => (pfAdaptorInit y f s).2

def Call.AllocOk (s : State n) : Call n → Prop
  | .ef e => e.AllocOk s
  | .pf f => f.AllocOk s

instance (s : State n) : (call : Call n) → Decidable (call.AllocOk s)
  | .ef e => inferInstanceAs (Decidable (e.AllocOk s))
  | .pf f => inferInstanceAs (Decidable (f.AllocOk s))

/-- The page of the table in use, when it is one of ours. -/
def tablePages (currentIdt : Addr) : Finset Addr := if currentIdt = 0#64 then ∅ else {currentIdt}

/-- The pages whose tops are in the IST entries. -/
def stackPages (tssIst : Fin n → Addr) : Finset Addr :=
  (Finset.univ.filter fun c => tssIst c ≠ 0#64).image fun c => tssIst c - PAGE_SIZE

/-- Nothing is leaked, and nothing was freed that was not ours or was loaded. -/
structure PagesExact (s : State n) : Prop where
  pages : s.pages = tablePages s.currentIdt ∪ stackPages s.tssIst
  frees : ∀ event ∈ s.frees, event.owned = true ∧ event.loaded = false

instance (s : State n) : Decidable (PagesExact s) :=
  decidable_of_iff (s.pages = tablePages s.currentIdt ∪ stackPages s.tssIst ∧
      ∀ event ∈ s.frees, event.owned = true ∧ event.loaded = false)
    ⟨fun ⟨h1, h2⟩ => ⟨h1, h2⟩, fun ⟨h1, h2⟩ => ⟨h1, h2⟩⟩

lemma mem_stackPages {tssIst : Fin n → Addr} {q : Addr} :
    q ∈ stackPages tssIst ↔ ∃ c, tssIst c ≠ 0#64 ∧ tssIst c - PAGE_SIZE = q := by
  simp [stackPages]

lemma mem_newStacks {stack : Fin n → Option Addr} {q : Addr} :
    q ∈ newStacks stack s (List.finRange n) ↔ ∃ c, s.tssIst c = 0#64 ∧ stack c = some q := by
  simp [newStacks]

/-- The setup adds its pages to the stacks. -/
lemma stackPages_stackTops {e : EfCall n} (ha : e.AllocOk s) :
    stackPages (stackTops e.stack s) =
      stackPages s.tssIst ∪ newStacks e.stack s (List.finRange n) := by
  ext q
  rw [Finset.mem_union, mem_stackPages, mem_stackPages]
  constructor
  · rintro ⟨c, hc, rfl⟩
    rcases stackTops_cases e s c hc with ⟨hold, htop⟩ | ⟨q, _, htop, hnew⟩
    · exact Or.inl ⟨c, hold, by rw [htop]⟩
    · exact Or.inr (htop ▸ hnew)
  · rintro (⟨c, hc, rfl⟩ | hnew)
    · have htop : stackTops e.stack s c = s.tssIst c := if_neg hc
      exact ⟨c, by rwa [htop], by rw [htop]⟩
    · obtain ⟨c, hz, hstack⟩ := mem_newStacks.mp hnew
      have htop : stackTops e.stack s c = q + PAGE_SIZE := by simp [stackTops, hz, hstack]
      refine ⟨c, ?_, by rw [htop]; simp⟩
      rw [htop]
      exact (ha.stack c q hstack).top_ne_zero

/-- Giving a clone back. -/
lemma pagesExact_release {p : Addr} (hp : p ≠ 0#64) (hload : ∀ c, s.idtr c ≠ p)
    (hnew : p ∉ tablePages s.currentIdt ∪ stackPages s.tssIst)
    (hpages : s.pages = insert p (tablePages s.currentIdt ∪ stackPages s.tssIst))
    (hfrees : ∀ event ∈ s.frees, event.owned = true ∧ event.loaded = false) :
    PagesExact (idtAdaptorRelease p s) := by
  have hown : p ∈ s.pages := hpages ▸ Finset.mem_insert_self _ _
  rw [idtAdaptorRelease_eq hp hown hload]
  refine ⟨?_, List.forall_mem_cons.mpr ⟨⟨rfl, rfl⟩, hfrees⟩⟩
  rw [hpages, Finset.erase_insert hnew]

/-- Making a clone the table in use: the one it replaces is freed. -/
lemma pagesExact_activate {p : Addr} (hp : p ≠ 0#64)
    (hapart : s.currentIdt ≠ 0#64 → s.currentIdt ∉ stackPages s.tssIst)
    (hnew : p ∉ tablePages s.currentIdt ∪ stackPages s.tssIst)
    (hpages : s.pages = insert p (tablePages s.currentIdt ∪ stackPages s.tssIst))
    (hfrees : ∀ event ∈ s.frees, event.owned = true ∧ event.loaded = false) :
    PagesExact (idtAdaptorActivate p s) := by
  have hown : tablePages p = {p} := if_neg hp
  by_cases hcur : s.currentIdt = 0#64
  · rw [idtAdaptorActivate_of_zero p hcur]
    refine ⟨?_, hfrees⟩
    rw [hpages, hown, tablePages, if_pos hcur, Finset.empty_union, Finset.insert_eq]
  · have htable : tablePages s.currentIdt = {s.currentIdt} := if_neg hcur
    rw [htable] at hnew hpages
    have hne : p ≠ s.currentIdt := by
      rintro rfl
      exact hnew (Finset.mem_union_left _ (Finset.mem_singleton_self _))
    have hmem : s.currentIdt ∈ s.pages := by
      rw [hpages]
      exact Finset.mem_insert_of_mem (Finset.mem_union_left _ (Finset.mem_singleton_self _))
    rw [idtAdaptorActivate_of_ne_zero hcur hmem hne]
    refine ⟨?_, List.forall_mem_cons.mpr ⟨⟨rfl, rfl⟩, hfrees⟩⟩
    rw [hpages, hown, Finset.erase_insert_of_ne hne, ← Finset.insert_eq,
      Finset.erase_insert (hapart hcur), Finset.insert_eq]

/-- The pages are exact in a sound state. -/
structure Ledger (k : Addr) (s : State n) : Prop extends Sound k s, PagesExact s

lemma Sound.table_not_stack (h : Sound k s) (hcur : s.currentIdt ≠ 0#64) :
    s.currentIdt ∉ stackPages s.tssIst := by
  intro hmem
  obtain ⟨c, hc, heq⟩ := mem_stackPages.mp hmem
  exact h.apart c hc hcur heq

/-- A stack page that cannot be had is missed before any other is taken, and
otherwise, with its clone, the call rejects no vector. -/
structure EfCall.FreesNothing (y : Symbols) (e : EfCall n) (s : State n) : Prop where
  setup : SetupFails e.stack s → ∀ c, s.tssIst c = 0#64 ∧ e.stack c = none
  vectors : ¬ SetupFails e.stack s → e.clone ≠ none →
    ∀ v ∈ e.vectors, Fine y e.tsthdlr (e.patch s) v

instance (e : EfCall n) (s : State n) : Decidable (e.FreesNothing y s) :=
  decidable_of_iff ((SetupFails e.stack s → ∀ c, s.tssIst c = 0#64 ∧ e.stack c = none) ∧
      (¬ SetupFails e.stack s → e.clone ≠ none →
        ∀ v ∈ e.vectors, Fine y e.tsthdlr (e.patch s) v))
    ⟨fun ⟨h1, h2⟩ => ⟨h1, h2⟩, fun ⟨h1, h2⟩ => ⟨h1, h2⟩⟩

/-- A setup that no CPU gets through changes nothing. -/
lemma efAdaptorInit_of_no_stack {e : EfCall n}
    (h : ∀ c, s.tssIst c = 0#64 ∧ e.stack c = none) : (efAdaptorInit y e s).2 = s := by
  have htops : stackTops e.stack s = s.tssIst := by
    funext c
    simp [stackTops, h c]
  have hnone : newStacks e.stack s (List.finRange n) = ∅ := by
    ext q
    simp [mem_newStacks, h]
  have hsame : afterSetup e.stack s = s := by
    simp [afterSetup, htops, hnone]
  have hset : SetupFails e.stack s := ⟨e.cpu, h e.cpu⟩
  rw [efAdaptorInit_of_setupFails hset, hsame, efError, cleanup_of_forall_zero fun c => (h c).1]
  simp

lemma Ledger.efAdaptorInit (h : Ledger k s) {e : EfCall n} (ha : e.AllocOk s)
    (hn : e.FreesNothing y s) : Ledger k (efAdaptorInit y e s).2 := by
  by_cases hset : SetupFails e.stack s
  · rw [efAdaptorInit_of_no_stack (hn.setup hset)]
    exact h
  refine ⟨h.toSound.efAdaptorInit ha, ?_⟩
  -- the pages before the clone, as the ledger of the new stacks has them
  have hpages : s.pages ∪ newStacks e.stack s (List.finRange n) =
      tablePages s.currentIdt ∪ stackPages (stackTops e.stack s) := by
    rw [stackPages_stackTops ha, h.pages, Finset.union_assoc]
  have hdone (hc : e.clone ≠ none) :
      ∃ d patch, processVecs y e.tsthdlr e.vectors 0 ⟨s.table k, s.origIsrs⟩ = .done d patch := by
    rw [← h.efPatch_eq e]
    exact (processVecs_done_iff y e.tsthdlr e.vectors 0 (e.patch s)).mpr (hn.vectors hset hc)
  have hnew (p : Addr) (hc : e.clone = some p) :
      p ∉ tablePages s.currentIdt ∪ stackPages (stackTops e.stack s) := by
    rw [← hpages, Finset.mem_union, not_or]
    refine ⟨(ha.clone p hc).not_owned, fun hmem => ?_⟩
    obtain ⟨c, _, hstack⟩ := mem_newStacks.mp hmem
    exact ha.clone_ne_stack p hc c hstack
  rcases efAdaptorInit_cases y h.toCoherent ha with ⟨hfail, _⟩ | ⟨_, _, he⟩ |
    ⟨p, _, hc, hp, ⟨patch, hloop, _⟩ | ⟨patch, pages, frees, hloop, _⟩ | ⟨patch, _, he⟩ |
      ⟨d, patch, _, _, he⟩⟩
  · exact absurd hfail hset
  · rw [he]
    exact ⟨hpages, h.frees⟩
  · obtain ⟨d, patch', hd⟩ := hdone (by simp [hc])
    rw [hloop] at hd
    cases hd
  · obtain ⟨d, patch', hd⟩ := hdone (by simp [hc])
    rw [hloop] at hd
    cases hd
  · rw [he]
    exact pagesExact_release hp.ne_zero hp.not_loaded (hnew p hc) (congrArg (insert p) hpages)
      h.frees
  · rw [he]
    exact pagesExact_activate hp.ne_zero (h.toSound.worked ha p patch).table_not_stack
      (hnew p hc) (congrArg (insert p) hpages) h.frees

/-- Every call of `pf_adaptor_init` keeps the stacks and the tables apart. -/
theorem Sound.pfAdaptorInit (h : Sound k s) {f : PfCall n} (ha : f.AllocOk s) :
    Sound k (pfAdaptorInit y f s).2 := by
  have hne {p : Addr} (hp : FreshPage s p) (c : Fin n) (hc : s.tssIst c ≠ 0#64) :
      s.tssIst c - PAGE_SIZE ≠ p := fun heq => hp.not_owned (heq ▸ h.owned c hc)
  rcases pfAdaptorInit_cases y h.toCoherent ha with ⟨_, he⟩ | ⟨p, _, hp, ⟨_, _, he⟩ | ⟨_, he⟩⟩
  · rw [he]
    exact ⟨⟨h.idtr, h.origIdt⟩, h.owned, h.apart⟩
  · have hco :=
      (coherent_activate hp.ne_zero (k := k) (s := pfWorked k p (f.fixed y k s).2 s) rfl).1
    obtain ⟨pages, frees, hr, hkeep⟩ :=
      idtAdaptorActivate_frame p (pfWorked k p (f.fixed y k s).2 s)
    rw [he]
    rw [hr] at hco ⊢
    refine ⟨hco, fun c hc => ?_, fun c hc _ => hne hp c hc⟩
    exact hkeep _ (Finset.mem_insert_of_mem (h.owned c hc)) (h.apart c hc)
  · have hco := h.toCoherent.pfWorked p (f.fixed y k s).2
    obtain ⟨pages, frees, hr, hkeep⟩ :=
      idtAdaptorRelease_frame p (pfWorked k p (f.fixed y k s).2 s)
    rw [he, hr]
    refine ⟨hco.congr rfl rfl rfl, fun c hc => ?_, h.apart⟩
    exact hkeep _ (Finset.mem_insert_of_mem (h.owned c hc)) (hne hp c hc)

lemma Ledger.pfAdaptorInit (h : Ledger k s) {f : PfCall n} (ha : f.AllocOk s) :
    Ledger k (pfAdaptorInit y f s).2 := by
  refine ⟨h.toSound.pfAdaptorInit ha, ?_⟩
  rcases pfAdaptorInit_cases y h.toCoherent ha with ⟨_, he⟩ | ⟨p, _, hp, ⟨_, _, he⟩ | ⟨_, he⟩⟩
  · rw [he]
    exact ⟨h.pages, h.frees⟩
  · rw [he]
    exact pagesExact_activate hp.ne_zero h.toSound.table_not_stack (h.pages ▸ hp.not_owned)
      (congrArg (insert p) h.pages) h.frees
  · rw [he]
    exact pagesExact_release hp.ne_zero hp.not_loaded (h.pages ▸ hp.not_owned)
      (congrArg (insert p) h.pages) h.frees

/-- What a call must meet for the ledger to stay exact; `pf_adaptor_init` always
does. -/
def Call.FreesNothing (y : Symbols) (s : State n) : Call n → Prop
  | .ef e => e.FreesNothing y s
  | .pf _ => True

instance (s : State n) : (call : Call n) → Decidable (call.FreesNothing y s)
  | .ef e => inferInstanceAs (Decidable (e.FreesNothing y s))
  | .pf _ => inferInstanceAs (Decidable True)

lemma Ledger.step (h : Ledger k s) {call : Call n} (ha : call.AllocOk s)
    (hn : call.FreesNothing y s) : Ledger k (call.step y s) := by
  cases call with
  | ef e => exact h.efAdaptorInit ha hn
  | pf f => exact h.pfAdaptorInit ha

lemma ledger_moduleLoad (k : Addr) (idtAt : Addr → Idt) :
    Ledger k (moduleLoad k idtAt : State n) where
  toSound := sound_moduleLoad k idtAt
  pages := by
    ext q
    simp [moduleLoad, tablePages, mem_stackPages]
  frees _ h := absurd h List.not_mem_nil

/-- In every run of calls of both adaptors from module load in which the error
path of `ef_adaptor_init` never has a stack to clear, the ledger is exact in
every state reached. -/
theorem pagesExact_of_run (y : Symbols) (k : Addr) (idtAt : Addr → Idt) (calls : List (Call n))
    (hrun : Guarded (Call.step y) (fun s call => call.AllocOk s ∧ call.FreesNothing y s)
      (moduleLoad k idtAt) calls)
    (pre : List (Call n)) (hpre : pre <+: calls) :
    PagesExact (runFrom (Call.step y) (moduleLoad k idtAt) pre) := by
  have hend := hrun.invariant_prefix (I := Ledger k) (fun s call hs hg => hs.step hg.1 hg.2)
    (ledger_moduleLoad k idtAt) hpre
  exact hend.toPagesExact

/-- Both adaptors are installed, and one of them is asked again. -/
theorem pagesExact_of_both_adaptors :
    PagesExact (runFrom (Call.step sampleSymbols) sampleState
      [.pf (samplePfCall 1), .ef (sampleCall 14 0 2), .ef (sampleCall 14 0 5)]) :=
  pagesExact_of_run sampleSymbols 0xfffffe0000000000 (fun _ => sampleIdt)
    [.pf (samplePfCall 1), .ef (sampleCall 14 0 2), .ef (sampleCall 14 0 5)] (by decide) _
    (List.prefix_refl _)

/-- The first CPU gets its stack page and the second does not: the page is lost,
and the page below address zero is freed in its place. -/
theorem pages_lost_after_failed_setup :
    Guarded (Call.step sampleSymbols) (fun s call => call.AllocOk s) sampleState
      [.ef { sampleCall 3 0 1 with stack := ![some (samplePage 1), none] }] ∧
    ¬ PagesExact (runFrom (Call.step sampleSymbols) sampleState
      [.ef { sampleCall 3 0 1 with stack := ![some (samplePage 1), none] }]) := by
  refine ⟨by decide, fun h => ?_⟩
  have hfreed : (⟨0#64 - PAGE_SIZE, false, false⟩ : FreeEvent) ∈
      (runFrom (Call.step sampleSymbols) sampleState
        [.ef { sampleCall 3 0 1 with stack := ![some (samplePage 1), none] }]).frees := by
    decide
  exact absurd (h.frees _ hfreed).1 (by decide)

end SymbiOS.Adaptor
