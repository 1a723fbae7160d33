import SymbiOS.PfAdaptor

/-!
# The table in use

Both adaptors work on a clone of the table in use and then load it or drop it.
Between calls every CPU has the same table loaded: the adaptors' own if there is
one, and else the kernel's. The results here say what a call leaves behind, as a
whole state, so that each invariant of whole runs is read off from them.
-/
namespace SymbiOS.Adaptor

variable {n : ℕ} {y : Symbols} {k : Addr} {s : State n}

/-- Where the table in use lies, the kernel's own table being at `k`. -/
def State.active (k : Addr) (s : State n) : Addr := if s.currentIdt = 0#64 then k else s.currentIdt

/-- The table in use. -/
def State.table (k : Addr) (s : State n) : Idt := s.idtAt (s.active k)

/-- All CPUs have loaded the table in use, and the kernel's table is remembered
once it has been replaced. -/
structure Coherent (k : Addr) (s : State n) : Prop where
  idtr : ∀ c, s.idtr c = s.active k
  origIdt : s.origIdt = k ∨ s.origIdt = 0#64 ∧ s.currentIdt = 0#64

lemma coherent_moduleLoad (k : Addr) (idtAt : Addr → Idt) :
    Coherent k (moduleLoad k idtAt : State n) where
  idtr _ := rfl
  origIdt := Or.inr ⟨rfl, rfl⟩

namespace Coherent

/-- Coherence is about the tables only. -/
lemma congr (h : Coherent k s) {t : State n} (hi : t.idtr = s.idtr)
    (hc : t.currentIdt = s.currentIdt) (ho : t.origIdt = k) : Coherent k t where
  idtr c := by rw [hi, h.idtr c, State.active, State.active, hc]
  origIdt := Or.inl ho

lemma seedIdt_eq (h : Coherent k s) (cpu : Fin n) : seedIdt cpu s = s.active k := by
  unfold seedIdt
  by_cases hcur : s.currentIdt = 0#64
  · have hk : s.active k = k := if_pos hcur
    rw [if_neg (not_not.mpr hcur), hk]
    split
    · rw [h.idtr cpu, hk]
    · rename_i hne
      exact h.origIdt.resolve_right fun hz => hne hz.1
  · rw [if_pos hcur, State.active, if_neg hcur]

/-- A clone is a copy of the table in use, and it makes sure that the kernel's
table is remembered. -/
lemma clone_eq (h : Coherent k s) (cpu : Fin n) (p : Addr) :
    idtAdaptorClone cpu (some p) s =
      (p, { s with
        pages := insert p s.pages
        origIdt := k
        idtAt := Function.update s.idtAt p (s.table k) }) := by
  have horig : (if s.currentIdt ≠ 0#64 then s.origIdt
      else if s.origIdt = 0#64 then s.idtr cpu else s.origIdt) = k := by
    by_cases hcur : s.currentIdt = 0#64
    · rw [if_neg (not_not.mpr hcur)]
      split
      · rw [h.idtr cpu]
        exact if_pos hcur
      · rename_i hne
        exact h.origIdt.resolve_right fun hz => hne hz.1
    · rw [if_pos hcur]
      exact h.origIdt.resolve_right fun hz => hcur hz.2
  rw [idtAdaptorClone, h.seedIdt_eq cpu, horig]
  rfl

lemma efPatch_eq (h : Coherent k s) (e : EfCall n) : e.patch s = ⟨s.table k, s.origIsrs⟩ := by
  rw [EfCall.patch, h.seedIdt_eq]
  rfl

end Coherent

/-- Dropping a clone, which is ours and not loaded. -/
lemma idtAdaptorRelease_eq {p : Addr} (hp : p ≠ 0#64) (hown : p ∈ s.pages)
    (hload : ∀ c, s.idtr c ≠ p) :
    idtAdaptorRelease p s =
      { s with pages := s.pages.erase p, frees := ⟨p, true, false⟩ :: s.frees } := by
  simp [idtAdaptorRelease, freePages, hp, hown, hload]

/-- Dropping a clone touches the page ledger only, and no other page of it. -/
lemma idtAdaptorRelease_frame (p : Addr) (s : State n) :
    ∃ pages frees, idtAdaptorRelease p s = { s with pages := pages, frees := frees } ∧
      ∀ q ∈ s.pages, q ≠ p → q ∈ pages := by
  by_cases hp : p = 0#64
  · exact ⟨s.pages, s.frees, by simp [idtAdaptorRelease, hp], fun q hq _ => hq⟩
  · refine ⟨s.pages.erase p, _, by rw [idtAdaptorRelease, freePages, if_neg hp], ?_⟩
    intro q hq hne
    exact Finset.mem_erase.mpr ⟨hne, hq⟩

/-- Every CPU loads the table it is told to. -/
lemma onEachCpu_load (p : Addr) (idtr : Fin n → Addr) :
    onEachCpu (fun c idtr => Function.update idtr c p) idtr = fun _ => p := by
  funext c
  have h := foldl_update_mem p (List.finRange n) idtr c
  rwa [if_pos (List.mem_finRange c)] at h

/-- Loading a table where the kernel's own was in use. -/
lemma idtAdaptorActivate_of_zero (p : Addr) (hcur : s.currentIdt = 0#64) :
    idtAdaptorActivate p s = { s with idtr := fun _ => p, currentIdt := p } := by
  simp [idtAdaptorActivate, onEachCpu_load, hcur]

/-- Loading a table in the place of one of ours, which is freed. -/
lemma idtAdaptorActivate_of_ne_zero {p : Addr} (hcur : s.currentIdt ≠ 0#64)
    (hown : s.currentIdt ∈ s.pages) (hne : p ≠ s.currentIdt) :
    idtAdaptorActivate p s =
      { s with
        idtr := fun _ => p
        currentIdt := p
        pages := s.pages.erase s.currentIdt
        frees := ⟨s.currentIdt, true, false⟩ :: s.frees } := by
  simp [idtAdaptorActivate, onEachCpu_load, hcur, freePages, hown, hne]

/-- Loading a table, seen without the ledger: no page is lost but the table that
is replaced. -/
lemma idtAdaptorActivate_frame (p : Addr) (s : State n) :
    ∃ pages frees, idtAdaptorActivate p s =
        { s with idtr := fun _ => p, currentIdt := p, pages := pages, frees := frees } ∧
      ∀ q ∈ s.pages, (s.currentIdt ≠ 0#64 → q ≠ s.currentIdt) → q ∈ pages := by
  by_cases hcur : s.currentIdt = 0#64
  · exact ⟨s.pages, s.frees, idtAdaptorActivate_of_zero p hcur, fun q hq _ => hq⟩
  · refine ⟨s.pages.erase s.currentIdt, _,
      by simp only [idtAdaptorActivate, onEachCpu_load, ne_eq, hcur, not_false_eq_true, if_true,
        freePages, if_false]; rfl, ?_⟩
    intro q hq hne
    exact Finset.mem_erase.mpr ⟨hne hcur, hq⟩

/-- The state when the vector loops have stopped with `patch` on the clone at `p`. -/
def EfCall.worked (e : EfCall n) (k p : Addr) (patch : Patch) (s : State n) : State n :=
  { s with
    tssIst := stackTops e.stack s
    pages := insert p (s.pages ∪ newStacks e.stack s (List.finRange n))
    origIdt := k
    idtAt := Function.update s.idtAt p patch.idt
    origIsrs := patch.origIsrs }

/-- The state when the three blocks have stopped with `patch` on the clone at `p`. -/
def pfWorked (k p : Addr) (patch : PfPatch) (s : State n) : State n :=
  { s with
    pages := insert p s.pages
    origIdt := k
    idtAt := Function.update s.idtAt p patch.idt
    exc := patch.exc }

lemma Coherent.write_cloned (h : Coherent k s) (e : EfCall n) (p : Addr) (patch : Patch) :
    (e.cloned p s).write p patch = e.worked k p patch s := by
  have hset : Coherent k (afterSetup e.stack s) := ⟨h.idtr, h.origIdt⟩
  rw [EfCall.cloned, hset.clone_eq, State.write, EfCall.worked]
  simp [afterSetup]

/-- The ways a call of `ef_adaptor_init` can end. -/
lemma efAdaptorInit_cases (y : Symbols) {e : EfCall n} (h : Coherent k s) (ha : e.AllocOk s) :
    (SetupFails e.stack s ∧ ∃ pages frees, (efAdaptorInit y e s).2 =
      { s with tssIst := fun _ => 0#64, pages := pages, frees := frees }) ∨
    (¬ SetupFails e.stack s ∧ e.clone = none ∧ (efAdaptorInit y e s).2 = afterSetup e.stack s) ∨
    ∃ p, ¬ SetupFails e.stack s ∧ e.clone = some p ∧ FreshPage s p ∧
      ((∃ patch, processVecs y e.tsthdlr e.vectors 0 ⟨s.table k, s.origIsrs⟩ = .fault patch ∧
        (efAdaptorInit y e s).2 = e.worked k p patch s) ∨
      (∃ patch pages frees,
        processVecs y e.tsthdlr e.vectors 0 ⟨s.table k, s.origIsrs⟩ = .mismatch patch ∧
        (efAdaptorInit y e s).2 =
          { e.worked k p patch s with tssIst := fun _ => 0#64, pages := pages, frees := frees }) ∨
      (∃ patch, processVecs y e.tsthdlr e.vectors 0 ⟨s.table k, s.origIsrs⟩ = .done 0 patch ∧
        (efAdaptorInit y e s).2 = idtAdaptorRelease p (e.worked k p patch s)) ∨
      (∃ d patch, d ≠ 0 ∧
        processVecs y e.tsthdlr e.vectors 0 ⟨s.table k, s.origIsrs⟩ = .done d patch ∧
        (efAdaptorInit y e s).2 = idtAdaptorActivate p (e.worked k p patch s))) := by
  by_cases hset : SetupFails e.stack s
  · left
    obtain ⟨pages, frees, he⟩ := efError_eq 0#64 (afterSetup e.stack s)
    refine ⟨hset, pages, frees, ?_⟩
    rw [efAdaptorInit_of_setupFails hset, he]
    rfl
  right
  cases hc : e.clone with
  | none =>
    left
    exact ⟨hset, rfl, by rw [efAdaptorInit_of_clone_none hset hc]⟩
  | some p =>
    right
    have hp := ha.clone p hc
    have hcall := efAdaptorInit_of_clone (y := y) hset hc hp.ne_zero
    simp only [h.efPatch_eq, h.write_cloned] at hcall
    refine ⟨p, hset, rfl, hp, ?_⟩
    cases hloop : processVecs y e.tsthdlr e.vectors 0 ⟨s.table k, s.origIsrs⟩ with
    | fault patch => exact Or.inl ⟨patch, rfl, by rw [hcall, hloop]⟩
    | mismatch patch =>
      obtain ⟨pages, frees, he⟩ := efError_eq p (e.worked k p patch s)
      exact Or.inr (Or.inl ⟨patch, pages, frees, rfl, by
        rw [hcall, hloop]; simp only [he]⟩)
    | done d patch =>
      by_cases hd : d = 0
      · subst hd
        exact Or.inr (Or.inr (Or.inl ⟨patch, rfl, by rw [hcall, hloop]; rfl⟩))
      · exact Or.inr (Or.inr (Or.inr ⟨d, patch, hd, rfl, by
          rw [hcall, hloop]; exact if_pos hd⟩))

/-- The page of a `pf_adaptor_init` call is fresh. -/
def PfCall.AllocOk (f : PfCall n) (s : State n) : Prop := ∀ p ∈ f.clone, FreshPage s p

instance (f : PfCall n) (s : State n) : Decidable (f.AllocOk s) := Option.decidableForallMem _

/-- What the blocks of `pf_adaptor_init` make of the table in use. -/
def PfCall.fixed (y : Symbols) (k : Addr) (f : PfCall n) (s : State n) : Bool × PfPatch :=
  fixTraps y f [.pf, .df, .gp] ⟨s.table k, s.exc, false⟩

/-- The ways a call of `pf_adaptor_init` can end. -/
lemma pfAdaptorInit_cases (y : Symbols) {f : PfCall n} (h : Coherent k s) (ha : f.AllocOk s) :
    (f.clone = none ∧ (pfAdaptorInit y f s).2 = { s with
      exc := (saveHandler .pf (f.handler .pf) ⟨s.table k, s.exc, false⟩).exc }) ∨
    ∃ p, f.clone = some p ∧ FreshPage s p ∧
      (((f.fixed y k s).1 = true ∧ (f.fixed y k s).2.dirty = true ∧
        (pfAdaptorInit y f s).2 = idtAdaptorActivate p (pfWorked k p (f.fixed y k s).2 s)) ∨
      (((f.fixed y k s).1 = false ∨ (f.fixed y k s).2.dirty = false) ∧
        (pfAdaptorInit y f s).2 = idtAdaptorRelease p (pfWorked k p (f.fixed y k s).2 s))) := by
  cases hc : f.clone with
  | none =>
    left
    refine ⟨rfl, ?_⟩
    simp only [pfAdaptorInit, hc, idtAdaptorClone, if_true, saveHandler]
    split <;> rfl
  | some p =>
    right
    have hp := ha p hc
    refine ⟨p, rfl, hp, ?_⟩
    have hcall : (pfAdaptorInit y f s).2 =
        if (f.fixed y k s).1 then
          if (f.fixed y k s).2.dirty then idtAdaptorActivate p (pfWorked k p (f.fixed y k s).2 s)
          else idtAdaptorRelease p (pfWorked k p (f.fixed y k s).2 s)
        else idtAdaptorRelease p (pfWorked k p (f.fixed y k s).2 s) := by
      simp only [pfAdaptorInit, hc, h.clone_eq, if_neg hp.ne_zero, Function.update_self,
        Function.update_idem]
      rw [show fixTraps y f [.pf, .df, .gp] ⟨s.table k, s.exc, false⟩ = f.fixed y k s from rfl]
      split
      · rfl
      · rfl
    rw [hcall]
    cases hok : (f.fixed y k s).1 with
    | false => exact Or.inr ⟨Or.inl rfl, by simp⟩
    | true =>
      cases hd : (f.fixed y k s).2.dirty with
      | false => exact Or.inr ⟨Or.inr rfl, by simp⟩
      | true => exact Or.inl ⟨rfl, rfl, by simp⟩

/-- A fresh page is not where the table in use lies. -/
lemma Coherent.active_ne (h : Coherent k s) {p : Addr} (hp : FreshPage s p) (cpu : Fin n) :
    s.active k ≠ p := by
  rw [← h.idtr cpu]
  exact hp.not_loaded cpu

/-- The clone is written, the table in use is not. -/
lemma Coherent.table_worked (h : Coherent k s) {p : Addr} (hp : FreshPage s p) (e : EfCall n)
    (patch : Patch) : (e.worked k p patch s).table k = s.table k :=
  Function.update_of_ne (h.active_ne hp e.cpu) _ _

lemma Coherent.pfTable_worked (h : Coherent k s) {p : Addr} (hp : FreshPage s p) (cpu : Fin n)
    (patch : PfPatch) : (pfWorked k p patch s).table k = s.table k :=
  Function.update_of_ne (h.active_ne hp cpu) _ _

lemma Coherent.worked (h : Coherent k s) (e : EfCall n) (p : Addr) (patch : Patch) :
    Coherent k (e.worked k p patch s) := h.congr rfl rfl rfl

lemma Coherent.pfWorked (h : Coherent k s) (p : Addr) (patch : PfPatch) :
    Coherent k (pfWorked k p patch s) := h.congr rfl rfl rfl

/-- A table that is loaded is in use. -/
lemma coherent_activate {p : Addr} (hp : p ≠ 0#64) (horig : s.origIdt = k) :
    Coherent k (idtAdaptorActivate p s) ∧ (idtAdaptorActivate p s).table k = s.idtAt p := by
  obtain ⟨pages, frees, he, _⟩ := idtAdaptorActivate_frame p s
  have hactive : (idtAdaptorActivate p s).active k = p := by
    rw [he]
    exact if_neg hp
  refine ⟨⟨fun c => ?_, Or.inl ?_⟩, ?_⟩
  · rw [hactive, idtAdaptorActivate_idtr]
  · rw [he]
    exact horig
  · rw [State.table, hactive, idtAdaptorActivate_idtAt]

/-- `pf_adaptor_init`, seen from the table in use: the table that the blocks made
is loaded or dropped, the handlers they saved stay either way. -/
lemma pfAdaptorInit_view (y : Symbols) {f : PfCall n} (h : Coherent k s) (ha : f.AllocOk s) :
    Coherent k (pfAdaptorInit y f s).2 ∧ (pfAdaptorInit y f s).2.origIsrs = s.origIsrs ∧
    ((f.clone = none ∧ (pfAdaptorInit y f s).2.table k = s.table k ∧
      (pfAdaptorInit y f s).2.exc =
        (saveHandler .pf (f.handler .pf) ⟨s.table k, s.exc, false⟩).exc) ∨
    (f.clone ≠ none ∧ (pfAdaptorInit y f s).2.exc = (f.fixed y k s).2.exc ∧
      ((f.fixed y k s).1 = true ∧ (pfAdaptorInit y f s).2.table k = (f.fixed y k s).2.idt ∨
        (pfAdaptorInit y f s).2.table k = s.table k))) := by
  rcases pfAdaptorInit_cases y h ha with ⟨hc, he⟩ | ⟨p, hc, hp, ⟨hok, _, he⟩ | ⟨_, he⟩⟩
  · rw [he]
    exact ⟨⟨h.idtr, h.origIdt⟩, rfl, Or.inl ⟨hc, rfl, rfl⟩⟩
  · obtain ⟨hco, htable⟩ :=
      coherent_activate hp.ne_zero (k := k) (s := pfWorked k p (f.fixed y k s).2 s) rfl
    have hidt : (pfWorked k p (f.fixed y k s).2 s).idtAt p = (f.fixed y k s).2.idt :=
      Function.update_self ..
    obtain ⟨pages, frees, hr, _⟩ := idtAdaptorActivate_frame p (pfWorked k p (f.fixed y k s).2 s)
    rw [he]
    refine ⟨hco, by rw [hr]; rfl, Or.inr ⟨by simp [hc], by rw [hr]; rfl, Or.inl ⟨hok, ?_⟩⟩⟩
    rw [htable, hidt]
  · obtain ⟨pages, frees, hr, _⟩ := idtAdaptorRelease_frame p (pfWorked k p (f.fixed y k s).2 s)
    have hkept := h.pfTable_worked hp f.cpu (f.fixed y k s).2
    rw [he, hr]
    exact ⟨(h.pfWorked p (f.fixed y k s).2).congr rfl rfl rfl, rfl,
      Or.inr ⟨by simp [hc], rfl, Or.inr hkept⟩⟩

/-- `ef_adaptor_init`, seen from the table in use: what the vector loops made is
loaded when they complete, the handlers they saved stay either way. -/
lemma efAdaptorInit_view (y : Symbols) {e : EfCall n} (h : Coherent k s) (ha : e.AllocOk s) :
    Coherent k (efAdaptorInit y e s).2 ∧ (efAdaptorInit y e s).2.exc = s.exc ∧
    (((SetupFails e.stack s ∨ e.clone = none) ∧ (efAdaptorInit y e s).2.table k = s.table k ∧
      (efAdaptorInit y e s).2.origIsrs = s.origIsrs) ∨
    (¬ SetupFails e.stack s ∧ e.clone ≠ none ∧
      match processVecs y e.tsthdlr e.vectors 0 ⟨s.table k, s.origIsrs⟩ with
      | .done _ patch => (efAdaptorInit y e s).2.table k = patch.idt ∧
          (efAdaptorInit y e s).2.origIsrs = patch.origIsrs
      | .mismatch patch | .fault patch => (efAdaptorInit y e s).2.table k = s.table k ∧
          (efAdaptorInit y e s).2.origIsrs = patch.origIsrs)) := by
  rcases efAdaptorInit_cases y h ha with ⟨hset, pages, frees, he⟩ | ⟨hset, hc, he⟩ |
    ⟨p, hset, hc, hp, ⟨patch, hloop, he⟩ | ⟨patch, pages, frees, hloop, he⟩ | ⟨patch, hloop, he⟩ |
      ⟨d, patch, hd, hloop, he⟩⟩
  · rw [he]
    exact ⟨⟨h.idtr, h.origIdt⟩, rfl, Or.inl ⟨Or.inl hset, rfl, rfl⟩⟩
  · rw [he]
    exact ⟨⟨h.idtr, h.origIdt⟩, rfl, Or.inl ⟨Or.inr hc, rfl, rfl⟩⟩
  · have hkept := h.table_worked hp e patch
    rw [he, hloop]
    exact ⟨h.worked e p patch, rfl, Or.inr ⟨hset, by simp [hc], hkept, rfl⟩⟩
  · have hkept := h.table_worked hp e patch
    rw [he, hloop]
    exact ⟨(h.worked e p patch).congr rfl rfl rfl, rfl,
      Or.inr ⟨hset, by simp [hc], hkept, rfl⟩⟩
  · -- nothing was written, so the clone that is dropped equals the table in use
    obtain ⟨pages, frees, hr, _⟩ := idtAdaptorRelease_frame p (e.worked k p patch s)
    have hkept := h.table_worked hp e patch
    have hsame := (processVecs_done_count hloop).2 rfl
    rw [he, hr, hloop]
    refine ⟨(h.worked e p patch).congr rfl rfl rfl, rfl, Or.inr ⟨hset, by simp [hc], ?_, rfl⟩⟩
    exact hkept.trans (congrArg Patch.idt hsame).symm
  · obtain ⟨hco, htable⟩ :=
      coherent_activate hp.ne_zero (k := k) (s := e.worked k p patch s) rfl
    have hidt : (e.worked k p patch s).idtAt p = patch.idt := Function.update_self ..
    obtain ⟨pages, frees, hr, _⟩ := idtAdaptorActivate_frame p (e.worked k p patch s)
    rw [he, hloop]
    refine ⟨hco, by rw [hr]; rfl, Or.inr ⟨hset, by simp [hc], ?_, by rw [hr]; rfl⟩⟩
    rw [htable, hidt]

end SymbiOS.Adaptor
