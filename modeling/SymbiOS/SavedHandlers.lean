import SymbiOS.AdaptorPages

/-!
# The handlers that `pf_adaptor_init` saves

An adaptor entry ends by jumping to the handler that was saved for it. The saved
handlers are what the callers said, not what was found in the gates, and they
are written once. They are the right ones as long as no call gets to write a
wrong one.
-/
namespace SymbiOS.Adaptor
open SymbiOS.GuardedRun

variable {n : ℕ} {y : Symbols} {k : Addr} {s : State n} {kernel : Trap → Addr}

/-- The block lets the gate pass: it holds the handler the caller names, or the
adaptor's entry already. -/
def Accepts (y : Symbols) (f : PfCall n) (idt : Idt) (trap : Trap) : Prop :=
  gateOffset (idt trap.vec) = f.handler trap ∨ gateOffset (idt trap.vec) = y.fixErrCode trap

instance (f : PfCall n) (idt : Idt) (trap : Trap) : Decidable (Accepts y f idt trap) :=
  inferInstanceAs (Decidable (_ ∨ _))

/-- Every block that is reached and saves its argument saves zero or the handler
in the gate. -/
def SavesRight (y : Symbols) (f : PfCall n) (idt : Idt) (exc : Trap → Addr) : List Trap → Prop
  | [] => True
  | trap :: traps =>
      (exc trap = 0#64 →
        f.handler trap = 0#64 ∨ f.handler trap = gateOffset (idt trap.vec)) ∧
      (Accepts y f idt trap → SavesRight y f idt exc traps)

instance instDecidableSavesRight (f : PfCall n) (idt : Idt) (exc : Trap → Addr) :
    (traps : List Trap) → Decidable (SavesRight y f idt exc traps)
  | [] => inferInstanceAs (Decidable True)
  | _ :: traps =>
      have := instDecidableSavesRight f idt exc traps
      inferInstanceAs (Decidable (_ ∧ _))

/-- The blocks that a call gets to: without a clone it ends in the first. -/
def PfCall.blocks (f : PfCall n) : List Trap :=
  if f.clone = none then [.pf] else [.pf, .df, .gp]

/-- The call saves no wrong handler. -/
def PfCall.SavesRight (y : Symbols) (f : PfCall n) (s : State n) : Prop :=
  Adaptor.SavesRight y f (s.idtAt (s.idtr f.cpu)) s.exc f.blocks

instance (f : PfCall n) (s : State n) : Decidable (f.SavesRight y s) :=
  instDecidableSavesRight f _ _ _

/-- A trap's gate holds the kernel's handler or the adaptor's entry, and in the
second case the kernel's handler is the saved one. -/
structure Interposed (y : Symbols) (kernel : Trap → Addr) (idt : Idt) (exc : Trap → Addr)
    (trap : Trap) : Prop where
  gate : gateOffset (idt trap.vec) = kernel trap ∨
    gateOffset (idt trap.vec) = y.fixErrCode trap ∧ exc trap = kernel trap
  saved : exc trap = 0#64 ∨ exc trap = kernel trap

lemma saveHandler_exc_self {trap : Trap} {p : PfPatch} (h : p.exc trap = 0#64) (handler : Addr) :
    (saveHandler trap handler p).exc trap = handler := by
  simp [saveHandler, h]

lemma saveHandler_idt (trap : Trap) (handler : Addr) (p : PfPatch) :
    (saveHandler trap handler p).idt = p.idt := by
  unfold saveHandler
  split <;> rfl

lemma saveHandler_exc_other {t trap : Trap} (ht : t ≠ trap) (handler : Addr) (p : PfPatch) :
    (saveHandler trap handler p).exc t = p.exc t := by
  unfold saveHandler
  split
  · exact Function.update_of_ne ht _ _
  · rfl

/-- A handler that is saved stays. -/
lemma saveHandler_exc_of_ne_zero {t : Trap} {p : PfPatch} (h : p.exc t ≠ 0#64) (trap : Trap)
    (handler : Addr) : (saveHandler trap handler p).exc t = p.exc t := by
  by_cases ht : t = trap
  · subst ht
    rw [saveHandler, if_neg h]
  · exact saveHandler_exc_other ht handler p

/-- Saving zero or the handler in the gate. -/
lemma Interposed.saveHandler {p : PfPatch} {trap : Trap}
    (h : ∀ t, Interposed y kernel p.idt p.exc t) (hk : kernel trap ≠ 0#64) {handler : Addr}
    (hs : p.exc trap = 0#64 → handler = 0#64 ∨ handler = gateOffset (p.idt trap.vec)) (t : Trap) :
    Interposed y kernel (saveHandler trap handler p).idt (saveHandler trap handler p).exc t := by
  have hidt := saveHandler_idt trap handler p
  by_cases ht : t = trap
  · subst ht
    by_cases hz : p.exc t = 0#64
    · have hgate : gateOffset (p.idt t.vec) = kernel t :=
        (h t).gate.resolve_right fun hfix => hk (hfix.2 ▸ hz)
      refine ⟨Or.inl (by rw [hidt, hgate]), ?_⟩
      rw [saveHandler_exc_self hz]
      exact (hs hz).imp id fun heq => heq.trans hgate
    · rw [hidt]
      have hkeep := saveHandler_exc_of_ne_zero hz t handler
      exact ⟨by rw [hkeep]; exact (h t).gate, by rw [hkeep]; exact (h t).saved⟩
  · rw [hidt]
    have hkeep := saveHandler_exc_other ht handler p
    exact ⟨by rw [hkeep]; exact (h t).gate, by rw [hkeep]; exact (h t).saved⟩

/-- A block that has saved its argument and lets the gate pass. -/
lemma Interposed.installFix {p q : PfPatch} {trap : Trap} {handler : Addr}
    (h : ∀ t, Interposed y kernel p.idt p.exc t)
    (hs : gateOffset (p.idt trap.vec) = handler → p.exc trap = kernel trap)
    (hq : installFix y trap handler p = some q) (t : Trap) :
    Interposed y kernel q.idt q.exc t := by
  simp only [Adaptor.installFix] at hq
  split at hq
  · split at hq
    · cases hq
    · cases hq
      exact h t
  · rename_i hval
    cases hq
    by_cases ht : t = trap
    · subst ht
      have hsaved := hs (not_not.mp hval)
      exact ⟨Or.inr ⟨by simp, hsaved⟩, Or.inr hsaved⟩
    · have hv : t.vec ≠ trap.vec := fun heq => ht (Trap.vec_injective heq)
      exact ⟨by simpa only [Function.update_of_ne hv] using (h t).gate, (h t).saved⟩

/-- What a block leaves alone. -/
lemma installFix_other {p q : PfPatch} {trap : Trap} {handler : Addr}
    (hq : installFix y trap handler p = some q) :
    q.exc = p.exc ∧ ∀ t, t ≠ trap → q.idt t.vec = p.idt t.vec := by
  simp only [installFix] at hq
  split at hq
  · split at hq
    · cases hq
    · cases hq
      exact ⟨rfl, fun _ _ => rfl⟩
  · cases hq
    refine ⟨rfl, fun t ht => Function.update_of_ne (fun heq => ht (Trap.vec_injective heq)) _ _⟩

lemma savesRight_congr {f : PfCall n} {idt idt' : Idt} {exc exc' : Trap → Addr} {traps : List Trap}
    (hidt : ∀ t ∈ traps, idt' t.vec = idt t.vec) (hexc : ∀ t ∈ traps, exc' t = exc t)
    (h : SavesRight y f idt exc traps) : SavesRight y f idt' exc' traps := by
  induction traps with
  | nil => trivial
  | cons t traps ih =>
    have hi := hidt t List.mem_cons_self
    have he := hexc t List.mem_cons_self
    refine ⟨by rw [hi, he]; exact h.1, fun hacc => ?_⟩
    rw [Accepts, hi] at hacc
    exact ih (fun u hu => hidt u (List.mem_cons_of_mem _ hu))
      (fun u hu => hexc u (List.mem_cons_of_mem _ hu)) (h.2 hacc)

/-- The blocks keep the invariant, whichever of them is the last. -/
lemma fixTraps_interposed (hk : ∀ t, kernel t ≠ 0#64) {f : PfCall n} {traps : List Trap}
    (hnd : traps.Nodup) {p : PfPatch} (h : ∀ t, Interposed y kernel p.idt p.exc t)
    (hs : SavesRight y f p.idt p.exc traps) (t : Trap) :
    Interposed y kernel (fixTraps y f traps p).2.idt (fixTraps y f traps p).2.exc t := by
  induction traps generalizing p with
  | nil => exact h t
  | cons trap traps ih =>
    obtain ⟨hnotin, hnd⟩ := List.nodup_cons.mp hnd
    have hidt := saveHandler_idt trap (f.handler trap) p
    have hsave := Interposed.saveHandler h (hk trap) hs.1
    -- the gate that is about to be replaced holds the saved handler
    have hsaved : gateOffset ((saveHandler trap (f.handler trap) p).idt trap.vec) =
        f.handler trap → (saveHandler trap (f.handler trap) p).exc trap = kernel trap := by
      intro hval
      rw [hidt] at hval
      by_cases hz : p.exc trap = 0#64
      · have hgate : gateOffset (p.idt trap.vec) = kernel trap :=
          (h trap).gate.resolve_right fun hfix => hk trap (hfix.2 ▸ hz)
        rw [saveHandler_exc_self hz, ← hval, hgate]
      · rw [saveHandler_exc_of_ne_zero hz]
        exact (h trap).saved.resolve_left hz
    simp only [fixTraps]
    cases hq : installFix y trap (f.handler trap) (saveHandler trap (f.handler trap) p) with
    | none => exact hsave t
    | some q =>
      obtain ⟨hexc, hother⟩ := installFix_other hq
      have hacc : Accepts y f p.idt trap := by
        rw [installFix, hidt] at hq
        by_contra hno
        rw [Accepts, not_or] at hno
        simp [hno.1, hno.2] at hq
      have hne (u : Trap) (hu : u ∈ traps) : u ≠ trap := fun heq => hnotin (heq ▸ hu)
      apply ih hnd (Interposed.installFix hsave hsaved hq)
      refine savesRight_congr (fun u hu => ?_) (fun u hu => ?_) (hs.2 hacc)
      · rw [hother u (hne u hu), hidt]
      · rw [hexc, saveHandler_exc_other (hne u hu)]

lemma fixTraps_exc_of_ne_zero {f : PfCall n} {traps : List Trap} {p : PfPatch} {t : Trap}
    (h : p.exc t ≠ 0#64) : (fixTraps y f traps p).2.exc t = p.exc t := by
  induction traps generalizing p with
  | nil => rfl
  | cons trap traps ih =>
    have hsave := saveHandler_exc_of_ne_zero h trap (f.handler trap)
    simp only [fixTraps]
    cases hq : installFix y trap (f.handler trap) (saveHandler trap (f.handler trap) p) with
    | none => exact hsave
    | some q =>
      have hexc := congrFun (installFix_other hq).1 t
      rw [hsave] at hexc
      exact (ih (by rwa [hexc])).trans hexc

def pfStep (y : Symbols) (s : State n) (f : PfCall n) : State n := (pfAdaptorInit y f s).2

/-- The handler in the gate that a CPU would take for the trap. -/
def State.handlerOf (s : State n) (c : Fin n) (trap : Trap) : Addr :=
  gateOffset (s.idtAt (s.idtr c) trap.vec)

/-- The tables are coherent and every trap is interposed on rightly. -/
structure HandlersRight (y : Symbols) (kernel : Trap → Addr) (k : Addr) (s : State n) : Prop
    extends Coherent k s where
  traps : ∀ t, Interposed y kernel (s.table k) s.exc t

/-- A call that is dropped has saved handlers, but installed nothing. -/
lemma Interposed.of_saved {idt : Idt} {exc exc' : Trap → Addr} {t : Trap}
    (h : Interposed y kernel idt exc t) (hsaved : exc' t = 0#64 ∨ exc' t = kernel t)
    (hk : kernel t ≠ 0#64) (hkeep : exc t ≠ 0#64 → exc' t = exc t) :
    Interposed y kernel idt exc' t := by
  refine ⟨h.gate.imp id fun hfix => ⟨hfix.1, ?_⟩, hsaved⟩
  rw [hkeep (by rw [hfix.2]; exact hk), hfix.2]

lemma HandlersRight.step (hk : ∀ t, kernel t ≠ 0#64) (h : HandlersRight y kernel k s)
    {f : PfCall n} (ha : f.AllocOk s) (hs : f.SavesRight y s) :
    HandlersRight y kernel k (pfStep y s f) := by
  rw [PfCall.SavesRight, h.idtr] at hs
  obtain ⟨hco, _, hview⟩ := pfAdaptorInit_view y h.toCoherent ha
  refine ⟨hco, fun t => ?_⟩
  rcases hview with ⟨hc, htable, hexc⟩ | ⟨hc, hexc, hend⟩
  · rw [PfCall.blocks, if_pos hc] at hs
    have hsave := Interposed.saveHandler (p := ⟨s.table k, s.exc, false⟩) h.traps (hk .pf) hs.1
    rw [pfStep, htable, hexc]
    apply (h.traps t).of_saved (hsave t).saved (hk t)
    exact fun hz => saveHandler_exc_of_ne_zero (p := ⟨s.table k, s.exc, false⟩) hz _ _
  · rw [PfCall.blocks, if_neg hc] at hs
    have hfixed := fixTraps_interposed hk (by decide) (p := ⟨s.table k, s.exc, false⟩) h.traps hs
    rcases hend with ⟨_, htable⟩ | htable
    · rw [pfStep, htable, hexc]
      exact hfixed t
    · rw [pfStep, htable, hexc]
      apply (h.traps t).of_saved (hfixed t).saved (hk t)
      exact fun hz => fixTraps_exc_of_ne_zero (p := ⟨s.table k, s.exc, false⟩) hz

/-- If the gate of a trap holds the adaptor's entry after these calls, then one of
them put it there, and the saved handler is what the gate held just before. -/
def SavedIsPrior (y : Symbols) (start : State n) (calls : List (PfCall n)) (c : Fin n)
    (trap : Trap) : Prop :=
  (runFrom (pfStep y) start calls).handlerOf c trap = y.fixErrCode trap →
    ∃ before call after, calls = before ++ call :: after ∧
      (runFrom (pfStep y) start before).handlerOf c trap ≠ y.fixErrCode trap ∧
      (∀ m, m <+: after →
        (runFrom (pfStep y) start (before ++ call :: m)).handlerOf c trap = y.fixErrCode trap) ∧
      (runFrom (pfStep y) start calls).exc trap =
        (runFrom (pfStep y) start before).handlerOf c trap

/-- In every run of `pf_adaptor_init` calls whose arguments are arbitrary but for
those that get saved, the saved handlers are the ones the adaptor replaced. -/
theorem savedIsPrior_of_run (y : Symbols) (k : Addr) (idtAt : Addr → Idt)
    (hkernel : ∀ t : Trap, gateOffset (idtAt k t.vec) ≠ 0#64 ∧
      gateOffset (idtAt k t.vec) ≠ y.fixErrCode t)
    (calls : List (PfCall n))
    (hrun : Guarded (pfStep y) (fun s f => f.AllocOk s ∧ f.SavesRight y s)
      (moduleLoad k idtAt) calls)
    (pre : List (PfCall n)) (hpre : pre <+: calls) (c : Fin n) (trap : Trap) :
    SavedIsPrior y (moduleLoad k idtAt) pre c trap := by
  have hload : HandlersRight y (fun t => gateOffset (idtAt k t.vec)) k
      (moduleLoad k idtAt : State n) :=
    ⟨coherent_moduleLoad k idtAt, fun t => ⟨Or.inl rfl, Or.inl rfl⟩⟩
  have hall {m : List (PfCall n)} (hm : m <+: calls) :=
    hrun.invariant_prefix (I := HandlersRight y (fun t => gateOffset (idtAt k t.vec)) k)
      (fun s f hs hg => hs.step (fun t => (hkernel t).1) hg.1 hg.2) hload hm
  intro hfix
  have hstart : ¬ (moduleLoad k idtAt : State n).handlerOf c trap = y.fixErrCode trap :=
    (hkernel trap).2
  obtain ⟨before, call, after, hsplit, hbefore, hafter⟩ := exists_last_entry
    (P := fun s => State.handlerOf s c trap = y.fixErrCode trap) hstart hfix
  refine ⟨before, call, after, hsplit, hbefore, hafter, ?_⟩
  have hend := hall hpre
  have hmid := hall ((hsplit ▸ List.prefix_append before (call :: after)).trans hpre)
  -- before the installation the gate held the kernel's handler
  rw [State.handlerOf, hmid.idtr] at hbefore ⊢
  rw [State.handlerOf, hend.idtr] at hfix
  have hprior := (hmid.traps trap).gate.resolve_right fun h => hbefore h.1
  rw [← State.table, hprior]
  refine ((hend.traps trap).gate.resolve_left fun h => ?_).2
  exact (hkernel trap).2 (h.symm.trans hfix)

lemma sampleIdt_handlers (t : Trap) : gateOffset (sampleIdt t.vec) ≠ 0#64 ∧
    gateOffset (sampleIdt t.vec) ≠ sampleSymbols.fixErrCode t := by
  cases t <;> decide

/-- A call whose #DF argument is wrong is rejected in the second block; the next
one is not asked for the handler that the first block saved. -/
theorem savedIsPrior_of_retry :
    SavedIsPrior sampleSymbols sampleState
      [{ samplePfCall 1 with asmExcDoubleFault := 0 }, samplePfCall 2] 0 .pf :=
  savedIsPrior_of_run sampleSymbols 0xfffffe0000000000 (fun _ => sampleIdt) sampleIdt_handlers
    [{ samplePfCall 1 with asmExcDoubleFault := 0 }, samplePfCall 2] (by decide) _
    (List.prefix_refl _) 0 .pf

/-- A call with a wrong #PF argument is rejected, but the argument stays; the
second call, with the right one, installs the entry that jumps to it. -/
theorem wrong_handler_stays_saved :
    Guarded (pfStep sampleSymbols) (fun s f => f.AllocOk s) sampleState
      [{ samplePfCall 1 with asmExcPageFault := 0xffffffff81234560 }, samplePfCall 2] ∧
    ¬ SavedIsPrior sampleSymbols sampleState
      [{ samplePfCall 1 with asmExcPageFault := 0xffffffff81234560 }, samplePfCall 2] 0 .pf := by
  refine ⟨by decide, fun h => ?_⟩
  obtain ⟨before, call, after, hsplit, _, _, hsaved⟩ := h (by decide)
  rcases before with _ | ⟨first, _ | ⟨second, rest⟩⟩
  · exact absurd hsaved (by decide)
  · simp only [List.cons_append, List.nil_append, List.cons.injEq] at hsplit
    rw [← hsplit.1] at hsaved
    exact absurd hsaved (by decide)
  · simp at hsplit

end SymbiOS.Adaptor
