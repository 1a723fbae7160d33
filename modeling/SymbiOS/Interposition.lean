import SymbiOS.SavedHandlers

/-!
# The chain from a gate to the kernel's handler

A gate of the table in use leads to the kernel's handler directly, through a
fault adaptor, through a stub, or through a stub and then a fault adaptor. The
saved handlers of both adaptors are the links. With the right arguments no order
of the calls ever makes a longer chain or loses its end.
-/
namespace SymbiOS.Adaptor
open SymbiOS.GuardedRun

variable {n : ℕ} {y : Symbols} {k : Addr} {s : State n} {kernel : Vec → Addr}

/-- The module's entries are pairwise different, and none of them is a handler of
the kernel. -/
structure Symbols.Laid (y : Symbols) (kernel : Vec → Addr) : Prop where
  isr_injective : Function.Injective y.isr
  fix_injective : Function.Injective y.fixErrCode
  isr_ne_fix : ∀ vec trap, y.isr vec ≠ y.fixErrCode trap
  kernel_ne_isr : ∀ vec w, kernel vec ≠ y.isr w
  kernel_ne_fix : ∀ vec trap, kernel vec ≠ y.fixErrCode trap

/-- Where the code at an address goes on: the stub of a vector to the handler
saved for it, a fault adaptor to the handler saved for its trap. (The #DF adaptor
turns the double faults of an elevated task into page faults; that is not a hop
to the handler it stands in for.) -/
def hop (y : Symbols) (s : State n) (addr : Addr) : Option Addr :=
  match (List.finRange 256).find? fun vec => y.isr vec = addr with
  | some vec => some (s.origIsrs vec)
  | none =>
      match [Trap.pf, .df, .gp].find? fun trap => y.fixErrCode trap = addr with
      | some trap => some (s.exc trap)
      | none => none

/-- The address after a number of hops. -/
def follow (y : Symbols) (s : State n) : ℕ → Addr → Option Addr
  | 0, addr => some addr
  | m + 1, addr => (hop y s addr).bind (follow y s m)

lemma hop_isr (hl : y.Laid kernel) (s : State n) (vec : Vec) :
    hop y s (y.isr vec) = some (s.origIsrs vec) := by
  have hfind : (List.finRange 256).find? (fun w => y.isr w = y.isr vec) = some vec := by
    cases hf : (List.finRange 256).find? (fun w => y.isr w = y.isr vec) with
    | none => simpa using List.find?_eq_none.mp hf vec (List.mem_finRange vec)
    | some w =>
      have hw : y.isr w = y.isr vec := by simpa using List.find?_some hf
      rw [hl.isr_injective hw]
  simp only [hop, hfind]

lemma hop_fixErrCode (hl : y.Laid kernel) (s : State n) (trap : Trap) :
    hop y s (y.fixErrCode trap) = some (s.exc trap) := by
  have hno : (List.finRange 256).find? (fun w => y.isr w = y.fixErrCode trap) = none :=
    List.find?_eq_none.mpr fun w _ => by simpa using hl.isr_ne_fix w trap
  have hfind : [Trap.pf, .df, .gp].find? (fun t => y.fixErrCode t = y.fixErrCode trap) =
      some trap := by
    cases hf : [Trap.pf, .df, .gp].find? (fun t => y.fixErrCode t = y.fixErrCode trap) with
    | none => simpa using List.find?_eq_none.mp hf trap (by cases trap <;> simp)
    | some t =>
      have ht : y.fixErrCode t = y.fixErrCode trap := by simpa using List.find?_some hf
      rw [hl.fix_injective ht]
  simp only [hop, hno, hfind]

/-- The kernel's handlers are where a chain ends. -/
lemma hop_kernel (hl : y.Laid kernel) (s : State n) (vec : Vec) : hop y s (kernel vec) = none := by
  have hno : (List.finRange 256).find? (fun w => y.isr w = kernel vec) = none :=
    List.find?_eq_none.mpr fun w _ => by simpa using (hl.kernel_ne_isr vec w).symm
  have hno' : [Trap.pf, .df, .gp].find? (fun t => y.fixErrCode t = kernel vec) = none :=
    List.find?_eq_none.mpr fun t _ => by simpa using (hl.kernel_ne_fix vec t).symm
  simp only [hop, hno, hno']

/-- The address is the kernel's handler of the vector, or the fault adaptor of it
with that handler saved. -/
def Base (y : Symbols) (kernel : Vec → Addr) (exc : Trap → Addr) (vec : Vec) (addr : Addr) : Prop :=
  addr = kernel vec ∨
    ∃ trap : Trap, vec = trap.vec ∧ addr = y.fixErrCode trap ∧ exc trap = kernel vec

/-- The gate of a vector is not redirected, and if it could be then nothing is
saved for it; or it leads to its stub, and what is saved for that is the rest of
the chain. -/
def Chained (y : Symbols) (kernel : Vec → Addr) (exc : Trap → Addr) (patch : Patch) (vec : Vec) :
    Prop :=
  (Base y kernel exc vec (gateOffset (patch.idt vec)) ∧
    ((patch.idt vec).ist = 0#3 → patch.origIsrs vec = 0#64)) ∨
  (gateOffset (patch.idt vec) = y.isr vec ∧ (patch.idt vec).ist = IST_EF ∧
    Base y kernel exc vec (patch.origIsrs vec))

/-- A chained vector is never rejected. -/
lemma Chained.not_mismatch {exc : Trap → Addr} {patch : Patch} {vec : Vec}
    (h : Chained y kernel exc patch vec) : ¬ Mismatch y 0 patch vec := by
  rintro ⟨hist, hsaved, _⟩
  rw [candidate_zero] at hist
  rcases h with ⟨_, hz⟩ | ⟨_, hef, _⟩
  · exact hsaved (hz hist)
  · rw [hist] at hef
    exact absurd hef (by decide)

/-- Redirecting a vector makes its chain one hop longer. -/
lemma chained_processVec {exc : Trap → Addr} {patch : Patch}
    (h : ∀ v, Chained y kernel exc patch v) (vec v : Vec) :
    Chained y kernel exc (processVec y 0 vec patch).2 v := by
  have hm := (h vec).not_mismatch
  rcases processVec_cases y 0 vec patch with ⟨hbad, _⟩ | ⟨_, _, he⟩ | ⟨_, hist, he⟩
  · exact absurd hbad hm
  · rw [he]
    exact h v
  · rw [he]
    by_cases hv : v = vec
    · subst hv
      rw [candidate_zero] at hist
      rcases h v with ⟨hbase, _⟩ | ⟨_, hef, _⟩
      · right
        refine ⟨by simp [redirected], by simp [redirected], ?_⟩
        simpa [candidate_zero] using hbase
      · rw [hist] at hef
        exact absurd hef (by decide)
    · simpa [Chained, hv] using h v

/-- A handler that is saved more changes no chain. -/
lemma Chained.mono {exc exc' : Trap → Addr} {patch : Patch} {vec : Vec}
    (h : Chained y kernel exc patch vec)
    (hexc : ∀ t : Trap, exc' t = exc t ∨ exc' t = kernel t.vec) :
    Chained y kernel exc' patch vec := by
  have hbase {a : Addr} (hb : Base y kernel exc vec a) : Base y kernel exc' vec a := by
    refine hb.imp id ?_
    rintro ⟨t, rfl, ha, hk⟩
    exact ⟨t, rfl, ha, (hexc t).elim (fun heq => heq.trans hk) id⟩
  exact h.imp (fun hb => ⟨hbase hb.1, hb.2⟩) fun hb => ⟨hb.1, hb.2.1, hbase hb.2.2⟩

/-- What holds between the blocks of `pf_adaptor_init`. -/
structure PfChained (y : Symbols) (kernel : Vec → Addr) (origIsrs : Vec → Addr) (p : PfPatch) :
    Prop where
  chained : ∀ v, Chained y kernel p.exc ⟨p.idt, origIsrs⟩ v
  saved : ∀ t : Trap, p.exc t = 0#64 ∨ p.exc t = kernel t.vec

lemma saveHandler_exc (trap : Trap) (handler : Addr) (p : PfPatch) (t : Trap) :
    (saveHandler trap handler p).exc t = p.exc t ∨
      t = trap ∧ (saveHandler trap handler p).exc t = handler := by
  by_cases ht : t = trap
  · subst ht
    by_cases hz : p.exc t = 0#64
    · exact Or.inr ⟨rfl, saveHandler_exc_self hz handler⟩
    · exact Or.inl (saveHandler_exc_of_ne_zero hz t handler)
  · exact Or.inl (saveHandler_exc_other ht handler p)

lemma PfChained.saveHandler {origIsrs : Vec → Addr} {p : PfPatch}
    (h : PfChained y kernel origIsrs p) (trap : Trap) :
    PfChained y kernel origIsrs (saveHandler trap (kernel trap.vec) p) ∧
      (saveHandler trap (kernel trap.vec) p).exc trap = kernel trap.vec := by
  have hexc (t : Trap) : (Adaptor.saveHandler trap (kernel trap.vec) p).exc t = p.exc t ∨
      (Adaptor.saveHandler trap (kernel trap.vec) p).exc t = kernel t.vec :=
    (saveHandler_exc trap _ p t).imp id fun ⟨ht, he⟩ => ht ▸ he
  refine ⟨⟨fun v => ?_, fun t => ?_⟩, ?_⟩
  · rw [saveHandler_idt]
    exact (h.chained v).mono hexc
  · exact (hexc t).elim (fun heq => heq ▸ h.saved t) Or.inr
  · by_cases hz : p.exc trap = 0#64
    · exact saveHandler_exc_self hz _
    · rw [saveHandler_exc_of_ne_zero hz]
      exact (h.saved trap).resolve_left hz

/-- The adaptor's entry takes the place of the kernel's handler in the gate. -/
lemma PfChained.installFix (hl : y.Laid kernel) {origIsrs : Vec → Addr} {p q : PfPatch}
    {trap : Trap}
    (h : PfChained y kernel origIsrs p) (hsaved : p.exc trap = kernel trap.vec)
    (hq : installFix y trap (kernel trap.vec) p = some q) : PfChained y kernel origIsrs q := by
  simp only [Adaptor.installFix] at hq
  split at hq
  · split at hq
    · cases hq
    · cases hq
      exact h
  · rename_i hval
    cases hq
    refine ⟨fun v => ?_, h.saved⟩
    by_cases hv : v = trap.vec
    · subst hv
      rcases h.chained trap.vec with ⟨_, hz⟩ | ⟨hstub, _⟩
      · left
        refine ⟨Or.inr ⟨trap, rfl, by simp, hsaved⟩, ?_⟩
        simpa using hz
      · exact absurd ((not_not.mp hval).symm.trans hstub) (hl.kernel_ne_isr _ _)
    · simpa [Chained, hv] using h.chained v

lemma PfChained.fixTraps (hl : y.Laid kernel) {origIsrs : Vec → Addr} {f : PfCall n}
    (hf : ∀ t, f.handler t = kernel t.vec) (traps : List Trap) {p : PfPatch}
    (h : PfChained y kernel origIsrs p) : PfChained y kernel origIsrs (fixTraps y f traps p).2 := by
  induction traps generalizing p with
  | nil => exact h
  | cons trap traps ih =>
    obtain ⟨hsave, hsaved⟩ := h.saveHandler trap
    simp only [Adaptor.fixTraps, hf]
    cases hq : Adaptor.installFix y trap (kernel trap.vec)
        (Adaptor.saveHandler trap (kernel trap.vec) p) with
    | none => exact hsave
    | some q => exact ih (hsave.installFix hl hsaved hq)

/-- Only arguments are saved. -/
lemma fixTraps_exc {f : PfCall n} (traps : List Trap) (p : PfPatch) (t : Trap) :
    (fixTraps y f traps p).2.exc t = p.exc t ∨ (fixTraps y f traps p).2.exc t = f.handler t := by
  induction traps generalizing p with
  | nil => exact Or.inl rfl
  | cons trap traps ih =>
    have hsave : (saveHandler trap (f.handler trap) p).exc t = p.exc t ∨
        (saveHandler trap (f.handler trap) p).exc t = f.handler t :=
      (saveHandler_exc trap _ p t).imp id fun ⟨ht, he⟩ => ht ▸ he
    simp only [fixTraps]
    cases hq : installFix y trap (f.handler trap) (saveHandler trap (f.handler trap) p) with
    | none => exact hsave
    | some q =>
      rcases ih q with heq | heq
      · rw [heq, (installFix_other hq).1]
        exact hsave
      · exact Or.inr heq

/-- The calls of the runs: `ef_adaptor_init` for vectors of the table and without
the test handler, `pf_adaptor_init` with the kernel's handlers, and every page
they ask for is handed out. -/
def Call.Regular (kernel : Vec → Addr) (s : State n) : Call n → Prop
  | .ef e => e.tsthdlr = 0 ∧ (∀ v ∈ e.vectors, 0 ≤ v ∧ v < 256) ∧ ¬ SetupFails e.stack s ∧
      e.clone ≠ none
  | .pf f => f.asmExcPageFault = kernel Trap.pf.vec ∧ f.asmExcDoubleFault = kernel Trap.df.vec ∧
      f.asmExcGeneralProtection = kernel Trap.gp.vec ∧ f.clone ≠ none

instance (s : State n) : (call : Call n) → Decidable (call.Regular kernel s)
  | .ef _ => inferInstanceAs (Decidable (_ ∧ _ ∧ _ ∧ _))
  | .pf _ => inferInstanceAs (Decidable (_ ∧ _ ∧ _ ∧ _))

/-- Every gate of the table in use starts a chain to the kernel's handler. -/
structure ChainsRight (y : Symbols) (kernel : Vec → Addr) (k : Addr) (s : State n) : Prop
    extends Coherent k s where
  chains : PfChained y kernel s.origIsrs ⟨s.table k, s.exc, false⟩

lemma vecIndex_of_mem {v : ℤ} (h : 0 ≤ v ∧ v < 256) : ∃ vec, vecIndex v = some vec :=
  ⟨_, dif_pos h⟩

lemma ChainsRight.efAdaptorInit (h : ChainsRight y kernel k s) {e : EfCall n} (ha : e.AllocOk s)
    (hr : (Call.ef e).Regular kernel s) : ChainsRight y kernel k (efAdaptorInit y e s).2 := by
  obtain ⟨htst, hvecs, hset, hclone⟩ := hr
  obtain ⟨hco, hexc, hview⟩ := efAdaptorInit_view y h.toCoherent ha
  have hfine : ∀ v ∈ e.vectors, Fine y 0 ⟨s.table k, s.origIsrs⟩ v := by
    intro v hv
    obtain ⟨vec, hvec⟩ := vecIndex_of_mem (hvecs v hv)
    exact ⟨vec, hvec, (h.chains.chained vec).not_mismatch⟩
  obtain ⟨d, patch, hloop⟩ :=
    (processVecs_done_iff y 0 e.vectors 0 ⟨s.table k, s.origIsrs⟩).mpr hfine
  have hpatch : ∀ v, Chained y kernel s.exc patch v :=
    processVecs_done_invariant (I := fun patch => ∀ v, Chained y kernel s.exc patch v)
      (fun vec p hp _ => chained_processVec hp vec) h.chains.chained hloop
  rcases hview with ⟨hfail | hnone, _⟩ | ⟨_, _, hend⟩
  · exact absurd hfail hset
  · exact absurd hnone hclone
  · rw [htst, hloop] at hend
    refine ⟨hco, fun v => ?_, ?_⟩
    · rw [hend.1, hend.2, hexc]
      exact hpatch v
    · rw [hexc]
      exact h.chains.saved

lemma ChainsRight.pfAdaptorInit (hl : y.Laid kernel) (h : ChainsRight y kernel k s) {f : PfCall n}
    (ha : f.AllocOk s) (hr : (Call.pf f).Regular kernel s) :
    ChainsRight y kernel k (pfAdaptorInit y f s).2 := by
  obtain ⟨hpf, hdf, hgp, hclone⟩ := hr
  have hf (t : Trap) : f.handler t = kernel t.vec := by
    cases t with
    | pf => exact hpf
    | df => exact hdf
    | gp => exact hgp
  obtain ⟨hco, horig, hview⟩ := pfAdaptorInit_view y h.toCoherent ha
  have hfixed := h.chains.fixTraps hl hf [.pf, .df, .gp]
  rcases hview with ⟨hnone, _⟩ | ⟨_, hexc, ⟨_, htable⟩ | htable⟩
  · exact absurd hnone hclone
  · refine ⟨hco, fun v => ?_, ?_⟩
    · rw [htable, horig, hexc]
      exact hfixed.chained v
    · rw [hexc]
      exact hfixed.saved
  · refine ⟨hco, fun v => ?_, ?_⟩
    · rw [htable, horig, hexc]
      refine (h.chains.chained v).mono fun t => ?_
      exact (fixTraps_exc _ _ t).imp id fun heq => heq.trans (hf t)
    · rw [hexc]
      exact hfixed.saved

lemma ChainsRight.step (hl : y.Laid kernel) (h : ChainsRight y kernel k s) {call : Call n}
    (ha : call.AllocOk s) (hr : call.Regular kernel s) :
    ChainsRight y kernel k (call.step y s) := by
  cases call with
  | ef e => exact h.efAdaptorInit ha hr
  | pf f => exact h.pfAdaptorInit hl ha hr

/-- The rest of a chain behind a stub. -/
lemma Base.follow (hl : y.Laid kernel) {vec : Vec} {addr : Addr}
    (h : Base y kernel s.exc vec addr) : ∃ m ≤ 1, follow y s m addr = some (kernel vec) := by
  rcases h with rfl | ⟨t, _, rfl, hsaved⟩
  · exact ⟨0, by omega, rfl⟩
  · refine ⟨1, le_rfl, ?_⟩
    rw [Adaptor.follow, hop_fixErrCode hl, Option.bind_some, Adaptor.follow, hsaved]

lemma Chained.follow (hl : y.Laid kernel) {idt : Idt} {vec : Vec}
    (h : Chained y kernel s.exc ⟨idt, s.origIsrs⟩ vec) :
    ∃ m ≤ 2, follow y s m (gateOffset (idt vec)) = some (kernel vec) := by
  rcases h with ⟨hbase, _⟩ | ⟨hstub, _, hbase⟩
  · obtain ⟨m, hm, he⟩ := hbase.follow hl
    exact ⟨m, by omega, he⟩
  · obtain ⟨m, hm, he⟩ := hbase.follow hl
    refine ⟨m + 1, by omega, ?_⟩
    change gateOffset (idt vec) = y.isr vec at hstub
    rw [hstub, Adaptor.follow, hop_isr hl, Option.bind_some]
    exact he

/-- In every state reached by regular calls of both adaptors in any order, and on
every CPU, at most two hops lead from the gate of a vector to the handler that the
kernel's table has for it, and there the chain ends. -/
theorem chain_ends_at_kernel (y : Symbols) (k : Addr) (idtAt : Addr → Idt)
    (hl : y.Laid fun vec => gateOffset (idtAt k vec)) (calls : List (Call n))
    (hrun : Guarded (Call.step y)
      (fun s call => call.AllocOk s ∧ call.Regular (fun vec => gateOffset (idtAt k vec)) s)
      (moduleLoad k idtAt) calls)
    (pre : List (Call n)) (hpre : pre <+: calls) (c : Fin n) (vec : Vec) :
    let s := runFrom (Call.step y) (moduleLoad k idtAt) pre
    (∃ m ≤ 2, follow y s m (gateOffset (s.idtAt (s.idtr c) vec)) =
      some (gateOffset (idtAt k vec))) ∧ hop y s (gateOffset (idtAt k vec)) = none := by
  intro s
  have hload : ChainsRight y (fun vec => gateOffset (idtAt k vec)) k
      (moduleLoad k idtAt : State n) :=
    ⟨coherent_moduleLoad k idtAt, fun _ => Or.inl ⟨Or.inl rfl, fun _ => rfl⟩,
      fun _ => Or.inl rfl⟩
  have hend : ChainsRight y (fun vec => gateOffset (idtAt k vec)) k s :=
    hrun.invariant_prefix (fun s call hs hg => hs.step hl hg.1 hg.2) hload hpre
  refine ⟨?_, hop_kernel hl s vec⟩
  rw [hend.idtr c]
  exact (hend.chains.chained vec).follow hl

lemma sampleSymbols_laid : sampleSymbols.Laid fun vec => gateOffset (sampleIdt vec) where
  isr_injective v w h := by
    apply Fin.ext
    simp only [Symbols.isr, sampleSymbols] at h
    bv_omega
  fix_injective a b h := by
    cases a <;> cases b <;> first | rfl | exact absurd h (by decide)
  isr_ne_fix v t h := by
    cases t <;> simp only [Symbols.isr, Symbols.fixErrCode, sampleSymbols] at h <;> bv_omega
  kernel_ne_isr v w h := by
    simp only [sampleIdt, gateOffset_gateSetOffset, Symbols.isr, sampleSymbols] at h
    bv_omega
  kernel_ne_fix v t h := by
    simp only [sampleIdt, gateOffset_gateSetOffset] at h
    cases t <;> simp only [Symbols.fixErrCode, sampleSymbols] at h <;> bv_omega

/-- The page-fault gate with both adaptors on it. -/
theorem chain_ends_at_kernel_page_fault :
    let s := runFrom (Call.step sampleSymbols) sampleState
      [.pf (samplePfCall 1), .ef (sampleCall 14 0 2)]
    (∃ m ≤ 2, follow sampleSymbols s m (gateOffset (s.idtAt (s.idtr 0) 14)) =
      some (gateOffset (sampleIdt 14))) ∧ hop sampleSymbols s (gateOffset (sampleIdt 14)) = none :=
  chain_ends_at_kernel sampleSymbols 0xfffffe0000000000 (fun _ => sampleIdt) sampleSymbols_laid
    [.pf (samplePfCall 1), .ef (sampleCall 14 0 2)] (by decide) _ (List.prefix_refl _) 0 14

end SymbiOS.Adaptor
