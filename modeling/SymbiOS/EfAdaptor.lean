import SymbiOS.IdtAdaptor
import Mathlib.Data.Finset.Union

/-!
# Moving vectors to the exception-frame stack (`efadaptor.kc`)

`ef_adaptor_init` gives every CPU a stack page in IST7, clones the live table,
and redirects the requested vectors that do not use an IST yet to their stub in
`efasm.kS`, remembering the handler that was there. The pages that the kernel
hands out during a call are part of the call.
-/
namespace SymbiOS.Adaptor

/-- Link-time addresses of the module. -/
structure Symbols where
  efAdaptorIsrs : Addr
  efAdaptorIsrLen : Addr
  efAdaptorTsthdlrAsm : Addr
  fixErrCodeU : Addr
  fixErrCodeUw : Addr
  fixErrCodeGp : Addr

/-- The `pf_adaptor_asm_fix_err_code_` entries of the three traps. -/
def Symbols.fixErrCode (y : Symbols) : Trap → Addr
  | .pf => y.fixErrCodeU
  | .df => y.fixErrCodeUw
  | .gp => y.fixErrCodeGp

/-- The stub `ef_adaptor_isr_v`. -/
def Symbols.isr (y : Symbols) (vec : Vec) : Addr :=
  y.efAdaptorIsrs + y.efAdaptorIsrLen * BitVec.ofNat 64 vec

/-- `IST_INDEX_EF + 1`, what a gate holds to use `tss.ist[IST_INDEX_EF]`. -/
def IST_EF : BitVec 3 := 7

def KERNEL_CS : BitVec 16 := 0x10
def GATE_INTERRUPT : BitVec 5 := 0xe

/-- One call of `ef_adaptor_init`: the CPU it runs on, its arguments, the stack
page each CPU would get and the page of the clone. -/
structure EfCall (n : ℕ) where
  cpu : Fin n
  vecs : List ℤ
  vstart : ℤ
  vend : ℤ
  tsthdlr : ℤ
  stack : Fin n → Option Addr
  clone : Option Addr

variable {n : ℕ}

def efAdaptorSetupTss (stack : Fin n → Option Addr) (c : Fin n) (acc : ℤ × State n) :
    ℤ × State n :=
  if acc.2.tssIst c = 0#64 then
    match stack c with
    | none => (-ENOMEM, acc.2)
    | some efstack =>
        (acc.1, { acc.2 with
          pages := insert efstack acc.2.pages
          tssIst := Function.update acc.2.tssIst c (efstack + PAGE_SIZE) })
  else acc

/-- The entry is cleared before the address to free is computed from it. -/
def efAdaptorCleanupTss (c : Fin n) (s : State n) : State n :=
  if s.tssIst c ≠ 0#64 then
    let s := { s with tssIst := Function.update s.tssIst c 0#64 }
    freePages (s.tssIst c - PAGE_SIZE) s
  else s

/-- What `process_vec` writes: the table under construction and the handlers
saved for the stubs. -/
structure Patch where
  idt : Idt
  origIsrs : Vec → Addr

/-- The gate `process_vec` goes on with: a present gate becomes the test handler
when that was asked for. -/
def candidate (y : Symbols) (tsthdlr : ℤ) (gate : Gate) : Gate :=
  if gate.p ≠ 0#1 ∧ tsthdlr ≠ 0 then
    gateSetOffset { gate with
      segment := KERNEL_CS
      type := GATE_INTERRUPT
      ist := 0#3
      dpl := 3#2
      p := 1#1
      zero := 0#5 } y.efAdaptorTsthdlrAsm
  else gate

lemma candidate_zero (y : Symbols) (gate : Gate) : candidate y 0 gate = gate := by
  simp [candidate]

/-- `cmpxchg(slot, 0, new)`: the value found, and the value left behind. -/
def cmpxchgZero (slot new : Addr) : Addr × Addr := (slot, if slot = 0#64 then new else slot)

def processVec (y : Symbols) (tsthdlr : ℤ) (vec : Vec) (s : Patch) : ℤ × Patch :=
  let gate := candidate y tsthdlr (s.idt vec)
  let hdlr := gateOffset gate
  if gate.ist ≠ 0#3 then (0, s)
  else
    let gate := { gate with ist := IST_EF }
    let saved := cmpxchgZero (s.origIsrs vec) hdlr
    let s := { s with origIsrs := Function.update s.origIsrs vec saved.2 }
    if saved.1 ≠ 0#64 ∧ saved.1 ≠ hdlr then (-1, s)
    else (1, { s with idt := Function.update s.idt vec (gateSetOffset gate (y.isr vec)) })

/-- How the vector loops end. -/
inductive Loop
  | done (dirty : ℤ) (patch : Patch)
  | mismatch (patch : Patch)
  | fault (patch : Patch)

/-- A vector number as an index of the table, if it is one. -/
def vecIndex (v : ℤ) : Option Vec :=
  if h : 0 ≤ v ∧ v < 256 then some ⟨v.toNat, by omega⟩ else none

/-- The vector loops. A number outside the table would be read and written out
of bounds. -/
def processVecs (y : Symbols) (tsthdlr : ℤ) : List ℤ → ℤ → Patch → Loop
  | [], dirty, s => .done dirty s
  | v :: vs, dirty, s =>
      match vecIndex v with
      | none => .fault s
      | some vec =>
          let r := processVec y tsthdlr vec s
          if r.1 < 0 then .mismatch r.2 else processVecs y tsthdlr vs (dirty + r.1) r.2

/-- The numbers of the range loop, which is skipped unless the range has at
least two elements. -/
def vecRange (vstart vend : ℤ) : List ℤ :=
  if 0 ≤ vstart ∧ vstart < vend then
    (List.range (vend - vstart + 1).toNat).map fun i => vstart + (i : ℤ)
  else []

/-- The vectors in the order the two loops visit them. -/
def EfCall.vectors (e : EfCall n) : List ℤ := e.vecs ++ vecRange e.vstart e.vend

/-- The `error` label. -/
def efError (idt : Addr) (s : State n) : Outcome × State n :=
  let s := onEachCpu efAdaptorCleanupTss s
  (.ret (-EINVAL), if idt ≠ 0#64 then idtAdaptorRelease idt s else s)

def State.write (s : State n) (idt : Addr) (patch : Patch) : State n :=
  { s with idtAt := Function.update s.idtAt idt patch.idt, origIsrs := patch.origIsrs }

def efAdaptorInit (y : Symbols) (e : EfCall n) (s : State n) : Outcome × State n :=
  let setup := onEachCpu (efAdaptorSetupTss e.stack) (0, s)
  if setup.1 < 0 then efError 0#64 setup.2
  else
    let cloned := idtAdaptorClone e.cpu e.clone setup.2
    let idt := cloned.1
    let s := cloned.2
    if idt = 0#64 then
      -- the clone is not checked: any vector is read through the NULL pointer
      if e.vectors = [] then (.ret 0, idtAdaptorRelease idt s) else (.fault, s)
    else
      match processVecs y e.tsthdlr e.vectors 0 ⟨s.idtAt idt, s.origIsrs⟩ with
      | .fault patch => (.fault, s.write idt patch)
      | .mismatch patch => efError idt (s.write idt patch)
      | .done dirty patch =>
          let s := s.write idt patch
          if dirty ≠ 0 then (.ret dirty, idtAdaptorActivate idt s)
          else (.ret dirty, idtAdaptorRelease idt s)

/-- The IST entries once every CPU has run its setup. -/
def stackTops (stack : Fin n → Option Addr) (s : State n) (c : Fin n) : Addr :=
  if s.tssIst c = 0#64 then (stack c).elim 0#64 (· + PAGE_SIZE) else s.tssIst c

/-- The pages that the CPUs of a list get for their stacks. -/
def newStacks (stack : Fin n → Option Addr) (s : State n) (cpus : List (Fin n)) : Finset Addr :=
  (cpus.filter fun c => s.tssIst c = 0#64).toFinset.biUnion fun c => (stack c).toFinset

/-- Some CPU that needs a stack page gets none. -/
def SetupFails (stack : Fin n → Option Addr) (s : State n) : Prop :=
  ∃ c, s.tssIst c = 0#64 ∧ stack c = none

instance (stack : Fin n → Option Addr) (s : State n) : Decidable (SetupFails stack s) :=
  inferInstanceAs (Decidable (∃ _, _))

/-- The state after the setup: only the IST entries and the page ledger move. -/
def afterSetup (stack : Fin n → Option Addr) (s : State n) : State n :=
  { s with
    tssIst := stackTops stack s
    pages := s.pages ∪ newStacks stack s (List.finRange n) }

/-- The setup of one CPU. -/
lemma efAdaptorSetupTss_eq (stack : Fin n → Option Addr) (c : Fin n) (rc : ℤ) (s : State n) :
    efAdaptorSetupTss stack c (rc, s) =
      (if s.tssIst c = 0#64 ∧ stack c = none then -ENOMEM else rc,
        { s with
          tssIst := Function.update s.tssIst c (stackTops stack s c)
          pages := s.pages ∪ newStacks stack s [c] }) := by
  by_cases hz : s.tssIst c = 0#64
  · cases hs : stack c with
    | none =>
      have hsame : Function.update s.tssIst c 0#64 = s.tssIst := by
        rw [← hz, Function.update_eq_self]
      simp [efAdaptorSetupTss, stackTops, newStacks, hz, hs, hsame]
    | some p => simp [efAdaptorSetupTss, stackTops, newStacks, hz, hs]
  · simp [efAdaptorSetupTss, stackTops, newStacks, hz]

/-- The setup of a list of CPUs, each visited once. -/
lemma foldl_efAdaptorSetupTss (stack : Fin n → Option Addr) (cpus : List (Fin n))
    (hnd : cpus.Nodup) (rc : ℤ) (s : State n) :
    cpus.foldl (fun acc c => efAdaptorSetupTss stack c acc) (rc, s) =
      (if ∃ c ∈ cpus, s.tssIst c = 0#64 ∧ stack c = none then -ENOMEM else rc,
        { s with
          tssIst := fun c => if c ∈ cpus then stackTops stack s c else s.tssIst c
          pages := s.pages ∪ newStacks stack s cpus }) := by
  induction cpus generalizing rc s with
  | nil => simp [newStacks]
  | cons c cpus ih =>
    obtain ⟨hc, hnd⟩ := List.nodup_cons.mp hnd
    have hkeep (v : Addr) : ∀ d ∈ cpus, Function.update s.tssIst c v d = s.tssIst d := by
      intro d hd
      exact Function.update_of_ne (ne_of_mem_of_not_mem hd hc) _ _
    have hfilter (v : Addr) : (cpus.filter fun d =>
        decide (Function.update s.tssIst c v d = 0#64)) =
          cpus.filter fun d => decide (s.tssIst d = 0#64) :=
      List.filter_congr fun d hd => by rw [hkeep v d hd]
    have hfail (v : Addr) : (∃ d ∈ cpus, Function.update s.tssIst c v d = 0#64 ∧ stack d = none) ↔
        ∃ d ∈ cpus, s.tssIst d = 0#64 ∧ stack d = none :=
      exists_congr fun d => and_congr_right fun hd => by rw [hkeep v d hd]
    rw [List.foldl_cons, efAdaptorSetupTss_eq, ih hnd]
    simp only [Prod.mk.injEq, hfail]
    refine ⟨?_, ?_⟩
    · by_cases hz : s.tssIst c = 0#64 ∧ stack c = none
      · simp [hz]
      · simp [hz]
    · congr 1
      · funext d
        by_cases hd : d = c
        · subst hd; simp [hc]
        · by_cases hm : d ∈ cpus <;> simp [hd, hm, stackTops]
      · by_cases hz : s.tssIst c = 0#64
        · simp [newStacks, hfilter, hz, Finset.union_assoc]
        · simp [newStacks, hfilter, hz]

/-- The setup phase of a call. -/
lemma setup_eq (stack : Fin n → Option Addr) (s : State n) :
    onEachCpu (efAdaptorSetupTss stack) (0, s) =
      (if SetupFails stack s then -ENOMEM else 0, afterSetup stack s) := by
  rw [onEachCpu, foldl_efAdaptorSetupTss stack _ (List.nodup_finRange n)]
  by_cases h : SetupFails stack s
  · have h' : ∃ c ∈ List.finRange n, s.tssIst c = 0#64 ∧ stack c = none := by
      simpa [SetupFails] using h
    rw [if_pos h, if_pos h']
    simp [afterSetup]
  · have h' : ¬ ∃ c ∈ List.finRange n, s.tssIst c = 0#64 ∧ stack c = none := by
      simpa [SetupFails] using h
    rw [if_neg h, if_neg h']
    simp [afterSetup]

/-- Clearing one CPU. When it had a stack, the address freed is computed from
the entry that has just been cleared. -/
lemma efAdaptorCleanupTss_eq (c : Fin n) (s : State n) :
    ∃ pages frees, efAdaptorCleanupTss c s =
      { s with tssIst := Function.update s.tssIst c 0#64, pages := pages, frees := frees } := by
  by_cases hz : s.tssIst c = 0#64
  · have hsame : Function.update s.tssIst c 0#64 = s.tssIst := by
      rw [← hz, Function.update_eq_self]
    exact ⟨s.pages, s.frees, by simp [efAdaptorCleanupTss, hz, hsame]⟩
  · have hne : 0#64 - PAGE_SIZE ≠ 0#64 := by decide
    have hfree : efAdaptorCleanupTss c s =
        freePages (0#64 - PAGE_SIZE) { s with tssIst := Function.update s.tssIst c 0#64 } := by
      simp only [efAdaptorCleanupTss, ne_eq, hz, not_false_eq_true, if_true, Function.update_self]
    rw [hfree, freePages, if_neg hne]
    exact ⟨_, _, rfl⟩

/-- Clearing a list of CPUs touches nothing but their entries and the ledger. -/
lemma foldl_efAdaptorCleanupTss (cpus : List (Fin n)) (s : State n) :
    ∃ pages frees, cpus.foldl (fun s c => efAdaptorCleanupTss c s) s =
      { s with
        tssIst := fun c => if c ∈ cpus then 0#64 else s.tssIst c
        pages := pages
        frees := frees } := by
  induction cpus generalizing s with
  | nil => exact ⟨s.pages, s.frees, by simp⟩
  | cons c cpus ih =>
    obtain ⟨pages, frees, he⟩ := efAdaptorCleanupTss_eq c s
    obtain ⟨pages', frees', he'⟩ := ih (efAdaptorCleanupTss c s)
    refine ⟨pages', frees', ?_⟩
    rw [List.foldl_cons, he', he]
    congr 1
    funext d
    by_cases hd : d = c
    · subst hd; simp
    · simp [hd]

/-- The error path leaves no CPU with a stack. -/
lemma cleanup_eq (s : State n) :
    ∃ pages frees, onEachCpu efAdaptorCleanupTss s =
      { s with tssIst := fun _ => 0#64, pages := pages, frees := frees } := by
  obtain ⟨pages, frees, h⟩ := foldl_efAdaptorCleanupTss (List.finRange n) s
  exact ⟨pages, frees, by simpa [onEachCpu] using h⟩

/-- Where no CPU has a stack the clean-up does nothing. -/
lemma cleanup_of_forall_zero {s : State n} (h : ∀ c, s.tssIst c = 0#64) :
    onEachCpu efAdaptorCleanupTss s = s := by
  have hfold (cpus : List (Fin n)) :
      cpus.foldl (fun s c => efAdaptorCleanupTss c s) s = s := by
    induction cpus with
    | nil => rfl
    | cons c cpus ih => simpa [efAdaptorCleanupTss, h c] using ih
  exact hfold _

section Vectors

variable {y : Symbols} {tsthdlr : ℤ}

/-- `process_vec` rejects this vector: a different handler is already saved for
it while its gate is not on an IST. -/
def Mismatch (y : Symbols) (tsthdlr : ℤ) (s : Patch) (vec : Vec) : Prop :=
  (candidate y tsthdlr (s.idt vec)).ist = 0#3 ∧ s.origIsrs vec ≠ 0#64 ∧
    s.origIsrs vec ≠ gateOffset (candidate y tsthdlr (s.idt vec))

/-- `process_vec` saves a handler for this vector where none was saved. -/
def Records (y : Symbols) (tsthdlr : ℤ) (s : Patch) (vec : Vec) : Prop :=
  (candidate y tsthdlr (s.idt vec)).ist = 0#3 ∧ s.origIsrs vec = 0#64 ∧
    gateOffset (candidate y tsthdlr (s.idt vec)) ≠ 0#64

instance (s : Patch) (vec : Vec) : Decidable (Mismatch y tsthdlr s vec) :=
  inferInstanceAs (Decidable (_ ∧ _ ∧ _))

instance (s : Patch) (vec : Vec) : Decidable (Records y tsthdlr s vec) :=
  inferInstanceAs (Decidable (_ ∧ _ ∧ _))

/-- The gate that replaces a redirected one. -/
def redirected (y : Symbols) (tsthdlr : ℤ) (vec : Vec) (gate : Gate) : Gate :=
  gateSetOffset { candidate y tsthdlr gate with ist := IST_EF } (y.isr vec)

lemma processVec_skip {s : Patch} {vec : Vec} (h : (candidate y tsthdlr (s.idt vec)).ist ≠ 0#3) :
    processVec y tsthdlr vec s = (0, s) := by
  simp [processVec, h]

lemma processVec_mismatch {s : Patch} {vec : Vec} (h : Mismatch y tsthdlr s vec) :
    processVec y tsthdlr vec s = (-1, s) := by
  obtain ⟨hist, hne, hdiff⟩ := h
  simp [processVec, cmpxchgZero, hist, hne, hdiff]

lemma processVec_redirect {s : Patch} {vec : Vec}
    (hist : (candidate y tsthdlr (s.idt vec)).ist = 0#3) (h : ¬ Mismatch y tsthdlr s vec) :
    processVec y tsthdlr vec s =
      (1, { idt := Function.update s.idt vec (redirected y tsthdlr vec (s.idt vec))
            origIsrs := Function.update s.origIsrs vec
              (gateOffset (candidate y tsthdlr (s.idt vec))) }) := by
  by_cases hz : s.origIsrs vec = 0#64
  · simp [processVec, cmpxchgZero, hist, hz, redirected]
  · have hsame : s.origIsrs vec = gateOffset (candidate y tsthdlr (s.idt vec)) := by
      by_contra hne
      exact h ⟨hist, hz, hne⟩
    simp [processVec, cmpxchgZero, hist, hz, ← hsame, redirected]

/-- The three ways one vector can be processed. -/
lemma processVec_cases (y : Symbols) (tsthdlr : ℤ) (vec : Vec) (s : Patch) :
    (Mismatch y tsthdlr s vec ∧ processVec y tsthdlr vec s = (-1, s)) ∨
    (¬ Mismatch y tsthdlr s vec ∧ (candidate y tsthdlr (s.idt vec)).ist ≠ 0#3 ∧
      processVec y tsthdlr vec s = (0, s)) ∨
    (¬ Mismatch y tsthdlr s vec ∧ (candidate y tsthdlr (s.idt vec)).ist = 0#3 ∧
      processVec y tsthdlr vec s =
        (1, { idt := Function.update s.idt vec (redirected y tsthdlr vec (s.idt vec))
              origIsrs := Function.update s.origIsrs vec
                (gateOffset (candidate y tsthdlr (s.idt vec))) })) := by
  by_cases hm : Mismatch y tsthdlr s vec
  · exact Or.inl ⟨hm, processVec_mismatch hm⟩
  · by_cases hist : (candidate y tsthdlr (s.idt vec)).ist = 0#3
    · exact Or.inr (Or.inr ⟨hm, hist, processVec_redirect hist hm⟩)
    · exact Or.inr (Or.inl ⟨hm, hist, processVec_skip hist⟩)

/-- Processing a redirected gate once more either skips it or finds the handler
that was saved the first time. -/
lemma candidate_redirected (y : Symbols) (tsthdlr : ℤ) (vec : Vec) (gate : Gate) :
    (candidate y tsthdlr (redirected y tsthdlr vec gate)).ist ≠ 0#3 ∨
      gateOffset (candidate y tsthdlr (redirected y tsthdlr vec gate)) =
        gateOffset (candidate y tsthdlr gate) := by
  by_cases h : gate.p ≠ 0#1 ∧ tsthdlr ≠ 0
  · right
    have h' : (redirected y tsthdlr vec gate).p ≠ 0#1 ∧ tsthdlr ≠ 0 := by
      simp [redirected, candidate, h]
    rw [candidate, if_pos h', candidate, if_pos h, gateOffset_gateSetOffset,
      gateOffset_gateSetOffset]
  · left
    have hp : (redirected y tsthdlr vec gate).p = gate.p := by
      rw [redirected, gateSetOffset_p, candidate, if_neg h]
    rw [candidate, hp, if_neg h]
    simp [redirected, IST_EF]

lemma mismatch_processVec_iff {s : Patch} {vec : Vec} (h : ¬ Mismatch y tsthdlr s vec)
    (w : Vec) : Mismatch y tsthdlr (processVec y tsthdlr vec s).2 w ↔ Mismatch y tsthdlr s w := by
  rcases processVec_cases y tsthdlr vec s with ⟨hm, _⟩ | ⟨_, _, he⟩ | ⟨_, hist, he⟩
  · exact absurd hm h
  · rw [he]
  · rw [he]
    by_cases hw : w = vec
    · subst hw
      refine iff_of_false ?_ h
      rintro ⟨hi, _, hd⟩
      simp only [Function.update_self] at hi hd
      rcases candidate_redirected y tsthdlr w (s.idt w) with hc | hc
      · exact hc hi
      · exact hd hc.symm
    · simp [Mismatch, hw]

lemma records_processVec_iff {s : Patch} {vec : Vec} (h : ¬ Mismatch y tsthdlr s vec)
    (hr : ¬ Records y tsthdlr s vec) (w : Vec) :
    Records y tsthdlr (processVec y tsthdlr vec s).2 w ↔ Records y tsthdlr s w := by
  rcases processVec_cases y tsthdlr vec s with ⟨hm, _⟩ | ⟨_, _, he⟩ | ⟨_, hist, he⟩
  · exact absurd hm h
  · rw [he]
  · rw [he]
    by_cases hw : w = vec
    · subst hw
      refine iff_of_false ?_ hr
      rintro ⟨hi, hz, hd⟩
      simp only [Function.update_self] at hi hz hd
      rcases candidate_redirected y tsthdlr w (s.idt w) with hc | hc
      · exact hc hi
      · exact hd (hc.trans hz)
    · simp [Records, hw]

/-- Without a new record the saved handlers stay as they are. -/
lemma processVec_origIsrs_eq {s : Patch} {vec : Vec} (h : ¬ Mismatch y tsthdlr s vec)
    (hr : ¬ Records y tsthdlr s vec) :
    (processVec y tsthdlr vec s).2.origIsrs = s.origIsrs := by
  rcases processVec_cases y tsthdlr vec s with ⟨hm, _⟩ | ⟨_, _, he⟩ | ⟨_, hist, he⟩
  · exact absurd hm h
  · rw [he]
  · rw [he]
    have hsame : gateOffset (candidate y tsthdlr (s.idt vec)) = s.origIsrs vec := by
      by_cases hz : s.origIsrs vec = 0#64
      · rw [hz]
        by_contra hne
        exact hr ⟨hist, hz, hne⟩
      · by_contra hne
        exact h ⟨hist, hz, Ne.symm hne⟩
    simp [hsame]

/-- A saved handler is never replaced. -/
lemma processVec_origIsrs_of_ne_zero {s : Patch} {w : Vec} (hw : s.origIsrs w ≠ 0#64) (vec : Vec) :
    (processVec y tsthdlr vec s).2.origIsrs w = s.origIsrs w := by
  by_cases hm : Mismatch y tsthdlr s vec
  · rw [processVec_mismatch hm]
  · by_cases hist : (candidate y tsthdlr (s.idt vec)).ist = 0#3
    · rw [processVec_redirect hist hm]
      by_cases hv : w = vec
      · subst hv
        have hsame : s.origIsrs w = gateOffset (candidate y tsthdlr (s.idt w)) := by
          by_contra hne
          exact hm ⟨hist, hw, hne⟩
        simp [hsame]
      · simp [hv]
    · rw [processVec_skip hist]

lemma processVec_rc_neg_iff (s : Patch) (vec : Vec) :
    (processVec y tsthdlr vec s).1 < 0 ↔ Mismatch y tsthdlr s vec := by
  rcases processVec_cases y tsthdlr vec s with ⟨hm, he⟩ | ⟨hm, _, he⟩ | ⟨hm, _, he⟩
  · simp [he, hm]
  · simp [he, hm]
  · simp [he, hm]

/-- The vector is in the table, and `process_vec` does not reject it. -/
def Fine (y : Symbols) (tsthdlr : ℤ) (s : Patch) (v : ℤ) : Prop :=
  ∃ vec, vecIndex v = some vec ∧ ¬ Mismatch y tsthdlr s vec

instance (s : Patch) (v : ℤ) : Decidable (Fine y tsthdlr s v) :=
  match h : vecIndex v with
  | none => isFalse (by simp [Fine, h])
  | some vec => decidable_of_iff (¬ Mismatch y tsthdlr s vec) (by simp [Fine, h])

/-- The loop meets a vector that it must reject before it has saved a handler. -/
def StopsUnrecorded (y : Symbols) (tsthdlr : ℤ) (s : Patch) (vs : List ℤ) : Prop :=
  ∃ pre v post vec, vs = pre ++ v :: post ∧ vecIndex v = some vec ∧ Mismatch y tsthdlr s vec ∧
    ∀ u ∈ pre, ∃ w, vecIndex u = some w ∧ ¬ Mismatch y tsthdlr s w ∧ ¬ Records y tsthdlr s w

end Vectors

end SymbiOS.Adaptor
