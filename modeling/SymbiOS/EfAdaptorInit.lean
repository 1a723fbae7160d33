import SymbiOS.EfAdaptor

/-!
# Complete calls of `ef_adaptor_init`

The vector loops end in one of three ways, and which one is decided by the
state before the call: processing a vector does not change whether another one
is rejected. From that follows when a call that cannot complete leaves the
state as it found it.
-/
namespace SymbiOS.Adaptor

variable {n : ℕ} {y : Symbols} {tsthdlr : ℤ}

-- the proofs below all unfold the loop, so its equations are made here, once
attribute [grind =] processVecs

lemma fine_processVec_iff {s : Patch} {vec : Vec} (h : ¬ Mismatch y tsthdlr s vec) (v : ℤ) :
    Fine y tsthdlr (processVec y tsthdlr vec s).2 v ↔ Fine y tsthdlr s v :=
  exists_congr fun w => and_congr_right fun _ => not_congr (mismatch_processVec_iff h w)

/-- One round of the loop on a vector that is not rejected. -/
lemma processVecs_cons_of_fine {s : Patch} {v : ℤ} {vec : Vec} (hv : vecIndex v = some vec)
    (h : ¬ Mismatch y tsthdlr s vec) (vs : List ℤ) (dirty : ℤ) :
    processVecs y tsthdlr (v :: vs) dirty s =
      processVecs y tsthdlr vs (dirty + (processVec y tsthdlr vec s).1)
        (processVec y tsthdlr vec s).2 := by
  have hrc : ¬ (processVec y tsthdlr vec s).1 < 0 := fun hn =>
    h ((processVec_rc_neg_iff s vec).mp hn)
  simp only [processVecs, hv, if_neg hrc]

lemma processVecs_cons_of_mismatch {s : Patch} {v : ℤ} {vec : Vec} (hv : vecIndex v = some vec)
    (h : Mismatch y tsthdlr s vec) (vs : List ℤ) (dirty : ℤ) :
    processVecs y tsthdlr (v :: vs) dirty s = .mismatch s := by
  have hrc : (processVec y tsthdlr vec s).1 < 0 := (processVec_rc_neg_iff s vec).mpr h
  simp only [processVecs, hv, if_pos hrc]
  rw [processVec_mismatch h]

lemma processVecs_cons_of_none {v : ℤ} (hv : vecIndex v = none) (vs : List ℤ) (dirty : ℤ)
    (s : Patch) : processVecs y tsthdlr (v :: vs) dirty s = .fault s := by
  simp only [processVecs, hv]

/-- The loop runs to its end exactly on vectors that are all in order before it
starts. -/
lemma processVecs_done_iff (y : Symbols) (tsthdlr : ℤ) (vs : List ℤ) (dirty : ℤ) (s : Patch) :
    (∃ d patch, processVecs y tsthdlr vs dirty s = .done d patch) ↔
      ∀ v ∈ vs, Fine y tsthdlr s v := by
  induction vs generalizing dirty s with
  | nil => simp [processVecs]
  | cons v vs ih =>
    rw [List.forall_mem_cons]
    cases hv : vecIndex v with
    | none =>
      rw [processVecs_cons_of_none hv]
      refine iff_of_false (by simp) ?_
      rintro ⟨⟨vec, hvec, _⟩, _⟩
      simp [hv] at hvec
    | some vec =>
      by_cases hm : Mismatch y tsthdlr s vec
      · rw [processVecs_cons_of_mismatch hv hm]
        refine iff_of_false (by simp) ?_
        rintro ⟨⟨w, hw, hn⟩, _⟩
        rw [hv, Option.some.injEq] at hw
        exact hn (hw ▸ hm)
      · have hfine : Fine y tsthdlr s v := ⟨vec, hv, hm⟩
        rw [processVecs_cons_of_fine hv hm, ih]
        simp only [fine_processVec_iff hm, hfine, true_and]

/-- An invariant of single vectors is an invariant of the loop. -/
lemma processVecs_done_invariant {I : Patch → Prop}
    (hstep : ∀ vec s, I s → ¬ Mismatch y tsthdlr s vec → I (processVec y tsthdlr vec s).2)
    {vs : List ℤ} {dirty d : ℤ} {s patch : Patch} (hs : I s)
    (h : processVecs y tsthdlr vs dirty s = .done d patch) : I patch := by
  induction vs generalizing dirty s with
  | nil =>
    simp only [processVecs, Loop.done.injEq] at h
    exact h.2 ▸ hs
  | cons v vs ih =>
    cases hv : vecIndex v with
    | none => simp [processVecs_cons_of_none hv] at h
    | some vec =>
      by_cases hm : Mismatch y tsthdlr s vec
      · simp [processVecs_cons_of_mismatch hv hm] at h
      · rw [processVecs_cons_of_fine hv hm] at h
        exact ih (hstep vec s hs hm) h

/-- The count only grows, and while it has not grown nothing was written. -/
lemma processVecs_done_count {vs : List ℤ} {dirty d : ℤ} {s patch : Patch}
    (h : processVecs y tsthdlr vs dirty s = .done d patch) :
    dirty ≤ d ∧ (d = dirty → patch = s) := by
  induction vs generalizing dirty s with
  | nil =>
    simp only [processVecs, Loop.done.injEq] at h
    exact ⟨h.1.le, fun _ => h.2.symm⟩
  | cons v vs ih =>
    cases hv : vecIndex v with
    | none => simp [processVecs_cons_of_none hv] at h
    | some vec =>
      rcases processVec_cases y tsthdlr vec s with ⟨hm, _⟩ | ⟨hm, _, he⟩ | ⟨hm, _, he⟩
      · simp [processVecs_cons_of_mismatch hv hm] at h
      · rw [processVecs_cons_of_fine hv hm, he] at h
        simpa using ih h
      · rw [processVecs_cons_of_fine hv hm, he] at h
        have hgrow := (ih h).1
        exact ⟨by simp only at hgrow; omega, fun hd => by simp only at hgrow; omega⟩

/-- A handler that is saved when the loop starts is still saved when it stops. -/
lemma processVecs_mismatch_origIsrs {vs : List ℤ} {dirty : ℤ} {s patch : Patch} {w : Vec}
    (hw : s.origIsrs w ≠ 0#64) (h : processVecs y tsthdlr vs dirty s = .mismatch patch) :
    patch.origIsrs w = s.origIsrs w := by
  induction vs generalizing dirty s with
  | nil => simp [processVecs] at h
  | cons v vs ih =>
    cases hv : vecIndex v with
    | none => simp [processVecs_cons_of_none hv] at h
    | some vec =>
      by_cases hm : Mismatch y tsthdlr s vec
      · rw [processVecs_cons_of_mismatch hv hm, Loop.mismatch.injEq] at h
        rw [h]
      · rw [processVecs_cons_of_fine hv hm] at h
        have hkeep : (processVec y tsthdlr vec s).2.origIsrs w = s.origIsrs w :=
          processVec_origIsrs_of_ne_zero hw vec
        rw [ih (by rwa [hkeep]) h, hkeep]

/-- The loop stops at the first vector, or passes it without recording it and stops
later. -/
lemma stopsUnrecorded_cons_iff {s : Patch} {v : ℤ} {vs : List ℤ} :
    StopsUnrecorded y tsthdlr s (v :: vs) ↔
      ∃ vec, vecIndex v = some vec ∧ (Mismatch y tsthdlr s vec ∨
        ¬ Mismatch y tsthdlr s vec ∧ ¬ Records y tsthdlr s vec ∧
          StopsUnrecorded y tsthdlr s vs) := by
  constructor
  · rintro ⟨pre, u, post, w, he, hu, hmu, hpre⟩
    cases pre with
    | nil =>
      rw [List.nil_append, List.cons.injEq] at he
      rw [← he.1] at hu
      exact ⟨w, hu, Or.inl hmu⟩
    | cons x pre =>
      rw [List.cons_append, List.cons.injEq] at he
      obtain ⟨vec, hvec, hm, hr⟩ := hpre x List.mem_cons_self
      rw [← he.1] at hvec
      exact ⟨vec, hvec, Or.inr ⟨hm, hr, pre, u, post, w, he.2, hu, hmu, fun a ha =>
        hpre a (List.mem_cons_of_mem _ ha)⟩⟩
  · rintro ⟨vec, hvec, hm | ⟨hm, hr, pre, u, post, w, he, hu, hmu, hpre⟩⟩
    · exact ⟨[], v, vs, vec, rfl, hvec, hm, by simp⟩
    · refine ⟨v :: pre, u, post, w, by rw [he, List.cons_append], hu, hmu, ?_⟩
      exact List.forall_mem_cons.mpr ⟨⟨vec, hvec, hm, hr⟩, hpre⟩

/-- A recorded handler survives until the loop is stopped, so the saved handlers
are as before exactly when no vector before the rejected one was recorded. -/
lemma processVecs_mismatch_iff (y : Symbols) (tsthdlr : ℤ) (vs : List ℤ) (dirty : ℤ)
    (s : Patch) :
    (∃ patch, processVecs y tsthdlr vs dirty s = .mismatch patch ∧
        patch.origIsrs = s.origIsrs) ↔ StopsUnrecorded y tsthdlr s vs := by
  induction vs generalizing dirty s with
  | nil => simp [processVecs, StopsUnrecorded]
  | cons v vs ih =>
    rw [stopsUnrecorded_cons_iff]
    cases hv : vecIndex v with
    | none => simp [processVecs_cons_of_none hv]
    | some vec =>
      by_cases hm : Mismatch y tsthdlr s vec
      · simp [processVecs_cons_of_mismatch hv hm, hm]
      rw [processVecs_cons_of_fine hv hm]
      by_cases hr : Records y tsthdlr s vec
      · refine iff_of_false ?_ (by simp [hm, hr])
        rintro ⟨patch, hp, hsame⟩
        have hset : (processVec y tsthdlr vec s).2.origIsrs vec ≠ 0#64 := by
          rw [processVec_redirect hr.1 hm]
          simpa using hr.2.2
        have hlast := processVecs_mismatch_origIsrs hset hp
        rw [hsame, hr.2.1] at hlast
        exact hset hlast.symm
      · -- nothing is recorded, so the rest of the loop is judged as in the state before
        have hrest : StopsUnrecorded y tsthdlr (processVec y tsthdlr vec s).2 vs ↔
            StopsUnrecorded y tsthdlr s vs := by
          simp only [StopsUnrecorded, mismatch_processVec_iff hm, records_processVec_iff hm hr]
        rw [← processVec_origIsrs_eq hm hr, ih, hrest]
        simp [hm, hr]

/-- A page as the allocator hands it out: mapped, below the last page of the
address space, and in use by nobody else. -/
structure FreshPage (s : State n) (p : Addr) : Prop where
  ne_zero : p ≠ 0#64
  top_ne_zero : p + PAGE_SIZE ≠ 0#64
  not_owned : p ∉ s.pages
  not_loaded : ∀ c, s.idtr c ≠ p
  not_orig : s.origIdt ≠ p

instance (s : State n) (p : Addr) : Decidable (FreshPage s p) :=
  decidable_of_iff (p ≠ 0#64 ∧ p + PAGE_SIZE ≠ 0#64 ∧ p ∉ s.pages ∧ (∀ c, s.idtr c ≠ p) ∧
      s.origIdt ≠ p)
    ⟨fun ⟨h1, h2, h3, h4, h5⟩ => ⟨h1, h2, h3, h4, h5⟩, fun ⟨h1, h2, h3, h4, h5⟩ =>
      ⟨h1, h2, h3, h4, h5⟩⟩

/-- The pages of one call are fresh, and no page is handed out twice. -/
structure EfCall.AllocOk (e : EfCall n) (s : State n) : Prop where
  stack : ∀ c, ∀ p ∈ e.stack c, FreshPage s p
  stack_inj : ∀ c d, ∀ p ∈ e.stack c, p ∈ e.stack d → c = d
  clone : ∀ p ∈ e.clone, FreshPage s p
  clone_ne_stack : ∀ p ∈ e.clone, ∀ c, p ∉ e.stack c

instance (e : EfCall n) (s : State n) : Decidable (e.AllocOk s) :=
  -- the instance that would be found enumerates the addresses
  letI (o : Option Addr) : Decidable (∀ p ∈ o, FreshPage s p) := Option.decidableForallMem o
  letI (c d : Fin n) : Decidable (∀ p ∈ e.stack c, p ∈ e.stack d → c = d) :=
    Option.decidableForallMem _
  letI : Decidable (∀ p ∈ e.clone, ∀ c, p ∉ e.stack c) := Option.decidableForallMem _
  decidable_of_iff ((∀ c, ∀ p ∈ e.stack c, FreshPage s p) ∧
      (∀ c d, ∀ p ∈ e.stack c, p ∈ e.stack d → c = d) ∧
      (∀ p ∈ e.clone, FreshPage s p) ∧ ∀ p ∈ e.clone, ∀ c, p ∉ e.stack c)
    ⟨fun ⟨h1, h2, h3, h4⟩ => ⟨h1, h2, h3, h4⟩, fun ⟨h1, h2, h3, h4⟩ => ⟨h1, h2, h3, h4⟩⟩

/-- The table and the saved handlers that the vector loops start from. -/
def EfCall.patch (e : EfCall n) (s : State n) : Patch := ⟨s.idtAt (seedIdt e.cpu s), s.origIsrs⟩

/-- The state in which the vector loops start, the clone at `p`. -/
def EfCall.cloned (e : EfCall n) (p : Addr) (s : State n) : State n :=
  (idtAdaptorClone e.cpu (some p) (afterSetup e.stack s)).2

lemma efAdaptorInit_of_setupFails {e : EfCall n} {s : State n} (h : SetupFails e.stack s) :
    efAdaptorInit y e s = efError 0#64 (afterSetup e.stack s) := by
  simp [efAdaptorInit, setup_eq, h, ENOMEM]

lemma efAdaptorInit_of_clone_none {e : EfCall n} {s : State n} (h : ¬ SetupFails e.stack s)
    (hc : e.clone = none) :
    efAdaptorInit y e s =
      (if e.vectors = [] then .ret 0 else .fault, afterSetup e.stack s) := by
  simp only [efAdaptorInit, setup_eq, if_neg h, lt_irrefl, if_false, hc, idtAdaptorClone,
    if_true, idtAdaptorRelease, freePages_zero]
  split <;> rfl

lemma efAdaptorInit_of_clone {e : EfCall n} {s : State n} (h : ¬ SetupFails e.stack s)
    {p : Addr} (hc : e.clone = some p) (hp : p ≠ 0#64) :
    efAdaptorInit y e s =
      match processVecs y e.tsthdlr e.vectors 0 (e.patch s) with
      | .fault patch => (.fault, (e.cloned p s).write p patch)
      | .mismatch patch => efError p ((e.cloned p s).write p patch)
      | .done dirty patch =>
          (.ret dirty, if dirty ≠ 0 then idtAdaptorActivate p ((e.cloned p s).write p patch)
            else idtAdaptorRelease p ((e.cloned p s).write p patch)) := by
  have hseed : seedIdt e.cpu (afterSetup e.stack s) = seedIdt e.cpu s := rfl
  have hpatch : (⟨(e.cloned p s).idtAt p, (e.cloned p s).origIsrs⟩ : Patch) = e.patch s := by
    simp only [EfCall.cloned, EfCall.patch, idtAdaptorClone, Function.update_self, hseed]
    rfl
  have hclone : idtAdaptorClone e.cpu (some p) (afterSetup e.stack s) = (p, e.cloned p s) := rfl
  simp only [efAdaptorInit, setup_eq, if_neg h, lt_irrefl, if_false, hc, hclone, if_neg hp, hpatch]
  cases hloop : processVecs y e.tsthdlr e.vectors 0 (e.patch s) with
  | fault patch => rfl
  | mismatch patch => rfl
  | done dirty patch => by_cases hd : dirty = 0 <;> simp [hd]

/-- The error path, seen without the page ledger. -/
lemma efError_eq (idt : Addr) (s : State n) :
    ∃ pages frees, efError idt s =
      (.ret (-EINVAL), { s with tssIst := fun _ => 0#64, pages := pages, frees := frees }) := by
  obtain ⟨pages, frees, h⟩ := cleanup_eq s
  by_cases hz : idt = 0#64
  · exact ⟨pages, frees, by simp [efError, h, hz]⟩
  · simp only [efError, h, ne_eq, hz, not_false_eq_true, if_true, idtAdaptorRelease, freePages,
      if_false]
    exact ⟨_, _, rfl⟩

/-- A page the call needs is refused, or one of its vectors is not in the table
or is rejected. -/
def EfCall.CannotComplete (y : Symbols) (e : EfCall n) (s : State n) : Prop :=
  SetupFails e.stack s ∨ e.clone = none ∨ ∃ v ∈ e.vectors, ¬ Fine y e.tsthdlr (e.patch s) v

/-- The call fails with an error code, and the IST entries, the saved handlers
and the table in use are as they were. -/
structure EfCall.FailsAtomically (y : Symbols) (e : EfCall n) (s : State n) : Prop where
  rc : ∃ rc, (efAdaptorInit y e s).1 = .ret rc ∧ rc < 0
  tssIst : (efAdaptorInit y e s).2.tssIst = s.tssIst
  origIsrs : (efAdaptorInit y e s).2.origIsrs = s.origIsrs
  currentIdt : (efAdaptorInit y e s).2.currentIdt = s.currentIdt
  idtr : (efAdaptorInit y e s).2.idtr = s.idtr
  table : ∀ c, (efAdaptorInit y e s).2.idtAt (s.idtr c) = s.idtAt (s.idtr c)

lemma failsAtomically_of_setupFails {e : EfCall n} {s : State n} (h : SetupFails e.stack s) :
    e.FailsAtomically y s ↔ ∀ c, s.tssIst c = 0#64 := by
  obtain ⟨pages, frees, he⟩ := efError_eq 0#64 (afterSetup e.stack s)
  rw [← efAdaptorInit_of_setupFails (y := y) h] at he
  constructor
  · intro ha c
    have hist := ha.tssIst
    rw [he] at hist
    exact (congrFun hist c).symm
  · intro hz
    constructor
    · exact ⟨-EINVAL, by rw [he], by decide⟩
    · rw [he]
      exact funext fun c => (hz c).symm
    all_goals simp [he, afterSetup]

/-- Without a table the call does not report an error: it faults, or has
nothing to do. -/
lemma not_failsAtomically_of_clone_none {e : EfCall n} {s : State n}
    (h : ¬ SetupFails e.stack s) (hc : e.clone = none) : ¬ e.FailsAtomically y s := by
  intro ha
  obtain ⟨rc, hrc, hneg⟩ := ha.rc
  rw [efAdaptorInit_of_clone_none h hc] at hrc
  by_cases hv : e.vectors = []
  · simp only [hv, if_true, Outcome.ret.injEq] at hrc
    omega
  · simp [hv] at hrc

lemma failsAtomically_of_mismatch {e : EfCall n} {s : State n} (h : ¬ SetupFails e.stack s)
    {p : Addr} (hc : e.clone = some p) (hp : FreshPage s p) {patch : Patch}
    (hloop : processVecs y e.tsthdlr e.vectors 0 (e.patch s) = .mismatch patch) :
    e.FailsAtomically y s ↔ (∀ c, s.tssIst c = 0#64) ∧ patch.origIsrs = s.origIsrs := by
  obtain ⟨pages, frees, he⟩ := efError_eq p ((e.cloned p s).write p patch)
  have hcall := efAdaptorInit_of_clone (y := y) h hc hp.ne_zero
  rw [hloop] at hcall
  simp only [he] at hcall
  constructor
  · intro ha
    refine ⟨fun c => ?_, ?_⟩
    · have hist := ha.tssIst
      rw [hcall] at hist
      exact (congrFun hist c).symm
    · have horig := ha.origIsrs
      rw [hcall] at horig
      exact horig
  · rintro ⟨hz, horig⟩
    constructor
    · exact ⟨-EINVAL, by rw [hcall], by decide⟩
    · rw [hcall]
      exact funext fun c => (hz c).symm
    · rw [hcall]
      exact horig
    · rw [hcall]
      rfl
    · rw [hcall]
      rfl
    · intro c
      have hne := hp.not_loaded c
      simp [hcall, State.write, EfCall.cloned, idtAdaptorClone, afterSetup, hne]

/-- A call that cannot complete is atomic exactly when no CPU had a stack before
it, and it fails either while the stacks are set up or, with its table, at a
vector it rejects before it has saved a handler. -/
theorem efAdaptorInit_failsAtomically_iff (y : Symbols) (e : EfCall n) (s : State n)
    (halloc : e.AllocOk s) (hfail : e.CannotComplete y s) :
    e.FailsAtomically y s ↔
      (∀ c, s.tssIst c = 0#64) ∧
        (SetupFails e.stack s ∨
          e.clone ≠ none ∧ StopsUnrecorded y e.tsthdlr (e.patch s) e.vectors) := by
  by_cases hset : SetupFails e.stack s
  · simp [failsAtomically_of_setupFails hset, hset]
  · cases hc : e.clone with
    | none => simp [not_failsAtomically_of_clone_none hset hc, hset]
    | some p =>
      have hp := halloc.clone p hc
      have hstops := processVecs_mismatch_iff y e.tsthdlr e.vectors 0 (e.patch s)
      simp only [hset, false_or, ne_eq, reduceCtorEq, not_false_eq_true, true_and, ← hstops]
      cases hloop : processVecs y e.tsthdlr e.vectors 0 (e.patch s) with
      | done d patch =>
        have hall := (processVecs_done_iff y e.tsthdlr e.vectors 0 (e.patch s)).mp ⟨d, patch, hloop⟩
        rcases hfail with hs | hn | ⟨v, hv, hbad⟩
        · exact absurd hs hset
        · rw [hc] at hn
          cases hn
        · exact absurd (hall v hv) hbad
      | fault patch =>
        refine iff_of_false (fun ha => ?_) (by simp)
        obtain ⟨rc, hrc, _⟩ := ha.rc
        rw [efAdaptorInit_of_clone hset hc hp.ne_zero, hloop] at hrc
        cases hrc
      | mismatch patch =>
        rw [failsAtomically_of_mismatch hset hc hp hloop]
        simp [EfCall.patch]

def sampleSymbols : Symbols where
  efAdaptorIsrs := 0xffffffffc0002000
  efAdaptorIsrLen := 0x20
  efAdaptorTsthdlrAsm := 0xffffffffc0001000
  fixErrCodeU := 0xffffffffc0004000
  fixErrCodeUw := 0xffffffffc0004100
  fixErrCodeGp := 0xffffffffc0004200

/-- A table with one handler for each vector, and #DF on its own IST. -/
def sampleIdt : Idt := fun vec =>
  gateSetOffset
    { offsetLow := 0, segment := KERNEL_CS, ist := if vec = Trap.df.vec then 1 else 0, zero := 0
      type := GATE_INTERRUPT, dpl := 0, p := 1, offsetMiddle := 0, offsetHigh := 0, reserved := 0 }
    (0xffffffff82000000 + 0x10 * BitVec.ofNat 64 vec)

lemma sampleIdt_ist (vec : Vec) : (sampleIdt vec).ist ≠ IST_EF := by
  by_cases h : vec = Trap.df.vec <;> simp [sampleIdt, h, IST_EF]

/-- Two CPUs and the kernel's table, before any call. -/
def sampleState : State 2 := moduleLoad 0xfffffe0000000000 fun _ => sampleIdt

def samplePage (k : ℕ) : Addr := 0xffff888000000000 + PAGE_SIZE * BitVec.ofNat 64 k

/-- A call for one vector that gets the pages from number `k` on. -/
def sampleCall (v tsthdlr : ℤ) (k : ℕ) : EfCall 2 where
  cpu := 0
  vecs := [v]
  vstart := -1
  vend := -1
  tsthdlr := tsthdlr
  stack := ![some (samplePage k), some (samplePage (k + 1))]
  clone := some (samplePage (k + 2))

/-- The first call put vector 3 on its stub. -/
def sampleInstalled : State 2 :=
  (efAdaptorInit sampleSymbols (sampleCall 3 0 1) sampleState).2

example : (sampleInstalled.idtAt (sampleInstalled.idtr 0) 3).ist = IST_EF := by decide

/-- A first call that gets a stack page on one CPU only changes nothing. -/
theorem failsAtomically_of_missing_stack :
    EfCall.FailsAtomically sampleSymbols
      { sampleCall 3 0 1 with stack := ![some (samplePage 1), none] } sampleState := by
  have hfails : SetupFails ![some (samplePage 1), none] sampleState := by decide
  exact (efAdaptorInit_failsAtomically_iff sampleSymbols
    { sampleCall 3 0 1 with stack := ![some (samplePage 1), none] } sampleState
    (by decide) (Or.inl hfails)).mpr ⟨by decide, Or.inl hfails⟩

/-- A call that asks for the test handler on a vector that is already on its stub
is rejected, and takes the stacks of the first call away. -/
theorem rejected_call_clears_stacks :
    (sampleCall 3 1 4).AllocOk sampleInstalled ∧
    (sampleCall 3 1 4).CannotComplete sampleSymbols sampleInstalled ∧
    ¬ (sampleCall 3 1 4).FailsAtomically sampleSymbols sampleInstalled := by
  refine ⟨by decide, Or.inr (Or.inr ⟨3, by decide, by decide⟩), fun h => ?_⟩
  have hlost : (efAdaptorInit sampleSymbols (sampleCall 3 1 4) sampleInstalled).2.tssIst 0 ≠
      sampleInstalled.tssIst 0 := by decide
  exact hlost (congrFun h.tssIst 0)

end SymbiOS.Adaptor
