import SymbiOS.AdaptorRuns

/-!
# The table that a completed call leaves

The two vector loops write gate after gate, and a vector may come more than once. What
they leave in the end is told vector by vector from the table they started with: a gate
that they visit and whose candidate uses no IST has been redirected, any other gate is
as it was. The questions about a completed call are then questions about single gates.
-/
namespace SymbiOS.Adaptor

variable {n : ℕ} {y : Symbols} {tsthdlr : ℤ} {k : Addr} {s : State n} {e : EfCall n}

/-- The vector is among the numbers that the loops visit. -/
def Visits (vs : List ℤ) (vec : Vec) : Prop := ((vec : ℕ) : ℤ) ∈ vs

instance (vs : List ℤ) (vec : Vec) : Decidable (Visits vs vec) :=
  inferInstanceAs (Decidable (_ ∈ _))

lemma vecIndex_eq_some_iff {v : ℤ} {vec : Vec} : vecIndex v = some vec ↔ v = ((vec : ℕ) : ℤ) := by
  unfold vecIndex
  split
  · rw [Option.some.injEq, Fin.ext_iff]
    show v.toNat = (vec : ℕ) ↔ _
    omega
  · rename_i hout
    have hlt := vec.isLt
    refine iff_of_false (by simp) ?_
    rintro rfl
    omega

lemma visits_cons_iff {v : ℤ} {vec : Vec} (hv : vecIndex v = some vec) (vs : List ℤ) (w : Vec) :
    Visits (v :: vs) w ↔ w = vec ∨ Visits vs w := by
  unfold Visits
  rw [List.mem_cons, vecIndex_eq_some_iff.mp hv, Nat.cast_inj, Fin.ext_iff]

/-- A gate is redirected once: a second visit writes the same gate again or skips it. -/
lemma redirected_redirected (gate : Gate) (vec : Vec)
    (h : (candidate y tsthdlr (redirected y tsthdlr vec gate)).ist = 0#3) :
    redirected y tsthdlr vec (redirected y tsthdlr vec gate) = redirected y tsthdlr vec gate := by
  by_cases hp : gate.p ≠ 0#1 ∧ tsthdlr ≠ 0
  · simp [redirected, candidate, gateSetOffset, hp]
  · exfalso
    have hsame : (redirected y tsthdlr vec gate).p = gate.p := by
      rw [redirected, gateSetOffset_p, candidate, if_neg hp]
    rw [candidate, hsame, if_neg hp] at h
    simp [redirected, IST_EF] at h

/-- The loops redirect this gate. -/
def Redirects (y : Symbols) (tsthdlr : ℤ) (vs : List ℤ) (s : Patch) (vec : Vec) : Prop :=
  Visits vs vec ∧ (candidate y tsthdlr (s.idt vec)).ist = 0#3

instance (vs : List ℤ) (s : Patch) (vec : Vec) : Decidable (Redirects y tsthdlr vs s vec) :=
  inferInstanceAs (Decidable (_ ∧ _))

/-- A vector that is skipped makes no difference. -/
lemma redirects_cons_of_skip {v : ℤ} {vec : Vec} {s : Patch} (hv : vecIndex v = some vec)
    (hist : (candidate y tsthdlr (s.idt vec)).ist ≠ 0#3) (vs : List ℤ) (w : Vec) :
    Redirects y tsthdlr (v :: vs) s w ↔ Redirects y tsthdlr vs s w := by
  unfold Redirects
  rw [visits_cons_iff hv]
  constructor
  · rintro ⟨rfl | hw, hz⟩
    · exact absurd hz hist
    · exact ⟨hw, hz⟩
  · rintro ⟨hw, hz⟩
    exact ⟨Or.inr hw, hz⟩

/-- Another vector is not affected by a gate that is written. -/
lemma redirects_cons_of_ne {v : ℤ} {vec w : Vec} {s : Patch} (hv : vecIndex v = some vec)
    (hw : w ≠ vec) (vs : List ℤ) (gate : Gate) (origIsrs : Vec → Addr) :
    Redirects y tsthdlr vs ⟨Function.update s.idt vec gate, origIsrs⟩ w ↔
      Redirects y tsthdlr (v :: vs) s w := by
  unfold Redirects
  rw [visits_cons_iff hv, or_iff_right hw]
  simp only [Function.update_of_ne hw]

/-- What complete loops leave for one vector. -/
lemma processVecs_done_apply {vs : List ℤ} {dirty d : ℤ} {s patch : Patch}
    (h : processVecs y tsthdlr vs dirty s = .done d patch) (w : Vec) :
    patch.idt w =
        (if Redirects y tsthdlr vs s w then redirected y tsthdlr w (s.idt w) else s.idt w) ∧
      patch.origIsrs w =
        (if Redirects y tsthdlr vs s w then gateOffset (candidate y tsthdlr (s.idt w))
          else s.origIsrs w) := by
  induction vs generalizing dirty s with
  | nil =>
    simp only [processVecs, Loop.done.injEq] at h
    simp [Redirects, Visits, h.2]
  | cons v vs ih =>
    cases hv : vecIndex v with
    | none => simp [processVecs_cons_of_none hv] at h
    | some vec =>
      rcases processVec_cases y tsthdlr vec s with ⟨hm, -⟩ | ⟨hm, hist, he⟩ | ⟨hm, hist, he⟩
      · simp [processVecs_cons_of_mismatch hv hm] at h
      · rw [processVecs_cons_of_fine hv hm, he] at h
        simp only [redirects_cons_of_skip hv hist]
        exact ih h
      · rw [processVecs_cons_of_fine hv hm, he] at h
        have hrest := ih h
        by_cases hw : w = vec
        · subst hw
          have hnow : Redirects y tsthdlr (v :: vs) s w :=
            ⟨(visits_cons_iff hv vs w).mpr (Or.inl rfl), hist⟩
          rw [if_pos hnow, if_pos hnow]
          simp only [Function.update_self] at hrest
          split at hrest
          · rename_i hagain
            -- the gate is visited again and its candidate still uses no IST
            have hist' := hagain.2
            simp only [Function.update_self] at hist'
            have hsaved := (candidate_redirected y tsthdlr w (s.idt w)).resolve_left
              (not_not.mpr hist')
            rw [redirected_redirected _ _ hist', hsaved] at hrest
            exact hrest
          · exact hrest
        · simpa only [redirects_cons_of_ne hv hw, Function.update_of_ne hw] using hrest

/-- The gates that the loops redirect. -/
def redirects (y : Symbols) (tsthdlr : ℤ) (vs : List ℤ) (s : Patch) : Finset Vec :=
  Finset.univ.filter (Redirects y tsthdlr vs s)

lemma mem_redirects_iff {vs : List ℤ} {s : Patch} {w : Vec} :
    w ∈ redirects y tsthdlr vs s ↔ Redirects y tsthdlr vs s w := by
  simp [redirects]

/-- Without the test handler the count is the number of gates redirected. -/
lemma processVecs_done_card {vs : List ℤ} {dirty d : ℤ} {s patch : Patch}
    (h : processVecs y 0 vs dirty s = .done d patch) :
    d = dirty + (redirects y 0 vs s).card := by
  induction vs generalizing dirty s with
  | nil =>
    simp only [processVecs, Loop.done.injEq] at h
    simp [redirects, Redirects, Visits, h.1]
  | cons v vs ih =>
    cases hv : vecIndex v with
    | none => simp [processVecs_cons_of_none hv] at h
    | some vec =>
      rcases processVec_cases y 0 vec s with ⟨hm, -⟩ | ⟨hm, hist, he⟩ | ⟨hm, hist, he⟩
      · simp [processVecs_cons_of_mismatch hv hm] at h
      · rw [processVecs_cons_of_fine hv hm, he] at h
        have hset : redirects y 0 (v :: vs) s = redirects y 0 vs s := by
          ext w
          rw [mem_redirects_iff, mem_redirects_iff, redirects_cons_of_skip hv hist]
        rw [hset, ih h, add_zero]
      · rw [processVecs_cons_of_fine hv hm, he] at h
        have hrest := ih h
        generalize hnext : (⟨Function.update s.idt vec (redirected y 0 vec (s.idt vec)),
          Function.update s.origIsrs vec (gateOffset (candidate y 0 (s.idt vec)))⟩ : Patch) = s'
          at h hrest
        -- from now on the gate is on an IST, so it is not counted again
        have hnew : vec ∉ redirects y 0 vs s' := by
          rw [mem_redirects_iff, ← hnext]
          rintro ⟨-, hz⟩
          simp [candidate_zero, redirected, IST_EF] at hz
        have hset : redirects y 0 (v :: vs) s = insert vec (redirects y 0 vs s') := by
          ext w
          rw [Finset.mem_insert, mem_redirects_iff, mem_redirects_iff, ← hnext]
          by_cases hw : w = vec
          · subst hw
            exact iff_of_true ⟨(visits_cons_iff hv vs w).mpr (Or.inl rfl), hist⟩ (Or.inl rfl)
          · rw [redirects_cons_of_ne hv hw, or_iff_right hw]
        rw [hset, Finset.card_insert_of_notMem hnew, hrest]
        push_cast
        ring

/-- The call returns a count and not an error. -/
def EfCall.Succeeds (y : Symbols) (e : EfCall n) (s : State n) : Prop :=
  ∃ rc, (efAdaptorInit y e s).1 = .ret rc ∧ 0 ≤ rc

/-- The clone that a call has made is the table of every CPU. -/
def EfCall.Activated (y : Symbols) (e : EfCall n) (s : State n) : Prop :=
  ∃ p, e.clone = some p ∧ (efAdaptorInit y e s).2.currentIdt = p ∧
    ∀ c, (efAdaptorInit y e s).2.idtr c = p

/-- The clone, if there was one, has been dropped, and only the stacks remain of the
call. -/
structure EfCall.Released (e : EfCall n) (s s' : State n) : Prop where
  idtr : s'.idtr = s.idtr
  currentIdt : s'.currentIdt = s.currentIdt
  origIdt : s'.origIdt = s.origIdt ∨ s.origIdt = 0#64
  pages : s'.pages = s.pages ∪ newStacks e.stack s (List.finRange n)

/-- What a call that completes does, in terms of its vector loops. -/
structure EfCall.Completed (y : Symbols) (e : EfCall n) (k : Addr) (s : State n) (d : ℤ)
    (patch : Patch) : Prop where
  loops : processVecs y e.tsthdlr e.vectors 0 ⟨s.table k, s.origIsrs⟩ = .done d patch
  rc : (efAdaptorInit y e s).1 = .ret d
  coherent : Coherent k (efAdaptorInit y e s).2
  table : (efAdaptorInit y e s).2.table k = patch.idt
  origIsrs : (efAdaptorInit y e s).2.origIsrs = patch.origIsrs
  tssIst : (efAdaptorInit y e s).2.tssIst = stackTops e.stack s
  activated : d ≠ 0 → e.Activated y s
  released : d = 0 → e.Released s (efAdaptorInit y e s).2

/-- The page of a clone is not one of the new stacks. -/
lemma EfCall.AllocOk.clone_notMem_newStacks (ha : e.AllocOk s) {p : Addr} (hc : e.clone = some p)
    (cpus : List (Fin n)) : p ∉ newStacks e.stack s cpus := by
  intro hmem
  obtain ⟨c, -, hstack⟩ := Finset.mem_biUnion.mp hmem
  exact ha.clone_ne_stack p hc c (Option.mem_toFinset.mp hstack)

/-- Where every CPU has its stack no page is needed. -/
lemma newStacks_eq_empty (stack : Fin n → Option Addr) (hstacks : ∀ c, s.tssIst c ≠ 0#64)
    (cpus : List (Fin n)) : newStacks stack s cpus = ∅ := by
  have hnone : (cpus.filter fun c => s.tssIst c = 0#64) = [] := by
    simp [hstacks]
  rw [newStacks, hnone]
  rfl

section Complete

variable (hco : Coherent k s) (ha : e.AllocOk s)
include hco ha

lemma Coherent.released {p : Addr} (hc : e.clone = some p) (hp : FreshPage s p) (patch : Patch) :
    e.Released s (idtAdaptorRelease p (e.worked k p patch s)) := by
  have hnot : p ∉ s.pages ∪ newStacks e.stack s (List.finRange n) := by
    rw [Finset.mem_union, not_or]
    exact ⟨hp.not_owned, ha.clone_notMem_newStacks hc _⟩
  rw [idtAdaptorRelease_eq (s := e.worked k p patch s) hp.ne_zero (Finset.mem_insert_self p _)
    hp.not_loaded]
  constructor
  · rfl
  · rfl
  · rcases hco.origIdt with hold | ⟨hold, -⟩
    · exact Or.inl hold.symm
    · exact Or.inr hold
  · exact Finset.erase_insert hnot

/-- A call for no vector needs no page for its table. -/
lemma EfCall.completed_of_clone_none (hset : ¬ SetupFails e.stack s) (hc : e.clone = none)
    (hnil : e.vectors = []) : e.Completed y k s 0 ⟨s.table k, s.origIsrs⟩ := by
  obtain ⟨hcoherent, -, -⟩ := efAdaptorInit_view y hco ha
  have hcall := efAdaptorInit_of_clone_none (y := y) hset hc
  rw [if_pos hnil] at hcall
  constructor
  · rw [hnil, processVecs]
  · rw [hcall]
  · exact hcoherent
  · rw [hcall]
    rfl
  · rw [hcall]
    rfl
  · rw [hcall]
    rfl
  · exact fun hd => absurd rfl hd
  · rw [hcall]
    exact fun _ => ⟨rfl, rfl, Or.inl rfl, rfl⟩

lemma EfCall.completed_of_clone {d : ℤ} {patch : Patch} {p : Addr} (hset : ¬ SetupFails e.stack s)
    (hc : e.clone = some p)
    (hloops : processVecs y e.tsthdlr e.vectors 0 ⟨s.table k, s.origIsrs⟩ = .done d patch) :
    e.Completed y k s d patch := by
  obtain ⟨hcoherent, -, hview⟩ := efAdaptorInit_view y hco ha
  have hp := ha.clone p hc
  have hcall := efAdaptorInit_of_clone (y := y) hset hc hp.ne_zero
  simp only [hco.efPatch_eq, hco.write_cloned, hloops] at hcall
  rcases hview with ⟨hfail, -⟩ | ⟨-, -, hview⟩
  · rcases hfail with hfail | hfail
    · exact absurd hfail hset
    · rw [hc] at hfail
      cases hfail
  rw [hloops] at hview
  refine ⟨hloops, by rw [hcall], hcoherent, hview.1, hview.2, ?_, fun hd => ?_, fun hd => ?_⟩
  · rw [hcall]
    by_cases hd : d = 0
    · rw [if_neg (not_not.mpr hd), idtAdaptorRelease, freePages_tssIst]
      rfl
    · rw [if_pos hd, idtAdaptorActivate_tssIst]
      rfl
  · obtain ⟨pages, frees, hact, -⟩ := idtAdaptorActivate_frame p (e.worked k p patch s)
    refine ⟨p, hc, ?_, fun c => ?_⟩
    · rw [hcall, if_pos hd, hact]
    · rw [hcall, if_pos hd, hact]
  · rw [hcall, if_neg (not_not.mpr hd)]
    exact hco.released ha hc hp patch

/-- A call that has all its pages and whose loops run to the end completes. -/
lemma EfCall.completed_of_done {d : ℤ} {patch : Patch} (hset : ¬ SetupFails e.stack s)
    (hclone : e.clone ≠ none ∨ e.vectors = [])
    (hloops : processVecs y e.tsthdlr e.vectors 0 ⟨s.table k, s.origIsrs⟩ = .done d patch) :
    e.Completed y k s d patch := by
  cases hc : e.clone with
  | none =>
    have hnil : e.vectors = [] := hclone.resolve_left (not_not.mpr hc)
    rw [hnil, processVecs, Loop.done.injEq] at hloops
    obtain ⟨rfl, rfl⟩ := hloops
    exact EfCall.completed_of_clone_none hco ha hset hc hnil
  | some p => exact EfCall.completed_of_clone hco ha hset hc hloops

/-- A call that succeeds had its pages, and its loops ran to the end. -/
lemma EfCall.Succeeds.completed (h : e.Succeeds y s) :
    ¬ SetupFails e.stack s ∧ ∃ d patch, e.Completed y k s d patch := by
  obtain ⟨rc, hrc, hpos⟩ := h
  have hset : ¬ SetupFails e.stack s := by
    intro hfail
    obtain ⟨pages, frees, he⟩ := efError_eq 0#64 (afterSetup e.stack s)
    rw [efAdaptorInit_of_setupFails hfail, he] at hrc
    simp only [Outcome.ret.injEq, EINVAL] at hrc
    omega
  refine ⟨hset, ?_⟩
  cases hc : e.clone with
  | none =>
    rw [efAdaptorInit_of_clone_none hset hc] at hrc
    have hnil : e.vectors = [] := by
      by_contra hne
      simp [hne] at hrc
    have hloops : processVecs y e.tsthdlr e.vectors 0 ⟨s.table k, s.origIsrs⟩ =
        .done 0 ⟨s.table k, s.origIsrs⟩ := by
      rw [hnil, processVecs]
    exact ⟨_, _, EfCall.completed_of_done hco ha hset (Or.inr hnil) hloops⟩
  | some p =>
    have hcall := efAdaptorInit_of_clone (y := y) hset hc (ha.clone p hc).ne_zero
    simp only [hco.efPatch_eq] at hcall
    cases hloops : processVecs y e.tsthdlr e.vectors 0 ⟨s.table k, s.origIsrs⟩ with
    | fault patch =>
      rw [hcall, hloops] at hrc
      cases hrc
    | mismatch patch =>
      obtain ⟨pages, frees, he⟩ := efError_eq p ((e.cloned p s).write p patch)
      simp only [hcall, hloops, he, Outcome.ret.injEq, EINVAL] at hrc
      omega
    | done d patch =>
      have hclone : e.clone ≠ none ∨ e.vectors = [] := Or.inl (by simp [hc])
      exact ⟨d, patch, EfCall.completed_of_done hco ha hset hclone hloops⟩

end Complete

/-- The gates that differ after the call. -/
def EfCall.changed (y : Symbols) (e : EfCall n) (k : Addr) (s : State n) : Finset Vec :=
  Finset.univ.filter fun v => (efAdaptorInit y e s).2.table k v ≠ s.table k v

/-- A gate keeps all its bits, or it is requested, used no IST, and differs in the IST
and the handler only; the count and the activation tell the same. -/
structure EfCall.RewritesOnly (y : Symbols) (e : EfCall n) (k : Addr) (s : State n) : Prop where
  gates : ∀ v,
    (¬ Visits e.vectors v ∨ (s.table k v).ist ≠ 0#3) ∧
        (efAdaptorInit y e s).2.table k v = s.table k v ∧
        (efAdaptorInit y e s).2.origIsrs v = s.origIsrs v ∨
      (Visits e.vectors v ∧ (s.table k v).ist = 0#3) ∧
        (efAdaptorInit y e s).2.table k v =
          gateSetOffset { s.table k v with ist := IST_EF } (y.isr v) ∧
        (efAdaptorInit y e s).2.origIsrs v = gateOffset (s.table k v)
  count : (efAdaptorInit y e s).1 = .ret (e.changed y k s).card
  activated : e.Activated y s ↔ (e.changed y k s).card ≠ 0

/-- The same request, whatever pages the kernel hands out for it. -/
def EfCall.SameArguments (e e' : EfCall n) : Prop :=
  e'.vecs = e.vecs ∧ e'.vstart = e.vstart ∧ e'.vend = e.vend ∧ e'.tsthdlr = e.tsthdlr

lemma EfCall.SameArguments.vectors {e' : EfCall n} (h : e.SameArguments e') :
    e'.vectors = e.vectors := by
  obtain ⟨hvecs, hstart, hend, -⟩ := h
  rw [EfCall.vectors, EfCall.vectors, hvecs, hstart, hend]

/-- No table, no stack, no saved handler and no page of the adaptors differs. -/
structure SameAdaptors (k : Addr) (s s' : State n) : Prop where
  tssIst : s'.tssIst = s.tssIst
  idtr : s'.idtr = s.idtr
  currentIdt : s'.currentIdt = s.currentIdt
  origIdt : s'.origIdt = s.origIdt ∨ s.origIdt = 0#64
  table : s'.table k = s.table k
  origIsrs : s'.origIsrs = s.origIsrs
  exc : s'.exc = s.exc
  pages : s'.pages = s.pages

lemma redirected_zero_ne {v : Vec} {gate : Gate} (h : gate.ist = 0#3) :
    redirected y 0 v gate ≠ gate := by
  intro heq
  have hist := congrArg Gate.ist heq
  simp [redirected, candidate_zero, h, IST_EF] at hist

/-- Without the test handler, a completed call changes the gates that it redirects. -/
lemma EfCall.Completed.changed_eq {d : ℤ} {patch : Patch} (h : e.Completed y k s d patch)
    (ht : e.tsthdlr = 0) :
    e.changed y k s = redirects y 0 e.vectors ⟨s.table k, s.origIsrs⟩ := by
  have hloops := h.loops
  rw [ht] at hloops
  ext v
  rw [mem_redirects_iff, EfCall.changed, Finset.mem_filter_univ, h.table,
    (processVecs_done_apply hloops v).1]
  split
  · rename_i hr
    have hist := hr.2
    rw [candidate_zero] at hist
    exact iff_of_true (redirected_zero_ne hist) hr
  · rename_i hr
    exact iff_of_false (fun hne => hne rfl) hr

lemma EfCall.Completed.rewritesOnly (ha : e.AllocOk s) {d : ℤ} {patch : Patch}
    (h : e.Completed y k s d patch) (ht : e.tsthdlr = 0) : e.RewritesOnly y k s := by
  have hloops := h.loops
  rw [ht] at hloops
  have hcard : d = (e.changed y k s).card := by
    rw [processVecs_done_card hloops, h.changed_eq ht, zero_add]
  constructor
  · intro v
    obtain ⟨hgate, hsaved⟩ := processVecs_done_apply hloops v
    rw [h.table, h.origIsrs, hgate, hsaved]
    by_cases hr : Redirects y 0 e.vectors ⟨s.table k, s.origIsrs⟩ v
    · rw [if_pos hr, if_pos hr]
      obtain ⟨hv, hist⟩ := hr
      rw [candidate_zero] at hist
      right
      rw [redirected, candidate_zero]
      exact ⟨⟨hv, hist⟩, rfl, rfl⟩
    · rw [if_neg hr, if_neg hr]
      left
      refine ⟨?_, rfl, rfl⟩
      unfold Redirects at hr
      rw [candidate_zero] at hr
      exact not_and_or.mp hr
  · rw [h.rc, hcard]
  · have hzero : (e.changed y k s).card ≠ 0 ↔ d ≠ 0 := by
      rw [hcard, Int.natCast_ne_zero]
    rw [hzero]
    constructor
    · rintro ⟨p, hp, -, hload⟩ hd
      have hkept := congrFun (h.released hd).idtr e.cpu
      rw [hload e.cpu] at hkept
      exact (ha.clone p hp).not_loaded e.cpu hkept.symm
    · exact h.activated

/-- A call that finds its stacks and all its gates on an IST has nothing to do. -/
lemma efAdaptorInit_idle (hco : Coherent k s) (ha : e.AllocOk s) (ht : e.tsthdlr = 0)
    (hstacks : ∀ c, s.tssIst c ≠ 0#64) (hclone : e.clone ≠ none ∨ e.vectors = [])
    (hvecs : ∀ v ∈ e.vectors, ∃ vec, vecIndex v = some vec ∧ (s.table k vec).ist ≠ 0#3) :
    (efAdaptorInit y e s).1 = .ret 0 ∧ SameAdaptors k s (efAdaptorInit y e s).2 := by
  have hset : ¬ SetupFails e.stack s := fun ⟨c, hc, _⟩ => hstacks c hc
  have htops : stackTops e.stack s = s.tssIst := by
    funext c
    exact if_neg (hstacks c)
  have hfine : ∀ v ∈ e.vectors, Fine y e.tsthdlr ⟨s.table k, s.origIsrs⟩ v := by
    intro v hv
    obtain ⟨vec, hvec, hist⟩ := hvecs v hv
    refine ⟨vec, hvec, fun hm => hist ?_⟩
    have hz := hm.1
    rwa [ht, candidate_zero] at hz
  obtain ⟨d, patch, hloops⟩ := (processVecs_done_iff y e.tsthdlr e.vectors 0 _).mpr hfine
  have hdone := EfCall.completed_of_done hco ha hset hclone hloops
  have hnone : redirects y 0 e.vectors ⟨s.table k, s.origIsrs⟩ = ∅ := by
    apply Finset.eq_empty_of_forall_notMem
    intro w hw
    obtain ⟨hvisit, hist⟩ := mem_redirects_iff.mp hw
    obtain ⟨vec, hvec, hne⟩ := hvecs _ hvisit
    rw [candidate_zero] at hist
    have hsame : vec = w := Fin.ext (Nat.cast_injective (vecIndex_eq_some_iff.mp hvec)).symm
    exact hne (hsame ▸ hist)
  have hd : d = 0 := by
    rw [ht] at hloops
    rw [processVecs_done_card hloops, hnone]
    rfl
  subst hd
  have hpatch := (processVecs_done_count hloops).2 rfl
  have hrel := hdone.released rfl
  constructor
  · exact hdone.rc
  · constructor
    · rw [hdone.tssIst, htops]
    · exact hrel.idtr
    · exact hrel.currentIdt
    · exact hrel.origIdt
    · rw [hdone.table, hpatch]
    · rw [hdone.origIsrs, hpatch]
    · exact (efAdaptorInit_view y hco ha).2.1
    · rw [hrel.pages, newStacks_eq_empty e.stack hstacks, Finset.union_empty]

/-- The loops reject nothing while the saved handlers are those of the gates. -/
lemma fine_of_saved (ht : tsthdlr = 0) {s : Patch}
    (horig : ∀ v, (s.idt v).ist = 0#3 →
      s.origIsrs v = 0#64 ∨ s.origIsrs v = gateOffset (s.idt v)) {v : ℤ}
    (hv : 0 ≤ v ∧ v < 256) : Fine y tsthdlr s v := by
  refine ⟨⟨v.toNat, by omega⟩, dif_pos hv, ?_⟩
  rintro ⟨hist, hne, hdiff⟩
  rw [ht, candidate_zero] at hist hdiff
  rcases horig _ hist with hzero | hsame
  · exact hne hzero
  · exact hdiff hsame

/-- For every table in use and all saved handlers that are zero or those of the gates: a
request with its pages and its vectors in the table is accepted; a request that succeeds
rewrites the gates it must and no other; and the same request once more returns zero and
changes nothing. -/
theorem efAdaptorInit_rewritesOnly (hco : Coherent k s) (ha : e.AllocOk s) (ht : e.tsthdlr = 0)
    (horig : ∀ v, (s.table k v).ist = 0#3 →
      s.origIsrs v = 0#64 ∨ s.origIsrs v = gateOffset (s.table k v)) :
    (¬ SetupFails e.stack s → e.clone ≠ none → (∀ v ∈ e.vectors, 0 ≤ v ∧ v < 256) →
      e.Succeeds y s) ∧
    (e.Succeeds y s → e.RewritesOnly y k s ∧
      ∀ e' : EfCall n, e.SameArguments e' → e'.AllocOk (efAdaptorInit y e s).2 →
        (e'.clone ≠ none ∨ e'.vectors = []) →
        (efAdaptorInit y e' (efAdaptorInit y e s).2).1 = .ret 0 ∧
        SameAdaptors k (efAdaptorInit y e s).2
          (efAdaptorInit y e' (efAdaptorInit y e s).2).2) := by
  constructor
  · intro hset hclone hvecs
    have hfine : ∀ v ∈ e.vectors, Fine y e.tsthdlr ⟨s.table k, s.origIsrs⟩ v :=
      fun v hv => fine_of_saved ht horig (hvecs v hv)
    obtain ⟨d, patch, hloops⟩ := (processVecs_done_iff y e.tsthdlr e.vectors 0 _).mpr hfine
    exact ⟨d, (EfCall.completed_of_done hco ha hset (Or.inl hclone) hloops).rc,
      (processVecs_done_count hloops).1⟩
  · intro hs
    obtain ⟨hset, d, patch, hdone⟩ := hs.completed hco ha
    have hrw := hdone.rewritesOnly ha ht
    refine ⟨hrw, fun e' hargs ha' hclone => ?_⟩
    have hvectors := hargs.vectors
    apply efAdaptorInit_idle hdone.coherent ha' (hargs.2.2.2.trans ht) _ hclone
    · -- every vector of the request is on an IST by now
      intro v hv
      rw [hvectors] at hv
      have hall := (processVecs_done_iff y e.tsthdlr e.vectors 0 _).mp ⟨d, patch, hdone.loops⟩
      obtain ⟨vec, hvec, -⟩ := hall v hv
      refine ⟨vec, hvec, ?_⟩
      have hvisit : Visits e.vectors vec := by
        rw [vecIndex_eq_some_iff.mp hvec] at hv
        exact hv
      rcases hrw.gates vec with ⟨hskip, hgate, -⟩ | ⟨-, hgate, -⟩
      · rw [hgate]
        exact hskip.resolve_left (not_not.mpr hvisit)
      · rw [hgate]
        simp [IST_EF]
    · intro c
      rw [hdone.tssIst]
      exact stackTops_ne_zero ha hset c

/-- Where the kernel's table lies in the sample state. -/
def sampleKernelIdt : Addr := 0xfffffe0000000000

lemma coherent_sampleState : Coherent sampleKernelIdt sampleState := coherent_moduleLoad _ _

/-- A first request for vector 3, and the same once more. -/
theorem sampleCall_rewritesOnly :
    (sampleCall 3 0 1).RewritesOnly sampleSymbols sampleKernelIdt sampleState ∧
    (efAdaptorInit sampleSymbols (sampleCall 3 0 4) sampleInstalled).1 = .ret 0 := by
  obtain ⟨haccepted, hrewrites⟩ := efAdaptorInit_rewritesOnly (y := sampleSymbols)
    (e := sampleCall 3 0 1) coherent_sampleState (by decide) rfl (fun v _ => Or.inl rfl)
  obtain ⟨hfirst, hsecond⟩ := hrewrites (haccepted (by decide) (by decide) (by decide))
  refine ⟨hfirst, (hsecond (sampleCall 3 0 4) ⟨rfl, rfl, rfl, rfl⟩ ?_ (Or.inl (by decide))).1⟩
  show (sampleCall 3 0 4).AllocOk sampleInstalled
  decide

/-- The vector is in the list or in the range, both ends included. -/
def EfCall.Requests (e : EfCall n) (v : Vec) : Prop :=
  ((v : ℕ) : ℤ) ∈ e.vecs ∨ e.vstart ≤ ((v : ℕ) : ℤ) ∧ ((v : ℕ) : ℤ) ≤ e.vend

/-- Every gate that is requested and used no IST goes to its stub, and no other gate
has changed. -/
structure EfCall.Covers (y : Symbols) (e : EfCall n) (k : Addr) (s : State n) : Prop where
  requested : ∀ v, e.Requests v → (s.table k v).ist = 0#3 →
    (efAdaptorInit y e s).2.table k v =
      gateSetOffset { s.table k v with ist := IST_EF } (y.isr v)
  other : ∀ v, ¬ (e.Requests v ∧ (s.table k v).ist = 0#3) →
    (efAdaptorInit y e s).2.table k v = s.table k v

lemma mem_vecRange_iff {vstart vend v : ℤ} :
    v ∈ vecRange vstart vend ↔ (0 ≤ vstart ∧ vstart < vend) ∧ vstart ≤ v ∧ v ≤ vend := by
  unfold vecRange
  split
  · rename_i hguard
    simp only [List.mem_map, List.pure_def, List.bind_eq_flatMap, List.mem_flatMap,
      List.mem_range, List.mem_singleton]
    constructor
    · rintro ⟨_, ⟨i, hi, rfl⟩, rfl⟩
      exact ⟨hguard, by omega, by omega⟩
    · rintro ⟨-, hlow, hhigh⟩
      exact ⟨v - vstart, ⟨(v - vstart).toNat, by omega, by omega⟩, by omega⟩
  · rename_i hguard
    exact iff_of_false List.not_mem_nil fun h => hguard h.1

/-- The loops visit what is requested, unless the range is a single vector. -/
lemma EfCall.visits_iff (hrange : 0 ≤ e.vstart ∧ e.vstart ≤ e.vend) (v : Vec) :
    Visits e.vectors v ↔
      e.Requests v ∧ (e.vstart < e.vend ∨ ((v : ℕ) : ℤ) ∈ e.vecs) := by
  unfold Visits EfCall.Requests EfCall.vectors
  rw [List.mem_append, mem_vecRange_iff]
  constructor
  · rintro (hlist | ⟨⟨-, hlt⟩, hin⟩)
    · exact ⟨Or.inl hlist, Or.inr hlist⟩
    · exact ⟨Or.inr hin, Or.inl hlt⟩
  · rintro ⟨hlist | hin, hwide⟩
    · exact Or.inl hlist
    · rcases hwide with hlt | hlist
      · exact Or.inr ⟨⟨hrange.1, hlt⟩, hin⟩
      · exact Or.inl hlist

/-- When the loops visit all that is requested, of some kind of vectors. -/
lemma EfCall.visits_requested_iff (hrange : 0 ≤ e.vstart ∧ e.vstart ≤ e.vend)
    (kind : Vec → Prop) :
    (∀ v, e.Requests v → kind v → Visits e.vectors v) ↔
      e.vstart < e.vend ∨ e.vstart ∈ e.vecs ∨
        ∀ v : Vec, ((v : ℕ) : ℤ) = e.vstart → ¬ kind v := by
  constructor
  · intro hall
    by_contra hnot
    obtain ⟨hone, hlist, hkind⟩ := by simpa only [not_or, not_forall, not_not] using hnot
    obtain ⟨v, hv, hkind⟩ := hkind
    have hvisit := hall v (Or.inr (by omega)) hkind
    rw [EfCall.visits_iff hrange, hv] at hvisit
    exact hvisit.2.elim hone hlist
  · intro hwide v hreq hkind
    rw [EfCall.visits_iff hrange]
    refine ⟨hreq, ?_⟩
    by_cases hlt : e.vstart < e.vend
    · exact Or.inl hlt
    · right
      rcases hreq with hin | hin
      · exact hin
      · have hv : ((v : ℕ) : ℤ) = e.vstart := by omega
        rcases hwide.resolve_left hlt with hlist | hout
        · rw [hv]
          exact hlist
        · exact absurd hkind (hout v hv)

/-- For every list and every inclusive range in the table: exactly when a call that
succeeds covers what was requested. -/
theorem covers_iff (hco : Coherent k s) (ha : e.AllocOk s) (ht : e.tsthdlr = 0)
    (hrange : 0 ≤ e.vstart ∧ e.vstart ≤ e.vend ∧ e.vend ≤ 255) (hs : e.Succeeds y s) :
    e.Covers y k s ↔
      e.vstart < e.vend ∨ e.vstart ∈ e.vecs ∨
        ∀ v : Vec, ((v : ℕ) : ℤ) = e.vstart → (s.table k v).ist ≠ 0#3 := by
  obtain ⟨-, d, patch, hdone⟩ := hs.completed hco ha
  have hgates := (hdone.rewritesOnly ha ht).gates
  have hin : 0 ≤ e.vstart ∧ e.vstart ≤ e.vend := ⟨hrange.1, hrange.2.1⟩
  rw [← EfCall.visits_requested_iff hin fun v => (s.table k v).ist = 0#3]
  constructor
  · intro hcovers v hreq hzero
    rcases hgates v with ⟨-, hkept, -⟩ | ⟨hvisit, -, -⟩
    · have hsame := (hcovers.requested v hreq hzero).symm.trans hkept
      have hist := congrArg Gate.ist hsame
      simp [hzero, IST_EF] at hist
    · exact hvisit.1
  · intro hvisited
    constructor
    · intro v hreq hzero
      rcases hgates v with ⟨hskip, -⟩ | ⟨-, hgate, -⟩
      · exact absurd (hskip.resolve_left (not_not.mpr (hvisited v hreq hzero))) (not_not.mpr hzero)
      · exact hgate
    · intro v hnot
      rcases hgates v with ⟨-, hkept, -⟩ | ⟨hvisit, -⟩
      · exact hkept
      · exact absurd ⟨((EfCall.visits_iff hin v).mp hvisit.1).1, hvisit.2⟩ hnot

/-- A request for a range. -/
def rangeCall (vstart vend : ℤ) : EfCall 2 :=
  { sampleCall 3 0 1 with vecs := [], vstart := vstart, vend := vend }

/-- A range of two vectors. -/
theorem range_of_two_covered : (rangeCall 3 4).Covers sampleSymbols sampleKernelIdt sampleState :=
  (covers_iff coherent_sampleState (by decide) rfl (by decide) ⟨2, by decide, by decide⟩).mpr
    (Or.inl (by decide))

/-- A range of one vector is skipped: the call returns zero and the gate stays. -/
theorem range_of_one_missed :
    (efAdaptorInit sampleSymbols (rangeCall 3 3) sampleState).1 = .ret 0 ∧
    (rangeCall 3 3).Requests 3 ∧ (sampleState.table sampleKernelIdt 3).ist = 0#3 ∧
    ¬ (rangeCall 3 3).Covers sampleSymbols sampleKernelIdt sampleState := by
  have hreq : (rangeCall 3 3).Requests 3 := Or.inr (by decide)
  refine ⟨by decide, hreq, by decide, fun h => ?_⟩
  have hgate := congrArg Gate.ist (h.requested 3 hreq (by decide))
  exact absurd hgate (by decide)

/-- A requested gate that was not present gets the test handler behind its stub, and one
that was present keeps the handler it has. -/
structure EfCall.TestsAbsentOnly (y : Symbols) (e : EfCall n) (k : Addr) (s : State n) :
    Prop where
  absent : ∀ v, Visits e.vectors v → (s.table k v).p = 0#1 →
    ((efAdaptorInit y e s).2.table k v).p = 1#1 ∧
    ((efAdaptorInit y e s).2.table k v).dpl = 3#2 ∧
    ((efAdaptorInit y e s).2.table k v).ist = IST_EF ∧
    gateOffset ((efAdaptorInit y e s).2.table k v) = y.isr v ∧
    (efAdaptorInit y e s).2.origIsrs v = y.efAdaptorTsthdlrAsm
  present : ∀ v, Visits e.vectors v → (s.table k v).p ≠ 0#1 →
    (s.table k v).ist ≠ 0#3 ∧ (efAdaptorInit y e s).2.table k v = s.table k v ∨
    ((efAdaptorInit y e s).2.table k v).ist = IST_EF ∧
      gateOffset ((efAdaptorInit y e s).2.table k v) = y.isr v ∧
      (efAdaptorInit y e s).2.origIsrs v = gateOffset (s.table k v)

/-- The source replaces the gates that are present. -/
lemma candidate_of_present {gate : Gate} (hp : gate.p ≠ 0#1) (ht : tsthdlr ≠ 0) :
    (candidate y tsthdlr gate).ist = 0#3 ∧
      gateOffset (candidate y tsthdlr gate) = y.efAdaptorTsthdlrAsm := by
  rw [candidate, if_pos ⟨hp, ht⟩]
  exact ⟨rfl, gateOffset_gateSetOffset _ _⟩

lemma candidate_of_absent {gate : Gate} (hp : gate.p = 0#1) : candidate y tsthdlr gate = gate :=
  if_neg fun h => h.1 hp

lemma redirected_ist (vec : Vec) (gate : Gate) : (redirected y tsthdlr vec gate).ist = IST_EF := by
  rw [redirected, gateSetOffset_ist]

lemma gateOffset_redirected (vec : Vec) (gate : Gate) :
    gateOffset (redirected y tsthdlr vec gate) = y.isr vec :=
  gateOffset_gateSetOffset _ _

/-- A present gate that is asked for gets the test handler. -/
lemma EfCall.Completed.tested {d : ℤ} {patch : Patch} (hdone : e.Completed y k s d patch)
    (ht : e.tsthdlr ≠ 0) {v : Vec} (hv : Visits e.vectors v) (hp : (s.table k v).p ≠ 0#1) :
    (efAdaptorInit y e s).2.table k v = redirected y e.tsthdlr v (s.table k v) ∧
      (efAdaptorInit y e s).2.origIsrs v = y.efAdaptorTsthdlrAsm := by
  obtain ⟨hgate, hsaved⟩ := processVecs_done_apply hdone.loops v
  obtain ⟨hist, hoffset⟩ := candidate_of_present (y := y) hp ht
  have hr : Redirects y e.tsthdlr e.vectors ⟨s.table k, s.origIsrs⟩ v := ⟨hv, hist⟩
  rw [if_pos hr] at hgate hsaved
  rw [hdone.table, hdone.origIsrs, hgate, hsaved]
  exact ⟨rfl, hoffset⟩

/-- No call makes a gate present. -/
lemma EfCall.Completed.absent {d : ℤ} {patch : Patch} (hdone : e.Completed y k s d patch)
    {v : Vec} (hp : (s.table k v).p = 0#1) : ((efAdaptorInit y e s).2.table k v).p = 0#1 := by
  rw [hdone.table, (processVecs_done_apply hdone.loops v).1]
  split
  · rw [redirected, gateSetOffset_p, candidate_of_absent hp]
    exact hp
  · exact hp

/-- For every table in use and every request for the test handler that succeeds: exactly
when the test handler is on the absent vectors only. All requested gates have to be
present, and nothing may be lost when they get the test handler. -/
theorem testsAbsentOnly_iff (hco : Coherent k s) (ha : e.AllocOk s) (ht : e.tsthdlr ≠ 0)
    (hs : e.Succeeds y s) :
    e.TestsAbsentOnly y k s ↔
      ∀ v, Visits e.vectors v → (s.table k v).p ≠ 0#1 ∧
        (gateOffset (s.table k v) = y.efAdaptorTsthdlrAsm ∨
          (s.table k v).ist ≠ 0#3 ∧ redirected y e.tsthdlr v (s.table k v) = s.table k v) := by
  obtain ⟨-, d, patch, hdone⟩ := hs.completed hco ha
  constructor
  · intro h v hv
    have hp : (s.table k v).p ≠ 0#1 := by
      intro hp
      have hset := (h.absent v hv hp).1
      rw [hdone.absent hp] at hset
      exact absurd hset (by decide)
    refine ⟨hp, ?_⟩
    obtain ⟨hgate, hsaved⟩ := hdone.tested ht hv hp
    rcases h.present v hv hp with ⟨hist, hkept⟩ | ⟨-, -, hown⟩
    · exact Or.inr ⟨hist, hgate.symm.trans hkept⟩
    · exact Or.inl (hown.symm.trans hsaved)
  · intro h
    constructor
    · intro v hv hp
      exact absurd hp (h v hv).1
    · intro v hv hp
      obtain ⟨hgate, hsaved⟩ := hdone.tested ht hv hp
      rcases (h v hv).2 with hown | ⟨hist, hkept⟩
      · right
        rw [hgate, hsaved, hown]
        exact ⟨redirected_ist v _, gateOffset_redirected v _, rfl⟩
      · exact Or.inl ⟨hist, hgate.trans hkept⟩

/-- The test handler is asked for on vector 3, for the first time. -/
def sampleTested : State 2 := (efAdaptorInit sampleSymbols (sampleCall 3 1 1) sampleState).2

/-- Asked for once more, it is there already. -/
theorem tested_twice_keeps_handler :
    (sampleCall 3 1 4).TestsAbsentOnly sampleSymbols sampleKernelIdt sampleTested := by
  have hco : Coherent sampleKernelIdt sampleTested :=
    (efAdaptorInit_view sampleSymbols coherent_sampleState (by decide)).1
  refine (testsAbsentOnly_iff hco (by decide) (by decide) ⟨1, by decide, by decide⟩).mpr ?_
  intro v hv
  have hthree : v = 3 := by
    apply Fin.ext
    have hmem : ((v : ℕ) : ℤ) = 3 := List.mem_singleton.mp hv
    omega
  subst hthree
  exact ⟨by decide, Or.inr ⟨by decide, by decide⟩⟩

/-- The gate of #GP is not present. -/
def absentState : State 2 :=
  moduleLoad sampleKernelIdt fun _ vec =>
    { sampleIdt vec with p := if vec = Trap.gp.vec then 0 else 1 }

/-- On a present vector the test handler takes the place of the kernel's; a vector that
is not present gets none and stays absent. -/
theorem test_handler_on_present :
    ((efAdaptorInit sampleSymbols (sampleCall 3 1 1) sampleState).1 = .ret 1 ∧
      sampleTested.origIsrs 3 = sampleSymbols.efAdaptorTsthdlrAsm ∧
      ¬ (sampleCall 3 1 1).TestsAbsentOnly sampleSymbols sampleKernelIdt sampleState) ∧
    (efAdaptorInit sampleSymbols (sampleCall 13 1 1) absentState).1 = .ret 1 ∧
      ((efAdaptorInit sampleSymbols (sampleCall 13 1 1) absentState).2.table
        sampleKernelIdt 13).p = 0#1 ∧
      ¬ (sampleCall 13 1 1).TestsAbsentOnly sampleSymbols sampleKernelIdt absentState := by
  refine ⟨⟨by decide, by decide, fun h => ?_⟩, by decide, by decide, fun h => ?_⟩
  · rcases h.present 3 (by decide) (by decide) with ⟨hist, -⟩ | ⟨-, -, hown⟩
    · exact absurd hist (by decide)
    · exact absurd hown (by decide)
  · exact absurd (h.absent 13 (by decide) (by decide)).1 (by decide)

end SymbiOS.Adaptor
