import SymbiOS.Interposition
import SymbiOS.Redirection

/-!
# Loading the extension (`extension_init`)

`extension_init`, built with `ALL_VECTORS`, notes where the #DF gate of the table in use
leads, and then moves all 256 vectors to the exception-frame stack. A stub that finds a
double fault jumps to the address that was noted. `pf_adaptor_init` may change the gate
before or after.
-/
namespace SymbiOS.Adaptor
open SymbiOS.GuardedRun

variable {n : ℕ} {y : Symbols} {k : Addr} {kernel : Vec → Addr}

/-- The adaptors' state with the global `df_handler_location`. -/
structure Extension (n : ℕ) where
  adaptors : State n
  dfHandlerLocation : Addr

/-- One call of `extension_init`: the CPU it runs on and the pages that it gets. -/
structure ExtCall (n : ℕ) where
  cpu : Fin n
  stack : Fin n → Option Addr
  clone : Option Addr

/-- With `ALL_VECTORS` the list of vectors is empty and the range is the whole table. -/
def ExtCall.efCall (x : ExtCall n) : EfCall n where
  cpu := x.cpu
  vecs := []
  vstart := 0
  vend := 255
  tsthdlr := 0
  stack := x.stack
  clone := x.clone

/-- The table is the one that `sidt` finds. -/
def setLocalDfHandlerLocation (cpu : Fin n) (s : Extension n) : Extension n :=
  { s with dfHandlerLocation := gateOffset (s.adaptors.idtAt (s.adaptors.idtr cpu) Trap.df.vec) }

def extensionInit (y : Symbols) (x : ExtCall n) (s : Extension n) : Outcome × Extension n :=
  let s := setLocalDfHandlerLocation x.cpu s
  let r := efAdaptorInit y x.efCall s.adaptors
  (match r.1 with
    | .ret ret => .ret (if ret > 0 then 0 else ret)
    | .fault => .fault,
    { s with adaptors := r.2 })

/-- The two entries that initialise the module. -/
inductive Entry (n : ℕ)
  | ext (x : ExtCall n)
  | pf (f : PfCall n)

def Entry.call : Entry n → Call n
  | .ext x => .ef x.efCall
  | .pf f => .pf f

def Entry.step (y : Symbols) (s : Extension n) : Entry n → Extension n
  | .ext x => (extensionInit y x s).2
  | .pf f => { s with adaptors := (pfAdaptorInit y f s.adaptors).2 }

/-- Pages are handed out for all that is asked for, and the fault adaptor is told the kernel's
handlers. -/
def Entry.Ok (kernel : Vec → Addr) (s : Extension n) (e : Entry n) : Prop :=
  e.call.AllocOk s.adaptors ∧ e.call.Regular kernel s.adaptors

instance (s : Extension n) (e : Entry n) : Decidable (e.Ok kernel s) :=
  inferInstanceAs (Decidable (_ ∧ _))

def extensionLoad (k : Addr) (idtAt : Addr → Idt) : Extension n := ⟨moduleLoad k idtAt, 0#64⟩

@[simp] lemma step_adaptors (s : Extension n) (e : Entry n) :
    (e.step y s).adaptors = e.call.step y s.adaptors := by
  cases e <;> rfl

lemma visits_efCall (x : ExtCall n) (v : Vec) : Visits x.efCall.vectors v := by
  have hlt := v.isLt
  have hrange : (0 : ℤ) ≤ 0 ∧ (0 : ℤ) ≤ 255 := by decide
  have hrequest : x.efCall.Requests v :=
    Or.inr ⟨by show (0 : ℤ) ≤ _; omega, by show _ ≤ (255 : ℤ); omega⟩
  have hwide : (0 : ℤ) < 255 := by decide
  exact (EfCall.visits_iff (e := x.efCall) hrange v).mpr ⟨hrequest, Or.inl hwide⟩

lemma vectors_efCall (x : ExtCall n) {v : ℤ} (hv : v ∈ x.efCall.vectors) : 0 ≤ v ∧ v < 256 := by
  have hmem : v ∈ vecRange 0 255 := by simpa [EfCall.vectors, ExtCall.efCall] using hv
  have hrange := mem_vecRange_iff.mp hmem
  omega

/-- A regular call completes. -/
lemma completed_efCall {s : State n} {x : ExtCall n} (h : ChainsRight y kernel k s)
    (ha : x.efCall.AllocOk s) (hr : (Call.ef x.efCall).Regular kernel s) :
    ∃ d patch, 0 ≤ d ∧ x.efCall.Completed y k s d patch := by
  obtain ⟨-, hvecs, hset, hclone⟩ := hr
  have hfine : ∀ v ∈ x.efCall.vectors, Fine y 0 ⟨s.table k, s.origIsrs⟩ v := by
    intro v hv
    obtain ⟨vec, hvec⟩ := vecIndex_of_mem (hvecs v hv)
    exact ⟨vec, hvec, (h.chains.chained vec).not_mismatch⟩
  obtain ⟨d, patch, hloop⟩ :=
    (processVecs_done_iff y 0 x.efCall.vectors 0 ⟨s.table k, s.origIsrs⟩).mpr hfine
  have hd : 0 ≤ d := by
    rw [processVecs_done_card hloop]
    omega
  exact ⟨d, patch, hd, EfCall.completed_of_done h.toCoherent ha hset (Or.inl hclone) hloop⟩

/-- Every gate that used no IST goes to its stub, and the handlers of the others are left
alone. -/
lemma Completed.apply {s : State n} {x : ExtCall n} {d : ℤ} {patch : Patch}
    (h : x.efCall.Completed y k s d patch) (v : Vec) :
    ((s.table k v).ist = 0#3 ∧
        (efAdaptorInit y x.efCall s).2.table k v = redirected y 0 v (s.table k v)) ∨
      ((s.table k v).ist ≠ 0#3 ∧
        (efAdaptorInit y x.efCall s).2.table k v = s.table k v ∧
        (efAdaptorInit y x.efCall s).2.origIsrs v = s.origIsrs v) := by
  obtain ⟨hidt, horig⟩ := processVecs_done_apply h.loops v
  have hiff : Redirects y x.efCall.tsthdlr x.efCall.vectors ⟨s.table k, s.origIsrs⟩ v ↔
      (s.table k v).ist = 0#3 := by
    show Visits _ v ∧ (candidate y 0 (s.table k v)).ist = 0#3 ↔ _
    rw [candidate_zero]
    exact and_iff_right (visits_efCall x v)
  rw [h.table, h.origIsrs, hidt, horig]
  by_cases hist : (s.table k v).ist = 0#3
  · rw [if_pos (hiff.mpr hist)]
    exact Or.inl ⟨hist, rfl⟩
  · rw [if_neg fun hr => hist (hiff.mp hr), if_neg fun hr => hist (hiff.mp hr)]
    exact Or.inr ⟨hist, rfl, rfl⟩

/-- A block changes the address of its own gate at most. -/
lemma installFix_idt {p q : PfPatch} {trap : Trap} {handler : Addr}
    (hq : installFix y trap handler p = some q) (v : Vec) :
    q.idt v = p.idt v ∨
      v = trap.vec ∧ q.idt v = gateSetOffset (p.idt v) (y.fixErrCode trap) := by
  simp only [installFix] at hq
  split at hq
  · split at hq
    · cases hq
    · cases hq
      exact Or.inl rfl
  · cases hq
    by_cases hv : v = trap.vec
    · subst hv
      exact Or.inr ⟨rfl, Function.update_self ..⟩
    · exact Or.inl (Function.update_of_ne hv _ _)

/-- The gates after the blocks. -/
lemma fixTraps_idt {f : PfCall n} (traps : List Trap) (p : PfPatch) (v : Vec) :
    ((fixTraps y f traps p).2.idt v).ist = (p.idt v).ist ∧
      (gateOffset ((fixTraps y f traps p).2.idt v) = gateOffset (p.idt v) ∨
        ∃ trap, gateOffset ((fixTraps y f traps p).2.idt v) = y.fixErrCode trap) := by
  induction traps generalizing p with
  | nil => exact ⟨rfl, Or.inl rfl⟩
  | cons trap traps ih =>
    simp only [fixTraps]
    cases hq : installFix y trap (f.handler trap) (saveHandler trap (f.handler trap) p) with
    | none => exact ⟨by rw [saveHandler_idt], Or.inl (by rw [saveHandler_idt])⟩
    | some q =>
      obtain ⟨hist, hoffset⟩ := ih q
      have hgate := installFix_idt hq v
      rw [saveHandler_idt] at hgate
      rcases hgate with hsame | ⟨-, hset⟩
      · rw [hsame] at hist hoffset
        exact ⟨hist, hoffset⟩
      · rw [hset] at hist hoffset
        refine ⟨hist.trans (by simp), Or.inr ?_⟩
        rcases hoffset with hoffset | hfix
        · exact ⟨trap, hoffset.trans (by simp)⟩
        · exact hfix

lemma pfAdaptorInit_tssIst {s : State n} {f : PfCall n} (h : Coherent k s) (ha : f.AllocOk s) :
    (pfAdaptorInit y f s).2.tssIst = s.tssIst := by
  rcases pfAdaptorInit_cases y h ha with ⟨-, he⟩ | ⟨p, -, -, ⟨-, -, he⟩ | ⟨-, he⟩⟩
  · rw [he]
  · obtain ⟨pages, frees, hr, -⟩ := idtAdaptorActivate_frame p (pfWorked k p (f.fixed y k s).2 s)
    rw [he, hr]
    rfl
  · obtain ⟨pages, frees, hr, -⟩ := idtAdaptorRelease_frame p (pfWorked k p (f.fixed y k s).2 s)
    rw [he, hr]
    rfl

/-- What is noted for double faults: nothing while no gate is redirected; later the kernel's
handler, its fault adaptor, or the stub of a gate that is redirected. -/
structure Noted (y : Symbols) (kernel : Vec → Addr) (k : Addr) (s : Extension n) : Prop
    extends ChainsRight y kernel k s.adaptors where
  location : (∀ v, Base y kernel s.adaptors.exc v (gateOffset (s.adaptors.table k v))) ∨
    Base y kernel s.adaptors.exc Trap.df.vec s.dfHandlerLocation ∨
    (s.dfHandlerLocation = y.isr Trap.df.vec ∧ (s.adaptors.table k Trap.df.vec).ist ≠ 0#3 ∧
      Base y kernel s.adaptors.exc Trap.df.vec (s.adaptors.origIsrs Trap.df.vec))

/-- The #DF gate uses an IST of its own. -/
structure OwnIst (y : Symbols) (kernel : Vec → Addr) (k : Addr) (s : Extension n) : Prop where
  ist : (s.adaptors.table k Trap.df.vec).ist ≠ 0#3
  gate : Base y kernel s.adaptors.exc Trap.df.vec
    (gateOffset (s.adaptors.table k Trap.df.vec))
  location : s.dfHandlerLocation = 0#64 ∨
    Base y kernel s.adaptors.exc Trap.df.vec s.dfHandlerLocation

/-- Every CPU has its stack and every gate uses an IST. -/
structure Sealed (k : Addr) (s : Extension n) : Prop where
  onCpu : ∀ c, s.adaptors.tssIst c ≠ 0#64
  gates : ∀ v, (s.adaptors.table k v).ist ≠ 0#3

variable {s : Extension n}

lemma Base.mono {exc exc' : Trap → Addr} {v : Vec} {a : Addr} (h : Base y kernel exc v a)
    (hexc : ∀ t : Trap, exc' t = exc t ∨ exc' t = kernel t.vec) : Base y kernel exc' v a := by
  refine h.imp id ?_
  rintro ⟨t, rfl, ha, hk⟩
  exact ⟨t, rfl, ha, (hexc t).elim (fun heq => heq.trans hk) id⟩

/-- `pf_adaptor_init`, for the links. -/
structure PfView (y : Symbols) (kernel : Vec → Addr) (k : Addr) (s s' : State n) : Prop where
  exc : ∀ t : Trap, s'.exc t = s.exc t ∨ s'.exc t = kernel t.vec
  origIsrs : s'.origIsrs = s.origIsrs
  ist : ∀ v, (s'.table k v).ist = (s.table k v).ist
  gate : ∀ v, gateOffset (s'.table k v) = gateOffset (s.table k v) ∨
    ∃ trap, gateOffset (s'.table k v) = y.fixErrCode trap

lemma pfView {s : State n} {f : PfCall n} (h : Coherent k s) (ha : f.AllocOk s)
    (hf : ∀ t : Trap, f.handler t = kernel t.vec) :
    PfView y kernel k s (pfAdaptorInit y f s).2 := by
  have hexc (t : Trap) : (f.fixed y k s).2.exc t = s.exc t ∨
      (f.fixed y k s).2.exc t = kernel t.vec :=
    (fixTraps_exc _ _ t).imp id fun heq => heq.trans (hf t)
  have hsave (t : Trap) : (saveHandler .pf (f.handler .pf) ⟨s.table k, s.exc, false⟩).exc t =
        s.exc t ∨
      (saveHandler .pf (f.handler .pf) ⟨s.table k, s.exc, false⟩).exc t = kernel t.vec :=
    (saveHandler_exc .pf _ _ t).imp id fun ⟨ht, he⟩ => by rw [he, ht, hf]
  obtain ⟨-, horig, ⟨-, htable, he⟩ | ⟨-, he, ⟨-, htable⟩ | htable⟩⟩ := pfAdaptorInit_view y h ha
  · exact ⟨by rw [he]; exact hsave, horig, fun v => by rw [htable], fun v => Or.inl (by rw [htable])⟩
  · have hidt (v : Vec) := fixTraps_idt (y := y) (f := f) [.pf, .df, .gp]
      ⟨s.table k, s.exc, false⟩ v
    exact ⟨by rw [he]; exact hexc, horig, fun v => by rw [htable]; exact (hidt v).1,
      fun v => by rw [htable]; exact (hidt v).2⟩
  · exact ⟨by rw [he]; exact hexc, horig, fun v => by rw [htable], fun v => Or.inl (by rw [htable])⟩

/-- A gate that is no stub's stays none. -/
lemma PfView.base (hl : y.Laid kernel) {s s' : State n} (h : PfView y kernel k s s')
    (hchains : ∀ v, Chained y kernel s'.exc ⟨s'.table k, s'.origIsrs⟩ v) {v : Vec}
    (hv : Base y kernel s.exc v (gateOffset (s.table k v))) :
    Base y kernel s'.exc v (gateOffset (s'.table k v)) := by
  rcases h.gate v with hsame | ⟨trap, hfix⟩
  · rw [hsame]
    exact hv.mono h.exc
  · rcases hchains v with ⟨hbase, -⟩ | ⟨hstub, -⟩
    · exact hbase
    · exact absurd (hstub.symm.trans hfix) (hl.isr_ne_fix v trap)

lemma handler_of_regular {f : PfCall n} {s : State n} (hr : (Call.pf f).Regular kernel s)
    (t : Trap) : f.handler t = kernel t.vec := by
  cases t with
  | pf => exact hr.1
  | df => exact hr.2.1
  | gp => exact hr.2.2.1

lemma Noted.step (hl : y.Laid kernel) (h : Noted y kernel k s) {e : Entry n}
    (hok : e.Ok kernel s) : Noted y kernel k (e.step y s) := by
  have hchains : ChainsRight y kernel k (e.step y s).adaptors := by
    rw [step_adaptors]
    exact h.toChainsRight.step hl hok.1 hok.2
  refine ⟨hchains, ?_⟩
  cases e with
  | pf f =>
    have hview := pfView (y := y) h.toCoherent hok.1 (handler_of_regular hok.2)
    rcases h.location with hnone | hbase | ⟨hstub, hist, hbase⟩
    · exact Or.inl fun v => hview.base hl hchains.chains.chained (hnone v)
    · exact Or.inr (Or.inl (hbase.mono hview.exc))
    · refine Or.inr (Or.inr ⟨hstub, ?_, ?_⟩)
      · show ((pfAdaptorInit y f s.adaptors).2.table k _).ist ≠ _
        rw [hview.ist]
        exact hist
      · show Base y kernel _ _ ((pfAdaptorInit y f s.adaptors).2.origIsrs _)
        rw [hview.origIsrs]
        exact hbase.mono hview.exc
  | ext x =>
    obtain ⟨d, patch, -, hdone⟩ := completed_efCall h.toChainsRight hok.1 hok.2
    have hexc : (efAdaptorInit y x.efCall s.adaptors).2.exc = s.adaptors.exc :=
      (efAdaptorInit_view y h.toCoherent hok.1).2.1
    have hloc : ((Entry.ext x).step y s).dfHandlerLocation =
        gateOffset (s.adaptors.table k Trap.df.vec) := by
      show gateOffset (s.adaptors.idtAt (s.adaptors.idtr x.cpu) Trap.df.vec) = _
      rw [h.toCoherent.idtr x.cpu]
      rfl
    right
    rw [hloc]
    show Base y kernel (efAdaptorInit y x.efCall s.adaptors).2.exc _ _ ∨ _ ∧
      ((efAdaptorInit y x.efCall s.adaptors).2.table k _).ist ≠ _ ∧
      Base y kernel (efAdaptorInit y x.efCall s.adaptors).2.exc _
        ((efAdaptorInit y x.efCall s.adaptors).2.origIsrs _)
    rw [hexc]
    rcases h.chains.chained Trap.df.vec with ⟨hbase, -⟩ | ⟨hstub, hef, hbase⟩
    · exact Or.inl hbase
    · rcases Completed.apply hdone Trap.df.vec with ⟨hist, -⟩ | ⟨hist, htable, horig⟩
      · exact absurd (hef.symm.trans hist) (by decide)
      · refine Or.inr ⟨hstub, ?_, ?_⟩
        · rw [htable]
          exact hist
        · rw [horig]
          exact hbase

lemma OwnIst.step (hl : y.Laid kernel) (hs : Noted y kernel k s) (h : OwnIst y kernel k s)
    {e : Entry n} (hok : e.Ok kernel s) : OwnIst y kernel k (e.step y s) := by
  have hchains : ChainsRight y kernel k (e.step y s).adaptors := by
    rw [step_adaptors]
    exact hs.toChainsRight.step hl hok.1 hok.2
  cases e with
  | pf f =>
    have hview := pfView (y := y) hs.toCoherent hok.1 (handler_of_regular hok.2)
    refine ⟨?_, hview.base hl hchains.chains.chained h.gate,
      h.location.imp id fun hbase => hbase.mono hview.exc⟩
    show ((pfAdaptorInit y f s.adaptors).2.table k _).ist ≠ _
    rw [hview.ist]
    exact h.ist
  | ext x =>
    obtain ⟨d, patch, -, hdone⟩ := completed_efCall hs.toChainsRight hok.1 hok.2
    have hexc : ((Entry.ext x).step y s).adaptors.exc = s.adaptors.exc :=
      (efAdaptorInit_view y hs.toCoherent hok.1).2.1
    have hloc : ((Entry.ext x).step y s).dfHandlerLocation =
        gateOffset (s.adaptors.table k Trap.df.vec) := by
      show gateOffset (s.adaptors.idtAt (s.adaptors.idtr x.cpu) Trap.df.vec) = _
      rw [hs.toCoherent.idtr x.cpu]
      rfl
    rcases Completed.apply hdone Trap.df.vec with ⟨hist, -⟩ | ⟨hist, htable, -⟩
    · exact absurd hist h.ist
    · change ((Entry.ext x).step y s).adaptors.table k _ = _ at htable
      refine ⟨by rw [htable]; exact hist, ?_, Or.inr ?_⟩
      · rw [htable, hexc]
        exact h.gate
      · rw [hloc, hexc]
        exact h.gate

/-- One `extension_init` seals the table. -/
lemma sealed_extensionInit (h : Noted y kernel k s) {x : ExtCall n}
    (hok : (Entry.ext x).Ok kernel s) : Sealed k ((Entry.ext x).step y s) := by
  obtain ⟨d, patch, -, hdone⟩ := completed_efCall h.toChainsRight hok.1 hok.2
  refine ⟨fun c => ?_, fun v => ?_⟩
  · show (efAdaptorInit y x.efCall s.adaptors).2.tssIst c ≠ _
    rw [hdone.tssIst]
    exact stackTops_ne_zero hok.1 hok.2.2.2.1 c
  · show ((efAdaptorInit y x.efCall s.adaptors).2.table k v).ist ≠ _
    rcases Completed.apply hdone v with ⟨-, htable⟩ | ⟨hist, htable, -⟩
    · rw [htable]
      simp [redirected, IST_EF]
    · rw [htable]
      exact hist

lemma Sealed.step (hs : Noted y kernel k s) (h : Sealed k s) {e : Entry n}
    (hok : e.Ok kernel s) : Sealed k (e.step y s) := by
  cases e with
  | ext x => exact sealed_extensionInit hs hok
  | pf f =>
    have hview := pfView (y := y) hs.toCoherent hok.1 (handler_of_regular hok.2)
    refine ⟨fun c => ?_, fun v => ?_⟩
    · show (pfAdaptorInit y f s.adaptors).2.tssIst c ≠ _
      rw [pfAdaptorInit_tssIst hs.toCoherent hok.1]
      exact h.onCpu c
    · show ((pfAdaptorInit y f s.adaptors).2.table k v).ist ≠ _
      rw [hview.ist]
      exact h.gates v

lemma base_follow (hl : y.Laid kernel) {s : State n} {v : Vec} {a : Addr}
    (h : Base y kernel s.exc v a) : ∃ m ≤ 2, follow y s m a = some (kernel v) := by
  obtain ⟨m, hm, he⟩ := h.follow hl
  exact ⟨m, by omega, he⟩

/-- A stub is reached only when a location has been noted. -/
lemma Noted.follow (hl : y.Laid kernel) (h : Noted y kernel k s) {v w : Vec}
    (hstub : gateOffset (s.adaptors.table k v) = y.isr w) :
    ∃ m ≤ 2, follow y s.adaptors m s.dfHandlerLocation = some (kernel Trap.df.vec) := by
  rcases h.location with hnone | hbase | ⟨hloc, -, hbase⟩
  · rcases hnone v with hk | ⟨t, -, hfix, -⟩
    · exact absurd (hk.symm.trans hstub) (hl.kernel_ne_isr v w)
    · exact absurd (hstub.symm.trans hfix) (hl.isr_ne_fix w t)
  · exact base_follow hl hbase
  · obtain ⟨m, hm, he⟩ := hbase.follow hl
    refine ⟨m + 1, by omega, ?_⟩
    rw [hloc, Adaptor.follow, hop_isr hl, Option.bind_some]
    exact he

/-- A further `extension_init` finds nothing to do. -/
lemma Sealed.idle (hs : Noted y kernel k s) (h : Sealed k s) {x : ExtCall n}
    (hok : (Entry.ext x).Ok kernel s) :
    (extensionInit y x s).1 = .ret 0 ∧
      SameAdaptors k s.adaptors (extensionInit y x s).2.adaptors := by
  have hvecs : ∀ v ∈ x.efCall.vectors,
      ∃ vec, vecIndex v = some vec ∧ (s.adaptors.table k vec).ist ≠ 0#3 := by
    intro v hv
    obtain ⟨vec, hvec⟩ := vecIndex_of_mem (vectors_efCall x hv)
    exact ⟨vec, hvec, h.gates vec⟩
  obtain ⟨hrc, hsame⟩ := efAdaptorInit_idle (y := y) hs.toCoherent hok.1 rfl h.onCpu
    (Or.inl hok.2.2.2.2) hvecs
  refine ⟨?_, hsame⟩
  show (match (efAdaptorInit y x.efCall s.adaptors).1 with | .ret ret => _ | .fault => _) = _
  rw [hrc]
  rfl

lemma extensionInit_ret (hs : Noted y kernel k s) {x : ExtCall n}
    (hok : (Entry.ext x).Ok kernel s) : (extensionInit y x s).1 = .ret 0 := by
  obtain ⟨d, patch, hd, hdone⟩ := completed_efCall hs.toChainsRight hok.1 hok.2
  show (match (efAdaptorInit y x.efCall s.adaptors).1 with | .ret ret => _ | .fault => _) = _
  rw [hdone.rc]
  show Outcome.ret (if d > 0 then 0 else d) = _
  by_cases hpos : d > 0
  · rw [if_pos hpos]
  · rw [if_neg hpos, show d = 0 by omega]

lemma noted_load (k : Addr) (idtAt : Addr → Idt) :
    Noted y (fun vec => gateOffset (idtAt k vec)) k (extensionLoad k idtAt : Extension n) :=
  ⟨⟨coherent_moduleLoad k idtAt, fun _ => Or.inl ⟨Or.inl rfl, fun _ => rfl⟩, fun _ => Or.inl rfl⟩,
    Or.inl fun _ => Or.inl rfl⟩

/-- In every state reached by the module's two entries, in any order, on any CPUs and any number
of times: a gate leads to a stub only if the location that stubs jump to for a double fault
leads to the kernel's #DF handler in two hops at most. If the kernel's #DF gate uses an IST,
that location is never a stub. Every `extension_init` returns zero; after the first one every
CPU's gates all use an IST, and a further one changes nothing. -/
theorem extension_runs (y : Symbols) (k : Addr) (idtAt : Addr → Idt)
    (hl : y.Laid fun vec => gateOffset (idtAt k vec)) (entries : List (Entry n))
    (hrun : Guarded (Entry.step y) (fun s e => e.Ok (fun vec => gateOffset (idtAt k vec)) s)
      (extensionLoad k idtAt) entries)
    (pre : List (Entry n)) (hpre : pre <+: entries) :
    let s := runFrom (Entry.step y) (extensionLoad k idtAt) pre
    (∀ c v w, gateOffset (s.adaptors.idtAt (s.adaptors.idtr c) v) = y.isr w →
      ∃ m ≤ 2, follow y s.adaptors m s.dfHandlerLocation =
        some (gateOffset (idtAt k Trap.df.vec))) ∧
    ((idtAt k Trap.df.vec).ist ≠ 0#3 →
      s.dfHandlerLocation = 0#64 ∨ s.dfHandlerLocation = gateOffset (idtAt k Trap.df.vec) ∨
        s.dfHandlerLocation = y.fixErrCode .df ∧
          s.adaptors.exc .df = gateOffset (idtAt k Trap.df.vec)) ∧
    (∀ x, Entry.Ok (fun vec => gateOffset (idtAt k vec)) s (.ext x) →
      (extensionInit y x s).1 = .ret 0 ∧
      ((∃ first, Entry.ext first ∈ pre) →
        SameAdaptors k s.adaptors (extensionInit y x s).2.adaptors)) ∧
    ((∃ first, Entry.ext first ∈ pre) →
      ∀ c v, (s.adaptors.idtAt (s.adaptors.idtr c) v).ist ≠ 0#3) := by
  intro s
  have hnoted : Noted y (fun vec => gateOffset (idtAt k vec)) k s :=
    hrun.invariant_prefix (fun s e hs hg => hs.step hl hg) (noted_load k idtAt) hpre
  have hsealed : (∃ first, Entry.ext first ∈ pre) → Sealed k s := by
    rintro ⟨first, hmem⟩
    obtain ⟨rest, rfl⟩ := hpre
    exact hrun.of_append.established (fun s e hs hg => hs.step hl hg)
      (fun s hs hg => sealed_extensionInit hs hg) (fun s e hs hj hg => hj.step hs hg)
      (noted_load k idtAt) hmem
  refine ⟨fun c v w hstub => ?_, fun hist => ?_, fun x hok => ?_, fun hext c v => ?_⟩
  · rw [hnoted.toCoherent.idtr c] at hstub
    exact hnoted.follow hl hstub
  · have hown : Noted y (fun vec => gateOffset (idtAt k vec)) k s ∧
        OwnIst y (fun vec => gateOffset (idtAt k vec)) k s :=
      hrun.invariant_prefix
        (I := fun s => Noted y (fun vec => gateOffset (idtAt k vec)) k s ∧
          OwnIst y (fun vec => gateOffset (idtAt k vec)) k s)
        (fun s e hs hg => ⟨hs.1.step hl hg, hs.2.step hl hs.1 hg⟩)
        ⟨noted_load k idtAt, hist, Or.inl rfl, Or.inl rfl⟩ hpre
    rcases hown.2.location with hzero | hk | ⟨t, ht, hfix, hsaved⟩
    · exact Or.inl hzero
    · exact Or.inr (Or.inl hk)
    · have hdf : t = .df := Trap.vec_injective ht.symm
      subst hdf
      exact Or.inr (Or.inr ⟨hfix, hsaved⟩)
  · exact ⟨extensionInit_ret hnoted hok, fun hext => ((hsealed hext).idle hnoted hok).2⟩
  · rw [hnoted.toCoherent.idtr c]
    exact (hsealed hext).gates v

/-- The fault adaptors, then the extension, on two CPUs. -/
def sampleExtCall (k : ℕ) : ExtCall 2 where
  cpu := ⟨0, Nat.zero_lt_two⟩
  stack := (sampleCall 3 0 k).stack
  clone := (sampleCall 3 0 k).clone

theorem extension_runs_sample :
    let s := runFrom (Entry.step sampleSymbols)
      (extensionLoad 0xfffffe0000000000 fun _ => sampleIdt)
      [.pf (samplePfCall 1), .ext (sampleExtCall 2)]
    ∀ c v, (s.adaptors.idtAt (s.adaptors.idtr c) v).ist ≠ 0#3 := by
  obtain ⟨-, -, -, hsealed⟩ := extension_runs sampleSymbols 0xfffffe0000000000
    (fun _ => sampleIdt) sampleSymbols_laid [.pf (samplePfCall 1), .ext (sampleExtCall 2)]
    (by decide +kernel) _ (List.prefix_refl _)
  exact hsealed ⟨sampleExtCall 2, by simp⟩

end SymbiOS.Adaptor
