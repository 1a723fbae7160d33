import SymbiOS.EfAdaptorInit

/-!
# Interposing on the fault handlers (`pfadaptor.kc`)

`pf_adaptor_init` is told where the kernel's #PF, #DF and #GP handlers are. For
each of them in turn it remembers the address it was given, compares it with the
gate of a cloned table, and puts its own entry there.
-/
namespace SymbiOS.Adaptor

/-- One call of `pf_adaptor_init`: the CPU it runs on, its arguments and the page
of the clone. -/
structure PfCall (n : ℕ) where
  cpu : Fin n
  asmExcPageFault : Addr
  asmExcDoubleFault : Addr
  asmExcGeneralProtection : Addr
  clone : Option Addr

variable {n : ℕ}

/-- The argument that a trap's block works with. -/
def PfCall.handler (f : PfCall n) : Trap → Addr
  | .pf => f.asmExcPageFault
  | .df => f.asmExcDoubleFault
  | .gp => f.asmExcGeneralProtection

/-- What the blocks write: the table under construction, the saved handlers and
the `dirty` flag. -/
structure PfPatch where
  idt : Idt
  exc : Trap → Addr
  dirty : Bool

/-- The saved handler is set once, before the argument is checked. -/
def saveHandler (trap : Trap) (handler : Addr) (s : PfPatch) : PfPatch :=
  if s.exc trap = 0#64 then { s with exc := Function.update s.exc trap handler } else s

/-- The rest of a block; `none` is the jump to `error`. -/
def installFix (y : Symbols) (trap : Trap) (handler : Addr) (s : PfPatch) : Option PfPatch :=
  let gate := s.idt trap.vec
  let val := gateOffset gate
  if val ≠ handler then
    if val ≠ y.fixErrCode trap then none else some s
  else
    some { s with
      idt := Function.update s.idt trap.vec (gateSetOffset gate (y.fixErrCode trap))
      dirty := true }

/-- The blocks in order, with whether all of them were passed. -/
def fixTraps (y : Symbols) (f : PfCall n) : List Trap → PfPatch → Bool × PfPatch
  | [], s => (true, s)
  | trap :: traps, s =>
      let s := saveHandler trap (f.handler trap) s
      match installFix y trap (f.handler trap) s with
      | none => (false, s)
      | some s => fixTraps y f traps s

def pfAdaptorInit (y : Symbols) (f : PfCall n) (s : State n) : Outcome × State n :=
  let cloned := idtAdaptorClone f.cpu f.clone s
  let idt := cloned.1
  let s := cloned.2
  if idt = 0#64 then
    -- the clone is not checked: the first handler is saved, then its gate is
    -- read through the NULL pointer
    (.fault, { s with
      exc := (saveHandler .pf (f.handler .pf) ⟨s.idtAt idt, s.exc, false⟩).exc })
  else
    let r := fixTraps y f [.pf, .df, .gp] ⟨s.idtAt idt, s.exc, false⟩
    let s := { s with idtAt := Function.update s.idtAt idt r.2.idt, exc := r.2.exc }
    if r.1 then
      (.ret 1, if r.2.dirty then idtAdaptorActivate idt s else idtAdaptorRelease idt s)
    else (.ret 0, idtAdaptorRelease idt s)

/-- A call with the handlers of the sample table. -/
def samplePfCall (k : ℕ) : PfCall 2 where
  cpu := ⟨0, Nat.zero_lt_two⟩
  asmExcPageFault := gateOffset (sampleIdt Trap.pf.vec)
  asmExcDoubleFault := gateOffset (sampleIdt Trap.df.vec)
  asmExcGeneralProtection := gateOffset (sampleIdt Trap.gp.vec)
  clone := some (samplePage k)

end SymbiOS.Adaptor
