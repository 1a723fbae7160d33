import Mathlib.Data.BitVec
import Mathlib.Tactic

/-!
# Interrupt gates

The x86-64 `gate_desc`, field by field as the kernel declares it, and the two
accessors of its split handler address (`idtadaptor.h` and the kernel's
`gate_offset`). A descriptor table has one gate for each of the 256 vectors.
-/
namespace SymbiOS.Adaptor

abbrev Addr := BitVec 64
abbrev Vec := Fin 256

structure Gate where
  offsetLow : BitVec 16
  segment : BitVec 16
  ist : BitVec 3
  zero : BitVec 5
  type : BitVec 5
  dpl : BitVec 2
  p : BitVec 1
  offsetMiddle : BitVec 16
  offsetHigh : BitVec 32
  reserved : BitVec 32
  deriving DecidableEq, Repr

abbrev Idt := Vec → Gate

def gateOffset (g : Gate) : Addr :=
  g.offsetLow.setWidth 64 ||| (g.offsetMiddle.setWidth 64 <<< 16) |||
    (g.offsetHigh.setWidth 64 <<< 32)

def gateSetOffset (g : Gate) (addr : Addr) : Gate :=
  { g with
    offsetLow := addr.setWidth 16
    offsetMiddle := (addr >>> 16).setWidth 16
    offsetHigh := (addr >>> 32).setWidth 32 }

/-- The traps that `pf_adaptor_init` interposes on, in its order. -/
inductive Trap
  | pf
  | df
  | gp
  deriving DecidableEq, Repr

/-- `X86_TRAP_PF`, `X86_TRAP_DF` and `X86_TRAP_GP`. -/
def Trap.vec : Trap → Vec
  | .pf => 14
  | .df => 8
  | .gp => 13

lemma Trap.vec_injective : Function.Injective Trap.vec := by
  intro a b h
  cases a <;> cases b <;> first | rfl | exact absurd h (by decide)

/-- The address that is written is the address that is read. -/
@[simp] theorem gateOffset_gateSetOffset (g : Gate) (addr : Addr) :
    gateOffset (gateSetOffset g addr) = addr := by
  ext i hi
  simp only [gateOffset, gateSetOffset, BitVec.getElem_or, BitVec.getElem_setWidth,
    BitVec.getElem_shiftLeft, BitVec.getLsbD_setWidth, BitVec.getLsbD_ushiftRight]
  grind

@[simp] theorem gateSetOffset_ist (g : Gate) (addr : Addr) : (gateSetOffset g addr).ist = g.ist :=
  rfl

@[simp] theorem gateSetOffset_p (g : Gate) (addr : Addr) : (gateSetOffset g addr).p = g.p := rfl

end SymbiOS.Adaptor
