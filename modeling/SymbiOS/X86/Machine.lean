import SymbiOS.X86.Memory

/-!
# A machine for exception entry code

The part of x86-64 that entry code uses: the general registers, the zero, sign
and direction flags, byte-addressed memory, the two GS bases that `swapgs`
exchanges, and CR2. Two logs are kept beside the state: the GS bases that memory
was read through and the addresses that string moves wrote to, newest first.

Code is a block of instructions for each label, and a block that runs into the
next label ends with a jump to it. Nothing comes between two instructions: no access to
memory faults, and no interrupt arrives.
-/
namespace SymbiOS.X86

inductive Reg
  | rax | rbx | rcx | rdx | rsi | rdi | rbp | rsp
  | r8 | r9 | r10 | r11 | r12 | r13 | r14 | r15
  deriving DecidableEq, Repr

structure Regs where
  rax : Word
  rbx : Word
  rcx : Word
  rdx : Word
  rsi : Word
  rdi : Word
  rbp : Word
  rsp : Word
  r8 : Word
  r9 : Word
  r10 : Word
  r11 : Word
  r12 : Word
  r13 : Word
  r14 : Word
  r15 : Word

structure Machine where
  regs : Regs
  mem : Mem
  gsBase : Word
  kernelGsBase : Word
  cr2 : Word
  zf : Bool
  sf : Bool
  df : Bool
  gsReads : List Word
  moved : List Word

/-- A memory operand: `disp(%base)`, `sym(%rip)`, and the two with `%gs:`. -/
inductive Operand
  | based (base : Reg) (disp : Word)
  | sym (addr : Word)
  | gsBased (base : Reg) (disp : Word)
  | gsSym (addr : Word)

inductive Cond
  | z | nz | s | ns

/-- The instructions, over the labels of a program. -/
inductive Instr (L : Type)
  | endbr
  | cld
  | swapgs
  | rdgsbase (dst : Reg)
  | movCr2 (dst : Reg)
  | push (src : Reg)
  | pop (dst : Reg)
  | mov (src dst : Reg)
  | movImm (imm : Word) (dst : Reg)
  | load (src : Operand) (dst : Reg)
  | store (src : Reg) (dst : Operand)
  | storeImm (imm : Word) (dst : Operand)
  | lea (src : Operand) (dst : Reg)
  | addImm (imm : Word) (dst : Reg)
  | subImm (imm : Word) (dst : Reg)
  | andImm (imm : Word) (dst : Reg)
  | andwImm (imm : BitVec 16) (dst : Reg)
  | xor (src dst : Reg)
  | test (src dst : Reg)
  | testImm (imm : Word) (dst : Reg)
  | cmpImm (imm : Word) (dst : Reg)
  | cmpMem (imm : Word) (dst : Operand)
  | testb (imm : Byte) (dst : Operand)
  | testl (imm : BitVec 32) (dst : Operand)
  | orl (imm : BitVec 32) (dst : Operand)
  | andl (imm : BitVec 32) (dst : Operand)
  | repMovsq
  | jmp (target : L)
  | jcc (cond : Cond) (target : L)
  | jmpMem (target : Operand)
  | ret

def Regs.get (s : Regs) : Reg → Word
  | .rax => s.rax
  | .rbx => s.rbx
  | .rcx => s.rcx
  | .rdx => s.rdx
  | .rsi => s.rsi
  | .rdi => s.rdi
  | .rbp => s.rbp
  | .rsp => s.rsp
  | .r8 => s.r8
  | .r9 => s.r9
  | .r10 => s.r10
  | .r11 => s.r11
  | .r12 => s.r12
  | .r13 => s.r13
  | .r14 => s.r14
  | .r15 => s.r15

def Regs.set (s : Regs) (r : Reg) (v : Word) : Regs :=
  match r with
  | .rax => { s with rax := v }
  | .rbx => { s with rbx := v }
  | .rcx => { s with rcx := v }
  | .rdx => { s with rdx := v }
  | .rsi => { s with rsi := v }
  | .rdi => { s with rdi := v }
  | .rbp => { s with rbp := v }
  | .rsp => { s with rsp := v }
  | .r8 => { s with r8 := v }
  | .r9 => { s with r9 := v }
  | .r10 => { s with r10 := v }
  | .r11 => { s with r11 := v }
  | .r12 => { s with r12 := v }
  | .r13 => { s with r13 := v }
  | .r14 => { s with r14 := v }
  | .r15 => { s with r15 := v }

namespace Machine

def setReg (m : Machine) (r : Reg) (v : Word) : Machine := { m with regs := m.regs.set r v }

def setFlags (m : Machine) (zf sf : Bool) : Machine := { m with zf := zf, sf := sf }

/-- The effective address of an operand. -/
def address (m : Machine) : Operand → Word
  | .based base disp => m.regs.get base + disp
  | .sym addr => addr
  | .gsBased base disp => m.gsBase + (m.regs.get base + disp)
  | .gsSym addr => m.gsBase + addr

/-- Note the GS base when an operand is read through it. -/
def noteRead (m : Machine) : Operand → Machine
  | .based _ _ | .sym _ => m
  | .gsBased _ _ | .gsSym _ => { m with gsReads := m.gsBase :: m.gsReads }

def holds (m : Machine) : Cond → Bool
  | .z => m.zf
  | .nz => !m.zf
  | .s => m.sf
  | .ns => !m.sf

end Machine

variable {L : Type}

/-- The addresses a string move writes to, newest first. -/
def destinations (stride : Word) : ℕ → Word → List Word
  | 0, _ => []
  | n + 1, dst => destinations stride n (dst + stride) ++ [dst]

/-- The effect of an instruction that does not transfer control. -/
def step (i : Instr L) (m : Machine) : Machine :=
  match i with
  | .endbr => m
  | .cld => { m with df := false }
  | .swapgs => { m with gsBase := m.kernelGsBase, kernelGsBase := m.gsBase }
  | .rdgsbase dst => m.setReg dst m.gsBase
  | .movCr2 dst => m.setReg dst m.cr2
  | .push src =>
      { m.setReg .rsp (m.regs.rsp - 8#64) with
        mem := write64 m.mem (m.regs.rsp - 8#64) (m.regs.get src) }
  | .pop dst => (m.setReg .rsp (m.regs.rsp + 8#64)).setReg dst (read64 m.mem m.regs.rsp)
  | .mov src dst => m.setReg dst (m.regs.get src)
  | .movImm imm dst => m.setReg dst imm
  | .load src dst => (m.noteRead src).setReg dst (read64 m.mem (m.address src))
  | .store src dst => { m with mem := write64 m.mem (m.address dst) (m.regs.get src) }
  | .storeImm imm dst => { m with mem := write64 m.mem (m.address dst) imm }
  | .lea src dst => m.setReg dst (m.address src)
  | .addImm imm dst =>
      let v := m.regs.get dst + imm
      (m.setReg dst v).setFlags (v == 0#64) v.msb
  | .subImm imm dst =>
      let v := m.regs.get dst - imm
      (m.setReg dst v).setFlags (v == 0#64) v.msb
  | .andImm imm dst =>
      let v := m.regs.get dst &&& imm
      (m.setReg dst v).setFlags (v == 0#64) v.msb
  | .andwImm imm dst =>
      let v := (m.regs.get dst).setWidth 16 &&& imm
      (m.setReg dst (m.regs.get dst &&& 0xffffffffffff0000#64 ||| v.setWidth 64)).setFlags
        (v == 0#16) v.msb
  | .xor src dst =>
      let v := m.regs.get dst ^^^ m.regs.get src
      (m.setReg dst v).setFlags (v == 0#64) v.msb
  | .test src dst =>
      let v := m.regs.get dst &&& m.regs.get src
      m.setFlags (v == 0#64) v.msb
  | .testImm imm dst =>
      let v := m.regs.get dst &&& imm
      m.setFlags (v == 0#64) v.msb
  | .cmpImm imm dst =>
      let v := m.regs.get dst - imm
      m.setFlags (v == 0#64) v.msb
  | .cmpMem imm dst =>
      let v := read64 m.mem (m.address dst) - imm
      (m.noteRead dst).setFlags (v == 0#64) v.msb
  | .testb imm dst =>
      let v := m.mem (m.address dst) &&& imm
      (m.noteRead dst).setFlags (v == 0#8) v.msb
  | .testl imm dst =>
      let v := read32 m.mem (m.address dst) &&& imm
      (m.noteRead dst).setFlags (v == 0#32) v.msb
  | .orl imm dst =>
      let v := read32 m.mem (m.address dst) ||| imm
      { (m.noteRead dst).setFlags (v == 0#32) v.msb with mem := write32 m.mem (m.address dst) v }
  | .andl imm dst =>
      let v := read32 m.mem (m.address dst) &&& imm
      { (m.noteRead dst).setFlags (v == 0#32) v.msb with mem := write32 m.mem (m.address dst) v }
  | .repMovsq =>
      let stride : Word := bif m.df then -8#64 else 8#64
      let n := m.regs.rcx.toNat
      { m with
        regs := { m.regs with
          rsi := m.regs.rsi + stride * m.regs.rcx
          rdi := m.regs.rdi + stride * m.regs.rcx
          rcx := 0#64 }
        mem := moveWords stride n m.regs.rsi m.regs.rdi m.mem
        moved := destinations stride n m.regs.rdi ++ m.moved }
  | .jmp _ | .jcc _ _ | .jmpMem _ | .ret => m

/-- Where control goes at the end of a block. -/
inductive Flow (L : Type)
  | goto (target : L) (m : Machine)
  | jump (target : Word) (m : Machine)
  | ret (target : Word) (m : Machine)
  | trap (m : Machine)

def runBlock : List (Instr L) → Machine → Flow L
  | [], m => .trap m
  | .jmp target :: _, m => .goto target m
  | .jcc cond target :: rest, m => bif m.holds cond then .goto target m else runBlock rest m
  | .jmpMem target :: _, m => .jump (read64 m.mem (m.address target)) (m.noteRead target)
  | .ret :: _, m =>
      .ret (read64 m.mem m.regs.rsp) (m.setReg .rsp (m.regs.rsp + 8#64))
  | i :: rest, m => runBlock rest (step i m)

/-- Run from a label until control leaves the program; `none` when the fuel, one
for each block, does not suffice. -/
def run (code : L → List (Instr L)) : ℕ → L → Machine → Option (Flow L)
  | 0, _, _ => none
  | fuel + 1, label, m =>
      match runBlock (code label) m with
      | .goto target m => run code fuel target m
      | flow => some flow

/-- A block that ends in a jump to a label hands over to it. -/
lemma run_goto {code : L → List (Instr L)} {label target : L} {m m' : Machine}
    (h : runBlock (code label) m = .goto target m') (fuel : ℕ) :
    run code (fuel + 1) label m = run code fuel target m' := by
  rw [run, h]

end SymbiOS.X86
