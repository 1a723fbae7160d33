import SymbiOS.InterposerHandlers

/-!
# The fault-code routines (`pfasm.kS`)

The gates of the page fault, the double fault and the general protection fault lead to three
routines that count the fault, adjust its error code and go on in the handler that the gate
led to before. A routine whose frame lies on a user stack first stores a byte one page below
the stack pointer, with interrupts enabled, so that a stack page that is missing is faulted in
here and not in the handler. The registers they need are saved on the stack.
-/
namespace SymbiOS.FaultCode
open SymbiOS.X86

/-- Addresses and offsets that the linker and the kernel headers provide. -/
structure Layout where
  pfAdaptorPfCnt : Word
  pfAdaptorDfCnt : Word
  pfAdaptorGpCnt : Word
  excPageFault : Word
  excDoubleFault : Word
  excGeneralProtection : Word
  currentTask : Word
  taskSymbioteElevated : Word

def ERRCODE_PF_WRITE : BitVec 32 := 1#32 <<< 1
def ERRCODE_PF_USER : BitVec 32 := 1#32 <<< 2

inductive Label
  | fixErrCodeU
  | skipStackTouch
  | skipUserBit
  | fixErrCodeUw
  | skipDfSet
  | fixErrCodeGp
  | gpSkipStackTouch
  deriving DecidableEq

/-- The instructions of the machine, and those that only these routines use. -/
inductive Instr
  | x86 (i : X86.Instr Label)
  | incq (dst : Operand)
  | sti
  | cli
  | movb (imm : Byte) (dst : Operand)

/-- The machine with its interrupt flag. `touches` logs the bytes that `movb` stored to, each
with the interrupt flag of that moment, newest first. -/
structure Cpu where
  core : Machine
  interrupts : Bool
  touches : List (Word × Bool)

/-- The effect of an instruction that does not transfer control. -/
def line : Instr → Cpu → Cpu
  | .x86 i, c => { c with core := step i c.core }
  | .incq dst, c =>
      let v := read64 c.core.mem (c.core.address dst) + 1#64
      { c with
        core := { c.core.setFlags (v == 0#64) v.msb with
          mem := write64 c.core.mem (c.core.address dst) v } }
  | .sti, c => { c with interrupts := true }
  | .cli, c => { c with interrupts := false }
  | .movb imm dst, c =>
      { c with
        core := { c.core with mem := storeByte c.core.mem (c.core.address dst) imm }
        touches := (c.core.address dst, c.interrupts) :: c.touches }

def code (y : Layout) : Label → List Instr
  | .fixErrCodeU =>
      [.incq (.sym y.pfAdaptorPfCnt),
       .x86 (.test .rsp .rsp),
       .x86 (.jcc .s .skipStackTouch),
       .sti,
       .movb 1#8 (.based .rsp (-0x1000#64)),
       .cli,
       .x86 (.jmp .skipStackTouch)]
  | .skipStackTouch =>
      [.x86 (.push .rax),
       .x86 (.rdgsbase .rax),
       .x86 (.test .rax .rax),
       .x86 (.jcc .ns .skipUserBit),
       .x86 (.load (.gsSym y.currentTask) .rax),
       .x86 (.testb 1#8 (.based .rax y.taskSymbioteElevated)),
       .x86 (.jcc .z .skipUserBit),
       .x86 (.orl ERRCODE_PF_USER (.based .rsp 8#64)),
       .x86 (.jmp .skipUserBit)]
  | .skipUserBit =>
      [.x86 (.pop .rax),
       .x86 (.jmpMem (.sym y.excPageFault))]
  | .fixErrCodeUw =>
      [.incq (.sym y.pfAdaptorDfCnt),
       .x86 (.push .rax),
       .x86 (.rdgsbase .rax),
       .x86 (.test .rax .rax),
       .x86 (.jcc .ns .skipDfSet),
       .x86 (.load (.gsSym y.currentTask) .rax),
       .x86 (.testb 1#8 (.based .rax y.taskSymbioteElevated)),
       .x86 (.jcc .z .skipDfSet),
       .x86 (.orl (ERRCODE_PF_USER ||| ERRCODE_PF_WRITE) (.based .rsp 8#64)),
       .x86 (.pop .rax),
       .x86 (.jmpMem (.sym y.excPageFault))]
  | .skipDfSet =>
      [.x86 (.pop .rax),
       .x86 (.jmpMem (.sym y.excDoubleFault))]
  | .fixErrCodeGp =>
      [.incq (.sym y.pfAdaptorGpCnt),
       .x86 (.test .rsp .rsp),
       .x86 (.jcc .s .gpSkipStackTouch),
       .sti,
       .movb 1#8 (.based .rsp (-0x1000#64)),
       .cli,
       .x86 (.jmp .gpSkipStackTouch)]
  | .gpSkipStackTouch =>
      [.x86 (.jmpMem (.sym y.excGeneralProtection))]

/-- Where control goes at the end of a block. -/
inductive Flow
  | goto (target : Label) (c : Cpu)
  | jump (target : Word) (c : Cpu)
  | lost (c : Cpu)

def runBlock : List Instr → Cpu → Flow
  | [], c => .lost c
  | .x86 (.jmp target) :: _, c => .goto target c
  | .x86 (.jcc cond target) :: rest, c =>
      bif c.core.holds cond then .goto target c else runBlock rest c
  | .x86 (.jmpMem target) :: _, c => .jump (read64 c.core.mem (c.core.address target)) c
  | i :: rest, c => runBlock rest (line i c)

/-- Run from a label until control leaves the file; `none` when the fuel, one for each block,
does not suffice. -/
def run (code : Label → List Instr) : ℕ → Label → Cpu → Option Flow
  | 0, _, _ => none
  | fuel + 1, label, c =>
      match runBlock (code label) c with
      | .goto target c => run code fuel target c
      | flow => some flow

inductive Routine
  | u | uw | gp
  deriving DecidableEq

namespace Routine

def entry : Routine → Label
  | u => .fixErrCodeU
  | uw => .fixErrCodeUw
  | gp => .fixErrCodeGp

def counter (y : Layout) : Routine → Word
  | u => y.pfAdaptorPfCnt
  | uw => y.pfAdaptorDfCnt
  | gp => y.pfAdaptorGpCnt

/-- The bits of the error code that are set for an elevated task. -/
def bits : Routine → Word
  | u => 4#64
  | uw => 6#64
  | gp => 0#64

/-- The cell of the handler that runs next. -/
def target (y : Layout) : Routine → Bool → Word
  | u, _ => y.excPageFault
  | uw, true => y.excPageFault
  | uw, false => y.excDoubleFault
  | gp, _ => y.excGeneralProtection

/-- Whether the routine saves `%rax` and touches the stack. -/
def saves : Routine → Bool
  | u | uw => true
  | gp => false

def touches : Routine → Machine → Bool
  | u, m | gp, m => !m.regs.rsp.msb
  | uw, _ => false

end Routine

def taskSlot (y : Layout) (m : Machine) : Word := m.gsBase + y.currentTask

def elevatedByte (y : Layout) (m : Machine) : Word :=
  read64 m.mem (taskSlot y m) + y.taskSymbioteElevated

/-- The GS base is a kernel address and the current task is elevated. -/
def elevated (y : Layout) (m : Machine) : Bool :=
  m.gsBase.msb && (m.mem (elevatedByte y m)).getLsbD 0

/-- The bytes at and below the stack pointer that a routine stores to. -/
def OnStack (r : Routine) (m : Machine) (b : Word) : Prop :=
  (r.touches m = true ∧ b = m.regs.rsp - 0x1000#64) ∨
  (r.saves = true ∧ (b - (m.regs.rsp - 8#64)).toNat < 16)

def Written (y : Layout) (r : Routine) (m : Machine) (b : Word) : Prop :=
  (b - r.counter y).toNat < 8 ∨ OnStack r m b

instance (r : Routine) (m : Machine) (b : Word) : Decidable (OnStack r m b) :=
  inferInstanceAs (Decidable (_ ∨ _))

instance (y : Layout) (r : Routine) (m : Machine) (b : Word) : Decidable (Written y r m b) :=
  inferInstanceAs (Decidable (_ ∨ _))

/-- The counter is not on the stack, nor is what the routine reads in either. -/
structure Clear (y : Layout) (r : Routine) (m : Machine) : Prop where
  counter : ∀ j < 8, ¬ OnStack r m (r.counter y + BitVec.ofNat 64 j)
  errorCode : ∀ j < 8, 8 ≤ (m.regs.rsp + BitVec.ofNat 64 j - r.counter y).toNat
  task : ∀ j < 8, ¬ Written y r m (taskSlot y m + BitVec.ofNat 64 j)
  elevated : ¬ Written y r m (elevatedByte y m)
  handler : ∀ e, ∀ j < 8, ¬ Written y r m (r.target y e + BitVec.ofNat 64 j)

/-- What a routine leaves behind. -/
structure Fixed (y : Layout) (r : Routine) (c c' : Cpu) : Prop where
  regs : c'.core.regs = c.core.regs
  gsBase : c'.core.gsBase = c.core.gsBase
  kernelGsBase : c'.core.kernelGsBase = c.core.kernelGsBase
  interrupts : c'.interrupts = (c.interrupts && !r.touches c.core)
  touches : c'.touches =
    bif r.touches c.core then (c.core.regs.rsp - 0x1000#64, true) :: c.touches else c.touches
  counter : read64 c'.core.mem (r.counter y) = read64 c.core.mem (r.counter y) + 1#64
  errorCode : read64 c'.core.mem c.core.regs.rsp = read64 c.core.mem c.core.regs.rsp |||
    bif elevated y c.core then r.bits else 0#64
  frame : ∀ b, ¬ Written y r c.core b → c'.core.mem b = c.core.mem b

variable {y : Layout} {r : Routine} {m : Machine} {c : Cpu} {mem : Mem} {b : Word}

def counted (y : Layout) (r : Routine) (m : Machine) : Mem :=
  write64 m.mem (r.counter y) (read64 m.mem (r.counter y) + 1#64)

def touched (y : Layout) (r : Routine) (m : Machine) : Mem :=
  bif r.touches m then storeByte (counted y r m) (m.regs.rsp - 0x1000#64) 1#8 else counted y r m

def spilled (y : Layout) (r : Routine) (m : Machine) : Mem :=
  bif r.saves then write64 (touched y r m) (m.regs.rsp - 8#64) m.regs.rax else touched y r m

def left (y : Layout) (r : Routine) (m : Machine) : Mem :=
  bif r.saves && elevated y m then
    write64 (spilled y r m) m.regs.rsp (read64 (spilled y r m) m.regs.rsp ||| r.bits)
  else spilled y r m

lemma touched_of_not_onStack (h : ¬ OnStack r m b) : touched y r m b = counted y r m b := by
  cases ht : r.touches m
  · simp only [touched, ht, cond_false]
  · have hb : b ≠ m.regs.rsp - 0x1000#64 := fun he => h (Or.inl ⟨ht, he⟩)
    simp only [touched, ht, cond_true, storeByte, if_neg hb]

lemma left_of_not_onStack (h : ¬ OnStack r m b) : left y r m b = counted y r m b := by
  have htouched : touched y r m b = counted y r m b := touched_of_not_onStack h
  cases hs : r.saves
  · simpa only [left, spilled, hs, Bool.false_and, cond_false] using htouched
  · have hb : ¬ (b - (m.regs.rsp - 8#64)).toNat < 16 := fun hb => h (Or.inr ⟨hs, hb⟩)
    have hspilled : spilled y r m b = counted y r m b := by
      rw [spilled, hs, cond_true, write64_of_ge (by omega), htouched]
    cases he : elevated y m
    · simpa only [left, hs, he, Bool.and_false, cond_false] using hspilled
    · rw [left, hs, he, Bool.and_self, cond_true, write64_of_ge (by bv_omega), hspilled]

lemma left_of_not_written (h : ¬ Written y r m b) : left y r m b = m.mem b := by
  rw [Written, not_or] at h
  rw [left_of_not_onStack h.2]
  exact write64_of_ge (by omega)

/-- The same before the error code is changed. -/
lemma spilled_of_not_written (h : ¬ Written y r m b) : spilled y r m b = m.mem b := by
  rw [Written, not_or] at h
  have htouched : touched y r m b = m.mem b := by
    rw [touched_of_not_onStack h.2]
    exact write64_of_ge (by omega)
  cases hs : r.saves
  · simpa only [spilled, hs, cond_false] using htouched
  · have hb : ¬ (b - (m.regs.rsp - 8#64)).toNat < 16 := fun hb => h.2 (Or.inr ⟨hs, hb⟩)
    rw [spilled, hs, cond_true, write64_of_ge (by omega), htouched]

/-- The routine finds the task elevated if it is. -/
lemma elevated_spilled (h : Clear y r m) (regs : Regs) (zf sf : Bool) (reads : List Word) :
    elevated y { m with
      regs := regs, mem := spilled y r m, zf := zf, sf := sf, gsReads := reads } =
      elevated y m := by
  have hslot : read64 (spilled y r m) (taskSlot y m) = read64 m.mem (taskSlot y m) :=
    read64_congr fun j hj => spilled_of_not_written (h.task j hj)
  have hbyte : spilled y r m (elevatedByte y m) = m.mem (elevatedByte y m) :=
    spilled_of_not_written h.elevated
  simp only [elevated, elevatedByte, taskSlot] at hslot hbyte ⊢
  rw [hslot, hbyte]

/-- The handler is the one that was there at entry. -/
lemma handler_left (h : Clear y r m) (e : Bool) :
    read64 (left y r m) (r.target y e) = read64 m.mem (r.target y e) :=
  read64_congr fun j hj => left_of_not_written (h.handler e j hj)

lemma counter_left (h : Clear y r m) :
    read64 (left y r m) (r.counter y) = read64 m.mem (r.counter y) + 1#64 := by
  have hsame : read64 (left y r m) (r.counter y) = read64 (counted y r m) (r.counter y) :=
    read64_congr fun j hj => left_of_not_onStack (h.counter j hj)
  rw [hsame]
  exact read64_storeWords_cons _ _ _ []

/-- The error code is above what is stored before it is changed. -/
lemma errorCode_spilled (h : Clear y r m) :
    read64 (spilled y r m) m.regs.rsp = read64 m.mem m.regs.rsp := by
  apply read64_congr
  intro j hj
  have hcounted : counted y r m (m.regs.rsp + BitVec.ofNat 64 j) =
      m.mem (m.regs.rsp + BitVec.ofNat 64 j) := write64_of_ge (h.errorCode j hj)
  have htouch : m.regs.rsp + BitVec.ofNat 64 j ≠ m.regs.rsp - 0x1000#64 := by bv_omega
  have htouched : touched y r m (m.regs.rsp + BitVec.ofNat 64 j) =
      m.mem (m.regs.rsp + BitVec.ofNat 64 j) := by
    cases ht : r.touches m
    · simpa only [touched, ht, cond_false] using hcounted
    · simpa only [touched, ht, cond_true, storeByte, if_neg htouch] using hcounted
  cases hs : r.saves
  · simpa only [spilled, hs, cond_false] using htouched
  · rw [spilled, hs, cond_true, write64_of_ge (by bv_omega), htouched]

lemma errorCode_left (h : Clear y r m) :
    read64 (left y r m) m.regs.rsp =
      read64 m.mem m.regs.rsp ||| bif elevated y m then r.bits else 0#64 := by
  have hspilled : read64 (spilled y r m) m.regs.rsp = read64 m.mem m.regs.rsp :=
    errorCode_spilled h
  cases hl : r.saves && elevated y m
  · rw [left, hl, cond_false, hspilled]
    cases he : elevated y m
    · rw [cond_false, BitVec.or_zero]
    · -- only the general protection fault saves nothing
      cases r <;> simp [he, Routine.saves] at hl
      rw [cond_true, Routine.bits, BitVec.or_zero]
  · rw [left, hl, cond_true, (Bool.and_eq_true_iff.mp hl).2, cond_true, hspilled]
    exact read64_storeWords_cons _ _ _ []

/-- The saved register is popped again. -/
lemma saved_left (hs : r.saves = true) : read64 (left y r m) (m.regs.rsp - 8#64) = m.regs.rax := by
  have hspilled : read64 (spilled y r m) (m.regs.rsp - 8#64) = m.regs.rax := by
    rw [spilled, hs, cond_true]
    exact read64_storeWords_cons _ _ _ []
  cases he : elevated y m
  · rw [left, hs, he, Bool.and_false, cond_false, hspilled]
  · rw [left, hs, he, Bool.and_self, cond_true, ← hspilled]
    apply read64_congr
    intro j hj
    exact write64_of_ge (by bv_omega)

/-- After the stack has been touched, or not. -/
def prepared (y : Layout) (r : Routine) (c : Cpu) (zf sf : Bool) : Cpu where
  core := { c.core with mem := touched y r c.core, zf := zf, sf := sf }
  interrupts := c.interrupts && !r.touches c.core
  touches :=
    bif r.touches c.core then (c.core.regs.rsp - 0x1000#64, true) :: c.touches else c.touches

/-- When only the saved register is still on the stack. -/
def tested (y : Layout) (r : Routine) (c : Cpu) (mem : Mem) (rax : Word) (zf sf : Bool)
    (reads : List Word) : Cpu :=
  { prepared y r c zf sf with
    core := { c.core with
      regs := { c.core.regs with rax := rax, rsp := c.core.regs.rsp - 8#64 }
      mem := mem, zf := zf, sf := sf, gsReads := reads } }

/-- At the jump to the handler. -/
def finished (y : Layout) (r : Routine) (c : Cpu) (zf sf : Bool) (reads : List Word) : Cpu :=
  { prepared y r c zf sf with
    core := { c.core with mem := left y r c.core, zf := zf, sf := sf, gsReads := reads } }

/-- The routines that touch the stack do so in their first block. -/
lemma runBlock_touch (c : Cpu) (cnt : Word) (next : Label) (hr : r ≠ .uw)
    (hcnt : r.counter y = cnt) :
    ∃ zf sf, runBlock
        [.incq (.sym cnt), .x86 (.test .rsp .rsp), .x86 (.jcc .s next), .sti,
          .movb 1#8 (.based .rsp (-0x1000#64)), .cli, .x86 (.jmp next)] c =
      .goto next (prepared y r c zf sf) := by
  have htouches : r.touches c.core = !c.core.regs.rsp.msb := by
    cases r
    · rfl
    · exact absurd rfl hr
    · rfl
  refine ⟨c.core.regs.rsp == 0#64, c.core.regs.rsp.msb, ?_⟩
  cases hs : c.core.regs.rsp.msb
  all_goals
    simp only [runBlock, line, step, Machine.setFlags, Machine.holds, Machine.address, Regs.get,
      BitVec.and_self, hs, cond_true, cond_false, prepared, touched, counted, htouches, hcnt,
      Bool.not_false, Bool.not_true, Bool.and_false, Bool.and_true, BitVec.sub_eq_add_neg]

/-- The two tests as the code makes them. -/
lemma elevated_eq (y : Layout) (m : Machine) :
    elevated y m =
      (m.gsBase.msb && !(m.mem (read64 m.mem (m.gsBase + y.currentTask) +
        y.taskSymbioteElevated) &&& 1#8 == 0#8)) := by
  have hbit (v : Byte) : (v &&& 1#8 == 0#8) = !v.getLsbD 0 := by
    revert v
    decide
  rw [hbit, Bool.not_not]
  rfl

/-- The rest of a block is reached by an elevated task. -/
lemma runBlock_test (h : Clear y r c.core) (hs : r.saves = true) {imm : BitVec 32}
    (himm : imm.setWidth 64 = r.bits) (skip : Label) (rest : List Instr) (zf sf : Bool) :
    ∃ rax zf' sf' reads, runBlock
        (.x86 (.push .rax) :: .x86 (.rdgsbase .rax) :: .x86 (.test .rax .rax) ::
          .x86 (.jcc .ns skip) :: .x86 (.load (.gsSym y.currentTask) .rax) ::
          .x86 (.testb 1#8 (.based .rax y.taskSymbioteElevated)) :: .x86 (.jcc .z skip) ::
          .x86 (.orl imm (.based .rsp 8#64)) :: rest) (prepared y r c zf sf) =
      bif elevated y c.core then
        runBlock rest (tested y r c (left y r c.core) rax zf' sf' reads)
      else .goto skip (tested y r c (left y r c.core) rax zf' sf' reads) := by
  have helevated := elevated_spilled h c.core.regs c.core.zf c.core.sf c.core.gsReads
  have hmem : write64 (touched y r c.core) (c.core.regs.rsp - 8#64) c.core.regs.rax =
      spilled y r c.core := by rw [spilled, hs, cond_true]
  have hback : c.core.regs.rsp - 8#64 + 8#64 = c.core.regs.rsp := BitVec.sub_add_cancel _ _
  simp only [elevated_eq] at helevated
  cases hgs : c.core.gsBase.msb
  · refine ⟨c.core.gsBase, c.core.gsBase == 0#64, false, c.core.gsReads, ?_⟩
    simp only [runBlock, line, step, Machine.setFlags, Machine.setReg, Machine.holds,
      Regs.get, Regs.set, BitVec.and_self, hgs, cond_true, cond_false, prepared,
      tested, left, elevated, Bool.false_and, Bool.and_false, Bool.not_false, hmem]
  · simp only [hgs, Bool.true_and] at helevated
    have he : elevated y c.core = !(c.core.mem (read64 c.core.mem (c.core.gsBase +
        y.currentTask) + y.taskSymbioteElevated) &&& 1#8 == 0#8) := by
      rw [elevated_eq, hgs, Bool.true_and]
    rw [← helevated] at he
    cases hz : spilled y r c.core (read64 (spilled y r c.core) (c.core.gsBase + y.currentTask) +
        y.taskSymbioteElevated) &&& 1#8 == 0#8
    all_goals
      rw [hz] at he
      simp only [runBlock, line, step, Machine.setFlags, Machine.setReg, Machine.holds,
        Machine.address, Machine.noteRead, Regs.get, Regs.set, BitVec.and_self, hgs, cond_true,
        cond_false, prepared, tested, left, he, hs, Bool.and_self, Bool.and_false, Bool.not_false,
        Bool.not_true, hmem, hz, hback, write32_or, himm]
      exact ⟨_, _, _, _, rfl⟩

lemma line_pop (hs : r.saves = true) (rax : Word) (zf sf : Bool) (reads : List Word) :
    line (.x86 (.pop .rax)) (tested y r c (left y r c.core) rax zf sf reads) =
      finished y r c zf sf reads := by
  simp only [line, step, tested, finished, prepared, Machine.setReg, Regs.set,
    BitVec.sub_add_cancel, saved_left hs]

/-- What is stored at the jump is as `Fixed` says. -/
lemma fixed_finished (h : Clear y r c.core) (zf sf : Bool) (reads : List Word) :
    Fixed y r c (finished y r c zf sf reads) where
  regs := rfl
  gsBase := rfl
  kernelGsBase := rfl
  interrupts := rfl
  touches := rfl
  counter := counter_left h
  errorCode := errorCode_left h
  frame := fun _ hb => left_of_not_written hb

lemma run_jump {code : Label → List Instr} {label : Label} {c' : Cpu} {t : Word}
    (h : runBlock (code label) c = .jump t c') (fuel : ℕ) :
    run code (fuel + 1) label c = some (.jump t c') := by
  rw [run, h]

lemma run_goto {code : Label → List Instr} {label next : Label} {c' : Cpu}
    (h : runBlock (code label) c = .goto next c') (fuel : ℕ) :
    run code (fuel + 1) label c = run code fuel next c' := by
  rw [run, h]

lemma run_fixErrCodeU (h : Clear y .u c.core) (fuel : ℕ) :
    ∃ zf sf reads, run (code y) (fuel + 3) .fixErrCodeU c =
      some (.jump (read64 c.core.mem y.excPageFault) (finished y .u c zf sf reads)) := by
  obtain ⟨zf, sf, hfirst⟩ := runBlock_touch c y.pfAdaptorPfCnt .skipStackTouch (r := .u)
    (by decide) rfl
  obtain ⟨rax, zf', sf', reads, hsecond⟩ := runBlock_test h rfl
    (by decide : ERRCODE_PF_USER.setWidth 64 = _) .skipUserBit [.x86 (.jmp .skipUserBit)] zf sf
  have hnext : runBlock (code y .skipStackTouch) (prepared y .u c zf sf) =
      .goto .skipUserBit (tested y .u c (left y .u c.core) rax zf' sf' reads) :=
    hsecond.trans (by cases elevated y c.core <;> rfl)
  have hlast : runBlock (code y .skipUserBit)
        (tested y .u c (left y .u c.core) rax zf' sf' reads) =
      .jump (read64 c.core.mem y.excPageFault) (finished y .u c zf' sf' reads) := by
    show runBlock [_] (line (.x86 (.pop .rax)) _) = _
    rw [line_pop rfl]
    exact congrArg (Flow.jump · _) (handler_left h true)
  exact ⟨zf', sf', reads, (run_goto hfirst _).trans ((run_goto hnext _).trans (run_jump hlast _))⟩

lemma run_fixErrCodeUw (h : Clear y .uw c.core) (fuel : ℕ) :
    ∃ zf sf reads, run (code y) (fuel + 3) .fixErrCodeUw c =
      some (.jump (read64 c.core.mem (Routine.uw.target y (elevated y c.core)))
        (finished y .uw c zf sf reads)) := by
  have hfirst : line (.incq (.sym y.pfAdaptorDfCnt)) c =
      prepared y .uw c (read64 c.core.mem y.pfAdaptorDfCnt + 1#64 == 0#64)
        (read64 c.core.mem y.pfAdaptorDfCnt + 1#64).msb := by
    simp only [line, prepared, touched, counted, Routine.touches, Routine.counter,
      Machine.setFlags, Machine.address, cond_false, Bool.not_false, Bool.and_true]
  obtain ⟨rax, zf, sf, reads, htest⟩ := runBlock_test h rfl
    (by decide : (ERRCODE_PF_USER ||| ERRCODE_PF_WRITE).setWidth 64 = _) .skipDfSet
    [.x86 (.pop .rax), .x86 (.jmpMem (.sym y.excPageFault))]
    (read64 c.core.mem y.pfAdaptorDfCnt + 1#64 == 0#64)
    (read64 c.core.mem y.pfAdaptorDfCnt + 1#64).msb
  rw [← hfirst] at htest
  refine ⟨zf, sf, reads, ?_⟩
  cases he : elevated y c.core
  · have hnext : runBlock (code y .fixErrCodeUw) c =
        .goto .skipDfSet (tested y .uw c (left y .uw c.core) rax zf sf reads) :=
      htest.trans (by rw [he, cond_false])
    have hlast : runBlock (code y .skipDfSet)
          (tested y .uw c (left y .uw c.core) rax zf sf reads) =
        .jump (read64 c.core.mem y.excDoubleFault) (finished y .uw c zf sf reads) := by
      show runBlock [_] (line (.x86 (.pop .rax)) _) = _
      rw [line_pop rfl]
      exact congrArg (Flow.jump · _) (handler_left h false)
    exact (run_goto hnext _).trans (run_jump hlast _)
  · have hlast : runBlock (code y .fixErrCodeUw) c =
        .jump (read64 c.core.mem y.excPageFault) (finished y .uw c zf sf reads) := by
      refine htest.trans ?_
      rw [he, cond_true]
      show runBlock [_] (line (.x86 (.pop .rax)) _) = _
      rw [line_pop rfl]
      exact congrArg (Flow.jump · _) (handler_left h true)
    exact run_jump hlast _

lemma run_fixErrCodeGp (h : Clear y .gp c.core) (fuel : ℕ) :
    ∃ zf sf reads, run (code y) (fuel + 2) .fixErrCodeGp c =
      some (.jump (read64 c.core.mem y.excGeneralProtection) (finished y .gp c zf sf reads)) := by
  obtain ⟨zf, sf, hfirst⟩ := runBlock_touch c y.pfAdaptorGpCnt .gpSkipStackTouch (r := .gp)
    (by decide) rfl
  have hlast : runBlock (code y .gpSkipStackTouch) (prepared y .gp c zf sf) =
      .jump (read64 c.core.mem y.excGeneralProtection)
        (finished y .gp c zf sf c.core.gsReads) :=
    congrArg (Flow.jump · _) (handler_left h true)
  exact ⟨zf, sf, _, (run_goto hfirst _).trans (run_jump hlast _)⟩

/-- For every routine and every machine whose counter, task and handlers are not among the
bytes that the routine stores to: the routine ends in a jump to the handler that its cell
names, which for a double fault is the page-fault handler just when the task is elevated. The
registers and the GS bases are as at entry, the counter is one higher, the error code has the
routine's bits added just when the task is elevated, and every other byte is as it was, except
for the word below the stack pointer and the byte touched one page below it. That byte is
stored with interrupts enabled, just for a frame on a user stack, and they are disabled after. -/
theorem routine_spec (y : Layout) (r : Routine) (c : Cpu) (h : Clear y r c.core) (fuel : ℕ) :
    ∃ exit, run (code y) (fuel + 3) r.entry c =
        some (.jump (read64 c.core.mem (r.target y (elevated y c.core))) exit) ∧
      Fixed y r c exit := by
  cases r with
  | u =>
    obtain ⟨zf, sf, reads, hrun⟩ := run_fixErrCodeU h fuel
    exact ⟨_, hrun, fixed_finished h zf sf reads⟩
  | uw =>
    obtain ⟨zf, sf, reads, hrun⟩ := run_fixErrCodeUw h fuel
    exact ⟨_, hrun, fixed_finished h zf sf reads⟩
  | gp =>
    obtain ⟨zf, sf, reads, hrun⟩ := run_fixErrCodeGp h (fuel + 1)
    exact ⟨_, hrun, fixed_finished h zf sf reads⟩

def demoLayout : Layout where
  pfAdaptorPfCnt := 0xffffffffc0005000
  pfAdaptorDfCnt := 0xffffffffc0005008
  pfAdaptorGpCnt := 0xffffffffc0005010
  excPageFault := 0xffffffffc0005018
  excDoubleFault := 0xffffffffc0005020
  excGeneralProtection := 0xffffffffc0005028
  currentTask := 0x1fbc0
  taskSymbioteElevated := 0xffff888004000a48

/-- A page fault of an elevated task on its user stack. -/
def demoCpu : Cpu where
  core := { InterposerHandlers.demoMachine with
    regs := { InterposerHandlers.demoMachine.regs with rsp := 0x7ffffffde000 }
    mem := fun b => if b = 0xffff888004000a48#64 then 1#8 else 0#8
    gsBase := 0xffff88807dc00000 }
  interrupts := false
  touches := []

lemma clear_demo (r : Routine) : Clear demoLayout r demoCpu.core := by
  cases r
  all_goals
    constructor
    all_goals decide +kernel

theorem routine_spec_demo :
    elevated demoLayout demoCpu.core = true ∧
    ∃ exit, run (code demoLayout) 3 .fixErrCodeU demoCpu = some (.jump 0#64 exit) ∧
      read64 exit.core.mem 0x7ffffffde000#64 = 4#64 ∧
      exit.touches = [(0x7ffffffdd000#64, true)] := by
  have helevated : elevated demoLayout demoCpu.core = true := by decide +kernel
  obtain ⟨exit, hrun, hfixed⟩ := routine_spec demoLayout .u demoCpu (clear_demo .u) 0
  have herror := hfixed.errorCode
  rw [helevated] at herror
  exact ⟨helevated, exit, hrun, herror, hfixed.touches⟩

/-- A routine may run: it does not store to the other routines' counters either. -/
structure Ready (y : Layout) (r : Routine) (m : Machine) : Prop extends Clear y r m where
  others : ∀ q, q ≠ r → ∀ j < 8, ¬ Written y r m (q.counter y + BitVec.ofNat 64 j)

/-- The faults that have been taken since memory was `first`. Between two of them the system
may do anything that leaves the counters alone. -/
inductive Faults (y : Layout) (first : Mem) : List Routine → Mem → Prop
  | start : Faults y first [] first
  | between {rs : List Routine} {mem mem' : Mem} (h : Faults y first rs mem)
      (hsame : ∀ r : Routine, read64 mem' (r.counter y) = read64 mem (r.counter y)) :
      Faults y first rs mem'
  | fault {rs : List Routine} {r : Routine} {c exit : Cpu} {fuel : ℕ} {target : Word}
      (h : Faults y first rs c.core.mem) (hready : Ready y r c.core)
      (hrun : run (code y) (fuel + 3) r.entry c = some (.jump target exit)) :
      Faults y first (rs ++ [r]) exit.core.mem

/-- A routine counts itself only. -/
lemma counter_step (h : Ready y r c.core) {exit : Cpu} (hfixed : Fixed y r c exit)
    (q : Routine) :
    read64 exit.core.mem (q.counter y) =
      read64 c.core.mem (q.counter y) + BitVec.ofNat 64 ([r].count q) := by
  by_cases hq : q = r
  · subst hq
    rw [hfixed.counter, List.count_singleton_self]
  · have hcount : [r].count q = 0 := List.count_eq_zero.mpr fun hmem =>
      hq (List.mem_singleton.mp hmem)
    rw [hcount, BitVec.add_zero]
    exact read64_congr fun j hj => hfixed.frame _ (h.others q hq j hj)

/-- In every run of faults of the three kinds, in any order and whatever else the system does
between them: each counter has grown by the number of faults of its kind, modulo `2 ^ 64`. -/
theorem counters_count_faults (y : Layout) (first mem : Mem) (rs : List Routine)
    (h : Faults y first rs mem) (q : Routine) :
    read64 mem (q.counter y) =
      read64 first (q.counter y) + BitVec.ofNat 64 (rs.count q) := by
  induction h with
  | start => exact (BitVec.add_zero _).symm
  | between _ hsame ih => rw [hsame q, ih]
  | fault _ hready hrun ih =>
    rename_i rs r c exit fuel target _
    obtain ⟨exit', hrun', hfixed⟩ := routine_spec y r c hready.toClear fuel
    rw [hrun, Option.some.injEq, Flow.jump.injEq] at hrun'
    rw [hrun'.2, counter_step hready hfixed q, ih, List.count_append, BitVec.ofNat_add,
      BitVec.add_assoc]

lemma ready_demo (r : Routine) : Ready demoLayout r demoCpu.core where
  toClear := clear_demo r
  others := by
    intro q
    cases r <;> cases q <;> decide +kernel

theorem counters_count_faults_demo :
    ∃ exit : Cpu, Faults demoLayout demoCpu.core.mem [.u] exit.core.mem ∧
      read64 exit.core.mem 0xffffffffc0005000#64 = 1#64 ∧
      read64 exit.core.mem 0xffffffffc0005008#64 = 0#64 := by
  obtain ⟨exit, hrun, -⟩ := routine_spec demoLayout .u demoCpu (clear_demo .u) 0
  have hfaults : Faults demoLayout demoCpu.core.mem [.u] exit.core.mem :=
    .fault (r := .u) .start (ready_demo .u) hrun
  exact ⟨exit, hfaults, counters_count_faults _ _ _ _ hfaults .u,
    counters_count_faults _ _ _ _ hfaults .uw⟩

lemma or_eq_right_iff (x mask : Word) : x ||| mask = mask ↔ x &&& ~~~mask = 0#64 := by
  simp only [BitVec.eq_of_getLsbD_eq_iff, BitVec.getLsbD_or, BitVec.getLsbD_and,
    BitVec.getLsbD_not, BitVec.getLsbD_zero]
  refine forall₂_congr fun i hi => ?_
  cases x.getLsbD i <;> cases mask.getLsbD i <;> simp [hi]

lemma eq_or_iff (x mask : Word) : x = x ||| mask ↔ x &&& mask = mask := by
  simp only [BitVec.eq_of_getLsbD_eq_iff, BitVec.getLsbD_or, BitVec.getLsbD_and]
  refine forall₂_congr fun i _ => ?_
  cases x.getLsbD i <;> cases mask.getLsbD i <;> simp

/-- The hardware's frame is above the error code. -/
lemma frameAt_fixed {exit : Cpu} (h : Fixed y r c exit)
    (hframe : ∀ n < 40, 8 ≤ (c.core.regs.rsp + 8#64 + BitVec.ofNat 64 n - r.counter y).toNat) :
    InterposerHandlers.frameAt exit.core.mem (c.core.regs.rsp + 8#64) =
      InterposerHandlers.frameAt c.core.mem (c.core.regs.rsp + 8#64) := by
  have hbyte : ∀ n < 40, exit.core.mem (c.core.regs.rsp + 8#64 + BitVec.ofNat 64 n) =
      c.core.mem (c.core.regs.rsp + 8#64 + BitVec.ofNat 64 n) := by
    intro n hn
    apply h.frame
    have hcounter := hframe n hn
    rintro (hb | ⟨-, hb⟩ | ⟨-, hb⟩)
    · omega
    · bv_omega
    · bv_omega
  have hword : ∀ i < 5, read64 exit.core.mem (c.core.regs.rsp + 8#64 + BitVec.ofNat 64 (8 * i)) =
      read64 c.core.mem (c.core.regs.rsp + 8#64 + BitVec.ofNat 64 (8 * i)) := by
    intro i hi
    apply read64_congr
    intro j hj
    rw [BitVec.add_assoc _ _ (BitVec.ofNat 64 j), ← BitVec.ofNat_add]
    exact hbyte _ (by omega)
  have hfirst := hword 0 (by omega)
  rw [Nat.mul_zero, BitVec.add_zero] at hfirst
  simp only [InterposerHandlers.frameAt, InterposerHandlers.HwFrame.mk.injEq]
  exact ⟨hfirst, hword 1 (by omega), hword 2 (by omega), hword 3 (by omega), hword 4 (by omega)⟩

/-- For every machine: a page fault through the routine and one through the interposer reach
the page-fault handler with the same registers and the same frame, and with the same error
code just when the task is elevated or the fault was a user fault anyway. A double fault of an
elevated task does too, with the same error code just when the hardware's has no bits besides
the two that are set: the routine adds them, the interposer overwrites. -/
theorem routines_agree_with_interposer (y : Layout) (c : Cpu) (ra : Word) (fuel : ℕ)
    (h : ∀ r, Clear y r c.core)
    (hframe : ∀ r : Routine, ∀ n < 40,
      8 ≤ (c.core.regs.rsp + 8#64 + BitVec.ofNat 64 n - r.counter y).toNat) :
    (∃ e e', run (code y) (fuel + 3) .fixErrCodeU c =
          some (.jump (read64 c.core.mem y.excPageFault) e) ∧
        InterposerHandlers.exec InterposerHandlers.tfCEntry ra
          InterposerHandlers.interposerHandler c.core = .jump 0xffffffff81001290#64 e' ∧
        e.core.regs = e'.regs ∧
        InterposerHandlers.frameAt e.core.mem (c.core.regs.rsp + 8#64) =
          InterposerHandlers.frameAt e'.mem (c.core.regs.rsp + 8#64) ∧
        (read64 e.core.mem c.core.regs.rsp = read64 e'.mem c.core.regs.rsp ↔
          elevated y c.core = true ∨ read64 c.core.mem c.core.regs.rsp &&& 4#64 = 4#64)) ∧
    (elevated y c.core = true →
      ∃ e e', run (code y) (fuel + 3) .fixErrCodeUw c =
          some (.jump (read64 c.core.mem y.excPageFault) e) ∧
        InterposerHandlers.exec InterposerHandlers.dfCEntry ra
          InterposerHandlers.interposerHandler c.core = .jump 0xffffffff81001290#64 e' ∧
        e.core.regs = e'.regs ∧
        InterposerHandlers.frameAt e.core.mem (c.core.regs.rsp + 8#64) =
          InterposerHandlers.frameAt e'.mem (c.core.regs.rsp + 8#64) ∧
        (read64 e.core.mem c.core.regs.rsp = read64 e'.mem c.core.regs.rsp ↔
          read64 c.core.mem c.core.regs.rsp &&& ~~~6#64 = 0#64)) := by
  constructor
  · obtain ⟨e, hrun, hfixed⟩ := routine_spec y .u c (h .u) fuel
    obtain ⟨e', hexec, hregs, herror, hframe'⟩ := InterposerHandlers.setOrigAx_handler
      (fun origAx => origAx ||| InterposerHandlers.USER_FT) ra c.core
    refine ⟨e, e', hrun, hexec, hfixed.regs.trans hregs.symm,
      (frameAt_fixed hfixed (hframe .u)).trans hframe'.symm, ?_⟩
    rw [hregs] at herror
    rw [hfixed.errorCode, herror]
    cases elevated y c.core
    · rw [cond_false, BitVec.or_zero]
      refine (eq_or_iff _ 4#64).trans ?_
      simp
    · simp only [cond_true, true_or, iff_true]
      rfl
  · intro helevated
    obtain ⟨e, hrun, hfixed⟩ := routine_spec y .uw c (h .uw) fuel
    obtain ⟨e', hexec, hregs, herror, hframe'⟩ := InterposerHandlers.setOrigAx_handler
      (fun _ => InterposerHandlers.USER_FT ||| InterposerHandlers.WR_FT) ra c.core
    rw [helevated] at hrun
    refine ⟨e, e', hrun, hexec, hfixed.regs.trans hregs.symm,
      (frameAt_fixed hfixed (hframe .uw)).trans hframe'.symm, ?_⟩
    rw [hregs] at herror
    rw [hfixed.errorCode, herror, helevated, cond_true]
    exact or_eq_right_iff _ 6#64

theorem routines_agree_with_interposer_demo :
    ∃ e e', run (code demoLayout) 3 .fixErrCodeU demoCpu = some (.jump 0#64 e) ∧
      InterposerHandlers.exec InterposerHandlers.tfCEntry 0xffffffffc0000117#64
        InterposerHandlers.interposerHandler demoCpu.core = .jump 0xffffffff81001290#64 e' ∧
      e.core.regs = e'.regs := by
  have hframe : ∀ r : Routine, ∀ n < 40,
      8 ≤ (demoCpu.core.regs.rsp + 8#64 + BitVec.ofNat 64 n - r.counter demoLayout).toNat := by
    intro r
    cases r <;> decide +kernel
  obtain ⟨⟨e, e', hrun, hexec, hregs, -⟩, -⟩ :=
    routines_agree_with_interposer demoLayout demoCpu 0xffffffffc0000117#64 0 clear_demo hframe
  exact ⟨e, e', hrun, hexec, hregs⟩

end SymbiOS.FaultCode
