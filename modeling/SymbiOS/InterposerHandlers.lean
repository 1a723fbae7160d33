import SymbiOS.X86.Stack

/-!
# The handlers of the interposer

A handler saves fifteen registers on the stack, so that they make up a `pt_regs` together
with what the hardware pushed, and calls a C function with a pointer to it. It then restores
the registers, and goes on in the kernel's page-fault handler or returns from the trap. The
hardware pushes no error code for a trap, so a word is pushed in its place.
-/
namespace SymbiOS.InterposerHandlers
open SymbiOS.X86

/-- The instructions of the handlers. `xorLoad` and `xorStore` have `(%base)` as their
source and as their destination. -/
inductive Instr
  | push (src : Reg)
  | pushImm (imm : Word)
  | pop (dst : Reg)
  | mov (src dst : Reg)
  | movImm (imm : Word) (dst : Reg)
  | addImm (imm : Word) (dst : Reg)
  | xorLoad (base dst : Reg)
  | xorStore (src base : Reg)
  | call
  | ret
  | iretq

/-- A compiled C function, from its first instruction up to its `ret`. -/
abbrev CFun := Machine → Machine

/-- How a handler ends: in a jump to an address, at its `iretq`, or astray. -/
inductive Exit
  | jump (target : Word) (m : Machine)
  | iretq (m : Machine)
  | lost (m : Machine)

/-- The effect of an instruction that does not transfer control. -/
def line : Instr → Machine → Machine
  | .push src, m => m.pushWord (m.regs.get src)
  | .pushImm imm, m => m.pushWord imm
  | .pop dst, m => m.popReg dst
  | .mov src dst, m => m.setReg dst (m.regs.get src)
  | .movImm imm dst, m => m.setReg dst imm
  | .addImm imm dst, m =>
      let v := m.regs.get dst + imm
      (m.setReg dst v).setFlags (v == 0#64) v.msb
  | .xorLoad base dst, m =>
      let v := m.regs.get dst ^^^ read64 m.mem (m.regs.get base)
      (m.setReg dst v).setFlags (v == 0#64) v.msb
  | .xorStore src base, m =>
      let v := read64 m.mem (m.regs.get base) ^^^ m.regs.get src
      { m.setFlags (v == 0#64) v.msb with mem := write64 m.mem (m.regs.get base) v }
  | .call, m | .ret, m | .iretq, m => m

/-- Run a handler whose `call` is followed by the address `ra`. The function's `ret` takes
its target from the stack. -/
def exec (targ : CFun) (ra : Word) : List Instr → Machine → Exit
  | [], m => .lost m
  | .call :: rest, m =>
      let left := targ (m.pushWord ra)
      if read64 left.mem left.regs.rsp = ra then
        exec targ ra rest (left.setReg .rsp (left.regs.rsp + 8#64))
      else .lost left
  | .ret :: _, m => .jump (read64 m.mem m.regs.rsp) (m.setReg .rsp (m.regs.rsp + 8#64))
  | .iretq :: _, m => .iretq m
  | i :: rest, m => exec targ ra rest (line i m)

/-- The state in which the C function is entered. -/
def entered (ra : Word) : List Instr → Machine → Machine
  | [], m => m
  | .call :: _, m => m.pushWord ra
  | i :: rest, m => entered ra rest (line i m)

def pushOrder : List Reg :=
  [.rdi, .rsi, .rdx, .rcx, .rax, .r8, .r9, .r10, .r11, .rbx, .rbp, .r12, .r13, .r14, .r15]

def pushRegs : List Instr := pushOrder.map .push

def popOrder : List Reg :=
  [.r15, .r14, .r13, .r12, .rbp, .rbx, .r11, .r10, .r9, .r8, .rax, .rcx, .rdx, .rsi, .rdi]

def popRegs : List Instr := popOrder.map .pop

def getPtRegPtr : Instr := .mov .rsp .rdi

def pushFakeError : Instr := .pushImm 0xbadbad#64

def dropFakeError : Instr := .addImm 8#64 .rsp

/-- The address of the kernel's page-fault handler is exchanged with `%rax` on the stack. -/
def retToPgFt : List Instr :=
  [.push .rax, .movImm 0xffffffff81001290#64 .rax, .xorLoad .rsp .rax, .xorStore .rax .rsp,
    .xorLoad .rsp .rax, .ret]

def interposerHandler : List Instr :=
  pushRegs ++ getPtRegPtr :: .call :: (popRegs ++ retToPgFt)

def trapHandler : List Instr :=
  pushFakeError :: (pushRegs ++ getPtRegPtr :: .call :: (popRegs ++ [dropFakeError, .iretq]))

/-- The registers of `pt_regs`, in the order of the struct. -/
structure Saved where
  r15 : Word
  r14 : Word
  r13 : Word
  r12 : Word
  bp : Word
  bx : Word
  r11 : Word
  r10 : Word
  r9 : Word
  r8 : Word
  ax : Word
  cx : Word
  dx : Word
  si : Word
  di : Word

/-- What the hardware pushes. -/
structure HwFrame where
  ip : Word
  cs : Word
  flags : Word
  sp : Word
  ss : Word

structure PtRegs where
  saved : Saved
  origAx : Word
  frame : HwFrame

def savedOf (s : Regs) : Saved where
  r15 := s.r15
  r14 := s.r14
  r13 := s.r13
  r12 := s.r12
  bp := s.rbp
  bx := s.rbx
  r11 := s.r11
  r10 := s.r10
  r9 := s.r9
  r8 := s.r8
  ax := s.rax
  cx := s.rcx
  dx := s.rdx
  si := s.rsi
  di := s.rdi

def savedAt (mem : Mem) (p : Word) : Saved where
  r15 := read64 mem p
  r14 := read64 mem (p + 8#64)
  r13 := read64 mem (p + 16#64)
  r12 := read64 mem (p + 24#64)
  bp := read64 mem (p + 32#64)
  bx := read64 mem (p + 40#64)
  r11 := read64 mem (p + 48#64)
  r10 := read64 mem (p + 56#64)
  r9 := read64 mem (p + 64#64)
  r8 := read64 mem (p + 72#64)
  ax := read64 mem (p + 80#64)
  cx := read64 mem (p + 88#64)
  dx := read64 mem (p + 96#64)
  si := read64 mem (p + 104#64)
  di := read64 mem (p + 112#64)

def frameAt (mem : Mem) (p : Word) : HwFrame where
  ip := read64 mem p
  cs := read64 mem (p + 8#64)
  flags := read64 mem (p + 16#64)
  sp := read64 mem (p + 24#64)
  ss := read64 mem (p + 32#64)

def ptRegsAt (mem : Mem) (p : Word) : PtRegs where
  saved := savedAt mem p
  origAx := read64 mem (p + 120#64)
  frame := frameAt mem (p + 128#64)

/-- The calling convention, for a function whose pointer leads to the stack above its return
address: it comes to its `ret` with the stack pointer it was entered with, and its return
address is in place. -/
structure Convention (targ : CFun) : Prop where
  rsp : ∀ m, m.regs.rdi = m.regs.rsp + 8#64 → (targ m).regs.rsp = m.regs.rsp
  returnAddress : ∀ m, m.regs.rdi = m.regs.rsp + 8#64 →
    read64 (targ m).mem m.regs.rsp = read64 m.mem m.regs.rsp

/-- A handler was entered in `m` with a frame at an address, entered the C function in
`called`, and ended in `exit`: the function's pointer led to the registers, the error code
and the frame; and the registers and the frame at the end are as the function left them. -/
structure Preserves (targ : CFun) (m called exit : Machine) (errorCode frame : Word) :
    Prop where
  given : ptRegsAt called.mem called.regs.rdi = ⟨savedOf m.regs, errorCode, frameAt m.mem frame⟩
  rsp : exit.regs.rsp = m.regs.rsp
  saved : savedOf exit.regs = (ptRegsAt (targ called).mem called.regs.rdi).saved
  frame : frameAt exit.mem frame = (ptRegsAt (targ called).mem called.regs.rdi).frame
  untouched : (ptRegsAt (targ called).mem called.regs.rdi).saved =
    (ptRegsAt called.mem called.regs.rdi).saved → exit.regs = m.regs

variable {targ : CFun} {ra : Word} {m : Machine}

lemma exec_pushes (rs : List Reg) (rest : List Instr) (m : Machine) :
    exec targ ra (rs.map .push ++ rest) m = exec targ ra rest (m.pushAll rs) := by
  induction rs generalizing m with
  | nil => rfl
  | cons r rs ih => exact ih (m.pushWord (m.regs.get r))

lemma entered_pushes (rs : List Reg) (rest : List Instr) (m : Machine) :
    entered ra (rs.map .push ++ rest) m = entered ra rest (m.pushAll rs) := by
  induction rs generalizing m with
  | nil => rfl
  | cons r rs ih => exact ih (m.pushWord (m.regs.get r))

lemma exec_pops (rs : List Reg) (rest : List Instr) (m : Machine) :
    exec targ ra (rs.map .pop ++ rest) m = exec targ ra rest (m.popAll rs) := by
  induction rs generalizing m with
  | nil => rfl
  | cons r rs ih => exact ih (m.popReg r)

/-- The words that `pushRegs` leaves, from the stack pointer upwards. -/
def savedWords (s : Regs) : List Word :=
  [s.r15, s.r14, s.r13, s.r12, s.rbp, s.rbx, s.r11, s.r10, s.r9, s.r8, s.rax, s.rcx, s.rdx,
    s.rsi, s.rdi]

/-- The function's return address, the saved registers above it, and the words that were on
the stack. -/
lemma ptRegsAt_savedWords (mem : Mem) (a : Word) (s : Regs) :
    ptRegsAt (storeWords mem a (ra :: savedWords s)) (a + 8#64) =
      ⟨savedOf s, read64 mem (a + 128#64), frameAt mem (a + 136#64)⟩ := by
  have hin : ∀ i, ∀ hi : i < 16, read64 (storeWords mem a (ra :: savedWords s))
      (a + BitVec.ofNat 64 (8 * i)) = (ra :: savedWords s).get ⟨i, hi⟩ :=
    fun i hi => read64_storeWords hi (by simp [savedWords])
  have habove : ∀ n, 128 ≤ n → n ≤ 168 → read64 (storeWords mem a (ra :: savedWords s))
      (a + BitVec.ofNat 64 n) = read64 mem (a + BitVec.ofNat 64 n) := by
    intro n hlow hhigh
    apply read64_storeWords_above
    · simpa [savedWords] using hlow
    · omega
  simp only [ptRegsAt, savedAt, frameAt, savedOf, BitVec.add_assoc, BitVec.reduceAdd,
    PtRegs.mk.injEq, Saved.mk.injEq, HwFrame.mk.injEq]
  refine ⟨⟨hin 1 (by omega), hin 2 (by omega), hin 3 (by omega), hin 4 (by omega),
    hin 5 (by omega), hin 6 (by omega), hin 7 (by omega), hin 8 (by omega), hin 9 (by omega),
    hin 10 (by omega), hin 11 (by omega), hin 12 (by omega), hin 13 (by omega),
    hin 14 (by omega), hin 15 (by omega)⟩, ?_, ?_, ?_, ?_, ?_, ?_⟩
  all_goals exact habove _ (by omega) (by omega)

/-- How the C function is entered, from the state in which `pushRegs` begins. -/
structure Called (ra : Word) (m called : Machine) : Prop where
  rsp : m.regs.rsp = called.regs.rsp + 128#64
  pointer : called.regs.rdi = called.regs.rsp + 8#64
  mem : called.mem = storeWords m.mem called.regs.rsp (ra :: savedWords m.regs)

lemma called_entered (ra : Word) (rest : List Instr) (m : Machine) :
    Called ra m (entered ra (pushRegs ++ getPtRegPtr :: .call :: rest) m) := by
  unfold pushRegs
  rw [entered_pushes]
  have hpushed := Machine.pushed_pushAll m pushOrder (by decide)
  generalize m.pushAll _ = t at hpushed
  have hrsp : t.regs.rsp = m.regs.rsp - 120#64 := hpushed.rsp
  have hmem : t.mem = storeWords m.mem t.regs.rsp (savedWords m.regs) := hpushed.mem
  constructor
  · show m.regs.rsp = t.regs.rsp - 8#64 + 128#64
    rw [hrsp]
    bv_omega
  · show t.regs.rsp = t.regs.rsp - 8#64 + 8#64
    rw [BitVec.sub_add_cancel]
  · show write64 t.mem (t.regs.rsp - 8#64) ra = storeWords m.mem (t.regs.rsp - 8#64) _
    rw [hmem, push_storeWords]

/-- What the C function's pointer leads to. -/
lemma Called.ptRegsAt_eq {called : Machine} (h : Called ra m called) :
    ptRegsAt called.mem called.regs.rdi =
      ⟨savedOf m.regs, read64 m.mem m.regs.rsp, frameAt m.mem (m.regs.rsp + 8#64)⟩ := by
  rw [h.pointer, h.mem, ptRegsAt_savedWords, h.rsp, BitVec.add_assoc]
  rfl

/-- The registers that `popRegs` takes from the words at an address. -/
lemma savedOf_eq_savedAt {s : Regs} {mem : Mem} {p : Word}
    (h : ∀ i r, popOrder[i]? = some r →
      s.get r = read64 mem (p + BitVec.ofNat 64 (8 * i))) :
    savedOf s = savedAt mem p := by
  have hfirst : s.r15 = read64 mem p := by
    have hword := h 0 .r15 rfl
    rwa [Nat.mul_zero, BitVec.add_zero] at hword
  simp only [savedOf, savedAt, Saved.mk.injEq]
  exact ⟨hfirst, h 1 .r14 rfl, h 2 .r13 rfl, h 3 .r12 rfl, h 4 .rbp rfl, h 5 .rbx rfl,
    h 6 .r11 rfl, h 7 .r10 rfl, h 8 .r9 rfl, h 9 .r8 rfl, h 10 .rax rfl, h 11 .rcx rfl,
    h 12 .rdx rfl, h 13 .rsi rfl, h 14 .rdi rfl⟩

/-- After the C function the saved words are popped. -/
structure Restored (targ : CFun) (m called back : Machine) : Prop where
  rsp : back.regs.rsp = m.regs.rsp
  mem : back.mem = (targ called).mem
  saved : savedOf back.regs = savedAt (targ called).mem called.regs.rdi

/-- The call, once the registers are saved. -/
lemma exec_call_eq (targ : CFun) (ra : Word) (rest : List Instr) (m : Machine) :
    exec targ ra (pushRegs ++ getPtRegPtr :: .call :: rest) m =
      let left := targ (entered ra (pushRegs ++ getPtRegPtr :: .call :: rest) m)
      if read64 left.mem left.regs.rsp = ra then
        exec targ ra rest (left.setReg .rsp (left.regs.rsp + 8#64))
      else .lost left := by
  unfold pushRegs
  rw [exec_pushes, entered_pushes]
  rfl

lemma restored_popAll {called : Machine} (hcalled : Called ra m called)
    (hrsp : (targ called).regs.rsp = called.regs.rsp) :
    Restored targ m called
      (((targ called).setReg .rsp ((targ called).regs.rsp + 8#64)).popAll popOrder) := by
  have hpopped := Machine.popped_popAll
    ((targ called).setReg .rsp ((targ called).regs.rsp + 8#64)) popOrder (by decide) (by decide)
  refine ⟨?_, hpopped.mem, savedOf_eq_savedAt fun i r hi => ?_⟩
  · rw [hpopped.rsp]
    show (targ called).regs.rsp + 8#64 + 120#64 = m.regs.rsp
    rw [hrsp, hcalled.rsp, BitVec.add_assoc]
    rfl
  · rw [hpopped.words i r hi]
    show read64 (targ called).mem ((targ called).regs.rsp + 8#64 + _) = _
    rw [hrsp, ← hcalled.pointer]

lemma exec_call (htarg : Convention targ) (ra : Word) (rest : List Instr) (m : Machine) :
    ∃ back, exec targ ra (pushRegs ++ getPtRegPtr :: .call :: (popRegs ++ rest)) m =
        exec targ ra rest back ∧
      Restored targ m (entered ra (pushRegs ++ getPtRegPtr :: .call :: (popRegs ++ rest)) m)
        back := by
  have hcalled := called_entered ra (popRegs ++ rest) m
  have hexec := exec_call_eq targ ra (popRegs ++ rest) m
  generalize entered ra (pushRegs ++ getPtRegPtr :: .call :: (popRegs ++ rest)) m = called
    at hcalled hexec
  have hrsp := htarg.rsp called hcalled.pointer
  have hra : read64 (targ called).mem (targ called).regs.rsp = ra := by
    rw [hrsp, htarg.returnAddress called hcalled.pointer, hcalled.mem, read64_storeWords_cons]
  simp only [if_pos hra] at hexec
  exact ⟨_, hexec.trans (exec_pops popOrder rest _), restored_popAll hcalled hrsp⟩

/-- A push changes no word above it. -/
lemma read64_write64_below (mem : Mem) (p w : Word) {n : ℕ} (hn : n ≤ 40) :
    read64 (write64 mem (p - 8#64) w) (p + BitVec.ofNat 64 n) =
      read64 mem (p + BitVec.ofNat 64 n) := by
  have habove : read64 (write64 mem (p - 8#64) w) (p - 8#64 + BitVec.ofNat 64 (n + 8)) =
      read64 mem (p - 8#64 + BitVec.ofNat 64 (n + 8)) := by
    apply read64_storeWords_above
    · rw [List.length_singleton]
      omega
    · omega
  have haddr : p - 8#64 + BitVec.ofNat 64 (n + 8) = p + BitVec.ofNat 64 n := by bv_omega
  rwa [haddr] at habove

lemma frameAt_write64_below (mem : Mem) (p w : Word) {n : ℕ} (hn : n ≤ 8) :
    frameAt (write64 mem (p - 8#64) w) (p + BitVec.ofNat 64 n) =
      frameAt mem (p + BitVec.ofNat 64 n) := by
  simp only [frameAt, BitVec.add_assoc, ← BitVec.ofNat_add, HwFrame.mk.injEq]
  refine ⟨?_, ?_, ?_, ?_, ?_⟩
  all_goals exact read64_write64_below mem p w (by omega)

/-- Three exclusive ors exchange `%rax` and the word on the stack. -/
lemma exec_retToPgFt (targ : CFun) (ra : Word) (m : Machine) :
    ∃ exit, exec targ ra retToPgFt m = .jump 0xffffffff81001290#64 exit ∧
      exit.regs = m.regs ∧
      exit.mem = write64 m.mem (m.regs.rsp - 8#64) 0xffffffff81001290#64 := by
  have hself : ∀ mem p w, read64 (write64 mem p w) p = w :=
    fun mem p w => read64_storeWords_cons mem p w []
  have hstack : ∀ r t : Word, r ^^^ (t ^^^ r) = t := by
    intro r t
    rw [BitVec.xor_comm t r, ← BitVec.xor_assoc, BitVec.xor_self, BitVec.zero_xor]
  have hrax : ∀ r t : Word, t ^^^ r ^^^ t = r := by
    intro r t
    rw [BitVec.xor_comm t r, BitVec.xor_assoc, BitVec.xor_self, BitVec.xor_zero]
  simp only [retToPgFt, exec, line, Machine.pushWord, Machine.setReg, Machine.setFlags, Regs.get,
    Regs.set, hself, write64_write64, hstack, hrax, BitVec.sub_add_cancel]
  exact ⟨_, rfl, rfl, rfl⟩

lemma regs_eq_of_savedOf {s t : Regs} (h : savedOf s = savedOf t) (hrsp : s.rsp = t.rsp) :
    s = t := by
  rw [savedOf, savedOf, Saved.mk.injEq] at h
  obtain ⟨h15, h14, h13, h12, hbp, hbx, h11, h10, h9, h8, hax, hcx, hdx, hsi, hdi⟩ := h
  apply Regs.ext_get
  intro r
  cases r <;> assumption

/-- The registers are as at entry if their slots are. -/
lemma preserves_of_saved {called exit : Machine} {errorCode frame : Word}
    (hgiven : ptRegsAt called.mem called.regs.rdi =
      ⟨savedOf m.regs, errorCode, frameAt m.mem frame⟩)
    (hrsp : exit.regs.rsp = m.regs.rsp)
    (hsaved : savedOf exit.regs = savedAt (targ called).mem called.regs.rdi)
    (hframe : frameAt exit.mem frame = (ptRegsAt (targ called).mem called.regs.rdi).frame) :
    Preserves targ m called exit errorCode frame := by
  refine ⟨hgiven, hrsp, hsaved, hframe, fun hsame => regs_eq_of_savedOf ?_ hrsp⟩
  rw [hgiven] at hsame
  exact hsaved.trans hsame

/-- Where the pointer's error code and frame are on the stack. -/
lemma Called.addresses {called : Machine} (h : Called ra m called) :
    called.regs.rdi + 120#64 = m.regs.rsp ∧
      called.regs.rdi + 128#64 = m.regs.rsp + 8#64 := by
  rw [h.pointer, h.rsp, BitVec.add_assoc, BitVec.add_assoc, BitVec.add_assoc]
  exact ⟨rfl, rfl⟩

lemma interposerHandler_spec (htarg : Convention targ) (ra : Word) (m : Machine) :
    ∃ exit, exec targ ra interposerHandler m = .jump 0xffffffff81001290#64 exit ∧
      Preserves targ m (entered ra interposerHandler m) exit (read64 m.mem m.regs.rsp)
        (m.regs.rsp + 8#64) ∧
      read64 exit.mem exit.regs.rsp = (ptRegsAt (targ (entered ra interposerHandler m)).mem
        (entered ra interposerHandler m).regs.rdi).origAx := by
  have hcalled : Called ra m (entered ra interposerHandler m) :=
    called_entered ra (popRegs ++ retToPgFt) m
  obtain ⟨back, hback, hrestored⟩ := exec_call htarg ra retToPgFt m
  change exec targ ra interposerHandler m = _ at hback
  change Restored targ m (entered ra interposerHandler m) back at hrestored
  obtain ⟨exit, hexit, hregs, hmem⟩ := exec_retToPgFt targ ra back
  generalize entered ra interposerHandler m = called at hcalled hrestored
  obtain ⟨herror, hframe⟩ := hcalled.addresses
  have hrsp : exit.regs.rsp = m.regs.rsp := by rw [hregs, hrestored.rsp]
  refine ⟨exit, hback.trans hexit, preserves_of_saved hcalled.ptRegsAt_eq hrsp ?_ ?_, ?_⟩
  · rw [hregs, hrestored.saved]
  · -- the word that was exchanged lies below the error code
    rw [hmem, hrestored.rsp, hrestored.mem, frameAt_write64_below _ _ _ (n := 8) (by omega)]
    show _ = frameAt (targ called).mem (called.regs.rdi + 128#64)
    rw [hframe]
  · have hread := read64_write64_below (targ called).mem m.regs.rsp 0xffffffff81001290#64
      (n := 0) (by omega)
    rw [BitVec.add_zero] at hread
    rw [hrsp, hmem, hrestored.rsp, hrestored.mem, hread]
    show _ = read64 (targ called).mem (called.regs.rdi + 120#64)
    rw [herror]

lemma trapHandler_spec (htarg : Convention targ) (ra : Word) (m : Machine) :
    ∃ exit, exec targ ra trapHandler m = .iretq exit ∧
      Preserves targ m (entered ra trapHandler m) exit 0xbadbad#64 m.regs.rsp := by
  -- the handler goes on from the state in which the fake error code is on the stack
  let t : Machine := m.pushWord 0xbadbad#64
  have ht : t.regs.rsp + 8#64 = m.regs.rsp := BitVec.sub_add_cancel m.regs.rsp 8#64
  have hcalled : Called ra t (entered ra trapHandler m) :=
    called_entered ra (popRegs ++ [dropFakeError, .iretq]) t
  obtain ⟨back, hback, hrestored⟩ := exec_call htarg ra [dropFakeError, .iretq] t
  change exec targ ra trapHandler m = _ at hback
  change Restored targ t (entered ra trapHandler m) back at hrestored
  generalize entered ra trapHandler m = called at hcalled hrestored
  obtain ⟨-, hframe⟩ := hcalled.addresses
  have hgiven : ptRegsAt called.mem called.regs.rdi =
      ⟨savedOf m.regs, 0xbadbad#64, frameAt m.mem m.regs.rsp⟩ := by
    have hbelow := frameAt_write64_below m.mem m.regs.rsp 0xbadbad#64 (n := 0) (by omega)
    rw [BitVec.add_zero] at hbelow
    have herror : read64 t.mem t.regs.rsp = 0xbadbad#64 :=
      read64_storeWords_cons m.mem (m.regs.rsp - 8#64) 0xbadbad#64 []
    rw [hcalled.ptRegsAt_eq, ht, herror]
    show (⟨savedOf m.regs, _, frameAt (write64 m.mem (m.regs.rsp - 8#64) _) _⟩ : PtRegs) = _
    rw [hbelow]
  have hrsp : back.regs.rsp + 8#64 = m.regs.rsp := by rw [hrestored.rsp, ht]
  refine ⟨_, hback, preserves_of_saved hgiven hrsp hrestored.saved ?_⟩
  show frameAt back.mem m.regs.rsp = frameAt (targ called).mem (called.regs.rdi + 128#64)
  rw [hrestored.mem, hframe, ht]

def WR_FT : Word := 1#64 <<< 1

def USER_FT : Word := 1#64 <<< 2

/-- A function that sets the error code. -/
def setOrigAx (f : Word → Word) : CFun := fun m =>
  { m with
    mem := write64 m.mem (m.regs.rdi + 120#64) (f (read64 m.mem (m.regs.rdi + 120#64))) }

def dfCEntry : CFun := setOrigAx fun _ => USER_FT ||| WR_FT

def tfCEntry : CFun := setOrigAx fun origAx => origAx ||| USER_FT

/-- The other words of `pt_regs`, and the return address below it. -/
lemma read64_beside (mem : Mem) (p v : Word) {n : ℕ} (h : n + 8 ≤ 120 ∨ 128 ≤ n)
    (hn : n + 8 ≤ 2 ^ 64) :
    read64 (write64 mem (p + 120#64) v) (p + BitVec.ofNat 64 n) =
      read64 mem (p + BitVec.ofNat 64 n) := by
  apply read64_congr
  intro j hj
  apply write64_of_ge
  bv_omega

lemma ptRegsAt_setOrigAx (mem : Mem) (p v : Word) :
    ptRegsAt (write64 mem (p + 120#64) v) p = { ptRegsAt mem p with origAx := v } := by
  have hfirst := read64_beside mem p v (n := 0) (by omega) (by omega)
  rw [BitVec.add_zero] at hfirst
  simp only [ptRegsAt, savedAt, frameAt, BitVec.add_assoc, BitVec.reduceAdd, PtRegs.mk.injEq,
    Saved.mk.injEq, HwFrame.mk.injEq]
  refine ⟨⟨hfirst, ?_, ?_, ?_, ?_, ?_, ?_, ?_, ?_, ?_, ?_, ?_, ?_, ?_, ?_⟩,
    read64_storeWords_cons mem (p + 120#64) v [], ?_, ?_, ?_, ?_, ?_⟩
  all_goals exact read64_beside mem p v (by omega) (by omega)

lemma convention_setOrigAx (f : Word → Word) : Convention (setOrigAx f) := by
  constructor
  · intro m _
    rfl
  · intro m hpointer
    have haddr : m.regs.rsp = m.regs.rdi + BitVec.ofNat 64 (2 ^ 64 - 8) := by
      rw [hpointer]
      bv_omega
    show read64 (write64 m.mem (m.regs.rdi + 120#64) _) m.regs.rsp = _
    rw [haddr]
    exact read64_beside m.mem m.regs.rdi _ (by omega) (by omega)

/-- The error code is changed, and nothing else. -/
lemma setOrigAx_handler (f : Word → Word) (ra : Word) (m : Machine) :
    ∃ exit, exec (setOrigAx f) ra interposerHandler m = .jump 0xffffffff81001290#64 exit ∧
      exit.regs = m.regs ∧ read64 exit.mem exit.regs.rsp = f (read64 m.mem m.regs.rsp) ∧
      frameAt exit.mem (m.regs.rsp + 8#64) = frameAt m.mem (m.regs.rsp + 8#64) := by
  obtain ⟨exit, hexit, hpreserves, herror⟩ :=
    interposerHandler_spec (convention_setOrigAx f) ra m
  generalize entered ra interposerHandler m = called at hpreserves herror
  have hleft : ptRegsAt (setOrigAx f called).mem called.regs.rdi =
      ⟨savedOf m.regs, f (read64 m.mem m.regs.rsp), frameAt m.mem (m.regs.rsp + 8#64)⟩ := by
    have hgiven := hpreserves.given
    have horig : read64 called.mem (called.regs.rdi + 120#64) = read64 m.mem m.regs.rsp :=
      congrArg PtRegs.origAx hgiven
    show ptRegsAt (write64 called.mem (called.regs.rdi + 120#64) _) called.regs.rdi = _
    rw [ptRegsAt_setOrigAx, hgiven, horig]
  refine ⟨exit, hexit, hpreserves.untouched ?_, ?_, ?_⟩
  · rw [hleft, hpreserves.given]
  · rw [herror, hleft]
  · rw [hpreserves.frame, hleft]

/-- For every C function that follows the calling convention and every machine: a handler
for an exception with an error code reaches the kernel's page-fault handler, and a handler
for a trap reaches its `iretq`. The stack pointer is as at entry, the C function was given the
registers, the error code (for a trap, the word pushed in its place) and the hardware's frame
as a `pt_regs`, and the registers, the error code and the frame are as it left them there. -/
theorem handlers_preserve_state (targ : CFun) (htarg : Convention targ) (ra : Word)
    (m : Machine) :
    (∃ exit, exec targ ra interposerHandler m = .jump 0xffffffff81001290#64 exit ∧
      Preserves targ m (entered ra interposerHandler m) exit (read64 m.mem m.regs.rsp)
        (m.regs.rsp + 8#64) ∧
      read64 exit.mem exit.regs.rsp = (ptRegsAt (targ (entered ra interposerHandler m)).mem
        (entered ra interposerHandler m).regs.rdi).origAx) ∧
    (∃ exit, exec targ ra trapHandler m = .iretq exit ∧
      Preserves targ m (entered ra trapHandler m) exit 0xbadbad#64 m.regs.rsp) :=
  ⟨interposerHandler_spec htarg ra m, trapHandler_spec htarg ra m⟩

/-- A double fault on the IST stack. -/
def demoMachine : Machine where
  regs := ⟨1, 2, 3, 4, 5, 6, 7, 0xfffffe0000002fd0, 8, 9, 10, 11, 12, 13, 14, 15⟩
  mem := fun _ => 0
  gsBase := 0
  kernelGsBase := 0
  cr2 := 0
  zf := false
  sf := false
  df := false
  gsReads := []
  moved := []

theorem handlers_preserve_demo :
    Convention dfCEntry ∧
    ∃ exit, exec dfCEntry 0xffffffffc0000117#64 interposerHandler demoMachine =
        .jump 0xffffffff81001290#64 exit ∧ exit.regs.rsp = 0xfffffe0000002fd0#64 := by
  have hconvention : Convention dfCEntry := convention_setOrigAx _
  obtain ⟨exit, hexit, hpreserves, -⟩ :=
    (handlers_preserve_state dfCEntry hconvention 0xffffffffc0000117#64 demoMachine).1
  exact ⟨hconvention, exit, hexit, hpreserves.rsp⟩

end SymbiOS.InterposerHandlers
