import SymbiOS.FrameRelocation
import Mathlib.Data.Nat.Bitwise

/-!
# Running the entry code

Block by block, what the entry code has done to the interrupted machine: which
words stand on the IST page, what the four scratch registers hold, and which GS
base is active. Everything else is as it was.
-/
namespace SymbiOS.Relocation
open SymbiOS.X86

variable {y : Layout} {vec : Fin 256} {m : Machine} {top : Word} {f : Frame} {handler ec : Word}

/-- What the entry code changes of the interrupted machine. -/
structure Work where
  rsp : Word
  rdi : Word
  rsi : Word
  rcx : Word
  mem : Mem
  gsBase : Word
  kernelGsBase : Word
  gsReads : List Word
  moved : List Word
  zf : Bool
  sf : Bool
  df : Bool

def Work.on (w : Work) (m : Machine) : Machine where
  regs := { m.regs with rsp := w.rsp, rdi := w.rdi, rsi := w.rsi, rcx := w.rcx }
  mem := w.mem
  gsBase := w.gsBase
  kernelGsBase := w.kernelGsBase
  cr2 := m.cr2
  zf := w.zf
  sf := w.sf
  df := w.df
  gsReads := w.gsReads
  moved := w.moved

/-- The interrupted machine with a stack pointer and the words above it. -/
def Work.start (m : Machine) (rsp : Word) (ws : List Word) : Work where
  rsp := rsp
  rdi := m.regs.rdi
  rsi := m.regs.rsi
  rcx := m.regs.rcx
  mem := storeWords m.mem rsp ws
  gsBase := m.gsBase
  kernelGsBase := m.kernelGsBase
  gsReads := m.gsReads
  moved := m.moved
  zf := m.zf
  sf := m.sf
  df := m.df

/-- The words on the IST page when the scratch registers have been saved. -/
def saved (m : Machine) (handler : Word) (f : Frame) : List Word :=
  m.regs.rcx :: m.regs.rsi :: m.regs.rdi :: handler :: f.words

/-- The stub leaves a copy of `%rdi` below the handler it has pushed. -/
lemma stub_storeWords (mem : Mem) (rsp v w : Word) (ws : List Word) :
    write64 (write64 (storeWords mem rsp ws) (rsp - 8#64 - 8#64) v) (rsp - 8#64) w =
      storeWords mem (rsp - 8#64 - 8#64) (v :: w :: ws) := by
  have hcomm := write64_comm (m := storeWords mem rsp ws) (a := rsp - 8#64 - 8#64)
    (b := rsp - 8#64) (v := v) (w := w) (by bv_omega) (by bv_omega)
  rw [hcomm, push_storeWords, push_storeWords]

lemma push_again (mem : Mem) (rsp v : Word) (ws : List Word) :
    write64 (storeWords mem rsp (v :: ws)) rsp v = storeWords mem rsp (v :: ws) := by
  rw [← write64_storeWords_cons, write64_write64]

lemma and_eight_eq_zero_iff (x : Word) : x &&& 8#64 = 0#64 ↔ x.toNat % 16 < 8 := by
  rw [← BitVec.toNat_inj, BitVec.toNat_and]
  have h8 : (8#64).toNat = 2 ^ 3 := rfl
  rw [h8, Nat.and_two_pow, Nat.testBit_eq_decide_div_mod_eq]
  simp only [BitVec.toNat_ofNat, Nat.zero_mod]
  by_cases h : x.toNat / 2 ^ 3 % 2 = 1
  · simp
    omega
  · simp
    omega

lemma and_page_mask (x : Word) : (x &&& 0xfff#64).toNat = x.toNat % 4096 := by
  rw [BitVec.toNat_and]
  exact Nat.and_two_pow_sub_one_eq_mod _ 12

/-- The test for an offset in the page. -/
lemma cmp_page_mask {x offset : Word} (h : x.toNat % 4096 = offset.toNat) :
    ((x &&& 0xfff#64) - offset == 0#64) = true := by
  have hmask : x &&& 0xfff#64 = offset := BitVec.eq_of_toNat_eq ((and_page_mask x).trans h)
  rw [hmask, BitVec.sub_self, beq_self_eq_true]

lemma deliver_eq (top : Word) (f : Frame) (m : Machine) :
    deliver top f m =
      (Work.start m (top - BitVec.ofNat 64 (8 * f.words.length)) f.words).on m := rfl

/-- The stub. -/
lemma runBlock_isr {rsp : Word} {ws : List Word}
    (hh : read64 (write64 (storeWords m.mem rsp ws) (rsp - 8#64 - 8#64) m.regs.rdi)
      (y.efAdaptorOrigIsrs + BitVec.ofNat 64 (vec * 8)) = handler) :
    ∃ zf sf, runBlock (code y (.efAdaptorIsr vec)) ((Work.start m rsp ws).on m) =
      .goto .fixIstErrCode
        ({ Work.start m (rsp - 8#64) ws with
          mem := storeWords m.mem (rsp - 8#64 - 8#64) (m.regs.rdi :: handler :: ws)
          zf := zf, sf := sf }.on m) := by
  have hback : rsp - 8#64 - 8#64 + 8#64 = rsp - 8#64 := by ring
  simp only [code, runBlock, step, Machine.setReg, Machine.setFlags, Regs.set, Regs.get,
    Machine.noteRead, Machine.address, Work.on, Work.start, hback, stub_storeWords,
    read64_storeWords_cons, hh]
  exact ⟨_, _, rfl⟩

/-- The first block of the common code, for a stack that is eight bytes off. -/
lemma runBlock_fixIst_err (rsp : Word) (ws : List Word) (hodd : rsp.toNat % 16 = 8)
    (hpage : (rsp - 8#64).toNat % 4096 = 0xfc0) (w : Work) (hrsp : w.rsp = rsp)
    (hmem : w.mem = storeWords m.mem (rsp - 8#64) (w.rdi :: ws)) :
    ∃ rdi zf sf, runBlock (code y .fixIstErrCode) (w.on m) =
      .goto .errLenNormal
        ({ w with rsp := rsp - 8#64, rdi := rdi, zf := zf, sf := sf, df := false }.on m) := by
  subst hrsp
  have htest : (w.rsp &&& 8#64 == 0#64) = false := by
    rw [beq_eq_false_iff_ne, ne_eq, and_eight_eq_zero_iff]
    omega
  have hlen : ((w.rsp - 8#64 &&& 0xfff#64) - 0xfc0#64 == 0#64) = true := cmp_page_mask hpage
  have hpush : write64 w.mem (w.rsp - 8#64) w.rdi = w.mem := by
    rw [hmem, push_again]
  simp only [code, runBlock, step, Machine.setReg, Machine.setFlags, Regs.set, Regs.get,
    Machine.holds, Work.on, htest, hlen, hpush, cond_false, Bool.not_true]
  exact ⟨_, _, _, rfl⟩

section ErrorCode

variable (hec : f.errorCode = some ec)
include hec

lemma words_err : f.words = [ec, f.rip, f.cs, f.rflags, f.rsp, f.ss] := by
  simp [Frame.words, hec]

lemma saved_err : saved m handler f =
    [m.regs.rcx, m.regs.rsi, m.regs.rdi, handler, ec, f.rip, f.cs, f.rflags, f.rsp, f.ss] := by
  rw [saved, words_err hec]

lemma saved_length : (saved m handler f).length = 10 := by
  rw [saved_err hec]
  rfl

/-- A word of the frame that is read. -/
lemma read_saved (m : Machine) (handler : Word) {i : ℕ} (hi : i < 10) (mem : Mem) (rsp : Word) :
    read64 (storeWords mem rsp (saved m handler f)) (rsp + BitVec.ofNat 64 (8 * i)) =
      (saved m handler f).get ⟨i, by rw [saved_length hec]; exact hi⟩ :=
  read64_storeWords _ (by rw [saved_length hec]; norm_num)

/-- A word of the frame that is written. -/
lemma write_saved {i : ℕ} (hi : i < 10) (mem : Mem) (rsp w : Word) :
    write64 (storeWords mem rsp (saved m handler f)) (rsp + BitVec.ofNat 64 (8 * i)) w =
      storeWords mem rsp ((saved m handler f).set i w) :=
  write64_storeWords_set (by rw [saved_length hec]; exact hi)
    (by rw [saved_length hec]; norm_num) w

/-- Setting bits of the saved flags. -/
lemma orl_rflags (m : Machine) (handler : Word) (mem : Mem) (rsp : Word) (bits : BitVec 32) :
    write32 (storeWords mem rsp (saved m handler f)) (rsp + 0x38#64)
        (read32 (storeWords mem rsp (saved m handler f)) (rsp + 0x38#64) ||| bits) =
      storeWords mem rsp
        (saved m handler { f with rflags := f.rflags ||| bits.setWidth 64 }) := by
  have hread : read64 (storeWords mem rsp (saved m handler f)) (rsp + 0x38#64) = f.rflags := by
    have h := read_saved hec m handler (i := 7) (by omega) mem rsp
    simpa [saved, Frame.words, hec] using h
  have hset : (saved m handler f).set 7 (f.rflags ||| bits.setWidth 64) =
      saved m handler { f with rflags := f.rflags ||| bits.setWidth 64 } := by
    simp [saved, Frame.words, hec]
  rw [write32_or, hread, ← hset]
  exact write_saved hec (i := 7) (by omega) mem rsp _

/-- The error code, CS and SS of a fault in user mode. -/
lemma store_asUser (m : Machine) (handler : Word) (mem : Mem) (rsp : Word) :
    write64 (write64 (write32 (storeWords mem rsp (saved m handler f)) (rsp + 0x20#64)
        (read32 (storeWords mem rsp (saved m handler f)) (rsp + 0x20#64) ||| ERRCODE_PF_USER))
        (rsp + 0x30#64) USER_CS) (rsp + 0x48#64) USER_SS =
      storeWords mem rsp (saved m handler f.asUser) := by
  have hread : read64 (storeWords mem rsp (saved m handler f)) (rsp + 0x20#64) = ec := by
    have h := read_saved hec m handler (i := 4) (by omega) mem rsp
    simpa [saved, Frame.words, hec] using h
  have hread4 : rsp + 0x20#64 = rsp + BitVec.ofNat 64 (8 * 4) := rfl
  have hread6 : rsp + 0x30#64 = rsp + BitVec.ofNat 64 (8 * 6) := rfl
  have hread9 : rsp + 0x48#64 = rsp + BitVec.ofNat 64 (8 * 9) := rfl
  rw [write32_or, hread, saved_err hec, hread4, hread6, hread9,
    write64_storeWords_set (by simp) (by simp), write64_storeWords_set (by simp) (by simp),
    write64_storeWords_set (by simp) (by simp)]
  simp [saved, Frame.words, Frame.asUser, hec]

/-- The frame as the code leaves it on the IST page. -/
def Frame.marked (f : Frame) (swapped : Bool) : Frame :=
  if swapped then { f with rflags := f.rflags ||| RFLAGS_SWAPPED_GS.setWidth 64 } else f

/-- The registers are saved and a kernel GS base is looked for. -/
lemma runBlock_errLenNormal (handler rsp : Word) (w : Work) (hrsp : w.rsp = rsp)
    (hmem : w.mem = storeWords m.mem rsp (m.regs.rdi :: handler :: f.words))
    (hrsi : w.rsi = m.regs.rsi) (hrcx : w.rcx = m.regs.rcx) (hgs : w.gsBase = m.gsBase)
    (hkgs : w.kernelGsBase = m.kernelGsBase) :
    ∃ rsi rcx zf sf, runBlock (code y .errLenNormal) (w.on m) =
      .goto .errNoSwapgs
        ({ w with
          rsp := rsp - 8#64 - 8#64, rdi := f.rsp, rsi := rsi, rcx := rcx
          mem := storeWords m.mem (rsp - 8#64 - 8#64) (saved m handler (f.marked (!m.gsBase.msb)))
          gsBase := if m.gsBase.msb then m.gsBase else m.kernelGsBase
          kernelGsBase := if m.gsBase.msb then m.kernelGsBase else m.gsBase
          zf := zf, sf := sf }.on m) := by
  subst hrsp
  have hread : read64 w.mem (w.rsp + 0x30#64) = f.rsp := by
    rw [hmem, words_err hec]
    exact read64_storeWords (i := 6) (by simp) (by simp)
  have hsaved : write64 (write64 w.mem (w.rsp - 8#64) w.rsi) (w.rsp - 8#64 - 8#64) w.rcx =
      storeWords m.mem (w.rsp - 8#64 - 8#64) (saved m handler f) := by
    rw [hmem, push_storeWords, push_storeWords, hrsi, hrcx]
    rfl
  cases hmsb : m.gsBase.msb with
  | true =>
    simp only [code, runBlock, step, Machine.setReg, Machine.setFlags, Regs.set, Regs.get,
      Machine.noteRead, Machine.address, Machine.holds, Work.on, hread, hsaved, hgs, hkgs,
      BitVec.and_self, hmsb, cond_true, if_true]
    exact ⟨_, _, _, _, rfl⟩
  | false =>
    have hor := orl_rflags hec m handler m.mem (w.rsp - 8#64 - 8#64) RFLAGS_SWAPPED_GS
    simp only [code, runBlock, step, Machine.setReg, Machine.setFlags, Regs.set, Regs.get,
      Machine.noteRead, Machine.address, Machine.holds, Work.on, hread, hsaved, hgs, hkgs,
      BitVec.and_self, hmsb, cond_false, Bool.false_eq_true, if_false, hor]
    exact ⟨_, _, _, _, rfl⟩

end ErrorCode

/-- The word that `%gs:` finds at the place of `TSS.sp0`. -/
def sp0At (y : Layout) (mem : Mem) (base : Word) : Word :=
  read64 mem (base + (y.cpuTssRw + y.tssSp0))

/-- The flag of the task that `%gs:` finds as the current one. -/
def elevatedAt (y : Layout) (mem : Mem) (base : Word) : Bool :=
  mem (read64 mem (base + y.currentTask) + y.taskSymbioteElevated) &&& 1#8 != 0#8

/-- The test for a fault below the kernel stack, as it is written. -/
def looksLikeDoubleFault (y : Layout) (sp0 cr2 : Word) : Bool :=
  (sp0 - (y.threadSize + 0x1000#64)).msb && cr2.msb

lemma msb_andw (x : Word) (v : BitVec 16) :
    (x &&& 0xffffffffffff0000#64 ||| v.setWidth 64).msb = x.msb := by
  simp [BitVec.msb_eq_getLsbD_last]

/-- A frame from a user stack needs no test. -/
lemma runBlock_errNoSwapgs_user {w : Work} (hrdi : w.rdi.msb = false) :
    runBlock (code y .errNoSwapgs) (w.on m) =
      .goto .skipDoubleFaultTest ({ w with zf := w.rdi == 0#64, sf := false }.on m) := by
  simp only [code, runBlock, step, Machine.setFlags, Regs.get, Machine.holds, Work.on,
    BitVec.and_self, hrdi, Bool.not_false, cond_true]

/-- It goes below `TSS.sp0`. -/
lemma runBlock_skipDoubleFaultTest (w : Work) :
    runBlock (code y .skipDoubleFaultTest) (w.on m) =
      .goto .errSkipSetDest
        ({ w with rdi := sp0At y w.mem w.gsBase, gsReads := w.gsBase :: w.gsReads }.on m) := rfl

/-- A frame from a kernel stack goes below the saved stack pointer. -/
lemma runBlock_errNoSwapgs_kernel {w : Work} (hrdi : w.rdi.msb = true)
    (hdf : looksLikeDoubleFault y (sp0At y w.mem w.gsBase) m.cr2 = false) :
    ∃ rsi rcx zf sf, runBlock (code y .errNoSwapgs) (w.on m) =
      .goto .errSkipSetDest
        ({ w with
          rsi := rsi, rcx := rcx, gsReads := w.gsBase :: w.gsReads, zf := zf, sf := sf }.on m) := by
  rw [looksLikeDoubleFault, sp0At] at hdf
  simp only [code, runBlock, step, Machine.setReg, Machine.setFlags, Regs.set, Regs.get,
    Machine.noteRead, Machine.address, Machine.holds, Work.on, BitVec.and_self, hrdi,
    Bool.not_true, cond_false, BitVec.msb_and, msb_andw, hdf, Bool.not_false, cond_true]
  exact ⟨_, _, _, _, rfl⟩

/-- The double-fault exit: the scratch registers are popped and the handler is dropped,
with GS as it was chosen. -/
lemma runBlock_errNoSwapgs_doubleFault {w : Work} (hrdi : w.rdi.msb = true)
    (hdf : looksLikeDoubleFault y (sp0At y w.mem w.gsBase) m.cr2 = true) :
    ∃ rdi rsi rcx zf sf, runBlock (code y .errNoSwapgs) (w.on m) =
      .jump (read64 w.mem y.dfHandlerLocation)
        ({ w with
          rsp := w.rsp + 8#64 + 8#64 + 8#64 + 8#64, rdi := rdi, rsi := rsi, rcx := rcx
          gsReads := w.gsBase :: w.gsReads, zf := zf, sf := sf }.on m) := by
  rw [looksLikeDoubleFault, sp0At] at hdf
  simp only [code, runBlock, step, Machine.setReg, Machine.setFlags, Regs.set, Regs.get,
    Machine.noteRead, Machine.address, Machine.holds, Work.on, BitVec.and_self, hrdi,
    Bool.not_true, cond_false, BitVec.msb_and, msb_andw, hdf]
  exact ⟨_, _, _, _, _, rfl⟩

/-- The frame as the handler of an elevated task is to see it. -/
def Frame.forTask (f : Frame) (elevated : Bool) (cr2 : Word) : Frame :=
  if elevated && !cr2.msb then f.asUser else f

/-- The faults of an elevated task on user addresses are made to look like user
faults. -/
lemma runBlock_errSkipSetDest (hec : f.errorCode = some ec) (handler : Word) {w : Work}
    (hmem : w.mem = storeWords m.mem w.rsp (saved m handler f)) :
    ∃ rsi rcx zf sf, runBlock (code y .errSkipSetDest) (w.on m) =
      .goto .errSkipFlagSet
        ({ w with
          rsi := rsi, rcx := rcx
          mem := storeWords m.mem w.rsp
            (saved m handler (f.forTask (elevatedAt y w.mem w.gsBase) m.cr2))
          gsReads := w.gsBase :: w.gsReads, zf := zf, sf := sf }.on m) := by
  have hel : elevatedAt y w.mem w.gsBase =
      !(w.mem (read64 w.mem (w.gsBase + y.currentTask) + y.taskSymbioteElevated) &&& 1#8 == 0#8) :=
    rfl
  cases hflag : (w.mem (read64 w.mem (w.gsBase + y.currentTask) + y.taskSymbioteElevated) &&& 1#8
      == 0#8) with
  | true =>
    simp only [code, runBlock, step, Machine.setReg, Machine.setFlags, Regs.set, Regs.get,
      Machine.noteRead, Machine.address, Machine.holds, Work.on, hflag, cond_true, hel,
      Frame.forTask, Bool.not_true, Bool.false_and, Bool.false_eq_true, if_false, ← hmem]
    exact ⟨_, _, _, _, rfl⟩
  | false =>
    cases hcr2 : m.cr2.msb with
    | true =>
      simp only [code, runBlock, step, Machine.setReg, Machine.setFlags, Regs.set, Regs.get,
        Machine.noteRead, Machine.address, Machine.holds, Work.on, hflag, cond_true, cond_false,
        hel, Frame.forTask, Bool.not_true, Bool.and_false, Bool.false_eq_true, if_false,
        BitVec.and_self, hcr2, ← hmem]
      exact ⟨_, _, _, _, rfl⟩
    | false =>
      have huser := store_asUser hec m handler m.mem w.rsp
      rw [← hmem] at huser
      simp only [code, runBlock, step, Machine.setReg, Machine.setFlags, Regs.set, Regs.get,
        Machine.noteRead, Machine.address, Machine.holds, Work.on, hflag, cond_false, hel,
        Frame.forTask, Bool.not_false, Bool.and_self, if_true, BitVec.and_self, hcr2, huser]
      exact ⟨_, _, _, _, rfl⟩

/-- The first block of the common code, for an aligned stack. -/
lemma runBlock_fixIst_noErr {w : Work} (heven : w.rsp.toNat % 16 < 8) :
    ∃ zf sf, runBlock (code y .fixIstErrCode) (w.on m) =
      .goto .fixIstNoErrCode ({ w with zf := zf, sf := sf, df := false }.on m) := by
  have htest : (w.rsp &&& 8#64 == 0#64) = true := by
    rw [beq_iff_eq, and_eight_eq_zero_iff]
    exact heven
  simp only [code, runBlock, step, Machine.setFlags, Regs.get, Machine.holds, Work.on, htest,
    cond_true]
  exact ⟨_, _, rfl⟩

lemma runBlock_fixIstNoErrCode (rsp : Word) (ws : List Word)
    (hpage : (rsp - 8#64).toNat % 4096 = 0xfc8) (w : Work) (hrsp : w.rsp = rsp)
    (hmem : w.mem = storeWords m.mem (rsp - 8#64) (w.rdi :: ws)) :
    ∃ rdi zf sf, runBlock (code y .fixIstNoErrCode) (w.on m) =
      .goto .noErrLenNormal
        ({ w with rsp := rsp - 8#64, rdi := rdi, zf := zf, sf := sf }.on m) := by
  subst hrsp
  have hlen : ((w.rsp - 8#64 &&& 0xfff#64) - 0xfc8#64 == 0#64) = true := cmp_page_mask hpage
  have hpush : write64 w.mem (w.rsp - 8#64) w.rdi = w.mem := by
    rw [hmem, push_again]
  simp only [code, runBlock, step, Machine.setReg, Machine.setFlags, Regs.set, Regs.get,
    Machine.holds, Work.on, hlen, hpush, cond_false, Bool.not_true]
  exact ⟨_, _, _, rfl⟩

section NoErrorCode

variable {rsp : Word} {w : Work} (hnone : f.errorCode = none) (hrsp : w.rsp = rsp)
  (hmem : w.mem = storeWords m.mem rsp (m.regs.rdi :: handler :: f.words))
  (hrsi : w.rsi = m.regs.rsi) (hrcx : w.rcx = m.regs.rcx)
include hnone hrsp hmem hrsi hrcx

lemma noErr_loads : read64 w.mem (w.rsp + 0x28#64) = f.rsp ∧
    write64 (write64 w.mem (w.rsp - 8#64) w.rsi) (w.rsp - 8#64 - 8#64) w.rcx =
      storeWords m.mem (rsp - 8#64 - 8#64) (saved m handler f) := by
  subst hrsp
  refine ⟨?_, ?_⟩
  · rw [hmem, Frame.words, hnone]
    exact read64_storeWords (i := 5) (by simp) (by simp)
  · rw [hmem, push_storeWords, push_storeWords, hrsi, hrcx]
    rfl

/-- A frame from a kernel stack goes below the saved stack pointer. -/
lemma runBlock_noErrLenNormal_kernel (hmsb : f.rsp.msb = true) :
    ∃ zf sf, runBlock (code y .noErrLenNormal) (w.on m) =
      .goto .noErrSkipSetDest
        ({ w with
          rsp := rsp - 8#64 - 8#64, rdi := f.rsp
          mem := storeWords m.mem (rsp - 8#64 - 8#64) (saved m handler f)
          zf := zf, sf := sf }.on m) := by
  obtain ⟨hread, hsaved⟩ := noErr_loads hnone hrsp hmem hrsi hrcx
  subst hrsp
  simp only [code, runBlock, step, Machine.setReg, Machine.setFlags, Regs.set, Regs.get,
    Machine.noteRead, Machine.address, Machine.holds, Work.on, hread, hsaved, BitVec.and_self,
    hmsb, cond_true]
  exact ⟨_, _, rfl⟩

/-- A frame from a user stack, with a kernel GS base in place. -/
lemma runBlock_noErrLenNormal_user (hmsb : f.rsp.msb = false) (hgs : w.gsBase.msb = true) :
    ∃ rdi zf sf, runBlock (code y .noErrLenNormal) (w.on m) =
      .goto .noErrNoSwapgs
        ({ w with
          rsp := rsp - 8#64 - 8#64, rdi := rdi
          mem := storeWords m.mem (rsp - 8#64 - 8#64) (saved m handler f)
          zf := zf, sf := sf }.on m) := by
  obtain ⟨hread, hsaved⟩ := noErr_loads hnone hrsp hmem hrsi hrcx
  subst hrsp
  simp only [code, runBlock, step, Machine.setReg, Machine.setFlags, Regs.set, Regs.get,
    Machine.noteRead, Machine.address, Machine.holds, Work.on, hread, hsaved, BitVec.and_self,
    hmsb, hgs, cond_true, cond_false]
  exact ⟨_, _, _, rfl⟩

/-- A frame from a user stack, with GS swapped for the read only. -/
lemma runBlock_noErrLenNormal_swap (hmsb : f.rsp.msb = false) (hgs : w.gsBase.msb = false) :
    ∃ zf sf, runBlock (code y .noErrLenNormal) (w.on m) =
      .goto .noErrSkipSetDest
        ({ w with
          rsp := rsp - 8#64 - 8#64
          rdi := sp0At y (storeWords m.mem (rsp - 8#64 - 8#64) (saved m handler f)) w.kernelGsBase
          mem := storeWords m.mem (rsp - 8#64 - 8#64) (saved m handler f)
          gsReads := w.kernelGsBase :: w.gsReads, zf := zf, sf := sf }.on m) := by
  obtain ⟨hread, hsaved⟩ := noErr_loads hnone hrsp hmem hrsi hrcx
  subst hrsp
  simp only [code, runBlock, step, Machine.setReg, Machine.setFlags, Regs.set, Regs.get,
    Machine.noteRead, Machine.address, Machine.holds, Work.on, hread, hsaved, BitVec.and_self,
    hmsb, hgs, cond_false]
  exact ⟨_, _, rfl⟩

end NoErrorCode

lemma runBlock_noErrNoSwapgs (w : Work) :
    runBlock (code y .noErrNoSwapgs) (w.on m) =
      .goto .noErrSkipSetDest
        ({ w with rdi := sp0At y w.mem w.gsBase, gsReads := w.gsBase :: w.gsReads }.on m) := rfl

/-- The move itself: `count` words go to just below `%rdi`, which becomes the
stack. -/
lemma runBlock_move {w : Work} (hdf : w.df = false) (size count : Word)
    (hsize : size = 8#64 * count) (rest : List (Instr Label)) :
    ∃ rsi zf sf, runBlock (.subImm size .rdi :: .mov .rsp .rsi :: .movImm count .rcx :: .repMovsq ::
        .lea (.based .rdi (-size)) .rsp :: rest) (w.on m) =
      runBlock rest
        ({ w with
          rsp := w.rdi - size, rsi := rsi, rcx := 0#64
          mem := moveWords 8#64 count.toNat w.rsp (w.rdi - size) w.mem
          moved := destinations 8#64 count.toNat (w.rdi - size) ++ w.moved
          zf := zf, sf := sf }.on m) := by
  have hend : w.rdi - size + 8#64 * count = w.rdi := by rw [hsize]; ring
  have hback : w.rdi + -size = w.rdi - size := by ring
  simp only [runBlock, step, Machine.setReg, Machine.setFlags, Regs.set, Regs.get, Work.on, hdf,
    Machine.address, cond_false, hend, hback]
  exact ⟨_, _, _, rfl⟩

/-- The flags word at the stack says that GS was swapped. -/
def markedAt (mem : Mem) (rsp : Word) : Bool :=
  !(read32 mem (rsp + 0x38#64) &&& RFLAGS_SWAPPED_GS == 0#32)

/-- GS is swapped back, and the mark is removed. -/
def Work.unswapped (w : Work) : Work :=
  bif markedAt w.mem w.rsp then
    { w with
      mem := write32 w.mem (w.rsp + 0x38#64)
        (read32 w.mem (w.rsp + 0x38#64) &&& RFLAGS_SWAPPED_GS_MASK)
      gsBase := w.kernelGsBase
      kernelGsBase := w.gsBase }
  else w

lemma Work.unswapped_rsp (w : Work) : w.unswapped.rsp = w.rsp := by
  unfold Work.unswapped
  cases markedAt w.mem w.rsp <;> rfl

lemma Work.unswapped_moved (w : Work) : w.unswapped.moved = w.moved := by
  unfold Work.unswapped
  cases markedAt w.mem w.rsp <;> rfl

lemma Work.unswapped_gsReads (w : Work) : w.unswapped.gsReads = w.gsReads := by
  unfold Work.unswapped
  cases markedAt w.mem w.rsp <;> rfl

lemma runBlock_swapBack (w : Work) :
    ∃ zf sf, runBlock [.testl RFLAGS_SWAPPED_GS (.based .rsp 0x38#64), .jcc .z .errNoSwapBack,
        .swapgs, .andl RFLAGS_SWAPPED_GS_MASK (.based .rsp 0x38#64), .jmp .errNoSwapBack] (w.on m) =
      .goto Label.errNoSwapBack ({ w.unswapped with zf := zf, sf := sf }.on m) := by
  cases hbit : (read32 w.mem (w.rsp + 0x38#64) &&& RFLAGS_SWAPPED_GS == 0#32) with
  | true =>
    simp only [runBlock, step, Machine.setFlags, Regs.get, Work.on, Machine.noteRead,
      Machine.address, Machine.holds, Work.unswapped, markedAt, hbit, cond_true, Bool.not_true,
      cond_false]
    exact ⟨_, _, rfl⟩
  | false =>
    simp only [runBlock, step, Machine.setFlags, Regs.get, Work.on, Machine.noteRead,
      Machine.address, Machine.holds, Work.unswapped, markedAt, hbit, cond_true, Bool.not_false,
      cond_false]
    exact ⟨_, _, rfl⟩

/-- Moving a frame with an error code. -/
lemma runBlock_errSkipFlagSet {w : Work} (hdf : w.df = false) :
    ∃ rsi zf sf zf' sf', runBlock (code y .errSkipFlagSet) (w.on m) =
      .goto .errNoSwapBack
        ({ ({ w with
              rsp := w.rdi - 0x50#64, rsi := rsi, rcx := 0#64
              mem := moveWords 8#64 10 w.rsp (w.rdi - 0x50#64) w.mem
              moved := destinations 8#64 10 (w.rdi - 0x50#64) ++ w.moved
              zf := zf, sf := sf } : Work).unswapped with zf := zf', sf := sf' }.on m) := by
  obtain ⟨rsi, zf, sf, hmove⟩ := runBlock_move (m := m) hdf 0x50#64 10#64 rfl
    [.testl RFLAGS_SWAPPED_GS (.based .rsp 0x38#64), .jcc .z .errNoSwapBack, .swapgs,
      .andl RFLAGS_SWAPPED_GS_MASK (.based .rsp 0x38#64), .jmp .errNoSwapBack]
  obtain ⟨zf', sf', hback⟩ := runBlock_swapBack (m := m)
    ({ w with
        rsp := w.rdi - 0x50#64, rsi := rsi, rcx := 0#64
        mem := moveWords 8#64 10 w.rsp (w.rdi - 0x50#64) w.mem
        moved := destinations 8#64 10 (w.rdi - 0x50#64) ++ w.moved
        zf := zf, sf := sf } : Work)
  exact ⟨rsi, zf, sf, zf', sf', hmove.trans hback⟩

/-- A test of the moved frame goes on, or to `.Lerr_c_ret_state_bad`. -/
lemma runBlock_check (i : Instr Label) (cond : Cond) (rest : List (Instr Label)) (w : Work)
    {zf sf : Bool}
    (hi : runBlock (i :: .jcc cond .errRetStateBad :: rest) (w.on m) =
      runBlock (.jcc cond .errRetStateBad :: rest) ({ w with zf := zf, sf := sf }.on m)) :
    runBlock (i :: .jcc cond .errRetStateBad :: rest) (w.on m) =
        .goto .errRetStateBad ({ w with zf := zf, sf := sf }.on m) ∨
      runBlock (i :: .jcc cond .errRetStateBad :: rest) (w.on m) =
        runBlock rest ({ w with zf := zf, sf := sf }.on m) := by
  rw [hi, runBlock]
  cases ({ w with zf := zf, sf := sf }.on m).holds cond with
  | true => exact Or.inl rfl
  | false => exact Or.inr rfl

/-- The tests of the words of a frame, one after the other. -/
def testWords (checks : List (BitVec 32 × Word)) : List (Instr Label) :=
  checks.flatMap fun c => [.testl c.1 (.based .rsp c.2), .jcc .nz .errRetStateBad]

lemma runBlock_testWords (checks : List (BitVec 32 × Word)) (rest : List (Instr Label)) (w : Work) :
    ∃ zf sf, runBlock (testWords checks ++ rest) (w.on m) =
        .goto .errRetStateBad ({ w with zf := zf, sf := sf }.on m) ∨
      runBlock (testWords checks ++ rest) (w.on m) =
        runBlock rest ({ w with zf := zf, sf := sf }.on m) := by
  induction checks generalizing w with
  | nil => exact ⟨w.zf, w.sf, Or.inr rfl⟩
  | cons c checks ih =>
    rcases runBlock_check (m := m) (.testl c.1 (.based .rsp c.2)) .nz (testWords checks ++ rest) w
      rfl with h | h
    · exact ⟨_, _, Or.inl h⟩
    · obtain ⟨zf, sf, hrest⟩ := ih { w with zf := _, sf := _ }
      exact ⟨zf, sf, hrest.imp h.trans h.trans⟩

/-- The scratch registers as they come back from the stack. -/
def Work.popped (w : Work) : Work :=
  { w with
    rsp := w.rsp + 8#64 + 8#64 + 8#64
    rcx := read64 w.mem w.rsp
    rsi := read64 w.mem (w.rsp + 8#64)
    rdi := read64 w.mem (w.rsp + 8#64 + 8#64) }

lemma runBlock_popScratch (rest : List (Instr Label)) (w : Work) :
    runBlock (.pop .rcx :: .pop .rsi :: .pop .rdi :: rest) (w.on m) =
      runBlock rest (w.popped.on m) := by
  simp only [runBlock, step, Machine.setReg, Regs.set, Work.on, Work.popped]

/-- The scratch registers are popped and the frame is tested. -/
lemma runBlock_pops (checks : List (BitVec 32 × Word)) (rest : List (Instr Label)) (w : Work) :
    ∃ zf sf, runBlock (.pop .rcx :: .pop .rsi :: .pop .rdi :: .cmpMem 0#64 (.based .rsp 0#64) ::
          .jcc .z .errRetStateBad :: (testWords checks ++ rest)) (w.on m) =
        .goto .errRetStateBad ({ w.popped with zf := zf, sf := sf }.on m) ∨
      runBlock (.pop .rcx :: .pop .rsi :: .pop .rdi :: .cmpMem 0#64 (.based .rsp 0#64) ::
          .jcc .z .errRetStateBad :: (testWords checks ++ rest)) (w.on m) =
        runBlock rest ({ w.popped with zf := zf, sf := sf }.on m) := by
  have hpop := runBlock_popScratch (m := m) (.cmpMem 0#64 (.based .rsp 0#64) ::
    .jcc .z .errRetStateBad :: (testWords checks ++ rest)) w
  rcases runBlock_check (m := m) (.cmpMem 0#64 (.based .rsp 0#64)) .z (testWords checks ++ rest)
    w.popped rfl with h | h
  · exact ⟨_, _, Or.inl (hpop.trans h)⟩
  · obtain ⟨zf, sf, hrest⟩ :=
      runBlock_testWords (m := m) checks rest { w.popped with zf := _, sf := _ }
    have hstart := hpop.trans h
    exact ⟨zf, sf, hrest.imp hstart.trans hstart.trans⟩

/-- What a return finds: the handler, and the machine that enters it. -/
def Work.returned (w : Work) : Work := { w with rsp := w.rsp + 8#64 }

/-- The return into the handler, with the scratch registers popped. -/
def arrive (w : Work) (m : Machine) (zf sf : Bool) : Flow Label :=
  .ret (read64 w.mem w.popped.rsp) ({ w.popped.returned with zf := zf, sf := sf }.on m)

/-- The end of the path with an error code. -/
lemma run_errNoSwapBack (fuel : ℕ) (w : Work) :
    ∃ zf sf, run (code y) (fuel + 3) .errNoSwapBack (w.on m) = some (arrive w m zf sf) := by
  obtain ⟨zf, sf, hend⟩ := runBlock_pops (m := m)
    [(ERRCODE_MASK, 8#64), (CS_MASK, 0x18#64), (FLAGS_MASK, 0x20#64), (SS_MASK, 0x30#64)]
    [.jmp .errRetNormal] w
  have hcases : runBlock (code y .errNoSwapBack) (w.on m) =
        .goto .errRetStateBad ({ w.popped with zf := zf, sf := sf }.on m) ∨
      runBlock (code y .errNoSwapBack) (w.on m) =
        .goto .errRetNormal ({ w.popped with zf := zf, sf := sf }.on m) := hend
  refine ⟨zf, sf, ?_⟩
  rcases hcases with h | h
  · rw [run_goto h]
    rfl
  · rw [run_goto h]
    rfl

/-- The end of the path without one. -/
lemma run_noErrSkipSetDest (fuel : ℕ) {w : Work} (hdf : w.df = false) :
    ∃ (w' : Work) (zf sf : Bool),
      run (code y) (fuel + 3) .noErrSkipSetDest (w.on m) = some (arrive w' m zf sf) ∧
      w'.rsp = w.rdi - 0x48#64 ∧
      w'.mem = moveWords 8#64 9 w.rsp (w.rdi - 0x48#64) w.mem ∧
      w'.gsBase = w.gsBase ∧ w'.gsReads = w.gsReads ∧
      w'.moved = destinations 8#64 9 (w.rdi - 0x48#64) ++ w.moved := by
  obtain ⟨rsi, zf', sf', hmove⟩ := runBlock_move (m := m) hdf 0x48#64 9#64 rfl
    ((code y .noErrSkipSetDest).drop 5)
  have hmoved : runBlock (code y .noErrSkipSetDest) (w.on m) = _ := hmove
  generalize hw' : ({ w with
    rsp := w.rdi - 0x48#64, rsi := rsi, rcx := 0#64
    mem := moveWords 8#64 (9#64).toNat w.rsp (w.rdi - 0x48#64) w.mem
    moved := destinations 8#64 (9#64).toNat (w.rdi - 0x48#64) ++ w.moved
    zf := zf', sf := sf' } : Work) = w' at hmoved
  obtain ⟨zf, sf, hend⟩ := runBlock_pops (m := m)
    [(CS_MASK, 0x10#64), (FLAGS_MASK, 0x18#64), (SS_MASK, 0x28#64)] [.ret] w'
  have hcases : runBlock (code y .noErrSkipSetDest) (w.on m) =
        .goto .errRetStateBad ({ w'.popped with zf := zf, sf := sf }.on m) ∨
      runBlock (code y .noErrSkipSetDest) (w.on m) = arrive w' m zf sf :=
    hend.imp hmoved.trans hmoved.trans
  refine ⟨w', zf, sf, ?_, ?_⟩
  · rcases hcases with h | h
    · rw [run_goto h]
      rfl
    · rw [run, h]
      rfl
  · rw [← hw']
    exact ⟨rfl, rfl, rfl, rfl, rfl⟩

end SymbiOS.Relocation
