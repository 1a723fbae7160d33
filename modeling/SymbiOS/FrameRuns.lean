import SymbiOS.FrameExec

/-!
# Whole runs of the entry code

The blocks are put together: from the gate to the handler or to the double-fault
exit. The code takes the active GS base for the kernel's when it is negative and
the inactive one otherwise, and everything it reads for the CPU or the task is
read through the one it has chosen.
-/
namespace SymbiOS.Relocation
open SymbiOS.X86

variable {y : Layout} {vec : Fin 256} {m : Machine} {top : Word} {f : Frame} {handler ec : Word}

/-- The GS base that the code reads through. -/
def chosenBase (m : Machine) : Word := if m.gsBase.msb then m.gsBase else m.kernelGsBase

/-- An exception through a redirected vector, from the gate until control leaves
the entry code; no path has more than ten blocks. -/
def entry (y : Layout) (vec : Fin 256) (top : Word) (f : Frame) (m : Machine) :
    Option (Flow Label) :=
  run (code y) 10 (.efAdaptorIsr vec) (deliver top f m)

/-- The handler that a vector had before it was redirected. -/
def origIsr (y : Layout) (vec : Fin 256) (mem : Mem) : Word :=
  read64 mem (y.efAdaptorOrigIsrs + BitVec.ofNat 64 (vec * 8))

/-- The stack below which the frame of a fault belongs. -/
def destination (f : Frame) (sp0 : Word) : Word := if f.rsp.msb then f.rsp else sp0

/-- How many words are moved: the frame, the handler and the scratch registers. -/
def movedLength (f : Frame) : ℕ := f.words.length + 4

lemma Frame.words_length (f : Frame) :
    f.words.length = if f.errorCode.isSome then 6 else 5 := by
  unfold Frame.words
  cases f.errorCode with
  | none => rfl
  | some ec => rfl

lemma saved_length_eq (m : Machine) (handler : Word) (f : Frame) :
    (saved m handler f).length = movedLength f := rfl

/-- None of `size` bytes is among the eighty below the top of the IST stack, all
that the entry code writes there. -/
def OffStack (top addr : Word) (size : ℕ) : Prop :=
  0x50 ≤ (addr - (top - 0x50#64)).toNat ∧ (addr - (top - 0x50#64)).toNat + size ≤ 2 ^ 64

instance (top addr : Word) (size : ℕ) : Decidable (OffStack top addr size) :=
  inferInstanceAs (Decidable (_ ∧ _))

lemma OffStack.byte {addr : Word} {size j k : ℕ} (h : OffStack top addr size) (hj : j < size)
    (hk : k ≤ 10) :
    8 * k ≤ (addr + BitVec.ofNat 64 j - (top - BitVec.ofNat 64 (8 * k))).toNat := by
  obtain ⟨hlo, hhi⟩ := h
  have hsub : addr + BitVec.ofNat 64 j - (top - BitVec.ofNat 64 (8 * k)) =
      (addr - (top - 0x50#64)) + BitVec.ofNat 64 j - (0x50#64 - BitVec.ofNat 64 (8 * k)) := by
    ring
  rw [hsub]
  generalize addr - (top - 0x50#64) = d at *
  bv_omega

/-- A word elsewhere is read as if nothing had been pushed. -/
lemma OffStack.read64_storeWords {addr : Word} (h : OffStack top addr 8) {mem : Mem}
    {ws : List Word} {k : ℕ} (hk : k ≤ 10) (hlen : ws.length ≤ k) :
    read64 (storeWords mem (top - BitVec.ofNat 64 (8 * k)) ws) addr = read64 mem addr := by
  apply read64_congr
  intro j hj
  have hbyte := h.byte hj hk
  exact storeWords_of_ge (by omega)

lemma OffStack.storeWords_apply {addr : Word} (h : OffStack top addr 1) {mem : Mem}
    {ws : List Word} {k : ℕ} (hk : k ≤ 10) (hlen : ws.length ≤ k) :
    storeWords mem (top - BitVec.ofNat 64 (8 * k)) ws addr = mem addr := by
  have hbyte := h.byte (j := 0) (by omega) hk
  rw [BitVec.add_zero] at hbyte
  exact storeWords_of_ge (by omega)

/-- The tables are elsewhere than the IST stack. -/
structure TablesApart (y : Layout) (vec : Fin 256) (top : Word) : Prop where
  isr : OffStack top (y.efAdaptorOrigIsrs + BitVec.ofNat 64 (vec * 8)) 8
  dfHandler : OffStack top y.dfHandlerLocation 8

/-- So is the per-CPU data that a GS base leads to. -/
structure PerCpuApart (y : Layout) (top : Word) (mem : Mem) (base : Word) : Prop where
  sp0 : OffStack top (base + (y.cpuTssRw + y.tssSp0)) 8
  currentTask : OffStack top (base + y.currentTask) 8
  elevated : OffStack top (read64 mem (base + y.currentTask) + y.taskSymbioteElevated) 1

section Apart

variable {mem : Mem} {base : Word} {ws : List Word} {k : ℕ}

lemma PerCpuApart.sp0At_eq (h : PerCpuApart y top mem base) (hk : k ≤ 10) (hlen : ws.length ≤ k) :
    sp0At y (storeWords mem (top - BitVec.ofNat 64 (8 * k)) ws) base = sp0At y mem base :=
  h.sp0.read64_storeWords hk hlen

lemma PerCpuApart.elevatedAt_eq (h : PerCpuApart y top mem base) (hk : k ≤ 10)
    (hlen : ws.length ≤ k) :
    elevatedAt y (storeWords mem (top - BitVec.ofNat 64 (8 * k)) ws) base =
      elevatedAt y mem base := by
  rw [elevatedAt, elevatedAt, h.currentTask.read64_storeWords hk hlen,
    h.elevated.storeWords_apply hk hlen]

/-- What the stub loads. -/
lemma TablesApart.stub_loads (h : TablesApart y vec top) (mem : Mem) (ws : List Word)
    (hk : k + 2 ≤ 10) (hlen : ws.length ≤ k) (v : Word) :
    read64 (write64 (storeWords mem (top - BitVec.ofNat 64 (8 * k)) ws)
        (top - BitVec.ofNat 64 (8 * k) - 8#64 - 8#64) v)
      (y.efAdaptorOrigIsrs + BitVec.ofNat 64 (vec * 8)) = origIsr y vec mem := by
  have haddr : top - BitVec.ofNat 64 (8 * k) - 8#64 - 8#64 =
      top - BitVec.ofNat 64 (8 * (k + 2)) := by
    bv_omega
  rw [haddr, write64, h.isr.read64_storeWords hk (by simp),
    h.isr.read64_storeWords (by omega) hlen]
  rfl

end Apart

lemma words_length_err (hec : f.errorCode = some ec) : f.words.length = 6 := by
  simp [f.words_length, hec]

/-- To the test of the saved stack pointer. -/
lemma run_to_errNoSwapgs (hec : f.errorCode = some ec) (htop : top.toNat % 4096 = 0)
    (htab : TablesApart y vec top) :
    ∃ w : Work, entry y vec top f m = run (code y) 7 .errNoSwapgs (w.on m) ∧
      w.rsp = top - 0x50#64 ∧ w.rdi = f.rsp ∧ w.df = false ∧
      w.mem = storeWords m.mem (top - 0x50#64)
        (saved m (origIsr y vec m.mem) (f.marked (!m.gsBase.msb))) ∧
      w.gsBase = chosenBase m ∧
      w.kernelGsBase = (if m.gsBase.msb then m.kernelGsBase else m.gsBase) ∧
      w.gsReads = m.gsReads ∧ w.moved = m.moved := by
  have hlen := words_length_err hec
  have hload := htab.stub_loads m.mem f.words (k := 6) (by omega) hlen.le m.regs.rdi
  obtain ⟨zf, sf, hisr⟩ := runBlock_isr hload
  obtain ⟨rdi, zf', sf', hfix⟩ := runBlock_fixIst_err (m := m) (y := y)
    (top - BitVec.ofNat 64 (8 * 6) - 8#64) (origIsr y vec m.mem :: f.words) (by bv_omega)
    (by bv_omega)
    { Work.start m (top - BitVec.ofNat 64 (8 * 6) - 8#64) f.words with
      mem := storeWords m.mem (top - BitVec.ofNat 64 (8 * 6) - 8#64 - 8#64)
        (m.regs.rdi :: origIsr y vec m.mem :: f.words)
      zf := zf, sf := sf } rfl rfl
  obtain ⟨rsi, rcx, zf'', sf'', hlenNormal⟩ := runBlock_errLenNormal (m := m) (y := y) hec
    (origIsr y vec m.mem) (top - BitVec.ofNat 64 (8 * 6) - 8#64 - 8#64)
    { Work.start m (top - BitVec.ofNat 64 (8 * 6) - 8#64) f.words with
      mem := storeWords m.mem (top - BitVec.ofNat 64 (8 * 6) - 8#64 - 8#64)
        (m.regs.rdi :: origIsr y vec m.mem :: f.words)
      rsp := top - BitVec.ofNat 64 (8 * 6) - 8#64 - 8#64, rdi := rdi
      zf := zf', sf := sf', df := false } rfl rfl rfl rfl rfl rfl
  have hrsp : top - BitVec.ofNat 64 (8 * 6) - 8#64 - 8#64 - 8#64 - 8#64 = top - 0x50#64 := by
    bv_omega
  have hrun := (run_goto hisr 9).trans ((run_goto hfix 8).trans (run_goto hlenNormal 7))
  have hentry : entry y vec top f m = run (code y) 10 (.efAdaptorIsr vec)
      ((Work.start m (top - BitVec.ofNat 64 (8 * 6)) f.words).on m) := by
    rw [entry, deliver_eq, hlen]
  exact ⟨_, hentry.trans hrun, hrsp, rfl, rfl, congrArg (storeWords m.mem · _) hrsp, rfl, rfl, rfl,
    rfl⟩

/-- Memory once the frame, the handler and the scratch registers are on the IST
stack, for a frame with an error code. -/
def errImage (y : Layout) (vec : Fin 256) (top : Word) (f : Frame) (m : Machine) : Mem :=
  storeWords m.mem (top - 0x50#64) (saved m (origIsr y vec m.mem) (f.marked (!m.gsBase.msb)))

lemma Frame.marked_errorCode (f : Frame) (s : Bool) : (f.marked s).errorCode = f.errorCode := by
  unfold Frame.marked
  split <;> rfl

lemma errImage_length {ec : Word} (hec : f.errorCode = some ec) (m : Machine) (handler : Word) :
    (saved m handler (f.marked (!m.gsBase.msb))).length = 10 :=
  saved_length ((f.marked_errorCode _).trans hec)

/-- Per-CPU data is read as if nothing had been pushed. -/
lemma sp0At_errImage {base : Word} (hcpu : PerCpuApart y top m.mem base)
    (hec : f.errorCode = some ec) :
    sp0At y (errImage y vec top f m) base = sp0At y m.mem base :=
  hcpu.sp0At_eq (k := 10) le_rfl (errImage_length hec m _).le

lemma elevatedAt_errImage {base : Word} (hcpu : PerCpuApart y top m.mem base)
    (hec : f.errorCode = some ec) :
    elevatedAt y (errImage y vec top f m) base = elevatedAt y m.mem base :=
  hcpu.elevatedAt_eq (k := 10) le_rfl (errImage_length hec m _).le

/-- Control leaves through the double-fault exit. -/
def takesDoubleFault (y : Layout) (f : Frame) (sp0 cr2 : Word) : Bool :=
  f.rsp.msb && looksLikeDoubleFault y sp0 cr2

/-- The double-fault handler is entered on the IST stack, with the frame there. -/
lemma entry_err_doubleFault (hec : f.errorCode = some ec) (htop : top.toNat % 4096 = 0)
    (htab : TablesApart y vec top)
    (hdf : takesDoubleFault y f (sp0At y (errImage y vec top f m) (chosenBase m)) m.cr2 = true) :
    ∃ w : Work, entry y vec top f m =
        some (.jump (read64 m.mem y.dfHandlerLocation) (w.on m)) ∧
      w.rsp = top - 0x30#64 ∧ w.mem = errImage y vec top f m ∧ w.gsBase = chosenBase m := by
  obtain ⟨w, hrun, hrsp, hrdi, -, hmem, hgs, -, -, -⟩ := run_to_errNoSwapgs (m := m) hec htop htab
  rw [takesDoubleFault, Bool.and_eq_true] at hdf
  obtain ⟨rdi, rsi, rcx, zf, sf, hblock⟩ := runBlock_errNoSwapgs_doubleFault (y := y) (m := m)
    (w := w) (by rw [hrdi]; exact hdf.1) (by rw [hmem, hgs]; exact hdf.2)
  have hloc : read64 w.mem y.dfHandlerLocation = read64 m.mem y.dfHandlerLocation := by
    rw [hmem]
    exact htab.dfHandler.read64_storeWords (k := 10) le_rfl (errImage_length hec m _).le
  have hrsp' : w.rsp + 8#64 + 8#64 + 8#64 + 8#64 = top - 0x30#64 := by
    rw [hrsp]
    bv_omega
  rw [run, hblock, hloc] at hrun
  exact ⟨_, hrun, hrsp', hmem, hgs⟩

/-- The frame goes below the saved stack pointer or below the `TSS.sp0` of the
GS base that was chosen. -/
lemma run_to_errSkipSetDest (hec : f.errorCode = some ec) (htop : top.toNat % 4096 = 0)
    (htab : TablesApart y vec top)
    (hdf : takesDoubleFault y f (sp0At y (errImage y vec top f m) (chosenBase m)) m.cr2 = false) :
    ∃ (w : Work) (fuel : ℕ), entry y vec top f m =
        run (code y) (fuel + 5) .errSkipSetDest (w.on m) ∧
      w.rsp = top - 0x50#64 ∧
      w.rdi = destination f (sp0At y (errImage y vec top f m) (chosenBase m)) ∧ w.df = false ∧
      w.mem = errImage y vec top f m ∧ w.gsBase = chosenBase m ∧
      w.kernelGsBase = (if m.gsBase.msb then m.kernelGsBase else m.gsBase) ∧
      w.gsReads = chosenBase m :: m.gsReads ∧ w.moved = m.moved := by
  obtain ⟨w, hrun, hrsp, hrdi, hd, hmem, hgs, hkgs, hreads, hmoved⟩ :=
    run_to_errNoSwapgs (m := m) hec htop htab
  have himage : w.mem = errImage y vec top f m := hmem
  cases hmsb : f.rsp.msb with
  | true =>
    rw [takesDoubleFault, hmsb, Bool.true_and] at hdf
    obtain ⟨rsi, rcx, zf, sf, hblock⟩ := runBlock_errNoSwapgs_kernel (y := y) (m := m) (w := w)
      (by rw [hrdi, hmsb]) (by rw [himage, hgs]; exact hdf)
    refine ⟨_, 1, hrun.trans (run_goto hblock 6), hrsp, ?_, hd, himage, hgs, hkgs, ?_, hmoved⟩
    · rw [destination, hmsb, if_pos rfl]
      exact hrdi
    · simp only [hgs, hreads]
  | false =>
    have hblock := runBlock_errNoSwapgs_user (y := y) (m := m) (w := w) (by rw [hrdi, hmsb])
    have hskip := runBlock_skipDoubleFaultTest (y := y) (m := m)
      { w with zf := w.rdi == 0#64, sf := false }
    refine ⟨_, 0, hrun.trans ((run_goto hblock 6).trans (run_goto hskip 5)), hrsp, ?_, hd, himage,
      hgs, hkgs, ?_, hmoved⟩
    · rw [destination, hmsb, if_neg Bool.false_ne_true, ← himage, ← hgs]
    · simp only [hgs, hreads]

/-- The move and the return, for a frame with an error code. -/
lemma entry_err (hec : f.errorCode = some ec) (htop : top.toNat % 4096 = 0)
    (htab : TablesApart y vec top)
    (hdf : takesDoubleFault y f (sp0At y (errImage y vec top f m) (chosenBase m)) m.cr2 = false) :
    ∃ (w : Work) (zf sf : Bool), entry y vec top f m = some (arrive w.unswapped m zf sf) ∧
      w.rsp = destination f (sp0At y (errImage y vec top f m) (chosenBase m)) - 0x50#64 ∧
      w.mem = moveWords 8#64 10 (top - 0x50#64)
        (destination f (sp0At y (errImage y vec top f m) (chosenBase m)) - 0x50#64)
        (storeWords m.mem (top - 0x50#64) (saved m (origIsr y vec m.mem)
          ((f.marked (!m.gsBase.msb)).forTask
            (elevatedAt y (errImage y vec top f m) (chosenBase m)) m.cr2))) ∧
      w.gsBase = chosenBase m ∧
      w.kernelGsBase = (if m.gsBase.msb then m.kernelGsBase else m.gsBase) ∧
      w.gsReads = chosenBase m :: chosenBase m :: m.gsReads ∧
      w.moved = destinations 8#64 10
        (destination f (sp0At y (errImage y vec top f m) (chosenBase m)) - 0x50#64) ++ m.moved := by
  obtain ⟨w, fuel, hrun, hrsp, hrdi, hd, hmem, hgs, hkgs, hreads, hmoved⟩ :=
    run_to_errSkipSetDest (m := m) hec htop htab hdf
  have hec' : (f.marked (!m.gsBase.msb)).errorCode = some ec := (f.marked_errorCode _).trans hec
  obtain ⟨rsi, rcx, zf, sf, hset⟩ := runBlock_errSkipSetDest (y := y) (m := m) hec'
    (origIsr y vec m.mem) (w := w) (by rw [hmem, hrsp]; rfl)
  obtain ⟨rsi', zf', sf', zf'', sf'', hmove⟩ := runBlock_errSkipFlagSet (y := y) (m := m)
    (w := { w with
      rsi := rsi, rcx := rcx
      mem := storeWords m.mem w.rsp (saved m (origIsr y vec m.mem)
        ((f.marked (!m.gsBase.msb)).forTask (elevatedAt y w.mem w.gsBase) m.cr2))
      gsReads := w.gsBase :: w.gsReads, zf := zf, sf := sf }) hd
  obtain ⟨zf₁, sf₁, hend⟩ := run_errNoSwapBack (y := y) (m := m) fuel _
  refine ⟨_, zf₁, sf₁, hrun.trans ((run_goto hset _).trans ((run_goto hmove _).trans hend)),
    ?_, ?_, hgs, hkgs, ?_, ?_⟩
  · simp only [hrdi]
  · simp only [hrdi, hrsp, hmem, hgs]
  · simp only [hgs, hreads]
  · simp only [hrdi, hmoved]

lemma words_length_noErr (hnone : f.errorCode = none) : f.words.length = 5 := by
  simp [f.words_length, hnone]

/-- Memory once everything is on the IST stack, for a frame without an error
code. -/
def noErrImage (y : Layout) (vec : Fin 256) (top : Word) (f : Frame) (m : Machine) : Mem :=
  storeWords m.mem (top - 0x48#64) (saved m (origIsr y vec m.mem) f)

lemma sp0At_noErrImage {base : Word} (hcpu : PerCpuApart y top m.mem base)
    (hnone : f.errorCode = none) :
    sp0At y (noErrImage y vec top f m) base = sp0At y m.mem base := by
  refine hcpu.sp0At_eq (k := 9) (by omega) (le_of_eq ?_)
  rw [saved_length_eq, movedLength, words_length_noErr hnone]

/-- The GS bases that are read through: none for a frame from a kernel stack. -/
def noErrReads (f : Frame) (m : Machine) : List Word := if f.rsp.msb then [] else [chosenBase m]

/-- To the look at the saved stack pointer. -/
lemma run_to_noErrLenNormal (hnone : f.errorCode = none) (htop : top.toNat % 4096 = 0)
    (htab : TablesApart y vec top) :
    ∃ w : Work, entry y vec top f m = run (code y) 7 .noErrLenNormal (w.on m) ∧
      w.rsp = top - 0x38#64 ∧
      w.mem = storeWords m.mem (top - 0x38#64) (m.regs.rdi :: origIsr y vec m.mem :: f.words) ∧
      w.rsi = m.regs.rsi ∧ w.rcx = m.regs.rcx ∧ w.df = false ∧
      w.gsBase = m.gsBase ∧ w.kernelGsBase = m.kernelGsBase ∧
      w.gsReads = m.gsReads ∧ w.moved = m.moved := by
  have hlen := words_length_noErr hnone
  have hload := htab.stub_loads m.mem f.words (k := 5) (by omega) hlen.le m.regs.rdi
  obtain ⟨zf, sf, hisr⟩ := runBlock_isr hload
  obtain ⟨zf', sf', hfix⟩ := runBlock_fixIst_noErr (m := m) (y := y)
    (w := { Work.start m (top - BitVec.ofNat 64 (8 * 5) - 8#64) f.words with
      mem := storeWords m.mem (top - BitVec.ofNat 64 (8 * 5) - 8#64 - 8#64)
        (m.regs.rdi :: origIsr y vec m.mem :: f.words)
      zf := zf, sf := sf })
    (by change (top - BitVec.ofNat 64 (8 * 5) - 8#64).toNat % 16 < 8; bv_omega)
  obtain ⟨rdi, zf'', sf'', hpush⟩ := runBlock_fixIstNoErrCode (m := m) (y := y)
    (top - BitVec.ofNat 64 (8 * 5) - 8#64) (origIsr y vec m.mem :: f.words) (by bv_omega)
    { Work.start m (top - BitVec.ofNat 64 (8 * 5) - 8#64) f.words with
      mem := storeWords m.mem (top - BitVec.ofNat 64 (8 * 5) - 8#64 - 8#64)
        (m.regs.rdi :: origIsr y vec m.mem :: f.words)
      zf := zf', sf := sf', df := false } rfl rfl
  have hrsp : top - BitVec.ofNat 64 (8 * 5) - 8#64 - 8#64 = top - 0x38#64 := by bv_omega
  have hrun := (run_goto hisr 9).trans ((run_goto hfix 8).trans (run_goto hpush 7))
  have hentry : entry y vec top f m = run (code y) 10 (.efAdaptorIsr vec)
      ((Work.start m (top - BitVec.ofNat 64 (8 * 5)) f.words).on m) := by
    rw [entry, deliver_eq, hlen]
  exact ⟨_, hentry.trans hrun, hrsp, congrArg (storeWords m.mem · _) hrsp, rfl, rfl, rfl, rfl, rfl,
    rfl, rfl⟩

/-- To the move. The saved stack pointer is looked at first, and the GS base only if
it is that of a user stack. -/
lemma run_to_noErrSkipSetDest (hnone : f.errorCode = none) (htop : top.toNat % 4096 = 0)
    (htab : TablesApart y vec top) :
    ∃ (w : Work) (fuel : ℕ), entry y vec top f m =
        run (code y) (fuel + 3) .noErrSkipSetDest (w.on m) ∧
      w.rsp = top - 0x48#64 ∧
      w.rdi = destination f (sp0At y (noErrImage y vec top f m) (chosenBase m)) ∧ w.df = false ∧
      w.mem = noErrImage y vec top f m ∧ w.gsBase = m.gsBase ∧
      w.gsReads = noErrReads f m ++ m.gsReads ∧ w.moved = m.moved := by
  obtain ⟨w, hrun, hwrsp, hwmem, hrsi, hrcx, hd, hwgs, hwkgs, hreads, hmoved⟩ :=
    run_to_noErrLenNormal (m := m) hnone htop htab
  have hrsp : top - 0x38#64 - 8#64 - 8#64 = top - 0x48#64 := by bv_omega
  have himage : storeWords m.mem (top - 0x38#64 - 8#64 - 8#64)
      (saved m (origIsr y vec m.mem) f) = noErrImage y vec top f m :=
    congrArg (storeWords m.mem · _) hrsp
  cases hmsb : f.rsp.msb with
  | true =>
    obtain ⟨zf, sf, hblock⟩ :=
      runBlock_noErrLenNormal_kernel (y := y) hnone hwrsp hwmem hrsi hrcx hmsb
    refine ⟨_, 3, hrun.trans (run_goto hblock 6), hrsp, ?_, hd, himage, hwgs, ?_, hmoved⟩
    · rw [destination, hmsb, if_pos rfl]
    · rw [noErrReads, hmsb, if_pos rfl]
      exact hreads
  | false =>
    cases hgs : m.gsBase.msb with
    | true =>
      obtain ⟨rdi, zf, sf, hblock⟩ := runBlock_noErrLenNormal_user (y := y) hnone hwrsp hwmem
        hrsi hrcx hmsb (by rw [hwgs, hgs])
      have hbase : chosenBase m = w.gsBase := by rw [chosenBase, hgs, if_pos rfl, hwgs]
      refine ⟨_, 2, hrun.trans ((run_goto hblock 6).trans
        (run_goto (runBlock_noErrNoSwapgs _) 5)), hrsp, ?_, hd, himage, hwgs, ?_, hmoved⟩
      · rw [destination, hmsb, if_neg Bool.false_ne_true, hbase, ← himage]
      · rw [noErrReads, hmsb, if_neg Bool.false_ne_true, hbase, ← hreads]
        rfl
    | false =>
      obtain ⟨zf, sf, hblock⟩ := runBlock_noErrLenNormal_swap (y := y) hnone hwrsp hwmem
        hrsi hrcx hmsb (by rw [hwgs, hgs])
      have hbase : chosenBase m = w.kernelGsBase := by
        rw [chosenBase, hgs, if_neg Bool.false_ne_true, hwkgs]
      refine ⟨_, 3, hrun.trans (run_goto hblock 6), hrsp, ?_, hd, himage, hwgs, ?_, hmoved⟩
      · rw [destination, hmsb, if_neg Bool.false_ne_true, hbase, ← himage]
      · rw [noErrReads, hmsb, if_neg Bool.false_ne_true, hbase, ← hreads]
        rfl

/-- The move and the return, for a frame without an error code. -/
lemma entry_noErr (hnone : f.errorCode = none) (htop : top.toNat % 4096 = 0)
    (htab : TablesApart y vec top) :
    ∃ (w : Work) (zf sf : Bool), entry y vec top f m = some (arrive w m zf sf) ∧
      w.rsp = destination f (sp0At y (noErrImage y vec top f m) (chosenBase m)) - 0x48#64 ∧
      w.mem = moveWords 8#64 9 (top - 0x48#64)
        (destination f (sp0At y (noErrImage y vec top f m) (chosenBase m)) - 0x48#64)
        (storeWords m.mem (top - 0x48#64) (saved m (origIsr y vec m.mem) f)) ∧
      w.gsBase = m.gsBase ∧ w.gsReads = noErrReads f m ++ m.gsReads ∧
      w.moved = destinations 8#64 9
        (destination f (sp0At y (noErrImage y vec top f m) (chosenBase m)) - 0x48#64) ++
          m.moved := by
  obtain ⟨w, fuel, hrun, hrsp, hrdi, hd, hmem, hgs, hreads, hmoved⟩ :=
    run_to_noErrSkipSetDest (m := m) hnone htop htab
  obtain ⟨w', zf, sf, hend, hrsp', hmem', hgs', hreads', hmoved'⟩ :=
    run_noErrSkipSetDest (y := y) (m := m) fuel hd
  refine ⟨w', zf, sf, hrun.trans hend, ?_, ?_, hgs'.trans hgs, hreads'.trans hreads, ?_⟩
  · rw [hrsp', hrdi]
  · rw [hmem', hrdi, hrsp, hmem, noErrImage]
  · rw [hmoved', hrdi, hmoved]

namespace TwoCpus

/-- Addresses of a kernel with the adaptor loaded. -/
def layout : Layout where
  efAdaptorOrigIsrs := 0xffffffffc0a02000#64
  dfHandlerLocation := 0xffffffffc0a03000#64
  cpuTssRw := 0x1a000#64
  tssSp0 := 0x4#64
  currentTask := 0x1fbc0#64
  taskSymbioteElevated := 0x10#64
  threadSize := 0x4000#64

/-- The GS bases of the first and of the second CPU, and the top of the IST stack of
the first. -/
def base : Word := 0xffff88803fc00000#64
def otherBase : Word := 0xffff88803fd00000#64
def istTop : Word := 0xffff888004321000#64

def perCpu (mem : Mem) (base sp0 task : Word) : Mem :=
  write64 (write64 mem (base + 0x1a004#64) sp0) (base + 0x1fbc0#64) task

/-- Each CPU has a kernel stack and runs a task that is not elevated. -/
def mem : Mem :=
  perCpu (perCpu (fun _ => 0#8) base 0xffffc90000204000#64 0xffff888005000000#64)
    otherBase 0xffffc90000304000#64 0xffff888006000000#64

/-- The first CPU runs user code with a GS base of its choice. -/
def machine (userBase : Word) : Machine where
  regs := ⟨0, 0, 0, 0, 0, 0, 0, 0, 0, 0, 0, 0, 0, 0, 0, 0⟩
  mem := mem
  gsBase := userBase
  kernelGsBase := base
  cr2 := 0x7f0000001000#64
  zf := false
  sf := false
  df := false
  gsReads := []
  moved := []

/-- An exception in user mode. -/
def frame (errorCode : Option Word) (rsp : Word) : Frame where
  errorCode := errorCode
  rip := 0x401000#64
  cs := 0x33#64
  rflags := 0x246#64
  rsp := rsp
  ss := 0x2b#64

lemma tablesApart : TablesApart layout 3 istTop ∧ TablesApart layout 14 istTop :=
  ⟨⟨by decide, by decide⟩, ⟨by decide, by decide⟩⟩

lemma perCpuApart : PerCpuApart layout istTop mem base ∧ PerCpuApart layout istTop mem otherBase :=
  ⟨⟨by decide, by decide, by decide⟩, ⟨by decide, by decide, by decide⟩⟩

end TwoCpus

end SymbiOS.Relocation
