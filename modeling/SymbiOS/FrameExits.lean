import SymbiOS.Transparency

/-!
# How the entry code leaves

There are two ways out: the return into the handler that the vector had, on the stack
it expects, and the jump to the double-fault handler, on the IST stack. Three things
are asked of them: that the second is taken for a fault below the kernel stack and for
nothing else, that GS and the saved flags are as they were on either, and that the
error code, CS and SS are those the hardware pushed. A word that the move overtakes
cannot be told from the words below it, so where a word is concerned the question is
asked for all values that the hardware or the interrupted code may have put there.
-/
namespace SymbiOS.Relocation
open SymbiOS.X86

variable {y : Layout} {vec : Fin 256} {m : Machine} {top : Word} {f : Frame} {k ec : Word}

/-- The destination of the move begins inside the words up to the `i`-th. -/
def OvertakesWord (top stack : Word) (i : ℕ) : Prop :=
  0 < (stack - top).toNat ∧ (stack - top).toNat < 8 * (i + 1)

instance (top stack : Word) (i : ℕ) : Decidable (OvertakesWord top stack i) :=
  inferInstanceAs (Decidable (_ ∧ _))

section Moved

variable {n i : ℕ} {stack d : Word} (hn : n ≤ 10)
include hn

/-- A word that is not overtaken arrives. -/
lemma read_moved {ws : List Word} (hlen : ws.length = n) (hi : i < ws.length)
    (h : ¬ OvertakesWord top stack i) (mem : Mem) :
    read64 (moveWords 8#64 n (top - d) (stack - d) (storeWords mem (top - d) ws))
      (stack - d + BitVec.ofNat 64 (8 * i)) = ws.get ⟨i, hi⟩ := by
  have hsafe : stack - d = top - d ∨ 8 * (i + 1) ≤ (stack - d - (top - d)).toNat := by
    rw [sub_sub_sub_cancel]
    by_cases hzero : (stack - top).toNat = 0
    · left
      have hstack : stack = top := by bv_omega
      rw [hstack]
    · right
      exact not_lt.mp fun hlt => h ⟨by omega, hlt⟩
  rw [read64_moveWords (by omega) (by omega) hsafe]
  exact read64_storeWords hi (by omega)

/-- One that is overtaken has a byte of the words below, whatever they are. -/
lemma byte_of_overtaken (hi : i < n) (hone : 1 ≤ i) (h : OvertakesWord top stack i) :
    ∃ j r, j < 8 ∧ r < 8 * i ∧ ∀ mem,
      byteAt (read64 (moveWords 8#64 n (top - d) (stack - d) mem)
        (stack - d + BitVec.ofNat 64 (8 * i))) j = mem (top - d + BitVec.ofNat 64 r) := by
  obtain ⟨hpos, hlt⟩ := h
  rw [← sub_sub_sub_cancel stack top d] at hpos hlt
  exact byteAt_moveWords_overtaken (by omega) hi hone hpos hlt

end Moved

/-- Only the saved flags are written. -/
lemma Work.read64_unswapped (w : Work) {i : ℕ} (hi : i < 10) (hne : i ≠ 7) :
    read64 w.unswapped.mem (w.rsp + BitVec.ofNat 64 (8 * i)) =
      read64 w.mem (w.rsp + BitVec.ofNat 64 (8 * i)) := by
  unfold Work.unswapped
  cases markedAt w.mem w.rsp with
  | false => rfl
  | true =>
    apply read64_congr
    intro j hj
    simp only [cond_true]
    rw [write32_and]
    apply write64_of_ge
    bv_omega

lemma markedAt_eq (mem : Mem) (rsp : Word) :
    markedAt mem rsp = (read64 mem (rsp + 0x38#64)).getLsbD 29 := by
  rw [markedAt, read32, read32_marked_iff, Bool.not_not]

/-- The mark is gone afterwards. -/
lemma Work.read64_unswapped_flags (w : Work) :
    read64 w.unswapped.mem (w.rsp + 0x38#64) =
      read64 w.mem (w.rsp + 0x38#64) &&& ~~~(BitVec.twoPow 64 29) := by
  unfold Work.unswapped
  cases hmark : markedAt w.mem w.rsp with
  | false =>
    rw [markedAt_eq] at hmark
    exact (and_not_twoPow hmark).symm
  | true =>
    simp only [cond_true]
    rw [write32_and, swappedGs_mask]
    exact read64_storeWords_cons _ _ _ _

lemma Work.gsBase_unswapped (w : Work) :
    w.unswapped.gsBase =
      bif (read64 w.mem (w.rsp + 0x38#64)).getLsbD 29 then w.kernelGsBase else w.gsBase := by
  rw [Work.unswapped, markedAt_eq]
  cases (read64 w.mem (w.rsp + 0x38#64)).getLsbD 29 <;> rfl

/-- Memory when the code looks for the kernel stack and the task: the frame and what is
saved with it are on the IST stack. -/
def pushed (y : Layout) (vec : Fin 256) (top : Word) (f : Frame) (m : Machine) : Mem :=
  if f.errorCode.isSome then errImage y vec top f m else noErrImage y vec top f m

/-- The `TSS.sp0` and the flag of the task that it finds. -/
def seenSp0 (y : Layout) (vec : Fin 256) (top : Word) (f : Frame) (m : Machine) : Word :=
  sp0At y (pushed y vec top f m) (chosenBase m)

def seenElevated (y : Layout) (vec : Fin 256) (top : Word) (f : Frame) (m : Machine) : Bool :=
  elevatedAt y (pushed y vec top f m) (chosenBase m)

lemma pushed_err (hec : f.errorCode = some ec) :
    pushed y vec top f m = errImage y vec top f m := by
  rw [pushed, hec]
  rfl

lemma pushed_noErr (hnone : f.errorCode = none) :
    pushed y vec top f m = noErrImage y vec top f m := by
  rw [pushed, hnone]
  rfl

/-- They are the ones that were there if per-CPU data is not on the IST stack. -/
lemma seenSp0_eq (hcpu : PerCpuApart y top m.mem (chosenBase m)) (vec : Fin 256) (f : Frame) :
    seenSp0 y vec top f m = sp0At y m.mem (chosenBase m) := by
  rcases Option.eq_none_or_eq_some f.errorCode with hec | ⟨ec, hec⟩
  · rw [seenSp0, pushed_noErr hec, sp0At_noErrImage hcpu hec]
  · rw [seenSp0, pushed_err hec, sp0At_errImage hcpu hec]

lemma seenElevated_eq (hcpu : PerCpuApart y top m.mem (chosenBase m)) (vec : Fin 256)
    (hec : f.errorCode = some ec) :
    seenElevated y vec top f m = elevatedAt y m.mem (chosenBase m) := by
  rw [seenElevated, pushed_err hec, elevatedAt_errImage hcpu hec]

/-- The words that are moved, as they stand on the IST stack. -/
def errSaved (y : Layout) (vec : Fin 256) (top : Word) (f : Frame) (m : Machine) : List Word :=
  saved m (origIsr y vec m.mem)
    ((f.forTask (seenElevated y vec top f m) m.cr2).marked (!m.gsBase.msb))

lemma errSaved_eq (hcpu : PerCpuApart y top m.mem (chosenBase m)) (vec : Fin 256)
    (hec : f.errorCode = some ec) :
    errSaved y vec top f m = saved m (origIsr y vec m.mem)
      ((f.forTask (elevatedAt y m.mem (chosenBase m)) m.cr2).marked (!m.gsBase.msb)) := by
  rw [errSaved, seenElevated_eq hcpu vec hec]

/-- The stack that the frame is moved to. -/
def newStack (y : Layout) (vec : Fin 256) (top : Word) (f : Frame) (m : Machine) : Word :=
  destination f (seenSp0 y vec top f m)

/-- Frames with one stack pointer then go to the same stack. -/
lemma newStack_congr (g f : Frame) (hcpu : PerCpuApart y top m.mem (chosenBase m))
    (hrsp : g.rsp = f.rsp) (vec : Fin 256) :
    newStack y vec top g m = newStack y vec top f m := by
  unfold newStack destination
  rw [seenSp0_eq hcpu, seenSp0_eq hcpu, hrsp]

/-- They also leave the same way. -/
lemma takesDoubleFault_congr (g f : Frame) (hcpu : PerCpuApart y top m.mem (chosenBase m))
    (hrsp : g.rsp = f.rsp) (vec : Fin 256) :
    takesDoubleFault y g (seenSp0 y vec top g m) m.cr2 =
      takesDoubleFault y f (seenSp0 y vec top f m) m.cr2 := by
  unfold takesDoubleFault
  rw [seenSp0_eq hcpu, seenSp0_eq hcpu, hrsp]

/-- What the move leaves where word `i` should be. -/
def errWord (y : Layout) (vec : Fin 256) (top : Word) (f : Frame) (m : Machine) (i : ℕ) : Word :=
  read64 (moveWords 8#64 10 (top - 0x50#64) (newStack y vec top f m - 0x50#64)
      (storeWords m.mem (top - 0x50#64) (errSaved y vec top f m)))
    (newStack y vec top f m - 0x50#64 + BitVec.ofNat 64 (8 * i))

lemma errSaved_length (y : Layout) (vec : Fin 256) (top : Word) (m : Machine)
    (hec : f.errorCode = some ec) :
    (errSaved y vec top f m).length = 10 := by
  obtain ⟨ec', hec'⟩ := Frame.forTask_errorCode hec (seenElevated y vec top f m) m.cr2
  exact saved_length ((Frame.marked_errorCode _ _).trans hec')

lemma errWord_of_not_overtaken (hec : f.errorCode = some ec) {i : ℕ} (hi : i < 10)
    (h : ¬ OvertakesWord top (newStack y vec top f m) i) :
    errWord y vec top f m i = (errSaved y vec top f m).getD i 0#64 := by
  have hlen := errSaved_length y vec top m hec
  have hi' : i < (errSaved y vec top f m).length := by omega
  rw [List.getD_eq_getElem?_getD, List.getElem?_eq_getElem hi']
  exact read_moved le_rfl hlen hi' h m.mem

lemma errWord_byte_of_overtaken (y : Layout) (vec : Fin 256) {stack : Word} {i : ℕ} (hi : i < 10)
    (hone : 1 ≤ i) (h : OvertakesWord top stack i) :
    ∃ j r, j < 8 ∧ r < 8 * i ∧ ∀ (f : Frame) (m : Machine), newStack y vec top f m = stack →
      byteAt (errWord y vec top f m i) j =
        storeWords m.mem (top - 0x50#64) (errSaved y vec top f m)
          (top - 0x50#64 + BitVec.ofNat 64 r) := by
  obtain ⟨j, r, hj, hr, hbyte⟩ := byte_of_overtaken (d := 0x50#64) le_rfl hi hone h
  refine ⟨j, r, hj, hr, fun f m hstack => ?_⟩
  rw [errWord, hstack, hbyte]

/-- What the handler is entered with, in terms of the words that the move leaves. -/
structure ErrReturn (y : Layout) (vec : Fin 256) (top : Word) (f : Frame) (m : Machine)
    (target : Word) (m' : Machine) : Prop where
  handler : target = errWord y vec top f m 3
  rsp : m'.regs.rsp = newStack y vec top f m - 0x30#64
  moved : m'.moved = destinations 8#64 10 (newStack y vec top f m - 0x50#64) ++ m.moved
  frame : ∀ i < 6, i ≠ 3 →
    read64 m'.mem (m'.regs.rsp + BitVec.ofNat 64 (8 * i)) = errWord y vec top f m (i + 4)
  rflags : read64 m'.mem (m'.regs.rsp + BitVec.ofNat 64 (8 * 3)) =
    errWord y vec top f m 7 &&& ~~~(BitVec.twoPow 64 29)
  gsBase : m'.gsBase =
    bif (errWord y vec top f m 7).getLsbD 29 then
      (if m.gsBase.msb then m.kernelGsBase else m.gsBase)
    else chosenBase m

section ErrorCode

variable (hec : f.errorCode = some ec) (htop : top.toNat % 4096 = 0)
  (htab : TablesApart y vec top)
include hec htop htab

/-- The double-fault handler finds the marked frame on the IST stack. -/
lemma entry_jumps (hdf : takesDoubleFault y f (seenSp0 y vec top f m) m.cr2 = true) :
    ∃ w : Work, entry y vec top f m =
        some (.jump (read64 m.mem y.dfHandlerLocation) (w.on m)) ∧
      w.rsp = top - 0x30#64 ∧ w.mem = errImage y vec top f m ∧ w.gsBase = chosenBase m := by
  rw [seenSp0, pushed_err hec] at hdf
  exact entry_err_doubleFault hec htop htab hdf

lemma entry_returns (hdf : takesDoubleFault y f (seenSp0 y vec top f m) m.cr2 = false) :
    ∃ target m', entry y vec top f m = some (.ret target m') ∧
      ErrReturn y vec top f m target m' := by
  have hsp0 : sp0At y (errImage y vec top f m) (chosenBase m) = seenSp0 y vec top f m := by
    rw [seenSp0, pushed_err hec]
  have hel : elevatedAt y (errImage y vec top f m) (chosenBase m) =
      seenElevated y vec top f m := by
    rw [seenElevated, pushed_err hec]
  rw [← hsp0] at hdf
  obtain ⟨w, zf, sf, hrun, hrsp, hmem, hgs, hkgs, -, hmoved⟩ := entry_err hec htop htab hdf
  rw [hsp0] at hrsp hmem hmoved
  rw [hel, Frame.forTask_marked] at hmem
  have hword (i : ℕ) :
      read64 w.mem (w.rsp + BitVec.ofNat 64 (8 * i)) = errWord y vec top f m i := by
    rw [hrsp, hmem]
    rfl
  have hflags : read64 w.unswapped.mem (w.rsp + BitVec.ofNat 64 (8 * 7)) =
      errWord y vec top f m 7 &&& ~~~(BitVec.twoPow 64 29) := by
    rw [← hword]
    exact w.read64_unswapped_flags
  have hother (i : ℕ) (hi : i < 10) (hne : i ≠ 7) :
      read64 w.unswapped.mem (w.rsp + BitVec.ofNat 64 (8 * i)) = errWord y vec top f m i := by
    rw [w.read64_unswapped hi hne, hword]
  have hbase : w.unswapped.gsBase = bif (errWord y vec top f m 7).getLsbD 29 then
      (if m.gsBase.msb then m.kernelGsBase else m.gsBase) else chosenBase m := by
    rw [w.gsBase_unswapped, hgs, hkgs, ← hword]
  have hlog := w.unswapped_moved.trans hmoved
  have hsp := w.unswapped_rsp
  -- from here on only what is known of the words after the swap matters
  generalize w.unswapped = u at *
  refine ⟨_, _, hrun, ?_, ?_, hlog, ?_, ?_, hbase⟩
  · rw [u.popped_rsp, hsp, hother 3 (by omega) (by omega)]
  · show u.popped.rsp + 8#64 = _
    rw [u.popped_rsp, hsp, hrsp, newStack]
    bv_omega
  · intro i hi hne
    show read64 u.mem (u.popped.returned.rsp + BitVec.ofNat 64 (8 * i)) = _
    rw [u.returned_rsp_add, hsp, hother (i + 4) (by omega) (by omega)]
  · show read64 u.mem (u.popped.returned.rsp + BitVec.ofNat 64 (8 * 3)) = _
    rw [u.returned_rsp_add, hsp, hflags]

end ErrorCode

/-- The page below the kernel stack that ends at `TSS.sp0`. -/
def guardPage (y : Layout) (sp0 : Word) : Word := sp0 - y.threadSize - 0x1000#64

/-- `cr2` is on the page below the kernel stack of the CPU, where `k` is the GS base of
the kernel. -/
def HitsGuard (y : Layout) (k : Word) (m : Machine) : Prop :=
  m.cr2 &&& ~~~0xfff#64 = guardPage y (sp0At y m.mem k)

instance (y : Layout) (k : Word) (m : Machine) : Decidable (HitsGuard y k m) :=
  inferInstanceAs (Decidable (_ = _))

/-- The entry code leaves for the double-fault handler if the page below the kernel
stack was hit, and otherwise it moves the frame to below the saved stack pointer and
returns to the handler of the vector. -/
structure LeavesForGuard (y : Layout) (vec : Fin 256) (top : Word) (f : Frame) (k : Word)
    (m : Machine) : Prop where
  jump : (∃ m', entry y vec top f m = some (.jump (read64 m.mem y.dfHandlerLocation) m')) ↔
    HitsGuard y k m
  relocate : ¬ HitsGuard y k m →
    ∃ m', entry y vec top f m = some (.ret (origIsr y vec m.mem) m') ∧
      m'.regs.rsp = f.rsp - 0x30#64 ∧
      m'.moved = destinations 8#64 10 (f.rsp - 0x50#64) ++ m.moved

/-- A hit shows in the sign bits of `cr2` and of the page below the stack, and so does
anything else; and then the frame does not go to just above the IST stack. -/
structure SignsTellGuard (y : Layout) (vec : Fin 256) (top : Word) (f : Frame) (k : Word)
    (m : Machine) : Prop where
  hit : HitsGuard y k m →
    m.cr2.msb = true ∧ (guardPage y (seenSp0 y vec top f m)).msb = true
  miss : ¬ HitsGuard y k m →
    (m.cr2.msb = false ∨ (guardPage y (seenSp0 y vec top f m)).msb = false) ∧
      ¬ OvertakesWord top f.rsp 3

/-- The test of the source is on the two signs. -/
lemma takesDoubleFault_iff (hmsb : f.rsp.msb = true) (sp0 cr2 : Word) :
    takesDoubleFault y f sp0 cr2 = true ↔ cr2.msb = true ∧ (guardPage y sp0).msb = true := by
  have hpage : sp0 - (y.threadSize + 0x1000#64) = guardPage y sp0 := by
    unfold guardPage
    ring
  rw [takesDoubleFault, looksLikeDoubleFault, hmsb, hpage, Bool.true_and, Bool.and_eq_true,
    and_comm]

lemma takesDoubleFault_eq_false_iff (hmsb : f.rsp.msb = true) (sp0 cr2 : Word) :
    takesDoubleFault y f sp0 cr2 = false ↔ cr2.msb = false ∨ (guardPage y sp0).msb = false := by
  rw [← Bool.not_eq_true, takesDoubleFault_iff hmsb, not_and_or, Bool.not_eq_true,
    Bool.not_eq_true]

/-- A frame from a kernel stack goes back there. -/
lemma newStack_of_kernel (hmsb : f.rsp.msb = true) (y : Layout) (vec : Fin 256) (top : Word)
    (m : Machine) : newStack y vec top f m = f.rsp := by
  rw [newStack, destination, if_pos hmsb]

/-- The registers that the entry code saves, all with one value. -/
def scratch (regs : Regs) (v : Word) : Regs := { regs with rcx := v, rsi := v, rdi := v }

section Guard

variable (hec : f.errorCode = some ec) (hmsb : f.rsp.msb = true) (htop : top.toNat % 4096 = 0)
  (htab : TablesApart y vec top)
include hec htop htab

include hmsb in
lemma leavesForGuard_of_signs (h : SignsTellGuard y vec top f k m) :
    LeavesForGuard y vec top f k m := by
  by_cases hhit : HitsGuard y k m
  · have hdf := (takesDoubleFault_iff hmsb _ _).mpr (h.hit hhit)
    obtain ⟨w, hrun, -⟩ := entry_jumps hec htop htab hdf
    exact ⟨iff_of_true ⟨_, hrun⟩ hhit, fun hmiss => absurd hhit hmiss⟩
  · obtain ⟨hsigns, hover⟩ := h.miss hhit
    have hdf := (takesDoubleFault_eq_false_iff hmsb _ _).mpr hsigns
    obtain ⟨target, m', hrun, hret⟩ := entry_returns hec htop htab hdf
    have hstack := newStack_of_kernel hmsb y vec top m
    have hhandler : target = origIsr y vec m.mem := by
      rw [hret.handler, errWord_of_not_overtaken hec (by omega) (by rw [hstack]; exact hover)]
      rfl
    have hrsp := hret.rsp
    have hmoved := hret.moved
    rw [hstack] at hrsp hmoved
    refine ⟨iff_of_false ?_ hhit, fun _ => ⟨m', by rw [hrun, hhandler], hrsp, hmoved⟩⟩
    rintro ⟨m'', hjump⟩
    rw [hrun] at hjump
    cases hjump

include hmsb in
/-- If the handler is overtaken, a byte of it is one of the scratch registers. -/
lemma handler_byte_of_overtaken (hover : OvertakesWord top f.rsp 3) :
    ∃ j r, j < 8 ∧ r < 8 ∧ ∀ regs v,
      takesDoubleFault y f (seenSp0 y vec top f { m with regs := scratch regs v }) m.cr2 = false →
      ∃ target m', entry y vec top f { m with regs := scratch regs v } = some (.ret target m') ∧
        byteAt target j = byteAt v r := by
  obtain ⟨j, r, hj, hr, hbyte⟩ :=
    errWord_byte_of_overtaken y vec (i := 3) (by omega) (by omega) hover
  refine ⟨j, r % 8, hj, by omega, fun regs v hdf => ?_⟩
  obtain ⟨target, m', hrun, hret⟩ :=
    entry_returns (m := { m with regs := scratch regs v }) hec htop htab hdf
  refine ⟨target, m', hrun, ?_⟩
  have hoff : (top - 0x50#64 + BitVec.ofNat 64 r - (top - 0x50#64)).toNat = r :=
    sub_toNat_add (by omega) _
  have hreg : r / 8 = 0 ∨ r / 8 = 1 ∨ r / 8 = 2 := by omega
  rw [hret.handler, hbyte _ _ (newStack_of_kernel hmsb y vec top _)]
  simp only [storeWords, hoff]
  rcases hreg with h | h | h
  · rw [h]
    rfl
  · rw [h]
    rfl
  · rw [h]
    rfl

/-- Whether the exit is taken is decided by the test of the source. -/
lemma takesDoubleFault_iff_of_leavesForGuard (h : LeavesForGuard y vec top f k m) :
    takesDoubleFault y f (seenSp0 y vec top f m) m.cr2 = true ↔ HitsGuard y k m := by
  rw [← h.jump]
  constructor
  · intro hdf
    obtain ⟨w, hrun, -⟩ := entry_jumps hec htop htab hdf
    exact ⟨_, hrun⟩
  · rintro ⟨m', hjump⟩
    apply of_not_not
    intro hdf
    obtain ⟨target, m'', hrun, -⟩ :=
      entry_returns hec htop htab (Bool.eq_false_of_not_eq_true hdf)
    rw [hrun] at hjump
    cases hjump

include hmsb in
lemma not_overtaken_of_leavesForGuard (hmiss : ¬ HitsGuard y k m)
    (h : ∀ regs, LeavesForGuard y vec top f k { m with regs := regs }) :
    ¬ OvertakesWord top f.rsp 3 := by
  intro hover
  -- the registers may be all zeros or all ones
  obtain ⟨j, r, hj, hr, hbyte⟩ := handler_byte_of_overtaken (m := m) hec hmsb htop htab hover
  have hhandler (v : Word) : byteAt (origIsr y vec m.mem) j = byteAt v r := by
    have hv := h (scratch m.regs v)
    have hiff := takesDoubleFault_iff_of_leavesForGuard hec htop htab hv
    obtain ⟨target, m', hrun, htarget⟩ :=
      hbyte m.regs v (Bool.eq_false_of_not_eq_true fun hdf => hmiss (hiff.mp hdf))
    obtain ⟨m'', hret, -⟩ := hv.relocate hmiss
    rw [hrun] at hret
    cases hret
    exact htarget
  have heq : (byteAt 0#64 r).getLsbD 0 = (byteAt (BitVec.allOnes 64) r).getLsbD 0 := by
    rw [← hhandler, ← hhandler]
  have hbit : 8 * r < 64 := by omega
  rw [byteAt_lowBit, byteAt_lowBit, BitVec.getLsbD_zero, BitVec.getLsbD_allOnes,
    decide_eq_true hbit] at heq
  exact Bool.false_ne_true heq

end Guard

/-- For an exception on a kernel stack, whatever the registers hold: the double-fault
exit is taken for a fault below the kernel stack only, and the frame is moved and the
handler entered otherwise, exactly when the signs of the two addresses tell. -/
theorem leavesForGuard_iff (hec : f.errorCode = some ec) (hmsb : f.rsp.msb = true)
    (htop : top.toNat % 4096 = 0) (htab : TablesApart y vec top) :
    (∀ regs, LeavesForGuard y vec top f k { m with regs := regs }) ↔
      ∀ regs, SignsTellGuard y vec top f k { m with regs := regs } := by
  constructor
  · intro h regs
    have hiff := takesDoubleFault_iff_of_leavesForGuard hec htop htab (h regs)
    refine ⟨fun hhit => ?_, fun hmiss => ⟨?_, ?_⟩⟩
    · exact (takesDoubleFault_iff hmsb _ _).mp (hiff.mpr hhit)
    · apply (takesDoubleFault_eq_false_iff hmsb _ _).mp
      exact Bool.eq_false_of_not_eq_true fun hdf => hmiss (hiff.mp hdf)
    · exact not_overtaken_of_leavesForGuard hec hmsb htop htab hmiss h
  · intro h regs
    exact leavesForGuard_of_signs hec hmsb htop htab (h regs)

namespace TwoCpus

/-- An exception in the kernel. -/
def kernelFrame (errorCode : Option Word) (rsp : Word) : Frame :=
  { frame errorCode rsp with cs := 0x10#64, ss := 0x18#64 }

/-- The first CPU runs kernel code, with a value left in `cr2`. -/
def kernelMachine (cr2 : Word) : Machine :=
  { machine base with kernelGsBase := 0x7f1234560000#64, cr2 := cr2 }

lemma chosenBase_kernelMachine (cr2 : Word) : chosenBase (kernelMachine cr2) = base := by
  have hmsb : (kernelMachine cr2).gsBase.msb = true := by
    show base.msb = true
    decide
  rw [chosenBase, if_pos hmsb]
  rfl

lemma perCpuApart_kernelMachine (cr2 : Word) :
    PerCpuApart layout istTop (kernelMachine cr2).mem (chosenBase (kernelMachine cr2)) := by
  rw [chosenBase_kernelMachine]
  exact perCpuApart.1

/-- A page fault of the kernel on a user address, and one below the kernel stack. -/
theorem leavesForGuard_page_fault :
    (∀ regs, LeavesForGuard layout 14 istTop (kernelFrame (some 2#64) 0xffffc90000203e00#64) base
      { kernelMachine 0x7f0000001000#64 with regs := regs }) ∧
    ∀ regs, LeavesForGuard layout 14 istTop (kernelFrame (some 2#64) 0xffffc90000200010#64) base
      { kernelMachine 0xffffc900001ffff8#64 with regs := regs } := by
  have hmiss : ¬ HitsGuard layout base (kernelMachine 0x7f0000001000#64) := by decide
  have hhit : HitsGuard layout base (kernelMachine 0xffffc900001ffff8#64) := by decide
  have hpage : (guardPage layout (sp0At layout mem base)).msb = true := by decide
  constructor
  · refine (leavesForGuard_iff rfl (by decide) (by decide) tablesApart.2).mpr fun regs => ?_
    refine ⟨fun hhit => absurd hhit hmiss, fun _ => ⟨Or.inl ?_, by decide⟩⟩
    show (0x7f0000001000#64 : Word).msb = false
    decide
  · refine (leavesForGuard_iff rfl (by decide) (by decide) tablesApart.2).mpr fun regs => ?_
    refine ⟨fun _ => ⟨?_, ?_⟩, fun hmiss => absurd hhit hmiss⟩
    · show (0xffffc900001ffff8#64 : Word).msb = true
      decide
    · have hcpu := perCpuApart_kernelMachine 0xffffc900001ffff8#64
      have hbase := chosenBase_kernelMachine 0xffffc900001ffff8#64
      rw [seenSp0_eq (m := { kernelMachine 0xffffc900001ffff8#64 with regs := regs }) hcpu]
      exact hbase ▸ hpage

/-- A page fault of the kernel on an address in the direct map of memory: it is taken
for a double fault. -/
theorem direct_map_fault_leaves :
    (kernelFrame (some 2#64) 0xffffc90000203e00#64).rsp.msb = true ∧
      ¬ HitsGuard layout base (kernelMachine 0xffff888012345000#64) ∧
      (∃ m', entry layout 14 istTop (kernelFrame (some 2#64) 0xffffc90000203e00#64)
          (kernelMachine 0xffff888012345000#64) =
        some (.jump (read64 (kernelMachine 0xffff888012345000#64).mem layout.dfHandlerLocation)
          m')) ∧
      ¬ LeavesForGuard layout 14 istTop (kernelFrame (some 2#64) 0xffffc90000203e00#64) base
        (kernelMachine 0xffff888012345000#64) := by
  have hmiss : ¬ HitsGuard layout base (kernelMachine 0xffff888012345000#64) := by decide
  have hdf : takesDoubleFault layout (kernelFrame (some 2#64) 0xffffc90000203e00#64)
      (seenSp0 layout 14 istTop (kernelFrame (some 2#64) 0xffffc90000203e00#64)
        (kernelMachine 0xffff888012345000#64)) 0xffff888012345000#64 = true := by
    rw [seenSp0_eq (perCpuApart_kernelMachine _)]
    decide
  obtain ⟨w, hrun, -⟩ := entry_jumps (m := kernelMachine 0xffff888012345000#64) rfl (by decide)
    tablesApart.2 hdf
  refine ⟨by decide, hmiss, ⟨_, hrun⟩, fun h => ?_⟩
  exact hmiss (h.jump.mp ⟨_, hrun⟩)

end TwoCpus

/-- Where the saved flags are among the words that are moved. -/
def flagsIndex (f : Frame) : ℕ := if f.errorCode.isSome then 7 else 6

lemma flagsIndex_err (hec : f.errorCode = some ec) : flagsIndex f = 7 := by
  rw [flagsIndex, hec]
  rfl

lemma flagsIndex_noErr (hnone : f.errorCode = none) : flagsIndex f = 6 := by
  rw [flagsIndex, hnone]
  rfl

/-- A handler finds the GS base that was interrupted and the flags that the hardware
pushed, above RIP, CS and the error code if there is one. -/
structure FindsGsAndFlags (f : Frame) (m m' : Machine) : Prop where
  gsBase : m'.gsBase = m.gsBase
  rflags : read64 m'.mem
    (m'.regs.rsp + (if f.errorCode.isSome then 0x18#64 else 0x10#64)) = f.rflags

/-- It does so whichever way the entry code leaves. -/
def ExitsIntact (y : Layout) (vec : Fin 256) (top : Word) (f : Frame) (m : Machine) : Prop :=
  ∃ target m', (entry y vec top f m = some (.ret target m') ∨
    entry y vec top f m = some (.jump target m')) ∧ FindsGsAndFlags f m m'

lemma exitsIntact_iff_of_ret {target : Word} {m' : Machine}
    (hrun : entry y vec top f m = some (.ret target m')) :
    ExitsIntact y vec top f m ↔ FindsGsAndFlags f m m' := by
  constructor
  · rintro ⟨target', m'', hret | hjump, hfinds⟩
    · rw [hrun] at hret
      cases hret
      exact hfinds
    · rw [hrun] at hjump
      cases hjump
  · exact fun hfinds => ⟨target, m', Or.inl hrun, hfinds⟩

lemma exitsIntact_iff_of_jump {target : Word} {m' : Machine}
    (hrun : entry y vec top f m = some (.jump target m')) :
    ExitsIntact y vec top f m ↔ FindsGsAndFlags f m m' := by
  constructor
  · rintro ⟨target', m'', hret | hjump, hfinds⟩
    · rw [hrun] at hret
      cases hret
    · rw [hrun] at hjump
      cases hjump
      exact hfinds
  · exact fun hfinds => ⟨target, m', Or.inr hrun, hfinds⟩

/-- The condition under which control leaves through the double-fault exit, with what is
seen of the CPU. -/
def Leaves (y : Layout) (vec : Fin 256) (top : Word) (f : Frame) (m : Machine) : Prop :=
  f.errorCode.isSome ∧ takesDoubleFault y f (seenSp0 y vec top f m) m.cr2 = true

/-- GS was not swapped if the double-fault exit is taken, and the saved flags are not
overtaken if it is not. -/
structure GsAndFlagsSafe (y : Layout) (vec : Fin 256) (top : Word) (f : Frame) (m : Machine) :
    Prop where
  jump : Leaves y vec top f m → m.gsBase.msb = true
  move : ¬ Leaves y vec top f m →
    ¬ OvertakesWord top (newStack y vec top f m) (flagsIndex f)

lemma takesDoubleFault_of_not_leaves (hec : f.errorCode = some ec)
    (hleave : ¬ Leaves y vec top f m) :
    takesDoubleFault y f (seenSp0 y vec top f m) m.cr2 = false := by
  apply Bool.eq_false_of_not_eq_true
  intro hdf
  exact hleave ⟨by rw [hec]; rfl, hdf⟩

/-- The words below the saved flags do not depend on them. -/
lemma saved_take_flags (m : Machine) (handler : Word) (f : Frame) (elevated s : Bool)
    (cr2 rflags : Word) :
    (saved m handler (({ f with rflags := rflags }.forTask elevated cr2).marked s)).take
        (flagsIndex f) =
      (saved m handler ((f.forTask elevated cr2).marked s)).take (flagsIndex f) := by
  obtain ⟨errorCode, rip, cs, rfl', rsp, ss⟩ := f
  unfold Frame.forTask Frame.marked Frame.asUser flagsIndex saved Frame.words
  cases errorCode <;> cases s <;> cases elevated && !cr2.msb <;> rfl

lemma errSaved_rflags (hec : f.errorCode = some ec) :
    (errSaved y vec top f m).getD 7 0#64 =
      ((f.forTask (seenElevated y vec top f m) m.cr2).marked (!m.gsBase.msb)).rflags := by
  obtain ⟨ec', hec'⟩ := Frame.forTask_errorCode hec (seenElevated y vec top f m) m.cr2
  simp [errSaved, saved, Frame.words, Frame.marked_errorCode, hec']

lemma unmark_marked (hflags : f.rflags.getLsbD 29 = false) (s : Bool) :
    (f.marked s).rflags &&& ~~~(BitVec.twoPow 64 29) = f.rflags := by
  cases s with
  | false => exact and_not_twoPow hflags
  | true =>
    have hmark : (f.marked true).rflags = f.rflags ||| BitVec.twoPow 64 29 := by
      rw [← swappedGs_bit]
      rfl
    rw [hmark, unmark hflags]

section Exits

variable (htop : top.toNat % 4096 = 0) (htab : TablesApart y vec top)
include htop htab

/-- The double-fault handler finds GS and the flags intact if GS was not swapped: there
is nothing on that way to swap it back. -/
lemma exitsIntact_iff_of_leaves (hflags : f.rflags.getLsbD 29 = false)
    (hleave : Leaves y vec top f m) :
    ExitsIntact y vec top f m ↔ m.gsBase.msb = true := by
  obtain ⟨hsome, hdf⟩ := hleave
  obtain ⟨ec, hec⟩ := Option.isSome_iff_exists.mp hsome
  obtain ⟨w, hrun, hrsp, hmem, hgs⟩ := entry_jumps hec htop htab hdf
  have hec' : (f.marked (!m.gsBase.msb)).errorCode = some ec := (f.marked_errorCode _).trans hec
  have hread : read64 w.mem (w.rsp + 0x18#64) = (f.marked (!m.gsBase.msb)).rflags := by
    have haddr : w.rsp + 0x18#64 = top - 0x50#64 + BitVec.ofNat 64 (8 * 7) := by
      rw [hrsp]
      bv_omega
    have h := read_saved hec' m (origIsr y vec m.mem) (i := 7) (by omega) m.mem (top - 0x50#64)
    rw [haddr, hmem, errImage, h]
    simp [saved, Frame.words, hec']
  rw [exitsIntact_iff_of_jump hrun]
  constructor
  · intro hfinds
    have hflag := hfinds.rflags
    rw [if_pos hsome] at hflag
    have hbit := congrArg (BitVec.getLsbD · 29) (hread.symm.trans hflag)
    simp only [Frame.marked_rflags_bit hflags, hflags] at hbit
    simpa using hbit
  · intro hmsb
    constructor
    · show w.gsBase = m.gsBase
      rw [hgs, chosenBase, if_pos hmsb]
    · rw [if_pos hsome]
      show read64 w.mem (w.rsp + 0x18#64) = _
      rw [hread, hmsb]
      rfl

/-- The handler does if the flags have arrived, marked or not. -/
lemma exitsIntact_err (hec : f.errorCode = some ec) (hflags : f.rflags.getLsbD 29 = false)
    (hdf : takesDoubleFault y f (seenSp0 y vec top f m) m.cr2 = false)
    (hover : ¬ OvertakesWord top (newStack y vec top f m) 7) : ExitsIntact y vec top f m := by
  obtain ⟨target, m', hrun, hret⟩ := entry_returns hec htop htab hdf
  have hword : errWord y vec top f m 7 =
      ((f.forTask (seenElevated y vec top f m) m.cr2).marked (!m.gsBase.msb)).rflags := by
    rw [errWord_of_not_overtaken hec (by omega) hover]
    exact errSaved_rflags hec
  have hflags' : (f.forTask (seenElevated y vec top f m) m.cr2).rflags.getLsbD 29 =
      false := by
    rw [Frame.forTask_rflags, hflags]
  rw [exitsIntact_iff_of_ret hrun]
  constructor
  · rw [hret.gsBase, hword, Frame.marked_rflags_bit hflags', chosenBase]
    cases m.gsBase.msb <;> rfl
  · have hrflags := hret.rflags
    rw [hword, unmark_marked hflags', Frame.forTask_rflags] at hrflags
    rw [if_pos (by rw [hec]; rfl)]
    exact hrflags

/-- Without an error code GS is swapped back before the move. -/
lemma entry_noErr_returns (hnone : f.errorCode = none) :
    ∃ target m', entry y vec top f m = some (.ret target m') ∧ m'.gsBase = m.gsBase ∧
      read64 m'.mem (m'.regs.rsp + 0x10#64) =
        read64 (moveWords 8#64 9 (top - 0x48#64) (newStack y vec top f m - 0x48#64)
          (storeWords m.mem (top - 0x48#64) (saved m (origIsr y vec m.mem) f)))
          (newStack y vec top f m - 0x48#64 + BitVec.ofNat 64 (8 * 6)) := by
  obtain ⟨w, zf, sf, hrun, hrsp, hmem, hgs, -, -⟩ := entry_noErr (m := m) hnone htop htab
  have hsp0 : sp0At y (noErrImage y vec top f m) (chosenBase m) = seenSp0 y vec top f m := by
    rw [seenSp0, pushed_noErr hnone]
  rw [hsp0] at hrsp hmem
  refine ⟨_, _, hrun, hgs, ?_⟩
  show read64 w.mem (w.popped.returned.rsp + BitVec.ofNat 64 (8 * 2)) = _
  rw [w.returned_rsp_add, hrsp, hmem]
  rfl

lemma exitsIntact_noErr (hnone : f.errorCode = none)
    (hover : ¬ OvertakesWord top (newStack y vec top f m) 6) : ExitsIntact y vec top f m := by
  obtain ⟨target, m', hrun, hgs, hread⟩ := entry_noErr_returns (m := m) htop htab hnone
  have hlen : (saved m (origIsr y vec m.mem) f).length = 9 := by
    rw [saved_length_eq, movedLength, words_length_noErr hnone]
  rw [read_moved (by omega) hlen (by omega) hover] at hread
  rw [exitsIntact_iff_of_ret hrun]
  refine ⟨hgs, ?_⟩
  have hword : (saved m (origIsr y vec m.mem) f).get ⟨6, by omega⟩ = f.rflags := by
    simp [saved, Frame.words, hnone]
  rw [hnone]
  exact hread.trans hword

section Necessary

variable (hcpu : PerCpuApart y top m.mem (chosenBase m))
include hcpu

/-- If the flags are overtaken, one bit of what the handler finds does not depend on
them. -/
lemma flags_bit_err (hec : f.errorCode = some ec)
    (hdf : takesDoubleFault y f (seenSp0 y vec top f m) m.cr2 = false)
    (hover : OvertakesWord top (newStack y vec top f m) 7) :
    ∃ j < 8, ∃ c, ∀ rflags, ExitsIntact y vec top { f with rflags := rflags } m →
      rflags.getLsbD (8 * j) = c := by
  obtain ⟨j, r, hj, hr, hbyte⟩ :=
    errWord_byte_of_overtaken y vec (i := 7) (by omega) (by omega) hover
  refine ⟨j, hj, (storeWords m.mem (top - 0x50#64) (errSaved y vec top f m)
    (top - 0x50#64 + BitVec.ofNat 64 r)).getLsbD 0, fun rflags hexit => ?_⟩
  have hdf' := (takesDoubleFault_congr { f with rflags := rflags } f hcpu rfl vec).trans hdf
  obtain ⟨target, m', hrun, hret⟩ :=
    entry_returns (f := { f with rflags := rflags }) hec htop htab hdf'
  have hstack := newStack_congr { f with rflags := rflags } f hcpu rfl vec
  have htake : (errSaved y vec top { f with rflags := rflags } m).take 7 =
      (errSaved y vec top f m).take 7 := by
    have h := saved_take_flags m (origIsr y vec m.mem) f (elevatedAt y m.mem (chosenBase m))
      (!m.gsBase.msb) m.cr2 rflags
    rw [flagsIndex_err hec] at h
    rw [errSaved_eq hcpu vec hec, errSaved_eq (f := { f with rflags := rflags }) hcpu vec hec]
    exact h
  have hrflags := ((exitsIntact_iff_of_ret hrun).mp hexit).rflags
  rw [if_pos (by rw [hec]; rfl)] at hrflags
  have hne : 8 * j ≠ 29 := by omega
  calc rflags.getLsbD (8 * j)
      = (errWord y vec top { f with rflags := rflags } m 7 &&&
          ~~~(BitVec.twoPow 64 29)).getLsbD (8 * j) :=
        congrArg (BitVec.getLsbD · (8 * j)) (hrflags.symm.trans hret.rflags)
    _ = (errWord y vec top { f with rflags := rflags } m 7).getLsbD (8 * j) := by
        rw [getLsbD_and_not_twoPow _ hne]
    _ = (storeWords m.mem (top - 0x50#64) (errSaved y vec top { f with rflags := rflags } m)
          (top - 0x50#64 + BitVec.ofNat 64 r)).getLsbD 0 := by
        rw [← byteAt_lowBit, hbyte { f with rflags := rflags } m hstack]
    _ = _ := by rw [storeWords_congr htake hr (by omega)]

lemma flags_bit_noErr (hnone : f.errorCode = none)
    (hover : OvertakesWord top (newStack y vec top f m) 6) :
    ∃ j < 8, ∃ c, ∀ rflags, ExitsIntact y vec top { f with rflags := rflags } m →
      rflags.getLsbD (8 * j) = c := by
  obtain ⟨j, r, hj, hr, hbyte⟩ :=
    byte_of_overtaken (n := 9) (d := 0x48#64) (by omega) (by omega) (by omega) hover
  refine ⟨j, hj, (storeWords m.mem (top - 0x48#64) (saved m (origIsr y vec m.mem) f)
    (top - 0x48#64 + BitVec.ofNat 64 r)).getLsbD 0, fun rflags hexit => ?_⟩
  obtain ⟨target, m', hrun, -, hread⟩ :=
    entry_noErr_returns (m := m) (f := { f with rflags := rflags }) htop htab hnone
  rw [newStack_congr { f with rflags := rflags } f hcpu rfl] at hread
  have htake : (saved m (origIsr y vec m.mem) { f with rflags := rflags }).take 6 =
      (saved m (origIsr y vec m.mem) f).take 6 := by
    simp [saved, Frame.words, hnone]
  have hrflags := ((exitsIntact_iff_of_ret hrun).mp hexit).rflags
  rw [hnone] at hrflags
  have hword := hread.symm.trans hrflags
  have hmoved := hbyte (storeWords m.mem (top - 0x48#64)
    (saved m (origIsr y vec m.mem) { f with rflags := rflags }))
  rw [← storeWords_congr htake hr (by omega), ← hmoved, byteAt_lowBit]
  exact congrArg (BitVec.getLsbD · (8 * j)) hword.symm

/-- So the flags are not intact for all values of that bit. -/
lemma not_overtaken_of_exitsIntact (hleave : ¬ Leaves y vec top f m)
    (h : ∀ rflags, rflags.getLsbD 29 = false →
      ExitsIntact y vec top { f with rflags := rflags } m) :
    ¬ OvertakesWord top (newStack y vec top f m) (flagsIndex f) := by
  intro hover
  have hbit : ∃ j < 8, ∃ c, ∀ rflags, ExitsIntact y vec top { f with rflags := rflags } m →
      rflags.getLsbD (8 * j) = c := by
    rcases Option.eq_none_or_eq_some f.errorCode with hec | ⟨ec, hec⟩
    · rw [flagsIndex_noErr hec] at hover
      exact flags_bit_noErr htop htab hcpu hec hover
    · rw [flagsIndex_err hec] at hover
      exact flags_bit_err htop htab hcpu hec (takesDoubleFault_of_not_leaves hec hleave) hover
  obtain ⟨j, hj, c, hc⟩ := hbit
  have hpos : 8 * j < 64 := by omega
  have hne : 29 ≠ 8 * j := by omega
  have hzero := hc 0#64 (h _ BitVec.getLsbD_zero)
  have hone := hc (BitVec.twoPow 64 (8 * j)) (h _ (by simp [hne]))
  rw [← hzero] at hone
  simp [hpos] at hone

end Necessary

/-- Either way out is intact if the condition holds. -/
lemma exitsIntact_of_safe (hflags : f.rflags.getLsbD 29 = false)
    (h : GsAndFlagsSafe y vec top f m) : ExitsIntact y vec top f m := by
  by_cases hleave : Leaves y vec top f m
  · exact (exitsIntact_iff_of_leaves htop htab hflags hleave).mpr (h.jump hleave)
  · have hover := h.move hleave
    rcases Option.eq_none_or_eq_some f.errorCode with hec | ⟨ec, hec⟩
    · rw [flagsIndex_noErr hec] at hover
      exact exitsIntact_noErr htop htab hec hover
    · rw [flagsIndex_err hec] at hover
      exact exitsIntact_err htop htab hec hflags (takesDoubleFault_of_not_leaves hec hleave) hover

end Exits

/-- GS and the flags are intact on either way out if GS was not swapped before the
double-fault exit, or the flags are not overtaken by the move; and they are for all flags
with bit 29 clear only then, if per-CPU data is not on the IST stack. -/
theorem exitsIntact_iff (htop : top.toNat % 4096 = 0) (htab : TablesApart y vec top) :
    (f.rflags.getLsbD 29 = false → GsAndFlagsSafe y vec top f m → ExitsIntact y vec top f m) ∧
    (PerCpuApart y top m.mem (chosenBase m) →
      ((∀ rflags, rflags.getLsbD 29 = false →
          ExitsIntact y vec top { f with rflags := rflags } m) ↔
        GsAndFlagsSafe y vec top f m)) := by
  refine ⟨exitsIntact_of_safe htop htab, fun hcpu => ⟨fun h => ⟨?_, ?_⟩, fun h rflags hflags => ?_⟩⟩
  · intro hleave
    have hleave' : Leaves y vec top { f with rflags := 0#64 } m :=
      ⟨hleave.1, (takesDoubleFault_congr { f with rflags := 0#64 } f hcpu rfl vec).trans hleave.2⟩
    exact (exitsIntact_iff_of_leaves htop htab BitVec.getLsbD_zero hleave').mp
      (h 0#64 BitVec.getLsbD_zero)
  · intro hleave
    exact not_overtaken_of_exitsIntact htop htab hcpu hleave h
  · have hsame := takesDoubleFault_congr { f with rflags := rflags } f hcpu rfl vec
    apply exitsIntact_of_safe (f := { f with rflags := rflags }) htop htab hflags
    refine ⟨fun hleave => ?_, fun hleave => ?_⟩
    · exact h.jump ⟨hleave.1, hsame.symm.trans hleave.2⟩
    · rw [newStack_congr { f with rflags := rflags } f hcpu rfl]
      exact h.move fun hleave' => hleave ⟨hleave'.1, hsame.trans hleave'.2⟩

namespace TwoCpus

lemma perCpuApart_machine :
    PerCpuApart layout istTop (machine 0x7f1234560000#64).mem
      (chosenBase (machine 0x7f1234560000#64)) := by
  have hbase : chosenBase (machine 0x7f1234560000#64) = base := by decide
  rw [hbase]
  exact perCpuApart.1

/-- A page fault and a breakpoint of ordinary user code: GS is swapped and swapped
back. -/
theorem exitsIntact_user_code :
    (∀ rflags, rflags.getLsbD 29 = false →
      ExitsIntact layout 14 istTop
        { frame (some 4#64) 0x7ffd00001000#64 with rflags := rflags }
        (machine 0x7f1234560000#64)) ∧
    ∀ rflags, rflags.getLsbD 29 = false →
      ExitsIntact layout 3 istTop { frame none 0x7ffd00001000#64 with rflags := rflags }
        (machine 0x7f1234560000#64) := by
  constructor
  · refine ((exitsIntact_iff (by decide) tablesApart.2).2 perCpuApart_machine).mpr
      ⟨fun hleave => ?_, fun _ => ?_⟩
    · exact absurd hleave.2 (by decide)
    · rw [newStack, seenSp0_eq perCpuApart_machine]
      decide
  · refine ((exitsIntact_iff (by decide) tablesApart.1).2 perCpuApart_machine).mpr
      ⟨fun hleave => ?_, fun _ => ?_⟩
    · exact absurd hleave.1 (by decide)
    · rw [newStack, seenSp0_eq perCpuApart_machine]
      decide

/-- The first CPU is in the kernel, but has not swapped GS yet. -/
def earlyMachine : Machine := { machine 0x7f1234560000#64 with cr2 := 0xffff888012345000#64 }

/-- A fault of the kernel on a kernel address then: the double-fault handler is entered
with GS swapped and the mark in the flags. -/
theorem early_fault_leaves_swapped :
    (kernelFrame (some 2#64) 0xffffc90000203e00#64).rflags.getLsbD 29 = false ∧
      ¬ ExitsIntact layout 14 istTop (kernelFrame (some 2#64) 0xffffc90000203e00#64)
        earlyMachine := by
  have hcpu : PerCpuApart layout istTop earlyMachine.mem (chosenBase earlyMachine) :=
    perCpuApart_machine
  have hleave : Leaves layout 14 istTop (kernelFrame (some 2#64) 0xffffc90000203e00#64)
      earlyMachine := by
    refine ⟨by decide, ?_⟩
    rw [seenSp0_eq hcpu]
    decide
  refine ⟨by decide, ?_⟩
  rw [exitsIntact_iff_of_leaves (by decide) tablesApart.2 (by decide) hleave]
  decide

end TwoCpus

/-- The handler finds the error code, CS and SS that the hardware pushed. -/
structure FindsSelectors (f : Frame) (m' : Machine) : Prop where
  errorCode : some (read64 m'.mem m'.regs.rsp) = f.errorCode
  cs : read64 m'.mem (m'.regs.rsp + 0x10#64) = f.cs
  ss : read64 m'.mem (m'.regs.rsp + 0x28#64) = f.ss

/-- It does so if the entry code does not leave through the double-fault exit. -/
def DeliversUnchanged (y : Layout) (vec : Fin 256) (top : Word) (f : Frame) (m : Machine) : Prop :=
  (∃ m', entry y vec top f m = some (.jump (read64 m.mem y.dfHandlerLocation) m')) ∨
    ∃ target m', entry y vec top f m = some (.ret target m') ∧ FindsSelectors f m'

lemma deliversUnchanged_iff_of_ret {target : Word} {m' : Machine}
    (hrun : entry y vec top f m = some (.ret target m')) :
    DeliversUnchanged y vec top f m ↔ FindsSelectors f m' := by
  constructor
  · rintro (⟨m'', hjump⟩ | ⟨target', m'', hret, hfinds⟩)
    · rw [hrun] at hjump
      cases hjump
    · rw [hrun] at hret
      cases hret
      exact hfinds
  · exact fun hfinds => Or.inr ⟨target, m', hrun, hfinds⟩

/-- What the entry code takes for a fault of an elevated task on a user address. -/
def TakenForUserFault (y : Layout) (vec : Fin 256) (top : Word) (f : Frame) (m : Machine) :
    Prop :=
  seenElevated y vec top f m = true ∧ m.cr2.msb = false

/-- No frame is delivered, or one that is neither taken for that of a user fault nor
overtaken. -/
def SelectorsSafe (y : Layout) (vec : Fin 256) (top : Word) (f : Frame) (m : Machine) : Prop :=
  takesDoubleFault y f (seenSp0 y vec top f m) m.cr2 = true ∨
    ¬ TakenForUserFault y vec top f m ∧ ¬ OvertakesWord top (newStack y vec top f m) 9

/-- The words below SS do not depend on it. -/
lemma saved_take_ss (m : Machine) (handler : Word) (hec : f.errorCode = some ec)
    (elevated s : Bool) (cr2 ss : Word) :
    (saved m handler (({ f with ss := ss }.forTask elevated cr2).marked s)).take 9 =
      (saved m handler ((f.forTask elevated cr2).marked s)).take 9 := by
  obtain ⟨errorCode, rip, cs, rflags, rsp, ss'⟩ := f
  obtain rfl : errorCode = some ec := hec
  unfold Frame.forTask Frame.marked Frame.asUser saved Frame.words
  cases s <;> cases elevated && !cr2.msb <;> rfl

section Selectors

variable (htop : top.toNat % 4096 = 0) (htab : TablesApart y vec top)
include htop htab

/-- A frame that is neither rewritten nor overtaken is delivered as it is. -/
lemma deliversUnchanged_of_not_overtaken (hec : f.errorCode = some ec)
    (hdf : takesDoubleFault y f (seenSp0 y vec top f m) m.cr2 = false)
    (huser : ¬ TakenForUserFault y vec top f m)
    (hover : ¬ OvertakesWord top (newStack y vec top f m) 9) :
    DeliversUnchanged y vec top f m := by
  obtain ⟨target, m', hrun, hret⟩ := entry_returns hec htop htab hdf
  have hself : f.forTask (seenElevated y vec top f m) m.cr2 = f := by
    rw [Frame.forTask, if_neg]
    simpa [TakenForUserFault] using huser
  have hover' (i : ℕ) (hi : i < 10) : ¬ OvertakesWord top (newStack y vec top f m) i :=
    fun h => hover ⟨h.1, by have := h.2; omega⟩
  have hlist : errSaved y vec top f m = [m.regs.rcx, m.regs.rsi, m.regs.rdi,
      origIsr y vec m.mem, ec, f.rip, f.cs, (f.marked (!m.gsBase.msb)).rflags, f.rsp, f.ss] := by
    rw [errSaved, hself, saved_err ((f.marked_errorCode _).trans hec)]
    unfold Frame.marked
    cases m.gsBase.msb <;> rfl
  have hword (i : ℕ) (hi : i < 6) (hne : i ≠ 3) :
      read64 m'.mem (m'.regs.rsp + BitVec.ofNat 64 (8 * i)) =
        (errSaved y vec top f m).getD (i + 4) 0#64 := by
    rw [hret.frame i hi hne, errWord_of_not_overtaken hec (by omega) (hover' _ (by omega))]
  rw [hlist] at hword
  rw [deliversUnchanged_iff_of_ret hrun]
  refine ⟨?_, hword 2 (by omega) (by omega), hword 5 (by omega) (by omega)⟩
  have hcode := hword 0 (by omega) (by omega)
  rw [mul_zero, BitVec.add_zero] at hcode
  rw [hcode, hec]
  rfl

/-- SS is the last word that is moved. -/
lemma ss_of_deliversUnchanged (hec : f.errorCode = some ec)
    (hdf : takesDoubleFault y f (seenSp0 y vec top f m) m.cr2 = false)
    (h : DeliversUnchanged y vec top f m) : errWord y vec top f m 9 = f.ss := by
  obtain ⟨target, m', hrun, hret⟩ := entry_returns hec htop htab hdf
  rw [← hret.frame 5 (by omega) (by omega)]
  exact ((deliversUnchanged_iff_of_ret hrun).mp h).ss

/-- A frame is delivered as it was pushed, or not delivered, if the condition holds. -/
lemma deliversUnchanged_of_safe (hec : f.errorCode = some ec)
    (h : SelectorsSafe y vec top f m) : DeliversUnchanged y vec top f m := by
  cases hdf : takesDoubleFault y f (seenSp0 y vec top f m) m.cr2 with
  | true =>
    obtain ⟨w, hrun, -⟩ := entry_jumps hec htop htab hdf
    exact Or.inl ⟨_, hrun⟩
  | false =>
    rcases h with hleave | ⟨huser, hover⟩
    · rw [hdf] at hleave
      exact absurd hleave Bool.false_ne_true
    · exact deliversUnchanged_of_not_overtaken htop htab hec hdf huser hover

section Necessary

variable (hec : f.errorCode = some ec) (hcpu : PerCpuApart y top m.mem (chosenBase m))
  (hdf : takesDoubleFault y f (seenSp0 y vec top f m) m.cr2 = false)
  (h : ∀ ss, DeliversUnchanged y vec top { f with ss := ss } m)
include hec hcpu hdf h

lemma ss_of_forall_deliversUnchanged (ss : Word) :
    errWord y vec top { f with ss := ss } m 9 = ss := by
  have hdf' := (takesDoubleFault_congr { f with ss := ss } f hcpu rfl vec).trans hdf
  exact ss_of_deliversUnchanged (f := { f with ss := ss }) htop htab hec hdf' (h ss)

/-- SS does not reach the handler if the frame is rewritten. -/
lemma not_takenForUserFault_of_deliversUnchanged : ¬ TakenForUserFault y vec top f m := by
  intro huser
  have hss := ss_of_forall_deliversUnchanged htop htab hec hcpu hdf h
  have hsame (ss : Word) : errSaved y vec top { f with ss := ss } m = errSaved y vec top f m := by
    obtain ⟨hel, hcr2⟩ := huser
    rw [seenElevated_eq hcpu vec hec] at hel
    rw [errSaved_eq hcpu vec hec, errSaved_eq (f := { f with ss := ss }) hcpu vec hec]
    unfold Frame.forTask
    rw [hel, hcr2]
    rfl
  have hword (ss : Word) :
      errWord y vec top { f with ss := ss } m 9 = errWord y vec top f m 9 := by
    unfold errWord
    rw [hsame, newStack_congr { f with ss := ss } f hcpu rfl]
  have heq : (0#64 : Word) = 1#64 := calc
    0#64 = errWord y vec top { f with ss := 0#64 } m 9 := (hss 0#64).symm
    _ = errWord y vec top { f with ss := 1#64 } m 9 := (hword 0#64).trans (hword 1#64).symm
    _ = 1#64 := hss 1#64
  exact absurd heq (by decide)

/-- Nor does it if it is overtaken. -/
lemma not_ss_overtaken_of_deliversUnchanged :
    ¬ OvertakesWord top (newStack y vec top f m) 9 := by
  intro hover
  obtain ⟨j, r, hj, hr, hbyte⟩ :=
    errWord_byte_of_overtaken y vec (i := 9) (by omega) (by omega) hover
  have htake (ss : Word) : (errSaved y vec top { f with ss := ss } m).take 9 =
      (errSaved y vec top f m).take 9 := by
    rw [errSaved_eq hcpu vec hec, errSaved_eq (f := { f with ss := ss }) hcpu vec hec]
    exact saved_take_ss m _ hec _ _ _ ss
  have hss (ss : Word) : ss.getLsbD (8 * j) = (storeWords m.mem (top - 0x50#64)
      (errSaved y vec top f m) (top - 0x50#64 + BitVec.ofNat 64 r)).getLsbD 0 := by
    have hstack := newStack_congr { f with ss := ss } f hcpu rfl vec
    rw [← storeWords_congr (htake ss) hr (by omega), ← hbyte { f with ss := ss } m hstack,
      byteAt_lowBit, ss_of_forall_deliversUnchanged htop htab hec hcpu hdf h]
  have heq := (hss 0#64).trans (hss (BitVec.allOnes 64)).symm
  have hbit : 8 * j < 64 := by omega
  rw [BitVec.getLsbD_zero, BitVec.getLsbD_allOnes, decide_eq_true hbit] at heq
  exact Bool.false_ne_true heq

end Necessary

end Selectors

/-- For every vector with an error code: the handler finds the error code, CS and SS that
the hardware pushed if the fault is not taken for one of an elevated task on a user
address and the frame does not go to just above the IST stack, unless control leaves
through the double-fault exit. It finds them whatever they are only then, if per-CPU
data is not on the IST stack. -/
theorem deliversUnchanged_iff (hec : f.errorCode = some ec) (htop : top.toNat % 4096 = 0)
    (htab : TablesApart y vec top) :
    (SelectorsSafe y vec top f m → DeliversUnchanged y vec top f m) ∧
    (PerCpuApart y top m.mem (chosenBase m) →
      ((∀ ec cs ss, DeliversUnchanged y vec top
          { f with errorCode := some ec, cs := cs, ss := ss } m) ↔
        SelectorsSafe y vec top f m)) := by
  refine ⟨deliversUnchanged_of_safe htop htab hec, fun hcpu => ⟨fun h => ?_, ?_⟩⟩
  · cases hdf : takesDoubleFault y f (seenSp0 y vec top f m) m.cr2 with
    | true => exact Or.inl hdf
    | false =>
      have hss (ss : Word) : DeliversUnchanged y vec top { f with ss := ss } m := by
        have hframe := h ec f.cs ss
        rwa [← hec] at hframe
      exact Or.inr ⟨not_takenForUserFault_of_deliversUnchanged htop htab hec hcpu hdf hss,
        not_ss_overtaken_of_deliversUnchanged htop htab hec hcpu hdf hss⟩
  · intro h ec' cs ss
    generalize hg : ({ f with errorCode := some ec', cs := cs, ss := ss } : Frame) = g
    have hgec : g.errorCode = some ec' := by rw [← hg]
    have hrsp : g.rsp = f.rsp := by rw [← hg]
    apply deliversUnchanged_of_safe htop htab hgec
    unfold SelectorsSafe TakenForUserFault at h ⊢
    rw [seenElevated_eq hcpu vec hec] at h
    rw [seenElevated_eq hcpu vec hgec, takesDoubleFault_congr g f hcpu hrsp,
      newStack_congr g f hcpu hrsp]
    exact h

namespace TwoCpus

/-- The task of the first CPU is elevated. -/
def elevatedMem : Mem := write64 mem 0xffff888005000010#64 1#64

def elevatedMachine (cr2 : Word) : Machine := { kernelMachine cr2 with mem := elevatedMem }

lemma tablesApart_generalProtection : TablesApart layout 13 istTop := ⟨by decide, by decide⟩

lemma perCpuApart_elevatedMachine (cr2 : Word) :
    PerCpuApart layout istTop (elevatedMachine cr2).mem (chosenBase (elevatedMachine cr2)) := by
  have hbase : chosenBase (elevatedMachine cr2) = base := chosenBase_kernelMachine cr2
  have hapart : PerCpuApart layout istTop elevatedMem base :=
    ⟨by decide, by decide, by decide⟩
  rw [hbase]
  exact hapart

/-- A general-protection fault of the kernel, with a task that is not elevated, and one of
an elevated task on its user stack, with a kernel address left in `cr2`. -/
theorem deliversUnchanged_general_protection :
    (∀ ec cs ss, DeliversUnchanged layout 13 istTop
      { kernelFrame none 0xffffc90000203e00#64 with errorCode := some ec, cs := cs, ss := ss }
      (kernelMachine 0x7f0000001000#64)) ∧
    ∀ ec cs ss, DeliversUnchanged layout 13 istTop
      { kernelFrame none 0x7ffd00001000#64 with errorCode := some ec, cs := cs, ss := ss }
      (elevatedMachine 0xffff888012345000#64) := by
  constructor
  · have hcpu := perCpuApart_kernelMachine 0x7f0000001000#64
    refine ((deliversUnchanged_iff (f := kernelFrame (some 0#64) 0xffffc90000203e00#64) rfl
      (by decide) tablesApart_generalProtection).2 hcpu).mpr (Or.inr ⟨fun huser => ?_, by decide⟩)
    have hec : (kernelFrame (some 0#64) 0xffffc90000203e00#64).errorCode = some 0#64 := rfl
    have hel := huser.1
    rw [seenElevated_eq hcpu _ hec] at hel
    exact absurd hel (by decide)
  · have hcpu := perCpuApart_elevatedMachine 0xffff888012345000#64
    refine ((deliversUnchanged_iff (f := kernelFrame (some 0#64) 0x7ffd00001000#64) rfl
      (by decide) tablesApart_generalProtection).2 hcpu).mpr (Or.inr ⟨fun huser => ?_, ?_⟩)
    · exact absurd huser.2 (by decide)
    · rw [newStack, seenSp0_eq hcpu]
      decide

/-- A fault of an elevated task on a kernel stack, with the address of an earlier page fault
left in `cr2`: the handler finds an error code, CS and SS that were never pushed. -/
theorem general_protection_rewritten :
    ¬ DeliversUnchanged layout 13 istTop (kernelFrame (some 0#64) 0xffffc90000203e00#64)
      (elevatedMachine 0x7f0000001000#64) := by
  intro h
  have hec : (kernelFrame (some 0#64) 0xffffc90000203e00#64).errorCode = some 0#64 := rfl
  have hcpu := perCpuApart_elevatedMachine 0x7f0000001000#64
  have hdf : takesDoubleFault layout (kernelFrame (some 0#64) 0xffffc90000203e00#64)
      (seenSp0 layout 13 istTop (kernelFrame (some 0#64) 0xffffc90000203e00#64)
        (elevatedMachine 0x7f0000001000#64)) 0x7f0000001000#64 = false := by
    rw [seenSp0_eq hcpu]
    decide
  have hss := ss_of_deliversUnchanged (by decide) tablesApart_generalProtection hec hdf h
  rw [errWord_of_not_overtaken hec (by omega) (by decide), errSaved_eq hcpu _ hec] at hss
  exact absurd hss (by decide)

end TwoCpus

end SymbiOS.Relocation
