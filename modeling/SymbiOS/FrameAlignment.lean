import SymbiOS.FrameExits

/-!
# Where a frame from the kernel is put

Without an IST the hardware rounds the interrupted stack pointer down to a multiple of
16 and pushes the frame there. The entry code puts the frame directly below the saved
stack pointer, as its comments say. The two places are the same for an aligned stack
pointer only.
-/
namespace SymbiOS.Relocation
open SymbiOS.X86

variable {y : Layout} {vec : Fin 256} {m : Machine} {top : Word} {f : Frame} {ec : Word}

/-- Where a handler finds its stack when the hardware delivers to it without an IST. -/
def hardwareRsp (f : Frame) (m : Machine) : Word :=
  (deliver (f.rsp &&& ~~~0xf#64) f m).regs.rsp

/-- The original handler starts where the hardware would have started it. -/
def StartsAsHardware (y : Layout) (vec : Fin 256) (top : Word) (f : Frame) (m : Machine) : Prop :=
  ∃ m', entry y vec top f m = some (.ret (origIsr y vec m.mem) m') ∧
    m'.regs.rsp = hardwareRsp f m

/-- The size of the frame in bytes. -/
def frameSize (f : Frame) : Word := if f.errorCode.isSome then 0x30#64 else 0x28#64

lemma hardwareRsp_eq (f : Frame) (m : Machine) :
    hardwareRsp f m = (f.rsp &&& ~~~0xf#64) - frameSize f := by
  unfold hardwareRsp deliver frameSize
  rw [f.words_length]
  split <;> rfl

/-- Rounding down changes everything but multiples of 16. -/
lemma roundDown_eq_iff (x : Word) : x &&& ~~~0xf#64 = x ↔ x.toNat % 16 = 0 := by
  have hlow : (x &&& 0xf#64).toNat = x.toNat % 16 := by
    rw [BitVec.toNat_and]
    exact Nat.and_two_pow_sub_one_eq_mod x.toNat 4
  have hzero : x &&& 0xf#64 = 0#64 ↔ x.toNat % 16 = 0 := by
    rw [← hlow, ← BitVec.toNat_inj]
    rfl
  rw [← hzero]
  constructor
  · intro h
    rw [← h, BitVec.and_assoc, show ~~~0xf#64 &&& 0xf#64 = 0#64 from by decide, BitVec.and_zero]
  · intro h
    have hsplit : x &&& (~~~0xf#64 ||| 0xf#64) = x := by
      rw [show ~~~0xf#64 ||| 0xf#64 = BitVec.allOnes 64 from by decide, BitVec.and_allOnes]
    rw [BitVec.and_or_distrib_left, h, BitVec.or_zero] at hsplit
    exact hsplit

lemma sub_frameSize_eq_hardwareRsp_iff (f : Frame) (m : Machine) :
    f.rsp - frameSize f = hardwareRsp f m ↔ f.rsp.toNat % 16 = 0 := by
  rw [hardwareRsp_eq, sub_left_inj, eq_comm, roundDown_eq_iff]

/-- The return into the handler from a kernel stack. -/
structure KernelReturn (y : Layout) (vec : Fin 256) (top : Word) (f : Frame) (m : Machine)
    (target : Word) (m' : Machine) : Prop where
  rsp : m'.regs.rsp = f.rsp - frameSize f
  handler : ¬ OvertakesWord top f.rsp 3 → target = origIsr y vec m.mem

section Kernel

variable (hmsb : f.rsp.msb = true) (htop : top.toNat % 4096 = 0) (htab : TablesApart y vec top)
include hmsb htop htab

lemma kernelReturn_err (hec : f.errorCode = some ec) (hleave : ¬ Leaves y vec top f m) :
    ∃ target m', entry y vec top f m = some (.ret target m') ∧
      KernelReturn y vec top f m target m' := by
  obtain ⟨target, m', hrun, hret⟩ :=
    entry_returns hec htop htab (takesDoubleFault_of_not_leaves hec hleave)
  have hstack := newStack_of_kernel hmsb y vec top m
  refine ⟨target, m', hrun, ?_, fun hover => ?_⟩
  · rw [hret.rsp, hstack, frameSize, hec]
    rfl
  · rw [hret.handler, errWord_of_not_overtaken hec (by omega) (by rw [hstack]; exact hover)]
    rfl

lemma kernelReturn_noErr (hnone : f.errorCode = none) :
    ∃ target m', entry y vec top f m = some (.ret target m') ∧
      KernelReturn y vec top f m target m' := by
  obtain ⟨w, zf, sf, hrun, hrsp, hmem, -⟩ := entry_noErr (m := m) hnone htop htab
  have hlen : (saved m (origIsr y vec m.mem) f).length = 9 := by
    rw [saved_length_eq, movedLength, words_length_noErr hnone]
  rw [destination, if_pos hmsb] at hrsp hmem
  refine ⟨_, _, hrun, ?_, fun hover => ?_⟩
  · show w.popped.rsp + 8#64 = _
    rw [w.popped_rsp, hrsp, frameSize, hnone]
    simp only [Option.isSome_none, Bool.false_eq_true, if_false]
    bv_omega
  · rw [w.popped_rsp, hrsp, hmem, read_moved (i := 3) (by omega) hlen (by omega) hover]
    rfl

/-- For every exception from a kernel stack that does not leave for the double-fault
handler: the handler of the vector is entered with the frame directly below the saved
stack pointer, which is where the hardware would have put it exactly when the stack
pointer is a multiple of 16. -/
theorem kernel_frame_below_saved_rsp (hleave : ¬ Leaves y vec top f m) :
    ∃ target m', entry y vec top f m = some (.ret target m') ∧
      m'.regs.rsp = f.rsp - frameSize f ∧
      (m'.regs.rsp = hardwareRsp f m ↔ f.rsp.toNat % 16 = 0) ∧
      (¬ OvertakesWord top f.rsp 3 →
        target = origIsr y vec m.mem ∧
        (StartsAsHardware y vec top f m ↔ f.rsp.toNat % 16 = 0)) := by
  have hreturn : ∃ target m', entry y vec top f m = some (.ret target m') ∧
      KernelReturn y vec top f m target m' := by
    cases hec : f.errorCode with
    | some ec => exact kernelReturn_err hmsb htop htab hec hleave
    | none => exact kernelReturn_noErr hmsb htop htab hec
  obtain ⟨target, m', hrun, hret⟩ := hreturn
  have hiff : m'.regs.rsp = hardwareRsp f m ↔ f.rsp.toNat % 16 = 0 := by
    rw [hret.rsp, sub_frameSize_eq_hardwareRsp_iff]
  refine ⟨target, m', hrun, hret.rsp, hiff, fun hover => ⟨hret.handler hover, ?_⟩⟩
  rw [← hiff]
  constructor
  · rintro ⟨m'', hrun', hrsp⟩
    rw [hrun] at hrun'
    cases hrun'
    exact hrsp
  · intro hrsp
    exact ⟨m', by rw [hrun, hret.handler hover], hrsp⟩

end Kernel

namespace TwoCpus

lemma not_leaves_of_user_cr2 {vec : Fin 256} {f : Frame} (hmsb : f.rsp.msb = true) :
    ¬ Leaves layout vec istTop f (kernelMachine 0x7f0000001000#64) := by
  intro h
  have hcr2 := ((takesDoubleFault_iff hmsb _ _).mp h.2).1
  exact absurd hcr2 (by decide)

/-- A page fault of the kernel with an aligned stack pointer. -/
theorem aligned_page_fault_starts_as_hardware :
    StartsAsHardware layout 14 istTop (kernelFrame (some 2#64) 0xffffc90000203e00#64)
      (kernelMachine 0x7f0000001000#64) := by
  have hmsb : (kernelFrame (some 2#64) 0xffffc90000203e00#64).rsp.msb = true := by decide
  have hleave : ¬ Leaves layout 14 istTop (kernelFrame (some 2#64) 0xffffc90000203e00#64)
      (kernelMachine 0x7f0000001000#64) := not_leaves_of_user_cr2 hmsb
  obtain ⟨target, m', -, -, -, hstart⟩ :=
    kernel_frame_below_saved_rsp hmsb (by decide) tablesApart.2 hleave
  exact (hstart (by decide)).2.mpr (by decide)

/-- The same with a stack pointer that is 8 above a multiple of 16: the handler finds
its frame 8 bytes above the place where the hardware would have put it. -/
theorem misaligned_page_fault_above_hardware :
    (kernelFrame (some 2#64) 0xffffc90000203e08#64).cs &&& 3#64 = 0#64 ∧
    ¬ Leaves layout 14 istTop (kernelFrame (some 2#64) 0xffffc90000203e08#64)
      (kernelMachine 0x7f0000001000#64) ∧
    (∃ m', entry layout 14 istTop (kernelFrame (some 2#64) 0xffffc90000203e08#64)
        (kernelMachine 0x7f0000001000#64) =
          some (.ret (origIsr layout 14 (kernelMachine 0x7f0000001000#64).mem) m') ∧
      m'.regs.rsp = 0xffffc90000203dd8#64) ∧
    hardwareRsp (kernelFrame (some 2#64) 0xffffc90000203e08#64)
      (kernelMachine 0x7f0000001000#64) = 0xffffc90000203dd0#64 ∧
    ¬ StartsAsHardware layout 14 istTop (kernelFrame (some 2#64) 0xffffc90000203e08#64)
      (kernelMachine 0x7f0000001000#64) := by
  have hmsb : (kernelFrame (some 2#64) 0xffffc90000203e08#64).rsp.msb = true := by decide
  have hleave : ¬ Leaves layout 14 istTop (kernelFrame (some 2#64) 0xffffc90000203e08#64)
      (kernelMachine 0x7f0000001000#64) := not_leaves_of_user_cr2 hmsb
  obtain ⟨target, m', hrun, hret⟩ :=
    kernelReturn_err hmsb (by decide) tablesApart.2 rfl hleave
  have hrsp : m'.regs.rsp = 0xffffc90000203dd8#64 := by
    rw [hret.rsp]
    decide
  have hhardware : hardwareRsp (kernelFrame (some 2#64) 0xffffc90000203e08#64)
      (kernelMachine 0x7f0000001000#64) = 0xffffc90000203dd0#64 := by
    rw [hardwareRsp_eq]
    decide
  refine ⟨by decide, hleave, ⟨m', by rw [hrun, hret.handler (by decide)], hrsp⟩, hhardware, ?_⟩
  rintro ⟨m'', hrun', hstart⟩
  rw [hrun] at hrun'
  cases hrun'
  rw [hrsp, hhardware] at hstart
  exact absurd hstart (by decide)

end TwoCpus

end SymbiOS.Relocation
