import SymbiOS.FrameRuns

/-!
# Where the frame of a user-mode exception goes

The entry code does not look at the saved CS. It infers where an exception came from
by the signs of the saved stack pointer and of the GS base, and user code can set
both. The kernel's GS base is the inactive one in user mode, and the frame belongs
just below the `TSS.sp0` found through it.
-/
namespace SymbiOS.Relocation
open SymbiOS.X86

variable {y : Layout} {vec : Fin 256} {m : Machine} {top : Word} {f : Frame} {k : Word}

/-- The exception was taken at CPL 3, with the kernel's GS base put aside. -/
structure FromUser (f : Frame) (k : Word) (m : Machine) : Prop where
  rpl : f.cs &&& 3#64 = 3#64
  kernelBase : m.kernelGsBase = k

/-- The frame is copied to just below the kernel stack of the CPU, and per-CPU data is
read through the kernel's GS base only. -/
def KernelChoosesStack (y : Layout) (vec : Fin 256) (top : Word) (f : Frame) (k : Word)
    (m : Machine) : Prop :=
  ∃ target m', entry y vec top f m = some (.ret target m') ∧
    m'.moved = destinations 8#64 (movedLength f)
      (sp0At y m.mem k - BitVec.ofNat 64 (8 * movedLength f)) ++ m.moved ∧
    ∃ reads, m'.gsReads = reads ++ m.gsReads ∧ ∀ base ∈ reads, base = k

/-- The addresses that the frame is written to. -/
def frameAddresses (y : Layout) (vec : Fin 256) (top : Word) (f : Frame) (m : Machine) :
    Option (List Word) :=
  match entry y vec top f m with
  | some (.ret _ m') => some m'.moved
  | _ => none

/-- What user code has left in RSP and in its GS base does not mislead the entry
code: a negative GS base is the kernel's, where it is looked at, and a negative stack
pointer is the kernel stack itself and does not look like a double fault. -/
structure UserStateHarmless (y : Layout) (f : Frame) (k : Word) (m : Machine) : Prop where
  base : f.errorCode.isSome ∨ f.rsp.msb = false → m.gsBase.msb = true → m.gsBase = k
  stack : f.rsp.msb = true → f.rsp = sp0At y m.mem k
  noDoubleFault : f.errorCode.isSome → f.rsp.msb = true →
    looksLikeDoubleFault y (sp0At y m.mem k) m.cr2 = false

lemma destinations_injective {n : ℕ} {a b : Word} (hn : 0 < n)
    (h : destinations 8#64 n a = destinations 8#64 n b) : a = b := by
  obtain ⟨n, rfl⟩ : ∃ j, n = j + 1 := ⟨n - 1, by omega⟩
  exact (List.append_inj' h rfl).2 |> List.singleton_injective

/-- The kernel's base is chosen unless user code has set a negative one. -/
lemma chosenBase_eq_iff (hk : m.kernelGsBase = k) :
    chosenBase m = k ↔ (m.gsBase.msb = true → m.gsBase = k) := by
  rw [chosenBase]
  cases m.gsBase.msb <;> simp [hk]

/-- The frame goes to the kernel stack for a frame from a user stack, or if the stack
pointer in it is that. -/
lemma destination_eq_iff (f : Frame) (sp0 : Word) :
    destination f sp0 = sp0 ↔ (f.rsp.msb = true → f.rsp = sp0) := by
  rw [destination]
  cases f.rsp.msb <;> simp

lemma moved_eq_iff {n : ℕ} (hn : 0 < n) (a b d : Word) (log : List Word) :
    destinations 8#64 n (a - d) ++ log = destinations 8#64 n (b - d) ++ log ↔ a = b := by
  constructor
  · intro h
    have hab := destinations_injective hn (List.append_cancel_right h)
    bv_omega
  · rintro rfl
    rfl

/-- A run that arrives is judged by where it wrote and by what it read through. -/
lemma kernelChoosesStack_iff_of_arrive {w : Work} {zf sf : Bool} {stack : Word}
    {reads : List Word} (hrun : entry y vec top f m = some (arrive w m zf sf))
    (hmoved : w.moved = destinations 8#64 (movedLength f)
      (stack - BitVec.ofNat 64 (8 * movedLength f)) ++ m.moved)
    (hreads : w.gsReads = reads ++ m.gsReads) :
    KernelChoosesStack y vec top f k m ↔
      stack = sp0At y m.mem k ∧ ∀ base ∈ reads, base = k := by
  have hpos : 0 < movedLength f := Nat.succ_pos _
  constructor
  · rintro ⟨target, m', hret, hmoved', reads', hreads', hall⟩
    rw [hrun] at hret
    cases hret
    have hsame : reads' = reads := List.append_cancel_right (hreads'.symm.trans hreads)
    exact ⟨(moved_eq_iff hpos _ _ _ _).mp (hmoved.symm.trans hmoved'), hsame ▸ hall⟩
  · rintro ⟨rfl, hall⟩
    exact ⟨_, _, hrun, hmoved, reads, hreads, hall⟩

section Paths

variable (htop : top.toNat % 4096 = 0) (htab : TablesApart y vec top)
  (hcpu : PerCpuApart y top m.mem k)
include htop htab hcpu

lemma kernelChoosesStack_err_iff {ec : Word} (hec : f.errorCode = some ec) :
    KernelChoosesStack y vec top f k m ↔
      chosenBase m = k ∧ destination f (sp0At y m.mem k) = sp0At y m.mem k ∧
        takesDoubleFault y f (sp0At y m.mem k) m.cr2 = false := by
  have hn : movedLength f = 10 := by rw [movedLength, words_length_err hec]
  have hsize : BitVec.ofNat 64 (8 * movedLength f) = 0x50#64 := by rw [hn]
  cases hdf : takesDoubleFault y f (sp0At y (errImage y vec top f m) (chosenBase m)) m.cr2 with
  | true =>
    obtain ⟨w, hjump, -⟩ := entry_err_doubleFault hec htop htab hdf
    refine iff_of_false ?_ ?_
    · rintro ⟨target, m'', hret, -⟩
      rw [hjump] at hret
      cases hret
    · rintro ⟨hbase, -, hno⟩
      rw [hbase, sp0At_errImage hcpu hec, hno] at hdf
      exact Bool.false_ne_true hdf
  | false =>
    obtain ⟨w, zf, sf, hrun, -, -, -, -, hreads, hmoved⟩ := entry_err hec htop htab hdf
    rw [← hsize, ← hn, ← Work.unswapped_moved] at hmoved
    rw [← Work.unswapped_gsReads] at hreads
    rw [kernelChoosesStack_iff_of_arrive hrun hmoved
      (show w.unswapped.gsReads = [chosenBase m, chosenBase m] ++ m.gsReads from hreads)]
    constructor
    · rintro ⟨hstack, hall⟩
      have hbase : chosenBase m = k := hall _ List.mem_cons_self
      rw [hbase, sp0At_errImage hcpu hec] at hstack hdf
      exact ⟨hbase, hstack, hdf⟩
    · rintro ⟨hbase, hstack, -⟩
      rw [hbase, sp0At_errImage hcpu hec]
      exact ⟨hstack, by simp⟩

lemma kernelChoosesStack_noErr_iff (hnone : f.errorCode = none) :
    KernelChoosesStack y vec top f k m ↔
      (f.rsp.msb = false → chosenBase m = k) ∧
        destination f (sp0At y m.mem k) = sp0At y m.mem k := by
  have hn : movedLength f = 9 := by rw [movedLength, words_length_noErr hnone]
  have hsize : BitVec.ofNat 64 (8 * movedLength f) = 0x48#64 := by rw [hn]
  obtain ⟨w, zf, sf, hrun, -, -, -, hreads, hmoved⟩ := entry_noErr (m := m) hnone htop htab
  rw [← hsize, ← hn] at hmoved
  rw [kernelChoosesStack_iff_of_arrive hrun hmoved hreads]
  cases hmsb : f.rsp.msb with
  | true => simp [destination, noErrReads, hmsb]
  | false =>
    simp only [destination, noErrReads, hmsb, Bool.false_eq_true, if_false, List.mem_singleton,
      forall_eq, forall_const, and_true]
    constructor
    · exact fun h => h.2
    · intro hbase
      rw [hbase, sp0At_noErrImage hcpu hnone]
      exact ⟨rfl, rfl⟩

/-- The condition, for either kind of frame. -/
lemma kernelChoosesStack_iff_harmless (huser : FromUser f k m) :
    KernelChoosesStack y vec top f k m ↔ UserStateHarmless y f k m := by
  cases hec : f.errorCode with
  | none =>
    rw [kernelChoosesStack_noErr_iff htop htab hcpu hec, chosenBase_eq_iff huser.kernelBase,
      destination_eq_iff]
    constructor
    · rintro ⟨hbase, hstack⟩
      exact ⟨fun h => hbase (h.resolve_left (by simp [hec])), hstack, fun h => by simp [hec] at h⟩
    · intro h
      exact ⟨fun hmsb => h.base (Or.inr hmsb), h.stack⟩
  | some ec =>
    have hsome : f.errorCode.isSome := by rw [hec]; rfl
    rw [kernelChoosesStack_err_iff htop htab hcpu hec, chosenBase_eq_iff huser.kernelBase,
      destination_eq_iff, takesDoubleFault]
    constructor
    · rintro ⟨hbase, hstack, hdf⟩
      refine ⟨fun _ => hbase, hstack, fun _ hmsb => ?_⟩
      rwa [hmsb, Bool.true_and] at hdf
    · intro h
      refine ⟨h.base (Or.inl hsome), h.stack, ?_⟩
      cases hmsb : f.rsp.msb with
      | false => rfl
      | true => exact h.noDoubleFault hsome hmsb

end Paths

lemma KernelChoosesStack.frameAddresses_eq (h : KernelChoosesStack y vec top f k m) :
    frameAddresses y vec top f m = some (destinations 8#64 (movedLength f)
      (sp0At y m.mem k - BitVec.ofNat 64 (8 * movedLength f)) ++ m.moved) := by
  obtain ⟨target, m', hret, hmoved, -⟩ := h
  rw [frameAddresses, hret, ← hmoved]

/-- The kernel chooses where the frame of a user-mode exception goes exactly when
user code has left harmless values in RSP and in its GS base, and two exceptions that
differ in these values only, both harmless, have their frames written to the same
addresses. -/
theorem kernelChoosesStack_iff (htop : top.toNat % 4096 = 0) (htab : TablesApart y vec top)
    (hcpu : PerCpuApart y top m.mem k) (huser : FromUser f k m) :
    (KernelChoosesStack y vec top f k m ↔ UserStateHarmless y f k m) ∧
      ∀ rsp base, UserStateHarmless y f k m →
        UserStateHarmless y { f with rsp := rsp } k { m with gsBase := base } →
        frameAddresses y vec top { f with rsp := rsp } { m with gsBase := base } =
          frameAddresses y vec top f m := by
  have hiff := kernelChoosesStack_iff_harmless htop htab hcpu huser
  refine ⟨hiff, ?_⟩
  intro rsp base hharmless hharmless'
  have hiff' := kernelChoosesStack_iff_harmless (m := { m with gsBase := base }) htop htab hcpu
    (f := { f with rsp := rsp }) ⟨huser.rpl, huser.kernelBase⟩
  have hlen : movedLength { f with rsp := rsp } = movedLength f := by
    rw [movedLength, movedLength, Frame.words_length, Frame.words_length]
  rw [(hiff.mpr hharmless).frameAddresses_eq, (hiff'.mpr hharmless').frameAddresses_eq, hlen]

namespace TwoCpus

/-- A page fault of ordinary user code. -/
theorem kernelChoosesStack_page_fault :
    KernelChoosesStack layout 14 istTop (frame (some 4#64) 0x7ffd00001000#64) base
      (machine 0x7f1234560000#64) := by
  refine (kernelChoosesStack_iff (by decide) tablesApart.2 perCpuApart.1 ⟨by decide, rfl⟩).1.mpr ?_
  refine ⟨fun _ h => absurd h (by decide), fun h => absurd h (by decide), fun _ h => ?_⟩
  exact absurd h (by decide)

/-- A breakpoint of user code that has put the kernel stack of the other CPU into RSP:
the frame goes there. -/
theorem breakpoint_stack_chosen_by_user :
    FromUser (frame none 0xffffc90000304000#64) base (machine 0x7f1234560000#64) ∧
      TablesApart layout 3 istTop ∧ PerCpuApart layout istTop mem base ∧
      ¬ KernelChoosesStack layout 3 istTop (frame none 0xffffc90000304000#64) base
        (machine 0x7f1234560000#64) ∧
      frameAddresses layout 3 istTop (frame none 0xffffc90000304000#64)
          (machine 0x7f1234560000#64) ≠
        frameAddresses layout 3 istTop (frame none 0x7ffd00001000#64)
          (machine 0x7f1234560000#64) := by
  have hrpl : 0x33#64 &&& 3#64 = 3#64 := by decide
  have huser (rsp : Word) : FromUser (frame none rsp) base (machine 0x7f1234560000#64) :=
    ⟨hrpl, rfl⟩
  refine ⟨huser _, tablesApart.1, perCpuApart.1, ?_, ?_⟩
  · rw [kernelChoosesStack_iff_harmless (by decide) tablesApart.1 perCpuApart.1 (huser _)]
    intro h
    exact absurd (h.stack (by decide)) (by decide)
  · obtain ⟨w, zf, sf, hrun, -, -, -, -, hmoved⟩ := entry_noErr
      (m := machine 0x7f1234560000#64) (f := frame none 0xffffc90000304000#64) rfl (by decide)
      tablesApart.1
    have hordinary : KernelChoosesStack layout 3 istTop (frame none 0x7ffd00001000#64) base
        (machine 0x7f1234560000#64) := by
      rw [kernelChoosesStack_iff_harmless (by decide) tablesApart.1 perCpuApart.1 (huser _)]
      exact ⟨fun _ h => absurd h (by decide), fun h => absurd h (by decide),
        fun h => absurd h (by decide)⟩
    have hhere : frameAddresses layout 3 istTop (frame none 0xffffc90000304000#64)
        (machine 0x7f1234560000#64) = some w.moved := by
      rw [frameAddresses, hrun]
      rfl
    rw [hhere, hordinary.frameAddresses_eq, hmoved]
    intro h
    have hsame := (moved_eq_iff (n := 9) (by omega) _ _ _ _).mp (Option.some.inj h)
    rw [destination, if_pos (by decide)] at hsame
    exact absurd hsame (by decide)

end TwoCpus

end SymbiOS.Relocation
