import SymbiOS.FrameRuns

/-!
# Is the relocation transparent?

The handler should find the machine as if the hardware had pushed the frame on the
stack the handler expects. Two things stand in the way: the code may take a GS base
for the kernel's that is not, and the destination of the move may begin inside the
words that are moved. The first shows in what is read for the CPU and the task, the
second in the words that arrive.
-/
namespace SymbiOS.Relocation
open SymbiOS.X86

variable {y : Layout} {vec : Fin 256} {m : Machine} {top : Word} {f : Frame} {k ec : Word}

/-- The frame that the handler is to find: a fault of an elevated task on a user
address looks like a user fault. -/
def Frame.delivered (f : Frame) (elevated : Bool) (cr2 : Word) : Frame :=
  if f.errorCode.isSome && elevated && !cr2.msb then f.asUser else f

/-- The bytes below an address that a frame and what is saved with it take. -/
def Below (f : Frame) (stack a : Word) : Prop :=
  (a - (stack - BitVec.ofNat 64 (8 * movedLength f))).toNat < 8 * movedLength f

/-- The handler is entered with the registers and the GS base that were
interrupted, on the stack that was interrupted or the kernel stack of the CPU, with
the frame above the stack pointer and nothing else changed. -/
structure Transparent (y : Layout) (vec : Fin 256) (top : Word) (f : Frame) (sp0 : Word)
    (elevated : Bool) (m : Machine) (target : Word) (m' : Machine) : Prop where
  handler : target = origIsr y vec m.mem
  registers : ∀ r, r ≠ .rsp → m'.regs.get r = m.regs.get r
  stack : m'.regs.rsp =
    destination f sp0 - (if f.errorCode.isSome then 0x30#64 else 0x28#64)
  frame : ∀ i, ∀ hi : i < (f.delivered elevated m.cr2).words.length,
    read64 m'.mem (m'.regs.rsp + BitVec.ofNat 64 (8 * i)) =
      (f.delivered elevated m.cr2).words.get ⟨i, hi⟩
  gsBase : m'.gsBase = m.gsBase
  memory : ∀ a, ¬ Below f top a → ¬ Below f (destination f sp0) a → m'.mem a = m.mem a

/-- The entry code leaves through the double-fault exit or enters the handler
transparently, where `k` is the GS base of the kernel. -/
def Relocates (y : Layout) (vec : Fin 256) (top : Word) (f : Frame) (k : Word) (m : Machine) :
    Prop :=
  (∃ m', entry y vec top f m = some (.jump (read64 m.mem y.dfHandlerLocation) m')) ∨
    ∃ target m', entry y vec top f m = some (.ret target m') ∧
      Transparent y vec top f (sp0At y m.mem k) (elevatedAt y m.mem k) m target m'

lemma movedLength_le (f : Frame) : movedLength f ≤ 10 := by
  rw [movedLength, f.words_length]
  split <;> omega

lemma Frame.delivered_words_length (f : Frame) (elevated : Bool) (cr2 : Word) :
    (f.delivered elevated cr2).words.length = f.words.length := by
  rw [Frame.words_length, Frame.words_length]
  unfold Frame.delivered Frame.asUser
  split <;> simp

lemma Frame.words_injective {g : Frame} (h : f.words = g.words) : f = g := by
  obtain ⟨ef, a, b, c, d, e⟩ := f
  obtain ⟨eg, a', b', c', d', e'⟩ := g
  cases ef <;> cases eg <;> simp_all [Frame.words]

lemma Frame.delivered_eq_forTask (hec : f.errorCode.isSome) (elevated : Bool) (cr2 : Word) :
    f.delivered elevated cr2 = f.forTask elevated cr2 := by
  rw [Frame.delivered, Frame.forTask, hec, Bool.true_and]

lemma Frame.delivered_eq_self (hnone : f.errorCode = none) (elevated : Bool) (cr2 : Word) :
    f.delivered elevated cr2 = f := by
  rw [Frame.delivered, hnone]
  rfl

/-- Two answers to whether the task is elevated give the same frame. -/
lemma Frame.forTask_eq_iff (f : Frame) (el el' : Bool) (cr2 : Word) :
    f.forTask el cr2 = f.forTask el' cr2 ↔ (cr2.msb = false → el ≠ el' → f.asUser = f) := by
  unfold Frame.forTask
  cases cr2.msb <;> cases el <;> cases el' <;> simp [eq_comm]

lemma Frame.forTask_errorCode (hec : f.errorCode = some ec) (elevated : Bool) (cr2 : Word) :
    ∃ ec', (f.forTask elevated cr2).errorCode = some ec' := by
  unfold Frame.forTask Frame.asUser
  split
  · exact ⟨_, by rw [hec]; rfl⟩
  · exact ⟨ec, hec⟩

lemma Frame.forTask_rflags (f : Frame) (elevated : Bool) (cr2 : Word) :
    (f.forTask elevated cr2).rflags = f.rflags := by
  unfold Frame.forTask Frame.asUser
  split <;> rfl

lemma Work.popped_rdi (w : Work) :
    w.popped.rdi = read64 w.mem (w.rsp + BitVec.ofNat 64 (8 * 2)) := by
  have haddr : w.rsp + 8#64 + 8#64 = w.rsp + BitVec.ofNat 64 (8 * 2) := by bv_omega
  rw [← haddr]
  rfl

lemma Work.popped_rsp (w : Work) : w.popped.rsp = w.rsp + BitVec.ofNat 64 (8 * 3) := by
  show w.rsp + 8#64 + 8#64 + 8#64 = _
  bv_omega

/-- The stack pointer of the handler, and where the words of the frame are. -/
lemma Work.returned_rsp_add (w : Work) (i : ℕ) :
    w.popped.returned.rsp + BitVec.ofNat 64 (8 * i) = w.rsp + BitVec.ofNat 64 (8 * (i + 4)) := by
  show w.popped.rsp + 8#64 + BitVec.ofNat 64 (8 * i) = _
  rw [w.popped_rsp, mul_add, BitVec.ofNat_add, BitVec.add_comm (BitVec.ofNat 64 (8 * i)),
    ← BitVec.add_assoc]
  bv_omega

lemma Work.returned_rsp_iff (w : Work) (f : Frame) (stack : Word) :
    w.popped.returned.rsp = stack - (if f.errorCode.isSome then 0x30#64 else 0x28#64) ↔
      w.rsp = stack - BitVec.ofNat 64 (8 * movedLength f) := by
  show w.popped.rsp + 8#64 = _ ↔ _
  rw [w.popped_rsp, movedLength, f.words_length]
  split
  · constructor <;> intro h <;> bv_omega
  · constructor <;> intro h <;> bv_omega

/-- The entry of the handler is transparent exactly when the words that were saved
have arrived below the right stack. -/
lemma transparent_arrive_iff {sp0 : Word} {elevated : Bool} (w : Work) (zf sf : Bool) :
    Transparent y vec top f sp0 elevated m (read64 w.mem w.popped.rsp)
        ({ w.popped.returned with zf := zf, sf := sf }.on m) ↔
      w.rsp = destination f sp0 - BitVec.ofNat 64 (8 * movedLength f) ∧
      (∀ i, ∀ hi : i < (saved m (origIsr y vec m.mem) (f.delivered elevated m.cr2)).length,
        read64 w.mem (w.rsp + BitVec.ofNat 64 (8 * i)) =
          (saved m (origIsr y vec m.mem) (f.delivered elevated m.cr2)).get ⟨i, hi⟩) ∧
      w.gsBase = m.gsBase ∧
      ∀ a, ¬ Below f top a → ¬ Below f (destination f sp0) a → w.mem a = m.mem a := by
  constructor
  · intro h
    refine ⟨(w.returned_rsp_iff f _).mp h.stack, ?_, h.gsBase, h.memory⟩
    intro i hi
    match i, hi with
    | 0, _ =>
      rw [mul_zero, BitVec.add_zero]
      exact h.registers .rcx (by decide)
    | 1, _ => exact h.registers .rsi (by decide)
    | 2, _ =>
      rw [← w.popped_rdi]
      exact h.registers .rdi (by decide)
    | 3, _ =>
      rw [← w.popped_rsp]
      exact h.handler
    | i + 4, hi =>
      rw [← w.returned_rsp_add]
      exact h.frame i (by simpa [saved] using hi)
  · rintro ⟨hstack, hwords, hgs, hmem⟩
    have hlen (i : ℕ) (hi : i < 4) :
        i < (saved m (origIsr y vec m.mem) (f.delivered elevated m.cr2)).length := by
      rw [saved_length_eq, movedLength]
      omega
    refine ⟨?_, ?_, (w.returned_rsp_iff f _).mpr hstack, ?_, hgs, hmem⟩
    · rw [w.popped_rsp]
      exact hwords 3 (hlen 3 (by omega))
    · intro r hr
      cases r with
      | rsp => exact absurd rfl hr
      | rcx =>
        have hrcx := hwords 0 (hlen 0 (by omega))
        rw [mul_zero, BitVec.add_zero] at hrcx
        exact hrcx
      | rsi => exact hwords 1 (hlen 1 (by omega))
      | rdi => exact w.popped_rdi.trans (hwords 2 (hlen 2 (by omega)))
      | _ => rfl
    · intro i hi
      have hword := hwords (i + 4) (by simpa [saved] using hi)
      rw [← w.returned_rsp_add] at hword
      exact hword

lemma swappedGs_bit : RFLAGS_SWAPPED_GS.setWidth 64 = BitVec.twoPow 64 29 := by decide

lemma swappedGs_mask :
    0xffffffff00000000#64 ||| RFLAGS_SWAPPED_GS_MASK.setWidth 64 = ~~~(BitVec.twoPow 64 29) := by
  decide

lemma read32_marked_iff (w : Word) :
    (w.setWidth 32 &&& RFLAGS_SWAPPED_GS == 0#32) = !w.getLsbD 29 := by
  have hbit : RFLAGS_SWAPPED_GS = BitVec.twoPow 32 29 := by decide
  have hpow : (BitVec.twoPow 32 29 == 0#32) = false := by decide
  rw [hbit, BitVec.and_twoPow, BitVec.getLsbD_setWidth]
  cases w.getLsbD 29 with
  | true => simp [hpow]
  | false => simp

lemma getLsbD_and_not_twoPow (w : Word) {i j : ℕ} (hne : i ≠ j) :
    (w &&& ~~~(BitVec.twoPow 64 j)).getLsbD i = w.getLsbD i := by
  by_cases hi : i < 64
  · simp [hi, hne]
  · rw [BitVec.getLsbD_of_ge _ _ (by omega), BitVec.getLsbD_of_ge _ _ (by omega)]

lemma and_not_twoPow {w : Word} {j : ℕ} (h : w.getLsbD j = false) :
    w &&& ~~~(BitVec.twoPow 64 j) = w := by
  apply BitVec.eq_of_getLsbD_eq
  intro i hi
  by_cases hij : i = j
  · subst hij
    simp [h]
  · exact getLsbD_and_not_twoPow w hij

lemma unmark {w : Word} (h : w.getLsbD 29 = false) :
    (w ||| BitVec.twoPow 64 29) &&& ~~~(BitVec.twoPow 64 29) = w := by
  rw [BitVec.and_or_distrib_right, BitVec.and_not_self, and_not_twoPow h]
  exact BitVec.or_zero

lemma Frame.marked_rflags_bit (hflags : f.rflags.getLsbD 29 = false) (s : Bool) :
    (f.marked s).rflags.getLsbD 29 = s := by
  cases s with
  | true => simp [Frame.marked, swappedGs_bit]
  | false => simpa [Frame.marked] using hflags

lemma Frame.forTask_marked (f : Frame) (s el : Bool) (cr2 : Word) :
    (f.marked s).forTask el cr2 = (f.forTask el cr2).marked s := by
  unfold Frame.forTask Frame.marked Frame.asUser
  cases s <;> cases el && !cr2.msb <;> rfl

/-- If the marked frame has arrived, GS is swapped back and the mark removed. -/
lemma unswapped_of_arrived {handler : Word} {mem : Mem} {w : Work} {s : Bool}
    (hec : f.errorCode = some ec) (hflags : f.rflags.getLsbD 29 = false)
    (hmem : w.mem = storeWords mem w.rsp (saved m handler (f.marked s))) :
    w.unswapped.mem = storeWords mem w.rsp (saved m handler f) ∧
      w.unswapped.gsBase = if s then w.kernelGsBase else w.gsBase := by
  have hec' : (f.marked s).errorCode = some ec := by rw [f.marked_errorCode, hec]
  have hread : read64 w.mem (w.rsp + 0x38#64) = (f.marked s).rflags := by
    have h := read_saved hec' m handler (i := 7) (by omega) mem w.rsp
    rw [hmem]
    simpa [saved, Frame.words, hec'] using h
  have hmarked : markedAt w.mem w.rsp = s := by
    rw [markedAt, read32, hread, read32_marked_iff, Frame.marked_rflags_bit hflags, Bool.not_not]
  rw [Work.unswapped, hmarked]
  cases s with
  | false => exact ⟨hmem, rfl⟩
  | true =>
    refine ⟨?_, rfl⟩
    have hset : (saved m handler (f.marked true)).set 7 f.rflags = saved m handler f := by
      simp [saved, Frame.words, hec, Frame.marked]
    have hflag : (f.marked true).rflags = f.rflags ||| BitVec.twoPow 64 29 := by
      rw [← swappedGs_bit]
      rfl
    simp only [cond_true]
    rw [write32_and, hread, swappedGs_mask, hflag, unmark hflags, hmem, ← hset]
    exact write_saved hec' (i := 7) (by omega) mem w.rsp _

/-- The destination begins inside the words that are to be moved. -/
def Overtakes (top : Word) (f : Frame) (stack : Word) : Prop :=
  0 < (stack - top).toNat ∧ (stack - top).toNat < 8 * movedLength f

instance (top : Word) (f : Frame) (stack : Word) : Decidable (Overtakes top f stack) :=
  inferInstanceAs (Decidable (_ ∧ _))

lemma sub_sub_sub_cancel (stack top d : Word) : stack - d - (top - d) = stack - top := by ring

lemma moveWords_of_not_overtakes {stack : Word} {mem : Mem} {ws : List Word}
    (h : ¬ Overtakes top f stack) (hlen : ws.length = movedLength f) :
    moveWords 8#64 (movedLength f) (top - BitVec.ofNat 64 (8 * movedLength f))
        (stack - BitVec.ofNat 64 (8 * movedLength f))
        (storeWords mem (top - BitVec.ofNat 64 (8 * movedLength f)) ws) =
      storeWords (storeWords mem (top - BitVec.ofNat 64 (8 * movedLength f)) ws)
        (stack - BitVec.ofNat 64 (8 * movedLength f)) ws := by
  have hten := movedLength_le f
  rw [← hlen] at hten ⊢
  apply moveWords_storeWords (by omega)
  rw [sub_sub_sub_cancel]
  by_cases hzero : (stack - top).toNat = 0
  · left
    have hstack : stack = top := by bv_omega
    rw [hstack]
  · right
    rw [hlen]
    exact not_lt.mp fun hlt => h ⟨by omega, hlt⟩

/-- Once a frame has arrived, only the stack and the frame can be wrong. -/
lemma transparent_iff_of_arrived (sp0 : Word) (elevated : Bool) {stack : Word} {g : Frame}
    {w : Work} {ws : List Word} (hlen : ws.length = movedLength f)
    (hg : g.words.length = f.words.length)
    (hrsp : w.rsp = stack - BitVec.ofNat 64 (8 * movedLength f))
    (hmem : w.mem = storeWords
      (storeWords m.mem (top - BitVec.ofNat 64 (8 * movedLength f)) ws) w.rsp
      (saved m (origIsr y vec m.mem) g))
    (hgs : w.gsBase = m.gsBase) (zf sf : Bool) :
    Transparent y vec top f sp0 elevated m (read64 w.mem w.popped.rsp)
        ({ w.popped.returned with zf := zf, sf := sf }.on m) ↔
      stack = destination f sp0 ∧ g = f.delivered elevated m.cr2 := by
  have hten := movedLength_le f
  have hglen : (saved m (origIsr y vec m.mem) g).length = movedLength f := by
    rw [saved_length_eq, movedLength, movedLength, hg]
  have hread (i : ℕ) (hi : i < (saved m (origIsr y vec m.mem) g).length) :
      read64 w.mem (w.rsp + BitVec.ofNat 64 (8 * i)) =
        (saved m (origIsr y vec m.mem) g).get ⟨i, hi⟩ := by
    rw [hmem]
    exact read64_storeWords hi (by omega)
  have hdlen : (saved m (origIsr y vec m.mem) (f.delivered elevated m.cr2)).length =
      movedLength f := by
    rw [saved_length_eq, movedLength, movedLength, f.delivered_words_length]
  rw [transparent_arrive_iff]
  constructor
  · rintro ⟨hstack, hwords, -, -⟩
    refine ⟨by bv_omega, Frame.words_injective ?_⟩
    have hsaved : saved m (origIsr y vec m.mem) g =
        saved m (origIsr y vec m.mem) (f.delivered elevated m.cr2) := by
      apply List.ext_get (hglen.trans hdlen.symm)
      intro i hi hi'
      rw [← hread i hi, hwords i hi']
    simpa [saved] using hsaved
  · rintro ⟨rfl, rfl⟩
    refine ⟨hrsp, hread, hgs, ?_⟩
    intro a htop hstack
    rw [hmem, storeWords_of_ge, storeWords_of_ge]
    · rw [hlen]
      exact not_lt.mp htop
    · rw [hglen, hrsp]
      exact not_lt.mp hstack

lemma unswapped_lowBit (w : Work) (a : Word) :
    (w.unswapped.mem a).getLsbD 0 = (w.mem a).getLsbD 0 := by
  unfold Work.unswapped
  cases markedAt w.mem w.rsp with
  | false => rfl
  | true =>
    simp only [cond_true]
    rw [write32_and, swappedGs_mask]
    by_cases ha : (a - (w.rsp + 0x38#64)).toNat < 8
    · have haddr : w.rsp + 0x38#64 + BitVec.ofNat 64 (a - (w.rsp + 0x38#64)).toNat = a := by
        rw [BitVec.ofNat_toNat, BitVec.setWidth_eq]
        ring
      have hbyte := byteAt_read64 w.mem (w.rsp + 0x38#64) ha
      rw [haddr] at hbyte
      rw [write64_of_lt ha, ← hbyte]
      generalize (a - (w.rsp + 0x38#64)).toNat = j at *
      generalize read64 w.mem (w.rsp + 0x38#64) = v
      have hne : 8 * j ≠ 29 := by omega
      have hlt : 8 * j < 64 := by omega
      simp [byteAt, hne, hlt]
    · rw [write64_of_ge (by omega)]

/-- The first word lands on a byte of the words above it, whose lowest bit then is
one of `%rcx`. -/
lemma lowBit_of_overtaken {sp0 stack : Word} {elevated : Bool} {g : Frame} {w : Work}
    (hover : Overtakes top f stack)
    (hrsp : w.rsp = stack - BitVec.ofNat 64 (8 * movedLength f))
    (hmem : ∀ a, (w.mem a).getLsbD 0 =
      (moveWords 8#64 (movedLength f) (top - BitVec.ofNat 64 (8 * movedLength f))
        (stack - BitVec.ofNat 64 (8 * movedLength f))
        (storeWords m.mem (top - BitVec.ofNat 64 (8 * movedLength f))
          (saved m (origIsr y vec m.mem) g)) a).getLsbD 0)
    {zf sf : Bool}
    (htrans : Transparent y vec top f sp0 elevated m (read64 w.mem w.popped.rsp)
      ({ w.popped.returned with zf := zf, sf := sf }.on m)) :
    m.regs.rcx.getLsbD (8 * (max (stack - top).toNat 8 - (stack - top).toNat)) =
      (byteAt ((saved m (origIsr y vec m.mem) (f.delivered elevated m.cr2)).getD
        (max (stack - top).toNat 8 / 8) 0#64) (max (stack - top).toNat 8 % 8)).getLsbD 0 := by
  have hten := movedLength_le f
  have hfour : 4 ≤ movedLength f := Nat.le_add_left 4 _
  obtain ⟨hpos, hlt⟩ := hover
  have hdiff := sub_sub_sub_cancel stack top (BitVec.ofNat 64 (8 * movedLength f))
  rw [← hdiff] at hpos hlt ⊢
  obtain ⟨-, hwords, -, -⟩ := (transparent_arrive_iff w zf sf).mp htrans
  -- the byte as the move leaves it
  have hclobber := hmem (stack - BitVec.ofNat 64 (8 * movedLength f) + BitVec.ofNat 64 (max
    (stack - BitVec.ofNat 64 (8 * movedLength f) -
      (top - BitVec.ofNat 64 (8 * movedLength f))).toNat 8))
  rw [saved, moveWords_storeWords_clobbers (by omega) hpos hlt (by omega)] at hclobber
  -- and as transparency asks for it
  have hlen : (saved m (origIsr y vec m.mem) (f.delivered elevated m.cr2)).length =
      movedLength f := by
    rw [saved_length_eq, movedLength, f.delivered_words_length, ← movedLength]
  rw [hrsp] at hwords
  rw [byte_of_read64 (by omega) hwords] at hclobber
  rw [hclobber]
  simp [byteAt]

/-- The run without the double-fault exit, whatever kind the frame is of: what has
arrived, but for the bits that the mark may have taken. -/
structure Arrival (y : Layout) (vec : Fin 256) (top : Word) (f : Frame) (m : Machine)
    (w : Work) : Prop where
  rsp : w.rsp = destination f (sp0At y m.mem (chosenBase m)) -
    BitVec.ofNat 64 (8 * movedLength f)
  lowBits : ∃ g, ∀ a, (w.mem a).getLsbD 0 =
    (moveWords 8#64 (movedLength f) (top - BitVec.ofNat 64 (8 * movedLength f)) w.rsp
      (storeWords m.mem (top - BitVec.ofNat 64 (8 * movedLength f))
        (saved m (origIsr y vec m.mem) g)) a).getLsbD 0
  arrived : ¬ Overtakes top f (destination f (sp0At y m.mem (chosenBase m))) →
    (∃ ws : List Word, ws.length = movedLength f ∧ w.mem =
      storeWords (storeWords m.mem (top - BitVec.ofNat 64 (8 * movedLength f)) ws) w.rsp
        (saved m (origIsr y vec m.mem)
          (f.delivered (elevatedAt y m.mem (chosenBase m)) m.cr2))) ∧
    w.gsBase = m.gsBase

section Runs

variable (htop : top.toNat % 4096 = 0) (hflags : f.rflags.getLsbD 29 = false)
  (htab : TablesApart y vec top) (hcpu : PerCpuApart y top m.mem (chosenBase m))
include htop htab hcpu

include hflags in
lemma arrival_err (hec : f.errorCode = some ec)
    (hdf : takesDoubleFault y f (sp0At y m.mem (chosenBase m)) m.cr2 = false) :
    ∃ w zf sf, entry y vec top f m = some (arrive w m zf sf) ∧ Arrival y vec top f m w := by
  have hn : movedLength f = 10 := by rw [movedLength, words_length_err hec]
  have hsize : BitVec.ofNat 64 (8 * movedLength f) = 0x50#64 := by rw [hn]
  rw [← sp0At_errImage hcpu hec] at hdf
  obtain ⟨w, zf, sf, hrun, hrsp, hmem, hgs, hkgs, -, -⟩ := entry_err hec htop htab hdf
  rw [sp0At_errImage hcpu hec] at hrsp hmem
  rw [elevatedAt_errImage hcpu hec, Frame.forTask_marked,
    ← Frame.delivered_eq_forTask (by rw [hec]; rfl), ← hsize, ← hn] at hmem
  rw [← hsize] at hrsp
  have hunsp := w.unswapped_rsp
  obtain ⟨ec', hec'⟩ := Frame.forTask_errorCode hec (elevatedAt y m.mem (chosenBase m)) m.cr2
  rw [← Frame.delivered_eq_forTask (by rw [hec]; rfl)] at hec'
  refine ⟨w.unswapped, zf, sf, hrun, hunsp.trans hrsp, ?_, ?_⟩
  · refine ⟨(f.delivered (elevatedAt y m.mem (chosenBase m)) m.cr2).marked (!m.gsBase.msb), ?_⟩
    intro a
    rw [unswapped_lowBit, hunsp, hrsp, hmem]
  · intro hover
    have hlen : (saved m (origIsr y vec m.mem)
        ((f.delivered (elevatedAt y m.mem (chosenBase m)) m.cr2).marked
          (!m.gsBase.msb))).length = movedLength f := by
      rw [hn]
      exact saved_length ((Frame.marked_errorCode _ _).trans hec')
    have hdflags : (f.delivered (elevatedAt y m.mem (chosenBase m)) m.cr2).rflags.getLsbD 29 =
        false := by
      unfold Frame.delivered Frame.asUser
      split <;> exact hflags
    rw [moveWords_of_not_overtakes hover hlen, ← hrsp] at hmem
    obtain ⟨hunmem, hungs⟩ := unswapped_of_arrived hec' hdflags hmem
    refine ⟨⟨_, hlen, by rw [hunmem, hunsp]⟩, ?_⟩
    rw [hungs, hgs, hkgs, chosenBase]
    cases m.gsBase.msb <;> rfl

lemma arrival_noErr (hnone : f.errorCode = none) :
    ∃ w zf sf, entry y vec top f m = some (arrive w m zf sf) ∧ Arrival y vec top f m w := by
  have hn : movedLength f = 9 := by rw [movedLength, words_length_noErr hnone]
  have hsize : BitVec.ofNat 64 (8 * movedLength f) = 0x48#64 := by rw [hn]
  obtain ⟨w, zf, sf, hrun, hrsp, hmem, hgs, -, -⟩ := entry_noErr hnone htop htab
  rw [sp0At_noErrImage hcpu hnone, ← hsize] at hrsp hmem
  rw [← hn] at hmem
  refine ⟨w, zf, sf, hrun, hrsp, ⟨f, fun a => by rw [hmem, hrsp]⟩, ?_⟩
  intro hover
  have hlen : (saved m (origIsr y vec m.mem) f).length = movedLength f := saved_length_eq _ _ _
  rw [moveWords_of_not_overtakes hover hlen, ← hrsp] at hmem
  exact ⟨⟨_, hlen, by rw [hmem, f.delivered_eq_self hnone]⟩, hgs⟩

include hflags in
/-- Whatever the frame, the run leaves through the double-fault exit or arrives. -/
lemma entry_cases :
    (f.errorCode.isSome ∧
      takesDoubleFault y f (sp0At y m.mem (chosenBase m)) m.cr2 = true ∧
      ∃ m', entry y vec top f m = some (.jump (read64 m.mem y.dfHandlerLocation) m')) ∨
    (¬ (f.errorCode.isSome ∧
        takesDoubleFault y f (sp0At y m.mem (chosenBase m)) m.cr2 = true) ∧
      ∃ w zf sf, entry y vec top f m = some (arrive w m zf sf) ∧ Arrival y vec top f m w) := by
  cases hec : f.errorCode with
  | none => exact Or.inr ⟨by simp, arrival_noErr htop htab hcpu hec⟩
  | some ec =>
    cases hdf : takesDoubleFault y f (sp0At y m.mem (chosenBase m)) m.cr2 with
    | true =>
      obtain ⟨w, hjump, -⟩ := entry_err_doubleFault hec htop htab
        ((congrArg (takesDoubleFault y f · m.cr2) (sp0At_errImage hcpu hec)).trans hdf)
      exact Or.inl ⟨rfl, rfl, w.on m, hjump⟩
    | false => exact Or.inr ⟨by simp, arrival_err htop hflags htab hcpu hec hdf⟩

end Runs

/-- What the code reads through the GS base it has chosen is what it would read
through the kernel's, as far as the frame depends on it. -/
structure ReadsKernelData (y : Layout) (f : Frame) (k : Word) (m : Machine) : Prop where
  stack : f.rsp.msb = false → sp0At y m.mem (chosenBase m) = sp0At y m.mem k
  task : f.errorCode.isSome → m.cr2.msb = false →
    elevatedAt y m.mem (chosenBase m) ≠ elevatedAt y m.mem k → f.asUser = f

lemma readsKernelData_iff : ReadsKernelData y f k m ↔
    destination f (sp0At y m.mem (chosenBase m)) = destination f (sp0At y m.mem k) ∧
      f.delivered (elevatedAt y m.mem (chosenBase m)) m.cr2 =
        f.delivered (elevatedAt y m.mem k) m.cr2 := by
  have hstack : destination f (sp0At y m.mem (chosenBase m)) = destination f (sp0At y m.mem k) ↔
      (f.rsp.msb = false → sp0At y m.mem (chosenBase m) = sp0At y m.mem k) := by
    unfold destination
    cases f.rsp.msb <;> simp
  have htask : f.delivered (elevatedAt y m.mem (chosenBase m)) m.cr2 =
        f.delivered (elevatedAt y m.mem k) m.cr2 ↔
      (f.errorCode.isSome → m.cr2.msb = false →
        elevatedAt y m.mem (chosenBase m) ≠ elevatedAt y m.mem k → f.asUser = f) := by
    cases hec : f.errorCode with
    | none => simp [f.delivered_eq_self hec]
    | some ec =>
      have hsome : f.errorCode.isSome := by rw [hec]; rfl
      rw [Frame.delivered_eq_forTask hsome, Frame.delivered_eq_forTask hsome,
        Frame.forTask_eq_iff]
      simp
  rw [hstack, htask]
  exact ⟨fun h => ⟨h.stack, h.task⟩, fun h => ⟨h.1, h.2⟩⟩


/-- It is enough that the base it has chosen is the kernel's. -/
lemma readsKernelData_of_chosenBase (h : chosenBase m = k) : ReadsKernelData y f k m := by
  refine ⟨fun _ => ?_, fun _ _ hne => absurd ?_ hne⟩
  · rw [h]
  · rw [h]

/-- The condition under which control leaves through the double-fault exit. -/
def LeavesForDoubleFault (y : Layout) (f : Frame) (m : Machine) : Prop :=
  f.errorCode.isSome ∧ takesDoubleFault y f (sp0At y m.mem (chosenBase m)) m.cr2 = true

/-- The frame is relocated properly whatever the registers hold. -/
def RelocatesAllRegs (y : Layout) (vec : Fin 256) (top : Word) (f : Frame) (k : Word)
    (m : Machine) : Prop :=
  ∀ regs, Relocates y vec top f k { m with regs := regs }

section Transparency

variable (htop : top.toNat % 4096 = 0) (hflags : f.rflags.getLsbD 29 = false)
  (htab : TablesApart y vec top) (hcpu : PerCpuApart y top m.mem (chosenBase m))
include htop hflags htab hcpu

/-- A move that does not overtake itself is transparent when the right data was
read. -/
lemma relocates_iff_of_not_overtakes
    (hover : ¬ Overtakes top f (destination f (sp0At y m.mem (chosenBase m)))) :
    Relocates y vec top f k m ↔ LeavesForDoubleFault y f m ∨ ReadsKernelData y f k m := by
  rcases entry_cases htop hflags htab hcpu with ⟨hec, hdf, m', hrun⟩ | ⟨hdf, w, zf, sf, hrun, harr⟩
  · exact iff_of_true (Or.inl ⟨m', hrun⟩) (Or.inl ⟨hec, hdf⟩)
  · obtain ⟨⟨ws, hlen, hmem⟩, hgs⟩ := harr.arrived hover
    have htrans := transparent_iff_of_arrived (sp0At y m.mem k) (elevatedAt y m.mem k) hlen
      (f.delivered_words_length _ _) harr.rsp hmem hgs zf sf
    rw [← readsKernelData_iff] at htrans
    constructor
    · rintro (⟨m', hjump⟩ | ⟨target, m', hret, htransparent⟩)
      · rw [hrun] at hjump
        cases hjump
      · rw [hrun] at hret
        cases hret
        exact Or.inr (htrans.mp htransparent)
    · rintro (hleave | hreads)
      · exact absurd hleave hdf
      · exact Or.inr ⟨_, _, hrun, htrans.mpr hreads⟩

/-- If the move overtakes itself, a bit of `%rcx` ends up in another word. -/
lemma overtaken_lowBit {δ : ℕ}
    (hδ : (destination f (sp0At y m.mem (chosenBase m)) - top).toNat = δ)
    (hleave : ¬ LeavesForDoubleFault y f m)
    (hover : Overtakes top f (destination f (sp0At y m.mem (chosenBase m))))
    (h : Relocates y vec top f k m) :
    m.regs.rcx.getLsbD (8 * (max δ 8 - δ)) =
      (byteAt ((saved m (origIsr y vec m.mem)
        (f.delivered (elevatedAt y m.mem k) m.cr2)).getD (max δ 8 / 8) 0#64)
        (max δ 8 % 8)).getLsbD 0 := by
  subst hδ
  rcases entry_cases htop hflags htab hcpu with ⟨hec, hdf, -⟩ | ⟨-, w, zf, sf, hrun, harr⟩
  · exact absurd ⟨hec, hdf⟩ hleave
  · rcases h with ⟨m', hjump⟩ | ⟨target, m', hret, htransparent⟩
    · rw [hrun] at hjump
      cases hjump
    · rw [hrun] at hret
      cases hret
      obtain ⟨g, hlow⟩ := harr.lowBits
      rw [harr.rsp] at hlow
      exact lowBit_of_overtaken hover harr.rsp hlow htransparent

/-- So it is not transparent for all values of `%rcx`. -/
lemma not_overtakes_of_relocatesAllRegs (hleave : ¬ LeavesForDoubleFault y f m)
    (h : RelocatesAllRegs y vec top f k m) :
    ¬ Overtakes top f (destination f (sp0At y m.mem (chosenBase m))) := by
  intro hover
  obtain ⟨δ, hδ⟩ : ∃ δ, (destination f (sp0At y m.mem (chosenBase m)) - top).toNat = δ := ⟨_, rfl⟩
  have hzero := overtaken_lowBit (m := { m with regs := { m.regs with rcx := 0#64 } }) htop hflags
    htab hcpu hδ hleave hover (h _)
  have hones := overtaken_lowBit (m := { m with regs := { m.regs with rcx := BitVec.allOnes 64 } })
    htop hflags htab hcpu hδ hleave hover (h _)
  have hpos := hover.1
  rw [hδ] at hpos
  have hbit : 8 * (max δ 8 - δ) < 64 := by omega
  -- the other word is one above `%rcx`, and the same in both runs
  obtain ⟨i, hi⟩ : ∃ i, max δ 8 / 8 = i + 1 := ⟨max δ 8 / 8 - 1, by omega⟩
  rw [hi, saved, List.getD_cons_succ] at hzero hones
  have heq : (0#64).getLsbD (8 * (max δ 8 - δ)) = (BitVec.allOnes 64).getLsbD (8 * (max δ 8 - δ)) :=
    hzero.trans hones.symm
  rw [BitVec.getLsbD_zero, BitVec.getLsbD_allOnes, decide_eq_true hbit] at heq
  exact Bool.false_ne_true heq

end Transparency

/-- Whatever the registers hold, the frame is relocated transparently exactly when
the code has read the kernel's data and the frame does not go to just above the IST
stack, if control does not leave through the double-fault exit. -/
theorem relocatesAllRegs_iff (htop : top.toNat % 4096 = 0)
    (hflags : f.rflags.getLsbD 29 = false) (htab : TablesApart y vec top)
    (hcpu : PerCpuApart y top m.mem (chosenBase m)) :
    RelocatesAllRegs y vec top f k m ↔
      LeavesForDoubleFault y f m ∨
        ReadsKernelData y f k m ∧ ¬ Overtakes top f (destination f (sp0At y m.mem k)) := by
  by_cases hleave : LeavesForDoubleFault y f m
  · refine iff_of_true ?_ (Or.inl hleave)
    intro regs
    rcases entry_cases (m := { m with regs := regs }) htop hflags htab hcpu with
      ⟨-, -, hjump⟩ | ⟨hdf, -⟩
    · exact Or.inl hjump
    · exact absurd hleave hdf
  constructor
  · intro h
    have hover := not_overtakes_of_relocatesAllRegs htop hflags htab hcpu hleave h
    have hreads := ((relocates_iff_of_not_overtakes htop hflags htab hcpu hover).mp
      (h m.regs)).resolve_left hleave
    rw [(readsKernelData_iff.mp hreads).1] at hover
    exact Or.inr ⟨hreads, hover⟩
  · rintro (hdf | ⟨hreads, hover⟩) regs
    · exact absurd hdf hleave
    · rw [← (readsKernelData_iff.mp hreads).1] at hover
      exact (relocates_iff_of_not_overtakes (m := { m with regs := regs }) htop hflags htab hcpu
        hover).mpr (Or.inr ⟨hreads.stack, hreads.task⟩)

namespace TwoCpus

/-- A page fault of ordinary user code. -/
theorem relocatesAllRegs_page_fault :
    RelocatesAllRegs layout 14 istTop (frame (some 4#64) 0x7ffd00001000#64) base
      (machine 0x7f1234560000#64) := by
  have hbase : chosenBase (machine 0x7f1234560000#64) = base := by decide
  refine (relocatesAllRegs_iff (by decide) (by decide) tablesApart.2 ?_).mpr
    (Or.inr ⟨readsKernelData_of_chosenBase hbase, by decide⟩)
  rw [hbase]
  exact perCpuApart.1

/-- A breakpoint of user code that has set its GS base to that of the other CPU: the
frame goes to the other CPU's kernel stack. -/
theorem breakpoint_not_relocated :
    istTop.toNat % 4096 = 0 ∧ (frame none 0x7ffd00001000#64).rflags.getLsbD 29 = false ∧
      TablesApart layout 3 istTop ∧ PerCpuApart layout istTop mem base ∧
      PerCpuApart layout istTop mem otherBase ∧
      ¬ Relocates layout 3 istTop (frame none 0x7ffd00001000#64) base (machine otherBase) := by
  have hbase : chosenBase (machine otherBase) = otherBase := by decide
  have hcpu : PerCpuApart layout istTop (machine otherBase).mem
      (chosenBase (machine otherBase)) := by
    rw [hbase]
    exact perCpuApart.2
  refine ⟨by decide, by decide, tablesApart.1, perCpuApart.1, perCpuApart.2, ?_⟩
  rw [relocates_iff_of_not_overtakes (by decide) (by decide) tablesApart.1 hcpu (by decide)]
  rintro (⟨hec, -⟩ | hreads)
  · exact absurd hec (by decide)
  · exact absurd (hreads.stack (by decide)) (by decide)

end TwoCpus

end SymbiOS.Relocation
