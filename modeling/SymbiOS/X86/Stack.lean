import SymbiOS.X86.Machine

/-!
# Registers saved on the stack

Pushing registers one after the other writes one run of words below the stack pointer, the
last register lowest. Popping registers reads such a run from the stack pointer upwards and
leaves memory as it is.
-/
namespace SymbiOS.X86

variable {m : Mem} {a : Word} {ws : List Word}

lemma storeWords_nil (m : Mem) (a : Word) : storeWords m a [] = m := by
  funext b
  exact storeWords_of_ge (Nat.zero_le _)

/-- A word above the run. -/
lemma read64_storeWords_above {n : ℕ} (h : 8 * ws.length ≤ n) (hn : n + 8 ≤ 2 ^ 64) :
    read64 (storeWords m a ws) (a + BitVec.ofNat 64 n) = read64 m (a + BitVec.ofNat 64 n) := by
  apply read64_congr
  intro j hj
  apply storeWords_of_ge
  have hoff : (a + BitVec.ofNat 64 n + BitVec.ofNat 64 j - a).toNat = n + j := by bv_omega
  rw [hoff]
  omega

/-- The word that follows a run makes it longer, whether it is written after it, -/
lemma write64_storeWords_end (hlen : 8 * (ws.length + 1) < 2 ^ 64) (w : Word) :
    write64 (storeWords m a ws) (a + BitVec.ofNat 64 (8 * ws.length)) w =
      storeWords m a (ws ++ [w]) := by
  funext b
  by_cases hlast : (b - (a + BitVec.ofNat 64 (8 * ws.length))).toNat < 8
  · have hoff : (b - a).toNat =
        8 * ws.length + (b - (a + BitVec.ofNat 64 (8 * ws.length))).toNat := by bv_omega
    have hdiv : (b - a).toNat / 8 = ws.length := by omega
    have hmod : (b - a).toNat % 8 = (b - (a + BitVec.ofNat 64 (8 * ws.length))).toNat := by omega
    rw [write64_of_lt hlast]
    simp only [storeWords, hdiv, hmod, List.getElem?_concat_length]
  · rw [write64_of_ge (by omega)]
    by_cases hin : (b - a).toNat / 8 < ws.length
    · simp only [storeWords, List.getElem?_append_left hin]
    · have hout : 8 * (ws ++ [w]).length ≤ (b - a).toNat := by
        rw [List.length_append, List.length_singleton]
        bv_omega
      rw [storeWords_of_ge (by omega), storeWords_of_ge hout]

/-- or before. -/
lemma storeWords_write64_end (hlen : 8 * (ws.length + 1) < 2 ^ 64) (w : Word) :
    storeWords (write64 m (a + BitVec.ofNat 64 (8 * ws.length)) w) a ws =
      storeWords m a (ws ++ [w]) := by
  rw [← write64_storeWords_end hlen]
  funext b
  by_cases hlast : (b - (a + BitVec.ofNat 64 (8 * ws.length))).toNat < 8
  · rw [write64_of_lt hlast, storeWords_of_ge (by bv_omega), write64_of_lt hlast]
  · rw [write64_of_ge (by omega)]
    by_cases hin : (b - a).toNat / 8 < ws.length
    · simp only [storeWords, List.getElem?_eq_getElem hin]
    · rw [storeWords_of_ge (by omega), storeWords_of_ge (by omega), write64_of_ge (by omega)]

namespace Regs

@[simp] lemma get_set_self (s : Regs) (r : Reg) (v : Word) : (s.set r v).get r = v := by
  cases r <;> rfl

lemma get_set_of_ne (s : Regs) {r r' : Reg} (h : r' ≠ r) (v : Word) :
    (s.set r v).get r' = s.get r' := by
  cases r <;> cases r' <;> first | rfl | exact absurd rfl h

lemma ext_get {s t : Regs} (h : ∀ r, s.get r = t.get r) : s = t := by
  obtain ⟨rax, rbx, rcx, rdx, rsi, rdi, rbp, rsp, r8, r9, r10, r11, r12, r13, r14, r15⟩ := s
  rw [Regs.mk.injEq]
  exact ⟨h .rax, h .rbx, h .rcx, h .rdx, h .rsi, h .rdi, h .rbp, h .rsp, h .r8, h .r9, h .r10,
    h .r11, h .r12, h .r13, h .r14, h .r15⟩

end Regs

namespace Machine

def pushWord (s : Machine) (w : Word) : Machine :=
  { s.setReg .rsp (s.regs.rsp - 8#64) with mem := write64 s.mem (s.regs.rsp - 8#64) w }

def popReg (s : Machine) (dst : Reg) : Machine :=
  (s.setReg .rsp (s.regs.rsp + 8#64)).setReg dst (read64 s.mem s.regs.rsp)

def pushAll (rs : List Reg) (s : Machine) : Machine :=
  rs.foldl (fun s r => s.pushWord (s.regs.get r)) s

def popAll (rs : List Reg) (s : Machine) : Machine := rs.foldl popReg s

variable {s : Machine}

lemma get_popReg_of_ne {r dst : Reg} (hr : r ≠ dst) (hrsp : r ≠ .rsp) :
    (s.popReg dst).regs.get r = s.regs.get r := by
  show ((s.regs.set .rsp _).set dst _).get r = s.regs.get r
  rw [Regs.get_set_of_ne _ hr, Regs.get_set_of_ne _ hrsp]

lemma rsp_popReg {dst : Reg} (h : dst ≠ .rsp) :
    (s.popReg dst).regs.get .rsp = s.regs.rsp + 8#64 := by
  show ((s.regs.set .rsp _).set dst _).get .rsp = _
  rw [Regs.get_set_of_ne _ (Ne.symm h), Regs.get_set_self]

/-- The state after some pushes: the run holds the registers, the last one lowest. -/
structure Pushed (s : Machine) (rs : List Reg) (s' : Machine) : Prop where
  rsp : s'.regs.rsp = s.regs.rsp - BitVec.ofNat 64 (8 * rs.length)
  regs : ∀ r, r ≠ .rsp → s'.regs.get r = s.regs.get r
  mem : s'.mem = storeWords s.mem s'.regs.rsp (rs.reverse.map s.regs.get)

lemma pushed_pushAll (s : Machine) (rs : List Reg) (h : .rsp ∉ rs) :
    Pushed s rs (s.pushAll rs) := by
  induction rs using List.reverseRecOn with
  | nil =>
    refine ⟨?_, fun r _ => rfl, ?_⟩
    · show s.regs.rsp = s.regs.rsp - 0#64
      rw [BitVec.sub_zero]
    · exact (storeWords_nil s.mem s.regs.rsp).symm
  | append_singleton rs r ih =>
    have hr : r ≠ .rsp := fun he => h (by simp [he])
    have hprev : Pushed s rs (s.pushAll rs) := ih fun hmem => h (List.mem_append_left _ hmem)
    have hpush : s.pushAll (rs ++ [r]) =
        (s.pushAll rs).pushWord ((s.pushAll rs).regs.get r) := by
      simp [pushAll, List.foldl_append]
    generalize s.pushAll rs = t at hprev hpush
    rw [hpush]
    refine ⟨?_, fun q hq => ?_, ?_⟩
    · show t.regs.rsp - 8#64 = _
      rw [hprev.rsp, List.length_append, List.length_singleton, Nat.mul_add, BitVec.ofNat_add]
      ring
    · show (t.regs.set .rsp _).get q = s.regs.get q
      rw [Regs.get_set_of_ne _ hq, hprev.regs q hq]
    · show write64 t.mem (t.regs.rsp - 8#64) (t.regs.get r) = storeWords s.mem (t.regs.rsp - 8#64) _
      rw [hprev.mem, hprev.regs r hr, push_storeWords, List.reverse_append,
        List.reverse_singleton, List.singleton_append, List.map_cons]

/-- The state after some pops: the registers come from the words at the stack pointer. -/
structure Popped (s : Machine) (rs : List Reg) (s' : Machine) : Prop where
  rsp : s'.regs.rsp = s.regs.rsp + BitVec.ofNat 64 (8 * rs.length)
  mem : s'.mem = s.mem
  words : ∀ i r, rs[i]? = some r →
    s'.regs.get r = read64 s.mem (s.regs.rsp + BitVec.ofNat 64 (8 * i))

lemma popped_popAll (s : Machine) (rs : List Reg) (hrsp : .rsp ∉ rs) (hnodup : rs.Nodup) :
    Popped s rs (s.popAll rs) := by
  induction rs using List.reverseRecOn with
  | nil =>
    refine ⟨?_, rfl, fun i r hi => ?_⟩
    · show s.regs.rsp = s.regs.rsp + 0#64
      rw [BitVec.add_zero]
    · simp at hi
  | append_singleton rs dst ih =>
    have hdst : dst ≠ .rsp := fun he => hrsp (by simp [he])
    have hprev : Popped s rs (s.popAll rs) :=
      ih (fun hmem => hrsp (List.mem_append_left _ hmem)) (List.Nodup.of_append_left hnodup)
    have hpop : s.popAll (rs ++ [dst]) = (s.popAll rs).popReg dst := by
      simp [popAll, List.foldl_append]
    generalize s.popAll rs = t at hprev hpop
    rw [hpop]
    refine ⟨?_, hprev.mem, fun i r hi => ?_⟩
    · show (t.popReg dst).regs.get .rsp = _
      rw [rsp_popReg hdst, hprev.rsp, List.length_append, List.length_singleton, Nat.mul_add,
        BitVec.ofNat_add]
      ring
    · -- the register popped last, or one that it leaves alone
      by_cases hlt : i < rs.length
      · rw [List.getElem?_append_left hlt] at hi
        have hmem := List.mem_of_getElem? hi
        have hne : r ≠ dst := by
          rintro rfl
          exact List.disjoint_of_nodup_append hnodup hmem List.mem_cons_self
        have hr : r ≠ .rsp := fun he => hrsp (List.mem_append_left _ (he ▸ hmem))
        rw [get_popReg_of_ne hne hr, hprev.words i r hi]
      · have hlast : i = rs.length := by
          have hi' := (List.getElem?_eq_some_iff.mp hi).1
          rw [List.length_append, List.length_singleton] at hi'
          omega
        rw [hlast, List.getElem?_concat_length, Option.some.injEq] at hi
        subst hi hlast
        show ((t.regs.set .rsp _).set dst _).get dst = _
        rw [Regs.get_set_self, hprev.mem, hprev.rsp]

end Machine

end SymbiOS.X86
