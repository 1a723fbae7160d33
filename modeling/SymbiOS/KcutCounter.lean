import SymbiOS.GuardedRun
import SymbiOS.KcutTcp
import Mathlib.Data.Fintype.Card

/-!
# The fast-path counter between threads

`kcut_cnt` is a static variable: all threads of a process share it. A call tests
it, makes its kernel call, and only then decrements or stores it. Here the two
accesses are separate steps, and a schedule says whose step comes next.
-/
namespace SymbiOS.Kcut
open SymbiOS.GuardedRun

/-- Where a thread is in `kcut_tcp_read`: outside, between the test and the
decrement, or between the test and the store. -/
inductive Pc where
  | outside
  | shortcut
  | syscall
  deriving Repr, DecidableEq

/-- The shared counter and the threads. `sinceStore` is a ghost: the shortcut
calls that were completed since the last store. -/
structure Shared (Thread : Type) where
  kcutCnt : ℤ
  pc : Thread → Pc
  sinceStore : ℕ

variable {Thread : Type} [DecidableEq Thread]

namespace Shared

def moveTo (s : Shared Thread) (t : Thread) (pc : Pc) : Shared Thread :=
  { s with pc := Function.update s.pc t pc }

/-- The next access of thread `t` to the counter. -/
def step (threshold : ℤ) (s : Shared Thread) (t : Thread) : Shared Thread :=
  match s.pc t with
  | .outside => if s.kcutCnt ≠ 0 then s.moveTo t .shortcut else s.moveTo t .syscall
  | .shortcut =>
      { s.moveTo t .outside with kcutCnt := s.kcutCnt - 1, sinceStore := s.sinceStore + 1 }
  | .syscall => { s.moveTo t .outside with kcutCnt := threshold, sinceStore := 0 }

/-- The static variable is 0 at program start and nobody is in a call. -/
def start : Shared Thread := ⟨0, fun _ => .outside, 0⟩

variable {threshold : ℤ} {s : Shared Thread} {t : Thread}

lemma step_outside_zero (h : s.pc t = .outside) (hc : s.kcutCnt = 0) :
    s.step threshold t = s.moveTo t .syscall := by
  simp [step, h, hc]

lemma step_outside_ne_zero (h : s.pc t = .outside) (hc : s.kcutCnt ≠ 0) :
    s.step threshold t = s.moveTo t .shortcut := by
  simp [step, h, hc]

lemma step_shortcut (h : s.pc t = .shortcut) : s.step threshold t =
    { s.moveTo t .outside with kcutCnt := s.kcutCnt - 1, sinceStore := s.sinceStore + 1 } := by
  simp [step, h]

lemma step_syscall (h : s.pc t = .syscall) : s.step threshold t =
    { s.moveTo t .outside with kcutCnt := threshold, sinceStore := 0 } := by
  simp [step, h]

/-- A call that is not interrupted moves the counter as the sequential
`kcut_tcp_read` does. -/
lemma step_step_kcutCnt (cfg : Config) (hcfg : cfg.bracketPriv = false) (fast real : Outcome)
    (errno : ℤ) (h : s.pc t = .outside) :
    ((s.step threshold t).step threshold t).kcutCnt =
      (kcutTcp cfg threshold fast real s.kcutCnt errno).2 := by
  by_cases hc : s.kcutCnt = 0
  · rw [step_outside_zero h hc, step_syscall (by simp [moveTo])]
    simp [kcutTcp, hcfg, hc]
  · rw [step_outside_ne_zero h hc, step_shortcut (by simp [moveTo])]
    simp [kcutTcp, hcfg, hc, moveTo]

/-- When the threads that have passed the test finish first, each takes one off
the counter. -/
lemma kcutCnt_run_shortcut (threads : List Thread) (hnodup : threads.Nodup)
    (s : Shared Thread) (h : ∀ t ∈ threads, s.pc t = .shortcut) :
    (runFrom (step threshold) s threads).kcutCnt = s.kcutCnt - threads.length := by
  induction threads generalizing s with
  | nil => simp
  | cons t threads ih =>
    obtain ⟨hnot, hnodup⟩ := List.nodup_cons.mp hnodup
    have hother : ∀ u ∈ threads, (s.step threshold t).pc u = .shortcut := by
      intro u hu
      have hne : u ≠ t := fun he => hnot (he ▸ hu)
      rw [step_shortcut (h t List.mem_cons_self)]
      simpa [moveTo, hne] using h u (List.mem_cons_of_mem t hu)
    rw [runFrom_cons, ih hnodup _ hother, step_shortcut (h t List.mem_cons_self)]
    simp only [List.length_cons]
    omega

variable [Fintype Thread]

/-- The threads that have passed the test and will decrement. -/
def pending (s : Shared Thread) : Finset Thread := Finset.univ.filter fun t => s.pc t = .shortcut

omit [DecidableEq Thread] in
@[simp] theorem mem_pending : t ∈ s.pending ↔ s.pc t = .shortcut := by simp [pending]

lemma pending_moveTo_shortcut (s : Shared Thread) (t : Thread) :
    (s.moveTo t .shortcut).pending = insert t s.pending := by
  ext u
  by_cases h : u = t
  · subst h; simp [moveTo]
  · simp [moveTo, h]

lemma pending_moveTo (s : Shared Thread) (t : Thread) {pc : Pc} (hpc : pc ≠ .shortcut) :
    (s.moveTo t pc).pending = s.pending.erase t := by
  ext u
  by_cases h : u = t
  · subst h; simp [moveTo, hpc]
  · simp [moveTo, h]

/-- The counter is in its range, and no more than `threshold` shortcut calls have
gone by since the last real one. -/
def InRange (threshold : ℤ) (s : Shared Thread) : Prop :=
  0 ≤ s.kcutCnt ∧ s.kcutCnt ≤ threshold ∧ s.sinceStore ≤ threshold

/-- A test that finds the counter set finds it above the decrements that are
already on their way. -/
def TestCovered (s : Shared Thread) (t : Thread) : Prop :=
  s.pc t = .outside → s.kcutCnt ≠ 0 → s.pending.card < s.kcutCnt

instance (s : Shared Thread) (t : Thread) : Decidable (s.TestCovered t) :=
  inferInstanceAs (Decidable (_ → _ → _))

/-- Every decrement on its way is covered by the counter. -/
structure Covered (threshold : ℤ) (s : Shared Thread) : Prop where
  pending_le : s.pending.card ≤ s.kcutCnt
  sum_le : s.kcutCnt + s.sinceStore ≤ threshold

omit [DecidableEq Thread] in
lemma Covered.inRange (h : s.Covered threshold) : s.InRange threshold := by
  have hp := h.pending_le
  have hs := h.sum_le
  refine ⟨?_, ?_, ?_⟩ <;> omega

omit [DecidableEq Thread] in
lemma covered_start (hT : 0 ≤ threshold) : (start : Shared Thread).Covered threshold := by
  refine ⟨?_, ?_⟩
  · simp [start, pending]
  · simpa [start] using hT

/-- One step under the condition. -/
lemma Covered.step (h : s.Covered threshold) (ht : s.TestCovered t) :
    (s.step threshold t).Covered threshold := by
  have hp := h.pending_le
  have hs := h.sum_le
  cases hpc : s.pc t with
  | outside =>
    by_cases hc : s.kcutCnt = 0
    · rw [step_outside_zero hpc hc]
      refine ⟨?_, hs⟩
      have hle : (s.pending.erase t).card ≤ s.pending.card := Finset.card_erase_le
      rw [pending_moveTo s t (by decide)]
      simp only [moveTo]
      omega
    · rw [step_outside_ne_zero hpc hc]
      refine ⟨?_, hs⟩
      have hcov := ht hpc hc
      have hle : (insert t s.pending).card ≤ s.pending.card + 1 := Finset.card_insert_le t s.pending
      rw [pending_moveTo_shortcut]
      simp only [moveTo]
      omega
  | shortcut =>
    have hmem : t ∈ s.pending := by simp [hpc]
    have hcard : (s.pending.erase t).card + 1 = s.pending.card :=
      Finset.card_erase_add_one hmem
    have hnext : (s.step threshold t).pending = s.pending.erase t := by
      rw [step_shortcut hpc]
      exact pending_moveTo s t (by decide)
    refine ⟨?_, ?_⟩
    · rw [hnext, step_shortcut hpc]
      simp only
      omega
    · rw [step_shortcut hpc]
      simp only
      omega
  | syscall =>
    have hle : (s.pending.erase t).card ≤ s.pending.card := Finset.card_erase_le
    have hnext : (s.step threshold t).pending = s.pending.erase t := by
      rw [step_syscall hpc]
      exact pending_moveTo s t (by decide)
    refine ⟨?_, ?_⟩
    · rw [hnext, step_syscall hpc]
      simp only
      omega
    · rw [step_syscall hpc]
      simp

/-- A test that is not covered leaves more decrements on their way than the
counter has room for. -/
lemma exists_negative_of_not_testCovered (threshold : ℤ) (ht : ¬ s.TestCovered t) :
    ∃ later, (runFrom (step threshold) s (t :: later)).kcutCnt < 0 := by
  simp only [TestCovered, not_forall, not_lt] at ht
  obtain ⟨hpc, hc, hle⟩ := ht
  have hnot : t ∉ s.pending := by simp [hpc]
  refine ⟨(insert t s.pending).toList, ?_⟩
  rw [runFrom_cons, step_outside_ne_zero hpc hc, kcutCnt_run_shortcut _ (Finset.nodup_toList _)]
  · rw [Finset.length_toList, Finset.card_insert_of_notMem hnot]
    simp only [moveTo]
    omega
  · intro u hu
    rw [Finset.mem_toList, ← pending_moveTo_shortcut] at hu
    simpa using hu

/-- For any number of threads, any schedule and any threshold that is not
negative: if every test is covered, the counter is in its range in every state
on the way, so that the real call comes back. Where a schedule could go on with
a test that is not covered, some way to go on takes the counter below zero. -/
theorem kcutCnt_inRange (hT : 0 ≤ threshold) (schedule : List Thread)
    (h : Guarded (step threshold) TestCovered start schedule) :
    (∀ before, before <+: schedule →
      (runFrom (step threshold) start before).InRange threshold) ∧
    ∀ t, ¬ (runFrom (step threshold) start schedule).TestCovered t →
      ∃ later, (runFrom (step threshold) start (schedule ++ t :: later)).kcutCnt < 0 := by
  have hstep : ∀ (s : Shared Thread) (t : Thread), s.Covered threshold → s.TestCovered t →
      (s.step threshold t).Covered threshold := fun s t => Covered.step
  refine ⟨fun before hbefore => ?_, fun t ht => ?_⟩
  · exact (h.invariant_prefix hstep (covered_start hT) hbefore).inRange
  · obtain ⟨later, hlater⟩ := exists_negative_of_not_testCovered threshold ht
    refine ⟨later, ?_⟩
    rwa [runFrom, List.foldl_append]

/-- One thread after the other. -/
theorem kcutCnt_inRange_alternating :
    (runFrom (step 1) start [false, false, true, true, false, false]).InRange 1 :=
  (kcutCnt_inRange (by decide) [false, false, true, true, false, false] (by decide)).1 _
    (List.prefix_refl _)

/-- Two threads find the counter at 1 and both decrement: it is -1, and the next
test still takes the shortcut. -/
theorem kcutCnt_runs_away :
    (runFrom (step 1) start [false, false, false, true, false, true]).kcutCnt = -1 ∧
    ¬ (runFrom (step 1) start [false, false, false, true, false, true]).InRange 1 ∧
    (runFrom (step 1) start [false, false, false, true, false, true, false]).pc false =
      .shortcut := by
  refine ⟨by decide, ?_, by decide⟩
  rintro ⟨hneg, -⟩
  exact absurd hneg (by decide)

end Shared

end SymbiOS.Kcut
