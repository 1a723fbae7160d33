import SymbiOS.Evacuate
import Mathlib.Logic.Relation

/-!
# Whom `killothers` signals

On a single CPU the others can only be killed. Which threads are spared is decided
thread by thread, by pointer, parent chain and session, while a SIGKILL ends the whole
thread group of the thread that it is sent to.
-/
namespace SymbiOS.Evacuate

def EVAC_MIGRATE_ONLY : ℤ := 0
def EVAC_KILL_NICELY : ℤ := 1
def EVAC_KILL_ALLOTHERS : ℤ := 2

variable {Task : Type} {c : Caller Task}

/-- The processes. The threads of one group share a `signal_struct`, which has their
session, and a thread that is listed has one. -/
structure ThreadGroups (k : Kernel Task) where
  tgid : Task → ℕ
  signal_set : ∀ t ∈ k.threads, (k.task t).signal = true
  session_eq : ∀ t u, tgid t = tgid u → (k.task t).session = (k.task u).session

/-- One step of the walk, which ends at init. -/
def Parent (k : Kernel Task) (t p : Task) : Prop :=
  1 < (k.task t).pid ∧ (k.task t).realParent = some p

/-- The task is the caller, or is reached from it over `real_parent`. -/
def OnChain (c : Caller Task) (t : Task) : Prop :=
  Relation.ReflTransGen (Parent c.kernel) c.current t

variable [DecidableEq Task]

lemma isAncestorFrom_none (k : Kernel Task) (task : Task) (n : ℕ) :
    isAncestorFrom k task n none = false := by
  cases n <;> rfl

/-- With fuel for the depth of the chain, the walk finds what is on it. -/
lemma isAncestorFrom_iff (k : Kernel Task) (task : Task) {n : ℕ} {t : Task}
    (hn : k.depth t < n) : isAncestorFrom k task n (some t) = true ↔
      Relation.ReflTransGen (Parent k) t task ∧ 1 < (k.task task).pid := by
  induction n generalizing t with
  | zero => omega
  | succ n ih =>
    rw [isAncestorFrom]
    by_cases hpid : 1 < (k.task t).pid
    · rw [if_pos hpid]
      by_cases ht : t = task
      · subst ht
        simp [hpid, Relation.ReflTransGen.refl]
      · rw [if_neg ht]
        cases hp : (k.task t).realParent with
        | none =>
          rw [isAncestorFrom_none]
          refine iff_of_false (by simp) ?_
          rintro ⟨hchain, -⟩
          rcases hchain.cases_head with heq | ⟨p, hparent, -⟩
          · exact ht heq
          · cases hp.symm.trans hparent.2
        | some p =>
          have hdepth := k.depth_realParent t p hpid hp
          rw [ih (by omega)]
          constructor
          · rintro ⟨hchain, htask⟩
            exact ⟨hchain.head ⟨hpid, hp⟩, htask⟩
          · rintro ⟨hchain, htask⟩
            rcases hchain.cases_head with heq | ⟨q, hparent, hrest⟩
            · exact absurd heq ht
            · have hq : q = p := Option.some.inj (hparent.2.symm.trans hp)
              exact ⟨hq ▸ hrest, htask⟩
    · rw [if_neg hpid]
      refine iff_of_false (by simp) ?_
      rintro ⟨hchain, htask⟩
      rcases hchain.cases_head with heq | ⟨p, hparent, -⟩
      · exact hpid (heq ▸ htask)
      · exact hpid hparent.1

lemma isAncestor_iff (c : Caller Task) (t : Task) :
    isAncestor c t = true ↔ OnChain c t ∧ 1 < (c.kernel.task t).pid :=
  isAncestorFrom_iff c.kernel t (Nat.lt_succ_self _)

/-- The thread is spared whatever its session: it is init, a kernel thread, the caller
or on the chain. -/
def Exempt (c : Caller Task) (t : Task) : Prop :=
  (c.kernel.task t).pid = 1 ∨ (c.kernel.task t).kthread = true ∨ t = c.current ∨
    OnChain c t ∧ 1 < (c.kernel.task t).pid

lemma shouldPreserveKill_iff (g : ThreadGroups c.kernel) {t : Task} (ht : t ∈ c.kernel.threads) :
    shouldPreserveKill c t = true ↔
      Exempt c t ∨ (c.kernel.task t).session = (c.kernel.task c.current).session := by
  have hsignal := g.signal_set t ht
  have hcurrent := g.signal_set c.current c.current_mem
  unfold shouldPreserveKill shouldPreserveMigrate Exempt
  rw [← isAncestor_iff]
  by_cases hpid : (c.kernel.task t).pid = 1
  · simp [hpid]
  · by_cases hk : (c.kernel.task t).kthread = true
    · simp [hpid, hk]
    · by_cases hcur : t = c.current
      · simp [hcur]
      · by_cases hanc : isAncestor c t = true <;> simp [hpid, hk, hcur, hanc, hsignal, hcurrent]

/-- The threads that are counted, below `EVAC_KILL_ALLOTHERS`. -/
lemma mem_killTargets_iff {mode : ℤ} (hmode : mode < 2) {t : Task} :
    t ∈ killTargets c mode ↔ t ∈ c.kernel.threads ∧ shouldPreserveKill c t = false := by
  simp [killTargets, hmode]

/-- The thread group has the caller, init or a task of the chain in it. -/
def Related (c : Caller Task) (g : ThreadGroups c.kernel) (t : Task) : Prop :=
  ∃ u, g.tgid u = g.tgid t ∧ ((c.kernel.task u).pid = 1 ∨ OnChain c u)

/-- No thread of such a group is signalled. -/
def SparesRelated (c : Caller Task) (g : ThreadGroups c.kernel) : Prop :=
  ∀ t ∈ (killothers c EVAC_KILL_NICELY).2, ¬ Related c g t

/-- Exactly when nice killing spares the caller's ancestors as processes: in another
session than the caller's, each of their threads has to be exempt by itself. -/
theorem sparesRelated_iff (c : Caller Task) (g : ThreadGroups c.kernel) :
    SparesRelated c g ↔
      ∀ t ∈ c.kernel.threads, Related c g t →
        (c.kernel.task t).session ≠ (c.kernel.task c.current).session → Exempt c t := by
  have hsignalled (t : Task) : t ∈ (killothers c EVAC_KILL_NICELY).2 ↔
      t ∈ c.kernel.threads ∧ shouldPreserveKill c t = false :=
    mem_killTargets_iff (by decide)
  unfold SparesRelated
  simp only [hsignalled]
  constructor
  · intro hspared t ht hrel hsession
    by_contra hexempt
    have hkill : shouldPreserveKill c t = false := by
      rw [← Bool.not_eq_true, shouldPreserveKill_iff g ht]
      exact not_or.mpr ⟨hexempt, hsession⟩
    exact hspared t ⟨ht, hkill⟩ hrel
  · rintro hexempt t ⟨ht, hkill⟩ hrel
    rw [← Bool.not_eq_true, shouldPreserveKill_iff g ht, not_or] at hkill
    exact hkill.1 (hexempt t ht hrel hkill.2)

/-- Init, a process with two threads, and a child of the first that has a session of
its own. -/
inductive Kin
  | init
  | parent
  | worker
  | child
  deriving DecidableEq, Repr

def family : Kernel Kin where
  task
    | .init => ⟨1, false, none, true, 1⟩
    | .parent => ⟨200, false, some .init, true, 200⟩
    | .worker => ⟨201, false, some .init, true, 200⟩
    | .child => ⟨300, false, some .parent, true, 300⟩
  threads := [.init, .parent, .worker, .child]
  pidAlive _ := true
  online := {0}
  nrCpuIds := 1
  depth
    | .init => 0
    | .parent => 1
    | .worker => 1
    | .child => 2
  depth_realParent := by
    intro t p _ hp
    cases t <;> cases hp <;> decide
  threads_alive := by simp

def familyGroups : ThreadGroups family where
  tgid
    | .init => 1
    | .parent => 200
    | .worker => 200
    | .child => 300
  signal_set := by
    intro t _
    cases t <;> rfl
  session_eq := by
    intro t u h
    cases t <;> cases u <;> first | rfl | exact absurd h (by decide)

def child : Caller Kin := ⟨family, .child, by decide⟩

/-- The second thread of the parent is signalled, which ends the parent. -/
theorem parent_process_killed :
    Kin.worker ∈ (killothers child EVAC_KILL_NICELY).2 ∧
    ¬ SparesRelated child familyGroups := by
  have hsignalled : Kin.worker ∈ (killothers child EVAC_KILL_NICELY).2 := by decide
  have hparent : Parent family .child .parent := ⟨by decide, rfl⟩
  refine ⟨hsignalled, fun h => h .worker hsignalled ⟨.parent, rfl, Or.inr ?_⟩⟩
  exact Relation.ReflTransGen.single hparent

/-- Neither the caller nor a thread of its group is signalled; and without killing
nobody is, while the count is that of the threads nice killing would signal. -/
structure SparesCaller (c : Caller Task) (g : ThreadGroups c.kernel) (killifneeded : ℤ) :
    Prop where
  group : ∀ t ∈ (killothers c killifneeded).2,
    t ≠ c.current ∧ g.tgid t ≠ g.tgid c.current
  migrateOnly : killifneeded = EVAC_MIGRATE_ONLY →
    (killothers c killifneeded).2 = [] ∧
    (killothers c killifneeded).1 = (killothers c EVAC_KILL_NICELY).2.length

/-- The siblings of the caller are in its session. -/
lemma shouldPreserveKill_of_group (g : ThreadGroups c.kernel) {t : Task}
    (ht : t ∈ c.kernel.threads) (hgroup : g.tgid t = g.tgid c.current) :
    shouldPreserveKill c t = true :=
  (shouldPreserveKill_iff g ht).mpr (Or.inr (g.session_eq t c.current hgroup))

/-- For each of the three modes: exactly when the caller survives. -/
theorem sparesCaller_iff (c : Caller Task) (g : ThreadGroups c.kernel) (killifneeded : ℤ)
    (hmode : killifneeded = EVAC_MIGRATE_ONLY ∨ killifneeded = EVAC_KILL_NICELY ∨
      killifneeded = EVAC_KILL_ALLOTHERS) :
    SparesCaller c g killifneeded ↔ killifneeded ≠ EVAC_KILL_ALLOTHERS := by
  constructor
  · rintro hspared rfl
    have hsignalled : c.current ∈ (killothers c EVAC_KILL_ALLOTHERS).2 := by
      simp [killothers, killTargets, EVAC_KILL_ALLOTHERS, c.current_mem]
    exact (hspared.group c.current hsignalled).1 rfl
  · intro hne
    have hlow : killifneeded < 2 := by
      rcases hmode with rfl | rfl | rfl
      · decide
      · decide
      · exact absurd rfl hne
    constructor
    · intro t ht
      have htarget : t ∈ killTargets c killifneeded := by
        unfold killothers at ht
        split at ht
        · exact ht
        · cases ht
      obtain ⟨hlisted, hkill⟩ := (mem_killTargets_iff hlow).mp htarget
      have hgroup : g.tgid t ≠ g.tgid c.current := by
        intro he
        rw [shouldPreserveKill_of_group g hlisted he] at hkill
        cases hkill
      exact ⟨fun he => hgroup (congrArg g.tgid he), hgroup⟩
    · rintro rfl
      exact ⟨rfl, rfl⟩

/-- Nice killing spares the caller. -/
theorem child_spared : SparesCaller child familyGroups EVAC_KILL_NICELY :=
  (sparesCaller_iff child familyGroups EVAC_KILL_NICELY (Or.inr (Or.inl rfl))).mpr (by decide)

/-- Killing all others kills the caller too. -/
theorem caller_kills_itself :
    Kin.child ∈ (killothers child EVAC_KILL_ALLOTHERS).2 ∧
    ¬ SparesCaller child familyGroups EVAC_KILL_ALLOTHERS := by
  have hsignalled : Kin.child ∈ (killothers child EVAC_KILL_ALLOTHERS).2 := by decide
  exact ⟨hsignalled, fun h => (h.group .child hsignalled).1 rfl⟩

end SymbiOS.Evacuate
