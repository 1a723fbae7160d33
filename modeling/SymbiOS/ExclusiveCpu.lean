import SymbiOS.Reservations

/-!
# What an acquired CPU is worth

After a successful acquire the caller is alone on its CPU, but for init, the kernel's
own threads and those that have nowhere else to go. That the masks can be given back
later rests on the saved list, and the calls do not notice a save that fails.
-/
namespace SymbiOS.Evacuate
open SymbiOS.UndoLog

variable {Task : Type} [DecidableEq Task]

/-- A user thread, init excepted. -/
def Movable (k : Kernel Task) (t : Task) : Prop :=
  (k.task t).pid ≠ 1 ∧ (k.task t).kthread = false

lemma shouldPreserveMigrate_eq_false_iff (c : Caller Task) (t : Task) :
    shouldPreserveMigrate c t = false ↔ Movable c.kernel t ∧ t ≠ c.current := by
  unfold shouldPreserveMigrate Movable
  by_cases hpid : (c.kernel.task t).pid = 1
  · simp [hpid]
  · by_cases hk : (c.kernel.task t).kthread = true <;> simp [hpid, hk]

/-- Old mask, online CPUs and not the reserved one. -/
def elsewhere (a : AcquireCall Task) (s : Evac Task) (t : Task) : Cpumask :=
  (s.cpusMask t ∩ a.kernel.online) \ {a.cpu}

lemma elsewhere_eq (a : AcquireCall Task) (s : Evac Task) (t : Task) :
    (a.kernel.online \ {a.cpu}) ∩ s.cpusMask t = elsewhere a s t := by
  ext d
  simp only [elsewhere, Finset.mem_inter, Finset.mem_sdiff, Finset.mem_singleton]
  tauto

/-- The masks that exclusive use of the CPU stands for. -/
structure ExclusiveUse (a : AcquireCall Task) (s s' : Evac Task) : Prop where
  caller : s'.cpusMask a.current = {a.cpu}
  others : ∀ t ∈ a.kernel.threads, t ≠ a.current → Movable a.kernel t →
    s'.cpusMask t =
      if a.cpu ∈ s.cpusMask t ∧ elsewhere a s t ≠ ∅ then elsewhere a s t else s.cpusMask t
  spared : ∀ t, t ≠ a.current → ¬ Movable a.kernel t → s'.cpusMask t = s.cpusMask t
  alone : ∀ t ∈ a.kernel.threads, t ≠ a.current → Movable a.kernel t →
    (∃ d ∈ a.kernel.online, d ≠ a.cpu ∧ d ∈ s.cpusMask t) → a.cpu ∉ s'.cpusMask t
  not_grown : ∀ t, s'.cpusMask t ⊆ s.cpusMask t
  not_emptied : ∀ t, s.cpusMask t ≠ ∅ → s'.cpusMask t ≠ ∅

/-- With several CPUs online, a listed user thread is moved exactly when the reserved
CPU is in its mask and another one is left. -/
lemma moves_iff {a : AcquireCall Task} {s : Evac Task} {t : Task}
    (hmany : a.kernel.online.card ≠ 1) (hlisted : t ∈ a.kernel.threads) (hne : t ≠ a.current)
    (hmov : Movable a.kernel t) :
    Moves a s t ↔ a.cpu ∈ s.cpusMask t ∧ elsewhere a s t ≠ ∅ := by
  have hpres := (shouldPreserveMigrate_eq_false_iff a.toCaller t).mpr ⟨hmov, hne⟩
  unfold Moves Considered
  rw [elsewhere_eq]
  simp [hmany, hlisted, hpres]

lemma Moves.movable {a : AcquireCall Task} {s : Evac Task} {t : Task} (h : Moves a s t) :
    Movable a.kernel t :=
  ((shouldPreserveMigrate_eq_false_iff a.toCaller t).mp h.2.2.1.1).1

lemma evacuated_listed {a : AcquireCall Task} {s : Evac Task} {t : Task}
    (hmany : a.kernel.online.card ≠ 1) (hlisted : t ∈ a.kernel.threads) (hne : t ≠ a.current)
    (hmov : Movable a.kernel t) :
    (evacuated a s).cpusMask t =
      if a.cpu ∈ s.cpusMask t ∧ elsewhere a s t ≠ ∅ then elsewhere a s t else s.cpusMask t := by
  rcases evacuated_other a s hne with ⟨hm, he⟩ | ⟨hm, he⟩
  · rw [if_pos ((moves_iff hmany hlisted hne hmov).mp hm), he, elsewhere_eq]
  · rw [if_neg (mt (moves_iff hmany hlisted hne hmov).mpr hm), he]

lemma evacuated_subset (a : AcquireCall Task) (s : Evac Task)
    (hcpu : a.cpu ∈ s.cpusMask a.current) (t : Task) :
    (evacuated a s).cpusMask t ⊆ s.cpusMask t := by
  by_cases hne : t = a.current
  · subst hne
    rw [evacuated_current, Finset.singleton_subset_iff]
    exact hcpu
  · rcases evacuated_other a s hne with ⟨-, he⟩ | ⟨-, he⟩
    · rw [he]
      exact Finset.inter_subset_right
    · rw [he]

lemma evacuated_ne_empty (a : AcquireCall Task) {s : Evac Task} {t : Task}
    (hfull : s.cpusMask t ≠ ∅) : (evacuated a s).cpusMask t ≠ ∅ := by
  by_cases hne : t = a.current
  · subst hne
    rw [evacuated_current]
    exact Finset.singleton_ne_empty a.cpu
  · rcases evacuated_other a s hne with ⟨hm, he⟩ | ⟨-, he⟩
    · rw [he]
      exact hm.2.2.2
    · rw [he]
      exact hfull

/-- A successful acquire, with several CPUs online and from a CPU that the caller may
use, gives exclusive use of that CPU. -/
theorem acquire_gives_exclusiveUse (a : AcquireCall Task) (s : Evac Task)
    (h : (acquireExclusiveCpu a s).rc = 0) (hmany : 1 < a.kernel.online.card)
    (hcpu : a.cpu ∈ s.cpusMask a.current) :
    ExclusiveUse a s (acquireExclusiveCpu a s).state := by
  obtain ⟨-, hmask, -⟩ := acquireExclusiveCpu_of_rc_eq_zero h
  have hcard : a.kernel.online.card ≠ 1 := by omega
  constructor
  · rw [hmask]
    exact evacuated_current a s
  · intro t hlisted hne hmov
    rw [hmask]
    exact evacuated_listed hcard hlisted hne hmov
  · intro t hne hmov
    rw [hmask]
    rcases evacuated_other a s hne with ⟨hm, -⟩ | ⟨-, he⟩
    · exact absurd hm.movable hmov
    · exact he
  · rintro t hlisted hne hmov ⟨d, hon, hd, hin⟩
    have hleft : elsewhere a s t ≠ ∅ := by
      apply Finset.ne_empty_of_mem (a := d)
      simp [elsewhere, hon, hd, hin]
    rw [hmask, evacuated_listed hcard hlisted hne hmov]
    by_cases hc : a.cpu ∈ s.cpusMask t
    · rw [if_pos ⟨hc, hleft⟩]
      simp [elsewhere]
    · rw [if_neg fun hboth => hc hboth.1]
      exact hc
  · intro t
    rw [hmask]
    exact evacuated_subset a s hcpu t
  · intro t hfull
    rw [hmask]
    exact evacuated_ne_empty a hfull

/-- One thread takes CPU 0 and the other one is left with CPU 1. -/
theorem exclusiveUse_two_threads :
    (acquireExclusiveCpu (acquireOn true 0) (idle fun _ => {0, 1})).rc = 0 ∧
    ExclusiveUse (acquireOn true 0) (idle fun _ => {0, 1})
      (acquireExclusiveCpu (acquireOn true 0) (idle fun _ => {0, 1})).state :=
  ⟨by decide, acquire_gives_exclusiveUse (acquireOn true 0) (idle fun _ => {0, 1})
    (by decide) (by decide) (by decide)⟩

lemma migrateThread_mem_iff (a : AcquireCall Task) (othermask : Cpumask) (acc : Evac Task × ℤ)
    (t : Task) (e : Task × Cpumask) :
    e ∈ (migrateThread a othermask acc t).1.savedAffinities ↔
      e ∈ acc.1.savedAffinities ∨
        e = (t, acc.1.cpusMask t) ∧ Considered a (acc.1.cpusMask t) t ∧ a.kmalloc t = true := by
  rw [migrateThread_eq]
  by_cases hc : Considered a (acc.1.cpusMask t) t
  · by_cases he : othermask ∩ acc.1.cpusMask t = ∅
    · by_cases hk : a.kmalloc t = true <;> simp [hc, he, hk, or_comm]
    · by_cases hk : a.kmalloc t = true <;> simp [hc, he, hk, or_comm]
  · simp [hc]

/-- The thread loop logs a thread at its first visit or not at all. -/
lemma foldl_migrateThread_mem_iff (a : AcquireCall Task) {othermask : Cpumask}
    (ho : a.cpu ∉ othermask) (ts : List Task) (acc : Evac Task × ℤ) (e : Task × Cpumask) :
    e ∈ (ts.foldl (migrateThread a othermask) acc).1.savedAffinities ↔
      e ∈ acc.1.savedAffinities ∨
        e.1 ∈ ts ∧ e.2 = acc.1.cpusMask e.1 ∧ Considered a (acc.1.cpusMask e.1) e.1 ∧
          a.kmalloc e.1 = true := by
  induction ts generalizing acc with
  | nil => simp
  | cons t ts ih =>
    rw [List.foldl_cons, ih, migrateThread_mem_iff, migrateThread_cpusMask]
    by_cases ht : e.1 = t
    · subst ht
      rw [if_pos rfl]
      -- a thread that has been moved is not looked at again
      have hagain : Considered a (migratedMask a othermask (acc.1.cpusMask e.1) e.1) e.1 →
          migratedMask a othermask (acc.1.cpusMask e.1) e.1 = acc.1.cpusMask e.1 := by
        intro hc
        unfold migratedMask at hc ⊢
        split at hc
        · exact absurd (Finset.mem_inter.mp hc.2).1 ho
        · rename_i hstay
          rw [if_neg hstay]
      have hentry : e = (e.1, acc.1.cpusMask e.1) ↔ e.2 = acc.1.cpusMask e.1 := by
        rw [Prod.ext_iff]
        simp
      rw [hentry]
      constructor
      · rintro ((hold | hnew) | ⟨-, hmask, hc, hk⟩)
        · exact Or.inl hold
        · exact Or.inr ⟨List.mem_cons_self, hnew⟩
        · rw [hagain hc] at hmask hc
          exact Or.inr ⟨List.mem_cons_self, hmask, hc, hk⟩
      · rintro (hold | ⟨-, hnew⟩)
        · exact Or.inl (Or.inl hold)
        · exact Or.inl (Or.inr hnew)
    · have hentry : e ≠ (t, acc.1.cpusMask t) := fun he => ht (congrArg Prod.fst he)
      simp [ht, hentry]

/-- What an evacuation adds to the list: the present mask of each task that it logs. -/
lemma evacuated_mem_iff (a : AcquireCall Task) (s : Evac Task) (t : Task) (m : Cpumask) :
    (t, m) ∈ (evacuated a s).savedAffinities ↔
      (t, m) ∈ s.savedAffinities ∨ Logs a s t ∧ m = s.cpusMask t ∧ a.kmalloc t = true := by
  have hpin : (t, m) ∈ (pinCurrent a s).savedAffinities ↔
      (t, m) ∈ s.savedAffinities ∨ t = a.current ∧ m = s.cpusMask t ∧ a.kmalloc t = true := by
    unfold pinCurrent
    by_cases ht : t = a.current
    · subst ht
      by_cases hk : a.kmalloc a.current = true <;> simp [hk, or_comm]
    · by_cases hk : a.kmalloc a.current = true <;> simp [hk, ht]
  by_cases hone : a.kernel.online.card = 1
  · rw [evacuated, if_pos hone, hpin]
    simp [Logs, hone]
  · rw [evacuated, if_neg hone, migrateothers,
      foldl_migrateThread_mem_iff a (cpu_not_mem_othermask a), hpin, pinCurrent_cpusMask]
    by_cases ht : t = a.current
    · subst ht
      simp [Logs, not_considered_current]
    · simp only [Function.update_of_ne ht, ht, false_and, or_false, Logs, hone, ne_eq,
        not_false_eq_true, true_and, false_or]
      tauto

/-- The call overwrites the mask of this task: it pins the task or moves it. -/
def Overwrites (a : AcquireCall Task) (s : Evac Task) (t : Task) : Prop :=
  t = a.current ∧ s.cpusMask t ≠ {a.cpu} ∨ Moves a s t

lemma Overwrites.logs {a : AcquireCall Task} {s : Evac Task} {t : Task}
    (h : Overwrites a s t) : Logs a s t := by
  rcases h with ⟨hcur, -⟩ | hm
  · exact Or.inl hcur
  · exact hm.logs

lemma Overwrites.alive {a : AcquireCall Task} {s : Evac Task} {t : Task}
    (h : Overwrites a s t) : a.kernel.pidAlive t = true := by
  rcases h with ⟨rfl, -⟩ | hm
  · exact current_alive a.toCaller
  · exact a.kernel.threads_alive t hm.2.1

lemma evacuated_ne_iff (a : AcquireCall Task) (s : Evac Task) (t : Task) :
    (evacuated a s).cpusMask t ≠ s.cpusMask t ↔ Overwrites a s t := by
  unfold Overwrites
  by_cases ht : t = a.current
  · subst ht
    have hm : ¬ Moves a s a.current := fun hm => hm.ne_current rfl
    rw [evacuated_current]
    simp [hm, ne_comm]
  · rcases evacuated_other a s ht with ⟨hm, he⟩ | ⟨hm, he⟩
    · rw [he]
      exact iff_of_true hm.mask_ne (Or.inr hm)
    · rw [he]
      simp [ht, hm]

/-- The mask a task had before anything was saved for it. -/
def originalMask (s : Evac Task) (t : Task) : Cpumask := recovered s.savedAffinities s.cpusMask t

/-- Each task whose mask the call changes has an entry with the mask from before, and
a later release gives a living one its original mask back. -/
def SavesOriginals (a : AcquireCall Task) (s : Evac Task) : Prop :=
  ∀ t, (acquireExclusiveCpu a s).state.cpusMask t ≠ s.cpusMask t →
    (t, s.cpusMask t) ∈ (acquireExclusiveCpu a s).state.savedAffinities ∧
    ∀ c : Caller Task, c.kernel.pidAlive t = true →
      (releaseExclusiveCpu c (acquireExclusiveCpu a s).state).cpusMask t = originalMask s t

/-- A mask that is overwritten could be saved, or is on the list already; and a call
that fails finds no reservation to undo. -/
structure Savable (a : AcquireCall Task) (s : Evac Task) : Prop where
  saved : Proceeds a → ∀ t, Overwrites a s t →
    a.kmalloc t = true ∨ (t, s.cpusMask t) ∈ s.savedAffinities
  unreserved : Fails a → ∀ t, a.kernel.pidAlive t = true →
    ∀ m, oldest t s.savedAffinities = some m → m = s.cpusMask t

/-- Undoing an evacuation gives one task its mask back. -/
lemma undone_eq_iff (a : AcquireCall Task) (s : Evac Task) (t : Task) :
    (restoreSavedAffinities a.toCaller (evacuated a s)).2.cpusMask t = s.cpusMask t ↔
      (Overwrites a s t → a.kmalloc t = true ∨ (t, s.cpusMask t) ∈ s.savedAffinities) ∧
      (a.kernel.pidAlive t = true →
        ∀ m, oldest t s.savedAffinities = some m → m = s.cpusMask t) := by
  rw [restoreSavedAffinities_cpusMask, recovered, evacuated_oldest]
  by_cases hover : Overwrites a s t
  · rw [if_pos hover.alive]
    cases hold : oldest t s.savedAffinities with
    | some m =>
      have hmem := mem_of_oldest hold
      constructor
      · intro he
        have hm : m = s.cpusMask t := he
        rw [hm] at hmem
        exact ⟨fun _ => Or.inr hmem, fun _ m' hm' => (Option.some.inj hm').symm.trans hm⟩
      · intro h
        exact h.2 hover.alive m rfl
    | none =>
      have hmem := not_mem_of_oldest_eq_none hold (s.cpusMask t)
      have hne := (evacuated_ne_iff a s t).mpr hover
      by_cases hk : a.kmalloc t = true
      · simp [hover.logs, hk]
      · simpa [hk, hmem, hover] using hne
  · have hsame : (evacuated a s).cpusMask t = s.cpusMask t :=
      not_not.mp (mt (evacuated_ne_iff a s t).mp hover)
    rw [hsame]
    by_cases halive : a.kernel.pidAlive t = true
    · rw [if_pos halive]
      cases hold : oldest t s.savedAffinities with
      | some m => simp [hover, halive]
      | none => by_cases hl : Logs a s t ∧ a.kmalloc t = true <;> simp [hover, hl]
    · simp [hover, halive]

/-- A successful call leaves the entries of the evacuation behind. -/
lemma savesOriginals_iff_of_succeeds {a : AcquireCall Task} {s : Evac Task}
    (h : (acquireExclusiveCpu a s).rc = 0) :
    SavesOriginals a s ↔ ∀ t, Overwrites a s t →
      a.kmalloc t = true ∨ (t, s.cpusMask t) ∈ s.savedAffinities := by
  obtain ⟨-, hmask, hsaved⟩ := acquireExclusiveCpu_of_rc_eq_zero h
  unfold SavesOriginals
  simp only [hmask, hsaved, evacuated_ne_iff, evacuated_mem_iff, true_and,
    releaseExclusiveCpu_cpusMask, recovered, evacuated_oldest, originalMask]
  constructor
  · intro hall t hover
    rcases (hall t hover).1 with hold | ⟨-, hk⟩
    · exact Or.inr hold
    · exact Or.inl hk
  · intro hall t hover
    refine ⟨?_, fun c halive => ?_⟩
    · rcases hall t hover with hk | hold
      · exact Or.inr ⟨hover.logs, hk⟩
      · exact Or.inl hold
    · rw [if_pos halive]
      cases hold : oldest t s.savedAffinities with
      | some m => rfl
      | none =>
        have hk := (hall t hover).resolve_right (not_mem_of_oldest_eq_none hold _)
        simp [hover.logs, hk]

/-- A failed call leaves no entry, so it must not leave a changed mask either. -/
lemma savesOriginals_iff_of_fails {a : AcquireCall Task} {s : Evac Task}
    (h : (acquireExclusiveCpu a s).state.savedAffinities = []) :
    SavesOriginals a s ↔ ∀ t, (acquireExclusiveCpu a s).state.cpusMask t = s.cpusMask t := by
  unfold SavesOriginals
  rw [h]
  constructor
  · intro hall t
    by_contra hne
    exact List.not_mem_nil (hall t hne).1
  · intro hall t hne
    exact absurd (hall t) hne

/-- For every pattern of failing allocations: exactly when each mask that an acquire
changes has been saved. -/
theorem savesOriginals_iff (a : AcquireCall Task) (s : Evac Task) :
    SavesOriginals a s ↔ Savable a s := by
  by_cases hp : Proceeds a
  · rcases (acquireExclusiveCpu_of_proceeds hp s).2.2 with ⟨hz, -⟩ | ⟨hrc, hstate⟩
    · have hok : ¬ Fails a := fun hf => (acquireExclusiveCpu_rc_ne_zero_iff a s).mpr hf hz
      rw [savesOriginals_iff_of_succeeds hz]
      exact ⟨fun hall => ⟨fun _ => hall, fun hf => absurd hf hok⟩, fun hs => hs.saved hp⟩
    · have hf := (acquireExclusiveCpu_rc_ne_zero_iff a s).mp hrc
      rw [savesOriginals_iff_of_fails (by rw [hstate]; simp), hstate]
      simp only [undone_eq_iff, forall_and]
      constructor
      · intro h
        exact ⟨fun _ => h.1, fun _ => h.2⟩
      · intro hs
        exact ⟨hs.saved hp, hs.unreserved hf⟩
  · have hstate := (acquireExclusiveCpu_of_not_proceeds hp s).2
    have hf : Fails a := Or.inl hp
    have hrestored : (∀ t, (acquireExclusiveCpu a s).state.cpusMask t = s.cpusMask t) ↔
        ∀ t, a.kernel.pidAlive t = true →
          ∀ m, oldest t s.savedAffinities = some m → m = s.cpusMask t := by
      rw [hstate]
      exact forall_congr' fun t =>
        restored_iff (P := fun m => m = s.cpusMask t) a.toCaller s t rfl
    rw [savesOriginals_iff_of_fails (by rw [hstate]; simp), hrestored]
    exact ⟨fun hu => ⟨fun h => absurd h hp, fun _ => hu⟩, fun hs => hs.unreserved hf⟩

/-- The allocation for the other thread fails: it is moved off CPU 0 for good, also
after the release. -/
theorem failed_save_loses_mask :
    (acquireExclusiveCpu { acquireOn true 0 with kmalloc := fun t => t }
      (idle fun _ => {0, 1})).rc = 0 ∧
    ¬ SavesOriginals { acquireOn true 0 with kmalloc := fun t => t } (idle fun _ => {0, 1}) ∧
    (releaseExclusiveCpu (callerOf true)
      (acquireExclusiveCpu { acquireOn true 0 with kmalloc := fun t => t }
        (idle fun _ => {0, 1})).state).cpusMask false = {1} := by
  refine ⟨by decide, fun h => ?_, by decide⟩
  have hentry := (h false (by decide)).1
  exact absurd hentry (by decide)

end SymbiOS.Evacuate
