import SymbiOS.Evacuate

/-!
# What one evacuation call does to masks and to the saved list

`saved_affinities` is an undo log of `cpus_mask`. Each function is described by
its effect on the mask of a task and on the oldest entry logged for it; the
restore loop is the replay of the log.
-/
namespace SymbiOS.Evacuate
open SymbiOS.UndoLog

variable {Task : Type} [DecidableEq Task]

@[simp] theorem saveTaskAffinity_cpusMask (ok : Bool) (t : Task) (s : Evac Task) :
    (saveTaskAffinity ok t s).2.cpusMask = s.cpusMask := by
  cases ok <;> rfl

@[simp] theorem saveTaskAffinity_savedAffinities (ok : Bool) (t : Task) (s : Evac Task) :
    (saveTaskAffinity ok t s).2.savedAffinities =
      if ok then (t, s.cpusMask t) :: s.savedAffinities else s.savedAffinities := by
  cases ok <;> rfl

@[simp] theorem setCpusAllowedPtr_cpusMask (t : Task) (m : Cpumask) (s : Evac Task) :
    (setCpusAllowedPtr t m s).cpusMask = Function.update s.cpusMask t m := rfl

@[simp] theorem setCpusAllowedPtr_savedAffinities (t : Task) (m : Cpumask) (s : Evac Task) :
    (setCpusAllowedPtr t m s).savedAffinities = s.savedAffinities := rfl

/-- The restore loop drains the list it starts with and replays it. -/
theorem restoreLoop_spec (k : Kernel Task) (current : Task) (n : ℕ) (rc : ℤ) (s : Evac Task)
    (hn : s.savedAffinities.length = n) :
    (restoreLoop k current n rc s).1 =
        (if current ∈ s.savedAffinities.map Prod.fst then 0 else rc) ∧
      (restoreLoop k current n rc s).2.savedAffinities = [] ∧
      (restoreLoop k current n rc s).2.cpusMask =
        replay k.pidAlive s.savedAffinities s.cpusMask := by
  induction n generalizing rc s with
  | zero =>
    have hs : s.savedAffinities = [] := List.length_eq_zero_iff.mp hn
    simp [restoreLoop, hs, replay]
  | succ n ih =>
    rw [restoreLoop]
    split
    · next h => rw [h] at hn; simp at hn
    · next ta rest h =>
      have hlen : (restoreEntry k s ta rest h).savedAffinities.length = n := by
        rw [h] at hn
        simpa [restoreEntry] using hn
      obtain ⟨hrc, hsaved, hmask⟩ :=
        ih (if ta.1 = current then 0 else rc) (restoreEntry k s ta rest h) hlen
      refine ⟨?_, hsaved, ?_⟩
      · rw [hrc, h]
        change (if current ∈ rest.map Prod.fst then 0 else if ta.1 = current then 0 else rc) = _
        simp only [List.map_cons, List.mem_cons]
        by_cases ht : ta.1 = current
        · simp only [ht, if_true, true_or, ite_self]
        · simp only [ht, Ne.symm ht, if_false, false_or]
      · rw [hmask, h]
        rfl

@[simp] theorem restoreSavedAffinities_savedAffinities (c : Caller Task) (s : Evac Task) :
    (restoreSavedAffinities c s).2.savedAffinities = [] :=
  (restoreLoop_spec c.kernel c.current _ (-1) s rfl).2.1

/-- After a restore a living task is back at its oldest saved mask. -/
@[simp] theorem restoreSavedAffinities_cpusMask (c : Caller Task) (s : Evac Task) (t : Task) :
    (restoreSavedAffinities c s).2.cpusMask t =
      if c.kernel.pidAlive t then recovered s.savedAffinities s.cpusMask t else s.cpusMask t := by
  rw [restoreSavedAffinities, (restoreLoop_spec c.kernel c.current _ (-1) s rfl).2.2,
    replay_apply]

/-- The caller is told whether it was itself on the list. -/
theorem restoreSavedAffinities_rc (c : Caller Task) (s : Evac Task) :
    (restoreSavedAffinities c s).1 =
      if c.current ∈ s.savedAffinities.map Prod.fst then 0 else -1 :=
  (restoreLoop_spec c.kernel c.current _ (-1) s rfl).1

@[simp] theorem releaseExclusiveCpu_savedAffinities (c : Caller Task) (s : Evac Task) :
    (releaseExclusiveCpu c s).savedAffinities = [] := by
  simp [releaseExclusiveCpu]

@[simp] theorem releaseExclusiveCpu_cpusMask (c : Caller Task) (s : Evac Task) (t : Task) :
    (releaseExclusiveCpu c s).cpusMask t =
      if c.kernel.pidAlive t then recovered s.savedAffinities s.cpusMask t else s.cpusMask t := by
  simp [releaseExclusiveCpu]

/-- `migrateothers` looks at the mask of this thread and finds the CPU in it. -/
def Considered (a : AcquireCall Task) (m : Cpumask) (t : Task) : Prop :=
  shouldPreserveMigrate a.toCaller t = false ∧ a.cpu ∈ m

instance (a : AcquireCall Task) (m : Cpumask) (t : Task) : Decidable (Considered a m t) :=
  inferInstanceAs (Decidable (_ ∧ _))

@[simp] theorem shouldPreserveMigrate_current (c : Caller Task) :
    shouldPreserveMigrate c c.current = true := by
  simp [shouldPreserveMigrate]

lemma not_considered_current (a : AcquireCall Task) (m : Cpumask) :
    ¬ Considered a m a.current := by
  simp [Considered]

/-- The first test of the loop repeats the last one of `should_preserve_migrate`. -/
lemma migrateThread_eq (a : AcquireCall Task) (othermask : Cpumask) (acc : Evac Task × ℤ)
    (t : Task) : migrateThread a othermask acc t =
      if Considered a (acc.1.cpusMask t) t then
        let s := (saveTaskAffinity (a.kmalloc t) t acc.1).2
        if othermask ∩ acc.1.cpusMask t = ∅ then (s, acc.2)
        else (setCpusAllowedPtr t (othermask ∩ acc.1.cpusMask t) s, acc.2 + 1)
      else acc := by
  by_cases hc : t = a.current
  · subst hc
    rw [if_neg (not_considered_current a _)]
    simp [migrateThread]
  · cases hp : shouldPreserveMigrate a.toCaller t
    · by_cases hm : a.cpu ∈ acc.1.cpusMask t <;> simp [migrateThread, Considered, hc, hp, hm]
    · simp [migrateThread, Considered, hc, hp]

/-- The mask `migrateothers` gives a thread that it visits. -/
def migratedMask (a : AcquireCall Task) (othermask : Cpumask) (m : Cpumask) (t : Task) : Cpumask :=
  if Considered a m t ∧ othermask ∩ m ≠ ∅ then othermask ∩ m else m

lemma migrateThread_cpusMask (a : AcquireCall Task) (othermask : Cpumask) (acc : Evac Task × ℤ)
    (t u : Task) : (migrateThread a othermask acc t).1.cpusMask u =
      if u = t then migratedMask a othermask (acc.1.cpusMask u) u else acc.1.cpusMask u := by
  rw [migrateThread_eq]
  by_cases hu : u = t
  · subst hu
    by_cases hc : Considered a (acc.1.cpusMask u) u
    · by_cases he : othermask ∩ acc.1.cpusMask u = ∅ <;> simp [migratedMask, hc, he]
    · simp [migratedMask, hc]
  · by_cases hc : Considered a (acc.1.cpusMask t) t
    · by_cases he : othermask ∩ acc.1.cpusMask t = ∅ <;> simp [hc, he, hu]
    · simp [hc, hu]

lemma migrateThread_oldest (a : AcquireCall Task) (othermask : Cpumask) (acc : Evac Task × ℤ)
    (t u : Task) : oldest u (migrateThread a othermask acc t).1.savedAffinities =
      (oldest u acc.1.savedAffinities).or
        (if u = t ∧ Considered a (acc.1.cpusMask u) u ∧ a.kmalloc u
          then some (acc.1.cpusMask u) else none) := by
  rw [migrateThread_eq]
  by_cases hc : Considered a (acc.1.cpusMask t) t
  · have hsaved : (if othermask ∩ acc.1.cpusMask t = ∅
        then ((saveTaskAffinity (a.kmalloc t) t acc.1).2, acc.2)
        else (setCpusAllowedPtr t (othermask ∩ acc.1.cpusMask t)
          (saveTaskAffinity (a.kmalloc t) t acc.1).2, acc.2 + 1)).1.savedAffinities =
        (saveTaskAffinity (a.kmalloc t) t acc.1).2.savedAffinities := by
      split <;> rfl
    rw [if_pos hc, hsaved, saveTaskAffinity_savedAffinities]
    by_cases hu : u = t
    · subst hu
      by_cases hk : a.kmalloc u = true <;> simp [hc, hk, oldest]
    · by_cases hk : a.kmalloc t = true <;> simp [hk, hu, Ne.symm hu, oldest]
  · by_cases hu : u = t
    · subst hu; simp [hc]
    · simp [hc, hu]

/-- A thread that has been moved no longer qualifies, so a second visit changes
nothing. -/
lemma migratedMask_idem (a : AcquireCall Task) {othermask : Cpumask} (ho : a.cpu ∉ othermask)
    (m : Cpumask) (t : Task) :
    migratedMask a othermask (migratedMask a othermask m t) t = migratedMask a othermask m t := by
  by_cases h : Considered a m t ∧ othermask ∩ m ≠ ∅
  · have hout : ¬ Considered a (othermask ∩ m) t := fun hc =>
      ho (Finset.mem_inter.mp hc.2).1
    simp [migratedMask, h, hout]
  · simp [migratedMask, h]

/-- The thread loop, seen from one task: its final mask. -/
lemma foldl_migrateThread_cpusMask (a : AcquireCall Task) {othermask : Cpumask}
    (ho : a.cpu ∉ othermask) (ts : List Task) (acc : Evac Task × ℤ) (u : Task) :
    (ts.foldl (migrateThread a othermask) acc).1.cpusMask u =
      if u ∈ ts then migratedMask a othermask (acc.1.cpusMask u) u else acc.1.cpusMask u := by
  induction ts generalizing acc with
  | nil => simp
  | cons t ts ih =>
    rw [List.foldl_cons, ih, migrateThread_cpusMask]
    by_cases hu : u = t
    · subst hu
      by_cases hm : u ∈ ts <;> simp [hm, migratedMask_idem a ho]
    · simp [hu]

/-- The thread loop, seen from one task: the oldest entry logged for it. -/
lemma foldl_migrateThread_oldest (a : AcquireCall Task) (othermask : Cpumask) (ts : List Task)
    (acc : Evac Task × ℤ) (u : Task) :
    oldest u (ts.foldl (migrateThread a othermask) acc).1.savedAffinities =
      (oldest u acc.1.savedAffinities).or
        (if u ∈ ts ∧ Considered a (acc.1.cpusMask u) u ∧ a.kmalloc u
          then some (acc.1.cpusMask u) else none) := by
  induction ts generalizing acc with
  | nil => simp
  | cons t ts ih =>
    rw [List.foldl_cons, ih, migrateThread_oldest, migrateThread_cpusMask]
    by_cases hu : u = t
    · subst hu
      by_cases hc : Considered a (acc.1.cpusMask u) u ∧ a.kmalloc u = true
      · simp [hc]
      · -- a task that was not saved at the first visit is not saved at a later one
        have hlater : ¬ (Considered a (migratedMask a othermask (acc.1.cpusMask u) u) u ∧
            a.kmalloc u = true) := by
          rintro ⟨hc', hk⟩
          by_cases hmoved : Considered a (acc.1.cpusMask u) u ∧ othermask ∩ acc.1.cpusMask u ≠ ∅
          · exact hc ⟨hmoved.1, hk⟩
          · rw [migratedMask, if_neg hmoved] at hc'
            exact hc ⟨hc', hk⟩
        simp [hc, hlater]
    · simp [hu]

/-- A migration never makes the count of moved threads negative. -/
lemma foldl_migrateThread_count (a : AcquireCall Task) (othermask : Cpumask) (ts : List Task)
    (acc : Evac Task × ℤ) (h : 0 ≤ acc.2) :
    0 ≤ (ts.foldl (migrateThread a othermask) acc).2 := by
  induction ts generalizing acc with
  | nil => exact h
  | cons t ts ih =>
    apply ih
    rw [migrateThread_eq]
    by_cases hc : Considered a (acc.1.cpusMask t) t
    · by_cases he : othermask ∩ acc.1.cpusMask t = ∅
      · simpa [hc, he] using h
      · simp only [hc, he, if_true, if_false]; omega
    · simpa [hc] using h

end SymbiOS.Evacuate
