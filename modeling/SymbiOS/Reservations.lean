import SymbiOS.SavedAffinities

/-!
# Reservations over whole runs of acquire and release calls

An acquire either stops before it has touched a mask, or it evacuates its CPU
and then succeeds or undoes. Undoing and releasing both drain the one global
list, so what a run does to a reservation is decided at its drains.
-/
namespace SymbiOS.Evacuate
open SymbiOS.UndoLog

variable {Task : Type} [DecidableEq Task]

/-- The call gets past its checks and both cpumask allocations. -/
def Proceeds (a : AcquireCall Task) : Prop :=
  a.cpu < a.kernel.nrCpuIds ∧ a.cpu ∈ a.kernel.online ∧ a.allocTarget = true ∧ a.allocOther = true

instance (a : AcquireCall Task) : Decidable (Proceeds a) :=
  inferInstanceAs (Decidable (_ ∧ _ ∧ _ ∧ _))

/-- The state in which a call that proceeds tries to boost its priority. -/
def evacuated (a : AcquireCall Task) (s : Evac Task) : Evac Task :=
  if a.kernel.online.card = 1 then pinCurrent a s
  else (migrateothers a (a.kernel.online \ {a.cpu}) (pinCurrent a s)).1

/-- The single-CPU exit: there is no CPU to move the others to, and they may not
be killed. -/
def Refused (a : AcquireCall Task) : Prop :=
  a.kernel.online.card = 1 ∧ a.killifneeded = 0 ∧ killTargets a.toCaller a.killifneeded ≠ []

instance (a : AcquireCall Task) : Decidable (Refused a) :=
  inferInstanceAs (Decidable (_ ∧ _ ∧ _))

/-- A call that proceeds evacuates its CPU, and is then refused or boosted. -/
lemma acquireExclusiveCpu_eq {a : AcquireCall Task} (h : Proceeds a) (s : Evac Task) :
    acquireExclusiveCpu a s =
      if Refused a then
        done a (-EINVAL) true true [.targetMask, .otherMask] [] [] (evacuated a s)
      else
        boost a (if a.kernel.online.card = 1 then (killothers a.toCaller a.killifneeded).2 else [])
          (evacuated a s) := by
  obtain ⟨hnr, hon, ht, ho⟩ := h
  have hcount := foldl_migrateThread_count a (a.kernel.online \ {a.cpu}) a.kernel.threads
    (pinCurrent a s, 0) le_rfl
  have hmk : ¬ (migrateothers a (a.kernel.online \ {a.cpu}) (pinCurrent a s)).2 < 0 :=
    not_lt_of_ge hcount
  have hpos : 0 < (killothers a.toCaller a.killifneeded).1 ↔
      killTargets a.toCaller a.killifneeded ≠ [] := by
    simp [killothers, List.length_pos_iff]
  simp only [acquireExclusiveCpu, if_neg (not_le_of_gt hnr), not_true, hon, ht, ho,
    Bool.not_true, if_false, Bool.false_eq_true, if_neg hmk, hpos, Refused, evacuated]
  by_cases hone : a.kernel.online.card = 1
  · simp only [hone, if_true, true_and]
    by_cases hkill : a.killifneeded = 0 ∧ killTargets a.toCaller a.killifneeded ≠ []
    · rw [if_pos hkill, if_pos hkill]
      simp [killothers, hkill.1]
    · rw [if_neg hkill, if_neg hkill]
  · simp only [hone, if_false, false_and]

/-- Everything a call that proceeds can do: evacuate and succeed, or evacuate
and undo. Both masks are freed once. -/
lemma acquireExclusiveCpu_of_proceeds {a : AcquireCall Task} (h : Proceeds a) (s : Evac Task) :
    (acquireExclusiveCpu a s).allocated = [.targetMask, .otherMask] ∧
    (acquireExclusiveCpu a s).freed = [.targetMask, .otherMask] ∧
    (((acquireExclusiveCpu a s).rc = 0 ∧
        (acquireExclusiveCpu a s).state.cpusMask = (evacuated a s).cpusMask ∧
        (acquireExclusiveCpu a s).state.savedAffinities = (evacuated a s).savedAffinities) ∨
      ((acquireExclusiveCpu a s).rc ≠ 0 ∧
        (acquireExclusiveCpu a s).state =
          (restoreSavedAffinities a.toCaller (evacuated a s)).2)) := by
  rw [acquireExclusiveCpu_eq h]
  by_cases hf : Refused a
  · simp [hf, done, EINVAL]
  · by_cases hr : a.setattr = 0 <;> simp [hf, boost, done, hr]

/-- A call that does not proceed fails and drains the list as it found it. -/
lemma acquireExclusiveCpu_of_not_proceeds {a : AcquireCall Task} (h : ¬ Proceeds a)
    (s : Evac Task) :
    (acquireExclusiveCpu a s).rc ≠ 0 ∧
    (acquireExclusiveCpu a s).state = (restoreSavedAffinities a.toCaller s).2 := by
  by_cases hnr : a.kernel.nrCpuIds ≤ a.cpu
  · simp [acquireExclusiveCpu, hnr, done, EINVAL]
  · by_cases hon : a.cpu ∈ a.kernel.online
    · by_cases ht : a.allocTarget = true
      · have ho : a.allocOther = false := by
          by_contra hne
          exact h ⟨by omega, hon, ht, by simpa using hne⟩
        simp [acquireExclusiveCpu, hnr, hon, ht, ho, done, ENOMEM]
      · simp [acquireExclusiveCpu, hnr, hon, ht, done, ENOMEM]
    · simp [acquireExclusiveCpu, hnr, hon, done, EINVAL]

omit [DecidableEq Task] in
lemma cpu_not_mem_othermask (a : AcquireCall Task) : a.cpu ∉ a.kernel.online \ {a.cpu} := by
  simp

@[simp] theorem pinCurrent_cpusMask (a : AcquireCall Task) (s : Evac Task) :
    (pinCurrent a s).cpusMask = Function.update s.cpusMask a.current {a.cpu} := by
  simp [pinCurrent]

lemma pinCurrent_oldest (a : AcquireCall Task) (s : Evac Task) (t : Task) :
    oldest t (pinCurrent a s).savedAffinities = (oldest t s.savedAffinities).or
      (if t = a.current ∧ a.kmalloc a.current then some (s.cpusMask t) else none) := by
  by_cases hk : a.kmalloc a.current = true
  · by_cases ht : a.current = t
    · subst ht; simp [pinCurrent, hk, oldest]
    · simp [pinCurrent, hk, oldest, ht, Ne.symm ht]
  · simp [pinCurrent, hk]

/-- The threads that a call moves off its CPU. -/
def Moves (a : AcquireCall Task) (s : Evac Task) (t : Task) : Prop :=
  a.kernel.online.card ≠ 1 ∧ t ∈ a.kernel.threads ∧ Considered a (s.cpusMask t) t ∧
    (a.kernel.online \ {a.cpu}) ∩ s.cpusMask t ≠ ∅

/-- The threads whose mask a call logs before it may change them. -/
def Logs (a : AcquireCall Task) (s : Evac Task) (t : Task) : Prop :=
  t = a.current ∨
    a.kernel.online.card ≠ 1 ∧ t ∈ a.kernel.threads ∧ Considered a (s.cpusMask t) t

instance (a : AcquireCall Task) (s : Evac Task) (t : Task) : Decidable (Moves a s t) :=
  inferInstanceAs (Decidable (_ ∧ _ ∧ _ ∧ _))

instance (a : AcquireCall Task) (s : Evac Task) (t : Task) : Decidable (Logs a s t) :=
  inferInstanceAs (Decidable (_ ∨ _ ∧ _ ∧ _))

lemma Moves.ne_current {a : AcquireCall Task} {s : Evac Task} {t : Task} (h : Moves a s t) :
    t ≠ a.current := by
  rintro rfl
  exact not_considered_current a _ h.2.2.1

lemma Moves.logs {a : AcquireCall Task} {s : Evac Task} {t : Task} (h : Moves a s t) :
    Logs a s t := Or.inr ⟨h.1, h.2.1, h.2.2.1⟩

lemma evacuated_current (a : AcquireCall Task) (s : Evac Task) :
    (evacuated a s).cpusMask a.current = {a.cpu} := by
  by_cases hone : a.kernel.online.card = 1
  · simp [evacuated, hone]
  · rw [evacuated, if_neg hone, migrateothers,
      foldl_migrateThread_cpusMask a (cpu_not_mem_othermask a)]
    simp [migratedMask, not_considered_current]

/-- Any other task keeps its mask, or loses the reserved CPU from it. -/
lemma evacuated_other (a : AcquireCall Task) (s : Evac Task) {t : Task} (ht : t ≠ a.current) :
    (Moves a s t ∧ (evacuated a s).cpusMask t = (a.kernel.online \ {a.cpu}) ∩ s.cpusMask t) ∨
      (¬ Moves a s t ∧ (evacuated a s).cpusMask t = s.cpusMask t) := by
  by_cases hone : a.kernel.online.card = 1
  · right
    simp [evacuated, hone, Moves, ht]
  · rw [evacuated, if_neg hone, migrateothers,
      foldl_migrateThread_cpusMask a (cpu_not_mem_othermask a), pinCurrent_cpusMask,
      Function.update_of_ne ht]
    by_cases hm : Moves a s t
    · left
      refine ⟨hm, ?_⟩
      rw [if_pos hm.2.1, migratedMask, if_pos hm.2.2]
    · right
      refine ⟨hm, ?_⟩
      by_cases hmem : t ∈ a.kernel.threads
      · rw [if_pos hmem, migratedMask, if_neg fun h => hm ⟨hone, hmem, h⟩]
      · rw [if_neg hmem]

/-- What an evacuation logs for a task, behind the entries it already has. -/
lemma evacuated_oldest (a : AcquireCall Task) (s : Evac Task) (t : Task) :
    oldest t (evacuated a s).savedAffinities = (oldest t s.savedAffinities).or
      (if Logs a s t ∧ a.kmalloc t then some (s.cpusMask t) else none) := by
  by_cases hone : a.kernel.online.card = 1
  · rw [evacuated, if_pos hone, pinCurrent_oldest]
    by_cases ht : t = a.current
    · subst ht; simp [Logs]
    · simp [Logs, ht, hone]
  · rw [evacuated, if_neg hone, migrateothers, foldl_migrateThread_oldest, pinCurrent_oldest,
      pinCurrent_cpusMask]
    by_cases ht : t = a.current
    · subst ht; simp [Logs, not_considered_current]
    · simp [Logs, ht, hone, and_assoc]

def twoThreads : Kernel Bool where
  task t := ⟨if t then 201 else 200, false, none, true, if t then 1 else 0⟩
  threads := [false, true]
  pidAlive _ := true
  online := {0, 1}
  nrCpuIds := 2
  depth _ := 0
  depth_realParent := by simp
  threads_alive := by simp

/-- Nothing is saved, and the threads have the given masks. -/
def idle (mask : Bool → Cpumask) : Evac Bool where
  cpusMask := mask
  savedAffinities := []
  sched _ := normalAttr
  gets _ := 0
  puts _ := 0
  refs_balanced := by simp

def callerOf (t : Bool) : Caller Bool := ⟨twoThreads, t, by cases t <;> decide⟩

/-- A call in which every allocation and the boost succeed. -/
def acquireOn (t : Bool) (cpu : ℕ) : AcquireCall Bool :=
  { callerOf t with
    cpu := cpu
    killifneeded := 1
    allocTarget := true
    allocOther := true
    kmalloc := fun _ => true
    setattr := 0 }

/-- When every save succeeds, an evacuation does not change what the log
recovers: each mask it overwrites has an entry by then. -/
lemma evacuated_recovered {a : AcquireCall Task} (hk : ∀ t, a.kmalloc t = true) (s : Evac Task) :
    recovered (evacuated a s).savedAffinities (evacuated a s).cpusMask =
      recovered s.savedAffinities s.cpusMask := by
  funext t
  simp only [recovered, evacuated_oldest, hk, and_true]
  cases oldest t s.savedAffinities with
  | some v => simp
  | none =>
    by_cases hl : Logs a s t
    · simp [hl]
    · rcases evacuated_other a s (fun h => hl (Or.inl h)) with ⟨hm, _⟩ | ⟨_, h⟩
      · exact absurd hm.logs hl
      · simp [hl, h]

/-- The state after a sequence of acquires. -/
def acquireAll : List (AcquireCall Task) → Evac Task → Evac Task
  | [], s => s
  | a :: calls, s => acquireAll calls (acquireExclusiveCpu a s).state

/-- Every acquire of the sequence returns 0. -/
def AllSucceed : List (AcquireCall Task) → Evac Task → Prop
  | [], _ => True
  | a :: calls, s =>
      (acquireExclusiveCpu a s).rc = 0 ∧ AllSucceed calls (acquireExclusiveCpu a s).state

/-- A successful acquire leaves the masks and the log of the evacuation. -/
lemma acquireExclusiveCpu_of_rc_eq_zero {a : AcquireCall Task} {s : Evac Task}
    (h : (acquireExclusiveCpu a s).rc = 0) : Proceeds a ∧
      (acquireExclusiveCpu a s).state.cpusMask = (evacuated a s).cpusMask ∧
      (acquireExclusiveCpu a s).state.savedAffinities = (evacuated a s).savedAffinities := by
  have hp : Proceeds a := by
    by_contra hn
    exact (acquireExclusiveCpu_of_not_proceeds hn s).1 h
  rcases (acquireExclusiveCpu_of_proceeds hp s).2.2 with ⟨_, hm, hs⟩ | ⟨hr, _⟩
  · exact ⟨hp, hm, hs⟩
  · exact absurd h hr

/-- Successful acquires that save everything keep the masks of the moment the
list was empty recoverable. -/
lemma acquireAll_recovered (calls : List (AcquireCall Task)) (s : Evac Task)
    (hk : ∀ a ∈ calls, ∀ t, a.kmalloc t = true) (hok : AllSucceed calls s) :
    recovered (acquireAll calls s).savedAffinities (acquireAll calls s).cpusMask =
      recovered s.savedAffinities s.cpusMask := by
  induction calls generalizing s with
  | nil => rfl
  | cons a calls ih =>
    obtain ⟨hrc, hrest⟩ := hok
    obtain ⟨_, hmask, hsaved⟩ := acquireExclusiveCpu_of_rc_eq_zero hrc
    rw [acquireAll, ih _ (fun b hb => hk b (List.mem_cons_of_mem _ hb)) hrest, hmask, hsaved,
      evacuated_recovered (hk a List.mem_cons_self)]

/-- After any sequence of successful acquires from an empty list, one release
gives every living task its original mask, empties the list and has put every
reference that was taken. -/
theorem release_restores_original_masks (calls : List (AcquireCall Task)) (c : Caller Task)
    (s : Evac Task) (hempty : s.savedAffinities = [])
    (hk : ∀ a ∈ calls, ∀ t, a.kmalloc t = true) (hok : AllSucceed calls s) :
    (∀ t, c.kernel.pidAlive t = true →
      (releaseExclusiveCpu c (acquireAll calls s)).cpusMask t = s.cpusMask t) ∧
    (releaseExclusiveCpu c (acquireAll calls s)).savedAffinities = [] ∧
    ∀ t, (releaseExclusiveCpu c (acquireAll calls s)).gets t =
        (releaseExclusiveCpu c (acquireAll calls s)).puts t := by
  refine ⟨?_, releaseExclusiveCpu_savedAffinities c _, ?_⟩
  · intro t ht
    rw [releaseExclusiveCpu_cpusMask, if_pos ht, acquireAll_recovered calls s hk hok, hempty,
      recovered_nil]
  · intro t
    simpa using (releaseExclusiveCpu c (acquireAll calls s)).refs_balanced t

theorem nested_acquires_restored :
    (∀ t, (releaseExclusiveCpu (callerOf true) (acquireAll [acquireOn true 0, acquireOn false 1]
      (idle fun _ => {0, 1}))).cpusMask t = {0, 1}) ∧
    (acquireAll [acquireOn true 0, acquireOn false 1] (idle fun _ => {0, 1})).cpusMask true = {0} :=
  ⟨fun t => (release_restores_original_masks [acquireOn true 0, acquireOn false 1] (callerOf true)
      (idle fun _ => {0, 1}) rfl (by simp [acquireOn]) ⟨by decide, by decide, trivial⟩).1 t rfl,
    by decide⟩

/-- The call gets past its checks and its first cpumask allocation. -/
def HasTargetMask (a : AcquireCall Task) : Prop :=
  a.cpu < a.kernel.nrCpuIds ∧ a.cpu ∈ a.kernel.online ∧ a.allocTarget = true

/-- No mask and no saved entry differs after the call, and each cpumask it
allocated has been freed exactly once. -/
def ChangesNothing (a : AcquireCall Task) (s : Evac Task) : Prop :=
  (∀ t, (acquireExclusiveCpu a s).state.cpusMask t = s.cpusMask t) ∧
  (acquireExclusiveCpu a s).state.savedAffinities = s.savedAffinities ∧
  ∀ v ∈ (acquireExclusiveCpu a s).allocated, (acquireExclusiveCpu a s).freed.count v = 1

/-- No reservation is held, the second allocation does not fail after the first,
and the old mask of each task that is pinned or moved could be saved. -/
def UndoesExactly (a : AcquireCall Task) (s : Evac Task) : Prop :=
  s.savedAffinities = [] ∧ (HasTargetMask a → a.allocOther = true ∧
    (a.kmalloc a.current = true ∨ s.cpusMask a.current = {a.cpu}) ∧
    ∀ t, Moves a s t → a.kmalloc t = true)

/-- Before the second allocation nothing needs freeing; when it fails, the first
mask is freed twice. -/
lemma allocated_of_not_proceeds {a : AcquireCall Task} (h : ¬ Proceeds a) (s : Evac Task) :
    (¬ HasTargetMask a ∧ (acquireExclusiveCpu a s).allocated = []) ∨
      (HasTargetMask a ∧ a.allocOther = false ∧
        (acquireExclusiveCpu a s).allocated = [.targetMask] ∧
        (acquireExclusiveCpu a s).freed = [.targetMask, .targetMask]) := by
  by_cases hnr : a.kernel.nrCpuIds ≤ a.cpu
  · left
    exact ⟨fun ht => absurd ht.1 (not_lt_of_ge hnr), by simp [acquireExclusiveCpu, hnr, done]⟩
  · by_cases hon : a.cpu ∈ a.kernel.online
    · by_cases ht : a.allocTarget = true
      · right
        have ho : a.allocOther = false := by
          by_contra hne
          exact h ⟨by omega, hon, ht, by simpa using hne⟩
        exact ⟨⟨by omega, hon, ht⟩, ho, by simp [acquireExclusiveCpu, hnr, hon, ht, ho, done],
          by simp [acquireExclusiveCpu, hnr, hon, ht, ho, done]⟩
      · left
        exact ⟨fun h => ht h.2.2, by simp [acquireExclusiveCpu, hnr, hon, ht, done]⟩
    · left
      exact ⟨fun h => hon h.2.1, by simp [acquireExclusiveCpu, hnr, hon, done]⟩

omit [DecidableEq Task] in
lemma current_alive (c : Caller Task) : c.kernel.pidAlive c.current = true :=
  c.kernel.threads_alive _ c.current_mem

/-- Removing the reserved CPU does change the mask of a thread that is moved. -/
lemma Moves.mask_ne {a : AcquireCall Task} {s : Evac Task} {t : Task} (h : Moves a s t) :
    (a.kernel.online \ {a.cpu}) ∩ s.cpusMask t ≠ s.cpusMask t := by
  intro he
  have hmem : a.cpu ∈ s.cpusMask t := h.2.2.1.2
  rw [← he] at hmem
  exact cpu_not_mem_othermask a (Finset.mem_inter.mp hmem).1

/-- From an empty list, undoing an evacuation gives back exactly the masks that
were saved before they were overwritten. -/
lemma undo_evacuated_iff (a : AcquireCall Task) {s : Evac Task} (hs : s.savedAffinities = []) :
    (∀ t, (restoreSavedAffinities a.toCaller (evacuated a s)).2.cpusMask t = s.cpusMask t) ↔
      (a.kmalloc a.current = true ∨ s.cpusMask a.current = {a.cpu}) ∧
      ∀ t, Moves a s t → a.kmalloc t = true := by
  have hold (t : Task) : oldest t (evacuated a s).savedAffinities =
      if Logs a s t ∧ a.kmalloc t then some (s.cpusMask t) else none := by
    rw [evacuated_oldest, hs]
    rfl
  simp only [restoreSavedAffinities_cpusMask, recovered, hold]
  constructor
  · intro h
    constructor
    · have hc := h a.current
      rw [if_pos (current_alive a.toCaller), evacuated_current] at hc
      by_cases hk : a.kmalloc a.current = true
      · exact Or.inl hk
      · right
        simpa [hk, eq_comm] using hc
    · intro t hm
      by_contra hk
      have ht := h t
      rw [if_pos (a.kernel.threads_alive t hm.2.1)] at ht
      rcases evacuated_other a s hm.ne_current with ⟨_, he⟩ | ⟨hn, _⟩
      · exact hm.mask_ne (by simpa [hk, he] using ht)
      · exact hn hm
  · rintro ⟨hcur, hmoved⟩ t
    by_cases ht : t = a.current
    · subst ht
      rw [if_pos (current_alive a.toCaller), evacuated_current]
      rcases hcur with hk | hm
      · simp [hk, Logs]
      · rw [hm]
        split_ifs <;> rfl
    · rcases evacuated_other a s ht with ⟨hm, _⟩ | ⟨_, he⟩
      · rw [if_pos (a.kernel.threads_alive t hm.2.1), if_pos ⟨hm.logs, hmoved t hm⟩]
        rfl
      · rw [he]
        split_ifs <;> rfl

/-- Exactly when a failed acquire leaves no trace. -/
theorem failed_acquire_changes_nothing_iff (a : AcquireCall Task) (s : Evac Task)
    (h : (acquireExclusiveCpu a s).rc ≠ 0) : ChangesNothing a s ↔ UndoesExactly a s := by
  by_cases hp : Proceeds a
  · obtain ⟨halloc, hfreed, ⟨hz, _⟩ | ⟨_, hstate⟩⟩ := acquireExclusiveCpu_of_proceeds hp s
    · exact absurd hz h
    · have htarget : HasTargetMask a := ⟨hp.1, hp.2.1, hp.2.2.1⟩
      simp only [ChangesNothing, UndoesExactly, halloc, hfreed, hstate,
        restoreSavedAffinities_savedAffinities, htarget, hp.2.2.2, true_and, forall_const]
      constructor
      · rintro ⟨hmask, hsaved, _⟩
        exact ⟨hsaved.symm, (undo_evacuated_iff a hsaved.symm).mp hmask⟩
      · rintro ⟨hsaved, hcond⟩
        refine ⟨(undo_evacuated_iff a hsaved).mpr hcond, hsaved.symm, ?_⟩
        decide
  · obtain ⟨_, hstate⟩ := acquireExclusiveCpu_of_not_proceeds hp s
    rcases allocated_of_not_proceeds hp s with ⟨hno, halloc⟩ | ⟨hyes, hother, halloc, hfreed⟩
    · simp only [ChangesNothing, UndoesExactly, hno, halloc, hstate,
        restoreSavedAffinities_savedAffinities, restoreSavedAffinities_cpusMask]
      constructor
      · rintro ⟨_, hsaved, _⟩
        exact ⟨hsaved.symm, False.elim⟩
      · rintro ⟨hsaved, _⟩
        refine ⟨fun t => ?_, hsaved.symm, by simp⟩
        rw [hsaved, recovered_nil, ite_self]
    · constructor
      · rintro ⟨_, _, honce⟩
        rw [halloc, hfreed] at honce
        simpa using honce .targetMask (by simp)
      · rintro ⟨_, hcond⟩
        simp [hother] at hcond
        exact absurd hyes hcond

/-- A refused boost with no reservation around is undone completely. -/
theorem refused_boost_changes_nothing :
    (acquireExclusiveCpu { acquireOn true 0 with setattr := -1 } (idle fun _ => {0, 1})).rc ≠ 0 ∧
    ChangesNothing { acquireOn true 0 with setattr := -1 } (idle fun _ => {0, 1}) :=
  ⟨by decide, (failed_acquire_changes_nothing_iff { acquireOn true 0 with setattr := -1 }
    (idle fun _ => {0, 1}) (by decide)).mpr
      ⟨rfl, fun _ => ⟨rfl, Or.inl rfl, fun _ _ => rfl⟩⟩⟩

/-- While one thread holds CPU 0, a failed allocation in the other's call unpins
it; and a failed second allocation frees the first mask twice. -/
theorem failed_acquire_undoes_others :
    ((acquireExclusiveCpu { acquireOn false 1 with allocTarget := false }
        (acquireExclusiveCpu (acquireOn true 0) (idle fun _ => {0, 1})).state).rc ≠ 0 ∧
      ¬ ChangesNothing { acquireOn false 1 with allocTarget := false }
        (acquireExclusiveCpu (acquireOn true 0) (idle fun _ => {0, 1})).state) ∧
    (acquireExclusiveCpu { acquireOn true 0 with allocOther := false }
        (idle fun _ => {0, 1})).rc ≠ 0 ∧
      ¬ ChangesNothing { acquireOn true 0 with allocOther := false } (idle fun _ => {0, 1}) := by
  refine ⟨⟨by decide, fun h => ?_⟩, by decide, fun h => ?_⟩
  · exact absurd (h.1 true) (by decide)
  · exact absurd (h.2.2 .targetMask (by decide)) (by decide)

inductive Call (Task : Type)
  | acquire (a : AcquireCall Task)
  | release (c : Caller Task)

def Call.caller : Call Task → Caller Task
  | .acquire a => a.toCaller
  | .release c => c

def step (s : Evac Task) : Call Task → Evac Task
  | .acquire a => (acquireExclusiveCpu a s).state
  | .release c => releaseExclusiveCpu c s

def run : List (Call Task) → Evac Task → Evac Task
  | [], s => s
  | call :: calls, s => run calls (step s call)

/-- The inputs on which an acquire returns an error. -/
def Fails (a : AcquireCall Task) : Prop := ¬ Proceeds a ∨ Refused a ∨ a.setattr ≠ 0

lemma acquireExclusiveCpu_rc_ne_zero_iff (a : AcquireCall Task) (s : Evac Task) :
    (acquireExclusiveCpu a s).rc ≠ 0 ↔ Fails a := by
  by_cases hp : Proceeds a
  · rw [acquireExclusiveCpu_eq hp, Fails]
    by_cases hf : Refused a
    · simp [hf, done, EINVAL]
    · by_cases hr : a.setattr = 0 <;> simp [hp, hf, boost, done, hr]
  · exact iff_of_true (acquireExclusiveCpu_of_not_proceeds hp s).1 (Or.inl hp)

/-- The calls that write the saved masks back: every release, and every acquire
that fails. -/
def Call.Drains : Call Task → Prop
  | .acquire a => Fails a
  | .release _ => True

/-- A call starts on a CPU its task may use, as the scheduler guarantees. -/
def Call.OnAllowedCpu (s : Evac Task) : Call Task → Prop
  | .acquire a => a.cpu ∈ s.cpusMask a.current
  | .release _ => True

/-- `holder` is pinned to `cpu`, and no task of `moved` may use it. -/
def Reserved (holder : Task) (cpu : ℕ) (moved : Task → Prop) (s : Evac Task) : Prop :=
  s.cpusMask holder = {cpu} ∧ ∀ t, moved t → cpu ∉ s.cpusMask t

/-- Draining the list would give a living holder no other mask than its pin,
and none of the living moved tasks its old CPU. -/
def Harmless (holder : Task) (cpu : ℕ) (moved : Task → Prop) (k : Kernel Task) (s : Evac Task) :
    Prop :=
  (k.pidAlive holder = true → ∀ m, oldest holder s.savedAffinities = some m → m = {cpu}) ∧
  ∀ t, moved t → k.pidAlive t = true → ∀ m, oldest t s.savedAffinities = some m → cpu ∉ m

/-- What a drain does to one task that satisfies a property. -/
lemma restored_iff {P : Cpumask → Prop} (c : Caller Task) (s : Evac Task) (t : Task)
    (h : P (s.cpusMask t)) :
    P ((restoreSavedAffinities c s).2.cpusMask t) ↔
      (c.kernel.pidAlive t = true → ∀ m, oldest t s.savedAffinities = some m → P m) := by
  rw [restoreSavedAffinities_cpusMask]
  by_cases ha : c.kernel.pidAlive t = true
  · simp only [ha, if_true, forall_const]
    exact recovered_iff h
  · simp [ha, h]

/-- Entries that an evacuation adds carry masks of the moment, so they do not
decide whether a later drain is harmless. -/
lemma evacuated_oldest_forall {P : Cpumask → Prop} (a : AcquireCall Task) (s : Evac Task)
    (t : Task) (h : P (s.cpusMask t)) :
    (∀ m, oldest t (evacuated a s).savedAffinities = some m → P m) ↔
      ∀ m, oldest t s.savedAffinities = some m → P m := by
  rw [evacuated_oldest]
  cases oldest t s.savedAffinities with
  | some v => simp
  | none => by_cases hl : Logs a s t ∧ a.kmalloc t = true <;> simp [hl, h]

variable {holder : Task} {cpu : ℕ} {moved : Task → Prop}

/-- Evacuating any CPU for another task keeps the reservation. -/
lemma Reserved.evacuated {a : AcquireCall Task} {s : Evac Task}
    (hr : Reserved holder cpu moved s) (hne : a.current ≠ holder)
    (hcpu : a.cpu ∈ s.cpusMask a.current) : Reserved holder cpu moved (evacuated a s) := by
  obtain ⟨hpin, hmoved⟩ := hr
  constructor
  · rcases evacuated_other a s (Ne.symm hne) with ⟨hm, _⟩ | ⟨_, he⟩
    · -- only the holder's own CPU could be taken, and nothing would be left of its mask
      exfalso
      have hsame : a.cpu = cpu := by simpa [hpin] using hm.2.2.1.2
      exact hm.2.2.2 (by simp [hpin, hsame])
    · rw [he, hpin]
  · intro t ht
    by_cases hcur : t = a.current
    · subst hcur
      rw [evacuated_current, Finset.mem_singleton]
      rintro rfl
      exact hmoved _ ht hcpu
    · rcases evacuated_other a s hcur with ⟨_, he⟩ | ⟨_, he⟩
      · rw [he]
        exact fun h => hmoved t ht (Finset.mem_inter.mp h).2
      · rw [he]
        exact hmoved t ht

lemma reserved_restored_iff (c : Caller Task) {s : Evac Task}
    (hr : Reserved holder cpu moved s) :
    Reserved holder cpu moved (restoreSavedAffinities c s).2 ↔
      Harmless holder cpu moved c.kernel s := by
  have hholder := restored_iff (P := fun m => m = {cpu}) c s holder hr.1
  have hothers : (∀ t, moved t → cpu ∉ (restoreSavedAffinities c s).2.cpusMask t) ↔
      ∀ t, moved t → c.kernel.pidAlive t = true →
        ∀ m, oldest t s.savedAffinities = some m → cpu ∉ m :=
    forall_congr' fun t => forall_congr' fun ht =>
      restored_iff (P := fun m => cpu ∉ m) c s t (hr.2 t ht)
  rw [Reserved, Harmless, hholder, hothers]

/-- One call by another task keeps the reservation exactly when, if it drains
the list, the drain is harmless. -/
lemma reserved_step_iff {call : Call Task} {s : Evac Task} (hr : Reserved holder cpu moved s)
    (hne : call.caller.current ≠ holder) (hcpu : call.OnAllowedCpu s) :
    Reserved holder cpu moved (step s call) ↔
      (call.Drains → Harmless holder cpu moved call.caller.kernel s) := by
  cases call with
  | release c =>
    simpa [Call.Drains, Call.caller, step, releaseExclusiveCpu, Reserved] using
      reserved_restored_iff c hr
  | acquire a =>
    simp only [Call.Drains, step, Call.caller]
    by_cases hf : Fails a
    · simp only [hf, forall_const]
      by_cases hp : Proceeds a
      · rcases (acquireExclusiveCpu_of_proceeds hp s).2.2 with ⟨hz, _⟩ | ⟨_, hstate⟩
        · exact absurd hz ((acquireExclusiveCpu_rc_ne_zero_iff a s).mpr hf)
        · have hev := hr.evacuated hne hcpu
          rw [hstate, reserved_restored_iff a.toCaller hev, Harmless, Harmless]
          refine and_congr ?_ ?_
          · exact imp_congr_right fun _ =>
              evacuated_oldest_forall (P := fun m => m = {cpu}) a s holder hr.1
          · exact forall_congr' fun t => forall_congr' fun ht => imp_congr_right fun _ =>
              evacuated_oldest_forall (P := fun m => cpu ∉ m) a s t (hr.2 t ht)
      · rw [(acquireExclusiveCpu_of_not_proceeds hp s).2]
        exact reserved_restored_iff a.toCaller hr
    · have hrc : (acquireExclusiveCpu a s).rc = 0 := by
        by_contra h
        exact hf ((acquireExclusiveCpu_rc_ne_zero_iff a s).mp h)
      obtain ⟨_, hmask, _⟩ := acquireExclusiveCpu_of_rc_eq_zero hrc
      refine iff_of_true ?_ fun h => absurd h hf
      simpa only [Reserved, hmask] using hr.evacuated hne hcpu

/-- Every call of the run starts on a CPU of its task's mask. -/
def OnAllowedCpus : List (Call Task) → Evac Task → Prop
  | [], _ => True
  | call :: calls, s => call.OnAllowedCpu s ∧ OnAllowedCpus calls (step s call)

/-- Every drain of the run is harmless in the state it starts from. -/
def DrainsHarmlessly (holder : Task) (cpu : ℕ) (moved : Task → Prop) :
    List (Call Task) → Evac Task → Prop
  | [], _ => True
  | call :: calls, s =>
      (call.Drains → Harmless holder cpu moved call.caller.kernel s) ∧
        DrainsHarmlessly holder cpu moved calls (step s call)

/-- The tasks that an acquisition took off its CPU. -/
def MovedAway (a : AcquireCall Task) (s : Evac Task) (t : Task) : Prop :=
  a.cpu ∈ s.cpusMask t ∧ a.cpu ∉ (acquireExclusiveCpu a s).state.cpusMask t

lemma reserved_of_acquire {a : AcquireCall Task} {s : Evac Task}
    (h : (acquireExclusiveCpu a s).rc = 0) :
    Reserved a.current a.cpu (MovedAway a s) (acquireExclusiveCpu a s).state := by
  obtain ⟨_, hmask, _⟩ := acquireExclusiveCpu_of_rc_eq_zero h
  refine ⟨?_, fun t ht => ht.2⟩
  rw [hmask, evacuated_current]

lemma reserved_run_iff (calls : List (Call Task)) {s : Evac Task}
    (hr : Reserved holder cpu moved s)
    (hne : ∀ call ∈ calls, call.caller.current ≠ holder) (hcpu : OnAllowedCpus calls s) :
    (∀ pre, pre <+: calls → Reserved holder cpu moved (run pre s)) ↔
      DrainsHarmlessly holder cpu moved calls s := by
  induction calls generalizing s with
  | nil => simpa [DrainsHarmlessly, run] using hr
  | cons call calls ih =>
    have hstep := reserved_step_iff hr (hne call List.mem_cons_self) hcpu.1
    have hne' : ∀ c ∈ calls, c.caller.current ≠ holder := fun c hc =>
      hne c (List.mem_cons_of_mem _ hc)
    constructor
    · intro h
      have hnext : Reserved holder cpu moved (step s call) := h [call] (by simp)
      refine ⟨hstep.mp hnext, (ih hnext hne' hcpu.2).mp fun pre hpre => ?_⟩
      exact h (call :: pre) (List.cons_prefix_cons.mpr ⟨rfl, hpre⟩)
    · rintro ⟨hd, hrest⟩ pre hpre
      have hnext := hstep.mpr hd
      rcases List.prefix_cons_iff.mp hpre with rfl | ⟨tail, rfl, htail⟩
      · exact hr
      · exact (ih hnext hne' hcpu.2).mpr hrest tail htail

/-- After a successful acquire and for any interleaving of later calls by other
tasks: the holder stays pinned and the tasks it moved stay off its CPU in every
state reached, exactly when every drain on the way is harmless. -/
theorem reservation_survives_iff (a : AcquireCall Task) (s : Evac Task)
    (hacq : (acquireExclusiveCpu a s).rc = 0) (calls : List (Call Task))
    (hother : ∀ call ∈ calls, call.caller.current ≠ a.current)
    (hcpu : OnAllowedCpus calls (acquireExclusiveCpu a s).state) :
    (∀ pre, pre <+: calls → Reserved a.current a.cpu (MovedAway a s)
        (run pre (acquireExclusiveCpu a s).state)) ↔
      DrainsHarmlessly a.current a.cpu (MovedAway a s) calls (acquireExclusiveCpu a s).state :=
  reserved_run_iff calls (reserved_of_acquire hacq) hother hcpu

/-- Threads that never shared a CPU have nothing to give back to each other. -/
theorem reservation_survives_release_of_stranger :
    Reserved true 0 (MovedAway (acquireOn true 0) (idle fun t => if t then {0} else {1}))
      (run [.release (callerOf false)]
        (acquireExclusiveCpu (acquireOn true 0) (idle fun t => if t then {0} else {1})).state) := by
  refine (reservation_survives_iff (acquireOn true 0) (idle fun t => if t then {0} else {1})
    (by decide) [.release (callerOf false)] (by simp [Call.caller, callerOf, acquireOn])
    ⟨trivial, trivial⟩).mpr ⟨fun _ => ⟨fun _ m hm => ?_, fun t ht _ => ?_⟩, trivial⟩ _
    (List.prefix_refl _)
  · revert m; decide
  · cases t
    · exact absurd ht.1 (by decide)
    · exact absurd ht.2 (by decide)

/-- A thread that holds nothing releases: the holder loses its pin, and its CPU
is back in the mask of the thread it had moved. -/
theorem release_of_stranger_ends_reservation :
    (acquireExclusiveCpu (acquireOn true 0) (idle fun _ => {0, 1})).rc = 0 ∧
    (callerOf false).current ≠ (acquireOn true 0).current ∧
    MovedAway (acquireOn true 0) (idle fun _ => {0, 1}) false ∧
    (run [.release (callerOf false)]
      (acquireExclusiveCpu (acquireOn true 0) (idle fun _ => {0, 1})).state).cpusMask true ≠ {0} ∧
    0 ∈ (run [.release (callerOf false)]
      (acquireExclusiveCpu (acquireOn true 0) (idle fun _ => {0, 1})).state).cpusMask false := by
  refine ⟨by decide, by decide, ⟨by decide, by decide⟩, by decide, by decide⟩

end SymbiOS.Evacuate
