import SymbiOS.UndoLog
import Mathlib.Data.Finset.Basic
import Mathlib.Data.Finset.Card
import Mathlib.Data.Finset.SDiff

/-!
# Evacuating a CPU (`evacuate.kc`)

`acquire_exclusive_cpu` pins the caller to its CPU and moves every other user
thread away from it; `release_exclusive_cpu` writes the saved masks back. Both
run under `evac_mutex`, so a call is one transition of the state below. What the
kernel answers during a call (allocation results, the thread list, which tasks
are alive) is part of the call. Masks are finite sets of CPU numbers, and
`set_cpus_allowed_ptr` installs the mask it is given.
-/
namespace SymbiOS.Evacuate
open SymbiOS.UndoLog

abbrev Cpumask := Finset ℕ

def EINVAL : ℤ := 22
def ENOMEM : ℤ := 12

/-- The fields of `task_struct` that the evacuation code reads. `kthread` is
`flags & PF_KTHREAD`, `signal` says that the pointer is set, and `session` is the
identity of `task_session`. -/
structure TaskStruct (Task : Type) where
  pid : ℕ
  kthread : Bool
  realParent : Option Task
  signal : Bool
  session : ℕ

/-- The kernel as one call sees it. `threads` lists what `for_each_process` with
`for_each_thread` visits; such a thread still has its pid. Parent chains are
finite down to init. -/
structure Kernel (Task : Type) where
  task : Task → TaskStruct Task
  threads : List Task
  pidAlive : Task → Bool
  online : Cpumask
  nrCpuIds : ℕ
  depth : Task → ℕ
  depth_realParent : ∀ t p, 1 < (task t).pid → (task t).realParent = some p → depth p < depth t
  threads_alive : ∀ t ∈ threads, pidAlive t = true

inductive SchedPolicy
  | normal
  | fifo
  deriving DecidableEq, Repr

structure SchedAttr where
  policy : SchedPolicy
  priority : ℕ
  nice : ℤ
  deriving DecidableEq, Repr

/-- The attributes an acquire asks for: the highest real-time priority. -/
def fifoAttr : SchedAttr := ⟨.fifo, 99, 0⟩

/-- The attributes a release asks for. -/
def normalAttr : SchedAttr := ⟨.normal, 0, 0⟩

/-- The state the two calls share. `savedAffinities` has its newest entry first,
as `list_add` puts it. The last field is the reference ledger: every
`get_task_struct` is matched by a `put_task_struct` or by a saved entry. -/
structure Evac (Task : Type) [DecidableEq Task] where
  cpusMask : Task → Cpumask
  savedAffinities : List (Task × Cpumask)
  sched : Task → SchedAttr
  gets : Task → ℕ
  puts : Task → ℕ
  refs_balanced : ∀ t, gets t = puts t + (savedAffinities.map Prod.fst).count t

/-- Who calls, and where. -/
structure Caller (Task : Type) where
  kernel : Kernel Task
  current : Task
  current_mem : current ∈ kernel.threads

/-- One call of `acquire_exclusive_cpu` with the kernel's answers: the CPU from
`smp_processor_id`, the two cpumask allocations, the `kmalloc` for each saved
task, and the result of `sched_setattr_nocheck`. The CPU argument of the source
is overwritten before it is used. -/
structure AcquireCall (Task : Type) extends Caller Task where
  cpu : ℕ
  killifneeded : ℤ
  allocTarget : Bool
  allocOther : Bool
  kmalloc : Task → Bool
  setattr : ℤ

variable {Task : Type} [DecidableEq Task]

/-- Push a task's present mask on the saved list and take a reference on it. -/
def saveTaskAffinity (kmalloc : Bool) (task : Task) (s : Evac Task) : ℤ × Evac Task :=
  if kmalloc then
    (0, { s with
      savedAffinities := (task, s.cpusMask task) :: s.savedAffinities
      gets := Function.update s.gets task (s.gets task + 1)
      refs_balanced := by
        intro t
        by_cases ht : t = task
        · subst ht; simp [s.refs_balanced t]; omega
        · simp [Function.update_of_ne ht, s.refs_balanced t, Ne.symm ht] })
  else (-ENOMEM, s)

def setCpusAllowedPtr (task : Task) (mask : Cpumask) (s : Evac Task) : Evac Task :=
  { s with cpusMask := Function.update s.cpusMask task mask }

/-- One round of the restore loop: give the newest saved mask back to its task
if that still exists, drop the reference and unlink the entry. -/
def restoreEntry (k : Kernel Task) (s : Evac Task) (ta : Task × Cpumask)
    (rest : List (Task × Cpumask)) (h : s.savedAffinities = ta :: rest) : Evac Task where
  cpusMask := if k.pidAlive ta.1 then Function.update s.cpusMask ta.1 ta.2 else s.cpusMask
  savedAffinities := rest
  sched := s.sched
  gets := s.gets
  puts := Function.update s.puts ta.1 (s.puts ta.1 + 1)
  refs_balanced := by
    intro t
    have hs := s.refs_balanced t
    rw [h, List.map_cons, List.count_cons] at hs
    by_cases ht : t = ta.1
    · subst ht; simp at hs ⊢; omega
    · simpa [Function.update_of_ne ht, Ne.symm ht] using hs

def restoreLoop (k : Kernel Task) (current : Task) : ℕ → ℤ → Evac Task → ℤ × Evac Task
  | 0, rc, s => (rc, s)
  | n + 1, rc, s =>
      match h : s.savedAffinities with
      | [] => (rc, s)
      | ta :: rest =>
          restoreLoop k current n (if ta.1 = current then 0 else rc) (restoreEntry k s ta rest h)

/-- Restore all saved affinities. The result is -1 when the caller itself was
not on the list. -/
def restoreSavedAffinities (c : Caller Task) (s : Evac Task) : ℤ × Evac Task :=
  restoreLoop c.kernel c.current s.savedAffinities.length (-1) s

/-- The walk of `is_ancestor` up the parent chain, bounded by its depth. -/
def isAncestorFrom (k : Kernel Task) (task : Task) : ℕ → Option Task → Bool
  | 0, _ => false
  | _ + 1, none => false
  | n + 1, some t =>
      if 1 < (k.task t).pid then
        if t = task then true else isAncestorFrom k task n (k.task t).realParent
      else false

def isAncestor (c : Caller Task) (task : Task) : Bool :=
  isAncestorFrom c.kernel task (c.kernel.depth c.current + 1) (some c.current)

def shouldPreserveMigrate (c : Caller Task) (task : Task) : Bool :=
  if (c.kernel.task task).pid = 1 then true
  else if (c.kernel.task task).kthread then true
  else if task = c.current then true
  else false

def shouldPreserveKill (c : Caller Task) (task : Task) : Bool :=
  if shouldPreserveMigrate c task then true
  else if isAncestor c task then true
  else if (c.kernel.task task).signal && (c.kernel.task c.current).signal &&
      (c.kernel.task task).session == (c.kernel.task c.current).session then true
  else false

/-- The threads `killothers` does not skip. -/
def killTargets (c : Caller Task) (killifneeded : ℤ) : List Task :=
  c.kernel.threads.filter fun t => !(decide (killifneeded < 2) && shouldPreserveKill c t)

/-- The count that is returned and the threads that are sent SIGKILL. -/
def killothers (c : Caller Task) (killifneeded : ℤ) : ℤ × List Task :=
  ((killTargets c killifneeded).length,
    if 0 < killifneeded then killTargets c killifneeded else [])

/-- The body of the thread loop of `migrateothers`. A failed save is only
logged, and a thread with no other CPU is saved but left where it is. -/
def migrateThread (a : AcquireCall Task) (othermask : Cpumask) (acc : Evac Task × ℤ)
    (t : Task) : Evac Task × ℤ :=
  if t = a.current then acc
  else if shouldPreserveMigrate a.toCaller t then acc
  else if a.cpu ∈ acc.1.cpusMask t then
    let s := (saveTaskAffinity (a.kmalloc t) t acc.1).2
    let threadTargetMask := othermask ∩ s.cpusMask t
    if threadTargetMask = ∅ then (s, acc.2)
    else (setCpusAllowedPtr t threadTargetMask s, acc.2 + 1)
  else acc

def migrateothers (a : AcquireCall Task) (othermask : Cpumask) (s : Evac Task) : Evac Task × ℤ :=
  a.kernel.threads.foldl (migrateThread a othermask) (s, 0)

/-- The two heap cpumasks of an acquire. -/
inductive MaskVar
  | targetMask
  | otherMask
  deriving DecidableEq, Repr

structure AcquireResult (Task : Type) [DecidableEq Task] where
  rc : ℤ
  state : Evac Task
  allocated : List MaskVar
  freed : List MaskVar
  signalled : List Task

/-- The `done` label. `target` and `other` say which mask pointers are not NULL,
`freed` what has been freed on the way here. -/
def done (a : AcquireCall Task) (rc : ℤ) (target other : Bool) (allocated freed : List MaskVar)
    (signalled : List Task) (s : Evac Task) : AcquireResult Task where
  rc := rc
  state := if rc ≠ 0 then (restoreSavedAffinities a.toCaller s).2 else s
  allocated := allocated
  freed := freed ++ (if target then [.targetMask] else []) ++ (if other then [.otherMask] else [])
  signalled := signalled

/-- The priority boost, the last step that can fail. -/
def boost (a : AcquireCall Task) (signalled : List Task) (s : Evac Task) : AcquireResult Task :=
  if a.setattr ≠ 0 then done a a.setattr true true [.targetMask, .otherMask] [] signalled s
  else
    done a a.setattr true true [.targetMask, .otherMask] [] signalled
      { s with sched := Function.update s.sched a.current fifoAttr }

/-- Save the caller and pin it to its CPU. -/
def pinCurrent (a : AcquireCall Task) (s : Evac Task) : Evac Task :=
  setCpusAllowedPtr a.current {a.cpu} (saveTaskAffinity (a.kmalloc a.current) a.current s).2

def acquireExclusiveCpu (a : AcquireCall Task) (s : Evac Task) : AcquireResult Task :=
  if a.kernel.nrCpuIds ≤ a.cpu then done a (-EINVAL) false false [] [] [] s
  else if a.cpu ∉ a.kernel.online then done a (-EINVAL) false false [] [] [] s
  else if !a.allocTarget then done a (-ENOMEM) false false [] [] [] s
  else if !a.allocOther then
    -- the target mask is freed here, but its pointer still reaches `done`
    done a (-ENOMEM) true false [.targetMask] [.targetMask] [] s
  else
    let s := pinCurrent a s
    if a.kernel.online.card = 1 then
      let mk := killothers a.toCaller a.killifneeded
      if a.killifneeded = 0 ∧ 0 < mk.1 then
        done a (-EINVAL) true true [.targetMask, .otherMask] [] mk.2 s
      else boost a mk.2 s
    else
      let mk := migrateothers a (a.kernel.online \ {a.cpu}) s
      if mk.2 < 0 then done a (-EINVAL) true true [.targetMask, .otherMask] [] [] mk.1
      else boost a [] mk.1

/-- Write everything back and return to the normal priority. The CPU argument
of the source is only logged. -/
def releaseExclusiveCpu (c : Caller Task) (s : Evac Task) : Evac Task :=
  let s := (restoreSavedAffinities c s).2
  { s with sched := Function.update s.sched c.current normalAttr }

end SymbiOS.Evacuate
