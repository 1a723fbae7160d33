import SymbiOS.GateLayout
import SymbiOS.GuardedRun
import SymbiOS.IdtAdaptor

/-!
# Loading and unloading the interposer

The interposer's module saves the IDTR of the CPU it is loaded on. A call of
`setup_df_interposition` copies the table of the CPU it runs on, points four gates of
the copy at the module's handlers and loads it on every CPU. Unloading the module puts
the saved IDTR back, on the CPU it runs on.
-/
namespace SymbiOS.Interposer
open SymbiOS.Adaptor SymbiOS.GuardedRun

/-- `struct dtr`. -/
structure Dtr where
  limit : BitVec 16
  base : Addr
  deriving DecidableEq, Repr

variable {n : ℕ}

/-- `tables` are the descriptor tables in memory, by their address. -/
structure Machine (n : ℕ) where
  idtr : Fin n → Dtr
  tables : Addr → Vec → RawGate
  oldIdtr : Dtr

/-- The entry points of the module's handlers. -/
structure Handlers where
  df : Addr
  tf : Addr
  int3 : Addr
  db : Addr

def setEntry (table : Vec → RawGate) (vector : Vec) (handler : Addr) : Vec → RawGate :=
  Function.update table vector (setIdtEntry (table vector) handler)

/-- The table that is loaded, from a copy of the current one. -/
def interposed (h : Handlers) (table : Vec → RawGate) : Vec → RawGate :=
  let table := setEntry table Trap.df.vec h.df
  let table := setEntry table Trap.pf.vec h.tf
  let table := setEntry table ⟨3, by decide⟩ h.int3
  setEntry table ⟨1, by decide⟩ h.db

def loadIdtOnCpu (info : Dtr) (cpu : Fin n) (idtr : Fin n → Dtr) : Fin n → Dtr :=
  Function.update idtr cpu info

/-- A call on a CPU, with what `kmalloc_array` returns. Without memory the first write
to the copy is one through `NULL`, and the call gets no further. -/
def setupDfInterposition (h : Handlers) (m : Machine n) (call : Fin n × Option Addr) :
    Machine n :=
  match call.2 with
  | none => m
  | some newIdt =>
    { m with
      tables := Function.update m.tables newIdt
        (interposed h (m.tables (m.idtr call.1).base))
      idtr := onEachCpu (loadIdtOnCpu ⟨16 * 256 - 1, newIdt⟩) m.idtr }

def greeterInit (m : Machine n) (cpu : Fin n) : Machine n := { m with oldIdtr := m.idtr cpu }

def greeterExit (m : Machine n) (cpu : Fin n) : Machine n :=
  { m with idtr := Function.update m.idtr cpu m.oldIdtr }

/-- Where a CPU goes for a vector. -/
def dispatch (m : Machine n) (cpu : Fin n) (v : Vec) : Addr :=
  entryOffset (m.tables (m.idtr cpu).base v)

/-- The module's life: loaded on one CPU, called any number of times, unloaded on
another. -/
def wholeLife (h : Handlers) (m : Machine n) (initCpu : Fin n)
    (calls : List (Fin n × Option Addr)) (exitCpu : Fin n) : Machine n :=
  greeterExit (runFrom (setupDfInterposition h) (greeterInit m initCpu) calls) exitCpu

/-- Every CPU has its own table back, and goes where it went. -/
structure Unloaded (before after : Machine n) : Prop where
  idtr_eq : ∀ cpu, after.idtr cpu = before.idtr cpu
  dispatch_eq : ∀ cpu v, dispatch after cpu v = dispatch before cpu v

lemma setup_idtr (h : Handlers) (m : Machine n) (cpu : Fin n) (newIdt : Addr) :
    (setupDfInterposition h m (cpu, some newIdt)).idtr = fun _ => ⟨16 * 256 - 1, newIdt⟩ := by
  funext c
  have hload := foldl_update_mem (⟨16 * 256 - 1, newIdt⟩ : Dtr) (List.finRange n) m.idtr c
  rw [if_pos (List.mem_finRange c)] at hload
  exact hload

@[simp] theorem setup_oldIdtr (h : Handlers) (m : Machine n) (call : Fin n × Option Addr) :
    (setupDfInterposition h m call).oldIdtr = m.oldIdtr := by
  unfold setupDfInterposition
  split <;> rfl

/-- The table of the last call that got memory is on every CPU. -/
def lastLoaded (calls : List (Fin n × Option Addr)) : Option Addr :=
  (calls.filterMap Prod.snd).getLast?

lemma filterMap_concat_none (calls : List (Fin n × Option Addr)) (cpu : Fin n) :
    (calls ++ [(cpu, none)]).filterMap Prod.snd = calls.filterMap Prod.snd := by
  simp

lemma lastLoaded_eq_none_iff (calls : List (Fin n × Option Addr)) :
    lastLoaded calls = none ↔ ∀ call ∈ calls, call.2 = none := by
  rw [lastLoaded, List.getLast?_eq_none_iff, List.filterMap_eq_nil_iff]

lemma run_oldIdtr (h : Handlers) (m : Machine n) (calls : List (Fin n × Option Addr)) :
    (runFrom (setupDfInterposition h) m calls).oldIdtr = m.oldIdtr := by
  induction calls generalizing m with
  | nil => rfl
  | cons call calls ih => rw [runFrom_cons, ih, setup_oldIdtr]

/-- The IDTRs after some calls: every CPU has the table of the last call that got memory. -/
def loadedIdtr (idtr : Fin n → Dtr) (calls : List (Fin n × Option Addr)) : Fin n → Dtr :=
  match lastLoaded calls with
  | none => idtr
  | some newIdt => fun _ => ⟨16 * 256 - 1, newIdt⟩

lemma run_idtr (h : Handlers) (m : Machine n) (calls : List (Fin n × Option Addr)) :
    (runFrom (setupDfInterposition h) m calls).idtr = loadedIdtr m.idtr calls := by
  induction calls using List.reverseRecOn with
  | nil => rfl
  | append_singleton calls call ih =>
    rw [runFrom_append, runFrom_cons, runFrom_nil]
    obtain ⟨cpu, newIdt⟩ := call
    cases newIdt with
    | none =>
      rw [loadedIdtr, lastLoaded, filterMap_concat_none, ← lastLoaded]
      exact ih
    | some newIdt =>
      have hlast : lastLoaded (calls ++ [(cpu, some newIdt)]) = some newIdt := by
        simp [lastLoaded]
      rw [setup_idtr, loadedIdtr, hlast]

/-- The IDTRs after the module is unloaded: one CPU has the saved one. -/
lemma wholeLife_idtr (h : Handlers) (m : Machine n) (initCpu exitCpu : Fin n)
    (calls : List (Fin n × Option Addr)) :
    (wholeLife h m initCpu calls exitCpu).idtr =
      Function.update (loadedIdtr m.idtr calls) exitCpu (m.idtr initCpu) := by
  have hidtr := run_idtr h (greeterInit m initCpu) calls
  have hold := run_oldIdtr h (greeterInit m initCpu) calls
  show Function.update (runFrom (setupDfInterposition h) (greeterInit m initCpu) calls).idtr
    exitCpu (runFrom (setupDfInterposition h) (greeterInit m initCpu) calls).oldIdtr = _
  rw [hidtr, hold]
  rfl

/-- A table that no call was given the memory of is not written to. -/
lemma run_tables (h : Handlers) (m : Machine n) (calls : List (Fin n × Option Addr)) {base : Addr}
    (hbase : base ∉ calls.filterMap Prod.snd) :
    (runFrom (setupDfInterposition h) m calls).tables base = m.tables base := by
  induction calls generalizing m with
  | nil => rfl
  | cons call calls ih =>
    obtain ⟨cpu, newIdt⟩ := call
    rw [runFrom_cons]
    cases newIdt with
    | none => exact ih m (by simpa using hbase)
    | some newIdt =>
      simp only [List.filterMap_cons, List.mem_cons, not_or] at hbase
      rw [ih _ hbase.2]
      exact Function.update_of_ne hbase.1 _ _

/-- For every number of CPUs and every choice of the CPUs that the steps run on, where
`kmalloc_array` does not hand out a table that is loaded: after the module is unloaded
every CPU is back on its own table exactly when the CPU that unloads it and the one
that loaded it had the same, and no call got as far as loading its copy or there is
only one CPU. -/
theorem wholeLife_unloaded_iff (h : Handlers) (m : Machine n) (initCpu exitCpu : Fin n)
    (calls : List (Fin n × Option Addr))
    (hfresh : ∀ newIdt ∈ calls.filterMap Prod.snd, ∀ cpu, newIdt ≠ (m.idtr cpu).base) :
    Unloaded m (wholeLife h m initCpu calls exitCpu) ↔
      m.idtr exitCpu = m.idtr initCpu ∧
      ((∀ call ∈ calls, call.2 = none) ∨ ∀ cpu, cpu = exitCpu) := by
  have hexit : (wholeLife h m initCpu calls exitCpu).idtr exitCpu = m.idtr initCpu := by
    rw [wholeLife_idtr, Function.update_self]
  have hother {cpu : Fin n} (hcpu : cpu ≠ exitCpu) :
      (wholeLife h m initCpu calls exitCpu).idtr cpu = loadedIdtr m.idtr calls cpu := by
    rw [wholeLife_idtr, Function.update_of_ne hcpu]
  constructor
  · intro hunloaded
    refine ⟨by rw [← hunloaded.idtr_eq exitCpu, hexit], ?_⟩
    cases hload : lastLoaded calls with
    | none => exact Or.inl ((lastLoaded_eq_none_iff calls).mp hload)
    | some newIdt =>
      right
      intro cpu
      by_contra hcpu
      -- the CPU is still on the copy, which was not its table before
      have hstill := hunloaded.idtr_eq cpu
      rw [hother hcpu, loadedIdtr, hload] at hstill
      have hmem : newIdt ∈ calls.filterMap Prod.snd := List.mem_of_getLast? hload
      exact hfresh newIdt hmem cpu (congrArg Dtr.base hstill)
  · rintro ⟨hsame, hwhere⟩
    have hback (cpu : Fin n) :
        (wholeLife h m initCpu calls exitCpu).idtr cpu = m.idtr cpu := by
      by_cases hcpu : cpu = exitCpu
      · rw [hcpu, hexit, hsame]
      · obtain hnone | hone := hwhere
        · rw [hother hcpu, loadedIdtr, (lastLoaded_eq_none_iff calls).mpr hnone]
        · exact absurd (hone cpu) hcpu
    refine ⟨hback, fun cpu v => ?_⟩
    have htables : (wholeLife h m initCpu calls exitCpu).tables (m.idtr cpu).base =
        m.tables (m.idtr cpu).base :=
      run_tables h _ calls fun hmem => hfresh _ hmem cpu rfl
    rw [dispatch, dispatch, hback, htables]

/-- All CPUs are on one table, as the kernel sets them up. -/
def demoMachine (n : ℕ) : Machine n :=
  ⟨fun _ => ⟨0xfff, 0xfffffe0000000000⟩, fun _ _ => 0, ⟨0, 0⟩⟩

def demoHandlers : Handlers := ⟨0xffffffffc0000100, 0xffffffffc0000200, 0xffffffffc0000300,
  0xffffffffc0000400⟩

def cpu0 : Fin 2 := ⟨0, by decide⟩

def cpu1 : Fin 2 := ⟨1, by decide⟩

/-- With one CPU. -/
theorem wholeLife_unloaded_single :
    Unloaded (demoMachine 1) (wholeLife demoHandlers (demoMachine 1) ⟨0, by decide⟩
      [(⟨0, by decide⟩, some 0xffff888000001000)] ⟨0, by decide⟩) :=
  (wholeLife_unloaded_iff demoHandlers (demoMachine 1) _ _ _ (by simp [demoMachine])).mpr
    ⟨rfl, Or.inr fun cpu => Fin.ext (by omega)⟩

/-- With two CPUs the other one stays on the copy, and takes its page faults in the
module that is gone. -/
theorem wholeLife_leaves_cpu :
    (wholeLife demoHandlers (demoMachine 2) cpu0 [(cpu0, some 0xffff888000001000)] cpu0).idtr
      cpu1 = ⟨0xfff, 0xffff888000001000⟩ ∧
    dispatch (wholeLife demoHandlers (demoMachine 2) cpu0 [(cpu0, some 0xffff888000001000)] cpu0)
      cpu1 Trap.pf.vec = demoHandlers.tf ∧
    ¬ Unloaded (demoMachine 2)
      (wholeLife demoHandlers (demoMachine 2) cpu0 [(cpu0, some 0xffff888000001000)] cpu0) := by
  have hidtr : (wholeLife demoHandlers (demoMachine 2) cpu0
      [(cpu0, some 0xffff888000001000)] cpu0).idtr cpu1 = ⟨0xfff, 0xffff888000001000⟩ := by
    decide
  refine ⟨hidtr, ?_, ?_⟩
  · decide +kernel
  · intro hunloaded
    have hsame := hunloaded.idtr_eq cpu1
    rw [hidtr] at hsame
    exact absurd hsame (by decide)

end SymbiOS.Interposer
