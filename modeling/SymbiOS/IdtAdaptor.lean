import SymbiOS.Gate
import Mathlib.Data.Finset.Insert
import Mathlib.Data.Fintype.Basic

/-!
# Cloning and activating descriptor tables (`idtadaptor.kc`)

The state is everything the adaptors share: the per-CPU IST entry and IDT
register, the tables in memory, the module's globals, and the ledger of the
pages it has allocated. An address stands for the page that starts there, and
zero is NULL. A freed address is logged together with what was true of it.
-/
namespace SymbiOS.Adaptor

def PAGE_SIZE : Addr := 0x1000

def EINVAL : ℤ := 22
def ENOMEM : ℤ := 12

/-- One `free_pages`: was the page one of ours, and was it some CPU's IDT? -/
structure FreeEvent where
  addr : Addr
  owned : Bool
  loaded : Bool
  deriving DecidableEq, Repr

/-- `tssIst` is `tss.ist[IST_INDEX_EF]` of each CPU, `idtr` the table it has
loaded, `idtAt` the table that lies at an address, and `exc` holds the globals
`pf_adaptor_asm_exc_page_fault`, `_double_fault` and `_general_protection`. -/
structure State (n : ℕ) where
  tssIst : Fin n → Addr
  idtr : Fin n → Addr
  idtAt : Addr → Idt
  origIsrs : Vec → Addr
  origIdt : Addr
  currentIdt : Addr
  exc : Trap → Addr
  pages : Finset Addr
  frees : List FreeEvent

/-- How an adaptor call ends: it returns, or it dereferences a bad pointer. -/
inductive Outcome
  | ret (rc : ℤ)
  | fault
  deriving DecidableEq, Repr

variable {n : ℕ}

/-- `free_pages` of one page; NULL is ignored. -/
def freePages (addr : Addr) (s : State n) : State n :=
  if addr = 0#64 then s
  else { s with
    pages := s.pages.erase addr
    frees := ⟨addr, decide (addr ∈ s.pages), decide (∃ c, s.idtr c = addr)⟩ :: s.frees }

/-- Run a function on every CPU and wait for all of them. -/
def onEachCpu {σ : Type} (f : Fin n → σ → σ) (s : σ) : σ :=
  (List.finRange n).foldl (fun s c => f c s) s

/-- The table a clone is seeded from: the adaptors' own, or the kernel's. -/
def seedIdt (cpu : Fin n) (s : State n) : Addr :=
  if s.currentIdt ≠ 0#64 then s.currentIdt
  else if s.origIdt = 0#64 then s.idtr cpu else s.origIdt

/-- `idt_adaptor_clone`, given the page that `alloc_pages` returns. -/
def idtAdaptorClone (cpu : Fin n) (page : Option Addr) (s : State n) : Addr × State n :=
  match page with
  | none => (0#64, s)
  | some newIdt =>
      (newIdt, { s with
        pages := insert newIdt s.pages
        origIdt := if s.currentIdt ≠ 0#64 then s.origIdt
          else if s.origIdt = 0#64 then s.idtr cpu else s.origIdt
        idtAt := Function.update s.idtAt newIdt (s.idtAt (seedIdt cpu s)) })

/-- Load the table on every CPU, then free the one it replaces. -/
def idtAdaptorActivate (idt : Addr) (s : State n) : State n :=
  let s := { s with idtr := onEachCpu (fun c idtr => Function.update idtr c idt) s.idtr }
  let s := if s.currentIdt ≠ 0#64 then freePages s.currentIdt s else s
  { s with currentIdt := idt }

def idtAdaptorRelease (idt : Addr) (s : State n) : State n := freePages idt s

/-- The state when the module is loaded: nothing is installed, and every CPU runs
on the kernel's table. -/
def moduleLoad (kernelIdt : Addr) (idtAt : Addr → Idt) : State n where
  tssIst := fun _ => 0#64
  idtr := fun _ => kernelIdt
  idtAt := idtAt
  origIsrs := fun _ => 0#64
  origIdt := 0#64
  currentIdt := 0#64
  exc := fun _ => 0#64
  pages := ∅
  frees := []

@[simp] theorem freePages_zero (s : State n) : freePages 0#64 s = s := by simp [freePages]

@[simp] theorem freePages_tssIst (a : Addr) (s : State n) : (freePages a s).tssIst = s.tssIst := by
  unfold freePages; split <;> rfl

@[simp] theorem freePages_idtr (a : Addr) (s : State n) : (freePages a s).idtr = s.idtr := by
  unfold freePages; split <;> rfl

@[simp] theorem freePages_idtAt (a : Addr) (s : State n) : (freePages a s).idtAt = s.idtAt := by
  unfold freePages; split <;> rfl

@[simp] theorem freePages_origIsrs (a : Addr) (s : State n) :
    (freePages a s).origIsrs = s.origIsrs := by
  unfold freePages; split <;> rfl

/-- A function that sets its own CPU's cell sets them all. -/
lemma foldl_update_mem {α : Type} (v : α) (cpus : List (Fin n)) (f : Fin n → α) (c : Fin n) :
    cpus.foldl (fun f c => Function.update f c v) f c = if c ∈ cpus then v else f c := by
  induction cpus generalizing f with
  | nil => rfl
  | cons d cpus ih =>
    rw [List.foldl_cons, ih]
    by_cases hc : c ∈ cpus
    · simp [hc]
    · by_cases hd : c = d
      · subst hd; simp [hc]
      · simp [hc, hd]

@[simp] theorem idtAdaptorActivate_idtr (idt : Addr) (s : State n) (c : Fin n) :
    (idtAdaptorActivate idt s).idtr c = idt := by
  have h := foldl_update_mem idt (List.finRange n) s.idtr c
  rw [if_pos (List.mem_finRange c)] at h
  unfold idtAdaptorActivate
  dsimp only
  split <;> simpa [onEachCpu] using h

@[simp] theorem idtAdaptorActivate_tssIst (idt : Addr) (s : State n) :
    (idtAdaptorActivate idt s).tssIst = s.tssIst := by
  unfold idtAdaptorActivate
  dsimp only
  split <;> simp

@[simp] theorem idtAdaptorActivate_idtAt (idt : Addr) (s : State n) :
    (idtAdaptorActivate idt s).idtAt = s.idtAt := by
  unfold idtAdaptorActivate
  dsimp only
  split <;> simp

end SymbiOS.Adaptor
