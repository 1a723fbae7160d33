import SymbiOS.GenAppHeader
import SymbiOS.GenModsHeader

/-!
# Loading the modules (`load_ext_module`)

The loader hands every module of its program to the kernel. A module that the kernel has
already is no error and is left as it is; a refusal does not keep the loader from going on
with the next module, and what it has loaded stays loaded.
-/
namespace SymbiOS.Dpld
open SymbiOS.PyText SymbiOS.Gen

/-- A loaded module: its name, what the application's header declared if `kcc` built it, and
its `app_got`. -/
structure Module where
  name : Text
  header : Option (List Cursor)
  appGot : Option ℕ

/-- A module as it comes from its object file. -/
def fresh (name : Text) (header : Option (List Cursor)) : Module := ⟨name, header, none⟩

/-- The kernel's module of that name. -/
def lookup (modules : List Module) (name : Text) : Option Module :=
  modules.find? fun m => decide (m.name = name)

def EEXIST : ℕ := 17

/-- The kernel's answers to one request after the other, given whether a module of the
name is loaded: 0, or an errno. It loads no second module of a name. -/
structure Answers where
  errno : ℕ → Bool → ℕ
  loads_once : ∀ i, errno i true ≠ 0

namespace Answers

/-- The `i`th request fails, and not because the module is there. -/
def refuses (a : Answers) (i : ℕ) (loaded : Bool) : Bool :=
  decide (a.errno i loaded ≠ 0 ∧ a.errno i loaded ≠ EEXIST)

/-- `EEXIST` as it is documented: a module of the name is loaded, and nothing else is wrong
with a request for one that is. -/
structure Documented (a : Answers) : Prop where
  loaded : ∀ i, a.errno i true = EEXIST
  missing : ∀ i, a.errno i false ≠ EEXIST

end Answers

/-- `init_module` with the system call, which puts a new module into the kernel's list or
fails with `errno`. -/
def initModule (errno : Bool → ℕ) (name : Text) (header : Option (List Cursor))
    (modules : List Module) : ℤ × List Module :=
  let e := errno (lookup modules name).isSome
  if e = 0 then (0, fresh name header :: modules)
  else if e = EEXIST then (0, modules)
  else (-1, modules)

/-- One `LOAD_MODULE` after the other, from the `i`th request on. -/
def loadModules (header : Text → Option (List Cursor)) (answers : Answers) :
    ℕ → List Text → List Module → ℤ × List Module
  | _, [], modules => (0, modules)
  | i, name :: names, modules =>
      let r := initModule (answers.errno i) name (header name) modules
      let rest := loadModules header answers (i + 1) names r.2
      (r.1 + rest.1, rest.2)

/-- `LOAD_ALL_MODULES` of the header that `genmodsheader` wrote for the files. -/
def loadAllModules (files : List Text) (header : Text → Option (List Cursor))
    (answers : Answers) (modules : List Module) : ℤ × List Module :=
  loadModules header answers 0 (loadedNames (generateModulesHeader files (lit "modules.h"))) modules

lemma lookup_cons (m : Module) (modules : List Module) (name : Text) :
    lookup (m :: modules) name = if m.name = name then some m else lookup modules name := by
  simp only [lookup, List.find?_cons]
  split <;> simp_all

section InitModule

variable {errno : Bool → ℕ} {loading name : Text} {header : Option (List Cursor)}
  {modules : List Module}

/-- A module that was there is found as before, and a new one if the kernel took it. -/
lemma lookup_initModule (honce : errno true ≠ 0) :
    lookup (initModule errno loading header modules).2 name =
      if lookup modules name = none ∧ loading = name ∧ errno false = 0 then
        some (fresh loading header)
      else lookup modules name := by
  rw [initModule]
  cases hloaded : lookup modules loading with
  | none =>
    by_cases hzero : errno false = 0
    · simp only [Option.isSome_none, hzero, if_true, and_true, lookup_cons, fresh]
      by_cases hname : loading = name
      · rw [← hname]
        simp [hloaded]
      · simp [hname]
    · simp only [Option.isSome_none, hzero, and_false, if_false]
      split <;> rfl
  | some m =>
    have hkept : ¬ (lookup modules name = none ∧ loading = name ∧ errno false = 0) := by
      rintro ⟨hnone, rfl, -⟩
      exact absurd (hloaded.symm.trans hnone) (by simp)
    rw [if_neg hkept]
    simp only [Option.isSome_some, if_neg honce]
    split <;> rfl

lemma initModule_fst (a : Answers) (i : ℕ) :
    (initModule (a.errno i) loading header modules).1 =
      if a.refuses i (lookup modules loading).isSome then -1 else 0 := by
  simp only [initModule, Answers.refuses, decide_eq_true_eq]
  by_cases hzero : a.errno i (lookup modules loading).isSome = 0
  · simp [hzero]
  · by_cases hexist : a.errno i (lookup modules loading).isSome = EEXIST
    · simp [hexist, EEXIST]
    · simp [hzero, hexist]

lemma initModule_suffix : modules <:+ (initModule errno loading header modules).2 := by
  rw [initModule]
  split_ifs
  · exact List.suffix_cons _ _
  · exact List.suffix_rfl
  · exact List.suffix_rfl

end InitModule

section LoadModules

variable {header : Text → Option (List Cursor)} {answers : Answers} {k : ℕ} {names : List Text}
  {modules : List Module} {name : Text} {m : Module}

lemma lookup_loadModules_of_some (h : lookup modules name = some m) :
    lookup (loadModules header answers k names modules).2 name = some m := by
  induction names generalizing k modules with
  | nil => exact h
  | cons first names ih =>
    apply ih
    rw [lookup_initModule (answers.loads_once k), h]
    simp

lemma lookup_loadModules_of_not_mem (h : name ∉ names) :
    lookup (loadModules header answers k names modules).2 name = lookup modules name := by
  induction names generalizing k modules with
  | nil => rfl
  | cons first names ih =>
    rw [List.mem_cons, not_or] at h
    rw [loadModules, ih h.2, lookup_initModule (answers.loads_once k),
      if_neg fun hc => h.1 hc.2.1.symm]

/-- A module found afterwards was there before or comes from its object file. -/
lemma lookup_loadModules_cases
    (h : lookup (loadModules header answers k names modules).2 name = some m) :
    lookup modules name = some m ∨ lookup modules name = none ∧ m = fresh name (header name) := by
  cases hbefore : lookup modules name with
  | some m' =>
    rw [lookup_loadModules_of_some hbefore] at h
    exact Or.inl h
  | none =>
    refine Or.inr ⟨rfl, ?_⟩
    induction names generalizing k modules with
    | nil => exact absurd (hbefore.symm.trans h) (by simp)
    | cons first names ih =>
      have hlookup : lookup (initModule (answers.errno k) first (header first) modules).2 name =
          if lookup modules name = none ∧ first = name ∧ answers.errno k false = 0 then
            some (fresh first (header first))
          else lookup modules name := lookup_initModule (answers.loads_once k)
      by_cases hnew : first = name ∧ answers.errno k false = 0
      · obtain ⟨rfl, hzero⟩ := hnew
        rw [if_pos ⟨hbefore, rfl, hzero⟩] at hlookup
        rw [loadModules, lookup_loadModules_of_some hlookup] at h
        exact (Option.some.inj h).symm
      · apply ih h
        rw [hlookup, if_neg fun hc => hnew hc.2, hbefore]

lemma loadModules_suffix : modules <:+ (loadModules header answers k names modules).2 := by
  induction names generalizing k modules with
  | nil => exact List.suffix_rfl
  | cons first names ih => exact initModule_suffix.trans ih

/-- The kernel has a module afterwards that it had, or that it took when its turn came. -/
lemma lookup_loadModules_ne_none_iff (hnames : names.Nodup) {i : ℕ} (hi : names[i]? = some name) :
    lookup (loadModules header answers k names modules).2 name ≠ none ↔
      lookup modules name ≠ none ∨ answers.errno (k + i) false = 0 := by
  induction names generalizing k modules i with
  | nil => simp at hi
  | cons first names ih =>
    obtain ⟨hfirst, hrest⟩ := List.nodup_cons.mp hnames
    cases i with
    | zero =>
      obtain rfl : first = name := by simpa using hi
      rw [loadModules, lookup_loadModules_of_not_mem hfirst,
        lookup_initModule (answers.loads_once k)]
      by_cases hloaded : lookup modules first = none <;> simp [hloaded]
    | succ i =>
      have hmem : name ∈ names := List.mem_of_getElem? (by simpa using hi)
      have hne : first ≠ name := by
        rintro rfl
        exact hfirst hmem
      rw [loadModules, ih hrest (by simpa using hi), lookup_initModule (answers.loads_once k),
        if_neg fun hc => hne hc.2.1, Nat.add_assoc, Nat.add_comm 1 i]

/-- What is added up counts the requests that fail with another error than `EEXIST`. -/
lemma loadModules_fst (hnames : names.Nodup) :
    (loadModules header answers k names modules).1 =
      -((names.zipIdx k).countP fun p => answers.refuses p.2 (lookup modules p.1).isSome) := by
  induction names generalizing k modules with
  | nil => rfl
  | cons first names ih =>
    obtain ⟨hfirst, hrest⟩ := List.nodup_cons.mp hnames
    have hsum : (loadModules header answers k (first :: names) modules).1 =
        (initModule (answers.errno k) first (header first) modules).1 +
          (loadModules header answers (k + 1) names
            (initModule (answers.errno k) first (header first) modules).2).1 := rfl
    -- the module that was tried is none of the others
    have hothers : (names.zipIdx (k + 1)).countP (fun p => answers.refuses p.2
          (lookup (initModule (answers.errno k) first (header first) modules).2 p.1).isSome) =
        (names.zipIdx (k + 1)).countP fun p => answers.refuses p.2 (lookup modules p.1).isSome := by
      apply List.countP_congr
      intro p hp
      have hne : first ≠ p.1 := by
        rintro rfl
        exact hfirst (List.fst_mem_of_mem_zipIdx hp)
      rw [lookup_initModule (answers.loads_once k), if_neg fun hc => hne hc.2.1]
    rw [hsum, ih hrest, initModule_fst, hothers, List.zipIdx_cons]
    cases hrefuses : answers.refuses k (lookup modules first).isSome with
    | false =>
      rw [List.countP_cons_of_neg (by simp [hrefuses]), if_neg (by simp), Int.zero_add]
    | true =>
      rw [List.countP_cons_of_pos (by simp [hrefuses]), if_pos rfl, Int.natCast_succ, Int.neg_add,
        Int.add_comm]

/-- With the documented answers those are the requests for the modules that are missing
afterwards. -/
lemma countP_refuses (hdoc : answers.Documented) (hnames : names.Nodup) :
    (names.zipIdx k).countP (fun p => answers.refuses p.2 (lookup modules p.1).isSome) =
      names.countP fun name =>
        (lookup (loadModules header answers k names modules).2 name).isNone := by
  have hcount (q : Text → Bool) :
      names.countP q = (names.zipIdx k).countP fun p => q p.1 := by
    conv_lhs => rw [← List.zipIdx_map_fst k names, List.countP_map]
    rfl
  rw [hcount]
  apply List.countP_congr
  rintro ⟨name, j⟩ hp
  obtain ⟨hle, hi⟩ := List.mk_mem_zipIdx_iff_le_and_getElem?_sub.mp hp
  have hafter : lookup (loadModules header answers k names modules).2 name ≠ none ↔
      lookup modules name ≠ none ∨ answers.errno (k + (j - k)) false = 0 :=
    lookup_loadModules_ne_none_iff hnames hi
  rw [Nat.add_sub_cancel' hle] at hafter
  have hloaded := hdoc.loaded j
  have hmissing := hdoc.missing j
  rw [Option.isNone_iff_eq_none, ← not_iff_not]
  refine Iff.trans ?_ hafter.symm
  rw [Answers.refuses, decide_eq_true_eq]
  cases hbefore : lookup modules name with
  | none =>
    simp only [Option.isSome_none, ne_eq, not_true_eq_false, false_or]
    tauto
  | some m => simp [hloaded]

end LoadModules

/-- A kernel that has no room for the second module it is asked for. -/
def fullAtSecond : Answers where
  errno i loaded := if loaded then EEXIST else if i = 1 then 12 else 0
  loads_once _ := by simp [EEXIST]

end SymbiOS.Dpld
