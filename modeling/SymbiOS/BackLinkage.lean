import SymbiOS.CLib
import SymbiOS.Elf.Tables
import Mathlib.Data.List.Infix

/-!
# Symbols of the application in a kernel module

A module's variable `__user_sym__f` stands for the function `f` of the application.
`resolve_app_symbols` goes through the module's symbol table and fills these variables
with what `dlsym` returns. The length of the prefix is written as 11.
-/
namespace SymbiOS.BackLinkage
open SymbiOS.CLib SymbiOS.Elf

abbrev Addr := BitVec 64

/-- The fields of `Elf64_Sym` that the loop reads. -/
structure Sym where
  stName : BitVec 32
  stValue : Addr
  deriving DecidableEq, Repr

/-- `mod_kallsyms` of the module. -/
structure Kallsyms where
  symtab : List Sym
  strtab : List UInt8

def userSym : List UInt8 := ascii "__user_sym__"

def Kallsyms.nameOf (k : Kallsyms) (sym : Sym) : List UInt8 :=
  if sym.stName ≠ 0 then strAt k.strtab sym.stName.toNat else []

/-- `strncmp(s, t, n) == 0` on strings. -/
def strncmpEq (s t : List UInt8) (n : ℕ) : Bool := decide (s.take n = t.take n)

/-- A store of the loop: the number of the symbol, the address and the value. -/
structure Store where
  index : ℕ
  addr : Addr
  value : Addr
  deriving DecidableEq, Repr

/-- The loop's body. `dlsym` answers for the handle that was passed. -/
def resolveSym (dlsym : List UInt8 → Addr) (k : Kallsyms) (s : ℕ) (sym : Sym) : Option Store :=
  let name := k.nameOf sym
  if strncmpEq name userSym 11 then
    if sym.stValue ≠ 0 then some ⟨s, sym.stValue, dlsym (name.drop 11)⟩ else none
  else none

def resolveAppSymbols (dlsym : List UInt8 → Addr) (k : Kallsyms) : List Store :=
  (List.range k.symtab.length).filterMap fun s => k.symtab[s]?.bind (resolveSym dlsym k s)

/-- Every symbol that stands for `s` gets `dlsym(handle, s)`, and nothing is stored for
another symbol. -/
structure BindsRealNames (dlsym : List UInt8 → Addr) (k : Kallsyms) (stores : List Store) :
    Prop where
  stored : ∀ i sym s, k.symtab[i]? = some sym → k.nameOf sym = userSym ++ s →
    sym.stValue ≠ 0 → ⟨i, sym.stValue, dlsym s⟩ ∈ stores
  only : ∀ store ∈ stores, ∃ sym s, k.symtab[store.index]? = some sym ∧
    k.nameOf sym = userSym ++ s ∧ store.addr = sym.stValue

variable {dlsym : List UInt8 → Addr} {k : Kallsyms}

lemma strncmpEq_userSym_iff (name : List UInt8) :
    strncmpEq name userSym 11 ↔ userSym.take 11 <+: name := by
  rw [strncmpEq, decide_eq_true_eq, List.prefix_iff_eq_take, eq_comm]
  rfl

lemma resolveSym_eq_some_iff {s : ℕ} {sym : Sym} {store : Store} :
    resolveSym dlsym k s sym = some store ↔
      userSym.take 11 <+: k.nameOf sym ∧ sym.stValue ≠ 0 ∧
        ⟨s, sym.stValue, dlsym ((k.nameOf sym).drop 11)⟩ = store := by
  simp only [resolveSym, Option.ite_none_right_eq_some, strncmpEq_userSym_iff, Option.some.injEq]

/-- What the loop stores. -/
lemma mem_resolveAppSymbols {store : Store} :
    store ∈ resolveAppSymbols dlsym k ↔
      ∃ sym, k.symtab[store.index]? = some sym ∧ userSym.take 11 <+: k.nameOf sym ∧
        sym.stValue ≠ 0 ∧ store.addr = sym.stValue ∧
        store.value = dlsym ((k.nameOf sym).drop 11) := by
  simp only [resolveAppSymbols, List.mem_filterMap, List.mem_range, Option.bind_eq_some_iff,
    resolveSym_eq_some_iff]
  constructor
  · rintro ⟨s, -, sym, hsym, hname, hvalue, rfl⟩
    exact ⟨sym, hsym, hname, hvalue, rfl, rfl⟩
  · rintro ⟨sym, hsym, hname, hvalue, haddr, hval⟩
    obtain ⟨hlt, -⟩ := List.getElem?_eq_some_iff.mp hsym
    refine ⟨store.index, hlt, sym, hsym, hname, hvalue, ?_⟩
    rw [← haddr, ← hval]

/-- A name with the whole prefix passes the test, and what is left of it has the
underscore too much. -/
lemma userSym_append (s : List UInt8) :
    userSym.take 11 <+: userSym ++ s ∧ (userSym ++ s).drop 11 = 95 :: s := by
  constructor
  · exact (List.take_prefix 11 userSym).trans (List.prefix_append userSym s)
  · rfl

/-- For every symbol table and every `dlsym`: the user symbols are bound under their
real names, and nothing else is written, exactly when every symbol with an address
whose name starts with the first eleven characters of the prefix has the whole prefix,
and `dlsym` answers for the rest as it does for the rest with an underscore in front. -/
theorem resolveAppSymbols_binds_iff (dlsym : List UInt8 → Addr) (k : Kallsyms) :
    BindsRealNames dlsym k (resolveAppSymbols dlsym k) ↔
      ∀ sym ∈ k.symtab, sym.stValue ≠ 0 → userSym.take 11 <+: k.nameOf sym →
        ∃ s, k.nameOf sym = userSym ++ s ∧ dlsym (95 :: s) = dlsym s := by
  constructor
  · intro h sym hsym hvalue hname
    obtain ⟨i, hi⟩ := List.mem_iff_getElem?.mp hsym
    have hmem : (⟨i, sym.stValue, dlsym ((k.nameOf sym).drop 11)⟩ : Store) ∈
        resolveAppSymbols dlsym k :=
      mem_resolveAppSymbols.mpr ⟨sym, hi, hname, hvalue, rfl, rfl⟩
    obtain ⟨sym', s, hi', hs, -⟩ := h.only _ hmem
    obtain rfl : sym = sym' := Option.some.inj (hi.symm.trans hi')
    refine ⟨s, hs, ?_⟩
    obtain ⟨sym'', hi'', -, -, -, hval⟩ :=
      mem_resolveAppSymbols.mp (h.stored i sym s hi hs hvalue)
    obtain rfl : sym = sym'' := Option.some.inj (hi.symm.trans hi'')
    rw [hs, (userSym_append s).2] at hval
    exact hval.symm
  · intro h
    refine ⟨?_, ?_⟩
    · intro i sym s hi hs hvalue
      have hname : userSym.take 11 <+: k.nameOf sym := hs ▸ (userSym_append s).1
      obtain ⟨s', hs', hsame⟩ := h sym (List.mem_of_getElem? hi) hvalue hname
      obtain rfl : s = s' := List.append_cancel_left (hs.symm.trans hs')
      refine mem_resolveAppSymbols.mpr ⟨sym, hi, hname, hvalue, rfl, ?_⟩
      rw [hs, (userSym_append s).2, hsame]
    · intro store hstore
      obtain ⟨sym, hi, hname, hvalue, haddr, -⟩ := mem_resolveAppSymbols.mp hstore
      obtain ⟨s, hs, -⟩ := h sym (List.mem_of_getElem? hi) hvalue hname
      exact ⟨sym, s, hi, hs, haddr⟩

/-- A module with one user symbol, at the given name. -/
def demoKallsyms (name : String) : Kallsyms :=
  ⟨[⟨1, 0xffffffffc0002000⟩], 0 :: ascii name ++ [0]⟩

/-- The application has a function `user_add`. -/
def demoDlsym (name : List UInt8) : Addr := if name = ascii "user_add" then 0x401136 else 0

/-- `dlsym` is asked for `_user_add`, which the application does not have; and the
module's own `__user_sym_count` is overwritten. -/
theorem resolveAppSymbols_misses :
    resolveAppSymbols demoDlsym (demoKallsyms "__user_sym__user_add") =
      [⟨0, 0xffffffffc0002000, 0⟩] ∧
    ¬ BindsRealNames demoDlsym (demoKallsyms "__user_sym__user_add")
      (resolveAppSymbols demoDlsym (demoKallsyms "__user_sym__user_add")) ∧
    resolveAppSymbols demoDlsym (demoKallsyms "__user_sym_count") =
      [⟨0, 0xffffffffc0002000, 0⟩] := by
  have hstores : resolveAppSymbols demoDlsym (demoKallsyms "__user_sym__user_add") =
      [⟨0, 0xffffffffc0002000, 0⟩] := by decide
  refine ⟨hstores, ?_, by decide⟩
  intro h
  have hmem := h.stored 0 ⟨1, 0xffffffffc0002000⟩ (ascii "user_add") rfl (by decide) (by decide)
  rw [hstores] at hmem
  exact absurd hmem (by decide)

end SymbiOS.BackLinkage
