import SymbiOS.Elf.Tables
import Mathlib.Algebra.BigOperators.Group.List.Basic
import Mathlib.Algebra.Ring.Nat

/-!
# The generated symbol library

`elf_generate_elf_mmap` of `kld/elf.c`: the string tables, the symbol table, the
hash table and the program headers of a shared object that consists of absolute
symbols. Where libelf puts the sections is a parameter.
-/
namespace SymbiOS.Kld
open SymbiOS.Elf

inductive SymType where
  | func
  | data
  | rodata
  | bss
  | abs
  deriving Repr, DecidableEq

inductive SymBind where
  | global
  | local
  | weak
  deriving Repr, DecidableEq

/-- A C string holds no NUL. -/
structure SymbolEntry where
  name : List UInt8
  zero_not_mem : 0 ∉ name
  addr : BitVec 64
  size : BitVec 64
  bind : SymBind
  type : SymType

/-- The argument list: `count` is an `int`. -/
structure Entries where
  list : List SymbolEntry
  length_lt : list.length < 2 ^ 31

def Entries.count (es : Entries) : ℕ := es.list.length

/-- The bytes added so far; the buffer is allocated for all of them. -/
structure StrTab where
  buf : List UInt8

def StrTab.top (st : StrTab) : ℕ := st.buf.length

def addStr (st : StrTab) (s : List UInt8) : StrTab × ℕ := (⟨st.buf ++ s ++ [0]⟩, st.top)

/-- The loop that adds the names and notes their offsets. -/
def addNames (st : StrTab) : List SymbolEntry → StrTab × List ℕ
  | [] => (st, [])
  | e :: es =>
      let added := addStr st e.name
      let rest := addNames added.1 es
      (rest.1, added.2 :: rest.2)

/-- Both `.strtab` and `.dynstr`, with the offset of each name. -/
def symStrtab (es : Entries) : StrTab × List ℕ := addNames (addStr ⟨[]⟩ []).1 es.list

def secNames : List String :=
  [".shstrtab", ".strtab", ".symtab", ".dynstr", ".dynsym", ".hash", ".dynamic"]

/-- The section names, after the empty string at index 0. -/
def shStrtab : StrTab :=
  secNames.foldl (fun st s => (addStr st (s.toList.map fun c => UInt8.ofNat c.toNat)).1)
    (addStr ⟨[]⟩ []).1

structure Sym where
  stName : BitVec 32
  stInfo : BitVec 8
  stShndx : BitVec 16
  stValue : BitVec 64
  stSize : BitVec 64
  deriving Repr, DecidableEq

def SHN_ABS : BitVec 16 := 0xfff1

/-- Every symbol is weak or global, and a function or an object. -/
def symInfo (e : SymbolEntry) : BitVec 8 :=
  let b : BitVec 8 := if e.bind = .weak then 2 else 1
  let t : BitVec 8 := if e.type = .func then 2 else 1
  (b <<< 4) + (t &&& 0xf)

/-- `sym_table`: the contents of `.symtab` and of `.dynsym`. -/
def symTable (es : Entries) : List Sym :=
  ⟨0, 0, 0, 0, 0⟩ ::
    List.zipWith (fun e off => ⟨BitVec.ofNat 32 off, symInfo e, SHN_ABS, e.addr, e.size⟩)
      es.list (symStrtab es).2

/-- `h_buf`: allocated as `count + 3` zero words, then filled in. -/
def hBuf (count : ℕ) : List (BitVec 32) :=
  (List.range count).foldl (fun h i => h.set (3 + i) (BitVec.ofNat 32 (i + 1)))
    (((List.replicate (count + 3) 0).set 0 1).set 1 (BitVec.ofNat 32 (count + 1)))

/-- The name that the loader reads for a symbol index. -/
def dynName (es : Entries) (i : ℕ) : Option (List UInt8) :=
  (symTable es)[i]?.map fun sym => strAt (symStrtab es).1.buf sym.stName.toNat

@[simp] theorem addStr_buf (st : StrTab) (s : List UInt8) :
    (addStr st s).1.buf = st.buf ++ s ++ [0] := rfl

@[simp] theorem addStr_top (st : StrTab) (s : List UInt8) :
    (addStr st s).1.top = st.top + s.length + 1 := by
  simp [StrTab.top, Nat.add_assoc]

@[simp] theorem addNames_cons_fst (st : StrTab) (e : SymbolEntry) (es : List SymbolEntry) :
    (addNames st (e :: es)).1 = (addNames (addStr st e.name).1 es).1 := rfl

@[simp] theorem addNames_cons_snd (st : StrTab) (e : SymbolEntry) (es : List SymbolEntry) :
    (addNames st (e :: es)).2 = st.top :: (addNames (addStr st e.name).1 es).2 := rfl

lemma addNames_length (st : StrTab) (es : List SymbolEntry) :
    (addNames st es).2.length = es.length := by
  induction es generalizing st with
  | nil => rfl
  | cons e es ih => simp [ih]

lemma addNames_top (st : StrTab) (es : List SymbolEntry) :
    (addNames st es).1.top = st.top + (es.map fun e => e.name.length + 1).sum := by
  induction es generalizing st with
  | nil => simp [addNames]
  | cons e es ih =>
    rw [addNames_cons_fst, ih, addStr_top, List.map_cons, List.sum_cons]
    omega

/-- The loop only appends. -/
lemma addNames_buf (st : StrTab) (es : List SymbolEntry) :
    ∃ rest, (addNames st es).1.buf = st.buf ++ rest := by
  induction es generalizing st with
  | nil => exact ⟨[], by simp [addNames]⟩
  | cons e es ih =>
    obtain ⟨rest, hrest⟩ := ih (addStr st e.name).1
    use e.name ++ 0 :: rest
    rw [addNames_cons_fst, hrest, addStr_buf]
    simp

/-- Each noted offset leads to its name. -/
lemma strAt_addNames (st : StrTab) (es : List SymbolEntry) (i : ℕ) (e : SymbolEntry)
    (off : ℕ) (he : es[i]? = some e) (hoff : (addNames st es).2[i]? = some off) :
    strAt (addNames st es).1.buf off = e.name ∧ off < (addNames st es).1.top := by
  induction es generalizing st i with
  | nil => simp at he
  | cons a es ih =>
    rw [addNames_cons_snd] at hoff
    rw [addNames_cons_fst]
    cases i with
    | zero =>
      rw [List.getElem?_cons_zero, Option.some.injEq] at he hoff
      subst he hoff
      obtain ⟨rest, hrest⟩ := addNames_buf (addStr st a.name).1 es
      rw [addStr_buf, List.append_assoc _ [0], List.singleton_append] at hrest
      constructor
      · rw [hrest]
        exact strAt_append st.buf a.name rest a.zero_not_mem
      · rw [addNames_top, addStr_top]
        omega
    | succ i =>
      rw [List.getElem?_cons_succ] at he hoff
      exact ih (addStr st a.name).1 i he hoff

/-- The names in the table that the library's string sections hold. -/
lemma strAt_symStrtab {es : Entries} {i : ℕ} {e : SymbolEntry} (he : es.list[i]? = some e) :
    ∃ off, (symStrtab es).2[i]? = some off ∧ strAt (symStrtab es).1.buf off = e.name ∧
      off < (symStrtab es).1.top := by
  have hi : i < (symStrtab es).2.length := by
    unfold symStrtab
    rw [addNames_length]
    exact (List.getElem?_eq_some_iff.mp he).1
  have hoff : (symStrtab es).2[i]? = some ((symStrtab es).2[i]) := List.getElem?_eq_getElem hi
  exact ⟨_, hoff, strAt_addNames (addStr ⟨[]⟩ []).1 es.list i e _ he hoff⟩

/-- As long as `.dynstr` is addressable by 32 bits, the loader reads the name of
each entry at its symbol, which is the one after the reserved first. -/
theorem dynName_symbol (es : Entries) (i : ℕ) (e : SymbolEntry) (he : es.list[i]? = some e)
    (hlen : (symStrtab es).1.top ≤ 2 ^ 32) : dynName es (i + 1) = some e.name := by
  obtain ⟨off, hoff, hstr, hlt⟩ := strAt_symStrtab he
  have hword : (BitVec.ofNat 32 off).toNat = off := by
    rw [BitVec.toNat_ofNat]
    exact Nat.mod_eq_of_lt (Nat.lt_of_lt_of_le hlt hlen)
  unfold dynName symTable
  rw [List.getElem?_cons_succ, List.getElem?_zipWith, he, hoff]
  simp only [Option.map_some, hword]
  exact congrArg some hstr

/-- Filling in the chains leaves the words before them alone. -/
lemma foldl_set_getElem? (indices : List ℕ) (h : List (BitVec 32)) {k : ℕ} (hk : k < 3) :
    (indices.foldl (fun h i => h.set (3 + i) (BitVec.ofNat 32 (i + 1))) h)[k]? = h[k]? := by
  induction indices generalizing h with
  | nil => rfl
  | cons i indices ih =>
    rw [List.foldl_cons, ih, List.getElem?_set_ne (by omega)]

lemma foldl_set_length (indices : List ℕ) (h : List (BitVec 32)) :
    (indices.foldl (fun h i => h.set (3 + i) (BitVec.ofNat 32 (i + 1))) h).length = h.length := by
  induction indices generalizing h with
  | nil => rfl
  | cons i indices ih => rw [List.foldl_cons, ih, List.length_set]

@[simp] theorem hBuf_length (count : ℕ) : (hBuf count).length = count + 3 := by
  rw [hBuf, foldl_set_length]
  simp

lemma hBuf_zero (count : ℕ) : (hBuf count)[0]? = some 1 := by
  rw [hBuf, foldl_set_getElem? _ _ (by omega)]
  simp

lemma hBuf_one (count : ℕ) : (hBuf count)[1]? = some (BitVec.ofNat 32 (count + 1)) := by
  rw [hBuf, foldl_set_getElem? _ _ (by omega)]
  simp

/-- The only bucket is never filled in. -/
lemma hBuf_two (count : ℕ) : (hBuf count)[2]? = some 0 := by
  rw [hBuf, foldl_set_getElem? _ _ (by omega)]
  simp

/-- The table is well formed, and the loader finds every name of the list at the
index of its symbol. -/
def Findable (es : Entries) : Prop :=
  WellFormed (hBuf es.count) ∧
    ∀ i e, es.list[i]? = some e → ∃ fuel,
      lookup (hBuf es.count) (fun j => dynName es j == some e.name) e.name fuel = .found (i + 1)

/-- One word is missing: there is no room for the chain of the last symbol. -/
lemma not_wellFormed_hBuf (es : Entries) : ¬ WellFormed (hBuf es.count) := by
  rintro ⟨nbucket, nchain, h0, h1, hlen⟩
  have hlt := es.length_lt
  rw [hBuf_zero, Option.some.injEq] at h0
  rw [hBuf_one, Option.some.injEq] at h1
  rw [hBuf_length, ← h0, ← h1, BitVec.toNat_ofNat, Nat.mod_eq_of_lt] at hlen
  · have hone : (1 : BitVec 32).toNat = 1 := rfl
    omega
  · unfold Entries.count
    omega

lemma lookup_hBuf (count : ℕ) (isName : ℕ → Bool) (name : List UInt8) (fuel : ℕ) :
    lookup (hBuf count) isName name (fuel + 1) = .absent := by
  apply lookup_of_empty_bucket isName fuel (hBuf_zero count) (by decide)
  have hone : (1 : BitVec 32).toNat = 1 := rfl
  rw [hone, Nat.mod_one]
  exact hBuf_two count

/-- For every list of symbols the table is one word short, its one bucket is
empty, and every lookup of any name ends there: no symbol of a generated library
can be found. -/
theorem hash_never_findable (es : Entries) :
    ¬ WellFormed (hBuf es.count) ∧
    (∀ isName name fuel, lookup (hBuf es.count) isName name (fuel + 1) = .absent) ∧
    ¬ Findable es :=
  ⟨not_wellFormed_hBuf es, lookup_hBuf es.count, fun h => not_wellFormed_hBuf es h.1⟩

/-- The one-symbol library of a function `f`. -/
def oneSymbol : Entries := ⟨[⟨[102], by decide, 0x1000, 0, .global, .func⟩], by decide⟩

/-- For one symbol the words are 1, 2, 0, 1: four where five belong, and the
lookup of `f`, which is symbol 1, ends at the empty bucket. -/
theorem oneSymbol_not_found :
    hBuf oneSymbol.count = [1, 2, 0, 1] ∧ dynName oneSymbol 1 = some [102] ∧
    lookup (hBuf oneSymbol.count) (fun j => dynName oneSymbol j == some [102]) [102] 1 =
      .absent ∧ ¬ Findable oneSymbol := by
  refine ⟨by decide, by decide, by decide, ?_⟩
  intro h
  exact not_wellFormed_hBuf oneSymbol h.1

end SymbiOS.Kld
