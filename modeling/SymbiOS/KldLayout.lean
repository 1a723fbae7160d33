import SymbiOS.KldElf
import Mathlib.Algebra.Order.BigOperators.Group.List
import Mathlib.Algebra.Order.Ring.Nat

/-!
# What the load segment of a generated library covers

The sections grow with the symbols; the `PT_LOAD` header is set to one page. The
offsets come from libelf, which lays the sections out one after the other behind
the headers in the order they were made.
-/
namespace SymbiOS.Kld
open SymbiOS.Elf

inductive Section where
  | shstrtab
  | strtab
  | dynstr
  | symtab
  | dynsym
  | hash
  | dynamic
  deriving Repr, DecidableEq

/-- In the order of the `elf_newscn` calls. -/
def sectionOrder : List Section :=
  [.shstrtab, .strtab, .dynstr, .symtab, .dynsym, .hash, .dynamic]

/-- `sizeof(GElf_Sym)`, `sizeof(GElf_Dyn)` and the ELF and program headers. -/
def symEntsize : ℕ := 24

def dynEntsize : ℕ := 16

def headersSize : ℕ := 64 + 2 * 56

/-- An expression in `int`, with the wrap of its arithmetic, converted to `size_t`. -/
def intToSize (n : ℕ) : ℕ := ((BitVec.ofNat 32 n).signExtend 64).toNat

/-- The `d_size` of each section's data. The number of symbols is computed in `int`,
and so is the size of the hash table. -/
def sectionSize (es : Entries) : Section → ℕ
  | .shstrtab => shStrtab.top
  | .strtab | .dynstr => (symStrtab es).1.top
  | .symtab | .dynsym => intToSize (es.count + 1) * symEntsize % 2 ^ 64
  | .hash => intToSize ((es.count + 3) * 4)
  | .dynamic => 7 * dynEntsize

/-- The bytes that the buffer of each section has. -/
def bufferSize (es : Entries) : Section → ℕ
  | .shstrtab => shStrtab.top
  | .strtab | .dynstr => (symStrtab es).1.top
  | .symtab | .dynsym => (symTable es).length * symEntsize
  | .hash => (hBuf es.count).length * 4
  | .dynamic => 7 * dynEntsize

structure Phdr where
  pOffset : ℕ
  pVaddr : ℕ
  pFilesz : ℕ
  pMemsz : ℕ
  deriving Repr, DecidableEq

/-- The first program header; its offset stays at 0. -/
def loadPhdr : Phdr := ⟨0, 0, 0x1000, 0x1000⟩

inductive DynTag where
  | strtab
  | symtab
  | strsz
  | syment
  | hash
  | null
  deriving Repr, DecidableEq

/-- `dyn_data`: addresses are file offsets, since the segment is mapped at 0. -/
def dynData (es : Entries) (off : Section → ℕ) : List (DynTag × ℕ) :=
  [(.strtab, off .dynstr), (.symtab, off .dynsym), (.strsz, (symStrtab es).1.top),
    (.syment, symEntsize), (.hash, off .hash), (.null, 0), (.null, 0)]

def dynamicPhdr (es : Entries) (off : Section → ℕ) : Phdr :=
  ⟨off .dynamic, off .dynamic, sectionSize es .dynamic, sectionSize es .dynamic⟩

/-- The sections follow each other from a position on, without overlap. -/
def LaidOut (es : Entries) (off : Section → ℕ) : ℕ → List Section → Prop
  | _, [] => True
  | pos, s :: rest => pos ≤ off s ∧ LaidOut es off (off s + sectionSize es s) rest

/-- The layout that is assumed of libelf. -/
def Sequential (es : Entries) (off : Section → ℕ) : Prop :=
  LaidOut es off headersSize sectionOrder

/-- A byte range lies inside the file range and the memory range of a segment. -/
def Inside (p : Phdr) (first size : ℕ) : Prop :=
  ∀ b, first ≤ b → b < first + size →
    (p.pOffset ≤ b ∧ b < p.pOffset + p.pFilesz) ∧ p.pVaddr ≤ b ∧ b < p.pVaddr + p.pMemsz

/-- The load segment covers what the loader reads: the string table that `DT_STRTAB` and
`DT_STRSZ` name, the symbol and hash tables at `DT_SYMTAB` and `DT_HASH`, and the
entries themselves, where the second program header puts them. -/
structure Covered (es : Entries) (off : Section → ℕ) : Prop where
  strings : ∀ a n, (dynData es off).lookup .strtab = some a →
    (dynData es off).lookup .strsz = some n → Inside loadPhdr a n
  symbols : ∀ a, (dynData es off).lookup .symtab = some a →
    Inside loadPhdr a (sectionSize es .dynsym)
  hash : ∀ a, (dynData es off).lookup .hash = some a → Inside loadPhdr a (sectionSize es .hash)
  entries : Inside loadPhdr (dynamicPhdr es off).pOffset (dynamicPhdr es off).pFilesz

/-- These ranges are the four sections. -/
lemma covered_iff_sections (es : Entries) (off : Section → ℕ) :
    Covered es off ↔
      ∀ s ∈ [Section.dynstr, .dynsym, .hash, .dynamic],
        Inside loadPhdr (off s) (sectionSize es s) := by
  constructor
  · intro h s hs
    simp only [List.mem_cons, List.not_mem_nil, or_false] at hs
    rcases hs with rfl | rfl | rfl | rfl
    · exact h.strings _ _ rfl rfl
    · exact h.symbols _ rfl
    · exact h.hash _ rfl
    · exact h.entries
  · intro h
    constructor
    · intro a n ha hn
      obtain rfl : off .dynstr = a := Option.some.inj ha
      obtain rfl : sectionSize es .dynstr = n := Option.some.inj hn
      exact h .dynstr (by simp)
    · intro a ha
      obtain rfl : off .dynsym = a := Option.some.inj ha
      exact h .dynsym (by simp)
    · intro a ha
      obtain rfl : off .hash = a := Option.some.inj ha
      exact h .hash (by simp)
    · exact h .dynamic (by simp)

/-- The bytes of all names with their terminators. -/
def namesSize (es : Entries) : ℕ := (es.list.map fun e => e.name.length + 1).sum

lemma symStrtab_top (es : Entries) : (symStrtab es).1.top = 1 + namesSize es := by
  unfold symStrtab
  rw [addNames_top]
  rfl

lemma symTable_length (es : Entries) : (symTable es).length = es.count + 1 := by
  have hoffs : (symStrtab es).2.length = es.list.length := addNames_length _ es.list
  simp [symTable, hoffs, Entries.count]

lemma shStrtab_top : shStrtab.top = 58 := by decide

/-- Every name has its terminator. -/
lemma count_le_namesSize (es : Entries) : es.count ≤ namesSize es := by
  have h := List.sum_le_sum fun e (_ : e ∈ es.list) => Nat.le_add_left 1 e.name.length
  rw [List.map_const', List.sum_replicate_nat, Nat.mul_one] at h
  exact h

lemma intToSize_of_lt {n : ℕ} (h : n < 2 ^ 31) : intToSize n = n := by
  have hnat : (BitVec.ofNat 32 n).toNat = n := by
    rw [BitVec.toNat_ofNat]
    omega
  have hmsb : (BitVec.ofNat 32 n).msb = false := by
    rw [BitVec.msb_eq_false_iff_two_mul_lt, hnat]
    omega
  rw [intToSize, BitVec.signExtend_eq_setWidth_of_msb_false hmsb, BitVec.toNat_setWidth, hnat]
  omega

/-- What an `int` does not hold is negative, and a `size_t` makes it huge. -/
lemma intToSize_of_ge {n : ℕ} (h : 2 ^ 31 ≤ n) (h' : n < 2 ^ 32) :
    intToSize n = n + (2 ^ 64 - 2 ^ 32) := by
  have hnat : (BitVec.ofNat 32 n).toNat = n := by
    rw [BitVec.toNat_ofNat]
    omega
  have hmsb : (BitVec.ofNat 32 n).msb = true := by
    rw [BitVec.msb_eq_true_iff_two_mul_ge, hnat]
    omega
  rw [intToSize, BitVec.toNat_signExtend, hmsb, if_pos rfl, BitVec.toNat_setWidth, hnat]
  omega

/-- The table and its null symbol, as long as an `int` counts them. -/
lemma sectionSize_symbols {es : Entries} {s : Section} (hs : s = .symtab ∨ s = .dynsym)
    (hcount : es.count + 1 < 2 ^ 31) : sectionSize es s = (es.count + 1) * 24 := by
  have hsize : sectionSize es s = intToSize (es.count + 1) * symEntsize % 2 ^ 64 := by
    rcases hs with rfl | rfl <;> rfl
  rw [hsize, intToSize_of_lt hcount, symEntsize]
  omega

lemma sectionSize_hash {es : Entries} (hcount : (es.count + 3) * 4 < 2 ^ 31) :
    sectionSize es .hash = (hBuf es.count).length * 4 := by
  rw [sectionSize, intToSize_of_lt hcount, hBuf_length]

lemma sectionSize_dynamic (es : Entries) : sectionSize es .dynamic = 112 := rfl

/-- Headers and sections without any padding between them. -/
lemma headers_add_sizes {es : Entries} (hcount : (es.count + 3) * 4 < 2 ^ 31) :
    headersSize + (sectionOrder.map (sectionSize es)).sum =
      408 + 2 * namesSize es + 52 * es.count := by
  have hsymtab : sectionSize es .symtab = (es.count + 1) * 24 :=
    sectionSize_symbols (.inl rfl) (by omega)
  have hdynsym : sectionSize es .dynsym = (es.count + 1) * 24 :=
    sectionSize_symbols (.inr rfl) (by omega)
  simp only [sectionOrder, List.map_cons, List.map_nil, List.sum_cons, List.sum_nil, hsymtab,
    hdynsym, sectionSize_hash hcount, hBuf_length, sectionSize_dynamic]
  simp only [sectionSize, symStrtab_top, shStrtab_top, headersSize]
  omega

variable {es : Entries} {off : Section → ℕ}

/-- In a layout from `pos` on, the last section lies behind all bytes of the
others. -/
lemma LaidOut.sum_le {pos : ℕ} {front : List Section} {last : Section}
    (h : LaidOut es off pos (front ++ [last])) :
    pos + (front.map (sectionSize es)).sum ≤ off last := by
  induction front generalizing pos with
  | nil => simpa using h.1
  | cons s front ih =>
    have hrest := ih h.2
    have hpos : pos ≤ off s := h.1
    rw [List.map_cons, List.sum_cons]
    omega

lemma LaidOut.end_le {pos : ℕ} {front : List Section} {last s : Section}
    (h : LaidOut es off pos (front ++ [last])) (hs : s ∈ front) :
    off s + sectionSize es s ≤ off last := by
  induction front generalizing pos with
  | nil => simp at hs
  | cons a front ih =>
    rcases List.mem_cons.mp hs with heq | hmem
    · subst heq
      have hsum := h.2.sum_le
      omega
    · exact ih h.2 hmem

/-- The order with its last section apart. -/
lemma Sequential.front (h : Sequential es off) : LaidOut es off headersSize
    ([.shstrtab, .strtab, .dynstr, .symtab, .dynsym, .hash] ++ [Section.dynamic]) := h

lemma inside_loadPhdr {first size : ℕ} (h : first + size ≤ 0x1000) :
    Inside loadPhdr first size := by
  intro b hb hlt
  unfold loadPhdr
  simp only
  omega

/-- The page that is loaded. -/
lemma inside_loadPhdr_iff {first size : ℕ} (hsize : 0 < size) :
    Inside loadPhdr first size ↔ first + size ≤ 0x1000 := by
  constructor
  · intro h
    have hlast := h (first + size - 1) (by omega) (by omega)
    unfold loadPhdr at hlast
    simp only at hlast
    omega
  · exact inside_loadPhdr

/-- `.dynamic` comes last, so it decides. -/
lemma covered_iff_dynamic_end (h : Sequential es off) :
    Covered es off ↔ off .dynamic + sectionSize es .dynamic ≤ 0x1000 := by
  rw [covered_iff_sections]
  constructor
  · intro hc
    have hpos : 0 < sectionSize es .dynamic := by rw [sectionSize_dynamic]; omega
    exact (inside_loadPhdr_iff hpos).mp (hc .dynamic (by simp))
  · intro hend s hs
    apply inside_loadPhdr
    by_cases hlast : s = .dynamic
    · rw [hlast]
      exact hend
    · have hbefore : off s + sectionSize es s ≤ off .dynamic := by
        apply h.front.end_le
        simp only [List.mem_cons, List.not_mem_nil, or_false] at hs
        rcases hs with rfl | rfl | rfl | rfl <;> simp at hlast ⊢
      omega

/-- Whatever the sizes of the other tables are, the names are in the file twice. -/
lemma namesSize_le_dynamic (h : Sequential es off) : 2 * namesSize es ≤ off .dynamic := by
  have hsum := h.front.sum_le
  have hstrtab : sectionSize es .strtab = 1 + namesSize es := symStrtab_top es
  have hdynstr : sectionSize es .dynstr = 1 + namesSize es := symStrtab_top es
  simp only [List.map_cons, List.map_nil, List.sum_cons, List.sum_nil, hstrtab, hdynstr] at hsum
  omega

/-- The end of `.dynamic` lies behind everything written before it. -/
lemma sizes_le_dynamic_end (h : Sequential es off) (hcount : (es.count + 3) * 4 < 2 ^ 31) :
    408 + 2 * namesSize es + 52 * es.count ≤ off .dynamic + sectionSize es .dynamic := by
  have hsum := h.front.sum_le
  rw [← headers_add_sizes hcount]
  simp only [sectionOrder, List.map_cons, List.map_nil, List.sum_cons, List.sum_nil] at hsum ⊢
  omega

/-- For every list of symbols and every layout that puts the sections one after
the other: the load segment covers `.dynstr`, `.dynsym`, `.hash` and `.dynamic`
exactly when `.dynamic` ends inside the first page. This needs the headers, the
names (twice) and 52 bytes for each symbol to fit. -/
theorem load_covers_iff (h : Sequential es off) :
    (Covered es off ↔ off .dynamic + sectionSize es .dynamic ≤ 0x1000) ∧
    (Covered es off → 408 + 2 * namesSize es + 52 * es.count ≤ 0x1000) := by
  have hiff := covered_iff_dynamic_end h
  constructor
  · exact hiff
  · intro hc
    have hend := hiff.mp hc
    -- so few symbols that no size overflows
    have hnames := namesSize_le_dynamic h
    have hcount := count_le_namesSize es
    have hsizes := sizes_le_dynamic_end h (by omega)
    omega

/-- `d_align` of each section's data. -/
def sectionAlign : Section → ℕ
  | .shstrtab | .strtab | .dynstr => 1
  | .symtab | .dynsym | .hash | .dynamic => 8

def roundUp (x a : ℕ) : ℕ := (x + a - 1) / a * a

/-- Every section at the next aligned offset. -/
def place (es : Entries) : ℕ → List Section → Section → ℕ
  | _, [], _ => 0
  | pos, s :: rest, t =>
      let start := roundUp pos (sectionAlign s)
      if t = s then start else place es (start + sectionSize es s) rest t

def packed (es : Entries) : Section → ℕ := place es headersSize sectionOrder

lemma le_roundUp {x a : ℕ} (ha : 0 < a) : x ≤ roundUp x a := by
  have hlt := Nat.lt_div_mul_add ha (a := x + a - 1)
  unfold roundUp
  omega

lemma LaidOut.congr {off' : Section → ℕ} {pos : ℕ} {order : List Section}
    (h : LaidOut es off pos order) (heq : ∀ s ∈ order, off' s = off s) :
    LaidOut es off' pos order := by
  induction order generalizing pos with
  | nil => trivial
  | cons s order ih =>
    have hs := heq s List.mem_cons_self
    have hrest := ih h.2 fun t ht => heq t (List.mem_cons_of_mem s ht)
    refine ⟨?_, ?_⟩
    · rw [hs]
      exact h.1
    · rw [hs]
      exact hrest

lemma laidOut_place (es : Entries) (pos : ℕ) (order : List Section) (hnodup : order.Nodup) :
    LaidOut es (place es pos order) pos order := by
  induction order generalizing pos with
  | nil => trivial
  | cons s order ih =>
    obtain ⟨hnot, hnodup⟩ := List.nodup_cons.mp hnodup
    have hself : place es pos (s :: order) s = roundUp pos (sectionAlign s) := by simp [place]
    have halign : 0 < sectionAlign s := by cases s <;> simp [sectionAlign]
    refine ⟨?_, ?_⟩
    · rw [hself]
      exact le_roundUp halign
    · rw [hself]
      apply (ih _ hnodup).congr
      intro t ht
      have hne : t ≠ s := fun he => hnot (he ▸ ht)
      simp [place, hne]

lemma sequential_packed (es : Entries) : Sequential es (packed es) :=
  laidOut_place es headersSize sectionOrder (by decide)

/-- The library of one function is covered. -/
theorem load_covers_oneSymbol : Covered oneSymbol (packed oneSymbol) :=
  (load_covers_iff (sequential_packed oneSymbol)).1.mpr (by decide)

lemma zero_not_mem_f : (0 : UInt8) ∉ [102] := by decide

/-- Sixty-six functions with names of one byte. -/
def manySymbols : Entries :=
  ⟨List.replicate 66 ⟨[102], zero_not_mem_f, 0x1000, 0, .global, .func⟩, by
    rw [List.length_replicate]
    omega⟩

/-- The end of `.dynamic` is then behind the page that is loaded. -/
theorem load_misses_manySymbols :
    Sequential manySymbols (packed manySymbols) ∧ ¬ Covered manySymbols (packed manySymbols) := by
  have hseq := sequential_packed manySymbols
  refine ⟨hseq, ?_⟩
  intro hc
  have hend := (covered_iff_dynamic_end hseq).mp hc
  have hnames : namesSize manySymbols = 132 := by simp [namesSize, manySymbols]
  have hcount : manySymbols.count = 66 := by simp [Entries.count, manySymbols]
  have hsizes := sizes_le_dynamic_end hseq (by omega)
  omega

end SymbiOS.Kld
