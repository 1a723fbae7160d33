import SymbiOS.KldReadback
import SymbiOS.KldInit
import SymbiOS.Scanf
import SymbiOS.OrderedTable
import Mathlib.Algebra.Order.BigOperators.Group.List
import Mathlib.Algebra.Order.Ring.Nat

/-!
# The symbols of the kernel

`prcKallsyms` of `kld/main.c` reads the lines of `/proc/kallsyms`, collects the symbols of
the kernel and of every module, and writes a library for each. The lines are cut in place
at the positions that `sscanf` stores. Where a position does not fit an `int`, or a
capacity a `size_t`, the run is undefined. What `mkdir` answers is a parameter, and memory
does not run out.
-/
namespace SymbiOS.Kld
open SymbiOS.Elf SymbiOS.CLib

/-- A run that does not end: `assert(0)`, or an operation without a meaning in C. -/
inductive Stop where
  | abort
  | undefined

/-- A file has fewer than `2 ^ 63` bytes, since offsets into it are signed. -/
structure KallsymsFile where
  lines : List CString
  size_lt : (lines.map fun line => line.bytes.length).sum < 2 ^ 63

/-- The address and the type of a line with what follows them, or `none` where `sscanf`
returns less than 2. -/
def scanHead (line : List UInt8) : Option (BitVec 64 × UInt8 × List UInt8) :=
  (scanHex line).bind fun r => (scanChar r.2).map fun t => (r.1, t.1, t.2)

/-- What `sscanf` stores. The positions are zero before, and keep that where the input ends
before their directive. -/
structure Fields where
  addr : BitVec 64
  type : UInt8
  symStart : ℕ
  symEnd : ℕ
  modStart : ℕ
  modEnd : ℕ

/-- The directives after `%c`. A space and `%n` succeed at the end of the input, `%*s` does
not. -/
def scanFields (line : List UInt8) (addr : BitVec 64) (type : UInt8) (rest : List UInt8) : Fields :=
  let pos := fun s : List UInt8 => line.length - s.length
  let sym := skipSpace rest
  if sym = [] then ⟨addr, type, pos sym, 0, 0, 0⟩
  else
    let symRest := skipWord sym
    let mod := skipSpace symRest
    if mod = [] then ⟨addr, type, pos sym, pos symRest, pos mod, 0⟩
    else ⟨addr, type, pos sym, pos symRest, pos mod, pos (skipWord mod)⟩

def sscanf (line : List UInt8) : Option Fields :=
  (scanHead line).map fun h => scanFields line h.1 h.2.1 h.2.2

/-- The positions are stored in variables of type `int`. -/
def Fields.InRange (s : Fields) : Prop :=
  s.symStart ≤ INT_MAX ∧ s.symEnd ≤ INT_MAX ∧ s.modStart ≤ INT_MAX ∧ s.modEnd ≤ INT_MAX

instance (s : Fields) : Decidable s.InRange := inferInstanceAs (Decidable (_ ∧ _))

def cString (buf : List UInt8) (off : ℕ) : CString := ⟨strAt buf off, zero_not_mem_strAt buf off⟩

/-- What a line adds to a list. -/
structure Record where
  addr : BitVec 64
  type : UInt8
  name : CString
  module : Option (List UInt8)
  nmlen : BitVec 64

/-- The module's name ends where its bracket was, or at the end of the word. -/
def cutModule (buf : List UInt8) (s : Fields) : List UInt8 :=
  let buf := buf.set s.modStart 91
  let last := buf.getD (s.modEnd - 1) 0
  let buf := if last = 10 ∨ last = 13 ∨ last = 93 then buf.set (s.modEnd - 1) 0 else buf
  buf.set s.modEnd 0

def readRecord (line : List UInt8) (s : Fields) : Record :=
  let buf := (line ++ [0]).set s.symEnd 0
  let nmlen := BitVec.ofInt 64 (s.symEnd - s.symStart + 1)
  if s.modStart ≠ 0 ∧ s.modStart < s.modEnd then
    let buf := cutModule buf s
    ⟨s.addr, s.type, cString buf s.symStart, some (strAt buf (s.modStart + 1)), nmlen⟩
  else ⟨s.addr, s.type, cString buf s.symStart, none, nmlen⟩

/-- The letters that `initSE` supports, with what it makes of them. -/
def symKind (type : UInt8) : Option (SymBind × SymType) :=
  if type ∈ ascii "Aa" then some (.global, .abs)
  else if type ∈ ascii "Bb" then some (.global, .bss)
  else if type ∈ ascii "Dd" then some (.global, .data)
  else if type ∈ ascii "Rr" then some (.global, .rodata)
  else if type ∈ ascii "Tt" then some (.global, .func)
  else if type ∈ ascii "VWvw" then some (.weak, .func)
  else none

def initSE (addr : BitVec 64) (name : CString) (type : UInt8) : Option SymbolEntry :=
  (symKind type).map fun kind => ⟨name.bytes, name.zero_not_mem, addr, 0, kind.1, kind.2⟩

def Record.entry (r : Record) : Option SymbolEntry := initSE r.addr r.name r.type

/-- The entries of one library and the length of their names. -/
structure Lib where
  entries : GrowArray SymbolEntry
  nmstrlen : BitVec 64

def Lib.empty : Lib := ⟨.empty, 0⟩

/-- The array is grown first, and then the entry is filled in. -/
def Lib.add (lib : Lib) (r : Record) : Except Stop Lib :=
  match r.entry with
  | none => .error .abort
  | some e =>
      match lib.entries.push (2 ^ 64) e with
      | none => .error .undefined
      | some entries => .ok ⟨entries, lib.nmstrlen + r.nmlen⟩

/-- The kernel's entries, and those of the modules in the order of their first lines. -/
structure Symbols where
  kern : Lib
  modules : OrderedTable (List UInt8) Lib

def Symbols.empty : Symbols := ⟨.empty, .empty⟩

def Symbols.add (st : Symbols) (r : Record) : Except Stop Symbols :=
  match r.module with
  | none => (st.kern.add r).map fun lib => { st with kern := lib }
  | some m =>
      (((st.modules.find? m).getD .empty).add r).map fun lib =>
        { st with modules := st.modules.set m lib }

def prcLine (st : Symbols) (line : CString) : Except Stop Symbols :=
  match sscanf line.bytes with
  | none => .ok st
  | some s => if s.InRange then st.add (readRecord line.bytes s) else .error .undefined

/-- A call of `writeso`. -/
structure WriteSo where
  path : List UInt8
  entries : List SymbolEntry
  nmstrlen : BitVec 64

/-- `pathprefix`, where it is not NULL: the caller gives a text that is not empty. -/
structure PathPrefix extends CString where
  ne_nil : bytes ≠ []

def kernText : Option PathPrefix → List UInt8
  | some dir => dir.bytes ++ ascii "/libkern.so"
  | none => ascii "libkern.so"

def moduleText : Option PathPrefix → List UInt8 → List UInt8
  | some dir, m => dir.bytes ++ ascii "/lib" ++ m ++ ascii ".so"
  | none, m => ascii "lib" ++ m ++ ascii ".so"

def Lib.write (lib : Lib) (text : List UInt8) : WriteSo :=
  ⟨(snprintf PATH_MAX text).2, lib.entries.items, lib.nmstrlen⟩

/-- The kernel is written if it has symbols, then every module. -/
def Symbols.writes (st : Symbols) (dir : Option PathPrefix) : List WriteSo :=
  (if st.kern.entries.items.length ≠ 0 then [st.kern.write (kernText dir)] else []) ++
    st.modules.entries.map fun p => p.2.write (moduleText dir p.1)

/-- `mkdir path` tells whether the directory was made or was there before. -/
def mkpath (mkdir : List UInt8 → Bool) (path : List UInt8) : Bool :=
  (((List.range path.length).filter fun i => 0 < i && path[i]? == some slash).all fun i =>
    mkdir (path.take i)) && mkdir path

def pathOk (mkdir : List UInt8 → Bool) : Option PathPrefix → Bool
  | none => true
  | some dir => mkpath mkdir dir.bytes

def prcKallsyms (mkdir : List UInt8 → Bool) (dir : Option PathPrefix) (file : KallsymsFile) :
    Except Stop (List WriteSo) :=
  if pathOk mkdir dir then (file.lines.foldlM prcLine .empty).map fun st => st.writes dir
  else .ok []

/-- The module that a word names: without its first character, and without the bracket. -/
def moduleName (word : List UInt8) : List UInt8 :=
  let m := word.tail
  if m.getLast? ∈ [some 10, some 13, some 93] then m.dropLast else m

theorem mem_of_mem_moduleName {word : List UInt8} {c : UInt8} (h : c ∈ moduleName word) :
    c ∈ word := by
  unfold moduleName at h
  dsimp only at h
  apply List.mem_of_mem_tail
  split at h
  · exact List.mem_of_mem_dropLast h
  · exact h

theorem scanHead_suffix {line rest : List UInt8} {addr : BitVec 64} {type : UInt8}
    (h : scanHead line = some (addr, type, rest)) :
    ∃ head, line = head ++ rest ∧ 2 ≤ head.length := by
  unfold scanHead at h
  cases hhex : scanHex line with
  | none => simp [hhex] at h
  | some r =>
    cases hchar : scanChar r.2 with
    | none => simp [hhex, hchar] at h
    | some t =>
      simp only [hhex, hchar, Option.bind_some, Option.map_some, Option.some.injEq,
        Prod.mk.injEq] at h
      obtain ⟨-, -, rfl⟩ := h
      obtain ⟨hsuffix₁, hlt₁⟩ := scanHex_suffix hhex
      obtain ⟨hsuffix₂, hlt₂⟩ := scanChar_suffix hchar
      obtain ⟨head, hhead⟩ := hsuffix₂.trans hsuffix₁
      have hlen := congrArg List.length hhead
      rw [List.length_append] at hlen
      exact ⟨head, hhead.symm, by omega⟩

section Cut

variable {addr : BitVec 64} {type : UInt8} {head gap name gap' word rest : List UInt8}

theorem scanFields_nameless (line : List UInt8) (hrest : ∀ c ∈ rest, isSpace c) :
    scanFields line addr type rest = ⟨addr, type, line.length, 0, 0, 0⟩ := by
  unfold scanFields
  rw [skipSpace_eq_nil hrest]
  rfl

theorem skipSpace_word (hne : word ≠ []) (hword : ∀ c ∈ word, isSpace c = false)
    (rest : List UInt8) : skipSpace (word ++ rest) = word ++ rest := by
  obtain ⟨c, word, rfl⟩ := List.exists_cons_of_ne_nil hne
  exact skipSpace_cons_of_not (hword c List.mem_cons_self) _

/-- A name and nothing after it: the last position is the end of the line. -/
theorem scanFields_kernel (head : List UInt8) (addr : BitVec 64) (type : UInt8)
    (hgap : ∀ c ∈ gap, isSpace c) (hne : name ≠ [])
    (hname : ∀ c ∈ name, isSpace c = false) (hgap' : ∀ c ∈ gap', isSpace c) :
    scanFields (head ++ (gap ++ (name ++ gap'))) addr type (gap ++ (name ++ gap')) =
      ⟨addr, type, (head ++ gap).length, (head ++ gap ++ name).length,
        (head ++ gap ++ name ++ gap').length, 0⟩ := by
  have hsym : skipSpace (gap ++ (name ++ gap')) = name ++ gap' := by
    rw [skipSpace_append hgap, skipSpace_word hne hname]
  have hrest : skipWord (name ++ gap') = gap' :=
    skipWord_append hname fun c hc => hgap' c (List.mem_of_mem_head? hc)
  unfold scanFields
  simp only [hsym, hrest, skipSpace_eq_nil hgap']
  rw [if_neg (by simp [hne]), if_pos trivial]
  simp only [List.length_append, List.length_nil, Fields.mk.injEq, true_and, and_true]
  omega

/-- A name and a word after it. -/
theorem scanFields_module (head : List UInt8) (addr : BitVec 64) (type : UInt8)
    (hgap : ∀ c ∈ gap, isSpace c) (hne : name ≠ [])
    (hname : ∀ c ∈ name, isSpace c = false) (hgap' : ∀ c ∈ gap', isSpace c) (hne' : gap' ≠ [])
    (hword : word ≠ []) (hword' : ∀ c ∈ word, isSpace c = false)
    (hrest : ∀ c ∈ rest.head?, isSpace c) :
    scanFields (head ++ (gap ++ (name ++ (gap' ++ (word ++ rest))))) addr type
        (gap ++ (name ++ (gap' ++ (word ++ rest)))) =
      ⟨addr, type, (head ++ gap).length, (head ++ gap ++ name).length,
        (head ++ gap ++ name ++ gap').length, (head ++ gap ++ name ++ gap' ++ word).length⟩ := by
  have hsym : skipSpace (gap ++ (name ++ (gap' ++ (word ++ rest)))) =
      name ++ (gap' ++ (word ++ rest)) := by
    rw [skipSpace_append hgap, skipSpace_word hne hname]
  have hafter : skipWord (name ++ (gap' ++ (word ++ rest))) = gap' ++ (word ++ rest) := by
    apply skipWord_append hname
    intro c hc
    rw [List.head?_append_of_ne_nil _ hne'] at hc
    exact hgap' c (List.mem_of_mem_head? hc)
  have hmod : skipSpace (gap' ++ (word ++ rest)) = word ++ rest := by
    rw [skipSpace_append hgap', skipSpace_word hword hword']
  have hend : skipWord (word ++ rest) = rest := skipWord_append hword' hrest
  unfold scanFields
  simp only [hsym, hafter, hmod, hend]
  rw [if_neg (by simp [hne]), if_neg (by simp [hword])]
  simp only [List.length_append, Fields.mk.injEq, true_and]
  omega

theorem set_length_append (l r : List UInt8) (a b : UInt8) :
    (l ++ a :: r).set l.length b = l ++ b :: r := by
  rw [List.set_append_right _ _ (Nat.le_refl _), Nat.sub_self, List.set_cons_zero]

/-- Cutting at a position that is not behind the terminator. -/
theorem exists_set_length (l r : List UInt8) :
    ∃ r', (l ++ r ++ [0]).set l.length 0 = l ++ 0 :: r' := by
  cases r with
  | nil => exact ⟨[], by rw [List.append_nil, set_length_append]⟩
  | cons c r => exact ⟨r ++ [0], by rw [List.append_assoc, List.cons_append, set_length_append]⟩

theorem getD_length_append (l r : List UInt8) (a : UInt8) : (l ++ a :: r).getD l.length 0 = a := by
  simp [List.getD_eq_getElem?_getD]

/-- The cuts for the name of a module. -/
theorem cutModule_eq (l : List UInt8) (c : UInt8) (m : List UInt8) (e : UInt8) (r : List UInt8)
    {s : Fields} (hstart : s.modStart = l.length) (hend : s.modEnd = (l ++ [c] ++ m).length) :
    ∃ r', cutModule (l ++ c :: (m ++ e :: r)) s = l ++ [91] ++ moduleName (c :: m) ++ 0 :: r' := by
  unfold cutModule
  dsimp only
  rw [hstart, set_length_append]
  have hend' : ∀ c' : UInt8, s.modEnd = (l ++ [c'] ++ m).length := by
    intro c'
    rw [hend]
    simp only [List.length_append, List.length_singleton]
  rcases List.eq_nil_or_concat m with rfl | ⟨m', z, hm⟩
  · -- the word is one character, which was overwritten
    have hlast : s.modEnd - 1 = l.length := by
      rw [hend, List.append_nil, List.length_append]
      rfl
    refine ⟨r, ?_⟩
    rw [hlast, List.nil_append, getD_length_append, if_neg (by decide), hend' 91]
    simp [moduleName]
  · rw [List.concat_eq_append] at hm
    subst hm
    have hlast : s.modEnd - 1 = (l ++ [91] ++ m').length := by
      rw [hend]
      simp only [List.length_append, List.length_singleton]
      omega
    have hbuf : l ++ 91 :: ((m' ++ [z]) ++ e :: r) = l ++ [91] ++ m' ++ z :: (e :: r) := by simp
    rw [hbuf, hlast, getD_length_append]
    by_cases hz : z = 10 ∨ z = 13 ∨ z = 93
    · have hname : moduleName (c :: (m' ++ [z])) = m' := by simp [moduleName, hz]
      refine ⟨0 :: r, ?_⟩
      rw [if_pos hz, set_length_append, hname, hend' 91]
      simp
    · have hname : moduleName (c :: (m' ++ [z])) = m' ++ [z] := by simp [moduleName, hz]
      refine ⟨r, ?_⟩
      rw [if_neg hz, hname, hend' 91]
      simp

theorem scanFields_head (line : List UInt8) (addr : BitVec 64) (type : UInt8) (rest : List UInt8) :
    (scanFields line addr type rest).addr = addr ∧
      (scanFields line addr type rest).type = type := by
  unfold scanFields
  dsimp only
  split
  · exact ⟨rfl, rfl⟩
  · split
    · exact ⟨rfl, rfl⟩
    · exact ⟨rfl, rfl⟩

theorem readRecord_fields (line : List UInt8) (s : Fields) :
    (readRecord line s).addr = s.addr ∧ (readRecord line s).type = s.type ∧
    (readRecord line s).nmlen + BitVec.ofNat 64 s.symStart = BitVec.ofNat 64 (s.symEnd + 1) := by
  have hnmlen : BitVec.ofInt 64 (s.symEnd - s.symStart + 1) + BitVec.ofNat 64 s.symStart =
      BitVec.ofNat 64 (s.symEnd + 1) := by
    rw [← BitVec.ofInt_natCast, ← BitVec.ofInt_natCast, ← BitVec.ofInt_add]
    congr 1
    push_cast
    omega
  unfold readRecord
  by_cases hmod : s.modStart ≠ 0 ∧ s.modStart < s.modEnd
  · rw [if_pos hmod]
    exact ⟨rfl, rfl, hnmlen⟩
  · rw [if_neg hmod]
    exact ⟨rfl, rfl, hnmlen⟩

/-- Without a name the first character is cut, and the name is read at the end. -/
theorem readRecord_nameless (addr : BitVec 64) (type : UInt8) {line : List UInt8}
    (hne : line ≠ []) :
    (readRecord line ⟨addr, type, line.length, 0, 0, 0⟩).name.bytes = [] ∧
    (readRecord line ⟨addr, type, line.length, 0, 0, 0⟩).module = none := by
  obtain ⟨c, line, rfl⟩ := List.exists_cons_of_ne_nil hne
  have hmod : ¬ ((0 : ℕ) ≠ 0 ∧ 0 < 0) := by omega
  simp only [readRecord, if_neg hmod, cString]
  exact ⟨by simp [strAt], trivial⟩

/-- A name with nothing behind it is cut out of the line. -/
theorem readRecord_kernel (hname : 0 ∉ name) {line : List UInt8} {modStart : ℕ}
    (hline : line = head ++ (gap ++ (name ++ gap'))) {s : Fields}
    (hs : s = ⟨addr, type, (head ++ gap).length, (head ++ gap ++ name).length, modStart, 0⟩) :
    (readRecord line s).name.bytes = name ∧ (readRecord line s).module = none := by
  have hmod : ¬ (s.modStart ≠ 0 ∧ s.modStart < s.modEnd) := by
    subst hs
    dsimp only
    omega
  obtain ⟨r', hset⟩ := exists_set_length (head ++ gap ++ name) gap'
  have hbuf : (line ++ [0]).set s.symEnd 0 = head ++ gap ++ name ++ 0 :: r' := by
    rw [hline, hs, ← hset]
    simp only [List.append_assoc]
  simp only [readRecord, if_neg hmod, cString, hbuf]
  refine ⟨?_, trivial⟩
  rw [hs]
  exact strAt_append _ name r' hname

/-- A name with a word behind it: both are cut out of the line. -/
theorem readRecord_module (hname : 0 ∉ name) (hne' : gap' ≠ []) (hword : word ≠ [])
    (hword' : 0 ∉ word) {line : List UInt8}
    (hline : line = head ++ (gap ++ (name ++ (gap' ++ (word ++ rest))))) {s : Fields}
    (hs : s = ⟨addr, type, (head ++ gap).length, (head ++ gap ++ name).length,
      (head ++ gap ++ name ++ gap').length, (head ++ gap ++ name ++ gap' ++ word).length⟩) :
    (readRecord line s).name.bytes = name ∧
    (readRecord line s).module = some (moduleName word) := by
  obtain ⟨g, gs, rfl⟩ := List.exists_cons_of_ne_nil hne'
  obtain ⟨c, m, rfl⟩ := List.exists_cons_of_ne_nil hword
  obtain ⟨e, r, her⟩ := List.exists_cons_of_ne_nil (l := rest ++ [0]) (by simp)
  have hmod : s.modStart ≠ 0 ∧ s.modStart < s.modEnd := by
    rw [hs]
    simp only [List.length_append, List.length_cons]
    omega
  have hbuf : (line ++ [0]).set s.symEnd 0 =
      head ++ gap ++ name ++ 0 :: gs ++ c :: (m ++ e :: r) := by
    rw [hline, hs, ← her]
    simp
  obtain ⟨r', hcut⟩ := cutModule_eq (head ++ gap ++ name ++ 0 :: gs) c m e r (s := s)
    (by rw [hs]; simp) (by rw [hs]; simp)
  simp only [readRecord, if_pos hmod, cString, hbuf, hcut]
  constructor
  · have hstr := strAt_append (head ++ gap) name (gs ++ [91] ++ moduleName (c :: m) ++ 0 :: r')
      hname
    rw [hs]
    simpa using hstr
  · have hstr := strAt_append (head ++ gap ++ name ++ 0 :: gs ++ [91]) (moduleName (c :: m)) r'
      fun hmem => hword' (mem_of_mem_moduleName hmem)
    have hstart : s.modStart + 1 = (head ++ gap ++ name ++ 0 :: gs ++ [91]).length := by
      rw [hs]
      simp only [List.length_append, List.length_cons, List.length_nil]
    rw [hstart, hstr]

/-- Where something but white space follows the type, its first word is the name. -/
theorem readRecord_named (addr : BitVec 64) (type : UInt8) (hzero : 0 ∉ head ++ rest)
    (hrest : ∃ c ∈ rest, isSpace c = false) :
    ∃ front name back, head ++ rest = front ++ name ++ back ∧ head.length ≤ front.length ∧
      (scanFields (head ++ rest) addr type rest).symStart = front.length ∧
      (scanFields (head ++ rest) addr type rest).symEnd = front.length + name.length ∧
      (readRecord (head ++ rest) (scanFields (head ++ rest) addr type rest)).name.bytes = name := by
  obtain ⟨c, hc, hspace⟩ := hrest
  rcases exists_word rest with hall | ⟨gap, name, back, rfl, hgap, hne, hname, hback⟩
  · rw [hall c hc] at hspace
    cases hspace
  have hsub : ∀ b ∈ name, b ∈ head ++ (gap ++ (name ++ back)) := by
    intro b hb
    simp [hb]
  have hname₀ : 0 ∉ name := fun hmem => hzero (hsub 0 hmem)
  refine ⟨head ++ gap, name, back, by simp, by simp, ?_⟩
  rcases exists_word back with hall | ⟨gap', word, rest', rfl, hgap', hne', hword', hrest'⟩
  · have hs := scanFields_kernel head addr type hgap hne hname hall
    obtain ⟨hbytes, -⟩ := readRecord_kernel hname₀ rfl hs
    refine ⟨?_, ?_, hbytes⟩
    · rw [hs]
    · rw [hs]
      exact List.length_append
  · have hgap₀ : gap' ≠ [] := by
      rintro rfl
      obtain ⟨c, word, rfl⟩ := List.exists_cons_of_ne_nil hne'
      have hc := hback c rfl
      rw [hword' c List.mem_cons_self] at hc
      cases hc
    have hword₀ : 0 ∉ word := fun hmem => hzero (by simp [hmem])
    have hs := scanFields_module head addr type hgap hne hname hgap'
      hgap₀ hne' hword' hrest'
    obtain ⟨hbytes, -⟩ := readRecord_module hname₀ hgap₀ hne' hword₀ rfl hs
    refine ⟨?_, ?_, hbytes⟩
    · rw [hs]
    · rw [hs]
      exact List.length_append

end Cut

/-- What an accepted line adds. -/
def record (line : CString) : Option Record := (sscanf line.bytes).map (readRecord line.bytes)

/-- The positions of a line that is accepted can be stored. -/
def Short (line : CString) : Prop := ∀ s ∈ sscanf line.bytes, s.InRange

/-- Where a line has an address and a type, something but white space follows. -/
def Named (line : CString) : Prop := ∀ h ∈ scanHead line.bytes, ∃ c ∈ h.2.2, isSpace c = false

/-- The line has an address and a type that is not supported. -/
def Unsupported (line : CString) : Prop := ∃ h ∈ scanHead line.bytes, symKind h.2.1 = none

/-- How much the length of a record falls short of its name with the terminator. -/
def Record.deficit (r : Record) : ℕ :=
  (BitVec.ofNat 64 (r.name.bytes.length + 1) - r.nmlen).toNat

theorem Record.nmlen_add_deficit (r : Record) :
    r.nmlen + BitVec.ofNat 64 r.deficit = BitVec.ofNat 64 (r.name.bytes.length + 1) := by
  rw [deficit, BitVec.ofNat_toNat, BitVec.setWidth_eq, BitVec.add_comm, BitVec.sub_add_cancel]

theorem Record.deficit_eq {r : Record} {d : ℕ} (hd : d < 2 ^ 64)
    (h : r.nmlen + BitVec.ofNat 64 d = BitVec.ofNat 64 (r.name.bytes.length + 1)) :
    r.deficit = d := by
  rw [deficit, ← h, BitVec.add_comm, BitVec.add_sub_cancel, BitVec.toNat_ofNat,
    Nat.mod_eq_of_lt hd]

/-- A name that is there is given its length. -/
theorem deficit_named {head rest : List UInt8} {addr : BitVec 64} {type : UInt8} {r : Record}
    (hr : readRecord (head ++ rest) (scanFields (head ++ rest) addr type rest) = r)
    (hzero : 0 ∉ head ++ rest) (hhead : 0 < head.length) (hrest : ∃ c ∈ rest, isSpace c = false) :
    r.name.bytes.length < (head ++ rest).length ∧ r.deficit = 0 := by
  obtain ⟨front, name, back, hsplit, hfront, hstart, hend, hname⟩ :=
    readRecord_named addr type hzero hrest
  obtain ⟨-, -, hnmlen⟩ :=
    readRecord_fields (head ++ rest) (scanFields (head ++ rest) addr type rest)
  rw [hr] at hname hnmlen
  have hsum : front.length + name.length + 1 = name.length + 1 + front.length := by omega
  rw [hstart, hend, hsum, BitVec.ofNat_add, BitVec.add_left_inj] at hnmlen
  constructor
  · rw [hname, hsplit]
    simp only [List.length_append]
    omega
  · apply Record.deficit_eq (by omega)
    rw [hname, hnmlen, BitVec.add_zero]

/-- The empty name of a line without one is given a length that is off by the length of
the line. -/
theorem deficit_nameless {line rest : List UInt8} {addr : BitVec 64} {type : UInt8} {r : Record}
    (hr : readRecord line (scanFields line addr type rest) = r) (hne : line ≠ [])
    (hlt : line.length < 2 ^ 63) (hrest : ∀ c ∈ rest, isSpace c) :
    r.name.bytes.length < line.length ∧ r.deficit = line.length ∧ r.module = none := by
  have hpos := List.length_pos_iff.mpr hne
  obtain ⟨-, -, hnmlen⟩ := readRecord_fields line (scanFields line addr type rest)
  obtain ⟨hname, hmodule⟩ := readRecord_nameless addr type hne
  rw [scanFields_nameless line hrest] at hr hnmlen
  rw [hr] at hname hmodule hnmlen
  refine ⟨by rw [hname]; exact hpos, ?_, hmodule⟩
  apply Record.deficit_eq (by omega)
  rw [hname]
  exact hnmlen

/-- A line with an address and a type adds a record, and its length is right exactly where
the line has a name. -/
theorem record_of_scanHead {line : CString} {addr : BitVec 64} {type : UInt8}
    {rest : List UInt8} (h : scanHead line.bytes = some (addr, type, rest))
    (hlt : line.bytes.length < 2 ^ 63) :
    ∃ r, record line = some r ∧ r.type = type ∧ r.name.bytes.length < line.bytes.length ∧
      ((∃ c ∈ rest, isSpace c = false) ∧ r.deficit = 0 ∨
        (∀ c ∈ rest, isSpace c) ∧ r.deficit = line.bytes.length ∧ r.module = none) := by
  obtain ⟨head, hline, hhead⟩ := scanHead_suffix h
  obtain ⟨-, htype, -⟩ := readRecord_fields line.bytes (scanFields line.bytes addr type rest)
  rw [(scanFields_head line.bytes addr type rest).2] at htype
  refine ⟨readRecord line.bytes (scanFields line.bytes addr type rest), ?_, htype, ?_⟩
  · rw [record, sscanf, h]
    rfl
  by_cases hrest : ∃ c ∈ rest, isSpace c = false
  · have hzero := line.zero_not_mem
    rw [hline] at hzero ⊢
    obtain ⟨hname, hdeficit⟩ := deficit_named rfl hzero (by omega) hrest
    exact ⟨hname, .inl ⟨hrest, hdeficit⟩⟩
  · simp only [not_exists, not_and, Bool.not_eq_false] at hrest
    have hne : line.bytes ≠ [] := by
      rw [hline]
      exact List.append_ne_nil_of_left_ne_nil (List.length_pos_iff.mp (by omega)) _
    obtain ⟨hname, hdeficit⟩ := deficit_nameless rfl hne hlt hrest
    exact ⟨hname, .inr ⟨hrest, hdeficit⟩⟩

/-- The entries of the kernel or of a module. -/
def Symbols.lib (st : Symbols) : Option (List UInt8) → Lib
  | none => st.kern
  | some m => (st.modules.find? m).getD .empty

def Symbols.setLib (st : Symbols) : Option (List UInt8) → Lib → Symbols
  | none, lib => { st with kern := lib }
  | some m, lib => { st with modules := st.modules.set m lib }

theorem Symbols.add_eq (st : Symbols) (r : Record) :
    st.add r = ((st.lib r.module).add r).map (st.setLib r.module) := by
  unfold Symbols.add
  cases r.module with
  | none => rfl
  | some m => rfl

theorem Symbols.lib_setLib (st : Symbols) (tag tag' : Option (List UInt8)) (lib : Lib) :
    (st.setLib tag lib).lib tag' = if tag' = tag then lib else st.lib tag' := by
  cases tag with
  | none =>
    cases tag' with
    | none => rfl
    | some m' => rfl
  | some m =>
    cases tag' with
    | none => rfl
    | some m' =>
      by_cases hm : m' = m
      · simp [Symbols.lib, Symbols.setLib, hm]
      · simp [Symbols.lib, Symbols.setLib, hm]

theorem Symbols.find?_setLib (st : Symbols) (tag : Option (List UInt8)) (lib : Lib)
    (m : List UInt8) : ((st.setLib tag lib).modules.find? m).isSome ↔
      (st.modules.find? m).isSome ∨ tag = some m := by
  cases tag with
  | none => simp [Symbols.setLib]
  | some m' =>
    by_cases hm : m = m'
    · simp [Symbols.setLib, hm]
    · have hne : m' ≠ m := fun he => hm he.symm
      simp [Symbols.setLib, hm, hne]

/-- The records of one library, in the order of the lines. -/
def ofLib (rs : List Record) (tag : Option (List UInt8)) : List Record :=
  rs.filter fun r => r.module = tag

/-- The state after the lines of some records. The lengths are right but for the deficits. -/
structure Holds (rs : List Record) (st : Symbols) : Prop where
  items : ∀ tag, (st.lib tag).entries.items = (ofLib rs tag).filterMap Record.entry
  nmstrlen : ∀ tag, (st.lib tag).nmstrlen +
    BitVec.ofNat 64 ((ofLib rs tag).map Record.deficit).sum =
      BitVec.ofNat 64 (nameBytes (st.lib tag).entries.items)
  grown : ∀ tag, (st.lib tag).entries.Grown 53
  module_iff : ∀ m, (st.modules.find? m).isSome ↔ ∃ r ∈ rs, r.module = some m

theorem holds_empty : Holds [] .empty where
  items tag := by
    cases tag with
    | none => rfl
    | some m => rfl
  nmstrlen tag := by
    cases tag with
    | none => rfl
    | some m => rfl
  grown tag := by
    cases tag with
    | none => exact GrowArray.grown_empty 53
    | some m => exact GrowArray.grown_empty 53
  module_iff m := by simp [Symbols.empty]

variable {rs : List Record} {st : Symbols} {r : Record} {e : SymbolEntry}

theorem ofLib_concat_self (rs : List Record) (r : Record) :
    ofLib (rs ++ [r]) r.module = ofLib rs r.module ++ [r] := by
  simp [ofLib]

theorem ofLib_concat_of_ne (rs : List Record) {tag : Option (List UInt8)} (h : tag ≠ r.module) :
    ofLib (rs ++ [r]) tag = ofLib rs tag := by
  simp [ofLib, h.symm]

theorem Holds.length_le (h : Holds rs st) (tag : Option (List UInt8)) :
    (st.lib tag).entries.items.length ≤ rs.length := by
  rw [h.items]
  exact Nat.le_trans (List.length_filterMap_le _ _) (List.length_filter_le _ _)

theorem Record.name_of_entry (he : r.entry = some e) : e.name = r.name.bytes := by
  unfold Record.entry initSE at he
  obtain ⟨kind, -, rfl⟩ := Option.map_eq_some_iff.mp he
  rfl

/-- There is room for every entry. -/
theorem Holds.lib_add (h : Holds rs st) (hlen : rs.length < 2 ^ 63) (he : r.entry = some e)
    (tag : Option (List UInt8)) : ∃ cap,
    (st.lib tag).add r = .ok ⟨⟨(st.lib tag).entries.items ++ [e], cap⟩,
      (st.lib tag).nmstrlen + r.nmlen⟩ ∧
    GrowArray.Grown 53 ⟨(st.lib tag).entries.items ++ [e], cap⟩ := by
  have hlimit : 2 ^ 64 = 1024 * 2 ^ (53 + 1) := by omega
  have hle := h.length_le tag
  obtain ⟨hpush, hgrown⟩ := (h.grown tag).push_eq_some (by omega) e
  refine ⟨_, ?_, hgrown⟩
  unfold Lib.add
  rw [he, hlimit]
  simp only [hpush]

/-- A record goes to its library, and the others stay as they are. -/
theorem Holds.add (h : Holds rs st) (hlen : rs.length < 2 ^ 63) (he : r.entry = some e) :
    ∃ st', st.add r = .ok st' ∧ Holds (rs ++ [r]) st' := by
  obtain ⟨cap, hadd, hgrown⟩ := h.lib_add hlen he r.module
  refine ⟨st.setLib r.module ⟨⟨(st.lib r.module).entries.items ++ [e], cap⟩,
    (st.lib r.module).nmstrlen + r.nmlen⟩, ?_, ?_, ?_, ?_, ?_⟩
  · rw [Symbols.add_eq, hadd]
    rfl
  · intro tag
    rw [Symbols.lib_setLib]
    by_cases htag : tag = r.module
    · rw [if_pos htag, htag, ofLib_concat_self, List.filterMap_append, h.items]
      simp [he]
    · rw [if_neg htag, ofLib_concat_of_ne rs htag, h.items]
  · intro tag
    rw [Symbols.lib_setLib]
    by_cases htag : tag = r.module
    · have hbytes : nameBytes ((st.lib r.module).entries.items ++ [e]) =
          nameBytes (st.lib r.module).entries.items + (r.name.bytes.length + 1) := by
        simp [nameBytes, Record.name_of_entry he]
      rw [if_pos htag, htag, ofLib_concat_self, hbytes, BitVec.ofNat_add, ← h.nmstrlen,
        ← r.nmlen_add_deficit]
      simp only [List.map_append, List.map_cons, List.map_nil, List.sum_append, List.sum_singleton,
        BitVec.ofNat_add]
      ac_rfl
    · rw [if_neg htag, ofLib_concat_of_ne rs htag, h.nmstrlen]
  · intro tag
    rw [Symbols.lib_setLib]
    by_cases htag : tag = r.module
    · rw [if_pos htag]
      exact hgrown
    · rw [if_neg htag]
      exact h.grown tag
  · intro m
    rw [Symbols.find?_setLib, h.module_iff]
    simp only [List.mem_append, List.mem_singleton, or_and_right, exists_or, exists_eq_left]

theorem record_eq_none {line : CString} (h : scanHead line.bytes = none) : record line = none := by
  rw [record, sscanf, h]
  rfl

/-- A line that is not accepted is skipped. -/
theorem prcLine_of_none (st : Symbols) {line : CString} (h : scanHead line.bytes = none) :
    prcLine st line = .ok st := by
  rw [prcLine, sscanf, h]
  rfl

theorem prcLine_of_short (st : Symbols) {line : CString} (hshort : Short line)
    (hr : record line = some r) : prcLine st line = st.add r := by
  obtain ⟨s, hs, rfl⟩ := Option.map_eq_some_iff.mp hr
  rw [prcLine, hs]
  exact if_pos (hshort s hs)

theorem prcLine_of_not_short (st : Symbols) {line : CString} (hnot : ¬ Short line) :
    prcLine st line = .error .undefined := by
  unfold Short at hnot
  push Not at hnot
  obtain ⟨s, hs, hrange⟩ := hnot
  rw [prcLine, Option.mem_def.mp hs]
  exact if_neg hrange

theorem Symbols.add_of_unsupported (st : Symbols) (h : r.entry = none) :
    st.add r = .error .abort := by
  rw [Symbols.add_eq, Lib.add, h]
  rfl

/-- The number of the bytes of some lines. -/
def byteCount (lines : List CString) : ℕ := (lines.map fun line => line.bytes.length).sum

theorem entry_eq_none_iff {line : CString} (hr : record line = some r)
    (hlt : line.bytes.length < 2 ^ 63) : r.entry = none ↔ Unsupported line := by
  cases hhead : scanHead line.bytes with
  | none =>
    rw [record_eq_none hhead] at hr
    cases hr
  | some h =>
    obtain ⟨addr, type, rest⟩ := h
    obtain ⟨r', hr', htype, -⟩ := record_of_scanHead hhead hlt
    obtain rfl : r' = r := Option.some.inj (hr'.symm.trans hr)
    rw [Record.entry, initSE, htype, Option.map_eq_none_iff]
    simp [Unsupported, hhead]

/-- Either every line is short and has a supported type, and the loop collects what they
add, or the first line that is not so ends the run. -/
def LoopEnds (rs : List Record) (lines : List CString) (out : Except Stop Symbols) : Prop :=
  (∀ l ∈ lines, Short l ∧ ¬ Unsupported l) ∧
      (∃ st, out = .ok st ∧ Holds (rs ++ lines.filterMap record) st) ∨
    ∃ pre l post, lines = pre ++ l :: post ∧ (∀ x ∈ pre, Short x ∧ ¬ Unsupported x) ∧
      (Short l ∧ Unsupported l ∧ out = .error .abort ∨ ¬ Short l ∧ out = .error .undefined)

theorem LoopEnds.cons {line : CString} {lines : List CString} {out : Except Stop Symbols}
    (h : LoopEnds (rs ++ (record line).toList) lines out)
    (hline : Short line ∧ ¬ Unsupported line) : LoopEnds rs (line :: lines) out := by
  have hrecords : rs ++ (line :: lines).filterMap record =
      rs ++ (record line).toList ++ lines.filterMap record := by
    cases hr : record line with
    | none => simp [hr]
    | some r => simp [hr]
  rcases h with ⟨hall, st, hout, hst⟩ | ⟨pre, l, post, rfl, hpre, hstop⟩
  · exact .inl ⟨List.forall_mem_cons.mpr ⟨hline, hall⟩, st, hout, by rwa [hrecords]⟩
  · exact .inr ⟨line :: pre, l, post, rfl, List.forall_mem_cons.mpr ⟨hline, hpre⟩, hstop⟩

theorem loopEnds (h : Holds rs st) (lines : List CString)
    (hlen : rs.length + byteCount lines < 2 ^ 63) :
    LoopEnds rs lines (lines.foldlM prcLine st) := by
  induction lines generalizing rs st with
  | nil => exact .inl ⟨by simp, st, rfl, by simpa using h⟩
  | cons line lines ih =>
    rw [byteCount, List.map_cons, List.sum_cons, ← byteCount] at hlen
    rw [List.foldlM_cons]
    by_cases hshort : Short line
    · cases hhead : scanHead line.bytes with
      | none =>
        have hr := record_eq_none hhead
        have hline : ¬ Unsupported line := by
          rintro ⟨h', hh', -⟩
          rw [hhead] at hh'
          cases hh'
        rw [prcLine_of_none st hhead]
        apply LoopEnds.cons _ ⟨hshort, hline⟩
        rw [hr, Option.toList_none, List.append_nil]
        exact ih h (by omega)
      | some h' =>
        obtain ⟨addr, type, rest⟩ := h'
        obtain ⟨r, hr, -, hname, -⟩ := record_of_scanHead hhead (by omega)
        have hentry := entry_eq_none_iff hr (by omega)
        rw [prcLine_of_short st hshort hr]
        cases he : r.entry with
        | none =>
          rw [Symbols.add_of_unsupported st he]
          exact .inr ⟨[], line, lines, rfl, by simp, .inl ⟨hshort, hentry.mp he, rfl⟩⟩
        | some e =>
          obtain ⟨st₁, hst₁, h₁⟩ := h.add (by omega) he
          have hline : ¬ Unsupported line := by
            rw [← hentry, he]
            exact Option.some_ne_none e
          rw [hst₁]
          apply LoopEnds.cons _ ⟨hshort, hline⟩
          rw [hr, Option.toList_some]
          apply ih h₁
          rw [List.length_append, List.length_singleton]
          omega
    · rw [prcLine_of_not_short st hshort]
      exact .inr ⟨[], line, lines, rfl, by simp, .inr ⟨hshort, rfl⟩⟩

theorem sum_records_le {f : Record → ℕ} {lines : List CString}
    (hf : ∀ line ∈ lines, ∀ r, record line = some r → f r ≤ line.bytes.length) :
    ((lines.filterMap record).map f).sum ≤ byteCount lines := by
  induction lines with
  | nil => simp [byteCount]
  | cons line lines ih =>
    have hrest := ih fun l hl => hf l (List.mem_cons_of_mem line hl)
    rw [byteCount, List.map_cons, List.sum_cons, ← byteCount]
    cases hr : record line with
    | none =>
      rw [List.filterMap_cons_none hr]
      omega
    | some r =>
      have hle := hf line List.mem_cons_self r hr
      rw [List.filterMap_cons_some hr, List.map_cons, List.sum_cons]
      omega

theorem sum_ofLib_le (f : Record → ℕ) (rs : List Record) (tag : Option (List UInt8)) :
    ((ofLib rs tag).map f).sum ≤ (rs.map f).sum := by
  apply List.Sublist.sum_le_sum
  · exact List.filter_sublist.map f
  · simp

theorem nameBytes_filterMap_le (rs : List Record) :
    nameBytes (rs.filterMap Record.entry) ≤ (rs.map fun r => r.name.bytes.length + 1).sum := by
  induction rs with
  | nil => simp [nameBytes]
  | cons r rs ih =>
    rw [List.map_cons, List.sum_cons]
    cases he : r.entry with
    | none =>
      rw [List.filterMap_cons_none he]
      omega
    | some e =>
      rw [List.filterMap_cons_some he, nameBytes, List.map_cons, List.sum_cons, ← nameBytes,
        Record.name_of_entry he]
      omega

/-- A length is right exactly where no record has a deficit. -/
theorem toNat_eq_iff {x : BitVec 64} {d n : ℕ} (h : x + BitVec.ofNat 64 d = BitVec.ofNat 64 n)
    (hd : d < 2 ^ 64) (hn : n < 2 ^ 64) : x.toNat = n ↔ d = 0 := by
  constructor
  · intro hx
    have hx' : x = BitVec.ofNat 64 n := by rw [← hx, BitVec.ofNat_toNat, BitVec.setWidth_eq]
    rw [hx', BitVec.add_right_eq_self] at h
    have hnat := congrArg BitVec.toNat h
    rw [BitVec.toNat_ofNat, Nat.mod_eq_of_lt hd] at hnat
    exact hnat
  · rintro rfl
    rw [BitVec.add_zero] at h
    rw [h, BitVec.toNat_ofNat, Nat.mod_eq_of_lt hn]

/-- The length of a call is that of the names with their terminators, and they fit the
buffer of one byte more. -/
def WriteSo.Fits (c : WriteSo) : Prop :=
  c.nmstrlen.toNat = nameBytes c.entries ∧
    (addNames (addStr ⟨[]⟩ []).1 c.entries).1.top ≤ c.nmstrlen.toNat + 1

/-- The run has a meaning, and all its calls of `writeso` have the right length. -/
def LengthsFit : Except Stop (List WriteSo) → Prop
  | .ok calls => ∀ c ∈ calls, c.Fits
  | .error .abort => True
  | .error .undefined => False

theorem WriteSo.fits_of_eq {c : WriteSo} (h : c.nmstrlen.toNat = nameBytes c.entries) : c.Fits := by
  refine ⟨h, ?_⟩
  rw [addNames_top, addStr_top, h, ← nameBytes]
  simp only [StrTab.top, List.length_nil]
  omega

/-- The calls for the libraries. -/
theorem mem_writes_iff (st : Symbols) (dir : Option PathPrefix) (c : WriteSo) :
    c ∈ st.writes dir ↔
      (st.kern.entries.items ≠ [] ∧ c = st.kern.write (kernText dir)) ∨
      ∃ m lib, st.modules.find? m = some lib ∧ c = lib.write (moduleText dir m) := by
  unfold Symbols.writes
  rw [List.mem_append, List.mem_map]
  apply or_congr
  · by_cases hnil : st.kern.entries.items = []
    · simp [hnil]
    · simp [hnil]
  · constructor
    · rintro ⟨p, hp, rfl⟩
      exact ⟨p.1, p.2, (st.modules.mem_entries_iff p.1 p.2).mp hp, rfl⟩
    · rintro ⟨m, lib, hfind, rfl⟩
      exact ⟨(m, lib), (st.modules.mem_entries_iff m lib).mpr hfind, rfl⟩

theorem length_le_byteCount {lines : List CString} {line : CString} (h : line ∈ lines) :
    line.bytes.length ≤ byteCount lines :=
  List.le_sum_of_mem (List.mem_map_of_mem h)

theorem record_bounds {line : CString} (hr : record line = some r)
    (hlt : line.bytes.length < 2 ^ 63) :
    r.name.bytes.length + 1 ≤ line.bytes.length ∧ r.deficit ≤ line.bytes.length ∧
      (r.deficit = 0 ↔ Named line) ∧ (r.deficit ≠ 0 → r.module = none) := by
  cases hhead : scanHead line.bytes with
  | none =>
    rw [record_eq_none hhead] at hr
    cases hr
  | some h =>
    obtain ⟨addr, type, rest⟩ := h
    obtain ⟨r', hr', -, hname, hcase⟩ := record_of_scanHead hhead hlt
    obtain rfl : r' = r := Option.some.inj (hr'.symm.trans hr)
    have hnamed : Named line ↔ ∃ c ∈ rest, isSpace c = false := by
      simp [Named, hhead]
    rw [hnamed]
    rcases hcase with ⟨hsome, hzero⟩ | ⟨hall, hdeficit, hmodule⟩
    · exact ⟨hname, by omega, iff_of_true hzero hsome, fun hne => absurd hzero hne⟩
    · have hnone : ¬ ∃ c ∈ rest, isSpace c = false := by
        rintro ⟨c, hc, hspace⟩
        rw [hall c hc] at hspace
        cases hspace
      exact ⟨hname, by omega, iff_of_false (by omega) hnone, fun _ => hmodule⟩

/-- The length of a library is right exactly where none of its records has a deficit. -/
theorem Holds.nmstrlen_iff {lines : List CString} (hlen : byteCount lines < 2 ^ 63)
    (h : Holds (lines.filterMap record) st) (tag : Option (List UInt8)) :
    (st.lib tag).nmstrlen.toNat = nameBytes (st.lib tag).entries.items ↔
      ∀ r ∈ ofLib (lines.filterMap record) tag, r.deficit = 0 := by
  have hbounds : ∀ line ∈ lines, ∀ r, record line = some r →
      r.name.bytes.length + 1 ≤ line.bytes.length ∧ r.deficit ≤ line.bytes.length := by
    intro line hline r hr
    have hle := length_le_byteCount hline
    have hb := record_bounds hr (by omega)
    exact ⟨hb.1, hb.2.1⟩
  have hdeficit := sum_records_le fun line hline r hr => (hbounds line hline r hr).2
  have hnames := sum_records_le fun line hline r hr => (hbounds line hline r hr).1
  have hdeficit' := sum_ofLib_le Record.deficit (lines.filterMap record) tag
  have hnames' := sum_ofLib_le (fun r => r.name.bytes.length + 1) (lines.filterMap record) tag
  have hbytes := nameBytes_filterMap_le (ofLib (lines.filterMap record) tag)
  rw [← h.items tag] at hbytes
  rw [toNat_eq_iff (h.nmstrlen tag) (by omega) (by omega), List.sum_eq_zero_iff]
  simp

/-- A line without a name makes the length of the kernel's library wrong. -/
theorem Holds.named_of_fits {lines : List CString} (hlen : byteCount lines < 2 ^ 63)
    (hlines : ∀ l ∈ lines, ¬ Unsupported l) (h : Holds (lines.filterMap record) st)
    {dir : Option PathPrefix} (hfits : ∀ c ∈ st.writes dir, c.Fits) {l : CString}
    (hl : l ∈ lines) : Named l := by
  have hle := length_le_byteCount hl
  by_contra hnot
  obtain ⟨r, hr⟩ : ∃ r, record l = some r := by
    cases hhead : scanHead l.bytes with
    | none => exact absurd (by simp [Named, hhead]) hnot
    | some h => exact ⟨_, by rw [record, sscanf, hhead]; rfl⟩
  obtain ⟨-, -, hnamed, hmodule⟩ := record_bounds hr (by omega)
  have hdeficit : r.deficit ≠ 0 := fun hzero => hnot (hnamed.mp hzero)
  have hmem : r ∈ ofLib (lines.filterMap record) none :=
    List.mem_filter.mpr ⟨List.mem_filterMap.mpr ⟨l, hl, hr⟩, decide_eq_true (hmodule hdeficit)⟩
  obtain ⟨e, he⟩ := Option.ne_none_iff_exists'.mp
    (mt (entry_eq_none_iff hr (by omega)).mp (hlines l hl))
  have hitems : st.kern.entries.items ≠ [] := by
    have heq : st.kern.entries.items = _ := h.items none
    rw [heq]
    exact List.ne_nil_of_mem (List.mem_filterMap.mpr ⟨r, hmem, he⟩)
  have hcall := hfits _ ((mem_writes_iff st dir _).mpr (.inl ⟨hitems, rfl⟩))
  exact hdeficit ((h.nmstrlen_iff hlen none).mp hcall.1 r hmem)

theorem Holds.fits_of_named {lines : List CString} (hlen : byteCount lines < 2 ^ 63)
    (h : Holds (lines.filterMap record) st) {dir : Option PathPrefix}
    (hnamed : ∀ l ∈ lines, Named l) {c : WriteSo} (hc : c ∈ st.writes dir) : c.Fits := by
  have hlib : ∀ tag, (st.lib tag).nmstrlen.toNat = nameBytes (st.lib tag).entries.items := by
    intro tag
    rw [h.nmstrlen_iff hlen]
    intro r hr
    obtain ⟨l, hl, hrecord⟩ := List.mem_filterMap.mp (List.mem_filter.mp hr).1
    have hle := length_le_byteCount hl
    exact (record_bounds hrecord (by omega)).2.2.1.mpr (hnamed l hl)
  rcases (mem_writes_iff st dir c).mp hc with ⟨-, rfl⟩ | ⟨m, lib, hfind, rfl⟩
  · exact WriteSo.fits_of_eq (hlib none)
  · have hlength := hlib (some m)
    rw [Symbols.lib, hfind, Option.getD_some] at hlength
    exact WriteSo.fits_of_eq hlength

/-- For lines that the loop gets through, all lengths are right exactly where every line
has a name. -/
theorem Holds.fits_iff {lines : List CString} (hlen : byteCount lines < 2 ^ 63)
    (hlines : ∀ l ∈ lines, ¬ Unsupported l) (h : Holds (lines.filterMap record) st)
    (dir : Option PathPrefix) :
    (∀ c ∈ st.writes dir, c.Fits) ↔ ∀ l ∈ lines, Named l :=
  ⟨fun hfits _ hl => h.named_of_fits hlen hlines hfits hl,
    fun hnamed _ hc => h.fits_of_named hlen hnamed hc⟩

/-- Of two elements of a list one comes first, or they are the same. -/
theorem split_cases {α : Type*} {pre pre' post post' : List α} {l l' : α}
    (h : pre ++ l :: post = pre' ++ l' :: post') : l' ∈ pre ∨ l = l' ∨ l ∈ pre' := by
  rcases List.append_eq_append_iff.mp h with ⟨a, rfl, ha⟩ | ⟨a, rfl, ha⟩
  · cases a with
    | nil => exact .inr (.inl (List.cons.inj ha).1)
    | cons x a => exact .inr (.inr (by simp [(List.cons.inj ha).1]))
  · cases a with
    | nil => exact .inr (.inl (List.cons.inj ha).1.symm)
    | cons x a => exact .inl (by simp [(List.cons.inj ha).1])

/-- Behind lines with supported types, a line that is too long is reached. -/
theorem not_fine_of_long {lines pre post : List CString} {l : CString}
    (hsplit : lines = pre ++ l :: post) (hpre : ∀ x ∈ pre, ¬ Unsupported x) (hlong : ¬ Short l) :
    ¬ ((∃ pre l post, lines = pre ++ l :: post ∧ (∀ x ∈ pre, Short x) ∧ Short l ∧
        Unsupported l) ∨ ∀ l ∈ lines, Short l ∧ Named l) := by
  rintro (⟨pre', l', post', hsplit', hpre', hshort', hunsupported⟩ | hnamed)
  · rcases split_cases (hsplit.symm.trans hsplit') with hmem | rfl | hmem
    · exact hpre l' hmem hunsupported
    · exact hlong hshort'
    · exact hlong (hpre' l hmem)
  · have hl : l ∈ lines := by simp [hsplit]
    exact hlong (hnamed l hl).1

/-- The lengths that `prcKallsyms` passes are right exactly where the directory cannot be
made, or a line with an unsupported type ends the program and no line up to there is too
long for `int`, or every line is short and has a name if it has an address and a type. -/
theorem lengthsFit_iff (mkdir : List UInt8 → Bool) (dir : Option PathPrefix)
    (file : KallsymsFile) :
    LengthsFit (prcKallsyms mkdir dir file) ↔
      pathOk mkdir dir = false ∨
      (∃ pre l post, file.lines = pre ++ l :: post ∧ (∀ x ∈ pre, Short x) ∧ Short l ∧
        Unsupported l) ∨
      ∀ l ∈ file.lines, Short l ∧ Named l := by
  unfold prcKallsyms
  cases hpath : pathOk mkdir dir with
  | false => exact iff_of_true (by simp [LengthsFit]) (.inl rfl)
  | true =>
    have hends := loopEnds holds_empty file.lines (by simpa [byteCount] using file.size_lt)
    rw [if_pos rfl]
    rcases hends with ⟨hall, st, hout, hst⟩ | ⟨pre, l, post, hsplit, hpre, hstop⟩
    · have hiff := hst.fits_iff file.size_lt (fun l hl => (hall l hl).2) dir
      rw [hout]
      show (∀ c ∈ st.writes dir, c.Fits) ↔ _
      rw [hiff]
      constructor
      · intro hnamed
        exact .inr (.inr fun l hl => ⟨(hall l hl).1, hnamed l hl⟩)
      · rintro (hfalse | ⟨pre, l, post, hsplit, -, -, hunsupported⟩ | hnamed)
        · cases hfalse
        · have hl : l ∈ file.lines := by simp [hsplit]
          exact absurd hunsupported (hall l hl).2
        · exact fun l hl => (hnamed l hl).2
    · rcases hstop with ⟨hshort, hunsupported, hout⟩ | ⟨hshort, hout⟩
      · rw [hout]
        exact iff_of_true trivial
          (.inr (.inl ⟨pre, l, post, hsplit, fun x hx => (hpre x hx).1, hshort, hunsupported⟩))
      · rw [hout]
        apply iff_of_false (fun hfalse => hfalse)
        rintro (hfalse | hcond)
        · cases hfalse
        · exact not_fine_of_long hsplit (fun x hx => (hpre x hx).2) hshort hcond

/-- `PATHPREFIX_DFLT`. -/
def libk : PathPrefix := ⟨⟨ascii "libk", by decide⟩, by decide⟩

/-- An address and a type, and no name. -/
def namelessFile : KallsymsFile := ⟨[⟨ascii "0 T\n", by decide⟩], by decide⟩

/-- The line adds the empty name with the length `1 - 4`, and the call for the kernel says
that its names have nearly `2 ^ 64` bytes. -/
theorem nameless_length_wraps :
    ∃ c, prcKallsyms (fun _ => true) (some libk) namelessFile = .ok [c] ∧
      c.path = ascii "libk/libkern.so" ∧ c.entries.map SymbolEntry.name = [[]] ∧
      c.nmstrlen = -3 ∧ ¬ LengthsFit (prcKallsyms (fun _ => true) (some libk) namelessFile) := by
  refine ⟨_, rfl, by decide, by decide, by decide, ?_⟩
  intro h
  have hfits := h _ List.mem_cons_self
  exact absurd hfits.1 (by decide)

end SymbiOS.Kld
