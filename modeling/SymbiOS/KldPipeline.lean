import SymbiOS.KldModules
import SymbiOS.KldReadback

/-!
# From the kernel's symbols to the libraries and back

`prcKallsyms` writes the libraries of the kernel and of its modules, and `elf_read_syms`
reads a library. Here the two meet: a file of symbol lines is written, and every library
of it is opened again.
-/
namespace SymbiOS.Kld
open SymbiOS.CLib

/-- What one `write` moves at most. -/
def MAX_RW_COUNT : ℕ := 0x7ffff000

/-- `writeso`: the library of a list, whose file has `elfSize` bytes, goes out with one
`write` whose result is dropped. The section headers come last: of a file that was cut
no section is found. -/
def writeso (elfSize : List SymbolEntry → ℕ) (l : List SymbolEntry) : Option ElfObject :=
  if h : l.length < 2 ^ 31 then
    (elfGenerateElfMmap ⟨l, h⟩).filter fun _ => elfSize l ≤ MAX_RW_COUNT
  else none

/-- What a path holds after the calls: each one truncates the file. -/
def libraryAt (elfSize : List SymbolEntry → ℕ) (calls : List WriteSo) (path : List UInt8) :
    Option ElfObject :=
  (written calls path).getLast?.join.bind (writeso elfSize)

/-- The library at a path, opened and read. -/
def readLibrary (elfSize : List SymbolEntry → ℕ) (calls : List WriteSo) (path : List UInt8) :
    Option ReadSyms :=
  (libraryAt elfSize calls path).bind fun f => elfReadSyms (some f)

/-- The symbols that the lines with a module, or those without one, name. -/
def namesOf (ws : List SymLine) (tag : Option (List UInt8)) : List (List UInt8 × BitVec 64) :=
  (ws.filter fun w => w.tag = tag).map fun w => (w.name.bytes, BitVec.ofNat 64 (hexValue w.digits))

theorem libraryAt_of_written {elfSize : List SymbolEntry → ℕ} {calls : List WriteSo}
    {path : List UInt8} {es : Entries} (h : written calls path = [some es.list])
    (hcount : es.count ≤ 2 ^ 29 - 4) (hsize : elfSize es.list ≤ MAX_RW_COUNT) :
    libraryAt elfSize calls path = some (generated es) := by
  rw [libraryAt, h, List.getLast?_singleton, Option.join_some, Option.bind_some, writeso,
    dif_pos es.length_lt, elfGenerateElfMmap_eq hcount,
    Option.filter_some_pos (by simpa using hsize)]

theorem map_nameAddr_entriesOf (ws : List SymLine) (tag : Option (List UInt8)) :
    (entriesOf ws tag).map nameAddr = namesOf ws tag := by
  rw [entriesOf, List.map_map]
  rfl

theorem INT_MAX_eq : INT_MAX = 2 ^ 31 - 1 := by decide

/-- The positions are within the line. -/
theorem scanFields_le (line : List UInt8) (addr : BitVec 64) (type : UInt8) (rest : List UInt8) :
    (scanFields line addr type rest).symStart ≤ line.length ∧
    (scanFields line addr type rest).symEnd ≤ line.length ∧
    (scanFields line addr type rest).modStart ≤ line.length ∧
    (scanFields line addr type rest).modEnd ≤ line.length := by
  unfold scanFields
  dsimp only
  split_ifs
  · exact ⟨by simp, by simp, by simp, by simp⟩
  · exact ⟨by simp, by simp, by simp, by simp⟩
  · exact ⟨by simp, by simp, by simp, by simp⟩

theorem short_of_length_lt {line : CString} (h : line.bytes.length < 2 ^ 31) : Short line := by
  intro s hs
  obtain ⟨head, -, rfl⟩ := Option.map_eq_some_iff.mp (Option.mem_def.mp hs)
  have hle := scanFields_le line.bytes head.1 head.2.1 head.2.2
  have hmax := INT_MAX_eq
  unfold Fields.InRange
  omega

namespace SymLine

/-- A digit, a letter, a name of one letter and two gaps. -/
theorem five_le_length (w : SymLine) : 5 ≤ w.line.bytes.length := by
  have hdigits := List.length_pos_iff.mpr w.digits_ne_nil
  have hgap := List.length_pos_iff.mpr w.typeGap.ne_nil
  have hgap' := List.length_pos_iff.mpr w.nameGap.ne_nil
  have hname := List.length_pos_iff.mpr w.name_ne_nil
  simp only [line, bytes, List.length_append, List.length_cons]
  omega

theorem name_lt_length (w : SymLine) : w.name.bytes.length + 1 ≤ w.line.bytes.length := by
  simp only [line, bytes, List.length_append, List.length_cons]
  omega

theorem named_line (w : SymLine) : Named w.line := by
  intro h hh
  rw [w.scanHead_line, Option.mem_some_iff] at hh
  subst hh
  obtain ⟨c, rest, hc⟩ := List.exists_cons_of_ne_nil w.name_ne_nil
  refine ⟨c, ?_, w.name.isSpace c (by simp [hc])⟩
  simp [hc]

end SymLine

variable {ws : List SymLine}

theorem sum_filter_le (f : SymLine → ℕ) (ws : List SymLine) (tag : Option (List UInt8)) :
    ((ws.filter fun w => w.tag = tag).map f).sum ≤ (ws.map f).sum := by
  apply List.Sublist.sum_le_sum
  · exact List.filter_sublist.map f
  · simp

/-- Five bytes for every line. -/
theorem five_mul_length_le (ws : List SymLine) (tag : Option (List UInt8)) :
    5 * (entriesOf ws tag).length ≤ (ws.map fun w => w.line.bytes.length).sum := by
  have hfilter := sum_filter_le (fun _ => 5) ws tag
  have hfive := List.sum_le_sum fun w (_ : w ∈ ws) => w.five_le_length
  rw [List.map_const', List.sum_replicate_nat, ← length_entriesOf] at hfilter
  omega

theorem nameBytes_entriesOf_le (ws : List SymLine) (tag : Option (List UInt8)) :
    nameBytes (entriesOf ws tag) ≤ (ws.map fun w => w.line.bytes.length).sum := by
  have hfilter := sum_filter_le (fun w => w.name.bytes.length + 1) ws tag
  have hnames := List.sum_le_sum fun w (_ : w ∈ ws) => w.name_lt_length
  have heq : nameBytes (entriesOf ws tag) =
      ((ws.filter fun w => w.tag = tag).map fun w => w.name.bytes.length + 1).sum := by
    rw [nameBytes, entriesOf, List.map_map]
    rfl
  omega

/-- The lines are in the libraries, and nothing else is: every call passes the length of
its names, each path is written once, for a line of the file, and the library of a line
holds the names and addresses of its module in the order of the file. The reader finds
them in both symbol tables. -/
structure Survives (elfSize : List SymbolEntry → ℕ) (dir : Option PathPrefix)
    (ws : List SymLine) (calls : List WriteSo) : Prop where
  fits : ∀ c ∈ calls, c.Fits
  path_of : ∀ c ∈ calls, ∃ w ∈ ws, c.path = libText dir w.tag
  once : (calls.map WriteSo.path).Nodup
  back : ∀ w ∈ ws, ∃ r, readLibrary elfSize calls (libText dir w.tag) = some r ∧ r.rc = 0 ∧
    r.entries.map nameAddr = namesOf ws w.tag ++ namesOf ws w.tag ∧
    r.nmstrlen = some (2 * nameBytes (entriesOf ws w.tag))

/-- A file with less than `2 ^ 31` bytes: the loop gets through all its lines. -/
theorem SymFile.loop_holds {file : SymFile} (hsize : byteCount file.file.lines < 2 ^ 31) :
    ∃ st, file.file.lines.foldlM prcLine .empty = .ok st ∧
      Holds (file.file.lines.filterMap record) st := by
  have hends := loopEnds holds_empty file.file.lines (by simpa [byteCount] using file.file.size_lt)
  rcases hends with ⟨-, st, hout, hst⟩ | ⟨pre, l, post, hsplit, -, hstop⟩
  · exact ⟨st, hout, hst⟩
  · have hl : l ∈ file.file.lines := by simp [hsplit]
    have hle := length_le_byteCount hl
    rcases hstop with ⟨-, hunsupported, -⟩ | ⟨hnot, -⟩
    · obtain ⟨w, -, rfl⟩ := List.mem_map.mp hl
      exact absurd hunsupported w.not_unsupported
    · exact absurd (short_of_length_lt (by omega)) hnot

/-- Every call is for the lines of one library. -/
theorem Collected.path_of {st : Symbols} (h : Collected ws st) {dir : Option PathPrefix}
    (hfits : ∀ w ∈ ws, (libText dir w.tag).length < PATH_MAX) {c : WriteSo}
    (hc : c ∈ st.writes dir) : ∃ w ∈ ws, c.path = libText dir w.tag := by
  rcases (mem_writes_iff st dir c).mp hc with ⟨hne, rfl⟩ | ⟨m, lib, hfind, rfl⟩
  · have hkern : st.kern.entries.items = entriesOf ws none := h.items none
    rw [hkern] at hne
    obtain ⟨w, hw, htag⟩ := entriesOf_ne_nil_iff.mp hne
    have hlt := hfits w hw
    refine ⟨w, hw, ?_⟩
    rw [htag] at hlt ⊢
    exact snprintf_stored hlt
  · obtain ⟨w, hw, htag⟩ := (h.module_iff m).mp (by rw [hfind]; rfl)
    have hlt := hfits w hw
    refine ⟨w, hw, ?_⟩
    rw [htag] at hlt ⊢
    exact snprintf_stored hlt

/-- A path with one list was written by one call. -/
theorem count_path_of_written {calls : List WriteSo} {path : List UInt8}
    {l : Option (List SymbolEntry)} (h : written calls path = [l]) :
    (calls.map WriteSo.path).count path = 1 := by
  have hlen := congrArg List.length h
  rw [written, List.length_map, List.length_singleton] at hlen
  have hsame : (fun c : WriteSo => c.path == path) = fun c => decide (c.path = path) :=
    funext fun c => beq_eq_decide c.path path
  rw [List.count, List.countP_map, List.countP_eq_length_filter, Function.comp_def, hsame]
  exact hlen

/-- The library of a line is read back twice. -/
theorem readLibrary_of_written {elfSize : List SymbolEntry → ℕ} {calls : List WriteSo}
    {tag : Option (List UInt8)} {path : List UInt8}
    (hsize : (ws.map fun w => w.line.bytes.length).sum < 2 ^ 31)
    (hwrite : elfSize (entriesOf ws tag) ≤ MAX_RW_COUNT)
    (h : written calls path = [some (entriesOf ws tag)]) :
    ∃ r, readLibrary elfSize calls path = some r ∧ r.rc = 0 ∧
      r.entries.map nameAddr = namesOf ws tag ++ namesOf ws tag ∧
      r.nmstrlen = some (2 * nameBytes (entriesOf ws tag)) := by
  have hlines := five_mul_length_le ws tag
  have hnames := nameBytes_entriesOf_le ws tag
  let es : Entries := ⟨entriesOf ws tag, by omega⟩
  have hes : es.count = (entriesOf ws tag).length := rfl
  have hnm : namesSize es = nameBytes (entriesOf ws tag) := rfl
  have hcount : es.count ≤ 2 ^ 29 - 4 := by omega
  have hlib : libraryAt elfSize calls path = some (generated es) :=
    libraryAt_of_written h hcount hwrite
  have hread := (elfReadSyms_generated (by omega : namesSize es < 2 ^ 32 - 1) (by omega)).1
    (by omega)
  refine ⟨_, by rw [readLibrary, hlib, Option.bind_some, hread], rfl, ?_, by rw [hnm]⟩
  rw [List.map_append, List.map_map, ← map_nameAddr_entriesOf]
  rfl

def wordM : Word := ⟨ascii "m", by decide, by simp [ascii, isSpace]⟩

theorem zero_ne_nil : ascii "0" ≠ [] := by decide

theorem zero_value_lt : hexValue (ascii "0") < 2 ^ 64 := by decide

theorem textType_mem : 84 ∈ ascii "AaBbDdRrTtVWvw" := by decide

/-- `0 T name`, with a module or not. -/
def textLine (name : Word) (hname : name.bytes ≠ []) (module : Option (Gap × Word)) : SymLine :=
  ⟨ascii "0", zero_ne_nil, zero_isXdigit, zero_value_lt, blank, 84, textType_mem, blank, name,
    hname, module, newline, newline_isSpace⟩

theorem wordF_ne_nil : wordF.bytes ≠ [] := by decide

theorem wordG_ne_nil : wordG.bytes ≠ [] := by decide

/-- `0 T f` and `0 T g [m]`. -/
def twoLines : List SymLine :=
  [textLine wordF wordF_ne_nil none, textLine wordG wordG_ne_nil (some (blank, wordM))]

theorem twoLines_size : (twoLines.map fun w => w.line.bytes.length).sum < 2 ^ 63 := by decide

def twoLibraries : SymFile := ⟨twoLines, twoLines_size⟩

/-- The bytes of a library that is packed: headers and sections with gaps of at most seven
bytes, and the headers of eight sections. -/
def packedSize (l : List SymbolEntry) : ℕ := 408 + 2 * nameBytes l + 52 * l.length + 35 + 8 * 64

end SymbiOS.Kld
