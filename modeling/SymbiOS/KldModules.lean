import SymbiOS.KldKallsyms

/-!
# The symbols by module

Lines of `/proc/kallsyms` as the kernel prints them: an address, a letter and a name, and
for the symbols of a module its name in brackets. `prcKallsyms` writes one library for the
lines without a module, and one for every module.
-/
namespace SymbiOS.Kld
open SymbiOS.CLib

/-- White space between two fields. -/
structure Gap where
  bytes : List UInt8
  ne_nil : bytes ≠ []
  isSpace : ∀ c ∈ bytes, isSpace c

/-- A field holds no white space. -/
structure Word where
  bytes : List UInt8
  zero_not_mem : 0 ∉ bytes
  isSpace : ∀ c ∈ bytes, isSpace c = false

/-- A line `hexaddr type name` or `hexaddr type name [module]`, with a type that is
supported. -/
structure SymLine where
  digits : List UInt8
  digits_ne_nil : digits ≠ []
  isXdigit : ∀ c ∈ digits, isXdigit c
  value_lt : hexValue digits < 2 ^ 64
  typeGap : Gap
  type : UInt8
  type_mem : type ∈ ascii "AaBbDdRrTtVWvw"
  nameGap : Gap
  name : Word
  name_ne_nil : name.bytes ≠ []
  module : Option (Gap × Word)
  last : List UInt8
  last_isSpace : ∀ c ∈ last, CLib.isSpace c

namespace SymLine

/-- What follows the name. -/
def back (w : SymLine) : List UInt8 :=
  match w.module with
  | none => w.last
  | some m => m.1.bytes ++ (91 :: (m.2.bytes ++ [93]) ++ w.last)

def bytes (w : SymLine) : List UInt8 :=
  w.digits ++ (w.typeGap.bytes ++ w.type :: (w.nameGap.bytes ++ (w.name.bytes ++ w.back)))

/-- The module of the line; `none` is the kernel. -/
def tag (w : SymLine) : Option (List UInt8) := w.module.map fun m => m.2.bytes

def bind (w : SymLine) : SymBind := if w.type ∈ ascii "vVwW" then .weak else .global

def kind (w : SymLine) : SymType :=
  if w.type ∈ ascii "Aa" then .abs
  else if w.type ∈ ascii "Bb" then .bss
  else if w.type ∈ ascii "Dd" then .data
  else if w.type ∈ ascii "Rr" then .rodata
  else .func

/-- The symbol that the line describes. -/
def entry (w : SymLine) : SymbolEntry :=
  ⟨w.name.bytes, w.name.zero_not_mem, BitVec.ofNat 64 (hexValue w.digits), 0, w.bind, w.kind⟩

theorem not_isSpace_zero : CLib.isSpace 0 = false := by decide

theorem zero_not_mem_of_isSpace {gap : List UInt8} (h : ∀ c ∈ gap, CLib.isSpace c) : 0 ∉ gap := by
  intro hmem
  have hzero := h 0 hmem
  rw [not_isSpace_zero] at hzero
  cases hzero

theorem zero_not_mem_back (w : SymLine) : 0 ∉ w.back := by
  have hlast := zero_not_mem_of_isSpace w.last_isSpace
  unfold back
  cases w.module with
  | none => exact hlast
  | some m =>
    have hgap := zero_not_mem_of_isSpace m.1.isSpace
    have hword := m.2.zero_not_mem
    simp [hgap, hword, hlast]

theorem zero_not_mem_bytes (w : SymLine) : 0 ∉ w.bytes := by
  have hdigits : 0 ∉ w.digits := fun hmem => absurd (w.isXdigit 0 hmem) (by decide)
  have hgap₁ := zero_not_mem_of_isSpace w.typeGap.isSpace
  have htype : (0 : UInt8) ≠ w.type := by
    intro heq
    have hmem := w.type_mem
    rw [← heq] at hmem
    exact absurd hmem (by decide)
  have hgap₂ := zero_not_mem_of_isSpace w.nameGap.isSpace
  have hname := w.name.zero_not_mem
  have hback := w.zero_not_mem_back
  simp [bytes, hdigits, hgap₁, htype, hgap₂, hname, hback]

def line (w : SymLine) : CString := ⟨w.bytes, w.zero_not_mem_bytes⟩

/-- No letter is white space. -/
theorem type_not_isSpace (w : SymLine) : CLib.isSpace w.type = false := by
  have hall : (ascii "AaBbDdRrTtVWvw").all (fun c => !CLib.isSpace c) = true := by decide
  simpa using List.all_eq_true.mp hall w.type w.type_mem

theorem symKind_type (w : SymLine) : symKind w.type = some (w.bind, w.kind) := by
  have hall : (ascii "AaBbDdRrTtVWvw").all (fun c => symKind c = some
      (if c ∈ ascii "vVwW" then .weak else .global,
        if c ∈ ascii "Aa" then .abs else if c ∈ ascii "Bb" then .bss
        else if c ∈ ascii "Dd" then .data else if c ∈ ascii "Rr" then .rodata
        else .func)) = true := by
    decide
  exact of_decide_eq_true (List.all_eq_true.mp hall w.type w.type_mem)

theorem scanHead_line (w : SymLine) : scanHead w.line.bytes =
    some (BitVec.ofNat 64 (hexValue w.digits), w.type,
      w.nameGap.bytes ++ (w.name.bytes ++ w.back)) := by
  obtain ⟨c, gap, hgap⟩ := List.exists_cons_of_ne_nil w.typeGap.ne_nil
  have hc : CLib.isSpace c := w.typeGap.isSpace c (by simp [hgap])
  have hhex := scanHex_digits w.digits_ne_nil w.isXdigit w.value_lt hc
    (gap ++ w.type :: (w.nameGap.bytes ++ (w.name.bytes ++ w.back)))
  have hchar := scanChar_append w.typeGap.isSpace w.type_not_isSpace
    (w.nameGap.bytes ++ (w.name.bytes ++ w.back))
  rw [hgap] at hchar
  show scanHead (w.digits ++ (w.typeGap.bytes ++ _)) = _
  rw [hgap, scanHead, List.cons_append, hhex]
  simp only [Option.bind_some]
  rw [← List.cons_append, hchar]
  rfl

/-- What comes before the gap in front of the name. -/
def head (w : SymLine) : List UInt8 := w.digits ++ (w.typeGap.bytes ++ [w.type])

theorem line_bytes (w : SymLine) :
    w.line.bytes = w.head ++ (w.nameGap.bytes ++ (w.name.bytes ++ w.back)) := by
  simp [line, bytes, head]

theorem moduleName_brackets (m : List UInt8) : moduleName (91 :: (m ++ [93])) = m := by
  simp [moduleName]

/-- The cuts give the name of the symbol and that of the module. -/
theorem readRecord_line (w : SymLine) (addr : BitVec 64) (type : UInt8) :
    (readRecord w.line.bytes (scanFields w.line.bytes addr type
      (w.nameGap.bytes ++ (w.name.bytes ++ w.back)))).name.bytes = w.name.bytes ∧
    (readRecord w.line.bytes (scanFields w.line.bytes addr type
      (w.nameGap.bytes ++ (w.name.bytes ++ w.back)))).module = w.tag := by
  rw [line_bytes]
  cases hmodule : w.module with
  | none =>
    have hback : w.back = w.last := by rw [back, hmodule]
    have hs := scanFields_kernel w.head addr type w.nameGap.isSpace w.name_ne_nil w.name.isSpace
      w.last_isSpace
    rw [hback, tag, hmodule]
    exact readRecord_kernel w.name.zero_not_mem rfl hs
  | some m =>
    have hback : w.back = m.1.bytes ++ (91 :: (m.2.bytes ++ [93]) ++ w.last) := by
      rw [back, hmodule]
    have hspace : ∀ c ∈ 91 :: (m.2.bytes ++ [93]), CLib.isSpace c = false := by
      intro c hc
      simp only [List.mem_cons, List.mem_append, List.not_mem_nil, or_false] at hc
      rcases hc with rfl | hc | rfl
      · decide
      · exact m.2.isSpace c hc
      · decide
    have hzero : 0 ∉ 91 :: (m.2.bytes ++ [93]) := by simp [m.2.zero_not_mem]
    have hs := scanFields_module w.head addr type w.nameGap.isSpace w.name_ne_nil w.name.isSpace
      m.1.isSpace m.1.ne_nil (List.cons_ne_nil _ _) hspace
      fun c hc => w.last_isSpace c (List.mem_of_mem_head? hc)
    rw [hback, tag, hmodule, Option.map_some]
    apply (readRecord_module w.name.zero_not_mem m.1.ne_nil (List.cons_ne_nil _ _) hzero
      rfl hs).imp_right
    intro hname
    rw [hname, moduleName_brackets]

/-- A line adds the symbol that it describes to its module. -/
theorem record_line (w : SymLine) :
    ∃ r, record w.line = some r ∧ r.entry = some w.entry ∧ r.module = w.tag := by
  obtain ⟨hname, hmodule⟩ := w.readRecord_line (BitVec.ofNat 64 (hexValue w.digits)) w.type
  obtain ⟨haddr, htype, -⟩ := readRecord_fields w.line.bytes (scanFields w.line.bytes
    (BitVec.ofNat 64 (hexValue w.digits)) w.type (w.nameGap.bytes ++ (w.name.bytes ++ w.back)))
  rw [(scanFields_head ..).1] at haddr
  rw [(scanFields_head ..).2] at htype
  refine ⟨_, by rw [record, sscanf, w.scanHead_line]; rfl, ?_, hmodule⟩
  rw [Record.entry, initSE, htype, w.symKind_type, haddr]
  simp only [Option.map_some, Option.some.injEq, entry, SymbolEntry.mk.injEq, and_true]
  exact hname

theorem not_unsupported (w : SymLine) : ¬ Unsupported w.line := by
  rintro ⟨h, hh, hkind⟩
  rw [w.scanHead_line] at hh
  cases hh
  rw [w.symKind_type] at hkind
  cases hkind

end SymLine

/-- The lines of a file that the kernel printed. -/
structure SymFile where
  lines : List SymLine
  size_lt : (lines.map fun w => w.line.bytes.length).sum < 2 ^ 63

def SymFile.file (file : SymFile) : KallsymsFile where
  lines := file.lines.map SymLine.line
  size_lt := by
    rw [List.map_map]
    exact file.size_lt

/-- The symbols of the lines with a module, or of those without one. -/
def entriesOf (ws : List SymLine) (tag : Option (List UInt8)) : List SymbolEntry :=
  (ws.filter fun w => w.tag = tag).map SymLine.entry

/-- The records of the lines, library by library. -/
theorem filterMap_records (ws : List SymLine) (tag : Option (List UInt8)) :
    (ofLib ((ws.map SymLine.line).filterMap record) tag).filterMap Record.entry =
      entriesOf ws tag := by
  induction ws with
  | nil => rfl
  | cons w ws ih =>
    obtain ⟨r, hr, hentry, hmodule⟩ := w.record_line
    rw [List.map_cons, List.filterMap_cons_some hr, ofLib, List.filter_cons, entriesOf,
      List.filter_cons, hmodule]
    by_cases htag : w.tag = tag
    · simp only [htag, decide_true, if_true]
      rw [List.filterMap_cons_some hentry, List.map_cons, ← ofLib, ← entriesOf, ih]
    · simp only [htag, decide_false, Bool.false_eq_true, if_false]
      rw [← ofLib, ← entriesOf, ih]

/-- `writeso` gives the number of the entries to the generator as an `int`. With a negative
one the generator cannot run. -/
def counted (entries : List SymbolEntry) : Option (List SymbolEntry) :=
  let count := (BitVec.ofNat 32 entries.length).toInt
  if count < 0 then none else some (entries.take count.toNat)

/-- The lists that `writeso` is called with for a path, one after the other. Each call
truncates the file. -/
def written (calls : List WriteSo) (path : List UInt8) : List (Option (List SymbolEntry)) :=
  (calls.filter fun c => c.path = path).map fun c => counted c.entries

def libText (dir : Option PathPrefix) : Option (List UInt8) → List UInt8
  | none => kernText dir
  | some m => moduleText dir m

/-- `libkern.so` is written with the symbols without a module, if there are any, and the
library of every module that occurs is written once, with the symbols of the module. -/
def Partitioned (dir : Option PathPrefix) (ws : List SymLine)
    (out : Except Stop (List WriteSo)) : Prop :=
  ∃ calls, out = .ok calls ∧
    written calls (kernText dir) =
      (if entriesOf ws none = [] then [] else [some (entriesOf ws none)]) ∧
    ∀ m, (∃ w ∈ ws, w.tag = some m) →
      written calls (moduleText dir m) = [some (entriesOf ws (some m))]

theorem counted_of_lt {entries : List SymbolEntry} (h : entries.length < 2 ^ 31) :
    counted entries = some entries := by
  have hcount : (BitVec.ofNat 32 entries.length).toInt = entries.length := by
    have htoNat : (BitVec.ofNat 32 entries.length).toNat = entries.length := by
      rw [BitVec.toNat_ofNat]
      exact Nat.mod_eq_of_lt (by omega)
    rw [BitVec.toInt_eq_toNat_of_lt (by omega), htoNat]
  unfold counted
  simp only [hcount]
  rw [if_neg (by omega), Int.toNat_natCast, List.take_length]

/-- What the generator gets is never longer than `int` can count. -/
theorem length_of_counted {entries l : List SymbolEntry} (h : counted entries = some l) :
    l.length < 2 ^ 31 := by
  have hlt := BitVec.toInt_lt (x := BitVec.ofNat 32 entries.length)
  unfold counted at h
  dsimp only at h
  split at h
  · cases h
  · cases h
    rw [List.length_take]
    omega

theorem moduleText_inj {dir : Option PathPrefix} {m m' : List UInt8} :
    moduleText dir m = moduleText dir m' ↔ m = m' := by
  cases dir with
  | none => simp [moduleText]
  | some dir => simp [moduleText]

/-- The library of the kernel has the path that a module `kern` would have. -/
theorem kernText_eq (dir : Option PathPrefix) : kernText dir = moduleText dir (ascii "kern") := by
  cases dir with
  | none => decide
  | some dir =>
    have happend : ascii "/libkern.so" = ascii "/lib" ++ (ascii "kern" ++ ascii ".so") := by decide
    simp only [kernText, moduleText, happend, List.append_assoc]

variable {st : Symbols}

/-- The lists written to a path of a module, where all paths fit. -/
theorem written_writes (st : Symbols) (dir : Option PathPrefix)
    (hkern : st.kern.entries.items ≠ [] → (kernText dir).length < PATH_MAX)
    (hmodules : ∀ m, (st.modules.find? m).isSome → (moduleText dir m).length < PATH_MAX)
    (m : List UInt8) :
    written (st.writes dir) (moduleText dir m) =
      (if st.kern.entries.items ≠ [] ∧ m = ascii "kern" then [counted st.kern.entries.items]
        else []) ++
      (st.modules.find? m).toList.map fun lib => counted lib.entries.items := by
  unfold written Symbols.writes
  rw [List.filter_append, List.map_append]
  congr 1
  · by_cases hnil : st.kern.entries.items = []
    · simp [hnil]
    · have hpath : (st.kern.write (kernText dir)).path = moduleText dir (ascii "kern") := by
        rw [← kernText_eq]
        exact snprintf_stored (hkern hnil)
      have hentries : (st.kern.write (kernText dir)).entries = st.kern.entries.items := rfl
      rw [if_pos (by simpa using hnil)]
      by_cases hm : m = ascii "kern"
      · simp [hpath, hm, hnil, hentries]
      · have hne : ascii "kern" ≠ m := fun he => hm he.symm
        simp [hpath, hm, hne, moduleText_inj]
  · have hfilter : st.modules.entries.filter
        (fun p => (p.2.write (moduleText dir p.1)).path = moduleText dir m) =
        st.modules.entries.filter (fun p => p.1 = m) := by
      apply List.filter_congr
      intro p hp
      have hfind := (st.modules.mem_entries_iff p.1 p.2).mp hp
      have hpath : (p.2.write (moduleText dir p.1)).path = moduleText dir p.1 :=
        snprintf_stored (hmodules p.1 (by rw [hfind]; rfl))
      simp only [hpath, moduleText_inj]
    rw [List.filter_map, List.map_map]
    show List.map _ (st.modules.entries.filter
      (fun p => (p.2.write (moduleText dir p.1)).path = moduleText dir m)) = _
    rw [hfilter, st.modules.filter_entries, List.map_map]
    rfl

theorem entriesOf_ne_nil_iff {ws : List SymLine} {tag : Option (List UInt8)} :
    entriesOf ws tag ≠ [] ↔ ∃ w ∈ ws, w.tag = tag := by
  simp [entriesOf]

/-- The state that the lines lead to. -/
structure Collected (ws : List SymLine) (st : Symbols) : Prop where
  items : ∀ tag, (st.lib tag).entries.items = entriesOf ws tag
  module_iff : ∀ m, (st.modules.find? m).isSome ↔ ∃ w ∈ ws, w.tag = some m

theorem Holds.collected {ws : List SymLine}
    (h : Holds ((ws.map SymLine.line).filterMap record) st) : Collected ws st where
  items tag := by rw [h.items, filterMap_records]
  module_iff m := by
    rw [h.module_iff]
    constructor
    · rintro ⟨r, hr, hmodule⟩
      obtain ⟨l, hl, hrecord⟩ := List.mem_filterMap.mp hr
      obtain ⟨w, hw, rfl⟩ := List.mem_map.mp hl
      obtain ⟨r', hr', -, htag⟩ := w.record_line
      obtain rfl : r' = r := Option.some.inj (hr'.symm.trans hrecord)
      exact ⟨w, hw, htag.symm.trans hmodule⟩
    · rintro ⟨w, hw, htag⟩
      obtain ⟨r, hr, -, hmodule⟩ := w.record_line
      exact ⟨r, List.mem_filterMap.mpr ⟨w.line, List.mem_map_of_mem hw, hr⟩, hmodule.trans htag⟩

/-- Where the lines are short, the loop collects them all. Otherwise it has no meaning. -/
theorem SymFile.loop_cases (file : SymFile) :
    (∀ w ∈ file.lines, Short w.line) ∧
      (∃ st, file.file.lines.foldlM prcLine .empty = .ok st ∧ Collected file.lines st) ∨
    (¬ ∀ w ∈ file.lines, Short w.line) ∧
      file.file.lines.foldlM prcLine .empty = .error .undefined := by
  have hends := loopEnds holds_empty file.file.lines (by simpa [byteCount] using file.file.size_lt)
  rcases hends with ⟨hall, st, hout, hst⟩ | ⟨pre, l, post, hsplit, -, hstop⟩
  · refine .inl ⟨?_, st, hout, Holds.collected hst⟩
    intro w hw
    exact (hall w.line (List.mem_map_of_mem hw)).1
  · have hl : l ∈ file.file.lines := by simp [hsplit]
    obtain ⟨w, hw, rfl⟩ := List.mem_map.mp hl
    rcases hstop with ⟨-, hunsupported, -⟩ | ⟨hshort, hout⟩
    · exact absurd hunsupported w.not_unsupported
    · exact .inr ⟨fun hall => hshort (hall w hw), hout⟩

/-- The condition on the lines of one library: its path fits, `int` counts its lines, and
it is not the module `kern`. -/
def SymLine.Separate (dir : Option PathPrefix) (ws : List SymLine) (w : SymLine) : Prop :=
  w.tag ≠ some (ascii "kern") ∧ (libText dir w.tag).length < PATH_MAX ∧
    (ws.filter fun w' => w'.tag = w.tag).length < 2 ^ 31

/-- The lists written to a path of a module, in terms of the lines. -/
theorem Collected.written_eq {ws : List SymLine} (h : Collected ws st) {dir : Option PathPrefix}
    (hfits : ∀ w ∈ ws, (libText dir w.tag).length < PATH_MAX) (m : List UInt8) :
    written (st.writes dir) (moduleText dir m) =
      (if entriesOf ws none ≠ [] ∧ m = ascii "kern" then [counted (entriesOf ws none)] else []) ++
      if entriesOf ws (some m) ≠ [] then [counted (entriesOf ws (some m))] else [] := by
  have hkern : st.kern.entries.items = entriesOf ws none := h.items none
  have hmodule : ((st.modules.find? m).toList.map fun lib => counted lib.entries.items) =
      if entriesOf ws (some m) ≠ [] then [counted (entriesOf ws (some m))] else [] := by
    have hlib := h.items (some m)
    have hiff := h.module_iff m
    rw [← entriesOf_ne_nil_iff] at hiff
    cases hfind : st.modules.find? m with
    | none =>
      rw [hfind, Option.isSome_none] at hiff
      rw [if_neg fun hne => Bool.false_ne_true (hiff.mpr hne)]
      rfl
    | some lib =>
      rw [hfind] at hiff
      rw [Symbols.lib, hfind, Option.getD_some] at hlib
      rw [if_pos (hiff.mp rfl), ← hlib]
      rfl
  rw [written_writes, hmodule, hkern]
  · intro hne
    rw [hkern, entriesOf_ne_nil_iff] at hne
    obtain ⟨w, hw, htag⟩ := hne
    have hlt := hfits w hw
    rwa [htag] at hlt
  · intro m' hm'
    obtain ⟨w, hw, htag⟩ := (h.module_iff m').mp hm'
    have hlt := hfits w hw
    rwa [htag] at hlt

theorem path_length_lt {dir : Option PathPrefix} {c : WriteSo} (h : c ∈ st.writes dir) :
    c.path.length < PATH_MAX := by
  have hpath : ∃ text, c.path = (snprintf PATH_MAX text).2 := by
    rcases (mem_writes_iff st dir c).mp h with ⟨-, rfl⟩ | ⟨m, lib, -, rfl⟩
    · exact ⟨_, rfl⟩
    · exact ⟨_, rfl⟩
  obtain ⟨text, htext⟩ := hpath
  rw [htext]
  simp only [snprintf, List.length_take, PATH_MAX]
  omega

/-- A list that was written has a path that fits, and a length that `int` holds. -/
theorem bounds_of_written {dir : Option PathPrefix} {path : List UInt8} {l : List SymbolEntry}
    (h : written (st.writes dir) path = [some l]) :
    path.length < PATH_MAX ∧ l.length < 2 ^ 31 := by
  have hmem : some l ∈ written (st.writes dir) path := by simp [h]
  obtain ⟨c, hc, hcounted⟩ := List.mem_map.mp hmem
  obtain ⟨hcall, hpath⟩ := List.mem_filter.mp hc
  have hlt := path_length_lt hcall
  rw [of_decide_eq_true hpath] at hlt
  exact ⟨hlt, length_of_counted hcounted⟩

theorem length_entriesOf (ws : List SymLine) (tag : Option (List UInt8)) :
    (entriesOf ws tag).length = (ws.filter fun w => w.tag = tag).length := by
  rw [entriesOf, List.length_map]

/-- In a partition every library that has lines is written once, with these. -/
theorem Partitioned.written_tag {ws : List SymLine} {dir : Option PathPrefix}
    {calls : List WriteSo} (h : Partitioned dir ws (.ok calls)) {w : SymLine} (hw : w ∈ ws) :
    written calls (libText dir w.tag) = [some (entriesOf ws w.tag)] := by
  obtain ⟨calls', hcalls, hkern, hmodules⟩ := h
  cases hcalls
  have hne := entriesOf_ne_nil_iff.mpr ⟨w, hw, rfl⟩
  cases htag : w.tag with
  | none =>
    rw [htag] at hne
    rwa [if_neg hne] at hkern
  | some m => exact hmodules m ⟨w, hw, htag⟩

/-- The library of a module `kern` is written to the path of the kernel's. -/
theorem Collected.no_kern {ws : List SymLine} (h : Collected ws st) {dir : Option PathPrefix}
    (hpart : Partitioned dir ws (.ok (st.writes dir))) {w : SymLine} (hw : w ∈ ws) :
    w.tag ≠ some (ascii "kern") := by
  intro htag
  have hfits : ∀ w ∈ ws, (libText dir w.tag).length < PATH_MAX :=
    fun w hw => (bounds_of_written (hpart.written_tag hw)).1
  have hne := entriesOf_ne_nil_iff.mpr ⟨w, hw, htag⟩
  obtain ⟨calls, hcalls, hkern, -⟩ := hpart
  cases hcalls
  rw [kernText_eq, h.written_eq hfits, if_pos hne] at hkern
  by_cases hnil : entriesOf ws none = []
  · simp [hnil] at hkern
  · simp [hnil] at hkern

theorem Collected.partitioned {ws : List SymLine} (h : Collected ws st) {dir : Option PathPrefix}
    (hsep : ∀ w ∈ ws, w.Separate dir ws) : Partitioned dir ws (.ok (st.writes dir)) := by
  have hfits : ∀ w ∈ ws, (libText dir w.tag).length < PATH_MAX := fun w hw => (hsep w hw).2.1
  have hcounted : ∀ tag, entriesOf ws tag ≠ [] →
      counted (entriesOf ws tag) = some (entriesOf ws tag) := by
    intro tag hne
    obtain ⟨w, hw, rfl⟩ := entriesOf_ne_nil_iff.mp hne
    apply counted_of_lt
    rw [length_entriesOf]
    exact (hsep w hw).2.2
  refine ⟨st.writes dir, rfl, ?_, ?_⟩
  · have hkern : ¬ entriesOf ws (some (ascii "kern")) ≠ [] := by
      intro hne
      obtain ⟨w, hw, htag⟩ := entriesOf_ne_nil_iff.mp hne
      exact (hsep w hw).1 htag
    rw [kernText_eq, h.written_eq hfits, if_neg hkern, List.append_nil]
    by_cases hnil : entriesOf ws none = []
    · simp [hnil]
    · simp [hnil, hcounted none hnil]
  · rintro m ⟨w, hw, htag⟩
    have hne := entriesOf_ne_nil_iff.mpr ⟨w, hw, htag⟩
    have hm : m ≠ ascii "kern" := by
      rintro rfl
      exact (hsep w hw).1 htag
    rw [h.written_eq hfits, if_neg fun hboth => hm hboth.2, if_pos hne, hcounted _ hne]
    rfl

theorem Collected.partitioned_iff_separate {ws : List SymLine} (h : Collected ws st)
    (dir : Option PathPrefix) :
    Partitioned dir ws (.ok (st.writes dir)) ↔ ∀ w ∈ ws, w.Separate dir ws := by
  constructor
  · intro hpart w hw
    obtain ⟨hfits, hlen⟩ := bounds_of_written (hpart.written_tag hw)
    rw [length_entriesOf] at hlen
    exact ⟨h.no_kern hpart hw, hfits, hlen⟩
  · exact h.partitioned

/-- The symbols are partitioned exactly where the directory can be made and, for every
line, its positions fit `int`, its module is not `kern`, the path of its library fits
`PATH_MAX`, and the library has fewer than `2 ^ 31` symbols. -/
theorem partitioned_iff (mkdir : List UInt8 → Bool) (dir : Option PathPrefix) (file : SymFile) :
    Partitioned dir file.lines (prcKallsyms mkdir dir file.file) ↔
      (file.lines = [] ∨ pathOk mkdir dir) ∧
      ∀ w ∈ file.lines, Short w.line ∧ w.Separate dir file.lines := by
  unfold prcKallsyms
  cases hpath : pathOk mkdir dir with
  | false =>
    rw [if_neg Bool.false_ne_true]
    constructor
    · intro hpart
      have hnil : file.lines = [] := by
        rw [List.eq_nil_iff_forall_not_mem]
        intro w hw
        have hwritten := hpart.written_tag hw
        simp [written] at hwritten
      exact ⟨.inl hnil, by simp [hnil]⟩
    · rintro ⟨hnil | hfalse, -⟩
      · refine ⟨[], rfl, ?_, ?_⟩
        · simp [written, hnil, entriesOf]
        · simp [hnil]
      · cases hfalse
  | true =>
    rw [if_pos rfl]
    rcases file.loop_cases with ⟨hshort, st, hout, hst⟩ | ⟨hnot, hout⟩
    · rw [hout]
      show Partitioned dir file.lines (.ok (st.writes dir)) ↔ _
      rw [hst.partitioned_iff_separate]
      constructor
      · intro hsep
        exact ⟨.inr rfl, fun w hw => ⟨hshort w hw, hsep w hw⟩⟩
      · rintro ⟨-, hall⟩ w hw
        exact (hall w hw).2
    · rw [hout]
      apply iff_of_false
      · rintro ⟨calls, hcalls, -⟩
        cases hcalls
      · rintro ⟨-, hall⟩
        exact hnot fun w hw => (hall w hw).1

def blank : Gap := ⟨ascii " ", by decide, List.all_eq_true.mp (by decide)⟩

def newline : List UInt8 := ascii "\n"

theorem newline_isSpace : ∀ c ∈ newline, isSpace c := List.all_eq_true.mp (by decide)

theorem zero_isXdigit : ∀ c ∈ ascii "0", isXdigit c := List.all_eq_true.mp (by decide)

def wordF : Word := ⟨ascii "f", by decide, by simp [ascii, isSpace]⟩

def wordG : Word := ⟨ascii "g", by decide, by simp [ascii, isSpace]⟩

def wordKern : Word := ⟨ascii "kern", by decide, by simp [ascii, isSpace]⟩

/-- `0 T f` and `0 t g [kern]`. -/
def kernFile : SymFile where
  lines := [
    ⟨ascii "0", by decide, zero_isXdigit, by decide, blank, 84, by decide, blank, wordF, by decide,
      none, newline, newline_isSpace⟩,
    ⟨ascii "0", by decide, zero_isXdigit, by decide, blank, 116, by decide, blank, wordG, by decide,
      some (blank, wordKern), newline, newline_isSpace⟩]
  size_lt := by decide

/-- Both libraries are written to the same path: the symbol of the kernel is lost. -/
theorem kern_module_overwrites :
    ∃ c c', prcKallsyms (fun _ => true) (some libk) kernFile.file = .ok [c, c'] ∧
      c.path = ascii "libk/libkern.so" ∧ c'.path = ascii "libk/libkern.so" ∧
      c.entries.map SymbolEntry.name = [ascii "f"] ∧
      c'.entries.map SymbolEntry.name = [ascii "g"] ∧
      ¬ Partitioned (some libk) kernFile.lines
        (prcKallsyms (fun _ => true) (some libk) kernFile.file) := by
  refine ⟨_, _, rfl, by decide, by decide, by decide, by decide, ?_⟩
  rintro ⟨calls, hcalls, hkern, -⟩
  cases hcalls
  have hlen := congrArg List.length hkern
  exact absurd hlen (by decide)

end SymbiOS.Kld
