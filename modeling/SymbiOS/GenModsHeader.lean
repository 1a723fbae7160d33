import SymbiOS.PyText

/-!
# The modules of the extension

`genmodsheader` writes a header with a macro that loads every module of the build
directory. The loader expands it in `load_ext_module` and adds up what `init_module`
returns for each of them.
-/
namespace SymbiOS.Gen
open SymbiOS.PyText

/-- `removesuffix('.ko')`. -/
def removesuffix (name : Text) : Text :=
  if lit ".ko" <:+ name then name.rdrop (lit ".ko").length else name

def modulesGuard (outputFile : Text) : Text :=
  ((outputFile.rtakeWhile (· != '/')).map fun c => if c = '.' then '_' else c.toUpper) ++ lit "_"

def externLines (modname : Text) : List Text :=
  [lit "extern const char _binary_" ++ modname ++ lit "_ko_start[];",
    lit "extern const char _binary_" ++ modname ++ lit "_ko_end[];",
    lit "extern const char _binary_" ++ modname ++ lit "_ko_size;"]

def loadModuleMacro : List Text :=
  [lit "// Macro to load a single module, init_module handles the case where it's already " ++
      lit "loaded and will print a message instead of erroring out",
    lit "#define LOAD_MODULE(modname) do \x7b\\",
    lit "    size_t size = (size_t)&_binary_##modname##_ko_size;\\",
    lit "    ret += init_module((void*)_binary_##modname##_ko_start, size, \"\"); \\",
    lit "  \x7d while(0)",
    lit ""]

def loadLine (modname : Text) : Text := lit "    LOAD_MODULE(" ++ modname ++ lit ");\\"

def loadAllOpen : Text := lit "#define LOAD_ALL_MODULES() do \x7b\\"

def loadAllMacro (modnames : List Text) : List Text :=
  if modnames = [] then [lit "#define LOAD_ALL_MODULES() do \x7b \x7d while(0)"]
  else loadAllOpen :: (modnames.map loadLine ++ [lit "  \x7d while(0)"])

/-- What stands before the last macro. -/
def modulesStart (outputFile : Text) (modnames : List Text) : List Text :=
  [lit "#ifndef " ++ modulesGuard outputFile, lit "#define " ++ modulesGuard outputFile,
    lit "", lit "// Auto-generated module loading header", lit ""] ++
  (if modnames = [] then []
    else lit "// Module binary symbols" :: (modnames.flatMap externLines ++ [lit ""])) ++
  loadModuleMacro ++ [lit "// Macro to load all modules"]

def generateModulesHeader (moduleNames : List Text) (outputFile : Text) : List Text :=
  let modnames := moduleNames.map removesuffix
  modulesStart outputFile modnames ++ loadAllMacro modnames ++
    [lit "", lit "#endif // " ++ modulesGuard outputFile]

/-- The lines of `LOAD_ALL_MODULES` after the first that go on with the macro. -/
def loadAllBody (header : List Text) : List Text :=
  ((header.dropWhile (· ≠ loadAllOpen)).drop 1).takeWhile fun line => line.getLast? = some '\\'

def loadName (line : Text) : Text :=
  (line.drop (lit "    LOAD_MODULE(").length).rdrop (lit ");\\").length

/-- The modules that the macro loads, in its order. -/
def loadedNames (header : List Text) : List Text := (loadAllBody header).map loadName

lemma loadName_loadLine (modname : Text) : loadName (loadLine modname) = modname := by
  have hdrop : (loadLine modname).drop (lit "    LOAD_MODULE(").length =
      modname ++ lit ");\\" := by
    rw [loadLine, List.append_assoc]
    exact List.drop_left
  rw [loadName, hdrop]
  exact List.rdrop_append_length

lemma loadAllOpen_ne_guard (outputFile word : Text) :
    loadAllOpen ≠ word ++ modulesGuard outputFile := by
  intro heq
  have hlast := congrArg List.getLast? heq
  rw [modulesGuard, ← List.append_assoc,
    List.getLast?_append_of_ne_nil _ (by decide)] at hlast
  exact absurd hlast (by decide)

lemma loadAllOpen_not_mem_macro : loadAllOpen ∉ loadModuleMacro := by
  intro hmem
  have hall : loadModuleMacro.all (fun line => line.take 14 != loadAllOpen.take 14) = true := by
    decide
  have hself := List.all_eq_true.mp hall loadAllOpen hmem
  exact absurd hself (by simp)

lemma loadAllOpen_not_mem_start (outputFile : Text) (modnames : List Text) :
    loadAllOpen ∉ modulesStart outputFile modnames := by
  have hguard := loadAllOpen_ne_guard outputFile
  have hsymbols : loadAllOpen ∉ (if modnames = [] then []
      else lit "// Module binary symbols" :: (modnames.flatMap externLines ++ [lit ""])) := by
    split
    · exact List.not_mem_nil
    · have hextern : loadAllOpen ∉ modnames.flatMap externLines := by
        intro hmem
        obtain ⟨modname, -, hline⟩ := List.mem_flatMap.mp hmem
        have hall : ∀ line ∈ externLines modname, line.head? = some 'e' := by
          simp [externLines, lit]
        exact absurd (hall loadAllOpen hline) (by decide)
      have htitle : loadAllOpen ≠ lit "// Module binary symbols" := by decide
      have hblank : loadAllOpen ∉ [lit ""] := by decide
      exact List.not_mem_cons_of_ne_of_not_mem htitle (List.not_mem_append hextern hblank)
  have hopen : loadAllOpen ∉ [lit "#ifndef " ++ modulesGuard outputFile,
      lit "#define " ++ modulesGuard outputFile, lit "",
      lit "// Auto-generated module loading header", lit ""] := by
    refine List.not_mem_cons_of_ne_of_not_mem (hguard _) ?_
    exact List.not_mem_cons_of_ne_of_not_mem (hguard _) (by decide)
  have hlast : loadAllOpen ∉ [lit "// Macro to load all modules"] := by decide
  exact List.not_mem_append (List.not_mem_append (List.not_mem_append hopen hsymbols)
    loadAllOpen_not_mem_macro) hlast

/-- The macro loads every module that the script was given. -/
theorem loadedNames_generateModulesHeader (moduleNames : List Text) (outputFile : Text) :
    loadedNames (generateModulesHeader moduleNames outputFile) =
      moduleNames.map removesuffix := by
  rw [generateModulesHeader]
  set modnames := moduleNames.map removesuffix
  have hstart := loadAllOpen_not_mem_start outputFile modnames
  by_cases hnil : modnames = []
  · have hnone : loadAllOpen ∉ modulesStart outputFile modnames ++ loadAllMacro modnames ++
        [lit "", lit "#endif // " ++ modulesGuard outputFile] := by
      rw [loadAllMacro, if_pos hnil]
      refine List.not_mem_append (List.not_mem_append hstart (by decide)) ?_
      exact List.not_mem_cons_of_ne_of_not_mem (by decide)
        (List.not_mem_cons_of_ne_of_not_mem (loadAllOpen_ne_guard outputFile _) List.not_mem_nil)
    rw [loadedNames, loadAllBody, List.dropWhile_eq_nil_iff.mpr, hnil]
    · rfl
    · intro line hline
      rw [decide_eq_true_eq]
      rintro rfl
      exact hnone hline
  · rw [loadAllMacro, if_neg hnil, loadedNames, loadAllBody, List.append_assoc, List.cons_append,
      drop_dropWhile_ne hstart, List.append_assoc, List.cons_append, takeWhile_stop]
    · rw [List.map_map]
      exact List.map_id'' loadName_loadLine _
    · intro line hline
      obtain ⟨modname, -, rfl⟩ := List.mem_map.mp hline
      rw [loadLine, List.getLast?_append_of_ne_nil _ (by decide)]
      decide
    · decide

end SymbiOS.Gen
