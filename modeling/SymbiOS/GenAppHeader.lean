import SymbiOS.PyText

/-!
# The headers of the application's functions

`genappheader` writes two headers from the application's own. The kernel side is
compiled with `app.h`, which has the table of the functions' addresses and a stub for
each of them; the loader `dpld.c` is compiled with `app_got.h`, which has the table
again and a macro that fills it. Every list in them comes from a set of texts.
-/
namespace SymbiOS.Gen
open SymbiOS.PyText

/-- A function as the parser reports it: types and names are spelled out. A parameter may
have no name, and only the types of functions have commas. -/
structure FuncDecl where
  name : Text
  resultType : Text
  params : List (Text × Text)
  name_ne_nil : name ≠ []
  name_chars : ∀ c ∈ name, isNameChar c
  param_name_chars : ∀ p ∈ params, ∀ c ∈ p.2, isNameChar c
  param_type_comma : ∀ p ∈ params, ',' ∈ p.1 → '(' ∈ p.1

/-- What stands at the top level of the header: where it comes from, whether it is
static, and the function if it declares one. -/
structure Cursor where
  inHeader : Bool
  isStatic : Bool
  func : Option FuncDecl

/-- `', '.join(params)`. -/
def joinParams : List Text → Text
  | [] => []
  | [p] => p
  | p :: q :: ps => p ++ lit ", " ++ joinParams (q :: ps)

def paramsText (params : List (Text × Text)) : Text :=
  if params = [] then lit "void"
  else joinParams (params.map fun p => p.1 ++ lit " " ++ p.2)

namespace FuncDecl

def paramsStr (d : FuncDecl) : Text := paramsText d.params

def prototype (d : FuncDecl) : Text :=
  lit "extern " ++ d.resultType ++ lit " " ++ d.name ++ lit "(" ++ d.paramsStr ++ lit ");"

def gotDeclaration (d : FuncDecl) : Text := lit "    void* " ++ d.name ++ lit ";"

def functionDefinition (d : FuncDecl) : Text :=
  lit "DEFINE_GOT_FUNC(" ++ d.name ++ lit ", " ++ d.resultType ++ lit ", (" ++ d.paramsStr ++
    lit "))"

end FuncDecl

/-- The function that a cursor adds to the sets. -/
def appFunction (c : Cursor) : Option FuncDecl :=
  if !c.inHeader || c.isStatic then none
  else c.func.filter fun d => decide (d.name ≠ lit "main")

/-- The four sorted lists. -/
structure AppLists where
  funcProtos : List Text
  gotDeclarations : List Text
  functionDefinitions : List Text
  funcNames : List Text

/-- None of the texts is empty, so that every function is added to all four sets. -/
def appLists (decls : List FuncDecl) : AppLists :=
  ⟨sortedSet (decls.map FuncDecl.prototype), sortedSet (decls.map FuncDecl.gotDeclaration),
    sortedSet (decls.map FuncDecl.functionDefinition), sortedSet (decls.map FuncDecl.name)⟩

def processAppFiles (cursors : List Cursor) : AppLists := appLists (cursors.filterMap appFunction)

def includeGuard (filename : Text) : Text :=
  ((filename.rtakeWhile (· != '/')).map fun c => if c = '.' then '_' else c.toUpper) ++
    lit "_" ++ lit "EXT_"

def dummyDeclaration : Text :=
  lit "void* dummy; // No GOT entries found, dummy entry to avoid empty struct"

def noAppGotEntries : Text := lit "#define NO_APP_GOT_ENTRIES"

def structOpen : Text := lit "typedef struct \x7b"

def structClose : Text := lit "\x7d app_got_t;"

def setAllOpen : Text := lit "#define SET_ALL_GOT_ENTRIES() \\"

/-- The list is extended in place before either header has its struct. -/
def structMembers (gotDeclarations : List Text) : List Text :=
  lit "// GOT Declarations" ::
    if gotDeclarations = [] then [dummyDeclaration] else gotDeclarations

def cppOpen : List Text := [lit "#ifdef __cplusplus", lit "extern \"C\" \x7b", lit "#endif", lit ""]

def cppClose : List Text := [lit "#ifdef __cplusplus", lit "\x7d", lit "#endif", lit ""]

/-- The macro that the definitions use. -/
def defineGotFunc : List Text :=
  [lit "#define DEFINE_GOT_FUNC(func_name, rettype, args) \\",
    lit "static inline rettype func_name args \x7b \\",
    lit "asm volatile ( \\",
    lit "   \"jmp *%0\" \\",
    lit "   : \\",
    lit "   : \"r\"(app_got->func_name) \\",
    lit "   ); \\",
    lit "   unreachable(); \\",
    lit "\x7d",
    lit ""]

def guardOpen (filename : Text) : List Text :=
  [lit "#ifndef " ++ includeGuard filename, lit "#define " ++ includeGuard filename, lit ""]

def guardClose (filename : Text) : List Text := [lit "#endif // " ++ includeGuard filename]

def kernelDefinitions (functionDefinitions : List Text) : List Text :=
  if functionDefinitions = [] then []
  else [lit "", lit "// Function Definitions"] ++ functionDefinitions

/-- The struct, as both headers have it. -/
def structLines (gotDeclarations : List Text) : List Text :=
  structOpen :: (structMembers gotDeclarations ++ [structClose, lit ""])

/-- The lines of `app.h`. -/
def kernelHeader (filename : Text) (l : AppLists) : List Text :=
  guardOpen filename ++ cppOpen ++ (if l.gotDeclarations = [] then [noAppGotEntries] else []) ++
  structLines l.gotDeclarations ++
  [lit "extern app_got_t* app_got; // this is defined in init.c generated by kcc", lit ""] ++
  defineGotFunc ++ kernelDefinitions l.functionDefinitions ++ cppClose ++ guardClose filename

def setLine (name : Text) : Text := lit "SET_APP_GOT_FUNC(" ++ name ++ lit "); \\"

/-- The fixed lines before the struct of `app_got.h`. -/
def userStart : List Text :=
  [lit "#include \"app_orig.h\"", lit ""] ++ cppOpen ++
    [lit "#define SET_APP_GOT_FUNC(func_name) \\",
      lit "    app_got->func_name = (void *)&func_name;", lit ""]

def userFunctions (l : AppLists) : List Text :=
  if l.funcProtos = [] then
    [lit "#define SET_ALL_GOT_ENTRIES() // No functions found, no GOT entries to set"]
  else
    [lit "", lit "// Function Prototypes"] ++ l.funcProtos ++ [lit "", lit "//Set GOT logic"] ++
      setAllOpen :: (l.funcNames.map setLine ++ [lit "", lit ""])

/-- The lines of `app_got.h`. -/
def userHeader (filename : Text) (l : AppLists) : List Text :=
  guardOpen filename ++ userStart ++ structLines l.gotDeclarations ++ userFunctions l ++
    cppClose ++ guardClose filename

/-- The members of the struct, line by line. -/
def structFields (header : List Text) : List Text :=
  ((header.dropWhile (· ≠ structOpen)).drop 1).takeWhile (· ≠ structClose)

/-- The lines of `SET_ALL_GOT_ENTRIES` after the first. A macro goes on as long as its
lines end in a backslash. -/
def setAllBody (header : List Text) : List Text :=
  ((header.dropWhile (· ≠ setAllOpen)).drop 1).takeWhile fun line => line.getLast? = some '\\'

/-- The line uses the macro for the function. -/
def usesGotFunc (name line : Text) : Bool :=
  decide (lit "DEFINE_GOT_FUNC(" ++ name ++ lit "," <+: line)

/-- A name can follow the type as it is spelled: in C99 it is then made of words and
stars. A function, an array and a pointer to one are spelled around the name. -/
def TakesName (type : Text) : Prop :=
  type ≠ [] ∧ ∀ c ∈ type, isNameChar c ∨ c = ' ' ∨ c = '*'

/-- Parameters that a definition can have: each one is named, behind its type. -/
def NamedParams (params : List (Text × Text)) : Prop :=
  ∀ p ∈ params, TakesName p.1 ∧ p.2 ≠ [] ∧ ∀ c ∈ p.2, isNameChar c

/-- The line defines the function: what the macro makes of it,
`static inline rettype func_name args`, is the head of a definition in C. -/
def DefinesFunc (name line : Text) : Prop :=
  ∃ rettype params, TakesName rettype ∧ NamedParams params ∧
    line = lit "DEFINE_GOT_FUNC(" ++ name ++ lit ", " ++ rettype ++ lit ", (" ++
      paramsText params ++ lit "))"

/-- The headers agree with each other and with the functions declared. -/
structure HeadersAgree (decls : List FuncDecl) (user kernel : List Text) : Prop where
  same_fields : structFields user = structFields kernel
  field_once : ∀ d ∈ decls, (structFields user).count d.gotDeclaration = 1
  set_once : ∀ d ∈ decls, (setAllBody user).count (setLine d.name) = 1
  defined : ∀ d ∈ decls, ∃ line ∈ kernel, DefinesFunc d.name line
  defined_once : ∀ d ∈ decls, kernel.countP (usesGotFunc d.name) = 1
  /-- `app_got.h` is the header that `dpld.c` includes. -/
  no_entries : noAppGotEntries ∈ user ↔ decls = []

/-- Names can follow the types of the declaration, and all parameters have one. -/
structure FuncDecl.Definable (d : FuncDecl) : Prop where
  result : TakesName d.resultType
  params : ∀ p ∈ d.params, TakesName p.1 ∧ p.2 ≠ []

/-- What a declaration says of a function besides its name. -/
def FuncDecl.signature (d : FuncDecl) : Text := d.resultType ++ lit ", (" ++ d.paramsStr

/-- The members' lines start like a comment or a declaration. -/
lemma structMembers_head {decls : List FuncDecl} {line : Text}
    (h : line ∈ structMembers (appLists decls).gotDeclarations) :
    line.head? = some '/' ∨ line.head? = some 'v' ∨ line.head? = some ' ' := by
  rw [structMembers, List.mem_cons] at h
  obtain rfl | h := h
  · exact Or.inl (by decide)
  · by_cases hnil : (appLists decls).gotDeclarations = []
    · rw [if_pos hnil, List.mem_singleton] at h
      subst h
      exact Or.inr (Or.inl (by decide))
    · rw [if_neg hnil] at h
      obtain ⟨d, -, rfl⟩ := List.mem_map.mp (mem_sortedSet.mp h)
      exact Or.inr (Or.inr rfl)

lemma not_mem_structMembers (decls : List FuncDecl) {line : Text} {c : Char}
    (hline : line.head? = some c) (hc : c ≠ '/' ∧ c ≠ 'v' ∧ c ≠ ' ') :
    line ∉ structMembers (appLists decls).gotDeclarations := by
  intro hmem
  obtain h | h | h := structMembers_head hmem
  · exact hc.1 (Option.some.inj (hline.symm.trans h))
  · exact hc.2.1 (Option.some.inj (hline.symm.trans h))
  · exact hc.2.2 (Option.some.inj (hline.symm.trans h))

lemma structFields_eq (decls : List FuncDecl) {pre : List Text} (hpre : structOpen ∉ pre)
    (post : List Text) :
    structFields (pre ++ structLines (appLists decls).gotDeclarations ++ post) =
      structMembers (appLists decls).gotDeclarations := by
  rw [structFields, structLines, List.append_assoc, List.cons_append, drop_dropWhile_ne hpre,
    List.append_assoc]
  apply takeWhile_stop
  · intro line hline
    rw [decide_eq_true_eq]
    rintro rfl
    exact not_mem_structMembers decls rfl (by decide) hline
  · decide

/-- Lines that all start differently. -/
lemma not_mem_of_heads {line : Text} {c : Char} (hline : line.head? = some c) {lines : List Text}
    (h : lines.all (fun l => l.head? != some c) = true) : line ∉ lines := by
  intro hmem
  have := List.all_eq_true.mp h line hmem
  rw [hline] at this
  simp at this

section Headers

variable (filename : Text) (decls : List FuncDecl)

lemma structFields_userHeader :
    structFields (userHeader filename (appLists decls)) =
      structMembers (appLists decls).gotDeclarations := by
  rw [userHeader, List.append_assoc, List.append_assoc]
  exact structFields_eq decls (not_mem_of_heads (c := 't') rfl rfl) _

lemma structFields_kernelHeader :
    structFields (kernelHeader filename (appLists decls)) =
      structMembers (appLists decls).gotDeclarations := by
  rw [kernelHeader, List.append_assoc, List.append_assoc, List.append_assoc, List.append_assoc]
  apply structFields_eq
  split
  · exact not_mem_of_heads (c := 't') rfl rfl
  · exact not_mem_of_heads (c := 't') rfl rfl

/-- A line that ends differently is no line of the include guard. -/
lemma ne_includeGuard {line : Text} (h : line.getLast? ≠ some '_') (word : Text) :
    line ≠ word ++ includeGuard filename := by
  rintro rfl
  apply h
  rw [includeGuard, ← List.append_assoc, ← List.append_assoc,
    List.getLast?_append_of_ne_nil _ (by decide)]
  decide

lemma sortedSet_map_head {f : FuncDecl → Text} {c : Char} (hf : ∀ d, (f d).head? = some c)
    {line : Text} (hline : line.head? ≠ some c) : line ∉ sortedSet (decls.map f) := by
  intro hmem
  obtain ⟨d, -, rfl⟩ := List.mem_map.mp (mem_sortedSet.mp hmem)
  exact hline (hf d)

lemma not_mem_guardOpen {line : Text} (hlast : line.getLast? ≠ some '_') (hne : line ≠ lit "") :
    line ∉ guardOpen filename := by
  simp only [guardOpen, List.mem_cons, List.not_mem_nil, or_false, not_or]
  exact ⟨ne_includeGuard filename hlast _, ne_includeGuard filename hlast _, hne⟩

/-- What precedes the functions in `app_got.h`. -/
lemma not_mem_userFront (line : Text) (hlast : line.getLast? ≠ some '_')
    (hhead : line.head? = some '#') (hstart : line ∉ userStart) :
    line ∉ guardOpen filename ++ userStart ++ structLines (appLists decls).gotDeclarations := by
  simp only [structLines, List.mem_append, List.mem_cons, List.not_mem_nil, or_false, not_or]
  exact ⟨⟨not_mem_guardOpen filename hlast (ne_of_head? hhead (by decide)), hstart⟩,
    ne_of_head? hhead (by decide), not_mem_structMembers decls hhead (by decide),
    ne_of_head? hhead (by decide), ne_of_head? hhead (by decide)⟩

/-- The lines up to the macro. -/
lemma not_mem_prototypes (line : Text) (hhead : line.head? = some '#') :
    line ∉ [lit "", lit "// Function Prototypes"] ++ (appLists decls).funcProtos ++
      [lit "", lit "//Set GOT logic"] := by
  have hprotos : line ∉ (appLists decls).funcProtos :=
    sortedSet_map_head decls (c := 'e') (fun _ => rfl) (by rw [hhead]; decide)
  simp only [List.mem_append, List.mem_cons, List.not_mem_nil, or_false, not_or]
  exact ⟨⟨⟨ne_of_head? hhead (by decide), ne_of_head? hhead (by decide)⟩, hprotos⟩,
    ne_of_head? hhead (by decide), ne_of_head? hhead (by decide)⟩

lemma setLine_head? (name : Text) : (setLine name).head? = some 'S' := rfl

/-- `NO_APP_GOT_ENTRIES` is never defined in `app_got.h`. -/
lemma noAppGotEntries_not_mem_userHeader :
    noAppGotEntries ∉ userHeader filename (appLists decls) := by
  have hfront := not_mem_userFront filename decls noAppGotEntries (by decide) rfl (by decide)
  have hfunctions : noAppGotEntries ∉ userFunctions (appLists decls) := by
    rw [userFunctions]
    split
    · decide
    · have hprotos := not_mem_prototypes decls noAppGotEntries rfl
      have hmacro : noAppGotEntries ≠ setAllOpen := by decide
      have hblanks : noAppGotEntries ∉ [lit "", lit ""] := by decide
      have hsets : noAppGotEntries ∉ (appLists decls).funcNames.map setLine := by
        intro hmem
        obtain ⟨name, -, hname⟩ := List.mem_map.mp hmem
        have hhead := setLine_head? name
        rw [hname] at hhead
        exact absurd hhead (by decide)
      exact List.not_mem_append hprotos
        (List.not_mem_cons_of_ne_of_not_mem hmacro (List.not_mem_append hsets hblanks))
  have hcpp : noAppGotEntries ∉ cppClose := by decide
  have hclose : noAppGotEntries ∉ guardClose filename := by
    rw [guardClose, List.mem_singleton]
    exact ne_includeGuard filename (by decide) _
  exact List.not_mem_append (List.not_mem_append (List.not_mem_append hfront hfunctions) hcpp)
    hclose

/-- The body of the macro has a line for each function. -/
lemma setAllBody_userHeader (h : decls ≠ []) :
    setAllBody (userHeader filename (appLists decls)) =
      (appLists decls).funcNames.map setLine := by
  have hprotos : (appLists decls).funcProtos ≠ [] := by
    obtain ⟨d, hd⟩ := List.exists_mem_of_ne_nil decls h
    exact List.ne_nil_of_mem (mem_sortedSet.mpr (List.mem_map_of_mem hd))
  have hshape : userHeader filename (appLists decls) =
      (guardOpen filename ++ userStart ++ structLines (appLists decls).gotDeclarations ++
        ([lit "", lit "// Function Prototypes"] ++ (appLists decls).funcProtos ++
          [lit "", lit "//Set GOT logic"])) ++
      setAllOpen :: ((appLists decls).funcNames.map setLine ++
        lit "" :: (lit "" :: cppClose ++ guardClose filename)) := by
    rw [userHeader, userFunctions, if_neg hprotos]
    simp only [List.append_assoc, List.cons_append, List.nil_append]
  have hfront : setAllOpen ∉ guardOpen filename ++ userStart ++
      structLines (appLists decls).gotDeclarations ++
      ([lit "", lit "// Function Prototypes"] ++ (appLists decls).funcProtos ++
        [lit "", lit "//Set GOT logic"]) :=
    List.not_mem_append (not_mem_userFront filename decls setAllOpen (by decide) rfl (by decide))
      (not_mem_prototypes decls setAllOpen rfl)
  rw [hshape, setAllBody, drop_dropWhile_ne hfront]
  apply takeWhile_stop
  · intro line hline
    obtain ⟨name, -, rfl⟩ := List.mem_map.mp hline
    rw [setLine, List.getLast?_append_of_ne_nil _ (by decide)]
    decide
  · decide

/-- Texts without commas end at the first one. -/
lemma append_comma_inj {a b s t : Text} (ha : ',' ∉ a) (hb : ',' ∉ b)
    (h : a ++ ',' :: s = b ++ ',' :: t) : a = b ∧ s = t := by
  have hne {x : Text} (hx : ',' ∉ x) : ∀ c ∈ x, (c != ',') = true := by
    intro c hc
    rw [bne_iff_ne]
    rintro rfl
    exact hx hc
  have htake := congrArg (List.takeWhile (· != ',')) h
  rw [takeWhile_stop (hne ha) (by decide), takeWhile_stop (hne hb) (by decide)] at htake
  subst htake
  exact ⟨rfl, (List.cons.inj (List.append_cancel_left h)).2⟩

/-- A name ends at the first comma. -/
lemma append_comma_prefix_iff {a b : Text} (ha : ',' ∉ a) (hb : ',' ∉ b) (rest : Text) :
    a ++ [','] <+: b ++ ',' :: rest ↔ a = b := by
  constructor
  · rintro ⟨t, ht⟩
    rw [List.append_assoc, List.singleton_append] at ht
    exact (append_comma_inj ha hb ht).1
  · rintro rfl
    rw [List.prefix_append_right_inj]
    exact ⟨rest, rfl⟩

lemma FuncDecl.comma_not_mem_name (d : FuncDecl) : ',' ∉ d.name :=
  fun h => absurd (d.name_chars ',' h) (by decide)

lemma usesGotFunc_iff (d d' : FuncDecl) :
    usesGotFunc d.name d'.functionDefinition ↔ d.name = d'.name := by
  have hshape : d'.functionDefinition = lit "DEFINE_GOT_FUNC(" ++
      (d'.name ++ ',' :: (lit " " ++ d'.resultType ++ lit ", (" ++ d'.paramsStr ++ lit "))")) := by
    simp [FuncDecl.functionDefinition, lit]
  rw [usesGotFunc, decide_eq_true_eq, hshape, List.append_assoc, List.prefix_append_right_inj]
  exact append_comma_prefix_iff d.comma_not_mem_name d'.comma_not_mem_name _

lemma countP_of_heads (name : Text) {lines : List Text}
    (h : lines.all (fun l => l.head? != some 'D') = true) :
    lines.countP (usesGotFunc name) = 0 := by
  rw [List.countP_eq_zero]
  intro line hline hdef
  have hhead := List.all_eq_true.mp h line hline
  rw [usesGotFunc, decide_eq_true_eq] at hdef
  obtain ⟨t, rfl⟩ := hdef
  exact absurd hhead (by simp [lit])

lemma countP_structLines (name : Text) :
    (structLines (appLists decls).gotDeclarations).countP (usesGotFunc name) = 0 := by
  apply countP_of_heads
  rw [structLines, List.all_cons, List.all_append, Bool.and_eq_true, Bool.and_eq_true]
  refine ⟨by decide, ?_, by decide⟩
  rw [List.all_eq_true]
  intro line hline
  obtain h | h | h := structMembers_head hline
  · rw [h]
    decide
  · rw [h]
    decide
  · rw [h]
    decide

/-- No other line of `app.h` uses the macro. -/
lemma countP_kernelHeader (name : Text) :
    (kernelHeader filename (appLists decls)).countP (usesGotFunc name) =
      (appLists decls).functionDefinitions.countP (usesGotFunc name) := by
  have hopen : (guardOpen filename).countP (usesGotFunc name) = 0 := countP_of_heads name rfl
  have hclose : (guardClose filename).countP (usesGotFunc name) = 0 := countP_of_heads name rfl
  have hcpp : cppOpen.countP (usesGotFunc name) = 0 := countP_of_heads name rfl
  have hcpp' : cppClose.countP (usesGotFunc name) = 0 := countP_of_heads name rfl
  have hmacro : defineGotFunc.countP (usesGotFunc name) = 0 := countP_of_heads name rfl
  have hextern : [lit "extern app_got_t* app_got; // this is defined in init.c generated by kcc",
      lit ""].countP (usesGotFunc name) = 0 := countP_of_heads name rfl
  have hnone : (if (appLists decls).gotDeclarations = [] then [noAppGotEntries]
      else []).countP (usesGotFunc name) = 0 := by
    split
    · exact countP_of_heads name rfl
    · rfl
  have hdefs : (kernelDefinitions (appLists decls).functionDefinitions).countP
      (usesGotFunc name) = (appLists decls).functionDefinitions.countP (usesGotFunc name) := by
    have htitle : [lit "", lit "// Function Definitions"].countP (usesGotFunc name) = 0 :=
      countP_of_heads name rfl
    rw [kernelDefinitions]
    split
    next hnil => rw [hnil]
    next => rw [List.countP_append, htitle, Nat.zero_add]
  simp only [kernelHeader, List.countP_append, hopen, hcpp, hnone, countP_structLines, hextern,
    hmacro, hdefs, hcpp', hclose, Nat.zero_add, Nat.add_zero]

variable {decls}

/-- The macro is used once for a function when its declarations do not differ. -/
lemma defined_once_iff {d : FuncDecl} (hd : d ∈ decls) :
    (kernelHeader filename (appLists decls)).countP (usesGotFunc d.name) = 1 ↔
      ∀ d' ∈ decls, d.name = d'.name → d.signature = d'.signature := by
  have hmem : d.functionDefinition ∈ (appLists decls).functionDefinitions :=
    mem_sortedSet.mpr (List.mem_map_of_mem hd)
  have hnodup : (appLists decls).functionDefinitions.Nodup := nodup_sortedSet _
  have hdef (e : FuncDecl) : e.functionDefinition =
      lit "DEFINE_GOT_FUNC(" ++ (e.name ++ (lit ", " ++ (e.signature ++ lit "))"))) := by
    simp [FuncDecl.functionDefinition, FuncDecl.signature]
  rw [countP_kernelHeader, countP_eq_one_iff hnodup hmem ((usesGotFunc_iff d d).mpr rfl)]
  constructor
  · intro h d' hd' hname
    have hsame := h d'.functionDefinition (mem_sortedSet.mpr (List.mem_map_of_mem hd'))
      ((usesGotFunc_iff d d').mpr hname)
    rw [hdef, hdef, hname] at hsame
    simpa using hsame.symm
  · intro h t ht huses
    obtain ⟨d', hd', rfl⟩ := List.mem_map.mp (mem_sortedSet.mp ht)
    have hname := (usesGotFunc_iff d d').mp huses
    rw [hdef, hdef, hname, h d' hd' hname]

lemma functionDefinition_mem_kernelHeader {d : FuncDecl} (hd : d ∈ decls) :
    d.functionDefinition ∈ kernelHeader filename (appLists decls) := by
  have hmem : d.functionDefinition ∈ (appLists decls).functionDefinitions :=
    mem_sortedSet.mpr (List.mem_map_of_mem hd)
  simp only [kernelHeader, kernelDefinitions, if_neg (List.ne_nil_of_mem hmem), List.mem_append]
  tauto

lemma setLine_injective : Function.Injective setLine := by
  intro a b h
  simpa [setLine] using h

lemma field_once {d : FuncDecl} (hd : d ∈ decls) :
    (structMembers (appLists decls).gotDeclarations).count d.gotDeclaration = 1 := by
  have hmem : d.gotDeclaration ∈ (appLists decls).gotDeclarations :=
    mem_sortedSet.mpr (List.mem_map_of_mem hd)
  have hne : lit "// GOT Declarations" ≠ d.gotDeclaration :=
    ne_of_head? (c := '/') rfl (show some ' ' ≠ some '/' by decide)
  rw [structMembers, if_neg (List.ne_nil_of_mem hmem), List.count_cons_of_ne hne]
  exact List.count_eq_one_of_mem (nodup_sortedSet _) hmem

lemma set_once {d : FuncDecl} (hd : d ∈ decls) :
    (setAllBody (userHeader filename (appLists decls))).count (setLine d.name) = 1 := by
  have hnodup : ((appLists decls).funcNames.map setLine).Nodup :=
    (nodup_sortedSet _).map setLine_injective
  have hmem : d.name ∈ (appLists decls).funcNames :=
    mem_sortedSet.mpr (List.mem_map_of_mem hd)
  rw [setAllBody_userHeader filename decls (List.ne_nil_of_mem hd)]
  exact List.count_eq_one_of_mem hnodup (List.mem_map_of_mem hmem)

/-- The one line that uses the macro for a function. -/
lemma line_of_defined_once {d : FuncDecl} (hd : d ∈ decls)
    (honce : (kernelHeader filename (appLists decls)).countP (usesGotFunc d.name) = 1)
    {line : Text} (hline : line ∈ kernelHeader filename (appLists decls))
    (huses : usesGotFunc d.name line) : line = d.functionDefinition := by
  have hmem := functionDefinition_mem_kernelHeader filename hd
  rw [List.countP_eq_length_filter, List.length_eq_one_iff] at honce
  obtain ⟨only, honly⟩ := honce
  have hleft : line ∈ [only] := honly ▸ List.mem_filter.mpr ⟨hline, huses⟩
  have hright : d.functionDefinition ∈ [only] :=
    honly ▸ List.mem_filter.mpr ⟨hmem, (usesGotFunc_iff d d).mpr rfl⟩
  rw [List.mem_singleton.mp hleft, List.mem_singleton.mp hright]

end Headers

lemma TakesName.not_mem {type : Text} (h : TakesName type) {c : Char}
    (hc : ¬ (isNameChar c ∨ c = ' ' ∨ c = '*')) : c ∉ type :=
  fun hmem => hc (h.2 c hmem)

/-- A text falls apart in one way at the last of its marks. -/
lemma append_cons_inj_right {α : Type} [DecidableEq α] {a a' b b' : List α} {c : α} (hb : c ∉ b)
    (hb' : c ∉ b') (h : a ++ c :: b = a' ++ c :: b') : a = a' ∧ b = b' := by
  have hall {s : List α} (hs : c ∉ s) : ∀ x ∈ s.reverse, decide (x ≠ c) = true := by
    intro x hx
    rw [decide_eq_true_eq]
    rintro rfl
    exact hs (List.mem_reverse.mp hx)
  have hrev := congrArg (List.takeWhile fun x => decide (x ≠ c)) (congrArg List.reverse h)
  simp only [List.reverse_append, List.reverse_cons, List.append_assoc, List.singleton_append]
    at hrev
  rw [takeWhile_stop (hall hb) (by simp), takeWhile_stop (hall hb') (by simp),
    List.reverse_inj] at hrev
  subst hrev
  exact ⟨List.append_cancel_right h, rfl⟩

/-- Parameters without commas can be told from the text they are joined to. -/
lemma joinParams_inj {ps qs : List Text} (hps : ∀ p ∈ ps, ',' ∉ p) (hqs : ∀ q ∈ qs, ',' ∉ q)
    (hps' : ps ≠ []) (hqs' : qs ≠ []) (h : joinParams ps = joinParams qs) : ps = qs := by
  have hcomma (p : Text) (t : Text) : p ++ lit ", " ++ t = p ++ ',' :: (' ' :: t) := by simp [lit]
  induction ps generalizing qs with
  | nil => exact absurd rfl hps'
  | cons p ps ih =>
    cases qs with
    | nil => exact absurd rfl hqs'
    | cons q qs =>
      have hp := hps p List.mem_cons_self
      have hq := hqs q List.mem_cons_self
      cases ps with
      | nil =>
        cases qs with
        | nil => exact congrArg (fun t => [t]) h
        | cons r qs =>
          rw [joinParams, joinParams, hcomma] at h
          exact absurd (by simp [h]) hp
      | cons r ps =>
        cases qs with
        | nil =>
          rw [joinParams, joinParams, hcomma] at h
          exact absurd (by simp [← h]) hq
        | cons t qs =>
          rw [joinParams, joinParams, hcomma, hcomma] at h
          obtain ⟨rfl, htail⟩ := append_comma_inj hp hq h
          have hrest := ih (fun x hx => hps x (List.mem_cons_of_mem p hx))
            (fun x hx => hqs x (List.mem_cons_of_mem p hx)) (List.cons_ne_nil r ps)
            (List.cons_ne_nil t qs) (List.cons.inj htail).2
          rw [hrest]

/-- A type and a name, as they are written. -/
def paramText (p : Text × Text) : Text := p.1 ++ lit " " ++ p.2

lemma paramText_inj {p q : Text × Text} (hp : ∀ c ∈ p.2, isNameChar c)
    (hq : ∀ c ∈ q.2, isNameChar c) (h : paramText p = paramText q) : p = q := by
  have hspace {n : Text} (hn : ∀ c ∈ n, isNameChar c) : ' ' ∉ n :=
    fun hmem => absurd (hn ' ' hmem) (by decide)
  have hcons (x : Text × Text) : paramText x = x.1 ++ ' ' :: x.2 := by simp [paramText, lit]
  rw [hcons, hcons] at h
  obtain ⟨htype, hname⟩ := append_cons_inj_right (hspace hp) (hspace hq) h
  exact Prod.ext htype hname

lemma map_paramText_inj {ps qs : List (Text × Text)} (hps : ∀ p ∈ ps, ∀ c ∈ p.2, isNameChar c)
    (hqs : ∀ q ∈ qs, ∀ c ∈ q.2, isNameChar c) (h : ps.map paramText = qs.map paramText) :
    ps = qs := by
  induction ps generalizing qs with
  | nil => exact (List.map_eq_nil_iff.mp h.symm).symm
  | cons p ps ih =>
    obtain ⟨q, rest, rfl, hq, hrest⟩ := List.map_eq_cons_iff.mp h.symm
    have hhead := paramText_inj (hps p List.mem_cons_self) (hqs q List.mem_cons_self) hq.symm
    have htail := ih (fun x hx => hps x (List.mem_cons_of_mem p hx))
      (fun x hx => hqs x (List.mem_cons_of_mem q hx)) hrest.symm
    rw [hhead, htail]

lemma mem_joinParams {ps : List Text} {p : Text} (hp : p ∈ ps) {c : Char} (hc : c ∈ p) :
    c ∈ joinParams ps := by
  induction ps with
  | nil => exact absurd hp List.not_mem_nil
  | cons q ps ih =>
    cases ps with
    | nil =>
      rw [List.mem_singleton] at hp
      rwa [joinParams, ← hp]
    | cons r ps =>
      rw [joinParams, List.append_assoc, List.mem_append, List.mem_append]
      rcases List.mem_cons.mp hp with rfl | hp
      · exact .inl hc
      · exact .inr (.inr (ih hp))

lemma not_mem_joinParams {ps : List Text} {c : Char} (hps : ∀ p ∈ ps, c ∉ p)
    (hc : c ∉ lit ", ") : c ∉ joinParams ps := by
  induction ps with
  | nil => exact List.not_mem_nil
  | cons q ps ih =>
    cases ps with
    | nil => exact hps q List.mem_cons_self
    | cons r ps =>
      have hrest := ih fun p hp => hps p (List.mem_cons_of_mem q hp)
      exact List.not_mem_append (List.not_mem_append (hps q List.mem_cons_self) hc) hrest

/-- A list of parameters has a blank in it, which `void` has not. -/
lemma joinParams_ne_void {params : List (Text × Text)} (h : params ≠ []) :
    joinParams (params.map paramText) ≠ lit "void" := by
  intro heq
  obtain ⟨p, hp⟩ := List.exists_mem_of_ne_nil params h
  have hblank : ' ' ∈ paramText p := by simp [paramText, lit]
  have hmem := mem_joinParams (List.mem_map_of_mem hp) hblank
  rw [heq] at hmem
  exact absurd hmem (by decide)

lemma NamedParams.not_mem {params : List (Text × Text)} (h : NamedParams params) {c : Char}
    (hc : ¬ (isNameChar c ∨ c = ' ' ∨ c = '*')) : ∀ p ∈ params, c ∉ paramText p := by
  intro p hp hmem
  obtain ⟨htype, -, hname⟩ := h p hp
  rw [paramText, List.append_assoc, List.mem_append, List.mem_append] at hmem
  rcases hmem with hmem | hmem | hmem
  · exact htype.not_mem hc hmem
  · rw [lit] at hmem
    exact hc (.inr (.inl (by simpa using hmem)))
  · exact hc (.inl (hname c hmem))

/-- Parameters of a definition are read back from their text, among all that a parser can
report. -/
lemma paramsText_inj {d : FuncDecl} {params : List (Text × Text)} (hparams : NamedParams params)
    (h : d.paramsStr = paramsText params) : d.params = params := by
  have hchars : ∀ p ∈ params, ∀ c ∈ p.2, isNameChar c := fun p hp => (hparams p hp).2.2
  have hparen := hparams.not_mem (c := '(') (by decide)
  have hcomma := hparams.not_mem (c := ',') (by decide)
  have hmap (l : List (Text × Text)) : (l.map fun p => p.1 ++ lit " " ++ p.2) = l.map paramText :=
    rfl
  rw [FuncDecl.paramsStr, paramsText, paramsText, hmap, hmap] at h
  by_cases hd : d.params = []
  · rw [if_pos hd] at h
    by_cases hp : params = []
    · rw [hd, hp]
    · rw [if_neg hp] at h
      exact absurd h.symm (joinParams_ne_void hp)
  · rw [if_neg hd] at h
    by_cases hp : params = []
    · rw [if_pos hp] at h
      exact absurd h (joinParams_ne_void hd)
    · rw [if_neg hp] at h
      have hnone : '(' ∉ joinParams (d.params.map paramText) := by
        rw [h]
        exact not_mem_joinParams (List.forall_mem_map.mpr hparen) (by decide)
      -- without a bracket no type of a function, and no comma
      have hdcomma : ∀ p ∈ d.params, ',' ∉ paramText p := by
        intro p hp' hmem
        have hopen : '(' ∉ paramText p := fun hc =>
          hnone (mem_joinParams (List.mem_map_of_mem hp') hc)
        rw [paramText, List.append_assoc, List.mem_append, List.mem_append] at hmem
        rcases hmem with hmem | hmem | hmem
        · refine hopen ?_
          rw [paramText, List.append_assoc, List.mem_append]
          exact .inl (d.param_type_comma p hp' hmem)
        · exact absurd hmem (by decide)
        · exact absurd (d.param_name_chars p hp' ',' hmem) (by decide)
      have htexts := joinParams_inj (List.forall_mem_map.mpr hdcomma)
        (List.forall_mem_map.mpr hcomma) (by simpa using hd) (by simpa using hp) h
      exact map_paramText_inj d.param_name_chars hchars htexts

/-- What stands between the name and the end of a definition's line. -/
lemma signature_inj {d : FuncDecl} {rettype : Text} {params : List (Text × Text)}
    (hret : TakesName rettype) (hparams : NamedParams params)
    (h : d.resultType ++ lit ", (" ++ d.paramsStr = rettype ++ lit ", (" ++ paramsText params) :
    d.resultType = rettype ∧ d.paramsStr = paramsText params := by
  have hopen (a b : Text) : a ++ lit ", (" ++ b = (a ++ lit ", ") ++ '(' :: b := by simp [lit]
  have hfront : '(' ∉ rettype ++ lit ", " :=
    List.not_mem_append (hret.not_mem (by decide)) (by decide)
  have hback : '(' ∉ paramsText params := by
    rw [paramsText]
    split
    · decide
    · exact not_mem_joinParams (List.forall_mem_map.mpr (hparams.not_mem (by decide))) (by decide)
  rw [hopen, hopen] at h
  obtain ⟨hfirst, -, hsecond⟩ := (List.append_cons_inj_of_notMem hfront hback).mp h.symm
  exact ⟨List.append_cancel_right hfirst.symm, hsecond.symm⟩

/-- The line of a declaration is a definition exactly when names can follow its types. -/
lemma definesFunc_iff (d : FuncDecl) :
    DefinesFunc d.name d.functionDefinition ↔ d.Definable := by
  have hline (r p : Text) : lit "DEFINE_GOT_FUNC(" ++ d.name ++ lit ", " ++ r ++ lit ", (" ++ p ++
      lit "))" = lit "DEFINE_GOT_FUNC(" ++ d.name ++ lit ", " ++ (r ++ lit ", (" ++ p) ++
      lit "))" := by
    simp only [List.append_assoc]
  constructor
  · rintro ⟨rettype, params, hret, hparams, h⟩
    rw [FuncDecl.functionDefinition, hline, hline] at h
    obtain ⟨hsame, htext⟩ :=
      signature_inj hret hparams (List.append_cancel_left (List.append_cancel_right h))
    have hlist := paramsText_inj hparams htext
    constructor
    · rw [hsame]
      exact hret
    · intro p hp
      rw [hlist] at hp
      exact ⟨(hparams p hp).1, (hparams p hp).2.1⟩
  · intro h
    refine ⟨d.resultType, d.params, h.result, ?_, rfl⟩
    intro p hp
    exact ⟨(h.params p hp).1, (h.params p hp).2, d.param_name_chars p hp⟩

lemma DefinesFunc.usesGotFunc {name line : Text} (h : DefinesFunc name line) :
    usesGotFunc name line := by
  obtain ⟨rettype, params, -, -, rfl⟩ := h
  rw [Gen.usesGotFunc, decide_eq_true_eq]
  exact ⟨lit " " ++ rettype ++ lit ", (" ++ paramsText params ++ lit "))", by simp [lit]⟩

/-- A function that has one line is defined by it. -/
lemma defined_iff {filename : Text} {decls : List FuncDecl} {d : FuncDecl} (hd : d ∈ decls)
    (honce : (kernelHeader filename (appLists decls)).countP (usesGotFunc d.name) = 1) :
    (∃ line ∈ kernelHeader filename (appLists decls), DefinesFunc d.name line) ↔ d.Definable := by
  rw [← definesFunc_iff]
  constructor
  · rintro ⟨line, hline, hdefines⟩
    rwa [← line_of_defined_once filename hd honce hline hdefines.usesGotFunc]
  · intro hdefines
    exact ⟨d.functionDefinition, functionDefinition_mem_kernelHeader filename hd, hdefines⟩

/-- `int add(int a, int b)` and `int add(int x, int y)`. -/
def addDecl (a b : Text) (ha : a.all isNameChar) (hb : b.all isNameChar) : FuncDecl where
  name := lit "add"
  resultType := lit "int"
  params := [(lit "int", a), (lit "int", b)]
  name_ne_nil := by decide
  name_chars := List.all_eq_true.mp (by decide)
  param_name_chars := by
    simpa using ⟨List.all_eq_true.mp ha, List.all_eq_true.mp hb⟩
  param_type_comma := by simp [lit]

def addTwice : List Cursor :=
  [⟨true, false, some (addDecl (lit "a") (lit "b") (by decide) (by decide))⟩,
    ⟨true, false, some (addDecl (lit "x") (lit "y") (by decide) (by decide))⟩]

/-- `void on(void (*cb)(int))`. -/
def callbackDecl : FuncDecl where
  name := lit "on"
  resultType := lit "void"
  params := [(lit "void (*)(int)", lit "cb")]
  name_ne_nil := by decide
  name_chars := List.all_eq_true.mp (by decide)
  param_name_chars := by
    simpa using List.all_eq_true.mp (by decide : (lit "cb").all isNameChar = true)
  param_type_comma := by simp [lit]

end SymbiOS.Gen
