import SymbiOS.Elevation
import SymbiOS.GuardedRun
import SymbiOS.KeyedTable
import SymbiOS.LoadModules

/-!
# Calls back into the application

The extension calls the application through one pointer, `app_got`, to a table of addresses.
Every program that starts fills a table of its own and sets the pointer, and the module that
holds it is shared by all of them. The stubs were compiled with `app.h` of the program whose
module was loaded; the table was laid out by `app_got.h` of the program that filled it.
-/
namespace SymbiOS.Dpld
open SymbiOS.PyText SymbiOS.Gen SymbiOS.KeyedTable SymbiOS.GuardedRun

/-- The member that a line of the struct declares. A comment declares none. -/
def member (line : Text) : Option Text :=
  if lit "//" <+: line then none
  else some (((line.dropWhile (· ≠ '*')).drop 2).takeWhile isNameChar)

/-- The members of `app_got_t` in the order of their offsets. -/
def members (header : List Text) : List Text := (structFields header).filterMap member

def setName (line : Text) : Text :=
  (line.drop (lit "SET_APP_GOT_FUNC(").length).rdrop (lit "); \\").length

/-- The functions that `SET_ALL_GOT_ENTRIES` assigns. -/
def setNames (header : List Text) : List Text := (setAllBody header).map setName

/-- The functions that the application's header declares, in the order of the table. -/
def functions (cursors : List Cursor) : List Text :=
  (processAppFiles cursors).gotDeclarations.filterMap member

lemma setName_setLine (name : Text) : setName (setLine name) = name := by
  have hdrop : (setLine name).drop (lit "SET_APP_GOT_FUNC(").length = name ++ lit "); \\" := by
    rw [setLine, List.append_assoc]
    exact List.drop_left
  rw [setName, hdrop]
  exact List.rdrop_append_length

lemma member_gotDeclaration (d : FuncDecl) : member d.gotDeclaration = some d.name := by
  have hline : d.gotDeclaration = lit "    void" ++ ('*' :: ' ' :: (d.name ++ [';'])) := by
    simp [FuncDecl.gotDeclaration, lit]
  have hcomment : ¬ lit "//" <+: d.gotDeclaration := by
    rintro ⟨t, ht⟩
    have hhead := congrArg List.head? ht
    rw [hline] at hhead
    exact absurd hhead (by simp [lit])
  have hvoid : ∀ c ∈ lit "    void", decide (c ≠ '*') = true := by simp [lit]
  rw [member, if_neg hcomment, hline, List.dropWhile_append_of_pos hvoid,
    List.dropWhile_cons_of_neg (by simp)]
  exact congrArg some (takeWhile_stop d.name_chars (by decide) [])

lemma gotDeclaration_congr {d d' : FuncDecl} (h : d.name = d'.name) :
    d.gotDeclaration = d'.gotDeclaration := by
  rw [FuncDecl.gotDeclaration, h, FuncDecl.gotDeclaration]

lemma mem_functions {cursors : List Cursor} {f : Text} :
    f ∈ functions cursors ↔ ∃ d ∈ cursors.filterMap appFunction, d.name = f := by
  rw [functions, processAppFiles, List.mem_filterMap]
  constructor
  · rintro ⟨line, hline, hf⟩
    obtain ⟨d, hd, rfl⟩ := List.mem_map.mp (mem_sortedSet.mp hline)
    rw [member_gotDeclaration] at hf
    exact ⟨d, hd, Option.some.inj hf⟩
  · rintro ⟨d, hd, rfl⟩
    exact ⟨d.gotDeclaration, mem_sortedSet.mpr (List.mem_map_of_mem hd), member_gotDeclaration d⟩

lemma nodup_functions (cursors : List Cursor) : (functions cursors).Nodup := by
  rw [functions, processAppFiles, List.Nodup, List.pairwise_filterMap]
  refine (nodup_sortedSet _).imp_of_mem ?_
  rintro line line' hline hline' hne f hf f' hf' rfl
  obtain ⟨d, -, rfl⟩ := List.mem_map.mp (mem_sortedSet.mp hline)
  obtain ⟨d', -, rfl⟩ := List.mem_map.mp (mem_sortedSet.mp hline')
  rw [member_gotDeclaration, Option.some.injEq] at hf hf'
  exact hne (gotDeclaration_congr (hf.trans hf'.symm))

/-- The members of the struct that both headers have. -/
lemma filterMap_structMembers (cursors : List Cursor) :
    (structMembers (processAppFiles cursors).gotDeclarations).filterMap member =
      if functions cursors = [] then [lit "dummy"] else functions cursors := by
  have hcomment : member (lit "// GOT Declarations") = none := by decide
  rw [structMembers, List.filterMap_cons_none hcomment]
  by_cases hnil : (processAppFiles cursors).gotDeclarations = []
  · have hfunctions : functions cursors = [] := by rw [functions, hnil, List.filterMap_nil]
    rw [if_pos hnil, if_pos hfunctions]
    decide
  · have hfunctions : functions cursors ≠ [] := by
      obtain ⟨line, hline⟩ := List.exists_mem_of_ne_nil _ hnil
      obtain ⟨d, hd, -⟩ := List.mem_map.mp (mem_sortedSet.mp hline)
      exact List.ne_nil_of_mem (mem_functions.mpr ⟨d, hd, rfl⟩)
    rw [if_neg hnil, if_neg hfunctions, functions]

lemma members_userHeader (filename : Text) (cursors : List Cursor) :
    members (userHeader filename (processAppFiles cursors)) =
      if functions cursors = [] then [lit "dummy"] else functions cursors := by
  rw [members, processAppFiles, structFields_userHeader, ← processAppFiles,
    filterMap_structMembers]

lemma members_kernelHeader (filename : Text) (cursors : List Cursor) :
    members (kernelHeader filename (processAppFiles cursors)) =
      if functions cursors = [] then [lit "dummy"] else functions cursors := by
  rw [members, processAppFiles, structFields_kernelHeader, ← processAppFiles,
    filterMap_structMembers]

/-- Without a function there is no macro that goes on over several lines. -/
lemma setAllBody_nil (filename : Text) : setAllBody (userHeader filename (appLists [])) = [] := by
  have hfront := not_mem_userFront filename [] setAllOpen (by decide) rfl (by decide)
  have hfunctions : setAllOpen ∉ userFunctions (appLists []) := by
    have hline : userFunctions (appLists []) =
        [lit "#define SET_ALL_GOT_ENTRIES() // No functions found, no GOT entries to set"] :=
      if_pos (List.mergeSort_nil)
    rw [hline]
    decide
  have hcpp : setAllOpen ∉ cppClose := by decide
  have hclose : setAllOpen ∉ guardClose filename := by
    rw [guardClose, List.mem_singleton]
    exact ne_includeGuard filename (by decide) _
  have hnone : setAllOpen ∉ userHeader filename (appLists []) :=
    List.not_mem_append (List.not_mem_append (List.not_mem_append hfront hfunctions) hcpp) hclose
  rw [setAllBody, List.dropWhile_eq_nil_iff.mpr]
  · rfl
  · intro line hline
    rw [decide_eq_true_eq]
    rintro rfl
    exact hnone hline

/-- The macro assigns every function of the header and nothing else. -/
lemma mem_setNames {filename : Text} {cursors : List Cursor} {f : Text} :
    f ∈ setNames (userHeader filename (processAppFiles cursors)) ↔ f ∈ functions cursors := by
  rw [mem_functions, setNames, processAppFiles]
  by_cases hnil : cursors.filterMap appFunction = []
  · rw [hnil, setAllBody_nil]
    simp
  · have hnames (names : List Text) : (names.map setLine).map setName = names := by
      rw [List.map_map]
      exact List.map_id'' setName_setLine names
    rw [setAllBody_userHeader filename _ hnil, hnames]
    exact mem_sortedSet.trans List.mem_map

/-- A program as it was linked: the name of its extension, the application's header, the
`.ko` files, what those that are extensions themselves were built with, and where its
functions are. -/
structure Image where
  target : Text
  cursors : List Cursor
  files : List Text
  others : Text → Option (List Cursor)
  address : Text → ℕ

namespace Image

def header (im : Image) (name : Text) : Option (List Cursor) :=
  if name = im.target then some im.cursors else im.others name

def userHeader (im : Image) : List Text :=
  Gen.userHeader (lit "app_got.h") (processAppFiles im.cursors)

/-- The table that `SET_ALL_GOT_ENTRIES` leaves. -/
def table (im : Image) : Table ℕ :=
  fill (members im.userHeader) im.address (setNames im.userHeader)

end Image

/-- What a stub finds that was compiled for another header: whichever function has that
place among those of the program that filled the table. -/
lemma fetch_table (im : Image) (cursors : List Cursor) {f : Text} (hf : f ∈ functions cursors) :
    fetch (members (kernelHeader (lit "app.h") (processAppFiles cursors))) im.table f =
      (functions im.cursors)[(functions cursors).idxOf f]?.map im.address := by
  rw [members_kernelHeader, if_neg (List.ne_nil_of_mem hf), Image.table, Image.userHeader,
    members_userHeader]
  by_cases hnil : functions im.cursors = []
  · have hnone : setNames (Gen.userHeader (lit "app_got.h") (processAppFiles im.cursors)) = [] := by
      rw [List.eq_nil_iff_forall_not_mem]
      intro name hname
      rw [mem_setNames, hnil] at hname
      exact List.not_mem_nil hname
    rw [if_pos hnil, hnil, hnone, fetch_fill (List.nodup_singleton _)]
    simp
  · rw [if_neg hnil, fetch_fill (nodup_functions im.cursors)]
    cases hk : (functions im.cursors)[(functions cursors).idxOf f]? with
    | none => rfl
    | some k =>
      have hmem : k ∈ setNames (Gen.userHeader (lit "app_got.h") (processAppFiles im.cursors)) :=
        mem_setNames.mpr (List.mem_of_getElem? hk)
      simp [hmem]

/-- A process and its `module_loaded`. -/
structure Process where
  image : Image
  moduleLoaded : Bool

/-- The kernel's modules, the tables that `vmalloc` gave, which are never freed, and the
processes. -/
structure World where
  modules : List Module
  tables : List (Table ℕ)
  procs : ℕ → Option Process

def World.boot : World := ⟨[], [], fun _ => none⟩

def World.setProc (w : World) (pid : ℕ) (p : Option Process) : World :=
  { w with procs := Function.update w.procs pid p }

@[simp] theorem World.setProc_modules (w : World) (pid : ℕ) (p : Option Process) :
    (w.setProc pid p).modules = w.modules := rfl

@[simp] theorem World.setProc_tables (w : World) (pid : ℕ) (p : Option Process) :
    (w.setProc pid p).tables = w.tables := rfl

@[simp] theorem World.setProc_self (w : World) (pid : ℕ) (p : Option Process) :
    (w.setProc pid p).procs pid = p := by
  simp [World.setProc]

lemma World.setProc_of_ne (w : World) {pid pid' : ℕ} (p : Option Process) (h : pid' ≠ pid) :
    (w.setProc pid p).procs pid' = w.procs pid' := by
  simp [World.setProc, h]

/-- What one `dpld_resolver` meets: the dynamic symbols it needs, the kernel's answers about
new modules, the module whose `set_app_got` is found, the allocation and the address of the
symbol it is called for. -/
structure ResolverCall where
  symbols : Bool
  answers : Answers
  setAppGot : Option Text
  vmalloc : Bool
  addr : ℕ

/-- `set_app_got` of the named module. -/
def setAppGot (name : Text) (got : ℕ) (modules : List Module) : List Module :=
  modules.map fun m => if m.name = name then { m with appGot := some got } else m

def elevatedAppGotInit (c : ResolverCall) (im : Image) (w : World) : ℤ × World :=
  match c.setAppGot with
  | none => (-1, w)
  | some name =>
      if c.vmalloc then
        (0, { w with
          modules := setAppGot name w.tables.length w.modules
          tables := w.tables ++ [im.table] })
      else (-2, w)

/-- The first resolution of a process. The program exits unless everything succeeds. -/
def loadOnce (c : ResolverCall) (p : Process) (w : World) : Bool × World :=
  if p.moduleLoaded then (true, w)
  else
    let r := loadAllModules p.image.files p.image.header c.answers w.modules
    let w := { w with modules := r.2 }
    if r.1 ≠ 0 then (false, w)
    else if noAppGotEntries ∈ p.image.userHeader then (true, w)
    else
      let g := elevatedAppGotInit c p.image w
      (decide (g.1 = 0), g.2)

/-- The process when the call is over. It exits if a module is missing or the symbol is. -/
def fate (p : Process) (c : ResolverCall) (loaded : Bool) : Option Process :=
  if loaded && c.addr != 0 then some { p with moduleLoaded := true } else none

def dpldResolver (pid : ℕ) (c : ResolverCall) (w : World) : World :=
  match w.procs pid with
  | none => w
  | some p =>
      if !c.symbols then w.setProc pid none
      else
        let r := loadOnce c p w
        r.2.setProc pid (fate p c r.1)

/-- What happens on the machine. -/
inductive Event where
  | exec (pid : ℕ) (image : Image)
  | fork (parent child : ℕ)
  | exit (pid : ℕ)
  | resolve (pid : ℕ) (c : ResolverCall)
  | rmmod (name : Text)

/-- A child shares nothing with its parent but starts as a copy. -/
def step (w : World) : Event → World
  | .exec pid image => w.setProc pid (some ⟨image, false⟩)
  | .fork parent child => if (w.procs child).isSome then w else w.setProc child (w.procs parent)
  | .exit pid => w.setProc pid none
  | .resolve pid c => dpldResolver pid c w
  | .rmmod name => { w with modules := w.modules.filter fun m => decide (m.name ≠ name) }

/-- Where the stub of `f` in the named module jumps to, if `app_got` points to a table and
the table has an address there. -/
def backCall (w : World) (name f : Text) : Option ℕ :=
  (lookup w.modules name).bind fun m =>
    m.header.bind fun cursors =>
      m.appGot.bind fun got =>
        w.tables[got]?.bind fun table =>
          fetch (members (kernelHeader (lit "app.h") (processAppFiles cursors))) table f

/-- The module whose `app_got` a call sets, seen from the state before it. -/
def Process.sets (p : Process) (c : ResolverCall) (w : World) : Option Text :=
  if !p.moduleLoaded && c.symbols && c.vmalloc &&
      decide ((loadAllModules p.image.files p.image.header c.answers w.modules).1 = 0) then
    c.setAppGot
  else none

lemma Process.setAppGot_of_sets {p : Process} {c : ResolverCall} {w : World} {name : Text}
    (h : p.sets c w = some name) : c.setAppGot = some name := by
  rw [Process.sets] at h
  split at h
  · exact h
  · exact absurd h (by simp)

lemma lookup_setAppGot (name : Text) (got : ℕ) (modules : List Module) (other : Text) :
    lookup (setAppGot name got modules) other =
      (lookup modules other).map fun m =>
        if other = name then { m with appGot := some got } else m := by
  induction modules with
  | nil => rfl
  | cons m modules ih =>
    have hname : (if m.name = name then { m with appGot := some got } else m).name = m.name := by
      split <;> rfl
    rw [setAppGot, List.map_cons, lookup_cons, lookup_cons, hname, ← setAppGot, ih]
    by_cases hother : m.name = other
    · subst hother
      simp
    · simp [hother]

/-- The modules after the loading that a call may begin with. -/
def Process.loads (p : Process) (c : ResolverCall) (w : World) : List Module :=
  if !p.moduleLoaded && c.symbols then
    (loadAllModules p.image.files p.image.header c.answers w.modules).2
  else w.modules

/-- `app_got.h` never says that there are no functions. -/
lemma noAppGotEntries_not_mem (im : Image) : noAppGotEntries ∉ im.userHeader := by
  rw [Image.userHeader, processAppFiles]
  exact noAppGotEntries_not_mem_userHeader (lit "app_got.h") _

lemma fate_cases (p : Process) (c : ResolverCall) (loaded : Bool) :
    fate p c loaded = none ∨ fate p c loaded = some { p with moduleLoaded := true } := by
  rw [fate]
  split
  · exact Or.inr rfl
  · exact Or.inl rfl

lemma dpldResolver_eq {w : World} {pid : ℕ} {p : Process} {c : ResolverCall}
    (hp : w.procs pid = some p) (hsymbols : c.symbols = true) :
    dpldResolver pid c w = (loadOnce c p w).2.setProc pid (fate p c (loadOnce c p w).1) := by
  simp [dpldResolver, hp, hsymbols]

/-- What `loadOnce` does, by what it sets. -/
lemma loadOnce_cases (c : ResolverCall) (p : Process) (w : World) (hsymbols : c.symbols = true) :
    (p.sets c w = none ∧ ((loadOnce c p w).1 = false ∨ p.moduleLoaded = true) ∧
      (loadOnce c p w).2 = ⟨p.loads c w, w.tables, w.procs⟩) ∨
    ∃ name, p.sets c w = some name ∧ p.moduleLoaded = false ∧ (loadOnce c p w).1 = true ∧
      (loadOnce c p w).2 =
        ⟨setAppGot name w.tables.length (p.loads c w), w.tables ++ [p.image.table], w.procs⟩ := by
  cases hloaded : p.moduleLoaded with
  | true =>
    refine Or.inl ⟨by simp [Process.sets, hloaded], Or.inr rfl, ?_⟩
    simp [loadOnce, Process.loads, hloaded]
  | false =>
    have hno := noAppGotEntries_not_mem p.image
    by_cases hrc : (loadAllModules p.image.files p.image.header c.answers w.modules).1 = 0
    · cases hgot : c.setAppGot with
      | none =>
        refine Or.inl ⟨by simp [Process.sets, hgot], Or.inl ?_, ?_⟩ <;>
          simp [loadOnce, Process.loads, elevatedAppGotInit, hloaded, hrc, hno, hgot, hsymbols]
      | some name =>
        cases hvmalloc : c.vmalloc with
        | false =>
          refine Or.inl ⟨by simp [Process.sets, hvmalloc], Or.inl ?_, ?_⟩ <;>
            simp [loadOnce, Process.loads, elevatedAppGotInit, hloaded, hrc, hno, hgot, hsymbols,
              hvmalloc]
        | true =>
          refine Or.inr ⟨name, ?_, rfl, ?_, ?_⟩ <;>
            simp [loadOnce, Process.sets, Process.loads, elevatedAppGotInit, hloaded, hrc, hno,
              hgot, hsymbols, hvmalloc]
    · refine Or.inl ⟨by simp [Process.sets, hrc], Or.inl ?_, ?_⟩ <;>
        simp [loadOnce, Process.loads, hloaded, hrc, hsymbols]

/-- What one resolution does: it may load modules, and it sets no `app_got` or one of them. -/
lemma dpldResolver_cases {w : World} {pid : ℕ} {p : Process} (c : ResolverCall)
    (hp : w.procs pid = some p) :
    ∃ fate, (fate = none ∨ fate = some { p with moduleLoaded := true }) ∧
      ((p.sets c w = none ∧ (fate = none ∨ p.moduleLoaded = true) ∧
          dpldResolver pid c w =
            ⟨p.loads c w, w.tables, Function.update w.procs pid fate⟩) ∨
        ∃ name, p.sets c w = some name ∧ p.moduleLoaded = false ∧
          (c.addr ≠ 0 → fate = some { p with moduleLoaded := true }) ∧
          dpldResolver pid c w =
            ⟨setAppGot name w.tables.length (p.loads c w), w.tables ++ [p.image.table],
              Function.update w.procs pid fate⟩) := by
  cases hsymbols : c.symbols with
  | false =>
    refine ⟨none, Or.inl rfl, Or.inl ⟨by simp [Process.sets, hsymbols], Or.inl rfl, ?_⟩⟩
    simp [dpldResolver, hp, hsymbols, World.setProc, Process.loads]
  | true =>
    refine ⟨fate p c (loadOnce c p w).1, fate_cases p c _, ?_⟩
    rw [dpldResolver_eq hp hsymbols]
    rcases loadOnce_cases c p w hsymbols with
      ⟨hsets, hready, hworld⟩ | ⟨name, hsets, hloaded, hready, hworld⟩
    · refine Or.inl ⟨hsets, hready.imp_left fun hfalse => ?_, by rw [hworld]; rfl⟩
      rw [fate, hfalse]
      rfl
    · refine Or.inr ⟨name, hsets, hloaded, fun haddr => ?_, by rw [hworld]; rfl⟩
      rw [fate, hready]
      simp [haddr]

/-- The same call as the thread that makes it sees it. -/
def ResolverCall.resolution (c : ResolverCall) (p : Process) (w : World) : Kcut.Resolution where
  symbols := c.symbols
  loadRc := (loadAllModules p.image.files p.image.header c.answers w.modules).1
  setAppGot := c.setAppGot.isSome
  vmalloc := c.vmalloc
  addr := c.addr

lemma loadOnce_thread {c : ResolverCall} {p : Process} {w : World} {cfg : Kcut.Config}
    {t : Kcut.Thread} (hcfg : cfg.noAppGotEntries = false) (ht : t.moduleLoaded = p.moduleLoaded) :
    (Kcut.loadOnce cfg (c.resolution p w) t).map Kcut.Thread.moduleLoaded =
      if (loadOnce c p w).1 then some true else none := by
  rw [Kcut.loadOnce, ht]
  cases hloaded : p.moduleLoaded with
  | true => simp [loadOnce, hloaded, ht]
  | false =>
    by_cases hrc : (loadAllModules p.image.files p.image.header c.answers w.modules).1 = 0
    · cases hgot : c.setAppGot with
      | none =>
        simp [loadOnce, hloaded, hrc, noAppGotEntries_not_mem, elevatedAppGotInit, hgot, hcfg,
          ResolverCall.resolution, Kcut.appGotInit]
      | some name =>
        cases hvmalloc : c.vmalloc <;>
          simp [loadOnce, hloaded, hrc, noAppGotEntries_not_mem, elevatedAppGotInit, hgot, hcfg,
            hvmalloc, ResolverCall.resolution, Kcut.appGotInit]
    · simp [loadOnce, hloaded, hrc, ResolverCall.resolution]

/-- The process lives on exactly when its thread does, and both have noted the same. -/
theorem procs_dpldResolver {c : ResolverCall} {p : Process} {w : World} {pid : ℕ}
    {cfg : Kcut.Config} {t : Kcut.Thread} (hp : w.procs pid = some p)
    (hcfg : cfg.noAppGotEntries = false) (ht : t.moduleLoaded = p.moduleLoaded) :
    (dpldResolver pid c w).procs pid =
      (Kcut.dpldResolver cfg (c.resolution p w) t).map fun t' => ⟨p.image, t'.moduleLoaded⟩ := by
  have honce := loadOnce_thread (c := c) (w := w) hcfg ht
  cases hsymbols : c.symbols with
  | false => simp [dpldResolver, hp, hsymbols, Kcut.dpldResolver, ResolverCall.resolution]
  | true =>
    rw [dpldResolver_eq hp hsymbols, World.setProc_self, Kcut.dpldResolver, fate]
    cases hthread : Kcut.loadOnce cfg (c.resolution p w) t with
    | none =>
      have hready : (loadOnce c p w).1 = false := by simpa [hthread] using honce
      simp [hready, ResolverCall.resolution, hsymbols]
    | some t₁ =>
      obtain ⟨hready, hloaded⟩ : (loadOnce c p w).1 = true ∧ t₁.moduleLoaded = true := by
        simpa [hthread] using honce
      have hreturns :
          (t₁.symElevate.symbiFastLower.returns t.elevated).moduleLoaded = true := by
        rw [Kcut.symElevate_symbiFastLower, Kcut.Thread.returns]
        split <;> exact hloaded
      by_cases haddr : c.addr = 0
      · simp [ResolverCall.resolution, hsymbols, haddr]
      · simp [ResolverCall.resolution, hsymbols, hready, haddr, hreturns]

/-- `app_got` of the named module. -/
def appGot (w : World) (name : Text) : Option ℕ := (lookup w.modules name).bind Module.appGot

lemma lookup_loads_of_some {p : Process} {c : ResolverCall} {w : World} {name : Text} {m : Module}
    (h : lookup w.modules name = some m) : lookup (p.loads c w) name = some m := by
  rw [Process.loads]
  split
  · exact lookup_loadModules_of_some h
  · exact h

lemma lookup_loads_cases {p : Process} {c : ResolverCall} {w : World} {name : Text} {m : Module}
    (h : lookup (p.loads c w) name = some m) :
    lookup w.modules name = some m ∨
      lookup w.modules name = none ∧ m = fresh name (p.image.header name) := by
  rw [Process.loads] at h
  split at h
  · exact lookup_loadModules_cases h
  · exact Or.inl h

/-- A module that comes from its object file has no table yet. -/
lemma appGot_loads (p : Process) (c : ResolverCall) (w : World) (name : Text) :
    (lookup (p.loads c w) name).bind Module.appGot = appGot w name := by
  rw [appGot]
  cases hafter : lookup (p.loads c w) name with
  | none =>
    cases hbefore : lookup w.modules name with
    | none => rfl
    | some m => exact absurd (hafter.symm.trans (lookup_loads_of_some hbefore)) (by simp)
  | some m =>
    obtain hsame | ⟨hnone, rfl⟩ := lookup_loads_cases hafter
    · rw [hsame]
    · rw [hnone]
      rfl

lemma appGot_setAppGot (target : Text) (got : ℕ) (modules : List Module) (name : Text) :
    (lookup (setAppGot target got modules) name).bind Module.appGot =
      if name = target then (lookup modules name).map fun _ => got
      else (lookup modules name).bind Module.appGot := by
  rw [lookup_setAppGot]
  by_cases htarget : name = target
  · simp only [htarget, if_true, Option.bind_map]
    cases lookup modules target <;> rfl
  · simp [htarget]

lemma lookup_rmmod (modules : List Module) (removed name : Text) :
    lookup (modules.filter fun m => decide (m.name ≠ removed)) name =
      if name = removed then none else lookup modules name := by
  induction modules with
  | nil => simp [lookup]
  | cons m modules ih =>
    by_cases hm : m.name = removed
    · rw [List.filter_cons_of_neg (by simp [hm]), ih, lookup_cons, hm]
      by_cases hname : name = removed
      · simp [hname]
      · rw [if_neg hname, if_neg hname, if_neg (Ne.symm hname)]
    · rw [List.filter_cons_of_pos (by simp [hm]), lookup_cons, ih, lookup_cons]
      by_cases hname : name = removed
      · simp [hname, hm]
      · simp [hname]

lemma tables_step (w : World) (e : Event) : w.tables <+: (step w e).tables := by
  cases e with
  | resolve pid c =>
    cases hp : w.procs pid with
    | none => simp [step, dpldResolver, hp]
    | some p =>
      obtain ⟨fate, -, ⟨-, -, hstep⟩ | ⟨name, -, -, -, hstep⟩⟩ := dpldResolver_cases c hp
      · rw [step, hstep]
      · rw [step, hstep]
        exact List.prefix_append _ _
  | fork parent child =>
    rw [step]
    split <;> exact List.prefix_rfl
  | exec => exact List.prefix_rfl
  | exit => exact List.prefix_rfl
  | rmmod => exact List.prefix_rfl

/-- A table stays as it was filled. -/
lemma tables_run {w : World} {got : ℕ} {table : Table ℕ} (events : List Event)
    (h : w.tables[got]? = some table) : (runFrom step w events).tables[got]? = some table := by
  induction events generalizing w with
  | nil => exact h
  | cons e events ih =>
    apply ih
    obtain ⟨rest, hrest⟩ := tables_step w e
    rw [← hrest, List.getElem?_append_left (List.getElem?_eq_some_iff.mp h).1, h]

/-- Only a resolution makes a pointer point to a table, and that is the table it filled. -/
lemma appGot_step {w : World} {e : Event} {name : Text} {got : ℕ}
    (hbefore : appGot w name ≠ some got) (hafter : appGot (step w e) name = some got) :
    ∃ pid c p, e = .resolve pid c ∧ w.procs pid = some p ∧ p.sets c w = some name ∧
      (step w e).tables[got]? = some p.image.table := by
  cases e with
  | exec => exact absurd hafter hbefore
  | exit => exact absurd hafter hbefore
  | fork parent child =>
    rw [step] at hafter
    split at hafter <;> exact absurd hafter hbefore
  | rmmod removed =>
    rw [step, appGot, lookup_rmmod] at hafter
    split at hafter
    · exact absurd hafter (by simp)
    · exact absurd hafter hbefore
  | resolve pid c =>
    cases hp : w.procs pid with
    | none =>
      simp only [step, dpldResolver, hp] at hafter
      exact absurd hafter hbefore
    | some p =>
      obtain ⟨fate, -, ⟨-, -, hstep⟩ | ⟨target, hsets, -, -, hstep⟩⟩ := dpldResolver_cases c hp
      · rw [step, hstep, appGot, appGot_loads] at hafter
        exact absurd hafter hbefore
      · rw [step, hstep, appGot, appGot_setAppGot] at hafter
        by_cases htarget : name = target
        · rw [if_pos htarget, Option.map_eq_some_iff] at hafter
          obtain ⟨m, -, rfl⟩ := hafter
          refine ⟨pid, c, p, rfl, hp, htarget ▸ hsets, ?_⟩
          rw [step, hstep]
          exact List.getElem?_concat_length
        · rw [if_neg htarget, appGot_loads] at hafter
          exact absurd hafter hbefore

/-- A header with one function. -/
def adderHeader : List Cursor := addTwice.take 1

/-- A program with that function at the given place. -/
def adder (base : ℕ) : Image :=
  ⟨lit "ext", adderHeader, [lit "ext.ko"], fun _ => none, fun _ => base⟩

/-- A kernel that takes every new module. -/
def takesAll : Answers where
  errno _ loaded := if loaded then EEXIST else 0
  loads_once _ := by simp [EEXIST]

/-- A resolution in which everything succeeds. -/
def served : ResolverCall := ⟨true, takesAll, some (lit "ext"), true, 1⟩

lemma header_adder (base : ℕ) : (adder base).header (lit "ext") = some adderHeader := if_pos rfl

lemma loadAllModules_adder (base : ℕ) (modules : List Module) :
    loadAllModules (adder base).files (adder base).header served.answers modules =
      initModule (takesAll.errno 0) (lit "ext") (some adderHeader) modules := by
  have hnames : [lit "ext.ko"].map removesuffix = [lit "ext"] := by decide
  rw [loadAllModules, loadedNames_generateModulesHeader, adder, hnames, ← adder, loadModules,
    header_adder]
  simp [loadModules, served]

lemma sets_adder (base : ℕ) (w : World) :
    (Process.mk (adder base) false).sets served w = some (lit "ext") := by
  have hrc : (initModule (takesAll.errno 0) (lit "ext") (some adderHeader) w.modules).1 = 0 := by
    rw [initModule_fst]
    cases lookup w.modules (lit "ext") <;> rfl
  simp only [Process.sets, loadAllModules_adder, hrc]
  rfl

lemma dpldResolver_adder {base pid : ℕ} {w : World} (hp : w.procs pid = some ⟨adder base, false⟩) :
    dpldResolver pid served w =
      ⟨setAppGot (lit "ext") w.tables.length (Process.loads ⟨adder base, false⟩ served w),
        w.tables ++ [(adder base).table],
        Function.update w.procs pid (some ⟨adder base, true⟩)⟩ := by
  obtain ⟨fate, -, ⟨hnone, -⟩ | ⟨name, hname, -, hfate, hstep⟩⟩ := dpldResolver_cases served hp
  · exact absurd ((sets_adder base w).symm.trans hnone) (by simp)
  · obtain rfl : lit "ext" = name := by simpa [sets_adder] using hname
    rw [hstep, hfate Nat.one_ne_zero]

lemma lookup_loads_adder (base : ℕ) (w : World) :
    lookup (Process.loads ⟨adder base, false⟩ served w) (lit "ext") =
      some ((lookup w.modules (lit "ext")).getD (fresh (lit "ext") (some adderHeader))) := by
  have hcond : (!(Process.mk (adder base) false).moduleLoaded && served.symbols) = true := rfl
  rw [Process.loads, if_pos hcond, loadAllModules_adder,
    lookup_initModule (takesAll.loads_once 0)]
  cases lookup w.modules (lit "ext") <;> simp [takesAll]

lemma lookup_dpldResolver_adder {base pid : ℕ} {w : World}
    (hp : w.procs pid = some ⟨adder base, false⟩) :
    lookup (dpldResolver pid served w).modules (lit "ext") =
      some { (lookup w.modules (lit "ext")).getD (fresh (lit "ext") (some adderHeader)) with
        appGot := some w.tables.length } := by
  rw [dpldResolver_adder hp, lookup_setAppGot, lookup_loads_adder, Option.map_some, if_pos rfl]

/-- Two starts of the program, the second of them with the function elsewhere. -/
def startTwice : List Event :=
  [.exec 1 (adder 100), .resolve 1 served, .exec 2 (adder 200), .resolve 2 served]

def startedOnce : World := dpldResolver 1 served (World.boot.setProc 1 (some ⟨adder 100, false⟩))

lemma run_startTwice : runFrom step World.boot startTwice =
    dpldResolver 2 served (startedOnce.setProc 2 (some ⟨adder 200, false⟩)) := by
  simp only [startTwice, runFrom_cons, runFrom_nil, step, startedOnce]

lemma lookup_startedOnce : lookup startedOnce.modules (lit "ext") =
    some ⟨lit "ext", some adderHeader, some 0⟩ := by
  rw [startedOnce, lookup_dpldResolver_adder (World.boot.setProc_self 1 _)]
  simp [World.boot, lookup, fresh]

lemma procs_startedOnce : startedOnce.procs 1 = some ⟨adder 100, true⟩ := by
  rw [startedOnce, dpldResolver_adder (World.boot.setProc_self 1 _)]
  simp

lemma lookup_startTwice : lookup (runFrom step World.boot startTwice).modules (lit "ext") =
    some ⟨lit "ext", some adderHeader, some startedOnce.tables.length⟩ := by
  rw [run_startTwice, lookup_dpldResolver_adder (startedOnce.setProc_self 2 _),
    World.setProc_modules, World.setProc_tables, lookup_startedOnce, Option.getD_some]

/-- For every run, and every module with a pointer in it at the end: the pointer was set last
by a resolution of some process, it has stayed since, and a call back to a function jumps to
whichever function has its place in the table of that process's program. -/
theorem backCall_last {events : List Event} {name : Text} {m : Module} {cursors : List Cursor}
    {got : ℕ} (hm : lookup (runFrom step World.boot events).modules name = some m)
    (hcursors : m.header = some cursors) (hgot : m.appGot = some got) :
    ∃ before pid c p after, events = before ++ .resolve pid c :: after ∧
      (runFrom step World.boot before).procs pid = some p ∧
      p.sets c (runFrom step World.boot before) = some name ∧
      (∀ mid, mid <+: after →
        appGot (runFrom step World.boot (before ++ .resolve pid c :: mid)) name = some got) ∧
      ∀ f ∈ functions cursors, backCall (runFrom step World.boot events) name f =
        (functions p.image.cursors)[(functions cursors).idxOf f]?.map p.image.address := by
  have hend : appGot (runFrom step World.boot events) name = some got := by
    rw [appGot, hm]
    exact hgot
  have hboot : appGot World.boot name ≠ some got := by simp [appGot, World.boot, lookup]
  obtain ⟨before, e, after, rfl, hbefore, hafter⟩ :=
    exists_last_entry (P := fun w => appGot w name = some got) hboot hend
  have hset : appGot (step (runFrom step World.boot before) e) name = some got := by
    have hnext := hafter [] List.nil_prefix
    rwa [runFrom_append] at hnext
  obtain ⟨pid, c, p, rfl, hp, hsets, htable⟩ := appGot_step hbefore hset
  refine ⟨before, pid, c, p, after, rfl, hp, hsets, hafter, fun f hf => ?_⟩
  have hkept := tables_run after htable
  rw [runFrom_append, runFrom_cons] at hm ⊢
  simp only [backCall, hm, hcursors, hgot, Option.bind_some, hkept]
  exact fetch_table p.image cursors hf

theorem backCall_last_startTwice : ∃ before pid c p after,
    startTwice = before ++ .resolve pid c :: after ∧
      (runFrom step World.boot before).procs pid = some p ∧
      ∀ f ∈ functions adderHeader,
        backCall (runFrom step World.boot startTwice) (lit "ext") f =
          (functions p.image.cursors)[(functions adderHeader).idxOf f]?.map
            p.image.address := by
  obtain ⟨before, pid, c, p, after, hsplit, hp, -, -, hcall⟩ :=
    backCall_last lookup_startTwice rfl rfl
  exact ⟨before, pid, c, p, after, hsplit, hp, hcall⟩

section OneProgram

variable {target : Text} {cursors : List Cursor} {w : World}

/-- Every process that has initialised its table is called back where its own functions are. -/
def AllOwn (target : Text) (cursors : List Cursor) (w : World) : Prop :=
  ∀ pid p, w.procs pid = some p → p.moduleLoaded = true →
    ∀ f ∈ functions cursors, backCall w target f = some (p.image.address f)

/-- Every program is the same up to where its functions are, and none of its other modules is
an extension. `kallsyms_lookup_name` finds a symbol in a loaded module that has it. -/
def OneProgram (target : Text) (cursors : List Cursor) (w : World) : Event → Prop
  | .exec _ image =>
      image.target = target ∧ image.cursors = cursors ∧ ∀ name, image.others name = none
  | .resolve pid c =>
      ∀ p name, w.procs pid = some p → c.setAppGot = some name →
        ∃ m, lookup (p.loads c w) name = some m ∧ m.header ≠ none
  | _ => True

/-- A process that sets the pointer has its functions where every process that has done so
has them, and the extension is not removed under such a process. -/
def NoClash (target : Text) (cursors : List Cursor) (w : World) : Event → Prop
  | .resolve pid c =>
      ∀ p, w.procs pid = some p → p.sets c w ≠ none →
        ∀ pid' p', w.procs pid' = some p' → p'.moduleLoaded = true →
          ∀ f ∈ functions cursors, p.image.address f = p'.image.address f
  | .rmmod name =>
      name = target → ∀ pid p, w.procs pid = some p → p.moduleLoaded = true →
        functions cursors = []
  | _ => True

/-- What the modules and the processes of such a run have in common. -/
structure Shared (target : Text) (cursors : List Cursor) (w : World) : Prop where
  header : ∀ name m, lookup w.modules name = some m →
    m.header = if name = target then some cursors else none
  image : ∀ pid p, w.procs pid = some p →
    p.image.target = target ∧ p.image.cursors = cursors ∧ ∀ name, p.image.others name = none

lemma Shared.boot : Shared target cursors World.boot :=
  ⟨fun _ _ h => absurd h (by simp [World.boot, lookup]),
    fun _ _ h => absurd h (by simp [World.boot])⟩

lemma Shared.setProc (h : Shared target cursors w) (pid : ℕ) {p : Option Process}
    (hp : ∀ q, p = some q →
      q.image.target = target ∧ q.image.cursors = cursors ∧ ∀ name, q.image.others name = none) :
    Shared target cursors (w.setProc pid p) := by
  refine ⟨h.header, fun pid' q hq => ?_⟩
  by_cases hsame : pid' = pid
  · subst hsame
    exact hp q (by simpa using hq)
  · exact h.image pid' q (by simpa [w.setProc_of_ne p hsame] using hq)

lemma Shared.loads (h : Shared target cursors w) {pid : ℕ} {p : Process}
    (hp : w.procs pid = some p) (c : ResolverCall) {name : Text} {m : Module}
    (hm : lookup (p.loads c w) name = some m) :
    m.header = if name = target then some cursors else none := by
  obtain hsame | ⟨-, rfl⟩ := lookup_loads_cases hm
  · exact h.header name m hsame
  · obtain ⟨htarget, hcursors, hothers⟩ := h.image pid p hp
    rw [fresh, Image.header, htarget, hcursors, hothers]

lemma Shared.step (h : Shared target cursors w) {e : Event}
    (he : OneProgram target cursors w e) : Shared target cursors (step w e) := by
  cases e with
  | exec pid image =>
    refine h.setProc pid fun q hq => ?_
    cases hq
    exact he
  | fork parent child =>
    rw [Dpld.step]
    split
    · exact h
    · exact h.setProc child fun q hq => h.image parent q hq
  | exit pid => exact h.setProc pid fun q hq => absurd hq (by simp)
  | rmmod removed =>
    refine ⟨fun name m hm => ?_, h.image⟩
    rw [Dpld.step, lookup_rmmod] at hm
    split at hm
    · exact absurd hm (by simp)
    · exact h.header name m hm
  | resolve pid c =>
    cases hp : w.procs pid with
    | none => simpa [Dpld.step, dpldResolver, hp] using h
    | some p =>
      obtain ⟨fate, hfate, hcase⟩ := dpldResolver_cases c hp
      have hprocs := h.setProc pid (p := fate) fun q hq => by
        obtain rfl | rfl := hfate
        · exact absurd hq (by simp)
        · cases hq
          exact h.image pid p hp
      obtain ⟨-, -, hstep⟩ | ⟨name, -, -, -, hstep⟩ := hcase
      · rw [Dpld.step, hstep]
        exact ⟨fun name m hm => h.loads hp c hm, hprocs.image⟩
      · rw [Dpld.step, hstep]
        refine ⟨fun other m hm => ?_, hprocs.image⟩
        rw [lookup_setAppGot, Option.map_eq_some_iff] at hm
        obtain ⟨m, hm, rfl⟩ := hm
        have hheader := h.loads hp c hm
        split <;> exact hheader

lemma AllOwn.setProc (h : AllOwn target cursors w) (pid : ℕ) {p : Option Process}
    (hp : ∀ q, p = some q → q.moduleLoaded = true →
      ∀ f ∈ functions cursors, backCall w target f = some (q.image.address f)) :
    AllOwn target cursors (w.setProc pid p) := by
  intro pid' q hq hloaded
  by_cases hsame : pid' = pid
  · subst hsame
    exact hp q (by simpa using hq) hloaded
  · exact h pid' q (by simpa [w.setProc_of_ne p hsame] using hq) hloaded

/-- Loading modules leaves the calls back that work. -/
lemma backCall_loads {p : Process} {c : ResolverCall} {procs : ℕ → Option Process} {f : Text}
    {a : ℕ} (h : backCall w target f = some a) :
    backCall ⟨p.loads c w, w.tables, procs⟩ target f = some a := by
  rw [backCall, Option.bind_eq_some_iff] at h
  obtain ⟨m, hm, hrest⟩ := h
  rw [backCall, lookup_loads_of_some hm]
  exact hrest

/-- After a process has set the pointer the calls go to its own functions. -/
lemma backCall_setAppGot (h : Shared target cursors w) {pid : ℕ} {p : Process}
    (hp : w.procs pid = some p) {c : ResolverCall} {m : Module}
    (hm : lookup (p.loads c w) target = some m) {procs : ℕ → Option Process} {f : Text}
    (hf : f ∈ functions cursors) :
    backCall ⟨setAppGot target w.tables.length (p.loads c w), w.tables ++ [p.image.table], procs⟩
      target f = some (p.image.address f) := by
  have hheader : m.header = some cursors := by
    rw [h.loads hp c hm, if_pos rfl]
  have htable : (w.tables ++ [p.image.table])[w.tables.length]? = some p.image.table :=
    List.getElem?_concat_length
  have hplace : (functions cursors)[(functions cursors).idxOf f]? = some f :=
    List.getElem?_idxOf hf
  simp only [backCall, lookup_setAppGot, hm, Option.map_some, Option.bind_some, if_true, hheader,
    htable]
  rw [fetch_table p.image cursors hf, (h.image pid p hp).2.1, hplace, Option.map_some]

/-- A resolution that sets no pointer changes no call back. -/
lemma allOwn_of_sets_none (hown : AllOwn target cursors w) {pid : ℕ} {p : Process}
    (hp : w.procs pid = some p) {c : ResolverCall} (hsets : p.sets c w = none) :
    AllOwn target cursors (dpldResolver pid c w) := by
  obtain ⟨fate, hfate, ⟨-, hready, hstep⟩ | ⟨name, hname, -⟩⟩ := dpldResolver_cases c hp
  · have hprocs := hown.setProc pid (p := fate) fun q hq _ f hf => by
      obtain rfl | rfl := hfate
      · exact absurd hq (by simp)
      · cases hq
        exact hown pid p hp (hready.resolve_left (by simp)) f hf
    rw [hstep]
    exact fun pid' q hq hloaded f hf => backCall_loads (hprocs pid' q hq hloaded f hf)
  · exact absurd (hsets.symm.trans hname) (by simp)

/-- One that does leaves every call back right if the others' functions are where its own are. -/
lemma allOwn_iff_of_sets (h : Shared target cursors w) {pid : ℕ} {p : Process}
    (hp : w.procs pid = some p) {c : ResolverCall} {m : Module}
    (hsets : p.sets c w = some target) (hm : lookup (p.loads c w) target = some m) :
    AllOwn target cursors (dpldResolver pid c w) ↔
      ∀ pid' p', w.procs pid' = some p' → p'.moduleLoaded = true →
        ∀ f ∈ functions cursors, p.image.address f = p'.image.address f := by
  obtain ⟨fate, hfate, ⟨hnone, -, -⟩ | ⟨name, hname, hfirst, -, hstep⟩⟩ :=
    dpldResolver_cases c hp
  · exact absurd (hsets.symm.trans hnone) (by simp)
  obtain rfl : target = name := by simpa [hsets] using hname
  have hprocs : (dpldResolver pid c w).procs = Function.update w.procs pid fate := by rw [hstep]
  have hcall (f : Text) (hf : f ∈ functions cursors) :
      backCall (dpldResolver pid c w) target f = some (p.image.address f) := by
    rw [hstep]
    exact backCall_setAppGot h hp hm hf
  constructor
  · intro hall pid' p' hp' hloaded f hf
    have hne : pid' ≠ pid := by
      rintro rfl
      obtain rfl : p = p' := Option.some.inj (hp.symm.trans hp')
      exact absurd (hfirst.symm.trans hloaded) (by decide)
    have hafter : (dpldResolver pid c w).procs pid' = some p' := by
      rw [hprocs, Function.update_of_ne hne, hp']
    exact Option.some.inj ((hcall f hf).symm.trans (hall pid' p' hafter hloaded f hf))
  · intro hagree pid' p' hp' hloaded f hf
    rw [hcall f hf]
    rw [hprocs] at hp'
    by_cases hsame : pid' = pid
    · rw [hsame, Function.update_self] at hp'
      obtain rfl | rfl := hfate
      · exact absurd hp' (by simp)
      · cases hp'
        rfl
    · rw [Function.update_of_ne hsame] at hp'
      rw [hagree pid' p' hp' hloaded f hf]

lemma allOwn_resolve_iff (h : Shared target cursors w) (hown : AllOwn target cursors w) {pid : ℕ}
    {c : ResolverCall} (he : OneProgram target cursors w (.resolve pid c)) :
    AllOwn target cursors (dpldResolver pid c w) ↔ NoClash target cursors w (.resolve pid c) := by
  cases hp : w.procs pid with
  | none => simpa [dpldResolver, NoClash, hp] using hown
  | some p =>
    have hclash : NoClash target cursors w (.resolve pid c) ↔
        (p.sets c w ≠ none → ∀ pid' p', w.procs pid' = some p' → p'.moduleLoaded = true →
          ∀ f ∈ functions cursors, p.image.address f = p'.image.address f) := by
      simp only [NoClash, hp, Option.some.injEq, forall_eq']
    rw [hclash]
    cases hsets : p.sets c w with
    | none => exact iff_of_true (allOwn_of_sets_none hown hp hsets) fun hne => absurd rfl hne
    | some name =>
      obtain ⟨m, hm, hheader⟩ := he p name hp (p.setAppGot_of_sets hsets)
      have hname : name = target := by
        by_contra hne
        exact hheader (by rw [h.loads hp c hm, if_neg hne])
      subst hname
      rw [allOwn_iff_of_sets h hp hsets hm]
      simp

/-- Without the module no call back works. -/
lemma allOwn_rmmod_iff (hown : AllOwn target cursors w) (name : Text) :
    AllOwn target cursors (step w (.rmmod name)) ↔ NoClash target cursors w (.rmmod name) := by
  have hlookup (f : Text) : backCall (step w (.rmmod name)) target f =
      if target = name then none else backCall w target f := by
    rw [backCall, step, lookup_rmmod]
    split <;> rfl
  by_cases hname : name = target
  · constructor
    · intro hall _ pid p hp hloaded
      rw [List.eq_nil_iff_forall_not_mem]
      intro f hf
      have hcall := hall pid p hp hloaded f hf
      rw [hlookup, if_pos hname.symm] at hcall
      exact absurd hcall (by simp)
    · intro hclash pid p hp hloaded f hf
      rw [hclash hname pid p hp hloaded] at hf
      exact absurd hf List.not_mem_nil
  · refine iff_of_true (fun pid p hp hloaded f hf => ?_) fun hsame => absurd hsame hname
    rw [hlookup, if_neg (Ne.symm hname)]
    exact hown pid p hp hloaded f hf

lemma allOwn_step_iff (h : Shared target cursors w) (hown : AllOwn target cursors w) {e : Event}
    (he : OneProgram target cursors w e) :
    AllOwn target cursors (step w e) ↔ NoClash target cursors w e := by
  cases e with
  | exec pid image =>
    refine iff_of_true (hown.setProc pid fun q hq hloaded => ?_) trivial
    cases hq
    exact absurd hloaded (by simp)
  | fork parent child =>
    refine iff_of_true ?_ trivial
    rw [step]
    split
    · exact hown
    · exact hown.setProc child fun q hq => hown parent q hq
  | exit pid => exact iff_of_true (hown.setProc pid fun q hq => absurd hq (by simp)) trivial
  | resolve pid c => exact allOwn_resolve_iff h hown he
  | rmmod name => exact allOwn_rmmod_iff hown name

/-- For every run of processes of one program, in any order: all calls back go to the caller's
own functions, in every state of the run, exactly when no process initialises its table while
one lives that has done so before and has a function elsewhere, and the extension is not removed
under one. A fork is never the reason, the exit of the process that set the pointer neither. -/
theorem ownCalls_iff (target : Text) (cursors : List Cursor) {events : List Event}
    (h : Guarded step (OneProgram target cursors) World.boot events) :
    (∀ pre, pre <+: events → AllOwn target cursors (runFrom step World.boot pre)) ↔
      Guarded step (NoClash target cursors) World.boot events := by
  have hboot : AllOwn target cursors World.boot := fun pid p hp => absurd hp (by simp [World.boot])
  refine h.forall_prefix_iff (I := fun w => Shared target cursors w ∧ AllOwn target cursors w)
    (fun w hw => hw.2) (fun w e hw he => ?_) ⟨Shared.boot, hboot⟩
  have hiff := allOwn_step_iff hw.1 hw.2 he
  exact ⟨hiff, fun hclash => ⟨hw.1.step he, hiff.mpr hclash⟩⟩

end OneProgram

lemma startTwice_oneProgram :
    Guarded step (OneProgram (lit "ext") adderHeader) World.boot startTwice := by
  have hfirst (p : Process) (name : Text)
      (hp : (World.boot.setProc 1 (some ⟨adder 100, false⟩)).procs 1 = some p)
      (hname : served.setAppGot = some name) :
      ∃ m, lookup (p.loads served (World.boot.setProc 1 (some ⟨adder 100, false⟩))) name = some m ∧
        m.header ≠ none := by
    obtain rfl : _ = p := Option.some.inj hp
    obtain rfl : _ = name := Option.some.inj hname
    exact ⟨_, lookup_loads_adder 100 _, by simp [World.boot, lookup, fresh]⟩
  have hsecond (p : Process) (name : Text)
      (hp : (startedOnce.setProc 2 (some ⟨adder 200, false⟩)).procs 2 = some p)
      (hname : served.setAppGot = some name) :
      ∃ m, lookup (p.loads served (startedOnce.setProc 2 (some ⟨adder 200, false⟩))) name = some m ∧
        m.header ≠ none := by
    obtain rfl : _ = p := Option.some.inj hp
    obtain rfl : _ = name := Option.some.inj hname
    refine ⟨_, lookup_loads_adder 200 _, ?_⟩
    rw [World.setProc_modules, lookup_startedOnce]
    simp
  have hworld : step (step (step World.boot (.exec 1 (adder 100))) (.resolve 1 served))
      (.exec 2 (adder 200)) = startedOnce.setProc 2 (some ⟨adder 200, false⟩) := by
    simp only [step, startedOnce]
  refine ⟨⟨rfl, rfl, fun _ => rfl⟩, hfirst, ⟨rfl, rfl, fun _ => rfl⟩, ?_, trivial⟩
  rw [hworld]
  exact hsecond

/-- The first process is no longer called back where its function is. -/
theorem ownCalls_iff_startTwice :
    ¬ ∀ pre, pre <+: startTwice →
      AllOwn (lit "ext") adderHeader (runFrom step World.boot pre) := by
  rw [ownCalls_iff (lit "ext") adderHeader startTwice_oneProgram]
  rintro ⟨-, -, -, hclash, -⟩
  have hprocs : (startedOnce.setProc 2 (some ⟨adder 200, false⟩)).procs 1 =
      some ⟨adder 100, true⟩ :=
    (startedOnce.setProc_of_ne _ (by decide)).trans procs_startedOnce
  have hadd : lit "add" ∈ functions adderHeader :=
    mem_functions.mpr ⟨addDecl (lit "a") (lit "b") (by decide) (by decide),
      List.mem_singleton_self _, rfl⟩
  have hsame : (200 : ℕ) = 100 :=
    hclash ⟨adder 200, false⟩ (startedOnce.setProc_self 2 _) (by rw [sets_adder]; simp) 1
      ⟨adder 100, true⟩ hprocs rfl (lit "add") hadd
  exact absurd hsame (by decide)

end SymbiOS.Dpld
