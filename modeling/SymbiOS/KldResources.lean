import SymbiOS.KldInit
import SymbiOS.KldSections

/-!
# What kld holds

The calls of `kld/main.c` that acquire memory, descriptors and libelf handles, from the
first directory to the cleanup at exit. The values are those of `KldInit`; here every
block and every descriptor has a name, and to give one back twice has no meaning. uthash
allocates the table for the first object, and frees it with the last; when it doubles the
buckets is a parameter.
-/
namespace SymbiOS.Kld.Resources
open SymbiOS.GuardedRun SymbiOS.Elf SymbiOS.CLib SymbiOS.Use

variable (sup : Supply) (host : Host) (expands : List Bo → Bool)

/-- The copy that `basename` works on does not outlive the call. -/
def modnmfromfnm : Use Resource Resource := do
  let tmp ← sup.new .block
  let modnm ← sup.new .block
  release tmp
  return modnm

/-- The string for the module's name. -/
def newModnm (s : Scan) : Use Resource Resource :=
  if s.commas = 0 ∨ strAt s.tmp s.n = [] then modnmfromfnm sup else sup.new .block

/-- A specification with the blocks of its three strings. -/
structure Parsed where
  spec : KoSpec
  kofnm : Resource
  kldopts : Resource
  modnm : Resource

/-- With a third comma nothing is stored for the caller, and the copy stays behind. -/
def parsekospec (kospec : List UInt8) : Use Resource (Option Parsed) := do
  let tmp ← sup.new .block
  match scanCommas (kospec ++ [0]).length 0 ⟨kospec ++ [0], 0, 0, 0⟩ with
  | none => return none
  | some s =>
      let modnm ← newModnm sup s
      let kldopts ← sup.new .block
      return some ⟨s.spec, tmp, kldopts, modnm⟩

/-- A path with its block. -/
abbrev Path := List UInt8 × Resource

/-- The descriptor, and the path that `realpath` allocates. -/
def openFound : Option (List UInt8) → Use Resource (Option Resource × Option Path)
  | none => return (none, none)
  | some path => do
      let fd ← sup.new .fd
      match host.realpath path with
      | none => return (some fd, none)
      | some kofullpath =>
          let block ← sup.new .block
          return (some fd, some (kofullpath, block))

/-- Without a directory to search the descriptor is never set. -/
def openko (kofnm : List UInt8) : Use Resource (Option Resource × Option Path) :=
  if host.dirs = [] then fun _ => none
  else do
    let fullpath ← sup.new .block
    let paths := host.dirs.map fun dir => (snprintf PATH_MAX (dir ++ [slash] ++ kofnm)).2
    let found ← openFound sup host (paths.find? host.readable)
    release fullpath
    return found

/-- The library of a kernel object, where it can be written. -/
def openLib (fullpath : List UInt8) : Use Resource (Option (Resource × Path)) :=
  if host.writable fullpath then do
    let fd ← sup.new .fd
    let sofullpath ← sup.new .block
    return some (fd, fullpath, sofullpath)
  else return none

def openso (kofnm : Option Path) (modnm : List UInt8) :
    Use Resource (Option (Resource × Path)) := do
  let fullpath ← sup.new .block
  match kofnm with
  | none =>
      release fullpath
      return none
  | some kofnm =>
      let tmp ← sup.new .block
      let opened ← openLib sup host (soPath kofnm.1 modnm)
      release tmp
      release fullpath
      return opened

/-- A registered object: its values, and the blocks and descriptors it keeps. -/
structure BoRec where
  bo : Bo
  self : Resource
  kofnm : Resource
  sofnm : Resource
  modnm : Resource
  kldopts : Resource
  kofd : Resource
  sofd : Resource

/-- `deletebo` and the `free` after it, in their order. -/
def BoRec.owned (b : BoRec) : List Resource :=
  [b.kofnm, b.sofnm, b.modnm, b.kldopts, b.kofd, b.sofd, b.self]

/-- What uthash keeps beside the objects: the head of the table, and the buckets. -/
structure HashTable where
  tbl : Resource
  buckets : Resource

/-- In the order of `uthash_free`. -/
def HashTable.blocks (t : HashTable) : List Resource := [t.buckets, t.tbl]

def tableBlocks (table : Option HashTable) : List Resource := table.toList.flatMap HashTable.blocks

/-- `GBLS.bos`: the objects, and their table if there are any. -/
structure Bos where
  recs : List BoRec
  table : Option HashTable
  table_eq_none_iff : table = none ↔ recs = []

def Bos.empty : Bos := ⟨[], none, by simp⟩

def registered (bos : List BoRec) (kofullpath : List UInt8) : Bool :=
  bos.any fun b => b.bo.kofnm == kofullpath

/-- `HASH_ADD_KEYPTR`. -/
def hashAdd (expand : Bool) : Option HashTable → Use Resource HashTable
  | none => do
      let tbl ← sup.new .block
      let buckets ← sup.new .block
      return ⟨tbl, buckets⟩
  | some t =>
      if expand then do
        let buckets ← sup.new .block
        release t.buckets
        return ⟨t.tbl, buckets⟩
      else return t

/-- What the end of `addbo` gives back with a negative result, in its order. -/
def acquired (p : Parsed) (kofd : Option Resource) (kofullpath : Option Path)
    (so : Option (Resource × Path)) : List Resource :=
  [p.kofnm] ++ kofd.toList ++ (so.map Prod.fst).toList ++ [p.kldopts, p.modnm] ++
    (kofullpath.map Prod.snd).toList ++ (so.map fun s => s.2.2).toList

def addbo (bos : Bos) (kospec : List UInt8) : Use Resource (ℤ × Bos) := do
  match ← parsekospec sup kospec with
  | none => return (-1, bos)
  | some p =>
      let (kofd, kofullpath) ← openko sup host p.spec.fnm
      match kofd with
      | none =>
          releaseAll (acquired p none kofullpath none)
          return (-1, bos)
      | some kofd =>
          match kofullpath, ← openso sup host kofullpath p.spec.modnm with
          | some ko, some so =>
              if registered bos.recs ko.1 then do
                releaseAll (acquired p (some kofd) (some ko) (some so))
                return (-1, bos)
              else do
                let self ← sup.new .block
                let table ← hashAdd sup (expands (bos.recs.map BoRec.bo)) bos.table
                release p.kofnm
                return (0, ⟨bos.recs ++ [⟨⟨ko.1, so.2.1, p.spec.modnm, p.spec.kldopts⟩,
                  self, ko.2, so.2.2, p.modnm, p.kldopts, kofd, so.1⟩], some table, by simp⟩)
          | _, so => do
              releaseAll (acquired p (some kofd) kofullpath so)
              return (-1, bos)

/-- The loop of `GBLSInit`. -/
def addbos : Bos → List (List UInt8) → Use Resource (ℤ × Bos)
  | bos, [] => return (0, bos)
  | bos, kospec :: kospecs => do
      let (rc, bos) ← addbo sup host expands bos kospec
      if rc < 0 then return (-1, bos) else addbos bos kospecs

/-- `HASH_DEL` of the last object frees the table, before the object goes. -/
def bosCleanup (table : Option HashTable) : List BoRec → Use Resource Unit
  | [] => return ()
  | b :: bos => do
      releaseAll (if bos.isEmpty then tableBlocks table else [])
      releaseAll b.owned
      bosCleanup table bos

/-- An array of pointers that `realloc` makes larger: what it holds, its size, and its
block. -/
structure Vec where
  items : List (List UInt8)
  max : ℕ
  block : Option Resource

def Vec.empty : Vec := ⟨[], 0, none⟩

def realloc (old : Option Resource) : Use Resource Resource := do
  let new ← sup.new .block
  releaseAll old.toList
  return new

/-- The array starts with room for `first` pointers, and is doubled when it is full. -/
def Vec.push (first : ℕ) (v : Vec) (item : List UInt8) : Use Resource Vec :=
  if v.items.length = v.max then do
    let block ← realloc sup v.block
    return ⟨v.items ++ [item], if v.max = 0 then first else v.max <<< 1, some block⟩
  else return ⟨v.items ++ [item], v.max, v.block⟩

/-- What `elf_read_syms` gets for a descriptor. -/
inductive ReadAnswer where
  | noHandle
  | notElf
  | symbols (n : ℕ)

/-- How `elf_generate_elf_mmap` ends: with NULL, with `MAP_FAILED`, or with a mapping. -/
inductive Generated where
  | failed
  | unmapped
  | mapped
  deriving DecidableEq

def newAll (kind : Kind) : ℕ → Use Resource (List Resource)
  | 0 => return []
  | n + 1 => do
      let r ← sup.new kind
      let rs ← newAll kind n
      return r :: rs

/-- The descriptor of the memory file, and the mapping. The tables in between are freed. -/
def elfGenerate : Generated → Use Resource (Option (Resource × Option Resource))
  | .failed => return none
  | .unmapped => do
      let mfd ← sup.new .fd
      let elf ← sup.new .elf
      let tables ← newAll sup .block 6
      release elf
      releaseAll tables
      return some (mfd, none)
  | .mapped => do
      let mfd ← sup.new .fd
      let elf ← sup.new .elf
      let tables ← newAll sup .block 6
      release elf
      let map ← sup.new .map
      releaseAll tables
      return some (mfd, some map)

/-- NULL is not `MAP_FAILED`: the descriptor that is closed then was never set. -/
def writeso (generated : Generated) : Use Resource Unit := do
  match ← elfGenerate sup generated with
  | none => fun _ => none
  | some (_, none) => return ()
  | some (mfd, some map) =>
      release map
      release mfd

/-- Everything that the program asks the system. The directories of `host` are set by the
program. -/
structure World where
  cwd : Option (List UInt8)
  isDir : List UInt8 → Bool
  host : Host
  expands : List Bo → Bool
  exec : List UInt8 → ElfHost
  read : List UInt8 → ReadAnswer
  generate : List UInt8 → Generated
  kotbl : Bool

variable (w : World)

/-- The entries are a name each, and an array if there are any. -/
def prcBO (b : BoRec) : Use Resource Unit :=
  match w.read b.bo.kofnm with
  | .noHandle => return ()
  | .notElf => do
      let elf ← sup.new .elf
      release elf
  | .symbols n => do
      let elf ← sup.new .elf
      let names ← newAll sup .block n
      let ents ← newAll sup .block (min n 1)
      release elf
      writeso sup (w.generate b.bo.sofnm)
      releaseAll names
      releaseAll ents

def prcBOs : List BoRec → Use Resource Unit
  | [] => return ()
  | b :: bos => do
      prcBO sup w b
      prcBOs bos

def prcExec (exec : List UInt8) : Use Resource Unit := do
  let (rc, sd) ← elfOpenSecdata sup (w.exec exec) .closed (some exec)
    (some (CLib.ascii ".kotbl")) none
  if 0 ≤ rc then do
    let _ ← elfCloseSecdata sd
    return ()
  else return ()

/-- The options: `-K`, `-k`, those that only set a flag, and those that end in the usage. -/
inductive Opt where
  | dir (path : List UInt8)
  | ko (kospec : List UInt8)
  | flag
  | usage
  deriving DecidableEq

def addDir (dirs : Vec) (dir : List UInt8) : Use Resource Vec :=
  if w.isDir dir then dirs.push sup 256 dir else return dirs

/-- The loop of `getopt`. It is left at once for the usage. -/
def getopts : Vec → Vec → List Opt → Use Resource (Bool × Vec × Vec)
  | dirs, kospec, [] => return (true, dirs, kospec)
  | dirs, kospec, .dir path :: opts => do
      let dirs ← addDir sup w dirs path
      getopts dirs kospec opts
  | dirs, kospec, .ko spec :: opts => do
      let kospec ← kospec.push sup 2 spec
      getopts dirs kospec opts
  | dirs, kospec, .flag :: opts => getopts dirs kospec opts
  | dirs, kospec, .usage :: _ => return (false, dirs, kospec)

/-- The options that are reached, and what they name. -/
def reached (opts : List Opt) : List Opt := opts.takeWhile fun opt => decide (opt ≠ .usage)

def dirsOf (opts : List Opt) : List (List UInt8) :=
  opts.filterMap fun
    | .dir path => some path
    | _ => none

def kospecsOf (opts : List Opt) : List (List UInt8) :=
  opts.filterMap fun
    | .ko kospec => some kospec
    | _ => none

/-- The directories that the program searches. -/
def World.searched (w : World) (opts : List Opt) : List (List UInt8) :=
  (w.cwd.toList ++ dirsOf (reached opts)).filter w.isDir

/-- The registration on the values. -/
def World.hostOf (w : World) (opts : List Opt) : Host := { w.host with dirs := w.searched opts }

def World.registration (w : World) (files : List UInt8 → Option (List UInt8)) (opts : List Opt) :
    InitState := initRun (w.hostOf opts) files (kospecsOf (reached opts))

/-- The path of `fsInit` is freed whether it was used or not. -/
def fsInit : Use Resource Unit := do
  let tmp ← sup.new .block
  release tmp

/-- The result with the directories and the objects. The specifications are freed, but not
on the way to the usage. -/
def gblsInit (opts : List Opt) : Use Resource (ℤ × Vec × Bos) := do
  fsInit sup
  match w.cwd with
  | none => return (-1, .empty, .empty)
  | some cwd =>
      let dirs ← addDir sup w .empty cwd
      let (ok, dirs, kospec) ← getopts sup w dirs .empty opts
      if ok then do
        let (rc, bos) ← addbos sup { w.host with dirs := dirs.items } w.expands .empty kospec.items
        releaseAll kospec.block.toList
        return (rc, dirs, bos)
      else return (-1, dirs, .empty)

def cleanup (dirs : Vec) (bos : Bos) : Use Resource Unit := do
  bosCleanup bos.table bos.recs
  releaseAll dirs.block.toList

/-- `main` behind an initialisation that went through. -/
def process (executable : Option (List UInt8)) (dirs : Vec) (bos : Bos) : Use Resource ℤ := do
  prcExecutable
  if bos.recs = [] then do
    cleanup dirs bos
    return 0
  else if w.kotbl then do
    let kotblf ← sup.new .file
    prcBOs sup w bos.recs
    release kotblf
    cleanup dirs bos
    return 0
  else do
    cleanup dirs bos
    return 1
where
  prcExecutable : Use Resource Unit :=
    match executable with
    | none => return ()
    | some exec => prcExec sup w exec

/-- A run with `-N` among its options; the result is the exit status. The cleanup is
registered behind the initialisation. -/
def main (opts : List Opt) (executable : Option (List UInt8)) : Use Resource ℤ := do
  let (rc, dirs, bos) ← gblsInit sup w opts
  if rc < 0 then return 1 else process sup w executable dirs bos

variable {sup host expands} {own : Multiset Resource}

theorem spec_modnmfromfnm : Spec own (modnmfromfnm sup) fun r o => o = {r} + own := by
  apply (spec_new sup .block).bind
  rintro tmp o rfl
  apply (spec_new sup .block).bind
  rintro modnm o rfl
  apply (spec_release_of ({modnm} + own) tmp (add_left_comm {modnm} {tmp} own)).bind
  rintro - o rfl
  exact spec_pure rfl

theorem spec_newModnm (s : Scan) : Spec own (newModnm sup s) fun r o => o = {r} + own := by
  unfold newModnm
  split_ifs
  · exact spec_modnmfromfnm
  · exact spec_new sup .block

/-- With a bad specification one block stays, which no one can give back. -/
def ParsedAs (kospec : List UInt8) (own : Multiset Resource) (r : Option Parsed)
    (o : Multiset Resource) : Prop :=
  (r = none ∧ Kld.parsekospec kospec = none ∧ ∃ tmp, o = {tmp} + own) ∨
  ∃ p, r = some p ∧ Kld.parsekospec kospec = some p.spec ∧
    o = {p.kldopts} + ({p.modnm} + ({p.kofnm} + own))

theorem spec_parsekospec (kospec : List UInt8) :
    Spec own (parsekospec sup kospec) (ParsedAs kospec own) := by
  apply (spec_new sup .block).bind
  rintro tmp o rfl
  cases hscan : scanCommas (kospec ++ [0]).length 0 ⟨kospec ++ [0], 0, 0, 0⟩ with
  | none => exact spec_pure (.inl ⟨rfl, by rw [Kld.parsekospec, hscan, Option.map_none], tmp, rfl⟩)
  | some s =>
    apply (spec_newModnm s).bind
    rintro modnm o rfl
    apply (spec_new sup .block).bind
    rintro kldopts o rfl
    exact spec_pure (.inr ⟨_, rfl, by rw [Kld.parsekospec, hscan, Option.map_some], rfl⟩)

/-- The descriptor is there also where `realpath` fails. -/
def OpenedKo (host : Host) (kofnm : List UInt8) (own : Multiset Resource)
    (r : Option Resource × Option Path) (o : Multiset Resource) : Prop :=
  (r = (none, none) ∧ Kld.openko host kofnm = none ∧ o = own) ∨
  (∃ fd, r = (some fd, none) ∧ Kld.openko host kofnm = none ∧ o = {fd} + own) ∨
  ∃ fd path block, r = (some fd, some (path, block)) ∧ Kld.openko host kofnm = some path ∧
    o = {block} + ({fd} + own)

theorem spec_openFound {kofnm : List UInt8} {found : Option (List UInt8)}
    (hko : Kld.openko host kofnm = found.bind host.realpath) :
    Spec own (openFound sup host found) (OpenedKo host kofnm own) := by
  cases found with
  | none => exact spec_pure (.inl ⟨rfl, hko, rfl⟩)
  | some path =>
    rw [Option.bind_some] at hko
    apply (spec_new sup .fd).bind
    rintro fd o rfl
    cases hreal : host.realpath path with
    | none => exact spec_pure (.inr (.inl ⟨fd, rfl, hko.trans hreal, rfl⟩))
    | some kofullpath =>
      apply (spec_new sup .block).bind
      rintro block o rfl
      exact spec_pure (.inr (.inr ⟨fd, kofullpath, block, rfl, hko.trans hreal, rfl⟩))

theorem spec_openko (hdirs : host.dirs ≠ []) (kofnm : List UInt8) :
    Spec own (openko sup host kofnm) (OpenedKo host kofnm own) := by
  rw [openko, if_neg hdirs]
  apply (spec_new sup .block).bind
  rintro fullpath o rfl
  apply (spec_openFound rfl).bind
  -- the path is released behind each of the branches
  rintro r o (⟨rfl, hko, rfl⟩ | ⟨fd, rfl, hko, rfl⟩ | ⟨fd, path, block, rfl, hko, rfl⟩)
  · apply (spec_release fullpath).bind
    rintro - o rfl
    exact spec_pure (.inl ⟨rfl, hko, rfl⟩)
  · apply (spec_release_of ({fd} + own) fullpath (add_left_comm {fd} {fullpath} own)).bind
    rintro - o rfl
    exact spec_pure (.inr (.inl ⟨fd, rfl, hko, rfl⟩))
  · apply (spec_release_of ({block} + ({fd} + own)) fullpath (by abel)).bind
    rintro - o rfl
    exact spec_pure (.inr (.inr ⟨fd, path, block, rfl, hko, rfl⟩))

/-- The library is opened for a kernel object with a path, where it can be written. -/
def OpenedSo (host : Host) (kofnm : Option Path) (modnm : List UInt8) (own : Multiset Resource)
    (r : Option (Resource × Path)) (o : Multiset Resource) : Prop :=
  (r = none ∧ (∀ ko ∈ kofnm, ¬ host.writable (soPath ko.1 modnm) = true) ∧ o = own) ∨
  ∃ ko fd block, kofnm = some ko ∧ host.writable (soPath ko.1 modnm) = true ∧
    r = some (fd, soPath ko.1 modnm, block) ∧ o = {block} + ({fd} + own)

theorem spec_openso (kofnm : Option Path) (modnm : List UInt8) :
    Spec own (openso sup host kofnm modnm) (OpenedSo host kofnm modnm own) := by
  apply (spec_new sup .block).bind
  rintro fullpath o rfl
  cases kofnm with
  | none =>
    apply (spec_release fullpath).bind
    rintro - o rfl
    exact spec_pure (.inl ⟨rfl, by simp, rfl⟩)
  | some ko =>
    apply (spec_new sup .block).bind
    rintro tmp o rfl
    unfold openLib
    by_cases hwritable : host.writable (soPath ko.1 modnm) = true
    · rw [if_pos hwritable]
      have hopened : Spec ({tmp} + ({fullpath} + own)) (do
          let fd ← sup.new .fd
          let sofullpath ← sup.new .block
          return some (fd, soPath ko.1 modnm, sofullpath))
          fun r o => ∃ fd block, r = some (fd, soPath ko.1 modnm, block) ∧
            o = {block} + ({fd} + ({tmp} + ({fullpath} + own))) := by
        apply (spec_new sup .fd).bind
        rintro fd o rfl
        apply (spec_new sup .block).bind
        rintro block o rfl
        exact spec_pure ⟨fd, block, rfl, rfl⟩
      apply hopened.bind
      rintro _ _ ⟨fd, block, rfl, rfl⟩
      apply (spec_release_of ({fullpath} + ({block} + ({fd} + own))) tmp (by abel)).bind
      rintro - o rfl
      apply (spec_release fullpath).bind
      rintro - o rfl
      exact spec_pure (.inr ⟨ko, fd, block, rfl, hwritable, rfl, rfl⟩)
    · rw [if_neg hwritable]
      have hrefused : Spec ({tmp} + ({fullpath} + own)) (pure (none : Option (Resource × Path)))
          fun r o => r = none ∧ o = {tmp} + ({fullpath} + own) := spec_pure ⟨rfl, rfl⟩
      apply hrefused.bind
      rintro _ _ ⟨rfl, rfl⟩
      apply (spec_release tmp).bind
      rintro - o rfl
      apply (spec_release fullpath).bind
      rintro - o rfl
      exact spec_pure (.inl ⟨rfl, by simpa using hwritable, rfl⟩)

/-- What the registered objects keep. -/
def owned (bos : List BoRec) : Multiset Resource :=
  (bos.map fun b => (b.owned : Multiset Resource)).sum

/-- With the table. -/
def Bos.owned (bos : Bos) : Multiset Resource :=
  Resources.owned bos.recs + (tableBlocks bos.table : Multiset Resource)

def values (bos : List BoRec) : List Bo := bos.map BoRec.bo

theorem registered_iff {bos : List BoRec} {path : List UInt8} :
    registered bos path = true ↔ path ∈ (values bos).map Bo.kofnm := by
  simp [registered, values]

/-- The call registers an object with all it keeps, or changes nothing; then a copy of the
specification stays behind if there were too many commas. -/
def Added (host : Host) (bos : Bos) (kospec : List UInt8)
    (files : List UInt8 → Option (List UInt8)) (r : ℤ × Bos) (o : Multiset Resource) : Prop :=
  let out := Kld.addbo host ⟨values bos.recs, files⟩ kospec
  out.1 = r.1 ∧ out.2.bos = values r.2.recs ∧
    (r.1 = 0 ∧ o = r.2.owned ∨
      r = (-1, bos) ∧ ((Kld.parsekospec kospec = none ∧ ∃ tmp, o = {tmp} + bos.owned) ∨
        Kld.parsekospec kospec ≠ none ∧ o = bos.owned))

theorem owned_concat (bos : List BoRec) (b : BoRec) :
    owned (bos ++ [b]) = (b.owned : Multiset Resource) + owned bos := by
  simp [owned, add_comm]

/-- Before and after, the table is all there is of it. -/
theorem spec_hashAdd (expand : Bool) (table : Option HashTable) :
    Spec ((tableBlocks table : Multiset Resource) + own)
      (hashAdd sup expand table) fun t o => o = (t.blocks : Multiset Resource) + own := by
  cases table with
  | none =>
    apply (spec_new sup .block).bind
    rintro tbl o rfl
    apply (spec_new sup .block).bind
    rintro buckets o rfl
    apply spec_pure
    simp only [tableBlocks, HashTable.blocks, ← Multiset.cons_coe, ← Multiset.singleton_add,
      Multiset.coe_nil, Option.toList_none, List.flatMap_nil, add_zero]
    abel
  | some t =>
    rw [hashAdd, tableBlocks, Option.toList_some, List.flatMap_singleton]
    by_cases hexpand : expand = true
    · rw [if_pos hexpand]
      apply (spec_new sup .block).bind
      rintro buckets o rfl
      apply (spec_release_of ({t.tbl} + ({buckets} + own)) t.buckets ?_).bind
      · rintro - o rfl
        apply spec_pure
        simp only [HashTable.blocks, ← Multiset.cons_coe, ← Multiset.singleton_add,
          Multiset.coe_nil, add_zero]
        abel
      · simp only [HashTable.blocks, ← Multiset.cons_coe, ← Multiset.singleton_add,
          Multiset.coe_nil, add_zero]
        abel
    · rw [if_neg hexpand]
      exact spec_pure rfl

variable {bos : Bos} {kospec : List UInt8} {files : List UInt8 → Option (List UInt8)}

theorem coe_acquired (p : Parsed) (kofd : Option Resource) (kofullpath : Option Path)
    (so : Option (Resource × Path)) : (acquired p kofd kofullpath so : Multiset Resource) =
      {p.kofnm} + kofd.toList + (so.map Prod.fst).toList + ({p.kldopts} + {p.modnm}) +
        (kofullpath.map Prod.snd).toList + (so.map fun s => s.2.2).toList := by
  simp only [acquired, ← Multiset.coe_add, Multiset.coe_singleton]
  rfl

/-- A failure behind a good specification. -/
theorem spec_failed {p : Parsed} {kofd : Option Resource} {kofullpath : Option Path}
    {so : Option (Resource × Path)} (hspec : Kld.parsekospec kospec = some p.spec)
    (hout : (Kld.addbo host ⟨values bos.recs, files⟩ kospec).1 = -1 ∧
      (Kld.addbo host ⟨values bos.recs, files⟩ kospec).2.bos = values bos.recs)
    (hown : own = (acquired p kofd kofullpath so : Multiset Resource) + bos.owned) :
    Spec own (do
      releaseAll (acquired p kofd kofullpath so)
      return (-1, bos)) (Added host bos kospec files) := by
  subst hown
  apply (spec_releaseAll _).bind
  rintro - o rfl
  apply spec_pure
  exact ⟨hout.1, hout.2, .inr ⟨rfl, .inr ⟨by simp [hspec], rfl⟩⟩⟩

theorem spec_addbo (files : List UInt8 → Option (List UInt8)) (hdirs : host.dirs ≠ []) :
    Spec bos.owned (addbo sup host expands bos kospec) (Added host bos kospec files) := by
  apply (spec_parsekospec kospec).bind
  rintro r o (⟨rfl, hnone, tmp, rfl⟩ | ⟨p, rfl, hspec, rfl⟩)
  · apply spec_pure
    refine ⟨?_, ?_, .inr ⟨rfl, .inl ⟨hnone, tmp, rfl⟩⟩⟩
    · simp [Kld.addbo, hnone]
    · simp [Kld.addbo, hnone]
  · apply (spec_openko hdirs p.spec.fnm).bind
    rintro r o (⟨rfl, hko, rfl⟩ | ⟨fd, rfl, hko, rfl⟩ | ⟨fd, path, block, rfl, hko, rfl⟩)
    · apply spec_failed hspec
      · simp [Kld.addbo, hspec, hko]
      · simp only [coe_acquired, Option.toList_none, Option.map_none, Multiset.coe_nil]
        abel
    · -- `realpath` gave NULL, which `openso` refuses
      apply (spec_openso none p.spec.modnm).bind
      rintro r o (⟨rfl, -, rfl⟩ | ⟨ko, _, _, hnone, -⟩)
      · apply spec_failed hspec
        · simp [Kld.addbo, hspec, hko]
        · simp only [coe_acquired, Option.toList_none, Option.map_none, Multiset.coe_nil,
            Option.toList_some, Multiset.coe_singleton]
          abel
      · cases hnone
    · apply (spec_openso (some (path, block)) p.spec.modnm).bind
      rintro r o (⟨rfl, hso, rfl⟩ | ⟨ko, sofd, sofullpath, hsome, hso, rfl, rfl⟩)
      · have hnot := hso (path, block) rfl
        apply spec_failed hspec
        · simp [Kld.addbo, hspec, hko, Kld.openso, hnot]
        · simp only [coe_acquired, Option.toList_none, Option.map_none, Multiset.coe_nil,
            Option.toList_some, Option.map_some, Multiset.coe_singleton]
          abel
      · obtain rfl := Option.some.inj hsome
        dsimp only
        by_cases hmem : path ∈ (values bos.recs).map Bo.kofnm
        · rw [if_pos (registered_iff.mpr hmem)]
          apply spec_failed hspec
          · simp only [Kld.addbo, hspec, hko, Kld.openso, if_pos hso, if_pos hmem, and_self]
          · simp only [coe_acquired, Option.toList_some, Option.map_some, Multiset.coe_singleton]
            abel
        · rw [if_neg (mt registered_iff.mp hmem)]
          apply (spec_new sup .block).bind
          rintro self o rfl
          -- the table is among what the objects keep
          have htable : Spec ({self} + ({sofullpath} + ({sofd} + ({block} + ({fd} +
              ({p.kldopts} + ({p.modnm} + ({p.kofnm} + bos.owned))))))))
              (hashAdd sup (expands (bos.recs.map BoRec.bo)) bos.table) fun t o =>
                o = (t.blocks : Multiset Resource) + ({self} + ({sofullpath} + ({sofd} + ({block} +
                  ({fd} + ({p.kldopts} + ({p.modnm} + ({p.kofnm} + owned bos.recs)))))))) :=
            (spec_hashAdd _ bos.table).of_eq (by rw [Bos.owned]; abel)
          apply htable.bind
          rintro table o rfl
          apply (spec_release_of ((table.blocks : Multiset Resource) + ({self} + ({sofullpath} +
            ({sofd} + ({block} + ({fd} + ({p.kldopts} + ({p.modnm} + owned bos.recs))))))))
            p.kofnm (by abel)).bind
          rintro - o rfl
          apply spec_pure
          refine ⟨?_, ?_, .inl ⟨rfl, ?_⟩⟩
          · simp only [Kld.addbo, hspec, hko, Kld.openso, if_pos hso, if_neg hmem]
          · simp only [Kld.addbo, hspec, hko, Kld.openso, if_pos hso, if_neg hmem]
            simp [values]
          · simp only [Bos.owned, tableBlocks, Option.toList_some, List.flatMap_singleton]
            rw [owned_concat]
            simp only [BoRec.owned, ← Multiset.cons_coe, ← Multiset.singleton_add,
              Multiset.coe_nil, add_zero]
            abel

/-- No specification that is reached has too many commas. -/
def GoodSpecs (host : Host) (s : InitState) (kospecs : List (List UInt8)) : Prop :=
  Guarded (initStep host) (fun s kospec => 0 ≤ s.rc → Kld.parsekospec kospec ≠ none) s kospecs

instance (host : Host) (s : InitState) (kospecs : List (List UInt8)) :
    Decidable (GoodSpecs host s kospecs) :=
  have (s : InitState) (kospec : List UInt8) :
      Decidable (0 ≤ s.rc → Kld.parsekospec kospec ≠ none) := inferInstance
  instDecidableGuarded s kospecs

theorem runFrom_of_neg {s : InitState} (h : s.rc < 0) (kospecs : List (List UInt8)) :
    runFrom (initStep host) s kospecs = s := by
  induction kospecs with
  | nil => rfl
  | cons kospec kospecs ih => rw [runFrom_cons, initStep_of_neg h, ih]

theorem goodSpecs_of_neg {s : InitState} (h : s.rc < 0) (kospecs : List (List UInt8)) :
    GoodSpecs host s kospecs := by
  induction kospecs with
  | nil => trivial
  | cons kospec kospecs ih =>
    refine ⟨fun hle => absurd h (Int.not_lt.mpr hle), ?_⟩
    rw [initStep_of_neg h]
    exact ih

/-- A bad specification ends the loop with a failure. -/
theorem goodSpecs_of_nonneg {s : InitState} {kospecs : List (List UInt8)}
    (h : 0 ≤ (runFrom (initStep host) s kospecs).rc) : GoodSpecs host s kospecs := by
  induction kospecs generalizing s with
  | nil => trivial
  | cons kospec kospecs ih =>
    rw [runFrom_cons] at h
    refine ⟨fun hle hnone => ?_, ih h⟩
    have hneg : (initStep host s kospec).rc < 0 := by
      rw [initStep_of_nonneg hle, Kld.addbo, hnone]
      exact Int.negSucc_lt_zero 0
    rw [runFrom_of_neg hneg] at h
    exact absurd hneg (Int.not_lt.mpr h)

/-- The loop registers what it does on the values, and no more is kept than the registered
objects need, but for the copy of one bad specification. -/
def AddedAll (host : Host) (s : InitState) (kospecs : List (List UInt8)) (r : ℤ × Bos)
    (o : Multiset Resource) : Prop :=
  (runFrom (initStep host) s kospecs).rc = r.1 ∧
    (runFrom (initStep host) s kospecs).gbls.bos = values r.2.recs ∧
    (GoodSpecs host s kospecs ∧ o = r.2.owned ∨
      ¬ GoodSpecs host s kospecs ∧ ∃ tmp, o = {tmp} + r.2.owned)

theorem spec_addbos (hdirs : host.dirs ≠ []) (bos : Bos)
    (files : List UInt8 → Option (List UInt8)) (kospecs : List (List UInt8)) :
    Spec bos.owned (addbos sup host expands bos kospecs)
      (AddedAll host ⟨⟨values bos.recs, files⟩, 0⟩ kospecs) := by
  induction kospecs generalizing bos files with
  | nil => exact spec_pure ⟨rfl, rfl, .inl ⟨trivial, rfl⟩⟩
  | cons kospec kospecs ih =>
    have hstep : initStep host ⟨⟨values bos.recs, files⟩, 0⟩ kospec =
        ⟨(Kld.addbo host ⟨values bos.recs, files⟩ kospec).2,
          (Kld.addbo host ⟨values bos.recs, files⟩ kospec).1⟩ :=
      initStep_of_nonneg (le_refl 0) kospec
    apply (spec_addbo files hdirs).bind
    rintro ⟨rc, bos'⟩ o ⟨hrc, hbos, ⟨hzero, rfl⟩ | ⟨heq, hown⟩⟩
    · obtain rfl : rc = 0 := hzero
      have hgood : Kld.parsekospec kospec ≠ none := by
        intro hnone
        simp [Kld.addbo, hnone] at hrc
      have hnext : initStep host ⟨⟨values bos.recs, files⟩, 0⟩ kospec =
          ⟨⟨values bos'.recs, (Kld.addbo host ⟨values bos.recs, files⟩ kospec).2.files⟩, 0⟩ := by
        rw [hstep, hrc, ← hbos]
      have hiff : GoodSpecs host ⟨⟨values bos.recs, files⟩, 0⟩ (kospec :: kospecs) ↔
          GoodSpecs host (initStep host ⟨⟨values bos.recs, files⟩, 0⟩ kospec) kospecs :=
        and_iff_right fun _ => hgood
      apply (ih bos' (Kld.addbo host ⟨values bos.recs, files⟩ kospec).2.files).mono
      rintro r o hall
      rw [← hnext] at hall
      unfold AddedAll
      rw [hiff, runFrom_cons]
      exact hall
    · obtain ⟨rfl, rfl⟩ := Prod.mk.inj heq
      have hneg : (initStep host ⟨⟨values bos'.recs, files⟩, 0⟩ kospec).rc < 0 := by
        rw [hstep, hrc]
        exact Int.negSucc_lt_zero 0
      have hiff : GoodSpecs host ⟨⟨values bos'.recs, files⟩, 0⟩ (kospec :: kospecs) ↔
          Kld.parsekospec kospec ≠ none := by
        constructor
        · exact fun h => h.1 (le_refl 0)
        · exact fun h => ⟨fun _ => h, goodSpecs_of_neg hneg kospecs⟩
      apply spec_pure
      unfold AddedAll
      rw [hiff, runFrom_cons, runFrom_of_neg hneg, hstep]
      refine ⟨hrc, hbos, ?_⟩
      rcases hown with ⟨hnone, htmp⟩ | ⟨hgood, howned⟩
      · exact .inr ⟨fun hgood => hgood hnone, htmp⟩
      · exact .inl ⟨hgood, howned⟩

/-- From the beginning: what is left beside the objects is at most one block. -/
theorem spec_addbos_empty (hdirs : host.dirs ≠ []) (files : List UInt8 → Option (List UInt8))
    (kospecs : List (List UInt8)) :
    Spec 0 (addbos sup host expands .empty kospecs) fun r o =>
      r.1 = (initRun host files kospecs).rc ∧
        values r.2.recs = (initRun host files kospecs).gbls.bos ∧
        ∃ left, o = left + r.2.owned ∧
          left.card = if GoodSpecs host ⟨⟨[], files⟩, 0⟩ kospecs then 0 else 1 := by
  have hempty : (0 : Multiset Resource) = Bos.empty.owned := by
    simp [Bos.owned, Bos.empty, owned, tableBlocks]
  have hall : Spec 0 (addbos sup host expands .empty kospecs)
      (AddedAll host ⟨⟨[], files⟩, 0⟩ kospecs) :=
    (spec_addbos hdirs .empty files kospecs).of_eq hempty
  apply hall.mono
  rintro r o ⟨hrc, hbos, hown⟩
  refine ⟨hrc.symm, hbos.symm, ?_⟩
  rcases hown with ⟨hgood, rfl⟩ | ⟨hbad, tmp, rfl⟩
  · exact ⟨0, (zero_add _).symm, by rw [if_pos hgood]; rfl⟩
  · exact ⟨{tmp}, rfl, by rw [if_neg hbad]; rfl⟩

/-- The objects from some place to the last one, and the table. -/
theorem spec_bosCleanup_cons (table : Option HashTable) (b : BoRec) (bos : List BoRec) :
    Spec (owned (b :: bos) + (tableBlocks table : Multiset Resource) + own)
      (bosCleanup table (b :: bos)) fun _ o => o = own := by
  have hcons (b : BoRec) (bos : List BoRec) :
      owned (b :: bos) = (b.owned : Multiset Resource) + owned bos := by simp [owned]
  induction bos generalizing b with
  | nil =>
    rw [bosCleanup, List.isEmpty_nil, if_pos rfl]
    apply (spec_releaseAll_of ((b.owned : Multiset Resource) + own) _ ?_).bind
    · rintro - o rfl
      apply (spec_releaseAll_of own b.owned rfl).bind
      rintro - o rfl
      exact spec_pure rfl
    · rw [hcons, owned, List.map_nil, List.sum_nil]
      abel
  | cons next bos ih =>
    rw [bosCleanup, List.isEmpty_cons, if_neg Bool.false_ne_true]
    have hnone : Spec (owned (b :: next :: bos) +
        (tableBlocks table : Multiset Resource) + own) (releaseAll [])
        fun _ o => o = owned (b :: next :: bos) +
          (tableBlocks table : Multiset Resource) + own := spec_pure rfl
    apply hnone.bind
    rintro - o rfl
    apply (spec_releaseAll_of (owned (next :: bos) +
      (tableBlocks table : Multiset Resource) + own) b.owned ?_).bind
    · rintro - o rfl
      exact ih next
    · rw [hcons]
      abel

theorem spec_bosCleanup (bos : Bos) :
    Spec (bos.owned + own) (bosCleanup bos.table bos.recs) fun _ o => o = own := by
  rw [Bos.owned]
  cases hrecs : bos.recs with
  | nil =>
    have hnone := bos.table_eq_none_iff.mpr hrecs
    rw [hnone]
    exact spec_pure (by simp [owned, tableBlocks])
  | cons b rest => exact spec_bosCleanup_cons bos.table b rest

/-- An array has a block once something is in it. -/
def Vec.Blocked (v : Vec) : Prop :=
  (v.items = [] → v.max = 0 ∧ v.block = none) ∧ (v.items ≠ [] → v.block.isSome)

theorem Vec.blocked_empty : Vec.empty.Blocked := ⟨fun _ => ⟨rfl, rfl⟩, fun h => absurd rfl h⟩

theorem Vec.Blocked.card {v : Vec} (h : v.Blocked) :
    (v.block.toList : Multiset Resource).card = if v.items = [] then 0 else 1 := by
  by_cases hnil : v.items = []
  · rw [if_pos hnil, (h.1 hnil).2]
    rfl
  · obtain ⟨block, hblock⟩ := Option.isSome_iff_exists.mp (h.2 hnil)
    rw [if_neg hnil, hblock]
    rfl

theorem spec_realloc (old : Option Resource) :
    Spec ((old.toList : Multiset Resource) + own) (realloc sup old) fun r o => o = {r} + own := by
  apply (spec_new sup .block).bind
  rintro new o rfl
  apply (spec_releaseAll_of ({new} + own) old.toList (by abel)).bind
  rintro - o rfl
  exact spec_pure rfl

theorem spec_push {v : Vec} (h : v.Blocked) (first : ℕ) (item : List UInt8) :
    Spec ((v.block.toList : Multiset Resource) + own) (v.push sup first item) fun v' o =>
      v'.Blocked ∧ v'.items = v.items ++ [item] ∧
        o = (v'.block.toList : Multiset Resource) + own := by
  unfold Vec.push
  by_cases hfull : v.items.length = v.max
  · rw [if_pos hfull]
    apply (spec_realloc v.block).bind
    rintro block o rfl
    exact spec_pure ⟨⟨by simp, fun _ => rfl⟩, rfl, rfl⟩
  · rw [if_neg hfull]
    have hne : v.items ≠ [] := by
      intro hnil
      rw [hnil, (h.1 hnil).1] at hfull
      exact hfull rfl
    exact spec_pure ⟨⟨by simp, fun _ => h.2 hne⟩, rfl, rfl⟩

theorem spec_newAll (kind : Kind) (n : ℕ) :
    Spec own (newAll sup kind n) fun rs o => o = (rs : Multiset Resource) + own := by
  induction n generalizing own with
  | zero => exact spec_pure (by simp)
  | succ n ih =>
    apply (spec_new sup kind).bind
    rintro r o rfl
    apply ih.bind
    rintro rs o rfl
    apply spec_pure
    rw [← Multiset.cons_coe, ← Multiset.singleton_add, add_left_comm, add_assoc]

/-- Some descriptors more than before. -/
def Lost (n : ℕ) (own o : Multiset Resource) : Prop :=
  ∃ lost : Multiset Resource, o = lost + own ∧ lost.card = n ∧ ∀ r ∈ lost, r.1 = .fd

theorem lost_zero (own : Multiset Resource) : Lost 0 own own :=
  ⟨0, (zero_add own).symm, rfl, by simp⟩

theorem Lost.trans {m n : ℕ} {own o o' : Multiset Resource} (h : Lost m own o)
    (h' : Lost n o o') : Lost (m + n) own o' := by
  obtain ⟨lost, rfl, hcard, hfd⟩ := h
  obtain ⟨lost', rfl, hcard', hfd'⟩ := h'
  refine ⟨lost' + lost, (add_assoc _ _ _).symm, ?_, ?_⟩
  · rw [Multiset.card_add, hcard, hcard', Nat.add_comm]
  · intro r hr
    rcases Multiset.mem_add.mp hr with hr | hr
    · exact hfd' r hr
    · exact hfd r hr

theorem spec_elfGenerate {generated : Generated} (hgen : generated ≠ .failed) :
    Spec own (elfGenerate sup generated) fun r o => ∃ mfd map, r = some (mfd, map) ∧ mfd.1 = .fd ∧
      (map = none ↔ generated = .unmapped) ∧
        o = (map.toList : Multiset Resource) + ({mfd} + own) := by
  have hnew : Spec own (sup.new .fd) fun r o => r.1 = .fd ∧ o = {r} + own :=
    spec_acquire_of (P := fun r : Resource => r.1 = .fd) fun _ => rfl
  cases generated with
  | failed => exact absurd rfl hgen
  | unmapped =>
    apply hnew.bind
    rintro mfd o ⟨hmfd, rfl⟩
    apply (spec_new sup .elf).bind
    rintro elf o rfl
    apply (spec_newAll .block 6).bind
    rintro tables o rfl
    apply (spec_release_of (Multiset.ofList tables + ({mfd} + own)) elf (by abel)).bind
    rintro - o rfl
    apply (spec_releaseAll tables).bind
    rintro - o rfl
    exact spec_pure ⟨mfd, none, rfl, hmfd, by simp, by simp⟩
  | mapped =>
    apply hnew.bind
    rintro mfd o ⟨hmfd, rfl⟩
    apply (spec_new sup .elf).bind
    rintro elf o rfl
    apply (spec_newAll .block 6).bind
    rintro tables o rfl
    apply (spec_release_of (Multiset.ofList tables + ({mfd} + own)) elf (by abel)).bind
    rintro - o rfl
    apply (spec_new sup .map).bind
    rintro map o rfl
    apply (spec_releaseAll_of ({map} + ({mfd} + own)) tables (by abel)).bind
    rintro - o rfl
    exact spec_pure ⟨mfd, some map, rfl, hmfd, by simp, by simp⟩

/-- Where the mapping fails, the memory file stays open. -/
theorem spec_writeso {generated : Generated} (hgen : generated ≠ .failed) :
    Spec own (writeso sup generated)
      fun _ o => Lost (if generated = .unmapped then 1 else 0) own o := by
  apply (spec_elfGenerate hgen).bind
  rintro _ _ ⟨mfd, map, rfl, hmfd, hmap, rfl⟩
  cases map with
  | none =>
    rw [if_pos (hmap.mp rfl)]
    exact spec_pure ⟨{mfd}, by simp, rfl, by simpa using hmfd⟩
  | some map =>
    rw [if_neg fun h => by simpa using hmap.mpr h]
    apply (spec_release map).bind
    rintro - o rfl
    apply (spec_release mfd).mono
    rintro - o rfl
    exact lost_zero _

/-- The object's library is generated, and cannot be mapped. -/
def World.loses (w : World) (bo : Bo) : Bool :=
  match w.read bo.kofnm with
  | .symbols _ => w.generate bo.sofnm = .unmapped
  | _ => false

theorem spec_prcBO {b : BoRec} (hgen : w.generate b.bo.sofnm ≠ .failed) :
    Spec own (prcBO sup w b) fun _ o => Lost (if w.loses b.bo then 1 else 0) own o := by
  unfold prcBO World.loses
  cases w.read b.bo.kofnm with
  | noHandle => exact spec_pure (lost_zero own)
  | notElf =>
    apply (spec_new sup .elf).bind
    rintro elf o rfl
    apply (spec_release elf).mono
    rintro - o rfl
    exact lost_zero _
  | symbols n =>
    apply (spec_new sup .elf).bind
    rintro elf o rfl
    apply (spec_newAll .block n).bind
    rintro names o rfl
    apply (spec_newAll .block (min n 1)).bind
    rintro ents o rfl
    apply (spec_release_of (Multiset.ofList names + (Multiset.ofList ents + own)) elf
      (by abel)).bind
    rintro - o rfl
    apply (spec_writeso hgen).bind
    rintro - _ ⟨lost, rfl, hcard, hfd⟩
    apply (spec_releaseAll_of (Multiset.ofList ents + (lost + own)) names (by abel)).bind
    rintro - o rfl
    apply (spec_releaseAll ents).mono
    rintro - o rfl
    refine ⟨lost, rfl, ?_, hfd⟩
    rw [hcard]
    simp

theorem spec_prcBOs {bos : List BoRec} (hgen : ∀ b ∈ bos, w.generate b.bo.sofnm ≠ .failed) :
    Spec own (prcBOs sup w bos) fun _ o => Lost ((values bos).countP w.loses) own o := by
  induction bos generalizing own with
  | nil => exact spec_pure (lost_zero own)
  | cons b bos ih =>
    have hcount : (values (b :: bos)).countP w.loses =
        (if w.loses b.bo then 1 else 0) + (values bos).countP w.loses := by
      rw [values, List.map_cons, List.countP_cons, Nat.add_comm]
      rfl
    rw [hcount]
    apply (spec_prcBO w (hgen b List.mem_cons_self)).bind
    rintro - o hlost
    apply (ih fun b' hb' => hgen b' (List.mem_cons_of_mem b hb')).mono
    exact fun _ _ => hlost.trans

theorem spec_prcExec (exec : List UInt8) : Spec own (prcExec sup w exec) fun _ o => o = own := by
  have hopen := (spec_elfOpenSecdata sup (w.exec exec) .closed (some exec)
    (some (ascii ".kotbl")) none).frame own
  apply (hopen.of_eq (by simp)).bind
  rintro ⟨rc, sd⟩ _ ⟨o, ⟨data, elf, sfd, heq, -, rfl, -⟩ | ⟨hneg, -, rfl, -⟩, rfl⟩
  · obtain ⟨rfl, rfl⟩ := Prod.mk.inj heq
    dsimp only
    rw [if_pos (le_refl 0)]
    have hclose (sd : SectionData) : Spec ((sd.owned : Multiset Resource) + own)
        (elfCloseSecdata sd) fun sd' o => sd' = .closed ∧ o = own := spec_elfCloseSecdata sd
    apply Spec.bind ((hclose ⟨some data, some elf, some sfd⟩).of_eq rfl)
    rintro _ _ ⟨-, rfl⟩
    exact spec_pure rfl
  · dsimp only
    rw [if_neg (Int.not_le.mpr hneg)]
    exact spec_pure (by simp)

theorem coe_flatMap_owned (bos : List BoRec) :
    owned bos = (bos.flatMap BoRec.owned : List Resource) := by
  induction bos with
  | nil => rfl
  | cons b bos ih =>
    rw [List.flatMap_cons, ← Multiset.coe_add, ← ih]
    rfl

theorem card_owned (bos : List BoRec) : (owned bos).card = 7 * bos.length := by
  induction bos with
  | nil => rfl
  | cons b bos ih =>
    have hcons : owned (b :: bos) = (b.owned : Multiset Resource) + owned bos := rfl
    rw [hcons, Multiset.card_add, ih, List.length_cons, Multiset.coe_card]
    simp only [BoRec.owned, List.length_cons, List.length_nil]
    omega

theorem Bos.card_owned (bos : Bos) :
    bos.owned.card = 7 * bos.recs.length + if bos.recs = [] then 0 else 2 := by
  rw [Bos.owned, Multiset.card_add, Resources.card_owned, Multiset.coe_card, tableBlocks]
  by_cases hrecs : bos.recs = []
  · rw [if_pos hrecs, bos.table_eq_none_iff.mpr hrecs]
    rfl
  · obtain ⟨table, htable⟩ := Option.ne_none_iff_exists'.mp (mt bos.table_eq_none_iff.mp hrecs)
    rw [if_neg hrecs, htable]
    rfl

theorem spec_addDir {dirs : Vec} (h : dirs.Blocked) (dir : List UInt8) :
    Spec ((dirs.block.toList : Multiset Resource) + own) (addDir sup w dirs dir) fun dirs' o =>
      dirs'.Blocked ∧ dirs'.items = dirs.items ++ [dir].filter w.isDir ∧
        o = (dirs'.block.toList : Multiset Resource) + own := by
  unfold addDir
  by_cases hdir : w.isDir dir = true
  · rw [if_pos hdir, List.filter_cons_of_pos hdir, List.filter_nil]
    exact spec_push h 256 dir
  · rw [if_neg hdir, List.filter_cons_of_neg hdir, List.filter_nil]
    exact spec_pure ⟨h, (List.append_nil _).symm, rfl⟩

/-- Both arrays hold what the options up to the usage name. -/
theorem spec_getopts {dirs kospec : Vec} (hdirs : dirs.Blocked) (hkospec : kospec.Blocked)
    (opts : List Opt) :
    Spec ((dirs.block.toList : Multiset Resource) + (kospec.block.toList : Multiset Resource))
      (getopts sup w dirs kospec opts) fun r o =>
        (r.1 = true ↔ .usage ∉ opts) ∧ r.2.1.Blocked ∧ r.2.2.Blocked ∧
          r.2.1.items = dirs.items ++ (dirsOf (reached opts)).filter w.isDir ∧
          r.2.2.items = kospec.items ++ kospecsOf (reached opts) ∧
          o = (r.2.1.block.toList : Multiset Resource) +
            (r.2.2.block.toList : Multiset Resource) := by
  induction opts generalizing dirs kospec with
  | nil =>
    refine spec_pure ⟨by simp, hdirs, hkospec, ?_, ?_, rfl⟩
    · simp [reached, dirsOf]
    · simp [reached, kospecsOf]
  | cons opt opts ih =>
    cases opt with
    | usage =>
      refine spec_pure ⟨by simp, hdirs, hkospec, ?_, ?_, rfl⟩
      · simp [reached, dirsOf]
      · simp [reached, kospecsOf]
    | flag =>
      apply (ih hdirs hkospec).mono
      rintro r o ⟨hok, hd, hk, hditems, hkitems, ho⟩
      refine ⟨by simpa using hok, hd, hk, ?_, ?_, ho⟩
      · simpa [reached, dirsOf] using hditems
      · simpa [reached, kospecsOf] using hkitems
    | dir path =>
      apply (spec_addDir w hdirs path).bind
      rintro dirs' o ⟨hdirs', hitems, rfl⟩
      apply (ih hdirs' hkospec).mono
      rintro r o ⟨hok, hd, hk, hditems, hkitems, ho⟩
      rw [hitems, List.append_assoc, ← List.filter_append] at hditems
      refine ⟨by simpa using hok, hd, hk, ?_, ?_, ho⟩
      · simpa [reached, dirsOf] using hditems
      · simpa [reached, kospecsOf] using hkitems
    | ko spec =>
      have hpush : Spec
          ((dirs.block.toList : Multiset Resource) + (kospec.block.toList : Multiset Resource))
          (kospec.push sup 2 spec) fun kospec' o =>
            kospec'.Blocked ∧ kospec'.items = kospec.items ++ [spec] ∧
              o = (kospec'.block.toList : Multiset Resource) +
                (dirs.block.toList : Multiset Resource) :=
        (spec_push hkospec 2 spec).of_eq (add_comm _ _)
      apply hpush.bind
      rintro kospec' o ⟨hkospec', hitems, rfl⟩
      apply Spec.mono ((ih hdirs hkospec').of_eq (add_comm _ _))
      rintro r o ⟨hok, hd, hk, hditems, hkitems, ho⟩
      rw [hitems, List.append_assoc] at hkitems
      refine ⟨by simpa using hok, hd, hk, ?_, ?_, ho⟩
      · simpa [reached, dirsOf] using hditems
      · simpa [reached, kospecsOf] using hkitems

variable {files : List UInt8 → Option (List UInt8)} {opts : List Opt}

/-- What the initialisation leaves: nothing without a current directory; the arrays on the
way to the usage; else the directories, the objects, and the copy of a bad
specification. -/
def Initialised (w : World) (files : List UInt8 → Option (List UInt8)) (opts : List Opt)
    (r : ℤ × Vec × Bos) (o : Multiset Resource) : Prop :=
  if w.cwd = none then r.1 < 0 ∧ o = 0
  else if .usage ∈ opts then
    r.1 < 0 ∧ o.card = 1 + if kospecsOf (reached opts) = [] then 0 else 1
  else
    r.1 = (w.registration files opts).rc ∧
      values r.2.2.recs = (w.registration files opts).gbls.bos ∧
      ∃ left, o = (r.2.1.block.toList : Multiset Resource) + (left + r.2.2.owned) ∧
        (r.2.1.block.toList : Multiset Resource).card = 1 ∧
        left.card =
          if GoodSpecs (w.hostOf opts) ⟨⟨[], files⟩, 0⟩ (kospecsOf (reached opts)) then 0 else 1

theorem spec_gblsInit (hdirs : w.cwd ≠ none → w.searched opts ≠ [])
    (files : List UInt8 → Option (List UInt8)) :
    Spec 0 (gblsInit sup w opts) (Initialised w files opts) := by
  have hfs : Spec 0 (fsInit sup) fun _ o => o = 0 := by
    apply (spec_new sup .block).bind
    rintro tmp o rfl
    exact spec_release tmp
  apply hfs.bind
  rintro - o rfl
  unfold Initialised
  cases hcwd : w.cwd with
  | none => exact spec_pure ⟨Int.negSucc_lt_zero 0, rfl⟩
  | some cwd =>
    have hsearched : w.searched opts =
        [cwd].filter w.isDir ++ (dirsOf (reached opts)).filter w.isDir := by
      rw [World.searched, hcwd, Option.toList_some, List.filter_append]
    have hne : w.searched opts ≠ [] := hdirs (by simp [hcwd])
    simp only [if_neg (Option.some_ne_none cwd)]
    have hadd : Spec 0 (addDir sup w .empty cwd) fun dirs o => dirs.Blocked ∧
        dirs.items = [cwd].filter w.isDir ∧ o = (dirs.block.toList : Multiset Resource) + 0 :=
      (spec_addDir w Vec.blocked_empty cwd).of_eq (by simp [Vec.empty])
    apply hadd.bind
    rintro dirs o ⟨hblocked, hitems, rfl⟩
    apply Spec.bind ((spec_getopts w hblocked Vec.blocked_empty opts).of_eq (by simp [Vec.empty]))
    rintro ⟨ok, dirs', kospec⟩ o ⟨hok, hdirs', hkospec, hditems, hkitems, rfl⟩
    rw [hitems, ← hsearched] at hditems
    have hkitems' : kospec.items = kospecsOf (reached opts) := by simpa [Vec.empty] using hkitems
    have hcard : (dirs'.block.toList : Multiset Resource).card = 1 := by
      rw [hdirs'.card, if_neg (by rw [hditems]; exact hne)]
    by_cases husage : .usage ∈ opts
    · have hfalse : ok = false := by simpa [husage] using hok
      subst hfalse
      apply spec_pure
      rw [if_pos husage, Multiset.card_add, hcard, hkospec.card, hkitems']
      exact ⟨Int.negSucc_lt_zero 0, rfl⟩
    · have htrue : ok = true := hok.mpr husage
      subst htrue
      have hhost : { w.host with dirs := dirs'.items } = w.hostOf opts := by
        rw [hditems]
        rfl
      have hne' : (w.hostOf opts).dirs ≠ [] := hne
      dsimp only
      rw [if_pos rfl, hhost, hkitems', ← zero_add ((dirs'.block.toList : Multiset Resource) +
        (kospec.block.toList : Multiset Resource))]
      apply (spec_addbos_empty hne' files (kospecsOf (reached opts))).bind_frame
      rintro ⟨rc, bos⟩ o ⟨hrc, hbos, left, rfl, hleft⟩
      apply (spec_releaseAll_of ((dirs'.block.toList : Multiset Resource) + (left + bos.owned))
        kospec.block.toList (by abel)).bind
      rintro - o rfl
      apply spec_pure
      rw [if_neg husage]
      exact ⟨hrc, hbos, left, rfl, hcard, hleft⟩

theorem spec_cleanup (dirs : Vec) (bos : Bos) :
    Spec ((dirs.block.toList : Multiset Resource) + bos.owned + own) (cleanup dirs bos)
      fun _ o => o = own := by
  have hbos : Spec ((dirs.block.toList : Multiset Resource) + bos.owned + own)
      (bosCleanup bos.table bos.recs)
      fun _ o => o = (dirs.block.toList : Multiset Resource) + own :=
    (spec_bosCleanup bos).of_eq (by abel)
  apply hbos.bind
  rintro - o rfl
  exact spec_releaseAll dirs.block.toList

/-- What a run leaves: what the initialisation does where it fails, or the descriptors of
the memory files that could not be mapped. -/
def Leaves (w : World) (files : List UInt8 → Option (List UInt8)) (opts : List Opt)
    (status : ℤ) (o : Multiset Resource) : Prop :=
  let s := w.registration files opts
  if w.cwd = none then status = 1 ∧ o = 0
  else if .usage ∈ opts then
    status = 1 ∧ o.card = 1 + if kospecsOf (reached opts) = [] then 0 else 1
  else if s.rc < 0 then
    status = 1 ∧ o.card = 1 + (7 * s.gbls.bos.length + if s.gbls.bos = [] then 0 else 2) +
      if GoodSpecs (w.hostOf opts) ⟨⟨[], files⟩, 0⟩ (kospecsOf (reached opts)) then 0 else 1
  else
    (status = 0 ↔ s.gbls.bos = [] ∨ w.kotbl = true) ∧
      Lost (if w.kotbl then s.gbls.bos.countP w.loses else 0) 0 o

theorem spec_process {dirs : Vec} {bos : Bos}
    (hgen : ∀ b ∈ bos.recs, w.generate b.bo.sofnm ≠ .failed) (executable : Option (List UInt8)) :
    Spec ((dirs.block.toList : Multiset Resource) + bos.owned) (process sup w executable dirs bos)
      fun status o => (status = 0 ↔ values bos.recs = [] ∨ w.kotbl = true) ∧
        Lost (if w.kotbl then (values bos.recs).countP w.loses else 0) 0 o := by
  have hclean : Spec ((dirs.block.toList : Multiset Resource) + bos.owned) (cleanup dirs bos)
      fun _ o => o = 0 := (spec_cleanup dirs bos).of_eq (add_zero _).symm
  have hexec (own : Multiset Resource) :
      Spec own (process.prcExecutable sup w executable) fun _ o => o = own := by
    unfold process.prcExecutable
    cases executable with
    | none => exact spec_pure rfl
    | some exec => exact spec_prcExec w exec
  apply (hexec _).bind
  rintro - o rfl
  by_cases hnil : bos.recs = []
  · rw [if_pos hnil]
    apply hclean.bind
    rintro - o rfl
    apply spec_pure
    refine ⟨by simp [values, hnil], ?_⟩
    rw [hnil, values, List.map_nil, List.countP_nil, ite_self]
    exact lost_zero 0
  · have hvalues : values bos.recs ≠ [] := by simpa [values] using hnil
    rw [if_neg hnil]
    by_cases hkotbl : w.kotbl = true
    · simp only [if_pos hkotbl]
      apply (spec_new sup .file).bind
      rintro kotblf o rfl
      apply (spec_prcBOs w hgen).bind
      rintro - _ ⟨lost, rfl, hcard, hfd⟩
      apply (spec_release_of ((dirs.block.toList : Multiset Resource) + bos.owned + lost) kotblf
        (by abel)).bind
      rintro - o rfl
      apply (spec_cleanup dirs bos).bind
      rintro - o rfl
      exact spec_pure ⟨by simp [hkotbl], o, (add_zero o).symm, hcard, hfd⟩
    · simp only [if_neg hkotbl]
      apply hclean.bind
      rintro - o rfl
      exact spec_pure ⟨by simp [hvalues, hkotbl], lost_zero 0⟩

theorem spec_main (sup : Supply) (hdirs : w.cwd ≠ none → w.searched opts ≠ [])
    (files : List UInt8 → Option (List UInt8))
    (hgen : ∀ bo ∈ (w.registration files opts).gbls.bos, w.generate bo.sofnm ≠ .failed)
    (executable : Option (List UInt8)) :
    Spec 0 (main sup w opts executable) (Leaves w files opts) := by
  apply (spec_gblsInit w hdirs files).bind
  rintro ⟨rc, dirs, bos⟩ o hinit
  unfold Initialised at hinit
  unfold Leaves
  dsimp only at hinit ⊢
  by_cases hcwd : w.cwd = none
  · rw [if_pos hcwd] at hinit
    rw [if_pos hinit.1]
    apply spec_pure
    rw [if_pos hcwd]
    exact ⟨rfl, hinit.2⟩
  · rw [if_neg hcwd] at hinit
    by_cases husage : .usage ∈ opts
    · rw [if_pos husage] at hinit
      rw [if_pos hinit.1]
      apply spec_pure
      rw [if_neg hcwd, if_pos husage]
      exact ⟨rfl, hinit.2⟩
    · rw [if_neg husage] at hinit
      obtain ⟨rfl, hbos, left, rfl, hblock, hleft⟩ := hinit
      simp only [if_neg hcwd, if_neg husage, ← hbos]
      by_cases hneg : (w.registration files opts).rc < 0
      · rw [if_pos hneg]
        apply spec_pure
        rw [if_pos hneg]
        refine ⟨rfl, ?_⟩
        simp only [Multiset.card_add, hblock, hleft, bos.card_owned, values, List.length_map,
          List.map_eq_nil_iff]
        omega
      · have hgood : GoodSpecs (w.hostOf opts) ⟨⟨[], files⟩, 0⟩ (kospecsOf (reached opts)) :=
          goodSpecs_of_nonneg (Int.not_lt.mp hneg)
        rw [if_pos hgood, Multiset.card_eq_zero] at hleft
        subst hleft
        have hgen' : ∀ b ∈ bos.recs, w.generate b.bo.sofnm ≠ .failed := by
          intro b hb
          apply hgen
          rw [← hbos]
          exact List.mem_map_of_mem hb
        simp only [if_neg hneg, zero_add]
        exact spec_process w hgen' executable

/-- What a run owns at its end is what is held and was not held before. -/
theorem eq_sdiff_of_val_eq {held held₁ : Finset Resource} {o : Multiset Resource}
    (h : held₁.val = o + held.val) : held ⊆ held₁ ∧ (held₁ \ held).val = o := by
  refine ⟨Finset.val_le_iff.mp (by rw [h]; exact Multiset.le_add_left _ _), ?_⟩
  rw [Finset.sdiff_val, h, Multiset.add_sub_cancel_right]

/-- The registration follows the values, and each registered object keeps five blocks, its
own and two descriptors, and all of them one table. The cleanup gives all of it back, and
nothing stays but the copy of one specification with too many commas. -/
theorem registration_balanced (sup : Supply) (host : Host) (expands : List Bo → Bool)
    (files : List UInt8 → Option (List UInt8)) (kospecs : List (List UInt8))
    (held : Finset Resource) (hdirs : host.dirs ≠ []) :
    ∃ rc bos held₁ held₂,
      addbos sup host expands .empty kospecs held = some ((rc, bos), held₁) ∧
      rc = (initRun host files kospecs).rc ∧
      bos.recs.map BoRec.bo = (initRun host files kospecs).gbls.bos ∧
      (bos.recs.flatMap BoRec.owned ++ tableBlocks bos.table).Nodup ∧
      (∀ r ∈ bos.recs.flatMap BoRec.owned ++ tableBlocks bos.table, r ∈ held₁ \ held) ∧
      bosCleanup bos.table bos.recs held₁ = some ((), held₂) ∧ held ⊆ held₂ ∧
      (held₂ \ held).card = if GoodSpecs host ⟨⟨[], files⟩, 0⟩ kospecs then 0 else 1 := by
  obtain ⟨⟨rc, bos⟩, held₁, _, hadd, hheld₁, hrc, hbos, left, rfl, hcard⟩ :=
    (spec_addbos_empty hdirs files kospecs).run held
  rw [add_comm left] at hheld₁
  have hclean : Spec (bos.owned + left) (bosCleanup bos.table bos.recs) fun _ o => o = left :=
    spec_bosCleanup bos
  obtain ⟨_, held₂, o, hcleanup, hheld₂, rfl⟩ := hclean held held₁ hheld₁
  obtain ⟨-, hval₁⟩ := eq_sdiff_of_val_eq hheld₁
  obtain ⟨hsub, hval₂⟩ := eq_sdiff_of_val_eq hheld₂
  have hle : (↑(bos.recs.flatMap BoRec.owned ++ tableBlocks bos.table) : Multiset Resource) ≤
      (held₁ \ held).val := by
    rw [hval₁, ← Multiset.coe_add, ← coe_flatMap_owned, ← Bos.owned]
    exact Multiset.le_add_right _ _
  have hnodup := Multiset.nodup_of_le hle (held₁ \ held).nodup
  refine ⟨rc, bos, held₁, held₂, hadd, hrc, hbos, Multiset.coe_nodup.mp hnodup,
    fun r hr => ?_, hcleanup, hsub, by rw [Finset.card_def, hval₂, hcard]⟩
  rw [← Finset.mem_val]
  exact Multiset.mem_of_le hle (Multiset.mem_coe.mpr hr)

/-- One object is registered; the second specification has three commas. -/
theorem registration_balanced_two_specs :
    ∃ bos held₁ held₂,
      addbos counting openHost (fun _ => false) .empty [ascii "a", ascii "b,,,"] ∅ =
        some ((-1, bos), held₁) ∧
      bos.recs.length = 1 ∧ bosCleanup bos.table bos.recs held₁ = some ((), held₂) ∧
      held₂.card = 1 := by
  obtain ⟨rc, bos, held₁, held₂, hadd, hrc, hbos, -, -, hcleanup, -, hcard⟩ :=
    registration_balanced counting openHost (fun _ => false) (fun _ => none)
      [ascii "a", ascii "b,,,"] ∅ (by decide)
  have hrc' : (initRun openHost (fun _ => none) [ascii "a", ascii "b,,,"]).rc = -1 := by decide
  have hlen : (initRun openHost (fun _ => none) [ascii "a", ascii "b,,,"]).gbls.bos.length = 1 := by
    decide
  have hbad : ¬ GoodSpecs openHost ⟨⟨[], fun _ => none⟩, 0⟩ [ascii "a", ascii "b,,,"] := by decide
  obtain rfl := hrc.trans hrc'
  rw [if_neg hbad, Finset.sdiff_empty] at hcard
  rw [← hbos, List.length_map] at hlen
  exact ⟨bos, held₁, held₂, hadd, hlen, hcleanup, hcard⟩

/-- One object with two symbols, whose library cannot be mapped. -/
def unmappedWorld : World :=
  ⟨some (ascii "/d"), fun _ => true, openHost, fun _ => false, fun _ => twoSections,
    fun _ => .symbols 2, fun _ => .unmapped, true⟩

end SymbiOS.Kld.Resources
