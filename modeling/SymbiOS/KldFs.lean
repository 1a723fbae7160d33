import SymbiOS.FreeList
import SymbiOS.GuardedRun
import Mathlib.Data.Finset.Card

/-!
# The inode table of the kld file system

`fs.c` hands out inodes from a table whose free entries are linked through their
`next` fields. Pointers to files are numbers, and a pointer to freed memory leads
nowhere. An assertion that fails, a null pointer that is followed and the
unimplemented `grow_inotable` end the program: such a call gives `none`.
-/
namespace SymbiOS.Kld
open SymbiOS.FreeList SymbiOS.GuardedRun

def INVALID_INO : ℕ := 0

def ROOT_INO : ℕ := 1

/-- `fs_filetype_t` with the data that belongs to the type. A directory has one
hash table by inode and one by name. -/
inductive FileData (Name : Type) where
  | regular
  | symlink (target : Name)
  | directory (inoFiles nmFiles : List ℕ)

structure File (Name : Type) where
  name : Name
  ino : ℕ
  dir : ℕ
  data : FileData Name

structure Inodesc where
  file : Option ℕ
  next : Option ℕ
  deriving Repr, DecidableEq

/-- The part of `fs_t` that the calls read or change, and the heap of files.
`allocated` is a ghost: the inodes handed out and not freed since. -/
structure Fs (Name : Type) where
  inoTable : ℕ → Inodesc
  inoNum : ℕ
  inoFreelist : Option ℕ
  inoNumfree : ℤ
  files : ℕ → Option (File Name)
  nextFile : ℕ
  allocated : Finset ℕ

variable {Name : Type}

namespace Fs

def next (s : Fs Name) (i : ℕ) : Option ℕ := (s.inoTable i).next

def file (s : Fs Name) (i : ℕ) : Option ℕ := (s.inoTable i).file

/-- Before `fsCreate` there is no table. -/
def empty : Fs Name := ⟨fun _ => ⟨none, none⟩, 0, none, 0, fun _ => none, 0, ∅⟩

/-- 4096 bytes of descriptors of two pointers each. -/
def INO_NUM : ℕ := 4096 / 16

def initInotable (s : Fs Name) : Fs Name :=
  { s with
    inoTable := fun i => ⟨none, if i + 1 < INO_NUM then some (i + 1) else none⟩
    inoNum := INO_NUM
    inoFreelist := some 0
    inoNumfree := INO_NUM }

/-- The descriptor leaves the list before its file pointer is checked. -/
def takeFree (s : Fs Name) (i : ℕ) : Fs Name :=
  { s with
    inoFreelist := s.next i
    inoTable := Function.update s.inoTable i { s.inoTable i with next := none }
    inoNumfree := s.inoNumfree - 1
    allocated := insert i s.allocated }

def inoalloc (s : Fs Name) : Option (Fs Name × ℕ) :=
  let s := if s.inoNum = 0 then s.initInotable else s
  match s.inoFreelist with
  | none => none
  | some i =>
      if s.inoNum ≤ i then none
      else if s.inoNumfree - 1 < 0 then none
      else if s.file i ≠ none then none
      else some (s.takeFree i, i)

/-- The file pointer of the descriptor is left as it is. -/
def inofree (s : Fs Name) (ino : ℕ) : Option (Fs Name) :=
  if s.inoNum ≤ ino then none
  else if s.next ino ≠ none then none
  else
    some { s with
      inoTable := Function.update s.inoTable ino { s.inoTable ino with next := s.inoFreelist }
      inoFreelist := some ino
      inoNumfree := s.inoNumfree + 1
      allocated := s.allocated.erase ino }

def setFileOf (s : Fs Name) (i id : ℕ) : Fs Name :=
  { s with inoTable := Function.update s.inoTable i { s.inoTable i with file := some id } }

def setFile (s : Fs Name) (id : ℕ) (f : Option (File Name)) : Fs Name :=
  { s with files := Function.update s.files id f }

/-- The directory behind an inode, as the callers assert it. -/
def directoryOf (s : Fs Name) (ino : ℕ) : Option (ℕ × File Name × List ℕ × List ℕ) :=
  if s.inoNum ≤ ino then none
  else if s.next ino ≠ none then none
  else do
    let id ← s.file ino
    let f ← s.files id
    match f.data with
    | .directory inoFiles nmFiles => some (id, f, inoFiles, nmFiles)
    | _ => none

variable [DecidableEq Name]

/-- `HASH_FIND` by inode. -/
def findIno (s : Fs Name) (table : List ℕ) (ino : ℕ) : Option ℕ :=
  table.find? fun id => (s.files id).any fun f => f.ino == ino

/-- `HASH_FIND` by name. -/
def findName (s : Fs Name) (table : List ℕ) (name : Name) : Option ℕ :=
  table.find? fun id => (s.files id).any fun f => f.name == name

/-- `dir_add` to the directory `d` at `id`. Its callers ignore that it refuses an
inode or a name that is there already. -/
def dirAdd (s : Fs Name) (id : ℕ) (d : File Name) (inoFiles nmFiles : List ℕ) (item : ℕ)
    (f : File Name) : Fs Name :=
  if (s.findIno inoFiles f.ino).isSome then s
  else if (s.findName nmFiles f.name).isSome then s
  else s.setFile id (some { d with data := .directory (item :: inoFiles) (item :: nmFiles) })

/-- `malloc` and `file_init`. -/
def newFile (s : Fs Name) (f : File Name) : Fs Name × ℕ :=
  ({ s with files := Function.update s.files s.nextFile (some f), nextFile := s.nextFile + 1 },
    s.nextFile)

/-- The new item is entered in its directory and in its descriptor. -/
def createIn (s : Fs Name) (ino dirino : ℕ) (name : Name) (data : FileData Name) :
    Option (Fs Name × ℕ) := do
  let (id, d, inoFiles, nmFiles) ← s.directoryOf dirino
  let f : File Name := ⟨name, ino, dirino, data⟩
  let (s, item) := s.newFile f
  some ((s.dirAdd id d inoFiles nmFiles item f).setFileOf ino item, item)

def fsCreatedir (s : Fs Name) (parentino : ℕ) (name : Name) : Option (Fs Name × ℕ) := do
  let (s, ino) ← s.inoalloc
  if s.file ino ≠ none ∨ s.next ino ≠ none then none
  else if parentino = INVALID_INO then
    let (s, item) := s.newFile ⟨name, ino, parentino, .directory [] []⟩
    some (s.setFileOf ino item, item)
  else s.createIn ino parentino name (.directory [] [])

/-- `filedata` and `type` of a new file. -/
def newData : Option Name → FileData Name
  | some target => .symlink target
  | none => .regular

def fsCreatefile (s : Fs Name) (dirino : ℕ) (name : Name) (symlink : Option Name) :
    Option (Fs Name × ℕ) := do
  let (s, ino) ← s.inoalloc
  if s.file ino ≠ none ∨ s.next ino ≠ none then none
  else if dirino = INVALID_INO then none
  else s.createIn ino dirino name (newData symlink)

/-- The end of a removal: the inode goes back, and the item is cleared and freed. -/
def release (s : Fs Name) (item : ℕ) (f : File Name) : Option (Fs Name) := do
  let s ← s.inofree f.ino
  some (s.setFile item none)

/-- Take an item out of its directory and release it; a directory that this
empties is returned. -/
def detach (s : Fs Name) (item : ℕ) (f : File Name) : Option (Fs Name × Option ℕ) := do
  let (id, d, inoFiles, nmFiles) ← s.directoryOf f.dir
  if inoFiles.length ≠ nmFiles.length ∨ inoFiles.length = 0 then none
  else if s.findIno inoFiles f.ino ≠ some item then none
  else if s.findName nmFiles f.name ≠ some item then none
  else if (inoFiles.erase item).length ≠ (nmFiles.erase item).length then none
  else
    let s ← (s.setFile id (some { d with
      data := .directory (inoFiles.erase item) (nmFiles.erase item) })).release item f
    some (s, if (inoFiles.erase item).length = 0 then some id else none)

/-- One removal without the purge: the state, the return value, and the directory
that became empty. -/
def removeOne (s : Fs Name) (item : ℕ) : Option (Fs Name × Bool × Option ℕ) := do
  let f ← s.files item
  match f.data with
  | .directory inoFiles nmFiles =>
      if inoFiles.length ≠ nmFiles.length then none
      else if inoFiles.length ≠ 0 then some (s, false, none)
      else if f.ino ≠ ROOT_INO then (s.detach item f).map fun r => (r.1, true, r.2)
      else if f.dir ≠ INVALID_INO then none
      else (s.release item f).map fun s => (s, true, none)
  | _ =>
      if f.ino = ROOT_INO ∨ f.dir = INVALID_INO then none
      else (s.detach item f).map fun r => (r.1, true, r.2)

/-- Purging climbs the directories that become empty. Every level frees an inode,
so the number of inodes bounds the recursion. -/
def fsRemoveitem (purgeemptydir : Bool) : ℕ → Fs Name → ℕ → Option (Fs Name × Bool)
  | 0, s, item => (s.removeOne item).map fun r => (r.1, r.2.1)
  | fuel + 1, s, item => do
      let (s, removed, emptied) ← s.removeOne item
      match emptied with
      | none => some (s, removed)
      | some dir =>
          if purgeemptydir then
            (fsRemoveitem purgeemptydir fuel s dir).map fun r => (r.1, removed)
          else some (s, removed)

/-- The setup in `fsCreate`: inode 0 is taken out of use and inode 1 is the root. -/
def fsCreate (dot : Name) : Option (Fs Name) := do
  let (s, ino) ← (empty : Fs Name).inoalloc
  if ino ≠ INVALID_INO then none
  else
    let (s, root) ← s.fsCreatedir INVALID_INO dot
    let f ← s.files root
    if f.ino ≠ ROOT_INO then none else some s

end Fs

/-- The calls that change the inode table. -/
inductive FsCall (Name : Type) where
  | createdir (parentino : ℕ) (name : Name)
  | createfile (dirino : ℕ) (name : Name) (symlink : Option Name)
  | removeitem (item : ℕ) (purgeemptydir : Bool)

namespace Fs

variable [DecidableEq Name]

def step (s : Fs Name) : FsCall Name → Option (Fs Name)
  | .createdir parentino name => (s.fsCreatedir parentino name).map Prod.fst
  | .createfile dirino name symlink => (s.fsCreatefile dirino name symlink).map Prod.fst
  | .removeitem item purgeemptydir =>
      (fsRemoveitem purgeemptydir s.allocated.card s item).map Prod.fst

end Fs

end SymbiOS.Kld
