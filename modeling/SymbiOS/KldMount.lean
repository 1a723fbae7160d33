import SymbiOS.KldListing
import SymbiOS.CLib
import Mathlib.Data.Nat.Digits.Lemmas

/-!
# The mounted file system

`kldfs.c` puts one file into the file system of `fs.c`: `libkernel.so`, which reads as the
number of the process. The kernel sends requests and learns inodes, types and open files
from the replies. How `fuse_add_direntry` lays out an entry is a parameter. A request that
meets a failing assertion or an unimplemented call ends the program and gives `none`.
-/
namespace SymbiOS.Kld.Mount
open SymbiOS.GuardedRun SymbiOS.CLib

/-- The fields of `struct stat` that are set. -/
structure StatBuf where
  stIno : ℕ
  stMode : ℕ
  stNlink : ℕ
  stSize : ℕ
  deriving Repr, DecidableEq

def S_IFMT : ℕ := 0o170000

def S_IFDIR : ℕ := 0o040000

def S_IFREG : ℕ := 0o100000

def O_ACCMODE : ℕ := 3

def O_RDONLY : ℕ := 0

/-- The output of `%jd` for a number that is not negative. -/
def decimal (n : ℕ) : List UInt8 :=
  if n = 0 then [48] else (Nat.digits 10 n).reverse.map fun d => UInt8.ofNat (48 + d)

def pidSize (pid : ℕ) : ℕ := (snprintf 24 (decimal pid)).1.toNat

def fsDirStat : StatBuf := ⟨0, S_IFDIR ||| 0o755, 2, 0⟩

def fsLibkernelStat (pid ino : ℕ) : StatBuf := ⟨ino, S_IFREG ||| 0o444, 1, pidSize pid⟩

def fsLibkernelRead (pid size off : ℕ) : List UInt8 :=
  let n := pidSize pid
  let buf := (snprintf (n + 1) (decimal pid)).2
  fsFuseReplyBufLimited buf off size

def dot : List UInt8 := [46]

def dotdot : List UInt8 := [46, 46]

def libkernel : List UInt8 := ascii "libkernel.so"

/-- `fs_dir_ops`, and for every other file `fs_libkernel_ops`. -/
def fileOps (fmt : DirentFormat (List UInt8)) (pid : ℕ) (f : File (List UInt8)) :
    FileOps (List UInt8) StatBuf :=
  match f.data with
  | .directory _ _ => ⟨fun _ _ => fsDirStat, some (fsDirReaddir fmt dot dotdot)⟩
  | _ => ⟨fun _ f => fsLibkernelStat pid f.ino, none⟩

inductive Errno where
  | none
  | ENOENT
  | EACCES
  | EISDIR
  | ENOTSUP
  deriving Repr, DecidableEq

inductive Answer where
  | err (errno : Errno)
  | entry (ino : ℕ) (attr : StatBuf)
  | attr (stat : StatBuf)
  | opened
  | buf (bytes : List UInt8)
  deriving Repr, DecidableEq

def Answer.ofReply : Reply StatBuf → Answer
  | .err _ => .err .ENOENT
  | .entry ino st => .entry ino st
  | .attr st => .attr st
  | .buf bytes => .buf bytes

inductive Request where
  | lookup (dirino : ℕ) (name : List UInt8)
  | getattr (ino : ℕ)
  | readlink (ino : ℕ)
  | open (ino flags : ℕ)
  | read (ino size off : ℕ)
  | write (ino off : ℕ) (bytes : List UInt8)
  | readdir (dirino size off : ℕ)
  | setxattr (ino : ℕ) (name value : List UInt8)
  | getxattr (ino : ℕ) (name : List UInt8)
  | removexattr (ino : ℕ) (name : List UInt8)
  deriving Repr, DecidableEq

variable (fmt : DirentFormat (List UInt8)) (pid : ℕ) (s : Fs (List UInt8))

/-- The file that a call back asserts for an inode. -/
def live (ino : ℕ) : Option (File (List UInt8)) :=
  if s.inoNum ≤ ino then none
  else if s.next ino ≠ none then none
  else (s.file ino).bind s.files

def File.isDir (f : File (List UInt8)) : Bool :=
  match f.data with
  | .directory _ _ => true
  | _ => false

/-- No file has an operation for `open`. -/
def fuseOpen (ino flags : ℕ) : Option Answer :=
  (live s ino).map fun f =>
    if File.isDir f then .err .EISDIR
    else if flags &&& O_ACCMODE ≠ O_RDONLY then .err .EACCES
    else .opened

/-- A directory has no operation for `read`. -/
def fuseRead (ino size off : ℕ) : Option Answer :=
  (live s ino).bind fun f =>
    if File.isDir f then none else some (.buf (fsLibkernelRead pid size off))

def fuseSetxattr (ino : ℕ) (name value : List UInt8) : Option Answer :=
  (live s ino).map fun _ =>
    if name = ascii "fs_ll_setxattr_name" ∧ value = ascii "fs_ll_setxattr_value" then .err .none
    else .err .ENOTSUP

def fuseGetxattr (ino : ℕ) (name : List UInt8) : Option Answer :=
  (live s ino).map fun _ =>
    if name = ascii "fs_ll_getxattr_name" then .buf (ascii "fs_ll_getxattr_value")
    else .err .ENOTSUP

def fuseRemovexattr (ino : ℕ) (name : List UInt8) : Option Answer :=
  (live s ino).map fun _ =>
    if name = ascii "fs_ll_removexattr_name" then .err .none else .err .ENOTSUP

/-- `fs_fuse_ops`. -/
def handle : Request → Option Answer
  | .lookup dirino name => (s.fuseLookup (fileOps fmt pid) dirino name).map .ofReply
  | .getattr ino => (s.fuseGetattr (fileOps fmt pid) ino).map .ofReply
  | .readlink _ => none
  | .open ino flags => fuseOpen s ino flags
  | .read ino size off => fuseRead pid s ino size off
  | .write _ _ _ => none
  | .readdir dirino size off => (s.fuseReaddir (fileOps fmt pid) dirino size off).map .ofReply
  | .setxattr ino name value => fuseSetxattr s ino name value
  | .getxattr ino name => fuseGetxattr s ino name
  | .removexattr ino name => fuseRemovexattr s ino name

/-- What the kernel knows: inodes of directories and of other files, and the files it has
opened, with the flags. -/
structure Client where
  dirs : Finset ℕ
  regs : Finset ℕ
  handles : Finset (ℕ × ℕ)
  deriving DecidableEq

/-- At the beginning there is the root. -/
def Client.mount : Client := ⟨{ROOT_INO}, ∅, ∅⟩

/-- The type of a file comes with its entry. -/
def Client.learn (c : Client) (req : Request) (answer : Option Answer) : Client :=
  match req, answer with
  | .lookup _ _, some (.entry ino attr) =>
      if attr.stMode &&& S_IFMT = S_IFDIR then { c with dirs := insert ino c.dirs }
      else { c with regs := insert ino c.regs }
  | .open ino flags, some .opened => { c with handles := insert (ino, flags) c.handles }
  | _, _ => c

/-- The requests that the kernel sends: on inodes that it knows, with names to look up and
listings for directories only, with data for open files only, and as the flags allow. There
is no type for symbolic links, so none is ever followed. -/
def Client.Sends (c : Client) : Request → Prop
  | .lookup dirino _ => dirino ∈ c.dirs
  | .getattr ino => ino ∈ c.dirs ∨ ino ∈ c.regs
  | .readlink _ => False
  | .open ino _ => ino ∈ c.regs
  | .read ino _ _ => ∃ flags, (ino, flags) ∈ c.handles
  | .write ino _ _ => ∃ flags, (ino, flags) ∈ c.handles ∧ flags &&& O_ACCMODE ≠ O_RDONLY
  | .readdir dirino _ _ => dirino ∈ c.dirs
  | .setxattr ino _ _ => ino ∈ c.dirs ∨ ino ∈ c.regs
  | .getxattr ino _ => ino ∈ c.dirs ∨ ino ∈ c.regs
  | .removexattr ino _ => ino ∈ c.dirs ∨ ino ∈ c.regs

def Client.step (c : Client) (req : Request) : Client := c.learn req (handle fmt pid s req)

/-- What the kernel knows is so. -/
structure Client.Knows (c : Client) : Prop where
  dirs : ∀ i ∈ c.dirs, ∃ f, live s i = some f ∧ File.isDir f = true
  regs : ∀ i ∈ c.regs, ∃ f, live s i = some f ∧ File.isDir f = false
  handles : ∀ h ∈ c.handles, h.1 ∈ c.regs ∧ h.2 &&& O_ACCMODE = O_RDONLY

variable {fmt pid s} {c : Client} {i : ℕ} {f : File (List UInt8)}

theorem live_eq_some_iff : live s i = some f ↔
    i < s.inoNum ∧ s.next i = none ∧ ∃ id, s.file i = some id ∧ s.files id = some f := by
  unfold live
  by_cases hlt : s.inoNum ≤ i
  · simp [hlt]
  · by_cases hnext : s.next i = none
    · simp [hlt, hnext, Option.bind_eq_some_iff]
      omega
    · simp [hlt, hnext]

/-- What an entry of a directory leads to is live. -/
theorem live_of_files (h : s.Heap) {id : ℕ} (hf : s.files id = some f) : live s f.ino = some f := by
  obtain ⟨hmem, hfile⟩ := h.own id f hf
  exact live_eq_some_iff.mpr
    ⟨h.toTable.inside f.ino hmem, h.toTable.unlinked f.ino hmem, id, hfile, hf⟩

/-- The mode of a file tells whether it is a directory. -/
theorem mode_iff (fmt : DirentFormat (List UInt8)) (pid : ℕ) (s : Fs (List UInt8))
    (f : File (List UInt8)) :
    ((fileOps fmt pid f).stat s f).stMode &&& S_IFMT = S_IFDIR ↔ File.isDir f = true := by
  have hdir : (S_IFDIR ||| 0o755) &&& S_IFMT = S_IFDIR := by decide
  have hreg : (S_IFREG ||| 0o444) &&& S_IFMT ≠ S_IFDIR := by decide
  unfold fileOps File.isDir
  cases f.data with
  | directory a b => exact iff_of_true hdir rfl
  | regular => exact iff_of_false hreg Bool.false_ne_true
  | symlink target => exact iff_of_false hreg Bool.false_ne_true

theorem fuseLookup_cases (fmt : DirentFormat (List UInt8)) (pid : ℕ) (h : s.Heap) {dirino : ℕ}
    {d : File (List UInt8)}
    (hd : live s dirino = some d) (hdir : File.isDir d = true) (name : List UInt8) :
    handle fmt pid s (.lookup dirino name) = some (.err .ENOENT) ∨
    ∃ f, live s f.ino = some f ∧
      handle fmt pid s (.lookup dirino name) =
        some (.entry f.ino ((fileOps fmt pid f).stat s f)) := by
  obtain ⟨hlt, hnext, id, hfile, hfiles⟩ := live_eq_some_iff.mp hd
  cases hdata : d.data with
  | regular => simp [File.isDir, hdata] at hdir
  | symlink target => simp [File.isDir, hdata] at hdir
  | directory a b =>
    cases hname : s.findName b name with
    | none =>
      left
      simp [handle, Fs.fuseLookup, Nat.not_le.mpr hlt, hnext, hfile, hfiles, hdata, hname,
        Answer.ofReply]
    | some item =>
      obtain ⟨f, hf⟩ : ∃ f, s.files item = some f := by
        have hany := List.find?_some hname
        cases hf : s.files item with
        | none => simp [hf] at hany
        | some f => exact ⟨f, rfl⟩
      right
      refine ⟨f, live_of_files h hf, ?_⟩
      simp [handle, Fs.fuseLookup, Nat.not_le.mpr hlt, hnext, hfile, hfiles, hdata, hname, hf,
        Answer.ofReply]

theorem fuseReaddir_isSome (h : s.Heap) {dirino : ℕ} {d : File (List UInt8)}
    (hd : live s dirino = some d) (hdir : File.isDir d = true) (size off : ℕ) :
    (handle fmt pid s (.readdir dirino size off)).isSome := by
  obtain ⟨hlt, hnext, id, hfile, hfiles⟩ := live_eq_some_iff.mp hd
  cases hdata : d.data with
  | regular => simp [File.isDir, hdata] at hdir
  | symlink target => simp [File.isDir, hdata] at hdir
  | directory a b =>
    have hitems := Fs.mapM_files (h.map_files hfiles hdata)
    simp [handle, Fs.fuseReaddir, Nat.not_le.mpr hlt, hnext, hfile, hfiles, hdata, fileOps,
      fsDirReaddir, Fs.itemsOf, hitems]

theorem fuseGetattr_isSome (hf : live s i = some f) : (handle fmt pid s (.getattr i)).isSome := by
  obtain ⟨hlt, hnext, id, hfile, hfiles⟩ := live_eq_some_iff.mp hf
  simp [handle, Fs.fuseGetattr, Nat.not_le.mpr hlt, hnext, hfile, hfiles]

/-- What the kernel knows of is live. -/
theorem Client.Knows.live (h : c.Knows s) (hi : i ∈ c.dirs ∨ i ∈ c.regs) :
    ∃ f, live s i = some f := by
  rcases hi with hi | hi
  · obtain ⟨f, hf, -⟩ := h.dirs i hi
    exact ⟨f, hf⟩
  · obtain ⟨f, hf, -⟩ := h.regs i hi
    exact ⟨f, hf⟩

/-- A request of a kernel that knows right is answered. -/
theorem Client.Knows.answered (h : c.Knows s) (hheap : s.Heap) {req : Request}
    (hreq : c.Sends req) : (handle fmt pid s req).isSome := by
  cases req with
  | lookup dirino name =>
    obtain ⟨d, hd, hdir⟩ := h.dirs dirino hreq
    rcases fuseLookup_cases fmt pid hheap hd hdir name with heq | ⟨f, -, heq⟩
    · rw [heq, Option.isSome_some]
    · rw [heq, Option.isSome_some]
  | getattr ino =>
    obtain ⟨f, hf⟩ := h.live hreq
    exact fuseGetattr_isSome hf
  | readlink ino => exact hreq.elim
  | «open» ino flags =>
    obtain ⟨f, hf, -⟩ := h.regs ino hreq
    simp [handle, fuseOpen, hf]
  | read ino size off =>
    obtain ⟨flags, hflags⟩ := hreq
    obtain ⟨f, hf, hreg⟩ := h.regs ino (h.handles _ hflags).1
    simp [handle, fuseRead, hf, hreg]
  | write ino off bytes =>
    obtain ⟨flags, hflags, hwrite⟩ := hreq
    exact absurd (h.handles _ hflags).2 hwrite
  | readdir dirino size off =>
    obtain ⟨d, hd, hdir⟩ := h.dirs dirino hreq
    exact fuseReaddir_isSome hheap hd hdir size off
  | setxattr ino name value =>
    obtain ⟨f, hf⟩ := h.live hreq
    simp [handle, fuseSetxattr, hf]
  | getxattr ino name =>
    obtain ⟨f, hf⟩ := h.live hreq
    simp [handle, fuseGetxattr, hf]
  | removexattr ino name =>
    obtain ⟨f, hf⟩ := h.live hreq
    simp [handle, fuseRemovexattr, hf]

theorem Client.Knows.step (h : c.Knows s) (hheap : s.Heap) {req : Request} (hreq : c.Sends req) :
    (c.step fmt pid s req).Knows s := by
  cases req with
  | lookup dirino name =>
    obtain ⟨d, hd, hdir⟩ := h.dirs dirino hreq
    rcases fuseLookup_cases fmt pid hheap hd hdir name with heq | ⟨f, hf, heq⟩
    · rw [Client.step, heq]
      exact h
    · rw [Client.step, heq, Client.learn]
      have hmode := mode_iff fmt pid s f
      split_ifs with htype
      · refine ⟨fun i hi => ?_, h.regs, h.handles⟩
        rcases Finset.mem_insert.mp hi with rfl | hi
        · exact ⟨f, hf, hmode.mp htype⟩
        · exact h.dirs i hi
      · refine ⟨h.dirs, fun i hi => ?_, fun x hx => ?_⟩
        · rcases Finset.mem_insert.mp hi with rfl | hi
          · exact ⟨f, hf, by simpa using mt hmode.mpr htype⟩
          · exact h.regs i hi
        · exact ⟨Finset.mem_insert_of_mem (h.handles x hx).1, (h.handles x hx).2⟩
  | «open» ino flags =>
    obtain ⟨f, hf, hreg⟩ := h.regs ino hreq
    by_cases hflags : flags &&& O_ACCMODE = O_RDONLY
    · have heq : handle fmt pid s (.open ino flags) = some .opened := by
        simp [handle, fuseOpen, hf, hreg, hflags]
      rw [Client.step, heq, Client.learn]
      refine ⟨h.dirs, h.regs, fun x hx => ?_⟩
      rcases Finset.mem_insert.mp hx with rfl | hx
      · exact ⟨hreq, hflags⟩
      · exact h.handles x hx
    · have heq : handle fmt pid s (.open ino flags) = some (.err .EACCES) := by
        simp [handle, fuseOpen, hf, hreg, hflags]
      rw [Client.step, heq]
      exact h
  | getattr ino => exact h
  | readlink ino => exact h
  | read ino size off => exact h
  | write ino off bytes => exact h
  | readdir dirino size off => exact h
  | setxattr ino name value => exact h
  | getxattr ino name => exact h
  | removexattr ino name => exact h

theorem knows_mount {root : File (List UInt8)} (hroot : live s ROOT_INO = some root)
    (hdir : File.isDir root = true) : Client.mount.Knows s where
  dirs i hi := by
    obtain rfl := Finset.mem_singleton.mp hi
    exact ⟨root, hroot, hdir⟩
  regs i hi := absurd hi (Finset.notMem_empty i)
  handles h hh := absurd hh (Finset.notMem_empty h)

/-- A session of the kernel with the mounted file system. -/
def Session (fmt : DirentFormat (List UInt8)) (pid : ℕ) (s : Fs (List UInt8))
    (reqs : List Request) : Prop :=
  Guarded (Client.step fmt pid s) Client.Sends .mount reqs

theorem answered_of_guarded (hheap : s.Heap) (hknows : c.Knows s) {reqs : List Request}
    (h : Guarded (Client.step fmt pid s) Client.Sends c reqs) :
    (∀ req ∈ reqs, (handle fmt pid s req).isSome) ∧
      (runFrom (Client.step fmt pid s) c reqs).Knows s := by
  induction reqs generalizing c with
  | nil => exact ⟨by simp, hknows⟩
  | cons req reqs ih =>
    obtain ⟨hreqs, hlast⟩ := ih (hknows.step hheap h.1) h.2
    exact ⟨List.forall_mem_cons.mpr ⟨hknows.answered hheap h.1, hreqs⟩, hlast⟩

/-- The file system of `kldfsCreate`. -/
def kldfs : Fs (List UInt8) :=
  (runFrom fsStep (Fs.fsCreate dot) [.createfile ROOT_INO libkernel none]).getD .empty

theorem kldfs_eq :
    runFrom fsStep (Fs.fsCreate dot) [.createfile ROOT_INO libkernel none] = some kldfs := rfl

def root : File (List UInt8) := ⟨dot, 1, 0, .directory [1] [1]⟩

def libkernelFile : File (List UInt8) := ⟨libkernel, 2, 1, .regular⟩

/-- Two inodes have files. -/
theorem live_kldfs (h : live kldfs i = some f) : i = 1 ∧ f = root ∨ i = 2 ∧ f = libkernelFile := by
  obtain ⟨-, -, id, hfile, hfiles⟩ := live_eq_some_iff.mp h
  have hheap := heap_of_run kldfs_eq
  have hino := hheap.pointers i id f hfile hfiles
  have hlt : id < 2 := hheap.bounded i id hfile
  have hcases : id = 0 ∨ id = 1 := by omega
  rcases hcases with rfl | rfl
  · obtain rfl : root = f := Option.some.inj hfiles
    exact .inl ⟨hino.symm, rfl⟩
  · obtain rfl : libkernelFile = f := Option.some.inj hfiles
    exact .inr ⟨hino.symm, rfl⟩

/-- What the root lists, name and inode. -/
def rootItems : List (List UInt8 × ℕ) := [(dot, 1), (dotdot, 0), (libkernel, 2)]

def listing (fmt : DirentFormat (List UInt8)) : List UInt8 :=
  (direntsFrom fmt 0 rootItems).flatMap fmt.encode

/-- The entries of the root are as long as `fuse_add_direntry` says beforehand. -/
def WritesRoot (fmt : DirentFormat (List UInt8)) : Prop :=
  ∀ e ∈ direntsFrom fmt 0 rootItems, (fmt.encode e).length = fmt.size e.name

/-- The file is looked up, opened and read, and cannot be opened for writing. -/
def readSession : List Request := [.lookup 1 libkernel, .open 2 1, .open 2 0, .read 2 4096 1]

theorem session_read : Session fuseDirent 123 kldfs readSession := by
  have hlookup : Client.step fuseDirent 123 kldfs .mount (.lookup 1 libkernel) =
      ⟨{1}, {2}, ∅⟩ := by decide
  have hwrite : Client.step fuseDirent 123 kldfs ⟨{1}, {2}, ∅⟩ (.open 2 1) =
      ⟨{1}, {2}, ∅⟩ := by decide
  have hopen : Client.step fuseDirent 123 kldfs ⟨{1}, {2}, ∅⟩ (.open 2 0) =
      ⟨{1}, {2}, {(2, 0)}⟩ := by decide
  refine ⟨Finset.mem_singleton_self 1, ?_⟩
  rw [hlookup]
  refine ⟨Finset.mem_singleton_self 2, ?_⟩
  rw [hwrite]
  refine ⟨Finset.mem_singleton_self 2, ?_⟩
  rw [hopen]
  exact ⟨⟨0, Finset.mem_singleton_self (2, 0)⟩, trivial⟩

/-- Whatever was created and removed before, as long as there is a root: no request of a
session ends the program, and what the kernel learns about the files is so. -/
theorem session_answered (fmt : DirentFormat (List UInt8)) (pid : ℕ)
    (calls : List (FsCall (List UInt8))) (s : Fs (List UInt8)) (reqs : List Request)
    (h : runFrom fsStep (Fs.fsCreate dot) calls = some s)
    (hroot : (s.directoryOf ROOT_INO).isSome) (hsession : Session fmt pid s reqs) :
    (∀ req ∈ reqs, (handle fmt pid s req).isSome) ∧
      (runFrom (Client.step fmt pid s) .mount reqs).Knows s := by
  obtain ⟨⟨id, root, a, b⟩, hdir⟩ := Option.isSome_iff_exists.mp hroot
  obtain ⟨hlt, hnext, hfile, hfiles, hdata⟩ := Fs.directoryOf_inv hdir
  have hlive : live s ROOT_INO = some root :=
    live_eq_some_iff.mpr ⟨hlt, hnext, id, hfile, hfiles⟩
  exact answered_of_guarded (heap_of_run h) (knows_mount hlive (by simp [File.isDir, hdata]))
    hsession

theorem session_answered_read :
    (∀ req ∈ readSession, (handle fuseDirent 123 kldfs req).isSome) ∧
      (runFrom (Client.step fuseDirent 123 kldfs) .mount readSession).Knows kldfs :=
  session_answered fuseDirent 123 [.createfile ROOT_INO libkernel none] kldfs readSession kldfs_eq
    rfl session_read

/-- A directory with one file, which is the number in decimal and can only be read. -/
def spec (fmt : DirentFormat (List UInt8)) (pid : ℕ) : Request → Answer
  | .lookup _ name =>
      if name = libkernel then .entry 2 ⟨2, S_IFREG ||| 0o444, 1, (decimal pid).length⟩
      else .err .ENOENT
  | .getattr ino =>
      .attr (if ino = ROOT_INO then ⟨0, S_IFDIR ||| 0o755, 2, 0⟩
        else ⟨2, S_IFREG ||| 0o444, 1, (decimal pid).length⟩)
  | .open _ flags => if flags &&& O_ACCMODE = O_RDONLY then .opened else .err .EACCES
  | .read _ size off => .buf (((decimal pid).drop off).take size)
  | .readdir _ size off => .buf (((listing fmt).drop off).take size)
  | .setxattr _ name value =>
      .err (if name = ascii "fs_ll_setxattr_name" ∧ value = ascii "fs_ll_setxattr_value" then .none
        else .ENOTSUP)
  | .getxattr _ name =>
      if name = ascii "fs_ll_getxattr_name" then .buf (ascii "fs_ll_getxattr_value")
      else .err .ENOTSUP
  | .removexattr _ name =>
      .err (if name = ascii "fs_ll_removexattr_name" then .none else .ENOTSUP)
  | .readlink _ => .err .ENOENT
  | .write _ _ _ => .err .EACCES

theorem length_decimal_le {n : ℕ} (h : n < 2 ^ 31) : (decimal n).length ≤ 10 := by
  unfold decimal
  split_ifs
  · exact Nat.le_of_ble_eq_true rfl
  · rw [List.length_map, List.length_reverse, Nat.digits_length_le_iff (by decide)]
    omega

theorem length_decimal_pos (n : ℕ) : 0 < (decimal n).length := by
  unfold decimal
  split_ifs with hn
  · exact Nat.one_pos
  · rw [List.length_map, List.length_reverse, List.length_pos_iff]
    exact Nat.digits_ne_nil_iff_ne_zero.mpr hn

/-- The number can be read back. -/
theorem ofDigits_decimal (n : ℕ) :
    Nat.ofDigits 10 ((decimal n).reverse.map fun c => c.toNat - 48) = n := by
  unfold decimal
  split_ifs with hn
  · rw [hn]
    decide
  · have hdigits : ((Nat.digits 10 n).map fun d => (UInt8.ofNat (48 + d)).toNat - 48) =
        Nat.digits 10 n := by
      refine (List.map_congr_left (g := id) fun d hd => ?_).trans (List.map_id _)
      have hlt : d < 10 := Nat.digits_lt_base (by decide) hd
      have hsize : UInt8.size = 256 := rfl
      rw [UInt8.toNat_ofNat_of_lt' (by omega : 48 + d < UInt8.size)]
      exact Nat.add_sub_cancel_left 48 d
    rw [← List.map_reverse, List.reverse_reverse, List.map_map]
    show Nat.ofDigits 10 ((Nat.digits 10 n).map fun d => (UInt8.ofNat (48 + d)).toNat - 48) = n
    rw [hdigits, Nat.ofDigits_digits]

theorem pidSize_eq (hpid : pid < 2 ^ 31) : pidSize pid = (decimal pid).length := by
  have hle := length_decimal_le hpid
  have hmax : (decimal pid).length ≤ INT_MAX := by
    have h : INT_MAX = 2 ^ 31 - 1 := rfl
    omega
  rw [pidSize, snprintf, if_pos hmax]
  exact Int.toNat_natCast _

theorem fsLibkernelRead_eq (hpid : pid < 2 ^ 31) (size off : ℕ) :
    fsLibkernelRead pid size off = ((decimal pid).drop off).take size := by
  unfold fsLibkernelRead
  rw [pidSize_eq hpid]
  dsimp only
  rw [snprintf_stored (Nat.lt_succ_self _)]
  exact fsFuseReplyBufLimited_eq _ _ _

theorem dirs_kldfs (h : c.Knows kldfs) (hi : i ∈ c.dirs) : i = 1 := by
  obtain ⟨f, hf, hdir⟩ := h.dirs i hi
  rcases live_kldfs hf with ⟨rfl, rfl⟩ | ⟨rfl, rfl⟩
  · rfl
  · cases hdir

theorem regs_kldfs (h : c.Knows kldfs) (hi : i ∈ c.regs) : i = 2 := by
  obtain ⟨f, hf, hreg⟩ := h.regs i hi
  rcases live_kldfs hf with ⟨rfl, rfl⟩ | ⟨rfl, rfl⟩
  · cases hreg
  · rfl

theorem live_one : live kldfs 1 = some root := rfl

theorem live_two : live kldfs 2 = some libkernelFile := rfl

theorem findName_kldfs (name : List UInt8) :
    kldfs.findName [1] name = if name = libkernel then some 1 else none := by
  have hfiles : kldfs.files 1 = some libkernelFile := rfl
  by_cases hname : name = libkernel
  · simp [Fs.findName, hfiles, libkernelFile, hname]
  · have hne : ¬ libkernel = name := fun heq => hname heq.symm
    simp [Fs.findName, hfiles, libkernelFile, hname, hne]

theorem lookup_kldfs (hpid : pid < 2 ^ 31) (name : List UInt8) :
    handle fmt pid kldfs (.lookup 1 name) = some (spec fmt pid (.lookup 1 name)) := by
  have hlt : ¬ kldfs.inoNum ≤ 1 := by decide
  have hnext : kldfs.next 1 = none := rfl
  have hfile : kldfs.file 1 = some 0 := rfl
  have hroot : kldfs.files 0 = some root := rfl
  have hlib : kldfs.files 1 = some libkernelFile := rfl
  have hfound := findName_kldfs name
  by_cases hname : name = libkernel
  · subst hname
    rw [if_pos rfl] at hfound
    simp [handle, Fs.fuseLookup, hlt, hnext, hfile, hroot, root, hfound, hlib, Answer.ofReply, spec,
      fileOps, libkernelFile, fsLibkernelStat, pidSize_eq hpid]
  · rw [if_neg hname] at hfound
    simp [handle, Fs.fuseLookup, hlt, hnext, hfile, hroot, root, hfound, Answer.ofReply, spec,
      hname]

theorem readdir_kldfs (hfmt : WritesRoot fmt) (size off : ℕ) :
    handle fmt pid kldfs (.readdir 1 size off) = some (spec fmt pid (.readdir 1 size off)) := by
  have hlt : ¬ kldfs.inoNum ≤ 1 := by decide
  have hnext : kldfs.next 1 = none := rfl
  have hfile : kldfs.file 1 = some 0 := rfl
  have hroot : kldfs.files 0 = some root := rfl
  have hitems : kldfs.itemsOf [1] = some [libkernelFile] := rfl
  have hlisted : listed dot dotdot root [libkernelFile] = rootItems := rfl
  have hbuf := foldl_dirbufAdd fmt rootItems [] hfmt
  rw [List.nil_append, List.length_nil] at hbuf
  have hreply : fsDirReaddir fmt dot dotdot kldfs root size off =
      some (some (((listing fmt).drop off).take size)) := by
    have hdata : root.data = .directory [1] [1] := rfl
    simp only [fsDirReaddir, hdata, hitems, Option.bind_eq_bind, Option.bind_some, hlisted, hbuf,
      fsFuseReplyBufLimited_eq]
    rfl
  have hops : (fileOps fmt pid root).readdir = some (fsDirReaddir fmt dot dotdot) := rfl
  rw [handle, Fs.fuseReaddir, if_neg hlt, if_neg (not_not.mpr hnext)]
  simp only [hfile, hroot, Option.bind_eq_bind, Option.bind_some]
  have hdata : root.data = .directory [1] [1] := rfl
  simp only [hdata, hops, hreply, Option.bind_some, Option.map_some]
  rfl

/-- What the kernel sends is answered as the one file is specified. -/
theorem handle_eq_spec (hfmt : WritesRoot fmt) (hpid : pid < 2 ^ 31) (h : c.Knows kldfs)
    {req : Request} (hreq : c.Sends req) : handle fmt pid kldfs req = some (spec fmt pid req) := by
  have hboth : ∀ {i}, i ∈ c.dirs ∨ i ∈ c.regs → i = 1 ∨ i = 2 :=
    fun hi => hi.imp (dirs_kldfs h) (regs_kldfs h)
  cases req with
  | lookup dirino name =>
    obtain rfl := dirs_kldfs h hreq
    exact lookup_kldfs hpid name
  | getattr ino =>
    rcases hboth hreq with rfl | rfl
    · rfl
    · show some (Answer.attr (fsLibkernelStat pid 2)) = _
      rw [fsLibkernelStat, pidSize_eq hpid]
      rfl
  | readlink ino => exact hreq.elim
  | «open» ino flags =>
    obtain rfl := regs_kldfs h hreq
    rw [handle, fuseOpen, live_two, Option.map_some, spec]
    by_cases hflags : flags &&& O_ACCMODE = O_RDONLY
    · rw [if_pos hflags, if_neg (not_not.mpr hflags)]
      rfl
    · rw [if_neg hflags, if_pos hflags]
      rfl
  | read ino size off =>
    obtain ⟨flags, hflags⟩ := hreq
    obtain rfl := regs_kldfs h (h.handles _ hflags).1
    show some (Answer.buf (fsLibkernelRead pid size off)) = _
    rw [fsLibkernelRead_eq hpid]
    rfl
  | write ino off bytes =>
    obtain ⟨flags, hflags, hwrite⟩ := hreq
    exact absurd (h.handles _ hflags).2 hwrite
  | readdir dirino size off =>
    obtain rfl := dirs_kldfs h hreq
    exact readdir_kldfs hfmt size off
  | setxattr ino name value =>
    rcases hboth hreq with rfl | rfl
    · rw [handle, fuseSetxattr, live_one, Option.map_some, spec]
      split_ifs <;> rfl
    · rw [handle, fuseSetxattr, live_two, Option.map_some, spec]
      split_ifs <;> rfl
  | getxattr ino name =>
    rcases hboth hreq with rfl | rfl
    · rfl
    · rfl
  | removexattr ino name =>
    rcases hboth hreq with rfl | rfl
    · rw [handle, fuseRemovexattr, live_one, Option.map_some, spec]
      split_ifs <;> rfl
    · rw [handle, fuseRemovexattr, live_two, Option.map_some, spec]
      split_ifs <;> rfl

theorem answers_of_guarded (hfmt : WritesRoot fmt) (hpid : pid < 2 ^ 31) (h : c.Knows kldfs)
    {reqs : List Request} (hreqs : Guarded (Client.step fmt pid kldfs) Client.Sends c reqs) :
    reqs.map (handle fmt pid kldfs) = reqs.map fun req => some (spec fmt pid req) := by
  induction reqs generalizing c with
  | nil => rfl
  | cons req reqs ih =>
    have hnext : (c.step fmt pid kldfs req).Knows kldfs := h.step (heap_of_run kldfs_eq) hreqs.1
    rw [List.map_cons, List.map_cons, handle_eq_spec hfmt hpid h hreqs.1, ih hnext hreqs.2]

/-- The file system of `kldfs.c` is a directory with one file: every request of every
session is answered as that says. -/
theorem session_answers (fmt : DirentFormat (List UInt8)) (hfmt : WritesRoot fmt) (pid : ℕ)
    (hpid : pid < 2 ^ 31) (reqs : List Request) (hsession : Session fmt pid kldfs reqs) :
    reqs.map (handle fmt pid kldfs) = reqs.map fun req => some (spec fmt pid req) :=
  answers_of_guarded hfmt hpid (knows_mount live_one rfl) hsession

theorem session_answers_read :
    readSession.map (handle fuseDirent 123 kldfs) =
      [some (.entry 2 ⟨2, 0o100444, 1, 3⟩), some (.err .EACCES), some .opened,
        some (.buf (ascii "23"))] := by
  rw [session_answers fuseDirent (fun e _ => (fuseDirent_length e).1) 123 (by decide) readSession
    session_read]
  decide

/-- A reader goes on behind what it got, and ends with an empty reply. -/
def readFrom (fmt : DirentFormat (List UInt8)) (pid : ℕ) (off : ℕ) : List ℕ → Option (List UInt8)
  | [] => none
  | size :: sizes =>
      match handle fmt pid kldfs (.read 2 size off) with
      | some (.buf []) => some []
      | some (.buf bytes) => (readFrom fmt pid (off + bytes.length) sizes).map (bytes ++ ·)
      | _ => none

theorem handle_read (hpid : pid < 2 ^ 31) (size off : ℕ) :
    handle fmt pid kldfs (.read 2 size off) = some (.buf (((decimal pid).drop off).take size)) := by
  show some (Answer.buf (fsLibkernelRead pid size off)) = _
  rw [fsLibkernelRead_eq hpid]

/-- Reads of positive sizes end once all but the last of them have room for the rest. -/
theorem readFrom_eq (hpid : pid < 2 ^ 31) {sizes : List ℕ} (hpos : ∀ n ∈ sizes, 0 < n) {off : ℕ}
    (hoff : off ≤ (decimal pid).length) :
    readFrom fmt pid off sizes =
      if sizes ≠ [] ∧ (decimal pid).length ≤ off + sizes.dropLast.sum then
        some ((decimal pid).drop off)
      else none := by
  induction sizes generalizing off with
  | nil => rw [if_neg fun h => h.1 rfl, readFrom]
  | cons size sizes ih =>
    have hsize := hpos size List.mem_cons_self
    rw [readFrom, handle_read hpid]
    cases hbytes : ((decimal pid).drop off).take size with
    | nil =>
      have hnil : (decimal pid).drop off = [] := by
        rcases List.take_eq_nil_iff.mp hbytes with hzero | hnil
        · omega
        · exact hnil
      have hend : (decimal pid).length ≤ off := List.drop_eq_nil_iff.mp hnil
      rw [if_pos ⟨List.cons_ne_nil size sizes, by omega⟩, hnil]
    | cons c bytes =>
      have hlength := congrArg List.length hbytes
      rw [List.length_take, List.length_drop] at hlength
      have hsome : 0 < (c :: bytes).length := List.length_pos_of_mem List.mem_cons_self
      have hrest := ih (fun n hn => hpos n (List.mem_cons_of_mem size hn))
        (by omega : off + (c :: bytes).length ≤ (decimal pid).length)
      have hroom : (sizes ≠ [] ∧
          (decimal pid).length ≤ off + (c :: bytes).length + sizes.dropLast.sum) ↔
          size :: sizes ≠ [] ∧ (decimal pid).length ≤ off + (size :: sizes).dropLast.sum := by
        cases sizes with
        | nil => simp; omega
        | cons next sizes =>
          simp only [ne_eq, reduceCtorEq, not_false_eq_true, true_and, List.dropLast_cons_cons,
            List.sum_cons]
          omega
      have htake : c :: bytes = ((decimal pid).drop off).take (c :: bytes).length := by
        rw [← hbytes, List.length_take, List.take_eq_take_iff]
        omega
      dsimp only
      rw [hrest, if_congr hroom rfl rfl, apply_ite (Option.map (c :: bytes ++ ·)), Option.map_some,
        Option.map_none, ← List.drop_drop]
      nth_rewrite 1 [htake]
      rw [List.take_append_drop]

/-- Whatever the sizes of the reads: with room for the number and one more read behind it,
what is read is the number of the process in decimal, which `getattr` has told the length
of; with less the end is not seen. -/
theorem read_whole (fmt : DirentFormat (List UInt8)) (pid : ℕ) (hpid : pid < 2 ^ 31)
    (sizes : List ℕ) (hpos : ∀ n ∈ sizes, 0 < n) :
    readFrom fmt pid 0 sizes =
        (if (decimal pid).length ≤ sizes.dropLast.sum then some (decimal pid) else none) ∧
      ∃ st, handle fmt pid kldfs (.getattr 2) = some (.attr st) ∧
        st.stSize = (decimal pid).length ∧
        Nat.ofDigits 10 ((decimal pid).reverse.map fun c => c.toNat - 48) = pid := by
  have hread : readFrom fmt pid 0 sizes = _ := readFrom_eq hpid hpos (Nat.zero_le _)
  have hsome := length_decimal_pos pid
  have hroom : (sizes ≠ [] ∧ (decimal pid).length ≤ 0 + sizes.dropLast.sum) ↔
      (decimal pid).length ≤ sizes.dropLast.sum := by
    rw [Nat.zero_add, and_iff_right_iff_imp]
    intro hle hnil
    rw [hnil, List.dropLast_nil, List.sum_nil] at hle
    omega
  rw [if_congr hroom rfl rfl, List.drop_zero] at hread
  exact ⟨hread, fsLibkernelStat pid 2, rfl, pidSize_eq hpid, ofDigits_decimal pid⟩

/-- Two pages are read; with one, the end would not be seen. -/
theorem read_whole_pages :
    readFrom fuseDirent 123 0 [4096, 4096] = some (ascii "123") ∧
      readFrom fuseDirent 123 0 [4096] = none :=
  ⟨(read_whole fuseDirent 123 (by decide) [4096, 4096] (by decide)).1,
    (read_whole fuseDirent 123 (by decide) [4096] (by decide)).1⟩

end SymbiOS.Kld.Mount
