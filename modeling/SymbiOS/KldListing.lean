import SymbiOS.KldRequests
import SymbiOS.Records
import Mathlib.Algebra.Ring.Nat

/-!
# Listing a directory

`fs_dir_readdir` builds the whole listing on every call and replies with the part
that was asked for. The reader cuts the replies into entries and goes on at the
offset of the last one. How `fuse_add_direntry` lays out an entry is a parameter.
-/
namespace SymbiOS.Kld
open SymbiOS.FreeList SymbiOS.GuardedRun SymbiOS.Records

variable {Name Stat : Type}

structure Dirent (Name : Type) where
  ino : ℕ
  off : ℕ
  name : Name
  deriving DecidableEq

/-- `fuse_add_direntry`, which without a buffer returns the size of an entry, and the
reader of its entries. -/
structure DirentFormat (Name : Type) where
  size : Name → ℕ
  encode : Dirent Name → List UInt8
  decode : List UInt8 → Option (Dirent Name × List UInt8)

/-- The entry is written in the size that was asked for, and delimits itself. -/
structure DirentFormat.Writes (fmt : DirentFormat Name) (e : Dirent Name) : Prop where
  length : (fmt.encode e).length = fmt.size e.name
  delimited : Delimited fmt.encode fmt.decode e

/-- The buffer grows by one entry, which carries the new size as its offset. -/
def dirbufAdd (fmt : DirentFormat Name) (b : List UInt8) (item : Name × ℕ) : List UInt8 :=
  b ++ fmt.encode ⟨item.2, b.length + fmt.size item.1, item.1⟩

def fsFuseReplyBufLimited (buf : List UInt8) (off maxsize : ℕ) : List UInt8 :=
  if off < buf.length then (buf.drop off).take (min (buf.length - off) maxsize) else []

/-- The items in the order of the hash table's list, the oldest first. -/
def Fs.itemsOf (s : Fs Name) (inoFiles : List ℕ) : Option (List (File Name)) :=
  inoFiles.reverse.mapM s.files

/-- What is listed, name and inode. -/
def listed (dot dotdot : Name) (d : File Name) (items : List (File Name)) : List (Name × ℕ) :=
  (dot, d.ino) :: (dotdot, d.dir) :: items.map fun f => (f.name, f.ino)

def fsDirReaddir (fmt : DirentFormat Name) (dot dotdot : Name) (s : Fs Name) (d : File Name)
    (size off : ℕ) : Option (Option (List UInt8)) :=
  match d.data with
  | .directory inoFiles _ => do
      let items ← s.itemsOf inoFiles
      let b := (listed dot dotdot d items).foldl (dirbufAdd fmt) []
      some (some (fsFuseReplyBufLimited b off size))
  | _ => none

/-- The entries of a listing that starts at some offset. -/
def direntsFrom (fmt : DirentFormat Name) : ℕ → List (Name × ℕ) → List (Dirent Name)
  | _, [] => []
  | off, item :: rest =>
      ⟨item.2, off + fmt.size item.1, item.1⟩ :: direntsFrom fmt (off + fmt.size item.1) rest

theorem direntsFrom_items (fmt : DirentFormat Name) (off : ℕ) (items : List (Name × ℕ)) :
    (direntsFrom fmt off items).map (fun e => (e.name, e.ino)) = items := by
  induction items generalizing off with
  | nil => rfl
  | cons item rest ih => simp [direntsFrom, ih]

theorem fsFuseReplyBufLimited_eq (buf : List UInt8) (off maxsize : ℕ) :
    fsFuseReplyBufLimited buf off maxsize = (buf.drop off).take maxsize := by
  unfold fsFuseReplyBufLimited
  split_ifs with hoff
  · rw [List.take_eq_take_iff, List.length_drop]
    omega
  · rw [List.drop_of_length_le (by omega), List.take_nil]

/-- Appending the items one by one gives the concatenation of their entries. -/
theorem foldl_dirbufAdd (fmt : DirentFormat Name) (items : List (Name × ℕ)) (b : List UInt8)
    (h : ∀ e ∈ direntsFrom fmt b.length items, (fmt.encode e).length = fmt.size e.name) :
    items.foldl (dirbufAdd fmt) b =
      b ++ (direntsFrom fmt b.length items).flatMap fmt.encode := by
  induction items generalizing b with
  | nil => simp [direntsFrom]
  | cons item rest ih =>
    have hfirst := h _ List.mem_cons_self
    have hlen : (dirbufAdd fmt b item).length = b.length + fmt.size item.1 := by
      rw [dirbufAdd, List.length_append, hfirst]
    rw [List.foldl_cons, ih _ fun e he => h e (List.mem_cons_of_mem _ (hlen ▸ he)), hlen]
    simp [direntsFrom, dirbufAdd]

/-- An entry carries the length of the listing up to its end. -/
theorem off_of_direntsFrom {fmt : DirentFormat Name} {items : List (Name × ℕ)} {start : ℕ}
    (h : ∀ e ∈ direntsFrom fmt start items, (fmt.encode e).length = fmt.size e.name)
    {front back : List (Dirent Name)} {e : Dirent Name}
    (hsplit : direntsFrom fmt start items = front ++ e :: back) :
    e.off = start + ((front ++ [e]).flatMap fmt.encode).length := by
  induction items generalizing start front with
  | nil => simp [direntsFrom] at hsplit
  | cons item rest ih =>
    cases front with
    | nil =>
      rw [direntsFrom, List.nil_append, List.cons.injEq] at hsplit
      have hlen := h e (by rw [direntsFrom, hsplit.1]; exact List.mem_cons_self)
      simp only [List.nil_append, List.flatMap_cons, List.flatMap_nil, List.append_nil, hlen]
      rw [← hsplit.1]
    | cons e' front =>
      rw [direntsFrom, List.cons_append, List.cons.injEq] at hsplit
      have hfirst := h e' (by rw [direntsFrom, hsplit.1]; exact List.mem_cons_self)
      have hoff := ih (fun x hx => h x (List.mem_cons_of_mem _ hx)) hsplit.2
      have hsize : fmt.size e'.name = fmt.size item.1 := by rw [← hsplit.1]
      rw [hoff, List.cons_append, List.flatMap_cons, List.length_append, hfirst, hsize,
        Nat.add_assoc]

/-- The items of a directory, in the order of its table. -/
def Fs.itemsIn (s : Fs Name) (inoFiles : List ℕ) : List (File Name) :=
  inoFiles.reverse.filterMap s.files

namespace Fs

variable {s : Fs Name} {p : ℕ} {d : File Name} {a b : List ℕ}

/-- The table of a directory leads to items, and to each only once. -/
lemma Heap.map_files (h : s.Heap) (hd : s.files p = some d) (hda : d.data = .directory a b) :
    a.reverse.map s.files = (s.itemsIn a).map some := by
  obtain ⟨-, hall⟩ := h.entries p d a b hd hda
  have hsome : ∀ c ∈ a.reverse, ∃ f, s.files c = some f := by
    intro c hc
    obtain ⟨f, hf, -⟩ := hall c (List.mem_reverse.mp hc)
    exact ⟨f, hf⟩
  unfold itemsIn
  generalize a.reverse = l at hsome
  induction l with
  | nil => rfl
  | cons c l ih =>
    obtain ⟨f, hf⟩ := hsome c List.mem_cons_self
    rw [List.map_cons, List.filterMap_cons_some hf, List.map_cons, hf,
      ih fun x hx => hsome x (List.mem_cons_of_mem c hx)]

/-- Pointers and the items they lead to, one by one. -/
lemma forall₂_files {l : List ℕ} {items : List (File Name)}
    (hmap : l.map s.files = items.map some) :
    List.Forall₂ (fun c f => s.files c = some f) l items := by
  rw [← List.forall₂_eq_eq_eq, List.forall₂_map_left_iff, List.forall₂_map_right_iff] at hmap
  exact hmap

/-- Items point back to where they came from. -/
lemma Heap.map_file_ino (h : s.Heap) {l : List ℕ} {items : List (File Name)}
    (hmap : l.map s.files = items.map some) :
    (items.map File.ino).map s.file = l.map some := by
  induction forall₂_files hmap with
  | nil => rfl
  | @cons c f l items hf _ ih =>
    rw [List.map_cons, List.map_cons, List.cons.injEq] at hmap
    rw [List.map_cons, List.map_cons, List.map_cons, (h.own c f hf).2, ih hmap.2]

lemma Heap.nodup_ino (h : s.Heap) (hd : s.files p = some d) (hda : d.data = .directory a b) :
    ((s.itemsIn a).map File.ino).Nodup := by
  obtain ⟨hnodup, -⟩ := h.entries p d a b hd hda
  have hback := h.map_file_ino (h.map_files hd hda)
  apply List.Nodup.of_map s.file
  rw [hback]
  exact (List.nodup_reverse.mpr hnodup).map (Option.some_injective ℕ)

/-- Every pointer of the table is followed. -/
lemma mapM_files {l : List ℕ} {items : List (File Name)} (hmap : l.map s.files = items.map some) :
    l.mapM s.files = some items := by
  induction forall₂_files hmap with
  | nil => rfl
  | @cons c f l items hf _ ih =>
    rw [List.map_cons, List.map_cons, List.cons.injEq] at hmap
    rw [List.mapM_cons, hf, ih hmap.2]
    rfl

end Fs

/-- The bytes of a reply that has any. -/
def replyBytes : Option (Reply Stat) → Option (List UInt8)
  | some (.buf bytes) => some bytes
  | _ => none

/-- The entries of a directory as they are listed. -/
def dirents (fmt : DirentFormat Name) (dot dotdot : Name) (s : Fs Name) (d : File Name)
    (inoFiles : List ℕ) : List (Dirent Name) :=
  direntsFrom fmt 0 (listed dot dotdot d (s.itemsIn inoFiles))

/-- A request is answered with its part of the encoded entries. -/
lemma replyBytes_fuseReaddir [DecidableEq Name] {ops : File Name → FileOps Name Stat}
    {fmt : DirentFormat Name} {dot dotdot : Name} {s : Fs Name} {dirino p : ℕ} {d : File Name}
    {a b : List ℕ} (h : s.Heap) (hdir : s.directoryOf dirino = some (p, d, a, b))
    (hops : (ops d).readdir = some (fsDirReaddir fmt dot dotdot))
    (hfmt : ∀ e ∈ dirents fmt dot dotdot s d a, fmt.Writes e) (size off : ℕ) :
    replyBytes (s.fuseReaddir ops dirino size off) =
      some ((((dirents fmt dot dotdot s d a).flatMap fmt.encode).drop off).take size) := by
  obtain ⟨hlt, hnext, hfile, hd, hda⟩ := Fs.directoryOf_inv hdir
  have hitems : s.itemsOf a = some (s.itemsIn a) := Fs.mapM_files (h.map_files hd hda)
  have hbuf := foldl_dirbufAdd fmt (listed dot dotdot d (s.itemsIn a)) []
    fun e he => (hfmt e he).length
  rw [List.nil_append, List.length_nil] at hbuf
  have hreply : fsDirReaddir fmt dot dotdot s d size off =
      some (some ((((dirents fmt dot dotdot s d a).flatMap fmt.encode).drop off).take size)) := by
    simp only [fsDirReaddir, hda, hitems, Option.bind_eq_bind, Option.bind_some, hbuf,
      fsFuseReplyBufLimited_eq]
    rfl
  rw [Fs.fuseReaddir, if_neg (not_le.mpr hlt), if_neg (not_not.mpr hnext)]
  simp only [hfile, hd, hda, hops, hreply, Option.bind_eq_bind, Option.bind_some]
  rfl

/-- Whatever the sizes of the requests, if each is large enough for every entry: a session
from offset 0 ends, and reads `.`, `..` and the items of the directory, each once. -/
theorem readdir_session [DecidableEq Name] (ops : File Name → FileOps Name Stat)
    (fmt : DirentFormat Name) (dot dotdot : Name) (calls : List (FsCall Name)) (s : Fs Name)
    (dirino p : ℕ) (d : File Name) (a b : List ℕ) (size : ℕ → ℕ)
    (h : runFrom fsStep (Fs.fsCreate dot) calls = some s)
    (hdir : s.directoryOf dirino = some (p, d, a, b))
    (hops : (ops d).readdir = some (fsDirReaddir fmt dot dotdot))
    (hfmt : ∀ e ∈ dirents fmt dot dotdot s d a, fmt.Writes e)
    (hsize : ∀ k, ∀ e ∈ dirents fmt dot dotdot s d a, fmt.size e.name ≤ size k) :
    a.reverse.map s.files = (s.itemsIn a).map some ∧ ((s.itemsIn a).map File.ino).Nodup ∧
    ∀ fuel, a.length + 2 < fuel →
      (session (fun n off => replyBytes (s.fuseReaddir ops dirino n off)) fmt.decode Dirent.off
        size fuel 0 0).map (List.map fun e => (e.name, e.ino)) =
      some (listed dot dotdot d (s.itemsIn a)) := by
  have hheap := heap_of_run h
  obtain ⟨-, -, -, hd, hda⟩ := Fs.directoryOf_inv hdir
  have hmap := hheap.map_files hd hda
  refine ⟨hmap, hheap.nodup_ino hd hda, fun fuel hfuel => ?_⟩
  have hlen : (dirents fmt dot dotdot s d a).length = a.length + 2 := by
    have hnames := congrArg List.length
      (direntsFrom_items fmt 0 (listed dot dotdot d (s.itemsIn a)))
    have hitems := congrArg List.length hmap
    simp only [List.length_map, List.length_reverse, listed, List.length_cons] at hnames hitems
    simp only [dirents, listed]
    omega
  have hoff : ∀ front e back, dirents fmt dot dotdot s d a = front ++ e :: back →
      e.off = ((front ++ [e]).flatMap fmt.encode).length := by
    intro front e back hsplit
    simpa using off_of_direntsFrom (fun x hx => (hfmt x hx).length) hsplit
  have hread : session (fun n off => replyBytes (s.fuseReaddir ops dirino n off)) fmt.decode
      Dirent.off size fuel 0 (([] : List (Dirent Name)).flatMap fmt.encode).length =
      some (dirents fmt dot dotdot s d a) :=
    session_eq (fun e he => (hfmt e he).delimited) (replyBytes_fuseReaddir hheap hdir hops hfmt)
      hoff (fun k e he => (hfmt e he).length ▸ hsize k e he) 0 (List.nil_append _).symm
      (hlen ▸ hfuel)
  rw [List.flatMap_nil, List.length_nil] at hread
  rw [hread, Option.map_some]
  exact congrArg some (direntsFrom_items fmt 0 _)

def leBytes : ℕ → ℕ → List UInt8
  | 0, _ => []
  | n + 1, v => UInt8.ofNat v :: leBytes n (v / 256)

def leNat : List UInt8 → ℕ
  | [] => 0
  | b :: bytes => b.toNat + 256 * leNat bytes

/-- The layout of FUSE: inode, offset, length of the name and type, in little-endian order,
then the name and zeros up to a multiple of eight bytes. -/
def fuseDirent : DirentFormat (List UInt8) where
  size name := (24 + name.length + 7) / 8 * 8
  encode e :=
    leBytes 8 e.ino ++ (leBytes 8 e.off ++ (leBytes 4 e.name.length ++ (leBytes 4 0 ++
      (e.name ++ List.replicate ((24 + e.name.length + 7) / 8 * 8 - (24 + e.name.length)) 0))))
  decode bytes :=
    if bytes.length < 24 then none
    else
      let namelen := leNat ((bytes.drop 16).take 4)
      let size := (24 + namelen + 7) / 8 * 8
      if bytes.length < size then none
      else
        some (⟨leNat (bytes.take 8), leNat ((bytes.drop 8).take 8), (bytes.drop 24).take namelen⟩,
          bytes.drop size)

@[simp] theorem leBytes_length (n v : ℕ) : (leBytes n v).length = n := by
  induction n generalizing v with
  | zero => rfl
  | succ n ih => simp [leBytes, ih]

theorem leNat_leBytes (n v : ℕ) (h : v < 256 ^ n) : leNat (leBytes n v) = v := by
  induction n generalizing v with
  | zero => simp [leBytes, leNat]; omega
  | succ n ih =>
    have hdiv : v / 256 < 256 ^ n := by
      rw [Nat.pow_succ] at h
      omega
    simp only [leBytes, leNat, ih _ hdiv, UInt8.toNat_ofNat']
    omega

/-- The fields behind the four numbers of the header. -/
theorem header_fields {ino off len type : List UInt8} (hino : ino.length = 8)
    (hoff : off.length = 8) (hlen : len.length = 4) (htype : type.length = 4)
    (tail : List UInt8) :
    (ino ++ (off ++ (len ++ (type ++ tail)))).take 8 = ino ∧
    ((ino ++ (off ++ (len ++ (type ++ tail)))).drop 8).take 8 = off ∧
    ((ino ++ (off ++ (len ++ (type ++ tail)))).drop 16).take 4 = len ∧
    (ino ++ (off ++ (len ++ (type ++ tail)))).drop 24 = tail := by
  have h₈ : (ino ++ (off ++ (len ++ (type ++ tail)))).drop 8 = off ++ (len ++ (type ++ tail)) :=
    List.drop_left' hino
  have h₁₆ : (ino ++ (off ++ (len ++ (type ++ tail)))).drop 16 = len ++ (type ++ tail) := by
    rw [show 16 = 8 + 8 from rfl, ← List.drop_drop, h₈]
    exact List.drop_left' hoff
  have h₂₄ : (ino ++ (off ++ (len ++ (type ++ tail)))).drop 24 = tail := by
    rw [show 24 = 16 + (4 + 4) from rfl, ← List.drop_drop, h₁₆, ← List.drop_drop,
      List.drop_left' hlen]
    exact List.drop_left' htype
  refine ⟨List.take_left' hino, ?_, ?_, h₂₄⟩
  · rw [h₈]
    exact List.take_left' hoff
  · rw [h₁₆]
    exact List.take_left' hlen

/-- What is read once the header is there. -/
theorem fuseDirent_decode {bytes name : List UInt8} (hheader : 24 ≤ bytes.length)
    (hlen : leNat ((bytes.drop 16).take 4) = name.length) :
    fuseDirent.decode bytes =
      if bytes.length < fuseDirent.size name then none
      else
        some (⟨leNat (bytes.take 8), leNat ((bytes.drop 8).take 8),
          (bytes.drop 24).take name.length⟩, bytes.drop (fuseDirent.size name)) := by
  simp only [fuseDirent, if_neg (not_lt.mpr hheader), hlen]

theorem fuseDirent_length (e : Dirent (List UInt8)) :
    (fuseDirent.encode e).length = fuseDirent.size e.name ∧
      24 + e.name.length ≤ fuseDirent.size e.name := by
  simp only [fuseDirent, List.length_append, leBytes_length, List.length_replicate]
  omega

theorem fuseDirent_read {e : Dirent (List UInt8)} (hino : e.ino < 256 ^ 8)
    (hoff : e.off < 256 ^ 8) (hname : e.name.length < 256 ^ 4) (rest : List UInt8) :
    fuseDirent.decode (fuseDirent.encode e ++ rest) = some (e, rest) := by
  obtain ⟨hlen, hbound⟩ := fuseDirent_length e
  obtain ⟨h₀, h₈, h₁₆, h₂₄⟩ := header_fields (leBytes_length 8 e.ino) (leBytes_length 8 e.off)
    (leBytes_length 4 e.name.length) (leBytes_length 4 0)
    (e.name ++ (List.replicate (fuseDirent.size e.name - (24 + e.name.length)) 0 ++ rest))
  have hbytes : fuseDirent.encode e ++ rest = leBytes 8 e.ino ++ (leBytes 8 e.off ++
      (leBytes 4 e.name.length ++ (leBytes 4 0 ++ (e.name ++
        (List.replicate (fuseDirent.size e.name - (24 + e.name.length)) 0 ++ rest))))) := by
    simp [fuseDirent]
  have hdrop : (fuseDirent.encode e ++ rest).drop (fuseDirent.size e.name) = rest :=
    List.drop_left' hlen
  have hnamelen : leNat (((fuseDirent.encode e ++ rest).drop 16).take 4) = e.name.length := by
    rw [hbytes, h₁₆, leNat_leBytes 4 _ hname]
  have henough : fuseDirent.size e.name ≤ (fuseDirent.encode e ++ rest).length := by
    rw [List.length_append, hlen]
    omega
  rw [fuseDirent_decode (by omega) hnamelen, if_neg (not_lt.mpr henough), hdrop, hbytes, h₀, h₈,
    h₂₄, List.take_left, leNat_leBytes 8 _ hino, leNat_leBytes 8 _ hoff]

/-- A part of an entry is not read, with or without the header. -/
theorem fuseDirent_cut {e : Dirent (List UInt8)} (hname : e.name.length < 256 ^ 4) {n : ℕ}
    (hn : n < (fuseDirent.encode e).length) :
    fuseDirent.decode ((fuseDirent.encode e).take n) = none := by
  have hlen := (fuseDirent_length e).1
  have hlength : ((fuseDirent.encode e).take n).length = n := by
    rw [List.length_take]
    omega
  by_cases hheader : n < 24
  · exact if_pos (hlength.symm ▸ hheader)
  · -- the length of the name is read, and more bytes are needed than there are
    obtain ⟨-, -, h₁₆, -⟩ := header_fields (leBytes_length 8 e.ino) (leBytes_length 8 e.off)
      (leBytes_length 4 e.name.length) (leBytes_length 4 0)
      (e.name ++ List.replicate (fuseDirent.size e.name - (24 + e.name.length)) 0)
    have hnamelen : leNat ((((fuseDirent.encode e).take n).drop 16).take 4) = e.name.length := by
      rw [List.drop_take, List.take_take, Nat.min_eq_left (by omega)]
      exact (congrArg leNat h₁₆).trans (leNat_leBytes 4 _ hname)
    rw [fuseDirent_decode (by omega) hnamelen, hlength, if_pos (hlen ▸ hn)]

/-- An entry whose fields fit is written as FUSE reads it. -/
theorem fuseDirent_writes {e : Dirent (List UInt8)} (hino : e.ino < 256 ^ 8)
    (hoff : e.off < 256 ^ 8) (hname : e.name.length < 256 ^ 4) : fuseDirent.Writes e := by
  obtain ⟨hlen, hbound⟩ := fuseDirent_length e
  refine ⟨hlen, ?_, fuseDirent_read hino hoff hname, fun n hn => fuseDirent_cut hname hn⟩
  intro hnil
  rw [hnil, List.length_nil] at hlen
  omega

/-- The operations of a directory. -/
def fsDirOps : File (List UInt8) → FileOps (List UInt8) Unit :=
  fun _ => ⟨fun _ _ => (), some (fsDirReaddir fuseDirent [46] [46, 46])⟩

/-- A directory with one file, read with room for one entry at a time. -/
theorem readdir_session_one_file :
    ∃ s, runFrom fsStep (Fs.fsCreate [46]) [.createfile 1 [97] none] = some s ∧
      (session (fun n off => replyBytes (s.fuseReaddir fsDirOps 1 n off)) fuseDirent.decode
        Dirent.off (fun _ => 40) 5 0 0).map (List.map fun e => (e.name, e.ino)) =
      some [([46], 1), ([46, 46], 0), ([97], 2)] := by
  refine ⟨_, rfl, ?_⟩
  refine (readdir_session fsDirOps fuseDirent [46] [46, 46] [.createfile 1 [97] none] _ 1 _ _ _ _
    (fun _ => 40) rfl rfl rfl ?_ ?_).2.2 5 (by decide)
  · intro e he
    have hmem : e ∈ [(⟨1, 32, [46]⟩ : Dirent (List UInt8)), ⟨0, 64, [46, 46]⟩, ⟨2, 96, [97]⟩] := he
    simp only [List.mem_cons, List.not_mem_nil, or_false] at hmem
    rcases hmem with rfl | rfl | rfl <;> exact fuseDirent_writes (by decide) (by decide) (by decide)
  · intro k e he
    have hmem : e ∈ [(⟨1, 32, [46]⟩ : Dirent (List UInt8)), ⟨0, 64, [46, 46]⟩, ⟨2, 96, [97]⟩] := he
    simp only [List.mem_cons, List.not_mem_nil, or_false] at hmem
    rcases hmem with rfl | rfl | rfl <;> decide

end SymbiOS.Kld
