import SymbiOS.KldFs

/-!
# The inode table over runs of create and remove calls

Allocation is recorded three times: by the free list, by the `next` fields and by
the file pointers. Creating keeps the three in step. Removing puts the inode back
on the list and leaves its file pointer behind.
-/
namespace SymbiOS.Kld
open SymbiOS.FreeList SymbiOS.GuardedRun

variable {Name : Type}

namespace Fs

/-- The free list ends, so it is acyclic; it holds exactly the inodes that are
not allocated; their number is recorded; and their file pointers are null. -/
def Consistent (s : Fs Name) : Prop :=
  ∃ free, Links s.next s.inoFreelist free ∧ free.Nodup ∧
    (∀ i, i ∈ free ↔ i < s.inoNum ∧ i ∉ s.allocated) ∧
    s.inoNumfree = free.length ∧ ∀ i ∈ free, s.file i = none

/-- Every directory in the heap has as many entries by inode as by name. -/
def Balanced (files : ℕ → Option (File Name)) : Prop :=
  ∀ id f a b, files id = some f → f.data = .directory a b → a.length = b.length

/-- What the create calls keep besides. -/
structure Inv (s : Fs Name) : Prop where
  consistent : s.Consistent
  made : s.inoNum ≠ 0
  inside : ∀ i ∈ s.allocated, i < s.inoNum
  unlinked : ∀ i ∈ s.allocated, s.next i = none
  balanced : Balanced s.files

/-- The two states have the same table and the same list. -/
structure SameTable (s s' : Fs Name) : Prop where
  inoTable : s'.inoTable = s.inoTable
  inoNum : s'.inoNum = s.inoNum
  inoFreelist : s'.inoFreelist = s.inoFreelist
  inoNumfree : s'.inoNumfree = s.inoNumfree
  allocated : s'.allocated = s.allocated

variable {s s' : Fs Name}

lemma SameTable.next (h : SameTable s s') : s'.next = s.next := by
  funext i
  simp only [Fs.next, h.inoTable]

lemma SameTable.file (h : SameTable s s') : s'.file = s.file := by
  funext i
  simp only [Fs.file, h.inoTable]

lemma SameTable.trans {s'' : Fs Name} (h : SameTable s s') (h' : SameTable s' s'') :
    SameTable s s'' := by
  constructor
  · rw [h'.inoTable, h.inoTable]
  · rw [h'.inoNum, h.inoNum]
  · rw [h'.inoFreelist, h.inoFreelist]
  · rw [h'.inoNumfree, h.inoNumfree]
  · rw [h'.allocated, h.allocated]

lemma Inv.of_sameTable (h : s.Inv) (hsame : SameTable s s')
    (hbal : Balanced s'.files) : s'.Inv := by
  constructor
  · unfold Consistent
    rw [hsame.next, hsame.file, hsame.inoNum, hsame.inoFreelist, hsame.inoNumfree,
      hsame.allocated]
    exact h.consistent
  · rw [hsame.inoNum]
    exact h.made
  · rw [hsame.inoNum, hsame.allocated]
    exact h.inside
  · rw [hsame.next, hsame.allocated]
    exact h.unlinked
  · exact hbal

lemma next_takeFree (s : Fs Name) (i : ℕ) :
    (s.takeFree i).next = Function.update s.next i none := by
  funext j
  by_cases h : j = i
  · subst h; simp [Fs.next, takeFree]
  · simp [Fs.next, takeFree, h]

lemma file_takeFree (s : Fs Name) (i : ℕ) : (s.takeFree i).file = s.file := by
  funext j
  by_cases h : j = i
  · subst h; simp [Fs.file, takeFree]
  · simp [Fs.file, takeFree, h]

/-- With an inode left, the list has a head, and it is free. -/
lemma Inv.freelist_eq_some (h : s.Inv) (hroom : s.allocated.card < s.inoNum) :
    ∃ i, s.inoFreelist = some i := by
  obtain ⟨free, hlinks, -, hmem, -, -⟩ := h.consistent
  cases free with
  | nil =>
    exfalso
    have hall : Finset.range s.inoNum ⊆ s.allocated := by
      intro i hi
      by_contra hnot
      have hfree := (hmem i).mpr ⟨Finset.mem_range.mp hi, hnot⟩
      simp at hfree
    have hcard := Finset.card_le_card hall
    rw [Finset.card_range] at hcard
    omega
  | cons i rest => exact ⟨i, hlinks.1⟩

lemma Inv.head (h : s.Inv) {i : ℕ} (hi : s.inoFreelist = some i) :
    i < s.inoNum ∧ i ∉ s.allocated ∧ s.file i = none ∧ 0 < s.inoNumfree := by
  obtain ⟨free, hlinks, -, hmem, hnum, hfile⟩ := h.consistent
  rw [hi] at hlinks
  obtain ⟨rest, rfl, -⟩ := hlinks.pop none
  have hhead := (hmem i).mp List.mem_cons_self
  refine ⟨hhead.1, hhead.2, hfile i List.mem_cons_self, ?_⟩
  rw [hnum, List.length_cons]
  omega

/-- The head of the list is taken off it. -/
lemma linked_takeFree {i : ℕ} {free : List ℕ} (hi : s.inoFreelist = some i)
    (hlinks : Links s.next s.inoFreelist free) (hnodup : free.Nodup)
    (hmem : ∀ j, j ∈ free ↔ j < s.inoNum ∧ j ∉ s.allocated) (hnum : s.inoNumfree = free.length) :
    ∃ rest, free = i :: rest ∧ Links (s.takeFree i).next (s.takeFree i).inoFreelist rest ∧
      rest.Nodup ∧ (∀ j, j ∈ rest ↔ j < (s.takeFree i).inoNum ∧ j ∉ (s.takeFree i).allocated) ∧
      (s.takeFree i).inoNumfree = rest.length := by
  rw [hi] at hlinks
  obtain ⟨rest, rfl, hrest⟩ := hlinks.pop none
  obtain ⟨hout, hnodup⟩ := List.nodup_cons.mp hnodup
  refine ⟨rest, rfl, ?_, hnodup, fun j => ?_, ?_⟩
  · rw [next_takeFree]
    exact hrest
  · have hj := hmem j
    show j ∈ rest ↔ j < s.inoNum ∧ j ∉ insert i s.allocated
    rw [List.mem_cons] at hj
    by_cases hji : j = i
    · subst hji
      simp [hout]
    · simpa [hji] using hj
  · show s.inoNumfree - 1 = rest.length
    rw [hnum, List.length_cons]
    omega

lemma inside_takeFree {i : ℕ} (hlt : i < s.inoNum) (h : ∀ j ∈ s.allocated, j < s.inoNum) :
    ∀ j ∈ (s.takeFree i).allocated, j < (s.takeFree i).inoNum := by
  intro j hj
  rcases Finset.mem_insert.mp hj with rfl | hj
  · exact hlt
  · exact h j hj

lemma unlinked_takeFree {i : ℕ} (hnot : i ∉ s.allocated)
    (h : ∀ j ∈ s.allocated, s.next j = none) :
    ∀ j ∈ (s.takeFree i).allocated, (s.takeFree i).next j = none := by
  intro j hj
  rw [next_takeFree]
  rcases Finset.mem_insert.mp hj with rfl | hj
  · exact Function.update_self j none s.next
  · have hne : j ≠ i := fun he => hnot (he ▸ hj)
    rw [Function.update_of_ne hne]
    exact h j hj

lemma Inv.takeFree (h : s.Inv) {i : ℕ} (hi : s.inoFreelist = some i) : (s.takeFree i).Inv := by
  obtain ⟨hlt, hnot, -, -⟩ := h.head hi
  constructor
  · obtain ⟨free, hlinks, hnodup, hmem, hnum, hfile⟩ := h.consistent
    obtain ⟨rest, rfl, hlinks, hnodup, hmem, hnum⟩ := linked_takeFree hi hlinks hnodup hmem hnum
    refine ⟨rest, hlinks, hnodup, hmem, hnum, fun j hj => ?_⟩
    rw [file_takeFree]
    exact hfile j (List.mem_cons_of_mem i hj)
  · exact h.made
  · exact inside_takeFree hlt h.inside
  · exact unlinked_takeFree hnot h.unlinked
  · exact h.balanced

/-- `inoalloc` hands out the head of the list. -/
lemma Inv.inoalloc_eq (h : s.Inv) {i : ℕ} (hi : s.inoFreelist = some i) :
    s.inoalloc = some (s.takeFree i, i) := by
  obtain ⟨hlt, -, hfile, hpos⟩ := h.head hi
  unfold inoalloc
  simp only [if_neg h.made, hi]
  rw [if_neg (not_le.mpr hlt), if_neg (by omega), if_neg (by simp [hfile])]

lemma sameTable_setFile (s : Fs Name) (id : ℕ) (f : Option (File Name)) :
    SameTable s (s.setFile id f) := ⟨rfl, rfl, rfl, rfl, rfl⟩

lemma sameTable_newFile (s : Fs Name) (f : File Name) : SameTable s (s.newFile f).1 :=
  ⟨rfl, rfl, rfl, rfl, rfl⟩

lemma Balanced.update {files : ℕ → Option (File Name)} (h : Balanced files) (id : ℕ)
    {f : File Name} (hf : ∀ a b, f.data = .directory a b → a.length = b.length) :
    Balanced (Function.update files id (some f)) := by
  intro id' g a b hg hd
  by_cases hid : id' = id
  · subst hid
    rw [Function.update_self, Option.some.injEq] at hg
    subst hg
    exact hf a b hd
  · rw [Function.update_of_ne hid] at hg
    exact h id' g a b hg hd

lemma next_setFileOf (s : Fs Name) (i id : ℕ) : (s.setFileOf i id).next = s.next := by
  funext j
  by_cases h : j = i
  · subst h; simp [Fs.next, setFileOf]
  · simp [Fs.next, setFileOf, h]

lemma file_setFileOf_of_ne (s : Fs Name) {i j : ℕ} (id : ℕ) (h : j ≠ i) :
    (s.setFileOf i id).file j = s.file j := by
  simp [Fs.file, setFileOf, h]

/-- Only free inodes need a null file pointer. -/
lemma Inv.setFileOf (h : s.Inv) {i : ℕ} (hi : i ∈ s.allocated) (id : ℕ) :
    (s.setFileOf i id).Inv := by
  constructor
  · obtain ⟨free, hlinks, hnodup, hmem, hnum, hfile⟩ := h.consistent
    refine ⟨free, ?_, hnodup, hmem, hnum, fun j hj => ?_⟩
    · rw [next_setFileOf]
      exact hlinks
    · have hne : j ≠ i := by
        intro he
        exact ((hmem j).mp hj).2 (he ▸ hi)
      rw [file_setFileOf_of_ne s id hne]
      exact hfile j hj
  · exact h.made
  · exact h.inside
  · rw [next_setFileOf]
    exact h.unlinked
  · exact h.balanced

variable [DecidableEq Name]

lemma sameTable_dirAdd (s : Fs Name) (id : ℕ) (d : File Name) (a b : List ℕ) (item : ℕ)
    (f : File Name) : SameTable s (s.dirAdd id d a b item f) := by
  unfold dirAdd
  split
  · exact ⟨rfl, rfl, rfl, rfl, rfl⟩
  · split
    · exact ⟨rfl, rfl, rfl, rfl, rfl⟩
    · exact sameTable_setFile s id _

lemma balanced_dirAdd (h : Balanced s.files) (id : ℕ) (d : File Name) {a b : List ℕ}
    (hab : a.length = b.length) (item : ℕ) (f : File Name) :
    Balanced (s.dirAdd id d a b item f).files := by
  unfold dirAdd
  split
  · exact h
  · split
    · exact h
    · apply h.update
      intro a' b' hd
      simp only [FileData.directory.injEq] at hd
      rw [← hd.1, ← hd.2, List.length_cons, List.length_cons, hab]

/-- The inode belongs to a directory that has no item of this name. -/
def LiveDir (s : Fs Name) (ino : ℕ) (name : Name) : Prop :=
  ino ≠ INVALID_INO ∧ ino ∈ s.allocated ∧ ∃ id f a b, s.file ino = some id ∧
    s.files id = some f ∧ f.data = .directory a b ∧ s.findName b name = none

omit [DecidableEq Name] in
lemma Inv.directoryOf_eq (h : s.Inv) {ino id : ℕ} {f : File Name} {a b : List ℕ}
    (hin : ino ∈ s.allocated) (hid : s.file ino = some id) (hf : s.files id = some f)
    (hd : f.data = .directory a b) : s.directoryOf ino = some (id, f, a, b) := by
  unfold directoryOf
  rw [if_neg (not_le.mpr (h.inside ino hin)), if_neg (by simp [h.unlinked ino hin])]
  simp [hid, hf, hd]

/-- A new item in a live directory. -/
lemma Inv.createIn (h : s.Inv) {i ino id : ℕ} {f : File Name} {a b : List ℕ} {data : FileData Name}
    (hi : i ∈ s.allocated) (hin : ino ∈ s.allocated) (hid : s.file ino = some id)
    (hf : s.files id = some f) (hd : f.data = .directory a b)
    (hnew : ∀ a b, data = .directory a b → a.length = b.length) (name : Name) :
    ∃ r, s.createIn i ino name data = some r ∧ r.1.Inv := by
  let item : File Name := ⟨name, i, ino, data⟩
  have hdir := h.directoryOf_eq hin hid hf hd
  have hab : a.length = b.length := h.balanced id f a b hf hd
  have hnewFile : Balanced (s.newFile item).1.files := Balanced.update h.balanced s.nextFile hnew
  have hsame := (sameTable_newFile s item).trans
    (sameTable_dirAdd (s.newFile item).1 id f a b s.nextFile item)
  have hinv := h.of_sameTable hsame (balanced_dirAdd hnewFile id f hab s.nextFile item)
  refine ⟨(((s.newFile item).1.dirAdd id f a b s.nextFile item).setFileOf i s.nextFile,
    s.nextFile), ?_, hinv.setFileOf ?_ s.nextFile⟩
  · simp only [Fs.createIn, hdir, Option.bind_eq_bind, Option.bind_some]
    rfl
  · rw [hsame.allocated]
    exact hi

/-- What both create calls do once `inoalloc` has returned. -/
lemma Inv.createIn_takeFree (h : s.Inv) {i ino : ℕ} {name : Name} {data : FileData Name}
    (hi : s.inoFreelist = some i) (hdir : s.LiveDir ino name)
    (hnew : ∀ a b, data = .directory a b → a.length = b.length) :
    ∃ r, (s.takeFree i).createIn i ino name data = some r ∧ r.1.Inv := by
  obtain ⟨-, hin, id, f, a, b, hid, hf, hd, -⟩ := hdir
  apply (h.takeFree hi).createIn (Finset.mem_insert_self i s.allocated)
    (Finset.mem_insert_of_mem hin) _ hf hd hnew
  rw [file_takeFree]
  exact hid

omit [DecidableEq Name] in
/-- The assertion on the new descriptor. -/
lemma Inv.takeFree_clear (h : s.Inv) {i : ℕ} (hi : s.inoFreelist = some i) :
    ¬ ((s.takeFree i).file i ≠ none ∨ (s.takeFree i).next i ≠ none) := by
  have hfile := (h.head hi).2.2.1
  rw [file_takeFree, next_takeFree, Function.update_self]
  simp [hfile]

/-- A create call in a directory comes down to `createIn`. -/
lemma Inv.fsCreatedir_eq (h : s.Inv) {i ino : ℕ} (hi : s.inoFreelist = some i)
    (hino : ino ≠ INVALID_INO) (name : Name) :
    s.fsCreatedir ino name = (s.takeFree i).createIn i ino name (.directory [] []) := by
  simp only [Fs.fsCreatedir, h.inoalloc_eq hi, Option.bind_eq_bind, Option.bind_some]
  rw [if_neg (h.takeFree_clear hi), if_neg hino]

lemma Inv.fsCreatefile_eq (h : s.Inv) {i ino : ℕ} (hi : s.inoFreelist = some i)
    (hino : ino ≠ INVALID_INO) (name : Name) (symlink : Option Name) :
    s.fsCreatefile ino name symlink = (s.takeFree i).createIn i ino name (newData symlink) := by
  simp only [Fs.fsCreatefile, h.inoalloc_eq hi, Option.bind_eq_bind, Option.bind_some]
  rw [if_neg (h.takeFree_clear hi), if_neg hino]

lemma Inv.fsCreatedir (h : s.Inv) (hroom : s.allocated.card < s.inoNum) {ino : ℕ} {name : Name}
    (hdir : s.LiveDir ino name) : ∃ r, s.fsCreatedir ino name = some r ∧ r.1.Inv := by
  obtain ⟨i, hi⟩ := h.freelist_eq_some hroom
  have hnew : ∀ a b, FileData.directory [] [] = (.directory a b : FileData Name) →
      a.length = b.length := by simp
  rw [h.fsCreatedir_eq hi hdir.1]
  exact h.createIn_takeFree hi hdir hnew

lemma Inv.fsCreatefile (h : s.Inv) (hroom : s.allocated.card < s.inoNum) {ino : ℕ} {name : Name}
    (symlink : Option Name) (hdir : s.LiveDir ino name) :
    ∃ r, s.fsCreatefile ino name symlink = some r ∧ r.1.Inv := by
  obtain ⟨i, hi⟩ := h.freelist_eq_some hroom
  have hnew : ∀ a b, newData symlink = .directory a b → a.length = b.length := by
    cases symlink <;> simp [newData]
  rw [h.fsCreatefile_eq hi hdir.1]
  exact h.createIn_takeFree hi hdir hnew

omit [DecidableEq Name] in
lemma inv_initInotable : ((empty : Fs Name).initInotable).Inv := by
  constructor
  · refine ⟨List.range' 0 INO_NUM, ?_, List.nodup_range', fun i => ?_, ?_, fun i _ => rfl⟩
    · have hnext : ∀ i < INO_NUM, (empty : Fs Name).initInotable.next i =
          if i + 1 < INO_NUM then some (i + 1) else none := fun i _ => rfl
      have hlinks := links_range hnext INO_NUM le_rfl
      rw [Nat.sub_self, if_pos (by decide)] at hlinks
      exact hlinks
    · simp [initInotable, empty]
    · simp [initInotable]
  · simp [initInotable, INO_NUM]
  · simp [initInotable, empty]
  · simp [initInotable, empty]
  · intro id f a b hf
    simp [initInotable, empty] at hf

/-- The state after the setup: inodes 0 and 1 are taken, and the root has the second. -/
def created (dot : Name) : Fs Name :=
  ((((empty : Fs Name).initInotable.takeFree 0).takeFree 1).newFile
    ⟨dot, 1, INVALID_INO, .directory [] []⟩).1.setFileOf 1 0

omit [DecidableEq Name] in
lemma inv_created (dot : Name) : (created dot).Inv := by
  let s : Fs Name := ((empty : Fs Name).initInotable.takeFree 0).takeFree 1
  have h : s.Inv := (inv_initInotable.takeFree rfl).takeFree rfl
  let root : File Name := ⟨dot, 1, INVALID_INO, .directory [] []⟩
  have hbal : Balanced (s.newFile root).1.files := Balanced.update h.balanced _ (by simp [root])
  have hnew := h.of_sameTable (sameTable_newFile s root) hbal
  exact hnew.setFileOf (Finset.mem_insert_self 1 _) 0

/-- `fsCreate` sets up the table without a failing assertion. -/
lemma fsCreate_eq (dot : Name) : fsCreate dot = some (created dot) := by
  let s₀ : Fs Name := (empty : Fs Name).initInotable
  let s₁ : Fs Name := s₀.takeFree 0
  have h₀ : s₀.Inv := inv_initInotable
  have h₁ : s₁.Inv := h₀.takeFree rfl
  have hhead : s₁.inoFreelist = some 1 := rfl
  have hfirst : (empty : Fs Name).inoalloc = some (s₁, 0) := h₀.inoalloc_eq rfl
  have hdir : s₁.fsCreatedir INVALID_INO dot = some (created dot, 0) := by
    simp only [Fs.fsCreatedir, h₁.inoalloc_eq hhead, Option.bind_eq_bind, Option.bind_some]
    rw [if_neg (h₁.takeFree_clear hhead), if_pos trivial]
    rfl
  simp only [fsCreate, hfirst, Option.bind_eq_bind, Option.bind_some]
  rw [if_neg (by simp [INVALID_INO])]
  simp only [hdir, Option.bind_some]
  rfl

lemma fsCreate_eq_some (dot : Name) : ∃ s : Fs Name, fsCreate dot = some s ∧ s.Inv :=
  ⟨created dot, fsCreate_eq dot, inv_created dot⟩

/-- A free inode that still points to a file. -/
def Stale (i : ℕ) (s : Fs Name) : Prop := i < s.inoNum ∧ i ∉ s.allocated ∧ s.file i ≠ none

omit [DecidableEq Name] in
lemma Stale.not_consistent {i : ℕ} (h : Stale i s) : ¬ s.Consistent := by
  rintro ⟨free, -, -, hmem, -, hfile⟩
  exact h.2.2 (hfile i ((hmem i).mpr ⟨h.1, h.2.1⟩))

/-- An inode was put back, and all file pointers are as before. -/
structure Freed (ino : ℕ) (s s' : Fs Name) : Prop where
  lt : ino < s.inoNum
  inoNum : s'.inoNum = s.inoNum
  file : s'.file = s.file
  allocated : s'.allocated = s.allocated.erase ino

omit [DecidableEq Name] in
lemma Freed.stale {ino i : ℕ} (h : Freed ino s s') (hi : Stale i s) : Stale i s' := by
  refine ⟨?_, ?_, ?_⟩
  · rw [h.inoNum]
    exact hi.1
  · rw [h.allocated]
    exact fun hmem => hi.2.1 (Finset.mem_of_mem_erase hmem)
  · rw [h.file]
    exact hi.2.2

omit [DecidableEq Name] in
/-- The inode itself is left with its pointer. -/
lemma Freed.stale_self {ino : ℕ} (h : Freed ino s s') (hfile : s.file ino ≠ none) :
    Stale ino s' := by
  refine ⟨?_, ?_, ?_⟩
  · rw [h.inoNum]
    exact h.lt
  · rw [h.allocated]
    exact Finset.notMem_erase ino s.allocated
  · rw [h.file]
    exact hfile

omit [DecidableEq Name] in
lemma freed_of_inofree {ino : ℕ} (h : s.inofree ino = some s') : Freed ino s s' := by
  unfold inofree at h
  split at h
  · cases h
  · rename_i hlt
    split at h
    · cases h
    · cases h
      refine ⟨not_le.mp hlt, rfl, ?_, rfl⟩
      funext j
      by_cases hj : j = ino
      · subst hj; simp [Fs.file]
      · simp [Fs.file, hj]

omit [DecidableEq Name] in
lemma freed_of_release {item : ℕ} {f : File Name} (h : s.release item f = some s') :
    Freed f.ino s s' := by
  simp only [release, Option.bind_eq_bind, Option.bind_eq_some_iff, Option.some.injEq] at h
  obtain ⟨s₁, hfree, rfl⟩ := h
  have hfreed := freed_of_inofree hfree
  exact ⟨hfreed.lt, hfreed.inoNum, hfreed.file, hfreed.allocated⟩

lemma freed_of_detach {item : ℕ} {f : File Name} {r : Fs Name × Option ℕ}
    (h : s.detach item f = some r) : Freed f.ino s r.1 := by
  simp only [detach, Option.bind_eq_bind, Option.bind_eq_some_iff] at h
  obtain ⟨⟨id, d, a, b⟩, -, h⟩ := h
  -- the assertions on the containing directory
  split at h
  · cases h
  split at h
  · cases h
  split at h
  · cases h
  split at h
  · cases h
  simp only [Option.bind_eq_some_iff, Option.some.injEq] at h
  obtain ⟨s₁, hrel, rfl⟩ := h
  have hfreed := freed_of_release hrel
  exact ⟨hfreed.lt, hfreed.inoNum, hfreed.file, hfreed.allocated⟩

/-- The item is a directory that is not empty. -/
def Refused (s : Fs Name) (item : ℕ) : Prop :=
  ∃ f a b, s.files item = some f ∧ f.data = .directory a b ∧ a ≠ []

/-- A removal is refused and changes nothing, or frees the inode of the item. -/
lemma removeOne_cases {item : ℕ} {r : Fs Name × Bool × Option ℕ} (h : s.removeOne item = some r) :
    (s.Refused item ∧ r = (s, false, none)) ∨
      (¬ s.Refused item ∧ ∃ f, s.files item = some f ∧ Freed f.ino s r.1) := by
  simp only [removeOne, Option.bind_eq_bind, Option.bind_eq_some_iff] at h
  obtain ⟨f, hf, h⟩ := h
  cases hd : f.data with
  | directory a b =>
    rw [hd] at h
    by_cases ha : a = []
    · right
      have hnot : ¬ s.Refused item := by
        rintro ⟨f', a', b', hf', hd', hne⟩
        rw [hf, Option.some.injEq] at hf'
        subst hf'
        rw [hd, FileData.directory.injEq] at hd'
        exact hne (hd'.1 ▸ ha)
      refine ⟨hnot, f, hf, ?_⟩
      simp only [ha, List.length_nil, ne_eq, not_true_eq_false, if_false] at h
      split_ifs at h
      · obtain ⟨s₁, hs₁, rfl⟩ := Option.map_eq_some_iff.mp h
        exact freed_of_release hs₁
      · obtain ⟨r', hr', rfl⟩ := Option.map_eq_some_iff.mp h
        exact freed_of_detach hr'
    · left
      have hlen : a.length ≠ 0 := fun he => ha (List.eq_nil_of_length_eq_zero he)
      refine ⟨⟨f, a, b, hf, hd, ha⟩, ?_⟩
      simp only [if_pos hlen] at h
      split_ifs at h
      exact (Option.some.inj h).symm
  | regular | symlink =>
    right
    have hnot : ¬ s.Refused item := by
      rintro ⟨f', a', b', hf', hd', -⟩
      rw [hf, Option.some.injEq] at hf'
      subst hf'
      rw [hd] at hd'
      cases hd'
    refine ⟨hnot, f, hf, ?_⟩
    rw [hd] at h
    simp only at h
    split_ifs at h
    obtain ⟨r', hr', rfl⟩ := Option.map_eq_some_iff.mp h
    exact freed_of_detach hr'

/-- A directory that is not empty is refused before anything is changed. -/
lemma removeOne_of_refused (hbal : Balanced s.files) {item : ℕ} (h : s.Refused item) :
    s.removeOne item = some (s, false, none) := by
  obtain ⟨f, a, b, hf, hd, hne⟩ := h
  have hab := hbal item f a b hf hd
  have hlen : a.length ≠ 0 := fun he => hne (List.eq_nil_of_length_eq_zero he)
  simp only [removeOne, hf, Option.bind_eq_bind, Option.bind_some, hd]
  rw [if_neg (not_not.mpr hab), if_pos hlen]

lemma fsRemoveitem_of_refused (hbal : Balanced s.files) {item : ℕ} (h : s.Refused item)
    (purge : Bool) (fuel : ℕ) : fsRemoveitem purge fuel s item = some (s, false) := by
  have hone := removeOne_of_refused hbal h
  cases fuel with
  | zero => simp [fsRemoveitem, hone]
  | succ fuel => simp [fsRemoveitem, hone]

/-- The first removal of a call, and the purge that may follow. -/
lemma fsRemoveitem_cases {purge : Bool} {fuel item : ℕ} {r : Fs Name × Bool}
    (h : fsRemoveitem purge fuel s item = some r) :
    ∃ q, s.removeOne item = some q ∧ (r.1 = q.1 ∨
      ∃ fuel' dir r', fuel = fuel' + 1 ∧ fsRemoveitem purge fuel' q.1 dir = some r' ∧
        r.1 = r'.1) := by
  cases fuel with
  | zero =>
    obtain ⟨q, hq, rfl⟩ := Option.map_eq_some_iff.mp h
    exact ⟨q, hq, Or.inl rfl⟩
  | succ fuel =>
    simp only [fsRemoveitem, Option.bind_eq_bind, Option.bind_eq_some_iff] at h
    obtain ⟨q, hq, h⟩ := h
    refine ⟨q, hq, ?_⟩
    split at h
    · cases h
      exact Or.inl rfl
    · split at h
      · obtain ⟨r', hr', rfl⟩ := Option.map_eq_some_iff.mp h
        exact Or.inr ⟨fuel, _, r', rfl, hr', rfl⟩
      · cases h
        exact Or.inl rfl

/-- No removal clears a pointer or takes an inode off the list. -/
lemma stale_of_removeOne {item i : ℕ} {q : Fs Name × Bool × Option ℕ}
    (h : s.removeOne item = some q) (hi : Stale i s) : Stale i q.1 := by
  rcases removeOne_cases h with ⟨-, rfl⟩ | ⟨-, f, -, hfreed⟩
  · exact hi
  · exact hfreed.stale hi

/-- What every removal keeps is kept by a call with its purge. -/
lemma fsRemoveitem_invariant {P : Fs Name → Prop}
    (hstep : ∀ s item q, P s → s.removeOne item = some q → P q.1)
    {purge : Bool} {fuel item : ℕ} {r : Fs Name × Bool}
    (h : fsRemoveitem purge fuel s item = some r) (hs : P s) : P r.1 := by
  induction fuel generalizing s item r with
  | zero =>
    obtain ⟨q, hq, hr | ⟨fuel', -, -, hfuel, -⟩⟩ := fsRemoveitem_cases h
    · rw [hr]
      exact hstep s item q hs hq
    · omega
  | succ fuel ih =>
    obtain ⟨q, hq, hr | ⟨fuel', dir, r', hfuel, hr', hr⟩⟩ := fsRemoveitem_cases h
    · rw [hr]
      exact hstep s item q hs hq
    · obtain rfl : fuel = fuel' := by omega
      rw [hr]
      exact ih hr' (hstep s item q hs hq)

lemma stale_of_fsRemoveitem {purge : Bool} {fuel item i : ℕ} {r : Fs Name × Bool}
    (h : fsRemoveitem purge fuel s item = some r) (hi : Stale i s) : Stale i r.1 :=
  fsRemoveitem_invariant (P := Stale i) (fun _ _ _ hs hq => stale_of_removeOne hq hs) h hi

/-- The item is the file of an allocated inode. -/
def Live (s : Fs Name) (item : ℕ) : Prop :=
  ∃ f, s.files item = some f ∧ f.ino ∈ s.allocated ∧ s.file f.ino = some item

/-- A removal that is not refused leaves a stale inode behind. -/
lemma exists_stale_of_fsRemoveitem {purge : Bool} {fuel item : ℕ} {r : Fs Name × Bool}
    (hlive : s.Live item) (hnot : ¬ s.Refused item)
    (h : fsRemoveitem purge fuel s item = some r) : ∃ i, Stale i r.1 := by
  obtain ⟨f, hf, -, hfile⟩ := hlive
  obtain ⟨q, hq, hr⟩ := fsRemoveitem_cases h
  have hstale : Stale f.ino q.1 := by
    rcases removeOne_cases hq with ⟨href, -⟩ | ⟨-, f', hf', hfreed⟩
    · exact absurd href hnot
    · rw [hf, Option.some.injEq] at hf'
      subst hf'
      exact hfreed.stale_self (by simp [hfile])
  use f.ino
  rcases hr with hr | ⟨fuel', dir, r', -, hr', hr⟩
  · rw [hr]
    exact hstale
  · rw [hr]
    exact stale_of_fsRemoveitem hr' hstale

/-- The calls are made on live items, with a new name and an inode left for what
they create. -/
def Allowed (s : Fs Name) : FsCall Name → Prop
  | .createdir parentino name => s.allocated.card < s.inoNum ∧ s.LiveDir parentino name
  | .createfile dirino name _ => s.allocated.card < s.inoNum ∧ s.LiveDir dirino name
  | .removeitem item _ => s.Live item

/-- The call does not remove anything. -/
def Keeps (s : Fs Name) : FsCall Name → Prop
  | .removeitem item _ => s.Refused item
  | _ => True

/-- One call: it keeps the table consistent exactly when it removes nothing. -/
lemma Inv.step (h : s.Inv) {call : FsCall Name} (hallowed : s.Allowed call) :
    ((∃ s', s.step call = some s' ∧ s'.Consistent) ↔ s.Keeps call) ∧
    (s.Keeps call → ∃ s', s.step call = some s' ∧ s'.Inv) := by
  have hkeep : s.Keeps call → ∃ s', s.step call = some s' ∧ s'.Inv := by
    intro hk
    cases call with
    | createdir parentino name =>
      obtain ⟨r, hr, hinv⟩ := h.fsCreatedir hallowed.1 hallowed.2
      exact ⟨r.1, by simp [Fs.step, hr], hinv⟩
    | createfile dirino name symlink =>
      obtain ⟨r, hr, hinv⟩ := h.fsCreatefile hallowed.1 symlink hallowed.2
      exact ⟨r.1, by simp [Fs.step, hr], hinv⟩
    | removeitem item purge =>
      refine ⟨s, ?_, h⟩
      simp [Fs.step, fsRemoveitem_of_refused h.balanced hk]
  refine ⟨⟨fun hcons => ?_, fun hk => ?_⟩, hkeep⟩
  · cases call with
    | createdir | createfile => trivial
    | removeitem item purge =>
      by_contra hnot
      obtain ⟨s', hs', hc⟩ := hcons
      obtain ⟨r, hr, rfl⟩ := Option.map_eq_some_iff.mp hs'
      obtain ⟨i, hstale⟩ := exists_stale_of_fsRemoveitem hallowed hnot hr
      exact hstale.not_consistent hc
  · obtain ⟨s', hs', hinv⟩ := hkeep hk
    exact ⟨s', hs', hinv.consistent⟩

end Fs

/-- A program whose assertions have held so far makes the next call. -/
def fsStep [DecidableEq Name] (st : Option (Fs Name)) (call : FsCall Name) : Option (Fs Name) :=
  st.bind fun s => s.step call

def CallAllowed [DecidableEq Name] (st : Option (Fs Name)) (call : FsCall Name) : Prop :=
  ∀ s, st = some s → s.Allowed call

/-- No file and no empty directory is removed. -/
def CallKeeps (st : Option (Fs Name)) (call : FsCall Name) : Prop :=
  ∀ s, st = some s → s.Keeps call

/-- No assertion has failed, and the table is consistent. -/
def TableConsistent (st : Option (Fs Name)) : Prop := ∃ s, st = some s ∧ s.Consistent

/-- For any sequence of allowed calls after the setup: no assertion fails and the
inode table is consistent in every state on the way, exactly when no call removes
anything. -/
theorem inodes_consistent_iff [DecidableEq Name] (dot : Name) (calls : List (FsCall Name))
    (h : Guarded fsStep CallAllowed (Fs.fsCreate dot) calls) :
    (∀ before, before <+: calls → TableConsistent (runFrom fsStep (Fs.fsCreate dot) before)) ↔
      Guarded fsStep CallKeeps (Fs.fsCreate dot) calls := by
  have hP : ∀ st : Option (Fs Name), (∃ s, st = some s ∧ s.Inv) → TableConsistent st := by
    rintro st ⟨s, hs, hinv⟩
    exact ⟨s, hs, hinv.consistent⟩
  apply Guarded.forall_prefix_iff hP _ h (Fs.fsCreate_eq_some dot)
  rintro st call ⟨s, rfl, hinv⟩ hallowed
  have hkeeps : CallKeeps (some s) call ↔ s.Keeps call := by simp [CallKeeps]
  rw [hkeeps]
  exact hinv.step (hallowed s rfl)

/-- A directory with a file in it is not removed. -/
theorem inodes_consistent_after_refusal :
    TableConsistent (runFrom fsStep (Fs.fsCreate 0)
      [.createdir 1 5, .createfile 2 6 none, .removeitem 1 true]) := by
  refine (inodes_consistent_iff 0 [.createdir 1 5, .createfile 2 6 none, .removeitem 1 true]
    ⟨?_, ?_, ?_, trivial⟩).mpr ⟨?_, ?_, ?_, trivial⟩ _ (List.prefix_refl _)
  · intro s hs
    cases hs
    exact ⟨by decide, by decide, by decide, _, _, _, _, rfl, rfl, rfl, rfl⟩
  · intro s hs
    cases hs
    exact ⟨by decide, by decide, by decide, _, _, _, _, rfl, rfl, rfl, rfl⟩
  · intro s hs
    cases hs
    exact ⟨_, rfl, by decide, rfl⟩
  · intro s hs
    trivial
  · intro s hs
    trivial
  · intro s hs
    cases hs
    exact ⟨_, _, _, rfl, rfl, by decide⟩

/-- One file is created and removed: its inode is free and still points to the
freed file, and the next create call fails the assertion of `inoalloc`. -/
theorem inodes_stale_after_remove :
    Guarded fsStep CallAllowed (Fs.fsCreate 0)
      [.createfile 1 7 none, .removeitem 1 false, .createfile 1 8 none] ∧
    ¬ TableConsistent (runFrom fsStep (Fs.fsCreate 0) [.createfile 1 7 none, .removeitem 1 false]) ∧
    runFrom fsStep (Fs.fsCreate 0)
      [.createfile 1 7 none, .removeitem 1 false, .createfile 1 8 none] = none := by
  refine ⟨⟨?_, ?_, ?_, trivial⟩, ?_, rfl⟩
  · intro s hs
    cases hs
    exact ⟨by decide, by decide, by decide, _, _, _, _, rfl, rfl, rfl, rfl⟩
  · intro s hs
    cases hs
    exact ⟨_, rfl, by decide, rfl⟩
  · intro s hs
    cases hs
    exact ⟨by decide, by decide, by decide, _, _, _, _, rfl, rfl, rfl, rfl⟩
  rintro ⟨s, hs, hc⟩
  cases hs
  exact Fs.Stale.not_consistent (i := 2) ⟨by decide, by decide, by decide⟩ hc

end SymbiOS.Kld
